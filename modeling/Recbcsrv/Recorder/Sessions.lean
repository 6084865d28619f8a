import Recbcsrv.Recorder.Handles

/-! The recorder behind the instructor thread. The messages that reach it open and close sessions in turn, so a start finds
    it idle and a stop finds it recording; from this follows which of its calls find their files open. -/

namespace Recbcsrv
open Bytes

/-- What a message of the instructor thread asks the recorder to do. -/
inductive CtrlOp where
  | start
  | stop
  | pause
  | resume
  | none
  deriving DecidableEq, Repr

namespace CtrlOp

/-- The session after it. -/
def next (st : RecbcStatus) : CtrlOp → RecbcStatus
  | start => .working
  | stop => .idle
  | _ => st

/-- Only a closed session is started, and only an open one is stopped, paused and resumed. -/
def Enabled (st : RecbcStatus) : CtrlOp → Prop
  | start => st = .idle
  | none => True
  | _ => st = .working

/-- Everything asked for is enabled. -/
def Lawful : RecbcStatus → List CtrlOp → Prop
  | _, [] => True
  | st, op :: ops => op.Enabled st ∧ Lawful (op.next st) ops

/-- The operation that a message stands for. -/
def ofMsg (m : Mem) : CtrlOp :=
  if msgCmd m = commandGetdata then
    if (attrsOf m).any fun a => a.named "Type" && a.valued "All" then start else stop
  else if msgCmd m = commandInternal then
    if (attrsOf m).any (·.named "Pause") then pause else if (attrsOf m).any (·.named "Resume") then resume else none
  else none

end CtrlOp

/-- What the message of a turn asks for. -/
def Turn.op (t : Turn) : CtrlOp := t.ctrl.elim .none CtrlOp.ofMsg

/-- The session after the messages of some turns. -/
def sessionAfter (st : RecbcStatus) (turns : List Turn) : RecbcStatus := turns.foldl (fun st t => t.op.next st) st

/-- The operation on the recorder. -/
def Recorder.doOp (isResouceMode : Int) (r : Recorder) : CtrlOp → Recorder
  | .start => r.setAll isResouceMode .start
  | .stop => r.setAll isResouceMode .stop
  | .pause => (r.setAll isResouceMode .pause).emit [.write .pfd (.marker (.pause r.frameCount))]
  | .resume => r.setAll isResouceMode .resume
  | .none => r

/-- The messages of the turns are the first ones that the instructor thread sends when it handles some messages. -/
def Fed (turns : List Turn) : Prop :=
  ∃ msgs : List (InstructorEnv × Mem), (∀ p ∈ msgs, Handleable p.2) ∧
    ∃ sent, sent <+: (Instructor.start.run msgs).sent ∧ List.Forall₂ OutMsg.Carried sent (turns.filterMap Turn.ctrl)

/-! ### The messages -/

/-- The message is none that the recorder heeds. -/
def OutMsg.Unheeded (o : OutMsg) : Prop :=
  o.cmd ≠ commandGetdata ∧ (o.cmd = commandInternal → ∀ a ∈ o.args, a.attr.named "Pause" = false ∧ a.attr.named "Resume" = false)

/-- The recorder knows the message or does not heed it. -/
def OutMsg.Known (o : OutMsg) : Prop :=
  o.cmd = commandGetdata ∨ o = internalMsg "Pause" ∨ o = internalMsg "Resume" ∨ o.Unheeded

section
variable {o : OutMsg} {m : Mem} {st : RecbcStatus} {turns pre post : List Turn} {t : Turn} {mode : Int} {r : Recorder}

theorem OutMsg.unheeded_of_cmd (hdata : o.cmd ≠ commandGetdata) (hint : o.cmd ≠ commandInternal) : o.Unheeded :=
  ⟨hdata, fun h => absurd h hint⟩

theorem internalMsg_unheeded {name : String} (hname : name ∈ ["Start", "Stop"]) : (internalMsg name).Unheeded := by
  have hne : ∀ name ∈ ["Start", "Stop"], 0 ∉ ascii name ∧ ascii name ≠ ascii "Pause" ∧ ascii name ≠ ascii "Resume" := by decide
  obtain ⟨hnul, hpause, hresume⟩ := hne name hname
  refine ⟨show commandInternal ≠ commandGetdata by decide, fun _ => List.forall_mem_singleton.mpr ?_⟩
  rw [← Bool.not_eq_true, ← Bool.not_eq_true, Attr.named_iff, Attr.named_iff]
  exact ⟨fun h => hpause ((cstr_eq hnul).symm.trans h), fun h => hresume ((cstr_eq hnul).symm.trans h)⟩

theorem OutMsg.Passed.unheeded (h : o.Passed) : o.Unheeded :=
  ⟨h.cmd ▸ show commandInternal ≠ commandGetdata by decide, fun _ a ha =>
    ⟨h.names a ha "Pause" (by simp), h.names a ha "Resume" (by simp)⟩⟩

/-- The recorder knows all messages that are sent, or does not heed them. -/
theorem Instructor.run_known {msgs : List (InstructorEnv × Mem)} (hm : ∀ p ∈ msgs, Handleable p.2) :
    ∀ o ∈ (Instructor.start.run msgs).sent, o.Known := by
  have hled : commandSetLed ≠ commandGetdata ∧ commandSetLed ≠ commandInternal := by decide
  have hconfig : commandConfig ≠ commandGetdata ∧ commandConfig ≠ commandInternal := by decide
  refine Instructor.run_invariant (I := fun s => ∀ o ∈ s.sent, o.Known) (fun env s s' h hs => ?_) (List.forall_mem_nil _) hm
  cases hs with
  | same => exact h
  | start hidle =>
    refine List.forall_mem_append.mpr ⟨h, ?_⟩
    simp only [startMsgs, List.forall_mem_cons, List.not_mem_nil, false_imp_iff, implies_true, and_true]
    exact ⟨.inr (.inr (.inr (OutMsg.unheeded_of_cmd hled.1 hled.2))), .inr (.inr (.inr (internalMsg_unheeded (by simp)))),
      .inr (.inr (.inr (OutMsg.unheeded_of_cmd hconfig.1 hconfig.2))), .inl rfl⟩
  | stop hworking =>
    refine List.forall_mem_append.mpr ⟨h, ?_⟩
    simp only [stopMsgs, List.forall_mem_cons, List.not_mem_nil, false_imp_iff, implies_true, and_true]
    exact ⟨.inr (.inr (.inr (OutMsg.unheeded_of_cmd hled.1 hled.2))), .inr (.inr (.inr (internalMsg_unheeded (by simp)))),
      .inl rfl⟩
  | mark name mem hworking =>
    refine List.forall_mem_append.mpr ⟨h, List.forall_mem_singleton.mpr ?_⟩
    simp only [List.mem_cons, List.not_mem_nil, or_false] at mem
    rcases mem with rfl | rfl
    · exact .inr (.inl rfl)
    · exact .inr (.inr (.inl rfl))
  | pass o passed fits =>
    exact List.forall_mem_append.mpr ⟨h, List.forall_mem_singleton.mpr (.inr (.inr (.inr passed.unheeded)))⟩

/-- The recorder does what the message stands for. A message to start or stop has one attribute for that. -/
structure CtrlOp.Done (m : Mem) (op : CtrlOp) : Prop where
  ctrl : ∀ mode (r : Recorder), r.ctrl mode m = r.doOp mode op
  single : msgCmd m = commandGetdata → ∀ before a after, attrsOf m = before ++ a :: after →
    before = [] ∧ op = if a.valued "All" then .start else .stop

/-- The recorder does what the message of the turn stands for. -/
def Turn.Does (t : Turn) : Prop := ∀ m, t.ctrl = some m → CtrlOp.Done m t.op

theorem getdata_does {type : String} (htype : type ∈ ["All", "None"]) (ho : (getdataMsg type).Carried m) :
    CtrlOp.ofMsg m = (if type = "All" then .start else .stop) ∧ CtrlOp.Done m (CtrlOp.ofMsg m) := by
  obtain ⟨hcmd, hattrs⟩ := ho.decode (getdataMsg_fits htype)
  have hcmd : msgCmd m = commandGetdata := hcmd
  have hattrs : attrsOf m = [⟨ascii "Type", ascii type⟩] := hattrs
  have hnot : commandGetdata ≠ commandInternal := by decide
  have hnamed : (Attr.mk (ascii "Type") (ascii type)).named "Type" = true := show Attr.named ⟨ascii "Type", []⟩ "Type" = true by decide
  have hvalued : ∀ type ∈ ["All", "None"], (Attr.mk (ascii "Type") (ascii type)).valued "All" = decide (type = "All") := by decide
  have hop : CtrlOp.ofMsg m = if type = "All" then .start else .stop := by
    simp only [CtrlOp.ofMsg, if_pos hcmd, hattrs, List.any_cons, List.any_nil, hnamed, hvalued type htype, Bool.true_and,
      Bool.or_false, decide_eq_true_eq]
  refine ⟨hop, fun mode r => ?_, fun _ before a after hsplit => ?_⟩
  · rw [hop]
    simp only [Recorder.ctrl, hcmd, hnot, if_true, if_false, hattrs, List.foldl_cons, List.foldl_nil, Recorder.onGetdata, hnamed,
      hvalued type htype, decide_eq_true_eq]
    split <;> rfl
  · rw [hattrs] at hsplit
    obtain ⟨rfl, ha⟩ : before = [] ∧ a = ⟨ascii "Type", ascii type⟩ := by
      cases before with
      | nil => exact ⟨rfl, (List.cons.inj hsplit).1.symm⟩
      | cons b before => simp at hsplit
    rw [hop, ha, hvalued type htype]
    simp

theorem mark_does {name : String} (hname : name ∈ ["Pause", "Resume"]) (ho : (internalMsg name).Carried m) :
    CtrlOp.ofMsg m = (if name = "Pause" then .pause else .resume) ∧ CtrlOp.Done m (CtrlOp.ofMsg m) := by
  have hmem : name ∈ ["Start", "Stop", "Pause", "Resume"] := List.mem_cons_of_mem _ (List.mem_cons_of_mem _ hname)
  obtain ⟨hcmd, hattrs⟩ := ho.decode (internalMsg_fits hmem)
  have hcmd : msgCmd m = commandInternal := hcmd
  have hattrs : attrsOf m = [⟨ascii name, printX 1⟩] := hattrs
  have hnot : commandInternal ≠ commandGetdata := by decide
  have hnamed : ∀ name ∈ ["Pause", "Resume"], ∀ value, (Attr.mk (ascii name) value).named "Pause" = decide (name = "Pause") ∧
      (Attr.mk (ascii name) value).named "Resume" = !decide (name = "Pause") := by
    have hnil : ∀ name ∈ ["Pause", "Resume"], (Attr.mk (ascii name) []).named "Pause" = decide (name = "Pause") ∧
      (Attr.mk (ascii name) []).named "Resume" = !decide (name = "Pause") := by decide
    exact fun name hname value => hnil name hname
  obtain ⟨hpause, hresume⟩ := hnamed name hname (printX 1)
  have hop : CtrlOp.ofMsg m = if name = "Pause" then .pause else .resume := by
    simp only [CtrlOp.ofMsg, hcmd, hnot, if_false, if_true, hattrs, List.any_cons, List.any_nil, hpause, hresume, Bool.or_false,
      decide_eq_true_eq, Bool.not_eq_true', decide_eq_false_iff_not]
    split_ifs <;> rfl
  refine ⟨hop, fun mode r => ?_, fun hdata => absurd (hcmd.symm.trans hdata) hnot⟩
  rw [hop]
  simp only [Recorder.ctrl, hcmd, hnot, if_true, if_false, hattrs, List.foldl_cons, List.foldl_nil, Recorder.onInternal, hpause,
    hresume, Bool.not_eq_true', decide_eq_true_eq, decide_eq_false_iff_not]
  by_cases h : name = "Pause"
  · simp only [h, if_true, not_true_eq_false, if_false]
    rfl
  · simp only [h, if_false, not_false_eq_true, if_true]
    rfl

theorem unheeded_does (h : o.Unheeded) (hfits : o.Fits) (ho : o.Carried m) :
    CtrlOp.ofMsg m = .none ∧ CtrlOp.Done m (CtrlOp.ofMsg m) := by
  obtain ⟨hcmd, hattrs⟩ := ho.decode hfits
  obtain ⟨hdata, hmarks⟩ := h
  rw [← hcmd] at hdata hmarks
  have hquiet : msgCmd m = commandInternal → ∀ a ∈ attrsOf m, a.named "Pause" = false ∧ a.named "Resume" = false := by
    intro hint a ha
    rw [hattrs] at ha
    obtain ⟨arg, harg, rfl⟩ := List.mem_map.mp ha
    exact hmarks hint arg harg
  have hop : CtrlOp.ofMsg m = .none := by
    unfold CtrlOp.ofMsg
    rw [if_neg hdata]
    split
    · next hint =>
      have hpause : (attrsOf m).any (·.named "Pause") = false := List.any_eq_false.mpr fun a ha => by simp [(hquiet hint a ha).1]
      have hresume : (attrsOf m).any (·.named "Resume") = false := List.any_eq_false.mpr fun a ha => by simp [(hquiet hint a ha).2]
      rw [hpause, hresume]
      rfl
    · rfl
  refine ⟨hop, fun mode r => ?_, fun h => absurd h hdata⟩
  rw [hop, Recorder.ctrl, if_neg hdata]
  split
  · next hint =>
    refine List.foldlRecOn (motive := fun s => s = r) (attrsOf m) _ rfl fun s hs a ha => ?_
    obtain ⟨hpause, hresume⟩ := hquiet hint a ha
    unfold Recorder.onInternal
    rw [hpause, hresume]
    exact hs
  · rfl

/-- A message that may be sent is enabled, and changes the session as it does in the instructor thread. -/
theorem carried_does (hallowed : o.Allowed st) (hknown : o.Known) (hfits : o.Fits) (ho : o.Carried m) :
    (CtrlOp.ofMsg m).Enabled st ∧ (CtrlOp.ofMsg m).next st = o.next st ∧ CtrlOp.Done m (CtrlOp.ofMsg m) := by
  have hmark : ∀ name ∈ ["Pause", "Resume"], o = internalMsg name → (CtrlOp.ofMsg m).Enabled st ∧
      (CtrlOp.ofMsg m).next st = o.next st ∧ CtrlOp.Done m (CtrlOp.ofMsg m) := by
    rintro name hname rfl
    have hworking : st = .working := by
      have hself : ∀ name ∈ ["Pause", "Resume"], ascii name = cstr (ascii name) := by decide
      have hint : (internalMsg name).Internal name :=
        ⟨rfl, _, List.mem_singleton_self _, Attr.named_iff.mpr (hself name hname).symm⟩
      simp only [List.mem_cons, List.not_mem_nil, or_false] at hname
      rcases hname with rfl | rfl
      · exact hallowed.mark (.inl hint)
      · exact hallowed.mark (.inr hint)
    obtain ⟨hop, hdoes⟩ := mark_does hname ho
    have hnext : (internalMsg name).next st = st := OutMsg.next_of_ne (show commandInternal ≠ commandGetdata by decide)
    refine ⟨?_, ?_, hdoes⟩
    · rw [hop]
      split <;> exact hworking
    · rw [hop, hnext]
      split <;> rfl
  rcases hknown with hdata | hpause | hresume | hunheeded
  · have hget := hallowed.getdata hdata
    subst hget
    have htype : (if st = .idle then "All" else "None") ∈ ["All", "None"] := by split <;> simp
    obtain ⟨hop, hdoes⟩ := getdata_does htype ho
    refine ⟨?_, ?_, hdoes⟩
    · rw [hop]
      cases st <;> simp [CtrlOp.Enabled]
    · rw [hop, getdataMsg_next]
      cases st <;> simp [CtrlOp.next]
  · exact hmark "Pause" (by simp) hpause
  · exact hmark "Resume" (by simp) hresume
  · obtain ⟨hop, hdoes⟩ := unheeded_does hunheeded hfits ho
    refine ⟨?_, ?_, hdoes⟩
    · rw [hop]
      trivial
    · rw [hop, OutMsg.next_of_ne hunheeded.1]
      rfl

theorem Turn.Does.ctrl (h : t.Does) : t.ctrl.elim r (r.ctrl mode) = r.doOp mode t.op := by
  cases hctrl : t.ctrl with
  | none =>
    rw [Turn.op, hctrl]
    rfl
  | some m => exact (h m hctrl).ctrl mode r

theorem sessionAfter_cons : sessionAfter st (t :: turns) = sessionAfter (t.op.next st) turns := rfl

/-- On messages that may be sent every turn does what its message asks for, and the sessions are those of the messages. -/
theorem carried_lawful {sent : List OutMsg} (hcarried : List.Forall₂ OutMsg.Carried sent (turns.filterMap Turn.ctrl))
    (hmem : ∀ o ∈ sent, o.Known ∧ o.Fits) (hlawful : Lawful st sent) :
    CtrlOp.Lawful st (turns.map Turn.op) ∧ (∀ t ∈ turns, t.Does) ∧ sessionAfter st turns = statusAfter st sent := by
  induction turns generalizing st sent with
  | nil =>
    cases hcarried
    exact ⟨trivial, List.forall_mem_nil _, rfl⟩
  | cons t turns ih =>
    rw [sessionAfter_cons]
    cases hctrl : t.ctrl with
    | none =>
      rw [List.filterMap_cons_none hctrl] at hcarried
      obtain ⟨hl, hd, hafter⟩ := ih hcarried hmem hlawful
      have hop : t.op = .none := by rw [Turn.op, hctrl, Option.elim_none]
      refine ⟨?_, List.forall_mem_cons.mpr ⟨fun m hm => ?_, hd⟩, ?_⟩
      · rw [List.map_cons, hop]
        exact ⟨trivial, hl⟩
      · rw [hctrl] at hm
        cases hm
      · rw [hop]
        exact hafter
    | some m =>
      rw [List.filterMap_cons_some hctrl] at hcarried
      cases hcarried with
      | cons ho hcarried =>
        obtain ⟨hallowed, hlawful⟩ := hlawful
        rw [List.forall_mem_cons] at hmem
        obtain ⟨hen, hnext, hdoes⟩ := carried_does hallowed hmem.1.1 hmem.1.2 ho
        rw [← hnext] at hlawful
        obtain ⟨hl, hd, hafter⟩ := ih hcarried hmem.2 hlawful
        have hop : t.op = CtrlOp.ofMsg m := by rw [Turn.op, hctrl, Option.elim_some]
        refine ⟨?_, List.forall_mem_cons.mpr ⟨fun m' hm' => ?_, hd⟩, ?_⟩
        · rw [List.map_cons, hop]
          exact ⟨hen, hl⟩
        · cases hctrl.symm.trans hm'
          rw [hop]
          exact hdoes
        · rw [hop, hafter, hnext]
          rfl

theorem Fed.lawful (h : Fed turns) : CtrlOp.Lawful .idle (turns.map Turn.op) ∧ ∀ t ∈ turns, t.Does := by
  obtain ⟨msgs, hm, sent, ⟨rest, hrest⟩, hcarried⟩ := h
  have hlawful : Lawful .idle sent := by
    have hall := (Instructor.Regular.run hm).lawful
    rw [← hrest] at hall
    exact (lawful_append.mp hall).1
  have hmem : ∀ o ∈ sent, o.Known ∧ o.Fits := fun o ho => by
    have hin : o ∈ (Instructor.start.run msgs).sent := hrest ▸ List.mem_append_left _ ho
    exact ⟨Instructor.run_known hm o hin, Instructor.run_fits (List.forall_mem_nil _) hm o hin⟩
  obtain ⟨hl, hd, -⟩ := carried_lawful hcarried hmem hlawful
  exact ⟨hl, hd⟩

/-! ### The loop -/

/-- A stream that is being recorded, or is to be. -/
def LocalsaveStatus.Running (s : LocalsaveStatus) : Prop := s = .resume ∨ s = .working ∨ s = .pause

/-- The recorder at the start of a turn: idle while no session is open, and else recording. After an exit request it can
    be idle although the session was never stopped. -/
structure Recorder.Inv (mode : Int) (st : RecbcStatus) (canceled : Prop) (r : Recorder) : Prop where
  sound : r.Sound
  phase : All mode (· = .idle) r ∧ (st = .idle ∨ canceled) ∨ All mode LocalsaveStatus.Running r ∧ st = .working

theorem LocalsaveStatus.Running.holds {s : LocalsaveStatus} (h : s.Running) : s.holds = true := by
  rcases h with rfl | rfl | rfl <;> rfl

theorem Recorder.All.frame {p : LocalsaveStatus → Prop} (h : All mode p r) (hp : p .resume → p .working) (f : Option AvFrame) :
    All mode p (f.elim r r.handleFrame) := by
  cases f with
  | none =>
    rw [Option.elim_none]
    exact h
  | some f =>
    rw [Option.elim_some]
    exact h.handleFrame hp f

theorem Recorder.frame_sound (hr : r.Sound) (f : Option AvFrame) : (f.elim r r.handleFrame).Sound := by
  cases f with
  | none =>
    rw [Option.elim_none]
    exact hr
  | some f =>
    rw [Option.elim_some]
    exact handleFrame_sound hr

theorem Recorder.finish {canceled : Prop} (hr : r.Sound)
    (h : (All mode (· = .idle) r ∨ All mode (· = .stop) r) ∧ (st = .idle ∨ canceled) ∨
      (All mode (· = .start) r ∨ All mode LocalsaveStatus.Running r) ∧ st = .working) (f : Option AvFrame) :
    Inv mode st canceled (f.elim r.handleStart.handleStop r.handleStart.handleStop.handleFrame) := by
  refine ⟨frame_sound (handle_sound hr) f, h.imp (And.imp_left ?_) (And.imp_left ?_)⟩
  · rintro (h | h)
    · exact (h.handle fun s hs => by rw [hs]; rfl).frame nofun f
    · exact (h.handle fun s hs => by rw [hs]; rfl).frame nofun f
  · rintro (h | h)
    · exact (h.handle fun s hs => by rw [hs]; exact .inl rfl).frame (fun _ => .inr (.inl rfl)) f
    · refine (h.handle fun s hs => ?_).frame (fun _ => .inr (.inl rfl)) f
      rcases hs with rfl | rfl | rfl
      · exact .inl rfl
      · exact .inr (.inl rfl)
      · exact .inr (.inr rfl)

theorem Recorder.doOp_working {p : LocalsaveStatus → Prop} {op : CtrlOp} (hr : r.Sound) (hall : All mode p r)
    (hp : ∀ s, p s → s.holds = true) (hop : op.Enabled .working) : (r.doOp mode op).Sound ∧
      (op = .none ∧ r.doOp mode op = r ∨ op = .stop ∧ All mode (· = .stop) (r.doOp mode op) ∨
        op.next .working = .working ∧ All mode LocalsaveStatus.Running (r.doOp mode op)) := by
  cases op with
  | start => cases hop
  | stop => exact ⟨hr.setAll hall hp rfl, .inr (.inl ⟨rfl, hall.setAll .stop⟩)⟩
  | pause =>
    have hset : (r.setAll mode .pause).Sound := hr.setAll hall hp rfl
    have hpause := (hall.setAll .pause).mono (q := LocalsaveStatus.Running) fun s hs => .inr (.inr hs)
    refine ⟨hset.emit [.write .pfd (.marker (.pause r.frameCount))] rfl ?_,
      .inr (.inr ⟨rfl, hpause.vstore, hpause.vlive, hpause.channel, hpause.off⟩)⟩
    refine Exec.exec_cons.mpr ⟨_, Files.step_write.mpr ⟨rfl, rfl⟩, congrArg some (funext fun h => ?_)⟩
    cases h <;> rfl
  | resume => exact ⟨hr.setAll hall hp rfl, .inr (.inr ⟨rfl, (hall.setAll .resume).mono fun s hs => .inl hs⟩)⟩
  | none => exact ⟨hr, .inl ⟨rfl, rfl⟩⟩

theorem Recorder.allIdle_iff : r.allIdle = true ↔ r.vstore = .idle ∧ r.vlive = .idle ∧ ∀ c, r.channel c = .idle := by
  simp only [allIdle, Bool.and_eq_true, decide_eq_true_eq, List.all_eq_true, and_assoc]
  exact and_congr_right fun _ => and_congr_right fun _ => ⟨fun h c => h c (Channel.mem_list c), fun h c _ => h c⟩

theorem Recorder.All.allIdle (h : All mode (· = .idle) r) : r.allIdle = true := by
  refine allIdle_iff.mpr ⟨h.vstore, h.vlive, fun c => ?_⟩
  by_cases hmode : mode = 0
  · exact h.off hmode c
  · exact h.channel hmode c

/-- The exit request in a session, with files for all channels. -/
theorem Recorder.cancel_sound (hr : r.Sound) (hall : All mode LocalsaveStatus.Running r) (hmode : mode ≠ 0) :
    r.cancel.Sound ∧ All mode (· = .stop) r.cancel := by
  refine ⟨hr.same rfl fun h => ?_, rfl, rfl, fun _ _ => rfl, fun h0 => absurd h0 hmode⟩
  cases h with
  | fd c => exact (hall.channel hmode c).holds.symm
  | _ => exact hall.vstore.holds.symm

/-- A turn keeps the invariant, unless it is the exit request in a session without files for the channels. -/
theorem Recorder.Inv.turn {canceled : Prop} {r' : Recorder} (h : r.Inv mode st canceled) (hmono : canceled → t.canceled = true)
    (hdoes : t.Does) (hop : t.op.Enabled st) (hcond : mode ≠ 0 ∨ ¬(t.canceled = true ∧ st = .working))
    (hturn : r.turn mode t = some r') : r'.Inv mode (t.op.next st) (t.canceled = true) := by
  unfold Recorder.turn at hturn
  split at hturn
  · cases hturn
  next hstay =>
    rw [Bool.and_eq_true, not_and] at hstay
    cases hturn
    rw [hdoes.ctrl]
    have hworking : ∀ {r₁ : Recorder} {p : LocalsaveStatus → Prop}, st = .working → r₁.Sound → All mode p r₁ →
        (∀ s, p s → s.holds = true) → (t.op = .none → All mode (· = .stop) r₁ ∧ t.canceled = true ∨ All mode LocalsaveStatus.Running r₁) →
        Inv mode (t.op.next st) (t.canceled = true) (t.frame.elim (r₁.doOp mode t.op).handleStart.handleStop
          (r₁.doOp mode t.op).handleStart.handleStop.handleFrame) := by
      intro r₁ p hst hs hall hp hnone
      subst hst
      obtain ⟨hsound, hcases⟩ := doOp_working hs hall hp hop
      refine finish hsound ?_ t.frame
      rcases hcases with ⟨he, hsame⟩ | ⟨he, hstop⟩ | ⟨hnext, hrun⟩
      · rw [hsame, he]
        rcases hnone he with ⟨hstop, hc⟩ | hrun
        · exact .inl ⟨.inr hstop, .inr hc⟩
        · exact .inr ⟨.inr hrun, rfl⟩
      · rw [he] at hstop ⊢
        exact .inl ⟨.inr hstop, .inl rfl⟩
      · exact .inr ⟨.inr hrun, hnext⟩
    rcases h.phase with ⟨hidle, hst⟩ | ⟨hrun, hst⟩
    · -- Idle, and so without exit request.
      have hc : t.canceled = false := by
        by_contra hc
        exact hstay (by simpa using hc) hidle.allIdle
      have hst : st = .idle := hst.resolve_right fun hcanceled => by
        rw [hmono hcanceled] at hc
        cases hc
      subst hst
      rw [if_neg (by simp [hc])]
      cases he : t.op with
      | start =>
        have hsound : (r.setAll mode .start).Sound := h.sound.setAll hidle (b := false) (fun s hs => by rw [hs]; rfl) rfl
        exact finish hsound (.inr ⟨.inl (hidle.setAll .start), rfl⟩) t.frame
      | none => exact finish h.sound (.inl ⟨.inl hidle, .inl rfl⟩) t.frame
      | _ =>
        rw [he] at hop
        cases hop
    · by_cases hc : t.canceled = true
      · have hmode : mode ≠ 0 := hcond.resolve_right (not_not_intro ⟨hc, hst⟩)
        obtain ⟨hsound, hstop⟩ := cancel_sound h.sound hrun hmode
        rw [if_pos hc]
        exact hworking hst hsound hstop (fun s hs => by rw [hs]; rfl) fun _ => .inl ⟨hstop, hc⟩
      · rw [if_neg hc]
        exact hworking hst h.sound hrun (fun s hs => hs.holds) fun _ => .inr hrun

theorem CtrlOp.lawful_append {ops more : List CtrlOp} : CtrlOp.Lawful st (ops ++ more) ↔
    CtrlOp.Lawful st ops ∧ CtrlOp.Lawful (ops.foldl (fun st op => op.next st) st) more := by
  induction ops generalizing st with
  | nil => simp [CtrlOp.Lawful]
  | cons op ops ih => simp only [List.cons_append, CtrlOp.Lawful, ih, and_assoc, List.foldl_cons]

/-- The exit request, once seen, stays. -/
def CancelStays (turns : List Turn) : Prop := turns.Pairwise fun t u => t.canceled = true → u.canceled = true

/-- The invariant holds after a run, if there are files for the channels or no exit request is seen. -/
theorem Recorder.Inv.run {canceled : Prop} {r' : Recorder} (h : r.Inv mode st canceled)
    (hlawful : CtrlOp.Lawful st (turns.map Turn.op)) (hdoes : ∀ t ∈ turns, t.Does) (hstays : CancelStays turns)
    (hmono : canceled → ∀ t ∈ turns, t.canceled = true) (hcond : mode ≠ 0 ∨ ∀ t ∈ turns, t.canceled = false)
    (hrun : Exec.exec (Recorder.turn mode) r turns = some r') :
    r'.Inv mode (sessionAfter st turns) (canceled ∨ ∃ t ∈ turns, t.canceled = true) := by
  induction turns generalizing r st canceled with
  | nil =>
    cases hrun
    exact ⟨h.sound, h.phase.imp_left (And.imp_right (Or.imp_right .inl))⟩
  | cons t turns ih =>
    obtain ⟨r₁, hturn, hrun⟩ := Exec.exec_cons.mp hrun
    obtain ⟨hop, hlawful⟩ := hlawful
    obtain ⟨hfirst, hstays⟩ := List.pairwise_cons.mp hstays
    rw [List.forall_mem_cons] at hdoes
    have hstep := h.turn (fun hc => hmono hc t (List.mem_cons_self ..)) hdoes.1 hop
      (hcond.imp_right fun hno hc => by rw [hno t (List.mem_cons_self ..)] at hc; cases hc.1) hturn
    have hend := ih hstep hlawful hdoes.2 hstays (fun hc u hu => hfirst u hu hc)
      (hcond.imp_right fun hno u hu => hno u (List.mem_cons_of_mem _ hu)) hrun
    rw [sessionAfter_cons]
    refine ⟨hend.sound, hend.phase.imp_left (And.imp_right (Or.imp_right fun hc => .inr ?_))⟩
    rcases hc with hc | ⟨u, hu, hc⟩
    · exact ⟨t, List.mem_cons_self .., hc⟩
    · exact ⟨u, List.mem_cons_of_mem _ hu, hc⟩

theorem Recorder.inv_init : init.Inv mode .idle False :=
  ⟨sound_init, .inl ⟨⟨rfl, rfl, fun _ _ => rfl, fun _ _ => rfl⟩, .inl rfl⟩⟩

/-- The invariant after the first turns of a run of the recorder. -/
theorem Fed.inv (hfed : Fed turns) (hturns : turns = pre ++ post) (hstays : CancelStays turns)
    (hcond : mode ≠ 0 ∨ ∀ t ∈ pre, t.canceled = false) (hrun : Exec.exec (Recorder.turn mode) .init pre = some r) :
    r.Inv mode (sessionAfter .idle pre) (∃ t ∈ pre, t.canceled = true) := by
  obtain ⟨hlawful, hdoes⟩ := hfed.lawful
  subst hturns
  rw [List.map_append, CtrlOp.lawful_append] at hlawful
  have hinv := Recorder.inv_init.run hlawful.1 (fun t ht => hdoes t (List.mem_append_left _ ht))
    (List.pairwise_append.mp hstays).1 False.elim hcond hrun
  exact ⟨hinv.sound, hinv.phase.imp_left (And.imp_right (Or.imp_right (Or.resolve_left · id)))⟩

/-! ### Alternation -/

/-- Every start finds the recorder idle, every stop finds it recording, and no file is opened over an open one. -/
structure Recorder.Alternates (mode : Int) (turns : List Turn) : Prop where
  set : ∀ pre t post r m, turns = pre ++ t :: post → Exec.exec (Recorder.turn mode) .init pre = some r → t.ctrl = some m →
    msgCmd m = commandGetdata → ∀ before a after, attrsOf m = before ++ a :: after → a.named "Type" = true →
      if a.valued "All" then (before.foldl (onGetdata mode) r).vstore = .idle else (before.foldl (onGetdata mode) r).vstore ≠ .idle
  files : ∀ pre post r, turns = pre ++ post → Exec.exec (Recorder.turn mode) .init pre = some r →
    ∃ opened, Exec.exec Files.step Files.closed r.log = some opened

theorem Fed.alternates (hfed : Fed turns) (hno : ∀ t ∈ turns, t.canceled = false) (mode : Int) : Recorder.Alternates mode turns := by
  have hstays : CancelStays turns := List.pairwise_of_forall_mem_list fun t ht u _ hc => by
    rw [hno t ht] at hc
    cases hc
  have hpre : ∀ pre post r, turns = pre ++ post → Exec.exec (Recorder.turn mode) .init pre = some r →
      r.Inv mode (sessionAfter .idle pre) (∃ t ∈ pre, t.canceled = true) := fun pre post r hturns hrun =>
    hfed.inv hturns hstays (.inr fun t ht => hno t (hturns ▸ List.mem_append_left _ ht)) hrun
  refine ⟨fun pre t post r m hturns hrun hctrl hcmd before a after hsplit hnamed => ?_,
    fun pre post r hturns hrun => ⟨_, (hpre pre post r hturns hrun).sound⟩⟩
  have hinv := hpre pre (t :: post) r hturns hrun
  obtain ⟨hlawful, hdoes⟩ := hfed.lawful
  obtain ⟨rfl, hop⟩ := ((hdoes t (by simp [hturns])) m hctrl).single hcmd before a after hsplit
  have hen : t.op.Enabled (sessionAfter .idle pre) := by
    rw [hturns, List.map_append, CtrlOp.lawful_append, List.foldl_map] at hlawful
    exact hlawful.2.1
  have hquiet : ¬∃ t ∈ pre, t.canceled = true := by
    rintro ⟨u, hu, hc⟩
    rw [hno u (hturns ▸ List.mem_append_left _ hu)] at hc
    cases hc
  rw [List.foldl_nil]
  cases ha : a.valued "All" with
  | true =>
    rw [hop, ha, if_pos rfl] at hen
    rw [if_pos rfl]
    rcases hinv.phase with ⟨hidle, -⟩ | ⟨-, hworking⟩
    · exact hidle.vstore
    · cases hworking.symm.trans hen
  | false =>
    rw [hop, ha, if_neg (by decide)] at hen
    rw [if_neg (by decide)]
    rcases hinv.phase with ⟨-, hidle⟩ | ⟨hrunning, -⟩
    · cases (hidle.resolve_right hquiet).symm.trans hen
    · intro he
      have hholds := hrunning.vstore.holds
      rw [he] at hholds
      cases hholds

/-- Recording sessions alternate, in what the instructor thread sends and in what the recorder finds. -/
theorem sessions_alternate {msgs : List (InstructorEnv × Mem)} (hm : ∀ p ∈ msgs, Handleable p.2) :
    Alternating (Instructor.start.run msgs).sent (Instructor.start.run msgs).status ∧
    ∀ (isResouceMode : Int) (turns : List Turn) (sent : List OutMsg), sent <+: (Instructor.start.run msgs).sent →
      List.Forall₂ OutMsg.Carried sent (turns.filterMap Turn.ctrl) → (∀ t ∈ turns, t.canceled = false) →
      Recorder.Alternates isResouceMode turns :=
  ⟨Instructor.run_alternating hm, fun mode _ sent hsent hcarried hno =>
    Fed.alternates ⟨msgs, hm, sent, hsent, hcarried⟩ hno mode⟩

end

/-- The message of the instructor that starts a recording. -/
def startRequest : Mem :=
  store (fun _ => 0) 0 (ascii "01ffff000b" ++ RawAttr.bytes ⟨0x35, ascii "0001", ascii "Start", ascii "1"⟩)

def noDevices : InstructorEnv := ⟨-1, -1, -1, -1, 0, 25, 4, 1⟩

/-- A message with one short attribute. -/
theorem handleable_single {r : RawAttr} {m : Mem} (hr : r.Sized) (hbody : load m packetHeaderSize (msgLen m) = r.bytes)
    (hname : r.name.length ≤ 15) (hvalue : r.value.length ≤ 3) : Handleable m ∧ attrsOf m = [r.attr] := by
  have hsized : ∀ a ∈ [r], a.Sized := List.forall_mem_singleton.mpr hr
  have hwhole : load m packetHeaderSize (msgLen m) = [r].flatMap RawAttr.bytes := by
    rw [hbody, List.flatMap_singleton]
  have hattrs : attrsOf m = [r.attr] := attrsOf_of_attrs [r] hsized hwhole
  refine ⟨⟨⟨[r], hsized, hwhole⟩, ?_, ?_, ?_⟩, hattrs⟩ <;> rw [hattrs, List.forall_mem_singleton]
  · exact hname
  · exact Nat.le_trans hvalue (by decide)
  · exact fun _ => Nat.le_trans (strlen_le _) hvalue

theorem startRequest_single : Handleable startRequest ∧ attrsOf startRequest = [⟨ascii "Start", ascii "1"⟩] :=
  handleable_single (r := ⟨0x35, ascii "0001", ascii "Start", ascii "1"⟩) ⟨rfl, by decide, by decide⟩ (by decide +kernel)
    (by decide) (by decide)

theorem startRequest_attrs : attrsOf startRequest = [⟨ascii "Start", ascii "1"⟩] := startRequest_single.2

theorem startRequest_handleable : Handleable startRequest := startRequest_single.1

theorem startRequest_run : Instructor.start.run [(noDevices, startRequest)] = ⟨.working, startMsgs noDevices⟩ := by
  have hserver : msgCmd startRequest = commandServer := by decide +kernel
  rw [Instructor.run, List.foldl_cons, List.foldl_nil, Instructor.instructorMsgHandle, if_pos hserver, startRequest_attrs]
  rfl

/-- Messages that can be built reach the recorder in some turns without exit request. -/
theorem exists_turns {sent : List OutMsg} (h : ∀ o ∈ sent, o.Fits) :
    ∃ turns : List Turn, List.Forall₂ OutMsg.Carried sent (turns.filterMap Turn.ctrl) ∧ ∀ t ∈ turns, t.canceled = false := by
  induction sent with
  | nil => exact ⟨[], .nil, List.forall_mem_nil _⟩
  | cons o sent ih =>
    rw [List.forall_mem_cons] at h
    obtain ⟨turns, hcarried, hno⟩ := ih h.2
    obtain ⟨m, hm⟩ := h.1.carried
    exact ⟨⟨false, some m, none⟩ :: turns, .cons hm hcarried, List.forall_mem_cons.mpr ⟨rfl, hno⟩⟩

/-- The messages of the instructor that pause, resume and stop a recording. -/
def pauseRequest : Mem :=
  store (fun _ => 0) 0 (ascii "01ffff000b" ++ RawAttr.bytes ⟨0x35, ascii "0001", ascii "Pause", ascii "1"⟩)

def resumeRequest : Mem :=
  store (fun _ => 0) 0 (ascii "01ffff000c" ++ RawAttr.bytes ⟨0x36, ascii "0001", ascii "Resume", ascii "1"⟩)

def stopRequest : Mem :=
  store (fun _ => 0) 0 (ascii "01ffff000a" ++ RawAttr.bytes ⟨0x34, ascii "0001", ascii "Stop", ascii "1"⟩)

/-- A recording with a pause. -/
def pausedSession : List (InstructorEnv × Mem) :=
  [(noDevices, startRequest), (noDevices, pauseRequest), (noDevices, resumeRequest), (noDevices, stopRequest)]

theorem sessions_alternate_start :
    (Instructor.start.run pausedSession).sent =
      startMsgs noDevices ++ [internalMsg "Pause"] ++ [internalMsg "Resume"] ++ stopMsgs ∧
    Alternating (Instructor.start.run pausedSession).sent .idle ∧ ∃ turns : List Turn,
      List.Forall₂ OutMsg.Carried (Instructor.start.run pausedSession).sent (turns.filterMap Turn.ctrl) ∧
        Recorder.Alternates 1 turns := by
  obtain ⟨hpause, hpauseAttrs⟩ := handleable_single (m := pauseRequest)
    (r := ⟨0x35, ascii "0001", ascii "Pause", ascii "1"⟩) ⟨rfl, by decide, by decide⟩ (by decide +kernel) (by decide) (by decide)
  obtain ⟨hresume, hresumeAttrs⟩ := handleable_single (m := resumeRequest)
    (r := ⟨0x36, ascii "0001", ascii "Resume", ascii "1"⟩) ⟨rfl, by decide, by decide⟩ (by decide +kernel) (by decide) (by decide)
  obtain ⟨hstop, hstopAttrs⟩ := handleable_single (m := stopRequest)
    (r := ⟨0x34, ascii "0001", ascii "Stop", ascii "1"⟩) ⟨rfl, by decide, by decide⟩ (by decide +kernel) (by decide) (by decide)
  have hm : ∀ p ∈ pausedSession, Handleable p.2 := by
    simp only [pausedSession, List.forall_mem_cons]
    exact ⟨startRequest_handleable, hpause, hresume, hstop, List.forall_mem_nil _⟩
  have hserver : msgCmd pauseRequest = commandServer ∧ msgCmd resumeRequest = commandServer ∧ msgCmd stopRequest = commandServer := by
    decide +kernel
  have hrun : Instructor.start.run pausedSession =
      ⟨.idle, startMsgs noDevices ++ [internalMsg "Pause"] ++ [internalMsg "Resume"] ++ stopMsgs⟩ := by
    have hstart := startRequest_run
    rw [Instructor.run, List.foldl_cons, List.foldl_nil] at hstart
    rw [pausedSession, Instructor.run, List.foldl_cons, hstart]
    simp only [List.foldl_cons, List.foldl_nil, Instructor.instructorMsgHandle, hserver, hpauseAttrs, hresumeAttrs, hstopAttrs, if_true]
    rfl
  obtain ⟨halternating, halternates⟩ := sessions_alternate hm
  have hstatus : (Instructor.start.run pausedSession).status = .idle := by rw [hrun]
  rw [hstatus] at halternating
  have hsent : ∀ o ∈ (Instructor.start.run pausedSession).sent, o.Fits := Instructor.run_fits (List.forall_mem_nil _) hm
  obtain ⟨turns, hcarried, hno⟩ := exists_turns hsent
  exact ⟨by rw [hrun], halternating, turns, hcarried, halternates 1 turns _ List.prefix_rfl hcarried hno⟩

end Recbcsrv
