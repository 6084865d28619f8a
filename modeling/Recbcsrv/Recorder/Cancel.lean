import Recbcsrv.Recorder.Sessions

/-! The exit request (`thread_canceled`) and the files of the recorder. The request stops all streams at once, also those of
    channels that are not recorded; without `IsResouceMode` it closes files in a session that were never opened. -/

namespace Recbcsrv
open Bytes

section
variable {st : RecbcStatus} {turns pre post : List Turn} {t : Turn} {mode : Int} {r : Recorder}

/-- The files are used as they may be, and when the loop is left each has been closed as often as opened. -/
structure Recorder.FilesUsed (mode : Int) (r : Recorder) : Prop where
  calls : ∃ opened, Exec.exec Files.step Files.closed r.log = some opened
  exit : ∀ t, r.turn mode t = none → Exec.exec Files.step Files.closed r.log = some Files.closed ∧
    ∀ h, r.log.count (.fopen h) = r.log.count (.fclose h)

/-- Where the statuses and the handles agree, the loop is left with all files closed. -/
theorem Recorder.Sound.filesUsed (h : r.Sound) : r.FilesUsed mode := by
  refine ⟨⟨_, h⟩, fun t ht => ?_⟩
  have hidle : r.allIdle = true := by
    unfold Recorder.turn at ht
    split at ht
    · next hexit => exact (Bool.and_eq_true_iff.mp hexit).2
    · cases ht
  obtain ⟨hvstore, -, hchannel⟩ := allIdle_iff.mp hidle
  have hclosed : r.holding = Files.closed := funext fun h => by
    cases h with
    | fd c =>
      rw [holding_fd, hchannel c]
      rfl
    | _ => exact congrArg LocalsaveStatus.holds hvstore
  have hexec : Exec.exec Files.step Files.closed r.log = some Files.closed := h.trans (congrArg some hclosed)
  exact ⟨hexec, fun h => Files.exec_count hexec h⟩

section
variable {p : FileOp → Prop} {r' : Recorder} {f : AvFrame}

theorem Recorder.doOp_grown (hw : ∀ h w, p (.write h w)) (op : CtrlOp) : Grown p r (r.doOp mode op) := by
  cases op with
  | pause => exact .one rfl (hw _ _)
  | _ => exact .same rfl

theorem Recorder.startVstore_grown (ho : ∀ h ∈ [Handle.vfd, .afd, .pfd], p (.fopen h)) : Grown p r r.startVstore := by
  unfold startVstore
  split
  · refine ⟨[.fopen .vfd, .fopen .afd, .fopen .pfd], rfl, ?_⟩
    simp only [List.forall_mem_cons, List.not_mem_nil, false_imp_iff, implies_true, and_true] at ho ⊢
    exact ho
  · exact .same rfl

theorem Recorder.stopVstore_grown (hc : ∀ h, p (.fclose h)) (hw : ∀ h w, p (.write h w)) : Grown p r r.stopVstore := by
  unfold stopVstore
  split
  · refine ⟨[.fclose .afd, .fclose .vfd, .write .pfd (.marker (.stop r.frameCount)), .fclose .pfd], rfl, ?_⟩
    simp only [List.forall_mem_cons, List.not_mem_nil, false_imp_iff, implies_true, and_true]
    exact ⟨hc _, hc _, hw _ _, hc _⟩
  · exact .same rfl

theorem Recorder.handleFrame_grown (hw : ∀ h w, p (.write h w)) : Grown p r (r.handleFrame f) := by
  unfold handleFrame
  split
  · unfold storeFrame
    refine Grown.trans (x := if r.vstore = .resume ∧ f.startsStream then
      { r.emit [.write .pfd (.marker (.resume r.frameCount))] with vstore := .working } else r) ?_ ?_
    · split
      · exact .one rfl (hw _ _)
      · exact .same rfl
    · generalize (if r.vstore = .resume ∧ f.startsStream then
        { r.emit [.write .pfd (.marker (.resume r.frameCount))] with vstore := .working } else r) = r₁
      dsimp only
      split
      · exact .one rfl (hw _ _)
      · exact .same rfl
  · unfold liveFrame
    split <;> exact .same rfl
  · next c _ =>
    unfold channelFrame
    refine Grown.trans (x := if r.channel c = .resume ∧ f.startsStream then
      { r with channel := Function.update r.channel c .working } else r) ?_ ?_
    · split <;> exact .same rfl
    · generalize (if r.channel c = .resume ∧ f.startsStream then
        { r with channel := Function.update r.channel c .working } else r) = r₁
      dsimp only
      split
      · exact .one rfl (hw _ _)
      · exact .same rfl
  · unfold audioFrame
    split
    · exact .one rfl (hw _ _)
    · exact .same rfl

theorem Recorder.frame_grown (hw : ∀ h w, p (.write h w)) (f : Option AvFrame) : Grown p r (f.elim r r.handleFrame) := by
  cases f with
  | none => exact .same rfl
  | some f => exact handleFrame_grown hw

theorem Recorder.handleStart_grown (ho : ∀ h, p (.fopen h)) : Grown p r r.handleStart := by
  have hvlive : Grown p r r.startVstore.startVlive := (startVstore_grown fun h _ => ho h).trans (.same rfl)
  rw [handleStart]
  exact hvlive.trans (foldl_moveChannel_grown fun c => ho (.fd c))

theorem Recorder.handleStop_grown (hc : ∀ h, p (.fclose h)) (hw : ∀ h w, p (.write h w)) : Grown p r r.handleStop := by
  have hvlive : Grown p r r.stopVstore.stopVlive := (stopVstore_grown hc hw).trans (.same rfl)
  rw [handleStop]
  exact hvlive.trans (foldl_moveChannel_grown fun c => hc (.fd c))

/-- The log only grows. -/
theorem Recorder.run_grown (hdoes : ∀ t ∈ turns, t.Does) (hrun : Exec.exec (Recorder.turn mode) r turns = some r') :
    Grown (fun _ => True) r r' := by
  induction turns generalizing r with
  | nil =>
    cases hrun
    exact .same rfl
  | cons t turns ih =>
    obtain ⟨r₁, hturn, hrun⟩ := Exec.exec_cons.mp hrun
    rw [List.forall_mem_cons] at hdoes
    refine Grown.trans ?_ (ih hdoes.2 hrun)
    unfold Recorder.turn at hturn
    split at hturn
    · cases hturn
    · cases hturn
      rw [hdoes.1.ctrl]
      have hcancel : Grown (fun _ => True) r (if t.canceled = true then r.cancel else r) := by
        split <;> exact .same rfl
      refine hcancel.trans ?_
      generalize (if t.canceled = true then r.cancel else r) = r₂
      exact (doOp_grown (fun _ _ => trivial) t.op).trans ((handleStart_grown fun _ => trivial).trans
        ((handleStop_grown (fun _ => trivial) fun _ _ => trivial).trans (frame_grown (fun _ _ => trivial) t.frame)))

end

theorem Recorder.foldl_startChannel_eq {l : List Channel} (h : ∀ c, r.channel c ≠ .start) : l.foldl startChannel r = r := by
  induction l with
  | nil => rfl
  | cons c l ih =>
    have hsame : r.startChannel c = r := if_neg (h c)
    rw [List.foldl_cons, hsame, ih]

/-- An exit request in a session without files for the channels closes one that was never opened. -/
theorem Recorder.turn_closes {r' : Recorder} (hr : r.Sound) (hoff : ∀ c, r.channel c = .idle) (hc : t.canceled = true)
    (hdoes : t.Does) (hturn : r.turn 0 t = some r') : Exec.exec Files.step Files.closed r'.log = none := by
  obtain ⟨r₁, hr₁⟩ : ∃ r₁, r₁ = (r.cancel.doOp 0 t.op).startVstore.startVlive := ⟨_, rfl⟩
  have hop : ∀ c, (r.cancel.doOp 0 t.op).channel c = .stop := fun c => by
    cases t.op <;> rfl
  have hstop : ∀ c, r₁.channel c = .stop := fun c => by
    rw [hr₁]
    exact (congrFun startVstore_statuses.2.2 c).trans (hop c)
  have hstart : (r.cancel.doOp 0 t.op).handleStart = r₁ := by
    rw [handleStart, ← hr₁]
    exact foldl_startChannel_eq fun c => by rw [hstop c]; decide
  obtain ⟨r₂, hr₂⟩ : ∃ r₂, r₂ = r₁.stopVstore.stopVlive := ⟨_, rfl⟩
  -- Up to here nothing opens the file of the first channel, and then it is closed.
  have hno : ∀ h, Handle.fd .vga ≠ h → (Files.Op.fopen h : FileOp) ≠ .fopen (.fd .vga) := fun h hne he =>
    hne (Files.Op.fopen.inj he).symm
  have hwrite : ∀ h w, (Files.Op.write h w : FileOp) ≠ .fopen (.fd .vga) := fun h w he => by cases he
  have hfclose : ∀ h, (Files.Op.fclose h : FileOp) ≠ .fopen (.fd .vga) := fun h he => by cases he
  have hbefore : Grown (· ≠ .fopen (.fd .vga)) r r₂ := by
    have hfirst : Grown (· ≠ .fopen (.fd .vga)) r r₁ := by
      rw [hr₁]
      refine Grown.trans (x := r.cancel) (.same rfl) (Grown.trans (x := r.cancel.doOp 0 t.op) (doOp_grown hwrite t.op) ?_)
      refine (startVstore_grown ?_).trans (.same rfl)
      simp only [List.forall_mem_cons, List.not_mem_nil, false_imp_iff, implies_true, and_true]
      exact ⟨hno _ (by decide), hno _ (by decide), hno _ (by decide)⟩
    rw [hr₂]
    exact hfirst.trans ((stopVstore_grown hfclose hwrite).trans (.same rfl))
  have hvga : r₂.channel .vga = .stop := by
    rw [hr₂]
    exact (congrFun stopVstore_statuses.2.2 .vga).trans (hstop .vga)
  have hclose : (r₂.stopChannel .vga).log = r₂.log ++ [.fclose (.fd .vga)] := by
    rw [stopChannel, moveChannel, if_pos hvga]
    rfl
  have hrest : Grown (fun _ => True) (r₂.stopChannel .vga) r' := by
    have hhandle : r₁.handleStop = [Channel.v1, .v2, .v3, .v4, .v5, .v6].foldl stopChannel (r₂.stopChannel .vga) := by
      rw [handleStop, ← hr₂]
      change List.foldl stopChannel r₂ (.vga :: [Channel.v1, .v2, .v3, .v4, .v5, .v6]) = _
      rw [List.foldl_cons]
    unfold Recorder.turn at hturn
    split at hturn
    · cases hturn
    · cases hturn
      rw [hdoes.ctrl, hstart, hhandle]
      exact Grown.trans (foldl_moveChannel_grown fun _ => trivial) (frame_grown (fun _ _ => trivial) t.frame)
  obtain ⟨ops, hlog, hops⟩ := hbefore
  obtain ⟨more, hmore, -⟩ := hrest
  rw [hmore, hclose, hlog, List.append_assoc, List.append_assoc, Option.eq_none_iff_forall_ne_some]
  intro opened hexec
  obtain ⟨s₁, hs₁, hexec⟩ := Exec.exec_append.mp hexec
  obtain ⟨s₂, hs₂, hexec⟩ := Exec.exec_append.mp hexec
  obtain ⟨s₃, hs₃, -⟩ := Exec.exec_cons.mp hexec
  obtain rfl : r.holding = s₁ := Option.some.inj (hr.symm.trans hs₁)
  have hclosed : s₂ (.fd .vga) = false := by
    refine Files.exec_closed hs₂ ?_ hops
    rw [holding_fd, hoff]
    rfl
  rw [(Files.step_fclose.mp hs₃).1] at hclosed
  cases hclosed

theorem exists_first {α : Type} {q : α → Bool} {l : List α} (h : ¬∀ a ∈ l, q a = false) :
    ∃ pre a post, l = pre ++ a :: post ∧ q a = true ∧ ∀ b ∈ pre, q b = false := by
  induction l with
  | nil => exact absurd (List.forall_mem_nil _) h
  | cons a l ih =>
    by_cases ha : q a = true
    · exact ⟨[], a, l, rfl, ha, List.forall_mem_nil _⟩
    · rw [Bool.not_eq_true] at ha
      obtain ⟨pre, b, post, rfl, hb, hpre⟩ := ih fun hall => h (List.forall_mem_cons.mpr ⟨ha, hall⟩)
      exact ⟨a :: pre, b, post, rfl, hb, List.forall_mem_cons.mpr ⟨ha, hpre⟩⟩

end

/-- The files are used as they may be exactly when there are some for the channels, or the exit request does not come in a
    session. -/
theorem recorder_filesUsed_iff (isResouceMode : Int) (turns : List Turn) (r : Recorder) (hfed : Fed turns)
    (hstays : CancelStays turns) (hrun : Exec.exec (Recorder.turn isResouceMode) .init turns = some r) :
    r.FilesUsed isResouceMode ↔ (isResouceMode ≠ 0 ∨ ∀ pre t post, turns = pre ++ t :: post → t.canceled = true →
      (∀ u ∈ pre, u.canceled = false) → sessionAfter .idle pre ≠ .working) := by
  by_cases hgood : isResouceMode ≠ 0 ∨ ∀ t ∈ turns, t.canceled = false
  · refine iff_of_true (hfed.inv (List.append_nil _).symm hstays hgood hrun).sound.filesUsed
      (hgood.imp_right fun hno pre t post hturns hc => ?_)
    rw [hno t (by simp [hturns])] at hc
    cases hc
  · rw [not_or, not_not] at hgood
    obtain ⟨rfl, hsome⟩ := hgood
    obtain ⟨pre, t, post, hturns, hc, hpre⟩ := exists_first hsome
    obtain ⟨-, hdoes⟩ := hfed.lawful
    rw [hturns] at hrun
    obtain ⟨r₁, hrun₁, hrun⟩ := Exec.exec_append.mp hrun
    obtain ⟨r₂, hturn, hrun⟩ := Exec.exec_cons.mp hrun
    have hinv := hfed.inv hturns hstays (.inr hpre) hrun₁
    -- The loop is not left at the exit request, so a session is open.
    have hphase : Recorder.All 0 LocalsaveStatus.Running r₁ ∧ sessionAfter .idle pre = .working := by
      refine hinv.phase.resolve_left fun hidle => ?_
      rw [Recorder.turn, hc, hidle.1.allIdle] at hturn
      cases hturn
    refine iff_of_false (fun hused => ?_) fun h =>
      h.elim (fun hne => hne rfl) fun hall => hall pre t post hturns hc hpre hphase.2
    have hnone := Recorder.turn_closes hinv.sound (hphase.1.off rfl) hc (hdoes t (by simp [hturns])) hturn
    obtain ⟨more, hmore, -⟩ := Recorder.run_grown (fun u hu => hdoes u (by simp [hturns, hu])) hrun
    obtain ⟨opened, hexec⟩ := hused.calls
    rw [hmore] at hexec
    obtain ⟨s, hs, -⟩ := Exec.exec_append.mp hexec
    rw [hnone] at hs
    cases hs

theorem Recorder.run_isSome {turns : List Turn} (hno : ∀ t ∈ turns, t.canceled = false) (mode : Int) (r : Recorder) :
    ∃ r', Exec.exec (Recorder.turn mode) r turns = some r' := by
  induction turns generalizing r with
  | nil => exact ⟨r, rfl⟩
  | cons t turns ih =>
    rw [List.forall_mem_cons] at hno
    obtain ⟨r₁, hturn⟩ : ∃ r₁, r.turn mode t = some r₁ := by
      rw [Recorder.turn, hno.1]
      exact ⟨_, rfl⟩
    obtain ⟨r', hrun⟩ := ih hno.2 r₁
    exact ⟨r', Exec.exec_cons.mpr ⟨r₁, hturn, hrun⟩⟩

/-- A turn that finds the exit request and nothing else. -/
def exitTurn : Turn := ⟨true, none, none⟩

/-- A session is started, and the next turn finds the exit request. -/
theorem exit_in_session (mode : Int) : ∃ (started : List Turn) (r r' : Recorder),
    List.Forall₂ OutMsg.Carried (startMsgs noDevices) (started.filterMap Turn.ctrl) ∧ Fed (started ++ [exitTurn]) ∧
    CancelStays (started ++ [exitTurn]) ∧ Exec.exec (Recorder.turn mode) .init started = some r ∧
    r.turn mode exitTurn = some r' ∧ r.Sound ∧ Recorder.All mode LocalsaveStatus.Running r := by
  have hm : ∀ p ∈ [(noDevices, startRequest)], Handleable p.2 := List.forall_mem_singleton.mpr startRequest_handleable
  have hsent : (Instructor.start.run [(noDevices, startRequest)]).sent = startMsgs noDevices := by rw [startRequest_run]
  obtain ⟨started, hcarried, hno⟩ := exists_turns (startMsgs_fits : ∀ o ∈ startMsgs noDevices, o.Fits)
  obtain ⟨r, hrun⟩ := Recorder.run_isSome hno mode .init
  have hcarried' : List.Forall₂ OutMsg.Carried (startMsgs noDevices) ((started ++ [exitTurn]).filterMap Turn.ctrl) := by
    rw [List.filterMap_append]
    exact (List.append_nil _).symm ▸ hcarried
  have hfed : Fed (started ++ [exitTurn]) := ⟨_, hm, _, hsent ▸ List.prefix_rfl, hcarried'⟩
  have hstays : CancelStays (started ++ [exitTurn]) := by
    refine List.pairwise_append.mpr ⟨List.pairwise_of_forall_mem_list fun t ht u _ hc => ?_, List.pairwise_singleton ..,
      fun t ht u _ hc => ?_⟩
    all_goals
      rw [hno t ht] at hc
      cases hc
  have hinv := hfed.inv rfl hstays (.inr hno) hrun
  have hworking : sessionAfter .idle started = .working := by
    have hlawful : Lawful .idle (startMsgs noDevices) := hsent ▸ (Instructor.Regular.run hm).lawful
    have hmem : ∀ o ∈ startMsgs noDevices, o.Known ∧ o.Fits := fun o ho =>
      ⟨Instructor.run_known hm o (hsent ▸ ho), startMsgs_fits o ho⟩
    rw [(carried_lawful hcarried hmem hlawful).2.2, ← hsent, ← (Instructor.Regular.run hm).status, startRequest_run]
  have hrunning : Recorder.All mode LocalsaveStatus.Running r := by
    rcases hinv.phase with ⟨-, hidle | ⟨t, ht, hc⟩⟩ | ⟨hrunning, -⟩
    · rw [hworking] at hidle
      cases hidle
    · rw [hno t ht] at hc
      cases hc
    · exact hrunning
  have hbusy : r.allIdle = false := by
    refine Bool.eq_false_iff.mpr fun hidle => ?_
    have hholds := hrunning.vstore.holds
    rw [(Recorder.allIdle_iff.mp hidle).1] at hholds
    cases hholds
  obtain ⟨r', hturn⟩ : ∃ r', r.turn mode exitTurn = some r' := by
    rw [Recorder.turn, hbusy]
    exact ⟨_, rfl⟩
  exact ⟨started, r, r', hcarried, hfed, hstays, hrun, hturn, hinv.sound, hrunning⟩

/-- With files for the channels all is well. -/
theorem recorder_filesUsed_iff_resource : ∃ (started : List Turn) (r' : Recorder),
    List.Forall₂ OutMsg.Carried (startMsgs noDevices) (started.filterMap Turn.ctrl) ∧
    Exec.exec (Recorder.turn 1) .init (started ++ [exitTurn]) = some r' ∧ r'.FilesUsed 1 := by
  obtain ⟨started, r, r', hcarried, hfed, hstays, hrun, hturn, -⟩ := exit_in_session 1
  have hall : Exec.exec (Recorder.turn 1) .init (started ++ [exitTurn]) = some r' :=
    Exec.exec_append.mpr ⟨r, hrun, Exec.exec_cons.mpr ⟨r', hturn, rfl⟩⟩
  exact ⟨started, r', hcarried, hall, (recorder_filesUsed_iff 1 _ r' hfed hstays hall).mpr (.inl (by decide))⟩

/-- Without them a file is closed that was never opened. -/
theorem recorder_closes_unopened : ∃ (started : List Turn) (r' : Recorder),
    List.Forall₂ OutMsg.Carried (startMsgs noDevices) (started.filterMap Turn.ctrl) ∧
    Fed (started ++ [exitTurn]) ∧ CancelStays (started ++ [exitTurn]) ∧
    Exec.exec (Recorder.turn 0) .init (started ++ [exitTurn]) = some r' ∧ ¬ r'.FilesUsed 0 := by
  obtain ⟨started, r, r', hcarried, hfed, hstays, hrun, hturn, hsound, hrunning⟩ := exit_in_session 0
  have hclosed : Exec.exec Files.step Files.closed r'.log = none :=
    Recorder.turn_closes hsound (hrunning.off rfl) rfl (hfed.lawful.2 exitTurn (by simp)) hturn
  refine ⟨started, r', hcarried, hfed, hstays, Exec.exec_append.mpr ⟨r, hrun, Exec.exec_cons.mpr ⟨r', hturn, rfl⟩⟩, fun hused => ?_⟩
  obtain ⟨opened, hopened⟩ := hused.calls
  rw [hclosed] at hopened
  cases hopened

end Recbcsrv
