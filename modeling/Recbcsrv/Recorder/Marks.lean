import Recbcsrv.Recorder.Sessions
import Recbcsrv.Recorder.Tape

/-! The recorder does in a session what is described in `Recbcsrv.Recorder.Tape`: for the mixed stream nothing counts but
    the attributes `Pause` and `Resume` and the frames themselves. -/

namespace Recbcsrv
open Bytes

/-- What is written to the `.264` and the `.pro` file. -/
def onTape : FileOp → Option Written
  | .write .vfd w => some w
  | .write .pfd w => some w
  | _ => none

def Attr.sessionInputs (a : Attr) : List SessionInput :=
  (if a.named "Pause" then [.pause] else []) ++ if a.named "Resume" then [.resume] else []

def marksOf (m : Mem) : List SessionInput :=
  if msgCmd m = commandInternal then (attrsOf m).flatMap Attr.sessionInputs else []

def AvFrame.sessionInputs (f : AvFrame) : List SessionInput := if f.source = .vmuxStore then [.frame f] else []

/-- What a turn does to the mixed stream of a session. -/
def Turn.inputs (t : Turn) : List SessionInput := t.ctrl.elim [] marksOf ++ t.frame.elim [] AvFrame.sessionInputs

/-- A session: from a `GETDATA` of type `All` to the next one, which is of type `None`. The exit of the thread is not requested
    before its end. -/
structure Session (first : Turn) (mid : List Turn) (last : Turn) : Prop where
  opens : ∃ m, first.ctrl = some m ∧ (getdataMsg "All").Carried m
  marks : ∀ t ∈ mid, ∀ m, t.ctrl = some m → msgCmd m ≠ commandGetdata
  closes : ∃ m, last.ctrl = some m ∧ (getdataMsg "None").Carried m
  stays : ∀ t ∈ first :: mid ++ [last], t.canceled = false

/-- What happens in a session; the first message only opens it, and the last frame comes after it. -/
def sessionInputs (first : Turn) (mid : List Turn) : List SessionInput :=
  first.frame.elim [] AvFrame.sessionInputs ++ mid.flatMap Turn.inputs

namespace Recorder

/-- The recorder has the variables of `s`, and since the log was `log` it has written its tape. -/
structure Taped (log : List FileOp) (s : Taping) (r : Recorder) : Prop where
  status : r.vstore = s.status
  count : r.frameCount = s.count
  tape : ∃ ops, r.log = log ++ ops ∧ ops.filterMap onTape = s.tape

variable {log ops : List FileOp} {s : Taping} {r r' : Recorder} {mode : Int} {m : Mem} {t : Turn} {f : AvFrame}

theorem Taped.write (h : Taped log s r) {status : LocalsaveStatus} (hstatus : r'.vstore = status)
    (hcount : r'.frameCount = r.frameCount) (hlog : r'.log = r.log ++ ops) :
    Taped log ⟨status, s.count, s.tape ++ ops.filterMap onTape⟩ r' := by
  obtain ⟨before, hbefore, htape⟩ := h.tape
  refine ⟨hstatus, hcount.trans h.count, before ++ ops, by rw [hlog, hbefore, List.append_assoc], ?_⟩
  rw [List.filterMap_append, htape]

/-- What is written can name the count of the frames. -/
theorem Taped.write_count (h : Taped log s r) (ops : Nat → List FileOp) {status : LocalsaveStatus} (hstatus : r'.vstore = status)
    (hcount : r'.frameCount = r.frameCount) (hlog : r'.log = r.log ++ ops r.frameCount) :
    Taped log ⟨status, s.count, s.tape ++ (ops s.count).filterMap onTape⟩ r' := by
  rw [h.count] at hlog
  exact h.write hstatus hcount hlog

theorem Taped.quiet (h : Taped log s r) (hstatus : r'.vstore = r.vstore) (hcount : r'.frameCount = r.frameCount)
    (hgrown : Grown (onTape · = none) r r') : Taped log s r' := by
  obtain ⟨ops, hlog, hops⟩ := hgrown
  have hnone : ops.filterMap onTape = [] := List.filterMap_eq_nil_iff.mpr hops
  have hw := h.write hstatus hcount hlog
  rw [hnone, List.append_nil, h.status] at hw
  exact hw

/-! ### Messages and frames -/

theorem Taped.onInternal (h : Taped log s r) (a : Attr) :
    Taped log (a.sessionInputs.foldl Taping.next s) (r.onInternal mode a) := by
  unfold Recorder.onInternal Attr.sessionInputs
  rw [List.foldl_append]
  have hpause : Taped log ((if a.named "Pause" then [SessionInput.pause] else []).foldl Taping.next s)
      (if a.named "Pause" then (r.setAll mode .pause).emit [.write .pfd (.marker (.pause r.frameCount))] else r) := by
    split
    · exact h.write_count (fun n => [.write .pfd (.marker (.pause n))]) rfl rfl rfl
    · exact h
  generalize (if a.named "Pause" then (r.setAll mode .pause).emit [.write .pfd (.marker (.pause r.frameCount))] else r) = r₁ at *
  generalize (if a.named "Pause" then [SessionInput.pause] else []).foldl Taping.next s = s₁ at *
  dsimp only
  split
  · exact ⟨rfl, hpause.count, hpause.tape⟩
  · exact hpause

theorem Taped.ctrl (h : Taped log s r) (hm : msgCmd m ≠ commandGetdata) :
    Taped log ((marksOf m).foldl Taping.next s) (r.ctrl mode m) := by
  unfold Recorder.ctrl marksOf
  rw [if_neg hm]
  dsimp only
  split
  · generalize attrsOf m = attrs
    induction attrs generalizing r s with
    | nil => exact h
    | cons a attrs ih =>
      rw [List.flatMap_cons, List.foldl_append, List.foldl_cons]
      exact ih (h.onInternal a)
  · exact h

theorem Taped.storeFrame (h : Taped log s r) : Taped log (s.next (.frame f)) (r.storeFrame f) := by
  have hstart : Taped log (if s.status = .resume ∧ f.startsStream then
        { s with status := .working, tape := s.tape ++ [.marker (.resume s.count)] } else s)
      (if r.vstore = .resume ∧ f.startsStream then
        { r.emit [.write .pfd (.marker (.resume r.frameCount))] with vstore := .working } else r) := by
    rw [h.status]
    split
    · exact h.write_count (fun n => [.write .pfd (.marker (.resume n))]) rfl rfl rfl
    · exact h
  have hstore : ∀ {s : Taping} {r : Recorder}, Taped log s r →
      Taped log (if s.status = .working then { s with tape := s.tape ++ [.store s.count f] } else s)
        (if r.vstore = .working then r.emit [.write .vfd (.store r.frameCount f)] else r) := by
    intro s r h
    rw [h.status]
    split
    · exact h.write_count (fun n => [.write .vfd (.store n f)]) h.status rfl rfl
    · exact h
  obtain ⟨hstatus, hcount, htape⟩ := hstore hstart
  exact ⟨hstatus, congrArg (· + 1) hcount, htape⟩

theorem Taped.handleFrame (h : Taped log s r) (f : AvFrame) :
    Taped log (f.sessionInputs.foldl Taping.next s) (r.handleFrame f) := by
  obtain ⟨source, flags, data⟩ := f
  cases source with
  | vmuxStore => exact h.storeFrame
  | vmuxLive =>
    have hlive : Taped log s (r.liveFrame ⟨.vmuxLive, flags, data⟩) := by
      unfold liveFrame
      split
      · exact ⟨h.status, h.count, h.tape⟩
      · exact h
    exact hlive
  | channel c =>
    have hstart : Taped log s (if r.channel c = .resume ∧ AvFrame.startsStream ⟨.channel c, flags, data⟩ then
        { r with channel := Function.update r.channel c .working } else r) := by
      split
      · exact ⟨h.status, h.count, h.tape⟩
      · exact h
    have hwrite : ∀ {r : Recorder}, Taped log s r → Taped log s
        (if r.channel c = .working then r.emit [.write (.fd c) (.other ⟨.channel c, flags, data⟩)] else r) := by
      intro r h
      split
      · exact h.quiet rfl rfl (.one rfl rfl)
      · exact h
    exact hwrite hstart
  | audio =>
    have hwrite : Taped log s (r.audioFrame ⟨.audio, flags, data⟩) := by
      unfold audioFrame
      split
      · exact h.quiet rfl rfl (.one rfl rfl)
      · exact h
    exact hwrite

theorem Taped.frame (h : Taped log s r) (f : Option AvFrame) :
    Taped log ((f.elim [] AvFrame.sessionInputs).foldl Taping.next s) (f.elim r r.handleFrame) := by
  cases f with
  | none => exact h
  | some f => exact h.handleFrame f

/-! ### Starts and stops -/

theorem Taped.channels {old new : LocalsaveStatus} {op : Channel → FileOp} (h : Taped log s r) (hne : new ≠ old)
    (hop : ∀ c, onTape (op c) = none) (l : List Channel) : Taped log s (l.foldl (moveChannel old new op) r) := by
  obtain ⟨hstatus, -, hcount, -⟩ := foldl_moveChannel hne op l r
  exact h.quiet hstatus hcount (foldl_moveChannel_grown hop)

theorem Taped.handleStart (h : Taped log s r) (hs : s.status ≠ .start) : Taped log s r.handleStart := by
  rw [Recorder.handleStart]
  refine Taped.channels ?_ (by decide) (fun c => rfl) Channel.list
  rw [startVstore, if_neg (h.status ▸ hs)]
  exact ⟨h.status, h.count, h.tape⟩

theorem Taped.handleStop (h : Taped log s r) (hs : s.status ≠ .stop) : Taped log s r.handleStop := by
  rw [Recorder.handleStop]
  refine Taped.channels ?_ (by decide) (fun c => rfl) Channel.list
  rw [stopVstore, if_neg (h.status ▸ hs)]
  exact ⟨h.status, h.count, h.tape⟩

theorem taped_opened (hr : r.vstore = .start) : Taped r.log .opened r.handleStart.handleStop := by
  have hstart : Taped r.log .opened r.handleStart := by
    rw [Recorder.handleStart]
    refine Taped.channels ?_ (by decide) (fun c => rfl) Channel.list
    rw [startVstore, if_pos hr]
    exact ⟨rfl, rfl, [.fopen .vfd, .fopen .afd, .fopen .pfd], rfl, rfl⟩
  exact hstart.handleStop fun h => by cases h

theorem Taped.closed (h : Taped log s r) (r' : Recorder) (hr : r'.vstore = .stop) (hcount : r'.frameCount = r.frameCount)
    (hlog : r'.log = r.log) :
    Taped log ⟨.idle, s.count, s.closed⟩ r'.handleStart.handleStop := by
  have hstop : Taped log ⟨.stop, s.count, s.tape⟩ r' := ⟨hr, hcount.trans h.count, by rw [hlog]; exact h.tape⟩
  have hstarted := hstop.handleStart fun h => by cases h
  generalize r'.handleStart = r₁ at *
  rw [Recorder.handleStop]
  refine Taped.channels ?_ (by decide) (fun c => rfl) Channel.list
  rw [stopVstore, if_pos hstarted.status]
  exact hstarted.write_count (fun n => [.fclose .afd, .fclose .vfd, .write .pfd (.marker (.stop n)), .fclose .pfd]) rfl rfl rfl

/-! ### The turns of a session -/

/-- In a session the mixed stream is recorded. -/
theorem run_running (l : List SessionInput) : (Taping.run l).status.Running := by
  induction l using List.reverseRecOn with
  | nil => exact .inl rfl
  | append_singleton l x ih =>
    rw [Taping.run_concat]
    cases x with
    | pause => exact .inr (.inr rfl)
    | resume => exact .inl rfl
    | frame f =>
      have hnext := Taping.next_frame (Taping.run l) f
      generalize (Taping.run l).next (.frame f) = s' at *
      cases hnext with
      | start => exact .inr (.inl rfl)
      | store => exact .inr (.inl rfl)
      | skip => exact ih

theorem run_append (l more : List SessionInput) : Taping.run (l ++ more) = more.foldl Taping.next (Taping.run l) :=
  List.foldl_append

theorem Taped.turn {l : List SessionInput} (h : Taped log (Taping.run l) r) (mode : Int) (hno : t.canceled = false)
    (hm : ∀ m, t.ctrl = some m → msgCmd m ≠ commandGetdata) :
    ∃ r', r.turn mode t = some r' ∧ Taped log (Taping.run (l ++ t.inputs)) r' := by
  refine ⟨_, turn_some hno, ?_⟩
  have hctrl : Taped log (Taping.run (l ++ t.ctrl.elim [] marksOf)) (t.ctrl.elim r (r.ctrl mode)) := by
    rw [run_append]
    cases hc : t.ctrl with
    | none => exact h
    | some m => exact h.ctrl (hm m hc)
  have hrun := run_running (l ++ t.ctrl.elim [] marksOf)
  have hhandle := (hctrl.handleStart (by rintro he; rw [he] at hrun; rcases hrun with h | h | h <;> cases h)).handleStop
    (by rintro he; rw [he] at hrun; rcases hrun with h | h | h <;> cases h)
  rw [Turn.inputs, ← List.append_assoc, run_append]
  exact hhandle.frame t.frame

theorem Taped.run {l : List SessionInput} {mid : List Turn} (h : Taped log (Taping.run l) r) (mode : Int)
    (hno : ∀ t ∈ mid, t.canceled = false) (hm : ∀ t ∈ mid, ∀ m, t.ctrl = some m → msgCmd m ≠ commandGetdata) :
    ∃ r', Exec.exec (Recorder.turn mode) r mid = some r' ∧ Taped log (Taping.run (l ++ mid.flatMap Turn.inputs)) r' := by
  induction mid generalizing r l with
  | nil => exact ⟨r, rfl, by rwa [List.flatMap_nil, List.append_nil]⟩
  | cons t mid ih =>
    rw [List.forall_mem_cons] at hno hm
    obtain ⟨r₁, hturn, h₁⟩ := h.turn mode hno.1 hm.1
    obtain ⟨r', hrun, h'⟩ := ih h₁ hno.2 hm.2
    refine ⟨r', Exec.exec_cons.mpr ⟨r₁, hturn, hrun⟩, ?_⟩
    rwa [List.flatMap_cons, ← List.append_assoc]

theorem idle_tape (hs : s.status = .idle) (f : Option AvFrame) :
    ((f.elim [] AvFrame.sessionInputs).foldl Taping.next s).tape = s.tape := by
  have hframe : ∀ f : AvFrame, (s.next (.frame f)).tape = s.tape := by
    intro f
    have hnext := Taping.next_frame s f
    generalize s.next (.frame f) = s' at *
    cases hnext with
    | start hr => cases hs.symm.trans hr
    | store hw => cases hs.symm.trans hw
    | skip => rfl
  cases f with
  | none => rfl
  | some f =>
    rw [Option.elim_some, AvFrame.sessionInputs]
    split
    · exact hframe f
    · rfl

/-- What `GETDATA` does to the recorder. -/
theorem ctrl_getdata {type : String} (htype : type ∈ ["All", "None"]) (hm : (getdataMsg type).Carried m) :
    r.ctrl mode m = r.setAll mode (if type = "All" then .start else .stop) := by
  obtain ⟨hop, hdone⟩ := getdata_does htype hm
  rw [hdone.ctrl, hop]
  split <;> rfl

end Recorder

section
variable {first last : Turn} {mid : List Turn}

/-- What a session adds to the two files. -/
theorem Session.tape (h : Session first mid last) (mode : Int) (r : Recorder) :
    ∃ r' ops, Exec.exec (Recorder.turn mode) r (first :: mid ++ [last]) = some r' ∧ r'.log = r.log ++ ops ∧
      ops.filterMap onTape = (Taping.run (sessionInputs first mid)).closed := by
  obtain ⟨m₁, hctrl₁, hm₁⟩ := h.opens
  obtain ⟨m₂, hctrl₂, hm₂⟩ := h.closes
  have hno := h.stays
  rw [List.cons_append, List.forall_mem_cons, List.forall_mem_append, List.forall_mem_singleton] at hno
  obtain ⟨hno₁, hnomid, hno₂⟩ := hno
  have hfirst : Recorder.Taped r.log (Taping.run (first.frame.elim [] AvFrame.sessionInputs))
      (first.frame.elim (r.setAll mode .start).handleStart.handleStop
        (r.setAll mode .start).handleStart.handleStop.handleFrame) :=
    (Recorder.taped_opened (r := r.setAll mode .start) rfl).frame first.frame
  obtain ⟨r₁, hrun, hmid⟩ := hfirst.run mode hnomid h.marks
  have hlast := (hmid.closed (r₁.setAll mode .stop) rfl rfl rfl).frame last.frame
  obtain ⟨ops, hlog, htape⟩ := hlast.tape
  refine ⟨_, ops, ?_, hlog, htape.trans (Recorder.idle_tape rfl last.frame)⟩
  refine Exec.exec_cons.mpr ⟨_, ?_, Exec.exec_append.mpr ⟨r₁, hrun, Exec.exec_cons.mpr ⟨_, ?_, rfl⟩⟩⟩
  · rw [Recorder.turn_some hno₁, hctrl₁, Option.elim_some, Recorder.ctrl_getdata (by simp) hm₁, if_pos rfl]
  · rw [Recorder.turn_some hno₂, hctrl₂, Option.elim_some, Recorder.ctrl_getdata (by simp) hm₂, if_neg (by decide)]

/-- The files of a session, during which no exit is requested, describe it exactly when no `Resume` comes while frames are
    written, unless a frame with which a stream starts, a `Pause` or the end of the session follows. -/
theorem session_selfDescribing_iff (isResouceMode : Int) (r : Recorder) (h : Session first mid last) :
    ∃ r' ops, Exec.exec (Recorder.turn isResouceMode) r (first :: mid ++ [last]) = some r' ∧ r'.log = r.log ++ ops ∧
      (SelfDescribing ((sessionInputs first mid).filterMap SessionInput.frame?) (ops.filterMap onTape) ↔
        ResumesTimely (sessionInputs first mid)) := by
  obtain ⟨r', ops, hrun, hlog, htape⟩ := h.tape isResouceMode r
  exact ⟨r', ops, hrun, hlog, htape ▸ Taping.run_describes _⟩

end

/-- A frame of the mixed stream. -/
def storedFrame (flags : Nat) : AvFrame := ⟨.vmuxStore, flags, [0]⟩

/-- A session in which a frame comes, then a `Resume` and with it another frame. -/
theorem exists_resumed (flags flags' : Nat) : ∃ (first t last : Turn), Session first [t] last ∧
    sessionInputs first [t] = [.frame (storedFrame flags), .resume, .frame (storedFrame flags')] := by
  have hresume : (internalMsg "Resume").Fits := internalMsg_fits (by simp)
  obtain ⟨opens, hopens⟩ : ∃ m, (getdataMsg "All").Carried m := (getdataMsg_fits (by simp)).carried
  obtain ⟨closes, hcloses⟩ : ∃ m, (getdataMsg "None").Carried m := (getdataMsg_fits (by simp)).carried
  obtain ⟨resumes, hresumes⟩ := hresume.carried
  obtain ⟨hcmd, hattrs⟩ := hresumes.decode hresume
  have hcmd : msgCmd resumes = commandInternal := hcmd
  have hmarks : marksOf resumes = [.resume] := by
    rw [marksOf, if_pos hcmd, hattrs]
    rfl
  refine ⟨⟨false, some opens, some (storedFrame flags)⟩, ⟨false, some resumes, some (storedFrame flags')⟩, ⟨false, some closes, none⟩,
    ⟨⟨opens, rfl, hopens⟩, ?_, ⟨closes, rfl, hcloses⟩, ?_⟩, ?_⟩
  · refine List.forall_mem_singleton.mpr fun m hm => ?_
    cases hm
    rw [hcmd]
    decide
  · simp
  · rw [sessionInputs, List.flatMap_cons, List.flatMap_nil, List.append_nil, Turn.inputs, Option.elim_some, Option.elim_some,
      Option.elim_some, hmarks]
    rfl

/-- A stream starts again with the frame after the `Resume`. -/
theorem session_selfDescribing_iff_timely : ∃ (first t last : Turn) (r' : Recorder), Session first [t] last ∧
    Exec.exec (Recorder.turn 0) .init [first, t, last] = some r' ∧
    SelfDescribing [storedFrame frameFlagFirstframe, storedFrame frameFlagKeyframe] (r'.log.filterMap onTape) := by
  obtain ⟨first, t, last, hsession, hinputs⟩ := exists_resumed frameFlagFirstframe frameFlagKeyframe
  obtain ⟨r', ops, hrun, hlog, hiff⟩ := session_selfDescribing_iff 0 .init hsession
  refine ⟨first, t, last, r', hsession, hrun, ?_⟩
  rw [hinputs] at hiff
  have hlog : r'.log = ops := hlog
  rw [hlog]
  refine hiff.mpr fun pre f post hsplit _ => ?_
  have hmem : SessionInput.frame f ∈ pre ++ .resume :: .frame f :: post := by simp
  rw [← hsplit] at hmem
  simp only [List.mem_cons, List.not_mem_nil, or_false, SessionInput.frame.injEq, reduceCtorEq, false_or] at hmem
  rcases hmem with rfl | rfl <;> rfl

/-- The frame after it is lost. -/
theorem session_loses_frame : ∃ (first t last : Turn) (r' : Recorder), Session first [t] last ∧
    Exec.exec (Recorder.turn 0) .init [first, t, last] = some r' ∧
    ¬ SelfDescribing [storedFrame frameFlagFirstframe, storedFrame 0] (r'.log.filterMap onTape) := by
  obtain ⟨first, t, last, hsession, hinputs⟩ := exists_resumed frameFlagFirstframe 0
  obtain ⟨r', ops, hrun, hlog, htape⟩ := hsession.tape 0 .init
  refine ⟨first, t, last, r', hsession, hrun, fun h => ?_⟩
  have hlog : r'.log = ops := hlog
  rw [hlog, htape] at h
  have htimely := (Taping.run_describes (sessionInputs first [t])).mp (hinputs ▸ h)
  rw [hinputs] at htimely
  exact absurd (htimely [.frame (storedFrame frameFlagFirstframe)] (storedFrame 0) [] rfl rfl) (by decide)

end Recbcsrv
