import Recbcsrv.Datafifo.Item
import Recbcsrv.Lib.Files
import Recbcsrv.Message.Instructor

/-! The recorder (`thread_localsave`): each turn of its loop handles an exit request, at most one message of the
    instructor thread, the starts and stops that are due, and at most one frame. What it does to its files is logged. -/

namespace Recbcsrv
open Bytes

/-- `LOCALSAVE_*`. -/
inductive LocalsaveStatus where
  | idle
  | start
  | working
  | pause
  | resume
  | stop
  deriving DecidableEq, Repr

/-- A status after a request to leave `old` for `new` has been handled. -/
def LocalsaveStatus.moved (s old new : LocalsaveStatus) : LocalsaveStatus := if s = old then new else s

/-- The streams that are recorded besides the mixed one, each with its own status and file. -/
inductive Channel where
  | vga
  | v1
  | v2
  | v3
  | v4
  | v5
  | v6
  deriving DecidableEq, Repr

/-- The channels in the order in which the code handles them. -/
def Channel.list : List Channel := [.vga, .v1, .v2, .v3, .v4, .v5, .v6]

/-- The variables of type `FILE *`. -/
inductive Handle where
  | vfd
  | afd
  | pfd
  | fd (c : Channel)
  deriving DecidableEq, Repr

/-- The lines of the property file. -/
inductive Marker where
  | resume (n : Nat)
  | pause (n : Nat)
  | stop (n : Nat)
  deriving DecidableEq, Repr

/-- The producers that `ref->datafifo` is compared with. -/
inductive AvSource where
  | vmuxStore
  | vmuxLive
  | channel (c : Channel)
  | audio
  deriving DecidableEq, Repr

/-- A frame at the head of `av_consumer_fifo`. -/
structure AvFrame where
  source : AvSource
  flags : Nat
  data : List UInt8
  deriving DecidableEq, Repr

/-- A stream starts at a frame with `FRAME_FLAG_FIRSTFRAME` or `FRAME_FLAG_KEYFRAME`. -/
def AvFrame.startsStream (f : AvFrame) : Bool := hasFlag f.flags frameFlagFirstframe || hasFlag f.flags frameFlagKeyframe

/-- What is written: a frame of the mixed stream with its number in the session, another frame, or a marker. -/
inductive Written where
  | store (n : Nat) (f : AvFrame)
  | other (f : AvFrame)
  | marker (mk : Marker)
  deriving DecidableEq, Repr

abbrev FileOp := Files.Op Handle Written

/-- The variables of `thread_localsave`, and what it has done to its files. A session is taken to have fewer frames than
    `frame_count` can count. -/
structure Recorder where
  vstore : LocalsaveStatus
  vlive : LocalsaveStatus
  channel : Channel → LocalsaveStatus
  frameCount : Nat
  log : List FileOp

namespace Recorder

/-- The variables before the loop. -/
def init : Recorder := ⟨.idle, .idle, fun _ => .idle, 0, []⟩

def emit (r : Recorder) (ops : List FileOp) : Recorder := { r with log := r.log ++ ops }

/-- The status that decides about a handle. -/
def status (r : Recorder) : Handle → LocalsaveStatus
  | .fd c => r.channel c
  | _ => r.vstore

/-! ### The exit request and the messages -/

/-- All statuses are `LOCALSAVE_IDLE`. -/
def allIdle (r : Recorder) : Bool := r.vstore = .idle && r.vlive = .idle && Channel.list.all fun c => r.channel c = .idle

/-- All statuses are set to `LOCALSAVE_STOP`. -/
def cancel (r : Recorder) : Recorder := { r with vstore := .stop, vlive := .stop, channel := fun _ => .stop }

/-- The statuses are set to `s`, those of the channels only with `g_cfg.IsResouceMode`. -/
def setAll (isResouceMode : Int) (s : LocalsaveStatus) (r : Recorder) : Recorder :=
  { r with vstore := s, vlive := s, channel := if isResouceMode ≠ 0 then fun _ => s else r.channel }

/-- The body of the loop for `COMMAND_GETDATA`. -/
def onGetdata (isResouceMode : Int) (r : Recorder) (a : Attr) : Recorder :=
  if a.named "Type" then
    if a.valued "All" then r.setAll isResouceMode .start else r.setAll isResouceMode .stop
  else r

/-- The body of the loop for `COMMAND_INTERNAL`. -/
def onInternal (isResouceMode : Int) (r : Recorder) (a : Attr) : Recorder :=
  let r := if a.named "Pause" then
      (r.setAll isResouceMode .pause).emit [.write .pfd (.marker (.pause r.frameCount))]
    else r
  if a.named "Resume" then r.setAll isResouceMode .resume else r

/-- A message from `Ctrl_consumer_fifo`. -/
def ctrl (isResouceMode : Int) (r : Recorder) (m : Mem) : Recorder :=
  let r := if msgCmd m = commandGetdata then (attrsOf m).foldl (onGetdata isResouceMode) r else r
  if msgCmd m = commandInternal then (attrsOf m).foldl (onInternal isResouceMode) r else r

/-! ### Starts and stops -/

/-- The handling of a request for a channel, with the call for its file. -/
def moveChannel (old new : LocalsaveStatus) (op : Channel → FileOp) (r : Recorder) (c : Channel) : Recorder :=
  if r.channel c = old then { r.emit [op c] with channel := Function.update r.channel c new } else r

def startVstore (r : Recorder) : Recorder :=
  if r.vstore = .start then
    { r.emit [.fopen .vfd, .fopen .afd, .fopen .pfd] with frameCount := 0, vstore := .resume }
  else r

def startVlive (r : Recorder) : Recorder := { r with vlive := r.vlive.moved .start .resume }

def startChannel : Recorder → Channel → Recorder := moveChannel .start .resume fun c => .fopen (.fd c)

/-- The start requests. -/
def handleStart (r : Recorder) : Recorder := Channel.list.foldl startChannel r.startVstore.startVlive

def stopVstore (r : Recorder) : Recorder :=
  if r.vstore = .stop then
    { r.emit [.fclose .afd, .fclose .vfd, .write .pfd (.marker (.stop r.frameCount)), .fclose .pfd] with vstore := .idle }
  else r

def stopVlive (r : Recorder) : Recorder := { r with vlive := r.vlive.moved .stop .idle }

def stopChannel : Recorder → Channel → Recorder := moveChannel .stop .idle fun c => .fclose (.fd c)

/-- The stop requests. -/
def handleStop (r : Recorder) : Recorder := Channel.list.foldl stopChannel r.stopVstore.stopVlive

/-! ### The frames -/

/-- A frame of the mixed stream. -/
def storeFrame (r : Recorder) (f : AvFrame) : Recorder :=
  let r := if r.vstore = .resume ∧ f.startsStream then
      { r.emit [.write .pfd (.marker (.resume r.frameCount))] with vstore := .working }
    else r
  let r := if r.vstore = .working then r.emit [.write .vfd (.store r.frameCount f)] else r
  { r with frameCount := r.frameCount + 1 }

/-- A frame of the live stream. What is sent of it is not part of the files. -/
def liveFrame (r : Recorder) (f : AvFrame) : Recorder :=
  if r.vlive = .resume ∧ f.startsStream then { r with vlive := .working } else r

def channelFrame (r : Recorder) (c : Channel) (f : AvFrame) : Recorder :=
  let r := if r.channel c = .resume ∧ f.startsStream then { r with channel := Function.update r.channel c .working } else r
  if r.channel c = .working then r.emit [.write (.fd c) (.other f)] else r

def audioFrame (r : Recorder) (f : AvFrame) : Recorder :=
  if r.vstore = .working then r.emit [.write .afd (.other f)] else r

/-- A frame from `av_consumer_fifo`. -/
def handleFrame (r : Recorder) (f : AvFrame) : Recorder :=
  match f.source with
  | .vmuxStore => r.storeFrame f
  | .vmuxLive => r.liveFrame f
  | .channel c => r.channelFrame c f
  | .audio => r.audioFrame f

end Recorder

/-- What a turn of the loop finds: whether `thread_canceled` is set, and the heads of the two FIFOs. -/
structure Turn where
  canceled : Bool
  ctrl : Option Mem
  frame : Option AvFrame

/-- A turn of the loop; there is no state after it when the loop is left. -/
def Recorder.turn (isResouceMode : Int) (r : Recorder) (t : Turn) : Option Recorder :=
  if t.canceled && r.allIdle then none else
    let r := if t.canceled then r.cancel else r
    let r := t.ctrl.elim r (r.ctrl isResouceMode)
    let r := r.handleStart.handleStop
    some (t.frame.elim r r.handleFrame)

/-! ### What the parts of a turn change -/

theorem Channel.mem_list (c : Channel) : c ∈ Channel.list := by
  cases c <;> simp [Channel.list]

namespace Recorder
variable {r : Recorder} {c d : Channel} {f : AvFrame} {l : List Channel} {t : Turn} {mode : Int} {m : Mem}
  {old new : LocalsaveStatus} {op : Channel → FileOp}

theorem moveChannel_rest (old new : LocalsaveStatus) (op : Channel → FileOp) (r : Recorder) (c : Channel) :
    (moveChannel old new op r c).vstore = r.vstore ∧
    (moveChannel old new op r c).vlive = r.vlive ∧ (moveChannel old new op r c).frameCount = r.frameCount := by
  unfold moveChannel
  split <;> exact ⟨rfl, rfl, rfl⟩

theorem moveChannel_channel : (moveChannel old new op r c).channel d =
    if d = c then (r.channel d).moved old new else r.channel d := by
  unfold moveChannel LocalsaveStatus.moved
  by_cases hd : d = c
  · subst hd
    by_cases h : r.channel d = old
    · rw [if_pos h, if_pos rfl, if_pos h]
      exact Function.update_self (f := r.channel) ..
    · rw [if_neg h, if_pos rfl, if_neg h]
  · rw [if_neg hd]
    split
    · exact Function.update_of_ne (f := r.channel) hd ..
    · rfl

theorem foldl_moveChannel (hne : new ≠ old) (op : Channel → FileOp) (l : List Channel) (r : Recorder) :
    (l.foldl (moveChannel old new op) r).vstore = r.vstore ∧ (l.foldl (moveChannel old new op) r).vlive = r.vlive ∧
    (l.foldl (moveChannel old new op) r).frameCount = r.frameCount ∧
    ∀ d, (l.foldl (moveChannel old new op) r).channel d = if d ∈ l then (r.channel d).moved old new else r.channel d := by
  induction l generalizing r with
  | nil => exact ⟨rfl, rfl, rfl, fun _ => rfl⟩
  | cons c l ih =>
    obtain ⟨h1, h2, h3, h4⟩ := ih (moveChannel old new op r c)
    obtain ⟨g1, g2, g3⟩ := moveChannel_rest old new op r c
    refine ⟨h1.trans g1, h2.trans g2, h3.trans g3, fun d => (h4 d).trans ?_⟩
    have hidem : ∀ s : LocalsaveStatus, (s.moved old new).moved old new = s.moved old new := by
      intro s
      unfold LocalsaveStatus.moved
      by_cases hs : s = old
      · rw [if_pos hs, if_neg hne]
      · rw [if_neg hs, if_neg hs]
    rw [moveChannel_channel]
    by_cases hd : d = c
    · rw [if_pos hd, hidem, ite_self, if_pos (List.mem_cons.mpr (.inl hd))]
    · rw [if_neg hd]
      exact if_congr (by simp [hd]) rfl rfl

theorem startVstore_statuses : r.startVstore.vstore = r.vstore.moved .start .resume ∧ r.startVstore.vlive = r.vlive ∧
    r.startVstore.channel = r.channel := by
  unfold startVstore LocalsaveStatus.moved
  split <;> exact ⟨rfl, rfl, rfl⟩

theorem stopVstore_statuses : r.stopVstore.vstore = r.vstore.moved .stop .idle ∧ r.stopVstore.vlive = r.vlive ∧
    r.stopVstore.channel = r.channel := by
  unfold stopVstore LocalsaveStatus.moved
  split <;> exact ⟨rfl, rfl, rfl⟩

/-- The start requests change `LOCALSAVE_START` to `LOCALSAVE_RESUME`. -/
theorem handleStart_statuses : r.handleStart.vstore = r.vstore.moved .start .resume ∧
    r.handleStart.vlive = r.vlive.moved .start .resume ∧ ∀ c, r.handleStart.channel c = (r.channel c).moved .start .resume := by
  have hfold : r.handleStart = Channel.list.foldl (moveChannel .start .resume fun c => .fopen (.fd c)) r.startVstore.startVlive := rfl
  obtain ⟨h1, h2, -, h4⟩ := foldl_moveChannel (show LocalsaveStatus.resume ≠ .start by decide) (fun c => .fopen (.fd c))
    Channel.list r.startVstore.startVlive
  obtain ⟨g1, g2, g3⟩ := startVstore_statuses (r := r)
  rw [hfold, h1, h2]
  refine ⟨g1, congrArg (·.moved .start .resume) g2, fun c => ?_⟩
  rw [h4, if_pos (Channel.mem_list c)]
  exact congrArg (·.moved .start .resume) (congrFun g3 c)

/-- The stop requests change `LOCALSAVE_STOP` to `LOCALSAVE_IDLE`. -/
theorem handleStop_statuses : r.handleStop.vstore = r.vstore.moved .stop .idle ∧
    r.handleStop.vlive = r.vlive.moved .stop .idle ∧ ∀ c, r.handleStop.channel c = (r.channel c).moved .stop .idle := by
  have hfold : r.handleStop = Channel.list.foldl (moveChannel .stop .idle fun c => .fclose (.fd c)) r.stopVstore.stopVlive := rfl
  obtain ⟨h1, h2, -, h4⟩ := foldl_moveChannel (show LocalsaveStatus.idle ≠ .stop by decide) (fun c => .fclose (.fd c))
    Channel.list r.stopVstore.stopVlive
  obtain ⟨g1, g2, g3⟩ := stopVstore_statuses (r := r)
  rw [hfold, h1, h2]
  refine ⟨g1, congrArg (·.moved .stop .idle) g2, fun c => ?_⟩
  rw [h4, if_pos (Channel.mem_list c)]
  exact congrArg (·.moved .stop .idle) (congrFun g3 c)

/-- What a frame does to a status. -/
def FrameStep (s s' : LocalsaveStatus) : Prop := s' = s ∨ s = .resume ∧ s' = .working

theorem storeFrame_statuses : FrameStep r.vstore (r.storeFrame f).vstore ∧ (r.storeFrame f).vlive = r.vlive ∧
    (r.storeFrame f).channel = r.channel := by
  unfold storeFrame
  by_cases h : r.vstore = .resume ∧ f.startsStream = true
  · rw [if_pos h]
    exact ⟨.inr ⟨h.1, rfl⟩, rfl, rfl⟩
  · rw [if_neg h]
    dsimp only
    split <;> exact ⟨.inl rfl, rfl, rfl⟩

theorem liveFrame_statuses : (r.liveFrame f).vstore = r.vstore ∧ FrameStep r.vlive (r.liveFrame f).vlive ∧
    (r.liveFrame f).channel = r.channel := by
  unfold liveFrame
  split
  · next h => exact ⟨rfl, .inr ⟨h.1, rfl⟩, rfl⟩
  · exact ⟨rfl, .inl rfl, rfl⟩

theorem channelFrame_statuses : (r.channelFrame c f).vstore = r.vstore ∧ (r.channelFrame c f).vlive = r.vlive ∧
    ∀ d, FrameStep (r.channel d) ((r.channelFrame c f).channel d) := by
  unfold channelFrame
  by_cases h : r.channel c = .resume ∧ f.startsStream = true
  · have hstep : ∀ d, FrameStep (r.channel d) (Function.update r.channel c .working d) := fun d => by
      by_cases hd : d = c
      · rw [hd, Function.update_self]
        exact .inr ⟨h.1, rfl⟩
      · rw [Function.update_of_ne hd]
        exact .inl rfl
    rw [if_pos h]
    dsimp only
    split <;> exact ⟨rfl, rfl, hstep⟩
  · rw [if_neg h]
    dsimp only
    split <;> exact ⟨rfl, rfl, fun _ => .inl rfl⟩

theorem audioFrame_statuses : (r.audioFrame f).vstore = r.vstore ∧ (r.audioFrame f).vlive = r.vlive ∧
    (r.audioFrame f).channel = r.channel := by
  unfold audioFrame
  split <;> exact ⟨rfl, rfl, rfl⟩

/-- A frame changes no status but from `LOCALSAVE_RESUME` to `LOCALSAVE_WORKING`. -/
theorem handleFrame_statuses : FrameStep r.vstore (r.handleFrame f).vstore ∧ FrameStep r.vlive (r.handleFrame f).vlive ∧
    ∀ c, FrameStep (r.channel c) ((r.handleFrame f).channel c) := by
  unfold handleFrame
  split
  · obtain ⟨h1, h2, h3⟩ := storeFrame_statuses (r := r) (f := f)
    exact ⟨h1, .inl h2, fun c => .inl (congrFun h3 c)⟩
  · obtain ⟨h1, h2, h3⟩ := liveFrame_statuses (r := r) (f := f)
    exact ⟨.inl h1, h2, fun c => .inl (congrFun h3 c)⟩
  · obtain ⟨h1, h2, h3⟩ := channelFrame_statuses (r := r) (f := f)
    exact ⟨.inl h1, .inl h2, h3⟩
  · obtain ⟨h1, h2, h3⟩ := audioFrame_statuses (r := r) (f := f)
    exact ⟨.inl h1, .inl h2, fun c => .inl (congrFun h3 c)⟩

theorem turn_some (hno : t.canceled = false) : r.turn mode t = some (t.frame.elim (t.ctrl.elim r (r.ctrl mode)).handleStart.handleStop
    (t.ctrl.elim r (r.ctrl mode)).handleStart.handleStop.handleFrame) := by
  rw [Recorder.turn, hno]
  rfl

/-- All statuses that the mode uses have the property; without `IsResouceMode` those of the channels are idle. -/
structure All (mode : Int) (p : LocalsaveStatus → Prop) (r : Recorder) : Prop where
  vstore : p r.vstore
  vlive : p r.vlive
  channel : mode ≠ 0 → ∀ c, p (r.channel c)
  off : mode = 0 → ∀ c, r.channel c = .idle

section
variable {p q : LocalsaveStatus → Prop}

theorem All.mono (h : All mode p r) (hpq : ∀ s, p s → q s) : All mode q r :=
  ⟨hpq _ h.vstore, hpq _ h.vlive, fun hmode c => hpq _ (h.channel hmode c), h.off⟩

theorem All.setAll (h : All mode p r) (s : LocalsaveStatus) : All mode (· = s) (r.setAll mode s) := by
  refine ⟨rfl, rfl, fun hmode c => ?_, fun hmode c => ?_⟩
  · exact congrFun (if_pos hmode) c
  · exact (congrFun (if_neg (not_not_intro hmode)) c).trans (h.off hmode c)

/-- The starts and stops change all statuses alike. -/
theorem All.handle (h : All mode p r) (hpq : ∀ s, p s → q ((s.moved .start .resume).moved .stop .idle)) :
    All mode q r.handleStart.handleStop := by
  obtain ⟨h1, h2, h3⟩ := handleStart_statuses (r := r)
  obtain ⟨g1, g2, g3⟩ := handleStop_statuses (r := r.handleStart)
  refine ⟨?_, ?_, fun hmode c => ?_, fun hmode c => ?_⟩
  · rw [g1, h1]
    exact hpq _ h.vstore
  · rw [g2, h2]
    exact hpq _ h.vlive
  · rw [g3, h3]
    exact hpq _ (h.channel hmode c)
  · rw [g3, h3, h.off hmode c]
    rfl

theorem All.handleFrame (h : All mode p r) (hp : p .resume → p .working) (f : AvFrame) : All mode p (r.handleFrame f) := by
  have hstep : ∀ {s s' : LocalsaveStatus}, FrameStep s s' → p s → p s' := by
    rintro s s' (rfl | ⟨rfl, rfl⟩) hs
    · exact hs
    · exact hp hs
  obtain ⟨h1, h2, h3⟩ := handleFrame_statuses (r := r) (f := f)
  refine ⟨hstep h1 h.vstore, hstep h2 h.vlive, fun hmode c => hstep (h3 c) (h.channel hmode c), fun hmode c => ?_⟩
  rcases h3 c with he | ⟨he, -⟩
  · rw [he, h.off hmode c]
  · rw [h.off hmode c] at he
    cases he

end

/-! ### The log -/

/-- The log has grown by calls of the kind `p`. -/
def Grown (p : FileOp → Prop) (r r' : Recorder) : Prop := ∃ ops, r'.log = r.log ++ ops ∧ ∀ o ∈ ops, p o

section
variable {p : FileOp → Prop} {r' : Recorder}

theorem Grown.same (he : r'.log = r.log) : Grown p r r' := ⟨[], he.trans (List.append_nil _).symm, List.forall_mem_nil _⟩

theorem Grown.one {o : FileOp} (he : r'.log = r.log ++ [o]) (ho : p o) : Grown p r r' :=
  ⟨[o], he, List.forall_mem_singleton.mpr ho⟩

theorem Grown.trans {x : Recorder} (h₁ : Grown p r x) (h₂ : Grown p x r') : Grown p r r' := by
  obtain ⟨ops, he, ho⟩ := h₁
  obtain ⟨ops', he', ho'⟩ := h₂
  exact ⟨ops ++ ops', by rw [he', he, List.append_assoc], List.forall_mem_append.mpr ⟨ho, ho'⟩⟩

theorem foldl_moveChannel_grown (h : ∀ c, p (op c)) : Grown p r (l.foldl (moveChannel old new op) r) := by
  induction l generalizing r with
  | nil => exact .same rfl
  | cons c l ih =>
    refine Grown.trans (x := moveChannel old new op r c) ?_ ih
    unfold moveChannel
    split
    · exact .one rfl (h c)
    · exact .same rfl

end

end Recorder

end Recbcsrv
