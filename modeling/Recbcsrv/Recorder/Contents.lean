import Recbcsrv.Recorder.Sessions

/-! What the files of the recorder contain. `thread_localsave` keeps all its files in one loop, but each of them is that of
    a small recorder of its own, which waits for a frame with which a stream starts and then takes every frame until it is
    paused or stopped. The file of the sound follows the mixed stream. -/

namespace Recbcsrv
open Bytes

/-! ### One file -/

/-- What is done to a file. -/
inductive TapeOp where
  | open
  | frame (f : AvFrame)
  | close
  deriving DecidableEq, Repr

/-- A recorder of one file: off, waiting for a frame with which a stream starts, recording, or paused. -/
inductive RecPhase where
  | off
  | waiting
  | recording
  | paused
  deriving DecidableEq, Repr

/-- The files that frames are written to: the mixed stream, the sound, and the channels. -/
inductive Track where
  | mixed
  | sound
  | channel (c : Channel)
  deriving DecidableEq, Repr

namespace RecPhase
variable {p : RecPhase}

/-- An operation on the session. -/
def onOp (p : RecPhase) : CtrlOp → RecPhase × List TapeOp
  | .start => (waiting, [.open])
  | .stop => (off, [.close])
  | .pause => (paused, [])
  | .resume => (waiting, [])
  | .none => (p, [])

/-- The status of `thread_localsave` for it. -/
def status : RecPhase → LocalsaveStatus
  | off => .idle
  | waiting => .resume
  | recording => .working
  | paused => .pause

theorem status_eq_resume : p.status = .resume ↔ p = waiting := by
  cases p <;> decide

theorem status_eq_working : p.status = .working ↔ p = recording := by
  cases p <;> decide

end RecPhase

namespace Track

def handle : Track → Handle
  | mixed => .vfd
  | sound => .afd
  | channel c => .fd c

/-- The source of the frames that are written. -/
def own : Track → AvSource
  | mixed => .vmuxStore
  | sound => .audio
  | channel c => .channel c

/-- The source of the frames that the recording starts with. -/
def lead : Track → AvSource
  | channel c => .channel c
  | _ => .vmuxStore

/-- The file is written only with `IsResouceMode`. -/
def inResource : Track → Bool
  | channel _ => true
  | _ => false

/-- The phase in which a frame is looked at: a frame with which a stream starts ends the waiting. -/
def seen (k : Track) (p : RecPhase) (f : AvFrame) : RecPhase :=
  if f.source = k.lead ∧ p = .waiting ∧ f.startsStream then .recording else p

def onFrame (k : Track) (p : RecPhase) (f : AvFrame) : RecPhase × List TapeOp :=
  (k.seen p f, if f.source = k.own ∧ k.seen p f = .recording then [.frame f] else [])

/-- The operation of a turn on the file. An exit request stops the recording, unless the message of the turn asks for something;
    it does so without `IsResouceMode` too. -/
def op (k : Track) (isResouceMode : Int) (t : Turn) : CtrlOp :=
  let op := if k.inResource ∧ isResouceMode = 0 then .none else t.op
  if t.canceled ∧ op = .none then .stop else op

def onTurn (k : Track) (isResouceMode : Int) (p : RecPhase) (t : Turn) : RecPhase × List TapeOp :=
  let x := p.onOp (k.op isResouceMode t)
  let y := t.frame.elim (x.1, []) (k.onFrame x.1)
  (y.1, x.2 ++ y.2)

/-- The phase after some turns, and what has been done to the file. -/
def record (k : Track) (isResouceMode : Int) (turns : List Turn) : RecPhase × List TapeOp :=
  turns.foldl (fun x t => ((k.onTurn isResouceMode x.1 t).1, x.2 ++ (k.onTurn isResouceMode x.1 t).2)) (.off, [])

/-- A frame that the track neither writes nor starts with. -/
theorem onFrame_other {k : Track} {p : RecPhase} {f : AvFrame} (hown : f.source ≠ k.own) (hlead : f.source ≠ k.lead) :
    k.onFrame p f = (p, []) := by
  rw [onFrame, seen, if_neg (fun h => hlead h.1), if_neg (fun h => hown h.1)]

theorem record_concat (k : Track) (mode : Int) (turns : List Turn) (t : Turn) : k.record mode (turns ++ [t]) =
    ((k.onTurn mode (k.record mode turns).1 t).1, (k.record mode turns).2 ++ (k.onTurn mode (k.record mode turns).1 t).2) :=
  List.foldl_concat ..

end Track

/-! ### The files of `thread_localsave` -/

/-- The frame that is written, if it is not a marker. -/
def Written.frame? : Written → Option AvFrame
  | store _ f => some f
  | other f => some f
  | marker _ => none

/-- What a call does to the file behind the handle `h`. -/
def tapeOp (h : Handle) : FileOp → Option TapeOp
  | .fopen h' => if h' = h then some .open else none
  | .write h' w => if h' = h then w.frame?.map .frame else none
  | .fclose h' => if h' = h then some .close else none

namespace Recorder
open RecPhase

/-- What has been done to the file of the track. -/
def tapeOf (r : Recorder) (k : Track) : List TapeOp := r.log.filterMap (tapeOp k.handle)

variable {r r' : Recorder} {k : Track} {c d : Channel} {f : AvFrame} {l : List Channel} {t : Turn} {turns pre post : List Turn} {mode : Int}
  {old new : LocalsaveStatus} {op : Channel → FileOp} {st : RecbcStatus} {p : RecPhase}

theorem tapeOf_emit (ops : List FileOp) (hlog : r'.log = r.log ++ ops) : r'.tapeOf k = r.tapeOf k ++ ops.filterMap (tapeOp k.handle) := by
  rw [tapeOf, hlog, List.filterMap_append]
  rfl

theorem tapeOf_same (hlog : r'.log = r.log) : r'.tapeOf k = r.tapeOf k := by rw [tapeOf, hlog, tapeOf]

/-! ### Starts and stops -/

theorem foldl_moveChannel_channel (hop : ∀ c, c ≠ d → tapeOp (.fd d) (op c) = none) (hnodup : l.Nodup) (r : Recorder) :
    (l.foldl (moveChannel old new op) r).tapeOf (.channel d) =
      r.tapeOf (.channel d) ++ if d ∈ l ∧ r.channel d = old then (tapeOp (.fd d) (op d)).toList else [] := by
  induction l generalizing r with
  | nil => simp
  | cons c l ih =>
    obtain ⟨hc, hnodup⟩ := List.nodup_cons.mp hnodup
    have hfirst : (moveChannel old new op r c).tapeOf (.channel d) =
        r.tapeOf (.channel d) ++ if c = d ∧ r.channel d = old then (tapeOp (.fd d) (op d)).toList else [] := by
      unfold moveChannel
      by_cases hcd : c = d
      · subst hcd
        by_cases hold : r.channel c = old
        · rw [if_pos hold, if_pos ⟨rfl, hold⟩]
          refine (tapeOf_emit [op c] rfl).trans (congrArg _ ?_)
          rw [List.filterMap_cons]
          cases h : tapeOp (.fd c) (op c) <;> simp [Track.handle, h]
        · rw [if_neg hold, if_neg (fun h : c = c ∧ r.channel c = old => hold h.2), List.append_nil]
      · rw [if_neg (fun h : c = d ∧ r.channel d = old => hcd h.1), List.append_nil]
        split
        · refine (tapeOf_emit [op c] rfl).trans ?_
          have hnone : [op c].filterMap (tapeOp (.fd d)) = [] := by rw [List.filterMap_cons_none (hop c hcd), List.filterMap_nil]
          exact (congrArg _ hnone).trans (List.append_nil _)
        · rfl
    rw [List.foldl_cons, ih hnodup, hfirst, moveChannel_channel, List.append_assoc]
    congr 1
    by_cases hcd : c = d
    · subst hcd
      have hmoved : ¬(c ∈ l ∧ (if c = c then (r.channel c).moved old new else r.channel c) = old) := fun h => hc h.1
      rw [if_neg hmoved, List.append_nil]
      simp
    · rw [if_neg (Ne.symm hcd)]
      simp [hcd, Ne.symm hcd]

theorem foldl_moveChannel_quiet (hop : ∀ c, tapeOp k.handle (op c) = none) (r : Recorder) :
    (l.foldl (moveChannel old new op) r).tapeOf k = r.tapeOf k := by
  obtain ⟨ops, hlog, hops⟩ : Grown (tapeOp k.handle · = none) r (l.foldl (moveChannel old new op) r) :=
    foldl_moveChannel_grown hop
  rw [tapeOf_emit ops hlog, List.filterMap_eq_nil_iff.mpr hops, List.append_nil]

theorem tapeOf_handleStart (r : Recorder) (k : Track) :
    r.handleStart.tapeOf k = r.tapeOf k ++ if r.status k.handle = .start then [.open] else [] := by
  have hfold : r.handleStart = Channel.list.foldl (moveChannel .start .resume fun c => .fopen (.fd c)) r.startVstore.startVlive := rfl
  have hvstore : r.startVstore.startVlive.tapeOf k =
      r.tapeOf k ++ if r.vstore = .start then [.fopen .vfd, .fopen .afd, .fopen .pfd].filterMap (tapeOp k.handle) else [] := by
    refine (tapeOf_same (r := r.startVstore) rfl).trans ?_
    unfold startVstore
    split
    · exact tapeOf_emit _ rfl
    · exact (List.append_nil _).symm
  have hch : r.startVstore.startVlive.channel = r.channel := startVstore_statuses.2.2
  rw [hfold]
  cases k with
  | channel d =>
    have hother : ∀ c, c ≠ d → tapeOp (.fd d) (.fopen (.fd c)) = none := fun c hc => if_neg fun h => hc (Handle.fd.inj h)
    rw [foldl_moveChannel_channel hother (by decide), hvstore, hch]
    have hstatus : r.status (.fd d) = r.channel d := rfl
    by_cases hs : r.channel d = .start <;> simp [tapeOp, Track.handle, Channel.mem_list, hstatus, hs]
  | mixed => exact (foldl_moveChannel_quiet (fun c => rfl) _).trans hvstore
  | sound => exact (foldl_moveChannel_quiet (fun c => rfl) _).trans hvstore

theorem tapeOf_handleStop (r : Recorder) (k : Track) :
    r.handleStop.tapeOf k = r.tapeOf k ++ if r.status k.handle = .stop then [.close] else [] := by
  have hfold : r.handleStop = Channel.list.foldl (moveChannel .stop .idle fun c => .fclose (.fd c)) r.stopVstore.stopVlive := rfl
  have hvstore : r.stopVstore.stopVlive.tapeOf k = r.tapeOf k ++ if r.vstore = .stop then
      [.fclose .afd, .fclose .vfd, .write .pfd (.marker (.stop r.frameCount)), .fclose .pfd].filterMap (tapeOp k.handle) else [] := by
    refine (tapeOf_same (r := r.stopVstore) rfl).trans ?_
    unfold stopVstore
    split
    · exact tapeOf_emit _ rfl
    · exact (List.append_nil _).symm
  have hch : r.stopVstore.stopVlive.channel = r.channel := stopVstore_statuses.2.2
  rw [hfold]
  cases k with
  | channel d =>
    have hother : ∀ c, c ≠ d → tapeOp (.fd d) (.fclose (.fd c)) = none := fun c hc => if_neg fun h => hc (Handle.fd.inj h)
    rw [foldl_moveChannel_channel hother (by decide), hvstore, hch]
    have hstatus : r.status (.fd d) = r.channel d := rfl
    by_cases hs : r.channel d = .stop <;> simp [tapeOp, Track.handle, Channel.mem_list, hstatus, hs]
  | mixed => exact (foldl_moveChannel_quiet (fun c => rfl) _).trans hvstore
  | sound => exact (foldl_moveChannel_quiet (fun c => rfl) _).trans hvstore

/-- The status of a track after the starts and stops. -/
theorem status_handle (r : Recorder) (k : Track) :
    r.handleStart.status k.handle = (r.status k.handle).moved .start .resume ∧
      r.handleStop.status k.handle = (r.status k.handle).moved .stop .idle := by
  obtain ⟨h1, -, h3⟩ := handleStart_statuses (r := r)
  obtain ⟨g1, -, g3⟩ := handleStop_statuses (r := r)
  cases k with
  | channel c => exact ⟨h3 c, g3 c⟩
  | mixed => exact ⟨h1, g1⟩
  | sound => exact ⟨h1, g1⟩

/-! ### Frames -/

/-- The status of a track when it has looked at a frame. -/
def afterStart (old : LocalsaveStatus) (f : AvFrame) : LocalsaveStatus :=
  if old = .resume ∧ f.startsStream then .working else old

theorem storeFrame_eq : (r.storeFrame f).vstore = afterStart r.vstore f ∧ ∃ marks, marks.filterMap (tapeOp .vfd) = [] ∧
    marks.filterMap (tapeOp .afd) = [] ∧ (∀ c, marks.filterMap (tapeOp (.fd c)) = []) ∧ (r.storeFrame f).log =
      r.log ++ (marks ++ if afterStart r.vstore f = .working then [.write .vfd (.store r.frameCount f)] else []) := by
  unfold storeFrame afterStart
  by_cases h : r.vstore = .resume ∧ f.startsStream
  · simp only [if_pos h]
    refine ⟨rfl, [.write .pfd (.marker (.resume r.frameCount))], rfl, rfl, fun c => rfl, ?_⟩
    exact List.append_assoc ..
  · simp only [if_neg h]
    refine ⟨?_, [], rfl, rfl, fun c => rfl, ?_⟩
    · split <;> rfl
    · split
      · rfl
      · exact (List.append_nil _).symm

theorem channelFrame_eq : (r.channelFrame c f).vstore = r.vstore ∧
    (r.channelFrame c f).channel = Function.update r.channel c (afterStart (r.channel c) f) ∧ (r.channelFrame c f).log =
      r.log ++ if afterStart (r.channel c) f = .working then [.write (.fd c) (.other f)] else [] := by
  unfold channelFrame afterStart
  by_cases h : r.channel c = .resume ∧ f.startsStream
  · simp only [if_pos h, Function.update_self, if_true]
    exact ⟨rfl, rfl, rfl⟩
  · simp only [if_neg h, Function.update_eq_self]
    split
    · exact ⟨rfl, rfl, rfl⟩
    · exact ⟨rfl, rfl, (List.append_nil _).symm⟩

/-- A track that the frame is for. -/
theorem afterStart_eq (hlead : f.source = k.lead) : afterStart p.status f = (k.seen p f).status := by
  unfold afterStart Track.seen
  by_cases h : p = .waiting ∧ f.startsStream
  · rw [if_pos ⟨status_eq_resume.mpr h.1, h.2⟩, if_pos ⟨hlead, h⟩]
    rfl
  · rw [if_neg fun hs => h ⟨status_eq_resume.mp hs.1, hs.2⟩, if_neg fun hs => h hs.2]

theorem storeFrame_track (hp : r.status k.handle = p.status) (hf : f.source = .vmuxStore) :
    (r.storeFrame f).status k.handle = (k.onFrame p f).1.status ∧ (r.storeFrame f).tapeOf k = r.tapeOf k ++ (k.onFrame p f).2 := by
  obtain ⟨hstatus, marks, hmixed, hsound, hchannel, hlog⟩ := storeFrame_eq (r := r) (f := f)
  rw [tapeOf_emit _ hlog, List.filterMap_append]
  cases k with
  | channel c =>
    rw [Track.onFrame_other (by rw [hf]; exact nofun) (by rw [hf]; exact nofun), show Track.handle (.channel c) = .fd c from rfl, hchannel]
    refine ⟨(congrFun storeFrame_statuses.2.2 c).trans hp, ?_⟩
    split <;> rfl
  | mixed =>
    have hv : afterStart r.vstore f = (Track.mixed.seen p f).status := by
      rw [show r.vstore = p.status from hp]
      exact afterStart_eq hf
    refine ⟨hstatus.trans hv, ?_⟩
    rw [hv, show Track.handle .mixed = .vfd from rfl, hmixed, Track.onFrame]
    simp only [status_eq_working, show f.source = Track.mixed.own from hf, true_and]
    split <;> rfl
  | sound =>
    have hv : afterStart r.vstore f = (Track.sound.seen p f).status := by
      rw [show r.vstore = p.status from hp]
      exact afterStart_eq hf
    have hown : f.source ≠ Track.sound.own := by rw [hf]; exact nofun
    refine ⟨hstatus.trans hv, ?_⟩
    rw [show Track.handle .sound = .afd from rfl, hsound, Track.onFrame, if_neg (fun h : f.source = _ ∧ _ => hown h.1)]
    split <;> rfl

theorem channelFrame_track (hp : r.status k.handle = p.status) (hf : f.source = .channel c) :
    (r.channelFrame c f).status k.handle = (k.onFrame p f).1.status ∧
      (r.channelFrame c f).tapeOf k = r.tapeOf k ++ (k.onFrame p f).2 := by
  obtain ⟨hvstore, hchannel, hlog⟩ := channelFrame_eq (r := r) (c := c) (f := f)
  rw [tapeOf_emit _ hlog]
  by_cases hk : k = .channel c
  · subst hk
    have hv : afterStart (r.channel c) f = ((Track.channel c).seen p f).status := by
      rw [show r.channel c = p.status from hp]
      exact afterStart_eq hf
    refine ⟨?_, ?_⟩
    · rw [show Track.handle (.channel c) = .fd c from rfl, status, hchannel, Function.update_self, hv]
      rfl
    · rw [hv, show Track.handle (.channel c) = .fd c from rfl, Track.onFrame]
      simp only [status_eq_working, show f.source = (Track.channel c).own from hf, true_and]
      split
      · simp [tapeOp, Written.frame?]
      · rfl
  · have hown : f.source ≠ k.own := by
      rw [hf]
      cases k with
      | channel d => exact fun h => hk (by rw [AvSource.channel.inj h])
      | _ => exact nofun
    have hlead : f.source ≠ k.lead := by
      rw [hf]
      cases k with
      | channel d => exact fun h => hk (by rw [AvSource.channel.inj h])
      | _ => exact nofun
    rw [Track.onFrame_other hown hlead]
    refine ⟨?_, congrArg _ ?_⟩
    · cases k with
      | channel d =>
        refine (congrFun hchannel d).trans ((Function.update_of_ne ?_ ..).trans hp)
        rintro rfl
        exact hk rfl
      | mixed => exact hvstore.trans hp
      | sound => exact hvstore.trans hp
    · have hne : Handle.fd c ≠ k.handle := by
        cases k with
        | channel d => exact fun h => hk (by rw [Handle.fd.inj h])
        | _ => exact nofun
      have hnone : tapeOp k.handle (.write (.fd c) (.other f)) = none := if_neg hne
      split
      · rw [List.filterMap_cons_none hnone, List.filterMap_nil]
      · rfl

theorem audioFrame_track (hp : r.status k.handle = p.status) (hf : f.source = .audio) :
    (r.audioFrame f).status k.handle = (k.onFrame p f).1.status ∧ (r.audioFrame f).tapeOf k = r.tapeOf k ++ (k.onFrame p f).2 := by
  obtain ⟨hvstore, -, hchannel⟩ := audioFrame_statuses (r := r) (f := f)
  have hlog : (r.audioFrame f).log = r.log ++ if r.vstore = .working then [.write .afd (.other f)] else [] := by
    unfold audioFrame
    split
    · rfl
    · exact (List.append_nil _).symm
  have hlead : f.source ≠ k.lead := by
    rw [hf]
    cases k <;> exact nofun
  rw [tapeOf_emit _ hlog]
  cases k with
  | sound =>
    have hseen : Track.sound.seen p f = p := if_neg fun h => hlead h.1
    rw [Track.onFrame, hseen]
    refine ⟨hvstore.trans hp, ?_⟩
    rw [show r.vstore = p.status from hp]
    simp only [status_eq_working, show f.source = Track.sound.own from hf, true_and]
    split <;> rfl
  | mixed =>
    rw [Track.onFrame_other (by rw [hf]; exact nofun) hlead]
    refine ⟨hvstore.trans hp, ?_⟩
    split <;> rfl
  | channel d =>
    rw [Track.onFrame_other (by rw [hf]; exact nofun) hlead]
    refine ⟨(congrFun hchannel d).trans hp, ?_⟩
    split <;> rfl

theorem handleFrame_track (hp : r.status k.handle = p.status) (f : AvFrame) :
    (r.handleFrame f).status k.handle = (k.onFrame p f).1.status ∧ (r.handleFrame f).tapeOf k = r.tapeOf k ++ (k.onFrame p f).2 := by
  unfold handleFrame
  split
  · next hf => exact storeFrame_track hp hf
  · next hf =>
    obtain ⟨hvstore, -, hchannel⟩ := liveFrame_statuses (r := r) (f := f)
    have hlog : (r.liveFrame f).log = r.log := by
      unfold liveFrame
      split <;> rfl
    rw [Track.onFrame_other (by rw [hf]; cases k <;> exact nofun) (by rw [hf]; cases k <;> exact nofun), List.append_nil]
    refine ⟨?_, tapeOf_same hlog⟩
    cases k with
    | channel d => exact (congrFun hchannel d).trans hp
    | _ => exact hvstore.trans hp
  · next c hf => exact channelFrame_track hp hf
  · next hf => exact audioFrame_track hp hf

/-! ### Turns -/

/-- The status that an operation leaves behind before the starts and stops are handled. -/
def opStatus (old : LocalsaveStatus) : CtrlOp → LocalsaveStatus
  | .start => .start
  | .stop => .stop
  | .pause => .pause
  | .resume => .resume
  | .none => old

theorem doOp_track (r : Recorder) (mode : Int) (k : Track) (op : CtrlOp) : (r.doOp mode op).tapeOf k = r.tapeOf k ∧
    (r.doOp mode op).status k.handle = if k.inResource ∧ mode = 0 then r.status k.handle else opStatus (r.status k.handle) op := by
  have hset : ∀ s, (r.setAll mode s).status k.handle = if k.inResource ∧ mode = 0 then r.status k.handle else s := fun s => by
    cases k with
    | channel c =>
      by_cases hmode : mode = 0
      · rw [if_pos ⟨rfl, hmode⟩]
        exact congrFun (if_neg (not_not_intro hmode)) c
      · rw [if_neg (fun h : _ ∧ mode = 0 => hmode h.2)]
        exact congrFun (if_pos hmode) c
    | mixed => rfl
    | sound => rfl
  cases op with
  | pause =>
    refine ⟨?_, hset .pause⟩
    refine (tapeOf_emit [.write .pfd (.marker (.pause r.frameCount))] rfl).trans ?_
    cases k <;> exact List.append_nil _
  | none => exact ⟨rfl, (ite_self _).symm⟩
  | start => exact ⟨rfl, hset .start⟩
  | stop => exact ⟨rfl, hset .stop⟩
  | resume => exact ⟨rfl, hset .resume⟩

/-- The starts and stops after an operation. -/
theorem handle_track {op : CtrlOp} (h : r.status k.handle = opStatus p.status op) :
    r.handleStart.handleStop.status k.handle = (p.onOp op).1.status ∧
      r.handleStart.handleStop.tapeOf k = r.tapeOf k ++ (p.onOp op).2 := by
  obtain ⟨hstart, -⟩ := status_handle r k
  obtain ⟨-, hstop⟩ := status_handle r.handleStart k
  rw [hstop, tapeOf_handleStop, tapeOf_handleStart, hstart, h, List.append_assoc]
  cases op <;> cases p <;> exact ⟨rfl, rfl⟩

theorem turn_track (hdoes : t.Does) (hturn : r.turn mode t = some r') (hp : r.status k.handle = p.status) :
    r'.status k.handle = (k.onTurn mode p t).1.status ∧ r'.tapeOf k = r.tapeOf k ++ (k.onTurn mode p t).2 := by
  unfold Recorder.turn at hturn
  split at hturn
  · cases hturn
  · cases hturn
    rw [hdoes.ctrl]
    obtain ⟨x, hx⟩ : ∃ x, (if t.canceled then r.cancel else r) = x := ⟨_, rfl⟩
    have hxtape : x.tapeOf k = r.tapeOf k := by
      rw [← hx]
      split <;> rfl
    have hxstatus : x.status k.handle = if t.canceled then .stop else p.status := by
      rw [← hx]
      split
      · cases k <;> rfl
      · exact hp
    obtain ⟨htape, hstatus⟩ := doOp_track x mode k t.op
    have hop : (x.doOp mode t.op).status k.handle = opStatus p.status (k.op mode t) := by
      rw [hstatus, hxstatus, Track.op]
      by_cases hres : k.inResource ∧ mode = 0
      · simp only [if_pos hres]
        cases hc : t.canceled <;> rfl
      · simp only [if_neg hres]
        cases hc : t.canceled <;> cases t.op <;> rfl
    obtain ⟨hs, ht⟩ := handle_track hop
    rw [htape, hxtape] at ht
    rw [hx]
    cases hf : t.frame with
    | none =>
      simp only [Option.elim_none, Track.onTurn, hf]
      exact ⟨hs, ht.trans (congrArg _ (List.append_nil _).symm)⟩
    | some f =>
      obtain ⟨hs', ht'⟩ := handleFrame_track hs f
      simp only [Option.elim_some, Track.onTurn, hf]
      exact ⟨hs', by rw [ht', ht, List.append_assoc]⟩

/-- After the first turns of a run. -/
theorem follows_track (hfed : Fed turns) (hturns : turns = pre ++ post) (hrun : Exec.exec (Recorder.turn mode) .init pre = some r)
    (k : Track) : r.status k.handle = (k.record mode pre).1.status ∧ r.tapeOf k = (k.record mode pre).2 := by
  induction pre using List.reverseRecOn generalizing post r with
  | nil =>
    cases hrun
    cases k <;> exact ⟨rfl, rfl⟩
  | append_singleton pre t ih =>
    obtain ⟨x, hx, hstep⟩ := Exec.exec_append.mp hrun
    rw [Exec.exec_singleton] at hstep
    have hturns' : turns = pre ++ (t :: post) := by rw [hturns, List.append_assoc, List.singleton_append]
    have hmem : t ∈ turns := by simp [hturns']
    obtain ⟨hs, ht⟩ := ih hturns' hx
    obtain ⟨hs', ht'⟩ := turn_track (hfed.lawful.2 t hmem) hstep hs
    rw [Track.record_concat]
    exact ⟨hs', by rw [ht', ht]⟩

/-- A message in a buffer that was empty. -/
def builtMsg (o : OutMsg) : Mem := ((buildMsg ⟨fun _ => 0, 0, 0, 0, 0, 0⟩ o.cmd o.args).map TCmd.fullbuf).getD fun _ => 0

theorem carried_builtMsg {o : OutMsg} (h : o.Fits) : o.Carried (builtMsg o) := by
  obtain ⟨t, ht, -⟩ := buildMsg_spec ⟨fun _ => 0, 0, 0, 0, 0, 0⟩ o.cmd o.args h.cmd h.valid h.short h.size
  refine ⟨_, t, ht, ?_⟩
  rw [builtMsg, ht]
  rfl

/-- A recording that is started, and a key frame of the first channel. -/
def keyTurns : List Turn :=
  (startMsgs noDevices).map (fun o => ⟨false, some (builtMsg o), none⟩) ++ [⟨false, none, some ⟨.channel .v1, frameFlagKeyframe, [7]⟩⟩]

/-- Another frame of the channel. -/
def nextTurn : Turn := ⟨false, none, some ⟨.channel .v1, 0, [8]⟩⟩

/-- The exit request. -/
def lastTurn : Turn := ⟨true, none, none⟩

theorem fed_keyTurns : Fed (keyTurns ++ [nextTurn, lastTurn]) := by
  refine ⟨[(noDevices, startRequest)], List.forall_mem_singleton.mpr startRequest_handleable, startMsgs noDevices, ?_, ?_⟩
  · rw [startRequest_run]
  · have hctrl : (keyTurns ++ [nextTurn, lastTurn]).filterMap Turn.ctrl = (startMsgs noDevices).map builtMsg := rfl
    rw [hctrl, List.forall₂_map_right_iff, List.forall₂_same]
    exact fun o ho => carried_builtMsg (startMsgs_fits o ho)

/-- Each file of `thread_localsave` is that of the recorder of its track, over every run behind the instructor thread. -/
theorem records_tracks (hfed : Fed turns) (hrun : Exec.exec (Recorder.turn mode) .init turns = some r) :
    ∀ k : Track, r.status k.handle = (k.record mode turns).1.status ∧ r.tapeOf k = (k.record mode turns).2 :=
  follows_track hfed (List.append_nil turns).symm hrun

theorem records_tracks_keyTurns : ∃ r, Exec.exec (Recorder.turn 1) init (keyTurns ++ [nextTurn, lastTurn]) = some r ∧
    r.tapeOf (.channel .v1) =
      [.open, .frame ⟨.channel .v1, frameFlagKeyframe, [7]⟩, .frame ⟨.channel .v1, 0, [8]⟩, .close] := by
  have hsome : (Exec.exec (Recorder.turn 1) init (keyTurns ++ [nextTurn, lastTurn])).isSome := by decide +kernel
  obtain ⟨r, hr⟩ := Option.isSome_iff_exists.mp hsome
  refine ⟨r, hr, (records_tracks fed_keyTurns hr (.channel .v1)).2.trans ?_⟩
  decide +kernel

/-! ### What is written can be decoded -/

/-- In the turn `t` after the turns `pre` the recorder writes the frame `f` to the file of the track. -/
def Takes (mode : Int) (pre : List Turn) (t : Turn) (k : Track) (f : AvFrame) : Prop :=
  ∃ r r' ops, Exec.exec (Recorder.turn mode) .init pre = some r ∧ r.turn mode t = some r' ∧ r'.tapeOf k = r.tapeOf k ++ ops ∧ .frame f ∈ ops

end Recorder

namespace Track
variable {k : Track} {mode : Int} {pre : List Turn} {t : Turn} {f : AvFrame} {p : RecPhase}

/-- The phase in which a turn looks at its frame. -/
def phaseAt (k : Track) (mode : Int) (p : RecPhase) (t : Turn) : RecPhase := (p.onOp (k.op mode t)).1

theorem mem_onTurn : .frame f ∈ (k.onTurn mode p t).2 ↔
    t.frame = some f ∧ f.source = k.own ∧ k.seen (k.phaseAt mode p t) f = .recording := by
  have hops : ∀ q : RecPhase, ∀ op, TapeOp.frame f ∉ (q.onOp op).2 := fun q op => by
    cases op <;> simp [RecPhase.onOp]
  simp only [onTurn, List.mem_append, hops, false_or]
  cases hf : t.frame with
  | none => simp
  | some g =>
    simp only [Option.elim_some, onFrame, phaseAt, Option.some.injEq]
    constructor
    · intro h
      split at h
      · next hg =>
        obtain rfl : f = g := TapeOp.frame.inj (List.mem_singleton.mp h)
        exact ⟨rfl, hg⟩
      · cases h
    · rintro ⟨rfl, hg⟩
      rw [if_pos hg]
      exact List.mem_singleton_self _

/-- An operation does not leave the track recording, except none. -/
theorem op_of_recording (h : k.phaseAt mode p t = .recording) : k.op mode t = .none ∧ p = .recording := by
  unfold phaseAt at h
  cases hop : k.op mode t <;> rw [hop] at h <;> cases h
  exact ⟨rfl, rfl⟩

/-- Once the track is recording, it has written the last frame of its stream, and there has been no operation since. -/
theorem last_written (hk : k.own = k.lead) (h : (k.record mode pre).1 = .recording) : ∃ pre' u mid g, pre = pre' ++ u :: mid ∧
    .frame g ∈ (k.onTurn mode (k.record mode pre').1 u).2 ∧ (∀ x ∈ mid, ∀ f, x.frame = some f → f.source ≠ k.own) ∧
    ∀ x ∈ mid, k.op mode x = .none := by
  induction pre using List.reverseRecOn with
  | nil => cases h
  | append_singleton pre t ih =>
    rw [record_concat] at h
    by_cases hf : ∃ f, t.frame = some f ∧ f.source = k.own
    · obtain ⟨f, hf, hown⟩ := hf
      refine ⟨pre, t, [], f, rfl, mem_onTurn.mpr ⟨hf, hown, ?_⟩, List.forall_mem_nil _, List.forall_mem_nil _⟩
      simp only [onTurn, hf, Option.elim_some] at h
      exact h
    · have hother : ∀ f, t.frame = some f → f.source ≠ k.own := fun f hf' hown => hf ⟨f, hf', hown⟩
      have hphase : k.phaseAt mode (k.record mode pre).1 t = .recording := by
        cases hframe : t.frame with
        | none =>
          simp only [onTurn, hframe, Option.elim_none] at h
          exact h
        | some f =>
          have hne := hother f hframe
          simp only [onTurn, hframe, Option.elim_some, onFrame_other hne (hk ▸ hne)] at h
          exact h
      obtain ⟨hop, hrec⟩ := op_of_recording hphase
      obtain ⟨pre', u, mid, g, rfl, hg, hmid, hops⟩ := ih hrec
      refine ⟨pre', u, mid ++ [t], g, by simp, hg, fun x hx => ?_, fun x hx => ?_⟩
      · rcases List.mem_append.mp hx with hx | hx
        · exact hmid x hx
        · rw [List.mem_singleton.mp hx]
          exact hother
      · rcases List.mem_append.mp hx with hx | hx
        · exact hops x hx
        · rw [List.mem_singleton.mp hx]
          exact hop

end Track

namespace Recorder
variable {r : Recorder} {k : Track} {f : AvFrame} {t : Turn} {turns pre post : List Turn} {mode : Int}

/-- What the recorder writes in a turn is what the recorder of the track writes. -/
theorem takes_iff (hfed : Fed turns) (hturns : turns = pre ++ t :: post) : Takes mode pre t k f ↔
    (∃ r r', Exec.exec (Recorder.turn mode) .init pre = some r ∧ r.turn mode t = some r') ∧
      .frame f ∈ (k.onTurn mode (k.record mode pre).1 t).2 := by
  have hmem : t ∈ turns := by simp [hturns]
  have hstep : ∀ r r', Exec.exec (Recorder.turn mode) .init pre = some r → r.turn mode t = some r' →
      r'.tapeOf k = r.tapeOf k ++ (k.onTurn mode (k.record mode pre).1 t).2 := fun r r' hr hr' =>
    (turn_track (hfed.lawful.2 t hmem) hr' (follows_track hfed hturns hr k).1).2
  constructor
  · rintro ⟨r, r', ops, hr, hr', hops, hf⟩
    rw [hstep r r' hr hr'] at hops
    exact ⟨⟨r, r', hr, hr'⟩, List.append_cancel_left hops ▸ hf⟩
  · rintro ⟨⟨r, r', hr, hr'⟩, hf⟩
    exact ⟨r, r', _, hr, hr', hstep r r' hr hr', hf⟩

/-- A frame with which no stream starts is written right behind the frame before it in its stream, in the same session and
    without a pause between them. -/
theorem written_after (hfed : Fed turns) (hturns : turns = pre ++ t :: post) (hk : k ≠ .sound) (hf : Takes mode pre t k f)
    (hkey : f.startsStream = false) :
    ∃ pre' u mid g, pre = pre' ++ u :: mid ∧ Takes mode pre' u k g ∧ (∀ x ∈ mid, ∀ g, x.frame = some g → g.source ≠ k.own) ∧
      ∀ x ∈ mid ++ [t], k.op mode x = .none := by
  obtain ⟨⟨r, r', hr, hr'⟩, hmem⟩ := (takes_iff hfed hturns).mp hf
  obtain ⟨-, -, hseen⟩ := Track.mem_onTurn.mp hmem
  rw [Track.seen, if_neg fun h => by rw [hkey] at h; exact Bool.false_ne_true h.2.2] at hseen
  obtain ⟨hop, hrec⟩ := Track.op_of_recording hseen
  have hlead : k.own = k.lead := by
    cases k with
    | sound => exact absurd rfl hk
    | _ => rfl
  obtain ⟨pre', u, mid, g, rfl, hg, hmid, hops⟩ := Track.last_written hlead hrec
  obtain ⟨x, hx, hrest⟩ := Exec.exec_append.mp hr
  obtain ⟨y, hy, -⟩ := Exec.exec_cons.mp hrest
  have hturns' : turns = pre' ++ u :: (mid ++ t :: post) := by simp [hturns]
  refine ⟨pre', u, mid, g, rfl, (takes_iff hfed hturns').mpr ⟨⟨x, y, hx, hy⟩, hg⟩, hmid, ?_⟩
  rw [List.forall_mem_append]
  exact ⟨hops, List.forall_mem_singleton.mpr hop⟩

theorem written_after_nextTurn : ∃ pre' u mid g, keyTurns = pre' ++ u :: mid ∧ Takes 1 pre' u (.channel .v1) g ∧
    (∀ x ∈ mid, ∀ g, x.frame = some g → g.source ≠ .channel .v1) ∧ ∀ x ∈ mid ++ [nextTurn], (Track.channel .v1).op 1 x = .none := by
  have hsome : (Exec.exec (Recorder.turn 1) init (keyTurns ++ [nextTurn])).isSome := by decide +kernel
  obtain ⟨r', hr'⟩ := Option.isSome_iff_exists.mp hsome
  obtain ⟨r, hr, hlast⟩ := Exec.exec_append.mp hr'
  rw [Exec.exec_singleton] at hlast
  have htakes : Takes 1 keyTurns nextTurn (.channel .v1) ⟨.channel .v1, 0, [8]⟩ :=
    (takes_iff fed_keyTurns rfl).mpr ⟨⟨r, r', hr, hlast⟩, by decide +kernel⟩
  exact written_after fed_keyTurns rfl nofun htakes (by decide)

end Recorder

end Recbcsrv
