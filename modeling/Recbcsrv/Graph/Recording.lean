import Recbcsrv.Graph.Wiring
import Recbcsrv.Message.Media
import Recbcsrv.Recorder.Clips

/-! From the boards to the files. The boards' frames come in packets and are put together on the FIFOs of their threads, the
    instructor's messages are passed on through a FIFO of `main`, and `thread_localsave` takes both from its two consumer
    FIFOs while all these threads run. -/

set_option linter.unusedSectionVars false

namespace Recbcsrv
open Bytes Datafifo

/-! ### What a consumer is shown -/

section
variable {P C : Type} [DecidableEq P] [DecidableEq C] {s : Sys P C} {log : List (Event P C)} {p : P} {c : C}

/-- The frames that a consumer has taken off its list, with their producers. -/
def takenBy (c : C) (log : List (Event P C)) : List (P × Frame) :=
  log.filterMap fun
    | .seen d p f => if d = c then some (p, f) else none
    | .completed _ _ => none

/-- These, and the frames that are still on the list. -/
def Sys.shown (s : Sys P C) (log : List (Event P C)) (c : C) : List (P × Frame) := takenBy c log ++ (s.live c).filterMap (s.read c)

theorem readFrom_takenBy : readFrom p (takenBy c log) = seenBy c p log := by
  rw [readFrom, takenBy, seenBy, List.filterMap_filterMap]
  refine List.filterMap_congr fun e _ => ?_
  cases e with
  | completed q f => rfl
  | seen d q f => by_cases hd : d = c <;> simp [hd]

variable [Fintype C] {chain : P → List C}

/-- What a consumer is shown of a producer are the first frames that the producer has completed. -/
theorem Sys.Ok.readFrom_shown (h : s.Ok) (hd : View.Delivered chain s.view log) (c : C) (p : P) :
    readFrom p (s.shown log c) <+: handed ((chain p).count c) (completedBy p log) := by
  rw [Sys.shown, readFrom, List.filterMap_append]
  change readFrom p (takenBy c log) ++ readFrom p ((s.live c).filterMap (s.read c)) <+: _
  rw [readFrom_takenBy, h.read_sent, ← hd.frames c p]
  exact List.prefix_append _ _

end

/-- The FIFOs that `main` sets up are those of a system that has not begun. -/
theorem Wiring.fifos_sys {T P C : Type} [DecidableEq P] (w : Wiring T P C) :
    w.fifos.sys = Sys.start w.psize w.pcnt w.csize w.ccnt fun p => (w.fifos.producer p).consumers := by
  have hfold : ∀ (l : List (P × C)) (f : Fifos P C),
      (∀ p, f.producer p = { (datafifoInit (w.psize p) (w.pcnt p) : Datafifo P C) with consumers := (f.producer p).consumers }) ∧
        (∀ c, f.consumer c = datafifoInit (w.csize c) (w.ccnt c)) →
      (∀ p, (l.foldl (fun f e => f.datafifoConnect e.1 e.2) f).producer p =
        { (datafifoInit (w.psize p) (w.pcnt p) : Datafifo P C) with
          consumers := ((l.foldl (fun f e => f.datafifoConnect e.1 e.2) f).producer p).consumers }) ∧
        ∀ c, (l.foldl (fun f e => f.datafifoConnect e.1 e.2) f).consumer c = datafifoInit (w.csize c) (w.ccnt c) := fun l => by
    induction l with
    | nil => exact fun f h => h
    | cons e l ih =>
      refine fun f h => ih _ ⟨fun p => ?_, h.2⟩
      simp only [Fifos.datafifoConnect, Fifos.setProducer]
      by_cases hp : p = e.1
      · subst hp
        rw [Function.update_self, h.1 e.1]
      · rw [Function.update_of_ne hp]
        exact h.1 p
  obtain ⟨hproducer, hconsumer⟩ := hfold w.connections (Fifos.init w.psize w.pcnt w.csize w.ccnt) ⟨fun p => rfl, fun c => rfl⟩
  have hp : w.fifos.producer = fun p => { (datafifoInit (w.psize p) (w.pcnt p) : Datafifo P C) with
      consumers := (w.fifos.producer p).consumers } := funext hproducer
  have hc : w.fifos.consumer = fun c => datafifoInit (w.csize c) (w.ccnt c) := funext hconsumer
  rw [Fifos.sys, Sys.start, ← hp, ← hc]

/-! ### The threads of the boards, and `main` -/

/-- The boards. -/
inductive Board where
  | a
  | b
  | c
  | d
  deriving DecidableEq, Repr

namespace Board

/-- What the thread of the board does with a message. -/
def handler : Board → DevHandler
  | a => .devA
  | b | c => .devBC
  | d => .devD

/-- The FIFOs that `main` gives to the thread. -/
def fifo : Board → MediaFifo → Option ProducerFifo
  | a, .audio => some .audio
  | a, .first => some .vmuxStore
  | a, .second => some .vmuxLive
  | b, .first => some .v1
  | b, .second => some .v2
  | c, .first => some .v3
  | c, .second => some .v4
  | d, .first => some .v5
  | d, .second => some .v6
  | _, .audio => none

/-- The thread of the board makes the calls for messages with the packets of the frames `fs`, some of them or all. -/
structure Brings (board : Board) (as : List (Action ProducerFifo ConsumerFifo)) (fs : MediaFifo → List MediaFrame) : Prop where
  audio : ∀ i, ∀ f ∈ fs i, (f.frameType = frmtypeAudio ↔ i = .audio)
  fit : ∀ i, ∀ p ∈ board.fifo i, ∀ f ∈ fs i, f.bytes.length ≤ mainWiring.psize p
  calls : ∃ (packets : List (MediaFifo × Packet)) (items : List (List UInt8 × Mem)),
    (∀ i, packets.filterMap (fun x => if x.1 = i then some x.2 else none) = (fs i).flatMap MediaFrame.packets) ∧
    List.Forall₂ (fun x item => CarriesMedia x.1 x.2 item.2) packets items ∧
    ∀ i, ∀ p ∈ board.fifo i, callsOf p as <+: mediaTo i (board.handler.handleAll items)

end Board

/-- `main` passes messages on through `Ctrl_producer_fifo`, some of them or all. -/
def PassesOn (as : List (Action ProducerFifo ConsumerFifo)) (sent : List OutMsg) : Prop :=
  ∃ calls, List.Forall₂ (fun o call => ∃ t, o.send2df t = some call) sent calls ∧ callsOf .ctrl as <+: calls

/-! ### `thread_localsave` -/

/-- The FIFO that `main` makes known to `thread_localsave` for a source. -/
def AvSource.fifo : AvSource → ProducerFifo
  | vmuxStore => .vmuxStore
  | vmuxLive => .vmuxLive
  | audio => .audio
  | channel .vga => .vga
  | channel .v1 => .v1
  | channel .v2 => .v2
  | channel .v3 => .v3
  | channel .v4 => .v4
  | channel .v5 => .v5
  | channel .v6 => .v6

/-- The source that `ref->datafifo` is equal to. -/
def ProducerFifo.source : ProducerFifo → Option AvSource
  | vmuxStore => some .vmuxStore
  | vmuxLive => some .vmuxLive
  | audio => some .audio
  | vga => some (.channel .vga)
  | v1 => some (.channel .v1)
  | v2 => some (.channel .v2)
  | v3 => some (.channel .v3)
  | v4 => some (.channel .v4)
  | v5 => some (.channel .v5)
  | v6 => some (.channel .v6)
  | _ => none

theorem ProducerFifo.source_eq {p : ProducerFifo} {a : AvSource} : p.source = some a ↔ p = a.fifo := by
  cases a with
  | channel c => cases c <;> cases p <;> decide
  | _ => cases p <;> decide

/-- A frame as it is recorded. -/
def Frame.av (a : AvSource) (f : Frame) : AvFrame := ⟨a, f.flags, f.data⟩

/-- A frame at the head of `av_consumer_fifo`. -/
def avFrame (x : ProducerFifo × Frame) : Option AvFrame := x.1.source.map fun a => x.2.av a

/-- The turns of `thread_localsave` handle what its two consumer FIFOs show. -/
structure Handles (s : Sys ProducerFifo ConsumerFifo) (log : List (Event ProducerFifo ConsumerFifo)) (turns : List Turn) : Prop where
  ctrl : ∃ read, read <+: s.shown log .ctrlLocalsave ∧
    List.Forall₂ (fun x m => load m 0 x.2.data.length = x.2.data) read (turns.filterMap Turn.ctrl)
  frames : turns.filterMap Turn.frame <+: (s.shown log .v).filterMap avFrame

/-! ### The messages of the instructor -/

section
variable {as : List (Action ProducerFifo ConsumerFifo)} {s : Sys ProducerFifo ConsumerFifo} {log : List (Event ProducerFifo ConsumerFifo)}
  {sent : List OutMsg} {turns : List Turn} {p : ProducerFifo} {c : ConsumerFifo}

/-- The consumers of a producer FIFO. -/
def mainChain (p : ProducerFifo) : List ConsumerFifo := (mainWiring.fifos.producer p).consumers

theorem count_ctrlLocalsave (p : ProducerFifo) : (mainChain p).count .ctrlLocalsave = if p = .ctrl then 1 else 0 := by
  cases p <;> decide +kernel

theorem count_v (a : AvSource) : (mainChain a.fifo).count .v = 1 := by
  cases a with
  | channel c => cases c <;> decide +kernel
  | _ => decide +kernel

theorem handed_one (l : List Frame) : handed 1 l = l := List.flatMap_singleton' l

/-- In every run of `main`'s FIFOs. -/
theorem shown_main (hexec : Exec.exec Sys.logged (mainWiring.fifos.sys, []) as = some (s, log)) (c : ConsumerFifo) (p : ProducerFifo) :
    readFrom p (s.shown log c) <+: handed ((mainChain p).count c) (completedBy p log) := by
  rw [mainWiring.fifos_sys] at hexec
  obtain ⟨hok, hd⟩ := Sys.Ok.logged (Sys.Ok.start _ _ _ _ _) (Sys.delivered_start _ _ _ _ _) hexec
  exact hok.readFrom_shown hd c p

/-- Each message is completed as one frame. -/
theorem PassesOn.frames (h : PassesOn as sent) (hfits : ∀ o ∈ sent, o.Fits)
    (hexec : Exec.exec Sys.logged (mainWiring.fifos.sys, []) as = some (s, log)) : ∃ frames, completedBy .ctrl log <+: frames ∧
      List.Forall₂ (fun o f => ∀ m, load m 0 f.data.length = f.data → o.Carried m) sent frames := by
  obtain ⟨calls, hsent, hcalls⟩ := h
  rw [mainWiring.fifos_sys] at hexec
  have hflags : hasFlag (frameFlagNewframe ||| frameFlagFrameend) frameFlagNewframe = true ∧
      hasFlag (frameFlagNewframe ||| frameFlagFrameend) frameFlagFrameend = true := by decide
  have hcall : ∀ (o : OutMsg) (call : Call), o.Fits ∧ (∃ t, o.send2df t = some call) →
      (call.flags = frameFlagNewframe ||| frameFlagFrameend ∧ call.data.length ≤ mainWiring.psize .ctrl) ∧
        ∀ m, load m 0 call.data.length = call.data → o.Carried m := by
    rintro o call ⟨hfit, t, ht⟩
    obtain ⟨call', ht', hlen, hheld⟩ := hfit.send2df t
    obtain rfl : call' = call := Option.some.inj (ht'.symm.trans ht)
    refine ⟨⟨?_, ?_⟩, hheld⟩
    · obtain ⟨t', -, rfl⟩ := Option.map_eq_some_iff.mp ht
      rfl
    · have hsize := hfit.size
      have hmax : cmdBufsize = mainWiring.psize .ctrl := by decide
      omega
  have hpairs := ((List.forall₂_and_left sent calls).mpr ⟨hfits, hsent⟩).imp hcall
  obtain ⟨hall, hheld⟩ := (List.forall₂_and_left calls sent).mp hpairs.flip
  have hone : ∀ call ∈ calls, ∀ done, [call].foldl (Assembly.dataAdd (mainWiring.psize .ctrl)) ⟨done, none⟩ =
      ⟨done ++ [call.opened.grow call.data], none⟩ ∧ Assembly.Continues (mainWiring.psize .ctrl) ⟨done, none⟩ [call] := by
    intro call hmem done
    obtain ⟨hf, hlen⟩ := hall call hmem
    have hbrought : Assembly.Brought true [call] := ⟨hf ▸ hflags.1, hf ▸ hflags.2, fun hne => absurd rfl hne⟩
    simpa using Assembly.foldl_brought hbrought (by simpa using hlen) done
  obtain ⟨hfold, hcont⟩ := Assembly.foldl_flatMap (fun call : Call => call.opened.grow call.data) calls [] hone
  rw [List.flatMap_singleton'] at hfold hcont
  refine ⟨_, (reassembles hexec hfold hcont hcalls).soFar, ?_⟩
  rw [List.nil_append, List.forall₂_map_right_iff]
  refine hheld.flip.imp fun o call hm m hdata => hm m ?_
  rwa [show (call.opened.grow call.data).data = call.data by rw [Frame.grow, Call.opened_empty.1, List.nil_append]] at hdata

/-- The control FIFO of `thread_localsave` shows the frames of `ctrl_producer_fifo` alone. -/
theorem shown_ctrlLocalsave (hexec : Exec.exec Sys.logged (mainWiring.fifos.sys, []) as = some (s, log)) :
    (s.shown log .ctrlLocalsave).map Prod.snd <+: completedBy .ctrl log := by
  have hsource : ∀ x ∈ s.shown log .ctrlLocalsave, x.1 = .ctrl := fun x hx => by
    by_contra hne
    have hshown := shown_main hexec .ctrlLocalsave x.1
    rw [count_ctrlLocalsave, if_neg hne] at hshown
    have hmem : x.2 ∈ readFrom x.1 (s.shown log .ctrlLocalsave) := List.mem_filterMap.mpr ⟨x, hx, if_pos rfl⟩
    simpa [handed] using hshown.subset hmem
  have hall : readFrom .ctrl (s.shown log .ctrlLocalsave) = (s.shown log .ctrlLocalsave).map Prod.snd := by
    rw [← List.filterMap_eq_map]
    exact List.filterMap_congr fun x hx => if_pos (hsource x hx)
  have hshown := shown_main hexec .ctrlLocalsave .ctrl
  rwa [hall, count_ctrlLocalsave, if_pos rfl, handed_one] at hshown

theorem forall₂_trans {α β γ : Type} {R : α → β → Prop} {S : β → γ → Prop} {T : α → γ → Prop}
    (h : ∀ a b c, R a b → S b c → T a c) {l : List α} {l' : List β} {l'' : List γ} (hl : List.Forall₂ R l l')
    (hl' : List.Forall₂ S l' l'') : List.Forall₂ T l l'' := by
  induction hl generalizing l'' with
  | nil =>
    cases hl'
    exact .nil
  | cons hr _ ih =>
    cases hl' with
    | cons hs hl' => exact .cons (h _ _ _ hr hs) (ih hl')

/-- What `thread_localsave` handles are the first messages that `main` passes on. -/
theorem Handles.fed {msgs : List (InstructorEnv × Mem)} (h : Handles s log turns)
    (hexec : Exec.exec Sys.logged (mainWiring.fifos.sys, []) as = some (s, log)) (hm : ∀ p ∈ msgs, Handleable p.2)
    (hctrl : PassesOn as (Instructor.start.run msgs).sent) : Fed turns := by
  obtain ⟨frames, hframes, hsent⟩ := hctrl.frames (Instructor.run_fits (List.forall_mem_nil _) hm) hexec
  obtain ⟨read, hread, hheld⟩ := h.ctrl
  have hprefix : read.map Prod.snd <+: frames := ((hread.map Prod.snd).trans (shown_ctrlLocalsave hexec)).trans hframes
  have hfirst := List.forall₂_take (read.map Prod.snd).length hsent
  rw [← List.prefix_iff_eq_take.mp hprefix, List.forall₂_map_right_iff] at hfirst
  exact ⟨msgs, hm, _, List.take_prefix _ _, forall₂_trans (fun o x m ho hx => ho m hx) hfirst hheld⟩

/-! ### The frames of the boards -/

theorem Board.Brings.frames {board : Board} {fs : MediaFifo → List MediaFrame} (h : board.Brings as fs)
    (hexec : Exec.exec Sys.logged (mainWiring.fifos.sys, []) as = some (s, log)) {i : MediaFifo} (hi : board.fifo i = some p) :
    completedBy p log <+: (fs i).map MediaFrame.frame := by
  obtain ⟨packets, items, hpackets, hitems, hcalls⟩ := h.calls
  have hhas : board.handler.Has i := by
    cases board <;> cases i <;> trivial
  have hto := hcalls i p hi
  rw [DevHandler.mediaTo_handleAll h.audio hpackets hitems, if_pos hhas] at hto
  rw [mainWiring.fifos_sys] at hexec
  obtain ⟨hfold, hcont⟩ := Assembly.foldl_flatMap MediaFrame.frame (fs i) [] fun f hf =>
    MediaFrame.foldl_packets (h.fit i p hi f hf)
  exact (reassembles hexec hfold hcont hto).soFar

/-- What the recorder of a track gets are the first frames that its FIFO has completed. -/
theorem Handles.stream (h : Handles s log turns) (hexec : Exec.exec Sys.logged (mainWiring.fifos.sys, []) as = some (s, log))
    (k : Track) : k.stream turns <+: (completedBy k.own.fifo log).map (Frame.av k.own) := by
  have hshown := shown_main hexec .v k.own.fifo
  rw [count_v, handed_one] at hshown
  have hown : ((s.shown log .v).filterMap avFrame).filter (·.source = k.own) =
      (readFrom k.own.fifo (s.shown log .v)).map (Frame.av k.own) := by
    rw [readFrom, List.filter_filterMap, List.map_filterMap]
    refine List.filterMap_congr fun x _ => ?_
    rw [avFrame]
    by_cases hx : x.1 = k.own.fifo
    · rw [if_pos hx, ProducerFifo.source_eq.mpr hx]
      simp [Frame.av]
    · rw [if_neg hx]
      cases hs : x.1.source with
      | none => rfl
      | some a =>
        have hne : a ≠ k.own := by
          rintro rfl
          exact hx (ProducerFifo.source_eq.mp hs)
        simp [Frame.av, hne]
  have hframes := h.frames.filter (·.source = k.own)
  rw [hown] at hframes
  exact hframes.trans (hshown.map _)

end

/-! ### The files -/

/-- A frame of a board as it is recorded. -/
def MediaFrame.av (a : AvSource) (f : MediaFrame) : AvFrame := f.frame.av a

/-- A first frame, or one of the type I or IDR. -/
def MediaFrame.StartsStream (f : MediaFrame) : Prop := f.frameNum = 0 ∨ f.frameType = frmtypeVideoI ∨ f.frameType = frmtypeVideoIdr

theorem MediaFrame.startsStream_av {a : AvSource} {f : MediaFrame} : (f.av a).startsStream = true ↔ f.StartsStream := by
  unfold av Frame.av frame AvFrame.startsStream StartsStream
  by_cases hfirst : f.frameNum = 0 <;> by_cases hkey : f.frameType = frmtypeVideoI ∨ f.frameType = frmtypeVideoIdr <;>
    simp only [hfirst, hkey, if_true, if_false] <;> decide

/-- The files behind the boards. In every run of `main`'s FIFOs in which `main` passes on messages of the instructor thread, the
    thread of a board handles messages with the packets of the board's frames, and `thread_localsave` handles what its FIFOs
    show: a file holds whole frames of its stream, with their bytes and in their order, in clips without gaps, each of which
    begins with a frame with which the stream starts and lies behind all that opened or closed the file before. With sound, any
    frame may begin one. -/
theorem recorded_clips {as : List (Action ProducerFifo ConsumerFifo)} {s : Sys ProducerFifo ConsumerFifo}
    {log : List (Event ProducerFifo ConsumerFifo)} (hexec : Exec.exec Sys.logged (mainWiring.fifos.sys, []) as = some (s, log))
    {msgs : List (InstructorEnv × Mem)} (hm : ∀ p ∈ msgs, Handleable p.2) (hctrl : PassesOn as (Instructor.start.run msgs).sent)
    {board : Board} {fs : MediaFifo → List MediaFrame} (hboard : board.Brings as fs) {turns : List Turn} (hturns : Handles s log turns)
    {mode : Int} {r : Recorder} (hrun : Exec.exec (Recorder.turn mode) .init turns = some r) {k : Track} {i : MediaFifo}
    (hi : board.fifo i = some k.own.fifo) :
    ∃ clips : List (Clip MediaFrame), clips.flatMap Clip.stream <+: fs i ∧
      r.tapeOf k = clips.flatMap (Clip.tape (MediaFrame.av k.own)) ∧
      ∀ c ∈ clips, c.Sound fun f => k = .sound ∨ f.StartsStream := by
  obtain ⟨clips, h⟩ := k.exists_clipped mode turns
  obtain ⟨-, htape⟩ := Recorder.follows_track (hturns.fed hexec hm hctrl) (List.append_nil turns).symm hrun k
  have hstream : k.stream turns <+: (fs i).map (MediaFrame.av k.own) := by
    refine (hturns.stream hexec k).trans ?_
    have hmap := (hboard.frames hexec hi).map (Frame.av k.own)
    rwa [List.map_map] at hmap
  obtain ⟨first, hfirst, hmap⟩ := List.prefix_map_iff.mp hstream
  obtain ⟨clips', hclips', rfl⟩ := Clip.exists_of_map (h.stream.trans hmap)
  refine ⟨clips', hclips' ▸ hfirst, ?_, fun c hc => ?_⟩
  · rw [htape, ← h.tape, List.flatMap_map]
    refine List.flatMap_congr fun c _ => ?_
    simp only [Clip.tape, List.map_map]
    rfl
  · have hsound := h.sound _ (List.mem_map_of_mem hc)
    refine ⟨hsound.ops, fun f hf => ?_⟩
    have hbegins := hsound.first (f.av k.own) (by simp only [List.head?_map, Option.mem_def.mp hf, Option.map_some]; rfl)
    exact hbegins.imp_right MediaFrame.startsStream_av.mp

/-- A key frame in two pieces and the frame behind it, on the first channel. -/
def clipFrames : MediaFifo → List MediaFrame
  | .first => [⟨frmtypeVideoI, 3, 25, 40, [[7], [8, 6]], by decide, by decide⟩, ⟨frmtypeVideoP, 4, 25, 80, [[5]], by decide, by decide⟩]
  | _ => []

/-- The messages with which a recording starts. -/
def startCalls : List Call :=
  (startMsgs noDevices).map fun o => (o.send2df ⟨fun _ => 0, 0, 0, 0, 0, 0⟩).getD ⟨[], 0, 0⟩

/-- The calls for these messages and for the frames, each run to its end. -/
def clipCalls : List (Action ProducerFifo ConsumerFifo) :=
  startCalls.flatMap (fun call => .dataAdd .ctrl call :: List.replicate 78 (.producer .ctrl)) ++
    (((clipFrames .first).flatMap fun f => f.packets.map Packet.mediaCall).zip [10, 18, 23]).flatMap fun x =>
      .dataAdd .v1 x.1 :: List.replicate x.2 (.producer .v1)

/-- The turns of `thread_localsave` for them. -/
def clipTurns : List Turn :=
  startCalls.map (fun call => ⟨false, some (store (fun _ => 0) 0 call.data), none⟩) ++
    (clipFrames .first).map fun f => ⟨false, none, some (f.av (.channel .v1))⟩

theorem recorded_clips_clipTurns : ∃ s log r, Exec.exec Sys.logged (mainWiring.fifos.sys, []) clipCalls = some (s, log) ∧
    Exec.exec (Recorder.turn 1) .init clipTurns = some r ∧
    ∃ clips : List (Clip MediaFrame), clips.flatMap Clip.stream <+: clipFrames .first ∧
      r.tapeOf (.channel .v1) = clips.flatMap (Clip.tape (MediaFrame.av (.channel .v1))) ∧
      ∀ c ∈ clips, c.Sound fun f => Track.channel .v1 = .sound ∨ f.StartsStream := by
  have hexec : (Exec.exec Sys.logged (mainWiring.fifos.sys, []) clipCalls).any (fun x =>
      (x.1.shown x.2 .ctrlLocalsave).map (fun y => y.2.data) = startCalls.map Call.data ∧
        (x.1.shown x.2 .v).filterMap avFrame = (clipFrames .first).map (MediaFrame.av (.channel .v1))) = true := by
    decide +kernel
  obtain ⟨⟨s, log⟩, hs, hshown⟩ := (Option.any_eq_true ..).mp hexec
  obtain ⟨hctrl, hv⟩ := of_decide_eq_true hshown
  have hrun : (Exec.exec (Recorder.turn 1) .init clipTurns).isSome := by decide +kernel
  obtain ⟨r, hr⟩ := Option.isSome_iff_exists.mp hrun
  have hhandles : Handles s log clipTurns := by
    refine ⟨⟨_, List.prefix_rfl, ?_⟩, ?_⟩
    · have hturns : clipTurns.filterMap Turn.ctrl = startCalls.map fun call => store (fun _ => 0) 0 call.data := rfl
      have hheld : List.Forall₂ (fun data m => load m 0 data.length = data) (startCalls.map Call.data)
          (startCalls.map fun call => store (fun _ => 0) 0 call.data) := by
        rw [List.forall₂_map_left_iff, List.forall₂_map_right_iff, List.forall₂_same]
        exact fun call _ => load_store_self ..
      rw [← hctrl, List.forall₂_map_left_iff] at hheld
      rw [hturns]
      exact hheld
    · have hturns : clipTurns.filterMap Turn.frame = (clipFrames .first).map (MediaFrame.av (.channel .v1)) := rfl
      rw [hturns, hv]
  have hpasses : PassesOn clipCalls (Instructor.start.run [(noDevices, startRequest)]).sent := by
    refine ⟨startCalls, ?_, (show callsOf .ctrl clipCalls = startCalls by decide +kernel) ▸ List.prefix_rfl⟩
    rw [startRequest_run, startCalls, List.forall₂_map_right_iff, List.forall₂_same]
    intro o ho
    obtain ⟨call, hcall, -⟩ := (startMsgs_fits o ho).send2df ⟨fun _ => 0, 0, 0, 0, 0, 0⟩
    exact ⟨_, by rw [hcall]; rfl⟩
  have haudio : ∀ i, ∀ f ∈ clipFrames i, (f.frameType = frmtypeAudio ↔ i = .audio) := fun i => by cases i <;> decide
  have hbrings : Board.b.Brings clipCalls clipFrames := by
    obtain ⟨packets, hall⟩ : ∃ packets, packets = ((clipFrames .first).flatMap MediaFrame.packets).map (MediaFifo.first, ·) := ⟨_, rfl⟩
    have hpackets : ∀ i, packets.filterMap (fun x => if x.1 = i then some x.2 else none) =
        (clipFrames i).flatMap MediaFrame.packets := fun i => by
      rw [hall]
      cases i <;> rfl
    have hitems : List.Forall₂ (fun x item => CarriesMedia x.1 x.2 item.2) packets (packets.map mediaItem) :=
      forall₂_mediaItem (by rw [hall]; decide)
    refine ⟨haudio, fun i p hp => ?_, _, _, hpackets, hitems, fun i p hp => ?_⟩
    · cases i <;> cases hp <;> decide
    · rw [DevHandler.mediaTo_handleAll haudio hpackets hitems]
      cases i <;> cases hp <;> decide +kernel
  exact ⟨s, log, r, hs, hr, recorded_clips hs (List.forall_mem_singleton.mpr startRequest_handleable) hpasses hbrings hhandles hr rfl⟩

end Recbcsrv
