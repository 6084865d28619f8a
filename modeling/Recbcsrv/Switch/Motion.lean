import Recbcsrv.Lib.Exec
import Recbcsrv.Message.Detect

/-! The images on the way from `thread_img` to the motion detector. Of the images taken while the camera holder is still,
    each fifth goes to `thread_analyze` with its number; a movement starts the numbers again. The detector compares an image
    with the one before it, and the numbers keep it from doing so across a movement. -/

namespace Recbcsrv
open Exec

/-! ### The detector -/

/-- The grey values of a frame of 256 columns and 144 rows, row after row. -/
abbrev GreyImage := List UInt8

def yuv422ToY (src : List UInt8) : GreyImage := (List.range (144 * 256)).map fun i => src.getD (i * 2) 0

/-- A value of `diffImage`. -/
def diffImage (y last : GreyImage) (p : Nat) : Nat :=
  if ((y.getD p 0).toNat - (last.getD p 0).toNat : Int).natAbs > 20 then 255 else 0

/-- `vertical[j]`. -/
def vertical (y last : GreyImage) (j : Nat) : Nat :=
  ((List.range 144).map fun i => diffImage y last (j + i * 256) / 255).sum

/-- The variables of the loop of `FrameDiff` over the columns. -/
structure ColumnScan where
  temp : Nat
  flagVer : Bool
  coordinate : List FrameRect

/-- The body of that loop. -/
def ColumnScan.column (vertical : Nat → Nat) (s : ColumnScan) (j : Nat) : ColumnScan :=
  let s := if vertical j > 20 ∧ s.flagVer = false then { s with temp := j, flagVer := true } else s
  if (vertical j ≤ 20 ∧ s.flagVer = true ∧ j < 255) ∨ (j = 255 ∧ s.flagVer = true) then
    { s with
      coordinate :=
        if j - s.temp > 5 ∧ s.coordinate.length < 196 then
          s.coordinate ++ [⟨.ofNat s.temp, 0, .ofNat j, frameHeight⟩]
        else s.coordinate
      flagVer := false }
  else s

/-- The rectangles that `FrameDiff` finds in the difference of two images. -/
def movedColumns (y last : GreyImage) : List FrameRect :=
  ((List.range 256).foldl (ColumnScan.column (vertical y last)) ⟨0, false, []⟩).coordinate

/-- `IMAGE`, the object that the detector keeps from call to call. -/
structure Detector where
  frameNum : Nat
  coordinate : List FrameRect
  cenCoord : List FrameRect
  lastImage : GreyImage

/-- An image of `Filtered_img_producer_fifo` with its number. -/
abbrev Filtered := GreyImage × Nat

/-- A call of `DetectFrame`, with the number of frames and the image that `FrameDiff` finds and compares with. -/
structure DetectCall where
  item : Filtered
  frameNum : Nat
  compared : Option GreyImage
  result : FrameResult

namespace Detector

/-- The object at the start of the program. -/
def zero : Detector := ⟨0, [], [], []⟩

def initImage (o : Detector) : Detector := { o with frameNum := 0, coordinate := [], cenCoord := [] }

def frameDiff (o : Detector) (y : GreyImage) : Detector :=
  { o with coordinate := if o.frameNum ≥ 1 then movedColumns y o.lastImage else [], lastImage := y }

/-- The object that `DetectFrame` goes on with. -/
def start (o : Detector) (frameNum : Nat) : Detector := if frameNum = 0 then o.initImage else o

/-- The object after `DetectFrame`; `centrist` are the rectangles that `FrameCentrist` finds in an image. -/
def detectFrame (centrist : GreyImage → List FrameRect) (o : Detector) (item : Filtered) : Detector :=
  let o := o.start item.2
  let o := { o with cenCoord := centrist item.1 }
  let o := o.frameDiff item.1
  { o with frameNum := o.frameNum + 1 }

/-- The image that `FrameDiff` compares with. -/
def compared (o : Detector) : Option GreyImage := if o.frameNum ≥ 1 then some o.lastImage else none

/-- The call of `DetectFrame` and what it leaves in the frame. -/
def call (centrist : GreyImage → List FrameRect) (o : Detector) (item : Filtered) : DetectCall :=
  let after := o.detectFrame centrist item
  ⟨item, (o.start item.2).frameNum, (o.start item.2).compared, Recbcsrv.detectFrame after.cenCoord after.coordinate⟩

end Detector

/-! ### The threads -/

def skipStep : Nat := 5

/-- The variables that `thread_img` copies under the mutex, with the frame that it holds. -/
structure ImgCopy where
  frame : List UInt8
  camholderStill : Bool
  analyzeFrameNum : Nat
  numInGroup : Nat

/-- What `thread_img` adds to `Filtered_img_producer_fifo` after it has released the mutex. -/
def ImgCopy.filtered (c : ImgCopy) : List Filtered :=
  if c.camholderStill = true ∧ (c.analyzeFrameNum + 1) % skipStep = 0 then [(yuv422ToY c.frame, c.numInGroup)] else []

/-- The variables under the mutex, what `thread_img` holds, the FIFO and the detector, with all images that were ever put in
    the FIFO and all calls of `DetectFrame`. -/
structure MotionSys where
  still : Bool
  analyzeFrameNum : Nat
  numInGroup : Nat
  taken : Option ImgCopy
  fifo : List Filtered
  object : Detector
  put : List Filtered
  calls : List DetectCall

inductive MotionAct where
  /-- The critical section of `thread_img`. -/
  | take (frame : List UInt8)
  /-- The rest of its work on the frame. -/
  | put
  /-- `thread_SwitchTracking` starts a movement. -/
  | reset
  /-- `thread_SwitchTracking` finds the camera holder still. -/
  | settle
  /-- `thread_analyze` works on the head of the FIFO. -/
  | analyze

/-- An int that was counted up; there is no result on overflow. -/
def counted (n : Nat) : Option Nat := if n < 2 ^ 31 then some n else none

namespace MotionSys

def init : MotionSys := ⟨true, 0, 0, none, [], .zero, [], []⟩

/-- What `thread_img` still has to put in the FIFO. -/
def held (s : MotionSys) : List Filtered := (s.taken.map ImgCopy.filtered).getD []

def step (centrist : GreyImage → List FrameRect) (s : MotionSys) : MotionAct → Option MotionSys
  | .take frame =>
    if s.taken.isSome then none
    else if s.still then do
      let analyzeFrameNum ← counted (s.analyzeFrameNum + 1)
      let numInGroup ← if analyzeFrameNum % skipStep = 0 then counted (s.numInGroup + 1) else some s.numInGroup
      some { s with analyzeFrameNum, numInGroup, taken := some ⟨frame, s.still, s.analyzeFrameNum, s.numInGroup⟩ }
    else some { s with taken := some ⟨frame, s.still, s.analyzeFrameNum, s.numInGroup⟩ }
  | .put => s.taken.map fun c => { s with taken := none, fifo := s.fifo ++ c.filtered, put := s.put ++ c.filtered }
  | .reset => some { s with still := false, analyzeFrameNum := 0, numInGroup := 0 }
  | .settle => some { s with still := true }
  | .analyze =>
    match s.fifo with
    | [] => none
    | item :: rest => do
      let _ ← counted (s.object.detectFrame centrist item).frameNum
      some { s with
        fifo := rest
        object := s.object.detectFrame centrist item
        calls := s.calls ++ [s.object.call centrist item] }

end MotionSys

/-! ### The runs of images -/

/-- The images that were taken while the camera holder was still: those before the last movement, run by run, and those since. -/
structure StillRuns where
  still : Bool
  before : List (List GreyImage)
  current : List GreyImage

namespace StillRuns

def record (h : StillRuns) : MotionAct → StillRuns
  | .take frame => if h.still then { h with current := h.current ++ [yuv422ToY frame] } else h
  | .reset => ⟨false, h.before ++ [h.current], []⟩
  | .settle => { h with still := true }
  | .put | .analyze => h

def runs (h : StillRuns) : List (List GreyImage) := h.before ++ [h.current]

end StillRuns

/-- The runs of images between the movements of a run of the program. -/
def stillRuns (as : List MotionAct) : List (List GreyImage) := (as.foldl StillRuns.record ⟨true, [], []⟩).runs

/-- Each `n`-th element of a list. -/
def eachNth {α : Type} (n : Nat) (l : List α) : List α := (l.zipIdx.filter fun p => (p.2 + 1) % n = 0).map Prod.fst

/-- The images of a run that go to the detector, with the numbers 0, 1, 2 and so on. -/
def numbered (run : List GreyImage) : List Filtered := (eachNth skipStep run).zipIdx

/-- The result for an image that is compared with the one given, if any. -/
def motionResult (centrist : GreyImage → List FrameRect) (y : GreyImage) (prev : Option GreyImage) : FrameResult :=
  detectFrame (centrist y) ((prev.map (movedColumns y)).getD [])

/-- The calls of `DetectFrame` for the images of a run: each finds as many frames as images of the run before it, and compares
    with the one just before it. -/
def expectedCalls (centrist : GreyImage → List FrameRect) (images : List GreyImage) : List DetectCall :=
  (images.zip (none :: images.map some)).zipIdx.map fun ((y, prev), k) =>
    ⟨(y, k), k, prev, motionResult centrist y prev⟩

section
variable {α : Type} {centrist : GreyImage → List FrameRect} {o : Detector} {h : StillRuns} {s t : MotionSys} {n : Nat}

/-! ### Each n-th element -/

theorem eachNth_append_singleton (n : Nat) (l : List α) (x : α) :
    eachNth n (l ++ [x]) = eachNth n l ++ if (l.length + 1) % n = 0 then [x] else [] := by
  unfold eachNth
  rw [List.zipIdx_append, List.filter_append, List.map_append]
  congr 1
  simp only [List.zipIdx_singleton, Nat.zero_add]
  split <;> simp [*]

theorem length_eachNth (n : Nat) (l : List α) : (eachNth n l).length = l.length / n := by
  induction l using List.reverseRecOn with
  | nil => simp [eachNth]
  | append_singleton l x ih =>
    rw [eachNth_append_singleton, List.length_append, ih, List.length_append, List.length_singleton, Nat.succ_div]
    simp only [Nat.dvd_iff_mod_eq_zero]
    split <;> rfl

/-- The image that is added to a run goes to the detector when the length of the run is then divisible. -/
theorem numbered_append_singleton (run : List GreyImage) (y : GreyImage) : numbered (run ++ [y]) =
    numbered run ++ if (run.length + 1) % skipStep = 0 then [(y, run.length / skipStep)] else [] := by
  unfold numbered
  rw [eachNth_append_singleton]
  split
  · rw [List.zipIdx_append, length_eachNth]
    simp
  · simp

/-! ### The calls of the detector -/

/-- The object after calls of `DetectFrame`. -/
def Detector.after (centrist : GreyImage → List FrameRect) (o : Detector) (items : List Filtered) : Detector :=
  items.foldl (Detector.detectFrame centrist) o

/-- The calls of `DetectFrame` for the images given. -/
def Detector.callsOn (centrist : GreyImage → List FrameRect) : Detector → List Filtered → List DetectCall
  | _, [] => []
  | o, item :: items => o.call centrist item :: callsOn centrist (o.detectFrame centrist item) items

theorem callsOn_append (o : Detector) (l l' : List Filtered) :
    o.callsOn centrist (l ++ l') = o.callsOn centrist l ++ (o.after centrist l).callsOn centrist l' := by
  induction l generalizing o with
  | nil => rfl
  | cons item l ih =>
    simp only [List.cons_append, Detector.callsOn, ih]
    rfl

/-- The result depends on the last image only when the image is compared with it. -/
theorem call_eq (o : Detector) (item : Filtered) : o.call centrist item =
    ⟨item, (o.start item.2).frameNum, (o.start item.2).compared, motionResult centrist item.1 (o.start item.2).compared⟩ := by
  unfold Detector.call Detector.detectFrame Detector.frameDiff Detector.compared motionResult
  by_cases hn : (o.start item.2).frameNum ≥ 1
  · simp only [hn, if_true, Option.map_some, Option.getD_some]
  · simp only [hn, if_false, Option.map_none, Option.getD_none]

/-- On a run of images the detector counts the images of the run, from whatever was before it. -/
theorem callsOn_zipIdx (prev : Option GreyImage) (images : List GreyImage) (k : Nat) (o : Detector)
    (hk : (o.start k).frameNum = k) (hp : (o.start k).compared = prev) :
    o.callsOn centrist (images.zipIdx k) = ((images.zip (prev :: images.map some)).zipIdx k).map fun ((y, prev), k) =>
      ⟨(y, k), k, prev, motionResult centrist y prev⟩ := by
  induction images generalizing prev k o with
  | nil => rfl
  | cons y images ih =>
    have hnext : (o.detectFrame centrist (y, k)).frameNum = k + 1 := congrArg (· + 1) hk
    have hstart : (o.detectFrame centrist (y, k)).start (k + 1) = o.detectFrame centrist (y, k) := if_neg (by omega)
    rw [List.zipIdx_cons, Detector.callsOn, call_eq, ih (some y) (k + 1)]
    · simp only [List.map_cons, List.zip_cons_cons, List.zipIdx_cons, hk, hp]
    · rw [hstart, hnext]
    · rw [hstart, Detector.compared, if_pos (by omega)]
      rfl

/-- In the calls of a run an image is compared with the image just before it. -/
theorem expectedCalls_compared {images : List GreyImage} {c : DetectCall} {y : GreyImage}
    (hc : c ∈ expectedCalls centrist images) (hy : c.compared = some y) :
    ∃ k, images[k]? = some y ∧ images[k + 1]? = some c.item.1 ∧ c.item.2 = k + 1 := by
  obtain ⟨⟨⟨x, prev⟩, i⟩, hmem, rfl⟩ := List.mem_map.mp hc
  obtain ⟨hx, hprev⟩ := List.getElem?_zip_eq_some.mp (List.mem_zipIdx_iff_getElem?.mp hmem)
  obtain rfl : prev = some y := hy
  cases i with
  | zero => cases hprev
  | succ k =>
    rw [List.getElem?_cons_succ, List.getElem?_map, Option.map_eq_some_iff] at hprev
    obtain ⟨_, hprev, ⟨⟩⟩ := hprev
    exact ⟨k, hprev, hx, rfl⟩

theorem callsOn_runs (o : Detector) (runs : List (List GreyImage)) : o.callsOn centrist (runs.flatMap numbered) =
    runs.flatMap fun run => expectedCalls centrist (eachNth skipStep run) := by
  induction runs generalizing o with
  | nil => rfl
  | cons run runs ih =>
    rw [List.flatMap_cons, List.flatMap_cons, callsOn_append, ih]
    congr 1
    exact callsOn_zipIdx none _ 0 o rfl rfl

/-! ### The steps of the threads -/

theorem counted_eq {m : Nat} (h : counted n = some m) : m = n := by
  unfold counted at h
  split at h
  · exact (Option.some.inj h).symm
  · cases h

namespace MotionSys

theorem take_cases {frame : List UInt8} (h : s.step centrist (.take frame) = some t) : s.taken = none ∧
    ∃ n g, t = { s with
      analyzeFrameNum := n, numInGroup := g, taken := some ⟨frame, s.still, s.analyzeFrameNum, s.numInGroup⟩ } ∧
      ((s.still = false ∧ n = s.analyzeFrameNum ∧ g = s.numInGroup) ∨
        (s.still = true ∧ n = s.analyzeFrameNum + 1 ∧
          g = s.numInGroup + if (s.analyzeFrameNum + 1) % skipStep = 0 then 1 else 0)) := by
  dsimp only [step] at h
  by_cases ht : s.taken.isSome = true
  · rw [if_pos ht] at h
    cases h
  rw [if_neg ht] at h
  refine ⟨Option.not_isSome_iff_eq_none.mp ht, ?_⟩
  by_cases hstill : s.still = true
  · rw [if_pos hstill] at h
    obtain ⟨n, hn, h⟩ := Option.bind_eq_some_iff.mp h
    obtain rfl := counted_eq hn
    by_cases hfifth : (s.analyzeFrameNum + 1) % skipStep = 0
    · rw [if_pos hfifth] at h
      obtain ⟨g, hg, h⟩ := Option.bind_eq_some_iff.mp h
      obtain rfl := counted_eq hg
      cases h
      exact ⟨_, _, rfl, .inr ⟨hstill, rfl, by rw [if_pos hfifth]⟩⟩
    · rw [if_neg hfifth] at h
      cases h
      exact ⟨_, _, rfl, .inr ⟨hstill, rfl, by rw [if_neg hfifth, Nat.add_zero]⟩⟩
  · rw [if_neg hstill] at h
    cases h
    exact ⟨_, _, rfl, .inl ⟨by simpa using hstill, rfl, rfl⟩⟩

/-- The state after the actions recorded. -/
structure Follows (centrist : GreyImage → List FrameRect) (h : StillRuns) (s : MotionSys) : Prop where
  still : s.still = h.still
  frames : s.analyzeFrameNum = h.current.length
  number : s.numInGroup = h.current.length / skipStep
  images : s.put ++ s.held = h.runs.flatMap numbered
  queue : s.calls.map DetectCall.item ++ s.fifo = s.put
  calls : s.calls = Detector.zero.callsOn centrist (s.calls.map DetectCall.item)
  object : s.object = Detector.zero.after centrist (s.calls.map DetectCall.item)

theorem follows_init : Follows centrist ⟨true, [], []⟩ init := ⟨rfl, rfl, rfl, rfl, rfl, rfl, rfl⟩

namespace Follows

theorem take {frame : List UInt8} (hf : Follows centrist h s) (hs : s.step centrist (.take frame) = some t) :
    Follows centrist (h.record (.take frame)) t := by
  obtain ⟨hnone, n, g, rfl, hcase⟩ := take_cases hs
  have hput : s.put = h.runs.flatMap numbered := by
    have himages := hf.images
    rwa [held, hnone, Option.map_none, Option.getD_none, List.append_nil] at himages
  rcases hcase with ⟨hstill, rfl, rfl⟩ | ⟨hstill, rfl, rfl⟩
  · -- while the camera holder moves the image is not for the detector
    have hrecord : h.record (.take frame) = h := if_neg (by simp [← hf.still, hstill])
    rw [hrecord]
    refine ⟨hf.still, hf.frames, hf.number, ?_, hf.queue, hf.calls, hf.object⟩
    simp [held, ImgCopy.filtered, hstill, hput]
  · have hrecord : h.record (.take frame) = { h with current := h.current ++ [yuv422ToY frame] } :=
      if_pos (hf.still.symm.trans hstill)
    rw [hrecord]
    refine ⟨hf.still, ?_, ?_, ?_, hf.queue, hf.calls, hf.object⟩
    · dsimp only
      rw [hf.frames, List.length_append, List.length_singleton]
    · dsimp only
      rw [hf.number, hf.frames, List.length_append, List.length_singleton, Nat.succ_div]
      simp only [Nat.dvd_iff_mod_eq_zero]
    · simp only [held, Option.map_some, Option.getD_some, ImgCopy.filtered, hstill, true_and, StillRuns.runs,
        List.flatMap_append, List.flatMap_singleton, numbered_append_singleton, hput, hf.frames, hf.number,
        List.append_assoc]

theorem reset (hf : Follows centrist h s) :
    Follows centrist (h.record .reset) { s with still := false, analyzeFrameNum := 0, numInGroup := 0 } := by
  refine ⟨rfl, rfl, (Nat.zero_div _).symm, ?_, hf.queue, hf.calls, hf.object⟩
  have hnew : (h.record .reset).runs.flatMap numbered = h.runs.flatMap numbered := by
    simp [StillRuns.record, StillRuns.runs, numbered, eachNth]
  rw [hnew]
  exact hf.images

theorem put {c : ImgCopy} (hf : Follows centrist h s) (hc : s.taken = some c) : Follows centrist h { s with
    taken := none, fifo := s.fifo ++ c.filtered, put := s.put ++ c.filtered } := by
  refine ⟨hf.still, hf.frames, hf.number, ?_, ?_, hf.calls, hf.object⟩
  · have himages := hf.images
    rw [held, hc] at himages
    simpa [held] using himages
  · dsimp only
    rw [← List.append_assoc, hf.queue]

theorem analyze {item : Filtered} {rest : List Filtered} (hf : Follows centrist h s) (hq : s.fifo = item :: rest) :
    Follows centrist h { s with
      fifo := rest
      object := s.object.detectFrame centrist item
      calls := s.calls ++ [s.object.call centrist item] } := by
  have hitems : (s.calls ++ [s.object.call centrist item]).map DetectCall.item = s.calls.map DetectCall.item ++ [item] := by
    rw [List.map_append]
    rfl
  refine ⟨hf.still, hf.frames, hf.number, hf.images, ?_, ?_, ?_⟩
  · dsimp only
    rw [hitems, ← hf.queue, hq, List.append_assoc]
    rfl
  · dsimp only
    rw [hitems, callsOn_append, ← hf.calls, ← hf.object]
    rfl
  · dsimp only
    rw [hitems, Detector.after, List.foldl_append]
    exact congrArg (Detector.detectFrame centrist · item) hf.object

theorem step {a : MotionAct} (hf : Follows centrist h s) (hs : s.step centrist a = some t) :
    Follows centrist (h.record a) t := by
  cases a with
  | take frame => exact hf.take hs
  | put =>
    obtain ⟨c, hc, rfl⟩ := Option.map_eq_some_iff.mp hs
    exact hf.put hc
  | reset =>
    cases hs
    exact hf.reset
  | settle =>
    cases hs
    exact ⟨rfl, hf.frames, hf.number, hf.images, hf.queue, hf.calls, hf.object⟩
  | analyze =>
    dsimp only [MotionSys.step] at hs
    split at hs
    · cases hs
    · obtain ⟨-, -, hs⟩ := Option.bind_eq_some_iff.mp hs
      cases hs
      exact hf.analyze ‹_›

end Follows

/-- The images are put in the FIFO with the numbers of their runs, and the detector is called for them in that order; its
    number of frames is that of the images of the run before it, and it compares with none but the last of these. -/
theorem runs_never_mixed {as : List MotionAct} (h : exec (step centrist) init as = some t) :
    t.put ++ t.held = (stillRuns as).flatMap numbered ∧
    t.calls.map DetectCall.item ++ t.fifo = t.put ∧
    t.calls <+: (stillRuns as).flatMap (fun run => expectedCalls centrist (eachNth skipStep run)) ∧
    ∀ c ∈ t.calls, ∀ y, c.compared = some y → ∃ run ∈ stillRuns as, ∃ k,
      (eachNth skipStep run)[k]? = some y ∧ (eachNth skipStep run)[k + 1]? = some c.item.1 ∧ c.item.2 = k + 1 := by
  have hf : Follows centrist (as.foldl StillRuns.record ⟨true, [], []⟩) t :=
    exec_follows (fun _ _ _ _ hf hs => hf.step hs) follows_init h
  have himages : t.put ++ t.held = (stillRuns as).flatMap numbered := hf.images
  have hlog : t.calls <+: (stillRuns as).flatMap fun run => expectedCalls centrist (eachNth skipStep run) := by
    rw [← callsOn_runs Detector.zero, ← himages, ← hf.queue, List.append_assoc, callsOn_append, ← hf.calls]
    exact List.prefix_append _ _
  refine ⟨himages, hf.queue, hlog, fun c hc y hy => ?_⟩
  obtain ⟨run, hrun, hc⟩ := List.mem_flatMap.mp (hlog.subset hc)
  exact ⟨run, hrun, expectedCalls_compared hc hy⟩

/-- The image of one run is put in the FIFO after the movement that ends the run, and the image of the next run after it. -/
theorem runs_never_mixed_late :
    let five : List MotionAct := [.take [], .put, .take [], .put, .take [], .put, .take [], .put, .take []]
    let as := five ++ [.reset, .put, .settle] ++ five ++ [.put, .analyze, .analyze]
    ∃ t, exec (step fun _ => []) init as = some t ∧ t.calls.map (fun c => (c.item.2, c.frameNum)) = [(0, 0), (0, 0)] ∧
      t.calls <+: (stillRuns as).flatMap (fun run => expectedCalls (fun _ => []) (eachNth skipStep run)) := by
  intro five as
  have hrun : (exec (step fun _ => []) init as).map (fun t => t.calls.map fun c => (c.item.2, c.frameNum)) =
      some [(0, 0), (0, 0)] := by
    decide +kernel
  obtain ⟨t, ht, hcalls⟩ := Option.map_eq_some_iff.mp hrun
  exact ⟨t, ht, hcalls, (runs_never_mixed ht).2.2.1⟩

end MotionSys

end

end Recbcsrv
