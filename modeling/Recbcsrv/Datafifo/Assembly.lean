import Recbcsrv.Datafifo.Delivery

/-! The frames that the calls of a producer put together. The bytes of a call go behind those of the frame that is
    being filled, and a call that begins a frame completes an open one first. Whatever the other threads do in between,
    the frames that a producer completes are those of its calls, taken one after the other. -/

set_option linter.unusedSectionVars false

namespace Recbcsrv
open Datafifo

variable {P C : Type}

/-! ### What a call does to the frames -/

/-- The frames that a producer has completed and the one that it is filling. -/
structure Assembly where
  completed : List Frame
  filling : Option Frame
  deriving DecidableEq, Repr

/-- What a mark does to the frame in the item. -/
def Mark.onFrame (call : Call) (f : Frame) : Mark → Frame
  | .firstframe =>
    if hasFlag call.flags frameFlagFirstframe then { f with flags := f.flags ||| frameFlagFirstframe } else f
  | .keyframe => if hasFlag call.flags frameFlagKeyframe then { f with flags := f.flags ||| frameFlagKeyframe } else f
  | .timestamp => { f with timestamp := call.timestamp }

/-- The new frame of a call, before its bytes. -/
def Call.opened (call : Call) : Frame := Mark.all.foldl (Mark.onFrame call) ⟨[], 0, 0, 0⟩

/-- A frame begins without bytes. -/
theorem Call.opened_empty {call : Call} : call.opened.data = [] ∧ call.opened.len = 0 := by
  simp only [opened, Mark.all, List.foldl_cons, List.foldl_nil, Mark.onFrame]
  split <;> split <;> exact ⟨rfl, rfl⟩

theorem Call.opened_eq {call : Call} (hkey : hasFlag call.flags frameFlagKeyframe = false) :
    call.opened = ⟨[], 0, if hasFlag call.flags frameFlagFirstframe then frameFlagFirstframe else 0, call.timestamp⟩ := by
  simp only [opened, Mark.all, List.foldl_cons, List.foldl_nil, Mark.onFrame, hkey, Bool.false_eq_true, if_false]
  split <;> simp

def Frame.grow (f : Frame) (data : List UInt8) : Frame :=
  { f with data := f.data ++ data, len := f.len + data.length }

theorem Frame.grow_grow (f : Frame) (data data' : List UInt8) : (f.grow data).grow data' = f.grow (data ++ data') := by
  simp [Frame.grow, Nat.add_assoc]

/-- An open frame as the next one completes it: the first frame of a stream discards its bytes. -/
def Frame.flush (f : Frame) (flags : Nat) : Frame :=
  if hasFlag flags frameFlagFirstframe then { f with data := [], len := 0 } else f

namespace Assembly

def flush (a : Assembly) (flags : Nat) : Assembly := ⟨a.completed ++ (a.filling.map (·.flush flags)).toList, none⟩

def close (a : Assembly) (call : Call) : Assembly :=
  if hasFlag call.flags frameFlagFrameend then ⟨a.completed ++ a.filling.toList, none⟩ else a

/-- The bytes of a call go to the frame that is being filled, unless they are too many. -/
def fill (maxlen : Nat) (a : Assembly) (call : Call) : Assembly :=
  match a.filling with
  | none => a
  | some f =>
    if f.len + call.data.length > maxlen then a else close ⟨a.completed, some (f.grow call.data)⟩ call

/-- What `datafifo_producer_data_add` does, with items of `maxlen` bytes. -/
def dataAdd (maxlen : Nat) (a : Assembly) (call : Call) : Assembly :=
  if hasFlag call.flags frameFlagNewframe then fill maxlen { a.flush call.flags with filling := some call.opened } call
  else fill maxlen a call

end Assembly

namespace Assembly
variable {a : Assembly} {maxlen : Nat} {call : Call} {calls calls' : List Call} {l : List Frame}

theorem keeps_close (h : l <+: a.completed) : l <+: (a.close call).completed := by
  rw [close]
  split
  · exact h.trans (List.prefix_append _ _)
  · exact h

theorem keeps_fill (h : l <+: a.completed) : l <+: (a.fill maxlen call).completed := by
  rw [fill]
  split
  · exact h
  · split
    · exact h
    · exact keeps_close h

/-- What is completed stays so. -/
theorem keeps_dataAdd (h : l <+: a.completed) : l <+: (a.dataAdd maxlen call).completed := by
  rw [dataAdd]
  split
  · exact keeps_fill (h.trans (List.prefix_append _ _))
  · exact keeps_fill h

theorem keeps_foldl (h : l <+: a.completed) : l <+: (calls.foldl (dataAdd maxlen) a).completed := by
  induction calls generalizing a with
  | nil => exact h
  | cons call calls ih => exact ih (keeps_dataAdd h)

/-- Every call that does not begin a frame finds one that is being filled. -/
def Continues (maxlen : Nat) : Assembly → List Call → Prop
  | _, [] => True
  | a, call :: calls =>
    (¬hasFlag call.flags frameFlagNewframe → a.filling ≠ none) ∧ Continues maxlen (a.dataAdd maxlen call) calls

theorem continues_append : Continues maxlen a (calls ++ calls') ↔
    Continues maxlen a calls ∧ Continues maxlen (calls.foldl (dataAdd maxlen) a) calls' := by
  induction calls generalizing a with
  | nil => simp [Continues]
  | cons call calls ih => simp only [List.cons_append, Continues, ih, List.foldl_cons, and_assoc]

/-- The calls that bring a frame in pieces; the first one has the flags `new`. -/
def pieces (new : Nat) : List (List UInt8) → List Call
  | [] => []
  | c :: cs => ⟨c, new ||| (if cs.isEmpty then frameFlagFrameend else 0), 0⟩ :: pieces 0 cs

/-- The flags of the first call of a frame. -/
def newFlags (first : Bool) : Nat := frameFlagNewframe ||| (if first then frameFlagFirstframe else 0)

variable {f : Frame} {done : List Frame} {c : List UInt8} {cs : List (List UInt8)}

theorem fill_piece {flags : Nat} (hend : hasFlag flags frameFlagFrameend = cs.isEmpty) (hfit : f.len + c.length ≤ maxlen) :
    fill maxlen ⟨done, some f⟩ ⟨c, flags, 0⟩ =
      if cs.isEmpty then ⟨done ++ [f.grow c], none⟩ else ⟨done, some (f.grow c)⟩ := by
  simp only [fill, close, hend, Option.toList_some]
  rw [if_neg (Nat.not_lt.mpr hfit)]

/-- The rest of a frame completes it. -/
theorem foldl_pieces (hne : cs ≠ []) (hfit : f.len + cs.flatten.length ≤ maxlen) :
    (pieces 0 cs).foldl (dataAdd maxlen) ⟨done, some f⟩ = ⟨done ++ [f.grow cs.flatten], none⟩ ∧
      Continues maxlen ⟨done, some f⟩ (pieces 0 cs) := by
  induction cs generalizing f with
  | nil => exact absurd rfl hne
  | cons c cs ih =>
    simp only [List.flatten_cons, List.length_append] at hfit
    have hnew : ¬hasFlag (0 ||| if cs.isEmpty then frameFlagFrameend else 0) frameFlagNewframe := by
      cases cs.isEmpty <;> decide
    have hend : hasFlag (0 ||| if cs.isEmpty then frameFlagFrameend else 0) frameFlagFrameend = cs.isEmpty := by
      cases cs.isEmpty <;> decide
    have hadd : dataAdd maxlen ⟨done, some f⟩ ⟨c, 0 ||| if cs.isEmpty then frameFlagFrameend else 0, 0⟩ =
        if cs.isEmpty then ⟨done ++ [f.grow c], none⟩ else ⟨done, some (f.grow c)⟩ := by
      rw [dataAdd, if_neg hnew, fill_piece hend (by omega)]
    rw [pieces, List.foldl_cons, Continues, hadd, List.flatten_cons, ← Frame.grow_grow]
    cases cs with
    | nil => exact ⟨by simp [pieces, Frame.grow], fun _ => Option.some_ne_none f, trivial⟩
    | cons c' cs =>
      obtain ⟨hfold, hcont⟩ := ih (f := f.grow c) (List.cons_ne_nil _ _) (by simp only [Frame.grow]; omega)
      exact ⟨hfold, fun _ => Option.some_ne_none f, hcont⟩

/-- The calls of a frame complete it and nothing else. -/
theorem foldl_frame (first : Bool) (done : List Frame) (hne : cs ≠ []) (hfit : cs.flatten.length ≤ maxlen) :
    (pieces (newFlags first) cs).foldl (dataAdd maxlen) ⟨done, none⟩ =
      ⟨done ++ [⟨cs.flatten, cs.flatten.length, if first then frameFlagFirstframe else 0, 0⟩], none⟩ ∧
      Continues maxlen ⟨done, none⟩ (pieces (newFlags first) cs) := by
  cases cs with
  | nil => exact absurd rfl hne
  | cons c cs =>
    simp only [List.flatten_cons, List.length_append] at hfit
    obtain ⟨flags, hflags⟩ : ∃ flags, newFlags first ||| (if cs.isEmpty then frameFlagFrameend else 0) = flags := ⟨_, rfl⟩
    have hnew : hasFlag flags frameFlagNewframe := by
      rw [← hflags]
      cases first <;> cases cs.isEmpty <;> decide
    have hend : hasFlag flags frameFlagFrameend = cs.isEmpty := by
      rw [← hflags]
      cases first <;> cases cs.isEmpty <;> decide
    obtain ⟨f, hf⟩ : ∃ f : Frame, f = ⟨[], 0, if first then frameFlagFirstframe else 0, 0⟩ := ⟨_, rfl⟩
    have hfirst : hasFlag flags frameFlagFirstframe = first := by
      rw [← hflags]
      cases first <;> cases cs.isEmpty <;> decide
    have hkey : hasFlag flags frameFlagKeyframe = false := by
      rw [← hflags]
      cases first <;> cases cs.isEmpty <;> decide
    have hopened : Call.opened ⟨c, flags, 0⟩ = f := by rw [Call.opened_eq hkey, hfirst, hf]
    have hlen : f.len = 0 := by rw [hf]
    have hadd : dataAdd maxlen ⟨done, none⟩ ⟨c, flags, 0⟩ =
        if cs.isEmpty then ⟨done ++ [f.grow c], none⟩ else ⟨done, some (f.grow c)⟩ := by
      rw [dataAdd, if_pos hnew, hopened]
      simp only [flush, Option.map_none, Option.toList_none, List.append_nil]
      exact fill_piece hend (by omega)
    have hframe : f.grow (c ++ cs.flatten) =
        ⟨c ++ cs.flatten, (c ++ cs.flatten).length, if first then frameFlagFirstframe else 0, 0⟩ := by
      simp [Frame.grow, hf]
    rw [pieces, List.foldl_cons, Continues, hflags, hadd, List.flatten_cons, ← hframe, ← Frame.grow_grow]
    cases cs with
    | nil => exact ⟨by simp [pieces, Frame.grow], fun h => absurd hnew h, trivial⟩
    | cons c' cs =>
      have hrest : (f.grow c).len + (c' :: cs).flatten.length ≤ maxlen := by
        simp only [Frame.grow]
        omega
      obtain ⟨hfold, hcont⟩ := foldl_pieces (List.cons_ne_nil c' cs) hrest
      exact ⟨hfold, fun h => absurd hnew h, hcont⟩

theorem foldl_frames {α : Type} (first : α → Bool) (cs : α → List (List UInt8)) (l : List α) (done : List Frame)
    (hne : ∀ x ∈ l, cs x ≠ []) (hfit : ∀ x ∈ l, (cs x).flatten.length ≤ maxlen) :
    (l.flatMap fun x => pieces (newFlags (first x)) (cs x)).foldl (dataAdd maxlen) ⟨done, none⟩ = ⟨done ++ l.map fun x =>
      ⟨(cs x).flatten, (cs x).flatten.length, if first x then frameFlagFirstframe else 0, 0⟩, none⟩ ∧
    Continues maxlen ⟨done, none⟩ (l.flatMap fun x => pieces (newFlags (first x)) (cs x)) := by
  induction l generalizing done with
  | nil => exact ⟨by simp, trivial⟩
  | cons x l ih =>
    rw [List.forall_mem_cons] at hne hfit
    obtain ⟨hfold, hcont⟩ := foldl_frame (first x) done hne.1 hfit.1
    obtain ⟨hfold', hcont'⟩ := ih _ hne.2 hfit.2
    rw [List.flatMap_cons, List.foldl_append, continues_append, hfold]
    refine ⟨?_, hcont, hcont'⟩
    rw [hfold', List.map_cons, List.append_assoc, List.singleton_append]

/-- The calls that bring a frame or, without `new`, the rest of one: the last one ends it. -/
def Brought (new : Bool) : List Call → Prop
  | [] => False
  | call :: calls => hasFlag call.flags frameFlagNewframe = new ∧ hasFlag call.flags frameFlagFrameend = calls.isEmpty ∧
    (calls ≠ [] → Brought false calls)

theorem fill_brought (hend : hasFlag call.flags frameFlagFrameend = calls.isEmpty) (hfit : f.len + call.data.length ≤ maxlen) :
    fill maxlen ⟨done, some f⟩ call =
      if calls.isEmpty then ⟨done ++ [f.grow call.data], none⟩ else ⟨done, some (f.grow call.data)⟩ := by
  simp only [fill, close, hend, Option.toList_some]
  rw [if_neg (Nat.not_lt.mpr hfit)]

/-- The rest of a frame, whatever the flags and the timestamps are beside `NEWFRAME` and `FRAMEEND`. -/
theorem foldl_rest (h : Brought false calls) (hfit : f.len + (calls.flatMap Call.data).length ≤ maxlen) :
    calls.foldl (dataAdd maxlen) ⟨done, some f⟩ = ⟨done ++ [f.grow (calls.flatMap Call.data)], none⟩ ∧
      Continues maxlen ⟨done, some f⟩ calls := by
  induction calls generalizing f with
  | nil => exact h.elim
  | cons call calls ih =>
    obtain ⟨hnew, hend, hrest⟩ := h
    simp only [List.flatMap_cons, List.length_append] at hfit
    have hadd : dataAdd maxlen ⟨done, some f⟩ call =
        if calls.isEmpty then ⟨done ++ [f.grow call.data], none⟩ else ⟨done, some (f.grow call.data)⟩ := by
      rw [dataAdd, if_neg (by rw [hnew]; exact Bool.false_ne_true), fill_brought hend (by omega)]
    rw [List.foldl_cons, Continues, hadd, List.flatMap_cons, ← Frame.grow_grow]
    cases calls with
    | nil => exact ⟨by simp [Frame.grow], fun _ => Option.some_ne_none f, trivial⟩
    | cons call' calls =>
      obtain ⟨hfold, hcont⟩ := ih (f := f.grow call.data) (hrest (List.cons_ne_nil _ _)) (by simp only [Frame.grow]; omega)
      exact ⟨hfold, fun _ => Option.some_ne_none f, hcont⟩

/-- The calls of a frame, of which the first one says what the frame is. -/
theorem foldl_brought (h : Brought true (call :: calls)) (hfit : ((call :: calls).flatMap Call.data).length ≤ maxlen)
    (done : List Frame) :
    (call :: calls).foldl (dataAdd maxlen) ⟨done, none⟩ = ⟨done ++ [call.opened.grow ((call :: calls).flatMap Call.data)], none⟩ ∧
      Continues maxlen ⟨done, none⟩ (call :: calls) := by
  obtain ⟨hnew, hend, hrest⟩ := h
  have hlen : call.opened.len = 0 := Call.opened_empty.2
  simp only [List.flatMap_cons, List.length_append] at hfit
  have hadd : dataAdd maxlen ⟨done, none⟩ call =
      if calls.isEmpty then ⟨done ++ [call.opened.grow call.data], none⟩ else ⟨done, some (call.opened.grow call.data)⟩ := by
    rw [dataAdd, if_pos hnew]
    simp only [flush, Option.map_none, Option.toList_none, List.append_nil]
    exact fill_brought hend (by omega)
  rw [List.foldl_cons, Continues, hadd, List.flatMap_cons, ← Frame.grow_grow]
  cases calls with
  | nil => exact ⟨by simp [Frame.grow], fun hno => absurd hnew hno, trivial⟩
  | cons call' calls =>
    have hlen' : (call.opened.grow call.data).len + ((call' :: calls).flatMap Call.data).length ≤ maxlen := by
      simp only [Frame.grow]
      omega
    obtain ⟨hfold, hcont⟩ := foldl_rest (hrest (List.cons_ne_nil _ _)) hlen'
    exact ⟨hfold, fun hno => absurd hnew hno, hcont⟩

/-- The calls of frames, one after the other, complete these frames. -/
theorem foldl_flatMap {α : Type} {calls : α → List Call} (frame : α → Frame) (l : List α) (done : List Frame)
    (h : ∀ x ∈ l, ∀ done, (calls x).foldl (dataAdd maxlen) ⟨done, none⟩ = ⟨done ++ [frame x], none⟩ ∧
      Continues maxlen ⟨done, none⟩ (calls x)) :
    (l.flatMap calls).foldl (dataAdd maxlen) ⟨done, none⟩ = ⟨done ++ l.map frame, none⟩ ∧
      Continues maxlen ⟨done, none⟩ (l.flatMap calls) := by
  induction l generalizing done with
  | nil => exact ⟨by simp, trivial⟩
  | cons x l ih =>
    rw [List.forall_mem_cons] at h
    obtain ⟨hfold, hcont⟩ := h.1 done
    obtain ⟨hfold', hcont'⟩ := ih (done ++ [frame x]) h.2
    rw [List.flatMap_cons, List.foldl_append, continues_append, hfold]
    refine ⟨?_, hcont, hcont'⟩
    rw [hfold', List.map_cons, List.append_assoc, List.singleton_append]

end Assembly

/-! ### Runs of calls -/

/-- The call that an action begins on the FIFO `p`. -/
def Action.call? [DecidableEq P] (p : P) : Action P C → Option Call
  | .dataAdd q call => if q = p then some call else none
  | _ => none

/-- The action is a step of the thread of `p` in a call. -/
def Action.own [DecidableEq P] (p : P) : Action P C → Bool
  | .producer q => q = p
  | _ => false

theorem Action.call?_eq_some [DecidableEq P] {p : P} {a : Action P C} {call : Call} (h : a.call? p = some call) :
    a = .dataAdd p call := by
  cases a <;> simp only [Action.call?, Option.ite_none_right_eq_some, Option.some.injEq, reduceCtorEq] at h
  rw [h.1, h.2]

/-- The calls that a run begins on the FIFO `p`. -/
def callsOf [DecidableEq P] (p : P) (as : List (Action P C)) : List Call := as.filterMap (Action.call? p)

theorem callsOf_cons [DecidableEq P] {p : P} {a : Action P C} {as : List (Action P C)} :
    callsOf p (a :: as) = (a.call? p).toList ++ callsOf p as := by
  rw [callsOf, List.filterMap_cons]
  cases a.call? p <;> rfl

/-! ### The frame that is being filled -/

/-- The item that is being filled. -/
def Fifo.filling? (F : Fifo P C) : Option Nat := F.list.getLast?.filter fun t => (F.cells t).status = .filling

section
variable {F F' : Fifo P C} {f : DatafifoItem P → DatafifoItem P} {i t : Nat}

theorem Fifo.filling?_eq_some : F.filling? = some t ↔ F.list.getLast? = some t ∧ (F.cells t).status = .filling := by
  simp [filling?, Option.filter_eq_some_iff]

theorem Fifo.filling?_eq_none (h : ∀ t ∈ F.list.getLast?, (F.cells t).status ≠ .filling) : F.filling? = none := by
  simpa [filling?, Option.filter_eq_none_iff] using h

/-- The item that is being filled is told by the tail and its status. -/
theorem Fifo.filling?_congr (hl : F'.list = F.list)
    (hs : ∀ t ∈ F.list.getLast?, (F'.cells t).status = (F.cells t).status) : F'.filling? = F.filling? := by
  rw [filling?, filling?, hl]
  cases ht : F.list.getLast? with
  | none => rfl
  | some t => simp only [Option.filter_some, hs t ht]

theorem Fifo.filling?_set (hf : (f (F.cells i)).status = (F.cells i).status) : (F.set i f).filling? = F.filling? :=
  Fifo.filling?_congr rfl fun t _ => F.set_field i t f DatafifoItem.status hf

theorem Fifo.filling?_sweep : F.sweep.filling? = F.filling? := by
  have hkept : ∀ {t}, ¬F.gone t → F.sweep.cells t = F.cells t := fun hg =>
    release_of_notMem fun hm => hg (gone_of_mem_takeWhile hm)
  cases hf : F.filling? with
  | some t =>
    obtain ⟨ht, hs⟩ := filling?_eq_some.mp hf
    have hg : ¬F.gone t := fun hg => by
      rw [(gone_iff.mp hg).1] at hs
      cases hs
    refine filling?_eq_some.mpr ⟨sweep_getLast? ht hg, ?_⟩
    rw [hkept hg, hs]
  | none =>
    refine filling?_eq_none fun t ht hs => ?_
    have hlast := getLast?_of_sweep ht
    by_cases hm : t ∈ F.list.takeWhile F.gone
    · rw [show (F.sweep.cells t).status = .init from release_of_mem hm] at hs
      cases hs
    · rw [show F.sweep.cells t = F.cells t from release_of_notMem hm] at hs
      rw [filling?_eq_some.mpr ⟨hlast, hs⟩] at hf
      cases hf

theorem View.SameFrame.frame (h : View.SameFrame F F' i) : (F'.cells i).frame = (F.cells i).frame := by
  rw [DatafifoItem.frame, DatafifoItem.frame, h.data, h.len, h.flags, h.timestamp]

theorem View.SameFrame.grow (h : View.SameFrame F F' i) (data : List UInt8) :
    (growItem data (F'.cells i)).frame = (growItem data (F.cells i)).frame := by
  simp only [DatafifoItem.frame, growItem, h.data, h.len, h.flags, h.timestamp]

end

section
variable {it : DatafifoItem P}

theorem frame_allocItem : (allocItem it).frame = ⟨[], 0, 0, it.timestamp⟩ := by
  simp [DatafifoItem.frame, allocItem]

theorem frame_mark (call : Call) (m : Mark) : (m.run call it).frame = m.onFrame call it.frame := by
  cases m <;> simp only [Mark.run, Mark.onFrame]
  · split <;> rfl
  · split <;> rfl
  · rfl

theorem frame_flushItem (flags : Nat) : (flushItem flags it).frame = it.frame.flush flags := by
  simp only [flushItem, Frame.flush]
  split <;> simp [DatafifoItem.frame]

/-- The marks set the timestamp, so that the one which an item had before does not matter. -/
theorem opened_allocItem (call : Call) : Mark.all.foldl (Mark.onFrame call) (allocItem it).frame = call.opened := by
  rw [frame_allocItem]
  simp only [Call.opened, Mark.all, List.foldl_cons, List.foldl_nil, Mark.onFrame]
  split <;> split <;> rfl

theorem frame_growItem {data : List UInt8} {buf : List UInt8} (hbuf : it.data = .own buf)
    (hlen : it.len + data.length ≤ buf.length) : (growItem data (copyItem data it)).frame = it.frame.grow data := by
  have htake : (memcpy buf it.len data).take (it.len + data.length) = buf.take it.len ++ data := by
    rw [memcpy, List.take_append_of_le_length (by simp; omega), List.take_of_length_le (by simp)]
  simp only [DatafifoItem.frame, Frame.grow, growItem, copyItem, hbuf, DataPtr.buf, htake]

end

/-! ### What a thread has still to do -/

/-- The steps of a call from the first look at the room on, with `n` consumers. -/
def fillSteps (n : Nat) : Nat := 11 * n + 6

/-- The steps after `datafifo_addto_consumers`. -/
def Cont.left (n : Nat) : Cont → Nat
  | .newframe _ _ => fillSteps n + 4
  | .finish => 0

/-- A bound for the steps that a thread at `pc` takes to the end of its call, with `n` consumers. -/
def ProducerPc.left (n : Nat) : ProducerPc C → Nat
  | .idle => 0
  | .alloc _ => 11 * n + fillSteps n + 8
  | .flush _ _ => 11 * n + fillSteps n + 7
  | .addto k _ rest => 11 * rest.length + k.left n + 2
  | .fill k _ _ _ todo rest => todo.length + 11 * rest.length + k.left n + 4
  | .link k _ _ _ rest => 11 * rest.length + k.left n + 3
  | .check k => k.left n + 1
  | .mark _ _ todo => todo.length + fillSteps n + 1
  | .tail _ => fillSteps n + 1
  | .room _ => fillSteps n
  | .copy _ => 11 * n + 5
  | .grow _ => 11 * n + 4
  | .close _ => 11 * n + 3

/-- A bound for the steps of a call. -/
def callSteps (n : Nat) : Nat := 11 * n + fillSteps n + 8

namespace View

/-- The frames of `p`, of which it has completed `done`. -/
def now (v : View P C) (p : P) (done : List Frame) : Assembly := ⟨done, (v.producer p).filling?.map (v.frame p)⟩

/-- The rest of a call that begins a frame, from the marks `todo` of the new item `cur` on. -/
def marking (v : View P C) (p : P) (done : List Frame) (call : Call) (cur : Nat) (todo : List Mark) : Assembly :=
  .fill (v.producer p).dataMaxlen ⟨done, some (todo.foldl (Mark.onFrame call) (v.frame p cur))⟩ call

/-- The rest of a call after `datafifo_addto_consumers`. -/
def onward (v : View P C) (p : P) (done : List Frame) : Cont → Assembly
  | .newframe call cur => v.marking p done call cur Mark.all
  | .finish => v.now p done

/-- The frames of `p` at the end of the call, for a thread at `pc`. -/
def aheadAt (v : View P C) (p : P) (done : List Frame) (pc : ProducerPc C) : Assembly :=
  match pc with
  | .idle => v.now p done
  | .alloc call =>
    .fill (v.producer p).dataMaxlen { (v.now p done).flush call.flags with filling := some call.opened } call
  | .flush call cur => v.marking p ((v.now p done).flush call.flags).completed call cur Mark.all
  | .addto k _ _ | .fill k _ _ _ _ _ | .link k _ _ _ _ | .check k => v.onward p done k
  | .mark call cur todo => v.marking p done call cur todo
  | .tail call | .room call | .copy call => (v.now p done).fill (v.producer p).dataMaxlen call
  | .grow call =>
    Assembly.close ⟨done, (v.producer p).filling?.map fun t => (growItem call.data ((v.producer p).cells t)).frame⟩ call
  | .close call => (v.now p done).close call

/-- The frames of `p` at the end of the call that it is in. -/
def ahead (v : View P C) (p : P) (done : List Frame) : Assembly := v.aheadAt p done (v.ppc p)

/-- The frame that the next step of the thread of `p` completes. -/
def completes [DecidableEq P] (v : View P C) (p : P) : Action P C → Option Frame
  | .producer q =>
    if q = p then
      match v.ppc p with
      | .flush call _ => (v.producer p).filling?.map fun t => (v.frame p t).flush call.flags
      | .close call =>
        if hasFlag call.flags frameFlagFrameend then (v.producer p).filling?.map (v.frame p) else none
      | _ => none
    else none
  | _ => none

section
variable [DecidableEq P] [DecidableEq C] {v w : View P C} {a : Action P C} {p : P} {done : List Frame}

/-- The frames of `p` as they are in another view. -/
structure SameFrames (v w : View P C) (p : P) : Prop where
  dataMaxlen : (w.producer p).dataMaxlen = (v.producer p).dataMaxlen
  filling? : (w.producer p).filling? = (v.producer p).filling?
  frames : ∀ i, SameFrame (v.producer p) (w.producer p) i

namespace SameFrames

theorem of_eq (h : w.producer p = v.producer p) : SameFrames v w p := by
  refine ⟨?_, ?_, fun i => .of_eq ?_⟩ <;> rw [h]

theorem set {f : DatafifoItem P → DatafifoItem P} {i : Nat} (hw : w.producer p = (v.producer p).set i f)
    (hfill : ((v.producer p).set i f).filling? = (v.producer p).filling?)
    (hf : ∀ it, (f it).data = it.data ∧ (f it).len = it.len ∧ (f it).flags = it.flags ∧ (f it).timestamp = it.timestamp) :
    SameFrames v w p := by
  refine ⟨by rw [hw]; rfl, by rw [hw, hfill], fun j => ?_⟩
  rw [hw]
  exact ⟨Fifo.set_field _ _ _ _ DatafifoItem.data (hf _).1, Fifo.set_field _ _ _ _ DatafifoItem.len (hf _).2.1,
    Fifo.set_field _ _ _ _ DatafifoItem.flags (hf _).2.2.1, Fifo.set_field _ _ _ _ DatafifoItem.timestamp (hf _).2.2.2⟩

theorem sweep (hw : w.producer p = (v.producer p).sweep) : SameFrames v w p :=
  ⟨by rw [hw]; rfl, by rw [hw, Fifo.filling?_sweep], fun _ => hw ▸ SameFrame.sweep⟩

theorem now (h : SameFrames v w p) : w.now p done = v.now p done := by
  rw [View.now, View.now, h.filling?]
  exact congrArg (Assembly.mk done) (Option.map_congr fun t _ => (h.frames t).frame)

theorem marking (h : SameFrames v w p) {call : Call} {cur : Nat} {todo : List Mark} :
    w.marking p done call cur todo = v.marking p done call cur todo := by
  rw [View.marking, View.marking, h.dataMaxlen, View.frame, (h.frames cur).frame, View.frame]

theorem onward (h : SameFrames v w p) {k : Cont} : w.onward p done k = v.onward p done k := by
  cases k with
  | newframe call cur => exact h.marking
  | finish => exact h.now

theorem aheadAt (h : SameFrames v w p) {pc : ProducerPc C} : w.aheadAt p done pc = v.aheadAt p done pc := by
  cases pc <;> simp only [View.aheadAt, h.now, h.marking, h.dataMaxlen, h.onward, h.filling?]
  rename_i call
  exact congrArg (Assembly.close · call) (congrArg (Assembly.mk done) (Option.map_congr fun t _ => (h.frames t).grow _))

end SameFrames

variable [Fintype C] {call : Call} {t : Nat}

theorem ahead_eq {pc : ProducerPc C} (h : v.ppc p = pc) : v.ahead p done = v.aheadAt p done pc := by rw [ahead, h]

theorem now_of_filling (ht : (v.producer p).list.getLast? = some t) (hf : ((v.producer p).cells t).status = .filling) :
    v.now p done = ⟨done, some (v.frame p t)⟩ := by
  rw [now, Fifo.filling?_eq_some.mpr ⟨ht, hf⟩, Option.map_some]

theorem Step.sameFrames (hs : Step v a w) (hp : a ≠ .producer p) (hc : Action.call? p a = none) :
    SameFrames v w p ∧ w.ppc p = v.ppc p := by
  have hset : ∀ {F : Fifo P C} {q : P}, w.producer = Function.update v.producer q F → p ≠ q → SameFrames v w p :=
    fun hw hq => .of_eq (by rw [hw, Function.update_of_ne hq])
  have hppc : ∀ {q pc}, w.ppc = Function.update v.ppc q pc → p ≠ q → w.ppc p = v.ppc p := fun hw hq => by
    rw [hw, Function.update_of_ne hq]
  have hne : ∀ {q}, a = .producer q → p ≠ q := fun ha hq => hp (by rw [ha, hq])
  cases hs with
  | @dataAdd q call pc =>
    have hq : p ≠ q := fun e => by simp [Action.call?, e] at hc
    exact ⟨.of_eq rfl, hppc rfl hq⟩
  | @decref c j q i pc head ref =>
    refine ⟨?_, rfl⟩
    by_cases hq : p = q
    · subst hq
      exact .set (Function.update_self ..) (Fifo.filling?_set rfl) fun _ => ⟨rfl, rfl, rfl, rfl⟩
    · exact hset rfl hq
  | @checkCon c q pc =>
    refine ⟨?_, rfl⟩
    by_cases hq : p = q
    · subst hq
      exact .sweep (Function.update_self ..)
    · exact hset rfl hq
  | removeHead => exact ⟨.of_eq rfl, rfl⟩
  | removeNone => exact ⟨.of_eq rfl, rfl⟩
  | unlink => exact ⟨.of_eq rfl, rfl⟩
  | flushNone | allocCon | assign | link | tail | room | closeOpen => exact ⟨.of_eq rfl, hppc rfl (hne rfl)⟩
  | _ => exact ⟨hset rfl (hne rfl), hppc rfl (hne rfl)⟩

theorem Step.ahead_begin (hs : Step v (.dataAdd p call) w) :
    w.ahead p done = (v.ahead p done).dataAdd (v.producer p).dataMaxlen call := by
  cases hs with
  | dataAdd pc =>
    rw [ahead_eq pc, ahead_eq (Function.update_self ..), (SameFrames.of_eq rfl : SameFrames v (v.setPpc p _) p).aheadAt,
      Assembly.dataAdd]
    split <;> rfl

/-- A step of the thread of `p` does some of what it has still to do. -/
theorem Step.ahead_own (hs : Step v (.producer p) w) (h : Inv v) :
    w.ahead p (done ++ (v.completes p (.producer p)).toList) = v.ahead p done := by
  have hI := h.prod p
  -- A step that completes nothing and leaves the frames as they are.
  have hsame : ∀ {pc pc'}, v.ppc p = pc → v.completes p (.producer p) = none → SameFrames v w p → w.ppc p = pc' →
      v.aheadAt p done pc' = v.aheadAt p done pc →
      w.ahead p (done ++ (v.completes p (.producer p)).toList) = v.ahead p done := fun hpc hc hf hpc' he => by
    rw [hc, Option.toList_none, List.append_nil, ahead_eq hpc, ahead_eq hpc', hf.aheadAt, he]
  -- A step that completes nothing and changes the items of `p`.
  have hset : ∀ {F pc pc'}, v.ppc p = pc → v.completes p (.producer p) = none →
      ((v.setProducer p F).setPpc p pc').aheadAt p done pc' = v.aheadAt p done pc →
      ((v.setProducer p F).setPpc p pc').ahead p (done ++ (v.completes p (.producer p)).toList) = v.ahead p done :=
    fun hpc hc he => by
      rw [hc, Option.toList_none, List.append_nil, ahead_eq hpc, ahead_eq (Function.update_self ..), he]
  have hprod : ∀ F pc, ((v.setProducer p F).setPpc p pc).producer p = F := fun _ _ => Function.update_self ..
  cases hs with
  | @alloc _ call i pc lt free =>
    have hi : i ∉ (v.producer p).list := ((hI.free i lt).mp free).1
    have hne : ∀ {t}, t ∈ (v.producer p).list.getLast? → t ≠ i := fun ht e => hi (e ▸ List.mem_of_getLast? ht)
    have hfill : ((v.producer p).set i allocItem).filling? = (v.producer p).filling? :=
      Fifo.filling?_congr rfl fun t ht => by rw [Fifo.set_cells_of_ne _ _ (hne ht)]
    refine hset pc (by simp [completes, pc]) ?_
    have hnow : ((v.setProducer p ((v.producer p).set i allocItem)).setPpc p (.flush call i)).now p done = v.now p done := by
      rw [now, now, hprod, hfill]
      refine congrArg (Assembly.mk done) (Option.map_congr fun t ht => ?_)
      rw [frame, hprod, Fifo.set_cells_of_ne _ _ (hne (Fifo.filling?_eq_some.mp ht).1), frame]
    simp only [aheadAt, marking, hnow, frame, hprod, Fifo.set_cells_self, opened_allocItem, Fifo.set_dataMaxlen]
  | @flush _ call cur t pc tail filling =>
    have hcur : cur ≠ t := fun e => (hI.own cur (by rw [pc]; rfl)).2.1 (e ▸ List.mem_of_getLast? tail)
    have hc : v.completes p (.producer p) = some ((v.frame p t).flush call.flags) := by
      simp [completes, pc, Fifo.filling?_eq_some.mpr ⟨tail, filling⟩]
    rw [hc, ahead_eq pc, ahead_eq (Function.update_self ..)]
    simp only [aheadAt, onward, marking, frame, hprod, Fifo.set_cells_of_ne _ _ hcur, now_of_filling tail filling,
      Assembly.flush, Fifo.set_dataMaxlen]
    rfl
  | @flushNone _ call cur pc tail =>
    refine hsame pc (by simp [completes, pc, Fifo.filling?_eq_none tail]) (.of_eq rfl) (Function.update_self ..) ?_
    simp [aheadAt, now, Assembly.flush, Fifo.filling?_eq_none tail]
  | allocCon pc lt free => exact hsame pc (by simp [completes, pc]) (.of_eq rfl) (Function.update_self ..) rfl
  | @doing _ k item pc =>
    rw [pc] at hI
    obtain ⟨htail, hready⟩ := hI.tail
    have hnone : (v.producer p).filling? = none := Fifo.filling?_eq_none fun t ht => by
      obtain rfl : item = t := Option.some.inj (htail.symm.trans ht)
      simp [hready]
    refine hsame pc (by simp [completes, pc]) (.set (Function.update_self ..) ?_ fun _ => ⟨rfl, rfl, rfl, rfl⟩)
      (Function.update_self ..) rfl
    rw [hnone]
    refine Fifo.filling?_eq_none fun t ht => ?_
    obtain rfl : item = t := Option.some.inj (htail.symm.trans ht)
    rw [Fifo.set_cells_self]
    simp [doingItem]
  | assign pc => exact hsame pc (by simp [completes, pc]) (.of_eq rfl) (Function.update_self ..) rfl
  | incref pc =>
    exact hsame pc (by simp [completes, pc])
      (.set (Function.update_self ..) (Fifo.filling?_set rfl) fun _ => ⟨rfl, rfl, rfl, rfl⟩) (Function.update_self ..) rfl
  | link pc => exact hsame pc (by simp [completes, pc]) (.of_eq rfl) (Function.update_self ..) rfl
  | @check _ k pc =>
    refine hsame pc (by simp [completes, pc]) (.sweep (Function.update_self ..)) (Function.update_self ..) ?_
    cases k <;> rfl
  | @mark _ call cur m todo pc =>
    refine hset pc (by simp [completes, pc]) ?_
    simp only [aheadAt, marking, frame, hprod, Fifo.set_cells_self, frame_mark, List.foldl_cons, Fifo.set_dataMaxlen]
  | @linkOwn _ call cur pc =>
    obtain ⟨-, -, hfill⟩ := hI.own cur (by rw [pc]; rfl)
    have hcur : ((v.producer p).push cur).filling? = some cur := Fifo.filling?_eq_some.mpr ⟨by simp, hfill⟩
    refine hset pc (by simp [completes, pc]) ?_
    simp only [aheadAt, marking, now, hprod, hcur, Option.map_some, frame, Fifo.push_cells, Fifo.push_dataMaxlen,
      List.foldl_nil]
  | @tail _ call t pc tail =>
    refine hsame pc (by simp [completes, pc]) (.of_eq rfl) (Function.update_self ..) ?_
    split
    · next hne =>
      have hnone : (v.producer p).filling? = none := Fifo.filling?_eq_none fun t' ht => by
        obtain rfl : t = t' := Option.some.inj (tail.symm.trans ht)
        exact hne
      simp [aheadAt, now, Assembly.fill, hnone]
    · rfl
  | @room _ call t pc tail =>
    rw [pc] at hI
    have hfill := hI.tail_filling rfl tail
    refine hsame pc (by simp [completes, pc]) (.of_eq rfl) (Function.update_self ..) ?_
    split
    · next hlong =>
      simp only [aheadAt, now_of_filling tail hfill, Assembly.fill]
      exact (if_pos hlong).symm
    · rfl
  | @copy _ call t pc tail =>
    rw [pc] at hI
    have hfill := hI.tail_filling rfl tail
    have hroom : ((v.producer p).cells t).len + call.data.length ≤ (v.producer p).dataMaxlen := hI.room t tail
    obtain ⟨b, hb, hlen⟩ := hI.buf t
    have hset' : ((v.producer p).set t (copyItem call.data)).filling? = some t :=
      Fifo.filling?_eq_some.mpr ⟨tail, by rw [Fifo.set_cells_self]; exact hfill⟩
    refine hset pc (by simp [completes, pc]) ?_
    simp only [aheadAt, hprod, hset', Option.map_some, Fifo.set_cells_self, frame_growItem hb (hlen ▸ hroom),
      now_of_filling tail hfill, Assembly.fill]
    exact (if_neg (Nat.not_lt.mpr hroom)).symm
  | @grow _ call t pc tail =>
    rw [pc] at hI
    have hfill := hI.tail_filling rfl tail
    have hset' : ((v.producer p).set t (growItem call.data)).filling? = some t :=
      Fifo.filling?_eq_some.mpr ⟨tail, by rw [Fifo.set_cells_self]; exact hfill⟩
    refine hset pc (by simp [completes, pc]) ?_
    simp only [aheadAt, now, hprod, hset', Option.map_some, frame, Fifo.set_cells_self,
      Fifo.filling?_eq_some.mpr ⟨tail, hfill⟩]
  | @close _ call t pc frameend tail =>
    rw [pc] at hI
    have hfill := hI.tail_filling rfl tail
    have hc : v.completes p (.producer p) = some (v.frame p t) := by
      simp [completes, pc, frameend, Fifo.filling?_eq_some.mpr ⟨tail, hfill⟩]
    have hnone : ((v.producer p).set t readyItem).filling? = none := Fifo.filling?_eq_none fun t' ht' => by
      obtain rfl : t = t' := Option.some.inj (tail.symm.trans ht')
      rw [Fifo.set_cells_self]
      simp [readyItem]
    rw [hc, ahead_eq pc, ahead_eq (Function.update_self ..)]
    simp only [aheadAt, onward]
    rw [now_of_filling tail hfill, Assembly.close, if_pos frameend, now, hprod, hnone]
    rfl
  | closeOpen pc more =>
    exact hsame pc (by simp [completes, pc, more]) (.of_eq rfl) (Function.update_self ..) (if_neg more).symm

theorem Step.dataMaxlen_eq (hs : Step v a w) : (w.producer p).dataMaxlen = (v.producer p).dataMaxlen := by
  have hother : ∀ {F : Fifo P C} {q : P}, F.dataMaxlen = (v.producer q).dataMaxlen →
      (Function.update v.producer q F p).dataMaxlen = (v.producer p).dataMaxlen := fun {F q} hF => by
    by_cases hq : p = q
    · subst hq
      rw [Function.update_self, hF]
    · rw [Function.update_of_ne hq]
  cases hs <;> first | rfl | exact hother rfl

/-- A step goes on with the call of `p`, or begins the next one. -/
theorem Step.ahead_eq (hs : Step v a w) (h : Inv v) : w.ahead p (done ++ (v.completes p a).toList) =
    (a.call? p).toList.foldl (Assembly.dataAdd (v.producer p).dataMaxlen) (v.ahead p done) := by
  cases hc : a.call? p with
  | some call =>
    obtain rfl : a = .dataAdd p call := Action.call?_eq_some hc
    rw [show v.completes p (.dataAdd p call) = none from rfl, Option.toList_none, List.append_nil, hs.ahead_begin]
    rfl
  | none =>
    by_cases ha : a = .producer p
    · subst ha
      exact hs.ahead_own h
    · obtain ⟨hf, hpc⟩ := hs.sameFrames ha hc
      have hnone : v.completes p a = none := by
        cases a <;> simp only [completes]
        exact if_neg fun e => ha (by rw [e])
      rw [hnone, Option.toList_none, List.append_nil, ahead, ahead, hpc, hf.aheadAt]
      rfl

/-- Every step of the thread of `p` brings the end of its call nearer. -/
theorem Step.left_lt (hs : Step v (.producer p) w) :
    (w.ppc p).left (v.producer p).consumers.length < (v.ppc p).left (v.producer p).consumers.length := by
  have hpc : ∀ {u : View P C} {pc pc' : ProducerPc C}, v.ppc p = pc → pc'.left (v.producer p).consumers.length <
      pc.left (v.producer p).consumers.length → ((u.setPpc p pc').ppc p).left (v.producer p).consumers.length <
      (v.ppc p).left (v.producer p).consumers.length := fun hv hlt => by
    rw [setPpc_ppc, Function.update_self, hv]
    exact hlt
  have hmarks : Mark.all.length = 3 := rfl
  have hasgs : Asg.all.length = 8 := rfl
  cases hs with
  | @check _ k pc =>
    refine hpc pc ?_
    cases k <;> simp only [Cont.pc, ProducerPc.left, Cont.left, hmarks] <;> omega
  | tail pc | room pc =>
    refine hpc pc ?_
    split <;> simp only [ProducerPc.left, fillSteps] <;> omega
  | _ =>
    refine hpc (by assumption) ?_
    simp only [ProducerPc.left, Cont.left, fillSteps, hmarks, hasgs, List.length_cons, List.length_nil]
    omega

/-- A step is one of a call of `p`, which has then fewer to go, or it begins one. -/
theorem Step.steps_le (hs : Step v a w) {n : Nat} (hn : (v.producer p).consumers.length = n) :
    [a].countP (Action.own p) + (w.ppc p).left n ≤ (a.call? p).toList.length * callSteps n + (v.ppc p).left n := by
  cases ha : a.call? p with
  | some call =>
    obtain rfl : a = .dataAdd p call := Action.call?_eq_some ha
    cases hs with
    | dataAdd pc =>
      rw [setPpc_ppc, Function.update_self, pc]
      split
      · simp [Action.own, ProducerPc.left, callSteps]
      · simp [Action.own, ProducerPc.left, callSteps]
        omega
  | none =>
    by_cases hown : a = .producer p
    · subst hown
      have hlt := hs.left_lt
      rw [hn] at hlt
      simp [Action.own]
      omega
    · have hnot : Action.own p a = false := by
        cases a <;> simp only [Action.own, decide_eq_false_iff_not]
        exact fun e => hown (by rw [e])
      rw [(hs.sameFrames hown ha).2]
      simp [hnot]

theorem Step.ne_tail (hs : Step v (.producer p) w) : w.ppc p ≠ .tail call := by
  have hpc : ∀ {u : View P C} {pc : ProducerPc C}, pc ≠ .tail call → (u.setPpc p pc).ppc p ≠ .tail call := fun hne => by
    rw [setPpc_ppc, Function.update_self]
    exact hne
  cases hs with
  | @check _ k pc => exact hpc (by cases k <;> simp [Cont.pc])
  | tail | room => exact hpc (by split <;> simp)
  | _ => exact hpc (by simp)

/-- A thread that looks for the frame being filled finds it, if the calls always continue one. -/
theorem Step.filling_at_tail (hs : Step v a w) (done : List Frame)
    (hv : ∀ call, v.ppc p = .tail call → (v.producer p).filling? ≠ none)
    (hc : ∀ call, a.call? p = some call → ¬hasFlag call.flags frameFlagNewframe → (v.ahead p done).filling ≠ none)
    (hw : w.ppc p = .tail call) : (w.producer p).filling? ≠ none := by
  cases ha : a.call? p with
  | some call' =>
    obtain rfl : a = .dataAdd p call' := Action.call?_eq_some ha
    cases hs with
    | dataAdd pc =>
      rw [setPpc_ppc, Function.update_self] at hw
      split at hw
      · cases hw
      · next hnew =>
        have hfill := hc _ ha hnew
        rw [View.ahead_eq pc, aheadAt, now, ne_eq, Option.map_eq_none_iff] at hfill
        rw [(SameFrames.of_eq rfl : SameFrames v (v.setPpc p _) p).filling?]
        exact hfill
  | none =>
    by_cases hown : a = .producer p
    · subst hown
      exact absurd hw hs.ne_tail
    · obtain ⟨hf, hpc⟩ := hs.sameFrames hown ha
      rw [hf.filling?]
      exact hv call (hpc ▸ hw)

end
end View

/-! ### Runs -/

namespace Sys
open View
variable [DecidableEq P] [DecidableEq C] [Fintype C] {s t : Sys P C} {p : P} {a : Action P C} {as : List (Action P C)}
  {log log' : List (Event P C)}

theorem Ok.event_producer (h : s.Ok) :
    s.event (.producer p) = (s.view.completes p (.producer p)).map (Event.completed p) := by
  have hlast : (s.producer p).listtail = (s.producer p).list.getLast? := (h.producer p).listtail
  rw [completes, if_pos rfl, view_ppc]
  cases hpc : s.ppc p with
  | flush call cur =>
    simp only [event, hpc, hlast, Fifo.filling?, view_producer, abs_list]
    cases (s.producer p).list.getLast? with
    | none => rfl
    | some t =>
      simp only [Option.bind_some, Option.filter_some, abs_status, frame_flushItem]
      by_cases hf : ((s.producer p).items t).status = .filling
      · simp only [hf, if_true, decide_true]
        rfl
      · simp [hf]
  | close call =>
    have hp := h.inv.prod p
    rw [view_ppc, hpc] at hp
    obtain ⟨t, ht, hfill⟩ := hp.tail
    rw [Fifo.filling?_eq_some.mpr ⟨ht, hfill⟩]
    simp only [event, hpc, hlast, show (s.producer p).list.getLast? = some t from ht, Option.bind_some]
    split <;> rfl
  | _ =>
    simp only [event, hpc]
    rfl

theorem Ok.completedBy_event (h : s.Ok) : completedBy p (s.event a).toList = (s.view.completes p a).toList := by
  cases a with
  | dataAdd q call => rfl
  | removeHead c => rfl
  | consumer c =>
    have hseen : ∀ o : Option (P × Frame), completedBy p (o.map fun x => Event.seen c x.1 x.2).toList = [] := fun o => by
      cases o <;> rfl
    cases hpc : s.cpc c <;> simp only [event, hpc, completes]
    · rfl
    · cases (s.consumer c).listhead with
      | none => rfl
      | some j => exact hseen _
    · rfl
    · rfl
  | producer q =>
    rw [h.event_producer]
    by_cases hq : q = p
    · subst hq
      cases s.view.completes q (.producer q) with
      | none => rfl
      | some f => simp [completedBy]
    · rw [show s.view.completes p (.producer q) = none from if_neg hq]
      cases s.view.completes q (.producer q) with
      | none => rfl
      | some f => simp [completedBy, hq]

/-- The first step of a run, and what it adds to the frames of `p`. -/
theorem Ok.logged_cons (h : s.Ok) (hr : Exec.exec Sys.logged (s, log) (a :: as) = some (t, log')) (p : P) :
    ∃ u log₁, s.step a = some u ∧ u.Ok ∧ View.Step s.view a u.view ∧ Exec.exec Sys.logged (u, log₁) as = some (t, log') ∧
      completedBy p log₁ = completedBy p log ++ (s.view.completes p a).toList ∧
      u.view.ahead p (completedBy p log₁) =
        (a.call? p).toList.foldl (Assembly.dataAdd (s.producer p).dataMaxlen) (s.view.ahead p (completedBy p log)) ∧
      (u.producer p).dataMaxlen = (s.producer p).dataMaxlen := by
  obtain ⟨⟨u, log₁⟩, hu, hr⟩ := Exec.exec_cons.mp hr
  obtain ⟨u', hstep, he⟩ := Option.map_eq_some_iff.mp hu
  cases he
  obtain ⟨hst, hok⟩ := h.refines hstep
  have hlog : completedBy p (log ++ (s.event a).toList) = completedBy p log ++ (s.view.completes p a).toList := by
    rw [← h.completedBy_event]
    exact List.filterMap_append ..
  exact ⟨u, _, hstep, hok, hst, hr, hlog, hlog ▸ hst.ahead_eq h.inv, hst.dataMaxlen_eq⟩

/-- After a run, the thread of `p` has still to do what is left of the calls that it has begun. -/
theorem Ok.ahead_exec (h : s.Ok) (hr : Exec.exec Sys.logged (s, log) as = some (t, log')) :
    t.view.ahead p (completedBy p log') =
      (callsOf p as).foldl (Assembly.dataAdd (s.producer p).dataMaxlen) (s.view.ahead p (completedBy p log)) := by
  induction as generalizing s log with
  | nil =>
    cases hr
    rfl
  | cons a as ih =>
    obtain ⟨u, log₁, -, hok, -, hr, -, hahead, hmax⟩ := h.logged_cons hr p
    rw [ih hok hr, hahead, hmax, callsOf_cons, List.foldl_append]

theorem Ok.steps_exec (h : s.Ok) (hr : Exec.exec Sys.logged (s, log) as = some (t, log')) {n : Nat}
    (hn : (s.producer p).consumers.length = n) :
    as.countP (Action.own p) + (t.ppc p).left n ≤ (callsOf p as).length * callSteps n + (s.ppc p).left n := by
  induction as generalizing s log with
  | nil =>
    cases hr
    simp [callsOf]
  | cons a as ih =>
    obtain ⟨u, log₁, -, hok, hst, hr, -, -, -⟩ := h.logged_cons hr p
    have hstep := hst.steps_le hn
    have hcons : (u.producer p).consumers = (s.producer p).consumers := hst.consumers_eq
    have hrest := ih hok hr (by rw [hcons, hn])
    rw [callsOf_cons, List.length_append, Nat.add_mul, ← List.singleton_append, List.countP_append]
    simp only [view_ppc] at hstep
    omega

theorem completed_ahead {v : View P C} {done : List Frame} : done <+: (v.ahead p done).completed := by
  have honward : ∀ k, done <+: (v.onward p done k).completed := fun k => by
    cases k with
    | newframe call cur => exact Assembly.keeps_fill List.prefix_rfl
    | finish => exact List.prefix_rfl
  rw [View.ahead]
  cases v.ppc p with
  | idle => exact List.prefix_rfl
  | alloc call | flush call cur => exact Assembly.keeps_fill (List.prefix_append _ _)
  | addto k | fill k | link k | check k => exact honward k
  | grow call | close call => exact Assembly.keeps_close List.prefix_rfl
  | _ => exact Assembly.keeps_fill List.prefix_rfl

theorem ahead_start (psize pcnt : P → Nat) (csize ccnt : C → Nat) (chain : P → List C) (p : P) :
    (Sys.start psize pcnt csize ccnt chain).view.ahead p [] = ⟨[], none⟩ := by
  have hinit : ∀ size cnt, (datafifoInit size cnt : Datafifo P C).list = [] := fun size cnt => by cases cnt <;> rfl
  have hlist : ((Sys.start psize pcnt csize ccnt chain).view.producer p).list = [] := hinit (psize p) (pcnt p)
  have hidle : (Sys.start psize pcnt csize ccnt chain).view.ppc p = .idle := rfl
  rw [View.ahead_eq hidle, aheadAt, now, Fifo.filling?, hlist]
  rfl

/-- In every run, the frames that `p` has completed are the first ones of its calls, and all of them between two calls. -/
theorem assembled (psize pcnt : P → Nat) (csize ccnt : C → Nat) (chain : P → List C)
    (h : Exec.exec Sys.logged (Sys.start psize pcnt csize ccnt chain, []) as = some (s, log)) :
    completedBy p log <+: ((callsOf p as).foldl (Assembly.dataAdd (psize p)) ⟨[], none⟩).completed ∧
    (s.ppc p = .idle → completedBy p log = ((callsOf p as).foldl (Assembly.dataAdd (psize p)) ⟨[], none⟩).completed) := by
  have hahead := (Ok.start psize pcnt csize ccnt chain).ahead_exec (p := p) h
  rw [show completedBy p ([] : List (Event P C)) = [] from rfl, ahead_start] at hahead
  refine ⟨?_, fun hidle => ?_⟩
  · have hdone : completedBy p log <+: (s.view.ahead p (completedBy p log)).completed := completed_ahead
    rw [hahead] at hdone
    exact hdone
  · rw [View.ahead_eq hidle] at hahead
    exact congrArg Assembly.completed hahead

/-- The thread of `p` waits for a free item of its own FIFO or of a consumer's. -/
def WaitsForItem (s : Sys P C) (p : P) : Prop :=
  (∃ call, s.ppc p = .alloc call ∧ (s.producer p).Full) ∨
  ∃ k item con rest, s.ppc p = .addto k item (con :: rest) ∧ (s.consumer con).Full

/-- A thread in a call takes its next step unless it waits for an item, or looks for a tail that is not there. -/
theorem Ok.producer_goes_on (h : s.Ok) (hbusy : s.ppc p ≠ .idle) (hwait : ¬s.WaitsForItem p)
    (htail : ∀ call, s.ppc p = .tail call → (s.producer p).list ≠ []) : (s.step (.producer p)).isSome := by
  have hI := h.inv.prod p
  have hw := h.producer p
  rw [view_ppc] at hI
  have halloc : ∀ {df : Datafifo P C}, ¬df.Full → (datafifoAlloc df).isSome := fun hfull => by
    rw [Option.isSome_iff_ne_none, ne_eq, datafifoAlloc_eq_none]
    exact hfull
  have hlast : (s.producer p).list ≠ [] → (s.producer p).listtail.isSome := fun hne => by
    rw [hw.listtail, List.getLast?_isSome]
    exact hne
  have hfilling : TailOk (s.view.producer p) .filling → (s.producer p).listtail.isSome := fun ⟨t, ht, _⟩ =>
    hlast (List.ne_nil_of_mem (List.mem_of_getLast? ht))
  change (s.producerStep p).isSome
  rw [Sys.producerStep]
  cases hpc : s.ppc p with
  | idle => exact absurd hpc hbusy
  | alloc call =>
    simp only [Option.isSome_map]
    exact halloc fun hfull => hwait (Or.inl ⟨call, hpc, hfull⟩)
  | flush call cur =>
    simp only
    split
    · rfl
    · split <;> rfl
  | addto k item rest =>
    cases rest with
    | nil => rfl
    | cons con rest =>
      simp only [Option.isSome_map]
      exact halloc fun hfull => hwait (Or.inr ⟨k, item, con, rest, hpc, hfull⟩)
  | fill k item con cur todo rest => cases todo <;> rfl
  | link k item con cur rest =>
    obtain ⟨hlt, hnl, hs⟩ := h.inv.held p ⟨item, con, cur, []⟩ (by rw [view_ppc, hpc]; rfl)
    obtain ⟨df, hdf, -⟩ := (h.consumer con).addtail hnl hlt hs
    simp only [Option.isSome_map, hdf, Option.isSome_some]
  | check k =>
    obtain ⟨df, hdf, -⟩ := hw.removeCheck
    simp only [Option.isSome_map, hdf, Option.isSome_some]
  | mark call cur todo =>
    cases todo with
    | cons m todo => rfl
    | nil =>
      obtain ⟨hlt, hnl, hs⟩ := hI.own cur (by rw [hpc]; rfl)
      obtain ⟨df, hdf, -⟩ := hw.addtail hnl hlt (by rw [← abs_status, show (s.producer p).abs = s.view.producer p from rfl, hs]; simp)
      simp only [Option.isSome_map, hdf, Option.isSome_some]
  | tail call =>
    simp only [Option.isSome_map]
    exact hlast (htail call hpc)
  | close call =>
    simp only
    split
    · rw [Option.isSome_map]
      exact hfilling (by rw [hpc] at hI; exact hI.tail)
    · rfl
  | _ =>
    simp only [Option.isSome_map]
    exact hfilling (by rw [hpc] at hI; exact hI.tail)

theorem Ok.filling_at_tail (h : s.Ok) (hr : Exec.exec Sys.logged (s, log) as = some (t, log'))
    (hs : ∀ call, s.ppc p = .tail call → (s.view.producer p).filling? ≠ none)
    (hc : Assembly.Continues (s.producer p).dataMaxlen (s.view.ahead p (completedBy p log)) (callsOf p as)) :
    ∀ call, t.ppc p = .tail call → (t.view.producer p).filling? ≠ none := by
  induction as generalizing s log with
  | nil =>
    cases hr
    exact hs
  | cons a as ih =>
    obtain ⟨u, log₁, -, hok, hst, hr, -, hahead, hmax⟩ := h.logged_cons hr p
    rw [callsOf_cons, Assembly.continues_append] at hc
    refine ih hok hr (fun call hw => hst.filling_at_tail (completedBy p log) hs (fun call ha hnew => ?_) hw) ?_
    · rw [ha] at hc
      exact hc.1.1 hnew
    · rw [hahead, hmax]
      exact hc.2

/-- In every run whose calls always continue a frame or begin one, the thread of `p` is between two calls, waits for a
    free item, or can go on, and its calls take a bounded number of steps each. -/
theorem assembling (psize pcnt : P → Nat) (csize ccnt : C → Nat) (chain : P → List C)
    (h : Exec.exec Sys.logged (Sys.start psize pcnt csize ccnt chain, []) as = some (s, log))
    (hc : Assembly.Continues (psize p) ⟨[], none⟩ (callsOf p as)) :
    (s.ppc p = .idle ∨ s.WaitsForItem p ∨ (s.step (.producer p)).isSome) ∧
      as.countP (Action.own p) ≤ (callsOf p as).length * callSteps (chain p).length := by
  have hstart := Ok.start psize pcnt csize ccnt chain
  have hsteps := hstart.steps_exec (p := p) h (n := (chain p).length) rfl
  have hzero : ((Sys.start psize pcnt csize ccnt chain).ppc p).left (chain p).length = 0 := rfl
  refine ⟨?_, by omega⟩
  by_cases hidle : s.ppc p = .idle
  · exact Or.inl hidle
  by_cases hwait : s.WaitsForItem p
  · exact Or.inr (Or.inl hwait)
  have hok : s.Ok := (Ok.logged hstart (delivered_start psize pcnt csize ccnt chain) h).1
  refine Or.inr (Or.inr (hok.producer_goes_on hidle hwait fun call htail hnil => ?_))
  refine hstart.filling_at_tail h (fun call ht => by cases ht) ?_ call htail ?_
  · rw [show completedBy p ([] : List (Event P C)) = [] from rfl, ahead_start]
    exact hc
  · rw [Fifo.filling?, view_producer, abs_list, hnil]
    rfl

end Sys
end Recbcsrv
