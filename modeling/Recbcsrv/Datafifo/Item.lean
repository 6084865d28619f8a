import Mathlib.Logic.Function.Basic
import Recbcsrv.Lib.LinkedList

/-! The data of a frame FIFO (`datafifo.h`) and the operations on one FIFO that `datafifo.c` runs under
    its mutex: taking an item from the pool, linking it behind the tail, unlinking the head. `P` names
    the producer FIFOs and `C` the consumer FIFOs, and an item is a position in the pool of its FIFO. -/

namespace Recbcsrv

/-- `DATAFIFO_ITEM_STATUS_*`. -/
inductive ItemStatus where
  | init
  | filling
  | ready
  | doing
  deriving DecidableEq, Repr

/-- `FRAME_FLAG_*`. -/
def frameFlagNewframe : Nat := 0x1
def frameFlagFrameend : Nat := 0x2
def frameFlagFirstframe : Nat := 0x4
def frameFlagKeyframe : Nat := 0x8
def frameFlagAudiofrm : Nat := 0x10

/-- `flags & flag` as a condition. -/
def hasFlag (flags flag : Nat) : Bool := (flags &&& flag) != 0

/-- What `arg.data` points to: the buffer that `datafifo_init` allocates for the item, or the buffer of
    item `i` of producer `p`. -/
inductive DataPtr (P : Type) where
  | own (buf : List UInt8)
  | item (p : P) (i : Nat)
  deriving DecidableEq

/-- `t_datafifo_item`. The field `datafifo` is the FIFO whose pool holds the item; through `ref` it is
    the first component of the reference. -/
structure DatafifoItem (P : Type) where
  next : Option Nat
  prev : Option Nat
  ref : Option (P × Nat)
  refcnt : Int
  status : ItemStatus
  data : DataPtr P
  len : Nat
  flags : Nat
  timestamp : Int

/-- `t_datafifo`. The mutex and the conditions are in the steps of the threads, and the chain of
    `t_datafifo_con` nodes is the list of the FIFOs they name. -/
structure Datafifo (P C : Type) where
  dataMaxlen : Nat
  items : Nat → DatafifoItem P
  itemCnt : Nat
  listhead : Option Nat
  listtail : Option Nat
  consumers : List C

variable {P C : Type}

/-- `memcpy` of `src` into `buf` at offset `off`. -/
def memcpy (buf : List UInt8) (off : Nat) (src : List UInt8) : List UInt8 :=
  buf.take off ++ src ++ buf.drop (off + src.length)

/-- The bytes behind a pointer to a buffer of one's own. -/
def DataPtr.buf : DataPtr P → List UInt8
  | .own buf => buf
  | .item _ _ => []

/-- An item as `memset` leaves it in `datafifo_init`, with a buffer of `size` bytes. -/
def itemInit (size : Nat) : DatafifoItem P where
  next := none
  prev := none
  ref := none
  refcnt := 0
  status := .init
  data := .own (List.replicate size 0)
  len := 0
  flags := 0
  timestamp := 0

/-- `datafifo_init`. The allocations succeed. -/
def datafifoInit (size cnt : Nat) : Datafifo P C where
  dataMaxlen := size
  items := fun _ => itemInit size
  itemCnt := cnt
  listhead := none
  listtail := none
  consumers := []

namespace Datafifo

/-- The FIFO with item `i` changed by `f`. -/
def setItem (df : Datafifo P C) (i : Nat) (f : DatafifoItem P → DatafifoItem P) : Datafifo P C :=
  { df with items := Function.update df.items i (f (df.items i)) }

section
variable (df : Datafifo P C) (i j : Nat) (f : DatafifoItem P → DatafifoItem P)

@[simp] theorem setItem_dataMaxlen : (df.setItem i f).dataMaxlen = df.dataMaxlen := rfl
@[simp] theorem setItem_itemCnt : (df.setItem i f).itemCnt = df.itemCnt := rfl
@[simp] theorem setItem_listhead : (df.setItem i f).listhead = df.listhead := rfl
@[simp] theorem setItem_listtail : (df.setItem i f).listtail = df.listtail := rfl
@[simp] theorem setItem_consumers : (df.setItem i f).consumers = df.consumers := rfl

@[simp] theorem setItem_items_self : (df.setItem i f).items i = f (df.items i) := Function.update_self ..

theorem setItem_items_of_ne {i j : Nat} (h : j ≠ i) : (df.setItem i f).items j = df.items j :=
  Function.update_of_ne h ..

theorem setItem_items : (df.setItem i f).items j = if j = i then f (df.items i) else df.items j := by
  by_cases h : j = i
  · subst h
    simp
  · rw [setItem_items_of_ne _ _ h, if_neg h]

end

/-! ### The pool -/

/-- The item as `datafifo_alloc` hands it out. -/
def allocItem (it : DatafifoItem P) : DatafifoItem P :=
  { it with flags := 0, len := 0, next := none, prev := none, ref := none, refcnt := 0, status := .filling }

/-- The first free item of the pool. -/
def freeItem? (df : Datafifo P C) : Option Nat :=
  (List.range df.itemCnt).find? fun i => (df.items i).status = .init

/-- `datafifo_alloc`, the section between lock and unlock. With no free item the caller waits. -/
def datafifoAlloc (df : Datafifo P C) : Option (Datafifo P C × Nat) :=
  df.freeItem?.map fun i => (df.setItem i allocItem, i)

/-- No item of the pool is free. -/
def Full (df : Datafifo P C) : Prop := ∀ i < df.itemCnt, (df.items i).status ≠ .init

theorem freeItem?_eq_some {df : Datafifo P C} {i : Nat} (h : df.freeItem? = some i) :
    i < df.itemCnt ∧ (df.items i).status = .init := by
  have hs := List.find?_some h
  exact ⟨List.mem_range.mp (List.mem_of_find?_eq_some h), by simpa using hs⟩

theorem freeItem?_eq_none {df : Datafifo P C} : df.freeItem? = none ↔ df.Full := by
  simp [freeItem?, Full, List.find?_eq_none]

theorem datafifoAlloc_eq_some {df df' : Datafifo P C} {i : Nat} (h : datafifoAlloc df = some (df', i)) :
    i < df.itemCnt ∧ (df.items i).status = .init ∧ df' = df.setItem i allocItem := by
  simp only [datafifoAlloc, Option.map_eq_some_iff, Prod.mk.injEq] at h
  obtain ⟨j, hj, rfl, rfl⟩ := h
  exact ⟨(freeItem?_eq_some hj).1, (freeItem?_eq_some hj).2, rfl⟩

theorem datafifoAlloc_eq_none {df : Datafifo P C} : datafifoAlloc df = none ↔ df.Full := by
  rw [← freeItem?_eq_none]
  simp [datafifoAlloc]

/-! ### The list -/

/-- `datafifo_list_addtail`, the section between lock and unlock. A head without a tail is a null
    pointer access. -/
def datafifoListAddtail (df : Datafifo P C) (f : Nat) : Option (Datafifo P C) :=
  match df.listhead with
  | none => some { df with listhead := some f, listtail := some f }
  | some _ =>
    match df.listtail with
    | none => none
    | some t =>
      some { (df.setItem t fun it => { it with next := some f }).setItem f fun it => { it with prev := some t } with
        listtail := some f }

/-- `datafifo_remove_head_internal_reqlock`. The caller holds the mutex. -/
def datafifoRemoveHeadInternalReqlock (df : Datafifo P C) : Option (Datafifo P C) :=
  match df.listhead with
  | none => none
  | some orig =>
    let df₁ : Datafifo P C :=
      match (df.items orig).next with
      | none => { df with listhead := none, listtail := none }
      | some h => { df.setItem h fun it => { it with prev := none } with listhead := some h }
    some (df₁.setItem orig fun it => { it with status := .init })

/-- The loop of `datafifo_producer_remove_check`: the head goes while it is `DOING` and unreferenced.
    `datafifoProducerRemoveCheck` gives it enough fuel for the longest list. -/
def removeCheckLoop : Nat → Datafifo P C → Option (Datafifo P C)
  | 0, df => some df
  | n + 1, df =>
    match df.listhead with
    | none => some df
    | some h =>
      if (df.items h).status = .doing ∧ (df.items h).refcnt = 0 then
        (datafifoRemoveHeadInternalReqlock df).bind (removeCheckLoop n)
      else some df

/-- `datafifo_producer_remove_check`, the section between lock and unlock. -/
def datafifoProducerRemoveCheck (df : Datafifo P C) : Option (Datafifo P C) := removeCheckLoop df.itemCnt df

end Datafifo
end Recbcsrv
