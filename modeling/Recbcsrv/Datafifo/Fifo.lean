import Mathlib.Data.List.Perm.Subperm
import Recbcsrv.Datafifo.Item

/-! What a frame FIFO is for, without its pointers: cells, and the queue of those that are in use.
    A `Datafifo` whose list is well formed (`Wf`) has such a view, and each operation of `Item.lean` acts on
    the view as appending, dropping or changing a cell. -/

namespace Recbcsrv

variable {P C : Type}

/-- A list splits at the same place under conditions that agree on it. -/
theorem span_congr {α : Type} {q q' : α → Bool} {l : List α} (h : ∀ a ∈ l, q a = q' a) :
    l.takeWhile q = l.takeWhile q' ∧ l.dropWhile q = l.dropWhile q' := by
  induction l with
  | nil => exact ⟨rfl, rfl⟩
  | cons a l ih =>
    obtain ⟨ht, hd⟩ := ih fun b hb => h b (List.mem_cons_of_mem _ hb)
    simp only [List.takeWhile_cons, List.dropWhile_cons, h a (List.mem_cons_self ..), ht, hd, and_self]

/-- A FIFO as a queue of cells. -/
@[ext]
structure Fifo (P C : Type) where
  dataMaxlen : Nat
  cells : Nat → DatafifoItem P
  itemCnt : Nat
  list : List Nat
  consumers : List C

namespace Fifo

/-- Cell `i` changed by `f`. -/
def set (F : Fifo P C) (i : Nat) (f : DatafifoItem P → DatafifoItem P) : Fifo P C :=
  { F with cells := Function.update F.cells i (f (F.cells i)) }

/-- Cell `x` goes behind the last cell of the queue. -/
def push (F : Fifo P C) (x : Nat) : Fifo P C := { F with list := F.list ++ [x] }

/-- The cells of `l` are free again. -/
def release (F : Fifo P C) (l : List Nat) : Nat → DatafifoItem P := fun i =>
  if i ∈ l then { F.cells i with status := .init } else F.cells i

/-- The first cell of the queue is taken off and free again. -/
def pop (F : Fifo P C) : Fifo P C := { F with cells := F.release (F.list.take 1), list := F.list.tail }

/-- A cell that no consumer refers to and that none will refer to any more. -/
def gone (F : Fifo P C) (i : Nat) : Bool := (F.cells i).status = .doing ∧ (F.cells i).refcnt = 0

/-- The cells at the front of the queue that are gone are taken off. -/
def sweep (F : Fifo P C) : Fifo P C :=
  { F with cells := F.release (F.list.takeWhile F.gone), list := F.list.dropWhile F.gone }

section
variable (F : Fifo P C) (i j x : Nat) (f : DatafifoItem P → DatafifoItem P)

@[simp] theorem set_dataMaxlen : (F.set i f).dataMaxlen = F.dataMaxlen := rfl
@[simp] theorem set_itemCnt : (F.set i f).itemCnt = F.itemCnt := rfl
@[simp] theorem set_list : (F.set i f).list = F.list := rfl
@[simp] theorem set_consumers : (F.set i f).consumers = F.consumers := rfl
@[simp] theorem push_dataMaxlen : (F.push x).dataMaxlen = F.dataMaxlen := rfl
@[simp] theorem push_itemCnt : (F.push x).itemCnt = F.itemCnt := rfl
@[simp] theorem push_cells : (F.push x).cells = F.cells := rfl
@[simp] theorem push_list : (F.push x).list = F.list ++ [x] := rfl
@[simp] theorem push_consumers : (F.push x).consumers = F.consumers := rfl
@[simp] theorem pop_dataMaxlen : F.pop.dataMaxlen = F.dataMaxlen := rfl
@[simp] theorem pop_itemCnt : F.pop.itemCnt = F.itemCnt := rfl
@[simp] theorem pop_list : F.pop.list = F.list.tail := rfl
@[simp] theorem pop_consumers : F.pop.consumers = F.consumers := rfl
@[simp] theorem sweep_dataMaxlen : F.sweep.dataMaxlen = F.dataMaxlen := rfl
@[simp] theorem sweep_itemCnt : F.sweep.itemCnt = F.itemCnt := rfl
@[simp] theorem sweep_list : F.sweep.list = F.list.dropWhile F.gone := rfl
@[simp] theorem sweep_consumers : F.sweep.consumers = F.consumers := rfl

@[simp] theorem set_cells_self : (F.set i f).cells i = f (F.cells i) := Function.update_self ..

theorem set_cells_of_ne {i j : Nat} (h : j ≠ i) : (F.set i f).cells j = F.cells j := Function.update_of_ne h ..

theorem set_cells : (F.set i f).cells j = if j = i then f (F.cells i) else F.cells j := by
  by_cases h : j = i
  · subst h
    simp
  · rw [set_cells_of_ne _ _ h, if_neg h]

theorem set_field {β : Type} (g : DatafifoItem P → β) (hg : g (f (F.cells i)) = g (F.cells i)) :
    g ((F.set i f).cells j) = g (F.cells j) := by
  rw [set_cells]
  split
  · next h => rw [hg, h]
  · rfl

end

variable {F : Fifo P C} {i x : Nat}

theorem release_of_notMem {l : List Nat} (h : i ∉ l) : F.release l i = F.cells i := if_neg h

theorem release_of_mem {l : List Nat} (h : i ∈ l) : (F.release l i).status = .init := by
  rw [release, if_pos h]

theorem release_field {β : Type} (g : DatafifoItem P → β) {l : List Nat}
    (hg : ∀ it s, g { it with status := s } = g it) : g (F.release l i) = g (F.cells i) := by
  rw [release]
  split
  · exact hg _ _
  · rfl

theorem gone_iff : F.gone i ↔ (F.cells i).status = .doing ∧ (F.cells i).refcnt = 0 := by simp [gone]

theorem gone_of_mem_takeWhile (h : i ∈ F.list.takeWhile F.gone) : F.gone i := by
  have hall := List.all_takeWhile (p := F.gone) (l := F.list)
  exact List.all_eq_true.mp hall i h

theorem takeWhile_append_sweep : F.list.takeWhile F.gone ++ F.sweep.list = F.list := List.takeWhile_append_dropWhile

theorem mem_sweep (h : i ∈ F.list) (hg : ¬F.gone i) : i ∈ F.sweep.list := by
  rw [← takeWhile_append_sweep] at h
  rcases List.mem_append.mp h with h | h
  · exact absurd (gone_of_mem_takeWhile h) hg
  · exact h

theorem mem_of_mem_sweep (h : i ∈ F.sweep.list) : i ∈ F.list := (List.dropWhile_sublist _).subset h

theorem getLast?_sweep (hne : F.sweep.list ≠ []) : F.sweep.list.getLast? = F.list.getLast? := by
  conv_rhs => rw [← takeWhile_append_sweep, List.getLast?_append_of_ne_nil _ hne]

theorem sweep_getLast? (h : F.list.getLast? = some x) (hg : ¬F.gone x) : F.sweep.list.getLast? = some x := by
  rw [getLast?_sweep (List.ne_nil_of_mem (mem_sweep (List.mem_of_getLast? h) hg)), h]

theorem getLast?_of_sweep (h : F.sweep.list.getLast? = some x) : F.list.getLast? = some x := by
  have hne : F.sweep.list ≠ [] := fun e => by
    rw [e] at h
    cases h
  rw [← getLast?_sweep hne, h]

theorem sweep_eq_self (h : ∀ a ∈ F.list.head?, ¬F.gone a) : F.sweep = F := by
  have htake : F.list.takeWhile F.gone = [] := by
    cases hl : F.list with
    | nil => rfl
    | cons a l => exact List.takeWhile_cons_of_neg (h a (by rw [hl]; rfl))
  have hdrop := F.takeWhile_append_sweep
  rw [htake, List.nil_append] at hdrop
  refine Fifo.ext rfl (funext fun i => ?_) rfl hdrop rfl
  exact release_of_notMem (by simp [htake])

theorem sweep_pop {a : Nat} {l : List Nat} (hl : F.list = a :: l) (hg : F.gone a) (hd : F.list.Nodup) :
    F.pop.sweep = F.sweep := by
  have ha : a ∉ l := by
    rw [hl] at hd
    exact (List.nodup_cons.mp hd).1
  -- Popping `a` leaves the cells behind it as they are.
  have hgone : ∀ i ∈ l, F.pop.gone i = F.gone i := fun i hi => by
    have hia : i ∉ F.list.take 1 := by
      rw [hl]
      simpa using fun e : i = a => ha (e ▸ hi)
    simp only [gone, pop, release_of_notMem hia]
  obtain ⟨htake, hdrop⟩ := span_congr hgone
  have hpop : F.pop.list = l := by rw [pop_list, hl, List.tail_cons]
  refine Fifo.ext rfl (funext fun i => ?_) rfl ?_ rfl
  · simp only [sweep, hpop, htake, hl, List.takeWhile_cons_of_pos hg]
    simp only [release, pop, hl, List.take_succ_cons, List.take_zero, List.mem_cons]
    by_cases hia : i = a <;> by_cases hil : i ∈ l.takeWhile F.gone <;> simp [hia, hil]
  · rw [sweep_list, sweep_list, hpop, hdrop, hl, List.dropWhile_cons_of_pos hg]

end Fifo

/-- An item without its list pointers. -/
def DatafifoItem.unlinked (it : DatafifoItem P) : DatafifoItem P := { it with next := none, prev := none }

namespace Datafifo

/-- The items on the list, from `listhead` on. -/
def list (df : Datafifo P C) : List Nat :=
  LinkedList.walk (fun i => (df.items i).next) df.itemCnt df.listhead

/-- `l` is the list of the FIFO: a well-formed doubly linked list of items of the pool. -/
structure Rep (df : Datafifo P C) (l : List Nat) : Prop where
  linked : LinkedList.Linked (fun i => (df.items i).next) (fun i => (df.items i).prev) df.listhead df.listtail l
  pool : ∀ i ∈ l, i < df.itemCnt

/-- The list of the FIFO is well formed, and an item that is in use but not on it has null pointers. -/
structure Wf (df : Datafifo P C) : Prop where
  rep : df.Rep df.list
  fresh : ∀ i, i ∉ df.list → (df.items i).status ≠ .init → (df.items i).next = none ∧ (df.items i).prev = none

/-- The view of a FIFO as a queue of cells. -/
def abs (df : Datafifo P C) : Fifo P C where
  dataMaxlen := df.dataMaxlen
  cells := fun i => (df.items i).unlinked
  itemCnt := df.itemCnt
  list := df.list
  consumers := df.consumers

variable {df : Datafifo P C} {l : List Nat} {i x : Nat} {f : DatafifoItem P → DatafifoItem P}

namespace Rep

theorem length_le (h : df.Rep l) : l.length ≤ df.itemCnt := by
  have hsub : l ⊆ List.range df.itemCnt := fun i hi => List.mem_range.mpr (h.pool i hi)
  simpa using (List.Nodup.subperm h.linked.nodup hsub).length_le

theorem list_eq (h : df.Rep l) : df.list = l := h.linked.path.walk_eq h.length_le

theorem listhead (h : df.Rep l) : df.listhead = l.head? := h.linked.head_eq

theorem listtail (h : df.Rep l) : df.listtail = l.getLast? := h.linked.last

/-- An update that keeps the pointers of the items on the list. -/
theorem setItem (h : df.Rep l) (hn : i ∈ l → (f (df.items i)).next = (df.items i).next)
    (hp : i ∈ l → (f (df.items i)).prev = (df.items i).prev) : (df.setItem i f).Rep l := by
  refine ⟨h.linked.congr (fun j hj => ?_) (fun j hj => ?_), h.pool⟩
  · rw [setItem_items]
    split
    · next e => subst e; exact hn hj
    · rfl
  · rw [setItem_items]
    split
    · next e => subst e; exact hp hj
    · rfl

theorem addtail (h : df.Rep l) (hx : x ∉ l) (hc : x < df.itemCnt) (hn : (df.items x).next = none)
    (hp : (df.items x).prev = none) :
    ∃ df', datafifoListAddtail df x = some df' ∧ df'.Rep (l ++ [x]) ∧
      (∀ i, (df'.items i).unlinked = (df.items i).unlinked) ∧ (∀ i, i ∉ l → i ≠ x → df'.items i = df.items i) ∧
      df'.dataMaxlen = df.dataMaxlen ∧ df'.itemCnt = df.itemCnt ∧ df'.consumers = df.consumers := by
  have hh := h.listhead
  have ht := h.listtail
  cases hl : l with
  | nil =>
    subst hl
    simp only [List.head?_nil] at hh
    simp only [datafifoListAddtail, hh]
    refine ⟨_, rfl, ⟨LinkedList.Linked.single hn hp, fun i hi => ?_⟩, fun i => rfl, fun _ _ _ => rfl, rfl, rfl, rfl⟩
    rw [List.mem_singleton.mp hi]
    exact hc
  | cons a l₀ =>
    obtain ⟨t, htl⟩ : ∃ t, l.getLast? = some t := by
      rw [hl]
      exact ⟨_, List.getLast?_eq_some_getLast (by simp)⟩
    rw [← hl]
    have htm : t ∈ l := List.mem_of_getLast? htl
    have htx : t ≠ x := fun e => hx (e ▸ htm)
    rw [htl] at ht
    simp only [hl, List.head?_cons] at hh
    simp only [datafifoListAddtail, hh, ht]
    refine ⟨_, rfl, ⟨?_, fun i hi => ?_⟩, fun i => ?_, fun i hi hix => ?_, rfl, rfl, rfl⟩
    · have hlk := h.linked
      rw [ht] at hlk
      refine (hlk.append hx hn).congr (fun j _ => ?_) (fun j _ => ?_)
      · simp only [setItem_items, Function.update_apply]
        by_cases hjx : j = x
        · subst hjx
          simp [Ne.symm htx]
        · by_cases hjt : j = t <;> simp [hjx, hjt, htx]
      · simp only [setItem_items, Function.update_apply]
        by_cases hjx : j = x
        · subst hjx
          simp
        · by_cases hjt : j = t <;> simp [hjx, hjt, htx]
    · rcases List.mem_append.mp hi with hi | hi
      · exact h.pool i hi
      · rw [List.mem_singleton.mp hi]
        exact hc
    · simp only [setItem_items, DatafifoItem.unlinked]
      by_cases hix : i = x
      · subst hix
        simp [Ne.symm htx]
      · by_cases hit : i = t
        · subst hit
          simp [hix]
        · simp [hix, hit]
    · have hit : i ≠ t := fun e => hi (e ▸ htm)
      simp [setItem_items, hix, hit]

theorem removeHead {a : Nat} (h : df.Rep (a :: l)) :
    ∃ df', datafifoRemoveHeadInternalReqlock df = some df' ∧ df'.Rep l ∧
      (df'.items a).unlinked = { df.items a with status := .init }.unlinked ∧
      (∀ i, i ≠ a → (df'.items i).unlinked = (df.items i).unlinked) ∧ (∀ i, i ∉ a :: l → df'.items i = df.items i) ∧
      df'.dataMaxlen = df.dataMaxlen ∧ df'.itemCnt = df.itemCnt ∧ df'.consumers = df.consumers := by
  have hh := h.listhead
  have ht := h.listtail
  simp only [List.head?_cons] at hh
  have hnd := List.nodup_cons.mp h.linked.nodup
  have hpool : ∀ i ∈ l, i < df.itemCnt := fun i hi => h.pool i (List.mem_cons_of_mem _ hi)
  cases l with
  | nil =>
    have hn : (df.items a).next = none := h.linked.tail_nil
    simp only [datafifoRemoveHeadInternalReqlock, hh, hn]
    refine ⟨_, rfl, ⟨⟨rfl, trivial, rfl, List.nodup_nil⟩, hpool⟩, ?_, fun i hi => ?_, fun i hi => ?_, rfl, rfl, rfl⟩
    · simp [hn]
    · simp [setItem_items, hi]
    · have hia : i ≠ a := fun e => hi (e ▸ List.mem_cons_self ..)
      simp [setItem_items, hia]
  | cons b l =>
    obtain ⟨hn, hlk⟩ := h.linked.tail_cons
    have hba : b ≠ a := fun e => hnd.1 (e ▸ List.mem_cons_self ..)
    simp only [datafifoRemoveHeadInternalReqlock, hh, hn]
    refine ⟨_, rfl, ⟨?_, hpool⟩, ?_, fun i hi => ?_, fun i hi => ?_, rfl, rfl, rfl⟩
    · refine hlk.congr (fun j hj => ?_) (fun j hj => ?_)
      · have hja : j ≠ a := fun e => hnd.1 (e ▸ hj)
        by_cases hjb : j = b <;> simp [setItem_items, hja, hjb, hba]
      · have hja : j ≠ a := fun e => hnd.1 (e ▸ hj)
        by_cases hjb : j = b
        · subst hjb
          simp [setItem_items, hja]
        · simp [setItem_items, hja, hjb]
    · simp [setItem_items, DatafifoItem.unlinked, Ne.symm hba]
    · by_cases hib : i = b
      · subst hib
        simp [setItem_items, hi, DatafifoItem.unlinked]
      · simp [setItem_items, hi, hib]
    · have hia : i ≠ a := fun e => hi (e ▸ List.mem_cons_self ..)
      have hib : i ≠ b := fun e => hi (e ▸ List.mem_cons_of_mem _ (List.mem_cons_self ..))
      simp [setItem_items, hia, hib]

end Rep

/-! ### The operations on the view -/

section
variable (df) (i)

@[simp] theorem abs_dataMaxlen : df.abs.dataMaxlen = df.dataMaxlen := rfl
@[simp] theorem abs_itemCnt : df.abs.itemCnt = df.itemCnt := rfl
@[simp] theorem abs_list : df.abs.list = df.list := rfl
@[simp] theorem abs_consumers : df.abs.consumers = df.consumers := rfl
@[simp] theorem abs_status : (df.abs.cells i).status = (df.items i).status := rfl
@[simp] theorem abs_refcnt : (df.abs.cells i).refcnt = (df.items i).refcnt := rfl
@[simp] theorem abs_ref : (df.abs.cells i).ref = (df.items i).ref := rfl
@[simp] theorem abs_data : (df.abs.cells i).data = (df.items i).data := rfl
@[simp] theorem abs_len : (df.abs.cells i).len = (df.items i).len := rfl
@[simp] theorem abs_flags : (df.abs.cells i).flags = (df.items i).flags := rfl
@[simp] theorem abs_timestamp : (df.abs.cells i).timestamp = (df.items i).timestamp := rfl

end

theorem abs_eq {F : Fifo P C} (hm : df.dataMaxlen = F.dataMaxlen) (hc : ∀ i, (df.items i).unlinked = F.cells i)
    (hk : df.itemCnt = F.itemCnt) (hl : df.list = F.list) (hs : df.consumers = F.consumers) : df.abs = F := by
  obtain ⟨m, cells, k, list, con⟩ := F
  simp only [abs, Fifo.mk.injEq]
  exact ⟨hm, funext hc, hk, hl, hs⟩

theorem abs_setItem (hl : (df.setItem i f).list = df.list) (hf : ∀ it, (f it).unlinked = f it.unlinked) :
    (df.setItem i f).abs = df.abs.set i f := by
  refine abs_eq rfl (fun j => ?_) rfl hl rfl
  rw [setItem_items, Fifo.set_cells]
  split
  · exact hf _
  · rfl

namespace Wf

theorem init (size cnt : Nat) : (datafifoInit size cnt : Datafifo P C).Wf := by
  have h : (datafifoInit size cnt : Datafifo P C).Rep [] := ⟨LinkedList.Linked.nil, fun _ hi => by cases hi⟩
  exact ⟨h.list_eq ▸ h, fun _ _ hi => absurd rfl hi⟩

theorem nodup (h : df.Wf) : df.list.Nodup := h.rep.linked.nodup

theorem listhead (h : df.Wf) : df.listhead = df.list.head? := h.rep.listhead

theorem listtail (h : df.Wf) : df.listtail = df.list.getLast? := h.rep.listtail

/-- An assignment to a field of an item in use that is not a list pointer. -/
theorem setItem (h : df.Wf) (hi : (df.items i).status ≠ .init) (hn : (f (df.items i)).next = (df.items i).next)
    (hp : (f (df.items i)).prev = (df.items i).prev) (hf : ∀ it, (f it).unlinked = f it.unlinked) :
    (df.setItem i f).Wf ∧ (df.setItem i f).abs = df.abs.set i f := by
  have hr : (df.setItem i f).Rep df.list := h.rep.setItem (fun _ => hn) (fun _ => hp)
  refine ⟨⟨hr.list_eq ▸ hr, fun j hj hs => ?_⟩, abs_setItem hr.list_eq hf⟩
  rw [hr.list_eq] at hj
  by_cases hji : j = i
  · subst hji
    rw [setItem_items_self, hn, hp]
    exact h.fresh j hj hi
  · rw [setItem_items_of_ne _ _ hji] at hs ⊢
    exact h.fresh j hj hs

/-- An assignment that sets both list pointers of an item off the list to null. -/
theorem setFresh (h : df.Wf) (hi : i ∉ df.list) (hn : (f (df.items i)).next = none)
    (hp : (f (df.items i)).prev = none) (hf : ∀ it, (f it).unlinked = f it.unlinked) :
    (df.setItem i f).Wf ∧ (df.setItem i f).abs = df.abs.set i f := by
  have hr : (df.setItem i f).Rep df.list := h.rep.setItem (fun e => absurd e hi) (fun e => absurd e hi)
  refine ⟨⟨hr.list_eq ▸ hr, fun j hj hs => ?_⟩, abs_setItem hr.list_eq hf⟩
  rw [hr.list_eq] at hj
  by_cases hji : j = i
  · subst hji
    rw [setItem_items_self]
    exact ⟨hn, hp⟩
  · rw [setItem_items_of_ne _ _ hji] at hs ⊢
    exact h.fresh j hj hs

theorem addtail (h : df.Wf) (hx : x ∉ df.list) (hc : x < df.itemCnt) (hs : (df.items x).status ≠ .init) :
    ∃ df', datafifoListAddtail df x = some df' ∧ df'.Wf ∧ df'.abs = df.abs.push x := by
  obtain ⟨hn, hp⟩ := h.fresh x hx hs
  obtain ⟨df', he, hr, hcell, hoff, hm, hk, hcon⟩ := h.rep.addtail hx hc hn hp
  refine ⟨df', he, ⟨hr.list_eq ▸ hr, fun j hj hs => ?_⟩, abs_eq hm hcell hk hr.list_eq hcon⟩
  rw [hr.list_eq] at hj
  simp only [List.mem_append, List.mem_singleton, not_or] at hj
  rw [hoff j hj.1 hj.2] at hs ⊢
  exact h.fresh j hj.1 hs

theorem removeHead {a : Nat} (h : df.Wf) (hl : df.list = a :: l) :
    ∃ df', datafifoRemoveHeadInternalReqlock df = some df' ∧ df'.Wf ∧ df'.abs = df.abs.pop := by
  have hrep := h.rep
  rw [hl] at hrep
  obtain ⟨df', he, hr, ha, hcell, hoff, hm, hk, hcon⟩ := hrep.removeHead
  refine ⟨df', he, ⟨hr.list_eq ▸ hr, fun j hj hs => ?_⟩, abs_eq hm (fun i => ?_) hk ?_ hcon⟩
  · rw [hr.list_eq] at hj
    by_cases hja : j = a
    · subst hja
      exact absurd (congrArg DatafifoItem.status ha) hs
    · have hjl : j ∉ a :: l := fun e => (List.mem_cons.mp e).elim hja hj
      rw [hoff j hjl] at hs ⊢
      exact h.fresh j (hl ▸ hjl) hs
  · simp only [Fifo.pop, Fifo.release, abs_list, hl, List.take_succ_cons, List.take_zero, List.mem_singleton]
    by_cases hia : i = a
    · subst hia
      rw [if_pos rfl]
      exact ha
    · rw [if_neg hia]
      exact hcell i hia
  · rw [hr.list_eq, Fifo.pop_list, abs_list, hl, List.tail_cons]

/-- The loop takes off the items at the front that are gone, whatever fuel is left beyond their number. -/
theorem removeCheckLoop {n : Nat} (h : df.Wf) (hn : df.list.length ≤ n) :
    ∃ df', removeCheckLoop n df = some df' ∧ df'.Wf ∧ df'.abs = df.abs.sweep := by
  -- Induction on the list: the fuel runs along with it.
  induction hl : df.list generalizing df n with
  | nil =>
    have hh := h.listhead
    rw [hl] at hh
    refine ⟨df, ?_, h, (Fifo.sweep_eq_self ?_).symm⟩
    · cases n with
      | zero => rfl
      | succ n => simp [Datafifo.removeCheckLoop, hh]
    · simp [hl]
  | cons a l ih =>
    obtain ⟨m, rfl⟩ : ∃ m, n = m + 1 := ⟨n - 1, by simp only [hl, List.length_cons] at hn; omega⟩
    have hh := h.listhead
    rw [hl, List.head?_cons] at hh
    simp only [Datafifo.removeCheckLoop, hh]
    by_cases hg : (df.items a).status = .doing ∧ (df.items a).refcnt = 0
    · obtain ⟨df₁, he, hw, habs⟩ := h.removeHead hl
      have hl₁ : df₁.list = l := by
        have := congrArg Fifo.list habs
        simpa [hl] using this
      obtain ⟨df', he', hw', habs'⟩ := ih hw (n := m) (by rw [hl₁]; simpa [hl] using hn) hl₁
      refine ⟨df', ?_, hw', ?_⟩
      · rw [if_pos hg, he]
        exact he'
      · rw [habs', habs, Fifo.sweep_pop hl (Fifo.gone_iff.mpr hg) h.nodup]
    · refine ⟨df, by rw [if_neg hg], h, (Fifo.sweep_eq_self ?_).symm⟩
      rw [abs_list, hl]
      rintro b ⟨⟩
      rw [Fifo.gone_iff]
      exact hg

theorem removeCheck (h : df.Wf) :
    ∃ df', datafifoProducerRemoveCheck df = some df' ∧ df'.Wf ∧ df'.abs = df.abs.sweep :=
  h.removeCheckLoop h.rep.length_le

end Wf
end Datafifo
end Recbcsrv
