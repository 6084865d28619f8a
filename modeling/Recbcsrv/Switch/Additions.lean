import Mathlib.Data.List.Forall2
import Mathlib.Data.List.Induction
import Recbcsrv.Switch.TruthTable

/-! Truth tables that any sequence of additions, sets and resets leads to. A combination is added behind the items that its
    elements are, so that one pass from the first item to the last brings every combination up to date. -/

namespace Recbcsrv
namespace TruthTable

/-! ### What is kept -/

/-- A table that has been built up item by item. -/
structure Built (t : TruthTable) : Prop where
  front : ∃ n, ∀ (i : Nat) (c : CondItem), t.cond[i]? = some c → (c.valid = true ↔ i < n)
  distinct : ∀ (i j : Nat) (c d : CondItem), t.cond[i]? = some c → t.cond[j]? = some d → c.valid = true → d.valid = true →
    c.condIdx = d.condIdx → i = j
  below : ∀ (i : Nat) (c : CondItem), t.cond[i]? = some c → c.combined = true → ∀ j ∈ c.element,
    j < i ∧ ∃ d, t.cond[j]? = some d ∧ d.valid = true
  fresh : ∀ (i : Nat) (c : CondItem), t.cond[i]? = some c → c.valid = false → c.combined = false

section
variable {t t' : TruthTable} {i condIdx : Nat} {value : Bool} {c : CondItem} {element ps : List Nat} {e p : Nat}

theorem findCondition_eq_some (h : t.findCondition condIdx = some i) :
    ∃ c, t.cond[i]? = some c ∧ c.valid = true ∧ c.condIdx = condIdx := by
  obtain ⟨hlt, hp, -⟩ := List.findIdx?_eq_some_iff_getElem.mp h
  rw [Bool.and_eq_true, beq_iff_eq] at hp
  exact ⟨t.cond[i], List.getElem?_eq_getElem hlt, hp⟩

theorem findCondition_eq_none (h : t.findCondition condIdx = none) (hc : t.cond[i]? = some c) (hv : c.valid = true) :
    c.condIdx ≠ condIdx := by
  intro hidx
  have hp := List.findIdx?_eq_none_iff.mp h c (List.mem_of_getElem? hc)
  rw [hv, hidx, beq_self_eq_true] at hp
  cases hp

theorem allocConditionItem_eq_some (h : t.allocConditionItem = some i) : ∃ c, t.cond[i]? = some c ∧ c.valid = false := by
  obtain ⟨hlt, hp, -⟩ := List.findIdx?_eq_some_iff_getElem.mp h
  exact ⟨t.cond[i], List.getElem?_eq_getElem hlt, by simpa using hp⟩

/-- An allocation takes the item behind the valid ones. -/
theorem Built.alloc (h : t.Built) (hi : t.allocConditionItem = some i) :
    ∀ (j : Nat) (c : CondItem), t.cond[j]? = some c → (c.valid = true ↔ j < i) := by
  obtain ⟨n, hn⟩ := h.front
  obtain ⟨hlt, hp, hbefore⟩ := List.findIdx?_eq_some_iff_getElem.mp hi
  have hni : n ≤ i := by
    have hvalid := hn i _ (List.getElem?_eq_getElem hlt)
    simp only [Bool.not_eq_true'] at hp
    rw [hp] at hvalid
    exact Nat.le_of_not_lt fun h => Bool.false_ne_true (hvalid.mpr h)
  have hin : i ≤ n := by
    refine Nat.le_of_not_lt fun hlt' => ?_
    have hvalid := hn n _ (List.getElem?_eq_getElem (Nat.lt_trans hlt' hlt))
    exact Nat.lt_irrefl n (hvalid.mp (by simpa using hbefore n hlt'))
  obtain rfl : n = i := Nat.le_antisymm hni hin
  exact hn

/-- A new item keeps the table built, if its elements are in the table. -/
theorem Built.add {f : CondItem → CondItem} (h : t.Built) (hfind : t.findCondition condIdx = none)
    (hi : t.allocConditionItem = some i) (hf : ∀ c, (f c).valid = true ∧ (f c).condIdx = condIdx)
    (he : ∀ c, (f c).combined = true → ∀ j ∈ (f c).element, ∃ d : CondItem, t.cond[j]? = some d ∧ d.valid = true) :
    (t.modify i f).Built := by
  have hfront := h.alloc hi
  obtain ⟨ci, hci, -⟩ := allocConditionItem_eq_some hi
  -- The items of the new table are the new one and the old ones.
  have hitem : ∀ (j : Nat) (d : CondItem), (t.modify i f).cond[j]? = some d → (j = i ∧ d = f ci) ∨ (j ≠ i ∧ t.cond[j]? = some d) := by
    intro j d hd
    by_cases hj : j = i
    · subst hj
      rw [getElem?_modify_self hci] at hd
      exact Or.inl ⟨rfl, (Option.some.inj hd).symm⟩
    · rw [getElem?_modify_of_ne hj] at hd
      exact Or.inr ⟨hj, hd⟩
  have hvalid : ∀ (j : Nat) (d : CondItem), t.cond[j]? = some d → d.valid = true → (t.modify i f).cond[j]? = some d := by
    intro j d hd hv
    rw [getElem?_modify_of_ne (Nat.ne_of_lt ((hfront j d hd).mp hv)), hd]
  refine ⟨⟨i + 1, ?_⟩, ?_, ?_, ?_⟩
  · intro j d hd
    rcases hitem j d hd with ⟨rfl, rfl⟩ | ⟨hj, hold⟩
    · exact iff_of_true (hf ci).1 (Nat.lt_succ_self j)
    · rw [hfront j d hold]
      omega
  · intro j k d d' hd hd' hv hv' hidx
    rcases hitem j d hd with ⟨rfl, rfl⟩ | ⟨hj, hold⟩
    · rcases hitem k d' hd' with ⟨rfl, rfl⟩ | ⟨hk, hold'⟩
      · rfl
      · rw [(hf ci).2] at hidx
        exact absurd hidx.symm (findCondition_eq_none hfind hold' hv')
    · rcases hitem k d' hd' with ⟨rfl, rfl⟩ | ⟨hk, hold'⟩
      · rw [(hf ci).2] at hidx
        exact absurd hidx (findCondition_eq_none hfind hold hv)
      · exact h.distinct j k d d' hold hold' hv hv' hidx
  · intro j d hd hcomb k hk
    rcases hitem j d hd with ⟨rfl, rfl⟩ | ⟨hj, hold⟩
    · obtain ⟨d', hd', hv'⟩ := he ci hcomb k hk
      exact ⟨(hfront k d' hd').mp hv', d', hvalid k d' hd' hv', hv'⟩
    · obtain ⟨hlt, d', hd', hv'⟩ := h.below j d hold hcomb k hk
      exact ⟨hlt, d', hvalid k d' hd' hv', hv'⟩
  · intro j d hd hv
    rcases hitem j d hd with ⟨rfl, rfl⟩ | ⟨hj, hold⟩
    · rw [(hf ci).1] at hv
      cases hv
    · exact h.fresh j d hold hv

theorem Built.addElementCondition (h : t.Built) : (t.addElementCondition condIdx).Built := by
  unfold TruthTable.addElementCondition
  split
  · exact h
  · next hfind =>
    split
    · exact h
    · next i hi => exact h.add hfind hi (fun c => ⟨rfl, rfl⟩) fun c hcomb => by cases hcomb

/-- The elements of a combination are the items at which its list has been found. -/
theorem forall₂_of_mapM (h : (element.mapM fun e => t.findCondition e) = some ps) :
    List.Forall₂ (fun e p => t.findCondition e = some p) element ps := by
  induction element generalizing ps with
  | nil =>
    cases h
    exact .nil
  | cons e element ih =>
    simp only [List.mapM_cons, Option.bind_eq_bind, Option.bind_eq_some_iff] at h
    obtain ⟨q, hq, qs, hqs, hps⟩ := h
    cases hps
    exact .cons hq (ih hqs)

theorem mem_of_mapM (h : (element.mapM fun e => t.findCondition e) = some ps) (hp : p ∈ ps) :
    ∃ d, t.cond[p]? = some d ∧ d.valid = true := by
  have hfound := forall₂_of_mapM h
  clear h
  induction hfound with
  | nil => cases hp
  | cons hq _ ih =>
    rcases List.mem_cons.mp hp with rfl | hp
    · obtain ⟨d, hd, hv, -⟩ := findCondition_eq_some hq
      exact ⟨d, hd, hv⟩
    · exact ih hp

theorem Built.addCombinationCondition (h : t.Built) : (t.addCombinationCondition condIdx element).Built := by
  unfold TruthTable.addCombinationCondition
  split
  · exact h
  · next hfind =>
    split
    · exact h
    · next ps hps =>
      split
      · exact h
      · next i hi => exact h.add hfind hi (fun c => ⟨rfl, rfl⟩) fun c _ j hj => mem_of_mapM hps hj

theorem Built.of_shape (h : t.Built) (hs : t.shape = t'.shape) : t'.Built := by
  have hitem : ∀ (i : Nat) (c : CondItem), t'.cond[i]? = some c → ∃ c', t.cond[i]? = some c' ∧
      c'.valid = c.valid ∧ c'.condIdx = c.condIdx ∧ c'.combined = c.combined ∧ c'.element = c.element := by
    intro i c hc
    obtain ⟨c', hc', he⟩ := getElem?_of_shape hs.symm hc
    exact ⟨c', hc', by rw [← he], by rw [← he], by rw [← he], by rw [← he]⟩
  obtain ⟨n, hn⟩ := h.front
  refine ⟨⟨n, ?_⟩, ?_, ?_, ?_⟩
  · intro i c hc
    obtain ⟨c', hc', hv, -⟩ := hitem i c hc
    rw [← hv]
    exact hn i c' hc'
  · intro i j c d hc hd hv hv' hidx
    obtain ⟨c', hc', hcv, hcidx, -⟩ := hitem i c hc
    obtain ⟨d', hd', hdv, hdidx, -⟩ := hitem j d hd
    exact h.distinct i j c' d' hc' hd' (hcv.trans hv) (hdv.trans hv') (hcidx.trans (hidx.trans hdidx.symm))
  · intro i c hc hcomb j hj
    obtain ⟨c', hc', -, -, hcomb', helem⟩ := hitem i c hc
    obtain ⟨hlt, d, hd, hv⟩ := h.below i c' hc' (hcomb'.trans hcomb) j (helem ▸ hj)
    obtain ⟨d', hd', he⟩ := getElem?_of_shape hs hd
    exact ⟨hlt, d', hd', by rw [← he]; exact hv⟩
  · intro i c hc hv
    obtain ⟨c', hc', hv', -, hcomb', -⟩ := hitem i c hc
    rw [← hcomb']
    exact h.fresh i c' hc' (hv'.trans hv)

theorem Built.ordered (h : t.Built) : t.Ordered := fun i c hc hcomb j hj => (h.below i c hc hcomb j hj).1

theorem built_init (n : Nat) : (truthTableInit n).Built := by
  have hzero : ∀ (i : Nat) (c : CondItem), (truthTableInit n).cond[i]? = some c → c = .zero := fun i c hc =>
    List.eq_of_mem_replicate (List.mem_of_getElem? hc)
  refine ⟨⟨0, ?_⟩, ?_, ?_, ?_⟩
  · intro i c hc
    rw [hzero i c hc]
    simp [CondItem.zero]
  · intro i j c d hc hd hv
    rw [hzero i c hc] at hv
    cases hv
  · intro i c hc hcomb
    rw [hzero i c hc] at hcomb
    cases hcomb
  · intro i c hc hv
    rw [hzero i c hc]
    rfl

end

/-! ### Sequences of calls -/

/-- A call that changes the table. -/
inductive Change where
  | addElement (condIdx : Nat)
  | addCombination (condIdx : Nat) (element : List Nat)
  | set (condIdx : Nat)
  | reset (condIdx : Nat)
  deriving DecidableEq, Repr

def change (t : TruthTable) : Change → TruthTable
  | .addElement condIdx => t.addElementCondition condIdx
  | .addCombination condIdx element => t.addCombinationCondition condIdx element
  | .set condIdx => (t.elementConditionSet condIdx).2
  | .reset condIdx => (t.elementConditionReset condIdx).2

/-- The call gives a condition a value. -/
def Change.assigns : Change → Bool
  | .set _ | .reset _ => true
  | .addElement _ | .addCombination _ _ => false

/-- One of the calls adds the combination, and its elements are the items that the table has for the conditions in the list of
    that call. -/
def Added (t : TruthTable) (changes : List Change) (c : CondItem) : Prop :=
  ∃ element, Change.addCombination c.condIdx element ∈ changes ∧
    List.Forall₂ (fun e p => t.findCondition e = some p) element c.element

/-- The element condition at `k` is the item at `i` or one that it is built on. -/
inductive Under (t : TruthTable) : Nat → Nat → Prop
  | element {i : Nat} {c : CondItem} (item : t.cond[i]? = some c) (element : c.combined = false) : Under t i i
  | combined {i j k : Nat} {c : CondItem} (item : t.cond[i]? = some c) (combined : c.combined = true) (mem : j ∈ c.element)
    (rest : Under t j k) : Under t i k

section
variable {t : TruthTable} {ch : Change} {i : Nat} {c : CondItem}

theorem Built.change (h : t.Built) : (t.change ch).Built := by
  cases ch with
  | addElement condIdx => exact h.addElementCondition
  | addCombination condIdx element => exact h.addCombinationCondition
  | set condIdx => exact h.of_shape shape_elementConditionAssign.symm
  | reset condIdx => exact h.of_shape shape_elementConditionAssign.symm

/-- A call changes values only, or makes an item of one that is not in use. -/
theorem change_cases (t : TruthTable) (ch : Change) : (t.change ch).shape = t.shape ∨
    ∃ i f, t.allocConditionItem = some i ∧ t.change ch = t.modify i f ∧
      ∀ c, (f c).combined = true → t.Added [ch] (f c) := by
  cases ch with
  | addElement condIdx =>
    simp only [TruthTable.change, addElementCondition]
    split
    · exact Or.inl rfl
    · split
      · exact Or.inl rfl
      · next i hi => exact Or.inr ⟨i, _, hi, rfl, fun c hcomb => by cases hcomb⟩
  | addCombination condIdx element =>
    simp only [TruthTable.change, addCombinationCondition]
    split
    · exact Or.inl rfl
    · split
      · exact Or.inl rfl
      · next ps hps =>
        split
        · exact Or.inl rfl
        · next i hi => exact Or.inr ⟨i, _, hi, rfl, fun c _ => ⟨element, List.mem_singleton_self _, forall₂_of_mapM hps⟩⟩
  | set condIdx => exact Or.inl shape_elementConditionAssign
  | reset condIdx => exact Or.inl shape_elementConditionAssign

/-- A condition is found at the valid item with its index. -/
theorem Built.findCondition_iff (h : t.Built) {condIdx : Nat} : t.findCondition condIdx = some i ↔
    ∃ c, t.cond[i]? = some c ∧ c.valid = true ∧ c.condIdx = condIdx := by
  refine ⟨findCondition_eq_some, ?_⟩
  rintro ⟨c, hc, hv, hidx⟩
  cases hf : t.findCondition condIdx with
  | none => exact absurd hidx (findCondition_eq_none hf hc hv)
  | some j =>
    obtain ⟨d, hd, hdv, hdidx⟩ := findCondition_eq_some hf
    rw [h.distinct i j c d hc hd hv hdv (hidx.trans hdidx.symm)]

/-- A condition stays where it is. -/
theorem Built.findCondition_change (h : t.Built) {condIdx : Nat} (hf : t.findCondition condIdx = some i) :
    (t.change ch).findCondition condIdx = some i := by
  rcases t.change_cases ch with hshape | ⟨j, f, hj, hmod, -⟩
  · rw [findCondition_of_shape hshape, hf]
  · obtain ⟨c, hc, hv, hidx⟩ := findCondition_eq_some hf
    have hne : i ≠ j := Nat.ne_of_lt ((h.alloc hj i c hc).mp hv)
    refine h.change.findCondition_iff.mpr ⟨c, ?_, hv, hidx⟩
    rw [hmod, getElem?_modify_of_ne hne, hc]

theorem Added.change {changes changes' : List Change} (h : t.Added changes c) (ht : t.Built) (hsub : changes ⊆ changes') :
    (t.change ch).Added changes' c := by
  obtain ⟨element, hmem, hfound⟩ := h
  exact ⟨element, hsub hmem, hfound.imp fun _ _ => ht.findCondition_change⟩

theorem Built.foldl (h : t.Built) (changes : List Change) : (changes.foldl TruthTable.change t).Built := by
  induction changes generalizing t with
  | nil => exact h
  | cons ch changes ih => exact ih h.change

theorem Built.consistent (h : t.Built) (hch : ch.assigns = true) : (t.change ch).Consistent := by
  cases ch with
  | addElement | addCombination => cases hch
  | set condIdx => exact consistent_elementConditionAssign h.ordered
  | reset condIdx => exact consistent_elementConditionAssign h.ordered

/-- In a table that is up to date, an item holds when the element conditions that it is built on do. -/
theorem Consistent.valueAt_iff (ht : t.Consistent) (h : t.Built) (hc : t.cond[i]? = some c) (hv : c.valid = true) :
    t.valueAt i = true ↔ ∀ k, t.Under i k → t.valueAt k = true := by
  -- The elements of an item come before it.
  induction i using Nat.strongRecOn generalizing c with
  | ind i ih =>
    cases hcomb : c.combined with
    | false =>
      constructor
      · intro hval k hk
        cases hk with
        | element => exact hval
        | combined hc' hcomb' =>
          obtain rfl := Option.some.inj (hc.symm.trans hc')
          rw [hcomb] at hcomb'
          cases hcomb'
      · exact fun hall => hall i (.element hc hcomb)
    | true =>
      rw [valueAt_eq hc, ht i c hc hv hcomb, List.all_eq_true]
      constructor
      · intro hall k hk
        cases hk with
        | element hc' hcomb' =>
          obtain rfl := Option.some.inj (hc.symm.trans hc')
          rw [hcomb] at hcomb'
          cases hcomb'
        | combined hc' hcomb' hmem hrest =>
          obtain rfl := Option.some.inj (hc.symm.trans hc')
          obtain ⟨hlt, d, hd, hdv⟩ := h.below i c hc hcomb _ hmem
          exact (ih _ hlt hd hdv).mp (hall _ hmem) k hrest
      · intro hall j hj
        obtain ⟨hlt, d, hd, hdv⟩ := h.below i c hc hcomb j hj
        exact (ih j hlt hd hdv).mpr fun k hk => hall k (.combined hc hcomb hj hk)

/-- The table after a sequence of calls. -/
def after (n : Nat) (changes : List Change) : TruthTable := changes.foldl change (truthTableInit n)

theorem built_after (n : Nat) (changes : List Change) : (after n changes).Built := (built_init n).foldl changes

theorem after_append (n : Nat) (changes : List Change) (ch : Change) : after n (changes ++ [ch]) = (after n changes).change ch := by
  rw [after, List.foldl_append]
  rfl

/-- Every combination has been added by one of the calls, and its elements are the items of the conditions in the list
    of that call. -/
theorem combined_added (n : Nat) (changes : List Change) (hc : (after n changes).cond[i]? = some c) (hcomb : c.combined = true) :
    (after n changes).Added changes c := by
  induction changes using List.reverseRecOn generalizing i c with
  | nil =>
    rw [List.eq_of_mem_replicate (List.mem_of_getElem? hc)] at hcomb
    cases hcomb
  | append_singleton changes ch ih =>
    have hbuilt := built_after n changes
    have hleft : changes ⊆ changes ++ [ch] := List.subset_append_left ..
    rw [after_append] at hc ⊢
    rcases (after n changes).change_cases ch with hshape | ⟨j, f, hj, hmod, hadds⟩
    · obtain ⟨d, hd, he⟩ := getElem?_of_shape hshape hc
      -- A condition that changes keeps its number and its elements, which is all that `Added` reads.
      rw [← he] at hd
      have hadded : (after n changes).Added changes { c with value := d.value } := ih hd hcomb
      exact Added.change (c := c) hadded hbuilt hleft
    · rw [hmod] at hc
      by_cases hij : i = j
      · subst hij
        obtain ⟨d, hd, -⟩ := allocConditionItem_eq_some hj
        rw [getElem?_modify_self hd] at hc
        obtain rfl := Option.some.inj hc
        exact (hadds d hcomb).change hbuilt (List.subset_append_right ..)
      · rw [getElem?_modify_of_ne hij] at hc
        exact (ih hc hcomb).change hbuilt hleft

/-- After every sequence of calls, the valid items come first, no two of them have the same index, and combinations come after
    their elements; right after a set or reset, the value of a combination is the conjunction of the values of its elements,
    and of the element conditions below it. -/
theorem combinations_conjunctions (n : Nat) (changes : List Change) :
    (after n changes).Built ∧
    ∀ ch : Change, ch.assigns = true → ∀ (i : Nat) (c : CondItem), (after n (changes ++ [ch])).cond[i]? = some c →
      c.valid = true → c.combined = true →
      c.value = c.element.all (after n (changes ++ [ch])).valueAt ∧
      (c.value = true ↔ ∀ k, (after n (changes ++ [ch])).Under i k → (after n (changes ++ [ch])).valueAt k = true) := by
  have hbuilt := built_after n changes
  refine ⟨hbuilt, fun ch hch i c hc hv hcomb => ?_⟩
  rw [after_append] at hc ⊢
  have hcons := hbuilt.consistent hch
  refine ⟨hcons i c hc hv hcomb, ?_⟩
  rw [← valueAt_eq hc]
  exact hcons.valueAt_iff hbuilt.change hc hv

/-- A combination of a combination; the addition with an element that is not in the table fails. -/
example : (after 4 [.addElement 7, .addElement 8, .addCombination 10 [7, 8], .addCombination 11 [9], .addCombination 12 [10, 7],
    .set 7, .set 8]).cond.map (fun c => (c.condIdx, c.value, c.element)) =
    [(7, true, []), (8, true, []), (10, true, [0, 1]), (12, true, [2, 0])] := by
  decide

end

end TruthTable
end Recbcsrv
