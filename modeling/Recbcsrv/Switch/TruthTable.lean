import Mathlib.Data.List.Basic

/-! The truth table of `thread_SwitchTracking`: conditions that are set and reset, and combinations of them
    whose value is brought up to date after every change. A pointer to a condition is its position. -/

namespace Recbcsrv

/-- `t_cond_item`; `value` is 0 or 1, `num_of_combined_element` is the length of `element`. -/
structure CondItem where
  valid : Bool
  condIdx : Nat
  value : Bool
  combined : Bool
  element : List Nat
  deriving DecidableEq, Repr

/-- `t_truth_table`; `item_num` is the length of `cond`. -/
structure TruthTable where
  cond : List CondItem
  deriving DecidableEq, Repr

/-- An item as `memset` leaves it. -/
def CondItem.zero : CondItem := ⟨false, 0, false, false, []⟩

def truthTableInit (itemNum : Nat) : TruthTable := ⟨List.replicate itemNum .zero⟩

namespace TruthTable

/-- `truth_table_find_condition`. -/
def findCondition (condIdx : Nat) (t : TruthTable) : Option Nat :=
  t.cond.findIdx? fun c => c.valid && c.condIdx == condIdx

/-- `truth_table_alloc_conditon_item`. -/
def allocConditionItem (t : TruthTable) : Option Nat := t.cond.findIdx? fun c => !c.valid

/-- The item at a position changed by `f`. -/
def modify (t : TruthTable) (i : Nat) (f : CondItem → CondItem) : TruthTable := ⟨t.cond.modify i f⟩

/-- `truth_table_add_element_condition`. -/
def addElementCondition (condIdx : Nat) (t : TruthTable) : TruthTable :=
  match t.findCondition condIdx with
  | some _ => t
  | none =>
    match t.allocConditionItem with
    | none => t
    | some i => t.modify i fun c => { c with condIdx, combined := false, value := false, valid := true }

/-- `truth_table_add_combination_condition`. -/
def addCombinationCondition (condIdx : Nat) (element : List Nat) (t : TruthTable) : TruthTable :=
  match t.findCondition condIdx with
  | some _ => t
  | none =>
    match element.mapM fun e => t.findCondition e with
    | none => t
    | some ps =>
      match t.allocConditionItem with
      | none => t
      | some i => t.modify i fun _ => ⟨true, condIdx, false, true, ps⟩

/-- The value of the item at a position. -/
def valueAt (t : TruthTable) (i : Nat) : Bool := (t.cond[i]?.map CondItem.value).getD false

/-- The body of the loop of `truth_table_update_combination_condition`. -/
def updateItem (t : TruthTable) (i : Nat) : TruthTable :=
  t.modify i fun c => if c.valid && c.combined then { c with value := c.element.all t.valueAt } else c

/-- `truth_table_update_combination_condition`. -/
def updateCombinationCondition (t : TruthTable) : TruthTable := (List.range t.cond.length).foldl updateItem t

/-- The two functions that give an element condition a value: `-1` for one that is not in the table. -/
def elementConditionAssign (value : Bool) (condIdx : Nat) (t : TruthTable) : Int × TruthTable :=
  match t.findCondition condIdx with
  | some i => (0, (t.modify i fun c => { c with value }).updateCombinationCondition)
  | none => (-1, t.updateCombinationCondition)

/-- `truth_table_element_condition_set`. -/
def elementConditionSet (condIdx : Nat) (t : TruthTable) : Int × TruthTable := t.elementConditionAssign true condIdx

/-- `truth_table_element_condition_reset`. -/
def elementConditionReset (condIdx : Nat) (t : TruthTable) : Int × TruthTable := t.elementConditionAssign false condIdx

/-- `truth_table_condition_test`. -/
def conditionTest (condIdx : Nat) (t : TruthTable) : Bool :=
  match t.findCondition condIdx with
  | some i => t.valueAt i
  | none => false

/-! ### What a change does -/

/-- The table without its values. -/
def shape (t : TruthTable) : List CondItem := t.cond.map fun c => { c with value := false }

/-- Every combination comes after its elements. -/
def Ordered (t : TruthTable) : Prop := ∀ (i : Nat) (c : CondItem), t.cond[i]? = some c → c.combined = true → ∀ j ∈ c.element, j < i

/-- The value of every combination is the conjunction of the values of its elements. -/
def Consistent (t : TruthTable) : Prop :=
  ∀ (i : Nat) (c : CondItem), t.cond[i]? = some c → c.valid = true → c.combined = true → c.value = c.element.all t.valueAt

section
variable {t t' : TruthTable} {i j condIdx : Nat} {value : Bool} {c : CondItem}

theorem findCondition_of_shape (h : t.shape = t'.shape) : t.findCondition condIdx = t'.findCondition condIdx := by
  have hfind : ∀ t : TruthTable, t.findCondition condIdx = t.shape.findIdx? fun c => c.valid && c.condIdx == condIdx :=
    fun t => by rw [shape, List.findIdx?_map]; rfl
  rw [hfind, hfind, h]

/-- The items of tables of the same shape differ in their values only. -/
theorem getElem?_of_shape (h : t.shape = t'.shape) (hc : t.cond[i]? = some c) :
    ∃ c', t'.cond[i]? = some c' ∧ { c with value := c'.value } = c' := by
  have hi : t.shape[i]? = t'.shape[i]? := by rw [h]
  rw [shape, shape, List.getElem?_map, List.getElem?_map, hc, Option.map_some] at hi
  obtain ⟨c', hc', he⟩ := Option.map_eq_some_iff.mp hi.symm
  refine ⟨c', hc', ?_⟩
  obtain ⟨v, x, val, co, el⟩ := c
  obtain ⟨v', x', val', co', el'⟩ := c'
  simp only [CondItem.mk.injEq, true_and] at he ⊢
  exact ⟨he.1.symm, he.2.1.symm, he.2.2.1.symm, he.2.2.2.symm⟩

theorem getElem?_modify_self {f : CondItem → CondItem} (hc : t.cond[i]? = some c) :
    (t.modify i f).cond[i]? = some (f c) := by
  simp [modify, hc]

theorem getElem?_modify_of_ne {f : CondItem → CondItem} (h : j ≠ i) : (t.modify i f).cond[j]? = t.cond[j]? := by
  have h' : i ≠ j := h.symm
  simp [modify, h']

theorem shape_modify {f : CondItem → CondItem} (hf : ∀ c, { f c with value := false } = { c with value := false }) :
    (t.modify i f).shape = t.shape := by
  refine List.ext_getElem? fun k => ?_
  rw [shape, shape, List.getElem?_map, List.getElem?_map]
  by_cases e : k = i
  · subst e
    cases hc : t.cond[k]? with
    | none => simp [modify, hc]
    | some c => rw [getElem?_modify_self hc, Option.map_some, Option.map_some, hf]
  · rw [getElem?_modify_of_ne e]

theorem shape_setValue : (t.modify i fun c => { c with value }).shape = t.shape := shape_modify fun _ => rfl

theorem Ordered.of_shape (ho : t.Ordered) (h : t.shape = t'.shape) : t'.Ordered := fun i c hc hcomb j hj => by
  obtain ⟨c', hc', he⟩ := getElem?_of_shape h.symm hc
  rw [← he] at hc'
  exact ho i _ hc' hcomb j hj

theorem shape_updateItem : (t.updateItem i).shape = t.shape :=
  shape_modify fun c => by split <;> rfl

theorem shape_foldl (l : List Nat) : (l.foldl updateItem t).shape = t.shape := by
  induction l generalizing t with
  | nil => rfl
  | cons i l ih => rw [List.foldl_cons, ih, shape_updateItem]

theorem shape_updateCombinationCondition : t.updateCombinationCondition.shape = t.shape := shape_foldl _

theorem shape_elementConditionAssign : (t.elementConditionAssign value condIdx).2.shape = t.shape := by
  unfold elementConditionAssign
  split
  · exact shape_updateCombinationCondition.trans shape_setValue
  · exact shape_updateCombinationCondition

theorem valueAt_modify_of_ne {f : CondItem → CondItem} (h : j ≠ i) : (t.modify i f).valueAt j = t.valueAt j := by
  rw [valueAt, getElem?_modify_of_ne h]
  rfl

theorem valueAt_eq (hc : t.cond[i]? = some c) : t.valueAt i = c.value := by rw [valueAt, hc]; rfl

/-- What the value of an item is after the update. -/
def Settled (t u : TruthTable) (i : Nat) : Prop :=
  ∀ c, t.cond[i]? = some c → u.valueAt i = if c.valid && c.combined then c.element.all u.valueAt else c.value

theorem settled_foldl (ho : t.Ordered) (k : Nat) :
    (∀ i < k, t.Settled ((List.range k).foldl updateItem t) i) ∧
      ∀ i ≥ k, ((List.range k).foldl updateItem t).cond[i]? = t.cond[i]? := by
  induction k with
  | zero => exact ⟨fun i hi => absurd hi (Nat.not_lt_zero i), fun i _ => rfl⟩
  | succ k ih =>
    rw [List.range_succ, List.foldl_append]
    generalize (List.range k).foldl updateItem t = u at ih ⊢
    obtain ⟨hpast, hrest⟩ := ih
    have hsame : ∀ j, j ≠ k → (u.updateItem k).valueAt j = u.valueAt j := fun j hj => valueAt_modify_of_ne hj
    -- An item reads only items before it, which the turn for `k` does not change.
    have hall : ∀ i ≤ k, ∀ c, t.cond[i]? = some c → c.combined = true →
        c.element.all (u.updateItem k).valueAt = c.element.all u.valueAt := fun i hi c hc hcomb => by
      rw [Bool.eq_iff_iff, List.all_eq_true, List.all_eq_true]
      refine forall₂_congr fun j hj => ?_
      rw [hsame j (by have := ho i c hc hcomb j hj; omega)]
    refine ⟨fun i hi c hc => ?_, fun i hi => ?_⟩
    · have hval : (u.updateItem k).valueAt i = if c.valid && c.combined then c.element.all u.valueAt else c.value := by
        by_cases e : i = k
        · subst e
          rw [updateItem, valueAt_eq (getElem?_modify_self ((hrest i (Nat.le_refl i)).trans hc))]
          split <;> rfl
        · rw [hsame i e]
          exact hpast i (by omega) c hc
      rw [List.foldl_cons, List.foldl_nil, hval]
      split
      · next h => rw [hall i (by omega) c hc (by simp at h; exact h.2)]
      · rfl
    · rw [List.foldl_cons, List.foldl_nil, updateItem, getElem?_modify_of_ne (by omega)]
      exact hrest i (by omega)

theorem settled_updateCombinationCondition (ho : t.Ordered) : t.Settled t.updateCombinationCondition i := fun c hc =>
  (settled_foldl ho t.cond.length).1 i (List.getElem?_eq_some_iff.mp hc).1 c hc

theorem consistent_updateCombinationCondition (ho : t.Ordered) : t.updateCombinationCondition.Consistent :=
  fun i c hc hv hcomb => by
    obtain ⟨c', hc', he⟩ := getElem?_of_shape shape_updateCombinationCondition hc
    have hs := settled_updateCombinationCondition ho c' hc'
    rw [valueAt_eq hc, ← he] at hs
    simpa [hv, hcomb] using hs

theorem consistent_elementConditionAssign (ho : t.Ordered) : (t.elementConditionAssign value condIdx).2.Consistent := by
  unfold elementConditionAssign
  split
  · exact consistent_updateCombinationCondition (ho.of_shape shape_setValue.symm)
  · exact consistent_updateCombinationCondition ho

/-- A change of a condition changes it and no other element. -/
theorem valueAt_elementConditionAssign (ho : t.Ordered) (hfind : t.findCondition condIdx = some i)
    (hj : t.cond[j]? = some c) (helem : c.combined = false) :
    (t.elementConditionAssign value condIdx).2.valueAt j = if j = i then value else t.valueAt j := by
  have ho' : (t.modify i fun c => { c with value }).Ordered := ho.of_shape shape_setValue.symm
  simp only [elementConditionAssign, hfind]
  by_cases e : j = i
  · subst e
    have hs := settled_updateCombinationCondition ho' (i := j) _ (getElem?_modify_self hj)
    rw [if_pos rfl, hs]
    simp [helem]
  · have hj' : (t.modify i fun c => { c with value }).cond[j]? = some c := (getElem?_modify_of_ne e).trans hj
    rw [if_neg e, settled_updateCombinationCondition ho' _ hj', valueAt_eq hj]
    simp [helem]

end

end TruthTable

/-! ### The conditions of the thread -/

/-- `e_cond_idx`: the element conditions, and behind them the 36 combinations. -/
def condVgaUnchg : Nat := 0
def condVgaChg : Nat := 1
def condTeacherDetectedNone : Nat := 2
def condTeacherDetectedOne : Nat := 3
def condTeacherDetectedMultiple : Nat := 4
def condStudentStandNone : Nat := 5
def condStudentStandOne : Nat := 6
def condStudentStandMultiple : Nat := 7
def condBoardNotwrite : Nat := 8
def condBoardWrite : Nat := 9

/-- `COND_COMBINATION_1` to `COND_COMBINATION_36`, counted from 0. -/
def condCombination (k : Nat) : Nat := 10 + k

def condMax : Nat := 46

/-- The element conditions in the order in which the thread adds them. -/
def elementConditions : List Nat :=
  [condVgaUnchg, condVgaChg, condTeacherDetectedNone, condTeacherDetectedOne, condTeacherDetectedMultiple,
    condStudentStandNone, condStudentStandOne, condStudentStandMultiple, condBoardWrite, condBoardNotwrite]

/-- The elements of the combination `k`: board, student, teacher and VGA, from the slowest to the fastest. -/
def combinationElements (k : Nat) : List Nat :=
  [condVgaUnchg + k % 2, condTeacherDetectedNone + k / 2 % 3, condStudentStandNone + k / 6 % 3, condBoardNotwrite + k / 18]

/-- The truth table as `thread_SwitchTracking` sets it up, before the first conditions are set. -/
def conditionTable : TruthTable :=
  (List.range 36).foldl (fun t k => t.addCombinationCondition (condCombination k) (combinationElements k))
    (elementConditions.foldl (fun t e => t.addElementCondition e) (truthTableInit condMax))

/-- A table that the thread works on. -/
structure TruthTable.Conditions (t : TruthTable) : Prop where
  shape : t.shape = conditionTable.shape
  consistent : t.Consistent

section
open TruthTable
variable {t : TruthTable} {k i j : Nat} {value : Bool}

/-- Where the element conditions are. -/
def elementPos (i : Nat) : Nat := if i = condBoardNotwrite then 9 else if i = condBoardWrite then 8 else i

theorem conditionTable_element (hi : i < 10) : conditionTable.findCondition i = some (elementPos i) ∧
    (conditionTable.cond[elementPos i]?.map CondItem.combined) = some false := by
  revert i
  decide +kernel

theorem conditionTable_combination (hk : k < 36) : ∃ p, conditionTable.findCondition (condCombination k) = some p ∧
    conditionTable.cond[p]?.map (fun c => (c.valid, c.combined, c.element)) =
      some (true, true, (combinationElements k).map elementPos) := by
  have h : ∀ k < 36, (conditionTable.findCondition (condCombination k)).any (fun p =>
      conditionTable.cond[p]?.map (fun c => (c.valid, c.combined, c.element)) =
        some (true, true, (combinationElements k).map elementPos)) = true := by
    decide +kernel
  obtain ⟨p, hp, hc⟩ := (Option.any_eq_true ..).mp (h k hk)
  exact ⟨p, hp, of_decide_eq_true hc⟩

theorem conditionTable_ordered : conditionTable.Ordered := by
  have h : ∀ i < 46, (conditionTable.cond[i]?.all fun c => !c.combined || c.element.all (· < i)) = true := by
    decide +kernel
  intro i c hc hcomb j hj
  have hi : i < 46 := Nat.lt_of_lt_of_eq (List.getElem?_eq_some_iff.mp hc).1 (by decide +kernel)
  have := h i hi
  rw [hc] at this
  simp [hcomb] at this
  exact this j hj

theorem elementPos_inj (hi : i < 10) (hj : j < 10) (h : elementPos i = elementPos j) : i = j := by
  have hinj : ∀ i < 10, ∀ j < 10, elementPos i = elementPos j → i = j := by decide
  exact hinj i hi j hj h

theorem conditionTable_conditions : conditionTable.Conditions := by
  refine ⟨rfl, fun i c hc hv hcomb => ?_⟩
  have h : ∀ i < 46, (conditionTable.cond[i]?.all fun c =>
      !(c.valid && c.combined) || c.value == c.element.all conditionTable.valueAt) = true := by
    decide +kernel
  have := h i (Nat.lt_of_lt_of_eq (List.getElem?_eq_some_iff.mp hc).1 (by decide +kernel))
  simpa [hc, hv, hcomb] using this

theorem TruthTable.Conditions.ordered (h : t.Conditions) : t.Ordered := conditionTable_ordered.of_shape h.shape.symm

theorem TruthTable.Conditions.assign (h : t.Conditions) : (t.elementConditionAssign value i).2.Conditions :=
  ⟨shape_elementConditionAssign.trans h.shape, consistent_elementConditionAssign h.ordered⟩

theorem TruthTable.Conditions.element (h : t.Conditions) (hi : i < 10) :
    t.findCondition i = some (elementPos i) ∧ ∃ c, t.cond[elementPos i]? = some c ∧ c.combined = false := by
  obtain ⟨hf, hc⟩ := conditionTable_element hi
  obtain ⟨c, hc, hcomb⟩ := Option.map_eq_some_iff.mp hc
  obtain ⟨c', hc', he⟩ := getElem?_of_shape h.shape.symm hc
  exact ⟨(findCondition_of_shape h.shape).trans hf, c', hc', by rw [← he]; exact hcomb⟩

theorem TruthTable.Conditions.test (h : t.Conditions) (hi : i < 10) : t.conditionTest i = t.valueAt (elementPos i) := by
  rw [conditionTest, (h.element hi).1]

/-- Changing an element condition changes its value and that of no other. -/
theorem TruthTable.Conditions.test_assign (h : t.Conditions) (hi : i < 10) (hj : j < 10) :
    (t.elementConditionAssign value i).2.conditionTest j = if j = i then value else t.conditionTest j := by
  obtain ⟨hf, -⟩ := h.element hi
  obtain ⟨-, c, hc, hcomb⟩ := h.element hj
  rw [h.assign.test hj, h.test hj, valueAt_elementConditionAssign h.ordered hf hc hcomb]
  by_cases e : j = i
  · rw [e, if_pos rfl, if_pos rfl]
  · rw [if_neg e, if_neg fun he => e (elementPos_inj hj hi he)]

theorem combinationElements_lt (hk : k < 36) : ∀ e ∈ combinationElements k, e < 10 := by
  revert k
  decide

/-- A combination holds when all its elements do. -/
theorem TruthTable.Conditions.test_combination (h : t.Conditions) (hk : k < 36) :
    t.conditionTest (condCombination k) = (combinationElements k).all fun e => t.conditionTest e := by
  obtain ⟨p, hp, hc⟩ := conditionTable_combination hk
  obtain ⟨c, hc, hce⟩ := Option.map_eq_some_iff.mp hc
  obtain ⟨c', hc', he⟩ := getElem?_of_shape h.shape.symm hc
  simp only [Prod.mk.injEq] at hce
  have hval := h.consistent p c' hc' (by rw [← he]; exact hce.1) (by rw [← he]; exact hce.2.1)
  have helem : c'.element = (combinationElements k).map elementPos := by
    rw [← he]
    exact hce.2.2
  rw [conditionTest, findCondition_of_shape h.shape, hp]
  simp only [valueAt_eq hc', hval, helem, List.all_map]
  rw [Bool.eq_iff_iff, List.all_eq_true, List.all_eq_true]
  exact forall₂_congr fun e he => by rw [Function.comp, h.test (combinationElements_lt hk e he)]

end

end Recbcsrv
