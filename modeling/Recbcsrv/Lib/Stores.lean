import Mathlib.Algebra.Group.Nat.Defs
import Mathlib.Algebra.Ring.Int.Defs
import Mathlib.Data.List.Basic
import Mathlib.Data.List.Induction
import Mathlib.Data.List.ProdSigma
import Mathlib.Logic.Function.Basic

/-! Loops that store to an array. A loop is the list of its stores, from the first to the last. When the value of each store is
    a function of its place, the array after the loop is that function on the places that were stored to. -/

namespace Stores
open SProd

variable {α β : Type} {m m' : Nat → α} {ws vs : List (Nat × α)} {f : Nat → α} {p i j width : Nat} {rows cols : List Nat}
  {g : Nat → Nat → α}

/-- The array after the stores. -/
def apply (m : Nat → α) (ws : List (Nat × α)) : Nat → α := ws.foldl (fun m w => Function.update m w.1 w.2) m

theorem apply_append : apply m (ws ++ vs) = apply (apply m ws) vs := List.foldl_append ..

/-- A place keeps what its last store puts there. -/
theorem apply_of_mem (hf : ∀ w ∈ ws, w.2 = f w.1) (h : p ∈ ws.map Prod.fst) : apply m ws p = f p := by
  induction ws using List.reverseRecOn with
  | nil => cases h
  | append_singleton ws w ih =>
    rw [apply_append]
    change Function.update (apply m ws) w.1 w.2 p = f p
    by_cases hp : p = w.1
    · subst hp
      rw [Function.update_self]
      exact hf w (List.mem_append_right _ (List.mem_singleton_self w))
    · rw [Function.update_of_ne hp]
      refine ih (fun v hv => hf v (List.mem_append_left _ hv)) ?_
      rw [List.map_append, List.mem_append] at h
      rcases h with h | h
      · exact h
      · exact absurd (List.mem_singleton.mp h) hp

/-- The array after a loop over the places from 0 on. -/
theorem apply_range {k : Nat} (h : p < k) : apply m ((List.range k).map fun p => (p, f p)) p = f p := by
  refine apply_of_mem (fun w hw => ?_) ?_
  · obtain ⟨i, -, rfl⟩ := List.mem_map.mp hw
    rfl
  · rw [List.map_map]
    exact List.mem_map.mpr ⟨p, List.mem_range.mpr h, rfl⟩

/-! ### Rows and columns -/

theorem row_div_mod (h : j < width) : (width * i + j) / width = i ∧ (width * i + j) % width = j := by
  refine ⟨?_, ?_⟩
  · rw [Nat.mul_add_div (Nat.zero_lt_of_lt h), Nat.div_eq_of_lt h, Nat.add_zero]
  · rw [Nat.mul_add_mod, Nat.mod_eq_of_lt h]

/-- Rows of one length, read one after the other. -/
theorem flatMap_range (f : Nat → α) (width k : Nat) :
    ((List.range k).flatMap fun i => (List.range width).map fun j => f (width * i + j)) = (List.range (width * k)).map f := by
  induction k with
  | zero => rfl
  | succ k ih =>
    rw [List.range_succ, List.flatMap_append, ih, List.flatMap_singleton, Nat.mul_succ, List.range_add, List.map_append,
      List.map_map]
    rfl

/-- The stores of two loops, one inside the other, to a matrix that stands row after row. -/
def grid (rows cols : List Nat) (width : Nat) (g : Nat → Nat → α) : List (Nat × α) :=
  (rows ×ˢ cols).map fun x => (x.1 * width + x.2, g x.1 x.2)

theorem mem_grid (hi : i ∈ rows) (hj : j ∈ cols) : i * width + j ∈ (grid rows cols width g).map Prod.fst := by
  rw [grid, List.map_map]
  exact List.mem_map.mpr ⟨(i, j), List.mem_product.mpr ⟨hi, hj⟩, rfl⟩

theorem apply_grid (hcols : ∀ j ∈ cols, j < width) (hi : i ∈ rows) (hj : j ∈ cols) :
    apply m (grid rows cols width g) (i * width + j) = g i j := by
  have hplace : ∀ k l, l < width → (k * width + l) / width = k ∧ (k * width + l) % width = l := by
    intro k l hl
    rw [Nat.mul_comm k width]
    exact row_div_mod hl
  have hvalue : ∀ w ∈ grid rows cols width g, w.2 = (fun p => g (p / width) (p % width)) w.1 := by
    intro w hw
    obtain ⟨⟨k, l⟩, hx, rfl⟩ := List.mem_map.mp hw
    obtain ⟨hdiv, hmod⟩ := hplace k l (hcols l (List.mem_product.mp hx).2)
    dsimp only
    rw [hdiv, hmod]
  obtain ⟨hdiv, hmod⟩ := hplace i j (hcols j hj)
  rw [apply_of_mem (f := fun p => g (p / width) (p % width)) hvalue (mem_grid hi hj), hdiv, hmod]

/-! ### Loops that may fail -/

/-- A result of `int` arithmetic. -/
def asInt (v : Int) : Option Int := if -2 ^ 31 ≤ v ∧ v < 2 ^ 31 then some v else none

theorem asInt_natCast {n : Nat} (h : n < 2 ^ 31) : asInt n = some (n : Int) := if_pos ⟨by omega, by omega⟩

theorem asInt_eq_some {v w : Int} (h : asInt v = some w) : v = w ∧ v < 2 ^ 31 := by
  unfold asInt at h
  split at h
  · next hv => exact ⟨Option.some.inj h, hv.2⟩
  · cases h

theorem mapM_of_forall {l : List β} {g : β → Option α} {k : β → α} (h : ∀ x ∈ l, g x = some (k x)) :
    l.mapM g = some (l.map k) := by
  induction l with
  | nil => rfl
  | cons x l ih =>
    rw [List.forall_mem_cons] at h
    rw [List.mapM_cons, h.1, ih h.2]
    rfl

theorem mapM_forall_iff {l : List β} {g : β → Option α} {P : α → Prop} :
    (∃ vs, l.mapM g = some vs ∧ ∀ v ∈ vs, P v) ↔ ∀ x ∈ l, ∃ v, g x = some v ∧ P v := by
  induction l with
  | nil => simp
  | cons x l ih =>
    rw [List.forall_mem_cons, ← ih]
    constructor
    · rintro ⟨vs, hvs, hP⟩
      simp only [List.mapM_cons, Option.bind_eq_bind, Option.bind_eq_some_iff] at hvs
      obtain ⟨v, hv, ws, hws, hcons⟩ := hvs
      cases hcons
      rw [List.forall_mem_cons] at hP
      exact ⟨⟨v, hv, hP.1⟩, ws, hws, hP.2⟩
    · rintro ⟨⟨v, hv, hvP⟩, vs, hvs, hP⟩
      refine ⟨v :: vs, ?_, List.forall_mem_cons.mpr ⟨hvP, hP⟩⟩
      rw [List.mapM_cons, hv, hvs]
      rfl

end Stores
