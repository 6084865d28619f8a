import Mathlib.Data.List.Basic
import Mathlib.Data.List.Induction

/-! The blocks of a stream, each ended by an element that `stop` recognizes, and the unfinished rest. Both grow with the stream
    by one element at a time, which is how a receiver sees it. -/

namespace Blocks

variable {α : Type} {stop : α → Bool} {l m : List α} {x : α} {n : Nat}

/-- The blocks of a stream and the rest, with one more element. -/
def extend (stop : α → Bool) (s : List (List α) × List α) (x : α) : List (List α) × List α :=
  if stop x then (s.1 ++ [s.2 ++ [x]], []) else (s.1, s.2 ++ [x])

/-- The blocks of a stream. -/
def blocks (stop : α → Bool) (l : List α) : List (List α) := (l.foldl (extend stop) ([], [])).1

/-- What follows the last block. -/
def unfinished (stop : α → Bool) (l : List α) : List α := (l.foldl (extend stop) ([], [])).2

/-- No block is longer than `n`, and the rest is not either. -/
def Fits (stop : α → Bool) (n : Nat) (l : List α) : Prop :=
  (∀ b ∈ blocks stop l, b.length ≤ n) ∧ (unfinished stop l).length ≤ n

instance (stop : α → Bool) (n : Nat) (l : List α) : Decidable (Fits stop n l) := inferInstanceAs (Decidable (_ ∧ _))

/-! ### One more element -/

@[simp] theorem blocks_nil : blocks stop [] = [] := rfl

@[simp] theorem unfinished_nil : unfinished stop [] = [] := rfl

theorem foldl_snoc (stop : α → Bool) (l : List α) (x : α) :
    (l ++ [x]).foldl (extend stop) ([], []) = extend stop (blocks stop l, unfinished stop l) x := by
  rw [List.foldl_concat]
  rfl

theorem blocks_stop (l : List α) (hx : stop x = true) : blocks stop (l ++ [x]) = blocks stop l ++ [unfinished stop l ++ [x]] := by
  rw [blocks, foldl_snoc, extend, if_pos hx]

theorem unfinished_stop (l : List α) (hx : stop x = true) : unfinished stop (l ++ [x]) = [] := by
  rw [unfinished, foldl_snoc, extend, if_pos hx]

theorem blocks_go (l : List α) (hx : ¬ stop x = true) : blocks stop (l ++ [x]) = blocks stop l := by
  rw [blocks, foldl_snoc, extend, if_neg hx]

theorem unfinished_go (l : List α) (hx : ¬ stop x = true) : unfinished stop (l ++ [x]) = unfinished stop l ++ [x] := by
  rw [unfinished, foldl_snoc, extend, if_neg hx]

/-! ### The stream from its blocks -/

/-- Nothing is lost. -/
theorem flatten_blocks (stop : α → Bool) (l : List α) : (blocks stop l).flatten ++ unfinished stop l = l := by
  induction l using List.reverseRecOn with
  | nil => rfl
  | append_singleton l x ih =>
    by_cases hx : stop x = true
    · rw [blocks_stop l hx, unfinished_stop l hx, List.flatten_append, List.flatten_singleton, ← List.append_assoc, ih,
        List.append_nil]
    · rw [blocks_go l hx, unfinished_go l hx, ← List.append_assoc, ih]

/-- The rest has no end in it. -/
theorem not_stop_unfinished (l : List α) : ∀ y ∈ unfinished stop l, ¬ stop y = true := by
  induction l using List.reverseRecOn with
  | nil => exact fun y hy => absurd hy List.not_mem_nil
  | append_singleton l x ih =>
    intro y hy
    by_cases hx : stop x = true
    · rw [unfinished_stop l hx] at hy
      exact absurd hy List.not_mem_nil
    · rw [unfinished_go l hx] at hy
      rcases List.mem_append.mp hy with hy | hy
      · exact ih y hy
      · rwa [List.mem_singleton.mp hy]

/-- A block has its end at the end, and only there. -/
theorem mem_blocks {b : List α} (hb : b ∈ blocks stop l) :
    ∃ start x, b = start ++ [x] ∧ stop x = true ∧ ∀ y ∈ start, ¬ stop y = true := by
  induction l using List.reverseRecOn with
  | nil => exact absurd hb List.not_mem_nil
  | append_singleton l x ih =>
    by_cases hx : stop x = true
    · rw [blocks_stop l hx] at hb
      rcases List.mem_append.mp hb with hb | hb
      · exact ih hb
      · exact ⟨unfinished stop l, x, List.mem_singleton.mp hb, hx, not_stop_unfinished l⟩
    · rw [blocks_go l hx] at hb
      exact ih hb

/-! ### Blocks that fit -/

/-- A stream can go on as long as its rest leaves room. -/
theorem fits_snoc : Fits stop n (l ++ [x]) ↔ Fits stop n l ∧ (unfinished stop l).length < n := by
  unfold Fits
  by_cases hx : stop x = true
  · rw [blocks_stop l hx, unfinished_stop l hx]
    constructor
    · rintro ⟨hblocks, -⟩
      have hlast := hblocks _ (List.mem_append_right _ (List.mem_singleton_self _))
      rw [List.length_append, List.length_singleton] at hlast
      exact ⟨⟨fun b hb => hblocks b (List.mem_append_left _ hb), by omega⟩, hlast⟩
    · rintro ⟨⟨hblocks, -⟩, hlt⟩
      refine ⟨fun b hb => ?_, Nat.zero_le n⟩
      rcases List.mem_append.mp hb with hb | hb
      · exact hblocks b hb
      · rw [List.mem_singleton.mp hb, List.length_append, List.length_singleton]
        exact hlt
  · rw [blocks_go l hx, unfinished_go l hx, List.length_append, List.length_singleton]
    exact ⟨fun h => ⟨⟨h.1, by omega⟩, h.2⟩, fun h => ⟨h.1.1, h.2⟩⟩

theorem Fits.of_front (h : Fits stop n m) (hlm : l <+: m) : Fits stop n l := by
  obtain ⟨k, rfl⟩ := hlm
  induction k using List.reverseRecOn with
  | nil => rwa [List.append_nil] at h
  | append_singleton k x ih =>
    rw [← List.append_assoc, fits_snoc] at h
    exact ih h.1

end Blocks
