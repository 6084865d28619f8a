import Mathlib.Data.List.ProdSigma
import Mathlib.Data.List.Nodup

/-! The maximal runs of a predicate on the numbers below a bound, and a scan that finds them from left to right. The scan
    knows at each number whether a run is open there; a run is closed by the first number that is not in it. -/

namespace RunScan

/-- The numbers from `a` up to `b` are a run that cannot be extended to the left. -/
structure OpenRun (p : Nat → Prop) (a b : Nat) : Prop where
  lt : a < b
  holds : ∀ j < b, a ≤ j → p j
  left : a = 0 ∨ ¬ p (a - 1)

/-- A run of numbers below `n` that cannot be extended; `b` is the first number after it. -/
structure MaximalRun (p : Nat → Prop) (n a b : Nat) : Prop extends OpenRun p a b where
  le : b ≤ n
  right : b = n ∨ ¬ p b

section
variable {p : Nat → Prop} {n a a' b b' j k : Nat} {x y : Nat × Nat} {l l' : List (Nat × Nat)}

instance [DecidablePred p] : Decidable (MaximalRun p n a b) :=
  decidable_of_iff (a < b ∧ (∀ j < b, a ≤ j → p j) ∧ (a = 0 ∨ ¬ p (a - 1)) ∧ b ≤ n ∧ (b = n ∨ ¬ p b))
    ⟨fun ⟨hlt, hin, hleft, hle, hright⟩ => ⟨⟨hlt, hin, hleft⟩, hle, hright⟩,
      fun ⟨⟨hlt, hin, hleft⟩, hle, hright⟩ => ⟨hlt, hin, hleft, hle, hright⟩⟩

/-! ### Open runs -/

theorem OpenRun.start_le (h : OpenRun p a b) (h' : OpenRun p a' b) : a ≤ a' := by
  rcases h.left with h0 | hleft
  · omega
  · by_contra hlt
    exact hleft (h'.holds (a - 1) (by have := h.lt; omega) (by omega))

/-- A run is known by its end. -/
theorem OpenRun.start_unique (h : OpenRun p a b) (h' : OpenRun p a' b) : a = a' :=
  Nat.le_antisymm (h.start_le h') (h'.start_le h)

theorem OpenRun.extend (h : OpenRun p a j) (hj : p j) : OpenRun p a (j + 1) := by
  refine ⟨Nat.lt_succ_of_lt h.lt, fun i hi hai => ?_, h.left⟩
  rcases Nat.lt_succ_iff_lt_or_eq.mp hi with hi | rfl
  · exact h.holds i hi hai
  · exact hj

theorem OpenRun.single (hj : p j) (hleft : j = 0 ∨ ¬ p (j - 1)) : OpenRun p j (j + 1) := by
  refine ⟨Nat.lt_succ_self j, fun i hi hji => ?_, hleft⟩
  rwa [show i = j by omega]

theorem OpenRun.last (h : OpenRun p a (j + 1)) : p j := h.holds j (Nat.lt_succ_self j) (Nat.lt_succ_iff.mp h.lt)

theorem exists_openRun [DecidablePred p] (hj : p j) : ∃ a, OpenRun p a (j + 1) := by
  induction j with
  | zero => exact ⟨0, OpenRun.single hj (Or.inl rfl)⟩
  | succ j ih =>
    by_cases hp : p j
    · obtain ⟨a, ha⟩ := ih hp
      exact ⟨a, ha.extend hj⟩
    · exact ⟨j + 1, OpenRun.single hj (Or.inr hp)⟩

/-! ### Maximal runs -/

theorem maximalRun_iff (hj : j < n) : MaximalRun p n a j ↔ OpenRun p a j ∧ ¬ p j := by
  refine ⟨fun h => ⟨h.toOpenRun, ?_⟩, fun h => ⟨h.1, Nat.le_of_lt hj, Or.inr h.2⟩⟩
  rcases h.right with h | h
  · omega
  · exact h

theorem maximalRun_end : MaximalRun p n a n ↔ OpenRun p a n :=
  ⟨fun h => h.toOpenRun, fun h => ⟨h, Nat.le_refl n, Or.inl rfl⟩⟩

/-- Of two maximal runs the one that begins first ends before the other begins. -/
theorem MaximalRun.apart (h : MaximalRun p n a b) (h' : MaximalRun p n a' b') (hlt : a < a') : b < a' := by
  by_contra hge
  rcases h'.left with h0 | hleft
  · omega
  · exact hleft (h.holds (a' - 1) (by omega) (by omega))

theorem MaximalRun.end_le (h : MaximalRun p n a b) (h' : MaximalRun p n a b') : b ≤ b' := by
  rcases h'.right with hn | hright
  · exact hn ▸ h.le
  · by_contra hlt
    exact hright (h.holds b' (by omega) (Nat.le_of_lt h'.lt))

theorem MaximalRun.end_unique (h : MaximalRun p n a b) (h' : MaximalRun p n a b') : b = b' :=
  Nat.le_antisymm (h.end_le h') (h'.end_le h)

/-! ### The list of them -/

/-- The maximal runs of the numbers below `n`, from left to right. -/
def maximalRuns (p : Nat → Prop) [DecidablePred p] (n : Nat) : List (Nat × Nat) :=
  (List.range n ×ˢ List.range (n + 1)).filter fun x => MaximalRun p n x.1 x.2

theorem mem_maximalRuns [DecidablePred p] : x ∈ maximalRuns p n ↔ MaximalRun p n x.1 x.2 := by
  obtain ⟨a, b⟩ := x
  unfold maximalRuns
  rw [List.mem_filter, List.mem_product, List.mem_range, List.mem_range, decide_eq_true_iff]
  refine ⟨fun h => h.2, fun h => ⟨⟨?_, ?_⟩, h⟩⟩
  · exact Nat.lt_of_lt_of_le h.lt h.le
  · exact Nat.lt_succ_of_le h.le

/-- They stand in the order of their left ends. -/
theorem pairwise_maximalRuns [DecidablePred p] : (maximalRuns p n).Pairwise fun x y => x.1 < y.1 := by
  have hlex : (List.range n ×ˢ List.range (n + 1)).Pairwise fun x y => x.1 < y.1 ∨ x.1 = y.1 ∧ x.2 < y.2 := by
    refine List.pairwise_flatMap.mpr ?_
    refine ⟨fun a _ => ?_, List.pairwise_lt_range.imp fun {a a'} h x hx y hy => ?_⟩
    · rw [List.pairwise_map]
      exact List.pairwise_lt_range.imp fun h => Or.inr ⟨rfl, h⟩
    · obtain ⟨b, -, rfl⟩ := List.mem_map.mp hx
      obtain ⟨b', -, rfl⟩ := List.mem_map.mp hy
      exact Or.inl h
  refine (hlex.filter _).imp_of_mem fun {x y} hx hy h => ?_
  have hx' : MaximalRun p n x.1 x.2 := mem_maximalRuns.mp hx
  have hy' : MaximalRun p n y.1 y.2 := mem_maximalRuns.mp hy
  rcases h with h | ⟨heq, hlt⟩
  · exact h
  · rw [heq] at hx'
    exact absurd (hx'.end_unique hy') (Nat.ne_of_lt hlt)

/-- Two lists in that order with the same members are equal. -/
theorem eq_of_ordered (h : l.Pairwise fun x y => x.1 < y.1) (h' : l'.Pairwise fun x y => x.1 < y.1)
    (hmem : ∀ x, x ∈ l ↔ x ∈ l') : l = l' := by
  have nodup : ∀ {l : List (Nat × Nat)}, (l.Pairwise fun x y => x.1 < y.1) → l.Nodup := fun h =>
    h.imp fun {x y} hlt hxy => absurd (congrArg Prod.fst hxy) (Nat.ne_of_lt hlt)
  refine List.Perm.eq_of_pairwise (fun x y _ _ hxy hyx => ?_) h h' ((List.perm_ext_iff_of_nodup (nodup h) (nodup h')).mpr hmem)
  exact absurd hxy (Nat.lt_asymm hyx)

/-- Runs that do not meet and have at least `k` numbers each leave room below `n` for their number times `k`. -/
theorem length_mul_le (h : l.Pairwise fun x y => x.2 ≤ y.1) (hlong : ∀ x ∈ l, x.1 + k ≤ x.2) (hn : ∀ x ∈ l, x.2 ≤ n)
    (ha : a ≤ n) (hstart : ∀ x ∈ l, a ≤ x.1) : a + l.length * k ≤ n := by
  induction l generalizing a with
  | nil => simpa using ha
  | cons x l ih =>
    rw [List.pairwise_cons] at h
    have hx := hlong x List.mem_cons_self
    have hax := hstart x List.mem_cons_self
    have hrest := ih h.2 (fun y hy => hlong y (List.mem_cons_of_mem x hy)) (fun y hy => hn y (List.mem_cons_of_mem x hy))
      (hn x List.mem_cons_self) h.1
    rw [List.length_cons, Nat.succ_mul]
    omega

end

/-! ### A scan -/

/-- What a scan knows before the number `j`: the run that is open there, if any, and the closed runs that it keeps. -/
structure Scanned (p : Nat → Prop) (keep : Nat → Nat → Prop) (n j : Nat) (current : Option Nat) (found : List (Nat × Nat)) :
    Prop where
  current : ∀ a, current = some a ↔ OpenRun p a j
  ordered : found.Pairwise fun x y => x.1 < y.1
  mem_found : ∀ x, x ∈ found ↔ MaximalRun p n x.1 x.2 ∧ x.2 < j ∧ keep x.1 x.2

namespace Scanned
variable {p : Nat → Prop} {keep : Nat → Nat → Prop} {n j a : Nat} {current : Option Nat} {found : List (Nat × Nat)}

theorem start : Scanned p keep n 0 none [] := by
  refine ⟨fun a => ⟨fun h => absurd h (Option.some_ne_none a).symm, fun h => absurd h.lt (Nat.not_lt_zero a)⟩,
    List.Pairwise.nil, fun x => ⟨fun h => absurd h List.not_mem_nil, fun h => absurd h.2.1 (Nat.not_lt_zero _)⟩⟩

/-- A number in the predicate: the open run goes on, or one begins. -/
theorem hit [DecidablePred p] (h : Scanned p keep n j current found) (hn : j < n) (hj : p j) :
    Scanned p keep n (j + 1) (some (current.getD j)) found := by
  have hopen : OpenRun p (current.getD j) (j + 1) := by
    cases hc : current with
    | some a => exact ((h.current a).mp hc).extend hj
    | none =>
      refine OpenRun.single hj ?_
      rcases Nat.eq_zero_or_pos j with h0 | hpos
      · exact Or.inl h0
      · refine Or.inr fun hi => ?_
        obtain ⟨a, ha⟩ := exists_openRun hi
        rw [Option.getD_none, Nat.sub_add_cancel hpos, ← h.current, hc] at ha
        exact Option.some_ne_none a ha.symm
  refine ⟨fun a => ⟨fun ha => Option.some.inj ha ▸ hopen, fun ha => congrArg some (hopen.start_unique ha)⟩, h.ordered,
    fun x => ?_⟩
  rw [h.mem_found]
  refine ⟨fun hx => ⟨hx.1, Nat.lt_succ_of_lt hx.2.1, hx.2.2⟩, fun hx => ⟨hx.1, ?_, hx.2.2⟩⟩
  rcases Nat.lt_succ_iff_lt_or_eq.mp hx.2.1 with hlt | heq
  · exact hlt
  · have hrun := hx.1
    rw [heq] at hrun
    exact absurd hj ((maximalRun_iff hn).mp hrun).2

/-- Another number while no run is open. -/
theorem idle (h : Scanned p keep n j none found) (hn : j < n) (hj : ¬ p j) : Scanned p keep n (j + 1) none found := by
  refine ⟨fun a => ⟨fun ha => absurd ha (Option.some_ne_none a).symm, fun ha => absurd ha.last hj⟩, h.ordered, fun x => ?_⟩
  rw [h.mem_found]
  refine ⟨fun hx => ⟨hx.1, Nat.lt_succ_of_lt hx.2.1, hx.2.2⟩, fun hx => ⟨hx.1, ?_, hx.2.2⟩⟩
  rcases Nat.lt_succ_iff_lt_or_eq.mp hx.2.1 with hlt | heq
  · exact hlt
  · have hrun := hx.1
    rw [heq] at hrun
    exact absurd ((h.current x.1).mpr ((maximalRun_iff hn).mp hrun).1) (Option.some_ne_none x.1).symm

/-- The runs that are found end before the open one begins. -/
theorem found_lt (h : Scanned p keep n j (some a) found) (hn : j ≤ n) {x : Nat × Nat} (hx : x ∈ found) : x.1 < a := by
  have hopen := (h.current a).mp rfl
  obtain ⟨hrun, hlt, -⟩ := (h.mem_found x).mp hx
  have hright : ¬ p x.2 := ((maximalRun_iff (Nat.lt_of_lt_of_le hlt hn)).mp hrun).2
  by_contra hge
  exact hright (hopen.holds x.2 hlt (by have := hrun.lt; omega))

/-- There is little room for many long runs. -/
theorem length_mul_le {k : Nat} (h : Scanned p keep n j current found) (hlong : ∀ a b, keep a b → a + k ≤ b) :
    found.length * k ≤ n := by
  have hapart : found.Pairwise fun x y => x.2 ≤ y.1 := h.ordered.imp_of_mem fun {x y} hx hy hlt =>
    Nat.le_of_lt (((h.mem_found x).mp hx).1.apart ((h.mem_found y).mp hy).1 hlt)
  have := RunScan.length_mul_le hapart (fun x hx => hlong _ _ ((h.mem_found x).mp hx).2.2)
    (fun x hx => ((h.mem_found x).mp hx).1.le) (Nat.zero_le n) (fun x _ => Nat.zero_le x.1)
  omega

variable [∀ a b, Decidable (keep a b)]

theorem mem_kept (keep : Nat → Nat → Prop) [DecidableRel keep] {x : Nat × Nat} {b : Nat} :
    (x ∈ if keep a b then [(a, b)] else []) ↔ x = (a, b) ∧ keep a b := by
  split <;> simp [*]

theorem ordered_append (h : Scanned p keep n j (some a) found) (hn : j ≤ n) :
    (found ++ if keep a j then [(a, j)] else []).Pairwise fun x y => x.1 < y.1 := by
  refine List.pairwise_append.mpr ⟨h.ordered, by split <;> simp, fun x hx y hy => ?_⟩
  rw [((mem_kept keep).mp hy).1]
  exact h.found_lt hn hx

/-- Another number ends the open run. -/
theorem close (h : Scanned p keep n j (some a) found) (hn : j < n) (hj : ¬ p j) :
    Scanned p keep n (j + 1) none (found ++ if keep a j then [(a, j)] else []) := by
  have hopen := (h.current a).mp rfl
  refine ⟨fun a => ⟨fun ha => absurd ha (Option.some_ne_none a).symm, fun ha => absurd ha.last hj⟩,
    h.ordered_append (Nat.le_of_lt hn), fun x => ?_⟩
  rw [List.mem_append, h.mem_found, mem_kept]
  constructor
  · rintro (⟨hrun, hlt, hkeep⟩ | ⟨rfl, hkeep⟩)
    · exact ⟨hrun, Nat.lt_succ_of_lt hlt, hkeep⟩
    · exact ⟨(maximalRun_iff hn).mpr ⟨hopen, hj⟩, Nat.lt_succ_self j, hkeep⟩
  · rintro ⟨hrun, hlt, hkeep⟩
    rcases Nat.lt_succ_iff_lt_or_eq.mp hlt with hlt | heq
    · exact Or.inl ⟨hrun, hlt, hkeep⟩
    · obtain ⟨b, c⟩ := x
      subst heq
      obtain rfl := hopen.start_unique ((maximalRun_iff hn).mp hrun).1
      exact Or.inr ⟨rfl, hkeep⟩

variable [DecidablePred p]

theorem mem_kept_maximalRuns {x : Nat × Nat} :
    x ∈ (maximalRuns p n).filter (fun x => keep x.1 x.2) ↔ MaximalRun p n x.1 x.2 ∧ keep x.1 x.2 := by
  rw [List.mem_filter, mem_maximalRuns, decide_eq_true_iff]

/-- With no run open at the end the scan has found them all. -/
theorem finish_none (h : Scanned p keep n n none found) : (maximalRuns p n).filter (fun x => keep x.1 x.2) = found := by
  refine eq_of_ordered (pairwise_maximalRuns.filter _) h.ordered fun x => ?_
  rw [mem_kept_maximalRuns, h.mem_found]
  refine ⟨fun ⟨hrun, hkeep⟩ => ⟨hrun, Nat.lt_of_le_of_ne hrun.le fun heq => ?_, hkeep⟩,
    fun ⟨hrun, _, hkeep⟩ => ⟨hrun, hkeep⟩⟩
  rw [heq] at hrun
  exact absurd ((h.current x.1).mpr hrun.toOpenRun) (Option.some_ne_none x.1).symm

/-- A run that is still open at the end is the last one. -/
theorem finish_some (h : Scanned p keep n n (some a) found) :
    (maximalRuns p n).filter (fun x => keep x.1 x.2) = found ++ if keep a n then [(a, n)] else [] := by
  have hopen := (h.current a).mp rfl
  refine eq_of_ordered (pairwise_maximalRuns.filter _) (h.ordered_append (Nat.le_refl n)) fun x => ?_
  rw [mem_kept_maximalRuns, List.mem_append, h.mem_found, mem_kept]
  constructor
  · rintro ⟨hrun, hkeep⟩
    rcases Nat.lt_or_eq_of_le hrun.le with hlt | heq
    · exact Or.inl ⟨hrun, hlt, hkeep⟩
    · obtain ⟨b, c⟩ := x
      subst heq
      obtain rfl := hopen.start_unique hrun.toOpenRun
      exact Or.inr ⟨rfl, hkeep⟩
  · rintro (⟨hrun, -, hkeep⟩ | ⟨rfl, hkeep⟩)
    · exact ⟨hrun, hkeep⟩
    · exact ⟨maximalRun_end.mpr hopen, hkeep⟩

end Scanned
end RunScan
