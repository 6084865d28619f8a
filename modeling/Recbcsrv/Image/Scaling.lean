import Mathlib.Data.Rat.Floor
import Mathlib.Tactic.FieldSimp
import Mathlib.Tactic.Ring
import Recbcsrv.Image.Census

/-! The scaling of the histograms by the table of `loadFeature`, in exact arithmetic, and the sum of `k_function`. An entry is
    cut at its upper bound only: a count that lies below its training range by a 256th of the range or more goes below -128. -/

namespace Recbcsrv
open Stores (asInt)

/-! ### The table -/

/-- The file of the feature ranges while it is read: the numbers that `fscanf` can still convert, and the rows so far. -/
structure RangeReader where
  numbers : List Int
  line : Int
  table : List (Int × Int)

/-- A turn of the loop of `loadFeature`; what `fscanf` does not convert keeps what `malloc` gave. -/
def loadRow (memory : Nat → Int × Int) (s : RangeReader) (i : Nat) : Option RangeReader :=
  let (line, row, numbers) := match s.numbers with
    | [] => (s.line, memory i, [])
    | [line] => (line, memory i, [])
    | [line, low] => (line, (low, (memory i).2), [])
    | line :: low :: high :: numbers => (line, (low, high), numbers)
  if line = i + 1 then some ⟨numbers, line, s.table ++ [row]⟩ else none

/-- `Feature_Min` and `Feature_Max`, or nothing when the program ends. -/
def loadFeature (memory : Nat → Int × Int) (numbers : List Int) : Option (List (Int × Int)) :=
  (Exec.exec (loadRow memory) ⟨numbers, 0, []⟩ (List.range dim)).map RangeReader.table

/-! ### The scaling -/

/-- The conversion to `int`, which cuts off the fraction. -/
def truncate (x : ℚ) : Option Int := asInt (if 0 ≤ x then ⌊x⌋ else ⌈x⌉)

/-- An entry of `scaleFeature`; there is none when the divisor is 0. -/
def scaleFeature (range : Int × Int) (f : Int) : Option ℚ :=
  if f = range.1 then some (-1)
  else if f = range.2 then some 1
  else if range.2 - range.1 = 0 then none
  else some (-1 + (1 - -1) * (f - range.1 : Int) / (range.2 - range.1 : Int))

/-- What is stored to `testSV`, whose entries are `short`. -/
def clampEntry (tmp : Int) : Int := if tmp ≥ 128 then 127 else tmp.bmod (2 ^ 16)

/-- An entry of `testSV`. -/
def testEntry (range : Int × Int) (f : Int) : Option Int :=
  (scaleFeature range f).bind fun x => (truncate (x * 128)).map clampEntry

/-- `testSV`, from the table and the counts. -/
def scaleEntries (table : List (Int × Int)) (feature : Nat → Nat) : Option (List Int) :=
  (List.range dim).mapM fun i => table[i]?.bind fun range => testEntry range (feature i)

/-! ### The kernel -/

/-- A turn of the loop of `k_function`. -/
def kStep (sum : Int) (p : Int × Int) : Option Int := do
  let d := p.1 - p.2
  asInt (sum + (← asInt (d * d)))

def kFunction (x y : List Int) : Option Int := Exec.exec kStep 0 (x.zip y)

/-- The entries of a support vector. -/
def SupportEntry (v : Int) : Prop := -128 ≤ v ∧ v ≤ 127

/-- For every histogram of the window no divisor is 0, the entries of `testSV` are in range, and the sum of `k_function` fits. -/
structure Scaled (table : List (Int × Int)) (ctImage : Pixels) (t l width : Nat) : Prop where
  divides : ∀ feature, histogram ctImage t l width = some feature → ∀ i range, table[i]? = some range →
    (scaleFeature range (feature i)).isSome
  entries : ∀ feature, histogram ctImage t l width = some feature → ∃ testSV, scaleEntries table feature = some testSV ∧
    ∀ v ∈ testSV, SupportEntry v
  kernel : ∀ feature, histogram ctImage t l width = some feature → ∀ testSV, scaleEntries table feature = some testSV →
    ∀ sv : List Int, sv.length = dim → (∀ v ∈ sv, SupportEntry v) → ∃ sum, kFunction testSV sv = some sum ∧ sum ≤ 2 ^ 31 - 1

/-- The count is the least of its range; or the range is not empty and the count is not below it by a 256th or more, except by
    multiples of 2^16 of them, nor beyond what an `int` holds. -/
def Scalable (range : Int × Int) (f : Int) : Prop :=
  f = range.1 ∨ range.1 < range.2 ∧
    (range.1 ≤ f ∧ 256 * (f - range.1) < (2 ^ 31 + 128) * (range.2 - range.1) ∨
      f < range.1 ∧ 256 * (range.1 - f) / (range.2 - range.1) ≤ 2 ^ 31 - 128 ∧
        (256 * (range.1 - f) / (range.2 - range.1) % 2 ^ 16 = 0 ∨ 65280 < 256 * (range.1 - f) / (range.2 - range.1) % 2 ^ 16))

section
variable {memory : Nat → Int × Int} {numbers : List Int} {table : List (Int × Int)} {range : Int × Int} {f a d v : Int}

theorem loadFeature_length (h : loadFeature memory numbers = some table) : table.length = dim := by
  obtain ⟨s, hs, rfl⟩ := Option.map_eq_some_iff.mp h
  have hrow : ∀ (n : Nat) (s : RangeReader) i s', s.table.length = n → loadRow memory s i = some s' → s'.table.length = n + 1 := by
    intro n s i s' hn hs'
    unfold loadRow at hs'
    split at hs'
    split at hs'
    · cases hs'
      rw [List.length_append, hn, List.length_singleton]
    · cases hs'
  have hlength := Exec.exec_length hrow rfl hs
  exact hlength.trans List.length_range

/-- The numbers of a file with the rows, from row `n` on. -/
def rowNumbers : Nat → List (Int × Int) → List Int
  | _, [] => []
  | n, row :: rows => (n + 1 : Nat) :: row.1 :: row.2 :: rowNumbers (n + 1) rows

/-- Every table with a row for each entry is loaded. -/
theorem loadFeature_rowNumbers (memory : Nat → Int × Int) (h : table.length = dim) :
    loadFeature memory (rowNumbers 0 table) = some table := by
  have hrows : ∀ (rows pre : List (Int × Int)) (line : Int), ∃ s, Exec.exec (loadRow memory)
      ⟨rowNumbers pre.length rows, line, pre⟩ (List.range' pre.length rows.length) = some s ∧ s.table = pre ++ rows := by
    intro rows
    induction rows with
    | nil =>
      intro pre line
      exact ⟨_, rfl, (List.append_nil pre).symm⟩
    | cons row rows ih =>
      intro pre line
      have hstep : loadRow memory ⟨rowNumbers pre.length (row :: rows), line, pre⟩ pre.length =
          some ⟨rowNumbers (pre.length + 1) rows, (pre.length + 1 : Nat), pre ++ [row]⟩ := if_pos rfl
      obtain ⟨s, hs, htable⟩ := ih (pre ++ [row]) (pre.length + 1 : Nat)
      rw [List.length_append, List.length_singleton] at hs
      refine ⟨s, ?_, by rw [htable, List.append_assoc, List.singleton_append]⟩
      rw [List.length_cons, List.range'_succ, Exec.exec, hstep, Option.bind_some, hs]
  obtain ⟨s, hs, htable⟩ := hrows table [] 0
  rw [h] at hs
  rw [loadFeature, List.range_eq_range']
  exact Option.map_eq_some_iff.mpr ⟨s, hs, htable⟩

/-! ### Quotients -/

theorem truncate_div (hd : 0 < d) : truncate (((a : ℚ) / d)) = asInt (if 0 ≤ a then a / d else -(-a / d)) := by
  obtain ⟨n, rfl⟩ := Int.eq_ofNat_of_zero_le hd.le
  have hpos : (0 : ℚ) < (n : ℤ) := by exact_mod_cast hd
  have hsign : 0 ≤ (a : ℚ) / (n : ℤ) ↔ 0 ≤ a := by
    rw [le_div_iff₀ hpos, zero_mul]
    exact_mod_cast Iff.rfl
  rw [truncate]
  congr 1
  refine if_congr hsign ?_ ?_
  · exact Rat.floor_intCast_div_natCast a n
  · exact Rat.ceil_intCast_div_natCast a n

theorem scaleFeature_mul (hlt : range.1 < range.2) (hf : f ≠ range.1) : ∃ x, scaleFeature range f = some x ∧
    x * 128 = ((256 * (f - range.1) - 128 * (range.2 - range.1) : Int) : ℚ) / (range.2 - range.1 : Int) := by
  have hd : ((range.2 - range.1 : Int) : ℚ) ≠ 0 := by
    rw [Int.cast_ne_zero]
    omega
  have hzero : ¬ range.2 - range.1 = 0 := by omega
  unfold scaleFeature
  rw [if_neg hf]
  by_cases hhigh : f = range.2
  · rw [if_pos hhigh]
    refine ⟨1, rfl, ?_⟩
    rw [hhigh, ← sub_mul, Int.cast_mul, mul_div_cancel_right₀ _ hd]
    norm_num
  · rw [if_neg hhigh, if_neg hzero]
    refine ⟨_, rfl, ?_⟩
    rw [Int.cast_sub (256 * (f - range.1)), Int.cast_mul, Int.cast_mul]
    field_simp
    push_cast
    ring

/-! ### The entries -/

theorem clampEntry_of_le (h : -128 ≤ v) : SupportEntry (clampEntry v) := by
  unfold clampEntry SupportEntry
  split
  · omega
  · rw [Int.bmod_eq_of_le (by omega) (by omega)]
    omega

theorem clampEntry_below (h : 0 ≤ v) : SupportEntry (clampEntry (-(v + 128))) ↔ v % 2 ^ 16 = 0 ∨ 65280 < v % 2 ^ 16 := by
  unfold clampEntry SupportEntry
  rw [if_neg (by omega), Int.bmod_def]
  split <;> omega

theorem asInt_clampEntry : (∃ w, (asInt v).map clampEntry = some w ∧ SupportEntry w) ↔
    (-2 ^ 31 ≤ v ∧ v < 2 ^ 31) ∧ SupportEntry (clampEntry v) := by
  unfold asInt
  by_cases h : -2 ^ 31 ≤ v ∧ v < 2 ^ 31
  · rw [if_pos h, and_iff_right h]
    constructor
    · rintro ⟨w, hw, hrange⟩
      cases hw
      exact hrange
    · exact fun hrange => ⟨clampEntry v, rfl, hrange⟩
  · rw [if_neg h]
    refine iff_of_false ?_ fun hrange => h hrange.1
    rintro ⟨w, hw, -⟩
    cases hw

/-- The entry for a count that is not the least of its range. -/
theorem testEntry_iff (hlt : range.1 < range.2) (hf : f ≠ range.1) :
    (∃ v, testEntry range f = some v ∧ SupportEntry v) ↔ Scalable range f := by
  obtain ⟨x, hx, hmul⟩ := scaleFeature_mul hlt hf
  unfold testEntry Scalable
  rw [hx, Option.bind_some, hmul, or_iff_right hf, and_iff_right hlt]
  generalize hd : range.2 - range.1 = d
  have hpos : 0 < d := by omega
  have hne : d ≠ 0 := hpos.ne'
  rw [truncate_div hpos]
  rw [asInt_clampEntry]
  rcases Int.lt_or_le f range.1 with hbelow | habove
  · have hneg : ¬ 0 ≤ 256 * (f - range.1) - 128 * d := by omega
    have hq : 0 ≤ 256 * (range.1 - f) / d := Int.ediv_nonneg (by omega) hpos.le
    have hquot : -(256 * (f - range.1) - 128 * d) / d = 256 * (range.1 - f) / d + 128 := by
      rw [← Int.add_mul_ediv_right _ _ hne]
      congr 1
      ring
    have hnot : ¬ (range.1 ≤ f ∧ 256 * (f - range.1) < (2 ^ 31 + 128) * d) := fun h => Int.not_lt.mpr h.1 hbelow
    rw [or_iff_right hnot, and_iff_right hbelow, if_neg hneg, hquot, clampEntry_below hq]
    refine and_congr ?_ Iff.rfl
    omega
  · rw [or_iff_left (by omega), and_iff_right habove]
    have hk : 0 ≤ f - range.1 := by omega
    generalize f - range.1 = k at hk
    by_cases hnonneg : 0 ≤ 256 * k - 128 * d
    · have hquot : (256 * k - 128 * d) / d = 256 * k / d - 128 := Int.sub_mul_ediv_right _ _ hne
      have hhalf : 128 ≤ 256 * k / d := (Int.le_ediv_iff_mul_le hpos).mpr (by omega)
      rw [if_pos hnonneg, hquot, ← Int.ediv_lt_iff_lt_mul hpos]
      constructor
      · rintro ⟨hint, -⟩
        omega
      · intro hint
        exact ⟨by omega, clampEntry_of_le (by omega)⟩
    · have hquot : -(256 * k - 128 * d) / d = -(256 * k) / d + 128 := by
        rw [← Int.add_mul_ediv_right _ _ hne]
        congr 1
        ring
      have hlow : -128 ≤ -(256 * k) / d := (Int.le_ediv_iff_mul_le hpos).mpr (by omega)
      have hhigh : -(256 * k) / d < 1 := (Int.ediv_lt_iff_lt_mul hpos).mpr (by omega)
      rw [if_neg hnonneg, hquot]
      refine iff_of_true ⟨by omega, clampEntry_of_le (by omega)⟩ (by omega)

theorem testEntry_ordered_iff (h : range.1 ≤ range.2) :
    (∃ v, testEntry range f = some v ∧ SupportEntry v) ↔ Scalable range f := by
  by_cases hf : f = range.1
  · refine iff_of_true ⟨-128, ?_, Int.le_refl _, by decide⟩ (Or.inl hf)
    have htrunc : truncate (-1 * 128) = some (-128) := by decide +kernel
    rw [testEntry, scaleFeature, if_pos hf, Option.bind_some, htrunc]
    decide
  · rcases Int.lt_or_eq_of_le h with hlt | heq
    · exact testEntry_iff hlt hf
    · refine iff_of_false ?_ ?_
      · rintro ⟨v, hv, -⟩
        have hzero : range.2 - range.1 = 0 := by omega
        rw [testEntry, scaleFeature, if_neg hf, if_neg (heq ▸ hf), if_pos hzero] at hv
        cases hv
      · rintro (hlow | ⟨hlt, -⟩)
        · exact hf hlow
        · omega

/-! ### The sum -/

/-- The sum over the squares of differences of support entries. -/
theorem exec_kStep {l : List (Int × Int)} (hl : ∀ p ∈ l, SupportEntry p.1 ∧ SupportEntry p.2) {sum : Int} (hsum : 0 ≤ sum)
    (hroom : sum + 65025 * l.length < 2 ^ 31) : ∃ s, Exec.exec kStep sum l = some s ∧ 0 ≤ s ∧ s ≤ sum + 65025 * l.length := by
  induction l generalizing sum with
  | nil => exact ⟨sum, rfl, hsum, by simp⟩
  | cons p l ih =>
    rw [List.forall_mem_cons] at hl
    obtain ⟨⟨h1, h2⟩, h3, h4⟩ := hl.1
    have hsquare : 0 ≤ (p.1 - p.2) * (p.1 - p.2) ∧ (p.1 - p.2) * (p.1 - p.2) ≤ 65025 := by
      refine ⟨mul_self_nonneg _, ?_⟩
      have hd : -255 ≤ p.1 - p.2 ∧ p.1 - p.2 ≤ 255 := by omega
      nlinarith [hd.1, hd.2]
    rw [List.length_cons, Nat.cast_succ] at hroom ⊢
    have hstep : kStep sum p = some (sum + (p.1 - p.2) * (p.1 - p.2)) := by
      unfold kStep
      dsimp only
      generalize (p.1 - p.2) * (p.1 - p.2) = square at hsquare
      unfold asInt
      rw [if_pos (by omega), Option.bind_eq_bind, Option.bind_some, if_pos (by omega)]
    have hsum' : 0 ≤ sum + (p.1 - p.2) * (p.1 - p.2) := by omega
    obtain ⟨s, hs, h0, hle⟩ := ih hl.2 hsum' (by omega)
    refine ⟨s, ?_, h0, by omega⟩
    rw [Exec.exec, hstep, Option.bind_some, hs]

theorem kFunction_fits {x y : List Int} (hx : ∀ v ∈ x, SupportEntry v) (hy : ∀ v ∈ y, SupportEntry v) (hlen : y.length = dim) :
    ∃ sum, kFunction x y = some sum ∧ sum ≤ 2 ^ 31 - 1 := by
  have hl : ∀ p ∈ x.zip y, SupportEntry p.1 ∧ SupportEntry p.2 := fun p hp =>
    ⟨hx _ (List.of_mem_zip hp).1, hy _ (List.of_mem_zip hp).2⟩
  have hlength : (x.zip y).length ≤ 6144 := by
    rw [List.length_zip, hlen]
    exact Nat.min_le_right _ _
  obtain ⟨s, hs, -, hle⟩ := exec_kStep hl (Int.le_refl 0) (by omega)
  exact ⟨s, hs, by omega⟩

/-! ### The windows -/

theorem scaleEntries_iff (hlen : table.length = dim) (hordered : ∀ range ∈ table, range.1 ≤ range.2) (feature : Nat → Nat) :
    (∃ testSV, scaleEntries table feature = some testSV ∧ ∀ v ∈ testSV, SupportEntry v) ↔
      ∀ i range, table[i]? = some range → Scalable range (feature i) := by
  unfold scaleEntries
  rw [Stores.mapM_forall_iff]
  constructor
  · intro h i range hrow
    have hi := (List.getElem?_eq_some_iff.mp hrow).1
    have hentry := h i (List.mem_range.mpr (by omega))
    rw [hrow, Option.bind_some] at hentry
    exact (testEntry_ordered_iff (hordered range (List.mem_of_getElem? hrow))).mp hentry
  · intro h i hi
    have hrow := List.getElem?_eq_getElem (l := table) (i := i) (by rw [hlen]; exact List.mem_range.mp hi)
    rw [hrow, Option.bind_some]
    exact (testEntry_ordered_iff (hordered _ (List.mem_of_getElem? hrow))).mpr (h i _ hrow)

/-- The vector of a classifier that scales by the table. -/
theorem getFeatureVector_of_scaleEntries {c : Classifier} {ctImage : Pixels} {t l width : Nat} {feature : Nat → Nat}
    {testSV : List Int} (hscale : ∀ i range, table[i]? = some range → ∀ n v, testEntry range (n : Nat) = some v → c.scale i n = v)
    (hfeature : histogram ctImage t l width = some feature) (htest : scaleEntries table feature = some testSV) :
    getFeatureVector c ctImage t l width = some testSV := by
  have hall := Stores.mapM_forall_iff (P := fun _ => True).mp ⟨testSV, htest, fun _ _ => trivial⟩
  have hvalue : ∀ i ∈ List.range dim, (table[i]?.bind fun range => testEntry range (feature i)) = some (c.scale i (feature i)) := by
    intro i hi
    obtain ⟨v, hv, -⟩ := hall i hi
    obtain ⟨range, hrow, hentry⟩ := Option.bind_eq_some_iff.mp hv
    rw [hv, hscale i range hrow _ v hentry]
  rw [getFeatureVector, hfeature, Option.map_some, ← htest, scaleEntries, Stores.mapM_of_forall hvalue]

theorem scaleFeature_of_testEntry (h : testEntry range f = some v) : (scaleFeature range f).isSome := by
  obtain ⟨x, hx, -⟩ := Option.bind_eq_some_iff.mp h
  rw [hx]
  rfl

/-- The scaling of a window stays in range exactly when every count can be scaled. -/
theorem scaled_iff {ctImage : Pixels} {t l width : Nat} (hload : loadFeature memory numbers = some table)
    (hordered : ∀ range ∈ table, range.1 ≤ range.2) : Scaled table ctImage t l width ↔
      ∀ feature, histogram ctImage t l width = some feature → ∀ i range, table[i]? = some range →
        Scalable range (feature i) := by
  have hentries := scaleEntries_iff (loadFeature_length hload) hordered
  constructor
  · intro h feature hfeature
    exact (hentries feature).mp (h.entries feature hfeature)
  · intro h
    refine ⟨fun feature hfeature i range hrow => ?_, fun feature hfeature => (hentries feature).mpr (h feature hfeature), ?_⟩
    · obtain ⟨v, hv, -⟩ := (testEntry_ordered_iff (hordered range (List.mem_of_getElem? hrow))).mpr (h feature hfeature i range hrow)
      exact scaleFeature_of_testEntry hv
    · intro feature hfeature testSV htest sv hlen hsv
      obtain ⟨testSV', htest', hrange⟩ := (hentries feature).mpr (h feature hfeature)
      obtain rfl : testSV = testSV' := Option.some.inj (htest.symm.trans htest')
      exact kFunction_fits hrange hsv hlen

theorem histogram_le {ctImage : Pixels} {t l width : Nat} {feature : Nat → Nat} (h : histogram ctImage t l width = some feature)
    (i : Nat) : feature i ≤ (featurePixels t l width).length := by
  have hcount : ∀ (n : Nat) (feature : Nat → Nat) (q : Nat × Nat) (feature' : Nat → Nat), (∀ i, feature i ≤ n) →
      countPixel ctImage feature q = some feature' → ∀ i, feature' i ≤ n + 1 := by
    intro n feature q feature' hle hq i
    simp only [countPixel, Option.bind_eq_bind, Option.bind_eq_some_iff] at hq
    obtain ⟨v, -, hq⟩ := hq
    split at hq
    · cases hq
      rw [Function.update_apply]
      have := hle i
      have := hle (q.1 + v.toNat)
      split <;> omega
    · cases hq
  exact Exec.exec_length (R := fun n feature => ∀ i, feature i ≤ n) hcount (fun _ => Nat.le_refl 0) h i

/-- An index that no place has is not counted. -/
theorem histogram_eq_zero {ctImage : Pixels} {t l width i : Nat} {feature : Nat → Nat}
    (h : histogram ctImage t l width = some feature)
    (hi : ∀ q ∈ featurePixels t l width, ∀ v, ctImage q.2 = some v → q.1 + v.toNat ≠ i) : feature i = 0 := by
  refine Exec.exec_invariant_mem (I := fun feature => feature i = 0) (fun q hq feature feature' h0 hstep => ?_) rfl h
  simp only [countPixel, Option.bind_eq_bind, Option.bind_eq_some_iff] at hstep
  obtain ⟨v, hv, hstep⟩ := hstep
  split at hstep
  · cases hstep
    exact (Function.update_of_ne (hi q hq v hv).symm _ _).trans h0
  · cases hstep

/-- The census of a black frame counts in every window. -/
theorem histogram_white (x : Nat × Nat) (hx : x ∈ scannedWindows) :
    ∃ feature, histogram (fun _ => some 255) x.1 x.2 256 = some feature := by
  refine ⟨_, Exec.exec_eq_foldl (g := fun feature q => Function.update feature (q.1 + 255) (feature (q.1 + 255) + 1))
    fun feature q hq => ?_⟩
  have hdim := (mem_featurePixels hx hq).1
  have hlt : q.1 + (255 : UInt8).toNat < dim := by
    change q.1 + 255 < dim
    omega
  exact if_pos hlt

end

/-- A table whose first row has a least count of 1, like the one that is shipped. -/
def shippedRow : List (Int × Int) := (1, 35) :: List.replicate 6143 (0, 400)

/-- A count of 0 in the first entry is scaled to -135. -/
theorem scaled_counterexample : loadFeature (fun _ => (0, 0)) (rowNumbers 0 shippedRow) = some shippedRow ∧
    (∀ range ∈ shippedRow, range.1 ≤ range.2) ∧ (∃ feature, histogram (fun _ => some 255) 2 2 256 = some feature ∧ feature 0 = 0) ∧
    testEntry (1, 35) 0 = some (-135) ∧ ¬ Scaled shippedRow (fun _ => some 255) 2 2 256 := by
  have hentry : testEntry (1, 35) 0 = some (-135) := by decide +kernel
  obtain ⟨feature, hfeature⟩ := histogram_white (2, 2) (by decide)
  have hzero : feature 0 = 0 := by
    refine histogram_eq_zero hfeature fun q hq v hv => ?_
    cases hv
    exact Nat.succ_ne_zero _
  refine ⟨loadFeature_rowNumbers _ ?_, ?_, ⟨feature, hfeature, hzero⟩, hentry, fun h => ?_⟩
  · rw [shippedRow, List.length_cons, List.length_replicate, dim]
  · rw [shippedRow, List.forall_mem_cons]
    refine ⟨by decide, fun range hrange => ?_⟩
    rw [(List.mem_replicate.mp hrange).2]
    decide
  · obtain ⟨testSV, htest, hrange⟩ := h.entries feature hfeature
    have hfirst := Stores.mapM_forall_iff.mp ⟨testSV, htest, hrange⟩ 0 (List.mem_range.mpr (by decide))
    obtain ⟨v, hv, hlow, -⟩ := hfirst
    rw [shippedRow, List.getElem?_cons_zero, Option.bind_some, hzero] at hv
    obtain rfl := Option.some.inj (hentry.symm.trans hv)
    exact absurd hlow (by decide)

/-- Least counts of 0. -/
theorem scaled_zero : Scaled (List.replicate dim (0, 400)) (fun _ => some 255) 2 2 256 := by
  refine (scaled_iff (loadFeature_rowNumbers (fun _ => (0, 0)) List.length_replicate) ?_).mpr ?_
  · intro range hrange
    rw [(List.mem_replicate.mp hrange).2]
    decide
  · intro feature hfeature i range hrow
    rw [(List.mem_replicate.mp (List.mem_of_getElem? hrow)).2]
    have hle := histogram_le hfeature i
    have hlength : (featurePixels 2 2 256).length = 8064 := by decide +kernel
    refine Or.inr ⟨by decide, Or.inl ⟨Int.natCast_nonneg _, ?_⟩⟩
    dsimp only
    omega

end Recbcsrv
