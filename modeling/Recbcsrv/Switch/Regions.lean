import Recbcsrv.Lib.Runs
import Recbcsrv.Switch.Motion

/-! What `FrameDiff` finds between two images, against the maximal runs of active columns. A run that reaches the last column
    is taken for one that ends before that column. -/

namespace Recbcsrv
open RunScan

/-! ### Moving regions -/

def verticalThresh : Nat := 20

def pixelDiffThresh : Nat := 20

def objectSize : Nat := 5

def coorSize : Nat := 200

/-- A pixel of column `j` differs by more than the threshold. -/
def Differs (y last : GreyImage) (j i : Nat) : Prop :=
  pixelDiffThresh < ((y.getD (j + i * 256) 0).toNat - (last.getD (j + i * 256) 0).toNat : Int).natAbs

instance (y last : GreyImage) (j : Nat) : DecidablePred (Differs y last j) := fun _ => inferInstanceAs (Decidable (_ < _))

/-- More pixels of column `j` than the threshold differ. -/
def ActiveColumn (y last : GreyImage) (j : Nat) : Prop :=
  verticalThresh < (List.range 144).countP fun i => Differs y last j i

instance (y last : GreyImage) : DecidablePred (ActiveColumn y last) := fun _ => inferInstanceAs (Decidable (_ < _))

/-- The maximal runs of active columns that are wide enough, from left to right. -/
def movingRegions (y last : GreyImage) : List (Nat × Nat) :=
  (maximalRuns (ActiveColumn y last) 256).filter fun x => objectSize < x.2 - x.1

/-- The rectangle of the columns from `x.1` up to `x.2`. -/
def columnsRect (x : Nat × Nat) : FrameRect := ⟨.ofNat x.1, 0, .ofNat x.2, frameHeight⟩

/-- The coordinates are those of the moving regions, and there are fewer of them than the array has room for. -/
def Detector.FindsRegions (o : Detector) (y last : GreyImage) : Prop :=
  o.coordinate = (movingRegions y last).map columnsRect ∧ o.coordinate.length < coorSize - 4

section
variable {y last : GreyImage} {j n : Nat} {s : ColumnScan}

theorem diffImage_eq (i : Nat) : diffImage y last (j + i * 256) = if Differs y last j i then 255 else 0 := rfl

theorem active_iff : ActiveColumn y last j ↔ 20 < vertical y last j := by
  have hsum : ∀ l : List Nat, (l.map fun i => diffImage y last (j + i * 256) / 255).sum =
      l.countP fun i => Differs y last j i := by
    intro l
    induction l with
    | nil => rfl
    | cons i l ih =>
      rw [List.map_cons, List.sum_cons, ih, List.countP_cons, Nat.add_comm]
      congr 1
      rw [diffImage_eq]
      by_cases hd : Differs y last j i <;> simp [hd]
  unfold ActiveColumn vertical verticalThresh
  rw [hsum]

/-! ### The scan over the columns -/

/-- The left end of the run that is open in the scan. -/
def ColumnScan.current (s : ColumnScan) : Option Nat := if s.flagVer then some s.temp else none

/-- Before column `j` the scan has stored the runs that ended. -/
def ColumnScan.Before (y last : GreyImage) (j : Nat) (s : ColumnScan) : Prop :=
  ∃ found, s.coordinate = found.map columnsRect ∧
    Scanned (ActiveColumn y last) (fun a b => objectSize < b - a) 256 j s.current found

/-- There is always room for one more rectangle. -/
theorem ColumnScan.Before.room (h : s.Before y last j) : s.coordinate.length < 43 := by
  obtain ⟨found, hs, hfound⟩ := h
  have := hfound.length_mul_le (k := 6) fun a b hab => by unfold objectSize at hab; omega
  rw [hs, List.length_map]
  omega

theorem column_hit {vertical : Nat → Nat} (hv : 20 < vertical j) (hj : j < 255) :
    s.column vertical j = { s with temp := s.current.getD j, flagVer := true } := by
  have hv' : ¬ vertical j ≤ 20 := Nat.not_le.mpr hv
  have hj' : j ≠ 255 := Nat.ne_of_lt hj
  obtain ⟨temp, flagVer, coordinate⟩ := s
  cases flagVer <;> simp [ColumnScan.column, ColumnScan.current, hv, hv', hj']

theorem column_idle {vertical : Nat → Nat} (hv : vertical j ≤ 20) (hf : s.flagVer = false) : s.column vertical j = s := by
  simp [ColumnScan.column, hf, Nat.not_lt.mpr hv]

/-- A run ends, also where the scan only takes it to. -/
theorem column_close {vertical : Nat → Nat} (hv : vertical j ≤ 20 ∧ j < 255 ∨ j = 255) (hf : s.flagVer = true)
    (hroom : s.coordinate.length < 43) : s.column vertical j =
      { s with
        coordinate := s.coordinate ++ (if objectSize < j - s.temp then [(s.temp, j)] else []).map columnsRect
        flagVer := false } := by
  have hroom' : s.coordinate.length < 196 := by omega
  have hclose : (vertical j ≤ 20 ∧ s.flagVer = true ∧ j < 255) ∨ (j = 255 ∧ s.flagVer = true) := by
    rcases hv with hv | hv
    · exact Or.inl ⟨hv.1, hf, hv.2⟩
    · exact Or.inr ⟨hv, hf⟩
  have hopen : ¬ (20 < vertical j ∧ s.flagVer = false) := by simp [hf]
  dsimp only [ColumnScan.column]
  rw [if_neg hopen, if_pos hclose]
  by_cases hwide : objectSize < j - s.temp
  · rw [if_pos hwide, if_pos ⟨hwide, hroom'⟩, List.map_singleton]
    rfl
  · rw [if_neg hwide, if_neg fun h => hwide h.1, List.map_nil, List.append_nil]

theorem before_column (h : s.Before y last j) (hj : j < 255) : (s.column (vertical y last) j).Before y last (j + 1) := by
  have hroom := h.room
  obtain ⟨found, hs, hfound⟩ := h
  by_cases hp : ActiveColumn y last j
  · rw [column_hit (active_iff.mp hp) hj]
    exact ⟨found, hs, hfound.hit (by omega) hp⟩
  · have hv : vertical y last j ≤ 20 := Nat.not_lt.mp fun hv => hp (active_iff.mpr hv)
    cases hf : s.flagVer with
    | true =>
      rw [ColumnScan.current, hf, if_pos rfl] at hfound
      rw [column_close (Or.inl ⟨hv, hj⟩) hf hroom, hs, ← List.map_append]
      exact ⟨_, rfl, hfound.close (by omega) hp⟩
    | false =>
      rw [ColumnScan.current, hf, if_neg Bool.false_ne_true] at hfound
      rw [column_idle hv hf]
      refine ⟨found, hs, ?_⟩
      rw [ColumnScan.current, hf, if_neg Bool.false_ne_true]
      exact hfound.idle (by omega) hp

theorem before_foldl (y last : GreyImage) (hn : n ≤ 255) :
    ((List.range n).foldl (ColumnScan.column (vertical y last)) ⟨0, false, []⟩).Before y last n := by
  induction n with
  | zero => exact ⟨[], rfl, Scanned.start⟩
  | succ n ih =>
    rw [List.range_succ, List.foldl_append, List.foldl_cons, List.foldl_nil]
    exact before_column (ih (by omega)) (by omega)

/-! ### The last column -/

/-- The six last columns are active. -/
def RightEdgeActive (y last : GreyImage) : Prop := ∀ j < 256, 250 ≤ j → ActiveColumn y last j

theorem movedColumns_eq (y last : GreyImage) : movedColumns y last =
    (((List.range 255).foldl (ColumnScan.column (vertical y last)) ⟨0, false, []⟩).column (vertical y last) 255).coordinate := by
  have hrange : List.range 256 = List.range 255 ++ [255] := List.range_succ
  rw [movedColumns, hrange, List.foldl_append, List.foldl_cons, List.foldl_nil]

/-- What the scan and the specification make of a run that is open before the last column. -/
theorem open_last {found : List (Nat × Nat)} (hs : s.coordinate = found.map columnsRect)
    (h : Scanned (ActiveColumn y last) (fun a b => objectSize < b - a) 256 255 s.current found) (hf : s.flagVer = true)
    (hroom : s.coordinate.length < 43) :
    (s.column (vertical y last) 255).coordinate =
      (found ++ if objectSize < 255 - s.temp then [(s.temp, 255)] else []).map columnsRect ∧
    movingRegions y last = found ++
      if ActiveColumn y last 255 then if objectSize < 256 - s.temp then [(s.temp, 256)] else []
      else if objectSize < 255 - s.temp then [(s.temp, 255)] else [] := by
  rw [ColumnScan.current, hf, if_pos rfl] at h
  refine ⟨?_, ?_⟩
  · rw [column_close (Or.inr rfl) hf hroom, List.map_append, ← hs]
  · by_cases hp : ActiveColumn y last 255
    · rw [if_pos hp]
      exact (h.hit (by omega) hp).finish_some
    · rw [if_neg hp]
      exact (h.close (by omega) hp).finish_none

/-- Without such a run they agree: the last column alone is too narrow. -/
theorem closed_last {found : List (Nat × Nat)} (hs : s.coordinate = found.map columnsRect)
    (h : Scanned (ActiveColumn y last) (fun a b => objectSize < b - a) 256 255 s.current found) (hf : s.flagVer = false) :
    (s.column (vertical y last) 255).coordinate = found.map columnsRect ∧ movingRegions y last = found := by
  rw [ColumnScan.current, hf, if_neg Bool.false_ne_true] at h
  by_cases hp : ActiveColumn y last 255
  · refine ⟨?_, ?_⟩
    · simp [ColumnScan.column, hf, active_iff.mp hp, hs]
    · have := (h.hit (by omega) hp).finish_some
      simpa [movingRegions, objectSize] using this
  · refine ⟨?_, ?_⟩
    · rw [column_idle (Nat.not_lt.mp fun hv => hp (active_iff.mpr hv)) hf, hs]
    · exact (h.idle (by omega) hp).finish_none

/-- The rectangles stand in the order of their runs, whose columns are active, and the last column is never among them. -/
theorem movedColumns_found (y last : GreyImage) : ∃ found : List (Nat × Nat), movedColumns y last = found.map columnsRect ∧
    found.Pairwise (fun x z => x.1 < z.1) ∧
    ∀ x ∈ found, OpenRun (ActiveColumn y last) x.1 x.2 ∧ x.2 ≤ 255 ∧ objectSize < x.2 - x.1 := by
  have hbefore := before_foldl y last (Nat.le_refl 255)
  rw [movedColumns_eq]
  generalize (List.range 255).foldl (ColumnScan.column (vertical y last)) ⟨0, false, []⟩ = s at hbefore
  have hroom := hbefore.room
  obtain ⟨found, hs, hfound⟩ := hbefore
  have hold : ∀ x ∈ found, OpenRun (ActiveColumn y last) x.1 x.2 ∧ x.2 ≤ 255 ∧ objectSize < x.2 - x.1 := by
    intro x hx
    obtain ⟨hrun, hlt, hwide⟩ := (hfound.mem_found x).mp hx
    exact ⟨hrun.toOpenRun, Nat.le_of_lt hlt, hwide⟩
  cases hf : s.flagVer with
  | false => exact ⟨found, (closed_last hs hfound hf).1, hfound.ordered, hold⟩
  | true =>
    refine ⟨_, (open_last hs hfound hf hroom).1, ?_, ?_⟩
    · rw [ColumnScan.current, hf, if_pos rfl] at hfound
      exact hfound.ordered_append (Nat.le_of_lt (Nat.lt_succ_self 255))
    · intro x hx
      rcases List.mem_append.mp hx with hx | hx
      · exact hold x hx
      · obtain ⟨rfl, hwide⟩ := Scanned.mem_kept (fun a b => objectSize < b - a) |>.mp hx
        refine ⟨(hfound.current s.temp).mp ?_, Nat.le_refl 255, hwide⟩
        rw [ColumnScan.current, hf, if_pos rfl]

/-- The columns of a rectangle that is found are active. -/
theorem mem_movedColumns {r : FrameRect} (h : r ∈ movedColumns y last) :
    ∃ a b, r = columnsRect (a, b) ∧ OpenRun (ActiveColumn y last) a b ∧ b ≤ 255 ∧ objectSize < b - a := by
  obtain ⟨found, hmoved, -, hfound⟩ := movedColumns_found y last
  rw [hmoved] at h
  obtain ⟨x, hx, rfl⟩ := List.mem_map.mp h
  exact ⟨x.1, x.2, rfl, hfound x hx⟩

theorem length_movedColumns_lt (y last : GreyImage) : (movedColumns y last).length < coorSize - 4 := by
  have hbefore := before_foldl y last (Nat.le_refl 255)
  rw [movedColumns_eq]
  generalize (List.range 255).foldl (ColumnScan.column (vertical y last)) ⟨0, false, []⟩ = s at hbefore
  have hroom := hbefore.room
  obtain ⟨found, hs, hfound⟩ := hbefore
  rw [hs, List.length_map] at hroom
  unfold coorSize
  cases hf : s.flagVer with
  | false =>
    rw [(closed_last hs hfound hf).1, List.length_map]
    omega
  | true =>
    have hroom' : s.coordinate.length < 43 := by rwa [hs, List.length_map]
    rw [(open_last hs hfound hf hroom').1, List.length_map, List.length_append]
    split <;> simp <;> omega

theorem rightEdgeActive_iff {a : Nat} (h : OpenRun (ActiveColumn y last) a 255) :
    RightEdgeActive y last ↔ ActiveColumn y last 255 ∧ a ≤ 250 := by
  constructor
  · intro hedge
    refine ⟨hedge 255 (by omega) (by omega), ?_⟩
    by_contra hlt
    rcases h.left with h0 | hleft
    · omega
    · exact hleft (hedge (a - 1) (by have := h.lt; omega) (by omega))
  · rintro ⟨hlast, ha⟩ j hj hj'
    rcases Nat.lt_or_eq_of_le (Nat.lt_succ_iff.mp hj) with hlt | rfl
    · exact h.holds j hlt (by omega)
    · exact hlast

theorem columnsRect_last_ne (found : List (Nat × Nat)) (a : Nat) :
    (found ++ if objectSize < 255 - a then [(a, 255)] else []).map columnsRect ≠ (found ++ [(a, 256)]).map columnsRect := by
  intro heq
  split at heq
  · rw [List.map_append, List.map_append] at heq
    have hrect := (List.cons.inj (List.append_cancel_left heq)).1
    have : Int32.ofNat 255 = Int32.ofNat 256 := congrArg FrameRect.x2 hrect
    exact absurd this (by decide)
  · have := congrArg List.length heq
    simp at this

/-- `FrameDiff` finds the moving regions unless one of them reaches the last column. -/
theorem movedColumns_eq_iff (y last : GreyImage) :
    movedColumns y last = (movingRegions y last).map columnsRect ↔ ¬ RightEdgeActive y last := by
  have hbefore := before_foldl y last (Nat.le_refl 255)
  rw [movedColumns_eq]
  generalize (List.range 255).foldl (ColumnScan.column (vertical y last)) ⟨0, false, []⟩ = s at hbefore
  have hroom := hbefore.room
  obtain ⟨found, hs, hfound⟩ := hbefore
  cases hf : s.flagVer with
  | false =>
    obtain ⟨hmoved, hregions⟩ := closed_last hs hfound hf
    rw [hmoved, hregions]
    refine iff_of_true rfl fun hedge => ?_
    obtain ⟨a, ha⟩ := exists_openRun (hedge 254 (by omega) (by omega))
    have := (hfound.current a).mpr ha
    rw [ColumnScan.current, hf] at this
    cases this
  | true =>
    obtain ⟨hmoved, hregions⟩ := open_last hs hfound hf hroom
    have hopen : OpenRun (ActiveColumn y last) s.temp 255 := (hfound.current s.temp).mp (by rw [ColumnScan.current, hf]; rfl)
    rw [hmoved, hregions, rightEdgeActive_iff hopen]
    by_cases hp : ActiveColumn y last 255
    · by_cases ha : s.temp ≤ 250
      · have hwide : objectSize < 256 - s.temp := by unfold objectSize; omega
        rw [if_pos hp, if_pos hwide]
        exact iff_of_false (columnsRect_last_ne found s.temp) (not_not_intro ⟨hp, ha⟩)
      · have hnarrow : ¬ objectSize < 256 - s.temp := by unfold objectSize; omega
        have hnarrow' : ¬ objectSize < 255 - s.temp := by unfold objectSize; omega
        rw [if_pos hp, if_neg hnarrow, if_neg hnarrow']
        exact iff_of_true rfl fun h => ha h.2
    · rw [if_neg hp]
      exact iff_of_true rfl fun h => hp h.1

/-! ### Two frames of a run -/

theorem compared_coordinate (centrist : GreyImage → List FrameRect) (o : Detector) {item : Filtered} (h : item.2 ≠ 0)
    (hnum : 1 ≤ o.frameNum) : (o.detectFrame centrist item).coordinate = movedColumns item.1 o.lastImage := by
  have hstart : o.start item.2 = o := if_neg h
  dsimp only [Detector.detectFrame, Detector.frameDiff]
  rw [hstart]
  exact if_pos hnum

theorem detectFrame_coordinate (centrist : GreyImage → List FrameRect) (o : Detector) (y last : GreyImage) (k n : Nat)
    (h : n ≠ 0) : ((o.detectFrame centrist (last, k)).detectFrame centrist (y, n)).coordinate = movedColumns y last :=
  compared_coordinate centrist (o.detectFrame centrist (last, k)) h (Nat.le_add_left 1 _)

/-- Of two frames of a run the detector finds the moving regions exactly when the six last columns are not all active. -/
theorem findsRegions_iff (centrist : GreyImage → List FrameRect) (o : Detector) (item item' : Filtered) (h : item'.2 ≠ 0) :
    ((o.detectFrame centrist item).detectFrame centrist item').FindsRegions item'.1 item.1 ↔
      ¬ RightEdgeActive item'.1 item.1 := by
  unfold Detector.FindsRegions
  rw [detectFrame_coordinate centrist o item'.1 item.1 item.2 item'.2 h]
  refine ⟨fun hfinds => (movedColumns_eq_iff _ _).mp hfinds.1, fun hedge => ⟨(movedColumns_eq_iff _ _).mpr hedge, ?_⟩⟩
  exact length_movedColumns_lt _ _

end

/-! ### A region at the right edge -/

/-- An image whose bright pixels are those of the columns from `j` on. -/
def brightFrom (j : Nat) : GreyImage := (List.range (144 * 256)).map fun p => if j ≤ p % 256 then 255 else 0

/-- An image whose bright pixels are those of some columns. -/
def stripes (bright : Nat → Bool) : GreyImage := (List.range (144 * 256)).map fun p => if bright (p % 256) then 255 else 0

theorem brightFrom_eq (k : Nat) : brightFrom k = stripes fun j => k ≤ j := by
  simp only [brightFrom, stripes, decide_eq_true_eq]

theorem stripes_getD {bright : Nat → Bool} {j i : Nat} (hj : j < 256) (hi : i < 144) :
    (stripes bright).getD (j + i * 256) 0 = if bright j then 255 else 0 := by
  have hlt : j + i * 256 < 144 * 256 := by omega
  have hmod : (j + i * 256) % 256 = j := by omega
  rw [stripes, List.getD_eq_getElem?_getD, List.getElem?_map, List.getElem?_range hlt, Option.map_some, Option.getD_some, hmod]

theorem active_stripes {bright : Nat → Bool} {j : Nat} (hj : j < 256) :
    ActiveColumn (stripes bright) (brightFrom 256) j ↔ bright j = true := by
  have hdiffers : ∀ i ∈ List.range 144, Differs (stripes bright) (brightFrom 256) j i ↔ bright j = true := by
    intro i hi
    have hdark : decide (256 ≤ j) = false := decide_eq_false (Nat.not_le.mpr hj)
    unfold Differs pixelDiffThresh
    rw [brightFrom_eq, stripes_getD hj (List.mem_range.mp hi), stripes_getD hj (List.mem_range.mp hi), hdark]
    cases bright j <;> decide
  unfold ActiveColumn verticalThresh
  by_cases hbright : bright j = true
  · rw [List.countP_eq_length.mpr fun i hi => decide_eq_true ((hdiffers i hi).mpr hbright), List.length_range]
    exact iff_of_true (by decide) hbright
  · rw [List.countP_eq_zero.mpr fun i hi => by rw [decide_eq_true_iff, hdiffers i hi]; exact hbright]
    exact iff_of_false (by decide) hbright

theorem active_brightFrom {j k : Nat} (hj : j < 256) : ActiveColumn (brightFrom k) (brightFrom 256) j ↔ k ≤ j := by
  rw [brightFrom_eq k, active_stripes hj, decide_eq_true_iff]

theorem movedColumns_edge : movedColumns (brightFrom 250) (brightFrom 256) = [] := by
  refine List.eq_nil_iff_forall_not_mem.mpr fun r hr => ?_
  obtain ⟨a, b, -, hrun, hb, hwide⟩ := mem_movedColumns hr
  have hfirst := (active_brightFrom (by have := hrun.lt; omega)).mp (hrun.holds a hrun.lt (Nat.le_refl a))
  unfold objectSize at hwide
  omega

theorem edge_mem : (250, 256) ∈ movingRegions (brightFrom 250) (brightFrom 256) := by
  refine List.mem_filter.mpr ⟨mem_maximalRuns.mpr ⟨⟨by decide, fun j hj hj' => ?_, Or.inr ?_⟩, by decide, Or.inl rfl⟩,
    by decide⟩
  · exact (active_brightFrom hj).mpr hj'
  · rw [active_brightFrom (by decide)]
    decide

/-- A region of six columns at the right edge, which the detector leaves out. -/
theorem findsRegions_edge_counterexample :
    let o := (Detector.zero.detectFrame (fun _ => []) (brightFrom 256, 0)).detectFrame (fun _ => []) (brightFrom 250, 1)
    o.coordinate = [] ∧ (250, 256) ∈ movingRegions (brightFrom 250) (brightFrom 256) ∧
      ¬ o.FindsRegions (brightFrom 250) (brightFrom 256) := by
  have hcoordinate := detectFrame_coordinate (fun _ => []) Detector.zero (brightFrom 250) (brightFrom 256) 0 1 Nat.one_ne_zero
  rw [movedColumns_edge] at hcoordinate
  refine ⟨hcoordinate, edge_mem, fun h => ?_⟩
  have hnone := List.map_eq_nil_iff.mp (h.1.symm.trans hcoordinate)
  exact List.ne_nil_of_mem edge_mem hnone

/-- A region of twenty columns away from the edge. -/
theorem findsRegions_still : let bright := stripes fun j => decide (100 ≤ j ∧ j < 120)
    let o := (Detector.zero.detectFrame (fun _ => []) (brightFrom 256, 0)).detectFrame (fun _ => []) (bright, 1)
    o.FindsRegions bright (brightFrom 256) ∧ columnsRect (100, 120) ∈ o.coordinate := by
  intro bright o
  have hactive : ∀ j < 256, ActiveColumn bright (brightFrom 256) j ↔ 100 ≤ j ∧ j < 120 := fun j hj => by
    rw [active_stripes hj, decide_eq_true_iff]
  have hedge : ¬ RightEdgeActive bright (brightFrom 256) := fun hedge =>
    absurd ((hactive 255 (by decide)).mp (hedge 255 (by decide) (by decide))) (by decide)
  have hall : ∀ y last, ¬ RightEdgeActive y last → ((Detector.zero.detectFrame (fun _ => []) (last, 0)).detectFrame (fun _ => [])
      (y, 1)).FindsRegions y last := fun y last => (findsRegions_iff (fun _ => []) Detector.zero (last, 0) (y, 1) Nat.one_ne_zero).mpr
  have hfinds : o.FindsRegions bright (brightFrom 256) := hall bright (brightFrom 256) hedge
  have hleft : ¬ ActiveColumn bright (brightFrom 256) 99 := fun h => absurd ((hactive 99 (by decide)).mp h).1 (by decide)
  have hright : ¬ ActiveColumn bright (brightFrom 256) 120 := fun h => absurd ((hactive 120 (by decide)).mp h).2 (by decide)
  have hinside : ∀ j < 120, 100 ≤ j → ActiveColumn bright (brightFrom 256) j := fun j hj hj' =>
    (hactive j (by omega)).mpr ⟨hj', hj⟩
  have hregion : (100, 120) ∈ movingRegions bright (brightFrom 256) :=
    List.mem_filter.mpr ⟨mem_maximalRuns.mpr ⟨⟨by decide, hinside, .inr hleft⟩, by decide, .inr hright⟩, by decide⟩
  exact ⟨hfinds, hfinds.1 ▸ List.mem_map_of_mem hregion⟩

end Recbcsrv
