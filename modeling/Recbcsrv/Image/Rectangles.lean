import Mathlib.Algebra.Group.Action.Defs
import Mathlib.Algebra.Order.BigOperators.Group.List
import Recbcsrv.Image.Census
import Recbcsrv.Switch.Pan
import Recbcsrv.Switch.Regions

/-! The rectangles that `DetectFrame` reports, from any classification of the scanned windows and the columns that have moved. -/

namespace Recbcsrv
open RunScan

/-! ### Calls of the detector -/

def frameWidth : Int32 := 256

/-- An image with its number, and what `svm_predict` says of each window. -/
structure Classified where
  item : Filtered
  outcome : Nat × Nat → Bool

/-- The object after `DetectFrame` for an image. -/
def Detector.classify (o : Detector) (x : Classified) : Detector := o.detectFrame (fun _ => windowRects x.outcome) x.item

/-- What `DetectFrame` leaves in the frame. -/
def Detector.report (o : Detector) (x : Classified) : FrameResult := (o.call (fun _ => windowRects x.outcome) x.item).result

/-- The number that `DetectFrame` divides by. -/
def detectDivisor (cenCoord coordinate : List FrameRect) : Option Int32 :=
  match coordinate with
  | [] => if cenCoord = [] then none else some (.ofNat cenCoord.length)
  | first :: rest =>
    let left := first.x1
    let right := ((first :: rest).getLast (List.cons_ne_nil _ _)).x2
    let items := cenCoord.filter fun item => left - detectGap < item.x1 ∧ item.x2 < right + detectGap
    if items ≠ [] then some (.ofNat items.length) else none

/-- The windows whose average it takes: all, or those by the columns that have moved. -/
def averaged (cenCoord : List FrameRect) : List FrameRect → List FrameRect
  | [] => cenCoord
  | first :: rest => cenCoord.filter fun item => first.x1 - detectGap < item.x1 ∧
      item.x2 < ((first :: rest).getLast (List.cons_ne_nil _ _)).x2 + detectGap

/-- `DetectFrame` divides by this number in the two branches with an average, and in the others it does not divide. -/
theorem detectFrame_divides (cenCoord coordinate : List FrameRect) : detectFrame cenCoord coordinate =
    match detectDivisor cenCoord coordinate, coordinate with
    | some num, coordinate => leaveResult (if coordinate = [] then 1 else 3)
        ((FrameRect.sum (averaged cenCoord coordinate)).over num) ((averaged cenCoord coordinate).foldl .widen maxRectInit)
    | none, [] => leaveResult 0 ⟨0, 0, 0, 0⟩ maxRectInit
    | none, first :: rest =>
      let moved := ⟨first.x1, 0, ((first :: rest).getLast (List.cons_ne_nil _ _)).x2, frameHeight⟩
      leaveResult 2 moved (maxRectInit.widen moved) := by
  cases coordinate with
  | nil =>
    unfold detectFrame detectDivisor
    dsimp only
    by_cases hnone : cenCoord = []
    · rw [if_pos hnone, if_pos hnone]
    · rw [if_neg hnone, if_neg hnone]
      rfl
  | cons first rest =>
    unfold detectFrame detectDivisor
    dsimp only
    by_cases hitems : (cenCoord.filter fun item => first.x1 - detectGap < item.x1 ∧
        item.x2 < ((first :: rest).getLast (List.cons_ne_nil _ _)).x2 + detectGap) ≠ []
    · rw [if_pos hitems, if_pos hitems]
      rfl
    · rw [if_neg hitems, if_neg hitems]

/-- The rectangles lie in the frame and in each other, and the average of windows has their width. -/
structure FrameResult.Consistent (r : FrameResult) : Prop where
  maxLeft : 0 ≤ r.maxLeft
  left : r.maxLeft ≤ r.avgLeft
  width : r.avgLeft < r.avgRight
  right : r.avgRight ≤ r.maxRight
  maxRight : r.maxRight ≤ frameWidth
  top : 0 ≤ r.avgTop
  height : r.avgTop < r.avgBottom
  bottom : r.avgBottom ≤ frameHeight
  window : r.rect = 1 ∨ r.rect = 3 → r.avgRight - r.avgLeft = 52

/-- The difference of the sides does not wrap. -/
def DetectResult.Unwrapped (d : DetectResult) : Prop := d.maxLeft ≤ d.maxRight ∧ d.width = d.maxRight - d.maxLeft

/-- A call of `DetectFrame` keeps to the arrays, divides by no zero, and reports consistent rectangles. -/
structure Detector.Reports (o : Detector) (x : Classified) : Prop where
  cenRecNum : (o.classify x).cenCoord.length < coorSize
  recNum : (o.classify x).coordinate.length < coorSize
  divides : detectDivisor (o.classify x).cenCoord (o.classify x).coordinate ≠ some 0
  consistent : (o.report x).rect ≠ 0 → (o.report x).Consistent
  unsigned : ∀ m, (eventVid2df (o.report x)).Carried m →
    (getDetectResult m).Unwrapped ∧ ∀ inScreen, ((getDetectResult m).inScreenTest inScreen).2.Unwrapped

section
variable {ws : List (Nat × Nat)} {items : List FrameRect} {m : FrameRect} {a b n : Nat} {l : List Nat}

/-! ### Averages -/

theorem le_mean (hl : l ≠ []) (h : ∀ x ∈ l, a ≤ x) : a ≤ l.sum / l.length := by
  rw [Nat.le_div_iff_mul_le (List.length_pos_of_ne_nil hl), Nat.mul_comm]
  exact List.card_nsmul_le_sum l a h

theorem mean_le (h : ∀ x ∈ l, x ≤ b) : l.sum / l.length ≤ b :=
  Nat.div_le_of_le_mul (List.sum_le_card_nsmul l b h)

theorem ofNat_div (ha : a < 2 ^ 31) (hn : n < 2 ^ 31) : Int32.ofNat a / Int32.ofNat n = Int32.ofNat (a / n) := by
  have hlt := Nat.lt_of_le_of_lt (Nat.div_le_self a n) ha
  have hdiv : (a : Int).tdiv n = (a / n : Nat) := rfl
  rw [← Int32.toInt_inj, Int32.toInt_div, Int32.toInt_ofNat_of_lt ha, Int32.toInt_ofNat_of_lt hn, Int32.toInt_ofNat_of_lt hlt,
    hdiv]
  generalize a / n = q at hlt
  exact Int.bmod_eq_of_le (by omega) (by omega)

theorem sum_windowRect (ws : List (Nat × Nat)) : FrameRect.sum (ws.map windowRect) =
    ⟨.ofNat (ws.map Prod.snd).sum, .ofNat (ws.map Prod.fst).sum, .ofNat (ws.map fun x => x.2 + pWidth).sum,
      .ofNat (ws.map fun x => x.1 + pHeight).sum⟩ := by
  induction ws using List.reverseRecOn with
  | nil => rfl
  | append_singleton ws x ih =>
    unfold FrameRect.sum at ih ⊢
    rw [List.map_append, List.foldl_append, ih]
    simp only [List.map_append, List.map_cons, List.map_nil, List.foldl_cons, List.foldl_nil, List.sum_append,
      List.sum_singleton, Int32.ofNat_add, windowRect]

/-- The average of some windows. -/
theorem sum_over_windowRect (hws : ws ≠ []) (hlen : ws.length ≤ 60) (hscanned : ∀ x ∈ ws, x ∈ scannedWindows) :
    ∃ x y, (FrameRect.sum (ws.map windowRect)).over (.ofNat ws.length) = windowRect (x, y) ∧ 2 ≤ x ∧ x ≤ 62 ∧
      (∀ c, (∀ z ∈ ws, c ≤ z.2) → c ≤ y) ∧ ∀ c, (∀ z ∈ ws, z.2 ≤ c) → y ≤ c := by
  have hbounds : ∀ z ∈ scannedWindows, 2 ≤ z.1 ∧ z.1 ≤ 62 ∧ z.2 ≤ 191 := by decide
  have hsum : ∀ (f : Nat × Nat → Nat) (c : Nat), c ≤ 255 → (∀ z ∈ ws, f z ≤ c) → (ws.map f).sum < 2 ^ 31 := by
    intro f c hc hf
    have hle := List.sum_le_card_nsmul (ws.map f) c (List.forall_mem_map.mpr hf)
    rw [List.length_map, smul_eq_mul] at hle
    have := Nat.mul_le_mul hlen hc
    have := Nat.mul_le_mul_left ws.length hc
    omega
  have hmean : ∀ (f : Nat × Nat → Nat) (k : Nat), (ws.map fun z => f z + k).sum / ws.length = (ws.map f).sum / ws.length + k := by
    intro f k
    have hadd : (ws.map fun z => f z + k).sum = (ws.map f).sum + k * ws.length := by
      rw [List.sum_map_add, List.map_const', List.sum_replicate, smul_eq_mul, Nat.mul_comm]
    rw [hadd, Nat.add_mul_div_right _ _ (List.length_pos_of_ne_nil hws)]
  have hfst := hsum Prod.fst 62 (by omega) fun z hz => (hbounds z (hscanned z hz)).2.1
  have hsnd := hsum Prod.snd 191 (by omega) fun z hz => (hbounds z (hscanned z hz)).2.2
  have hright := hsum (fun z => z.2 + pWidth) 243 (by omega) fun z hz => by
    have := (hbounds z (hscanned z hz)).2.2
    simp only [pWidth]
    omega
  have hbottom := hsum (fun z => z.1 + pHeight) 134 (by omega) fun z hz => by
    have := (hbounds z (hscanned z hz)).2.1
    simp only [pHeight]
    omega
  have hmap : ∀ f : Nat × Nat → Nat, ws.map f ≠ [] := fun f h => hws (List.map_eq_nil_iff.mp h)
  have hlength : ∀ f : Nat × Nat → Nat, (ws.map f).length = ws.length := fun f => List.length_map f
  refine ⟨(ws.map Prod.fst).sum / ws.length, (ws.map Prod.snd).sum / ws.length, ?_, ?_, ?_, ?_, ?_⟩
  · rw [sum_windowRect, FrameRect.over, ofNat_div hsnd (by omega), ofNat_div hfst (by omega), ofNat_div hright (by omega),
      ofNat_div hbottom (by omega), hmean, hmean]
    rfl
  · rw [← hlength Prod.fst]
    exact le_mean (hmap _) (List.forall_mem_map.mpr fun z hz => (hbounds z (hscanned z hz)).1)
  · rw [← hlength Prod.fst]
    exact mean_le (List.forall_mem_map.mpr fun z hz => (hbounds z (hscanned z hz)).2.1)
  · intro c hc
    rw [← hlength Prod.snd]
    exact le_mean (hmap _) (List.forall_mem_map.mpr hc)
  · intro c hc
    rw [← hlength Prod.snd]
    exact mean_le (List.forall_mem_map.mpr hc)

/-! ### The widest rectangle -/

/-- The left side is the least one, and the right side the greatest. -/
theorem foldl_widen (c : Int) :
    (c ≤ (items.foldl .widen m).x1.toInt ↔ c ≤ m.x1.toInt ∧ ∀ item ∈ items, c ≤ item.x1.toInt) ∧
    ((items.foldl .widen m).x2.toInt ≤ c ↔ m.x2.toInt ≤ c ∧ ∀ item ∈ items, item.x2.toInt ≤ c) := by
  induction items generalizing m with
  | nil => simp
  | cons item items ih =>
    have hx1 : c ≤ (m.widen item).x1.toInt ↔ c ≤ m.x1.toInt ∧ c ≤ item.x1.toInt := by
      unfold FrameRect.widen
      dsimp only
      split
      · next h =>
        have := Int32.lt_iff_toInt_lt.mp h
        omega
      · next h =>
        have := mt Int32.lt_iff_toInt_lt.mpr h
        omega
    have hx2 : (m.widen item).x2.toInt ≤ c ↔ m.x2.toInt ≤ c ∧ item.x2.toInt ≤ c := by
      unfold FrameRect.widen
      dsimp only
      split
      · next h =>
        have := Int32.lt_iff_toInt_lt.mp h
        omega
      · next h =>
        have := mt Int32.lt_iff_toInt_lt.mpr h
        omega
    rw [List.foldl_cons, (ih (m := m.widen item)).1, (ih (m := m.widen item)).2, hx1, hx2, List.forall_mem_cons,
      List.forall_mem_cons, and_assoc, and_assoc]
    exact ⟨Iff.rfl, Iff.rfl⟩

/-! ### What is reported -/

theorem consistent_windows (hws : ws ≠ []) (hlen : ws.length ≤ 60) (hscanned : ∀ x ∈ ws, x ∈ scannedWindows) (flag : Int32) :
    (leaveResult flag ((FrameRect.sum (ws.map windowRect)).over (.ofNat ws.length))
      ((ws.map windowRect).foldl .widen maxRectInit)).Consistent := by
  have hbound : ∀ z ∈ scannedWindows, z.2 ≤ 191 := by decide
  obtain ⟨x, y, haverage, hx, hx', hleast, hgreatest⟩ := sum_over_windowRect hws hlen hscanned
  have hy := hgreatest 191 fun z hz => hbound z (hscanned z hz)
  have hleft : ∀ c : Int, c ≤ ((ws.map windowRect).foldl .widen maxRectInit).x1.toInt ↔ c ≤ 2147483647 ∧ ∀ z ∈ ws, c ≤ z.2 := by
    intro c
    rw [(foldl_widen c).1, List.forall_mem_map]
    refine and_congr Iff.rfl (forall₂_congr fun z hz => ?_)
    rw [windowRect, Int32.toInt_ofNat_of_lt (by have := hbound z (hscanned z hz); omega)]
  have hright : ∀ c : Int, ((ws.map windowRect).foldl .widen maxRectInit).x2.toInt ≤ c ↔
      -2147483648 ≤ c ∧ ∀ z ∈ ws, (z.2 : Int) + 52 ≤ c := by
    intro c
    rw [(foldl_widen c).2, List.forall_mem_map]
    refine and_congr Iff.rfl (forall₂_congr fun z hz => ?_)
    rw [windowRect, Int32.toInt_ofNat_of_lt (by have := hbound z (hscanned z hz); simp only [pWidth]; omega), pWidth,
      Nat.cast_add]
    rfl
  rw [haverage, leaveResult, windowRect]
  generalize (ws.map windowRect).foldl .widen maxRectInit = r at hleft hright
  have hzero := (hleft 0).mpr ⟨by decide, fun z _ => Int.natCast_nonneg z.2⟩
  have hframe := (hright 256).mpr ⟨by decide, fun z hz => by have := hbound z (hscanned z hz); omega⟩
  have hy' := hleast r.x1.toInt.toNat fun z hz => by have := ((hleft _).mp (Int.le_refl _)).2 z hz; omega
  have hyr := hgreatest (r.x2.toInt - 52).toNat fun z hz => by have := ((hright _).mp (Int.le_refl _)).2 z hz; omega
  have hpos : 0 ≤ r.x2.toInt - 52 := by
    obtain ⟨z, hz⟩ := List.exists_mem_of_ne_nil ws hws
    have := ((hright _).mp (Int.le_refl _)).2 z hz
    omega
  have hsmall : ∀ n ≤ 256, (Int32.ofNat n).toInt = n := fun n hn => Int32.toInt_ofNat_of_lt (by omega)
  refine ⟨?_, ?_, ?_, ?_, ?_, ?_, ?_, ?_, fun _ => ?_⟩
  · exact Int32.le_iff_toInt_le.mpr hzero
  · rw [Int32.le_iff_toInt_le, hsmall y (by omega)]
    change r.x1.toInt ≤ y
    omega
  · rw [Int32.lt_iff_toInt_lt, hsmall y (by omega), hsmall (y + pWidth) (by rw [pWidth]; omega), pWidth]
    omega
  · rw [Int32.le_iff_toInt_le, hsmall (y + pWidth) (by rw [pWidth]; omega), pWidth]
    change ((y + 52 : Nat) : Int) ≤ r.x2.toInt
    omega
  · exact Int32.le_iff_toInt_le.mpr hframe
  · rw [Int32.le_iff_toInt_le, hsmall x (by omega)]
    exact Int.natCast_nonneg x
  · rw [Int32.lt_iff_toInt_lt, hsmall x (by omega), hsmall (x + pHeight) (by rw [pHeight]; omega), pHeight]
    omega
  · rw [Int32.le_iff_toInt_le, hsmall (x + pHeight) (by rw [pHeight]; omega), pHeight]
    change ((x + 72 : Nat) : Int) ≤ 144
    omega
  · change Int32.ofNat (y + pWidth) - Int32.ofNat y = 52
    rw [Int32.ofNat_add, Int32.add_comm, Int32.add_sub_cancel]
    rfl

/-- A report from the columns that have moved. -/
theorem consistent_columns {l r : Nat} (hlr : l < r) (hr : r ≤ 256) :
    (leaveResult 2 ⟨.ofNat l, 0, .ofNat r, frameHeight⟩ (maxRectInit.widen ⟨.ofNat l, 0, .ofNat r, frameHeight⟩)).Consistent := by
  have hsmall : ∀ n ≤ 256, (Int32.ofNat n).toInt = n := fun n hn => Int32.toInt_ofNat_of_lt (by omega)
  have hl : maxRectInit.x1 > Int32.ofNat l := by
    rw [gt_iff_lt, Int32.lt_iff_toInt_lt, hsmall l (by omega)]
    change (l : Int) < 2147483647
    omega
  have hr' : maxRectInit.x2 < Int32.ofNat r := by
    rw [Int32.lt_iff_toInt_lt, hsmall r hr]
    change -2147483648 < (r : Int)
    omega
  unfold leaveResult FrameRect.widen
  dsimp only
  rw [if_pos hl, if_pos hr']
  refine ⟨?_, Int32.le_refl _, ?_, Int32.le_refl _, ?_, ?_, ?_, Int32.le_refl _, fun h => ?_⟩
  · rw [Int32.le_iff_toInt_le, hsmall l (by omega)]
    exact Int.natCast_nonneg l
  · rw [Int32.lt_iff_toInt_lt, hsmall l (by omega), hsmall r hr]
    omega
  · rw [Int32.le_iff_toInt_le, hsmall r hr]
    change (r : Int) ≤ 256
    omega
  · exact Int32.le_refl 0
  · change (0 : Int32) < 144
    decide
  · dsimp only at h
    split at h
    · exact absurd h (by decide)
    · exact absurd h (by decide)

/-- The windows among the rectangles that a test selects. -/
theorem filter_windowRects (outcome : Nat × Nat → Bool) (p : FrameRect → Bool) :
    ∃ ws : List (Nat × Nat), (windowRects outcome).filter p = ws.map windowRect ∧ ws.length ≤ 60 ∧ ∀ x ∈ ws, x ∈ scannedWindows := by
  refine ⟨(scannedWindows.filter outcome).filter (p ∘ windowRect), List.filter_map, ?_, ?_⟩
  · exact ((List.filter_sublist ..).trans (List.filter_sublist ..)).length_le
  · exact fun x hx => List.mem_of_mem_filter (List.mem_of_mem_filter hx)

theorem consistent_items {items : List FrameRect} {p : FrameRect → Bool} {outcome : Nat × Nat → Bool}
    (hitems : (windowRects outcome).filter p = items) (h : items ≠ []) (flag : Int32) :
    (leaveResult flag ((FrameRect.sum items).over (.ofNat items.length)) (items.foldl .widen maxRectInit)).Consistent := by
  obtain ⟨ws, hws, hlen, hscanned⟩ := filter_windowRects outcome p
  rw [hitems] at hws
  rw [hws, List.length_map]
  exact consistent_windows (fun hnil => h (by rw [hws, hnil, List.map_nil])) hlen hscanned flag

/-- The left side of the first region and the right side of the last. -/
theorem movedColumns_ends {y last : GreyImage} {first : FrameRect} {rest : List FrameRect}
    (h : movedColumns y last = first :: rest) : ∃ l r, first.x1 = .ofNat l ∧
      ((first :: rest).getLast (List.cons_ne_nil _ _)).x2 = .ofNat r ∧ l < r ∧ r ≤ 256 := by
  obtain ⟨found, hmoved, hordered, hfound⟩ := movedColumns_found y last
  rw [hmoved] at h
  cases found with
  | nil => cases h
  | cons x found =>
    obtain ⟨z, hz, hlast⟩ : ∃ z ∈ x :: found, (first :: rest).getLast (List.cons_ne_nil _ _) = columnsRect z := by
      have hmem := List.getLast_mem (List.cons_ne_nil first rest)
      generalize (first :: rest).getLast (List.cons_ne_nil _ _) = r at hmem ⊢
      rw [← h] at hmem
      obtain ⟨z, hz, heq⟩ := List.mem_map.mp hmem
      exact ⟨z, hz, heq.symm⟩
    have hxz : x.1 ≤ z.1 := by
      rcases List.mem_cons.mp hz with rfl | hz
      · exact Nat.le_refl _
      · exact Nat.le_of_lt ((List.pairwise_cons.mp hordered).1 z hz)
    obtain ⟨hrun, hr, -⟩ := hfound z hz
    refine ⟨x.1, z.2, ?_, ?_, Nat.lt_of_le_of_lt hxz hrun.lt, by omega⟩
    · rw [← (List.cons.inj h).1]
      rfl
    · rw [hlast]
      rfl

theorem detectFrame_consistent {y last : GreyImage} {coordinate : List FrameRect} (outcome : Nat × Nat → Bool)
    (h : coordinate = [] ∨ coordinate = movedColumns y last)
    (hflag : (detectFrame (windowRects outcome) coordinate).rect ≠ 0) :
    (detectFrame (windowRects outcome) coordinate).Consistent := by
  cases coordinate with
  | nil =>
    unfold detectFrame at hflag ⊢
    dsimp only at hflag ⊢
    by_cases hnone : windowRects outcome = []
    · rw [if_pos hnone] at hflag
      exact absurd rfl hflag
    · rw [if_neg hnone]
      exact consistent_items (List.filter_true _) hnone 1
  | cons first rest =>
    rcases h with h | h
    · cases h
    · obtain ⟨l, r, hl, hr, hlr, hr'⟩ := movedColumns_ends h.symm
      unfold detectFrame
      dsimp only
      split
      · next hitems => exact consistent_items rfl hitems 3
      · rw [hl, hr]
        exact consistent_columns hlr hr'

/-- The number of windows is at most the number of those that are scanned. -/
theorem detectDivisor_ne (outcome : Nat × Nat → Bool) (coordinate : List FrameRect) :
    detectDivisor (windowRects outcome) coordinate ≠ some 0 := by
  have hne : ∀ items : List FrameRect, items ≠ [] → items.length ≤ 60 → some (Int32.ofNat items.length) ≠ some 0 := by
    intro items hitems hlen heq
    have hpos := List.length_pos_of_ne_nil hitems
    have hzero := congrArg Int32.toInt (Option.some.inj heq)
    rw [Int32.toInt_ofNat_of_lt (by omega)] at hzero
    change (items.length : Int) = 0 at hzero
    omega
  have hlength : ∀ p, ((windowRects outcome).filter p).length ≤ 60 := by
    intro p
    obtain ⟨ws, hws, hlen, -⟩ := filter_windowRects outcome p
    rwa [hws, List.length_map]
  unfold detectDivisor
  split
  · split
    · exact (Option.some_ne_none _).symm
    · next hnone =>
      refine hne _ hnone ?_
      have := hlength fun _ => true
      rwa [List.filter_true] at this
  · dsimp only
    split
    · next hitems => exact hne _ hitems (hlength _)
    · exact (Option.some_ne_none _).symm

/-! ### The sides in the message -/

theorem word_of_nonneg {x : Int32} (h : 0 ≤ x) : (word x : Int) = x.toInt := by
  have hnonneg : 0 ≤ x.toInt := Int32.le_iff_toInt_le.mp h
  have hcond := BitVec.toInt_eq_toNat_cond x.toBitVec
  have hlt := x.toBitVec.isLt
  change (x.toBitVec.toNat : Int) = x.toBitVec.toInt
  change 0 ≤ x.toBitVec.toInt at hnonneg
  split at hcond
  · exact hcond.symm
  · omega

theorem unwrapped_of_le {d : DetectResult} (h : d.maxLeft ≤ d.maxRight) (hlt : d.maxRight < 2 ^ 32) : d.Unwrapped := by
  refine ⟨h, ?_⟩
  rw [DetectResult.width, BitVec.toNat_sub, BitVec.toNat_ofNat, BitVec.toNat_ofNat]
  omega

/-- The test whether the object is in the screen keeps the order of the sides. -/
theorem inScreenTest_le {d : DetectResult} (h : d.maxLeft ≤ d.maxRight) (inScreen : Int → Bool) :
    (d.inScreenTest inScreen).2.maxLeft ≤ (d.inScreenTest inScreen).2.maxRight ∧
      (d.inScreenTest inScreen).2.maxRight ≤ d.maxRight := by
  unfold DetectResult.inScreenTest DetectResult.leftBox DetectResult.rightBox
  dsimp only
  generalize (if d.width ≤ 52 then inScreen d.offset else inScreen d.leftOffset) = left
  generalize (if d.width ≤ 52 then inScreen d.offset else inScreen d.rightOffset) = right
  cases left <;> cases right
  · dsimp only
    split_ifs
    · exact ⟨h, Nat.le_refl _⟩
    · exact ⟨h, Nat.le_refl _⟩
    · exact ⟨h, Nat.le_refl _⟩
  · exact ⟨Nat.le_refl _, h⟩
  · exact ⟨Nat.le_refl _, Nat.le_refl _⟩
  · exact ⟨h, Nat.le_refl _⟩

/-- The sides are in order also when nothing is detected. -/
theorem getDetectResult_le {r : FrameResult} {m : Bytes.Mem} (hr : r.rect ≠ 0 → r.Consistent) (h : (eventVid2df r).Carried m) :
    (getDetectResult m).maxLeft ≤ (getDetectResult m).maxRight ∧ (getDetectResult m).maxRight < 2 ^ 32 := by
  rw [getDetectResult_eventVid2df h]
  split
  · next hpos =>
    have hc := hr fun h0 => by rw [h0] at hpos; exact Int32.lt_irrefl hpos
    have hleft := word_of_nonneg hc.maxLeft
    have hle := Int32.le_trans hc.left (Int32.le_trans (Int32.le_of_lt hc.width) hc.right)
    have hright := word_of_nonneg (Int32.le_trans hc.maxLeft hle)
    have hle := Int32.le_iff_toInt_le.mp hle
    refine ⟨?_, word_lt _⟩
    change word r.maxLeft ≤ word r.maxRight
    omega
  · exact ⟨Nat.le_refl _, Nat.two_pow_pos 32⟩

/-! ### Calls in a run -/

theorem classify_coordinate (o : Detector) (x : Classified) :
    ∃ last, (o.classify x).coordinate = [] ∨ (o.classify x).coordinate = movedColumns x.item.1 last := by
  refine ⟨(o.start x.item.2).lastImage, ?_⟩
  unfold Detector.classify Detector.detectFrame Detector.frameDiff
  dsimp only
  split
  · exact Or.inr rfl
  · exact Or.inl rfl

/-- A call reports consistent rectangles whatever the earlier ones have left in the object. -/
theorem classify_reports (o : Detector) (x : Classified) : o.Reports x := by
  obtain ⟨last, hcoordinate⟩ := classify_coordinate o x
  have hconsistent := detectFrame_consistent x.outcome hcoordinate
  refine ⟨?_, ?_, detectDivisor_ne x.outcome _, hconsistent, fun m hm => ?_⟩
  · obtain ⟨ws, hws, hlen, -⟩ := filter_windowRects x.outcome fun _ => true
    rw [List.filter_true] at hws
    change (windowRects x.outcome).length < coorSize
    rw [hws, List.length_map, coorSize]
    omega
  · rcases hcoordinate with h | h
    · rw [h]
      exact Nat.zero_lt_succ _
    · have := length_movedColumns_lt x.item.1 last
      rw [h]
      omega
  · obtain ⟨hle, hlt⟩ := getDetectResult_le hconsistent hm
    refine ⟨unwrapped_of_le hle hlt, fun inScreen => ?_⟩
    obtain ⟨hle', hle''⟩ := inScreenTest_le hle inScreen
    exact unwrapped_of_le hle' (Nat.lt_of_le_of_lt hle'' hlt)

end

/-- Every call of a run reports consistent rectangles. -/
theorem detector_reports (pre : List Classified) (x : Classified) : (pre.foldl Detector.classify .zero).Reports x :=
  classify_reports _ x

/-- Two windows of a first image; two windows beside columns that have moved, which only one of them is near. -/
example : (Detector.zero.report ⟨(List.replicate (144 * 256) 0, 0), fun w => w = (2, 2) ∨ w = (14, 23)⟩,
    detectFrame [windowRect (2, 2), windowRect (14, 191)] [⟨30, 0, 40, frameHeight⟩]) =
      (⟨1, 8, 12, 80, 64, 0, 2, 144, 75⟩, ⟨3, 2, 2, 74, 54, 0, 2, 144, 54⟩) := by
  decide

end Recbcsrv
