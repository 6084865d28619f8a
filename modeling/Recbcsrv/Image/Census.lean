import Recbcsrv.Lib.Exec
import Recbcsrv.Lib.Stores
import Recbcsrv.Switch.Motion

/-! The classifier (`CtImage.c`): the gradient of an image, its census transform, and the histograms of the transform over the
    windows that are scanned. Both images stand in memory that `malloc` gives, and their borders are never stored to. -/

namespace Recbcsrv
open SProd

/-! ### The images -/

/-- An image in memory; a pixel that was not stored since `malloc` may have no value. -/
abbrev Pixels := Nat → Option UInt8

def pHeight : Nat := 72
def pWidth : Nat := 52
def bHeight : Nat := pHeight / 9
def bWidth : Nat := pWidth / 4
def sbnumH : Nat := 8
def sbnumW : Nat := 3
def dim : Nat := 6144

/-- What is computed with floating point and with the trained model: `(uchar)sqrt((float)(gx*gx+gy*gy))`, an entry of
    `testSV` from its number and its count, and whether `svm_predict` is not 0. -/
structure Classifier where
  magnitude : Int → Int → UInt8
  scale : Nat → Nat → Int
  predict : List Int → Bool

/-- A pixel of `sobelImage`. -/
def sobelPixel (magnitude : Int → Int → UInt8) (image : Nat → UInt8) (width i j : Nat) : UInt8 :=
  let p (i j : Nat) : Int := (image (i * width + j)).toNat
  let gx := p (i - 1) (j - 1) - p (i - 1) (j + 1) + 2 * (p i (j - 1) - p i (j + 1)) + p (i + 1) (j - 1) - p (i + 1) (j + 1)
  let gy := p (i - 1) (j - 1) - p (i + 1) (j - 1) + 2 * (p (i - 1) j - p (i + 1) j) + p (i - 1) (j + 1) - p (i + 1) (j + 1)
  let value := magnitude gx gy
  if value > 10 then value else 0

/-- The stores of `ComputeSobel` to `sobelImage`. -/
def computeSobel (magnitude : Int → Int → UInt8) (image : Nat → UInt8) (height width : Nat) : List (Nat × Option UInt8) :=
  Stores.grid (List.range' 1 (height - 2)) (List.range' 1 (width - 2)) width fun i j => some (sobelPixel magnitude image width i j)

/-- A pixel of `ctImage`: a bit for each neighbour that is not below it. -/
def ctPixel (image : Pixels) (width i j : Nat) : Option UInt8 := do
  let p (i j : Nat) : Option UInt8 := image (i * width + j)
  let c ← p i j
  let bit (q w : UInt8) : UInt8 := if c ≤ q then w else 0
  return bit (← p (i - 1) (j - 1)) 0x80 + bit (← p (i - 1) j) 0x40 + bit (← p (i - 1) (j + 1)) 0x20 +
    bit (← p i (j - 1)) 0x10 + bit (← p i (j + 1)) 0x08 +
    bit (← p (i + 1) (j - 1)) 0x04 + bit (← p (i + 1) j) 0x02 + bit (← p (i + 1) (j + 1)) 0x01

/-- The stores of `ComputeCt` to `ctImage`. There is no result when it looks at a pixel without a value. -/
def computeCt (image : Pixels) (height width : Nat) : Option (List (Nat × Option UInt8)) :=
  (List.range' 2 (height - 4) ×ˢ List.range' 2 (width - 4)).mapM fun x =>
    (ctPixel image width x.1 x.2).map fun v => (x.1 * width + x.2, some v)

/-! ### The windows -/

/-- The turns of the loops of `GetFeatureVector`: the first index of the histogram of a block, and a place of `ctImage`. -/
def featurePixels (t l width : Nat) : List (Nat × Nat) :=
  (List.range sbnumH ×ˢ List.range sbnumW).flatMap fun b =>
    (List.range' 1 (bHeight * 2 - 2) ×ˢ List.range' 1 (bWidth * 2 - 2)).map fun x =>
      ((b.1 * sbnumW + b.2) * 256, (t + b.1 * bHeight + x.1) * width + (l + b.2 * bWidth + x.2))

/-- One turn. There is no result for a pixel without a value, or an index that `feature` does not have. -/
def countPixel (ctImage : Pixels) (feature : Nat → Nat) (x : Nat × Nat) : Option (Nat → Nat) := do
  let index := x.1 + (← ctImage x.2).toNat
  if index < dim then some (Function.update feature index (feature index + 1)) else none

/-- `feature` in `GetFeatureVector`. -/
def histogram (ctImage : Pixels) (t l width : Nat) : Option (Nat → Nat) :=
  Exec.exec (countPixel ctImage) (fun _ => 0) (featurePixels t l width)

/-- `testSV` after `GetFeatureVector`. -/
def getFeatureVector (c : Classifier) (ctImage : Pixels) (t l width : Nat) : Option (List Int) :=
  (histogram ctImage t l width).map fun feature => (List.range dim).map fun i => c.scale i (feature i)

/-- The windows `(x, y)` that `FrameCentrist` scans. -/
def scannedWindows : List (Nat × Nat) :=
  List.range' 2 ((144 - pHeight - 2 - 2) / (144 / 12) + 1) (144 / 12) ×ˢ
    List.range' 2 ((256 - pWidth - 2 - 2) / (256 / 12) + 1) (256 / 12)

/-- The entry of `cenCoord` for a window. -/
def windowRect (x : Nat × Nat) : FrameRect := ⟨.ofNat x.2, .ofNat x.1, .ofNat (x.2 + pWidth), .ofNat (x.1 + pHeight)⟩

/-- The entries for the windows with an outcome other than 0. -/
def windowRects (outcome : Nat × Nat → Bool) : List FrameRect := (scannedWindows.filter outcome).map windowRect

/-- A turn of the loops of `FrameCentrist`. -/
def scanWindow (c : Classifier) (ctImage : Pixels) (cenCoord : List FrameRect) (x : Nat × Nat) : Option (List FrameRect) :=
  (getFeatureVector c ctImage x.1 x.2 256).map fun testSV =>
    if c.predict testSV then cenCoord ++ [windowRect x] else cenCoord

/-- `FrameCentrist`, from what the memory of the two images holds: `cenCoord[0..cenRecNum-1]`. -/
def frameCentrist (c : Classifier) (y : GreyImage) (sobelImage ctImage : Pixels) : Option (List FrameRect) := do
  let sobelImage := Stores.apply sobelImage (computeSobel c.magnitude (y.getD · 0) 144 256)
  let ctImage := Stores.apply ctImage (← computeCt sobelImage 144 256)
  Exec.exec (scanWindow c ctImage) [] scannedWindows

/-! ### What is looked at -/

section
variable {c : Classifier} {y : GreyImage} {image image' ctImage ctImage' m : Pixels} {width i j t l : Nat} {x : Nat × Nat}

/-- The census looks at a pixel and its eight neighbours. -/
theorem ctPixel_congr (h : ∀ k ∈ [i - 1, i, i + 1], ∀ n ∈ [j - 1, j, j + 1], image (k * width + n) = image' (k * width + n)) :
    ctPixel image width i j = ctPixel image' width i j := by
  simp only [List.forall_mem_cons, List.not_mem_nil, false_imp_iff, implies_true, and_true] at h
  obtain ⟨⟨h1, h2, h3⟩, ⟨h4, h5, h6⟩, h7, h8, h9⟩ := h
  simp only [ctPixel, h1, h2, h3, h4, h5, h6, h7, h8, h9]

theorem ctPixel_isSome (h : ∀ k ∈ [i - 1, i, i + 1], ∀ n ∈ [j - 1, j, j + 1], (image (k * width + n)).isSome) :
    (ctPixel image width i j).isSome := by
  simp only [List.forall_mem_cons, List.not_mem_nil, false_imp_iff, implies_true, and_true, Option.isSome_iff_exists] at h
  obtain ⟨⟨⟨a, ha⟩, ⟨b, hb⟩, d, hd⟩, ⟨⟨e, he⟩, ⟨f, hf⟩, g, hg⟩, ⟨o, ho⟩, ⟨p, hp⟩, q, hq⟩ := h
  simp [ctPixel, ha, hb, hd, he, hf, hg, ho, hp, hq]

/-- `sobelImage` in memory that held `m`. -/
def sobelOf (c : Classifier) (y : GreyImage) (m : Pixels) : Pixels :=
  Stores.apply m (computeSobel c.magnitude (y.getD · 0) 144 256)

theorem sobelOf_eq (hi : 1 ≤ i ∧ i < 143) (hj : 1 ≤ j ∧ j < 255) :
    sobelOf c y m (i * 256 + j) = some (sobelPixel c.magnitude (y.getD · 0) 256 i j) := by
  refine Stores.apply_grid ?_ (List.mem_range'_1.mpr ⟨hi.1, by omega⟩) (List.mem_range'_1.mpr ⟨hj.1, by omega⟩)
  intro k hk
  have := List.mem_range'_1.mp hk
  omega

/-- A pixel of the census of an image. -/
def census (c : Classifier) (y : GreyImage) (i j : Nat) : UInt8 := (ctPixel (sobelOf c y fun _ => none) 256 i j).getD 0

theorem ctPixel_sobelOf (hi : 2 ≤ i ∧ i < 142) (hj : 2 ≤ j ∧ j < 254) :
    ctPixel (sobelOf c y m) 256 i j = some (census c y i j) := by
  have hstored : ∀ k ∈ [i - 1, i, i + 1], ∀ n ∈ [j - 1, j, j + 1], (1 ≤ k ∧ k < 143) ∧ 1 ≤ n ∧ n < 255 := by
    intro k hk n hn
    simp only [List.mem_cons, List.not_mem_nil, or_false] at hk hn
    omega
  have hvalue : (ctPixel (sobelOf c y fun _ => none) 256 i j).isSome := by
    refine ctPixel_isSome fun k hk n hn => ?_
    rw [sobelOf_eq (hstored k hk n hn).1 (hstored k hk n hn).2]
    rfl
  obtain ⟨v, hv⟩ := Option.isSome_iff_exists.mp hvalue
  rw [census, hv, Option.getD_some, ← hv]
  refine ctPixel_congr fun k hk n hn => ?_
  rw [sobelOf_eq (hstored k hk n hn).1 (hstored k hk n hn).2, sobelOf_eq (hstored k hk n hn).1 (hstored k hk n hn).2]

/-- `ctImage` in memory that held `m`. -/
def ctOf (c : Classifier) (y : GreyImage) (m : Pixels) : Pixels :=
  Stores.apply m (Stores.grid (List.range' 2 140) (List.range' 2 252) 256 fun i j => some (census c y i j))

theorem ctOf_eq (hi : 2 ≤ i ∧ i < 142) (hj : 2 ≤ j ∧ j < 254) : ctOf c y m (i * 256 + j) = some (census c y i j) := by
  refine Stores.apply_grid ?_ (List.mem_range'_1.mpr ⟨hi.1, by omega⟩) (List.mem_range'_1.mpr ⟨hj.1, by omega⟩)
  intro k hk
  have := List.mem_range'_1.mp hk
  omega

/-- `ComputeCt` looks at stored pixels only. -/
theorem computeCt_sobelOf (c : Classifier) (y : GreyImage) (m image : Pixels) :
    (computeCt (sobelOf c y m) 144 256).map (Stores.apply image) = some (ctOf c y image) := by
  have hpixel : ∀ x ∈ List.range' 2 140 ×ˢ List.range' 2 252, ((ctPixel (sobelOf c y m) 256 x.1 x.2).map fun v =>
      (x.1 * 256 + x.2, some v)) = some (x.1 * 256 + x.2, some (census c y x.1 x.2)) := by
    intro x hx
    obtain ⟨hi, hj⟩ := List.mem_product.mp hx
    have hi := List.mem_range'_1.mp hi
    have hj := List.mem_range'_1.mp hj
    rw [ctPixel_sobelOf ⟨hi.1, by omega⟩ ⟨hj.1, by omega⟩]
    rfl
  have hct : computeCt (sobelOf c y m) 144 256 = some (Stores.grid (List.range' 2 140) (List.range' 2 252) 256 fun i j =>
      some (census c y i j)) := Stores.mapM_of_forall hpixel
  rw [hct, Option.map_some, ctOf]

/-! ### The histograms -/

/-- The places of a scanned window lie in the part of `ctImage` that is stored. -/
theorem mem_featurePixels (hx : x ∈ scannedWindows) {q : Nat × Nat} (hq : q ∈ featurePixels x.1 x.2 256) :
    q.1 + 256 ≤ dim ∧ ∃ i j, (2 ≤ i ∧ i < 142) ∧ (2 ≤ j ∧ j < 254) ∧ q.2 = i * 256 + j := by
  obtain ⟨ht, hl⟩ := List.mem_product.mp hx
  obtain ⟨b, hb, hq⟩ := List.mem_flatMap.mp hq
  obtain ⟨d, hd, rfl⟩ := List.mem_map.mp hq
  obtain ⟨hb1, hb2⟩ := List.mem_product.mp hb
  obtain ⟨hd1, hd2⟩ := List.mem_product.mp hd
  obtain ⟨k, hk, ht⟩ := List.mem_range'.mp ht
  obtain ⟨n, hn, hl⟩ := List.mem_range'.mp hl
  simp only [List.mem_range, List.mem_range'_1, sbnumH, sbnumW, bHeight, bWidth, pHeight, pWidth] at hb1 hb2 hd1 hd2 hk hn
  refine ⟨?_, x.1 + b.1 * bHeight + d.1, x.2 + b.2 * bWidth + d.2, ?_, ?_, rfl⟩
  · simp only [sbnumW, dim]
    omega
  · simp only [bHeight, pHeight]
    omega
  · simp only [bWidth, pWidth]
    omega

/-- The count for a place of the census. -/
def countCensus (c : Classifier) (y : GreyImage) (feature : Nat → Nat) (q : Nat × Nat) : Nat → Nat :=
  let index := q.1 + (census c y (q.2 / 256) (q.2 % 256)).toNat
  Function.update feature index (feature index + 1)

/-- The counts over a window. -/
def windowFeature (c : Classifier) (y : GreyImage) (x : Nat × Nat) : Nat → Nat :=
  (featurePixels x.1 x.2 256).foldl (countCensus c y) fun _ => 0

theorem countPixel_ctOf (hx : x ∈ scannedWindows) {q : Nat × Nat} (hq : q ∈ featurePixels x.1 x.2 256) (feature : Nat → Nat) :
    countPixel (ctOf c y m) feature q = some (countCensus c y feature q) := by
  obtain ⟨hdim, i, j, hi, hj, hplace⟩ := mem_featurePixels hx hq
  have hrow : q.2 / 256 = i := by omega
  have hcol : q.2 % 256 = j := by omega
  have hindex : q.1 + (census c y i j).toNat < dim := by
    have := (census c y i j).toNat_lt
    omega
  rw [countPixel, countCensus, hrow, hcol, hplace, ctOf_eq hi hj, Option.bind_eq_bind, Option.bind_some, if_pos hindex]

theorem histogram_ctOf (hx : x ∈ scannedWindows) : histogram (ctOf c y m) x.1 x.2 256 = some (windowFeature c y x) :=
  Exec.exec_eq_foldl fun feature _ hq => countPixel_ctOf hx hq feature

/-! ### The windows found -/

/-- What `svm_predict` says of a window. -/
def outcome (c : Classifier) (y : GreyImage) (x : Nat × Nat) : Bool :=
  c.predict ((List.range dim).map fun i => c.scale i (windowFeature c y x i))

theorem frameCentrist_eq (c : Classifier) (y : GreyImage) (sobelImage ctImage : Pixels) :
    frameCentrist c y sobelImage ctImage = some (windowRects (outcome c y)) := by
  have hscan : ∀ (cenCoord : List FrameRect), ∀ x ∈ scannedWindows, scanWindow c (ctOf c y ctImage) cenCoord x =
      some (if outcome c y x then cenCoord ++ [windowRect x] else cenCoord) := by
    intro cenCoord x hx
    rw [scanWindow, getFeatureVector, histogram_ctOf hx]
    rfl
  have hfound : ∀ (l : List (Nat × Nat)) (cenCoord : List FrameRect),
      l.foldl (fun cenCoord x => if outcome c y x then cenCoord ++ [windowRect x] else cenCoord) cenCoord =
        cenCoord ++ (l.filter (outcome c y)).map windowRect := by
    intro l
    induction l with
    | nil => simp
    | cons x l ih =>
      intro cenCoord
      rw [List.foldl_cons, ih]
      by_cases hx : outcome c y x = true
      · rw [if_pos hx, List.filter_cons_of_pos hx, List.map_cons, List.append_assoc, List.singleton_append]
      · rw [if_neg hx, List.filter_cons_of_neg hx]
  obtain ⟨stores, hstores, happly⟩ := Option.map_eq_some_iff.mp (computeCt_sobelOf c y sobelImage ctImage)
  rw [sobelOf] at hstores
  simp only [frameCentrist, hstores, Option.bind_eq_bind, Option.bind_some, happly]
  rw [Exec.exec_eq_foldl hscan, hfound, List.nil_append, windowRects]

/-- What `FrameCentrist` finds does not depend on what the memory of the two images holds, and it never looks at a pixel without
    a value. -/
theorem frameCentrist_reads_stored (c : Classifier) (y : GreyImage) :
    (∀ sobelImage ctImage sobelImage' ctImage',
      frameCentrist c y sobelImage ctImage = frameCentrist c y sobelImage' ctImage') ∧
    (frameCentrist c y (fun _ => none) fun _ => none).isSome := by
  constructor
  · intro sobelImage ctImage sobelImage' ctImage'
    rw [frameCentrist_eq, frameCentrist_eq]
  · rw [frameCentrist_eq]
    rfl

end

end Recbcsrv
