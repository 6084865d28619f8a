import Mathlib.Algebra.Group.Even
import Mathlib.Data.List.GetD
import Recbcsrv.Lib.Stores
import Recbcsrv.Switch.Motion

/-! The conversions of an interleaved 4:2:2 image, with the ints that they compute: to three planes, to a luma plane and the
    interleaved chroma of every second row, and to the luma plane alone. -/

namespace Recbcsrv.Converter
open Stores (asInt apply)

/-- A loop `dest[i] = src[stride*i+first]`. There is no result when an int overflows, or a byte lies outside the image. -/
def plane (src : List UInt8) (dest count stride first : Nat) : Option (List (Nat × UInt8)) :=
  (List.range count).mapM fun (i : Nat) =>
    (asInt (stride * i)).bind fun k => (asInt (k + first)).bind fun k => src[k.toNat]?.map fun v => (dest + i, v)

/-- `yuv422_to_planner`: its stores and its result. -/
def yuv422ToPlanner (src : List UInt8) (imageWidth imageHeight : Nat) : Option (List (Nat × UInt8) × Int) := do
  let n := (← asInt (imageWidth * imageHeight)).toNat
  let y ← plane src 0 n 2 0
  let u ← plane src n (n / 2) 4 1
  let v ← plane src (n + n / 2) (n / 2) 4 3
  return (y ++ u ++ v, ← asInt (n * 2))

/-- A turn of the outer loop of `yuv422_to_yuv420`. -/
def chromaRow (src : List UInt8) (imageWidth n j : Nat) : Option (List (Nat × UInt8)) := do
  let row ← plane (src.drop (imageWidth * 4 * j)) (n + imageWidth * j) imageWidth 2 1
  let _ ← asInt (imageWidth * 4)
  return row

def yuv422ToYuv420 (src : List UInt8) (imageWidth imageHeight : Nat) : Option (List (Nat × UInt8) × Int) := do
  let n := (← asInt (imageHeight * imageWidth)).toNat
  let y ← plane src 0 n 2 0
  let chroma ← (List.range (imageHeight / 2)).mapM (chromaRow src imageWidth n)
  return (y ++ chroma.flatten, (← asInt (n * 3)) / 2)

def yuv422ToY (src : List UInt8) (imageWidth imageHeight : Nat) : Option (List (Nat × UInt8) × Int) := do
  let n := (← asInt (imageHeight * imageWidth)).toNat
  return (← plane src 0 n 2 0, n)

/-- The image of the three planes in `dest`, of which the first has `n` bytes. -/
def reinterleave (dest : Nat → UInt8) (n : Nat) : List UInt8 :=
  (List.range (n / 2)).flatMap fun i => [dest (2 * i), dest (n + i), dest (2 * i + 1), dest (n + n / 2 + i)]

/-- A conversion stores to each of its bytes once, and its result is their number. -/
def Writes (r : Option (List (Nat × UInt8) × Int)) (stores : List (Nat × UInt8)) (n : Nat) : Prop :=
  r = some (stores, (n : Int)) ∧ stores.map Prod.fst = List.range n

/-- The stores of the conversions to three planes and to the luma plane alone. -/
structure Lossless (src : List UInt8) (w h : Nat) (planner y : List (Nat × UInt8)) : Prop where
  writesPlanner : Writes (yuv422ToPlanner src w h) planner (2 * (w * h))
  writesY : Writes (yuv422ToY src w h) y (w * h)
  lossless : ∀ dest, reinterleave (apply dest planner) (w * h) = src
  luma : ∀ dest dest', ∀ p < w * h, apply dest planner p = apply dest' y p

/-- The stores of the three conversions of an image. -/
structure Agree (src : List UInt8) (w h : Nat) (planner yuv420 y : List (Nat × UInt8)) : Prop where
  writesPlanner : Writes (yuv422ToPlanner src w h) planner (2 * (w * h))
  writesYuv420 : Writes (yuv422ToYuv420 src w h) yuv420 (3 * (w * h) / 2)
  writesY : Writes (yuv422ToY src w h) y (w * h)
  lossless : ∀ dest, reinterleave (apply dest planner) (w * h) = src
  luma : ∀ dest dest' dest'', ∀ p < w * h, apply dest planner p = apply dest' yuv420 p ∧ apply dest planner p = apply dest'' y p
  chroma : ∀ dest, ∀ j < h / 2, ∀ i < w,
    apply dest yuv420 (w * h + w * j + i) = src.getD (2 * w * (2 * j) + (2 * i + 1)) 0

section
variable {src : List UInt8} {w h n dest count stride first : Nat}

theorem plane_eq (hlen : src.length < 2 ^ 31) (h : ∀ i < count, stride * i + first < src.length) :
    plane src dest count stride first = some ((List.range count).map fun i => (dest + i, src.getD (stride * i + first) 0)) := by
  refine Stores.mapM_of_forall fun i hi => ?_
  have hplace := h i (List.mem_range.mp hi)
  have hint : asInt ((stride : Int) * i) = some ((stride * i : Nat) : Int) := by
    rw [← Nat.cast_mul]
    exact Stores.asInt_natCast (by omega)
  rw [hint, Option.bind_some, ← Nat.cast_add, Stores.asInt_natCast (by omega), Option.bind_some, Int.toNat_natCast,
    List.getElem?_eq_getElem hplace, List.getD_eq_getElem _ _ hplace]
  rfl

theorem getD_drop (src : List UInt8) (k i : Nat) : (src.drop k).getD i 0 = src.getD (k + i) 0 := by
  rw [List.getD_eq_getElem?_getD, List.getElem?_drop, List.getD_eq_getElem?_getD]

/-! ### What is stored -/

/-- A byte of the three planes of which the first has `n`. -/
def planarByte (src : List UInt8) (n p : Nat) : UInt8 :=
  if p < n then src.getD (2 * p) 0
  else if p < n + n / 2 then src.getD (4 * (p - n) + 1) 0 else src.getD (4 * (p - (n + n / 2)) + 3) 0

theorem yuv422ToPlanner_eq (heven : Even (w * h)) (hlen : src.length = 2 * (w * h)) (hint : 2 * (w * h) < 2 ^ 31) :
    yuv422ToPlanner src w h = some ((List.range (2 * (w * h))).map fun p => (p, planarByte src (w * h) p),
      ((2 * (w * h) : Nat) : Int)) := by
  have hn : asInt ((w : Int) * h) = some ((w * h : Nat) : Int) := by
    rw [← Nat.cast_mul]
    exact Stores.asInt_natCast (by omega)
  rw [yuv422ToPlanner, hn]
  generalize w * h = n at heven hlen hint
  obtain ⟨k, rfl⟩ := heven
  have hhalf : (k + k) / 2 = k := by omega
  have htotal : 2 * (k + k) = k + k + k + k := by omega
  have hresult : asInt (((k + k : Nat) : Int) * 2) = some ((2 * (k + k) : Nat) : Int) := by
    rw [Int.mul_comm]
    exact Stores.asInt_natCast hint
  simp only [Option.bind_eq_bind, Option.bind_some, Int.toNat_natCast, hhalf]
  rw [plane_eq (by omega) fun i hi => by omega, plane_eq (by omega) fun i hi => by omega,
    plane_eq (by omega) fun i hi => by omega, hresult]
  simp only [Option.bind_some, Option.pure_def, Option.some.injEq, Prod.mk.injEq, and_true]
  have hlast : List.range (k + k + k + k) = List.range (k + k + k) ++ (List.range k).map (k + k + k + ·) := List.range_add
  have hmid : List.range (k + k + k) = List.range (k + k) ++ (List.range k).map (k + k + ·) := List.range_add
  rw [htotal, hlast, hmid, List.map_append, List.map_append, List.map_map, List.map_map]
  unfold planarByte
  rw [hhalf]
  refine congrArg₂ _ (congrArg₂ _ ?_ ?_) ?_
  · refine List.map_congr_left fun i hi => ?_
    rw [Nat.zero_add, if_pos (List.mem_range.mp hi), Nat.add_zero]
  · refine List.map_congr_left fun i hi => ?_
    have := List.mem_range.mp hi
    dsimp only [Function.comp]
    rw [if_neg (by omega), if_pos (by omega), Nat.add_sub_cancel_left]
  · refine List.map_congr_left fun i hi => ?_
    dsimp only [Function.comp]
    rw [if_neg (by omega), if_neg (by omega), Nat.add_sub_cancel_left]

/-- A byte of the luma plane and of the chroma rows behind it. -/
def rowByte (src : List UInt8) (w n p : Nat) : UInt8 :=
  if p < n then src.getD (2 * p) 0 else src.getD (w * 4 * ((p - n) / w) + (2 * ((p - n) % w) + 1)) 0

theorem chromaRow_eq {j : Nat} (hn : src.length < 2 ^ 31) (hfit : w * 4 * j + w * 4 ≤ src.length) :
    chromaRow src w n j = some ((List.range w).map fun i => (n + (w * j + i), src.getD (w * 4 * j + (2 * i + 1)) 0)) := by
  have hstep := Stores.asInt_natCast (n := w * 4) (by omega)
  push_cast at hstep
  have hrow : plane (src.drop (w * 4 * j)) (n + w * j) w 2 1 =
      some ((List.range w).map fun i => (n + (w * j + i), src.getD (w * 4 * j + (2 * i + 1)) 0)) := by
    rw [plane_eq (by rw [List.length_drop]; omega) fun i hi => by rw [List.length_drop]; omega]
    simp only [getD_drop, Nat.add_assoc]
  rw [chromaRow, hrow, hstep]
  rfl

theorem yuv422ToYuv420_eq (heven : Even h) (hlen : src.length = 2 * (w * h)) (hint : 3 * (w * h) < 2 ^ 31) :
    yuv422ToYuv420 src w h = some ((List.range (3 * (w * h) / 2)).map fun p => (p, rowByte src w (w * h) p),
      ((3 * (w * h) / 2 : Nat) : Int)) := by
  have hn : asInt ((h : Int) * w) = some ((w * h : Nat) : Int) := by
    rw [← Nat.cast_mul, Nat.mul_comm h w]
    exact Stores.asInt_natCast (by omega)
  obtain ⟨k, rfl⟩ := heven
  have hhalf : (k + k) / 2 = k := by omega
  have hnk : w * (k + k) = w * k + w * k := Nat.mul_add w k k
  have htotal : 3 * (w * (k + k)) / 2 = w * (k + k) + w * k := by omega
  have hchroma : (List.range k).mapM (chromaRow src w (w * (k + k))) = some ((List.range k).map fun j => (List.range w).map fun i =>
      (w * (k + k) + (w * j + i), src.getD (w * 4 * j + (2 * i + 1)) 0)) := by
    refine Stores.mapM_of_forall fun j hj => chromaRow_eq (by omega) ?_
    have := Nat.mul_le_mul_left w (List.mem_range.mp hj)
    rw [Nat.mul_succ] at this
    rw [Nat.mul_right_comm]
    omega
  have hflat : ((List.range k).map fun j => (List.range w).map fun i =>
      (w * (k + k) + (w * j + i), src.getD (w * 4 * j + (2 * i + 1)) 0)).flatten =
        (List.range (w * k)).map fun q => (w * (k + k) + q, src.getD (w * 4 * (q / w) + (2 * (q % w) + 1)) 0) := by
    rw [← Stores.flatMap_range, List.flatMap_def]
    refine congrArg List.flatten (List.map_congr_left fun j _ => List.map_congr_left fun i hi => ?_)
    have hplace := Stores.row_div_mod (i := j) (List.mem_range.mp hi)
    rw [hplace.1, hplace.2]
  have hresult : asInt (((w * (k + k) : Nat) : Int) * 3) = some ((3 * (w * (k + k)) : Nat) : Int) := by
    rw [Int.mul_comm]
    exact Stores.asInt_natCast hint
  rw [yuv422ToYuv420, hn]
  simp only [Option.bind_eq_bind, Option.bind_some, Int.toNat_natCast, hhalf]
  rw [plane_eq (by omega) fun i hi => by omega, hchroma, hresult]
  simp only [Option.bind_some, Option.pure_def, Option.some.injEq, Prod.mk.injEq]
  refine ⟨?_, rfl⟩
  rw [hflat, htotal, List.range_add, List.map_append, List.map_map]
  unfold rowByte
  refine congrArg₂ _ ?_ ?_
  · refine List.map_congr_left fun i hi => ?_
    rw [Nat.zero_add, if_pos (List.mem_range.mp hi), Nat.add_zero]
  · refine List.map_congr_left fun i hi => ?_
    dsimp only [Function.comp]
    rw [if_neg (by omega), Nat.add_sub_cancel_left]

theorem yuv422ToY_eq (hlen : src.length = 2 * (w * h)) (hint : 2 * (w * h) < 2 ^ 31) :
    yuv422ToY src w h = some ((List.range (w * h)).map fun p => (p, src.getD (2 * p) 0), ((w * h : Nat) : Int)) := by
  have hn : asInt ((h : Int) * w) = some ((w * h : Nat) : Int) := by
    rw [← Nat.cast_mul, Nat.mul_comm h w]
    exact Stores.asInt_natCast (by omega)
  rw [yuv422ToY, hn]
  simp only [Option.bind_eq_bind, Option.bind_some, Int.toNat_natCast]
  rw [plane_eq (by omega) fun i hi => by omega]
  simp only [Option.bind_some, Nat.zero_add, Nat.add_zero]
  rfl

/-! ### The conversions together -/

theorem reinterleave_planar (heven : Even n) (hlen : src.length = 2 * n) {dest : Nat → UInt8}
    (h : ∀ p < 2 * n, dest p = planarByte src n p) : reinterleave dest n = src := by
  obtain ⟨k, rfl⟩ := heven
  have hhalf : (k + k) / 2 = k := by omega
  have hfour : ∀ i ∈ List.range k, [dest (2 * i), dest (k + k + i), dest (2 * i + 1), dest (k + k + k + i)] =
      (List.range 4).map fun j => src.getD (4 * i + j) 0 := by
    intro i hi
    have hi := List.mem_range.mp hi
    rw [h _ (by omega), h _ (by omega), h _ (by omega), h _ (by omega)]
    unfold planarByte
    rw [hhalf, if_pos (by omega), if_neg (by omega), if_pos (by omega), if_pos (by omega), if_neg (by omega), if_neg (by omega),
      Nat.add_sub_cancel_left, Nat.add_sub_cancel_left, ← Nat.mul_assoc, Nat.mul_add, ← Nat.mul_assoc]
    rfl
  have hrows := Stores.flatMap_range (src.getD · 0) 4 k
  have htotal : 4 * k = src.length := by omega
  rw [reinterleave, hhalf, List.flatMap_congr hfour, hrows, htotal]
  refine List.ext_getElem (by simp) fun i hi hi' => ?_
  rw [List.getElem_map, List.getElem_range, List.getD_eq_getElem _ _ hi']

theorem writes_range {k : Nat} {f : Nat → UInt8} {r : Option (List (Nat × UInt8) × Int)}
    (h : r = some ((List.range k).map fun p => (p, f p), (k : Int))) : Writes r ((List.range k).map fun p => (p, f p)) k :=
  ⟨h, by rw [List.map_map]; exact List.map_id _⟩

/-- Two of the conversions lose nothing as long as twice the size of the image is an int. -/
theorem lossless_of_lt (hw : Even w) (hlen : src.length = 2 * (w * h)) (hint : 2 * (w * h) < 2 ^ 31) :
    Lossless src w h ((List.range (2 * (w * h))).map fun p => (p, planarByte src (w * h) p))
      ((List.range (w * h)).map fun p => (p, src.getD (2 * p) 0)) := by
  refine ⟨writes_range (yuv422ToPlanner_eq (hw.mul_right _) hlen hint), writes_range (yuv422ToY_eq hlen hint), ?_, ?_⟩
  · exact fun dest => reinterleave_planar (hw.mul_right _) hlen fun p hp => Stores.apply_range hp
  · intro dest dest' p hp
    rw [Stores.apply_range (by omega), Stores.apply_range hp, planarByte, if_pos hp]

/-- The conversions of an image agree, with the stores of each, as long as three times its size is an int. -/
theorem agree_of_lt (hw : Even w) (hh : Even h) (hlen : src.length = 2 * (w * h)) (hint : 3 * (w * h) < 2 ^ 31) :
    Agree src w h ((List.range (2 * (w * h))).map fun p => (p, planarByte src (w * h) p))
      ((List.range (3 * (w * h) / 2)).map fun p => (p, rowByte src w (w * h) p))
      ((List.range (w * h)).map fun p => (p, src.getD (2 * p) 0)) := by
  obtain ⟨writesPlanner, writesY, lossless, luma⟩ := lossless_of_lt (h := h) hw hlen (by omega)
  obtain ⟨k, rfl⟩ := hh
  have hhalf : (k + k) / 2 = k := by omega
  have hnk : w * (k + k) = w * k + w * k := Nat.mul_add w k k
  refine ⟨writesPlanner, writes_range (yuv422ToYuv420_eq ⟨k, rfl⟩ hlen hint), writesY, lossless, ?_, ?_⟩
  · intro dest dest' dest'' p hp
    refine ⟨?_, luma dest dest'' p hp⟩
    rw [luma dest dest' p hp, Stores.apply_range hp, Stores.apply_range (by omega), rowByte, if_pos hp]
  · intro dest j hj i hi
    have hlast := Nat.mul_le_mul_left w (hhalf ▸ Nat.succ_le_of_lt hj)
    rw [Nat.mul_succ] at hlast
    have hplace : w * (k + k) + w * j + i - w * (k + k) = w * j + i := by omega
    have hrow := Stores.row_div_mod (i := j) hi
    rw [Stores.apply_range (by omega), rowByte, if_neg (by omega), hplace, hrow.1, hrow.2]
    congr 2
    ring

theorem lt_of_writes {stores : List (Nat × UInt8)} {k : Nat} (h' : Writes (yuv422ToYuv420 src w h) stores k) :
    3 * (w * h) < 2 ^ 31 := by
  have hresult := h'.1
  simp only [yuv422ToYuv420, Option.bind_eq_bind, Option.bind_eq_some_iff] at hresult
  obtain ⟨n, hn, -, -, -, -, k, hk, -⟩ := hresult
  obtain ⟨rfl, -⟩ := Stores.asInt_eq_some hn
  have hlt := (Stores.asInt_eq_some hk).2
  rw [← Nat.cast_mul, Int.toNat_natCast, ← Nat.cast_ofNat, ← Nat.cast_mul, Nat.mul_comm h w] at hlt
  omega

theorem lt_of_writes_planner {stores : List (Nat × UInt8)} {k : Nat} (h' : Writes (yuv422ToPlanner src w h) stores k) :
    2 * (w * h) < 2 ^ 31 := by
  have hresult := h'.1
  simp only [yuv422ToPlanner, Option.bind_eq_bind, Option.bind_eq_some_iff] at hresult
  obtain ⟨n, hn, -, -, -, -, -, -, k, hk, -⟩ := hresult
  obtain ⟨rfl, -⟩ := Stores.asInt_eq_some hn
  have hlt := (Stores.asInt_eq_some hk).2
  rw [← Nat.cast_mul, Int.toNat_natCast, ← Nat.cast_ofNat, ← Nat.cast_mul] at hlt
  omega

/-- The three planes and the luma plane lose nothing exactly when twice the size of the image is an int, also where
    `yuv422_to_yuv420` has no result. -/
theorem lossless_iff (hw : Even w) (hlen : src.length = 2 * (w * h)) :
    (∃ planner y, Lossless src w h planner y) ↔ 2 * (w * h) < 2 ^ 31 := by
  constructor
  · rintro ⟨planner, y, hlossless⟩
    exact lt_of_writes_planner hlossless.writesPlanner
  · exact fun hint => ⟨_, _, lossless_of_lt hw hlen hint⟩

/-- The conversions of an image with even sides agree and lose nothing exactly when three times its size is an int. -/
theorem agree_iff (hw : Even w) (hh : Even h) (hlen : src.length = 2 * (w * h)) :
    (∃ planner yuv420 y, Agree src w h planner yuv420 y) ↔ 3 * (w * h) < 2 ^ 31 := by
  constructor
  · rintro ⟨planner, yuv420, y, hagree⟩
    exact lt_of_writes hagree.writesYuv420
  · exact fun hint => ⟨_, _, _, agree_of_lt hw hh hlen hint⟩

theorem agree_two : ∃ planner yuv420 y, Agree [16, 1, 32, 2, 48, 3, 64, 4] 2 2 planner yuv420 y :=
  (agree_iff (by decide) (by decide) rfl).mpr (by decide)

/-- Three times the size of this image is no int any more, although twice its size still is one. -/
theorem agree_counterexample : Even 26756 ∧ (List.replicate 1431767072 (0 : UInt8)).length = 2 * (26756 * 26756) ∧
    ¬ ∃ planner yuv420 y, Agree (List.replicate 1431767072 0) 26756 26756 planner yuv420 y := by
  refine ⟨by decide, List.length_replicate, ?_⟩
  rintro ⟨planner, yuv420, y, hagree⟩
  exact absurd (lt_of_writes hagree.writesYuv420) (by decide)

/-- The image that the frames of the teacher's camera are analysed in. -/
theorem yuv422ToY_frame (hlen : src.length = 2 * (256 * 144)) (dest : Nat → UInt8) : ∃ stores result,
    yuv422ToY src 256 144 = some (stores, result) ∧ Recbcsrv.yuv422ToY src = (List.range (144 * 256)).map (apply dest stores) := by
  refine ⟨_, _, yuv422ToY_eq hlen (by decide), List.map_congr_left fun p hp => ?_⟩
  rw [Stores.apply_range (List.mem_range.mp hp), Nat.mul_comm]

end

end Recbcsrv.Converter
