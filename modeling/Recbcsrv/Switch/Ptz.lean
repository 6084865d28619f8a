import Mathlib.Data.Nat.Bitwise
import Recbcsrv.Switch.Camera

/-! The bytes of the commands to a camera holder. A position travels as four nibbles and is read back from a response in the
    same way. -/

namespace Recbcsrv

/-! ### The bytes -/

/-- The low 16 bits of an int in four bytes. -/
def nibbles (x : BitVec 32) : List UInt8 :=
  [.ofBitVec (((x &&& 0xf000) >>> 12).setWidth 8), .ofBitVec (((x &&& 0xf00) >>> 8).setWidth 8),
    .ofBitVec (((x &&& 0xf0) >>> 4).setWidth 8), .ofBitVec ((x &&& 0xf).setWidth 8)]

/-- `cwbuf` of `GetZoom`, `GetPos`, `AbsPos`, `ZoomDirect`, `Recall` and `MemSet`. -/
def CamCommand.cwbuf (panspeedUse tiltspeedUse : Int) : CamCommand → List UInt8
  | .getZoom => [0x81, 0x09, 0x04, 0x47, 0xff]
  | .getPos => [0x81, 0x09, 0x06, 0x12, 0xff]
  | .absPos pan tilt =>
    [0x81, 0x01, 0x06, 0x02, .ofInt panspeedUse, .ofInt tiltspeedUse] ++ nibbles (.ofInt 32 pan) ++ nibbles (.ofInt 32 tilt) ++
      [0xff]
  | .zoomDirect zoom => [0x81, 0x01, 0x04, 0x47] ++ nibbles (.ofInt 32 zoom) ++ [0xff]
  | .recall num => [0x81, 0x01, 0x04, 0x3f, 0x02, .ofNat num, 0xff]
  | .memSet num => [0x81, 0x01, 0x04, 0x3f, 0x01, .ofNat num, 0xff]

/-- The low 16 bits of an int with the sign of bit 15. -/
def lowHalf (x : Int) : Int := (BitVec.ofInt 16 x).toInt

/-- The only byte 0xff of a command is its last one. -/
def OneEnd (cwbuf : List UInt8) : Prop := ∃ init, cwbuf = init ++ [0xff] ∧ 0xff ∉ init

/-- `byte2int` gives the low half of the int with its sign, and the int itself when it fits. -/
def ReadsBack (signed : Bool) (buf : List UInt8) (x : Int) : Prop :=
  byte2int signed buf = lowHalf x ∧ (-32768 ≤ x ∧ x ≤ 32767 → byte2int signed buf = x)

section
variable {signed : Bool} {x y : BitVec 32} {b : UInt8}

/-! ### Nibbles -/

theorem toNat_nibble (x mask : BitVec 32) (s : Nat) (hmask : mask.toNat >>> s = 15) :
    (UInt8.ofBitVec (((x &&& mask) >>> s).setWidth 8)).toNat = x.toNat / 2 ^ s % 16 := by
  rw [UInt8.toNat_ofBitVec, BitVec.toNat_setWidth, BitVec.toNat_ushiftRight, BitVec.toNat_and, Nat.shiftRight_and_distrib, hmask,
    Nat.and_two_pow_sub_one_eq_mod _ 4, Nat.shiftRight_eq_div_pow]
  omega

theorem nibbles_eq (x : BitVec 32) : nibbles x =
    [.ofNat (x.toNat / 4096 % 16), .ofNat (x.toNat / 256 % 16), .ofNat (x.toNat / 16 % 16), .ofNat (x.toNat % 16)] := by
  have hbyte : ∀ (b : UInt8) n, b.toNat = n % 16 → b = .ofNat (n % 16) := fun b n h => by rw [← h, UInt8.ofNat_toNat]
  have hlast : (UInt8.ofBitVec ((x &&& 0xf).setWidth 8)).toNat = x.toNat % 16 := by
    have := toNat_nibble x 0xf 0 rfl
    rwa [BitVec.ushiftRight_zero, Nat.pow_zero, Nat.div_one] at this
  unfold nibbles
  rw [hbyte _ _ (toNat_nibble x 0xf000 12 rfl), hbyte _ _ (toNat_nibble x 0xf00 8 rfl), hbyte _ _ (toNat_nibble x 0xf0 4 rfl),
    hbyte _ _ hlast]
  rfl

theorem nibbles_lt : ∀ b ∈ nibbles x, b < 0x10 := by
  rw [nibbles_eq]
  intro b hb
  simp only [List.mem_cons, List.not_mem_nil, or_false] at hb
  rw [UInt8.lt_iff_toNat_lt]
  have hsixteen : (0x10 : UInt8).toNat = 16 := rfl
  rcases hb with rfl | rfl | rfl | rfl <;> rw [UInt8.toNat_ofNat', hsixteen] <;> omega

/-! ### Reading back -/

theorem toNat_shiftIn (signed : Bool) (hx : x.toNat < 2 ^ 28) {n : Nat} (hn : n < 16) :
    ((x <<< 4) ||| charInt signed (.ofNat n)).toNat = x.toNat * 16 + n := by
  have hbyte : (UInt8.ofNat n).toBitVec.toNat = n := by
    rw [UInt8.toNat_toBitVec, UInt8.toNat_ofNat', Nat.mod_eq_of_lt (by omega)]
  have hchar : (charInt signed (.ofNat n)).toNat = n := by
    unfold charInt
    cases signed with
    | true =>
      have hmsb : (UInt8.ofNat n).toBitVec.msb = false := by
        rw [BitVec.msb_eq_false_iff_two_mul_lt, hbyte]
        omega
      rw [if_pos rfl, BitVec.signExtend_eq_setWidth_of_msb_false hmsb, BitVec.toNat_setWidth, hbyte]
      omega
    | false =>
      rw [if_neg Bool.false_ne_true, BitVec.toNat_setWidth, hbyte]
      omega
  rw [BitVec.toNat_or, BitVec.toNat_shiftLeft, hchar, Nat.mod_eq_of_lt (by rw [Nat.shiftLeft_eq]; omega),
    ← Nat.shiftLeft_add_eq_or_of_lt hn, Nat.shiftLeft_eq]

theorem toNat_foldl_shiftIn {k : Nat} {ns : List Nat} (hx : x.toNat < 16 ^ k) (hlen : k + ns.length ≤ 8)
    (hns : ∀ n ∈ ns, n < 16) :
    ((ns.map UInt8.ofNat).foldl (fun (result : BitVec 32) b => (result <<< 4) ||| charInt signed b) x).toNat =
      ns.foldl (fun r n => r * 16 + n) x.toNat := by
  induction ns generalizing x k with
  | nil => rfl
  | cons n ns ih =>
    rw [List.length_cons] at hlen
    have hn := hns n List.mem_cons_self
    have hsmall : x.toNat < 2 ^ 28 := Nat.lt_of_lt_of_le hx (Nat.pow_le_pow_right (by decide) (show k ≤ 7 by omega))
    have hnext := toNat_shiftIn signed hsmall hn
    rw [List.map_cons, List.foldl_cons, List.foldl_cons, ← hnext]
    refine ih (k := k + 1) ?_ (by omega) fun m hm => hns m (List.mem_cons_of_mem n hm)
    rw [hnext, Nat.pow_succ]
    omega

/-- The four nibbles together are the low half. -/
theorem shiftIn_nibbles (signed : Bool) (x : BitVec 32) :
    ((nibbles x).foldl (fun (result : BitVec 32) b => (result <<< 4) ||| charInt signed b) 0).toNat = x.toNat % 65536 := by
  have hdigits : nibbles x =
      [x.toNat / 4096 % 16, x.toNat / 256 % 16, x.toNat / 16 % 16, x.toNat % 16].map UInt8.ofNat := nibbles_eq x
  rw [hdigits, toNat_foldl_shiftIn (k := 0) (by decide) (by simp)]
  · have hzero : (0 : BitVec 32).toNat = 0 := rfl
    simp only [List.foldl_cons, List.foldl_nil, hzero]
    omega
  · intro n hn
    simp only [List.mem_cons, List.not_mem_nil, or_false] at hn
    omega

/-- The extension of the sign of bit 15. -/
theorem signExtend_half (r : BitVec 32) (hr : r.toNat < 65536) :
    (if r &&& 0x8000 ≠ 0 then r ||| 0xffff0000 else r).toInt = (r.setWidth 16).toInt := by
  have hand : (r &&& 0x8000).toNat = (r.toNat.testBit 15).toNat * 2 ^ 15 := by
    rw [BitVec.toNat_and]
    exact Nat.and_two_pow _ 15
  have hor : (r ||| 0xffff0000).toNat = 0xffff0000 + r.toNat := by
    rw [BitVec.toNat_or, Nat.or_comm]
    exact (Nat.shiftLeft_add_eq_or_of_lt (i := 16) hr 0xffff).symm
  have hbit : r.toNat.testBit 15 = decide (32768 ≤ r.toNat) := by
    rw [Nat.testBit_eq_decide_div_mod_eq]
    congr 1
    exact propext (by omega)
  have hlow : (r.setWidth 16).toNat = r.toNat := by
    rw [BitVec.toNat_setWidth]
    omega
  rw [BitVec.toInt_eq_toNat_cond, BitVec.toInt_eq_toNat_cond, hlow]
  by_cases hneg : 32768 ≤ r.toNat
  · have hne : r &&& 0x8000 ≠ 0 := by
      intro h0
      rw [h0, hbit, decide_eq_true hneg] at hand
      exact absurd hand (by decide)
    rw [if_pos hne, hor]
    split <;> split <;> omega
  · have heq : r &&& 0x8000 = 0 := by
      refine BitVec.eq_of_toNat_eq ?_
      rw [hand, hbit, decide_eq_false hneg]
      rfl
    rw [if_neg (not_not_intro heq)]
    split <;> split <;> omega

/-- `byte2int` reads the low half with its sign. -/
theorem byte2int_nibbles (x : BitVec 32) (rest : List UInt8) :
    byte2int signed (nibbles x ++ rest) = (x.setWidth 16).toInt := by
  have htake : (nibbles x ++ rest).take 4 = nibbles x := List.take_left' rfl
  have hlow := shiftIn_nibbles signed x
  unfold byte2int
  dsimp only
  rw [htake]
  generalize (nibbles x).foldl (fun (result : BitVec 32) b => (result <<< 4) ||| charInt signed b) 0 = r at hlow
  rw [signExtend_half r (by omega)]
  congr 1
  refine BitVec.eq_of_toNat_eq ?_
  rw [BitVec.toNat_setWidth, BitVec.toNat_setWidth, hlow]
  omega

theorem lowHalf_eq {x : Int} (h : -32768 ≤ x) (h' : x ≤ 32767) : lowHalf x = x := by
  rw [lowHalf, BitVec.toInt_ofInt, Int.bmod_eq_of_le (by omega) (by omega)]

theorem setWidth_ofInt (x : Int) : ((BitVec.ofInt 32 x).setWidth 16).toInt = lowHalf x := by
  unfold lowHalf
  congr 1
  refine BitVec.eq_of_toNat_eq ?_
  rw [BitVec.toNat_setWidth, BitVec.toNat_ofInt, BitVec.toNat_ofInt]
  omega

theorem readsBack_nibbles (x : Int) (rest : List UInt8) : ReadsBack signed (nibbles (.ofInt 32 x) ++ rest) x := by
  unfold ReadsBack
  rw [byte2int_nibbles, setWidth_ofInt]
  exact ⟨rfl, fun h => lowHalf_eq h.1 h.2⟩

/-! ### The commands -/

theorem nibbles_ne : (0xff : UInt8) ∉ nibbles x := fun h => absurd (nibbles_lt _ h) (by decide)

theorem oneEnd_append {init : List UInt8} : OneEnd (init ++ [0xff]) ↔ 0xff ∉ init := by
  refine ⟨?_, fun h => ⟨init, rfl, h⟩⟩
  rintro ⟨init', heq, h⟩
  obtain rfl := List.append_cancel_right heq
  exact h

theorem oneEnd_absPos (panspeedUse tiltspeedUse pan tilt : Int) :
    OneEnd ((CamCommand.absPos pan tilt).cwbuf panspeedUse tiltspeedUse) ↔
      UInt8.ofInt panspeedUse ≠ 0xff ∧ UInt8.ofInt tiltspeedUse ≠ 0xff := by
  unfold CamCommand.cwbuf
  rw [oneEnd_append]
  simp only [List.mem_append, List.mem_cons, List.not_mem_nil, nibbles_ne, or_false, not_or, ne_eq]
  refine ⟨fun h => ⟨fun h' => h.2.2.2.2.1 h'.symm, fun h' => h.2.2.2.2.2 h'.symm⟩, fun h => ?_⟩
  exact ⟨by decide, by decide, by decide, by decide, fun h' => h.1 h'.symm, fun h' => h.2 h'.symm⟩

theorem oneEnd_zoomDirect (panspeedUse tiltspeedUse zoom : Int) :
    OneEnd ((CamCommand.zoomDirect zoom).cwbuf panspeedUse tiltspeedUse) := by
  unfold CamCommand.cwbuf
  rw [oneEnd_append]
  simp only [List.mem_append, List.mem_cons, List.not_mem_nil, nibbles_ne, or_false]
  decide

/-- The positions of `AbsPos` and `ZoomDirect` are read back from their bytes; these are small, so that the byte that ends the
    command is its only 0xff unless the low byte of a speed is one. -/
theorem cwbuf_positions (signed : Bool) (panspeedUse tiltspeedUse pan tilt zoom : Int) :
    (ReadsBack signed (((CamCommand.absPos pan tilt).cwbuf panspeedUse tiltspeedUse).drop 6) pan ∧
      ReadsBack signed (((CamCommand.absPos pan tilt).cwbuf panspeedUse tiltspeedUse).drop 10) tilt ∧
      ReadsBack signed (((CamCommand.zoomDirect zoom).cwbuf panspeedUse tiltspeedUse).drop 4) zoom) ∧
    (∀ b ∈ (((CamCommand.absPos pan tilt).cwbuf panspeedUse tiltspeedUse).drop 6).take 8, b < 0x10) ∧
    (∀ b ∈ (((CamCommand.zoomDirect zoom).cwbuf panspeedUse tiltspeedUse).drop 4).take 4, b < 0x10) ∧
    (OneEnd ((CamCommand.absPos pan tilt).cwbuf panspeedUse tiltspeedUse) ↔
      UInt8.ofInt panspeedUse ≠ 0xff ∧ UInt8.ofInt tiltspeedUse ≠ 0xff) ∧
    OneEnd ((CamCommand.zoomDirect zoom).cwbuf panspeedUse tiltspeedUse) := by
  have hpan : ((CamCommand.absPos pan tilt).cwbuf panspeedUse tiltspeedUse).drop 6 =
      nibbles (.ofInt 32 pan) ++ (nibbles (.ofInt 32 tilt) ++ [0xff]) := rfl
  have htilt : ((CamCommand.absPos pan tilt).cwbuf panspeedUse tiltspeedUse).drop 10 = nibbles (.ofInt 32 tilt) ++ [0xff] := rfl
  have hzoom : ((CamCommand.zoomDirect zoom).cwbuf panspeedUse tiltspeedUse).drop 4 = nibbles (.ofInt 32 zoom) ++ [0xff] := rfl
  refine ⟨⟨?_, ?_, ?_⟩, fun b hb => ?_, fun b hb => ?_, oneEnd_absPos panspeedUse tiltspeedUse pan tilt,
    oneEnd_zoomDirect panspeedUse tiltspeedUse zoom⟩
  · rw [hpan]
    exact readsBack_nibbles pan _
  · rw [htilt]
    exact readsBack_nibbles tilt _
  · rw [hzoom]
    exact readsBack_nibbles zoom _
  · have hpayload : (nibbles (.ofInt 32 pan) ++ (nibbles (.ofInt 32 tilt) ++ [0xff])).take 8 =
        nibbles (.ofInt 32 pan) ++ nibbles (.ofInt 32 tilt) := rfl
    rw [hpan, hpayload] at hb
    rcases List.mem_append.mp hb with hb | hb
    · exact nibbles_lt b hb
    · exact nibbles_lt b hb
  · have hpayload : (nibbles (.ofInt 32 zoom) ++ [0xff]).take 4 = nibbles (.ofInt 32 zoom) := rfl
    rw [hzoom, hpayload] at hb
    exact nibbles_lt b hb

end

/-- A speed is an int, of which the command has the low byte. -/
theorem cwbuf_wideSpeed : (511 : Int) ≠ 0xff ∧ ¬OneEnd ((CamCommand.absPos 0 0).cwbuf 511 511) := by
  refine ⟨by decide, ?_⟩
  rw [oneEnd_absPos]
  exact fun h => h.1 (by decide)

end Recbcsrv
