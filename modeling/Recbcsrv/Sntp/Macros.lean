import Recbcsrv.Sntp.FixedPoint

/-! The macros `FP_NEG`, `FP_ADD`, `FP_SUB` and `FP_RSHIFT` (`mysntp.h`) on pairs of words, with the types of C: what is
    cast to `int` is negated and shifted as an `int`. `TS_ADD`, `TS_SUB` and `TS_RSHIFT` are these on the fields of a
    timestamp, and all of them are the operations of two's complement on the 64 bits of the pair. -/

namespace Recbcsrv
open Words

/-! ### The macros -/

/-- `FP_NEG`. What is cast or complemented is a word of 32 bits, whether it is declared as signed or not. -/
def fpNeg (vI vF : UInt32) : TTS :=
  if vF = 0 then ⟨(-vI.toInt32).toUInt32, vF⟩
  else ⟨~~~vI, (-vF.toInt32).toUInt32⟩

/-- `FP_ADD`. -/
def fpAdd (rI rF aI aF : UInt32) : TTS :=
  let loHalf := (rF &&& (0xffff : UInt32)) + (aF &&& (0xffff : UInt32))
  let hiHalf := ((rF >>> 16) &&& (0xffff : UInt32)) + ((aF >>> 16) &&& (0xffff : UInt32))
  let hiHalf := if loHalf &&& (0x10000 : UInt32) ≠ 0 then hiHalf + 1 else hiHalf
  let rF := ((hiHalf &&& (0xffff : UInt32)) <<< 16) ||| (loHalf &&& (0xffff : UInt32))
  let rI := rI + aI
  let rI := if hiHalf &&& (0x10000 : UInt32) ≠ 0 then rI + 1 else rI
  ⟨rI, rF⟩

/-- `FP_SUB`: both halves are taken from an `int`, the upper one after a shift that copies the sign. -/
def fpSub (rI rF aI aF : UInt32) : TTS :=
  if aF = 0 then ⟨rI - aI, rF⟩
  else
    let loHalf := (rF &&& (0xffff : UInt32)) + ((-aF.toInt32) &&& (0xffff : Int32)).toUInt32
    let hiHalf := ((rF >>> 16) &&& (0xffff : UInt32)) + (((-aF.toInt32) >>> 16) &&& (0xffff : Int32)).toUInt32
    let hiHalf := if loHalf &&& (0x10000 : UInt32) ≠ 0 then hiHalf + 1 else hiHalf
    let rF := ((hiHalf &&& (0xffff : UInt32)) <<< 16) ||| (loHalf &&& (0xffff : UInt32))
    let rI := rI + ~~~aI
    let rI := if hiHalf &&& (0x10000 : UInt32) ≠ 0 then rI + 1 else rI
    ⟨rI, rF⟩

/-- `FP_RSHIFT`. The mask of the top bit is an unsigned constant, which makes both operands unsigned. -/
def fpRshift (vI : Int32) (vF : UInt32) : TTS :=
  let vF := vF >>> 1
  let vF := if vI &&& (1 : Int32) ≠ 0 then vF ||| (0x80000000 : UInt32) else vF
  let vI := if vI.toUInt32 &&& (0x80000000 : UInt32) ≠ 0 then (vI >>> 1).toUInt32 ||| (0x80000000 : UInt32)
    else (vI >>> 1).toUInt32
  ⟨vI, vF⟩

/-! ### On the fields of a timestamp -/

namespace TTS

theorem add_eq_fpAdd (r a : TTS) : r.add a = fpAdd r.intg r.frag a.intg a.frag := rfl

theorem sub_eq_fpSub (r a : TTS) : r.sub a = fpSub r.intg r.frag a.intg a.frag := by
  unfold sub fpSub
  rw [sar_sixteen_and, Int32.toUInt32_and]
  rfl

theorem rshift_eq_fpRshift (v : TTS) : v.rshift = fpRshift v.intg.toInt32 v.frag := by
  have hodd : v.intg.toInt32 &&& (1 : Int32) ≠ 0 ↔ v.intg &&& (1 : UInt32) ≠ 0 := by
    rw [ne_eq, ← toUInt32_inj, Int32.toUInt32_and]
    rfl
  unfold rshift fpRshift
  simp only [hodd, sar_one, UInt32.toUInt32_toInt32]
  split
  · rw [UInt32.or_assoc, UInt32.or_self]
  · rfl

/-! ### The 64 bits of a pair -/

/-- The pair as one integer of 64 bits. -/
def bits (t : TTS) : BitVec 64 := t.intg.toBitVec ++ t.frag.toBitVec

theorem toNat_bits (t : TTS) : t.bits.toNat = t.value := by
  have hf : t.frag.toBitVec.toNat < 2 ^ 32 := t.frag.toNat_lt
  unfold bits value
  rw [BitVec.toNat_append, ← Nat.shiftLeft_add_eq_or_of_lt hf, Nat.shiftLeft_eq]
  rfl

theorem toInt_bits (t : TTS) : t.bits.toInt = t.signed := by
  have hi := t.intg.toNat_lt
  have hf := t.frag.toNat_lt
  rw [BitVec.toInt_eq_toNat_cond, toNat_bits]
  unfold signed value
  split_ifs <;> omega

/-- The sign is that of the first word, and the second counts up from it. -/
theorem signed_eq_words (t : TTS) : t.signed = t.intg.toInt32.toInt * 2 ^ 32 + t.frag.toNat := by
  rw [← toInt_bits, bits, BitVec.toInt_append, Int.mul_comm]
  rfl

theorem neg_value (v : TTS) : ((fpNeg v.intg v.frag).value : Int) = (-v.value) % 2 ^ 64 := by
  have hi := v.intg.toNat_lt
  have hf := v.frag.toNat_lt
  unfold fpNeg value
  split
  · next h =>
    have hzero : v.frag.toNat = 0 := eq_zero_iff.mp h
    dsimp only
    rw [neg_int, UInt32.toNat_neg, UInt32.size]
    omega
  · next h =>
    have hpos : v.frag.toNat ≠ 0 := mt eq_zero_iff.mpr h
    dsimp only
    rw [neg_int, UInt32.toNat_neg, UInt32.toNat_not, UInt32.size]
    omega

/-! ### The operations of two's complement -/

theorem bits_add (r a : TTS) : (r.add a).bits = r.bits + a.bits := by
  have hvalue := add_value r a
  rw [← BitVec.toNat_inj, BitVec.toNat_add, toNat_bits, toNat_bits, toNat_bits]
  omega

theorem bits_sub (r a : TTS) : (r.sub a).bits = r.bits - a.bits := by
  have hvalue := sub_value r a
  have hlt := a.value_lt
  rw [← BitVec.toNat_inj, BitVec.toNat_sub, toNat_bits, toNat_bits, toNat_bits]
  omega

theorem bits_neg (v : TTS) : (fpNeg v.intg v.frag).bits = -v.bits := by
  have hvalue := neg_value v
  have hlt := v.value_lt
  rw [← BitVec.toNat_inj, BitVec.toNat_neg, toNat_bits, toNat_bits]
  omega

theorem bits_rshift (v : TTS) : v.rshift.bits = v.bits.sshiftRight 1 := by
  rw [← BitVec.toInt_inj, BitVec.toInt_sshiftRight, toInt_bits, toInt_bits, rshift_signed, Int.shiftRight_eq_div_pow]
  rfl

end TTS

/-- The sum, the difference and the negation modulo 2^64, and half a signed value, rounded down. -/
theorem fp_macros_twos_complement (rI rF aI aF : UInt32) (vI : Int32) (vF : UInt32) :
    ((fpAdd rI rF aI aF).value : Int) = ((TTS.mk rI rF).value + (TTS.mk aI aF).value) % 2 ^ 64 ∧
      ((fpSub rI rF aI aF).value : Int) = ((TTS.mk rI rF).value - (TTS.mk aI aF).value) % 2 ^ 64 ∧
      ((fpNeg rI rF).value : Int) = (-(TTS.mk rI rF).value) % 2 ^ 64 ∧
      (fpRshift vI vF).signed = (vI.toInt * 2 ^ 32 + vF.toNat) / 2 := by
  refine ⟨?_, ?_, ?_, ?_⟩
  · have hadd := TTS.add_value ⟨rI, rF⟩ ⟨aI, aF⟩
    rwa [TTS.add_eq_fpAdd] at hadd
  · have hsub := TTS.sub_value ⟨rI, rF⟩ ⟨aI, aF⟩
    rwa [TTS.sub_eq_fpSub] at hsub
  · exact TTS.neg_value ⟨rI, rF⟩
  · have hhalf := TTS.rshift_signed ⟨vI.toUInt32, vF⟩
    rw [TTS.rshift_eq_fpRshift, TTS.signed_eq_words ⟨vI.toUInt32, vF⟩] at hhalf
    exact hhalf

end Recbcsrv
