import Mathlib.Data.Nat.Bitwise

/-! Words of 32 bits: halves and their carries, masked bits, and shifts of unsigned and of signed words. -/

namespace Words

variable {x lo hi : UInt32}

theorem toNat_and_ffff (x : UInt32) : (x &&& (0xffff : UInt32)).toNat = x.toNat % 65536 := by
  rw [UInt32.toNat_and]
  exact Nat.and_two_pow_sub_one_eq_mod x.toNat 16

theorem toNat_shiftRight_sixteen (x : UInt32) : (x >>> 16).toNat = x.toNat / 65536 := by
  rw [UInt32.toNat_shiftRight]
  exact Nat.shiftRight_eq_div_pow x.toNat 16

theorem toNat_shiftRight_one (x : UInt32) : (x >>> 1).toNat = x.toNat / 2 := by
  rw [UInt32.toNat_shiftRight]
  exact Nat.shiftRight_eq_div_pow x.toNat 1

theorem eq_zero_iff : x = 0 ↔ x.toNat = 0 := UInt32.toNat_inj.symm

/-- A bit that is masked. -/
theorem and_bit_iff {m : UInt32} {k : Nat} (hm : m.toNat = 2 ^ k) : x &&& m ≠ 0 ↔ x.toNat / 2 ^ k % 2 = 1 := by
  rw [ne_eq, ← UInt32.toNat_inj, UInt32.toNat_and, hm, Nat.and_two_pow, Nat.testBit_eq_decide_div_mod_eq]
  by_cases h : x.toNat / 2 ^ k % 2 = 1 <;> simp [h]

theorem top_iff : x &&& (0x80000000 : UInt32) ≠ 0 ↔ 2 ^ 31 ≤ x.toNat := by
  have hx := x.toNat_lt
  rw [and_bit_iff (k := 31) rfl]
  omega

theorem odd_iff : x &&& (1 : UInt32) ≠ 0 ↔ x.toNat % 2 = 1 := by
  rw [and_bit_iff (k := 0) rfl, pow_zero, Nat.div_one]

theorem carry_iff (h : x.toNat < 131072) : x &&& (0x10000 : UInt32) ≠ 0 ↔ 65536 ≤ x.toNat := by
  rw [and_bit_iff (k := 16) rfl]
  omega

/-! ### Words as signed integers -/

theorem toUInt32_inj {x y : Int32} : x.toUInt32 = y.toUInt32 ↔ x = y := by
  rw [← UInt32.toBitVec_inj, Int32.toBitVec_toUInt32, Int32.toBitVec_toUInt32, Int32.toBitVec_inj]

/-- The negated `int` wraps as the word does. -/
theorem neg_int (x : UInt32) : (-x.toInt32).toUInt32 = -x := by
  rw [Int32.toUInt32_neg, UInt32.toUInt32_toInt32]

/-! ### Halves -/

theorem toNat_join (hi lo : UInt32) : (((hi &&& (0xffff : UInt32)) <<< 16) ||| (lo &&& (0xffff : UInt32))).toNat =
    hi.toNat % 65536 * 65536 + lo.toNat % 65536 := by
  have hlo : lo.toNat % 65536 < 2 ^ 16 := Nat.mod_lt _ (by decide)
  have hshift : (hi.toNat % 65536) <<< 16 < 2 ^ 32 := by
    rw [Nat.shiftLeft_eq]
    omega
  rw [UInt32.toNat_or, UInt32.toNat_shiftLeft, toNat_and_ffff, toNat_and_ffff]
  change (hi.toNat % 65536) <<< 16 % 2 ^ 32 ||| lo.toNat % 65536 = _
  rw [Nat.mod_eq_of_lt hshift, ← Nat.shiftLeft_add_eq_or_of_lt hlo, Nat.shiftLeft_eq]

/-- The sum of two words in halves: the sum of the words, and its carry. -/
theorem halves_add (x y : UInt32) (hlo : lo = (x &&& (0xffff : UInt32)) + (y &&& (0xffff : UInt32)))
    (hhi : hi = if lo &&& (0x10000 : UInt32) ≠ 0 then ((x >>> 16) &&& (0xffff : UInt32)) + ((y >>> 16) &&& (0xffff : UInt32)) + 1
      else ((x >>> 16) &&& (0xffff : UInt32)) + ((y >>> 16) &&& (0xffff : UInt32))) :
    (hi &&& (0x10000 : UInt32) ≠ 0 ↔ 2 ^ 32 ≤ x.toNat + y.toNat) ∧
      (((hi &&& (0xffff : UInt32)) <<< 16) ||| (lo &&& (0xffff : UInt32))) = x + y := by
  have hx := x.toNat_lt
  have hy := y.toNat_lt
  have hlo' : lo.toNat = x.toNat % 65536 + y.toNat % 65536 := by
    rw [hlo, UInt32.toNat_add, toNat_and_ffff, toNat_and_ffff]
    omega
  have hhalf : (((x >>> 16) &&& (0xffff : UInt32)) + ((y >>> 16) &&& (0xffff : UInt32))).toNat = x.toNat / 65536 + y.toNat / 65536 := by
    rw [UInt32.toNat_add, toNat_and_ffff, toNat_and_ffff, toNat_shiftRight_sixteen, toNat_shiftRight_sixteen]
    omega
  have hhi' : hi.toNat = x.toNat / 65536 + y.toNat / 65536 + (if 65536 ≤ lo.toNat then 1 else 0) := by
    rw [hhi]
    by_cases hcarry : 65536 ≤ lo.toNat
    · rw [if_pos ((carry_iff (by omega)).mpr hcarry), if_pos hcarry, UInt32.toNat_add, hhalf]
      change (_ + 1) % 2 ^ 32 = _
      omega
    · rw [if_neg (mt (carry_iff (by omega)).mp hcarry), if_neg hcarry, hhalf, Nat.add_zero]
  have hcarry : (if 65536 ≤ lo.toNat then 1 else 0) = lo.toNat / 65536 := by
    split <;> omega
  rw [hcarry, hlo'] at hhi'
  refine ⟨?_, ?_⟩
  · rw [carry_iff (by omega)]
    omega
  · rw [← UInt32.toNat_inj, toNat_join, UInt32.toNat_add, hlo', hhi']
    omega

/-! ### Shifts -/

/-- The top bit is free after a shift. -/
theorem toNat_or_top (x : UInt32) : ((x >>> 1) ||| (0x80000000 : UInt32)).toNat = x.toNat / 2 + 2 ^ 31 := by
  have hx := x.toNat_lt
  have hlt : x.toNat / 2 < 2 ^ 31 := by omega
  rw [UInt32.toNat_or, toNat_shiftRight_one, Nat.or_comm]
  change 1 <<< 31 ||| x.toNat / 2 = _
  rw [← Nat.shiftLeft_add_eq_or_of_lt hlt, Nat.shiftLeft_eq]
  omega

/-- The shift of a signed word, which copies the sign. -/
theorem toNat_sar {x k : Int32} {n : Nat} (hk : (k.toBitVec.smod 32).toNat = n) : (x >>> k).toUInt32.toNat =
    if 2 ^ 31 ≤ x.toUInt32.toNat then 2 ^ 32 - 1 - (2 ^ 32 - 1 - x.toUInt32.toNat) / 2 ^ n else x.toUInt32.toNat / 2 ^ n := by
  change (x.toBitVec.sshiftRight' (k.toBitVec.smod 32)).toNat = if 2 ^ 31 ≤ x.toBitVec.toNat then
    2 ^ 32 - 1 - (2 ^ 32 - 1 - x.toBitVec.toNat) / 2 ^ n else x.toBitVec.toNat / 2 ^ n
  rw [BitVec.sshiftRight_eq', BitVec.toNat_sshiftRight, hk, BitVec.msb_eq_decide, Nat.shiftRight_eq_div_pow,
    Nat.shiftRight_eq_div_pow]
  simp

/-- A shift by a half does not show its copies of the sign in the lower half. -/
theorem sar_sixteen_and (x : Int32) : ((x >>> 16) &&& (0xffff : Int32)).toUInt32 = (x.toUInt32 >>> 16) &&& (0xffff : UInt32) := by
  have hx := x.toUInt32.toNat_lt
  have hsar := toNat_sar (x := x) (k := 16) (n := 16) rfl
  rw [← UInt32.toNat_inj, Int32.toUInt32_and]
  change ((x >>> 16).toUInt32 &&& (0xffff : UInt32)).toNat = _
  rw [toNat_and_ffff, toNat_and_ffff, toNat_shiftRight_sixteen, hsar]
  split <;> omega

/-- A shift by one copies the sign to the top. -/
theorem sar_one (x : Int32) : (x >>> 1).toUInt32 = if x.toUInt32 &&& (0x80000000 : UInt32) ≠ 0 then
    (x.toUInt32 >>> 1) ||| (0x80000000 : UInt32) else x.toUInt32 >>> 1 := by
  have hx := x.toUInt32.toNat_lt
  have hsar := toNat_sar (x := x) (k := 1) (n := 1) rfl
  rw [← UInt32.toNat_inj, hsar]
  simp only [top_iff]
  split_ifs <;> simp only [toNat_or_top, toNat_shiftRight_one] <;> omega

end Words
