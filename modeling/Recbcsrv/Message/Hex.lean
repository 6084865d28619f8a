import Mathlib.Data.Nat.Digits.Lemmas

/-! The hexadecimal numbers of the message format: `char2hex` (`recbc_srv.c`) reads them, the `%x`
    conversions of `sprintf` write them. -/

namespace Recbcsrv

/-- What one character adds: `0`..`9`, and all letters from `a` and `A` on. Other characters add nothing. -/
def charDigit (c : UInt8) : Nat :=
  if 0x30 ≤ c ∧ c ≤ 0x39 then c.toNat - 0x30
  else if 0x61 ≤ c ∧ c ≤ 0x7a then c.toNat - 0x57
  else if 0x41 ≤ c ∧ c ≤ 0x5a then c.toNat - 0x37
  else 0

/-- One turn of the loop of `char2hex`: nibble `j` of the 32-bit `hex` is cleared, and the digit is or-ed in
    from that nibble on. -/
def setNibble (hex j : Nat) (c : UInt8) : Nat :=
  (hex &&& (0xffffffff ^^^ (0xf <<< (4 * j)))) ||| ((charDigit c <<< (4 * j)) % 2 ^ 32)

/-- The loop of `char2hex`; the nibble of a character is the number of characters behind it. -/
def char2hexLoop : List UInt8 → Nat → Nat
  | [], hex => hex
  | c :: src, hex => char2hexLoop src (setNibble hex src.length c)

/-- `char2hex` of the characters `src`. More than eight of them leave `hex` as it was. -/
def char2hex (src : List UInt8) (hex : Nat) : Nat × Int :=
  if src.length > 8 then (hex, -1) else (char2hexLoop src 0, 1)

/-- The number that `char2hex` stores for at most eight characters. -/
def hexNum (src : List UInt8) : Nat := (char2hex src 0).1

/-! ### Bounds -/

theorem charDigit_le (c : UInt8) : charDigit c ≤ 35 := by
  have hc : ∀ b : UInt8, c ≤ b → c.toNat ≤ b.toNat := fun b h => UInt8.le_iff_toNat_le.mp h
  unfold charDigit
  split
  · next h =>
    have := hc _ h.2
    simp at this
    omega
  · split
    · next h =>
      have := hc _ h.2
      simp at this
      omega
    · split
      · next h =>
        have := hc _ h.2
        simp at this
        omega
      · omega

theorem setNibble_lt {hex j k : Nat} {c : UInt8} (hh : hex < 2 ^ k) (hj : 4 * j + 6 ≤ k) : setNibble hex j c < 2 ^ k := by
  refine Nat.or_lt_two_pow (Nat.lt_of_le_of_lt Nat.and_le_left hh) (Nat.lt_of_le_of_lt (Nat.mod_le _ _) ?_)
  have hd : charDigit c < 2 ^ 6 := Nat.lt_of_le_of_lt (charDigit_le c) (by decide)
  calc charDigit c <<< (4 * j) = charDigit c * 2 ^ (4 * j) := Nat.shiftLeft_eq ..
    _ < 2 ^ 6 * 2 ^ (4 * j) := Nat.mul_lt_mul_of_pos_right hd (Nat.two_pow_pos _)
    _ = 2 ^ (4 * j + 6) := by rw [← Nat.pow_add, Nat.add_comm]
    _ ≤ 2 ^ k := Nat.pow_le_pow_right (by decide) hj

theorem char2hexLoop_lt {k : Nat} (src : List UInt8) (hex : Nat) (hh : hex < 2 ^ k) (hl : 4 * src.length + 2 ≤ k) :
    char2hexLoop src hex < 2 ^ k := by
  induction src generalizing hex with
  | nil => exact hh
  | cons c src ih =>
    simp only [List.length_cons] at hl
    exact ih _ (setNibble_lt hh (by omega)) (by omega)

/-- The sizes that a message can give: a digit beyond `f` spills into the next nibbles. -/
theorem hexNum_lt {src : List UInt8} {n : Nat} (hl : src.length = n) (hn : n ≤ 8) : hexNum src < 2 ^ (4 * n + 2) := by
  subst hl
  rw [hexNum, char2hex, if_neg (by omega)]
  exact char2hexLoop_lt src 0 (Nat.two_pow_pos _) (Nat.le_refl _)

/-! ### Numbers written in hexadecimal -/

/-- The number that proper digits stand for. -/
def hexValue (src : List UInt8) (v : Nat) : Nat := src.foldl (fun v c => 16 * v + charDigit c) v

theorem and_clear_nibble {v n : Nat} (h : v * 2 ^ (4 * n + 4) < 2 ^ 32) :
    (v * 2 ^ (4 * n + 4)) &&& (0xffffffff ^^^ (0xf <<< (4 * n))) = v * 2 ^ (4 * n + 4) := by
  refine Nat.eq_of_testBit_eq fun k => ?_
  rw [Nat.testBit_and, Nat.testBit_xor, Nat.testBit_shiftLeft, show (0xffffffff : Nat) = 2 ^ 32 - 1 from rfl,
    show (0xf : Nat) = 2 ^ 4 - 1 from rfl, Nat.testBit_two_pow_sub_one, Nat.testBit_two_pow_sub_one]
  cases hb : (v * 2 ^ (4 * n + 4)).testBit k with
  | false => rfl
  | true =>
    have hk : 4 * n + 4 ≤ k := by
      by_contra hk
      rw [← Nat.shiftLeft_eq, Nat.testBit_shiftLeft] at hb
      simp [show ¬4 * n + 4 ≤ k from hk] at hb
    have hk' : k < 32 := by
      by_contra hk'
      rw [Nat.testBit_lt_two_pow (Nat.lt_of_lt_of_le h (Nat.pow_le_pow_right (by decide) (by omega)))] at hb
      cases hb
    simp [hk', show ¬k - 4 * n < 4 by omega]

theorem setNibble_eq {v n : Nat} {c : UInt8} (hc : charDigit c < 16) (h : (16 * v + charDigit c) * 2 ^ (4 * n) < 2 ^ 32) :
    setNibble (v * 2 ^ (4 * n + 4)) n c = (16 * v + charDigit c) * 2 ^ (4 * n) := by
  have hv : v * 2 ^ (4 * n + 4) = 16 * v * 2 ^ (4 * n) := by
    rw [Nat.pow_add, Nat.mul_comm 16 v, Nat.mul_assoc, Nat.mul_comm 16]
  rw [Nat.add_mul] at h
  rw [setNibble, and_clear_nibble (by omega), Nat.shiftLeft_eq, Nat.mod_eq_of_lt (by omega)]
  have hd : charDigit c * 2 ^ (4 * n) < 2 ^ (4 * n + 4) := by
    rw [Nat.pow_add, Nat.mul_comm (2 ^ (4 * n))]
    exact Nat.mul_lt_mul_of_pos_right hc (Nat.two_pow_pos _)
  rw [← Nat.shiftLeft_eq v, ← Nat.shiftLeft_add_eq_or_of_lt hd, Nat.shiftLeft_eq, hv, Nat.add_mul]

/-- On proper digits the loop computes their number. -/
theorem char2hexLoop_eq (src : List UInt8) {v : Nat} (hd : ∀ c ∈ src, charDigit c < 16) (hb : hexValue src v < 2 ^ 32) :
    char2hexLoop src (v * 2 ^ (4 * src.length)) = hexValue src v := by
  induction src generalizing v with
  | nil => simp [char2hexLoop, hexValue]
  | cons c src ih =>
    have hle : ∀ (l : List UInt8) w, w * 2 ^ (4 * l.length) ≤ hexValue l w := fun l => by
      induction l with
      | nil => intro w; simp [hexValue]
      | cons d l ihl =>
        intro w
        refine Nat.le_trans ?_ (ihl (16 * w + charDigit d))
        rw [List.length_cons, Nat.mul_add, Nat.pow_add, Nat.mul_comm (2 ^ (4 * l.length)), ← Nat.mul_assoc]
        exact Nat.mul_le_mul_right _ (by omega)
    have hlt := Nat.lt_of_le_of_lt (hle src (16 * v + charDigit c)) hb
    rw [char2hexLoop, List.length_cons, Nat.mul_add, setNibble_eq (hd c (List.mem_cons_self ..)) hlt]
    exact ih (fun d hm => hd d (List.mem_cons_of_mem _ hm)) hb

/-- The character of a digit in lower case. -/
def hexChar (d : Nat) : UInt8 := if d < 10 then UInt8.ofNat (0x30 + d) else UInt8.ofNat (0x57 + d)

/-- `sprintf` with `%x`. -/
def printX (n : Nat) : List UInt8 := if n = 0 then [0x30] else (Nat.digits 16 n).reverse.map hexChar

/-- `sprintf` with `%0wx`. -/
def printX0 (w n : Nat) : List UInt8 := List.replicate (w - (printX n).length) 0x30 ++ printX n

theorem charDigit_hexChar {d : Nat} (h : d < 16) : charDigit (hexChar d) = d := by
  revert d
  decide

theorem hexChar_ne_zero {d : Nat} (h : d < 16) : hexChar d ≠ 0 := by
  revert d
  decide

theorem mem_printX {n : Nat} {c : UInt8} (h : c ∈ printX n) : ∃ d < 16, c = hexChar d := by
  unfold printX at h
  split at h
  · exact ⟨0, by decide, List.mem_singleton.mp h⟩
  · obtain ⟨d, hd, rfl⟩ := List.mem_map.mp h
    exact ⟨d, Nat.digits_lt_base (by decide) (List.mem_reverse.mp hd), rfl⟩

theorem hexValue_append (l l' : List UInt8) (v : Nat) : hexValue (l ++ l') v = hexValue l' (hexValue l v) :=
  List.foldl_append ..

theorem hexValue_printX (n : Nat) : hexValue (printX n) 0 = n := by
  unfold printX
  split
  · next h => rw [h]; rfl
  · have hfold : ∀ l : List Nat, (∀ d ∈ l, d < 16) → hexValue (l.reverse.map hexChar) 0 = Nat.ofDigits 16 l := fun l hl => by
      induction l with
      | nil => rfl
      | cons d l ih =>
        rw [List.reverse_cons, List.map_append, hexValue_append, ih fun e he => hl e (List.mem_cons_of_mem _ he),
          Nat.ofDigits_cons]
        simp only [List.map_cons, List.map_nil, hexValue, List.foldl_cons, List.foldl_nil,
          charDigit_hexChar (hl d (List.mem_cons_self ..))]
        exact Nat.add_comm _ _
    rw [hfold _ fun d hd => Nat.digits_lt_base (by decide) hd, Nat.ofDigits_digits]

theorem length_printX_le {n w : Nat} (h : n < 16 ^ w) (hw : 0 < w) : (printX n).length ≤ w := by
  unfold printX
  split
  · exact hw
  · rw [List.length_map, List.length_reverse]
    exact (Nat.digits_length_le_iff (by decide) n).mpr h

theorem length_printX0 {n w : Nat} (h : n < 16 ^ w) (hw : 0 < w) : (printX0 w n).length = w := by
  rw [printX0, List.length_append, List.length_replicate]
  have := length_printX_le h hw
  omega

theorem hexValue_printX0 (w n : Nat) : hexValue (printX0 w n) 0 = n := by
  have hzero : ∀ k, hexValue (List.replicate k 0x30) 0 = 0 := fun k => by
    induction k with
    | zero => rfl
    | succ k ih => rw [List.replicate_succ]; exact ih
  rw [printX0, hexValue_append, hzero, hexValue_printX]

/-- `char2hex` reads back what `%x` wrote. -/
theorem hexNum_printX {n : Nat} (h : n < 2 ^ 32) : hexNum (printX n) = n := by
  have hl : (printX n).length ≤ 8 := length_printX_le (by simpa using h) (by decide)
  rw [hexNum, char2hex, if_neg (by omega)]
  have := char2hexLoop_eq (printX n) (v := 0) (fun c hc => ?_) (by rwa [hexValue_printX])
  · rwa [Nat.zero_mul, hexValue_printX] at this
  · obtain ⟨d, hd, rfl⟩ := mem_printX hc
    rwa [charDigit_hexChar hd]

/-- `char2hex` reads back what `%0wx` wrote. -/
theorem hexNum_printX0 {n w : Nat} (h : n < 16 ^ w) (hw : 0 < w) (hw8 : w ≤ 8) : hexNum (printX0 w n) = n := by
  have hn : n < 2 ^ 32 := by
    have : (16 : Nat) ^ w ≤ 16 ^ 8 := Nat.pow_le_pow_right (by decide) hw8
    have h8 : (16 : Nat) ^ 8 = 2 ^ 32 := by decide
    omega
  rw [hexNum, char2hex, if_neg (by rw [length_printX0 h hw]; omega)]
  have := char2hexLoop_eq (printX0 w n) (v := 0) (fun c hc => ?_) (by rwa [hexValue_printX0])
  · rwa [Nat.zero_mul, hexValue_printX0] at this
  · rcases List.mem_append.mp hc with hc | hc
    · rw [(List.mem_replicate.mp hc).2]
      decide
    · obtain ⟨d, hd, rfl⟩ := mem_printX hc
      rwa [charDigit_hexChar hd]

end Recbcsrv
