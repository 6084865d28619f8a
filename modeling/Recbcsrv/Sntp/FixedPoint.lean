import Recbcsrv.Lib.Words
import Recbcsrv.Sntp.Client

/-! The macros on timestamps (`mysntp.h`) against the arithmetic of 64 bits in two's complement, and with it the two
    computations of `SntpRecvHandle`: the time that is set, and the offset that is printed. -/

namespace Recbcsrv
open Words

/-! ### The macros -/

namespace TTS

/-- The timestamp in units of 2^-32 of a second. -/
def value (t : TTS) : Nat := t.intg.toNat * 2 ^ 32 + t.frag.toNat

/-- The same with the seconds signed. -/
def signed (t : TTS) : Int := if t.intg.toNat < 2 ^ 31 then t.value else t.value - 2 ^ 64

section
variable {r a v : TTS}

theorem value_lt (t : TTS) : t.value < 2 ^ 64 := by
  have := t.intg.toNat_lt
  have := t.frag.toNat_lt
  unfold value
  omega

theorem signed_emod (t : TTS) : t.signed % 2 ^ 64 = t.value := by
  have := t.value_lt
  unfold signed
  split <;> omega

/-- The signed value of what is an integer of 64 bits modulo 2^64. -/
theorem signed_eq {x : Int} (hx : -2 ^ 63 ≤ x ∧ x < 2 ^ 63) (h : (v.value : Int) = x % 2 ^ 64) : v.signed = x := by
  have := v.frag.toNat_lt
  unfold signed
  unfold value at h ⊢
  split <;> omega

theorem add_eq (r a : TTS) : r.add a = if 2 ^ 32 ≤ r.frag.toNat + a.frag.toNat then ⟨r.intg + a.intg + 1, r.frag + a.frag⟩
    else ⟨r.intg + a.intg, r.frag + a.frag⟩ := by
  obtain ⟨hcarry, hjoin⟩ := halves_add r.frag a.frag rfl rfl
  unfold add
  dsimp only
  rw [hjoin]
  by_cases h : 2 ^ 32 ≤ r.frag.toNat + a.frag.toNat
  · rw [if_pos (hcarry.mpr h), if_pos h]
  · rw [if_neg (mt hcarry.mp h), if_neg h]

theorem add_value (r a : TTS) : ((r.add a).value : Int) = (r.value + a.value) % 2 ^ 64 := by
  have := r.intg.toNat_lt
  have := r.frag.toNat_lt
  have := a.intg.toNat_lt
  have := a.frag.toNat_lt
  rw [add_eq]
  unfold value
  split
  · have hone : (1 : UInt32).toNat = 1 := rfl
    rw [UInt32.toNat_add, UInt32.toNat_add, UInt32.toNat_add, hone]
    omega
  · rw [UInt32.toNat_add, UInt32.toNat_add]
    omega

theorem sub_eq (h : a.frag ≠ 0) : r.sub a = (r.add ⟨~~~a.intg, -a.frag⟩) := by
  unfold sub add
  rw [if_neg h]

theorem sub_value (r a : TTS) : ((r.sub a).value : Int) = (r.value - a.value) % 2 ^ 64 := by
  have := r.intg.toNat_lt
  have := r.frag.toNat_lt
  have := a.intg.toNat_lt
  have := a.frag.toNat_lt
  by_cases h : a.frag = 0
  · have hzero : a.frag.toNat = 0 := eq_zero_iff.mp h
    rw [sub, if_pos h]
    unfold value
    dsimp only
    rw [UInt32.toNat_sub]
    omega
  · have hpos : a.frag.toNat ≠ 0 := mt eq_zero_iff.mpr h
    rw [sub_eq h, add_value]
    unfold value
    dsimp only
    rw [UInt32.toNat_not, UInt32.toNat_neg, UInt32.size]
    omega

theorem rshift_signed (v : TTS) : v.rshift.signed = v.signed / 2 := by
  have hi := v.intg.toNat_lt
  have hf := v.frag.toNat_lt
  unfold rshift signed value
  dsimp only
  simp only [top_iff, odd_iff]
  split_ifs <;> simp only [toNat_or_top, toNat_shiftRight_one] at * <;> omega

end

end TTS

/-! ### The two computations -/

/-- What an `int` of 64 bits holds. -/
def Signed64 (x : Int) : Prop := -2 ^ 63 ≤ x ∧ x < 2 ^ 63

/-- The offset that `SntpRecvHandle` prints: `((T2 - T1) + (T3 - T4)) / 2`. -/
def offset (tOrig tRecv tXmt dest : TTS) : TTS := ((tXmt.sub dest).rshift).add (tRecv.sub tOrig).rshift

section
variable {t₁ t₂ t₃ t₄ : TTS}

theorem signed_sub_rshift (h : Signed64 (t₃.value - t₄.value)) : (t₃.sub t₄).rshift.signed = (t₃.value - t₄.value) / 2 := by
  rw [TTS.rshift_signed, TTS.signed_eq h (TTS.sub_value t₃ t₄)]

theorem signed_offset (h₃₄ : Signed64 (t₃.value - t₄.value)) (h₂₁ : Signed64 (t₂.value - t₁.value)) :
    (offset t₁ t₂ t₃ t₄).signed = (t₃.value - t₄.value) / 2 + (t₂.value - t₁.value) / 2 := by
  have hxmt := signed_sub_rshift h₃₄
  have hrecv := signed_sub_rshift h₂₁
  have hxmt' := (t₃.sub t₄).rshift.signed_emod
  have hrecv' := (t₂.sub t₁).rshift.signed_emod
  obtain ⟨h1, h2⟩ := h₃₄
  obtain ⟨h3, h4⟩ := h₂₁
  refine TTS.signed_eq ⟨by omega, by omega⟩ ?_
  rw [offset, TTS.add_value, ← hxmt', ← hrecv', ← Int.add_emod, hxmt, hrecv]

theorem signed_interval (h : Signed64 ((t₄.value - t₁.value) - (t₃.value - t₂.value))) :
    (interval t₁ t₂ t₃ t₄).signed = ((t₄.value - t₁.value) - (t₃.value - t₂.value)) / 2 := by
  rw [interval, TTS.rshift_signed, TTS.signed_eq h]
  rw [TTS.sub_value, TTS.sub_value, TTS.sub_value, ← Int.sub_emod]

/-- The time that is set is the time of arrival and the offset, or one unit more. -/
theorem now_eq_dest_add_offset (h₃₄ : Signed64 (t₃.value - t₄.value)) (h₂₁ : Signed64 (t₂.value - t₁.value))
    (h : Signed64 ((t₄.value - t₁.value) - (t₃.value - t₂.value))) : ∃ u : Int, (u = 0 ∨ u = 1) ∧
      ((t₃.add (interval t₁ t₂ t₃ t₄)).value : Int) = (t₄.value + (offset t₁ t₂ t₃ t₄).signed + u) % 2 ^ 64 ∧
      ∀ (arch : Arch) (iFlag : Int) (l : SntpLocals), iFlag ≠ 0 → ¬(t₁.intg = 0 ∧ t₁.frag = 0) →
        (sntpNow arch t₁ t₂ t₃ t₄ iFlag l).tNowTV =
          ⟨arch.long (t₃.add (interval t₁ t₂ t₃ t₄)).intg, fragToUsec (t₃.add (interval t₁ t₂ t₃ t₄)).frag⟩ := by
  have hoffset := signed_offset h₃₄ h₂₁
  have hinterval := signed_interval h
  have hmod := (interval t₁ t₂ t₃ t₄).signed_emod
  have hnow := TTS.add_value t₃ (interval t₁ t₂ t₃ t₄)
  refine ⟨t₃.value - t₄.value + (interval t₁ t₂ t₃ t₄).signed - (offset t₁ t₂ t₃ t₄).signed, ?_, ?_, ?_⟩
  · rw [hoffset, hinterval]
    omega
  · omega
  · intro arch iFlag l hflag horig
    rw [sntpNow, if_neg hflag, if_neg horig]

/-- A request at 0 s that arrives at 10 s, and an answer at 11 s that arrives at 3 s and a unit. -/
theorem now_eq_dest_add_offset_eleven : ∃ u : Int, (u = 0 ∨ u = 1) ∧
    ((TTS.add ⟨11, 0⟩ (interval ⟨0, 1⟩ ⟨10, 0⟩ ⟨11, 0⟩ ⟨3, 1⟩)).value : Int) =
      ((⟨3, 1⟩ : TTS).value + (offset ⟨0, 1⟩ ⟨10, 0⟩ ⟨11, 0⟩ ⟨3, 1⟩).signed + u) % 2 ^ 64 := by
  obtain ⟨u, hu, hnow, -⟩ := @now_eq_dest_add_offset ⟨0, 1⟩ ⟨10, 0⟩ ⟨11, 0⟩ ⟨3, 1⟩
    ⟨by decide, by decide⟩ ⟨by decide, by decide⟩ ⟨by decide, by decide⟩
  exact ⟨u, hu, hnow⟩

end

end Recbcsrv
