import Mathlib.Data.List.Basic

/-! What a look back over a history tells: something that has begun and has not ended since. -/

namespace Recbcsrv

variable {α : Type} {begins ends : List α → Prop} {l : List α} {a : α}

/-- Some time ago it began, and it has not ended since. Both are told by the history up to then. -/
def Lasts (begins ends : List α → Prop) (l : List α) : Prop :=
  ∃ pre post, l = pre ++ post ∧ begins pre ∧ ∀ p, p <+: post → p ≠ [] → ¬ends (pre ++ p)

theorem lasts_of_begins (h : begins l) : Lasts begins ends l :=
  ⟨l, [], (List.append_nil l).symm, h, fun _ hp hne => absurd (List.prefix_nil.mp hp) hne⟩

theorem lasts_nil : Lasts begins ends [] ↔ begins [] := by
  refine ⟨?_, lasts_of_begins⟩
  rintro ⟨pre, post, h, hbegins, -⟩
  rwa [(List.append_eq_nil_iff.mp h.symm).1] at hbegins

theorem lasts_append : Lasts begins ends (l ++ [a]) ↔ begins (l ++ [a]) ∨ Lasts begins ends l ∧ ¬ends (l ++ [a]) := by
  constructor
  · rintro ⟨pre, post, h, hbegins, hends⟩
    rcases List.eq_nil_or_concat' post with rfl | ⟨post, b, rfl⟩
    · rw [List.append_nil] at h
      exact Or.inl (h ▸ hbegins)
    · have hlast := hends (post ++ [b]) List.prefix_rfl (by simp)
      rw [← h] at hlast
      rw [← List.append_assoc] at h
      obtain ⟨rfl, -⟩ := List.append_inj' h rfl
      exact Or.inr ⟨⟨pre, post, rfl, hbegins, fun p hp hne => hends p (hp.trans (List.prefix_append ..)) hne⟩, hlast⟩
  · rintro (hbegins | ⟨⟨pre, post, rfl, hbegins, hends⟩, hlast⟩)
    · exact lasts_of_begins hbegins
    · refine ⟨pre, post ++ [a], List.append_assoc .., hbegins, fun p hp hne => ?_⟩
      rcases List.prefix_concat_iff.mp hp with rfl | hp
      · rwa [← List.append_assoc]
      · exact hends p hp hne

end Recbcsrv
