import Mathlib.Data.List.Forall2
import Mathlib.Data.List.Perm.Basic

/-! Interleavings of two lists, built from the front to the back as a log grows. -/

/-- `s` is an interleaving of `l` and `r`: all their elements, those of each in their order. -/
inductive Interleave {α : Type} : List α → List α → List α → Prop where
  | nil : Interleave [] [] []
  | left {l r s : List α} (a : α) : Interleave l r s → Interleave (l ++ [a]) r (s ++ [a])
  | right {l r s : List α} (a : α) : Interleave l r s → Interleave l (r ++ [a]) (s ++ [a])

namespace Interleave
open scoped List

variable {α : Type} {l r s t : List α} {a b : α}

theorem perm (h : Interleave l r s) : s.Perm (l ++ r) := by
  induction h with
  | nil => exact List.Perm.refl _
  | @left l r s a _ ih =>
    calc s ++ [a]
      _ ~ l ++ r ++ [a] := ih.append_right [a]
      _ = l ++ (r ++ [a]) := List.append_assoc ..
      _ ~ l ++ ([a] ++ r) := List.perm_append_comm.append_left l
      _ = l ++ [a] ++ r := (List.append_assoc ..).symm
  | @right l r s a _ ih =>
    rw [← List.append_assoc]
    exact ih.append_right [a]

/-- Two interleavings of the same lists have the same elements. -/
theorem perm_of_same (hs : Interleave l r s) (ht : Interleave l r t) : s.Perm t := hs.perm.trans ht.perm.symm

theorem swap (h : Interleave l r s) : Interleave r l s := by
  induction h with
  | nil => exact .nil
  | left a _ ih => exact ih.right a
  | right a _ ih => exact ih.left a

/-- What is kept of the left list only is kept of it alone. -/
theorem filterMap_eq {β : Type} {f : α → Option β} (h : Interleave l r s) (hr : ∀ a ∈ r, f a = none) :
    s.filterMap f = l.filterMap f := by
  induction h with
  | nil => rfl
  | left a _ ih => rw [List.filterMap_append, List.filterMap_append, ih hr]
  | right a _ ih =>
    rw [List.forall_mem_append] at hr
    rw [List.filterMap_append, ih hr.1, List.filterMap_cons_none (hr.2 a (List.mem_singleton_self a)), List.filterMap_nil,
      List.append_nil]

/-- Lists that go with the parts element by element interleave to one that goes with the whole. -/
theorem forall₂ {β : Type} {R : α → β → Prop} (h : Interleave l r s) {l' r' : List β} (hl : List.Forall₂ R l l')
    (hr : List.Forall₂ R r r') : ∃ s', Interleave l' r' s' ∧ List.Forall₂ R s s' := by
  have hlast : ∀ {m : List α} {a : α} {m' : List β}, List.Forall₂ R (m ++ [a]) m' →
      ∃ n b, m' = n ++ [b] ∧ List.Forall₂ R m n ∧ R a b := fun {m a m'} hm => by
    rw [← List.forall₂_reverse_iff, List.reverse_append, List.reverse_singleton, List.singleton_append,
      List.forall₂_cons_left_iff] at hm
    obtain ⟨b, n, hab, hmn, he⟩ := hm
    refine ⟨n.reverse, b, ?_, ?_, hab⟩
    · rw [← List.reverse_cons, ← he, List.reverse_reverse]
    · rwa [← List.forall₂_reverse_iff, List.reverse_reverse]
  induction h generalizing l' r' with
  | nil =>
    cases hl
    cases hr
    exact ⟨[], .nil, .nil⟩
  | left a _ ih =>
    obtain ⟨n, b, rfl, hn, hab⟩ := hlast hl
    obtain ⟨s', hs', hR⟩ := ih hn hr
    exact ⟨s' ++ [b], hs'.left b, List.rel_append hR (.cons hab .nil)⟩
  | right a _ ih =>
    obtain ⟨n, b, rfl, hn, hab⟩ := hlast hr
    obtain ⟨s', hs', hR⟩ := ih hl hn
    exact ⟨s' ++ [b], hs'.right b, List.rel_append hR (.cons hab .nil)⟩

end Interleave
