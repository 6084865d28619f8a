import Mathlib.Data.List.Basic
import Mathlib.Data.Nat.SuccPred

/-! Runs of a partial transition function. `step s a` is the state after action `a`, or nothing when
    `a` is not enabled in `s`; `exec` runs a list of actions. An invariant is proved once for a step
    and carries over to every run. -/

namespace Exec

variable {σ α : Type} {step : σ → α → Option σ} {s t u : σ} {a : α} {as bs : List α}

/-- The state after the actions `as`, or nothing when one of them is not enabled. -/
def exec (step : σ → α → Option σ) : σ → List α → Option σ
  | s, [] => some s
  | s, a :: as => (step s a).bind fun t => exec step t as

/-- Every step of the run has the property. -/
def EveryStep (step : σ → α → Option σ) (P : σ → α → σ → Prop) : σ → List α → Prop
  | _, [] => True
  | s, a :: as => ∀ t, step s a = some t → P s a t ∧ EveryStep step P t as

/-- `t` is reached from `s` by some run. -/
def Reach (step : σ → α → Option σ) (s t : σ) : Prop := ∃ as, exec step s as = some t

@[simp] theorem exec_nil : exec step s [] = some s := rfl

theorem exec_cons : exec step s (a :: as) = some u ↔ ∃ t, step s a = some t ∧ exec step t as = some u := by
  simp only [exec, Option.bind_eq_some_iff]

theorem exec_append : exec step s (as ++ bs) = some u ↔ ∃ t, exec step s as = some t ∧ exec step t bs = some u := by
  induction as generalizing s with
  | nil => simp
  | cons a as ih =>
    simp only [List.cons_append, exec_cons, ih]
    constructor
    · rintro ⟨t, ht, v, hv, hu⟩
      exact ⟨v, ⟨t, ht, hv⟩, hu⟩
    · rintro ⟨v, ⟨t, ht, hv⟩, hu⟩
      exact ⟨t, ht, v, hv, hu⟩

theorem exec_singleton : exec step s [a] = step s a := Option.bind_fun_some _

theorem isSome_exec_cons : (exec step s (a :: as)).isSome ↔ ∃ t, step s a = some t ∧ (exec step t as).isSome := by
  simp only [Option.isSome_iff_exists, exec_cons]
  constructor
  · rintro ⟨u, t, ht, hu⟩
    exact ⟨t, ht, u, hu⟩
  · rintro ⟨t, ht, u, hu⟩
    exact ⟨u, t, ht, hu⟩

/-- A step that uses a value which may be missing. -/
theorem isSome_bind {β : Type} {o : Option β} {f : β → Option σ} {P : β → Prop} (h : ∀ b, (f b).isSome ↔ P b) :
    (o.bind f).isSome ↔ ∃ b, o = some b ∧ P b := by
  cases o with
  | none => exact iff_of_false Bool.false_ne_true fun ⟨b, hb, _⟩ => Option.some_ne_none b hb.symm
  | some c =>
    rw [Option.bind_some, h]
    constructor
    · exact fun hc => ⟨c, rfl, hc⟩
    · rintro ⟨b, hb, hP⟩
      exact Option.some.inj hb ▸ hP

/-- A step that does something under a condition only. -/
theorem isSome_ite {c P : Prop} [Decidable c] {o : Option σ} (h : c → (o.isSome ↔ P)) :
    (if c then o else some s).isSome ↔ (c → P) := by
  by_cases hc : c
  · rw [if_pos hc, imp_iff_right hc, h hc]
  · rw [if_neg hc]
    exact iff_of_true rfl fun hcond => absurd hcond hc

/-- A run whose actions are enabled or not whatever the state. -/
theorem exec_isSome_iff_forall {P : α → Prop} (h : ∀ s, ∀ a ∈ as, (step s a).isSome ↔ P a) :
    (exec step s as).isSome ↔ ∀ a ∈ as, P a := by
  induction as generalizing s with
  | nil => exact iff_of_true rfl fun a ha => absurd ha List.not_mem_nil
  | cons a as ih =>
    have hhead := h s a (List.mem_cons_self ..)
    have htail : ∀ t, (exec step t as).isSome ↔ ∀ b ∈ as, P b := fun t => ih fun s b hb => h s b (List.mem_cons_of_mem a hb)
    rw [isSome_exec_cons, List.forall_mem_cons, ← hhead, Option.isSome_iff_exists]
    constructor
    · rintro ⟨t, ht, hrest⟩
      exact ⟨⟨t, ht⟩, (htail t).mp hrest⟩
    · rintro ⟨⟨t, ht⟩, hrest⟩
      exact ⟨t, ht, (htail t).mpr hrest⟩

/-- A part of the state that lists act on, where every action gives a list. -/
theorem exec_flatMap {β γ : Type} {p : σ → γ} {f : α → List β} (act : γ → List β → γ) (hnil : ∀ c, act c [] = c)
    (happend : ∀ c l l', act c (l ++ l') = act (act c l) l') (h : ∀ s a t, step s a = some t → p t = act (p s) (f a))
    (hrun : exec step s as = some t) : p t = act (p s) (as.flatMap f) := by
  induction as generalizing s with
  | nil =>
    cases hrun
    exact (hnil _).symm
  | cons a as ih =>
    obtain ⟨u, hu, hrest⟩ := exec_cons.mp hrun
    rw [ih hrest, h s a u hu, List.flatMap_cons, happend]

/-- A part of the state that is the last of the values that the actions give. -/
theorem exec_getLast {β : Type} {p : σ → β} {f : α → List β}
    (h : ∀ s a t, step s a = some t → p t = (f a).getLast?.getD (p s)) (hrun : exec step s as = some t) :
    p t = (as.flatMap f).getLast?.getD (p s) := by
  refine exec_flatMap (fun c l => l.getLast?.getD c) (fun c => rfl) (fun c l l' => ?_) h hrun
  rw [List.getLast?_append]
  cases l'.getLast? <;> rfl

/-- A part of the state that takes up the values that the actions give, one after the other. -/
theorem exec_foldl {β γ : Type} {p : σ → γ} {g : γ → β → γ} {f : α → List β}
    (h : ∀ s a t, step s a = some t → p t = (f a).foldl g (p s)) (hrun : exec step s as = some t) :
    p t = (as.flatMap f).foldl g (p s) :=
  exec_flatMap (List.foldl g) (fun _ => rfl) (fun _ _ _ => List.foldl_append ..) h hrun

/-- A run whose actions are all enabled, whatever the state. -/
theorem exec_eq_foldl {g : σ → α → σ} (h : ∀ s, ∀ a ∈ as, step s a = some (g s a)) : exec step s as = some (as.foldl g s) := by
  induction as generalizing s with
  | nil => rfl
  | cons a as ih =>
    rw [exec, h s a (List.mem_cons_self ..), Option.bind_some, ih fun s b hb => h s b (List.mem_cons_of_mem a hb)]
    rfl

/-- A run goes through exactly when every action is enabled in the state that the actions before it lead to. -/
theorem exec_isSome_iff : (exec step s as).isSome ↔
    ∀ pre a post t, as = pre ++ a :: post → exec step s pre = some t → (step t a).isSome := by
  induction as generalizing s with
  | nil =>
    refine iff_of_true rfl fun pre a post t has => ?_
    simp at has
  | cons b as ih =>
    cases hb : step s b with
    | none =>
      refine iff_of_false (by simp [exec, hb]) fun hall => ?_
      have hfirst := hall [] b as s rfl rfl
      rw [hb] at hfirst
      cases hfirst
    | some u =>
      have hrest : exec step s (b :: as) = exec step u as := by rw [exec, hb, Option.bind_some]
      rw [hrest, ih]
      constructor
      · intro hall pre a post t has ht
        cases pre with
        | nil =>
          obtain ⟨rfl, rfl⟩ := List.cons.inj has
          cases ht
          rw [hb]
          rfl
        | cons p pre =>
          simp only [List.cons_append, List.cons.injEq] at has
          obtain ⟨rfl, rfl⟩ := has
          obtain ⟨v, hv, ht⟩ := exec_cons.mp ht
          obtain rfl : u = v := Option.some.inj (hb.symm.trans hv)
          exact hall pre a post t rfl ht
      · intro hall pre a post t has ht
        exact hall (b :: pre) a post t (congrArg (b :: ·) has) (exec_cons.mpr ⟨u, hb, ht⟩)

/-- What holds of all actions and the ones before them, for one action more. -/
theorem forall_split_concat {P : List α → α → Prop} : (∀ pre b post, as ++ [a] = pre ++ b :: post → P pre b) ↔
    (∀ pre b post, as = pre ++ b :: post → P pre b) ∧ P as a := by
  constructor
  · intro h
    refine ⟨fun pre b post has => h pre b (post ++ [a]) ?_, h as a [] rfl⟩
    rw [has, List.append_assoc, List.cons_append]
  · rintro ⟨h, hlast⟩ pre b post hsplit
    rcases List.eq_nil_or_concat post with rfl | ⟨post, c, rfl⟩
    · obtain ⟨rfl, hb⟩ := List.append_inj' hsplit rfl
      obtain rfl : a = b := (List.cons.inj hb).1
      exact hlast
    · have hsplit : as ++ [a] = (pre ++ b :: post) ++ [c] := by rw [hsplit]; simp
      exact h pre b post (List.append_inj' hsplit rfl).1

/-- What holds of a state and a record of the actions, and is kept by every step that the record follows, holds after a run
    of the state and the record of the whole run. -/
theorem exec_follows {γ : Type} {R : γ → σ → Prop} {r : γ → α → γ} {g : γ}
    (hstep : ∀ g s a t, R g s → step s a = some t → R (r g a) t) (hs : R g s) (h : exec step s as = some t) :
    R (as.foldl r g) t := by
  induction as generalizing s g with
  | nil =>
    cases h
    exact hs
  | cons a as ih =>
    obtain ⟨u, hu, h⟩ := exec_cons.mp h
    exact ih (hstep g s a u hs hu) h

/-- What a state has to do with the number of steps that led to it. -/
theorem exec_length {R : Nat → σ → Prop} (hstep : ∀ n s a t, R n s → step s a = some t → R (n + 1) t) (hs : R 0 s)
    (h : exec step s as = some t) : R as.length t := by
  have hcount : R (as.foldl (fun n _ => n + 1) 0) t := exec_follows hstep hs h
  rw [List.foldl_const, Nat.succ_iterate, Nat.zero_add] at hcount
  exact hcount

/-- Two properties agree on the steps of a run when they agree on every step from a state with `I`, and the first of them
    carries `I` on. -/
theorem everyStep_congr {I : σ → Prop} {P Q : σ → α → σ → Prop} (hI : ∀ s a t, I s → step s a = some t → P s a t → I t)
    (h : ∀ s a t, I s → step s a = some t → (P s a t ↔ Q s a t)) (hs : I s) :
    EveryStep step P s as ↔ EveryStep step Q s as := by
  induction as generalizing s with
  | nil => exact Iff.rfl
  | cons a as ih =>
    constructor
    · intro hall t ht
      obtain ⟨hP, hrest⟩ := hall t ht
      exact ⟨(h s a t hs ht).mp hP, (ih (hI s a t hs ht hP)).mp hrest⟩
    · intro hall t ht
      obtain ⟨hQ, hrest⟩ := hall t ht
      have hP := (h s a t hs ht).mpr hQ
      exact ⟨hP, (ih (hI s a t hs ht hP)).mpr hrest⟩

/-- Every step has a property when each step from a state with `I` does, and carries `I` on. -/
theorem everyStep_of {I : σ → Prop} {P : σ → α → σ → Prop} (hI : ∀ s a t, I s → step s a = some t → I t)
    (h : ∀ s a t, I s → step s a = some t → P s a t) (hs : I s) : EveryStep step P s as := by
  induction as generalizing s with
  | nil => trivial
  | cons a as ih =>
    intro t ht
    exact ⟨h s a t hs ht, ih (hI s a t hs ht)⟩

/-- The property of a step in the middle of the run. -/
theorem EveryStep.mid {P : σ → α → σ → Prop} (h : EveryStep step P s (as ++ a :: bs)) (ht : exec step s as = some t)
    (hu : step t a = some u) : P t a u := by
  induction as generalizing s with
  | nil =>
    cases ht
    exact (h u hu).1
  | cons b as ih =>
    obtain ⟨v, hv, ht⟩ := exec_cons.mp ht
    exact ih (h v hv).2 ht

/-- What each step with the property keeps holds after a run whose steps all have it. -/
theorem EveryStep.invariant {I : σ → Prop} {P : σ → α → σ → Prop} (hall : EveryStep step P s as)
    (hstep : ∀ s a t, I s → step s a = some t → P s a t → I t) (hs : I s) (h : exec step s as = some t) : I t := by
  induction as generalizing s with
  | nil =>
    cases h
    exact hs
  | cons a as ih =>
    obtain ⟨u, hu, h⟩ := exec_cons.mp h
    obtain ⟨hP, hrest⟩ := hall u hu
    exact ih hrest (hstep s a u hs hu hP) h

instance EveryStep.decidable {P : σ → α → σ → Prop} [∀ s a t, Decidable (P s a t)] :
    ∀ s as, Decidable (EveryStep step P s as)
  | _, [] => isTrue trivial
  | s, a :: as =>
    match h : step s a with
    | none => isTrue fun t ht => absurd (h.symm.trans ht) (Option.some_ne_none t).symm
    | some t =>
      have := EveryStep.decidable (P := P) t as
      decidable_of_iff (P s a t ∧ EveryStep step P t as)
        ⟨fun hP _ hu => Option.some.inj (h.symm.trans hu) ▸ hP, fun hall => hall t h⟩

theorem Reach.refl : Reach step s s := ⟨[], rfl⟩

theorem Reach.one (h : step s a = some t) : Reach step s t := ⟨[a], exec_cons.mpr ⟨t, h, rfl⟩⟩

theorem Reach.trans (h₁ : Reach step s t) (h₂ : Reach step t u) : Reach step s u := by
  obtain ⟨as, ha⟩ := h₁
  obtain ⟨bs, hb⟩ := h₂
  exact ⟨as ++ bs, exec_append.mpr ⟨t, ha, hb⟩⟩

theorem Reach.head (h : step s a = some t) (h' : Reach step t u) : Reach step s u := (Reach.one h).trans h'

/-- What every step of a run keeps holds after it. -/
theorem exec_invariant_mem {I : σ → Prop} (hstep : ∀ a ∈ as, ∀ s t, I s → step s a = some t → I t) (hs : I s)
    (h : exec step s as = some t) : I t := by
  induction as generalizing s with
  | nil =>
    cases h
    exact hs
  | cons a as ih =>
    obtain ⟨u, hu, h⟩ := exec_cons.mp h
    rw [List.forall_mem_cons] at hstep
    exact ih hstep.2 (hstep.1 s u hs hu) h

/-- What every step keeps holds after every run. -/
theorem exec_invariant {I : σ → Prop} (hstep : ∀ s a t, I s → step s a = some t → I t) (hs : I s)
    (h : exec step s as = some t) : I t :=
  exec_invariant_mem (fun a _ s t => hstep s a t) hs h

/-- A run is no longer than the number that each of its steps brings down. -/
theorem exec_length_le {I : σ → Prop} {m : σ → Nat} (hstep : ∀ s a t, I s → step s a = some t → I t ∧ m t < m s)
    (hs : I s) (h : exec step s as = some t) : as.length + m t ≤ m s := by
  induction as generalizing s with
  | nil =>
    cases h
    exact Nat.le_of_eq (Nat.zero_add _)
  | cons a as ih =>
    obtain ⟨u, hu, h⟩ := exec_cons.mp h
    obtain ⟨hI, hlt⟩ := hstep s a u hs hu
    have hrest := ih hI h
    rw [List.length_cons]
    omega

theorem Reach.invariant {I : σ → Prop} (h : Reach step s t) (hs : I s)
    (hstep : ∀ s a t, I s → step s a = some t → I t) : I t := by
  obtain ⟨as, h⟩ := h
  exact exec_invariant hstep hs h

end Exec
