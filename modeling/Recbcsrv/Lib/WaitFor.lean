import Mathlib.Logic.Relation

/-! Wait-for graphs. `w t u` says that `t` waits for `u`; a deadlock is a cycle of the graph. Only edges between
    threads that both wait can be on a cycle, so it is enough to rank these. -/

namespace WaitFor
open Relation

variable {T : Type} {w : T → T → Prop} {t u : T}

/-- `t` waits for somebody. -/
def Blocked (w : T → T → Prop) (t : T) : Prop := ∃ u, w t u

/-- Some thread waits, over others that wait, for itself. -/
def Deadlock (w : T → T → Prop) : Prop := ∃ t, TransGen w t t

theorem blocked_of_transGen (h : TransGen w t u) : Blocked w t := by
  obtain ⟨v, hv, -⟩ := TransGen.head'_iff.mp h
  exact ⟨v, hv⟩

/-- On the way to a thread that waits all threads wait. -/
theorem transGen_blocked (h : TransGen w t u) (hu : Blocked w u) : TransGen (fun a b => w a b ∧ Blocked w b) t u := by
  induction h using TransGen.head_induction_on with
  | single h => exact .single ⟨h, hu⟩
  | head h hrest ih => exact .head ⟨h, blocked_of_transGen hrest⟩ ih

/-- When ranks descend along the edges between waiting threads, there is no deadlock. -/
theorem not_deadlock_of_rank (rank : T → Nat) (h : ∀ t u, w t u → Blocked w u → rank u < rank t) : ¬ Deadlock w := by
  have hdesc : ∀ {t u}, TransGen (fun a b => w a b ∧ Blocked w b) t u → rank u < rank t := fun hpath => by
    induction hpath with
    | single hedge => exact h _ _ hedge.1 hedge.2
    | tail _ hedge ih => exact Nat.lt_trans (h _ _ hedge.1 hedge.2) ih
  rintro ⟨t, ht⟩
  exact Nat.lt_irrefl _ (hdesc (transGen_blocked ht (blocked_of_transGen ht)))

/-- Two threads that wait for each other. -/
theorem deadlock_of_pair (h : w t u) (h' : w u t) : Deadlock w := ⟨t, .head h (.single h')⟩

end WaitFor
