import Mathlib.Data.List.Count
import Mathlib.Logic.Function.Basic
import Recbcsrv.Lib.Exec

/-! The use of files through handles. A log of calls is played against the set of open handles: a file is opened on a
    handle that is closed, and written and closed through one that is open. -/

namespace Files

/-- A call: `fopen` that sets the handle, a write of `w`, `fclose`. -/
inductive Op (η ω : Type) where
  | fopen (h : η)
  | write (h : η) (w : ω)
  | fclose (h : η)
  deriving DecidableEq, Repr

variable {η ω : Type} [DecidableEq η]

/-- The open handles after a call, or nothing when the call is not allowed. -/
def step (opened : η → Bool) : Op η ω → Option (η → Bool)
  | .fopen h => if opened h then none else some (Function.update opened h true)
  | .write h _ => if opened h then some opened else none
  | .fclose h => if opened h then some (Function.update opened h false) else none

/-- No handle is open. -/
def closed : η → Bool := fun _ => false

variable {s t : η → Bool} {h : η} {w : ω} {ops : List (Op η ω)}

theorem step_fopen : step s (.fopen h : Op η ω) = some t ↔ s h = false ∧ Function.update s h true = t := by
  simp only [step]
  cases s h <;> simp

theorem step_write : step s (.write h w) = some t ↔ s h = true ∧ s = t := by
  simp only [step]
  cases s h <;> simp

theorem step_fclose : step s (.fclose h : Op η ω) = some t ↔ s h = true ∧ Function.update s h false = t := by
  simp only [step]
  cases s h <;> simp

/-- Every handle has been opened once more often than closed if it is open, and as often if it is not. -/
theorem exec_count [DecidableEq ω] (hexec : Exec.exec step s ops = some t) (h : η) :
    ops.count (.fopen h) + (s h).toNat = ops.count (.fclose h) + (t h).toNat := by
  induction ops generalizing s with
  | nil =>
    cases hexec
    rfl
  | cons o ops ih =>
    obtain ⟨u, hu, hrest⟩ := Exec.exec_cons.mp hexec
    have hih := ih hrest
    have hone : List.count (.fopen h) [o] + (s h).toNat = List.count (.fclose h) [o] + (u h).toNat := by
      cases o with
      | fopen h' =>
        obtain ⟨hclosed, rfl⟩ := step_fopen.mp hu
        by_cases he : h = h'
        · subst he
          simp [hclosed]
        · simp [Function.update_of_ne he, Ne.symm he]
      | write h' w =>
        obtain ⟨-, rfl⟩ := step_write.mp hu
        simp
      | fclose h' =>
        obtain ⟨hopen, rfl⟩ := step_fclose.mp hu
        by_cases he : h = h'
        · subst he
          simp [hopen]
        · simp [Function.update_of_ne he, Ne.symm he]
    rw [← List.singleton_append, List.count_append, List.count_append]
    omega

/-- A handle that is never opened stays closed. -/
theorem exec_closed (hexec : Exec.exec step s ops = some t) (hs : s h = false) (hno : ∀ o ∈ ops, o ≠ .fopen h) : t h = false := by
  refine Exec.exec_invariant_mem (I := fun s => s h = false) (fun o ho s t hs ht => ?_) hs hexec
  cases o with
  | fopen h' =>
    obtain ⟨-, rfl⟩ := step_fopen.mp ht
    rwa [Function.update_of_ne fun e : h = h' => hno _ ho (e ▸ rfl)]
  | write h' w =>
    obtain ⟨-, rfl⟩ := step_write.mp ht
    exact hs
  | fclose h' =>
    obtain ⟨-, rfl⟩ := step_fclose.mp ht
    by_cases he : h = h'
    · rw [he, Function.update_self]
    · rwa [Function.update_of_ne he]

end Files
