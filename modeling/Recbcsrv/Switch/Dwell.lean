import Recbcsrv.Sntp.Packet
import Recbcsrv.Switch.Picture

/-! How long a state lasts. `thread_SwitchTracking` looks for a transition only when `interval`, the milliseconds since the last
    transition or `Start`, is at least 3000. It computes `interval` as an `int`, which goes negative after 24 days. -/

namespace Recbcsrv

/-! ### The clock -/

namespace Clock

/-- The microseconds that the clock shows. -/
def micros (c : Clock) : Int := c.sec * 1000000 + c.usec

/-- The milliseconds from one reading of the clock to another, with the microseconds divided toward zero. -/
def msSince (timeval1 timeval2 : Clock) : Int :=
  (timeval2.sec - timeval1.sec) * 1000 + ((timeval2.usec : Int) - timeval1.usec).tdiv 1000

def interval (timeval1 timeval2 : Clock) : Int := (BitVec.ofInt 32 (timeval1.msSince timeval2)).toInt

end Clock

/-! ### The thread with its clock -/

/-- Actions that do not read the clock. -/
def TrackingAction.Untimed : TrackingAction → Prop
  | .start | .pass _ => False
  | _ => True

/-- What happens, with the time that the thread reads. -/
inductive DwellAct where
  | start (now : Clock)
  | pass (now : Clock)
  | other (a : TrackingAction) (h : a.Untimed)

/-- The time of the actions that have one. -/
def DwellAct.time : DwellAct → Option Clock
  | .start now | .pass now => some now
  | .other .. => none

instance (s : Tracking) (interval : Int) : Decidable (s.Enters (.pass interval)) := inferInstanceAs (Decidable (_ ∧ _))

/-- A condition holds for which the current state has an entry. -/
def Tracking.Matches (s : Tracking) : Prop :=
  ∃ i < condMax, s.fsm.transitionTable.item (stateIndex s.fsm.currentState) i ≠ fsmNotransition ∧ s.truthTable.conditionTest i = true

structure DwellThread where
  tracking : Tracking
  timeval1 : Clock

namespace DwellThread

/-- A pass at the time makes a transition. -/
def Transits (s : DwellThread) (now : Clock) : Prop := s.tracking.Enters (.pass (s.timeval1.interval now))

instance (s : DwellThread) (now : Clock) : Decidable (s.Transits now) := inferInstanceAs (Decidable (s.tracking.Enters _))

def step (s : DwellThread) : DwellAct → DwellThread
  | .start now => ⟨s.tracking.step .start, now⟩
  | .pass now => ⟨s.tracking.step (.pass (s.timeval1.interval now)), if s.Transits now then now else s.timeval1⟩
  | .other a _ => ⟨s.tracking.step a, s.timeval1⟩

def run (s : DwellThread) (as : List DwellAct) : DwellThread := as.foldl step s

/-- The time of an action that is a `Start` or makes a transition. -/
def switchTime (s : DwellThread) : DwellAct → Option Clock
  | .start now => some now
  | .pass now => if s.Transits now then some now else none
  | .other .. => none

/-- The time of the last transition or `Start` of a run that begins at the time `since`, which stands for it when there is none. -/
def lastSwitch (since : Clock) (s : DwellThread) : List DwellAct → Clock
  | [] => since
  | a :: as => lastSwitch ((s.switchTime a).getD since) (s.step a) as

/-- The clock does not go back. -/
def NonDecreasing (since : Clock) (as : List DwellAct) : Prop :=
  (since :: as.filterMap DwellAct.time).Pairwise fun c d => c.micros ≤ d.micros

/-- A transition comes more than 2999 ms after the switch before it. -/
def Apart (s : DwellThread) (pre : List DwellAct) (now : Clock) : Prop :=
  (s.run pre).Transits now → 2999000 < now.micros - (lastSwitch s.timeval1 s pre).micros

/-- After 3000 ms there is a transition to make. -/
def Due (s : DwellThread) (pre : List DwellAct) (now : Clock) : Prop :=
  3000000 ≤ now.micros - (lastSwitch s.timeval1 s pre).micros ∧ (s.run pre).tracking.isAutoInstuct = 2 ∧ (s.run pre).tracking.Matches

/-- The milliseconds since the last switch are, modulo `2 ^ 32`, an `int` from 3000 on. -/
def Shown (s : DwellThread) (pre : List DwellAct) (now : Clock) : Prop :=
  3000 ≤ (lastSwitch s.timeval1 s pre).msSince now % 2 ^ 32 ∧ (lastSwitch s.timeval1 s pre).msSince now % 2 ^ 32 < 2 ^ 31

end DwellThread

section
variable {c d since now : Clock} {s : DwellThread} {a : DwellAct} {as pre post : List DwellAct}

/-! ### The interval -/

/-- The division of the microseconds loses less than a millisecond. -/
theorem msSince_bounds (c d : Clock) :
    d.micros - c.micros - 1000 < 1000 * c.msSince d ∧ 1000 * c.msSince d < d.micros - c.micros + 1000 := by
  have hsign : (1000 : Int).sign = 1 := rfl
  unfold Clock.msSince Clock.micros
  rw [Int.tdiv_eq_ediv, hsign]
  split <;> constructor <;> omega

theorem interval_le (h : 0 ≤ c.msSince d) : c.interval d ≤ c.msSince d := by
  unfold Clock.interval
  rw [BitVec.toInt_ofInt]
  have hle : (c.msSince d).bmod (2 ^ 32) ≤ c.msSince d % 2 ^ 32 := by
    rw [Int.bmod_def]
    split <;> omega
  omega

theorem interval_iff (c d : Clock) :
    3000 ≤ c.interval d ↔ 3000 ≤ c.msSince d % 2 ^ 32 ∧ c.msSince d % 2 ^ 32 < 2 ^ 31 := by
  unfold Clock.interval
  rw [BitVec.toInt_ofInt, Int.bmod_def]
  split <;> omega

/-! ### Transitions -/

theorem fsmStateUpdate_ne (s : Tracking) : (fsmStateUpdate s.truthTable s.fsm).1 ≠ fsmNotransition ↔ s.Matches := by
  unfold fsmStateUpdate Fsm.scan Tracking.Matches
  cases hfind : (List.range condMax).find? fun i =>
      s.fsm.transitionTable.item (stateIndex s.fsm.currentState) i ≠ fsmNotransition && s.truthTable.conditionTest i with
  | none =>
    refine iff_of_false (fun h => h rfl) ?_
    rintro ⟨i, hi, hitem, htest⟩
    have := List.find?_eq_none.mp hfind i (List.mem_range.mpr hi)
    simp [hitem, htest] at this
  | some i =>
    have hi := List.find?_some hfind
    have hmem := List.mem_range.mp (List.mem_of_find?_eq_some hfind)
    simp only [ne_eq, decide_not, Bool.and_eq_true, Bool.not_eq_eq_eq_not, Bool.not_true, decide_eq_false_iff_not] at hi
    exact iff_of_true hi.1 ⟨i, hmem, hi.1, hi.2⟩

namespace DwellThread

theorem transits_iff : s.Transits now ↔
    s.tracking.isAutoInstuct = 2 ∧ 3000 ≤ s.timeval1.interval now ∧ s.tracking.Matches := by
  rw [← fsmStateUpdate_ne]
  exact and_assoc

/-- `timeval1` is the time of the last switch. -/
theorem timeval1_run (s : DwellThread) (as : List DwellAct) : (s.run as).timeval1 = lastSwitch s.timeval1 s as := by
  induction as generalizing s with
  | nil => rfl
  | cons a as ih =>
    have hstep : (s.step a).timeval1 = (s.switchTime a).getD s.timeval1 := by
      cases a with
      | start now => rfl
      | pass now =>
        simp only [step, switchTime]
        split <;> rfl
      | other a h => rfl
    rw [lastSwitch, ← hstep]
    exact ih (s.step a)

theorem lastSwitch_mem (since : Clock) (s : DwellThread) (as : List DwellAct) :
    lastSwitch since s as ∈ since :: as.filterMap DwellAct.time := by
  induction as generalizing since s with
  | nil => exact List.mem_cons_self ..
  | cons a as ih =>
    have hmem := ih ((s.switchTime a).getD since) (s.step a)
    rw [lastSwitch]
    cases ha : s.switchTime a with
    | none =>
      rw [ha, Option.getD_none] at hmem
      rcases List.mem_cons.mp hmem with heq | hin
      · rw [Option.getD_none, heq]
        exact List.mem_cons_self ..
      · refine List.mem_cons_of_mem since ?_
        obtain ⟨b, hb, htime⟩ := List.mem_filterMap.mp hin
        exact List.mem_filterMap.mpr ⟨b, List.mem_cons_of_mem a hb, htime⟩
    | some c =>
      have htime : a.time = some c := by
        cases a with
        | start now => exact ha
        | pass now =>
          by_cases ht : s.Transits now
          · exact (if_pos ht).symm.trans ha
          · cases (if_neg ht).symm.trans ha
        | other a h => cases ha
      rw [ha, Option.getD_some] at hmem
      rw [List.filterMap_cons_some htime]
      exact List.mem_cons_of_mem since hmem

theorem lastSwitch_le (h : NonDecreasing since (pre ++ .pass now :: post)) (s : DwellThread) :
    (lastSwitch since s pre).micros ≤ now.micros := by
  unfold NonDecreasing at h
  rw [List.filterMap_append, ← List.cons_append, List.pairwise_append] at h
  exact h.2.2 _ (lastSwitch_mem since s pre) now (List.mem_cons_self ..)

/-- In a run whose clock does not go back the transitions are more than 2999 ms apart; and every transition that is due is made
    exactly when the time since the last switch is shown by an `int` whenever one is due. -/
theorem dwells_iff (s : DwellThread) (as : List DwellAct) (hclock : NonDecreasing s.timeval1 as) :
    (∀ pre now post, as = pre ++ .pass now :: post → s.Apart pre now) ∧
    ((∀ pre now post, as = pre ++ .pass now :: post → s.Due pre now → (s.run pre).Transits now) ↔
      ∀ pre now post, as = pre ++ .pass now :: post → s.Due pre now → s.Shown pre now) := by
  constructor
  · rintro pre now post rfl htransits
    obtain ⟨-, hinterval, -⟩ := transits_iff.mp htransits
    rw [timeval1_run] at hinterval
    have hle := lastSwitch_le hclock s
    obtain ⟨hlow, hhigh⟩ := msSince_bounds (lastSwitch s.timeval1 s pre) now
    have := interval_le (c := lastSwitch s.timeval1 s pre) (d := now) (by omega)
    omega
  · refine forall_congr' fun pre => forall_congr' fun now => forall_congr' fun post => imp_congr_right fun _ => ?_
    refine imp_congr_right fun hdue => ?_
    unfold Shown
    rw [transits_iff, timeval1_run, interval_iff]
    exact ⟨fun h => h.2.1, fun h => ⟨hdue.2.1, h, hdue.2.2⟩⟩

/-- The transition that is due three seconds after the start of the thread is made. -/
theorem dwells_three_seconds :
    let s : DwellThread := ⟨.init fsmInit 2 10 vmapTableInit, ⟨0, 0, by decide⟩⟩
    s.Transits ⟨3, 0, by decide⟩ := by
  have hclock : NonDecreasing ⟨0, 0, by decide⟩ [.pass ⟨3, 0, by decide⟩] := by
    unfold NonDecreasing
    decide
  refine ((dwells_iff ⟨.init fsmInit 2 10 vmapTableInit, ⟨0, 0, by decide⟩⟩ _ hclock).2.mpr ?_) [] _ [] rfl ?_
  · intro pre now post heq _
    rcases List.append_eq_singleton_iff.mp heq.symm with ⟨rfl, htail⟩ | ⟨-, htail⟩
    · cases htail
      unfold Shown
      decide
    · cases htail
  · exact ⟨by decide, rfl, (fsmStateUpdate_ne _).mp (by decide +kernel)⟩

/-- The thread runs for 2147484 seconds in the mode that does not switch by itself, and then in the other one. -/
def longManualRun : List DwellAct := [.other (.setRecordMode "Auto") trivial]

/-- The transition that is due is not made: the milliseconds are negative as an `int`. -/
theorem long_state_counterexample :
    let s : DwellThread := ⟨.init fsmInit 0 10 vmapTableInit, ⟨0, 0, by decide⟩⟩
    NonDecreasing s.timeval1 (longManualRun ++ [.pass ⟨2147484, 0, by decide⟩]) ∧
    ¬ ∀ pre now post, longManualRun ++ [.pass ⟨2147484, 0, by decide⟩] = pre ++ .pass now :: post →
      s.Due pre now → (s.run pre).Transits now := by
  intro s
  refine ⟨by unfold NonDecreasing; decide, fun h => ?_⟩
  have hdue : s.Due longManualRun ⟨2147484, 0, by decide⟩ := ⟨by decide +kernel, rfl, (fsmStateUpdate_ne _).mp (by decide +kernel)⟩
  have htransits := h longManualRun ⟨2147484, 0, by decide⟩ [] rfl hdue
  revert htransits
  decide +kernel

end DwellThread

end

end Recbcsrv
