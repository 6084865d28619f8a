import Mathlib.Tactic.IntervalCases
import Recbcsrv.Switch.Tracking

/-! In every state of the thread exactly one condition of each kind holds, so exactly one combination does,
    and the entry of the transition table for it decides the next state. -/

namespace Recbcsrv
open TruthTable

/-- One condition of each kind holds: the VGA condition `v`, the teacher condition `te`, the student condition `st`
    and the board condition `b`, counted from 0. -/
structure OneHot (t : TruthTable) (v te st b : Nat) : Prop where
  conditions : t.Conditions
  v_lt : v < 2
  te_lt : te < 3
  st_lt : st < 3
  b_lt : b < 2
  test : ∀ i < 10, t.conditionTest i = true ↔ i = v ∨ i = 2 + te ∨ i = 5 + st ∨ i = 8 + b

section
variable {t : TruthTable} {v te st b i j k : Nat}

/-- Element conditions that are set (true) and reset (false) one after the other. -/
def assigns (l : List (Nat × Bool)) (t : TruthTable) : TruthTable := l.foldl (fun t p => (t.elementConditionAssign p.2 p.1).2) t

/-- The last change of a condition counts. -/
theorem TruthTable.Conditions.test_assigns (h : t.Conditions) (l : List (Nat × Bool)) (hl : ∀ p ∈ l, p.1 < 10) (hj : j < 10) :
    (assigns l t).Conditions ∧ (assigns l t).conditionTest j = (l.reverse.lookup j).getD (t.conditionTest j) := by
  induction l generalizing t with
  | nil => exact ⟨h, rfl⟩
  | cons p l ih =>
    obtain ⟨i, x⟩ := p
    rw [List.forall_mem_cons] at hl
    obtain ⟨hc, htest⟩ := ih h.assign hl.2
    refine ⟨hc, htest.trans ?_⟩
    rw [h.test_assign hl.1 hj, List.reverse_cons, List.lookup_append]
    cases l.reverse.lookup j with
    | some x => rfl
    | none =>
      by_cases e : j = i
      · simp [e]
      · simp [List.lookup_cons, e, beq_eq_false_iff_ne.mpr e]

/-- Changes of the `n` conditions from `a` on that end with the `x`-th of them, and no other, set. -/
structure Chooses (l : List (Nat × Bool)) (a n x : Nat) : Prop where
  kind : ∀ p ∈ l, a ≤ p.1 ∧ p.1 < a + n
  lt : x < n
  last : ∀ k < n, l.reverse.lookup (a + k) = some (decide (k = x))

instance (l : List (Nat × Bool)) (a n x : Nat) : Decidable (Chooses l a n x) :=
  decidable_of_iff ((∀ p ∈ l, a ≤ p.1 ∧ p.1 < a + n) ∧ x < n ∧ ∀ k < n, l.reverse.lookup (a + k) = some (decide (k = x)))
    ⟨fun h => ⟨h.1, h.2.1, h.2.2⟩, fun h => ⟨h.kind, h.lt, h.last⟩⟩

/-- The conditions outside the kind keep their values. -/
theorem TruthTable.Conditions.test_choose {l : List (Nat × Bool)} {a n x : Nat} (h : t.Conditions) (hl : Chooses l a n x)
    (ha : a + n ≤ 10) (hi : i < 10) :
    (assigns l t).conditionTest i = true ↔ if a ≤ i ∧ i < a + n then i = a + x else t.conditionTest i = true := by
  rw [(h.test_assigns l (fun p hp => by have := hl.kind p hp; omega) hi).2]
  split
  · next hin =>
    obtain ⟨d, rfl⟩ := Nat.exists_eq_add_of_le hin.1
    rw [hl.last d (by omega), Option.getD_some, decide_eq_true_eq, Nat.add_left_cancel_iff]
  · next hout =>
    have hnone : l.reverse.lookup i = none := List.lookup_eq_none_iff.mpr fun p hp => by
      have hkind := hl.kind p (List.mem_reverse.mp hp)
      have hne : i ≠ p.1 := by omega
      simpa using hne
    rw [hnone, Option.getD_none]

theorem TruthTable.Conditions.assigns {l : List (Nat × Bool)} (h : t.Conditions) (hl : ∀ p ∈ l, p.1 < 10) :
    (assigns l t).Conditions :=
  (h.test_assigns l hl (show 0 < 10 by decide)).1

theorem OneHot.vga {l : List (Nat × Bool)} {v' : Nat} (h : OneHot t v te st b) (hl : Chooses l 0 2 v') :
    OneHot (assigns l t) v' te st b := by
  refine ⟨h.conditions.assigns fun p hp => ?_, hl.lt, h.te_lt, h.st_lt, h.b_lt, fun i hi => ?_⟩
  · have := hl.kind p hp
    omega
  · rw [h.conditions.test_choose hl (by decide) hi, h.test i hi]
    have hv := h.v_lt
    have hv' := hl.lt
    split <;> omega

theorem OneHot.teacher {l : List (Nat × Bool)} {te' : Nat} (h : OneHot t v te st b) (hl : Chooses l 2 3 te') :
    OneHot (assigns l t) v te' st b := by
  refine ⟨h.conditions.assigns fun p hp => ?_, h.v_lt, hl.lt, h.st_lt, h.b_lt, fun i hi => ?_⟩
  · have := hl.kind p hp
    omega
  · rw [h.conditions.test_choose hl (by decide) hi, h.test i hi]
    have hv := h.v_lt
    have hte := h.te_lt
    have hte' := hl.lt
    split <;> omega

theorem OneHot.student {l : List (Nat × Bool)} {st' : Nat} (h : OneHot t v te st b) (hl : Chooses l 5 3 st') :
    OneHot (assigns l t) v te st' b := by
  refine ⟨h.conditions.assigns fun p hp => ?_, h.v_lt, h.te_lt, hl.lt, h.b_lt, fun i hi => ?_⟩
  · have := hl.kind p hp
    omega
  · rw [h.conditions.test_choose hl (by decide) hi, h.test i hi]
    have hv := h.v_lt
    have hte := h.te_lt
    have hst := h.st_lt
    have hst' := hl.lt
    split <;> omega

/-- The conditions at the start of a recording, whatever held before. -/
theorem TruthTable.Conditions.restart (h : t.Conditions) : OneHot t.restart 0 0 0 0 := by
  have htest := fun i (hi : i < 10) => h.test_assigns [(0, true), (1, false), (2, true), (3, false), (4, false), (5, true),
    (6, false), (7, false), (8, true), (9, false)] (by decide) hi
  refine ⟨(htest 0 (by decide)).1, by decide, by decide, by decide, by decide, fun i hi => ?_⟩
  refine (Bool.eq_iff_iff.mp (htest i hi).2).trans ?_
  interval_cases i <;> simp [List.lookup_cons]

theorem OneHot.vgaUnchg (h : OneHot t v te st b) : OneHot t.vgaUnchg 0 te st b :=
  h.vga (l := [(0, true), (1, false)]) (by decide)

theorem OneHot.vgaChg (h : OneHot t v te st b) : OneHot t.vgaChg 1 te st b :=
  h.vga (l := [(1, true), (0, false)]) (by decide)

theorem OneHot.teacherNone (h : OneHot t v te st b) : OneHot t.teacherNone v 0 st b :=
  h.teacher (l := [(2, true), (3, false), (4, false)]) (by decide)

theorem OneHot.teacherOne (h : OneHot t v te st b) : OneHot t.teacherOne v 1 st b :=
  h.teacher (l := [(4, false), (3, true), (2, false)]) (by decide)

theorem OneHot.teacherMultiple (h : OneHot t v te st b) : OneHot t.teacherMultiple v 2 st b :=
  h.teacher (l := [(4, true), (3, false), (2, false)]) (by decide)

theorem OneHot.studentNone (h : OneHot t v te st b) : OneHot t.studentNone v te 0 b :=
  h.student (l := [(5, true), (6, false), (7, false)]) (by decide)

theorem OneHot.studentOne (h : OneHot t v te st b) : OneHot t.studentOne v te 1 b :=
  h.student (l := [(5, false), (6, true), (7, false)]) (by decide)

theorem OneHot.studentMultiple (h : OneHot t v te st b) : OneHot t.studentMultiple v te 2 b :=
  h.student (l := [(5, false), (6, false), (7, true)]) (by decide)

/-! ### The combination that holds, and the transition -/

/-- The combinations are the ways to choose a condition of each kind. -/
theorem OneHot.test_combination (h : OneHot t v te st b) (hk : k < 36) :
    t.conditionTest (condCombination k) = true ↔ k = v + 2 * te + 6 * st + 18 * b := by
  have hkind : ∀ e ∈ combinationElements k, t.conditionTest e = true ↔ e = v ∨ e = 2 + te ∨ e = 5 + st ∨ e = 8 + b :=
    fun e he => h.test e (combinationElements_lt hk e he)
  rw [h.conditions.test_combination hk, List.all_eq_true, forall₂_congr hkind]
  obtain ⟨-, hv, hte, hst, hb, -⟩ := h
  simp only [combinationElements, condVgaUnchg, condTeacherDetectedNone, condStudentStandNone, condBoardNotwrite,
    List.forall_mem_cons, List.not_mem_nil, false_implies, implies_true, and_true]
  omega

theorem OneHot.combination_lt (h : OneHot t v te st b) : v + 2 * te + 6 * st + 18 * b < 36 := by
  obtain ⟨-, hv, hte, hst, hb, -⟩ := h
  omega

theorem OneHot.existsUnique_combination (h : OneHot t v te st b) :
    ∃! k, k < 36 ∧ t.conditionTest (condCombination k) = true :=
  ⟨_, ⟨h.combination_lt, (h.test_combination h.combination_lt).mpr rfl⟩, fun _ hk => (h.test_combination hk.1).mp hk.2⟩

/-- The machine moves to `next`, or stays where it is when `next` is no transition. -/
def Fsm.goto (fsm : Fsm) (next : Int) : Int × Fsm :=
  if next = fsmNotransition then (fsmNotransition, fsm) else (next, { fsm with currentState := next })

/-- With entries for combinations only, the combination that holds decides, in whatever order the conditions are read. -/
theorem OneHot.scan {fsm : Fsm} {order : List Nat} (h : OneHot t v te st b) (hfsm : fsm.CombinationsOnly)
    (horder : order.Perm (List.range condMax)) (hk : k < 36) (htest : t.conditionTest (condCombination k) = true) :
    fsm.scan order t = fsm.goto (fsm.transitionTable.item (stateIndex fsm.currentState) (condCombination k)) := by
  unfold Fsm.scan Fsm.goto
  split
  · next i hfind =>
    have hi := List.find?_some hfind
    simp only [ne_eq, decide_not, Bool.and_eq_true, Bool.not_eq_eq_eq_not, Bool.not_true, decide_eq_false_iff_not] at hi
    -- The condition found is a combination that holds, hence the one that does.
    obtain ⟨j, hj, rfl⟩ := hfsm _ i hi.1
    obtain rfl : j = k := ((h.test_combination hj).mp hi.2).trans ((h.test_combination hk).mp htest).symm
    rw [if_neg hi.1]
  · next hfind =>
    have hmem : condCombination k ∈ order := horder.mem_iff.mpr (List.mem_range.mpr (Nat.add_lt_add_left hk 10))
    have hnone := List.find?_eq_none.mp hfind _ hmem
    have hentry : fsm.transitionTable.item (stateIndex fsm.currentState) (condCombination k) = fsmNotransition := by
      simpa [htest] using hnone
    rw [if_pos hentry]

end

/-! ### Runs of the thread -/

/-- What holds of the conditions and of the machine in every state of the thread. -/
structure Tracking.Sound (s : Tracking) : Prop where
  oneHot : ∃ v te st b, OneHot s.truthTable v te st b
  inRange : s.fsm.InRange

section
variable {fsm : Fsm} {s : Tracking} {ret : Int} {value : String}

theorem Fsm.InRange.goto (h : fsm.InRange) (st i : Nat) : (fsm.goto (fsm.transitionTable.item st i)).2.InRange := by
  have hentry := h.entry st i
  unfold Fsm.goto
  split
  · exact h
  · next hne =>
    refine ⟨h.initial, ⟨?_, hentry.2⟩, h.entry⟩
    unfold fsmNotransition at hentry hne
    exact show 0 ≤ fsm.transitionTable.item st i by omega

/-- The machine takes an entry of its table, or stays. -/
theorem Fsm.scan_cases (order : List Nat) (t : TruthTable) (fsm : Fsm) :
    fsm.scan order t = (fsmNotransition, fsm) ∨
      ∃ i, fsm.transitionTable.item (stateIndex fsm.currentState) i ≠ fsmNotransition ∧
        fsm.scan order t = fsm.goto (fsm.transitionTable.item (stateIndex fsm.currentState) i) := by
  unfold Fsm.scan
  split
  · next i hfind =>
    have hi := List.find?_some hfind
    simp only [ne_eq, decide_not, Bool.and_eq_true, Bool.not_eq_eq_eq_not, Bool.not_true, decide_eq_false_iff_not] at hi
    exact .inr ⟨i, hi.1, by rw [Fsm.goto, if_neg hi.1]⟩
  · exact .inl rfl

theorem Fsm.InRange.scan (h : fsm.InRange) (order : List Nat) (t : TruthTable) : (fsm.scan order t).2.InRange := by
  rcases fsm.scan_cases order t with hscan | ⟨i, -, hscan⟩
  · rw [hscan]
    exact h
  · rw [hscan]
    exact h.goto _ i

namespace Tracking

/-- `t` differs from `s` in what is on air only. -/
def KeepsState (s t : Tracking) : Prop := ∃ sent vmap, t = { s with sent, vmap }

theorem keepsState_refl : KeepsState s s := ⟨_, _, rfl⟩

theorem keepsState_full (captureId : Int) : KeepsState s (s.full captureId) := ⟨_, _, rfl⟩

theorem keepsState_inset (captureId function : Int) : KeepsState s (s.inset captureId function) := ⟨_, _, rfl⟩

theorem KeepsState.ite {c : Prop} {hc : Decidable c} {t u : Tracking} (ht : KeepsState s t) (hu : KeepsState s u) :
    KeepsState s (if c then t else u) := by
  split
  · exact ht
  · exact hu

theorem keepsState_startPicture (s : Tracking) (ret : Int) : KeepsState s (s.startPicture ret) := by
  unfold startPicture
  iterate 6 refine .ite (keepsState_full _) ?_
  exact keepsState_refl

theorem keepsState_enterPicture (s : Tracking) (ret : Int) : KeepsState s (s.enterPicture ret) := by
  unfold enterPicture
  iterate 6 refine .ite (keepsState_full _) ?_
  iterate 3 refine .ite (keepsState_inset _ _) ?_
  exact keepsState_refl

theorem keepsState_manualPicture (s : Tracking) (value : String) : KeepsState s (s.manualPicture value) := by
  unfold manualPicture
  iterate 6 refine .ite (keepsState_full _) ?_
  iterate 2 refine .ite (keepsState_inset _ _) ?_
  exact keepsState_refl

@[simp] theorem startPicture_truthTable : (s.startPicture ret).truthTable = s.truthTable := by
  obtain ⟨sent, vmap, h⟩ := keepsState_startPicture s ret
  rw [h]

@[simp] theorem startPicture_fsm : (s.startPicture ret).fsm = s.fsm := by
  obtain ⟨sent, vmap, h⟩ := keepsState_startPicture s ret
  rw [h]

@[simp] theorem enterPicture_truthTable : (s.enterPicture ret).truthTable = s.truthTable := by
  obtain ⟨sent, vmap, h⟩ := keepsState_enterPicture s ret
  rw [h]

@[simp] theorem enterPicture_fsm : (s.enterPicture ret).fsm = s.fsm := by
  obtain ⟨sent, vmap, h⟩ := keepsState_enterPicture s ret
  rw [h]

@[simp] theorem manualPicture_truthTable : (s.manualPicture value).truthTable = s.truthTable := by
  obtain ⟨sent, vmap, h⟩ := keepsState_manualPicture s value
  rw [h]

@[simp] theorem manualPicture_fsm : (s.manualPicture value).fsm = s.fsm := by
  obtain ⟨sent, vmap, h⟩ := keepsState_manualPicture s value
  rw [h]

end Tracking

theorem TruthTable.onVid_oneHot {t : TruthTable} (h : ∃ v te st b, OneHot t v te st b) (accOfLost : Nat)
    (needHiden isMultipleTeacher : Bool) :
    ∃ v te st b, OneHot (Tracking.onVid t accOfLost needHiden isMultipleTeacher) v te st b := by
  obtain ⟨v, te, st, b, h⟩ := h
  unfold Tracking.onVid
  split_ifs
  · exact ⟨v, 2, st, b, h.teacherMultiple⟩
  · exact ⟨v, 1, st, b, h.teacherOne⟩
  · exact ⟨v, 0, st, b, h.teacherNone⟩
  · exact ⟨v, 0, st, b, h.teacherNone⟩
  · exact ⟨v, te, st, b, h⟩

theorem Tracking.Sound.onAux (h : s.Sound) (studentInStanding : Int) : (s.onAux studentInStanding).Sound := by
  obtain ⟨⟨v, te, st, b, hone⟩, hrange⟩ := h
  unfold Tracking.onAux
  split_ifs
  · refine ⟨?_, hrange⟩
    dsimp only
    split
    · exact ⟨v, te, 0, b, hone.studentNone⟩
    · exact ⟨v, te, st, b, hone⟩
  · exact ⟨⟨v, te, 1, b, hone.studentOne⟩, hrange⟩
  · exact ⟨⟨v, te, 2, b, hone.studentMultiple⟩, hrange⟩

theorem Tracking.Sound.onVga (h : s.Sound) (changed : Int) : (s.onVga changed).Sound := by
  obtain ⟨⟨v, te, st, b, hone⟩, hrange⟩ := h
  unfold Tracking.onVga
  split_ifs
  · exact ⟨⟨1, te, st, b, hone.vgaChg⟩, hrange⟩
  · exact ⟨⟨0, te, st, b, hone.vgaUnchg⟩, hrange⟩
  · refine ⟨?_, hrange⟩
    dsimp only
    split
    · exact ⟨0, te, st, b, hone.vgaUnchg⟩
    · exact ⟨v, te, st, b, hone⟩

theorem Tracking.Sound.start (h : s.Sound) : (s.step .start).Sound := by
  obtain ⟨⟨v, te, st, b, hone⟩, hrange⟩ := h
  refine ⟨?_, ?_⟩
  · simp only [Tracking.step, startPicture_truthTable]
    exact ⟨0, 0, 0, 0, hone.conditions.restart⟩
  · simp only [Tracking.step, startPicture_fsm]
    exact ⟨hrange.initial, hrange.initial, hrange.entry⟩

theorem Tracking.Sound.pass (h : s.Sound) (interval : Int) : (s.step (.pass interval)).Sound := by
  simp only [Tracking.step]
  split
  · refine ⟨?_, ?_⟩
    · rw [enterPicture_truthTable]
      exact h.oneHot
    · rw [enterPicture_fsm]
      exact h.inRange.scan _ _
  · exact h

theorem Tracking.Sound.step (h : s.Sound) (a : TrackingAction) : (s.step a).Sound := by
  cases a with
  | start => exact h.start
  | stop => exact ⟨h.oneHot, h.inRange⟩
  | switchVideo value =>
    refine ⟨?_, ?_⟩
    · rw [Tracking.step, manualPicture_truthTable]
      exact h.oneHot
    · rw [Tracking.step, manualPicture_fsm]
      exact h.inRange
  | setRecordMode value => exact ⟨h.oneHot, h.inRange⟩
  | eventVid accOfLost needHiden isMultipleTeacher =>
    simp only [Tracking.step]
    split
    · exact h
    · exact ⟨onVid_oneHot h.oneHot accOfLost needHiden isMultipleTeacher, h.inRange⟩
  | eventAux studentInStanding =>
    simp only [Tracking.step]
    split
    · exact h
    · exact h.onAux studentInStanding
  | eventVga changed =>
    simp only [Tracking.step]
    split
    · exact h
    · exact h.onVga changed
  | pass interval => exact h.pass interval

theorem Tracking.Sound.run (h : s.Sound) (as : List TrackingAction) : (s.run as).Sound :=
  run_invariant (fun _ a h => h.step a) h as

/-- What a step does to the machine: nothing, the return to the initial state, or a transition. -/
theorem Tracking.step_fsm (s : Tracking) (a : TrackingAction) :
    (s.step a).fsm = s.fsm ∨ (s.step a).fsm = { s.fsm with currentState := s.fsm.initialState } ∨
      ∃ i, s.fsm.transitionTable.item (stateIndex s.fsm.currentState) i ≠ fsmNotransition ∧
        (s.step a).fsm = (s.fsm.goto (s.fsm.transitionTable.item (stateIndex s.fsm.currentState) i)).2 := by
  cases a with
  | start => exact .inr (.inl (by simp [Tracking.step]))
  | stop => exact .inl rfl
  | switchVideo value => exact .inl (by simp [Tracking.step])
  | setRecordMode value => exact .inl rfl
  | eventVid accOfLost needHiden isMultipleTeacher =>
    refine .inl ?_
    simp only [Tracking.step]
    split_ifs <;> rfl
  | eventAux studentInStanding =>
    refine .inl ?_
    simp only [Tracking.step, Tracking.onAux]
    split_ifs <;> rfl
  | eventVga changed =>
    refine .inl ?_
    simp only [Tracking.step, Tracking.onVga]
    split_ifs <;> rfl
  | pass interval =>
    simp only [Tracking.step]
    split
    · rw [enterPicture_fsm]
      rcases s.fsm.scan_cases (List.range condMax) s.truthTable with hscan | ⟨i, hi, hscan⟩
      · exact .inl (by simp [fsmStateUpdate, hscan])
      · exact .inr (.inr ⟨i, hi, by simp [fsmStateUpdate, hscan]⟩)
    · exact .inl rfl

/-- The thread keeps the table and the initial state that it has loaded. -/
theorem Tracking.step_policy (s : Tracking) (a : TrackingAction) :
    (s.step a).fsm.transitionTable = s.fsm.transitionTable ∧ (s.step a).fsm.initialState = s.fsm.initialState := by
  rcases s.step_fsm a with h | h | ⟨i, hi, h⟩
  · rw [h]
    exact ⟨rfl, rfl⟩
  · rw [h]
    exact ⟨rfl, rfl⟩
  · rw [h, Fsm.goto, if_neg hi]
    exact ⟨rfl, rfl⟩

theorem Tracking.run_policy (s : Tracking) (as : List TrackingAction) :
    (s.run as).fsm.transitionTable = s.fsm.transitionTable ∧ (s.run as).fsm.initialState = s.fsm.initialState := by
  refine run_invariant (I := fun t => t.fsm.transitionTable = s.fsm.transitionTable ∧ t.fsm.initialState = s.fsm.initialState)
    (fun t a h => ?_) ⟨rfl, rfl⟩ as
  exact ⟨(t.step_policy a).1.trans h.1, (t.step_policy a).2.trans h.2⟩

theorem Tracking.init_sound (h : fsm.InRange) (isAutoInstuct vgaDuration : Int) (vmap : List VideoMap) :
    (Tracking.init fsm isAutoInstuct vgaDuration vmap).Sound := by
  refine ⟨⟨0, 0, 0, 0, ?_⟩, h⟩
  simp only [Tracking.init]
  exact conditionTable_conditions.restart

/-- Of each kind of conditions exactly one holds, and exactly one combination. -/
structure OneCombination (t : TruthTable) : Prop where
  vga : ∃! i, i ∈ [condVgaUnchg, condVgaChg] ∧ t.conditionTest i = true
  teacher : ∃! i, i ∈ [condTeacherDetectedNone, condTeacherDetectedOne, condTeacherDetectedMultiple] ∧ t.conditionTest i = true
  student : ∃! i, i ∈ [condStudentStandNone, condStudentStandOne, condStudentStandMultiple] ∧ t.conditionTest i = true
  board : ∃! i, i ∈ [condBoardWrite, condBoardNotwrite] ∧ t.conditionTest i = true
  combination : ∃! k, k < 36 ∧ t.conditionTest (condCombination k) = true

theorem OneHot.oneCombination {t : TruthTable} {v te st b : Nat} (h : OneHot t v te st b) : OneCombination t := by
  have hkind : ∀ (l : List Nat) (j : Nat), t.conditionTest j = true → j ∈ l →
      (∀ i ∈ l, i < 10 ∧ (i = v ∨ i = 2 + te ∨ i = 5 + st ∨ i = 8 + b → i = j)) →
      ∃! i, i ∈ l ∧ t.conditionTest i = true :=
    fun l j htest hj hl => ⟨j, ⟨hj, htest⟩, fun i hi => (hl i hi.1).2 ((h.test i (hl i hi.1).1).mp hi.2)⟩
  have hv := h.v_lt
  have hte := h.te_lt
  have hst := h.st_lt
  have hb := h.b_lt
  refine ⟨hkind _ v ((h.test _ (by omega)).mpr (by omega)) ?_ ?_,
    hkind _ (2 + te) ((h.test _ (by omega)).mpr (by omega)) ?_ ?_,
    hkind _ (5 + st) ((h.test _ (by omega)).mpr (by omega)) ?_ ?_,
    hkind _ (8 + b) ((h.test _ (by omega)).mpr (by omega)) ?_ ?_,
    h.existsUnique_combination⟩ <;>
  simp only [condVgaUnchg, condVgaChg, condTeacherDetectedNone, condTeacherDetectedOne, condTeacherDetectedMultiple,
    condStudentStandNone, condStudentStandOne, condStudentStandMultiple, condBoardWrite, condBoardNotwrite,
    List.mem_cons, List.not_mem_nil, or_false, forall_eq_or_imp, forall_eq] <;>
  omega

/-- In every state of every run one combination holds, the entry of the loaded table for it decides the next state, and
    the current state is a state. -/
theorem Tracking.run_oneCombination {file : PolicyFile} (h : switchPolicyLoad file fsmInit = some (ret, fsm))
    (isAutoInstuct vgaDuration : Int) (vmap : List VideoMap) (as : List TrackingAction) :
    let s := (Tracking.init fsm isAutoInstuct vgaDuration vmap).run as
    OneCombination s.truthTable ∧
      (file ≠ .missing → ∀ k < 36, s.truthTable.conditionTest (condCombination k) = true →
        fsmStateUpdate s.truthTable s.fsm =
            s.fsm.goto (fsm.transitionTable.item (stateIndex s.fsm.currentState) (condCombination k)) ∧
          ∀ order, order.Perm (List.range condMax) → s.fsm.scan order s.truthTable = fsmStateUpdate s.truthTable s.fsm) ∧
      0 ≤ s.fsm.currentState ∧ s.fsm.currentState < fsmStateMax := by
  intro s
  have hsound : s.Sound := (Tracking.init_sound (switchPolicyLoad_inRange h) isAutoInstuct vgaDuration vmap).run as
  obtain ⟨v, te, st, b, hone⟩ := hsound.oneHot
  refine ⟨hone.oneCombination, fun hfile k hk htest => ?_, hsound.inRange.current⟩
  have htable : s.fsm.transitionTable = fsm.transitionTable := (Tracking.run_policy _ as).1
  have hcomb : s.fsm.CombinationsOnly := by
    unfold Fsm.CombinationsOnly
    rw [htable]
    exact switchPolicyLoad_combinationsOnly hfile h
  have hscan : ∀ order : List Nat, order.Perm (List.range condMax) → s.fsm.scan order s.truthTable =
      s.fsm.goto (s.fsm.transitionTable.item (stateIndex s.fsm.currentState) (condCombination k)) :=
    fun order horder => hone.scan hcomb horder hk htest
  rw [← htable]
  exact ⟨hscan _ (.refl _), fun order horder => (hscan order horder).trans (hscan _ (.refl _)).symm⟩

/-- After a change of the VGA picture the sample policy switches to it. -/
theorem Tracking.run_oneCombination_vgaChange :
    let s := (Tracking.init (sampleFsm "TeacherFull") 2 10 []).run [.start, .eventVga 1]
    OneCombination s.truthTable ∧ (fsmStateUpdate s.truthTable s.fsm).1 = fsmVgaPipTeacherCloseup := by
  have h := Tracking.run_oneCombination (switchPolicyLoad_sample "TeacherFull") 2 10 [] [.start, .eventVga 1]
  refine ⟨h.1, ?_⟩
  rw [(h.2.1 nofun 1 (by decide) (by decide +kernel)).1]
  decide +kernel

end

end Recbcsrv
