import Mathlib.Data.List.Induction
import Recbcsrv.Switch.Conditions

/-! The conditions for the VGA picture and for the students as functions of what has happened: the thread counts events, and
    what it has counted when a condition changes is what a look back over the events tells. -/

namespace Recbcsrv
open TruthTable

/-! ### A look back -/

section
variable {α : Type} {p q : α → Bool} {l : List α} {a : α}

/-- The actions after the last one with the property `p`, or all of them. -/
def since (p : α → Bool) (l : List α) : List α := (l.reverse.takeWhile fun a => !p a).reverse

def AnySince (p q : α → Bool) (l : List α) : Prop := ∃ a ∈ since p l, q a = true

def countSince (p q : α → Bool) (l : List α) : Nat := (since p l).countP q

theorem since_append : since p (l ++ [a]) = if p a then [] else since p l ++ [a] := by
  rw [since, List.reverse_append, List.reverse_singleton, List.singleton_append, List.takeWhile_cons]
  cases p a with
  | true => rfl
  | false => simp [since]

theorem anySince_append : AnySince p q (l ++ [a]) ↔ p a = false ∧ (AnySince p q l ∨ q a = true) := by
  rw [AnySince, since_append]
  cases p a with
  | true => simp
  | false => simp [AnySince, or_and_right, exists_or]

theorem countSince_append : countSince p q (l ++ [a]) =
    if p a then 0 else countSince p q l + if q a then 1 else 0 := by
  rw [countSince, since_append]
  cases p a with
  | true => rfl
  | false => simp [countSince, List.countP_append, List.countP_singleton]

theorem not_anySince_nil : ¬AnySince p q [] := fun ⟨_, ha, _⟩ => List.not_mem_nil ha

end

namespace TrackingAction

def isStart : TrackingAction → Bool
  | .start => true
  | _ => false

/-- An event of the VGA picture whose value has the property `p`. -/
def isVga (p : Int → Bool) : TrackingAction → Bool
  | .eventVga changed => p changed
  | _ => false

/-- An event of the students' camera whose value has the property `p`. -/
def isAux (p : Int → Bool) : TrackingAction → Bool
  | .eventAux studentInStanding => p studentInStanding
  | _ => false

end TrackingAction

/-- The picture has changed since the last start or end of a change. -/
def VgaBegun (as : List TrackingAction) : Prop :=
  AnySince (fun a => a.isStart || a.isVga (· = 2)) (·.isVga (· = 1)) as

/-- How many events of the VGA picture have come since the last one that said that it changed. -/
def vgaQuiet (as : List TrackingAction) : Nat := countSince (·.isVga (· = 1)) (·.isVga (· ≠ 1)) as

/-- The VGA picture has changed, and fewer than `d` other events have come since. -/
def VgaChanged (d : Int) (as : List TrackingAction) : Prop := VgaBegun as ∧ (vgaQuiet as : Int) < d

/-- A student has stood since the last start. -/
def StudentStood (as : List TrackingAction) : Prop := AnySince (·.isStart) (·.isAux (· ≠ 0)) as

/-- How many events without a standing student have come since the last one with. -/
def studentQuiet (as : List TrackingAction) : Nat := countSince (·.isAux (· ≠ 0)) (·.isAux (· = 0)) as

/-- No student has stood, or six events without one have come since. -/
def StudentSeated (as : List TrackingAction) : Prop := ¬StudentStood as ∨ 6 ≤ studentQuiet as

section
variable {a : TrackingAction}

theorem vgaChanged_append (d : Int) (as : List TrackingAction) (hstart : a.isStart = false) (hvga : ∀ p, a.isVga p = false) :
    (VgaChanged d (as ++ [a]) ↔ VgaChanged d as) ∧ vgaQuiet (as ++ [a]) = vgaQuiet as := by
  have hbegun : VgaBegun (as ++ [a]) ↔ VgaBegun as := by simp [VgaBegun, anySince_append, hstart, hvga]
  have hquiet : vgaQuiet (as ++ [a]) = vgaQuiet as := by simp [vgaQuiet, countSince_append, hvga]
  exact ⟨by rw [VgaChanged, hbegun, hquiet, VgaChanged], hquiet⟩

theorem studentSeated_append (as : List TrackingAction) (hstart : a.isStart = false) (haux : ∀ p, a.isAux p = false) :
    (StudentSeated (as ++ [a]) ↔ StudentSeated as) ∧ studentQuiet (as ++ [a]) = studentQuiet as := by
  have hstood : StudentStood (as ++ [a]) ↔ StudentStood as := by simp [StudentStood, anySince_append, hstart, haux]
  have hquiet : studentQuiet (as ++ [a]) = studentQuiet as := by simp [studentQuiet, countSince_append, haux]
  exact ⟨by rw [StudentSeated, hstood, hquiet, StudentSeated], hquiet⟩

end

namespace Tracking

/-- The state of the thread after the actions `as`, with the constant `VGADuration` `d`. -/
structure Debounced (d : Int) (as : List TrackingAction) (s : Tracking) : Prop where
  auto : s.isAutoInstuct ≠ 0
  duration : s.vgaDuration = d
  hot : ∃ v te st b, OneHot s.truthTable v te st b ∧ (v = 1 ↔ VgaChanged d as) ∧ (st = 0 ↔ StudentSeated as)
  accOfUnchange : VgaChanged d as → s.accOfUnchange = vgaQuiet as
  accStudentLost : ¬StudentSeated as → s.accStudentLost = studentQuiet as

section
variable {d : Int} {as : List TrackingAction} {a : TrackingAction} {s t : Tracking}

theorem Debounced.other (h : s.Debounced d as) (hstart : a.isStart = false) (hvga : ∀ p, a.isVga p = false)
    (haux : ∀ p, a.isAux p = false) (hauto : t.isAutoInstuct ≠ 0) (hd : t.vgaDuration = s.vgaDuration)
    (hot : ∀ v te st b, OneHot s.truthTable v te st b → ∃ te', OneHot t.truthTable v te' st b)
    (hunchange : t.accOfUnchange = s.accOfUnchange) (hlost : t.accStudentLost = s.accStudentLost) :
    t.Debounced d (as ++ [a]) := by
  obtain ⟨hchanged, hvquiet⟩ := vgaChanged_append d as hstart hvga
  obtain ⟨hseated, hsquiet⟩ := studentSeated_append as hstart haux
  obtain ⟨v, te, st, b, hone, hv, hst⟩ := h.hot
  obtain ⟨te', hone⟩ := hot v te st b hone
  refine ⟨hauto, hd.trans h.duration, ⟨v, te', st, b, hone, hv.trans hchanged.symm, hst.trans hseated.symm⟩, ?_, ?_⟩
  · rw [hchanged, hvquiet, hunchange]
    exact h.accOfUnchange
  · rw [hseated, hsquiet, hlost]
    exact h.accStudentLost

/-- What is on air has no part in it. -/
theorem Debounced.keepsState (h : s.Debounced d as) (hk : KeepsState s t) : t.Debounced d as := by
  obtain ⟨sent, vmap, rfl⟩ := hk
  exact ⟨h.auto, h.duration, h.hot, h.accOfUnchange, h.accStudentLost⟩

theorem Debounced.start (h : s.Debounced d as) : (s.step .start).Debounced d (as ++ [.start]) := by
  have hchanged : ¬VgaChanged d (as ++ [.start]) := fun hc => by
    simp [VgaBegun, anySince_append, TrackingAction.isStart, VgaChanged] at hc
  have hseated : StudentSeated (as ++ [.start]) := by
    refine Or.inl ?_
    simp [StudentStood, anySince_append, TrackingAction.isStart]
  obtain ⟨v, te, st, b, hone, -, -⟩ := h.hot
  have hrestart : OneHot s.truthTable.restart 0 0 0 0 := hone.conditions.restart
  have hnew : ({ s with
      accStudentLost := 0
      truthTable := s.truthTable.restart
      fsm := { s.fsm with currentState := s.fsm.initialState } } : Tracking).Debounced d (as ++ [.start]) := by
    refine ⟨h.auto, h.duration, ⟨0, 0, 0, 0, ?_, ?_, ?_⟩, fun hc => ?_, fun hs => ?_⟩
    · dsimp only
      exact hrestart
    · exact iff_of_false Nat.zero_ne_one hchanged
    · exact iff_of_true rfl hseated
    · exact (hchanged hc).elim
    · exact (hs hseated).elim
  rw [Tracking.step]
  exact hnew.keepsState (keepsState_startPicture _ _)

theorem Debounced.onAux (h : s.Debounced d as) (n : Int) : (s.onAux n).Debounced d (as ++ [.eventAux n]) := by
  obtain ⟨hchanged, hvquiet⟩ := vgaChanged_append d as (a := .eventAux n) rfl fun _ => rfl
  obtain ⟨v, te, st, b, hone, hv, hst⟩ := h.hot
  have hv' := hv.trans hchanged.symm
  have hacc : VgaChanged d (as ++ [.eventAux n]) → s.accOfUnchange = vgaQuiet (as ++ [.eventAux n]) := by
    rw [hchanged, hvquiet]
    exact h.accOfUnchange
  unfold Tracking.onAux
  by_cases hn : n = 0
  · subst hn
    rw [if_pos rfl]
    have hstood : StudentStood (as ++ [.eventAux 0]) ↔ StudentStood as := by
      simp [StudentStood, anySince_append, TrackingAction.isStart, TrackingAction.isAux]
    have hquiet : studentQuiet (as ++ [.eventAux 0]) = studentQuiet as + 1 := by
      simp [studentQuiet, countSince_append, TrackingAction.isAux]
    by_cases hs : StudentSeated as
    · have hs' : StudentSeated (as ++ [.eventAux 0]) := by
        rw [StudentSeated, hstood, hquiet]
        exact hs.imp_right Nat.le_succ_of_le
      obtain rfl := hst.mpr hs
      refine ⟨h.auto, h.duration, ?_, hacc, fun hn => absurd hs' hn⟩
      dsimp only
      split
      · exact ⟨v, te, 0, b, hone.studentNone, hv', iff_of_true rfl hs'⟩
      · exact ⟨v, te, 0, b, hone, hv', iff_of_true rfl hs'⟩
    · -- The counter is that of the events since a student stood.
      obtain ⟨hstand, hfew⟩ := not_or.mp hs
      have hcount := h.accStudentLost hs
      have hmod : (s.accStudentLost + 1) % 2 ^ 32 = studentQuiet as + 1 := by omega
      rw [hmod]
      refine ⟨h.auto, h.duration, ?_, hacc, fun _ => hquiet.symm⟩
      dsimp only
      split
      · next hsix =>
        have hs' : StudentSeated (as ++ [.eventAux 0]) := Or.inr (by rw [hquiet, hsix])
        exact ⟨v, te, 0, b, hone.studentNone, hv', iff_of_true rfl hs'⟩
      · next hsix =>
        have hs' : ¬StudentSeated (as ++ [.eventAux 0]) := by
          rw [StudentSeated, hstood, hquiet]
          rintro (hnot | hmany)
          · exact hstand hnot
          · omega
        exact ⟨v, te, st, b, hone, hv', iff_of_false (fun e => hs (hst.mp e)) hs'⟩
  · rw [if_neg hn]
    have hseated : ¬StudentSeated (as ++ [.eventAux n]) := by
      simp [StudentSeated, StudentStood, studentQuiet, anySince_append, countSince_append, TrackingAction.isStart,
        TrackingAction.isAux, hn]
    have hzero : studentQuiet (as ++ [.eventAux n]) = 0 := by simp [studentQuiet, countSince_append, TrackingAction.isAux, hn]
    split
    · exact ⟨h.auto, h.duration, ⟨v, te, 1, b, hone.studentOne, hv', iff_of_false Nat.one_ne_zero hseated⟩, hacc,
        fun _ => hzero.symm⟩
    · exact ⟨h.auto, h.duration, ⟨v, te, 2, b, hone.studentMultiple, hv', iff_of_false (Nat.succ_ne_zero 1) hseated⟩, hacc,
        fun _ => hzero.symm⟩

theorem Debounced.onVga (h : s.Debounced d as) (hd : 1 ≤ d) (hd' : d < 2 ^ 31) (changed : Int) :
    (s.onVga changed).Debounced d (as ++ [.eventVga changed]) := by
  obtain ⟨hseated, hsquiet⟩ := studentSeated_append as (a := .eventVga changed) rfl fun _ => rfl
  obtain ⟨v, te, st, b, hone, hv, hst⟩ := h.hot
  have hst' := hst.trans hseated.symm
  have hacc : ¬StudentSeated (as ++ [.eventVga changed]) → s.accStudentLost = studentQuiet (as ++ [.eventVga changed]) := by
    rw [hseated, hsquiet]
    exact h.accStudentLost
  have hduration : (s.vgaDuration % 2 ^ 32).toNat = d.toNat := by
    rw [h.duration]
    omega
  unfold Tracking.onVga
  by_cases hone' : changed = 1
  · subst hone'
    rw [if_pos rfl]
    have hzero : vgaQuiet (as ++ [.eventVga 1]) = 0 := by simp [vgaQuiet, countSince_append, TrackingAction.isVga]
    have hchanged : VgaChanged d (as ++ [.eventVga 1]) := by
      refine ⟨?_, by rw [hzero]; omega⟩
      simp [VgaBegun, anySince_append, TrackingAction.isStart, TrackingAction.isVga]
    exact ⟨h.auto, h.duration, ⟨1, te, st, b, hone.vgaChg, iff_of_true rfl hchanged, hst'⟩, fun _ => hzero.symm, hacc⟩
  by_cases htwo : changed = 2
  · subst htwo
    rw [if_neg hone', if_pos rfl]
    have hchanged : ¬VgaChanged d (as ++ [.eventVga 2]) := by
      simp [VgaChanged, VgaBegun, anySince_append, TrackingAction.isStart, TrackingAction.isVga]
    exact ⟨h.auto, h.duration, ⟨0, te, st, b, hone.vgaUnchg, iff_of_false Nat.zero_ne_one hchanged, hst'⟩,
      fun hc => absurd hc hchanged, hacc⟩
  rw [if_neg hone', if_neg htwo, hduration]
  have hbegun : VgaBegun (as ++ [.eventVga changed]) ↔ VgaBegun as := by
    simp [VgaBegun, anySince_append, TrackingAction.isStart, TrackingAction.isVga, hone', htwo]
  have hquiet : vgaQuiet (as ++ [.eventVga changed]) = vgaQuiet as + 1 := by
    simp [vgaQuiet, countSince_append, TrackingAction.isVga, hone']
  by_cases hc : VgaChanged d as
  · -- The counter is that of the events since the picture changed.
    have hcount := h.accOfUnchange hc
    have hlt := hc.2
    have hmod : (s.accOfUnchange + 1) % 2 ^ 32 = vgaQuiet as + 1 := by omega
    rw [hmod]
    refine ⟨h.auto, h.duration, ?_, fun _ => hquiet.symm, hacc⟩
    dsimp only
    split
    · next hlast =>
      have hc' : ¬VgaChanged d (as ++ [.eventVga changed]) := by
        rintro ⟨-, hlt'⟩
        rw [hquiet] at hlt'
        omega
      exact ⟨0, te, st, b, hone.vgaUnchg, iff_of_false Nat.zero_ne_one hc', hst'⟩
    · next hlast =>
      have hc' : VgaChanged d (as ++ [.eventVga changed]) := ⟨hbegun.mpr hc.1, by rw [hquiet]; omega⟩
      exact ⟨v, te, st, b, hone, iff_of_true (hv.mpr hc) hc', hst'⟩
  · have hc' : ¬VgaChanged d (as ++ [.eventVga changed]) := by
      rintro ⟨hb, hlt⟩
      rw [hquiet] at hlt
      exact hc ⟨hbegun.mp hb, by omega⟩
    refine ⟨h.auto, h.duration, ?_, fun hn => absurd hn hc', hacc⟩
    dsimp only
    split
    · exact ⟨0, te, st, b, hone.vgaUnchg, iff_of_false Nat.zero_ne_one hc', hst'⟩
    · exact ⟨v, te, st, b, hone, iff_of_false (fun e => hc (hv.mp e)) hc', hst'⟩

theorem recordMode_ne_zero {mode : Int} {value : String} (h : mode ≠ 0) (hvalue : value ≠ "Manual") :
    recordMode mode value ≠ 0 := by
  unfold recordMode
  rw [if_neg hvalue]
  split
  · decide
  · split
    · decide
    · exact h

theorem Debounced.step (h : s.Debounced d as) (hd : 1 ≤ d) (hd' : d < 2 ^ 31) (ha : a ≠ .setRecordMode "Manual") :
    (s.step a).Debounced d (as ++ [a]) := by
  have hsame : ∀ v te st b, OneHot s.truthTable v te st b → ∃ te', OneHot s.truthTable v te' st b :=
    fun v te st b hone => ⟨te, hone⟩
  cases a with
  | start => exact h.start
  | stop => exact h.other rfl (fun _ => rfl) (fun _ => rfl) h.auto rfl hsame rfl rfl
  | switchVideo value =>
    have hnew := h.other (a := .switchVideo value) rfl (fun _ => rfl) (fun _ => rfl) h.auto rfl hsame rfl rfl
    exact hnew.keepsState (keepsState_manualPicture s value)
  | setRecordMode value =>
    have hvalue : value ≠ "Manual" := fun e => ha (by rw [e])
    exact h.other rfl (fun _ => rfl) (fun _ => rfl) (recordMode_ne_zero h.auto hvalue) rfl hsame rfl rfl
  | eventVid accOfLost needHiden isMultipleTeacher =>
    rw [Tracking.step, if_neg h.auto]
    refine h.other rfl (fun _ => rfl) (fun _ => rfl) h.auto rfl (fun v te st b hone => ?_) rfl rfl
    dsimp only [onVid]
    split_ifs
    · exact ⟨2, hone.teacherMultiple⟩
    · exact ⟨1, hone.teacherOne⟩
    · exact ⟨0, hone.teacherNone⟩
    · exact ⟨0, hone.teacherNone⟩
    · exact ⟨te, hone⟩
  | eventAux n =>
    rw [Tracking.step, if_neg h.auto]
    exact h.onAux n
  | eventVga changed =>
    rw [Tracking.step, if_neg h.auto]
    exact h.onVga hd hd' changed
  | pass interval =>
    rw [Tracking.step]
    split
    · have hnew : ({ s with fsm := (fsmStateUpdate s.truthTable s.fsm).2 } : Tracking).Debounced d (as ++ [.pass interval]) :=
        h.other rfl (fun _ => rfl) (fun _ => rfl) h.auto rfl hsame rfl rfl
      exact hnew.keepsState (keepsState_enterPicture _ _)
    · exact h.other rfl (fun _ => rfl) (fun _ => rfl) h.auto rfl hsame rfl rfl

theorem debounced_init (fsm : Fsm) {isAutoInstuct : Int} (hauto : isAutoInstuct ≠ 0) (d : Int) (vmap : List VideoMap) :
    (Tracking.init fsm isAutoInstuct d vmap).Debounced d [] := by
  refine ⟨hauto, rfl, ⟨0, 0, 0, 0, ?_, ?_, ?_⟩, fun hc => ?_, fun hs => ?_⟩
  · dsimp only [Tracking.init]
    exact conditionTable_conditions.restart
  · exact iff_of_false Nat.zero_ne_one fun hc => not_anySince_nil hc.1
  · exact iff_of_true rfl (Or.inl not_anySince_nil)
  · exact absurd hc.1 not_anySince_nil
  · exact absurd (Or.inl not_anySince_nil) hs

/-- In every run in which the thread is not put into manual mode, the condition of a changed picture and that of no standing
    student are what the events since tell. -/
theorem run_debounced (fsm : Fsm) (isAutoInstuct d : Int) (vmap : List VideoMap) (as : List TrackingAction)
    (hauto : isAutoInstuct ≠ 0) (hd : 1 ≤ d) (hd' : d < 2 ^ 31) (hmode : ∀ a ∈ as, a ≠ .setRecordMode "Manual") :
    (((Tracking.init fsm isAutoInstuct d vmap).run as).truthTable.conditionTest condVgaChg = true ↔ VgaChanged d as) ∧
    (((Tracking.init fsm isAutoInstuct d vmap).run as).truthTable.conditionTest condStudentStandNone = true ↔
      StudentSeated as) := by
  have h : ((Tracking.init fsm isAutoInstuct d vmap).run as).Debounced d as := by
    induction as using List.reverseRecOn with
    | nil => exact debounced_init fsm hauto d vmap
    | append_singleton as a ih =>
      have hlast : (Tracking.init fsm isAutoInstuct d vmap).run (as ++ [a]) =
          ((Tracking.init fsm isAutoInstuct d vmap).run as).step a := by rw [run, List.foldl_append]; rfl
      rw [hlast]
      exact (ih fun b hb => hmode b (List.mem_append_left _ hb)).step hd hd'
        (hmode a (List.mem_append_right _ (List.mem_singleton_self a)))
  obtain ⟨v, te, st, b, hone, hv, hst⟩ := h.hot
  have hte := hone.te_lt
  have hb := hone.b_lt
  have hvlt := hone.v_lt
  constructor
  · rw [← hv, hone.test condVgaChg (by decide)]
    unfold condVgaChg
    omega
  · rw [← hst, hone.test condStudentStandNone (by decide)]
    unfold condStudentStandNone
    omega

/-- A picture has changed and two of three events have come since; a student has stood up and six events have come since. -/
theorem run_debounced_sample :
    let as := [TrackingAction.start, .eventVga 1, .eventAux 1, .eventVga 0, .eventAux 0, .eventAux 0, .eventAux 0, .eventAux 0,
      .eventVga 0, .eventAux 0, .eventAux 0]
    VgaChanged 3 as ∧ StudentSeated as := by
  intro as
  have h := run_debounced fsmInit 1 3 [] as (by decide) (by decide) (by decide) (by simp [as])
  rw [← h.1, ← h.2]
  decide +kernel

end
end Tracking
end Recbcsrv
