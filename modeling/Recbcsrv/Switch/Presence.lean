import Recbcsrv.Lib.History
import Recbcsrv.Switch.Debounce
import Recbcsrv.Switch.Pan

/-! Whether the teacher is there. The thread counts the events without a teacher, those in which nothing moved and those in which
    something moved before the screen; what the conditions say is what a look back over the events since the last start tells. -/

namespace Recbcsrv

/-! ### Sightings -/

/-- What an event shows: no teacher, one who is not before the screen, or one who may be the screen's picture, and moves or not. -/
inductive Sight where
  | none
  | outside
  | moving
  | still
  deriving DecidableEq, Repr

/-- The sight of a detection, and the detection that is tracked. -/
def DetectResult.sight (hasScreen : Bool) (inScreen : Int → Bool) (d : DetectResult) : Sight × DetectResult :=
  if d.detected = 0 then (.none, d)
  else if hasScreen then
    let (isIn, d) := d.inScreenTest inScreen
    (if isIn then if d.detected ≥ 2 then .moving else .still else .outside, d)
  else (.outside, d)

/-- How many events in a row were without a teacher. -/
def misses (l : List Sight) : Nat := countSince (· ≠ .none) (· = .none) l

/-- How many events in a row showed nothing that moves and no teacher beside the screen. -/
def quiet (l : List Sight) : Nat := countSince (fun x => x = .outside ∨ x = .moving) (fun x => x = .none ∨ x = .still) l

/-- How many events have shown something moving since the teacher was beside the screen or stood still before it. -/
def motions (l : List Sight) : Nat := countSince (fun x => x = .outside ∨ x = .still) (· = .moving) l

/-- The teacher gets lost: a recording starts, the third event in a row is without him, or nothing has moved for 90 events. -/
def Loses (hasScreen : Bool) (l : List Sight) : Prop := l = [] ∨ 3 ≤ misses l ∨ hasScreen = true ∧ 90 ≤ quiet l

/-- The teacher is found: he is beside the screen, or something moves and has moved before. -/
def Finds (l : List Sight) : Prop := l.getLast? = some .outside ∨ l.getLast? = some .moving ∧ 2 ≤ motions l

/-- The teacher is lost. -/
def Lost (hasScreen : Bool) (l : List Sight) : Prop := Lasts (Loses hasScreen) Finds l

/-! ### The thread -/

/-- The part of the thread that follows the teacher and the one that switches, with the events that the former has handled since
    the last start, and the detections that it tracked. -/
structure Director where
  tracker : TeacherTracker
  tracking : Tracking
  seen : List (Sight × DetectResult)

/-- An event with a detection, which is handled when the teacher's camera is initialised and no command to it is pending, or another
    action. -/
inductive DirectorAct (Angle : Type) where
  | vid (free : Bool) (o : PanOptics Angle) (l : PanLimits) (pan : Int) (d : DetectResult)
  | start
  | other (a : TrackingAction) (plain : ∀ acc h m, a ≠ .eventVid acc h m) (noStart : a ≠ .start)

namespace Director
variable {Angle : Type} (hasScreen : Bool)

def init (fsm : Fsm) (isAutoInstuct vgaDuration : Int) (vmap : List VideoMap) : Director :=
  ⟨.init, .init fsm isAutoInstuct vgaDuration vmap, []⟩

/-- The tracking code is left out in manual mode. -/
def follow (o : PanOptics Angle) (l : PanLimits) (pan : Int) (d : DetectResult) (s : Director) : Director :=
  { s with
    tracker := (s.tracker.eventVid o hasScreen l pan d).1
    seen := s.seen ++ [d.sight hasScreen o.inScreen] }

def step (s : Director) : DirectorAct Angle → Director
  | .vid free o l pan d =>
    let s := if s.tracking.isAutoInstuct ≠ 0 ∧ free then s.follow hasScreen o l pan d else s
    { s with tracking := s.tracking.step (.eventVid s.tracker.accOfLost s.tracker.needHiden s.tracker.isMultipleTeacher) }
  | .start => ⟨s.tracker.start, s.tracking.step .start, []⟩
  | .other a _ _ => { s with tracking := s.tracking.step a }

def run (s : Director) (as : List (DirectorAct Angle)) : Director := as.foldl (step hasScreen) s

end Director

/-! ### The counters -/

/-- What the sight makes of the counters. -/
def TeacherTracker.count (hasScreen : Bool) (t : TeacherTracker) : Sight → TeacherTracker
  | .none =>
    if hasScreen then
      { t with
        stillInScreen := unsignedSucc t.stillInScreen
        accOfLost :=
          if unsignedSucc t.stillInScreen = 90 ∧ unsignedSucc t.accOfLost < 3 then 3 else unsignedSucc t.accOfLost }
    else { t with accOfLost := unsignedSucc t.accOfLost }
  | .outside => if hasScreen then { t with accOfLost := 0, stillInScreen := 0, motionInScreen := 0 } else { t with accOfLost := 0 }
  | .moving =>
    { t with
      motionInScreen := unsignedSucc t.motionInScreen
      stillInScreen := 0
      accOfLost := if t.accOfLost < 3 ∨ unsignedSucc t.motionInScreen ≥ 2 then 0 else unsignedSucc t.accOfLost }
  | .still =>
    { t with
      stillInScreen := unsignedSucc t.stillInScreen
      motionInScreen := 0
      accOfLost :=
        if t.accOfLost < 3 then if unsignedSucc t.stillInScreen < 90 then 0 else 3 else unsignedSucc t.accOfLost }

section
variable {hasScreen : Bool} {l : List Sight} {x : Sight} {t : TeacherTracker} {d : DetectResult} {inScreen : Int → Bool}

theorem inScreenTest_detected (inScreen : Int → Bool) (d : DetectResult) : (d.inScreenTest inScreen).2.detected = d.detected := by
  have hleft : d.leftBox.detected = d.detected := by rw [DetectResult.leftBox]
  have hright : d.rightBox.detected = d.detected := by rw [DetectResult.rightBox]
  have hset : ∀ r : DetectResult, r.detected = d.detected → ({ r with maxLeft := d.maxRight } : DetectResult).detected = d.detected :=
    fun _ h => h
  unfold DetectResult.inScreenTest
  dsimp only
  split
  · split_ifs
    · exact hleft
    · exact hright
    · rfl
  · exact hleft
  · exact hset _ hright
  · rfl

theorem captureOrLost_eq (t : TeacherTracker) (inScreen : Int → Bool) (d : DetectResult) :
    t.captureOrLost inScreen hasScreen d = (t.count hasScreen (d.sight hasScreen inScreen).1, (d.sight hasScreen inScreen).2) := by
  unfold TeacherTracker.captureOrLost DetectResult.sight
  by_cases hd : d.detected = 0
  · rw [if_neg (not_not.mpr hd), if_pos hd]
    cases hasScreen <;> rfl
  rw [if_pos hd, if_neg hd]
  cases hasScreen with
  | false => rfl
  | true =>
    rw [if_pos rfl, if_pos rfl]
    generalize d.inScreenTest inScreen = r
    obtain ⟨isIn, d⟩ := r
    dsimp only
    cases isIn with
    | false => rfl
    | true =>
      rw [if_pos rfl, if_pos rfl]
      split <;> rfl

theorem sight_none : (d.sight hasScreen inScreen).1 = .none ↔ d.detected = 0 := by
  unfold DetectResult.sight
  by_cases hd : d.detected = 0
  · rw [if_pos hd]
    exact iff_of_true rfl hd
  · rw [if_neg hd]
    refine iff_of_false ?_ hd
    cases hasScreen with
    | false => exact Sight.noConfusion
    | true =>
      dsimp only
      rw [if_pos rfl]
      dsimp only
      split
      · split <;> exact Sight.noConfusion
      · exact Sight.noConfusion

theorem sight_detected : (d.sight hasScreen inScreen).2.detected = d.detected := by
  unfold DetectResult.sight
  split
  · rfl
  · split
    · exact inScreenTest_detected ..
    · rfl

/-- Without a screen the teacher is nowhere before it. -/
theorem sight_noScreen : (d.sight false inScreen).1 = .none ∨ (d.sight false inScreen).1 = .outside := by
  unfold DetectResult.sight
  split
  · exact Or.inl rfl
  · exact Or.inr rfl

theorem countSince_le {α : Type} (p q : α → Bool) (l : List α) : countSince p q l ≤ l.length := by
  have hsince : (since p l).length ≤ l.reverse.length := by
    rw [since, List.length_reverse]
    exact (List.takeWhile_prefix _).length_le
  rw [List.length_reverse] at hsince
  exact Nat.le_trans List.countP_le_length hsince

theorem misses_append : misses (l ++ [x]) = if x = .none then misses l + 1 else 0 := by
  cases x <;> simp [misses, countSince_append]

theorem quiet_append : quiet (l ++ [x]) = if x = .outside ∨ x = .moving then 0 else quiet l + 1 := by
  cases x <;> simp [quiet, countSince_append]

theorem motions_append : motions (l ++ [x]) =
    if x = .outside ∨ x = .still then 0 else if x = .moving then motions l + 1 else motions l := by
  cases x <;> simp [motions, countSince_append]

theorem Lost.nil : Lost hasScreen [] := lasts_nil.mpr (Or.inl rfl)

theorem not_loses (h : ¬Lost hasScreen l) : misses l < 3 ∧ (hasScreen = true → quiet l < 90) := by
  have hno : ¬Loses hasScreen l := fun hl => h (lasts_of_begins hl)
  unfold Loses at hno
  push Not at hno
  exact hno.2

theorem lost_append : Lost hasScreen (l ++ [x]) ↔
    (3 ≤ misses (l ++ [x]) ∨ hasScreen = true ∧ 90 ≤ quiet (l ++ [x])) ∨
      Lost hasScreen l ∧ ¬(x = .outside ∨ x = .moving ∧ 2 ≤ motions (l ++ [x])) := by
  have hends : Finds (l ++ [x]) ↔ x = .outside ∨ x = .moving ∧ 2 ≤ motions (l ++ [x]) := by
    simp [Finds]
  unfold Lost
  rw [lasts_append, hends]
  simp [Loses]

/-- The counters are those of the events since the start, as far as they matter. -/
structure Counts (hasScreen : Bool) (t : TeacherTracker) (l : List Sight) : Prop where
  lost : Lost hasScreen l → 3 ≤ t.accOfLost ∧ t.accOfLost ≤ 3 + l.length
  found : ¬Lost hasScreen l → t.accOfLost = misses l
  screen : hasScreen = true → t.stillInScreen = quiet l ∧ t.motionInScreen = motions l

theorem Counts.start (t : TeacherTracker) : Counts hasScreen t.start [] :=
  ⟨fun _ => ⟨Nat.le_refl 3, Nat.le_refl 3⟩, fun h => absurd Lost.nil h, fun _ => ⟨rfl, rfl⟩⟩

/-- While the teacher is there, an event without him counts the misses on. -/
theorem lost_none : Lost hasScreen (l ++ [.none]) ↔
    Lost hasScreen l ∨ 3 ≤ misses l + 1 ∨ hasScreen = true ∧ 90 ≤ quiet l + 1 := by
  rw [lost_append, misses_append, quiet_append]
  simp [or_comm]

theorem not_lost_outside : ¬Lost hasScreen (l ++ [.outside]) := by
  rw [lost_append, misses_append, quiet_append]
  simp

theorem lost_moving : Lost hasScreen (l ++ [.moving]) ↔ Lost hasScreen l ∧ motions l + 1 < 2 := by
  rw [lost_append, misses_append, quiet_append, motions_append]
  simp

theorem lost_still : Lost hasScreen (l ++ [.still]) ↔ Lost hasScreen l ∨ hasScreen = true ∧ 90 ≤ quiet l + 1 := by
  rw [lost_append, misses_append, quiet_append]
  simp [or_comm]

theorem Counts.count (h : Counts hasScreen t l) (hl : l.length + 4 < 2 ^ 32)
    (hx : hasScreen = false → x = .none ∨ x = .outside) : Counts hasScreen (t.count hasScreen x) (l ++ [x]) := by
  have hmisses : misses l ≤ l.length := countSince_le ..
  have hquiet : quiet l ≤ l.length := countSince_le ..
  have hmotions : motions l ≤ l.length := countSince_le ..
  have hacc : unsignedSucc t.accOfLost = t.accOfLost + 1 := by
    by_cases hlost : Lost hasScreen l
    · have := h.lost hlost
      unfold unsignedSucc
      omega
    · have := h.found hlost
      unfold unsignedSucc
      omega
  have hlength : (l ++ [x]).length = l.length + 1 := by simp
  have hhere : ¬Lost hasScreen l → _ := not_loses
  obtain ⟨hlost, hfound, hscreen⟩ := h
  cases hasScreen with
  | false =>
    refine ⟨fun hnew => ?_, fun hnew => ?_, nofun⟩
    all_goals rcases hx rfl with rfl | rfl
    · rw [lost_none] at hnew
      simp only [TeacherTracker.count, Bool.false_eq_true, if_false, hacc, hlength]
      by_cases hl : Lost false l <;> simp_all <;> omega
    · exact absurd hnew not_lost_outside
    · rw [lost_none] at hnew
      simp only [TeacherTracker.count, Bool.false_eq_true, if_false, hacc, misses_append]
      by_cases hl : Lost false l <;> simp_all
    · simp [TeacherTracker.count, misses_append]
  | true =>
    obtain ⟨hstill, hmotion⟩ := hscreen rfl
    have hstill' : unsignedSucc t.stillInScreen = quiet l + 1 := by
      unfold unsignedSucc
      omega
    have hmotion' : unsignedSucc t.motionInScreen = motions l + 1 := by
      unfold unsignedSucc
      omega
    cases x with
    | none =>
      simp only [TeacherTracker.count, if_true, hstill', hacc]
      refine ⟨fun hnew => ?_, fun hnew => ?_, fun _ => ⟨?_, ?_⟩⟩
      · rw [lost_none] at hnew
        by_cases hl : Lost true l
        · have := hlost hl
          dsimp only
          split_ifs <;> omega
        · have := hfound hl
          have := (hhere hl).2 rfl
          simp only [hl, true_and, false_or] at hnew
          dsimp only
          split_ifs <;> omega
      · rw [lost_none] at hnew
        simp only [not_or, true_and, not_le] at hnew
        have := hfound hnew.1
        rw [misses_append, if_pos rfl]
        dsimp only
        split_ifs <;> omega
      · rw [quiet_append]
        simp
      · rw [motions_append, hmotion]
        simp
    | outside =>
      refine ⟨fun hnew => absurd hnew not_lost_outside, fun _ => ?_, fun _ => ⟨?_, ?_⟩⟩
      · rw [misses_append]
        rfl
      · rw [quiet_append]
        rfl
      · rw [motions_append]
        rfl
    | moving =>
      simp only [TeacherTracker.count, hmotion', hacc]
      refine ⟨fun hnew => ?_, fun hnew => ?_, fun _ => ⟨?_, ?_⟩⟩
      · rw [lost_moving] at hnew
        have := hlost hnew.1
        dsimp only
        split_ifs <;> omega
      · rw [lost_moving] at hnew
        rw [misses_append]
        by_cases hl : Lost true l
        · simp only [hl, true_and, not_lt] at hnew
          rw [if_pos (Or.inr hnew), if_neg nofun]
        · have := hfound hl
          have := (hhere hl).1
          rw [if_pos (Or.inl (by omega)), if_neg nofun]
      · rw [quiet_append]
        rfl
      · rw [motions_append]
        rfl
    | still =>
      simp only [TeacherTracker.count, hstill', hacc]
      refine ⟨fun hnew => ?_, fun hnew => ?_, fun _ => ⟨?_, ?_⟩⟩
      · rw [lost_still] at hnew
        by_cases hl : Lost true l
        · have := hlost hl
          dsimp only
          split_ifs <;> omega
        · have := hfound hl
          have := (hhere hl).1
          simp only [hl, true_and, false_or] at hnew
          dsimp only
          split_ifs <;> omega
      · rw [lost_still] at hnew
        simp only [not_or, true_and, not_le] at hnew
        have := hfound hnew.1
        have := (hhere hnew.1).1
        rw [misses_append, if_pos (show t.accOfLost < 3 by omega), if_pos hnew.2, if_neg nofun]
      · rw [quiet_append]
        rfl
      · rw [motions_append]
        rfl

end

/-! ### An event -/

section
variable {Angle : Type} {hasScreen : Bool} {o : PanOptics Angle} {l : PanLimits} {pan : Int} {d : DetectResult} {t u : TeacherTracker}

/-- Two trackers with the same counters of the teacher. -/
structure SameCounts (t u : TeacherTracker) : Prop where
  accOfLost : u.accOfLost = t.accOfLost
  stillInScreen : u.stillInScreen = t.stillInScreen
  motionInScreen : u.motionInScreen = t.motionInScreen

theorem SameCounts.counts {l : List Sight} (h : SameCounts t u) (ht : Counts hasScreen t l) : Counts hasScreen u l := by
  obtain ⟨hacc, hstill, hmotion⟩ := h
  exact ⟨fun hl => hacc ▸ ht.lost hl, fun hl => hacc.trans (ht.found hl),
    fun hs => ⟨hstill.trans (ht.screen hs).1, hmotion.trans (ht.screen hs).2⟩⟩

theorem tracking_keeps (o : PanOptics Angle) (l : PanLimits) (pan offset : Int) (t : TeacherTracker) :
    SameCounts t (t.tracking o l pan offset).1 ∧ (t.tracking o l pan offset).1.isMultipleTeacher = t.isMultipleTeacher := by
  have hside : SameCounts t (t.countSide offset).1 ∧ (t.countSide offset).1.isMultipleTeacher = t.isMultipleTeacher := by
    unfold TeacherTracker.countSide
    dsimp only
    split_ifs <;> exact ⟨⟨rfl, rfl, rfl⟩, rfl⟩
  unfold TeacherTracker.tracking
  generalize t.countSide offset = r at hside ⊢
  dsimp only
  split
  · exact ⟨⟨hside.1.1, hside.1.2, hside.1.3⟩, hside.2⟩
  · exact ⟨⟨hside.1.1, hside.1.2, hside.1.3⟩, hside.2⟩

theorem scanLost_keeps (o : PanOptics Angle) (l : PanLimits) (pan : Int) (t : TeacherTracker) : SameCounts t (t.scanLost o l pan).1 ∧
    (t.scanLost o l pan).1.isMultipleTeacher = t.isMultipleTeacher ∧ (t.scanLost o l pan).1.needHiden = t.needHiden := by
  unfold TeacherTracker.scanLost
  split
  · exact ⟨⟨rfl, rfl, rfl⟩, rfl, rfl⟩
  · exact ⟨⟨rfl, rfl, rfl⟩, rfl, rfl⟩

/-- What an event makes of the tracker: the counters are those of the sight, and the other variables are set by a teacher who is
    there and left alone otherwise. -/
structure Attended (hasScreen : Bool) (o : PanOptics Angle) (d : DetectResult) (t u : TeacherTracker) : Prop where
  counts : SameCounts (t.count hasScreen (d.sight hasScreen o.inScreen).1) u
  seen : d.detected ≠ 0 → u.accOfLost = 0 → u.isMultipleTeacher = decide ((d.sight hasScreen o.inScreen).2.width ≥ 128)
  unseen : d.detected = 0 → u.isMultipleTeacher = t.isMultipleTeacher ∧ u.needHiden = t.needHiden

theorem count_keeps (hasScreen : Bool) (t : TeacherTracker) (x : Sight) : (t.count hasScreen x).isMultipleTeacher = t.isMultipleTeacher ∧
    (t.count hasScreen x).needHiden = t.needHiden := by
  cases x with
  | none | outside => cases hasScreen <;> exact ⟨rfl, rfl⟩
  | moving | still => exact ⟨rfl, rfl⟩

theorem trackFound_attended (o : PanOptics Angle) (l : PanLimits) (pan : Int) (d : DetectResult) (t : TeacherTracker) :
    SameCounts t (t.trackFound o l pan d).1 ∧
    (d.detected ≠ 0 → t.accOfLost = 0 → (t.trackFound o l pan d).1.isMultipleTeacher = decide (d.width ≥ 128)) ∧
    (d.detected = 0 → (t.trackFound o l pan d).1 = t) := by
  unfold TeacherTracker.trackFound
  split
  · next h =>
    obtain ⟨hsame, hmultiple⟩ := tracking_keeps o l pan d.offset { t with isMultipleTeacher := decide (d.width ≥ 128) }
    exact ⟨⟨hsame.1, hsame.2, hsame.3⟩, fun _ _ => hmultiple, fun hd => absurd hd h.1⟩
  · next h => exact ⟨⟨rfl, rfl, rfl⟩, fun hd hacc => absurd ⟨hd, hacc⟩ h, fun _ => rfl⟩

theorem eventVid_attended (t : TeacherTracker) : Attended hasScreen o d t (t.eventVid o hasScreen l pan d).1 := by
  unfold TeacherTracker.eventVid
  rw [captureOrLost_eq]
  dsimp only
  generalize hx : d.sight hasScreen o.inScreen = x
  have hdetected : x.2.detected = d.detected := hx ▸ sight_detected
  obtain ⟨hfound, hseen, hunseen⟩ := trackFound_attended o l pan x.2 (t.count hasScreen x.1)
  obtain ⟨hscan, hmultiple, hhiden⟩ := scanLost_keeps o l pan ((t.count hasScreen x.1).trackFound o l pan x.2).1
  obtain ⟨hkept, hkept'⟩ := count_keeps hasScreen t x.1
  rw [hdetected] at hseen hunseen
  refine ⟨⟨?_, ?_, ?_⟩, fun hd hacc => ?_, fun hd => ⟨?_, ?_⟩⟩
  · rw [hx, hscan.accOfLost, hfound.accOfLost]
  · rw [hx, hscan.stillInScreen, hfound.stillInScreen]
  · rw [hx, hscan.motionInScreen, hfound.motionInScreen]
  · rw [hx, hmultiple]
    rw [hscan.accOfLost, hfound.accOfLost] at hacc
    exact hseen hd hacc
  · rw [hmultiple, hunseen hd, hkept]
  · rw [hhiden, hunseen hd, hkept']

end

/-! ### The conditions -/

/-- The detection of the last event that showed a teacher. -/
def lastSeen (seen : List (Sight × DetectResult)) : Option DetectResult :=
  (seen.filter (·.1 ≠ .none)).getLast?.map Prod.snd

/-- The condition for the teacher: none, one or multiple. -/
def TeacherTracker.kind (t : TeacherTracker) : Nat := if t.needHiden then 0 else if t.isMultipleTeacher then 2 else 1

section
variable {Angle : Type} {hasScreen : Bool} {s : Director}

/-- The tracker and the conditions are those of the events since the last start. -/
structure Director.Attends (hasScreen : Bool) (s : Director) : Prop where
  counts : Counts hasScreen s.tracker (s.seen.map Prod.fst)
  multiple : ¬Lost hasScreen (s.seen.map Prod.fst) →
    ∃ d, lastSeen s.seen = some d ∧ s.tracker.isMultipleTeacher = decide (d.width ≥ 128)
  hot : ∃ v te st b, OneHot s.tracking.truthTable v te st b ∧ (Lost hasScreen (s.seen.map Prod.fst) → te = 0) ∧
    (¬Lost hasScreen (s.seen.map Prod.fst) → te = s.tracker.kind)

theorem lastSeen_append (seen : List (Sight × DetectResult)) (x : Sight × DetectResult) :
    lastSeen (seen ++ [x]) = if x.1 = .none then lastSeen seen else some x.2 := by
  unfold lastSeen
  by_cases hx : x.1 = .none
  · simp [hx]
  · simp [hx]

theorem Tracking.step_oneHot {t : Tracking} {a : TrackingAction} {v te st b : Nat} (h : OneHot t.truthTable v te st b)
    (ha : ∀ acc h m, a ≠ .eventVid acc h m) (hstart : a ≠ .start) : ∃ v st, OneHot (t.step a).truthTable v te st b := by
  cases a with
  | start => exact absurd rfl hstart
  | eventVid acc h m => exact absurd rfl (ha acc h m)
  | stop => exact ⟨v, st, h⟩
  | setRecordMode value => exact ⟨v, st, h⟩
  | switchVideo value =>
    refine ⟨v, st, ?_⟩
    rw [Tracking.step, manualPicture_truthTable]
    exact h
  | eventAux n =>
    rw [Tracking.step]
    split
    · exact ⟨v, st, h⟩
    · unfold Tracking.onAux
      split
      · dsimp only
        split
        · exact ⟨v, 0, h.studentNone⟩
        · exact ⟨v, st, h⟩
      · split
        · exact ⟨v, 1, h.studentOne⟩
        · exact ⟨v, 2, h.studentMultiple⟩
  | eventVga changed =>
    rw [Tracking.step]
    split
    · exact ⟨v, st, h⟩
    · unfold Tracking.onVga
      split
      · exact ⟨1, st, h.vgaChg⟩
      · split
        · exact ⟨0, st, h.vgaUnchg⟩
        · dsimp only
          split
          · exact ⟨0, st, h.vgaUnchg⟩
          · exact ⟨v, st, h⟩
  | pass interval =>
    rw [Tracking.step]
    split
    · dsimp only
      rw [enterPicture_truthTable]
      exact ⟨v, st, h⟩
    · exact ⟨v, st, h⟩

/-- What an event makes of the conditions, when the teacher was lost or not and now is or is not. -/
theorem onVid_oneHot {t : TruthTable} {v te st b : Nat} {lost : Prop} {u : TeacherTracker} (lost' : Prop) (w : TeacherTracker)
    (h : OneHot t v te st b) (hte : ¬lost → te = u.kind) (hlost : lost' → 3 ≤ w.accOfLost)
    (hfound : ¬lost' → w.accOfLost = 0 ∨ (0 < w.accOfLost ∧ w.accOfLost < 3) ∧ ¬lost ∧ u.kind = w.kind) :
    ∃ te, OneHot (Tracking.onVid t w.accOfLost w.needHiden w.isMultipleTeacher) v te st b ∧ (lost' → te = 0) ∧
      (¬lost' → te = w.kind) := by
  unfold Tracking.onVid
  by_cases hl : lost'
  · have hacc := hlost hl
    rw [if_neg (by omega), if_pos hacc]
    exact ⟨0, h.teacherNone, fun _ => rfl, fun hno => absurd hl hno⟩
  rcases hfound hl with hacc | ⟨⟨hpos, hfew⟩, hold, hkind⟩
  · rw [if_pos hacc]
    unfold TeacherTracker.kind
    cases w.needHiden <;> cases w.isMultipleTeacher
    · exact ⟨1, h.teacherOne, fun hyes => absurd hyes hl, fun _ => rfl⟩
    · exact ⟨2, h.teacherMultiple, fun hyes => absurd hyes hl, fun _ => rfl⟩
    · exact ⟨0, h.teacherNone, fun _ => rfl, fun _ => rfl⟩
    · exact ⟨0, h.teacherNone, fun _ => rfl, fun _ => rfl⟩
  · rw [if_neg (by omega), if_neg (by omega)]
    exact ⟨te, h, fun hyes => absurd hyes hl, fun _ => (hte hold).trans hkind⟩

namespace Director

theorem Attends.start (h : s.tracking.truthTable.Conditions) : (s.step hasScreen (.start : DirectorAct Angle)).Attends hasScreen := by
  refine ⟨Counts.start _, fun hno => absurd Lost.nil hno, 0, 0, 0, 0, ?_, fun _ => rfl, fun hno => absurd Lost.nil hno⟩
  change OneHot (s.tracking.step .start).truthTable 0 0 0 0
  simp only [Tracking.step, Tracking.startPicture_truthTable]
  exact h.restart

theorem Attends.other {a : TrackingAction} (h : s.Attends hasScreen) (ha : ∀ acc h m, a ≠ .eventVid acc h m) (hstart : a ≠ .start) :
    (s.step hasScreen (.other a ha hstart : DirectorAct Angle)).Attends hasScreen := by
  obtain ⟨v, te, st, b, hone, hte⟩ := h.hot
  obtain ⟨v', st', hone'⟩ := Tracking.step_oneHot hone ha hstart
  exact ⟨h.counts, h.multiple, v', te, st', b, hone', hte⟩

/-- An event that is handled. -/
theorem Attends.follow (h : s.Attends hasScreen) (hlen : s.seen.length + 4 < 2 ^ 32) (o : PanOptics Angle) (l : PanLimits) (pan : Int)
    (d : DetectResult) (hauto : s.tracking.isAutoInstuct ≠ 0) :
    (s.step hasScreen (.vid true o l pan d)).Attends hasScreen := by
  have hattended : Attended hasScreen o d s.tracker (s.tracker.eventVid o hasScreen l pan d).1 := eventVid_attended _
  rw [Director.step, if_pos ⟨hauto, rfl⟩, Director.follow]
  generalize (s.tracker.eventVid o hasScreen l pan d).1 = u at hattended ⊢
  obtain ⟨hcounts, hseen, hunseen⟩ := hattended
  have hnone : (d.sight hasScreen o.inScreen).1 = .none ↔ d.detected = 0 := sight_none
  have hscreen : hasScreen = false → (d.sight hasScreen o.inScreen).1 = .none ∨ (d.sight hasScreen o.inScreen).1 = .outside := by
    rintro rfl
    exact sight_noScreen
  generalize d.sight hasScreen o.inScreen = x at hcounts hseen hnone hscreen ⊢
  have hmap : (s.seen ++ [x]).map Prod.fst = s.seen.map Prod.fst ++ [x.1] := List.map_append
  have hnew : Counts hasScreen u ((s.seen ++ [x]).map Prod.fst) := by
    rw [hmap]
    exact hcounts.counts (h.counts.count (by rwa [List.length_map]) hscreen)
  -- A teacher who is there has been seen by this event, or is still there.
  have hfound : ¬Lost hasScreen ((s.seen ++ [x]).map Prod.fst) → x.1 ≠ .none ∧ u.accOfLost = 0 ∨
      x.1 = .none ∧ (0 < u.accOfLost ∧ u.accOfLost < 3) ∧ ¬Lost hasScreen (s.seen.map Prod.fst) := by
    intro hl
    have hacc := hnew.found hl
    have hfew := (not_loses hl).1
    rw [hmap, misses_append] at hacc hfew
    by_cases hx : x.1 = .none
    · rw [if_pos hx] at hacc hfew
      rw [hmap, hx, lost_none, not_or] at hl
      exact Or.inr ⟨hx, by omega, hl.1⟩
    · rw [if_neg hx] at hacc
      exact Or.inl ⟨hx, hacc⟩
  refine ⟨hnew, fun hl => ?_, ?_⟩
  · dsimp only
    rw [lastSeen_append]
    rcases hfound hl with ⟨hx, hacc⟩ | ⟨hx, -, hold⟩
    · rw [if_neg hx]
      exact ⟨x.2, rfl, hseen (fun hd => hx (hnone.mpr hd)) hacc⟩
    · rw [if_pos hx, (hunseen (hnone.mp hx)).1]
      exact h.multiple hold
  · obtain ⟨v, te, st, b, hone, -, hkind⟩ := h.hot
    obtain ⟨te', hone', hte'⟩ := onVid_oneHot (Lost hasScreen ((s.seen ++ [x]).map Prod.fst)) u hone hkind
      (fun hl => (hnew.lost hl).1) fun hl => (hfound hl).imp And.right fun ⟨hx, hacc, hold⟩ => by
        obtain ⟨hmultiple, hhiden⟩ := hunseen (hnone.mp hx)
        exact ⟨hacc, hold, by rw [TeacherTracker.kind, TeacherTracker.kind, hmultiple, hhiden]⟩
    refine ⟨v, te', st, b, ?_, hte'⟩
    simp only [Tracking.step]
    rw [if_neg hauto]
    exact hone'

/-- An event that is left out: the conditions are set again to what they are. -/
theorem Attends.skip (h : s.Attends hasScreen) {free : Bool} (hskip : ¬(s.tracking.isAutoInstuct ≠ 0 ∧ free = true))
    (o : PanOptics Angle) (l : PanLimits) (pan : Int) (d : DetectResult) : (s.step hasScreen (.vid free o l pan d)).Attends hasScreen := by
  rw [Director.step, if_neg hskip]
  refine ⟨h.counts, h.multiple, ?_⟩
  dsimp only [Tracking.step]
  split
  · exact h.hot
  · obtain ⟨v, te, st, b, hone, -, hkind⟩ := h.hot
    obtain ⟨te', hone', hte'⟩ := onVid_oneHot (Lost hasScreen (s.seen.map Prod.fst)) s.tracker hone hkind
      (fun hl => (h.counts.lost hl).1) fun hl => by
        have hacc := h.counts.found hl
        have hfew := (not_loses hl).1
        rcases Nat.eq_zero_or_pos s.tracker.accOfLost with hzero | hpos
        · exact Or.inl hzero
        · exact Or.inr ⟨⟨hpos, by omega⟩, hl, rfl⟩
    exact ⟨v, te', st, b, hone', hte'⟩

theorem step_seen_length (s : Director) (a : DirectorAct Angle) : (s.step hasScreen a).seen.length ≤ s.seen.length + 1 := by
  cases a with
  | vid free o l pan d =>
    rw [Director.step]
    dsimp only
    split
    · simp [Director.follow]
    · exact Nat.le_succ _
  | start => exact Nat.zero_le _
  | other a plain noStart => exact Nat.le_succ _

theorem Attends.step (h : s.Attends hasScreen) (hlen : s.seen.length + 4 < 2 ^ 32) (a : DirectorAct Angle) :
    (s.step hasScreen a).Attends hasScreen := by
  cases a with
  | vid free o l pan d =>
    by_cases hfollow : s.tracking.isAutoInstuct ≠ 0 ∧ free = true
    · obtain ⟨hauto, rfl⟩ := hfollow
      exact h.follow hlen o l pan d hauto
    · exact h.skip hfollow o l pan d
  | start =>
    obtain ⟨v, te, st, b, hone, -⟩ := h.hot
    exact Attends.start hone.conditions
  | other a plain noStart => exact h.other plain noStart

theorem Attends.run (h : s.Attends hasScreen) (as : List (DirectorAct Angle)) (hlen : s.seen.length + as.length + 4 ≤ 2 ^ 32) :
    (s.run hasScreen as).Attends hasScreen := by
  induction as generalizing s with
  | nil => exact h
  | cons a as ih =>
    rw [List.length_cons] at hlen
    have hstep : (s.step hasScreen a).seen.length ≤ s.seen.length + 1 := step_seen_length s a
    exact ih (h.step (by omega) a) (by omega)

theorem run_oneHot (h : ∃ v te st b, OneHot s.tracking.truthTable v te st b) (as : List (DirectorAct Angle)) :
    ∃ v te st b, OneHot (s.run hasScreen as).tracking.truthTable v te st b := by
  refine List.foldlRecOn (motive := fun s : Director => ∃ v te st b, OneHot s.tracking.truthTable v te st b) as _ h fun s h a _ => ?_
  obtain ⟨v, te, st, b, hone⟩ := h
  cases a with
  | vid free o l pan d =>
    rw [Director.step]
    have hsame : (if s.tracking.isAutoInstuct ≠ 0 ∧ free then s.follow hasScreen o l pan d else s).tracking = s.tracking := by
      split <;> rfl
    generalize (if s.tracking.isAutoInstuct ≠ 0 ∧ free then s.follow hasScreen o l pan d else s) = u at hsame ⊢
    dsimp only [Tracking.step]
    rw [hsame]
    split
    · exact ⟨v, te, st, b, hone⟩
    · exact TruthTable.onVid_oneHot ⟨v, te, st, b, hone⟩ ..
  | start =>
    refine ⟨0, 0, 0, 0, ?_⟩
    change OneHot (s.tracking.step .start).truthTable 0 0 0 0
    simp only [Tracking.step, Tracking.startPicture_truthTable]
    exact hone.conditions.restart
  | other a plain noStart =>
    obtain ⟨v', st', hone'⟩ := Tracking.step_oneHot hone plain noStart
    exact ⟨v', te, st', b, hone'⟩

theorem Attends.conditions (h : s.Attends hasScreen) :
    (s.tracking.truthTable.conditionTest condTeacherDetectedNone = true ↔
      Lost hasScreen (s.seen.map Prod.fst) ∨ s.tracker.needHiden = true) ∧
    (s.tracking.truthTable.conditionTest condTeacherDetectedOne = true ↔
      ¬Lost hasScreen (s.seen.map Prod.fst) ∧ s.tracker.needHiden = false ∧ ∃ d, lastSeen s.seen = some d ∧ d.width < 128) ∧
    (s.tracking.truthTable.conditionTest condTeacherDetectedMultiple = true ↔
      ¬Lost hasScreen (s.seen.map Prod.fst) ∧ s.tracker.needHiden = false ∧ ∃ d, lastSeen s.seen = some d ∧ 128 ≤ d.width) := by
  obtain ⟨v, te, st, b, hone, hnone, hkind⟩ := h.hot
  have htest : ∀ k < 3, s.tracking.truthTable.conditionTest (2 + k) = true ↔ te = k := by
    intro k hk
    have hv := hone.v_lt
    have hte := hone.te_lt
    rw [hone.test (2 + k) (by omega)]
    omega
  rw [show condTeacherDetectedNone = 2 + 0 from rfl, htest 0 (by decide), show condTeacherDetectedOne = 2 + 1 from rfl,
    htest 1 (by decide), show condTeacherDetectedMultiple = 2 + 2 from rfl, htest 2 (by decide)]
  by_cases hl : Lost hasScreen (s.seen.map Prod.fst)
  · rw [hnone hl]
    exact ⟨iff_of_true rfl (Or.inl hl), iff_of_false nofun fun h => h.1 hl, iff_of_false nofun fun h => h.1 hl⟩
  · obtain ⟨d, hd, hmultiple⟩ := h.multiple hl
    rw [hkind hl, TeacherTracker.kind, hmultiple, hd]
    rcases Nat.lt_or_ge d.width 128 with hw | hw
    · cases s.tracker.needHiden <;> simp [hl, hw, Nat.not_le.mpr hw]
    · cases s.tracker.needHiden <;> simp [hl, hw, Nat.not_lt.mpr hw]

/-- Once a recording has started, the conditions for the teacher are what the events since the last start tell: none when he is lost
    or when the camera's movement to him is hidden, else one or multiple by the width of what was seen last. -/
theorem presence (hasScreen : Bool) (fsm : Fsm) (isAutoInstuct vgaDuration : Int) (vmap : List VideoMap)
    (before after : List (DirectorAct Angle)) (hlen : after.length + 4 ≤ 2 ^ 32) :
    let s := (init fsm isAutoInstuct vgaDuration vmap).run hasScreen (before ++ .start :: after)
    let lost := Lost hasScreen (s.seen.map Prod.fst)
    (s.tracking.truthTable.conditionTest condTeacherDetectedNone = true ↔ lost ∨ s.tracker.needHiden = true) ∧
    (s.tracking.truthTable.conditionTest condTeacherDetectedOne = true ↔
      ¬lost ∧ s.tracker.needHiden = false ∧ ∃ d, lastSeen s.seen = some d ∧ d.width < 128) ∧
    (s.tracking.truthTable.conditionTest condTeacherDetectedMultiple = true ↔
      ¬lost ∧ s.tracker.needHiden = false ∧ ∃ d, lastSeen s.seen = some d ∧ 128 ≤ d.width) := by
  intro s lost
  refine Attends.conditions ?_
  obtain ⟨v, te, st, b, hone⟩ : ∃ v te st b,
      OneHot ((init fsm isAutoInstuct vgaDuration vmap).run hasScreen before).tracking.truthTable v te st b := by
    refine run_oneHot ⟨0, 0, 0, 0, ?_⟩ before
    dsimp only [init, Tracking.init]
    exact conditionTable_conditions.restart
  have hrun : s = (((init fsm isAutoInstuct vgaDuration vmap).run hasScreen before).step hasScreen .start).run hasScreen after :=
    List.foldl_append
  have hseen : (((init fsm isAutoInstuct vgaDuration vmap).run hasScreen before).step hasScreen
      (.start : DirectorAct Angle)).seen = [] := rfl
  rw [hrun]
  refine (Attends.start hone.conditions).run after ?_
  rw [hseen, List.length_nil, Nat.zero_add]
  exact hlen

/-- Events for a camera that needs not to be moved. -/
def sampleEvent (detected : Nat) : DirectorAct Unit :=
  .vid true ⟨fun _ => (), fun _ => 0, fun _ => false⟩ ⟨0, 0, 0, 0, 0⟩ 0 ⟨detected, 0, 100, 0, 156, 0, 100, 0, 156⟩

/-- A teacher who was seen is there for two more events without him, and lost with the third. -/
theorem presence_third : ¬Lost false [.outside, .none, .none] ∧ Lost false [.outside, .none, .none, .none] := by
  have htwo := presence false fsmInit 1 3 [] [] [sampleEvent 1, sampleEvent 0, sampleEvent 0] (by decide)
  have hthree := presence false fsmInit 1 3 [] [] [sampleEvent 1, sampleEvent 0, sampleEvent 0, sampleEvent 0] (by decide)
  refine ⟨fun hlost => absurd (htwo.1.mpr (Or.inl hlost)) (by decide +kernel), ?_⟩
  exact (hthree.1.mp (by decide +kernel)).resolve_right (by decide +kernel)

end Director
end

end Recbcsrv
