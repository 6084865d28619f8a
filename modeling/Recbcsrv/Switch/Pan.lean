import Mathlib.Data.Int.ConditionallyCompleteOrder
import Recbcsrv.Message.Detect

/-! The panning of the teacher's camera: the test whether the teacher is on the screen, the tracking of a teacher who is
    found, and the search for one who is lost. The conversions of a picture offset to an angle and to a pan position are
    parameters. -/

namespace Recbcsrv

/-! ### Offsets in the picture -/

namespace DetectResult

/-- `(int)(DetectResult.avg_left + DetectResult.avg_right -256)/2`. -/
def offset (d : DetectResult) : Int := (BitVec.ofNat 32 d.avgLeft + BitVec.ofNat 32 d.avgRight - 256#32).toInt.tdiv 2

/-- `(int)DetectResult.max_left+26`. -/
def leftOffset (d : DetectResult) : Int := (BitVec.ofNat 32 d.maxLeft).toInt + 26

/-- `(int)DetectResult.max_right-26`. -/
def rightOffset (d : DetectResult) : Int := (BitVec.ofNat 32 d.maxRight).toInt - 26

/-- `DetectResult.max_right-DetectResult.max_left`. -/
def width (d : DetectResult) : Nat := (BitVec.ofNat 32 d.maxRight - BitVec.ofNat 32 d.maxLeft).toNat

/-- The average replaced by the box of 52 columns at the left end. -/
def leftBox (d : DetectResult) : DetectResult := { d with avgLeft := d.maxLeft, avgRight := (d.maxLeft + 52) % 2 ^ 32 }

/-- The average replaced by the box of 52 columns at the right end. -/
def rightBox (d : DetectResult) : DetectResult :=
  { d with avgRight := d.maxRight, avgLeft := (d.maxRight + (2 ^ 32 - 52)) % 2 ^ 32 }

/-- `abs(edge-128)`. -/
def centreDistance (edge : Nat) : Nat := (BitVec.ofNat 32 edge - 128#32).toInt.natAbs

/-- The test whether the object is in the screen, and what it makes of the detection; `inScreen` tells of an offset whether
    the angle is one of the screen. -/
def inScreenTest (inScreen : Int → Bool) (d : DetectResult) : Bool × DetectResult :=
  let leftInScreen := if d.width ≤ 52 then inScreen d.offset else inScreen d.leftOffset
  let rightInScreen := if d.width ≤ 52 then inScreen d.offset else inScreen d.rightOffset
  match leftInScreen, rightInScreen with
  | false, false =>
    (false,
      if inScreen d.offset then
        if centreDistance d.maxLeft < centreDistance d.maxRight then d.leftBox else d.rightBox
      else d)
  | false, true => (false, { d.leftBox with maxRight := d.maxLeft })
  | true, false => (false, { d.rightBox with maxLeft := d.maxRight })
  | true, true => (true, d)

end DetectResult

/-! ### The limits -/

/-- The limits of the pan position, and `IsExclude`. -/
structure PanLimits where
  left : Int
  right : Int
  excludeLeft : Int
  excludeRight : Int
  isExclude : Int
  deriving DecidableEq, Repr

namespace PanLimits

/-- The camera is in the part to the right of the excluded zone. -/
def AtRight (l : PanLimits) (pan : Int) : Prop := l.excludeRight ≤ pan ∧ pan ≤ l.right

/-- The camera is in the part to the left of the excluded zone. -/
def AtLeft (l : PanLimits) (pan : Int) : Prop := l.left ≤ pan ∧ pan ≤ l.excludeLeft

instance (l : PanLimits) (pan : Int) : Decidable (l.AtRight pan) := inferInstanceAs (Decidable (_ ∧ _))

instance (l : PanLimits) (pan : Int) : Decidable (l.AtLeft pan) := inferInstanceAs (Decidable (_ ∧ _))

/-- `if(dest>hi) dest = hi; if(dest<lo) dest = lo;`. -/
def clampTo (lo hi dest : Int) : Int :=
  let dest := if dest > hi then hi else dest
  if dest < lo then lo else dest

/-- What the tracking block makes of the destination. -/
def confine (l : PanLimits) (pan dest : Int) : Int :=
  if l.isExclude = 0 then clampTo l.left l.right dest
  else
    let dest := if l.AtRight pan then clampTo l.excludeRight l.right dest else dest
    if l.AtLeft pan then clampTo l.left l.excludeLeft dest else dest

/-- The search turns at the right limit; a pair is a destination and a direction. -/
def turnAtRight (l : PanLimits) (s : Int × Int) : Int × Int := if s.1 > l.right then (l.right, s.2 * -1) else s

/-- The search turns at the left limit. -/
def turnAtLeft (l : PanLimits) (s : Int × Int) : Int × Int := if s.1 < l.left then (l.left, s.2 * -1) else s

/-- The search in the part to the right of the excluded zone; at its end it goes on behind the zone. -/
def scanRight (l : PanLimits) (pan : Int) (s : Int × Int) : Int × Int :=
  let s := l.turnAtRight s
  if s.1 < l.excludeRight then (if l.excludeRight = pan then l.excludeLeft else l.excludeRight, s.2) else s

/-- The search in the part to the left of the excluded zone. -/
def scanLeft (l : PanLimits) (pan : Int) (s : Int × Int) : Int × Int :=
  l.turnAtLeft (if s.1 > l.excludeLeft then (if l.excludeLeft = pan then l.excludeRight else l.excludeLeft, s.2) else s)

/-- What the search makes of the destination and of the direction. -/
def scanConfine (l : PanLimits) (pan : Int) (s : Int × Int) : Int × Int :=
  if l.isExclude = 0 then l.turnAtLeft (l.turnAtRight s)
  else
    let s := if l.AtRight pan then l.scanRight pan s else s
    if l.AtLeft pan then l.scanLeft pan s else s

end PanLimits

/-! ### An event -/

/-- The conversions by the zoom of the camera: of a picture offset to an angle, of an angle to a pan displacement, and the test
    whether an object at an offset is in the screen. -/
structure PanOptics (Angle : Type) where
  panAngle : Int → Angle
  panPos : Angle → Int
  inScreen : Int → Bool

def PanOptics.relativePos {Angle : Type} (o : PanOptics Angle) (offset : Int) : Int := o.panPos (o.panAngle offset)

def offsetThresLow : Int := 26

def offsetThresHigh : Int := 78

/-- The variables of `thread_SwitchTracking` for the tracking of the teacher. -/
structure TeacherTracker where
  accOfLost : Nat
  motionInScreen : Nat
  stillInScreen : Nat
  inLeft : Nat
  inRight : Nat
  needHiden : Bool
  isMultipleTeacher : Bool
  direction : Int
  deriving DecidableEq, Repr

/-- An unsigned int counted up. -/
def unsignedSucc (n : Nat) : Nat := (n + 1) % 2 ^ 32

namespace TeacherTracker

def init : TeacherTracker := ⟨0, 0, 0, 0, 0, false, false, 1⟩

/-- The control message `Start`. -/
def start (t : TeacherTracker) : TeacherTracker :=
  { t with accOfLost := 3, motionInScreen := 0, stillInScreen := 0, inLeft := 0, inRight := 0 }

/-- What the detection makes of the counters: with it the detection that is tracked. -/
def captureOrLost (inScreen : Int → Bool) (hasScreen : Bool) (d : DetectResult) (t : TeacherTracker) :
    TeacherTracker × DetectResult :=
  if d.detected ≠ 0 then
    if hasScreen then
      let (isIn, d) := d.inScreenTest inScreen
      if isIn then
        if d.detected ≥ 2 then
          let t := { t with motionInScreen := unsignedSucc t.motionInScreen, stillInScreen := 0 }
          ({ t with
            accOfLost := if t.accOfLost < 3 ∨ t.motionInScreen ≥ 2 then 0 else unsignedSucc t.accOfLost }, d)
        else
          let t := { t with stillInScreen := unsignedSucc t.stillInScreen, motionInScreen := 0 }
          ({ t with
            accOfLost :=
              if t.accOfLost < 3 then if t.stillInScreen < 90 then 0 else 3 else unsignedSucc t.accOfLost }, d)
      else ({ t with accOfLost := 0, stillInScreen := 0, motionInScreen := 0 }, d)
    else ({ t with accOfLost := 0 }, d)
  else
    let t := { t with accOfLost := unsignedSucc t.accOfLost }
    if hasScreen then
      let t := { t with stillInScreen := unsignedSucc t.stillInScreen }
      ({ t with accOfLost := if t.stillInScreen = 90 ∧ t.accOfLost < 3 then 3 else t.accOfLost }, d)
    else (t, d)

/-- The counters of the frames with the object on one side, and `do_teacher_tracking`. -/
def countSide (offset : Int) (t : TeacherTracker) : TeacherTracker × Bool :=
  if offset.natAbs ≤ offsetThresLow then ({ t with inLeft := 0, inRight := 0 }, false)
  else if offset > offsetThresLow ∧ offset < offsetThresHigh then
    let t := { t with inLeft := 0, inRight := unsignedSucc t.inRight }
    (t, t.inRight = 10)
  else if offset > -offsetThresHigh ∧ offset < -offsetThresLow then
    let t := { t with inLeft := unsignedSucc t.inLeft, inRight := 0 }
    (t, t.inLeft = 10)
  else (t, true)

variable {Angle : Type}

/-- The tracking block, with the argument of `AbsPos` when it is called. -/
def tracking (o : PanOptics Angle) (l : PanLimits) (pan offset : Int) (t : TeacherTracker) : TeacherTracker × Option Int :=
  let (t, doTeacherTracking) := t.countSide offset
  if doTeacherTracking then
    let panAngle := o.panAngle offset
    let relativePos := o.panPos panAngle
    let destpanPos := l.confine pan (pan + relativePos)
    -- The angle of `OFFSET_THRES_HIGH` is computed in the source, but `pan_angle` is converted.
    let relativePosThreshold := o.panPos panAngle
    ({ t with
      inLeft := 0
      inRight := 0
      direction := if destpanPos > pan then 1 else -1
      needHiden := !((destpanPos - pan).natAbs < relativePos.natAbs || (destpanPos - pan).natAbs < relativePosThreshold) },
      if destpanPos ≠ pan then some destpanPos else none)
  else ({ t with needHiden := false }, none)

/-- The search for a teacher who is lost. -/
def scan (o : PanOptics Angle) (l : PanLimits) (pan : Int) (t : TeacherTracker) : TeacherTracker × Option Int :=
  let s := l.scanConfine pan (pan + o.relativePos (128 * t.direction), t.direction)
  ({ t with direction := s.2 }, if s.1 ≠ pan then some s.1 else none)

/-- A teacher who is found is tracked. -/
def trackFound (o : PanOptics Angle) (l : PanLimits) (pan : Int) (d : DetectResult) (t : TeacherTracker) :
    TeacherTracker × Option Int :=
  if d.detected ≠ 0 ∧ t.accOfLost = 0 then
    { t with isMultipleTeacher := decide (d.width ≥ 128) }.tracking o l pan d.offset
  else (t, none)

/-- From the sixth frame without the teacher on each third one is a search. -/
def scanLost (o : PanOptics Angle) (l : PanLimits) (pan : Int) (t : TeacherTracker) : TeacherTracker × Option Int :=
  if t.accOfLost ≥ 6 ∧ t.accOfLost % 3 = 0 then t.scan o l pan else (t, none)

/-- A `COMMAND_EVENT_VID` message while no command is pending, with the arguments of `AbsPos`. -/
def eventVid (o : PanOptics Angle) (hasScreen : Bool) (l : PanLimits) (pan : Int) (d : DetectResult) (t : TeacherTracker) :
    TeacherTracker × List Int :=
  let (t, d) := t.captureOrLost o.inScreen hasScreen d
  let (t, tracked) := t.trackFound o l pan d
  let (t, scanned) := t.scanLost o l pan
  (t, tracked.toList ++ scanned.toList)

end TeacherTracker

/-! ### The boxes of a wide detection -/

/-- The offset of a box from the centre of the picture. -/
def centreOffset (left right : Int) : Int := (left + right - 256).tdiv 2

/-- The offsets of the screen test are those of the boxes at the two ends, and so are the offsets of the average once it is
    replaced by such a box. -/
structure DetectResult.ConsistentOffsets (d : DetectResult) : Prop where
  left : d.leftOffset = centreOffset d.maxLeft (d.maxLeft + 52)
  right : d.rightOffset = centreOffset (d.maxRight - 52) d.maxRight
  leftBox : d.leftBox.offset = centreOffset d.maxLeft (d.maxLeft + 52)
  rightBox : d.rightBox.offset = centreOffset (d.maxRight - 52) d.maxRight

section
variable {d : DetectResult}

theorem toInt_ofNat {n : Nat} (hn : n < 2 ^ 31) : (BitVec.ofNat 32 n).toInt = n := by
  rw [BitVec.toInt_eq_toNat_of_lt] <;> rw [BitVec.toNat_ofNat] <;> omega

/-- The average box is measured from the centre of the picture. -/
theorem offset_eq (hl : d.avgLeft ≤ 512) (hr : d.avgRight ≤ 512) : d.offset = centreOffset d.avgLeft d.avgRight := by
  have hword : (BitVec.ofNat 32 d.avgLeft + BitVec.ofNat 32 d.avgRight - 256#32).toInt = d.avgLeft + d.avgRight - 256 := by
    rw [BitVec.toInt_sub, BitVec.toInt_add, toInt_ofNat (by omega), toInt_ofNat (by omega),
      show (256#32).toInt = 256 from rfl, Int.sub_eq_add_neg, Int.bmod_add_bmod, Int.bmod_eq_of_le (by omega) (by omega)]
    rfl
  rw [DetectResult.offset, hword]
  rfl

theorem centreOffset_leftBox (m : Int) : centreOffset m (m + 52) = m - 102 := by
  have heven : m + (m + 52) - 256 = 2 * (m - 102) := by omega
  rw [centreOffset, heven, Int.mul_tdiv_cancel_left _ (by decide)]

theorem centreOffset_rightBox (m : Int) : centreOffset (m - 52) m = m - 154 := by
  have heven : m - 52 + m - 256 = 2 * (m - 154) := by omega
  rw [centreOffset, heven, Int.mul_tdiv_cancel_left _ (by decide)]

/-- The test of a wide detection takes an offset from the left edge of the picture for one from its centre. -/
theorem wideOffsets_shifted (h : d.maxLeft < d.maxRight) (hr : d.maxRight ≤ 256) :
    d.leftOffset = centreOffset d.maxLeft (d.maxLeft + 52) + 128 ∧
      d.rightOffset = centreOffset (d.maxRight - 52) d.maxRight + 128 := by
  unfold DetectResult.leftOffset DetectResult.rightOffset
  rw [toInt_ofNat (by omega), toInt_ofNat (by omega), centreOffset_leftBox, centreOffset_rightBox]
  omega

/-- The tracking that follows measures the boxes from the centre. -/
theorem boxOffsets_eq (h : d.maxLeft + 52 < d.maxRight) (hr : d.maxRight ≤ 256) :
    d.leftBox.offset = centreOffset d.maxLeft (d.maxLeft + 52) ∧
      d.rightBox.offset = centreOffset (d.maxRight - 52) d.maxRight := by
  have hleft : d.leftBox.avgRight = d.maxLeft + 52 := Nat.mod_eq_of_lt (by omega)
  have hright : d.rightBox.avgLeft = d.maxRight - 52 := by
    unfold DetectResult.rightBox
    dsimp only
    omega
  refine ⟨?_, ?_⟩
  · rw [offset_eq (by unfold DetectResult.leftBox; dsimp only; omega) (by omega), hleft]
    rfl
  · rw [offset_eq (by omega) (by unfold DetectResult.rightBox; dsimp only; omega), hright, Nat.cast_sub (by omega)]
    rfl

/-- The screen test of a wide detection never uses the offsets of the boxes. -/
theorem not_consistentOffsets (h : d.maxRight - d.maxLeft > 52) (hr : d.maxRight ≤ 256) : ¬ d.ConsistentOffsets := by
  intro hc
  have hshift := (wideOffsets_shifted (d := d) (by omega) hr).1
  rw [hc.left] at hshift
  omega

/-- A detection from column 100 to column 200. -/
theorem not_consistentOffsets_hundred : ¬ DetectResult.ConsistentOffsets ⟨1, 0, 120, 144, 172, 0, 100, 144, 200⟩ :=
  not_consistentOffsets (by decide) (by decide)

/-- The left object of that detection stands left of the centre, and its angle is taken from a point to the right. -/
theorem consistentOffsets_counterexample :
    let d : DetectResult := ⟨1, 0, 120, 144, 172, 0, 100, 144, 200⟩
    d.leftOffset = 126 ∧ centreOffset d.maxLeft (d.maxLeft + 52) = -2 ∧ d.leftBox.offset = -2 ∧ ¬ d.ConsistentOffsets := by
  refine ⟨by decide, by decide, by decide, fun h => absurd h.left (by decide)⟩

end
/-! ### The permitted range -/

namespace PanLimits

/-- The positions that the limits permit. -/
def Allowed (l : PanLimits) (pan : Int) : Prop :=
  if l.isExclude = 0 then l.left ≤ pan ∧ pan ≤ l.right else l.AtLeft pan ∨ l.AtRight pan

instance (l : PanLimits) (pan : Int) : Decidable (l.Allowed pan) := inferInstanceAs (Decidable (ite _ _ _))

end PanLimits

/-- The two blocks that move the camera. -/
inductive PanBlock where
  | tracking
  | scan (direction : Int)

/-- Where a block wants the camera when it is at `pan` and the displacement is `relativePos`. -/
def PanBlock.destpanPos (l : PanLimits) (pan relativePos : Int) : PanBlock → Int
  | .tracking => l.confine pan (pan + relativePos)
  | .scan direction => (l.scanConfine pan (pan + relativePos, direction)).1

/-- The destination that a block passes to `AbsPos`, if it calls it. -/
def PanBlock.destination (l : PanLimits) (pan relativePos : Int) (b : PanBlock) : Option Int :=
  if b.destpanPos l pan relativePos ≠ pan then some (b.destpanPos l pan relativePos) else none

/-- A block only moves the camera to a permitted position. -/
def PanBlock.StaysAllowed (l : PanLimits) (pan relativePos : Int) (b : PanBlock) : Prop :=
  ∀ dest, b.destination l pan relativePos = some dest → l.Allowed dest

section
variable {l : PanLimits} {pan relativePos dest lo hi : Int} {b : PanBlock}

theorem clampTo_mem (h : lo ≤ hi) : lo ≤ PanLimits.clampTo lo hi dest ∧ PanLimits.clampTo lo hi dest ≤ hi := by
  unfold PanLimits.clampTo
  dsimp only
  split <;> split <;> omega

@[simp] theorem turnAtRight_fst (l : PanLimits) (s : Int × Int) : (l.turnAtRight s).1 = min s.1 l.right := by
  unfold PanLimits.turnAtRight
  split <;> omega

@[simp] theorem turnAtLeft_fst (l : PanLimits) (s : Int × Int) : (l.turnAtLeft s).1 = max s.1 l.left := by
  unfold PanLimits.turnAtLeft
  split <;> omega

theorem scanRight_mem (hr : l.excludeRight ≤ l.right) (s : Int × Int) :
    (l.scanRight pan s).1 = l.excludeLeft ∨ l.AtRight (l.scanRight pan s).1 := by
  unfold PanLimits.scanRight PanLimits.AtRight
  dsimp only
  rw [turnAtRight_fst]
  split
  · split <;> omega
  · rw [turnAtRight_fst]
    omega

theorem scanLeft_mem (hl : l.left ≤ l.excludeLeft) (s : Int × Int) :
    (l.scanLeft pan s).1 = l.excludeRight ∨ l.AtLeft (l.scanLeft pan s).1 := by
  unfold PanLimits.scanLeft PanLimits.AtLeft
  rw [turnAtLeft_fst]
  split
  · split <;> omega
  · omega

/-- Without an excluded zone every destination is brought between the limits. -/
theorem destpanPos_mem (h0 : l.isExclude = 0) (h : l.left ≤ l.right) :
    l.left ≤ b.destpanPos l pan relativePos ∧ b.destpanPos l pan relativePos ≤ l.right := by
  cases b with
  | tracking =>
    rw [PanBlock.destpanPos, PanLimits.confine, if_pos h0]
    exact clampTo_mem h
  | scan direction =>
    rw [PanBlock.destpanPos, PanLimits.scanConfine, if_pos h0, turnAtLeft_fst, turnAtRight_fst]
    omega

/-- Outside of both parts nothing is done to the destination. -/
theorem destpanPos_outside (h0 : l.isExclude ≠ 0) (hleft : ¬ l.AtLeft pan) (hright : ¬ l.AtRight pan) :
    b.destpanPos l pan relativePos = pan + relativePos := by
  cases b with
  | tracking =>
    rw [PanBlock.destpanPos, PanLimits.confine, if_neg h0, if_neg hleft, if_neg hright]
  | scan direction =>
    rw [PanBlock.destpanPos, PanLimits.scanConfine, if_neg h0, if_neg hleft, if_neg hright]

/-- From a permitted position the destination is permitted. -/
theorem destpanPos_inside (h0 : l.isExclude ≠ 0) (hl : l.left ≤ l.excludeLeft) (hr : l.excludeRight ≤ l.right)
    (h : l.AtLeft pan ∨ l.AtRight pan) :
    l.AtLeft (b.destpanPos l pan relativePos) ∨ l.AtRight (b.destpanPos l pan relativePos) := by
  cases b with
  | tracking =>
    rw [PanBlock.destpanPos, PanLimits.confine, if_neg h0]
    by_cases hleft : l.AtLeft pan
    · rw [if_pos hleft]
      exact Or.inl (clampTo_mem hl)
    · rw [if_neg hleft, if_pos (h.resolve_left hleft)]
      exact Or.inr (clampTo_mem hr)
  | scan direction =>
    rw [PanBlock.destpanPos, PanLimits.scanConfine, if_neg h0]
    by_cases hleft : l.AtLeft pan
    · rw [if_pos hleft]
      rcases scanLeft_mem hl _ with hscan | hscan
      · exact Or.inr (by rw [hscan]; exact ⟨Int.le_refl _, hr⟩)
      · exact Or.inl hscan
    · rw [if_neg hleft, if_pos (h.resolve_left hleft)]
      rcases scanRight_mem hr _ with hscan | hscan
      · exact Or.inl (by rw [hscan]; exact ⟨hl, Int.le_refl _⟩)
      · exact Or.inr hscan

theorem destpanPos_allowed (hl : l.left ≤ l.excludeLeft) (he : l.excludeLeft ≤ l.excludeRight) (hr : l.excludeRight ≤ l.right)
    (h : l.isExclude = 0 ∨ l.Allowed pan) : l.Allowed (b.destpanPos l pan relativePos) := by
  unfold PanLimits.Allowed at *
  by_cases h0 : l.isExclude = 0
  · rw [if_pos h0]
    exact destpanPos_mem h0 (by omega)
  · rw [if_neg h0] at h ⊢
    exact destpanPos_inside h0 hl hr (h.resolve_left h0)

theorem staysAllowed_iff_destpanPos : b.StaysAllowed l pan relativePos ↔
    (b.destpanPos l pan relativePos ≠ pan → l.Allowed (b.destpanPos l pan relativePos)) := by
  unfold PanBlock.StaysAllowed PanBlock.destination
  split <;> simp [*]

/-- The destinations of both blocks are permitted exactly when the camera stands at a permitted position, or is not moved, or
    is to move to one by itself. -/
theorem staysAllowed_iff (b : PanBlock) (l : PanLimits) (pan relativePos : Int) (hl : l.left ≤ l.excludeLeft)
    (he : l.excludeLeft ≤ l.excludeRight) (hr : l.excludeRight ≤ l.right) :
    b.StaysAllowed l pan relativePos ↔
      l.isExclude = 0 ∨ l.Allowed pan ∨ relativePos = 0 ∨ l.Allowed (pan + relativePos) := by
  rw [staysAllowed_iff_destpanPos]
  by_cases hpan : l.isExclude = 0 ∨ l.Allowed pan
  · exact iff_of_true (fun _ => destpanPos_allowed hl he hr hpan) (hpan.imp_right Or.inl)
  · obtain ⟨h0, hpan⟩ := not_or.mp hpan
    have hparts : ¬ (l.AtLeft pan ∨ l.AtRight pan) := by rwa [PanLimits.Allowed, if_neg h0] at hpan
    rw [destpanPos_outside h0 (fun h => hparts (Or.inl h)) fun h => hparts (Or.inr h)]
    constructor
    · intro h
      by_cases hrel : relativePos = 0
      · exact Or.inr (Or.inr (Or.inl hrel))
      · exact Or.inr (Or.inr (Or.inr (h (by omega))))
    · rintro (h | h | h | h) hne
      · exact absurd h h0
      · exact absurd h hpan
      · exact absurd (by omega) hne
      · exact h

/-- A camera that stands in the excluded zone stays in it. -/
theorem stays_in_zone_counterexample :
    let l : PanLimits := ⟨-400, 400, -100, 100, 1⟩
    PanBlock.tracking.destination l 50 20 = some 70 ∧ (PanBlock.scan 1).destination l 50 20 = some 70 ∧ ¬ l.Allowed 70 := by
  decide

/-- A camera that stands right of the zone. -/
theorem staysAllowed_right : (PanBlock.scan (-1)).StaysAllowed ⟨-400, 400, -100, 100, 1⟩ 150 (-80) :=
  (staysAllowed_iff (.scan (-1)) ⟨-400, 400, -100, 100, 1⟩ 150 (-80) (by decide) (by decide) (by decide)).mpr (by decide)

end

/-! ### Hiding the picture -/

/-- The end of the range at which a destination is cut. -/
def cutAt (lo hi dest : Int) : Option Int := if min dest hi < lo then some lo else if hi < dest then some hi else none

/-- The limit at which the tracking cuts a destination, if it does. -/
def PanLimits.cut (l : PanLimits) (pan dest : Int) : Option Int :=
  if l.isExclude = 0 then cutAt l.left l.right dest
  else
    let right := if l.AtRight pan then cutAt l.excludeRight l.right dest else none
    let left := if l.AtLeft pan then cutAt l.left l.excludeLeft (right.getD dest) else none
    left.or right

/-- The picture is hidden for a move that is not cut short and is at least as large as that for `OFFSET_THRES_HIGH`. -/
def LargeMove {Angle : Type} (o : PanOptics Angle) (offset move : Int) : Prop :=
  (o.relativePos offset).natAbs ≤ move.natAbs ∧ o.relativePos offsetThresHigh ≤ move.natAbs

section
variable {l : PanLimits} {pan dest lo hi offset : Int} {Angle : Type} {o : PanOptics Angle} {t : TeacherTracker}

theorem clampTo_eq : PanLimits.clampTo lo hi dest = (cutAt lo hi dest).getD dest := by
  unfold PanLimits.clampTo cutAt
  dsimp only
  split_ifs <;> simp <;> omega

theorem confine_eq : l.confine pan dest = (l.cut pan dest).getD dest := by
  unfold PanLimits.confine PanLimits.cut
  by_cases h0 : l.isExclude = 0
  · rw [if_pos h0, if_pos h0, clampTo_eq]
  · rw [if_neg h0, if_neg h0]
    by_cases hright : l.AtRight pan <;> by_cases hleft : l.AtLeft pan <;> simp [hright, hleft, clampTo_eq]

/-- The tracking block compares with the displacement of the offset itself. -/
theorem tracking_needHiden (h : (t.countSide offset).2 = true) : (t.tracking o l pan offset).1.needHiden = true ↔
    (o.relativePos offset).natAbs ≤ (l.confine pan (pan + o.relativePos offset) - pan).natAbs := by
  unfold TeacherTracker.tracking PanOptics.relativePos
  dsimp only
  rw [if_pos h]
  simp only [Bool.not_eq_true', Bool.or_eq_false_iff, decide_eq_false_iff_not]
  omega

theorem natAbs_relativePos (hodd : ∀ x, o.relativePos (-x) = -o.relativePos x) (hmono : StrictMono o.relativePos) (x : Int) :
    ((o.relativePos x).natAbs : Int) = o.relativePos x.natAbs := by
  have hzero : o.relativePos 0 = 0 := by
    have := hodd 0
    rw [Int.neg_zero] at this
    omega
  rcases Int.le_total 0 x with hx | hx
  · have hnonneg := hmono.monotone hx
    rw [Int.natAbs_of_nonneg hx]
    omega
  · have hneg := hmono.monotone hx
    rw [Int.ofNat_natAbs_of_nonpos hx, hodd]
    omega

/-- The picture is hidden for the large moves exactly when the offset reaches `OFFSET_THRES_HIGH`, or the destination is cut at a
    limit that is too near for the offset or too far for `OFFSET_THRES_HIGH`. -/
theorem needHiden_iff (o : PanOptics Angle) (l : PanLimits) (pan offset : Int) (t : TeacherTracker)
    (hodd : ∀ x, o.relativePos (-x) = -o.relativePos x) (hmono : StrictMono o.relativePos)
    (h : (t.countSide offset).2 = true) :
    ((t.tracking o l pan offset).1.needHiden = true ↔
        LargeMove o offset (l.confine pan (pan + o.relativePos offset) - pan)) ↔
      offsetThresHigh ≤ offset.natAbs ∨ ∃ limit, l.cut pan (pan + o.relativePos offset) = some limit ∧
        ((limit - pan).natAbs < (o.relativePos offset).natAbs ∨ o.relativePos offsetThresHigh ≤ (limit - pan).natAbs) := by
  have habs := natAbs_relativePos hodd hmono offset
  have hthres : offsetThresHigh ≤ offset.natAbs ↔ o.relativePos offsetThresHigh ≤ (o.relativePos offset).natAbs := by
    rw [habs]
    exact hmono.le_iff_le.symm
  rw [tracking_needHiden h, confine_eq, hthres]
  unfold LargeMove
  cases hcut : l.cut pan (pan + o.relativePos offset) with
  | none =>
    have hmove : pan + o.relativePos offset - pan = o.relativePos offset := by omega
    simp [hmove]
  | some limit =>
    simp only [Option.getD_some, Option.some.injEq, exists_eq_left']
    omega

/-- The conversion by the identity. -/
def plainOptics : PanOptics Int := ⟨id, id, fun _ => false⟩

/-- The tenth frame with the object a little to the right: the camera moves a little, and the picture is hidden. -/
theorem needHiden_counterexample :
    let t : TeacherTracker := { TeacherTracker.init with inRight := 9 }
    let l : PanLimits := ⟨-400, 400, -100, 100, 0⟩
    (t.countSide 30).2 = true ∧ (t.tracking plainOptics l 0 30).1.needHiden = true ∧
      ¬ LargeMove plainOptics 30 (l.confine 0 30 - 0) := by
  refine ⟨by decide, by decide, fun h => absurd h.2 (by decide)⟩

/-- The same frames with the object far to the left. -/
theorem needHiden_left : let l : PanLimits := ⟨-400, 400, -100, 100, 0⟩
    (TeacherTracker.init.tracking plainOptics l 0 (-90)).1.needHiden = true ↔ LargeMove plainOptics (-90) (l.confine 0 (-90) - 0) :=
  (needHiden_iff plainOptics ⟨-400, 400, -100, 100, 0⟩ 0 (-90) TeacherTracker.init (fun _ => rfl) strictMono_id (by decide)).mpr
    (Or.inl (by decide))

end

/-! ### Runs -/

/-- What reaches the tracking of the teacher: `Start`, or a detection with the zoom, the limits and the position at that time. -/
inductive TeacherEvent (Angle : Type) where
  | start
  | vid (o : PanOptics Angle) (hasScreen : Bool) (l : PanLimits) (pan : Int) (d : DetectResult)

/-- An event, with the arguments of `AbsPos`. -/
def TeacherTracker.step {Angle : Type} (t : TeacherTracker) : TeacherEvent Angle → TeacherTracker × List Int
  | .start => (t.start, [])
  | .vid o hasScreen l pan d => t.eventVid o hasScreen l pan d

def TeacherTracker.run {Angle : Type} (t : TeacherTracker) (es : List (TeacherEvent Angle)) : TeacherTracker :=
  es.foldl (fun t e => (t.step e).1) t

/-- The counters of the sides stay below ten, one of them is zero, and the direction is one of two. -/
structure TeacherTracker.Steady (t : TeacherTracker) : Prop where
  inLeft : t.inLeft < 10
  inRight : t.inRight < 10
  oneSide : t.inLeft = 0 ∨ t.inRight = 0
  direction : t.direction = 1 ∨ t.direction = -1

section
variable {Angle : Type} {o : PanOptics Angle} {l : PanLimits} {pan offset : Int} {t : TeacherTracker} {hasScreen : Bool}
  {d : DetectResult}

/-- The decision on capture and loss leaves the sides and the direction alone. -/
theorem captureOrLost_sides (t : TeacherTracker) (inScreen : Int → Bool) (hasScreen : Bool) (d : DetectResult) :
    (t.captureOrLost inScreen hasScreen d).1.inLeft = t.inLeft ∧
      (t.captureOrLost inScreen hasScreen d).1.inRight = t.inRight ∧
      (t.captureOrLost inScreen hasScreen d).1.direction = t.direction := by
  unfold TeacherTracker.captureOrLost
  dsimp only
  split_ifs <;> exact ⟨rfl, rfl, rfl⟩

theorem steady_countSide (h : t.Steady) (hnot : ¬ (t.countSide offset).2 = true) : (t.countSide offset).1.Steady := by
  have hten : 0 < 10 := Nat.succ_pos 9
  unfold TeacherTracker.countSide at *
  split_ifs at * with h1 h2 h3
  · exact ⟨hten, hten, Or.inl rfl, h.direction⟩
  · have hlt : unsignedSucc t.inRight = t.inRight + 1 := Nat.mod_eq_of_lt (by have := h.inRight; omega)
    dsimp only at hnot ⊢
    rw [decide_eq_true_iff, hlt] at hnot
    exact ⟨hten, by have := h.inRight; dsimp only; omega, Or.inl rfl, h.direction⟩
  · have hlt : unsignedSucc t.inLeft = t.inLeft + 1 := Nat.mod_eq_of_lt (by have := h.inLeft; omega)
    dsimp only at hnot ⊢
    rw [decide_eq_true_iff, hlt] at hnot
    exact ⟨by have := h.inLeft; dsimp only; omega, hten, Or.inr rfl, h.direction⟩
  · exact absurd rfl hnot

theorem steady_tracking (h : t.Steady) : (t.tracking o l pan offset).1.Steady := by
  have hten : 0 < 10 := Nat.succ_pos 9
  unfold TeacherTracker.tracking
  dsimp only
  by_cases hdo : (t.countSide offset).2 = true
  · rw [if_pos hdo]
    refine ⟨hten, hten, Or.inl rfl, ?_⟩
    dsimp only
    split
    · exact Or.inl rfl
    · exact Or.inr rfl
  · rw [if_neg hdo]
    have hside := steady_countSide h hdo
    exact ⟨hside.inLeft, hside.inRight, hside.oneSide, hside.direction⟩

theorem turnAtRight_direction {s : Int × Int} (h : s.2 = 1 ∨ s.2 = -1) :
    (l.turnAtRight s).2 = 1 ∨ (l.turnAtRight s).2 = -1 := by
  unfold PanLimits.turnAtRight
  split <;> omega

theorem turnAtLeft_direction {s : Int × Int} (h : s.2 = 1 ∨ s.2 = -1) :
    (l.turnAtLeft s).2 = 1 ∨ (l.turnAtLeft s).2 = -1 := by
  unfold PanLimits.turnAtLeft
  split <;> omega

theorem scanRight_direction {s : Int × Int} (h : s.2 = 1 ∨ s.2 = -1) :
    (l.scanRight pan s).2 = 1 ∨ (l.scanRight pan s).2 = -1 := by
  unfold PanLimits.scanRight
  dsimp only
  split <;> exact turnAtRight_direction h

theorem scanLeft_direction {s : Int × Int} (h : s.2 = 1 ∨ s.2 = -1) :
    (l.scanLeft pan s).2 = 1 ∨ (l.scanLeft pan s).2 = -1 := by
  unfold PanLimits.scanLeft
  refine turnAtLeft_direction ?_
  split <;> exact h

theorem scanConfine_direction {s : Int × Int} (h : s.2 = 1 ∨ s.2 = -1) :
    (l.scanConfine pan s).2 = 1 ∨ (l.scanConfine pan s).2 = -1 := by
  unfold PanLimits.scanConfine
  by_cases h0 : l.isExclude = 0
  · rw [if_pos h0]
    exact turnAtLeft_direction (turnAtRight_direction h)
  · rw [if_neg h0]
    have hpart : (if l.AtRight pan then l.scanRight pan s else s).2 = 1 ∨
        (if l.AtRight pan then l.scanRight pan s else s).2 = -1 := by
      split
      · exact scanRight_direction h
      · exact h
    by_cases hleft : l.AtLeft pan
    · rw [if_pos hleft]
      exact scanLeft_direction hpart
    · rw [if_neg hleft]
      exact hpart

theorem steady_scan (h : t.Steady) : (t.scan o l pan).1.Steady :=
  ⟨h.inLeft, h.inRight, h.oneSide, scanConfine_direction h.direction⟩

theorem steady_eventVid (h : t.Steady) : (t.eventVid o hasScreen l pan d).1.Steady := by
  obtain ⟨hleft, hright, hdirection⟩ := captureOrLost_sides t o.inScreen hasScreen d
  have hcapture : (t.captureOrLost o.inScreen hasScreen d).1.Steady :=
    ⟨hleft ▸ h.inLeft, hright ▸ h.inRight, by rw [hleft, hright]; exact h.oneSide, hdirection ▸ h.direction⟩
  have hfound : ∀ {t : TeacherTracker} {d : DetectResult}, t.Steady → (t.trackFound o l pan d).1.Steady := by
    intro t d h
    unfold TeacherTracker.trackFound
    split
    · exact steady_tracking ⟨h.inLeft, h.inRight, h.oneSide, h.direction⟩
    · exact h
  have hlost : ∀ {t : TeacherTracker}, t.Steady → (t.scanLost o l pan).1.Steady := by
    intro t h
    unfold TeacherTracker.scanLost
    split
    · exact steady_scan h
    · exact h
  exact hlost (hfound hcapture)

/-- After any events a small offset is tracked only when the object was on that side in ten frames, and the search goes by half
    a picture to one side or the other. -/
theorem steady_run (es : List (TeacherEvent Angle)) (h : t.Steady) : (t.run es).Steady := by
  induction es generalizing t with
  | nil => exact h
  | cons e es ih =>
    refine ih ?_
    cases e with
    | start => exact ⟨Nat.succ_pos 9, Nat.succ_pos 9, Or.inl rfl, h.direction⟩
    | vid o hasScreen l pan d => exact steady_eventVid h

theorem tracking_destination {dest : Int} (h : (t.tracking o l pan offset).2 = some dest) :
    PanBlock.tracking.destination l pan (o.relativePos offset) = some dest := by
  unfold TeacherTracker.tracking at h
  dsimp only at h
  split at h
  · exact h
  · cases h

/-- Each destination of an event is one of the two blocks. -/
theorem mem_eventVid {dest : Int} (h : dest ∈ (t.eventVid o hasScreen l pan d).2) :
    ∃ (b : PanBlock) (relativePos : Int), b.destination l pan relativePos = some dest := by
  have hfound : ∀ {t : TeacherTracker} {d : DetectResult}, (t.trackFound o l pan d).2 = some dest →
      ∃ (b : PanBlock) (relativePos : Int), b.destination l pan relativePos = some dest := by
    intro t d h
    unfold TeacherTracker.trackFound at h
    split at h
    · exact ⟨.tracking, _, tracking_destination h⟩
    · cases h
  have hlost : ∀ {t : TeacherTracker}, (t.scanLost o l pan).2 = some dest →
      ∃ (b : PanBlock) (relativePos : Int), b.destination l pan relativePos = some dest := by
    intro t h
    unfold TeacherTracker.scanLost at h
    split at h
    · exact ⟨.scan t.direction, _, h⟩
    · cases h
  unfold TeacherTracker.eventVid at h
  rcases List.mem_append.mp h with h | h
  · exact hfound (Option.mem_toList.mp h)
  · exact hlost (Option.mem_toList.mp h)

/-- From a permitted position an event only moves the camera to permitted ones. -/
theorem eventVid_allowed (hl : l.left ≤ l.excludeLeft) (he : l.excludeLeft ≤ l.excludeRight) (hr : l.excludeRight ≤ l.right)
    (h : l.isExclude = 0 ∨ l.Allowed pan) : ∀ dest ∈ (t.eventVid o hasScreen l pan d).2, l.Allowed dest := by
  intro dest hdest
  obtain ⟨b, relativePos, hb⟩ := mem_eventVid hdest
  unfold PanBlock.destination at hb
  split at hb
  · cases hb
    exact destpanPos_allowed hl he hr h
  · cases hb

end
end Recbcsrv
