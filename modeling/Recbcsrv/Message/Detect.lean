import Recbcsrv.Message.Instructor

/-! The result of the detection in a frame (`DetectFrame`), the event message that carries it (`EventVID2df`) and what
    the consumers read from that message (`GetDetectResult`). The coordinates survive. Of the flag only whether it is
    positive does, although the consumer distinguishes motion by its value. -/

namespace Recbcsrv
open Bytes

def commandEventVid : List UInt8 := ascii "0021"

/-- `rect` of the detection. -/
structure FrameRect where
  x1 : Int32
  y1 : Int32
  x2 : Int32
  y2 : Int32
  deriving DecidableEq, Repr

/-- The nine ints that `DetectFrame` leaves in the frame buffer, under the names that `EventVID2df` gives them. -/
structure FrameResult where
  rect : Int32
  avgTop : Int32
  avgLeft : Int32
  avgBottom : Int32
  avgRight : Int32
  maxTop : Int32
  maxLeft : Int32
  maxBottom : Int32
  maxRight : Int32
  deriving DecidableEq, Repr

/-! ### The detector -/

def frameHeight : Int32 := 144

/-- `DETECT_GAP`, two thirds of `PWIDTH`. -/
def detectGap : Int32 := 52 * 2 / 3

/-- `maxRect` at the start. -/
def maxRectInit : FrameRect := ⟨Int32.maxValue, 0, Int32.minValue, frameHeight⟩

/-- `maxRect` widened to an item. -/
def FrameRect.widen (maxRect item : FrameRect) : FrameRect :=
  { maxRect with
    x1 := if maxRect.x1 > item.x1 then item.x1 else maxRect.x1
    x2 := if maxRect.x2 < item.x2 then item.x2 else maxRect.x2 }

/-- The sums of the coordinates of the items. -/
def FrameRect.sum (items : List FrameRect) : FrameRect :=
  items.foldl (fun r i => ⟨r.x1 + i.x1, r.y1 + i.y1, r.x2 + i.x2, r.y2 + i.y2⟩) ⟨0, 0, 0, 0⟩

/-- The coordinates divided by a number of items. -/
def FrameRect.over (r : FrameRect) (num : Int32) : FrameRect := ⟨r.x1 / num, r.y1 / num, r.x2 / num, r.y2 / num⟩

/-- The ints that are stored in the buffer. -/
def leaveResult (flag : Int32) (result maxRect : FrameRect) : FrameResult where
  rect := if result.x2 ≠ 0 ∧ result.y2 ≠ 0 then flag else 0
  avgTop := result.y1
  avgLeft := result.x1
  avgBottom := result.y2
  avgRight := result.x2
  maxTop := maxRect.y1
  maxLeft := maxRect.x1
  maxBottom := maxRect.y2
  maxRight := maxRect.x2

/-- `DetectFrame`, from the rectangles that `FrameCentrist` and `FrameDiff` have left in `cenCoord` and
    `coordinate`. -/
def detectFrame (cenCoord coordinate : List FrameRect) : FrameResult :=
  match coordinate with
  | [] =>
    if cenCoord = [] then leaveResult 0 ⟨0, 0, 0, 0⟩ maxRectInit
    else leaveResult 1 ((FrameRect.sum cenCoord).over (.ofNat cenCoord.length)) (cenCoord.foldl .widen maxRectInit)
  | first :: rest =>
    let left := first.x1
    let right := ((first :: rest).getLast (List.cons_ne_nil _ _)).x2
    let items := cenCoord.filter fun item => left - detectGap < item.x1 ∧ item.x2 < right + detectGap
    if items ≠ [] then
      leaveResult 3 ((FrameRect.sum items).over (.ofNat items.length)) (items.foldl .widen maxRectInit)
    else
      leaveResult 2 ⟨left, 0, right, frameHeight⟩ (maxRectInit.widen ⟨left, 0, right, frameHeight⟩)

/-! ### The message -/

/-- An int as the unsigned number of its 32 bits. -/
def word (x : Int32) : Nat := x.toUInt32.toNat

/-- The attributes of the event with their numbers. -/
def FrameResult.attrs (r : FrameResult) : List (String × Nat) :=
  if r.rect > 0 then
    [("Detected", 1), ("AvgTop", word r.avgTop), ("AvgLeft", word r.avgLeft), ("AvgBottom", word r.avgBottom),
      ("AvgRight", word r.avgRight), ("MaxTop", word r.maxTop), ("MaxLeft", word r.maxLeft),
      ("MaxBottom", word r.maxBottom), ("MaxRight", word r.maxRight)]
  else [("Detected", 0)]

def eventVid2df (r : FrameResult) : OutMsg := ⟨commandEventVid, r.attrs.map fun p => .int (ascii p.1) p.2⟩

/-- `t_DetectResult`. -/
structure DetectResult where
  detected : Nat
  avgTop : Nat
  avgLeft : Nat
  avgBottom : Nat
  avgRight : Nat
  maxTop : Nat
  maxLeft : Nat
  maxBottom : Nat
  maxRight : Nat
  deriving DecidableEq, Repr

/-- What `if(!strcmp(attr_name, name)) char2hex(attr_value, &field, value_len)` leaves in the field. -/
def Attr.readInto (a : Attr) (name : String) (field : Nat) : Nat :=
  if a.named name then (char2hex a.value field).1 else field

/-- The body of the loop of `GetDetectResult`. -/
def DetectResult.set (d : DetectResult) (a : Attr) : DetectResult where
  detected := a.readInto "Detected" d.detected
  avgTop := a.readInto "AvgTop" d.avgTop
  avgLeft := a.readInto "AvgLeft" d.avgLeft
  avgBottom := a.readInto "AvgBottom" d.avgBottom
  avgRight := a.readInto "AvgRight" d.avgRight
  maxTop := a.readInto "MaxTop" d.maxTop
  maxLeft := a.readInto "MaxLeft" d.maxLeft
  maxBottom := a.readInto "MaxBottom" d.maxBottom
  maxRight := a.readInto "MaxRight" d.maxRight

def DetectResult.zero : DetectResult := ⟨0, 0, 0, 0, 0, 0, 0, 0, 0⟩

def getDetectResult (m : Mem) : DetectResult := (attrsOf m).foldl DetectResult.set .zero

/-- The result with the coordinates of the frame and a number in `detected`. -/
def FrameResult.detected (r : FrameResult) (number : Nat) : DetectResult :=
  ⟨number, word r.avgTop, word r.avgLeft, word r.avgBottom, word r.avgRight, word r.maxTop, word r.maxLeft,
    word r.maxBottom, word r.maxRight⟩

/-- The consumer finds what the detector left, and its tests are those of the detector. -/
structure FrameResult.Survives (r : FrameResult) (d : DetectResult) : Prop where
  some : 0 < r.rect → d = r.detected (word r.rect)
  none : r.rect = 0 → d = .zero
  seen : d.detected ≠ 0 ↔ r.rect ≠ 0
  motion : 2 ≤ d.detected ↔ 2 ≤ r.rect

section
variable {r : FrameResult} {m : Mem}

/-- The detector leaves one of its four flags. -/
theorem detectFrame_rect (cenCoord coordinate : List FrameRect) :
    0 ≤ (detectFrame cenCoord coordinate).rect ∧ (detectFrame cenCoord coordinate).rect ≤ 3 := by
  have hleave : ∀ flag result maxRect, 0 ≤ flag ∧ flag ≤ 3 →
      0 ≤ (leaveResult flag result maxRect).rect ∧ (leaveResult flag result maxRect).rect ≤ 3 := by
    intro flag result maxRect hflag
    unfold leaveResult
    dsimp only
    split
    · exact hflag
    · decide
  unfold detectFrame
  split
  · split
    · exact hleave _ _ _ (by decide)
    · exact hleave _ _ _ (by decide)
  · dsimp only
    split
    · exact hleave _ _ _ (by decide)
    · exact hleave _ _ _ (by decide)

theorem word_lt (x : Int32) : word x < 2 ^ 32 := x.toUInt32.toNat_lt

/-- The names of the attributes. -/
def detectNames : List String :=
  ["Detected", "AvgTop", "AvgLeft", "AvgBottom", "AvgRight", "MaxTop", "MaxLeft", "MaxBottom", "MaxRight"]

theorem detectNames_spec : ∀ n ∈ detectNames, ((ascii n).length ≤ 15 ∧ 0 ∉ ascii n) ∧
    ∀ n' ∈ detectNames, ascii n = ascii n' → n = n' := by decide

theorem FrameResult.attrs_spec : ∀ p ∈ r.attrs, p.1 ∈ detectNames ∧ p.2 < 2 ^ 32 := by
  unfold attrs
  split
  · simp only [List.forall_mem_cons, List.not_mem_nil, false_imp_iff, implies_true, and_true, word_lt]
    decide
  · simp only [List.forall_mem_cons, List.not_mem_nil, false_imp_iff, implies_true, and_true]
    decide

theorem eventVid2df_fits (r : FrameResult) : (eventVid2df r).Fits := by
  refine OutMsg.fits_ints rfl ?_ fun p hp => ?_
  · unfold FrameResult.attrs
    split <;> simp
  · obtain ⟨hname, hvalue⟩ := r.attrs_spec p hp
    exact ⟨(detectNames_spec _ hname).1.1, (detectNames_spec _ hname).1.2, hvalue⟩

/-- An attribute with a number is read into the field of its name. -/
theorem Attr.readInto_int {n name : String} {value field : Nat} (hn : n ∈ detectNames) (hname : name ∈ detectNames)
    (hv : value < 2 ^ 32) : (AttrArg.int (ascii n) value).attr.readInto name field = if n = name then value else field := by
  have hcstr : cstr (AttrArg.int (ascii n) value).attr.name = ascii n := cstr_eq (detectNames_spec n hn).1.2
  have hnamed : (AttrArg.int (ascii n) value).attr.named name = true ↔ n = name := by
    rw [Attr.named_iff, hcstr]
    exact ⟨(detectNames_spec n hn).2 name hname, congrArg ascii⟩
  have hlen : (printX value).length ≤ 8 := length_printX_le (by simpa using hv) (by decide)
  have hread : (char2hex (printX value) field).1 = value := by
    have hnum := hexNum_printX hv
    rw [hexNum, char2hex, if_neg (by omega)] at hnum
    rw [char2hex, if_neg (by omega)]
    exact hnum
  unfold readInto
  rw [show (AttrArg.int (ascii n) value).attr.value = printX value from rfl, hread]
  exact if_congr hnamed rfl rfl

/-- The fields of the result after the attributes of numbers. -/
theorem DetectResult.foldl_set (l : List (String × Nat)) (hl : ∀ p ∈ l, p.1 ∈ detectNames ∧ p.2 < 2 ^ 32) (d : DetectResult) :
    (l.map fun p => (AttrArg.int (ascii p.1) p.2).attr).foldl DetectResult.set d =
      l.foldl (fun d p => DetectResult.mk
        (if p.1 = "Detected" then p.2 else d.detected) (if p.1 = "AvgTop" then p.2 else d.avgTop)
        (if p.1 = "AvgLeft" then p.2 else d.avgLeft) (if p.1 = "AvgBottom" then p.2 else d.avgBottom)
        (if p.1 = "AvgRight" then p.2 else d.avgRight) (if p.1 = "MaxTop" then p.2 else d.maxTop)
        (if p.1 = "MaxLeft" then p.2 else d.maxLeft) (if p.1 = "MaxBottom" then p.2 else d.maxBottom)
        (if p.1 = "MaxRight" then p.2 else d.maxRight)) d := by
  induction l generalizing d with
  | nil => rfl
  | cons p l ih =>
    rw [List.forall_mem_cons] at hl
    have hread : ∀ name ∈ detectNames, ∀ field, (AttrArg.int (ascii p.1) p.2).attr.readInto name field =
        if p.1 = name then p.2 else field := fun name hname field => Attr.readInto_int hl.1.1 hname hl.1.2
    rw [List.map_cons, List.foldl_cons, List.foldl_cons, ih hl.2]
    congr 1
    rw [DetectResult.set, hread "Detected" (by simp [detectNames]), hread "AvgTop" (by simp [detectNames]),
      hread "AvgLeft" (by simp [detectNames]), hread "AvgBottom" (by simp [detectNames]),
      hread "AvgRight" (by simp [detectNames]), hread "MaxTop" (by simp [detectNames]),
      hread "MaxLeft" (by simp [detectNames]), hread "MaxBottom" (by simp [detectNames]),
      hread "MaxRight" (by simp [detectNames])]

/-- The consumer finds the coordinates, and 1 for every positive flag. -/
theorem getDetectResult_eventVid2df (h : (eventVid2df r).Carried m) :
    getDetectResult m = if 0 < r.rect then r.detected 1 else .zero := by
  have hattrs := (h.decode (eventVid2df_fits r)).2
  rw [eventVid2df, List.map_map] at hattrs
  rw [getDetectResult, hattrs]
  refine (DetectResult.foldl_set r.attrs r.attrs_spec .zero).trans ?_
  unfold FrameResult.attrs
  by_cases hpos : 0 < r.rect
  · rw [if_pos hpos, if_pos hpos]
    simp [FrameResult.detected, DetectResult.zero]
  · rw [if_neg hpos, if_neg hpos]
    simp [DetectResult.zero]

end

/-- The detection survives exactly when the flag is 0 or 1: the event says only that something was detected. -/
theorem detection_survives_iff (r : FrameResult) (hflag : 0 ≤ r.rect ∧ r.rect ≤ 3) :
    ((∃ m, (eventVid2df r).Carried m) ∧ ∀ m, (eventVid2df r).Carried m → r.Survives (getDetectResult m)) ↔ r.rect ≤ 1 := by
  have hvalues : r.rect = 0 ∨ r.rect = 1 ∨ r.rect = 2 ∨ r.rect = 3 := by
    simp only [Int32.le_iff_toInt_le, ← Int32.toInt_inj] at hflag ⊢
    obtain ⟨hlow, hhigh⟩ := hflag
    change 0 ≤ r.rect.toInt at hlow
    change r.rect.toInt ≤ 3 at hhigh
    change r.rect.toInt = 0 ∨ r.rect.toInt = 1 ∨ r.rect.toInt = 2 ∨ r.rect.toInt = 3
    omega
  have hbuilt := (eventVid2df_fits r).carried
  rw [and_iff_right hbuilt]
  constructor
  · intro hall
    obtain ⟨m, hm⟩ := hbuilt
    have hmotion := (hall m hm).motion
    rw [getDetectResult_eventVid2df hm] at hmotion
    rcases hvalues with h | h | h | h
    · rw [h]
      decide
    · rw [h]
      decide
    · rw [h, if_pos (by decide)] at hmotion
      exact absurd (hmotion.mpr (by decide)) (show ¬2 ≤ 1 by decide)
    · rw [h, if_pos (by decide)] at hmotion
      exact absurd (hmotion.mpr (by decide)) (show ¬2 ≤ 1 by decide)
  · intro hle m hm
    rw [getDetectResult_eventVid2df hm]
    rcases hvalues with h | h | h | h
    · rw [h, if_neg (by decide)]
      exact ⟨fun hpos => by rw [h] at hpos; exact absurd hpos (by decide), fun _ => rfl,
        iff_of_false (fun hne => hne rfl) (fun hne => hne h), iff_of_false (by decide) (by rw [h]; decide)⟩
    · rw [h, if_pos (by decide)]
      exact ⟨fun _ => by rw [h]; rfl, fun hzero => by rw [h] at hzero; exact absurd hzero (by decide),
        iff_of_true (show 1 ≠ 0 by decide) (by rw [h]; decide), iff_of_false (show ¬2 ≤ 1 by decide) (by rw [h]; decide)⟩
    · rw [h] at hle
      exact absurd hle (by decide)
    · rw [h] at hle
      exact absurd hle (by decide)

theorem detection_survives_iff_centrist : (∃ m, (eventVid2df (detectFrame [⟨30, 0, 82, 72⟩] [])).Carried m) ∧
    ∀ m, (eventVid2df (detectFrame [⟨30, 0, 82, 72⟩] [])).Carried m →
      (detectFrame [⟨30, 0, 82, 72⟩] []).Survives (getDetectResult m) :=
  (detection_survives_iff (detectFrame [⟨30, 0, 82, 72⟩] []) (by decide)).mpr (by decide)

/-- An object that moves. The detector flags it with 2, and no consumer sees motion. -/
theorem detection_lost_moving : (detectFrame [] [⟨30, 0, 60, 144⟩]).rect = 2 ∧
    ∃ m, (eventVid2df (detectFrame [] [⟨30, 0, 60, 144⟩])).Carried m ∧ (getDetectResult m).detected = 1 ∧
      ¬(detectFrame [] [⟨30, 0, 60, 144⟩]).Survives (getDetectResult m) := by
  have hrect : (detectFrame [] [⟨30, 0, 60, 144⟩]).rect = 2 := by decide
  obtain ⟨m, hm⟩ := (eventVid2df_fits (detectFrame [] [⟨30, 0, 60, 144⟩])).carried
  have hdetected : (getDetectResult m).detected = 1 := by
    rw [getDetectResult_eventVid2df hm, hrect, if_pos (by decide)]
    rfl
  refine ⟨hrect, m, hm, hdetected, fun h => ?_⟩
  have htwo := h.motion.mpr (by rw [hrect]; decide)
  rw [hdetected] at htwo
  exact absurd htwo (by decide)

end Recbcsrv
