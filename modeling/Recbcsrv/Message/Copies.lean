import Recbcsrv.Message.Encode
import Recbcsrv.Message.GetMsg

/-! The copies that receiving and handling a message makes to buffers of a fixed size. The handlers differ in
    the sizes of their local buffers and in what they copy on from there; none of them compares a size with
    that of the destination. For each there is the list of its copies, and the messages for which all fit. -/

namespace Recbcsrv
open Bytes

/-- The characters of a string constant. -/
def ascii (s : String) : List UInt8 := s.toList.map fun c => UInt8.ofNat c.toNat

def commandServer : List UInt8 := ascii "ffff"
def commandGetdataAck : List UInt8 := ascii "0011"
def commandBypRsp : List UInt8 := ascii "0013"
def commandEventUci : List UInt8 := ascii "0027"

/-- A copy: the number of bytes written and the size of the destination. -/
structure Copy where
  size : Nat
  room : Nat
  deriving DecidableEq, Repr

/-- The copy stays inside its destination. -/
def Copy.Fits (c : Copy) : Prop := c.size ≤ c.room

namespace Attr

/-- `!strcmp(attr_name, s)`. -/
def named (a : Attr) (s : String) : Bool := cstr a.name = ascii s

/-- `!strcmp(attr_value, s)`. -/
def valued (a : Attr) (s : String) : Bool := cstr a.value = ascii s

/-- The copies of name and value with their terminators to `attr_name[16]` and `attr_value[room]`. -/
def copies (room : Nat) (a : Attr) : List Copy := [⟨a.name.length + 1, 16⟩, ⟨a.value.length + 1, room⟩]

end Attr

/-! ### The camera commands of the instructor -/

/-- The strings of a `t_internal_abbr_cmd` that the functions below set. -/
structure InternalAbbrCmd where
  cmd : List UInt8
  para1 : List UInt8
  intvalue : List UInt8

/-- What tells the functions apart that turn a camera command of the instructor into an internal one: the name of
    the attribute, the abbreviation for its value, and whether the value itself is kept in `intvalue`. -/
structure CamVerb where
  attr : String
  abbr : Attr → Option String
  keeps : Bool
  abbr_le : ∀ a s, abbr a = some s → (ascii s).length ≤ 4

/-- The body of the loop for the attribute `Camera`. -/
def InternalAbbrCmd.setCamera (c : InternalAbbrCmd) (a : Attr) : InternalAbbrCmd :=
  if a.named "Camera" then
    if a.valued "TeacherSpecial" then { c with para1 := ascii "T" }
    else if a.valued "StudentSpecial" then { c with para1 := ascii "S" }
    else c
  else c

namespace CamVerb

/-- The body of the loop for the attribute of the command. -/
def setAbbr (v : CamVerb) (c : InternalAbbrCmd) (a : Attr) : InternalAbbrCmd :=
  if a.named v.attr then
    { c with
      cmd := ((v.abbr a).map ascii).getD c.cmd
      intvalue := if v.keeps then cstr a.value else c.intvalue }
  else c

/-- The body of the loop: what attribute `a` sets in `internal_cam_cmd`. -/
def set (v : CamVerb) (c : InternalAbbrCmd) (a : Attr) : InternalAbbrCmd := (v.setAbbr c a).setCamera a

/-- The copies to the fields `cmd[8]`, `intvalue[4]` and `para1[2]` for attribute `a`. -/
def attrCopies (v : CamVerb) (a : Attr) : List Copy :=
  (if a.named v.attr then
    ((v.abbr a).map fun s => (⟨(ascii s).length + 1, 8⟩ : Copy)).toList ++ if v.keeps then [⟨strlen a.value + 1, 4⟩] else []
  else []) ++
  if a.named "Camera" && (a.valued "TeacherSpecial" || a.valued "StudentSpecial") then [⟨2, 2⟩] else []

/-- The copies of `cmd` and `para1` to `abbr_name[16]`, and of the attribute with that name to the new message. -/
def lastCopies (v : CamVerb) (c : InternalAbbrCmd) : List Copy :=
  let value := if v.keeps then c.intvalue else printX 0
  [⟨c.cmd.length + 1, 16⟩, ⟨c.cmd.length + c.para1.length + 1, 16⟩,
    ⟨packetHeaderSize + 5 + c.cmd.length + c.para1.length + value.length + 1, cmdBufsize⟩]

/-- The copies of the whole function. -/
def copies (v : CamVerb) (m : Mem) : List Copy :=
  if msgCmd m = commandServer then
    ((attrsOf m).flatMap fun a => a.copies 256 ++ v.attrCopies a) ++
      v.lastCopies ((attrsOf m).foldl v.set ⟨[], [], []⟩)
  else []

end CamVerb

def camZoom2internal : CamVerb where
  attr := "CamZoom"
  abbr a := if a.valued "Wide" then some "CZW" else if a.valued "Tele" then some "CZT" else none
  keeps := false
  abbr_le a s h := by
    split at h
    · cases h
      decide
    · split at h <;> cases h
      decide

def camPanTilt2internal : CamVerb where
  attr := "CamPanTilt"
  abbr a := if a.valued "Left" then some "CPTL" else if a.valued "Right" then some "CPTR"
    else if a.valued "Up" then some "CPTU" else if a.valued "Down" then some "CPTD" else none
  keeps := false
  abbr_le a s h := by
    repeat' split at h
    all_goals cases h
    all_goals decide

def camMemoryInq2internal : CamVerb where
  attr := "CamMemoryInq"
  abbr _ := some "CMI"
  keeps := true
  abbr_le a s h := by
    cases h
    decide

def camMemorySave2internal : CamVerb where
  attr := "CamMemorySave"
  abbr _ := some "CMS"
  keeps := true
  abbr_le a s h := by
    cases h
    decide

/-! ### The handlers -/

/-- `InstructorMsgHandle`: the copies of its loop, of name and value into the message for `SwitchVideo` and
    `SetRecordMode`, and of the camera functions, each of which walks over the whole message again. -/
def instructorMsgHandleCopies (m : Mem) : List Copy :=
  if msgCmd m = commandServer then
    (attrsOf m).flatMap fun a =>
      a.copies 256 ++
      (if a.named "SwitchVideo" || a.named "SetRecordMode" then
        [⟨packetHeaderSize + 5 + strlen a.name + strlen a.value + 1, cmdBufsize⟩] else []) ++
      [camZoom2internal, camPanTilt2internal, camMemoryInq2internal, camMemorySave2internal].flatMap fun v =>
        if a.named v.attr then v.copies m else []
  else []

/-- `sizeof(t_frame_info)`. -/
def sizeofFrameInfo : Nat := 28

/-- The loop of the device handlers for the commands with frames: `Info` goes to a `t_frame_info`. -/
def frameLoopCopies (m : Mem) : List Copy :=
  (attrsOf m).flatMap fun a => a.copies 1536 ++ if a.named "Info" then [⟨a.value.length, sizeofFrameInfo⟩] else []

/-- The loop of the device handlers for `COMMAND_BYP_RSP`. -/
def bypassLoopCopies (m : Mem) : List Copy := (attrsOf m).flatMap fun a => a.copies 1536

/-- `DevAMsgHandle`. -/
def devAMsgHandleCopies (m : Mem) : List Copy :=
  (if msgCmd m = commandEventUci then frameLoopCopies m else []) ++
    (if msgCmd m = commandGetdataAck then frameLoopCopies m else []) ++
    if msgCmd m = commandBypRsp then bypassLoopCopies m else []

/-- `DevBCMsgHandle`. -/
def devBCMsgHandleCopies (m : Mem) : List Copy :=
  (if msgCmd m = commandEventUci then frameLoopCopies m else []) ++
    (if msgCmd m = commandGetdataAck then frameLoopCopies m else []) ++
    if msgCmd m = commandBypRsp then bypassLoopCopies m else []

/-- `DevDMsgHandle`. -/
def devDMsgHandleCopies (m : Mem) : List Copy :=
  (if msgCmd m = commandEventUci then frameLoopCopies m else []) ++
    if msgCmd m = commandGetdataAck then frameLoopCopies m else []

/-- `GetDetectResult`. -/
def getDetectResultCopies (m : Mem) : List Copy := (attrsOf m).flatMap fun a => a.copies 16

/-- `GetVGAResult`. -/
def getVGAResultCopies (m : Mem) : List Copy := (attrsOf m).flatMap fun a => a.copies 2

/-- `GetAuxResult`. -/
def getAuxResultCopies (m : Mem) : List Copy := (attrsOf m).flatMap fun a => a.copies 16

/-- How many bytes the calls of `recv` in `getMsg` ask for. -/
def getMsgAsks (buf : Mem) (s : Sock) (i : Schedule) : List Nat :=
  let s := s.arrive i.more1
  let (ret, buf) := s.peek buf i.peek1
  if ret ≤ 0 then [10]
  else if ret < 10 then [10]
  else
    let len := hexNum (load buf 6 dataLenSize) + packetHeaderSize
    let s := s.arrive i.more2
    let (ret, _) := s.peek buf i.peek2
    if asUnsigned ret < len then [10, len] else [10, len, len]

/-! ### What fits -/

section
variable {m : Mem} {a : Attr} {v : CamVerb} {c : InternalAbbrCmd} {room : Nat}

theorem forall_mem_ite_nil {α : Type} {q : α → Prop} {b : Prop} [Decidable b] {l : List α} :
    (∀ x ∈ (if b then l else []), q x) ↔ (b → ∀ x ∈ l, q x) := by
  split <;> simp_all

theorem strlen_le (s : List UInt8) : strlen s ≤ s.length := (List.takeWhile_prefix _).length_le

theorem Attr.copies_fit : (∀ c ∈ a.copies room, c.Fits) ↔ a.name.length ≤ 15 ∧ a.value.length < room := by
  simp only [copies, List.forall_mem_cons, Copy.Fits, List.not_mem_nil, false_imp_iff, implies_true, and_true]
  omega

/-- The attributes of a well-formed message lie inside its body. -/
theorem attrsOf_size (h : WellFormedBody (load m packetHeaderSize (msgLen m))) (ha : a ∈ attrsOf m) :
    5 + a.name.length + a.value.length ≤ msgLen m := by
  obtain ⟨attrs, hs, hbody⟩ := h
  have hlen : (attrs.flatMap RawAttr.bytes).length = msgLen m := by rw [← hbody, length_load]
  have hmem : ∀ r ∈ attrs, r.bytes.length ≤ msgLen m := fun r hr => by
    rw [← hlen, List.length_flatMap]
    exact List.single_le_sum (fun _ _ => Nat.zero_le _) _ (List.mem_map_of_mem hr)
  rw [attrsOf_of_attrs attrs hs hbody] at ha
  obtain ⟨r, hr, rfl⟩ := List.mem_map.mp ha
  have := hmem r hr
  rwa [RawAttr.length_bytes (hs r hr)] at this

/-- The strings of an internal camera command fit their fields and the name of the new attribute. -/
structure InternalAbbrCmd.Short (c : InternalAbbrCmd) : Prop where
  cmd : c.cmd.length ≤ 4
  para1 : c.para1.length ≤ 1
  intvalue : c.intvalue.length ≤ 255

theorem InternalAbbrCmd.Short.setCamera (hc : c.Short) : (c.setCamera a).Short := by
  unfold InternalAbbrCmd.setCamera
  split
  · split
    · exact ⟨hc.cmd, show (ascii "T").length ≤ 1 by decide, hc.intvalue⟩
    · split
      · exact ⟨hc.cmd, show (ascii "S").length ≤ 1 by decide, hc.intvalue⟩
      · exact hc
  · exact hc

theorem CamVerb.setAbbr_short (hc : c.Short) (ha : a.value.length < 256) : (v.setAbbr c a).Short := by
  unfold setAbbr
  split
  · refine ⟨?_, hc.para1, ?_⟩
    · cases hs : v.abbr a with
      | none => exact hc.cmd
      | some s => exact v.abbr_le a s hs
    · have hle : (cstr a.value).length ≤ a.value.length := strlen_le a.value
      dsimp only
      split
      · omega
      · exact hc.intvalue
  · exact hc

theorem CamVerb.set_short (hc : c.Short) (ha : a.value.length < 256) : (v.set c a).Short := (setAbbr_short hc ha).setCamera

theorem CamVerb.foldl_short (hc : c.Short) (attrs : List Attr) (ha : ∀ a ∈ attrs, a.value.length < 256) :
    (attrs.foldl v.set c).Short := by
  induction attrs generalizing c with
  | nil => exact hc
  | cons a attrs ih =>
    rw [List.forall_mem_cons] at ha
    exact ih (set_short hc ha.1) ha.2

theorem CamVerb.lastCopies_fit (hc : c.Short) : ∀ x ∈ v.lastCopies c, x.Fits := by
  obtain ⟨h1, h2, h3⟩ := hc
  have hb : cmdBufsize = 1536 := rfl
  have hp : packetHeaderSize = 10 := rfl
  have hvalue : (if v.keeps then c.intvalue else printX 0).length ≤ 255 := by
    split
    · exact h3
    · decide
  simp only [lastCopies, List.forall_mem_cons, Copy.Fits, List.not_mem_nil, false_imp_iff, implies_true, and_true]
  omega

theorem CamVerb.attrCopies_fit :
    (∀ x ∈ v.attrCopies a, x.Fits) ↔ (v.keeps = true → a.named v.attr = true → strlen a.value ≤ 3) := by
  have habbr : ∀ x ∈ ((v.abbr a).map fun s => (⟨(ascii s).length + 1, 8⟩ : Copy)).toList, x.Fits := fun x hx => by
    obtain ⟨s, hs, rfl⟩ := Option.map_eq_some_iff.mp (Option.mem_toList.mp hx)
    have := v.abbr_le a s hs
    simp only [Copy.Fits]
    omega
  have hpara : ∀ x ∈ (if a.named "Camera" && (a.valued "TeacherSpecial" || a.valued "StudentSpecial") then
      [(⟨2, 2⟩ : Copy)] else []), x.Fits := fun x hx => by
    split at hx
    · rw [List.mem_singleton.mp hx]
      exact Nat.le_refl 2
    · cases hx
  rw [attrCopies, List.forall_mem_append, and_iff_left hpara]
  cases hn : a.named v.attr with
  | false => simp
  | true =>
    rw [if_pos rfl, List.forall_mem_append, and_iff_right habbr]
    cases v.keeps <;> simp [Copy.Fits]
    omega

/-- All copies of a camera function fit if and only if the strings of the message fit its buffers. -/
theorem CamVerb.copies_fit :
    (∀ x ∈ v.copies m, x.Fits) ↔ (msgCmd m = commandServer → ∀ a ∈ attrsOf m,
      a.name.length ≤ 15 ∧ a.value.length < 256 ∧ (v.keeps = true → a.named v.attr = true → strlen a.value ≤ 3)) := by
  unfold copies
  split
  · next hcmd =>
    rw [List.forall_mem_append, List.forall_mem_flatMap]
    simp only [List.forall_mem_append, Attr.copies_fit, attrCopies_fit, hcmd, true_imp_iff, and_assoc]
    refine and_iff_left_of_imp fun h => lastCopies_fit (foldl_short ⟨?_, ?_, ?_⟩ _ fun a ha => (h a ha).2.1)
    all_goals exact Nat.zero_le _
  · next hcmd => simp [hcmd]

/-- All copies of `InstructorMsgHandle` fit if and only if the strings of the message fit its buffers and those of
    the camera functions. -/
theorem instructorMsgHandleCopies_fit :
    (∀ x ∈ instructorMsgHandleCopies m, x.Fits) ↔ (msgCmd m = commandServer → ∀ a ∈ attrsOf m,
      a.name.length ≤ 15 ∧ a.value.length < 256 ∧
        ((a.named "CamMemoryInq" = true ∨ a.named "CamMemorySave" = true) → strlen a.value ≤ 3)) := by
  unfold instructorMsgHandleCopies
  split
  · next hcmd =>
    simp only [List.forall_mem_flatMap, List.forall_mem_append, Attr.copies_fit, hcmd, true_imp_iff]
    constructor
    · intro h a ha
      obtain ⟨⟨hbase, -⟩, hcam⟩ := h a ha
      refine ⟨hbase.1, hbase.2, fun hnamed => ?_⟩
      -- The camera function of the name copies the value of this attribute too.
      rcases hnamed with hn | hn
      · have hn' : a.named camMemoryInq2internal.attr = true := hn
        have hv := hcam camMemoryInq2internal (by simp)
        rw [if_pos hn', CamVerb.copies_fit] at hv
        exact (hv hcmd a ha).2.2 rfl hn'
      · have hn' : a.named camMemorySave2internal.attr = true := hn
        have hv := hcam camMemorySave2internal (by simp)
        rw [if_pos hn', CamVerb.copies_fit] at hv
        exact (hv hcmd a ha).2.2 rfl hn'
    · intro h a ha
      obtain ⟨hname, hvalue, -⟩ := h a ha
      refine ⟨⟨⟨hname, hvalue⟩, fun x hx => ?_⟩, fun v hv x hx => ?_⟩
      · have hn := strlen_le a.name
        have hl := strlen_le a.value
        have hb : cmdBufsize = 1536 := rfl
        have hp : packetHeaderSize = 10 := rfl
        split at hx
        · rw [List.mem_singleton.mp hx]
          simp only [Copy.Fits]
          omega
        · cases hx
      · split at hx
        · refine CamVerb.copies_fit.mpr (fun _ b hb => ⟨(h b hb).1, (h b hb).2.1, fun hk hbn => ?_⟩) x hx
          simp only [List.mem_cons, List.not_mem_nil, or_false] at hv
          rcases hv with rfl | rfl | rfl | rfl
          · cases hk
          · cases hk
          · exact (h b hb).2.2 (.inl hbn)
          · exact (h b hb).2.2 (.inr hbn)
        · cases hx
  · next hcmd => simp [hcmd]

theorem bypassLoopCopies_fit (h : WellFormedBody (load m packetHeaderSize (msgLen m)))
    (hle : packetHeaderSize + msgLen m ≤ cmdBufsize) :
    (∀ x ∈ bypassLoopCopies m, x.Fits) ↔ ∀ a ∈ attrsOf m, a.name.length ≤ 15 := by
  have hb : cmdBufsize = 1536 := rfl
  simp only [bypassLoopCopies, List.forall_mem_flatMap, Attr.copies_fit]
  refine forall₂_congr fun a ha => and_iff_left ?_
  have := attrsOf_size h ha
  omega

theorem frameLoopCopies_fit (h : WellFormedBody (load m packetHeaderSize (msgLen m)))
    (hle : packetHeaderSize + msgLen m ≤ cmdBufsize) :
    (∀ x ∈ frameLoopCopies m, x.Fits) ↔
      ∀ a ∈ attrsOf m, a.name.length ≤ 15 ∧ (a.named "Info" = true → a.value.length ≤ sizeofFrameInfo) := by
  have hb : cmdBufsize = 1536 := rfl
  simp only [frameLoopCopies, List.forall_mem_flatMap, List.forall_mem_append, Attr.copies_fit]
  refine forall₂_congr fun a ha => ?_
  have hvalue : a.value.length < 1536 := by
    have := attrsOf_size h ha
    omega
  rw [and_iff_left hvalue]
  refine and_congr_right fun _ => ?_
  cases a.named "Info" <;> simp [Copy.Fits]

/-- All copies of a device handler that knows the frame commands, and of one that also knows the bypass command. -/
theorem devDMsgHandleCopies_fit (h : WellFormedBody (load m packetHeaderSize (msgLen m)))
    (hle : packetHeaderSize + msgLen m ≤ cmdBufsize) :
    (∀ x ∈ devDMsgHandleCopies m, x.Fits) ↔
      (msgCmd m = commandEventUci ∨ msgCmd m = commandGetdataAck → ∀ a ∈ attrsOf m,
        a.name.length ≤ 15 ∧ (a.named "Info" = true → a.value.length ≤ sizeofFrameInfo)) := by
  rw [← frameLoopCopies_fit h hle, devDMsgHandleCopies, List.forall_mem_append, forall_mem_ite_nil, forall_mem_ite_nil,
    or_imp]

theorem devAMsgHandleCopies_fit (h : WellFormedBody (load m packetHeaderSize (msgLen m)))
    (hle : packetHeaderSize + msgLen m ≤ cmdBufsize) :
    (∀ x ∈ devAMsgHandleCopies m, x.Fits) ↔
      (msgCmd m = commandEventUci ∨ msgCmd m = commandGetdataAck → ∀ a ∈ attrsOf m,
        a.name.length ≤ 15 ∧ (a.named "Info" = true → a.value.length ≤ sizeofFrameInfo)) ∧
      (msgCmd m = commandBypRsp → ∀ a ∈ attrsOf m, a.name.length ≤ 15) := by
  have hbyp : (∀ x ∈ (if msgCmd m = commandBypRsp then bypassLoopCopies m else []), x.Fits) ↔
      (msgCmd m = commandBypRsp → ∀ a ∈ attrsOf m, a.name.length ≤ 15) := by
    rw [← bypassLoopCopies_fit h hle, forall_mem_ite_nil]
  rw [← devDMsgHandleCopies_fit h hle, ← hbyp, ← List.forall_mem_append]
  rfl

/-- The loops of `GetDetectResult`, `GetVGAResult` and `GetAuxResult`. -/
theorem flatMap_copies_fit : (∀ x ∈ (attrsOf m).flatMap (Attr.copies room), x.Fits) ↔
    ∀ a ∈ attrsOf m, a.name.length ≤ 15 ∧ a.value.length < room := by
  simp only [List.forall_mem_flatMap, Attr.copies_fit]

/-- `getMsg` asks for more than the buffer holds only when the length in the header is too large. -/
theorem getMsgAsks_fit {buf : Mem} {s : Sock} {i : Schedule} (hl : i.Legal s) :
    (∀ n ∈ getMsgAsks buf s i, n ≤ cmdBufsize) ↔ (i.peek1 = .got 10 → s.msgSize ≤ cmdBufsize) := by
  by_cases h1 : i.peek1 = .got 10
  · have hfirst := hl.first
    rw [h1] at hfirst
    have hsize := Sock.msgSize_of_header buf hfirst.2.2
    have hasks : getMsgAsks buf s i = [10, s.msgSize] ∨ getMsgAsks buf s i = [10, s.msgSize, s.msgSize] := by
      simp only [getMsgAsks, h1, Sock.peek_got, hsize]
      rw [if_neg (by decide), if_neg (by decide)]
      split
      · exact .inl rfl
      · exact .inr rfl
    rcases hasks with h | h <;> simp [h, h1, cmdBufsize]
  · refine iff_of_true (fun n hn => ?_) fun h => absurd h h1
    have hasks : getMsgAsks buf s i = [10] := by
      cases hp : i.peek1 with
      | closed => simp [getMsgAsks, hp, Sock.peek, Peek.ret]
      | error => simp [getMsgAsks, hp, Sock.peek, Peek.ret]
      | got n =>
        have hlegal := hl.first
        rw [hp] at hlegal h1
        have hn : n < 10 := Nat.lt_of_le_of_ne hlegal.2.1 fun e => h1 (e ▸ rfl)
        have hpos := hlegal.1
        simp only [getMsgAsks, hp, Sock.peek_got]
        rw [if_neg (by omega), if_pos (by omega)]
    rw [hasks] at hn
    rw [List.mem_singleton.mp hn]
    decide

end

/-- The receiving side checks no size. `getMsg` asks for no more than the buffer holds exactly when the length in the
    header is at most `CMD_BUFSIZE`, and the copies of a handler fit exactly when the strings of the message fit the
    buffers of that handler. -/
theorem copies_fit_iff :
    (∀ buf (s : Sock) (i : Schedule), i.Legal s →
      ((∀ n ∈ getMsgAsks buf s i, n ≤ cmdBufsize) ↔ (i.peek1 = .got 10 → s.msgSize ≤ cmdBufsize))) ∧
    ∀ m, WellFormedBody (load m packetHeaderSize (msgLen m)) →
      ((∀ x ∈ instructorMsgHandleCopies m, x.Fits) ↔ (msgCmd m = commandServer → ∀ a ∈ attrsOf m,
        a.name.length ≤ 15 ∧ a.value.length < 256 ∧
          ((a.named "CamMemoryInq" = true ∨ a.named "CamMemorySave" = true) → strlen a.value ≤ 3))) ∧
      (∀ v ∈ [camZoom2internal, camPanTilt2internal, camMemoryInq2internal, camMemorySave2internal],
        ((∀ x ∈ v.copies m, x.Fits) ↔ (msgCmd m = commandServer → ∀ a ∈ attrsOf m,
          a.name.length ≤ 15 ∧ a.value.length < 256 ∧ (v.keeps = true → a.named v.attr = true → strlen a.value ≤ 3)))) ∧
      (packetHeaderSize + msgLen m ≤ cmdBufsize →
        (∀ copies ∈ [devAMsgHandleCopies, devBCMsgHandleCopies],
          ((∀ x ∈ copies m, x.Fits) ↔
            (msgCmd m = commandEventUci ∨ msgCmd m = commandGetdataAck → ∀ a ∈ attrsOf m,
              a.name.length ≤ 15 ∧ (a.named "Info" = true → a.value.length ≤ sizeofFrameInfo)) ∧
            (msgCmd m = commandBypRsp → ∀ a ∈ attrsOf m, a.name.length ≤ 15))) ∧
        ((∀ x ∈ devDMsgHandleCopies m, x.Fits) ↔
          (msgCmd m = commandEventUci ∨ msgCmd m = commandGetdataAck → ∀ a ∈ attrsOf m,
            a.name.length ≤ 15 ∧ (a.named "Info" = true → a.value.length ≤ sizeofFrameInfo)))) ∧
      (∀ copies ∈ [getDetectResultCopies, getAuxResultCopies],
        ((∀ x ∈ copies m, x.Fits) ↔ ∀ a ∈ attrsOf m, a.name.length ≤ 15 ∧ a.value.length < 16)) ∧
      ((∀ x ∈ getVGAResultCopies m, x.Fits) ↔ ∀ a ∈ attrsOf m, a.name.length ≤ 15 ∧ a.value.length < 2) := by
  refine ⟨fun buf s i => getMsgAsks_fit, fun m h =>
    ⟨instructorMsgHandleCopies_fit, fun v _ => v.copies_fit, fun hle => ⟨fun copies hc => ?_, ?_⟩, fun copies hc => ?_, ?_⟩⟩
  · simp only [List.mem_cons, List.not_mem_nil, or_false] at hc
    rcases hc with rfl | rfl <;> exact devAMsgHandleCopies_fit h hle
  · exact devDMsgHandleCopies_fit h hle
  · simp only [List.mem_cons, List.not_mem_nil, or_false] at hc
    rcases hc with rfl | rfl <;> exact flatMap_copies_fit
  · exact flatMap_copies_fit

/-- An attribute `A` whose value has `n` characters, of which there are `digits`. -/
def oneAttr (digits : String) (n : Nat) : RawAttr :=
  ⟨0x31, ascii digits, ascii "A", List.replicate n 0x30⟩

/-- The message of the instructor with that attribute, whose body has the length `len`. -/
def oneAttrMsg (len digits : String) (n : Nat) : Mem :=
  store (fun _ => 0) 0 (ascii "01" ++ commandServer ++ ascii len ++ (oneAttr digits n).bytes)

theorem copies_fit_iff_shortValue : ∀ x ∈ instructorMsgHandleCopies (oneAttrMsg "0007" "0001" 1), x.Fits := by
  refine ((copies_fit_iff.2 (oneAttrMsg "0007" "0001" 1) ⟨[oneAttr "0001" 1], ?_, by decide +kernel⟩).1).mpr fun _ => ?_
  · intro a ha
    rw [List.mem_singleton.mp ha]
    exact ⟨by decide +kernel, by decide +kernel, by decide +kernel⟩
  · rw [show attrsOf (oneAttrMsg "0007" "0001" 1) = [⟨[0x41], [0x30]⟩] by decide +kernel]
    intro a ha
    rw [List.mem_singleton.mp ha]
    exact ⟨by decide, by decide, by decide +kernel⟩

/-- The value of 300 characters lies inside the message, and is longer than the buffer for it. -/
theorem copies_overflow_longValue : packetHeaderSize + msgLen (oneAttrMsg "0132" "012c" 300) ≤ cmdBufsize ∧
    WellFormedBody (load (oneAttrMsg "0132" "012c" 300) packetHeaderSize (msgLen (oneAttrMsg "0132" "012c" 300))) ∧
    ∃ x ∈ instructorMsgHandleCopies (oneAttrMsg "0132" "012c" 300), ¬x.Fits := by
  have hsized : ∀ a ∈ [oneAttr "012c" 300], a.Sized := by
    intro a ha
    rw [List.mem_singleton.mp ha]
    exact ⟨by decide +kernel, by decide +kernel, by decide +kernel⟩
  have hlen : msgLen (oneAttrMsg "0132" "012c" 300) = 306 := by decide +kernel
  have hbody : load (oneAttrMsg "0132" "012c" 300) packetHeaderSize (msgLen (oneAttrMsg "0132" "012c" 300)) =
      [oneAttr "012c" 300].flatMap RawAttr.bytes := by
    rw [hlen, ← Nat.zero_add packetHeaderSize]
    exact (load_store_within (by decide +kernel)).trans (by decide +kernel)
  refine ⟨by decide +kernel, ⟨_, hsized, hbody⟩, ⟨301, 256⟩, ?_, by simp [Copy.Fits]⟩
  unfold instructorMsgHandleCopies
  rw [if_pos (by decide +kernel), attrsOf_of_attrs _ hsized hbody]
  decide +kernel

end Recbcsrv
