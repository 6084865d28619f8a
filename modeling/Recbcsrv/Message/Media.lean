import Recbcsrv.Message.Packets

/-! Media in packets. The boards send what they encode as `COMMAND_GETDATA_ACK` messages, each with a packet of a frame;
    `DevAMsgHandle`, `DevBCMsgHandle` and `DevDMsgHandle` put the frames together again, on one FIFO for the sound and one
    for each of two video streams. The messages of the three streams come over one connection, in any order. -/

namespace Recbcsrv
open Bytes Datafifo

def frmtypeVideoIdr : UInt32 := 0
def frmtypeVideoI : UInt32 := 1
def frmtypeVideoP : UInt32 := 2
def frmtypeAudio : UInt32 := 3

/-! ### The handlers -/

/-- Where a frame goes: to `Audio_producer_fifo`, to `Vstore_producer_fifo` or `V1_producer_fifo`, or to
    `Vlive_producer_fifo` or `V2_producer_fifo`. -/
inductive MediaFifo where
  | audio
  | first
  | second
  deriving DecidableEq, Repr

/-- The flags of a packet. -/
def mediaFlags (info : TFrameInfo) : Nat :=
  if info.frameType = frmtypeAudio then
    frameFlagAudiofrm |||
      ((if info.packetNum = 0 then
        frameFlagNewframe ||| (if info.frameNum = 0 then frameFlagFirstframe else 0) else 0) |||
      (if info.packetNum = info.pktsInFrame - 1 then frameFlagFrameend else 0))
  else
    (if info.packetNum = 0 then
      frameFlagNewframe ||| ((if info.frameNum = 0 then frameFlagFirstframe else 0) |||
        (if info.frameType = frmtypeVideoI ∨ info.frameType = frmtypeVideoIdr then frameFlagKeyframe else 0)) else 0) |||
    (if info.packetNum = info.pktsInFrame - 1 then frameFlagFrameend else 0)

/-- The FIFO of a packet in `DevAMsgHandle`. -/
def fifoA (flags : Nat) (channel : Int32) : Option MediaFifo :=
  if hasFlag flags frameFlagAudiofrm then some .audio else if channel = 0 then some .first else some .second

/-- The FIFO of a packet in `DevBCMsgHandle` and `DevDMsgHandle`, which have none for sound. -/
def fifoBCD (flags : Nat) (channel : Int32) : Option MediaFifo :=
  if hasFlag flags frameFlagAudiofrm then none else if channel ≠ 0 then some .second else some .first

namespace UciLoop

/-- The call for the attribute `Data`. -/
def addMedia (fifo : Nat → Int32 → Option MediaFifo) (s : UciLoop) (a : Attr) : List (MediaFifo × Call) :=
  if a.named "Data" then
    let info : TFrameInfo := .ofBytes s.frameInfo
    (fifo (mediaFlags info) s.channel).toList.map (·, ⟨a.value, mediaFlags info, info.timeStamp.toInt32.toInt⟩)
  else []

/-- The body of the loop for `COMMAND_GETDATA_ACK`; its variables are those of the loop for pictures. -/
def onMedia (fifo : Nat → Int32 → Option MediaFifo) (s : UciLoop) (a : Attr) : UciLoop × List (MediaFifo × Call) :=
  let s := (s.setChannel a).setInfo a
  (s, s.addMedia fifo a)

/-- The loop over the attributes, with the calls that it makes. -/
def runMedia (fifo : Nat → Int32 → Option MediaFifo) : UciLoop → List Attr → List (MediaFifo × Call)
  | _, [] => []
  | s, a :: attrs => (s.onMedia fifo a).2 ++ (s.onMedia fifo a).1.runMedia fifo attrs

end UciLoop

/-- The handlers for `COMMAND_GETDATA_ACK`, with what `frame_info` holds at the beginning. -/
def handleGetdataAck (fifo : Nat → Int32 → Option MediaFifo) (frameInfo : List UInt8) (m : Mem) : List (MediaFifo × Call) :=
  if msgCmd m = commandGetdataAck then UciLoop.runMedia fifo ⟨0, frameInfo⟩ (attrsOf m) else []

def devAMsgHandleGetdataAck : List UInt8 → Mem → List (MediaFifo × Call) := handleGetdataAck fifoA
def devBCMsgHandleGetdataAck : List UInt8 → Mem → List (MediaFifo × Call) := handleGetdataAck fifoBCD
def devDMsgHandleGetdataAck : List UInt8 → Mem → List (MediaFifo × Call) := handleGetdataAck fifoBCD

/-- The three handlers. -/
inductive DevHandler where
  | devA
  | devBC
  | devD
  deriving DecidableEq, Repr

namespace DevHandler

def getdataAck : DevHandler → List UInt8 → Mem → List (MediaFifo × Call)
  | devA => devAMsgHandleGetdataAck
  | devBC => devBCMsgHandleGetdataAck
  | devD => devDMsgHandleGetdataAck

/-- The calls for the messages in items, one after the other, whatever `frame_info` holds at the beginning of each. -/
def handleAll (k : DevHandler) (items : List (List UInt8 × Mem)) : List (MediaFifo × Call) :=
  items.flatMap fun x => k.getdataAck x.1 x.2

/-- The FIFOs that the handler has. -/
def Has : DevHandler → MediaFifo → Prop
  | devA, _ => True
  | _, .audio => False
  | _, _ => True

end DevHandler

/-- The calls of a handler on one of the FIFOs. -/
def mediaTo (i : MediaFifo) (l : List (MediaFifo × Call)) : List Call := l.filterMap fun x => if x.1 = i then some x.2 else none

@[simp] theorem mediaTo_nil {i : MediaFifo} : mediaTo i [] = [] := rfl

@[simp] theorem mediaTo_singleton {i j : MediaFifo} {call : Call} : mediaTo i [(j, call)] = if j = i then [call] else [] := by
  rw [mediaTo, List.filterMap_cons]
  split <;> simp_all

theorem mediaTo_append {i : MediaFifo} {l l' : List (MediaFifo × Call)} : mediaTo i (l ++ l') = mediaTo i l ++ mediaTo i l' :=
  List.filterMap_append

/-! ### What the boards send -/

/-- A frame that a board has encoded, and the pieces in which it sends the frame. -/
structure MediaFrame where
  frameType : UInt32
  frameNum : UInt32
  frameRate : UInt32
  timeStamp : UInt32
  pieces : List (List UInt8)
  ne : pieces ≠ []
  lt : pieces.length < 2 ^ 32

namespace MediaFrame

def bytes (f : MediaFrame) : List UInt8 := f.pieces.flatten

/-- The packets from the `n`th one on. -/
def packetsFrom (f : MediaFrame) (n : Nat) : List (List UInt8) → List Packet
  | [] => []
  | data :: l =>
    ⟨⟨f.frameType, .ofNat f.bytes.length, f.frameNum, .ofNat n, f.frameRate, f.timeStamp, .ofNat f.pieces.length⟩, data⟩ ::
      f.packetsFrom (n + 1) l

def packets (f : MediaFrame) : List Packet := f.packetsFrom 0 f.pieces

/-- The frame in a FIFO: a first frame has the number 0, a key frame is of the type I or IDR. -/
def frame (f : MediaFrame) : Frame where
  data := f.bytes
  len := f.bytes.length
  flags := (if f.frameNum = 0 then frameFlagFirstframe else 0) |||
    (if f.frameType = frmtypeVideoI ∨ f.frameType = frmtypeVideoIdr then frameFlagKeyframe else 0)
  timestamp := f.timeStamp.toInt32.toInt

end MediaFrame

/-- The attributes that the handlers look at. -/
def Attr.ofMedia (a : Attr) : Bool := a.named "StreamId" || a.named "Info" || a.named "Data"

/-- The `StreamId` of a stream. The sound may have any. -/
def MediaFifo.StreamId : MediaFifo → List UInt8 → Prop
  | audio, _ => True
  | first, v => cstr v = ascii "00"
  | second, v => cstr v ≠ ascii "00"

/-- A message with the packet. Other attributes may stand between those that the handlers look at, and `attr_name` and
    `attr_value` have room for the strings of each. -/
structure CarriesMedia (i : MediaFifo) (p : Packet) (m : Mem) : Prop where
  cmd : msgCmd m = commandGetdataAck
  short : ∀ a ∈ attrsOf m, a.name.length ≤ 15 ∧ a.value.length ≤ 1535
  attrs : ∃ v, i.StreamId v ∧
    (attrsOf m).filter Attr.ofMedia = [⟨ascii "StreamId", v⟩, ⟨ascii "Info", p.info.bytes⟩, ⟨ascii "Data", p.data⟩]

/-! ### A message -/

/-- All copies of the loop over the attributes stay inside their buffers. -/
theorem CarriesMedia.copies_fit {i : MediaFifo} {p : Packet} {m : Mem} (h : CarriesMedia i p m) :
    ∀ c ∈ frameLoopCopies m, c.Fits := by
  obtain ⟨v, -, hattrs⟩ := h.attrs
  intro c hc
  obtain ⟨a, ha, hc⟩ := List.mem_flatMap.mp hc
  rcases List.mem_append.mp hc with hc | hc
  · exact Attr.copies_fit.mpr ⟨(h.short a ha).1, Nat.lt_succ_of_le (h.short a ha).2⟩ c hc
  · rcases Bool.eq_false_or_eq_true (a.named "Info") with hinfo | hinfo
    · rw [if_pos hinfo, List.mem_singleton] at hc
      have hmem : a ∈ (attrsOf m).filter Attr.ofMedia :=
        List.mem_filter.mpr ⟨ha, by rw [Attr.ofMedia, hinfo, Bool.or_true, Bool.true_or]⟩
      rw [hattrs] at hmem
      simp only [List.mem_cons, List.not_mem_nil, or_false] at hmem
      rcases hmem with rfl | rfl | rfl
      · exact absurd hinfo (show ¬Attr.named ⟨ascii "StreamId", []⟩ "Info" = true by decide)
      · rw [hc]
        exact Nat.le_of_eq (TFrameInfo.length_bytes p.info)
      · exact absurd hinfo (show ¬Attr.named ⟨ascii "Data", []⟩ "Info" = true by decide)
    · rw [hinfo] at hc
      cases hc

/-- The call that the handlers make for a packet. -/
def Packet.mediaCall (p : Packet) : Call := ⟨p.data, mediaFlags p.info, p.info.timeStamp.toInt32.toInt⟩

namespace UciLoop
variable {fifo : Nat → Int32 → Option MediaFifo} {s : UciLoop} {channel : Int32} {frameInfo v : List UInt8} {p : Packet}

/-- Other attributes change nothing. -/
theorem runMedia_filter (attrs : List Attr) : s.runMedia fifo attrs = s.runMedia fifo (attrs.filter Attr.ofMedia) := by
  induction attrs generalizing s with
  | nil => rfl
  | cons a attrs ih =>
    by_cases ha : a.ofMedia
    · rw [List.filter_cons_of_pos ha, runMedia, runMedia, ih]
    · rw [List.filter_cons_of_neg ha, runMedia, ih]
      simp only [Attr.ofMedia, Bool.or_eq_true, not_or, Bool.not_eq_true] at ha
      simp only [onMedia, addMedia, setChannel, setInfo, ha, Bool.false_eq_true, if_false, List.nil_append]

theorem runMedia_packet : runMedia fifo ⟨channel, frameInfo⟩
    [⟨ascii "StreamId", v⟩, ⟨ascii "Info", p.info.bytes⟩, ⟨ascii "Data", p.data⟩] =
      (fifo (mediaFlags p.info) (if cstr v = ascii "00" then 0 else 1)).toList.map (·, p.mediaCall) := by
  have hstream : onMedia fifo ⟨channel, frameInfo⟩ ⟨ascii "StreamId", v⟩ =
      (⟨if cstr v = ascii "00" then 0 else 1, frameInfo⟩, []) := by
    have hset : setChannel ⟨channel, frameInfo⟩ ⟨ascii "StreamId", v⟩ =
        ⟨if Attr.valued ⟨ascii "StreamId", v⟩ "00" then 0 else 1, frameInfo⟩ := rfl
    simp only [onMedia, hset, Attr.valued, decide_eq_true_eq]
    rfl
  have hinfo : ∀ c, onMedia fifo ⟨c, frameInfo⟩ ⟨ascii "Info", p.info.bytes⟩ =
      (⟨c, p.info.bytes ++ frameInfo.drop sizeofFrameInfo⟩, []) := fun c => rfl
  have hdata : ∀ c l, onMedia fifo ⟨c, l⟩ ⟨ascii "Data", p.data⟩ = (⟨c, l⟩, addMedia fifo ⟨c, l⟩ ⟨ascii "Data", p.data⟩) :=
    fun c l => rfl
  have hadd : ∀ c l, addMedia fifo ⟨c, l⟩ ⟨ascii "Data", p.data⟩ = (fifo (mediaFlags (.ofBytes l)) c).toList.map
      (·, ⟨p.data, mediaFlags (.ofBytes l), (TFrameInfo.ofBytes l).timeStamp.toInt32.toInt⟩) := fun c l => rfl
  simp only [runMedia, hstream, hinfo, hdata, hadd, TFrameInfo.ofBytes_bytes, List.nil_append, List.append_nil]
  rfl

end UciLoop

/-- What the flags of a packet say. -/
structure FlagsOf (info : TFrameInfo) (flags : Nat) : Prop where
  audio : hasFlag flags frameFlagAudiofrm = decide (info.frameType = frmtypeAudio)
  new : hasFlag flags frameFlagNewframe = decide (info.packetNum = 0)
  ends : hasFlag flags frameFlagFrameend = decide (info.packetNum = info.pktsInFrame - 1)
  first : info.packetNum = 0 → hasFlag flags frameFlagFirstframe = decide (info.frameNum = 0)
  key : info.packetNum = 0 → hasFlag flags frameFlagKeyframe = decide (info.frameType = frmtypeVideoI ∨ info.frameType = frmtypeVideoIdr)

/-- The flags for the answers to the tests. -/
def flagBits (audio new first key ends : Bool) : Nat :=
  if audio then
    frameFlagAudiofrm ||| ((if new then frameFlagNewframe ||| (if first then frameFlagFirstframe else 0) else 0) |||
      (if ends then frameFlagFrameend else 0))
  else
    (if new then frameFlagNewframe ||| ((if first then frameFlagFirstframe else 0) ||| (if key then frameFlagKeyframe else 0)) else 0) |||
      (if ends then frameFlagFrameend else 0)

theorem flagBits_spec : ∀ audio new first key ends, (audio = true → key = false) →
    hasFlag (flagBits audio new first key ends) frameFlagAudiofrm = audio ∧
    hasFlag (flagBits audio new first key ends) frameFlagNewframe = new ∧
    hasFlag (flagBits audio new first key ends) frameFlagFrameend = ends ∧
    (new = true → hasFlag (flagBits audio new first key ends) frameFlagFirstframe = first) ∧
    (new = true → hasFlag (flagBits audio new first key ends) frameFlagKeyframe = key) := by
  decide

theorem flagsOf_mediaFlags (info : TFrameInfo) : FlagsOf info (mediaFlags info) := by
  have hbits : mediaFlags info = flagBits (info.frameType = frmtypeAudio) (info.packetNum = 0) (info.frameNum = 0)
      (info.frameType = frmtypeVideoI ∨ info.frameType = frmtypeVideoIdr) (info.packetNum = info.pktsInFrame - 1) := by
    simp only [mediaFlags, flagBits, decide_eq_true_eq]
  have hkey : decide (info.frameType = frmtypeAudio) = true →
      decide (info.frameType = frmtypeVideoI ∨ info.frameType = frmtypeVideoIdr) = false := fun h => by
    rw [of_decide_eq_true h]
    decide
  obtain ⟨haudio, hnew, hend, hfirst, hkeyframe⟩ := flagBits_spec (info.frameType = frmtypeAudio) (info.packetNum = 0)
    (info.frameNum = 0) (info.frameType = frmtypeVideoI ∨ info.frameType = frmtypeVideoIdr)
    (info.packetNum = info.pktsInFrame - 1) hkey
  rw [hbits]
  exact ⟨haudio, hnew, hend, fun h => hfirst (decide_eq_true h), fun h => hkeyframe (decide_eq_true h)⟩

namespace DevHandler
variable {k : DevHandler} {i : MediaFifo} {p : Packet} {m : Mem} {frameInfo : List UInt8}

/-- The FIFO that a handler finds for a packet. -/
def fifo : DevHandler → Nat → Int32 → Option MediaFifo
  | devA => fifoA
  | _ => fifoBCD

theorem getdataAck_eq (k : DevHandler) : k.getdataAck = handleGetdataAck k.fifo := by
  cases k <;> rfl

instance (k : DevHandler) (i : MediaFifo) : Decidable (k.Has i) := by
  unfold Has
  split <;> infer_instance

/-- The packets of a stream go to its FIFO, if the handler has it. -/
theorem fifo_eq {v : List UInt8} (hv : i.StreamId v) (haudio : p.info.frameType = frmtypeAudio ↔ i = .audio) :
    k.fifo (mediaFlags p.info) (if cstr v = ascii "00" then 0 else 1) = if k.Has i then some i else none := by
  have hflag := (flagsOf_mediaFlags p.info).audio
  simp only [haudio] at hflag
  cases i with
  | audio =>
    rw [show decide (MediaFifo.audio = .audio) = true from rfl] at hflag
    cases k <;> simp [fifo, fifoA, fifoBCD, hflag, Has]
  | first =>
    rw [show decide (MediaFifo.first = .audio) = false from rfl] at hflag
    have hv' : cstr v = ascii "00" := hv
    cases k <;> simp [fifo, fifoA, fifoBCD, hflag, Has, hv']
  | second =>
    rw [show decide (MediaFifo.second = .audio) = false from rfl] at hflag
    have hv' : cstr v ≠ ascii "00" := hv
    cases k <;> simp [fifo, fifoA, fifoBCD, hflag, Has, hv']

theorem getdataAck_packet (h : CarriesMedia i p m) (haudio : p.info.frameType = frmtypeAudio ↔ i = .audio) (frameInfo : List UInt8) :
    k.getdataAck frameInfo m = if k.Has i then [(i, p.mediaCall)] else [] := by
  obtain ⟨v, hv, hattrs⟩ := h.attrs
  rw [getdataAck_eq, handleGetdataAck, if_pos h.cmd, UciLoop.runMedia_filter, hattrs, UciLoop.runMedia_packet, fifo_eq hv haudio]
  split <;> rfl

end DevHandler

/-! ### The frames -/

namespace MediaFrame
variable {f : MediaFrame} {n : Nat} {l : List (List UInt8)}

theorem mem_packetsFrom {p : Packet} (h : p ∈ f.packetsFrom n l) : p.info.frameType = f.frameType := by
  induction l generalizing n with
  | nil => cases h
  | cons data l ih =>
    rcases List.mem_cons.mp h with rfl | h
    · rfl
    · exact ih h

theorem data_packetsFrom : ((f.packetsFrom n l).map Packet.mediaCall).flatMap Call.data = l.flatten := by
  induction l generalizing n with
  | nil => rfl
  | cons data l ih =>
    rw [packetsFrom, List.map_cons, List.flatMap_cons, ih, List.flatten_cons]
    rfl

/-- The calls for the packets bring the frame. -/
theorem brought_packetsFrom (hl : l ≠ []) (hn : n + l.length = f.pieces.length) :
    Assembly.Brought (n = 0) ((f.packetsFrom n l).map Packet.mediaCall) := by
  induction l generalizing n with
  | nil => exact absurd rfl hl
  | cons data l ih =>
    have hlt := f.lt
    rw [List.length_cons] at hn
    have hflags := flagsOf_mediaFlags
      ⟨f.frameType, .ofNat f.bytes.length, f.frameNum, .ofNat n, f.frameRate, f.timeStamp, .ofNat f.pieces.length⟩
    have hzero : UInt32.ofNat n = 0 ↔ n = 0 := by
      rw [← UInt32.toNat_inj, toNat_ofNat_of_lt (by omega)]
      rfl
    have hone : (1 : UInt32).toNat = 1 := rfl
    have hcount : (UInt32.ofNat f.pieces.length).toNat = f.pieces.length := toNat_ofNat_of_lt hlt
    have hlast : UInt32.ofNat n = UInt32.ofNat f.pieces.length - 1 ↔ l = [] := by
      rw [← UInt32.toNat_inj, UInt32.toNat_sub_of_le _ _ (by rw [UInt32.le_iff_toNat_le]; omega), toNat_ofNat_of_lt (by omega), hcount,
        hone, ← List.length_eq_zero_iff]
      omega
    have hempty : ((f.packetsFrom (n + 1) l).map Packet.mediaCall).isEmpty = decide (l = []) := by
      cases l <;> simp [packetsFrom]
    refine ⟨?_, ?_, fun hne => ?_⟩
    · have hnew := hflags.new
      simp only [hzero] at hnew
      exact hnew
    · have hends := hflags.ends
      simp only [hlast] at hends
      rw [hempty]
      exact hends
    · have hl' : l ≠ [] := by
        rintro rfl
        exact hne rfl
      have hrest := ih hl' (n := n + 1) (by omega)
      rwa [show decide (n + 1 = 0) = false from rfl] at hrest

theorem opened_eq (f : MediaFrame) (data : List UInt8) : Call.opened (Packet.mediaCall
    ⟨⟨f.frameType, .ofNat f.bytes.length, f.frameNum, .ofNat 0, f.frameRate, f.timeStamp, .ofNat f.pieces.length⟩, data⟩) =
      { f.frame with data := [], len := 0 } := by
  have hflags := flagsOf_mediaFlags
    ⟨f.frameType, .ofNat f.bytes.length, f.frameNum, .ofNat 0, f.frameRate, f.timeStamp, .ofNat f.pieces.length⟩
  have hfirst := hflags.first rfl
  have hkey := hflags.key rfl
  simp only [Call.opened, Mark.all, List.foldl_cons, List.foldl_nil, Mark.onFrame, Packet.mediaCall, hfirst, hkey, frame,
    decide_eq_true_eq]
  split <;> split <;> simp

/-- The calls of the packets of a frame complete it. -/
theorem foldl_packets {maxlen : Nat} (hfit : f.bytes.length ≤ maxlen) (done : List Frame) :
    (f.packets.map Packet.mediaCall).foldl (Assembly.dataAdd maxlen) ⟨done, none⟩ = ⟨done ++ [f.frame], none⟩ ∧
      Assembly.Continues maxlen ⟨done, none⟩ (f.packets.map Packet.mediaCall) := by
  have hbrought := brought_packetsFrom f.ne (n := 0) (Nat.zero_add _)
  have hdata : (f.packets.map Packet.mediaCall).flatMap Call.data = f.bytes := data_packetsFrom
  obtain ⟨data, l, hpieces⟩ := List.exists_cons_of_ne_nil f.ne
  rw [packets, hpieces, packetsFrom, List.map_cons] at hdata ⊢
  rw [hpieces, packetsFrom, List.map_cons] at hbrought
  rw [← hdata] at hfit
  obtain ⟨hfold, hcont⟩ := Assembly.foldl_brought hbrought hfit done
  have hframe : Frame.grow { f.frame with data := [], len := 0 } f.bytes = f.frame := by
    simp only [Frame.grow, List.nil_append, Nat.zero_add, frame]
  rw [hdata, opened_eq, hframe] at hfold
  exact ⟨hfold, hcont⟩

end MediaFrame

/-! ### Messages with packets -/

/-- A `StreamId` for the messages of a stream. -/
def streamIdOf : MediaFifo → List UInt8
  | .second => ascii "01"
  | _ => ascii "00"

/-- A message with the packet, whose first attribute the handlers do not look at. -/
def mediaMsg (x : MediaFifo × Packet) : OutMsg :=
  ⟨commandGetdataAck, [.bin (ascii "Type") (ascii "AV"), .bin (ascii "StreamId") (streamIdOf x.1),
    .bin (ascii "Info") x.2.info.bytes, .bin (ascii "Data") x.2.data]⟩

theorem mediaMsg_fits {x : MediaFifo × Packet} (hp : x.2.data.length ≤ 1024) : (mediaMsg x).Fits where
  cmd := rfl
  valid := by
    simp only [mediaMsg, List.forall_mem_cons, AttrArg.Valid]
    exact ⟨trivial, trivial, trivial, trivial, fun a ha => by cases ha⟩
  short := by
    simp only [mediaMsg, List.forall_mem_cons]
    refine ⟨⟨?_, ?_⟩, ⟨?_, ?_⟩, ⟨?_, ?_⟩, ⟨?_, ?_⟩, fun a ha => by cases ha⟩ <;> simp only [AttrArg.attr] <;> decide
  size := by
    have hid : (streamIdOf x.1).length = 2 := by cases x.1 <;> rfl
    have hnames : (ascii "Type").length = 4 ∧ (ascii "AV").length = 2 ∧ (ascii "StreamId").length = 8 ∧
      (ascii "Info").length = 4 ∧ (ascii "Data").length = 4 := by decide
    simp only [mediaMsg, List.map_cons, List.map_nil, List.sum_cons, List.sum_nil, AttrArg.size, AttrArg.attr, hnames, hid,
      TFrameInfo.length_bytes, sizeofFrameInfo, show packetHeaderSize = 10 from rfl, show cmdBufsize = 1536 from rfl]
    omega

/-- The message carries the packet. -/
theorem mediaMsg_carries {x : MediaFifo × Packet} (hp : x.2.data.length ≤ 1024) {m : Mem} (ho : (mediaMsg x).Carried m) :
    CarriesMedia x.1 x.2 m := by
  obtain ⟨hcmd, hattrs⟩ := ho.decode (mediaMsg_fits hp)
  have hlengths : (ascii "Type").length ≤ 15 ∧ (ascii "AV").length ≤ 1535 ∧ (ascii "StreamId").length ≤ 15 ∧
    (ascii "Info").length ≤ 15 ∧ (ascii "Data").length ≤ 15 := by decide
  have hid : (streamIdOf x.1).length ≤ 1535 := by cases x.1 <;> decide
  have hinfo : x.2.info.bytes.length ≤ 1535 := by
    rw [TFrameInfo.length_bytes]
    decide
  refine ⟨hcmd, ?_, streamIdOf x.1, ?_, ?_⟩
  · rw [hattrs]
    simp only [mediaMsg, List.map_cons, List.map_nil, AttrArg.attr, List.forall_mem_cons]
    exact ⟨⟨hlengths.1, hlengths.2.1⟩, ⟨hlengths.2.2.1, hid⟩, ⟨hlengths.2.2.2.1, hinfo⟩, ⟨hlengths.2.2.2.2, by omega⟩,
      List.forall_mem_nil _⟩
  · cases x.1
    · trivial
    · exact show cstr (ascii "00") = ascii "00" by decide
    · exact show cstr (ascii "01") ≠ ascii "00" by decide
  · have hnames : ∀ value, Attr.ofMedia ⟨ascii "Type", value⟩ = false ∧ Attr.ofMedia ⟨ascii "StreamId", value⟩ = true ∧
        Attr.ofMedia ⟨ascii "Info", value⟩ = true ∧ Attr.ofMedia ⟨ascii "Data", value⟩ = true := fun value =>
      show Attr.ofMedia ⟨ascii "Type", []⟩ = false ∧ Attr.ofMedia ⟨ascii "StreamId", []⟩ = true ∧
        Attr.ofMedia ⟨ascii "Info", []⟩ = true ∧ Attr.ofMedia ⟨ascii "Data", []⟩ = true by decide
    rw [hattrs]
    simp only [mediaMsg, List.map_cons, List.map_nil, AttrArg.attr]
    rw [List.filter_cons_of_neg (by simp [hnames]), List.filter_cons_of_pos (hnames _).2.1, List.filter_cons_of_pos (hnames _).2.2.1,
      List.filter_cons_of_pos (hnames _).2.2.2, List.filter_nil]

/-- The message in an item. -/
def mediaItem (x : MediaFifo × Packet) : List UInt8 × Mem :=
  ([], store (fun _ => 0) 0 ((((mediaMsg x).send2df ⟨fun _ => 0, 0, 0, 0, 0, 0⟩).map Call.data).getD []))

theorem mediaItem_carries {x : MediaFifo × Packet} (hp : x.2.data.length ≤ 1024) : CarriesMedia x.1 x.2 (mediaItem x).2 := by
  obtain ⟨call, hcall, -, hheld⟩ := (mediaMsg_fits hp).send2df ⟨fun _ => 0, 0, 0, 0, 0, 0⟩
  refine mediaMsg_carries hp (hheld _ ?_)
  rw [mediaItem, hcall]
  exact load_store_self ..

theorem forall₂_mediaItem {packets : List (MediaFifo × Packet)} (hp : ∀ x ∈ packets, x.2.data.length ≤ 1024) :
    List.Forall₂ (fun x item => CarriesMedia x.1 x.2 item.2) packets (packets.map mediaItem) := by
  rw [List.forall₂_map_right_iff, List.forall₂_same]
  exact fun x hx => mediaItem_carries (hp x hx)

/-! ### Streams -/

/-- The calls of a handler for the packets of three streams: those of one of them go to its FIFO, in their order. -/
theorem DevHandler.mediaTo_handleAll {k : DevHandler} {fs : MediaFifo → List MediaFrame} {packets : List (MediaFifo × Packet)}
    {items : List (List UInt8 × Mem)} (haudio : ∀ i, ∀ f ∈ fs i, (f.frameType = frmtypeAudio ↔ i = .audio))
    (hpackets : ∀ i, packets.filterMap (fun x => if x.1 = i then some x.2 else none) = (fs i).flatMap MediaFrame.packets)
    (hitems : List.Forall₂ (fun x item => CarriesMedia x.1 x.2 item.2) packets items) (i : MediaFifo) :
    mediaTo i (k.handleAll items) =
      if k.Has i then (fs i).flatMap fun f => f.packets.map Packet.mediaCall else [] := by
  have hkind : ∀ x ∈ packets, x.2.info.frameType = frmtypeAudio ↔ x.1 = .audio := fun x hx => by
    have hmem : x.2 ∈ (fs x.1).flatMap MediaFrame.packets := by
      rw [← hpackets]
      exact List.mem_filterMap.mpr ⟨x, hx, if_pos rfl⟩
    obtain ⟨f, hf, hp⟩ := List.mem_flatMap.mp hmem
    rw [MediaFrame.mem_packetsFrom hp]
    exact haudio x.1 f hf
  have hall : k.handleAll items = packets.flatMap fun x => if k.Has x.1 then [(x.1, x.2.mediaCall)] else [] := by
    clear hpackets
    induction hitems with
    | nil => rfl
    | @cons x item packets items hx _ ih =>
      rw [List.forall_mem_cons] at hkind
      rw [List.flatMap_cons, ← ih hkind.2, DevHandler.handleAll, List.flatMap_cons, DevHandler.getdataAck_packet hx hkind.1]
      rfl
  have hto : mediaTo i (k.handleAll items) =
      if k.Has i then (packets.filterMap fun x => if x.1 = i then some x.2 else none).map Packet.mediaCall else [] := by
    rw [hall]
    clear hall hpackets hkind hitems
    induction packets with
    | nil => split <;> rfl
    | cons x packets ih =>
      rw [List.flatMap_cons, mediaTo_append, ih]
      by_cases hx : x.1 = i
      · subst hx
        by_cases hk : k.Has x.1 <;> simp [hk]
      · by_cases hk : k.Has x.1 <;> simp [hk, hx]
  rw [hto, hpackets i, List.map_flatMap]

section
variable {P C : Type} [DecidableEq P] [DecidableEq C] [Fintype C]

/-- The packets of the frames of three streams, in any order that keeps that of each stream, in messages to one handler. The
    calls of the handler on each of its FIFOs complete the frames of its stream, in every run in which the thread makes them,
    and it makes no others. -/
theorem media_reassemble (psize pcnt : P → Nat) (csize ccnt : C → Nat) (chain : P → List C) (fifo : MediaFifo → P) (k : DevHandler)
    (fs : MediaFifo → List MediaFrame) (haudio : ∀ i, ∀ f ∈ fs i, (f.frameType = frmtypeAudio ↔ i = .audio))
    (hfit : ∀ i, ∀ f ∈ fs i, f.bytes.length ≤ psize (fifo i)) (packets : List (MediaFifo × Packet))
    (hpackets : ∀ i, packets.filterMap (fun x => if x.1 = i then some x.2 else none) = (fs i).flatMap MediaFrame.packets)
    (items : List (List UInt8 × Mem)) (hitems : List.Forall₂ (fun x item => CarriesMedia x.1 x.2 item.2) packets items) :
    ∀ i, (¬k.Has i → mediaTo i (k.handleAll items) = []) ∧
      (k.Has i → ∀ as s log, Exec.exec Sys.logged (Sys.start psize pcnt csize ccnt chain, []) as = some (s, log) →
        callsOf (fifo i) as <+: mediaTo i (k.handleAll items) →
          Reassembles s log as (fifo i) (mediaTo i (k.handleAll items)) ((fs i).map MediaFrame.frame)
            (callSteps (chain (fifo i)).length)) := by
  intro i
  have hto := DevHandler.mediaTo_handleAll (k := k) haudio hpackets hitems i
  refine ⟨fun hk => by rw [hto, if_neg hk], fun hk as s log h hcalls => ?_⟩
  rw [if_pos hk] at hto
  rw [hto] at hcalls ⊢
  obtain ⟨hfold, hcont⟩ := Assembly.foldl_flatMap MediaFrame.frame (fs i) [] fun f hf =>
    MediaFrame.foldl_packets (hfit i f hf)
  exact reassembles h hfold hcont hcalls

end

/-- A frame of sound and a key frame in two pieces. -/
def twoFrames : MediaFifo → List MediaFrame
  | .audio => [⟨frmtypeAudio, 0, 0, 40, [[1, 2]], by decide, by decide⟩]
  | .first => [⟨frmtypeVideoI, 3, 25, 41, [[7], [8, 9]], by decide, by decide⟩]
  | .second => []

/-- The packets, that of the sound between those of the picture. -/
def threePackets : List (MediaFifo × Packet) :=
  (((twoFrames .first).flatMap MediaFrame.packets).take 1).map (.first, ·) ++
    ((twoFrames .audio).flatMap MediaFrame.packets).map (.audio, ·) ++
    (((twoFrames .first).flatMap MediaFrame.packets).drop 1).map (.first, ·)

/-- The calls for them, each run to its end. -/
def threeCalls : List (Action MediaFifo Unit) :=
  (threePackets.zip [10, 12, 7]).flatMap fun x => .dataAdd x.1.1 x.1.2.mediaCall :: List.replicate x.2 (.producer x.1.1)

theorem media_reassemble_threeCalls : ∃ s log,
    Exec.exec Sys.logged (Sys.start (fun _ => 3) (fun _ => 1) (fun _ => 0) (fun _ => 0) fun _ => [], []) threeCalls =
      some (s, log) ∧
    completedBy .audio log = [⟨[1, 2], 2, frameFlagFirstframe, 40⟩] ∧ completedBy .first log = [⟨[7, 8, 9], 3, frameFlagKeyframe, 41⟩] := by
  have hrun : (Exec.exec Sys.logged (Sys.start (fun _ => 3) (fun _ => 1) (fun _ => 0) (fun _ => 0) fun _ => [], [])
      threeCalls).any (fun r => r.1.ppc .audio = .idle ∧ r.1.ppc .first = .idle) = true := by
    decide +kernel
  obtain ⟨⟨s, log⟩, hs, hidle⟩ := (Option.any_eq_true ..).mp hrun
  simp only [decide_eq_true_eq] at hidle
  have hcalls : ∀ i, callsOf i threeCalls = mediaTo i (DevHandler.devA.handleAll (threePackets.map mediaItem)) := fun i => by
    cases i <;> decide +kernel
  have h := media_reassemble (fun _ => 3) (fun _ => 1) (fun _ => 0) (fun _ => 0) (fun _ => ([] : List Unit)) id .devA twoFrames
    (fun i => by cases i <;> decide) (fun i => by cases i <;> decide) threePackets (fun i => by cases i <;> rfl) _
    (forall₂_mediaItem (by decide))
  refine ⟨s, log, hs, ?_, ?_⟩
  · exact ((h .audio).2 trivial threeCalls s log hs (hcalls .audio ▸ List.prefix_rfl)).whole (hcalls .audio) hidle.1
  · exact ((h .first).2 trivial threeCalls s log hs (hcalls .first ▸ List.prefix_rfl)).whole (hcalls .first) hidle.2

end Recbcsrv
