import Recbcsrv.Datafifo.Assembly
import Recbcsrv.Graph.Wiring
import Recbcsrv.Lib.Interleave
import Recbcsrv.Message.Instructor

/-! Pictures in packets. `JPEGPacknSend2df` and `PIPPacknSend2df` cut a picture into messages of at most 1024 bytes of it,
    and `DevBCMsgHandle` puts the packets of a device's pictures together again, on one FIFO for each channel. -/

namespace Recbcsrv
open Bytes Datafifo

def commandEventJpeg : List UInt8 := ascii "0029"
def commandEventPip : List UInt8 := ascii "0031"

def maxAvpktSize : UInt32 := 1024

structure TFrameInfo where
  frameType : UInt32
  frameLength : UInt32
  frameNum : UInt32
  packetNum : UInt32
  frameRate : UInt32
  timeStamp : UInt32
  pktsInFrame : UInt32
  deriving DecidableEq, Repr

namespace TFrameInfo

/-- The structure in memory. -/
def bytes (i : TFrameInfo) : List UInt8 :=
  [i.frameType, i.frameLength, i.frameNum, i.packetNum, i.frameRate, i.timeStamp, i.pktsInFrame].flatMap le32

/-- The structure that the bytes of one hold. -/
def ofBytes (l : List UInt8) : TFrameInfo where
  frameType := ofLe32 l
  frameLength := ofLe32 (l.drop 4)
  frameNum := ofLe32 (l.drop 8)
  packetNum := ofLe32 (l.drop 12)
  frameRate := ofLe32 (l.drop 16)
  timeStamp := ofLe32 (l.drop 20)
  pktsInFrame := ofLe32 (l.drop 24)

theorem length_bytes (i : TFrameInfo) : i.bytes.length = sizeofFrameInfo := rfl

theorem ofBytes_bytes (i : TFrameInfo) (l : List UInt8) : ofBytes (i.bytes ++ l) = i := by
  have h : ∀ (k : Nat) (n : UInt32) (m : List UInt8), (i.bytes ++ l).drop k = le32 n ++ m →
      ofLe32 ((i.bytes ++ l).drop k) = n := fun k n m hd => by rw [hd, ofLe32_le32]
  cases i with
  | mk a b c d e f g =>
    simp only [ofBytes, mk.injEq]
    exact ⟨h 0 a _ rfl, h 4 b _ rfl, h 8 c _ rfl, h 12 d _ rfl, h 16 e _ rfl, h 20 f _ rfl, h 24 g _ rfl⟩

end TFrameInfo

/-! ### Packing -/

/-- The picture that is packed: its bytes, and the number and the timestamp that the caller gives it. The length is an
    `int`. -/
structure Picture where
  buf : List UInt8
  frameNum : Int32
  timestamp : Int32
  pos : 0 < buf.length
  lt : buf.length < 2 ^ 31

/-- What the local variables hold that are not initialised. -/
structure Uninit where
  packetNum : UInt32
  frameRate : UInt32
  msg : Nat → TCmd

/-- The turn of the loop that sends a packet: the header and the bytes of the picture. -/
structure Packet where
  info : TFrameInfo
  data : List UInt8

/-- `frm_info` before the loop. -/
def Picture.frmInfo (f : Picture) (u : Uninit) : TFrameInfo :=
  let pkts : UInt32 := UInt32.ofNat (f.buf.length / 1024)
  let residual : UInt32 := UInt32.ofNat f.buf.length - maxAvpktSize * pkts
  { frameType := 0
    frameLength := UInt32.ofNat f.buf.length
    frameNum := f.frameNum.toUInt32
    packetNum := u.packetNum
    frameRate := u.frameRate
    timeStamp := f.timestamp.toUInt32
    pktsInFrame := if residual ≠ 0 then pkts + 1 else pkts }

/-- The loop over the packets, with `n` turns to go. -/
def packetLoop (info : TFrameInfo) : Nat → UInt32 → List UInt8 → UInt32 → List Packet
  | 0, _, _, _ => []
  | n + 1, i, ptr, residual =>
    let pktLen := if maxAvpktSize < residual then maxAvpktSize else residual
    ⟨{ info with packetNum := i }, ptr.take pktLen.toNat⟩ ::
      packetLoop info n (i + 1) (ptr.drop pktLen.toNat) (residual - pktLen)

def Picture.packets (f : Picture) (u : Uninit) : List Packet :=
  packetLoop (f.frmInfo u) (f.frmInfo u).pktsInFrame.toNat 0 f.buf (UInt32.ofNat f.buf.length)

/-- The message for a packet. -/
def Packet.msg (cmd : List UInt8) (channel : Int32) (p : Packet) : OutMsg :=
  ⟨cmd, [.int (ascii "StreamId") channel.toUInt32.toNat, .bin (ascii "Info") p.info.bytes, .bin (ascii "Data") p.data]⟩

/-- The message is built in `t` and added to a FIFO as one frame. -/
def OutMsg.send2df (t : TCmd) (o : OutMsg) : Option Call :=
  (buildMsg t o.cmd o.args).map fun t' =>
    ⟨load t'.fullbuf 0 (msgLen t'.fullbuf + packetHeaderSize), frameFlagNewframe ||| frameFlagFrameend, 0⟩

/-- The calls that add the messages of the packets to the FIFO. -/
def sendPackets (cmd : List UInt8) (channel : Int32) (msg : Nat → TCmd) : List Packet → Option (List Call)
  | [] => some []
  | p :: ps => do
    let call ← (p.msg cmd channel).send2df (msg p.info.packetNum.toNat)
    let calls ← sendPackets cmd channel msg ps
    some (call :: calls)

/-- `JPEGPacknSend2df`. There is no result when a message does not fit its buffer. -/
def jpegPacknSend2df (u : Uninit) (f : Picture) (channel : Int32) : Option (List Call) :=
  sendPackets commandEventJpeg channel u.msg (f.packets u)

def pipPacknSend2df (u : Uninit) (f : Picture) (channel : Int32) : Option (List Call) :=
  sendPackets commandEventPip channel u.msg (f.packets u)

/-- The two functions, which differ in the command. -/
inductive Packer where
  | jpeg
  | pip
  deriving DecidableEq, Repr

def Packer.cmd : Packer → List UInt8
  | jpeg => commandEventJpeg
  | pip => commandEventPip

def Packer.packnSend2df : Packer → Uninit → Picture → Int32 → Option (List Call)
  | jpeg => jpegPacknSend2df
  | pip => pipPacknSend2df

/-- A stream: the messages of one picture after the other. -/
def Packer.sendAll (k : Packer) (channel : Int32) (fs : List (Uninit × Picture)) : Option (List (List Call)) :=
  fs.mapM fun x => k.packnSend2df x.1 x.2 channel

/-! ### Putting together -/

/-- The FIFOs for the pictures of a device, `Img1_producer_fifo` and `Img2_producer_fifo`. -/
inductive ImgFifo where
  | img1
  | img2
  deriving DecidableEq, Repr

/-- The FIFO of a channel. -/
def imgFifo (channel : Int32) : ImgFifo := if channel ≠ 0 then .img2 else .img1

/-- The variables of the loop of `DevBCMsgHandle` for `COMMAND_EVENT_UCI`; `frameInfo` is in bytes. -/
structure UciLoop where
  channel : Int32
  frameInfo : List UInt8

/-- The flags of a packet. -/
def uciFlags (info : TFrameInfo) : Nat :=
  (if info.packetNum = 0 then
    frameFlagNewframe ||| (if info.frameNum = 0 then frameFlagFirstframe else 0) else 0) |||
  (if info.packetNum = info.pktsInFrame - 1 then frameFlagFrameend else 0)

namespace UciLoop

/-- The attribute `Info` is copied over the variable. -/
def setInfo (s : UciLoop) (a : Attr) : UciLoop :=
  if a.named "Info" then { s with frameInfo := a.value ++ s.frameInfo.drop a.value.length } else s

def setChannel (s : UciLoop) (a : Attr) : UciLoop :=
  if a.named "StreamId" then { s with channel := if a.valued "00" then 0 else 1 } else s

/-- The call for the attribute `Data`. -/
def addData (s : UciLoop) (a : Attr) : List (ImgFifo × Call) :=
  if a.named "Data" then [(imgFifo s.channel, ⟨a.value, uciFlags (.ofBytes s.frameInfo), 0⟩)] else []

/-- The body of the loop. -/
def onAttr (s : UciLoop) (a : Attr) : UciLoop × List (ImgFifo × Call) :=
  let s := (s.setInfo a).setChannel a
  (s, s.addData a)

/-- The loop over the attributes, with the calls that it makes. -/
def run : UciLoop → List Attr → UciLoop × List (ImgFifo × Call)
  | s, [] => (s, [])
  | s, a :: attrs => (((s.onAttr a).1.run attrs).1, (s.onAttr a).2 ++ ((s.onAttr a).1.run attrs).2)

end UciLoop

/-- `DevBCMsgHandle` for `COMMAND_EVENT_UCI`, with what `frame_info` holds at the beginning. -/
def devBCMsgHandleUci (frameInfo : List UInt8) (m : Mem) : List (ImgFifo × Call) :=
  (UciLoop.run ⟨0, frameInfo⟩ (attrsOf m)).2

/-- `Info` and `Data`. -/
def Attr.ofFrame (a : Attr) : Bool := a.named "Info" || a.named "Data"

/-- The calls for the attributes `Info` and `Data` of the messages in the items, each for its channel; `frame_info` keeps
    its value. -/
def feed (frameInfo : List UInt8) : List (Int32 × Mem) → List (ImgFifo × Call)
  | [] => []
  | (channel, m) :: items =>
    let r := UciLoop.run ⟨channel, frameInfo⟩ ((attrsOf m).filter Attr.ofFrame)
    r.2 ++ feed r.1.frameInfo items

/-! ### The loop over the packets -/

/-- The call that the handler makes for a packet. -/
def Packet.call (p : Packet) : Call := ⟨p.data, uciFlags p.info, 0⟩

section
variable {info : TFrameInfo} {n : Nat} {i residual : UInt32} {ptr : List UInt8}

theorem length_packetLoop : (packetLoop info n i ptr residual).length = n := by
  induction n generalizing i ptr residual with
  | zero => rfl
  | succ n ih => rw [packetLoop, List.length_cons, ih]

theorem pktLen_toNat : (if maxAvpktSize < residual then maxAvpktSize else residual).toNat = min 1024 residual.toNat := by
  have h : maxAvpktSize.toNat = 1024 := rfl
  split
  · next hlt =>
    rw [UInt32.lt_iff_toNat_lt, h] at hlt
    omega
  · next hle =>
    rw [UInt32.lt_iff_toNat_lt, h] at hle
    omega

theorem data_packetLoop_le : ∀ p ∈ packetLoop info n i ptr residual, p.data.length ≤ 1024 := by
  induction n generalizing i ptr residual with
  | zero => exact fun p hp => by cases hp
  | succ n ih =>
    rw [packetLoop, List.forall_mem_cons]
    refine ⟨?_, ih⟩
    rw [List.length_take, pktLen_toNat]
    omega

/-- The packets hold the bytes from `ptr` on, if there are turns enough. -/
theorem data_packetLoop (hres : residual.toNat = ptr.length) (hn : ptr.length ≤ n * 1024) :
    ((packetLoop info n i ptr residual).map Packet.data).flatten = ptr := by
  induction n generalizing i ptr residual with
  | zero => simp [packetLoop, List.eq_nil_of_length_eq_zero (Nat.le_zero.mp (by simpa using hn))]
  | succ n ih =>
    obtain ⟨k, hk⟩ : ∃ k, (if maxAvpktSize < residual then maxAvpktSize else residual) = k := ⟨_, rfl⟩
    have hlen : k.toNat = min 1024 residual.toNat := hk ▸ pktLen_toNat
    have hle : k ≤ residual := by
      rw [UInt32.le_iff_toNat_le]
      omega
    have hrest : (residual - k).toNat = (ptr.drop k.toNat).length := by
      rw [UInt32.toNat_sub_of_le _ _ hle, List.length_drop, hres]
    rw [packetLoop, hk, List.map_cons, List.flatten_cons, ih hrest (by rw [List.length_drop]; omega)]
    exact List.take_append_drop ..

theorem packetNum_packetLoop {k : Nat} {p : Packet} (hi : i.toNat + n < 2 ^ 32)
    (hp : (packetLoop info n i ptr residual)[k]? = some p) : p.info = { info with packetNum := UInt32.ofNat (i.toNat + k) } := by
  induction n generalizing i ptr residual k with
  | zero => cases hp
  | succ n ih =>
    rw [packetLoop] at hp
    cases k with
    | zero =>
      cases hp
      simp
    | succ k =>
      have hsucc : (i + 1).toNat = i.toNat + 1 := by
        rw [UInt32.toNat_add]
        exact Nat.mod_eq_of_lt (by have : (1 : UInt32).toNat = 1 := rfl; omega)
      rw [ih (by omega) hp, hsucc, Nat.add_right_comm, Nat.add_assoc]

/-- The calls for the packets are those that bring the picture in pieces. -/
theorem calls_packetLoop (hi : i.toNat + n = info.pktsInFrame.toNat) :
    (packetLoop info n i ptr residual).map Packet.call =
      Assembly.pieces (if i = 0 then Assembly.newFlags (info.frameNum = 0) else 0)
        ((packetLoop info n i ptr residual).map Packet.data) := by
  induction n generalizing i ptr residual with
  | zero => rfl
  | succ n ih =>
    have hlt := info.pktsInFrame.toNat_lt
    have hone : (1 : UInt32).toNat = 1 := rfl
    have hsucc : (i + 1).toNat = i.toNat + 1 := by
      rw [UInt32.toNat_add]
      exact Nat.mod_eq_of_lt (by omega)
    have hne : i + 1 ≠ 0 := fun h => by
      have := congrArg UInt32.toNat h
      rw [hsucc] at this
      cases this
    have hlast : (i = info.pktsInFrame - 1) ↔ n = 0 := by
      rw [← UInt32.toNat_inj, UInt32.toNat_sub_of_le _ _ (by rw [UInt32.le_iff_toNat_le]; omega)]
      omega
    have hempty : ∀ (j : UInt32) (l : List UInt8) (r : UInt32),
        ((packetLoop info n j l r).map Packet.data).isEmpty = decide (n = 0) := fun j l r => by
      cases n <;> simp [packetLoop]
    rw [packetLoop, List.map_cons, List.map_cons, ih (by omega), if_neg hne, Assembly.pieces, hempty]
    simp only [Packet.call, uciFlags, hlast, Assembly.newFlags, decide_eq_true_eq]

end

/-! ### The packets of a picture -/

theorem toNat_ofNat_of_lt {n : Nat} (h : n < 2 ^ 32) : (UInt32.ofNat n).toNat = n := by
  rw [UInt32.toNat_ofNat', Nat.mod_eq_of_lt h]

namespace Picture
variable {f : Picture} {u : Uninit}

theorem toNat_pktsInFrame : (f.frmInfo u).pktsInFrame.toNat = (f.buf.length + 1023) / 1024 := by
  have hlt := f.lt
  have hmax : maxAvpktSize.toNat = 1024 := rfl
  have hone : (1 : UInt32).toNat = 1 := rfl
  have hlen : (UInt32.ofNat f.buf.length).toNat = f.buf.length := toNat_ofNat_of_lt (by omega)
  have hpkts : (UInt32.ofNat (f.buf.length / 1024)).toNat = f.buf.length / 1024 := toNat_ofNat_of_lt (by omega)
  have hmul : (maxAvpktSize * UInt32.ofNat (f.buf.length / 1024)).toNat = 1024 * (f.buf.length / 1024) := by
    rw [UInt32.toNat_mul, hmax, hpkts]
    exact Nat.mod_eq_of_lt (by omega)
  have hres : (UInt32.ofNat f.buf.length - maxAvpktSize * UInt32.ofNat (f.buf.length / 1024)).toNat =
      f.buf.length % 1024 := by
    rw [UInt32.toNat_sub_of_le _ _ (by rw [UInt32.le_iff_toNat_le, hmul, hlen]; omega), hlen, hmul]
    omega
  simp only [frmInfo]
  split
  · next hne =>
    have hpos : f.buf.length % 1024 ≠ 0 := fun h => hne (UInt32.toNat_inj.mp (by rw [hres, h]; rfl))
    rw [UInt32.toNat_add, hpkts, hone, Nat.mod_eq_of_lt (by omega)]
    omega
  · next heq =>
    rw [ne_eq, Decidable.not_not] at heq
    rw [heq] at hres
    have hzero : f.buf.length % 1024 = 0 := hres.symm
    rw [hpkts]
    omega

theorem length_packets : (f.packets u).length = (f.buf.length + 1023) / 1024 := by
  rw [packets, length_packetLoop, toNat_pktsInFrame]

theorem data_packets : ((f.packets u).map Packet.data).flatten = f.buf := by
  have hlt := f.lt
  refine data_packetLoop (toNat_ofNat_of_lt (by omega)) ?_
  rw [toNat_pktsInFrame]
  omega

theorem data_packets_ne_nil : (f.packets u).map Packet.data ≠ [] := fun h => by
  have hpos := f.pos
  have hlen := congrArg List.length h
  rw [List.length_map, length_packets, List.length_nil] at hlen
  omega

/-- The header of each packet has its number. -/
theorem info_packets {k : Nat} {p : Packet} (hp : (f.packets u)[k]? = some p) :
    p.info = { f.frmInfo u with packetNum := UInt32.ofNat k } := by
  have hlt := (f.frmInfo u).pktsInFrame.toNat_lt
  have h := packetNum_packetLoop (by simpa using hlt) hp
  simpa using h

theorem calls_packets :
    (f.packets u).map Packet.call =
      Assembly.pieces (Assembly.newFlags (f.frameNum = 0)) ((f.packets u).map Packet.data) := by
  have hnum : (f.frmInfo u).frameNum = 0 ↔ f.frameNum = 0 := 
    ⟨fun h => congrArg Int32.ofUInt32 h, fun h => congrArg Int32.toUInt32 h⟩
  rw [packets, calls_packetLoop (by simp), if_pos rfl]
  simp only [hnum]

end Picture

/-! ### The messages -/

/-- An item that holds a message, with anything behind it. -/
def Call.HeldIn (call : Call) (m : Mem) : Prop := load m 0 call.data.length = call.data

/-- A message that fits is added whole. -/
theorem OutMsg.Fits.send2df {o : OutMsg} (h : o.Fits) (t : TCmd) :
    ∃ call, o.send2df t = some call ∧ call.data.length = packetHeaderSize + (o.args.map AttrArg.size).sum ∧
      ∀ m, call.HeldIn m → o.Carried m := by
  obtain ⟨t', hbuild, -, -, -, hlen, hend⟩ := buildMsg_spec t o.cmd o.args h.cmd h.valid h.short h.size
  have hsize : msgLen t'.fullbuf + packetHeaderSize = t'.cmdP := by rw [hlen, hend, Nat.add_comm]
  refine ⟨_, by rw [OutMsg.send2df, hbuild]; rfl, ?_, fun m hm => ⟨t, t', hbuild, ?_⟩⟩
  · rw [length_load, hsize, hend]
  · simpa only [Call.HeldIn, length_load, hsize] using hm

namespace Packet
variable {p : Packet} {cmd : List UInt8} {channel : Int32} {call : Call} {m : Mem}

theorem size_msg : ((p.msg cmd channel).args.map AttrArg.size).sum =
    (13 + (printX channel.toUInt32.toNat).length) + 37 + (9 + p.data.length) := by
  have hnames : (ascii "StreamId").length = 8 ∧ (ascii "Info").length = 4 ∧ (ascii "Data").length = 4 := by decide
  simp only [msg, List.map_cons, List.map_nil, List.sum_cons, List.sum_nil, AttrArg.size, AttrArg.attr, hnames,
    TFrameInfo.length_bytes, sizeofFrameInfo]
  omega

theorem fits_msg (hcmd : cmd.length = 4) (hp : p.data.length ≤ 1024) : (p.msg cmd channel).Fits where
  cmd := hcmd
  valid := by
    simp only [msg, List.forall_mem_cons, AttrArg.Valid]
    exact ⟨channel.toUInt32.toNat_lt, trivial, trivial, fun a ha => by cases ha⟩
  short := by
    simp only [msg, List.forall_mem_cons]
    refine ⟨⟨?_, ?_⟩, ⟨?_, ?_⟩, ⟨?_, ?_⟩, fun a ha => by cases ha⟩ <;> simp only [AttrArg.attr] <;> decide
  size := by
    have hx : (printX channel.toUInt32.toNat).length ≤ 8 := length_printX_le channel.toUInt32.toNat_lt (by decide)
    rw [size_msg, show packetHeaderSize = 10 from rfl, show cmdBufsize = 1536 from rfl]
    omega

/-- The call that adds the message of the packet. -/
structure SentAs (cmd : List UInt8) (channel : Int32) (p : Packet) (call : Call) : Prop where
  data : p.data.length ≤ 1024
  size : call.data.length ≤ einbufSize
  carried : ∀ m, call.HeldIn m → (p.msg cmd channel).Carried m

/-- All packets are sent. -/
theorem sendPackets_eq (hcmd : cmd.length = 4) (channel : Int32) (msg : Nat → TCmd) {ps : List Packet}
    (hps : ∀ p ∈ ps, p.data.length ≤ 1024) :
    ∃ calls, sendPackets cmd channel msg ps = some calls ∧ List.Forall₂ (SentAs cmd channel) ps calls := by
  induction ps with
  | nil => exact ⟨[], rfl, .nil⟩
  | cons p ps ih =>
    rw [List.forall_mem_cons] at hps
    obtain ⟨calls, hcalls, hsent⟩ := ih hps.2
    have hfits : (p.msg cmd channel).Fits := fits_msg hcmd hps.1
    obtain ⟨call, hcall, hlen, hcarried⟩ := hfits.send2df (msg p.info.packetNum.toNat)
    refine ⟨call :: calls, by rw [sendPackets, hcall, hcalls]; rfl, .cons ⟨hps.1, ?_, hcarried⟩ hsent⟩
    have hsize := hfits.size
    rw [hlen, show einbufSize = cmdBufsize from rfl]
    omega

/-- The attributes of the message, as a handler finds them. -/
theorem SentAs.attrs (h : p.SentAs cmd channel call) (hcmd : cmd.length = 4) (hm : call.HeldIn m) : msgCmd m = cmd ∧
    attrsOf m = [⟨ascii "StreamId", printX channel.toUInt32.toNat⟩, ⟨ascii "Info", p.info.bytes⟩, ⟨ascii "Data", p.data⟩] :=
  (h.carried m hm).decode (fits_msg hcmd h.data)

end Packet

/-! ### The handler -/

namespace UciLoop
variable {channel : Int32} {frameInfo value : List UInt8} {p : Packet}

theorem onAttr_streamId : onAttr ⟨channel, frameInfo⟩ ⟨ascii "StreamId", value⟩ =
    (⟨if cstr value = ascii "00" then 0 else 1, frameInfo⟩, []) := by
  have hset : setChannel ⟨channel, frameInfo⟩ ⟨ascii "StreamId", value⟩ =
      ⟨if Attr.valued ⟨ascii "StreamId", value⟩ "00" then 0 else 1, frameInfo⟩ := rfl
  rw [onAttr, show setInfo ⟨channel, frameInfo⟩ ⟨ascii "StreamId", value⟩ = ⟨channel, frameInfo⟩ from rfl, hset]
  simp only [Attr.valued, decide_eq_true_eq]
  rfl

theorem onAttr_info {info : TFrameInfo} : onAttr ⟨channel, frameInfo⟩ ⟨ascii "Info", info.bytes⟩ =
    (⟨channel, info.bytes ++ frameInfo.drop sizeofFrameInfo⟩, []) := rfl

theorem onAttr_data : onAttr ⟨channel, frameInfo⟩ ⟨ascii "Data", value⟩ =
    (⟨channel, frameInfo⟩, [(imgFifo channel, ⟨value, uciFlags (.ofBytes frameInfo), 0⟩)]) := rfl

/-- The attributes of a packet bring its bytes, with the flags that its header says. -/
theorem run_packet : run ⟨channel, frameInfo⟩ [⟨ascii "Info", p.info.bytes⟩, ⟨ascii "Data", p.data⟩] =
    (⟨channel, p.info.bytes ++ frameInfo.drop sizeofFrameInfo⟩, [(imgFifo channel, p.call)]) := by
  simp only [run, onAttr_info, onAttr_data, TFrameInfo.ofBytes_bytes, Packet.call, List.nil_append, List.append_nil]

end UciLoop

theorem printX_ne (n : Nat) : cstr (printX n) ≠ ascii "00" := by
  intro h
  rw [cstr_eq fun h0 => by
    obtain ⟨d, hd, he⟩ := mem_printX h0
    exact hexChar_ne_zero hd he.symm] at h
  have hn := hexValue_printX n
  rw [h, show hexValue (ascii "00") 0 = 0 by decide] at hn
  rw [← hn] at h
  exact absurd h (by decide)

/-- `%x` prints no `00`, so a message of the packing functions brings its packet to the second FIFO on every channel. -/
theorem Packet.SentAs.devBCMsgHandleUci {cmd : List UInt8} {channel : Int32} {p : Packet} {call : Call} {m : Mem}
    (h : p.SentAs cmd channel call) (hcmd : cmd.length = 4) (hm : call.HeldIn m) (frameInfo : List UInt8) :
    devBCMsgHandleUci frameInfo m = [(.img2, p.call)] := by
  rw [Recbcsrv.devBCMsgHandleUci, (h.attrs hcmd hm).2, UciLoop.run, UciLoop.onAttr_streamId, if_neg (printX_ne _),
    UciLoop.run_packet]
  rfl

/-- A message for a packet, which its channel goes with. -/
def Brings (x : Int32 × Call) (q : Int32 × Packet) : Prop :=
  x.1 = q.1 ∧ ∃ cmd channel, cmd.length = 4 ∧ q.2.SentAs cmd channel x.2

/-- An item with the message, for its channel. -/
def InItem (x : Int32 × Call) (item : Int32 × Mem) : Prop := item.1 = x.1 ∧ x.2.HeldIn item.2

/-- The attributes of frames bring the packets of the messages to the FIFOs of their channels. -/
theorem feed_eq {frameInfo : List UInt8} {packets : List (Int32 × Call)} {qs : List (Int32 × Packet)}
    {items : List (Int32 × Mem)} (hqs : List.Forall₂ Brings packets qs) (hitems : List.Forall₂ InItem packets items) :
    feed frameInfo items = qs.map fun q => (imgFifo q.1, q.2.call) := by
  induction hqs generalizing frameInfo items with
  | nil =>
    cases hitems
    rfl
  | @cons x q packets qs hq _ ih =>
    cases hitems with
    | @cons _ item _ items hi hitems =>
      obtain ⟨channel, m⟩ := item
      obtain ⟨hchannel, hm⟩ := hi
      obtain ⟨hx, cmd, ch, hcmd, hs⟩ := hq
      have hattrs : (attrsOf m).filter Attr.ofFrame = [⟨ascii "Info", q.2.info.bytes⟩, ⟨ascii "Data", q.2.data⟩] := by
        rw [(hs.attrs hcmd hm).2]
        rfl
      rw [feed, hattrs, UciLoop.run_packet, ih hitems, List.map_cons, ← hx, ← hchannel]
      rfl

/-! ### Streams -/

/-- What the messages of a picture are: one for each 1024 bytes begun, none of them too long for an item, and each with the
    header of its packet and at most 1024 bytes. -/
structure Picture.Packed (f : Picture) (cmd : List UInt8) (channel : Int32) (calls : List Call) : Prop where
  count : calls.length = (f.buf.length + 1023) / 1024
  size : ∀ call ∈ calls, call.data.length ≤ einbufSize
  attrs : ∀ k call, calls[k]? = some call → ∀ m, call.HeldIn m → ∃ info data, msgCmd m = cmd ∧
    attrsOf m = [⟨ascii "StreamId", printX channel.toUInt32.toNat⟩, ⟨ascii "Info", TFrameInfo.bytes info⟩,
      ⟨ascii "Data", data⟩] ∧
    data.length ≤ 1024 ∧ info.packetNum.toNat = k ∧ info.pktsInFrame.toNat = calls.length

/-- The frame that the bytes of a picture make. -/
def Picture.frame (f : Picture) : Frame := ⟨f.buf, f.buf.length, if f.frameNum = 0 then frameFlagFirstframe else 0, 0⟩

theorem Packer.length_cmd (k : Packer) : k.cmd.length = 4 := by cases k <;> rfl

theorem Picture.packed {f : Picture} {u : Uninit} {cmd : List UInt8} {channel : Int32} {calls : List Call}
    (hcmd : cmd.length = 4) (h : List.Forall₂ (Packet.SentAs cmd channel) (f.packets u) calls) :
    f.Packed cmd channel calls := by
  obtain ⟨hlen, hget⟩ := List.forall₂_iff_get.mp h
  have hcount : calls.length = (f.buf.length + 1023) / 1024 := by rw [← hlen, length_packets]
  have hat : ∀ k call, calls[k]? = some call → ∃ p : Packet, (f.packets u)[k]? = some p ∧ p.SentAs cmd channel call :=
    fun k call hk => by
      obtain ⟨hlt, rfl⟩ := List.getElem?_eq_some_iff.mp hk
      exact ⟨_, List.getElem?_eq_getElem (hlen ▸ hlt), hget k _ hlt⟩
  refine ⟨hcount, fun call hc => ?_, fun k call hk m hm => ?_⟩
  · obtain ⟨k, hk⟩ := List.mem_iff_getElem?.mp hc
    obtain ⟨p, -, hs⟩ := hat k call hk
    exact hs.size
  · obtain ⟨p, hp, hs⟩ := hat k call hk
    obtain ⟨hc, hattrs⟩ := hs.attrs hcmd hm
    have hlt := f.lt
    have hk' : k < calls.length := (List.getElem?_eq_some_iff.mp hk).1
    refine ⟨p.info, p.data, hc, hattrs, hs.data, ?_, ?_⟩
    · rw [info_packets hp]
      exact toNat_ofNat_of_lt (by omega)
    · rw [info_packets hp, hcount]
      exact toNat_pktsInFrame (u := u)

/-- A stream can be sent. -/
theorem Packer.sendAll_eq (k : Packer) (channel : Int32) (fs : List (Uninit × Picture)) :
    ∃ ms, k.sendAll channel fs = some ms ∧ List.Forall₂ (fun x calls => x.2.Packed k.cmd channel calls) fs ms ∧
      List.Forall₂ (Packet.SentAs k.cmd channel) (fs.flatMap fun x => x.2.packets x.1) ms.flatten := by
  induction fs with
  | nil => exact ⟨[], rfl, .nil, .nil⟩
  | cons x fs ih =>
    obtain ⟨ms, hms, hpacked, hsent⟩ := ih
    have hdata : ∀ p ∈ x.2.packets x.1, p.data.length ≤ 1024 := data_packetLoop_le
    obtain ⟨calls, hcalls, hs⟩ := Packet.sendPackets_eq k.length_cmd channel x.1.msg hdata
    have hpack : k.packnSend2df x.1 x.2 channel = some calls := by cases k <;> exact hcalls
    refine ⟨calls :: ms, ?_, .cons (Picture.packed k.length_cmd hs) hpacked, List.rel_append hs hsent⟩
    rw [sendAll, List.mapM_cons, hpack, ← sendAll, hms]
    rfl

/-- The calls of the handler on one of the FIFOs. -/
def callsTo (i : ImgFifo) (l : List (ImgFifo × Call)) : List Call := l.filterMap fun x => if x.1 = i then some x.2 else none

section
variable {P C : Type} [DecidableEq P] [DecidableEq C] [Fintype C]

/-- After the run `as`, whose log is `log`, the FIFO `p` has completed the first ones of `frames`, and all of them when
    the calls have returned. These take `n` steps at most, and wait for nothing but free items. -/
structure Reassembles (s : Sys P C) (log : List (Event P C)) (as : List (Action P C)) (p : P) (calls : List Call)
    (frames : List Frame) (n : Nat) : Prop where
  soFar : completedBy p log <+: frames
  whole : callsOf p as = calls → s.ppc p = .idle → completedBy p log = frames
  goesOn : s.ppc p = .idle ∨ s.WaitsForItem p ∨ (s.step (.producer p)).isSome
  ends : as.countP (Action.own p) ≤ (callsOf p as).length * n

/-- A FIFO that gets the calls of frames, in their order, completes the frames. -/
theorem reassembles {psize pcnt : P → Nat} {csize ccnt : C → Nat} {chain : P → List C} {as : List (Action P C)}
    {s : Sys P C} {log : List (Event P C)} {p : P} {calls : List Call} {frames : List Frame}
    (h : Exec.exec Sys.logged (Sys.start psize pcnt csize ccnt chain, []) as = some (s, log))
    (hfold : calls.foldl (Assembly.dataAdd (psize p)) ⟨[], none⟩ = ⟨frames, none⟩)
    (hcont : Assembly.Continues (psize p) ⟨[], none⟩ calls) (hcalls : callsOf p as <+: calls) :
    Reassembles s log as p calls frames (callSteps (chain p).length) := by
  obtain ⟨hsoFar, hwhole⟩ := Sys.assembled (p := p) psize pcnt csize ccnt chain h
  obtain ⟨rest, rfl⟩ := hcalls
  rw [Assembly.continues_append] at hcont
  obtain ⟨hgoes, hends⟩ := Sys.assembling psize pcnt csize ccnt chain h hcont.1
  refine ⟨hsoFar.trans ?_, fun hall hidle => ?_, hgoes, hends⟩
  · rw [List.foldl_append] at hfold
    have hkeep : ((callsOf p as).foldl (Assembly.dataAdd (psize p)) ⟨[], none⟩).completed <+:
        (rest.foldl (Assembly.dataAdd (psize p)) ((callsOf p as).foldl (Assembly.dataAdd (psize p)) ⟨[], none⟩)).completed :=
      Assembly.keeps_foldl List.prefix_rfl
    rw [hfold] at hkeep
    exact hkeep
  · rw [hwhole hidle, hall, hfold]

/-- A FIFO that gets the packets of a stream, in their order, completes its pictures. -/
theorem stream_reassembles {psize pcnt : P → Nat} {csize ccnt : C → Nat} {chain : P → List C} {as : List (Action P C)}
    {s : Sys P C} {log : List (Event P C)} {p : P} {fs : List (Uninit × Picture)}
    (hfit : ∀ x ∈ fs, x.2.buf.length ≤ psize p)
    (h : Exec.exec Sys.logged (Sys.start psize pcnt csize ccnt chain, []) as = some (s, log))
    (hcalls : callsOf p as <+: (fs.flatMap fun x => x.2.packets x.1).map Packet.call) :
    Reassembles s log as p ((fs.flatMap fun x => x.2.packets x.1).map Packet.call) (fs.map fun x => x.2.frame)
      (callSteps (chain p).length) := by
  have hpieces : (fs.flatMap fun x => x.2.packets x.1).map Packet.call = fs.flatMap fun x =>
      Assembly.pieces (Assembly.newFlags (x.2.frameNum = 0)) ((x.2.packets x.1).map Packet.data) := by
    rw [List.map_flatMap]
    exact List.flatMap_congr fun x _ => Picture.calls_packets
  obtain ⟨hfold, hcont⟩ := Assembly.foldl_frames (fun x : Uninit × Picture => x.2.frameNum = 0)
    (fun x => (x.2.packets x.1).map Packet.data) fs [] (fun x _ => Picture.data_packets_ne_nil) fun x hx => by
      rw [Picture.data_packets]
      exact hfit x hx
  have hframes : (fs.map fun x => (⟨((x.2.packets x.1).map Packet.data).flatten,
      ((x.2.packets x.1).map Packet.data).flatten.length,
      if decide (x.2.frameNum = 0) then frameFlagFirstframe else 0, 0⟩ : Frame)) = fs.map fun x => x.2.frame :=
    List.map_congr_left fun x _ => by simp only [Picture.data_packets, Picture.frame, decide_eq_true_eq]
  rw [List.nil_append, hframes, ← hpieces] at hfold
  rw [← hpieces] at hcont
  exact reassembles h hfold hcont hcalls

/-- The calls on a FIFO are the packets of its own stream, in their order. -/
theorem callsTo_feed {k : ImgFifo → Packer} {channel : ImgFifo → Int32} (hchannel : ∀ i, imgFifo (channel i) = i)
    {fs : ImgFifo → List (Uninit × Picture)} {ms : ImgFifo → List (List Call)}
    (hsent : ∀ i, List.Forall₂ (Packet.SentAs (k i).cmd (channel i)) ((fs i).flatMap fun x => x.2.packets x.1) (ms i).flatten)
    {packets : List (Int32 × Call)} {items : List (Int32 × Mem)} (frameInfo : List UInt8)
    (hp : Interleave ((ms .img1).flatten.map (channel .img1, ·)) ((ms .img2).flatten.map (channel .img2, ·)) packets)
    (hitems : List.Forall₂ InItem packets items) (i : ImgFifo) :
    callsTo i (feed frameInfo items) = ((fs i).flatMap fun x => x.2.packets x.1).map Packet.call := by
  have hbrings : ∀ i, List.Forall₂ Brings ((ms i).flatten.map (channel i, ·))
      (((fs i).flatMap fun x => x.2.packets x.1).map (channel i, ·)) := fun i => by
    rw [List.forall₂_map_left_iff, List.forall₂_map_right_iff]
    exact ((hsent i).flip).imp fun call p hs => ⟨rfl, _, _, (k i).length_cmd, hs⟩
  obtain ⟨qs, hqs, hR⟩ := hp.forall₂ (hbrings .img1) (hbrings .img2)
  have hother : ∀ j, j ≠ i → ∀ q ∈ ((fs j).flatMap fun x => x.2.packets x.1).map (channel j, ·),
      (if imgFifo q.1 = i then some q.2.call else none) = none := fun j hj q hq => by
    obtain ⟨p, -, rfl⟩ := List.mem_map.mp hq
    rw [hchannel, if_neg hj]
  have hown : ∀ l : List Packet, (l.map (channel i, ·)).filterMap
      (fun q => if imgFifo q.1 = i then some q.2.call else none) = l.map Packet.call := fun l => by
    rw [List.filterMap_map, ← List.filterMap_eq_map]
    exact List.filterMap_congr fun p _ => if_pos (hchannel i)
  rw [feed_eq hR hitems, callsTo, List.filterMap_map, ← hown]
  cases i with
  | img1 => exact hqs.filterMap_eq (hother .img2 (by decide))
  | img2 => exact hqs.swap.filterMap_eq (hother .img1 (by decide))

/-- Two streams of pictures, one for each FIFO. The messages of a picture are its packets, and in whatever order the
    messages of the two are fed to the handler, each FIFO completes the pictures of its stream, in every run in which the
    thread makes the calls on it. -/
theorem packets_reassemble (psize pcnt : P → Nat) (csize ccnt : C → Nat) (chain : P → List C) (fifo : ImgFifo → P)
    (k : ImgFifo → Packer) (channel : ImgFifo → Int32) (hchannel : ∀ i, imgFifo (channel i) = i)
    (fs : ImgFifo → List (Uninit × Picture)) (hfit : ∀ i, ∀ x ∈ fs i, x.2.buf.length ≤ psize (fifo i)) :
    ∃ ms : ImgFifo → List (List Call),
      (∀ i, (k i).sendAll (channel i) (fs i) = some (ms i) ∧
        List.Forall₂ (fun x calls => x.2.Packed (k i).cmd (channel i) calls) (fs i) (ms i)) ∧
      ∀ packets items frameInfo,
        Interleave ((ms .img1).flatten.map (channel .img1, ·)) ((ms .img2).flatten.map (channel .img2, ·)) packets →
        List.Forall₂ InItem packets items →
        ∀ as s log, Exec.exec Sys.logged (Sys.start psize pcnt csize ccnt chain, []) as = some (s, log) →
          ∀ i, callsOf (fifo i) as <+: callsTo i (feed frameInfo items) →
            Reassembles s log as (fifo i) (callsTo i (feed frameInfo items)) ((fs i).map fun x => x.2.frame)
              (callSteps (chain (fifo i)).length) := by
  choose ms hms hpacked hsent using fun i => (k i).sendAll_eq (channel i) (fs i)
  refine ⟨ms, fun i => ⟨hms i, hpacked i⟩, fun packets items frameInfo hp hitems as s log h i hcalls => ?_⟩
  rw [callsTo_feed hchannel hsent frameInfo hp hitems] at hcalls ⊢
  exact stream_reassembles (hfit i) h hcalls

end

def channelOf : ImgFifo → Int32
  | .img1 => 0
  | .img2 => 1

/-- A picture of two packets for the first FIFO, with the number 0, and one of three packets for the other. -/
def twoPictures : ImgFifo → List (Uninit × Picture)
  | .img1 => [(⟨0, 0, fun _ => ⟨fun _ => 0, 0, 0, 0, 0, 0⟩⟩,
      ⟨List.replicate 1500 7, 0, 40, by rw [List.length_replicate]; decide, by rw [List.length_replicate]; decide⟩)]
  | .img2 => [(⟨0, 0, fun _ => ⟨fun _ => 0, 0, 0, 0, 0, 0⟩⟩,
      ⟨List.replicate 2500 8, 3, 41, by rw [List.length_replicate]; decide, by rw [List.length_replicate]; decide⟩)]

/-- The calls for their packets in an order in which the two alternate, each with the number of its steps. -/
def fivePieces : List (ImgFifo × Call × Nat) :=
  [(.img2, ⟨List.replicate 1024 8, frameFlagNewframe, 0⟩, 10),
    (.img1, ⟨List.replicate 1024 7, frameFlagNewframe ||| frameFlagFirstframe, 0⟩, 10),
    (.img2, ⟨List.replicate 1024 8, 0, 0⟩, 5),
    (.img2, ⟨List.replicate 452 8, frameFlagFrameend, 0⟩, 7),
    (.img1, ⟨List.replicate 476 7, frameFlagFrameend, 0⟩, 7)]

def fiveCalls : List (Action ImgFifo Unit) :=
  fivePieces.flatMap fun x => .dataAdd x.1 x.2.1 :: List.replicate x.2.2 (.producer x.1)

theorem packets_reassemble_fiveCalls : ∃ s log,
    Exec.exec Sys.logged (Sys.start (fun _ => 2500) (fun _ => 1) (fun _ => 0) (fun _ => 0) fun _ => [], []) fiveCalls =
      some (s, log) ∧
    completedBy .img1 log = [⟨List.replicate 1500 7, 1500, frameFlagFirstframe, 0⟩] ∧
    completedBy .img2 log = [⟨List.replicate 2500 8, 2500, 0, 0⟩] := by
  have hrun : (Exec.exec Sys.logged (Sys.start (fun _ => 2500) (fun _ => 1) (fun _ => 0) (fun _ => 0) fun _ => [], [])
      fiveCalls).any (fun r => r.1.ppc .img1 = .idle ∧ r.1.ppc .img2 = .idle) = true := by
    decide +kernel
  obtain ⟨⟨s, log⟩, hs, hidle⟩ := (Option.any_eq_true ..).mp hrun
  simp only [decide_eq_true_eq] at hidle
  have hchannel : ∀ i, imgFifo (channelOf i) = i := fun i => by cases i <;> decide
  obtain ⟨ms, hms, hall⟩ := packets_reassemble (fun _ => 2500) (fun _ => 1) (fun _ => 0) (fun _ => 0)
    (fun _ => ([] : List Unit)) id (fun _ => .jpeg) channelOf hchannel twoPictures fun i x hx => by
      cases i <;> rw [List.mem_singleton.mp hx] <;> decide +kernel
  have hsent : ∀ i, List.Forall₂ (Packet.SentAs Packer.jpeg.cmd (channelOf i))
      ((twoPictures i).flatMap fun x => x.2.packets x.1) (ms i).flatten := fun i => by
    obtain ⟨ms', hms', -, hsent⟩ := Packer.jpeg.sendAll_eq (channelOf i) (twoPictures i)
    rw [(hms i).1, Option.some_inj] at hms'
    exact hms' ▸ hsent
  obtain ⟨a₁, a₂, ha⟩ := List.length_eq_two.mp ((hsent .img1).length_eq.symm.trans (by decide +kernel))
  obtain ⟨b₁, b₂, b₃, hb⟩ := List.length_eq_three.mp ((hsent .img2).length_eq.symm.trans (by decide +kernel))
  let packets : List (Int32 × Call) := [(channelOf .img2, b₁), (channelOf .img1, a₁), (channelOf .img2, b₂),
    (channelOf .img2, b₃), (channelOf .img1, a₂)]
  let items : List (Int32 × Mem) := packets.map fun q => (q.1, store (fun _ => 0) 0 q.2.data)
  have hp : Interleave ((ms .img1).flatten.map (channelOf .img1, ·)) ((ms .img2).flatten.map (channelOf .img2, ·)) packets := by
    rw [ha, hb]
    exact ((((Interleave.nil.right _).left _).right _).right _).left _
  have hitems : List.Forall₂ InItem packets items :=
    List.forall₂_map_right_iff.mpr (List.forall₂_same.mpr fun _ _ => ⟨rfl, load_store_self⟩)
  have hcalls : ∀ i, callsOf i fiveCalls = callsTo i (feed [] items) := fun i => by
    rw [callsTo_feed hchannel hsent [] hp hitems]
    cases i <;> decide +kernel
  have h := hall packets items [] hp hitems fiveCalls s log hs
  have hwhole : ∀ i, completedBy i log = (twoPictures i).map fun x => x.2.frame := fun i =>
    (h i (hcalls i ▸ List.prefix_rfl)).whole (hcalls i) (by cases i; exacts [hidle.1, hidle.2])
  refine ⟨s, log, hs, ?_, ?_⟩
  · rw [hwhole]
    decide +kernel
  · rw [hwhole]
    decide +kernel

end Recbcsrv
