import Mathlib.Algebra.Group.Nat.Defs
import Mathlib.Algebra.Ring.Int.Defs
import Recbcsrv.Lib.Bytes

/-! The messages of the SNTP programs (`mysntp.h`, `SntpUtil.c`, `sntp_server.c`): timestamps in seconds and fractions of
    32 bits each, the request of the client and the packet of the server. The machines are little-endian. -/

namespace Recbcsrv
open Bytes

/-! ### Timestamps -/

/-- `tTS`: seconds and a fraction of a second. -/
structure TTS where
  intg : UInt32
  frag : UInt32
  deriving DecidableEq, Repr

namespace TTS

/-- `TS_ADD`: the fractions are added in halves, and the carry goes to the seconds. -/
def add (r a : TTS) : TTS :=
  let loHalf := (r.frag &&& (0xffff : UInt32)) + (a.frag &&& (0xffff : UInt32))
  let hiHalf := ((r.frag >>> 16) &&& (0xffff : UInt32)) + ((a.frag >>> 16) &&& (0xffff : UInt32))
  let hiHalf := if loHalf &&& (0x10000 : UInt32) ≠ 0 then hiHalf + 1 else hiHalf
  let intg := r.intg + a.intg
  { intg := if hiHalf &&& (0x10000 : UInt32) ≠ 0 then intg + 1 else intg
    frag := ((hiHalf &&& (0xffff : UInt32)) <<< 16) ||| (loHalf &&& (0xffff : UInt32)) }

/-- `TS_SUB`: the negated fraction is added. -/
def sub (r a : TTS) : TTS :=
  if a.frag = 0 then { r with intg := r.intg - a.intg }
  else
    let loHalf := (r.frag &&& (0xffff : UInt32)) + ((-a.frag) &&& (0xffff : UInt32))
    let hiHalf := ((r.frag >>> 16) &&& (0xffff : UInt32)) + (((-a.frag) >>> 16) &&& (0xffff : UInt32))
    let hiHalf := if loHalf &&& (0x10000 : UInt32) ≠ 0 then hiHalf + 1 else hiHalf
    let intg := r.intg + ~~~a.intg
    { intg := if hiHalf &&& (0x10000 : UInt32) ≠ 0 then intg + 1 else intg
      frag := ((hiHalf &&& (0xffff : UInt32)) <<< 16) ||| (loHalf &&& (0xffff : UInt32)) }

/-- `TS_RSHIFT`: half of it, the seconds being signed. -/
def rshift (v : TTS) : TTS :=
  let frag := v.frag >>> 1
  { intg := if v.intg &&& (0x80000000 : UInt32) ≠ 0 then (v.intg >>> 1) ||| (0x80000000 : UInt32) else v.intg >>> 1
    frag := if v.intg &&& (1 : UInt32) ≠ 0 then frag ||| (0x80000000 : UInt32) else frag }

/-- `HTONL_FP`. -/
def htonl (h : TTS) : TTS := ⟨swap32 h.intg, swap32 h.frag⟩

/-- `NTOHL_FP`. -/
def ntohl (n : TTS) : TTS := ⟨swap32 n.intg, swap32 n.frag⟩

@[simp] theorem ntohl_htonl (h : TTS) : h.htonl.ntohl = h := by
  simp only [htonl, ntohl, swap32_swap32]

/-- The timestamp in memory. -/
def bytes (t : TTS) : List UInt8 := le32 t.intg ++ le32 t.frag

/-- The timestamp that the bytes of one hold. -/
def ofBytes (l : List UInt8) : TTS := ⟨ofLe32 l, ofLe32 (l.drop 4)⟩

end TTS

/-! ### Messages -/

/-- `struct sntp_s`. -/
structure SntpS where
  ucLiVnMode : UInt8
  ucStratum : UInt8
  ucPoll : UInt8
  cPercision : UInt8
  wRootDelay : UInt32
  wRootDisp : UInt32
  wRefID : UInt32
  tRefTime : TTS
  tOrig : TTS
  tRecv : TTS
  tXmt : TTS
  deriving DecidableEq, Repr

/-- `sizeof(struct sntp_s)`. -/
def sizeofSntpS : Nat := 48

namespace SntpS

/-- A message as `memset` leaves it. -/
def zero : SntpS := ⟨0, 0, 0, 0, 0, 0, 0, ⟨0, 0⟩, ⟨0, 0⟩, ⟨0, 0⟩, ⟨0, 0⟩⟩

/-- The message in memory. -/
def bytes (m : SntpS) : List UInt8 :=
  [m.ucLiVnMode, m.ucStratum, m.ucPoll, m.cPercision] ++ [m.wRootDelay, m.wRootDisp, m.wRefID].flatMap le32 ++
    [m.tRefTime, m.tOrig, m.tRecv, m.tXmt].flatMap TTS.bytes

/-- The message that the bytes of one hold. -/
def ofBytes (l : List UInt8) : SntpS where
  ucLiVnMode := l.getD 0 0
  ucStratum := l.getD 1 0
  ucPoll := l.getD 2 0
  cPercision := l.getD 3 0
  wRootDelay := ofLe32 (l.drop 4)
  wRootDisp := ofLe32 (l.drop 8)
  wRefID := ofLe32 (l.drop 12)
  tRefTime := .ofBytes (l.drop 16)
  tOrig := .ofBytes (l.drop 24)
  tRecv := .ofBytes (l.drop 32)
  tXmt := .ofBytes (l.drop 40)

theorem length_bytes (m : SntpS) : m.bytes.length = sizeofSntpS := rfl

theorem ofBytes_bytes (m : SntpS) : ofBytes m.bytes = m := by
  have h : ∀ (k : Nat) (n : UInt32) (l : List UInt8), m.bytes.drop k = le32 n ++ l → ofLe32 (m.bytes.drop k) = n :=
    fun k n l hd => by rw [hd, ofLe32_le32]
  have ht : ∀ (k : Nat) (t : TTS) (l : List UInt8), m.bytes.drop k = t.bytes ++ l → TTS.ofBytes (m.bytes.drop k) = t :=
    fun k t l hd => by
      have hrest : (t.bytes ++ l).drop 4 = le32 t.frag ++ l := rfl
      rw [TTS.ofBytes, hd, hrest, ofLe32_le32, TTS.bytes, List.append_assoc, ofLe32_le32]
  cases m with
  | mk a b c d e f g t u v w =>
    simp only [ofBytes, mk.injEq]
    exact ⟨rfl, rfl, rfl, rfl, h 4 e _ rfl, h 8 f _ rfl, h 12 g _ rfl, ht 16 t _ rfl, ht 24 u _ rfl, ht 32 v _ rfl,
      ht 40 w [] rfl⟩

end SntpS

def sntpVersion : UInt8 := 4
def sntpOldVersion : UInt8 := 1
def sntpStratum : UInt8 := 2
def modeClient : UInt8 := 3
def modeServer : UInt8 := 4
def modeBroadcast : UInt8 := 5
def leapNotSync : UInt8 := 3

def msgMode (viVnMd : UInt8) : UInt8 := viVnMd &&& (0x7 : UInt8)

def msgVersion (viVnMd : UInt8) : UInt8 := (viVnMd >>> 3) &&& (0x7 : UInt8)

def msgLiVnMode (li vn md : UInt8) : UInt8 := ((li <<< 6) &&& (0xc0 : UInt8)) ||| ((vn <<< 3) &&& (0x38 : UInt8)) ||| (md &&& (0x7 : UInt8))

/-! ### What the programs send -/

/-- What `gettimeofday` reads: seconds and microseconds of a clock. -/
structure Clock where
  sec : Int
  usec : Nat
  usec_lt : usec < 1000000

/-- `SntpGetSysTime`; with no clock `gettimeofday` fails. The microseconds go to the fraction as they are, and the seconds
    keep the epoch of the system. -/
def sntpGetSysTime (now : Option Clock) (current : TTS) : Int × TTS :=
  match now with
  | none => (-1, current)
  | some c => (0, ⟨UInt32.ofInt c.sec, UInt32.ofNat c.usec⟩)

/-- The packet that `sntp_send_packet` sends. -/
def sntpSendPacket (tOrig : Option TTS) (tRecv : TTS) (now : Option Clock) : SntpS :=
  let answered : UInt8 × SntpS :=
    match tOrig with
    | some tOrig => (modeServer, { SntpS.zero with tOrig := tOrig.htonl, tRecv := tRecv.htonl })
    | none => (modeBroadcast, .zero)
  { answered.2 with
    ucLiVnMode := msgLiVnMode leapNotSync sntpVersion answered.1
    ucStratum := sntpStratum
    tXmt := (sntpGetSysTime now answered.2.tXmt).2.htonl }

/-- What the server's `main` sends when a request arrives: the originate timestamp goes back as it came. -/
def serverReply (request : SntpS) (received sent : Option Clock) (stack : TTS) : SntpS :=
  sntpSendPacket (some request.tOrig.ntohl) (sntpGetSysTime received stack).2 sent

/-- The request of `SntpClient`. -/
def sntpRequest (now : Option Clock) : SntpS :=
  { SntpS.zero with
    tXmt := (sntpGetSysTime now ⟨0, 0⟩).2.htonl
    ucLiVnMode := msgLiVnMode leapNotSync sntpVersion modeClient }

theorem tXmt_sntpSendPacket (tOrig : Option TTS) (tRecv : TTS) (now : Clock) :
    (sntpSendPacket tOrig tRecv (some now)).tXmt.ntohl = ⟨UInt32.ofInt now.sec, UInt32.ofNat now.usec⟩ :=
  TTS.ntohl_htonl _

/-- The packets of the server have its version and one of its two modes. -/
theorem ucLiVnMode_sntpSendPacket (tOrig : Option TTS) (tRecv : TTS) (now : Option Clock) :
    msgVersion (sntpSendPacket tOrig tRecv now).ucLiVnMode = sntpVersion ∧
      (msgMode (sntpSendPacket tOrig tRecv now).ucLiVnMode = modeServer ∨
        msgMode (sntpSendPacket tOrig tRecv now).ucLiVnMode = modeBroadcast) := by
  have hmode : ∀ mode, mode = modeServer ∨ mode = modeBroadcast →
      msgVersion (msgLiVnMode leapNotSync sntpVersion mode) = sntpVersion ∧
        msgMode (msgLiVnMode leapNotSync sntpVersion mode) = mode := by
    rintro mode (rfl | rfl) <;> decide
  cases tOrig with
  | none =>
    obtain ⟨hv, hm⟩ := hmode modeBroadcast (Or.inr rfl)
    exact ⟨hv, Or.inr hm⟩
  | some tOrig =>
    obtain ⟨hv, hm⟩ := hmode modeServer (Or.inl rfl)
    exact ⟨hv, Or.inl hm⟩

end Recbcsrv
