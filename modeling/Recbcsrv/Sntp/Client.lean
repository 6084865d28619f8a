import Recbcsrv.Sntp.Packet

/-! The client (`sntp_client.c`): `SntpRecvHandle` sets the clock from a packet. What it decodes is never the time that the
    server put into the packet, a packet that is too short can set the clock, and a zero originate timestamp makes it set
    the clock to what a local variable happens to hold. -/

namespace Recbcsrv
open Bytes

/-- The machines that the client is compiled for. -/
inductive Arch where
  | bits32
  | bits64
  deriving DecidableEq, Repr

/-- `sizeof` a pointer. -/
def Arch.sizeofPtr : Arch → Nat
  | .bits32 => 4
  | .bits64 => 8

/-- An `unsigned int` that is assigned to a `long`. -/
def Arch.long (arch : Arch) (n : UInt32) : Int :=
  match arch with
  | .bits32 => n.toInt32.toInt
  | .bits64 => n.toNat

/-- `struct timeval`. -/
structure Timeval where
  tvSec : Int
  tvUsec : Int
  deriving DecidableEq, Repr

/-- `struct timezone`. -/
structure Timezone where
  tzMinuteswest : Int
  tzDsttime : Int
  deriving DecidableEq, Repr

/-- The microseconds of a fraction of a second. The product of a `double` is exact here: it has at most 52 bits. -/
def fragToUsec (frag : UInt32) : Int := (frag.toNat * 1000000 / 2 ^ 32 : Nat)

/-- What the local variables hold that `SntpRecvHandle` reads although it has not set them on all paths. -/
structure SntpLocals where
  tNowTV : Timeval
  tInterval : TTS

/-- What `SntpRecvHandle` returns, what it passes to `settimeofday`, and the deviation from the server that it prints. -/
structure SntpOutcome where
  ret : Int
  clock : Option (Timeval × Timezone)
  deviation : Option TTS
  deriving DecidableEq, Repr

/-- `0x83aa7e80`, the seconds from 1900 to 1970. -/
def jan1970 : UInt32 := 0x83aa7e80

/-- Half of the time that the packet was on its way: `((T4 - T1) - (T3 - T2)) / 2`. -/
def interval (tOrig tRecv tXmt dest : TTS) : TTS := ((dest.sub tOrig).sub (tXmt.sub tRecv)).rshift

/-- The local variables `tNowTV` and `tInterval` when `settimeofday` is called. -/
def sntpNow (arch : Arch) (tOrig tRecv tXmt dest : TTS) (iFlag : Int) (u : SntpLocals) : SntpLocals :=
  if iFlag = 0 then { u with tNowTV := ⟨arch.long tXmt.intg, fragToUsec tXmt.frag⟩ }
  else if tOrig.intg = 0 ∧ tOrig.frag = 0 then u
  else
    let tInterval := interval tOrig tRecv tXmt dest
    let tNowTS := tXmt.add tInterval
    ⟨⟨arch.long tNowTS.intg, fragToUsec tNowTS.frag⟩, tInterval⟩

/-- The checks of `SntpRecvHandle`. The length is compared with the size of the pointer `tSntpMsg`. -/
def SntpRecvOk (arch : Arch) (m : SntpS) (iMsgLen : Nat) : Prop :=
  ¬iMsgLen < arch.sizeofPtr ∧
  ¬(msgVersion m.ucLiVnMode < sntpOldVersion ∨ msgVersion m.ucLiVnMode > sntpVersion) ∧
  ¬(msgMode m.ucLiVnMode ≠ modeServer ∧ msgMode m.ucLiVnMode ≠ modeBroadcast)

instance (arch : Arch) (m : SntpS) (iMsgLen : Nat) : Decidable (SntpRecvOk arch m iMsgLen) :=
  inferInstanceAs (Decidable (_ ∧ _ ∧ _))

/-- `SntpRecvHandle`; `settimeofday` gives its result. -/
def sntpRecvHandle (arch : Arch) (m : SntpS) (iMsgLen : Nat) (dest : TTS) (iFlag : Int) (u : SntpLocals)
    (settimeofday : Timeval × Timezone → Int) : SntpOutcome :=
  if ¬SntpRecvOk arch m iMsgLen then ⟨-1, none, none⟩
  else
    let tOrig := m.tOrig.ntohl
    let tRecv := { m.tRecv.ntohl with intg := m.tRecv.ntohl.intg - jan1970 }
    let tXmt := { m.tXmt.ntohl with intg := m.tXmt.ntohl.intg - jan1970 }
    let u := sntpNow arch tOrig tRecv tXmt dest iFlag u
    let clock := (u.tNowTV, ⟨-480, 0⟩)
    if settimeofday clock = -1 then ⟨-1, some clock, none⟩
    else ⟨0, some clock, some ((tRecv.sub tOrig).sub u.tInterval)⟩

/-- The message that `recvfrom` leaves in a buffer of zeros: at most the bytes of one. -/
def recvMsg (d : List UInt8) : SntpS := .ofBytes (d.take sizeofSntpS ++ List.replicate (sizeofSntpS - d.length) 0)

/-- What `SntpClient` does with a datagram. -/
def onDatagram (arch : Arch) (d : List UInt8) (dest : TTS) (iFlag : Int) (u : SntpLocals)
    (settimeofday : Timeval × Timezone → Int) : SntpOutcome :=
  sntpRecvHandle arch (recvMsg d) (min d.length sizeofSntpS) dest iFlag u settimeofday

section
variable {arch : Arch} {m : SntpS} {len : Nat} {dest : TTS} {iFlag : Int} {u : SntpLocals} {st : Timeval × Timezone → Int}

/-- A packet that fails a check changes nothing. -/
theorem sntpRecvHandle_of_not (h : ¬SntpRecvOk arch m len) :
    sntpRecvHandle arch m len dest iFlag u st = ⟨-1, none, none⟩ := if_pos h

/-- What is passed to `settimeofday` for a packet that passes the checks. -/
theorem clock_sntpRecvHandle (h : SntpRecvOk arch m len) : (sntpRecvHandle arch m len dest iFlag u st).clock =
    some ((sntpNow arch m.tOrig.ntohl { m.tRecv.ntohl with intg := m.tRecv.ntohl.intg - jan1970 }
      { m.tXmt.ntohl with intg := m.tXmt.ntohl.intg - jan1970 } dest iFlag u).tNowTV, ⟨-480, 0⟩) := by
  simp only [sntpRecvHandle, if_neg (not_not_intro h)]
  split <;> rfl

/-- A message that arrives as a whole is the one that was sent. -/
theorem onDatagram_bytes : onDatagram arch m.bytes dest iFlag u st = sntpRecvHandle arch m sizeofSntpS dest iFlag u st := by
  have hlen := m.length_bytes
  rw [onDatagram, recvMsg, hlen, Nat.sub_self, List.take_of_length_le (Nat.le_of_eq hlen), List.replicate_zero,
    List.append_nil, SntpS.ofBytes_bytes, Nat.min_self]

theorem sntpRecvOk_sntpSendPacket (tOrig : Option TTS) (tRecv : TTS) (now : Option Clock) :
    SntpRecvOk arch (sntpSendPacket tOrig tRecv now) sizeofSntpS := by
  obtain ⟨hversion, hmode⟩ := ucLiVnMode_sntpSendPacket tOrig tRecv now
  refine ⟨by cases arch <;> decide, ?_, ?_⟩
  · rw [hversion]
    decide
  · rintro ⟨hserver, hbroadcast⟩
    exact hmode.elim hserver hbroadcast

/-! ### The time of the server -/

/-- The time is that of the clock up to a microsecond, the seconds counted modulo `2 ^ 32`. -/
def Timeval.Agrees (tv : Timeval) (c : Clock) : Prop :=
  ∃ k : Int, -1 ≤ (tv.tvSec - c.sec - 2 ^ 32 * k) * 1000000 + (tv.tvUsec - c.usec) ∧
    (tv.tvSec - c.sec - 2 ^ 32 * k) * 1000000 + (tv.tvUsec - c.usec) ≤ 1

theorem Arch.long_emod (n : UInt32) : arch.long n % 2 ^ 32 = n.toNat := by
  have hn := n.toNat_lt
  cases arch with
  | bits32 =>
    have h : n.toInt32.toInt = (n.toNat : Int).bmod (2 ^ 32) := BitVec.toInt_eq_toNat_bmod _
    rw [Arch.long, h]
    have hb := Int.bmod_emod (x := (n.toNat : Int)) (m := 2 ^ 32)
    omega
  | bits64 =>
    rw [Arch.long]
    omega

/-- The seconds that the client takes from those of the server are those of a clock that is 70 years behind. -/
theorem sec_sub_jan1970 (sec : Int) : ((UInt32.ofInt sec - jan1970).toNat : Int) = (sec - 2208988800) % 2 ^ 32 := by
  have hjan : jan1970.toNat = 2208988800 := rfl
  have hsec : (UInt32.ofInt sec).toNat = (sec % 2 ^ 32).toNat := by
    rw [UInt32.ofInt, UInt32.toNat_ofNat']
    exact Nat.mod_eq_of_lt (by omega)
  rw [UInt32.toNat_sub, hsec, hjan]
  omega

/-- For no clock of the server does the client, called with `iFlag` 0, decode its time from the packet. -/
theorem decoded_never_agrees (arch : Arch) (tOrig : Option TTS) (tRecv : TTS) (now : Clock) (dest : TTS) (u : SntpLocals)
    (st : Timeval × Timezone → Int) :
    ∃ tv tz, (onDatagram arch (sntpSendPacket tOrig tRecv (some now)).bytes dest 0 u st).clock = some (tv, tz) ∧
      ¬tv.Agrees now := by
  have hok : SntpRecvOk arch (sntpSendPacket tOrig tRecv (some now)) sizeofSntpS := sntpRecvOk_sntpSendPacket ..
  have hclock : (sntpRecvHandle arch (sntpSendPacket tOrig tRecv (some now)) sizeofSntpS dest 0 u st).clock = _ :=
    clock_sntpRecvHandle hok
  simp only [tXmt_sntpSendPacket, sntpNow, if_true] at hclock
  refine ⟨_, _, (congrArg SntpOutcome.clock onDatagram_bytes).trans hclock, ?_⟩
  have hsec := (arch.long_emod (UInt32.ofInt now.sec - jan1970)).trans (sec_sub_jan1970 now.sec)
  have husec : (UInt32.ofNat now.usec).toNat = now.usec := by
    rw [UInt32.toNat_ofNat']
    exact Nat.mod_eq_of_lt (by have := now.usec_lt; omega)
  have hlt := now.usec_lt
  obtain ⟨n, hn⟩ : ∃ n : Int, arch.long (UInt32.ofInt now.sec - jan1970) = now.sec - 2208988800 + 2 ^ 32 * n :=
    ⟨arch.long (UInt32.ofInt now.sec - jan1970) / 2 ^ 32 - (now.sec - 2208988800) / 2 ^ 32, by omega⟩
  have hfrag : 0 ≤ fragToUsec (UInt32.ofNat now.usec) ∧ fragToUsec (UInt32.ofNat now.usec) < 1000000 := by
    rw [fragToUsec, husec]
    omega
  -- The seconds differ by an epoch, which is no multiple of `2 ^ 32`.
  rintro ⟨k, hlow, hhigh⟩
  simp only [hn] at hlow hhigh
  rcases Int.lt_or_le k n with h | h <;> omega

/-- The clock shows half a second past 1400000000, and the client is set to 1944. -/
theorem decoded_70years_early : ∃ tv tz,
    (onDatagram .bits32 (sntpSendPacket none ⟨0, 0⟩ (some ⟨1400000000, 500000, by decide⟩)).bytes ⟨0, 0⟩ 0
      ⟨⟨0, 0⟩, ⟨0, 0⟩⟩ fun _ => 0).clock = some (tv, tz) ∧
    tv = ⟨-808988800, 116⟩ ∧ ¬tv.Agrees ⟨1400000000, 500000, by decide⟩ := by
  refine ⟨⟨-808988800, 116⟩, ⟨-480, 0⟩, by decide +kernel, rfl, ?_⟩
  rintro ⟨k, hlow, hhigh⟩
  simp only at hlow hhigh
  omega

/-! ### What sets the clock -/

variable {d : List UInt8}

/-- A packet that may set the clock: a whole message of a known version from a server. -/
structure SntpValid (d : List UInt8) : Prop where
  length : sizeofSntpS ≤ d.length
  version : sntpOldVersion ≤ msgVersion (d.getD 0 0) ∧ msgVersion (d.getD 0 0) ≤ sntpVersion
  mode : msgMode (d.getD 0 0) = modeServer ∨ msgMode (d.getD 0 0) = modeBroadcast

/-- The clock is set from valid packets only, and to a value that no local variable has a part in. -/
structure SetsSafely (arch : Arch) (d : List UInt8) (dest : TTS) (iFlag : Int) : Prop where
  rejects : ¬SntpValid d → ∀ u st, (onDatagram arch d dest iFlag u st).ret = -1 ∧
    (onDatagram arch d dest iFlag u st).clock = none
  determined : ∀ u u' st st', (onDatagram arch d dest iFlag u st).clock = (onDatagram arch d dest iFlag u' st').clock

theorem ucLiVnMode_recvMsg (h : sizeofSntpS ≤ d.length) : (recvMsg d).ucLiVnMode = d.getD 0 0 := by
  cases d with
  | nil => exact absurd h (by decide)
  | cons b d => rfl

/-- A whole message that passes the checks is valid. -/
theorem SntpRecvOk.valid (h : SntpRecvOk arch (recvMsg d) len) (hlen : sizeofSntpS ≤ d.length) : SntpValid d := by
  obtain ⟨-, hversion, hmode⟩ := h
  rw [ucLiVnMode_recvMsg hlen] at hversion hmode
  rw [not_or] at hversion
  refine ⟨hlen, ⟨UInt8.not_lt.mp hversion.1, UInt8.not_lt.mp hversion.2⟩, ?_⟩
  by_cases hserver : msgMode (d.getD 0 0) = modeServer
  · exact Or.inl hserver
  · exact Or.inr (Decidable.not_not.mp fun hbroadcast => hmode ⟨hserver, hbroadcast⟩)

/-- The local variable is read before it is set exactly when there is a flag and no originate timestamp. -/
theorem tNowTV_sntpNow (tOrig tRecv tXmt : TTS) (h : iFlag = 0 ∨ ¬(tOrig.intg = 0 ∧ tOrig.frag = 0)) (u' : SntpLocals) :
    (sntpNow arch tOrig tRecv tXmt dest iFlag u).tNowTV = (sntpNow arch tOrig tRecv tXmt dest iFlag u').tNowTV := by
  by_cases hflag : iFlag = 0
  · simp only [sntpNow, if_pos hflag]
  · simp only [sntpNow, if_neg hflag, if_neg (h.resolve_left hflag)]

theorem sntpNow_of_zero (tOrig tRecv tXmt : TTS) (hflag : iFlag ≠ 0) (h : tOrig.intg = 0 ∧ tOrig.frag = 0) :
    sntpNow arch tOrig tRecv tXmt dest iFlag u = u := by
  rw [sntpNow, if_neg hflag, if_pos h]

/-- The clock is set safely exactly when a datagram that passes the checks is a whole message, and has an originate
    timestamp if there is a flag. -/
theorem setsSafely_iff (arch : Arch) (d : List UInt8) (dest : TTS) (iFlag : Int) : SetsSafely arch d dest iFlag ↔
    (SntpRecvOk arch (recvMsg d) (min d.length sizeofSntpS) → sizeofSntpS ≤ d.length ∧
      (iFlag = 0 ∨ ¬((recvMsg d).tOrig.ntohl.intg = 0 ∧ (recvMsg d).tOrig.ntohl.frag = 0))) := by
  constructor
  · intro hs hok
    refine ⟨Nat.le_of_not_lt fun hlt => ?_, ?_⟩
    · have hnone := (hs.rejects (fun hv => Nat.not_le_of_lt hlt hv.length) ⟨⟨0, 0⟩, ⟨0, 0⟩⟩ fun _ => 0).2
      rw [onDatagram, clock_sntpRecvHandle hok] at hnone
      cases hnone
    · by_cases hflag : iFlag = 0
      · exact Or.inl hflag
      · refine Or.inr fun hzero => ?_
        have heq := hs.determined ⟨⟨0, 0⟩, ⟨0, 0⟩⟩ ⟨⟨1, 0⟩, ⟨0, 0⟩⟩ (fun _ => 0) fun _ => 0
        rw [onDatagram, onDatagram, clock_sntpRecvHandle hok, clock_sntpRecvHandle hok,
          sntpNow_of_zero _ _ _ hflag hzero, sntpNow_of_zero _ _ _ hflag hzero] at heq
        simp at heq
  · intro hcond
    refine ⟨fun hv u st => ?_, fun u u' st st' => ?_⟩
    · have hnot : ¬SntpRecvOk arch (recvMsg d) (min d.length sizeofSntpS) := fun hok => hv (hok.valid (hcond hok).1)
      rw [onDatagram, sntpRecvHandle_of_not hnot]
      exact ⟨rfl, rfl⟩
    · by_cases hok : SntpRecvOk arch (recvMsg d) (min d.length sizeofSntpS)
      · rw [onDatagram, onDatagram, clock_sntpRecvHandle hok, clock_sntpRecvHandle hok,
          tNowTV_sntpNow _ _ _ (hcond hok).2 u']
      · rw [onDatagram, onDatagram, sntpRecvHandle_of_not hok, sntpRecvHandle_of_not hok]

/-- In an exchange with the server of the repository, the clock is set to what the local variable holds. -/
theorem clock_serverReply (asked received sent : Option Clock) (stack : TTS) (hflag : iFlag ≠ 0) :
    (onDatagram arch (serverReply (sntpRequest asked) received sent stack).bytes dest iFlag u st).clock =
      some (u.tNowTV, ⟨-480, 0⟩) := by
  have hok : SntpRecvOk arch (serverReply (sntpRequest asked) received sent stack) sizeofSntpS :=
    sntpRecvOk_sntpSendPacket _ _ _
  have hswap : TTS.ntohl ⟨0, 0⟩ = ⟨0, 0⟩ := by decide
  have hzero : (serverReply (sntpRequest asked) received sent stack).tOrig.ntohl = ⟨0, 0⟩ :=
    (TTS.ntohl_htonl _).trans hswap
  rw [onDatagram_bytes, clock_sntpRecvHandle hok, sntpNow_of_zero _ _ _ hflag (by simp [hzero])]

/-- Four bytes set the clock, and the packet that answers the client's own request sets it to two values. -/
theorem clock_set_unsafely :
    (onDatagram .bits32 [0x24, 0, 0, 0] ⟨0, 0⟩ 0 ⟨⟨0, 0⟩, ⟨0, 0⟩⟩ fun _ => 0).clock ≠ none ∧ ¬SntpValid [0x24, 0, 0, 0] ∧
    ∃ d, d = (serverReply (sntpRequest none) none none ⟨0, 0⟩).bytes ∧
      (onDatagram .bits32 d ⟨0, 0⟩ 1 ⟨⟨0, 0⟩, ⟨0, 0⟩⟩ fun _ => 0).clock ≠
        (onDatagram .bits32 d ⟨0, 0⟩ 1 ⟨⟨1, 0⟩, ⟨0, 0⟩⟩ fun _ => 0).clock := by
  refine ⟨by decide +kernel, fun hv => absurd hv.length (by decide), _, rfl, by decide +kernel⟩

end

end Recbcsrv
