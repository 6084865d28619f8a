import Mathlib.Data.List.Induction
import Mathlib.Logic.Function.Basic
import Recbcsrv.Lib.Bytes
import Recbcsrv.Lib.Exec

/-! The live stream. `thread_localsave` sends a header and the frame on `p_localsave->sock`, and closes the connection when
    a send is short; `thread_connect_liveserver` opens another one as soon as it finds the field at -1. They share no
    lock, and the field is read anew between the two sends. -/

namespace Recbcsrv
open Bytes

/-- `PACKET_TYPE_VIDEO` and `PACKET_TYPE_AUDIO`. -/
inductive PacketType where
  | video
  | audio
  deriving DecidableEq, Repr

def PacketType.code : PacketType → UInt32
  | video => 1
  | audio => 2

/-- A frame of the live stream, with the timestamp that the thread counts for it. -/
structure LiveFrame where
  type : PacketType
  timestamp : UInt32
  data : List UInt8
  deriving DecidableEq, Repr

def streamingPacketHeaderLength : Nat := 16

/-- `t_streaming_packet_header`. -/
def LiveFrame.header (f : LiveFrame) : List UInt8 :=
  le32 (UInt32.ofNat f.data.length) ++ le32 f.type.code ++ le32 0 ++ le32 f.timestamp

def LiveFrame.packet (f : LiveFrame) : List UInt8 := f.header ++ f.data

namespace LiveStream

/-- The two sends of a frame. -/
inductive Part where
  | header
  | payload
  deriving DecidableEq, Repr

def Part.bytes (f : LiveFrame) : Part → List UInt8
  | header => f.header
  | payload => f.data

/-- A call of `send` on a connection, for the frame with the number `seq`, and what it returned. -/
structure Sent where
  part : Part
  seq : Nat
  frame : LiveFrame
  ret : Int
  deriving DecidableEq, Repr

/-- Where `thread_localsave` is: at the test of the field before a send, at its reading for the send, at the send, and
    after a short one at `close` and at the assignment of -1. -/
inductive SenderPc where
  | idle
  | test (p : Part) (seq : Nat) (f : LiveFrame)
  | read (p : Part) (seq : Nat) (f : LiveFrame)
  | send (p : Part) (seq : Nat) (f : LiveFrame) (sock : Option Nat)
  | close (p : Part) (seq : Nat) (f : LiveFrame)
  | reset (p : Part) (seq : Nat) (f : LiveFrame)
  deriving DecidableEq, Repr

/-- Where `thread_connect_liveserver` is: at the test of the field, at `connect`, and at the assignment of the new socket. -/
inductive ConnectorPc where
  | idle
  | connecting
  | connected (c : Nat)
  deriving DecidableEq, Repr

/-- The code after a part. -/
def Part.next (seq : Nat) (f : LiveFrame) : Part → SenderPc
  | header => .test payload seq f
  | payload => .idle

end LiveStream

open LiveStream

/-- The field `sock`, the two threads, and what has been sent on each connection. Connections are numbered as they are made. -/
structure LiveStream where
  sock : Option Nat
  connector : ConnectorPc
  sender : SenderPc
  opened : Nat
  taken : Nat
  sent : Nat → List Sent

namespace LiveStream

def init : LiveStream := ⟨none, .idle, .idle, 0, 0, fun _ => []⟩

/-- An atomic step. -/
inductive Act where
  | test
  | connect (ok : Bool)
  | publish
  | take (f : LiveFrame)
  | sender (ret : Int)

/-- The next step of `thread_localsave`; `ret` is what a send returns. -/
def advance (s : LiveStream) (ret : Int) : Option LiveStream :=
  match s.sender with
  | .idle => none
  | .test p seq f => some { s with sender := if s.sock = none then .idle else .read p seq f }
  | .read p seq f => some { s with sender := .send p seq f s.sock }
  | .send p seq f sock =>
    if -1 ≤ ret ∧ ret ≤ (p.bytes f).length ∧ (sock = none → ret = -1) then
      some { s with
        sender := if ret < (p.bytes f).length then .close p seq f else p.next seq f
        sent := sock.elim s.sent fun c => Function.update s.sent c (s.sent c ++ [⟨p, seq, f, ret⟩]) }
    else none
  | .close p seq f => some { s with sender := .reset p seq f }
  | .reset p seq f => some { s with sender := p.next seq f, sock := none }

def step (s : LiveStream) : Act → Option LiveStream
  | .test =>
    if s.connector = .idle then some { s with connector := if s.sock = none then .connecting else .idle } else none
  | .connect ok =>
    if s.connector = .connecting then
      some (if ok then { s with connector := .connected s.opened, opened := s.opened + 1 } else { s with connector := .idle })
    else none
  | .publish =>
    match s.connector with
    | .connected c => some { s with connector := .idle, sock := some c }
    | _ => none
  | .take f => if s.sender = .idle then some { s with sender := .test .header s.taken f, taken := s.taken + 1 } else none
  | .sender ret => s.advance ret

/-! ### Framing -/

/-- The sends of a frame that is sent completely. -/
def packetSends (x : Nat × LiveFrame) : List Sent :=
  [⟨.header, x.1, x.2, streamingPacketHeaderLength⟩, ⟨.payload, x.1, x.2, x.2.data.length⟩]

/-- The sends of a frame that may be cut short. -/
inductive Cut : List Sent → Prop where
  | none : Cut []
  | header (seq : Nat) (f : LiveFrame) (ret : Int) (hret : ret ≤ streamingPacketHeaderLength) : Cut [⟨.header, seq, f, ret⟩]
  | payload (seq : Nat) (f : LiveFrame) (ret : Int) (hret : ret ≤ f.data.length) :
      Cut [⟨.header, seq, f, streamingPacketHeaderLength⟩, ⟨.payload, seq, f, ret⟩]

/-- Complete packets, and one that may be cut short. -/
def WellFramed (l : List Sent) : Prop :=
  ∃ (frames : List (Nat × LiveFrame)) (last : List Sent), Cut last ∧ l = frames.flatMap packetSends ++ last

/-- The bytes that a send has delivered. -/
def Sent.delivered (x : Sent) : List UInt8 := (x.part.bytes x.frame).take x.ret.toNat

/-- Every connection is well framed, in its sends and in its bytes. -/
structure Framed (s : LiveStream) : Prop where
  sends : ∀ c, WellFramed (s.sent c)
  bytes : ∀ c, ∃ frames : List LiveFrame, (s.sent c).flatMap Sent.delivered <+: frames.flatMap LiveFrame.packet

variable {s t : LiveStream} {a : Act} {as : List Act} {l : List Sent} {c seq : Nat} {f : LiveFrame} {p : Part} {ret : Int}

theorem delivered_header (f : LiveFrame) (seq : Nat) :
    Sent.delivered ⟨.header, seq, f, streamingPacketHeaderLength⟩ = f.header := rfl

theorem delivered_packet (x : Nat × LiveFrame) : (packetSends x).flatMap Sent.delivered = x.2.packet := by
  have hdata : Sent.delivered ⟨.payload, x.1, x.2, x.2.data.length⟩ = x.2.data := List.take_length
  rw [packetSends, List.flatMap_cons, List.flatMap_singleton, delivered_header, hdata]
  rfl

theorem Cut.delivered {last : List Sent} (h : Cut last) : ∃ f : LiveFrame, last.flatMap Sent.delivered <+: f.packet := by
  cases h with
  | none => exact ⟨⟨.video, 0, []⟩, List.nil_prefix⟩
  | header seq f ret =>
    refine ⟨f, ?_⟩
    rw [List.flatMap_singleton]
    exact (List.take_prefix _ _).trans (List.prefix_append _ _)
  | payload seq f ret =>
    refine ⟨f, ?_⟩
    rw [List.flatMap_cons, List.flatMap_singleton, delivered_header]
    exact (List.prefix_append_right_inj f.header).mpr (List.take_prefix _ f.data)

/-- Where the sends are well framed, so are the bytes. -/
theorem WellFramed.bytes (h : WellFramed l) :
    ∃ frames : List LiveFrame, l.flatMap Sent.delivered <+: frames.flatMap LiveFrame.packet := by
  obtain ⟨frames, last, hlast, rfl⟩ := h
  obtain ⟨f, hf⟩ := hlast.delivered
  refine ⟨frames.map Prod.snd ++ [f], ?_⟩
  have hwhole : (frames.flatMap packetSends).flatMap Sent.delivered = (frames.map Prod.snd).flatMap LiveFrame.packet := by
    rw [List.flatMap_assoc, List.flatMap_map]
    exact List.flatMap_congr fun x _ => delivered_packet x
  rw [List.flatMap_append, List.flatMap_append, hwhole, List.flatMap_singleton]
  exact (List.prefix_append_right_inj _).mpr hf

theorem framed_of_sends (h : ∀ c, WellFramed (s.sent c)) : s.Framed := ⟨h, fun c => (h c).bytes⟩

/-! ### The field -/

/-- All that a step can do. -/
inductive Step (s : LiveStream) : Act → LiveStream → Prop where
  | found (hpc : s.connector = .idle) (hsock : s.sock = none) : Step s .test { s with connector := .connecting }
  | wait (hpc : s.connector = .idle) (hsock : s.sock ≠ none) : Step s .test { s with connector := .idle }
  | connect (hpc : s.connector = .connecting) :
      Step s (.connect true) { s with connector := .connected s.opened, opened := s.opened + 1 }
  | refused (hpc : s.connector = .connecting) : Step s (.connect false) { s with connector := .idle }
  | publish {c : Nat} (hpc : s.connector = .connected c) : Step s .publish { s with connector := .idle, sock := some c }
  | take (f : LiveFrame) (hpc : s.sender = .idle) :
      Step s (.take f) { s with sender := .test .header s.taken f, taken := s.taken + 1 }
  | skip {p : Part} {seq : Nat} {f : LiveFrame} {ret : Int} (hpc : s.sender = .test p seq f) (hsock : s.sock = none) :
      Step s (.sender ret) { s with sender := .idle }
  | test {p : Part} {seq : Nat} {f : LiveFrame} {ret : Int} (hpc : s.sender = .test p seq f) (hsock : s.sock ≠ none) :
      Step s (.sender ret) { s with sender := .read p seq f }
  | read {p : Part} {seq : Nat} {f : LiveFrame} {ret : Int} (hpc : s.sender = .read p seq f) :
      Step s (.sender ret) { s with sender := .send p seq f s.sock }
  | send {p : Part} {seq : Nat} {f : LiveFrame} {ret : Int} {v : Option Nat} (hpc : s.sender = .send p seq f v)
      (hlow : -1 ≤ ret) (hret : ret ≤ (p.bytes f).length) (hv : v = none → ret = -1) :
      Step s (.sender ret) { s with
        sender := if ret < (p.bytes f).length then .close p seq f else p.next seq f
        sent := v.elim s.sent fun c => Function.update s.sent c (s.sent c ++ [⟨p, seq, f, ret⟩]) }
  | close {p : Part} {seq : Nat} {f : LiveFrame} {ret : Int} (hpc : s.sender = .close p seq f) :
      Step s (.sender ret) { s with sender := .reset p seq f }
  | reset {p : Part} {seq : Nat} {f : LiveFrame} {ret : Int} (hpc : s.sender = .reset p seq f) :
      Step s (.sender ret) { s with sender := p.next seq f, sock := none }

theorem advance_cases (h : s.advance ret = some t) : s.Step (.sender ret) t := by
  unfold advance at h
  split at h
  · cases h
  · next p seq f hpc =>
    cases h
    split
    · next hsock => exact .skip hpc hsock
    · next hsock => exact .test hpc hsock
  · next hpc =>
    cases h
    exact .read hpc
  · next hpc =>
    split at h
    · next hret =>
      cases h
      exact .send hpc hret.1 hret.2.1 hret.2.2
    · cases h
  · next hpc =>
    cases h
    exact .close hpc
  · next hpc =>
    cases h
    exact .reset hpc

theorem step_cases (h : s.step a = some t) : s.Step a t := by
  cases a with
  | test =>
    dsimp only [step] at h
    split at h
    · next hpc =>
      cases h
      split
      · next hsock => exact .found hpc hsock
      · next hsock => exact .wait hpc hsock
    · cases h
  | connect ok =>
    dsimp only [step] at h
    split at h
    · next hpc =>
      cases h
      cases ok with
      | true => exact .connect hpc
      | false => exact .refused hpc
    · cases h
  | publish =>
    dsimp only [step] at h
    split at h
    · next hpc =>
      cases h
      exact .publish hpc
    · cases h
  | take f =>
    dsimp only [step] at h
    split at h
    · next hpc =>
      cases h
      exact .take f hpc
    · cases h
  | sender ret => exact advance_cases h

/-- At these pcs the field holds a connection, the one that has been read from it. -/
def SenderPc.Holds (sock : Option Nat) : SenderPc → Prop
  | .idle => True
  | .test _ _ _ => True
  | .send _ _ _ v => v = sock ∧ sock ≠ none
  | _ => sock ≠ none

theorem holds_next (sock : Option Nat) : (p.next seq f).Holds sock := by
  cases p <;> trivial

/-- Only while the field is -1 is a connection made, and none is used before it is in the field. -/
structure Ordered (s : LiveStream) : Prop where
  holds : s.sender.Holds s.sock
  waits : s.connector ≠ .idle → s.sock = none
  fresh : ∀ c, s.connector = .connected c → c < s.opened ∧ s.sent c = []
  used : ∀ c, s.sock = some c → c < s.opened
  unused : ∀ c, s.opened ≤ c → s.sent c = []

theorem ordered_init : init.Ordered := by
  refine ⟨trivial, fun _ => rfl, fun c hc => ?_, fun c hc => ?_, fun _ _ => rfl⟩
  · cases hc
  · cases hc

/-- The send is one on the connection in the field, and no other is being made. -/
theorem Ordered.sending {v : Option Nat} (h : s.Ordered) (hpc : s.sender = .send p seq f v) :
    ∃ c, v = some c ∧ s.sock = some c ∧ s.connector = .idle := by
  have hholds := h.holds
  rw [hpc] at hholds
  obtain ⟨rfl, hne⟩ := hholds
  obtain ⟨c, hc⟩ := Option.ne_none_iff_exists'.mp hne
  refine ⟨c, hc, hc, ?_⟩
  by_contra hbusy
  exact hne (h.waits hbusy)

theorem Ordered.step (h : s.Ordered) (hstep : s.step a = some t) : t.Ordered := by
  have hholds := h.holds
  cases step_cases hstep with
  | found hpc hsock =>
    refine ⟨hholds, fun _ => hsock, fun c hc => ?_, h.used, h.unused⟩
    cases hc
  | wait hpc hsock =>
    refine ⟨hholds, fun hbusy => absurd rfl hbusy, fun c hc => ?_, h.used, h.unused⟩
    cases hc
  | connect hpc =>
    have hsock : s.sock = none := h.waits (by rw [hpc]; exact ConnectorPc.noConfusion)
    refine ⟨hholds, fun _ => hsock, fun c hc => ?_, fun c hc => Nat.lt_succ_of_lt (h.used c hc),
      fun c hc => h.unused c (Nat.le_of_succ_le hc)⟩
    cases hc
    exact ⟨Nat.lt_succ_self _, h.unused _ (Nat.le_refl _)⟩
  | refused hpc =>
    refine ⟨hholds, fun hbusy => absurd rfl hbusy, fun c hc => ?_, h.used, h.unused⟩
    cases hc
  | @publish c hpc =>
    have hsock : s.sock = none := h.waits (by rw [hpc]; exact ConnectorPc.noConfusion)
    refine ⟨?_, fun hbusy => absurd rfl hbusy, fun d hd => ?_, fun d hd => ?_, h.unused⟩
    · change s.sender.Holds (some c)
      rw [hsock] at hholds
      cases hs : s.sender with
      | idle => trivial
      | test => trivial
      | send =>
        rw [hs] at hholds
        exact absurd rfl hholds.2
      | _ =>
        rw [hs] at hholds
        exact absurd rfl hholds
    · cases hd
    · cases hd
      exact (h.fresh c hpc).1
  | take f hpc => exact ⟨trivial, h.waits, h.fresh, h.used, h.unused⟩
  | skip hpc hsock => exact ⟨trivial, h.waits, h.fresh, h.used, h.unused⟩
  | test hpc hsock => exact ⟨hsock, h.waits, h.fresh, h.used, h.unused⟩
  | read hpc =>
    rw [hpc] at hholds
    exact ⟨⟨rfl, hholds⟩, h.waits, h.fresh, h.used, h.unused⟩
  | send hpc hlow hret hv =>
    obtain ⟨c, rfl, hsock, hidle⟩ := h.sending hpc
    refine ⟨?_, h.waits, fun d hd => ?_, h.used, fun d hd => ?_⟩
    · dsimp only
      split
      · exact fun hnone => Option.some_ne_none c (hsock.symm.trans hnone)
      · exact holds_next _
    · cases hidle.symm.trans hd
    · have hne : d ≠ c := fun he => Nat.lt_irrefl _ (Nat.lt_of_lt_of_le (h.used c hsock) (he ▸ hd))
      exact (Function.update_of_ne hne ..).trans (h.unused d hd)
  | close hpc =>
    rw [hpc] at hholds
    exact ⟨hholds, h.waits, h.fresh, h.used, h.unused⟩
  | reset hpc =>
    refine ⟨holds_next _, fun _ => rfl, h.fresh, fun c hc => ?_, h.unused⟩
    cases hc

/-! ### What keeps the framing -/

/-- What has been sent on a connection on which the part is sent next. -/
def Part.Ready (seq : Nat) (f : LiveFrame) (l : List Sent) : Part → Prop
  | header => ∃ frames : List (Nat × LiveFrame), l = frames.flatMap packetSends
  | payload => ∃ frames : List (Nat × LiveFrame), l = frames.flatMap packetSends ++ [⟨.header, seq, f, streamingPacketHeaderLength⟩]

def SenderPc.Ready (l : List Sent) : SenderPc → Prop
  | .idle => ∃ frames : List (Nat × LiveFrame), l = frames.flatMap packetSends
  | .test p seq f => p.Ready seq f l
  | .read p seq f => p.Ready seq f l
  | .send p seq f _ => p.Ready seq f l
  | _ => True

/-- Every connection is well framed, and the one in the field is ready for what comes next. -/
structure Framing (s : LiveStream) : Prop where
  sends : ∀ c, WellFramed (s.sent c)
  ready : ∀ c, s.sock = some c → s.sender.Ready (s.sent c)

theorem framing_init : init.Framing := by
  refine ⟨fun c => ⟨[], [], .none, rfl⟩, fun c hc => ?_⟩
  cases hc

theorem Part.Ready.wellFramed (h : p.Ready seq f l) (hret : ret ≤ (p.bytes f).length) : WellFramed (l ++ [⟨p, seq, f, ret⟩]) := by
  cases p with
  | header =>
    obtain ⟨frames, rfl⟩ := h
    exact ⟨frames, _, .header seq f ret hret, rfl⟩
  | payload =>
    obtain ⟨frames, rfl⟩ := h
    exact ⟨frames, _, .payload seq f ret hret, List.append_assoc ..⟩

/-- After a complete send the connection is ready for the next one. -/
theorem Part.Ready.next (h : p.Ready seq f l) (hret : ret = (p.bytes f).length) :
    (p.next seq f).Ready (l ++ [⟨p, seq, f, ret⟩]) := by
  subst hret
  cases p with
  | header =>
    obtain ⟨frames, rfl⟩ := h
    exact ⟨frames, rfl⟩
  | payload =>
    obtain ⟨frames, rfl⟩ := h
    refine ⟨frames ++ [(seq, f)], ?_⟩
    rw [List.flatMap_append, List.flatMap_singleton, List.append_assoc]
    rfl

theorem Framing.step (h : s.Framing) (hs : s.Ordered) (hstep : s.step a = some t)
    (htimely : a = .publish → ∀ seq f, s.sender ≠ .test .payload seq f) : t.Framing := by
  have hready := h.ready
  cases step_cases hstep with
  | found hpc hsock => exact ⟨h.sends, hready⟩
  | wait hpc hsock => exact ⟨h.sends, hready⟩
  | connect hpc => exact ⟨h.sends, hready⟩
  | refused hpc => exact ⟨h.sends, hready⟩
  | @publish c hpc =>
    refine ⟨h.sends, fun d hd => ?_⟩
    cases hd
    have hsock : s.sock = none := hs.waits (by rw [hpc]; exact ConnectorPc.noConfusion)
    have hholds := hs.holds
    rw [hsock] at hholds
    change s.sender.Ready (s.sent c)
    rw [(hs.fresh c hpc).2]
    cases hsender : s.sender with
    | idle => exact ⟨[], rfl⟩
    | test p seq f =>
      cases p with
      | header => exact ⟨[], rfl⟩
      | payload => exact absurd hsender (htimely rfl seq f)
    | send =>
      rw [hsender] at hholds
      exact absurd rfl hholds.2
    | _ =>
      rw [hsender] at hholds
      exact absurd rfl hholds
  | take f hpc =>
    rw [hpc] at hready
    exact ⟨h.sends, hready⟩
  | skip hpc hsock =>
    refine ⟨h.sends, fun c hc => ?_⟩
    cases hsock.symm.trans hc
  | test hpc hsock =>
    rw [hpc] at hready
    exact ⟨h.sends, hready⟩
  | read hpc =>
    rw [hpc] at hready
    exact ⟨h.sends, hready⟩
  | @send p seq f ret v hpc hlow hret hv =>
    obtain ⟨c, rfl, hsock, -⟩ := hs.sending hpc
    have hc : p.Ready seq f (s.sent c) := by
      have hc := hready c hsock
      rwa [hpc] at hc
    refine ⟨fun d => ?_, fun d hd => ?_⟩
    · dsimp only [Option.elim_some]
      by_cases hd : d = c
      · rw [hd, Function.update_self]
        exact hc.wellFramed hret
      · rw [Function.update_of_ne hd]
        exact h.sends d
    · obtain rfl : c = d := Option.some.inj (hsock.symm.trans hd)
      dsimp only [Option.elim_some]
      rw [Function.update_self]
      split
      · trivial
      · next hfull => exact hc.next (by omega)
  | close hpc => exact ⟨h.sends, fun _ _ => trivial⟩
  | reset hpc =>
    refine ⟨h.sends, fun c hc => ?_⟩
    cases hc

/-! ### What breaks it -/

/-- The frame is sent next on a connection without its header. -/
def Pending (s : LiveStream) : Prop :=
  ∃ seq f c, s.sock = some c ∧ s.sent c = [] ∧
    (s.sender = .test .payload seq f ∨ s.sender = .read .payload seq f ∨ s.sender = .send .payload seq f (some c))

/-- A connection begins without a header. -/
def Torn (s : LiveStream) : Prop := ∃ c x rest, s.sent c = x :: rest ∧ x.part = .payload

theorem Torn.not_framed (h : s.Torn) : ¬s.Framed := by
  intro hframed
  obtain ⟨c, x, rest, hsent, hx⟩ := h
  obtain ⟨frames, last, hlast, hl⟩ := hframed.sends c
  rw [hsent] at hl
  cases frames with
  | nil =>
    rw [List.flatMap_nil, List.nil_append] at hl
    subst hl
    cases hlast with
    | header => cases hx
    | payload => cases hx
  | cons y frames =>
    obtain ⟨rfl, -⟩ := List.cons.inj hl
    cases hx

theorem Torn.step (h : s.Torn) (hstep : s.step a = some t) : t.Torn := by
  obtain ⟨c, x, rest, hsent, hx⟩ := h
  cases step_cases hstep with
  | @send p seq f ret v hpc hlow hret hv =>
    cases v with
    | none => exact ⟨c, x, rest, hsent, hx⟩
    | some d =>
      by_cases hcd : c = d
      · subst hcd
        refine ⟨c, x, rest ++ [⟨p, seq, f, ret⟩], ?_, hx⟩
        dsimp only [Option.elim_some]
        rw [Function.update_self, hsent, List.cons_append]
      · exact ⟨c, x, rest, (Function.update_of_ne (f := s.sent) hcd ..).trans hsent, hx⟩
  | _ => exact ⟨c, x, rest, hsent, hx⟩

/-- The frame is sent. -/
theorem torn_of_send {seq : Nat} {f : LiveFrame} {c : Nat} (hsent : s.sent c = []) (hpc : s.sender = .send .payload seq f (some c))
    (hstep : s.step (.sender ret) = some t) : t.Torn := by
  cases step_cases hstep with
  | send hpc' hlow hret hv =>
    cases hpc.symm.trans hpc'
    refine ⟨c, ⟨.payload, seq, f, ret⟩, [], ?_, rfl⟩
    dsimp only [Option.elim_some]
    rw [Function.update_self, hsent, List.nil_append]
  | skip hpc' => cases hpc.symm.trans hpc'
  | test hpc' => cases hpc.symm.trans hpc'
  | read hpc' => cases hpc.symm.trans hpc'
  | close hpc' => cases hpc.symm.trans hpc'
  | reset hpc' => cases hpc.symm.trans hpc'

/-- The other thread does nothing about it. -/
theorem Pending.step (h : s.Pending) (hs : s.Ordered) (hstep : s.step a = some t) : t.Pending ∨ t.Torn := by
  obtain ⟨seq, f, c, hsock, hsent, hpcs⟩ := h
  have hidle : s.connector = .idle := by
    by_contra hbusy
    cases (hs.waits hbusy).symm.trans hsock
  cases step_cases hstep with
  | found hpc hnone => cases hnone.symm.trans hsock
  | wait hpc => exact .inl ⟨seq, f, c, hsock, hsent, hpcs⟩
  | connect hpc => cases hpc.symm.trans hidle
  | refused hpc => cases hpc.symm.trans hidle
  | publish hpc => cases hpc.symm.trans hidle
  | take g hpc =>
    rw [hpc] at hpcs
    rcases hpcs with hpcs | hpcs | hpcs <;> cases hpcs
  | skip hpc hnone => cases hnone.symm.trans hsock
  | test hpc hne =>
    rw [hpc] at hpcs
    rcases hpcs with hpcs | hpcs | hpcs <;> cases hpcs
    exact .inl ⟨seq, f, c, hsock, hsent, .inr (.inl rfl)⟩
  | read hpc =>
    rw [hpc] at hpcs
    rcases hpcs with hpcs | hpcs | hpcs <;> cases hpcs
    exact .inl ⟨seq, f, c, hsock, hsent, .inr (.inr (congrArg _ hsock))⟩
  | send hpc hlow hret hv =>
    rw [hpc] at hpcs
    rcases hpcs with hpcs | hpcs | hpcs <;> cases hpcs
    exact .inr (torn_of_send hsent hpc hstep)
  | close hpc =>
    rw [hpc] at hpcs
    rcases hpcs with hpcs | hpcs | hpcs <;> cases hpcs
  | reset hpc =>
    rw [hpc] at hpcs
    rcases hpcs with hpcs | hpcs | hpcs <;> cases hpcs

/-- Left alone, `thread_localsave` sends the frame. -/
theorem Pending.torn (h : s.Pending) :
    ∃ (rets : List Int) (t : LiveStream), Exec.exec LiveStream.step s (rets.map .sender) = some t ∧ t.Torn := by
  obtain ⟨seq, f, c, hsock, hsent, hpcs⟩ := h
  have hsend : ∀ s : LiveStream, s.sent c = [] → s.sender = .send .payload seq f (some c) →
      ∃ t, s.step (.sender (-1)) = some t ∧ t.Torn := by
    intro s hsent hpc
    have hret : -1 ≤ (-1 : Int) ∧ (-1 : Int) ≤ (Part.payload.bytes f).length ∧ (some c = none → (-1 : Int) = -1) :=
      ⟨Int.le_refl _, by omega, fun _ => rfl⟩
    obtain ⟨t, ht⟩ : ∃ t, s.step (.sender (-1)) = some t := by
      rw [LiveStream.step, advance, hpc]
      exact ⟨_, if_pos hret⟩
    exact ⟨t, ht, torn_of_send hsent hpc ht⟩
  have hread : ∀ s : LiveStream, s.sock = some c → s.sent c = [] → s.sender = .read .payload seq f →
      ∃ t, Exec.exec LiveStream.step s [.sender 0, .sender (-1)] = some t ∧ t.Torn := by
    intro s hsock hsent hpc
    obtain ⟨sock, connector, sender, opened, taken, sent⟩ := s
    dsimp only at hsock hsent hpc
    subst hsock hpc
    obtain ⟨t, hstep, ht⟩ := hsend ⟨some c, connector, .send .payload seq f (some c), opened, taken, sent⟩ hsent rfl
    exact ⟨t, Exec.exec_cons.mpr ⟨_, rfl, Exec.exec_cons.mpr ⟨t, hstep, rfl⟩⟩, ht⟩
  rcases hpcs with hpc | hpc | hpc
  · obtain ⟨sock, connector, sender, opened, taken, sent⟩ := s
    dsimp only at hsock hsent hpc
    subst hsock hpc
    obtain ⟨t, hrun, ht⟩ := hread ⟨some c, connector, .read .payload seq f, opened, taken, sent⟩ rfl hsent rfl
    exact ⟨[0, 0, -1], t, Exec.exec_cons.mpr ⟨_, rfl, hrun⟩, ht⟩
  · obtain ⟨t, hrun, ht⟩ := hread s hsock hsent hpc
    exact ⟨[0, -1], t, hrun, ht⟩
  · obtain ⟨t, hstep, ht⟩ := hsend s hsent hpc
    exact ⟨[-1], t, Exec.exec_cons.mpr ⟨t, hstep, rfl⟩, ht⟩

/-! ### The run -/

/-- A run of the two threads. -/
abbrev Runs (as : List Act) (s : LiveStream) : Prop := Exec.exec LiveStream.step init as = some s

theorem Runs.ordered (h : Runs as s) : s.Ordered :=
  Exec.exec_invariant (fun _ _ _ hs hstep => Ordered.step hs hstep) ordered_init h

/-- No connection comes into the field between the assignment of -1 after a short header and the test before the frame. -/
def Timely (as : List Act) : Prop :=
  ∀ pre post s, as = pre ++ .publish :: post → Runs pre s → ∀ seq f, s.sender ≠ .test .payload seq f

theorem timely_iff : Timely as ↔ ∀ pre b post, as = pre ++ b :: post →
    b = .publish → ∀ s, Runs pre s → ∀ seq f, s.sender ≠ .test .payload seq f := by
  constructor
  · rintro h pre b post has rfl s hpre
    exact h pre post s has hpre
  · intro h pre post s has hpre
    exact h pre .publish post has rfl s hpre

theorem timely_concat (hrun : Runs as s) :
    Timely (as ++ [a]) ↔ Timely as ∧ (a = .publish → ∀ seq f, s.sender ≠ .test .payload seq f) := by
  rw [timely_iff, timely_iff, Exec.forall_split_concat (P := fun pre b => b = .publish → ∀ s, Runs pre s → ∀ seq f,
    s.sender ≠ .test .payload seq f)]
  refine and_congr_right fun _ => ⟨fun h ha => h ha s hrun, fun h ha u hu => ?_⟩
  obtain rfl : s = u := Option.some.inj (hrun.symm.trans hu)
  exact h ha

/-- A timely run keeps the framing, and any other one leads to its loss. -/
theorem Runs.framing (h : Runs as s) : (Timely as → s.Framing) ∧ (¬Timely as → s.Pending ∨ s.Torn) := by
  induction as using List.reverseRecOn generalizing s with
  | nil =>
    cases h
    have htimely : Timely [] := fun pre post s hsplit => by simp at hsplit
    exact ⟨fun _ => framing_init, fun hlate => absurd htimely hlate⟩
  | append_singleton as a ih =>
    obtain ⟨u, hu, hlast⟩ := Exec.exec_append.mp h
    obtain ⟨t, hstep, ht⟩ := Exec.exec_cons.mp hlast
    cases ht
    obtain ⟨hgood, hbad⟩ := ih hu
    have hordered := Runs.ordered hu
    rw [timely_concat hu]
    refine ⟨fun ⟨htimely, hnow⟩ => (hgood htimely).step hordered hstep hnow, fun hlate => ?_⟩
    by_cases htimely : Timely as
    · rw [not_and] at hlate
      have hlate := hlate htimely
      simp only [Classical.not_imp, not_forall, not_not] at hlate
      obtain ⟨rfl, seq, f, hpc⟩ := hlate
      cases step_cases hstep with
      | @publish c hc => exact .inl ⟨seq, f, c, rfl, (hordered.fresh c hc).2, .inl hpc⟩
    · rcases hbad htimely with hpending | htorn
      · exact hpending.step hordered hstep
      · exact .inr (htorn.step hstep)

end LiveStream

/-- The live stream is well framed on every connection, however `thread_localsave` goes on, exactly when no connection comes
    into the field between the assignment of -1 after a short header and the test before the frame. -/
theorem liveStream_framed_iff {as : List LiveStream.Act} {s : LiveStream} (h : LiveStream.Runs as s) :
    LiveStream.Timely as ↔
      ∀ (rets : List Int) (t : LiveStream), Exec.exec LiveStream.step s (rets.map .sender) = some t → t.Framed := by
  obtain ⟨hgood, hbad⟩ := h.framing
  constructor
  · intro htimely rets t hrun
    refine LiveStream.framed_of_sends (LiveStream.Framing.sends ?_)
    have hall := Exec.exec_invariant_mem (I := fun s => s.Framing ∧ s.Ordered) (fun a ha s t hs hstep => ?_)
      ⟨hgood htimely, h.ordered⟩ hrun
    · exact hall.1
    · obtain ⟨ret, -, rfl⟩ := List.mem_map.mp ha
      refine ⟨hs.1.step hs.2 hstep fun hpub => ?_, hs.2.step hstep⟩
      cases hpub
  · intro hall
    by_contra hlate
    rcases hbad hlate with hpending | htorn
    · obtain ⟨rets, t, hrun, ht⟩ := hpending.torn
      exact ht.not_framed (hall rets t hrun)
    · exact htorn.not_framed (hall [] s rfl)

namespace LiveStream

/-- A frame of one byte. -/
def oneByte : LiveFrame := ⟨.video, 0, [0]⟩

/-- The first connection. -/
def connected : List Act := [.test, .connect true, .publish]

theorem timely_connected : Timely connected := by
  intro pre post s hsplit hrun seq f hpc
  rcases pre with _ | ⟨a, _ | ⟨b, _ | ⟨c, pre⟩⟩⟩
  · cases hsplit
  · cases hsplit
  · cases hsplit
    cases hrun
    cases hpc
  · simp [connected] at hsplit

end LiveStream

/-- Until the first send nothing can go wrong. -/
theorem liveStream_framed_iff_connected : ∃ s, LiveStream.Runs (LiveStream.connected ++ [.take LiveStream.oneByte]) s ∧
    ∀ (rets : List Int) (t : LiveStream), Exec.exec LiveStream.step s (rets.map .sender) = some t → t.Framed := by
  have hrun : LiveStream.Runs (LiveStream.connected ++ [.take LiveStream.oneByte]) _ := rfl
  refine ⟨_, hrun, (liveStream_framed_iff hrun).mp ?_⟩
  refine (LiveStream.timely_concat (s := ⟨some 0, .idle, .idle, 1, 0, fun _ => []⟩) rfl).mpr ⟨LiveStream.timely_connected, fun h => ?_⟩
  cases h

/-- The header of a frame is lost with the first connection, and the frame is sent on the second one. -/
theorem liveStream_torn : ∃ s, LiveStream.Runs (LiveStream.connected ++ [.take LiveStream.oneByte, .sender 0, .sender 0, .sender (-1),
    .sender 0, .sender 0] ++ LiveStream.connected ++ [.sender 0, .sender 0, .sender 1]) s ∧ ¬s.Framed :=
  ⟨_, rfl, LiveStream.Torn.not_framed ⟨1, ⟨.payload, 0, LiveStream.oneByte, 1⟩, [], rfl, rfl⟩⟩

end Recbcsrv
