import Recbcsrv.Message.Walk

/-! `getMsg` on a TCP stream. The bytes of the stream arrive in any portions, before and between the three
    `recv` calls of a call of `getMsg`, and each `recv` with `MSG_PEEK` may report an error, a closed
    connection or any part of what has arrived. -/

namespace Recbcsrv
open Bytes

/-! ### The socket -/

/-- The result of a `recv` with `MSG_PEEK`. -/
inductive Peek where
  | closed
  | error
  | got (n : Nat)
  deriving DecidableEq, Repr

/-- The value that `recv` returns. -/
def Peek.ret : Peek → Int
  | .closed => 0
  | .error => -1
  | .got n => n

/-- A connection: what the peer sends over its time, how much of it was consumed and how much has arrived. -/
structure Sock where
  stream : List UInt8
  pos : Nat
  arrived : Nat

namespace Sock

/-- Up to `n` more bytes arrive. -/
def arrive (s : Sock) (n : Nat) : Sock := { s with arrived := min (s.arrived + n) s.stream.length }

/-- What has arrived and was not consumed. -/
def ready (s : Sock) : List UInt8 := (s.stream.drop s.pos).take (s.arrived - s.pos)

/-- `recv(sock, buf, len, MSG_PEEK)` with the result `p`. -/
def peek (s : Sock) (buf : Mem) : Peek → Int × Mem
  | .got n => (n, store buf 0 (s.ready.take n))
  | p => (p.ret, buf)

end Sock

/-- A peek shows some of the ready bytes, no more than were asked for. -/
def Peek.Legal (s : Sock) (len : Nat) : Peek → Prop
  | .got n => 1 ≤ n ∧ n ≤ len ∧ n ≤ s.ready.length
  | _ => True

/-! ### The function -/

/-- What the network does during a call: the bytes that arrive before each `recv`, and the results of the
    first two. The third one returns what has arrived. -/
structure Schedule where
  more1 : Nat
  peek1 : Peek
  more2 : Nat
  peek2 : Peek
  more3 : Nat

/-- The outcome of a call: its value, the buffer and the connection. -/
structure Outcome where
  ret : Int
  buf : Mem
  sock : Sock

/-- `ret` in the comparison `ret<len` with an unsigned number. -/
def asUnsigned (ret : Int) : Nat := (ret % 2 ^ 32).toNat

def getMsg (buf : Mem) (s : Sock) (i : Schedule) : Outcome :=
  let s := s.arrive i.more1
  let (ret, buf) := s.peek buf i.peek1
  if ret ≤ 0 then ⟨-1, buf, s⟩
  else if ret < 10 then ⟨0, buf, s⟩
  else
    let len := hexNum (load buf 6 dataLenSize) + packetHeaderSize
    let s := s.arrive i.more2
    let (ret, buf) := s.peek buf i.peek2
    if asUnsigned ret < len then ⟨0, buf, s⟩
    else
      let s := s.arrive i.more3
      let got := s.ready.take len
      ⟨len, store buf 0 got, { s with pos := s.pos + got.length }⟩

/-- The size of the message that begins at the read position. -/
def Sock.msgSize (s : Sock) : Nat := hexNum (((s.stream.drop s.pos).drop 6).take dataLenSize) + packetHeaderSize

/-- The connection as the third `recv` finds it. -/
def Sock.atThird (s : Sock) (i : Schedule) : Sock := ((s.arrive i.more1).arrive i.more2).arrive i.more3

/-- The results of the two peeks are possible. -/
structure Schedule.Legal (s : Sock) (i : Schedule) : Prop where
  first : i.peek1.Legal (s.arrive i.more1) 10
  second : i.peek1 = .got 10 → i.peek2.Legal ((s.arrive i.more1).arrive i.more2) s.msgSize

/-- The second `recv` does not fail unless the whole message is there for the third. -/
def Schedule.Sound (s : Sock) (i : Schedule) : Prop :=
  i.peek1 = .got 10 → i.peek2 = .error → s.pos + s.msgSize ≤ (s.atThird i).arrived

/-! ### Runs -/

/-- A message: a header whose length is the size of the body, no longer than the buffer. -/
structure IsMsg (msg : List UInt8) : Prop where
  size : msg.length = hexNum ((msg.drop 6).take dataLenSize) + packetHeaderSize
  le : msg.length ≤ cmdBufsize

/-- The calls of a run: buffer, connection and schedule of each. -/
def calls : Mem → Sock → List Schedule → List (Mem × Sock × Schedule)
  | _, _, [] => []
  | buf, s, i :: is => (buf, s, i) :: calls (getMsg buf s i).buf (getMsg buf s i).sock is

/-- The messages that the calls of a run hand to their caller: for each positive value that many bytes. -/
def delivered : Mem → Sock → List Schedule → List (List UInt8)
  | _, _, [] => []
  | buf, s, i :: is =>
    let r := getMsg buf s i
    if 0 < r.ret then load r.buf 0 r.ret.toNat :: delivered r.buf r.sock is else delivered r.buf r.sock is

/-- The connection before anything has arrived. -/
def Sock.start (msgs : List (List UInt8)) : Sock := ⟨msgs.flatten, 0, 0⟩

/-- A call without a message leaves the stream where it is; with a message, that many bytes had arrived; a message that the
    peeks show whole is returned. -/
structure CallOk (x : Mem × Sock × Schedule) : Prop where
  stays : (getMsg x.1 x.2.1 x.2.2).ret ≤ 0 → (getMsg x.1 x.2.1 x.2.2).sock.pos = x.2.1.pos
  whole : 0 < (getMsg x.1 x.2.1 x.2.2).ret →
    x.2.1.pos + (getMsg x.1 x.2.1 x.2.2).ret ≤ (getMsg x.1 x.2.1 x.2.2).sock.arrived
  returns : x.2.2.peek1 = .got 10 → x.2.2.peek2 = .got x.2.1.msgSize → (getMsg x.1 x.2.1 x.2.2).ret = x.2.1.msgSize

/-- The read position is at the boundary in front of the messages `msgs`. -/
structure Sock.At (s : Sock) (msgs : List (List UInt8)) : Prop where
  rest : s.stream.drop s.pos = msgs.flatten
  isMsg : ∀ m ∈ msgs, IsMsg m
  pos_le : s.pos ≤ s.arrived
  arrived_le : s.arrived ≤ s.stream.length

section
variable {s : Sock} {msgs : List (List UInt8)} {m : List UInt8} {buf : Mem} {i : Schedule} {n : Nat}

theorem asUnsigned_nat (h : n < 2 ^ 32) : asUnsigned n = n := by
  simp only [asUnsigned]
  omega

theorem asUnsigned_error : asUnsigned (-1) = 2 ^ 32 - 1 := by decide

theorem IsMsg.length_ge (h : IsMsg m) : 10 ≤ m.length := by
  rw [h.size]
  exact Nat.le_add_left _ _

theorem Sock.peek_got : s.peek buf (.got n) = ((n : Int), store buf 0 (s.ready.take n)) := rfl

theorem Sock.peek_ret {p : Peek} : (s.peek buf p).1 = p.ret := by
  cases p <;> rfl

theorem Sock.At.arrive (h : s.At msgs) : (s.arrive n).At msgs where
  rest := h.rest
  isMsg := h.isMsg
  pos_le := Nat.le_min.mpr ⟨Nat.le_trans h.pos_le (Nat.le_add_right _ _), Nat.le_trans h.pos_le h.arrived_le⟩
  arrived_le := Nat.min_le_right _ _

theorem Sock.At.length_ready (h : s.At msgs) : s.ready.length = s.arrived - s.pos := by
  have hle := h.arrived_le
  rw [Sock.ready, List.length_take, List.length_drop]
  omega

/-- The first bytes that are ready are those of the next message. -/
theorem Sock.At.ready_take (h : s.At (m :: msgs)) (hn : n ≤ m.length) (hr : n ≤ s.ready.length) :
    s.ready.take n = m.take n := by
  rw [h.length_ready] at hr
  rw [Sock.ready, h.rest, List.take_take, Nat.min_eq_left hr, List.flatten_cons, List.take_append_of_le_length hn]

theorem Sock.At.msgSize (h : s.At (m :: msgs)) : s.msgSize = m.length := by
  have hm := h.isMsg m (List.mem_cons_self ..)
  have hlen := hm.length_ge
  rw [Sock.msgSize, h.rest, hm.size, List.flatten_cons, List.drop_append_of_le_length (by omega),
    List.take_append_of_le_length (by rw [List.length_drop, dataLenSize]; omega)]

/-- After a header has been seen, the length in the buffer is that of the stream. -/
theorem Sock.msgSize_of_header (buf : Mem) (hr : 10 ≤ s.ready.length) :
    hexNum (load (store buf 0 (s.ready.take 10)) 6 dataLenSize) + packetHeaderSize = s.msgSize := by
  have hload := load_store_within (m := buf) (a := 0) (k := 6) (n := dataLenSize) (l := s.ready.take 10)
    (by rw [List.length_take, dataLenSize]; omega)
  rw [Nat.zero_add] at hload
  rw [Sock.ready, List.length_take] at hr
  rw [hload, Sock.msgSize, Sock.ready, List.take_take, Nat.min_eq_left (by omega), List.drop_take, List.take_take,
    show min dataLenSize (10 - 6) = dataLenSize from rfl]

/-- After a header has been seen there is a message, and the length in the buffer is its size. -/
theorem Sock.At.header (buf : Mem) (h : s.At msgs) (hr : 10 ≤ s.ready.length) :
    ∃ m rest, msgs = m :: rest ∧ IsMsg m ∧ hexNum (load (store buf 0 (s.ready.take 10)) 6 dataLenSize) + packetHeaderSize = m.length := by
  cases msgs with
  | nil =>
    have hrest := h.rest
    simp only [Sock.ready, hrest, List.flatten_nil, List.take_nil, List.length_nil] at hr
    omega
  | cons m rest => exact ⟨m, rest, rfl, h.isMsg m (List.mem_cons_self ..), (s.msgSize_of_header buf hr).trans h.msgSize⟩

/-- A call whose first peek shows no complete header. -/
theorem getMsg_of_short (buf : Mem) (h1 : i.peek1.Legal (s.arrive i.more1) 10) (h2 : i.peek1 ≠ .got 10) :
    (getMsg buf s i).ret ≤ 0 ∧ (getMsg buf s i).sock = s.arrive i.more1 := by
  cases hp : i.peek1 with
  | closed => simp [getMsg, hp, Sock.peek, Peek.ret]
  | error => simp [getMsg, hp, Sock.peek, Peek.ret]
  | got n =>
    rw [hp] at h1 h2
    have hn : n < 10 := Nat.lt_of_le_of_ne h1.2.1 fun e => h2 (e ▸ rfl)
    have hpos : ¬(n : Int) ≤ 0 := by
      have := h1.1
      omega
    simp only [getMsg, hp, Sock.peek_got]
    rw [if_neg hpos, if_pos (by omega)]
    exact ⟨Int.le_refl _, rfl⟩

/-- A call whose first peek shows a complete header and whose second shows less than the message. -/
theorem getMsg_of_part (buf : Mem) (h : s.At (m :: msgs)) (h1 : i.peek1 = .got 10) (hr : 10 ≤ (s.arrive i.more1).ready.length)
    (h2 : asUnsigned i.peek2.ret < m.length) :
    (getMsg buf s i).ret = 0 ∧ (getMsg buf s i).sock = (s.arrive i.more1).arrive i.more2 := by
  obtain ⟨m', rest, hms, -, hlen⟩ := h.arrive.header buf hr
  cases hms
  simp only [getMsg, h1, Sock.peek_got, hlen, Sock.peek_ret]
  rw [if_neg (by decide), if_neg (by decide), if_pos h2]
  exact ⟨rfl, rfl⟩

/-- A call that gets to the third `recv`. -/
theorem getMsg_of_third (buf : Mem) (h : s.At (m :: msgs)) (h1 : i.peek1 = .got 10) (hr : 10 ≤ (s.arrive i.more1).ready.length)
    (h2 : ¬asUnsigned i.peek2.ret < m.length) :
    ∃ b, getMsg buf s i = ⟨m.length, store b 0 ((s.atThird i).ready.take m.length),
      { s.atThird i with pos := s.pos + ((s.atThird i).ready.take m.length).length }⟩ := by
  obtain ⟨m', rest, hms, -, hlen⟩ := h.arrive.header buf hr
  cases hms
  refine ⟨(((s.arrive i.more1).arrive i.more2).peek (store buf 0 ((s.arrive i.more1).ready.take 10)) i.peek2).2, ?_⟩
  simp only [getMsg, h1, Sock.peek_got, hlen, Sock.peek_ret]
  rw [if_neg (by decide), if_neg (by decide), if_neg h2]
  rfl

/-- A call whose peeks show the whole message returns its size. -/
theorem getMsg_of_shown (buf : Mem) (h : s.At msgs) (hl : i.Legal s) (h1 : i.peek1 = .got 10) (h2 : i.peek2 = .got s.msgSize) :
    (getMsg buf s i).ret = s.msgSize := by
  have hfirst := hl.first
  rw [h1] at hfirst
  obtain ⟨m, rest, rfl, hm, -⟩ := h.arrive.header buf hfirst.2.2
  have hmlt : m.length < 2 ^ 32 := Nat.lt_of_le_of_lt hm.le (by decide)
  have hshown : ¬asUnsigned i.peek2.ret < m.length := by
    rw [h2, h.msgSize, Peek.ret, asUnsigned_nat hmlt]
    exact Nat.lt_irrefl _
  obtain ⟨b, hb⟩ := getMsg_of_third buf h h1 hfirst.2.2 hshown
  rw [hb, h.msgSize]

/-- A call under a sound schedule gives no message and stays, or gives the next message whole. -/
theorem getMsg_spec (buf : Mem) (h : s.At msgs) (hl : i.Legal s) (hs : i.Sound s) :
    ((getMsg buf s i).ret ≤ 0 ∧ (getMsg buf s i).sock.pos = s.pos ∧ (getMsg buf s i).sock.At msgs) ∨
    ∃ m rest, msgs = m :: rest ∧ (getMsg buf s i).ret = m.length ∧ load (getMsg buf s i).buf 0 m.length = m ∧
      s.pos + m.length ≤ (getMsg buf s i).sock.arrived ∧ (getMsg buf s i).sock.At rest := by
  by_cases h1 : i.peek1 = .got 10
  · have hfirst := hl.first
    rw [h1] at hfirst
    obtain ⟨m, rest, rfl, hm, -⟩ := h.arrive.header buf hfirst.2.2
    have hmlt : m.length < 2 ^ 32 := Nat.lt_of_le_of_lt hm.le (by decide)
    by_cases h2 : asUnsigned i.peek2.ret < m.length
    · obtain ⟨hret, hsock⟩ := getMsg_of_part buf h h1 hfirst.2.2 h2
      refine Or.inl ⟨by rw [hret], ?_, ?_⟩ <;> rw [hsock]
      · rfl
      · exact h.arrive.arrive
    · -- The third `recv` finds the whole message: it was seen, or the schedule is sound.
      have hat : (s.atThird i).At (m :: rest) := h.arrive.arrive.arrive
      have hwhole : m.length ≤ (s.atThird i).ready.length := by
        rw [hat.length_ready]
        have hpos : (s.atThird i).pos = s.pos := rfl
        cases hp : i.peek2 with
        | closed =>
          rw [hp] at h2
          simp only [Peek.ret, asUnsigned] at h2
          have := hm.length_ge
          omega
        | error =>
          have := hs h1 hp
          rw [h.msgSize] at this
          omega
        | got n =>
          have hsecond := hl.second h1
          rw [hp, h.msgSize] at hsecond
          obtain ⟨-, hn, hr⟩ := hsecond
          rw [hp, Peek.ret, asUnsigned_nat (Nat.lt_of_le_of_lt hn hmlt)] at h2
          rw [h.arrive.arrive.length_ready] at hr
          have hmono : ((s.arrive i.more1).arrive i.more2).arrived ≤ (s.atThird i).arrived :=
            Nat.le_min.mpr ⟨Nat.le_add_right _ _, h.arrive.arrive.arrived_le⟩
          have hp2 : ((s.arrive i.more1).arrive i.more2).pos = s.pos := rfl
          omega
      obtain ⟨b, hb⟩ := getMsg_of_third buf h h1 hfirst.2.2 h2
      have hgot : (s.atThird i).ready.take m.length = m := by
        rw [hat.ready_take (Nat.le_refl _) hwhole, List.take_length]
      rw [hgot] at hb
      refine Or.inr ⟨m, rest, rfl, ?_⟩
      rw [hb]
      have hle : s.pos + m.length ≤ (s.atThird i).arrived := by
        rw [hat.length_ready] at hwhole
        have := hat.pos_le
        have hpos : (s.atThird i).pos = s.pos := rfl
        omega
      refine ⟨rfl, load_store_self, hle, ?_, fun m' hm' => h.isMsg m' (List.mem_cons_of_mem _ hm'), hle, hat.arrived_le⟩
      have hrest : s.stream.drop s.pos = m ++ rest.flatten := h.rest
      change s.stream.drop (s.pos + m.length) = rest.flatten
      rw [← List.drop_drop, hrest, List.drop_left]
  · obtain ⟨hret, hsock⟩ := getMsg_of_short buf hl.first h1
    refine Or.inl ⟨hret, ?_, ?_⟩ <;> rw [hsock]
    · rfl
    · exact h.arrive

/-- A call under an unsound schedule claims a message of which a part has not arrived. -/
theorem getMsg_of_not_sound (buf : Mem) (h : s.At msgs) (hl : i.Legal s) (hs : ¬i.Sound s) : ¬CallOk (buf, s, i) := by
  simp only [Schedule.Sound, Classical.not_imp, Nat.not_le] at hs
  obtain ⟨h1, h2, hlt⟩ := hs
  have hfirst := hl.first
  rw [h1] at hfirst
  obtain ⟨m, rest, rfl, hm, -⟩ := h.arrive.header buf hfirst.2.2
  have hmle := hm.le
  have hb : cmdBufsize = 1536 := rfl
  obtain ⟨b, hb'⟩ := getMsg_of_third buf h h1 hfirst.2.2
    (by rw [h2, Peek.ret, asUnsigned_error]; omega)
  rw [h.msgSize] at hlt
  intro hok
  have hw := hok.whole
  rw [hb'] at hw
  have := hw (by have := hm.length_ge; simp only; omega)
  simp only at this
  omega

/-- From a boundary, a run keeps to the messages if and only if every call in it is sound. -/
theorem run_iff (is : List Schedule) (h : s.At msgs) (hl : ∀ x ∈ calls buf s is, x.2.2.Legal x.2.1) :
    (delivered buf s is <+: msgs ∧ ∀ x ∈ calls buf s is, CallOk x) ↔ ∀ x ∈ calls buf s is, x.2.2.Sound x.2.1 := by
  induction is generalizing buf s msgs with
  | nil => simp [calls, delivered]
  | cons i is ih =>
    simp only [calls, List.forall_mem_cons] at hl ⊢
    obtain ⟨hli, hlis⟩ := hl
    by_cases hs : i.Sound s
    · rcases getMsg_spec buf h hli hs with ⟨hret, hpos, hat⟩ | ⟨m, rest, rfl, hret, hload, harr, hat⟩
      · have hok : CallOk (buf, s, i) :=
          ⟨fun _ => hpos, fun hp => absurd hp (by simp only; omega), getMsg_of_shown buf h hli⟩
        have hdel : delivered buf s (i :: is) = delivered (getMsg buf s i).buf (getMsg buf s i).sock is :=
          if_neg (by omega)
        rw [hdel]
        simp only [hs, hok, true_and]
        exact ih hat hlis
      · have hmpos : 0 < (getMsg buf s i).ret := by
          have := (h.isMsg m (List.mem_cons_self ..)).length_ge
          omega
        have hok : CallOk (buf, s, i) :=
          ⟨fun hp => absurd hp (by simp only; omega), fun _ => by simp only [hret]; exact_mod_cast harr, getMsg_of_shown buf h hli⟩
        have hdel : delivered buf s (i :: is) = m :: delivered (getMsg buf s i).buf (getMsg buf s i).sock is := by
          rw [delivered, if_pos hmpos, hret, Int.toNat_natCast, hload]
        rw [hdel, List.cons_prefix_cons]
        simp only [hs, hok, true_and]
        exact ih hat hlis
    · have hnot := getMsg_of_not_sound buf h hli hs
      exact iff_of_false (fun hx => hnot hx.2.1) fun hx => hs hx.1

end

/-- On every stream of messages and every legal schedule, the calls deliver the messages in order, complete
    and each once, return every message that their peeks show, claim only messages that have arrived and
    otherwise leave the stream alone, if and only if no second `recv` fails while a part of the message is missing. -/
theorem getMsg_frames_iff (msgs : List (List UInt8)) (hmsgs : ∀ m ∈ msgs, IsMsg m) (buf : Mem) (is : List Schedule)
    (hlegal : ∀ x ∈ calls buf (Sock.start msgs) is, x.2.2.Legal x.2.1) :
    (delivered buf (Sock.start msgs) is <+: msgs ∧ ∀ x ∈ calls buf (Sock.start msgs) is, CallOk x) ↔
      ∀ x ∈ calls buf (Sock.start msgs) is, x.2.2.Sound x.2.1 :=
  run_iff is ⟨rfl, hmsgs, Nat.le_refl _, Nat.zero_le _⟩ hlegal

/-- A message with a body of five bytes. -/
def fiveByteMsg : List UInt8 := [0x30, 0x31, 0x30, 0x30, 0x32, 0x37, 0x30, 0x30, 0x30, 0x35, 0x30, 0x30, 0x30, 0x30, 0x30]

/-- Everything has arrived when `getMsg` is called. -/
def allAtOnce : Schedule := ⟨15, .got 10, 0, .got 15, 0⟩

theorem getMsg_frames_iff_fiveByteMsg : delivered (fun _ => 0) (Sock.start [fiveByteMsg]) [allAtOnce] = [fiveByteMsg] := by
  have hmsgs : ∀ m ∈ [fiveByteMsg], IsMsg m := List.forall_mem_singleton.mpr ⟨by decide +kernel, by decide +kernel⟩
  have hlegal : allAtOnce.Legal (Sock.start [fiveByteMsg]) := by
    have h1 : 1 ≤ 10 ∧ 10 ≤ 10 ∧ 10 ≤ ((Sock.start [fiveByteMsg]).arrive 15).ready.length := by decide +kernel
    have h2 : 1 ≤ 15 ∧ 15 ≤ (Sock.start [fiveByteMsg]).msgSize ∧
      15 ≤ (((Sock.start [fiveByteMsg]).arrive 15).arrive 0).ready.length := by decide +kernel
    exact ⟨h1, fun _ => h2⟩
  have hsound : allAtOnce.Sound (Sock.start [fiveByteMsg]) := fun _ h => by cases h
  obtain ⟨hdelivered, hok⟩ := (getMsg_frames_iff [fiveByteMsg] hmsgs (fun _ => 0) [allAtOnce]
    (List.forall_mem_singleton.mpr hlegal)).mpr (List.forall_mem_singleton.mpr hsound)
  -- The peeks show all 15 bytes, so the call returns and the prefix is not empty.
  have hret : (getMsg (fun _ => 0) (Sock.start [fiveByteMsg]) allAtOnce).ret = (Sock.start [fiveByteMsg]).msgSize :=
    (hok _ (List.mem_singleton_self _)).returns rfl (by decide +kernel)
  have hsize : (Sock.start [fiveByteMsg]).msgSize = 15 := by decide +kernel
  have hlen : (delivered (fun _ => 0) (Sock.start [fiveByteMsg]) [allAtOnce]).length = 1 := by
    rw [delivered, if_pos (by rw [hret, hsize]; decide)]
    rfl
  exact hdelivered.eq_of_length hlen

/-- The header has arrived, and the second `recv` fails. -/
def failingSecond : Schedule := ⟨10, .got 10, 0, .error, 0⟩

theorem getMsg_tears_message : failingSecond.Legal (Sock.start [fiveByteMsg]) ∧ IsMsg fiveByteMsg ∧
    (getMsg (fun _ => 0) (Sock.start [fiveByteMsg]) failingSecond).ret = 15 ∧
    ¬CallOk (fun _ => 0, Sock.start [fiveByteMsg], failingSecond) := by
  have hret : (getMsg (fun _ => 0) (Sock.start [fiveByteMsg]) failingSecond).ret = 15 := by decide +kernel
  have h1 : 1 ≤ 10 ∧ 10 ≤ 10 ∧ 10 ≤ ((Sock.start [fiveByteMsg]).arrive 10).ready.length := by decide +kernel
  refine ⟨⟨h1, fun _ => trivial⟩, ⟨by decide +kernel, by decide +kernel⟩, hret, fun hok => ?_⟩
  have hw := hok.whole
  rw [hret] at hw
  exact absurd (hw (by decide)) (by decide +kernel)

end Recbcsrv
