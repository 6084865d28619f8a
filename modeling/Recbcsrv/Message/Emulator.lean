import Recbcsrv.Message.GetMsg

/-! `getMsg` of the emulator (`client_emulator.c`), which collects a message over several calls where the server peeks. The two
    give the same messages, except for messages without a body: for these the emulator asks `recv` for no bytes, takes the 0
    for a closed connection and drops the header. -/

namespace Recbcsrv
open Bytes

/-! ### The reader -/

/-- `buf` and `number_in_buf` of the emulator, what the peer sends over its time, and how much of it `recv` has given. -/
structure Reader where
  buf : Mem
  numberInBuf : Nat
  stream : List UInt8
  pos : Nat

namespace Reader

/-- What `recv` has not given yet. -/
def unread (r : Reader) : List UInt8 := r.stream.drop r.pos

/-- The length of the message whose header is in the buffer. -/
def len (r : Reader) : Nat := hexNum (load r.buf 6 dataLenSize) + packetHeaderSize

/-- `*number_in_buf = 0`. -/
def reset (r : Reader) : Reader := { r with numberInBuf := 0 }

/-- A `recv` behind what is in the buffer, with the result `p`; there is nothing to go on with when that is not positive. -/
def fill (r : Reader) (p : Peek) : Option Reader :=
  if p.ret ≤ 0 then none
  else
    some { r with
      buf := store r.buf r.numberInBuf (r.unread.take p.ret.toNat)
      numberInBuf := r.numberInBuf + p.ret.toNat
      pos := r.pos + p.ret.toNat }

def fillHeader (r : Reader) (p : Peek) : Option Reader := if r.numberInBuf < 10 then r.fill p else some r

def fillBody (r : Reader) (p : Peek) : Option Reader := if r.numberInBuf ≥ 10 then r.fill p else some r

/-- The end of the call. -/
def finish (r : Reader) : Int × Reader :=
  if r.numberInBuf < 10 then (0, r)
  else if r.numberInBuf < r.len then (0, r)
  else (r.len, r.reset)

/-- `getMsg`, with the results of the two `recv`. -/
def getMsg (r : Reader) (i : Peek × Peek) : Int × Reader :=
  match r.fillHeader i.1 with
  | none => (-1, r.reset)
  | some r =>
    match r.fillBody i.2 with
    | none => (-1, r.reset)
    | some r => r.finish

/-- A `recv` that asks for some bytes gives at least one of those that come, and 0 when it asks for none or none come. -/
def Gives (r : Reader) (requested : Nat) : Peek → Prop
  | .got n => 1 ≤ n ∧ n ≤ requested ∧ n ≤ r.unread.length
  | .closed => requested = 0 ∨ r.unread = []
  | .error => False

/-- The results of the two `recv` are possible. -/
structure Legal (r : Reader) (i : Peek × Peek) : Prop where
  header : r.numberInBuf < 10 → r.Gives (10 - r.numberInBuf) i.1
  body : ∀ r', r.fillHeader i.1 = some r' → 10 ≤ r'.numberInBuf → r'.Gives (r'.len - r'.numberInBuf) i.2

/-- The reader before the first call. -/
def start (buf : Mem) (msgs : List (List UInt8)) : Reader := ⟨buf, 0, msgs.flatten, 0⟩

/-- Every call of the run is legal. -/
def LegalRun : Reader → List (Peek × Peek) → Prop
  | _, [] => True
  | r, i :: is => r.Legal i ∧ LegalRun (r.getMsg i).2 is

/-- The messages that the calls of a run hand to their caller. -/
def delivered : Reader → List (Peek × Peek) → List (List UInt8)
  | _, [] => []
  | r, i :: is =>
    let x := r.getMsg i
    if 0 < x.1 then load x.2.buf 0 x.1.toNat :: delivered x.2 is else delivered x.2 is

/-- The reader after a run. -/
def after (r : Reader) (is : List (Peek × Peek)) : Reader := is.foldl (fun r i => (r.getMsg i).2) r

/-- The calls of a run fail with -1, and only where everything is read. -/
def FailsClosed : Reader → List (Peek × Peek) → Prop
  | _, [] => True
  | r, i :: is => (0 ≤ (r.getMsg i).1 ∨ (r.getMsg i).1 = -1 ∧ (r.getMsg i).2.unread = []) ∧ FailsClosed (r.getMsg i).2 is

/-- What is in the buffer and what is unread are the messages. -/
structure Holds (r : Reader) (msgs : List (List UInt8)) : Prop where
  rest : load r.buf 0 r.numberInBuf ++ r.unread = msgs.flatten
  isMsg : ∀ m ∈ msgs, IsMsg m

/-- The messages have bodies, and the buffer does not have the whole of the first one. -/
structure At (r : Reader) (msgs : List (List UInt8)) : Prop extends r.Holds msgs where
  body : ∀ m ∈ msgs, 10 < m.length
  part : r.numberInBuf < 10 ∨ ∃ m rest, msgs = m :: rest ∧ r.numberInBuf < m.length

section
variable {r r' : Reader} {msgs rest : List (List UInt8)} {m : List UInt8} {p : Peek} {i : Peek × Peek} {n : Nat}

/-! ### A call -/

theorem Holds.fill (h : r.Holds msgs) (hn : 1 ≤ n ∧ n ≤ r.unread.length) :
    ∃ r', r.fill (.got n) = some r' ∧ r'.Holds msgs ∧ r'.numberInBuf = r.numberInBuf + n := by
  have hpos : ¬ (n : Int) ≤ 0 := by omega
  refine ⟨_, if_neg hpos, ⟨?_, h.isMsg⟩, rfl⟩
  have hlen : (r.unread.take n).length = n := by rw [List.length_take, Nat.min_eq_left hn.2]
  have hnew := load_store_self (m := r.buf) (a := r.numberInBuf) (l := r.unread.take n)
  rw [hlen] at hnew
  change load (store r.buf r.numberInBuf (r.unread.take n)) 0 (r.numberInBuf + n) ++ r.stream.drop (r.pos + n) = msgs.flatten
  rw [load_add, load_store_of_disjoint (Or.inl (by omega)), Nat.zero_add, hnew, List.append_assoc, ← List.drop_drop, ← h.rest]
  exact congrArg _ (List.take_append_drop n r.unread)

theorem Holds.exists_cons (h : r.Holds msgs) (hheader : 10 ≤ r.numberInBuf) : ∃ m rest, msgs = m :: rest := by
  cases msgs with
  | nil =>
    have hlen := congrArg List.length h.rest
    rw [List.length_append, length_load, List.flatten_nil, List.length_nil] at hlen
    omega
  | cons m rest => exact ⟨m, rest, rfl⟩

theorem Holds.len_eq (h : r.Holds (m :: rest)) (hheader : 10 ≤ r.numberInBuf) : r.len = m.length := by
  have hm := h.isMsg m (List.mem_cons_self ..)
  have hten : load r.buf 0 10 = m.take 10 := by
    have htake := congrArg (List.take 10) h.rest
    obtain ⟨k, hk⟩ := Nat.exists_eq_add_of_le hheader
    rw [hk, load_add, List.append_assoc, List.take_left' length_load, List.flatten_cons,
      List.take_append_of_le_length hm.length_ge] at htake
    exact htake
  have hdigits : load r.buf 6 dataLenSize = (m.drop 6).take dataLenSize := by
    have hload : load r.buf 0 10 = load r.buf 0 6 ++ load r.buf 6 4 := load_add r.buf 0 6 4
    have hdrop := congrArg (List.drop 6) hten
    rw [hload, List.drop_left' length_load, List.drop_take] at hdrop
    exact hdrop
  rw [len, hdigits, hm.size]

theorem At.lt_length (h : r.At (m :: rest)) : r.numberInBuf < m.length := by
  have hbody := h.body m (List.mem_cons_self ..)
  rcases h.part with hpart | ⟨m', rest', heq, hpart⟩
  · omega
  · obtain ⟨rfl, rfl⟩ := List.cons.inj heq
    exact hpart

/-- Where nothing is unread, the buffer has whole messages. -/
theorem At.unread_nil (h : r.At msgs) (hunread : r.unread = []) : msgs = [] ∧ r.numberInBuf = 0 := by
  have hlen := congrArg List.length h.rest
  rw [hunread, List.append_nil, length_load] at hlen
  cases msgs with
  | nil => exact ⟨rfl, hlen⟩
  | cons m rest =>
    have hpart := h.lt_length
    rw [List.flatten_cons, List.length_append] at hlen
    omega

theorem At.fillHeader (h : r.At msgs) (hl : r.numberInBuf < 10 → r.Gives (10 - r.numberInBuf) p) :
    (r.fillHeader p = none ∧ r.unread = []) ∨ ∃ r', r.fillHeader p = some r' ∧ r'.At msgs := by
  unfold Reader.fillHeader
  by_cases hten : r.numberInBuf < 10
  · rw [if_pos hten]
    have hgives := hl hten
    cases p with
    | closed =>
      refine Or.inl ⟨rfl, ?_⟩
      rcases hgives with hgives | hgives
      · omega
      · exact hgives
    | error => exact hgives.elim
    | got n =>
      obtain ⟨r', hr', hholds, hnumber⟩ := h.toHolds.fill ⟨hgives.1, hgives.2.2⟩
      refine Or.inr ⟨r', hr', hholds, h.body, ?_⟩
      by_cases hfull : r'.numberInBuf < 10
      · exact Or.inl hfull
      · -- The header is complete, and its message has a body.
        obtain ⟨m, rest, hmsgs⟩ := hholds.exists_cons (Nat.not_lt.mp hfull)
        have hbody := h.body m (hmsgs ▸ List.mem_cons_self ..)
        have hle := hgives.2.1
        exact Or.inr ⟨m, rest, hmsgs, by omega⟩
  · rw [if_neg hten]
    exact Or.inr ⟨r, rfl, h⟩

/-- A message whose header is in the buffer is never left to a closed connection. -/
theorem At.fillBody (h : r.At (m :: rest)) (hheader : 10 ≤ r.numberInBuf) (hl : r.Gives (r.len - r.numberInBuf) p) :
    ∃ r', r.fillBody p = some r' ∧ r'.Holds (m :: rest) ∧ 10 ≤ r'.numberInBuf ∧ r'.numberInBuf ≤ m.length := by
  have hlen := h.toHolds.len_eq hheader
  have hpart := h.lt_length
  unfold Reader.fillBody
  rw [if_pos hheader]
  cases p with
  | closed =>
    rcases hl with hl | hl
    · omega
    · exact absurd (h.unread_nil hl).1 (List.cons_ne_nil _ _)
  | error => exact hl.elim
  | got n =>
    obtain ⟨r', hr', hholds, hnumber⟩ := h.toHolds.fill ⟨hl.1, hl.2.2⟩
    have hle := hl.2.1
    exact ⟨r', hr', hholds, by omega, by omega⟩

/-- The whole message is handed over, and the buffer is empty again. -/
theorem Holds.finish_whole (h : r.Holds (m :: rest)) (hwhole : r.numberInBuf = m.length) :
    r.finish = ((m.length : Int), r.reset) ∧ load r.buf 0 m.length = m ∧ r.reset.Holds rest := by
  have hge := (h.isMsg m (List.mem_cons_self ..)).length_ge
  have hlen := h.len_eq (by omega)
  have hrest := h.rest
  rw [hwhole, List.flatten_cons] at hrest
  obtain ⟨hload, hunread⟩ := List.append_inj hrest length_load
  refine ⟨?_, hload, hunread, fun x hx => h.isMsg x (List.mem_cons_of_mem _ hx)⟩
  unfold Reader.finish
  rw [if_neg (by omega), if_neg (by omega), hlen]

theorem At.finish_part (h : r.At (m :: rest)) (hheader : 10 ≤ r.numberInBuf) : r.finish = (0, r) := by
  unfold Reader.finish
  rw [if_neg (Nat.not_lt.mpr hheader), h.toHolds.len_eq hheader]
  exact if_pos h.lt_length

/-- A call goes on with the message, fails at the end of the stream, or gives the next message. -/
theorem At.getMsg (h : r.At msgs) (hl : r.Legal i) :
    ((r.getMsg i).1 = 0 ∧ (r.getMsg i).2.At msgs) ∨
    ((r.getMsg i).1 = -1 ∧ (r.getMsg i).2.unread = [] ∧ (r.getMsg i).2.At msgs) ∨
    ∃ m rest, msgs = m :: rest ∧ (r.getMsg i).1 = m.length ∧ load (r.getMsg i).2.buf 0 m.length = m ∧ (r.getMsg i).2.At rest := by
  rcases h.fillHeader hl.header with ⟨hnone, hunread⟩ | ⟨r', hr', hat⟩
  · obtain ⟨rfl, hnumber⟩ := h.unread_nil hunread
    have hreset : r.reset = r := by
      rw [reset, ← hnumber]
    refine Or.inr (Or.inl ?_)
    unfold Reader.getMsg
    rw [hnone]
    dsimp only
    rw [hreset]
    exact ⟨rfl, hunread, h⟩
  · have hcall : r.getMsg i = match r'.fillBody i.2 with
        | none => (-1, r'.reset)
        | some r => r.finish := by
      unfold Reader.getMsg
      rw [hr']
    rw [hcall]
    by_cases hheader : 10 ≤ r'.numberInBuf
    · obtain ⟨m, rest, rfl⟩ := hat.toHolds.exists_cons hheader
      obtain ⟨r'', hr'', hholds, hge, hle⟩ := hat.fillBody hheader (hl.body r' hr' hheader)
      rw [hr'']
      dsimp only
      rcases Nat.lt_or_eq_of_le hle with hpart | hwhole
      · have hat' : r''.At (m :: rest) := ⟨hholds, hat.body, Or.inr ⟨m, rest, rfl, hpart⟩⟩
        rw [hat'.finish_part hge]
        exact Or.inl ⟨rfl, hat'⟩
      · obtain ⟨hfinish, hload, hreset⟩ := hholds.finish_whole hwhole
        rw [hfinish]
        refine Or.inr (Or.inr ⟨m, rest, rfl, rfl, hload, hreset, ?_, Or.inl (Nat.succ_pos 9)⟩)
        exact fun x hx => hat.body x (List.mem_cons_of_mem _ hx)
    · have hshort : r'.fillBody i.2 = some r' := if_neg hheader
      have hfinish : r'.finish = (0, r') := if_pos (Nat.not_le.mp hheader)
      rw [hshort]
      dsimp only
      rw [hfinish]
      exact Or.inl ⟨rfl, hat⟩

/-! ### Runs -/

/-- A run delivers the first messages in order, and its failing calls find the stream at its end. -/
theorem At.run {is : List (Peek × Peek)} (h : r.At msgs) (hl : r.LegalRun is) :
    ∃ rest, msgs = r.delivered is ++ rest ∧ (r.after is).At rest ∧ r.FailsClosed is := by
  induction is generalizing r msgs with
  | nil => exact ⟨msgs, rfl, h, trivial⟩
  | cons i is ih =>
    rcases h.getMsg hl.1 with ⟨hret, hat⟩ | ⟨hret, hunread, hat⟩ | ⟨m, rest, rfl, hret, hload, hat⟩
    · obtain ⟨rest, hmsgs, hafter, hfails⟩ := ih hat hl.2
      have hnone : ¬ 0 < (r.getMsg i).1 := by omega
      refine ⟨rest, ?_, hafter, Or.inl (Int.le_of_eq hret.symm), hfails⟩
      rw [delivered, if_neg hnone, hmsgs]
    · obtain ⟨rest, hmsgs, hafter, hfails⟩ := ih hat hl.2
      have hnone : ¬ 0 < (r.getMsg i).1 := by omega
      refine ⟨rest, ?_, hafter, Or.inr ⟨hret, hunread⟩, hfails⟩
      rw [delivered, if_neg hnone, hmsgs]
    · obtain ⟨rest', hmsgs, hafter, hfails⟩ := ih hat hl.2
      have hge := (h.isMsg m (List.mem_cons_self ..)).length_ge
      have hpos : 0 < (r.getMsg i).1 := by omega
      refine ⟨rest', ?_, hafter, Or.inl (Int.le_of_lt hpos), hfails⟩
      rw [delivered, if_pos hpos, hret, Int.toNat_natCast, hload, hmsgs, List.cons_append]

/-- A call in which `recv` gives all that it is asked for: a message without a body is lost. -/
theorem Holds.exists_call (h : r.Holds (m :: msgs)) (hempty : r.numberInBuf = 0) : ∃ i, r.Legal i ∧
    (r.getMsg i).2.Holds msgs ∧ (r.getMsg i).2.numberInBuf = 0 ∧
    (10 < m.length → (r.getMsg i).1 = m.length ∧ load (r.getMsg i).2.buf 0 m.length = m) ∧
    (¬ 10 < m.length → (r.getMsg i).1 = -1) := by
  have hge := (h.isMsg m (List.mem_cons_self ..)).length_ge
  have hunread : r.unread.length = m.length + msgs.flatten.length := by
    have hlen := congrArg List.length h.rest
    rw [hempty, List.length_append, length_load, List.flatten_cons, List.length_append, Nat.zero_add] at hlen
    exact hlen
  obtain ⟨r₁, hr₁, hholds, hnumber⟩ := h.fill (n := 10) ⟨by decide, by omega⟩
  rw [hempty, Nat.zero_add] at hnumber
  have hheader : r.fillHeader (.got 10) = some r₁ := by
    have hfew : r.numberInBuf < 10 := by omega
    exact (if_pos hfew).trans hr₁
  have hgives : r.Gives (10 - r.numberInBuf) (.got 10) := ⟨by decide, by omega, by omega⟩
  have hlen := hholds.len_eq (by omega)
  by_cases hbody : 10 < m.length
  · have hunread' : r₁.unread.length = m.length - 10 + msgs.flatten.length := by
      have hlen' := congrArg List.length hholds.rest
      rw [hnumber, List.length_append, length_load, List.flatten_cons, List.length_append] at hlen'
      omega
    obtain ⟨r₂, hr₂, hholds', hnumber'⟩ := hholds.fill (n := m.length - 10) ⟨by omega, by omega⟩
    have hfill : r₁.fillBody (.got (m.length - 10)) = some r₂ := by
      have hten : r₁.numberInBuf ≥ 10 := by omega
      exact (if_pos hten).trans hr₂
    obtain ⟨hfinish, hload, hreset⟩ := hholds'.finish_whole (by omega)
    have hcall : r.getMsg (.got 10, .got (m.length - 10)) = ((m.length : Int), r₂.reset) := by
      unfold Reader.getMsg
      dsimp only
      rw [hheader]
      dsimp only
      rw [hfill]
      exact hfinish
    refine ⟨(.got 10, .got (m.length - 10)), ⟨fun _ => hgives, fun r' hr' _ => ?_⟩, ?_⟩
    · obtain rfl := Option.some.inj (hheader.symm.trans hr')
      exact ⟨by omega, by omega, by omega⟩
    · rw [hcall]
      exact ⟨hreset, rfl, fun _ => ⟨rfl, hload⟩, fun hnot => absurd hbody hnot⟩
  · have hfill : r₁.fillBody .closed = none := by
      have hten : r₁.numberInBuf ≥ 10 := by omega
      exact (if_pos hten).trans rfl
    obtain ⟨-, -, hreset⟩ := hholds.finish_whole (by omega)
    have hcall : r.getMsg (.got 10, .closed) = (-1, r₁.reset) := by
      unfold Reader.getMsg
      dsimp only
      rw [hheader]
      dsimp only
      rw [hfill]
    refine ⟨(.got 10, .closed), ⟨fun _ => hgives, fun r' hr' _ => ?_⟩, ?_⟩
    · obtain rfl := Option.some.inj (hheader.symm.trans hr')
      exact Or.inl (by omega)
    · rw [hcall]
      exact ⟨hreset, rfl, fun h => absurd h hbody, fun _ => rfl⟩

theorem Holds.exists_run (h : r.Holds msgs) (hempty : r.numberInBuf = 0) : ∃ is, r.LegalRun is ∧ (r.after is).unread = [] ∧
    r.delivered is = msgs.filter fun m => 10 < m.length := by
  induction msgs generalizing r with
  | nil =>
    have hrest := h.rest
    rw [hempty] at hrest
    exact ⟨[], trivial, hrest, rfl⟩
  | cons m msgs ih =>
    obtain ⟨i, hlegal, hholds, hnumber, hwhole, hlost⟩ := h.exists_call hempty
    obtain ⟨is, hrun, hafter, hdelivered⟩ := ih hholds hnumber
    refine ⟨i :: is, ⟨hlegal, hrun⟩, hafter, ?_⟩
    by_cases hbody : 10 < m.length
    · obtain ⟨hret, hload⟩ := hwhole hbody
      have hpos : 0 < (r.getMsg i).1 := by omega
      rw [delivered, if_pos hpos, hret, Int.toNat_natCast, hload, hdelivered, List.filter_cons_of_pos (by simpa using hbody)]
    · have hneg : ¬ 0 < (r.getMsg i).1 := by
        rw [hlost hbody]
        decide
      rw [delivered, if_neg hneg, hdelivered, List.filter_cons_of_neg (by simpa using hbody)]

end

end Reader

/-! ### The server -/

/-- The connection after a run of the server. -/
def Sock.after : Mem → Sock → List Schedule → Sock
  | _, s, [] => s
  | buf, s, i :: is => Sock.after (Recbcsrv.getMsg buf s i).buf (Recbcsrv.getMsg buf s i).sock is

/-- No `recv` of the server fails. -/
def Schedule.Works (s : Sock) (i : Schedule) : Prop := i.Legal s ∧ i.peek1 ≠ .error ∧ i.peek2 ≠ .error

/-- A run of the server whose calls all work. -/
def WorkingRun (buf : Mem) (s : Sock) (is : List Schedule) : Prop := ∀ x ∈ calls buf s is, x.2.2.Works x.2.1

section
variable {s : Sock} {msgs : List (List UInt8)} {buf : Mem} {is : List Schedule}

theorem Sock.At.run (h : s.At msgs) (hrun : WorkingRun buf s is) :
    ∃ rest, msgs = delivered buf s is ++ rest ∧ (Sock.after buf s is).At rest := by
  induction is generalizing buf s msgs with
  | nil => exact ⟨msgs, rfl, h⟩
  | cons i is ih =>
    obtain ⟨hcall, hrun⟩ := List.forall_mem_cons.mp hrun
    obtain ⟨hlegal, -, hworks⟩ : i.Works s := hcall
    rcases getMsg_spec buf h hlegal (fun _ herror => absurd herror hworks) with ⟨hret, -, hat⟩ | ⟨m, rest, rfl, hret, hload, -, hat⟩
    · obtain ⟨rest, hmsgs, hafter⟩ := ih hat hrun
      have hnone : ¬ 0 < (getMsg buf s i).ret := Int.not_lt.mpr hret
      refine ⟨rest, ?_, hafter⟩
      rw [delivered, if_neg hnone, hmsgs]
    · obtain ⟨rest', hmsgs, hafter⟩ := ih hat hrun
      have hge := (h.isMsg m (List.mem_cons_self ..)).length_ge
      have hpos : 0 < (getMsg buf s i).ret := by omega
      refine ⟨rest', ?_, hafter⟩
      rw [delivered, if_pos hpos, hret, Int.toNat_natCast, hload, hmsgs, List.cons_append]

/-- A run of the server that reads the whole stream. -/
theorem Sock.At.exists_run (buf : Mem) (h : s.At msgs) : ∃ is, WorkingRun buf s is ∧
    (Sock.after buf s is).stream.drop (Sock.after buf s is).pos = [] ∧ delivered buf s is = msgs := by
  induction msgs generalizing buf s with
  | nil => exact ⟨[], fun _ hx => absurd hx List.not_mem_nil, h.rest, rfl⟩
  | cons m msgs ih =>
    have hge := (h.isMsg m (List.mem_cons_self ..)).length_ge
    have hlen := congrArg List.length h.rest
    rw [List.length_drop, List.flatten_cons, List.length_append] at hlen
    have hready : m.length ≤ (s.arrive m.length).ready.length := by
      have harrived := h.arrived_le
      have hpos := h.pos_le
      rw [h.arrive.length_ready]
      change m.length ≤ min (s.arrived + m.length) s.stream.length - s.pos
      omega
    have hready' : m.length ≤ ((s.arrive m.length).arrive 0).ready.length := by
      have harrived := (h.arrive (n := m.length)).arrived_le
      rw [h.arrive.length_ready] at hready
      rw [h.arrive.arrive.length_ready]
      change m.length ≤ min ((s.arrive m.length).arrived + 0) s.stream.length - s.pos
      change (s.arrive m.length).arrived ≤ s.stream.length at harrived
      change m.length ≤ (s.arrive m.length).arrived - s.pos at hready
      omega
    have hworks : Schedule.Works s ⟨m.length, .got 10, 0, .got m.length, 0⟩ := by
      refine ⟨⟨⟨by decide, Nat.le_refl 10, Nat.le_trans hge hready⟩, fun _ => ⟨by omega, ?_, hready'⟩⟩, Peek.noConfusion,
        Peek.noConfusion⟩
      exact Nat.le_of_eq h.msgSize.symm
    have hmlt : m.length < 2 ^ 32 := Nat.lt_of_le_of_lt (h.isMsg m (List.mem_cons_self ..)).le (by decide)
    have hfirst : 10 ≤ (s.arrive m.length).ready.length := by omega
    have hsecond : ¬asUnsigned (Peek.got m.length).ret < m.length := by
      rw [Peek.ret, asUnsigned_nat hmlt]
      exact Nat.lt_irrefl _
    obtain ⟨b, hthird⟩ := getMsg_of_third (i := ⟨m.length, .got 10, 0, .got m.length, 0⟩) buf h rfl hfirst hsecond
    rcases getMsg_spec buf h hworks.1 (fun _ herror => absurd herror hworks.2.2) with ⟨hret, -⟩ | ⟨m', rest, heq, hret, hload, -, hat⟩
    · rw [hthird] at hret
      dsimp only at hret
      omega
    · obtain ⟨rfl, rfl⟩ := List.cons.inj heq
      obtain ⟨is, hrun, hafter, hdelivered⟩ := ih (getMsg buf s ⟨m.length, .got 10, 0, .got m.length, 0⟩).buf hat
      refine ⟨⟨m.length, .got 10, 0, .got m.length, 0⟩ :: is, List.forall_mem_cons.mpr ⟨hworks, hrun⟩, hafter, ?_⟩
      have hpos : 0 < (getMsg buf s ⟨m.length, .got 10, 0, .got m.length, 0⟩).ret := by omega
      rw [delivered, if_pos hpos, hret, Int.toNat_natCast, hload, hdelivered]

end

/-! ### The two readers -/

/-- The two give the same messages of a stream, as far as each has read it, and the emulator fails at its end only. -/
structure ReadersAgree (msgs : List (List UInt8)) : Prop where
  ordered : ∀ buf is buf' is', (Reader.start buf msgs).LegalRun is → WorkingRun buf' (Sock.start msgs) is' →
    (Reader.start buf msgs).delivered is <+: delivered buf' (Sock.start msgs) is' ∨
      delivered buf' (Sock.start msgs) is' <+: (Reader.start buf msgs).delivered is
  whole : ∀ buf is buf' is', (Reader.start buf msgs).LegalRun is → WorkingRun buf' (Sock.start msgs) is' →
    ((Reader.start buf msgs).after is).unread = [] →
    (Sock.after buf' (Sock.start msgs) is').stream.drop (Sock.after buf' (Sock.start msgs) is').pos = [] →
    (Reader.start buf msgs).delivered is = delivered buf' (Sock.start msgs) is'
  closed : ∀ buf is, (Reader.start buf msgs).LegalRun is → (Reader.start buf msgs).FailsClosed is

/-- The emulator and the server agree on a stream exactly when all its messages have a body. -/
theorem readersAgree_iff (msgs : List (List UInt8)) (hmsgs : ∀ m ∈ msgs, IsMsg m) :
    ReadersAgree msgs ↔ ∀ m ∈ msgs, 10 < m.length := by
  have hserver : (Sock.start msgs).At msgs := ⟨rfl, hmsgs, Nat.le_refl _, Nat.zero_le _⟩
  have hreader : ∀ buf, (Reader.start buf msgs).Holds msgs := fun buf => ⟨rfl, hmsgs⟩
  constructor
  · intro h
    obtain ⟨is, hrun, hunread, hdelivered⟩ := (hreader fun _ => 0).exists_run rfl
    obtain ⟨is', hrun', hend, hdelivered'⟩ := hserver.exists_run fun _ => 0
    have hsame := h.whole _ is _ is' hrun hrun' hunread hend
    rw [hdelivered, hdelivered', List.filter_eq_self] at hsame
    exact fun m hm => of_decide_eq_true (hsame m hm)
  · intro hbody
    have hat : ∀ buf, (Reader.start buf msgs).At msgs := fun buf => ⟨hreader buf, hbody, Or.inl (Nat.succ_pos 9)⟩
    refine ⟨fun buf is buf' is' hrun hrun' => ?_, fun buf is buf' is' hrun hrun' hunread hend => ?_, fun buf is hrun => ?_⟩
    · obtain ⟨rest, hsplit, -⟩ := (hat buf).run hrun
      obtain ⟨rest', hsplit', -⟩ := hserver.run hrun'
      exact List.prefix_or_prefix_of_prefix ⟨rest, hsplit.symm⟩ ⟨rest', hsplit'.symm⟩
    · obtain ⟨rest, hsplit, hafter, -⟩ := (hat buf).run hrun
      obtain ⟨rest', hsplit', hafter'⟩ := hserver.run hrun'
      obtain ⟨rfl, -⟩ := hafter.unread_nil hunread
      have hnone : rest' = [] := by
        cases rest' with
        | nil => rfl
        | cons m rest' =>
          have hge := (hafter'.isMsg m (List.mem_cons_self ..)).length_ge
          have hlen := congrArg List.length (hafter'.rest.symm.trans hend)
          rw [List.flatten_cons, List.length_append, List.length_nil] at hlen
          omega
      rw [hnone, List.append_nil] at hsplit'
      rw [List.append_nil] at hsplit
      exact hsplit.symm.trans hsplit'
    · obtain ⟨-, -, -, hfails⟩ := (hat buf).run hrun
      exact hfails

theorem readersAgree_fiveByteMsg : ReadersAgree [fiveByteMsg] := by
  refine (readersAgree_iff [fiveByteMsg] fun m hm => ?_).mpr fun m hm => ?_
  · rw [List.mem_singleton.mp hm]
    exact ⟨by decide +kernel, by decide +kernel⟩
  · rw [List.mem_singleton.mp hm]
    decide

/-- A message of a header only. -/
def headerMsg : List UInt8 := fiveByteMsg.take 6 ++ [0x30, 0x30, 0x30, 0x30]

/-- The call that reads the header fails though the peer has closed nothing, and its message is not delivered. -/
theorem readersAgree_counterexample : IsMsg headerMsg ∧ ¬ReadersAgree [headerMsg] := by
  have hmsg : IsMsg headerMsg := ⟨by decide +kernel, by decide +kernel⟩
  refine ⟨hmsg, fun h => ?_⟩
  have hmsgs : ∀ m ∈ [headerMsg], IsMsg m := fun m hm => List.mem_singleton.mp hm ▸ hmsg
  have hserver : (Sock.start [headerMsg]).At [headerMsg] := ⟨rfl, hmsgs, Nat.le_refl _, Nat.zero_le _⟩
  have hreader : (Reader.start (fun _ => 0) [headerMsg]).Holds [headerMsg] := ⟨rfl, hmsgs⟩
  obtain ⟨is, hrun, hunread, hdelivered⟩ := hreader.exists_run rfl
  obtain ⟨is', hrun', hend, hdelivered'⟩ := hserver.exists_run fun _ => 0
  have hsame := h.whole _ is _ is' hrun hrun' hunread hend
  rw [hdelivered, hdelivered'] at hsame
  exact absurd hsame (by decide)

end Recbcsrv
