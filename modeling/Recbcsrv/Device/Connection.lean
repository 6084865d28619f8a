import Mathlib.Data.List.Induction
import Recbcsrv.Lib.Exec

/-! The connections of `thread_coreB`, `thread_coreC`, `thread_coreD` and of the instructor's loop in `main`. Each shares a
    `t_listen_thread_param` with a `thread_listen`, which accepts a connection when `socket` is negative; the thread itself
    closes the connection when an operation on it fails, and assigns -1. Nothing makes a test and what follows it one step.

    `Line` says what this is for: one connection after the other, each accepted, used until an operation on it fails, and
    closed. The log of every run of the two threads is a log of `Line`. -/

namespace Recbcsrv

/-! ### One connection after the other -/

namespace Line

/-- What a thread calls on a connection. -/
inductive Op where
  | select
  | getMsg
  | send
  deriving DecidableEq, Repr

/-- What happens to a connection; they are numbered as they are accepted. `dropped`: nothing refers to it any more and it has
    not been closed. -/
inductive Event where
  | accepted (c : Nat)
  | used (op : Op) (c : Nat)
  | failed (op : Op) (c : Nat)
  | closed (c : Nat)
  | dropped (c : Nat)
  deriving DecidableEq, Repr

/-- The connection that an event is about. -/
def Event.conn : Event → Nat
  | accepted c => c
  | used _ c => c
  | failed _ c => c
  | closed c => c
  | dropped c => c

end Line

/-- How many connections have been accepted, the one that is open, and whether an operation on it has failed. -/
structure Line where
  accepted : Nat
  current : Option Nat
  failed : Bool
  deriving DecidableEq, Repr

namespace Line

def start : Line := ⟨0, none, false⟩

/-- A connection is accepted when none is open, used until an operation fails, and given up. -/
def step (l : Line) : Event → Option Line
  | .accepted c => if l.current = none ∧ c = l.accepted then some ⟨l.accepted + 1, some c, false⟩ else none
  | .used _ c => if l.current = some c ∧ l.failed = false then some l else none
  | .failed _ c => if l.current = some c ∧ l.failed = false then some { l with failed := true } else none
  | .closed c => if l.current = some c then some { l with current := none, failed := false } else none
  | .dropped c => if l.current = some c then some { l with current := none, failed := false } else none

/-- How a connection ends, if it has. -/
inductive Ending where
  | unfinished
  | closed
  | dropped
  deriving DecidableEq, Repr

/-- The event that ends a connection. -/
def Ending.events (c : Nat) : Ending → List Event
  | unfinished => []
  | closed => [.closed c]
  | dropped => [.dropped c]

/-- All that happens to a connection: the operations that succeed, then at most one that fails, then its end. -/
def session (c : Nat) (ops : List Op) (bad : Option Op) (e : Ending) : List Event :=
  .accepted c :: (ops.map (.used · c) ++ (bad.toList.map (.failed · c) ++ e.events c))

/-- What a log of `Line` says: the connections follow one another, and each has its session. -/
structure Sessions (log : List Event) (l : Line) : Prop where
  sorted : log.Pairwise (·.conn ≤ ·.conn)
  below : ∀ e ∈ log, e.conn < l.accepted
  last : ∀ c, l.current = some c → c + 1 = l.accepted
  each : ∀ c < l.accepted, ∃ ops bad e, log.filter (·.conn = c) = session c ops bad e ∧
    (e = .unfinished ↔ l.current = some c) ∧ (l.current = some c → (bad.isSome ↔ l.failed = true))

variable {log : List Event} {l l' : Line} {c d : Nat} {op : Op} {ev : Event}

@[simp] theorem conn_accepted : (Event.accepted c).conn = c := rfl

@[simp] theorem conn_used : (Event.used op c).conn = c := rfl

@[simp] theorem conn_failed : (Event.failed op c).conn = c := rfl

@[simp] theorem conn_closed : (Event.closed c).conn = c := rfl

@[simp] theorem conn_dropped : (Event.dropped c).conn = c := rfl

theorem Sessions.start : Sessions [] start where
  sorted := List.Pairwise.nil
  below e he := absurd he List.not_mem_nil
  last c h := by cases h
  each c h := absurd h (Nat.not_lt_zero c)

/-- An event on the last connection leaves the sessions of the others. -/
theorem filter_append_ne (h : ev.conn ≠ c) : (log ++ [ev]).filter (·.conn = c) = log.filter (·.conn = c) := by
  rw [List.filter_append, List.filter_cons_of_neg (by simpa using h), List.filter_nil, List.append_nil]

theorem filter_append_eq (h : ev.conn = c) : (log ++ [ev]).filter (·.conn = c) = log.filter (·.conn = c) ++ [ev] := by
  rw [List.filter_append, List.filter_cons_of_pos (by simpa using h), List.filter_nil]

/-- A further event on the open connection. -/
theorem Sessions.append (h : Sessions log l) (hev : l.current = some ev.conn)
    (hother : ∀ c, c ≠ ev.conn → l'.current ≠ some c) (hacc : l'.accepted = l.accepted)
    (hlast : ∀ c, l'.current = some c → c + 1 = l'.accepted)
    (hnew : ∀ ops bad, log.filter (·.conn = ev.conn) = session ev.conn ops bad .unfinished → (bad.isSome ↔ l.failed = true) →
      ∃ ops' bad' e, log.filter (·.conn = ev.conn) ++ [ev] = session ev.conn ops' bad' e ∧
        (e = .unfinished ↔ l'.current = some ev.conn) ∧ (l'.current = some ev.conn → (bad'.isSome ↔ l'.failed = true))) :
    Sessions (log ++ [ev]) l' where
  sorted := by
    refine List.pairwise_append.mpr ⟨h.sorted, List.pairwise_singleton .., fun x hx y hy => ?_⟩
    obtain rfl := List.mem_singleton.mp hy
    have hlt : x.conn < l.accepted := h.below x hx
    have hc := h.last _ hev
    omega
  below x hx := by
    rw [hacc]
    rcases List.mem_append.mp hx with hx | hx
    · exact h.below x hx
    · obtain rfl := List.mem_singleton.mp hx
      have hc := h.last _ hev
      omega
  last := hlast
  each c hc := by
    rw [hacc] at hc
    obtain ⟨ops, bad, e, hs, hopen, hbad⟩ := h.each c hc
    by_cases hce : c = ev.conn
    · subst hce
      rw [hopen.mpr hev] at hs
      rw [filter_append_eq rfl]
      exact hnew ops bad hs (hbad hev)
    · rw [filter_append_ne (Ne.symm hce)]
      refine ⟨ops, bad, e, hs, iff_of_false (fun he => hce ?_) (hother c hce), fun hcur => absurd hcur (hother c hce)⟩
      exact Option.some.inj ((hopen.mp he).symm.trans hev)

theorem Sessions.step (h : Sessions log l) (hstep : l.step ev = some l') : Sessions (log ++ [ev]) l' := by
  cases ev with
  | accepted c =>
    simp only [Line.step, Option.ite_none_right_eq_some, Option.some.injEq] at hstep
    obtain ⟨⟨hnone, rfl⟩, rfl⟩ := hstep
    -- Every connection before it has its session, which has ended.
    have hempty : log.filter (·.conn = l.accepted) = [] := List.filter_eq_nil_iff.mpr fun x hx => by
      have hlt := h.below x hx
      simpa using Nat.ne_of_lt hlt
    refine ⟨?_, fun x hx => ?_, fun c hc => ?_, fun c hc => ?_⟩
    · refine List.pairwise_append.mpr ⟨h.sorted, List.pairwise_singleton .., fun x hx y hy => ?_⟩
      obtain rfl := List.mem_singleton.mp hy
      exact (h.below x hx).le
    · rcases List.mem_append.mp hx with hx | hx
      · exact (h.below x hx).trans (Nat.lt_succ_self _)
      · obtain rfl := List.mem_singleton.mp hx
        exact Nat.lt_succ_self _
    · cases hc
      rfl
    · by_cases hce : c = l.accepted
      · subst hce
        rw [filter_append_eq (c := l.accepted) rfl, hempty]
        exact ⟨[], none, .unfinished, rfl, by simp, by simp⟩
      · obtain ⟨ops, bad, e, hs, hopen, hbad⟩ := h.each c (by simp only at hc; omega)
        rw [filter_append_ne (Ne.symm hce)]
        have hne : some l.accepted ≠ some c := fun he => hce (Option.some.inj he).symm
        exact ⟨ops, bad, e, hs, iff_of_false (fun he => by cases hnone.symm.trans (hopen.mp he)) hne,
          fun hcur => absurd hcur hne⟩
  | used op c =>
    simp only [Line.step, Option.ite_none_right_eq_some, Option.some.injEq] at hstep
    obtain ⟨⟨hcur, hok⟩, rfl⟩ := hstep
    refine h.append hcur (fun d hd => ?_) rfl h.last fun ops bad hs hbad => ?_
    · rw [hcur]
      exact fun he => hd (Option.some.inj he).symm
    · rw [hok] at hbad
      obtain rfl : bad = none := by simpa using hbad
      refine ⟨ops ++ [op], none, .unfinished, ?_, by simp [hcur], by simp [hok]⟩
      rw [conn_used] at hs
      rw [conn_used, hs]
      simp [session, Ending.events]
  | failed op c =>
    simp only [Line.step, Option.ite_none_right_eq_some, Option.some.injEq] at hstep
    obtain ⟨⟨hcur, hok⟩, rfl⟩ := hstep
    refine h.append hcur (fun d hd => ?_) rfl h.last fun ops bad hs hbad => ?_
    · rw [hcur]
      exact fun he => hd (Option.some.inj he).symm
    · rw [hok] at hbad
      obtain rfl : bad = none := by simpa using hbad
      refine ⟨ops, some op, .unfinished, ?_, by simp [hcur], by simp⟩
      rw [conn_failed] at hs
      rw [conn_failed, hs]
      simp [session, Ending.events]
  | closed c =>
    simp only [Line.step, Option.ite_none_right_eq_some, Option.some.injEq] at hstep
    obtain ⟨hcur, rfl⟩ := hstep
    refine h.append hcur (fun _ _ => nofun) rfl nofun fun ops bad hs _ => ?_
    refine ⟨ops, bad, .closed, ?_, by simp, by simp⟩
    rw [conn_closed] at hs
    rw [conn_closed, hs]
    simp [session, Ending.events]
  | dropped c =>
    simp only [Line.step, Option.ite_none_right_eq_some, Option.some.injEq] at hstep
    obtain ⟨hcur, rfl⟩ := hstep
    refine h.append hcur (fun _ _ => nofun) rfl nofun fun ops bad hs _ => ?_
    refine ⟨ops, bad, .dropped, ?_, by simp, by simp⟩
    rw [conn_dropped] at hs
    rw [conn_dropped, hs]
    simp [session, Ending.events]

theorem sessions (h : Exec.exec step start log = some l) : Sessions log l := by
  induction log using List.reverseRecOn generalizing l with
  | nil =>
    cases h
    exact .start
  | append_singleton log ev ih =>
    obtain ⟨m, hm, hev⟩ := Exec.exec_append.mp h
    rw [Exec.exec_singleton] at hev
    exact (ih hm).step hev

/-- The open connection has not been closed. -/
theorem Sessions.closed_notMem (h : Sessions log l) (hc : l.current = some c) : .closed c ∉ log := by
  obtain ⟨ops, bad, e, hs, hopen, -⟩ := h.each c (by have hlast := h.last c hc; omega)
  obtain rfl := hopen.mpr hc
  intro hclosed
  have hmem : Event.closed c ∈ log.filter (·.conn = c) := List.mem_filter.mpr ⟨hclosed, by simp⟩
  rw [hs] at hmem
  simp [session, Ending.events] at hmem

end Line

/-! ### The two threads -/

namespace Link

/-- What the loop of a thread does in turn: test `thread_canceled`, receive a message, or send the head of a FIFO. -/
inductive Stage where
  | testExit
  | receive
  | send
  deriving DecidableEq, Repr

def threadCoreB : List Stage := [.testExit, .receive, .send, .send]

def threadCoreC : List Stage := [.testExit, .receive, .send, .send]

def threadCoreD : List Stage := [.testExit, .receive, .send]

/-- The loop in `main`, which nothing ends. -/
def instructor : List Stage := [.send, .receive]

/-- Where `thread_listen` is: at its tests of `thread_canceled` and of `socket`, at `accept`, at the assignment of the new
    socket, at the assignment of 2 to `thread_canceled`, or at its end. -/
inductive ListenPc where
  | testExit
  | check
  | accept
  | publish (c : Nat)
  | leave
  | exited
  deriving DecidableEq, Repr

/-- Where the thread goes on after it has given the connection up: to `FD_ISSET` with the rest of the loop, to the rest of
    the loop, or to the assignment of 2 to `thread_canceled`. -/
inductive After where
  | isSet (rest : List Stage)
  | next (rest : List Stage)
  | leave
  deriving DecidableEq, Repr

/-- Where the thread is: before the rest of its loop, at `select`, at `FD_ISSET`, at `getMsg`, at `send`, at `close`, at the
    assignment of -1; after its loop at `thread_listen_exited`, at the test and the assignment of `thread_listen_askexit`,
    at its last test of `socket`, at the assignment of 2 to `thread_canceled`, or at its end. -/
inductive CorePc where
  | next (rest : List Stage)
  | select (rest : List Stage)
  | isSet (rest : List Stage)
  | getMsg (rest : List Stage)
  | send (rest : List Stage)
  | close (k : After)
  | reset (k : After)
  | testListen
  | testAsk
  | ask
  | lastTest
  | leave
  | exited
  deriving DecidableEq, Repr

def After.pc : After → CorePc
  | isSet rest => .isSet rest
  | next rest => .next rest
  | leave => .leave

end Link

open Link in
/-- The fields `socket` and `thread_canceled` of the `t_listen_thread_param`, `thread_canceled` of the thread, whether the one
    that asks it to exit has found 0 there, where the two threads are, how many connections have been accepted, and what has
    happened to them. -/
structure Link where
  socket : Option Nat
  listenCanceled : Nat
  canceled : Nat
  asking : Bool
  listen : ListenPc
  core : CorePc
  accepted : Nat
  log : List Line.Event

namespace Link

open Line (Event Op)

/-- The fields when `thread_listen` is created. -/
def init (loop : List Stage) : Link := ⟨none, 0, 0, false, .testExit, .next loop, 0, []⟩

/-- A step of `thread_listen`. An error of `accept` ends the program. -/
def listenStep (s : Link) : Link :=
  match s.listen with
  | .testExit => { s with listen := if s.listenCanceled = 0 then .check else .leave }
  | .check => { s with listen := if s.socket = none then .accept else .testExit }
  | .accept => { s with accepted := s.accepted + 1, log := s.log ++ [.accepted s.accepted], listen := .publish s.accepted }
  | .publish c => { s with socket := some c, listen := .testExit }
  | .leave => { s with listenCanceled := 2, listen := .exited }
  | .exited => s

/-- A call on `socket`, which fails on -1: after a failure the connection is given up, and then or without one `ok` follows. -/
def call (s : Link) (op : Op) (fails : Bool) (bad : After) (ok : CorePc) : Link :=
  match s.socket with
  | none => { s with core := .close bad }
  | some c =>
    if fails then { s with log := s.log ++ [.failed op c], core := .close bad }
    else { s with log := s.log ++ [.used op c], core := ok }

/-- The connection that `socket` stands for, unless it is closed already. -/
def held (s : Link) : Option Nat := s.socket.filter (.closed · ∉ s.log)

/-- A step of the thread. `outcome` says whether there is a message to send, whether a call fails, and whether the socket is
    in the set. The assignment of -1 to `socket` drops a connection that is not closed. -/
def coreStep (loop : List Stage) (s : Link) (outcome : Bool) : Link :=
  match s.core with
  | .next [] => { s with core := .next loop }
  | .next (.testExit :: rest) => { s with core := if s.canceled = 0 then .next rest else .testListen }
  | .next (.receive :: rest) => { s with core := if s.socket = none then .next rest else .select rest }
  | .next (.send :: rest) => { s with core := if outcome && s.socket.isSome then .send rest else .next rest }
  | .select rest => s.call .select outcome (.isSet rest) (.isSet rest)
  | .isSet rest => { s with core := if outcome then .getMsg rest else .next rest }
  | .getMsg rest => s.call .getMsg outcome (.next rest) (.next rest)
  | .send rest => s.call .send outcome (.next rest) (.next rest)
  | .close k => { s with log := s.log ++ s.socket.toList.map .closed, core := .reset k }
  | .reset k => { s with socket := none, log := s.log ++ s.held.toList.map .dropped, core := k.pc }
  | .testListen => { s with core := if s.listenCanceled = 2 then .lastTest else .testAsk }
  | .testAsk => { s with core := if s.listenCanceled = 0 then .ask else .testListen }
  | .ask => { s with listenCanceled := 1, core := .testListen }
  | .lastTest => { s with core := if s.socket = none then .leave else .close .leave }
  | .leave => { s with canceled := 2, core := .exited }
  | .exited => s

/-- A step of the one that asks the thread to exit (`thread_coreB_askexit` and its like): the test and the assignment. -/
def askStep (s : Link) : Link :=
  if s.asking then { s with canceled := 1, asking := false } else { s with asking := s.canceled = 0 }

/-- Which thread takes a step. -/
inductive Act where
  | listen
  | core (outcome : Bool)
  | ask
  deriving DecidableEq, Repr

def step (loop : List Stage) (s : Link) : Act → Link
  | .listen => s.listenStep
  | .core outcome => s.coreStep loop outcome
  | .ask => s.askStep

def run (loop : List Stage) (as : List Act) : Link := as.foldl (step loop) (init loop)

/-! ### The invariant -/

/-- The connection that is open. -/
def current (s : Link) : Option Nat :=
  match s.listen with
  | .publish c => some c
  | _ => s.held

/-- A connection has been given up after an error of `select`: from there on `FD_ISSET` and `getMsg` may be called with -1. -/
def Stray (s : Link) : Prop := ∃ d, .failed .select d ∈ s.log ∧ .closed d ∈ s.log

/-- The pcs after the loop. -/
def CorePc.Leaving : CorePc → Prop
  | testListen => True
  | testAsk => True
  | ask => True
  | close .leave => True
  | reset .leave => True
  | lastTest => True
  | leave => True
  | exited => True
  | _ => False

/-- The pcs after `thread_listen` has been found at its end. -/
def CorePc.Last : CorePc → Prop
  | close .leave => True
  | reset .leave => True
  | lastTest => True
  | leave => True
  | exited => True
  | _ => False

/-- What the thread knows of the connection at a pc. -/
def Knows (s : Link) : CorePc → Prop
  | .select _ => s.socket ≠ none
  | .send _ => s.socket ≠ none
  | .isSet _ => s.socket ≠ none ∨ s.Stray
  | .getMsg _ => s.socket ≠ none ∨ s.Stray
  | .close (.isSet _) => ∃ c, s.socket = some c ∧ .failed .select c ∈ s.log
  | .close (.next _) => (∃ c op, s.socket = some c ∧ .failed op c ∈ s.log) ∨ s.Stray
  | .close .leave => s.socket ≠ none
  | .reset (.isSet _) => ∃ c, s.socket = some c ∧ .closed c ∈ s.log ∧ .failed .select c ∈ s.log
  | .reset (.next _) => (∃ c, s.socket = some c ∧ .closed c ∈ s.log) ∨ s.Stray
  | .reset .leave => ∃ c, s.socket = some c ∧ .closed c ∈ s.log
  | _ => True

/-- Why a connection was given up: an operation on it failed, the thread was asked to exit, or `select` had failed on an
    earlier one. -/
def Reason (s : Link) (c : Nat) : Prop :=
  (∃ op, .failed op c ∈ s.log) ∨ s.canceled ≠ 0 ∨ ∃ d < c, .failed .select d ∈ s.log

/-- The log is one of `Line`. A failed connection is about to be closed. -/
structure Lined (s : Link) (l : Line) : Prop where
  log : Exec.exec Line.step Line.start s.log = some l
  accepted : l.accepted = s.accepted
  current : l.current = s.current
  failed : l.failed = true → (∃ k, s.core = .close k) ∧ s.socket ≠ none

/-- How the two threads end: `thread_listen` is asked to once the loop is over, and the thread ends after it. -/
structure Exits (s : Link) : Prop where
  range : s.listenCanceled ≤ 2
  leave : s.listen = .leave → s.listenCanceled = 1
  listen : s.listen = .exited ↔ s.listenCanceled = 2
  asked : s.listenCanceled ≠ 0 → s.core.Leaving ∧ s.core ≠ .ask
  leaving : s.core.Leaving → s.canceled ≠ 0
  last : s.core.Last → s.listenCanceled = 2
  gone : s.core = .leave ∨ s.core = .exited → s.socket = none
  exited : s.canceled = 2 ↔ s.core = .exited
  asking : s.asking = true → s.canceled = 0

structure Inv (s : Link) : Prop where
  exits : s.Exits
  listening : s.listen = .accept ∨ (∃ c, s.listen = .publish c) → s.socket = none
  knows : s.Knows s.core
  shut : ∀ c, s.socket = some c → .closed c ∈ s.log → ∃ k, s.core = .reset k
  closed : ∀ c, .closed c ∈ s.log → s.Reason c
  dropped : ∀ c, .dropped c ∈ s.log → ∃ d < c, .failed .select d ∈ s.log
  line : ∃ l, s.Lined l

variable {s : Link} {l : Line} {loop : List Stage} {as : List Act} {a : Act} {c d : Nat} {o : Bool} {op : Op} {pc : CorePc} {k : After}

theorem exits_init : (init loop).Exits where
  range := Nat.zero_le 2
  leave := nofun
  listen := ⟨nofun, nofun⟩
  asked h := absurd rfl h
  leaving h := h.elim
  last h := h.elim
  gone _ := rfl
  exited := ⟨nofun, nofun⟩
  asking _ := rfl

theorem inv_init : (init loop).Inv where
  exits := exits_init
  listening _ := rfl
  knows := trivial
  shut _ h := nomatch h
  closed _ h := absurd h List.not_mem_nil
  dropped _ h := absurd h List.not_mem_nil
  line := ⟨Line.start, rfl, rfl, rfl, nofun⟩

theorem held_eq_none (h : s.socket = none) : s.held = none := by
  rw [held, h]
  rfl

theorem held_eq_some : s.held = some c ↔ s.socket = some c ∧ .closed c ∉ s.log := by
  rw [held, Option.filter_eq_some_iff, decide_eq_true_eq]

theorem current_congr {t : Link} (hlisten : t.listen = s.listen) (hheld : t.held = s.held) : t.current = s.current := by
  rw [current, hlisten, hheld, current]

theorem current_eq_held (h : ∀ c, s.listen ≠ .publish c) : s.current = s.held := by
  unfold current
  split
  · next c hc => exact absurd hc (h c)
  · rfl

/-- `thread_listen` has no connection in hand while there is one in `socket`. -/
theorem Inv.idle (h : s.Inv) (hc : s.socket = some c) : ∀ d, s.listen ≠ .publish d := fun d hpc => by
  cases (h.listening (.inr ⟨d, hpc⟩)).symm.trans hc

theorem Inv.current_of_socket (h : s.Inv) (hc : s.socket = some c) : s.current = s.held := current_eq_held (h.idle hc)

/-- Outside of the assignment of -1 the connection in `socket` is open. -/
theorem Inv.current_eq (h : s.Inv) (hc : s.socket = some c) (hreset : ∀ k, s.core ≠ .reset k) : s.current = some c := by
  rw [h.current_of_socket hc, held_eq_some]
  refine ⟨hc, fun hclosed => ?_⟩
  obtain ⟨k, hk⟩ := h.shut c hc hclosed
  exact hreset k hk

/-- What the sessions of the log say about its events. -/
theorem Inv.lt_of_current (h : s.Inv) (hc : s.current = some c) (hclosed : .closed d ∈ s.log) (hne : d ≠ c) : d < c := by
  obtain ⟨l, hl⟩ := h.line
  have hs := Line.sessions hl.log
  have hlast := hs.last c (hl.current.trans hc)
  have hlt := hs.below _ hclosed
  rw [Line.conn_closed] at hlt
  omega

theorem Reason.mono {t : Link} (h : s.Reason c) (hlog : s.log ⊆ t.log) (hcan : s.canceled ≠ 0 → t.canceled ≠ 0) : t.Reason c := by
  rcases h with ⟨op, hop⟩ | hc | ⟨d, hd, hsel⟩
  · exact .inl ⟨op, hlog hop⟩
  · exact .inr (.inl (hcan hc))
  · exact .inr (.inr ⟨d, hd, hlog hsel⟩)

theorem Stray.mono {t : Link} (h : s.Stray) (hlog : s.log ⊆ t.log) : t.Stray := by
  obtain ⟨d, hd, hclosed⟩ := h
  exact ⟨d, hlog hd, hlog hclosed⟩

/-- What the thread knows stays while the connection in `socket` does. -/
theorem Knows.mono {t : Link} (h : s.Knows pc) (hsock : ∀ c, s.socket = some c → t.socket = some c) (hlog : s.log ⊆ t.log) :
    t.Knows pc := by
  have hne : s.socket ≠ none → t.socket ≠ none := fun hs => by
    obtain ⟨c, hc⟩ := Option.ne_none_iff_exists'.mp hs
    rw [hsock c hc]
    exact Option.some_ne_none c
  cases pc with
  | select => exact hne h
  | send => exact hne h
  | isSet => exact h.imp hne fun hs => hs.mono hlog
  | getMsg => exact h.imp hne fun hs => hs.mono hlog
  | close k =>
    cases k with
    | isSet =>
      obtain ⟨c, hc, hf⟩ := h
      exact ⟨c, hsock c hc, hlog hf⟩
    | next =>
      rcases h with ⟨c, op, hc, hf⟩ | hs
      · exact .inl ⟨c, op, hsock c hc, hlog hf⟩
      · exact .inr (hs.mono hlog)
    | leave => exact hne h
  | reset k =>
    cases k with
    | isSet =>
      obtain ⟨c, hc, hcl, hf⟩ := h
      exact ⟨c, hsock c hc, hlog hcl, hlog hf⟩
    | next =>
      rcases h with ⟨c, hc, hcl⟩ | hs
      · exact .inl ⟨c, hsock c hc, hlog hcl⟩
      · exact .inr (hs.mono hlog)
    | leave =>
      obtain ⟨c, hc, hcl⟩ := h
      exact ⟨c, hsock c hc, hlog hcl⟩
  | _ => trivial

/-! ### The steps of `thread_listen` -/

/-- A step of `thread_listen` before its end. -/
theorem Exits.listen_pc (h : s.Exits) (lpc : ListenPc) (hnot : s.listen ≠ .exited) (hexited : lpc ≠ .exited)
    (hleave : lpc = .leave → s.listenCanceled = 1) : Exits { s with listen := lpc } :=
  { h with
    leave := hleave
    listen := ⟨fun hc => absurd hc hexited, fun hc => absurd (h.listen.mpr hc) hnot⟩ }

/-- A step of `thread_listen` to a pc at which it has no connection in hand. -/
theorem Inv.listen_pc (h : s.Inv) {lpc : ListenPc} (hnow : ∀ c, s.listen ≠ .publish c) (hpub : ∀ c, lpc ≠ .publish c)
    (haccept : lpc = .accept → s.socket = none) (hexits : Exits { s with listen := lpc }) : Inv { s with listen := lpc } :=
  have hcur : current { s with listen := lpc } = s.current :=
    (current_eq_held (s := { s with listen := lpc }) hpub).trans (current_eq_held hnow).symm
  { h with
    exits := hexits
    listening := by
      rintro (hc | ⟨c, hc⟩)
      · exact haccept hc
      · exact absurd hc (hpub c)
    knows := h.knows.mono (fun _ hc => hc) fun _ he => he
    line := by
      obtain ⟨l, hl⟩ := h.line
      exact ⟨l, hl.log, hl.accepted, hl.current.trans hcur.symm, hl.failed⟩ }

theorem Inv.listen_accept (h : s.Inv) (hpc : s.listen = .accept) :
    Inv { s with accepted := s.accepted + 1, log := s.log ++ [.accepted s.accepted], listen := .publish s.accepted } := by
  have hsock : s.socket = none := h.listening (.inl hpc)
  have hcur : s.current = none := by
    rw [current, hpc]
    exact held_eq_none hsock
  have hexits := h.exits.listen_pc (.publish s.accepted) (by rw [hpc]; exact nofun) nofun nofun
  have hsub : s.log ⊆ s.log ++ [Event.accepted s.accepted] := List.subset_append_left ..
  have hmem : ∀ {e : Event}, e ∈ s.log ++ [.accepted s.accepted] → e ≠ .accepted s.accepted → e ∈ s.log := fun he hne =>
    (List.mem_append.mp he).resolve_right fun hc => hne (List.mem_singleton.mp hc)
  exact { h with
    exits := { hexits with }
    listening := fun _ => hsock
    knows := h.knows.mono (fun _ hc => hc) hsub
    shut := fun c hc hcl => by cases hsock.symm.trans hc
    closed := fun c hc => (h.closed c (hmem hc nofun)).mono hsub id
    dropped := fun c hc => by
      obtain ⟨d, hd, hsel⟩ := h.dropped c (hmem hc nofun)
      exact ⟨d, hd, hsub hsel⟩
    line := by
      obtain ⟨l, hl⟩ := h.line
      refine ⟨⟨l.accepted + 1, some s.accepted, false⟩, ?_, by rw [hl.accepted], rfl, nofun⟩
      refine Exec.exec_append.mpr ⟨l, hl.log, ?_⟩
      rw [Exec.exec_singleton, Line.step, if_pos ⟨hl.current.trans hcur, hl.accepted.symm⟩, hl.accepted] }

theorem Inv.listen_publish (h : s.Inv) (hpc : s.listen = .publish c) : Inv { s with socket := some c, listen := .testExit } := by
  have hsock : s.socket = none := h.listening (.inr ⟨c, hpc⟩)
  have hcur : s.current = some c := by rw [current, hpc]
  obtain ⟨l, hl⟩ := h.line
  have hopen : .closed c ∉ s.log := (Line.sessions hl.log).closed_notMem (hl.current.trans hcur)
  have hheld : held { s with socket := some c, listen := .testExit } = some c := held_eq_some.mpr ⟨rfl, hopen⟩
  have hexits := h.exits.listen_pc .testExit (by rw [hpc]; exact nofun) nofun nofun
  exact { h with
    exits := { hexits with
      gone := fun hc => by
        have hlast := h.exits.last (by rcases hc with hc | hc <;> rw [show s.core = _ from hc] <;> trivial)
        cases hpc.symm.trans (h.exits.listen.mpr hlast) }
    listening := by rintro (hc | ⟨c, hc⟩) <;> cases hc
    knows := h.knows.mono (fun d hd => by cases hsock.symm.trans hd) fun _ he => he
    shut := fun d hd hcl => by
      cases hd
      exact absurd hcl hopen
    line := by
      refine ⟨l, hl.log, hl.accepted, ?_, fun hf => absurd hsock (hl.failed hf).2⟩
      rw [hl.current, hcur]
      exact hheld.symm }

theorem Inv.listen (h : s.Inv) : s.listenStep.Inv := by
  unfold listenStep
  split
  · next hpc =>
    have hnot : s.listen ≠ .exited := by rw [hpc]; exact nofun
    refine h.listen_pc (by rw [hpc]; exact nofun) (by split <;> exact nofun) (by split <;> exact nofun) ?_
    refine h.exits.listen_pc _ hnot (by split <;> exact nofun) ?_
    split
    · exact nofun
    · next hcan =>
      -- 2 is there only after the end.
      have hne : s.listenCanceled ≠ 2 := fun hc => hnot (h.exits.listen.mpr hc)
      have hle := h.exits.range
      omega
  · next hpc =>
    have hnot : s.listen ≠ .exited := by rw [hpc]; exact nofun
    have hexits := h.exits.listen_pc (if s.socket = none then .accept else .testExit) hnot (by split <;> exact nofun)
      (by split <;> exact nofun)
    refine h.listen_pc (by rw [hpc]; exact nofun) (by split <;> exact nofun) (fun hc => ?_) hexits
    split at hc
    · next hsock => exact hsock
    · cases hc
  · next hpc => exact h.listen_accept hpc
  · next c hpc => exact h.listen_publish hpc
  · next hpc =>
    have hcan : s.listenCanceled = 1 := h.exits.leave hpc
    have hasked := h.exits.asked (by rw [hcan]; exact one_ne_zero)
    exact { h with
      exits := { h.exits with
        range := Nat.le_refl 2
        leave := nofun
        listen := ⟨fun _ => rfl, fun _ => rfl⟩
        asked := fun _ => hasked
        last := fun _ => rfl }
      listening := by rintro (hc | ⟨c, hc⟩) <;> cases hc
      knows := h.knows.mono (fun _ hc => hc) fun _ he => he
      line := by
        obtain ⟨l, hl⟩ := h.line
        refine ⟨l, hl.log, hl.accepted, hl.current.trans ?_, hl.failed⟩
        rw [current, hpc]
        rfl }
  · exact h

/-! ### The steps of the thread -/

theorem CorePc.Last.leaving (h : pc.Last) : pc.Leaving := by
  cases pc with
  | close k => cases k <;> exact h
  | reset k => cases k <;> exact h
  | _ => first | exact h | exact h.elim

/-- The pcs of the loop but those at which the connection is given up. -/
structure CorePc.Plain (pc : CorePc) : Prop where
  leaving : ¬pc.Leaving
  close : ∀ k, pc ≠ .close k
  reset : ∀ k, pc ≠ .reset k

theorem plain_next (rest : List Stage) : (CorePc.next rest).Plain := ⟨id, nofun, nofun⟩

theorem plain_isSet (rest : List Stage) : (CorePc.isSet rest).Plain := ⟨id, nofun, nofun⟩

theorem plain_getMsg (rest : List Stage) : (CorePc.getMsg rest).Plain := ⟨id, nofun, nofun⟩

theorem plain_select (rest : List Stage) : (CorePc.select rest).Plain := ⟨id, nofun, nofun⟩

theorem plain_send (rest : List Stage) : (CorePc.send rest).Plain := ⟨id, nofun, nofun⟩

/-- A step inside the loop, or one after it that does not end the thread. -/
theorem Exits.core_pc (h : s.Exits) (hleaving : pc.Leaving ↔ s.core.Leaving) (hask : pc ≠ .ask) (hlast : pc.Last → s.core.Last)
    (hnot : s.core ≠ .exited) (hexited : pc ≠ .exited) {sock : Option Nat} (hgone : pc = .leave → sock = none) (log : List Event) :
    Exits { s with socket := sock, log := log, core := pc } :=
  { h with
    asked := fun hc => ⟨hleaving.mpr (h.asked hc).1, hask⟩
    leaving := fun hc => h.leaving (hleaving.mp hc)
    last := fun hc => h.last (hlast hc)
    gone := fun hc => hgone (hc.resolve_right hexited)
    exited := ⟨fun hc => absurd (h.exited.mp hc) hnot, fun hc => absurd hc hexited⟩ }

theorem Exits.inside (h : s.Exits) (hnow : ¬s.core.Leaving) (hpc : ¬pc.Leaving) (sock : Option Nat) (log : List Event) :
    Exits { s with socket := sock, log := log, core := pc } := by
  have hne : ∀ {x : CorePc}, x.Leaving → pc ≠ x := fun hx hc => hpc (hc ▸ hx)
  refine h.core_pc (iff_of_false hpc hnow) (hne trivial) (fun hc => absurd hc.leaving hpc) (fun hc => ?_) (hne trivial)
    (fun hc => absurd hc (hne trivial)) log
  rw [hc] at hnow
  exact hnow trivial

/-- A step that leaves the connection alone. -/
theorem Inv.core_pc (h : s.Inv) (hclose : ∀ k, s.core ≠ .close k) (hreset : ∀ k, s.core ≠ .reset k) (lc cc : Nat)
    (hcc : s.canceled ≠ 0 → cc ≠ 0) (hexits : Exits { s with listenCanceled := lc, canceled := cc, core := pc }) (hknows : s.Knows pc) :
    Inv { s with listenCanceled := lc, canceled := cc, core := pc } :=
  { h with
    exits := hexits
    knows := hknows.mono (fun _ hc => hc) fun _ he => he
    shut := fun c hc hcl => by
      obtain ⟨k, hk⟩ := h.shut c hc hcl
      exact absurd hk (hreset k)
    closed := fun c hc => (h.closed c hc).mono (fun _ he => he) hcc
    line := by
      obtain ⟨l, hl⟩ := h.line
      refine ⟨l, hl.log, hl.accepted, hl.current, fun hf => ?_⟩
      obtain ⟨⟨k, hk⟩, -⟩ := hl.failed hf
      exact absurd hk (hclose k) }

/-- A step of the loop that leaves the connection alone. -/
theorem Inv.loop_pc (h : s.Inv) (hnow : s.core.Plain) (hpc : ¬pc.Leaving) (hknows : s.Knows pc) : Inv { s with core := pc } :=
  h.core_pc hnow.close hnow.reset s.listenCanceled s.canceled id (h.exits.inside hnow.leaving hpc s.socket s.log) hknows

/-- An event on the open connection which does not end it, at a pc of the loop. -/
theorem Inv.loop_event (h : s.Inv) (hnow : s.core.Plain) (hc : s.socket = some c) (e : Event) (hpc : ¬pc.Leaving)
    (hended : ∀ d, e ≠ .closed d ∧ e ≠ .dropped d)
    (hstep : ∀ l : Line, l.current = some c → l.failed = false → ∃ l', l.step e = some l' ∧ l'.accepted = l.accepted ∧
      l'.current = l.current ∧ (l'.failed = true → ∃ k, pc = .close k))
    (hknows : Knows { s with log := s.log ++ [e] } pc) : Inv { s with log := s.log ++ [e], core := pc } := by
  have hsub : s.log ⊆ s.log ++ [e] := List.subset_append_left ..
  have hmem : ∀ {x : Event}, x ∈ s.log ++ [e] → e ≠ x → x ∈ s.log := fun hx hne =>
    (List.mem_append.mp hx).resolve_right fun he => hne (List.mem_singleton.mp he).symm
  have hcur : s.current = some c := h.current_eq hc hnow.reset
  have hopen : .closed c ∉ s.log ++ [e] := fun hcl => by
    obtain ⟨k, hk⟩ := h.shut c hc (hmem hcl (hended c).1)
    exact hnow.reset k hk
  have hbusy : current { s with log := s.log ++ [e], core := pc } = some c := by
    refine (current_eq_held ?_).trans (held_eq_some.mpr ⟨hc, hopen⟩)
    exact h.idle hc
  exact { h with
    exits := h.exits.inside hnow.leaving hpc s.socket (s.log ++ [e])
    knows := hknows.mono (fun _ hd => hd) fun _ he => he
    shut := fun d hd hcl => by
      cases hc.symm.trans hd
      exact absurd hcl hopen
    closed := fun d hd => (h.closed d (hmem hd (hended d).1)).mono hsub id
    dropped := fun d hd => by
      obtain ⟨b, hb, hsel⟩ := h.dropped d (hmem hd (hended d).2)
      exact ⟨b, hb, hsub hsel⟩
    line := by
      obtain ⟨l, hl⟩ := h.line
      have hok : l.failed = false := Bool.eq_false_iff.mpr fun hf => by
        obtain ⟨⟨k, hk⟩, -⟩ := hl.failed hf
        exact hnow.close k hk
      obtain ⟨l', hl', hacc, hcur', hfail⟩ := hstep l (hl.current.trans hcur) hok
      refine ⟨l', ?_, hacc.trans hl.accepted, ?_, fun hf => ⟨hfail hf, by rw [show s.socket = some c from hc]; exact Option.some_ne_none c⟩⟩
      · refine Exec.exec_append.mpr ⟨l, hl.log, ?_⟩
        rw [Exec.exec_singleton, hl']
      · rw [hcur', hl.current, hcur, hbusy] }

/-- A call. What follows a failure knows that there was none to call on, or that it failed. -/
theorem Inv.call (h : s.Inv) (hnow : s.core.Plain) {bad : After} {ok : CorePc} (hbad : bad ≠ .leave) (hok : ¬ok.Leaving)
    (hsel : ∀ rest, bad = .isSet rest → op = .select) (hnone : s.socket = none → s.Knows (.close bad))
    (hgood : ∀ t : Link, t.socket ≠ none → t.Knows ok) : (s.call op o bad ok).Inv := by
  have hleave : ¬(CorePc.close bad).Leaving := fun hl => by
    cases bad <;> first | exact hl | exact hbad rfl
  unfold Link.call
  split
  · next hsock => exact h.loop_pc hnow hleave (hnone hsock)
  · next c hc =>
    split
    · refine h.loop_event hnow hc (.failed op c) hleave (fun d => ⟨nofun, nofun⟩) (fun l hcur hl => ?_) ?_
      · exact ⟨{ l with failed := true }, by rw [Line.step, if_pos ⟨hcur, hl⟩], rfl, rfl, fun _ => ⟨bad, rfl⟩⟩
      · have hmem : Event.failed op c ∈ s.log ++ [.failed op c] := List.mem_append_right _ (List.mem_singleton_self _)
        cases bad with
        | isSet rest =>
          obtain rfl := hsel rest rfl
          exact ⟨c, hc, hmem⟩
        | next rest => exact .inl ⟨c, op, hc, hmem⟩
        | leave => exact absurd rfl hbad
    · refine h.loop_event hnow hc (.used op c) hok (fun d => ⟨nofun, nofun⟩) (fun l hcur hl => ?_) (hgood _ ?_)
      · exact ⟨l, by rw [Line.step, if_pos ⟨hcur, hl⟩], rfl, rfl, fun hf => absurd hf (by rw [hl]; exact Bool.false_ne_true)⟩
      · rw [show s.socket = some c from hc]
        exact Option.some_ne_none c

/-- `close`, which does nothing to -1. -/
theorem Inv.core_close (h : s.Inv) (hpc : s.core = .close k) :
    Inv { s with log := s.log ++ s.socket.toList.map .closed, core := .reset k } := by
  have hreset : ∀ k, s.core ≠ .reset k := by rw [hpc]; exact nofun
  have hk : s.Knows (.close k) := hpc ▸ h.knows
  have hexits : ∀ log, Exits { s with socket := s.socket, log := log, core := .reset k } := by
    have hleaving : (CorePc.reset k).Leaving ↔ s.core.Leaving := by
      rw [hpc]
      cases k <;> exact Iff.rfl
    refine h.exits.core_pc hleaving nofun ?_ (by rw [hpc]; exact nofun) nofun nofun
    rw [hpc]
    cases k <;> exact id
  cases hc : s.socket with
  | none =>
    rw [Option.toList_none, List.map_nil, List.append_nil]
    have hstray : s.Knows (.reset k) := by
      cases k with
      | isSet rest =>
        obtain ⟨c, hs, -⟩ := hk
        cases hc.symm.trans hs
      | next rest =>
        refine .inr (hk.resolve_left ?_)
        rintro ⟨c, op, hs, -⟩
        cases hc.symm.trans hs
      | leave => exact absurd hc hk
    rw [← hc]
    exact { h with
      exits := hexits s.log
      knows := hstray.mono (fun _ hd => hd) fun _ he => he
      shut := fun c hs _ => by cases hc.symm.trans hs
      line := by
        obtain ⟨l, hl⟩ := h.line
        exact ⟨l, hl.log, hl.accepted, hl.current, fun hf => absurd hc (hl.failed hf).2⟩ }
  | some c =>
    have hlog : s.log ++ (some c).toList.map Event.closed = s.log ++ [.closed c] := rfl
    rw [hlog, ← hc]
    have hsub : s.log ⊆ s.log ++ [Event.closed c] := List.subset_append_left ..
    have hlast : Event.closed c ∈ s.log ++ [.closed c] := List.mem_append_right _ (List.mem_singleton_self _)
    have hcur : s.current = some c := h.current_eq hc hreset
    have hreason : s.Reason c := by
      cases k with
      | isSet rest =>
        obtain ⟨d, hs, hf⟩ := hk
        cases hc.symm.trans hs
        exact .inl ⟨.select, hf⟩
      | next rest =>
        rcases hk with ⟨d, op, hs, hf⟩ | ⟨d, hf, hcl⟩
        · cases hc.symm.trans hs
          exact .inl ⟨op, hf⟩
        · refine .inr (.inr ⟨d, h.lt_of_current hcur hcl ?_, hf⟩)
          rintro rfl
          obtain ⟨k, hk⟩ := h.shut d hc hcl
          exact hreset k hk
      | leave => exact .inr (.inl (h.exits.leaving (by rw [hpc]; trivial)))
    exact { h with
      exits := hexits _
      knows := by
        cases k with
        | isSet rest =>
          obtain ⟨d, hs, hf⟩ := hk
          cases hc.symm.trans hs
          exact ⟨c, hc, hlast, hsub hf⟩
        | next rest => exact .inl ⟨c, hc, hlast⟩
        | leave => exact ⟨c, hc, hlast⟩
      shut := fun _ _ _ => ⟨k, rfl⟩
      closed := fun d hd => by
        rcases List.mem_append.mp hd with hd | hd
        · exact (h.closed d hd).mono hsub id
        · cases List.mem_singleton.mp hd
          exact hreason.mono hsub id
      dropped := fun d hd => by
        rcases List.mem_append.mp hd with hd | hd
        · obtain ⟨b, hb, hsel⟩ := h.dropped d hd
          exact ⟨b, hb, hsub hsel⟩
        · cases List.mem_singleton.mp hd
      line := by
        obtain ⟨l, hl⟩ := h.line
        refine ⟨{ l with current := none, failed := false }, ?_, hl.accepted, ?_, nofun⟩
        · refine Exec.exec_append.mpr ⟨l, hl.log, ?_⟩
          rw [Exec.exec_singleton, Line.step, if_pos (hl.current.trans hcur)]
        · refine ((current_eq_held ?_).trans ?_).symm
          · exact h.idle hc
          · rw [held, Option.filter_eq_none_iff]
            intro d hd
            cases hc.symm.trans hd
            simp }

/-- The assignment of -1. -/
theorem Inv.core_reset (h : s.Inv) (hpc : s.core = .reset k) :
    Inv { s with socket := none, log := s.log ++ s.held.toList.map .dropped, core := k.pc } := by
  have hk : s.Knows (.reset k) := hpc ▸ h.knows
  have hexits : ∀ log, Exits { s with socket := none, log := log, core := k.pc } := by
    refine h.exits.core_pc ?_ (by cases k <;> exact nofun) ?_ (by rw [hpc]; exact nofun) (by cases k <;> exact nofun) fun _ => rfl
    · rw [hpc]
      cases k <;> exact Iff.rfl
    · rw [hpc]
      cases k <;> exact id
  have hnofail : ∀ l, s.Lined l → l.failed = false := fun l hl => Bool.eq_false_iff.mpr fun hf => by
    obtain ⟨⟨k', hk'⟩, -⟩ := hl.failed hf
    cases hpc.symm.trans hk'
  cases hc : s.held with
  | none =>
    rw [Option.toList_none, List.map_nil, List.append_nil]
    exact { h with
      exits := hexits s.log
      listening := fun _ => rfl
      knows := by
        cases k with
        | isSet rest =>
          obtain ⟨c, -, hcl, hf⟩ := hk
          exact .inr ⟨c, hf, hcl⟩
        | next rest => trivial
        | leave => trivial
      shut := nofun
      line := by
        obtain ⟨l, hl⟩ := h.line
        refine ⟨l, hl.log, hl.accepted, hl.current.trans ?_, fun hf => by cases (hnofail l hl).symm.trans hf⟩
        refine (current_congr ?_ ?_).symm
        · rfl
        · rw [hc]
          exact held_eq_none rfl }
  | some c =>
    obtain ⟨hsock, hopen⟩ := held_eq_some.mp hc
    have hlog : s.log ++ (some c).toList.map Event.dropped = s.log ++ [.dropped c] := rfl
    rw [hlog]
    have hsub : s.log ⊆ s.log ++ [Event.dropped c] := List.subset_append_left ..
    have hcur : s.current = some c := (h.current_of_socket hsock).trans hc
    -- The connection was accepted between the `close` of -1 and the assignment.
    obtain ⟨rest, rfl, d, hf, hcl⟩ : ∃ rest, k = .next rest ∧ s.Stray := by
      cases k with
      | isSet rest =>
        obtain ⟨d, hd, hcl, -⟩ := hk
        cases hsock.symm.trans hd
        exact absurd hcl hopen
      | next rest =>
        refine ⟨rest, rfl, hk.resolve_left ?_⟩
        rintro ⟨d, hd, hcl⟩
        cases hsock.symm.trans hd
        exact hopen hcl
      | leave =>
        obtain ⟨d, hd, hcl⟩ := hk
        cases hsock.symm.trans hd
        exact absurd hcl hopen
    have hlt : d < c := h.lt_of_current hcur hcl fun he => hopen (he ▸ hcl)
    exact { h with
      exits := hexits _
      listening := fun _ => rfl
      knows := trivial
      shut := nofun
      closed := fun b hb => by
        rcases List.mem_append.mp hb with hb | hb
        · exact (h.closed b hb).mono hsub id
        · cases List.mem_singleton.mp hb
      dropped := fun b hb => by
        rcases List.mem_append.mp hb with hb | hb
        · obtain ⟨x, hx, hsel⟩ := h.dropped b hb
          exact ⟨x, hx, hsub hsel⟩
        · cases List.mem_singleton.mp hb
          exact ⟨d, hlt, hsub hf⟩
      line := by
        obtain ⟨l, hl⟩ := h.line
        refine ⟨{ l with current := none, failed := false }, ?_, hl.accepted, ?_, nofun⟩
        · refine Exec.exec_append.mpr ⟨l, hl.log, ?_⟩
          rw [Exec.exec_singleton, Line.step, if_pos (hl.current.trans hcur)]
        · refine ((current_eq_held ?_).trans ?_).symm
          · exact h.idle hsock
          · exact held_eq_none rfl }

/-- A step after the loop that leaves the connection alone. -/
theorem Inv.leave_pc (h : s.Inv) (hclose : ∀ k, s.core ≠ .close k) (hreset : ∀ k, s.core ≠ .reset k) (hnow : s.core.Leaving)
    (hnot : s.core ≠ .exited) (hpc : pc.Leaving) (hask : pc = .ask → s.listenCanceled = 0) (hlast : pc.Last → s.listenCanceled = 2)
    (hexited : pc ≠ .exited) (hgone : pc = .leave → s.socket = none) (hknows : s.Knows pc) : Inv { s with core := pc } := by
  refine h.core_pc hclose hreset s.listenCanceled s.canceled id ?_ hknows
  exact { h.exits with
    asked := fun hc => ⟨hpc, fun he => hc (hask he)⟩
    leaving := fun _ => h.exits.leaving hnow
    last := hlast
    gone := fun hc => hgone (hc.resolve_right hexited)
    exited := ⟨fun hc => absurd (h.exits.exited.mp hc) hnot, fun hc => absurd hc hexited⟩ }

theorem Inv.core (h : s.Inv) (o : Bool) : (s.coreStep loop o).Inv := by
  unfold coreStep
  split
  · next hpc => exact h.loop_pc (by rw [hpc]; exact plain_next _) id trivial
  · next rest hpc =>
    have hnow : s.core.Plain := by rw [hpc]; exact plain_next _
    split
    · exact h.loop_pc hnow id trivial
    · next hcan =>
      refine h.core_pc hnow.close hnow.reset s.listenCanceled s.canceled id ?_ trivial
      exact { h.exits with
        asked := fun hc => absurd (h.exits.asked hc).1 hnow.leaving
        leaving := fun _ => hcan
        last := False.elim
        gone := by rintro (hc | hc) <;> cases hc
        exited := ⟨fun hc => (nomatch hpc.symm.trans (h.exits.exited.mp hc)), nofun⟩ }
  · next rest hpc =>
    have hnow : s.core.Plain := by rw [hpc]; exact plain_next _
    split
    · exact h.loop_pc hnow id trivial
    · next hsock => exact h.loop_pc hnow id hsock
  · next rest hpc =>
    have hnow : s.core.Plain := by rw [hpc]; exact plain_next _
    split
    · next hsend =>
      refine h.loop_pc hnow id ?_
      rw [Bool.and_eq_true] at hsend
      exact Option.isSome_iff_ne_none.mp hsend.2
    · exact h.loop_pc hnow id trivial
  · next rest hpc =>
    have hnow : s.core.Plain := by rw [hpc]; exact plain_select _
    have hk : s.Knows (.select rest) := hpc ▸ h.knows
    exact h.call hnow nofun id (fun _ _ => rfl) (fun hsock => absurd hsock hk) fun t ht => .inl ht
  · next rest hpc =>
    have hnow : s.core.Plain := by rw [hpc]; exact plain_isSet _
    have hk : s.Knows (.isSet rest) := hpc ▸ h.knows
    split
    · exact h.loop_pc hnow id hk
    · exact h.loop_pc hnow id trivial
  · next rest hpc =>
    have hnow : s.core.Plain := by rw [hpc]; exact plain_getMsg _
    have hk : s.Knows (.getMsg rest) := hpc ▸ h.knows
    exact h.call hnow nofun id nofun (fun hsock => .inr (hk.resolve_left (not_not_intro hsock))) fun _ _ => trivial
  · next rest hpc =>
    have hnow : s.core.Plain := by rw [hpc]; exact plain_send _
    have hk : s.Knows (.send rest) := hpc ▸ h.knows
    exact h.call hnow nofun id nofun (fun hsock => absurd hsock hk) fun _ _ => trivial
  · next k hpc => exact h.core_close hpc
  · next k hpc => exact h.core_reset hpc
  · next hpc =>
    have hnot : s.core ≠ .exited := by rw [hpc]; exact nofun
    have hleave : s.core.Leaving := by rw [hpc]; trivial
    split
    · next hcan =>
      exact h.leave_pc (by rw [hpc]; exact nofun) (by rw [hpc]; exact nofun) hleave hnot trivial nofun (fun _ => hcan) nofun nofun trivial
    · exact h.leave_pc (by rw [hpc]; exact nofun) (by rw [hpc]; exact nofun) hleave hnot trivial nofun False.elim nofun nofun trivial
  · next hpc =>
    have hnot : s.core ≠ .exited := by rw [hpc]; exact nofun
    have hleave : s.core.Leaving := by rw [hpc]; trivial
    split
    · next hcan =>
      exact h.leave_pc (by rw [hpc]; exact nofun) (by rw [hpc]; exact nofun) hleave hnot trivial (fun _ => hcan) False.elim nofun nofun
        trivial
    · exact h.leave_pc (by rw [hpc]; exact nofun) (by rw [hpc]; exact nofun) hleave hnot trivial nofun False.elim nofun nofun trivial
  · next hpc =>
    have hcan : s.listenCanceled = 0 := by
      by_contra hne
      exact (h.exits.asked hne).2 hpc
    refine h.core_pc (by rw [hpc]; exact nofun) (by rw [hpc]; exact nofun) 1 s.canceled id ?_ trivial
    exact { h.exits with
      range := Nat.le_succ 1
      leave := fun _ => rfl
      listen := ⟨fun hc => (nomatch hcan.symm.trans (h.exits.listen.mp hc)), nofun⟩
      asked := fun _ => ⟨trivial, nofun⟩
      leaving := fun _ => h.exits.leaving (by rw [hpc]; trivial)
      last := False.elim
      gone := by rintro (hc | hc) <;> cases hc
      exited := ⟨fun hc => (nomatch hpc.symm.trans (h.exits.exited.mp hc)), nofun⟩ }
  · next hpc =>
    have hnot : s.core ≠ .exited := by rw [hpc]; exact nofun
    have hleave : s.core.Leaving := by rw [hpc]; trivial
    have hcan : s.listenCanceled = 2 := h.exits.last (by rw [hpc]; trivial)
    split
    · next hsock =>
      exact h.leave_pc (by rw [hpc]; exact nofun) (by rw [hpc]; exact nofun) hleave hnot trivial nofun (fun _ => hcan) nofun
        (fun _ => hsock) trivial
    · next hsock =>
      exact h.leave_pc (by rw [hpc]; exact nofun) (by rw [hpc]; exact nofun) hleave hnot trivial nofun (fun _ => hcan) nofun nofun hsock
  · next hpc =>
    have hcan : s.listenCanceled = 2 := h.exits.last (by rw [hpc]; trivial)
    refine h.core_pc (by rw [hpc]; exact nofun) (by rw [hpc]; exact nofun) s.listenCanceled 2 (fun _ => two_ne_zero) ?_ trivial
    exact { h.exits with
      asked := fun _ => ⟨trivial, nofun⟩
      leaving := fun _ => two_ne_zero
      last := fun _ => hcan
      gone := fun _ => h.exits.gone (.inl hpc)
      exited := ⟨fun _ => rfl, fun _ => rfl⟩
      asking := fun hc => absurd (h.exits.asking hc) (h.exits.leaving (by rw [hpc]; trivial)) }
  · exact h

theorem Inv.ask (h : s.Inv) : s.askStep.Inv := by
  unfold askStep
  split
  · next hask =>
    have hcan : s.canceled = 0 := h.exits.asking hask
    exact { h with
      exits := { h.exits with
        leaving := fun _ => one_ne_zero
        exited := ⟨nofun, fun hc => by
          have hexited := h.exits.exited.mpr hc
          rw [hcan] at hexited
          cases hexited⟩
        asking := nofun }
      knows := h.knows.mono (fun _ hc => hc) fun _ he => he
      closed := fun c hc => (h.closed c hc).mono (fun _ he => he) fun _ => one_ne_zero
      line := by
        obtain ⟨l, hl⟩ := h.line
        exact ⟨l, hl.log, hl.accepted, hl.current, hl.failed⟩ }
  · exact { h with
      exits := { h.exits with asking := fun hc => of_decide_eq_true hc }
      knows := h.knows.mono (fun _ hc => hc) fun _ he => he
      closed := fun c hc => (h.closed c hc).mono (fun _ he => he) id
      line := by
        obtain ⟨l, hl⟩ := h.line
        exact ⟨l, hl.log, hl.accepted, hl.current, hl.failed⟩ }

theorem inv_run (loop : List Stage) (as : List Act) : (run loop as).Inv := by
  unfold run
  induction as using List.reverseRecOn with
  | nil => exact inv_init
  | append_singleton as a ih =>
    rw [List.foldl_append, List.foldl_cons, List.foldl_nil]
    cases a with
    | listen => exact ih.listen
    | core o => exact ih.core o
    | ask => exact ih.ask

/-- What every run does to its connections: they follow one another, each is used until an operation on it fails and then
    closed, once; another reason to close one is the exit of the thread, or an error of `select` on an earlier one, which is
    also the only reason to lose one. When the thread has ended, so has `thread_listen`, and no connection is left. -/
structure Served (s : Link) : Prop where
  sorted : s.log.Pairwise (·.conn ≤ ·.conn)
  known : ∀ e ∈ s.log, e.conn < s.accepted
  session : ∀ c < s.accepted, ∃ ops bad e, s.log.filter (·.conn = c) = Line.session c ops bad e ∧ (e = .unfinished ↔ s.current = some c) ∧
    (e = .closed → bad.isSome ∨ s.canceled ≠ 0 ∨ ∃ d < c, .failed .select d ∈ s.log) ∧
    (e = .dropped → ∃ d < c, .failed .select d ∈ s.log)
  left : s.canceled = 2 → s.listen = .exited ∧ s.core = .exited ∧ s.current = none

theorem Inv.served (h : s.Inv) : s.Served := by
  obtain ⟨l, hl⟩ := h.line
  have hs := Line.sessions hl.log
  refine ⟨hs.sorted, fun e he => hl.accepted ▸ hs.below e he, fun c hc => ?_, fun hcan => ?_⟩
  · obtain ⟨ops, bad, e, hlog, hopen, -⟩ := hs.each c (hl.accepted.symm ▸ hc)
    have hmem : ∀ x ∈ Line.session c ops bad e, x ∈ s.log := fun x hx => List.mem_of_mem_filter (hlog ▸ hx)
    refine ⟨ops, bad, e, hlog, by rw [hopen, hl.current], ?_, ?_⟩
    · rintro rfl
      rcases h.closed c (hmem _ (by simp [Line.session, Line.Ending.events])) with ⟨op, hop⟩ | hr
      · have hin : Event.failed op c ∈ s.log.filter (·.conn = c) := List.mem_filter.mpr ⟨hop, by simp⟩
        rw [hlog] at hin
        refine .inl ?_
        cases bad with
        | none => simp [Line.session, Line.Ending.events] at hin
        | some op => rfl
      · exact .inr hr
    · rintro rfl
      exact h.dropped c (hmem _ (by simp [Line.session, Line.Ending.events]))
  · have hcore := h.exits.exited.mp hcan
    have hlisten := h.exits.listen.mpr (h.exits.last (by rw [hcore]; trivial))
    refine ⟨hlisten, hcore, ?_⟩
    rw [current, hlisten]
    exact held_eq_none (h.exits.gone (.inr hcore))

/-- Whatever the order in which the threads take their steps. -/
theorem run_served (loop : List Stage) (as : List Act) : (run loop as).Served := (inv_run loop as).served

/-- An error of `select`, a descriptor -1 that is in the set, and a connection that is accepted just before -1 is assigned. -/
example : (run threadCoreB (List.replicate 4 .listen ++ List.replicate 8 (.core true) ++ List.replicate 4 .listen ++ [.core true])).log =
    [.accepted 0, .failed .select 0, .closed 0, .accepted 1, .dropped 1] := by decide

end Link

end Recbcsrv
