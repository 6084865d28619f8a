import Mathlib.Data.List.Induction
import Recbcsrv.Device.SendLoop

/-! The connection to a device (`t_listen_thread_param` of core A). `thread_listen` accepts a connection when the field
    `socket` is negative, `thread_coreA_send` and `thread_coreA` report errors in the flags `senderr` and `recverr`, and
    `thread_coreA` closes the connection when both are set. Nothing makes a test and the assignment after it one step. -/

namespace Recbcsrv

namespace CoreA

/-- Where `thread_listen` is: at its test of `socket`, at the assignments of 0 to `senderr` and `recverr`, at `accept`, and
    at the assignment of the new socket. -/
inductive ListenPc where
  | check
  | clearSend
  | clearRecv
  | accept
  | publish (c : Nat)
  deriving DecidableEq, Repr

/-- Where `thread_coreA` is: at its tests of `socket` and of `recverr`, at the readings of `socket` for `FD_SET`, `select`,
    `FD_ISSET` and `getMsg`, at the assignments of 1 to `recverr`, at the tests of both flags, at `close` and at the
    assignment of -1. -/
inductive CorePc where
  | top
  | testRecv
  | fdSet
  | select
  | selectErr
  | isSet
  | getMsg
  | getErr
  | checkSend
  | checkRecv
  | close
  | reset
  deriving DecidableEq, Repr

/-- Where `thread_coreA_send` is: before the head of a FIFO, at the tests of `socket` and of `senderr`, at the reading of
    `socket` for `send`, at `send`, at the assignment of 1 after an error, at the test of `recverr` and the assignment of 1
    after it. -/
inductive SendPc where
  | top (q : TxFifo)
  | testSocket (q : TxFifo)
  | testErr (q : TxFifo)
  | readSocket (q : TxFifo)
  | sending (q : TxFifo) (v : Option Nat)
  | setErr (q : TxFifo)
  | checkRecv
  | setErrRecv
  deriving DecidableEq, Repr

/-- The code after a FIFO. -/
def SendPc.after : TxFifo → SendPc
  | .ctrl => top .uartTx
  | .uartTx => checkRecv

end CoreA

open CoreA in
/-- The fields, where the three threads are, how many connections have been accepted (they are numbered in this order), and
    on which of them a send or a receive has failed and which have been closed. -/
structure CoreA where
  socket : Option Nat
  senderr : Bool
  recverr : Bool
  listen : ListenPc
  core : CorePc
  send : CoreA.SendPc
  accepted : Nat
  sendFailed : List Nat
  recvFailed : List Nat
  closed : List Nat

namespace CoreA

/-- The fields when the other threads are created. -/
def init : CoreA := ⟨none, false, false, .check, .top, .top .ctrl, 0, [], [], []⟩

/-- A step of `thread_listen`. An error of `accept` ends the program. -/
def listenStep (s : CoreA) : CoreA :=
  match s.listen with
  | .check => { s with listen := if s.socket = none then .clearSend else .check }
  | .clearSend => { s with senderr := false, listen := .clearRecv }
  | .clearRecv => { s with recverr := false, listen := .accept }
  | .accept => { s with accepted := s.accepted + 1, listen := .publish s.accepted }
  | .publish c => { s with socket := some c, listen := .check }

/-- A step of `thread_coreA`. `outcome` says whether `select` and `getMsg` fail, and whether the socket is in the set. -/
def coreStep (s : CoreA) (outcome : Bool) : CoreA :=
  match s.core with
  | .top => { s with core := if s.socket = none then .checkSend else .testRecv }
  | .testRecv => { s with core := if s.recverr then .checkSend else .fdSet }
  | .fdSet => { s with core := .select }
  | .select =>
    if outcome then { s with recvFailed := s.socket.toList ++ s.recvFailed, core := .selectErr } else { s with core := .isSet }
  | .selectErr => { s with recverr := true, core := .isSet }
  | .isSet => { s with core := if outcome then .getMsg else .checkSend }
  | .getMsg =>
    if outcome then { s with recvFailed := s.socket.toList ++ s.recvFailed, core := .getErr } else { s with core := .checkSend }
  | .getErr => { s with recverr := true, core := .checkSend }
  | .checkSend => { s with core := if s.senderr then .checkRecv else .top }
  | .checkRecv => { s with core := if s.recverr then .close else .top }
  | .close => { s with closed := s.socket.toList ++ s.closed, core := .reset }
  | .reset => { s with socket := none, core := .top }

/-- A step of `thread_coreA_send`. `outcome` says whether there is a message to send, and whether `send` fails; it does
    on the socket -1. -/
def sendStep (s : CoreA) (outcome : Bool) : CoreA :=
  match s.send with
  | .top q => { s with send := if outcome then .testSocket q else .after q }
  | .testSocket q => { s with send := if s.socket = none then .after q else .testErr q }
  | .testErr q => { s with send := if s.senderr then .after q else .readSocket q }
  | .readSocket q => { s with send := .sending q s.socket }
  | .sending q v =>
    if outcome || v.isNone then { s with sendFailed := v.toList ++ s.sendFailed, send := .setErr q } else { s with send := .after q }
  | .setErr q => { s with senderr := true, send := .after q }
  | .checkRecv => { s with send := if s.recverr then .setErrRecv else .top .ctrl }
  | .setErrRecv => { s with senderr := true, send := .top .ctrl }

/-- Which thread takes a step. -/
inductive Act where
  | listen
  | core (outcome : Bool)
  | send (outcome : Bool)
  deriving DecidableEq, Repr

def step (s : CoreA) : Act → CoreA
  | .listen => s.listenStep
  | .core outcome => s.coreStep outcome
  | .send outcome => s.sendStep outcome

def run (as : List Act) : CoreA := as.foldl step init

/-! ### The handshake -/

/-- The connection that was accepted last, until it is closed. -/
def Current (s : CoreA) (c : Nat) : Prop := s.listen = .publish c ∨ s.socket = some c

/-- Without an error on it a connection is kept, with both flags 0, and not closed; the flags are not those of another one. -/
structure Clean (s : CoreA) : Prop where
  kept : ∀ c < s.accepted, c ∉ s.sendFailed → c ∉ s.recvFailed → s.Current c
  quiet : ∀ c, s.Current c → c ∉ s.sendFailed → c ∉ s.recvFailed → s.senderr = false ∧ s.recverr = false
  own : ∀ c, s.Current c → (s.recverr = true → c ∈ s.recvFailed) ∧ (s.senderr = true → c ∈ s.sendFailed ∨ c ∈ s.recvFailed)
  closed : ∀ c ∈ s.closed, c ∈ s.sendFailed ∨ c ∈ s.recvFailed

/-- The step is not one between a test of another thread and what that thread does then: `senderr` is not set to 0 after
    `recverr` has been found set, nor found set between the two assignments of 0; the socket that a message is sent on is
    not -1; and no connection is accepted between the tests of the flags and the assignment of -1. -/
structure Undisturbed (s : CoreA) (a : Act) : Prop where
  clear : a = .listen → s.listen = .clearSend → s.send ≠ .setErrRecv
  found : ∀ o, a = .send o → s.send = .checkRecv → s.recverr = true → s.listen ≠ .clearRecv
  read : ∀ o q, a = .send o → s.send = .readSocket q → s.socket ≠ none
  publish : ∀ c, a = .listen → s.listen = .publish c → s.core ≠ .close ∧ s.core ≠ .reset

/-- The pcs of `thread_coreA` at which it has found a connection. -/
def CorePc.Receiving : CorePc → Prop
  | top => False
  | checkSend => False
  | checkRecv => False
  | close => False
  | reset => False
  | _ => True

/-- The pcs of `thread_coreA_send` at which it has found `senderr` 0. -/
def SendPc.Sending : SendPc → Prop
  | readSocket _ => True
  | sending _ _ => True
  | setErr _ => True
  | _ => False

/-- What holds at the pcs of the three threads. -/
structure Inv (s : CoreA) : Prop where
  listening : s.listen ≠ .check → s.socket = none
  cleared : s.listen = .clearRecv → s.senderr = false
  accepting : s.listen = .accept ∨ (∃ c, s.listen = .publish c) → s.senderr = false ∧ s.recverr = false
  receiving : s.core.Receiving → s.socket ≠ none
  received : s.core = .selectErr ∨ s.core = .getErr → ∀ c, s.socket = some c → c ∈ s.recvFailed
  checking : s.core = .checkRecv → ∀ c, s.socket = some c → s.recverr = true → s.senderr = true
  closing : s.core = .close ∨ s.core = .reset → ∀ c, s.socket = some c → s.recverr = true ∧ s.senderr = true
  flagless : s.send.Sending → s.senderr = false
  sending : ∀ q v, s.send = .sending q v → v = s.socket ∧ s.socket ≠ none
  failed : ∀ q, s.send = .setErr q → ∃ c, s.socket = some c ∧ c ∈ s.sendFailed
  reported : s.send = .setErrRecv → (s.listen = .check ∨ s.listen = .clearSend) ∧ ∀ c, s.socket = some c → c ∈ s.recvFailed
  own : ∀ c, s.socket = some c → (s.recverr = true → c ∈ s.recvFailed) ∧ (s.senderr = true → c ∈ s.sendFailed ∨ c ∈ s.recvFailed)
  closed : ∀ c ∈ s.closed, c ∈ s.sendFailed ∨ c ∈ s.recvFailed
  kept : ∀ c < s.accepted, s.Current c ∨ c ∈ s.sendFailed ∨ c ∈ s.recvFailed

variable {s : CoreA} {a : Act} {as : List Act} {c : Nat} {o : Bool}

theorem Inv.clean (h : s.Inv) : s.Clean := by
  have hown : ∀ c, s.Current c → (s.recverr = true → c ∈ s.recvFailed) ∧ (s.senderr = true → c ∈ s.sendFailed ∨ c ∈ s.recvFailed) := by
    rintro c (hc | hc)
    · obtain ⟨hsend, hrecv⟩ := h.accepting (.inr ⟨c, hc⟩)
      rw [hsend, hrecv]
      exact ⟨nofun, nofun⟩
    · exact h.own c hc
  refine ⟨fun c hc hsend hrecv => ?_, fun c hc hsend hrecv => ?_, hown, h.closed⟩
  · rcases h.kept c hc with hcur | hf | hf
    · exact hcur
    · exact absurd hf hsend
    · exact absurd hf hrecv
  obtain ⟨hrecverr, hsenderr⟩ := hown c hc
  refine ⟨Bool.eq_false_iff.mpr fun herr => ?_, Bool.eq_false_iff.mpr fun herr => hrecv (hrecverr herr)⟩
  rcases hsenderr herr with hf | hf
  · exact hsend hf
  · exact hrecv hf

theorem inv_init : init.Inv where
  listening h := absurd rfl h
  cleared h := by cases h
  accepting h := ⟨rfl, rfl⟩
  receiving h := h.elim
  received h := by rcases h with h | h <;> cases h
  checking h := by cases h
  closing h := by rcases h with h | h <;> cases h
  flagless h := h.elim
  sending q v h := by cases h
  failed q h := by cases h
  reported h := by cases h
  own c h := by cases h
  closed c h := absurd h List.not_mem_nil
  kept c h := absurd h (Nat.not_lt_zero c)

/-! ### The steps of `thread_listen` -/

theorem Inv.listen (h : s.Inv) (hu : s.Undisturbed .listen) : s.listenStep.Inv := by
  have hchecks : s.listen ≠ .check → ∀ c, s.socket ≠ some c := fun hpc c hc => by
    cases (h.listening hpc).symm.trans hc
  -- Without a connection in the field all earlier ones have failed.
  have hgone : s.socket = none → (∀ c, s.listen ≠ .publish c) → ∀ c < s.accepted, c ∈ s.sendFailed ∨ c ∈ s.recvFailed := by
    intro hsock hpc c hc
    rcases h.kept c hc with (hcur | hcur) | hf
    · exact absurd hcur (hpc c)
    · cases hsock.symm.trans hcur
    · exact hf
  unfold listenStep
  split
  · next hpc =>
    split
    · next hsock =>
      exact { h with
        listening := fun _ => hsock
        cleared := fun hc => by cases hc
        accepting := by rintro (hc | ⟨c, hc⟩) <;> cases hc
        reported := fun hs => ⟨.inr rfl, (h.reported hs).2⟩
        kept := fun c hc => .inr (hgone hsock (fun d hd => by cases hpc.symm.trans hd) c hc) }
    · next hsock =>
      exact { h with
        listening := fun hc => absurd rfl hc
        cleared := fun hc => by cases hc
        accepting := by rintro (hc | ⟨c, hc⟩) <;> cases hc
        reported := fun hs => ⟨.inl rfl, (h.reported hs).2⟩
        kept := fun c hc => (h.kept c hc).imp_left fun hcur =>
          .inr (hcur.resolve_left fun hd => by cases hpc.symm.trans hd) }
  · next hpc =>
    have hbusy : s.listen ≠ .check := by rw [hpc]; exact ListenPc.noConfusion
    exact { h with
      listening := fun _ => h.listening hbusy
      cleared := fun _ => rfl
      accepting := by rintro (hc | ⟨c, hc⟩) <;> cases hc
      checking := fun _ c hc => absurd hc (hchecks hbusy c)
      closing := fun _ c hc => absurd hc (hchecks hbusy c)
      flagless := fun _ => rfl
      reported := fun hs => absurd hs (hu.clear rfl hpc)
      own := fun c hc => absurd hc (hchecks hbusy c)
      kept := fun c hc => .inr (hgone (h.listening hbusy) (fun d hd => by cases hpc.symm.trans hd) c hc) }
  · next hpc =>
    have hbusy : s.listen ≠ .check := by rw [hpc]; exact ListenPc.noConfusion
    exact { h with
      listening := fun _ => h.listening hbusy
      cleared := fun hc => by cases hc
      accepting := fun _ => ⟨h.cleared hpc, rfl⟩
      checking := fun _ c hc => absurd hc (hchecks hbusy c)
      closing := fun _ c hc => absurd hc (hchecks hbusy c)
      reported := fun hs => by
        rcases (h.reported hs).1 with hc | hc <;> cases hpc.symm.trans hc
      own := fun c hc => absurd hc (hchecks hbusy c)
      kept := fun c hc => .inr (hgone (h.listening hbusy) (fun d hd => by cases hpc.symm.trans hd) c hc) }
  · next hpc =>
    have hbusy : s.listen ≠ .check := by rw [hpc]; exact ListenPc.noConfusion
    exact { h with
      listening := fun _ => h.listening hbusy
      cleared := fun hc => by cases hc
      accepting := fun _ => h.accepting (.inl hpc)
      reported := fun hs => by
        rcases (h.reported hs).1 with hc | hc <;> cases hpc.symm.trans hc
      kept := fun c hc => by
        rcases Nat.lt_succ_iff_lt_or_eq.mp hc with hc | rfl
        · exact .inr (hgone (h.listening hbusy) (fun d hd => by cases hpc.symm.trans hd) c hc)
        · exact .inl (.inl rfl) }
  · next c hpc =>
    have hsock : s.socket = none := h.listening (by rw [hpc]; exact ListenPc.noConfusion)
    obtain ⟨hsend, hrecv⟩ := h.accepting (.inr ⟨c, hpc⟩)
    exact { h with
      listening := fun hc => absurd rfl hc
      cleared := fun hc => by cases hc
      accepting := by rintro (hc | ⟨c, hc⟩) <;> cases hc
      receiving := fun _ => Option.some_ne_none c
      received := fun hc => absurd hsock (h.receiving (by rcases hc with hc | hc <;> rw [hc] <;> trivial))
      checking := fun _ d _ hr => by cases hrecv.symm.trans hr
      closing := fun hc => by
        rcases hc with hc | hc
        · exact absurd hc (hu.publish c rfl hpc).1
        · exact absurd hc (hu.publish c rfl hpc).2
      sending := fun q v hs => absurd hsock (h.sending q v hs).2
      failed := fun q hs => by
        obtain ⟨d, hd, -⟩ := h.failed q hs
        cases hsock.symm.trans hd
      reported := fun hs => by
        rcases (h.reported hs).1 with hc | hc <;> cases hpc.symm.trans hc
      own := fun d _ => by
        refine ⟨fun hr => ?_, fun hr => ?_⟩
        · cases hrecv.symm.trans hr
        · cases hsend.symm.trans hr
      kept := fun d hd => (h.kept d hd).imp_left fun hcur => by
        rcases hcur with hcur | hcur
        · cases hpc.symm.trans hcur
          exact .inr rfl
        · cases hsock.symm.trans hcur }

/-! ### The steps of `thread_coreA` -/

/-- The pcs at which `thread_coreA` has found no flag and no error. -/
def CorePc.Plain : CorePc → Prop
  | selectErr => False
  | getErr => False
  | checkRecv => False
  | close => False
  | reset => False
  | _ => True

theorem Inv.core_plain (h : s.Inv) {pc : CorePc} (hplain : pc.Plain) (hrecv : pc.Receiving → s.socket ≠ none) :
    Inv { s with core := pc } :=
  { h with
    receiving := hrecv
    received := by rintro (hc | hc) <;> cases hc <;> cases hplain
    checking := fun hc => by
      cases hc
      cases hplain
    closing := by rintro (hc | hc) <;> cases hc <;> cases hplain }

/-- A receive has failed. -/
theorem Inv.core_failed (h : s.Inv) {pc : CorePc} (hpc : pc = .selectErr ∨ pc = .getErr) (hrecv : s.core.Receiving) :
    Inv { s with recvFailed := s.socket.toList ++ s.recvFailed, core := pc } :=
  { h with
    receiving := fun _ => h.receiving hrecv
    received := fun _ c hc => List.mem_append_left _ (by rw [show s.socket = some c from hc]; exact List.mem_singleton_self c)
    checking := fun hc => by rcases hpc with rfl | rfl <;> cases hc
    closing := by rcases hpc with rfl | rfl <;> rintro (hc | hc) <;> cases hc
    reported := fun hs => ⟨(h.reported hs).1, fun c hc => List.mem_append_right _ ((h.reported hs).2 c hc)⟩
    own := fun c hc => ⟨fun hr => List.mem_append_right _ ((h.own c hc).1 hr),
      fun hr => ((h.own c hc).2 hr).imp_right (List.mem_append_right _)⟩
    closed := fun c hc => (h.closed c hc).imp_right (List.mem_append_right _)
    kept := fun c hc => (h.kept c hc).imp_right (Or.imp_right (List.mem_append_right _)) }

theorem Inv.core_reported (h : s.Inv) {pc : CorePc} (hpc : s.core = .selectErr ∨ s.core = .getErr) (hplain : pc.Plain) :
    Inv { s with recverr := true, core := pc } := by
  have hsock : s.socket ≠ none := h.receiving (by rcases hpc with hc | hc <;> rw [hc] <;> trivial)
  have hidle : s.listen = .check := by
    by_contra hbusy
    exact hsock (h.listening hbusy)
  have hp : Inv { s with core := pc } := h.core_plain hplain fun _ => hsock
  exact { hp with
    accepting := by rintro (hc | ⟨c, hc⟩) <;> cases hidle.symm.trans hc
    checking := fun hc => by
      cases hc
      cases hplain
    closing := by rintro (hc | hc) <;> cases hc <;> cases hplain
    own := fun c hc => ⟨fun _ => h.received hpc c hc, (h.own c hc).2⟩ }

theorem Inv.core (h : s.Inv) (o : Bool) : (s.coreStep o).Inv := by
  unfold coreStep
  split
  · split
    · exact h.core_plain trivial False.elim
    · next hsock => exact h.core_plain trivial fun _ => hsock
  · next hpc =>
    split
    · exact h.core_plain trivial False.elim
    · exact h.core_plain trivial fun _ => h.receiving (by rw [hpc]; trivial)
  · next hpc => exact h.core_plain trivial fun _ => h.receiving (by rw [hpc]; trivial)
  · next hpc =>
    split
    · exact h.core_failed (.inl rfl) (by rw [hpc]; trivial)
    · exact h.core_plain trivial fun _ => h.receiving (by rw [hpc]; trivial)
  · next hpc => exact h.core_reported (.inl hpc) trivial
  · next hpc =>
    split
    · exact h.core_plain trivial fun _ => h.receiving (by rw [hpc]; trivial)
    · exact h.core_plain trivial False.elim
  · next hpc =>
    split
    · exact h.core_failed (.inr rfl) (by rw [hpc]; trivial)
    · exact h.core_plain trivial False.elim
  · next hpc => exact h.core_reported (.inr hpc) trivial
  · next hpc =>
    split
    · next hsend =>
      exact { h with
        receiving := False.elim
        received := by rintro (hc | hc) <;> cases hc
        checking := fun _ _ _ _ => hsend
        closing := by rintro (hc | hc) <;> cases hc }
    · exact h.core_plain trivial False.elim
  · next hpc =>
    split
    · next hrecv =>
      exact { h with
        receiving := False.elim
        received := by rintro (hc | hc) <;> cases hc
        checking := fun hc => by cases hc
        closing := fun _ c hc => ⟨hrecv, h.checking hpc c hc hrecv⟩ }
    · exact h.core_plain trivial False.elim
  · next hpc =>
    exact { h with
      receiving := False.elim
      received := by rintro (hc | hc) <;> cases hc
      checking := fun hc => by cases hc
      closing := fun _ => h.closing (.inl hpc)
      closed := fun c hc => by
        rcases List.mem_append.mp hc with hc | hc
        · have hsock : s.socket = some c := Option.mem_toList.mp hc
          exact .inr ((h.own c hsock).1 (h.closing (.inl hpc) c hsock).1)
        · exact h.closed c hc }
  · next hpc =>
    -- Whoever is sending has found `senderr` 0, and then the socket is not given up.
    have hunsent : s.send.Sending → s.socket ≠ none → False := fun hs hsock => by
      obtain ⟨c, hc⟩ := Option.ne_none_iff_exists'.mp hsock
      cases (h.flagless hs).symm.trans (h.closing (.inr hpc) c hc).2
    exact { h with
      listening := fun _ => rfl
      receiving := False.elim
      received := by rintro (hc | hc) <;> cases hc
      checking := fun hc => by cases hc
      closing := by rintro (hc | hc) <;> cases hc
      sending := fun q v hs => (hunsent (by rw [show s.send = .sending q v from hs]; trivial) (h.sending q v hs).2).elim
      failed := fun q hs => by
        obtain ⟨c, hc, -⟩ := h.failed q hs
        exact (hunsent (by rw [show s.send = .setErr q from hs]; trivial) (by rw [hc]; exact Option.some_ne_none c)).elim
      reported := fun hs => ⟨(h.reported hs).1, fun c hc => by cases hc⟩
      own := fun c hc => by cases hc
      kept := fun c hc => by
        rcases h.kept c hc with (hcur | hcur) | hf
        · exact .inl (.inl hcur)
        · exact .inr (.inr ((h.own c hcur).1 (h.closing (.inr hpc) c hcur).1))
        · exact .inr hf }

/-! ### The steps of `thread_coreA_send` -/

theorem Inv.send_plain (h : s.Inv) {pc : SendPc} (hsend : ¬pc.Sending) (hpc : pc ≠ .setErrRecv) : Inv { s with send := pc } :=
  { h with
    flagless := fun hs => absurd hs hsend
    sending := fun q v hs => absurd (show pc.Sending by rw [show pc = .sending q v from hs]; trivial) hsend
    failed := fun q hs => absurd (show pc.Sending by rw [show pc = .setErr q from hs]; trivial) hsend
    reported := fun hs => absurd hs hpc }

theorem Inv.send_after (h : s.Inv) (q : TxFifo) : Inv { s with send := .after q } := by
  cases q
  · exact h.send_plain id SendPc.noConfusion
  · exact h.send_plain id SendPc.noConfusion

theorem Inv.send_reported (h : s.Inv) {pc : SendPc} (hsend : ¬pc.Sending) (hpc : pc ≠ .setErrRecv)
    (hlisten : s.listen = .check ∨ s.listen = .clearSend)
    (hfailed : ∀ c, s.socket = some c → c ∈ s.sendFailed ∨ c ∈ s.recvFailed) : Inv { s with senderr := true, send := pc } :=
  { h.send_plain hsend hpc with
    cleared := fun hc => by
      rcases hlisten with hl | hl <;> cases hl.symm.trans hc
    accepting := by
      rintro (hc | ⟨c, hc⟩) <;> rcases hlisten with hl | hl <;> cases hl.symm.trans hc
    checking := fun _ _ _ _ => rfl
    closing := fun hc c hsock => ⟨(h.closing hc c hsock).1, rfl⟩
    flagless := fun hs => absurd hs hsend
    own := fun c hc => ⟨(h.own c hc).1, fun _ => hfailed c hc⟩ }

theorem Inv.send (h : s.Inv) (hu : s.Undisturbed (.send o)) : (s.sendStep o).Inv := by
  unfold sendStep
  split
  · split
    · exact h.send_plain id SendPc.noConfusion
    · exact h.send_after _
  · split
    · exact h.send_after _
    · exact h.send_plain id SendPc.noConfusion
  · split
    · exact h.send_after _
    · next herr =>
      exact { h with
        flagless := fun _ => Bool.eq_false_iff.mpr herr
        sending := fun q v hs => by cases hs
        failed := fun q hs => by cases hs
        reported := fun hs => by cases hs }
  · next q hpc =>
    exact { h with
      flagless := fun _ => h.flagless (by rw [hpc]; trivial)
      sending := fun r v hs => by
        cases hs
        exact ⟨rfl, hu.read o q rfl hpc⟩
      failed := fun q hs => by cases hs
      reported := fun hs => by cases hs }
  · next q v hpc =>
    obtain ⟨rfl, hsock⟩ := h.sending q v hpc
    obtain ⟨c, hc⟩ := Option.ne_none_iff_exists'.mp hsock
    split
    · exact { h with
        flagless := fun _ => h.flagless (by rw [hpc]; trivial)
        sending := fun q v hs => by cases hs
        failed := fun q _ => ⟨c, hc, List.mem_append_left _ (by rw [hc]; exact List.mem_singleton_self c)⟩
        reported := fun hs => by cases hs
        own := fun d hd => ⟨(h.own d hd).1, fun hr => ((h.own d hd).2 hr).imp_left (List.mem_append_right _)⟩
        closed := fun d hd => (h.closed d hd).imp_left (List.mem_append_right _)
        kept := fun d hd => (h.kept d hd).imp_right (Or.imp_left (List.mem_append_right _)) }
    · exact h.send_after q
  · next q hpc =>
    obtain ⟨c, hc, hfailed⟩ := h.failed q hpc
    have hlisten : s.listen = .check ∨ s.listen = .clearSend := by
      by_contra hbusy
      rw [not_or] at hbusy
      cases (h.listening hbusy.1).symm.trans hc
    have hown : ∀ d, s.socket = some d → d ∈ s.sendFailed ∨ d ∈ s.recvFailed := fun d hd => by
      obtain rfl : c = d := Option.some.inj (hc.symm.trans hd)
      exact .inl hfailed
    cases q
    · exact h.send_reported id SendPc.noConfusion hlisten hown
    · exact h.send_reported id SendPc.noConfusion hlisten hown
  · next hpc =>
    split
    · next hrecv =>
      exact { h with
        flagless := False.elim
        sending := fun q v hs => by cases hs
        failed := fun q hs => by cases hs
        reported := fun _ => by
          refine ⟨?_, fun c hc => (h.own c hc).1 hrecv⟩
          cases hl : s.listen with
          | check => exact .inl rfl
          | clearSend => exact .inr rfl
          | clearRecv => exact absurd hl (hu.found o rfl hpc hrecv)
          | accept => cases (h.accepting (.inl hl)).2.symm.trans hrecv
          | publish c => cases (h.accepting (.inr ⟨c, hl⟩)).2.symm.trans hrecv }
    · exact h.send_plain id SendPc.noConfusion
  · next hpc =>
    obtain ⟨hlisten, hfailed⟩ := h.reported hpc
    exact h.send_reported id SendPc.noConfusion hlisten fun c hc => .inr (hfailed c hc)

theorem Inv.step (h : s.Inv) (hu : s.Undisturbed a) : (s.step a).Inv := by
  cases a with
  | listen => exact h.listen hu
  | core o => exact h.core o
  | send o => exact h.send hu

end CoreA

/-- In every run whose steps are undisturbed, no flag is set but for an error on the connection, and no connection is closed
    without one. -/
theorem coreA_clean (as : List CoreA.Act) (h : ∀ pre a post, as = pre ++ a :: post → (CoreA.run pre).Undisturbed a) :
    (CoreA.run as).Clean := by
  refine CoreA.Inv.clean ?_
  induction as using List.reverseRecOn with
  | nil => exact CoreA.inv_init
  | append_singleton as a ih =>
    have hrun : CoreA.run (as ++ [a]) = (CoreA.run as).step a := List.foldl_concat ..
    rw [hrun]
    exact (ih fun pre b post has => h pre b (post ++ [a]) (by rw [has]; simp)).step (h as a [] rfl)

namespace CoreA

/-- `thread_listen` runs while the others are not closing the connection, and they run while there is one. -/
theorem Undisturbed.of_apart {s : CoreA} {a : Act}
    (hlisten : a = .listen → s.send ≠ .setErrRecv ∧ s.core ≠ .close ∧ s.core ≠ .reset)
    (hothers : a ≠ .listen → s.listen ≠ .clearRecv ∧ s.socket ≠ none) : s.Undisturbed a where
  clear ha _ := (hlisten ha).1
  found _ ha _ _ := (hothers (ha ▸ Act.noConfusion)).1
  read _ _ ha _ := (hothers (ha ▸ Act.noConfusion)).2
  publish _ ha _ := (hlisten ha).2

/-- A connection is accepted, a receive fails on it and is reported. -/
def failing : List Act := List.replicate 5 .listen ++
  [.core false, .core false, .core false, .core false, .core true, .core true, .core false] ++ List.replicate 4 (.send false)

/-- The connection that has failed is closed, and a second one is accepted. -/
def reconnecting : List Act := failing ++ List.replicate 4 (.core false) ++ List.replicate 5 .listen

end CoreA

open CoreA in
theorem coreA_clean_accepted : (run reconnecting).closed = [0] ∧ (run reconnecting).socket = some 1 ∧ (run reconnecting).Clean := by
  refine ⟨by decide, by decide, coreA_clean _ fun pre a post hsplit => ?_⟩
  have hall : ∀ i < 25, let s := run (reconnecting.take i)
      (reconnecting[i]? = some .listen → s.send ≠ .setErrRecv ∧ s.core ≠ .close ∧ s.core ≠ .reset) ∧
        (reconnecting[i]? ≠ some .listen → s.listen ≠ .clearRecv ∧ s.socket ≠ none) := by
    decide
  have hlen : reconnecting.length = 25 := rfl
  have hapart := hall pre.length (by rw [← hlen, hsplit, List.length_append, List.length_cons]; omega)
  have hget : (pre ++ a :: post)[pre.length]? = some a := by simp
  rw [hsplit, List.take_left, hget, Option.some.injEq] at hapart
  exact .of_apart hapart.1 fun ha => hapart.2 fun h => ha (Option.some.inj h)

/-- After the connection that fails a second one is accepted. In the first run `thread_coreA_send` has found `recverr` set once
    more before, in the second one `thread_coreA` has found both flags set once more. -/
theorem coreA_disturbed :
    ¬(CoreA.run (CoreA.failing ++ List.replicate 3 (.send false) ++ List.replicate 4 (.core false) ++ List.replicate 5 .listen ++
      [.send false])).Clean ∧
    ¬(CoreA.run (CoreA.failing ++ List.replicate 7 (.core false) ++ List.replicate 5 .listen ++ [.core false])).Clean := by
  constructor
  · intro h
    obtain ⟨hsend, -⟩ := h.quiet 1 (.inr (by decide)) (by decide) (by decide)
    exact absurd hsend (by decide)
  · intro h
    rcases h.closed 1 (by decide) with hf | hf
    · exact absurd hf (by decide)
    · exact absurd hf (by decide)

end Recbcsrv
