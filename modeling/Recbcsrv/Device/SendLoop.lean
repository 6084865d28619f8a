import Mathlib.Logic.Function.Basic
import Mathlib.Data.List.Infix
import Mathlib.Data.List.Induction
import Recbcsrv.Lib.Exec
import Recbcsrv.Lib.Interleave
import Recbcsrv.Message.Walk

/-! The outbound halves of the device threads: `thread_coreA_send`, `thread_coreB` and `thread_coreC` take the
    heads of `Ctrl_consumer_fifo` and `UART_TX_consumer_fifo` in turn and send them to the device. Messages
    arrive between any two steps of the loop. -/

namespace Recbcsrv

/-! ### The three loops -/

/-- The `arg` of a message in a FIFO: the bytes it points to and `len`. -/
structure ItemArg where
  data : List UInt8
  len : Nat
  deriving DecidableEq, Repr

/-- `strcmp(cmd, COMMAND_INTERNAL)` is zero for the command of the message. -/
def ItemArg.isInternal (m : ItemArg) : Bool := (m.data.drop versionSize).take cmdSize = commandInternal

/-- The FIFOs that the loop takes messages from. -/
inductive TxFifo where
  | ctrl
  | uartTx
  deriving DecidableEq, Repr

/-- The branch of the loop for one of the FIFOs, taken when its head is there: it looks at the head of `source`,
    sends it, unless `filtered` and the command is internal, and removes the head of its own FIFO. -/
structure Branch where
  source : TxFifo
  filtered : Bool

/-- The two branches of the loop in `thread_coreA_send`. -/
def threadCoreASend : TxFifo → Branch
  | .ctrl => ⟨.ctrl, true⟩
  | .uartTx => ⟨.uartTx, false⟩

/-- The two branches of the loop in `thread_coreB`. -/
def threadCoreB : TxFifo → Branch
  | .ctrl => ⟨.ctrl, true⟩
  | .uartTx => ⟨.uartTx, false⟩

/-- The two branches of the loop in `thread_coreC`. -/
def threadCoreC : TxFifo → Branch
  | .ctrl => ⟨.ctrl, false⟩
  | .uartTx => ⟨.ctrl, true⟩

/-! ### Runs -/

/-- Where the loop is: at the test of a head, before the `send` for it, before its removal, or stopped by
    an access through the null head of an empty FIFO. -/
inductive SendPc where
  | test (q : TxFifo)
  | send (q : TxFifo)
  | remove (q : TxFifo)
  | nullRead
  deriving DecidableEq, Repr

/-- The two FIFOs, whether the connection can be sent on (`socket>=0`, in `thread_coreA_send` also `!senderr`),
    what was sent, and where the loop is. -/
structure SendState where
  fifo : TxFifo → List ItemArg
  online : Bool
  sent : List ItemArg
  pc : SendPc

/-- A message arrives in a FIFO, the receiving side changes the connection, or the loop takes a step whose
    `send` succeeds or fails. -/
inductive SendAction where
  | arrive (q : TxFifo) (m : ItemArg)
  | link (online : Bool)
  | run (sent : Bool)

/-- The other FIFO, which the loop turns to next. -/
def TxFifo.next : TxFifo → TxFifo
  | .ctrl => .uartTx
  | .uartTx => .ctrl

/-- What a branch sends: nothing for a message that it filters. The head of an empty FIFO is a null pointer. -/
def Branch.output (b : Branch) (fifo : TxFifo → List ItemArg) : Option (Option ItemArg) :=
  (fifo b.source).head?.map fun m => if b.filtered && m.isInternal then none else some m

namespace SendState

/-- `send`, if there is something to send and a connection. A failed `send` gives the connection up. -/
def put (s : SendState) (o : Option ItemArg) (ok : Bool) : SendState :=
  match o with
  | none => s
  | some m =>
    if s.online then
      if ok then { s with sent := s.sent ++ [m] } else { s with online := false }
    else s

/-- One step of a loop with the branches `l`. -/
def run (l : TxFifo → Branch) (s : SendState) (ok : Bool) : Option SendState :=
  match s.pc with
  | .test q => some { s with pc := if s.fifo q = [] then .test q.next else .send q }
  | .send q =>
    match (l q).output s.fifo with
    | none => some { s with pc := .nullRead }
    | some o => some { s.put o ok with pc := .remove q }
  | .remove q => some { s with fifo := Function.update s.fifo q (s.fifo q).tail, pc := .test q.next }
  | .nullRead => none

/-- One action. -/
def step (l : TxFifo → Branch) (s : SendState) : SendAction → Option SendState
  | .arrive q m => some { s with fifo := Function.update s.fifo q (s.fifo q ++ [m]) }
  | .link online => some { s with online }
  | .run ok => s.run l ok

/-- The loop at its start, with a connection. -/
def start : SendState := ⟨fun _ => [], true, [], .test .ctrl⟩

/-- The messages of a FIFO that the loop has not handled yet. -/
def waiting (s : SendState) (q : TxFifo) : List ItemArg := if s.pc = .remove q then (s.fifo q).tail else s.fifo q

end SendState

/-- The device stays connected and no `send` fails. -/
def SendAction.Connected (a : SendAction) : Prop := a ≠ .link false ∧ a ≠ .run false

/-- The messages that arrive in `q`, in their order. -/
def arrivals (q : TxFifo) : List SendAction → List ItemArg
  | [] => []
  | .arrive q' m :: as => if q' = q then m :: arrivals q as else arrivals q as
  | _ :: as => arrivals q as

/-- The forwarding rule for one message: an internal one of the control FIFO is held back. -/
def forwarded : TxFifo → ItemArg → Option ItemArg
  | .ctrl, m => if m.isInternal then none else some m
  | .uartTx, m => some m

/-- The forwarding rule in a state after the actions `as`: what was sent is an interleaving of the messages of
    the two FIFOs that were handled, each message as it arrived, once, and in the order of its FIFO. -/
structure Forwards (as : List SendAction) (s : SendState) : Prop where
  alive : s.pc ≠ .nullRead
  sent : ∃ handled : TxFifo → List ItemArg, (∀ q, arrivals q as = handled q ++ s.waiting q) ∧
    Interleave ((handled .ctrl).filterMap (forwarded .ctrl)) ((handled .uartTx).filterMap (forwarded .uartTx)) s.sent

/-- The branch that a step is in does what the rule says for the head of its FIFO. -/
def SoundStep (l : TxFifo → Branch) (s : SendState) : SendAction → Prop
  | .run _ => ∀ q, s.pc = .send q → (l q).output s.fifo = (s.fifo q).head?.map (forwarded q)
  | _ => True

/-- What holds in every state while the device stays connected. -/
structure SendState.Ready (s : SendState) : Prop where
  online : s.online = true
  nonempty : ∀ q, s.pc = .send q ∨ s.pc = .remove q → s.fifo q ≠ []

section
variable {l : TxFifo → Branch} {s t : SendState} {a : SendAction} {as : List SendAction} {q : TxFifo} {m : ItemArg}
  {o : Option ItemArg}
open SendState

theorem arrivals_append (as bs : List SendAction) : arrivals q (as ++ bs) = arrivals q as ++ arrivals q bs := by
  induction as with
  | nil => rfl
  | cons a as ih =>
    cases a with
    | arrive q' m => by_cases h : q' = q <;> simp [arrivals, h, ih]
    | link | run => exact ih

theorem put_of_online (h : s.online = true) : s.put o true = { s with sent := s.sent ++ o.toList } := by
  cases o with
  | none => simp [put]
  | some m => simp [put, h]

/-- What a connected step of the loop can do. -/
theorem step_cases (hs : s.Ready) (ha : a.Connected) (h : s.step l a = some t) :
    (∃ q m, a = .arrive q m ∧ t = { s with fifo := Function.update s.fifo q (s.fifo q ++ [m]) }) ∨
    (a = .link true ∧ t = s) ∨
    a = .run true ∧
      ((∃ q, s.pc = .test q ∧ s.fifo q = [] ∧ t = { s with pc := .test q.next }) ∨
        (∃ q, s.pc = .test q ∧ s.fifo q ≠ [] ∧ t = { s with pc := .send q }) ∨
        (∃ q, s.pc = .send q ∧ (l q).output s.fifo = none ∧ t = { s with pc := .nullRead }) ∨
        (∃ q o, s.pc = .send q ∧ (l q).output s.fifo = some o ∧
          t = { s with sent := s.sent ++ o.toList, pc := .remove q }) ∨
        ∃ q, s.pc = .remove q ∧
          t = { s with fifo := Function.update s.fifo q (s.fifo q).tail, pc := .test q.next }) := by
  cases a with
  | arrive q m => exact .inl ⟨q, m, rfl, (Option.some.inj h).symm⟩
  | link online =>
    cases online with
    | false => exact absurd rfl ha.1
    | true => exact .inr (.inl ⟨rfl, by rw [← Option.some.inj h, ← hs.online]⟩)
  | run ok =>
    cases ok with
    | false => exact absurd rfl ha.2
    | true =>
      refine .inr (.inr ⟨rfl, ?_⟩)
      simp only [step, run] at h
      split at h
      · next q hpc =>
        by_cases hq : s.fifo q = []
        · exact .inl ⟨q, hpc, hq, by simpa [hq] using h.symm⟩
        · exact .inr (.inl ⟨q, hpc, hq, by simpa [hq] using h.symm⟩)
      · next q hpc =>
        split at h
        · next ho => exact .inr (.inr (.inl ⟨q, hpc, ho, (Option.some.inj h).symm⟩))
        · next o ho =>
          rw [put_of_online hs.online] at h
          exact .inr (.inr (.inr (.inl ⟨q, o, hpc, ho, (Option.some.inj h).symm⟩)))
      · next q hpc => exact .inr (.inr (.inr (.inr ⟨q, hpc, (Option.some.inj h).symm⟩)))
      · cases h

theorem SendState.Ready.step (hs : s.Ready) (ha : a.Connected) (h : s.step l a = some t) : t.Ready := by
  obtain ⟨q, m, -, rfl⟩ | ⟨-, rfl⟩ | ⟨-, ⟨q, -, -, rfl⟩ | ⟨q, -, hq, rfl⟩ | ⟨q, -, -, rfl⟩ | ⟨q, o, hpc, -, rfl⟩ |
    ⟨q, -, rfl⟩⟩ := step_cases hs ha h
  · refine ⟨hs.online, fun q' hq' => ?_⟩
    by_cases e : q' = q
    · subst e
      simp
    · have hne := hs.nonempty q' hq'
      simpa only [Function.update_of_ne e] using hne
  · exact hs
  · exact ⟨hs.online, fun q' hq' => by simp at hq'⟩
  · refine ⟨hs.online, fun q' hq' => ?_⟩
    obtain rfl : q = q' := by simpa using hq'
    exact hq
  · exact ⟨hs.online, fun q' hq' => by simp at hq'⟩
  · refine ⟨hs.online, fun q' hq' => ?_⟩
    obtain rfl : q = q' := by simpa using hq'
    exact hs.nonempty q (.inl hpc)
  · exact ⟨hs.online, fun q' hq' => by simp at hq'⟩

/-! ### One step -/

theorem Forwards.of_same (h : Forwards as s) (hpc : t.pc ≠ .nullRead) (hsent : t.sent = s.sent) (new : List ItemArg)
    (ha : ∀ q', arrivals q' [a] = if q' = q then new else [])
    (hw : ∀ q', t.waiting q' = s.waiting q' ++ if q' = q then new else []) : Forwards (as ++ [a]) t := by
  obtain ⟨handled, harr, hint⟩ := h.sent
  refine ⟨hpc, handled, fun q' => ?_, hsent ▸ hint⟩
  rw [arrivals_append, harr, ha, hw, List.append_assoc]

theorem waiting_arrive (hs : s.Ready) (q' : TxFifo) :
    waiting { s with fifo := Function.update s.fifo q (s.fifo q ++ [m]) } q' =
      s.waiting q' ++ if q' = q then [m] else [] := by
  by_cases e : q' = q
  · subst e
    by_cases hpc : s.pc = .remove q'
    · simp [waiting, hpc, List.tail_append_of_ne_nil (hs.nonempty q' (.inr hpc))]
    · simp [waiting, hpc]
  · simp [waiting, e]

theorem waiting_remove (hpc : s.pc = .remove q) (q' : TxFifo) :
    waiting { s with fifo := Function.update s.fifo q (s.fifo q).tail, pc := .test q.next } q' = s.waiting q' := by
  by_cases e : q' = q
  · subst e
    simp [waiting, hpc]
  · have e' : q ≠ q' := fun h => e h.symm
    simp [waiting, hpc, Function.update_of_ne e, e']

theorem interleave_handle {handled : TxFifo → List ItemArg} {sent : List ItemArg} (q : TxFifo) (m : ItemArg)
    (h : Interleave ((handled .ctrl).filterMap (forwarded .ctrl)) ((handled .uartTx).filterMap (forwarded .uartTx)) sent) :
    Interleave ((Function.update handled q (handled q ++ [m]) .ctrl).filterMap (forwarded .ctrl))
      ((Function.update handled q (handled q ++ [m]) .uartTx).filterMap (forwarded .uartTx))
      (sent ++ (forwarded q m).toList) := by
  cases q with
  | ctrl =>
    cases hf : forwarded .ctrl m with
    | none => simpa [List.filterMap_append, hf] using h
    | some m' => simpa [List.filterMap_append, hf] using h.left m'
  | uartTx => simpa [List.filterMap_append, forwarded] using h.right m

/-- The branch of `q` handles the head `m` and sends `o`: the rule is kept if and only if `o` is what it says. -/
theorem forwards_send (h : Forwards as s) (hpc : s.pc = .send q) {rest : List ItemArg} (hq : s.fifo q = m :: rest)
    (ha : ∀ q', arrivals q' [a] = []) :
    Forwards (as ++ [a]) { s with sent := s.sent ++ o.toList, pc := .remove q } ↔ o = forwarded q m := by
  obtain ⟨handled, harr, hint⟩ := h.sent
  have harr' : ∀ q', arrivals q' (as ++ [a]) = Function.update handled q (handled q ++ [m]) q' ++
      waiting { s with sent := s.sent ++ o.toList, pc := .remove q } q' := fun q' => by
    rw [arrivals_append, ha, List.append_nil, harr]
    by_cases e : q' = q
    · subst e
      simp [waiting, hpc, hq]
    · have e' : q ≠ q' := fun h => e h.symm
      simp [waiting, hpc, Function.update_of_ne e, e']
  constructor
  · rintro ⟨-, handled', harr'', hint'⟩
    have hh : handled' = Function.update handled q (handled q ++ [m]) :=
      funext fun q' => List.append_cancel_right ((harr'' q').symm.trans (harr' q'))
    rw [hh] at hint'
    -- What was sent before is the same, so the new elements are.
    have hperm := (List.perm_append_left_iff _).mp (hint'.perm_of_same (interleave_handle q m hint))
    cases ho : o <;> cases hf : forwarded q m <;> simp [ho, hf] at hperm ⊢
    exact hperm
  · rintro rfl
    exact ⟨by simp, _, harr', interleave_handle q m hint⟩

/-- A step of the loop keeps the rule if and only if it is sound. -/
theorem forwards_step_iff (hs : s.Ready) (ha : a.Connected) (h : s.step l a = some t) (hf : Forwards as s) :
    Forwards (as ++ [a]) t ↔ SoundStep l s a := by
  obtain ⟨q, m, rfl, rfl⟩ | ⟨rfl, rfl⟩ | ⟨rfl, ⟨q, hpc, hq, rfl⟩ | ⟨q, hpc, hq, rfl⟩ | ⟨q, hpc, ho, rfl⟩ |
    ⟨q, o, hpc, ho, rfl⟩ | ⟨q, hpc, rfl⟩⟩ := step_cases hs ha h
  · refine iff_of_true (hf.of_same hf.alive rfl [m] (fun q' => ?_) (waiting_arrive hs)) trivial
    simp [arrivals, eq_comm]
  · exact iff_of_true (hf.of_same (q := .ctrl) hf.alive rfl [] (by simp [arrivals]) (by simp)) trivial
  · refine iff_of_true (hf.of_same (q := q) (by simp) rfl [] (by simp [arrivals]) fun q' => ?_) fun q' hq' => ?_
    · simp [waiting, hpc]
    · simp [hpc] at hq'
  · refine iff_of_true (hf.of_same (q := q) (by simp) rfl [] (by simp [arrivals]) fun q' => ?_) fun q' hq' => ?_
    · simp [waiting, hpc]
    · simp [hpc] at hq'
  · refine iff_of_false (fun h => h.alive rfl) fun h => hs.nonempty q (.inl hpc) ?_
    have hnone := h q hpc
    rw [ho, eq_comm, Option.map_eq_none_iff, List.head?_eq_none_iff] at hnone
    exact hnone
  · obtain ⟨m, rest, hq⟩ := List.exists_cons_of_ne_nil (hs.nonempty q (.inl hpc))
    rw [forwards_send hf hpc hq fun q' => rfl]
    simp [SoundStep, hpc, ho, hq]
  · refine iff_of_true (hf.of_same (q := q) (by simp) rfl [] (by simp [arrivals]) fun q' => ?_) fun q' hq' => ?_
    · simp [waiting_remove hpc]
    · simp [hpc] at hq'

/-! ### Whole runs -/

theorem SendState.Ready.start : start.Ready := ⟨rfl, fun q hq => by simp [SendState.start] at hq⟩

theorem Forwards.start : Forwards [] start :=
  ⟨by simp [SendState.start], fun _ => [], fun q => by simp [arrivals, waiting, SendState.start], .nil⟩

theorem SendState.Ready.exec (hs : s.Ready) (hc : ∀ a ∈ as, a.Connected) (h : Exec.exec (SendState.step l) s as = some t) :
    t.Ready :=
  Exec.exec_invariant_mem (fun a ha _ _ hs hstep => hs.step (hc a ha) hstep) hs h

/-- A run of sound steps keeps the rule. -/
theorem Forwards.exec (hc : ∀ a ∈ as, a.Connected)
    (hsound : ∀ pre a s, pre ++ [a] <+: as → Exec.exec (SendState.step l) SendState.start pre = some s → SoundStep l s a)
    (h : Exec.exec (SendState.step l) SendState.start as = some t) : Forwards as t := by
  induction as using List.reverseRecOn generalizing t with
  | nil =>
    cases h
    exact .start
  | append_singleton as a ih =>
    obtain ⟨s, hs, h⟩ := Exec.exec_append.mp h
    obtain ⟨t', ht', rfl⟩ : ∃ t', s.step l a = some t' ∧ t' = t := by simpa [Exec.exec_cons] using h
    have hcs : ∀ b ∈ as, b.Connected := fun b hb => hc b (List.mem_append_left _ hb)
    refine (forwards_step_iff (Ready.start.exec hcs hs) (hc a (by simp)) ht' (ih hcs (fun pre b s hpre => ?_) hs)).mpr
      (hsound as a s (List.prefix_refl _) hs)
    exact hsound pre b s (hpre.trans (List.prefix_append ..))

/-- A loop in any run keeps the rule throughout if and only if all its steps are sound. -/
theorem forwards_iff (l : TxFifo → Branch) (hc : ∀ a ∈ as, a.Connected) :
    (∀ pre s, pre <+: as → Exec.exec (SendState.step l) SendState.start pre = some s → Forwards pre s) ↔
      ∀ pre a s, pre ++ [a] <+: as → Exec.exec (SendState.step l) SendState.start pre = some s → SoundStep l s a := by
  constructor
  · intro hf pre a s hpre hs
    have hpre' : pre <+: as := (List.prefix_append ..).trans hpre
    have hready := Ready.start.exec (fun b hb => hc b (hpre'.subset hb)) hs
    have hfs := hf pre s hpre' hs
    cases ht : s.step l a with
    | none =>
      -- Only a loop that has stopped takes no step.
      cases a with
      | arrive | link => cases ht
      | run ok =>
        intro q hpc
        simp only [SendState.step, SendState.run, hpc] at ht
        split at ht <;> cases ht
    | some t =>
      have hft := hf (pre ++ [a]) t hpre (Exec.exec_append.mpr ⟨s, hs, by rw [Exec.exec_cons]; exact ⟨t, ht, rfl⟩⟩)
      exact (forwards_step_iff hready (hc a (hpre.subset (by simp))) ht hfs).mp hft
  · intro hsound pre s hpre hs
    exact .exec (fun b hb => hc b (hpre.subset hb)) (fun pre' a s' h => hsound pre' a s' (h.trans hpre)) hs

/-- Every branch sends from its own FIFO, and filters exactly the control messages. -/
def Regular (l : TxFifo → Branch) : Prop := l .ctrl = ⟨.ctrl, true⟩ ∧ l .uartTx = ⟨.uartTx, false⟩

theorem Regular.output (hl : Regular l) (q : TxFifo) : (l q).output s.fifo = (s.fifo q).head?.map (forwarded q) := by
  cases q
  · rw [hl.1]
    rfl
  · rw [hl.2]
    rfl

theorem Regular.sound (hl : Regular l) : SoundStep l s a := by
  cases a with
  | arrive | link => trivial
  | run ok => exact fun q _ => hl.output q

/-- How far the loop is from having emptied its FIFOs. -/
def SendState.remaining (s : SendState) : Nat :=
  6 * ((s.fifo .ctrl).length + (s.fifo .uartTx).length) +
    match s.pc with
    | .test q => if s.fifo q = [] then 4 else 3
    | .send _ => 2
    | .remove _ => 1
    | .nullRead => 0

theorem Regular.run (hl : Regular l) (hs : s.Ready) (hpc : s.pc ≠ .nullRead) (hne : ∃ q, s.fifo q ≠ []) :
    ∃ t, s.step l (.run true) = some t ∧ t.pc ≠ .nullRead ∧ t.remaining < s.remaining := by
  cases h : s.pc with
  | test q =>
    refine ⟨{ s with pc := if s.fifo q = [] then .test q.next else .send q }, by simp [SendState.step, SendState.run, h],
      by dsimp only; split <;> simp, ?_⟩
    by_cases hq : s.fifo q = []
    · -- The other FIFO is the one with a message.
      have hnext : s.fifo q.next ≠ [] := by
        obtain ⟨q', hq'⟩ := hne
        cases q <;> cases q' <;> first | exact hq' | exact absurd hq hq'
      simp [remaining, h, hq, hnext]
    · simp [remaining, h, hq]
  | send q =>
    obtain ⟨m, rest, hq⟩ := List.exists_cons_of_ne_nil (hs.nonempty q (.inl h))
    have hout : (l q).output s.fifo = some (forwarded q m) := by rw [hl.output, hq]; rfl
    refine ⟨{ s with sent := s.sent ++ (forwarded q m).toList, pc := .remove q }, ?_, by simp, by simp [remaining, h]⟩
    simp only [SendState.step, SendState.run, h, hout, put_of_online hs.online]
  | remove q =>
    refine ⟨{ s with fifo := Function.update s.fifo q (s.fifo q).tail, pc := .test q.next },
      by simp only [SendState.step, SendState.run, h], by simp, ?_⟩
    obtain ⟨m, rest, hq⟩ := List.exists_cons_of_ne_nil (hs.nonempty q (.inr h))
    have hle : ∀ q' : TxFifo, (if Function.update s.fifo q rest q' = [] then 4 else 3) ≤ 4 := fun q' => by split <;> omega
    have := hle q.next
    cases q <;> simp [remaining, h, hq] <;> omega
  | nullRead => exact absurd h hpc

/-- A regular loop that is given no more messages empties its FIFOs. -/
theorem Regular.drains (hl : Regular l) (hs : s.Ready) (hpc : s.pc ≠ .nullRead) :
    ∃ n t, Exec.exec (SendState.step l) s (List.replicate n (.run true)) = some t ∧ ∀ q, t.fifo q = [] := by
  induction hk : s.remaining using Nat.strongRecOn generalizing s with
  | ind k ih =>
    by_cases hne : ∃ q, s.fifo q ≠ []
    · obtain ⟨u, hu, hupc, hlt⟩ := hl.run hs hpc hne
      obtain ⟨n, t, ht, hempty⟩ := ih u.remaining (hk ▸ hlt) (hs.step ⟨by simp, by simp⟩ hu) hupc rfl
      exact ⟨n + 1, t, Exec.exec_cons.mpr ⟨u, hu, ht⟩, hempty⟩
    · exact ⟨0, s, rfl, fun q => Classical.byContradiction fun h => hne ⟨q, h⟩⟩

end

/-- The branches of `thread_coreC` do what the rule says: the control message at the head is not internal, and when
    a message of the other FIFO is at the head, a control message with the same data and length is at the head
    of `Ctrl_consumer_fifo` and is not internal. -/
def CoreCSound (s : SendState) : SendAction → Prop
  | .run _ => (s.pc = .send .ctrl → ∀ m, (s.fifo .ctrl).head? = some m → m.isInternal = false) ∧
      (s.pc = .send .uartTx →
        ∃ m, (s.fifo .uartTx).head? = some m ∧ (s.fifo .ctrl).head? = some m ∧ m.isInternal = false)
  | _ => True

theorem coreCSound_iff {s : SendState} {a : SendAction} (hs : s.Ready) : SoundStep threadCoreC s a ↔ CoreCSound s a := by
  cases a with
  | arrive | link => exact Iff.rfl
  | run ok =>
    have hctrl : s.pc = .send .ctrl → ((threadCoreC .ctrl).output s.fifo = (s.fifo .ctrl).head?.map (forwarded .ctrl) ↔
        ∀ m, (s.fifo .ctrl).head? = some m → m.isInternal = false) := fun hpc => by
      obtain ⟨m, rest, hq⟩ := List.exists_cons_of_ne_nil (hs.nonempty .ctrl (.inl hpc))
      cases hi : m.isInternal <;> simp [threadCoreC, Branch.output, forwarded, hq, hi]
    have huart : s.pc = .send .uartTx →
        ((threadCoreC .uartTx).output s.fifo = (s.fifo .uartTx).head?.map (forwarded .uartTx) ↔
          ∃ m, (s.fifo .uartTx).head? = some m ∧ (s.fifo .ctrl).head? = some m ∧ m.isInternal = false) := fun hpc => by
      obtain ⟨m, rest, hq⟩ := List.exists_cons_of_ne_nil (hs.nonempty .uartTx (.inl hpc))
      cases hc : s.fifo .ctrl with
      | nil => simp [threadCoreC, Branch.output, forwarded, hq, hc]
      | cons m' rest' =>
        cases hi : m'.isInternal <;> simp [threadCoreC, Branch.output, forwarded, hq, hc, hi]
        · rintro rfl
          exact hi
        · rintro rfl
          exact hi
    constructor
    · exact fun h => ⟨fun hpc => (hctrl hpc).mp (h .ctrl hpc), fun hpc => (huart hpc).mp (h .uartTx hpc)⟩
    · rintro ⟨h₁, h₂⟩ q hpc
      cases q with
      | ctrl => exact (hctrl hpc).mpr (h₁ hpc)
      | uartTx => exact (huart hpc).mpr (h₂ hpc)

/-- While the device stays connected, the loops of `thread_coreA_send` and `thread_coreB` keep the forwarding rule in
    every run and send all that has arrived when no more does; the loop of `thread_coreC` keeps the rule throughout
    a run if and only if its branches meet their condition in every step. -/
theorem sendLoops_forward_iff (as : List SendAction) (hc : ∀ a ∈ as, a.Connected) :
    (∀ l ∈ [threadCoreASend, threadCoreB], ∀ s, Exec.exec (SendState.step l) SendState.start as = some s →
      Forwards as s ∧ ∃ n t, Exec.exec (SendState.step l) s (List.replicate n (.run true)) = some t ∧ ∀ q, t.fifo q = []) ∧
    ((∀ pre s, pre <+: as → Exec.exec (SendState.step threadCoreC) SendState.start pre = some s → Forwards pre s) ↔
      ∀ pre a s, pre ++ [a] <+: as → Exec.exec (SendState.step threadCoreC) SendState.start pre = some s →
        CoreCSound s a) := by
  refine ⟨fun l hl s h => ?_, ?_⟩
  · have hreg : Regular l := by
      simp only [List.mem_cons, List.not_mem_nil, or_false] at hl
      rcases hl with rfl | rfl <;> exact ⟨rfl, rfl⟩
    have hf : Forwards as s := Forwards.exec hc (fun _ _ _ _ _ => hreg.sound) h
    exact ⟨hf, hreg.drains (SendState.Ready.start.exec hc h) hf.alive⟩
  · rw [forwards_iff threadCoreC hc]
    refine forall_congr' fun pre => forall_congr' fun a => forall_congr' fun s => forall_congr' fun hpre =>
      forall_congr' fun hs => coreCSound_iff (SendState.Ready.start.exec (fun b hb => ?_) hs)
    exact hc b (hpre.subset (List.mem_append_left _ hb))

/-- An internal control message and a message for the UART, and two turns of the loop. -/
def mixedArrivals : List SendAction :=
  [.arrive .ctrl ⟨[0x30, 0x31, 0x30, 0x30, 0x30, 0x30], 6⟩, .arrive .uartTx ⟨[0x30, 0x31, 0x30, 0x30, 0x32, 0x37], 6⟩,
    .run true, .run true, .run true, .run true, .run true, .run true]

theorem sendLoops_forward_iff_mixedArrivals :
    ∃ s, Exec.exec (SendState.step threadCoreB) SendState.start mixedArrivals = some s ∧ Forwards mixedArrivals s := by
  have h : (Exec.exec (SendState.step threadCoreB) SendState.start mixedArrivals).isSome = true := by decide +kernel
  obtain ⟨s, hs⟩ := Option.isSome_iff_exists.mp h
  refine ⟨s, hs, ((sendLoops_forward_iff mixedArrivals fun a ha => ?_).1 threadCoreB (by simp) s hs).1⟩
  simp only [mixedArrivals, List.mem_cons, List.not_mem_nil, or_false] at ha
  rcases ha with rfl | rfl | rfl | rfl | rfl | rfl | rfl | rfl <;> exact ⟨by simp, by simp⟩

/-- A message for the UART while the control FIFO is empty. -/
def uartAlone : List SendAction := [.arrive .uartTx ⟨[0x30, 0x31, 0x30, 0x30, 0x32, 0x37], 6⟩, .run true, .run true, .run true]

theorem threadCoreC_nullRead : (∀ a ∈ uartAlone, a.Connected) ∧
    ∃ s, Exec.exec (SendState.step threadCoreC) SendState.start uartAlone = some s ∧ s.pc = .nullRead ∧
      ¬Forwards uartAlone s := by
  have h : (Exec.exec (SendState.step threadCoreC) SendState.start uartAlone).any (fun s => s.pc = .nullRead) = true := by
    decide +kernel
  obtain ⟨s, hs, hpc⟩ := (Option.any_eq_true ..).mp h
  have hpc : s.pc = .nullRead := of_decide_eq_true hpc
  refine ⟨fun a ha => ?_, s, hs, hpc, fun hf => hf.alive hpc⟩
  simp only [uartAlone, List.mem_cons, List.not_mem_nil, or_false] at ha
  rcases ha with rfl | rfl | rfl | rfl <;> exact ⟨by simp, by simp⟩

end Recbcsrv
