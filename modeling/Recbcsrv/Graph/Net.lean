import Recbcsrv.Datafifo.Calls
import Recbcsrv.Lib.WaitFor

/-! Threads that share FIFOs. A thread goes round a loop of sections: it looks at its socket or at the head of one of
    its consumer FIFOs, adds to producer FIFOs what it makes of it, and takes the head off. It makes its calls one
    after the other, and every call goes on step by step between the steps of the other threads. -/

set_option linter.unusedSectionVars false

namespace Recbcsrv
open Datafifo

/-- A call of `datafifo_producer_data_add` or of `datafifo_consumer_remove_head`. -/
inductive FifoCall (P C : Type) where
  | add (p : P) (call : Call)
  | remove (c : C)
  deriving DecidableEq

/-- How often a section handles a head: once (`if`), until there is none (`while`), or until then or a `break`. -/
inductive Rounds where
  | once
  | loop
  | breaks
  deriving DecidableEq

/-- A section of the loop of a thread: the FIFO whose head it handles, if any, and the FIFOs it may add to. -/
structure Section (P C : Type) where
  consumer : Option C
  producers : List P
  rounds : Rounds

/-- The FIFOs, how they are connected, and what the threads do with them. -/
structure Wiring (T P C : Type) where
  psize : P → Nat
  pcnt : P → Nat
  csize : C → Nat
  ccnt : C → Nat
  connections : List (P × C)
  program : T → List (Section P C)

/-- Where a thread stands: the section it comes to next, the calls it has still to make before, and the call it is in. -/
structure ThreadPc (P C : Type) where
  pos : Nat
  todo : List (FifoCall P C)
  busy : Option (FifoCall P C)

/-- The FIFOs with the calls on them, and where the threads stand. -/
structure Net (T P C : Type) where
  sys : Sys P C
  pc : T → ThreadPc P C

/-- A thread begins a section, in which it makes the calls `adds` and which it may leave by a `break`; or it goes on. -/
inductive NetAction (T P : Type) where
  | turn (t : T) (adds : List (P × Call)) (leave : Bool)
  | go (t : T)

variable {T P C : Type}

/-- The thread takes items from the consumer FIFO. -/
def Wiring.Reads (w : Wiring T P C) (t : T) (c : C) : Prop := ∃ sec ∈ w.program t, sec.consumer = some c

/-- The thread adds to the producer FIFO. -/
def Wiring.Writes (w : Wiring T P C) (t : T) (p : P) : Prop := ∃ sec ∈ w.program t, p ∈ sec.producers

instance [DecidableEq C] (w : Wiring T P C) (t : T) (c : C) : Decidable (w.Reads t c) :=
  inferInstanceAs (Decidable (∃ sec ∈ w.program t, sec.consumer = some c))

instance [DecidableEq P] (w : Wiring T P C) (t : T) (p : P) : Decidable (w.Writes t p) :=
  inferInstanceAs (Decidable (∃ sec ∈ w.program t, p ∈ sec.producers))

namespace Net
variable [DecidableEq T] [DecidableEq P] [DecidableEq C]

def setPc (s : Net T P C) (t : T) (pc : ThreadPc P C) : Net T P C := { s with pc := Function.update s.pc t pc }

/-- The next step of a thread in its call, the return from it, or the beginning of the next one. -/
def go (s : Net T P C) (t : T) : Option (Net T P C) :=
  let pc := s.pc t
  match pc.busy with
  | some (.add p _) =>
    if s.sys.ppc p = .idle then some (s.setPc t { pc with busy := none })
    else (s.sys.step (.producer p)).map fun sys => { s with sys }
  | some (.remove c) =>
    if s.sys.cpc c = .idle then some (s.setPc t { pc with busy := none })
    else (s.sys.step (.consumer c)).map fun sys => { s with sys }
  | none =>
    match pc.todo with
    | .add p call :: todo =>
      (s.sys.step (.dataAdd p call)).map fun sys => { s with sys }.setPc t { pc with todo, busy := some (.add p call) }
    | .remove c :: todo =>
      (s.sys.step (.removeHead c)).map fun sys => { s with sys }.setPc t { pc with todo, busy := some (.remove c) }
    | [] => none

/-- A thread whose calls are made begins its next section. Without a head it goes on to the one behind. -/
def turn (w : Wiring T P C) (s : Net T P C) (t : T) (adds : List (P × Call)) (leave : Bool) : Option (Net T P C) :=
  let pc := s.pc t
  if pc.busy = none ∧ pc.todo = [] then
    ((w.program t)[pc.pos]?).bind fun sec =>
      let next := if pc.pos + 1 < (w.program t).length then pc.pos + 1 else 0
      let calls := adds.map fun a => FifoCall.add a.1 a.2
      if ∀ a ∈ adds, a.1 ∈ sec.producers then
        match sec.consumer with
        | none => some (s.setPc t { pc with pos := next, todo := calls })
        | some c =>
          if (s.sys.consumer c).listhead = none then
            if adds = [] then some (s.setPc t { pc with pos := next }) else none
          else
            let stays := match sec.rounds with
              | .once => false
              | .loop => true
              | .breaks => !leave
            some (s.setPc t { pc with pos := if stays then pc.pos else next, todo := calls ++ [.remove c] })
      else none
  else none

/-- One step of the threads. -/
def step (w : Wiring T P C) (s : Net T P C) : NetAction T P → Option (Net T P C)
  | .turn t adds leave => s.turn w t adds leave
  | .go t => s.go t

end Net

/-- The FIFOs after the calls of `datafifo_init` and `datafifo_connect`. -/
def Wiring.fifos [DecidableEq P] (w : Wiring T P C) : Fifos P C :=
  w.connections.foldl (fun f e => f.datafifoConnect e.1 e.2) (Fifos.init w.psize w.pcnt w.csize w.ccnt)

/-- The threads are about to begin. -/
def Net.start [DecidableEq P] (w : Wiring T P C) : Net T P C where
  sys := w.fifos.sys
  pc := fun _ => ⟨0, [], none⟩

/-! ### Waiting -/

/-- Thread `t` waits in `datafifo_alloc`, in its call that adds to `p`, for an item that thread `u` takes off: the
    pool of `p` is full and `u` reads a FIFO connected to `p`, or the pool of the next consumer is, which `u` reads. -/
inductive Net.WaitsAt (w : Wiring T P C) (s : Net T P C) (t : T) (p : P) (u : T) : Prop
  | producer (call call' : Call) (c : C) (busy : (s.pc t).busy = some (.add p call)) (pc : s.sys.ppc p = .alloc call')
    (full : (s.sys.producer p).Full) (mem : c ∈ (s.sys.producer p).consumers) (reads : w.Reads u c)
  | consumer (call : Call) (k : Cont) (item : Nat) (c : C) (rest : List C) (busy : (s.pc t).busy = some (.add p call))
    (pc : s.sys.ppc p = .addto k item (c :: rest)) (full : (s.sys.consumer c).Full) (reads : w.Reads u c)

/-- A thread that waits is in a call that adds to the FIFO. -/
theorem Net.WaitsAt.busy {w : Wiring T P C} {s : Net T P C} {t u : T} {p : P} (h : s.WaitsAt w t p u) :
    ∃ call, (s.pc t).busy = some (.add p call) := by
  cases h with
  | producer call _ _ busy => exact ⟨call, busy⟩
  | consumer call _ _ _ _ busy => exact ⟨call, busy⟩

/-- Thread `t` waits for thread `u`. -/
def Net.Waits (w : Wiring T P C) (s : Net T P C) (t u : T) : Prop := ∃ p, s.WaitsAt w t p u

/-! ### Connections -/

/-- The consumers that a call has still to serve after the one it is at. -/
def ProducerPc.rest : ProducerPc C → List C
  | .addto _ _ rest | .fill _ _ _ _ _ rest | .link _ _ _ _ rest => rest
  | _ => []

/-- Producer `p` is connected to the consumers `chain p`, and its call serves only these. -/
structure View.Wired (chain : P → List C) (v : View P C) : Prop where
  consumers : ∀ p, (v.producer p).consumers = chain p
  rest : ∀ p, (v.ppc p).rest ⊆ chain p

section
variable [DecidableEq P] [DecidableEq C] {chain : P → List C} {v v' : View P C} {p : P}

theorem View.Wired.setConsumer (h : v.Wired chain) {c : C} {G : Fifo P C} : (v.setConsumer c G).Wired chain :=
  ⟨h.consumers, h.rest⟩

theorem View.Wired.setCpc (h : v.Wired chain) {c : C} {pc : ConsumerPc P} : (v.setCpc c pc).Wired chain :=
  ⟨h.consumers, h.rest⟩

theorem View.Wired.setProducer (h : v.Wired chain) {F : Fifo P C} (hF : F.consumers = (v.producer p).consumers) :
    (v.setProducer p F).Wired chain := by
  refine ⟨fun q => ?_, h.rest⟩
  change (Function.update v.producer p F q).consumers = chain q
  by_cases e : q = p
  · subst e
    rw [Function.update_self, hF, h.consumers]
  · rw [Function.update_of_ne e, h.consumers]

theorem View.Wired.setPpc (h : v.Wired chain) {pc : ProducerPc C} (hpc : pc.rest ⊆ chain p) : (v.setPpc p pc).Wired chain := by
  refine ⟨h.consumers, fun q => ?_⟩
  change (Function.update v.ppc p pc q).rest ⊆ chain q
  by_cases e : q = p
  · subst e
    rwa [Function.update_self]
  · rw [Function.update_of_ne e]
    exact h.rest q

/-- A step of the call that leaves no consumers to be served. -/
theorem View.Wired.setPpc_nil (h : v.Wired chain) {pc : ProducerPc C} (hpc : pc.rest = []) : (v.setPpc p pc).Wired chain :=
  h.setPpc (hpc ▸ List.nil_subset _)

/-- No step changes the connections. -/
theorem View.Wired.step (h : v.Wired chain) {a : Action P C} (hs : View.Step v a v') : v'.Wired chain := by
  have hrest : ∀ {p} {pc : ProducerPc C}, v.ppc p = pc → pc.rest ⊆ chain p := fun hpc => hpc ▸ h.rest _
  have hall : ∀ p, (v.producer p).consumers ⊆ chain p := fun p => h.consumers p ▸ List.Subset.refl _
  cases hs with
  | dataAdd pc =>
    refine .setPpc_nil h ?_
    split <;> rfl
  | alloc pc lt free => refine .setPpc_nil (.setProducer h ?_) ?_ <;> rfl
  | @flush p call cur t pc tail filling =>
    refine .setPpc (.setProducer h ?_) ?_
    · rfl
    · exact hall p
  | flushNone pc tail => exact .setPpc_nil h rfl
  | allocCon pc lt free => exact .setPpc h.setConsumer fun c hc => hrest pc (List.mem_cons_of_mem _ hc)
  | doing pc => refine .setPpc_nil (.setProducer h ?_) ?_ <;> rfl
  | assign pc => exact .setPpc h.setConsumer (hrest pc :)
  | incref pc =>
    refine .setPpc (.setProducer h ?_) ?_
    · rfl
    · exact (hrest pc :)
  | link pc => exact .setPpc h.setConsumer (hrest pc :)
  | @check p k pc =>
    refine .setPpc_nil (.setProducer h ?_) ?_
    · rfl
    · cases k <;> rfl
  | mark pc => refine .setPpc_nil (.setProducer h ?_) ?_ <;> rfl
  | linkOwn pc => refine .setPpc_nil (.setProducer h ?_) ?_ <;> rfl
  | tail pc tail =>
    refine .setPpc_nil h ?_
    split <;> rfl
  | room pc tail =>
    refine .setPpc_nil h ?_
    split <;> rfl
  | copy pc tail => refine .setPpc_nil (.setProducer h ?_) ?_ <;> rfl
  | grow pc tail => refine .setPpc_nil (.setProducer h ?_) ?_ <;> rfl
  | @close p call t pc frameend tail =>
    refine .setPpc (.setProducer h ?_) ?_
    · rfl
    · exact hall p
  | closeOpen pc more => exact .setPpc_nil h rfl
  | removeHead pc ne => exact h.setCpc
  | removeNone pc nil => exact h
  | decref pc head ref =>
    refine .setCpc (.setProducer h ?_)
    rfl
  | checkCon pc =>
    refine .setCpc (.setProducer h ?_)
    rfl
  | unlink pc => exact .setCpc h.setConsumer

end

/-! ### Runs -/

/-- The calls of a thread, from the one it is in. -/
def ThreadPc.calls (pc : ThreadPc P C) : List (FifoCall P C) := pc.busy.toList ++ pc.todo

/-- An add is to a FIFO of the thread. -/
def Wiring.Allows (w : Wiring T P C) (t : T) (k : FifoCall P C) : Prop := ∀ p call, k = .add p call → w.Writes t p

section
variable [DecidableEq T] [DecidableEq P] [DecidableEq C] {w : Wiring T P C} {s s' : Net T P C} {t u : T} {p : P}

/-- A thread comes to another place and keeps its calls, or has calls that it may make. -/
theorem Net.calls_setPc {pc : ThreadPc P C} (h : ∀ k ∈ pc.calls, k ∈ (s.pc t).calls ∨ w.Allows t k) :
    ∀ u, ∀ k ∈ ((s.setPc t pc).pc u).calls, k ∈ (s.pc u).calls ∨ w.Allows u k := fun u k hk => by
  change k ∈ (Function.update s.pc t pc u).calls at hk
  by_cases e : u = t
  · subst e
    rw [Function.update_self] at hk
    exact h k hk
  · rw [Function.update_of_ne e] at hk
    exact .inl hk

/-- What a step does: the FIFOs make a step or none, and the threads keep their calls or take up calls to FIFOs of
    theirs. -/
theorem Net.step_cases {a : NetAction T P} (h : s.step w a = some s') :
    (s'.sys = s.sys ∨ ∃ b, s.sys.step b = some s'.sys) ∧
      ∀ u, ∀ k ∈ (s'.pc u).calls, k ∈ (s.pc u).calls ∨ w.Allows u k := by
  cases a with
  | go t =>
    simp only [Net.step, Net.go] at h
    split at h
    · next p call hbusy =>
      split at h
      · cases h
        exact ⟨.inl rfl, calls_setPc fun k hk => .inl (List.mem_append_right _ hk)⟩
      · obtain ⟨sys, hsys, rfl⟩ := Option.map_eq_some_iff.mp h
        exact ⟨.inr ⟨_, hsys⟩, fun u k hk => .inl hk⟩
    · next c hbusy =>
      split at h
      · cases h
        exact ⟨.inl rfl, calls_setPc fun k hk => .inl (List.mem_append_right _ hk)⟩
      · obtain ⟨sys, hsys, rfl⟩ := Option.map_eq_some_iff.mp h
        exact ⟨.inr ⟨_, hsys⟩, fun u k hk => .inl hk⟩
    · next hbusy =>
      split at h
      · next p call todo htodo =>
        obtain ⟨sys, hsys, rfl⟩ := Option.map_eq_some_iff.mp h
        refine ⟨.inr ⟨_, hsys⟩, calls_setPc (s := { s with sys }) fun k hk => .inl ?_⟩
        simpa [ThreadPc.calls, hbusy, htodo] using hk
      · next c todo htodo =>
        obtain ⟨sys, hsys, rfl⟩ := Option.map_eq_some_iff.mp h
        refine ⟨.inr ⟨_, hsys⟩, calls_setPc (s := { s with sys }) fun k hk => .inl ?_⟩
        simpa [ThreadPc.calls, hbusy, htodo] using hk
      · cases h
  | turn t adds leave =>
    simp only [Net.step, Net.turn] at h
    split at h
    · next hfree =>
      obtain ⟨sec, hsec, h⟩ := Option.bind_eq_some_iff.mp h
      split at h
      · next hadds =>
        have hallow : ∀ k ∈ adds.map fun a => FifoCall.add (C := C) a.1 a.2, w.Allows t k := fun k hk p call he => by
          obtain ⟨a, ha, rfl⟩ := List.mem_map.mp hk
          cases he
          exact ⟨sec, List.mem_of_getElem? hsec, hadds a ha⟩
        split at h
        · cases h
          refine ⟨.inl rfl, calls_setPc fun k hk => .inr (hallow k ?_)⟩
          simpa [ThreadPc.calls, hfree.1] using hk
        · next c hc =>
          split at h
          · split at h
            · cases h
              exact ⟨.inl rfl, calls_setPc fun k hk => .inl hk⟩
            · cases h
          · cases h
            refine ⟨.inl rfl, calls_setPc fun k hk => .inr ?_⟩
            simp only [ThreadPc.calls, hfree.1, Option.toList_none, List.nil_append] at hk
            rcases List.mem_append.mp hk with hk | hk
            · exact hallow k hk
            · rw [List.mem_singleton.mp hk]
              exact fun p call he => by cases he
      · cases h
    · cases h

variable [Fintype C]

/-- What holds in every state of the threads. -/
structure Net.Good (w : Wiring T P C) (s : Net T P C) : Prop where
  sys : s.sys.Ok
  wired : s.sys.view.Wired fun p => (w.fifos.producer p).consumers
  calls : ∀ t, ∀ k ∈ (s.pc t).calls, w.Allows t k

theorem Net.Good.step {a : NetAction T P} (h : s.Good w) (hs : s.step w a = some s') : s'.Good w := by
  obtain ⟨hsys, hcalls⟩ := step_cases hs
  have hc : ∀ t, ∀ k ∈ (s'.pc t).calls, w.Allows t k := fun t k hk => (hcalls t k hk).elim (h.calls t k) id
  rcases hsys with hsys | ⟨b, hb⟩
  · exact ⟨hsys ▸ h.sys, hsys ▸ h.wired, hc⟩
  · obtain ⟨hview, hok⟩ := h.sys.refines hb
    exact ⟨hok, h.wired.step hview, hc⟩

theorem Wiring.fifos_ok (w : Wiring T P C) : w.fifos.Ok := by
  refine List.foldlRecOn (motive := Fifos.Ok) w.connections _ (Fifos.Ok.init w.psize w.pcnt w.csize w.ccnt) fun f hf e _ => ?_
  have hconnect : f.apply (.connect e.1 e.2) = some (f.datafifoConnect e.1 e.2) := rfl
  exact hf.apply hconnect

theorem Net.Good.start (w : Wiring T P C) : (Net.start w).Good w :=
  ⟨w.fifos_ok, ⟨fun _ => rfl, fun _ => List.nil_subset _⟩, fun _ k hk => by cases hk⟩

theorem Net.Good.exec {as : List (NetAction T P)} (h : Exec.exec (Net.step w) (Net.start w) as = some s) : s.Good w :=
  Exec.exec_invariant (I := Net.Good w) (fun _ _ _ h hs => h.step hs) (Net.Good.start w) h

/-- The consumers of a producer are those it was connected to. -/
theorem Wiring.mem_consumers {c : C} (w : Wiring T P C) (h : c ∈ (w.fifos.producer p).consumers) : (p, c) ∈ w.connections := by
  have hfold : ∀ (l : List (P × C)) (f : Fifos P C),
      c ∈ ((l.foldl (fun f e => f.datafifoConnect e.1 e.2) f).producer p).consumers →
      (p, c) ∈ l ∨ c ∈ (f.producer p).consumers := fun l => by
    induction l with
    | nil => exact fun f h => .inr h
    | cons e l ih =>
      intro f h
      rcases ih _ h with h | h
      · exact .inl (List.mem_cons_of_mem _ h)
      · by_cases he : p = e.1
        · subst he
          simp only [Fifos.datafifoConnect, Fifos.setProducer, Function.update_self, List.mem_cons] at h
          rcases h with rfl | h
          · exact .inl (List.mem_cons_self ..)
          · exact .inr h
        · simp only [Fifos.datafifoConnect, Fifos.setProducer, Function.update_of_ne he] at h
          exact .inr h
  refine (hfold _ _ h).resolve_right fun hnil => ?_
  cases hnil

/-- Waiting goes along the connections: from a thread that adds to a FIFO to one that reads a FIFO connected to it. -/
theorem Net.Good.waitsAt (h : s.Good w) (hw : s.WaitsAt w t p u) : w.Writes t p ∧ ∃ c, (p, c) ∈ w.connections ∧ w.Reads u c := by
  have hwrites : ∀ {call}, (s.pc t).busy = some (.add p call) → w.Writes t p := fun hbusy =>
    h.calls t _ (List.mem_append_left _ (by rw [hbusy]; exact List.mem_cons_self ..)) p _ rfl
  cases hw with
  | producer call call' c busy pc full mem reads =>
    have hc : (s.sys.producer p).consumers = (w.fifos.producer p).consumers := h.wired.consumers p
    exact ⟨hwrites busy, c, w.mem_consumers (hc ▸ mem), reads⟩
  | consumer call k item c rest busy pc full reads =>
    have hrest : (s.sys.ppc p).rest ⊆ (w.fifos.producer p).consumers := h.wired.rest p
    rw [pc] at hrest
    exact ⟨hwrites busy, c, w.mem_consumers (hrest (List.mem_cons_self ..)), reads⟩

end

end Recbcsrv
