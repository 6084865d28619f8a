import Recbcsrv.Datafifo.Calls

/-! The consumers of a producer FIFO as they are in memory: a doubly linked chain of `t_datafifo_con` nodes, which
    `datafifo_connect` extends at its head and `datafifo_disconnect` shortens anywhere. The chain behaves as the list of
    `Datafifo.consumers`, as long as no call disconnects a consumer that is not connected: such a call returns with the
    mutex locked. -/

set_option linter.unusedSectionVars false

namespace Recbcsrv
open LinkedList

/-- `t_datafifo_con`. -/
structure DatafifoCon (C : Type) where
  datafifo : C
  next : Option Nat
  prev : Option Nat

/-- The nodes in memory, those of them that are allocated, and the fields of the producer FIFO that the calls use. -/
structure ConChain (C : Type) where
  node : Nat → DatafifoCon C
  live : List Nat
  consumers : Option Nat
  locked : Bool

variable {P C : Type} [DecidableEq P] [DecidableEq C]

namespace ConChain

/-! ### The calls -/

/-- `pthread_mutex_lock`. A thread that finds the mutex locked waits. -/
def lock (s : ConChain C) : Option (ConChain C) := if s.locked then none else some { s with locked := true }

def unlock (s : ConChain C) : ConChain C := { s with locked := false }

/-- `malloc` hands out the node at `a`, which is not in use. -/
def malloc (s : ConChain C) (a : Nat) : Option (ConChain C) := if a ∈ s.live then none else some { s with live := a :: s.live }

def free (s : ConChain C) (a : Nat) : ConChain C := { s with live := s.live.erase a }

/-- An assignment to the node at `a`, which has to be allocated. -/
def modify (s : ConChain C) (a : Nat) (f : DatafifoCon C → DatafifoCon C) : Option (ConChain C) :=
  if a ∈ s.live then some { s with node := Function.update s.node a (f (s.node a)) } else none

/-- An assignment through a pointer, unless it is null. -/
def modifyIf (s : ConChain C) (p : Option Nat) (f : DatafifoCon C → DatafifoCon C) : Option (ConChain C) :=
  match p with
  | none => some s
  | some a => s.modify a f

/-- `datafifo_connect`, to which `malloc` gives the node `con` or nothing. -/
def datafifoConnect (s : ConChain C) (consumer : C) : Option Nat → Option (ConChain C × Int)
  | none => some (s, -1)
  | some con => do
    let s ← s.malloc con
    let s ← s.modify con fun x => { x with datafifo := consumer }
    let s ← s.lock
    let s ← s.modify con fun x => { x with next := s.consumers, prev := none }
    let s ← s.modifyIf s.consumers fun x => { x with prev := some con }
    some ({ s with consumers := some con }.unlock, 0)

/-- The loop of `datafifo_disconnect`, run at most `n` times: the first node from `tmp` on that names `consumer`. -/
def search (s : ConChain C) (consumer : C) : Nat → Option Nat → Option (Option Nat)
  | _, none => some none
  | 0, some _ => none
  | n + 1, some tmp =>
    if tmp ∉ s.live then none
    else if (s.node tmp).datafifo = consumer then some (some tmp)
    else search s consumer n (s.node tmp).next

/-- The node `tmp` is taken out of the chain. -/
def unlink (s : ConChain C) (tmp : Nat) : Option (ConChain C) := do
  let s ← match (s.node tmp).prev with
    | none => some { s with consumers := (s.node tmp).next }
    | some q => s.modify q fun x => { x with next := (s.node tmp).next }
  s.modifyIf (s.node tmp).next fun x => { x with prev := (s.node tmp).prev }

/-- `datafifo_disconnect`. The chain has no more nodes than are allocated. -/
def datafifoDisconnect (s : ConChain C) (consumer : C) : Option (ConChain C × Int) := do
  let s ← s.lock
  match ← s.search consumer s.live.length s.consumers with
  | none => some (s, -1)
  | some tmp => do
    let s ← s.unlink tmp
    some ((s.free tmp).unlock, 0)

/-! ### The chain as a list -/

/-- The nodes `as` are the chain. -/
structure On (s : ConChain C) (as : List Nat) : Prop where
  linked : Linked (fun a => (s.node a).next) (fun a => (s.node a).prev) s.consumers as.getLast? as
  live : ∀ a ∈ as, a ∈ s.live

/-- The chain is that of the consumers `l`. -/
def Lists (s : ConChain C) (l : List C) : Prop := ∃ as, s.On as ∧ as.map (fun a => (s.node a).datafifo) = l

section
variable {s s' : ConChain C} {l : List C} {as as' : List Nat} {a con : Nat} {c : C} {f : DatafifoCon C → DatafifoCon C}

/-- The nodes after an assignment through a pointer. -/
def assignAt (node : Nat → DatafifoCon C) (p : Option Nat) (f : DatafifoCon C → DatafifoCon C) : Nat → DatafifoCon C :=
  match p with
  | none => node
  | some a => Function.update node a (f (node a))

theorem modifyIf_mk {node : Nat → DatafifoCon C} {live : List Nat} {consumers p : Option Nat} {locked : Bool}
    (h : ∀ a ∈ p, a ∈ live) : (mk node live consumers locked).modifyIf p f =
      some (mk (assignAt node p f) live consumers locked) := by
  cases p with
  | none => rfl
  | some a => exact if_pos (h a rfl)

theorem modify_mk {node : Nat → DatafifoCon C} {live : List Nat} {consumers : Option Nat} {locked : Bool}
    (h : a ∈ live) : (mk node live consumers locked).modify a f =
      some (mk (assignAt node (some a) f) live consumers locked) :=
  if_pos h

theorem field_assignAt {β : Type} {v : β} (g : DatafifoCon C → β) (node : Nat → DatafifoCon C) (p : Option Nat)
    (h : ∀ x, g (f x) = v) : (fun b => g (assignAt node p f b)) = assign (fun b => g (node b)) p v := by
  cases p with
  | none => rfl
  | some a =>
    refine (Function.comp_update g node a _).trans ?_
    rw [h]
    rfl

theorem field_assignAt_of_eq {β : Type} (g : DatafifoCon C → β) (node : Nat → DatafifoCon C) (p : Option Nat)
    (h : ∀ x, g (f x) = g x) : (fun b => g (assignAt node p f b)) = fun b => g (node b) := by
  cases p with
  | none => rfl
  | some a =>
    refine (Function.comp_update g node a _).trans ?_
    rw [h]
    exact Function.update_eq_self ..

/-- The chain with a new node before the others. -/
def linkHead (s : ConChain C) (c : C) (con : Nat) : ConChain C where
  node := assignAt (assignAt (assignAt s.node (some con) fun x => { x with datafifo := c }) (some con) fun x =>
    { x with next := s.consumers, prev := none }) s.consumers fun x => { x with prev := some con }
  live := con :: s.live
  consumers := some con
  locked := false

theorem datafifoConnect_eq (hu : s.locked = false) (hcon : con ∉ s.live) (hhead : ∀ a ∈ s.consumers, a ∈ s.live) :
    s.datafifoConnect c (some con) = some (s.linkHead c con, 0) := by
  have hself : con ∈ con :: s.live := List.mem_cons_self ..
  have hhead' : ∀ a ∈ s.consumers, a ∈ con :: s.live := fun a ha => List.mem_cons_of_mem _ (hhead a ha)
  simp only [datafifoConnect, malloc, if_neg hcon, Option.bind_eq_bind, Option.bind_some, modify_mk hself, lock, hu,
    Bool.false_eq_true, if_false, modifyIf_mk hhead']
  rfl

theorem On.linkHead (h : s.On as) (hcon : con ∉ s.live) : (s.linkHead c con).On (con :: as) := by
  refine ⟨?_, List.forall_mem_cons.mpr ⟨List.mem_cons_self .., fun a ha => List.mem_cons_of_mem _ (h.live a ha)⟩⟩
  have hnext : (fun a => ((s.linkHead c con).node a).next) =
      Function.update (fun a => (s.node a).next) con s.consumers := by
    refine Eq.trans (field_assignAt_of_eq DatafifoCon.next _ _ fun _ => rfl) ?_
    refine Eq.trans (field_assignAt DatafifoCon.next _ (some con) fun _ => rfl) ?_
    exact congrArg (assign · _ _) (field_assignAt_of_eq DatafifoCon.next _ _ fun _ => rfl)
  have hprev : (fun a => ((s.linkHead c con).node a).prev) =
      assign (Function.update (fun a => (s.node a).prev) con none) s.consumers (some con) := by
    refine Eq.trans (field_assignAt DatafifoCon.prev _ _ fun _ => rfl) (congrArg (assign · _ _) ?_)
    refine Eq.trans (field_assignAt DatafifoCon.prev _ (some con) fun _ => rfl) ?_
    exact congrArg (assign · _ _) (field_assignAt_of_eq DatafifoCon.prev _ _ fun _ => rfl)
  rw [hnext, hprev]
  exact h.linked.cons fun hmem => hcon (h.live con hmem)

theorem Lists.connect (h : s.Lists l) (hu : s.locked = false) (hcon : con ∉ s.live) (c : C) :
    ∃ s', s.datafifoConnect c (some con) = some (s', 0) ∧ s'.Lists (c :: l) ∧ s'.locked = false := by
  obtain ⟨as, hon, rfl⟩ := h
  have hhead : ∀ a ∈ s.consumers, a ∈ s.live := fun a ha => hon.live a (List.mem_of_head? (hon.linked.head_eq ▸ ha))
  refine ⟨s.linkHead c con, datafifoConnect_eq hu hcon hhead, ⟨con :: as, hon.linkHead hcon, ?_⟩, rfl⟩
  have hcons : (fun a => ((s.linkHead c con).node a).datafifo) = Function.update (fun a => (s.node a).datafifo) con c := by
    refine Eq.trans (field_assignAt_of_eq DatafifoCon.datafifo _ _ fun _ => rfl) ?_
    refine Eq.trans (field_assignAt_of_eq DatafifoCon.datafifo _ (some con) fun _ => rfl) ?_
    exact field_assignAt DatafifoCon.datafifo _ (some con) fun _ => rfl
  rw [hcons, List.map_cons, Function.update_self]
  refine congrArg (c :: ·) (List.map_congr_left fun a ha => Function.update_of_ne ?_ ..)
  exact ne_of_mem_of_not_mem (hon.live a ha) hcon

theorem search_eq {h : Option Nat} {n : Nat} (hp : Path (fun a => (s.node a).next) h as) (hlive : ∀ a ∈ as, a ∈ s.live)
    (hn : as.length ≤ n) : s.search c n h = some (as.find? fun a => (s.node a).datafifo = c) := by
  induction as generalizing h n with
  | nil =>
    cases hp
    cases n <;> rfl
  | cons a as ih =>
    obtain ⟨rfl, hp⟩ := hp
    obtain ⟨ha, hlive⟩ := List.forall_mem_cons.mp hlive
    obtain ⟨m, rfl⟩ : ∃ m, n = m + 1 := ⟨n - 1, by simp only [List.length_cons] at hn; omega⟩
    rw [search, if_neg (not_not_intro ha), List.find?_cons]
    by_cases hc : (s.node a).datafifo = c
    · simp only [hc, if_true, decide_true]
    · simp only [hc, if_false, decide_false]
      exact ih hp hlive (by simpa using hn)

/-- The chain without the node `tmp`. -/
def without (s : ConChain C) (tmp : Nat) : ConChain C where
  node := assignAt (assignAt s.node (s.node tmp).prev fun x => { x with next := (s.node tmp).next }) (s.node tmp).next
    fun x => { x with prev := (s.node tmp).prev }
  live := s.live
  consumers := if (s.node tmp).prev = none then (s.node tmp).next else s.consumers
  locked := s.locked

theorem unlink_eq {tmp : Nat} (hprev : ∀ a ∈ (s.node tmp).prev, a ∈ s.live ∧ a ≠ tmp)
    (hnext : ∀ a ∈ (s.node tmp).next, a ∈ s.live) : s.unlink tmp = some (s.without tmp) := by
  rw [unlink, without]
  cases hp : (s.node tmp).prev with
  | none =>
    simp only [Option.bind_eq_bind, Option.bind_some, if_true, hp]
    exact modifyIf_mk hnext
  | some q =>
    obtain ⟨hq, hne⟩ := hprev q hp
    have hkeep : assignAt s.node (some q) (fun x => { x with next := (s.node tmp).next }) tmp = s.node tmp :=
      Function.update_of_ne hne.symm ..
    have hmod : s.modify q (fun x => { x with next := (s.node tmp).next }) =
        some (mk (assignAt s.node (some q) fun x => { x with next := (s.node tmp).next }) s.live s.consumers s.locked) :=
      modify_mk hq
    simp only [hmod, Option.bind_eq_bind, Option.bind_some, hkeep, if_neg (Option.some_ne_none q), hp]
    exact modifyIf_mk hnext

theorem On.without (h : s.On (as ++ a :: as')) : (s.without a).On (as ++ as') := by
  refine ⟨?_, fun b hb => h.live b ((List.Sublist.append_left (List.sublist_cons_self a as') as).subset hb)⟩
  have hnext : (fun b => ((s.without a).node b).next) = assign (fun b => (s.node b).next) (s.node a).prev (s.node a).next := by
    refine Eq.trans (field_assignAt_of_eq DatafifoCon.next _ _ fun _ => rfl) ?_
    exact field_assignAt DatafifoCon.next _ _ fun _ => rfl
  have hprev : (fun b => ((s.without a).node b).prev) = assign (fun b => (s.node b).prev) (s.node a).next (s.node a).prev := by
    refine Eq.trans (field_assignAt DatafifoCon.prev _ _ fun _ => rfl) ?_
    exact congrArg (assign · _ _) (field_assignAt_of_eq DatafifoCon.prev _ _ fun _ => rfl)
  rw [hnext, hprev]
  exact h.linked.unlink

theorem datafifo_without {tmp : Nat} :
    (fun b => ((s.without tmp).node b).datafifo) = fun b => (s.node b).datafifo := by
  refine Eq.trans (field_assignAt_of_eq DatafifoCon.datafifo _ _ fun _ => rfl) ?_
  exact field_assignAt_of_eq DatafifoCon.datafifo _ _ fun _ => rfl

theorem On.search (h : s.On as) : search { s with locked := true } c s.live.length s.consumers =
    some (as.find? fun a => (s.node a).datafifo = c) := by
  have hlen : as.length ≤ s.live.length := (List.subperm_of_subset h.linked.nodup h.live).length_le
  exact search_eq (s := { s with locked := true }) h.linked.path h.live hlen

theorem Lists.disconnect (h : s.Lists l) (hu : s.locked = false) (hc : c ∈ l) :
    ∃ s', s.datafifoDisconnect c = some (s', 0) ∧ s'.Lists (l.erase c) ∧ s'.locked = false := by
  obtain ⟨as, hon, rfl⟩ := h
  cases hfind : as.find? fun a => (s.node a).datafifo = c with
  | none =>
    obtain ⟨a, ha, hac⟩ := List.mem_map.mp hc
    have hnot := List.find?_eq_none.mp hfind a ha
    rw [decide_eq_true_eq] at hnot
    exact absurd hac hnot
  | some tmp =>
    obtain ⟨htmp, as₁, as₂, rfl, hbefore⟩ := List.find?_eq_some_iff_append.mp hfind
    rw [decide_eq_true_eq] at htmp
    obtain ⟨hprev, hnext⟩ := hon.linked.pointers
    obtain ⟨-, hnodup, hdisj⟩ := List.nodup_append.mp hon.linked.nodup
    have htmp₁ : tmp ∉ as₁ := fun h => hdisj tmp h tmp (List.mem_cons_self ..) rfl
    have htmp₂ : tmp ∉ as₂ := (List.nodup_cons.mp hnodup).1
    have hunlink : unlink { s with locked := true } tmp = some (without { s with locked := true } tmp) := by
      refine unlink_eq (fun a ha => ?_) fun a ha => ?_
      · have hmem : a ∈ as₁ := List.mem_of_getLast? (hprev.symm.trans ha)
        exact ⟨hon.live a (List.mem_append_left _ hmem), ne_of_mem_of_not_mem hmem htmp₁⟩
      · have hmem : a ∈ as₂ := List.mem_of_head? (hnext.symm.trans ha)
        exact hon.live a (List.mem_append_right _ (List.mem_cons_of_mem _ hmem))
    refine ⟨((without { s with locked := true } tmp).free tmp).unlock, ?_, ⟨as₁ ++ as₂, ⟨hon.without.linked, ?_⟩, ?_⟩, rfl⟩
    · simp only [datafifoDisconnect, lock, hu, Bool.false_eq_true, if_false, Option.bind_eq_bind, Option.bind_some,
        hon.search, hfind, hunlink]
    · intro a ha
      have hne : a ≠ tmp := ne_of_mem_of_not_mem ha fun h => (List.mem_append.mp h).elim htmp₁ htmp₂
      exact (List.mem_erase_of_ne hne).mpr (hon.without.live a ha)
    · -- The node is the first one of the consumer.
      have hfields : (fun b => (((without { s with locked := true } tmp).free tmp).unlock.node b).datafifo) =
        fun b => (s.node b).datafifo := datafifo_without (s := { s with locked := true })
      have hc₁ : c ∉ as₁.map fun b => (s.node b).datafifo := fun h => by
        obtain ⟨a, ha, hac⟩ := List.mem_map.mp h
        simpa [hac] using hbefore a ha
      rw [hfields, List.map_append, List.map_append, List.erase_append_right _ hc₁, List.map_cons, htmp,
        List.erase_cons_head]

/-- Disconnecting a consumer that is not connected changes nothing but the mutex. -/
theorem Lists.disconnect_of_notMem (h : s.Lists l) (hu : s.locked = false) (hc : c ∉ l) :
    s.datafifoDisconnect c = some ({ s with locked := true }, -1) := by
  obtain ⟨as, hon, rfl⟩ := h
  have hfind : (as.find? fun a => (s.node a).datafifo = c) = none := by
    refine List.find?_eq_none.mpr fun a ha => ?_
    rw [decide_eq_true_eq]
    exact fun e => hc (List.mem_map.mpr ⟨a, ha, e⟩)
  simp only [datafifoDisconnect, lock, hu, Bool.false_eq_true, if_false, Option.bind_eq_bind, Option.bind_some, hon.search,
    hfind]

/-- The chain stands for the consumers of the FIFO in `Calls.lean`, and the calls do to it what they do there. -/
theorem Lists.refines {f : Fifos P C} {p : P} (h : s.Lists (f.producer p).consumers) (hu : s.locked = false) (c : C) :
    (∀ con ∉ s.live, ∃ s', s.datafifoConnect c (some con) = some (s', 0) ∧
      s'.Lists ((f.datafifoConnect p c).producer p).consumers ∧ s'.locked = false) ∧
    match f.datafifoDisconnect p c with
    | some f' => ∃ s', s.datafifoDisconnect c = some (s', 0) ∧ s'.Lists (f'.producer p).consumers ∧ s'.locked = false
    | none => s.datafifoDisconnect c = some ({ s with locked := true }, -1) := by
  refine ⟨fun con hcon => ?_, ?_⟩
  · have hconnect : ((f.datafifoConnect p c).producer p).consumers = c :: (f.producer p).consumers := by
      simp [Fifos.datafifoConnect, Fifos.setProducer]
    rw [hconnect]
    exact h.connect hu hcon c
  · by_cases hc : c ∈ (f.producer p).consumers
    · rw [Fifos.datafifoDisconnect, if_pos hc]
      simp only [Fifos.setProducer, Function.update_self]
      exact h.disconnect hu hc
    · rw [Fifos.datafifoDisconnect, if_neg hc]
      exact h.disconnect_of_notMem hu hc

end

/-! ### Sequences of calls -/

/-- A call; `con` is what `malloc` gives to it. -/
inductive Op (C : Type) where
  | connect (c : C) (con : Option Nat)
  | disconnect (c : C)
  deriving DecidableEq, Repr

def apply (s : ConChain C) : Op C → Option (ConChain C × Int)
  | .connect c con => s.datafifoConnect c con
  | .disconnect c => s.datafifoDisconnect c

/-- A call with what the calls have returned. -/
def run (r : ConChain C × List Int) (op : Op C) : Option (ConChain C × List Int) :=
  (r.1.apply op).map fun t => (t.1, r.2 ++ [t.2])

/-- The FIFO after `datafifo_init`. -/
def init (node : Nat → DatafifoCon C) : ConChain C := ⟨node, [], none, false⟩

namespace Op

/-- What a call does to the list of the consumers. -/
def onList (l : List C) : Op C → List C
  | .connect _ none => l
  | .connect c (some _) => c :: l
  | .disconnect c => l.erase c

/-- What a call returns. -/
def result (l : List C) : Op C → Int
  | .connect _ con => if con.isSome then 0 else -1
  | .disconnect c => if c ∈ l then 0 else -1

def results (l : List C) : List (Op C) → List Int
  | [] => []
  | op :: ops => op.result l :: results (op.onList l) ops

/-- The call disconnects a connected consumer, or none at all. -/
def Connected (l : List C) : Op C → Prop
  | .connect _ _ => True
  | .disconnect c => c ∈ l

/-- Every call disconnects a connected consumer, or none at all. -/
def AllConnected (l : List C) : List (Op C) → Prop
  | [] => True
  | op :: ops => op.Connected l ∧ AllConnected (op.onList l) ops

/-- `malloc` gives the call a node that is not in use. -/
def Possible (s : ConChain C) : Op C → Prop
  | .connect _ con => ∀ a ∈ con, a ∉ s.live
  | .disconnect _ => True

end Op

/-- After the calls `ops`, which returned `rs`, the chain is the list that they lead to, they have returned what they should,
    the mutex is not locked, and whatever call comes next returns. -/
structure BehavesAsList (s : ConChain C) (rs : List Int) (ops : List (Op C)) : Prop where
  list : s.Lists (ops.foldl Op.onList [])
  results : rs = Op.results [] ops
  unlocked : s.locked = false
  proceeds : ∀ op : Op C, op.Possible s → (s.apply op).isSome

section
variable {s t : ConChain C} {l : List C} {op : Op C} {ops : List (Op C)} {rs rs' : List Int} {r : Int}

/-- A call of a FIFO whose mutex is not locked returns. -/
theorem Lists.apply (h : s.Lists l) (hu : s.locked = false) (hop : op.Possible s) :
    ∃ t, s.apply op = some (t, op.result l) ∧ t.Lists (op.onList l) ∧ (t.locked = false ↔ op.Connected l) := by
  cases op with
  | connect c con =>
    cases con with
    | none => exact ⟨s, rfl, h, iff_of_true hu trivial⟩
    | some con =>
      obtain ⟨t, ht, hl, hu⟩ := h.connect hu (hop con rfl) c
      exact ⟨t, ht, hl, iff_of_true hu trivial⟩
  | disconnect c =>
    by_cases hc : c ∈ l
    · obtain ⟨t, ht, hl, hu⟩ := h.disconnect hu hc
      refine ⟨t, ?_, hl, iff_of_true hu hc⟩
      rw [Op.result, if_pos hc]
      exact ht
    · refine ⟨{ s with locked := true }, ?_, ?_, iff_of_false (by simp) hc⟩
      · rw [Op.result, if_neg hc]
        exact h.disconnect_of_notMem hu hc
      · obtain ⟨as, hon, has⟩ := h
        exact ⟨as, ⟨hon.linked, hon.live⟩, has.trans (List.erase_of_not_mem hc).symm⟩

/-- A call that returns has got a node that is not in use. -/
theorem possible_of_apply (h : s.apply op = some (t, r)) : op.Possible s := by
  cases op with
  | disconnect c => trivial
  | connect c con =>
    rintro a rfl hmem
    rw [ConChain.apply, datafifoConnect, malloc, if_pos hmem] at h
    cases h

/-- No call unlocks a mutex that another one has left locked. -/
theorem locked_apply (h : s.apply op = some (t, r)) (hl : s.locked = true) : t.locked = true := by
  cases op with
  | disconnect c =>
    rw [ConChain.apply, datafifoDisconnect, lock, if_pos hl] at h
    cases h
  | connect c con =>
    cases con with
    | none =>
      cases h
      exact hl
    | some con =>
      have hlive := possible_of_apply h con rfl
      have hself : con ∈ con :: s.live := List.mem_cons_self ..
      simp only [ConChain.apply, datafifoConnect, malloc, if_neg hlive, Option.bind_eq_bind, Option.bind_some,
        modify_mk hself, lock, hl, if_true, Option.bind_none, reduceCtorEq] at h

theorem locked_exec (h : Exec.exec run (s, rs) ops = some (t, rs')) (hl : s.locked = true) : t.locked = true := by
  refine Exec.exec_invariant (I := fun r => r.1.locked = true) ?_ hl h
  rintro ⟨s, rs⟩ op ⟨t, rs'⟩ hl hr
  obtain ⟨⟨t', r⟩, ht, he⟩ := Option.map_eq_some_iff.mp hr
  cases he
  exact locked_apply ht hl

/-- The calls behave as on a list until one of them disconnects a consumer that is not connected, and from then on the mutex
    is locked. -/
theorem Lists.exec (h : s.Lists l) (hu : s.locked = false) (hr : Exec.exec run (s, rs) ops = some (t, rs')) :
    (Op.AllConnected l ops → t.Lists (ops.foldl Op.onList l) ∧ rs' = rs ++ Op.results l ops ∧ t.locked = false) ∧
      (t.locked = false → Op.AllConnected l ops) := by
  induction ops generalizing s l rs with
  | nil =>
    cases hr
    exact ⟨fun _ => ⟨h, (List.append_nil _).symm, hu⟩, fun _ => trivial⟩
  | cons op ops ih =>
    obtain ⟨⟨u, rs₁⟩, hone, hr⟩ := Exec.exec_cons.mp hr
    obtain ⟨⟨u', r⟩, happly, he⟩ := Option.map_eq_some_iff.mp hone
    cases he
    obtain ⟨v, hv, hl, hconn⟩ := h.apply hu (possible_of_apply happly)
    obtain ⟨rfl, rfl⟩ := Prod.mk.inj (Option.some.inj (hv.symm.trans happly))
    constructor
    · rintro ⟨hc, hall⟩
      obtain ⟨hl', hrs, hu'⟩ := (ih hl (hconn.mpr hc) hr).1 hall
      exact ⟨hl', by rw [hrs, List.append_assoc]; rfl, hu'⟩
    · intro ht
      cases hlock : v.locked with
      | false => exact ⟨hconn.mp hlock, (ih hl hlock hr).2 ht⟩
      | true =>
        rw [locked_exec hr hlock] at ht
        cases ht

theorem lists_init (node : Nat → DatafifoCon C) : (init node).Lists [] :=
  ⟨[], ⟨Linked.nil, fun _ h => absurd h List.not_mem_nil⟩, rfl⟩

/-- After every sequence of calls that have returned, the consumers behave as a list and the mutex is not locked exactly when
    no call was to disconnect a consumer that was not connected. -/
theorem behavesAsList_iff (node : Nat → DatafifoCon C) (ops : List (Op C)) (s : ConChain C) (rs : List Int)
    (h : Exec.exec run (init node, []) ops = some (s, rs)) : s.BehavesAsList rs ops ↔ Op.AllConnected [] ops := by
  obtain ⟨hall, hlocked⟩ := (lists_init node).exec rfl h
  constructor
  · exact fun hb => hlocked hb.unlocked
  · intro hc
    obtain ⟨hl, hrs, hu⟩ := hall hc
    refine ⟨hl, hrs, hu, fun op hop => ?_⟩
    obtain ⟨t, ht, -⟩ := hl.apply hu hop
    rw [ht]
    rfl

/-- Three consumers, of which the one in the middle goes. -/
theorem behavesAsList_iff_middle : ∃ (s : ConChain Nat) (rs : List Int),
    Exec.exec run (init fun _ => ⟨0, none, none⟩, []) [.connect 1 (some 0), .connect 2 (some 1), .connect 3 (some 2),
      .disconnect 2] = some (s, rs) ∧ s.BehavesAsList rs [.connect 1 (some 0), .connect 2 (some 1), .connect 3 (some 2),
      .disconnect 2] := by
  obtain ⟨⟨s, rs⟩, hs⟩ := Option.isSome_iff_exists.mp (show (Exec.exec run (init fun _ => ⟨0, none, none⟩, [])
    [.connect 1 (some 0), .connect 2 (some 1), .connect 3 (some 2), .disconnect 2]).isSome by decide +kernel)
  have hmem : 2 ∈ [3, 2, 1] := by decide
  exact ⟨s, rs, hs, (behavesAsList_iff _ _ s rs hs).mpr ⟨trivial, trivial, trivial, hmem, trivial⟩⟩

/-- A consumer that is not connected is disconnected: the call returns, but none after it. -/
theorem disconnect_keeps_lock : ∃ s : ConChain Nat,
    Exec.exec run (init fun _ => ⟨0, none, none⟩, []) [.disconnect 1] = some (s, [-1]) ∧ s.locked = true ∧
    s.apply (.connect 1 (some 0)) = none ∧ s.apply (.disconnect 1) = none ∧ ¬s.BehavesAsList [-1] [.disconnect 1] := by
  refine ⟨⟨fun _ => ⟨0, none, none⟩, [], none, true⟩, rfl, rfl, rfl, rfl, fun hb => ?_⟩
  cases hb.unlocked

end
end ConChain
end Recbcsrv
