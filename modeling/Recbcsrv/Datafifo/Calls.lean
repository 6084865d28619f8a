import Recbcsrv.Datafifo.Refine

/-! The calls of `datafifo.c` as wholes, run one after another. Each call is a run of its thread in
    `Thread.lean` while the other threads are idle, so that the FIFOs satisfy the invariant of the threads
    after every sequence of calls, which is the representation invariant of the FIFOs. -/

set_option linter.unusedSectionVars false

namespace Recbcsrv
open Datafifo

variable {P C : Type} [DecidableEq P] [DecidableEq C]

/-- All FIFOs. -/
structure Fifos (P C : Type) where
  producer : P → Datafifo P C
  consumer : C → Datafifo P C

namespace Fifos

def setProducer (f : Fifos P C) (p : P) (df : Datafifo P C) : Fifos P C :=
  { f with producer := Function.update f.producer p df }

def setConsumer (f : Fifos P C) (c : C) (df : Datafifo P C) : Fifos P C :=
  { f with consumer := Function.update f.consumer c df }

/-! ### The calls -/

/-- `datafifo_addto_consumers` from the consumers `rest` on. -/
def datafifoAddtoConsumers (f : Fifos P C) (p : P) (item : Nat) : List C → Option (Fifos P C)
  | [] => do
    let df ← datafifoProducerRemoveCheck ((f.producer p).setItem item doingItem)
    some (f.setProducer p df)
  | con :: rest => do
    let (df, cur) ← datafifoAlloc (f.consumer con)
    let src := (f.producer p).items item
    let df := df.setItem cur fun it => Asg.all.foldl (Asg.run p item src) it
    let f := f.setProducer p ((f.producer p).setItem item increfItem)
    let df ← datafifoListAddtail df cur
    datafifoAddtoConsumers (f.setConsumer con df) p item rest

/-- The old frame is completed and handed out when a new one begins before its end. -/
def flushOld (f : Fifos P C) (p : P) (flags : Nat) : Option (Fifos P C) :=
  let df := f.producer p
  match df.listtail with
  | none => some f
  | some t =>
    if (df.items t).status = .filling then
      (f.setProducer p (df.setItem t (flushItem flags))).datafifoAddtoConsumers p t df.consumers
    else some f

/-- The end of `datafifo_producer_data_add`: the bytes go behind those of the tail. -/
def fillTail (f : Fifos P C) (p : P) (call : Call) : Option (Fifos P C × Int) :=
  let df := f.producer p
  match df.listtail with
  | none => none
  | some t =>
    if (df.items t).len + call.data.length > df.dataMaxlen then some (f, -5)
    else
      let df := (df.setItem t (copyItem call.data)).setItem t (growItem call.data)
      if hasFlag call.flags frameFlagFrameend then do
        let f ← (f.setProducer p (df.setItem t readyItem)).datafifoAddtoConsumers p t df.consumers
        some (f, 0)
      else some (f.setProducer p df, 0)

/-- `datafifo_producer_data_add`. A call that would wait, or that follows a null tail, has no result. -/
def datafifoProducerDataAdd (f : Fifos P C) (p : P) (call : Call) : Option (Fifos P C × Int) :=
  if hasFlag call.flags frameFlagNewframe then do
    let (df, cur) ← datafifoAlloc (f.producer p)
    let f ← (f.setProducer p df).flushOld p call.flags
    let df := (f.producer p).setItem cur fun it => Mark.all.foldl (Mark.run call) it
    let df ← datafifoListAddtail df cur
    (f.setProducer p df).fillTail p call
  else
    match (f.producer p).listtail with
    | none => none
    | some t => if ((f.producer p).items t).status ≠ .filling then some (f, -4) else f.fillTail p call

/-- The reference of item `h` is given back, and its producer frees what it can. -/
def dropRef (f : Fifos P C) (c : C) (h : Nat) : Option (Fifos P C) :=
  match ((f.consumer c).items h).ref with
  | none => some f
  | some (p, i) => do
    let df ← datafifoProducerRemoveCheck ((f.producer p).setItem i decrefItem)
    some (f.setProducer p df)

def datafifoConsumerRemoveHead (f : Fifos P C) (c : C) : Option (Fifos P C × Int) :=
  match (f.consumer c).listhead with
  | none => some (f, -1)
  | some h => do
    let f ← f.dropRef c h
    let df ← datafifoRemoveHeadInternalReqlock (f.consumer c)
    some (f.setConsumer c df, 0)

/-- The loop of `datafifo_consumer_clear`, run at most `n` times. -/
def clearLoop : Nat → Fifos P C → C → Option (Fifos P C)
  | 0, _, _ => none
  | n + 1, f, c => do
    let (f, r) ← f.datafifoConsumerRemoveHead c
    if r = 0 then clearLoop n f c else some f

/-- `datafifo_consumer_clear`; no list is longer than its pool. -/
def datafifoConsumerClear (f : Fifos P C) (c : C) : Option (Fifos P C) := clearLoop ((f.consumer c).itemCnt + 1) f c

/-- `datafifo_connect`. The allocation succeeds. -/
def datafifoConnect (f : Fifos P C) (p : P) (c : C) : Fifos P C :=
  f.setProducer p { f.producer p with consumers := c :: (f.producer p).consumers }

/-- `datafifo_disconnect`. With a consumer that is not connected it returns with the mutex locked. -/
def datafifoDisconnect (f : Fifos P C) (p : P) (c : C) : Option (Fifos P C) :=
  if c ∈ (f.producer p).consumers then
    some (f.setProducer p { f.producer p with consumers := (f.producer p).consumers.erase c })
  else none

/-- A completed call of one of the functions. -/
inductive Op (P C : Type) where
  | dataAdd (p : P) (call : Call)
  | connect (p : P) (c : C)
  | disconnect (p : P) (c : C)
  | removeHead (c : C)
  | clear (c : C)

/-- The FIFOs after a call, or nothing when it does not return. -/
def apply (f : Fifos P C) : Op P C → Option (Fifos P C)
  | .dataAdd p call => (f.datafifoProducerDataAdd p call).map Prod.fst
  | .connect p c => some (f.datafifoConnect p c)
  | .disconnect p c => f.datafifoDisconnect p c
  | .removeHead c => (f.datafifoConsumerRemoveHead c).map Prod.fst
  | .clear c => f.datafifoConsumerClear c

/-- All FIFOs after `datafifo_init`. -/
def init (psize pcnt : P → Nat) (csize ccnt : C → Nat) : Fifos P C where
  producer := fun p => datafifoInit (psize p) (pcnt p)
  consumer := fun c => datafifoInit (csize c) (ccnt c)

/-! ### Calls as runs of the threads -/

/-- The FIFOs with the thread of `p` at `pc` and all other threads idle. -/
def atPc (f : Fifos P C) (p : P) (pc : ProducerPc C) : Sys P C where
  producer := f.producer
  consumer := f.consumer
  ppc := Function.update (fun _ => .idle) p pc
  cpc := fun _ => .idle

/-- The FIFOs with the thread of `c` at `pc` and all other threads idle. -/
def atCpc (f : Fifos P C) (c : C) (pc : ConsumerPc P) : Sys P C where
  producer := f.producer
  consumer := f.consumer
  ppc := fun _ => .idle
  cpc := Function.update (fun _ => .idle) c pc

/-- The FIFOs with all threads idle. -/
def sys (f : Fifos P C) : Sys P C where
  producer := f.producer
  consumer := f.consumer
  ppc := fun _ => .idle
  cpc := fun _ => .idle

section
variable {f f' : Fifos P C} {p : P} {c : C} {pc pc' : ProducerPc C} {df : Datafifo P C} {s t : Sys P C}

theorem atPc_idle : f.atPc p .idle = f.sys := by
  simp [atPc, sys]

theorem atCpc_idle : f.atCpc c .idle = f.sys := by
  simp [atCpc, sys]

theorem atPc_ppc : (f.atPc p pc).ppc p = pc := by
  simp [atPc]

theorem atCpc_cpc {pc : ConsumerPc P} : (f.atCpc c pc).cpc c = pc := by
  simp [atCpc]

theorem atPc_setPpc : (f.atPc p pc).setPpc p pc' = f.atPc p pc' := by
  simp [atPc, Sys.setPpc]

theorem atPc_setProducer : (f.atPc p pc).setProducer p df = (f.setProducer p df).atPc p pc := rfl

theorem atPc_setConsumer : (f.atPc p pc).setConsumer c df = (f.setConsumer c df).atPc p pc := rfl

theorem atCpc_setCpc {pc pc' : ConsumerPc P} : (f.atCpc c pc).setCpc c pc' = f.atCpc c pc' := by
  simp [atCpc, Sys.setCpc]

theorem atCpc_setProducer {pc : ConsumerPc P} : (f.atCpc c pc).setProducer p df = (f.setProducer p df).atCpc c pc := rfl

theorem atCpc_setConsumer {d : C} {pc : ConsumerPc P} :
    (f.atCpc c pc).setConsumer d df = (f.setConsumer d df).atCpc c pc := rfl

theorem setConsumer_setConsumer {df df' : Datafifo P C} : (f.setConsumer c df).setConsumer c df' = f.setConsumer c df' := by
  simp [setConsumer]

theorem setProducer_setProducer {df df' : Datafifo P C} : (f.setProducer p df).setProducer p df' = f.setProducer p df' := by
  simp [setProducer]

/-- One step of the thread of `p`, then the rest of the call. -/
theorem reach_producer (h : (f.atPc p pc).producerStep p = some s) (hr : Exec.Reach Sys.step s t) :
    Exec.Reach Sys.step (f.atPc p pc) t := Exec.Reach.head (a := .producer p) h hr

theorem setItem_setItem {i : Nat} {g g' : DatafifoItem P → DatafifoItem P} :
    (df.setItem i g).setItem i g' = df.setItem i fun it => g' (g it) := by
  simp [setItem]

theorem setItem_id {i : Nat} : df.setItem i (fun it => it) = df := by
  simp [setItem]

theorem setConsumer_self : f.setConsumer c (f.consumer c) = f := by
  simp [setConsumer]

theorem setProducer_self : f.setProducer p (f.producer p) = f := by
  simp [setProducer]

theorem reach_fill (k : Cont) (item cur : Nat) (con : C) (rest : List C) (todo : List Asg) :
    Exec.Reach Sys.step (f.atPc p (.fill k item con cur todo rest))
      ((f.setConsumer con ((f.consumer con).setItem cur fun it =>
        todo.foldl (Asg.run p item ((f.producer p).items item)) it)).atPc p (.fill k item con cur [] rest)) := by
  induction todo generalizing f with
  | nil =>
    rw [show (fun it : DatafifoItem P => List.foldl (Asg.run p item ((f.producer p).items item)) it []) = fun it => it from rfl,
      setItem_id, setConsumer_self]
    exact Exec.Reach.refl
  | cons a todo ih =>
    refine reach_producer (s := (f.setConsumer con ((f.consumer con).setItem cur fun it =>
      a.run p item ((f.producer p).items item) it)).atPc p (.fill k item con cur todo rest)) ?_ ?_
    · simp only [Sys.producerStep, atPc_ppc, atPc_setPpc, atPc_setConsumer]
      rfl
    · have hr := ih (f := f.setConsumer con ((f.consumer con).setItem cur fun it =>
        a.run p item ((f.producer p).items item) it))
      simp only [setConsumer, Function.update_self, Function.update_idem, setItem_setItem] at hr ⊢
      exact hr

theorem reach_mark {call : Call} {cur : Nat} (todo : List Mark) :
    Exec.Reach Sys.step (f.atPc p (.mark call cur todo))
      ((f.setProducer p ((f.producer p).setItem cur fun it => todo.foldl (Mark.run call) it)).atPc p (.mark call cur [])) := by
  induction todo generalizing f with
  | nil =>
    rw [show (fun it : DatafifoItem P => List.foldl (Mark.run call) it []) = fun it => it from rfl, setItem_id,
      setProducer_self]
    exact Exec.Reach.refl
  | cons m todo ih =>
    refine reach_producer (s := (f.setProducer p ((f.producer p).setItem cur fun it => m.run call it)).atPc p
      (.mark call cur todo)) ?_ ?_
    · simp only [Sys.producerStep, atPc_ppc, atPc_setPpc, atPc_setProducer]
      rfl
    · have hr := ih (f := f.setProducer p ((f.producer p).setItem cur fun it => m.run call it))
      simp only [setProducer, Function.update_self, Function.update_idem, setItem_setItem] at hr ⊢
      exact hr

theorem reach_addto {k : Cont} {item : Nat} {rest : List C} (h : f.datafifoAddtoConsumers p item rest = some f') :
    Exec.Reach Sys.step (f.atPc p (.addto k item rest)) (f'.atPc p k.pc) := by
  induction rest generalizing f with
  | nil =>
    simp only [datafifoAddtoConsumers, Option.bind_eq_bind, Option.bind_eq_some_iff, Option.some.injEq] at h
    obtain ⟨df, hrm, rfl⟩ := h
    refine reach_producer (s := (f.setProducer p ((f.producer p).setItem item doingItem)).atPc p (.check k)) ?_
      (reach_producer (s := (f.setProducer p df).atPc p k.pc) ?_ Exec.Reach.refl)
    · simp only [Sys.producerStep, atPc_ppc, atPc_setPpc, atPc_setProducer]
      rfl
    · have hp : ((f.setProducer p ((f.producer p).setItem item doingItem)).atPc p (.check k)).producer p =
          (f.producer p).setItem item doingItem := by
        simp [atPc, setProducer]
      simp only [Sys.producerStep, atPc_ppc, hp, hrm, Option.map_some, atPc_setPpc, atPc_setProducer,
        setProducer_setProducer]
  | cons con rest ih =>
    simp only [datafifoAddtoConsumers, Option.bind_eq_bind, Option.bind_eq_some_iff] at h
    obtain ⟨⟨df, cur⟩, hal, df', hadd, h⟩ := h
    set g := f.setConsumer con (df.setItem cur fun it =>
      Asg.all.foldl (Asg.run p item ((f.producer p).items item)) it) with hg
    have hgc : g.consumer con = df.setItem cur fun it =>
        Asg.all.foldl (Asg.run p item ((f.producer p).items item)) it := by
      simp [hg, setConsumer]
    have hgp : g.producer = f.producer := rfl
    refine reach_producer (s := (f.setConsumer con df).atPc p (.fill k item con cur Asg.all rest)) ?_ ?_
    · have hc : (f.atPc p (.addto k item (con :: rest))).consumer con = f.consumer con := rfl
      simp only [Sys.producerStep, atPc_ppc, hc, hal, Option.map_some, atPc_setPpc, atPc_setConsumer]
    · have hfill := reach_fill (f := f.setConsumer con df) (p := p) k item cur con rest Asg.all
      have hcon : (f.setConsumer con df).consumer con = df := by simp [setConsumer]
      rw [hcon, setConsumer_setConsumer] at hfill
      refine hfill.trans (reach_producer (s := (g.setProducer p ((g.producer p).setItem item increfItem)).atPc p
        (.link k item con cur rest)) ?_ (reach_producer ?_ (ih h)))
      · simp only [Sys.producerStep, atPc_ppc, atPc_setPpc, atPc_setProducer]
        rfl
      · have hc : ((g.setProducer p ((g.producer p).setItem item increfItem)).atPc p
            (.link k item con cur rest)).consumer con = g.consumer con := rfl
        simp only [Sys.producerStep, atPc_ppc, hc, hgc, hadd, Option.map_some, atPc_setPpc, atPc_setConsumer]
        rw [hg]
        simp only [setConsumer, setProducer, Function.update_idem]

theorem reach_fillTail {call : Call} {r : Int} (h : f.fillTail p call = some (f', r)) :
    Exec.Reach Sys.step (f.atPc p (.room call)) f'.sys := by
  unfold fillTail at h
  dsimp only at h
  split at h
  · cases h
  · next t ht =>
    have htail : (f.atPc p (.room call)).producer p = f.producer p := rfl
    split at h
    · next hfull =>
      cases h
      refine reach_producer (s := f.sys) ?_ Exec.Reach.refl
      simp only [Sys.producerStep, atPc_ppc, htail, ht, Option.map_some, atPc_setPpc, if_pos hfull, atPc_idle]
    · next hfit =>
      set g := f.setProducer p ((f.producer p).setItem t (copyItem call.data)) with hg
      set g' := f.setProducer p (((f.producer p).setItem t (copyItem call.data)).setItem t (growItem call.data)) with hg'
      have hgp : g.producer p = (f.producer p).setItem t (copyItem call.data) := by simp [hg, setProducer]
      have hgp' : g'.producer p = ((f.producer p).setItem t (copyItem call.data)).setItem t (growItem call.data) := by
        simp [hg', setProducer]
      have hgg : g.setProducer p ((g.producer p).setItem t (growItem call.data)) = g' := by
        rw [hgp, hg, setProducer_setProducer]
      refine reach_producer (s := f.atPc p (.copy call)) ?_ (reach_producer (s := g.atPc p (.grow call)) ?_
        (reach_producer (s := g'.atPc p (.close call)) ?_ ?_))
      · simp only [Sys.producerStep, atPc_ppc, htail, ht, Option.map_some, atPc_setPpc, if_neg hfit]
      · have hf : (f.atPc p (.copy call)).producer p = f.producer p := rfl
        simp only [Sys.producerStep, atPc_ppc, hf, ht, Option.map_some, atPc_setPpc, atPc_setProducer]
        rfl
      · have hf : (g.atPc p (.grow call)).producer p = g.producer p := rfl
        have ht' : (g.producer p).listtail = some t := by rw [hgp, setItem_listtail, ht]
        simp only [Sys.producerStep, atPc_ppc, hf, ht', Option.map_some, atPc_setPpc, atPc_setProducer, hgg]
      · have hf : (g'.atPc p (.close call)).producer p = g'.producer p := rfl
        have ht' : (g'.producer p).listtail = some t := by rw [hgp', setItem_listtail, setItem_listtail, ht]
        split at h
        · next hend =>
          simp only [Option.bind_eq_bind, Option.bind_eq_some_iff, Option.some.injEq, Prod.mk.injEq] at h
          obtain ⟨g₁, hadd, rfl, -⟩ := h
          have hset : g'.setProducer p ((g'.producer p).setItem t readyItem) = f.setProducer p
              ((((f.producer p).setItem t (copyItem call.data)).setItem t (growItem call.data)).setItem t readyItem) := by
            rw [hgp', hg', setProducer_setProducer]
          refine reach_producer (s := (g'.setProducer p ((g'.producer p).setItem t readyItem)).atPc p
            (.addto .finish t (g'.producer p).consumers)) ?_ ?_
          · simp only [Sys.producerStep, atPc_ppc, hf, ht', Option.map_some, atPc_setPpc, atPc_setProducer, if_pos hend]
          · rw [hset, ← atPc_idle (p := p), hgp']
            exact reach_addto hadd
        · next hmore =>
          simp only [Option.some.injEq, Prod.mk.injEq] at h
          rw [← h.1]
          refine reach_producer (s := g'.sys) ?_ Exec.Reach.refl
          simp only [Sys.producerStep, atPc_ppc, if_neg hmore, atPc_setPpc, atPc_idle]

theorem reach_flushOld {call : Call} {cur : Nat} (h : f.flushOld p call.flags = some f') :
    Exec.Reach Sys.step (f.atPc p (.flush call cur)) (f'.atPc p (.mark call cur Mark.all)) := by
  unfold flushOld at h
  dsimp only at h
  have hf : (f.atPc p (.flush call cur)).producer p = f.producer p := rfl
  split at h
  · next ht =>
    cases h
    refine reach_producer ?_ Exec.Reach.refl
    simp only [Sys.producerStep, atPc_ppc, hf, ht, atPc_setPpc]
  · next t ht =>
    split at h
    · next hfill =>
      refine reach_producer (s := (f.setProducer p ((f.producer p).setItem t (flushItem call.flags))).atPc p
        (.addto (.newframe call cur) t (f.producer p).consumers)) ?_ (reach_addto h)
      simp only [Sys.producerStep, atPc_ppc, hf, ht, if_pos hfill, atPc_setPpc, atPc_setProducer]
    · next hfill =>
      cases h
      refine reach_producer ?_ Exec.Reach.refl
      simp only [Sys.producerStep, atPc_ppc, hf, ht, if_neg hfill, atPc_setPpc]

/-- `datafifo_producer_data_add` is a run of the producer's thread. -/
theorem reach_dataAdd {call : Call} {r : Int} (h : f.datafifoProducerDataAdd p call = some (f', r)) :
    Exec.Reach Sys.step f.sys f'.sys := by
  have hstart : f.sys.step (.dataAdd p call) =
      some (f.atPc p (if hasFlag call.flags frameFlagNewframe then .alloc call else .tail call)) := by
    simp only [Sys.step, Sys.dataAdd, sys, atPc, Sys.setPpc]
  refine Exec.Reach.head hstart ?_
  unfold datafifoProducerDataAdd at h
  split at h
  · next hnew =>
    simp only [Option.bind_eq_bind, Option.bind_eq_some_iff] at h
    obtain ⟨⟨df, cur⟩, hal, g, hflush, df', hadd, h⟩ := h
    rw [if_pos hnew]
    refine reach_producer (s := (f.setProducer p df).atPc p (.flush call cur)) ?_ ((reach_flushOld hflush).trans
      ((reach_mark Mark.all).trans (reach_producer (s := (g.setProducer p df').atPc p (.room call)) ?_ (reach_fillTail h))))
    · have hf : (f.atPc p (.alloc call)).producer p = f.producer p := rfl
      simp only [Sys.producerStep, atPc_ppc, hf, hal, Option.map_some, atPc_setPpc, atPc_setProducer]
    · have hg : ((g.setProducer p ((g.producer p).setItem cur fun it => Mark.all.foldl (Mark.run call) it)).atPc p
          (.mark call cur [])).producer p = (g.producer p).setItem cur fun it => Mark.all.foldl (Mark.run call) it := by
        simp [atPc, setProducer]
      simp only [Sys.producerStep, atPc_ppc, hg, hadd, Option.map_some, atPc_setPpc, atPc_setProducer,
        setProducer_setProducer]
  · next hold =>
    rw [if_neg hold]
    have hf : (f.atPc p (.tail call)).producer p = f.producer p := rfl
    split at h
    · cases h
    · next t ht =>
      split at h
      · next hs =>
        cases h
        refine reach_producer ?_ Exec.Reach.refl
        simp only [Sys.producerStep, atPc_ppc, hf, ht, Option.map_some, atPc_setPpc, if_pos hs, atPc_idle]
      · next hs =>
        refine reach_producer (s := f.atPc p (.room call)) ?_ (reach_fillTail h)
        simp only [Sys.producerStep, atPc_ppc, hf, ht, Option.map_some, atPc_setPpc, if_neg hs]

theorem reach_removeHead {r : Int} (h : f.datafifoConsumerRemoveHead c = some (f', r)) :
    Exec.Reach Sys.step f.sys f'.sys := by
  have hstart : f.sys.step (.removeHead c) =
      some (if (f.consumer c).listhead = none then f.sys else f.atCpc c .decref) := by
    simp only [Sys.step, Sys.removeHead, sys, atCpc, Sys.setCpc]
    rfl
  refine Exec.Reach.head hstart ?_
  unfold datafifoConsumerRemoveHead at h
  split at h
  · next hh =>
    cases h
    rw [if_pos hh]
    exact Exec.Reach.refl
  · next j hh =>
    simp only [Option.bind_eq_bind, Option.bind_eq_some_iff, Option.some.injEq, Prod.mk.injEq] at h
    obtain ⟨g, hg, df, hrm, rfl, -⟩ := h
    rw [if_neg (by simp [hh])]
    have hf : (f.atCpc c .decref).consumer c = f.consumer c := rfl
    -- Unlinking the head ends the call, whichever way it was reached.
    have hend : Exec.Reach Sys.step (g.atCpc c .unlink) (g.setConsumer c df).sys := by
      refine Exec.Reach.one (a := .consumer c) ?_
      have hgc : (g.atCpc c .unlink).consumer c = g.consumer c := rfl
      simp only [Sys.step, Sys.consumerStep, atCpc_cpc, hgc, hrm, Option.map_some, atCpc_setConsumer, atCpc_setCpc, atCpc_idle]
    unfold dropRef at hg
    split at hg
    · next href =>
      cases hg
      refine Exec.Reach.head (a := .consumer c) (t := f.atCpc c .unlink) ?_ hend
      simp only [Sys.step, Sys.consumerStep, atCpc_cpc, hf, hh, Option.map_some, href, atCpc_setCpc]
    · next p i href =>
      simp only [Option.bind_eq_bind, Option.bind_eq_some_iff, Option.some.injEq] at hg
      obtain ⟨df', hchk, rfl⟩ := hg
      refine Exec.Reach.head (a := .consumer c)
        (t := (f.setProducer p ((f.producer p).setItem i decrefItem)).atCpc c (.check p)) ?_
        (Exec.Reach.head (a := .consumer c) (t := (f.setProducer p df').atCpc c .unlink) ?_ hend)
      · simp only [Sys.step, Sys.consumerStep, atCpc_cpc, hf, hh, Option.map_some, href, atCpc_setProducer, atCpc_setCpc]
        rfl
      · have hp : ((f.setProducer p ((f.producer p).setItem i decrefItem)).atCpc c (.check p)).producer p =
            (f.producer p).setItem i decrefItem := by
          simp [atCpc, setProducer]
        simp only [Sys.step, Sys.consumerStep, atCpc_cpc, hp, hchk, Option.map_some, atCpc_setProducer, atCpc_setCpc,
          setProducer_setProducer]

/-! ### The invariant of the calls -/

variable [Fintype C]

/-- No call is running, and the FIFOs satisfy the invariant of the threads. -/
def Ok (f : Fifos P C) : Prop := f.sys.Ok

theorem Ok.producerWf (h : f.Ok) (p : P) : (f.producer p).Wf := h.producer p

theorem Ok.consumerWf (h : f.Ok) (c : C) : (f.consumer c).Wf := h.consumer c

theorem Ok.reach (h : f.Ok) (hr : Exec.Reach Sys.step f.sys f'.sys) : f'.Ok :=
  hr.invariant (I := Sys.Ok) h fun _ _ _ hs ht => hs.step ht

/-- The connections take no part in the invariant. -/
theorem Ok.setConsumers (h : f.Ok) (l : List C) : (f.setProducer p { f.producer p with consumers := l }).Ok := by
  have hw : ({ f.producer p with consumers := l } : Datafifo P C).Wf :=
    ⟨⟨(h.producer p).rep.linked, (h.producer p).rep.pool⟩, (h.producer p).fresh⟩
  have hp : View.ProducerInv (abs { f.producer p with consumers := l }) (f.sys.view.ppc p) := by
    obtain ⟨h1, h2, h3, h4, h5, h6, h7, h8, h9⟩ := h.inv.prod p
    exact ⟨h1, h2, h3, h4, h5, h6, h7, h8, h9⟩
  refine ⟨fun q => ?_, h.consumer, ?_⟩
  · by_cases hq : q = p
    · subst hq
      simpa [sys, setProducer] using hw
    · simpa [sys, setProducer, hq] using h.producer q
  · have hv : (f.setProducer p { f.producer p with consumers := l }).sys.view =
        f.sys.view.setProducer p (abs { f.producer p with consumers := l }) := by
      rw [← Sys.view_setProducer]
      rfl
    rw [hv]
    exact h.inv.of_release hp (fun _ _ => .of_eq rfl) (fun i hk _ => ⟨⟨hk.mem, hk.status⟩, .of_eq rfl⟩) fun _ => rfl

theorem Ok.removeHead (h : f.Ok) {r : Int} (hs : f.datafifoConsumerRemoveHead c = some (f', r)) : f'.Ok :=
  h.reach (reach_removeHead hs)

theorem Ok.clearLoop {n : Nat} (h : f.Ok) (hs : clearLoop n f c = some f') : f'.Ok := by
  induction n generalizing f with
  | zero => cases hs
  | succ n ih =>
    simp only [Fifos.clearLoop, Option.bind_eq_bind, Option.bind_eq_some_iff] at hs
    obtain ⟨⟨g, r⟩, hg, hs⟩ := hs
    split at hs
    · exact ih (h.removeHead hg) hs
    · cases hs
      exact h.removeHead hg

theorem Ok.apply (h : f.Ok) {op : Op P C} (hs : f.apply op = some f') : f'.Ok := by
  cases op with
  | dataAdd p call =>
    obtain ⟨⟨g, r⟩, hg, rfl⟩ := Option.map_eq_some_iff.mp hs
    exact h.reach (reach_dataAdd hg)
  | connect p c =>
    cases hs
    exact h.setConsumers _
  | disconnect p c =>
    simp only [Fifos.apply, datafifoDisconnect] at hs
    split at hs
    · cases hs
      exact h.setConsumers _
    · cases hs
  | removeHead c =>
    obtain ⟨⟨g, r⟩, hg, rfl⟩ := Option.map_eq_some_iff.mp hs
    exact h.removeHead hg
  | clear c => exact h.clearLoop hs

theorem Ok.init (psize pcnt : P → Nat) (csize ccnt : C → Nat) : (init psize pcnt csize ccnt).Ok :=
  Sys.Ok.start psize pcnt csize ccnt fun _ => []

theorem Ok.exec {psize pcnt : P → Nat} {csize ccnt : C → Nat} {ops : List (Op P C)}
    (h : Exec.exec Fifos.apply (Fifos.init psize pcnt csize ccnt) ops = some f) : f.Ok :=
  Exec.exec_invariant (I := Ok) (fun _ _ _ hg hs => hg.apply hs) (Ok.init psize pcnt csize ccnt) h

/-- `datafifo_consumer_remove_head` always returns, and takes one item off the list. -/
theorem Ok.removeHead_returns (h : f.Ok) {a : Nat} {l : List Nat} (hl : (f.consumer c).list = a :: l) :
    ∃ f', f.datafifoConsumerRemoveHead c = some (f', 0) ∧ (f'.consumer c).list = l := by
  have hhead : (f.consumer c).listhead = some a := by rw [(h.consumerWf c).listhead, hl, List.head?_cons]
  have hlive : a ∈ f.sys.view.live c := by
    change a ∈ (f.consumer c).list
    rw [hl]
    exact List.mem_cons_self ..
  obtain ⟨p, i, hcp, hk⟩ := h.inv.live c a hlive
  have href : ((f.consumer c).items a).ref = some (p, i) := hcp.ref
  have hne : ((f.producer p).items i).status ≠ .init := (h.inv.prod p).status_ne_init hk.mem
  obtain ⟨df, hdf, -, -⟩ := ((h.producerWf p).setItem (f := decrefItem) hne rfl rfl fun _ => rfl).1.removeCheck
  obtain ⟨dc, hdc, -, habs⟩ := (h.consumerWf c).removeHead hl
  refine ⟨(f.setProducer p df).setConsumer c dc, ?_, ?_⟩
  · have hdrop : f.dropRef c a = some (f.setProducer p df) := by
      simp only [dropRef, href, Option.bind_eq_bind, hdf]
      rfl
    simp only [datafifoConsumerRemoveHead, hhead, hdrop, Option.bind_eq_bind, Option.bind_some]
    rw [show (f.setProducer p df).consumer c = f.consumer c from rfl, hdc]
    rfl
  · have := congrArg Fifo.list habs
    simp only [abs_list, Fifo.pop_list, hl, List.tail_cons] at this
    simpa [setConsumer] using this

theorem Ok.clear_returns (h : f.Ok) : ∃ f', f.datafifoConsumerClear c = some f' ∧ (f'.consumer c).list = [] := by
  suffices hloop : ∀ n, ∀ f : Fifos P C, f.Ok → (f.consumer c).list.length < n →
      ∃ f', Fifos.clearLoop n f c = some f' ∧ (f'.consumer c).list = [] from
    hloop _ f h (Nat.lt_succ_of_le (h.consumerWf c).rep.length_le)
  intro n
  induction n with
  | zero => exact fun f _ hn => absurd hn (Nat.not_lt_zero _)
  | succ n ih =>
    intro f h hn
    cases hl : (f.consumer c).list with
    | nil =>
      have hhead : (f.consumer c).listhead = none := by rw [(h.consumerWf c).listhead, hl, List.head?_nil]
      refine ⟨f, ?_, hl⟩
      simp [Fifos.clearLoop, datafifoConsumerRemoveHead, hhead]
    | cons a l =>
      obtain ⟨g, hg, hgl⟩ := h.removeHead_returns hl
      obtain ⟨f', hf', hfl⟩ := ih g (h.removeHead hg) (by rw [hl] at hn; rw [hgl]; simpa using hn)
      refine ⟨f', ?_, hfl⟩
      simp only [Fifos.clearLoop, hg, Option.bind_eq_bind, Option.bind_some, if_true]
      exact hf'

/-- How many items on the lists of all consumers refer to item `i` of producer `p`. -/
def refCount (f : Fifos P C) (p : P) (i : Nat) : Nat :=
  ∑ c, (f.consumer c).list.countP fun j => ((f.consumer c).items j).ref = some (p, i)

/-- The list of a FIFO is a well-formed doubly linked list of its pool items, and the items off it are the
    free ones. -/
structure ListInv (df : Datafifo P C) : Prop where
  linked : LinkedList.Linked (fun i => (df.items i).next) (fun i => (df.items i).prev) df.listhead df.listtail df.list
  pool : ∀ i ∈ df.list, i < df.itemCnt
  free : ∀ i < df.itemCnt, (df.items i).status = .init ↔ i ∉ df.list
  filling : ∀ i ∈ df.list, (df.items i).status = .filling → df.listtail = some i

/-- The representation invariant of the FIFOs between calls. -/
structure RepInv (f : Fifos P C) : Prop where
  producer : ∀ p, ListInv (f.producer p)
  consumer : ∀ c, ListInv (f.consumer c)
  len : ∀ p, ∀ i < (f.producer p).itemCnt, ((f.producer p).items i).len ≤ (f.producer p).dataMaxlen
  ref : ∀ c, ∀ j ∈ (f.consumer c).list, ∃ p i, ((f.consumer c).items j).ref = some (p, i) ∧ i ∈ (f.producer p).list
  refcnt : ∀ p, ∀ i < (f.producer p).itemCnt, ((f.producer p).items i).refcnt = f.refCount p i

theorem Ok.repInv (h : f.Ok) : f.RepInv where
  producer p := by
    have hp := h.inv.prod p
    refine ⟨(h.producerWf p).rep.linked, hp.pool, fun i hi => ?_, fun i hi hs => ?_⟩
    · have := hp.free i hi
      simpa [sys, ProducerPc.own?] using this
    · rw [(h.producerWf p).listtail]
      refine (hp.doing_or_tail hi).resolve_left fun hd => ?_
      have hd : ((f.producer p).items i).status = .doing := hd
      rw [hd] at hs
      cases hs
  consumer c := by
    refine ⟨(h.consumerWf c).rep.linked, (h.inv.cons c).pool, fun j hj => ?_, fun j hj hs => ?_⟩
    · have := h.inv.free c j hj
      simpa [sys, ProducerPc.copying] using this
    · have hr : ((f.consumer c).items j).status = .ready := (h.inv.cons c).ready j hj
      rw [hr] at hs
      cases hs
  len p i _ := (h.inv.prod p).len i
  ref c j hj := by
    obtain ⟨p, i, hcp, hk⟩ := h.inv.live c j hj
    exact ⟨p, i, hcp.ref, hk.mem⟩
  refcnt p i _ := by
    have hc := h.inv.count p i
    simp only [show f.sys.view.ppc p = .idle from rfl, ProducerPc.counted, Bool.false_eq_true, if_false, add_zero] at hc
    refine hc.trans (congrArg Nat.cast (Finset.sum_congr rfl fun c _ => ?_))
    rw [View.liveRefs, List.count_filterMap, show f.sys.view.live c = (f.consumer c).list from rfl]
    exact List.countP_congr fun j _ => by simp [sys]

/-- After every sequence of completed calls the FIFOs satisfy their representation invariant. -/
theorem calls_keep_repInv (psize pcnt : P → Nat) (csize ccnt : C → Nat) (ops : List (Op P C)) (f : Fifos P C)
    (h : Exec.exec apply (init psize pcnt csize ccnt) ops = some f) : f.RepInv :=
  (Ok.exec h).repInv

end

/-- Two frames, the second of which closes the first, a consumer that takes one of them and is cut off. -/
def shortHistory : List (Op Unit Unit) :=
  [.connect () (), .dataAdd () ⟨[1, 2], frameFlagNewframe, 0⟩, .dataAdd () ⟨[3], frameFlagNewframe ||| frameFlagFrameend, 1⟩,
    .removeHead (), .disconnect () (), .dataAdd () ⟨[4], frameFlagNewframe, 2⟩]

theorem calls_keep_repInv_shortHistory : ∃ f : Fifos Unit Unit,
    Exec.exec apply (init (fun _ => 4) (fun _ => 3) (fun _ => 0) fun _ => 2) shortHistory = some f ∧
      (f.producer ()).list = [1, 0] ∧ f.RepInv := by
  have hrun : (Exec.exec apply (init (fun _ => 4) (fun _ => 3) (fun _ => 0) fun _ => 2) shortHistory).any
      (fun f => (f.producer ()).list = [1, 0]) = true := by
    decide +kernel
  obtain ⟨f, hf, hl⟩ := (Option.any_eq_true ..).mp hrun
  exact ⟨f, hf, by simpa using hl, calls_keep_repInv _ _ _ _ _ f hf⟩

end Fifos
end Recbcsrv
