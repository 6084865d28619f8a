import Mathlib.Algebra.BigOperators.Group.Finset.Basic
import Recbcsrv.Datafifo.Fifo
import Recbcsrv.Datafifo.Thread

/-! The thread machine over queues of cells: the steps of `Thread.lean` with the pointers gone and any free
    item for an allocation, and the invariant that ties the producers' reference counts to the consumers'
    queues. -/

namespace Recbcsrv
open Datafifo

variable {P C : Type}

/-! ### What a program counter says -/

/-- A copy in progress: `cur` of consumer `con` gets the contents of `item` by the assignments `todo`. -/
structure Copying (C : Type) where
  item : Nat
  con : C
  cur : Nat
  todo : List Asg

/-- The copy after the rest of its assignments. -/
def Copying.run (w : Copying C) (p : P) (src it : DatafifoItem P) : DatafifoItem P :=
  w.todo.foldl (Asg.run p w.item src) it

/-- The phases of a producer's thread, by what it promises about the tail of its list. -/
inductive Phase where
  | quiet
  | dispatch (item : Nat)
  | settled
  | filling

/-- The new item that waits for the old frame to be handed out. -/
def Cont.own? : Cont → Option Nat
  | .newframe _ cur => some cur
  | .finish => none

namespace ProducerPc

/-- The item of the producer's own pool that the thread holds off the list. -/
def own? : ProducerPc C → Option Nat
  | .flush _ cur | .mark _ cur _ => some cur
  | .addto k _ _ | .fill k _ _ _ _ _ | .link k _ _ _ _ | .check k => k.own?
  | _ => none

/-- The copy to a consumer that is not on the consumer's list yet. -/
def copying : ProducerPc C → Option (Copying C)
  | .fill _ item con cur todo _ => some ⟨item, con, cur, todo⟩
  | .link _ item con cur _ => some ⟨item, con, cur, []⟩
  | _ => none

/-- The reference to item `i` is counted but not on a list yet. -/
def counted (pc : ProducerPc C) (i : Nat) : Bool :=
  match pc with
  | .link _ item _ _ _ => item = i
  | _ => false

def phase : ProducerPc C → Phase
  | .idle | .alloc _ | .flush _ _ | .tail _ => .quiet
  | .addto _ item _ | .fill _ item _ _ _ _ | .link _ item _ _ _ => .dispatch item
  | .check _ | .mark _ _ _ => .settled
  | .room _ | .copy _ | .grow _ | .close _ => .filling

/-- The bytes that have been found to fit behind the tail. -/
def pending : ProducerPc C → Nat
  | .copy call | .grow call => call.data.length
  | _ => 0

theorem phase_of_copying {pc : ProducerPc C} {w : Copying C} (h : pc.copying = some w) :
    pc.phase = .dispatch w.item := by
  cases pc <;> simp only [copying, reduceCtorEq, Option.some.injEq] at h <;> subst h <;> rfl

theorem copying_of_counted {pc : ProducerPc C} {i : Nat} (h : pc.counted i) :
    ∃ w, pc.copying = some w ∧ w.item = i := by
  cases pc <;> simp only [counted, Bool.false_eq_true, decide_eq_true_eq] at h
  exact ⟨_, rfl, h⟩

end ProducerPc

/-- The head of the list has been given back to its producer and is about to be unlinked. -/
def ConsumerPc.dropped : ConsumerPc P → Bool
  | .idle | .decref => false
  | .check _ | .unlink => true

/-! ### The machine -/

/-- All FIFOs as queues of cells, and where their threads stand. -/
structure View (P C : Type) where
  producer : P → Fifo P C
  consumer : C → Fifo P C
  ppc : P → ProducerPc C
  cpc : C → ConsumerPc P

/-- The view of a system. -/
def Sys.view (s : Sys P C) : View P C where
  producer := fun p => (s.producer p).abs
  consumer := fun c => (s.consumer c).abs
  ppc := s.ppc
  cpc := s.cpc

namespace View

/-- The consumer's items whose reference counts: all on the list but a head that was given back. -/
def live (v : View P C) (c : C) : List Nat :=
  if (v.cpc c).dropped then (v.consumer c).list.tail else (v.consumer c).list

/-- What the live items of consumer `c` refer to. -/
def liveRefs (v : View P C) (c : C) : List (P × Nat) := (v.live c).filterMap fun j => ((v.consumer c).cells j).ref

section
variable [DecidableEq P] [DecidableEq C]

def setProducer (v : View P C) (p : P) (F : Fifo P C) : View P C :=
  { v with producer := Function.update v.producer p F }

def setConsumer (v : View P C) (c : C) (G : Fifo P C) : View P C :=
  { v with consumer := Function.update v.consumer c G }

def setPpc (v : View P C) (p : P) (pc : ProducerPc C) : View P C := { v with ppc := Function.update v.ppc p pc }

def setCpc (v : View P C) (c : C) (pc : ConsumerPc P) : View P C := { v with cpc := Function.update v.cpc c pc }

/-- How many live items of all consumers refer to item `i` of producer `p`. -/
def refs [Fintype C] (v : View P C) (p : P) (i : Nat) : Nat := ∑ c, (v.liveRefs c).count (p, i)

/-- The steps, one constructor for each branch of a step of a thread. -/
inductive Step (v : View P C) : Action P C → View P C → Prop
  | dataAdd {p : P} {call : Call} (pc : v.ppc p = .idle) :
    Step v (.dataAdd p call) (v.setPpc p (if hasFlag call.flags frameFlagNewframe then .alloc call else .tail call))
  | alloc {p : P} {call : Call} {i : Nat} (pc : v.ppc p = .alloc call) (lt : i < (v.producer p).itemCnt)
    (free : ((v.producer p).cells i).status = .init) :
    Step v (.producer p) ((v.setProducer p ((v.producer p).set i allocItem)).setPpc p (.flush call i))
  | flush {p : P} {call : Call} {cur t : Nat} (pc : v.ppc p = .flush call cur)
    (tail : (v.producer p).list.getLast? = some t) (filling : ((v.producer p).cells t).status = .filling) :
    Step v (.producer p) ((v.setProducer p ((v.producer p).set t (flushItem call.flags))).setPpc p
      (.addto (.newframe call cur) t (v.producer p).consumers))
  | flushNone {p : P} {call : Call} {cur : Nat} (pc : v.ppc p = .flush call cur)
    (tail : ∀ t ∈ (v.producer p).list.getLast?, ((v.producer p).cells t).status ≠ .filling) :
    Step v (.producer p) (v.setPpc p (.mark call cur Mark.all))
  | allocCon {p : P} {k : Cont} {item j : Nat} {con : C} {rest : List C} (pc : v.ppc p = .addto k item (con :: rest))
    (lt : j < (v.consumer con).itemCnt) (free : ((v.consumer con).cells j).status = .init) :
    Step v (.producer p) ((v.setConsumer con ((v.consumer con).set j allocItem)).setPpc p
      (.fill k item con j Asg.all rest))
  | doing {p : P} {k : Cont} {item : Nat} (pc : v.ppc p = .addto k item []) :
    Step v (.producer p) ((v.setProducer p ((v.producer p).set item doingItem)).setPpc p (.check k))
  | assign {p : P} {k : Cont} {item cur : Nat} {con : C} {a : Asg} {todo : List Asg} {rest : List C}
    (pc : v.ppc p = .fill k item con cur (a :: todo) rest) :
    Step v (.producer p) ((v.setConsumer con ((v.consumer con).set cur fun it =>
      a.run p item ((v.producer p).cells item) it)).setPpc p (.fill k item con cur todo rest))
  | incref {p : P} {k : Cont} {item cur : Nat} {con : C} {rest : List C} (pc : v.ppc p = .fill k item con cur [] rest) :
    Step v (.producer p) ((v.setProducer p ((v.producer p).set item increfItem)).setPpc p (.link k item con cur rest))
  | link {p : P} {k : Cont} {item cur : Nat} {con : C} {rest : List C} (pc : v.ppc p = .link k item con cur rest) :
    Step v (.producer p) ((v.setConsumer con ((v.consumer con).push cur)).setPpc p (.addto k item rest))
  | check {p : P} {k : Cont} (pc : v.ppc p = .check k) :
    Step v (.producer p) ((v.setProducer p (v.producer p).sweep).setPpc p k.pc)
  | mark {p : P} {call : Call} {cur : Nat} {m : Mark} {todo : List Mark} (pc : v.ppc p = .mark call cur (m :: todo)) :
    Step v (.producer p) ((v.setProducer p ((v.producer p).set cur fun it => m.run call it)).setPpc p
      (.mark call cur todo))
  | linkOwn {p : P} {call : Call} {cur : Nat} (pc : v.ppc p = .mark call cur []) :
    Step v (.producer p) ((v.setProducer p ((v.producer p).push cur)).setPpc p (.room call))
  | tail {p : P} {call : Call} {t : Nat} (pc : v.ppc p = .tail call) (tail : (v.producer p).list.getLast? = some t) :
    Step v (.producer p) (v.setPpc p (if ((v.producer p).cells t).status ≠ .filling then .idle else .room call))
  | room {p : P} {call : Call} {t : Nat} (pc : v.ppc p = .room call) (tail : (v.producer p).list.getLast? = some t) :
    Step v (.producer p) (v.setPpc p (if ((v.producer p).cells t).len + call.data.length > (v.producer p).dataMaxlen
      then .idle else .copy call))
  | copy {p : P} {call : Call} {t : Nat} (pc : v.ppc p = .copy call) (tail : (v.producer p).list.getLast? = some t) :
    Step v (.producer p) ((v.setProducer p ((v.producer p).set t (copyItem call.data))).setPpc p (.grow call))
  | grow {p : P} {call : Call} {t : Nat} (pc : v.ppc p = .grow call) (tail : (v.producer p).list.getLast? = some t) :
    Step v (.producer p) ((v.setProducer p ((v.producer p).set t (growItem call.data))).setPpc p (.close call))
  | close {p : P} {call : Call} {t : Nat} (pc : v.ppc p = .close call)
    (frameend : hasFlag call.flags frameFlagFrameend) (tail : (v.producer p).list.getLast? = some t) :
    Step v (.producer p) ((v.setProducer p ((v.producer p).set t readyItem)).setPpc p
      (.addto .finish t (v.producer p).consumers))
  | closeOpen {p : P} {call : Call} (pc : v.ppc p = .close call) (more : ¬hasFlag call.flags frameFlagFrameend) :
    Step v (.producer p) (v.setPpc p .idle)
  | removeHead {c : C} (pc : v.cpc c = .idle) (ne : (v.consumer c).list ≠ []) :
    Step v (.removeHead c) (v.setCpc c .decref)
  | removeNone {c : C} (pc : v.cpc c = .idle) (nil : (v.consumer c).list = []) : Step v (.removeHead c) v
  | decref {c : C} {j : Nat} {p : P} {i : Nat} (pc : v.cpc c = .decref) (head : (v.consumer c).list.head? = some j)
    (ref : ((v.consumer c).cells j).ref = some (p, i)) :
    Step v (.consumer c) ((v.setProducer p ((v.producer p).set i decrefItem)).setCpc c (.check p))
  | checkCon {c : C} {p : P} (pc : v.cpc c = .check p) :
    Step v (.consumer c) ((v.setProducer p (v.producer p).sweep).setCpc c .unlink)
  | unlink {c : C} (pc : v.cpc c = .unlink) :
    Step v (.consumer c) ((v.setConsumer c (v.consumer c).pop).setCpc c .idle)

end

/-! ### The invariant -/

/-- What a phase promises about the last item of the list. -/
def TailOk (F : Fifo P C) : Phase → Prop
  | .quiet => ∀ t ∈ F.list.getLast?, (F.cells t).status = .filling ∨ (F.cells t).status = .doing
  | .dispatch x => F.list.getLast? = some x ∧ (F.cells x).status = .ready
  | .settled => ∀ t ∈ F.list.getLast?, (F.cells t).status = .doing
  | .filling => ∃ t, F.list.getLast? = some t ∧ (F.cells t).status = .filling

/-- The FIFO of a producer whose thread stands at `pc`. -/
structure ProducerInv (F : Fifo P C) (pc : ProducerPc C) : Prop where
  nodup : F.list.Nodup
  pool : ∀ i ∈ F.list, i < F.itemCnt
  free : ∀ i < F.itemCnt, (F.cells i).status = .init ↔ i ∉ F.list ∧ pc.own? ≠ some i
  own : ∀ i, pc.own? = some i → i < F.itemCnt ∧ i ∉ F.list ∧ (F.cells i).status = .filling
  doing : ∀ i ∈ F.list.dropLast, (F.cells i).status = .doing
  tail : TailOk F pc.phase
  len : ∀ i, (F.cells i).len ≤ F.dataMaxlen
  room : ∀ t ∈ F.list.getLast?, (F.cells t).len + pc.pending ≤ F.dataMaxlen
  buf : ∀ i, ∃ b, (F.cells i).data = .own b ∧ b.length = F.dataMaxlen

/-- The FIFO of a consumer whose thread stands at `pc`. -/
structure ConsumerInv (G : Fifo P C) (pc : ConsumerPc P) : Prop where
  nodup : G.list.Nodup
  pool : ∀ j ∈ G.list, j < G.itemCnt
  ready : ∀ j ∈ G.list, (G.cells j).status = .ready
  busy : pc ≠ .idle → G.list ≠ []

/-- `it` is a consumer's copy of item `i` of producer `p`. -/
structure Copy (F : Fifo P C) (p : P) (i : Nat) (it : DatafifoItem P) : Prop where
  ref : it.ref = some (p, i)
  data : it.data = .item p i
  len : it.len = (F.cells i).len
  flags : it.flags = (F.cells i).flags
  timestamp : it.timestamp = (F.cells i).timestamp
  status : it.status = .ready

/-- A completed frame that its producer still keeps. -/
structure Kept (F : Fifo P C) (i : Nat) : Prop where
  mem : i ∈ F.list
  status : (F.cells i).status = .ready ∨ (F.cells i).status = .doing

/-- The invariant of the machine. -/
structure Inv [DecidableEq P] [Fintype C] (v : View P C) : Prop where
  prod : ∀ p, ProducerInv (v.producer p) (v.ppc p)
  cons : ∀ c, ConsumerInv (v.consumer c) (v.cpc c)
  free : ∀ c, ∀ j < (v.consumer c).itemCnt, ((v.consumer c).cells j).status = .init ↔
    j ∉ (v.consumer c).list ∧ ∀ p w, (v.ppc p).copying = some w → w.con = c → w.cur ≠ j
  held : ∀ p w, (v.ppc p).copying = some w → w.cur < (v.consumer w.con).itemCnt ∧ w.cur ∉ (v.consumer w.con).list ∧
    ((v.consumer w.con).cells w.cur).status ≠ .init
  inj : ∀ p q w w', (v.ppc p).copying = some w → (v.ppc q).copying = some w' → w.con = w'.con → w.cur = w'.cur →
    p = q
  copy : ∀ p w, (v.ppc p).copying = some w →
    Copy (v.producer p) p w.item (w.run p ((v.producer p).cells w.item) ((v.consumer w.con).cells w.cur))
  live : ∀ c, ∀ j ∈ v.live c, ∃ p i, Copy (v.producer p) p i ((v.consumer c).cells j) ∧ Kept (v.producer p) i
  count : ∀ p i, ((v.producer p).cells i).refcnt = (v.refs p i : Int) + if (v.ppc p).counted i then 1 else 0

end View
end Recbcsrv
