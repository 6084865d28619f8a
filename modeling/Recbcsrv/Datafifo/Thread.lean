import Recbcsrv.Datafifo.Item
import Recbcsrv.Lib.Exec

/-! The threads that use the FIFOs (`datafifo.c`), one step for each section between lock and unlock and one
    for each assignment outside of them. Every producer FIFO has one thread that calls
    `datafifo_producer_data_add`, every consumer FIFO one that calls `datafifo_consumer_remove_head`; between
    calls a thread is idle. A thread that waits for a free item has no step. -/

namespace Recbcsrv
open Datafifo

/-- The arguments of a call of `datafifo_producer_data_add`; `len` is the length of `data`. -/
structure Call where
  data : List UInt8
  flags : Nat
  timestamp : Int
  deriving DecidableEq, Repr

/-- The assignments to a consumer's item in `datafifo_addto_consumers`, between the allocation and the
    increment of the reference count. -/
inductive Asg where
  | ref
  | next
  | prev
  | data
  | len
  | flags
  | timestamp
  | status
  deriving DecidableEq, Repr

/-- The assignments in the order of the source. -/
def Asg.all : List Asg := [.ref, .next, .prev, .data, .len, .flags, .timestamp, .status]

/-- The assignments to the new item of a producer, before it is linked. -/
inductive Mark where
  | firstframe
  | keyframe
  | timestamp
  deriving DecidableEq, Repr

/-- The assignments in the order of the source. -/
def Mark.all : List Mark := [.firstframe, .keyframe, .timestamp]

/-- Where `datafifo_addto_consumers` returns to: to the new frame `cur`, after the old one was flushed, or
    to the end of the call. -/
inductive Cont where
  | newframe (call : Call) (cur : Nat)
  | finish
  deriving DecidableEq, Repr

/-- Where the thread of a producer FIFO stands. `item` is the item that `datafifo_addto_consumers` is
    copying, `cur` the item of the consumer `con` it copies to, `rest` the consumers still to be served. -/
inductive ProducerPc (C : Type) where
  | idle
  | alloc (call : Call)
  | flush (call : Call) (cur : Nat)
  | addto (k : Cont) (item : Nat) (rest : List C)
  | fill (k : Cont) (item : Nat) (con : C) (cur : Nat) (todo : List Asg) (rest : List C)
  | link (k : Cont) (item : Nat) (con : C) (cur : Nat) (rest : List C)
  | check (k : Cont)
  | mark (call : Call) (cur : Nat) (todo : List Mark)
  | tail (call : Call)
  | room (call : Call)
  | copy (call : Call)
  | grow (call : Call)
  | close (call : Call)
  deriving DecidableEq

/-- Where the thread stands after `datafifo_addto_consumers`. -/
def Cont.pc {C : Type} : Cont → ProducerPc C
  | .newframe call cur => .mark call cur Mark.all
  | .finish => .idle

/-- Where the thread of a consumer FIFO stands in `datafifo_consumer_remove_head`. -/
inductive ConsumerPc (P : Type) where
  | idle
  | decref
  | check (p : P)
  | unlink
  deriving DecidableEq

/-- All FIFOs and where their threads stand. -/
structure Sys (P C : Type) where
  producer : P → Datafifo P C
  consumer : C → Datafifo P C
  ppc : P → ProducerPc C
  cpc : C → ConsumerPc P

/-- A thread starts a call or goes on with the one it is in. -/
inductive Action (P C : Type) where
  | dataAdd (p : P) (call : Call)
  | producer (p : P)
  | removeHead (c : C)
  | consumer (c : C)

variable {P C : Type}

/-- One assignment to the consumer's item `it`; `src` is the item `(p, item)` it copies. -/
def Asg.run (p : P) (item : Nat) (src : DatafifoItem P) (it : DatafifoItem P) : Asg → DatafifoItem P
  | .ref => { it with ref := some (p, item) }
  | .next => { it with next := none }
  | .prev => { it with prev := none }
  | .data => { it with data := .item p item }
  | .len => { it with len := src.len }
  | .flags => { it with flags := src.flags }
  | .timestamp => { it with timestamp := src.timestamp }
  | .status => { it with status := .ready }

/-- One assignment to a producer's new item. -/
def Mark.run (call : Call) (it : DatafifoItem P) : Mark → DatafifoItem P
  | .firstframe =>
    if hasFlag call.flags frameFlagFirstframe then { it with flags := it.flags ||| frameFlagFirstframe } else it
  | .keyframe =>
    if hasFlag call.flags frameFlagKeyframe then { it with flags := it.flags ||| frameFlagKeyframe } else it
  | .timestamp => { it with timestamp := call.timestamp }

/-- An uncompleted frame is closed by the next one; the first frame of a new stream discards its bytes. -/
def flushItem (flags : Nat) (it : DatafifoItem P) : DatafifoItem P :=
  { it with len := if hasFlag flags frameFlagFirstframe then 0 else it.len, status := .ready }

def increfItem (it : DatafifoItem P) : DatafifoItem P := { it with refcnt := it.refcnt + 1 }
def decrefItem (it : DatafifoItem P) : DatafifoItem P := { it with refcnt := it.refcnt - 1 }
def readyItem (it : DatafifoItem P) : DatafifoItem P := { it with status := .ready }
def doingItem (it : DatafifoItem P) : DatafifoItem P := { it with status := .doing }

/-- `memcpy` of the bytes of a call behind the bytes that the item holds. -/
def copyItem (data : List UInt8) (it : DatafifoItem P) : DatafifoItem P :=
  { it with data := .own (memcpy it.data.buf it.len data) }

def growItem (data : List UInt8) (it : DatafifoItem P) : DatafifoItem P := { it with len := it.len + data.length }

namespace Sys
variable [DecidableEq P] [DecidableEq C]

def setProducer (s : Sys P C) (p : P) (df : Datafifo P C) : Sys P C :=
  { s with producer := Function.update s.producer p df }

def setConsumer (s : Sys P C) (c : C) (df : Datafifo P C) : Sys P C :=
  { s with consumer := Function.update s.consumer c df }

def setPpc (s : Sys P C) (p : P) (pc : ProducerPc C) : Sys P C := { s with ppc := Function.update s.ppc p pc }

def setCpc (s : Sys P C) (c : C) (pc : ConsumerPc P) : Sys P C := { s with cpc := Function.update s.cpc c pc }

/-- `datafifo_producer_data_add` up to its first access to the FIFO. -/
def dataAdd (s : Sys P C) (p : P) (call : Call) : Option (Sys P C) :=
  match s.ppc p with
  | .idle => some (s.setPpc p (if hasFlag call.flags frameFlagNewframe then .alloc call else .tail call))
  | _ => none

/-- The next step of the thread of producer `p`. -/
def producerStep (s : Sys P C) (p : P) : Option (Sys P C) :=
  let df := s.producer p
  match s.ppc p with
  | .idle => none
  | .alloc call =>
    (datafifoAlloc df).map fun r => (s.setProducer p r.1).setPpc p (.flush call r.2)
  | .flush call cur =>
    match df.listtail with
    | none => some (s.setPpc p (.mark call cur Mark.all))
    | some t =>
      if (df.items t).status = .filling then
        some ((s.setProducer p (df.setItem t (flushItem call.flags))).setPpc p
          (.addto (.newframe call cur) t df.consumers))
      else some (s.setPpc p (.mark call cur Mark.all))
  | .addto k item (con :: rest) =>
    (datafifoAlloc (s.consumer con)).map fun r =>
      (s.setConsumer con r.1).setPpc p (.fill k item con r.2 Asg.all rest)
  | .addto k item [] =>
    some ((s.setProducer p (df.setItem item doingItem)).setPpc p (.check k))
  | .fill k item con cur (a :: todo) rest =>
    some ((s.setConsumer con ((s.consumer con).setItem cur fun it => a.run p item (df.items item) it)).setPpc p
      (.fill k item con cur todo rest))
  | .fill k item con cur [] rest =>
    some ((s.setProducer p (df.setItem item increfItem)).setPpc p (.link k item con cur rest))
  | .link k item con cur rest =>
    (datafifoListAddtail (s.consumer con) cur).map fun df' => (s.setConsumer con df').setPpc p (.addto k item rest)
  | .check k =>
    (datafifoProducerRemoveCheck df).map fun df' => (s.setProducer p df').setPpc p k.pc
  | .mark call cur (m :: todo) =>
    some ((s.setProducer p (df.setItem cur fun it => m.run call it)).setPpc p (.mark call cur todo))
  | .mark call cur [] =>
    (datafifoListAddtail df cur).map fun df' => (s.setProducer p df').setPpc p (.room call)
  | .tail call =>
    df.listtail.map fun t => s.setPpc p (if (df.items t).status ≠ .filling then .idle else .room call)
  | .room call =>
    df.listtail.map fun t => s.setPpc p
      (if (df.items t).len + call.data.length > df.dataMaxlen then .idle else .copy call)
  | .copy call =>
    df.listtail.map fun t => (s.setProducer p (df.setItem t (copyItem call.data))).setPpc p (.grow call)
  | .grow call =>
    df.listtail.map fun t => (s.setProducer p (df.setItem t (growItem call.data))).setPpc p (.close call)
  | .close call =>
    if hasFlag call.flags frameFlagFrameend then
      df.listtail.map fun t =>
        (s.setProducer p (df.setItem t readyItem)).setPpc p (.addto .finish t df.consumers)
    else some (s.setPpc p .idle)

/-- `datafifo_consumer_remove_head` up to its first section: an empty list ends the call. -/
def removeHead (s : Sys P C) (c : C) : Option (Sys P C) :=
  match s.cpc c with
  | .idle => some (if (s.consumer c).listhead = none then s else s.setCpc c .decref)
  | _ => none

/-- The next step of the thread of consumer `c`. -/
def consumerStep (s : Sys P C) (c : C) : Option (Sys P C) :=
  let df := s.consumer c
  match s.cpc c with
  | .idle => none
  | .decref =>
    df.listhead.map fun h =>
      match (df.items h).ref with
      | none => s.setCpc c .unlink
      | some (p, i) => (s.setProducer p ((s.producer p).setItem i decrefItem)).setCpc c (.check p)
  | .check p =>
    (datafifoProducerRemoveCheck (s.producer p)).map fun df' => (s.setProducer p df').setCpc c .unlink
  | .unlink =>
    (datafifoRemoveHeadInternalReqlock df).map fun df' => (s.setConsumer c df').setCpc c .idle

/-- One step of the system. -/
def step (s : Sys P C) : Action P C → Option (Sys P C)
  | .dataAdd p call => s.dataAdd p call
  | .producer p => s.producerStep p
  | .removeHead c => s.removeHead c
  | .consumer c => s.consumerStep c

/-- The FIFOs after `datafifo_init`, producer `p` connected to the consumers `chain p`; no call has begun. -/
def start (psize pcnt : P → Nat) (csize ccnt : C → Nat) (chain : P → List C) : Sys P C where
  producer := fun p => { (datafifoInit (psize p) (pcnt p) : Datafifo P C) with consumers := chain p }
  consumer := fun c => datafifoInit (csize c) (ccnt c)
  ppc := fun _ => .idle
  cpc := fun _ => .idle

end Sys
end Recbcsrv
