import Recbcsrv.Datafifo.Refine

/-! What the consumers see of the frames that the producers complete. A run is recorded as a log of the
    frames completed and the frames seen, and at every moment the frames a consumer has seen, the frames
    on its list and the frames still owed to it are the completed ones, in order. -/

set_option linter.unusedSectionVars false

namespace Recbcsrv
open Datafifo

variable {P C : Type}

/-! ### Frames and logs -/

/-- A frame as a reader finds it: the `len` bytes behind the data pointer and the fields of the item. -/
structure Frame where
  data : List UInt8
  len : Nat
  flags : Nat
  timestamp : Int
  deriving DecidableEq, Repr

/-- The frame in an item of a producer. -/
def DatafifoItem.frame (it : DatafifoItem P) : Frame where
  data := it.data.buf.take it.len
  len := it.len
  flags := it.flags
  timestamp := it.timestamp

/-- Producer `p` completed a frame, or consumer `c` saw one of producer `p` and gives it back. -/
inductive Event (P C : Type) where
  | completed (p : P) (f : Frame)
  | seen (c : C) (p : P) (f : Frame)
  deriving DecidableEq

namespace Sys

/-- The frame behind item `j` of consumer `c`: the bytes are read through the data pointer. -/
def read (s : Sys P C) (c : C) (j : Nat) : Option (P × Frame) :=
  let it := (s.consumer c).items j
  match it.ref, it.data with
  | some (p, _), .item q i => some (p, {
      data := ((s.producer q).items i).data.buf.take it.len
      len := it.len
      flags := it.flags
      timestamp := it.timestamp })
  | _, _ => none

/-- The items of consumer `c` whose references have not been given back. -/
def live (s : Sys P C) (c : C) : List Nat :=
  if (s.cpc c).dropped then (s.consumer c).list.tail else (s.consumer c).list

/-- What the next step of a thread adds to the log: a frame is completed when its status becomes `READY`,
    and seen when the consumer that is done with it drops its reference. -/
def event (s : Sys P C) : Action P C → Option (Event P C)
  | .producer p =>
    let df := s.producer p
    match s.ppc p with
    | .flush call _ => df.listtail.bind fun t =>
      if (df.items t).status = .filling then some (.completed p (flushItem call.flags (df.items t)).frame) else none
    | .close call => df.listtail.bind fun t =>
      if hasFlag call.flags frameFlagFrameend then some (.completed p (df.items t).frame) else none
    | _ => none
  | .consumer c =>
    match s.cpc c with
    | .decref => (s.consumer c).listhead.bind fun j => (s.read c j).map fun x => .seen c x.1 x.2
    | _ => none
  | _ => none

variable [DecidableEq P] [DecidableEq C]

/-- A step together with the log. -/
def logged (r : Sys P C × List (Event P C)) (a : Action P C) : Option (Sys P C × List (Event P C)) :=
  (r.1.step a).map fun t => (t, r.2 ++ (r.1.event a).toList)

end Sys

section
variable [DecidableEq P] [DecidableEq C]

/-- The frames that producer `p` completed, in order. -/
def completedBy (p : P) (log : List (Event P C)) : List Frame :=
  log.filterMap fun
    | .completed q f => if q = p then some f else none
    | .seen _ _ _ => none

/-- The frames of producer `p` that consumer `c` saw, in order. -/
def seenBy (c : C) (p : P) (log : List (Event P C)) : List Frame :=
  log.filterMap fun
    | .seen d q f => if d = c ∧ q = p then some f else none
    | .completed _ _ => none

/-- The frames of producer `p` among those that were read. -/
def readFrom (p : P) (l : List (P × Frame)) : List Frame := l.filterMap fun x => if x.1 = p then some x.2 else none

end

/-- A consumer that is connected `n` times gets each frame `n` times. -/
def handed (n : Nat) (l : List Frame) : List Frame := l.flatMap fun f => List.replicate n f

theorem handed_append (n : Nat) (l l' : List Frame) : handed n (l ++ l') = handed n l ++ handed n l' :=
  List.flatMap_append

/-- The consumers to which `item` still has to be copied. -/
def ProducerPc.owes : ProducerPc C → Option (Nat × List C)
  | .addto _ item rest => some (item, rest)
  | .fill _ item con _ _ rest | .link _ item con _ rest => some (item, con :: rest)
  | _ => none

theorem ProducerPc.phase_of_owes {pc : ProducerPc C} {item : Nat} {l : List C} (h : pc.owes = some (item, l)) :
    pc.phase = .dispatch item := by
  cases pc <;> simp only [owes, reduceCtorEq, Option.some.injEq, Prod.mk.injEq] at h <;> rw [← h.1] <;> rfl

/-! ### Delivery on the view -/

namespace View
variable [DecidableEq P] [DecidableEq C]

/-- The frame of item `i` of producer `p`. -/
def frame (v : View P C) (p : P) (i : Nat) : Frame := ((v.producer p).cells i).frame

/-- The frames of producer `p` that the references `l` lead to. -/
def framesOf (v : View P C) (p : P) (l : List (P × Nat)) : List Frame :=
  l.filterMap fun x => if x.1 = p then some (v.frame p x.2) else none

theorem framesOf_append (v : View P C) (p : P) (l l' : List (P × Nat)) :
    v.framesOf p (l ++ l') = v.framesOf p l ++ v.framesOf p l' := List.filterMap_append ..

theorem framesOf_cons_self (v : View P C) (p : P) (i : Nat) (l : List (P × Nat)) :
    v.framesOf p ((p, i) :: l) = v.frame p i :: v.framesOf p l := by
  simp [framesOf]

theorem framesOf_cons_of_ne (v : View P C) {p q : P} (h : q ≠ p) (i : Nat) (l : List (P × Nat)) :
    v.framesOf p ((q, i) :: l) = v.framesOf p l := by
  simp [framesOf, h]

/-- The frames of producer `p` that consumer `c` still refers to. -/
def sent (v : View P C) (c : C) (p : P) : List Frame := v.framesOf p (v.liveRefs c)

/-- The copies of the frame that producer `p` is handing out which consumer `c` has still to get. -/
def owed (v : View P C) (c : C) (p : P) : List Frame :=
  match (v.ppc p).owes with
  | some (item, l) => List.replicate (l.count c) (v.frame p item)
  | none => []

/-- The connections are those of `chain`, and what was seen, what is on the list and what is owed are the
    completed frames. -/
structure Delivered (chain : P → List C) (v : View P C) (log : List (Event P C)) : Prop where
  consumers : ∀ p, (v.producer p).consumers = chain p
  frames : ∀ c p, seenBy c p log ++ v.sent c p ++ v.owed c p = handed ((chain p).count c) (completedBy p log)

section
variable [Fintype C] {chain : P → List C} {v w : View P C} {log : List (Event P C)} {a : Action P C} {p q : P} {c d : C}
  {i : Nat}

/-- What a frame that is kept looks like does not change. -/
theorem Step.frame_eq (hs : Step v a w) (h : Inv v) (hk : Kept (v.producer q) i) : w.frame q i = v.frame q i := by
  have hother : ∀ {F : Fifo P C} {p : P}, (q = p → (F.cells i).frame = ((v.producer q).cells i).frame) →
      ((Function.update v.producer p F q).cells i).frame = v.frame q i := fun {F p} hF => by
    by_cases hq : q = p
    · subst hq
      rw [Function.update_self]
      exact hF rfl
    · rw [Function.update_of_ne hq]
      rfl
  -- The item being filled is not kept, so an assignment to it concerns another item.
  have hfilling : ∀ {p t f}, ((v.producer p).cells t).status = .filling → q = p →
      (((v.producer p).set t f).cells i).frame = ((v.producer q).cells i).frame := fun {p t f} hf hq => by
    subst hq
    have hit : i ≠ t := fun e => by
      have := hk.status
      rw [e, hf] at this
      simp at this
    rw [Fifo.set_cells_of_ne _ _ hit]
  have htail : ∀ {p t}, (v.ppc p).phase = .filling → (v.producer p).list.getLast? = some t →
      ((v.producer p).cells t).status = .filling := fun {p t} hp ht => (h.prod p).tail_filling hp ht
  cases hs with
  | alloc pc lt free =>
    refine hother fun hq => ?_
    subst hq
    have hii := (((h.prod _).free _ lt).mp free).1
    rw [Fifo.set_cells_of_ne _ _ fun e => hii (by rw [← e]; exact hk.mem)]
  | flush pc tail filling => exact hother (hfilling filling)
  | doing pc => exact hother fun hq => hq ▸ Fifo.set_field _ _ i _ DatafifoItem.frame rfl
  | incref pc => exact hother fun hq => hq ▸ Fifo.set_field _ _ i _ DatafifoItem.frame rfl
  | check pc => exact hother fun hq => hq ▸ Fifo.release_field DatafifoItem.frame fun _ _ => rfl
  | mark pc => exact hother (hfilling ((h.prod _).own _ (by rw [pc]; rfl)).2.2)
  | linkOwn pc => exact hother fun hq => by rw [hq]; rfl
  | copy pc tail => exact hother (hfilling (htail (by rw [pc]; rfl) tail))
  | grow pc tail => exact hother (hfilling (htail (by rw [pc]; rfl) tail))
  | close pc frameend tail => exact hother (hfilling (htail (by rw [pc]; rfl) tail))
  | decref pc head ref => exact hother fun hq => hq ▸ Fifo.set_field _ _ i _ DatafifoItem.frame rfl
  | checkCon pc => exact hother fun hq => hq ▸ Fifo.release_field DatafifoItem.frame fun _ _ => rfl
  | _ => rfl

theorem Step.consumers_eq (hs : Step v a w) : (w.producer q).consumers = (v.producer q).consumers := by
  have hother : ∀ {F : Fifo P C} {p : P}, F.consumers = (v.producer p).consumers →
      (Function.update v.producer p F q).consumers = (v.producer q).consumers := fun {F p} hF => by
    by_cases hq : q = p
    · subst hq
      rw [Function.update_self, hF]
    · rw [Function.update_of_ne hq]
  cases hs <;> first | rfl | exact hother rfl

/-- What is owed stays the same in a step that owes to the same consumers. -/
theorem Step.owed_eq (hs : Step v a w) (h : Inv v) (ho : (w.ppc p).owes = (v.ppc p).owes) : w.owed c p = v.owed c p := by
  rw [owed, owed, ho]
  cases hv : (v.ppc p).owes with
  | none => rfl
  | some x =>
    have ht := (h.prod p).tail
    rw [ProducerPc.phase_of_owes hv] at ht
    simp only [hs.frame_eq h ⟨ProducerInv.tail_mem ht.1, Or.inl ht.2⟩]

theorem Step.framesOf_eq (hs : Step v a w) (h : Inv v) {l : List (P × Nat)} (hl : l ⊆ v.liveRefs c) :
    w.framesOf p l = v.framesOf p l := by
  refine List.filterMap_congr fun x hx => ?_
  obtain ⟨j, hj, hr⟩ := List.mem_filterMap.mp (hl hx)
  obtain ⟨q, i, hcp, hk⟩ := h.live c j hj
  rw [hcp.ref] at hr
  cases hr
  by_cases hq : q = p
  · subst hq
    simp only [hs.frame_eq h hk]
  · simp only [hq, if_false]

theorem Step.sent_eq (hs : Step v a w) (h : Inv v) (hl : w.liveRefs c = v.liveRefs c) : w.sent c p = v.sent c p := by
  rw [sent, sent, hl]
  exact hs.framesOf_eq h fun _ hx => hx

theorem Delivered.quiet (hd : Delivered chain v log) (h : Inv v) (hs : Step v a w)
    (hl : ∀ c, w.liveRefs c = v.liveRefs c) (ho : ∀ c p, w.owed c p = v.owed c p) : Delivered chain w log where
  consumers p := hs.consumers_eq.trans (hd.consumers p)
  frames c p := by rw [hs.sent_eq h (hl c), ho]; exact hd.frames c p

theorem Delivered.complete (hd : Delivered chain v log) (h : Inv v) (hs : Step v a w)
    (hl : ∀ c, w.liveRefs c = v.liveRefs c) (hne : ∀ q, q ≠ p → w.ppc q = v.ppc q) (ho : (v.ppc p).owes = none)
    (ho' : (w.ppc p).owes = some (i, (v.producer p).consumers)) :
    Delivered chain w (log ++ [.completed p (w.frame p i)]) where
  consumers p := hs.consumers_eq.trans (hd.consumers p)
  frames c q := by
    have hf := hd.frames c q
    have hseen : seenBy c q (log ++ [Event.completed p (w.frame p i)]) = seenBy c q log := by
      simp [seenBy, List.filterMap_append]
    rw [hs.sent_eq h (hl c), hseen]
    by_cases hq : q = p
    · subst hq
      have hcomp : completedBy q (log ++ [Event.completed q (w.frame q i)]) = completedBy q log ++ [w.frame q i] := by
        simp [completedBy, List.filterMap_append]
      rw [owed, ho, List.append_nil] at hf
      rw [owed, ho', hcomp, handed_append, ← hf, hd.consumers]
      simp [handed]
    · have hcomp : completedBy q (log ++ [Event.completed p (w.frame p i)]) = completedBy q log := by
        simp [completedBy, List.filterMap_append, Ne.symm hq]
      rw [hs.owed_eq h (by rw [hne q hq]), hcomp]
      exact hf

/-- One copy moves from the debt to the list. -/
theorem Delivered.link (hd : Delivered chain v log) (h : Inv v) {k : Cont} {item cur : Nat} {con : C} {rest : List C}
    (pc : v.ppc p = .link k item con cur rest) :
    Delivered chain ((v.setConsumer con ((v.consumer con).push cur)).setPpc p (.addto k item rest)) log := by
  obtain ⟨hne, -, hlr⟩ := h.liveRefs_link pc rfl
  have hstep := Step.link pc
  refine ⟨fun q => hstep.consumers_eq.trans (hd.consumers q), fun c q => ?_⟩
  rw [← hd.frames c q]
  by_cases hq : q = p
  · subst hq
    by_cases hc : c = con
    · subst hc
      rw [owed, owed, pc, setPpc_ppc, Function.update_self, sent, hlr, framesOf_append, framesOf_cons_self,
        hstep.framesOf_eq h fun _ hx => hx]
      simp only [ProducerPc.owes, List.count_cons_self, List.replicate_succ, List.append_assoc]
      rfl
    · rw [hstep.sent_eq h (hne c hc).2, owed, owed, pc, setPpc_ppc, Function.update_self]
      simp only [ProducerPc.owes, List.count_cons_of_ne (Ne.symm hc)]
      rfl
  · have ho := hstep.owed_eq (c := c) (p := q) h (by rw [setPpc_ppc, Function.update_of_ne hq, setConsumer_ppc])
    rw [ho]
    by_cases hc : c = con
    · subst hc
      rw [sent, hlr, framesOf_append, framesOf_cons_of_ne _ (Ne.symm hq), hstep.framesOf_eq h fun _ hx => hx]
      simp only [framesOf, List.filterMap_nil, List.append_nil]
      rfl
    · rw [hstep.sent_eq h (hne c hc).2]

/-- The first frame on the list is seen. -/
theorem Delivered.see (hd : Delivered chain v log) (h : Inv v) {j : Nat} (pc : v.cpc c = .decref)
    (head : (v.consumer c).list.head? = some j) (ref : ((v.consumer c).cells j).ref = some (p, i)) :
    Delivered chain ((v.setProducer p ((v.producer p).set i decrefItem)).setCpc c (.check p)) (log ++ [.seen c p (v.frame p i)]) := by
  obtain ⟨hne, -, hlr⟩ := Inv.liveRefs_decref pc head ref rfl
  have hstep := Step.decref pc head ref
  have hcomp : ∀ q, completedBy q (log ++ [Event.seen c p (v.frame p i)]) = completedBy q log := fun q => by
    simp [completedBy, List.filterMap_append]
  refine ⟨fun q => hstep.consumers_eq.trans (hd.consumers q), fun d q => ?_⟩
  rw [hcomp, ← hd.frames d q, hstep.owed_eq (c := d) (p := q) h rfl]
  by_cases hdc : d = c
  · subst hdc
    have hrest := hstep.framesOf_eq (c := d) (p := q) h fun x hx => by
      rw [hlr]
      exact List.mem_cons_of_mem _ hx
    rw [sent, sent, hrest, hlr]
    by_cases hq : p = q
    · subst hq
      rw [framesOf_cons_self]
      simp [seenBy, List.filterMap_append]
    · rw [framesOf_cons_of_ne _ hq]
      simp [seenBy, List.filterMap_append, hq]
  · have hseen : seenBy d q (log ++ [Event.seen c p (v.frame p i)]) = seenBy d q log := by
      simp [seenBy, List.filterMap_append, Ne.symm hdc]
    rw [hseen, hstep.sent_eq h (hne d hdc).2]

end
end View

namespace Sys
open View
variable [DecidableEq P] [DecidableEq C] [Fintype C] {chain : P → List C} {s t : Sys P C} {log : List (Event P C)}
  {a : Action P C}

/-- Reading behind a live item gives the frame of the producer's item that it refers to. -/
theorem Ok.read_live (h : s.Ok) {c : C} {j : Nat} (hj : j ∈ s.view.live c) :
    ∃ p i, ((s.consumer c).items j).ref = some (p, i) ∧ Kept (s.view.producer p) i ∧
      s.read c j = some (p, s.view.frame p i) := by
  obtain ⟨p, i, hcp, hk⟩ := h.inv.live c j hj
  have href : ((s.consumer c).items j).ref = some (p, i) := hcp.ref
  have hdata : ((s.consumer c).items j).data = .item p i := hcp.data
  have hlen : ((s.consumer c).items j).len = ((s.producer p).items i).len := hcp.len
  have hflags : ((s.consumer c).items j).flags = ((s.producer p).items i).flags := hcp.flags
  have htime : ((s.consumer c).items j).timestamp = ((s.producer p).items i).timestamp := hcp.timestamp
  refine ⟨p, i, href, hk, ?_⟩
  simp only [read, href, hdata, hlen, hflags, htime, View.frame, DatafifoItem.frame, view_producer, abs_data, abs_len,
    abs_flags, abs_timestamp]

/-- Every step keeps the account of the frames. -/
theorem Ok.delivered (h : s.Ok) (hd : Delivered chain s.view log) (hs : s.step a = some t) :
    Delivered chain t.view (log ++ (s.event a).toList) := by
  obtain ⟨hst, -⟩ := h.refines hs
  generalize t.view = w at hst
  have hI := h.inv
  have hquiet : s.event a = none → (∀ c, w.liveRefs c = s.view.liveRefs c) → (∀ c p, w.owed c p = s.view.owed c p) →
      Delivered chain w (log ++ (s.event a).toList) := fun he hl ho => by
    rw [he, Option.toList_none, List.append_nil]
    exact hd.quiet hI hst hl ho
  -- A step of producer `p` that owes to the same consumers.
  have hsame : ∀ {p pc}, w.ppc = Function.update s.view.ppc p pc → pc.owes = (s.view.ppc p).owes →
      ∀ c q, w.owed c q = s.view.owed c q := fun {p pc} hw ho c q => by
    refine hst.owed_eq hI ?_
    by_cases hq : q = p
    · subst hq
      rw [hw, Function.update_self, ho]
    · rw [hw, Function.update_of_ne hq]
  have hset : ∀ {con : C} {G : Fifo P C}, w.consumer = Function.update s.view.consumer con G → w.cpc = s.view.cpc →
      G.list = (s.view.consumer con).list →
      (∀ j ∈ (s.view.consumer con).list, G.cells j = (s.view.consumer con).cells j) →
      ∀ c, w.liveRefs c = s.view.liveRefs c := fun {con G} hw hc hl hG c => by
    by_cases hcc : c = con
    · subst hcc
      refine (liveRefs_congr ?_ (by rw [hc]) fun j hj => ?_).2
      · rw [hw, Function.update_self, hl]
      · rw [hw, Function.update_self, hG j hj]
    · refine (liveRefs_congr ?_ (by rw [hc]) fun j hj => ?_).2
      · rw [hw, Function.update_of_ne hcc]
      · rw [hw, Function.update_of_ne hcc]
  have hcpc : ∀ {c pc}, w.consumer = s.view.consumer → w.cpc = Function.update s.view.cpc c pc →
      pc.dropped = (s.view.cpc c).dropped → ∀ d, w.liveRefs d = s.view.liveRefs d := fun {c pc} hw hc hdr d => by
    refine (liveRefs_congr (by rw [hw]) ?_ fun j _ => by rw [hw]).2
    by_cases hdc : d = c
    · subst hdc
      rw [hc, Function.update_self, hdr]
    · rw [hc, Function.update_of_ne hdc]
  cases hst with
  | dataAdd pc => exact hquiet rfl (fun _ => rfl) (hsame rfl (by rw [pc]; split <;> rfl))
  | alloc pc lt free => exact hquiet (by simp [event, show s.ppc _ = _ from pc]) (fun _ => rfl) (hsame rfl (by rw [pc]; rfl))
  | @flush p call cur t pc tail filling =>
    have he : s.event (.producer p) = some (.completed p (View.frame
        ((s.view.setProducer p ((s.view.producer p).set t (flushItem call.flags))).setPpc p
          (.addto (.newframe call cur) t (s.view.producer p).consumers)) p t)) := by
      have ht : (s.producer p).listtail = some t := (h.producer p).listtail.trans tail
      have hf : ((s.producer p).items t).status = .filling := filling
      simp only [event, show s.ppc p = _ from pc, ht, Option.bind_some, hf, if_true, View.frame, setPpc_producer,
        setProducer_producer, Function.update_self, Fifo.set_cells_self]
      rfl
    rw [he]
    refine hd.complete hI (.flush pc tail filling) (fun _ => rfl) (fun q hq => ?_) (by rw [pc]; rfl) ?_
    · rw [setPpc_ppc, Function.update_of_ne hq, setProducer_ppc]
    · rw [setPpc_ppc, Function.update_self]
      rfl
  | flushNone pc tail =>
    refine hquiet ?_ (fun _ => rfl) (hsame rfl (by rw [pc]; rfl))
    simp only [event, show s.ppc _ = _ from pc, (h.producer _).listtail, Option.bind_eq_none_iff]
    exact fun t ht => if_neg (tail t ht)
  | allocCon pc lt free =>
    have hj := ((hI.free _ _ lt).mp free).1
    exact hquiet (by simp [event, show s.ppc _ = _ from pc])
      (hset rfl rfl rfl fun k hk => Fifo.set_cells_of_ne _ _ fun e => hj (by rw [← e]; exact hk)) (hsame rfl (by rw [pc]; rfl))
  | @doing p k item pc =>
    refine hquiet (by simp [event, show s.ppc _ = _ from pc]) (fun _ => rfl) fun c q => ?_
    by_cases hq : q = p
    · subst hq
      rw [owed, owed, pc, setPpc_ppc, Function.update_self]
      simp [ProducerPc.owes]
    · refine Step.owed_eq (.doing pc) hI ?_
      rw [setPpc_ppc, Function.update_of_ne hq, setProducer_ppc]
  | @assign p k item cur con a todo rest pc =>
    have hj := (hI.held p ⟨item, con, cur, a :: todo⟩ (by rw [pc]; rfl)).2.1
    exact hquiet (by simp [event, show s.ppc _ = _ from pc])
      (hset rfl rfl rfl fun k hk => Fifo.set_cells_of_ne _ _ fun e => hj (by rw [← e]; exact hk)) (hsame rfl (by rw [pc]; rfl))
  | incref pc => exact hquiet (by simp [event, show s.ppc _ = _ from pc]) (fun _ => rfl) (hsame rfl (by rw [pc]; rfl))
  | link pc =>
    rw [show s.event _ = none by simp [event, show s.ppc _ = _ from pc], Option.toList_none, List.append_nil]
    exact hd.link hI pc
  | @check p k pc =>
    refine hquiet (by simp [event, show s.ppc _ = _ from pc]) (fun _ => rfl) (hsame rfl ?_)
    rw [pc]
    cases k <;> rfl
  | mark pc => exact hquiet (by simp [event, show s.ppc _ = _ from pc]) (fun _ => rfl) (hsame rfl (by rw [pc]; rfl))
  | linkOwn pc => exact hquiet (by simp [event, show s.ppc _ = _ from pc]) (fun _ => rfl) (hsame rfl (by rw [pc]; rfl))
  | tail pc tail =>
    exact hquiet (by simp [event, show s.ppc _ = _ from pc]) (fun _ => rfl) (hsame rfl (by rw [pc]; split <;> rfl))
  | room pc tail =>
    exact hquiet (by simp [event, show s.ppc _ = _ from pc]) (fun _ => rfl) (hsame rfl (by rw [pc]; split <;> rfl))
  | copy pc tail => exact hquiet (by simp [event, show s.ppc _ = _ from pc]) (fun _ => rfl) (hsame rfl (by rw [pc]; rfl))
  | grow pc tail => exact hquiet (by simp [event, show s.ppc _ = _ from pc]) (fun _ => rfl) (hsame rfl (by rw [pc]; rfl))
  | @close p call t pc frameend tail =>
    have he : s.event (.producer p) = some (.completed p (View.frame
        ((s.view.setProducer p ((s.view.producer p).set t readyItem)).setPpc p
          (.addto .finish t (s.view.producer p).consumers)) p t)) := by
      have ht : (s.producer p).listtail = some t := (h.producer p).listtail.trans tail
      simp only [event, show s.ppc p = _ from pc, ht, Option.bind_some, frameend, if_true, View.frame, setPpc_producer,
        setProducer_producer, Function.update_self, Fifo.set_cells_self]
      rfl
    rw [he]
    refine hd.complete hI (.close pc frameend tail) (fun _ => rfl) (fun q hq => ?_) (by rw [pc]; rfl) ?_
    · rw [setPpc_ppc, Function.update_of_ne hq, setProducer_ppc]
    · rw [setPpc_ppc, Function.update_self]
      rfl
  | closeOpen pc more =>
    refine hquiet ?_ (fun _ => rfl) (hsame rfl (by rw [pc]; rfl))
    simp [event, show s.ppc _ = _ from pc, more]
  | @removeHead c pc ne =>
    exact hquiet rfl (hcpc rfl rfl (by rw [pc]; rfl)) fun _ _ => rfl
  | removeNone pc nil => exact hquiet rfl (fun _ => rfl) fun _ _ => rfl
  | @decref c j p i pc head ref =>
    have hlive : s.view.live c = j :: _ := (Inv.liveRefs_decref pc head ref rfl).2.1
    obtain ⟨p', i', href, hk, hread⟩ := h.read_live (hlive ▸ List.mem_cons_self ..)
    rw [show ((s.consumer c).items j).ref = some (p, i) from ref] at href
    cases href
    have hhead : (s.consumer c).listhead = some j := (h.consumer c).listhead.trans head
    rw [show s.event (.consumer c) = some (.seen c p (s.view.frame p i)) by
      simp [event, show s.cpc c = _ from pc, hhead, hread]]
    exact hd.see hI pc head ref
  | @checkCon c p pc =>
    exact hquiet (by simp [event, show s.cpc _ = _ from pc]) (hcpc rfl rfl (by rw [pc]; rfl)) fun _ q =>
      Step.owed_eq (.checkCon pc) hI rfl
  | @unlink c pc =>
    exact hquiet (by simp [event, show s.cpc _ = _ from pc]) (hI.live_unlink pc rfl).2.2 fun _ q =>
      Step.owed_eq (.unlink pc) hI rfl

theorem Ok.logged (h : s.Ok) (hd : Delivered chain s.view log) {as : List (Action P C)} {r : Sys P C × List (Event P C)}
    (hr : Exec.exec Sys.logged (s, log) as = some r) : r.1.Ok ∧ Delivered chain r.1.view r.2 := by
  refine Exec.exec_invariant (I := fun r => r.1.Ok ∧ Delivered chain r.1.view r.2) ?_ ⟨h, hd⟩ hr
  rintro ⟨s, log⟩ a r ⟨h, hd⟩ hs
  obtain ⟨t, ht, rfl⟩ := Option.map_eq_some_iff.mp hs
  exact ⟨h.step ht, h.delivered hd ht⟩

theorem delivered_start (psize pcnt : P → Nat) (csize ccnt : C → Nat) (chain : P → List C) :
    Delivered chain (Sys.start psize pcnt csize ccnt chain).view [] where
  consumers _ := rfl
  frames c p := by
    have hlist : ∀ size cnt, (datafifoInit size cnt : Datafifo P C).list = [] := fun size cnt => by cases cnt <;> rfl
    have hlive : (Sys.start psize pcnt csize ccnt chain).view.live c = [] := hlist (csize c) (ccnt c)
    rw [sent, liveRefs, hlive]
    rfl

theorem Ok.read_sent (h : s.Ok) (c : C) (p : P) : readFrom p ((s.live c).filterMap (s.read c)) = s.view.sent c p := by
  have hread : ∀ l : List Nat, (∀ j ∈ l, j ∈ s.view.live c) → readFrom p (l.filterMap (s.read c)) =
      s.view.framesOf p (l.filterMap fun j => ((s.consumer c).items j).ref) := fun l hl => by
    induction l with
    | nil => rfl
    | cons j l ih =>
      obtain ⟨q, i, href, -, hrd⟩ := h.read_live (hl j (List.mem_cons_self ..))
      have ih := ih fun k hk => hl k (List.mem_cons_of_mem _ hk)
      rw [List.filterMap_cons, List.filterMap_cons, hrd, href]
      by_cases hq : q = p
      · subst hq
        rw [framesOf_cons_self, ← ih]
        simp [readFrom]
      · rw [framesOf_cons_of_ne _ hq, ← ih]
        simp [readFrom, hq]
  exact hread _ fun _ hj => hj

/-- Fan-out. In every run, the frames of `p` that `c` saw followed by those it still refers to are the first
    ones that `p` completed, each as often as `c` is connected, and all of them unless `p` is handing one
    out. As long as `c` has not given the reference back, the item it refers to is on its producer's list,
    completed, and what `c` reads is the frame in it. -/
theorem frames_fan_out (psize pcnt : P → Nat) (csize ccnt : C → Nat) (chain : P → List C) (as : List (Action P C))
    (s : Sys P C) (log : List (Event P C))
    (h : Exec.exec Sys.logged (Sys.start psize pcnt csize ccnt chain, []) as = some (s, log)) (c : C) (p : P) :
    (seenBy c p log ++ readFrom p ((s.live c).filterMap (s.read c)) <+:
      handed ((chain p).count c) (completedBy p log)) ∧
    ((s.ppc p).owes = none → seenBy c p log ++ readFrom p ((s.live c).filterMap (s.read c)) =
      handed ((chain p).count c) (completedBy p log)) ∧
    ∀ j ∈ s.live c, ∃ q i, ((s.consumer c).items j).ref = some (q, i) ∧ i ∈ (s.producer q).list ∧
      (((s.producer q).items i).status = .ready ∨ ((s.producer q).items i).status = .doing) ∧
      s.read c j = some (q, ((s.producer q).items i).frame) := by
  obtain ⟨hok, hd⟩ := Ok.logged (Ok.start psize pcnt csize ccnt chain) (delivered_start psize pcnt csize ccnt chain) h
  rw [hok.read_sent, ← hd.frames c p]
  refine ⟨List.prefix_append _ _, fun ho => ?_, fun j hj => ?_⟩
  · have howed : s.view.owed c p = [] := by rw [owed, view_ppc, ho]
    rw [howed, List.append_nil]
  · obtain ⟨q, i, href, hk, hread⟩ := hok.read_live hj
    exact ⟨q, i, href, hk.mem, hk.status, hread⟩

/-- One producer with a pool of one item, one consumer with a pool of one item. -/
def single : Sys Unit Unit := Sys.start (fun _ => 4) (fun _ => 1) (fun _ => 0) (fun _ => 1) fun _ => [()]

/-- One frame is added and handed to the consumer. -/
def oneFrame : List (Action Unit Unit) :=
  .dataAdd () ⟨[7], frameFlagNewframe ||| frameFlagFrameend, 0⟩ :: List.replicate 23 (.producer ())

theorem frames_fan_out_oneFrame : ∃ s log, Exec.exec Sys.logged (single, []) oneFrame = some (s, log) ∧
    seenBy () () log ++ readFrom () ((s.live ()).filterMap (s.read ())) = handed 1 (completedBy () log) := by
  have hrun : (Exec.exec Sys.logged (single, []) oneFrame).any (fun r => (r.1.ppc ()).owes = none) = true := by
    decide +kernel
  obtain ⟨⟨s, log⟩, hs, howes⟩ := (Option.any_eq_true ..).mp hrun
  exact ⟨s, log, hs, (frames_fan_out _ _ _ _ _ _ s log hs () ()).2.1 (by simpa using howes)⟩

/-- The consumer has given its head back, the producer has freed it, and it is still the consumer's head. -/
theorem listed_item_recycled : ∃ s log,
    Exec.exec Sys.logged (single, []) (oneFrame ++ [.removeHead (), .consumer (), .consumer ()]) = some (s, log) ∧
    ∃ j ∈ (s.consumer ()).list, ∃ i, ((s.consumer ()).items j).ref = some ((), i) ∧
      ((s.producer ()).items i).status = .init := by
  have hrun : (Exec.exec Sys.logged (single, []) (oneFrame ++ [.removeHead (), .consumer (), .consumer ()])).any
      (fun r => (r.1.consumer ()).list = [0] ∧ ((r.1.consumer ()).items 0).ref = some ((), 0) ∧
        ((r.1.producer ()).items 0).status = .init) = true := by
    decide +kernel
  obtain ⟨⟨s, log⟩, hs, hr⟩ := (Option.any_eq_true ..).mp hrun
  simp only [decide_eq_true_eq] at hr
  exact ⟨s, log, hs, 0, by rw [hr.1]; exact List.mem_singleton_self 0, 0, hr.2⟩

end Sys
end Recbcsrv
