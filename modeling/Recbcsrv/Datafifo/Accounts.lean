import Mathlib.Algebra.BigOperators.Group.Finset.Piecewise
import Mathlib.Algebra.Order.BigOperators.Group.Finset
import Recbcsrv.Datafifo.Assembly

/-! Where the items of the pools are, and what the threads wait for. The head of a producer's list is never one that
    all consumers have given back, unless a thread is about to unlink it; so an item in use is one that a consumer
    still refers to, or the unfinished frame. The threads cannot block each other: once no call with data begins and
    the consumers take what is on their lists, every order of the steps ends, and then every pool is free again. -/

set_option linter.unusedSectionVars false

namespace Recbcsrv
open Datafifo

variable {P C : Type}

theorem Fifo.not_gone_sweep {F : Fifo P C} {i : Nat} (h : F.sweep.list.head? = some i) : ¬F.sweep.gone i := by
  intro hgone
  have hhead : F.gone i = false := by
    have hnot := List.head?_dropWhile_not F.gone F.list
    rw [sweep_list] at h
    rw [h] at hnot
    exact hnot
  obtain ⟨hdoing, hzero⟩ := gone_iff.mp hgone
  by_cases hi : i ∈ F.list.takeWhile F.gone
  · have hfree : (F.sweep.cells i).status = .init := release_of_mem hi
    rw [hfree] at hdoing
    cases hdoing
  · have hcell : F.sweep.cells i = F.cells i := release_of_notMem hi
    rw [hcell] at hdoing hzero
    rw [gone_iff.mpr ⟨hdoing, hzero⟩] at hhead
    cases hhead

/-- The steps of a call of `datafifo_consumer_remove_head` that the thread has taken. -/
def ConsumerPc.taken : ConsumerPc P → Nat
  | .idle => 0
  | .decref => 1
  | .check _ => 2
  | .unlink => 3

theorem Mark.run_status {call : Call} {m : Mark} {it : DatafifoItem P} : (m.run call it).status = it.status := by
  cases m <;> simp only [Mark.run] <;> split <;> rfl

namespace View
variable [DecidableEq P] [DecidableEq C] {v w : View P C} {p q : P} {c d : C} {a : Action P C} {i : Nat}

/-! ### The head of a producer's list -/

/-- A thread is about to unlink the items of producer `p` that all consumers have given back. -/
def Releasing (v : View P C) (p : P) : Prop := (∃ k, v.ppc p = .check k) ∨ ∃ c, v.cpc c = .check p

/-- An item at the head of a producer's list that all consumers have given back is about to be unlinked. -/
def Swept (v : View P C) : Prop :=
  ∀ p i, (v.producer p).list.head? = some i → (v.producer p).gone i → v.Releasing p

/-- A thread that is about to unlink items of `q` still is after the step, or has unlinked them. -/
theorem Step.releasing (hs : Step v a w) (h : v.Releasing q) :
    w.Releasing q ∨ w.producer q = (v.producer q).sweep := by
  have hppc : ∀ {p pc k}, v.ppc p ≠ .check k → v.ppc q = .check k → Function.update v.ppc p pc q = .check k :=
    fun {p pc k} hne hk => by
      have hqp : q ≠ p := fun e => hne (e ▸ hk)
      rw [Function.update_of_ne hqp, hk]
  have hcpc : ∀ {c d pc}, v.cpc c ≠ .check q → v.cpc d = .check q → Function.update v.cpc c pc d = .check q :=
    fun {c d pc} hne hd => by
      have hdc : d ≠ c := fun e => hne (e ▸ hd)
      rw [Function.update_of_ne hdc, hd]
  rcases h with ⟨k, hk⟩ | ⟨d, hd⟩
  · cases hs with
    | @check p k' pc =>
      by_cases hq : q = p
      · subst hq
        exact Or.inr (Function.update_self ..)
      · exact Or.inl (Or.inl ⟨k, by rw [setPpc_ppc, Function.update_of_ne hq]; exact hk⟩)
    | removeHead | removeNone | decref | checkCon | unlink => exact Or.inl (Or.inl ⟨k, hk⟩)
    | _ => exact Or.inl (Or.inl ⟨k, hppc (by simp [*]) hk⟩)
  · cases hs with
    | @checkCon c p pc =>
      by_cases hq : q = p
      · subst hq
        exact Or.inr (Function.update_self ..)
      · have hne : v.cpc c ≠ .check q := fun e => hq (by rw [pc] at e; cases e; rfl)
        exact Or.inl (Or.inr ⟨d, hcpc hne hd⟩)
    | removeHead pc | decref pc | unlink pc => exact Or.inl (Or.inr ⟨d, hcpc (by rw [pc]; exact nofun) hd⟩)
    | _ => exact Or.inl (Or.inr ⟨d, hd⟩)

/-- An item that is at the head of a list and given back after a step was so before it, or a thread is about to unlink it. -/
theorem Step.gone_head [Fintype C] (hs : Step v a w) (h : Inv v) (hhead : (w.producer q).list.head? = some i)
    (hgone : (w.producer q).gone i) :
    ((v.producer q).list.head? = some i ∧ (v.producer q).gone i) ∨ w.Releasing q ∨
      w.producer q = (v.producer q).sweep := by
  -- A change of an item that is not given back afterwards.
  have hset : ∀ {p j f}, w.producer = Function.update v.producer p ((v.producer p).set j f) →
      ((f ((v.producer p).cells j)).status ≠ .doing ∨ (f ((v.producer p).cells j)).refcnt ≠ 0) →
      (v.producer q).list.head? = some i ∧ (v.producer q).gone i := fun {p j f} hw hf => by
    by_cases hq : q = p
    · subst hq
      rw [hw, Function.update_self] at hhead hgone
      refine ⟨hhead, ?_⟩
      obtain ⟨hdoing, hzero⟩ := Fifo.gone_iff.mp hgone
      have hij : i ≠ j := fun e => by
        rw [e, Fifo.set_cells_self] at hdoing hzero
        rcases hf with hf | hf
        · exact hf hdoing
        · exact hf hzero
      rw [Fifo.set_cells_of_ne _ _ hij] at hdoing hzero
      exact Fifo.gone_iff.mpr ⟨hdoing, hzero⟩
    · rw [hw, Function.update_of_ne hq] at hhead hgone
      exact ⟨hhead, hgone⟩
  have hother : ∀ {p F}, w.producer = Function.update v.producer p F → q ≠ p →
      (v.producer q).list.head? = some i ∧ (v.producer q).gone i := fun {p F} hw hq => by
    rw [hw, Function.update_of_ne hq] at hhead hgone
    exact ⟨hhead, hgone⟩
  have hfilling : ∀ {p t}, (v.ppc p).phase = .filling → (v.producer p).list.getLast? = some t →
      ((v.producer p).cells t).status ≠ .doing := fun hp ht => by
    rw [(h.prod _).tail_filling hp ht]
    exact nofun
  cases hs with
  | alloc => exact Or.inl (hset rfl (Or.inl (by simp [allocItem])))
  | flush => exact Or.inl (hset rfl (Or.inl (by simp [flushItem])))
  | close => exact Or.inl (hset rfl (Or.inl (by simp [readyItem])))
  | mark pc =>
    have hfill := ((h.prod _).own _ (by rw [pc]; rfl)).2.2
    refine Or.inl (hset rfl (Or.inl ?_))
    rw [Mark.run_status, hfill]
    exact nofun
  | copy pc tail => exact Or.inl (hset rfl (Or.inl (hfilling (by rw [pc]; rfl) tail)))
  | grow pc tail => exact Or.inl (hset rfl (Or.inl (hfilling (by rw [pc]; rfl) tail)))
  | @incref p k item cur con rest pc =>
    have hcount := h.count p item
    refine Or.inl (hset rfl (Or.inr ?_))
    simp only [increfItem]
    split at hcount <;> omega
  | @doing p k item pc =>
    by_cases hq : q = p
    · exact Or.inr (Or.inl (Or.inl ⟨k, by rw [hq]; exact Function.update_self ..⟩))
    · exact Or.inl (hother rfl hq)
  | @decref c j p i pc head ref =>
    by_cases hq : q = p
    · exact Or.inr (Or.inl (Or.inr ⟨c, by rw [hq]; exact Function.update_self ..⟩))
    · exact Or.inl (hother rfl hq)
  | @check p k pc =>
    by_cases hq : q = p
    · exact Or.inr (Or.inr (by rw [hq]; exact Function.update_self ..))
    · exact Or.inl (hother rfl hq)
  | @checkCon c p pc =>
    by_cases hq : q = p
    · exact Or.inr (Or.inr (by rw [hq]; exact Function.update_self ..))
    · exact Or.inl (hother rfl hq)
  | @linkOwn p call cur pc =>
    by_cases hq : q = p
    · subst hq
      have hfill := ((h.prod q).own cur (by rw [pc]; rfl)).2.2
      simp only [setPpc_producer, setProducer_producer, Function.update_self, Fifo.push_list] at hhead hgone
      cases hl : (v.producer q).list with
      | nil =>
        rw [hl] at hhead
        obtain rfl : cur = i := Option.some.inj hhead
        have hdoing := (Fifo.gone_iff.mp hgone).1
        rw [Fifo.push_cells, hfill] at hdoing
        cases hdoing
      | cons b l =>
        rw [hl] at hhead
        exact Or.inl ⟨hhead, hgone⟩
    · exact Or.inl (hother rfl hq)
  | _ => exact Or.inl ⟨hhead, hgone⟩

theorem Step.swept [Fintype C] (hs : Step v a w) (h : Inv v) (hv : v.Swept) : w.Swept := by
  intro p i hhead hgone
  have hclean : w.producer p = (v.producer p).sweep → w.Releasing p := fun hw => by
    rw [hw] at hhead hgone
    exact absurd hgone (Fifo.not_gone_sweep hhead)
  rcases hs.gone_head h hhead hgone with ⟨hh, hg⟩ | hr | hw
  · rcases hs.releasing (hv p i hh hg) with hr | hw
    · exact hr
    · exact hclean hw
  · exact hr
  · exact hclean hw

/-! ### What is left to do -/

/-- The steps that consumer `c` takes until its list is empty. -/
def toTake (v : View P C) (c : C) : Nat := 4 * (v.consumer c).list.length - (v.cpc c).taken

/-- A bound for the steps until every call has returned and every list of a consumer is empty. A copy gives four steps
    to its consumer, and takes more than one of the producer. -/
def work [Fintype P] [Fintype C] (v : View P C) : Nat :=
  5 * ∑ p, (v.ppc p).left (v.producer p).consumers.length + ∑ c, v.toTake c

theorem Step.ppc_of_ne (hs : Step v (.producer p) w) (hq : q ≠ p) : w.ppc q = v.ppc q := by
  cases hs <;> exact Function.update_of_ne hq ..

/-- What the consumers have to take grows by one item at most. -/
theorem Step.toTake_le [Fintype C] (hs : Step v (.producer p) w) : ∑ c, w.toTake c ≤ ∑ c, v.toTake c + 4 := by
  have hsame : ∀ {con G}, w.consumer = Function.update v.consumer con G → G.list = (v.consumer con).list →
      w.cpc = v.cpc → ∑ c, w.toTake c ≤ ∑ c, v.toTake c + 4 := fun {con G} hw hl hc => by
    refine le_of_eq_of_le (Finset.sum_congr rfl fun c _ => ?_) (Nat.le_add_right ..)
    rw [toTake, toTake, hc, hw]
    by_cases hcc : c = con
    · subst hcc
      rw [Function.update_self, hl]
    · rw [Function.update_of_ne hcc]
  cases hs with
  | allocCon => exact hsame rfl rfl rfl
  | assign => exact hsame rfl rfl rfl
  | @link _ k item cur con rest pc =>
    have hadd : ∑ c, (v.toTake c + if c = con then 4 else 0) = ∑ c, v.toTake c + 4 := by
      rw [Finset.sum_add_distrib, Finset.sum_ite_eq' Finset.univ con, if_pos (Finset.mem_univ con)]
    rw [← hadd]
    refine Finset.sum_le_sum fun c _ => ?_
    by_cases hcc : c = con
    · subst hcc
      simp only [toTake, setPpc_consumer, setConsumer_consumer, Function.update_self, Fifo.push_list, setPpc_cpc,
        setConsumer_cpc, List.length_append, List.length_cons, List.length_nil, if_true]
      omega
    · simp only [toTake, setPpc_consumer, setConsumer_consumer, Function.update_of_ne hcc, setPpc_cpc, setConsumer_cpc,
        if_neg hcc, Nat.add_zero, Nat.le_refl]
  | _ => exact Nat.le_add_right ..

/-- A step of a thread that is in a call, or that takes an item that is there. -/
def Goes (v : View P C) : Action P C → Prop
  | .dataAdd _ _ => False
  | .removeHead c => (v.consumer c).list ≠ []
  | _ => True

theorem Step.work_lt [Fintype P] [Fintype C] (hs : Step v a w) (h : Inv v) (hg : v.Goes a) : w.work < v.work := by
  have hcons : ∀ q, (w.producer q).consumers = (v.producer q).consumers := fun q => hs.consumers_eq
  -- A step of a consumer leaves the producers' calls where they are.
  have hcon : ∀ {c pc}, w.ppc = v.ppc → w.cpc = Function.update v.cpc c pc → (∀ d, d ≠ c → w.consumer d = v.consumer d) →
      w.toTake c < v.toTake c → w.work < v.work := fun {c pc} hp hc hother hlt => by
    have hsum : ∑ d, w.toTake d < ∑ d, v.toTake d := by
      refine Finset.sum_lt_sum (fun d _ => ?_) ⟨c, Finset.mem_univ c, hlt⟩
      by_cases hd : d = c
      · subst hd
        exact Nat.le_of_lt hlt
      · rw [toTake, toTake, hc, Function.update_of_ne hd, hother d hd]
    simp only [work, hp, hcons]
    omega
  have hbusy : ∀ {c}, v.cpc c ≠ .idle → 0 < (v.consumer c).list.length := fun hne =>
    List.length_pos_of_ne_nil ((h.cons _).busy hne)
  cases a with
  | dataAdd p call => exact hg.elim
  | producer p =>
    have hsum : ∑ q, (w.ppc q).left (w.producer q).consumers.length < ∑ q, (v.ppc q).left (v.producer q).consumers.length := by
      simp only [hcons]
      refine Finset.sum_lt_sum (fun q _ => ?_) ⟨p, Finset.mem_univ p, hs.left_lt⟩
      by_cases hq : q = p
      · subst hq
        exact Nat.le_of_lt hs.left_lt
      · rw [hs.ppc_of_ne hq]
    have htake := hs.toTake_le
    simp only [work]
    omega
  | removeHead c =>
    have hpos : 0 < (v.consumer c).list.length := List.length_pos_of_ne_nil hg
    cases hs with
    | removeHead pc ne =>
      refine hcon rfl rfl (fun _ _ => rfl) ?_
      simp only [toTake, setCpc_consumer, setCpc_cpc, Function.update_self, pc, ConsumerPc.taken]
      omega
    | removeNone pc nil => exact absurd nil hg
  | consumer c =>
    cases hs with
    | decref pc head ref =>
      have hpos := hbusy (c := c) (by rw [pc]; exact nofun)
      refine hcon rfl rfl (fun _ _ => rfl) ?_
      simp only [toTake, setCpc_consumer, setProducer_consumer, setCpc_cpc, Function.update_self, pc, ConsumerPc.taken]
      omega
    | checkCon pc =>
      have hpos := hbusy (c := c) (by rw [pc]; exact nofun)
      refine hcon rfl rfl (fun _ _ => rfl) ?_
      simp only [toTake, setCpc_consumer, setProducer_consumer, setCpc_cpc, Function.update_self, pc, ConsumerPc.taken]
      omega
    | unlink pc =>
      have hpos := hbusy (c := c) (by rw [pc]; exact nofun)
      refine hcon rfl rfl (fun d hd => Function.update_of_ne hd ..) ?_
      simp only [toTake, setCpc_consumer, setConsumer_consumer, setCpc_cpc, Function.update_self, pc, ConsumerPc.taken,
        Fifo.pop_list, List.length_tail]
      omega

theorem Step.itemCnt_eq (hs : Step v a w) :
    (∀ q, (w.producer q).itemCnt = (v.producer q).itemCnt) ∧ ∀ c, (w.consumer c).itemCnt = (v.consumer c).itemCnt := by
  have hprod : ∀ {F : Fifo P C} {p : P}, F.itemCnt = (v.producer p).itemCnt →
      ∀ q, (Function.update v.producer p F q).itemCnt = (v.producer q).itemCnt := fun {F p} hF q => by
    by_cases hq : q = p
    · subst hq
      rw [Function.update_self, hF]
    · rw [Function.update_of_ne hq]
  have hcon : ∀ {G : Fifo P C} {d : C}, G.itemCnt = (v.consumer d).itemCnt →
      ∀ c, (Function.update v.consumer d G c).itemCnt = (v.consumer c).itemCnt := fun {G d} hG c => by
    by_cases hc : c = d
    · subst hc
      rw [Function.update_self, hG]
    · rw [Function.update_of_ne hc]
  cases hs <;> first
    | exact ⟨fun _ => rfl, fun _ => rfl⟩
    | exact ⟨hprod rfl, fun _ => rfl⟩
    | exact ⟨fun _ => rfl, hcon rfl⟩

/-! ### At rest -/

/-- The consumers have taken all that was handed out to them. -/
structure AllTaken (v : View P C) : Prop where
  idle : ∀ c, v.cpc c = .idle
  empty : ∀ c, (v.consumer c).list = []

variable [Fintype C]

theorem AllTaken.liveRefs_eq_nil (h : v.AllTaken) : v.liveRefs c = [] := by
  have hlive : v.live c = [] := List.eq_nil_iff_forall_not_mem.mpr fun j hj => by
    have hmem := live_subset hj
    rw [h.empty] at hmem
    cases hmem
  rw [liveRefs, hlive]
  rfl

theorem AllTaken.refs_eq_zero (h : v.AllTaken) : v.refs p i = 0 :=
  Finset.sum_eq_zero fun c _ => by rw [h.liveRefs_eq_nil, List.count_nil]

/-- When all is taken, the list of a producer whose thread hands nothing out is at most the unfinished frame. -/
theorem AllTaken.filling_of_mem (ht : v.AllTaken) (h : Inv v) (hswept : v.Swept) (hphase : (v.ppc p).phase = .quiet)
    (hi : i ∈ (v.producer p).list) : (v.producer p).list = [i] ∧ ((v.producer p).cells i).status = .filling := by
  have hrel : ¬v.Releasing p := by
    rintro (⟨k, hk⟩ | ⟨c, hc⟩)
    · rw [hk] at hphase
      cases hphase
    · rw [ht.idle c] at hc
      cases hc
  have hcounted : ∀ j, (v.ppc p).counted j = false := fun j => by
    cases hpc : v.ppc p <;> rw [hpc] at hphase <;> first | rfl | cases hphase
  have hp := h.prod p
  cases hl : (v.producer p).list with
  | nil =>
    rw [hl] at hi
    cases hi
  | cons b l =>
    -- Nobody refers to the head, so it has not been handed out; but all items before the tail have.
    have hhead : ((v.producer p).cells b).status ≠ .doing := fun hdoing => by
      have hcount := h.count p b
      rw [ht.refs_eq_zero, hcounted] at hcount
      exact hrel (hswept p b (by rw [hl]; rfl) (Fifo.gone_iff.mpr ⟨hdoing, by simpa using hcount⟩))
    cases l with
    | nil =>
      have hlast : (v.producer p).list.getLast? = some b := by rw [hl]; rfl
      rw [hl, List.mem_singleton] at hi
      subst hi
      have htail := hp.tail
      rw [hphase] at htail
      exact ⟨rfl, (htail i hlast).resolve_right hhead⟩
    | cons b' l =>
      refine absurd (hp.doing b ?_) hhead
      rw [hl, List.dropLast_cons_cons]
      exact List.mem_cons_self ..

end View

namespace Sys
open View
variable [DecidableEq P] [DecidableEq C] [Fintype C] {s t : Sys P C} {log : List (Event P C)} {p : P} {c : C}

/-- The steps that there are when no call with data begins and nobody asks for an item that is not there. -/
def drainStep (s : Sys P C) : Action P C → Option (Sys P C)
  | .dataAdd _ _ => none
  | .removeHead c => if (s.consumer c).list = [] then none else s.removeHead c
  | .producer p => s.producerStep p
  | .consumer c => s.consumerStep c

/-- A bound for the steps until every call has returned and every list of a consumer is empty. -/
def work [Fintype P] (s : Sys P C) : Nat := s.view.work

theorem step_of_drainStep {a : Action P C} (hs : s.drainStep a = some t) : s.step a = some t ∧ s.view.Goes a := by
  cases a with
  | dataAdd p call => cases hs
  | producer p => exact ⟨hs, trivial⟩
  | removeHead c =>
    simp only [drainStep] at hs
    split at hs
    · cases hs
    · next hne => exact ⟨hs, hne⟩
  | consumer c => exact ⟨hs, trivial⟩

/-- A thread in a call of `datafifo_consumer_remove_head` takes its next step. -/
theorem Ok.consumer_goes_on (h : s.Ok) (hbusy : s.cpc c ≠ .idle) : (s.consumerStep c).isSome := by
  have hne : (s.consumer c).list ≠ [] := (h.inv.cons c).busy hbusy
  obtain ⟨b, l, hl⟩ := List.exists_cons_of_ne_nil hne
  rw [Sys.consumerStep]
  cases hpc : s.cpc c with
  | idle => exact absurd hpc hbusy
  | decref =>
    simp only [Option.isSome_map, (h.consumer c).listhead, hl, List.head?_cons, Option.isSome_some]
  | check p =>
    obtain ⟨df, hdf, -⟩ := (h.producer p).removeCheck
    simp only [Option.isSome_map, hdf, Option.isSome_some]
  | unlink =>
    obtain ⟨df, hdf, -⟩ := (h.consumer c).removeHead hl
    simp only [Option.isSome_map, hdf, Option.isSome_some]

/-- Every call has returned; the consumers have seen all frames that were completed, each as often as they are connected;
    and no item is in use but the frame that a producer has not finished. -/
structure Drained (chain : P → List C) (s : Sys P C) (log : List (Event P C)) : Prop where
  producers : ∀ p, s.ppc p = .idle
  consumers : ∀ c, s.cpc c = .idle ∧ (s.consumer c).list = []
  pool : ∀ p, ∀ i < (s.producer p).itemCnt, ((s.producer p).items i).status = .init ∨
    (s.producer p).list = [i] ∧ ((s.producer p).items i).status = .filling
  copies : ∀ c, ∀ j < (s.consumer c).itemCnt, ((s.consumer c).items j).status = .init
  seen : ∀ c p, seenBy c p log = handed ((chain p).count c) (completedBy p log)

/-- Where nothing can go on, all is taken. -/
theorem Ok.allTaken (h : s.Ok) (hstuck : ∀ a, s.drainStep a = none) : s.view.AllTaken := by
  have hidle : ∀ c, s.cpc c = .idle := fun c => by
    by_contra hne
    have hgo := h.consumer_goes_on hne
    rw [show s.consumerStep c = none from hstuck (.consumer c)] at hgo
    cases hgo
  refine ⟨hidle, fun c => ?_⟩
  by_contra hne
  have hgo := hstuck (.removeHead c)
  rw [drainStep, if_neg (show ¬(s.consumer c).list = [] from hne), Sys.removeHead, hidle c] at hgo
  cases hgo

/-- Where nothing can go on, no thread of a producer is in a call, unless it reads a tail that is not there: a full FIFO
    of a consumer would have to be full of copies that other threads make, and a full FIFO of a producer holds items
    that have been handed out. -/
theorem Ok.producers_idle (h : s.Ok) (hswept : s.view.Swept) (hstuck : ∀ a, s.drainStep a = none)
    (htail : ∀ p call, s.ppc p = .tail call → (s.producer p).list ≠ []) (hp : ∀ p, 2 ≤ (s.producer p).itemCnt)
    (hc : ∀ c, 0 < (s.consumer c).itemCnt) : ∀ p, s.ppc p = .idle := by
  have htaken := h.allTaken hstuck
  have hnone : ∀ p, ¬(s.step (.producer p)).isSome := fun p hgo => by
    rw [show s.step (.producer p) = none from hstuck (.producer p)] at hgo
    cases hgo
  intro p
  by_contra hbusy
  refine hnone p (h.producer_goes_on hbusy ?_ (htail p))
  rintro (⟨call, hpc, hfull⟩ | ⟨k, item, con, rest, hpc, hfull⟩)
  · have hI := h.inv.prod p
    have hlisted : ∀ i < (s.producer p).itemCnt, i ∈ (s.producer p).list := fun i hi => by
      by_contra hnot
      refine hfull i hi ((hI.free i hi).mpr ⟨hnot, ?_⟩)
      rw [view_ppc, hpc]
      exact nofun
    have hquiet : (s.view.ppc p).phase = .quiet := by rw [view_ppc, hpc]; rfl
    have hzero := (htaken.filling_of_mem h.inv hswept hquiet (hlisted 0 (lt_of_lt_of_le Nat.zero_lt_two (hp p)))).1
    have hone := (htaken.filling_of_mem h.inv hswept hquiet (hlisted 1 (hp p))).1
    rw [hzero] at hone
    cases hone
  · have hinit := mt ((h.inv.free con 0 (hc con)).mpr) (hfull 0 (hc con))
    rw [htaken.empty con] at hinit
    simp only [List.not_mem_nil, not_false_eq_true, true_and, not_forall, not_not] at hinit
    obtain ⟨q, u, hu, -, -⟩ := hinit
    -- The thread that makes the copy goes on.
    refine hnone q (h.producer_goes_on (fun e => ?_) ?_ fun call e => ?_)
    · rw [view_ppc, e] at hu
      cases hu
    · rintro (⟨call, e, -⟩ | ⟨k', item', con', rest', e, -⟩)
      · rw [view_ppc, e] at hu
        cases hu
      · rw [view_ppc, e] at hu
        cases hu
    · rw [view_ppc, e] at hu
      cases hu

theorem Ok.drained {chain : P → List C} (h : s.Ok) (hd : Delivered chain s.view log) (hswept : s.view.Swept)
    (hstuck : ∀ a, s.drainStep a = none) (hidle : ∀ p, s.ppc p = .idle) : s.Drained chain log := by
  have htaken := h.allTaken hstuck
  refine ⟨hidle, fun c => ⟨htaken.idle c, htaken.empty c⟩, fun p i hi => ?_, fun c j hj => ?_, fun c p => ?_⟩
  · by_cases hmem : i ∈ (s.producer p).list
    · exact Or.inr (htaken.filling_of_mem h.inv hswept (by rw [view_ppc, hidle]; rfl) hmem)
    · refine Or.inl (((h.inv.prod p).free i hi).mpr ⟨hmem, ?_⟩)
      rw [view_ppc, hidle]
      exact nofun
  · refine (h.inv.free c j hj).mpr ⟨?_, fun p u hu => ?_⟩
    · rw [htaken.empty c]
      exact List.not_mem_nil
    · rw [view_ppc, hidle] at hu
      cases hu
  · have hframes := hd.frames c p
    have howed : s.view.owed c p = [] := by
      rw [View.owed, view_ppc, hidle]
      rfl
    rw [View.sent, htaken.liveRefs_eq_nil, howed, List.append_nil] at hframes
    simpa [framesOf] using hframes

/-- What a run keeps. -/
structure Going (pcnt : P → Nat) (ccnt : C → Nat) (chain : P → List C) (r : Sys P C × List (Event P C)) : Prop where
  ok : r.1.Ok
  delivered : Delivered chain r.1.view r.2
  swept : r.1.view.Swept
  producerCnt : ∀ p, (r.1.producer p).itemCnt = pcnt p
  consumerCnt : ∀ c, (r.1.consumer c).itemCnt = ccnt c

variable {pcnt : P → Nat} {ccnt : C → Nat} {chain : P → List C} {r r' : Sys P C × List (Event P C)}

theorem Going.step {a : Action P C} (h : Going pcnt ccnt chain r) (hs : Sys.logged r a = some r') : Going pcnt ccnt chain r' := by
  obtain ⟨t, ht, rfl⟩ := Option.map_eq_some_iff.mp hs
  obtain ⟨hst, hok⟩ := h.ok.refines ht
  obtain ⟨hpcnt, hccnt⟩ := hst.itemCnt_eq
  exact ⟨hok, h.ok.delivered h.delivered ht, hst.swept h.ok.inv h.swept, fun p => (hpcnt p).trans (h.producerCnt p),
    fun c => (hccnt c).trans (h.consumerCnt c)⟩

theorem Going.start (psize : P → Nat) (csize : C → Nat) : Going pcnt ccnt chain (Sys.start psize pcnt csize ccnt chain, []) := by
  refine ⟨Ok.start psize pcnt csize ccnt chain, delivered_start psize pcnt csize ccnt chain, fun p i hhead => ?_,
    fun p => rfl, fun c => rfl⟩
  have hnil : ((Sys.start psize pcnt csize ccnt chain).view.producer p).list = [] := by
    have hinit : ∀ size cnt, (datafifoInit size cnt : Datafifo P C).list = [] := fun size cnt => by cases cnt <;> rfl
    exact hinit (psize p) (pcnt p)
  rw [hnil] at hhead
  cases hhead

/-- The FIFOs do not block and do not lose items. From every state that a run reaches, with pools of two items or more for
    the producers and of one or more for the consumers, any order of the steps that are left without new calls ends after a
    bounded number of them; and where none is left, unless a thread reads a tail that is not there, the calls have returned,
    each frame completed has been seen by the consumers connected, and every item is free again but those of unfinished
    frames. -/
theorem runs_dry [Fintype P] (psize : P → Nat) (csize : C → Nat) (hp : ∀ p, 2 ≤ pcnt p) (hc : ∀ c, 0 < ccnt c)
    (as : List (Action P C)) (s : Sys P C) (log : List (Event P C))
    (h : Exec.exec Sys.logged (Sys.start psize pcnt csize ccnt chain, []) as = some (s, log)) :
    (∀ bs t, Exec.exec drainStep s bs = some t → bs.length ≤ s.work) ∧
    ((∀ a, s.drainStep a = none) → (∀ p call, s.ppc p = .tail call → (s.producer p).list ≠ []) → s.Drained chain log) := by
  obtain ⟨hok, hd, hswept, hpcnt, hccnt⟩ : Going pcnt ccnt chain (s, log) :=
    Exec.exec_invariant (I := Going pcnt ccnt chain) (fun _ _ _ hg hs => hg.step hs) (Going.start psize csize) h
  refine ⟨fun bs t ht => ?_, fun hstuck htail => ?_⟩
  · have hle := Exec.exec_length_le (I := Ok) (m := work) (fun s a t hs hst => ?_) hok ht
    · exact le_trans (Nat.le_add_right ..) hle
    · obtain ⟨hstep, hgoes⟩ := step_of_drainStep hst
      obtain ⟨hv, hok'⟩ := hs.refines hstep
      exact ⟨hok', hv.work_lt hs.inv hgoes⟩
  · exact hok.drained hd hswept hstuck (hok.producers_idle hswept hstuck htail (fun p => (hpcnt p).symm ▸ hp p)
      fun c => (hccnt c).symm ▸ hc c)

/-- A frame is handed out, an unfinished one begun behind it, and the consumer takes the first. -/
def oneTaken : List (Action Unit Unit) :=
  oneFrame ++ .dataAdd () ⟨[8], frameFlagNewframe, 1⟩ :: List.replicate 10 (.producer ()) ++
    .removeHead () :: List.replicate 3 (.consumer ())

theorem runs_dry_oneTaken : ∃ s log, Exec.exec Sys.logged (Sys.start (fun _ => 4) (fun _ => 2) (fun _ => 0) (fun _ => 1)
    (fun _ => [()]), []) oneTaken = some (s, log) ∧ (∀ a, s.drainStep a = none) ∧ s.Drained (fun _ => [()]) log := by
  have hrun : (Exec.exec Sys.logged (Sys.start (fun _ => 4) (fun _ => 2) (fun _ => 0) (fun _ => 1) (fun _ => [()]), [])
      oneTaken).any (fun r => (r.1.drainStep (.producer ())).isNone ∧ (r.1.drainStep (.consumer ())).isNone ∧
        (r.1.drainStep (.removeHead ())).isNone ∧ (r.1.producer ()).list ≠ []) = true := by
    decide +kernel
  obtain ⟨⟨s, log⟩, hs, hr⟩ := (Option.any_eq_true ..).mp hrun
  simp only [decide_eq_true_eq, Option.isNone_iff_eq_none] at hr
  have hstuck : ∀ a, s.drainStep a = none := fun a => by
    cases a with
    | dataAdd p call => rfl
    | producer p => exact hr.1
    | removeHead c => exact hr.2.2.1
    | consumer c => exact hr.2.1
  exact ⟨s, log, hs, hstuck, (runs_dry (fun _ => 4) (fun _ => 0) (fun _ => le_refl 2) (fun _ => Nat.one_pos) oneTaken s log
    hs).2 hstuck fun p call ht => hr.2.2.2⟩

/-- A pool of one item is too small: the next frame waits for the item of the one before, which waits for the next frame. -/
example : (Exec.exec Sys.step single (.dataAdd () ⟨[7], frameFlagNewframe, 0⟩ :: List.replicate 10 (.producer ()) ++
    [.dataAdd () ⟨[8], frameFlagNewframe, 1⟩])).any (fun s => s.ppc () ≠ .idle ∧ (s.producerStep ()).isNone ∧
      (s.consumer ()).list = []) = true := by
  decide +kernel

end Sys
end Recbcsrv
