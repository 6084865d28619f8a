import Recbcsrv.Datafifo.InvStep

/-! The threads of `Thread.lean` refine the machine on queues of cells: under the invariant every step with
    pointers is a step of the view, and it keeps every list well formed. -/

set_option linter.unusedSectionVars false

namespace Recbcsrv
open Datafifo

variable {P C : Type} [DecidableEq P] [DecidableEq C] [Fintype C]

namespace Sys

/-- All lists are well formed, and the view satisfies the invariant. -/
structure Ok (s : Sys P C) : Prop where
  producer : ∀ p, (s.producer p).Wf
  consumer : ∀ c, (s.consumer c).Wf
  inv : s.view.Inv

section
variable {s t : Sys P C} {p : P} {c : C} {df : Datafifo P C} {pc : ProducerPc C}

@[simp] theorem view_producer : s.view.producer p = (s.producer p).abs := rfl
@[simp] theorem view_consumer : s.view.consumer c = (s.consumer c).abs := rfl
@[simp] theorem view_ppc : s.view.ppc = s.ppc := rfl
@[simp] theorem view_cpc : s.view.cpc = s.cpc := rfl

theorem view_setProducer : (s.setProducer p df).view = s.view.setProducer p df.abs := by
  simp only [view, setProducer, View.setProducer, View.mk.injEq, and_true]
  exact funext fun q => by by_cases hq : q = p <;> simp [hq]

theorem view_setConsumer : (s.setConsumer c df).view = s.view.setConsumer c df.abs := by
  simp only [view, setConsumer, View.setConsumer, View.mk.injEq, and_true, true_and]
  exact funext fun q => by by_cases hq : q = c <;> simp [hq]

theorem view_setPpc : (s.setPpc p pc).view = s.view.setPpc p pc := rfl

theorem view_setCpc {pc : ConsumerPc P} : (s.setCpc c pc).view = s.view.setCpc c pc := rfl

/-- A step that changes one producer FIFO is the step of the view that changes its queue. -/
theorem Ok.of_producer (h : s.Ok) (hw : df.Wf) {a : Action P C}
    (hs : View.Step s.view a ((s.view.setProducer p df.abs).setPpc p pc)) :
    View.Step s.view a ((s.setProducer p df).setPpc p pc).view ∧ ((s.setProducer p df).setPpc p pc).Ok := by
  have hv : ((s.setProducer p df).setPpc p pc).view = (s.view.setProducer p df.abs).setPpc p pc := by
    rw [view_setPpc, view_setProducer]
  refine ⟨hv ▸ hs, fun q => ?_, h.consumer, hv ▸ h.inv.step hs⟩
  by_cases hq : q = p
  · subst hq
    simpa [setPpc, setProducer] using hw
  · simpa [setPpc, setProducer, hq] using h.producer q

theorem Ok.of_consumer (h : s.Ok) (hw : df.Wf) {a : Action P C}
    (hs : View.Step s.view a ((s.view.setConsumer c df.abs).setPpc p pc)) :
    View.Step s.view a ((s.setConsumer c df).setPpc p pc).view ∧ ((s.setConsumer c df).setPpc p pc).Ok := by
  have hv : ((s.setConsumer c df).setPpc p pc).view = (s.view.setConsumer c df.abs).setPpc p pc := by
    rw [view_setPpc, view_setConsumer]
  refine ⟨hv ▸ hs, h.producer, fun d => ?_, hv ▸ h.inv.step hs⟩
  by_cases hd : d = c
  · subst hd
    simpa [setPpc, setConsumer] using hw
  · simpa [setPpc, setConsumer, hd] using h.consumer d

theorem Ok.of_ppc (h : s.Ok) {a : Action P C} (hs : View.Step s.view a (s.view.setPpc p pc)) :
    View.Step s.view a (s.setPpc p pc).view ∧ (s.setPpc p pc).Ok :=
  ⟨hs, h.producer, h.consumer, h.inv.step hs⟩

theorem Ok.of_cpc (h : s.Ok) {pc : ConsumerPc P} {a : Action P C} (hs : View.Step s.view a (s.view.setCpc c pc)) :
    View.Step s.view a (s.setCpc c pc).view ∧ (s.setCpc c pc).Ok :=
  ⟨hs, h.producer, h.consumer, h.inv.step hs⟩

/-- The tail of a producer's list is on the list, so it is in use. -/
theorem Ok.tail_ne_init (h : s.Ok) {t : Nat} (ht : (s.producer p).list.getLast? = some t) :
    ((s.producer p).items t).status ≠ .init :=
  (h.inv.prod p).status_ne_init (View.ProducerInv.tail_mem (F := (s.producer p).abs) ht)

/-- A change of an item in use of the producer. -/
theorem Ok.of_setItem (h : s.Ok) {a : Action P C} {i : Nat} {f : DatafifoItem P → DatafifoItem P}
    (hi : ((s.producer p).items i).status ≠ .init) (hf : ∀ it, (f it).next = it.next ∧ (f it).prev = it.prev ∧
      (f it).unlinked = f it.unlinked)
    (hs : View.Step s.view a ((s.view.setProducer p ((s.view.producer p).set i f)).setPpc p pc)) :
    View.Step s.view a ((s.setProducer p ((s.producer p).setItem i f)).setPpc p pc).view ∧
      ((s.setProducer p ((s.producer p).setItem i f)).setPpc p pc).Ok := by
  obtain ⟨hw, habs⟩ := (h.producer p).setItem (f := f) hi (hf _).1 (hf _).2.1 fun it => (hf it).2.2
  refine h.of_producer hw ?_
  rw [habs]
  exact hs

theorem Ok.producerStep (h : s.Ok) (hs : s.producerStep p = some t) :
    View.Step s.view (.producer p) t.view ∧ t.Ok := by
  have hw := h.producer p
  have hp := h.inv.prod p
  unfold Sys.producerStep at hs
  dsimp only at hs
  split at hs
  case h_1 => cases hs
  case h_2 call hpc =>
    obtain ⟨⟨df', i⟩, hal, rfl⟩ := Option.map_eq_some_iff.mp hs
    obtain ⟨hlt, hfree, rfl⟩ := datafifoAlloc_eq_some hal
    have hi : i ∉ (s.producer p).list := ((hp.free i hlt).mp hfree).1
    obtain ⟨hw', habs⟩ := hw.setFresh (f := allocItem) hi rfl rfl fun _ => rfl
    refine h.of_producer hw' ?_
    rw [habs]
    exact .alloc hpc hlt hfree
  case h_3 call cur hpc =>
    rw [hw.listtail] at hs
    cases ht : (s.producer p).list.getLast? with
    | none =>
      rw [ht] at hs
      cases hs
      exact h.of_ppc (.flushNone hpc fun t e => by simp [ht] at e)
    | some t =>
      rw [ht] at hs
      split at hs
      · next e => cases e
      · next t' e =>
        cases e
        split at hs
        · next hfill =>
          cases hs
          exact h.of_setItem (h.tail_ne_init ht) (fun _ => ⟨rfl, rfl, rfl⟩) (.flush hpc ht hfill)
        · next hfill =>
          cases hs
          refine h.of_ppc (.flushNone hpc fun t e => ?_)
          simp only [view_producer, abs_list, ht, Option.mem_def, Option.some.injEq] at e
          exact e ▸ hfill
  case h_4 k item con rest hpc =>
    obtain ⟨⟨df', j⟩, hal, rfl⟩ := Option.map_eq_some_iff.mp hs
    obtain ⟨hlt, hfree, rfl⟩ := datafifoAlloc_eq_some hal
    have hj : j ∉ (s.consumer con).list := ((h.inv.free con j hlt).mp hfree).1
    obtain ⟨hw', habs⟩ := (h.consumer con).setFresh (f := allocItem) hj rfl rfl fun _ => rfl
    refine h.of_consumer hw' ?_
    rw [habs]
    exact .allocCon hpc hlt hfree
  case h_5 k item hpc =>
    cases hs
    rw [view_ppc, hpc] at hp
    exact h.of_setItem (h.tail_ne_init hp.tail.1) (fun _ => ⟨rfl, rfl, rfl⟩) (.doing hpc)
  case h_6 k item con cur a todo rest hpc =>
    cases hs
    obtain ⟨hlt, hcur, hstatus⟩ := h.inv.held p ⟨item, con, cur, a :: todo⟩ (by rw [view_ppc, hpc]; rfl)
    obtain ⟨hn, hpr⟩ := (h.consumer con).fresh cur hcur hstatus
    obtain ⟨hw', habs⟩ := (h.consumer con).setFresh (f := fun it => a.run p item ((s.producer p).items item) it) hcur
      (by cases a <;> first | exact hn | rfl) (by cases a <;> first | exact hpr | rfl) (fun _ => by cases a <;> rfl)
    refine h.of_consumer hw' ?_
    have hsrc : (fun it : DatafifoItem P => a.run p item ((s.producer p).items item) it) =
        fun it => a.run p item (((s.producer p).abs).cells item) it := funext fun it => by cases a <;> rfl
    rw [habs, hsrc]
    exact .assign hpc
  case h_7 k item con cur rest hpc =>
    cases hs
    rw [view_ppc, hpc] at hp
    exact h.of_setItem (h.tail_ne_init hp.tail.1) (fun _ => ⟨rfl, rfl, rfl⟩) (.incref hpc)
  case h_8 k item con cur rest hpc =>
    obtain ⟨df', hadd, rfl⟩ := Option.map_eq_some_iff.mp hs
    obtain ⟨hlt, hcur, hstatus⟩ := h.inv.held p ⟨item, con, cur, []⟩ (by rw [view_ppc, hpc]; rfl)
    obtain ⟨df'', hadd', hw', habs⟩ := (h.consumer con).addtail hcur hlt hstatus
    rw [hadd] at hadd'
    cases hadd'
    refine h.of_consumer hw' ?_
    rw [habs]
    exact .link hpc
  case h_9 k hpc =>
    obtain ⟨df', hrm, rfl⟩ := Option.map_eq_some_iff.mp hs
    obtain ⟨df'', hrm', hw', habs⟩ := hw.removeCheck
    rw [hrm] at hrm'
    cases hrm'
    refine h.of_producer hw' ?_
    rw [habs]
    exact .check hpc
  case h_10 call cur m todo hpc =>
    cases hs
    rw [view_ppc, hpc] at hp
    have hfill : ((s.producer p).items cur).status = .filling := (hp.own cur rfl).2.2
    have hrun : ∀ it : DatafifoItem P, (m.run call it).next = it.next ∧ (m.run call it).prev = it.prev ∧
        (m.run call it).unlinked = m.run call it.unlinked := fun it => by
      cases m
      case timestamp => exact ⟨rfl, rfl, rfl⟩
      all_goals
        simp only [Mark.run]
        split <;> exact ⟨rfl, rfl, rfl⟩
    exact h.of_setItem (by simp [hfill]) hrun (.mark hpc)
  case h_11 call cur hpc =>
    obtain ⟨df', hadd, rfl⟩ := Option.map_eq_some_iff.mp hs
    rw [view_ppc, hpc] at hp
    obtain ⟨hlt, hcur, hfill⟩ := hp.own cur rfl
    rw [view_producer, abs_status] at hfill
    obtain ⟨df'', hadd', hw', habs⟩ := hw.addtail hcur hlt (by simp [hfill])
    rw [hadd] at hadd'
    cases hadd'
    refine h.of_producer hw' ?_
    rw [habs]
    exact .linkOwn hpc
  case h_12 call hpc =>
    rw [hw.listtail] at hs
    obtain ⟨t, ht, rfl⟩ := Option.map_eq_some_iff.mp hs
    exact h.of_ppc (.tail hpc ht)
  case h_13 call hpc =>
    rw [hw.listtail] at hs
    obtain ⟨t, ht, rfl⟩ := Option.map_eq_some_iff.mp hs
    exact h.of_ppc (.room hpc ht)
  case h_14 call hpc =>
    rw [hw.listtail] at hs
    obtain ⟨t, ht, rfl⟩ := Option.map_eq_some_iff.mp hs
    exact h.of_setItem (h.tail_ne_init ht) (fun _ => ⟨rfl, rfl, rfl⟩) (.copy hpc ht)
  case h_15 call hpc =>
    rw [hw.listtail] at hs
    obtain ⟨t, ht, rfl⟩ := Option.map_eq_some_iff.mp hs
    exact h.of_setItem (h.tail_ne_init ht) (fun _ => ⟨rfl, rfl, rfl⟩) (.grow hpc ht)
  case h_16 call hpc =>
    split at hs
    · next hend =>
      rw [hw.listtail] at hs
      obtain ⟨t, ht, rfl⟩ := Option.map_eq_some_iff.mp hs
      exact h.of_setItem (h.tail_ne_init ht) (fun _ => ⟨rfl, rfl, rfl⟩) (.close hpc hend ht)
    · next hend =>
      cases hs
      exact h.of_ppc (.closeOpen hpc hend)

theorem Ok.removeHead (h : s.Ok) (hs : s.removeHead c = some t) :
    View.Step s.view (.removeHead c) t.view ∧ t.Ok := by
  have hw := h.consumer c
  unfold Sys.removeHead at hs
  split at hs
  case h_1 hpc =>
    cases hs
    rw [hw.listhead]
    cases hl : (s.consumer c).list with
    | nil => exact ⟨.removeNone hpc hl, h⟩
    | cons a l => exact h.of_cpc (.removeHead hpc (by simp [hl]))
  case h_2 => cases hs

theorem Ok.consumerStep (h : s.Ok) (hs : s.consumerStep c = some t) :
    View.Step s.view (.consumer c) t.view ∧ t.Ok := by
  have hw := h.consumer c
  unfold Sys.consumerStep at hs
  dsimp only at hs
  split at hs
  case h_1 => cases hs
  case h_2 hpc =>
    rw [hw.listhead] at hs
    obtain ⟨j, hj, rfl⟩ := Option.map_eq_some_iff.mp hs
    have hlive : j ∈ s.view.live c := by
      simp only [View.live, view_cpc, hpc, ConsumerPc.dropped, view_consumer, abs_list]
      exact List.mem_of_head? hj
    obtain ⟨p, i, hcp, hk⟩ := h.inv.live c j hlive
    have href : ((s.consumer c).items j).ref = some (p, i) := hcp.ref
    have hne : ((s.producer p).items i).status ≠ .init := (h.inv.prod p).status_ne_init hk.mem
    obtain ⟨hw', habs⟩ := (h.producer p).setItem (f := decrefItem) hne rfl rfl fun _ => rfl
    have hv : ((s.setProducer p ((s.producer p).setItem i decrefItem)).setCpc c (.check p)).view =
        (s.view.setProducer p ((s.view.producer p).set i decrefItem)).setCpc c (.check p) := by
      rw [view_setCpc, view_setProducer, habs]
      rfl
    have hstep : View.Step s.view (.consumer c) _ := .decref hpc hj href
    simp only [href]
    rw [hv]
    refine ⟨hstep, fun q => ?_, h.consumer, hv ▸ h.inv.step hstep⟩
    by_cases hq : q = p
    · subst hq
      simpa [setCpc, setProducer] using hw'
    · simpa [setCpc, setProducer, hq] using h.producer q
  case h_3 p hpc =>
    obtain ⟨df', hrm, rfl⟩ := Option.map_eq_some_iff.mp hs
    obtain ⟨df'', hrm', hw', habs⟩ := (h.producer p).removeCheck
    rw [hrm] at hrm'
    cases hrm'
    have hv : ((s.setProducer p df').setCpc c .unlink).view =
        (s.view.setProducer p (s.view.producer p).sweep).setCpc c .unlink := by
      rw [view_setCpc, view_setProducer, habs]
      rfl
    have hstep : View.Step s.view (.consumer c) _ := .checkCon hpc
    rw [hv]
    refine ⟨hstep, fun q => ?_, h.consumer, hv ▸ h.inv.step hstep⟩
    by_cases hq : q = p
    · subst hq
      simpa [setCpc, setProducer] using hw'
    · simpa [setCpc, setProducer, hq] using h.producer q
  case h_4 hpc =>
    obtain ⟨df', hrm, rfl⟩ := Option.map_eq_some_iff.mp hs
    have hne : (s.consumer c).list ≠ [] := (h.inv.cons c).busy (by simp [hpc])
    obtain ⟨a, l, hl⟩ := List.exists_cons_of_ne_nil hne
    obtain ⟨df'', hrm', hw', habs⟩ := hw.removeHead hl
    rw [hrm] at hrm'
    cases hrm'
    have hv : ((s.setConsumer c df').setCpc c .idle).view =
        (s.view.setConsumer c (s.view.consumer c).pop).setCpc c .idle := by
      rw [view_setCpc, view_setConsumer, habs]
      rfl
    have hstep : View.Step s.view (.consumer c) _ := .unlink hpc
    rw [hv]
    refine ⟨hstep, h.producer, fun d => ?_, hv ▸ h.inv.step hstep⟩
    by_cases hd : d = c
    · subst hd
      simpa [setCpc, setConsumer] using hw'
    · simpa [setCpc, setConsumer, hd] using h.consumer d

theorem Ok.dataAdd (h : s.Ok) {call : Call} (hs : s.dataAdd p call = some t) :
    View.Step s.view (.dataAdd p call) t.view ∧ t.Ok := by
  unfold Sys.dataAdd at hs
  split at hs
  case h_1 hpc =>
    cases hs
    exact h.of_ppc (.dataAdd hpc)
  case h_2 => cases hs

/-- Every step refines a step of the view, and leads to a state of the same kind. -/
theorem Ok.refines (h : s.Ok) {a : Action P C} (hs : s.step a = some t) : View.Step s.view a t.view ∧ t.Ok := by
  cases a with
  | dataAdd p call => exact h.dataAdd hs
  | producer p => exact h.producerStep hs
  | removeHead c => exact h.removeHead hs
  | consumer c => exact h.consumerStep hs

theorem Ok.step (h : s.Ok) {a : Action P C} (hs : s.step a = some t) : t.Ok := (h.refines hs).2

theorem Ok.exec (h : s.Ok) {as : List (Action P C)} (hs : Exec.exec Sys.step s as = some t) : t.Ok :=
  Exec.exec_invariant (I := Ok) (fun _ _ _ h hs => h.step hs) h hs

end

/-- The state after `datafifo_init` and `datafifo_connect` is good. -/
theorem Ok.start (psize pcnt : P → Nat) (csize ccnt : C → Nat) (chain : P → List C) :
    (Sys.start psize pcnt csize ccnt chain).Ok := by
  have hlist : ∀ size cnt, (datafifoInit size cnt : Datafifo P C).list = [] := fun size cnt => by
    cases cnt <;> rfl
  have hplist : ∀ p, ((Sys.start psize pcnt csize ccnt chain).producer p).list = [] := fun p => hlist (psize p) (pcnt p)
  have hclist : ∀ c, ((Sys.start psize pcnt csize ccnt chain).consumer c).list = [] := fun c => hlist (csize c) (ccnt c)
  have hwp : ∀ p, ((Sys.start psize pcnt csize ccnt chain).producer p).Wf := fun p => by
    obtain ⟨hrep, hfresh⟩ := Wf.init (P := P) (C := C) (psize p) (pcnt p)
    exact ⟨⟨hrep.linked, hrep.pool⟩, hfresh⟩
  refine ⟨hwp, fun c => Wf.init (csize c) (ccnt c), ?_⟩
  refine ⟨fun p => ?_, fun c => ?_, fun c j hj => ?_, fun p u hu => ?_, fun p q u u' hu => ?_, fun p u hu => ?_,
    fun c j hj => ?_, fun p i => ?_⟩
  · refine ⟨by simp [hplist], by simp [hplist], fun i hi => ?_, fun i hi => ?_, by simp [hplist], ?_, fun i => Nat.zero_le _,
      by simp [hplist], fun i => ⟨_, rfl, by simp [Sys.start, datafifoInit]⟩⟩
    · exact iff_of_true rfl ⟨by simp [hplist], by simp [Sys.start, ProducerPc.own?]⟩
    · cases hi
    · intro t ht
      simp [hplist] at ht
  · exact ⟨by simp [hclist], by simp [hclist], by simp [hclist], fun hb => absurd rfl hb⟩
  · exact iff_of_true rfl ⟨by simp [hclist], fun p u hu => by cases hu⟩
  · cases hu
  · cases hu
  · cases hu
  · exact absurd (View.live_subset hj) (by simp [hclist])
  · have hrefs : (Sys.start psize pcnt csize ccnt chain).view.refs p i = 0 := by
      have hl : ∀ c, (Sys.start psize pcnt csize ccnt chain).view.live c = [] := fun c => by
        simp [View.live, hclist]
      simp [View.refs, View.liveRefs, hl]
    rw [hrefs]
    rfl

end Sys
end Recbcsrv
