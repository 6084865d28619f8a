import Mathlib.Algebra.Order.BigOperators.Group.Finset
import Recbcsrv.Datafifo.View

/-! The invariant holds after every step of the thread machine: first what one operation on a FIFO does to
    the part of the invariant about that FIFO, then the steps by what they touch. -/

set_option linter.unusedSectionVars false

namespace Recbcsrv
open Datafifo

variable {P C : Type}

namespace View

/-! ### One producer FIFO -/

section
variable {F F' : Fifo P C} {pc pc' : ProducerPc C} {i x : Nat} {f : DatafifoItem P → DatafifoItem P}

/-- The frame in cell `i` is the same in both FIFOs. -/
structure SameFrame (F F' : Fifo P C) (i : Nat) : Prop where
  data : (F'.cells i).data = (F.cells i).data
  len : (F'.cells i).len = (F.cells i).len
  flags : (F'.cells i).flags = (F.cells i).flags
  timestamp : (F'.cells i).timestamp = (F.cells i).timestamp

theorem SameFrame.of_eq (h : F'.cells i = F.cells i) : SameFrame F F' i := by
  constructor <;> rw [h]

theorem SameFrame.sweep : SameFrame F F.sweep i where
  data := Fifo.release_field _ fun _ _ => rfl
  len := Fifo.release_field _ fun _ _ => rfl
  flags := Fifo.release_field _ fun _ _ => rfl
  timestamp := Fifo.release_field _ fun _ _ => rfl

theorem SameFrame.set_of_ne (h : i ≠ x) : SameFrame F (F.set x f) i := .of_eq (Fifo.set_cells_of_ne _ _ h)

/-- A copy of a frame stays one while the frame is the same. -/
theorem Copy.mono {p : P} {it : DatafifoItem P} (h : Copy F p i it) (hs : SameFrame F F' i) : Copy F' p i it where
  ref := h.ref
  data := h.data
  len := h.len.trans hs.len.symm
  flags := h.flags.trans hs.flags.symm
  timestamp := h.timestamp.trans hs.timestamp.symm
  status := h.status

namespace ProducerInv

theorem status_ne_init (h : ProducerInv F pc) (hi : i ∈ F.list) : (F.cells i).status ≠ .init := fun e =>
  ((h.free i (h.pool i hi)).mp e).1 hi

theorem tail_mem (ht : F.list.getLast? = some x) : x ∈ F.list := List.mem_of_getLast? ht

theorem tail_filling (h : ProducerInv F pc) (hphase : pc.phase = .filling) (ht : F.list.getLast? = some x) :
    (F.cells x).status = .filling := by
  have htail := h.tail
  rw [hphase] at htail
  obtain ⟨t, ht', hfill⟩ := htail
  rwa [Option.some.inj (ht.symm.trans ht')]

theorem tail_notMem_dropLast (h : ProducerInv F pc) (ht : F.list.getLast? = some x) : x ∉ F.list.dropLast := by
  intro hx
  have hne : F.list ≠ [] := List.ne_nil_of_mem (tail_mem ht)
  have hl := List.dropLast_append_getLast hne
  have hnd := h.nodup
  rw [← hl, List.nodup_append] at hnd
  rw [List.getLast?_eq_some_getLast hne] at ht
  exact hnd.2.2 x hx x (by simpa using (Option.some.inj ht).symm) rfl

theorem doing_or_tail (h : ProducerInv F pc) (hi : i ∈ F.list) :
    (F.cells i).status = .doing ∨ F.list.getLast? = some i := by
  have hne : F.list ≠ [] := List.ne_nil_of_mem hi
  rw [← List.dropLast_append_getLast hne] at hi
  rcases List.mem_append.mp hi with hi | hi
  · exact Or.inl (h.doing i hi)
  · right
    rw [List.getLast?_eq_some_getLast hne, List.mem_singleton.mp hi]

theorem congr_pc (h : ProducerInv F pc) (hown : pc'.own? = pc.own?) (htail : TailOk F pc'.phase)
    (hroom : ∀ t ∈ F.list.getLast?, (F.cells t).len + pc'.pending ≤ F.dataMaxlen) : ProducerInv F pc' where
  nodup := h.nodup
  pool := h.pool
  free i hi := hown ▸ h.free i hi
  own i hi := h.own i (hown ▸ hi)
  doing := h.doing
  tail := htail
  len := h.len
  room := hroom
  buf := h.buf

theorem set (h : ProducerInv F pc) (hown : pc'.own? = pc.own?) (hi : (F.cells i).status ≠ .init)
    (hi' : (f (F.cells i)).status ≠ .init) (hfill : pc.own? = some i → (f (F.cells i)).status = .filling)
    (hdoing : i ∈ F.list.dropLast → (f (F.cells i)).status = .doing) (htail : TailOk (F.set i f) pc'.phase)
    (hlen : (f (F.cells i)).len ≤ F.dataMaxlen)
    (hroom : ∀ t ∈ F.list.getLast?, ((F.set i f).cells t).len + pc'.pending ≤ F.dataMaxlen)
    (hbuf : ∃ b, (f (F.cells i)).data = .own b ∧ b.length = F.dataMaxlen) : ProducerInv (F.set i f) pc' where
  nodup := h.nodup
  pool := h.pool
  free j hj := by
    rw [hown, Fifo.set_cells]
    split
    · next e =>
      subst e
      exact iff_of_false hi' fun hn => hi ((h.free j hj).mpr hn)
    · exact h.free j hj
  own j hj := by
    obtain ⟨hlt, hnl, hs⟩ := h.own j (hown ▸ hj)
    refine ⟨hlt, hnl, ?_⟩
    rw [Fifo.set_cells]
    split
    · next e => exact hfill (e ▸ hown ▸ hj)
    · exact hs
  doing j hj := by
    rw [Fifo.set_cells]
    split
    · next e => exact hdoing (e ▸ hj)
    · exact h.doing j hj
  tail := htail
  len j := by
    rw [Fifo.set_cells]
    split
    · exact hlen
    · exact h.len j
  room := hroom
  buf j := by
    rw [Fifo.set_cells]
    split
    · exact hbuf
    · exact h.buf j

theorem set_other (h : ProducerInv F pc) (hs : ∀ it, (f it).status = it.status) (hl : ∀ it, (f it).len = it.len)
    (hd : ∀ it, (f it).data = it.data) : ProducerInv (F.set i f) pc := by
  have hstatus : ∀ j, ((F.set i f).cells j).status = (F.cells j).status := fun j => F.set_field i j f _ (hs _)
  have hlen : ∀ j, ((F.set i f).cells j).len = (F.cells j).len := fun j => F.set_field i j f _ (hl _)
  have hdata : ∀ j, ((F.set i f).cells j).data = (F.cells j).data := fun j => F.set_field i j f _ (hd _)
  have htail : TailOk (F.set i f) pc.phase := by
    have := h.tail
    cases hp : pc.phase <;> rw [hp] at this <;> simpa only [TailOk, Fifo.set_list, hstatus] using this
  exact {
    nodup := h.nodup
    pool := h.pool
    free := fun j hj => by rw [hstatus]; exact h.free j hj
    own := fun j hj => by rw [hstatus]; exact h.own j hj
    doing := fun j hj => by rw [hstatus]; exact h.doing j hj
    tail := htail
    len := fun j => by rw [hlen]; exact h.len j
    room := fun t ht => by rw [hlen]; exact h.room t ht
    buf := fun j => by rw [hdata]; exact h.buf j }

theorem alloc (h : ProducerInv F pc) (hown : pc.own? = none) (hown' : pc'.own? = some i) (hlt : i < F.itemCnt)
    (hfree : (F.cells i).status = .init) (hphase : pc'.phase = pc.phase) (hpend : pc'.pending = 0) :
    ProducerInv (F.set i allocItem) pc' := by
  have hi : i ∉ F.list := ((h.free i hlt).mp hfree).1
  have hne : ∀ {j}, j ∈ F.list → j ≠ i := fun hj e => hi (e ▸ hj)
  have hcell : ∀ {j}, j ∈ F.list → (F.set i allocItem).cells j = F.cells j := fun hj =>
    Fifo.set_cells_of_ne _ _ (hne hj)
  have hlast : ∀ {t}, F.list.getLast? = some t → (F.set i allocItem).cells t = F.cells t := fun ht => hcell (tail_mem ht)
  have htail : TailOk (F.set i allocItem) pc'.phase := by
    have := h.tail
    rw [hphase]
    cases hp : pc.phase <;> rw [hp] at this <;> simp only [TailOk, Fifo.set_list] at this ⊢
    · exact fun t ht => by rw [hlast ht]; exact this t ht
    · exact ⟨this.1, by rw [hlast this.1]; exact this.2⟩
    · exact fun t ht => by rw [hlast ht]; exact this t ht
    · obtain ⟨t, ht, hs⟩ := this
      exact ⟨t, ht, by rw [hlast ht]; exact hs⟩
  refine ⟨h.nodup, h.pool, fun j hj => ?_, fun j hj => ?_, fun j hj => ?_, htail, fun j => ?_, fun t ht => ?_, fun j => ?_⟩
  · rw [Fifo.set_cells, hown']
    split
    · next e =>
      subst e
      exact iff_of_false (by simp [allocItem]) fun hn => hn.2 rfl
    · next e =>
      rw [h.free j hj, hown]
      simp [Ne.symm e]
  · rw [hown'] at hj
    cases hj
    exact ⟨hlt, hi, by rw [Fifo.set_cells_self]; rfl⟩
  · rw [hcell (List.dropLast_subset _ hj)]
    exact h.doing j hj
  · rw [Fifo.set_cells]
    split
    · exact Nat.zero_le _
    · exact h.len j
  · rw [hlast ht, hpend]
    exact h.len t
  · rw [Fifo.set_cells]
    split
    · exact h.buf i
    · exact h.buf j

theorem push (h : ProducerInv F pc) (hown : pc.own? = some x) (hown' : pc'.own? = none) (hset : pc.phase = .settled)
    (hphase : pc'.phase = .filling) (hpend : pc'.pending = 0) : ProducerInv (F.push x) pc' := by
  obtain ⟨hlt, hx, hfill⟩ := h.own x hown
  have hdoing : ∀ j ∈ F.list, (F.cells j).status = .doing := fun j hj => by
    have ht := h.tail
    rw [hset] at ht
    exact (h.doing_or_tail hj).elim id (ht j)
  refine ⟨?_, fun j hj => ?_, fun j hj => ?_, fun j hj => ?_, fun j hj => ?_, ?_, h.len, fun t ht => ?_, h.buf⟩
  · rw [Fifo.push_list, List.nodup_append]
    exact ⟨h.nodup, List.nodup_singleton x, fun a ha b hb e => hx (List.mem_singleton.mp hb ▸ e ▸ ha)⟩
  · rcases List.mem_append.mp hj with hj | hj
    · exact h.pool j hj
    · exact List.mem_singleton.mp hj ▸ hlt
  · rw [Fifo.push_cells, h.free j hj, hown, hown', Fifo.push_list]
    simp [eq_comm]
  · rw [hown'] at hj
    cases hj
  · rw [Fifo.push_list, List.dropLast_concat] at hj
    exact hdoing j hj
  · rw [hphase]
    exact ⟨x, by simp, hfill⟩
  · rw [hpend]
    exact h.len t

theorem sweep (h : ProducerInv F pc) : ProducerInv F.sweep pc := by
  have hstatus : ∀ {j}, j ∈ F.sweep.list → (F.sweep.cells j).status = (F.cells j).status := fun {j} hj => by
    have hnd := h.nodup
    rw [← Fifo.takeWhile_append_sweep, List.nodup_append] at hnd
    exact congrArg _ (Fifo.release_of_notMem fun e => hnd.2.2 j e j hj rfl)
  have hlen : ∀ j, (F.sweep.cells j).len = (F.cells j).len := fun j => SameFrame.sweep.len
  have hlast : ∀ {t}, F.sweep.list.getLast? = some t → t ∈ F.sweep.list := fun ht => List.mem_of_getLast? ht
  have hkeep : ∀ {t}, F.list.getLast? = some t → (F.cells t).status ≠ .doing → F.sweep.list.getLast? = some t :=
    fun ht hs => Fifo.sweep_getLast? ht fun hg => hs (Fifo.gone_iff.mp hg).1
  have htail : TailOk F.sweep pc.phase := by
    have := h.tail
    cases hp : pc.phase <;> rw [hp] at this <;> simp only [TailOk] at this ⊢
    · exact fun t ht => by rw [hstatus (hlast ht)]; exact this t (Fifo.getLast?_of_sweep ht)
    · have ht := hkeep this.1 (by rw [this.2]; simp)
      exact ⟨ht, by rw [hstatus (hlast ht)]; exact this.2⟩
    · exact fun t ht => by rw [hstatus (hlast ht)]; exact this t (Fifo.getLast?_of_sweep ht)
    · obtain ⟨t, ht, hs⟩ := this
      have ht := hkeep ht (by rw [hs]; simp)
      exact ⟨t, ht, by rw [hstatus (hlast ht)]; exact hs⟩
  refine ⟨h.nodup.sublist (List.dropWhile_sublist _), fun i hi => h.pool i (Fifo.mem_of_mem_sweep hi), fun i hi => ?_,
    fun i hi => ?_, fun i hi => ?_, htail, fun i => ?_, fun t ht => ?_, fun i => ?_⟩
  · by_cases hg : i ∈ F.list.takeWhile F.gone
    · have hnd := h.nodup
      rw [← Fifo.takeWhile_append_sweep, List.nodup_append] at hnd
      have hmem : i ∈ F.list := (List.takeWhile_sublist _).subset hg
      refine iff_of_true (Fifo.release_of_mem hg) ⟨fun e => hnd.2.2 i hg i e rfl, fun e => ?_⟩
      exact (h.own i e).2.1 hmem
    · rw [show F.sweep.cells i = F.cells i from Fifo.release_of_notMem hg, h.free i hi]
      have : i ∈ F.sweep.list ↔ i ∈ F.list := by
        constructor
        · exact Fifo.mem_of_mem_sweep
        · intro hm
          rw [← Fifo.takeWhile_append_sweep] at hm
          exact (List.mem_append.mp hm).resolve_left hg
      rw [this]
  · obtain ⟨hlt, hnl, hs⟩ := h.own i hi
    refine ⟨hlt, fun e => hnl (Fifo.mem_of_mem_sweep e), ?_⟩
    rw [show F.sweep.cells i = F.cells i from Fifo.release_of_notMem fun e => hnl ((List.takeWhile_sublist _).subset e)]
    exact hs
  · rw [hstatus (List.dropLast_subset _ hi)]
    refine h.doing i ?_
    rw [← Fifo.takeWhile_append_sweep, List.dropLast_append_of_ne_nil (List.ne_nil_of_mem (List.dropLast_subset _ hi))]
    exact List.mem_append_right _ hi
  · rw [hlen]
    exact h.len i
  · rw [hlen]
    exact h.room t (Fifo.getLast?_of_sweep ht)
  · rw [SameFrame.sweep.data]
    exact h.buf i

end ProducerInv
end

/-! ### Live references -/

section
variable [DecidableEq P] [DecidableEq C] {v w : View P C} {p q : P} {c d : C} {F : Fifo P C} {G : Fifo P C}
  {pc : ProducerPc C} {i j : Nat}

@[simp] theorem setProducer_producer : (v.setProducer p F).producer = Function.update v.producer p F := rfl
@[simp] theorem setProducer_consumer : (v.setProducer p F).consumer = v.consumer := rfl
@[simp] theorem setProducer_ppc : (v.setProducer p F).ppc = v.ppc := rfl
@[simp] theorem setProducer_cpc : (v.setProducer p F).cpc = v.cpc := rfl
@[simp] theorem setConsumer_producer : (v.setConsumer c G).producer = v.producer := rfl
@[simp] theorem setConsumer_consumer : (v.setConsumer c G).consumer = Function.update v.consumer c G := rfl
@[simp] theorem setConsumer_ppc : (v.setConsumer c G).ppc = v.ppc := rfl
@[simp] theorem setConsumer_cpc : (v.setConsumer c G).cpc = v.cpc := rfl
@[simp] theorem setPpc_producer : (v.setPpc p pc).producer = v.producer := rfl
@[simp] theorem setPpc_consumer : (v.setPpc p pc).consumer = v.consumer := rfl
@[simp] theorem setPpc_ppc : (v.setPpc p pc).ppc = Function.update v.ppc p pc := rfl
@[simp] theorem setPpc_cpc : (v.setPpc p pc).cpc = v.cpc := rfl
@[simp] theorem setCpc_producer {pc : ConsumerPc P} : (v.setCpc c pc).producer = v.producer := rfl
@[simp] theorem setCpc_consumer {pc : ConsumerPc P} : (v.setCpc c pc).consumer = v.consumer := rfl
@[simp] theorem setCpc_ppc {pc : ConsumerPc P} : (v.setCpc c pc).ppc = v.ppc := rfl
@[simp] theorem setCpc_cpc {pc : ConsumerPc P} : (v.setCpc c pc).cpc = Function.update v.cpc c pc := rfl

theorem setProducer_self : v.setProducer p (v.producer p) = v := by
  simp only [setProducer, Function.update_eq_self]

theorem setPpc_self : v.setPpc p (v.ppc p) = v := by
  simp only [setPpc, Function.update_eq_self]

theorem live_subset (h : j ∈ v.live c) : j ∈ (v.consumer c).list := by
  unfold live at h
  split at h
  · exact List.mem_of_mem_tail h
  · exact h

theorem liveRefs_congr (hl : (w.consumer c).list = (v.consumer c).list) (hd : (w.cpc c).dropped = (v.cpc c).dropped)
    (hc : ∀ j ∈ (v.consumer c).list, ((w.consumer c).cells j).ref = ((v.consumer c).cells j).ref) :
    w.live c = v.live c ∧ w.liveRefs c = v.liveRefs c := by
  have hlive : w.live c = v.live c := by rw [live, live, hl, hd]
  refine ⟨hlive, ?_⟩
  rw [liveRefs, liveRefs, hlive]
  exact List.filterMap_congr fun j hj => hc j (live_subset hj)

variable [Fintype C]

theorem refs_pos (hj : j ∈ v.live c) (hr : ((v.consumer c).cells j).ref = some (p, i)) : 0 < v.refs p i := by
  have hm : (p, i) ∈ v.liveRefs c := List.mem_filterMap.mpr ⟨j, hj, hr⟩
  have hle : (v.liveRefs c).count (p, i) ≤ v.refs p i :=
    Finset.single_le_sum (f := fun c => (v.liveRefs c).count (p, i)) (fun _ _ => Nat.zero_le _) (Finset.mem_univ c)
  exact lt_of_lt_of_le (List.count_pos_iff.mpr hm) hle

theorem refs_congr (h : ∀ c, w.liveRefs c = v.liveRefs c) : w.refs p i = v.refs p i := by
  simp only [refs, h]

/-- When one consumer's references change, the counts change with them. -/
theorem refs_of_ne (h : ∀ d, d ≠ c → w.liveRefs d = v.liveRefs d) :
    w.refs p i + (v.liveRefs c).count (p, i) = v.refs p i + (w.liveRefs c).count (p, i) := by
  have hsum : ∑ d ∈ Finset.univ.erase c, (w.liveRefs d).count (p, i) = ∑ d ∈ Finset.univ.erase c, (v.liveRefs d).count (p, i) :=
    Finset.sum_congr rfl fun d hd => by rw [h d (Finset.ne_of_mem_erase hd)]
  simp only [refs]
  rw [← Finset.add_sum_erase _ _ (Finset.mem_univ c), ← Finset.add_sum_erase _ _ (Finset.mem_univ c), hsum]
  omega

/-! ### The steps by what they touch -/

namespace Inv

/-- The copying thread's frame is the last one of its list, and ready. -/
theorem copying_last (h : Inv v) {u : Copying C} (hu : (v.ppc p).copying = some u) :
    (v.producer p).list.getLast? = some u.item ∧ ((v.producer p).cells u.item).status = .ready := by
  have ht := (h.prod p).tail
  rwa [ProducerPc.phase_of_copying hu] at ht

/-- A frame that is referred to is not swept. -/
theorem sweep_kept (h : Inv v) (hk : Kept (v.producer p) i) (hr : 0 < v.refs p i) : Kept (v.producer p).sweep i := by
  have hg : ¬(v.producer p).gone i := fun hg => by
    have hc := h.count p i
    rw [(Fifo.gone_iff.mp hg).2] at hc
    split at hc <;> omega
  refine ⟨Fifo.mem_sweep hk.mem hg, ?_⟩
  have hcell : (v.producer p).sweep.cells i = (v.producer p).cells i :=
    Fifo.release_of_notMem fun e => hg (Fifo.gone_of_mem_takeWhile e)
  rw [hcell]
  exact hk.status

/-- A step on the FIFO of producer `p` that keeps the frames that are referred to or being copied. -/
theorem of_producer (h : Inv v) (hprod : ProducerInv F pc) (hcopying : pc.copying = (v.ppc p).copying)
    (hcopy : ∀ u, pc.copying = some u → SameFrame (v.producer p) F u.item)
    (hkeep : ∀ i, Kept (v.producer p) i → 0 < v.refs p i → Kept F i ∧ SameFrame (v.producer p) F i)
    (hcount : ∀ i, (F.cells i).refcnt - (if pc.counted i then 1 else 0) =
      ((v.producer p).cells i).refcnt - (if (v.ppc p).counted i then 1 else 0)) :
    Inv ((v.setProducer p F).setPpc p pc) := by
  have hcop : ∀ q, (Function.update v.ppc p pc q).copying = (v.ppc q).copying := fun q => by
    by_cases hq : q = p
    · subst hq
      rw [Function.update_self, hcopying]
    · rw [Function.update_of_ne hq]
  have hlr : ∀ c, ((v.setProducer p F).setPpc p pc).liveRefs c = v.liveRefs c := fun c => rfl
  refine ⟨fun q => ?_, h.cons, ?_, ?_, ?_, fun q u hu => ?_, fun c j hj => ?_, fun q i => ?_⟩
  · simp only [setPpc_producer, setProducer_producer, setPpc_ppc]
    by_cases hq : q = p
    · subst hq
      rwa [Function.update_self, Function.update_self]
    · rw [Function.update_of_ne hq, Function.update_of_ne hq]
      exact h.prod q
  · simp only [setPpc_consumer, setProducer_consumer, setPpc_ppc, setProducer_ppc, hcop]
    exact h.free
  · simp only [setPpc_consumer, setProducer_consumer, setPpc_ppc, setProducer_ppc, hcop]
    exact h.held
  · simp only [setPpc_ppc, setProducer_ppc, hcop]
    exact h.inj
  · simp only [setPpc_ppc, setProducer_ppc, hcop] at hu
    simp only [setPpc_producer, setProducer_producer, setPpc_consumer, setProducer_consumer]
    have hcp := h.copy q u hu
    by_cases hq : q = p
    · subst hq
      have hs := hcopy u (hcopying ▸ hu)
      rw [Function.update_self]
      refine Copy.mono ?_ hs
      -- The remaining assignments read nothing but the frame.
      have hrun : u.run q (F.cells u.item) ((v.consumer u.con).cells u.cur) =
          u.run q ((v.producer q).cells u.item) ((v.consumer u.con).cells u.cur) := by
        have hasg : ∀ it a, Asg.run q u.item (F.cells u.item) it a =
            Asg.run q u.item ((v.producer q).cells u.item) it a := fun it a => by
          cases a <;> simp only [Asg.run, hs.len, hs.flags, hs.timestamp]
        simp only [Copying.run, show Asg.run q u.item (F.cells u.item) = Asg.run q u.item ((v.producer q).cells u.item)
          from funext fun it => funext (hasg it)]
      rwa [hrun]
    · rwa [Function.update_of_ne hq]
  · obtain ⟨q, i, hcp, hk⟩ := h.live c j hj
    refine ⟨q, i, ?_⟩
    simp only [setPpc_producer, setProducer_producer, setPpc_consumer, setProducer_consumer]
    by_cases hq : q = p
    · subst hq
      obtain ⟨hk', hs⟩ := hkeep i hk (refs_pos hj hcp.ref)
      rw [Function.update_self]
      exact ⟨hcp.mono hs, hk'⟩
    · rw [Function.update_of_ne hq]
      exact ⟨hcp, hk⟩
  · rw [refs_congr hlr]
    simp only [setPpc_producer, setProducer_producer, setPpc_ppc, setProducer_ppc]
    have hc := h.count q i
    by_cases hq : q = p
    · subst hq
      have := hcount i
      simp only [Function.update_self]
      omega
    · simpa only [Function.update_of_ne hq] using hc

theorem of_copying (h : Inv v) {u : Copying C} (hprod : ProducerInv (v.producer p) pc) (hu : pc.copying = some u)
    (hcell : ∀ j, j ≠ u.cur → G.cells j = (v.consumer u.con).cells j) (hlist : G.list = (v.consumer u.con).list)
    (hcnt : G.itemCnt = (v.consumer u.con).itemCnt) (hlt : u.cur < (v.consumer u.con).itemCnt)
    (hcur : u.cur ∉ (v.consumer u.con).list) (hstatus : (G.cells u.cur).status ≠ .init)
    (hexcl : ∀ q u', q ≠ p → (v.ppc q).copying = some u' → u'.con = u.con → u'.cur ≠ u.cur)
    (hold : ∀ u', (v.ppc p).copying = some u' → u'.con = u.con ∧ u'.cur = u.cur)
    (hcopy : Copy (v.producer p) p u.item (u.run p ((v.producer p).cells u.item) (G.cells u.cur)))
    (hcounted : ∀ i, pc.counted i = (v.ppc p).counted i) : Inv ((v.setConsumer u.con G).setPpc p pc) := by
  -- Who copies to which item is the same for all other producers, and for `p` it is `u`.
  have hpc : ∀ q u', (Function.update v.ppc p pc q).copying = some u' →
      (q = p ∧ u' = u) ∨ (q ≠ p ∧ (v.ppc q).copying = some u') := fun q u' hq' => by
    by_cases hq : q = p
    · subst hq
      rw [Function.update_self, hu] at hq'
      exact Or.inl ⟨rfl, (Option.some.inj hq').symm⟩
    · rw [Function.update_of_ne hq] at hq'
      exact Or.inr ⟨hq, hq'⟩
  have hcells : ∀ c, ∀ j ∈ (v.consumer c).list, (Function.update v.consumer u.con G c).cells j = (v.consumer c).cells j :=
    fun c j hj => by
      by_cases hc : c = u.con
      · subst hc
        rw [Function.update_self]
        exact hcell j fun e => hcur (e ▸ hj)
      · rw [Function.update_of_ne hc]
  have hlists : ∀ c, (Function.update v.consumer u.con G c).list = (v.consumer c).list := fun c => by
    by_cases hc : c = u.con
    · subst hc
      rw [Function.update_self, hlist]
    · rw [Function.update_of_ne hc]
  have hcnts : ∀ c, (Function.update v.consumer u.con G c).itemCnt = (v.consumer c).itemCnt := fun c => by
    by_cases hc : c = u.con
    · subst hc
      rw [Function.update_self, hcnt]
    · rw [Function.update_of_ne hc]
  have hlive : ∀ c, ((v.setConsumer u.con G).setPpc p pc).live c = v.live c ∧
      ((v.setConsumer u.con G).setPpc p pc).liveRefs c = v.liveRefs c := fun c =>
    liveRefs_congr (hlists c) rfl fun j hj => by
      simp only [setPpc_consumer, setConsumer_consumer, hcells c j hj]
  refine ⟨fun q => ?_, fun c => ?_, fun c j hj => ?_, fun q u' hq => ?_, fun q r u₁ u₂ hq hr hcon hcur' => ?_,
    fun q u' hq => ?_, fun c j hj => ?_, fun q i => ?_⟩ <;>
    simp only [setPpc_ppc, setPpc_producer, setPpc_consumer, setConsumer_ppc, setConsumer_producer,
      setConsumer_consumer] at *
  · by_cases hq : q = p
    · subst hq
      rwa [Function.update_self]
    · rw [Function.update_of_ne hq]
      exact h.prod q
  · have hc := h.cons c
    exact ⟨by rw [hlists]; exact hc.nodup, fun j hj => by rw [hlists] at hj; rw [hcnts]; exact hc.pool j hj,
      fun j hj => by rw [hlists] at hj; rw [hcells c j hj]; exact hc.ready j hj, fun hb => by rw [hlists]; exact hc.busy hb⟩
  · rw [hlists]
    by_cases hc : c = u.con ∧ j = u.cur
    · obtain ⟨rfl, rfl⟩ := hc
      rw [Function.update_self]
      refine iff_of_false hstatus fun hn => hn.2 p u ?_ rfl rfl
      rw [Function.update_self, hu]
    · have hsame : (Function.update v.consumer u.con G c).cells j = (v.consumer c).cells j := by
        by_cases hcu : c = u.con
        · subst hcu
          rw [Function.update_self]
          exact hcell j fun e => hc ⟨rfl, e⟩
        · rw [Function.update_of_ne hcu]
      rw [hcnts] at hj
      rw [hsame, h.free c j hj]
      refine and_congr_right fun _ => ⟨fun hn q u' hq hcon hcur' => ?_, fun hn q u' hq hcon hcur' => ?_⟩
      · rcases hpc q u' hq with ⟨-, rfl⟩ | ⟨-, hq⟩
        · exact hc ⟨hcon.symm, hcur'.symm⟩
        · exact hn q u' hq hcon hcur'
      · by_cases hqp : q = p
        · subst hqp
          obtain ⟨h1, h2⟩ := hold u' hq
          exact hc ⟨hcon ▸ h1, hcur' ▸ h2⟩
        · exact hn q u' (by rw [Function.update_of_ne hqp]; exact hq) hcon hcur'
  · rw [hlists, hcnts]
    rcases hpc q u' hq with ⟨-, rfl⟩ | ⟨hqp, hq⟩
    · rw [Function.update_self]
      exact ⟨hlt, hcur, hstatus⟩
    · obtain ⟨h1, h2, h3⟩ := h.held q u' hq
      refine ⟨h1, h2, ?_⟩
      by_cases hc : u'.con = u.con
      · rw [hc, Function.update_self, hcell _ (hexcl q u' hqp hq hc), ← hc]
        exact h3
      · rw [Function.update_of_ne hc]
        exact h3
  · rcases hpc q u₁ hq with ⟨hqp, rfl⟩ | ⟨hqp, hq₁⟩ <;> rcases hpc r u₂ hr with ⟨hrp, rfl⟩ | ⟨hrp, hr₁⟩
    · rw [hqp, hrp]
    · exact absurd hcur'.symm (hexcl r u₂ hrp hr₁ hcon.symm)
    · exact absurd hcur' (hexcl q u₁ hqp hq₁ hcon)
    · exact h.inj q r u₁ u₂ hq₁ hr₁ hcon hcur'
  · rcases hpc q u' hq with ⟨rfl, rfl⟩ | ⟨hqp, hq⟩
    · rwa [Function.update_self]
    · have := h.copy q u' hq
      by_cases hc : u'.con = u.con
      · rw [hc] at this ⊢
        rwa [Function.update_self, hcell _ (hexcl q u' hqp hq hc)]
      · rwa [Function.update_of_ne hc]
  · rw [(hlive c).1] at hj
    rw [hcells c j (live_subset hj)]
    exact h.live c j hj
  · rw [refs_congr fun c => (hlive c).2]
    have hc := h.count q i
    by_cases hq : q = p
    · subst hq
      simpa only [Function.update_self, hcounted] using hc
    · simpa only [Function.update_of_ne hq] using hc

theorem of_ppc (h : Inv v) (hprod : ProducerInv (v.producer p) pc) (hcopying : pc.copying = (v.ppc p).copying)
    (hcounted : ∀ i, pc.counted i = (v.ppc p).counted i) : Inv (v.setPpc p pc) := by
  rw [← setProducer_self (v := v) (p := p)]
  exact h.of_producer hprod hcopying (fun _ _ => .of_eq rfl) (fun i hk _ => ⟨hk, .of_eq rfl⟩)
    fun i => by rw [hcounted]

theorem of_release (h : Inv v) (hprod : ProducerInv F (v.ppc p))
    (hcopy : ∀ u, (v.ppc p).copying = some u → SameFrame (v.producer p) F u.item)
    (hkeep : ∀ i, Kept (v.producer p) i → 0 < v.refs p i → Kept F i ∧ SameFrame (v.producer p) F i)
    (hcount : ∀ i, (F.cells i).refcnt = ((v.producer p).cells i).refcnt) : Inv (v.setProducer p F) := by
  have := h.of_producer hprod rfl hcopy hkeep fun i => by rw [hcount]
  rwa [← setProducer_ppc (v := v) (p := p) (F := F), setPpc_self] at this

theorem of_cpc (h : Inv v) {pc : ConsumerPc P} (hd : pc.dropped = (v.cpc c).dropped)
    (hb : (v.consumer c).list ≠ []) : Inv (v.setCpc c pc) := by
  have hlive : ∀ d, (v.setCpc c pc).live d = v.live d ∧ (v.setCpc c pc).liveRefs d = v.liveRefs d := fun d =>
    liveRefs_congr rfl (by
      by_cases hdc : d = c
      · subst hdc
        rw [setCpc_cpc, Function.update_self, hd]
      · rw [setCpc_cpc, Function.update_of_ne hdc]) fun _ _ => rfl
  refine ⟨h.prod, fun d => ?_, h.free, h.held, h.inj, h.copy, fun d j hj => ?_, fun q i => ?_⟩
  · have hc := h.cons d
    refine ⟨hc.nodup, hc.pool, hc.ready, fun hi => ?_⟩
    by_cases hdc : d = c
    · subst hdc
      exact hb
    · rw [setCpc_cpc, Function.update_of_ne hdc] at hi
      exact hc.busy hi
  · rw [(hlive d).1] at hj
    exact h.live d j hj
  · rw [refs_congr fun d => (hlive d).2]
    exact h.count q i

end Inv
end
end View
end Recbcsrv
