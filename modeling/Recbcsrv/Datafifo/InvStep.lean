import Recbcsrv.Datafifo.Inv

/-! The invariant holds after every step: one lemma for each branch of the threads. -/

set_option linter.unusedSectionVars false

namespace Recbcsrv
open Datafifo

namespace View
namespace Inv

variable {P C : Type} [DecidableEq P] [DecidableEq C] [Fintype C] {v w : View P C} {p : P} {c : C} {pc : ProducerPc C}
  {i j : Nat}

/-! ### The producer's own FIFO -/

/-- All assignments together make a copy, whatever the item held. -/
theorem copy_all {k : Nat} {it : DatafifoItem P} :
    Copy (v.producer p) p i ((⟨i, c, k, Asg.all⟩ : Copying C).run p ((v.producer p).cells i) it) := by
  constructor <;> rfl

theorem alloc (h : Inv v) {call : Call} (hpc : v.ppc p = .alloc call) (hlt : i < (v.producer p).itemCnt)
    (hfree : ((v.producer p).cells i).status = .init) :
    Inv ((v.setProducer p ((v.producer p).set i allocItem)).setPpc p (.flush call i)) := by
  have hp := h.prod p
  rw [hpc] at hp
  have hi : i ∉ (v.producer p).list := ((hp.free i hlt).mp hfree).1
  have hc := h.count p
  -- Nobody refers to a free item.
  have hrefs : v.refs p i = 0 := by
    by_contra hne
    obtain ⟨c, -, hcount⟩ := Finset.exists_ne_zero_of_sum_ne_zero hne
    obtain ⟨j, hj, hr⟩ := List.mem_filterMap.mp (List.count_pos_iff.mp (Nat.pos_of_ne_zero hcount))
    obtain ⟨q, k, hcp, hk⟩ := h.live c j hj
    rw [hcp.ref] at hr
    cases hr
    exact hi hk.mem
  refine h.of_producer (hp.alloc rfl rfl hlt hfree rfl rfl) (by rw [hpc]; rfl) (fun u hu => by cases hu)
    (fun j hk hr => ?_) fun j => ?_
  · have hji : j ≠ i := fun e => hi (e ▸ hk.mem)
    refine ⟨⟨hk.mem, ?_⟩, SameFrame.set_of_ne hji⟩
    rw [Fifo.set_cells_of_ne _ _ hji]
    exact hk.status
  · by_cases hji : j = i
    · subst hji
      have := hc j
      simp only [hpc, hrefs, ProducerPc.counted] at this
      rw [Fifo.set_cells_self, this]
      simp [allocItem, hpc, ProducerPc.counted]
    · rw [Fifo.set_cells_of_ne _ _ hji, hpc]
      rfl

theorem counted_eq_false {pc : ProducerPc C} (h : pc.copying = none) : pc.counted i = false := by
  by_contra hc
  obtain ⟨u, hu, -⟩ := ProducerPc.copying_of_counted (by simpa using hc)
  rw [h] at hu
  cases hu

theorem of_filling (h : Inv v) {f : DatafifoItem P → DatafifoItem P} (hcp : (v.ppc p).copying = none)
    (hcp' : pc.copying = none) (hfill : ((v.producer p).cells i).status = .filling)
    (hprod : ProducerInv ((v.producer p).set i f) pc) (href : ∀ it, (f it).refcnt = it.refcnt) :
    Inv ((v.setProducer p ((v.producer p).set i f)).setPpc p pc) := by
  refine h.of_producer hprod (hcp'.trans hcp.symm) (fun u hu => ?_) (fun j hk _ => ?_) fun j => ?_
  · rw [hcp'] at hu
    cases hu
  · have hji : j ≠ i := fun e => by
      have := hk.status
      rw [e, hfill] at this
      simp at this
    refine ⟨⟨hk.mem, ?_⟩, SameFrame.set_of_ne hji⟩
    rw [Fifo.set_cells_of_ne _ _ hji]
    exact hk.status
  · rw [Fifo.set_field _ i j _ DatafifoItem.refcnt (href _), counted_eq_false hcp, counted_eq_false hcp']

theorem flush (h : Inv v) {call : Call} {cur t : Nat} {l : List C} (hpc : v.ppc p = .flush call cur)
    (ht : (v.producer p).list.getLast? = some t) (hfill : ((v.producer p).cells t).status = .filling) :
    Inv ((v.setProducer p ((v.producer p).set t (flushItem call.flags))).setPpc p (.addto (.newframe call cur) t l)) := by
  have hp := h.prod p
  rw [hpc] at hp
  have hlen : (flushItem call.flags ((v.producer p).cells t)).len ≤ (v.producer p).dataMaxlen := by
    simp only [flushItem]
    split
    · exact Nat.zero_le _
    · exact hp.len t
  refine h.of_filling (by rw [hpc]; rfl) rfl hfill (hp.set rfl (by simp [hfill]) (by simp [flushItem]) (fun e => ?_)
    (fun e => absurd e (hp.tail_notMem_dropLast ht)) ⟨ht, by simp [flushItem]⟩ hlen (fun t' ht' => ?_) (hp.buf t))
    fun _ => rfl
  · exact absurd (ProducerInv.tail_mem ht) (hp.own t e).2.1
  · rw [ht] at ht'
    cases ht'
    rw [Fifo.set_cells_self]
    exact hlen

theorem close (h : Inv v) {call : Call} {t : Nat} {l : List C} (hpc : v.ppc p = .close call)
    (ht : (v.producer p).list.getLast? = some t) :
    Inv ((v.setProducer p ((v.producer p).set t readyItem)).setPpc p (.addto .finish t l)) := by
  have hp := h.prod p
  rw [hpc] at hp
  have hfill := hp.tail_filling rfl ht
  refine h.of_filling (by rw [hpc]; rfl) rfl hfill (hp.set rfl (by simp [hfill]) (by simp [readyItem]) (fun e => by cases e)
    (fun e => absurd e (hp.tail_notMem_dropLast ht)) ⟨ht, by simp [readyItem]⟩ (hp.len t) (fun t' ht' => ?_) (hp.buf t))
    fun _ => rfl
  rw [ht] at ht'
  cases ht'
  rw [Fifo.set_cells_self]
  exact hp.len t

theorem length_memcpy {buf src : List UInt8} {off : Nat} (h : off + src.length ≤ buf.length) :
    (memcpy buf off src).length = buf.length := by
  simp only [memcpy, List.length_append, List.length_take, List.length_drop]
  omega

theorem copyBytes (h : Inv v) {call : Call} {t : Nat} (hpc : v.ppc p = .copy call)
    (ht : (v.producer p).list.getLast? = some t) :
    Inv ((v.setProducer p ((v.producer p).set t (copyItem call.data))).setPpc p (.grow call)) := by
  have hp := h.prod p
  rw [hpc] at hp
  have hfill := hp.tail_filling rfl ht
  have hroom := hp.room t ht
  obtain ⟨b, hb, hlen⟩ := hp.buf t
  refine h.of_filling (by rw [hpc]; rfl) rfl hfill (hp.set rfl (by simp [hfill]) (by simp [copyItem, hfill])
    (fun e => by cases e) (fun e => absurd e (hp.tail_notMem_dropLast ht)) ⟨t, ht, by simp [copyItem, hfill]⟩
    (hp.len t) (fun t' ht' => ?_) ⟨_, rfl, ?_⟩) fun _ => rfl
  · rw [ht] at ht'
    cases ht'
    rw [Fifo.set_cells_self]
    exact hroom
  · rw [hb, DataPtr.buf, length_memcpy (by rw [hlen]; exact hroom), hlen]

theorem grow (h : Inv v) {call : Call} {t : Nat} (hpc : v.ppc p = .grow call)
    (ht : (v.producer p).list.getLast? = some t) :
    Inv ((v.setProducer p ((v.producer p).set t (growItem call.data))).setPpc p (.close call)) := by
  have hp := h.prod p
  rw [hpc] at hp
  have hfill := hp.tail_filling rfl ht
  have hroom := hp.room t ht
  refine h.of_filling (by rw [hpc]; rfl) rfl hfill (hp.set rfl (by simp [hfill]) (by simp [growItem, hfill])
    (fun e => by cases e) (fun e => absurd e (hp.tail_notMem_dropLast ht)) ⟨t, ht, by simp [growItem, hfill]⟩ hroom
    (fun t' ht' => ?_) (hp.buf t)) fun _ => rfl
  rw [ht] at ht'
  cases ht'
  rw [Fifo.set_cells_self]
  exact hroom

theorem markItem (h : Inv v) {call : Call} {cur : Nat} {m : Mark} {todo : List Mark}
    (hpc : v.ppc p = .mark call cur (m :: todo)) :
    Inv ((v.setProducer p ((v.producer p).set cur fun it => m.run call it)).setPpc p (.mark call cur todo)) := by
  have hp := h.prod p
  rw [hpc] at hp
  have hstatus : ∀ it : DatafifoItem P, (m.run call it).status = it.status := fun it => by
    cases m <;> simp only [Mark.run] <;> split <;> rfl
  have hlen : ∀ it : DatafifoItem P, (m.run call it).len = it.len := fun it => by
    cases m <;> simp only [Mark.run] <;> split <;> rfl
  have hdata : ∀ it : DatafifoItem P, (m.run call it).data = it.data := fun it => by
    cases m <;> simp only [Mark.run] <;> split <;> rfl
  have hrefcnt : ∀ it : DatafifoItem P, (m.run call it).refcnt = it.refcnt := fun it => by
    cases m <;> simp only [Mark.run] <;> split <;> rfl
  have hset := hp.set_other (i := cur) hstatus hlen hdata
  exact h.of_filling (by rw [hpc]; rfl) rfl (hp.own cur rfl).2.2 (hset.congr_pc rfl hset.tail hset.room) hrefcnt

theorem linkOwn (h : Inv v) {call : Call} {cur : Nat} (hpc : v.ppc p = .mark call cur []) :
    Inv ((v.setProducer p ((v.producer p).push cur)).setPpc p (.room call)) := by
  have hp := h.prod p
  rw [hpc] at hp
  refine h.of_producer (hp.push rfl rfl rfl rfl rfl) (by rw [hpc]; rfl) (fun u hu => by cases hu)
    (fun j hk _ => ⟨⟨List.mem_append_left _ hk.mem, hk.status⟩, .of_eq rfl⟩) fun j => ?_
  rw [hpc]
  rfl

theorem doing (h : Inv v) {k : Cont} {item : Nat} (hpc : v.ppc p = .addto k item []) :
    Inv ((v.setProducer p ((v.producer p).set item doingItem)).setPpc p (.check k)) := by
  have hp := h.prod p
  rw [hpc] at hp
  obtain ⟨ht, hready⟩ := hp.tail
  refine h.of_producer (hp.set rfl (by simp [hready]) (by simp [doingItem]) (fun e => ?_) (fun _ => rfl) (fun t' ht' => ?_)
    (hp.len item) (fun t' ht' => ?_) (hp.buf item)) (by rw [hpc]; rfl) (fun u hu => by cases hu) (fun j hk _ => ?_) fun j => ?_
  · exact absurd (ProducerInv.tail_mem ht) (hp.own item e).2.1
  · rw [Fifo.set_list, ht] at ht'
    cases ht'
    rw [Fifo.set_cells_self]
    rfl
  · rw [ht] at ht'
    cases ht'
    rw [Fifo.set_cells_self]
    exact hp.room item ht
  · by_cases hji : j = item
    · subst hji
      refine ⟨⟨hk.mem, Or.inr (by rw [Fifo.set_cells_self]; rfl)⟩, ?_⟩
      constructor <;> rw [Fifo.set_cells_self] <;> rfl
    · refine ⟨⟨hk.mem, ?_⟩, SameFrame.set_of_ne hji⟩
      rw [Fifo.set_cells_of_ne _ _ hji]
      exact hk.status
  · rw [Fifo.set_field _ item j _ DatafifoItem.refcnt rfl, hpc]
    rfl

theorem incref (h : Inv v) {k : Cont} {item cur : Nat} {con : C} {rest : List C}
    (hpc : v.ppc p = .fill k item con cur [] rest) :
    Inv ((v.setProducer p ((v.producer p).set item increfItem)).setPpc p (.link k item con cur rest)) := by
  have hp := h.prod p
  rw [hpc] at hp
  have hset : ProducerInv ((v.producer p).set item increfItem) _ :=
    hp.set_other (i := item) (f := increfItem) (fun _ => rfl) (fun _ => rfl) fun _ => rfl
  have hsame : ∀ j, SameFrame (v.producer p) ((v.producer p).set item increfItem) j := fun j => by
    constructor <;> exact Fifo.set_field _ item j _ _ rfl
  refine h.of_producer (hset.congr_pc rfl hset.tail hset.room) (by rw [hpc]; rfl) (fun u _ => hsame _) (fun j hk _ => ?_)
    fun j => ?_
  · refine ⟨⟨hk.mem, ?_⟩, hsame j⟩
    rw [Fifo.set_field _ item j _ DatafifoItem.status rfl]
    exact hk.status
  · simp only [hpc, ProducerPc.counted, decide_eq_true_eq]
    by_cases hji : j = item
    · subst hji
      rw [Fifo.set_cells_self]
      simp [increfItem]
    · rw [Fifo.set_cells_of_ne _ _ hji, if_neg (Ne.symm hji)]
      simp

theorem check (h : Inv v) {k : Cont} (hpc : v.ppc p = .check k) :
    Inv ((v.setProducer p (v.producer p).sweep).setPpc p k.pc) := by
  have hp := h.prod p
  rw [hpc] at hp
  have hsweep := hp.sweep
  have hcount : ∀ j, ((v.producer p).sweep.cells j).refcnt = ((v.producer p).cells j).refcnt := fun j =>
    Fifo.release_field _ fun _ _ => rfl
  cases k with
  | newframe call cur =>
    refine h.of_producer (hsweep.congr_pc rfl hsweep.tail hsweep.room) (by rw [hpc]; rfl) (fun u hu => by cases hu)
      (fun j hk hr => ⟨h.sweep_kept hk hr, SameFrame.sweep⟩) fun j => ?_
    rw [hcount, hpc]
    rfl
  | finish =>
    refine h.of_producer (hsweep.congr_pc rfl (fun t ht => Or.inr (hsweep.tail t ht)) hsweep.room) (by rw [hpc]; rfl)
      (fun u hu => by cases hu) (fun j hk hr => ⟨h.sweep_kept hk hr, SameFrame.sweep⟩) fun j => ?_
    rw [hcount, hpc]
    rfl

theorem dataAdd (h : Inv v) {call : Call} (hpc : v.ppc p = .idle) :
    Inv (v.setPpc p (if hasFlag call.flags frameFlagNewframe then .alloc call else .tail call)) := by
  have hp := h.prod p
  rw [hpc] at hp
  split
  · exact h.of_ppc (hp.congr_pc rfl hp.tail hp.room) (by rw [hpc]; rfl) fun i => by rw [hpc]; rfl
  · exact h.of_ppc (hp.congr_pc rfl hp.tail hp.room) (by rw [hpc]; rfl) fun i => by rw [hpc]; rfl

theorem flushNone (h : Inv v) {call : Call} {cur : Nat} (hpc : v.ppc p = .flush call cur)
    (ht : ∀ t ∈ (v.producer p).list.getLast?, ((v.producer p).cells t).status ≠ .filling) :
    Inv (v.setPpc p (.mark call cur Mark.all)) := by
  have hp := h.prod p
  rw [hpc] at hp
  exact h.of_ppc (hp.congr_pc rfl (fun t e => (hp.tail t e).resolve_left (ht t e)) hp.room) (by rw [hpc]; rfl)
    fun i => by rw [hpc]; rfl

theorem tail (h : Inv v) {call : Call} {t : Nat} (hpc : v.ppc p = .tail call)
    (ht : (v.producer p).list.getLast? = some t) :
    Inv (v.setPpc p (if ((v.producer p).cells t).status ≠ .filling then .idle else .room call)) := by
  have hp := h.prod p
  rw [hpc] at hp
  split
  · exact h.of_ppc (hp.congr_pc rfl hp.tail hp.room) (by rw [hpc]; rfl) fun i => by rw [hpc]; rfl
  · next hs =>
    exact h.of_ppc (hp.congr_pc rfl ⟨t, ht, by simpa using hs⟩ hp.room) (by rw [hpc]; rfl) fun i => by rw [hpc]; rfl

theorem room (h : Inv v) {call : Call} {t : Nat} (hpc : v.ppc p = .room call)
    (ht : (v.producer p).list.getLast? = some t) :
    Inv (v.setPpc p (if ((v.producer p).cells t).len + call.data.length > (v.producer p).dataMaxlen then .idle
      else .copy call)) := by
  have hp := h.prod p
  rw [hpc] at hp
  have hfill := hp.tail_filling rfl ht
  split
  · refine h.of_ppc (hp.congr_pc rfl (fun t' ht' => ?_) hp.room) (by rw [hpc]; rfl) fun i => by rw [hpc]; rfl
    rw [ht] at ht'
    cases ht'
    exact Or.inl hfill
  · next hfit =>
    refine h.of_ppc (hp.congr_pc rfl ⟨t, ht, hfill⟩ fun t' ht' => ?_) (by rw [hpc]; rfl) fun i => by rw [hpc]; rfl
    rw [ht] at ht'
    cases ht'
    exact Nat.le_of_not_lt hfit

theorem closeOpen (h : Inv v) {call : Call} (hpc : v.ppc p = .close call) : Inv (v.setPpc p .idle) := by
  have hp := h.prod p
  rw [hpc] at hp
  obtain ⟨t, ht, hfill⟩ := hp.tail
  refine h.of_ppc (hp.congr_pc rfl (fun t' ht' => ?_) hp.room) (by rw [hpc]; rfl) fun i => by rw [hpc]; rfl
  rw [ht] at ht'
  cases ht'
  exact Or.inl hfill

/-! ### Copies to the consumers -/

theorem allocCon (h : Inv v) {k : Cont} {item : Nat} {con : C} {rest : List C}
    (hpc : v.ppc p = .addto k item (con :: rest)) (hlt : j < (v.consumer con).itemCnt)
    (hfree : ((v.consumer con).cells j).status = .init) :
    Inv ((v.setConsumer con ((v.consumer con).set j allocItem)).setPpc p (.fill k item con j Asg.all rest)) := by
  have hp := h.prod p
  rw [hpc] at hp
  obtain ⟨hj, hnone⟩ := (h.free con j hlt).mp hfree
  refine h.of_copying (u := ⟨item, con, j, Asg.all⟩) (hp.congr_pc rfl hp.tail hp.room) rfl
    (fun i hi => Fifo.set_cells_of_ne _ _ hi) rfl rfl hlt hj (by rw [Fifo.set_cells_self]; simp [allocItem])
    (fun q u' _ hu' hcon hcur => hnone q u' hu' hcon hcur) (fun u' hu' => ?_) copy_all fun i => by rw [hpc]; rfl
  rw [hpc] at hu'
  cases hu'

theorem assign (h : Inv v) {k : Cont} {item cur : Nat} {con : C} {a : Asg} {todo : List Asg} {rest : List C}
    (hpc : v.ppc p = .fill k item con cur (a :: todo) rest) :
    Inv ((v.setConsumer con ((v.consumer con).set cur fun it => a.run p item ((v.producer p).cells item) it)).setPpc p
      (.fill k item con cur todo rest)) := by
  have hp := h.prod p
  rw [hpc] at hp
  have hold : (v.ppc p).copying = some ⟨item, con, cur, a :: todo⟩ := by rw [hpc]; rfl
  obtain ⟨hlt, hcur, hstatus⟩ := h.held p _ hold
  refine h.of_copying (u := ⟨item, con, cur, todo⟩) (hp.congr_pc rfl hp.tail hp.room) rfl
    (fun i hi => Fifo.set_cells_of_ne _ _ hi) rfl rfl hlt hcur ?_ (fun q u' hq hu' hcon hcur' => ?_) (fun u' hu' => ?_) ?_
    fun i => by rw [hpc]; rfl
  · rw [Fifo.set_cells_self]
    cases a <;> simp only [Asg.run, ne_eq, reduceCtorEq, not_false_eq_true] <;> exact hstatus
  · exact hq (h.inj q p u' _ hu' hold hcon hcur')
  · rw [hold] at hu'
    cases hu'
    exact ⟨rfl, rfl⟩
  · rw [Fifo.set_cells_self]
    exact h.copy p _ hold

theorem liveRefs_link (h : Inv v) {k : Cont} {item cur : Nat} {con : C} {rest : List C}
    (hpc : v.ppc p = .link k item con cur rest)
    (hw : w = (v.setConsumer con ((v.consumer con).push cur)).setPpc p (.addto k item rest)) :
    (∀ d, d ≠ con → w.live d = v.live d ∧ w.liveRefs d = v.liveRefs d) ∧
      w.live con = v.live con ++ [cur] ∧ w.liveRefs con = v.liveRefs con ++ [(p, item)] := by
  have hcopy : Copy (v.producer p) p item ((v.consumer con).cells cur) :=
    h.copy p ⟨item, con, cur, []⟩ (by rw [hpc]; rfl)
  have hcon : w.consumer con = (v.consumer con).push cur := by
    simp only [hw, setPpc_consumer, setConsumer_consumer, Function.update_self]
  have hcpc : w.cpc con = v.cpc con := by rw [hw, setPpc_cpc, setConsumer_cpc]
  have hlive : w.live con = v.live con ++ [cur] := by
    rw [View.live, View.live, hcpc, hcon, Fifo.push_list]
    split
    · next hd =>
      have hb := (h.cons con).busy fun e => by
        rw [e] at hd
        cases hd
      exact List.tail_append_of_ne_nil hb
    · rfl
  refine ⟨fun c hc => ?_, hlive, ?_⟩
  · have hcon' : w.consumer c = v.consumer c := by
      simp only [hw, setPpc_consumer, setConsumer_consumer, Function.update_of_ne hc]
    exact liveRefs_congr (by rw [hcon']) (by rw [hw, setPpc_cpc, setConsumer_cpc]) fun j _ => by rw [hcon']
  · rw [liveRefs, liveRefs, hlive, hcon, Fifo.push_cells, List.filterMap_append]
    simp only [List.filterMap_cons, hcopy.ref, List.filterMap_nil]

theorem link (h : Inv v) {k : Cont} {item cur : Nat} {con : C} {rest : List C}
    (hpc : v.ppc p = .link k item con cur rest) :
    Inv ((v.setConsumer con ((v.consumer con).push cur)).setPpc p (.addto k item rest)) := by
  have hp := h.prod p
  rw [hpc] at hp
  have hold : (v.ppc p).copying = some ⟨item, con, cur, []⟩ := by rw [hpc]; rfl
  obtain ⟨hlt, hcur, hstatus⟩ := h.held p _ hold
  have hcopy : Copy (v.producer p) p item ((v.consumer con).cells cur) := h.copy p _ hold
  obtain ⟨hlast, hready⟩ := h.copying_last hold
  set w := (v.setConsumer con ((v.consumer con).push cur)).setPpc p (.addto k item rest) with hw
  obtain ⟨hne, hlive, hrefs⟩ := h.liveRefs_link hpc hw
  have hcells : ∀ c, (w.consumer c).cells = (v.consumer c).cells := fun c => by
    by_cases hc : c = con
    · subst hc
      simp only [hw, setPpc_consumer, setConsumer_consumer, Function.update_self, Fifo.push_cells]
    · simp only [hw, setPpc_consumer, setConsumer_consumer, Function.update_of_ne hc]
  have hpcs : ∀ q u, (w.ppc q).copying = some u → q ≠ p ∧ (v.ppc q).copying = some u := fun q u hq => by
    by_cases hqp : q = p
    · subst hqp
      rw [hw, setPpc_ppc, Function.update_self] at hq
      cases hq
    · rw [hw, setPpc_ppc, Function.update_of_ne hqp] at hq
      exact ⟨hqp, hq⟩
  have hmem : ∀ c j, j ∈ (w.consumer c).list ↔ j ∈ (v.consumer c).list ∨ (c = con ∧ j = cur) := fun c j => by
    by_cases hc : c = con
    · subst hc
      simp [hw]
    · simp [hw, hc]
  have hcnts : ∀ c, (w.consumer c).itemCnt = (v.consumer c).itemCnt := fun c => by
    by_cases hc : c = con
    · subst hc
      simp [hw]
    · simp [hw, hc]
  refine ⟨fun q => ?_, fun c => ?_, fun c j hj => ?_, fun q u hq => ?_, fun q r u u' hq hr => ?_, fun q u hq => ?_,
    fun c j hj => ?_, fun q i => ?_⟩
  · by_cases hqp : q = p
    · subst hqp
      simp only [hw, setPpc_producer, setConsumer_producer, setPpc_ppc, Function.update_self]
      exact hp.congr_pc rfl hp.tail hp.room
    · simp only [hw, setPpc_producer, setConsumer_producer, setPpc_ppc, Function.update_of_ne hqp]
      exact h.prod q
  · have hc := h.cons c
    refine ⟨?_, fun j hj => ?_, fun j hj => ?_, fun hb => ?_⟩
    · by_cases hcc : c = con
      · subst hcc
        simp only [hw, setPpc_consumer, setConsumer_consumer, Function.update_self, Fifo.push_list]
        rw [List.nodup_append]
        exact ⟨hc.nodup, List.nodup_singleton _, fun a ha b hb e => hcur (List.mem_singleton.mp hb ▸ e ▸ ha)⟩
      · simp only [hw, setPpc_consumer, setConsumer_consumer, Function.update_of_ne hcc]
        exact hc.nodup
    · rw [hcnts]
      rcases (hmem c j).mp hj with hj | ⟨rfl, rfl⟩
      · exact hc.pool j hj
      · exact hlt
    · rw [hcells]
      rcases (hmem c j).mp hj with hj | ⟨rfl, rfl⟩
      · exact hc.ready j hj
      · exact hcopy.status
    · obtain ⟨j, hj⟩ := List.exists_mem_of_ne_nil _ (hc.busy hb)
      exact List.ne_nil_of_mem ((hmem c j).mpr (Or.inl hj))
  · rw [hcnts] at hj
    rw [hcells, h.free c j hj, hmem]
    constructor
    · rintro ⟨hnl, hn⟩
      refine ⟨?_, fun q u hq => hn q u (hpcs q u hq).2⟩
      rintro (hl | ⟨rfl, rfl⟩)
      · exact hnl hl
      · exact hn p _ hold rfl rfl
    · rintro ⟨hnl, hn⟩
      refine ⟨fun hl => hnl (Or.inl hl), fun q u hq hcon hcur' => ?_⟩
      by_cases hqp : q = p
      · subst hqp
        rw [hold] at hq
        cases hq
        exact hnl (Or.inr ⟨hcon.symm, hcur'.symm⟩)
      · refine hn q u ?_ hcon hcur'
        rw [hw, setPpc_ppc, Function.update_of_ne hqp]
        exact hq
  · obtain ⟨hqp, hq⟩ := hpcs q u hq
    obtain ⟨h1, h2, h3⟩ := h.held q u hq
    rw [hcnts, hcells, hmem]
    refine ⟨h1, ?_, h3⟩
    rintro (hl | ⟨hcon, hcur'⟩)
    · exact h2 hl
    · exact hqp (h.inj q p u _ hq hold hcon hcur')
  · exact h.inj q r u u' (hpcs q u hq).2 (hpcs r u' hr).2
  · rw [hcells]
    exact h.copy q u (hpcs q u hq).2
  · rw [hcells]
    by_cases hc : c = con
    · subst hc
      rw [hlive] at hj
      rcases List.mem_append.mp hj with hj | hj
      · exact h.live c j hj
      · cases List.mem_singleton.mp hj
        exact ⟨p, item, hcopy, ProducerInv.tail_mem hlast, Or.inl hready⟩
    · rw [(hne c hc).1] at hj
      exact h.live c j hj
  · have hc := h.count q i
    have hsum : w.refs q i = v.refs q i + [(p, item)].count (q, i) := by
      have := refs_of_ne (p := q) (i := i) fun d hd => (hne d hd).2
      rw [hrefs, List.count_append] at this
      omega
    rw [hsum]
    by_cases hqp : q = p
    · subst hqp
      simp only [hw, setPpc_producer, setConsumer_producer, setPpc_ppc, Function.update_self, hc, hpc,
        ProducerPc.counted, List.count_singleton]
      by_cases hi : item = i <;> simp [hi]
    · have hcount : [(p, item)].count (q, i) = 0 := by
        simp [Ne.symm hqp]
      rw [hcount, Nat.add_zero]
      simpa only [hw, setPpc_producer, setConsumer_producer, setPpc_ppc, setConsumer_ppc, Function.update_of_ne hqp]
        using hc

/-! ### The consumers -/

theorem removeHead (h : Inv v) (hpc : v.cpc c = .idle) (hne : (v.consumer c).list ≠ []) : Inv (v.setCpc c .decref) :=
  h.of_cpc (by rw [hpc]; rfl) hne

theorem checkCon (h : Inv v) (hpc : v.cpc c = .check p) :
    Inv ((v.setProducer p (v.producer p).sweep).setCpc c .unlink) := by
  have hs : Inv (v.setProducer p (v.producer p).sweep) :=
    h.of_release (h.prod p).sweep (fun _ _ => SameFrame.sweep) (fun i hk hr => ⟨h.sweep_kept hk hr, SameFrame.sweep⟩)
      fun i => Fifo.release_field _ fun _ _ => rfl
  exact hs.of_cpc (by rw [setProducer_cpc, hpc]; rfl) ((h.cons c).busy (by rw [hpc]; simp))

theorem liveRefs_decref (hpc : v.cpc c = .decref) (hhead : (v.consumer c).list.head? = some j)
    (href : ((v.consumer c).cells j).ref = some (p, i))
    (hw : w = (v.setProducer p ((v.producer p).set i decrefItem)).setCpc c (.check p)) :
    (∀ d, d ≠ c → w.live d = v.live d ∧ w.liveRefs d = v.liveRefs d) ∧
      v.live c = j :: w.live c ∧ v.liveRefs c = (p, i) :: w.liveRefs c := by
  have hcon : ∀ d, w.consumer d = v.consumer d := fun d => by rw [hw, setCpc_consumer, setProducer_consumer]
  have hlive : v.live c = j :: w.live c := by
    obtain ⟨l, hl⟩ := List.head?_eq_some_iff.mp hhead
    have hcpc : w.cpc c = .check p := by rw [hw, setCpc_cpc, Function.update_self]
    rw [View.live, View.live, hpc, hcpc, hcon, hl]
    rfl
  refine ⟨fun d hd => ?_, hlive, ?_⟩
  · exact liveRefs_congr (by rw [hcon]) (by rw [hw, setCpc_cpc, Function.update_of_ne hd, setProducer_cpc])
      fun _ _ => by rw [hcon]
  · rw [liveRefs, hlive, List.filterMap_cons, href, liveRefs, hcon]

theorem decref (h : Inv v) (hpc : v.cpc c = .decref) (hhead : (v.consumer c).list.head? = some j)
    (href : ((v.consumer c).cells j).ref = some (p, i)) :
    Inv ((v.setProducer p ((v.producer p).set i decrefItem)).setCpc c (.check p)) := by
  set w := (v.setProducer p ((v.producer p).set i decrefItem)).setCpc c (.check p) with hw
  obtain ⟨hne, hlive, hrefs⟩ := liveRefs_decref hpc hhead href hw
  have hsub : ∀ d j', j' ∈ w.live d → j' ∈ v.live d := fun d j' hj => by
    by_cases hd : d = c
    · subst hd
      rw [hlive]
      exact List.mem_cons_of_mem _ hj
    · rwa [(hne d hd).1] at hj
  have hstatus : ∀ k, (((v.producer p).set i decrefItem).cells k).status = ((v.producer p).cells k).status := fun k =>
    Fifo.set_field _ i k _ _ rfl
  have hsame : ∀ k, SameFrame (v.producer p) ((v.producer p).set i decrefItem) k := fun k => by
    constructor <;> exact Fifo.set_field _ i k _ _ rfl
  have hprods : ∀ q, q ≠ p → w.producer q = v.producer q := fun q hq => by
    rw [hw, setCpc_producer, setProducer_producer, Function.update_of_ne hq]
  have hprod : w.producer p = (v.producer p).set i decrefItem := by
    rw [hw, setCpc_producer, setProducer_producer, Function.update_self]
  refine ⟨fun q => ?_, fun d => ?_, h.free, h.held, h.inj, fun q u hu => ?_, fun d j' hj => ?_, fun q k => ?_⟩
  · by_cases hq : q = p
    · subst hq
      rw [hprod]
      exact (h.prod q).set_other (fun _ => rfl) (fun _ => rfl) fun _ => rfl
    · rw [hprods q hq]
      exact h.prod q
  · have hd := h.cons d
    refine ⟨hd.nodup, hd.pool, hd.ready, fun hb => ?_⟩
    by_cases hdc : d = c
    · subst hdc
      exact List.ne_nil_of_mem (List.mem_of_head? hhead)
    · rw [hw, setCpc_cpc, Function.update_of_ne hdc] at hb
      exact hd.busy hb
  · have hc := h.copy q u hu
    by_cases hq : q = p
    · subst hq
      have hsrc : ∀ it, u.run q ((w.producer q).cells u.item) it = u.run q ((v.producer q).cells u.item) it := fun it => by
        have hs := hsame u.item
        have hasg : Asg.run q u.item ((w.producer q).cells u.item) = Asg.run q u.item ((v.producer q).cells u.item) :=
          funext fun it => funext fun a => by
            rw [hprod]
            cases a <;> simp only [Asg.run, hs.len, hs.flags, hs.timestamp]
        rw [Copying.run, hasg, Copying.run]
      rw [hsrc, hprod]
      exact hc.mono (hsame _)
    · rw [hprods q hq]
      exact hc
  · obtain ⟨q, k, hcp, hk⟩ := h.live d j' (hsub d j' hj)
    refine ⟨q, k, ?_⟩
    by_cases hq : q = p
    · subst hq
      rw [hprod]
      exact ⟨hcp.mono (hsame k), hk.mem, by rw [hstatus]; exact hk.status⟩
    · rw [hprods q hq]
      exact ⟨hcp, hk⟩
  · have hc := h.count q k
    have hsum : v.refs q k = w.refs q k + [(p, i)].count (q, k) := by
      have := refs_of_ne (p := q) (i := k) fun d hd => (hne d hd).2
      rw [hrefs, List.count_cons] at this
      rw [List.count_singleton]
      omega
    have hppc : w.ppc = v.ppc := rfl
    rw [hsum] at hc
    by_cases hq : q = p
    · subst hq
      rw [hprod]
      by_cases hk : k = i
      · subst hk
        rw [Fifo.set_cells_self]
        simp only [List.count_singleton_self] at hc
        simp only [decrefItem, hc, hppc]
        omega
      · have hcount : [(q, i)].count (q, k) = 0 := by
          simp [Ne.symm hk]
        rw [Fifo.set_cells_of_ne _ _ hk, hc, hcount, Nat.add_zero]
        rfl
    · have hcount : [(p, i)].count (q, k) = 0 := by
        simp [Ne.symm hq]
      rw [hprods q hq, hc, hcount, Nat.add_zero]
      rfl

theorem live_unlink (h : Inv v) (hpc : v.cpc c = .unlink)
    (hw : w = (v.setConsumer c (v.consumer c).pop).setCpc c .idle) :
    (∀ d, w.live d = v.live d) ∧ (∀ d, ∀ k ∈ v.live d, (w.consumer d).cells k = (v.consumer d).cells k) ∧
      ∀ d, w.liveRefs d = v.liveRefs d := by
  have hcons := h.cons c
  obtain ⟨a, l, hl⟩ := List.exists_cons_of_ne_nil (hcons.busy (by rw [hpc]; simp))
  have hnd := hcons.nodup
  rw [hl, List.nodup_cons] at hnd
  have hcon : w.consumer c = (v.consumer c).pop := by
    rw [hw, setCpc_consumer, setConsumer_consumer, Function.update_self]
  have hcons' : ∀ d, d ≠ c → w.consumer d = v.consumer d := fun d hd => by
    rw [hw, setCpc_consumer, setConsumer_consumer, Function.update_of_ne hd]
  have hvlive : v.live c = l := by
    rw [View.live, hpc, hl]
    rfl
  have hlive : ∀ d, w.live d = v.live d := fun d => by
    by_cases hd : d = c
    · subst hd
      rw [hvlive, View.live, hcon, Fifo.pop_list, hl, List.tail_cons, hw, setCpc_cpc, Function.update_self]
      rfl
    · rw [View.live, View.live, hcons' d hd, hw, setCpc_cpc, Function.update_of_ne hd]
      rfl
  have hcell : ∀ d, ∀ k ∈ v.live d, (w.consumer d).cells k = (v.consumer d).cells k := fun d k hk => by
    by_cases hd : d = c
    · subst hd
      rw [hvlive] at hk
      rw [hcon]
      exact Fifo.release_of_notMem (by rw [hl]; simpa using fun e : k = a => hnd.1 (e ▸ hk))
    · rw [hcons' d hd]
  refine ⟨hlive, hcell, fun d => ?_⟩
  rw [liveRefs, liveRefs, hlive]
  exact List.filterMap_congr fun k hk => by rw [hcell d k hk]

theorem unlink (h : Inv v) (hpc : v.cpc c = .unlink) : Inv ((v.setConsumer c (v.consumer c).pop).setCpc c .idle) := by
  have hcons := h.cons c
  obtain ⟨a, l, hl⟩ := List.exists_cons_of_ne_nil (hcons.busy (by rw [hpc]; simp))
  have hnd := hcons.nodup
  rw [hl, List.nodup_cons] at hnd
  set w := (v.setConsumer c (v.consumer c).pop).setCpc c .idle with hw
  obtain ⟨hlive, hlcell, hrefs⟩ := h.live_unlink hpc hw
  have hcell : ∀ k, k ≠ a → (v.consumer c).pop.cells k = (v.consumer c).cells k := fun k hk => by
    refine Fifo.release_of_notMem ?_
    rw [hl]
    simpa using hk
  have hfree : ((v.consumer c).pop.cells a).status = .init := by
    refine Fifo.release_of_mem ?_
    rw [hl]
    simp
  have hcon : w.consumer c = (v.consumer c).pop := by
    rw [hw, setCpc_consumer, setConsumer_consumer, Function.update_self]
  have hcons' : ∀ d, d ≠ c → w.consumer d = v.consumer d := fun d hd => by
    rw [hw, setCpc_consumer, setConsumer_consumer, Function.update_of_ne hd]
  have hlist : (w.consumer c).list = l := by rw [hcon, Fifo.pop_list, hl, List.tail_cons]
  -- An item that is being copied to is off the list, so it is not the head.
  have hheld : ∀ q u, (v.ppc q).copying = some u → (w.consumer u.con).cells u.cur = (v.consumer u.con).cells u.cur :=
    fun q u hu => by
      by_cases hd : u.con = c
      · have hne : u.cur ≠ a := fun e => (h.held q u hu).2.1 (by rw [hd, hl, e]; simp)
        rw [hd, hcon]
        exact hcell _ hne
      · rw [hcons' _ hd]
  refine ⟨h.prod, fun d => ?_, fun d k hk => ?_, fun q u hu => ?_, h.inj, fun q u hu => ?_, fun d k hk => ?_, fun q k => ?_⟩
  · by_cases hd : d = c
    · subst hd
      refine ⟨hlist ▸ hnd.2, fun k hk => ?_, fun k hk => ?_, fun hb => absurd ?_ hb⟩
      · rw [hlist] at hk
        rw [hcon]
        exact hcons.pool k (hl ▸ List.mem_cons_of_mem _ hk)
      · rw [hlist] at hk
        rw [hcon, hcell k fun e => hnd.1 (e ▸ hk)]
        exact hcons.ready k (hl ▸ List.mem_cons_of_mem _ hk)
      · rw [hw, setCpc_cpc, Function.update_self]
    · rw [hcons' d hd, hw, setCpc_cpc, Function.update_of_ne hd]
      exact h.cons d
  · by_cases hd : d = c
    · subst hd
      rw [hcon] at hk ⊢
      by_cases hka : k = a
      · subst hka
        refine iff_of_true hfree ⟨by rw [Fifo.pop_list, hl]; exact hnd.1, fun q u hq hcu hcur => ?_⟩
        exact (h.held q u hq).2.1 (by rw [hcu, hcur, hl]; simp)
      · rw [hcell k hka, h.free d k hk, Fifo.pop_list, hl, List.tail_cons, List.mem_cons]
        simp only [hka, false_or]
        rfl
    · rw [hcons' d hd] at hk ⊢
      exact h.free d k hk
  · obtain ⟨h1, h2, h3⟩ := h.held q u hu
    rw [hheld q u hu]
    by_cases hd : u.con = c
    · rw [hd] at h1 h2
      rw [hd, hcon, Fifo.pop_itemCnt, Fifo.pop_list, ← hd]
      exact ⟨hd ▸ h1, fun e => h2 (List.mem_of_mem_tail (hd ▸ e)), h3⟩
    · rw [hcons' _ hd]
      exact ⟨h1, h2, h3⟩
  · rw [hheld q u hu]
    exact h.copy q u hu
  · rw [hlive] at hk
    rw [hlcell d k hk]
    exact h.live d k hk
  · rw [refs_congr hrefs]
    exact h.count q k

/-- The invariant holds after every step. -/
theorem step (h : Inv v) {a : Action P C} (hs : Step v a w) : Inv w := by
  cases hs with
  | dataAdd pc => exact h.dataAdd pc
  | alloc pc lt free => exact h.alloc pc lt free
  | flush pc tail filling => exact h.flush pc tail filling
  | flushNone pc tail => exact h.flushNone pc tail
  | allocCon pc lt free => exact h.allocCon pc lt free
  | doing pc => exact h.doing pc
  | assign pc => exact h.assign pc
  | incref pc => exact h.incref pc
  | link pc => exact h.link pc
  | check pc => exact h.check pc
  | mark pc => exact h.markItem pc
  | linkOwn pc => exact h.linkOwn pc
  | tail pc tail => exact h.tail pc tail
  | room pc tail => exact h.room pc tail
  | copy pc tail => exact h.copyBytes pc tail
  | grow pc tail => exact h.grow pc tail
  | close pc frameend tail => exact h.close pc tail
  | closeOpen pc more => exact h.closeOpen pc
  | removeHead pc ne => exact h.removeHead pc ne
  | removeNone pc nil => exact h
  | decref pc head ref => exact h.decref pc head ref
  | checkCon pc => exact h.checkCon pc
  | unlink pc => exact h.unlink pc

end Inv
end View
end Recbcsrv
