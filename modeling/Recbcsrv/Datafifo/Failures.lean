import Recbcsrv.Datafifo.Calls

/-! The calls of `datafifo_producer_data_add` that fail. A call that continues a frame although none is being filled returns
    `-4`, unless the list is empty: then it reads through the null tail. A call that begins a frame and brings too many
    bytes for an item returns `-5` after it has completed the old frame and opened an empty one. -/

set_option linter.unusedSectionVars false

namespace Recbcsrv
open Datafifo

namespace Fifos
variable {P C : Type} [DecidableEq P] [DecidableEq C]

/-- The call reads the status of the tail although there is none. -/
def ReadsNullTail (f : Fifos P C) (p : P) (call : Call) : Prop :=
  ¬hasFlag call.flags frameFlagNewframe ∧ (f.producer p).listtail = none

/-- The call is refused and nothing happens. -/
structure Refuses (f : Fifos P C) (p : P) (call : Call) : Prop where
  returns : f.datafifoProducerDataAdd p call = some (f, -4)
  reads : ¬f.ReadsNullTail p call

/-- The list, the pool, and the statuses, lengths and reference counts of its items are those of before. -/
structure Unchanged (df df' : Datafifo P C) : Prop where
  list : df'.list = df.list
  itemCnt : df'.itemCnt = df.itemCnt
  status : ∀ i, (df'.items i).status = (df.items i).status
  len : ∀ i, (df'.items i).len = (df.items i).len
  refcnt : ∀ i, (df'.items i).refcnt = (df.items i).refcnt

theorem Unchanged.refl (df : Datafifo P C) : Unchanged df df := ⟨rfl, rfl, fun _ => rfl, fun _ => rfl, fun _ => rfl⟩

/-- All FIFOs are as before. -/
structure Untouched (f f' : Fifos P C) : Prop where
  producer : ∀ p, Unchanged (f.producer p) (f'.producer p)
  consumer : ∀ c, Unchanged (f.consumer c) (f'.consumer c)

section
variable {f f' : Fifos P C} {p : P} {call : Call} {r : Int} {df df' : Datafifo P C} {i : Nat}

/-- The bytes of a call that fails at the end do not go anywhere. -/
theorem fillTail_of_neg (h : f.fillTail p call = some (f', r)) (hr : r < 0) : f' = f := by
  unfold fillTail at h
  dsimp only at h
  split at h
  · cases h
  · split at h
    · cases h
      rfl
    · split at h
      · simp only [Option.bind_eq_bind, Option.bind_eq_some_iff, Option.some.injEq, Prod.mk.injEq] at h
        obtain ⟨g, -, -, rfl⟩ := h
        exact absurd hr (Int.lt_irrefl 0)
      · cases h
        exact absurd hr (Int.lt_irrefl 0)

/-- A call that continues a frame and fails changes nothing. -/
theorem continuation_of_neg (hnew : ¬hasFlag call.flags frameFlagNewframe)
    (h : f.datafifoProducerDataAdd p call = some (f', r)) (hr : r < 0) : f' = f := by
  rw [datafifoProducerDataAdd, if_neg hnew] at h
  split at h
  · cases h
  · split at h
    · cases h
      rfl
    · exact fillTail_of_neg h hr

theorem listtail_datafifoListAddtail (h : datafifoListAddtail df i = some df') : df'.listtail = some i := by
  unfold datafifoListAddtail at h
  split at h
  · cases h
    rfl
  · split at h
    · cases h
    · cases h
      rfl

/-- A call that begins a frame and fails leaves a new item at the tail that was free before. -/
theorem newframe_of_neg (hnew : hasFlag call.flags frameFlagNewframe)
    (h : f.datafifoProducerDataAdd p call = some (f', r)) (hr : r < 0) :
    ∃ cur, ((f.producer p).items cur).status = .init ∧ (f'.producer p).listtail = some cur := by
  rw [datafifoProducerDataAdd, if_pos hnew] at h
  simp only [Option.bind_eq_bind, Option.bind_eq_some_iff] at h
  obtain ⟨⟨df, cur⟩, halloc, g, -, df', hadd, hfill⟩ := h
  obtain ⟨-, hfree, -⟩ := datafifoAlloc_eq_some halloc
  refine ⟨cur, hfree, ?_⟩
  have htail : (g.setProducer p df').producer p = df' := Function.update_self ..
  rw [fillTail_of_neg hfill hr, htail]
  exact listtail_datafifoListAddtail hadd

end

section
variable [Fintype C]

/-- After every sequence of calls, a call that continues a frame while none is being filled is refused exactly when the
    list is not empty. -/
theorem continuation_refused_iff (psize pcnt : P → Nat) (csize ccnt : C → Nat) (ops : List (Op P C)) (f : Fifos P C)
    (h : Exec.exec apply (init psize pcnt csize ccnt) ops = some f) (p : P) (call : Call)
    (hnew : ¬hasFlag call.flags frameFlagNewframe)
    (hfill : ∀ i < (f.producer p).itemCnt, ((f.producer p).items i).status ≠ .filling) :
    f.Refuses p call ↔ (f.producer p).listhead ≠ none := by
  have hw := (Ok.exec h).producerWf p
  have hempty : (f.producer p).listhead = none ↔ (f.producer p).listtail = none := by
    rw [hw.listhead, hw.listtail, List.head?_eq_none_iff, List.getLast?_eq_none_iff]
  rw [ne_eq, hempty]
  constructor
  · exact fun hr hnone => hr.reads ⟨hnew, hnone⟩
  · intro hne
    refine ⟨?_, fun hread => hne hread.2⟩
    obtain ⟨t, ht⟩ := Option.ne_none_iff_exists'.mp hne
    have hmem : t ∈ (f.producer p).list := List.mem_of_getLast? (hw.listtail ▸ ht)
    rw [datafifoProducerDataAdd, if_neg hnew]
    simp only [ht, if_pos (hfill t (hw.rep.pool t hmem))]

/-- A frame is handed out and not taken, so that the list is not empty. -/
theorem continuation_refused_iff_untaken : ∃ f : Fifos Unit Unit,
    Exec.exec apply (init (fun _ => 4) (fun _ => 2) (fun _ => 0) fun _ => 2)
      [.connect () (), .dataAdd () ⟨[1], frameFlagNewframe ||| frameFlagFrameend, 0⟩] = some f ∧
    f.Refuses () ⟨[2], 0, 0⟩ := by
  have hrun : (Exec.exec apply (init (fun _ => 4) (fun _ => 2) (fun _ => 0) fun _ => 2)
      [.connect () (), .dataAdd () ⟨[1], frameFlagNewframe ||| frameFlagFrameend, 0⟩] : Option (Fifos Unit Unit)).any
      (fun f => (f.producer ()).itemCnt = 2 ∧ (f.producer ()).listhead = some 0 ∧
        ∀ i < 2, ((f.producer ()).items i).status ≠ .filling) = true := by
    decide +kernel
  obtain ⟨f, hf, hr⟩ := (Option.any_eq_true ..).mp hrun
  simp only [decide_eq_true_eq] at hr
  obtain ⟨hcnt, hhead, hfill⟩ := hr
  refine ⟨f, hf, (continuation_refused_iff _ _ _ _ _ f hf () ⟨[2], 0, 0⟩ (by decide) fun i hi => hfill i ?_).mpr ?_⟩
  · rw [← hcnt]
    exact hi
  · rw [hhead]
    exact Option.some_ne_none 0

/-- The first packet of a connection continues a frame, and so does one that comes when all frames have been taken. -/
theorem continuation_reads_null : (init (fun _ => 4) (fun _ => 2) (fun _ => 0) (fun _ => 2) : Fifos Unit Unit).ReadsNullTail ()
      ⟨[2], 0, 0⟩ ∧
    ∃ f : Fifos Unit Unit, Exec.exec apply (init (fun _ => 4) (fun _ => 2) (fun _ => 0) fun _ => 2)
      [.connect () (), .dataAdd () ⟨[1], frameFlagNewframe ||| frameFlagFrameend, 0⟩, .removeHead ()] = some f ∧
    (∀ i < (f.producer ()).itemCnt, ((f.producer ()).items i).status ≠ .filling) ∧
    f.ReadsNullTail () ⟨[2], 0, 0⟩ ∧ ¬f.Refuses () ⟨[2], 0, 0⟩ := by
  refine ⟨⟨by decide, rfl⟩, ?_⟩
  have hrun : (Exec.exec apply (init (fun _ => 4) (fun _ => 2) (fun _ => 0) fun _ => 2)
      [.connect () (), .dataAdd () ⟨[1], frameFlagNewframe ||| frameFlagFrameend, 0⟩, .removeHead ()] :
        Option (Fifos Unit Unit)).any
      (fun f => (∀ i < (f.producer ()).itemCnt, ((f.producer ()).items i).status ≠ .filling) ∧
        (f.producer ()).listtail = none) = true := by
    decide +kernel
  obtain ⟨f, hf, hr⟩ := (Option.any_eq_true ..).mp hrun
  simp only [decide_eq_true_eq] at hr
  have hread : f.ReadsNullTail () ⟨[2], 0, 0⟩ := ⟨by decide, hr.2⟩
  exact ⟨f, hf, hr.1, hread, fun href => href.reads hread⟩

/-- After every sequence of calls, a call that fails leaves all FIFOs as they were exactly when it does not begin a
    frame. -/
theorem failed_untouched_iff (psize pcnt : P → Nat) (csize ccnt : C → Nat) (ops : List (Op P C)) (f f' : Fifos P C)
    (h : Exec.exec apply (init psize pcnt csize ccnt) ops = some f) (p : P) (call : Call) (r : Int)
    (hcall : f.datafifoProducerDataAdd p call = some (f', r)) (hr : r < 0) :
    f.Untouched f' ↔ ¬hasFlag call.flags frameFlagNewframe := by
  have happly : f.apply (.dataAdd p call) = some f' := by
    rw [apply, hcall]
    rfl
  have hok : f'.Ok := (Ok.exec h).apply happly
  constructor
  · intro hu hnew
    obtain ⟨cur, hfree, htail⟩ := newframe_of_neg hnew hcall hr
    have hlist := hok.repInv.producer p
    have hmem : cur ∈ (f'.producer p).list := List.mem_of_getLast? ((hok.producerWf p).listtail ▸ htail)
    exact (hlist.free cur (hlist.pool cur hmem)).mp (((hu.producer p).status cur).trans hfree) hmem
  · intro hnew
    rw [continuation_of_neg hnew hcall hr]
    exact ⟨fun p => .refl _, fun c => .refl _⟩

/-- The bytes of a continuation do not fit behind those of the frame. -/
theorem failed_untouched_iff_continuation : ∃ f f' : Fifos Unit Unit,
    f.datafifoProducerDataAdd () ⟨[4, 5], 0, 0⟩ = some (f', -5) ∧ f.Untouched f' := by
  have hrun : (Exec.exec apply (init (fun _ => 4) (fun _ => 2) (fun _ => 0) fun _ => 2)
      [.connect () (), .dataAdd () ⟨[1, 2, 3], frameFlagNewframe, 0⟩] : Option (Fifos Unit Unit)).any
      (fun f => (f.datafifoProducerDataAdd () ⟨[4, 5], 0, 0⟩).any fun g => g.2 = -5) = true := by
    decide +kernel
  obtain ⟨f, hf, hr⟩ := (Option.any_eq_true ..).mp hrun
  obtain ⟨⟨f', r⟩, hf', hr⟩ := (Option.any_eq_true ..).mp hr
  obtain rfl : r = -5 := of_decide_eq_true hr
  exact ⟨f, f', hf', (failed_untouched_iff _ _ _ _ _ f f' hf () _ _ hf' (by decide)).mpr (by decide)⟩

/-- Five bytes for an item of four: the call fails, the frame before it is completed and an empty one is open. -/
theorem failed_newframe_opens : ∃ f f' : Fifos Unit Unit,
    Exec.exec apply (init (fun _ => 4) (fun _ => 3) (fun _ => 0) fun _ => 2)
      [.connect () (), .dataAdd () ⟨[1], frameFlagNewframe, 0⟩] = some f ∧
    f.datafifoProducerDataAdd () ⟨[1, 2, 3, 4, 5], frameFlagNewframe ||| frameFlagFrameend, 0⟩ = some (f', -5) ∧
    ((f.producer ()).list = [0] ∧ (f.consumer ()).list = []) ∧ ((f'.producer ()).list = [0, 1] ∧ (f'.consumer ()).list = [0]) ∧
    ¬f.Untouched f' := by
  have hrun : (Exec.exec apply (init (fun _ => 4) (fun _ => 3) (fun _ => 0) fun _ => 2)
      [.connect () (), .dataAdd () ⟨[1], frameFlagNewframe, 0⟩] : Option (Fifos Unit Unit)).any
      (fun f => ((f.producer ()).list = [0] ∧ (f.consumer ()).list = []) ∧
        (f.datafifoProducerDataAdd () ⟨[1, 2, 3, 4, 5], frameFlagNewframe ||| frameFlagFrameend, 0⟩).any fun g =>
          g.2 = -5 ∧ (g.1.producer ()).list = [0, 1] ∧ (g.1.consumer ()).list = [0]) = true := by
    decide +kernel
  obtain ⟨f, hf, hr⟩ := (Option.any_eq_true ..).mp hrun
  simp only [decide_eq_true_eq] at hr
  obtain ⟨⟨f', r⟩, hf', hr'⟩ := (Option.any_eq_true ..).mp hr.2
  simp only [decide_eq_true_eq] at hr'
  obtain ⟨rfl, hlists⟩ := hr'
  refine ⟨f, f', hf, hf', hr.1, hlists, fun hu => ?_⟩
  have hlist := (hu.consumer ()).list
  rw [hr.1.2, hlists.2] at hlist
  cases hlist

end

end Fifos
end Recbcsrv
