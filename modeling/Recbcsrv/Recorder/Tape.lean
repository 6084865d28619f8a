import Mathlib.Data.List.Induction
import Recbcsrv.Recorder.Localsave

/-! What a session leaves in the `.264` and the `.pro` file. The markers say where the recording is switched on and off;
    they agree with the frames unless a `Resume` comes while frames are being written: it makes the recorder wait for the
    next key frame without saying so. -/

namespace Recbcsrv

/-- The index from which a marker counts. -/
def Marker.index : Marker → Nat
  | resume n => n
  | pause n => n
  | stop n => n

/-- `RESUME` switches the recording on, the others switch it off. -/
def Marker.switchesOn : Marker → Bool
  | resume _ => true
  | _ => false

/-- The index is covered by the markers, read in order. -/
def covers (marks : List Marker) (i : Nat) : Bool :=
  marks.foldl (fun on mk => if mk.index ≤ i then mk.switchesOn else on) false

def Written.marker? : Written → Option Marker
  | marker mk => some mk
  | _ => none

/-- The recording that the two files hold describes itself: the frames written are those that the markers cover, and every
    `RESUME` stands before a frame with which a stream starts. -/
structure SelfDescribing (frames : List AvFrame) (tape : List Written) : Prop where
  stored : ∀ n f, .store n f ∈ tape → frames[n]? = some f
  covered : ∀ n, (∃ f, .store n f ∈ tape) ↔ covers (tape.filterMap Written.marker?) n = true
  keyed : ∀ pre n post, tape = pre ++ .marker (.resume n) :: post →
    ∃ f rest, post = .store n f :: rest ∧ f.startsStream = true

/-- What the recording of the mixed stream depends on. -/
inductive SessionInput where
  | pause
  | resume
  | frame (f : AvFrame)

def SessionInput.frame? : SessionInput → Option AvFrame
  | frame f => some f
  | _ => none

/-- What the instructor means a session to be: paused, waiting for a key frame, or recording. -/
inductive SessionPhase where
  | paused
  | waiting
  | recording
  deriving DecidableEq, Repr

def SessionPhase.next : SessionPhase → SessionInput → SessionPhase
  | _, .pause => paused
  | recording, .resume => recording
  | _, .resume => waiting
  | waiting, .frame f => if f.startsStream then recording else waiting
  | p, .frame _ => p

def phaseAfter (inputs : List SessionInput) : SessionPhase := inputs.foldl SessionPhase.next .waiting

/-- The frame that follows a `Resume` starts a stream, if the session was already recording. -/
def ResumesTimely (inputs : List SessionInput) : Prop :=
  ∀ pre f post, inputs = pre ++ .resume :: .frame f :: post → phaseAfter pre = .recording → f.startsStream = true

/-- The variables of `thread_localsave` for the mixed stream, and what is written of it. -/
structure Taping where
  status : LocalsaveStatus
  count : Nat
  tape : List Written

namespace Taping

/-- The variables after a `GETDATA` of type `All`. -/
def opened : Taping := ⟨.resume, 0, []⟩

def next (s : Taping) : SessionInput → Taping
  | .pause => { s with status := .pause, tape := s.tape ++ [.marker (.pause s.count)] }
  | .resume => { s with status := .resume }
  | .frame f =>
    let s := if s.status = .resume ∧ f.startsStream then
        { s with status := .working, tape := s.tape ++ [.marker (.resume s.count)] }
      else s
    let s := if s.status = .working then { s with tape := s.tape ++ [.store s.count f] } else s
    { s with count := s.count + 1 }

def run (inputs : List SessionInput) : Taping := inputs.foldl next opened

/-- All that a frame can do. -/
inductive FrameStep (s : Taping) (f : AvFrame) : Taping → Prop where
  | start (hstatus : s.status = .resume) (hkey : f.startsStream = true) :
      FrameStep s f ⟨.working, s.count + 1, s.tape ++ [.marker (.resume s.count)] ++ [.store s.count f]⟩
  | store (hstatus : s.status = .working) : FrameStep s f ⟨.working, s.count + 1, s.tape ++ [.store s.count f]⟩
  | skip (hstatus : s.status ≠ .working) (hkey : s.status = .resume → f.startsStream = false) :
      FrameStep s f ⟨s.status, s.count + 1, s.tape⟩

variable {s : Taping} {f : AvFrame} {x : SessionInput} {l : List SessionInput} {n i : Nat} {tape : List Written} {mk : Marker}

theorem next_frame (s : Taping) (f : AvFrame) : s.FrameStep f (s.next (.frame f)) := by
  obtain ⟨status, count, tape⟩ := s
  unfold next
  by_cases hstart : status = .resume ∧ f.startsStream = true
  · obtain ⟨rfl, hkey⟩ := hstart
    simp only [hkey, and_self, if_true]
    exact .start rfl hkey
  · simp only [if_neg hstart]
    split
    · next hworking =>
      subst hworking
      exact .store rfl
    · next hidle => exact .skip hidle fun hr => Bool.eq_false_iff.mpr fun hkey => hstart ⟨hr, hkey⟩

theorem run_concat : run (l ++ [x]) = (run l).next x := List.foldl_concat ..

theorem phaseAfter_concat : phaseAfter (l ++ [x]) = (phaseAfter l).next x := List.foldl_concat ..

/-! ### One more entry -/

/-- The markers on the tape cover the index. -/
def covered (tape : List Written) (i : Nat) : Bool := covers (tape.filterMap Written.marker?) i

def Stored (tape : List Written) (i : Nat) : Prop := ∃ f, .store i f ∈ tape

theorem covered_marker : covered (tape ++ [.marker mk]) i = if mk.index ≤ i then mk.switchesOn else covered tape i := by
  rw [covered, List.filterMap_append]
  exact List.foldl_append

theorem covered_before (h : i < mk.index) : covered (tape ++ [.marker mk]) i = covered tape i :=
  covered_marker.trans (if_neg (Nat.not_le.mpr h))

theorem covered_from (h : mk.index ≤ i) : covered (tape ++ [.marker mk]) i = mk.switchesOn :=
  covered_marker.trans (if_pos h)

theorem covered_store : covered (tape ++ [.store n f]) i = covered tape i := by
  rw [covered, List.filterMap_append]
  exact congrArg (covers · i) (List.append_nil _)

theorem stored_marker : Stored (tape ++ [.marker mk]) i ↔ Stored tape i := by
  simp [Stored]

theorem stored_store : Stored (tape ++ [.store n f]) i ↔ Stored tape i ∨ i = n := by
  constructor
  · rintro ⟨g, hg⟩
    rcases List.mem_append.mp hg with hg | hg
    · exact .inl ⟨g, hg⟩
    · exact .inr (Written.store.inj (List.mem_singleton.mp hg)).1
  · rintro (⟨g, hg⟩ | rfl)
    · exact ⟨g, List.mem_append_left _ hg⟩
    · exact ⟨f, List.mem_append_right _ (List.mem_singleton_self _)⟩

/-! ### What holds in every session -/

/-- Every `RESUME` stands before a frame with which a stream starts. -/
def Keyed (tape : List Written) : Prop :=
  ∀ pre n post, tape = pre ++ .marker (.resume n) :: post → ∃ f rest, post = .store n f :: rest ∧ f.startsStream = true

theorem Keyed.append {more : List Written} (h : Keyed tape) (h' : Keyed more) : Keyed (tape ++ more) := by
  intro pre n post hsplit
  rcases List.append_eq_append_iff.mp hsplit with ⟨mid, rfl, hmore⟩ | ⟨mid, htape, hpost⟩
  · exact h' mid n post hmore
  · cases mid with
    | nil =>
      rw [List.nil_append] at hpost
      exact h' [] n post hpost.symm
    | cons w mid =>
      obtain ⟨rfl, rfl⟩ := List.cons.inj hpost
      obtain ⟨f, rest, rfl, hkey⟩ := h pre n mid htape
      exact ⟨f, rest ++ more, rfl, hkey⟩

theorem keyed_singleton {w : Written} (hw : ∀ n, w ≠ .marker (.resume n)) : Keyed [w] := by
  intro pre n post hsplit
  cases pre with
  | nil => exact absurd (List.cons.inj hsplit).1 (hw n)
  | cons v pre => simp at hsplit

theorem keyed_start (hkey : f.startsStream = true) : Keyed [.marker (.resume n), .store n f] := by
  intro pre m post hsplit
  cases pre with
  | nil =>
    obtain ⟨hm, rfl⟩ := List.cons.inj hsplit
    cases hm
    exact ⟨f, [], rfl, hkey⟩
  | cons v pre =>
    obtain ⟨rfl, hsplit⟩ := List.cons.inj hsplit
    exact absurd hsplit (by cases pre <;> simp)

/-- The frames are counted, and those on the tape have the numbers that they were counted with. -/
structure Counted (l : List SessionInput) (s : Taping) : Prop where
  count : s.count = (l.filterMap SessionInput.frame?).length
  stored : ∀ n f, .store n f ∈ s.tape → (l.filterMap SessionInput.frame?)[n]? = some f
  keyed : Keyed s.tape

theorem Counted.lt (h : Counted l s) (hs : Stored s.tape i) : i < s.count := by
  obtain ⟨f, hf⟩ := hs
  rw [h.count]
  exact (List.getElem?_eq_some_iff.mp (h.stored i f hf)).1

theorem Counted.frame {s' : Taping} (h : Counted l s) (hs : s.FrameStep f s') : Counted (l ++ [.frame f]) s' := by
  have hframes : (l ++ [SessionInput.frame f]).filterMap SessionInput.frame? = l.filterMap SessionInput.frame? ++ [f] :=
    List.filterMap_append
  have hold : ∀ n g, .store n g ∈ s.tape → ((l ++ [SessionInput.frame f]).filterMap SessionInput.frame?)[n]? = some g := by
    intro n g hg
    rw [hframes, List.getElem?_append_left ((h.lt ⟨g, hg⟩).trans_eq h.count)]
    exact h.stored n g hg
  have hnew : ((l ++ [SessionInput.frame f]).filterMap SessionInput.frame?)[s.count]? = some f := by
    rw [hframes, h.count, List.getElem?_concat_length]
  have hcount : s.count + 1 = ((l ++ [SessionInput.frame f]).filterMap SessionInput.frame?).length := by
    rw [hframes, h.count, List.length_append, List.length_singleton]
  cases hs with
  | start hstatus hkey =>
    refine ⟨hcount, fun n g hg => ?_, ?_⟩
    · simp only [List.mem_append, List.mem_singleton] at hg
      rcases hg with (hg | hg) | hg
      · exact hold n g hg
      · cases hg
      · cases hg
        exact hnew
    · rw [List.append_assoc]
      exact h.keyed.append (keyed_start hkey)
  | store hstatus =>
    refine ⟨hcount, fun n g hg => ?_, h.keyed.append (keyed_singleton fun n h => by cases h)⟩
    rcases List.mem_append.mp hg with hg | hg
    · exact hold n g hg
    · cases List.mem_singleton.mp hg
      exact hnew
  | skip hstatus hkey => exact ⟨hcount, hold, h.keyed⟩

theorem run_counted (l : List SessionInput) : Counted l (run l) := by
  induction l using List.reverseRecOn with
  | nil => exact ⟨rfl, fun n f h => absurd h List.not_mem_nil, fun pre n post h => by cases pre <;> cases h⟩
  | append_singleton l x ih =>
    rw [run_concat]
    cases x with
    | pause =>
      have hframes : (l ++ [SessionInput.pause]).filterMap SessionInput.frame? = l.filterMap SessionInput.frame? := by
        simp [SessionInput.frame?]
      refine ⟨hframes ▸ ih.count, fun n g hg => ?_, ih.keyed.append (keyed_singleton fun n h => by cases h)⟩
      rcases List.mem_append.mp hg with hg | hg
      · exact hframes ▸ ih.stored n g hg
      · cases List.mem_singleton.mp hg
    | resume =>
      have hframes : (l ++ [SessionInput.resume]).filterMap SessionInput.frame? = l.filterMap SessionInput.frame? := by
        simp [SessionInput.frame?]
      exact ⟨hframes ▸ ih.count, hframes ▸ ih.stored, ih.keyed⟩
    | frame f => exact ih.frame (next_frame _ f)

/-! ### Where the markers agree with the frames -/

/-- A `Resume` has come while frames were being written, and no frame since. -/
def Overtaken (l : List SessionInput) : Prop := ∃ pre, l = pre ++ [.resume] ∧ phaseAfter pre = .recording

theorem resumesTimely_concat : ResumesTimely (l ++ [x]) ↔
    ResumesTimely l ∧ ∀ f, x = .frame f → Overtaken l → f.startsStream = true := by
  constructor
  · intro h
    refine ⟨fun pre f post hl => h pre f (post ++ [x]) (by rw [hl]; simp), ?_⟩
    rintro f rfl ⟨pre, rfl, hrec⟩
    exact h pre f [] (by simp) hrec
  · rintro ⟨h, hlast⟩ pre f post hsplit hrec
    rcases List.eq_nil_or_concat post with rfl | ⟨post, y, rfl⟩
    · have hsplit : l ++ [x] = (pre ++ [.resume]) ++ [.frame f] := by rw [hsplit]; simp
      obtain ⟨rfl, hx⟩ := List.append_inj' hsplit rfl
      exact hlast f (List.cons.inj hx).1 ⟨pre, rfl, hrec⟩
    · have hsplit : l ++ [x] = (pre ++ .resume :: .frame f :: post) ++ [y] := by rw [hsplit]; simp
      obtain ⟨rfl, -⟩ := List.append_inj' hsplit rfl
      exact h pre f post rfl hrec

/-- The markers agree with the frames so far, and say of the frames to come what the instructor means. -/
structure Agrees (l : List SessionInput) (s : Taping) : Prop where
  past : ∀ i < s.count, Stored s.tape i ↔ covered s.tape i = true
  future : ∀ i, s.count ≤ i → (covered s.tape i = true ↔ phaseAfter l = .recording)
  paused : phaseAfter l = .paused → s.status = .pause
  waiting : phaseAfter l = .waiting → s.status = .resume
  recording : phaseAfter l = .recording → s.status = .working ∨ s.status = .resume ∧ Overtaken l

/-- A frame that the markers cover has not been written. -/
def Lost (s : Taping) : Prop := ∃ i < s.count, covered s.tape i = true ∧ ¬ Stored s.tape i

theorem Lost.marker (h : s.Lost) (status : LocalsaveStatus) (mk : Marker) (hmk : s.count ≤ mk.index) :
    Lost ⟨status, s.count, s.tape ++ [.marker mk]⟩ := by
  obtain ⟨i, hi, hcov, hlost⟩ := h
  exact ⟨i, hi, (covered_before (Nat.lt_of_lt_of_le hi hmk)).trans hcov, fun hs => hlost (stored_marker.mp hs)⟩

theorem Lost.store (h : s.Lost) (status : LocalsaveStatus) : Lost ⟨status, s.count + 1, s.tape ++ [.store s.count f]⟩ := by
  obtain ⟨i, hi, hcov, hlost⟩ := h
  refine ⟨i, Nat.lt_succ_of_lt hi, covered_store.trans hcov, fun hs => ?_⟩
  rcases stored_store.mp hs with hs | rfl
  · exact hlost hs
  · exact Nat.lt_irrefl _ hi

theorem Lost.frame {s' : Taping} (h : s.Lost) (hs : s.FrameStep f s') : s'.Lost := by
  cases hs with
  | start hstatus hkey => exact (h.marker .working (.resume s.count) (Nat.le_refl _)).store .working
  | store hstatus => exact h.store .working
  | skip hstatus hkey =>
    obtain ⟨i, hi, hcov, hlost⟩ := h
    exact ⟨i, Nat.lt_succ_of_lt hi, hcov, hlost⟩

/-- What is lost stays lost. -/
theorem Lost.next (h : s.Lost) (x : SessionInput) : (s.next x).Lost := by
  cases x with
  | pause => exact h.marker .pause (.pause s.count) (Nat.le_refl _)
  | resume => exact h
  | frame f => exact h.frame (next_frame s f)

theorem Agrees.pause (h : Agrees l s) : Agrees (l ++ [.pause]) (s.next .pause) := by
  have hphase : phaseAfter (l ++ [.pause]) = .paused := by
    rw [phaseAfter_concat]
    cases phaseAfter l <;> rfl
  refine ⟨fun i hi => ?_, fun i hi => ?_, fun _ => rfl, fun hp => ?_, fun hp => ?_⟩
  · change i < s.count at hi
    have hcov : covered (s.next .pause).tape i = covered s.tape i := covered_before hi
    rw [hcov, ← h.past i hi]
    exact stored_marker
  · have hcov : covered (s.next .pause).tape i = false := covered_from hi
    rw [hcov, hphase]
    simp
  · rw [hphase] at hp
    cases hp
  · rw [hphase] at hp
    cases hp

theorem Agrees.resume (h : Agrees l s) : Agrees (l ++ [.resume]) (s.next .resume) := by
  have hphase : phaseAfter (l ++ [.resume]) = if phaseAfter l = .recording then .recording else .waiting := by
    rw [phaseAfter_concat]
    cases phaseAfter l <;> rfl
  refine ⟨h.past, fun i hi => ?_, fun hp => ?_, fun _ => rfl, fun hp => ?_⟩
  · rw [hphase]
    refine (h.future i hi).trans ?_
    split
    · next hrec => exact iff_of_true hrec rfl
    · next hrec => exact iff_of_false hrec (by simp)
  · rw [hphase] at hp
    split at hp <;> cases hp
  · rw [hphase] at hp
    split at hp
    · next hrec => exact .inr ⟨rfl, l, rfl, hrec⟩
    · cases hp

theorem Agrees.frame {s' : Taping} (h : Agrees l s) (hcounted : Counted l s) (htimely : Overtaken l → f.startsStream = true)
    (hs : s.FrameStep f s') : Agrees (l ++ [.frame f]) s' := by
  have hnew : ¬Stored s.tape s.count := fun hstored => Nat.lt_irrefl _ (hcounted.lt hstored)
  have hphase : phaseAfter (l ++ [.frame f]) = (phaseAfter l).next (.frame f) := phaseAfter_concat
  cases hs with
  | start hstatus hkey =>
    have hrec : phaseAfter (l ++ [.frame f]) = .recording := by
      rw [hphase]
      cases hp : phaseAfter l with
      | paused => cases hstatus.symm.trans (h.paused hp)
      | waiting => exact if_pos hkey
      | recording => rfl
    refine ⟨fun i hi => ?_, fun i hi => ?_, fun hp => ?_, fun hp => ?_, fun _ => .inl rfl⟩
    · rw [stored_store, stored_marker, covered_store]
      by_cases he : i = s.count
      · rw [he]
        exact iff_of_true (.inr rfl) (covered_from (Nat.le_refl _))
      · have hlt : i < s.count := by
          change i < s.count + 1 at hi
          omega
        have hcov : covered (s.tape ++ [.marker (.resume s.count)]) i = covered s.tape i := covered_before hlt
        rw [hcov, ← h.past i hlt]
        exact or_iff_left he
    · rw [covered_store]
      exact iff_of_true (covered_from (Nat.le_of_succ_le hi)) hrec
    · cases hp.symm.trans hrec
    · cases hp.symm.trans hrec
  | store hstatus =>
    have hold : phaseAfter l = .recording := by
      cases hp : phaseAfter l with
      | paused => cases hstatus.symm.trans (h.paused hp)
      | waiting => cases hstatus.symm.trans (h.waiting hp)
      | recording => rfl
    have hrec : phaseAfter (l ++ [.frame f]) = .recording := by
      rw [hphase, hold]
      rfl
    refine ⟨fun i hi => ?_, fun i hi => ?_, fun hp => ?_, fun hp => ?_, fun _ => .inl rfl⟩
    · rw [stored_store, covered_store]
      by_cases he : i = s.count
      · rw [he]
        exact iff_of_true (.inr rfl) ((h.future _ (Nat.le_refl _)).mpr hold)
      · have hlt : i < s.count := by
          change i < s.count + 1 at hi
          omega
        rw [← h.past i hlt]
        exact or_iff_left he
    · rw [covered_store]
      exact iff_of_true ((h.future i (Nat.le_of_succ_le hi)).mpr hold) hrec
    · cases hp.symm.trans hrec
    · cases hp.symm.trans hrec
  | skip hstatus hkey =>
    have hnot : phaseAfter l ≠ .recording := fun hrec => by
      rcases h.recording hrec with hw | ⟨hr, hover⟩
      · exact hstatus hw
      · rw [htimely hover] at hkey
        cases hkey hr
    have hsame : phaseAfter (l ++ [.frame f]) = phaseAfter l := by
      rw [hphase]
      cases hp : phaseAfter l with
      | waiting => exact if_neg (Bool.eq_false_iff.mp (hkey (h.waiting hp)))
      | _ => rfl
    refine ⟨fun i hi => ?_, fun i hi => ?_, fun hp => h.paused (hsame ▸ hp), fun hp => h.waiting (hsame ▸ hp),
      fun hp => absurd (hsame ▸ hp) hnot⟩
    · by_cases he : i = s.count
      · rw [he]
        exact iff_of_false hnew fun hcov => hnot ((h.future _ (Nat.le_refl _)).mp hcov)
      · change i < s.count + 1 at hi
        exact h.past i (by omega)
    · rw [hsame]
      exact h.future i (Nat.le_of_succ_le hi)

/-- The markers agree with the frames after inputs in which every `Resume` is timely, and else a frame is lost. -/
theorem run_agrees (l : List SessionInput) : (ResumesTimely l → Agrees l (run l)) ∧ (¬ResumesTimely l → (run l).Lost) := by
  induction l using List.reverseRecOn with
  | nil =>
    have htimely : ResumesTimely [] := fun pre f post h => by simp at h
    refine ⟨fun _ => ⟨fun i hi => absurd hi (Nat.not_lt_zero i), fun i _ => ?_, fun h => ?_, fun _ => rfl, fun h => ?_⟩,
      fun h => absurd htimely h⟩
    · exact iff_of_false (by simp [run, opened, covered, covers]) (by simp [phaseAfter])
    · cases h
    · cases h
  | append_singleton l x ih =>
    rw [run_concat, resumesTimely_concat]
    refine ⟨fun ⟨htimely, hlast⟩ => ?_, fun hlate => ?_⟩
    · have hl := ih.1 htimely
      cases x with
      | pause => exact hl.pause
      | resume => exact hl.resume
      | frame f => exact hl.frame (run_counted l) (hlast f rfl) (next_frame _ f)
    · by_cases htimely : ResumesTimely l
      · have hl := ih.1 htimely
        rw [not_and] at hlate
        have hlate := hlate htimely
        simp only [not_forall] at hlate
        obtain ⟨f, rfl, ⟨pre, rfl, hrec⟩, hkey⟩ := hlate
        -- The recorder waits for a key frame, and the markers say that it records.
        have hphase : phaseAfter (pre ++ [.resume]) = .recording := by
          rw [phaseAfter_concat, hrec]
          rfl
        have hstatus : (run (pre ++ [.resume])).status = .resume := by
          rw [run_concat]
          rfl
        have hlost := (run_counted (pre ++ [.resume])).lt (i := (run (pre ++ [.resume])).count)
        have hcov := (hl.future _ (Nat.le_refl _)).mpr hphase
        generalize run (pre ++ [.resume]) = s at *
        have hnext := next_frame s f
        generalize s.next (.frame f) = s' at *
        cases hnext with
        | start _ hkey' => exact absurd hkey' hkey
        | store hworking => cases hstatus.symm.trans hworking
        | skip => exact ⟨s.count, Nat.lt_succ_self _, hcov, fun hs => Nat.lt_irrefl _ (hlost hs)⟩
      · exact (ih.2 htimely).next x

/-- The two files after the session: the last marker is a `STOP`. -/
def closed (s : Taping) : List Written := s.tape ++ [.marker (.stop s.count)]

/-- The files of a session describe it exactly when every `Resume` is timely. -/
theorem run_describes (l : List SessionInput) :
    SelfDescribing (l.filterMap SessionInput.frame?) (run l).closed ↔ ResumesTimely l := by
  have hcounted := run_counted l
  constructor
  · intro h
    by_contra hlate
    obtain ⟨i, hi, hcov, hlost⟩ := (run_agrees l).2 hlate
    refine hlost (stored_marker.mp ((h.covered i).mpr ?_))
    have hclosed : covered (run l).closed i = covered (run l).tape i := covered_before hi
    exact hclosed.trans hcov
  · intro htimely
    have hl := (run_agrees l).1 htimely
    refine ⟨fun n f hf => ?_, fun i => stored_marker.trans ?_, hcounted.keyed.append (keyed_singleton fun n h => by cases h)⟩
    · rcases List.mem_append.mp hf with hf | hf
      · exact hcounted.stored n f hf
      · cases List.mem_singleton.mp hf
    · change Stored _ i ↔ covered (run l).closed i = true
      by_cases hi : i < (run l).count
      · have hclosed : covered (run l).closed i = covered (run l).tape i := covered_before hi
        rw [hclosed]
        exact hl.past i hi
      · have hclosed : covered (run l).closed i = false := covered_from (Nat.not_lt.mp hi)
        rw [hclosed]
        exact iff_of_false (fun hs => hi (hcounted.lt hs)) Bool.false_ne_true

end Taping

end Recbcsrv
