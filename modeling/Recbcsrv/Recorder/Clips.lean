import Recbcsrv.Recorder.Contents

/-! A file of the recorder as clips of its stream. A clip leaves out some frames of the stream, opens or closes the file, and
    then has the frames that follow without a gap; the first of them is one with which a stream starts. -/

namespace Recbcsrv

/-- The frames that are left out, what is done to the file, and the frames that are written then. -/
structure Clip (α : Type) where
  skipped : List α
  ops : List TapeOp
  kept : List α

namespace Clip
variable {α β : Type}

/-- The frames of the stream. -/
def stream (c : Clip α) : List α := c.skipped ++ c.kept

/-- What is done to the file, where a frame of the stream is written as `g` says. -/
def tape (g : α → AvFrame) (c : Clip α) : List TapeOp := c.ops ++ c.kept.map fun f => .frame (g f)

/-- Nothing is written before the first frame, and that is one of those that `begins` tells. -/
structure Sound (begins : α → Prop) (c : Clip α) : Prop where
  ops : ∀ op ∈ c.ops, op = .open ∨ op = .close
  first : ∀ f ∈ c.kept.head?, begins f

/-- Clips of a stream are clips of what the stream is made of. -/
theorem exists_of_map {g : α → β} {clips : List (Clip β)} {l : List α} (h : clips.flatMap stream = l.map g) :
    ∃ clips' : List (Clip α), clips'.flatMap stream = l ∧ clips = clips'.map fun c => ⟨c.skipped.map g, c.ops, c.kept.map g⟩ := by
  induction clips generalizing l with
  | nil => exact ⟨[], (List.map_eq_nil_iff.mp h.symm).symm, rfl⟩
  | cons c clips ih =>
    obtain ⟨l₁, l₂, rfl, hc, hrest⟩ := List.map_eq_append_iff.mp h.symm
    obtain ⟨skipped, kept, rfl, hskipped, hkept⟩ := List.map_eq_append_iff.mp hc
    obtain ⟨clips', rfl, rfl⟩ := ih hrest.symm
    refine ⟨⟨skipped, c.ops, kept⟩ :: clips', rfl, ?_⟩
    rw [List.map_cons, hskipped, hkept]

end Clip

namespace Track
variable {k : Track} {mode : Int} {turns : List Turn} {t : Turn} {p : RecPhase} {f : AvFrame}

/-- A frame at which a clip may begin: with sound any. -/
def Begins (k : Track) (f : AvFrame) : Prop := k = .sound ∨ f.startsStream = true

/-- The frames of the stream that the turns have got. -/
def stream (k : Track) (turns : List Turn) : List AvFrame := (turns.filterMap Turn.frame).filter (·.source = k.own)

theorem own_eq_lead (h : k ≠ .sound) : k.own = k.lead := by
  cases k with
  | sound => exact absurd rfl h
  | _ => rfl

/-- The clips of the turns so far. The last of them goes on while the track is recording. -/
structure Clipped (k : Track) (p : RecPhase) (stream : List AvFrame) (tape : List TapeOp) (clips : List (Clip AvFrame)) : Prop where
  stream : clips.flatMap Clip.stream = stream
  tape : clips.flatMap (Clip.tape id) = tape
  sound : ∀ c ∈ clips, c.Sound k.Begins
  recording : k ≠ .sound → p = .recording → ∃ init c, clips = init ++ [c] ∧ c.kept ≠ []

section
variable {stream : List AvFrame} {tape : List TapeOp} {clips : List (Clip AvFrame)}

/-- A further clip. -/
theorem Clipped.snoc (h : k.Clipped p stream tape clips) (c : Clip AvFrame) (hc : c.Sound k.Begins) {q : RecPhase}
    (hq : k ≠ .sound → q = .recording → c.kept ≠ []) :
    k.Clipped q (stream ++ c.stream) (tape ++ c.tape id) (clips ++ [c]) where
  stream := by rw [List.flatMap_append, h.stream, List.flatMap_singleton]
  tape := by rw [List.flatMap_append, h.tape, List.flatMap_singleton]
  sound := List.forall_mem_append.mpr ⟨h.sound, List.forall_mem_singleton.mpr hc⟩
  recording hk hrec := ⟨clips, c, rfl, hq hk hrec⟩

/-- The last clip goes on. -/
theorem Clipped.extend (h : k.Clipped .recording stream tape clips) (hk : k ≠ .sound) (f : AvFrame) :
    ∃ clips', k.Clipped .recording (stream ++ [f]) (tape ++ [.frame f]) clips' := by
  obtain ⟨init, c, rfl, hne⟩ := h.recording hk rfl
  obtain ⟨g, kept, hkept⟩ := List.exists_cons_of_ne_nil hne
  have hs := h.stream
  have ht := h.tape
  have hsound := List.forall_mem_append.mp h.sound
  have hc := hsound.2 c (List.mem_singleton_self c)
  rw [List.flatMap_append, List.flatMap_singleton] at hs ht
  refine ⟨init ++ [⟨c.skipped, c.ops, c.kept ++ [f]⟩], ?_, ?_, ?_, fun _ _ => ⟨init, _, rfl, by simp⟩⟩
  · rw [← hs, List.flatMap_append, List.flatMap_singleton]
    simp [Clip.stream]
  · rw [← ht, List.flatMap_append, List.flatMap_singleton]
    simp [Clip.tape]
  · refine List.forall_mem_append.mpr ⟨hsound.1, List.forall_mem_singleton.mpr ⟨hc.ops, fun x hx => hc.first x ?_⟩⟩
    rw [hkept] at hx ⊢
    exact hx

/-- An operation on the session. -/
theorem Clipped.onOp (h : k.Clipped p stream tape clips) (op : CtrlOp) :
    ∃ clips', k.Clipped (p.onOp op).1 stream (tape ++ (p.onOp op).2) clips' := by
  have hclip : ∀ ops : List TapeOp, (∀ o ∈ ops, o = .open ∨ o = .close) → ∀ q : RecPhase, q ≠ .recording →
      ∃ clips', k.Clipped q stream (tape ++ ops) clips' := fun ops hops q hq => by
    have hnew := h.snoc ⟨[], ops, []⟩ ⟨hops, fun f hf => by cases hf⟩ (q := q) (fun _ hc => absurd hc hq)
    simp only [Clip.stream, Clip.tape, List.append_nil, List.map_nil] at hnew
    exact ⟨_, hnew⟩
  cases op with
  | start => exact hclip [.open] (by simp) .waiting nofun
  | stop => exact hclip [.close] (by simp) .off nofun
  | pause => exact hclip [] (List.forall_mem_nil _) .paused nofun
  | resume => exact hclip [] (List.forall_mem_nil _) .waiting nofun
  | none => exact ⟨clips, (List.append_nil tape).symm ▸ h⟩

/-- A frame of the stream, or another one. -/
theorem Clipped.onFrame (h : k.Clipped p stream tape clips) (f : AvFrame) :
    ∃ clips', k.Clipped (k.onFrame p f).1 (stream ++ [f].filter (·.source = k.own)) (tape ++ (k.onFrame p f).2) clips' := by
  have hskip : k.seen p f ≠ .recording → ∃ clips', k.Clipped (k.seen p f) (stream ++ [f]) (tape ++ []) clips' := fun hseen =>
    ⟨_, h.snoc ⟨[f], [], []⟩ ⟨List.forall_mem_nil _, fun g hg => by cases hg⟩ fun _ hc => absurd hc hseen⟩
  by_cases hown : f.source = k.own
  · have hfilter : [f].filter (·.source = k.own) = [f] := List.filter_eq_self.mpr fun g hg => by
      rw [List.mem_singleton.mp hg]
      exact decide_eq_true hown
    rw [hfilter, Track.onFrame]
    by_cases hseen : k.seen p f = .recording
    · simp only [hown, hseen, true_and, if_true]
      by_cases hbegins : k.Begins f
      · refine ⟨_, h.snoc ⟨[], [], [f]⟩ ⟨List.forall_mem_nil _, fun g hg => ?_⟩ fun _ _ => List.cons_ne_nil _ _⟩
        cases hg
        exact hbegins
      · -- The stream does not start here, so it is being recorded.
        obtain ⟨hk, hstarts⟩ := not_or.mp hbegins
        rw [seen, if_neg fun hc => hstarts hc.2.2] at hseen
        subst hseen
        exact h.extend hk f
    · simp only [hseen, and_false, if_false]
      exact hskip hseen
  · have hfilter : [f].filter (·.source = k.own) = [] := List.filter_eq_nil_iff.mpr fun g hg => by
      rw [List.mem_singleton.mp hg]
      exact fun hc => hown (of_decide_eq_true hc)
    rw [hfilter, List.append_nil, Track.onFrame, if_neg fun hc : f.source = k.own ∧ _ => hown hc.1, List.append_nil]
    refine ⟨clips, h.stream, h.tape, h.sound, fun hk hrec => h.recording hk ?_⟩
    rwa [seen, if_neg fun hc => hown (own_eq_lead hk ▸ hc.1)] at hrec

end

/-- What the recorder of a track has done to its file is made of clips of the stream. -/
theorem exists_clipped (k : Track) (mode : Int) (turns : List Turn) :
    ∃ clips, k.Clipped (k.record mode turns).1 (k.stream turns) (k.record mode turns).2 clips := by
  induction turns using List.reverseRecOn with
  | nil => exact ⟨[], rfl, rfl, List.forall_mem_nil _, fun _ h => by cases h⟩
  | append_singleton turns t ih =>
    obtain ⟨clips, h⟩ := ih
    obtain ⟨clips₁, h₁⟩ := h.onOp (k.op mode t)
    have hstream : k.stream (turns ++ [t]) = k.stream turns ++ (t.frame.toList.filter (·.source = k.own)) := by
      rw [stream, List.filterMap_append, List.filter_append]
      congr 2
    rw [record_concat, hstream, onTurn]
    cases hf : t.frame with
    | none =>
      simp only [Option.elim_none, Option.toList_none, List.filter_nil, List.append_nil]
      exact ⟨clips₁, h₁⟩
    | some f =>
      obtain ⟨clips₂, h₂⟩ := h₁.onFrame f
      rw [List.append_assoc] at h₂
      exact ⟨clips₂, h₂⟩

end Track

end Recbcsrv
