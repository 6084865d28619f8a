import Mathlib.Data.List.Induction
import Recbcsrv.Recorder.Localsave

/-! The timestamps of a live session. `thread_localsave` counts the packets of each stream and multiplies the count in an
    `unsigned int` before it divides, so the timestamps are right until the product wraps. -/

namespace Recbcsrv
open Bytes Exec

/-! ### Counters -/

/-- `live_vframes`, `live_aframes`, and `v1_frames` to `v5_frames`. -/
inductive LiveCounter where
  | liveVframes
  | liveAframes
  | frames (i : Fin 5)
  deriving DecidableEq, Repr

/-- The counter that the thread passes to `streamframe` for a channel. -/
def Channel.frames : Channel → Option LiveCounter
  | .v1 => some (.frames 0)
  | .v2 => some (.frames 1)
  | .v3 => some (.frames 2)
  | .v4 => some (.frames 3)
  | .v5 => some (.frames 4)
  | .vga | .v6 => none

namespace LiveCounter

/-- `ptr->timestamp`, with the counter at `n`; 44.1 is 441 divided by 10. -/
def timestamp (frameRate : Nat) (n : UInt32) : LiveCounter → UInt32
  | .liveAframes => .ofNat ((n * 1024).toNat * 10 / 441)
  | .liveVframes | .frames _ => .ofNat ((n * 1000).toNat / frameRate)

/-- The milliseconds of frame `n`. -/
def millis (frameRate n : Nat) : LiveCounter → Nat
  | .liveAframes => n * 1024 * 10 / 441
  | .liveVframes | .frames _ => n * 1000 / frameRate

/-- The product of frame `n` does not wrap, or the quotient is 0 all the same. -/
def Fits (frameRate n : Nat) : LiveCounter → Prop
  | .liveAframes => n * 1024 < 2 ^ 32
  | .liveVframes | .frames _ => n * 1000 < 2 ^ 32 ∨ n * 1000 < frameRate

end LiveCounter

/-! ### The thread -/

/-- The header of a packet, with the counter of its stream, and whether the frame was counted after it. -/
structure LiveHeader where
  counter : LiveCounter
  timestamp : UInt32
  counted : Bool

/-- The recorder with the counters, and the headers that it has written. -/
structure LiveRecorder where
  recorder : Recorder
  counts : LiveCounter → UInt32
  headers : List LiveHeader

/-- A turn, with what it finds when it has a frame to send: whether `sock` is -1 at the first test and at the one after the header,
    and whether the picture of the channel is to be forwarded. -/
structure LiveTurn extends Turn where
  sock : Bool
  still : Bool
  forward : Bool

/-- A message asks for all data. -/
def Turn.asksAll (t : Turn) : Bool :=
  t.ctrl.any fun m => msgCmd m = commandGetdata && (attrsOf m).any fun a => a.named "Type" && a.valued "All"

/-- The recorder after the exit request and the message of a turn. -/
def Recorder.requested (isResouceMode : Int) (r : Recorder) (t : Turn) : Recorder :=
  let r := if t.canceled then r.cancel else r
  t.ctrl.elim r (r.ctrl isResouceMode)

/-- The counter of the stream that a frame is sent on, when its status is right. -/
def Recorder.counterOf (r : Recorder) (forward : Bool) (f : AvFrame) : Option LiveCounter :=
  match f.source with
  | .vmuxStore => none
  | .vmuxLive => if r.vlive = .working then some .liveVframes else none
  | .channel c => if r.channel c = .working ∧ forward then c.frames else none
  | .audio => if r.vlive = .working then some .liveAframes else none

namespace LiveRecorder

/-- The counters after the message and the start requests of a turn. -/
def reset (isResouceMode : Int) (s : LiveRecorder) (t : Turn) : LiveCounter → UInt32
  | .frames i => if (s.recorder.requested isResouceMode t).vstore = .start then 0 else s.counts (.frames i)
  | c => if t.asksAll then 0 else s.counts c

/-- The two sends of a packet, as in `streamframe`. -/
def stream (frameRate : Nat) (s : LiveRecorder) (sock still : Bool) (c : LiveCounter) : LiveRecorder :=
  if sock then
    { s with
      headers := s.headers ++ [⟨c, c.timestamp frameRate (s.counts c), still⟩]
      counts := if still then Function.update s.counts c (s.counts c + 1) else s.counts }
  else s

def turn (isResouceMode : Int) (frameRate : Nat) (s : LiveRecorder) (t : LiveTurn) : Option LiveRecorder :=
  (s.recorder.turn isResouceMode t.toTurn).map fun r =>
    let s : LiveRecorder := ⟨r, s.reset isResouceMode t.toTurn, s.headers⟩
    (t.frame.bind (r.counterOf t.forward)).elim s (s.stream frameRate t.sock t.still)

end LiveRecorder

/-! ### The timestamps of a session -/

/-- The frames of a stream that were counted. -/
def framesOf (c : LiveCounter) (l : List LiveHeader) : Nat := l.countP fun h => h.counter = c ∧ h.counted

/-- The timestamps of each stream do not go back, and those of frame `n` are its milliseconds. -/
structure RightStamps (frameRate : Nat) (l : List LiveHeader) : Prop where
  ordered : ∀ c : LiveCounter, ((l.filter (·.counter = c)).map (·.timestamp)).Pairwise (· ≤ ·)
  exact : ∀ pre h post, l = pre ++ h :: post → h.timestamp.toNat = h.counter.millis frameRate (framesOf h.counter pre)

/-- The product fits for every frame of which a header is written. -/
def FramesFit (frameRate : Nat) (l : List LiveHeader) : Prop :=
  ∀ pre h post, l = pre ++ h :: post → h.counter.Fits frameRate (framesOf h.counter pre)

/-- The turns of a session, from the one whose message asks for all data to at most the next such one, and the headers that they
    write. -/
structure LiveSession (isResouceMode : Int) (frameRate : Nat) (s : LiveRecorder) (ts : List LiveTurn) (l : List LiveHeader) :
    Prop where
  opens : ∃ t as, ts = t :: as ∧ t.asksAll ∧ (s.recorder.requested isResouceMode t.toTurn).vstore = .start ∧ ∀ t ∈ as, ¬ t.asksAll
  runs : ∃ u, exec (LiveRecorder.turn isResouceMode frameRate) s ts = some u ∧ u.headers = s.headers ++ l

/-- The headers have the timestamps that the code computes from the number of frames. -/
def Stamped (frameRate : Nat) (l : List LiveHeader) : Prop :=
  ∀ pre h post, l = pre ++ h :: post → h.timestamp = h.counter.timestamp frameRate (.ofNat (framesOf h.counter pre))

/-- The counters stand at the numbers of frames of the session. -/
def Counted (frameRate : Nat) (old : List LiveHeader) (s : LiveRecorder) : Prop :=
  ∃ l, s.headers = old ++ l ∧ (∀ c, s.counts c = .ofNat (framesOf c l)) ∧ Stamped frameRate l

section
variable {frameRate n : Nat} {c d : LiveCounter} {x : LiveHeader} {l old pre post : List LiveHeader} {s u : LiveRecorder}
  {mode : Int} {r r' : Recorder} {t : Turn}

/-! ### The division -/

/-- A product that is cut to a word before the division gives the same quotient only when it fits, or the quotient is 0. -/
theorem mod_mul_div_eq_iff {x a b m : Nat} (hm : 0 < m) (hb : 0 < b) : x % m * a / b = x * a / b ↔ x < m ∨ x * a < b := by
  constructor
  · intro heq
    by_contra hnot
    obtain ⟨hx, hxa⟩ := not_or.mp hnot
    have hmul : m * a ≤ (x - x % m) * a := by
      have hdiv := Nat.div_add_mod x m
      have hone := Nat.mul_le_mul_left m (Nat.div_pos (Nat.not_lt.mp hx) hm : 1 ≤ x / m)
      exact Nat.mul_le_mul_right a (by omega)
    rw [Nat.sub_mul] at hmul
    have hmod : x % m * a ≤ m * a := Nat.mul_le_mul_right a (Nat.mod_lt x hm).le
    have hlow : x * a / b * b ≤ x % m * a := heq ▸ Nat.div_mul_le_self _ _
    have hhigh : x * a < (x * a / b + 1) * b := Nat.lt_mul_of_div_lt (Nat.lt_succ_self _) hb
    have hpos : b ≤ x * a / b * b := Nat.le_mul_of_pos_left b (Nat.div_pos (Nat.not_lt.mp hxa) hb)
    rw [Nat.add_mul, Nat.one_mul] at hhigh
    omega
  · rintro (hx | hx)
    · rw [Nat.mod_eq_of_lt hx]
    · rw [Nat.div_eq_of_lt hx, Nat.div_eq_of_lt]
      exact Nat.lt_of_le_of_lt (Nat.mul_le_mul_right a (Nat.mod_le x m)) hx

theorem ofNat_mul_toNat (k : UInt32) : (UInt32.ofNat n * k).toNat = n * k.toNat % 2 ^ 32 := by
  rw [UInt32.toNat_mul, UInt32.toNat_ofNat', Nat.mod_mul_mod]

/-- The timestamp of frame `n` is right exactly when its product fits. -/
theorem LiveCounter.timestamp_eq_iff (hrate : 0 < frameRate) :
    (c.timestamp frameRate (.ofNat n)).toNat = c.millis frameRate n ↔ c.Fits frameRate n := by
  have hcut : ∀ x y : Nat, (UInt32.ofNat (x % 2 ^ 32 / y)).toNat = x % 2 ^ 32 / y := fun x y =>
    UInt32.toNat_ofNat_of_lt' (Nat.lt_of_le_of_lt (Nat.div_le_self _ _) (Nat.mod_lt _ (by decide)))
  cases c with
  | liveAframes =>
    have hlt : n * 1024 % 2 ^ 32 * 10 / 441 < 2 ^ 32 := by omega
    have hfactor : UInt32.toNat 1024 = 1024 := rfl
    rw [timestamp, ofNat_mul_toNat, hfactor, UInt32.toNat_ofNat_of_lt' hlt]
    refine (mod_mul_div_eq_iff (by decide) (by decide)).trans (or_iff_left_of_imp fun hsmall => ?_)
    omega
  | _ =>
    rw [timestamp, ofNat_mul_toNat, hcut]
    have hdiv := mod_mul_div_eq_iff (x := n * 1000) (a := 1) (m := 2 ^ 32) (by decide) hrate
    rw [Nat.mul_one, Nat.mul_one] at hdiv
    exact hdiv

theorem LiveCounter.millis_mono {m : Nat} (h : m ≤ n) : c.millis frameRate m ≤ c.millis frameRate n := by
  cases c with
  | liveAframes => exact Nat.div_le_div_right (Nat.mul_le_mul_right _ (Nat.mul_le_mul_right _ h))
  | _ => exact Nat.div_le_div_right (Nat.mul_le_mul_right _ h)

/-! ### The headers of a session -/

theorem framesOf_append : framesOf c (pre ++ post) = framesOf c pre + framesOf c post := List.countP_append

theorem framesOf_singleton : framesOf c [x] = if x.counter = c ∧ x.counted then 1 else 0 := by
  simp only [framesOf, List.countP_singleton, decide_eq_true_eq]

/-- Timestamps that are the milliseconds of the frames do not go back. -/
theorem ordered_of_exact
    (h : ∀ pre x post, l = pre ++ x :: post → x.timestamp.toNat = x.counter.millis frameRate (framesOf x.counter pre)) :
    ((l.filter (·.counter = c)).map (·.timestamp)).Pairwise (· ≤ ·) := by
  induction l using List.reverseRecOn with
  | nil => exact .nil
  | append_singleton l x ih =>
    obtain ⟨hinit, hx⟩ := forall_split_concat.mp h
    rw [List.filter_append, List.map_append, List.pairwise_append]
    refine ⟨ih hinit, (List.pairwise_singleton ..).sublist (List.filter_sublist.map _), fun a ha b hb => ?_⟩
    obtain ⟨y, hy, rfl⟩ := List.mem_map.mp ha
    obtain ⟨z, hz, rfl⟩ := List.mem_map.mp hb
    obtain ⟨hmem, hcy⟩ := List.mem_filter.mp hy
    obtain ⟨hlast, hcz⟩ := List.mem_filter.mp hz
    obtain rfl := List.mem_singleton.mp hlast
    obtain ⟨pre, post, rfl⟩ := List.append_of_mem hmem
    have hcy : y.counter = c := of_decide_eq_true hcy
    have hcz : z.counter = c := of_decide_eq_true hcz
    refine UInt32.le_iff_toNat_le.mpr ?_
    rw [hinit pre y post rfl, hx, hcy, hcz, framesOf_append]
    exact LiveCounter.millis_mono (Nat.le_add_right _ _)

/-- Headers that the code has stamped are right exactly when all products fit. -/
theorem Stamped.right_iff (hrate : 0 < frameRate) (h : Stamped frameRate l) : RightStamps frameRate l ↔ FramesFit frameRate l := by
  constructor
  · intro hright pre x post hl
    have hexact := hright.exact pre x post hl
    rw [h pre x post hl] at hexact
    exact (LiveCounter.timestamp_eq_iff hrate).mp hexact
  · intro hfit
    have hexact : ∀ pre x post, l = pre ++ x :: post →
        x.timestamp.toNat = x.counter.millis frameRate (framesOf x.counter pre) := by
      intro pre x post hl
      rw [h pre x post hl]
      exact (LiveCounter.timestamp_eq_iff hrate).mpr (hfit pre x post hl)
    exact ⟨fun c => ordered_of_exact hexact, hexact⟩

theorem stamped_concat : Stamped frameRate (l ++ [x]) ↔
    Stamped frameRate l ∧ x.timestamp = x.counter.timestamp frameRate (.ofNat (framesOf x.counter l)) :=
  forall_split_concat (P := fun (pre : List LiveHeader) (x : LiveHeader) =>
    x.timestamp = x.counter.timestamp frameRate (.ofNat (framesOf x.counter pre)))

/-! ### What a turn keeps -/

theorem Counted.stream (h : Counted frameRate old s) (sock still : Bool) (c : LiveCounter) :
    Counted frameRate old (s.stream frameRate sock still c) := by
  obtain ⟨l, hheaders, hcounts, hstamped⟩ := h
  unfold LiveRecorder.stream
  split
  · refine ⟨l ++ [⟨c, c.timestamp frameRate (s.counts c), still⟩], ?_, fun d => ?_, stamped_concat.mpr ⟨hstamped, ?_⟩⟩
    · rw [← List.append_assoc, ← hheaders]
    · rw [framesOf_append, framesOf_singleton]
      dsimp only
      cases still with
      | false => simpa using hcounts d
      | true =>
        by_cases hd : c = d
        · subst hd
          rw [if_pos rfl, Function.update_self, if_pos ⟨rfl, rfl⟩, hcounts, UInt32.ofNat_add]
          rfl
        · rw [if_pos rfl, Function.update_of_ne (Ne.symm hd), if_neg (fun h => hd h.1), Nat.add_zero]
          exact hcounts d
    · rw [hcounts]
  · exact ⟨l, hheaders, hcounts, hstamped⟩

theorem LiveRecorder.stream_recorder (sock still : Bool) : (s.stream frameRate sock still c).recorder = s.recorder := by
  unfold stream
  split <;> rfl

/-- A turn of the recorder, with the counters and then a packet at most. -/
theorem LiveRecorder.turn_cases {t : LiveTurn} (h : s.turn mode frameRate t = some u) :
    ∃ r, s.recorder.turn mode t.toTurn = some r ∧
      (u = ⟨r, s.reset mode t.toTurn, s.headers⟩ ∨
        ∃ c, u = LiveRecorder.stream frameRate ⟨r, s.reset mode t.toTurn, s.headers⟩ t.sock t.still c) := by
  obtain ⟨r, hr, rfl⟩ := Option.map_eq_some_iff.mp h
  refine ⟨r, hr, ?_⟩
  dsimp only
  cases t.frame.bind (r.counterOf t.forward) with
  | none => exact .inl rfl
  | some c => exact .inr ⟨c, rfl⟩

/-- The counters and the headers do not change what the recorder does. -/
theorem LiveRecorder.turn_recorder {t : LiveTurn} (h : s.turn mode frameRate t = some u) :
    s.recorder.turn mode t.toTurn = some u.recorder := by
  obtain ⟨r, hr, rfl | ⟨c, rfl⟩⟩ := turn_cases h
  · exact hr
  · rw [stream_recorder]
    exact hr

theorem LiveRecorder.run_recorder {ts : List LiveTurn} (h : exec (LiveRecorder.turn mode frameRate) s ts = some u) :
    exec (Recorder.turn mode) s.recorder (ts.map LiveTurn.toTurn) = some u.recorder := by
  induction ts generalizing s with
  | nil =>
    cases h
    rfl
  | cons t ts ih =>
    obtain ⟨v, hv, h⟩ := exec_cons.mp h
    exact exec_cons.mpr ⟨v.recorder, turn_recorder hv, ih h⟩

theorem Recorder.turn_eq (h : r.turn mode t = some r') :
    r' = t.frame.elim (r.requested mode t).handleStart.handleStop (r.requested mode t).handleStart.handleStop.handleFrame := by
  unfold Recorder.turn at h
  split at h
  · cases h
  · exact (Option.some.inj h).symm

/-- No turn leaves a start request behind. -/
theorem Recorder.turn_vstore (h : r.turn mode t = some r') : r'.vstore ≠ .start := by
  have hmoved : ∀ v : LocalsaveStatus, (v.moved .start .resume).moved .stop .idle ≠ .start := fun v => by
    cases v <;> decide
  have hhandled : ∀ r : Recorder, r.handleStart.handleStop.vstore ≠ .start := fun r => by
    rw [handleStop_statuses.1, handleStart_statuses.1]
    exact hmoved r.vstore
  have hq := hhandled (r.requested mode t)
  rw [turn_eq h]
  generalize (r.requested mode t).handleStart.handleStop = q at hq ⊢
  cases t.frame with
  | none => exact hq
  | some f =>
    intro hstart
    rw [Option.elim_some] at hstart
    rcases (handleFrame_statuses (r := q) (f := f)).1 with hsame | ⟨-, hworking⟩
    · exact hq (hsame.symm.trans hstart)
    · cases hworking.symm.trans hstart

theorem Recorder.onGetdata_vstore {a : Attr} (hr : r.vstore ≠ .start) (ha : ¬ (a.named "Type" && a.valued "All")) :
    (r.onGetdata mode a).vstore ≠ .start := by
  unfold onGetdata
  split
  · next hname =>
    rw [if_neg fun hvalue => ha (by rw [hname, hvalue]; rfl)]
    exact nofun
  · exact hr

theorem Recorder.onInternal_vstore {a : Attr} (hr : r.vstore ≠ .start) : (r.onInternal mode a).vstore ≠ .start := by
  unfold onInternal
  dsimp only
  split
  · exact nofun
  · split
    · exact nofun
    · exact hr

/-- Only a message that asks for all data starts a session. -/
theorem Recorder.requested_vstore (hr : r.vstore ≠ .start) (ht : ¬ t.asksAll) : (r.requested mode t).vstore ≠ .start := by
  unfold requested
  have hcancel : (if t.canceled then r.cancel else r).vstore ≠ .start := by
    split
    · exact nofun
    · exact hr
  generalize (if t.canceled then r.cancel else r) = q at hcancel ⊢
  cases hm : t.ctrl with
  | none => exact hcancel
  | some m =>
    rw [Turn.asksAll, hm, Option.any_some, Bool.and_eq_true, decide_eq_true_eq, not_and, List.any_eq_true, not_exists] at ht
    dsimp only [Option.elim_some, Recorder.ctrl]
    have hgetdata : (if msgCmd m = commandGetdata then (attrsOf m).foldl (onGetdata mode) q else q).vstore ≠ .start := by
      split
      · next hcmd =>
        exact List.foldlRecOn (motive := fun r : Recorder => r.vstore ≠ .start) (attrsOf m) _ hcancel fun r hr a ha =>
          onGetdata_vstore hr fun hall => ht hcmd a ⟨ha, hall⟩
      · exact hcancel
    split
    · exact List.foldlRecOn (motive := fun r : Recorder => r.vstore ≠ .start) (attrsOf m) _ hgetdata fun r hr a _ =>
        onInternal_vstore hr
    · exact hgetdata

/-! ### The run -/

theorem LiveRecorder.reset_opens (hall : t.asksAll) (hstart : (s.recorder.requested mode t).vstore = .start) :
    s.reset mode t = fun _ => 0 := by
  funext c
  cases c with
  | frames i => exact if_pos hstart
  | _ => exact if_pos hall

theorem LiveRecorder.reset_later (hs : s.recorder.vstore ≠ .start) (ht : ¬ t.asksAll) : s.reset mode t = s.counts := by
  funext c
  cases c with
  | frames i => exact if_neg (Recorder.requested_vstore hs ht)
  | _ => exact if_neg ht

/-- Counters that are right after the message of a turn are right after the turn. -/
theorem Counted.turn {t : LiveTurn} (hreset : Counted frameRate old ⟨s.recorder, s.reset mode t.toTurn, s.headers⟩)
    (h : s.turn mode frameRate t = some u) : Counted frameRate old u ∧ u.recorder.vstore ≠ .start := by
  refine ⟨?_, Recorder.turn_vstore (LiveRecorder.turn_recorder h)⟩
  obtain ⟨r, -, rfl | ⟨c, rfl⟩⟩ := LiveRecorder.turn_cases h
  · exact hreset
  · exact Counted.stream (s := ⟨r, s.reset mode t.toTurn, s.headers⟩) hreset t.sock t.still c

/-- The headers of a session have the timestamps that the code computes from the number of frames in the session. -/
theorem LiveSession.stamped {ts : List LiveTurn} (h : LiveSession mode frameRate s ts l) : Stamped frameRate l := by
  obtain ⟨⟨t, as, rfl, hall, hstart, hlater⟩, u, hrun, hheaders⟩ := h
  obtain ⟨v, hfirst, hrest⟩ := exec_cons.mp hrun
  have hopened : Counted frameRate s.headers ⟨s.recorder, s.reset mode t.toTurn, s.headers⟩ := by
    refine ⟨[], (List.append_nil _).symm, fun c => ?_, fun pre x post hl => ?_⟩
    · rw [LiveRecorder.reset_opens hall hstart]
      rfl
    · simp at hl
  have hend : Counted frameRate s.headers u ∧ u.recorder.vstore ≠ .start := by
    refine exec_invariant_mem (I := fun u => Counted frameRate s.headers u ∧ u.recorder.vstore ≠ .start)
      (fun a ha s' u' hs hturn => ?_) (hopened.turn hfirst) hrest
    obtain ⟨hcounted, hvstore⟩ := hs
    refine Counted.turn ?_ hturn
    rw [LiveRecorder.reset_later hvstore (hlater a ha)]
    exact hcounted
  obtain ⟨⟨l', hl', -, hstamped⟩, -⟩ := hend
  rw [← List.append_cancel_left (hheaders.symm.trans hl')] at hstamped
  exact hstamped

end

/-- The timestamps of a live session are right exactly when the product fits for every frame of which a header is written. -/
theorem LiveSession.rightStamps_iff {isResouceMode : Int} {frameRate : Nat} {s : LiveRecorder} {ts : List LiveTurn}
    {l : List LiveHeader} (hrate : 0 < frameRate) (h : LiveSession isResouceMode frameRate s ts l) :
    RightStamps frameRate l ↔ FramesFit frameRate l := h.stamped.right_iff hrate

/-! ### Sessions of live video -/

/-- The message that asks for all data. -/
def allRequest : Mem := store (fun _ => 0) 0 (ascii "010010000c" ++ RawAttr.bytes ⟨0x34, ascii "0003", ascii "Type", ascii "All"⟩)

/-- The turn that opens a session. -/
def allTurn : LiveTurn := ⟨⟨false, some allRequest, none⟩, true, true, true⟩

/-- A key frame of the live stream. -/
def liveKey : AvFrame := ⟨.vmuxLive, frameFlagKeyframe, []⟩

/-- A turn in which it is sent. -/
def keyTurn : LiveTurn := ⟨⟨false, none, some liveKey⟩, true, true, true⟩

/-- A session in which `n` frames of the live stream are sent. -/
def liveTurns (n : Nat) : List LiveTurn := allTurn :: List.replicate n keyTurn

/-- The headers of the first `n` frames. -/
def liveHeaders (frameRate n : Nat) : List LiveHeader :=
  (List.range n).map fun k => ⟨.liveVframes, LiveCounter.liveVframes.timestamp frameRate (.ofNat k), true⟩

section
variable {frameRate n : Nat} {s : LiveRecorder}

theorem liveHeaders_succ : liveHeaders frameRate (n + 1) =
    liveHeaders frameRate n ++ [⟨.liveVframes, LiveCounter.liveVframes.timestamp frameRate (.ofNat n), true⟩] := by
  rw [liveHeaders, List.range_succ, List.map_append]
  rfl

theorem framesOf_liveHeaders : framesOf .liveVframes (liveHeaders frameRate n) = n := by
  induction n with
  | zero => rfl
  | succ n ih =>
    rw [liveHeaders_succ, framesOf_append, ih]
    rfl

theorem framesFit_liveHeaders_iff :
    FramesFit frameRate (liveHeaders frameRate n) ↔ ∀ k < n, LiveCounter.liveVframes.Fits frameRate k := by
  induction n with
  | zero => exact iff_of_true (fun pre x post hl => by simp [liveHeaders] at hl) nofun
  | succ n ih =>
    rw [liveHeaders_succ]
    refine (forall_split_concat (P := fun (pre : List LiveHeader) (x : LiveHeader) =>
      x.counter.Fits frameRate (framesOf x.counter pre))).trans ?_
    rw [framesOf_liveHeaders, Nat.forall_lt_succ_right]
    exact and_congr_left fun _ => ih

theorem allRequest_attrs : attrsOf allRequest = [⟨ascii "Type", ascii "All"⟩] := by decide +kernel

theorem allRequest_cmd : msgCmd allRequest = commandGetdata := by decide +kernel

/-- A key frame of the live stream is sent once the stream has been started. -/
theorem keyTurn_sent (frameRate : Nat) (hs : s.recorder.vlive = .resume ∨ s.recorder.vlive = .working) :
    ∃ u, s.turn 1 frameRate keyTurn = some u ∧ u.recorder.vlive = .working ∧
      u.counts .liveVframes = s.counts .liveVframes + 1 ∧
      u.headers = s.headers ++ [⟨.liveVframes, LiveCounter.liveVframes.timestamp frameRate (s.counts .liveVframes), true⟩] := by
  have hturn : s.recorder.turn 1 keyTurn.toTurn = some (s.recorder.handleStart.handleStop.handleFrame liveKey) := by
    rw [Recorder.turn_some rfl]
    dsimp only [keyTurn, Option.elim_none, Option.elim_some]
  have hmoved : s.recorder.handleStart.handleStop.vlive = s.recorder.vlive := by
    rw [Recorder.handleStop_statuses.2.1, Recorder.handleStart_statuses.2.1]
    rcases hs with hs | hs <;> rw [hs] <;> rfl
  rw [← hmoved] at hs
  generalize s.recorder.handleStart.handleStop = r at hturn hs
  have hworking : (r.handleFrame liveKey).vlive = .working := by
    rw [Recorder.handleFrame, liveKey]
    dsimp only [Recorder.liveFrame]
    split
    · rfl
    · next hnot => exact hs.resolve_left fun hresume => hnot ⟨hresume, by decide⟩
  have hcounter : (r.handleFrame liveKey).counterOf true liveKey = some .liveVframes := if_pos hworking
  refine ⟨LiveRecorder.stream frameRate ⟨r.handleFrame liveKey, s.reset 1 keyTurn.toTurn, s.headers⟩ true true .liveVframes, ?_,
    hworking, ?_, rfl⟩
  · rw [LiveRecorder.turn, hturn, Option.map_some]
    dsimp only [keyTurn]
    rw [Option.bind_some, hcounter, Option.elim_some]
  · rw [LiveRecorder.stream, if_pos rfl]
    dsimp only
    rw [if_pos rfl, Function.update_self]
    rfl

/-- The frames are sent one after the other. -/
theorem keyTurns_sent (hs : s.recorder.vlive = .resume ∨ s.recorder.vlive = .working) (hcount : s.counts .liveVframes = 0)
    (hheaders : s.headers = []) (n : Nat) : ∃ u, exec (LiveRecorder.turn 1 frameRate) s (List.replicate n keyTurn) = some u ∧
      (u.recorder.vlive = .resume ∨ u.recorder.vlive = .working) ∧ u.counts .liveVframes = .ofNat n ∧
      u.headers = liveHeaders frameRate n := by
  induction n with
  | zero => exact ⟨s, rfl, hs, hcount, hheaders⟩
  | succ n ih =>
    obtain ⟨u, hrun, hlive, hcounts, hl⟩ := ih
    obtain ⟨v, hturn, hworking, hnext, hheader⟩ := keyTurn_sent frameRate hlive
    refine ⟨v, ?_, .inr hworking, ?_, ?_⟩
    · rw [List.replicate_succ']
      exact exec_append.mpr ⟨u, hrun, exec_cons.mpr ⟨v, hturn, rfl⟩⟩
    · rw [hnext, hcounts, UInt32.ofNat_add]
      rfl
    · rw [hheader, hl, hcounts, liveHeaders_succ]

theorem allTurn_ctrl (r : Recorder) : r.ctrl 1 allRequest = r.setAll 1 .start := by
  have hcmd : commandGetdata ≠ commandInternal := by decide
  rw [Recorder.ctrl, allRequest_cmd, if_pos rfl, if_neg hcmd, allRequest_attrs, List.foldl_cons, List.foldl_nil, Recorder.onGetdata,
    if_pos (by decide), if_pos (by decide)]

theorem liveTurns_session (frameRate n : Nat) :
    LiveSession 1 frameRate ⟨.init, fun _ => 0, []⟩ (liveTurns n) (liveHeaders frameRate n) := by
  have hall : allTurn.asksAll = true := by
    rw [Turn.asksAll, allTurn, Option.any_some, allRequest_cmd, allRequest_attrs]
    decide
  have hrequested : Recorder.init.requested 1 allTurn.toTurn = Recorder.init.setAll 1 .start := allTurn_ctrl .init
  refine ⟨⟨allTurn, List.replicate n keyTurn, rfl, hall, congrArg Recorder.vstore hrequested, fun t ht => ?_⟩, ?_⟩
  · rw [List.eq_of_mem_replicate ht]
    exact Bool.false_ne_true
  · have hturn : Recorder.init.turn 1 allTurn.toTurn = some (Recorder.init.setAll 1 .start).handleStart.handleStop := by
      rw [Recorder.turn_some rfl]
      dsimp only [allTurn, Option.elim_none, Option.elim_some]
      rw [allTurn_ctrl]
    have hlive : (Recorder.init.setAll 1 .start).handleStart.handleStop.vlive = .resume := by
      rw [Recorder.handleStop_statuses.2.1, Recorder.handleStart_statuses.2.1]
      rfl
    generalize (Recorder.init.setAll 1 .start).handleStart.handleStop = r at hturn hlive
    have hfirst : LiveRecorder.turn 1 frameRate ⟨.init, fun _ => 0, []⟩ allTurn =
        some ⟨r, LiveRecorder.reset 1 ⟨.init, fun _ => 0, []⟩ allTurn.toTurn, []⟩ := by
      rw [LiveRecorder.turn, hturn]
      rfl
    have hreset := LiveRecorder.reset_opens (s := ⟨.init, fun _ => 0, []⟩) hall (congrArg Recorder.vstore hrequested)
    obtain ⟨u, hrun, -, -, hheaders⟩ := keyTurns_sent
      (s := ⟨r, LiveRecorder.reset 1 ⟨.init, fun _ => 0, []⟩ allTurn.toTurn, []⟩) (.inl hlive) (congrFun hreset .liveVframes) rfl n
    exact ⟨u, exec_cons.mpr ⟨_, hfirst, hrun⟩, hheaders⟩

end

/-- A session of 39 hours at 30 frames a second: the product of the last frame still fits. -/
theorem rightStamps_4294968 : RightStamps 30 (liveHeaders 30 4294968) := by
  refine (LiveSession.rightStamps_iff (by decide) (liveTurns_session 30 4294968)).mpr ?_
  refine framesFit_liveHeaders_iff.mpr fun k hk => .inl ?_
  omega

/-- One frame more, and the timestamps go back from 143165566 to 23. -/
theorem late_frame_counterexample : LiveSession 1 30 ⟨.init, fun _ => 0, []⟩ (liveTurns 4294969) (liveHeaders 30 4294969) ∧
    LiveCounter.liveVframes.timestamp 30 4294967 = 143165566 ∧ LiveCounter.liveVframes.timestamp 30 4294968 = 23 ∧
    ¬ RightStamps 30 (liveHeaders 30 4294969) := by
  have hsession := liveTurns_session 30 4294969
  refine ⟨hsession, by decide, by decide, fun hright => ?_⟩
  have hfit := (hsession.stamped.right_iff (by decide)).mp hright
  rcases framesFit_liveHeaders_iff.mp hfit 4294968 (by omega) with h | h <;> omega

end Recbcsrv
