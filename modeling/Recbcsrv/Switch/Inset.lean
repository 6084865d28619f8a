import Recbcsrv.Image.Yuv
import Recbcsrv.Message.Packets
import Recbcsrv.Switch.Picture

/-! The small images on their way through `thread_img`, and the inset among them. The flags of the video map are written by
    `thread_SwitchTracking` and read by `thread_img`, one at a time and without a lock. -/

namespace Recbcsrv

/-! ### The flags -/

/-- What the calls for the flags are made of: a turn of the loop of `vmap_table_reset_pip`, and the loop of
    `vmap_table_set_pip_by_function` behind it. -/
inductive PipStore where
  | clear (i : Nat)
  | mark (function : Int)
  deriving DecidableEq

def PipStore.apply (vmap : List VideoMap) : PipStore → List VideoMap
  | .clear i => vmap.modify i fun v => if v.pip = 0 then v else { v with pip := 0 }
  | .mark function =>
    match vmapTableGetIndexByFunction vmap function with
    | some i => vmap.modify i fun v => { v with pip := 1 }
    | none => vmap

/-- A call: `vmap_table_set_pip_by_function` for a function, `vmap_table_reset_pip` for none. -/
def pipStores (function : Option Int) : List PipStore := (List.range 6).map .clear ++ (function.map .mark).toList

/-- The flag of a channel, as it is read. -/
def flag (vmap : List VideoMap) (i : Nat) : Int := (vmap[i]?.map VideoMap.pip).getD 0

/-- The values of `SwitchVideo` that have no inset. -/
def fullValues : List String := ["VGA", "TeacherSpecial", "StudentSpecial", "TeacherFull", "StudentFull", "Blackboard"]

/-- The call that an action makes for the flags. -/
def Tracking.stores (s : Tracking) : TrackingAction → List PipStore
  | .start => if insetFunction s.fsm.initialState = none then pipStores none else []
  | .stop => pipStores none
  | .switchVideo value =>
    if value ∈ fullValues then pipStores none
    else if value = "VGAWithTeacherSpecial" then pipStores (some videoFunctionTeacherCloseup)
    else if value = "TeacherSpecialWithStudentSpecial" then pipStores (some videoFunctionStudentCloseup)
    else []
  | .pass interval =>
    if s.Updates interval ∧ (fsmStateUpdate s.truthTable s.fsm).1 ≠ fsmNotransition then
      pipStores (insetFunction (fsmStateUpdate s.truthTable s.fsm).1)
    else []
  | _ => []

/-! ### The images -/

/-- The FIFO that an item of `Img_consumer_fifo` comes from. -/
inductive ImgSource where
  | imgV
  | imgM
  | img (i : Fin 6)
  deriving DecidableEq

/-- An item, with all bytes of its buffer. -/
structure ImgItem where
  source : ImgSource
  data : List UInt8
  timestamp : Int32
  length : data.length = 2 * (256 * 144)

/-- The compressor, which always writes something. -/
structure Compressor where
  compress : List UInt8 → List UInt8
  pos : ∀ planes, 0 < (compress planes).length

/-- `yuv422_to_jpeg`: the picture is written over the beginning of the file and read back, with the file after it. -/
def yuv422ToJpeg (c : Compressor) (src tmpfile : List UInt8) : List UInt8 × List UInt8 :=
  let tmpfile := c.compress src ++ tmpfile.drop (c.compress src).length
  (tmpfile.take (c.compress src).length, tmpfile)

/-- The bytes that a conversion stores to `buffer1`. -/
def converted (r : Option (List (Nat × UInt8) × Int)) : List UInt8 := (r.map fun x => x.1.map Prod.snd).getD []

def ImgItem.planes (x : ImgItem) : List UInt8 := converted (Converter.yuv422ToPlanner x.data 256 144)

def ImgItem.yuv420 (x : ImgItem) : List UInt8 := converted (Converter.yuv422ToYuv420 x.data 256 144)

theorem yuv422ToJpeg_fst (c : Compressor) (src tmpfile : List UInt8) : (yuv422ToJpeg c src tmpfile).1 = c.compress src :=
  List.take_left

theorem ImgItem.length_yuv420 (x : ImgItem) : x.yuv420.length = 55296 := by
  have hlen : x.data.length = 2 * (256 * 144) := x.length
  rw [yuv420, Converter.yuv422ToYuv420_eq (by decide) hlen (by decide)]
  simp only [converted, Option.map_some, Option.getD_some, List.length_map, List.length_range]

/-- `buffer2` has room for the picture of the image. -/
def ImgItem.Fits (c : Compressor) (x : ImgItem) : Prop := (c.compress x.planes).length ≤ 256 * 144 * 2 * 2

instance (c : Compressor) (x : ImgItem) : Decidable (x.Fits c) := inferInstanceAs (Decidable (_ ≤ _))

/-- The picture for the JPEG FIFO. There is none behind the end of `buffer2`. -/
def ImgItem.jpeg (c : Compressor) (x : ImgItem) (tmpfile : List UInt8) : Option Picture :=
  if h : x.Fits c then
    some {
      buf := (yuv422ToJpeg c x.planes tmpfile).1
      frameNum := x.timestamp
      timestamp := x.timestamp
      pos := by
        rw [yuv422ToJpeg_fst]
        exact c.pos _
      lt := by
        rw [yuv422ToJpeg_fst]
        exact Nat.lt_of_le_of_lt h (by decide) }
  else none

theorem ImgItem.jpeg_eq (c : Compressor) (x : ImgItem) (tmpfile : List UInt8) : x.jpeg c tmpfile = x.jpeg c [] := by
  simp only [jpeg, yuv422ToJpeg_fst]

theorem ImgItem.jpeg_of_fits {c : Compressor} {x : ImgItem} (h : x.Fits c) :
    ∃ f : Picture, x.jpeg c [] = some f ∧ f.buf = c.compress x.planes := by
  rw [jpeg, dif_pos h]
  exact ⟨_, rfl, yuv422ToJpeg_fst c x.planes []⟩

theorem ImgItem.fits_of_jpeg {c : Compressor} {x : ImgItem} {tmpfile : List UInt8} {f : Picture}
    (h : x.jpeg c tmpfile = some f) : x.Fits c := by
  unfold jpeg at h
  split at h
  · next hfits => exact hfits
  · cases h

/-- The picture for the PIP FIFO. -/
def ImgItem.pip (x : ImgItem) : Picture where
  buf := x.yuv420
  frameNum := x.timestamp
  timestamp := x.timestamp
  pos := by
    rw [x.length_yuv420]
    decide
  lt := by
    rw [x.length_yuv420]
    decide

/-! ### The two threads -/

/-- The variables of `thread_SwitchTracking`, with the video map, what is left of its call for the flags, the image that
    `thread_img` has in hand before it reads a flag, its file, and the pictures that it has sent: those for the JPEG FIFO with
    their channels. -/
structure Studio where
  tracking : Tracking
  stores : List PipStore
  held : Option (Fin 6 × ImgItem)
  tmpfile : List UInt8
  jpeg : List (Picture × Int32)
  pip : List Picture

inductive StudioAct where
  /-- An action of `thread_SwitchTracking` up to its call for the flags. -/
  | begin (a : TrackingAction)
  /-- A turn of the loops of that call. -/
  | store
  /-- `thread_img` takes an image and sends it to the JPEG FIFO. -/
  | take (x : ImgItem)
  /-- `thread_img` reads the flag. -/
  | test

namespace Studio

def start (t : Tracking) : Studio := ⟨t, [], none, [], [], []⟩

/-- What `thread_img` does with an image before the flag. There is no state after a picture for which `buffer2` is too small. -/
def onTake (c : Compressor) (s : Studio) (x : ImgItem) : Option Studio :=
  let sent (channel : Int) (held : Option (Fin 6 × ImgItem)) : Option Studio :=
    (x.jpeg c s.tmpfile).map fun picture =>
      { s with
        held
        tmpfile := (yuv422ToJpeg c x.planes s.tmpfile).2
        jpeg := s.jpeg ++ [(picture, .ofInt channel)] }
  match x.source with
  | .imgV => sent 0 none
  | .imgM => some s
  | .img i => sent ((s.tracking.vmap.map VideoMap.function).getD i 0) (some (i, x))

/-- A step of one of the threads. -/
def step (c : Compressor) (s : Studio) : StudioAct → Option Studio
  | .begin a =>
    if s.stores = [] then
      some { s with tracking := { s.tracking.step a with vmap := s.tracking.vmap }, stores := s.tracking.stores a }
    else none
  | .store =>
    match s.stores with
    | [] => none
    | p :: stores => some { s with tracking := { s.tracking with vmap := p.apply s.tracking.vmap }, stores }
  | .take x => if s.held = none then s.onTake c x else none
  | .test => s.held.map fun (i, x) =>
    { s with
      held := none
      pip := if flag s.tracking.vmap i = 0 then s.pip else s.pip ++ [x.pip] }

end Studio

/-- The actions of `thread_SwitchTracking` that a run begins. -/
def begun (as : List StudioAct) : List TrackingAction := as.filterMap fun a =>
  match a with
  | .begin a => some a
  | _ => none

/-- The images that `thread_img` takes in a run. -/
def taken (as : List StudioAct) : List ImgItem := as.filterMap fun a =>
  match a with
  | .take x => some x
  | _ => none

/-- What the JPEG FIFO gets for an image: its picture, for the channel 0 or the function of its channel. -/
def ImgItem.sends (c : Compressor) (vmap : List VideoMap) (x : ImgItem) : Option (Picture × Int32) :=
  match x.source with
  | .imgV => (x.jpeg c []).map (·, 0)
  | .imgM => none
  | .img i => (x.jpeg c []).map (·, .ofInt ((vmap.map VideoMap.function).getD i 0))

/-- The image that waits for the test of its flag. -/
def ImgItem.held (x : ImgItem) : Option (Fin 6 × ImgItem) :=
  match x.source with
  | .img i => some (i, x)
  | _ => none

/-- The image is one of the channel that is bound to the function of the inset. -/
def ImgItem.ofInset (vmap : List VideoMap) (inset : Option Int) (x : ImgItem) : Bool :=
  match x.source with
  | .img i => inset.bind (vmapTableGetIndexByFunction vmap) = some i.val
  | _ => false

/-! ### The calls for the flags -/

section
variable {vmap : List VideoMap} {function : Int} {i j : Nat}

theorem foldl_modify {α : Type} (f : α → α) (l : List α) :
    (List.range l.length).foldl (fun l i => l.modify i f) l = l.map f := by
  induction l with
  | nil => rfl
  | cons a l ih =>
    have hbehind : ∀ (is : List Nat) (b : α) (m : List α), (is.map Nat.succ).foldl (fun l i => l.modify i f) (b :: m) =
        b :: is.foldl (fun l i => l.modify i f) m := by
      intro is
      induction is with
      | nil => exact fun b m => rfl
      | cons i is ihi =>
        intro b m
        rw [List.map_cons, List.foldl_cons, List.foldl_cons, List.modify_succ_cons]
        exact ihi b _
    rw [List.length_cons, List.range_succ_eq_map, List.foldl_cons, List.modify_zero_cons, hbehind, ih, List.map_cons]

theorem foldl_pipStores (hlen : vmap.length = 6) (function : Option Int) :
    (pipStores function).foldl PipStore.apply vmap =
      function.elim (vmapTableResetPip vmap) (vmapTableSetPipByFunction vmap) := by
  have hreset : ((List.range 6).map PipStore.clear).foldl PipStore.apply vmap = vmapTableResetPip vmap := by
    rw [List.foldl_map, ← hlen]
    exact foldl_modify _ vmap
  rw [pipStores, List.foldl_append, hreset]
  cases function with
  | none => rfl
  | some f => rfl

theorem channels_apply (p : PipStore) : channels (p.apply vmap) = channels vmap := by
  cases p with
  | clear i =>
    refine List.ext_getElem? fun j => ?_
    simp only [PipStore.apply, channels, List.getElem?_map, List.getElem?_modify]
    cases vmap[j]? with
    | none => rfl
    | some v =>
      simp only [Option.map_eq_map, Option.map_some, Option.some.injEq]
      split_ifs <;> rfl
  | mark function =>
    simp only [PipStore.apply]
    split
    · exact channels_modify
    · rfl

theorem flag_clear (h : flag ((PipStore.clear i).apply vmap) j ≠ 0) : flag vmap j ≠ 0 := by
  simp only [flag, PipStore.apply, List.getElem?_modify] at h ⊢
  cases hj : vmap[j]? with
  | none => simp [hj] at h
  | some v =>
    rw [hj] at h
    simp only [Option.map_eq_map, Option.map_some, Option.getD_some] at h ⊢
    split_ifs at h
    · exact h
    · exact absurd rfl h
    · exact h

theorem flag_of_mem (h : flag vmap i ≠ 0) : ∃ v, vmap[i]? = some v ∧ v.pip ≠ 0 := by
  unfold flag at h
  cases hi : vmap[i]? with
  | none => simp [hi] at h
  | some v => exact ⟨v, rfl, by simpa [hi] using h⟩

/-- The flags say which channel is the inset's. -/
theorem PipOf.flag_ne_zero {inset : Option Int} (h : PipOf vmap inset) :
    flag vmap i ≠ 0 ↔ inset.bind (vmapTableGetIndexByFunction vmap) = some i := by
  cases inset with
  | none =>
    refine iff_of_false (fun hne => ?_) nofun
    obtain ⟨v, hv, hpip⟩ := flag_of_mem hne
    exact hpip (h v (List.mem_of_getElem? hv))
  | some f =>
    obtain ⟨k, hk, hflags⟩ := h
    have hindex : (some f).bind (vmapTableGetIndexByFunction vmap) = some k := hk
    rw [hindex, Option.some.injEq]
    constructor
    · intro hne
      obtain ⟨v, hv, hpip⟩ := flag_of_mem hne
      by_contra hki
      exact hpip ((hflags i v hv).trans (if_neg (Ne.symm hki)))
    · rintro rfl
      obtain ⟨hlt, -⟩ := List.findIdx?_eq_some_iff_getElem.mp hk
      rw [flag, List.getElem?_eq_getElem hlt, Option.map_some, Option.getD_some,
        hflags k _ (List.getElem?_eq_getElem hlt), if_pos rfl]
      exact one_ne_zero

/-- A channel that no function is bound to leaves the map without a flag. -/
theorem pipOf_call (function : Option Int) :
    ∃ inset, PipOf (function.elim (vmapTableResetPip vmap) (vmapTableSetPipByFunction vmap)) inset := by
  cases function with
  | none => exact ⟨none, pipOf_resetPip⟩
  | some f =>
    by_cases hf : f ∈ vmap.map VideoMap.function
    · exact ⟨some f, pipOf_setPip hf⟩
    · refine ⟨none, ?_⟩
      have hnone : vmapTableGetIndexByFunction (vmapTableResetPip vmap) f = none := by
        rw [index_channels, channels_resetPip, ← index_channels]
        refine List.findIdx?_eq_none_iff.mpr fun v hv => ?_
        exact decide_eq_false fun he => hf (List.mem_map.mpr ⟨v, hv, he⟩)
      rw [Option.elim_some, vmapTableSetPipByFunction, hnone]
      exact pipOf_resetPip

end

/-! ### The thread that runs alone -/

namespace Tracking

section
variable {s : Tracking} {a : TrackingAction}

/-- An action makes one call for the flags, or none. -/
theorem stores_cases (s : Tracking) (a : TrackingAction) : s.stores a = [] ∨ ∃ function, s.stores a = pipStores function := by
  cases a with
  | stop => exact .inr ⟨_, rfl⟩
  | start | switchVideo value | pass interval =>
    simp only [stores]
    split_ifs
    all_goals first | exact .inr ⟨_, rfl⟩ | exact .inl rfl
  | setRecordMode value | eventVid accOfLost needHiden isMultipleTeacher | eventAux studentInStanding | eventVga changed =>
    exact .inl rfl

theorem vmap_full (c : Int) : (s.full c).vmap = vmapTableResetPip s.vmap := rfl

theorem vmap_inset (c f : Int) : (s.inset c f).vmap = vmapTableSetPipByFunction s.vmap f := rfl

theorem vmap_putOnAir (state : Int) : (s.putOnAir state).vmap =
    (insetFunction state).elim (vmapTableResetPip s.vmap) (vmapTableSetPipByFunction s.vmap) := by
  unfold putOnAir
  cases insetFunction state <;> rfl

/-- The call is what the action does to the map. -/
theorem foldl_stores (h : s.Sound) (hlen : s.vmap.length = 6) (a : TrackingAction) :
    (s.stores a).foldl PipStore.apply s.vmap = (s.step a).vmap := by
  cases a with
  | start =>
    simp only [stores, step]
    rw [startPicture_eq h.inRange.initial]
    split_ifs with hinset
    · rw [foldl_pipStores hlen, vmap_putOnAir, hinset]
    · rfl
  | stop => exact foldl_pipStores hlen none
  | switchVideo value =>
    simp only [stores, step, manualPicture, fullValues, List.mem_cons, List.not_mem_nil, or_false]
    split_ifs <;> first | exact foldl_pipStores hlen _ | rfl | simp_all
  | pass interval =>
    simp only [stores, step]
    by_cases hupd : s.Updates interval
    · rw [if_pos hupd]
      rcases s.fsm.scan_cases (List.range condMax) s.truthTable with hscan | ⟨i, hi, hscan⟩
      · have hstay : (fsmStateUpdate s.truthTable s.fsm).1 = fsmNotransition := congrArg Prod.fst hscan
        rw [if_neg fun hmove => hmove.2 hstay]
        simp only [fsmStateUpdate, hscan]
        rfl
      · have hrange := h.inRange.scan (List.range condMax) s.truthTable
        rw [Fsm.goto, if_neg hi] at hscan
        rw [hscan] at hrange
        have hmove : (fsmStateUpdate s.truthTable s.fsm).1 ≠ fsmNotransition := by
          rw [fsmStateUpdate, hscan]
          exact hi
        rw [if_pos ⟨hupd, hmove⟩, foldl_pipStores hlen]
        simp only [fsmStateUpdate, hscan]
        rw [enterPicture_eq hrange.current, vmap_putOnAir]
    · rw [if_neg hupd, if_neg fun hmove => hupd hmove.1]
      rfl
  | setRecordMode value => rfl
  | eventVid accOfLost needHiden isMultipleTeacher =>
    simp only [step]
    split_ifs <;> rfl
  | eventAux studentInStanding =>
    simp only [step, onAux]
    split_ifs <;> rfl
  | eventVga changed =>
    simp only [step, onVga]
    split_ifs <;> rfl

/-- What the thread keeps of the map: its six channels, and flags of one inset or of none. -/
structure Flags (channels₀ : List (Int × Int)) (s : Tracking) : Prop where
  sound : s.Sound
  channels : channels s.vmap = channels₀
  pip : ∃ inset, PipOf s.vmap inset

theorem length_of_channels {vmap vmap' : List VideoMap} (h : Recbcsrv.channels vmap = Recbcsrv.channels vmap') :
    vmap.length = vmap'.length := by
  simpa [Recbcsrv.channels] using congrArg List.length h

theorem Flags.step {vmap : List VideoMap} (hlen : vmap.length = 6) (h : s.Flags (Recbcsrv.channels vmap)) (a : TrackingAction) :
    (s.step a).Flags (Recbcsrv.channels vmap) := by
  refine ⟨h.sound.step a, (channels_step s a).trans h.channels, ?_⟩
  have hlen' : s.vmap.length = 6 := (length_of_channels h.channels).trans hlen
  rw [← foldl_stores h.sound hlen' a]
  rcases s.stores_cases a with hnone | ⟨function, hcall⟩
  · rw [hnone]
    exact h.pip
  · rw [hcall, foldl_pipStores hlen']
    exact pipOf_call function

end

end Tracking

namespace Studio

section
variable {c : Compressor} {vmap : List VideoMap} {s u : Studio} {t t₀ : Tracking}

/-- The threads are at some place in a call, `t` is the thread alone after the action with the call, and `t₀` before it. -/
structure Serial (vmap : List VideoMap) (t t₀ : Tracking) (s : Studio) : Prop where
  flags : t.Flags (channels vmap)
  flags₀ : t₀.Flags (channels vmap)
  tracking : s.tracking = { t with vmap := s.tracking.vmap }
  call : s.stores.foldl PipStore.apply s.tracking.vmap = t.vmap
  rest : ∃ (is : List Nat) (function : Option Int), s.stores = is.map .clear ++ (function.map .mark).toList
  between : s.stores = [] ∨ ∀ i, flag s.tracking.vmap i ≠ 0 → flag t₀.vmap i ≠ 0

/-- Between two calls the thread is where it is alone. -/
theorem Serial.settled (h : s.Serial vmap t t₀) (hs : s.stores = []) : s.tracking = t := by
  have hmap := h.call
  rw [hs] at hmap
  have htracking := h.tracking
  rw [show s.tracking.vmap = t.vmap from hmap] at htracking
  exact htracking

theorem Serial.begin (hlen : vmap.length = 6) (h : s.Serial vmap t t₀) {a : TrackingAction}
    (hs : s.step c (.begin a) = some u) : u.Serial vmap (t.step a) t := by
  simp only [step] at hs
  split at hs
  · next hidle =>
    cases hs
    have halone : s.tracking = t := h.settled hidle
    refine ⟨h.flags.step hlen a, h.flags, ?_, ?_, ?_, ?_⟩
    · dsimp only
      rw [halone]
    · dsimp only
      rw [halone]
      exact Tracking.foldl_stores h.flags.sound ((Tracking.length_of_channels h.flags.channels).trans hlen) a
    · rcases s.tracking.stores_cases a with hnone | ⟨function, hcall⟩
      · exact ⟨[], none, hnone⟩
      · exact ⟨List.range 6, function, hcall⟩
    · refine .inr fun i hi => ?_
      rw [← halone]
      exact hi
  · cases hs

theorem Serial.store (h : s.Serial vmap t t₀) (hs : s.step c .store = some u) : u.Serial vmap t t₀ := by
  obtain ⟨is, function, hrest⟩ := h.rest
  have hcall := h.call
  simp only [step] at hs
  split at hs
  · cases hs
  · next p stores hp =>
    cases hs
    rw [hp] at hrest hcall
    refine ⟨h.flags, h.flags₀, ?_, hcall, ?_, ?_⟩
    · dsimp only
      rw [h.tracking]
    · rcases is with _ | ⟨i, is⟩
      · rcases function with _ | f
        · cases hrest
        · exact ⟨[], none, (List.cons.inj hrest).2⟩
      · exact ⟨is, function, (List.cons.inj hrest).2⟩
    · rcases is with _ | ⟨i, is⟩
      · -- The mark is the last store.
        rcases function with _ | f
        · cases hrest
        · exact .inl (List.cons.inj hrest).2
      · obtain ⟨rfl, -⟩ := List.cons.inj hrest
        rcases h.between with hnone | hold
        · rw [hp] at hnone
          cases hnone
        · exact .inr fun j hj => hold j (flag_clear hj)

/-- What `thread_img` does with an image. -/
theorem onTake_eq {x : ImgItem} (hheld : s.held = none) (h : s.onTake c x = some u) : (x.source ≠ .imgM → x.Fits c) ∧
    ∃ tmpfile, u = { s with
      held := x.held
      tmpfile
      jpeg := s.jpeg ++ (x.sends c s.tracking.vmap).toList } := by
  unfold onTake at h
  unfold ImgItem.held ImgItem.sends
  cases hsource : x.source with
  | imgM =>
    rw [hsource] at h
    cases h
    refine ⟨fun hne => absurd rfl hne, s.tmpfile, ?_⟩
    rw [Option.toList_none, List.append_nil, ← hheld]
  | imgV | img i =>
    rw [hsource] at h
    obtain ⟨f, hf, rfl⟩ := Option.map_eq_some_iff.mp h
    refine ⟨fun _ => ImgItem.fits_of_jpeg hf, (yuv422ToJpeg c x.planes s.tmpfile).2, ?_⟩
    rw [ImgItem.jpeg_eq] at hf
    rw [hf]
    rfl

theorem Serial.of_eq (h : s.Serial vmap t t₀) (ht : u.tracking = s.tracking) (hs : u.stores = s.stores) :
    u.Serial vmap t t₀ := by
  obtain ⟨hflags, hflags₀, htracking, hcall, hrest, hbetween⟩ := h
  rw [← ht, ← hs] at hcall hbetween
  rw [← ht] at htracking
  rw [← hs] at hrest
  exact ⟨hflags, hflags₀, htracking, hcall, hrest, hbetween⟩

/-- The thread alone along a run, with the state before its last action. -/
def alone (r : Tracking × Tracking) (a : StudioAct) : Tracking × Tracking :=
  match a with
  | .begin a => (r.1.step a, r.1)
  | _ => r

theorem Serial.step (hlen : vmap.length = 6) (r : Tracking × Tracking) (s : Studio) (a : StudioAct) (u : Studio)
    (h : s.Serial vmap r.1 r.2) (hs : s.step c a = some u) : u.Serial vmap (alone r a).1 (alone r a).2 := by
  cases a with
  | begin a => exact h.begin hlen hs
  | store => exact h.store hs
  | take x =>
    simp only [Studio.step] at hs
    split at hs
    · next hheld =>
      obtain ⟨-, tmpfile, rfl⟩ := onTake_eq hheld hs
      exact h.of_eq rfl rfl
    · cases hs
  | test =>
    obtain ⟨x, -, rfl⟩ := Option.map_eq_some_iff.mp hs
    exact h.of_eq rfl rfl

theorem foldl_alone (t : Tracking) (as : List StudioAct) :
    as.foldl alone (t, t) = (t.run (begun as), t.run (begun as).dropLast) := by
  induction as using List.reverseRecOn with
  | nil => rfl
  | append_singleton as a ih =>
    rw [List.foldl_append, ih]
    cases a with
    | begin a =>
      have hbegun : begun (as ++ [.begin a]) = begun as ++ [a] := by simp [begun]
      have hrun : t.run (begun as ++ [a]) = (t.run (begun as)).step a := by
        rw [Tracking.run, List.foldl_append]
        rfl
      rw [hbegun, List.dropLast_concat, hrun]
      rfl
    | store | take x | test =>
      simp only [begun, List.filterMap_append, List.filterMap_cons, List.filterMap_nil, List.append_nil]
      rfl

/-! ### What is sent -/

/-- The JPEG FIFO has the pictures of the images taken, and the functions of the channels are what they were. -/
structure Sent (c : Compressor) (vmap : List VideoMap) (xs : List ImgItem) (s : Studio) : Prop where
  channels : channels s.tracking.vmap = channels vmap
  jpeg : s.jpeg = xs.filterMap (ImgItem.sends c vmap)
  fits : ∀ x ∈ xs, x.source ≠ .imgM → x.Fits c

theorem functions_of_channels {vmap vmap' : List VideoMap} (h : channels vmap = channels vmap') :
    vmap.map VideoMap.function = vmap'.map VideoMap.function := by
  have hfst : ∀ vmap : List VideoMap, vmap.map VideoMap.function = (channels vmap).map Prod.fst := fun vmap => by
    rw [channels, List.map_map]
    rfl
  rw [hfst, h, ← hfst]

theorem Sent.of_eq {xs : List ImgItem} (h : Sent c vmap xs s)
    (hchannels : Recbcsrv.channels u.tracking.vmap = Recbcsrv.channels s.tracking.vmap) (hjpeg : u.jpeg = s.jpeg) :
    Sent c vmap (xs ++ []) u := by
  rw [List.append_nil]
  exact ⟨hchannels.trans h.channels, hjpeg.trans h.jpeg, h.fits⟩

theorem Sent.step {xs : List ImgItem} (h : Sent c vmap xs s) {a : StudioAct} (hs : s.step c a = some u) :
    Sent c vmap (xs ++ taken [a]) u := by
  cases a with
  | begin a =>
    simp only [Studio.step] at hs
    split at hs
    · cases hs
      exact h.of_eq rfl rfl
    · cases hs
  | store =>
    simp only [Studio.step] at hs
    split at hs
    · cases hs
    · next p stores hp =>
      cases hs
      exact h.of_eq (channels_apply p) rfl
  | take x =>
    simp only [Studio.step] at hs
    split at hs
    · next hheld =>
      obtain ⟨hfits, tmpfile, rfl⟩ := onTake_eq hheld hs
      have htaken : taken [.take x] = [x] := rfl
      have hsends : x.sends c s.tracking.vmap = x.sends c vmap := by
        simp only [ImgItem.sends, functions_of_channels h.channels]
      refine ⟨h.channels, ?_, List.forall_mem_append.mpr ⟨h.fits, List.forall_mem_singleton.mpr hfits⟩⟩
      rw [htaken, List.filterMap_append, ← h.jpeg, hsends]
      cases hone : x.sends c vmap <;> simp [hone]
    · cases hs
  | test =>
    obtain ⟨x, -, rfl⟩ := Option.map_eq_some_iff.mp hs
    exact h.of_eq rfl rfl

/-- The picture of the image in hand, if its flag is set. -/
def inHand (s : Studio) : List Picture :=
  match s.held with
  | some (i, x) => if flag s.tracking.vmap i = 0 then [] else [x.pip]
  | none => []

theorem inHand_held {inset : Option Int} (hinset : PipOf t.vmap inset) (ht : s.tracking = t) {x : ImgItem} (hheld : s.held = x.held) :
    s.inHand = ([x].filter (ImgItem.ofInset t.vmap inset)).map ImgItem.pip := by
  have hflag : ∀ i, flag s.tracking.vmap i ≠ 0 ↔ inset.bind (vmapTableGetIndexByFunction t.vmap) = some i := fun i => by
    rw [ht]
    exact hinset.flag_ne_zero
  cases hsource : x.source with
  | imgV | imgM => simp [inHand, hheld, ImgItem.held, ImgItem.ofInset, hsource]
  | img i =>
    have hof : ImgItem.ofInset t.vmap inset x = decide (flag s.tracking.vmap i ≠ 0) := by
      simp only [ImgItem.ofInset, hsource, hflag]
    simp only [inHand, hheld, ImgItem.held, hsource, List.filter_cons, List.filter_nil, hof, decide_eq_true_eq]
    by_cases hzero : flag s.tracking.vmap i = 0
    · simp [hzero]
    · simp [hzero]

/-- While no action is begun, the images of the inset's channel go to the PIP FIFO. -/
theorem pip_quiet {inset : Option Int} (hinset : PipOf t.vmap inset) {bs : List StudioAct} (hbs : begun bs = [])
    (hstores : s.stores = []) (ht : s.tracking = t) (h : Exec.exec (step c) s bs = some u) :
    u.pip ++ u.inHand = s.pip ++ s.inHand ++ ((taken bs).filter (ImgItem.ofInset t.vmap inset)).map ImgItem.pip := by
  induction bs generalizing s with
  | nil =>
    cases h
    simp [taken]
  | cons b bs ih =>
    obtain ⟨v, hv, hrest⟩ := Exec.exec_cons.mp h
    cases b with
    | begin a => simp [begun] at hbs
    | store =>
      rw [Studio.step, hstores] at hv
      cases hv
    | take x =>
      simp only [Studio.step] at hv
      split at hv
      · next hheld =>
        obtain ⟨-, tmpfile, rfl⟩ := onTake_eq hheld hv
        rw [ih hbs (by exact hstores) (by exact ht) hrest, inHand_held hinset (by exact ht) rfl]
        have htaken : taken (.take x :: bs) = [x] ++ taken bs := rfl
        have hnone : s.inHand = [] := by rw [inHand, hheld]
        rw [hnone, htaken, List.filter_append, List.map_append, List.append_nil, List.append_assoc]
      · cases hv
    | test =>
      obtain ⟨⟨i, x⟩, hheld, rfl⟩ := Option.map_eq_some_iff.mp hv
      have htaken : taken (.test :: bs) = taken bs := rfl
      rw [ih hbs (by exact hstores) (by exact ht) hrest, htaken]
      have hboth : (if flag s.tracking.vmap i = 0 then s.pip else s.pip ++ [x.pip]) = s.pip ++ s.inHand := by
        rw [inHand, hheld]
        dsimp only
        split
        · rw [List.append_nil]
        · rfl
      dsimp only
      rw [hboth]
      simp [inHand]

/-- After a run from `t₀` on: between two calls the thread is where it would be alone, and it knows its inset. At any time
    there is at most one flag, of the inset before or after the call that runs. The JPEG FIFO has the pictures of all images
    but those of the movie, for which `buffer2` had room, and while no action is begun the PIP FIFO gets the images of the
    inset's channel, and no others. -/
structure Follows (c : Compressor) (t₀ : Tracking) (as : List StudioAct) (s : Studio) : Prop where
  settled : s.stores = [] → s.tracking = t₀.run (begun as)
  inset : ∃ inset, PipOf (t₀.run (begun as)).vmap inset
  one : ∀ i j, flag s.tracking.vmap i ≠ 0 → flag s.tracking.vmap j ≠ 0 → i = j
  between : ∀ i, flag s.tracking.vmap i ≠ 0 →
    flag (t₀.run (begun as)).vmap i ≠ 0 ∨ flag (t₀.run (begun as).dropLast).vmap i ≠ 0
  fits : ∀ x ∈ taken as, x.source ≠ .imgM → x.Fits c
  jpeg : s.jpeg = (taken as).filterMap (ImgItem.sends c t₀.vmap)
  pip : ∀ inset, PipOf (t₀.run (begun as)).vmap inset → ∀ bs u, Exec.exec (step c) s bs = some u → begun bs = [] →
    s.stores = [] → s.held = none → u.held = none →
    u.pip = s.pip ++ ((taken bs).filter (ImgItem.ofInset (t₀.run (begun as)).vmap inset)).map ImgItem.pip

theorem flag_unique {inset : Option Int} {i j : Nat} (h : PipOf vmap inset) (hi : flag vmap i ≠ 0) (hj : flag vmap j ≠ 0) :
    i = j :=
  Option.some.inj ((h.flag_ne_zero.mp hi).symm.trans (h.flag_ne_zero.mp hj))

theorem Sent.run {as : List StudioAct} (h : Sent c vmap [] s) (hs : Exec.exec (Studio.step c) s as = some u) :
    Sent c vmap (taken as) u := by
  have hfold : ∀ (bs : List StudioAct) (xs : List ImgItem), bs.foldl (fun xs a => xs ++ taken [a]) xs = xs ++ taken bs := by
    intro bs
    induction bs with
    | nil => exact fun xs => (List.append_nil xs).symm
    | cons b bs ih =>
      intro xs
      have hcons : taken (b :: bs) = taken [b] ++ taken bs := List.filterMap_append (l := [b])
      rw [List.foldl_cons, ih, List.append_assoc, ← hcons]
  have hrun := Exec.exec_follows (R := Sent c vmap) (r := fun xs a => xs ++ taken [a]) (fun _ _ _ _ h hs => h.step hs) h hs
  rwa [hfold, List.nil_append] at hrun

theorem Serial.start (h : t.Flags (channels vmap)) : (start t).Serial vmap t t :=
  ⟨h, h, rfl, rfl, ⟨[], none, rfl⟩, .inl rfl⟩

theorem follows (hlen : vmap.length = 6) (h : t.Flags (channels vmap)) {as : List StudioAct}
    (hs : Exec.exec (step c) (start t) as = some s) : Follows c t as s := by
  have hserial : s.Serial vmap (as.foldl alone (t, t)).1 (as.foldl alone (t, t)).2 :=
    Exec.exec_follows (R := fun (r : Tracking × Tracking) s => s.Serial vmap r.1 r.2) (Serial.step hlen) (Serial.start h) hs
  rw [foldl_alone] at hserial
  obtain ⟨inset, hinset⟩ := hserial.flags.pip
  obtain ⟨inset₀, hinset₀⟩ := hserial.flags₀.pip
  have hmid : (∀ i, flag s.tracking.vmap i ≠ 0 → flag (t.run (begun as)).vmap i ≠ 0) ∨
      ∀ i, flag s.tracking.vmap i ≠ 0 → flag (t.run (begun as).dropLast).vmap i ≠ 0 := by
    rcases hserial.between with hnone | hold
    · have halone : s.tracking = t.run (begun as) := hserial.settled hnone
      exact .inl fun i hi => halone ▸ hi
    · exact .inr hold
  have hsent : Sent c t.vmap (taken as) s := Sent.run ⟨rfl, rfl, List.forall_mem_nil _⟩ hs
  refine ⟨hserial.settled, hserial.flags.pip, fun i j hi hj => ?_, fun i hi => ?_, hsent.fits, hsent.jpeg,
    fun inset hinset bs u hu hbs hstores hheld hheld' => ?_⟩
  · rcases hmid with hnew | hold
    · exact flag_unique hinset (hnew i hi) (hnew j hj)
    · exact flag_unique hinset₀ (hold i hi) (hold j hj)
  · exact hmid.imp (fun hnew => hnew i hi) fun hold => hold i hi
  · have hquiet := pip_quiet hinset hbs hstores (hserial.settled hstores) hu
    simpa only [inHand, hheld, hheld', List.append_nil] using hquiet

/-- However the steps of the two threads fall, the pictures follow the thread that switches. -/
theorem insets (c : Compressor) {file : PolicyFile} {ret : Int} {fsm : Fsm} (h : switchPolicyLoad file fsmInit = some (ret, fsm))
    (isAutoInstuct vgaDuration : Int) (hlen : vmap.length = 6) (hpip : PipOf vmap none) (as : List StudioAct)
    (hs : Exec.exec (step c) (start (.init fsm isAutoInstuct vgaDuration vmap)) as = some s) :
    Follows c (.init fsm isAutoInstuct vgaDuration vmap) as s :=
  follows hlen ⟨Tracking.init_sound (switchPolicyLoad_inRange h) isAutoInstuct vgaDuration vmap, rfl, none, hpip⟩ hs

end

/-- A segment of a JPEG file. -/
def jpegSegment (marker : UInt8) (body : List UInt8) : List UInt8 :=
  [0xff, marker, .ofNat ((body.length + 2) / 256), .ofNat (body.length + 2)] ++ body

/-- The codes of a Huffman table: how many there are of each length, and their values. -/
def huffmanTable (cls : UInt8) (bits values : List UInt8) : List UInt8 := jpegSegment 0xc4 (cls :: bits ++ values)

def dcValues : List UInt8 := [0, 1, 2, 3, 4, 5, 6, 7, 8, 9, 10, 11]

def acLuminanceValues : List UInt8 :=
  [
    0x01, 0x02, 0x03, 0x00, 0x04, 0x11, 0x05, 0x12, 0x21, 0x31, 0x41, 0x06, 0x13, 0x51, 0x61, 0x07, 0x22, 0x71, 0x14, 0x32, 0x81, 0x91,
    0xa1, 0x08, 0x23, 0x42, 0xb1, 0xc1, 0x15, 0x52, 0xd1, 0xf0, 0x24, 0x33, 0x62, 0x72, 0x82, 0x09, 0x0a, 0x16, 0x17, 0x18, 0x19, 0x1a,
    0x25, 0x26, 0x27, 0x28, 0x29, 0x2a, 0x34, 0x35, 0x36, 0x37, 0x38, 0x39, 0x3a, 0x43, 0x44, 0x45, 0x46, 0x47, 0x48, 0x49, 0x4a, 0x53,
    0x54, 0x55, 0x56, 0x57, 0x58, 0x59, 0x5a, 0x63, 0x64, 0x65, 0x66, 0x67, 0x68, 0x69, 0x6a, 0x73, 0x74, 0x75, 0x76, 0x77, 0x78, 0x79,
    0x7a, 0x83, 0x84, 0x85, 0x86, 0x87, 0x88, 0x89, 0x8a, 0x92, 0x93, 0x94, 0x95, 0x96, 0x97, 0x98, 0x99, 0x9a, 0xa2, 0xa3, 0xa4, 0xa5,
    0xa6, 0xa7, 0xa8, 0xa9, 0xaa, 0xb2, 0xb3, 0xb4, 0xb5, 0xb6, 0xb7, 0xb8, 0xb9, 0xba, 0xc2, 0xc3, 0xc4, 0xc5, 0xc6, 0xc7, 0xc8, 0xc9,
    0xca, 0xd2, 0xd3, 0xd4, 0xd5, 0xd6, 0xd7, 0xd8, 0xd9, 0xda, 0xe1, 0xe2, 0xe3, 0xe4, 0xe5, 0xe6, 0xe7, 0xe8, 0xe9, 0xea, 0xf1, 0xf2,
    0xf3, 0xf4, 0xf5, 0xf6, 0xf7, 0xf8, 0xf9, 0xfa]

def acChrominanceValues : List UInt8 :=
  [
    0x00, 0x01, 0x02, 0x03, 0x11, 0x04, 0x05, 0x21, 0x31, 0x06, 0x12, 0x41, 0x51, 0x07, 0x61, 0x71, 0x13, 0x22, 0x32, 0x81, 0x08, 0x14,
    0x42, 0x91, 0xa1, 0xb1, 0xc1, 0x09, 0x23, 0x33, 0x52, 0xf0, 0x15, 0x62, 0x72, 0xd1, 0x0a, 0x16, 0x24, 0x34, 0xe1, 0x25, 0xf1, 0x17,
    0x18, 0x19, 0x1a, 0x26, 0x27, 0x28, 0x29, 0x2a, 0x35, 0x36, 0x37, 0x38, 0x39, 0x3a, 0x43, 0x44, 0x45, 0x46, 0x47, 0x48, 0x49, 0x4a,
    0x53, 0x54, 0x55, 0x56, 0x57, 0x58, 0x59, 0x5a, 0x63, 0x64, 0x65, 0x66, 0x67, 0x68, 0x69, 0x6a, 0x73, 0x74, 0x75, 0x76, 0x77, 0x78,
    0x79, 0x7a, 0x82, 0x83, 0x84, 0x85, 0x86, 0x87, 0x88, 0x89, 0x8a, 0x92, 0x93, 0x94, 0x95, 0x96, 0x97, 0x98, 0x99, 0x9a, 0xa2, 0xa3,
    0xa4, 0xa5, 0xa6, 0xa7, 0xa8, 0xa9, 0xaa, 0xb2, 0xb3, 0xb4, 0xb5, 0xb6, 0xb7, 0xb8, 0xb9, 0xba, 0xc2, 0xc3, 0xc4, 0xc5, 0xc6, 0xc7,
    0xc8, 0xc9, 0xca, 0xd2, 0xd3, 0xd4, 0xd5, 0xd6, 0xd7, 0xd8, 0xd9, 0xda, 0xe2, 0xe3, 0xe4, 0xe5, 0xe6, 0xe7, 0xe8, 0xe9, 0xea, 0xf2,
    0xf3, 0xf4, 0xf5, 0xf6, 0xf7, 0xf8, 0xf9, 0xfa]

/-- The file that libjpeg writes for an image all of whose bytes are 0, at the quality 100. -/
def blackJpeg : List UInt8 :=
  [0xff, 0xd8] ++ jpegSegment 0xe0 [0x4a, 0x46, 0x49, 0x46, 0, 1, 1, 0, 0, 1, 0, 1, 0, 0] ++
    jpegSegment 0xdb (0 :: List.replicate 64 1) ++ jpegSegment 0xdb (1 :: List.replicate 64 1) ++
    jpegSegment 0xc0 [8, 0, 144, 1, 0, 3, 1, 0x21, 0, 2, 0x11, 1, 3, 0x11, 1] ++
    huffmanTable 0 [0, 1, 5, 1, 1, 1, 1, 1, 1, 0, 0, 0, 0, 0, 0, 0] dcValues ++
    huffmanTable 0x10 [0, 2, 1, 3, 3, 2, 4, 3, 5, 5, 4, 4, 0, 0, 1, 0x7d] acLuminanceValues ++
    huffmanTable 1 [0, 3, 1, 1, 1, 1, 1, 1, 1, 1, 1, 0, 0, 0, 0, 0] dcValues ++
    huffmanTable 0x11 [0, 2, 1, 2, 4, 4, 3, 4, 7, 5, 4, 4, 0, 1, 2, 0x77] acChrominanceValues ++
    jpegSegment 0xda [3, 1, 0, 2, 0x11, 3, 0x11, 0, 0x3f, 0] ++
    [0xff, 0, 0x3f, 0xfa, 0x2b, 0xff, 0, 0x3f, 0xf3, 0xff, 0, 0x3f, 0xf0] ++
    (List.replicate 143 [0xa2, 0x80, 0x0a, 0x28, 0]).flatten ++ [0xa2, 0x80, 0x3f] ++ [0xff, 0xd9]

theorem length_blackJpeg : blackJpeg.length = 1356 := by decide +kernel

/-- The compressor where all images are black. -/
def blackCompressor : Compressor where
  compress _ := blackJpeg
  pos _ := by
    rw [length_blackJpeg]
    decide

/-- A black image. -/
def black (source : ImgSource) : ImgItem := ⟨source, List.replicate (2 * (256 * 144)) 0, 40, List.length_replicate⟩

/-- An image of each of the six channels. -/
def showAll : List StudioAct := (List.finRange 6).flatMap fun i => [.take (black (.img i)), .test]

/-- A manual switch to a picture with the teacher as inset, with the images before the last store. -/
def tellTeacher : List StudioAct :=
  .begin (.switchVideo "VGAWithTeacherSpecial") :: List.replicate 6 .store ++ showAll ++ [.store]

theorem insets_teacher : ∃ s u,
    Exec.exec (step blackCompressor) (start (.init (sampleFsm "TeacherFull") 0 10 vmapTableInit)) tellTeacher = some s ∧
    Exec.exec (step blackCompressor) s showAll = some u ∧ s.pip = [] ∧ u.pip = [(black (.img 0)).pip] := by
  have hrun : (Exec.exec (step blackCompressor) (start (.init (sampleFsm "TeacherFull") 0 10 vmapTableInit)) tellTeacher).any (fun s =>
      s.stores = [] ∧ s.held.isNone ∧ s.pip.length = 0 ∧
        (Exec.exec (step blackCompressor) s showAll).any fun u => u.held.isNone) = true := by
    decide +kernel
  obtain ⟨s, hs, hr⟩ := (Option.any_eq_true ..).mp hrun
  simp only [decide_eq_true_eq, Option.isNone_iff_eq_none, List.length_eq_zero_iff] at hr
  obtain ⟨hstores, hheld, hnone, hu⟩ := hr
  obtain ⟨u, hu, hheld'⟩ := (Option.any_eq_true ..).mp hu
  have hfollows := insets blackCompressor (switchPolicyLoad_sample "TeacherFull") 0 10 rfl
    (show PipOf vmapTableInit none by unfold PipOf; decide) tellTeacher hs
  have hset : ((Tracking.init (sampleFsm "TeacherFull") 0 10 vmapTableInit).run (begun tellTeacher)).vmap =
      vmapTableSetPipByFunction vmapTableInit 1 := by
    decide +kernel
  have hpip : PipOf (vmapTableSetPipByFunction vmapTableInit 1) (some 1) := pipOf_setPip (by decide)
  have hshown := hfollows.pip (some 1) (hset ▸ hpip) showAll u hu rfl hstores hheld (Option.isNone_iff_eq_none.mp hheld')
  refine ⟨s, u, hs, hu, hnone, ?_⟩
  rw [hshown, hnone, hset]
  have htaken : taken showAll = (List.finRange 6).map fun i => black (.img i) := rfl
  have hfilter : (List.finRange 6).filter (fun i =>
      ImgItem.ofInset (vmapTableSetPipByFunction vmapTableInit 1) (some 1) (black (.img i))) = [0] := by
    decide +kernel
  rw [htaken, List.filter_map, Function.comp_def, hfilter]
  rfl

end Studio

end Recbcsrv
