import Recbcsrv.Switch.Conditions

/-! The picture on air. A state is entered on two paths: a transition, which knows all states, and `Start`, which
    knows only those without an inset. -/

namespace Recbcsrv

/-! ### What a state shows -/

/-- The function of the picture of a state. -/
def mainFunction (state : Int) : Int :=
  if state = fsmVga ∨ state = fsmVgaPipTeacherCloseup then videoFunctionVga
  else if state = fsmTeacherCloseup ∨ state = fsmTeacherCloseupPipStudentCloseup then videoFunctionTeacherCloseup
  else if state = fsmStudentCloseup then videoFunctionStudentCloseup
  else if state = fsmTeacherPanorama then videoFunctionTeacherPanorama
  else if state = fsmStudentPanorama then videoFunctionStudentPanorama
  else videoFunctionBoardCloseup

/-- The function of the inset of a state with a picture in the picture. -/
def insetFunction (state : Int) : Option Int :=
  if state = fsmVgaPipTeacherCloseup then some videoFunctionTeacherCloseup
  else if state = fsmTeacherCloseupPipStudentCloseup ∨ state = fsmBlackboardPipStudentCloseup then
    some videoFunctionStudentCloseup
  else none

/-- The capture id of the channel that is bound to a function; VGA needs no channel. -/
def captureOf (vmap : List VideoMap) (function : Int) : Option Int :=
  if function = videoFunctionVga then some videoFunctionVga
  else (vmap.find? fun v => v.function = function).map fun v => v.capId % 16

/-- All functions have a channel. -/
def AllBound (vmap : List VideoMap) : Prop :=
  ∀ f ∈ [videoFunctionTeacherCloseup, videoFunctionStudentCloseup, videoFunctionTeacherPanorama,
    videoFunctionStudentPanorama, videoFunctionBoardCloseup], f ∈ vmap.map VideoMap.function

/-- The flags of a picture: of the inset's channel and no other. -/
def PipOf (vmap : List VideoMap) (inset : Option Int) : Prop :=
  match inset with
  | none => ∀ v ∈ vmap, v.pip = 0
  | some f => ∃ i, (vmap.findIdx? fun v => v.function = f) = some i ∧
    ∀ j v, vmap[j]? = some v → v.pip = if j = i then 1 else 0

/-- The last message and the flags are those of the current state. -/
structure OnAir (s : Tracking) : Prop where
  sent : ∃ c, captureOf s.vmap (mainFunction s.fsm.currentState) = some c ∧
    s.sent.getLast? = some ⟨c, if (insetFunction s.fsm.currentState).isSome then 1 else 0⟩
  pip : PipOf s.vmap (insetFunction s.fsm.currentState)

/-! ### The video map -/

section
variable {vmap : List VideoMap} {function : Int}

/-- The map without the flags. -/
def channels (vmap : List VideoMap) : List (Int × Int) := vmap.map fun v => (v.function, v.capId)

theorem vmapTableResetPip_eq : vmapTableResetPip vmap = vmap.map fun v => { v with pip := 0 } := by
  refine List.map_congr_left fun v _ => ?_
  split
  · next h => rw [← h]
  · rfl

theorem channels_resetPip : channels (vmapTableResetPip vmap) = channels vmap := by
  rw [channels, vmapTableResetPip_eq, List.map_map]
  rfl

theorem channels_modify {i : Nat} {pip : Int} : channels (vmap.modify i fun v => { v with pip }) = channels vmap := by
  refine List.ext_getElem? fun j => ?_
  simp only [channels, List.getElem?_map, List.getElem?_modify]
  by_cases e : i = j
  · simp [e, Function.comp_def]
  · simp [e]

theorem channels_setPip : channels (vmapTableSetPipByFunction vmap function) = channels vmap := by
  simp only [vmapTableSetPipByFunction]
  split
  · exact channels_modify.trans channels_resetPip
  · exact channels_resetPip

theorem captureOf_channels : captureOf vmap function =
    if function = videoFunctionVga then some videoFunctionVga
    else ((channels vmap).find? fun c => c.1 = function).map fun c => c.2 % 16 := by
  rw [channels, List.find?_map, Option.map_map]
  rfl

theorem captureOf_congr {vmap' : List VideoMap} (h : channels vmap' = channels vmap) :
    captureOf vmap' function = captureOf vmap function := by
  rw [captureOf_channels, h, ← captureOf_channels]

theorem index_channels : vmapTableGetIndexByFunction vmap function = (channels vmap).findIdx? fun c => c.1 = function := by
  rw [channels, List.findIdx?_map]
  rfl

theorem AllBound.of_channels {vmap' : List VideoMap} (h : AllBound vmap) (he : channels vmap' = channels vmap) :
    AllBound vmap' := by
  have hfst : ∀ vmap : List VideoMap, vmap.map VideoMap.function = (channels vmap).map Prod.fst := fun vmap => by
    rw [channels, List.map_map]
    rfl
  unfold AllBound at h ⊢
  rw [hfst] at h ⊢
  rw [he]
  exact h

/-- A bound function has the capture id that the lookup returns. -/
theorem captureOf_bound (h : function ∈ vmap.map VideoMap.function) (hne : function ≠ videoFunctionVga) :
    captureOf vmap function = some (vmapTableGetCapidByFunction vmap function) := by
  rw [captureOf, if_neg hne, vmapTableGetCapidByFunction]
  obtain ⟨v, hv, he⟩ := List.mem_map.mp h
  cases hfind : vmap.find? fun v => v.function = function with
  | some u => rfl
  | none =>
    have := List.find?_eq_none.mp hfind v hv
    simp [he] at this

theorem pipOf_resetPip : PipOf (vmapTableResetPip vmap) none := fun v hv => by
  rw [vmapTableResetPip_eq] at hv
  obtain ⟨u, -, rfl⟩ := List.mem_map.mp hv
  rfl

theorem pipOf_setPip (h : function ∈ vmap.map VideoMap.function) :
    PipOf (vmapTableSetPipByFunction vmap function) (some function) := by
  have hindex : (vmapTableSetPipByFunction vmap function).findIdx? (fun v => v.function = function) =
      vmapTableGetIndexByFunction (vmapTableResetPip vmap) function := by
    have hchannels : channels (vmapTableSetPipByFunction vmap function) = channels vmap := channels_setPip
    rw [index_channels, channels_resetPip, ← hchannels]
    exact index_channels
  cases hi : vmapTableGetIndexByFunction (vmapTableResetPip vmap) function with
  | none =>
    rw [index_channels, channels_resetPip, ← index_channels] at hi
    obtain ⟨v, hv, he⟩ := List.mem_map.mp h
    have := List.findIdx?_eq_none_iff.mp hi v hv
    simp [he] at this
  | some i =>
    refine ⟨i, hindex.trans hi, fun j v hj => ?_⟩
    simp only [vmapTableSetPipByFunction, hi] at hj
    rw [vmapTableResetPip_eq, List.getElem?_modify] at hj
    obtain ⟨u, hu, rfl⟩ := Option.map_eq_some_iff.mp hj
    rw [List.getElem?_map] at hu
    obtain ⟨w, -, rfl⟩ := Option.map_eq_some_iff.mp hu
    by_cases e : i = j
    · simp [e]
    · rw [if_neg e, if_neg (Ne.symm e)]

end

/-! ### The two paths -/

section
variable {fsm : Fsm} {s : Tracking} {ret : Int}

namespace Tracking

/-- The capture id that the thread puts into the message for a function. -/
def capture (s : Tracking) (function : Int) : Int :=
  if function = videoFunctionVga then videoFunctionVga else s.capid function

/-- What the thread does for a picture with or without an inset. -/
def putOnAir (s : Tracking) (state : Int) : Tracking :=
  match insetFunction state with
  | none => s.full (s.capture (mainFunction state))
  | some f => s.inset (s.capture (mainFunction state)) f

theorem enterPicture_eq (h : 0 ≤ ret ∧ ret < fsmStateMax) : s.enterPicture ret = s.putOnAir ret := by
  obtain ⟨h0, h9⟩ := h
  unfold fsmStateMax at h9
  interval_cases ret <;> rfl

/-- `Start` leaves the states with an inset out. -/
theorem startPicture_eq (h : 0 ≤ ret ∧ ret < fsmStateMax) :
    s.startPicture ret = if insetFunction ret = none then s.putOnAir ret else s := by
  obtain ⟨h0, h9⟩ := h
  unfold fsmStateMax at h9
  interval_cases ret <;> rfl

theorem mainFunction_bound {vmap : List VideoMap} (h : AllBound vmap) (hne : mainFunction ret ≠ videoFunctionVga) :
    mainFunction ret ∈ vmap.map VideoMap.function := by
  refine h _ ?_
  unfold mainFunction at hne ⊢
  split_ifs at hne ⊢ <;> simp at hne ⊢

theorem insetFunction_bound {vmap : List VideoMap} {f : Int} (h : AllBound vmap) (hf : insetFunction ret = some f) :
    f ∈ vmap.map VideoMap.function := by
  refine h _ ?_
  unfold insetFunction at hf
  split_ifs at hf <;> cases hf <;> simp

theorem captureOf_capture (h : AllBound s.vmap) :
    captureOf s.vmap (mainFunction ret) = some (s.capture (mainFunction ret)) := by
  unfold capture
  split
  · next e => rw [captureOf, if_pos e]
  · next hne => exact captureOf_bound (mainFunction_bound h hne) hne

/-- The current state is on air after it was put there. -/
theorem onAir_putOnAir (h : AllBound s.vmap) (hstate : s.fsm.currentState = ret) : OnAir (s.putOnAir ret) := by
  subst hstate
  unfold putOnAir
  cases hinset : insetFunction s.fsm.currentState with
  | none =>
    refine ⟨⟨s.capture (mainFunction s.fsm.currentState), ?_, ?_⟩, ?_⟩
    · exact (captureOf_congr channels_resetPip).trans (captureOf_capture h)
    · simp [full, hinset]
    · simp only [full, hinset]
      exact pipOf_resetPip
  | some f =>
    refine ⟨⟨s.capture (mainFunction s.fsm.currentState), ?_, ?_⟩, ?_⟩
    · exact (captureOf_congr channels_setPip).trans (captureOf_capture h)
    · simp [inset, hinset]
    · simp only [inset, hinset]
      exact pipOf_setPip (insetFunction_bound h hinset)

/-! ### Runs -/

theorem channels_full {c : Int} : channels (s.full c).vmap = channels s.vmap := channels_resetPip

theorem channels_inset {c f : Int} : channels (s.inset c f).vmap = channels s.vmap := channels_setPip

theorem channels_startPicture : channels (s.startPicture ret).vmap = channels s.vmap := by
  unfold startPicture
  split_ifs <;> first | exact channels_full | rfl

theorem channels_enterPicture : channels (s.enterPicture ret).vmap = channels s.vmap := by
  unfold enterPicture
  split_ifs <;> first | exact channels_full | exact channels_inset | rfl

theorem channels_manualPicture {value : String} : channels (s.manualPicture value).vmap = channels s.vmap := by
  unfold manualPicture
  split_ifs <;> first | exact channels_full | exact channels_inset | rfl

theorem channels_step (s : Tracking) (a : TrackingAction) : channels (s.step a).vmap = channels s.vmap := by
  cases a with
  | start => exact channels_startPicture
  | stop => exact channels_resetPip
  | switchVideo value => exact channels_manualPicture
  | setRecordMode value => rfl
  | eventVid accOfLost needHiden isMultipleTeacher =>
    simp only [step]
    split <;> rfl
  | eventAux studentInStanding =>
    simp only [step, onAux]
    split_ifs <;> rfl
  | eventVga changed =>
    simp only [step, onVga]
    split_ifs <;> rfl
  | pass interval =>
    simp only [step]
    split
    · exact channels_enterPicture
    · rfl

theorem channels_run (s : Tracking) (as : List TrackingAction) : channels (s.run as).vmap = channels s.vmap :=
  run_invariant (I := fun t => channels t.vmap = channels s.vmap) (fun t a h => (channels_step t a).trans h) rfl as

theorem onAir_pass {interval : Int} (h : s.Sound) (hbound : AllBound s.vmap) (hupd : s.Updates interval)
    (hret : (fsmStateUpdate s.truthTable s.fsm).1 ≠ fsmNotransition) : OnAir (s.step (.pass interval)) := by
  rcases s.fsm.scan_cases (List.range condMax) s.truthTable with hscan | ⟨i, hi, hscan⟩
  · exact absurd (congrArg Prod.fst hscan) hret
  · rw [Fsm.goto, if_neg hi] at hscan
    have hrange := h.inRange.scan (List.range condMax) s.truthTable
    rw [hscan] at hrange
    simp only [step, if_pos hupd, fsmStateUpdate, hscan]
    rw [enterPicture_eq hrange.current]
    exact onAir_putOnAir hbound rfl

theorem onAir_start (h : s.Sound) (hbound : AllBound s.vmap) (hinset : insetFunction s.fsm.initialState = none) :
    OnAir (s.step .start) := by
  simp only [step]
  rw [startPicture_eq h.inRange.initial, if_pos hinset]
  exact onAir_putOnAir hbound rfl

/-- `Start` sends nothing for an initial state with an inset. -/
theorem sent_start (h : s.fsm.InRange) (hinset : insetFunction s.fsm.initialState ≠ none) : (s.step .start).sent = s.sent := by
  simp only [step]
  rw [startPicture_eq h.initial, if_neg hinset]

theorem insetFunction_eq_none : insetFunction ret = none ↔
    ret ∉ [fsmVgaPipTeacherCloseup, fsmTeacherCloseupPipStudentCloseup, fsmBlackboardPipStudentCloseup] := by
  unfold insetFunction
  split_ifs <;> simp_all

/-- A manual switch. -/
def Manual : TrackingAction → Prop
  | .switchVideo _ => True
  | _ => False

/-- The action enters a state: `Start`, or an update of the machine that gives a transition. -/
def Enters (s : Tracking) : TrackingAction → Prop
  | .start => True
  | .pass interval => s.Updates interval ∧ (fsmStateUpdate s.truthTable s.fsm).1 ≠ fsmNotransition
  | _ => False

/-- The picture follows the state in every run exactly when the initial state has no inset. -/
theorem onAir_iff {file : PolicyFile} (h : switchPolicyLoad file fsmInit = some (ret, fsm)) (isAutoInstuct vgaDuration : Int)
    {vmap : List VideoMap} (hbound : AllBound vmap) :
    (∀ as : List TrackingAction, (∀ a ∈ as, ¬ Manual a) → ∀ a,
        Enters ((init fsm isAutoInstuct vgaDuration vmap).run as) a →
          OnAir (((init fsm isAutoInstuct vgaDuration vmap).run as).step a)) ↔
      fsm.initialState ∉ [fsmVgaPipTeacherCloseup, fsmTeacherCloseupPipStudentCloseup, fsmBlackboardPipStudentCloseup] := by
  have hsound := init_sound (switchPolicyLoad_inRange h) isAutoInstuct vgaDuration vmap
  rw [← insetFunction_eq_none]
  constructor
  · intro hall
    by_contra hinset
    obtain ⟨c, -, hsent⟩ := (hall [] (List.forall_mem_nil _) .start trivial).sent
    rw [sent_start (hsound.run []).inRange hinset] at hsent
    cases hsent
  · intro hinset as _ a ha
    have hb : AllBound ((init fsm isAutoInstuct vgaDuration vmap).run as).vmap := hbound.of_channels (channels_run _ as)
    cases a with
    | start =>
      refine onAir_start (hsound.run as) hb ?_
      rw [(run_policy _ as).2]
      exact hinset
    | pass interval => exact onAir_pass (hsound.run as) hb ha.1 ha.2
    | _ => exact ha.elim

/-- With the teacher panorama as initial state `Start` puts it on air. -/
theorem onAir_iff_teacherFull : OnAir (((init (sampleFsm "TeacherFull") 2 10 vmapTableInit).run []).step .start) := by
  have hbound : AllBound vmapTableInit := by
    unfold AllBound
    decide
  exact (onAir_iff (switchPolicyLoad_sample "TeacherFull") 2 10 hbound).mpr (by decide +kernel) [] (List.forall_mem_nil _)
    .start trivial

/-- With an inset in the initial state `Start` sends nothing and leaves the flags alone. -/
theorem start_inset_notOnAir : switchPolicyLoad (samplePolicy "VGAWithTeacherSpecial") fsmInit =
      some (0, sampleFsm "VGAWithTeacherSpecial") ∧ AllBound vmapTableInit ∧
    ¬ ∀ as : List TrackingAction, (∀ a ∈ as, ¬ Manual a) → ∀ a,
      Enters ((init (sampleFsm "VGAWithTeacherSpecial") 2 10 vmapTableInit).run as) a →
        OnAir (((init (sampleFsm "VGAWithTeacherSpecial") 2 10 vmapTableInit).run as).step a) := by
  refine ⟨switchPolicyLoad_sample _, by unfold AllBound; decide, fun hall => ?_⟩
  obtain ⟨c, -, hsent⟩ := (hall [] (List.forall_mem_nil _) .start trivial).sent
  have hsound := init_sound (switchPolicyLoad_inRange (switchPolicyLoad_sample "VGAWithTeacherSpecial")) 2 10 vmapTableInit
  rw [sent_start (hsound.run []).inRange (by decide +kernel)] at hsent
  cases hsent

end Tracking

end

end Recbcsrv
