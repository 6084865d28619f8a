import Mathlib.Algebra.Group.Nat.Defs
import Mathlib.Algebra.Ring.Int.Defs
import Recbcsrv.Switch.Policy

/-! The switching part of `thread_SwitchTracking`: control messages and events that change the conditions,
    the state machine that looks at them once in each pass of the loop, and the messages and flags by which
    a state is put on air. What the thread computes for tracking is arbitrary here. -/

namespace Recbcsrv

/-! ### The video map -/

/-- `VIDEO_FUNCTION_*`. -/
def videoFunctionVga : Int := 0
def videoFunctionTeacherCloseup : Int := 1
def videoFunctionStudentCloseup : Int := 2
def videoFunctionTeacherPanorama : Int := 3
def videoFunctionStudentPanorama : Int := 4
def videoFunctionBoardCloseup : Int := 5

/-- The fields of a `t_video_map` that the thread uses. -/
structure VideoMap where
  function : Int
  pip : Int
  capId : Int
  deriving DecidableEq, Repr

def vmapTableInit : List VideoMap := ((List.range 6).map fun i => ⟨i + 1, 0, i + 1⟩).modify 5 fun v => { v with capId := 0xB }

/-- `vmap_table_get_capid_by_function`; `cap_id&0xf` is the remainder. -/
def vmapTableGetCapidByFunction (vmap : List VideoMap) (function : Int) : Int :=
  match vmap.find? fun v => v.function = function with
  | some v => v.capId % 16
  | none => -1

/-- `vmap_table_get_index_by_function`; -1 is no result. -/
def vmapTableGetIndexByFunction (vmap : List VideoMap) (function : Int) : Option Nat :=
  vmap.findIdx? fun v => v.function = function

def vmapTableResetPip (vmap : List VideoMap) : List VideoMap :=
  vmap.map fun v => if v.pip = 0 then v else { v with pip := 0 }

def vmapTableSetPipByFunction (vmap : List VideoMap) (function : Int) : List VideoMap :=
  let vmap := vmapTableResetPip vmap
  match vmapTableGetIndexByFunction vmap function with
  | some i => vmap.modify i fun v => { v with pip := 1 }
  | none => vmap

/-- The attributes of a `COMMAND_SWITCHCTRL` message. -/
structure SwitchCtrl where
  captureId : Int
  pip : Int
  deriving DecidableEq, Repr

/-! ### The state machine -/

/-- The index that `fsm->current_state` gives as an unsigned character. -/
def stateIndex (state : Int) : Nat := (state % 256).toNat

/-- The loop of `fsm_state_update`, with the conditions in the order `order`. -/
def Fsm.scan (order : List Nat) (truthTable : TruthTable) (fsm : Fsm) : Int × Fsm :=
  match order.find? fun i => fsm.transitionTable.item (stateIndex fsm.currentState) i ≠ fsmNotransition &&
      truthTable.conditionTest i with
  | some i =>
    let ret := fsm.transitionTable.item (stateIndex fsm.currentState) i
    (ret, { fsm with currentState := ret })
  | none => (fsmNotransition, fsm)

def fsmStateUpdate (truthTable : TruthTable) (fsm : Fsm) : Int × Fsm := fsm.scan (List.range condMax) truthTable

/-! ### The thread -/

/-- The variables of the thread, the configuration that it uses, and the messages it has sent. -/
structure Tracking where
  truthTable : TruthTable
  fsm : Fsm
  accStudentLost : Nat
  accOfUnchange : Nat
  isAutoInstuct : Int
  vgaDuration : Int
  vmap : List VideoMap
  sent : List SwitchCtrl

/-- What happens: a control message, an event with what the tracking code made of it, or the end of a pass of the
    loop, `interval` milliseconds after the last switch. -/
inductive TrackingAction where
  | start
  | stop
  | switchVideo (value : String)
  | setRecordMode (value : String)
  | eventVid (accOfLost : Nat) (needHiden isMultipleTeacher : Bool)
  | eventAux (studentInStanding : Int)
  | eventVga (changed : Int)
  | pass (interval : Int)

/-- `truth_table_element_condition_set` as a statement. -/
def TruthTable.setCond (t : TruthTable) (i : Nat) : TruthTable := (t.elementConditionSet i).2

/-- `truth_table_element_condition_reset` as a statement. -/
def TruthTable.resetCond (t : TruthTable) (i : Nat) : TruthTable := (t.elementConditionReset i).2

namespace TruthTable

/-- The conditions at the start of the thread and of a recording. -/
def restart (t : TruthTable) : TruthTable :=
  t.setCond condVgaUnchg |>.resetCond condVgaChg
    |>.setCond condTeacherDetectedNone |>.resetCond condTeacherDetectedOne |>.resetCond condTeacherDetectedMultiple
    |>.setCond condStudentStandNone |>.resetCond condStudentStandOne |>.resetCond condStudentStandMultiple
    |>.setCond condBoardNotwrite |>.resetCond condBoardWrite

def teacherNone (t : TruthTable) : TruthTable :=
  t.setCond condTeacherDetectedNone |>.resetCond condTeacherDetectedOne |>.resetCond condTeacherDetectedMultiple

def teacherMultiple (t : TruthTable) : TruthTable :=
  t.setCond condTeacherDetectedMultiple |>.resetCond condTeacherDetectedOne |>.resetCond condTeacherDetectedNone

def teacherOne (t : TruthTable) : TruthTable :=
  t.resetCond condTeacherDetectedMultiple |>.setCond condTeacherDetectedOne |>.resetCond condTeacherDetectedNone

def studentNone (t : TruthTable) : TruthTable :=
  t.setCond condStudentStandNone |>.resetCond condStudentStandOne |>.resetCond condStudentStandMultiple

def studentOne (t : TruthTable) : TruthTable :=
  t.resetCond condStudentStandNone |>.setCond condStudentStandOne |>.resetCond condStudentStandMultiple

def studentMultiple (t : TruthTable) : TruthTable :=
  t.resetCond condStudentStandNone |>.resetCond condStudentStandOne |>.setCond condStudentStandMultiple

def vgaChg (t : TruthTable) : TruthTable := t.setCond condVgaChg |>.resetCond condVgaUnchg

def vgaUnchg (t : TruthTable) : TruthTable := t.setCond condVgaUnchg |>.resetCond condVgaChg

end TruthTable

namespace Tracking

/-- The thread before its loop. -/
def init (fsm : Fsm) (isAutoInstuct vgaDuration : Int) (vmap : List VideoMap) : Tracking where
  truthTable := conditionTable.restart
  fsm := fsm
  accStudentLost := 0
  accOfUnchange := 0
  isAutoInstuct := isAutoInstuct
  vgaDuration := vgaDuration
  vmap := vmap
  sent := []

/-- A switch to one picture: the message with `PIP` 0, and no channel as inset. -/
def full (s : Tracking) (captureId : Int) : Tracking :=
  { s with sent := s.sent ++ [⟨captureId, 0⟩], vmap := vmapTableResetPip s.vmap }

/-- A switch to a picture with an inset: the message with `PIP` 1, and the channel of `inset` as inset. -/
def inset (s : Tracking) (captureId inset : Int) : Tracking :=
  { s with sent := s.sent ++ [⟨captureId, 1⟩], vmap := vmapTableSetPipByFunction s.vmap inset }

def capid (s : Tracking) (function : Int) : Int := vmapTableGetCapidByFunction s.vmap function

/-- What `Start` does for the state `ret`. -/
def startPicture (s : Tracking) (ret : Int) : Tracking :=
  if ret = fsmVga then s.full videoFunctionVga
  else if ret = fsmTeacherCloseup then s.full (s.capid videoFunctionTeacherCloseup)
  else if ret = fsmStudentCloseup then s.full (s.capid videoFunctionStudentCloseup)
  else if ret = fsmTeacherPanorama then s.full (s.capid videoFunctionTeacherPanorama)
  else if ret = fsmStudentPanorama then s.full (s.capid videoFunctionStudentPanorama)
  else if ret = fsmBoardCloseup then s.full (s.capid videoFunctionBoardCloseup)
  else s

/-- What a transition to the state `ret` does. -/
def enterPicture (s : Tracking) (ret : Int) : Tracking :=
  if ret = fsmVga then s.full videoFunctionVga
  else if ret = fsmTeacherCloseup then s.full (s.capid videoFunctionTeacherCloseup)
  else if ret = fsmStudentCloseup then s.full (s.capid videoFunctionStudentCloseup)
  else if ret = fsmTeacherPanorama then s.full (s.capid videoFunctionTeacherPanorama)
  else if ret = fsmStudentPanorama then s.full (s.capid videoFunctionStudentPanorama)
  else if ret = fsmBoardCloseup then s.full (s.capid videoFunctionBoardCloseup)
  else if ret = fsmVgaPipTeacherCloseup then s.inset videoFunctionVga videoFunctionTeacherCloseup
  else if ret = fsmTeacherCloseupPipStudentCloseup then
    s.inset (s.capid videoFunctionTeacherCloseup) videoFunctionStudentCloseup
  else if ret = fsmBlackboardPipStudentCloseup then
    s.inset (s.capid videoFunctionBoardCloseup) videoFunctionStudentCloseup
  else s

/-- What `SwitchVideo` does for its value. -/
def manualPicture (s : Tracking) (value : String) : Tracking :=
  if value = "VGA" then s.full videoFunctionVga
  else if value = "TeacherSpecial" then s.full (s.capid videoFunctionTeacherCloseup)
  else if value = "StudentSpecial" then s.full (s.capid videoFunctionStudentCloseup)
  else if value = "TeacherFull" then s.full (s.capid videoFunctionTeacherPanorama)
  else if value = "StudentFull" then s.full (s.capid videoFunctionStudentPanorama)
  else if value = "Blackboard" then s.full (s.capid videoFunctionBoardCloseup)
  else if value = "VGAWithTeacherSpecial" then s.inset videoFunctionVga videoFunctionTeacherCloseup
  else if value = "TeacherSpecialWithStudentSpecial" then
    s.inset (s.capid videoFunctionTeacherCloseup) videoFunctionStudentCloseup
  else s

/-- `SetRecordMode`. -/
def recordMode (mode : Int) (value : String) : Int :=
  if value = "Manual" then 0 else if value = "HalfAuto" then 1 else if value = "Auto" then 2 else mode

/-- The update of the conditions for a `COMMAND_EVENT_VID`. -/
def onVid (t : TruthTable) (accOfLost : Nat) (needHiden isMultipleTeacher : Bool) : TruthTable :=
  if accOfLost = 0 then
    if !needHiden then if isMultipleTeacher then t.teacherMultiple else t.teacherOne
    else t.teacherNone
  else if accOfLost ≥ 3 then t.teacherNone
  else t

/-- The update of the conditions for a `COMMAND_EVENT_AUX`. -/
def onAux (s : Tracking) (studentInStanding : Int) : Tracking :=
  if studentInStanding = 0 then
    let acc := (s.accStudentLost + 1) % 2 ^ 32
    { s with accStudentLost := acc, truthTable := if acc = 6 then s.truthTable.studentNone else s.truthTable }
  else if studentInStanding = 1 then { s with accStudentLost := 0, truthTable := s.truthTable.studentOne }
  else { s with accStudentLost := 0, truthTable := s.truthTable.studentMultiple }

/-- The update of the conditions for a `COMMAND_EVENT_VGA`. -/
def onVga (s : Tracking) (changed : Int) : Tracking :=
  if changed = 1 then { s with accOfUnchange := 0, truthTable := s.truthTable.vgaChg }
  else if changed = 2 then
    { s with accOfUnchange := (s.vgaDuration % 2 ^ 32).toNat, truthTable := s.truthTable.vgaUnchg }
  else
    let acc := (s.accOfUnchange + 1) % 2 ^ 32
    { s with
      accOfUnchange := acc
      truthTable := if acc = (s.vgaDuration % 2 ^ 32).toNat then s.truthTable.vgaUnchg else s.truthTable }

/-- The machine is updated in this pass. -/
def Updates (s : Tracking) (interval : Int) : Prop := s.isAutoInstuct = 2 ∧ 3000 ≤ interval

instance (s : Tracking) (interval : Int) : Decidable (s.Updates interval) := inferInstanceAs (Decidable (_ ∧ _))

/-- One action. Events are handled only when `IsAutoInstuct` is not 0. -/
def step (s : Tracking) : TrackingAction → Tracking
  | .start =>
    let s := { s with
      accStudentLost := 0
      truthTable := s.truthTable.restart
      fsm := { s.fsm with currentState := s.fsm.initialState } }
    s.startPicture s.fsm.currentState
  | .stop => { s with vmap := vmapTableResetPip s.vmap }
  | .switchVideo value => s.manualPicture value
  | .setRecordMode value => { s with isAutoInstuct := recordMode s.isAutoInstuct value }
  | .eventVid accOfLost needHiden isMultipleTeacher =>
    if s.isAutoInstuct = 0 then s
    else { s with truthTable := onVid s.truthTable accOfLost needHiden isMultipleTeacher }
  | .eventAux studentInStanding => if s.isAutoInstuct = 0 then s else s.onAux studentInStanding
  | .eventVga changed => if s.isAutoInstuct = 0 then s else s.onVga changed
  | .pass interval =>
    if s.Updates interval then
      let (ret, fsm) := fsmStateUpdate s.truthTable s.fsm
      { s with fsm }.enterPicture ret
    else s

/-- A run. -/
def run (s : Tracking) (as : List TrackingAction) : Tracking := as.foldl step s

/-- What every action keeps holds after every run. -/
theorem run_invariant {I : Tracking → Prop} {s : Tracking} (hstep : ∀ s a, I s → I (s.step a)) (hs : I s)
    (as : List TrackingAction) : I (s.run as) := by
  induction as generalizing s with
  | nil => exact hs
  | cons a as ih => exact ih (hstep s a hs)

end Tracking

end Recbcsrv
