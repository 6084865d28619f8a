import Recbcsrv.Message.Indices

/-! The commands to a camera holder and its responses: the flags of the commands that wait for a response, and what each
    response does to them. The flags are cleared with `!`, which leaves none of them. -/

namespace Recbcsrv
open Exec

/-! ### The camera holder -/

/-- The kinds of commands, as the flags of `recbc_srv.h` tell them apart. -/
inductive CamKind where
  | completion
  | ptinq
  | zoominq
  deriving DecidableEq, Repr

/-- `CH_COMPLETION_PENDING`, `CH_PTINQ_PENDING` and `CH_ZOOMINQ_PENDING`. -/
def CamKind.flag : CamKind → BitVec 32
  | .completion => 1
  | .ptinq => 1 <<< 1
  | .zoominq => 1 <<< 2

def chError : BitVec 32 := 1 <<< 31

/-- The operator `!` of C. -/
def logicalNot (x : BitVec 32) : BitVec 32 := if x = 0 then 1 else 0

/-- The fields of `t_camera_holder` that the commands and their responses use; `rxBufP` is the offset of `Rx_buf_p`. -/
structure CamholderCtx extends CameraHolder where
  rxBuf : Vector UInt8 16
  rxBufP : Nat
  rspLen : Nat
  commandPending : BitVec 32
  sec : Int
  usec : Int

/-- A `char` as an int, where it has a sign and where it has none. -/
def charInt (signed : Bool) (b : UInt8) : BitVec 32 := if signed then b.toBitVec.signExtend 32 else b.toBitVec.setWidth 32

def byte2int (signed : Bool) (buf : List UInt8) : Int :=
  let result := (buf.take 4).foldl (fun (result : BitVec 32) b => (result <<< 4) ||| charInt signed b) 0
  (if result &&& 0x8000 ≠ 0 then result ||| 0xffff0000 else result).toInt

/-- The commands, with their arguments. -/
inductive CamCommand where
  | getZoom
  | getPos
  | absPos (pan tilt : Int)
  | zoomDirect (zoom : Int)
  | recall (num : Nat)
  | memSet (num : Nat)

def CamCommand.kind : CamCommand → CamKind
  | .getZoom => .zoominq
  | .getPos => .ptinq
  | .absPos .. | .zoomDirect _ | .recall _ | .memSet _ => .completion

namespace CamholderCtx

/-- The positions that a command writes. -/
def aim (c : CamholderCtx) : CamCommand → Option CameraHolder
  | .getZoom | .getPos => some c.toCameraHolder
  | .absPos pan tilt => some { c.toCameraHolder with target := { c.target with pan := pan, tilt := tilt } }
  | .zoomDirect zoom => some { c.toCameraHolder with target := { c.target with zoom := zoom } }
  | .recall num => c.toCameraHolder.recall num
  | .memSet num => c.toCameraHolder.memSet num

/-- `GetZoom`, `GetPos`, `AbsPos`, `ZoomDirect`, `Recall` and `MemSet`, called at the time given. -/
def command (c : CamholderCtx) (k : CamCommand) (sec usec : Int) : Option CamholderCtx :=
  (c.aim k).map fun h =>
    { c with toCameraHolder := h, commandPending := c.commandPending ||| k.kind.flag, sec := sec, usec := usec }

def updateCamholderCtx (c : CamholderCtx) (signed : Bool) : CamholderCtx :=
  let c := if c.rspLen = 11 ∧ c.rxBuf[0] = 0x90 ∧ c.rxBuf[1] = 0x50 then
      { c with
        pos := { c.pos with
          pan := byte2int signed (c.rxBuf.toList.drop 2)
          tilt := byte2int signed (c.rxBuf.toList.drop 6) }
        commandPending := c.commandPending &&& logicalNot CamKind.ptinq.flag }
    else c
  let c := if c.rspLen = 7 ∧ c.rxBuf[0] = 0x90 ∧ c.rxBuf[1] = 0x50 then
      { c with
        pos := { c.pos with zoom := byte2int signed (c.rxBuf.toList.drop 2) }
        commandPending := c.commandPending &&& logicalNot CamKind.zoominq.flag }
    else c
  let c := if c.rspLen = 3 ∧ c.rxBuf[0] = 0x90 ∧ c.rxBuf[1] = 0x51 then
      { c with pos := c.target, commandPending := c.commandPending &&& logicalNot CamKind.completion.flag }
    else c
  if c.rspLen = 4 ∧ c.rxBuf[0] = 0x90 ∧ (c.rxBuf[1] = 0x60 ∨ c.rxBuf[1] = 0x61) then { c with commandPending := chError }
  else c

/-- A byte of the UART is put in `Rx_buf`; there is no result when the buffer is full. -/
def store (c : CamholderCtx) (b : UInt8) : Option CamholderCtx :=
  if h : c.rxBufP < 16 then some { c with rxBuf := c.rxBuf.set c.rxBufP b, rxBufP := c.rxBufP + 1 } else none

/-- The response that ends with the byte, as `update_camholder_ctx` finds it. -/
def completed (c : CamholderCtx) (b : UInt8) : Option CamholderCtx :=
  if b = 0xff then (c.store b).map fun c => { c with rspLen := c.rxBufP, rxBufP := 0 } else none

/-- `get_camholder_pending_state`. -/
def getPendingState (c : CamholderCtx) : Nat := if c.commandPending ≠ 0 then 1 else 0

/-- `get_camholder_err`. -/
def getErr (c : CamholderCtx) : Nat := if c.commandPending &&& chError ≠ 0 then 1 else 0

/-- `camholder_reset_pending_state`. -/
def resetPendingState (c : CamholderCtx) : CamholderCtx := { c with commandPending := 0 }

/-- `camholder_command_timeout`. -/
def commandTimeout (c : CamholderCtx) (timeout sec usec : Int) : Nat :=
  let delt := (sec - c.sec) + (usec - c.usec).tdiv 1000000
  if delt > timeout then 1 else 0

/-- The error and timeout handling of a pass of `thread_SwitchTracking`. -/
def handle (c : CamholderCtx) (sec usec : Int) : CamholderCtx :=
  if c.getPendingState = 1 then
    let c := if c.getErr = 1 then c.resetPendingState else c
    if c.commandTimeout 10 sec usec = 1 then c.resetPendingState else c
  else c

end CamholderCtx

/-! ### What a response is for -/

/-- What a response tells about the commands. -/
inductive CamResponse where
  | ack (k : CamKind)
  | error
  | other
  deriving DecidableEq, Repr

namespace CamholderCtx

/-- The response in `Rx_buf`. -/
def response (c : CamholderCtx) : CamResponse :=
  if c.rspLen = 11 ∧ c.rxBuf[0] = 0x90 ∧ c.rxBuf[1] = 0x50 then .ack .ptinq
  else if c.rspLen = 7 ∧ c.rxBuf[0] = 0x90 ∧ c.rxBuf[1] = 0x50 then .ack .zoominq
  else if c.rspLen = 3 ∧ c.rxBuf[0] = 0x90 ∧ c.rxBuf[1] = 0x51 then .ack .completion
  else if c.rspLen = 4 ∧ c.rxBuf[0] = 0x90 ∧ (c.rxBuf[1] = 0x60 ∨ c.rxBuf[1] = 0x61) then .error
  else .other

/-- From `c` to `d` the response in `c` clears the flag of its own command, leaves exactly the error, or changes no flag. -/
def Acknowledges (c d : CamholderCtx) : Prop :=
  match c.response with
  | .ack k => d.commandPending = c.commandPending &&& ~~~k.flag
  | .error => d.commandPending = chError
  | .other => d.commandPending = c.commandPending

/-- A response that acknowledges a command finds no flag but that of the command. -/
def OnlyPending (c : CamholderCtx) : Prop := ∀ k, c.response = .ack k → c.commandPending &&& ~~~k.flag = 0

end CamholderCtx

/-- A camera holder, with the kinds of the commands that were neither answered nor failed nor timed out. -/
structure CamSession where
  ctx : CamholderCtx
  outstanding : List CamKind

inductive CamAct where
  | command (k : CamCommand) (sec usec : Int)
  | byte (b : UInt8)
  | pass (sec usec : Int)

/-- The commands that are outstanding after a response: an answer is for one command of its kind, an error for all. -/
def CamResponse.settle (outstanding : List CamKind) : CamResponse → List CamKind
  | .ack k => outstanding.erase k
  | .error => []
  | .other => outstanding

namespace CamSession

def step (signed : Bool) (s : CamSession) : CamAct → Option CamSession
  | .command k sec usec => (s.ctx.command k sec usec).map fun c => ⟨c, k.kind :: s.outstanding⟩
  | .byte b =>
    if b = 0xff then
      (s.ctx.completed b).map fun c => ⟨c.updateCamholderCtx signed, c.response.settle s.outstanding⟩
    else (s.ctx.store b).map fun c => ⟨c, s.outstanding⟩
  | .pass sec usec =>
    some ⟨s.ctx.handle sec usec,
      if s.ctx.getPendingState = 1 ∧ s.ctx.commandTimeout 10 sec usec = 1 then [] else s.outstanding⟩

/-- The pending state is 1 as long as a command is outstanding. -/
def Waiting (s : CamSession) : Prop := s.outstanding ≠ [] → s.ctx.getPendingState = 1

/-- A step that leaves the pending state right, and whose response acknowledges only its own command. -/
def Obeys (s : CamSession) (a : CamAct) (t : CamSession) : Prop :=
  t.Waiting ∧ ∀ b c, a = .byte b → s.ctx.completed b = some c → c.Acknowledges t.ctx

/-- An answer comes when no other flag is set and no other command outstanding, and an error is handled, unless the time is
    over, when no command was sent after it. -/
def Alone (s : CamSession) : CamAct → Prop
  | .command .. => True
  | .byte b => ∀ c k, s.ctx.completed b = some c → c.response = .ack k →
      c.commandPending &&& ~~~k.flag = 0 ∧ s.outstanding.erase k = []
  | .pass sec usec => s.ctx.getErr = 1 → s.ctx.commandTimeout 10 sec usec = 0 → s.outstanding = []

end CamSession

section
variable {signed : Bool} {c d : CamholderCtx} {s t : CamSession} {a : CamAct} {b : UInt8}

/-! ### The flags after a response -/

@[simp] theorem logicalNot_flag (k : CamKind) : logicalNot k.flag = 0 := by cases k <;> decide

@[simp] theorem getPendingState_eq_one : c.getPendingState = 1 ↔ c.commandPending ≠ 0 := by
  unfold CamholderCtx.getPendingState
  split <;> simp_all

@[simp] theorem getErr_eq_one : c.getErr = 1 ↔ c.commandPending &&& chError ≠ 0 := by
  unfold CamholderCtx.getErr
  split <;> simp_all

/-- What `update_camholder_ctx` makes of each kind of response. -/
theorem updateCamholderCtx_eq (signed : Bool) (c : CamholderCtx) : c.updateCamholderCtx signed =
    match c.response with
    | .ack .ptinq =>
      { c with
        pos := { c.pos with
          pan := byte2int signed (c.rxBuf.toList.drop 2)
          tilt := byte2int signed (c.rxBuf.toList.drop 6) }
        commandPending := 0 }
    | .ack .zoominq =>
      { c with pos := { c.pos with zoom := byte2int signed (c.rxBuf.toList.drop 2) }, commandPending := 0 }
    | .ack .completion => { c with pos := c.target, commandPending := 0 }
    | .error => { c with commandPending := chError }
    | .other => c := by
  unfold CamholderCtx.updateCamholderCtx CamholderCtx.response
  by_cases hpt : c.rspLen = 11 ∧ c.rxBuf[0] = 0x90 ∧ c.rxBuf[1] = 0x50
  · simp [hpt]
  by_cases hzoom : c.rspLen = 7 ∧ c.rxBuf[0] = 0x90 ∧ c.rxBuf[1] = 0x50
  · simp [hzoom]
  by_cases hcompletion : c.rspLen = 3 ∧ c.rxBuf[0] = 0x90 ∧ c.rxBuf[1] = 0x51
  · simp [hcompletion]
  · simp only [if_neg hpt, if_neg hzoom, if_neg hcompletion]
    split <;> rfl

theorem updateCamholderCtx_pending (signed : Bool) (c : CamholderCtx) :
    (c.updateCamholderCtx signed).commandPending =
      match c.response with
      | .ack _ => 0
      | .error => chError
      | .other => c.commandPending := by
  rw [updateCamholderCtx_eq]
  cases c.response with
  | ack k => cases k <;> rfl
  | error => rfl
  | other => rfl

/-- The law of the flags holds exactly for the responses that find no flag but their own. -/
theorem acknowledges_iff : c.Acknowledges (c.updateCamholderCtx signed) ↔ c.OnlyPending := by
  unfold CamholderCtx.Acknowledges CamholderCtx.OnlyPending
  rw [updateCamholderCtx_pending]
  cases c.response with
  | ack k =>
    constructor
    · rintro h _ ⟨⟩
      exact h.symm
    · intro h
      exact (h k rfl).symm
  | error => simp
  | other => simp

/-! ### One step -/

theorem or_flag_ne_zero (x : BitVec 32) (k : CamKind) : x ||| k.flag ≠ 0 := by
  intro h
  obtain ⟨-, h⟩ := BitVec.or_eq_zero_iff.mp h
  cases k <;> exact absurd h (by decide)

theorem store_pending (h : c.store b = some d) : d.commandPending = c.commandPending := by
  unfold CamholderCtx.store at h
  split at h
  · cases h
    rfl
  · cases h

theorem completed_pending (h : c.completed b = some d) : d.commandPending = c.commandPending := by
  unfold CamholderCtx.completed at h
  split at h
  · obtain ⟨e, he, rfl⟩ := Option.map_eq_some_iff.mp h
    have := store_pending he
    exact this
  · cases h

theorem handle_pending (c : CamholderCtx) (sec usec : Int) : (c.handle sec usec).commandPending =
    if c.getErr = 1 ∨ c.commandTimeout 10 sec usec = 1 then 0 else c.commandPending := by
  unfold CamholderCtx.handle
  by_cases hp : c.commandPending = 0
  · rw [if_neg (by simp [hp]), hp, ite_self]
  rw [if_pos (getPendingState_eq_one.mpr hp)]
  by_cases he : c.getErr = 1
  · simp only [he, if_true, true_or]
    split <;> rfl
  · simp only [he, if_false, false_or]
    split <;> rfl

namespace CamSession

/-- The pending state is right after a response exactly when the response answers no command or the last one. -/
theorem waiting_response_iff (hs : s.Waiting) (hc : s.ctx.completed b = some c) :
    Waiting ⟨c.updateCamholderCtx signed, c.response.settle s.outstanding⟩ ↔
      ∀ k, c.response = .ack k → s.outstanding.erase k = [] := by
  unfold Waiting
  simp only [getPendingState_eq_one, updateCamholderCtx_pending]
  cases hr : c.response with
  | ack k =>
    simp only [CamResponse.settle, CamResponse.ack.injEq, forall_eq']
    exact ⟨fun h => not_not.mp fun ho => h ho rfl, fun h ho => absurd h ho⟩
  | error =>
    refine iff_of_true (fun ho => absurd rfl ho) fun k hk => ?_
    cases hk
  | other =>
    refine iff_of_true (fun ho => ?_) fun k hk => ?_
    · dsimp only
      rw [completed_pending hc]
      exact getPendingState_eq_one.mp (hs ho)
    · cases hk

theorem obeys_byte_iff (hs : s.Waiting) (hc : s.ctx.completed b = some c) :
    s.Obeys (.byte b) ⟨c.updateCamholderCtx signed, c.response.settle s.outstanding⟩ ↔ s.Alone (.byte b) := by
  unfold Obeys
  rw [waiting_response_iff hs hc]
  constructor
  · rintro ⟨hempty, hack⟩ c' k hc' hk
    obtain rfl : c = c' := Option.some.inj (hc.symm.trans hc')
    exact ⟨acknowledges_iff.mp (hack b c rfl hc) k hk, hempty k hk⟩
  · intro h
    refine ⟨fun k hk => (h c k hc hk).2, ?_⟩
    rintro _ c' ⟨⟩ hc'
    obtain rfl : c = c' := Option.some.inj (hc.symm.trans hc')
    exact acknowledges_iff.mpr fun k hk => (h c k hc hk).1

theorem commandTimeout_cases (c : CamholderCtx) (timeout sec usec : Int) :
    c.commandTimeout timeout sec usec = 0 ∨ c.commandTimeout timeout sec usec = 1 := by
  unfold CamholderCtx.commandTimeout
  dsimp only
  split
  · exact .inr rfl
  · exact .inl rfl

theorem obeys_pass_iff (hs : s.Waiting) (sec usec : Int) :
    s.Obeys (.pass sec usec) ⟨s.ctx.handle sec usec,
      if s.ctx.getPendingState = 1 ∧ s.ctx.commandTimeout 10 sec usec = 1 then [] else s.outstanding⟩ ↔
    s.Alone (.pass sec usec) := by
  have hquiet : ∀ b c, CamAct.pass sec usec = .byte b → s.ctx.completed b = some c → c.Acknowledges (s.ctx.handle sec usec) := by
    intro b c hb
    cases hb
  have hpending : (s.ctx.handle sec usec).getPendingState = 1 ↔
      (if s.ctx.getErr = 1 ∨ s.ctx.commandTimeout 10 sec usec = 1 then 0 else s.ctx.commandPending) ≠ 0 := by
    rw [getPendingState_eq_one, handle_pending]
  unfold Obeys Alone
  rw [and_iff_left hquiet]
  unfold Waiting
  dsimp only
  rw [hpending]
  rcases commandTimeout_cases s.ctx 10 sec usec with ht | ht
  · -- no timeout: an error that is handled leaves no flag for what was sent after it
    simp only [ht, zero_ne_one, and_false, or_false, if_false]
    by_cases he : s.ctx.getErr = 1
    · simp only [he, if_true]
      exact ⟨fun h _ _ => not_not.mp fun ho => h ho rfl, fun h ho => absurd (h trivial trivial) ho⟩
    · simp only [he, if_false]
      refine iff_of_true (fun ho => ?_) fun h => h.elim
      exact getPendingState_eq_one.mp (hs ho)
  · refine iff_of_true (fun ho => ?_) fun _ h => ?_
    · by_cases hp : s.ctx.getPendingState = 1
      · exact absurd (if_pos ⟨hp, ht⟩) ho
      · rw [if_neg fun h => hp h.1] at ho
        exact absurd (hs ho) hp
    · rw [ht] at h
      cases h

theorem obeys_iff (hs : s.Waiting) (h : s.step signed a = some t) : s.Obeys a t ↔ s.Alone a := by
  cases a with
  | command k sec usec =>
    obtain ⟨c, hc, rfl⟩ := Option.map_eq_some_iff.mp h
    obtain ⟨h, -, rfl⟩ := Option.map_eq_some_iff.mp hc
    refine iff_of_true ⟨fun _ => getPendingState_eq_one.mpr (or_flag_ne_zero _ k.kind), ?_⟩ trivial
    intro b c hb
    cases hb
  | byte b =>
    dsimp only [step] at h
    by_cases hb : b = 0xff
    · rw [if_pos hb] at h
      obtain ⟨c, hc, rfl⟩ := Option.map_eq_some_iff.mp h
      exact obeys_byte_iff hs hc
    · rw [if_neg hb] at h
      obtain ⟨c, hc, rfl⟩ := Option.map_eq_some_iff.mp h
      have hnone : s.ctx.completed b = none := if_neg hb
      refine iff_of_true ⟨fun ho => ?_, fun b' c' hb' hc' => ?_⟩ fun c' k hc' => ?_
      · rw [getPendingState_eq_one, store_pending hc]
        exact getPendingState_eq_one.mp (hs ho)
      · cases hb'
        rw [hnone] at hc'
        cases hc'
      · rw [hnone] at hc'
        cases hc'
  | pass sec usec =>
    cases h
    exact obeys_pass_iff hs sec usec

/-- A response clears the flag of its own command only, exactly when no other flag is set; and the pending state of a run
    stays 1 for the commands that are outstanding, and its responses obey the law, exactly when each step of it is alone. -/
theorem acknowledged_iff (signed : Bool) (c : CamholderCtx) (as : List CamAct) :
    (c.Acknowledges (c.updateCamholderCtx signed) ↔ c.OnlyPending) ∧
    (EveryStep (step signed) Obeys ⟨c, []⟩ as ↔ EveryStep (step signed) (fun s a _ => s.Alone a) ⟨c, []⟩ as) :=
  ⟨Recbcsrv.acknowledges_iff,
    everyStep_congr (fun _ _ _ _ _ h => h.1) (fun _ _ _ hs h => obeys_iff hs h) fun ho => absurd rfl ho⟩

/-- The camera is asked for its zoom position and sent to a position. The answer with the zoom position clears the flag of
    the movement as well. -/
theorem zoom_answer_clears_movement :
    let preset : Vector PresetPos 16 := .replicate 16 ⟨0, 0, 0⟩
    let idle : CamholderCtx := ⟨⟨⟨0, 0, 0⟩, ⟨0, 0, 0⟩, preset⟩, .replicate 16 0, 0, 0, 0, 0, 0⟩
    let answer : List UInt8 := [0x90, 0x50, 0, 1, 2, 3, 0xff]
    let asked := [CamAct.command .getZoom 1 0, .command (.absPos 100 20) 1 0]
    let answered : CamholderCtx :=
      { idle with rxBuf := #v[0x90, 0x50, 0, 1, 2, 3, 0xff, 0, 0, 0, 0, 0, 0, 0, 0, 0], rspLen := 7, commandPending := 5 }
    (exec (step false) ⟨idle, []⟩ (asked ++ answer.map .byte)).map (fun s => (s.outstanding, s.ctx.getPendingState)) =
      some ([.completion], 0) ∧
    ¬ answered.Acknowledges (answered.updateCamholderCtx false) := by
  refine ⟨by decide +kernel, fun h => ?_⟩
  have hleft := acknowledges_iff.mp h .zoominq (by decide +kernel)
  revert hleft
  decide +kernel

end CamSession

end

end Recbcsrv
