import Recbcsrv.Switch.Framing
import Recbcsrv.Switch.Pan

/-! The initialisation of the cameras. `thread_SwitchTracking` sends each of them a list of commands, the next one when the one
    before was answered, and stores the positions that it reads. A command that fails takes the status back, to be sent again. -/

namespace Recbcsrv
open Exec

/-! ### The blocks -/

/-- A block of the initialisation that sends a command: the status that it is for, and the preset that it saves first. -/
structure InitBlock where
  status : Nat
  save : Option (Fin 16)
  command : CamCommand

/-- The blocks that send the commands to a camera. -/
def CamRole.blocks : CamRole → List InitBlock
  | .teacher =>
    [⟨0, none, .recall 0⟩, ⟨1, none, .getZoom⟩, ⟨2, none, .getPos⟩,
      ⟨3, some 0, .recall 1⟩, ⟨4, none, .getPos⟩,
      ⟨5, some 1, .recall 2⟩, ⟨6, none, .getPos⟩,
      ⟨7, some 2, .recall 3⟩, ⟨8, none, .getPos⟩,
      ⟨9, some 3, .recall 4⟩, ⟨10, none, .getPos⟩,
      ⟨11, some 4, .recall 5⟩, ⟨12, none, .getPos⟩,
      ⟨13, some 5, .recall 6⟩, ⟨14, none, .getPos⟩,
      ⟨15, some 6, .recall 0⟩]
  | .student => [⟨0, none, .recall 0⟩, ⟨1, none, .getZoom⟩, ⟨2, none, .getPos⟩, ⟨3, some 0, .recall 0⟩]

/-- The status of an initialised camera. -/
def CamRole.done : CamRole → Nat
  | .teacher => 17
  | .student => 5

/-- The limits that the last block of the teacher takes from its presets. -/
def PanLimits.ofPresets (l : PanLimits) (preset : Vector PresetPos 16) : PanLimits :=
  let l := if (preset.get 1).pan < (preset.get 2).pan then { l with left := (preset.get 1).pan, right := (preset.get 2).pan }
    else { l with right := (preset.get 1).pan, left := (preset.get 2).pan }
  if (preset.get 5).pan < (preset.get 6).pan then { l with excludeLeft := (preset.get 5).pan, excludeRight := (preset.get 6).pan }
  else { l with excludeRight := (preset.get 5).pan, excludeLeft := (preset.get 6).pan }

namespace CamholderCtx

def saveCamholderPreset (c : CamholderCtx) (num : Fin 16) : CamholderCtx := { c with preset := c.preset.set num c.pos }

def saved (c : CamholderCtx) : Option (Fin 16) → CamholderCtx
  | none => c
  | some num => c.saveCamholderPreset num

/-- The loop over the FIFO of a camera up to the end of a response, with the bytes that it leaves there. -/
def readLoop (signed : Bool) (c : CamholderCtx) : List UInt8 → Option (CamholderCtx × List UInt8)
  | [] => some (c, [])
  | b :: rest => (UartSys.takeByte signed c b).bind fun (d, r) => if r.isSome then some (d, rest) else d.readLoop signed rest

end CamholderCtx

/-! ### A pass -/

/-- What a pass finds for a camera: the clock when its block sends a command and when the time-out is tested, the bytes that
    arrived, and the commands that the rest of the pass sends to an initialised camera. -/
structure CamPass where
  asked : Int × Int
  tested : Int × Int
  arrived : List UInt8
  further : List (CamCommand × Int × Int)

/-- A camera, its status, the limits of its pan position and its FIFO, with a record of the blocks that sent their commands, whether
    the last of these failed since, and the bytes that ever arrived. -/
structure CamInit where
  ctx : CamholderCtx
  status : Nat
  limits : PanLimits
  fifo : List UInt8
  asked : List InitBlock
  failed : Bool
  arrived : List UInt8

namespace CamInit

/-- `if(!get_camholder_pending_state(..)){ if(.._status == k){ .. } }`, for a block with a command. -/
def issue (s : CamInit) (b : InitBlock) (sec usec : Int) : Option CamInit :=
  if s.ctx.getPendingState = 0 ∧ s.status = b.status then
    ((s.ctx.saved b.save).command b.command sec usec).map fun c =>
      { s with ctx := c, status := b.status + 1, asked := s.asked ++ [b], failed := false }
  else some s

/-- The last block. -/
def finish (cam : CamRole) (s : CamInit) : CamInit :=
  if s.ctx.getPendingState = 0 ∧ s.status + 1 = cam.done then
    match cam with
    | .teacher => { s with limits := s.limits.ofPresets s.ctx.preset, status := 17 }
    | .student => { s with status := 5 }
  else s

/-- The blocks of a pass. -/
def ask (cam : CamRole) (s : CamInit) (a : CamPass) : Option CamInit :=
  (exec (fun s b => issue s b a.asked.1 a.asked.2) s cam.blocks).map (finish cam)

/-- What an error and a time-out do. -/
def back (cam : CamRole) (s : CamInit) : CamInit :=
  { s with
    ctx := s.ctx.resetPendingState
    status := if 0 < s.status ∧ s.status < cam.done then s.status - 1 else s.status
    failed := true }

/-- The error handling and the timeout handling. -/
def handle (cam : CamRole) (s : CamInit) (sec usec : Int) : CamInit :=
  if s.ctx.getPendingState = 1 then
    let s := if s.ctx.getErr = 1 then s.back cam else s
    if s.ctx.commandTimeout 10 sec usec = 1 then s.back cam else s
  else s

def read (signed : Bool) (s : CamInit) (arrived : List UInt8) : Option CamInit :=
  (s.ctx.readLoop signed (s.fifo ++ arrived)).map fun (c, fifo) =>
    { s with ctx := c, fifo := fifo, arrived := s.arrived ++ arrived }

/-- The rest of the pass. -/
def further (cam : CamRole) (s : CamInit) (ks : List (CamCommand × Int × Int)) : Option CamInit :=
  if s.status = cam.done ∨ ks.isEmpty then
    (exec (fun (c : CamholderCtx) k => c.command k.1 k.2.1 k.2.2) s.ctx ks).map fun c => { s with ctx := c }
  else none

/-- A pass of `thread_SwitchTracking`, as far as a camera is concerned. -/
def pass (signed : Bool) (cam : CamRole) (s : CamInit) (a : CamPass) : Option CamInit :=
  (s.ask cam a).bind fun u =>
    ((u.handle cam a.tested.1 a.tested.2).read signed a.arrived).bind fun v => v.further cam a.further

/-- When the thread starts, with whatever the memory of the camera holds. -/
def start (c : CamholderCtx) (isExclude : Int) : CamInit where
  ctx := { c with commandPending := 0, rxBufP := 0 }
  status := 0
  limits := ⟨-400, 400, 0, 0, isExclude⟩
  fifo := []
  asked := []
  failed := false
  arrived := []

/-! ### Failures -/

/-- The pass finds that the command failed. -/
def Fails (s : CamInit) (a : CamPass) : Prop :=
  s.ctx.getPendingState = 1 ∧ (s.ctx.getErr = 1 ∨ s.ctx.commandTimeout 10 a.tested.1 a.tested.2 = 1)

instance (s : CamInit) (a : CamPass) : Decidable (s.Fails a) := inferInstanceAs (Decidable (_ ∧ _))

/-- A pass takes the status back by one for a command that failed and for nothing else, and a command that failed is the next one
    that is sent. The status stays in its range, and is kept when the camera is initialised. -/
structure Retries (cam : CamRole) (s : CamInit) (a : CamPass) (t : CamInit) : Prop where
  back : ∀ u, s.ask cam a = some u → u.status < cam.done →
    t.status + (if u.Fails a ∧ u.failed = false then 1 else 0) = u.status
  again : ∀ b, t.asked = s.asked ++ [b] → s.failed = true → s.asked.getLast? = some b
  range : t.status ≤ cam.done
  kept : s.status = cam.done → t.status = cam.done

/-- The pass does not take an error for a second failure of one command: it finds no error and time-out together, unless the status
    is 1, and no error of a command that has failed already, unless the status is 0. -/
def FailsOnce (cam : CamRole) (s : CamInit) (a : CamPass) : Prop :=
  s.status < cam.done → s.ctx.getErr = 1 →
    if s.failed then s.status = 0 else s.status = 1 ∨ s.ctx.commandTimeout 10 a.tested.1 a.tested.2 = 0

/-- The status shows the last command: it is the block to come when the command failed, else the one after it. -/
structure InPlace (cam : CamRole) (s : CamInit) : Prop where
  range : s.status ≤ cam.done
  failed : s.status < cam.done → s.failed = true →
    s.asked.getLast? = cam.blocks[s.status]? ∧ (s.ctx.commandPending = 0 ∨ s.ctx.commandPending = chError)
  sent : s.status < cam.done → s.failed = false →
    0 < s.status ∧ s.asked.getLast? = cam.blocks[s.status - 1]? ∨ s.status = 0 ∧ s.asked = [] ∧ s.ctx.commandPending = 0

end CamInit

/-- A pass of `thread_SwitchTracking`, for both cameras. -/
def passCameras (signed : Bool) (s : CamRole → CamInit) (a : CamRole → CamPass) : Option (CamRole → CamInit) :=
  ((s .teacher).pass signed .teacher (a .teacher)).bind fun t =>
    ((s .student).pass signed .student (a .student)).map fun u => fun
      | .teacher => t
      | .student => u

section
variable {signed : Bool} {cam : CamRole} {c d : CamholderCtx} {s t u v : CamInit} {a : CamPass} {b : InitBlock} {sec usec : Int}

/-! ### The blocks of a pass -/

@[simp] theorem getPendingState_eq_zero : c.getPendingState = 0 ↔ c.commandPending = 0 := by
  unfold CamholderCtx.getPendingState
  split <;> simp_all

theorem saved_pending (c : CamholderCtx) (num : Option (Fin 16)) : (c.saved num).commandPending = c.commandPending := by
  cases num <;> rfl

theorem command_pending {k : CamCommand} (h : c.command k sec usec = some d) :
    d.commandPending = c.commandPending ||| k.kind.flag := by
  obtain ⟨e, -, rfl⟩ := Option.map_eq_some_iff.mp h
  rfl

/-- The blocks stand at the numbers of their status. -/
theorem blocks_status (cam : CamRole) {n : Nat} (h : cam.blocks[n]? = some b) : b.status = n := by
  have hall : ∀ cam : CamRole, ∀ i : Fin cam.blocks.length, (cam.blocks[i]).status = i := by
    intro cam
    cases cam <;> decide
  obtain ⟨hlt, rfl⟩ := List.getElem?_eq_some_iff.mp h
  exact hall cam ⟨n, hlt⟩

theorem length_blocks (cam : CamRole) : cam.blocks.length + 1 = cam.done := by cases cam <;> rfl

namespace CamInit

theorem issue_skip (h : s.ctx.commandPending ≠ 0 ∨ s.status ≠ b.status) : s.issue b sec usec = some s := by
  unfold issue
  refine if_neg fun ⟨hp, hstatus⟩ => ?_
  rcases h with h | h
  · exact h (getPendingState_eq_zero.mp hp)
  · exact h hstatus

theorem exec_issue_skip {bs : List InitBlock} (h : s.ctx.commandPending ≠ 0 ∨ ∀ b ∈ bs, s.status ≠ b.status) :
    exec (fun s b => issue s b sec usec) s bs = some s := by
  induction bs with
  | nil => rfl
  | cons b bs ih =>
    refine exec_cons.mpr ⟨s, issue_skip (h.imp_right fun h => h b (List.mem_cons_self ..)), ?_⟩
    exact ih (h.imp_right fun h b' hb' => h b' (List.mem_cons_of_mem b hb'))

/-- The command of a block is sent. -/
structure Issued (s : CamInit) (b : InitBlock) (sec usec : Int) (u : CamInit) : Prop where
  idle : s.ctx.commandPending = 0
  command : (s.ctx.saved b.save).command b.command sec usec = some u.ctx
  eq : u = { s with ctx := u.ctx, status := b.status + 1, asked := s.asked ++ [b], failed := false }

theorem Issued.pending (h : s.Issued b sec usec u) : u.ctx.commandPending = b.command.kind.flag := by
  rw [command_pending h.command, saved_pending, h.idle]
  exact BitVec.zero_or

theorem Issued.pending_ne_zero (h : s.Issued b sec usec u) : u.ctx.commandPending ≠ 0 := by
  rw [command_pending h.command]
  exact or_flag_ne_zero _ _

theorem issue_inv (hp : s.ctx.commandPending = 0) (hstatus : s.status = b.status) (h : s.issue b sec usec = some u) :
    s.Issued b sec usec u := by
  unfold issue at h
  rw [if_pos ⟨getPendingState_eq_zero.mpr hp, hstatus⟩] at h
  obtain ⟨c, hc, rfl⟩ := Option.map_eq_some_iff.mp h
  exact ⟨hp, hc, rfl⟩

/-- The block of the status sends its command, and no other block does. -/
theorem exec_issue (hb : cam.blocks[s.status]? = some b) (hp : s.ctx.commandPending = 0)
    (h : exec (fun s b => issue s b sec usec) s cam.blocks = some u) : s.Issued b sec usec u := by
  have hstatus : s.status = b.status := (blocks_status cam hb).symm
  obtain ⟨hlt, hget⟩ := List.getElem?_eq_some_iff.mp hb
  rw [← List.take_append_drop s.status cam.blocks, ← List.getElem_cons_drop hlt, hget] at h
  obtain ⟨s', hs', h⟩ := exec_append.mp h
  have hbefore : ∀ b' ∈ cam.blocks.take s.status, s.status ≠ b'.status := by
    intro b' hb'
    obtain ⟨i, hi, rfl⟩ := List.mem_take_iff_getElem.mp hb'
    have := blocks_status cam (List.getElem?_eq_getElem (Nat.lt_of_lt_of_le hi (Nat.min_le_right ..)))
    omega
  obtain rfl := Option.some.inj ((exec_issue_skip (Or.inr hbefore)).symm.trans hs')
  obtain ⟨v, hv, hafter⟩ := exec_cons.mp h
  have hissued := issue_inv hp hstatus hv
  rw [exec_issue_skip (Or.inl hissued.pending_ne_zero)] at hafter
  cases hafter
  exact hissued

theorem finish_skip (h : s.ctx.commandPending ≠ 0 ∨ s.status + 1 ≠ cam.done) : s.finish cam = s := by
  unfold finish
  refine if_neg fun ⟨hp, hstatus⟩ => ?_
  rcases h with h | h
  · exact h (getPendingState_eq_zero.mp hp)
  · exact h hstatus

/-- What the blocks of a pass can do: wait for an answer, send the command of the status, finish, or nothing any more. -/
theorem ask_cases (h : s.ask cam a = some u) :
    s.ctx.commandPending ≠ 0 ∧ u = s ∨
    (∃ b, cam.blocks[s.status]? = some b ∧ s.Issued b a.asked.1 a.asked.2 u) ∨
    (s.ctx.commandPending = 0 ∧ s.status + 1 = cam.done ∧ u = s.finish cam) ∨
    s.ctx.commandPending = 0 ∧ cam.done ≤ s.status ∧ u = s := by
  obtain ⟨v, hv, rfl⟩ := Option.map_eq_some_iff.mp h
  by_cases hp : s.ctx.commandPending = 0
  · refine Or.inr ?_
    have hlen := length_blocks cam
    rcases Nat.lt_or_ge s.status cam.blocks.length with hlt | hge
    · refine Or.inl ⟨cam.blocks[s.status], List.getElem?_eq_getElem hlt, ?_⟩
      have hissued := exec_issue (List.getElem?_eq_getElem hlt) hp hv
      rwa [finish_skip (Or.inl hissued.pending_ne_zero)]
    · refine Or.inr ?_
      have hall : ∀ b ∈ cam.blocks, s.status ≠ b.status := by
        intro b hb
        obtain ⟨i, hi, rfl⟩ := List.getElem_of_mem hb
        have := blocks_status cam (List.getElem?_eq_getElem hi)
        omega
      rw [exec_issue_skip (Or.inr hall)] at hv
      cases hv
      by_cases hlast : s.status + 1 = cam.done
      · exact Or.inl ⟨hp, hlast, rfl⟩
      · exact Or.inr ⟨hp, by omega, finish_skip (Or.inr hlast)⟩
  · rw [exec_issue_skip (Or.inl hp)] at hv
    cases hv
    exact Or.inl ⟨hp, finish_skip (Or.inl hp)⟩

/-- The last block changes the status and the limits. -/
theorem finish_eq (hp : s.ctx.commandPending = 0) (hlast : s.status + 1 = cam.done) :
    s.finish cam = { s with
      status := cam.done
      limits := match cam with
        | .teacher => s.limits.ofPresets s.ctx.preset
        | .student => s.limits } := by
  unfold finish
  rw [if_pos ⟨getPendingState_eq_zero.mpr hp, hlast⟩]
  cases cam <;> rfl

/-! ### The rest of a pass -/

theorem pending_of_err (h : c.getErr = 1) : c.commandPending ≠ 0 := by
  intro hp
  rw [getErr_eq_one, hp] at h
  exact h BitVec.zero_and

theorem getErr_flag {k : CamKind} (h : c.commandPending = k.flag) : c.getErr ≠ 1 := by
  rw [Ne, getErr_eq_one, h, not_not]
  cases k <;> decide

theorem back_status (h : s.status < cam.done) : (s.back cam).status = s.status - 1 := by
  unfold back
  dsimp only
  split <;> omega

theorem back_done (h : s.status = cam.done) : (s.back cam).status = cam.done := by
  unfold back
  dsimp only
  rw [if_neg (by omega), h]

/-- A command fails in no way, in one way, or in both. -/
theorem handle_cases (cam : CamRole) (s : CamInit) (a : CamPass) :
    ¬ s.Fails a ∧ s.handle cam a.tested.1 a.tested.2 = s ∨
    s.Fails a ∧ (s.ctx.getErr = 1 → s.ctx.commandTimeout 10 a.tested.1 a.tested.2 = 0) ∧
      s.handle cam a.tested.1 a.tested.2 = s.back cam ∨
    s.Fails a ∧ s.ctx.getErr = 1 ∧ s.ctx.commandTimeout 10 a.tested.1 a.tested.2 = 1 ∧
      s.handle cam a.tested.1 a.tested.2 = (s.back cam).back cam := by
  unfold Fails handle
  by_cases hp : s.ctx.getPendingState = 1
  · rw [if_pos hp]
    rcases CamSession.commandTimeout_cases s.ctx 10 a.tested.1 a.tested.2 with ht | ht
    · by_cases he : s.ctx.getErr = 1
      · refine Or.inr (Or.inl ⟨⟨hp, Or.inl he⟩, fun _ => ht, ?_⟩)
        have hback : (s.back cam).ctx.commandTimeout 10 a.tested.1 a.tested.2 = 0 := ht
        simp only [if_pos he, hback]
        rfl
      · refine Or.inl ⟨fun h => ?_, ?_⟩
        · rcases h.2 with h | h
          · exact he h
          · rw [ht] at h
            cases h
        · simp only [if_neg he, ht]
          rfl
    · by_cases he : s.ctx.getErr = 1
      · refine Or.inr (Or.inr ⟨⟨hp, Or.inl he⟩, he, ht, ?_⟩)
        have hback : (s.back cam).ctx.commandTimeout 10 a.tested.1 a.tested.2 = 1 := ht
        simp only [if_pos he, hback, if_true]
      · refine Or.inr (Or.inl ⟨⟨hp, Or.inr ht⟩, fun h => absurd h he, ?_⟩)
        simp only [if_neg he, if_pos ht]
  · exact Or.inl ⟨fun h => hp h.1, if_neg hp⟩

theorem takeByte_pending {r : Option CamholderCtx} {x : UInt8} (h : UartSys.takeByte signed c x = some (d, r)) :
    d.commandPending = c.commandPending ∨ d.commandPending = 0 ∨ d.commandPending = chError := by
  unfold UartSys.takeByte at h
  split at h
  · obtain ⟨e, he, heq⟩ := Option.map_eq_some_iff.mp h
    cases heq
    rw [updateCamholderCtx_pending, completed_pending he]
    cases e.response with
    | ack k => exact Or.inr (Or.inl rfl)
    | error => exact Or.inr (Or.inr rfl)
    | other => exact Or.inl rfl
  · obtain ⟨e, he, heq⟩ := Option.map_eq_some_iff.mp h
    cases heq
    exact Or.inl (store_pending he)

theorem readLoop_pending {bytes rest : List UInt8} (h : c.readLoop signed bytes = some (d, rest)) :
    d.commandPending = c.commandPending ∨ d.commandPending = 0 ∨ d.commandPending = chError := by
  induction bytes generalizing c with
  | nil =>
    cases h
    exact Or.inl rfl
  | cons x bytes ih =>
    obtain ⟨⟨e, r⟩, he, h⟩ := Option.bind_eq_some_iff.mp h
    have hbyte := takeByte_pending he
    dsimp only at h
    split at h
    · cases h
      exact hbyte
    · rcases ih h with h | h
      · rwa [h]
      · exact Or.inr h

theorem read_inv {arrived : List UInt8} (h : s.read signed arrived = some t) :
    ∃ c fifo, s.ctx.readLoop signed (s.fifo ++ arrived) = some (c, fifo) ∧
      t = { s with ctx := c, fifo := fifo, arrived := s.arrived ++ arrived } := by
  obtain ⟨⟨c, fifo⟩, hread, rfl⟩ := Option.map_eq_some_iff.mp h
  exact ⟨c, fifo, hread, rfl⟩

theorem further_inv {ks : List (CamCommand × Int × Int)} (h : s.further cam ks = some t) :
    t = { s with ctx := t.ctx } ∧ (s.status < cam.done → t = s) := by
  unfold further at h
  by_cases hks : s.status = cam.done ∨ ks.isEmpty
  · rw [if_pos hks] at h
    obtain ⟨d, hd, rfl⟩ := Option.map_eq_some_iff.mp h
    refine ⟨rfl, fun hlt => ?_⟩
    obtain rfl : ks = [] := List.isEmpty_iff.mp (hks.resolve_left (Nat.ne_of_lt hlt))
    cases hd
    rfl
  · rw [if_neg hks] at h
    cases h

/-- What a pass makes of the state after its blocks. -/
theorem pass_inv (h : s.pass signed cam a = some t) : ∃ u, s.ask cam a = some u ∧
    t.status = (u.handle cam a.tested.1 a.tested.2).status ∧ t.asked = (u.handle cam a.tested.1 a.tested.2).asked ∧
    t.failed = (u.handle cam a.tested.1 a.tested.2).failed ∧
    (t.status < cam.done → t.ctx.commandPending = (u.handle cam a.tested.1 a.tested.2).ctx.commandPending ∨
      t.ctx.commandPending = 0 ∨ t.ctx.commandPending = chError) := by
  obtain ⟨u, hu, h⟩ := Option.bind_eq_some_iff.mp h
  obtain ⟨v, hv, h⟩ := Option.bind_eq_some_iff.mp h
  obtain ⟨c, fifo, hread, rfl⟩ := read_inv hv
  obtain ⟨heq, hsame⟩ := further_inv h
  refine ⟨u, hu, by rw [heq], by rw [heq], by rw [heq], fun hlt => ?_⟩
  rw [heq] at hlt
  rw [hsame hlt]
  exact readLoop_pending hread

/-! ### A pass and its failures -/

/-- After the blocks the status still shows the last command. -/
theorem InPlace.ask (h : s.InPlace cam) (hu : s.ask cam a = some u) :
    u.InPlace cam ∧ (u.status < cam.done → u.failed = false → 0 < u.status) := by
  rcases ask_cases hu with ⟨hp, rfl⟩ | ⟨b, hb, hissued⟩ | ⟨hp, hlast, rfl⟩ | ⟨hp, hge, rfl⟩
  · refine ⟨h, fun hlt hf => ?_⟩
    rcases h.sent hlt hf with ⟨hpos, -⟩ | ⟨-, -, hzero⟩
    · exact hpos
    · exact absurd hzero hp
  · obtain ⟨hlt, -⟩ := List.getElem?_eq_some_iff.mp hb
    have hlen := length_blocks cam
    have hstatus : u.status = s.status + 1 := by rw [hissued.eq, blocks_status cam hb]
    have hfailed : u.failed = false := by rw [hissued.eq]
    have hasked : u.asked.getLast? = some b := by rw [hissued.eq, List.getLast?_concat]
    refine ⟨⟨by omega, fun _ hf => ?_, fun _ _ => Or.inl ⟨by omega, ?_⟩⟩, fun _ _ => by omega⟩
    · rw [hfailed] at hf
      cases hf
    · rw [hasked, hstatus, Nat.add_sub_cancel, hb]
  · rw [finish_eq hp hlast]
    refine ⟨⟨Nat.le_refl _, fun hlt => absurd hlt (Nat.lt_irrefl _), fun hlt => absurd hlt (Nat.lt_irrefl _)⟩, fun hlt => ?_⟩
    exact absurd hlt (Nat.lt_irrefl _)
  · exact ⟨h, fun hlt => by omega⟩

/-- The status goes back by one for a command that fails for the first time exactly when the failure is found once. -/
theorem handle_once (h : u.InPlace cam) (hpos : u.failed = false → 0 < u.status) (hlt : u.status < cam.done) :
    (u.handle cam a.tested.1 a.tested.2).status + (if u.Fails a ∧ u.failed = false then 1 else 0) = u.status ↔
      (u.ctx.getErr = 1 → if u.failed then u.status = 0 else
        u.status = 1 ∨ u.ctx.commandTimeout 10 a.tested.1 a.tested.2 = 0) := by
  have hback := back_status hlt
  have htwice : ((u.back cam).back cam).status = u.status - 1 - 1 := by rw [back_status (by omega), hback]
  rcases handle_cases cam u a with ⟨hnot, heq⟩ | ⟨hfails, hone, heq⟩ | ⟨hfails, herr, ht, heq⟩
  · rw [heq, if_neg fun h => hnot h.1]
    refine iff_of_true rfl fun herr => absurd ⟨getPendingState_eq_one.mpr (pending_of_err herr), Or.inl herr⟩ hnot
  · rw [heq, hback]
    cases hf : u.failed with
    | true =>
      -- the error came after the failure
      have herr : u.ctx.getErr = 1 := by
        rw [getErr_eq_one, ((h.failed hlt hf).2).resolve_left (getPendingState_eq_one.mp hfails.1)]
        decide
      simp only [herr, reduceCtorEq, and_false, if_false, if_true, forall_const]
      omega
    | false =>
      have := hpos hf
      refine iff_of_true ?_ fun herr => ?_
      · rw [if_pos ⟨hfails, rfl⟩]
        omega
      · exact Or.inr (hone herr)
  · rw [heq, htwice]
    cases hf : u.failed with
    | true =>
      simp only [herr, reduceCtorEq, and_false, if_false, if_true, forall_const]
      omega
    | false =>
      have := hpos hf
      simp only [herr, ht, hfails, and_self, if_true, forall_const, one_ne_zero, or_false, Bool.false_eq_true, if_false]
      omega

theorem handle_done (h : u.status = cam.done) : (u.handle cam a.tested.1 a.tested.2).status = cam.done := by
  rcases handle_cases cam u a with ⟨-, heq⟩ | ⟨-, -, heq⟩ | ⟨-, -, -, heq⟩
  · rw [heq, h]
  · rw [heq, back_done h]
  · rw [heq, back_done (back_done h)]

theorem handle_asked (cam : CamRole) (u : CamInit) (a : CamPass) : (u.handle cam a.tested.1 a.tested.2).asked = u.asked := by
  rcases handle_cases cam u a with ⟨-, heq⟩ | ⟨-, -, heq⟩ | ⟨-, -, -, heq⟩ <;> rw [heq] <;> rfl

theorem handle_of_fails (cam : CamRole) (h : u.Fails a) : (u.handle cam a.tested.1 a.tested.2).failed = true ∧
    (u.handle cam a.tested.1 a.tested.2).ctx.commandPending = 0 := by
  rcases handle_cases cam u a with ⟨hnot, -⟩ | ⟨-, -, heq⟩ | ⟨-, -, -, heq⟩
  · exact absurd h hnot
  · rw [heq]
    exact ⟨rfl, rfl⟩
  · rw [heq]
    exact ⟨rfl, rfl⟩

theorem handle_of_not_fails (cam : CamRole) (h : ¬ u.Fails a) : u.handle cam a.tested.1 a.tested.2 = u := by
  rcases handle_cases cam u a with ⟨-, heq⟩ | ⟨hfails, -⟩ | ⟨hfails, -⟩
  · exact heq
  · exact absurd hfails h
  · exact absurd hfails h

/-- The condition on a pass, after its blocks. -/
theorem failsOnce_ask (hu : s.ask cam a = some u) : s.FailsOnce cam a ↔ u.FailsOnce cam a := by
  rcases ask_cases hu with ⟨-, rfl⟩ | ⟨b, -, hissued⟩ | ⟨hp, hlast, rfl⟩ | ⟨-, -, rfl⟩
  · exact Iff.rfl
  · refine iff_of_true (fun _ herr => absurd hissued.idle (pending_of_err herr)) fun _ herr => ?_
    exact absurd herr (getErr_flag hissued.pending)
  · refine iff_of_true (fun _ herr => absurd hp (pending_of_err herr)) fun hlt => ?_
    rw [finish_eq hp hlast] at hlt
    exact absurd hlt (Nat.lt_irrefl _)
  · exact Iff.rfl

/-- Whatever fails, the status stays in its range, and is kept when the camera is initialised. -/
theorem pass_range (hs : s.status ≤ cam.done) (h : s.pass signed cam a = some t) :
    t.status ≤ cam.done ∧ (s.status = cam.done → t.status = cam.done) := by
  obtain ⟨u, hu, hstatus, -⟩ := pass_inv h
  have hlen := length_blocks cam
  have hask : u.status ≤ cam.done ∧ (s.status = cam.done → u.status = cam.done) := by
    rcases ask_cases hu with ⟨-, rfl⟩ | ⟨b, hb, hissued⟩ | ⟨hp, hlast, rfl⟩ | ⟨-, -, rfl⟩
    · exact ⟨hs, id⟩
    · obtain ⟨hlt, -⟩ := List.getElem?_eq_some_iff.mp hb
      rw [hissued.eq]
      dsimp only
      rw [blocks_status cam hb]
      exact ⟨by omega, fun _ => by omega⟩
    · rw [finish_eq hp hlast]
      exact ⟨Nat.le_refl _, fun _ => rfl⟩
    · exact ⟨hs, id⟩
  rw [hstatus]
  refine ⟨?_, fun h => handle_done (hask.2 h)⟩
  rcases Nat.lt_or_eq_of_le hask.1 with hlt | heq
  · have hback := back_status hlt
    rcases handle_cases cam u a with ⟨-, heq⟩ | ⟨-, -, heq⟩ | ⟨-, -, -, heq⟩
    · rw [heq]
      exact hask.1
    · rw [heq]
      omega
    · rw [heq, back_status (by omega)]
      omega
  · exact (handle_done heq).le

/-- A pass retries what failed exactly when it finds each failure once. -/
theorem pass_retries_iff (hs : s.InPlace cam) (h : s.pass signed cam a = some t) : s.Retries cam a t ↔ s.FailsOnce cam a := by
  obtain ⟨u, hu, hstatus, hasked, -⟩ := pass_inv h
  obtain ⟨hplace, hpos⟩ := hs.ask hu
  rw [failsOnce_ask hu]
  constructor
  · intro hr hlt
    have hback := hr.back u hu hlt
    rw [hstatus] at hback
    exact (handle_once hplace (hpos hlt) hlt).mp hback
  · intro hone
    refine ⟨fun u' hu' hlt => ?_, fun b hb hf => ?_, (pass_range hs.range h).1, (pass_range hs.range h).2⟩
    · cases hu.symm.trans hu'
      rw [hstatus]
      exact (handle_once hplace (hpos hlt) hlt).mpr (hone hlt)
    · rw [hasked, handle_asked] at hb
      rcases ask_cases hu with ⟨-, rfl⟩ | ⟨b', hb', hissued⟩ | ⟨hp, hlast, rfl⟩ | ⟨-, -, rfl⟩
      · simp at hb
      · have hlt := (List.getElem?_eq_some_iff.mp hb').1
        have hlen := length_blocks cam
        rw [hissued.eq] at hb
        obtain rfl : b' = b := by simpa using hb
        rw [(hs.failed (by omega) hf).1, hb']
      · rw [finish_eq hp hlast] at hb
        simp at hb
      · simp at hb

/-- And then the status shows the last command again. -/
theorem InPlace.pass (hs : s.InPlace cam) (h : s.pass signed cam a = some t) (hr : s.Retries cam a t) : t.InPlace cam := by
  obtain ⟨u, hu, hstatus, hasked, hfailed, hpending⟩ := pass_inv h
  obtain ⟨hplace, hpos⟩ := hs.ask hu
  rw [handle_asked] at hasked
  have hlt : t.status < cam.done → u.status < cam.done := by
    intro hlt
    refine Nat.lt_of_le_of_ne hplace.range fun heq => ?_
    rw [hstatus, handle_done heq] at hlt
    exact Nat.lt_irrefl _ hlt
  by_cases hfails : u.Fails a
  · obtain ⟨htrue, hzero⟩ := handle_of_fails cam hfails
    rw [htrue] at hfailed
    rw [hzero, ← or_assoc, or_self] at hpending
    refine ⟨hr.range, fun ht _ => ⟨?_, hpending ht⟩, fun _ hf => ?_⟩
    · have hback := hr.back u hu (hlt ht)
      rw [hasked]
      cases huf : u.failed with
      | true =>
        rw [huf, if_neg (fun h => absurd h.2 (by decide)), Nat.add_zero] at hback
        rw [hback]
        exact (hplace.failed (hlt ht) huf).1
      | false =>
        rw [if_pos ⟨hfails, huf⟩] at hback
        rcases hplace.sent (hlt ht) huf with ⟨-, hlast⟩ | ⟨hzero, -⟩
        · rw [hlast, ← hback, Nat.add_sub_cancel]
        · exact absurd (hpos (hlt ht) huf) (by omega)
    · rw [hfailed] at hf
      cases hf
  · rw [handle_of_not_fails cam hfails] at hstatus hfailed hpending
    refine ⟨hr.range, fun ht hf => ?_, fun ht hf => ?_⟩
    · obtain ⟨hlast, hp⟩ := hplace.failed (hlt ht) (hfailed ▸ hf)
      refine ⟨by rw [hasked, hstatus, hlast], ?_⟩
      rcases hpending ht with h | h | h
      · rwa [h]
      · exact Or.inl h
      · exact Or.inr h
    · have huf : u.failed = false := hfailed ▸ hf
      rcases hplace.sent (hlt ht) huf with ⟨hpos', hlast⟩ | ⟨hzero, -⟩
      · exact Or.inl ⟨by omega, by rw [hasked, hstatus, hlast]⟩
      · exact absurd (hpos (hlt ht) huf) (by omega)

theorem inPlace_start (cam : CamRole) (c : CamholderCtx) (isExclude : Int) : (start c isExclude).InPlace cam :=
  ⟨Nat.zero_le _, fun _ hf => Bool.noConfusion hf, fun _ _ => Or.inr ⟨rfl, rfl, rfl⟩⟩

end CamInit

/-! ### Runs -/

theorem passCameras_inv {s t : CamRole → CamInit} {a : CamRole → CamPass} (h : passCameras signed s a = some t) (cam : CamRole) :
    (s cam).pass signed cam (a cam) = some (t cam) := by
  obtain ⟨u, hu, h⟩ := Option.bind_eq_some_iff.mp h
  obtain ⟨v, hv, rfl⟩ := Option.map_eq_some_iff.mp h
  cases cam with
  | teacher => exact hu
  | student => exact hv

/-- In every run the status of each camera stays in its range and is kept at its end; and each failure takes it back by one, to send
    the command again, exactly when no pass takes an error for a second failure of one command. -/
theorem retries_iff (signed : Bool) (ctx : CamRole → CamholderCtx) (isExclude : Int) (as : List (CamRole → CamPass)) :
    let s := fun cam => CamInit.start (ctx cam) isExclude
    EveryStep (passCameras signed) (fun s _ t => ∀ cam, (t cam).status ≤ cam.done ∧
      ((s cam).status = cam.done → (t cam).status = cam.done)) s as ∧
    (EveryStep (passCameras signed) (fun s a t => ∀ cam, (s cam).Retries cam (a cam) (t cam)) s as ↔
      EveryStep (passCameras signed) (fun s a _ => ∀ cam, (s cam).FailsOnce cam (a cam)) s as) := by
  intro s
  constructor
  · refine everyStep_of (I := fun s => ∀ cam, (s cam).status ≤ cam.done) (fun s a t hs h cam => ?_) (fun s a t hs h cam => ?_)
      fun cam => Nat.zero_le _
    · exact (CamInit.pass_range (hs cam) (passCameras_inv h cam)).1
    · exact CamInit.pass_range (hs cam) (passCameras_inv h cam)
  · refine everyStep_congr (I := fun s => ∀ cam, (s cam).InPlace cam) (fun s a t hs h hr cam => ?_) (fun s a t hs h => ?_)
      fun cam => CamInit.inPlace_start cam (ctx cam) isExclude
    · exact (hs cam).pass (passCameras_inv h cam) (hr cam)
    · exact forall_congr' fun cam => CamInit.pass_retries_iff (hs cam) (passCameras_inv h cam)

/-- Both cameras are asked for their presets 0 and answer, and are asked for their zoom positions. The error comes in the last
    second before the time is over. -/
def lateErrorRun : List (CamRole → CamPass) :=
  [fun _ => ⟨(0, 0), (0, 0), [0x90, 0x51, 0xff], []⟩, fun _ => ⟨(1, 0), (1, 0), [], []⟩,
    fun _ => ⟨(11, 0), (11, 0), [0x90, 0x60, 0x02, 0xff], []⟩]

/-- The pass after that. -/
def latePass : CamRole → CamPass := fun _ => ⟨(12, 0), (12, 0), [], []⟩

/-- The status goes back by two, and preset 0 is recalled again instead of the inquiry of the zoom position. -/
theorem late_error_counterexample :
    ((exec (passCameras false) (fun _ => CamInit.start UartSys.idleCamera 0) (lateErrorRun ++ [latePass, latePass])).map fun t =>
      (t .teacher).asked.map (·.status)) = some [0, 1, 0] ∧
    ¬ EveryStep (passCameras false) (fun s a t => ∀ cam, (s cam).Retries cam (a cam) (t cam))
      (fun _ => CamInit.start UartSys.idleCamera 0) (lateErrorRun ++ [latePass, latePass]) := by
  refine ⟨by decide +kernel, fun h => ?_⟩
  have hrun : ((exec (passCameras false) (fun _ => CamInit.start UartSys.idleCamera 0) lateErrorRun).map fun t =>
      ((t .teacher).status, (t .teacher).ctx.commandPending, (passCameras false t latePass).map fun u => (u .teacher).status)) =
      some (2, chError, some 0) := by decide +kernel
  obtain ⟨t, ht, heq⟩ := Option.map_eq_some_iff.mp hrun
  simp only [Prod.mk.injEq] at heq
  obtain ⟨hstatus, hpending, hnext⟩ := heq
  obtain ⟨u, hu, hback⟩ := Option.map_eq_some_iff.mp hnext
  have hr := h.mid ht hu .teacher
  obtain ⟨v, hv, -⟩ := CamInit.pass_inv (passCameras_inv hu .teacher)
  have hsame : v = t .teacher := by
    have hne : (t .teacher).ctx.commandPending ≠ 0 := by
      rw [hpending]
      decide
    rcases CamInit.ask_cases hv with ⟨-, rfl⟩ | ⟨b, -, hissued⟩ | ⟨hp, -⟩ | ⟨hp, -⟩
    · rfl
    · exact absurd hissued.idle hne
    · exact absurd hp hne
    · exact absurd hp hne
  have hone := hr.back v hv (by rw [hsame, hstatus]; decide)
  rw [hsame, hstatus, hback] at hone
  split at hone <;> cases hone

end

end Recbcsrv
