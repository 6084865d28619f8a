import Recbcsrv.Switch.Framing

/-! The cameras under the hand of the operator: a message of the instructor that names a camera and a movement, the internal
    message that is made of it, the branch of `thread_SwitchTracking` that takes it, and the command to the camera. A step is a
    hundredth of the zoom or a degree, and goes no further than the limit of the camera in its direction. -/

namespace Recbcsrv
open Exec Bytes

/-! ### Limits -/

/-- The fields of `t_camera_holder` that bound its movements. The angles are floats that hold ints; up to 2^24 a quotient by
    them is cut off to the same int. -/
structure CamLimits where
  panMin : Int
  panMax : Int
  panAngleRight : Int
  tiltMin : Int
  tiltMax : Int
  tiltAngleUp : Int
  zoomMin : Int
  zoomMax : Int

/-- The limits that `camera_holder_init` sets. -/
def cameraHolderInit : CamLimits where
  panMin := -1600
  panMax := 1600
  panAngleRight := 120
  tiltMin := -400
  tiltMax := 1200
  tiltAngleUp := 90
  zoomMin := 0
  zoomMax := 16384

namespace CamLimits

def zoomstep (l : CamLimits) : Int := (l.zoomMax - l.zoomMin).tdiv 100
def panstep (l : CamLimits) : Int := l.panMax.tdiv l.panAngleRight
def tiltstep (l : CamLimits) : Int := l.tiltMax.tdiv l.tiltAngleUp

/-- Steps go forwards. -/
structure Regular (l : CamLimits) : Prop where
  zoom : l.zoomMin ≤ l.zoomMax
  pan : 0 ≤ l.panMax ∧ 0 < l.panAngleRight
  tilt : 0 ≤ l.tiltMax ∧ 0 < l.tiltAngleUp

/-- The position is one that the camera can take. -/
structure Holds (l : CamLimits) (p : PresetPos) : Prop where
  pan : l.panMin ≤ p.pan ∧ p.pan ≤ l.panMax
  tilt : l.tiltMin ≤ p.tilt ∧ p.tilt ≤ l.tiltMax
  zoom : l.zoomMin ≤ p.zoom ∧ p.zoom ≤ l.zoomMax

/-- The command sends the camera nowhere outside its limits. -/
def Allows (l : CamLimits) : CamCommand → Prop
  | .absPos pan tilt => (l.panMin ≤ pan ∧ pan ≤ l.panMax) ∧ l.tiltMin ≤ tilt ∧ tilt ≤ l.tiltMax
  | .zoomDirect zoom => l.zoomMin ≤ zoom ∧ zoom ≤ l.zoomMax
  | _ => True

end CamLimits

/-! ### The branches -/

/-- What an operator can do with a camera. -/
inductive CamMove where
  | wide
  | tele
  | left
  | right
  | up
  | down
  | recall (num : Nat)
  | memSet (num : Nat)
  deriving DecidableEq, Repr

/-- The command of a branch, for a camera at `pos`. -/
def CamMove.command (l : CamLimits) (pos : PresetPos) : CamMove → CamCommand
  | .wide =>
    let destZoom := pos.zoom - l.zoomstep
    .zoomDirect (if destZoom < l.zoomMin then l.zoomMin else destZoom)
  | .tele =>
    let destZoom := pos.zoom + l.zoomstep
    .zoomDirect (if destZoom > l.zoomMax then l.zoomMax else destZoom)
  | .left =>
    let destpan := pos.pan - l.panstep
    .absPos (if destpan < l.panMin then l.panMin else destpan) pos.tilt
  | .right =>
    let destpan := pos.pan + l.panstep
    .absPos (if destpan > l.panMax then l.panMax else destpan) pos.tilt
  | .up =>
    let desttilt := pos.tilt + l.tiltstep
    .absPos pos.pan (if desttilt > l.tiltMax then l.tiltMax else desttilt)
  | .down =>
    let desttilt := pos.tilt - l.tiltstep
    .absPos pos.pan (if desttilt < l.tiltMin then l.tiltMin else desttilt)
  | .recall num => .recall num
  | .memSet num => .memSet num

/-- A branch of `thread_SwitchTracking`: the attribute that it looks for, its camera, and its movement, given the number that
    is the value of the attribute. -/
structure CamBranch where
  name : String
  cam : CamRole
  move : Nat → CamMove

/-- The branches in the order of the source. -/
def camBranches : List CamBranch :=
  [⟨"CZWT", .teacher, fun _ => .wide⟩, ⟨"CZTT", .teacher, fun _ => .tele⟩,
    ⟨"CZWS", .student, fun _ => .wide⟩, ⟨"CZTS", .student, fun _ => .tele⟩,
    ⟨"CPTLT", .teacher, fun _ => .left⟩, ⟨"CPTRT", .teacher, fun _ => .right⟩,
    ⟨"CPTUT", .teacher, fun _ => .up⟩, ⟨"CPTDT", .teacher, fun _ => .down⟩,
    ⟨"CPTLS", .student, fun _ => .left⟩, ⟨"CPTRS", .student, fun _ => .right⟩,
    ⟨"CPTUS", .student, fun _ => .up⟩, ⟨"CPTDS", .student, fun _ => .down⟩,
    ⟨"CMIT", .teacher, .recall⟩, ⟨"CMST", .teacher, .memSet⟩,
    ⟨"CMIS", .student, .recall⟩, ⟨"CMSS", .student, .memSet⟩]

/-- A command, with the camera it is for and the position at which that camera was. -/
structure CamOrder where
  cam : CamRole
  pos : PresetPos
  command : CamCommand

/-- The cameras of `thread_SwitchTracking`, and the commands that the internal messages have made it send. -/
structure CamDirector where
  ctx : CamRole → CamholderCtx
  ordered : List CamOrder

/-- What the thread has when it handles an internal message: whether `teacher_status` is 17, what the variable `number` holds
    beforehand, and the time. -/
structure CamEnv where
  ready : Bool
  garbage : Nat
  sec : Int
  usec : Int

namespace CamDirector

/-- A command to a camera. -/
def order (s : CamDirector) (env : CamEnv) (cam : CamRole) (k : CamCommand) : Option CamDirector :=
  ((s.ctx cam).command k env.sec env.usec).map fun c =>
    ⟨Function.update s.ctx cam c, s.ordered ++ [⟨cam, (s.ctx cam).pos, k⟩]⟩

section
variable (limits : CamRole → CamLimits)

/-- The branch, when the attribute is the one it looks for. -/
def branch (env : CamEnv) (a : Attr) (s : CamDirector) (b : CamBranch) : Option CamDirector :=
  if a.named b.name then
    s.order env b.cam ((b.move (presetNumber env.garbage a)).command (limits b.cam) (s.ctx b.cam).pos)
  else some s

/-- The branches `Start` and `Stop`, which send the teacher's camera to its first preset when `teacher_status` is 17. -/
def home (env : CamEnv) (a : Attr) (s : CamDirector) (name : String) : Option CamDirector :=
  if a.named name ∧ env.ready then s.order env .teacher (.recall 0) else some s

/-- What the loop of `thread_SwitchTracking` does with the cameras for an attribute. -/
def onAttr (env : CamEnv) (s : CamDirector) (a : Attr) : Option CamDirector := do
  let s ← exec (home env a) s ["Start", "Stop"]
  exec (branch limits env a) s camBranches

/-- A message from `Ctrl_consumer_fifo`. -/
def ctrl (env : CamEnv) (s : CamDirector) (m : Mem) : Option CamDirector :=
  if msgCmd m = commandInternal then exec (onAttr limits env) s (attrsOf m) else some s

end
end CamDirector

/-- What happens to the cameras: an internal message, a byte from a camera, a command for another reason, and the handling of
    errors and timeouts. -/
inductive CamDirectorAct where
  | message (item : Mem) (env : CamEnv)
  | byte (cam : CamRole) (b : UInt8)
  | command (cam : CamRole) (k : CamCommand) (sec usec : Int)
  | handle (cam : CamRole) (sec usec : Int)

def CamDirectorAct.item? : CamDirectorAct → Option Mem
  | .message item _ => some item
  | _ => none

def CamDirector.step (limits : CamRole → CamLimits) (signed : Bool) (s : CamDirector) : CamDirectorAct → Option CamDirector
  | .message item env => s.ctrl limits env item
  | .byte cam b => (UartSys.takeByte signed (s.ctx cam) b).map fun r => { s with ctx := Function.update s.ctx cam r.1 }
  | .command cam k sec usec => ((s.ctx cam).command k sec usec).map fun c => { s with ctx := Function.update s.ctx cam c }
  | .handle cam sec usec => some { s with ctx := Function.update s.ctx cam ((s.ctx cam).handle sec usec) }

/-! ### What the operator asks for -/

/-- A movement of one of the cameras, which the operator asks for or which comes with the beginning or end of a recording. -/
structure CamRequest where
  cam : CamRole
  move : CamMove
  recording : Bool
  deriving DecidableEq, Repr

/-- The teacher's camera goes to its first preset. -/
def CamRequest.home : CamRequest := ⟨.teacher, .recall 0, true⟩

/-- One step, or to the limit of the camera in its direction if that is nearer. -/
def CamMove.wanted (l : CamLimits) (pos : PresetPos) : CamMove → CamCommand
  | .wide => .zoomDirect (max l.zoomMin (pos.zoom - l.zoomstep))
  | .tele => .zoomDirect (min l.zoomMax (pos.zoom + l.zoomstep))
  | .left => .absPos (max l.panMin (pos.pan - l.panstep)) pos.tilt
  | .right => .absPos (min l.panMax (pos.pan + l.panstep)) pos.tilt
  | .up => .absPos pos.pan (min l.tiltMax (pos.tilt + l.tiltstep))
  | .down => .absPos pos.pan (max l.tiltMin (pos.tilt - l.tiltstep))
  | .recall num => .recall num
  | .memSet num => .memSet num

/-- What an attribute of the operator asks of a camera. -/
def Attr.camMove (a : Attr) : Option CamMove :=
  if a.named "CamZoom" then
    if a.valued "Wide" then some .wide else if a.valued "Tele" then some .tele else none
  else if a.named "CamPanTilt" then
    if a.valued "Left" then some .left else if a.valued "Right" then some .right
    else if a.valued "Up" then some .up else if a.valued "Down" then some .down else none
  else if a.named "CamMemoryInq" then some (.recall (hexNum (cstr a.value) % 256))
  else if a.named "CamMemorySave" then some (.memSet (hexNum (cstr a.value) % 256))
  else none

/-- The names of the attributes with which the operator moves a camera. -/
def camVerbs : List String := ["CamZoom", "CamPanTilt", "CamMemoryInq", "CamMemorySave"]

/-- What the attributes of a message ask for under one of the names: the last movement that they name, of the last camera. -/
def camRequest (attrs : List Attr) (verb : String) : Option CamRequest :=
  match (attrs.filter Attr.isCamera).getLast?, ((attrs.filter (·.named verb)).filterMap Attr.camMove).getLast? with
  | some c, some move => some ⟨if c.valued "TeacherSpecial" then .teacher else .student, move, false⟩
  | _, _ => none

/-- The recordings and the cameras as the operator sees them: whether one is running, and what was asked of the cameras. -/
structure Operator where
  status : RecbcStatus
  asked : List CamRequest

namespace Operator

def ask (s : Operator) (more : List CamRequest) : Operator := { s with asked := s.asked ++ more }

/-- An attribute of a message with the attributes `attrs`. -/
def onAttr (attrs : List Attr) (s : Operator) (a : Attr) : Operator :=
  if a.named "Start" then
    if s.status = .idle then { s.ask [.home] with status := .working } else s
  else if a.named "Stop" then
    if s.status = .working then { s.ask [.home] with status := .idle } else s
  else s.ask ((camVerbs.find? a.named).bind (camRequest attrs)).toList

def message (s : Operator) (m : Mem) : Operator :=
  if msgCmd m = commandServer then (attrsOf m).foldl (onAttr (attrsOf m)) s else s

/-- What the messages ask of the cameras. -/
def asks (msgs : List Mem) : List CamRequest := (msgs.foldl message ⟨.idle, []⟩).asked

end Operator

/-- A command that does what was asked, from where the camera is. -/
structure Answers (limits : CamRole → CamLimits) (r : CamRequest) (e : CamOrder) : Prop where
  cam : e.cam = r.cam
  command : e.command = r.move.wanted (limits e.cam) e.pos

/-- The commands answer what was asked, in the order in which it was asked. Unless the teacher's camera was ready all the time, it
    may have stayed where it was when a recording began or ended. -/
inductive Answered (limits : CamRole → CamLimits) (ready : Prop) : List CamRequest → List CamOrder → Prop
  | nil : Answered limits ready [] []
  | cons {r : CamRequest} {e : CamOrder} {asked : List CamRequest} {ordered : List CamOrder} (first : Answers limits r e)
    (rest : Answered limits ready asked ordered) : Answered limits ready (r :: asked) (e :: ordered)
  | skip {r : CamRequest} {asked : List CamRequest} {ordered : List CamOrder} (recording : r.recording = true) (early : ¬ready)
    (rest : Answered limits ready asked ordered) : Answered limits ready (r :: asked) ordered

/-! ### Positions stay inside -/

section
variable {l : CamLimits} {pos : PresetPos} {c d : CamholderCtx} {k : CamCommand} {sec usec : Int} {signed : Bool} {b : UInt8}

namespace CamLimits

theorem Regular.steps (h : l.Regular) : 0 ≤ l.zoomstep ∧ 0 ≤ l.panstep ∧ 0 ≤ l.tiltstep := by
  have hzoom := h.zoom
  exact ⟨Int.tdiv_nonneg (by omega) (by decide), Int.tdiv_nonneg h.pan.1 (by have := h.pan.2; omega),
    Int.tdiv_nonneg h.tilt.1 (by have := h.tilt.2; omega)⟩

/-- From a position inside the limits, a step stays inside: it can only pass the limit that it goes towards. -/
theorem Holds.allows (h : l.Holds pos) (hl : l.Regular) (m : CamMove) : l.Allows (m.wanted l pos) := by
  obtain ⟨hzoom, hpan, htilt⟩ := hl.steps
  have hrange := hl.zoom
  obtain ⟨⟨hp, hp'⟩, ⟨ht, ht'⟩, hz, hz'⟩ := h
  cases m <;> simp only [CamMove.wanted, Allows]
  all_goals omega

end CamLimits

theorem CamMove.command_eq (m : CamMove) (l : CamLimits) (pos : PresetPos) : m.command l pos = m.wanted l pos := by
  cases m <;> simp only [command, wanted]
  case wide | tele => rw [CamCommand.zoomDirect.injEq]; split <;> omega
  case left | right => rw [CamCommand.absPos.injEq]; refine ⟨?_, rfl⟩; split <;> omega
  case up | down => rw [CamCommand.absPos.injEq]; refine ⟨rfl, ?_⟩; split <;> omega

/-- A camera that reports a position beyond its limit goes one step from there, and stays beyond it. -/
example : CamMove.left.command cameraHolderInit ⟨2448, 0, 0⟩ = .absPos 2435 0 := rfl

/-- Where the camera is, where it is going and where its presets are is inside its limits. -/
structure CameraHolder.Inside (l : CamLimits) (h : CameraHolder) : Prop where
  pos : l.Holds h.pos
  target : l.Holds h.target
  preset : ∀ i : Fin 16, l.Holds (h.preset.get i)

namespace CamholderCtx

theorem command_inside (h : c.toCameraHolder.Inside l) (hk : l.Allows k) (hc : c.command k sec usec = some d) :
    d.toCameraHolder.Inside l := by
  obtain ⟨holder, haim, rfl⟩ := Option.map_eq_some_iff.mp hc
  cases k with
  | getZoom | getPos =>
    cases haim
    exact h
  | absPos pan tilt =>
    cases haim
    exact ⟨h.pos, ⟨hk.1, hk.2, h.target.zoom⟩, h.preset⟩
  | zoomDirect zoom =>
    cases haim
    exact ⟨h.pos, ⟨h.target.pan, h.target.tilt, hk⟩, h.preset⟩
  | memSet num =>
    simp only [aim, CameraHolder.memSet] at haim
    split at haim
    · next hnum =>
      cases haim
      refine ⟨h.pos, h.pos, fun i => ?_⟩
      have hget : (c.preset.set num c.pos).get i = if num = i.val then c.pos else c.preset.get i :=
        Vector.getElem_set hnum i.isLt
      rw [hget]
      split
      · exact h.pos
      · exact h.preset i
    · cases haim
  | _ num =>
    simp only [aim, CameraHolder.recall] at haim
    split at haim
    · next hnum =>
      cases haim
      exact ⟨h.pos, h.preset ⟨num, hnum⟩, h.preset⟩
    · cases haim

theorem handle_holder (c : CamholderCtx) (sec usec : Int) : (c.handle sec usec).toCameraHolder = c.toCameraHolder := by
  unfold handle
  dsimp only
  split_ifs <;> rfl

theorem store_holder (h : c.store b = some d) : d.toCameraHolder = c.toCameraHolder := by
  unfold store at h
  split at h <;> cases h
  rfl

theorem completed_holder (h : c.completed b = some d) : d.toCameraHolder = c.toCameraHolder := by
  unfold completed at h
  split at h
  · obtain ⟨e, he, rfl⟩ := Option.map_eq_some_iff.mp h
    change e.toCameraHolder = c.toCameraHolder
    exact store_holder he
  · cases h

/-- A byte of the camera, when the positions that it reports are inside. -/
theorem takeByte_inside {r : Option CamholderCtx} (h : c.toCameraHolder.Inside l)
    (ht : UartSys.takeByte signed c b = some (d, r))
    (hreport : ∀ e, c.completed b = some e → e.response = .ack .ptinq ∨ e.response = .ack .zoominq → l.Holds d.pos) :
    d.toCameraHolder.Inside l := by
  unfold UartSys.takeByte at ht
  split at ht
  · obtain ⟨e, he, heq⟩ := Option.map_eq_some_iff.mp ht
    have hholder := completed_holder he
    obtain ⟨rfl, -⟩ := Prod.mk.inj heq
    have hpos := hreport e he
    rw [← hholder] at h
    rw [updateCamholderCtx_eq] at hpos ⊢
    cases hr : e.response with
    | ack k =>
      rw [hr] at hpos
      cases k with
      | completion => exact ⟨h.target, h.target, h.preset⟩
      | ptinq => exact ⟨hpos (Or.inl rfl), h.target, h.preset⟩
      | zoominq => exact ⟨hpos (Or.inr rfl), h.target, h.preset⟩
    | error => exact h
    | other => exact h
  · obtain ⟨e, he, heq⟩ := Option.map_eq_some_iff.mp ht
    obtain ⟨rfl, -⟩ := Prod.mk.inj heq
    rw [store_holder he]
    exact h

end CamholderCtx
end

/-! ### What an internal message orders -/

/-- All cameras are inside their limits. -/
def CamDirector.Inside (limits : CamRole → CamLimits) (s : CamDirector) : Prop :=
  ∀ cam, (s.ctx cam).toCameraHolder.Inside (limits cam)

/-- The cameras are inside their limits, and were sent nowhere else. -/
structure CamDirector.Kept (limits : CamRole → CamLimits) (s : CamDirector) : Prop where
  inside : s.Inside limits
  allowed : ∀ e ∈ s.ordered, (limits e.cam).Allows e.command

/-- From `s` to `t` the cameras were ordered to do what was asked. -/
def CamDirector.Ordered (limits : CamRole → CamLimits) (ready : Prop) (s t : CamDirector) (asked : List CamRequest) : Prop :=
  ∃ more, t.ordered = s.ordered ++ more ∧ Answered limits ready asked more

/-- What the branches make of an attribute. -/
def Attr.orders (garbage : Nat) (a : Attr) : List CamRequest :=
  (["Start", "Stop"].flatMap fun name => if a.named name then [.home] else []) ++
    camBranches.flatMap fun b => if a.named b.name then [⟨b.cam, b.move (presetNumber garbage a), false⟩] else []

def OutMsg.orders (garbage : Nat) (o : OutMsg) : List CamRequest :=
  if o.cmd = commandInternal then o.args.flatMap fun arg => arg.attr.orders garbage else []

section
variable {limits : CamRole → CamLimits} {ready ready' : Prop} {asked asked' : List CamRequest} {ordered ordered' : List CamOrder}

theorem Answered.append (h : Answered limits ready asked ordered) (h' : Answered limits ready asked' ordered') :
    Answered limits ready (asked ++ asked') (ordered ++ ordered') := by
  induction h with
  | nil => exact h'
  | cons first _ ih => exact .cons first ih
  | skip recording early _ ih => exact .skip recording early ih

theorem Answered.mono (hready : ready' → ready) (h : Answered limits ready asked ordered) : Answered limits ready' asked ordered := by
  induction h with
  | nil => exact .nil
  | cons first _ ih => exact .cons first ih
  | skip recording early _ ih => exact .skip recording (fun h => early (hready h)) ih

end

namespace CamDirector
variable {limits : CamRole → CamLimits} {ready ready' : Prop} {signed : Bool} {s t u : CamDirector} {env : CamEnv} {a : Attr}
  {asked asked' : List CamRequest}

theorem Ordered.nil : Ordered limits ready s s [] := ⟨[], (List.append_nil _).symm, .nil⟩

theorem Ordered.append (h : Ordered limits ready s t asked) (h' : Ordered limits ready t u asked') :
    Ordered limits ready s u (asked ++ asked') := by
  obtain ⟨more, hmore, hall⟩ := h
  obtain ⟨more', hmore', hall'⟩ := h'
  exact ⟨more ++ more', by rw [hmore', hmore, List.append_assoc], hall.append hall'⟩

theorem Ordered.mono (hready : ready' → ready) (h : Ordered limits ready s t asked) : Ordered limits ready' s t asked := by
  obtain ⟨more, hmore, hall⟩ := h
  exact ⟨more, hmore, hall.mono hready⟩

/-- A loop whose passes order what their elements ask for. -/
theorem Ordered.exec {α : Type} {f : CamDirector → α → Option CamDirector} (asks : α → List CamRequest) {l : List α}
    (hstep : ∀ s t x, f s x = some t → Ordered limits ready s t (asks x)) (hexec : Exec.exec f s l = some t) :
    Ordered limits ready s t (l.flatMap asks) := by
  induction l generalizing s with
  | nil =>
    cases hexec
    exact .nil
  | cons x l ih =>
    obtain ⟨u, hu, hrest⟩ := exec_cons.mp hexec
    exact (hstep s u x hu).append (ih hrest)

theorem Ordered.order {r : CamRequest} {k : CamCommand} (hk : k = r.move.wanted (limits r.cam) (s.ctx r.cam).pos)
    (ho : s.order env r.cam k = some t) : Ordered limits ready s t [r] := by
  obtain ⟨c, hc, rfl⟩ := Option.map_eq_some_iff.mp ho
  exact ⟨_, rfl, .cons ⟨rfl, hk⟩ .nil⟩

theorem Ordered.onAttr (ha : s.onAttr limits env a = some t) : Ordered limits (env.ready = true) s t (a.orders env.garbage) := by
  obtain ⟨u, hu, ht⟩ := Option.bind_eq_some_iff.mp ha
  have hhome : Ordered limits (env.ready = true) s u _ :=
    Ordered.exec (f := home env a) (fun name => if a.named name then [.home] else []) (fun s t name hst => ?_) hu
  · refine hhome.append (Ordered.exec (f := branch limits env a) _ (fun s t b hst => ?_) ht)
    unfold branch at hst
    split at hst
    · next hnamed =>
      rw [if_pos hnamed]
      exact .order (CamMove.command_eq ..) hst
    · next hnamed =>
      rw [if_neg hnamed]
      cases hst
      exact .nil
  · unfold home at hst
    by_cases hnamed : a.named name = true
    · rw [if_pos hnamed]
      by_cases hready : env.ready = true
      · rw [if_pos ⟨hnamed, hready⟩] at hst
        exact .order rfl hst
      · rw [if_neg fun h => hready h.2] at hst
        cases hst
        exact ⟨[], (List.append_nil _).symm, .skip rfl hready .nil⟩
    · rw [if_neg fun h => hnamed h.1] at hst
      rw [if_neg hnamed]
      cases hst
      exact .nil

/-- An item of the FIFO that holds the message. -/
theorem Ordered.ctrl {o : OutMsg} {item : Mem} (hfits : o.Fits) (ho : o.Carried item) (hc : s.ctrl limits env item = some t) :
    Ordered limits (env.ready = true) s t (o.orders env.garbage) := by
  obtain ⟨hcmd, hattrs⟩ := ho.decode hfits
  unfold CamDirector.ctrl at hc
  unfold OutMsg.orders
  rw [hcmd, hattrs] at hc
  split at hc
  · next hint =>
    rw [if_pos hint]
    have hloop := Ordered.exec _ (fun s t a hst => Ordered.onAttr hst) hc
    rwa [List.flatMap_map] at hloop
  · next hint =>
    rw [if_neg hint]
    cases hc
    exact .nil

/-! ### No camera leaves its limits -/

theorem Inside.update {cam : CamRole} {c : CamholderCtx} {orders : List CamOrder} (h : s.Inside limits)
    (hc : c.toCameraHolder.Inside (limits cam)) : Inside limits ⟨Function.update s.ctx cam c, orders⟩ := by
  intro cam'
  change (Function.update s.ctx cam c cam').toCameraHolder.Inside _
  by_cases hcam : cam' = cam
  · subst hcam
    rw [Function.update_self]
    exact hc
  · rw [Function.update_of_ne hcam]
    exact h cam'

theorem Kept.order {cam : CamRole} {k : CamCommand} (h : s.Kept limits) (hk : (limits cam).Allows k)
    (ho : s.order env cam k = some t) : t.Kept limits := by
  obtain ⟨c, hc, rfl⟩ := Option.map_eq_some_iff.mp ho
  exact ⟨h.inside.update (CamholderCtx.command_inside (h.inside cam) hk hc),
    List.forall_mem_append.mpr ⟨h.allowed, List.forall_mem_singleton.mpr hk⟩⟩

theorem Kept.onAttr (hl : ∀ cam, (limits cam).Regular) (h : s.Kept limits) (ha : s.onAttr limits env a = some t) :
    t.Kept limits := by
  obtain ⟨u, hu, ht⟩ := Option.bind_eq_some_iff.mp ha
  have hhome : u.Kept limits := exec_invariant (fun s name t hs hst => ?_) h hu
  · refine exec_invariant (fun s b t hs hst => ?_) hhome ht
    unfold branch at hst
    split at hst
    · rw [CamMove.command_eq] at hst
      exact hs.order ((hs.inside b.cam).pos.allows (hl b.cam) _) hst
    · cases hst
      exact hs
  · unfold home at hst
    split at hst
    · have hfirst : (limits .teacher).Allows (.recall 0) := trivial
      exact hs.order hfirst hst
    · cases hst
      exact hs

theorem Kept.ctrl {item : Mem} (hl : ∀ cam, (limits cam).Regular) (h : s.Kept limits) (hc : s.ctrl limits env item = some t) :
    t.Kept limits := by
  unfold CamDirector.ctrl at hc
  split at hc
  · exact exec_invariant (fun s a t hs hst => hs.onAttr hl hst) h hc
  · cases hc
    exact h

end CamDirector

/-! ### What the instructor makes of a message -/

/-- The letters of the internal attribute for a movement and for a camera. -/
def CamMove.abbr : CamMove → String
  | .wide => "CZW"
  | .tele => "CZT"
  | .left => "CPTL"
  | .right => "CPTR"
  | .up => "CPTU"
  | .down => "CPTD"
  | .recall _ => "CMI"
  | .memSet _ => "CMS"

def CamRole.abbr : CamRole → String
  | .teacher => "T"
  | .student => "S"

/-- The movement with the number of a value. -/
def CamMove.withNum (num : Nat) : CamMove → CamMove
  | .recall _ => .recall num
  | .memSet _ => .memSet num
  | m => m

/-- Each movement of each camera has its branch. -/
theorem orders_abbr (garbage : Nat) (m : CamMove) (cam : CamRole) (name value : List UInt8)
    (hname : name = ascii m.abbr ++ ascii cam.abbr) :
    (Attr.mk name value).orders garbage = [⟨cam, m.withNum (presetNumber garbage ⟨name, value⟩), false⟩] := by
  generalize hnum : presetNumber garbage ⟨name, value⟩ = num
  unfold Attr.orders
  rw [hnum]
  cases m <;> cases cam <;> simp only [CamMove.abbr, CamRole.abbr] at hname <;> subst hname <;> rfl

/-- Without a movement or a camera there is no branch. -/
theorem orders_part (garbage : Nat) (m : Option CamMove) (cam : Option CamRole) (h : m = none ∨ cam = none) (name value : List UInt8)
    (hname : name = (m.map fun m => ascii m.abbr).getD [] ++ (cam.map fun c => ascii c.abbr).getD []) :
    (Attr.mk name value).orders garbage = [] := by
  rcases h with rfl | rfl
  · rcases cam with _ | _ | _ <;> subst hname <;> rfl
  · rcases m with _ | m
    · subst hname
      rfl
    · cases m <;> simp only [Option.map_some, Option.map_none, Option.getD_some, Option.getD_none, CamMove.abbr] at hname <;>
        subst hname <;> rfl

/-- What a camera function makes of an attribute is what the attribute asks for. -/
structure CamVerb.Means (v : CamVerb) : Prop where
  abbr : ∀ a : Attr, a.named v.attr = true → v.abbr a = a.camMove.map CamMove.abbr
  value : ∀ (a : Attr) (move : CamMove), a.named v.attr = true → a.camMove = some move →
    ∀ num, (v.keeps = true → num = hexNum (cstr a.value) % 256) → move.withNum num = move
  keeps : v.keeps = true → ∀ a : Attr, a.named v.attr = true →
    (a.named "CamMemoryInq" = true ∨ a.named "CamMemorySave" = true) ∧ a.camMove.isSome = true

theorem camMove_zoom {a : Attr} (h : a.named "CamZoom" = true) :
    a.camMove = if a.valued "Wide" then some .wide else if a.valued "Tele" then some .tele else none := if_pos h

theorem camMove_panTilt {a : Attr} (h : a.named "CamPanTilt" = true) :
    a.camMove = if a.valued "Left" then some .left else if a.valued "Right" then some .right
      else if a.valued "Up" then some .up else if a.valued "Down" then some .down else none := by
  have hne : ascii "CamPanTilt" ≠ ascii "CamZoom" := by decide
  rw [Attr.camMove, if_neg (Attr.not_named h hne), if_pos h]

theorem camMove_memoryInq {a : Attr} (h : a.named "CamMemoryInq" = true) :
    a.camMove = some (.recall (hexNum (cstr a.value) % 256)) := by
  have hne : ascii "CamMemoryInq" ≠ ascii "CamZoom" ∧ ascii "CamMemoryInq" ≠ ascii "CamPanTilt" := by decide
  rw [Attr.camMove, if_neg (Attr.not_named h hne.1), if_neg (Attr.not_named h hne.2), if_pos h]

theorem camMove_memorySave {a : Attr} (h : a.named "CamMemorySave" = true) :
    a.camMove = some (.memSet (hexNum (cstr a.value) % 256)) := by
  have hne : ascii "CamMemorySave" ≠ ascii "CamZoom" ∧ ascii "CamMemorySave" ≠ ascii "CamPanTilt" ∧
      ascii "CamMemorySave" ≠ ascii "CamMemoryInq" := by decide
  rw [Attr.camMove, if_neg (Attr.not_named h hne.1), if_neg (Attr.not_named h hne.2.1), if_neg (Attr.not_named h hne.2.2), if_pos h]

theorem camZoom2internal_means : camZoom2internal.Means := by
  refine ⟨fun a h => ?_, fun a move h hmove num _ => ?_, nofun⟩
  · rw [camMove_zoom h, camZoom2internal]
    dsimp only
    split_ifs <;> rfl
  · rw [camMove_zoom h] at hmove
    split_ifs at hmove <;> cases hmove <;> rfl

theorem camPanTilt2internal_means : camPanTilt2internal.Means := by
  refine ⟨fun a h => ?_, fun a move h hmove num _ => ?_, nofun⟩
  · rw [camMove_panTilt h, camPanTilt2internal]
    dsimp only
    split_ifs <;> rfl
  · rw [camMove_panTilt h] at hmove
    split_ifs at hmove <;> cases hmove <;> rfl

theorem camMemoryInq2internal_means : camMemoryInq2internal.Means := by
  refine ⟨fun a h => ?_, fun a move h hmove num hnum => ?_, fun _ a h => ⟨Or.inl h, ?_⟩⟩
  · rw [camMove_memoryInq h]
    rfl
  · rw [camMove_memoryInq h] at hmove
    cases hmove
    rw [hnum rfl]
    rfl
  · rw [camMove_memoryInq h]
    rfl

theorem camMemorySave2internal_means : camMemorySave2internal.Means := by
  refine ⟨fun a h => ?_, fun a move h hmove num hnum => ?_, fun _ a h => ⟨Or.inr h, ?_⟩⟩
  · rw [camMove_memorySave h]
    rfl
  · rw [camMove_memorySave h] at hmove
    cases hmove
    rw [hnum rfl]
    rfl
  · rw [camMove_memorySave h]
    rfl

section
variable {v : CamVerb} {m : Mem}

/-- The last movement named is the one whose letters are left in `cmd`. -/
theorem CamVerb.Means.foldl_cmd (hv : v.Means) (attrs : List Attr) :
    (attrs.foldl v.set ⟨[], [], []⟩).cmd =
      (((attrs.filter (·.named v.attr)).filterMap Attr.camMove).getLast?.map fun m => ascii m.abbr).getD [] := by
  rw [CamVerb.foldl_cmd]
  induction attrs using List.reverseRecOn with
  | nil => rfl
  | append_singleton attrs a ih =>
    rw [List.foldl_append, List.foldl_cons, List.foldl_nil, ih, List.filter_append, List.filterMap_append]
    by_cases hnamed : a.named v.attr = true
    · have hsingle : [a].filter (·.named v.attr) = [a] := List.filter_cons_of_pos hnamed
      rw [if_pos hnamed, hsingle, hv.abbr a hnamed]
      cases hmove : a.camMove with
      | none => simp [hmove]
      | some move => simp [hmove]
    · have hnone : [a].filter (·.named v.attr) = [] := List.filter_cons_of_neg hnamed
      rw [if_neg hnamed, hnone, List.filterMap_nil, List.append_nil]

/-- A last movement that is named is that of an attribute whose value is the one kept. -/
theorem CamVerb.Means.last (hv : v.Means) {attrs : List Attr} {move : CamMove}
    (hmove : ((attrs.filter (·.named v.attr)).filterMap Attr.camMove).getLast? = some move) :
    ∃ a ∈ attrs, a.named v.attr = true ∧ a.camMove = some move ∧
      (v.keeps = true → (attrs.foldl v.set ⟨[], [], []⟩).intvalue = cstr a.value) := by
  by_cases hkeeps : v.keeps = true
  · rw [CamVerb.foldl_intvalue hkeeps]
    rcases List.eq_nil_or_concat' (attrs.filter (·.named v.attr)) with hnil | ⟨init, a, hlast⟩
    · rw [hnil] at hmove
      cases hmove
    · obtain ⟨ha, hnamed⟩ := List.mem_filter.mp (hlast ▸ List.mem_append_right init (List.mem_singleton_self a))
      obtain ⟨move', hmove'⟩ := Option.isSome_iff_exists.mp (hv.keeps hkeeps a hnamed).2
      rw [hlast, List.filterMap_append] at hmove
      simp only [List.filterMap_cons, hmove', List.filterMap_nil, List.getLast?_concat] at hmove
      refine ⟨a, ha, hnamed, hmove'.trans hmove, fun _ => ?_⟩
      rw [hlast, List.getLast?_concat]
      rfl
  · obtain ⟨a, ha, hmove⟩ := List.mem_filterMap.mp (List.mem_of_getLast? hmove)
    obtain ⟨ha, hnamed⟩ := List.mem_filter.mp ha
    exact ⟨a, ha, hnamed, hmove, fun h => absurd h hkeeps⟩

/-- The message of a camera function orders what the attributes ask for under its name. -/
theorem CamVerb.Means.orders (hv : v.Means) (hm : Handleable m) (garbage : Nat) :
    (v.outMsg m).orders garbage = (camRequest (attrsOf m) v.attr).toList := by
  have hcmd := hv.foldl_cmd (attrsOf m)
  have hpara := CamVerb.foldl_para1 v (attrsOf m) ⟨[], [], []⟩
  have hlast : ∀ move, _ → _ := fun move => @CamVerb.Means.last v hv (attrsOf m) move
  unfold CamVerb.outMsg OutMsg.orders camRequest
  dsimp only
  rw [if_pos rfl, List.flatMap_cons, List.flatMap_nil, List.append_nil]
  generalize (attrsOf m).foldl v.set ⟨[], [], []⟩ = c at hcmd hpara hlast ⊢
  have hattr : ∃ value, (if v.keeps then AttrArg.char (c.cmd ++ c.para1) c.intvalue else .int (c.cmd ++ c.para1) 0).attr =
      ⟨c.cmd ++ c.para1, value⟩ ∧ (v.keeps = true → value = c.intvalue) := by
    split
    · exact ⟨_, rfl, fun _ => rfl⟩
    · next hkeeps => exact ⟨_, rfl, fun h => absurd h hkeeps⟩
  obtain ⟨value, hattr, hvalue⟩ := hattr
  rw [hattr]
  cases hc : ((attrsOf m).filter Attr.isCamera).getLast? with
  | none =>
    rw [hc] at hpara
    exact orders_part garbage _ none (Or.inr rfl) _ _ (congrArg₂ (· ++ ·) hcmd hpara)
  | some b =>
    rw [hc] at hpara
    have hcam : c.para1 = ascii (if b.valued "TeacherSpecial" then CamRole.teacher else .student).abbr := by
      rw [hpara]
      change (if b.valued "TeacherSpecial" then ascii "T" else ascii "S") = _
      split_ifs <;> rfl
    cases hmove : (((attrsOf m).filter (·.named v.attr)).filterMap Attr.camMove).getLast? with
    | none =>
      rw [hmove] at hcmd
      exact orders_part garbage none (some _) (Or.inl rfl) _ _ (congrArg₂ (· ++ ·) hcmd hcam)
    | some move =>
      rw [hmove] at hcmd
      obtain ⟨a, ha, hnamed, hmeant, hkept⟩ := hlast move hmove
      rw [orders_abbr garbage move _ _ _ (congrArg₂ (· ++ ·) hcmd hcam)]
      -- The number is read from the value, which is short.
      have hnum : v.keeps = true → presetNumber garbage ⟨c.cmd ++ c.para1, value⟩ = hexNum (cstr a.value) % 256 := by
        intro hkeeps
        have hshort : (cstr a.value).length ≤ 3 := hm.memory a ha (hv.keeps hkeeps a hnamed).1
        have hle : ¬(cstr a.value).length > 8 := by omega
        rw [hvalue hkeeps, hkept hkeeps, presetNumber, hexNum, char2hex, char2hex, if_neg hle, if_neg hle]
      rw [hv.value a move hnamed hmeant _ hnum]
      rfl

/-- What the instructor has sent orders what the operator asked for, whatever `number` held. -/
structure Instructor.Shows (s : Instructor) (op : Operator) : Prop where
  status : s.status = op.status
  asked : op.asked = s.sent.flatMap (OutMsg.orders 0)
  steady : ∀ o ∈ s.sent, ∀ garbage, o.orders garbage = o.orders 0

section
variable {s s' : Instructor} {op op' : Operator} {a : Attr} {env : InstructorEnv}

theorem Instructor.Shows.send (h : s.Shows op) (sent : List OutMsg) (parts : List (List CamRequest))
    (hparts : ∀ garbage, sent.map (OutMsg.orders garbage) = parts) (hsent : s'.sent = s.sent ++ sent)
    (hasked : op'.asked = op.asked ++ parts.flatten) (hstatus : s'.status = op'.status) : s'.Shows op' := by
  refine ⟨hstatus, ?_, ?_⟩
  · rw [hasked, hsent, List.flatMap_append, ← h.asked, List.flatMap_def, hparts]
  · rw [hsent]
    refine List.forall_mem_append.mpr ⟨h.steady, fun o ho garbage => ?_⟩
    exact List.map_inj_left.mp ((hparts garbage).trans (hparts 0).symm) o ho

/-- A message that orders nothing. -/
theorem Instructor.Shows.quiet (h : s.Shows op) {o : OutMsg} (ho : ∀ garbage, o.orders garbage = []) : (s.send [o]).Shows op :=
  h.send [o] [[]] (fun garbage => congrArg (fun x => [x]) (ho garbage)) rfl (List.append_nil _).symm h.status

theorem Instructor.Shows.camera {v : CamVerb} (h : s.Shows op) (hv : v.Means) (hm : Handleable m) :
    (s.send [v.outMsg m]).Shows (op.ask (camRequest (attrsOf m) v.attr).toList) := by
  refine h.send [v.outMsg m] [(camRequest (attrsOf m) v.attr).toList] (fun garbage => ?_) rfl ?_ h.status
  · rw [List.map_cons, List.map_nil, hv.orders hm]
  · rw [List.flatten_cons, List.flatten_nil, List.append_nil]
    rfl

theorem Operator.onAttr_verb {attrs : List Attr} {verb : String} (hmem : verb ∈ camVerbs) (ha : a.named verb = true) :
    op.onAttr attrs a = op.ask (camRequest attrs verb).toList := by
  have hne : ∀ verb ∈ camVerbs, ascii verb ≠ ascii "Start" ∧ ascii verb ≠ ascii "Stop" ∧
      ∀ name ∈ camVerbs, ascii name = ascii verb → name = verb := by decide
  obtain ⟨hstart, hstop, hinj⟩ := hne verb hmem
  have hfind : camVerbs.find? a.named = some verb := by
    cases hfind : camVerbs.find? a.named with
    | none => exact absurd ha (by simpa using List.find?_eq_none.mp hfind verb hmem)
    | some name =>
      have hname := Attr.named_iff.mp (List.find?_some hfind)
      rw [hinj name (List.mem_of_find?_eq_some hfind) (hname.symm.trans (Attr.named_iff.mp ha))]
  rw [onAttr, if_neg (Attr.not_named ha hstart), if_neg (Attr.not_named ha hstop), hfind]
  rfl

/-- An attribute under no name with which the operator moves a camera. -/
theorem Operator.onAttr_none {attrs : List Attr} (hstart : ¬a.named "Start" = true) (hstop : ¬a.named "Stop" = true)
    (hnone : ∀ verb ∈ camVerbs, ¬a.named verb = true) : op.onAttr attrs a = op := by
  rw [onAttr, if_neg hstart, if_neg hstop, List.find?_eq_none.mpr hnone, Option.bind_none, Option.toList_none, ask, List.append_nil]

theorem Operator.onAttr_other {attrs : List Attr} {name : String} (hmem : name ∈ ["Pause", "Resume", "SwitchVideo", "SetRecordMode"])
    (ha : a.named name = true) : op.onAttr attrs a = op := by
  have hne : ∀ name ∈ ["Pause", "Resume", "SwitchVideo", "SetRecordMode"],
      ascii name ≠ ascii "Start" ∧ ascii name ≠ ascii "Stop" ∧ ∀ verb ∈ camVerbs, ascii name ≠ ascii verb := by decide
  obtain ⟨hstart, hstop, hverb⟩ := hne name hmem
  exact onAttr_none (Attr.not_named ha hstart) (Attr.not_named ha hstop) fun verb h => Attr.not_named ha (hverb verb h)

theorem Instructor.Shows.pass (h : s.Shows op) {name : String} (hmem : name ∈ ["SwitchVideo", "SetRecordMode"])
    (ha : a.named name = true) : (s.send [⟨commandInternal, [.char (cstr a.name) (cstr a.value)]⟩]).Shows op := by
  refine h.quiet fun garbage => ?_
  rw [Attr.named_iff.mp ha]
  rcases List.mem_pair.mp hmem with rfl | rfl <;> rfl

theorem Instructor.Shows.onAttr (hm : Handleable m) (h : s.Shows op) : (s.onAttr env m a).Shows (op.onAttr (attrsOf m) a) := by
  by_cases hstart : a.named "Start" = true
  · rw [Instructor.onAttr, Operator.onAttr, if_pos hstart, if_pos hstart, h.status]
    split
    · exact h.send (startMsgs env) [[], [.home], [], []] (fun _ => rfl) rfl rfl rfl
    · exact h
  by_cases hstop : a.named "Stop" = true
  · rw [Instructor.onAttr, Operator.onAttr, if_neg hstart, if_neg hstart, if_pos hstop, if_pos hstop, h.status]
    split
    · exact h.send stopMsgs [[], [.home], []] (fun _ => rfl) rfl rfl rfl
    · exact h
  have hrest : ∀ verb ∈ camVerbs, a.named verb = true → ∀ v : CamVerb, v.Means → v.attr = verb →
      (s.send [v.outMsg m]).Shows (op.onAttr (attrsOf m) a) := by
    rintro _ hmem hnamed v hv rfl
    rw [Operator.onAttr_verb hmem hnamed]
    exact h.camera hv hm
  rw [Instructor.onAttr, if_neg hstart, if_neg hstop]
  by_cases hpause : a.named "Pause" = true
  · rw [if_pos hpause, Operator.onAttr_other (by simp) hpause]
    split
    · exact h.quiet fun _ => rfl
    · exact h
  rw [if_neg hpause]
  by_cases hresume : a.named "Resume" = true
  · rw [if_pos hresume, Operator.onAttr_other (by simp) hresume]
    split
    · exact h.quiet fun _ => rfl
    · exact h
  rw [if_neg hresume]
  by_cases hvideo : a.named "SwitchVideo" = true
  · rw [if_pos hvideo, Operator.onAttr_other (by simp) hvideo]
    exact h.pass (by simp) hvideo
  rw [if_neg hvideo]
  by_cases hmode : a.named "SetRecordMode" = true
  · rw [if_pos hmode, Operator.onAttr_other (by simp) hmode]
    exact h.pass (by simp) hmode
  rw [if_neg hmode]
  by_cases hzoom : a.named "CamZoom" = true
  · rw [if_pos hzoom]
    exact hrest _ (by simp [camVerbs]) hzoom _ camZoom2internal_means rfl
  rw [if_neg hzoom]
  by_cases hpan : a.named "CamPanTilt" = true
  · rw [if_pos hpan]
    exact hrest _ (by simp [camVerbs]) hpan _ camPanTilt2internal_means rfl
  rw [if_neg hpan]
  by_cases hinq : a.named "CamMemoryInq" = true
  · rw [if_pos hinq]
    exact hrest _ (by simp [camVerbs]) hinq _ camMemoryInq2internal_means rfl
  rw [if_neg hinq]
  by_cases hsave : a.named "CamMemorySave" = true
  · rw [if_pos hsave]
    exact hrest _ (by simp [camVerbs]) hsave _ camMemorySave2internal_means rfl
  rw [if_neg hsave, Operator.onAttr_none hstart hstop]
  · exact h
  · simp only [camVerbs, List.forall_mem_cons, List.not_mem_nil, false_imp_iff, implies_true, and_true]
    exact ⟨hzoom, hpan, hinq, hsave⟩

/-- After the messages the orders are what their attributes ask for. -/
theorem Instructor.Shows.run {msgs : List (InstructorEnv × Mem)} (hm : ∀ p ∈ msgs, Handleable p.2) (h : s.Shows op) :
    (s.run msgs).Shows ((msgs.map Prod.snd).foldl Operator.message op) := by
  rw [List.foldl_map]
  refine List.foldl_rel h fun p hp s op h => ?_
  unfold Instructor.instructorMsgHandle Operator.message
  split
  · exact List.foldl_rel h fun a _ s op h => h.onAttr (hm p hp)
  · exact h

end
end

/-! ### Runs -/

/-- Where a step is not an internal message, a position that a camera reports is one that it can take, and so is the position
    that it is sent to. -/
def CamDirectorAct.Safe (limits : CamRole → CamLimits) (s : CamDirector) (a : CamDirectorAct) (t : CamDirector) : Prop :=
  match a with
  | .message _ _ | .handle _ _ _ => True
  | .byte cam b => ∀ e, (s.ctx cam).completed b = some e → e.response = .ack .ptinq ∨ e.response = .ack .zoominq →
      (limits cam).Holds (t.ctx cam).pos
  | .command cam k _ _ => (limits cam).Allows k

/-- A message is handled when the teacher's camera is ready. -/
def CamDirectorAct.Ready : CamDirectorAct → Prop
  | .message _ env => env.ready = true
  | _ => True

namespace CamDirector
variable {limits : CamRole → CamLimits} {ready : Prop} {signed : Bool} {s t u : CamDirector} {act : CamDirectorAct}
  {acts : List CamDirectorAct} {sent : List OutMsg}

/-- A step that takes no message orders nothing. -/
theorem ordered_step (hs : s.step limits signed act = some t) (hitem : act.item? = none) : t.ordered = s.ordered := by
  cases act with
  | message item env => cases hitem
  | byte cam b =>
    obtain ⟨r, hr, rfl⟩ := Option.map_eq_some_iff.mp hs
    rfl
  | command cam k sec usec =>
    obtain ⟨c, hc, rfl⟩ := Option.map_eq_some_iff.mp hs
    rfl
  | handle cam sec usec =>
    cases hs
    rfl

theorem Kept.step (hl : ∀ cam, (limits cam).Regular) (h : s.Kept limits) (hs : s.step limits signed act = some t)
    (hsafe : act.Safe limits s t) : t.Kept limits := by
  cases act with
  | message item env => exact h.ctrl hl hs
  | byte cam b =>
    obtain ⟨⟨c, r⟩, hc, rfl⟩ := Option.map_eq_some_iff.mp hs
    refine ⟨h.inside.update (CamholderCtx.takeByte_inside (h.inside cam) hc fun e he hresp => ?_), h.allowed⟩
    have hpos : (limits cam).Holds (Function.update s.ctx cam c cam).pos := hsafe e he hresp
    rwa [Function.update_self] at hpos
  | command cam k sec usec =>
    obtain ⟨c, hc, rfl⟩ := Option.map_eq_some_iff.mp hs
    exact ⟨h.inside.update (CamholderCtx.command_inside (h.inside cam) hsafe hc), h.allowed⟩
  | handle cam sec usec =>
    cases hs
    refine ⟨h.inside.update ?_, h.allowed⟩
    rw [CamholderCtx.handle_holder]
    exact h.inside cam

/-- A run that takes items which hold the messages orders what the messages order. -/
theorem Ordered.run (hrun : Exec.exec (step limits signed) s acts = some t) (hfits : ∀ o ∈ sent, o.Fits)
    (hsteady : ∀ o ∈ sent, ∀ garbage, o.orders garbage = o.orders 0)
    (hitems : List.Forall₂ OutMsg.Carried sent (acts.filterMap CamDirectorAct.item?)) :
    Ordered limits (∀ a ∈ acts, a.Ready) s t (sent.flatMap (OutMsg.orders 0)) := by
  induction acts generalizing s sent with
  | nil =>
    cases hrun
    cases hitems
    exact .nil
  | cons act acts ih =>
    obtain ⟨u, hu, hrest⟩ := exec_cons.mp hrun
    have hmono : (∀ a ∈ act :: acts, a.Ready) → ∀ a ∈ acts, a.Ready := fun h a ha => h a (List.mem_cons_of_mem _ ha)
    cases hitem : act.item? with
    | none =>
      rw [List.filterMap_cons_none hitem] at hitems
      obtain ⟨more, hmore, hall⟩ := (ih hrest hfits hsteady hitems).mono hmono
      exact ⟨more, by rw [hmore, ordered_step hu hitem], hall⟩
    | some item =>
      rw [List.filterMap_cons_some hitem] at hitems
      cases hitems with
      | cons ho hitems =>
        rw [List.forall_mem_cons] at hfits hsteady
        cases act with
        | byte | command | handle => cases hitem
        | message item' env =>
          cases hitem
          have hfirst : Ordered limits (env.ready = true) _ _ _ := Ordered.ctrl hfits.1 ho hu
          rw [hsteady.1] at hfirst
          have hready : (∀ a ∈ .message item env :: acts, a.Ready) → env.ready = true := fun h => h _ (List.mem_cons_self ..)
          exact (hfirst.mono hready).append ((ih hrest hfits.2 hsteady.2 hitems).mono hmono)

/-- Whatever the operator sends, and whatever else happens to the cameras between: the messages that the director takes make it
    order what their attributes ask for, in that order and from where the cameras are. No camera is sent outside its limits
    unless one reports that it is outside or another command sends it there. -/
theorem obeys {msgs : List (InstructorEnv × Mem)} (hm : ∀ p ∈ msgs, Handleable p.2) (hordered : s.ordered = [])
    (hrun : Exec.exec (step limits signed) s acts = some t) (hsent : sent <+: (Instructor.start.run msgs).sent)
    (hitems : List.Forall₂ OutMsg.Carried sent (acts.filterMap CamDirectorAct.item?)) :
    (∃ asked, asked <+: Operator.asks (msgs.map Prod.snd) ∧
      (sent = (Instructor.start.run msgs).sent → asked = Operator.asks (msgs.map Prod.snd)) ∧
      Answered limits (∀ a ∈ acts, a.Ready) asked t.ordered) ∧
    ((∀ cam, (limits cam).Regular) → s.Inside limits →
      EveryStep (step limits signed) (fun s a t => a.Safe limits s t) s acts →
      t.Inside limits ∧ ∀ e ∈ t.ordered, (limits e.cam).Allows e.command) := by
  refine ⟨?_, fun hl h hsafe => ?_⟩
  · have hshows : (Instructor.start.run msgs).Shows ((msgs.map Prod.snd).foldl Operator.message ⟨.idle, []⟩) :=
      Instructor.Shows.run hm ⟨rfl, rfl, List.forall_mem_nil _⟩
    have hfits := Instructor.run_fits (s := Instructor.start) (List.forall_mem_nil _) hm
    obtain ⟨more, hmore, hanswered⟩ := Ordered.run hrun (fun o ho => hfits o (hsent.subset ho))
      (fun o ho => hshows.steady o (hsent.subset ho)) hitems
    rw [hordered, List.nil_append] at hmore
    subst hmore
    obtain ⟨rest, hrest⟩ := hsent
    refine ⟨_, ?_, fun hall => ?_, hanswered⟩
    · rw [Operator.asks, hshows.asked, ← hrest, List.flatMap_append]
      exact List.prefix_append ..
    · rw [Operator.asks, hshows.asked, hall]
  · have hstart : s.Kept limits := ⟨h, hordered ▸ List.forall_mem_nil _⟩
    have hkept : t.Kept limits := hsafe.invariant (fun s a t hs hst hsafe => hs.step hl hst hsafe) hstart hrun
    exact ⟨hkept.inside, hkept.allowed⟩

end CamDirector

/-- The operator zooms in with the teacher's camera. -/
def teleRequest : Mem :=
  twoAttrMsg "ffff" "0029" ⟨0x37, ascii "0004", ascii "CamZoom", ascii "Tele"⟩
    ⟨0x36, ascii "000e", ascii "Camera", ascii "TeacherSpecial"⟩

theorem teleRequest_attrs : attrsOf teleRequest = [⟨ascii "CamZoom", ascii "Tele"⟩, ⟨ascii "Camera", ascii "TeacherSpecial"⟩] := by
  decide +kernel

theorem teleRequest_handleable : Handleable teleRequest := by
  refine ⟨⟨[⟨0x37, ascii "0004", ascii "CamZoom", ascii "Tele"⟩, ⟨0x36, ascii "000e", ascii "Camera", ascii "TeacherSpecial"⟩],
    ?_, ?_⟩, ?_, ?_, ?_⟩
  · exact List.forall_mem_cons.mpr ⟨⟨rfl, by decide, by decide⟩, List.forall_mem_singleton.mpr ⟨rfl, by decide, by decide⟩⟩
  · decide +kernel
  all_goals
    rw [teleRequest_attrs]
    decide

/-- Both cameras near the end of their zoom. -/
def zoomedIn : CamDirector where
  ctx _ := ⟨⟨⟨0, 0, 16300⟩, ⟨0, 0, 16300⟩, .replicate 16 ⟨0, 0, 0⟩⟩, .replicate 16 0, 0, 0, 0, 0, 0⟩
  ordered := []

theorem zoomedIn_inside : zoomedIn.Inside fun _ => cameraHolderInit := by
  intro cam
  have hhome : cameraHolderInit.Holds ⟨0, 0, 0⟩ := ⟨by decide, by decide, by decide⟩
  have hpos : cameraHolderInit.Holds ⟨0, 0, 16300⟩ := ⟨by decide, by decide, by decide⟩
  refine ⟨hpos, hpos, fun i => ?_⟩
  have hget : (Vector.replicate 16 (⟨0, 0, 0⟩ : PresetPos)).get i = ⟨0, 0, 0⟩ := Vector.getElem_replicate i.isLt
  exact hget ▸ hhome

theorem teleRequest_asks : Operator.asks [teleRequest] = [⟨.teacher, .tele, false⟩] := by
  have hserver : msgCmd teleRequest = commandServer := by decide +kernel
  rw [Operator.asks, List.foldl_cons, List.foldl_nil, Operator.message, if_pos hserver, teleRequest_attrs]
  rfl

/-- The one step that was asked for is ordered, although a whole one does not fit any more. -/
theorem CamDirector.obeys_tele : ∃ item t,
    Exec.exec (step (fun _ => cameraHolderInit) true) zoomedIn [.message item ⟨false, 0, 0, 0⟩] = some t ∧
      t.ordered = [⟨.teacher, ⟨0, 0, 16300⟩, .zoomDirect 16384⟩] ∧
      Answered (fun _ => cameraHolderInit) (∀ a ∈ [CamDirectorAct.message item ⟨false, 0, 0, 0⟩], a.Ready)
        [⟨.teacher, .tele, false⟩] t.ordered ∧
      t.Inside fun _ => cameraHolderInit := by
  have hm : ∀ p ∈ [((⟨-1, -1, -1, -1, 0, 25, 4, 1⟩ : InstructorEnv), teleRequest)], Handleable p.2 :=
    List.forall_mem_singleton.mpr teleRequest_handleable
  have hsent : (Instructor.start.run [(⟨-1, -1, -1, -1, 0, 25, 4, 1⟩, teleRequest)]).sent = [camZoom2internal.outMsg teleRequest] := by
    have hserver : msgCmd teleRequest = commandServer := by decide +kernel
    rw [Instructor.run, List.foldl_cons, List.foldl_nil, Instructor.instructorMsgHandle, if_pos hserver, teleRequest_attrs]
    rfl
  have hfits := CamVerb.outMsg_fits camZoom2internal_abbreviates teleRequest_handleable
  obtain ⟨item, hitem⟩ := hfits.carried
  obtain ⟨hcmd, hattrs⟩ := hitem.decode hfits
  have hrun : ∃ t, Exec.exec (step (fun _ => cameraHolderInit) true) zoomedIn [.message item ⟨false, 0, 0, 0⟩] = some t ∧
      t.ordered = [⟨.teacher, ⟨0, 0, 16300⟩, .zoomDirect 16384⟩] := by
    rw [exec_singleton, step, ctrl, if_pos (show msgCmd item = commandInternal from hcmd), hattrs, CamVerb.outMsg, teleRequest_attrs]
    exact ⟨_, rfl, rfl⟩
  obtain ⟨t, hrun, hordered⟩ := hrun
  have hregular : ∀ _ : CamRole, cameraHolderInit.Regular := fun _ => ⟨by decide, by decide, by decide⟩
  obtain ⟨⟨asked, -, hall, hanswered⟩, hkept⟩ := obeys hm rfl hrun List.prefix_rfl (hsent ▸ .cons hitem .nil)
  rw [hall rfl, List.map_cons, List.map_nil, teleRequest_asks] at hanswered
  exact ⟨item, t, hrun, hordered, hanswered, (hkept hregular zoomedIn_inside fun _ _ => ⟨trivial, trivial⟩).1⟩

end Recbcsrv
