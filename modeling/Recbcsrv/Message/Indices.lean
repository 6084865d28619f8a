import Mathlib.Data.Vector.Basic
import Recbcsrv.Lib.Exec
import Recbcsrv.Message.Detect

/-! Numbers of messages that index tables: the channel of an auxiliary event (`GetAuxResult`), and the preset of a camera
    command on its way from the instructor to `Recall` and `MemSet`. Neither is compared with the size of its table. -/

namespace Recbcsrv
open Bytes

/-! ### The auxiliary event -/

/-- `t_aux_camera_param`. -/
structure AuxCameraParam where
  targetNum : Nat
  maxTop : Nat
  maxLeft : Nat
  maxBottom : Nat
  maxRight : Nat
  deriving DecidableEq, Repr

/-- `t_aux_result`. -/
structure AuxResult where
  aux : Vector AuxCameraParam 2
  studentInStanding : Nat

/-- The variables of the loop of `GetAuxResult`. -/
structure AuxLoop where
  channel : Nat
  aux : Vector AuxCameraParam 2

/-- The attributes that are stored in `aux[channel]`. -/
def Attr.isAuxField (a : Attr) : Bool := ["Targets", "MaxTop", "MaxLeft", "MaxBottom", "MaxRight"].any a.named

def AuxCameraParam.set (p : AuxCameraParam) (a : Attr) : AuxCameraParam where
  targetNum := a.readInto "Targets" p.targetNum
  maxTop := a.readInto "MaxTop" p.maxTop
  maxLeft := a.readInto "MaxLeft" p.maxLeft
  maxBottom := a.readInto "MaxBottom" p.maxBottom
  maxRight := a.readInto "MaxRight" p.maxRight

/-- The body of the loop of `GetAuxResult`; there is no result when the table does not have the channel. -/
def AuxLoop.onAttr (s : AuxLoop) (a : Attr) : Option AuxLoop :=
  let channel := a.readInto "Channel" s.channel
  if a.isAuxField then
    if h : channel < 2 then some ⟨channel, s.aux.set channel (s.aux[channel].set a)⟩ else none
  else some ⟨channel, s.aux⟩

/-- The difference of two ints. -/
def intDiff (a b : Nat) : Int := (BitVec.ofNat 32 a - BitVec.ofNat 32 b).toInt

/-- `student_in_standing` from the two cameras. -/
def studentInStanding (aux : Vector AuxCameraParam 2) : Nat :=
  let product := aux[0].targetNum * aux[1].targetNum % 2 ^ 32
  if product = 0 then 0
  else if product = 1 then
    if intDiff aux[0].maxRight aux[0].maxLeft > 240 ∧ intDiff aux[1].maxRight aux[1].maxLeft > 240 then 2 else 1
  else 2

def getAuxResult (m : Mem) : Option AuxResult :=
  (Exec.exec AuxLoop.onAttr ⟨0, .replicate 2 ⟨0, 0, 0, 0, 0⟩⟩ (attrsOf m)).map fun s => ⟨s.aux, studentInStanding s.aux⟩

/-- The attributes lie inside the event, and their names and values fit the buffers of `GetAuxResult`. -/
structure AuxReadable (m : Mem) : Prop where
  body : WellFormedBody (load m packetHeaderSize (msgLen m))
  name : ∀ a ∈ attrsOf m, a.name.length ≤ 15
  value : ∀ a ∈ attrsOf m, a.value.length ≤ 15

/-- The attributes with the name whose value `char2hex` takes. -/
def hexAttrs (name : String) (attrs : List Attr) : List Attr := attrs.filter fun a => a.named name && a.value.length ≤ 8

/-- Every attribute for the table comes after no channel, or the last channel before it is 0 or 1. -/
def ChannelsInside (attrs : List Attr) : Prop :=
  ∀ pre a post, attrs = pre ++ a :: post → a.isAuxField = true →
    ∀ c, (hexAttrs "Channel" pre).getLast? = some c → hexNum c.value < 2

/-! ### The presets of the cameras -/

/-- `t_preset_pos`. -/
structure PresetPos where
  pan : Int
  tilt : Int
  zoom : Int
  deriving DecidableEq, Repr

/-- The fields of `t_camera_holder` that `Recall` and `MemSet` use. -/
structure CameraHolder where
  pos : PresetPos
  target : PresetPos
  preset : Vector PresetPos 16

/-- `Recall`; there is no result when the table does not have the preset. -/
def CameraHolder.recall (c : CameraHolder) (num : Nat) : Option CameraHolder :=
  if h : num < 16 then some { c with target := c.preset[num] } else none

/-- `MemSet`; there is no result when the table does not have the preset. -/
def CameraHolder.memSet (c : CameraHolder) (num : Nat) : Option CameraHolder :=
  if h : num < 16 then some { c with preset := c.preset.set num c.pos, target := c.pos } else none

/-- The two cameras of `thread_SwitchTracking`. -/
structure CameraHolders where
  teacher : CameraHolder
  student : CameraHolder

/-- The number that a camera is called with: `char2hex` into an uninitialised variable, cut to an `unsigned char`. -/
def presetNumber (garbage : Nat) (a : Attr) : Nat := (char2hex a.value garbage).1 % 256

/-- The branches `CMIT`, `CMST`, `CMIS` and `CMSS` of `thread_SwitchTracking`. -/
def CameraHolders.onAttr (garbage : Nat) (s : CameraHolders) (a : Attr) : Option CameraHolders := do
  let s ← if a.named "CMIT" then (s.teacher.recall (presetNumber garbage a)).map ({ s with teacher := · }) else some s
  let s ← if a.named "CMST" then (s.teacher.memSet (presetNumber garbage a)).map ({ s with teacher := · }) else some s
  let s ← if a.named "CMIS" then (s.student.recall (presetNumber garbage a)).map ({ s with student := · }) else some s
  if a.named "CMSS" then (s.student.memSet (presetNumber garbage a)).map ({ s with student := · }) else some s

/-- The camera commands of a message that `thread_SwitchTracking` takes from `Ctrl_consumer_fifo`. -/
def CameraHolders.ctrl (garbage : Nat) (s : CameraHolders) (m : Mem) : Option CameraHolders :=
  if msgCmd m = commandInternal then Exec.exec (onAttr garbage) s (attrsOf m) else some s

/-- What the functions that keep the value of an attribute do with it. -/
def memoryVerbs : List CamVerb := [camMemoryInq2internal, camMemorySave2internal]

/-- The message names one of the two cameras. -/
def NamesCamera (attrs : List Attr) : Prop :=
  ∃ a ∈ attrs, a.named "Camera" = true ∧ (a.valued "TeacherSpecial" = true ∨ a.valued "StudentSpecial" = true)

/-- When the message names a camera, the last value of each of its memory commands is, cut to 8 bits, below 16. -/
def PresetsInside (attrs : List Attr) : Prop :=
  NamesCamera attrs → ∀ v ∈ memoryVerbs, ∀ a, (attrs.filter (·.named v.attr)).getLast? = some a →
    hexNum (cstr a.value) % 256 < 16

section
variable {attrs pre post : List Attr} {a : Attr} {m : Mem} {s t : AuxLoop} {c : Nat} {name : String}

/-- A loop that overwrites its variable at some elements leaves what the last of them gives. -/
theorem foldl_overwrite {α β : Type} {f : β → α → β} {p : α → Bool} {g : α → β} (h : ∀ b a, f b a = if p a then g a else b)
    (l : List α) (b : β) : l.foldl f b = ((l.filter p).getLast?.map g).getD b := by
  induction l using List.reverseRecOn with
  | nil => rfl
  | append_singleton l a ih =>
    rw [List.foldl_append, ih, List.filter_append]
    change f _ a = _
    rw [h]
    cases hp : p a with
    | true =>
      rw [if_pos rfl, List.filter_cons_of_pos hp, List.filter_nil, List.getLast?_concat]
      rfl
    | false =>
      rw [if_neg (by decide), List.filter_cons_of_neg (by simp [hp]), List.filter_nil, List.append_nil]

theorem foldl_readInto : attrs.foldl (fun c a => a.readInto name c) c =
    ((hexAttrs name attrs).getLast?.map fun a => hexNum a.value).getD c := by
  refine foldl_overwrite (fun c a => ?_) attrs c
  unfold Attr.readInto
  by_cases hn : a.named name = true
  · by_cases hl : a.value.length ≤ 8
    · rw [if_pos hn, if_pos (by simp [hn, hl]), hexNum, char2hex, char2hex, if_neg (by omega), if_neg (by omega)]
    · rw [if_pos hn, if_neg (by simp [hl]), char2hex, if_pos (by omega)]
  · rw [if_neg hn, if_neg (by simp [hn])]

theorem AuxLoop.onAttr_channel (h : s.onAttr a = some t) : t.channel = a.readInto "Channel" s.channel := by
  unfold onAttr at h
  dsimp only at h
  split_ifs at h <;> cases h <;> rfl

theorem AuxLoop.exec_channel (h : Exec.exec onAttr s attrs = some t) :
    t.channel = attrs.foldl (fun c a => a.readInto "Channel" c) s.channel := by
  induction attrs generalizing s with
  | nil =>
    cases h
    rfl
  | cons a attrs ih =>
    obtain ⟨u, hu, ht⟩ := Exec.exec_cons.mp h
    rw [ih ht, onAttr_channel hu]
    rfl

theorem AuxLoop.onAttr_isSome : (s.onAttr a).isSome ↔ (a.isAuxField = true → a.readInto "Channel" s.channel < 2) := by
  unfold onAttr
  dsimp only
  by_cases hfield : a.isAuxField = true
  · by_cases hchannel : a.readInto "Channel" s.channel < 2 <;> simp [hfield, hchannel]
  · simp [hfield]

/-- An attribute for the table does not change the channel. -/
theorem Attr.isAuxField.readInto (h : a.isAuxField = true) : a.readInto "Channel" c = c := by
  have hne : ∀ n ∈ ["Targets", "MaxTop", "MaxLeft", "MaxBottom", "MaxRight"], ascii n ≠ ascii "Channel" := by decide
  obtain ⟨n, hn, hnamed⟩ := List.any_eq_true.mp h
  refine if_neg fun hchannel => hne n hn ?_
  exact (Attr.named_iff.mp hnamed).symm.trans (Attr.named_iff.mp hchannel)

/-- `GetAuxResult` stays inside the table exactly when the channels of the event do. -/
theorem getAuxResult_isSome : (getAuxResult m).isSome ↔ ChannelsInside (attrsOf m) := by
  have hlast : ∀ pre : List Attr, pre.foldl (fun c a => a.readInto "Channel" c) 0 < 2 ↔
      ∀ c, (hexAttrs "Channel" pre).getLast? = some c → hexNum c.value < 2 := by
    intro pre
    rw [foldl_readInto]
    cases (hexAttrs "Channel" pre).getLast? <;> simp
  rw [getAuxResult, Option.isSome_map, Exec.exec_isSome_iff]
  constructor
  · intro hall pre a post hattrs hfield
    -- The loop goes through up to `a`, so its channel there is known.
    have hpre : (Exec.exec AuxLoop.onAttr ⟨0, .replicate 2 ⟨0, 0, 0, 0, 0⟩⟩ pre).isSome := by
      refine Exec.exec_isSome_iff.mpr fun pre' a' post' t ha' ht => hall pre' a' (post' ++ a :: post) t ?_ ht
      rw [hattrs, ha', List.append_assoc, List.cons_append]
    obtain ⟨t, ht⟩ := Option.isSome_iff_exists.mp hpre
    have hchannel := AuxLoop.onAttr_isSome.mp (hall pre a post t hattrs ht) hfield
    rw [Attr.isAuxField.readInto hfield, AuxLoop.exec_channel ht] at hchannel
    exact (hlast pre).mp hchannel
  · intro hinside pre a post t hattrs ht
    refine AuxLoop.onAttr_isSome.mpr fun hfield => ?_
    rw [Attr.isAuxField.readInto hfield, AuxLoop.exec_channel ht]
    exact (hlast pre).mpr (hinside pre a post hattrs hfield)

end

/-! ### From the instructor to the table -/

/-- The names of the commands with a preset. -/
def presetNames : List String := ["CMIT", "CMST", "CMIS", "CMSS"]

/-- No attribute of the message makes `thread_SwitchTracking` use a preset. -/
def OutMsg.Harmless (o : OutMsg) : Prop :=
  o.cmd = commandInternal → ∀ a ∈ o.args, ∀ n ∈ presetNames, a.attr.named n = false

section
variable {garbage : Nat} {s : CameraHolders} {a : Attr} {attrs : List Attr} {o : OutMsg} {m item : Mem} {v : CamVerb}
  {env : InstructorEnv} {st : Instructor}

theorem CameraHolders.onAttr_isSome : (s.onAttr garbage a).isSome ↔
    (presetNames.any a.named = true → presetNumber garbage a < 16) := by
  have hany : presetNames.any a.named = true ↔
      a.named "CMIT" = true ∨ a.named "CMST" = true ∨ a.named "CMIS" = true ∨ a.named "CMSS" = true := by
    simp [presetNames]
  rw [hany]
  unfold onAttr CameraHolder.recall CameraHolder.memSet
  by_cases hnum : presetNumber garbage a < 16
  · simp only [hnum, dite_true, Option.map_some, implies_true, iff_true]
    split_ifs <;> rfl
  · simp only [hnum, dite_false, Option.map_none, imp_false, not_or]
    split_ifs <;> simp_all

theorem OutMsg.Harmless.ctrl (h : o.Harmless) (hfits : o.Fits) (ho : o.Carried item) : (s.ctrl garbage item).isSome := by
  obtain ⟨hcmd, hattrs⟩ := ho.decode hfits
  unfold CameraHolders.ctrl
  split
  · next hint =>
    refine Exec.exec_isSome_iff.mpr fun pre a post t hmem _ => CameraHolders.onAttr_isSome.mpr fun hany => ?_
    have ha : a ∈ o.args.map AttrArg.attr := by
      rw [← hattrs, hmem]
      simp
    obtain ⟨arg, harg, rfl⟩ := List.mem_map.mp ha
    obtain ⟨n, hn, hnamed⟩ := List.any_eq_true.mp hany
    rw [h (hcmd.symm.trans hint) arg harg n hn] at hnamed
    cases hnamed
  · rfl

/-! ### The camera functions -/

theorem CamVerb.foldl_cmd (v : CamVerb) (attrs : List Attr) (c : InternalAbbrCmd) :
    (attrs.foldl v.set c).cmd = attrs.foldl (fun c a => if a.named v.attr then ((v.abbr a).map ascii).getD c else c) c.cmd := by
  refine (List.foldl_hom InternalAbbrCmd.cmd fun c a => ?_).symm
  unfold set setAbbr InternalAbbrCmd.setCamera
  split_ifs <;> rfl

theorem CamVerb.foldl_intvalue (hv : v.keeps = true) (attrs : List Attr) (c : InternalAbbrCmd) :
    (attrs.foldl v.set c).intvalue =
      ((attrs.filter (·.named v.attr)).getLast?.map fun a => cstr a.value).getD c.intvalue := by
  rw [← foldl_overwrite (f := fun c a => if a.named v.attr then cstr a.value else c) (fun _ _ => rfl)]
  refine (List.foldl_hom InternalAbbrCmd.intvalue fun c a => ?_).symm
  unfold set setAbbr InternalAbbrCmd.setCamera
  simp only [hv, if_true]
  split_ifs <;> rfl

/-- The attribute names one of the two cameras. -/
def Attr.isCamera (a : Attr) : Bool := a.named "Camera" && (a.valued "TeacherSpecial" || a.valued "StudentSpecial")

theorem namesCamera_iff : NamesCamera attrs ↔ ∃ a ∈ attrs, a.isCamera = true := by
  simp only [NamesCamera, Attr.isCamera, Bool.and_eq_true, Bool.or_eq_true]

theorem CamVerb.foldl_para1 (v : CamVerb) (attrs : List Attr) (c : InternalAbbrCmd) :
    (attrs.foldl v.set c).para1 = ((attrs.filter Attr.isCamera).getLast?.map fun a =>
      if a.valued "TeacherSpecial" then ascii "T" else ascii "S").getD c.para1 := by
  rw [← foldl_overwrite
    (f := fun c a => if a.isCamera then if a.valued "TeacherSpecial" then ascii "T" else ascii "S" else c) (fun _ _ => rfl)]
  refine (List.foldl_hom InternalAbbrCmd.para1 fun c a => ?_).symm
  have hset : (v.setAbbr c a).para1 = c.para1 := by
    unfold setAbbr
    split_ifs <;> rfl
  unfold set InternalAbbrCmd.setCamera Attr.isCamera
  cases hn : a.named "Camera" <;> cases ht : a.valued "TeacherSpecial" <;> cases hs : a.valued "StudentSpecial" <;> simp [hset]

theorem CamVerb.foldl_para1_mem (v : CamVerb) (attrs : List Attr) :
    (attrs.foldl v.set ⟨[], [], []⟩).para1 ∈ [[], ascii "T", ascii "S"] := by
  rw [foldl_para1]
  cases (attrs.filter Attr.isCamera).getLast? with
  | none => simp
  | some a => by_cases h : a.valued "TeacherSpecial" = true <;> simp [h]

theorem CamVerb.foldl_cmd_mem {l : List String} (hl : ∀ a s, v.abbr a = some s → s ∈ l) (attrs : List Attr) :
    (attrs.foldl v.set ⟨[], [], []⟩).cmd ∈ [] :: l.map ascii := by
  rw [foldl_cmd]
  refine List.foldlRecOn attrs _ (List.mem_cons_self ..) fun c hc a _ => ?_
  split
  · cases hs : v.abbr a with
    | none => exact hc
    | some s => exact List.mem_cons_of_mem _ (List.mem_map_of_mem (hl a s hs))
  · exact hc

/-- A camera function whose abbreviations are no commands with a preset. -/
theorem CamVerb.outMsg_harmless {l : List String} (hv : v.Abbreviates) (hl : ∀ a s, v.abbr a = some s → s ∈ l)
    (hne : ∀ c ∈ [] :: l.map ascii, ∀ p ∈ [[], ascii "T", ascii "S"], ∀ n ∈ presetNames, c ++ p ≠ ascii n) :
    (v.outMsg m).Harmless := by
  intro _ arg harg n hn
  rw [← Bool.not_eq_true, Attr.named_iff, outMsg_name hv m arg harg]
  exact hne _ (foldl_cmd_mem hl (attrsOf m)) _ (v.foldl_para1_mem (attrsOf m)) n hn

/-- A function that keeps the value: its attribute is always abbreviated by the same letters, with which a camera
    makes a command with a preset. -/
structure CamVerb.IsMemory (v : CamVerb) (abbr : String) : Prop where
  keeps : v.keeps = true
  always : ∀ a, v.abbr a = some abbr
  named : ∀ a : Attr, a.named v.attr = true → a.named "CamMemoryInq" = true ∨ a.named "CamMemorySave" = true
  noNul : 0 ∉ ascii abbr
  plain : ∀ n ∈ presetNames, ascii abbr ≠ ascii n
  teacher : ∃ n ∈ presetNames, ascii abbr ++ ascii "T" = ascii n
  student : ∃ n ∈ presetNames, ascii abbr ++ ascii "S" = ascii n

theorem memoryVerbs_isMemory : ∀ v ∈ memoryVerbs, v.Abbreviates ∧ ∃ abbr, v.IsMemory abbr := by
  simp only [memoryVerbs, List.forall_mem_cons, List.not_mem_nil, false_imp_iff, implies_true, and_true]
  refine ⟨⟨camMemoryInq2internal_abbreviates, "CMI", ?_⟩, camMemorySave2internal_abbreviates, "CMS", ?_⟩
  · exact ⟨rfl, fun _ => rfl, fun _ h => .inl h, by decide, by decide, by decide, by decide⟩
  · exact ⟨rfl, fun _ => rfl, fun _ h => .inr h, by decide, by decide, by decide, by decide⟩

/-- The message of a memory command uses the preset of the last value exactly when a camera is named. -/
theorem CamVerb.outMsg_ctrl (hm : Handleable m) (hmem : v ∈ memoryVerbs)
    (hlast : ((attrsOf m).filter (·.named v.attr)).getLast? = some a) (ho : (v.outMsg m).Carried item) :
    (s.ctrl garbage item).isSome ↔ (NamesCamera (attrsOf m) → hexNum (cstr a.value) % 256 < 16) := by
  obtain ⟨hv, abbr, hmemory⟩ := memoryVerbs_isMemory v hmem
  obtain ⟨ha, hnamed⟩ := List.mem_filter.mp (List.mem_of_getLast? hlast)
  obtain ⟨hcmd, hattrs⟩ := ho.decode (outMsg_fits hv hm)
  have hvalue : ((attrsOf m).foldl v.set ⟨[], [], []⟩).intvalue = cstr a.value := by
    rw [foldl_intvalue hmemory.keeps, hlast]
    rfl
  have habbr : ((attrsOf m).foldl v.set ⟨[], [], []⟩).cmd = ascii abbr := by
    have hover := foldl_overwrite (f := fun c a => if a.named v.attr then ((v.abbr a).map ascii).getD c else c)
      (p := (·.named v.attr)) (g := fun _ => ascii abbr) (fun c b => by rw [hmemory.always]; rfl) (attrsOf m) []
    rw [foldl_cmd, hover, hlast]
    rfl
  have hpara : ((attrsOf m).foldl v.set ⟨[], [], []⟩).para1 = ascii "T" ∨
      ((attrsOf m).foldl v.set ⟨[], [], []⟩).para1 = ascii "S" ↔ NamesCamera (attrsOf m) := by
    rw [namesCamera_iff, foldl_para1]
    cases hc : ((attrsOf m).filter Attr.isCamera).getLast? with
    | none =>
      refine iff_of_false (by simp only [Option.map_none, Option.getD_none]; decide) ?_
      rintro ⟨b, hb, hcamera⟩
      have hnil := List.getLast?_eq_none_iff.mp hc
      exact List.not_mem_nil (hnil ▸ List.mem_filter.mpr ⟨hb, hcamera⟩)
    | some b =>
      refine iff_of_true ?_ ⟨b, List.mem_filter.mp (List.mem_of_getLast? hc)⟩
      by_cases ht : b.valued "TeacherSpecial" = true <;> simp [ht]
  have hshort : (cstr a.value).length ≤ 3 := hm.memory a ha (hmemory.named a hnamed)
  have hnumber : ∀ name, presetNumber garbage ⟨name, cstr a.value⟩ = hexNum (cstr a.value) % 256 := by
    intro name
    have hle : ¬(cstr a.value).length > 8 := by omega
    rw [presetNumber, hexNum, char2hex, char2hex, if_neg hle, if_neg hle]
  have hone : attrsOf item =
      [⟨ascii abbr ++ ((attrsOf m).foldl v.set ⟨[], [], []⟩).para1, cstr a.value⟩] := by
    rw [hattrs, outMsg, hvalue, habbr, if_pos hmemory.keeps]
    rfl
  have hrun : (s.ctrl garbage item).isSome ↔
      (presetNames.any (Attr.mk (ascii abbr ++ ((attrsOf m).foldl v.set ⟨[], [], []⟩).para1) (cstr a.value)).named = true →
        hexNum (cstr a.value) % 256 < 16) := by
    rw [CameraHolders.ctrl, if_pos (show msgCmd item = commandInternal from hcmd), hone, Exec.exec, ← hnumber,
      ← CameraHolders.onAttr_isSome (s := s)]
    cases s.onAttr garbage _ <;> rfl
  rw [hrun, ← hpara]
  refine imp_congr_left ?_
  have hnul : 0 ∉ ascii abbr ++ ((attrsOf m).foldl v.set ⟨[], [], []⟩).para1 := by
    rw [List.mem_append]
    exact not_or.mpr ⟨hmemory.noNul, (foldl_plain hv (attrsOf m)).para1Nul⟩
  simp only [List.any_eq_true, Attr.named_iff, cstr_eq hnul]
  have hmem3 := v.foldl_para1_mem (attrsOf m)
  simp only [List.mem_cons, List.not_mem_nil, or_false] at hmem3
  rcases hmem3 with h | h | h
  · rw [h, List.append_nil]
    refine iff_of_false ?_ (by decide)
    rintro ⟨n, hn, he⟩
    exact hmemory.plain n hn he
  · rw [h]
    exact iff_of_true hmemory.teacher (.inl rfl)
  · rw [h]
    exact iff_of_true hmemory.student (.inr rfl)

/-! ### What the instructor thread sends -/

/-- The messages that an attribute adds: memory commands for their own attributes, and otherwise harmless ones. -/
structure Instructor.Adds (m : Mem) (s : Instructor) (a : Attr) (s' : Instructor) (more : List OutMsg) : Prop where
  sent : s'.sent = s.sent ++ more
  each : ∀ o ∈ more, o.Harmless ∨ ∃ v ∈ memoryVerbs, a.named v.attr = true ∧ o = v.outMsg m
  memory : ∀ v ∈ memoryVerbs, a.named v.attr = true → v.outMsg m ∈ more

theorem camZoom2internal_harmless : (camZoom2internal.outMsg m).Harmless := by
  refine CamVerb.outMsg_harmless (l := ["CZW", "CZT"]) camZoom2internal_abbreviates (fun a s h => ?_) (by decide)
  simp only [camZoom2internal] at h
  split_ifs at h <;> cases h <;> simp

theorem camPanTilt2internal_harmless : (camPanTilt2internal.outMsg m).Harmless := by
  refine CamVerb.outMsg_harmless (l := ["CPTL", "CPTR", "CPTU", "CPTD"]) camPanTilt2internal_abbreviates (fun a s h => ?_) (by decide)
  simp only [camPanTilt2internal] at h
  split_ifs at h <;> cases h <;> simp

theorem internalMsg_harmless {name : String} (hname : name ∈ ["Start", "Stop", "Pause", "Resume"]) : (internalMsg name).Harmless := by
  have hne : ∀ name ∈ ["Start", "Stop", "Pause", "Resume"], 0 ∉ ascii name ∧ ∀ n ∈ presetNames, ascii name ≠ ascii n := by decide
  intro _ arg harg n hn
  rw [List.mem_singleton.mp harg, ← Bool.not_eq_true, Attr.named_iff]
  change cstr (ascii name) ≠ ascii n
  rw [cstr_eq (hne name hname).1]
  exact (hne name hname).2 n hn

theorem OutMsg.harmless_of_cmd (h : o.cmd ≠ commandInternal) : o.Harmless := fun hint => absurd hint h

theorem Attr.not_named {n n' : String} (h : a.named n = true) (hne : ascii n ≠ ascii n') : ¬a.named n' = true := fun h' =>
  hne ((Attr.named_iff.mp h).symm.trans (Attr.named_iff.mp h'))

/-- The attributes of the instructor that are no memory commands. -/
def otherNames : List String :=
  ["Start", "Stop", "Pause", "Resume", "SwitchVideo", "SetRecordMode", "CamZoom", "CamPanTilt"]

theorem otherNames_ne : ∀ n ∈ otherNames, ascii n ≠ ascii "CamMemoryInq" ∧ ascii n ≠ ascii "CamMemorySave" := by decide

theorem Instructor.Adds.other {n : String} {s' : Instructor} {more : List OutMsg} (hn : n ∈ otherNames) (hnamed : a.named n = true)
    (hsent : s'.sent = st.sent ++ more) (hharmless : ∀ o ∈ more, o.Harmless) : Adds m st a s' more := by
  obtain ⟨hinq, hsave⟩ := otherNames_ne n hn
  refine ⟨hsent, fun o ho => .inl (hharmless o ho), fun v hv hv' => ?_⟩
  simp only [memoryVerbs, List.mem_cons, List.not_mem_nil, or_false] at hv
  rcases hv with rfl | rfl
  · exact absurd hv' (Attr.not_named hnamed hinq)
  · exact absurd hv' (Attr.not_named hnamed hsave)

theorem passed_harmless {n : String} (hn : n ∈ ["SwitchVideo", "SetRecordMode"]) (hnamed : a.named n = true) :
    OutMsg.Harmless ⟨commandInternal, [.char (cstr a.name) (cstr a.value)]⟩ := by
  have hne : ∀ n ∈ ["SwitchVideo", "SetRecordMode"], ∀ n' ∈ presetNames, ascii n ≠ ascii n' := by decide
  intro _ arg harg n' hn'
  rw [List.mem_singleton.mp harg, ← Bool.not_eq_true, Attr.named_iff]
  change cstr (cstr a.name) ≠ ascii n'
  rw [cstr_cstr, Attr.named_iff.mp hnamed]
  exact hne n hn n' hn'

theorem startMsgs_harmless : ∀ o ∈ startMsgs env, o.Harmless := by
  simp only [startMsgs, List.forall_mem_cons, List.not_mem_nil, false_imp_iff, implies_true, and_true]
  exact ⟨OutMsg.harmless_of_cmd (show commandSetLed ≠ commandInternal by decide), internalMsg_harmless (by simp),
    OutMsg.harmless_of_cmd (show commandConfig ≠ commandInternal by decide),
    OutMsg.harmless_of_cmd (show commandGetdata ≠ commandInternal by decide)⟩

theorem stopMsgs_harmless : ∀ o ∈ stopMsgs, o.Harmless := by
  simp only [stopMsgs, List.forall_mem_cons, List.not_mem_nil, false_imp_iff, implies_true, and_true]
  exact ⟨OutMsg.harmless_of_cmd (show commandSetLed ≠ commandInternal by decide), internalMsg_harmless (by simp),
    OutMsg.harmless_of_cmd (show commandGetdata ≠ commandInternal by decide)⟩

theorem Instructor.Adds.memoryInq (hnamed : a.named "CamMemoryInq" = true) :
    Adds m st a (st.send [camMemoryInq2internal.outMsg m]) [camMemoryInq2internal.outMsg m] := by
  refine ⟨rfl, List.forall_mem_singleton.mpr (.inr ⟨_, List.mem_cons_self .., hnamed, rfl⟩), fun v hv hv' => ?_⟩
  simp only [memoryVerbs, List.mem_cons, List.not_mem_nil, or_false] at hv
  rcases hv with rfl | rfl
  · exact List.mem_singleton_self _
  · exact absurd hv' (Attr.not_named hnamed (show ascii "CamMemoryInq" ≠ ascii "CamMemorySave" by decide))

theorem Instructor.Adds.memorySave (hnamed : a.named "CamMemorySave" = true) :
    Adds m st a (st.send [camMemorySave2internal.outMsg m]) [camMemorySave2internal.outMsg m] := by
  refine ⟨rfl, List.forall_mem_singleton.mpr (.inr ⟨_, List.mem_cons_of_mem _ (List.mem_cons_self ..), hnamed, rfl⟩),
    fun v hv hv' => ?_⟩
  simp only [memoryVerbs, List.mem_cons, List.not_mem_nil, or_false] at hv
  rcases hv with rfl | rfl
  · exact absurd hv' (Attr.not_named hnamed (show ascii "CamMemorySave" ≠ ascii "CamMemoryInq" by decide))
  · exact List.mem_singleton_self _

theorem Instructor.onAttr_adds (env : InstructorEnv) (m : Mem) (st : Instructor) (a : Attr) :
    ∃ more, Adds m st a (st.onAttr env m a) more := by
  have hnil : st.sent = st.sent ++ [] := (List.append_nil _).symm
  have hother : ∀ {n : String}, n ∈ ["Start", "Stop", "Pause", "Resume"] → n ∈ otherNames := fun hn =>
    List.mem_append_left ["SwitchVideo", "SetRecordMode", "CamZoom", "CamPanTilt"] hn
  have hmark : ∀ n ∈ ["Pause", "Resume"], n ∈ ["Start", "Stop", "Pause", "Resume"] := by decide
  have hpass : ∀ n ∈ ["SwitchVideo", "SetRecordMode"], n ∈ otherNames := by decide
  have hb := onAttr_branch env m st a
  generalize st.onAttr env m a = st' at hb ⊢
  cases hb with
  | start named => exact ⟨_, .other (hother (List.mem_cons_self ..)) named rfl startMsgs_harmless⟩
  | stop named => exact ⟨_, .other (hother (by decide)) named rfl stopMsgs_harmless⟩
  | mark name mem named =>
    exact ⟨_, .other (hother (hmark name mem)) named rfl (List.forall_mem_singleton.mpr (internalMsg_harmless (hmark name mem)))⟩
  | quiet name mem named => exact ⟨_, .other (hother mem) named hnil (List.forall_mem_nil _)⟩
  | pass name mem named =>
    exact ⟨_, .other (hpass name mem) named rfl (List.forall_mem_singleton.mpr (passed_harmless mem named))⟩
  | zoom named =>
    exact ⟨_, .other (n := "CamZoom") (by decide) named rfl (List.forall_mem_singleton.mpr camZoom2internal_harmless)⟩
  | panTilt named =>
    exact ⟨_, .other (n := "CamPanTilt") (by decide) named rfl (List.forall_mem_singleton.mpr camPanTilt2internal_harmless)⟩
  | memoryInq named => exact ⟨_, .memoryInq named⟩
  | memorySave named => exact ⟨_, .memorySave named⟩
  | other inq save =>
    refine ⟨[], hnil, List.forall_mem_nil _, fun v hv hnamed => ?_⟩
    simp only [memoryVerbs, List.mem_cons, List.not_mem_nil, or_false] at hv
    rcases hv with rfl | rfl
    · exact absurd hnamed inq
    · exact absurd hnamed save

theorem Instructor.foldl_adds (env : InstructorEnv) (m : Mem) (st : Instructor) (attrs : List Attr) : ∃ more,
    (attrs.foldl (onAttr env m) st).sent = st.sent ++ more ∧
    (∀ o ∈ more, o.Harmless ∨ ∃ v ∈ memoryVerbs, (∃ a ∈ attrs, a.named v.attr = true) ∧ o = v.outMsg m) ∧
    ∀ v ∈ memoryVerbs, ∀ a ∈ attrs, a.named v.attr = true → v.outMsg m ∈ more := by
  induction attrs generalizing st with
  | nil => exact ⟨[], (List.append_nil _).symm, List.forall_mem_nil _, fun _ _ a ha => absurd ha List.not_mem_nil⟩
  | cons a attrs ih =>
    obtain ⟨first, hfirst⟩ := onAttr_adds env m st a
    obtain ⟨rest, hsent, heach, hmemory⟩ := ih (st.onAttr env m a)
    refine ⟨first ++ rest, ?_, fun o ho => ?_, fun v hv b hb hnamed => ?_⟩
    · rw [List.foldl_cons, hsent, hfirst.sent, List.append_assoc]
    · rcases List.mem_append.mp ho with ho | ho
      · refine (hfirst.each o ho).imp_right ?_
        rintro ⟨v, hv, hnamed, he⟩
        exact ⟨v, hv, ⟨a, List.mem_cons_self .., hnamed⟩, he⟩
      · refine (heach o ho).imp_right ?_
        rintro ⟨v, hv, ⟨b, hb, hnamed⟩, he⟩
        exact ⟨v, hv, ⟨b, List.mem_cons_of_mem _ hb, hnamed⟩, he⟩
    · rcases List.mem_cons.mp hb with rfl | hb
      · exact List.mem_append_left _ (hfirst.memory v hv hnamed)
      · exact List.mem_append_right _ (hmemory v hv b hb hnamed)

/-- The camera commands of all that one message makes the instructor thread send stay inside the table exactly when the
    presets of the message do. -/
theorem ctrl_isSome_iff (hm : Handleable m) (status : RecbcStatus) :
    (∀ o ∈ (Instructor.instructorMsgHandle ⟨status, []⟩ env m).sent, ∀ item, o.Carried item → (s.ctrl garbage item).isSome) ↔
      (msgCmd m = commandServer → PresetsInside (attrsOf m)) := by
  unfold Instructor.instructorMsgHandle
  by_cases hserver : msgCmd m = commandServer
  · obtain ⟨more, hsent, heach, hmemory⟩ := Instructor.foldl_adds env m ⟨status, []⟩ (attrsOf m)
    rw [if_pos hserver, hsent, List.nil_append, forall_prop_of_true hserver]
    have hfits : ∀ o ∈ more, o.Fits := by
      have hrun : ∀ o ∈ (Instructor.run ⟨status, []⟩ [(env, m)]).sent, o.Fits :=
        Instructor.run_fits (List.forall_mem_nil _) (List.forall_mem_singleton.mpr hm)
      change ∀ o ∈ (Instructor.instructorMsgHandle ⟨status, []⟩ env m).sent, o.Fits at hrun
      rwa [Instructor.instructorMsgHandle, if_pos hserver, hsent] at hrun
    constructor
    · intro hall hcamera v hv a hlast
      obtain ⟨ha, hnamed⟩ := List.mem_filter.mp (List.mem_of_getLast? hlast)
      obtain ⟨item, hitem⟩ := (CamVerb.outMsg_fits (memoryVerbs_isMemory v hv).1 hm).carried
      exact (CamVerb.outMsg_ctrl hm hv hlast hitem).mp (hall _ (hmemory v hv a ha hnamed) item hitem) hcamera
    · intro hinside o ho item hitem
      rcases heach o ho with hharmless | ⟨v, hv, ⟨a, ha, hnamed⟩, rfl⟩
      · exact hharmless.ctrl (hfits o ho) hitem
      · have hne : (attrsOf m).filter (·.named v.attr) ≠ [] := List.ne_nil_of_mem (List.mem_filter.mpr ⟨ha, hnamed⟩)
        exact (CamVerb.outMsg_ctrl hm hv (List.getLast?_eq_some_getLast hne) hitem).mpr fun hcamera =>
          hinside hcamera v hv _ (List.getLast?_eq_some_getLast hne)
  · rw [if_neg hserver]
    exact iff_of_true (List.forall_mem_nil _) fun h => absurd h hserver

end

/-- The numbers of a message stay inside the tables exactly when its sender keeps them small: nothing in between compares
    them with the sizes. -/
theorem indices_inside_iff (m : Mem) (env : InstructorEnv) (status : RecbcStatus) (garbage : Nat) (s : CameraHolders) :
    (AuxReadable m → ((getAuxResult m).isSome ↔ ChannelsInside (attrsOf m))) ∧
    (Handleable m → ((∀ o ∈ (Instructor.instructorMsgHandle ⟨status, []⟩ env m).sent, ∀ item, o.Carried item →
        (s.ctrl garbage item).isSome) ↔ (msgCmd m = commandServer → PresetsInside (attrsOf m)))) :=
  ⟨fun _ => getAuxResult_isSome, fun hm => ctrl_isSome_iff hm status⟩

/-- A message with two attributes, whose sizes are given in digits. -/
def twoAttrMsg (cmd len : String) (a b : RawAttr) : Mem :=
  store (fun _ => 0) 0 (ascii "01" ++ ascii cmd ++ ascii len ++ (a.bytes ++ b.bytes))

/-- An event with a channel and a number of targets. -/
def auxMsg (value : String) : Mem :=
  twoAttrMsg "0025" "001a" ⟨0x37, ascii "0001", ascii "Channel", ascii value⟩ ⟨0x37, ascii "0001", ascii "Targets", ascii "1"⟩

/-- A memory command of the instructor for the teacher's camera, with a value of two characters. -/
def memoryMsg (value : String) : Mem :=
  twoAttrMsg "ffff" "002d" ⟨0x64, ascii "0002", ascii "CamMemorySave", ascii value⟩
    ⟨0x36, ascii "000e", ascii "Camera", ascii "TeacherSpecial"⟩

theorem memoryMsg_attrs : ∀ value ∈ ["05", "ff"], attrsOf (memoryMsg value) =
    [⟨ascii "CamMemorySave", ascii value⟩, ⟨ascii "Camera", ascii "TeacherSpecial"⟩] := by decide +kernel

theorem memoryMsg_handleable : ∀ value ∈ ["05", "ff"], Handleable (memoryMsg value) := by
  have hvalue : ∀ value ∈ ["05", "ff"], (ascii value).length = 2 ∧ strlen (ascii value) ≤ 3 := by decide
  have hsave : hexNum [0x64] = (ascii "CamMemorySave").length := by decide
  intro value hv
  obtain ⟨hlen, hshort⟩ := hvalue value hv
  refine ⟨⟨[⟨0x64, ascii "0002", ascii "CamMemorySave", ascii value⟩, ⟨0x36, ascii "000e", ascii "Camera", ascii "TeacherSpecial"⟩],
    ?_, ?_⟩, ?_, ?_, ?_⟩
  · refine List.forall_mem_cons.mpr ⟨⟨rfl, hsave, ?_⟩, List.forall_mem_singleton.mpr ⟨rfl, by decide, by decide⟩⟩
    exact (show hexNum (ascii "0002") = 2 by decide).trans hlen.symm
  · revert value
    decide +kernel
  · rw [memoryMsg_attrs value hv]
    exact List.forall_mem_cons.mpr ⟨show (ascii "CamMemorySave").length ≤ 15 by decide, List.forall_mem_singleton.mpr (by decide)⟩
  · rw [memoryMsg_attrs value hv]
    refine List.forall_mem_cons.mpr ⟨Nat.le_trans (Nat.le_of_eq hlen) (by decide), List.forall_mem_singleton.mpr (by decide)⟩
  · rw [memoryMsg_attrs value hv]
    exact List.forall_mem_cons.mpr ⟨fun _ => hshort, List.forall_mem_singleton.mpr fun h => absurd h (by decide)⟩

theorem auxMsg_attrs : ∀ value ∈ ["1", "2"], attrsOf (auxMsg value) =
    [⟨ascii "Channel", ascii value⟩, ⟨ascii "Targets", ascii "1"⟩] := by decide +kernel

theorem auxMsg_readable : ∀ value ∈ ["1", "2"], AuxReadable (auxMsg value) := by
  have hvalue : ∀ value ∈ ["1", "2"], (ascii value).length = 1 := by decide
  have hchannel : hexNum [0x37] = (ascii "Channel").length := by decide
  intro value hv
  have hlen := hvalue value hv
  refine ⟨⟨[⟨0x37, ascii "0001", ascii "Channel", ascii value⟩, ⟨0x37, ascii "0001", ascii "Targets", ascii "1"⟩], ?_, ?_⟩, ?_, ?_⟩
  · refine List.forall_mem_cons.mpr ⟨⟨rfl, hchannel, ?_⟩, List.forall_mem_singleton.mpr ⟨rfl, by decide, by decide⟩⟩
    exact (show hexNum (ascii "0001") = 1 by decide).trans hlen.symm
  · revert value
    decide +kernel
  · rw [auxMsg_attrs value hv]
    exact List.forall_mem_cons.mpr ⟨show (ascii "Channel").length ≤ 15 by decide, List.forall_mem_singleton.mpr (by decide)⟩
  · rw [auxMsg_attrs value hv]
    exact List.forall_mem_cons.mpr ⟨Nat.le_trans (Nat.le_of_eq hlen) (by decide), List.forall_mem_singleton.mpr (by decide)⟩

/-- Channel 1 and preset 5 stay inside. -/
theorem indices_inside_iff_preset : (getAuxResult (auxMsg "1")).isSome ∧
    ∀ o ∈ (Instructor.instructorMsgHandle ⟨.idle, []⟩ ⟨0, 0, 0, 0, 0, 0, 0, 0⟩ (memoryMsg "05")).sent, ∀ item, o.Carried item →
      (CameraHolders.ctrl 0 ⟨⟨⟨0, 0, 0⟩, ⟨0, 0, 0⟩, .replicate 16 ⟨0, 0, 0⟩⟩, ⟨⟨0, 0, 0⟩, ⟨0, 0, 0⟩, .replicate 16 ⟨0, 0, 0⟩⟩⟩
        item).isSome := by
  obtain ⟨haux, -⟩ := indices_inside_iff (auxMsg "1") ⟨0, 0, 0, 0, 0, 0, 0, 0⟩ .idle 0
    ⟨⟨⟨0, 0, 0⟩, ⟨0, 0, 0⟩, .replicate 16 ⟨0, 0, 0⟩⟩, ⟨⟨0, 0, 0⟩, ⟨0, 0, 0⟩, .replicate 16 ⟨0, 0, 0⟩⟩⟩
  obtain ⟨-, hctrl⟩ := indices_inside_iff (memoryMsg "05") ⟨0, 0, 0, 0, 0, 0, 0, 0⟩ .idle 0
    ⟨⟨⟨0, 0, 0⟩, ⟨0, 0, 0⟩, .replicate 16 ⟨0, 0, 0⟩⟩, ⟨⟨0, 0, 0⟩, ⟨0, 0, 0⟩, .replicate 16 ⟨0, 0, 0⟩⟩⟩
  refine ⟨(haux (auxMsg_readable "1" (by decide))).mpr ?_, (hctrl (memoryMsg_handleable "05" (by decide))).mpr fun _ _ => ?_⟩
  · rw [auxMsg_attrs "1" (by decide)]
    intro pre a post hsplit hfield
    match pre, hsplit with
    | [], hsplit =>
      obtain ⟨rfl, -⟩ := List.cons_eq_cons.mp hsplit
      exact absurd hfield (by decide)
    | [c], hsplit =>
      obtain ⟨rfl, -⟩ := List.cons_eq_cons.mp hsplit
      decide
    | c :: d :: pre, hsplit =>
      have hlen := congrArg List.length hsplit
      simp only [List.length_cons, List.length_nil, List.length_append] at hlen
      omega
  · rw [memoryMsg_attrs "05" (by decide)]
    simp only [memoryVerbs, List.forall_mem_cons, List.not_mem_nil, false_imp_iff, implies_true, and_true]
    refine ⟨fun a ha => ?_, fun a ha => ?_⟩
    · cases ha
    · cases ha
      decide

/-- The auxiliary event for channel 2, and the command to save preset 255. -/
theorem indices_outside : (AuxReadable (auxMsg "2") ∧ getAuxResult (auxMsg "2") = none) ∧
    Handleable (memoryMsg "ff") ∧ ∃ o ∈ (Instructor.instructorMsgHandle ⟨.idle, []⟩ ⟨0, 0, 0, 0, 0, 0, 0, 0⟩ (memoryMsg "ff")).sent,
      ∃ item, o.Carried item ∧ ∀ garbage s, CameraHolders.ctrl garbage s item = none := by
  have hattrs := memoryMsg_attrs "ff" (by decide)
  have hm := memoryMsg_handleable "ff" (by decide)
  have hv : camMemorySave2internal ∈ memoryVerbs := List.mem_cons_of_mem _ (List.mem_cons_self ..)
  refine ⟨⟨auxMsg_readable "2" (by decide), ?_⟩, hm, camMemorySave2internal.outMsg (memoryMsg "ff"), ?_, ?_⟩
  · exact Option.isNone_iff_eq_none.mp (by decide +kernel)
  · rw [Instructor.instructorMsgHandle, if_pos (by decide +kernel), hattrs]
    exact List.mem_singleton_self _
  · obtain ⟨item, hitem⟩ := (CamVerb.outMsg_fits camMemorySave2internal_abbreviates hm).carried
    refine ⟨item, hitem, fun garbage s => ?_⟩
    have hlast : ((attrsOf (memoryMsg "ff")).filter (·.named camMemorySave2internal.attr)).getLast? =
        some ⟨ascii "CamMemorySave", ascii "ff"⟩ := by
      rw [hattrs]
      decide
    have hcamera : NamesCamera (attrsOf (memoryMsg "ff")) := by
      rw [hattrs, namesCamera_iff]
      decide
    rw [← Option.not_isSome_iff_eq_none, CamVerb.outMsg_ctrl hm hv hlast hitem]
    intro hinside
    exact absurd (hinside hcamera) (by decide)

end Recbcsrv
