import Recbcsrv.Message.Copies

/-! The instructor's messages (`InstructorMsgHandle`). Each attribute of a message makes the handler send messages to the
    other threads: a recording is started and stopped by a message to the devices between one to the director and one
    to the recorder, and only while one is running is it paused and resumed. The other attributes are passed on. -/

namespace Recbcsrv
open Bytes

def commandConfig : List UInt8 := ascii "0006"
def commandGetdata : List UInt8 := ascii "0010"
def commandSetLed : List UInt8 := ascii "0014"

/-- A message that is built and added to a FIFO. -/
structure OutMsg where
  cmd : List UInt8
  args : List AttrArg

/-- The sizes of the command and of the attributes are such that the message can be built. -/
structure OutMsg.Fits (o : OutMsg) : Prop where
  cmd : o.cmd.length = 4
  valid : ∀ a ∈ o.args, a.Valid
  short : ∀ a ∈ o.args, a.ShortName
  size : packetHeaderSize + (o.args.map AttrArg.size).sum + 1 ≤ cmdBufsize

/-- An item of a FIFO holds the message: the bytes up to `cmd_p`, which the call added. -/
def OutMsg.Carried (o : OutMsg) (m : Mem) : Prop :=
  ∃ t t', buildMsg t o.cmd o.args = some t' ∧ load m 0 t'.cmdP = load t'.fullbuf 0 t'.cmdP

theorem OutMsg.Fits.carried {o : OutMsg} (h : o.Fits) : ∃ m, o.Carried m := by
  obtain ⟨t, ht, -⟩ := buildMsg_spec ⟨fun _ => 0, 0, 0, 0, 0, 0⟩ o.cmd o.args h.cmd h.valid h.short h.size
  exact ⟨t.fullbuf, _, t, ht, rfl⟩

/-- A handler finds the command and the attributes of the message in the item. -/
theorem OutMsg.Carried.decode {o : OutMsg} {m : Mem} (h : o.Carried m) (hfits : o.Fits) :
    msgCmd m = o.cmd ∧ attrsOf m = o.args.map AttrArg.attr := by
  obtain ⟨t, t', hbuild, hload⟩ := h
  obtain ⟨t₂, hbuild₂, hcmd, hs, hbody, hlen, hend⟩ := buildMsg_spec t o.cmd o.args hfits.cmd hfits.valid hfits.short hfits.size
  obtain rfl : t' = t₂ := Option.some.inj (hbuild.symm.trans hbuild₂)
  have hp : packetHeaderSize = 10 := rfl
  have hmsgLen : msgLen m = msgLen t'.fullbuf := by
    unfold msgLen
    rw [load_part hload (Nat.zero_le _) (by simp only [versionSize, cmdSize, dataLenSize]; omega)]
  refine ⟨?_, ?_⟩
  · rw [← hcmd, msgCmd, msgCmd, load_part hload (Nat.zero_le _) (by simp only [versionSize, cmdSize]; omega)]
  · rw [attrsOf_of_attrs (o.args.map AttrArg.raw) hs, List.map_map]
    · rfl
    · rw [hmsgLen, load_part hload (Nat.zero_le _) (by omega), hbody]

/-! ### The handler -/

/-- `RECBC_IDLE` and `RECBC_WORKING`. -/
inductive RecbcStatus where
  | idle
  | working
  deriving DecidableEq, Repr

/-- What the handler reads of the other threads and of the configuration. -/
structure InstructorEnv where
  socketA : Int
  socketB : Int
  socketC : Int
  socketD : Int
  reg09 : UInt32
  frameRate : UInt32
  bitrate : UInt32
  liveBitrate : UInt32

/-- `RegVal`: a bit for each device that is connected. -/
def InstructorEnv.regVal (env : InstructorEnv) : Nat :=
  (if env.socketA ≠ -1 then 1 else 0) ||| (if env.socketB ≠ -1 then 2 else 0) ||| (if env.socketC ≠ -1 then 4 else 0) |||
    (if env.socketD ≠ -1 then 8 else 0)

def internalMsg (name : String) : OutMsg := ⟨commandInternal, [.int (ascii name) 1]⟩

def getdataMsg (type : String) : OutMsg := ⟨commandGetdata, [.char (ascii "Type") (ascii type)]⟩

def configMsg (env : InstructorEnv) : OutMsg :=
  ⟨commandConfig, [.int (ascii "FrameWidth") 1920, .int (ascii "FrameHeight") 1080,
    .int (ascii "FrameRate") env.frameRate.toNat, .int (ascii "BitRate") env.bitrate.toNat,
    .int (ascii "LBitRate") env.liveBitrate.toNat]⟩

def startMsgs (env : InstructorEnv) : List OutMsg :=
  [⟨commandSetLed, [.int (ascii "Reg") env.regVal, .int (ascii "Reg_09") env.reg09.toNat]⟩, internalMsg "Start",
    configMsg env, getdataMsg "All"]

def stopMsgs : List OutMsg := [⟨commandSetLed, [.int (ascii "Reg") 0]⟩, internalMsg "Stop", getdataMsg "None"]

/-- The internal message that a camera function builds from the whole message. -/
def CamVerb.outMsg (v : CamVerb) (m : Mem) : OutMsg :=
  let c := (attrsOf m).foldl v.set ⟨[], [], []⟩
  ⟨commandInternal, [if v.keeps then .char (c.cmd ++ c.para1) c.intvalue else .int (c.cmd ++ c.para1) 0]⟩

/-- The status of the instructor thread, and what it has added to `Ctrl_producer_fifo`. -/
structure Instructor where
  status : RecbcStatus
  sent : List OutMsg

namespace Instructor

def start : Instructor := ⟨.idle, []⟩

def send (s : Instructor) (msgs : List OutMsg) : Instructor := { s with sent := s.sent ++ msgs }

/-- The body of the loop of `InstructorMsgHandle`. -/
def onAttr (env : InstructorEnv) (m : Mem) (s : Instructor) (a : Attr) : Instructor :=
  if a.named "Start" then
    if s.status = .idle then { s.send (startMsgs env) with status := .working } else s
  else if a.named "Stop" then
    if s.status = .working then { s.send stopMsgs with status := .idle } else s
  else if a.named "Pause" then
    if s.status = .working then s.send [internalMsg "Pause"] else s
  else if a.named "Resume" then
    if s.status = .working then s.send [internalMsg "Resume"] else s
  else if a.named "SwitchVideo" then s.send [⟨commandInternal, [.char (cstr a.name) (cstr a.value)]⟩]
  else if a.named "SetRecordMode" then s.send [⟨commandInternal, [.char (cstr a.name) (cstr a.value)]⟩]
  else if a.named "CamZoom" then s.send [camZoom2internal.outMsg m]
  else if a.named "CamPanTilt" then s.send [camPanTilt2internal.outMsg m]
  else if a.named "CamMemoryInq" then s.send [camMemoryInq2internal.outMsg m]
  else if a.named "CamMemorySave" then s.send [camMemorySave2internal.outMsg m]
  else s

def instructorMsgHandle (s : Instructor) (env : InstructorEnv) (m : Mem) : Instructor :=
  if msgCmd m = commandServer then (attrsOf m).foldl (onAttr env m) s else s

/-- The messages one after the other, each with what the handler reads elsewhere. -/
def run (s : Instructor) (msgs : List (InstructorEnv × Mem)) : Instructor :=
  msgs.foldl (fun s p => s.instructorMsgHandle p.1 p.2) s

end Instructor

/-! ### What is sent -/

/-- A message that is passed on: an internal one whose attribute is none that the recorder looks at. -/
structure OutMsg.Passed (o : OutMsg) : Prop where
  cmd : o.cmd = commandInternal
  names : ∀ a ∈ o.args, ∀ name ∈ ["Start", "Stop", "Pause", "Resume"], a.attr.named name = false

theorem Attr.named_iff {a : Attr} {name : String} : a.named name = true ↔ cstr a.name = ascii name := decide_eq_true_iff

theorem cstr_cstr (s : List UInt8) : cstr (cstr s) = cstr s := by simp [cstr, List.takeWhile_takeWhile]

theorem nul_notMem_cstr (s : List UInt8) : 0 ∉ cstr s := fun h => by simpa using List.mem_takeWhile_imp h

/-- The attributes lie inside the message, and their names and values have the sizes that the buffers are made for. -/
structure Handleable (m : Mem) : Prop where
  body : WellFormedBody (load m packetHeaderSize (msgLen m))
  name : ∀ a ∈ attrsOf m, a.name.length ≤ 15
  value : ∀ a ∈ attrsOf m, a.value.length ≤ 255
  memory : ∀ a ∈ attrsOf m, a.named "CamMemoryInq" = true ∨ a.named "CamMemorySave" = true → strlen a.value ≤ 3

/-- The abbreviations of the verb begin with a `C`. -/
def CamVerb.Abbreviates (v : CamVerb) : Prop := ∀ a s, v.abbr a = some s → (ascii s).head? = some 0x43 ∧ 0 ∉ ascii s

theorem camZoom2internal_abbreviates : camZoom2internal.Abbreviates := fun a s h => by
  simp only [camZoom2internal] at h
  split_ifs at h <;> cases h <;> decide

theorem camPanTilt2internal_abbreviates : camPanTilt2internal.Abbreviates := fun a s h => by
  simp only [camPanTilt2internal] at h
  split_ifs at h <;> cases h <;> decide

theorem camMemoryInq2internal_abbreviates : camMemoryInq2internal.Abbreviates := fun a s h => by
  cases h
  decide

theorem camMemorySave2internal_abbreviates : camMemorySave2internal.Abbreviates := fun a s h => by
  cases h
  decide

/-- The strings of an internal camera command, and what they never are. -/
structure InternalAbbrCmd.Plain (c : InternalAbbrCmd) : Prop where
  cmd : c.cmd = [] ∨ c.cmd.head? = some 0x43
  para1 : c.para1.length ≤ 1
  cmdNul : 0 ∉ c.cmd
  para1Nul : 0 ∉ c.para1
  intvalueNul : 0 ∉ c.intvalue

section
variable {v : CamVerb} {c : InternalAbbrCmd} {m : Mem} {env : InstructorEnv} {s : Instructor}

theorem InternalAbbrCmd.Plain.set (hc : c.Plain) (hv : v.Abbreviates) (a : Attr) : (v.set c a).Plain := by
  have habbr : (v.setAbbr c a).Plain := by
    unfold CamVerb.setAbbr
    split
    · refine ⟨?_, hc.para1, ?_, hc.para1Nul, ?_⟩
      · cases hs : v.abbr a with
        | none => exact hc.cmd
        | some s => exact .inr (hv a s hs).1
      · cases hs : v.abbr a with
        | none => exact hc.cmdNul
        | some s => exact (hv a s hs).2
      · dsimp only
        split
        · exact nul_notMem_cstr _
        · exact hc.intvalueNul
    · exact hc
  unfold CamVerb.set InternalAbbrCmd.setCamera
  split
  · split
    · exact ⟨habbr.cmd, show (ascii "T").length ≤ 1 by decide, habbr.cmdNul, show 0 ∉ ascii "T" by decide, habbr.intvalueNul⟩
    · split
      · exact ⟨habbr.cmd, show (ascii "S").length ≤ 1 by decide, habbr.cmdNul, show 0 ∉ ascii "S" by decide, habbr.intvalueNul⟩
      · exact habbr
  · exact habbr

theorem CamVerb.foldl_plain (hv : v.Abbreviates) (attrs : List Attr) : (attrs.foldl v.set ⟨[], [], []⟩).Plain :=
  List.foldlRecOn attrs _ ⟨.inl rfl, Nat.zero_le _, List.not_mem_nil, List.not_mem_nil, List.not_mem_nil⟩
    fun _ hc a _ => hc.set hv a

/-- The name of a camera command is no name that the recorder looks at. -/
theorem InternalAbbrCmd.Plain.name_ne (hc : c.Plain) : ∀ name ∈ ["Start", "Stop", "Pause", "Resume"],
    c.cmd ++ c.para1 ≠ ascii name := by
  have hlen : ∀ name ∈ ["Start", "Stop", "Pause", "Resume"], 4 ≤ (ascii name).length := by decide
  have hhead : ∀ name ∈ ["Start", "Stop", "Pause", "Resume"], (ascii name).head? ≠ some 0x43 := by decide
  intro name hname he
  rcases hc.cmd with hnil | hcmd
  · have h1 := hlen name hname
    rw [hnil, List.nil_append] at he
    rw [← he] at h1
    exact absurd (Nat.le_trans h1 hc.para1) (by decide)
  · refine hhead name hname ?_
    rw [← he, List.head?_append, hcmd]
    rfl

theorem CamVerb.outMsg_name (hv : v.Abbreviates) (m : Mem) : ∀ a ∈ (v.outMsg m).args,
    cstr a.attr.name = ((attrsOf m).foldl v.set ⟨[], [], []⟩).cmd ++ ((attrsOf m).foldl v.set ⟨[], [], []⟩).para1 := by
  have hplain := foldl_plain hv (attrsOf m)
  intro a ha
  have hattr : a.attr.name = ((attrsOf m).foldl v.set ⟨[], [], []⟩).cmd ++ ((attrsOf m).foldl v.set ⟨[], [], []⟩).para1 := by
    rw [List.mem_singleton.mp ha]
    split <;> rfl
  rw [hattr, cstr_eq]
  rw [List.mem_append]
  exact not_or.mpr ⟨hplain.cmdNul, hplain.para1Nul⟩

theorem CamVerb.outMsg_passed (hv : v.Abbreviates) (m : Mem) : (v.outMsg m).Passed := by
  refine ⟨rfl, fun a ha name hname => ?_⟩
  rw [← Bool.not_eq_true, Attr.named_iff, outMsg_name hv m a ha]
  exact (foldl_plain hv (attrsOf m)).name_ne name hname

/-- A message with one attribute fits when its name and value do. -/
theorem OutMsg.fits_single {cmd : List UInt8} {a : AttrArg} (hcmd : cmd.length = 4) (hv : a.Valid) (hs : a.ShortName)
    (hvalue : a.attr.value.length ≤ 255) : OutMsg.Fits ⟨cmd, [a]⟩ := by
  refine ⟨hcmd, List.forall_mem_singleton.mpr hv, List.forall_mem_singleton.mpr hs, ?_⟩
  have hle := hs.le
  have hp : packetHeaderSize = 10 := rfl
  have hb : cmdBufsize = 1536 := rfl
  simp only [List.map_cons, List.map_nil, List.sum_cons, List.sum_nil, AttrArg.size]
  omega

theorem CamVerb.outMsg_fits (hv : v.Abbreviates) (hm : Handleable m) : (v.outMsg m).Fits := by
  have hplain := foldl_plain hv (attrsOf m)
  have hstart : InternalAbbrCmd.Short ⟨[], [], []⟩ := ⟨Nat.zero_le 4, Nat.zero_le 1, Nat.zero_le 255⟩
  have hshort := foldl_short (v := v) hstart (attrsOf m) fun a ha => Nat.lt_succ_of_le (hm.value a ha)
  unfold outMsg
  generalize (attrsOf m).foldl v.set ⟨[], [], []⟩ = c at hplain hshort ⊢
  have hname : (c.cmd ++ c.para1).length ≤ 15 := by
    have h1 := hshort.cmd
    have h2 := hshort.para1
    rw [List.length_append]
    omega
  have hnul : 0 ∉ c.cmd ++ c.para1 := by
    rw [List.mem_append]
    exact not_or.mpr ⟨hplain.cmdNul, hplain.para1Nul⟩
  split
  · exact OutMsg.fits_single rfl hplain.intvalueNul ⟨hname, hnul⟩ hshort.intvalue
  · exact OutMsg.fits_single rfl (show 0 < 2 ^ 32 by decide) ⟨hname, hnul⟩ (show (printX 0).length ≤ 255 by decide)

theorem internalMsg_fits {name : String} (hname : name ∈ ["Start", "Stop", "Pause", "Resume"]) : (internalMsg name).Fits := by
  have hshort : ∀ name ∈ ["Start", "Stop", "Pause", "Resume"], (ascii name).length ≤ 15 ∧ 0 ∉ ascii name := by decide
  exact OutMsg.fits_single rfl (show 1 < 2 ^ 32 by decide) ⟨(hshort name hname).1, (hshort name hname).2⟩
    (show (printX 1).length ≤ 255 by decide)

theorem getdataMsg_fits {type : String} (htype : type ∈ ["All", "None"]) : (getdataMsg type).Fits := by
  have hshort : ∀ type ∈ ["All", "None"], (ascii type).length ≤ 255 ∧ 0 ∉ ascii type := by decide
  exact OutMsg.fits_single rfl (hshort type htype).2 ⟨show (ascii "Type").length ≤ 15 by decide, show 0 ∉ ascii "Type" by decide⟩
    (hshort type htype).1

/-- Numbers of 32 bits under names of at most 15 characters. -/
theorem OutMsg.fits_ints {cmd : List UInt8} {l : List (String × Nat)} (hcmd : cmd.length = 4) (hlen : l.length ≤ 54)
    (hl : ∀ p ∈ l, (ascii p.1).length ≤ 15 ∧ 0 ∉ ascii p.1 ∧ p.2 < 2 ^ 32) :
    OutMsg.Fits ⟨cmd, l.map fun p => .int (ascii p.1) p.2⟩ := by
  refine ⟨hcmd, ?_, ?_, ?_⟩
  · intro a ha
    obtain ⟨p, hp, rfl⟩ := List.mem_map.mp ha
    exact (hl p hp).2.2
  · intro a ha
    obtain ⟨p, hp, rfl⟩ := List.mem_map.mp ha
    exact ⟨(hl p hp).1, (hl p hp).2.1⟩
  · have hsize : ∀ p ∈ l, (AttrArg.int (ascii p.1) p.2).size ≤ 28 := fun p hp => by
      have hname := (hl p hp).1
      have hvalue := length_printX_le (n := p.2) (w := 8) (hl p hp).2.2 (by decide)
      simp only [AttrArg.size, AttrArg.attr]
      omega
    have hsum : (l.map fun p => (AttrArg.int (ascii p.1) p.2).size).sum ≤ l.length * 28 := by
      have := List.sum_le_card_nsmul (l.map fun p => (AttrArg.int (ascii p.1) p.2).size) 28 fun n hn => by
        obtain ⟨p, hp, rfl⟩ := List.mem_map.mp hn
        exact hsize p hp
      simpa using this
    have hp : packetHeaderSize = 10 := rfl
    have hb : cmdBufsize = 1536 := rfl
    rw [List.map_map]
    simp only [Function.comp_def]
    omega

theorem startMsgs_fits : ∀ o ∈ startMsgs env, o.Fits := by
  have hreg : env.regVal < 2 ^ 32 := by
    unfold InstructorEnv.regVal
    split_ifs <;> decide
  simp only [startMsgs, List.forall_mem_cons, List.not_mem_nil, false_imp_iff, implies_true, and_true]
  refine ⟨OutMsg.fits_ints (l := [("Reg", _), ("Reg_09", _)]) rfl (by simp) ?_, internalMsg_fits (by simp),
    OutMsg.fits_ints (l := [("FrameWidth", 1920), ("FrameHeight", 1080), ("FrameRate", _), ("BitRate", _), ("LBitRate", _)])
      rfl (by simp) ?_, getdataMsg_fits (by simp)⟩
  · simp only [List.forall_mem_cons, List.not_mem_nil, false_imp_iff, implies_true, and_true]
    exact ⟨⟨by decide, by decide, hreg⟩, by decide, by decide, env.reg09.toNat_lt⟩
  · simp only [List.forall_mem_cons, List.not_mem_nil, false_imp_iff, implies_true, and_true]
    exact ⟨⟨by decide, by decide, by decide⟩, ⟨by decide, by decide, by decide⟩, ⟨by decide, by decide, env.frameRate.toNat_lt⟩,
      ⟨by decide, by decide, env.bitrate.toNat_lt⟩, by decide, by decide, env.liveBitrate.toNat_lt⟩

theorem stopMsgs_fits : ∀ o ∈ stopMsgs, o.Fits := by
  simp only [stopMsgs, List.forall_mem_cons, List.not_mem_nil, false_imp_iff, implies_true, and_true]
  refine ⟨OutMsg.fits_ints (l := [("Reg", 0)]) rfl (by decide) ?_, internalMsg_fits (by simp), getdataMsg_fits (by simp)⟩
  simp only [List.forall_mem_cons, List.not_mem_nil, false_imp_iff, implies_true, and_true]
  decide

/-- The branches of the handler for an attribute, each with the name that leads to it. -/
inductive Instructor.Branch (env : InstructorEnv) (m : Mem) (s : Instructor) (a : Attr) : Instructor → Prop
  | start (named : a.named "Start" = true) (idle : s.status = .idle) :
    Branch env m s a { s.send (startMsgs env) with status := .working }
  | stop (named : a.named "Stop" = true) (working : s.status = .working) :
    Branch env m s a { s.send stopMsgs with status := .idle }
  | mark (name : String) (mem : name ∈ ["Pause", "Resume"]) (named : a.named name = true) (working : s.status = .working) :
    Branch env m s a (s.send [internalMsg name])
  | quiet (name : String) (mem : name ∈ ["Start", "Stop", "Pause", "Resume"]) (named : a.named name = true) :
    Branch env m s a s
  | pass (name : String) (mem : name ∈ ["SwitchVideo", "SetRecordMode"]) (named : a.named name = true) :
    Branch env m s a (s.send [⟨commandInternal, [.char (cstr a.name) (cstr a.value)]⟩])
  | zoom (named : a.named "CamZoom" = true) : Branch env m s a (s.send [camZoom2internal.outMsg m])
  | panTilt (named : a.named "CamPanTilt" = true) : Branch env m s a (s.send [camPanTilt2internal.outMsg m])
  | memoryInq (named : a.named "CamMemoryInq" = true) : Branch env m s a (s.send [camMemoryInq2internal.outMsg m])
  | memorySave (named : a.named "CamMemorySave" = true) : Branch env m s a (s.send [camMemorySave2internal.outMsg m])
  | other (inq : ¬a.named "CamMemoryInq" = true) (save : ¬a.named "CamMemorySave" = true) : Branch env m s a s

theorem Instructor.onAttr_branch (env : InstructorEnv) (m : Mem) (s : Instructor) (a : Attr) :
    s.Branch env m a (s.onAttr env m a) := by
  unfold onAttr
  by_cases hstart : a.named "Start" = true
  · rw [if_pos hstart]
    split
    · next idle => exact .start hstart idle
    · exact .quiet "Start" (by decide) hstart
  rw [if_neg hstart]
  by_cases hstop : a.named "Stop" = true
  · rw [if_pos hstop]
    split
    · next working => exact .stop hstop working
    · exact .quiet "Stop" (by decide) hstop
  rw [if_neg hstop]
  by_cases hpause : a.named "Pause" = true
  · rw [if_pos hpause]
    split
    · next working => exact .mark "Pause" (by decide) hpause working
    · exact .quiet "Pause" (by decide) hpause
  rw [if_neg hpause]
  by_cases hresume : a.named "Resume" = true
  · rw [if_pos hresume]
    split
    · next working => exact .mark "Resume" (by decide) hresume working
    · exact .quiet "Resume" (by decide) hresume
  rw [if_neg hresume]
  by_cases hvideo : a.named "SwitchVideo" = true
  · rw [if_pos hvideo]
    exact .pass "SwitchVideo" (by decide) hvideo
  rw [if_neg hvideo]
  by_cases hmode : a.named "SetRecordMode" = true
  · rw [if_pos hmode]
    exact .pass "SetRecordMode" (by decide) hmode
  rw [if_neg hmode]
  by_cases hzoom : a.named "CamZoom" = true
  · rw [if_pos hzoom]
    exact .zoom hzoom
  rw [if_neg hzoom]
  by_cases hpan : a.named "CamPanTilt" = true
  · rw [if_pos hpan]
    exact .panTilt hpan
  rw [if_neg hpan]
  by_cases hinq : a.named "CamMemoryInq" = true
  · rw [if_pos hinq]
    exact .memoryInq hinq
  rw [if_neg hinq]
  by_cases hsave : a.named "CamMemorySave" = true
  · rw [if_pos hsave]
    exact .memorySave hsave
  rw [if_neg hsave]
  exact .other hinq hsave

/-- What an attribute makes the handler do. -/
inductive Instructor.AttrStep (env : InstructorEnv) (s : Instructor) : Instructor → Prop
  | same : AttrStep env s s
  | start (idle : s.status = .idle) : AttrStep env s { s.send (startMsgs env) with status := .working }
  | stop (working : s.status = .working) : AttrStep env s { s.send stopMsgs with status := .idle }
  | mark (name : String) (mem : name ∈ ["Pause", "Resume"]) (working : s.status = .working) :
    AttrStep env s (s.send [internalMsg name])
  | pass (o : OutMsg) (passed : o.Passed) (fits : o.Fits) : AttrStep env s (s.send [o])

theorem Instructor.onAttr_step (hm : Handleable m) {a : Attr} (ha : a ∈ attrsOf m) : s.AttrStep env (s.onAttr env m a) := by
  have hpass : ∀ name ∈ ["SwitchVideo", "SetRecordMode"], a.named name = true →
      s.AttrStep env (s.send [⟨commandInternal, [.char (cstr a.name) (cstr a.value)]⟩]) := fun name hname hn => by
    have hnames : ∀ name ∈ ["SwitchVideo", "SetRecordMode"], ∀ name' ∈ ["Start", "Stop", "Pause", "Resume"],
        ascii name ≠ ascii name' := by decide
    refine .pass _ ⟨rfl, fun b hb name' hname' => ?_⟩ (OutMsg.fits_single rfl (nul_notMem_cstr _) ⟨?_, nul_notMem_cstr _⟩ ?_)
    · rw [List.mem_singleton.mp hb, ← Bool.not_eq_true, Attr.named_iff]
      change cstr (cstr a.name) ≠ ascii name'
      rw [cstr_cstr, Attr.named_iff.mp hn]
      exact hnames name hname name' hname'
    · exact Nat.le_trans (strlen_le _) (hm.name a ha)
    · exact Nat.le_trans (strlen_le _) (hm.value a ha)
  have hcam : ∀ v : CamVerb, v.Abbreviates → s.AttrStep env (s.send [v.outMsg m]) := fun v hv =>
    .pass _ (CamVerb.outMsg_passed hv m) (CamVerb.outMsg_fits hv hm)
  have hb := onAttr_branch env m s a
  generalize s.onAttr env m a = s' at hb ⊢
  cases hb with
  | start _ idle => exact .start idle
  | stop _ working => exact .stop working
  | mark name mem _ working => exact .mark name mem working
  | pass name mem named => exact hpass name mem named
  | zoom => exact hcam _ camZoom2internal_abbreviates
  | panTilt => exact hcam _ camPanTilt2internal_abbreviates
  | memoryInq => exact hcam _ camMemoryInq2internal_abbreviates
  | memorySave => exact hcam _ camMemorySave2internal_abbreviates
  | quiet | other => exact .same

/-- What every attribute keeps holds after any messages. -/
theorem Instructor.run_invariant {I : Instructor → Prop} (hI : ∀ env s s', I s → AttrStep env s s' → I s')
    (hs : I s) {msgs : List (InstructorEnv × Mem)} (hm : ∀ p ∈ msgs, Handleable p.2) : I (s.run msgs) := by
  refine List.foldlRecOn msgs _ hs fun s hs p hp => ?_
  unfold instructorMsgHandle
  split
  · exact List.foldlRecOn (attrsOf p.2) _ hs fun s hs a ha => hI p.1 s _ hs (onAttr_step (hm p hp) ha)
  · exact hs

end

/-! ### The order of what is sent -/

/-- An internal message with an attribute of the name. -/
def OutMsg.Internal (o : OutMsg) (name : String) : Prop := o.cmd = commandInternal ∧ ∃ a ∈ o.args, a.attr.named name = true

/-- The status after a message: each `GETDATA` changes it. -/
def OutMsg.next (st : RecbcStatus) (o : OutMsg) : RecbcStatus :=
  if o.cmd = commandGetdata then if st = .idle then .working else .idle else st

/-- What may be sent in a status. -/
structure OutMsg.Allowed (st : RecbcStatus) (o : OutMsg) : Prop where
  getdata : o.cmd = commandGetdata → o = getdataMsg (if st = .idle then "All" else "None")
  mark : o.Internal "Pause" ∨ o.Internal "Resume" → st = .working

/-- The status after messages. -/
def statusAfter (st : RecbcStatus) (sent : List OutMsg) : RecbcStatus := sent.foldl OutMsg.next st

/-- Every message is one that may be sent in the status before it. -/
def Lawful : RecbcStatus → List OutMsg → Prop
  | _, [] => True
  | st, o :: sent => o.Allowed st ∧ Lawful (o.next st) sent

/-- The `GETDATA` messages. -/
def getdatas (sent : List OutMsg) : List OutMsg := sent.filter fun o => o.cmd = commandGetdata

section
variable {st : RecbcStatus} {sent more : List OutMsg} {o : OutMsg}

theorem statusAfter_cons : statusAfter st (o :: sent) = statusAfter (o.next st) sent := rfl

theorem statusAfter_append : statusAfter st (sent ++ more) = statusAfter (statusAfter st sent) more := List.foldl_append

theorem lawful_append : Lawful st (sent ++ more) ↔ Lawful st sent ∧ Lawful (statusAfter st sent) more := by
  induction sent generalizing st with
  | nil => simp [Lawful, statusAfter]
  | cons o sent ih => simp only [List.cons_append, Lawful, ih, and_assoc, statusAfter, List.foldl_cons]

theorem OutMsg.allowed_of_ne (hdata : o.cmd ≠ commandGetdata) (hint : o.cmd ≠ commandInternal) : o.Allowed st :=
  ⟨fun h => absurd h hdata, fun h => absurd (h.elim And.left And.left) hint⟩

theorem OutMsg.next_of_ne (hdata : o.cmd ≠ commandGetdata) : o.next st = st := if_neg hdata

theorem OutMsg.Internal.name {name name' : String} {value : Nat} (h : OutMsg.Internal ⟨commandInternal, [.int (ascii name) value]⟩ name')
    (hname : 0 ∉ ascii name) : ascii name = ascii name' := by
  obtain ⟨-, a, ha, hnamed⟩ := h
  rw [List.mem_singleton.mp ha, Attr.named_iff] at hnamed
  exact (cstr_eq hname).symm.trans hnamed

theorem getdataMsg_next (type : String) : (getdataMsg type).next st = if st = .idle then .working else .idle := if_pos rfl

theorem getdataMsg_allowed : (getdataMsg (if st = .idle then "All" else "None")).Allowed st :=
  ⟨fun _ => rfl, fun hmark => absurd (hmark.elim And.left And.left) (show commandGetdata ≠ commandInternal by decide)⟩

theorem internalMsg_allowed {name : String} (hname : name ∈ ["Start", "Stop"]) : (internalMsg name).Allowed st := by
  have hne : ∀ name ∈ ["Start", "Stop"], 0 ∉ ascii name ∧ ascii name ≠ ascii "Pause" ∧ ascii name ≠ ascii "Resume" := by decide
  refine ⟨fun e => absurd e (show commandInternal ≠ commandGetdata by decide), ?_⟩
  rintro (hmark | hmark)
  · exact absurd (hmark.name (hne name hname).1) (hne name hname).2.1
  · exact absurd (hmark.name (hne name hname).1) (hne name hname).2.2

/-- The log is lawful, and the status of the thread is the one after it. -/
structure Instructor.Regular (s : Instructor) : Prop where
  lawful : Lawful .idle s.sent
  status : s.status = statusAfter .idle s.sent

theorem Instructor.Regular.send {s : Instructor} (h : s.Regular) {st : RecbcStatus} (hmore : Lawful s.status more)
    (hst : statusAfter s.status more = st) : Instructor.Regular { s.send more with status := st } := by
  rw [h.status] at hmore hst
  exact ⟨lawful_append.mpr ⟨h.lawful, hmore⟩, hst.symm.trans statusAfter_append.symm⟩

theorem Instructor.Regular.step {env : InstructorEnv} {s s' : Instructor} (h : s.Regular) (hs : s.AttrStep env s') :
    s'.Regular := by
  have hinternal : commandInternal ≠ commandGetdata := by decide
  have hled : commandSetLed ≠ commandGetdata ∧ commandSetLed ≠ commandInternal := by decide
  have hconfig : commandConfig ≠ commandGetdata ∧ commandConfig ≠ commandInternal := by decide
  cases hs with
  | same => exact h
  | start hidle =>
    have hall : (getdataMsg "All").Allowed s.status := by
      have hallowed : (getdataMsg (if s.status = .idle then "All" else "None")).Allowed s.status := getdataMsg_allowed
      rwa [hidle, if_pos rfl, ← hidle] at hallowed
    refine h.send ⟨OutMsg.allowed_of_ne hled.1 hled.2, ?_⟩ ?_
    · rw [OutMsg.next_of_ne hled.1]
      refine ⟨internalMsg_allowed (by simp), ?_⟩
      rw [OutMsg.next_of_ne hinternal]
      refine ⟨OutMsg.allowed_of_ne hconfig.1 hconfig.2, ?_⟩
      rw [OutMsg.next_of_ne hconfig.1]
      exact ⟨hall, trivial⟩
    · rw [startMsgs, statusAfter_cons, OutMsg.next_of_ne hled.1, statusAfter_cons, OutMsg.next_of_ne hinternal,
        statusAfter_cons, OutMsg.next_of_ne hconfig.1, statusAfter_cons, getdataMsg_next, hidle]
      rfl
  | stop hworking =>
    have hnone : (getdataMsg "None").Allowed s.status := by
      have hallowed : (getdataMsg (if s.status = .idle then "All" else "None")).Allowed s.status := getdataMsg_allowed
      rwa [hworking, if_neg (by decide), ← hworking] at hallowed
    refine h.send ⟨OutMsg.allowed_of_ne hled.1 hled.2, ?_⟩ ?_
    · rw [OutMsg.next_of_ne hled.1]
      refine ⟨internalMsg_allowed (by simp), ?_⟩
      rw [OutMsg.next_of_ne hinternal]
      exact ⟨hnone, trivial⟩
    · rw [stopMsgs, statusAfter_cons, OutMsg.next_of_ne hled.1, statusAfter_cons, OutMsg.next_of_ne hinternal,
        statusAfter_cons, getdataMsg_next, hworking]
      rfl
  | mark name mem hworking =>
    exact h.send ⟨⟨fun e => absurd e hinternal, fun _ => hworking⟩, trivial⟩ (OutMsg.next_of_ne (o := internalMsg name) hinternal)
  | pass o passed fits =>
    have hdata : o.cmd ≠ commandGetdata := passed.cmd ▸ hinternal
    have hnomark : ∀ name ∈ ["Start", "Stop", "Pause", "Resume"], ¬ o.Internal name := fun name hname hint => by
      obtain ⟨-, a, ha, hnamed⟩ := hint
      exact absurd hnamed (by rw [passed.names a ha name hname]; decide)
    refine h.send ⟨⟨fun e => absurd e hdata, ?_⟩, trivial⟩ (OutMsg.next_of_ne (o := o) hdata)
    rintro (hmark | hmark)
    · exact absurd hmark (hnomark "Pause" (by simp))
    · exact absurd hmark (hnomark "Resume" (by simp))

theorem Instructor.Regular.run {msgs : List (InstructorEnv × Mem)} (hm : ∀ p ∈ msgs, Handleable p.2) :
    (Instructor.start.run msgs).Regular := by
  have hstart : Instructor.start.Regular := ⟨trivial, rfl⟩
  exact Instructor.run_invariant (I := Instructor.Regular) (fun _ _ _ h hs => h.step hs) hstart hm

/-- All messages sent fit. -/
theorem Instructor.run_fits {s : Instructor} (hs : ∀ o ∈ s.sent, o.Fits) {msgs : List (InstructorEnv × Mem)}
    (hm : ∀ p ∈ msgs, Handleable p.2) : ∀ o ∈ (s.run msgs).sent, o.Fits := by
  refine Instructor.run_invariant (I := fun s => ∀ o ∈ s.sent, o.Fits) (fun env s s' h hs => ?_) hs hm
  cases hs with
  | same => exact h
  | start hidle => exact List.forall_mem_append.mpr ⟨h, startMsgs_fits⟩
  | stop hworking => exact List.forall_mem_append.mpr ⟨h, stopMsgs_fits⟩
  | mark name mem hworking =>
    refine List.forall_mem_append.mpr ⟨h, List.forall_mem_singleton.mpr (internalMsg_fits ?_)⟩
    exact List.mem_cons_of_mem _ (List.mem_cons_of_mem _ mem)
  | pass o passed fits => exact List.forall_mem_append.mpr ⟨h, List.forall_mem_singleton.mpr fits⟩

/-- In a lawful log the `GETDATA` messages ask for everything and for nothing in turn. -/
theorem Lawful.getdata_at (h : Lawful st sent) {i : Nat} (hi : (getdatas sent)[i]? = some o) :
    o = getdataMsg (if (i % 2 = 0) = (st = .idle) then "All" else "None") := by
  induction sent generalizing st i with
  | nil => cases hi
  | cons o' sent ih =>
    obtain ⟨hallowed, hrest⟩ := h
    unfold getdatas at hi
    rw [List.filter_cons] at hi
    by_cases hcmd : o'.cmd = commandGetdata
    · rw [if_pos (decide_eq_true hcmd)] at hi
      cases i with
      | zero =>
        cases hi
        simpa using hallowed.getdata hcmd
      | succ i =>
        rw [List.getElem?_cons_succ] at hi
        rw [ih hrest hi, OutMsg.next, if_pos hcmd]
        congr 2
        cases st <;> simp <;> omega
    · rw [if_neg (by simpa using hcmd)] at hi
      have hnext := ih hrest hi
      rwa [OutMsg.next_of_ne hcmd] at hnext

theorem getdataMsg_ne : getdataMsg "All" ≠ getdataMsg "None" := fun h => by
  have hargs := congrArg OutMsg.args h
  simp only [getdataMsg, List.cons.injEq, AttrArg.char.injEq, and_true, true_and] at hargs
  exact absurd hargs (by decide)

theorem getdatas_append : getdatas (sent ++ more) = getdatas sent ++ getdatas more := List.filter_append ..

/-- A lawful log leaves the status `RECBC_WORKING` exactly when its last `GETDATA` asks for everything. -/
theorem Lawful.last (h : Lawful .idle sent) :
    statusAfter .idle sent = .working ↔ (getdatas sent).getLast? = some (getdataMsg "All") := by
  induction sent using List.reverseRecOn with
  | nil => exact iff_of_false nofun nofun
  | append_singleton sent o ih =>
    obtain ⟨hbefore, hallowed, -⟩ := lawful_append.mp h
    have hlast := ih hbefore
    rw [statusAfter_append, getdatas_append]
    change o.next (statusAfter .idle sent) = .working ↔ _
    by_cases hcmd : o.cmd = commandGetdata
    · have ho := hallowed.getdata hcmd
      have hsingle : getdatas [o] = [o] := List.filter_cons_of_pos (by simpa using hcmd)
      rw [hsingle, List.getLast?_concat, OutMsg.next, if_pos hcmd, Option.some.injEq]
      cases hst : statusAfter .idle sent with
      | idle =>
        rw [hst, if_pos rfl] at ho
        exact iff_of_true rfl ho
      | working =>
        rw [hst, if_neg (by decide)] at ho
        exact iff_of_false nofun (ho ▸ getdataMsg_ne.symm)
    · have hnone : getdatas [o] = [] := List.filter_cons_of_neg (by simpa using hcmd)
      rw [hnone, List.append_nil, OutMsg.next_of_ne hcmd]
      exact hlast

/-- The first `GETDATA` that follows in a working status asks for nothing. -/
theorem Lawful.next_getdata (h : Lawful .working sent) (ho : (getdatas sent).head? = some o) : o = getdataMsg "None" := by
  rw [List.head?_eq_getElem?] at ho
  exact h.getdata_at ho

/-- What follows a message of the kind `P` satisfies `Q`. -/
def Followed (P : OutMsg → Prop) (Q : List OutMsg → Prop) : List OutMsg → Prop
  | [] => True
  | o :: sent => (P o → Q sent) ∧ Followed P Q sent

section
variable {P : OutMsg → Prop} {Q : List OutMsg → Prop}

theorem Followed.at (h : Followed P Q sent) {pre post : List OutMsg} (hsent : sent = pre ++ o :: post) (ho : P o) : Q post := by
  induction pre generalizing sent with
  | nil =>
    subst hsent
    exact h.1 ho
  | cons p pre ih =>
    subst hsent
    exact ih h.2 rfl

theorem Followed.append (hQ : ∀ post more, Q post → Q (post ++ more)) (h : Followed P Q sent) (h' : Followed P Q more) :
    Followed P Q (sent ++ more) := by
  induction sent with
  | nil => exact h'
  | cons o sent ih => exact ⟨fun ho => hQ _ _ (h.1 ho), ih h.2⟩

theorem Followed.of_not (h : ∀ o ∈ sent, ¬ P o) : Followed P Q sent := by
  induction sent with
  | nil => trivial
  | cons o sent ih =>
    rw [List.forall_mem_cons] at h
    exact ⟨fun ho => absurd ho h.1, ih h.2⟩

end

theorem OutMsg.not_internal {name : String} (h : o.cmd ≠ commandInternal) : ¬ o.Internal name := fun hint => h hint.1

theorem internalMsg_internal {name name' : String} (hname : name ∈ ["Start", "Stop", "Pause", "Resume"])
    (hname' : name' ∈ ["Start", "Stop", "Pause", "Resume"]) (h : (internalMsg name).Internal name') : name = name' := by
  have hinj : ∀ n ∈ ["Start", "Stop", "Pause", "Resume"], 0 ∉ ascii n ∧
      ∀ n' ∈ ["Start", "Stop", "Pause", "Resume"], ascii n = ascii n' → n = n' := by decide
  exact (hinj name hname).2 name' hname' (h.name (hinj name hname).1)

theorem OutMsg.Passed.not_internal (h : o.Passed) {name : String} (hname : name ∈ ["Start", "Stop", "Pause", "Resume"]) :
    ¬ o.Internal name := by
  rintro ⟨-, a, ha, hnamed⟩
  rw [h.names a ha name hname] at hnamed
  exact absurd hnamed (by decide)

/-- Recording sessions alternate in what is sent, and the status is that of the last one. -/
structure Alternating (sent : List OutMsg) (status : RecbcStatus) : Prop where
  getdata : ∀ i o, (getdatas sent)[i]? = some o → o = getdataMsg (if i % 2 = 0 then "All" else "None")
  start : ∀ pre o post, sent = pre ++ o :: post → o.Internal "Start" →
    ∃ env rest, post = configMsg env :: getdataMsg "All" :: rest
  stop : ∀ pre o post, sent = pre ++ o :: post → o.Internal "Stop" → ∃ rest, post = getdataMsg "None" :: rest
  mark : ∀ pre o post, sent = pre ++ o :: post → o.Internal "Pause" ∨ o.Internal "Resume" →
    (getdatas pre).getLast? = some (getdataMsg "All") ∧ ∀ g, (getdatas post).head? = some g → g = getdataMsg "None"
  status : status = .working ↔ (getdatas sent).getLast? = some (getdataMsg "All")

/-- The messages `Start` and `Stop` come right before their `GETDATA`. -/
def AnnouncesGetdata (sent : List OutMsg) : Prop :=
  Followed (OutMsg.Internal · "Start") (fun post => ∃ env rest, post = configMsg env :: getdataMsg "All" :: rest) sent ∧
    Followed (OutMsg.Internal · "Stop") (fun post => ∃ rest, post = getdataMsg "None" :: rest) sent

theorem Instructor.run_announces {msgs : List (InstructorEnv × Mem)} (hm : ∀ p ∈ msgs, Handleable p.2) :
    AnnouncesGetdata (Instructor.start.run msgs).sent := by
  have hled : commandSetLed ≠ commandInternal := by decide
  have hconfig : commandConfig ≠ commandInternal := by decide
  have hdata : commandGetdata ≠ commandInternal := by decide
  have hne : ∀ {name name' : String}, name ∈ ["Start", "Stop", "Pause", "Resume"] → name' ∈ ["Start", "Stop", "Pause", "Resume"] →
      name ≠ name' → ¬ (internalMsg name).Internal name' := fun h h' hne hint => hne (internalMsg_internal h h' hint)
  have hstart : ∀ post more, (∃ env rest, post = configMsg env :: getdataMsg "All" :: rest) →
      ∃ env rest, post ++ more = configMsg env :: getdataMsg "All" :: rest := by
    rintro _ more ⟨env, rest, rfl⟩
    exact ⟨env, rest ++ more, rfl⟩
  have hstop : ∀ post more, (∃ rest, post = getdataMsg "None" :: rest) → ∃ rest, post ++ more = getdataMsg "None" :: rest := by
    rintro _ more ⟨rest, rfl⟩
    exact ⟨rest ++ more, rfl⟩
  have hinit : AnnouncesGetdata Instructor.start.sent := ⟨trivial, trivial⟩
  refine Instructor.run_invariant (I := fun s => AnnouncesGetdata s.sent) (fun env s s' h hs => ?_) hinit hm
  cases hs with
  | same => exact h
  | start hidle =>
    refine ⟨h.1.append hstart ⟨fun hint => absurd hint (OutMsg.not_internal hled), fun _ => ⟨env, [], rfl⟩, ?_⟩,
      h.2.append hstop (.of_not ?_)⟩
    · exact .of_not (List.forall_mem_cons.mpr ⟨OutMsg.not_internal hconfig, List.forall_mem_singleton.mpr (OutMsg.not_internal hdata)⟩)
    · simp only [startMsgs, List.forall_mem_cons, List.not_mem_nil, false_imp_iff, implies_true, and_true]
      exact ⟨OutMsg.not_internal hled, hne (by simp) (by simp) (by decide), OutMsg.not_internal hconfig, OutMsg.not_internal hdata⟩
  | stop hworking =>
    refine ⟨h.1.append hstart (.of_not ?_), h.2.append hstop ⟨fun hint => absurd hint (OutMsg.not_internal hled),
      fun _ => ⟨[], rfl⟩, .of_not (List.forall_mem_singleton.mpr (OutMsg.not_internal hdata))⟩⟩
    simp only [stopMsgs, List.forall_mem_cons, List.not_mem_nil, false_imp_iff, implies_true, and_true]
    exact ⟨OutMsg.not_internal hled, hne (by simp) (by simp) (by decide), OutMsg.not_internal hdata⟩
  | mark name mem hworking =>
    have hmem : name ∈ ["Start", "Stop", "Pause", "Resume"] := List.mem_cons_of_mem _ (List.mem_cons_of_mem _ mem)
    have hnames : ∀ name ∈ ["Pause", "Resume"], name ≠ "Start" ∧ name ≠ "Stop" := by decide
    exact ⟨h.1.append hstart (.of_not (List.forall_mem_singleton.mpr (hne hmem (by simp) (hnames name mem).1))),
      h.2.append hstop (.of_not (List.forall_mem_singleton.mpr (hne hmem (by simp) (hnames name mem).2)))⟩
  | pass o passed fits =>
    exact ⟨h.1.append hstart (.of_not (List.forall_mem_singleton.mpr (passed.not_internal (by simp)))),
      h.2.append hstop (.of_not (List.forall_mem_singleton.mpr (passed.not_internal (by simp))))⟩

/-- Whatever messages the instructor sends, the sessions alternate. -/
theorem Instructor.run_alternating {msgs : List (InstructorEnv × Mem)} (hm : ∀ p ∈ msgs, Handleable p.2) :
    Alternating (Instructor.start.run msgs).sent (Instructor.start.run msgs).status := by
  obtain ⟨hlawful, hstatus⟩ := Instructor.Regular.run hm
  obtain ⟨hstart, hstop⟩ := Instructor.run_announces hm
  refine ⟨fun i o hi => ?_, fun pre o post hsent ho => hstart.at hsent ho, fun pre o post hsent ho => hstop.at hsent ho,
    fun pre o post hsent ho => ?_, ?_⟩
  · simpa using hlawful.getdata_at hi
  · rw [hsent, lawful_append] at hlawful
    obtain ⟨hpre, hallowed, hpost⟩ := hlawful
    have hworking := hallowed.mark ho
    have hne : o.cmd ≠ commandGetdata := by
      rw [ho.elim And.left And.left]
      decide
    rw [OutMsg.next_of_ne hne, hworking] at hpost
    exact ⟨hpre.last.mp hworking, fun g hg => hpost.next_getdata hg⟩
  · rw [hstatus]
    exact hlawful.last

end

end Recbcsrv
