import Recbcsrv.Switch.Policy

/-! The configuration that the server reads when it starts: the map of its videos (`vmap_table_load`) and its settings
    (`config_load`). Both walk over the modules, their groups and the values of these, with `nodeAttr` for the attribute that
    was read last, and hand attributes and texts to `strcmp`, `strcpy` and `atoi` as they come. -/

namespace Recbcsrv

/-! ### Strings -/

/-- What an array of `n` bytes holds. -/
abbrev CharArray (n : Nat) := { s : String // s.utf8ByteSize < n }

/-- `strcpy` to an array of `n` bytes. The text goes past the array when there is no room for it and its end. -/
def strcpy (n : Nat) (txt : String) : Option (CharArray n) := if h : txt.utf8ByteSize < n then some ⟨txt, h⟩ else none

/-- `isspace`. -/
def isSpace (c : Char) : Bool := c ∈ [' ', '\t', '\n', '\x0b', '\x0c', '\r']

/-- The digits at the front. -/
def decimal (cs : List Char) : Int := (cs.takeWhile Char.isDigit).foldl (fun n c => 10 * n + (c.toNat - '0'.toNat : Nat)) 0

/-- `atoi`, for numbers in the range of an `int`. -/
def atoi (txt : String) : Int :=
  match txt.toList.dropWhile isSpace with
  | '-' :: cs => -decimal cs
  | '+' :: cs => decimal cs
  | cs => decimal cs

/-! ### Walking over the tree -/

/-- A key, and what is done with the text of its value. -/
abbrev ConfigEntry (σ : Type) := String × (String → σ → Option σ)

/-- The name of a group, and its values. -/
abbrev ConfigGroup (σ : Type) := String × List (ConfigEntry σ)

/-- The name of a module, and its groups. -/
abbrev ConfigModule (σ : Type) := String × List (ConfigGroup σ)

section
variable {σ : Type}

/-- The comparison of `nodeAttr` with a key, and what is done with the text. -/
def compareKey (key : String) (node : XmlNode) (s : σ) (entry : ConfigEntry σ) : Option σ :=
  if key = entry.1 then node.getText.bind fun txt => entry.2 txt s else some s

/-- A node of a group: `nodeAttr` is now the key of the value. -/
def loadValue (entries : List (ConfigEntry σ)) (st : String × σ) (node : XmlNode) : Option (String × σ) :=
  if node.isElement "configValue" then
    (node.attr "key").bind fun key => (Exec.exec (compareKey key node) st.2 entries).map fun s => (key, s)
  else some st

/-- The comparison of `nodeAttr` with the name of a group, and the loop over the nodes of the group. -/
def compareGroup (nodes : List XmlNode) (st : String × σ) (group : ConfigGroup σ) : Option (String × σ) :=
  if st.1 = group.1 then Exec.exec (loadValue group.2) st nodes else some st

/-- A node of a module: `nodeAttr` is now the name of the group. -/
def loadGroupOf (groups : List (ConfigGroup σ)) (st : String × σ) (node : XmlNode) : Option (String × σ) :=
  if node.isElement "group" then
    (node.attr "name").bind fun name => Exec.exec (compareGroup node.children) (name, st.2) groups
  else some st

/-- The comparison of `nodeAttr` with the name of a module, and the loop over the nodes of the module. -/
def compareModule (nodes : List XmlNode) (st : String × σ) (module : ConfigModule σ) : Option (String × σ) :=
  if st.1 = module.1 then Exec.exec (loadGroupOf module.2) st nodes else some st

/-- A sibling of the first module. -/
def loadModuleOf (modules : List (ConfigModule σ)) (s : σ) (node : XmlNode) : Option σ :=
  if node.isElement "module" then
    (node.attr "name").bind fun name => (Exec.exec (compareModule node.children) (name, s) modules).map Prod.snd
  else some s

/-- What a loader does with the file. There is no result when it hands on a null pointer or writes past an array. -/
def loadFile (modules : List (ConfigModule σ)) (reset : σ → σ) (file : PolicyFile) (s : σ) : Option (Int × σ) :=
  match file with
  | .tree root => (Exec.exec (loadModuleOf modules) (reset s) (root.findBelow "module")).map fun s => (0, s)
  | _ => some (-1, s)

end

/-! ### The map of the videos -/

/-- The fields of a `t_video_map` that the loader writes. -/
structure VideoMapEntry where
  function : Int
  uartChannel : Int
  capId : Int
  camVendor : CharArray 32
  camModel : CharArray 32

/-- `vmap_table`. -/
abbrev VmapTable := Fin 6 → VideoMapEntry

def VmapTable.modify (table : VmapTable) (capbrd : Fin 6) (f : VideoMapEntry → VideoMapEntry) : VmapTable :=
  Function.update table capbrd (f (table capbrd))

/-- The value `Interface` of a board. -/
def setInterface (capbrd : Fin 6) (txt : String) (v : VideoMapEntry) : VideoMapEntry :=
  if txt = "HDSDI" then { v with capId := capbrd.val + 1 }
  else if txt = "HDMI" then { v with capId := capbrd.val + 16 + 1 }
  else v

/-- The value `Bind` of a board. -/
def setBind (txt : String) (v : VideoMapEntry) : VideoMapEntry :=
  if txt = "Teacher_Special" then { v with function := 1 }
  else if txt = "Student_Special" then { v with function := 2 }
  else if txt = "Teacher_Full" then { v with function := 3 }
  else if txt = "Student_Full" then { v with function := 4 }
  else if txt = "Blackboard" then { v with function := 5 }
  else v

/-- The value `Bind` of the first board, which sets the channel too. -/
def setBindUart (txt : String) (v : VideoMapEntry) : VideoMapEntry :=
  if txt = "Teacher_Special" then { setBind txt v with uartChannel := 1 }
  else if txt = "Student_Special" then { setBind txt v with uartChannel := 3 }
  else setBind txt v

/-- The values of a board. -/
def boardEntries (capbrd : Fin 6) (bind : String → VideoMapEntry → VideoMapEntry) :
    List (ConfigEntry VmapTable) :=
  [("Interface", fun txt table => some (table.modify capbrd (setInterface capbrd txt))),
    ("Bind", fun txt table => some (table.modify capbrd (bind txt))),
    ("Vendor", fun txt table => (strcpy 32 txt).map fun s => table.modify capbrd fun v => { v with camVendor := s }),
    ("CamModel", fun txt table => (strcpy 32 txt).map fun s => table.modify capbrd fun v => { v with camModel := s })]

/-- The groups of the module `CaptureBoard`, in the order of the comparisons. -/
def captureBoards : List (ConfigGroup VmapTable) :=
  [("CaptureBoard1", boardEntries 0 setBindUart), ("CaptureBoard2", boardEntries 1 setBind),
    ("CaptureBoard3", boardEntries 2 setBind), ("CaptureBoard4", boardEntries 3 setBind),
    ("CaptureBoard5", boardEntries 4 setBind)]

/-- `vmap_table_load`. -/
def vmapTableLoad : PolicyFile → VmapTable → Option (Int × VmapTable) :=
  loadFile [("CaptureBoard", captureBoards)] fun table i => { table i with function := -1 }

/-! ### The settings -/

/-- `t_recbc_cfg`. The frame rate is a `float`, and only whole numbers are read. -/
structure RecbcCfg where
  frameWidth : Int
  frameHeight : Int
  frameRate : Int
  liveBitrate : Int
  isResouceMode : Int
  isAutoInstuct : Int
  policyFileName : CharArray 64
  vgaDuration : Int

def setResolutions (txt : String) (cfg : RecbcCfg) : RecbcCfg :=
  if txt = "1080p" then { cfg with frameHeight := 1080, frameWidth := 1920 }
  else if txt = "720p" then { cfg with frameHeight := 720, frameWidth := 1280 }
  else cfg

def setRecordMode (txt : String) (cfg : RecbcCfg) : RecbcCfg :=
  if txt = "Manual" then { cfg with isAutoInstuct := 0 }
  else if txt = "HalfAuto" then { cfg with isAutoInstuct := 1 }
  else if txt = "Auto" then { cfg with isAutoInstuct := 2 }
  else cfg

/-- The values of the group `BitRate`. -/
def bitRateEntries : List (ConfigEntry RecbcCfg) :=
  [("LiveBitRate", fun txt cfg => some { cfg with liveBitrate := atoi txt }),
    ("FrameRate", fun txt cfg => some { cfg with frameRate := atoi txt }),
    ("resolutions", fun txt cfg => some (setResolutions txt cfg)),
    ("RecordMode", fun txt cfg => some { cfg with isResouceMode := if txt = "SingleStream" then 0 else 1 })]

/-- The values of the group `Default`. -/
def defaultEntries : List (ConfigEntry RecbcCfg) :=
  [("PolicyFile", fun txt cfg => (strcpy 64 txt).map fun s => { cfg with policyFileName := s }),
    ("SetRecordMode", fun txt cfg => some (setRecordMode txt cfg)),
    ("VGADuration", fun txt cfg => some { cfg with vgaDuration := atoi txt })]

/-- `config_load`. -/
def configLoad : PolicyFile → RecbcCfg → Option (Int × RecbcCfg) :=
  loadFile [("Codec", [("BitRate", bitRateEntries)]), ("System", [("Default", defaultEntries)])] id

/-! ### Configurations that can be read -/

namespace XmlNode

/-- The value has a key, and the text that goes with the key is there and fits. -/
def Readable (rooms : List (String × Option Nat)) (v : XmlNode) : Prop :=
  ∃ key, v.attr "key" = some key ∧ ∀ r ∈ rooms, key = r.1 → ∃ txt, v.getText = some txt ∧ ∀ n ∈ r.2, txt.utf8ByteSize < n

/-- The groups of the module have names, and the values of the groups with one of the names can be read. -/
def ModuleReadable (names : List String) (rooms : List (String × Option Nat)) (m : XmlNode) : Prop :=
  ∀ g ∈ m.children, g.isElement "group" = true → ∃ name, g.attr "name" = some name ∧
    (name ∈ names → ∀ v ∈ g.children, v.isElement "configValue" = true → v.Readable rooms)

/-- The keys in the group. -/
def keys (g : XmlNode) : List String := g.children.filterMap fun v => if v.isElement "configValue" then v.attr "key" else none

/-- The last attribute in the module, where the keys count in the groups with the name. -/
def lastAttr (group : String) (m : XmlNode) : Option String :=
  (m.children.flatMap fun g => if g.isElement "group" then
    (g.attr "name").toList ++ if g.attr "name" = some group then g.keys else [] else []).getLast?

/-- The arrays that the texts of a board are copied to. -/
def boardRooms : List (String × Option Nat) := [("Interface", none), ("Bind", none), ("Vendor", some 32), ("CamModel", some 32)]

def bitRateRooms : List (String × Option Nat) :=
  [("LiveBitRate", none), ("FrameRate", none), ("resolutions", none), ("RecordMode", none)]

def defaultRooms : List (String × Option Nat) := [("PolicyFile", some 64), ("SetRecordMode", none), ("VGADuration", none)]

/-- What `vmap_table_load` reads is there, and fits. -/
def VmapReadable (root : XmlNode) : Prop :=
  ∀ m ∈ root.findBelow "module", m.isElement "module" = true → ∃ name, m.attr "name" = some name ∧
    (name = "CaptureBoard" → m.ModuleReadable
      ["CaptureBoard1", "CaptureBoard2", "CaptureBoard3", "CaptureBoard4", "CaptureBoard5"] boardRooms)

/-- What `config_load` reads is there, and fits. A module `Codec` whose last attribute is `System` is read as one too. -/
def ConfigReadable (root : XmlNode) : Prop :=
  ∀ m ∈ root.findBelow "module", m.isElement "module" = true → ∃ name, m.attr "name" = some name ∧
    (name = "Codec" → m.ModuleReadable ["BitRate"] bitRateRooms) ∧
    (name = "System" ∨ name = "Codec" ∧ m.lastAttr "BitRate" = some "System" → m.ModuleReadable ["Default"] defaultRooms)

end XmlNode

/-- The keys and arrays of the entries. -/
def Entries {σ : Type} (entries : List (ConfigEntry σ)) (rooms : List (String × Option Nat)) : Prop :=
  List.Forall₂ (fun e r => e.1 = r.1 ∧ ∀ txt s, (e.2 txt s).isSome ↔ ∀ n ∈ r.2, txt.utf8ByteSize < n) entries rooms

theorem isSome_strcpy {n : Nat} {txt : String} : (strcpy n txt).isSome ↔ txt.utf8ByteSize < n := by
  unfold strcpy
  split
  · next h => exact iff_of_true rfl h
  · next h => exact iff_of_false Bool.false_ne_true h

section
variable {σ : Type} {entries : List (ConfigEntry σ)} {rooms : List (String × Option Nat)}
  {groups : List (ConfigGroup σ)} {nodes : List XmlNode} {st st' : String × σ} {node : XmlNode}

theorem Entries.isSome_exec (h : Entries entries rooms) (key : String) (s : σ) :
    (Exec.exec (compareKey key node) s entries).isSome ↔
      ∀ r ∈ rooms, key = r.1 → ∃ txt, node.getText = some txt ∧ ∀ n ∈ r.2, txt.utf8ByteSize < n := by
  induction h generalizing s with
  | nil => exact iff_of_true rfl fun r hr => absurd hr List.not_mem_nil
  | @cons e r entries rooms her _ ih =>
    rw [Exec.isSome_exec_cons, List.forall_mem_cons]
    obtain ⟨hkey, hfits⟩ := her
    unfold compareKey
    by_cases hk : key = e.1
    · rw [if_pos hk]
      constructor
      · rintro ⟨t, ht, hrest⟩
        obtain ⟨txt, htxt, ht⟩ := Option.bind_eq_some_iff.mp ht
        exact ⟨fun _ => ⟨txt, htxt, (hfits txt s).mp (ht ▸ rfl)⟩, (ih t).mp hrest⟩
      · rintro ⟨hhead, hrest⟩
        obtain ⟨txt, htxt, hroom⟩ := hhead (hk.trans hkey)
        obtain ⟨t, ht⟩ := Option.isSome_iff_exists.mp ((hfits txt s).mpr hroom)
        exact ⟨t, Option.bind_eq_some_iff.mpr ⟨txt, htxt, ht⟩, (ih t).mpr hrest⟩
    · rw [if_neg hk]
      constructor
      · rintro ⟨t, ht, hrest⟩
        exact ⟨fun hr => absurd (hr.trans hkey.symm) hk, (ih t).mp hrest⟩
      · rintro ⟨-, hrest⟩
        exact ⟨s, rfl, (ih s).mpr hrest⟩

theorem Entries.isSome_loadValue (h : Entries entries rooms) :
    (loadValue entries st node).isSome ↔ (node.isElement "configValue" = true → node.Readable rooms) := by
  refine Exec.isSome_ite fun _ => Exec.isSome_bind fun key => ?_
  rw [Option.isSome_map]
  exact h.isSome_exec key st.2

/-- A group that is read again, as another one of the module, has been read to its end before. -/
theorem isSome_compareGroups (h : ∀ g ∈ groups, Entries g.2 rooms) :
    (Exec.exec (compareGroup nodes) st groups).isSome ↔
      (st.1 ∈ groups.map Prod.fst → ∀ v ∈ nodes, v.isElement "configValue" = true → v.Readable rooms) := by
  induction groups generalizing st with
  | nil => exact iff_of_true rfl fun hst => absurd hst List.not_mem_nil
  | cons g groups ih =>
    obtain ⟨hg, hgroups⟩ := List.forall_mem_cons.mp h
    have hvalues : (Exec.exec (loadValue g.2) st nodes).isSome ↔ ∀ v ∈ nodes, v.isElement "configValue" = true → v.Readable rooms :=
      Exec.exec_isSome_iff_forall fun s v _ => hg.isSome_loadValue
    rw [Exec.isSome_exec_cons, List.map_cons, List.mem_cons]
    unfold compareGroup
    by_cases hname : st.1 = g.1
    · rw [if_pos hname, imp_iff_right (Or.inl hname), ← hvalues, Option.isSome_iff_exists]
      constructor
      · rintro ⟨t, ht, -⟩
        exact ⟨t, ht⟩
      · rintro ⟨t, ht⟩
        exact ⟨t, ht, (ih hgroups).mpr fun _ => hvalues.mp (Option.isSome_iff_exists.mpr ⟨t, ht⟩)⟩
    · rw [if_neg hname, or_iff_right hname, ← ih hgroups]
      constructor
      · rintro ⟨t, ht, hrest⟩
        exact Option.some.inj ht ▸ hrest
      · exact fun hrest => ⟨st, rfl, hrest⟩

theorem isSome_loadGroupOf (h : ∀ g ∈ groups, Entries g.2 rooms) :
    (loadGroupOf groups st node).isSome ↔ (node.isElement "group" = true → ∃ name, node.attr "name" = some name ∧
      (name ∈ groups.map Prod.fst → ∀ v ∈ node.children, v.isElement "configValue" = true → v.Readable rooms)) :=
  Exec.isSome_ite fun _ => Exec.isSome_bind fun _ => isSome_compareGroups h

theorem loadValue_fst (entries : List (ConfigEntry σ)) (st : String × σ) (node : XmlNode) (st' : String × σ)
    (h : loadValue entries st node = some st') :
    st'.1 = ((if node.isElement "configValue" then node.attr "key" else none).toList.getLast?).getD st.1 := by
  unfold loadValue at h
  by_cases hvalue : node.isElement "configValue" = true
  · rw [if_pos hvalue] at h ⊢
    obtain ⟨key, hkey, h⟩ := Option.bind_eq_some_iff.mp h
    obtain ⟨s, -, rfl⟩ := Option.map_eq_some_iff.mp h
    rw [hkey]
    rfl
  · rw [if_neg hvalue] at h ⊢
    cases h
    rfl

/-- The attribute that a module with one group to read leaves in `nodeAttr`. -/
theorem loadGroups_fst {group : String} {m : XmlNode} (h : Exec.exec (loadGroupOf [(group, entries)]) st m.children = some st') :
    st'.1 = (m.lastAttr group).getD st.1 := by
  refine Exec.exec_getLast (fun st g st' hg => ?_) h
  unfold loadGroupOf at hg
  by_cases helement : g.isElement "group" = true
  · rw [if_pos helement] at hg ⊢
    obtain ⟨name, hname, hg⟩ := Option.bind_eq_some_iff.mp hg
    rw [Exec.exec_singleton] at hg
    unfold compareGroup at hg
    rw [hname, List.getLast?_append]
    by_cases hgroup : name = group
    · rw [if_pos hgroup] at hg
      have hlast := Exec.exec_getLast (loadValue_fst entries) hg
      rw [hgroup, if_pos rfl, hlast, XmlNode.keys, List.filterMap_eq_flatMap_toList, hgroup]
      cases (g.children.flatMap _).getLast? <;> rfl
    · have hother : ¬some name = some group := fun he => hgroup (Option.some.inj he)
      rw [if_neg hgroup] at hg
      rw [if_neg hother, ← Option.some.inj hg]
      rfl
  · rw [if_neg helement] at hg ⊢
    cases hg
    rfl

theorem isSome_loadGroups (h : ∀ g ∈ groups, Entries g.2 rooms) (st : String × σ) (m : XmlNode) :
    (Exec.exec (loadGroupOf groups) st m.children).isSome ↔ m.ModuleReadable (groups.map Prod.fst) rooms :=
  Exec.exec_isSome_iff_forall fun _ _ _ => isSome_loadGroupOf h

/-- A loader of which it is known, for the modules it finds, which ones it can read. -/
theorem isSome_loadFile {modules : List (ConfigModule σ)} {reset : σ → σ}
    {P : String → XmlNode → Prop} (h : ∀ m name s, (Exec.exec (compareModule m.children) (name, s) modules).isSome ↔ P name m)
    (root : XmlNode) (s : σ) : (loadFile modules reset (.tree root) s).isSome ↔
      ∀ m ∈ root.findBelow "module", m.isElement "module" = true → ∃ name, m.attr "name" = some name ∧ P name m := by
  unfold loadFile
  rw [Option.isSome_map]
  refine Exec.exec_isSome_iff_forall fun s m _ => Exec.isSome_ite fun _ => Exec.isSome_bind fun name => ?_
  rw [Option.isSome_map]
  exact h m name s

end

theorem entries_board (capbrd : Fin 6) (bind : String → VideoMapEntry → VideoMapEntry) :
    Entries (boardEntries capbrd bind) XmlNode.boardRooms := by
  simp [Entries, boardEntries, XmlNode.boardRooms, isSome_strcpy]

theorem entries_bitRate : Entries bitRateEntries XmlNode.bitRateRooms := by
  simp [Entries, bitRateEntries, XmlNode.bitRateRooms]

theorem entries_default : Entries defaultEntries XmlNode.defaultRooms := by
  simp [Entries, defaultEntries, XmlNode.defaultRooms, isSome_strcpy]

theorem isSome_vmapTableLoad (root : XmlNode) (table : VmapTable) :
    (vmapTableLoad (.tree root) table).isSome ↔ root.VmapReadable := by
  refine isSome_loadFile (fun m name table => ?_) root table
  have hboards : ∀ g ∈ captureBoards, Entries g.2 XmlNode.boardRooms := by
    simp [captureBoards, entries_board]
  rw [Exec.exec_singleton]
  exact Exec.isSome_ite fun _ => isSome_loadGroups hboards (name, table) m

theorem isSome_configLoad (root : XmlNode) (cfg : RecbcCfg) :
    (configLoad (.tree root) cfg).isSome ↔ root.ConfigReadable := by
  refine isSome_loadFile (fun m name cfg => ?_) root cfg
  have hbitRate : ∀ st, (Exec.exec (loadGroupOf [("BitRate", bitRateEntries)]) st m.children).isSome ↔
      m.ModuleReadable ["BitRate"] XmlNode.bitRateRooms := fun st => isSome_loadGroups (by simp [entries_bitRate]) st m
  have hdefault : ∀ st, (Exec.exec (loadGroupOf [("Default", defaultEntries)]) st m.children).isSome ↔
      m.ModuleReadable ["Default"] XmlNode.defaultRooms := fun st => isSome_loadGroups (by simp [entries_default]) st m
  -- The second comparison, with what the first one has left in `nodeAttr`.
  have hsystem : ∀ st, (Exec.exec (compareModule m.children) st [("System", [("Default", defaultEntries)])]).isSome ↔
      (st.1 = "System" → m.ModuleReadable ["Default"] XmlNode.defaultRooms) := fun st => by
    rw [Exec.exec_singleton]
    exact Exec.isSome_ite fun _ => hdefault st
  rw [Exec.isSome_exec_cons]
  by_cases hname : name = "Codec"
  · have hfirst : compareModule m.children (name, cfg) ("Codec", [("BitRate", bitRateEntries)]) =
        Exec.exec (loadGroupOf [("BitRate", bitRateEntries)]) (name, cfg) m.children := if_pos hname
    have hattr : ∀ st, Exec.exec (loadGroupOf [("BitRate", bitRateEntries)]) (name, cfg) m.children = some st →
        (st.1 = "System" ↔ m.lastAttr "BitRate" = some "System") := fun st hst => by
      rw [loadGroups_fst hst, hname]
      cases m.lastAttr "BitRate" with
      | none => exact iff_of_false (show ¬"Codec" = "System" by decide) (Option.some_ne_none _).symm
      | some a => exact Option.some_inj.symm
    have hnot : ¬name = "System" := by
      rw [hname]
      decide
    rw [hfirst, imp_iff_right hname, or_iff_right hnot, and_iff_right hname, ← hbitRate (name, cfg), Option.isSome_iff_exists]
    constructor
    · rintro ⟨st, hst, hrest⟩
      exact ⟨⟨st, hst⟩, fun hlast => (hsystem st).mp hrest ((hattr st hst).mpr hlast)⟩
    · rintro ⟨⟨st, hst⟩, hrest⟩
      exact ⟨st, hst, (hsystem st).mpr fun hlast => hrest ((hattr st hst).mp hlast)⟩
  · have hfirst : compareModule m.children (name, cfg) ("Codec", [("BitRate", bitRateEntries)]) = some (name, cfg) := if_neg hname
    have hnot : ¬(name = "Codec" ∧ m.lastAttr "BitRate" = some "System") := fun h => hname h.1
    rw [hfirst, or_iff_left hnot]
    constructor
    · rintro ⟨st, hst, hrest⟩
      obtain rfl := Option.some.inj hst
      exact ⟨fun hn => absurd hn hname, (hsystem _).mp hrest⟩
    · rintro ⟨-, hrest⟩
      exact ⟨_, rfl, (hsystem _).mpr hrest⟩

/-- The loaders take a file exactly when what they read of it is there and fits. -/
theorem loaders_iff (root : XmlNode) (table : VmapTable) (cfg : RecbcCfg) :
    ((vmapTableLoad (.tree root) table).isSome ↔ root.VmapReadable) ∧
      ((configLoad (.tree root) cfg).isSome ↔ root.ConfigReadable) :=
  ⟨isSome_vmapTableLoad root table, isSome_configLoad root cfg⟩

/-- A file with one value. -/
def oneValue (module group key : String) (text : List XmlNode) : XmlNode :=
  .element "?xml" [] [.element "module" [("name", module)]
    [.element "group" [("name", group)] [.element "configValue" [("key", key)] text]]]

/-- No text for a camera, and a name of 64 bytes for the policy file. -/
theorem loaders_counterexample :
    (∀ table, vmapTableLoad (.tree (oneValue "CaptureBoard" "CaptureBoard1" "Vendor" [])) table = none) ∧
      ∀ cfg, configLoad (.tree (oneValue "System" "Default" "PolicyFile"
        [.text "0123456789abcdef0123456789abcdef0123456789abcdef0123456789abcdef"])) cfg = none := by
  constructor
  · exact fun table => rfl
  · exact fun cfg => rfl

end Recbcsrv
