import Mathlib.Data.List.Forall2
import Recbcsrv.Config.Load
import Recbcsrv.Switch.PolicyFile

/-! The registers of the audio equaliser (`xmlapi.c`). `audio_equalizer_init` gives the band `k` the register at place `k`, and
    `audio_equalizer_load` stores the values of a preset one behind the other, in the order of the file, whatever their bands. -/

namespace Recbcsrv

/-! ### Registers -/

/-- `t_reg_value`. -/
structure RegValue where
  reg : UInt8
  value : UInt8

/-- The registers, and the place that the pointer `cfg` has moved to. -/
structure RegCursor where
  regs : Nat → RegValue
  pos : Nat

def registerAddress : UInt8 := 28

/-- The entry that selects the page. -/
def selectPage (audioBufferType : UInt8) (old : RegValue) : RegValue :=
  if audioBufferType = 1 then ⟨0, 0x08⟩
  else if audioBufferType = 2 then ⟨0, 0x1a⟩
  else old

/-- A turn of the loop of `audio_equalizer_init`, with the address that it has come to. -/
def initRegister (s : UInt8 × (Nat → RegValue)) (i : Nat) : UInt8 × (Nat → RegValue) :=
  (s.1 + 4, Function.update s.2 (i + 1) { s.2 (i + 1) with reg := s.1 })

/-- `audio_equalizer_init`. -/
def audioEqualizerInit (audioBufferType : UInt8) (cfg : Nat → RegValue) : Nat → RegValue :=
  ((List.range 15).foldl initRegister (registerAddress, Function.update cfg 0 (selectPage audioBufferType (cfg 0)))).2

/-- `cfg->value = atoi(nodeTxt); cfg++;` -/
def RegCursor.store (cfg : RegCursor) (txt : String) : RegCursor where
  regs := Function.update cfg.regs cfg.pos { cfg.regs cfg.pos with value := UInt8.ofInt (atoi txt) }
  pos := cfg.pos + 1

/-! ### Presets -/

/-- The keys of the group `config`, and the numbers of the presets. -/
def presetFlags : List (String × Int) :=
  [("Custom", 0), ("Flat", 1), ("Rap", 2), ("Hip-Hop", 3), ("Reggeaaton", 4), ("Reggae", 5), ("Classical", 6), ("Bules", 7),
    ("Jazz", 8), ("Pop", 9), ("Rock", 10)]

def bandKeys : List String := ["1", "2", "3", "4", "5", "6", "7", "8", "9", "10", "11", "12", "13", "14", "15"]

/-- The comparisons of the preset `Classical`, which leave out the third band. -/
def classicalKeys : List String := ["1", "2", "4", "5", "6", "7", "8", "9", "10", "11", "12", "13", "14", "15"]

/-- The group of a preset, and the keys that are compared for it. -/
def preset (flag : Int) : String × List String :=
  match flag with
  | 1 => ("Flat", bandKeys)
  | 2 => ("Rap", bandKeys)
  | 3 => ("Hip-Hop", bandKeys)
  | 4 => ("Reggeaaton", bandKeys)
  | 5 => ("Reggae", bandKeys)
  | 6 => ("Classical", classicalKeys)
  | 7 => ("Blues", bandKeys)
  | 8 => ("Jazz", bandKeys)
  | 9 => ("Pop", bandKeys)
  | 10 => ("Rock", bandKeys)
  | _ => ("Custom", bandKeys)

/-! ### Loading -/

/-- A node of the group `config`. -/
def configNode (flag : Int) (node : XmlNode) : Option Int :=
  if node.isElement "configValue" then (node.attr "key").map fun key => (presetFlags.lookup key).getD flag else some flag

/-- A node of the module, in the loop that looks for the group `config`. -/
def configGroup (flag : Int) (node : XmlNode) : Option Int :=
  if node.isElement "group" then
    (node.attr "name").bind fun name => if name = "config" then Exec.exec configNode flag node.children else some flag
  else some flag

/-- The loop for a preset, which reads one group. -/
def presetGroups (flag : Int) : List (ConfigGroup RegCursor) :=
  [((preset flag).1, (preset flag).2.map fun key => (key, fun txt cfg => some (cfg.store txt)))]

/-- A sibling of the first module. -/
def loadEqualizer (st : Int × RegCursor) (node : XmlNode) : Option (Int × RegCursor) :=
  if node.isElement "module" then
    (node.attr "name").bind fun name =>
      if name = "AudioSampleSocConfig" then
        (Exec.exec configGroup st.1 node.children).bind fun flag =>
          (Exec.exec (loadGroupOf (presetGroups flag)) (name, st.2) node.children).map fun r => (flag, r.2)
      else some st
  else some st

/-- `audio_equalizer_load`. -/
def audioEqualizerLoad (file : PolicyFile) (cfg : RegCursor) (flag : Int) : Option (Int × RegCursor) :=
  match file with
  | .tree root => (Exec.exec loadEqualizer (flag, cfg) (root.findBelow "module")).map fun st => (0, st.2)
  | _ => some (-1, cfg)

/-! ### What the file gives -/

namespace XmlNode

def isEqualizer (m : XmlNode) : Bool := m.isElement "module" && m.attr "name" = some "AudioSampleSocConfig"

/-- The keys of the groups `config`. -/
def configKeys (m : XmlNode) : List String :=
  m.children.flatMap fun g => if g.isElement "group" && g.attr "name" = some "config" then g.keys else []

/-- The preset that the module selects. -/
def selectedFlag (m : XmlNode) (flag : Int) : Int := (m.configKeys.filterMap (presetFlags.lookup ·)).getLast?.getD flag

/-- The values of the groups with the name. -/
def namedValues (m : XmlNode) (name : String) : List ConfigValue :=
  m.children.flatMap fun g => if g.isElement "group" && g.attr "name" = some name then g.configValues else []

end XmlNode

/-- The modules for the equaliser, each with the preset that is selected when it is read. -/
def selections : Int → List XmlNode → List (Int × XmlNode)
  | _, [] => []
  | flag, n :: ns => if n.isEqualizer then (n.selectedFlag flag, n) :: selections (n.selectedFlag flag) ns else selections flag ns

/-- The values in the groups of the selected presets. -/
def givenValues (sel : List (Int × XmlNode)) : List ConfigValue := sel.flatMap fun x => x.2.namedValues (preset x.1).1

/-- Those of them whose keys the loader compares. -/
def readValues (sel : List (Int × XmlNode)) : List ConfigValue :=
  sel.flatMap fun x => (x.2.namedValues (preset x.1).1).filter (·.key ∈ (preset x.1).2)

/-- Every attribute and text that the loader compares or converts is there. -/
structure EqualizerReadable (flag : Int) (nodes : List XmlNode) : Prop where
  module : ∀ n ∈ nodes, n.isElement "module" = true → ∃ name, n.attr "name" = some name
  groups : ∀ x ∈ selections flag nodes, x.2.ModuleReadable ["config"] [] ∧
    x.2.ModuleReadable [(preset x.1).1] ((preset x.1).2.map fun key => (key, none))

/-- The register value that a text stands for. -/
def ConfigValue.byte (v : ConfigValue) : UInt8 := UInt8.ofInt (atoi v.text)

/-- The last value given for a band. -/
def lastBand (values : List ConfigValue) (k : Nat) : Option UInt8 :=
  (values.filter (·.key = toString k)).getLast?.map ConfigValue.byte

/-- The bands have their registers, and nothing else has changed. -/
structure OwnRegisters (values : List ConfigValue) (old : Nat → RegValue) (cfg : RegCursor) : Prop where
  inside : cfg.pos ≤ 16
  given : ∀ k, 1 ≤ k → k ≤ 15 → ∀ b, lastBand values k = some b → cfg.regs k = ⟨UInt8.ofNat (28 + 4 * (k - 1)), b⟩
  absent : ∀ k, 1 ≤ k → k ≤ 15 → lastBand values k = none → cfg.regs k = old k
  outside : ∀ k, k < 1 ∨ 15 < k → cfg.regs k = old k

/-- The load of `main`, from any memory. -/
def LoadsBands (root : XmlNode) (flag : Int) : Prop :=
  ∀ audioBufferType mem, ∃ cfg,
    audioEqualizerLoad (.tree root) ⟨audioEqualizerInit audioBufferType mem, 1⟩ flag = some (0, cfg) ∧
      OwnRegisters (givenValues (selections flag (root.findBelow "module"))) (audioEqualizerInit audioBufferType mem) cfg

/-- Everything is there, and the value read at each place is the one given last for its band: both are missing, or equal. -/
structure BandsInOrder (root : XmlNode) (flag : Int) : Prop where
  readable : EqualizerReadable flag (root.findBelow "module")
  few : (readValues (selections flag (root.findBelow "module"))).length ≤ 15
  place : ∀ i < 15, (readValues (selections flag (root.findBelow "module")))[i]?.map ConfigValue.byte =
    lastBand (givenValues (selections flag (root.findBelow "module"))) (i + 1)

/-! ### The registers after a load -/

section
variable {audioBufferType : UInt8} {mem : Nat → RegValue} {cfg cfg' : RegCursor} {vs : List ConfigValue} {k i n : Nat}

theorem foldl_initRegister (cfg : Nat → RegValue) (n : Nat) : (List.range n).foldl initRegister (registerAddress, cfg) =
    (UInt8.ofNat (28 + 4 * n),
      fun k => if 1 ≤ k ∧ k ≤ n then { cfg k with reg := UInt8.ofNat (28 + 4 * (k - 1)) } else cfg k) := by
  induction n with
  | zero =>
    refine Prod.ext rfl (funext fun k => ?_)
    exact (if_neg (by omega)).symm
  | succ n ih =>
    rw [List.range_succ, List.foldl_append, ih]
    refine Prod.ext ?_ (funext fun k => ?_)
    · change UInt8.ofNat (28 + 4 * n) + 4 = UInt8.ofNat (28 + 4 * (n + 1))
      rw [Nat.mul_succ, ← Nat.add_assoc]
      exact (UInt8.ofNat_add (28 + 4 * n) 4).symm
    · simp only [List.foldl_cons, List.foldl_nil, initRegister, Function.update_apply]
      by_cases hk : k = n + 1
      · subst hk
        simp
      · have hiff : 1 ≤ k ∧ k ≤ n ↔ 1 ≤ k ∧ k ≤ n + 1 := by omega
        simp only [hk, if_false, hiff]

theorem audioEqualizerInit_band (hk : 1 ≤ k ∧ k ≤ 15) :
    audioEqualizerInit audioBufferType mem k = ⟨UInt8.ofNat (28 + 4 * (k - 1)), (mem k).value⟩ := by
  have hne : k ≠ 0 := by omega
  rw [audioEqualizerInit, foldl_initRegister]
  dsimp only
  rw [if_pos hk, Function.update_of_ne hne]

@[simp] theorem RegCursor.store_pos (txt : String) : (cfg.store txt).pos = cfg.pos + 1 := rfl

theorem RegCursor.store_regs_of_ne (txt : String) (hk : k ≠ cfg.pos) : (cfg.store txt).regs k = cfg.regs k :=
  Function.update_of_ne hk ..

/-- The registers after the values, stored one behind the other. -/
def RegCursor.storeAll (cfg : RegCursor) (vs : List ConfigValue) : RegCursor := vs.foldl (fun cfg v => cfg.store v.text) cfg

theorem RegCursor.storeAll_pos : (cfg.storeAll vs).pos = cfg.pos + vs.length := by
  induction vs generalizing cfg with
  | nil => rfl
  | cons v vs ih =>
    change ((cfg.store v.text).storeAll vs).pos = cfg.pos + (vs.length + 1)
    rw [ih, store_pos]
    omega

theorem RegCursor.storeAll_below (hk : k < cfg.pos) : (cfg.storeAll vs).regs k = cfg.regs k := by
  induction vs generalizing cfg with
  | nil => rfl
  | cons v vs ih =>
    change ((cfg.store v.text).storeAll vs).regs k = cfg.regs k
    rw [ih (Nat.lt_succ_of_lt hk), store_regs_of_ne _ (Nat.ne_of_lt hk)]

theorem RegCursor.storeAll_regs (cfg : RegCursor) (vs : List ConfigValue) (i : Nat) : (cfg.storeAll vs).regs (cfg.pos + i) =
    ⟨(cfg.regs (cfg.pos + i)).reg, (vs[i]?.map ConfigValue.byte).getD (cfg.regs (cfg.pos + i)).value⟩ := by
  induction vs generalizing cfg i with
  | nil => rfl
  | cons v vs ih =>
    change ((cfg.store v.text).storeAll vs).regs (cfg.pos + i) = _
    cases i with
    | zero =>
      rw [storeAll_below (Nat.lt_succ_self _)]
      exact Function.update_self ..
    | succ i =>
      have hplace : cfg.pos + (i + 1) = (cfg.store v.text).pos + i := by
        rw [store_pos]
        omega
      have hsame : (cfg.store v.text).regs (cfg.pos + (i + 1)) = cfg.regs (cfg.pos + (i + 1)) :=
        store_regs_of_ne _ (by omega)
      rw [← hsame, hplace, ih (cfg.store v.text)]
      rfl

end

/-! ### What is read -/

section
variable {nodes : List XmlNode} {node m : XmlNode} {flag flag' : Int} {cfg cfg' : RegCursor} {st st' : Int × RegCursor}
  {keys : List String} {key name attr attr' : String}

/-- The comparisons with keys of which no two are equal. -/
theorem exec_compareKey (hkeys : keys.Nodup)
    (h : Exec.exec (compareKey key node) cfg (keys.map fun k => (k, fun txt cfg => some (RegCursor.store cfg txt))) = some cfg') :
    if key ∈ keys then ∃ txt, node.getText = some txt ∧ cfg' = cfg.store txt else cfg' = cfg := by
  induction keys generalizing cfg with
  | nil => exact (Option.some.inj h).symm
  | cons k keys ih =>
    obtain ⟨hk, hkeys⟩ := List.nodup_cons.mp hkeys
    obtain ⟨u, hu, hrest⟩ := Exec.exec_cons.mp h
    have hlast := ih hkeys hrest
    unfold compareKey at hu
    by_cases heq : key = k
    · rw [if_pos heq] at hu
      rw [if_neg (heq ▸ hk)] at hlast
      obtain ⟨txt, htxt, hstore⟩ := Option.bind_eq_some_iff.mp hu
      rw [if_pos (heq ▸ List.mem_cons_self ..)]
      exact ⟨txt, htxt, hlast.trans (Option.some.inj hstore).symm⟩
    · rw [if_neg heq] at hu
      obtain rfl := Option.some.inj hu
      have hiff : key ∈ k :: keys ↔ key ∈ keys := by
        rw [List.mem_cons, or_iff_right heq]
      rw [if_congr hiff rfl rfl]
      exact hlast

theorem loadValue_store (hkeys : keys.Nodup) (s : String × RegCursor) (node : XmlNode) (s' : String × RegCursor)
    (h : loadValue (keys.map fun k => (k, fun txt cfg => some (RegCursor.store cfg txt))) s node = some s') :
    s'.2 = s.2.storeAll (node.configValue?.toList.filter (·.key ∈ keys)) := by
  unfold loadValue at h
  unfold XmlNode.configValue?
  by_cases hvalue : node.isElement "configValue" = true
  · rw [if_pos hvalue] at h ⊢
    obtain ⟨key, hkey, h⟩ := Option.bind_eq_some_iff.mp h
    obtain ⟨u, hu, rfl⟩ := Option.map_eq_some_iff.mp h
    have hstore := exec_compareKey hkeys hu
    rw [hkey, Option.bind_some]
    by_cases hmem : key ∈ keys
    · rw [if_pos hmem] at hstore
      obtain ⟨txt, htxt, rfl⟩ := hstore
      rw [htxt, Option.map_some, Option.toList_some, List.filter_singleton, decide_eq_true hmem]
      rfl
    · rw [if_neg hmem] at hstore
      subst hstore
      cases node.getText with
      | none => rfl
      | some txt =>
        rw [Option.map_some, Option.toList_some, List.filter_singleton, decide_eq_false hmem]
        rfl
  · rw [if_neg hvalue] at h ⊢
    cases h
    rfl

theorem preset_nodup (flag : Int) : (preset flag).2.Nodup := by
  unfold preset
  split <;> decide

theorem storeAll_eq_foldl (cfg : RegCursor) (vs : List ConfigValue) :
    cfg.storeAll vs = vs.foldl (fun cfg v => cfg.store v.text) cfg := rfl

/-- The loop for a preset stores the values of its group that are compared. -/
theorem presetGroups_store {s s' : String × RegCursor} (h : Exec.exec (loadGroupOf (presetGroups flag)) s m.children = some s') :
    s'.2 = s.2.storeAll ((m.namedValues (preset flag).1).filter (·.key ∈ (preset flag).2)) := by
  rw [XmlNode.namedValues, List.filter_flatMap, storeAll_eq_foldl]
  refine Exec.exec_foldl (fun s g s' hg => ?_) h
  unfold loadGroupOf at hg
  by_cases hgroup : g.isElement "group" = true
  · rw [if_pos hgroup] at hg
    obtain ⟨name, hname, hg⟩ := Option.bind_eq_some_iff.mp hg
    rw [presetGroups, Exec.exec_singleton] at hg
    unfold compareGroup at hg
    rw [hgroup, hname, Bool.true_and]
    by_cases hpreset : name = (preset flag).1
    · rw [if_pos hpreset] at hg
      have hread := Exec.exec_foldl (loadValue_store (preset_nodup flag)) hg
      rw [hread, hpreset, if_pos (decide_eq_true rfl), XmlNode.configValues, List.filterMap_eq_flatMap_toList, List.filter_flatMap]
    · rw [if_neg hpreset] at hg
      rw [if_neg (by simpa using hpreset), ← Option.some.inj hg]
      rfl
  · rw [if_neg hgroup] at hg
    rw [Bool.not_eq_true] at hgroup
    rw [hgroup, Bool.false_and, ← Option.some.inj hg]
    rfl

theorem configNode_getLast (flag : Int) (node : XmlNode) (flag' : Int) (h : configNode flag node = some flag') :
    flag' = ((if node.isElement "configValue" then node.attr "key" else none).bind (presetFlags.lookup ·)).toList.getLast?.getD flag := by
  unfold configNode at h
  by_cases hvalue : node.isElement "configValue" = true
  · rw [if_pos hvalue] at h ⊢
    obtain ⟨key, hkey, rfl⟩ := Option.map_eq_some_iff.mp h
    rw [hkey, Option.bind_some]
    cases presetFlags.lookup key <;> rfl
  · rw [if_neg hvalue] at h ⊢
    exact (Option.some.inj h).symm

/-- The loop over the module selects its preset. -/
theorem configGroup_selects (h : Exec.exec configGroup flag m.children = some flag') : flag' = m.selectedFlag flag := by
  rw [XmlNode.selectedFlag, XmlNode.configKeys, List.filterMap_flatMap]
  refine Exec.exec_getLast (p := id) (fun flag g flag' hg => ?_) h
  unfold configGroup at hg
  by_cases hgroup : g.isElement "group" = true
  · rw [if_pos hgroup] at hg
    obtain ⟨name, hname, hg⟩ := Option.bind_eq_some_iff.mp hg
    rw [hgroup, hname, Bool.true_and]
    by_cases hconfig : name = "config"
    · rw [if_pos hconfig] at hg
      have hlast := Exec.exec_getLast (p := id) configNode_getLast hg
      rw [hlast, hconfig, if_pos (decide_eq_true rfl), XmlNode.keys, List.filterMap_filterMap, List.filterMap_eq_flatMap_toList]
    · rw [if_neg hconfig] at hg
      rw [if_neg (by simpa using hconfig), ← Option.some.inj hg]
      rfl
  · rw [if_neg hgroup] at hg
    rw [Bool.not_eq_true] at hgroup
    rw [hgroup, Bool.false_and, ← Option.some.inj hg]
    rfl

theorem isSome_configNode : (configNode flag node).isSome ↔ (node.isElement "configValue" = true → node.Readable []) := by
  refine Exec.isSome_ite fun _ => ?_
  rw [Option.isSome_map, Option.isSome_iff_exists]
  exact exists_congr fun key => (and_iff_left fun r hr => absurd hr List.not_mem_nil).symm

theorem isSome_configGroups (flag : Int) (m : XmlNode) :
    (Exec.exec configGroup flag m.children).isSome ↔ m.ModuleReadable ["config"] [] := by
  refine Exec.exec_isSome_iff_forall fun flag g _ => Exec.isSome_ite fun _ => Exec.isSome_bind fun name => ?_
  rw [List.mem_singleton]
  exact Exec.isSome_ite fun _ => Exec.exec_isSome_iff_forall fun _ _ _ => isSome_configNode

theorem isSome_presetGroups (flag : Int) (s : String × RegCursor) (m : XmlNode) :
    (Exec.exec (loadGroupOf (presetGroups flag)) s m.children).isSome ↔
      m.ModuleReadable [(preset flag).1] ((preset flag).2.map fun key => (key, none)) := by
  refine isSome_loadGroups (fun g hg => ?_) s m
  rw [List.mem_singleton.mp hg, Entries, List.forall₂_map_left_iff, List.forall₂_map_right_iff, List.forall₂_same]
  exact fun key _ => ⟨rfl, fun txt cfg => iff_of_true rfl fun n hn => absurd hn (Option.not_mem_none n)⟩

theorem isEqualizer_iff : m.isEqualizer = true ↔ m.isElement "module" = true ∧ m.attr "name" = some "AudioSampleSocConfig" := by
  rw [XmlNode.isEqualizer, Bool.and_eq_true, decide_eq_true_iff]

/-- The two loops over a module: the second one is for the preset that the first one selects. -/
theorem isSome_loops (flag : Int) (s : String × RegCursor) (m : XmlNode) :
    ((Exec.exec configGroup flag m.children).bind fun flag =>
      (Exec.exec (loadGroupOf (presetGroups flag)) s m.children).map fun r => (flag, r.2)).isSome ↔
    m.ModuleReadable ["config"] [] ∧ m.ModuleReadable [(preset (m.selectedFlag flag)).1]
      ((preset (m.selectedFlag flag)).2.map fun key => (key, none)) := by
  have hpreset : ∀ flag, ((Exec.exec (loadGroupOf (presetGroups flag)) s m.children).map fun r => (flag, r.2)).isSome ↔
      m.ModuleReadable [(preset flag).1] ((preset flag).2.map fun key => (key, none)) := fun flag => by
    rw [Option.isSome_map, isSome_presetGroups]
  rw [Exec.isSome_bind hpreset, ← isSome_configGroups flag, Option.isSome_iff_exists]
  constructor
  · rintro ⟨flag', hflag, hread⟩
    obtain rfl := configGroup_selects hflag
    exact ⟨⟨_, hflag⟩, hread⟩
  · rintro ⟨⟨flag', hflag⟩, hread⟩
    obtain rfl := configGroup_selects hflag
    exact ⟨_, hflag, hread⟩

theorem isSome_loadEqualizer : (loadEqualizer st node).isSome ↔
    (node.isElement "module" = true → ∃ name, node.attr "name" = some name) ∧
    (node.isEqualizer = true → node.ModuleReadable ["config"] [] ∧ node.ModuleReadable [(preset (node.selectedFlag st.1)).1]
      ((preset (node.selectedFlag st.1)).2.map fun key => (key, none))) := by
  unfold loadEqualizer
  rw [isEqualizer_iff, Exec.isSome_ite fun _ => Exec.isSome_bind fun name => Exec.isSome_ite fun _ =>
    isSome_loops st.1 (name, st.2) node]
  constructor
  · intro h
    refine ⟨fun hmodule => ?_, fun ⟨hmodule, hname⟩ => ?_⟩
    · obtain ⟨name, hname, -⟩ := h hmodule
      exact ⟨name, hname⟩
    · obtain ⟨name', hname', hread⟩ := h hmodule
      exact hread (Option.some.inj (hname'.symm.trans hname))
  · rintro ⟨hnames, hread⟩ hmodule
    obtain ⟨name, hname⟩ := hnames hmodule
    exact ⟨name, hname, fun heq => hread ⟨hmodule, hname.trans (congrArg some heq)⟩⟩

theorem loadEqualizer_eq (h : loadEqualizer st node = some st') : st' =
    if node.isEqualizer then (node.selectedFlag st.1, st.2.storeAll ((node.namedValues (preset (node.selectedFlag st.1)).1).filter
      (·.key ∈ (preset (node.selectedFlag st.1)).2)))
    else st := by
  unfold loadEqualizer at h
  by_cases hmodule : node.isElement "module" = true
  · rw [if_pos hmodule] at h
    obtain ⟨name, hname, h⟩ := Option.bind_eq_some_iff.mp h
    by_cases hn : name = "AudioSampleSocConfig"
    · rw [if_pos hn] at h
      obtain ⟨flag, hflag, h⟩ := Option.bind_eq_some_iff.mp h
      obtain ⟨r, hr, rfl⟩ := Option.map_eq_some_iff.mp h
      obtain rfl := configGroup_selects hflag
      rw [if_pos (isEqualizer_iff.mpr ⟨hmodule, hname.trans (congrArg some hn)⟩), presetGroups_store hr]
    · rw [if_neg hn] at h
      have hnot : ¬node.isEqualizer = true := fun he => hn (Option.some.inj (hname.symm.trans (isEqualizer_iff.mp he).2))
      rw [if_neg hnot]
      exact (Option.some.inj h).symm
  · rw [if_neg hmodule] at h
    have hnot : ¬node.isEqualizer = true := fun he => hmodule (isEqualizer_iff.mp he).1
    rw [if_neg hnot]
    exact (Option.some.inj h).symm

theorem isSome_exec_loadEqualizer (st : Int × RegCursor) (nodes : List XmlNode) :
    (Exec.exec loadEqualizer st nodes).isSome ↔ EqualizerReadable st.1 nodes := by
  induction nodes generalizing st with
  | nil => exact iff_of_true rfl ⟨fun n hn => absurd hn List.not_mem_nil, fun x hx => absurd hx List.not_mem_nil⟩
  | cons n nodes ih =>
    rw [Exec.isSome_exec_cons]
    constructor
    · rintro ⟨t, ht, hrun⟩
      obtain ⟨hname, hmodule⟩ := isSome_loadEqualizer.mp (Option.isSome_iff_exists.mpr ⟨t, ht⟩)
      obtain ⟨hnames, hgroups⟩ := (ih t).mp hrun
      refine ⟨List.forall_mem_cons.mpr ⟨hname, hnames⟩, fun x hx => ?_⟩
      rw [loadEqualizer_eq ht] at hgroups
      unfold selections at hx
      by_cases heq : n.isEqualizer = true
      · rw [if_pos heq] at hx hgroups
        rcases List.mem_cons.mp hx with rfl | hx
        · exact hmodule heq
        · exact hgroups x hx
      · rw [if_neg heq] at hx hgroups
        exact hgroups x hx
    · rintro ⟨hnames, hgroups⟩
      obtain ⟨hname, hnames⟩ := List.forall_mem_cons.mp hnames
      unfold selections at hgroups
      have hstep : (loadEqualizer st n).isSome := by
        refine isSome_loadEqualizer.mpr ⟨hname, fun heq => ?_⟩
        rw [if_pos heq] at hgroups
        exact hgroups (n.selectedFlag st.1, n) (List.mem_cons_self ..)
      obtain ⟨t, ht⟩ := Option.isSome_iff_exists.mp hstep
      refine ⟨t, ht, (ih t).mpr ⟨hnames, fun x hx => hgroups x ?_⟩⟩
      rw [loadEqualizer_eq ht] at hx
      by_cases heq : n.isEqualizer = true
      · rw [if_pos heq] at hx ⊢
        exact List.mem_cons_of_mem _ hx
      · rw [if_neg heq] at hx ⊢
        exact hx

/-- A load stores the values that are compared, in the order of the file. -/
theorem exec_loadEqualizer (h : Exec.exec loadEqualizer st nodes = some st') :
    st'.2 = st.2.storeAll (readValues (selections st.1 nodes)) := by
  induction nodes generalizing st with
  | nil => exact congrArg Prod.snd (Option.some.inj h).symm
  | cons n nodes ih =>
    obtain ⟨t, ht, hrest⟩ := Exec.exec_cons.mp h
    rw [ih hrest, loadEqualizer_eq ht, selections]
    by_cases heq : n.isEqualizer = true
    · rw [if_pos heq, if_pos heq, readValues, readValues, List.flatMap_cons]
      exact (List.foldl_append ..).symm
    · rw [if_neg heq, if_neg heq]

end

/-! ### Bands and places -/

theorem getD_inj {a b : Option UInt8} (h : ∀ c, a.getD c = b.getD c) : a = b := by
  have hne : ∀ x : UInt8, x ≠ x + 1 := fun x hx => by
    have hnat := congrArg UInt8.toNat hx
    have hlt := x.toNat_lt
    rw [UInt8.toNat_add, UInt8.toNat_one] at hnat
    omega
  cases a with
  | none =>
    cases b with
    | none => rfl
    | some y => exact absurd (h (y + 1)).symm (hne y)
  | some x =>
    cases b with
    | none => exact absurd (h (x + 1)) (hne x)
    | some y => exact congrArg some (h x)

theorem audioEqualizerLoad_eq {root : XmlNode} {flag ret : Int} {cfg cfg' : RegCursor}
    (h : audioEqualizerLoad (.tree root) cfg flag = some (ret, cfg')) :
    EqualizerReadable flag (root.findBelow "module") ∧
      cfg' = cfg.storeAll (readValues (selections flag (root.findBelow "module"))) := by
  obtain ⟨st, hst, heq⟩ := Option.map_eq_some_iff.mp h
  obtain ⟨-, rfl⟩ := Prod.mk.inj heq
  exact ⟨(isSome_exec_loadEqualizer (flag, cfg) _).mp (Option.isSome_iff_exists.mpr ⟨st, hst⟩), exec_loadEqualizer hst⟩

theorem exists_audioEqualizerLoad {root : XmlNode} {flag : Int} (h : EqualizerReadable flag (root.findBelow "module")) (cfg : RegCursor) :
    audioEqualizerLoad (.tree root) cfg flag =
      some (0, cfg.storeAll (readValues (selections flag (root.findBelow "module")))) := by
  obtain ⟨st, hst⟩ := Option.isSome_iff_exists.mp ((isSome_exec_loadEqualizer (flag, cfg) _).mpr h)
  exact Option.map_eq_some_iff.mpr ⟨st, hst, congrArg (Prod.mk 0) (exec_loadEqualizer hst)⟩

/-- The bands get their own registers exactly when the file gives them in their order. -/
theorem loadsBands_iff (root : XmlNode) (flag : Int) : LoadsBands root flag ↔ BandsInOrder root flag := by
  constructor
  · intro h
    obtain ⟨cfg, hload, hown⟩ := h 1 fun _ => ⟨0, 0⟩
    obtain ⟨hreadable, rfl⟩ := audioEqualizerLoad_eq hload
    have hinside := hown.inside
    rw [RegCursor.storeAll_pos] at hinside
    dsimp only at hinside
    refine ⟨hreadable, by omega, fun i hi => getD_inj fun c => ?_⟩
    -- The value of the register, from a memory of values `c`.
    obtain ⟨cfg, hload, hown⟩ := h 1 fun _ => ⟨0, c⟩
    obtain ⟨-, rfl⟩ := audioEqualizerLoad_eq hload
    have hband : 1 ≤ 1 + i ∧ 1 + i ≤ 15 := by omega
    have hvalue : (audioEqualizerInit 1 (fun _ => ⟨0, c⟩) (1 + i)).value = c := by
      rw [audioEqualizerInit_band hband]
    have hstored := congrArg RegValue.value (RegCursor.storeAll_regs ⟨audioEqualizerInit 1 fun _ => ⟨0, c⟩, 1⟩
      (readValues (selections flag (root.findBelow "module"))) i)
    dsimp only at hstored
    rw [hvalue] at hstored
    rw [← hstored, Nat.add_comm i 1]
    cases hlast : lastBand (givenValues (selections flag (root.findBelow "module"))) (1 + i) with
    | none => rw [hown.absent (1 + i) hband.1 hband.2 hlast, hvalue, Option.getD_none]
    | some b => rw [hown.given (1 + i) hband.1 hband.2 b hlast, Option.getD_some]
  · rintro ⟨hreadable, hfew, hplace⟩ audioBufferType mem
    refine ⟨_, exists_audioEqualizerLoad hreadable _, ?_⟩
    have hregs := RegCursor.storeAll_regs ⟨audioEqualizerInit audioBufferType mem, 1⟩
      (readValues (selections flag (root.findBelow "module")))
    dsimp only at hregs
    refine ⟨?_, fun k hk hk' b hb => ?_, fun k hk hk' hnone => ?_, fun k hk => ?_⟩
    · rw [RegCursor.storeAll_pos]
      dsimp only
      omega
    · obtain ⟨i, rfl⟩ := Nat.exists_eq_add_of_le hk
      rw [hregs, hplace i (by omega), Nat.add_comm i 1, hb, audioEqualizerInit_band ⟨hk, hk'⟩]
      rfl
    · obtain ⟨i, rfl⟩ := Nat.exists_eq_add_of_le hk
      rw [hregs, hplace i (by omega), Nat.add_comm i 1, hnone]
      rfl
    · rcases hk with hk | hk
      · exact RegCursor.storeAll_below hk
      · obtain ⟨i, rfl⟩ := Nat.exists_eq_add_of_le (Nat.le_of_lt (Nat.lt_of_le_of_lt (by decide : 1 ≤ 15) hk))
        rw [hregs, List.getElem?_eq_none (by omega)]
        rfl

/-- A preset that gives its second band first. -/
def swappedBands : XmlNode :=
  .element "?xml" [] [.element "module" [("name", "AudioSampleSocConfig")] [.element "group" [("name", "Reggeaaton")]
    [.element "configValue" [("key", "2")] [.text "67"], .element "configValue" [("key", "1")] [.text "52"]]]]

theorem loadsBands_counterexample : ¬LoadsBands swappedBands 4 := by
  intro h
  obtain ⟨cfg, hload, hown⟩ := h 1 fun _ => ⟨0, 0⟩
  have hrun : (audioEqualizerLoad (.tree swappedBands) ⟨audioEqualizerInit 1 fun _ => ⟨0, 0⟩, 1⟩ 4).map
      (fun r => (r.2.regs 1).value) = some 67 := by decide +kernel
  rw [hload, Option.map_some, hown.given 1 (by decide) (by decide) 52 (by decide +kernel)] at hrun
  exact absurd hrun (by decide)

end Recbcsrv
