import Recbcsrv.Lib.Exec
import Recbcsrv.Switch.TruthTable

/-! The states of the switching machine, its transition table, and the policy file that fills the table
    (`switch_policy_load`). A `char` is an integer, and -1 stands for no transition. -/

namespace Recbcsrv

/-! ### States -/

def fsmNotransition : Int := -1

/-- `e_fsm_state`. -/
def fsmVga : Int := 0
def fsmTeacherCloseup : Int := 1
def fsmStudentCloseup : Int := 2
def fsmTeacherPanorama : Int := 3
def fsmStudentPanorama : Int := 4
def fsmBoardCloseup : Int := 5
def fsmVgaPipTeacherCloseup : Int := 6
def fsmTeacherCloseupPipStudentCloseup : Int := 7
def fsmBlackboardPipStudentCloseup : Int := 8

def fsmStateMax : Int := 9

/-- The names of the states in the policy file. -/
def stateNames : List (String × Int) :=
  [("VGA", fsmVga), ("TeacherSpecial", fsmTeacherCloseup), ("StudentSpecial", fsmStudentCloseup),
    ("TeacherFull", fsmTeacherPanorama), ("StudentFull", fsmStudentPanorama), ("Blackboard", fsmBoardCloseup),
    ("VGAWithTeacherSpecial", fsmVgaPipTeacherCloseup),
    ("TeacherSpecialWithStudentSpecial", fsmTeacherCloseupPipStudentCloseup),
    ("BlackboardWithStudentSpecial", fsmBlackboardPipStudentCloseup)]

/-- `str2state`: the comparisons one after the other, each of which may replace the result. -/
def str2state (s : String) : Int :=
  stateNames.foldl (fun ret n => if s = n.1 then n.2 else ret) fsmTeacherPanorama

/-- `t_transition_table`: the entry for a state and a condition. -/
structure TransitionTable where
  item : Nat → Nat → Int

/-- The table with one entry set. -/
def TransitionTable.set (t : TransitionTable) (state cond : Nat) (next : Int) : TransitionTable where
  item s c := if s = state ∧ c = cond then next else t.item s c

/-- The table after `memset` with -1. -/
def TransitionTable.none : TransitionTable := ⟨fun _ _ => fsmNotransition⟩

/-- The entries of `transition_table_init`, a row for each state: the element conditions and the combinations. -/
def transitionRows : List (List Int) :=
  [[-1, -1, -1, -1, -1, -1, -1, -1, -1, -1,
    4, -1, 1, -1, 3, -1, 2, -1, 7, -1, 3, -1, 4, -1, 3, -1, 3, -1, 5, -1, 5, -1, 5, -1, 8, -1, 8, -1, 8, -1, 3, -1, 3, -1, 3, -1],
   [-1, 6, -1, -1, -1, -1, -1, -1, -1, -1,
    4, -1, -1, -1, 3, -1, 2, -1, 7, -1, 3, -1, 4, -1, 3, -1, 3, -1, 5, -1, 5, -1, 5, -1, 8, -1, 8, -1, 8, -1, 3, -1, 3, -1, 3, -1],
   [-1, 0, -1, -1, -1, -1, -1, -1, -1, -1,
    4, -1, 1, -1, 3, -1, -1, -1, 7, -1, 3, -1, 4, -1, 4, -1, 4, -1, 5, -1, 5, -1, 5, -1, 8, -1, 8, -1, 8, -1, 3, -1, 3, -1, 3, -1],
   [-1, 0, -1, -1, -1, -1, -1, -1, -1, -1,
    4, -1, 1, -1, -1, -1, 2, -1, 7, -1, -1, -1, 4, -1, -1, -1, -1, -1, 5, -1, 5, -1, 5, -1, 8, -1, 8, -1, 8, -1, -1, -1, -1, -1, -1, -1],
   [-1, 0, -1, -1, -1, -1, -1, -1, -1, -1,
    -1, -1, 1, -1, 3, -1, 2, -1, 7, -1, 3, -1, -1, -1, -1, -1, -1, -1, 5, -1, 5, -1, 5, -1, 8, -1, 8, -1, 8, -1, -1, -1, -1, -1, -1, -1],
   [-1, 6, -1, -1, -1, -1, -1, -1, -1, -1,
    4, -1, 1, -1, 3, -1, 2, -1, 7, -1, 3, -1, 4, -1, 3, -1, 3, -1, -1, -1, -1, -1, -1, -1, 8, -1, 8, -1, 8, -1, 3, -1, 3, -1, 3, -1],
   [-1, -1, -1, -1, -1, -1, -1, -1, -1, -1,
    4, -1, 1, -1, 3, -1, 2, -1, 7, -1, 3, -1, 4, -1, 3, -1, 3, -1, 5, -1, 5, -1, 5, -1, 8, -1, 8, -1, 8, -1, 3, -1, 3, -1, 3, -1],
   [-1, 6, -1, -1, -1, -1, -1, -1, -1, -1,
    4, -1, 1, -1, 3, -1, 2, -1, -1, -1, 3, -1, 4, -1, 3, -1, 3, -1, 5, -1, 5, -1, 5, -1, 8, -1, 8, -1, 8, -1, 3, -1, 3, -1, 3, -1],
   [-1, 6, -1, -1, -1, -1, -1, -1, -1, -1,
    4, -1, 1, -1, 3, -1, 2, -1, 7, -1, 3, -1, 4, -1, 3, -1, 3, -1, 5, -1, 5, -1, 5, -1, -1, -1, -1, -1, -1, -1, 3, -1, 3, -1, 3, -1]]

def transitionTableInit : TransitionTable := ⟨fun s c => (transitionRows.getD s []).getD c fsmNotransition⟩

/-- `t_finite_state_machine`, with the table that it points to. -/
structure Fsm where
  initialState : Int
  currentState : Int
  transitionTable : TransitionTable

/-- `fsm_init`, after `transition_table_init`. -/
def fsmInit : Fsm := ⟨fsmTeacherPanorama, fsmTeacherPanorama, transitionTableInit⟩

/-! ### The policy file -/

/-- A node of the tree that `mxmlLoadFile` builds. -/
inductive XmlNode where
  | element (name : String) (attrs : List (String × String)) (children : List XmlNode)
  | text (s : String)
  | other

namespace XmlNode

/-- The children, from `mxmlGetFirstChild` on along `mxmlGetNextSibling`. -/
def children : XmlNode → List XmlNode
  | element _ _ children => children
  | _ => []

/-- The node is an element of that name. -/
def isElement (n : XmlNode) (name : String) : Bool :=
  match n with
  | element name' _ _ => name' = name
  | _ => false

/-- `mxmlElementGetAttr`. -/
def attr (n : XmlNode) (key : String) : Option String :=
  match n with
  | element _ attrs _ => attrs.lookup key
  | _ => none

/-- `mxmlGetText`. -/
def getText : XmlNode → Option String
  | element _ _ (text s :: _) => some s
  | text s => some s
  | _ => none

mutual
/-- `mxmlFindElement` below a node: the element found and the siblings behind it. -/
def findBelow (name : String) : XmlNode → List XmlNode
  | element _ _ children => findIn name children
  | _ => []

def findIn (name : String) : List XmlNode → List XmlNode
  | [] => []
  | n :: ns =>
    if n.isElement name then n :: ns
    else
      match findBelow name n with
      | [] => findIn name ns
      | found => found
end

end XmlNode

/-- What opening and parsing the policy file gives. -/
inductive PolicyFile where
  | missing
  | broken
  | tree (root : XmlNode)

/-- The comparison of `fill_transition_table` for one combination. -/
def fillCombination (key : String) (state : Nat) (node : XmlNode) (fsm : Fsm) (k : Nat) : Option Fsm :=
  if key = "COND_COMBINATION_" ++ toString (k + 1) then
    node.getText.map fun txt =>
      { fsm with transitionTable := fsm.transitionTable.set state (condCombination k) (str2state txt) }
  else some fsm

/-- `fill_transition_table`. A missing text is a null pointer for `strcmp`. -/
def fillTransitionTable (key : String) (state : Nat) (node : XmlNode) (fsm : Fsm) : Option Fsm :=
  Exec.exec (fillCombination key state node) fsm (List.range 36)

/-- A `configValue` of the group `INITIAL`. -/
def setInitial (key : String) (node : XmlNode) (fsm : Fsm) : Option Fsm :=
  if key = "NOCOND" then node.getText.map fun txt => { fsm with initialState := str2state txt } else some fsm

/-- One node of the loop over a group: `nodeAttr` is now the key of the `configValue`. -/
def groupNode (body : String → XmlNode → Fsm → Option Fsm) (st : String × Fsm) (node : XmlNode) : Option (String × Fsm) :=
  if node.isElement "configValue" then
    (node.attr "key").bind fun key => (body key node st.2).map fun fsm => (key, fsm)
  else some st

/-- The comparison of `nodeAttr` with the name of a group, and the loop over its nodes. -/
def inGroup (nodes : List XmlNode) (st : String × Fsm) (group : String × (String → XmlNode → Fsm → Option Fsm)) :
    Option (String × Fsm) :=
  if st.1 = group.1 then Exec.exec (groupNode group.2) st nodes else some st

/-- The groups in the order of the comparisons. `nodeAttr` keeps the last key of a group that was read. -/
def groups : List (String × (String → XmlNode → Fsm → Option Fsm)) :=
  ("INITIAL", setInitial) :: stateNames.map fun n => (n.1, fun key node fsm => fillTransitionTable key n.2.toNat node fsm)

/-- A node below the module. -/
def loadGroup (fsm : Fsm) (node : XmlNode) : Option Fsm :=
  if node.isElement "group" then
    (node.attr "name").bind fun nodeAttr => (Exec.exec (inGroup node.children) (nodeAttr, fsm) groups).map Prod.snd
  else some fsm

/-- A sibling of the first module. -/
def loadModule (fsm : Fsm) (node : XmlNode) : Option Fsm :=
  if node.isElement "module" then
    (node.attr "name").bind fun nodeAttr => if nodeAttr = "FSM" then Exec.exec loadGroup fsm node.children else some fsm
  else some fsm

/-- `switch_policy_load`. There is no result when a missing attribute or text goes to `strcmp`. -/
def switchPolicyLoad (file : PolicyFile) (fsm : Fsm) : Option (Int × Fsm) :=
  match file with
  | .missing => some (-1, fsm)
  | .broken => some (-1, { fsm with transitionTable := .none })
  | .tree root =>
    (Exec.exec loadModule { fsm with transitionTable := .none } (root.findBelow "module")).map fun fsm => (0, fsm)

/-! ### What a policy file can do -/

/-- A property that loading keeps: each of its two ways to write to the machine does. -/
structure LoadKeeps (I : Fsm → Prop) : Prop where
  entry : ∀ fsm state k txt, k < 36 → I fsm →
    I { fsm with transitionTable := fsm.transitionTable.set state (condCombination k) (str2state txt) }
  initial : ∀ fsm txt, I fsm → I { fsm with initialState := str2state txt }

section
variable {I : Fsm → Prop} {fsm fsm' : Fsm}

theorem LoadKeeps.fillTransitionTable (hI : LoadKeeps I) {key : String} {state : Nat} {node : XmlNode} (h : I fsm)
    (hf : fillTransitionTable key state node fsm = some fsm') : I fsm' := by
  refine Exec.exec_invariant_mem (fun k hk fsm fsm' h hf => ?_) h hf
  unfold fillCombination at hf
  split at hf
  · obtain ⟨txt, -, rfl⟩ := Option.map_eq_some_iff.mp hf
    exact hI.entry fsm state k txt (List.mem_range.mp hk) h
  · cases hf
    exact h

theorem LoadKeeps.groups (hI : LoadKeeps I) {group : String × (String → XmlNode → Fsm → Option Fsm)} (hg : group ∈ groups)
    {key : String} {node : XmlNode} (h : I fsm) (hf : group.2 key node fsm = some fsm') : I fsm' := by
  rcases List.mem_cons.mp hg with rfl | hg
  · simp only [setInitial] at hf
    split at hf
    · obtain ⟨txt, -, rfl⟩ := Option.map_eq_some_iff.mp hf
      exact hI.initial fsm txt h
    · cases hf
      exact h
  · obtain ⟨n, -, rfl⟩ := List.mem_map.mp hg
    exact hI.fillTransitionTable h hf

theorem LoadKeeps.inGroup (hI : LoadKeeps I) {nodes : List XmlNode} {st st' : String × Fsm}
    {group : String × (String → XmlNode → Fsm → Option Fsm)} (hg : group ∈ Recbcsrv.groups) (h : I st.2)
    (hf : inGroup nodes st group = some st') : I st'.2 := by
  unfold Recbcsrv.inGroup at hf
  split at hf
  · refine Exec.exec_invariant (I := fun st : String × Fsm => I st.2) (fun st node st' h hn => ?_) h hf
    unfold groupNode at hn
    split at hn
    · obtain ⟨key, -, hn⟩ := Option.bind_eq_some_iff.mp hn
      obtain ⟨u, hu, rfl⟩ := Option.map_eq_some_iff.mp hn
      exact hI.groups hg h hu
    · cases hn
      exact h
  · cases hf
    exact h

theorem LoadKeeps.loadGroup (hI : LoadKeeps I) {node : XmlNode} (h : I fsm) (hf : loadGroup fsm node = some fsm') : I fsm' := by
  unfold Recbcsrv.loadGroup at hf
  split at hf
  · obtain ⟨key, -, hf⟩ := Option.bind_eq_some_iff.mp hf
    obtain ⟨st, hst, rfl⟩ := Option.map_eq_some_iff.mp hf
    exact Exec.exec_invariant_mem (I := fun st : String × Fsm => I st.2) (fun g hg st st' h hg' => hI.inGroup hg h hg') h hst
  · cases hf
    exact h

theorem LoadKeeps.loadModule (hI : LoadKeeps I) {node : XmlNode} (h : I fsm) (hf : loadModule fsm node = some fsm') : I fsm' := by
  unfold Recbcsrv.loadModule at hf
  split at hf
  · obtain ⟨name, -, hf⟩ := Option.bind_eq_some_iff.mp hf
    split at hf
    · exact Exec.exec_invariant (fun fsm node fsm' h hf => hI.loadGroup h hf) h hf
    · cases hf
      exact h
  · cases hf
    exact h

/-- What loading keeps and the machine with an empty table has, the machine has after a policy file was there. -/
theorem LoadKeeps.switchPolicyLoad (hI : LoadKeeps I) {file : PolicyFile} {ret : Int} (hfile : file ≠ .missing)
    (h : I { fsm with transitionTable := .none }) (hf : switchPolicyLoad file fsm = some (ret, fsm')) : I fsm' := by
  cases file with
  | missing => exact absurd rfl hfile
  | broken =>
    cases hf
    exact h
  | tree root =>
    obtain ⟨u, hu, he⟩ := Option.map_eq_some_iff.mp hf
    cases he
    exact Exec.exec_invariant (fun fsm node fsm' h hf => hI.loadModule h hf) h hu

/-- States and entries are in their ranges. -/
structure Fsm.InRange (fsm : Fsm) : Prop where
  initial : 0 ≤ fsm.initialState ∧ fsm.initialState < fsmStateMax
  current : 0 ≤ fsm.currentState ∧ fsm.currentState < fsmStateMax
  entry : ∀ s c, fsmNotransition ≤ fsm.transitionTable.item s c ∧ fsm.transitionTable.item s c < fsmStateMax

/-- Only combinations have entries. -/
def Fsm.CombinationsOnly (fsm : Fsm) : Prop :=
  ∀ s c, fsm.transitionTable.item s c ≠ fsmNotransition → ∃ k < 36, c = condCombination k

theorem str2state_mem (s : String) : 0 ≤ str2state s ∧ str2state s < fsmStateMax := by
  refine List.foldlRecOn (motive := fun ret => 0 ≤ ret ∧ ret < fsmStateMax) stateNames _ (by decide) fun ret h n hn => ?_
  have hstates : ∀ n ∈ stateNames, 0 ≤ n.2 ∧ n.2 < fsmStateMax := by decide
  split
  · exact hstates n hn
  · exact h

theorem loadKeeps_inRange : LoadKeeps Fsm.InRange where
  entry fsm state k txt _ h := by
    refine ⟨h.initial, h.current, fun s c => ?_⟩
    have hstr := str2state_mem txt
    simp only [TransitionTable.set]
    split
    · exact ⟨Int.le_trans (by decide) hstr.1, hstr.2⟩
    · exact h.entry s c
  initial fsm txt h := ⟨str2state_mem txt, h.current, h.entry⟩

theorem loadKeeps_combinationsOnly : LoadKeeps Fsm.CombinationsOnly where
  entry fsm state k txt hk h s c hc := by
    simp only [TransitionTable.set] at hc
    split at hc
    · next he => exact ⟨k, hk, he.2⟩
    · exact h s c hc
  initial fsm txt h := h

theorem fsmInit_inRange : fsmInit.InRange := by
  refine ⟨by decide, by decide, fun s c => ?_⟩
  have hrows : ∀ row ∈ transitionRows, ∀ x ∈ row, fsmNotransition ≤ x ∧ x < fsmStateMax := by decide
  have hget : ∀ row : List Int, (∀ x ∈ row, fsmNotransition ≤ x ∧ x < fsmStateMax) →
      fsmNotransition ≤ row.getD c fsmNotransition ∧ row.getD c fsmNotransition < fsmStateMax := fun row hrow => by
    rw [List.getD_eq_getElem?_getD]
    cases hc : row[c]? with
    | none => decide
    | some x => exact hrow x (List.mem_of_getElem? hc)
  refine hget _ ?_
  rw [List.getD_eq_getElem?_getD]
  cases hs : transitionRows[s]? with
  | none => simp
  | some row => exact hrows row (List.mem_of_getElem? hs)

/-- Whatever the policy file, the machine that the thread starts with is in range. -/
theorem switchPolicyLoad_inRange {file : PolicyFile} {ret : Int} (h : switchPolicyLoad file fsmInit = some (ret, fsm)) :
    fsm.InRange := by
  by_cases hfile : file = .missing
  · subst hfile
    cases h
    exact fsmInit_inRange
  · exact loadKeeps_inRange.switchPolicyLoad hfile
      ⟨fsmInit_inRange.initial, fsmInit_inRange.current, fun _ _ => ⟨Int.le_refl _, show fsmNotransition < fsmStateMax by decide⟩⟩ h

/-- A policy file leaves entries for combinations only. -/
theorem switchPolicyLoad_combinationsOnly {file : PolicyFile} {ret : Int} (hfile : file ≠ .missing)
    (h : switchPolicyLoad file fsmInit = some (ret, fsm)) : fsm.CombinationsOnly :=
  loadKeeps_combinationsOnly.switchPolicyLoad hfile (fun _ _ hc => absurd rfl hc) h

end

/-- A policy file with an initial state and one transition: from the teacher panorama to the VGA picture with the teacher
    as inset, when the VGA picture changes and nobody is there. -/
def samplePolicy (initial : String) : PolicyFile :=
  let value (key text : String) := XmlNode.element "configValue" [("key", key)] [.text text]
  .tree (.element "?xml" [] [.element "module" [("name", "FSM")]
    [.element "group" [("name", "INITIAL")] [value "NOCOND" initial],
      .element "group" [("name", "TeacherFull")] [value "COND_COMBINATION_2" "VGAWithTeacherSpecial"]]])

/-- The machine that the sample policy gives. -/
def sampleFsm (initial : String) : Fsm where
  initialState := str2state initial
  currentState := fsmTeacherPanorama
  transitionTable := TransitionTable.none.set 3 (condCombination 1) fsmVgaPipTeacherCloseup

theorem switchPolicyLoad_sample (initial : String) :
    switchPolicyLoad (samplePolicy initial) fsmInit = some (0, sampleFsm initial) := rfl

end Recbcsrv
