import Mathlib.Tactic.Convert
import Recbcsrv.Switch.Conditions

/-! # The policy file: the table that it describes, and the one that is loaded

The groups of the modules `FSM` are named after states, and their values after combinations; of two values for one
entry the last counts. `switch_policy_load` compares the name of a group with all names in turn, and reads the keys of
the values into the same variable. A group that ends in a value with the name of another group as its key is
therefore read a second time, as that group.

This file holds the table that the tree describes, what each loop of the loader adds to it, and what a load that
fails leaves behind. -/

namespace Recbcsrv

/-- A `configValue`. -/
structure ConfigValue where
  key : String
  text : String
  deriving DecidableEq, Repr

namespace XmlNode

def configValue? (n : XmlNode) : Option ConfigValue :=
  if n.isElement "configValue" then (n.attr "key").bind fun key => n.getText.map fun text => ⟨key, text⟩ else none

/-- The values of a group. -/
def configValues (g : XmlNode) : List ConfigValue := g.children.filterMap configValue?

/-- The groups of the modules `FSM`, where the modules are the first one found and its siblings. -/
def policyGroups (root : XmlNode) : List XmlNode :=
  ((root.findBelow "module").filter fun m => m.isElement "module" && m.attr "name" = some "FSM").flatMap fun m =>
    m.children.filter (·.isElement "group")

/-- Every module, group and value has its attribute, and every value its text. -/
structure Complete (root : XmlNode) : Prop where
  module : ∀ m ∈ root.findBelow "module", m.isElement "module" = true → (m.attr "name").isSome = true
  group : ∀ m ∈ root.findBelow "module", m.isElement "module" = true → ∀ g ∈ m.children, g.isElement "group" = true →
    (g.attr "name").isSome = true
  value : ∀ m ∈ root.findBelow "module", m.isElement "module" = true → ∀ g ∈ m.children, g.isElement "group" = true →
    ∀ v ∈ g.children, v.isElement "configValue" = true → (v.attr "key").isSome = true ∧ v.getText.isSome = true

end XmlNode

/-- The key of a combination. -/
def combinationKey (k : Nat) : String := "COND_COMBINATION_" ++ toString (k + 1)

/-- The state that the last of the values with the key names. -/
def lastState (values : List ConfigValue) (key : String) : Option Int :=
  (values.filter fun v => v.key = key).getLast?.map fun v => str2state v.text

/-- The machine has what the values of each name say, and else an empty table and the initial state of `old`. -/
structure Fsm.Holds (values : String → List ConfigValue) (old fsm : Fsm) : Prop where
  combination : ∀ n ∈ stateNames, ∀ k < 36, fsm.transitionTable.item n.2.toNat (condCombination k) =
    (lastState (values n.1) (combinationKey k)).getD fsmNotransition
  other : ∀ s c, (∀ n ∈ stateNames, ∀ k < 36, ¬ (s = n.2.toNat ∧ c = condCombination k)) →
    fsm.transitionTable.item s c = fsmNotransition
  initial : fsm.initialState = (lastState (values "INITIAL") "NOCOND").getD old.initialState

/-- The values of the groups with the name. -/
def valuesNamed (root : XmlNode) (name : String) : List ConfigValue :=
  (root.policyGroups.filter fun g => g.attr "name" = some name).flatMap XmlNode.configValues

/-- The machine has what the policy file describes. -/
def Describes (root : XmlNode) (old fsm : Fsm) : Prop := Fsm.Holds (valuesNamed root) old fsm

/-! ### Groups that are read twice -/

/-- The names of the groups, in the order of the comparisons. -/
def groupNames : List String := "INITIAL" :: stateNames.map Prod.fst

/-- The names that are compared after `name`. -/
def namesBehind (name : String) : List String := (groupNames.dropWhile (· ≠ name)).tail

/-- The group is read again under the name, which is the key of its last value. -/
def XmlNode.ReadAgainAs (g : XmlNode) (name : String) : Prop :=
  g.configValues.getLast?.map ConfigValue.key = some name ∧ ∃ own ∈ g.attr "name", name ∈ namesBehind own

instance (g : XmlNode) (name : String) : Decidable (g.ReadAgainAs name) :=
  inferInstanceAs (Decidable (_ ∧ ∃ own ∈ g.attr "name", name ∈ namesBehind own))

/-- The values of the groups that are read under the name. -/
def valuesReadAs (root : XmlNode) (name : String) : List ConfigValue :=
  (root.policyGroups.filter fun g => g.attr "name" = some name ∨ g.ReadAgainAs name).flatMap XmlNode.configValues

/-- No group read again decides an entry. -/
def ReadOnce (root : XmlNode) : Prop :=
  ∀ n ∈ stateNames, ∀ k < 36, lastState (valuesReadAs root n.1) (combinationKey k) =
    lastState (valuesNamed root n.1) (combinationKey k)

/-! ### Reading a group -/

theorem lastState_append (values : List ConfigValue) (v : ConfigValue) (key : String) :
    lastState (values ++ [v]) key = if v.key = key then some (str2state v.text) else lastState values key := by
  unfold lastState
  rw [List.filter_append]
  split <;> next hkey => simp [hkey]

/-- The values with those of one more group. -/
def addValues (values : String → List ConfigValue) (name : String) (more : List ConfigValue) : String → List ConfigValue :=
  fun n => if n = name then values n ++ more else values n

theorem addValues_append {values : String → List ConfigValue} {name : String} {l l' : List ConfigValue} :
    addValues (addValues values name l) name l' = addValues values name (l ++ l') := by
  funext n
  unfold addValues
  split <;> simp

theorem lastState_addValues {values : String → List ConfigValue} {name n : String} {v : ConfigValue} {key : String} :
    lastState (addValues values name [v] n) key =
      if n = name ∧ v.key = key then some (str2state v.text) else lastState (values n) key := by
  unfold addValues
  by_cases hn : n = name
  · simp only [hn, if_true, true_and]
    exact lastState_append _ v key
  · simp [hn]

/-- The comparisons of a key with the combinations set the one entry that it names. -/
theorem exec_fillCombination {key txt : String} {node : XmlNode} (htext : node.getText = some txt) (state : Nat) (ks : List Nat)
    (fsm : Fsm) : ∃ fsm', Exec.exec (fillCombination key state node) fsm ks = some fsm' ∧
      fsm'.initialState = fsm.initialState ∧ ∀ s c, fsm'.transitionTable.item s c =
        if s = state ∧ ∃ k ∈ ks, c = condCombination k ∧ key = combinationKey k then str2state txt
        else fsm.transitionTable.item s c := by
  induction ks generalizing fsm with
  | nil => exact ⟨fsm, rfl, rfl, fun s c => by simp⟩
  | cons k ks ih =>
    by_cases hkey : key = combinationKey k
    · obtain ⟨fsm', he, hinit, hitem⟩ :=
        ih { fsm with transitionTable := fsm.transitionTable.set state (condCombination k) (str2state txt) }
      refine ⟨fsm', Exec.exec_cons.mpr ⟨_, ?_, he⟩, hinit, fun s c => ?_⟩
      · refine (if_pos hkey).trans ?_
        rw [htext]
        rfl
      · rw [hitem]
        by_cases hs : s = state <;> by_cases hc : c = condCombination k <;> simp [TransitionTable.set, hs, hc, hkey]
    · obtain ⟨fsm', he, hinit, hitem⟩ := ih fsm
      refine ⟨fsm', Exec.exec_cons.mpr ⟨fsm, if_neg hkey, he⟩, hinit, fun s c => ?_⟩
      rw [hitem]
      simp [hkey]

theorem stateNames_inj : ∀ n ∈ stateNames, ∀ n' ∈ stateNames, n.2.toNat = n'.2.toNat ↔ n.1 = n'.1 := by decide +kernel

theorem condCombination_inj {k k' : Nat} : condCombination k = condCombination k' ↔ k = k' := by
  simp [condCombination]

section
variable {values : String → List ConfigValue} {old fsm : Fsm} {group : String × (String → XmlNode → Fsm → Option Fsm)}

theorem Fsm.Holds.value (h : Fsm.Holds values old fsm) (hgroup : group ∈ groups) {node : XmlNode} {v : ConfigValue}
    (htext : node.getText = some v.text) :
    ∃ fsm', group.2 v.key node fsm = some fsm' ∧ Fsm.Holds (addValues values group.1 [v]) old fsm' := by
  rcases List.mem_cons.mp hgroup with rfl | hstate
  · have hne : ∀ n ∈ stateNames, n.1 ≠ "INITIAL" := by decide
    have hcomb : ∀ n ∈ stateNames, ∀ k, lastState (addValues values "INITIAL" [v] n.1) (combinationKey k) =
        lastState (values n.1) (combinationKey k) := fun n hn k => by
      rw [lastState_addValues, if_neg fun e => hne n hn e.1]
    by_cases hkey : v.key = "NOCOND"
    · refine ⟨{ fsm with initialState := str2state v.text }, ?_, fun n hn k hk => ?_, h.other, ?_⟩
      · simp only [setInitial]
        rw [if_pos hkey, htext]
        rfl
      · rw [hcomb n hn]
        exact h.combination n hn k hk
      · rw [lastState_addValues, if_pos ⟨rfl, hkey⟩]
        rfl
    · refine ⟨fsm, if_neg hkey, fun n hn k hk => ?_, h.other, ?_⟩
      · rw [hcomb n hn]
        exact h.combination n hn k hk
      · rw [lastState_addValues, if_neg fun e => hkey e.2]
        exact h.initial
  · obtain ⟨m, hm, rfl⟩ := List.mem_map.mp hstate
    obtain ⟨fsm', he, hinit, hitem⟩ := exec_fillCombination htext m.2.toNat (List.range 36) fsm
    refine ⟨fsm', he, fun n hn k hk => ?_, fun s c hno => ?_, ?_⟩
    · have hhit : (n.2.toNat = m.2.toNat ∧ ∃ k' ∈ List.range 36, condCombination k = condCombination k' ∧
          v.key = combinationKey k') ↔ n.1 = m.1 ∧ v.key = combinationKey k := by
        rw [stateNames_inj n hn m hm]
        refine and_congr_right fun _ => ⟨?_, fun e => ⟨k, List.mem_range.mpr hk, rfl, e⟩⟩
        rintro ⟨k', -, hk', e⟩
        rwa [condCombination_inj.mp hk']
      rw [hitem, lastState_addValues]
      by_cases hhit' : n.1 = m.1 ∧ v.key = combinationKey k
      · rw [if_pos (hhit.mpr hhit'), if_pos hhit']
        rfl
      · rw [if_neg (mt hhit.mp hhit'), if_neg hhit']
        exact h.combination n hn k hk
    · rw [hitem, if_neg]
      · exact h.other s c hno
      · rintro ⟨rfl, k, hk, rfl, -⟩
        exact hno m hm k (List.mem_range.mp hk) ⟨rfl, rfl⟩
    · have hne : ∀ n ∈ stateNames, "INITIAL" ≠ n.1 := by decide
      rw [lastState_addValues, if_neg fun e => hne m hm e.1, hinit]
      exact h.initial

/-- The values of the group are complete. -/
def XmlNode.CompleteValues (nodes : List XmlNode) : Prop :=
  ∀ v ∈ nodes, v.isElement "configValue" = true → (v.attr "key").isSome = true ∧ v.getText.isSome = true

theorem Fsm.Holds.groupNodes (h : Fsm.Holds values old fsm) (hgroup : group ∈ groups) {nodes : List XmlNode}
    (hnodes : XmlNode.CompleteValues nodes) (attr : String) :
    ∃ fsm', Exec.exec (groupNode group.2) (attr, fsm) nodes =
        some (((nodes.filterMap XmlNode.configValue?).getLast?.map ConfigValue.key).getD attr, fsm') ∧
      Fsm.Holds (addValues values group.1 (nodes.filterMap XmlNode.configValue?)) old fsm' := by
  induction nodes generalizing values fsm attr with
  | nil =>
    have hnil : addValues values group.1 [] = values := by
      funext n
      simp [addValues]
    exact ⟨fsm, rfl, by rwa [List.filterMap_nil, hnil]⟩
  | cons node nodes ih =>
    have hrest : XmlNode.CompleteValues nodes := fun v hv => hnodes v (List.mem_cons_of_mem _ hv)
    by_cases hvalue : node.isElement "configValue" = true
    · obtain ⟨hkey, htext⟩ := hnodes node (List.mem_cons_self ..) hvalue
      obtain ⟨key, hkey⟩ := Option.isSome_iff_exists.mp hkey
      obtain ⟨text, htext⟩ := Option.isSome_iff_exists.mp htext
      have hv : node.configValue? = some ⟨key, text⟩ := by
        unfold XmlNode.configValue?
        rw [if_pos hvalue, hkey, htext]
        rfl
      obtain ⟨fsm₁, h₁, hold₁⟩ := h.value (v := ⟨key, text⟩) hgroup htext
      obtain ⟨fsm₂, h₂, hold₂⟩ := ih hold₁ hrest key
      have hnode : groupNode group.2 (attr, fsm) node = some (key, fsm₁) := by
        unfold groupNode
        rw [if_pos hvalue, hkey, Option.bind_some, h₁]
        rfl
      refine ⟨fsm₂, Exec.exec_cons.mpr ⟨_, hnode, ?_⟩, ?_⟩
      · rw [h₂, List.filterMap_cons_some hv, List.getLast?_cons]
        cases (nodes.filterMap XmlNode.configValue?).getLast? <;> rfl
      · rw [addValues_append] at hold₂
        rwa [List.filterMap_cons_some hv]
    · have hv : node.configValue? = none := if_neg hvalue
      have hnode : groupNode group.2 (attr, fsm) node = some (attr, fsm) := if_neg hvalue
      obtain ⟨fsm', h', hold⟩ := ih h hrest attr
      refine ⟨fsm', Exec.exec_cons.mpr ⟨_, hnode, ?_⟩, ?_⟩
      · rw [h', List.filterMap_cons_none hv]
      · rwa [List.filterMap_cons_none hv]

/-- `nodeAttr`, which is `attr` before the comparisons with `names` and `last` after one that held, is equal to `n`. -/
def ReadIn (names : List String) (attr : String) (last : Option String) (n : String) : Prop :=
  n ∈ names ∧ (attr = n ∨ last = some n ∧ n ∈ (names.dropWhile (· ≠ attr)).tail)

instance (names : List String) (attr : String) (last : Option String) (n : String) : Decidable (ReadIn names attr last n) :=
  inferInstanceAs (Decidable (_ ∧ (_ ∨ _ ∧ _)))

theorem readIn_self {names : List String} {attr n : String} {last : Option String} :
    ReadIn (attr :: names) attr last n ↔ n = attr ∨ last = some n ∧ n ∈ names := by
  have htail : ((attr :: names).dropWhile (· ≠ attr)).tail = names := by simp
  unfold ReadIn
  rw [htail, List.mem_cons]
  constructor
  · rintro ⟨-, rfl | hlast⟩
    · exact .inl rfl
    · exact .inr hlast
  · rintro (rfl | ⟨hlast, hn⟩)
    · exact ⟨.inl rfl, .inl rfl⟩
    · exact ⟨.inr hn, .inr ⟨hlast, hn⟩⟩

theorem readIn_of_ne {names : List String} {attr m n : String} {last : Option String} (h : attr ≠ m) :
    ReadIn (m :: names) attr last n ↔ ReadIn names attr last n := by
  have hdrop : (m :: names).dropWhile (· ≠ attr) = names.dropWhile (· ≠ attr) := by simp [h.symm]
  unfold ReadIn
  rw [hdrop, List.mem_cons]
  constructor
  · rintro ⟨rfl | hn, hread⟩
    · obtain rfl | ⟨hlast, hn⟩ := hread
      · exact absurd rfl h
      · exact ⟨(List.dropWhile_suffix _).subset (List.mem_of_mem_tail hn), .inr ⟨hlast, hn⟩⟩
    · exact ⟨hn, hread⟩
  · rintro ⟨hn, hread⟩
    exact ⟨.inr hn, hread⟩

theorem readIn_last {names : List String} {last n : String} : ReadIn names last (some last) n ↔ n ∈ names ∧ last = n := by
  unfold ReadIn
  refine and_congr_right fun _ => ⟨?_, .inl⟩
  rintro (h | ⟨h, -⟩)
  · exact h
  · exact Option.some.inj h

/-- The comparisons with some of the names, and the loops over the group where they hold. -/
theorem Fsm.Holds.inGroups (h : Fsm.Holds values old fsm) {nodes : List XmlNode} (hnodes : XmlNode.CompleteValues nodes)
    {gs : List (String × (String → XmlNode → Fsm → Option Fsm))} (hgs : gs ⊆ groups) (hnodup : (gs.map Prod.fst).Nodup)
    (attr : String) :
    ∃ attr' fsm', Exec.exec (inGroup nodes) (attr, fsm) gs = some (attr', fsm') ∧ Fsm.Holds (fun n =>
      if ReadIn (gs.map Prod.fst) attr ((nodes.filterMap XmlNode.configValue?).getLast?.map ConfigValue.key) n then
        values n ++ nodes.filterMap XmlNode.configValue?
      else values n) old fsm' := by
  obtain ⟨read, hread⟩ : ∃ read, read = nodes.filterMap XmlNode.configValue? := ⟨_, rfl⟩
  rw [← hread]
  induction gs generalizing values fsm attr with
  | nil =>
    refine ⟨attr, fsm, rfl, ?_⟩
    simpa [ReadIn] using h
  | cons g gs ih =>
    have hsub : gs ⊆ groups := fun x hx => hgs (List.mem_cons_of_mem _ hx)
    rw [List.map_cons, List.nodup_cons] at hnodup
    by_cases hattr : attr = g.1
    · obtain ⟨fsm₁, h₁, hold₁⟩ := h.groupNodes (hgs (List.mem_cons_self ..)) hnodes attr
      rw [← hread] at h₁ hold₁
      obtain ⟨attr₂, fsm₂, h₂, hold₂⟩ := ih hold₁ hsub hnodup.2 _
      refine ⟨attr₂, fsm₂, Exec.exec_cons.mpr ⟨_, (if_pos hattr).trans h₁, h₂⟩, ?_⟩
      subst hattr
      convert hold₂ using 2 with n
      cases hlast : read.getLast? with
      | none =>
        -- Without values there is nothing to add, whatever is read.
        have hnil : read = [] := List.getLast?_eq_none_iff.mp hlast
        simp [hnil, addValues]
      | some last =>
        simp only [List.map_cons, Option.map_some, Option.getD_some, readIn_self, readIn_last, addValues, Option.some.injEq]
        by_cases hn : n = g.1
        · subst hn
          simp [hnodup.1]
        · have hcomm : (n = g.1 ∨ last.key = n ∧ n ∈ gs.map Prod.fst) ↔ n ∈ gs.map Prod.fst ∧ last.key = n := by
            rw [or_iff_right hn, and_comm]
          simp only [hcomm, if_neg hn]
    · obtain ⟨attr', fsm', h', hold⟩ := ih h hsub hnodup.2 attr
      refine ⟨attr', fsm', Exec.exec_cons.mpr ⟨_, if_neg hattr, h'⟩, ?_⟩
      simpa only [List.map_cons, readIn_of_ne hattr] using hold

/-- Only the values of the names of groups matter. -/
theorem Fsm.Holds.congr {values' : String → List ConfigValue} (h : Fsm.Holds values old fsm)
    (he : ∀ n ∈ groupNames, values n = values' n) : Fsm.Holds values' old fsm := by
  refine ⟨fun n hn k hk => ?_, h.other, ?_⟩
  · rw [← he n.1 (List.mem_cons_of_mem _ (List.mem_map_of_mem hn))]
    exact h.combination n hn k hk
  · rw [← he "INITIAL" (List.mem_cons_self ..)]
    exact h.initial

/-! ### Reading the file -/

theorem flatMap_filter {α β : Type} (f : α → List β) (p : α → Bool) (l : List α) :
    (l.filter p).flatMap f = l.flatMap fun a => if p a then f a else [] := by
  induction l with
  | nil => rfl
  | cons a l ih =>
    rw [List.filter_cons, List.flatMap_cons, ← ih]
    split <;> simp

/-- What a group adds to the values of a name. -/
def XmlNode.groupValues (name : String) (g : XmlNode) : List ConfigValue :=
  if g.isElement "group" then if g.attr "name" = some name ∨ g.ReadAgainAs name then g.configValues else [] else []

/-- What a module adds to the values of a name. -/
def XmlNode.moduleValues (name : String) (m : XmlNode) : List ConfigValue :=
  if m.isElement "module" && m.attr "name" = some "FSM" then m.children.flatMap (groupValues name) else []

theorem valuesReadAs_eq (root : XmlNode) (name : String) :
    valuesReadAs root name = (root.findBelow "module").flatMap (XmlNode.moduleValues name) := by
  unfold valuesReadAs XmlNode.policyGroups
  rw [List.filter_flatMap, List.flatMap_assoc, flatMap_filter]
  refine List.flatMap_congr fun m _ => ?_
  unfold XmlNode.moduleValues
  split
  · rw [flatMap_filter, flatMap_filter]
    refine List.flatMap_congr fun g _ => ?_
    simp only [XmlNode.groupValues, decide_eq_true_eq]
  · rfl

/-- Reading a group adds its values to those of its name and of the name under which it is read again. -/
theorem Fsm.Holds.loadGroup (h : Fsm.Holds values old fsm) {g : XmlNode}
    (hname : g.isElement "group" = true → (g.attr "name").isSome = true)
    (hvalues : g.isElement "group" = true → XmlNode.CompleteValues g.children) :
    ∃ fsm', loadGroup fsm g = some fsm' ∧ Fsm.Holds (fun n => values n ++ g.groupValues n) old fsm' := by
  unfold Recbcsrv.loadGroup XmlNode.groupValues
  by_cases hgroup : g.isElement "group" = true
  · obtain ⟨own, hown⟩ := Option.isSome_iff_exists.mp (hname hgroup)
    have hnodup : (groups.map Prod.fst).Nodup := by decide
    obtain ⟨attr', fsm', hexec, hold⟩ := h.inGroups (hvalues hgroup) (List.Subset.refl _) hnodup own
    refine ⟨fsm', ?_, hold.congr fun n hn => ?_⟩
    · rw [if_pos hgroup, hown, Option.bind_some, hexec]
      rfl
    · have hread : ReadIn (groups.map Prod.fst) own ((g.children.filterMap XmlNode.configValue?).getLast?.map ConfigValue.key) n ↔
          g.attr "name" = some n ∨ g.ReadAgainAs n := by
        have hbehind : (∃ o ∈ some own, n ∈ namesBehind o) ↔ n ∈ namesBehind own := by simp
        rw [XmlNode.ReadAgainAs, hown, hbehind, Option.some.injEq]
        exact and_iff_right hn
      simp only [hread, if_pos hgroup]
      split
      · rfl
      · rw [List.append_nil]
  · refine ⟨fsm, if_neg hgroup, ?_⟩
    simpa only [if_neg hgroup, List.append_nil] using h

/-- A loop whose turns add the values of their nodes adds those of all nodes. -/
theorem Fsm.Holds.exec {load : Fsm → XmlNode → Option Fsm} {more : String → XmlNode → List ConfigValue} {nodes : List XmlNode}
    (hload : ∀ m ∈ nodes, ∀ values fsm, Fsm.Holds values old fsm →
      ∃ fsm', load fsm m = some fsm' ∧ Fsm.Holds (fun n => values n ++ more n m) old fsm')
    (h : Fsm.Holds values old fsm) :
    ∃ fsm', Exec.exec load fsm nodes = some fsm' ∧ Fsm.Holds (fun n => values n ++ nodes.flatMap (more n)) old fsm' := by
  induction nodes generalizing values fsm with
  | nil => exact ⟨fsm, rfl, by simpa using h⟩
  | cons m ms ih =>
    rw [List.forall_mem_cons] at hload
    obtain ⟨fsm₁, h₁, hold₁⟩ := hload.1 values fsm h
    obtain ⟨fsm₂, h₂, hold₂⟩ := ih hload.2 hold₁
    refine ⟨fsm₂, Exec.exec_cons.mpr ⟨fsm₁, h₁, h₂⟩, ?_⟩
    simpa only [List.flatMap_cons, List.append_assoc] using hold₂

theorem Fsm.Holds.loadModule (h : Fsm.Holds values old fsm) {m : XmlNode}
    (hname : m.isElement "module" = true → (m.attr "name").isSome = true)
    (hgroups : m.isElement "module" = true → ∀ g ∈ m.children, g.isElement "group" = true →
      (g.attr "name").isSome = true ∧ XmlNode.CompleteValues g.children) :
    ∃ fsm', loadModule fsm m = some fsm' ∧ Fsm.Holds (fun n => values n ++ m.moduleValues n) old fsm' := by
  unfold Recbcsrv.loadModule XmlNode.moduleValues
  by_cases hmodule : m.isElement "module" = true
  · obtain ⟨name, hattr⟩ := Option.isSome_iff_exists.mp (hname hmodule)
    rw [if_pos hmodule, hattr, Option.bind_some, hmodule]
    by_cases hfsm : name = "FSM"
    · subst hfsm
      rw [if_pos rfl]
      simp only [decide_true, Bool.and_true, if_true]
      exact h.exec fun g hg values fsm h => h.loadGroup (fun e => (hgroups hmodule g hg e).1) fun e => (hgroups hmodule g hg e).2
    · rw [if_neg hfsm]
      refine ⟨fsm, rfl, ?_⟩
      simpa [hfsm] using h
  · refine ⟨fsm, if_neg hmodule, ?_⟩
    simpa [hmodule] using h

/-- A complete file is loaded, and the machine has what the values that are read under each name say. -/
theorem switchPolicyLoad_holds {root : XmlNode} (hroot : root.Complete) (fsm : Fsm) :
    ∃ fsm', switchPolicyLoad (.tree root) fsm = some (0, fsm') ∧ Fsm.Holds (valuesReadAs root) fsm fsm' := by
  have hempty : Fsm.Holds (fun _ => []) fsm { fsm with transitionTable := .none } :=
    ⟨fun _ _ _ _ => rfl, fun _ _ _ => rfl, rfl⟩
  have hload : ∀ m ∈ root.findBelow "module", ∀ values fsm₁, Fsm.Holds values fsm fsm₁ →
      ∃ fsm', loadModule fsm₁ m = some fsm' ∧ Fsm.Holds (fun n => values n ++ m.moduleValues n) fsm fsm' :=
    fun m hm values fsm₁ h => h.loadModule (hroot.module m hm) fun hmodule g hg hgroup =>
      ⟨hroot.group m hm hmodule g hg hgroup, hroot.value m hm hmodule g hg hgroup⟩
  obtain ⟨fsm', hexec, hold⟩ := hempty.exec hload
  refine ⟨fsm', ?_, hold.congr fun n _ => ?_⟩
  · unfold switchPolicyLoad
    simp only [hexec]
    rfl
  · rw [valuesReadAs_eq, List.nil_append]

/-- No group is read again as `INITIAL`, whose name is the first to be compared. -/
theorem valuesReadAs_initial (root : XmlNode) : valuesReadAs root "INITIAL" = valuesNamed root "INITIAL" := by
  have hbehind : ∀ own, "INITIAL" ∉ namesBehind own := fun own hmem => by
    have hrest : "INITIAL" ∉ stateNames.map Prod.fst := by decide
    unfold namesBehind groupNames at hmem
    by_cases hown : own = "INITIAL"
    · subst hown
      exact hrest (by simpa using hmem)
    · rw [List.dropWhile_cons_of_pos (by simpa using Ne.symm hown)] at hmem
      exact hrest ((List.dropWhile_suffix _).subset (List.mem_of_mem_tail hmem))
  unfold valuesReadAs valuesNamed
  congr 1
  refine List.filter_congr fun g _ => ?_
  rw [decide_eq_decide, or_iff_left]
  rintro ⟨-, own, -, hmem⟩
  exact hbehind own hmem

theorem lastState_ne {values : List ConfigValue} {key : String} : lastState values key ≠ some fsmNotransition := by
  intro h
  obtain ⟨v, -, hv⟩ := Option.map_eq_some_iff.mp h
  have hrange := (str2state_mem v.text).1
  rw [hv] at hrange
  exact absurd hrange (by decide)

theorem getD_lastState_inj {values values' : List ConfigValue} {key : String} :
    (lastState values key).getD fsmNotransition = (lastState values' key).getD fsmNotransition ↔
      lastState values key = lastState values' key := by
  refine ⟨fun h => ?_, fun h => by rw [h]⟩
  have hne : lastState values key ≠ some fsmNotransition := lastState_ne
  have hne' : lastState values' key ≠ some fsmNotransition := lastState_ne
  cases hv : lastState values key <;> cases hv' : lastState values' key <;> simp_all

end

/-- A complete file is loaded, and the machine has what the file describes if and only if no group that is read again
    decides an entry. -/
theorem switchPolicyLoad_describes_iff {root : XmlNode} (hroot : root.Complete) (fsm : Fsm) :
    ∃ fsm', switchPolicyLoad (.tree root) fsm = some (0, fsm') ∧ (Describes root fsm fsm' ↔ ReadOnce root) := by
  obtain ⟨fsm', hload, hold⟩ := switchPolicyLoad_holds hroot fsm
  refine ⟨fsm', hload, fun hdesc n hn k hk => ?_, fun honce => ⟨fun n hn k hk => ?_, hold.other, ?_⟩⟩
  · rw [← getD_lastState_inj, ← hold.combination n hn k hk, hdesc.combination n hn k hk]
  · rw [hold.combination n hn k hk, honce n hn k hk]
  · rw [hold.initial, valuesReadAs_initial]

/-- A group of the module of the sample policy. -/
def sampleGroup (name : String) (values : List (String × String)) : XmlNode :=
  .element "group" [("name", name)] (values.map fun v => .element "configValue" [("key", v.1)] [.text v.2])

def sampleRoot (groups : List XmlNode) : XmlNode := .element "?xml" [] [.element "module" [("name", "FSM")] groups]

theorem switchPolicyLoad_describes_sample :
    let root := sampleRoot [sampleGroup "INITIAL" [("NOCOND", "VGA")], sampleGroup "VGA" [("COND_COMBINATION_2", "TeacherFull")]]
    ∃ fsm', switchPolicyLoad (.tree root) fsmInit = some (0, fsm') ∧ Describes root fsmInit fsm' := by
  intro root
  have hroot : root.Complete := ⟨by decide +kernel, by decide +kernel, by decide +kernel⟩
  obtain ⟨fsm', hload, hiff⟩ := switchPolicyLoad_describes_iff hroot fsmInit
  have honce : ReadOnce root := by
    unfold ReadOnce
    decide +kernel
  exact ⟨fsm', hload, hiff.mpr honce⟩

/-- The group `INITIAL` ends in a value with the key `VGA`, and is read as the group `VGA` too. -/
theorem switchPolicyLoad_readAgain :
    let root := sampleRoot [sampleGroup "INITIAL" [("NOCOND", "TeacherFull"), ("COND_COMBINATION_1", "Blackboard"), ("VGA", "VGA")]]
    root.Complete ∧ ∃ fsm', switchPolicyLoad (.tree root) fsmInit = some (0, fsm') ∧ ¬ Describes root fsmInit fsm' := by
  intro root
  have hitem : (switchPolicyLoad (.tree root) fsmInit).any (fun r =>
      r.1 = 0 ∧ r.2.transitionTable.item 0 (condCombination 0) = fsmBoardCloseup) = true := by
    decide +kernel
  obtain ⟨⟨ret, fsm'⟩, hload, h⟩ := (Option.any_eq_true ..).mp hitem
  obtain ⟨hret, hitem⟩ := of_decide_eq_true h
  cases hret
  refine ⟨⟨by decide +kernel, by decide +kernel, by decide +kernel⟩, fsm', hload, fun hdesc => ?_⟩
  have hnone := hdesc.combination ("VGA", fsmVga) (by decide) 0 (by decide)
  have hvalues : lastState (valuesNamed root "VGA") (combinationKey 0) = none := by decide +kernel
  rw [hvalues] at hnone
  exact absurd (hitem.symm.trans hnone) (by decide)

/-! ### A load that fails -/

/-- A load that returns -1 leaves the table and the initial state as they were. -/
def FailsSafely (file : PolicyFile) (fsm : Fsm) : Prop :=
  ∀ fsm', switchPolicyLoad file fsm = some (-1, fsm') →
    fsm'.transitionTable = fsm.transitionTable ∧ fsm'.initialState = fsm.initialState

/-- Whatever the configuration, some run of the thread comes to another state than the initial one. -/
def CanLeave (fsm : Fsm) : Prop :=
  ∀ isAutoInstuct vgaDuration vmap, ∃ as,
    ((Tracking.init fsm isAutoInstuct vgaDuration vmap).run as).fsm.currentState ≠ fsm.initialState

/-- The machine without transitions that `fsm_init` and a broken file give. -/
def brokenFsm : Fsm := { fsmInit with transitionTable := .none }

/-- After a change of the VGA picture the thread goes where the table leads from there. -/
theorem Tracking.step_vgaChg (s : Tracking) : ((s.run [.setRecordMode "Auto", .eventVga 1, .pass 3000])).fsm =
    (fsmStateUpdate s.truthTable.vgaChg s.fsm).2 := by
  have hmode : recordMode s.isAutoInstuct "Auto" = 2 := by simp [recordMode]
  simp [Tracking.run, Tracking.step, Tracking.onVga, Tracking.Updates, hmode]

theorem canLeave_fsmInit : CanLeave fsmInit := by
  intro isAutoInstuct vgaDuration vmap
  refine ⟨[.setRecordMode "Auto", .eventVga 1, .pass 3000], ?_⟩
  rw [Tracking.step_vgaChg]
  simp only [Tracking.init]
  decide +kernel

/-- Without transitions the thread never leaves the initial state. -/
theorem brokenFsm_stays (isAutoInstuct vgaDuration : Int) (vmap : List VideoMap) (as : List TrackingAction) :
    ((Tracking.init brokenFsm isAutoInstuct vgaDuration vmap).run as).fsm = brokenFsm := by
  refine Tracking.run_invariant (I := fun s => s.fsm = brokenFsm) (fun s a hs => ?_) rfl as
  rcases s.step_fsm a with h | h | ⟨i, hi, -⟩
  · exact h.trans hs
  · rw [h, hs]
    rfl
  · rw [hs] at hi
    exact absurd rfl hi

/-- A load that fails is safe unless the file is there and cannot be parsed: then the table is gone, and of the machine
    that `fsm_init` had set up only the initial state is left. -/
theorem failsSafely_iff (file : PolicyFile) (fsm : Fsm) :
    (FailsSafely file fsm ↔ (file = .broken → fsm.transitionTable = .none)) ∧
    ((∀ fsm', switchPolicyLoad file fsmInit = some (-1, fsm') → fsm' = fsmInit ∧ CanLeave fsm') ↔ file ≠ .broken) := by
  cases file with
  | missing =>
    refine ⟨iff_of_true (fun fsm' h => ?_) nofun, iff_of_true (fun fsm' h => ?_) nofun⟩
    · cases h
      exact ⟨rfl, rfl⟩
    · cases h
      exact ⟨rfl, canLeave_fsmInit⟩
  | broken =>
    refine ⟨⟨fun h _ => ((h _ rfl).1).symm, fun h fsm' hload => ?_⟩, iff_of_false (fun h => ?_) (fun h => h rfl)⟩
    · cases hload
      exact ⟨(h rfl).symm, rfl⟩
    · obtain ⟨as, has⟩ := (h _ rfl).2 2 10 vmapTableInit
      exact has (congrArg Fsm.currentState (brokenFsm_stays 2 10 vmapTableInit as))
  | tree root =>
    have hret : ∀ fsm fsm', switchPolicyLoad (.tree root) fsm ≠ some (-1, fsm') := fun fsm fsm' h => by
      obtain ⟨u, -, he⟩ := Option.map_eq_some_iff.mp h
      cases he
    exact ⟨iff_of_true (fun fsm' h => absurd h (hret fsm fsm')) nofun,
      iff_of_true (fun fsm' h => absurd h (hret fsmInit fsm')) nofun⟩

/-- A file that cannot be parsed empties the table, and the director never leaves its initial state. -/
theorem brokenLoad_freezes : switchPolicyLoad .broken fsmInit = some (-1, brokenFsm) ∧
    brokenFsm.transitionTable ≠ fsmInit.transitionTable ∧
    ∀ as, ((Tracking.init brokenFsm 2 10 vmapTableInit).run as).fsm.currentState = brokenFsm.initialState := by
  refine ⟨rfl, fun h => ?_, fun as => ?_⟩
  · have hitem : fsmInit.transitionTable.item 0 10 = fsmStudentPanorama := by decide
    rw [← h] at hitem
    exact absurd hitem (by decide)
  · rw [brokenFsm_stays]
    rfl

end Recbcsrv
