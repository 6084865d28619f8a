import Recbcsrv.Message.Indices

/-! The number of standing students that `GetAuxResult` derives from an auxiliary event, against the counts and spans that the
    event carries for the two channels. The counts are only looked at through their product, which is an `unsigned int`. -/

namespace Recbcsrv
open Bytes

/-! ### What the event carries -/

/-- The channel after some attributes: that of the last `Channel`. -/
def channelAfter (pre : List Attr) : Nat := ((hexAttrs "Channel" pre).getLast?.map fun a => hexNum a.value).getD 0

/-- The attributes for channel `c`, of those that come after `pre`. -/
def routed (c : Nat) : List Attr → List Attr → List Attr
  | _, [] => []
  | pre, a :: post => if channelAfter (pre ++ [a]) = c then a :: routed c (pre ++ [a]) post else routed c (pre ++ [a]) post

/-- The last value with the name that the event has for channel `c`. -/
def reported (attrs : List Attr) (c : Nat) (name : String) : Nat :=
  ((hexAttrs name (routed c [] attrs)).getLast?.map fun a => hexNum a.value).getD 0

def targets (attrs : List Attr) (c : Nat) : Nat := reported attrs c "Targets"

/-- `max_right - max_left` of a channel. -/
def span (attrs : List Attr) (c : Nat) : Int := intDiff (reported attrs c "MaxRight") (reported attrs c "MaxLeft")

/-- Both spans are wider than one student. -/
def Wide (attrs : List Attr) : Prop := span attrs 0 > 240 ∧ span attrs 1 > 240

instance (attrs : List Attr) : Decidable (Wide attrs) := inferInstanceAs (Decidable (_ ∧ _))

/-- The number of standing students that the event tells of, where 2 stands for more than one. -/
def standing (attrs : List Attr) : Nat :=
  if targets attrs 0 = 0 ∨ targets attrs 1 = 0 then 0
  else if (targets attrs 0 = 1 ∧ targets attrs 1 = 1) ∧ ¬ Wide attrs then 1
  else 2

/-- An event that `GetAuxResult` reads and stores inside of its buffers. -/
structure AuxEvent (m : Mem) : Prop extends AuxReadable m where
  channels : ChannelsInside (attrsOf m)

/-- The counts are not mistaken for others with the same product. -/
def ProductTells (attrs : List Attr) : Prop :=
  (targets attrs 0 = 0 ∨ targets attrs 1 = 0) ∨ targets attrs 0 * targets attrs 1 % 2 ^ 32 ≠ 0 ∧
    (targets attrs 0 * targets attrs 1 % 2 ^ 32 = 1 → targets attrs 0 = 1 ∧ targets attrs 1 = 1 ∨ Wide attrs)

instance (attrs : List Attr) : Decidable (ProductTells attrs) := inferInstanceAs (Decidable (_ ∨ _))

section
variable {attrs pre post : List Attr} {a : Attr} {m : Mem} {s t : AuxLoop} {c : Nat} {p : AuxCameraParam}

/-! ### The loop -/

theorem channelAfter_eq : channelAfter attrs = attrs.foldl (fun c a => a.readInto "Channel" c) 0 := foldl_readInto.symm

theorem channelAfter_concat : channelAfter (pre ++ [a]) = a.readInto "Channel" (channelAfter pre) := by
  rw [channelAfter_eq, channelAfter_eq, List.foldl_append, List.foldl_cons, List.foldl_nil]

theorem set_of_not_isAuxField (h : a.isAuxField = false) : p.set a = p := by
  have hnamed : ∀ n ∈ ["Targets", "MaxTop", "MaxLeft", "MaxBottom", "MaxRight"], a.named n = false := by
    intro n hn
    rw [← Bool.not_eq_true]
    exact fun hnamed => Bool.false_ne_true (h.symm.trans (List.any_eq_true.mpr ⟨n, hn, hnamed⟩))
  simp only [List.forall_mem_cons, List.not_mem_nil, false_imp_iff, implies_true, and_true] at hnamed
  obtain ⟨h1, h2, h3, h4, h5⟩ := hnamed
  simp [AuxCameraParam.set, Attr.readInto, h1, h2, h3, h4, h5]

/-- An attribute changes the camera of the channel that is set after it. -/
theorem onAttr_getElem (h : s.onAttr a = some t) (hc : c < 2) :
    t.aux[c] = if a.readInto "Channel" s.channel = c then s.aux[c].set a else s.aux[c] := by
  unfold AuxLoop.onAttr at h
  dsimp only at h
  split at h
  · split at h
    · cases h
      rw [Vector.getElem_set]
      split
      · next heq => subst heq; rfl
      · rfl
    · cases h
  · next hfield =>
    cases h
    rw [set_of_not_isAuxField (Bool.not_eq_true _ ▸ hfield), ite_self]

theorem exec_getElem (hs : s.channel = channelAfter pre) (h : Exec.exec AuxLoop.onAttr s post = some t) (hc : c < 2) :
    t.aux[c] = (routed c pre post).foldl AuxCameraParam.set s.aux[c] := by
  induction post generalizing s pre with
  | nil =>
    cases h
    rfl
  | cons a post ih =>
    obtain ⟨u, hu, ht⟩ := Exec.exec_cons.mp h
    have hchannel : u.channel = channelAfter (pre ++ [a]) := by rw [AuxLoop.onAttr_channel hu, hs, channelAfter_concat]
    rw [ih hchannel ht, onAttr_getElem hu hc, hs, ← channelAfter_concat, routed]
    split
    · rfl
    · rfl

/-- Each field is overwritten by the attributes with its name. -/
theorem foldl_set_fields (l : List Attr) (p : AuxCameraParam) :
    (l.foldl AuxCameraParam.set p).targetNum = l.foldl (fun v a => a.readInto "Targets" v) p.targetNum ∧
      (l.foldl AuxCameraParam.set p).maxLeft = l.foldl (fun v a => a.readInto "MaxLeft" v) p.maxLeft ∧
      (l.foldl AuxCameraParam.set p).maxRight = l.foldl (fun v a => a.readInto "MaxRight" v) p.maxRight := by
  induction l generalizing p with
  | nil => exact ⟨rfl, rfl, rfl⟩
  | cons a l ih => exact ih (p.set a)

/-- The cameras after the loop have what the event reports for their channels. -/
theorem getAuxResult_eq (h : AuxEvent m) : ∃ r, getAuxResult m = some r ∧ ∀ (c : Nat) (hc : c < 2),
    r.aux[c].targetNum = reported (attrsOf m) c "Targets" ∧ r.aux[c].maxLeft = reported (attrsOf m) c "MaxLeft" ∧
      r.aux[c].maxRight = reported (attrsOf m) c "MaxRight" := by
  obtain ⟨r, hr⟩ := Option.isSome_iff_exists.mp (getAuxResult_isSome.mpr h.channels)
  refine ⟨r, hr, fun c hc => ?_⟩
  obtain ⟨t, ht, rfl⟩ := Option.map_eq_some_iff.mp hr
  have hchannel : (0 : Nat) = channelAfter [] := rfl
  have haux := exec_getElem hchannel ht hc
  have hstart : (Vector.replicate 2 (⟨0, 0, 0, 0, 0⟩ : AuxCameraParam))[c] = ⟨0, 0, 0, 0, 0⟩ := Vector.getElem_replicate hc
  obtain ⟨htargets, hleft, hright⟩ := foldl_set_fields (routed c [] (attrsOf m)) ⟨0, 0, 0, 0, 0⟩
  rw [hstart] at haux
  dsimp only
  rw [haux, htargets, hleft, hright]
  exact ⟨foldl_readInto, foldl_readInto, foldl_readInto⟩

/-- Events whose channels are all 0 or 1. -/
theorem channelsInside_of_forall (h : ∀ a ∈ attrs, a.named "Channel" = true → hexNum a.value < 2) : ChannelsInside attrs := by
  intro pre a post hsplit _ c hc
  obtain ⟨hpre, hnamed⟩ := List.mem_filter.mp (List.mem_of_getLast? hc)
  exact h c (hsplit ▸ List.mem_append_left _ hpre) (Bool.and_eq_true_iff.mp hnamed).1

/-! ### The decision -/

theorem studentInStanding_eq_iff (n₀ n₁ : Nat) (wide : Prop) [Decidable wide] :
    (if n₀ * n₁ % 2 ^ 32 = 0 then 0 else if n₀ * n₁ % 2 ^ 32 = 1 then if wide then 2 else 1 else 2) =
      (if n₀ = 0 ∨ n₁ = 0 then 0 else if (n₀ = 1 ∧ n₁ = 1) ∧ ¬ wide then 1 else 2) ↔
    (n₀ = 0 ∨ n₁ = 0) ∨ n₀ * n₁ % 2 ^ 32 ≠ 0 ∧ (n₀ * n₁ % 2 ^ 32 = 1 → n₀ = 1 ∧ n₁ = 1 ∨ wide) := by
  by_cases hnone : n₀ = 0 ∨ n₁ = 0
  · have hproduct : n₀ * n₁ = 0 := Nat.mul_eq_zero.mpr hnone
    simp [hproduct, hnone]
  · rw [if_neg hnone, or_iff_right hnone]
    by_cases hone : n₀ = 1 ∧ n₁ = 1
    · rw [hone.1, hone.2]
      by_cases hw : wide <;> simp [hw]
    · have hnotOne : ¬ ((n₀ = 1 ∧ n₁ = 1) ∧ ¬ wide) := fun h => hone h.1
      rw [if_neg hnotOne]
      generalize n₀ * n₁ % 2 ^ 32 = q
      by_cases h0 : q = 0
      · simp [h0]
      · rw [if_neg h0, and_iff_right h0]
        by_cases h1 : q = 1
        · by_cases hw : wide <;> simp [h1, hw, hone]
        · simp [h1]

/-- The students that stand are counted exactly when the product of the two counts tells the counts apart. -/
theorem getAuxResult_standing_iff (h : AuxEvent m) :
    (∃ r, getAuxResult m = some r ∧ r.studentInStanding = standing (attrsOf m)) ↔ ProductTells (attrsOf m) := by
  obtain ⟨r, hr, hfields⟩ := getAuxResult_eq h
  have hstanding : r.studentInStanding = studentInStanding r.aux := by
    obtain ⟨t, -, rfl⟩ := Option.map_eq_some_iff.mp hr
    rfl
  have htargets : ∀ (c : Nat) (hc : c < 2), r.aux[c].targetNum = targets (attrsOf m) c := fun c hc => (hfields c hc).1
  have hspan : ∀ (c : Nat) (hc : c < 2), intDiff r.aux[c].maxRight r.aux[c].maxLeft = span (attrsOf m) c := by
    intro c hc
    rw [(hfields c hc).2.1, (hfields c hc).2.2, span]
  rw [hr]
  simp only [Option.some.injEq, exists_eq_left']
  rw [hstanding, studentInStanding, htargets 0 Nat.two_pos, htargets 1 Nat.one_lt_two, hspan 0 Nat.two_pos, hspan 1 Nat.one_lt_two]
  exact studentInStanding_eq_iff _ _ (Wide (attrsOf m))

end

/-- An event with the same number of targets in both channels, given in five digits. -/
def countMsg (count : String) : Mem :=
  store (fun _ => 0) 0 (ascii "01" ++ ascii "0025" ++ ascii "002f" ++
    ([⟨0x37, ascii "0005", ascii "Targets", ascii count⟩, ⟨0x37, ascii "0001", ascii "Channel", ascii "1"⟩,
      ⟨0x37, ascii "0005", ascii "Targets", ascii count⟩] : List RawAttr).flatMap RawAttr.bytes)

theorem countMsg_attrs : ∀ count ∈ ["00001", "10000"], attrsOf (countMsg count) =
    [⟨ascii "Targets", ascii count⟩, ⟨ascii "Channel", ascii "1"⟩, ⟨ascii "Targets", ascii count⟩] := by decide +kernel

theorem countMsg_event : ∀ count ∈ ["00001", "10000"], AuxEvent (countMsg count) := by
  intro count hcount
  have hlen : ∀ count ∈ ["00001", "10000"], (ascii count).length = 5 := by decide
  have hattrs := countMsg_attrs count hcount
  have htargets : hexNum [0x37] = (ascii "Targets").length := by decide
  have hfive : hexNum (ascii "0005") = 5 := by decide
  refine ⟨⟨⟨[⟨0x37, ascii "0005", ascii "Targets", ascii count⟩, ⟨0x37, ascii "0001", ascii "Channel", ascii "1"⟩,
    ⟨0x37, ascii "0005", ascii "Targets", ascii count⟩], ?_, ?_⟩, ?_, ?_⟩, ?_⟩
  · refine List.forall_mem_cons.mpr ⟨⟨rfl, htargets, hfive.trans (hlen count hcount).symm⟩, List.forall_mem_cons.mpr
      ⟨⟨rfl, by decide, by decide⟩, List.forall_mem_singleton.mpr ⟨rfl, htargets, hfive.trans (hlen count hcount).symm⟩⟩⟩
  · revert count
    decide +kernel
  · rw [hattrs]
    revert count
    decide +kernel
  · rw [hattrs]
    revert count
    decide +kernel
  · rw [hattrs]
    refine channelsInside_of_forall ?_
    revert count
    decide +kernel

theorem getAuxResult_standing_one : ∃ r, getAuxResult (countMsg "00001") = some r ∧
    r.studentInStanding = standing (attrsOf (countMsg "00001")) := by
  refine (getAuxResult_standing_iff (countMsg_event "00001" (by decide))).mpr ?_
  rw [countMsg_attrs "00001" (by decide)]
  decide +kernel

/-- Two channels with 65536 targets each, and the product is 0. -/
theorem standing_counterexample : AuxEvent (countMsg "10000") ∧ standing (attrsOf (countMsg "10000")) = 2 ∧
    (getAuxResult (countMsg "10000")).map AuxResult.studentInStanding = some 0 := by
  refine ⟨countMsg_event "10000" (by decide), ?_, ?_⟩
  · rw [countMsg_attrs "10000" (by decide)]
    decide +kernel
  · rw [getAuxResult, countMsg_attrs "10000" (by decide)]
    decide +kernel

end Recbcsrv
