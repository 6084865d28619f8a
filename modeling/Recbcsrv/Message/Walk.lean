import Mathlib.Algebra.Order.BigOperators.Group.List
import Mathlib.Logic.Function.Iterate
import Recbcsrv.Lib.Bytes
import Recbcsrv.Message.Hex

/-! A command message and the walk over its attributes that all message handlers of `recbc_srv.c` share: the
    loop `while(len)` that decodes the sizes of an attribute, copies its name and value and subtracts its
    size from `len`. The walk is safe exactly on the messages whose body is a sequence of attributes. -/

namespace Recbcsrv
open Bytes

def cmdBufsize : Nat := 1536

def versionSize : Nat := 2

def cmdSize : Nat := 4

def dataLenSize : Nat := 4

def argNameLenSize : Nat := 1

def argLenSize : Nat := 4

def packetHeaderSize : Nat := versionSize + cmdSize + dataLenSize

def commandInternal : List UInt8 := [0x30, 0x30, 0x30, 0x30]

/-- The command of the message at address 0. -/
def msgCmd (m : Mem) : List UInt8 := load m versionSize cmdSize

/-- The total length of the attributes of the message at address 0. -/
def msgLen (m : Mem) : Nat := hexNum (load m (versionSize + cmdSize) dataLenSize)

/-! ### The walk -/

/-- The variables `ptr` and `len` of the loop. -/
structure Cursor where
  ptr : Nat
  len : Nat
  deriving DecidableEq, Repr

/-- An attribute as the loop copies it: the bytes of its name and of its value. -/
structure Attr where
  name : List UInt8
  value : List UInt8
  deriving DecidableEq, Repr

/-- `name_len` of the attribute at `ptr`. -/
def nameLen (m : Mem) (ptr : Nat) : Nat := hexNum (load m ptr 1)

/-- `value_len` of the attribute at `ptr`. -/
def valueLen (m : Mem) (ptr : Nat) : Nat := hexNum (load m (ptr + 1) 4)

/-- What the attribute at `ptr` takes off `len`. -/
def attrSize (m : Mem) (ptr : Nat) : Nat := argNameLenSize + argLenSize + nameLen m ptr + valueLen m ptr

/-- The attribute at `ptr`. -/
def attrAt (m : Mem) (ptr : Nat) : Attr where
  name := load m (ptr + 5) (nameLen m ptr)
  value := load m (ptr + 5 + nameLen m ptr) (valueLen m ptr)

/-- One turn of the loop; `len` is an unsigned 32-bit number. -/
def nextAttr (m : Mem) (c : Cursor) : Cursor where
  ptr := c.ptr + 5 + nameLen m c.ptr + valueLen m c.ptr
  len := (c.len + 2 ^ 32 - attrSize m c.ptr % 2 ^ 32) % 2 ^ 32

/-- The variables at the start of the loop. -/
def walkStart (m : Mem) : Cursor := ⟨packetHeaderSize, msgLen m⟩

/-- The attributes that the loop visits from `c` on, if it ends within `n` turns. -/
def walk (m : Mem) : Nat → Cursor → Option (List Attr)
  | 0, c => if c.len = 0 then some [] else none
  | n + 1, c => if c.len = 0 then some [] else (walk m n (nextAttr m c)).map (attrAt m c.ptr :: ·)

/-- The attributes that the loop of a handler visits in the message. -/
def attrsOf (m : Mem) : List Attr := (walk m (msgLen m) (walkStart m)).getD []

section
variable {m : Mem} {c : Cursor} {n k : Nat} {ptr : Nat} {attrs : List Attr}

theorem msgLen_lt : msgLen m < 2 ^ 18 := hexNum_lt (n := 4) length_load (by decide)

theorem attrSize_eq : attrSize m ptr = 5 + nameLen m ptr + valueLen m ptr := rfl

theorem attrSize_pos : 0 < attrSize m ptr := by
  rw [attrSize_eq]
  omega

theorem nextAttr_ptr : (nextAttr m c).ptr = c.ptr + attrSize m c.ptr := by
  simp only [nextAttr, attrSize_eq]
  omega

/-- An attribute that fits takes its size off the rest. -/
theorem nextAttr_len (h : attrSize m c.ptr ≤ c.len) (hc : c.len < 2 ^ 32) :
    (nextAttr m c).len = c.len - attrSize m c.ptr := by
  simp only [nextAttr]
  omega

theorem walk_of_len_eq_zero (h : c.len = 0) : walk m n c = some [] := by
  cases n <;> simp [walk, h]

theorem walk_succ (h : c.len ≠ 0) : walk m (n + 1) c = (walk m n (nextAttr m c)).map (attrAt m c.ptr :: ·) := if_neg h

/-- More turns than needed change nothing. -/
theorem walk_mono (h : walk m n c = some attrs) (hk : n ≤ k) : walk m k c = some attrs := by
  induction n generalizing k c attrs with
  | zero =>
    simp only [walk] at h
    split at h
    · next hc =>
      rw [walk_of_len_eq_zero hc]
      exact h
    · cases h
  | succ n ih =>
    by_cases hc : c.len = 0
    · rw [walk_of_len_eq_zero hc] at h ⊢
      exact h
    · obtain ⟨k, rfl⟩ : ∃ k', k = k' + 1 := ⟨k - 1, by omega⟩
      rw [walk_succ hc] at h ⊢
      obtain ⟨l, hl, rfl⟩ := Option.map_eq_some_iff.mp h
      rw [ih hl (by omega)]
      rfl

end

/-! ### Safety -/

/-- The variables at the start of turn `k`. -/
def turn (m : Mem) (c : Cursor) (k : Nat) : Cursor := (nextAttr m)^[k] c

/-- The loop reaches turn `k` and runs it. -/
def Runs (m : Mem) (c : Cursor) (k : Nat) : Prop := ∀ i ≤ k, (turn m c i).len ≠ 0

/-- The loop ends, reads nothing of an attribute at or beyond `bound`, and never takes more than the rest
    off `len`. -/
structure SafeWalk (m : Mem) (c : Cursor) (bound : Nat) : Prop where
  ends : ∃ k, (turn m c k).len = 0
  reads : ∀ k, Runs m c k → ∀ a, (turn m c k).ptr ≤ a → a < (turn m c k).ptr + attrSize m (turn m c k).ptr → a < bound
  fits : ∀ k, Runs m c k → attrSize m (turn m c k).ptr ≤ (turn m c k).len

/-- The bytes of an attribute: the digits of the two sizes, the name and the value. -/
structure RawAttr where
  nameDigit : UInt8
  valueDigits : List UInt8
  name : List UInt8
  value : List UInt8

namespace RawAttr

def bytes (a : RawAttr) : List UInt8 := a.nameDigit :: (a.valueDigits ++ (a.name ++ a.value))

/-- The digits give the sizes of name and value. -/
structure Sized (a : RawAttr) : Prop where
  digits : a.valueDigits.length = 4
  name : hexNum [a.nameDigit] = a.name.length
  value : hexNum a.valueDigits = a.value.length

def attr (a : RawAttr) : Attr := ⟨a.name, a.value⟩

end RawAttr

/-- The body of a message is a sequence of attributes and nothing else. -/
def WellFormedBody (body : List UInt8) : Prop := ∃ attrs : List RawAttr, (∀ a ∈ attrs, a.Sized) ∧ body = attrs.flatMap RawAttr.bytes

section
variable {m : Mem} {c : Cursor} {k ptr bound : Nat} {a : RawAttr}

theorem turn_succ : turn m c (k + 1) = turn m (nextAttr m c) k := Function.iterate_succ_apply ..

theorem Runs.head (h : Runs m c k) : c.len ≠ 0 := h 0 (Nat.zero_le k)

theorem Runs.tail (h : Runs m c (k + 1)) : Runs m (nextAttr m c) k := fun i hi => by
  rw [← turn_succ]
  exact h (i + 1) (by omega)

theorem Runs.cons (hc : c.len ≠ 0) (h : Runs m (nextAttr m c) k) : Runs m c (k + 1) := fun i hi => by
  cases i with
  | zero => exact hc
  | succ i =>
    rw [turn_succ]
    exact h i (by omega)

theorem runs_zero (hc : c.len ≠ 0) : Runs m c 0 := fun i hi => by
  rw [Nat.le_zero.mp hi]
  exact hc

/-- The rest of a safe walk is safe. -/
theorem SafeWalk.tail (h : SafeWalk m c bound) (hc : c.len ≠ 0) : SafeWalk m (nextAttr m c) bound where
  ends := by
    obtain ⟨k, hk⟩ := h.ends
    cases k with
    | zero => exact absurd hk hc
    | succ k => exact ⟨k, by rw [← turn_succ]; exact hk⟩
  reads k hk a h1 h2 := h.reads (k + 1) (.cons hc hk) a (by rw [turn_succ]; exact h1) (by rw [turn_succ]; exact h2)
  fits k hk := by
    have := h.fits (k + 1) (.cons hc hk)
    rwa [turn_succ] at this

/-- A safe turn in front of a safe walk. -/
theorem SafeWalk.cons (hr : c.ptr + attrSize m c.ptr ≤ bound) (hf : attrSize m c.ptr ≤ c.len)
    (h : SafeWalk m (nextAttr m c) bound) : SafeWalk m c bound where
  ends := by
    obtain ⟨k, hk⟩ := h.ends
    exact ⟨k + 1, by rw [turn_succ]; exact hk⟩
  reads k hk a h1 h2 := by
    cases k with
    | zero => exact Nat.lt_of_lt_of_le h2 hr
    | succ k =>
      rw [turn_succ] at h1 h2
      exact h.reads k hk.tail a h1 h2
  fits k hk := by
    cases k with
    | zero => exact hf
    | succ k =>
      rw [turn_succ]
      exact h.fits k hk.tail

theorem SafeWalk.of_len_eq_zero (hc : c.len = 0) : SafeWalk m c bound where
  ends := ⟨0, hc⟩
  reads _ hk := absurd hc hk.head
  fits _ hk := absurd hc hk.head

namespace RawAttr

theorem length_bytes (h : a.Sized) : a.bytes.length = 5 + a.name.length + a.value.length := by
  simp only [bytes, List.length_cons, List.length_append, h.digits]
  omega

/-- The bytes of an attribute in memory are what the loop reads there. -/
theorem Sized.load (h : a.Sized) (hl : Bytes.load m ptr a.bytes.length = a.bytes) :
    nameLen m ptr = a.name.length ∧ valueLen m ptr = a.value.length ∧ attrAt m ptr = a.attr := by
  rw [length_bytes h] at hl
  have hl : Bytes.load m ptr (1 + (4 + (a.name.length + a.value.length))) =
      [a.nameDigit] ++ (a.valueDigits ++ (a.name ++ a.value)) := by
    rw [show 1 + (4 + (a.name.length + a.value.length)) = 5 + a.name.length + a.value.length by omega]
    exact hl
  rw [load_add] at hl
  obtain ⟨hnd, hl⟩ := List.append_inj hl length_load
  rw [load_add] at hl
  obtain ⟨hvd, hl⟩ := List.append_inj hl (by rw [length_load, h.digits])
  rw [load_add] at hl
  obtain ⟨hn, hv⟩ := List.append_inj hl length_load
  have hnl : nameLen m ptr = a.name.length := by rw [nameLen, hnd, h.name]
  have hvl : valueLen m ptr = a.value.length := by rw [valueLen, hvd, h.value]
  refine ⟨hnl, hvl, ?_⟩
  rw [attrAt, hnl, hvl, attr, show ptr + 5 = ptr + 1 + 4 from rfl, hn, hv]

/-- What the loop reads at `ptr` are the bytes of an attribute. -/
theorem exists_at (m : Mem) (ptr : Nat) : ∃ a : RawAttr, a.Sized ∧ Bytes.load m ptr (attrSize m ptr) = a.bytes := by
  refine ⟨⟨m ptr, Bytes.load m (ptr + 1) 4, Bytes.load m (ptr + 1 + 4) (nameLen m ptr),
    Bytes.load m (ptr + 1 + 4 + nameLen m ptr) (valueLen m ptr)⟩, ⟨length_load, ?_, ?_⟩, ?_⟩
  · rw [length_load]
    rfl
  · rw [length_load]
    rfl
  · rw [attrSize_eq, show 5 + nameLen m ptr + valueLen m ptr = 1 + (4 + (nameLen m ptr + valueLen m ptr)) by omega,
      load_add, load_add, load_add]
    rfl

end RawAttr

/-- On a sequence of attributes the walk is safe and visits them in order. -/
theorem walk_of_attrs (ptr : Nat) (attrs : List RawAttr) (hs : ∀ a ∈ attrs, a.Sized)
    (hl : load m ptr (attrs.flatMap RawAttr.bytes).length = attrs.flatMap RawAttr.bytes)
    (hlt : (attrs.flatMap RawAttr.bytes).length < 2 ^ 32) :
    walk m attrs.length ⟨ptr, (attrs.flatMap RawAttr.bytes).length⟩ = some (attrs.map RawAttr.attr) ∧
      SafeWalk m ⟨ptr, (attrs.flatMap RawAttr.bytes).length⟩ (ptr + (attrs.flatMap RawAttr.bytes).length) := by
  induction attrs generalizing ptr with
  | nil => exact ⟨walk_of_len_eq_zero rfl, .of_len_eq_zero rfl⟩
  | cons a attrs ih =>
    have ha := hs a (List.mem_cons_self ..)
    rw [List.flatMap_cons] at hl hlt ⊢
    obtain ⟨hla, hlr⟩ := load_append hl
    obtain ⟨hnl, hvl, hat⟩ := ha.load hla
    have hsize : attrSize m ptr = a.bytes.length := by rw [attrSize_eq, hnl, hvl, RawAttr.length_bytes ha]
    have hpos : 0 < attrSize m ptr := attrSize_pos
    rw [List.length_append] at hlt ⊢
    obtain ⟨hw, hsafe⟩ := ih _ (fun b hb => hs b (List.mem_cons_of_mem _ hb)) hlr (by omega)
    have hnext : nextAttr m ⟨ptr, a.bytes.length + (attrs.flatMap RawAttr.bytes).length⟩ =
        ⟨ptr + a.bytes.length, (attrs.flatMap RawAttr.bytes).length⟩ := by
      have h1 := nextAttr_ptr (m := m) (c := ⟨ptr, a.bytes.length + (attrs.flatMap RawAttr.bytes).length⟩)
      have h2 := nextAttr_len (m := m) (c := ⟨ptr, a.bytes.length + (attrs.flatMap RawAttr.bytes).length⟩)
        (by simp only [hsize]; omega) hlt
      simp only [hsize, Nat.add_sub_cancel_left] at h1 h2
      rw [Cursor.mk.injEq]
      exact ⟨h1, h2⟩
    have hne : a.bytes.length + (attrs.flatMap RawAttr.bytes).length ≠ 0 := by omega
    constructor
    · rw [List.length_cons, walk_succ hne, hnext, hw, List.map_cons, hat]
      rfl
    · refine .cons (by simp only [hsize]; omega) (by simp only [hsize]; omega) ?_
      rw [hnext, ← Nat.add_assoc]
      exact hsafe

/-- A handler visits the attributes that make up the body. -/
theorem attrsOf_of_attrs (attrs : List RawAttr) (hs : ∀ a ∈ attrs, a.Sized)
    (hbody : load m packetHeaderSize (msgLen m) = attrs.flatMap RawAttr.bytes) : attrsOf m = attrs.map RawAttr.attr := by
  have hlen : (attrs.flatMap RawAttr.bytes).length = msgLen m := by rw [← hbody, length_load]
  have hlt := msgLen_lt (m := m)
  have hw := (walk_of_attrs packetHeaderSize attrs hs (by rw [hlen, hbody]) (by omega)).1
  have hcount : attrs.length ≤ msgLen m := by
    rw [← hlen, List.length_flatMap, ← List.length_map (f := fun r => r.bytes.length)]
    refine List.length_le_sum_of_one_le _ fun n hn => ?_
    obtain ⟨r, hr, rfl⟩ := List.mem_map.mp hn
    rw [RawAttr.length_bytes (hs r hr)]
    omega
  rw [hlen] at hw
  rw [attrsOf, walkStart, walk_mono hw hcount, Option.getD_some]

/-- A safe walk visits a sequence of attributes. -/
theorem SafeWalk.wellFormed (h : SafeWalk m c bound) (hlt : c.len < 2 ^ 32) : WellFormedBody (load m c.ptr c.len) := by
  obtain ⟨k, hk⟩ := h.ends
  -- Induction on the number of turns.
  induction k generalizing c with
  | zero =>
    have hc : c.len = 0 := hk
    rw [hc]
    exact ⟨[], by simp, rfl⟩
  | succ k ih =>
    by_cases hc : c.len = 0
    · rw [hc]
      exact ⟨[], by simp, rfl⟩
    · have hfit : attrSize m c.ptr ≤ c.len := h.fits 0 (runs_zero hc)
      have hlen := nextAttr_len hfit hlt
      rw [turn_succ] at hk
      obtain ⟨attrs, hs, hbody⟩ := ih (h.tail hc) (by omega) hk
      obtain ⟨a, ha, hab⟩ := RawAttr.exists_at m c.ptr
      refine ⟨a :: attrs, fun b hb => ?_, ?_⟩
      · rcases List.mem_cons.mp hb with rfl | hb
        · exact ha
        · exact hs b hb
      · have hsplit : c.len = attrSize m c.ptr + (c.len - attrSize m c.ptr) := by omega
        rw [hsplit, load_add, hab, List.flatMap_cons, ← hbody, hlen, nextAttr_ptr]

end

/-- The walk over a message of `10 + len` bytes is safe if and only if the `len` bytes behind the header are
    a sequence of attributes. -/
theorem walk_safe_iff (m : Mem) :
    SafeWalk m (walkStart m) (packetHeaderSize + msgLen m) ↔ WellFormedBody (load m packetHeaderSize (msgLen m)) := by
  have hlt : msgLen m < 2 ^ 32 := Nat.lt_trans msgLen_lt (by decide)
  constructor
  · exact fun h => h.wellFormed hlt
  · rintro ⟨attrs, hs, hbody⟩
    have hlen : (attrs.flatMap RawAttr.bytes).length = msgLen m := by rw [← hbody, length_load]
    have h := (walk_of_attrs packetHeaderSize attrs hs (by rw [hlen, hbody]) (by omega)).2
    rwa [hlen] at h

/-- A message with a body of one byte, too short for the sizes of an attribute. -/
def shortMsg : Mem := store (fun _ => 0) 0 [0x30, 0x31, 0x66, 0x66, 0x66, 0x66, 0x30, 0x30, 0x30, 0x31, 0x30]

theorem walk_unsafe_shortMsg : msgLen shortMsg = 1 ∧ ¬SafeWalk shortMsg (walkStart shortMsg) (packetHeaderSize + msgLen shortMsg) := by
  refine ⟨by decide +kernel, fun h => ?_⟩
  have hruns : Runs shortMsg (walkStart shortMsg) 0 := runs_zero (by decide +kernel)
  have := h.reads 0 hruns 11 (by decide +kernel) (by decide +kernel)
  exact absurd this (by decide +kernel)

end Recbcsrv
