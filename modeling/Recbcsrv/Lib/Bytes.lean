import Mathlib.Data.List.Basic

/-! A byte memory: runs of bytes are loaded from an address and stored at one. -/

namespace Bytes

/-- A memory gives a byte to every address. -/
abbrev Mem := Nat → UInt8

/-- The `n` bytes from address `a` on. -/
def load (m : Mem) (a : Nat) : Nat → List UInt8
  | 0 => []
  | n + 1 => m a :: load m (a + 1) n

/-- The memory with the bytes of `l` from address `a` on. -/
def store (m : Mem) (a : Nat) (l : List UInt8) : Mem := fun i =>
  if a ≤ i ∧ i < a + l.length then l.getD (i - a) 0 else m i

variable {m m' : Mem} {a b k n : Nat} {l l' : List UInt8}

@[simp] theorem length_load : (load m a n).length = n := by
  induction n generalizing a with
  | zero => rfl
  | succ n ih => rw [load, List.length_cons, ih]

theorem load_congr (h : ∀ i, a ≤ i → i < a + n → m i = m' i) : load m a n = load m' a n := by
  induction n generalizing a with
  | zero => rfl
  | succ n ih =>
    rw [load, load, h a (Nat.le_refl a) (by omega), ih fun i h1 h2 => h i (by omega) (by omega)]

theorem load_add (m : Mem) (a n k : Nat) : load m a (n + k) = load m a n ++ load m (a + n) k := by
  induction n generalizing a with
  | zero => simp [load]
  | succ n ih => rw [Nat.add_right_comm, load, load, ih, List.cons_append, Nat.add_right_comm a 1 n, Nat.add_assoc a n 1]

/-- A loaded run splits where the list does. -/
theorem load_append (h : load m a (l ++ l').length = l ++ l') : load m a l.length = l ∧ load m (a + l.length) l'.length = l' := by
  rw [List.length_append, load_add] at h
  exact List.append_inj h length_load

/-- Equal runs have equal parts. -/
theorem load_part (h : load m b k = load m' b k) (hb : b ≤ a) (ha : a + n ≤ b + k) : load m a n = load m' a n := by
  obtain ⟨i, rfl⟩ := Nat.exists_eq_add_of_le hb
  obtain ⟨j, rfl⟩ : ∃ j, k = i + (n + j) := ⟨k - i - n, by omega⟩
  rw [load_add, load_add, load_add m', load_add m'] at h
  have hrest := (List.append_inj h (by simp)).2
  exact (List.append_inj hrest (by simp)).1

theorem load_store_self : load (store m a l) a l.length = l := by
  suffices h : ∀ l₀ l₁ : List UInt8, l = l₀ ++ l₁ → load (store m a l) (a + l₀.length) l₁.length = l₁ from
    h [] l rfl
  intro l₀ l₁
  induction l₁ generalizing l₀ with
  | nil => exact fun _ => rfl
  | cons c l₁ ih =>
    intro hl
    have hrest := ih (l₀ ++ [c]) (by simp [hl])
    rw [List.length_append, List.length_singleton, ← Nat.add_assoc] at hrest
    rw [List.length_cons, load, hrest]
    have hlen : l.length = l₀.length + (l₁.length + 1) := by simp [hl]
    have hc : store m a l (a + l₀.length) = c := by
      rw [store, if_pos (by omega), Nat.add_sub_cancel_left, hl]
      simp
    rw [hc]

/-- A run within the stored bytes. -/
theorem load_store_within (h : k + n ≤ l.length) : load (store m a l) (a + k) n = (l.drop k).take n := by
  have hl : l = l.take k ++ ((l.drop k).take n ++ (l.drop k).drop n) := by
    rw [List.take_append_drop, List.take_append_drop]
  have hload := load_store_self (m := m) (a := a) (l := l)
  generalize store m a l = m' at hload ⊢
  rw [hl] at hload
  have := (load_append (load_append hload).2).1
  rwa [List.length_take, List.length_take, List.length_drop, Nat.min_eq_left (by omega), Nat.min_eq_left (by omega)] at this

theorem load_store_of_disjoint (h : b + n ≤ a ∨ a + l.length ≤ b) : load (store m a l) b n = load m b n :=
  load_congr fun i h1 h2 => if_neg fun hi => by omega

/-! ### Numbers -/

/-- A number in four bytes, the lowest first. -/
def le32 (n : UInt32) : List UInt8 := [n.toUInt8, (n >>> 8).toUInt8, (n >>> 16).toUInt8, (n >>> 24).toUInt8]

/-- The number in the first four bytes. -/
def ofLe32 : List UInt8 → UInt32
  | a :: b :: c :: d :: _ => UInt32.ofNat (a.toNat + 256 * b.toNat + 65536 * c.toNat + 16777216 * d.toNat)
  | _ => 0

theorem ofLe32_le32 (n : UInt32) (l : List UInt8) : ofLe32 (le32 n ++ l) = n := by
  rw [← UInt32.toNat_inj]
  have hn := n.toNat_lt
  have h8 : UInt32.toNat 8 % 32 = 8 := rfl
  have h16 : UInt32.toNat 16 % 32 = 16 := rfl
  have h24 : UInt32.toNat 24 % 32 = 24 := rfl
  simp only [le32, List.cons_append, ofLe32, UInt32.toNat_ofNat', UInt32.toNat_toUInt8, UInt32.toNat_shiftRight,
    Nat.shiftRight_eq_div_pow, h8, h16, h24]
  omega

/-- The bytes of the number in four bytes are these bytes. -/
theorem le32_ofLe32 (a b c d : UInt8) : le32 (ofLe32 [a, b, c, d]) = [a, b, c, d] := by
  have ha := a.toNat_lt
  have hb := b.toNat_lt
  have hc := c.toNat_lt
  have hd := d.toNat_lt
  have h8 : UInt32.toNat 8 % 32 = 8 := rfl
  have h16 : UInt32.toNat 16 % 32 = 16 := rfl
  have h24 : UInt32.toNat 24 % 32 = 24 := rfl
  simp only [le32, ofLe32, List.cons.injEq, and_true, ← UInt8.toNat_inj, UInt32.toNat_toUInt8, UInt32.toNat_shiftRight,
    UInt32.toNat_ofNat', Nat.shiftRight_eq_div_pow, h8, h16, h24]
  omega

/-- The number with its bytes in the opposite order. -/
def swap32 (n : UInt32) : UInt32 := ofLe32 (le32 n).reverse

theorem swap32_swap32 (n : UInt32) : swap32 (swap32 n) = n := by
  have h : le32 (swap32 n) = (le32 n).reverse := le32_ofLe32 _ _ _ _
  rw [swap32, h, List.reverse_reverse, ← List.append_nil (le32 n), ofLe32_le32]

end Bytes
