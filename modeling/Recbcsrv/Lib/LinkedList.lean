import Mathlib.Data.List.Nodup
import Mathlib.Logic.Function.Basic

/-! Intrusive doubly linked lists. The nodes of a list are the cells of some memory, and a cell keeps
    its own `next` and `prev` pointer. `Linked next prev head tail l` says that following `next` from
    `head` visits exactly the cells of `l`, in order, up to the null pointer, that every `prev` points
    back, and that `tail` is the last cell. -/

namespace LinkedList

variable {α : Type} {next next' prev prev' : α → Option α} {h t q : Option α} {l l' : List α} {a b x : α}

/-- Following `next` from `h` visits the cells of `l` and ends in the null pointer. -/
def Path (next : α → Option α) : Option α → List α → Prop
  | h, [] => h = none
  | h, a :: l => h = some a ∧ Path next (next a) l

/-- Each cell of `l` points back to the cell before it, the first one to `q`. -/
def Back (prev : α → Option α) : Option α → List α → Prop
  | _, [] => True
  | q, a :: l => prev a = q ∧ Back prev (some a) l

/-- The cells of `l` form a well-formed doubly linked list with ends `head` and `tail`. -/
structure Linked (next prev : α → Option α) (head tail : Option α) (l : List α) : Prop where
  path : Path next head l
  back : Back prev none l
  last : tail = l.getLast?
  nodup : l.Nodup

/-- The cells that following `next` from `h` visits, at most `n` of them. -/
def walk (next : α → Option α) : Nat → Option α → List α
  | 0, _ => []
  | _ + 1, none => []
  | n + 1, some a => a :: walk next n (next a)

theorem Path.walk_eq {n : Nat} (hp : Path next h l) (hn : l.length ≤ n) : walk next n h = l := by
  induction l generalizing h n with
  | nil =>
    cases hp
    cases n <;> rfl
  | cons a l ih =>
    obtain ⟨rfl, hp⟩ := hp
    obtain ⟨m, rfl⟩ : ∃ m, n = m + 1 := ⟨n - 1, by simp only [List.length_cons] at hn; omega⟩
    rw [walk, ih hp (by simpa using hn)]

theorem Path.head (hp : Path next h l) : h = l.head? := by
  cases l with
  | nil => exact hp
  | cons a l => exact hp.1

theorem Path.congr (hn : ∀ a ∈ l, next' a = next a) (hp : Path next h l) : Path next' h l := by
  induction l generalizing h with
  | nil => exact hp
  | cons a l ih =>
    obtain ⟨rfl, hp⟩ := hp
    refine ⟨rfl, ?_⟩
    rw [hn a (List.mem_cons_self ..)]
    exact ih (fun b hb => hn b (List.mem_cons_of_mem _ hb)) hp

/-- The cells that a chain of `next` pointers visits are determined by the pointers. -/
theorem Path.unique (hp : Path next h l) (hp' : Path next h l') : l = l' := by
  induction l generalizing h l' with
  | nil =>
    cases hp
    cases l' with
    | nil => rfl
    | cons b l' => exact absurd hp'.1 (by simp)
  | cons a l ih =>
    obtain ⟨rfl, hp⟩ := hp
    cases l' with
    | nil => exact absurd hp' (by simp [Path])
    | cons b l' =>
      obtain ⟨hb, hp'⟩ := hp'
      cases hb
      rw [ih hp hp']

theorem Path.append_cell (hl : l ≠ []) (hp : Path next h l) (hx : x ∉ l) (hnx : next' x = none)
    (hlast : ∀ a, l.getLast? = some a → next' a = some x)
    (hn : ∀ a, a ≠ x → l.getLast? ≠ some a → next' a = next a) (hd : l.Nodup) :
    Path next' h (l ++ [x]) := by
  induction l generalizing h with
  | nil => exact absurd rfl hl
  | cons a l ih =>
    obtain ⟨rfl, hp⟩ := hp
    have hax : a ≠ x := fun e => hx (e ▸ List.mem_cons_self ..)
    refine ⟨rfl, ?_⟩
    cases l with
    | nil =>
      rw [hlast a rfl]
      exact ⟨rfl, hnx⟩
    | cons b l =>
      have hab : (a :: b :: l).getLast? ≠ some a := by
        intro e
        have hmem : a ∈ b :: l := by
          rw [List.getLast?_cons_cons] at e
          exact List.mem_of_getLast? e
        exact (List.nodup_cons.mp hd).1 hmem
      rw [hn a hax hab]
      refine ih (by simp) hp (fun e => hx (List.mem_cons_of_mem _ e)) (fun c hc => hlast c ?_) (fun c hcx hc => hn c hcx ?_)
        (List.nodup_cons.mp hd).2
      · rw [List.getLast?_cons_cons]
        exact hc
      · rw [List.getLast?_cons_cons]
        exact hc

theorem Back.congr (hn : ∀ a ∈ l, prev' a = prev a) (hb : Back prev q l) : Back prev' q l := by
  induction l generalizing q with
  | nil => trivial
  | cons a l ih =>
    obtain ⟨rfl, hb⟩ := hb
    exact ⟨hn a (List.mem_cons_self ..), ih (fun b hb => hn b (List.mem_cons_of_mem _ hb)) hb⟩

theorem Back.append_cell (hb : Back prev q l) (hx : prev x = if l = [] then q else l.getLast?) :
    Back prev q (l ++ [x]) := by
  induction l generalizing q with
  | nil => exact ⟨by simpa using hx, trivial⟩
  | cons a l ih =>
    obtain ⟨rfl, hb⟩ := hb
    refine ⟨rfl, ih hb ?_⟩
    cases l with
    | nil => simpa using hx
    | cons b l => simpa [List.getLast?_cons_cons] using hx

/-- Behind a prefix the path goes on, and each cell points to the next one. -/
theorem Path.drop (hp : Path next h (l ++ a :: l')) : Path next (some a) (a :: l') := by
  induction l generalizing h with
  | nil => exact ⟨rfl, hp.2⟩
  | cons b l ih => exact ih hp.2

theorem Back.append : Back prev q (l ++ l') ↔ Back prev q l ∧ Back prev (l.getLast?.or q) l' := by
  induction l generalizing q with
  | nil => simp [Back]
  | cons a l ih =>
    rw [List.cons_append, Back, Back, ih, List.getLast?_cons, and_assoc]
    cases l.getLast? <;> rfl

/-- An assignment through a pointer, unless it is null. -/
def assign [DecidableEq α] {β : Type} (f : α → β) : Option α → β → α → β
  | none, _ => f
  | some a, v => Function.update f a v

/-- The cell before `a` takes over its `next` pointer. -/
theorem Path.unlink [DecidableEq α] (hp : Path next h (l ++ a :: l')) (hd : (l ++ a :: l').Nodup) :
    Path (assign next l.getLast? (next a)) (if l.getLast? = none then next a else h) (l ++ l') := by
  induction l generalizing h with
  | nil => exact hp.2
  | cons c l ih =>
    obtain ⟨rfl, hp⟩ := hp
    obtain ⟨hc, hd⟩ := List.nodup_cons.mp hd
    have ih := ih hp hd
    rw [List.getLast?_cons, if_neg (Option.some_ne_none _)]
    refine ⟨rfl, ?_⟩
    cases hlast : l.getLast? with
    | none =>
      rw [hlast] at ih
      have hnext : assign next (some (none.getD c)) (next a) c = next a := Function.update_self ..
      rw [hnext]
      have hmem : ∀ x ∈ l ++ l', x ∈ l ++ a :: l' := fun x hx =>
        List.mem_append.mpr ((List.mem_append.mp hx).imp_right (List.mem_cons_of_mem a))
      exact ih.congr fun x hx => Function.update_of_ne (ne_of_mem_of_not_mem (hmem x hx) hc) ..
    | some b =>
      rw [hlast] at ih
      have hcb : c ≠ b := fun e => hc (e ▸ List.mem_append_left _ (List.mem_of_getLast? hlast))
      have hnext : assign next (some ((some b).getD c)) (next a) c = next c := Function.update_of_ne hcb ..
      rw [hnext]
      exact ih

/-- The cell behind `a` takes over its `prev` pointer. -/
theorem Back.unlink [DecidableEq α] (hb : Back prev q (l ++ a :: l')) (hd : (l ++ a :: l').Nodup) :
    Back (assign prev l'.head? (prev a)) q (l ++ l') := by
  obtain ⟨hl, ha, hl'⟩ := Back.append.mp hb
  cases l' with
  | nil => exact Back.append.mpr ⟨hl, trivial⟩
  | cons b l' =>
    obtain ⟨-, hd', hdisj⟩ := List.nodup_append.mp hd
    have hbl : b ∉ l' := (List.nodup_cons.mp (List.nodup_cons.mp hd').2).1
    refine Back.append.mpr ⟨hl.congr fun x hx => ?_, ?_, hl'.2.congr fun x hx => ?_⟩
    · exact Function.update_of_ne (hdisj x hx b (by simp)) ..
    · exact (Function.update_self ..).trans ha
    · exact Function.update_of_ne (ne_of_mem_of_not_mem hx hbl) ..

namespace Linked

theorem head_eq (hl : Linked next prev h t l) : h = l.head? := hl.path.head

theorem unique (hl : Linked next prev h t l) (hl' : Linked next prev h t l') : l = l' := hl.path.unique hl'.path

theorem nil : Linked next prev none none [] := ⟨rfl, trivial, rfl, List.nodup_nil⟩

/-- Only the pointers of the cells on the list matter. -/
theorem congr (hl : Linked next prev h t l) (hn : ∀ a ∈ l, next' a = next a) (hp : ∀ a ∈ l, prev' a = prev a) :
    Linked next' prev' h t l :=
  ⟨hl.path.congr hn, hl.back.congr hp, hl.last, hl.nodup⟩

/-- A cell with null pointers is a list by itself. -/
theorem single (hn : next x = none) (hp : prev x = none) : Linked next prev (some x) (some x) [x] :=
  ⟨⟨rfl, hn⟩, ⟨hp, trivial⟩, rfl, List.nodup_singleton x⟩

/-- Unlinking the head when it is the only cell. -/
theorem tail_nil (hl : Linked next prev h t [a]) : next a = none := hl.path.2

variable [DecidableEq α]

/-- Linking a cell behind the tail. -/
theorem append (hl : Linked next prev h (some a) l) (hx : x ∉ l) (hnx : next x = none) :
    Linked (Function.update next a (some x)) (Function.update prev x (some a)) h (some x) (l ++ [x]) := by
  have hne : l ≠ [] := fun e => by simpa [e] using hl.last
  have ha : a ∈ l := List.mem_of_getLast? hl.last.symm
  have hax : x ≠ a := fun e => hx (e ▸ ha)
  refine ⟨hl.path.append_cell hne hx ?_ ?_ ?_ hl.nodup, Back.append_cell (hl.back.congr ?_) ?_, by simp, ?_⟩
  · rw [Function.update_of_ne hax, hnx]
  · intro b hb
    rw [← hl.last] at hb
    cases hb
    exact Function.update_self ..
  · intro b hbx hb
    have hba : b ≠ a := fun e => hb (e ▸ hl.last.symm)
    exact Function.update_of_ne hba ..
  · intro b hb
    have hbx : b ≠ x := fun e => hx (e ▸ hb)
    exact Function.update_of_ne hbx ..
  · rw [Function.update_self, if_neg hne, hl.last]
  · rw [List.nodup_append]
    exact ⟨hl.nodup, List.nodup_singleton x, fun b hb c hc e => hx (List.mem_singleton.mp hc ▸ e ▸ hb)⟩

/-- Unlinking the head when a cell follows it. -/
theorem tail_cons (hl : Linked next prev h t (a :: b :: l)) :
    next a = some b ∧ Linked next (Function.update prev b none) (some b) t (b :: l) := by
  obtain ⟨⟨-, hb, hp⟩, ⟨-, -, hbk⟩, hlast, hnd⟩ := hl
  have hnd' := (List.nodup_cons.mp hnd).2
  refine ⟨hb, ⟨rfl, hp⟩, ⟨Function.update_self .., hbk.congr fun c hc => ?_⟩, ?_, hnd'⟩
  · have hcb : c ≠ b := fun e => (List.nodup_cons.mp hnd').1 (e ▸ hc)
    exact Function.update_of_ne hcb ..
  · rw [hlast, List.getLast?_cons_cons]

/-- Linking a cell before the head. -/
theorem cons (hl : Linked next prev h t l) (hx : x ∉ l) : Linked (Function.update next x h)
    (assign (Function.update prev x none) h (some x)) (some x) (x :: l).getLast? (x :: l) := by
  have hpath : Path (Function.update next x h) (some x) (x :: l) := by
    refine ⟨rfl, ?_⟩
    rw [Function.update_self]
    exact hl.path.congr fun a ha => Function.update_of_ne (ne_of_mem_of_not_mem ha hx) ..
  refine ⟨hpath, ?_, rfl, List.nodup_cons.mpr ⟨hx, hl.nodup⟩⟩
  rw [hl.head_eq]
  cases l with
  | nil => exact ⟨Function.update_self .., trivial⟩
  | cons b l =>
    have hb : b ∉ l := (List.nodup_cons.mp hl.nodup).1
    have hxb : x ≠ b := fun e => hx (e ▸ List.mem_cons_self ..)
    refine ⟨?_, Function.update_self .., hl.back.2.congr fun a ha => ?_⟩
    · exact (Function.update_of_ne hxb ..).trans (Function.update_self ..)
    · have hax : a ≠ x := ne_of_mem_of_not_mem (List.mem_cons_of_mem _ ha) hx
      exact (Function.update_of_ne (ne_of_mem_of_not_mem ha hb) ..).trans (Function.update_of_ne hax ..)

omit [DecidableEq α] in
/-- What the pointers of a cell on the list are. -/
theorem pointers (hl : Linked next prev h t (l ++ a :: l')) : prev a = l.getLast? ∧ next a = l'.head? := by
  obtain ⟨-, ha, -⟩ := Back.append.mp hl.back
  exact ⟨by rw [ha, Option.or_none], hl.path.drop.2.head⟩

/-- Unlinking a cell. -/
theorem unlink (hl : Linked next prev h t (l ++ a :: l')) : Linked (assign next (prev a) (next a))
    (assign prev (next a) (prev a)) (if prev a = none then next a else h) (l ++ l').getLast? (l ++ l') := by
  have hpath := hl.path.unlink hl.nodup
  have hback := hl.back.unlink hl.nodup
  rw [← hl.pointers.1] at hpath
  rw [← hl.pointers.2] at hback
  exact ⟨hpath, hback, rfl, hl.nodup.sublist (List.Sublist.append_left (List.sublist_cons_self a l') l)⟩

end Linked
end LinkedList
