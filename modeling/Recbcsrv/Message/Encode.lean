import Mathlib.Algebra.Order.BigOperators.Group.List
import Mathlib.Data.List.TakeWhile
import Recbcsrv.Message.Walk

/-! Building a command message (`fill_cmd_header`, `add_attr_char`, `add_attr_int`, `add_attr_bin`): the
    attributes are printed behind one another, and the length in the header is rewritten each time. The
    walk of the message handlers gives back the attributes that were added. -/

namespace Recbcsrv
open Bytes

/-- `t_cmd`; the pointers are offsets into `fullbuf`. -/
structure TCmd where
  fullbuf : Mem
  version : Nat
  cmd : Nat
  dataLen : Nat
  data : Nat
  cmdP : Nat

/-- What a C string holds up to its terminator. -/
def cstr (s : List UInt8) : List UInt8 := s.takeWhile (· ≠ 0)

def strlen (s : List UInt8) : Nat := (cstr s).length

/-- `sizeof(cmd)` in `fill_cmd_header`, the size of a pointer. -/
def sizeofPointer : Nat := 8

namespace TCmd

/-- The bytes `l` at offset `a` of the buffer. -/
def put (t : TCmd) (a : Nat) (l : List UInt8) : TCmd := { t with fullbuf := store t.fullbuf a l }

/-- `cmd_p` moved on by `n` bytes. -/
def advance (t : TCmd) (n : Nat) : TCmd := { t with cmdP := t.cmdP + n }

/-- Bytes are written to the buffer; there is no result when they do not fit. -/
def write (t : TCmd) (a : Nat) (l : List UInt8) : Option TCmd :=
  if a + l.length ≤ cmdBufsize then some (t.put a l) else none

/-- `sprintf` to the buffer, with the terminator. -/
def sprintf (t : TCmd) (a : Nat) (s : List UInt8) : Option TCmd := t.write a (s ++ [0])

/-- The length in the header is rewritten: `sprintf(datalen, "%04x", ..)` and `memcpy`. -/
def writeDataLen (t : TCmd) : Option TCmd := t.write t.dataLen ((printX0 4 (t.cmdP - t.data)).take dataLenSize)

/-- `fill_cmd_header`. The `memset` clears as many bytes as a pointer has. -/
def fillCmdHeader (t : TCmd) (cmd : List UInt8) : Option TCmd := do
  let t := { t with version := 0, cmd := 2, dataLen := 6, data := 10, cmdP := 10 }
  let t ← t.write 0 (List.replicate sizeofPointer 0)
  let t ← t.write t.version [0x30, 0x31]
  let t ← t.write t.cmd (cmd.take cmdSize)
  t.write t.dataLen [0x30, 0x30, 0x30, 0x30]

def addAttrChar (t : TCmd) (name value : List UInt8) : Option TCmd := do
  let t ← t.sprintf t.cmdP (printX0 1 (strlen name) ++ printX0 4 (strlen value) ++ cstr name ++ cstr value)
  (t.advance (argNameLenSize + argLenSize + strlen name + strlen value)).writeDataLen

def addAttrInt (t : TCmd) (name : List UInt8) (value : Nat) : Option TCmd := t.addAttrChar name (printX value)

/-- `add_attr_bin`; `valuelen` is the length of `value`. -/
def addAttrBin (t : TCmd) (name value : List UInt8) : Option TCmd := do
  let t ← t.sprintf t.cmdP (printX0 1 (strlen name) ++ printX0 4 value.length ++ cstr name)
  let t := t.advance (argNameLenSize + argLenSize + strlen name)
  let t ← t.write t.cmdP value
  (t.advance value.length).writeDataLen

end TCmd

/-- A call of one of the `add_attr` functions. -/
inductive AttrArg where
  | char (name value : List UInt8)
  | int (name : List UInt8) (value : Nat)
  | bin (name value : List UInt8)

namespace AttrArg

def add (t : TCmd) : AttrArg → Option TCmd
  | .char name value => t.addAttrChar name value
  | .int name value => t.addAttrInt name value
  | .bin name value => t.addAttrBin name value

/-- The attribute that the call adds. -/
def attr : AttrArg → Attr
  | .char name value => ⟨name, value⟩
  | .int name value => ⟨name, printX value⟩
  | .bin name value => ⟨name, value⟩

/-- The arguments are those of the function: strings without terminators, a 32-bit number, any bytes. -/
def Valid : AttrArg → Prop
  | .char _ value => 0 ∉ value
  | .int _ value => value < 2 ^ 32
  | .bin _ _ => True

/-- A name has 1 to 15 characters. -/
structure Named (a : AttrArg) : Prop where
  pos : 1 ≤ a.attr.name.length
  le : a.attr.name.length ≤ 15
  noNul : 0 ∉ a.attr.name

/-- The length of a name has one digit. The camera commands can have an empty one. -/
structure ShortName (a : AttrArg) : Prop where
  le : a.attr.name.length ≤ 15
  noNul : 0 ∉ a.attr.name

theorem Named.shortName {a : AttrArg} (h : a.Named) : a.ShortName := ⟨h.le, h.noNul⟩

/-- The bytes that the call takes up in the message. -/
def size (a : AttrArg) : Nat := 5 + a.attr.name.length + a.attr.value.length

/-- The attribute with the digits of its sizes. -/
def raw (a : AttrArg) : RawAttr where
  nameDigit := hexChar a.attr.name.length
  valueDigits := printX0 4 a.attr.value.length
  name := a.attr.name
  value := a.attr.value

end AttrArg

/-- `fill_cmd_header` followed by the `add_attr` calls. -/
def buildMsg (t : TCmd) (cmd : List UInt8) (args : List AttrArg) : Option TCmd :=
  (t.fillCmdHeader cmd).bind fun t => args.foldlM AttrArg.add t

/-- A message under construction: the header of command `cmd` and the attributes `body`. -/
structure TCmd.Built (t : TCmd) (cmd body : List UInt8) : Prop where
  version : load t.fullbuf 0 2 = [0x30, 0x31]
  cmd : load t.fullbuf 2 4 = cmd
  len : load t.fullbuf 6 4 = printX0 4 body.length
  bytes : load t.fullbuf 10 body.length = body
  dataLenEq : t.dataLen = 6
  dataEq : t.data = 10
  cmdPEq : t.cmdP = 10 + body.length

section
variable {t t' : TCmd} {cmd body s l : List UInt8} {a : AttrArg} {n : Nat}

theorem cstr_eq (h : 0 ∉ s) : cstr s = s := by
  rw [cstr, List.takeWhile_eq_self_iff]
  intro c hc
  simpa using fun e : c = 0 => h (e ▸ hc)

theorem strlen_eq (h : 0 ∉ s) : strlen s = s.length := by rw [strlen, cstr_eq h]

theorem printX0_one (h : n < 16) : printX0 1 n = [hexChar n] := by
  revert n
  decide

theorem length_printX0_four (h : n < 2 ^ 16) : (printX0 4 n).length = 4 := length_printX0 (by simpa using h) (by decide)

theorem TCmd.write_eq_some (h : n + l.length ≤ cmdBufsize) : t.write n l = some (t.put n l) := if_pos h

/-- What stands before the end of the message is not touched by writing behind it. -/
theorem TCmd.Built.put (h : t.Built cmd body) (hn : 10 + body.length ≤ n) : (t.put n l).Built cmd body where
  version := by rw [TCmd.put, load_store_of_disjoint (Or.inl (by omega)), h.version]
  cmd := by rw [TCmd.put, load_store_of_disjoint (Or.inl (by omega)), h.cmd]
  len := by rw [TCmd.put, load_store_of_disjoint (Or.inl (by omega)), h.len]
  bytes := by rw [TCmd.put, load_store_of_disjoint (Or.inl (by omega)), h.bytes]
  dataLenEq := h.dataLenEq
  dataEq := h.dataEq
  cmdPEq := h.cmdPEq

/-- With the bytes of an attribute behind the end, moving the end and rewriting the length appends it. -/
theorem TCmd.Built.append (h : t.Built cmd body) (hl : load t.fullbuf (10 + body.length) l.length = l)
    (hfit : body.length + l.length < 2 ^ 16) :
    ∃ t', (t.advance l.length).writeDataLen = some t' ∧ t'.Built cmd (body ++ l) := by
  have hx : (printX0 4 (body ++ l).length).length = 4 := length_printX0_four (by rw [List.length_append]; exact hfit)
  have hlen : (printX0 4 ((t.advance l.length).cmdP - (t.advance l.length).data)).take dataLenSize =
      printX0 4 (body ++ l).length := by
    simp only [TCmd.advance, h.cmdPEq, h.dataEq]
    rw [Nat.add_assoc, Nat.add_sub_cancel_left, ← List.length_append]
    exact List.take_of_length_le (by rw [hx]; exact Nat.le_refl _)
  have hat : (t.advance l.length).dataLen = 6 := h.dataLenEq
  refine ⟨(t.advance l.length).put 6 (printX0 4 (body ++ l).length), ?_, ?_⟩
  · rw [TCmd.writeDataLen, hlen, hat, TCmd.write_eq_some (by rw [hx]; decide)]
  constructor <;> simp only [TCmd.put, TCmd.advance]
  · rw [load_store_of_disjoint (Or.inl (by decide)), h.version]
  · rw [load_store_of_disjoint (Or.inl (by decide)), h.cmd]
  · have := load_store_self (m := t.fullbuf) (a := 6) (l := printX0 4 (body ++ l).length)
    rwa [hx] at this
  · rw [load_store_of_disjoint (Or.inr (by rw [hx])), List.length_append, load_add, h.bytes, hl]
  · exact h.dataLenEq
  · exact h.dataEq
  · rw [h.cmdPEq, List.length_append, Nat.add_assoc]

theorem AttrArg.bytes_raw (hn : a.ShortName) :
    a.raw.bytes = printX0 1 a.attr.name.length ++ printX0 4 a.attr.value.length ++ a.attr.name ++ a.attr.value := by
  rw [printX0_one (Nat.lt_succ_of_le hn.le)]
  simp [RawAttr.bytes, raw]

theorem AttrArg.sized (hn : a.ShortName) (hv : a.attr.value.length < 2 ^ 16) : a.raw.Sized where
  digits := length_printX0_four hv
  name := by
    have := hexNum_printX0 (n := a.attr.name.length) (w := 1) (Nat.lt_succ_of_le hn.le) (by decide) (by decide)
    rwa [printX0_one (Nat.lt_succ_of_le hn.le)] at this
  value := hexNum_printX0 (by simpa using hv) (by decide) (by decide)

/-- Both functions that print a string value behind the name append an attribute. -/
theorem TCmd.Built.addAttrChar (h : t.Built cmd body) {name value : List UInt8} (hname : 0 ∉ name) (hvalue : 0 ∉ value)
    (hle : name.length ≤ 15) (hfit : 10 + body.length + (5 + name.length + value.length) + 1 ≤ cmdBufsize) :
    ∃ t', t.addAttrChar name value = some t' ∧
      t'.Built cmd (body ++ (printX0 1 name.length ++ printX0 4 value.length ++ name ++ value)) := by
  have hb : cmdBufsize = 1536 := rfl
  obtain ⟨l, hldef⟩ : ∃ l, l = printX0 1 name.length ++ printX0 4 value.length ++ name ++ value := ⟨_, rfl⟩
  have hl : l.length = 5 + name.length + value.length := by
    simp only [hldef, List.length_append, length_printX0_four (n := value.length) (by omega),
      length_printX0 (n := name.length) (w := 1) (by omega) (by decide)]
  have hload : load (t.put (10 + body.length) (l ++ [0])).fullbuf (10 + body.length) l.length = l :=
    (load_append load_store_self).1
  obtain ⟨t', ht', hb'⟩ := (h.put (l := l ++ [0]) (Nat.le_refl _)).append hload (by omega)
  refine ⟨t', ?_, hldef ▸ hb'⟩
  simp only [TCmd.addAttrChar, TCmd.sprintf, strlen_eq hname, strlen_eq hvalue, cstr_eq hname, cstr_eq hvalue, ← hldef,
    Option.bind_eq_bind]
  rw [h.cmdPEq, TCmd.write_eq_some (by simp only [List.length_append, hl, List.length_singleton]; omega), Option.bind_some,
    ← ht', hl]
  rfl

theorem TCmd.Built.addAttrBin (h : t.Built cmd body) {name value : List UInt8} (hname : 0 ∉ name)
    (hle : name.length ≤ 15) (hfit : 10 + body.length + (5 + name.length + value.length) + 1 ≤ cmdBufsize) :
    ∃ t', t.addAttrBin name value = some t' ∧
      t'.Built cmd (body ++ (printX0 1 name.length ++ printX0 4 value.length ++ name ++ value)) := by
  have hb : cmdBufsize = 1536 := rfl
  obtain ⟨l, hldef⟩ : ∃ l, l = printX0 1 name.length ++ printX0 4 value.length ++ name := ⟨_, rfl⟩
  have hl : l.length = 5 + name.length := by
    simp only [hldef, List.length_append, length_printX0_four (n := value.length) (by omega),
      length_printX0 (n := name.length) (w := 1) (by omega) (by decide)]
  -- The terminator behind the name is overwritten by the value.
  have hload : load ((t.put (10 + body.length) (l ++ [0])).put (10 + body.length + l.length) value).fullbuf
      (10 + body.length) (l ++ value).length = l ++ value := by
    rw [List.length_append, load_add, TCmd.put, load_store_self, load_store_of_disjoint (Or.inl (Nat.le_refl _)), TCmd.put,
      (load_append load_store_self).1]
  obtain ⟨t', ht', hb'⟩ := ((h.put (l := l ++ [0]) (Nat.le_refl _)).put (l := value)
    (n := 10 + body.length + l.length) (Nat.le_add_right _ _)).append hload (by rw [List.length_append]; omega)
  refine ⟨t', ?_, by rw [hldef] at hb'; exact hb'⟩
  simp only [TCmd.addAttrBin, TCmd.sprintf, strlen_eq hname, cstr_eq hname, ← hldef, Option.bind_eq_bind]
  rw [h.cmdPEq, TCmd.write_eq_some (by simp only [List.length_append, hl, List.length_singleton]; omega), Option.bind_some,
    show argNameLenSize + argLenSize + name.length = l.length by rw [hl]; rfl]
  have hend : ((t.put (10 + body.length) (l ++ [0])).advance l.length).cmdP = 10 + body.length + l.length := by
    simp only [TCmd.advance, TCmd.put, h.cmdPEq]
  rw [hend, TCmd.write_eq_some (by omega), Option.bind_some, ← ht', List.length_append]
  simp only [TCmd.advance, TCmd.put, Nat.add_assoc]

/-- Every `add_attr` call appends its attribute. -/
theorem TCmd.Built.add (h : t.Built cmd body) (hv : a.Valid) (hn : a.ShortName)
    (hfit : 10 + body.length + a.size + 1 ≤ cmdBufsize) :
    ∃ t', a.add t = some t' ∧ t'.Built cmd (body ++ a.raw.bytes) := by
  rw [AttrArg.bytes_raw hn]
  cases a with
  | char name value => exact h.addAttrChar hn.noNul hv hn.le hfit
  | int name value =>
    refine h.addAttrChar hn.noNul (fun h0 => ?_) hn.le hfit
    obtain ⟨d, hd, he⟩ := mem_printX h0
    exact hexChar_ne_zero hd he.symm
  | bin name value => exact h.addAttrBin hn.noNul hn.le hfit

theorem AttrArg.length_raw (hn : a.ShortName) (hv : a.attr.value.length < 2 ^ 16) : a.raw.bytes.length = a.size :=
  RawAttr.length_bytes (AttrArg.sized hn hv)

theorem TCmd.Built.addAll (args : List AttrArg) (h : t.Built cmd body) (hv : ∀ a ∈ args, a.Valid)
    (hn : ∀ a ∈ args, a.ShortName) (hfit : 10 + body.length + (args.map AttrArg.size).sum + 1 ≤ cmdBufsize) :
    ∃ t', args.foldlM AttrArg.add t = some t' ∧ t'.Built cmd (body ++ (args.map AttrArg.raw).flatMap RawAttr.bytes) := by
  have hb : cmdBufsize = 1536 := rfl
  induction args generalizing t body with
  | nil => exact ⟨t, rfl, by simpa using h⟩
  | cons a args ih =>
    simp only [List.map_cons, List.sum_cons] at hfit
    have hna := hn a (List.mem_cons_self ..)
    obtain ⟨t₁, ht₁, h₁⟩ := h.add (hv a (List.mem_cons_self ..)) hna (by omega)
    have hlen : a.raw.bytes.length = a.size := AttrArg.length_raw hna (by unfold AttrArg.size at hfit; omega)
    obtain ⟨t₂, ht₂, h₂⟩ := ih h₁ (fun b hb => hv b (List.mem_cons_of_mem _ hb)) (fun b hb => hn b (List.mem_cons_of_mem _ hb))
      (by rw [List.length_append, hlen]; omega)
    refine ⟨t₂, ?_, by simpa [List.append_assoc] using h₂⟩
    rw [List.foldlM_cons, ht₁]
    exact ht₂

theorem TCmd.built_header (t : TCmd) (h : cmd.length = 4) : ∃ t', t.fillCmdHeader cmd = some t' ∧ t'.Built cmd [] := by
  have htake : cmd.take cmdSize = cmd := List.take_of_length_le (Nat.le_of_eq h)
  obtain ⟨t₀, ht₀⟩ : ∃ t₀ : TCmd, t₀ = { t with version := 0, cmd := 2, dataLen := 6, data := 10, cmdP := 10 } := ⟨_, rfl⟩
  refine ⟨(((t₀.put 0 (List.replicate sizeofPointer 0)).put 0 [0x30, 0x31]).put 2 cmd).put 6 [0x30, 0x30, 0x30, 0x30],
    ?_, ?_⟩
  · simp only [TCmd.fillCmdHeader, Option.bind_eq_bind, htake, ← ht₀]
    rw [TCmd.write_eq_some (by simp [sizeofPointer, cmdBufsize]), Option.bind_some,
      TCmd.write_eq_some (by simp [ht₀, TCmd.put, cmdBufsize]), Option.bind_some,
      TCmd.write_eq_some (by simp [ht₀, TCmd.put, cmdBufsize, h]), Option.bind_some,
      TCmd.write_eq_some (by simp [ht₀, TCmd.put, cmdBufsize])]
    simp only [TCmd.put, ht₀]
  · subst ht₀
    constructor <;> simp only [TCmd.put]
    · rw [load_store_of_disjoint (Or.inl (by simp)), load_store_of_disjoint (Or.inl (by simp))]
      exact load_store_self (l := [0x30, 0x31])
    · rw [load_store_of_disjoint (Or.inl (by simp))]
      have := load_store_self (m := store (store t.fullbuf 0 (List.replicate sizeofPointer 0)) 0 [0x30, 0x31]) (a := 2) (l := cmd)
      rwa [h] at this
    · exact load_store_self (l := [0x30, 0x30, 0x30, 0x30])
    · rfl
    · rfl

end

/-- The message that is built has the command, the attributes and the length that were put in. -/
theorem buildMsg_spec (t : TCmd) (cmd : List UInt8) (args : List AttrArg) (hcmd : cmd.length = 4)
    (hvalid : ∀ a ∈ args, a.Valid) (hnamed : ∀ a ∈ args, a.ShortName)
    (hfit : packetHeaderSize + (args.map AttrArg.size).sum + 1 ≤ cmdBufsize) :
    ∃ t', buildMsg t cmd args = some t' ∧ msgCmd t'.fullbuf = cmd ∧ (∀ r ∈ args.map AttrArg.raw, r.Sized) ∧
      load t'.fullbuf packetHeaderSize (msgLen t'.fullbuf) = (args.map AttrArg.raw).flatMap RawAttr.bytes ∧
      msgLen t'.fullbuf = (args.map AttrArg.size).sum ∧ t'.cmdP = packetHeaderSize + (args.map AttrArg.size).sum := by
  have hb : cmdBufsize = 1536 := rfl
  have hp : packetHeaderSize = 10 := rfl
  obtain ⟨t₁, ht₁, h₁⟩ := t.built_header hcmd
  obtain ⟨t₂, ht₂, h₂⟩ := h₁.addAll args hvalid hnamed (by simp only [List.length_nil]; omega)
  rw [List.nil_append] at h₂
  have hsize : ∀ a ∈ args, a.size ≤ (args.map AttrArg.size).sum := fun a ha =>
    List.single_le_sum (fun _ _ => Nat.zero_le _) _ (List.mem_map_of_mem ha)
  have hvlt : ∀ a ∈ args, a.attr.value.length < 2 ^ 16 := fun a ha => by
    have := hsize a ha
    have hs : a.size = 5 + a.attr.name.length + a.attr.value.length := rfl
    omega
  have hbody : ((args.map AttrArg.raw).flatMap RawAttr.bytes).length = (args.map AttrArg.size).sum := by
    clear * - hvlt hnamed
    induction args with
    | nil => rfl
    | cons a args ih =>
      rw [List.map_cons, List.flatMap_cons, List.length_append, List.map_cons, List.sum_cons,
        ih (fun b hb => hnamed b (List.mem_cons_of_mem _ hb)) (fun b hb => hvlt b (List.mem_cons_of_mem _ hb)),
        AttrArg.length_raw (hnamed a (List.mem_cons_self ..)) (hvlt a (List.mem_cons_self ..))]
  have hlen : msgLen t₂.fullbuf = ((args.map AttrArg.raw).flatMap RawAttr.bytes).length := by
    rw [msgLen, show versionSize + cmdSize = 6 from rfl, show dataLenSize = 4 from rfl, h₂.len]
    exact hexNum_printX0 (by rw [hbody]; omega) (by decide) (by decide)
  refine ⟨t₂, by rw [buildMsg, ht₁]; exact ht₂, h₂.cmd, fun r hr => ?_, by rw [hlen]; exact h₂.bytes, hlen.trans hbody,
    by rw [h₂.cmdPEq, hbody, hp]⟩
  obtain ⟨a, ha, rfl⟩ := List.mem_map.mp hr
  exact AttrArg.sized (hnamed a ha) (hvlt a ha)

/-- The message that is built decodes to the command and the attributes that were put in. -/
theorem decode_buildMsg (t : TCmd) (cmd : List UInt8) (args : List AttrArg) (hcmd : cmd.length = 4)
    (hvalid : ∀ a ∈ args, a.Valid) (hnamed : ∀ a ∈ args, a.Named)
    (hfit : packetHeaderSize + (args.map AttrArg.size).sum + 1 ≤ cmdBufsize) :
    ∃ t', buildMsg t cmd args = some t' ∧ msgCmd t'.fullbuf = cmd ∧
      walk t'.fullbuf args.length (walkStart t'.fullbuf) = some (args.map AttrArg.attr) ∧
      msgLen t'.fullbuf + packetHeaderSize = t'.cmdP ∧
      t'.cmdP = packetHeaderSize + (args.map AttrArg.size).sum ∧
      ∀ name value, AttrArg.int name value ∈ args → hexNum (AttrArg.int name value).attr.value = value := by
  have hb : cmdBufsize = 1536 := rfl
  obtain ⟨t', hbuild, hc, hs, hbody, hlen, hend⟩ :=
    buildMsg_spec t cmd args hcmd hvalid (fun a ha => (hnamed a ha).shortName) hfit
  have hbytes : ((args.map AttrArg.raw).flatMap RawAttr.bytes).length = msgLen t'.fullbuf := by rw [← hbody, length_load]
  refine ⟨t', hbuild, hc, ?_, by rw [hlen, hend, Nat.add_comm], hend, fun name value hmem => hexNum_printX (hvalid _ hmem)⟩
  have hw := (walk_of_attrs packetHeaderSize (args.map AttrArg.raw) hs (by rw [hbytes, hbody]) (by omega)).1
  rw [List.length_map, List.map_map, hbytes] at hw
  exact hw

/-- The names of a string, a number and a run of bytes, and what they decode to. -/
theorem decode_buildMsg_three : ∃ t', buildMsg ⟨fun _ => 0, 0, 0, 0, 0, 0⟩ [0x66, 0x66, 0x66, 0x66]
      [.char [0x41] [0x62, 0x63], .int [0x4e] 255, .bin [0x44] [0, 7]] = some t' ∧
    walk t'.fullbuf 3 (walkStart t'.fullbuf) = some [⟨[0x41], [0x62, 0x63]⟩, ⟨[0x4e], [0x66, 0x66]⟩, ⟨[0x44], [0, 7]⟩] := by
  obtain ⟨t', hb, -, hw, -⟩ := decode_buildMsg ⟨fun _ => 0, 0, 0, 0, 0, 0⟩ [0x66, 0x66, 0x66, 0x66]
    [.char [0x41] [0x62, 0x63], .int [0x4e] 255, .bin [0x44] [0, 7]] rfl
    (by simp [AttrArg.Valid]) (by
      intro a ha
      simp only [List.mem_cons, List.not_mem_nil, or_false] at ha
      rcases ha with rfl | rfl | rfl <;> constructor <;> simp [AttrArg.attr])
    (by decide +kernel)
  exact ⟨t', hb, hw.trans (by decide +kernel)⟩

end Recbcsrv
