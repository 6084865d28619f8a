import Mathlib.Tactic.IntervalCases
import Recbcsrv.Switch.CameraInit
import Recbcsrv.Switch.Ptz

/-! The presets that the initialisation of the teacher's camera stores, when the camera answers every command. The positions that it
    reports go into the table; the zooms of the presets after the first come from what the memory held at the start. -/

namespace Recbcsrv
open Exec

/-! ### Answers -/

/-- The positions of a camera, as its answers carry them. -/
structure CamReport where
  pan : BitVec 16
  tilt : BitVec 16
  zoom : BitVec 16

/-- The answer to a command, from a camera with these positions. -/
def CamKind.answer (r : CamReport) : CamKind → List UInt8
  | .completion => [0x90, 0x51, 0xff]
  | .ptinq => [0x90, 0x50] ++ nibbles (r.pan.setWidth 32) ++ nibbles (r.tilt.setWidth 32) ++ [0xff]
  | .zoominq => [0x90, 0x50] ++ nibbles (r.zoom.setWidth 32) ++ [0xff]

/-- What the answer does to the positions that the thread keeps. -/
def CameraHolder.answered (h : CameraHolder) (r : CamReport) : CamKind → CameraHolder
  | .completion => { h with pos := h.target }
  | .ptinq => { h with pos := { h.pos with pan := r.pan.toInt, tilt := r.tilt.toInt } }
  | .zoominq => { h with pos := { h.pos with zoom := r.zoom.toInt } }

/-- One more command: the preset that was recalled last, and the bytes of the answers. -/
def answerTo (report : Nat → CamReport) (x : Nat × List UInt8) (b : InitBlock) : Nat × List UInt8 :=
  let num := match b.command with
    | .recall num => num
    | _ => x.1
  (num, x.2 ++ b.command.kind.answer (report num))

/-- The preset that was recalled last, and the answers to the commands, from a camera that reports `report num` at its preset. -/
def answers (report : Nat → CamReport) (bs : List InitBlock) : Nat × List UInt8 := bs.foldl (answerTo report) (0, [])

namespace CamInit

/-- A pass of a run in which every command is answered: nothing but the blocks sends commands, the time of none is over, and what
    arrives are the answers to the commands that were sent. -/
structure Answered (report : Nat → CamReport) (s : CamInit) (a : CamPass) (t : CamInit) : Prop where
  blocksOnly : a.further = []
  inTime : ∀ u ∈ s.ask .teacher a, u.ctx.commandPending ≠ 0 → u.ctx.commandTimeout 10 a.tested.1 a.tested.2 = 0
  sent : t.arrived <+: (answers report t.asked).2

/-- The table holds the positions reported after the recalls, with the zoom of preset 0, and the limits are its pan positions. -/
structure StoresPresets (report : Nat → CamReport) (t : CamInit) : Prop where
  presets : ∀ k : Fin 16, k.val ≤ 6 →
    t.ctx.preset.get k = ⟨(report k).pan.toInt, (report k).tilt.toInt, (report 0).zoom.toInt⟩
  left : t.limits.left = min (report 1).pan.toInt (report 2).pan.toInt
  right : t.limits.right = max (report 1).pan.toInt (report 2).pan.toInt
  excludeLeft : t.limits.excludeLeft = min (report 5).pan.toInt (report 6).pan.toInt
  excludeRight : t.limits.excludeRight = max (report 5).pan.toInt (report 6).pan.toInt

end CamInit

/-! ### The table on the way -/

/-- What is stored as preset `k`: of the zooms only that of preset 0 is what the camera reports. -/
def storedPreset (report : Nat → CamReport) (memory : Vector PresetPos 16) (k : Fin 16) : PresetPos :=
  ⟨(report k).pan.toInt, (report k).tilt.toInt, if k.val = 0 then (report 0).zoom.toInt else (memory.get k).zoom⟩

/-- The first `m` presets are stored. -/
def Tabled (report : Nat → CamReport) (memory : Vector PresetPos 16) (m : Nat) (h : CameraHolder) : Prop :=
  ∀ k : Fin 16, h.preset.get k = if k.val < m then storedPreset report memory k else memory.get k

/-- The positions when the first `n` commands are answered. -/
structure AnsweredTo (report : Nat → CamReport) (memory : Vector PresetPos 16) (n : Nat) (h : CameraHolder) : Prop where
  table : Tabled report memory ((n - 2) / 2) h
  zoom : ∀ m : Fin 16, m.val ≤ 6 → n = 2 * m + 2 → h.pos.zoom = (storedPreset report memory m).zoom
  pos : ∀ m : Fin 16, m.val ≤ 6 → n = 2 * m + 3 → h.pos = storedPreset report memory m

/-- The positions when the next command is sent as well. -/
structure SentTo (report : Nat → CamReport) (memory : Vector PresetPos 16) (n : Nat) (h : CameraHolder) : Prop where
  table : Tabled report memory ((n - 1) / 2) h
  zoom : ∀ m : Fin 16, m.val ≤ 6 → n = 2 * m + 2 → h.pos.zoom = (storedPreset report memory m).zoom
  target : ∀ k : Fin 16, 0 < k.val → k.val ≤ 6 → n = 2 * k + 1 → h.target.zoom = (storedPreset report memory k).zoom

namespace CamInit

/-- The first `n` commands are sent and answered. -/
structure Settled (report : Nat → CamReport) (memory : Vector PresetPos 16) (n : Nat) (s : CamInit) : Prop where
  asked : s.asked = CamRole.teacher.blocks.take n
  arrived : s.arrived = (answers report s.asked).2
  pending : s.ctx.commandPending = 0
  fifo : s.fifo = []
  empty : s.ctx.rxBufP = 0
  holder : AnsweredTo report memory n s.ctx.toCameraHolder

/-- The command of block `n` is sent, and `rest` is what is still missing of its answer. -/
structure Awaits (report : Nat → CamReport) (memory : Vector PresetPos 16) (n : Nat) (b : InitBlock) (rest : List UInt8)
    (s : CamInit) : Prop where
  block : CamRole.teacher.blocks[n]? = some b
  status : s.status = n + 1
  asked : s.asked = CamRole.teacher.blocks.take (n + 1)
  pending : s.ctx.commandPending = b.command.kind.flag
  fifo : s.fifo = []
  missing : rest ≠ []
  answer : s.ctx.collected ++ rest = b.command.kind.answer (report (answers report s.asked).1)
  arrived : s.arrived ++ rest = (answers report s.asked).2
  holder : SentTo report memory n s.ctx.toCameraHolder

/-- Every command is answered and the limits are taken from the table. -/
structure Initialised (report : Nat → CamReport) (memory : Vector PresetPos 16) (s : CamInit) : Prop extends
    Settled report memory 16 s where
  status : s.status = 17
  limits : ∃ l : PanLimits, s.limits = l.ofPresets s.ctx.preset

/-- Where the initialisation can be between two passes. -/
inductive Initialising (report : Nat → CamReport) (memory : Vector PresetPos 16) (s : CamInit) : Prop where
  | settled (n : Nat) (h : s.Settled report memory n) (status : s.status = n) (le : n ≤ 16)
  | awaits (n : Nat) (b : InitBlock) (rest : List UInt8) (h : s.Awaits report memory n b rest)
  | initialised (h : s.Initialised report memory)

end CamInit

section
variable {signed : Bool} {report : Nat → CamReport} {memory : Vector PresetPos 16} {n m num : Nat} {h h' : CameraHolder}
  {b : InitBlock} {c d e : CamholderCtx} {sec usec : Int}

/-- The blocks of the teacher, with the preset that was recalled last when their commands are sent. -/
theorem teacher_block (report : Nat → CamReport) (hb : CamRole.teacher.blocks[n]? = some b) :
    (n = 0 ∧ b = ⟨0, none, .recall 0⟩) ∨
    (n = 1 ∧ b = ⟨1, none, .getZoom⟩ ∧ (answers report (CamRole.teacher.blocks.take 2)).1 = 0) ∨
    (∃ m : Fin 16, m.val ≤ 6 ∧ n = 2 * m + 2 ∧ b = ⟨n, none, .getPos⟩ ∧
      (answers report (CamRole.teacher.blocks.take (n + 1))).1 = m) ∨
    ∃ m : Fin 16, m.val ≤ 6 ∧ n = 2 * m + 3 ∧ b = ⟨n, some m, .recall (if m.val ≤ 5 then m + 1 else 0)⟩ := by
  obtain ⟨hlt, rfl⟩ := List.getElem?_eq_some_iff.mp hb
  change n < 16 at hlt
  rcases n with _ | _ | n
  · exact Or.inl ⟨rfl, rfl⟩
  · exact Or.inr (Or.inl ⟨rfl, rfl, rfl⟩)
  · refine Or.inr (Or.inr ?_)
    rcases Nat.even_or_odd' n with ⟨m, rfl | rfl⟩
    · have hm : m < 7 := by omega
      refine Or.inl ⟨⟨m, by omega⟩, Nat.le_of_lt_succ hm, rfl, ?_⟩
      interval_cases m <;> exact ⟨rfl, rfl⟩
    · have hm : m < 7 := by omega
      refine Or.inr ⟨⟨m, by omega⟩, Nat.le_of_lt_succ hm, rfl, ?_⟩
      interval_cases m <;> rfl

theorem recall_inv (hc : c.command (.recall num) sec usec = some d) :
    ∃ hlt : num < 16, d.toCameraHolder = { c.toCameraHolder with target := c.preset[num] } := by
  obtain ⟨h, hh, rfl⟩ := Option.map_eq_some_iff.mp hc
  unfold CamholderCtx.aim CameraHolder.recall at hh
  dsimp only at hh
  split at hh
  · next hlt =>
    cases hh
    exact ⟨hlt, rfl⟩
  · cases hh

theorem saved_preset (c : CamholderCtx) (m k : Fin 16) :
    (c.saved (some m)).preset.get k = if m.val = k.val then c.pos else c.preset.get k :=
  Vector.getElem_set m.isLt k.isLt

/-- A block that sends its command saves the position of the preset before. -/
theorem AnsweredTo.send (ha : AnsweredTo report memory n c.toCameraHolder) (hb : CamRole.teacher.blocks[n]? = some b)
    (hc : (c.saved b.save).command b.command sec usec = some d) : SentTo report memory n d.toCameraHolder := by
  rcases teacher_block report hb with ⟨rfl, rfl⟩ | ⟨rfl, rfl, -⟩ | ⟨m, hm, rfl, rfl, -⟩ | ⟨m, hm, rfl, rfl⟩
  · obtain ⟨_, hd⟩ := recall_inv hc
    rw [hd]
    exact ⟨ha.table, fun m _ hn => by omega, fun k _ _ hn => by omega⟩
  · cases hc
    exact ⟨ha.table, fun m _ hn => by omega, fun k hk _ hn => by omega⟩
  · cases hc
    have htable := ha.table
    rw [show (2 * m.val + 2 - 2) / 2 = (2 * m.val + 2 - 1) / 2 by omega] at htable
    exact ⟨htable, ha.zoom, fun k _ _ hn => by omega⟩
  · obtain ⟨hlt, hd⟩ := recall_inv hc
    have hpos := ha.pos m hm rfl
    have htable : Tabled report memory ((2 * m.val + 3 - 1) / 2) (c.saved (some m)).toCameraHolder := by
      intro k
      have hk := ha.table k
      rw [saved_preset, hpos]
      by_cases hkm : m.val = k.val
      · rw [if_pos hkm, if_pos (by omega), Fin.ext hkm]
      · rw [if_neg hkm, hk]
        by_cases hlow : k.val < m.val
        · rw [if_pos (by omega), if_pos (by omega)]
        · rw [if_neg (by omega), if_neg (by omega)]
    rw [hd]
    refine ⟨htable, fun k _ hn => by omega, fun k hpos hle hn => ?_⟩
    have hk := htable k
    rw [if_neg (by omega)] at hk
    have hnum : (if m.val ≤ 5 then m.val + 1 else 0) = k.val := by
      rw [if_pos (by omega)]
      omega
    dsimp only
    simp only [hnum, storedPreset, if_neg (Nat.ne_of_gt hpos)]
    exact congrArg PresetPos.zoom hk

/-- The answer brings what the camera reports. -/
theorem SentTo.answered (hs : SentTo report memory n h) (hb : CamRole.teacher.blocks[n]? = some b) :
    AnsweredTo report memory (n + 1)
      (h.answered (report (answers report (CamRole.teacher.blocks.take (n + 1))).1) b.command.kind) := by
  have htable : Tabled report memory ((n + 1 - 2) / 2) h := by
    rw [show (n + 1 - 2) / 2 = (n - 1) / 2 by omega]
    exact hs.table
  rcases teacher_block report hb with ⟨rfl, rfl⟩ | ⟨rfl, rfl, hnum⟩ | ⟨m, hm, rfl, rfl, hnum⟩ | ⟨m, hm, rfl, rfl⟩
  · exact ⟨htable, fun m _ hn => by omega, fun m _ hn => by omega⟩
  · rw [hnum]
    refine ⟨htable, fun m _ hn => ?_, fun m _ hn => by omega⟩
    obtain rfl : m = 0 := Fin.ext (by change m.val = 0; omega)
    rfl
  · rw [hnum]
    refine ⟨htable, fun k _ hn => by omega, fun k _ hn => ?_⟩
    obtain rfl : k = m := Fin.ext (by omega)
    have hzoom := hs.zoom k hm rfl
    change PresetPos.mk _ _ h.pos.zoom = _
    rw [hzoom]
    rfl
  · refine ⟨htable, fun k hk hn => ?_, fun k _ hn => by omega⟩
    exact hs.target k (by omega) hk (by omega)

/-! ### An answer is read -/

theorem oneEnd_answer (k : CamKind) (r : CamReport) : OneEnd (k.answer r) := by
  cases k with
  | completion => exact ⟨[0x90, 0x51], rfl, by decide⟩
  | ptinq =>
    refine oneEnd_append.mpr ?_
    simp only [List.mem_append, List.mem_cons, List.not_mem_nil, nibbles_ne, or_false]
    decide
  | zoominq =>
    refine oneEnd_append.mpr ?_
    simp only [List.mem_append, List.mem_cons, List.not_mem_nil, nibbles_ne, or_false]
    decide

/-- The byte 0xff comes last. -/
theorem OneEnd.stop {l rest : List UInt8} {x : UInt8} (hend : OneEnd (l ++ x :: rest)) : x = 0xff ↔ rest = [] := by
  obtain ⟨init, heq, hinit⟩ := hend
  rcases List.eq_nil_or_concat rest with rfl | ⟨rest, y, rfl⟩
  · exact iff_of_true (List.append_inj_right' heq rfl |> List.cons.inj |>.1) rfl
  · refine iff_of_false (fun hx => ?_) (by simp)
    rw [List.concat_eq_append, ← List.cons_append, ← List.append_assoc] at heq
    refine hinit ?_
    rw [← List.append_inj_left' heq rfl, hx]
    simp

theorem store_keeps {x : UInt8} (hc : c.store x = some d) :
    d.toCameraHolder = c.toCameraHolder ∧ d.commandPending = c.commandPending := by
  unfold CamholderCtx.store at hc
  split at hc
  · cases hc
    exact ⟨rfl, rfl⟩
  · cases hc

theorem takeByte_go_keeps {r : Option CamholderCtx} {x : UInt8} (hx : x ≠ 0xff) (h : UartSys.takeByte signed c x = some (d, r)) :
    d.toCameraHolder = c.toCameraHolder ∧ d.commandPending = c.commandPending := by
  unfold UartSys.takeByte at h
  rw [if_neg hx] at h
  obtain ⟨g, hg, heq⟩ := Option.map_eq_some_iff.mp h
  cases heq
  exact store_keeps hg

theorem takeByte_stop_keeps (h : UartSys.takeByte signed c 0xff = some (d, some e)) :
    e.toCameraHolder = c.toCameraHolder ∧ d = e.updateCamholderCtx signed := by
  unfold UartSys.takeByte CamholderCtx.completed at h
  rw [if_pos rfl, if_pos rfl, Option.map_map] at h
  obtain ⟨g, hg, heq⟩ := Option.map_eq_some_iff.mp h
  cases heq
  exact ⟨(store_keeps hg).1, rfl⟩

/-- A part of an answer is kept in `Rx_buf`, and the whole of it is handed on. -/
theorem readLoop_answer {bytes rest fifo : List UInt8} (hend : OneEnd (c.collected ++ rest)) (hrest : rest ≠ [])
    (hbytes : bytes <+: rest) (hread : c.readLoop signed bytes = some (d, fifo)) : fifo = [] ∧
      ((∃ rest', rest' ≠ [] ∧ rest = bytes ++ rest' ∧ d.collected = c.collected ++ bytes ∧
        d.toCameraHolder = c.toCameraHolder ∧ d.commandPending = c.commandPending) ∨
      rest = bytes ∧ d.rxBufP = 0 ∧ ∃ e : CamholderCtx, e.received = c.collected ++ rest ∧
        e.rspLen = (c.collected ++ rest).length ∧ e.toCameraHolder = c.toCameraHolder ∧ d = e.updateCamholderCtx signed) := by
  induction bytes generalizing c rest with
  | nil =>
    cases hread
    exact ⟨rfl, Or.inl ⟨rest, hrest, rfl, (List.append_nil _).symm, rfl, rfl⟩⟩
  | cons x bytes ih =>
    obtain ⟨rest', rfl⟩ : ∃ rest', rest = x :: rest' := by
      obtain ⟨l, rfl⟩ := hbytes
      exact ⟨bytes ++ l, rfl⟩
    have hbytes : bytes <+: rest' := (List.cons_prefix_cons.mp hbytes).2
    obtain ⟨⟨e, r⟩, htake, hread⟩ := Option.bind_eq_some_iff.mp hread
    by_cases hx : x = 0xff
    · obtain rfl : rest' = [] := hend.stop.mp hx
      obtain rfl : bytes = [] := List.prefix_nil.mp hbytes
      obtain ⟨f, rfl, hlt, hreceived, hlen, hp⟩ := takeByte_stop (decide_eq_true hx) htake
      cases hread
      subst hx
      refine ⟨rfl, Or.inr ⟨rfl, hp, f, hreceived, ?_, takeByte_stop_keeps htake⟩⟩
      rw [hlen, List.length_append, length_collected (Nat.le_of_lt hlt), List.length_singleton]
    · obtain ⟨rfl, hlt, -, hcollected⟩ := takeByte_go (fun h => hx (of_decide_eq_true h)) htake
      have hkeeps := takeByte_go_keeps hx htake
      have hall : c.collected ++ x :: rest' = e.collected ++ rest' := by rw [hcollected, List.append_assoc, List.singleton_append]
      have hrest' : rest' ≠ [] := fun h => hx (hend.stop.mpr h)
      rw [hall] at hend
      obtain ⟨hfifo, hcases⟩ := ih hend hrest' hbytes hread
      refine ⟨hfifo, ?_⟩
      rcases hcases with ⟨rest'', hne, rfl, hd, hholder, hpending⟩ | ⟨rfl, hp, f, hreceived, hlen, hholder, hd⟩
      · refine Or.inl ⟨rest'', hne, rfl, ?_, hholder.trans hkeeps.1, hpending.trans hkeeps.2⟩
        rw [hd, hcollected, List.append_assoc, List.singleton_append]
      · exact Or.inr ⟨rfl, hp, f, by rw [hreceived, hall], by rw [hlen, hall], hholder.trans hkeeps.1, hd⟩

theorem toInt_setWidth (x : BitVec 16) : ((x.setWidth 32).setWidth 16).toInt = x.toInt := by simp

/-- `Rx_buf` begins with the answer. -/
theorem rxBuf_answer {l : List UInt8} (hreceived : e.received = l) : ∃ tail, e.rxBuf.toList = l ++ tail := by
  refine ⟨e.rxBuf.toList.drop e.rspLen, ?_⟩
  rw [← hreceived]
  exact (List.take_append_drop _ _).symm

/-- The answer is taken for what it is. -/
theorem response_answer {k : CamKind} {r : CamReport} (hreceived : e.received = k.answer r) (hlen : e.rspLen = (k.answer r).length) :
    e.response = .ack k := by
  obtain ⟨tail, hlist⟩ := rxBuf_answer hreceived
  have hget : ∀ i (hi : i < 16) x, (k.answer r)[i]? = some x → e.rxBuf[i] = x := by
    intro i hi x hx
    have hlt := (List.getElem?_eq_some_iff.mp hx).1
    have hsome : e.rxBuf.toList[i]? = some x := by rw [hlist, List.getElem?_append_left hlt, hx]
    rw [List.getElem?_eq_getElem (by simpa using hi), Vector.getElem_toList] at hsome
    exact Option.some.inj hsome
  unfold CamholderCtx.response
  cases k with
  | completion =>
    have hlen : e.rspLen = 3 := hlen
    rw [hlen, if_neg (fun h => absurd h.1 (by decide)), if_neg (fun h => absurd h.1 (by decide)),
      if_pos ⟨rfl, hget 0 (by decide) _ rfl, hget 1 (by decide) _ rfl⟩]
  | ptinq =>
    have hlen : e.rspLen = 11 := hlen
    rw [hlen, if_pos ⟨rfl, hget 0 (by decide) _ rfl, hget 1 (by decide) _ rfl⟩]
  | zoominq =>
    have hlen : e.rspLen = 7 := hlen
    rw [hlen, if_neg (fun h => absurd h.1 (by decide)), if_pos ⟨rfl, hget 0 (by decide) _ rfl, hget 1 (by decide) _ rfl⟩]

/-- The positions in the answer are read back. -/
theorem update_answer {k : CamKind} {r : CamReport} (hreceived : e.received = k.answer r) (hlen : e.rspLen = (k.answer r).length) :
    (e.updateCamholderCtx signed).toCameraHolder = e.toCameraHolder.answered r k ∧
      (e.updateCamholderCtx signed).commandPending = 0 := by
  obtain ⟨tail, hlist⟩ := rxBuf_answer hreceived
  rw [updateCamholderCtx_eq, response_answer hreceived hlen]
  cases k with
  | completion => exact ⟨rfl, rfl⟩
  | ptinq =>
    have hpan : e.rxBuf.toList.drop 2 =
        nibbles (r.pan.setWidth 32) ++ (nibbles (r.tilt.setWidth 32) ++ ([0xff] ++ tail)) := by
      rw [hlist]
      rfl
    have htilt : e.rxBuf.toList.drop 6 = nibbles (r.tilt.setWidth 32) ++ ([0xff] ++ tail) := by
      rw [hlist]
      rfl
    dsimp only
    rw [hpan, htilt, byte2int_nibbles, byte2int_nibbles, toInt_setWidth, toInt_setWidth]
    exact ⟨rfl, rfl⟩
  | zoominq =>
    have hzoom : e.rxBuf.toList.drop 2 = nibbles (r.zoom.setWidth 32) ++ ([0xff] ++ tail) := by
      rw [hlist]
      rfl
    dsimp only
    rw [hzoom, byte2int_nibbles, toInt_setWidth]
    exact ⟨rfl, rfl⟩

/-! ### A pass -/

theorem answers_concat (report : Nat → CamReport) (bs : List InitBlock) (b : InitBlock) :
    answers report (bs ++ [b]) = answerTo report (answers report bs) b := by
  rw [answers, List.foldl_append]
  rfl

theorem saved_rx (c : CamholderCtx) (num : Option (Fin 16)) : (c.saved num).rxBuf = c.rxBuf ∧ (c.saved num).rxBufP = c.rxBufP := by
  cases num <;> exact ⟨rfl, rfl⟩

namespace CamInit

variable {s t u : CamInit} {a : CamPass} {rest : List UInt8}

theorem further_nil (cam : CamRole) (s : CamInit) : s.further cam [] = some s := if_pos (Or.inr rfl)

/-- The block of the status sends its command. -/
theorem Settled.issued (hs : s.Settled report memory n) (hb : CamRole.teacher.blocks[n]? = some b) (hissued : s.Issued b sec usec u) :
    u.Awaits report memory n b (b.command.kind.answer (report (answers report u.asked).1)) := by
  have hasked : u.asked = CamRole.teacher.blocks.take (n + 1) := by
    rw [hissued.eq, hs.asked, List.take_add_one, hb]
    rfl
  have hconcat : answers report u.asked = answerTo report (answers report s.asked) b := by
    rw [hissued.eq]
    exact answers_concat report s.asked b
  have hrx := command_rx hissued.command
  have hsaved := saved_rx s.ctx b.save
  refine ⟨hb, by rw [hissued.eq, blocks_status _ hb], hasked, hissued.pending, by rw [hissued.eq]; exact hs.fifo, ?_, ?_, ?_, ?_⟩
  · obtain ⟨init, heq, -⟩ := oneEnd_answer b.command.kind (report (answers report u.asked).1)
    rw [heq]
    simp
  · rw [CamholderCtx.collected, hrx.2, hsaved.2, hs.empty, List.take_zero, List.nil_append]
  · have harrived : u.arrived = s.arrived := by rw [hissued.eq]
    rw [harrived, hs.arrived, hconcat]
    rfl
  · exact hs.holder.send hb hissued.command

/-- After the blocks of a pass a command waits for its answer, or the initialisation is over. -/
theorem Initialising.ask (h : s.Initialising report memory) (hu : s.ask .teacher a = some u) :
    (∃ n b rest, u.Awaits report memory n b rest) ∨ u.Initialised report memory := by
  have hlen : CamRole.teacher.done = 17 := rfl
  cases h with
  | settled n h hstatus hle =>
    rcases ask_cases hu with ⟨hp, -⟩ | ⟨b, hb, hissued⟩ | ⟨hp, hlast, rfl⟩ | ⟨-, hge, -⟩
    · exact absurd h.pending hp
    · rw [hstatus] at hb
      exact Or.inl ⟨n, b, _, h.issued hb hissued⟩
    · obtain rfl : n = 16 := by omega
      rw [finish_eq hp hlast]
      exact Or.inr ⟨⟨h.asked, h.arrived, h.pending, h.fifo, h.empty, h.holder⟩, rfl, s.limits, rfl⟩
    · omega
  | awaits n b rest h =>
    have hne : s.ctx.commandPending ≠ 0 := by
      rw [h.pending]
      cases b.command.kind <;> decide
    rcases ask_cases hu with ⟨-, rfl⟩ | ⟨b', -, hissued⟩ | ⟨hp, -⟩ | ⟨hp, -⟩
    · exact Or.inl ⟨n, b, rest, h⟩
    · exact absurd hissued.idle hne
    · exact absurd hp hne
    · exact absurd hp hne
  | initialised h =>
    have hstatus := h.status
    rcases ask_cases hu with ⟨hp, -⟩ | ⟨b, hb, -⟩ | ⟨-, hlast, -⟩ | ⟨-, -, rfl⟩
    · exact absurd h.pending hp
    · rw [hstatus] at hb
      cases hb
    · omega
    · exact Or.inr h

/-- A command whose time is not over did not fail. -/
theorem Awaits.handle (h : u.Awaits report memory n b rest)
    (htime : u.ctx.commandPending ≠ 0 → u.ctx.commandTimeout 10 a.tested.1 a.tested.2 = 0) :
    u.handle .teacher a.tested.1 a.tested.2 = u := by
  rcases handle_cases .teacher u a with ⟨-, heq⟩ | ⟨⟨hp, herr | ht⟩, -⟩ | ⟨-, herr, -⟩
  · exact heq
  · exact absurd herr (getErr_flag h.pending)
  · rw [htime (getPendingState_eq_one.mp hp)] at ht
    cases ht
  · exact absurd herr (getErr_flag h.pending)

/-- A part of the answer arrives, or the end of it. -/
theorem Awaits.read (h : u.Awaits report memory n b rest) (hbytes : a.arrived <+: rest) (hread : u.read signed a.arrived = some t) :
    t.Initialising report memory := by
  obtain ⟨c, fifo, hloop, rfl⟩ := read_inv hread
  rw [h.fifo, List.nil_append] at hloop
  have hend : OneEnd (u.ctx.collected ++ rest) := by
    rw [h.answer]
    exact oneEnd_answer _ _
  obtain ⟨rfl, hcases⟩ := readLoop_answer hend h.missing hbytes hloop
  have hn : n < 16 := (List.getElem?_eq_some_iff.mp h.block).1
  rcases hcases with ⟨rest', hne, hrest, hcollected, hholder, hpending⟩ | ⟨hrest, hp, e, hreceived, hlen, hholder, rfl⟩
  · refine .awaits n b rest' ⟨h.block, h.status, h.asked, hpending.trans h.pending, rfl, hne, ?_, ?_, ?_⟩
    · rw [← h.answer, hrest, ← List.append_assoc, ← hcollected]
    · rw [← h.arrived, hrest, ← List.append_assoc]
    · dsimp only
      rw [hholder]
      exact h.holder
  · rw [h.answer] at hreceived hlen
    obtain ⟨hanswered, hzero⟩ := update_answer hreceived hlen
    refine .settled (n + 1) ⟨h.asked, ?_, hzero, rfl, hp, ?_⟩ h.status (by omega)
    · rw [← h.arrived, hrest]
    · dsimp only
      rw [hanswered, hholder, h.asked]
      exact h.holder.answered h.block

theorem Initialising.pass (h : s.Initialising report memory) (hpass : s.pass signed .teacher a = some t)
    (ha : s.Answered report a t) : t.Initialising report memory := by
  obtain ⟨u, hu, hpass⟩ := Option.bind_eq_some_iff.mp hpass
  obtain ⟨v, hv, hpass⟩ := Option.bind_eq_some_iff.mp hpass
  rw [ha.blocksOnly, further_nil] at hpass
  cases hpass
  have htime := ha.inTime u (Option.mem_def.mpr hu)
  rcases h.ask hu with ⟨n, b, rest, h⟩ | h
  · rw [h.handle htime] at hv
    obtain ⟨c, fifo, -, heq⟩ := read_inv hv
    refine h.read ?_ hv
    have hsent := ha.sent
    rw [heq] at hsent
    dsimp only at hsent
    rw [← h.arrived] at hsent
    exact (List.prefix_append_right_inj _).mp hsent
  · have hkeep : u.handle .teacher a.tested.1 a.tested.2 = u := by
      unfold CamInit.handle
      rw [if_neg]
      rw [getPendingState_eq_one, h.pending]
      exact not_not_intro rfl
    rw [hkeep] at hv
    obtain ⟨c, fifo, hloop, rfl⟩ := read_inv hv
    have hnone : a.arrived = [] := by
      have hsent := ha.sent
      dsimp only at hsent
      rw [← h.arrived] at hsent
      have := hsent.length_le
      rw [List.length_append] at this
      exact List.length_eq_zero_iff.mp (by omega)
    rw [hnone, h.fifo] at hloop
    cases hloop
    refine .initialised ⟨⟨h.asked, ?_, h.pending, rfl, h.empty, h.holder⟩, h.status, h.limits⟩
    dsimp only
    rw [hnone, List.append_nil, h.arrived]

theorem initialising_start (report : Nat → CamReport) (c : CamholderCtx) (isExclude : Int) :
    (start c isExclude).Initialising report c.preset :=
  .settled 0 ⟨rfl, rfl, rfl, rfl, rfl, fun _ => rfl, fun _ _ hn => by omega, fun _ _ hn => by omega⟩ rfl (Nat.zero_le 16)

/-- A run in which every command is answered. -/
theorem initialising_run {isExclude : Int} {as : List CamPass} (h : exec (pass signed .teacher) (start c isExclude) as = some t)
    (hans : EveryStep (pass signed .teacher) (Answered report) (start c isExclude) as) : t.Initialising report c.preset :=
  hans.invariant (fun _ _ _ hs h ha => hs.pass h ha) (initialising_start report c isExclude) h

theorem Initialising.done (h : t.Initialising report memory) (hdone : t.status = 17) : t.Initialised report memory := by
  cases h with
  | settled n h hstatus hle => omega
  | awaits n b rest h =>
    have hn : n < 16 := (List.getElem?_eq_some_iff.mp h.block).1
    have := h.status
    omega
  | initialised h => exact h

theorem ofPresets_eq (l : PanLimits) (preset : Vector PresetPos 16) :
    (l.ofPresets preset).left = min (preset.get 1).pan (preset.get 2).pan ∧
      (l.ofPresets preset).right = max (preset.get 1).pan (preset.get 2).pan ∧
      (l.ofPresets preset).excludeLeft = min (preset.get 5).pan (preset.get 6).pan ∧
      (l.ofPresets preset).excludeRight = max (preset.get 5).pan (preset.get 6).pan := by
  unfold PanLimits.ofPresets
  dsimp only
  split_ifs <;> exact ⟨by dsimp only; omega, by dsimp only; omega, by dsimp only; omega, by dsimp only; omega⟩

theorem Initialised.preset (h : t.Initialised report memory) (k : Fin 16) (hk : k.val ≤ 6) :
    t.ctx.preset.get k = storedPreset report memory k :=
  (h.holder.table k).trans (if_pos (by omega))

/-- Whatever the memory held and however the answers arrive, the table of an initialised teacher is right exactly when the memory
    held the zoom of preset 0 in the presets 1 to 6 from the start. -/
theorem storesPresets_iff {isExclude : Int} {as : List CamPass}
    (h : exec (pass signed .teacher) (start c isExclude) as = some t)
    (hans : EveryStep (pass signed .teacher) (Answered report) (start c isExclude) as) (hdone : t.status = 17) :
    t.StoresPresets report ↔ ∀ k : Fin 16, 0 < k.val → k.val ≤ 6 → (c.preset.get k).zoom = (report 0).zoom.toInt := by
  have hinit := (initialising_run h hans).done hdone
  have hpreset : ∀ k : Fin 16, 0 < k.val → k.val ≤ 6 →
      t.ctx.preset.get k = ⟨(report k).pan.toInt, (report k).tilt.toInt, (c.preset.get k).zoom⟩ := by
    intro k hpos hk
    rw [hinit.preset k hk, storedPreset, if_neg (Nat.ne_of_gt hpos)]
  constructor
  · intro hstores k hpos hk
    have heq := hstores.presets k hk
    rw [hpreset k hpos hk] at heq
    exact congrArg PresetPos.zoom heq
  · intro hzoom
    obtain ⟨l, hl⟩ := hinit.limits
    obtain ⟨hleft, hright, hexcludeLeft, hexcludeRight⟩ := ofPresets_eq l t.ctx.preset
    have hpan : ∀ k : Fin 16, 0 < k.val → k.val ≤ 6 → (t.ctx.preset.get k).pan = (report k).pan.toInt :=
      fun k hpos hk => congrArg PresetPos.pan (hpreset k hpos hk)
    have h1 := hpan 1 (by decide) (by decide)
    have h2 := hpan 2 (by decide) (by decide)
    have h5 := hpan 5 (by decide) (by decide)
    have h6 := hpan 6 (by decide) (by decide)
    refine ⟨fun k hk => ?_, ?_, ?_, ?_, ?_⟩
    · rcases Nat.eq_zero_or_pos k.val with hzero | hpos
      · obtain rfl : k = 0 := Fin.ext hzero
        exact hinit.preset 0 hk
      · rw [hpreset k hpos hk, hzoom k hpos hk]
    · rw [hl, hleft]
      exact congrArg₂ min h1 h2
    · rw [hl, hright]
      exact congrArg₂ max h1 h2
    · rw [hl, hexcludeLeft]
      exact congrArg₂ min h5 h6
    · rw [hl, hexcludeRight]
      exact congrArg₂ max h5 h6

/-- The passes of a camera that answers at once. -/
def promptRun (report : Nat → CamReport) : List CamPass :=
  (List.range 17).map fun n : Nat => ⟨(n, 0), (n, 0), ((CamRole.teacher.blocks[n]?).map fun b =>
    b.command.kind.answer (report (answers report (CamRole.teacher.blocks.take (n + 1))).1)).getD [], []⟩

/-- A camera that has the same zoom at every preset and looks from left to right from one to the next. -/
def sweep (zoom : BitVec 16) (num : Nat) : CamReport := ⟨.ofInt 16 (10 * num - 30), 5, zoom⟩

instance (report : Nat → CamReport) (s : CamInit) (a : CamPass) (t : CamInit) : Decidable (Answered report s a t) :=
  decidable_of_iff (a.further.isEmpty ∧
      (∀ u ∈ s.ask .teacher a, u.ctx.commandPending ≠ 0 → u.ctx.commandTimeout 10 a.tested.1 a.tested.2 = 0) ∧
      t.arrived <+: (answers report t.asked).2)
    ⟨fun ⟨hempty, htime, hsent⟩ => ⟨List.isEmpty_iff.mp hempty, htime, hsent⟩,
      fun h => ⟨List.isEmpty_iff.mpr h.blocksOnly, h.inTime, h.sent⟩⟩

/-- The table is right when the memory and the camera have the same zoom. -/
theorem storesPresets_sweep : ∃ t, exec (pass false .teacher) (start UartSys.idleCamera 0) (promptRun (sweep 0)) = some t ∧
    t.StoresPresets (sweep 0) := by
  have hrun : (exec (pass false .teacher) (start UartSys.idleCamera 0) (promptRun (sweep 0))).map (·.status) = some 17 := by
    decide +kernel
  obtain ⟨t, ht, hdone⟩ := Option.map_eq_some_iff.mp hrun
  refine ⟨t, ht, (storesPresets_iff ht (by decide +kernel) hdone).mpr fun k _ _ => ?_⟩
  exact congrArg PresetPos.zoom (Vector.getElem_replicate k.isLt)

/-- The camera has the zoom 7 at every preset, and the memory held 0. -/
theorem garbage_zoom_counterexample :
    EveryStep (pass false .teacher) (Answered (sweep 7)) (start UartSys.idleCamera 0) (promptRun (sweep 7)) ∧
    ∃ t, exec (pass false .teacher) (start UartSys.idleCamera 0) (promptRun (sweep 7)) = some t ∧ t.status = 17 ∧
      ((t.ctx.preset.get 0).zoom, (t.ctx.preset.get 1).zoom) = (7, 0) ∧ ¬ t.StoresPresets (sweep 7) := by
  have hrun : (exec (pass false .teacher) (start UartSys.idleCamera 0) (promptRun (sweep 7))).map (fun t =>
      (t.status, (t.ctx.preset.get 0).zoom, (t.ctx.preset.get 1).zoom)) = some (17, 7, 0) := by decide +kernel
  obtain ⟨t, ht, heq⟩ := Option.map_eq_some_iff.mp hrun
  simp only [Prod.mk.injEq] at heq
  obtain ⟨hdone, hfirst, hsecond⟩ := heq
  refine ⟨by decide +kernel, t, ht, hdone, by rw [hfirst, hsecond], fun hstores => ?_⟩
  have hzoom : (t.ctx.preset.get 1).zoom = 7 := congrArg PresetPos.zoom (hstores.presets 1 (by decide))
  rw [hsecond] at hzoom
  cases hzoom

end CamInit

end

end Recbcsrv
