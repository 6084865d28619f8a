import Recbcsrv.Lib.Blocks
import Recbcsrv.Switch.Camera

/-! The responses of the cameras on their way from the `COMMAND_BYP_RSP` messages of the devices to `update_camholder_ctx`: a
    byte-wise FIFO for each UART channel, and the loops of `thread_SwitchTracking` that put the bytes of a camera in its
    `Rx_buf` up to the next 0xff. -/

namespace Recbcsrv
open Exec Blocks

/-! ### Channels -/

/-- The devices whose messages carry bytes of the cameras. -/
inductive UartBoard where
  | a
  | b
  deriving DecidableEq, Repr

/-- `RX_consumer_fifo_A1`, `A2`, `B1` and `B2`, in the order of the loops. -/
inductive UartFifo where
  | a1
  | a2
  | b1
  | b2
  deriving DecidableEq, Repr

/-- The two cameras. -/
inductive CamRole where
  | teacher
  | student
  deriving DecidableEq, Repr

/-- The loop that comes next, in this pass of the thread or in the following one. -/
def UartFifo.next : UartFifo → UartFifo
  | .a1 => .a2
  | .a2 => .b1
  | .b1 => .b2
  | .b2 => .a1

/-- `uart_channel`, as the thread sets it. -/
def CamRole.uartChannel : CamRole → Nat
  | .teacher => 1
  | .student => 3

/-- The camera that the loop over the FIFO reads for; the loops over `A2` and `B2` drop the bytes. -/
def UartFifo.reader : UartFifo → Option CamRole
  | .a1 => if CamRole.teacher.uartChannel = 1 then some .teacher else if CamRole.student.uartChannel = 1 then some .student else none
  | .b1 => if CamRole.teacher.uartChannel = 3 then some .teacher else if CamRole.student.uartChannel = 3 then some .student else none
  | .a2 | .b2 => none

/-- `UART_RX_producer_fifo_2` of a device if `channel`, else `UART_RX_producer_fifo_1`. -/
def UartBoard.fifo (board : UartBoard) (channel : Bool) : UartFifo :=
  match board, channel with
  | .a, false => .a1
  | .a, true => .a2
  | .b, false => .b1
  | .b, true => .b2

/-- Where the bytes of a camera come from. -/
def CamRole.board : CamRole → UartBoard
  | .teacher => .a
  | .student => .b

/-! ### Messages -/

/-- The loop of `DevAMsgHandle` and `DevBCMsgHandle` over the attributes of a `COMMAND_BYP_RSP` message: `channel`, and the bytes
    with the channel that they go to. -/
def bypRspAttr (s : Bool × List (Bool × UInt8)) (a : Attr) : Bool × List (Bool × UInt8) :=
  let channel := if a.named "Channel" then !a.valued "0" else s.1
  (channel, if a.named "RawBytes" then s.2 ++ a.value.map fun b => (channel, b) else s.2)

/-- The bytes of a `COMMAND_BYP_RSP` message with these attributes. -/
def bypRsp (attrs : List Attr) : List (Bool × UInt8) := (attrs.foldl bypRspAttr (false, [])).2

/-- The attributes fit `attr_name` and `attr_value`. -/
def BypFits (attrs : List Attr) : Prop := ∀ a ∈ attrs, a.name.length < 16 ∧ a.value.length < 1536

instance (attrs : List Attr) : Decidable (BypFits attrs) := inferInstanceAs (Decidable (∀ a ∈ attrs, _))

/-- The bytes of a message for the camera of the device. -/
def camBytes (items : List (Bool × UInt8)) : List UInt8 := (items.filter fun x => !x.1).map Prod.snd

/-! ### The system -/

/-- What the devices' threads still have to add, the FIFOs, the cameras and the loop that runs, with the bytes of each camera that
    were ever sent and the responses handed to `update_camholder_ctx`. After a store outside `Rx_buf` nothing is known. -/
structure UartSys where
  pending : UartBoard → List (Bool × UInt8)
  fifo : UartFifo → List UInt8
  ctx : CamRole → CamholderCtx
  loop : UartFifo
  outside : Bool
  sent : CamRole → List UInt8
  responses : CamRole → List CamholderCtx

inductive UartAct where
  /-- A device sends a message. -/
  | message (board : UartBoard) (attrs : List Attr)
  /-- The handler of the device adds the next byte. -/
  | add (board : UartBoard)
  /-- A turn of the loop that runs, or its end. -/
  | read
  /-- The thread sends a command, or looks for errors and timeouts. -/
  | command (cam : CamRole) (k : CamCommand) (sec usec : Int)
  | handle (cam : CamRole) (sec usec : Int)

namespace UartSys

/-- The camera after the byte: with a response, or nothing for a store outside `Rx_buf`. -/
def takeByte (signed : Bool) (c : CamholderCtx) (b : UInt8) : Option (CamholderCtx × Option CamholderCtx) :=
  if b = 0xff then (c.completed b).map fun c => (c.updateCamholderCtx signed, some c) else (c.store b).map fun c => (c, none)

/-- A turn of the loop for a camera, which breaks off after a response. -/
def readByte (signed : Bool) (s : UartSys) (cam : CamRole) (b : UInt8) : UartSys :=
  match takeByte signed (s.ctx cam) b with
  | none => { s with outside := true }
  | some (c, none) => { s with ctx := Function.update s.ctx cam c }
  | some (c, some r) =>
    { s with
      ctx := Function.update s.ctx cam c
      responses := Function.update s.responses cam (s.responses cam ++ [r])
      loop := s.loop.next }

def read (signed : Bool) (s : UartSys) : UartSys :=
  match s.fifo s.loop with
  | [] => { s with loop := s.loop.next }
  | b :: rest =>
    let s' := { s with fifo := Function.update s.fifo s.loop rest }
    match s.loop.reader with
    | none => s'
    | some cam => s'.readByte signed cam b

def act (signed : Bool) (s : UartSys) : UartAct → Option UartSys
  | .message board attrs =>
    if BypFits attrs ∧ s.pending board = [] then
      some { s with
        pending := Function.update s.pending board (bypRsp attrs)
        sent := fun cam => if cam.board = board then s.sent cam ++ camBytes (bypRsp attrs) else s.sent cam }
    else none
  | .add board =>
    match s.pending board with
    | [] => none
    | (channel, b) :: rest =>
      some { s with
        pending := Function.update s.pending board rest
        fifo := Function.update s.fifo (board.fifo channel) (s.fifo (board.fifo channel) ++ [b]) }
  | .read => some (s.read signed)
  | .command cam k sec usec => ((s.ctx cam).command k sec usec).map fun c => { s with ctx := Function.update s.ctx cam c }
  | .handle cam sec usec => some { s with ctx := Function.update s.ctx cam ((s.ctx cam).handle sec usec) }

def step (signed : Bool) (s : UartSys) (a : UartAct) : Option UartSys := if s.outside then none else s.act signed a

/-- Before the first message, with the cameras as `camera_holder_init` leaves them. -/
def start (ctx : CamRole → CamholderCtx) : UartSys where
  pending := fun _ => []
  fifo := fun _ => []
  ctx := fun cam => { ctx cam with rxBufP := 0 }
  loop := .a1
  outside := false
  sent := fun _ => []
  responses := fun _ => []

end UartSys

/-! ### What is received -/

/-- The byte ends a response. -/
def isEnd (b : UInt8) : Bool := b = 0xff

namespace CamholderCtx

/-- The response in `Rx_buf`. -/
def received (c : CamholderCtx) : List UInt8 := c.rxBuf.toList.take c.rspLen

/-- The bytes that were put in `Rx_buf` since the last response. -/
def collected (c : CamholderCtx) : List UInt8 := c.rxBuf.toList.take c.rxBufP

end CamholderCtx

/-- The bytes of a camera that its loop has read are `bytes`: what was sent since is on its way, the responses are the blocks of
    `bytes`, and `Rx_buf` holds the rest. -/
structure UartSys.Framed (s : UartSys) (cam : CamRole) (bytes : List UInt8) : Prop where
  sent : s.sent cam = bytes ++ (s.fifo (cam.board.fifo false) ++ camBytes (s.pending cam.board))
  responses : (s.responses cam).map (fun c => (c.received, c.rspLen)) = (blocks isEnd bytes).map fun b => (b, b.length)
  collected : (s.ctx cam).collected = unfinished isEnd bytes
  room : (s.ctx cam).rxBufP ≤ 16

/-- Nothing was stored outside `Rx_buf`, and the bytes of each camera are in its responses, in its `Rx_buf` or on their way. -/
def UartSys.Right (s : UartSys) : Prop := s.outside = false ∧ ∀ cam, ∃ bytes, s.Framed cam bytes

section
variable {signed : Bool} {c d : CamholderCtx} {s t : UartSys} {cam : CamRole} {b : UInt8} {bytes rest : List UInt8}

theorem updateCamholderCtx_rx (signed : Bool) (c : CamholderCtx) :
    (c.updateCamholderCtx signed).rxBuf = c.rxBuf ∧ (c.updateCamholderCtx signed).rxBufP = c.rxBufP := by
  rw [updateCamholderCtx_eq]
  cases c.response with
  | ack k => cases k <;> exact ⟨rfl, rfl⟩
  | error => exact ⟨rfl, rfl⟩
  | other => exact ⟨rfl, rfl⟩

theorem handle_rx (c : CamholderCtx) (sec usec : Int) :
    (c.handle sec usec).rxBuf = c.rxBuf ∧ (c.handle sec usec).rxBufP = c.rxBufP := by
  unfold CamholderCtx.handle CamholderCtx.resetPendingState
  dsimp only
  split_ifs <;> exact ⟨rfl, rfl⟩

theorem command_rx {k : CamCommand} {sec usec : Int} (h : c.command k sec usec = some d) :
    d.rxBuf = c.rxBuf ∧ d.rxBufP = c.rxBufP := by
  obtain ⟨e, -, rfl⟩ := Option.map_eq_some_iff.mp h
  exact ⟨rfl, rfl⟩

theorem collected_congr (h : d.rxBuf = c.rxBuf ∧ d.rxBufP = c.rxBufP) : d.collected = c.collected := by
  rw [CamholderCtx.collected, h.1, h.2]
  rfl

theorem length_collected (h : c.rxBufP ≤ 16) : c.collected.length = c.rxBufP := by
  rw [CamholderCtx.collected, List.length_take, Vector.length_toList]
  omega

theorem store_collected (h : c.store b = some d) : c.rxBufP < 16 ∧ d.rxBufP = c.rxBufP + 1 ∧
    d.rxBuf.toList.take (c.rxBufP + 1) = c.collected ++ [b] := by
  unfold CamholderCtx.store at h
  split at h
  · next hlt =>
    cases h
    refine ⟨hlt, rfl, ?_⟩
    have hlen : c.rxBufP < c.rxBuf.toList.length := by rwa [Vector.length_toList]
    rw [Vector.toList_set, List.set_eq_take_append_cons_drop, if_pos hlen, CamholderCtx.collected,
      ← List.singleton_append, ← List.append_assoc]
    refine List.take_left' ?_
    rw [List.length_append, List.length_take, List.length_singleton]
    omega
  · cases h

/-! ### A byte -/

theorem store_eq_none (h : c.store b = none) : c.rxBufP = 16 ∨ 16 < c.rxBufP := by
  unfold CamholderCtx.store at h
  split at h
  · cases h
  · omega

/-- A byte that does not end a response. -/
theorem takeByte_go {r : Option CamholderCtx} (hb : ¬ isEnd b = true) (h : UartSys.takeByte signed c b = some (d, r)) :
    r = none ∧ c.rxBufP < 16 ∧ d.rxBufP = c.rxBufP + 1 ∧ d.collected = c.collected ++ [b] := by
  have hb' : b ≠ 0xff := fun h => hb (decide_eq_true h)
  unfold UartSys.takeByte at h
  rw [if_neg hb'] at h
  obtain ⟨e, he, heq⟩ := Option.map_eq_some_iff.mp h
  cases heq
  obtain ⟨hlt, hp, htake⟩ := store_collected he
  refine ⟨rfl, hlt, hp, ?_⟩
  rw [CamholderCtx.collected, hp, htake]

/-- A byte that ends one. -/
theorem takeByte_stop {r : Option CamholderCtx} (hb : isEnd b = true) (h : UartSys.takeByte signed c b = some (d, r)) :
    ∃ e, r = some e ∧ c.rxBufP < 16 ∧ e.received = c.collected ++ [b] ∧ e.rspLen = c.rxBufP + 1 ∧ d.rxBufP = 0 := by
  have hb' : b = 0xff := of_decide_eq_true hb
  unfold UartSys.takeByte CamholderCtx.completed at h
  rw [if_pos hb', if_pos hb', Option.map_map] at h
  obtain ⟨e, he, heq⟩ := Option.map_eq_some_iff.mp h
  cases heq
  obtain ⟨hlt, hp, htake⟩ := store_collected he
  refine ⟨_, rfl, hlt, ?_, hp, (updateCamholderCtx_rx signed _).2⟩
  rw [CamholderCtx.received]
  dsimp only
  rw [hp, htake]

/-- There is no place for a byte only when the rest has 16 bytes. -/
theorem takeByte_none (h : UartSys.takeByte signed c b = none) : 16 ≤ c.rxBufP := by
  unfold UartSys.takeByte CamholderCtx.completed at h
  have hstore : c.store b = none := by
    split at h
    · simpa using h
    · simpa using h
  rcases store_eq_none hstore with h | h <;> omega

/-! ### A step -/

namespace UartSys

/-- What was read of a camera fits. -/
theorem Framed.fits (h : s.Framed cam bytes) : Fits isEnd 16 bytes := by
  refine ⟨fun b hb => ?_, ?_⟩
  · have hmem : (b, b.length) ∈ (s.responses cam).map fun c => (c.received, c.rspLen) := by
      rw [h.responses]
      exact List.mem_map.mpr ⟨b, hb, rfl⟩
    obtain ⟨c, -, heq⟩ := List.mem_map.mp hmem
    have hreceived : c.received = b := congrArg Prod.fst heq
    rw [← hreceived, CamholderCtx.received, List.length_take, Vector.length_toList]
    omega
  · rw [← h.collected, length_collected h.room]
    exact h.room

theorem Framed.received (h : s.Framed cam bytes) : (s.responses cam).map CamholderCtx.received = blocks isEnd bytes := by
  have hfst := congrArg (List.map Prod.fst) h.responses
  rw [List.map_map, List.map_map] at hfst
  exact hfst.trans (List.map_id _)

/-- No byte that was read is lost. -/
theorem Framed.bytes_eq (h : s.Framed cam bytes) :
    bytes = ((s.responses cam).map CamholderCtx.received).flatten ++ (s.ctx cam).collected := by
  rw [h.received, h.collected, flatten_blocks]

/-- Every response ends with its only 0xff. -/
theorem Framed.oneEnd (h : s.Framed cam bytes) {c : CamholderCtx} (hc : c ∈ s.responses cam) :
    ∃ start, c.received = start ++ [0xff] ∧ 0xff ∉ start := by
  have hmem : c.received ∈ blocks isEnd bytes := h.received ▸ List.mem_map_of_mem hc
  obtain ⟨start, x, heq, hx, hstart⟩ := mem_blocks hmem
  obtain rfl : x = 0xff := of_decide_eq_true hx
  exact ⟨start, heq, fun h => hstart 0xff h (decide_eq_true rfl)⟩

theorem Framed.congr (h : s.Framed cam bytes) (hsent : t.sent cam = s.sent cam)
    (hway : t.fifo (cam.board.fifo false) ++ camBytes (t.pending cam.board) =
      s.fifo (cam.board.fifo false) ++ camBytes (s.pending cam.board))
    (hresponses : t.responses cam = s.responses cam)
    (hctx : (t.ctx cam).rxBuf = (s.ctx cam).rxBuf ∧ (t.ctx cam).rxBufP = (s.ctx cam).rxBufP) : t.Framed cam bytes := by
  refine ⟨?_, ?_, ?_, ?_⟩
  · rw [hsent, hway]
    exact h.sent
  · rw [hresponses]
    exact h.responses
  · rw [collected_congr hctx]
    exact h.collected
  · rw [hctx.2]
    exact h.room

theorem reader_eq_some {f : UartFifo} : f.reader = some cam ↔ f = cam.board.fifo false := by
  cases f <;> cases cam <;> decide

/-- The bytes of a camera go through their own FIFO. -/
theorem camFifo_inj {cam' : CamRole} (h : cam.board.fifo false = cam'.board.fifo false) : cam = cam' := by
  cases cam <;> cases cam' <;> first | rfl | exact absurd h (by decide)

theorem board_inj {cam' : CamRole} (h : cam.board = cam'.board) : cam = cam' := camFifo_inj (congrArg (·.fifo false) h)

/-- A store outside `Rx_buf`, on a stream that does not fit. -/
def Overrun (s : UartSys) : Prop := s.outside = true ∧ ∃ cam bytes, bytes <+: s.sent cam ∧ ¬ Fits isEnd 16 bytes

theorem framed_read (h : s.Framed cam bytes) (hloop : s.loop = cam.board.fifo false) (hfifo : s.fifo s.loop = b :: rest) :
    (s.read signed).Overrun ∨ (s.read signed).outside = s.outside ∧ (s.read signed).Framed cam (bytes ++ [b]) := by
  have hreader : s.loop.reader = some cam := reader_eq_some.mpr hloop
  have hread : s.read signed = { s with fifo := Function.update s.fifo s.loop rest }.readByte signed cam b := by
    unfold read
    rw [hfifo]
    dsimp only
    rw [hreader]
  have hsent : s.sent cam = bytes ++ [b] ++ (rest ++ camBytes (s.pending cam.board)) := by
    rw [h.sent, ← hloop, hfifo]
    simp
  have hrest : Function.update s.fifo s.loop rest (cam.board.fifo false) = rest := by rw [hloop, Function.update_self]
  rw [hread]
  unfold readByte
  dsimp only
  cases htake : takeByte signed (s.ctx cam) b with
  | none =>
    left
    refine ⟨rfl, cam, bytes ++ [b], ⟨_, hsent.symm⟩, ?_⟩
    have hfull := takeByte_none htake
    rw [fits_snoc, ← h.collected, length_collected h.room]
    omega
  | some p =>
    right
    obtain ⟨d, r⟩ := p
    by_cases hb : isEnd b = true
    · obtain ⟨e, rfl, hlt, hreceived, hlen, hp⟩ := takeByte_stop hb htake
      refine ⟨rfl, ?_, ?_, ?_, ?_⟩ <;> dsimp only
      · rw [hrest]
        exact hsent
      · rw [Function.update_self, List.map_append, h.responses, blocks_stop bytes hb, List.map_append, List.map_singleton,
          List.map_singleton, hreceived, hlen, h.collected, List.length_append, ← h.collected, length_collected h.room]
        rfl
      · rw [Function.update_self, unfinished_stop bytes hb, CamholderCtx.collected, hp, List.take_zero]
      · rw [Function.update_self, hp]
        exact Nat.zero_le 16
    · obtain ⟨rfl, hlt, hp, hcollected⟩ := takeByte_go hb htake
      refine ⟨rfl, ?_, ?_, ?_, ?_⟩ <;> dsimp only
      · rw [hrest]
        exact hsent
      · rw [blocks_go bytes hb]
        exact h.responses
      · rw [Function.update_self, unfinished_go bytes hb, ← h.collected, hcollected]
      · rw [Function.update_self, hp]
        exact hlt

theorem framed_read_other (h : s.Framed cam bytes) (hloop : s.loop ≠ cam.board.fifo false) : (s.read signed).Framed cam bytes := by
  have hreader : s.loop.reader ≠ some cam := fun hr => hloop (reader_eq_some.mp hr)
  unfold read
  split
  · exact h.congr rfl rfl rfl ⟨rfl, rfl⟩
  · next b rest hfifo =>
    have hway : Function.update s.fifo s.loop rest (cam.board.fifo false) ++ camBytes (s.pending cam.board) =
        s.fifo (cam.board.fifo false) ++ camBytes (s.pending cam.board) := by
      rw [Function.update_of_ne (Ne.symm hloop)]
    dsimp only
    split
    · exact h.congr rfl hway rfl ⟨rfl, rfl⟩
    · next cam' hr =>
      have hne : cam ≠ cam' := fun heq => hreader (heq ▸ hr)
      have hctx : ∀ c, Function.update s.ctx cam' c cam = s.ctx cam := fun c => Function.update_of_ne hne _ _
      unfold readByte
      split
      · exact h.congr rfl hway rfl ⟨rfl, rfl⟩
      · exact h.congr rfl hway rfl ⟨congrArg _ (hctx _), congrArg _ (hctx _)⟩
      · exact h.congr rfl hway (Function.update_of_ne hne _ _) ⟨congrArg _ (hctx _), congrArg _ (hctx _)⟩

/-- A message of a device, or the next byte of its handler, is on the way of its own camera only. -/
theorem framed_message {attrs : List Attr} (h : s.Framed cam bytes) {board : UartBoard} (hempty : s.pending board = []) :
    Framed { s with
      pending := Function.update s.pending board (bypRsp attrs)
      sent := fun cam => if cam.board = board then s.sent cam ++ camBytes (bypRsp attrs) else s.sent cam } cam bytes := by
  refine ⟨?_, h.responses, h.collected, h.room⟩
  by_cases hb : cam.board = board
  · have hsent := h.sent
    rw [hb, hempty] at hsent
    dsimp only
    rw [if_pos hb, hb, Function.update_self, hsent]
    simp [camBytes]
  · dsimp only
    rw [if_neg hb, Function.update_of_ne hb]
    exact h.sent

theorem fifo_ne_of_board_ne {board : UartBoard} (h : cam.board ≠ board) (channel : Bool) :
    cam.board.fifo false ≠ board.fifo channel := by
  cases cam <;> cases board <;> cases channel <;> first | exact absurd rfl h | decide

theorem framed_add (h : s.Framed cam bytes) {board : UartBoard} {channel : Bool} {items : List (Bool × UInt8)}
    (hpending : s.pending board = (channel, b) :: items) :
    Framed { s with
      pending := Function.update s.pending board items
      fifo := Function.update s.fifo (board.fifo channel) (s.fifo (board.fifo channel) ++ [b]) } cam bytes := by
  refine ⟨?_, h.responses, h.collected, h.room⟩
  have hsent := h.sent
  dsimp only
  rw [hsent]
  congr 1
  by_cases hb : cam.board = board
  · rw [hb, Function.update_self, hpending]
    cases channel with
    | false =>
      rw [Function.update_self]
      simp [camBytes]
    | true =>
      have hne : board.fifo false ≠ board.fifo true := by cases board <;> decide
      rw [Function.update_of_ne hne]
      simp [camBytes]
  · rw [Function.update_of_ne hb, Function.update_of_ne (fifo_ne_of_board_ne hb channel)]

theorem read_idle (signed : Bool) (h : s.fifo s.loop = [] ∨ s.loop.reader = none) : (s.read signed).outside = s.outside ∧
    ∀ cam bytes, s.Framed cam bytes → (s.read signed).Framed cam bytes := by
  unfold read
  split
  · exact ⟨rfl, fun cam bytes h => h.congr rfl rfl rfl ⟨rfl, rfl⟩⟩
  · next b rest hfifo =>
    have hr : s.loop.reader = none := h.resolve_left (by rw [hfifo]; exact List.cons_ne_nil b rest)
    dsimp only
    rw [hr]
    refine ⟨rfl, fun cam bytes h => h.congr rfl ?_ rfl ⟨rfl, rfl⟩⟩
    have hne : cam.board.fifo false ≠ s.loop := fun heq => by
      rw [← heq, reader_eq_some.mpr rfl] at hr
      cases hr
    dsimp only
    rw [Function.update_of_ne hne]

theorem right_read (h : s.Right) : (s.read signed).Overrun ∨ (s.read signed).Right := by
  obtain ⟨hin, hframed⟩ := h
  by_cases hidle : s.fifo s.loop = [] ∨ s.loop.reader = none
  · obtain ⟨hout, hkeep⟩ := read_idle signed hidle
    exact Or.inr ⟨hout.trans hin, fun cam => (hframed cam).imp fun bytes h => hkeep cam bytes h⟩
  · obtain ⟨hne, hreader⟩ := not_or.mp hidle
    obtain ⟨b, rest, hfifo⟩ := List.exists_cons_of_ne_nil hne
    obtain ⟨cam, hcam⟩ := Option.ne_none_iff_exists'.mp hreader
    have hloop := reader_eq_some.mp hcam
    obtain ⟨bytes, hbytes⟩ := hframed cam
    refine (framed_read hbytes hloop hfifo).imp_right fun ⟨hout, hcam⟩ => ⟨hout.trans hin, fun cam' => ?_⟩
    by_cases heq : cam' = cam
    · rw [heq]
      exact ⟨_, hcam⟩
    · exact (hframed cam').imp fun _ h => framed_read_other h fun hl => heq (camFifo_inj (hl.symm.trans hloop))

theorem ctx_update_rx {cam' : CamRole} (h : c.rxBuf = (s.ctx cam).rxBuf ∧ c.rxBufP = (s.ctx cam).rxBufP) :
    (Function.update s.ctx cam c cam').rxBuf = (s.ctx cam').rxBuf ∧
      (Function.update s.ctx cam c cam').rxBufP = (s.ctx cam').rxBufP := by
  by_cases heq : cam' = cam
  · rw [heq, Function.update_self]
    exact h
  · rw [Function.update_of_ne heq]
    exact ⟨rfl, rfl⟩

theorem right_step {a : UartAct} (h : s.Right) (hs : s.step signed a = some t) : t.Overrun ∨ t.Right := by
  obtain ⟨hin, hframed⟩ := h
  have hact : s.act signed a = some t := by rwa [step, hin, if_neg Bool.false_ne_true] at hs
  cases a with
  | message board attrs =>
    dsimp only [act] at hact
    split at hact
    · next hfits =>
      cases hact
      exact Or.inr ⟨hin, fun cam => (hframed cam).imp fun bytes h => framed_message h hfits.2⟩
    · cases hact
  | add board =>
    dsimp only [act] at hact
    split at hact
    · cases hact
    · next hpending =>
      cases hact
      exact Or.inr ⟨hin, fun cam => (hframed cam).imp fun bytes h => framed_add h hpending⟩
  | read =>
    cases hact
    exact right_read ⟨hin, hframed⟩
  | command cam k sec usec =>
    obtain ⟨c, hc, rfl⟩ := Option.map_eq_some_iff.mp hact
    exact Or.inr ⟨hin, fun cam' => (hframed cam').imp fun bytes h => h.congr rfl rfl rfl (ctx_update_rx (command_rx hc))⟩
  | handle cam sec usec =>
    cases hact
    exact Or.inr ⟨hin, fun cam' => (hframed cam').imp fun bytes h =>
      h.congr rfl rfl rfl (ctx_update_rx (handle_rx (s.ctx cam) sec usec))⟩

/-- A run goes right as long as it stores nothing outside `Rx_buf`. -/
theorem right_exec {as : List UartAct} (h : s.Right) (hs : exec (step signed) s as = some t) : t.Overrun ∨ t.Right := by
  induction as generalizing s with
  | nil =>
    cases hs
    exact Or.inr h
  | cons a as ih =>
    obtain ⟨u, hu, hs⟩ := exec_cons.mp hs
    rcases right_step h hu with hover | hright
    · -- after the store there is no further action
      cases as with
      | nil =>
        cases hs
        exact Or.inl hover
      | cons a' as =>
        rw [exec, step, hover.1, if_pos rfl] at hs
        cases hs
    · exact ih hright hs

/-! ### Every stream can arrive -/

/-- Nothing is on its way. -/
structure Idle (s : UartSys) : Prop where
  outside : s.outside = false
  pending : ∀ board, s.pending board = []
  fifo : ∀ f, s.fifo f = []

theorem exec_act {a : UartAct} {as : List UartAct} {u : UartSys} (hout : s.outside = false) (ha : s.act signed a = some u)
    (hs : exec (step signed) u as = some t) : exec (step signed) s (a :: as) = some t := by
  refine exec_cons.mpr ⟨u, ?_, hs⟩
  rwa [step, hout, if_neg Bool.false_ne_true]

/-- The loops over empty FIFOs end one after the other. -/
theorem exec_skip (signed : Bool) (k : Nat) (hout : s.outside = false) (hempty : ∀ i < k, s.fifo (UartFifo.next^[i] s.loop) = []) :
    exec (step signed) s (List.replicate k .read) = some { s with loop := UartFifo.next^[k] s.loop } := by
  induction k generalizing s with
  | zero => rfl
  | succ k ih =>
    have hnow : s.fifo s.loop = [] := hempty 0 (Nat.succ_pos k)
    have hread : s.read signed = { s with loop := s.loop.next } := by
      unfold read
      rw [hnow]
    have hrest := ih (s := { s with loop := s.loop.next }) hout fun i hi => hempty (i + 1) (Nat.succ_lt_succ hi)
    exact exec_act hout (congrArg some hread) hrest

theorem exists_next (l f : UartFifo) : ∃ k < 4, UartFifo.next^[k] l = f ∧ ∀ i < k, UartFifo.next^[i] l ≠ f := by
  cases l <;> cases f <;> decide

theorem readByte_sent (s : UartSys) (cam : CamRole) (b : UInt8) : (s.readByte signed cam b).sent = s.sent := by
  unfold readByte
  split <;> rfl

theorem readByte_idle (h : s.Idle) (cam : CamRole) (b : UInt8) :
    (s.readByte signed cam b).outside = true ∨ (s.readByte signed cam b).Idle := by
  unfold readByte
  split
  · exact Or.inl rfl
  · exact Or.inr ⟨h.outside, h.pending, h.fifo⟩
  · exact Or.inr ⟨h.outside, h.pending, h.fifo⟩

/-- The message with which a device sends a byte for its camera. -/
def oneByte (b : UInt8) : List Attr := [⟨ascii "RawBytes", [b]⟩]

theorem bypRsp_oneByte (b : UInt8) : bypRsp (oneByte b) = [(false, b)] := by
  have hraw : Attr.named ⟨ascii "RawBytes", [b]⟩ "RawBytes" = true :=
    (by decide : decide (cstr (ascii "RawBytes") = ascii "RawBytes") = true)
  have hchannel : Attr.named ⟨ascii "RawBytes", [b]⟩ "Channel" = false :=
    (by decide : decide (cstr (ascii "RawBytes") = ascii "Channel") = false)
  simp [oneByte, bypRsp, bypRspAttr, hraw, hchannel]

/-- The byte is sent, and stands in the FIFO of the camera. -/
theorem exec_send (h : s.Idle) (cam : CamRole) (b : UInt8) :
    exec (step signed) s [.message cam.board (oneByte b), .add cam.board] = some { s with
      fifo := Function.update s.fifo (cam.board.fifo false) [b]
      sent := fun cam' => if cam'.board = cam.board then s.sent cam' ++ [b] else s.sent cam' } := by
  have hfits : BypFits (oneByte b) := by
    intro a ha
    rw [List.mem_singleton.mp ha]
    exact ⟨(by decide : (ascii "RawBytes").length < 16), (by decide : 1 < 1536)⟩
  have hback : Function.update (Function.update s.pending cam.board [(false, b)]) cam.board [] = s.pending := by
    rw [Function.update_idem, Function.update_eq_self_iff]
    exact (h.pending _).symm
  refine exec_act h.outside (if_pos ⟨hfits, h.pending _⟩) (exec_act h.outside ?_ rfl)
  dsimp only [act]
  rw [Function.update_self, bypRsp_oneByte]
  dsimp only
  rw [hback, h.fifo]
  rfl

/-- A device sends a byte for its camera, and it is read. -/
theorem exec_feed (signed : Bool) (h : s.Idle) (cam : CamRole) (b : UInt8) : ∃ as t, exec (step signed) s as = some t ∧
    (∀ cam', t.sent cam' = if cam' = cam then s.sent cam ++ [b] else s.sent cam') ∧ (t.outside = true ∨ t.Idle) := by
  obtain ⟨k, -, hk, hbefore⟩ := exists_next s.loop (cam.board.fifo false)
  have hskip := exec_skip signed k (s := { s with
    fifo := Function.update s.fifo (cam.board.fifo false) [b]
    sent := fun cam' => if cam'.board = cam.board then s.sent cam' ++ [b] else s.sent cam' }) h.outside fun i hi =>
      (Function.update_of_ne (hbefore i hi) _ _).trans (h.fifo _)
  dsimp only at hskip
  rw [hk] at hskip
  have hread : exec (step signed) { s with
      fifo := Function.update s.fifo (cam.board.fifo false) [b]
      loop := cam.board.fifo false
      sent := fun cam' => if cam'.board = cam.board then s.sent cam' ++ [b] else s.sent cam' } [.read] =
        some (readByte signed { s with
          loop := cam.board.fifo false
          sent := fun cam' => if cam'.board = cam.board then s.sent cam' ++ [b] else s.sent cam' } cam b) := by
    refine exec_act h.outside ?_ rfl
    have hback : Function.update (Function.update s.fifo (cam.board.fifo false) [b]) (cam.board.fifo false) [] = s.fifo := by
      rw [Function.update_idem, Function.update_eq_self_iff]
      exact (h.fifo _).symm
    dsimp only [act, read]
    rw [Function.update_self]
    dsimp only
    rw [reader_eq_some.mpr rfl, hback]
  refine ⟨_, _, exec_append.mpr ⟨_, exec_send h cam b, exec_append.mpr ⟨_, hskip, hread⟩⟩, fun cam' => ?_, ?_⟩
  · rw [readByte_sent]
    dsimp only
    by_cases heq : cam' = cam
    · rw [if_pos (congrArg CamRole.board heq), if_pos heq, heq]
    · rw [if_neg fun hb => heq (board_inj hb), if_neg heq]
  · refine readByte_idle ?_ cam b
    exact ⟨h.outside, h.pending, h.fifo⟩

/-- A device sends bytes for its camera, until they are all read or one is stored outside `Rx_buf`. -/
theorem exec_feed_all (signed : Bool) (h : s.Idle) (cam : CamRole) (l : List UInt8) : ∃ as t, exec (step signed) s as = some t ∧
    (∀ cam' ≠ cam, t.sent cam' = s.sent cam') ∧ t.sent cam <+: s.sent cam ++ l ∧
    (t.outside = true ∨ t.Idle ∧ t.sent cam = s.sent cam ++ l) := by
  induction l generalizing s with
  | nil => exact ⟨[], s, rfl, fun _ _ => rfl, by simp, Or.inr ⟨h, by simp⟩⟩
  | cons b l ih =>
    obtain ⟨as, t, hs, hsent, hend⟩ := exec_feed signed h cam b
    have hcam : t.sent cam = s.sent cam ++ [b] := (hsent cam).trans (if_pos rfl)
    have hother : ∀ cam' ≠ cam, t.sent cam' = s.sent cam' := fun cam' hne => (hsent cam').trans (if_neg hne)
    rcases hend with hout | hidle
    · refine ⟨as, t, hs, hother, ?_, Or.inl hout⟩
      rw [hcam]
      exact ⟨l, by simp⟩
    · obtain ⟨as', u, hu, hother', hsub, hend'⟩ := ih hidle
      have happ : t.sent cam ++ l = s.sent cam ++ b :: l := by rw [hcam]; simp
      rw [happ] at hsub hend'
      exact ⟨as ++ as', u, exec_append.mpr ⟨t, hs, hu⟩, fun cam' hne => (hother' cam' hne).trans (hother cam' hne), hsub, hend'⟩

/-! ### The streams that are framed -/

/-- Whatever part of the streams of the cameras arrives, and however it is cut into messages whose attributes fit the buffers
    of the handler (`BypFits`), everything goes right. -/
def ReceivesAll (signed : Bool) (ctx : CamRole → CamholderCtx) (stream : CamRole → List UInt8) : Prop :=
  ∀ as s, exec (step signed) (start ctx) as = some s → (∀ cam, s.sent cam <+: stream cam) → s.Right

theorem right_start (ctx : CamRole → CamholderCtx) : (start ctx).Right :=
  ⟨rfl, fun _ => ⟨[], rfl, rfl, rfl, Nat.zero_le 16⟩⟩

/-- The responses of every arrangement of the streams in messages that fit the buffers of the handler are framed exactly when
    no block of a stream is longer than `Rx_buf`. -/
theorem receivesAll_iff (signed : Bool) (ctx : CamRole → CamholderCtx) (stream : CamRole → List UInt8) :
    ReceivesAll signed ctx stream ↔ ∀ cam, Fits isEnd 16 (stream cam) := by
  constructor
  · intro h cam
    obtain ⟨as, t, hs, hother, hsub, hend⟩ := exec_feed_all signed (s := start ctx)
      ⟨rfl, fun _ => rfl, fun _ => rfl⟩ cam (stream cam)
    have hright : t.Right := by
      refine h as t hs fun cam' => ?_
      by_cases heq : cam' = cam
      · rw [heq]
        exact hsub
      · rw [hother cam' heq]
        exact List.nil_prefix
    rcases hend with hout | ⟨hidle, hsent⟩
    · rw [hright.1] at hout
      cases hout
    · obtain ⟨bytes, hbytes⟩ := hright.2 cam
      have hall := hbytes.sent
      rw [hidle.fifo, hidle.pending, hsent] at hall
      have heq : stream cam = bytes := by simpa [camBytes, start] using hall
      rw [heq]
      exact hbytes.fits
  · intro h as s hs hsub
    rcases right_exec (right_start ctx) hs with ⟨-, cam, bytes, hbytes, hnot⟩ | hright
    · exact absurd ((h cam).of_front (hbytes.trans (hsub cam))) hnot
    · exact hright

/-- A camera before its first command. -/
def idleCamera : CamholderCtx := ⟨⟨⟨0, 0, 0⟩, ⟨0, 0, 0⟩, .replicate 16 ⟨0, 0, 0⟩⟩, .replicate 16 0, 0, 0, 0, 0, 0⟩

/-- A message with seventeen bytes, none of which is 0xff, is read. -/
def noiseRun : List UartAct :=
  [.message .a [⟨ascii "Channel", ascii "0"⟩, ⟨ascii "RawBytes", .replicate 17 0⟩]] ++ .replicate 17 (.add .a) ++ .replicate 17 .read

/-- The last of its bytes is stored behind `Rx_buf`. -/
theorem noise_overruns_counterexample :
    (exec (step false) (start fun _ => idleCamera) noiseRun).map (fun s => (s.sent .teacher, s.sent .student, s.outside)) =
      some (.replicate 17 0, [], true) ∧
    ¬ ReceivesAll false (fun _ => idleCamera) fun _ => .replicate 17 0 := by
  have hrun : (exec (step false) (start fun _ => idleCamera) noiseRun).map (fun s => (s.sent .teacher, s.sent .student, s.outside)) =
      some (.replicate 17 0, [], true) := by decide +kernel
  refine ⟨hrun, fun h => ?_⟩
  obtain ⟨t, ht, heq⟩ := Option.map_eq_some_iff.mp hrun
  have hteacher : t.sent .teacher = .replicate 17 0 := congrArg Prod.fst heq
  have hstudent : t.sent .student = [] := congrArg (fun x => x.2.1) heq
  have hout : t.outside = true := congrArg (fun x => x.2.2) heq
  have hright : t.Right := by
    refine h noiseRun t ht fun cam => ?_
    cases cam with
    | teacher => rw [hteacher]
    | student =>
      rw [hstudent]
      exact List.nil_prefix
  rw [hright.1] at hout
  cases hout

end UartSys
end
end Recbcsrv
