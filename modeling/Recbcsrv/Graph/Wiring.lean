import Mathlib.Data.Fintype.OfMap
import Recbcsrv.Graph.Net

/-! The FIFOs that `main` sets up, and the threads that use them. -/

namespace Recbcsrv

/-- The threads; `main` itself handles the instructor. -/
inductive Thread where
  | main
  | coreA
  | coreASend
  | coreB
  | coreC
  | coreD
  | localsave
  | switchTracking
  | analyze
  | img
  deriving DecidableEq

instance : Fintype Thread :=
  .ofList [.main, .coreA, .coreASend, .coreB, .coreC, .coreD, .localsave, .switchTracking, .analyze, .img] fun t => by
    cases t <;> decide

/-- The producer FIFOs, named without `_producer_fifo`. -/
inductive ProducerFifo where
  | ctrl
  | loopback
  | vmuxStore
  | vmuxLive
  | vga
  | audio
  | v1
  | v2
  | v3
  | v4
  | v5
  | v6
  | imgM
  | imgV
  | img1
  | img2
  | img3
  | img4
  | img5
  | img6
  | eventA
  | eventB
  | eventC
  | eventD
  | eventAnalyze
  | uartTxA
  | uartTxB
  | uartTxC
  | uartRxA1
  | uartRxA2
  | uartRxB1
  | uartRxB2
  | uartRxC1
  | uartRxC2
  | switch
  | jpeg
  | pip
  | filteredImg
  deriving DecidableEq

/-- The consumer FIFOs, named without `_consumer_fifo`. -/
inductive ConsumerFifo where
  | ctrlA
  | ctrlB
  | ctrlC
  | ctrlD
  | ctrlLocalsave
  | ctrlSwitchTracking
  | v
  | img
  | instructor
  | filteredImg
  | uartRxA1
  | uartRxA2
  | uartRxB1
  | uartRxB2
  | uartRxC1
  | uartRxC2
  | uartTxA
  | uartTxB
  | uartTxC
  | event
  deriving DecidableEq

instance : Fintype ConsumerFifo :=
  .ofList [.ctrlA, .ctrlB, .ctrlC, .ctrlD, .ctrlLocalsave, .ctrlSwitchTracking, .v, .img, .instructor, .filteredImg,
    .uartRxA1, .uartRxA2, .uartRxB1, .uartRxB2, .uartRxC1, .uartRxC2, .uartTxA, .uartTxB, .uartTxC, .event] fun c => by
    cases c <;> decide

/-! ### Sizes -/

def vinbufSize : Nat := 1024 * 1024
def vinbufCnt : Nat := 3
def ainbufSize : Nat := 1024
def ainbufCnt : Nat := 10
def einbufSize : Nat := 1536
def einbufCnt : Nat := 10
def bypbufSize : Nat := 8
def bypbufCnt : Nat := 200
def imgbufSize : Nat := 72 * 1024
def imgbufCnt : Nat := 3

/-- The size and the number of the items of a producer FIFO. -/
def ProducerFifo.pool : ProducerFifo → Nat × Nat
  | .vmuxStore | .vmuxLive | .vga | .v1 | .v2 | .v3 | .v4 | .v5 | .v6 => (vinbufSize, vinbufCnt)
  | .audio => (ainbufSize, ainbufCnt)
  | .imgM | .imgV | .img1 | .img2 | .img3 | .img4 | .img5 | .img6 | .filteredImg => (imgbufSize, imgbufCnt)
  | .uartRxA1 | .uartRxA2 | .uartRxB1 | .uartRxB2 | .uartRxC1 | .uartRxC2 => (bypbufSize, bypbufCnt)
  | .jpeg | .pip => (einbufSize, 64 * einbufCnt)
  | .ctrl | .loopback | .eventA | .eventB | .eventC | .eventD | .eventAnalyze | .uartTxA | .uartTxB | .uartTxC
  | .switch => (einbufSize, einbufCnt)

/-- The number of the items of a consumer FIFO, which have no buffers. -/
def ConsumerFifo.cnt : ConsumerFifo → Nat
  | .ctrlA | .instructor => 64 * einbufCnt
  | .ctrlB | .ctrlC | .ctrlD | .ctrlLocalsave | .ctrlSwitchTracking => einbufCnt
  | .v => 8 * vinbufCnt
  | .img => 8 * imgbufCnt
  | .filteredImg => imgbufCnt
  | .uartRxA1 | .uartRxA2 | .uartRxB1 | .uartRxB2 | .uartRxC1 | .uartRxC2 => bypbufCnt
  | .uartTxA | .uartTxB | .uartTxC | .event => einbufCnt

/-- The calls of `datafifo_connect` in `main`, in their order. -/
def connections : List (ProducerFifo × ConsumerFifo) :=
  [(.ctrl, .ctrlA), (.switch, .ctrlA), (.pip, .ctrlA), (.ctrl, .ctrlB), (.ctrl, .ctrlC), (.ctrl, .ctrlD),
    (.ctrl, .ctrlLocalsave), (.ctrl, .ctrlSwitchTracking),
    (.vmuxStore, .v), (.vmuxLive, .v), (.vga, .v), (.audio, .v), (.v1, .v), (.v2, .v), (.v3, .v), (.v4, .v), (.v5, .v),
    (.v6, .v),
    (.imgM, .img), (.imgV, .img), (.img1, .img), (.img2, .img), (.img3, .img), (.img4, .img), (.img5, .img), (.img6, .img),
    (.jpeg, .instructor), (.loopback, .instructor), (.filteredImg, .filteredImg),
    (.uartRxA1, .uartRxA1), (.uartRxA2, .uartRxA2), (.uartRxB1, .uartRxB1), (.uartRxB2, .uartRxB2),
    (.uartRxC1, .uartRxC1), (.uartRxC2, .uartRxC2),
    (.uartTxA, .uartTxA), (.uartTxB, .uartTxB), (.uartTxC, .uartTxC),
    (.eventA, .event), (.eventB, .event), (.eventC, .event), (.eventD, .event), (.eventAnalyze, .event)]

/-! ### Threads -/

/-- The two tracked cameras. -/
inductive Camera where
  | teacher
  | student
  deriving DecidableEq

/-- `uart_channel`, as `thread_SwitchTracking` sets it. -/
def Camera.uartChannel : Camera → Nat
  | .teacher => 1
  | .student => 3

/-- The FIFO to which `CamhldCmdSend` adds a command for the camera. -/
def camhldCmdSend (camera : Camera) : List ProducerFifo :=
  (if camera.uartChannel = 1 ∨ camera.uartChannel = 2 then [.uartTxA] else []) ++
    (if camera.uartChannel = 3 ∨ camera.uartChannel = 4 then [.uartTxB] else []) ++
    (if camera.uartChannel = 5 ∨ camera.uartChannel = 6 then [.uartTxC] else [])

/-- The FIFOs for commands to the cameras. -/
def camhldFifos : List ProducerFifo := camhldCmdSend .teacher ++ camhldCmdSend .student

/-- The sections of a loop: `inbound` takes a message from the socket or computes something and adds to the FIFOs, a head
    is handled and taken off by `head`. -/
def inbound (producers : List ProducerFifo) : Section ProducerFifo ConsumerFifo := ⟨none, producers, .once⟩

def head (rounds : Rounds) (c : ConsumerFifo) (producers : List ProducerFifo) : Section ProducerFifo ConsumerFifo :=
  ⟨some c, producers, rounds⟩

/-- What a thread does in one turn of its loop. -/
def Thread.program : Thread → List (Section ProducerFifo ConsumerFifo)
  | .main => [head .once .instructor [], inbound [.ctrl]]
  | .coreA => [inbound [.imgM, .imgV, .audio, .vmuxStore, .vmuxLive, .eventA, .uartRxA1, .uartRxA2]]
  | .coreASend => [head .once .ctrlA [], head .once .uartTxA []]
  | .coreB => [inbound [.img1, .img2, .v1, .v2, .eventB, .uartRxB1, .uartRxB2], head .once .ctrlB [], head .once .uartTxB []]
  | .coreC => [inbound [.img3, .img4, .v3, .v4, .eventC, .uartRxC1, .uartRxC2], head .once .ctrlC [], head .once .uartTxC []]
  | .coreD => [inbound [.img5, .img6, .v5, .v6, .eventD], head .once .ctrlD []]
  | .localsave => [head .once .ctrlLocalsave [], head .once .v []]
  | .switchTracking =>
    -- The commands that set the cameras up, the answers of the cameras, control messages, events, and the transition.
    [inbound camhldFifos,
      head .breaks .uartRxA1 [], head .loop .uartRxA2 [], head .breaks .uartRxB1 [], head .loop .uartRxB2 [],
      head .loop .uartRxC1 [], head .loop .uartRxC2 [],
      head .loop .ctrlSwitchTracking (.switch :: camhldFifos), head .loop .event camhldFifos, inbound [.switch]]
  | .analyze => [head .once .filteredImg [.eventAnalyze]]
  | .img => [head .once .img [.jpeg, .pip, .filteredImg]]

/-- The FIFOs and threads of `main`. -/
def mainWiring : Wiring Thread ProducerFifo ConsumerFifo where
  psize p := p.pool.1
  pcnt p := p.pool.2
  csize _ := 0
  ccnt c := c.cnt
  connections := connections
  program := Thread.program

end Recbcsrv
