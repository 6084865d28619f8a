import Recbcsrv.Graph.Wiring
import Recbcsrv.Message.Copies

/-! Waiting in a circle. `thread_coreB` adds events for `thread_SwitchTracking` and takes camera commands from it in one
    loop, `thread_img` and `main` do the like with pictures and control messages, and all FIFOs are bounded. Every
    other chain of waiting threads comes to an end. -/

namespace Recbcsrv
open WaitFor

/-! ### No other circle -/

/-- Threads wait for threads of lower rank, but for the commands to `thread_coreB` and the pictures to `main`. -/
def Thread.rank : Thread → Nat
  | .coreASend | .localsave => 0
  | .switchTracking => 1
  | .analyze => 2
  | .img => 3
  | .coreA | .coreB | .coreC | .coreD => 4
  | .main => 5

theorem mainWiring_rank : ∀ e ∈ mainWiring.connections, ∀ t u, mainWiring.Writes t e.1 → mainWiring.Reads u e.2 →
    u.rank < t.rank ∨ t = .switchTracking ∧ e.1 = .uartTxB ∧ u = .coreB ∨ t = .img ∧ e.1 = .jpeg ∧ u = .main := by
  decide +kernel

/-- Neither of the waits against the ranks is for a thread that waits itself. -/
structure Net.Descending (s : Net Thread ProducerFifo ConsumerFifo) : Prop where
  uartTxB : s.WaitsAt mainWiring .switchTracking .uartTxB .coreB → ¬ Blocked (s.Waits mainWiring) .coreB
  jpeg : s.WaitsAt mainWiring .img .jpeg .main → ¬ Blocked (s.Waits mainWiring) .main

/-- In a state of any run in which these two waits do no harm, no threads wait in a circle. -/
theorem Net.not_deadlock {as : List (NetAction Thread ProducerFifo)} {s : Net Thread ProducerFifo ConsumerFifo}
    (h : Exec.exec (Net.step mainWiring) (Net.start mainWiring) as = some s) (hdesc : s.Descending) :
    ¬ Deadlock (s.Waits mainWiring) := by
  have hgood : s.Good mainWiring := .exec h
  refine not_deadlock_of_rank Thread.rank fun t u ⟨p, hw⟩ hblocked => ?_
  obtain ⟨hwrites, c, hconn, hreads⟩ := hgood.waitsAt hw
  rcases mainWiring_rank (p, c) hconn t u hwrites hreads with hlt | ⟨rfl, rfl, rfl⟩ | ⟨rfl, rfl, rfl⟩
  · exact hlt
  · exact absurd hblocked (hdesc.uartTxB hw)
  · exact absurd hblocked (hdesc.jpeg hw)

/-! ### The circle of the device thread and the director -/

section
variable {s : Net Thread ProducerFifo ConsumerFifo} {t v : Thread} {p : ProducerFifo} {c : ConsumerFifo} {call call' : Call}

/-- A thread that finds the pool of a FIFO full waits for the reader of the one consumer connected to it. -/
theorem Net.waits_iff_of_alloc (busy : (s.pc t).busy = some (.add p call)) (pc : s.sys.ppc p = .alloc call')
    (full : (s.sys.producer p).Full) (conn : (s.sys.producer p).consumers = [c])
    (reads : ∀ u, mainWiring.Reads u c ↔ u = v) (u : Thread) : s.Waits mainWiring t u ↔ u = v := by
  constructor
  · rintro ⟨q, hw⟩
    cases hw with
    | producer call₂ call₃ c' busy₂ pc₂ full₂ mem hr =>
      obtain rfl : p = q := by
        rw [busy] at busy₂
        cases busy₂
        rfl
      rw [conn, List.mem_singleton] at mem
      exact (reads u).mp (mem ▸ hr)
    | consumer call₂ k item c' rest busy₂ pc₂ =>
      rw [busy] at busy₂
      cases busy₂
      rw [pc] at pc₂
      cases pc₂
  · rintro rfl
    exact ⟨p, .producer call call' c busy pc full (conn ▸ List.mem_singleton_self c) ((reads u).mpr rfl)⟩

end

/-- A message with its header. -/
def whole (cmd body : List UInt8) : Call :=
  ⟨ascii "01" ++ cmd ++ printX0 4 body.length ++ body, frameFlagNewframe ||| frameFlagFrameend, 0⟩

/-- An event of a device. -/
def eventMsg : Call := whole (ascii "0023") []

/-- The control message for a zoom of the student camera. -/
def zoomMsg : Call := whole (ascii "0000") (ascii "40001CZWS0")

/-- `CamhldCmdSend` of raw bytes to the first channel of a device. -/
def camhldMsg (raw : List UInt8) : Call :=
  whole (ascii "0012") (ascii "70001Channel0" ++ ascii "8" ++ printX0 4 raw.length ++ ascii "RawBytes" ++ raw)

def recallMsg : Call := camhldMsg [0x81, 0x01, 0x04, 0x3f, 0x02, 0x00, 0xff]

def zoomDirectMsg : Call := camhldMsg [0x81, 0x01, 0x04, 0x47, 0x00, 0x00, 0x00, 0x00, 0xff]

/-- A thread begins a section with the calls `adds` and makes `n` steps. -/
def goes (t : Thread) (adds : List (ProducerFifo × Call)) (n : Nat) : List (NetAction Thread ProducerFifo) :=
  .turn t adds false :: List.replicate n (.go t)

/-- Device B sends ten events before the director looks at any, and an eleventh. -/
def eventBurst : List (NetAction Thread ProducerFifo) :=
  (List.replicate 10 (goes .coreB [(.eventB, eventMsg)] 25 ++ goes .coreB [] 0 ++ goes .coreB [] 0)).flatten ++
    goes .coreB [(.eventB, eventMsg)] 1

/-- The instructor zooms ten times in one message, and the director, which has just set up its cameras, obeys. -/
def zoomBurst : List (NetAction Thread ProducerFifo) :=
  goes .main [] 0 ++ goes .main (List.replicate 10 (.ctrl, zoomMsg)) 800 ++
    goes .switchTracking [(.uartTxA, recallMsg), (.uartTxB, recallMsg)] 50 ++
    (List.replicate 6 (goes .switchTracking [] 0)).flatten ++
    (List.replicate 9 (goes .switchTracking [(.uartTxB, zoomDirectMsg)] 30)).flatten ++
    goes .switchTracking [(.uartTxB, zoomDirectMsg)] 1

/-- Where the two threads stand after the events. -/
theorem eventBurst_exec : (Exec.exec (Net.step mainWiring) (Net.start mainWiring) eventBurst).any (fun s =>
    (s.pc .switchTracking).busy = none ∧ (s.pc .img).busy = none ∧ (s.pc .coreB).busy = some (.add .eventB eventMsg) ∧
      s.sys.ppc .eventB = .alloc eventMsg) = true := by
  decide +kernel

theorem zoomBurst_exec : (Exec.exec (Net.step mainWiring) (Net.start mainWiring) (eventBurst ++ zoomBurst)).any (fun s =>
    ((s.pc .coreB).busy = some (.add .eventB eventMsg) ∧ s.sys.ppc .eventB = .alloc eventMsg ∧
      (s.sys.producer .eventB).freeItem? = none ∧ (s.sys.producer .eventB).consumers = [.event]) ∧
    (s.pc .switchTracking).busy = some (.add .uartTxB zoomDirectMsg) ∧ s.sys.ppc .uartTxB = .alloc zoomDirectMsg ∧
      (s.sys.producer .uartTxB).freeItem? = none ∧ (s.sys.producer .uartTxB).consumers = [.uartTxB]) = true := by
  decide +kernel

theorem reads_event : ∀ u, mainWiring.Reads u .event ↔ u = .switchTracking := by decide +kernel

theorem reads_uartTxB : ∀ u, mainWiring.Reads u .uartTxB ↔ u = .coreB := by decide +kernel

/-- After the bursts each of the two threads waits for the other one, and for nobody else. -/
theorem Net.deadlock_burst : ∃ as s, Exec.exec (Net.step mainWiring) (Net.start mainWiring) as = some s ∧
    (∀ u, s.Waits mainWiring .coreB u ↔ u = .switchTracking) ∧ (∀ u, s.Waits mainWiring .switchTracking u ↔ u = .coreB) ∧
    Deadlock (s.Waits mainWiring) := by
  obtain ⟨s, hs, h⟩ := (Option.any_eq_true ..).mp zoomBurst_exec
  obtain ⟨⟨bbusy, bpc, bfull, bconn⟩, tbusy, tpc, tfull, tconn⟩ := of_decide_eq_true h
  have hB := waits_iff_of_alloc bbusy bpc (Datafifo.freeItem?_eq_none.mp bfull) bconn reads_event
  have hT := waits_iff_of_alloc tbusy tpc (Datafifo.freeItem?_eq_none.mp tfull) tconn reads_uartTxB
  exact ⟨eventBurst ++ zoomBurst, s, hs, hB, hT, deadlock_of_pair ((hB _).mpr rfl) ((hT _).mpr rfl)⟩

/-- After the events device B waits and the run is not in a circle. -/
theorem Net.not_deadlock_eventBurst : ∃ s, Exec.exec (Net.step mainWiring) (Net.start mainWiring) eventBurst = some s ∧
    s.sys.ppc .eventB = .alloc eventMsg ∧ s.Descending ∧ ¬ Deadlock (s.Waits mainWiring) := by
  obtain ⟨s, hs, h⟩ := (Option.any_eq_true ..).mp eventBurst_exec
  obtain ⟨tbusy, ibusy, -, bpc⟩ := of_decide_eq_true h
  have hidle : ∀ {t p u}, (s.pc t).busy = none → ¬ s.WaitsAt mainWiring t p u := fun hnone hw => by
    obtain ⟨call, hbusy⟩ := hw.busy
    rw [hnone] at hbusy
    cases hbusy
  have hdesc : s.Descending := ⟨fun hw => absurd hw (hidle tbusy), fun hw => absurd hw (hidle ibusy)⟩
  exact ⟨s, hs, bpc, hdesc, Net.not_deadlock hs hdesc⟩

end Recbcsrv
