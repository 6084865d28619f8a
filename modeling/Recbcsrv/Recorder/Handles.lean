import Recbcsrv.Recorder.Localsave

/-! The files of the recorder. As long as the statuses and the handles agree, every call is made on a handle in the right
    state. An exit request during a session breaks this without `IsResouceMode`, when the files of the channels that were
    never opened are closed. -/

namespace Recbcsrv
open Bytes

/-- A handle with this status is open. -/
def LocalsaveStatus.holds (s : LocalsaveStatus) : Bool := s != .idle && s != .start

namespace Recorder

/-- The handles that are open by the statuses. -/
def holding (r : Recorder) (h : Handle) : Bool := (r.status h).holds

/-- The calls so far were all allowed, and have left open what the statuses say. -/
def Sound (r : Recorder) : Prop := Exec.exec Files.step Files.closed r.log = some r.holding

variable {r r' : Recorder} {ops : List FileOp} {c : Channel} {f : AvFrame} {mode : Int} {p : LocalsaveStatus → Prop}
  {s : LocalsaveStatus} {b : Bool}

@[simp] theorem holding_vfd : r.holding .vfd = r.vstore.holds := rfl

@[simp] theorem holding_afd : r.holding .afd = r.vstore.holds := rfl

@[simp] theorem holding_pfd : r.holding .pfd = r.vstore.holds := rfl

@[simp] theorem holding_fd : r.holding (.fd c) = (r.channel c).holds := rfl

theorem sound_init : init.Sound := by
  have hclosed : (Files.closed : Handle → Bool) = init.holding := funext fun h => by cases h <;> rfl
  exact congrArg some hclosed

theorem Sound.emit (hr : r.Sound) (ops : List FileOp) (hlog : r'.log = r.log ++ ops)
    (hops : Exec.exec Files.step r.holding ops = some r'.holding) : r'.Sound := by
  unfold Sound
  rw [hlog]
  exact Exec.exec_append.mpr ⟨_, hr, hops⟩

theorem Sound.same (hr : r.Sound) (hlog : r'.log = r.log) (hholds : ∀ h, r'.holding h = r.holding h) : r'.Sound := by
  refine hr.emit [] (hlog.trans (List.append_nil _).symm) ?_
  rw [funext hholds]
  rfl

theorem startVstore_sound (hr : r.Sound) : r.startVstore.Sound := by
  unfold startVstore
  split
  · next hstart =>
    have hclosed : r.vstore.holds = false := by
      rw [hstart]
      rfl
    refine hr.emit [.fopen .vfd, .fopen .afd, .fopen .pfd] rfl ?_
    refine Exec.exec_cons.mpr ⟨_, Files.step_fopen.mpr ⟨hclosed, rfl⟩, ?_⟩
    refine Exec.exec_cons.mpr ⟨_, Files.step_fopen.mpr ⟨hclosed, rfl⟩, ?_⟩
    refine Exec.exec_cons.mpr ⟨_, Files.step_fopen.mpr ⟨hclosed, rfl⟩, congrArg some (funext fun h => ?_)⟩
    cases h <;> rfl
  · exact hr

theorem stopVstore_sound (hr : r.Sound) : r.stopVstore.Sound := by
  unfold stopVstore
  split
  · next hstop =>
    have hopen : r.vstore.holds = true := by
      rw [hstop]
      rfl
    refine hr.emit [.fclose .afd, .fclose .vfd, .write .pfd (.marker (.stop r.frameCount)), .fclose .pfd] rfl ?_
    refine Exec.exec_cons.mpr ⟨_, Files.step_fclose.mpr ⟨hopen, rfl⟩, ?_⟩
    refine Exec.exec_cons.mpr ⟨_, Files.step_fclose.mpr ⟨hopen, rfl⟩, ?_⟩
    refine Exec.exec_cons.mpr ⟨_, Files.step_write.mpr ⟨hopen, rfl⟩, ?_⟩
    refine Exec.exec_cons.mpr ⟨_, Files.step_fclose.mpr ⟨hopen, rfl⟩, congrArg some (funext fun h => ?_)⟩
    cases h <;> rfl
  · exact hr

/-- The handles after a change of the status of one channel. -/
theorem holding_update : (Function.update r.holding (.fd c) s.holds : Handle → Bool) =
    holding { r with channel := Function.update r.channel c s } := by
  funext h
  cases h with
  | fd d =>
    by_cases hd : d = c
    · subst hd
      simp
    · have hne : Handle.fd d ≠ .fd c := fun e => hd (Handle.fd.inj e)
      rw [Function.update_of_ne hne, holding_fd, holding_fd]
      exact congrArg LocalsaveStatus.holds (Function.update_of_ne (f := r.channel) hd s).symm
  | _ => rfl

theorem startChannel_sound (hr : r.Sound) : (r.startChannel c).Sound := by
  unfold startChannel moveChannel
  split
  · next hstart =>
    refine hr.emit [.fopen (.fd c)] rfl (Exec.exec_cons.mpr ⟨_, Files.step_fopen.mpr ⟨?_, rfl⟩, ?_⟩)
    · rw [holding_fd, hstart]
      rfl
    · exact congrArg some (holding_update (s := .resume))
  · exact hr

theorem stopChannel_sound (hr : r.Sound) : (r.stopChannel c).Sound := by
  unfold stopChannel moveChannel
  split
  · next hstop =>
    refine hr.emit [.fclose (.fd c)] rfl (Exec.exec_cons.mpr ⟨_, Files.step_fclose.mpr ⟨?_, rfl⟩, ?_⟩)
    · rw [holding_fd, hstop]
      rfl
    · exact congrArg some (holding_update (s := .idle))
  · exact hr

theorem handle_sound (hr : r.Sound) : r.handleStart.handleStop.Sound := by
  have hvlive : ∀ (r : Recorder) (s : LocalsaveStatus), r.Sound → Sound { r with vlive := s } := fun r s hr =>
    hr.same rfl fun h => by cases h <;> rfl
  have hstart : r.handleStart.Sound := by
    rw [handleStart]
    exact List.foldlRecOn Channel.list startChannel (hvlive _ _ (startVstore_sound hr)) fun r hr c _ => startChannel_sound hr
  rw [handleStop]
  exact List.foldlRecOn Channel.list stopChannel (hvlive _ _ (stopVstore_sound hstart)) fun r hr c _ => stopChannel_sound hr

theorem storeFrame_sound (hr : r.Sound) : (r.storeFrame f).Sound := by
  have hresume : ∀ r : Recorder, r.Sound → Sound (if r.vstore = .resume ∧ f.startsStream then
      { r.emit [.write .pfd (.marker (.resume r.frameCount))] with vstore := .working } else r) := by
    intro r hr
    split
    · next h =>
      refine hr.emit [.write .pfd (.marker (.resume r.frameCount))] rfl
        (Exec.exec_cons.mpr ⟨_, Files.step_write.mpr ⟨?_, rfl⟩, congrArg some (funext fun h' => ?_)⟩)
      · rw [holding_pfd, h.1]
        rfl
      · have hsame : r.vstore.holds = LocalsaveStatus.working.holds := by
          rw [h.1]
          rfl
        cases h' with
        | fd d => rfl
        | _ => exact hsame
    · exact hr
  have hwrite : ∀ r : Recorder, r.Sound → Sound (if r.vstore = .working then r.emit [.write .vfd (.store r.frameCount f)] else r) := by
    intro r hr
    split
    · next h =>
      refine hr.emit [.write .vfd (.store r.frameCount f)] rfl
        (Exec.exec_cons.mpr ⟨_, Files.step_write.mpr ⟨?_, rfl⟩, congrArg some (funext fun h' => ?_)⟩)
      · rw [holding_vfd, h]
        rfl
      · cases h' <;> rfl
    · exact hr
  exact (hwrite _ (hresume r hr)).same rfl fun h => by cases h <;> rfl

theorem channelFrame_sound (hr : r.Sound) : (r.channelFrame c f).Sound := by
  have hwrite : ∀ r : Recorder, r.Sound → Sound (if r.channel c = .working then r.emit [.write (.fd c) (.other f)] else r) := by
    intro r hr
    split
    · next h =>
      refine hr.emit [.write (.fd c) (.other f)] rfl
        (Exec.exec_cons.mpr ⟨_, Files.step_write.mpr ⟨?_, rfl⟩, congrArg some (funext fun h' => ?_)⟩)
      · rw [holding_fd, h]
        rfl
      · cases h' <;> rfl
    · exact hr
  refine hwrite _ ?_
  split
  · next h =>
    refine hr.same rfl fun h' => ?_
    rw [← holding_update (s := .working)]
    by_cases he : h' = .fd c
    · rw [he, Function.update_self, holding_fd, h.1]
      rfl
    · rw [Function.update_of_ne he]
  · exact hr

theorem audioFrame_sound (hr : r.Sound) : (r.audioFrame f).Sound := by
  unfold audioFrame
  split
  · next h =>
    refine hr.emit [.write .afd (.other f)] rfl
      (Exec.exec_cons.mpr ⟨_, Files.step_write.mpr ⟨?_, rfl⟩, congrArg some (funext fun h' => ?_)⟩)
    · rw [holding_afd, h]
      rfl
    · cases h' <;> rfl
  · exact hr

theorem handleFrame_sound (hr : r.Sound) : (r.handleFrame f).Sound := by
  unfold handleFrame
  split
  · exact storeFrame_sound hr
  · unfold liveFrame
    split
    · exact hr.same rfl fun h => by cases h <;> rfl
    · exact hr
  · exact channelFrame_sound hr
  · exact audioFrame_sound hr

/-- The statuses are all changed to one that says the same about the handles. -/
theorem Sound.setAll (hr : r.Sound) (hall : All mode p r) (hp : ∀ s, p s → s.holds = b) (hs : s.holds = b) :
    (r.setAll mode s).Sound := by
  refine hr.same rfl fun h => ?_
  have hvstore : s.holds = r.vstore.holds := hs.trans (hp _ hall.vstore).symm
  cases h with
  | fd c =>
    have hnew := hall.setAll s
    by_cases hmode : mode = 0
    · rw [holding_fd, holding_fd, hnew.off hmode, hall.off hmode]
    · rw [holding_fd, holding_fd, hnew.channel hmode, hs, hp _ (hall.channel hmode c)]
  | _ => exact hvstore

end Recorder

end Recbcsrv
