import Recbcsrv.Datafifo.Assembly

/-! The frames that the consumers get, told from the calls of a producer and the values that these returned: a call with
    `NEWFRAME` opens a frame, and the bytes of the accepted calls up to the end of the frame are its bytes. -/

set_option linter.unusedSectionVars false

namespace Recbcsrv
open Datafifo

variable {P C : Type}

/-! ### Calls and what they returned -/

/-- A call of `datafifo_producer_data_add` and the value that it returned. -/
structure Returned where
  call : Call
  ret : Int
  deriving DecidableEq, Repr

namespace Returned

def opens (x : Returned) : Bool := hasFlag x.call.flags frameFlagNewframe
def ends (x : Returned) : Bool := hasFlag x.call.flags frameFlagFrameend
def accepted (x : Returned) : Bool := x.ret = 0

/-- The calls up to the one that ends the frame. -/
def upToEnd : List Returned → List Returned
  | [] => []
  | x :: l => if x.ends then [x] else x :: upToEnd l

/-- The accepted calls of the frame that `x` opens, of which `l` are the calls behind `x`: up to the end of the frame or
    the next one. -/
def pieces (x : Returned) (l : List Returned) : List Returned :=
  upToEnd ((x :: l.takeWhile fun y => !y.opens).filter accepted)

/-- The bytes of calls, one after the other. -/
def bytes (l : List Returned) : List UInt8 := l.flatMap fun y => y.call.data

/-- A frame of these bytes with the flags and the timestamp of its opening call. -/
def frame (x : Returned) (data : List UInt8) : Frame where
  data := data
  len := data.length
  flags := (if hasFlag x.call.flags frameFlagFirstframe then frameFlagFirstframe else 0) |||
    if hasFlag x.call.flags frameFlagKeyframe then frameFlagKeyframe else 0
  timestamp := x.call.timestamp

/-- The frame that `x` opens, if it was ended or another one followed. The first frame of a stream empties it. -/
def frameOf (x : Returned) (l : List Returned) : Option Frame :=
  if (pieces x l).any ends then some (x.frame (bytes (pieces x l)))
  else (l.find? opens).map fun next =>
    x.frame (if hasFlag next.call.flags frameFlagFirstframe then [] else bytes (pieces x l))

/-- The frames of a sequence of calls. -/
def frames : List Returned → List Frame
  | [] => []
  | x :: l => if x.opens then (frameOf x l).toList ++ frames l else frames l

/-- How the calls `l` complete a frame that is being filled. -/
def complete : Frame → List Returned → Option Frame
  | _, [] => none
  | f, x :: l =>
    if x.opens then some (f.flush x.call.flags)
    else if !x.accepted then complete f l
    else if x.ends then some (f.grow x.call.data)
    else complete (f.grow x.call.data) l

variable {x : Returned} {l : List Returned} {f : Frame}

theorem frame_grow (data data' : List UInt8) : (x.frame data).grow data' = x.frame (data ++ data') := by
  simp [frame, Frame.grow]

theorem frame_flush (data : List UInt8) (flags : Nat) :
    (x.frame data).flush flags = x.frame (if hasFlag flags frameFlagFirstframe then [] else data) := by
  rw [Frame.flush]
  split <;> rfl

theorem opened_eq_frame : x.call.opened = x.frame [] := by
  simp only [Call.opened, Mark.all, List.foldl_cons, List.foldl_nil, Mark.onFrame, frame]
  split <;> split <;> simp

/-- The accepted calls of `l` that belong to an open frame. -/
def rest (l : List Returned) : List Returned := upToEnd ((l.takeWhile fun y => !y.opens).filter accepted)

theorem complete_eq (data : List UInt8) : complete (x.frame data) l =
    if (rest l).any ends then some (x.frame (data ++ bytes (rest l)))
    else (l.find? opens).map fun next =>
      x.frame (if hasFlag next.call.flags frameFlagFirstframe then [] else data ++ bytes (rest l)) := by
  induction l generalizing data with
  | nil => rfl
  | cons y l ih =>
    by_cases hopens : y.opens
    · simp [complete, rest, upToEnd, hopens, bytes, frame_flush]
    · have hfind : (y :: l).find? opens = l.find? opens := List.find?_cons_of_neg hopens
      by_cases hacc : y.accepted
      · by_cases hends : y.ends
        · simp [complete, rest, upToEnd, hopens, hacc, hends, bytes, frame_grow]
        · have hrest : rest (y :: l) = y :: rest l := by simp [rest, upToEnd, hopens, hacc, hends]
          have hbytes : bytes (y :: rest l) = y.call.data ++ bytes (rest l) := rfl
          rw [hfind, hrest, complete, if_neg hopens, if_neg (by simp [hacc]), if_neg hends, frame_grow, ih, hbytes]
          simp [hends]
      · have hrest : rest (y :: l) = rest l := by simp [rest, hopens, hacc]
        rw [hfind, hrest, complete, if_neg hopens, if_pos (by simp [hacc]), ih]

/-- The frame that a call opens is the one that this call and the ones behind it complete. -/
theorem frameOf_eq : frameOf x l =
    if !x.accepted then complete (x.frame []) l
    else if x.ends then some ((x.frame []).grow x.call.data)
    else complete ((x.frame []).grow x.call.data) l := by
  rw [frame_grow, List.nil_append, complete_eq, complete_eq, frameOf]
  by_cases hacc : x.accepted
  · by_cases hends : x.ends
    · simp [pieces, upToEnd, hacc, hends, bytes]
    · have hpieces : pieces x l = x :: rest l := by simp [pieces, rest, upToEnd, hacc, hends]
      have hbytes : bytes (x :: rest l) = x.call.data ++ bytes (rest l) := rfl
      simp [hpieces, hacc, hends, hbytes]
  · have hpieces : pieces x l = rest l := by simp [pieces, rest, hacc]
    simp [hpieces, hacc]

end Returned

/-! ### What the calls return -/

namespace Assembly

/-- What a call returns that finds the frame `f` being filled. -/
def fitRet (maxlen : Nat) (f : Frame) (call : Call) : Int := if f.len + call.data.length > maxlen then -5 else 0

/-- What `datafifo_producer_data_add` returns. -/
def ret (maxlen : Nat) (a : Assembly) (call : Call) : Int :=
  if hasFlag call.flags frameFlagNewframe then fitRet maxlen call.opened call
  else
    match a.filling with
    | none => -4
    | some f => fitRet maxlen f call

/-- Calls with what they return, one after the other. -/
def returns (maxlen : Nat) : Assembly → List Call → List Returned
  | _, [] => []
  | a, call :: calls => ⟨call, a.ret maxlen call⟩ :: returns maxlen (a.dataAdd maxlen call) calls

variable {maxlen : Nat} {a : Assembly} {f : Frame} {x : Returned} {l : List Returned}

/-- The frames that are completed from `a` on by the calls `l`. -/
def onward (a : Assembly) (l : List Returned) : List Frame :=
  a.completed ++ (a.filling.bind fun f => Returned.complete f l).toList ++ Returned.frames l

/-- The bytes of a call that finds a frame being filled go to it if the call is accepted. -/
theorem onward_fill (hret : x.ret = fitRet maxlen f x.call) : (fill maxlen ⟨a.completed, some f⟩ x.call).onward l =
    a.completed ++ (if !x.accepted then Returned.complete f l
      else if x.ends then some (f.grow x.call.data)
      else Returned.complete (f.grow x.call.data) l).toList ++ Returned.frames l := by
  by_cases hlong : f.len + x.call.data.length > maxlen
  · have hacc : x.accepted = false := by simp [Returned.accepted, hret, fitRet, hlong]
    simp [fill, hlong, hacc, onward]
  · have hacc : x.accepted = true := by simp [Returned.accepted, hret, fitRet, hlong]
    by_cases hends : x.ends
    · have hend : hasFlag x.call.flags frameFlagFrameend = true := hends
      simp [fill, hlong, hacc, hends, close, hend, onward]
    · have hend : ¬hasFlag x.call.flags frameFlagFrameend = true := hends
      simp [fill, hlong, hacc, hends, close, hend, onward]

/-- A call does to the frames what it and its result tell. -/
theorem onward_dataAdd (hret : x.ret = a.ret maxlen x.call) : (a.dataAdd maxlen x.call).onward l = a.onward (x :: l) := by
  by_cases hopens : x.opens
  · have hnew : hasFlag x.call.flags frameFlagNewframe = true := hopens
    rw [ret, if_pos hnew] at hret
    have hfill := onward_fill (a := a.flush x.call.flags) (l := l) hret
    have hflush : (a.filling.bind fun f => Returned.complete f (x :: l)) = a.filling.map (·.flush x.call.flags) := by
      cases a.filling <;> simp [Returned.complete, hopens]
    rw [dataAdd, if_pos hnew]
    refine hfill.trans ?_
    rw [onward, hflush, Returned.frames, if_pos hopens, Returned.frameOf_eq, ← Returned.opened_eq_frame, flush,
      List.append_assoc _ (Option.toList _) (Returned.frames l)]
  · have hnew : ¬hasFlag x.call.flags frameFlagNewframe = true := hopens
    rw [ret, if_neg hnew] at hret
    have hright : a.onward (x :: l) =
        a.completed ++ (a.filling.bind fun f => Returned.complete f (x :: l)).toList ++ Returned.frames l := by
      rw [onward, Returned.frames, if_neg hopens]
    rw [dataAdd, if_neg hnew, hright]
    cases hf : a.filling with
    | none => simp [fill, hf, onward]
    | some f =>
      rw [hf] at hret
      have ha : a = ⟨a.completed, some f⟩ := by rw [← hf]
      have hcomplete : Returned.complete f (x :: l) = if !x.accepted then Returned.complete f l
          else if x.ends then some (f.grow x.call.data)
          else Returned.complete (f.grow x.call.data) l := by
        rw [Returned.complete, if_neg hopens]
      rw [Option.bind_some, hcomplete, ← onward_fill hret, ← ha]

/-- The frames that calls complete are those that these and their results tell. -/
theorem completed_foldl (calls : List Call) :
    (calls.foldl (dataAdd maxlen) a).completed = a.onward (returns maxlen a calls) := by
  induction calls generalizing a with
  | nil =>
    rw [List.foldl_nil, returns, onward, Returned.frames, List.append_nil]
    cases a.filling <;> simp [Returned.complete]
  | cons call calls ih => rw [List.foldl_cons, ih, returns, ← onward_dataAdd rfl]

end Assembly

/-! ### The returns of a run -/

/-- What the next step of a thread returns from the call of `p`, if it ends it. -/
def Sys.returns [DecidableEq P] (s : Sys P C) (p : P) : Action P C → Option Int
  | .producer q =>
    if q = p then
      match s.ppc p with
      | .tail _ => (s.producer p).listtail.bind fun t =>
        if ((s.producer p).items t).status ≠ .filling then some (-4) else none
      | .room call => (s.producer p).listtail.bind fun t =>
        if ((s.producer p).items t).len + call.data.length > (s.producer p).dataMaxlen then some (-5) else none
      | .close call => if hasFlag call.flags frameFlagFrameend then none else some 0
      | .check .finish => some 0
      | _ => none
    else none
  | _ => none

/-- What the calls of `p` return in a run, in order. -/
def returned [DecidableEq P] [DecidableEq C] (p : P) : Sys P C → List (Action P C) → List Int
  | _, [] => []
  | s, a :: as => (s.returns p a).toList ++
    match s.step a with
    | none => []
    | some t => returned p t as

namespace View

/-- What a call will return that goes on at `k`. -/
def answerOn (v : View P C) (p : P) : Cont → Int
  | .newframe call cur => Assembly.fitRet (v.producer p).dataMaxlen (Mark.all.foldl (Mark.onFrame call) (v.frame p cur)) call
  | .finish => 0

/-- What the call of `p` will return, for a thread at `pc`. -/
def answerAt (v : View P C) (p : P) : ProducerPc C → Option Int
  | .idle => none
  | .alloc call => some (Assembly.fitRet (v.producer p).dataMaxlen call.opened call)
  | .flush call cur => some (v.answerOn p (.newframe call cur))
  | .addto k _ _ | .fill k _ _ _ _ _ | .link k _ _ _ _ | .check k => some (v.answerOn p k)
  | .mark call cur todo =>
    some (Assembly.fitRet (v.producer p).dataMaxlen (todo.foldl (Mark.onFrame call) (v.frame p cur)) call)
  | .tail call | .room call =>
    some (match (v.producer p).filling? with
      | none => -4
      | some t => Assembly.fitRet (v.producer p).dataMaxlen (v.frame p t) call)
  | .copy _ | .grow _ | .close _ => some 0

/-- What the call of `p` that is going on will return. -/
def answer (v : View P C) (p : P) : Option Int := v.answerAt p (v.ppc p)

section
variable [DecidableEq P] [DecidableEq C] {v w : View P C} {a : Action P C} {p : P} {done : List Frame}

theorem answer_eq {pc : ProducerPc C} (h : v.ppc p = pc) : v.answer p = v.answerAt p pc := by rw [answer, h]

theorem answerOn_congr (hmax : (w.producer p).dataMaxlen = (v.producer p).dataMaxlen)
    (hf : ∀ i, SameFrame (v.producer p) (w.producer p) i) {k : Cont} : w.answerOn p k = v.answerOn p k := by
  cases k with
  | newframe call cur => simp only [answerOn, hmax, frame, (hf cur).frame]
  | finish => rfl

theorem SameFrames.answerAt (h : SameFrames v w p) {pc : ProducerPc C} : w.answerAt p pc = v.answerAt p pc := by
  cases pc <;> simp only [View.answerAt, answerOn_congr h.dataMaxlen h.frames, h.dataMaxlen, View.frame,
    (h.frames _).frame, h.filling?]

end
end View

namespace Sys
open View
variable [DecidableEq P] [DecidableEq C] [Fintype C] {s t : Sys P C} {w : View P C} {p : P} {a : Action P C}
  {as : List (Action P C)} {log log' : List (Event P C)}

/-- A step of the thread of `p` returns what the call was to return, or leaves it so. -/
theorem Ok.answer_own (h : s.Ok) (hst : View.Step s.view (.producer p) w) :
    (s.returns p (.producer p)).toList ++ (w.answer p).toList = (s.view.answer p).toList := by
  have hI := h.inv.prod p
  have hlast : ∀ {t}, (s.view.producer p).list.getLast? = some t → (s.producer p).listtail = some t :=
    fun ht => (h.producer p).listtail.trans ht
  -- A step in the middle of a call.
  have hon : ∀ {pc pc'}, s.view.ppc p = pc → s.returns p (.producer p) = none → w.ppc p = pc' →
      w.answerAt p pc' = s.view.answerAt p pc →
      (s.returns p (.producer p)).toList ++ (w.answer p).toList = (s.view.answer p).toList := fun hpc hr hpc' he => by
    rw [hr, Option.toList_none, List.nil_append, answer_eq hpc', answer_eq hpc, he]
  -- The last step of a call.
  have hend : ∀ {pc r}, s.view.ppc p = pc → s.returns p (.producer p) = some r → w.ppc p = .idle →
      s.view.answerAt p pc = some r →
      (s.returns p (.producer p)).toList ++ (w.answer p).toList = (s.view.answer p).toList := fun hpc hr hpc' he => by
    rw [hr, answer_eq hpc', answer_eq hpc, he]
    rfl
  have hpc : ∀ {pc}, s.view.ppc p = pc → s.ppc p = pc := id
  have hprod : ∀ F pc, ((s.view.setProducer p F).setPpc p pc).producer p = F := fun _ _ => Function.update_self ..
  -- An assignment to an item that concerns no frame.
  have hset : ∀ {f : DatafifoItem P → DatafifoItem P} {i pc k}, (∀ it, (f it).data = it.data ∧ (f it).len = it.len ∧
      (f it).flags = it.flags ∧ (f it).timestamp = it.timestamp) →
      ((s.view.setProducer p ((s.view.producer p).set i f)).setPpc p pc).answerOn p k =
        s.view.answerOn p k := fun hf => by
    refine answerOn_congr (by rw [hprod, Fifo.set_dataMaxlen]) fun j => ?_
    rw [hprod]
    exact ⟨Fifo.set_field _ _ _ _ DatafifoItem.data (hf _).1, Fifo.set_field _ _ _ _ DatafifoItem.len (hf _).2.1,
      Fifo.set_field _ _ _ _ DatafifoItem.flags (hf _).2.2.1, Fifo.set_field _ _ _ _ DatafifoItem.timestamp (hf _).2.2.2⟩
  cases hst with
  | @alloc _ call i pc lt free =>
    refine hon pc (by simp [returns, hpc pc]) (Function.update_self ..) ?_
    simp only [answerAt, answerOn, frame, hprod, Fifo.set_cells_self, opened_allocItem, Fifo.set_dataMaxlen]
  | @flush _ call cur t pc tail filling =>
    have hcur : cur ≠ t := fun e => (hI.own cur (by rw [pc]; rfl)).2.1 (e ▸ List.mem_of_getLast? tail)
    refine hon pc (by simp [returns, hpc pc]) (Function.update_self ..) ?_
    simp only [answerAt, answerOn, frame, hprod, Fifo.set_cells_of_ne _ _ hcur, Fifo.set_dataMaxlen]
  | flushNone pc tail => exact hon pc (by simp [returns, hpc pc]) (Function.update_self ..) rfl
  | allocCon pc lt free => exact hon pc (by simp [returns, hpc pc]) (Function.update_self ..) rfl
  | doing pc =>
    exact hon pc (by simp [returns, hpc pc]) (Function.update_self ..)
      (congrArg some (hset fun _ => ⟨rfl, rfl, rfl, rfl⟩))
  | assign pc => exact hon pc (by simp [returns, hpc pc]) (Function.update_self ..) rfl
  | incref pc =>
    exact hon pc (by simp [returns, hpc pc]) (Function.update_self ..)
      (congrArg some (hset fun _ => ⟨rfl, rfl, rfl, rfl⟩))
  | link pc => exact hon pc (by simp [returns, hpc pc]) (Function.update_self ..) rfl
  | @check _ k pc =>
    cases k with
    | newframe call cur =>
      refine hon pc (by simp [returns, hpc pc]) (Function.update_self ..) ?_
      exact (SameFrames.sweep (hprod ..)).answerAt
    | finish => exact hend (r := 0) pc (by simp [returns, hpc pc]) (Function.update_self ..) rfl
  | @mark _ call cur m todo pc =>
    refine hon pc (by simp [returns, hpc pc]) (Function.update_self ..) ?_
    simp only [answerAt, frame, hprod, Fifo.set_cells_self, frame_mark, List.foldl_cons, Fifo.set_dataMaxlen]
  | @linkOwn _ call cur pc =>
    obtain ⟨-, -, hfill⟩ := hI.own cur (by rw [pc]; rfl)
    have hcur : ((s.view.producer p).push cur).filling? = some cur := Fifo.filling?_eq_some.mpr ⟨by simp, hfill⟩
    refine hon pc (by simp [returns, hpc pc]) (Function.update_self ..) ?_
    simp only [answerAt, hprod, hcur, frame, Fifo.push_cells, Fifo.push_dataMaxlen, List.foldl_nil]
  | @tail _ call t pc tail =>
    by_cases hs : ((s.view.producer p).cells t).status = .filling
    · refine hon pc ?_ (Function.update_self ..) ?_
      · have hs' : ((s.producer p).items t).status = .filling := hs
        simp [returns, hpc pc, hlast tail, hs']
      · rw [if_neg (not_not_intro hs)]
        rfl
    · have hs' : ((s.producer p).items t).status ≠ .filling := hs
      have hnone : (s.view.producer p).filling? = none := Fifo.filling?_eq_none fun t' ht => by
        obtain rfl : t = t' := Option.some.inj (tail.symm.trans ht)
        exact hs
      refine hend pc (r := -4) ?_ ?_ ?_
      · simp [returns, hpc pc, hlast tail, hs']
      · rw [setPpc_ppc, Function.update_self, if_pos hs]
      · simp only [answerAt, hnone]
  | @room _ call t pc tail =>
    rw [pc] at hI
    obtain ⟨t', ht, hfill⟩ := hI.tail
    obtain rfl : t = t' := Option.some.inj (tail.symm.trans ht)
    have hsome := Fifo.filling?_eq_some.mpr ⟨tail, hfill⟩
    by_cases hlong : ((s.view.producer p).cells t).len + call.data.length > (s.view.producer p).dataMaxlen
    · have hlong' : ((s.producer p).items t).len + call.data.length > (s.producer p).dataMaxlen := hlong
      refine hend pc (r := -5) ?_ ?_ ?_
      · simp [returns, hpc pc, hlast tail, hlong']
      · rw [setPpc_ppc, Function.update_self, if_pos hlong]
      · simp only [answerAt, hsome]
        exact congrArg some (if_pos hlong)
    · have hlong' : ¬((s.producer p).items t).len + call.data.length > (s.producer p).dataMaxlen := hlong
      refine hon pc ?_ (Function.update_self ..) ?_
      · simp [returns, hpc pc, hlast tail, hlong']
      · rw [if_neg hlong]
        simp only [answerAt, hsome]
        exact congrArg some (if_neg hlong).symm
  | copy pc tail => exact hon pc (by simp [returns, hpc pc]) (Function.update_self ..) rfl
  | grow pc tail => exact hon pc (by simp [returns, hpc pc]) (Function.update_self ..) rfl
  | close pc frameend tail => exact hon pc (by simp [returns, hpc pc, frameend]) (Function.update_self ..) rfl
  | closeOpen pc more => exact hend pc (by simp [returns, hpc pc, more]) (Function.update_self ..) rfl

/-- What a step returns from the calls of `p` and what is still to be returned. -/
theorem Ok.answer_eq (h : s.Ok) (hst : View.Step s.view a w) (done : List Frame) :
    (s.returns p a).toList ++ (w.answer p).toList = (s.view.answer p).toList ++
      ((a.call? p).map ((s.view.ahead p done).ret (s.producer p).dataMaxlen)).toList := by
  cases hc : a.call? p with
  | some call =>
    obtain rfl : a = .dataAdd p call := Action.call?_eq_some hc
    cases hst with
    | dataAdd pc =>
      rw [View.answer_eq pc, View.answer_eq (Function.update_self ..),
        (SameFrames.of_eq rfl : SameFrames s.view (s.view.setPpc p _) p).answerAt, ahead_eq pc]
      by_cases hnew : hasFlag call.flags frameFlagNewframe
      · rw [if_pos hnew, Option.map_some, Assembly.ret, if_pos hnew]
        rfl
      · rw [if_neg hnew, Option.map_some, Assembly.ret, if_neg hnew]
        simp only [returns, answerAt, aheadAt, now]
        cases (s.view.producer p).filling? <;> rfl
  | none =>
    rw [Option.map_none, Option.toList_none, List.append_nil]
    by_cases ha : a = .producer p
    · subst ha
      exact h.answer_own hst
    · obtain ⟨hf, hpc⟩ := hst.sameFrames ha hc
      have hnone : s.returns p a = none := by
        cases a <;> simp only [returns]
        exact if_neg fun e => ha (by rw [e])
      rw [hnone, Option.toList_none, List.nil_append, answer, hpc, hf.answerAt]
      rfl

/-- In every run, the calls of `p` return what they do one after the other, up to the one that is going on. -/
theorem Ok.returned_exec (h : s.Ok) (hr : Exec.exec Sys.logged (s, log) as = some (t, log')) :
    returned p s as ++ (t.view.answer p).toList = (s.view.answer p).toList ++
      (Assembly.returns (s.producer p).dataMaxlen (s.view.ahead p (completedBy p log)) (callsOf p as)).map Returned.ret := by
  induction as generalizing s log with
  | nil =>
    cases hr
    simp [returned, callsOf, Assembly.returns]
  | cons a as ih =>
    obtain ⟨u, log₁, hstep, hok, hst, hr, -, hahead, hmax⟩ := h.logged_cons hr p
    have hone := h.answer_eq (p := p) hst (completedBy p log)
    have hcall : ∀ b : Assembly, Assembly.returns (s.producer p).dataMaxlen b (callsOf p (a :: as)) =
        ((a.call? p).map fun call => ⟨call, b.ret (s.producer p).dataMaxlen call⟩).toList ++
          Assembly.returns (s.producer p).dataMaxlen ((a.call? p).toList.foldl
            (Assembly.dataAdd (s.producer p).dataMaxlen) b) (callsOf p as) := fun b => by
      rw [callsOf_cons]
      cases a.call? p <;> rfl
    simp only [returned, hstep]
    rw [List.append_assoc, ih hok hr, hmax, hahead, ← List.append_assoc, hone, hcall, List.map_append, List.append_assoc]
    cases a.call? p <;> rfl

/-- The calls that a run makes on `p` with what they return, up to the one that is going on. -/
def callsReturned (p : P) (s : Sys P C) (as : List (Action P C)) : List Returned :=
  (callsOf p as).zipWith Returned.mk (returned p s as)

theorem zipWith_returns (maxlen : Nat) (b : Assembly) (calls : List Call) :
    calls.zipWith Returned.mk ((Assembly.returns maxlen b calls).map Returned.ret) = Assembly.returns maxlen b calls := by
  induction calls generalizing b with
  | nil => rfl
  | cons call calls ih =>
    simp only [Assembly.returns, List.map_cons, List.zipWith_cons_cons, ih]

theorem length_returns (maxlen : Nat) (b : Assembly) (calls : List Call) :
    (Assembly.returns maxlen b calls).length = calls.length := by
  induction calls generalizing b with
  | nil => rfl
  | cons call calls ih => rw [Assembly.returns, List.length_cons, List.length_cons, ih]

/-- In every run, when all calls of `p` have returned, each consumer has got the frames that the calls and their results
    tell, each as often as it is connected. -/
theorem pieces_delivered (psize pcnt : P → Nat) (csize ccnt : C → Nat) (chain : P → List C) (as : List (Action P C))
    (s : Sys P C) (log : List (Event P C))
    (h : Exec.exec Sys.logged (Sys.start psize pcnt csize ccnt chain, []) as = some (s, log)) (p : P)
    (hidle : s.ppc p = .idle) :
    (returned p (Sys.start psize pcnt csize ccnt chain) as).length = (callsOf p as).length ∧
    ∀ c, seenBy c p log ++ readFrom p ((s.live c).filterMap (s.read c)) =
      handed ((chain p).count c) (Returned.frames (callsReturned p (Sys.start psize pcnt csize ccnt chain) as)) := by
  have hstart := Ok.start psize pcnt csize ccnt chain
  obtain ⟨hok, hd⟩ := Ok.logged hstart (delivered_start psize pcnt csize ccnt chain) h
  -- No call is going on, neither at the start nor at the end.
  have hret := hstart.returned_exec (p := p) h
  have hnone : s.view.answer p = none := by rw [answer, view_ppc, hidle, answerAt]
  have hnone' : (Sys.start psize pcnt csize ccnt chain).view.answer p = none := rfl
  rw [hnone, hnone', Option.toList_none, List.append_nil, List.nil_append,
    show completedBy p ([] : List (Event P C)) = [] from rfl, ahead_start] at hret
  refine ⟨by rw [hret, List.length_map, length_returns], fun c => ?_⟩
  have howed : s.view.owed c p = [] := by simp only [owed, view_ppc, hidle, ProducerPc.owes]
  have hcompleted := (assembled (p := p) psize pcnt csize ccnt chain h).2 hidle
  have hframes := hd.frames c p
  rw [howed, List.append_nil, hcompleted, Assembly.completed_foldl] at hframes
  rw [hok.read_sent, hframes, callsReturned, hret, zipWith_returns]
  rfl

/-- A frame of three calls, the second of which brings too many bytes. -/
theorem pieces_delivered_oversize : ∃ s log, Exec.exec Sys.logged (single, []) (
      .dataAdd () ⟨[1], frameFlagNewframe ||| frameFlagFirstframe, 5⟩ :: List.replicate 10 (.producer ()) ++
      .dataAdd () ⟨[2, 3, 4, 5], 0, 0⟩ :: List.replicate 2 (.producer ()) ++
      .dataAdd () ⟨[6], frameFlagFrameend, 0⟩ :: List.replicate 18 (.producer ())) = some (s, log) ∧
    seenBy () () log ++ readFrom () ((s.live ()).filterMap (s.read ())) = [⟨[1, 6], 2, frameFlagFirstframe, 5⟩] := by
  obtain ⟨as, has⟩ : ∃ as : List (Action Unit Unit), as =
      .dataAdd () ⟨[1], frameFlagNewframe ||| frameFlagFirstframe, 5⟩ :: List.replicate 10 (.producer ()) ++
      .dataAdd () ⟨[2, 3, 4, 5], 0, 0⟩ :: List.replicate 2 (.producer ()) ++
      .dataAdd () ⟨[6], frameFlagFrameend, 0⟩ :: List.replicate 18 (.producer ()) := ⟨_, rfl⟩
  have hrun : (Exec.exec Sys.logged (single, []) as).any (fun r => r.1.ppc () = .idle) = true := by
    rw [has]
    decide +kernel
  have hframes : handed 1 (Returned.frames (callsReturned () single as)) = [⟨[1, 6], 2, frameFlagFirstframe, 5⟩] := by
    rw [has]
    decide +kernel
  obtain ⟨⟨s, log⟩, hs, hidle⟩ := (Option.any_eq_true ..).mp hrun
  rw [← has]
  exact ⟨s, log, hs, ((pieces_delivered _ _ _ _ _ _ s log hs () (by simpa using hidle)).2 ()).trans hframes⟩

end Sys

end Recbcsrv
