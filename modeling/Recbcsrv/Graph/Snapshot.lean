import Recbcsrv.Switch.Inset

/-! The picture that the emulator (`server_emulator.c`) saves. The images of all channels come to it as JPEG pictures in
    messages, and it writes the first picture of the channel 0 to `vga.jpg`. -/

namespace Recbcsrv
open Bytes

/-! ### The emulator -/

/-- `jpeg_cnt`, whether `jpeg_fd` is open, and what was written to the file, which is nothing before it is opened. The bytes are
    those that `fwrite` was given; they are on the disk when the file is closed. -/
structure Emulator where
  jpegCnt : Nat
  jpegFd : Bool
  vga : Option (List UInt8)
  deriving DecidableEq

/-- The variables of the loop of `MsgHandle`; `frameInfo` is in bytes. -/
structure JpegLoop where
  emulator : Emulator
  channel : Nat
  frameInfo : List UInt8

namespace Emulator

def init : Emulator := ⟨0, false, none⟩

/-- The attribute `Data` on the channel 0. Opening the file succeeds, and empties it. -/
def save (e : Emulator) (info : TFrameInfo) (value : List UInt8) : Emulator :=
  if e.jpegCnt = 0 then
    let vga := (if e.jpegFd then e.vga.getD [] else []) ++ value
    if info.packetNum = info.pktsInFrame - 1 then ⟨e.jpegCnt + 1, false, some vga⟩ else ⟨e.jpegCnt, true, some vga⟩
  else e

end Emulator

namespace JpegLoop

def setInfo (s : JpegLoop) (a : Attr) : JpegLoop :=
  if a.named "Info" then { s with frameInfo := a.value ++ s.frameInfo.drop a.value.length } else s

def setChannel (s : JpegLoop) (a : Attr) : JpegLoop := { s with channel := a.readInto "StreamId" s.channel }

def onData (s : JpegLoop) (a : Attr) : JpegLoop :=
  if a.named "Data" ∧ s.channel = 0 then { s with emulator := s.emulator.save (.ofBytes s.frameInfo) a.value } else s

/-- The body of the loop. -/
def onAttr (s : JpegLoop) (a : Attr) : JpegLoop := ((s.setInfo a).setChannel a).onData a

end JpegLoop

/-- `MsgHandle`, with what `frame_info` holds at the beginning. The variable is one of the body of the loop, and keeps its value
    from one turn to the next. -/
def msgHandle (e : Emulator) (x : List UInt8 × Mem) : Emulator :=
  if msgCmd x.2 = commandEventJpeg then ((attrsOf x.2).foldl JpegLoop.onAttr ⟨e, 0, x.1⟩).emulator else e

/-- The messages of `thread_img` for pictures and their channels. -/
def sendJpegs (l : List (Uninit × Picture × Int32)) : Option (List (List Call)) :=
  l.mapM fun x => jpegPacknSend2df x.1 x.2.1 x.2.2

/-- How many messages the pictures make. -/
def messages (l : List (Picture × Int32)) : Nat := (l.map fun x => (x.1.buf.length + 1023) / 1024).sum

/-! ### A packet -/

section
variable {p : Packet} {channel : Int32} {call : Call} {m : Mem} {e : Emulator} {frameInfo : List UInt8}

theorem toNat_toUInt32_eq_zero : channel.toUInt32.toNat = 0 ↔ channel = 0 := by
  constructor
  · intro h
    exact congrArg Int32.ofUInt32 (UInt32.toNat_inj.mp h)
  · rintro rfl
    rfl

theorem msgHandle_packet (h : p.SentAs commandEventJpeg channel call) (hm : call.HeldIn m) :
    msgHandle e (frameInfo, m) = if channel = 0 then e.save p.info p.data else e := by
  obtain ⟨hcmd, hattrs⟩ := h.attrs rfl hm
  have hread : (char2hex (printX channel.toUInt32.toNat) 0).1 = channel.toUInt32.toNat := hexNum_printX channel.toUInt32.toNat_lt
  have hstream : JpegLoop.onAttr ⟨e, 0, frameInfo⟩ ⟨ascii "StreamId", printX channel.toUInt32.toNat⟩ =
      ⟨e, channel.toUInt32.toNat, frameInfo⟩ := by
    have hloop : JpegLoop.onAttr ⟨e, 0, frameInfo⟩ ⟨ascii "StreamId", printX channel.toUInt32.toNat⟩ =
        ⟨e, (char2hex (printX channel.toUInt32.toNat) 0).1, frameInfo⟩ := rfl
    rw [hloop, hread]
  have hinfo : JpegLoop.onAttr ⟨e, channel.toUInt32.toNat, frameInfo⟩ ⟨ascii "Info", p.info.bytes⟩ =
      ⟨e, channel.toUInt32.toNat, p.info.bytes ++ frameInfo.drop p.info.bytes.length⟩ := rfl
  rw [msgHandle, if_pos hcmd, hattrs, List.foldl_cons, hstream, List.foldl_cons, hinfo, List.foldl_cons, List.foldl_nil]
  have hdata : ∀ rest, JpegLoop.onAttr ⟨e, channel.toUInt32.toNat, rest⟩ ⟨ascii "Data", p.data⟩ =
      if channel.toUInt32.toNat = 0 then ⟨e.save (.ofBytes rest) p.data, channel.toUInt32.toNat, rest⟩
      else ⟨e, channel.toUInt32.toNat, rest⟩ := by
    intro rest
    have hloop : JpegLoop.onAttr ⟨e, channel.toUInt32.toNat, rest⟩ ⟨ascii "Data", p.data⟩ =
        JpegLoop.onData ⟨e, channel.toUInt32.toNat, rest⟩ ⟨ascii "Data", p.data⟩ := rfl
    have hnamed : Attr.named ⟨ascii "Data", p.data⟩ "Data" = true := rfl
    rw [hloop, JpegLoop.onData, if_congr (and_iff_right hnamed) rfl rfl]
  rw [hdata, TFrameInfo.ofBytes_bytes]
  by_cases hc : channel = 0
  · rw [if_pos (toNat_toUInt32_eq_zero.mpr hc), if_pos hc]
  · rw [if_neg fun h0 => hc (toNat_toUInt32_eq_zero.mp h0), if_neg hc]

end

/-! ### The packets of a picture -/

theorem Emulator.save_eq {e : Emulator} {info : TFrameInfo} {value sofar : List UInt8} (hcnt : e.jpegCnt = 0)
    (h : (if e.jpegFd then e.vga.getD [] else []) = sofar) :
    e.save info value = if info.packetNum = info.pktsInFrame - 1 then ⟨1, false, some (sofar ++ value)⟩
      else ⟨0, true, some (sofar ++ value)⟩ := by
  rw [save, if_pos hcnt, h, hcnt]

theorem take_packetLoop {info : TFrameInfo} {n : Nat} {i residual : UInt32} {ptr : List UInt8} (hres : residual.toNat = ptr.length)
    (hn : ptr.length ≤ n * 1024) (j : Nat) :
    (((packetLoop info n i ptr residual).take j).map Packet.data).flatten = ptr.take (1024 * j) := by
  induction n generalizing i ptr residual j with
  | zero =>
    have hnil : ptr = [] := List.eq_nil_of_length_eq_zero (by omega)
    simp [packetLoop, hnil]
  | succ n ih =>
    cases j with
    | zero => simp
    | succ j =>
      obtain ⟨k, hk⟩ : ∃ k, (if maxAvpktSize < residual then maxAvpktSize else residual) = k := ⟨_, rfl⟩
      have hlen : k.toNat = min 1024 residual.toNat := hk ▸ pktLen_toNat
      have hle : k ≤ residual := by
        rw [UInt32.le_iff_toNat_le]
        omega
      have hrest : (residual - k).toNat = (ptr.drop k.toNat).length := by
        rw [UInt32.toNat_sub_of_le _ _ hle, List.length_drop, hres]
      rw [packetLoop, hk, List.take_succ_cons, List.map_cons, List.flatten_cons,
        ih hrest (by rw [List.length_drop]; omega)]
      rcases Nat.le_total 1024 ptr.length with hlong | hshort
      · have hone : k.toNat = 1024 := by omega
        rw [hone, ← List.take_add, Nat.mul_succ, Nat.add_comm]
      · have hall : k.toNat = ptr.length := by omega
        rw [hall, List.take_length, List.drop_length, List.take_nil, List.append_nil, List.take_of_length_le (by omega)]

namespace Picture
variable {f : Picture} {u : Uninit}

theorem take_packets (j : Nat) : (((f.packets u).take j).map Packet.data).flatten = f.buf.take (1024 * j) := by
  have hlt := f.lt
  refine take_packetLoop (toNat_ofNat_of_lt (by omega)) ?_ j
  rw [toNat_pktsInFrame]
  omega

/-- The emulator after the first `j` packets. -/
def savedTo (f : Picture) (j : Nat) : Emulator :=
  if j = 0 then .init
  else if j < (f.buf.length + 1023) / 1024 then ⟨0, true, some (f.buf.take (1024 * j))⟩ else ⟨1, false, some f.buf⟩

theorem vga_savedTo (j : Nat) : (f.savedTo j).vga = if j = 0 then none else some (f.buf.take (1024 * j)) := by
  unfold savedTo
  split_ifs with hzero hlt
  · rfl
  · rfl
  · rw [List.take_of_length_le (by omega)]

theorem jpegFd_savedTo (j : Nat) : (f.savedTo j).jpegFd = true ↔ 0 < j ∧ j < (f.buf.length + 1023) / 1024 := by
  unfold savedTo
  split_ifs with hzero hlt
  · exact iff_of_false Bool.false_ne_true fun h => absurd hzero (Nat.ne_of_gt h.1)
  · exact iff_of_true rfl ⟨Nat.pos_of_ne_zero hzero, hlt⟩
  · exact iff_of_false not_false fun h => hlt h.2

theorem savedTo_whole {j : Nat} (h : (f.buf.length + 1023) / 1024 ≤ j) : f.savedTo j = ⟨1, false, some f.buf⟩ := by
  have hpos := f.pos
  rw [savedTo, if_neg (by omega), if_neg (Nat.not_lt.mpr h)]

theorem foldl_save {j : Nat} (hj : j ≤ (f.packets u).length) :
    ((f.packets u).take j).foldl (fun e p => e.save p.info p.data) Emulator.init = f.savedTo j := by
  induction j with
  | zero => rfl
  | succ j ih =>
    obtain ⟨p, hp⟩ : ∃ p, (f.packets u)[j]? = some p := ⟨_, List.getElem?_eq_getElem hj⟩
    have hdata : f.buf.take (1024 * j) ++ p.data = f.buf.take (1024 * (j + 1)) := by
      rw [← take_packets (u := u), ← take_packets (u := u), List.take_add_one, hp]
      simp
    have hlt := f.lt
    rw [length_packets] at hj
    have hnum : p.info.packetNum = p.info.pktsInFrame - 1 ↔ ¬j + 1 < (f.buf.length + 1023) / 1024 := by
      have hpkts : (f.frmInfo u).pktsInFrame.toNat = (f.buf.length + 1023) / 1024 := toNat_pktsInFrame
      have hone : (1 : UInt32) ≤ (f.frmInfo u).pktsInFrame := by
        rw [UInt32.le_iff_toNat_le, hpkts]
        exact Nat.le_trans (Nat.succ_le_succ (Nat.zero_le j)) hj
      have hlast : ((f.frmInfo u).pktsInFrame - 1).toNat = (f.buf.length + 1023) / 1024 - 1 := by
        rw [UInt32.toNat_sub_of_le _ _ hone, hpkts]
        rfl
      rw [info_packets hp, ← UInt32.toNat_inj, hlast, toNat_ofNat_of_lt (by omega)]
      omega
    have hcnt : (f.savedTo j).jpegCnt = 0 := by
      unfold savedTo
      split_ifs <;> first | rfl | omega
    have hsofar : (if (f.savedTo j).jpegFd then (f.savedTo j).vga.getD [] else []) = f.buf.take (1024 * j) := by
      rcases Nat.eq_zero_or_pos j with rfl | hpos
      · rfl
      · have hmid : j < (f.buf.length + 1023) / 1024 := hj
        rw [savedTo, if_neg (Nat.ne_of_gt hpos), if_pos hmid]
        rfl
    have hstep : (f.savedTo j).save p.info p.data = f.savedTo (j + 1) := by
      rw [Emulator.save_eq hcnt hsofar, hdata, savedTo, if_neg (Nat.succ_ne_zero j)]
      simp only [hnum]
      split_ifs with hmore
      · rfl
      · rw [List.take_of_length_le (by omega)]
    rw [List.take_add_one, hp, List.foldl_append, ih (Nat.le_of_succ_le (by rwa [length_packets]))]
    exact hstep

end Picture

/-! ### The stream -/

/-- The packets of the pictures, with their channels. -/
def jpegPackets (l : List (Uninit × Picture × Int32)) : List (Int32 × Packet) :=
  l.flatMap fun x => (x.2.1.packets x.1).map (x.2.2, ·)

/-- What a packet does to the emulator. -/
def Emulator.onPacket (e : Emulator) (q : Int32 × Packet) : Emulator := if q.1 = 0 then e.save q.2.info q.2.data else e

section
variable {l : List (Uninit × Picture × Int32)} {qs : List (Int32 × Packet)} {e : Emulator} {k : Nat}

/-- All pictures can be sent. -/
theorem sendJpegs_eq (l : List (Uninit × Picture × Int32)) : ∃ ms, sendJpegs l = some ms ∧
    List.Forall₂ (fun (q : Int32 × Packet) call => q.2.SentAs commandEventJpeg q.1 call) (jpegPackets l) ms.flatten := by
  induction l with
  | nil => exact ⟨[], rfl, .nil⟩
  | cons x l ih =>
    obtain ⟨ms, hms, hsent⟩ := ih
    have hdata : ∀ p ∈ x.2.1.packets x.1, p.data.length ≤ 1024 := data_packetLoop_le
    obtain ⟨calls, hcalls, hs⟩ : ∃ calls, sendPackets commandEventJpeg x.2.2 x.1.msg (x.2.1.packets x.1) = some calls ∧
        List.Forall₂ (Packet.SentAs commandEventJpeg x.2.2) (x.2.1.packets x.1) calls :=
      Packet.sendPackets_eq rfl x.2.2 x.1.msg hdata
    refine ⟨calls :: ms, ?_, ?_⟩
    · have hpack : jpegPacknSend2df x.1 x.2.1 x.2.2 = some calls := hcalls
      rw [sendJpegs, List.mapM_cons, hpack, ← sendJpegs, hms]
      rfl
    · rw [jpegPackets, List.flatMap_cons, ← jpegPackets, List.flatten_cons]
      refine List.rel_append ?_ hsent
      rw [List.forall₂_map_left_iff]
      exact hs

theorem foldl_msgHandle {calls : List Call} {items : List (List UInt8 × Mem)}
    (hqs : List.Forall₂ (fun (q : Int32 × Packet) call => q.2.SentAs commandEventJpeg q.1 call) qs calls)
    (hitems : List.Forall₂ (fun (call : Call) (x : List UInt8 × Mem) => call.HeldIn x.2) calls items) :
    items.foldl msgHandle e = qs.foldl Emulator.onPacket e := by
  induction hqs generalizing e items with
  | nil =>
    cases hitems
    rfl
  | @cons q call qs calls hq _ ih =>
    cases hitems with
    | @cons _ x _ items hx hitems =>
      rw [List.foldl_cons, List.foldl_cons, ih hitems]
      exact congrArg (fun e => qs.foldl Emulator.onPacket e) (msgHandle_packet hq hx)

theorem onPacket_other (h : ∀ q ∈ qs, q.1 ≠ 0) : qs.foldl Emulator.onPacket e = e := by
  induction qs with
  | nil => rfl
  | cons q qs ih =>
    rw [List.forall_mem_cons] at h
    rw [List.foldl_cons, Emulator.onPacket, if_neg h.1]
    exact ih h.2

/-- One picture is enough. -/
theorem onPacket_done (h : e.jpegCnt ≠ 0) : qs.foldl Emulator.onPacket e = e := by
  induction qs with
  | nil => rfl
  | cons q qs ih =>
    have hkeep : e.onPacket q = e := by
      rw [Emulator.onPacket, Emulator.save, if_neg h, ite_self]
    rw [List.foldl_cons, hkeep]
    exact ih

theorem length_jpegPackets (l : List (Uninit × Picture × Int32)) : (jpegPackets l).length = messages (l.map Prod.snd) := by
  induction l with
  | nil => rfl
  | cons x l ih =>
    rw [jpegPackets, List.flatMap_cons, List.length_append, List.length_map, Picture.length_packets, ← jpegPackets, ih]
    simp [messages]

/-- The emulator after the first `k` packets, of which those of the first picture on the channel 0 come behind the others. -/
theorem foldl_jpegPackets {pre post : List (Uninit × Picture × Int32)} {u : Uninit} {f : Picture}
    (hpre : ∀ x ∈ pre, x.2.2 ≠ 0) (k : Nat) :
    ((jpegPackets (pre ++ (u, f, 0) :: post)).take k).foldl Emulator.onPacket .init =
      f.savedTo (k - messages (pre.map Prod.snd)) := by
  have hother : ∀ q ∈ (jpegPackets pre).take k, q.1 ≠ 0 := fun q hq => by
    obtain ⟨x, hx, hq⟩ := List.mem_flatMap.mp (List.mem_of_mem_take hq)
    obtain ⟨p, -, rfl⟩ := List.mem_map.mp hq
    exact hpre x hx
  have hsplit : jpegPackets (pre ++ (u, f, 0) :: post) =
      jpegPackets pre ++ ((f.packets u).map ((0 : Int32), ·) ++ jpegPackets post) := by
    rw [jpegPackets, List.flatMap_append, List.flatMap_cons]
    rfl
  rw [hsplit, List.take_append, List.foldl_append, onPacket_other hother, length_jpegPackets, List.take_append, List.foldl_append,
    List.length_map]
  generalize k - messages (pre.map Prod.snd) = j
  have hone : ∀ j, ((f.packets u).map ((0 : Int32), ·) |>.take j).foldl Emulator.onPacket .init =
      ((f.packets u).take j).foldl (fun e p => e.save p.info p.data) .init := fun j => by
    rw [← List.map_take, List.foldl_map]
    rfl
  rw [hone]
  rcases Nat.le_total j (f.packets u).length with hle | hge
  · rw [Picture.foldl_save hle, Nat.sub_eq_zero_of_le hle, List.take_zero, List.foldl_nil]
  · have hwhole : ((f.packets u).take j).foldl (fun e p => e.save p.info p.data) Emulator.init = ⟨1, false, some f.buf⟩ := by
      have hsave := Picture.foldl_save (f := f) (u := u) le_rfl
      rw [List.take_length, Picture.savedTo_whole (Picture.length_packets (u := u)).ge] at hsave
      rw [List.take_of_length_le hge, hsave]
    rw [hwhole, onPacket_done one_ne_zero, Picture.savedTo_whole (Picture.length_packets (u := u) ▸ hge)]

end

/-! ### The snapshot -/

section
variable {c : Compressor} {t : Tracking} {s : Studio}

/-- Which of the pictures that `thread_img` sends are those of the channel 0. -/
theorem ImgItem.sends_zero {vmap : List VideoMap} (hlen : vmap.length = 6) (hfun : ∀ v ∈ vmap, Int32.ofInt v.function ≠ 0)
    {x : ImgItem} {y : Picture × Int32} (h : x.sends c vmap = some y) : y.2 = 0 ↔ x.source = .imgV := by
  unfold sends at h
  cases hsource : x.source with
  | imgV =>
    rw [hsource] at h
    obtain ⟨f, -, rfl⟩ := Option.map_eq_some_iff.mp h
    exact iff_of_true rfl rfl
  | imgM =>
    rw [hsource] at h
    cases h
  | img i =>
    rw [hsource] at h
    obtain ⟨f, -, rfl⟩ := Option.map_eq_some_iff.mp h
    refine iff_of_false ?_ nofun
    have hlt : i.val < (vmap.map VideoMap.function).length := by
      rw [List.length_map, hlen]
      exact i.isLt
    dsimp only
    rw [List.getD_eq_getElem _ _ hlt, List.getElem_map]
    exact hfun _ (List.getElem_mem _)

/-- What the emulator has saved after any number of the messages, when no channel has the function 0: nothing before those of
    the first image of the VGA channel, then as much of its picture as has come, and later nothing else. The file is closed when
    the picture is whole. -/
theorem snapshot (hlen : t.vmap.length = 6) (hfun : ∀ v ∈ t.vmap, Int32.ofInt v.function ≠ 0) (as : List StudioAct)
    (hs : Exec.exec (Studio.step c) (Studio.start t) as = some s) {l : List (Uninit × Picture × Int32)}
    (hl : l.map Prod.snd = s.jpeg) :
    ∃ calls, sendJpegs l = some calls ∧ ∀ items : List (List UInt8 × Mem),
      List.Forall₂ (fun call x => call.HeldIn x.2) calls.flatten items →
      (∀ pre x post, taken as = pre ++ x :: post → x.source = .imgV → (∀ y ∈ pre, y.source ≠ .imgV) → ∀ k before,
        before = messages (pre.filterMap (ImgItem.sends c t.vmap)) →
        ((items.take k).foldl msgHandle .init).vga =
          (if k ≤ before then none else some ((c.compress x.planes).take (1024 * (k - before)))) ∧
        (((items.take k).foldl msgHandle .init).jpegFd = true ↔
          before < k ∧ k - before < ((c.compress x.planes).length + 1023) / 1024)) ∧
      ((∀ x ∈ taken as, x.source ≠ .imgV) → ∀ k, ((items.take k).foldl msgHandle .init).vga = none) := by
  obtain ⟨calls, hcalls, hsent⟩ := sendJpegs_eq l
  have hjpeg : Studio.Sent c t.vmap (taken as) s := Studio.Sent.run ⟨rfl, rfl, List.forall_mem_nil _⟩ hs
  rw [hjpeg.jpeg] at hl
  refine ⟨calls, hcalls, fun items hitems => ?_⟩
  have hgot : ∀ k, (items.take k).foldl msgHandle .init = ((jpegPackets l).take k).foldl Emulator.onPacket .init := fun k =>
    foldl_msgHandle (List.forall₂_take k hsent) (List.forall₂_take k hitems)
  refine ⟨fun pre x post hx hsource hpre k before hbefore => ?_, fun hnone k => ?_⟩
  · have hfits : x.Fits c := hjpeg.fits x (hx ▸ List.mem_append_right pre List.mem_cons_self) (hsource ▸ nofun)
    obtain ⟨f, hf, hbuf⟩ := ImgItem.jpeg_of_fits hfits
    have hfirst : x.sends c t.vmap = some (f, 0) := by
      rw [ImgItem.sends, hsource]
      dsimp only
      rw [hf]
      rfl
    rw [hx, List.filterMap_append, List.filterMap_cons, hfirst] at hl
    dsimp only at hl
    obtain ⟨l₁, l₂, rfl, h₁, h₂⟩ := List.map_eq_append_iff.mp hl
    obtain ⟨⟨u, y⟩, l₃, rfl, hy, -⟩ := List.map_eq_cons_iff.mp h₂
    obtain rfl : y = (f, 0) := hy
    have hother : ∀ z ∈ l₁, z.2.2 ≠ 0 := fun z hz hzero => by
      have hmem : z.2 ∈ pre.filterMap (ImgItem.sends c t.vmap) := h₁ ▸ List.mem_map_of_mem hz
      obtain ⟨w, hw, hwz⟩ := List.mem_filterMap.mp hmem
      exact hpre w hw ((ImgItem.sends_zero hlen hfun hwz).mp hzero)
    rw [hgot, foldl_jpegPackets hother, h₁, ← hbefore, Picture.vga_savedTo, Picture.jpegFd_savedTo, hbuf]
    exact ⟨if_congr Nat.sub_eq_zero_iff_le rfl rfl, and_congr_left fun _ => Nat.sub_pos_iff_lt⟩
  · rw [hgot, onPacket_other fun q hq => ?_]
    · rfl
    · obtain ⟨z, hz, hq⟩ := List.mem_flatMap.mp (List.mem_of_mem_take hq)
      obtain ⟨p, -, rfl⟩ := List.mem_map.mp hq
      intro hzero
      have hmem : z.2 ∈ (taken as).filterMap (ImgItem.sends c t.vmap) := hl ▸ List.mem_map_of_mem hz
      obtain ⟨w, hw, hwz⟩ := List.mem_filterMap.mp hmem
      exact hnone w hw ((ImgItem.sends_zero hlen hfun hwz).mp hzero)

end

/-- An image of each channel and then one of the VGA channel. -/
def vgaLast : List StudioAct := Studio.showAll ++ [.take (Studio.black .imgV)]

theorem snapshot_vgaLast : ∃ s calls,
    Exec.exec (Studio.step Studio.blackCompressor) (Studio.start (.init (sampleFsm "TeacherFull") 2 10 vmapTableInit)) vgaLast =
      some s ∧
    sendJpegs (s.jpeg.map (⟨0, 0, fun _ => ⟨fun _ => 0, 0, 0, 0, 0, 0⟩⟩, ·)) = some calls ∧
    let items := calls.flatten.map fun call => (([] : List UInt8), store (fun _ => 0) 0 call.data)
    ((items.take 12).foldl msgHandle .init).vga = none ∧
      ((items.take 13).foldl msgHandle .init).vga = some (Studio.blackJpeg.take 1024) ∧
      ((items.take 14).foldl msgHandle .init).vga = some Studio.blackJpeg := by
  obtain ⟨s, hs⟩ := Option.isSome_iff_exists.mp (show (Exec.exec (Studio.step Studio.blackCompressor)
    (Studio.start (.init (sampleFsm "TeacherFull") 2 10 vmapTableInit)) vgaLast).isSome = true by decide +kernel)
  obtain ⟨calls, hcalls, hitems⟩ := snapshot rfl (by decide) vgaLast hs
    (l := s.jpeg.map (⟨0, 0, fun _ => ⟨fun _ => 0, 0, 0, 0, 0, 0⟩⟩, ·)) (by rw [List.map_map]; exact List.map_id _)
  refine ⟨s, calls, hs, hcalls, ?_⟩
  intro items
  have hheld : List.Forall₂ (fun (call : Call) (x : List UInt8 × Mem) => call.HeldIn x.2) calls.flatten items := by
    rw [List.forall₂_map_right_iff, List.forall₂_same]
    exact fun call _ => load_store_self
  let before : List ImgItem := (List.finRange 6).map fun i => Studio.black (.img i)
  have hbefore : ∀ x ∈ before, x.source ≠ .imgV := List.forall_mem_map.mpr fun _ _ => nofun
  -- Each picture is two messages.
  have htwelve : 12 = messages (before.filterMap
      (ImgItem.sends Studio.blackCompressor (Tracking.init (sampleFsm "TeacherFull") 2 10 vmapTableInit).vmap)) := by
    decide +kernel
  have hsaved := fun k => ((hitems items hheld).1 before (Studio.black .imgV) [] rfl rfl hbefore k 12 htwelve).1
  have hwhole : Studio.blackJpeg.take (1024 * (14 - 12)) = Studio.blackJpeg :=
    List.take_of_length_le (by rw [Studio.length_blackJpeg]; decide)
  exact ⟨hsaved 12, hsaved 13, (hsaved 14).trans (congrArg some hwhole)⟩

end Recbcsrv
