import Newrex.Lib.LittleEndian
import Newrex.Lib.RecordRing
import Newrex.Lib.Transition

/-!
# The receive ring

`rtl8139_init` gives the device a ring of 8192 bytes with 16 bytes behind it, and sets the
bit WRAP: the device stores a frame that reaches the end of the ring contiguously, behind
the end. `rtl8139_handle_receive` copies such a frame in two parts, the second from the
start of the ring, as if the device had continued there.

* `StoresInRing` is what a frame and the place of the device must keep to for the two to
  agree, and `deliver_elsewhere` what the driver does with any other frame;
* `Holds` and `Queue` say that the ring holds a queue of frames, `QueueAt.store` and
  `QueueAt.round_cons` that the device appends to it and the driver takes from it;
* `run_receive` is the result for all runs, and `receive_overflows` a run without the
  condition;
* `copiesFrame_iff` says when the two-part copy is right for a ring that the device does
  continue at its start.
-/

namespace Newrex

open LittleEndian

/-! ## The device -/

/-- `rx_config`: the receive mode that `rtl8139_init` selects. -/
def rxConfig : Nat := 0x0000068F

/-- The length of the ring, and of the buffer that `rtl8139_init` allocates for it. -/
def ringSize : Nat := 8192
def rxBufferSize : Nat := 8192 + 16

/-- The length of `packet_temp`. -/
def packetTempSize : Nat := 2048

/-- `(n + 3) & ~3`. -/
def align4 (n : Nat) : Nat := (n + 3) / 4 * 4

/-- A frame that the device received without an error, with its checksum at the end. -/
structure RxFrame where
  status : Nat
  bytes : List UInt8
  receiveOk : status % 2 = 1 ∧ status < 2 ^ 16
  length_range : 64 ≤ bytes.length ∧ bytes.length ≤ 1518

namespace RxFrame

/-- The header in front of a frame: status and length. -/
def header (f : RxFrame) : List UInt8 :=
  [byteOf f.status 0, byteOf f.status 1, byteOf f.bytes.length 0, byteOf f.bytes.length 1]

/-- The frame without its checksum, which the driver cuts off. -/
def packet (f : RxFrame) : List UInt8 := f.bytes.take (f.bytes.length - 4)

/-- The bytes that the frame takes in the ring. -/
def slot (f : RxFrame) : Nat := align4 (f.bytes.length + 4)

end RxFrame

/-- The variables of the driver and of the device, the packets handed to
`handle_ethernet_packet`, and whether a copy ran over the end of `packet_temp`. -/
structure Receiver where
  rxBuffer : Nat → UInt8
  rxOffset : Nat
  nicOffset : Nat
  delivered : List (List UInt8)
  overrun : Bool

namespace Receiver

/-- What the device writes from `off` on. With WRAP set it continues behind the end of the
ring, else at its start. -/
def nicWrite (b : Nat → UInt8) (off : Nat) (bytes : List UInt8) : Nat → UInt8 :=
  if rxConfig.testBit 7 then storeBytes b off bytes
  else fun p =>
    if p < ringSize ∧ (p + ringSize - off) % ringSize < bytes.length then
      bytes.getD ((p + ringSize - off) % ringSize) 0
    else b p

/-- The ring is empty, or a frame does not reach the frames that are not yet read. The
register for the read position holds `rx_offset - 16`, to which the device adds 16. -/
def HasRoom (s : Receiver) (f : RxFrame) : Prop :=
  (s.rxOffset + ringSize - s.nicOffset) % ringSize = 0 ∨
    f.slot < (s.rxOffset + ringSize - s.nicOffset) % ringSize

instance (s : Receiver) (f : RxFrame) : Decidable (s.HasRoom f) :=
  inferInstanceAs (Decidable (_ ∨ _))

/-- The device stores a frame. -/
def store (s : Receiver) (f : RxFrame) : Receiver :=
  { s with
    rxBuffer := nicWrite s.rxBuffer s.nicOffset (f.header ++ f.bytes)
    nicOffset := align4 (s.nicOffset + f.bytes.length + 4) % ringSize }

/-! ## The driver -/

/-- `first_part`: up to the end of the ring. -/
def firstPart (s : Receiver) : Nat := 8192 - (s.rxOffset + 4)

/-- The number of bytes copied to `packet_temp`. The counts of `memcpy` are unsigned. -/
def copied (s : Receiver) (size : Nat) : Nat :=
  if s.rxOffset + size + 4 > 8192 then
    s.firstPart + (((size : Int) - 4 - s.firstPart) % 2 ^ 32).toNat
  else (((size : Int) - 4) % 2 ^ 32).toNat

/-- The bytes copied. -/
def packetTemp (s : Receiver) (size : Nat) : Nat → UInt8 := fun i =>
  if s.rxOffset + size + 4 > 8192 ∧ s.firstPart ≤ i then s.rxBuffer (i - s.firstPart)
  else s.rxBuffer (s.rxOffset + 4 + i)

/-- The body of the loop of `rtl8139_handle_receive` for a frame of `size` bytes. -/
def deliver (s : Receiver) (size : Nat) : Receiver :=
  { s with
    delivered := s.delivered ++ [(List.range (size - 4)).map (s.packetTemp size)]
    overrun := s.overrun || decide (packetTempSize < s.copied size)
    rxOffset := align4 (s.rxOffset + size + 4) % 8192 }

/-- A round of the loop, if there is one: the ring is not empty, and the frame was received
without an error. -/
def round (s : Receiver) : Option Receiver :=
  if s.nicOffset = s.rxOffset then none
  else if load s.rxBuffer 2 s.rxOffset &&& 0x01 = 0 then none
  else some (s.deliver (load s.rxBuffer 2 (s.rxOffset + 2)))

/-- `rtl8139_handle_receive`, with at most `fuel` rounds. -/
def rtl8139HandleReceive : (fuel : Nat) → (s : Receiver) → Receiver
  | 0, s => s
  | fuel + 1, s =>
    match s.round with
    | none => s
    | some s' => rtl8139HandleReceive fuel s'

/-! ## A queue of frames -/

/-- The frame ends in the ring, or at its end but for the checksum. -/
def StoresInRing (off : Nat) (f : RxFrame) : Prop :=
  off + f.bytes.length + 4 ≤ 8192 ∨ off + f.bytes.length = 8192

/-- The frame is stored at `off`, in a place where the driver finds all of it. -/
structure Holds (b : Nat → UInt8) (off : Nat) (f : RxFrame) : Prop where
  status : load b 2 off = f.status
  length : load b 2 (off + 2) = f.bytes.length
  bytes : ∀ i, i < f.bytes.length → b (off + 4 + i) = f.bytes.getD i 0
  place : StoresInRing off f

/-- The ring holds the frames `pending`, between the places `v` of the driver and `e` of the
device. -/
structure QueueAt (s : Receiver) (pending : List RxFrame) (v e : Nat) : Prop where
  read : s.rxOffset = v % 8192
  write : s.nicOffset = e % 8192
  aligned : v % 4 = 0 ∧ e % 4 = 0
  room : e < v + 8192
  chain : RecordRing.Chain 8192 (Holds s.rxBuffer) RxFrame.slot v pending e

def Queue (s : Receiver) (pending : List RxFrame) : Prop := ∃ v e, QueueAt s pending v e

theorem nicWrite_eq (b : Nat → UInt8) (off : Nat) (bytes : List UInt8) :
    nicWrite b off bytes = storeBytes b off bytes := if_pos (by decide)

theorem slot_bounds (f : RxFrame) :
    f.bytes.length + 4 ≤ f.slot ∧ f.slot ≤ 1524 ∧ f.slot % 4 = 0 := by
  have hrange := f.length_range
  simp only [RxFrame.slot, align4]
  omega

theorem align4_add {x : Nat} (hx : x % 4 = 0) (y : Nat) : align4 (x + y) = x + align4 y := by
  simp only [align4]
  omega

/-- A frame is where it was when its bytes are. -/
theorem Holds.congr {b b' : Nat → UInt8} {off : Nat} {f : RxFrame} (h : Holds b off f)
    (hsame : ∀ i, i < f.bytes.length + 4 → b' (off + i) = b (off + i)) : Holds b' off f where
  status := by
    rw [← h.status]
    exact load_congr fun i hi => hsame i (by omega)
  length := by
    rw [← h.length]
    refine load_congr fun i hi => ?_
    rw [Nat.add_assoc]
    exact hsame _ (by omega)
  bytes := by
    intro i hi
    rw [← h.bytes i hi, Nat.add_assoc]
    exact hsame _ (by omega)
  place := h.place

theorem holds_nicWrite (b : Nat → UInt8) {off : Nat} {f : RxFrame} (hplace : StoresInRing off f) :
    Holds (nicWrite b off (f.header ++ f.bytes)) off f := by
  have hbyte : ∀ i, i < f.bytes.length + 4 →
      nicWrite b off (f.header ++ f.bytes) (off + i) = (f.header ++ f.bytes).getD i 0 := by
    intro i hi
    rw [nicWrite_eq]
    exact storeBytes_inside (by simp [RxFrame.header]; omega)
  have hrange := f.length_range
  refine ⟨?_, ?_, fun i hi => ?_, hplace⟩
  · have hload : load (nicWrite b off (f.header ++ f.bytes)) 2 off = f.status % 256 ^ 2 := by
      refine load_of_bytes fun i hi => ?_
      rw [hbyte i (by omega)]
      obtain rfl | rfl : i = 0 ∨ i = 1 := by omega
      · rfl
      · rfl
    rw [hload]
    exact Nat.mod_eq_of_lt f.receiveOk.2
  · have hload : load (nicWrite b off (f.header ++ f.bytes)) 2 (off + 2) =
        f.bytes.length % 256 ^ 2 := by
      refine load_of_bytes fun i hi => ?_
      rw [Nat.add_assoc, hbyte (2 + i) (by omega)]
      obtain rfl | rfl : i = 0 ∨ i = 1 := by omega
      · rfl
      · rfl
    rw [hload]
    exact Nat.mod_eq_of_lt (by omega)
  · rw [Nat.add_assoc, hbyte (4 + i) (by omega), Nat.add_comm 4 i]
    rfl

/-- The device appends a frame to the queue. The frames in the queue are less than a round
of the ring in front of it. -/
theorem QueueAt.store {s : Receiver} {pending : List RxFrame} {v e : Nat} {f : RxFrame}
    (h : QueueAt s pending v e) (hroom : s.HasRoom f) (hplace : StoresInRing s.nicOffset f) :
    QueueAt (s.store f) (pending ++ [f]) v (e + f.slot) := by
  obtain ⟨hread, hwrite, ⟨hv, he⟩, hless, hchain⟩ := h
  have hle := hchain.le
  obtain ⟨hlong, hshort, hslot⟩ := slot_bounds f
  have hfree : v = e ∨ e + f.slot < v + 8192 := by
    simp only [HasRoom, hread, hwrite, ringSize] at hroom
    omega
  refine ⟨hread, ?_, ⟨hv, by omega⟩, by omega, ?_⟩
  · have hoff : s.nicOffset % 4 = 0 := by omega
    have hnext : align4 (s.nicOffset + f.bytes.length + 4) = s.nicOffset + f.slot := by
      rw [Nat.add_assoc, align4_add hoff, RxFrame.slot]
    show align4 (s.nicOffset + f.bytes.length + 4) % 8192 = _
    rw [hnext, hwrite]
    omega
  · have hkeep : RecordRing.Chain 8192 (Holds (s.store f).rxBuffer) RxFrame.slot v pending e := by
      refine hchain.mono fun w r hw hend hholds => hholds.congr fun i hi => ?_
      obtain ⟨hlong', _, _⟩ := slot_bounds r
      show nicWrite s.rxBuffer s.nicOffset (f.header ++ f.bytes) _ = _
      rw [nicWrite_eq, hwrite]
      refine if_neg fun hin => ?_
      -- byte `i` of the frame would be byte `k` of the new one
      obtain ⟨k, hk⟩ := Nat.exists_eq_add_of_le hin.1
      have hbytes : (f.header ++ f.bytes).length = f.bytes.length + 4 := by
        rw [List.length_append, Nat.add_comm]
        rfl
      exact RecordRing.position_ne (v := w) (x := i) (e := e) (y := k) (by omega) (by omega) hk
    refine hkeep.append ?_
    rw [← hwrite]
    exact holds_nicWrite s.rxBuffer hplace

/-- Nothing is read from an empty queue. -/
theorem QueueAt.round_nil {s : Receiver} {v e : Nat} (h : QueueAt s [] v e) : s.round = none := by
  have hempty : v = e := h.chain
  refine if_pos ?_
  rw [h.write, h.read, hempty]

/-- The driver copies a frame that is stored in the ring. -/
theorem deliver_packet {s : Receiver} {f : RxFrame} (h : Holds s.rxBuffer s.rxOffset f) :
    (List.range (f.bytes.length - 4)).map (s.packetTemp f.bytes.length) = f.packet ∧
      s.copied f.bytes.length = f.bytes.length - 4 := by
  have hrange := f.length_range
  have hplace := h.place
  simp only [StoresInRing] at hplace
  have htemp : ∀ i, i < f.bytes.length - 4 →
      s.packetTemp f.bytes.length i = f.bytes.getD i 0 := by
    intro i hi
    rw [← h.bytes i (by omega), packetTemp]
    refine if_neg fun hsecond => ?_
    have hpart : s.firstPart ≤ i := hsecond.2
    rw [firstPart] at hpart
    omega
  constructor
  · refine List.ext_getElem (by simp [RxFrame.packet]) fun i hi hi' => ?_
    have hi4 : i < f.bytes.length - 4 := by simpa using hi
    rw [List.getElem_map, List.getElem_range, htemp i hi4]
    simp [RxFrame.packet, List.getD, show i < f.bytes.length by omega]
  · unfold copied firstPart
    split
    next hwrap => omega
    next => omega

/-- A frame at any other place either makes the second count of `memcpy` negative, and so
larger than `packet_temp`, or gets its last bytes from the start of the ring. -/
theorem deliver_elsewhere {s : Receiver} {f : RxFrame} (hoff : s.rxOffset + 4 ≤ 8192)
    (h : ¬ StoresInRing s.rxOffset f) :
    packetTempSize < s.copied f.bytes.length ∨
      s.firstPart < f.bytes.length - 4 ∧
        ∀ i, s.packetTemp f.bytes.length (s.firstPart + i) = s.rxBuffer i := by
  have hrange := f.length_range
  simp only [StoresInRing, not_or] at h
  have hwrap : s.rxOffset + f.bytes.length + 4 > 8192 := by omega
  by_cases hend : s.rxOffset + f.bytes.length < 8192
  · left
    rw [copied, if_pos hwrap, firstPart, packetTempSize]
    omega
  · refine Or.inr ⟨?_, fun i => ?_⟩
    · rw [firstPart]
      omega
    · rw [packetTemp, if_pos ⟨hwrap, Nat.le_add_right _ _⟩, Nat.add_sub_cancel_left]

/-- The driver takes the first frame from the queue and delivers it. -/
theorem QueueAt.round_cons {s : Receiver} {f : RxFrame} {fs : List RxFrame} {v e : Nat}
    (h : QueueAt s (f :: fs) v e) :
    ∃ s', s.round = some s' ∧ s'.delivered = s.delivered ++ [f.packet] ∧
      s'.overrun = s.overrun ∧ QueueAt s' fs (v + f.slot) e := by
  obtain ⟨hread, hwrite, ⟨hv, he⟩, hless, hholds, hchain⟩ := h
  have hle := hchain.le
  obtain ⟨hlong, hshort, hslot⟩ := slot_bounds f
  have hrange := f.length_range
  rw [← hread] at hholds
  obtain ⟨hpacket, hcopied⟩ := deliver_packet hholds
  have hbusy : ¬ s.nicOffset = s.rxOffset := by omega
  have hok : ¬ load s.rxBuffer 2 s.rxOffset &&& 0x01 = 0 := by
    rw [hholds.status, Nat.and_one_is_mod, f.receiveOk.1]
    decide
  refine ⟨s.deliver f.bytes.length, ?_, ?_, ?_, ?_⟩
  · rw [round, if_neg hbusy, if_neg hok, hholds.length]
  · rw [deliver, hpacket]
  · have hfits : ¬ packetTempSize < s.copied f.bytes.length := by
      rw [hcopied, packetTempSize]
      omega
    simp [deliver, hfits]
  · have hoff : s.rxOffset % 4 = 0 := by omega
    have hnext : align4 (s.rxOffset + f.bytes.length + 4) = s.rxOffset + f.slot := by
      rw [Nat.add_assoc, align4_add hoff, RxFrame.slot]
    refine ⟨?_, hwrite, ⟨by omega, he⟩, by omega, hchain⟩
    show align4 (s.rxOffset + f.bytes.length + 4) % 8192 = _
    rw [hnext, hread]
    omega

/-- `rtl8139_handle_receive` delivers the whole queue, in order. -/
theorem Queue.handleReceive {s : Receiver} {pending : List RxFrame} (h : s.Queue pending)
    {fuel : Nat} (hfuel : pending.length ≤ fuel) :
    (rtl8139HandleReceive fuel s).delivered = s.delivered ++ pending.map RxFrame.packet ∧
      (rtl8139HandleReceive fuel s).overrun = s.overrun := by
  induction pending generalizing s fuel with
  | nil =>
    obtain ⟨v, e, hqueue⟩ := h
    have hdone : rtl8139HandleReceive fuel s = s := by
      cases fuel with
      | zero => rfl
      | succ fuel => rw [rtl8139HandleReceive, hqueue.round_nil]
    rw [hdone, List.map_nil, List.append_nil]
    exact ⟨rfl, rfl⟩
  | cons f fs ih =>
    obtain ⟨v, e, hqueue⟩ := h
    obtain ⟨s', hround, hdelivered, hoverrun, hqueue'⟩ := hqueue.round_cons
    cases fuel with
    | zero => exact absurd hfuel (Nat.not_succ_le_zero _)
    | succ fuel =>
      obtain ⟨hrest, hkept⟩ := ih ⟨_, _, hqueue'⟩ (Nat.le_of_succ_le_succ hfuel)
      rw [rtl8139HandleReceive, hround]
      refine ⟨?_, hkept.trans hoverrun⟩
      show (rtl8139HandleReceive fuel s').delivered = _
      rw [hrest, hdelivered, List.append_assoc]
      rfl

end Receiver

/-! ## Runs -/

/-- The receiver with the frames that the device stored, oldest first, and the end of the
highest byte that it wrote. -/
structure ReceiveRun where
  receiver : Receiver
  received : List RxFrame
  storedEnd : Nat

/-- A frame comes in, or the loop of `rtl8139_handle_receive` makes a round. -/
inductive RxEvent
  | frame (f : RxFrame)
  | round

namespace ReceiveRun

/-- After `rtl8139_init`. -/
def Initial (s : ReceiveRun) : Prop :=
  s.receiver.rxOffset = 0 ∧ s.receiver.nicOffset = 0 ∧ s.receiver.delivered = [] ∧
    s.receiver.overrun = false ∧ s.received = [] ∧ s.storedEnd = 0

/-- A frame for which there is no room is dropped by the device. -/
def step (s : ReceiveRun) : RxEvent → ReceiveRun
  | .frame f =>
    if s.receiver.HasRoom f then
      { receiver := s.receiver.store f
        received := s.received ++ [f]
        storedEnd := max s.storedEnd (s.receiver.nicOffset + 4 + f.bytes.length) }
    else s
  | .round => { s with receiver := s.receiver.round.getD s.receiver }

/-- A frame that the device stores has its place in the ring. -/
def Allowed (s : ReceiveRun) : RxEvent → Prop
  | .frame f => s.receiver.HasRoom f → Receiver.StoresInRing s.receiver.nicOffset f
  | .round => True

/-- What was received has been delivered or is in the queue, and no copy and no byte of the
device was outside its buffer. -/
structure Inv (s : ReceiveRun) : Prop where
  queue : ∃ pending, s.receiver.Queue pending ∧
    s.received.map RxFrame.packet = s.receiver.delivered ++ pending.map RxFrame.packet ∧
    pending.length ≤ s.received.length
  intact : s.receiver.overrun = false
  stored : s.storedEnd ≤ rxBufferSize

end ReceiveRun

/-- All frames, with rounds of the driver at any time. -/
def rxEvents : TransitionSystem ReceiveRun RxEvent where
  init := ReceiveRun.Initial
  allowed := fun _ _ => True
  step := ReceiveRun.step

/-- The runs whose frames have their places in the ring. -/
def rxRuns : TransitionSystem ReceiveRun RxEvent where
  init := ReceiveRun.Initial
  allowed := ReceiveRun.Allowed
  step := ReceiveRun.step

namespace ReceiveRun

theorem inv_of_initial {s : ReceiveRun} (h : s.Initial) : s.Inv := by
  obtain ⟨hread, hwrite, hdelivered, hoverrun, hreceived, hstored⟩ := h
  refine ⟨⟨[], ⟨0, 0, hread, hwrite, ⟨rfl, rfl⟩, by decide, rfl⟩, ?_, ?_⟩, hoverrun, ?_⟩
  · rw [hreceived, hdelivered]
    rfl
  · exact Nat.zero_le _
  · rw [hstored]
    exact Nat.zero_le _

theorem Inv.frame {s : ReceiveRun} (h : s.Inv) {f : RxFrame} (hallowed : s.Allowed (.frame f)) :
    (s.step (.frame f)).Inv := by
  by_cases hroom : s.receiver.HasRoom f
  · obtain ⟨⟨pending, ⟨v, e, hqueue⟩, hreceived, hcount⟩, hoverrun, hstored⟩ := h
    have hplace := hallowed hroom
    rw [step, if_pos hroom]
    refine ⟨⟨pending ++ [f], ⟨v, _, hqueue.store hroom hplace⟩, ?_, ?_⟩, hoverrun, ?_⟩
    · rw [List.map_append, List.map_append, hreceived, List.append_assoc]
      rfl
    · rw [List.length_append, List.length_append]
      exact Nat.add_le_add_right hcount 1
    · refine Nat.max_le.mpr ⟨hstored, ?_⟩
      simp only [Receiver.StoresInRing] at hplace
      rw [rxBufferSize]
      omega
  · rw [step, if_neg hroom]
    exact h

theorem Inv.round {s : ReceiveRun} (h : s.Inv) : (s.step .round).Inv := by
  obtain ⟨⟨pending, ⟨v, e, hqueue⟩, hreceived, hcount⟩, hoverrun, hstored⟩ := h
  unfold step
  cases pending with
  | nil =>
    rw [hqueue.round_nil]
    exact ⟨⟨[], ⟨v, e, hqueue⟩, hreceived, hcount⟩, hoverrun, hstored⟩
  | cons f fs =>
    obtain ⟨s', hround, hdelivered, hkept, hqueue'⟩ := hqueue.round_cons
    rw [hround]
    refine ⟨⟨fs, ⟨_, _, hqueue'⟩, ?_, Nat.le_of_succ_le hcount⟩, hkept.trans hoverrun, hstored⟩
    show _ = s'.delivered ++ _
    rw [hreceived, hdelivered, List.append_assoc]
    rfl

end ReceiveRun

theorem reachable_receiveInv {s : ReceiveRun} (h : rxRuns.Reachable s) : s.Inv := by
  refine h.invariant ?_ ?_
  · intro s hinit
    exact ReceiveRun.inv_of_initial hinit
  · intro s event _ hinv hallowed
    cases event with
    | frame f => exact hinv.frame hallowed
    | round => exact hinv.round

/-- In every run whose frames have their places in the ring, the device stores nothing
outside the buffer. What has been delivered are the first frames received, and the next
`rtl8139_handle_receive` delivers all others, with no copy over the end of `packet_temp`. -/
theorem run_receive {s : ReceiveRun} (h : rxRuns.Reachable s) :
    s.storedEnd ≤ rxBufferSize ∧
      s.receiver.delivered <+: s.received.map RxFrame.packet ∧
      ∀ fuel, s.received.length ≤ fuel →
        (s.receiver.rtl8139HandleReceive fuel).delivered = s.received.map RxFrame.packet ∧
          (s.receiver.rtl8139HandleReceive fuel).overrun = false := by
  obtain ⟨⟨pending, hqueue, hreceived, hcount⟩, hoverrun, hstored⟩ := reachable_receiveInv h
  refine ⟨hstored, ⟨_, hreceived.symm⟩, fun fuel hfuel => ?_⟩
  obtain ⟨hdelivered, hkept⟩ := hqueue.handleReceive (Nat.le_trans hcount hfuel)
  exact ⟨hdelivered.trans hreceived.symm, hkept.trans hoverrun⟩

/-! ### Frames of the smallest and of the largest length -/

def shortFrame : RxFrame := ⟨1, List.replicate 64 7, by decide, by decide⟩
def longFrame : RxFrame :=
  ⟨1, List.replicate 1518 7, by decide, by rw [List.length_replicate]; decide⟩

/-- The receiver after `rtl8139_init`. -/
def sampleReceive : ReceiveRun where
  receiver :=
    { rxBuffer := fun _ => 0
      rxOffset := 0
      nicOffset := 0
      delivered := []
      overrun := false }
  received := []
  storedEnd := 0

theorem sampleReceive_initial : sampleReceive.Initial := ⟨rfl, rfl, rfl, rfl, rfl, rfl⟩

/-- A short frame that the driver has read. -/
def sampleRead : ReceiveRun :=
  rxRuns.step (rxRuns.step sampleReceive (.frame shortFrame)) .round

/-- Two short frames, the first of them read. -/
def sampleShort : ReceiveRun := rxRuns.step sampleRead (.frame shortFrame)

theorem sampleRead_reachable : rxRuns.Reachable sampleRead := by
  have hplace : rxRuns.allowed sampleReceive (.frame shortFrame) := fun _ => Or.inl (by decide)
  have hfirst := (TransitionSystem.Reachable.init (M := rxRuns) sampleReceive_initial).step hplace
  have hround : ∀ s, rxRuns.allowed s .round := fun _ => trivial
  have hread := hfirst.step (hround _)
  unfold sampleRead
  exact hread

theorem sampleShort_reachable : rxRuns.Reachable sampleShort := by
  have hplace : rxRuns.allowed sampleRead (.frame shortFrame) :=
    fun _ => Or.inl (by decide +kernel)
  exact sampleRead_reachable.step hplace

/-- Both frames are delivered by the next call. -/
theorem run_receive_sample :
    sampleShort.storedEnd ≤ rxBufferSize ∧
      (sampleShort.receiver.rtl8139HandleReceive 2).delivered =
        [List.replicate 60 7, List.replicate 60 7] := by
  obtain ⟨hstored, _, hdelivered⟩ := run_receive sampleShort_reachable
  have hreceived : sampleShort.received.map RxFrame.packet =
      [List.replicate 60 7, List.replicate 60 7] := by decide +kernel
  exact ⟨hstored, (hdelivered 2 (by decide +kernel)).1.trans hreceived⟩

/-- Six frames of the largest length, of which the driver has read five. -/
def sampleLong : ReceiveRun :=
  [RxEvent.frame longFrame, .round, .frame longFrame, .round, .frame longFrame, .round,
    .frame longFrame, .round, .frame longFrame, .round, .frame longFrame].foldl
    ReceiveRun.step sampleReceive

/-- The device stores the sixth frame over the end of the buffer, and the driver delivers
the start of the ring for the second part of it. -/
theorem receive_overflows :
    rxEvents.Reachable sampleLong ∧ rxBufferSize < sampleLong.storedEnd ∧
      (sampleLong.receiver.rtl8139HandleReceive 6).delivered ≠
        sampleLong.received.map RxFrame.packet := by
  refine ⟨?_, ?_, fun h => ?_⟩
  · exact (TransitionSystem.Reachable.init sampleReceive_initial).run fun _ _ _ => trivial
  · decide +kernel
  · have hbyte := congrArg (fun packets => (packets.getD 5 []).getD 568 0) h
    exact absurd hbyte (by decide +kernel)

/-! ## The copy out of a cyclic ring

On its own the two-part copy is meant for a ring that goes on at its start. The test for
the two parts counts the checksum, the copy does not. -/

/-- The values of `rx_offset`: 0, and what the update makes of a value for a frame of any
length. -/
def rxOffsets : TransitionSystem Nat Nat where
  init := fun off => off = 0
  allowed := fun _ size => 64 ≤ size ∧ size ≤ 1518
  step := fun off size => align4 (off + size + 4) % 8192

namespace Receiver

/-- The field `size` of the header at `rx_offset`. -/
def headerSize (s : Receiver) : Nat := load s.rxBuffer 2 (s.rxOffset + 2)

/-- The counts of the calls of `memcpy`, before they are converted to `unsigned int`. -/
def memcpyCounts (s : Receiver) (size : Nat) : List Int :=
  if s.rxOffset + size + 4 > 8192 then
    [8192 - (s.rxOffset + 4 : Int), size - 4 - (8192 - (s.rxOffset + 4 : Int))]
  else [size - 4]

/-- The frame at `rx_offset` is copied: no count is negative, the packet handed on is the
frame without its checksum, read around the ring, and the next value of `rx_offset` is
aligned and in the ring. -/
structure CopiesFrame (s : Receiver) : Prop where
  counts : ∀ n, n ∈ s.memcpyCounts s.headerSize → 0 ≤ n
  packet : (s.deliver s.headerSize).delivered = s.delivered ++
    [(List.range (s.headerSize - 4)).map fun i => s.rxBuffer ((s.rxOffset + 4 + i) % 8192)]
  offset : (s.deliver s.headerSize).rxOffset % 4 = 0 ∧ (s.deliver s.headerSize).rxOffset < 8192

theorem rxOffsets_aligned {off : Nat} (h : rxOffsets.Reachable off) : off % 4 = 0 ∧ off < 8192 := by
  refine h.invariant (P := fun off => off % 4 = 0 ∧ off < 8192) ?_ ?_
  · rintro off rfl
    decide
  · intro off size _ _ _
    simp only [rxOffsets, align4]
    omega

/-- The two parts are read around the ring. -/
theorem packetTemp_cyclic {s : Receiver} (hoff : s.rxOffset % 4 = 0 ∧ s.rxOffset < 8192)
    {size i : Nat} (hsize : size ≤ 1518) (hi : i < size - 4) :
    s.packetTemp size i = s.rxBuffer ((s.rxOffset + 4 + i) % 8192) := by
  rw [packetTemp]
  split
  next hsecond =>
    obtain ⟨_, hpart⟩ := hsecond
    rw [firstPart] at hpart ⊢
    congr 1
    omega
  next hfirst =>
    rw [firstPart] at hfirst
    congr 1
    omega

end Receiver

/-- At every value that `rx_offset` can have, with any ring and a header with any length, the
frame is copied exactly when it does not end in the last three bytes of the ring. The next
value of `rx_offset` is one of these values again. -/
theorem copiesFrame_iff {s : Receiver} (hreach : rxOffsets.Reachable s.rxOffset)
    (hsize : 64 ≤ s.headerSize ∧ s.headerSize ≤ 1518) :
    (s.CopiesFrame ↔
      ¬ (8188 < s.rxOffset + s.headerSize ∧ s.rxOffset + s.headerSize < 8192)) ∧
      rxOffsets.Reachable (s.deliver s.headerSize).rxOffset := by
  have hoff := Receiver.rxOffsets_aligned hreach
  have hnext : rxOffsets.Reachable (s.deliver s.headerSize).rxOffset := hreach.step hsize
  refine ⟨⟨fun h hend => ?_, fun hend => ⟨?_, ?_, Receiver.rxOffsets_aligned hnext⟩⟩, hnext⟩
  · -- the second count is what the frame has behind the end of the ring
    have hcount := h.counts (s.headerSize - 4 - (8192 - (s.rxOffset + 4 : Int))) (by
      rw [Receiver.memcpyCounts, if_pos (by omega)]
      simp)
    omega
  · intro n hn
    rw [Receiver.memcpyCounts] at hn
    split at hn
    next hwrap =>
      simp only [List.mem_cons, List.not_mem_nil, or_false] at hn
      omega
    next =>
      rw [List.mem_singleton] at hn
      omega
  · show s.delivered ++ _ = _
    refine congrArg (fun packet => s.delivered ++ [packet]) (List.map_congr_left fun i hi => ?_)
    exact Receiver.packetTemp_cyclic hoff hsize.2 (List.mem_range.mp hi)

/-- A ring with a header for `size` bytes at `off`. -/
def ringAt (off size : Nat) : Receiver where
  rxBuffer := fun p =>
    if off + 2 ≤ p ∧ p < off + 4 then byteOf size (p - (off + 2)) else UInt8.ofNat p
  rxOffset := off
  nicOffset := 0
  delivered := []
  overrun := false

theorem rxOffsets_run {sizes : List Nat} (h : ∀ size, size ∈ sizes → 64 ≤ size ∧ size ≤ 1518) :
    rxOffsets.Reachable (sizes.foldl rxOffsets.step 0) :=
  (TransitionSystem.Reachable.init rfl).run fun size hmem _ => h size hmem

/-- A frame of 100 bytes at 8120, of which 28 bytes are at the start of the ring. -/
theorem copiesFrame_wrapped : (ringAt 8120 100).CopiesFrame := by
  have hreach : rxOffsets.Reachable 8120 :=
    @rxOffsets_run [1518, 1518, 1518, 1518, 1518, 496] (by decide)
  exact (copiesFrame_iff (s := ringAt 8120 100) hreach (by decide)).1.mpr (by decide)

/-- A frame of 65 bytes at 8124 ends three bytes in front of the end of the ring: the count
of the second call is -3, which `memcpy` takes as 4294967293. -/
theorem copy_count_negative :
    rxOffsets.Reachable (ringAt 8124 65).rxOffset ∧ (ringAt 8124 65).headerSize = 65 ∧
      (ringAt 8124 65).memcpyCounts 65 = [64, -3] ∧ (ringAt 8124 65).copied 65 = 64 + 4294967293 ∧
      ¬ (ringAt 8124 65).CopiesFrame := by
  refine ⟨?_, by decide, by decide, by decide, fun h => ?_⟩
  · exact @rxOffsets_run [1518, 1518, 1518, 1518, 1518, 500] (by decide)
  · exact absurd (h.counts (-3) (by decide)) (by decide)

end Newrex
