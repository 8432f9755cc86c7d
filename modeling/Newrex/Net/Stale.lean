import Newrex.Net.Frames

/-!
# Bytes behind the frame

The handlers get the receive buffer and the size of the frame in it. Behind the frame are
the bytes of earlier frames. `DependsOnFrame` says that the handling of a frame does not
depend on them, and `InFrame` when every byte that a handler looks at is in the frame:

* the ARP handler checks the size of the frame, and the ICMP handler that the datagram is
  in the frame, but not that the ICMP header is;
* the UDP and the TCP handler check nothing. Their length fields reach behind the frame.

`dependsOnFrame_iff` is the result: the two agree for every frame.
-/

namespace Newrex

open LittleEndian

/-! ## The same frame in two buffers -/

/-- The buffers agree on their first `size` bytes. -/
def SameFrame (size : Int) (p q : Nat → UInt8) : Prop := ∀ i : Nat, (i : Int) < size → p i = q i

namespace SameFrame

variable {size : Int} {p q r : Nat → UInt8}

theorem refl (size : Int) (p : Nat → UInt8) : SameFrame size p p := fun _ _ => rfl

theorem trans (h : SameFrame size p q) (h' : SameFrame size q r) : SameFrame size p r :=
  fun i hi => (h i hi).trans (h' i hi)

theorem storeBytes {off : Nat} (p : Nat → UInt8) (bytes : List UInt8) (hoff : size ≤ off) :
    SameFrame size p (storeBytes p off bytes) :=
  fun _ hi => (storeBytes_outside (Or.inl (by omega))).symm

/-- A field whose second byte is behind the frame, and whose first byte is too or keeps its
value. -/
theorem store_two {off v : Nat} (p : Nat → UInt8) (hend : size ≤ off + 1)
    (hfirst : (off : Int) < size → p off = byteOf v 0) : SameFrame size p (store p 2 off v) := by
  intro i hi
  rcases Nat.lt_or_ge i off with hlow | hhigh
  · exact (store_outside (Or.inl hlow)).symm
  · obtain rfl : i = off := by omega
    rw [hfirst hi]
    exact (store_inside (i := 0) Nat.zero_lt_two).symm

theorem load (h : SameFrame size p q) {n off : Nat} (hn : ((off + n : Nat) : Int) ≤ size) :
    load p n off = load q n off :=
  load_congr fun _ hi => h _ (by omega)

theorem addressAt (h : SameFrame size p q) {n off : Nat} (hn : ((off + n : Nat) : Int) ≤ size) :
    addressAt p n off = addressAt q n off :=
  addressAt_congr fun _ hi => h _ (by omega)

end SameFrame

/-! ## Outcomes -/

namespace Host

/-- The characters on the console. -/
def characters (s : Host) : List UInt8 := s.console.flatMap Print.characters

/-- The same characters printed, the same frames sent and the same state left. -/
structure SameOutcome (r r' : Host) : Prop where
  characters : r.characters = r'.characters
  state : { r with console := [] } = { r' with console := [] }

/-- The handling of the frame of `size` bytes in `packet` does not depend on the bytes
behind it. -/
def DependsOnFrame (s : Host) (garbage packet : Nat → UInt8) (size : Int) : Prop :=
  ∀ packet', SameFrame size packet packet' →
    SameOutcome (s.handleEthernetPacket garbage packet size)
      (s.handleEthernetPacket garbage packet' size)

/-! ## What the handlers look at -/

/-- The type of the ICMP message is in the frame, and of an echo reply also the checksum, or
its first byte if this is enough to see that the checksum is wrong. A datagram that is not
in the frame is dropped. -/
def IcmpInFrame (packet : Nat → UInt8) (size : Int) : Prop :=
  size < payloadOffset packet + icmpLen packet ∨
    ((payloadOffset packet : Int) < size ∧
      (icmpType packet (payloadOffset packet) = 0 →
        (payloadOffset packet : Int) + 4 ≤ size ∨
          (payloadOffset packet : Int) + 3 = size ∧
            (packet (payloadOffset packet + 2)).toNat ≠
              calculatedChecksum packet (payloadOffset packet) % 256))

/-- The length field is in the frame, and the payload that is printed. -/
def UdpInFrame (packet : Nat → UInt8) (size : Int) : Prop :=
  (payloadOffset packet : Int) + 6 ≤ size ∧
    (0 < udpDataLen packet (payloadOffset packet) →
      payloadOffset packet + udpHeaderSize + min (udpDataLen packet (payloadOffset packet)) 64 ≤
        size)

/-- The destination port is in the frame, or its first byte if this is not 0. For the port
of the responder also the flags are, and the payload that is printed. -/
def TcpInFrame (s : Net) (packet : Nat → UInt8) (size : Int) : Prop :=
  ((payloadOffset packet : Int) + 4 ≤ size ∨
    (payloadOffset packet : Int) + 3 = size ∧ packet (payloadOffset packet + 2) ≠ 0) ∧
  (tcpDestPort packet (payloadOffset packet) = tcpLocalPort →
    (payloadOffset packet : Int) + 14 ≤ size ∧
      (s.CarriesData packet →
        payloadOffset packet + Net.tcpHeaderLen packet (payloadOffset packet) +
          min (Net.tcpDataLen packet (payloadOffset packet) (ipHeaderLen packet)) 128 ≤ size))

/-- What the handler of the frame looks at is in the frame. -/
def InFrame (s : Host) (packet : Nat → UInt8) (size : Int) : Prop :=
  match handlerOf myIp packet size with
  | some .icmp => IcmpInFrame packet size
  | some .udp => UdpInFrame packet size
  | some .tcp => TcpInFrame s.toNet packet size
  | some .arp => True
  | none => True

/-! ## Frames whose handling depends on them only -/

end Host

theorem ipChecksumInt_congr {data data' : Nat → UInt8} {off : Nat} {length : Int}
    (hpos : 0 < off + length) (h : ∀ i : Nat, (i : Int) < off + length → data i = data' i) :
    ipChecksumInt data off length = ipChecksumInt data' off length := by
  have hsum : sumWords data off (length / 2).toNat = sumWords data' off (length / 2).toNat :=
    sumWords_congr fun i hi => h _ (by omega)
  have hlast : data (off + length - 1).toNat = data' (off + length - 1).toNat := h _ (by omega)
  simp only [ipChecksumInt, hsum, hlast]

section Congruence

variable {size : Int} {p q : Nat → UInt8}

theorem SameFrame.ethType (h : SameFrame size p q) (hsize : 14 ≤ size) :
    ethType p = ethType q := congrArg ntohs (h.load (by omega))

namespace SameFrame

variable (h : SameFrame size p q) (hsize : 34 ≤ size)
include h hsize

theorem ipHeaderLen : ipHeaderLen p = ipHeaderLen q := by
  have hbyte : p ethHeaderSize = q ethHeaderSize := h 14 (by omega)
  rw [Newrex.ipHeaderLen, Newrex.ipHeaderLen, ipVerIhl, ipVerIhl, hbyte]

theorem ipLen : ipLen p = ipLen q := congrArg ntohs (h.load (by simp [ethHeaderSize]; omega))

theorem ipSrc : ipSrc p = ipSrc q := h.addressAt (by simp [ethHeaderSize]; omega)

theorem payloadOffset : payloadOffset p = payloadOffset q := by
  rw [Newrex.payloadOffset, Newrex.payloadOffset, h.ipHeaderLen hsize]

theorem icmpLen : icmpLen p = icmpLen q := by
  rw [Newrex.icmpLen, Newrex.icmpLen, h.ipLen hsize, h.ipHeaderLen hsize]

end SameFrame

theorem handlerOf_congr (h : SameFrame size p q) (ip : IpAddress) :
    handlerOf ip p size = handlerOf ip q size := by
  by_cases hshort : size < ethHeaderSize
  · rw [handlerOf, handlerOf, if_pos hshort, if_pos hshort]
  · have hlong : (14 : Int) ≤ size := Int.not_lt.mp hshort
    rw [handlerOf, handlerOf, h.ethType hlong]
    by_cases hip : size < ethHeaderSize + ipv4HeaderSize
    · simp only [if_pos hip]
    · have hip' : (34 : Int) ≤ size := Int.not_lt.mp hip
      have hdest : ipDest p = ipDest q := h.addressAt (by simp [ethHeaderSize]; omega)
      have hproto : ipProto p = ipProto q := h 23 (by omega)
      rw [hdest, hproto]

/-- A frame for the other handlers has an IPv4 header. -/
theorem handlerOf_size {ip : IpAddress} {handler : Handler}
    (h : handlerOf ip p size = some handler) (hne : handler ≠ .arp) : 34 ≤ size := by
  unfold handlerOf at h
  split at h
  next => cases h
  next =>
    split at h
    next => exact absurd (Option.some.inj h).symm hne
    next =>
      split at h
      next =>
        split at h
        next => cases h
        next hsize => exact Int.not_lt.mp hsize
      next => cases h

theorem handleArpPacket_congr (s : Net) (h : SameFrame size p q) :
    s.handleArpPacket p size = s.handleArpPacket q size := by
  by_cases hshort : size < ethHeaderSize + arpPacketSize
  · rw [Net.handleArpPacket, Net.handleArpPacket, if_pos hshort, if_pos hshort]
  · have hlong : (42 : Int) ≤ size := Int.not_lt.mp hshort
    have hmac : arpSenderMac p = arpSenderMac q := h.addressAt (by simp [ethHeaderSize]; omega)
    have hip : arpSenderIp p = arpSenderIp q := h.addressAt (by simp [ethHeaderSize]; omega)
    have htarget : arpTargetIp p = arpTargetIp q := h.addressAt (by simp [ethHeaderSize]; omega)
    have hopcode : arpOpcode p = arpOpcode q :=
      congrArg ntohs (h.load (by simp [ethHeaderSize]; omega))
    rw [Net.handleArpPacket, Net.handleArpPacket, hmac, hip, htarget, hopcode]

/-! ### ICMP -/

/-- The end of the datagram, which is behind the Ethernet header. -/
theorem datagram_end (p : Nat → UInt8) :
    (payloadOffset p : Int) + icmpLen p = 14 + ipLen p := by
  simp only [payloadOffset, icmpLen, ethHeaderSize]
  omega

theorem calculatedChecksum_congr (h : SameFrame size p q) (hsize : 34 ≤ size)
    (hend : payloadOffset p + icmpLen p ≤ size) :
    Host.calculatedChecksum p (payloadOffset p) = Host.calculatedChecksum q (payloadOffset q) := by
  have hpos := datagram_end p
  rw [Host.calculatedChecksum, Host.calculatedChecksum, ← h.payloadOffset hsize,
    ← h.icmpLen hsize]
  refine ipChecksumInt_congr (by omega) fun i hi => ?_
  simp only [store]
  rw [h i (by omega)]

theorem echoReply_congr (s : Net) (garbage : Nat → UInt8) (h : SameFrame size p q)
    (hsize : 34 ≤ size) (hend : payloadOffset p + icmpLen p ≤ size) :
    s.echoReply garbage p = s.echoReply garbage q := by
  have hpos := datagram_end p
  have hcopy : (fun i => if i < ethHeaderSize + ipLen p then p i else garbage i) =
      fun i => if i < ethHeaderSize + ipLen p then q i else garbage i := by
    funext i
    split
    next hi =>
      rw [ethHeaderSize] at hi
      exact h i (by omega)
    next => rfl
  simp only [Net.echoReply, hcopy]
  rw [h.payloadOffset hsize, h.ipLen hsize, h.icmpLen hsize, h.ipHeaderLen hsize]

/-- The checksum field, whose second byte need not be looked at when the first one is
wrong. -/
theorem icmpChecksum_congr (h : SameFrame size p q) {off c : Nat}
    (hin : (off : Int) + 4 ≤ size ∨ (off : Int) + 3 = size ∧ (p (off + 2)).toNat ≠ c % 256) :
    icmpChecksum p off ≠ c ↔ icmpChecksum q off ≠ c := by
  rcases hin with hin | ⟨hin, hlow⟩
  · rw [icmpChecksum, icmpChecksum, h.load (by omega)]
  · have hbyte : p (off + 2) = q (off + 2) := h _ (by omega)
    have hne : ∀ b : Nat → UInt8, (b (off + 2)).toNat ≠ c % 256 → icmpChecksum b off ≠ c := by
      intro b hb heq
      rw [icmpChecksum, load] at heq
      have := (b (off + 2)).toNat_lt
      omega
    exact ⟨fun _ => hne q (hbyte ▸ hlow), fun _ => hne p hlow⟩

theorem handleIcmpPacket_congr (s : Host) (garbage : Nat → UInt8) (h : SameFrame size p q)
    (hsize : 34 ≤ size) (hin : Host.IcmpInFrame p size) :
    s.handleIcmpPacket garbage p size = s.handleIcmpPacket garbage q size := by
  simp only [Host.handleIcmpPacket]
  rw [← h.payloadOffset hsize, ← h.icmpLen hsize]
  by_cases hdrop : size < payloadOffset p + icmpLen p
  · simp only [if_pos hdrop]
  · have hend : payloadOffset p + icmpLen p ≤ size := Int.not_lt.mp hdrop
    obtain ⟨hhead, hsum⟩ := hin.resolve_left hdrop
    have htype : icmpType p (payloadOffset p) = icmpType q (payloadOffset p) := h _ hhead
    have hcalc := calculatedChecksum_congr h hsize hend
    rw [← h.payloadOffset hsize] at hcalc
    rw [← htype, echoReply_congr s.toNet garbage h hsize hend, ← h.ipLen hsize, ← h.ipSrc hsize]
    by_cases hzero : icmpType p (payloadOffset p) = 0
    · rw [← hcalc]
      simp only [icmpChecksum_congr h (hsum hzero)]
    · simp only [if_neg hzero]

/-! ### UDP -/

theorem handleUdpPacket_congr (s : Net) (h : SameFrame size p q) (hsize : 34 ≤ size)
    (hin : Host.UdpInFrame p size) :
    s.handleUdpPacket p (payloadOffset p) = s.handleUdpPacket q (payloadOffset q) := by
  obtain ⟨hhead, hdata⟩ := hin
  rw [← h.payloadOffset hsize]
  generalize payloadOffset p = off at hhead hdata ⊢
  have hport : udpSrcPort p off = udpSrcPort q off := congrArg ntohs (h.load (by omega))
  have hlen : udpDataLen p off = udpDataLen q off := by
    rw [udpDataLen, udpDataLen, udpLen, udpLen, h.load (by omega)]
  have hbytes : ∀ i ∈ List.range (min (udpDataLen p off).toNat 64),
      Print.char (Net.printable (p (off + udpHeaderSize + i))) =
        Print.char (Net.printable (q (off + udpHeaderSize + i))) := by
    intro i hi
    have hi' := List.mem_range.mp hi
    rw [h _ (by have := hdata (by omega); omega)]
  simp only [Net.handleUdpPacket, ← hport, ← hlen, ← h.ipSrc hsize]
  rw [Net.printChars_eq _ fun i => Net.printable (p (off + udpHeaderSize + i)),
    Net.printChars_eq _ fun i => Net.printable (q (off + udpHeaderSize + i)),
    List.map_congr_left hbytes]

/-! ### TCP -/

/-- The destination port, whose second byte need not be looked at when the first one is
not 0. -/
theorem tcpDestPort_congr (h : SameFrame size p q) {off : Nat}
    (hin : (off : Int) + 4 ≤ size ∨ (off : Int) + 3 = size ∧ p (off + 2) ≠ 0) :
    tcpDestPort p off = tcpLocalPort ↔ tcpDestPort q off = tcpLocalPort := by
  rcases hin with hin | ⟨hin, hhigh⟩
  · rw [tcpDestPort, tcpDestPort, h.load (by omega)]
  · have hbyte : p (off + 2) = q (off + 2) := h _ (by omega)
    have hne : ∀ b : Nat → UInt8, b (off + 2) ≠ 0 → tcpDestPort b off ≠ tcpLocalPort := by
      intro b hb heq
      rw [tcpDestPort, ntohs_load, tcpLocalPort] at heq
      exact hb (UInt8.toNat.inj (by simp; omega))
    exact ⟨fun hp => absurd hp (hne p hhigh), fun hq => absurd hq (hne q (hbyte ▸ hhigh))⟩

section Fields

variable (h : SameFrame size p q) {off : Nat} (hhead : (off : Int) + 14 ≤ size)
include h hhead

theorem tcpSeqNum_congr : tcpSeqNum p off = tcpSeqNum q off :=
  congrArg ntohl (h.load (by omega))

theorem tcpFlagsField_congr : tcpFlagsField p off = tcpFlagsField q off :=
  congrArg ntohs (h.load (by omega))

theorem tcpFlags_congr : tcpFlags p off = tcpFlags q off := by
  rw [tcpFlags, tcpFlags, tcpFlagsField_congr h hhead]

theorem tcpHeaderLen_congr : Net.tcpHeaderLen p off = Net.tcpHeaderLen q off := by
  rw [Net.tcpHeaderLen, Net.tcpHeaderLen, tcpFlagsField_congr h hhead]

theorem tcpDataLen_congr {len : Nat} (hlen : ipLen p = ipLen q) :
    Net.tcpDataLen p off len = Net.tcpDataLen q off len := by
  rw [Net.tcpDataLen, Net.tcpDataLen, hlen, tcpHeaderLen_congr h hhead]

end Fields

/-- Payload that is printed and acknowledged in the same way. -/
theorem receiveData_congr (s : Net) (h : SameFrame size p q) {off len : Nat}
    (hlen : ipLen p = ipLen q) (hhead : (off : Int) + 14 ≤ size)
    (hdata : 0 < Net.tcpDataLen p off len →
      off + Net.tcpHeaderLen p off + min (Net.tcpDataLen p off len) 128 ≤ size) :
    s.receiveData p off len = s.receiveData q off len := by
  simp only [Net.receiveData, ← tcpSeqNum_congr h hhead, ← tcpHeaderLen_congr h hhead,
    ← tcpDataLen_congr h hhead hlen]
  split
  next hpos =>
    have hbytes : ∀ i ∈ List.range (min (Net.tcpDataLen p off len).toNat 128),
        Print.char (Net.printable (p (off + Net.tcpHeaderLen p off + i))) =
          Print.char (Net.printable (q (off + Net.tcpHeaderLen p off + i))) := by
      intro i hi
      have hi' := List.mem_range.mp hi
      have hend := hdata hpos
      rw [h _ (by omega)]
    simp only [Net.printData]
    rw [Net.printChars_eq _ fun i => Net.printable (p (off + Net.tcpHeaderLen p off + i)),
      Net.printChars_eq _ fun i => Net.printable (q (off + Net.tcpHeaderLen p off + i)),
      List.map_congr_left hbytes]
  next => rfl

theorem beforeFin_congr (s : Net) (h : SameFrame size p q) (hsize : 34 ≤ size)
    (hhead : (tcpOffset p : Int) + 14 ≤ size)
    (hdata : s.CarriesData p → tcpOffset p + Net.tcpHeaderLen p (tcpOffset p) +
      min (Net.tcpDataLen p (tcpOffset p) (ipHeaderLen p)) 128 ≤ size) :
    s.beforeFin p = s.beforeFin q := by
  have hoff : tcpOffset q = tcpOffset p := (h.payloadOffset hsize).symm
  have hopen : s.openConnection q (tcpOffset p) = s.openConnection p (tcpOffset p) := by
    have hport : tcpSrcPort p (tcpOffset p) = tcpSrcPort q (tcpOffset p) :=
      congrArg ntohs (h.load (by omega))
    rw [Net.openConnection, Net.openConnection, hport, tcpSeqNum_congr h hhead, h.ipSrc hsize]
  rw [Net.beforeFin, Net.beforeFin, hoff, ← h.ipHeaderLen hsize, Net.handleTcpSegment,
    Net.handleTcpSegment, ← tcpFlags_congr h hhead, hopen]
  split
  next => rfl
  next hsyn =>
    split
    next => rfl
    next hack =>
      split
      next hpsh =>
        refine receiveData_congr s h (h.ipLen hsize) hhead fun hpos => ?_
        exact hdata ⟨hsyn, hack, hpsh, hpos⟩
      next => rfl

theorem receive_congr (s : Net) (h : SameFrame size p q) (hsize : 34 ≤ size)
    (hin : Host.TcpInFrame s p size) : s.receive p = s.receive q := by
  have hoff : tcpOffset p = tcpOffset q := h.payloadOffset hsize
  have hports : ToLocalPort p ↔ ToLocalPort q := by
    rw [ToLocalPort, ToLocalPort, ← hoff]
    exact tcpDestPort_congr h hin.1
  by_cases hport : ToLocalPort p
  · obtain ⟨hhead, hdata⟩ := hin.2 hport
    have hhead' : (tcpOffset p : Int) + 14 ≤ size := hhead
    rw [Net.receive_of_toLocalPort hport, Net.receive_of_toLocalPort (hports.mp hport),
      ← beforeFin_congr s h hsize hhead hdata, ← hoff, Net.handleTcpFin, Net.handleTcpFin,
      tcpFlags_congr h hhead', tcpSeqNum_congr h hhead']
  · rw [Net.receive_of_not_toLocalPort hport,
      Net.receive_of_not_toLocalPort fun hq => hport (hports.mpr hq)]

end Congruence

namespace Host

/-- A frame that holds what its handler looks at is handled in the same way in every
buffer. -/
theorem handleEthernetPacket_congr (s : Host) (garbage : Nat → UInt8) {size : Int}
    {p q : Nat → UInt8} (h : SameFrame size p q) (hin : s.InFrame p size) :
    s.handleEthernetPacket garbage p size = s.handleEthernetPacket garbage q size := by
  rw [handleEthernetPacket_eq, handleEthernetPacket_eq, ← handlerOf_congr h myIp]
  unfold InFrame at hin
  cases hhandler : handlerOf myIp p size with
  | none => rfl
  | some handler =>
    rw [hhandler] at hin
    cases handler with
    | arp =>
      simp only [Option.map_some, Option.getD_some, runHandler, handleArpPacket_congr s.toNet h]
    | icmp => exact handleIcmpPacket_congr s garbage h (handlerOf_size hhandler (by decide)) hin
    | udp =>
      have hsize := handlerOf_size hhandler (by decide)
      simp only [Option.map_some, Option.getD_some, runHandler,
        handleUdpPacket_congr s.toNet h hsize hin]
    | tcp =>
      have heq := receive_congr s.toNet h (handlerOf_size hhandler (by decide)) hin
      exact congrArg (fun net => { s with toNet := net }) heq

/-! ## Frames whose handling depends on stale bytes -/

section Stale

variable {s : Host} {garbage packet : Nat → UInt8} {size : Int}

theorem DependsOnFrame.run_eq (hdep : s.DependsOnFrame garbage packet size) {handler : Handler}
    (hhandler : handlerOf myIp packet size = some handler) {p q : Nat → UInt8}
    (hp : SameFrame size packet p) (hq : SameFrame size packet q) :
    (s.runHandler garbage p size handler).characters =
      (s.runHandler garbage q size handler).characters := by
  have hrun : ∀ {r : Nat → UInt8}, SameFrame size packet r →
      s.handleEthernetPacket garbage r size = s.runHandler garbage r size handler := by
    intro r hr
    rw [handleEthernetPacket_eq, ← handlerOf_congr hr myIp, hhandler]
    rfl
  rw [← hrun hp, ← hrun hq]
  exact (hdep p hp).characters.symm.trans (hdep q hq).characters

/-! ### ICMP -/

/-- What an echo reply prints. -/
def echoPrints (packet : Nat → UInt8) : List Print :=
  if icmpChecksum packet (payloadOffset packet) ≠
      calculatedChecksum packet (payloadOffset packet) then
    [.literal "Warning: ICMP Ping checksum invalid.\n" colorLightRed]
  else
    .literal "Reply from " colorWhite ::
      (Net.dottedAddress (ipSrc packet) ++ [.literal "\n" colorWhite])

theorem handleIcmpPacket_echo (s : Host) (garbage : Nat → UInt8) {p : Nat → UInt8}
    (hend : payloadOffset p + icmpLen p ≤ size) (htype : icmpType p (payloadOffset p) = 0) :
    (s.handleIcmpPacket garbage p size).characters =
      s.characters ++ (echoPrints p).flatMap Print.characters := by
  simp only [handleIcmpPacket, if_neg (Int.not_lt.mpr hend), htype, echoPrints]
  rw [if_neg (by decide), if_pos trivial]
  split
  next => simp [characters, Net.printStringColor]
  next => simp [characters, Net.printString, Net.printIp]

theorem handleIcmpPacket_other (s : Host) (garbage : Nat → UInt8) (size : Int) {p : Nat → UInt8}
    (hreply : icmpType p (payloadOffset p) ≠ 0) (hrequest : icmpType p (payloadOffset p) ≠ 8) :
    s.handleIcmpPacket garbage p size = s := by
  simp only [handleIcmpPacket, if_neg hreply, if_neg hrequest, ite_self]

/-- The first character tells a right checksum from a wrong one. -/
theorem echoPrints_head (p : Nat → UInt8) :
    ((echoPrints p).flatMap Print.characters).head? =
      if icmpChecksum p (payloadOffset p) ≠ calculatedChecksum p (payloadOffset p) then some 87
      else some 82 := by
  unfold echoPrints
  split
  next => decide
  next => rfl

/-- The type of the message is in the frame: behind it could be that of an echo reply, which
prints something, or another. -/
theorem icmpType_inFrame (hdep : s.DependsOnFrame garbage packet size)
    (hhandler : handlerOf myIp packet size = some .icmp)
    (hend : payloadOffset packet + icmpLen packet ≤ size) :
    (payloadOffset packet : Int) < size := by
  by_contra hout
  have hsize := handlerOf_size hhandler (by decide)
  have hsame : ∀ type, SameFrame size packet (storeBytes packet (payloadOffset packet) [type]) :=
    fun type => SameFrame.storeBytes packet [type] (Int.not_lt.mp hout)
  have htype : ∀ type, icmpType (storeBytes packet (payloadOffset packet) [type])
      (payloadOffset (storeBytes packet (payloadOffset packet) [type])) = type := by
    intro type
    rw [← (hsame type).payloadOffset hsize]
    exact storeBytes_singleton packet (payloadOffset packet) type
  have heq := hdep.run_eq hhandler (hsame 0) (hsame 5)
  rw [(hsame 0).payloadOffset hsize, (hsame 0).icmpLen hsize] at hend
  simp only [runHandler, handleIcmpPacket_echo s garbage hend (htype 0)] at heq
  rw [handleIcmpPacket_other s garbage size (by rw [htype]; decide) (by rw [htype]; decide),
    List.append_right_eq_self] at heq
  have hhead := echoPrints_head (storeBytes packet (payloadOffset packet) [0])
  rw [heq] at hhead
  split at hhead
  next => cases hhead
  next => cases hhead

theorem calculatedChecksum_lt (p : Nat → UInt8) (off : Nat) :
    calculatedChecksum p off < 65536 := by
  simp only [calculatedChecksum, ipChecksumInt]
  omega

/-- An echo reply that carries the checksum `v`. -/
theorem echoPrints_store {v : Nat}
    (hsame : SameFrame size packet (store packet 2 (payloadOffset packet + 2) v))
    (hsize : 34 ≤ size) (hend : payloadOffset packet + icmpLen packet ≤ size) :
    ((echoPrints (store packet 2 (payloadOffset packet + 2) v)).flatMap Print.characters).head? =
      if v % 256 ^ 2 ≠ calculatedChecksum packet (payloadOffset packet) then some 87
      else some 82 := by
  rw [echoPrints_head, ← calculatedChecksum_congr hsame hsize hend, ← hsame.payloadOffset hsize,
    icmpChecksum, load_store_same]

theorem run_echo_store (s : Host) (garbage : Nat → UInt8) {v : Nat}
    (hsame : SameFrame size packet (store packet 2 (payloadOffset packet + 2) v))
    (hsize : 34 ≤ size) (hend : payloadOffset packet + icmpLen packet ≤ size)
    (htype : icmpType packet (payloadOffset packet) = 0) :
    (s.runHandler garbage (store packet 2 (payloadOffset packet + 2) v) size .icmp).characters =
      s.characters ++ (echoPrints (store packet 2 (payloadOffset packet + 2) v)).flatMap
        Print.characters := by
  refine handleIcmpPacket_echo s garbage ?_ ?_
  · rw [← hsame.payloadOffset hsize, ← hsame.icmpLen hsize]
    exact hend
  · rw [← hsame.payloadOffset hsize, icmpType, store_outside (by omega)]
    exact htype

/-- The checksum of an echo reply is in the frame: behind it could be the right one or a
wrong one. -/
theorem icmpChecksum_inFrame (hdep : s.DependsOnFrame garbage packet size)
    (hhandler : handlerOf myIp packet size = some .icmp)
    (hend : payloadOffset packet + icmpLen packet ≤ size)
    (htype : icmpType packet (payloadOffset packet) = 0)
    (hhead : (payloadOffset packet : Int) < size) :
    (payloadOffset packet : Int) + 4 ≤ size ∨
      (payloadOffset packet : Int) + 3 = size ∧ (packet (payloadOffset packet + 2)).toNat ≠
        calculatedChecksum packet (payloadOffset packet) % 256 := by
  by_contra hout
  have hsize := handlerOf_size hhandler (by decide)
  have hlt := calculatedChecksum_lt packet (payloadOffset packet)
  obtain ⟨hshort, hlow⟩ := not_or.mp hout
  -- a checksum with the right first byte fits the frame
  have hsame : ∀ v, v % 256 = calculatedChecksum packet (payloadOffset packet) % 256 →
      SameFrame size packet (store packet 2 (payloadOffset packet + 2) v) := by
    intro v hv
    refine SameFrame.store_two packet (by omega) fun hi => UInt8.toNat.inj ?_
    rw [byteOf_toNat, Nat.pow_zero, Nat.div_one, hv]
    by_contra hne
    exact hlow ⟨by omega, hne⟩
  have hright := hsame (calculatedChecksum packet (payloadOffset packet)) rfl
  have hwrong := hsame (calculatedChecksum packet (payloadOffset packet) + 256) (by omega)
  have heq := hdep.run_eq hhandler hright hwrong
  rw [run_echo_store s garbage hright hsize hend htype,
    run_echo_store s garbage hwrong hsize hend htype, List.append_cancel_left_eq] at heq
  have hheads := congrArg List.head? heq
  rw [echoPrints_store hright hsize hend, echoPrints_store hwrong hsize hend,
    if_neg (by omega), if_pos (by omega)] at hheads
  exact absurd hheads (by decide)

theorem icmpInFrame_of_dependsOnFrame (hdep : s.DependsOnFrame garbage packet size)
    (hhandler : handlerOf myIp packet size = some .icmp) : IcmpInFrame packet size := by
  by_cases hdrop : size < payloadOffset packet + icmpLen packet
  · exact Or.inl hdrop
  · have hend : payloadOffset packet + icmpLen packet ≤ size := Int.not_lt.mp hdrop
    have hhead := icmpType_inFrame hdep hhandler hend
    exact Or.inr ⟨hhead, fun htype => icmpChecksum_inFrame hdep hhandler hend htype hhead⟩

/-! ### Payload -/

/-- A character that differs makes two outputs differ. -/
theorem characters_ne {front back : List Print} {f g : Nat → UInt8} {m j : Nat} (hj : j < m)
    (hne : f j ≠ g j) :
    (front ++ (List.range m).map (fun i => Print.char (f i)) ++ back).flatMap Print.characters ≠
      (front ++ (List.range m).map (fun i => Print.char (g i)) ++ back).flatMap
        Print.characters := by
  have hchars : ∀ h : Nat → UInt8, ((List.range m).map fun i => Print.char (h i)).flatMap
      Print.characters = (List.range m).map h := by
    intro h
    rw [List.flatMap_map]
    exact List.flatMap_pure_eq_map h (List.range m)
  intro heq
  rw [List.flatMap_append, List.flatMap_append, List.flatMap_append, List.flatMap_append, hchars f,
    hchars g, List.append_cancel_right_eq, List.append_cancel_left_eq] at heq
  exact hne (List.map_inj_left.mp heq j (List.mem_range.mpr hj))

/-- A byte of the payload that is printed is in the frame: behind it could be an `A` or
a `B`. The buffer `b` may hold another header behind the frame than `packet`. -/
theorem DependsOnFrame.byte_inFrame (hdep : s.DependsOnFrame garbage packet size)
    {handler : Handler} (hhandler : handlerOf myIp packet size = some handler) {b : Nat → UInt8}
    (hb : SameFrame size packet b) {data m j : Nat} (hj : j < m) (front back : List Print)
    (hconsole : size ≤ (data + j : Nat) → ∀ c,
      (s.runHandler garbage (storeBytes b (data + j) [c]) size handler).console =
        front ++ (List.range m).map (fun i =>
          Print.char (Net.printable (storeBytes b (data + j) [c] (data + i)))) ++ back) :
    ((data + j : Nat) : Int) < size := by
  by_contra hout
  have hbehind := Int.not_lt.mp hout
  have hsame : ∀ c, SameFrame size packet (storeBytes b (data + j) [c]) :=
    fun c => hb.trans (SameFrame.storeBytes b [c] hbehind)
  have heq := hdep.run_eq hhandler (hsame 65) (hsame 66)
  rw [characters, characters, hconsole hbehind, hconsole hbehind] at heq
  refine characters_ne hj ?_ heq
  rw [storeBytes_singleton, storeBytes_singleton]
  decide

/-! ### UDP -/

/-- What a datagram prints in front of its payload. -/
def udpFront (p : Nat → UInt8) (off : Nat) : List Print :=
  .literal "\n[UDP Packet] From " colorWhite :: (Net.dottedAddress (ipSrc p) ++
    [.literal ":" colorWhite, .int (udpSrcPort p off), .literal " -> " colorWhite])

theorem handleUdpPacket_console (s : Net) (p : Nat → UInt8) (off : Nat) :
    (s.handleUdpPacket p off).console =
      s.console ++ udpFront p off ++ (List.range (min (udpDataLen p off).toNat 64)).map
        (fun i => Print.char (Net.printable (p (off + udpHeaderSize + i)))) ++
        [.literal "\n" colorWhite] := by
  simp only [Net.handleUdpPacket]
  rw [Net.printChars_eq _ fun i => Net.printable (p (off + udpHeaderSize + i))]
  simp [Net.printString, Net.printInt, Net.printIp, udpFront]

theorem udpByte_inFrame (hdep : s.DependsOnFrame garbage packet size)
    (hhandler : handlerOf myIp packet size = some .udp) {b : Nat → UInt8}
    (hb : SameFrame size packet b) {j : Nat}
    (hj : j < min (udpDataLen b (payloadOffset packet)).toNat 64) :
    ((payloadOffset packet + udpHeaderSize + j : Nat) : Int) < size := by
  have hsize := handlerOf_size hhandler (by decide)
  generalize hoff : payloadOffset packet = off at hj
  refine hdep.byte_inFrame hhandler hb hj (s.console ++ udpFront b off)
    [.literal "\n" colorWhite] fun hbehind c => ?_
  have hsame : SameFrame size b (storeBytes b (off + udpHeaderSize + j) [c]) :=
    SameFrame.storeBytes b [c] hbehind
  have hload : ∀ {a : Nat}, a + 2 ≤ off + udpHeaderSize →
      load (storeBytes b (off + udpHeaderSize + j) [c]) 2 a = load b 2 a :=
    fun ha => load_storeBytes_disjoint (Or.inl (by omega))
  have hconsole := handleUdpPacket_console s.toNet
    (storeBytes b (off + udpHeaderSize + j) [c]) off
  rw [udpFront, udpDataLen, udpLen, udpSrcPort, hload (by simp [udpHeaderSize]),
    hload (by simp [udpHeaderSize]), ← hsame.ipSrc hsize] at hconsole
  rw [runHandler, ← (hb.trans hsame).payloadOffset hsize, hoff]
  exact hconsole

theorem udpInFrame_of_dependsOnFrame (hdep : s.DependsOnFrame garbage packet size)
    (hhandler : handlerOf myIp packet size = some .udp) : UdpInFrame packet size := by
  refine ⟨?_, fun hpos => ?_⟩
  · by_contra hout
    -- the low byte of the length is behind the frame, and could announce payload
    have hb : SameFrame size packet (storeBytes packet (payloadOffset packet + 5) [9]) :=
      SameFrame.storeBytes packet [9] (by omega)
    have hlen : udpLen (storeBytes packet (payloadOffset packet + 5) [9]) (payloadOffset packet) =
        9 + 256 * (packet (payloadOffset packet + 4)).toNat := by
      rw [udpLen, ntohs_load, storeBytes_singleton, storeBytes_outside (by omega)]
      rfl
    have hbyte := udpByte_inFrame hdep hhandler hb (j := 0)
      (by rw [udpDataLen, hlen, udpHeaderSize]; omega)
    rw [udpHeaderSize] at hbyte
    omega
  · have hbyte := udpByte_inFrame hdep hhandler (SameFrame.refl size packet)
      (j := min (udpDataLen packet (payloadOffset packet)).toNat 64 - 1) (by omega)
    omega

/-! ### TCP -/

/-- What the branch on FIN prints. -/
def finPrints (p : Nat → UInt8) : List Print :=
  if HasFin p then
    [.literal "\n[TCP Connection] Connection closed by remote host.\n" colorWhite]
  else []

theorem receive_console {net : Net} {p : Nat → UInt8} (hport : ToLocalPort p) :
    (net.receive p).console = (net.beforeFin p).console ++ finPrints p := by
  obtain ⟨prints, frames, ⟨hconsole, _⟩, heffect⟩ := (net.beforeFin p).handleTcpFin_effect p
  rw [Net.receive_of_toLocalPort hport, hconsole, finPrints]
  cases heffect with
  | closed hfin => rw [if_pos hfin]
  | kept hfin => rw [if_neg hfin]

theorem tcpFlags_eq (p : Nat → UInt8) (off : Nat) :
    tcpFlags p off = (p (off + 13)).toNat % 64 := by
  have hmod : ∀ n, n &&& 0x3F = n % 64 := fun n => Nat.and_two_pow_sub_one_eq_mod n 6
  rw [tcpFlags, tcpFlagsField, ntohs_load, hmod, Nat.add_assoc off 12 1]
  omega

/-- A segment whose only flag is FIN or none. -/
theorem receive_console_fin (net : Net) {p : Nat → UInt8} (hport : ToLocalPort p)
    (hflags : tcpFlags p (tcpOffset p) ≤ 1) :
    (net.receive p).console = net.console ++ finPrints p := by
  have hbits : ∀ f, f ≤ 1 → f &&& 0x02 = 0 ∧ f &&& 0x08 = 0 ∧ f &&& 0x10 = 0 := by decide
  obtain ⟨hsyn, hpsh, hack⟩ := hbits _ hflags
  have hkept : net.beforeFin p = net := by
    simp [Net.beforeFin, Net.handleTcpSegment, hsyn, hpsh, hack]
  rw [receive_console hport, hkept]

/-- The flags of a segment for the responder are in the frame: behind it could be FIN or no
flag. -/
theorem tcpFlags_inFrame (hdep : s.DependsOnFrame garbage packet size)
    (hhandler : handlerOf myIp packet size = some .tcp) {b : Nat → UInt8}
    (hb : SameFrame size packet b) (hport : ToLocalPort b) :
    (payloadOffset packet : Int) + 14 ≤ size := by
  by_contra hout
  have hsize := handlerOf_size hhandler (by decide)
  have hoff : tcpOffset b = payloadOffset packet := (hb.payloadOffset hsize).symm
  rw [← hoff] at hout
  have hsame : ∀ c, SameFrame size b (storeBytes b (tcpOffset b + 13) [c]) :=
    fun c => SameFrame.storeBytes b [c] (by omega)
  have hoff' : ∀ c, tcpOffset (storeBytes b (tcpOffset b + 13) [c]) = tcpOffset b :=
    fun c => ((hsame c).payloadOffset hsize).symm
  have hport' : ∀ c, ToLocalPort (storeBytes b (tcpOffset b + 13) [c]) := by
    intro c
    rw [ToLocalPort, hoff', tcpDestPort, load_storeBytes_disjoint (by omega)]
    exact hport
  have hflags : ∀ c, tcpFlags (storeBytes b (tcpOffset b + 13) [c])
      (tcpOffset (storeBytes b (tcpOffset b + 13) [c])) = c.toNat % 64 := by
    intro c
    rw [hoff', tcpFlags_eq, storeBytes_singleton]
  have heq := hdep.run_eq hhandler (hb.trans (hsame 1)) (hb.trans (hsame 0))
  have hfin := receive_console_fin s.toNet (hport' 1) (by rw [hflags]; decide)
  have hnone := receive_console_fin s.toNet (hport' 0) (by rw [hflags]; decide)
  rw [finPrints, if_pos (by rw [HasFin, hflags]; decide)] at hfin
  rw [finPrints, if_neg (by rw [HasFin, hflags]; decide)] at hnone
  have hchars : (s.toNet.receive (storeBytes b (tcpOffset b + 13) [1])).console.flatMap
      Print.characters = (s.toNet.receive (storeBytes b (tcpOffset b + 13) [0])).console.flatMap
        Print.characters := heq
  rw [hfin, hnone, List.flatMap_append, List.flatMap_append, List.append_cancel_left_eq] at hchars
  exact absurd hchars (by decide)

/-- What a segment with data prints. -/
theorem receive_console_data {net : Net} {p : Nat → UInt8} (hport : ToLocalPort p)
    (hdata : net.CarriesData p) :
    (net.receive p).console =
      net.console ++ [.literal "\n[TCP Data] Received: " colorWhite] ++
        (List.range (min (Net.tcpDataLen p (tcpOffset p) (ipHeaderLen p)).toNat 128)).map
          (fun i => Print.char (Net.printable
            (p (tcpOffset p + Net.tcpHeaderLen p (tcpOffset p) + i)))) ++
        (.literal "\n" colorWhite :: finPrints p) := by
  obtain ⟨hsyn, hack, hpsh, hpos⟩ := hdata
  have hbranch : net.beforeFin p = net.receiveData p (tcpOffset p) (ipHeaderLen p) :=
    (if_neg hsyn).trans ((if_neg hack).trans (if_pos hpsh))
  have hreply : ∀ t : Net, (t.reply 0x10).console = t.console :=
    fun t => (t.reply_effect (by decide : 0x10 < 64)).2.1
  rw [receive_console hport, hbranch, Net.receiveData, if_pos hpos, hreply]
  simp only [Net.printData]
  rw [Net.printChars_eq _ fun i => Net.printable
    (p (tcpOffset p + Net.tcpHeaderLen p (tcpOffset p) + i))]
  simp [Net.printString]

theorem tcpByte_inFrame (hdep : s.DependsOnFrame garbage packet size)
    (hhandler : handlerOf myIp packet size = some .tcp) (hport : ToLocalPort packet)
    (hhead : (tcpOffset packet : Int) + 14 ≤ size) (hdata : s.CarriesData packet) {j : Nat}
    (hj : j < min (Net.tcpDataLen packet (tcpOffset packet) (ipHeaderLen packet)).toNat 128) :
    ((tcpOffset packet + Net.tcpHeaderLen packet (tcpOffset packet) + j : Nat) : Int) < size := by
  have hsize := handlerOf_size hhandler (by decide)
  refine hdep.byte_inFrame hhandler (SameFrame.refl size packet) hj
    (s.console ++ [.literal "\n[TCP Data] Received: " colorWhite])
    (.literal "\n" colorWhite :: finPrints packet) fun hbehind c => ?_
  generalize hq : storeBytes packet
    (tcpOffset packet + Net.tcpHeaderLen packet (tcpOffset packet) + j) [c] = q
  have hsame : SameFrame size packet q := hq ▸ SameFrame.storeBytes packet [c] hbehind
  have hoff : tcpOffset packet = tcpOffset q := hsame.payloadOffset hsize
  have hflags : tcpFlags packet (tcpOffset packet) = tcpFlags q (tcpOffset q) := by
    rw [← hoff, tcpFlags_congr hsame hhead]
  have hheader : Net.tcpHeaderLen packet (tcpOffset packet) =
      Net.tcpHeaderLen q (tcpOffset q) := by
    rw [← hoff, tcpHeaderLen_congr hsame hhead]
  have hlen : Net.tcpDataLen packet (tcpOffset packet) (ipHeaderLen packet) =
      Net.tcpDataLen q (tcpOffset q) (ipHeaderLen q) := by
    rw [← hoff, ← hsame.ipHeaderLen hsize, tcpDataLen_congr hsame hhead (hsame.ipLen hsize)]
  have hfins : HasFin packet ↔ HasFin q := by
    rw [HasFin, HasFin, hflags]
  have hfin : finPrints packet = finPrints q := by
    simp only [finPrints, hfins]
  have hportq : ToLocalPort q := by
    rw [ToLocalPort, ← hoff]
    exact (tcpDestPort_congr hsame (Or.inl (by omega))).mp hport
  have hdataq : s.CarriesData q := by
    simp only [Net.CarriesData, HasSyn, HasAck, HasPsh, hflags, hlen] at hdata ⊢
    exact hdata
  rw [hlen, hfin, hheader, hoff]
  exact receive_console_data hportq hdataq

theorem tcpInFrame_of_dependsOnFrame (hdep : s.DependsOnFrame garbage packet size)
    (hhandler : handlerOf myIp packet size = some .tcp) : TcpInFrame s.toNet packet size := by
  refine ⟨?_, fun hport => ?_⟩
  · by_contra hout
    obtain ⟨hshort, hhigh⟩ := not_or.mp hout
    -- the port could be that of the responder, and no flag is in the frame then
    have hsize := handlerOf_size hhandler (by decide)
    have hb : SameFrame size packet (store packet 2 (payloadOffset packet + 2) (ntohs 80)) := by
      refine SameFrame.store_two packet (by omega) fun hi => ?_
      by_contra hne
      exact hhigh ⟨by omega, hne⟩
    have hport : ToLocalPort (store packet 2 (payloadOffset packet + 2) (ntohs 80)) := by
      have hoff : payloadOffset packet = tcpOffset _ := hb.payloadOffset hsize
      rw [ToLocalPort, ← hoff, tcpDestPort, load_store_same]
      decide
    have hhead := tcpFlags_inFrame hdep hhandler hb hport
    omega
  · have hhead := tcpFlags_inFrame hdep hhandler (SameFrame.refl size packet) hport
    refine ⟨hhead, fun hdata => ?_⟩
    have hpos := hdata.2.2.2
    have hbyte := tcpByte_inFrame hdep hhandler hport hhead hdata
      (j := min (Net.tcpDataLen packet (tcpOffset packet) (ipHeaderLen packet)).toNat 128 - 1)
      (by omega)
    have hoff : payloadOffset packet = tcpOffset packet := rfl
    rw [hoff]
    omega

end Stale

/-- The handling of a frame depends on nothing behind it if and only if what its handler
looks at is in the frame. -/
theorem dependsOnFrame_iff (s : Host) (garbage packet : Nat → UInt8) (size : Int) :
    s.DependsOnFrame garbage packet size ↔ s.InFrame packet size := by
  constructor
  · intro hdep
    unfold InFrame
    cases hhandler : handlerOf myIp packet size with
    | none => trivial
    | some handler =>
      cases handler with
      | arp => trivial
      | icmp => exact icmpInFrame_of_dependsOnFrame hdep hhandler
      | udp => exact udpInFrame_of_dependsOnFrame hdep hhandler
      | tcp => exact tcpInFrame_of_dependsOnFrame hdep hhandler
  · intro hin packet' hsame
    rw [handleEthernetPacket_congr s garbage hsame hin]
    exact ⟨rfl, rfl⟩

end Host

/-- A host whose device is up. -/
def sampleHost : Host := { toNet := sampleListen.net, netPingReplies := 0 }

/-- A frame of 60 bytes with a datagram that announces 64 bytes of payload and carries 18,
in a buffer that held `stale` everywhere. -/
def shortDatagram (stale : UInt8) : Nat → UInt8 :=
  store (inBuffer (fun _ => stale)
    (sampleListen.net.udpFrame myIp 1234 9 (List.replicate 18 46))) 2 38 (ntohs 72)

/-- The handler prints 46 bytes from behind that frame. -/
theorem stale_bytes_printed :
    SameFrame 60 (shortDatagram 65) (shortDatagram 66) ∧
      ¬ sampleHost.DependsOnFrame (fun _ => 0) (shortDatagram 65) 60 := by
  have hbytes : ∀ i < 60, shortDatagram 65 i = shortDatagram 66 i := by decide +kernel
  have hsame : SameFrame 60 (shortDatagram 65) (shortDatagram 66) :=
    fun i hi => hbytes i (by omega)
  refine ⟨hsame, fun hdep => ?_⟩
  exact absurd (hdep _ hsame).characters (by decide +kernel)

end Newrex
