import Newrex.Net.Checksum
import Newrex.Net.Connection
import Newrex.Net.Handlers

/-!
# Frames are received as they were sent

The senders and the handlers of `drivers/rtl8139.c` lay out the same headers, each with
code of its own. Here the frame of each sender is put into the receive buffer of a host
that runs the same code with the address the frame is for:

* `tcpReceived_of_frame`, `udpReceived_of_frame`, `pingReceived_of_frame` and
  `arpReceived_of_frame` say what the handler reads there, field by field;
* `sent_frames_received` is the result for all four senders.
-/

namespace Newrex

open LittleEndian

/-! ## Byte order -/

theorem and_mask {n k v : Nat} (h : n / 2 ^ k % 256 = v) : n &&& (0xFF <<< k) = v <<< k := by
  apply Nat.eq_of_testBit_eq
  intro i
  have hmask : ∀ j, Nat.testBit 0xFF j = decide (j < 8) := Nat.testBit_two_pow_sub_one 8
  have hlow : ∀ m j, Nat.testBit (m % 256) j = (decide (j < 8) && m.testBit j) :=
    fun m j => Nat.testBit_mod_two_pow m 8 j
  rw [← h, Nat.testBit_and, Nat.testBit_shiftLeft, Nat.testBit_shiftLeft, hmask, hlow,
    Nat.testBit_div_two_pow]
  by_cases hi : k ≤ i
  · rw [Nat.sub_add_cancel hi]
    cases n.testBit i <;> simp
  · simp [hi]

theorem ntohs_bytes {lo hi : Nat} (hlo : lo < 256) (hhi : hi < 256) :
    ntohs (lo + 256 * hi) = hi + 256 * lo := by
  have h0 : (lo + 256 * hi) &&& 0xFF = lo <<< 0 := and_mask (k := 0) (by omega)
  have h1 : (lo + 256 * hi) &&& 0xFF00 = hi <<< 8 := and_mask (k := 8) (by omega)
  rw [ntohs, h0, h1, Nat.shiftLeft_shiftRight, Nat.shiftLeft_zero, shiftLeft_or hhi]
  omega

theorem ntohl_bytes {a b c d : Nat} (ha : a < 256) (hb : b < 256) (hc : c < 256) (hd : d < 256) :
    ntohl (a + 256 * (b + 256 * (c + 256 * d))) = d + 256 * (c + 256 * (b + 256 * a)) := by
  generalize hn : a + 256 * (b + 256 * (c + 256 * d)) = n
  have h0 : n &&& 0xFF = a <<< 0 := and_mask (k := 0) (by omega)
  have h1 : n &&& 0xFF00 = b <<< 8 := and_mask (k := 8) (by omega)
  have h2 : n &&& 0xFF0000 = c <<< 16 := and_mask (k := 16) (by omega)
  have h3 : n &&& 0xFF000000 = d <<< 24 := and_mask (k := 24) (by omega)
  have hc' : (c <<< 16) >>> 8 = c <<< 8 := by
    rw [Nat.shiftLeft_add c 8 8, Nat.shiftLeft_shiftRight]
  -- from the left: two bytes, three, four
  have hab : a <<< 24 ||| b <<< 16 = (a * 2 ^ 8 + b) <<< 16 :=
    shiftLeft_or_shiftLeft (k := 8) hb 16
  have habc : (a * 2 ^ 8 + b) <<< 16 ||| c <<< 8 = ((a * 2 ^ 8 + b) * 2 ^ 8 + c) <<< 8 :=
    shiftLeft_or_shiftLeft (k := 8) hc 8
  rw [ntohl, h0, h1, h2, h3, Nat.shiftLeft_shiftRight, Nat.shiftLeft_zero, hc',
    ← Nat.shiftLeft_add, hab, habc, shiftLeft_or hd]
  ring

/-- A field of two bytes, the higher one first. -/
theorem ntohs_load (b : Nat → UInt8) (off : Nat) :
    ntohs (load b 2 off) = (b (off + 1)).toNat + 256 * (b off).toNat := by
  rw [load, load, load, Nat.mul_zero, Nat.add_zero]
  exact ntohs_bytes (b off).toNat_lt (b (off + 1)).toNat_lt

/-- Network byte order in a field and back. -/
theorem ntohs_ntohs {n : Nat} (h : n < 2 ^ 16) : ntohs (ntohs n % 256 ^ 2) = n := by
  obtain ⟨lo, hi, hlo, hhi, rfl⟩ : ∃ lo hi, lo < 256 ∧ hi < 256 ∧ n = lo + 256 * hi :=
    ⟨n % 256, n / 256, by omega, by omega, by omega⟩
  rw [ntohs_bytes hlo hhi, Nat.mod_eq_of_lt (by omega), ntohs_bytes hhi hlo]

theorem ntohl_ntohl {n : Nat} (h : n < 2 ^ 32) : ntohl (ntohl n % 256 ^ 4) = n := by
  obtain ⟨a, b, c, d, ha, hb, hc, hd, rfl⟩ : ∃ a b c d, a < 256 ∧ b < 256 ∧ c < 256 ∧ d < 256 ∧
      n = a + 256 * (b + 256 * (c + 256 * d)) :=
    ⟨n % 256, n / 256 % 256, n / 256 / 256 % 256, n / 256 / 256 / 256, by omega, by omega,
      by omega, by omega, by omega⟩
  rw [ntohl_bytes ha hb hc hd, Nat.mod_eq_of_lt (by omega), ntohl_bytes hd hc hb ha]

/-! ## Reading fields back -/

theorem addressAt_storeBytes (b : Nat → UInt8) {n : Nat} (off : Nat) (address : Vector UInt8 n) :
    addressAt (storeBytes b off address.toList) n off = address := by
  ext i hi
  rw [addressAt, Vector.getElem_ofFn, storeBytes_inside (by simpa using hi)]
  simp [List.getD, hi]

theorem addressAt_storeBytes_disjoint {b : Nat → UInt8} {n off a : Nat} {bytes : List UInt8}
    (h : a + n ≤ off ∨ off + bytes.length ≤ a) :
    addressAt (storeBytes b off bytes) n a = addressAt b n a :=
  addressAt_congr fun i hi => storeBytes_outside (by omega)

theorem addressAt_store_disjoint {b : Nat → UInt8} {n off a m v : Nat}
    (h : a + n ≤ off ∨ off + m ≤ a) : addressAt (store b m off v) n a = addressAt b n a :=
  addressAt_congr fun i hi => store_outside (by omega)

/-- The frame in a receive buffer, with what the buffer held behind it. -/
def inBuffer (stale : Nat → UInt8) (frame : List UInt8) : Nat → UInt8 := storeBytes stale 0 frame

theorem inBuffer_map {packet stale : Nat → UInt8} {n i : Nat} (hi : i < n) :
    inBuffer stale ((List.range n).map packet) i = packet i := by
  have hin : storeBytes stale 0 ((List.range n).map packet) (0 + i) = _ :=
    storeBytes_inside (by simpa using hi)
  rw [Nat.zero_add] at hin
  rw [inBuffer, hin, List.getD_eq_getElem?_getD, List.getElem?_map, List.getElem?_range hi]
  rfl

/-- What the handlers read of the Ethernet and the IPv4 header. -/
structure Ipv4Header (packet : Nat → UInt8) (destIp : IpAddress) (len : Nat) (proto : UInt8) :
    Prop where
  type : ethType packet = 0x0800
  headerLen : ipHeaderLen packet = ipv4HeaderSize
  length : ipLen packet = len
  proto : ipProto packet = proto
  source : ipSrc packet = myIp
  dest : ipDest packet = destIp
  checksum : ipChecksum packet ethHeaderSize ipv4HeaderSize = 0

theorem ipv4Header_of_packet {packet : Nat → UInt8} (srcMac destMac : MacAddress)
    {destIp : IpAddress} {len : Nat} (id : Nat) {proto : UInt8} (hlen : len < 2 ^ 16)
    (h : ∀ i, i < 34 → packet i = ipv4Packet srcMac destMac destIp len id proto i) :
    Ipv4Header packet destIp len proto where
  type := by
    rw [ethType, load_congr fun i hi => h (12 + i) (by omega)]
    simp (disch := simp) only [ipv4Packet, load_store_disjoint, load_storeBytes_disjoint,
      load_store_same]
    decide
  headerLen := by
    have hverIhl : packet ethHeaderSize = 0x45 := h 14 (by decide)
    rw [ipHeaderLen, ipVerIhl, hverIhl]
    rfl
  length := by
    have hlength : ipLen packet = ntohs (load _ 2 16) :=
      congrArg ntohs (load_congr fun i hi => h (16 + i) (by omega))
    simp (disch := simp) only [hlength, ipv4Packet, load_store_disjoint,
      load_storeBytes_disjoint, load_store_same]
    exact ntohs_ntohs hlen
  proto := h 23 (by decide)
  source := by
    have hsource : ipSrc packet = addressAt _ 4 26 :=
      addressAt_congr fun i hi => h (26 + i) (by omega)
    rw [hsource, ipv4Packet, addressAt_store_disjoint (by decide),
      addressAt_storeBytes_disjoint (Or.inl (by decide)), addressAt_storeBytes]
  dest := by
    have hdest : ipDest packet = addressAt _ 4 30 :=
      addressAt_congr fun i hi => h (30 + i) (by omega)
    rw [hdest, ipv4Packet, addressAt_store_disjoint (by decide), addressAt_storeBytes]
  checksum := by
    have hsum : ipChecksum packet ethHeaderSize ipv4HeaderSize = _ :=
      ipChecksum_congr fun i hi => h (14 + i) (Nat.add_lt_add_left hi 14)
    rw [hsum, ipv4Packet]
    refine ipChecksum_store (k := 5) rfl (by decide) (by decide) ?_
    rw [load_storeBytes_disjoint (Or.inl (by decide)), load_storeBytes_disjoint (by decide),
      load_store_same, Nat.zero_mod]

theorem Ipv4Header.payloadOffset_eq {packet : Nat → UInt8} {destIp : IpAddress} {len : Nat}
    {proto : UInt8} (h : Ipv4Header packet destIp len proto) : payloadOffset packet = 34 := by
  rw [payloadOffset, h.headerLen]
  rfl

/-- A frame with an IPv4 header gets to the handler of its protocol. -/
theorem Ipv4Header.handlerOf_eq {packet : Nat → UInt8} {destIp : IpAddress} {len : Nat}
    {proto : UInt8} (h : Ipv4Header packet destIp len proto) {size : Int} (hsize : 34 ≤ size) :
    handlerOf destIp packet size =
      if proto = 1 then some .icmp else if proto = 17 then some .udp
      else if proto = 6 then some .tcp else none := by
  have hlong : ¬ size < ethHeaderSize := by
    simp only [ethHeaderSize]
    omega
  have hip : ¬ size < ethHeaderSize + ipv4HeaderSize := by
    simp only [ethHeaderSize, ipv4HeaderSize]
    omega
  simp [handlerOf, hlong, hip, h.type, h.dest, h.proto]

/-! ## TCP -/

/-- The TCP header that `send_tcp_packet` writes, before its checksum. -/
def tcpHeader (packet : Nat → UInt8) (srcPort destPort seq ack flags : Nat) : Nat → UInt8 :=
  let packet := store packet 2 34 (ntohs srcPort)
  let packet := store packet 2 36 (ntohs destPort)
  let packet := store packet 4 38 (ntohl seq)
  let packet := store packet 4 42 (ntohl ack)
  let packet := store packet 2 46 (ntohs ((5 <<< 12) ||| flags))
  let packet := store packet 2 48 (ntohs 8192)
  let packet := store packet 2 50 0
  store packet 2 52 0

/-- A segment without data, as its handler decodes it. -/
structure TcpReceived (packet : Nat → UInt8) (size : Int) (destIp : IpAddress)
    (srcPort destPort seq ack flags : Nat) : Prop
    extends Ipv4Header packet destIp (ipv4HeaderSize + tcpHeaderSize) 6 where
  handler : handlerOf destIp packet size = some .tcp
  srcPort : tcpSrcPort packet (payloadOffset packet) = srcPort
  destPort : tcpDestPort packet (payloadOffset packet) = destPort
  seq : tcpSeqNum packet (payloadOffset packet) = seq
  ack : tcpAckNum packet (payloadOffset packet) = ack
  flags : tcpFlags packet (payloadOffset packet) = flags
  tcpHeaderLen : Net.tcpHeaderLen packet (payloadOffset packet) = tcpHeaderSize
  dataLen : Net.tcpDataLen packet (payloadOffset packet) (ipHeaderLen packet) = 0
  tcpChecksum : ipChecksum (Net.pseudoHeader packet destIp) 0 32 = 0

theorem tcpFrame_eq (s : Net) (destIp : IpAddress) (srcPort destPort seq ack flags : Nat) :
    s.tcpFrame destIp srcPort destPort seq ack flags =
      let destMac := (s.arpResolve destIp).getD (Vector.replicate 6 0xFF)
      let ip := ipv4Packet s.myMac destMac destIp (ipv4HeaderSize + tcpHeaderSize) 1 6
      let tcp := tcpHeader ip srcPort destPort seq ack flags
      (List.range 54).map (store tcp 2 50 (ipChecksum (Net.pseudoHeader tcp destIp) 0 32)) := rfl

/-- The header behind the pseudo header is the one in the frame. -/
theorem pseudoHeader_header (packet : Nat → UInt8) (destIp : IpAddress) {i : Nat} (hi : i < 20) :
    Net.pseudoHeader packet destIp (12 + i) = packet (34 + i) := by
  have hin : i < tcpHeaderSize := hi
  rw [Net.pseudoHeader, storeBytes_inside (by simpa using hin), List.getD_eq_getElem?_getD,
    List.getElem?_map, List.getElem?_range hin]
  rfl

theorem pseudoHeader_front (packet packet' : Nat → UInt8) (destIp : IpAddress) {i : Nat}
    (hi : i < 12) : Net.pseudoHeader packet destIp i = Net.pseudoHeader packet' destIp i := by
  rw [Net.pseudoHeader, Net.pseudoHeader, storeBytes_outside (Or.inl hi),
    storeBytes_outside (Or.inl hi)]

/-- The checksum stored in the header is stored behind the pseudo header. -/
theorem pseudoHeader_store {packet tcp : Nat → UInt8} {c : Nat} (destIp : IpAddress)
    (h : ∀ i, i < 54 → packet i = store tcp 2 50 c i) {i : Nat} (hi : i < 32) :
    Net.pseudoHeader packet destIp i = store (Net.pseudoHeader tcp destIp) 2 28 c i := by
  by_cases hfront : i < 12
  · rw [store_outside (by omega), pseudoHeader_front packet tcp destIp hfront]
  · obtain ⟨j, rfl⟩ := Nat.exists_eq_add_of_le (Nat.le_of_not_lt hfront)
    rw [pseudoHeader_header packet destIp (by omega), h _ (by omega)]
    simp only [store]
    rw [pseudoHeader_header tcp destIp (by omega)]
    congr 1
    · simp only [eq_iff_iff]
      omega
    · congr 1
      omega

section Tcp

variable {packet ip : Nat → UInt8} {srcPort destPort seq ack flags c : Nat}

/-- The header length and the flags share a field. -/
theorem tcpFlagsField_eq (hflags : flags < 64)
    (h : ∀ i, i < 54 → packet i =
      store (tcpHeader ip srcPort destPort seq ack flags) 2 50 c i) :
    tcpFlagsField packet 34 = (5 <<< 12) ||| flags := by
  rw [tcpFlagsField, load_congr fun i hi => h (46 + i) (by omega)]
  simp (disch := omega) only [tcpHeader, load_store_disjoint, load_store_same]
  exact ntohs_ntohs (Nat.or_lt_two_pow (by decide) (by omega))

theorem tcpHeaderLen_eq (hflags : flags < 64)
    (h : ∀ i, i < 54 → packet i =
      store (tcpHeader ip srcPort destPort seq ack flags) 2 50 c i) :
    Net.tcpHeaderLen packet 34 = tcpHeaderSize := by
  have hhigh : ∀ f, f < 64 → ((((5 <<< 12) ||| f) >>> 12) &&& 0x0F) * 4 = 20 := by decide
  rw [Net.tcpHeaderLen, tcpFlagsField_eq hflags h]
  exact hhigh flags hflags

/-- A header whose checksum was computed with the pseudo header has the checksum 0. -/
theorem tcpChecksum_eq_zero {destIp : IpAddress} {tcp : Nat → UInt8} (hzero : load tcp 2 50 = 0)
    (h : ∀ i, i < 54 → packet i =
      store tcp 2 50 (ipChecksum (Net.pseudoHeader tcp destIp) 0 32) i) :
    ipChecksum (Net.pseudoHeader packet destIp) 0 32 = 0 := by
  have hfield : load (Net.pseudoHeader tcp destIp) 2 28 = 0 := by
    have hlow : Net.pseudoHeader tcp destIp 28 = tcp 50 :=
      pseudoHeader_header tcp destIp (i := 16) (by decide)
    have hhigh : Net.pseudoHeader tcp destIp 29 = tcp 51 :=
      pseudoHeader_header tcp destIp (i := 17) (by decide)
    simp only [load, hlow, hhigh]
    exact hzero
  rw [ipChecksum_congr fun i hi => pseudoHeader_store destIp h (i := 0 + i) (by omega)]
  exact ipChecksum_store (k := 14) rfl (by decide) (by decide) hfield

theorem tcpReceived_of_packet {destIp : IpAddress} {size : Int}
    (hip : Ipv4Header packet destIp (ipv4HeaderSize + tcpHeaderSize) 6) (hsize : 54 ≤ size)
    (hsrc : srcPort < 2 ^ 16) (hdest : destPort < 2 ^ 16) (hseq : seq < 2 ^ 32)
    (hack : ack < 2 ^ 32) (hflags : flags < 64)
    (h : ∀ i, i < 54 → packet i =
      store (tcpHeader ip srcPort destPort seq ack flags) 2 50
        (ipChecksum (Net.pseudoHeader (tcpHeader ip srcPort destPort seq ack flags) destIp) 0 32) i) :
    TcpReceived packet size destIp srcPort destPort seq ack flags where
  toIpv4Header := hip
  handler := by
    rw [hip.handlerOf_eq (by omega)]
    rfl
  srcPort := by
    rw [hip.payloadOffset_eq, tcpSrcPort, load_congr fun i hi => h (34 + i) (by omega)]
    simp (disch := omega) only [tcpHeader, load_store_disjoint, load_store_same]
    exact ntohs_ntohs hsrc
  destPort := by
    rw [hip.payloadOffset_eq, tcpDestPort, load_congr fun i hi => h (36 + i) (by omega)]
    simp (disch := omega) only [tcpHeader, load_store_disjoint, load_store_same]
    exact ntohs_ntohs hdest
  seq := by
    rw [hip.payloadOffset_eq, tcpSeqNum, load_congr fun i hi => h (38 + i) (by omega)]
    simp (disch := omega) only [tcpHeader, load_store_disjoint, load_store_same]
    exact ntohl_ntohl hseq
  ack := by
    rw [hip.payloadOffset_eq, tcpAckNum, load_congr fun i hi => h (42 + i) (by omega)]
    simp (disch := omega) only [tcpHeader, load_store_disjoint, load_store_same]
    exact ntohl_ntohl hack
  flags := by
    have hlow : ∀ f, f < 64 → ((5 <<< 12) ||| f) &&& 0x3F = f := by decide
    rw [hip.payloadOffset_eq, tcpFlags, tcpFlagsField_eq hflags h, hlow flags hflags]
  tcpHeaderLen := by
    rw [hip.payloadOffset_eq, tcpHeaderLen_eq hflags h]
  dataLen := by
    rw [hip.payloadOffset_eq, Net.tcpDataLen, tcpHeaderLen_eq hflags h, hip.length, hip.headerLen]
    rfl
  tcpChecksum := by
    refine tcpChecksum_eq_zero ?_ h
    rw [tcpHeader, load_store_disjoint (by decide), load_store_same, Nat.zero_mod]

end Tcp

theorem tcpReceived_of_frame (s : Net) (destIp : IpAddress) {srcPort destPort seq ack flags : Nat}
    (hsrc : srcPort < 2 ^ 16) (hdest : destPort < 2 ^ 16) (hseq : seq < 2 ^ 32)
    (hack : ack < 2 ^ 32) (hflags : flags < 64) (stale : Nat → UInt8) {size : Int}
    (hsize : 54 ≤ size) :
    TcpReceived (inBuffer stale (s.tcpFrame destIp srcPort destPort seq ack flags)) size destIp
      srcPort destPort seq ack flags := by
  rw [tcpFrame_eq]
  refine tcpReceived_of_packet ?_ hsize hsrc hdest hseq hack hflags fun i hi => inBuffer_map hi
  refine ipv4Header_of_packet s.myMac ((s.arpResolve destIp).getD (Vector.replicate 6 0xFF)) 1
    (by decide) fun i hi => ?_
  rw [inBuffer_map (by omega)]
  simp (disch := omega) only [tcpHeader, store_outside]

/-! ## UDP -/

/-- A datagram, as its handler decodes it. -/
structure UdpReceived (packet : Nat → UInt8) (size : Int) (destIp : IpAddress)
    (srcPort destPort : Nat) (payload : List UInt8) : Prop
    extends Ipv4Header packet destIp (ipv4HeaderSize + udpHeaderSize + payload.length) 17 where
  handler : handlerOf destIp packet size = some .udp
  srcPort : udpSrcPort packet (payloadOffset packet) = srcPort
  destPort : udpDestPort packet (payloadOffset packet) = destPort
  dataLen : udpDataLen packet (payloadOffset packet) = payload.length
  data : (List.range payload.length).map
    (fun i => packet (payloadOffset packet + udpHeaderSize + i)) = payload

/-- The bytes of a list stored in a buffer. -/
theorem map_storeBytes (b : Nat → UInt8) (off : Nat) (bytes : List UInt8) :
    (List.range bytes.length).map (fun i => storeBytes b off bytes (off + i)) = bytes := by
  refine List.ext_getElem (by simp) fun i hi hi' => ?_
  rw [List.getElem_map, List.getElem_range, storeBytes_inside hi']
  simp [List.getD, hi']

theorem udpReceived_of_packet {packet ip : Nat → UInt8} {destIp : IpAddress}
    {srcPort destPort : Nat} {payload : List UInt8} {size : Int}
    (hip : Ipv4Header packet destIp (ipv4HeaderSize + udpHeaderSize + payload.length) 17)
    (hsize : 34 ≤ size) (hsrc : srcPort < 2 ^ 16) (hdest : destPort < 2 ^ 16)
    (hlen : payload.length ≤ 1458)
    (h : ∀ i, i < 42 + payload.length → packet i = udpDatagram ip srcPort destPort payload i) :
    UdpReceived packet size destIp srcPort destPort payload where
  toIpv4Header := hip
  handler := by
    rw [hip.handlerOf_eq hsize]
    rfl
  srcPort := by
    rw [hip.payloadOffset_eq, udpSrcPort, load_congr fun i hi => h (34 + i) (by omega)]
    simp (disch := omega) only [udpDatagram, load_storeBytes_disjoint, load_store_disjoint,
      load_store_same]
    exact ntohs_ntohs hsrc
  destPort := by
    rw [hip.payloadOffset_eq, udpDestPort, load_congr fun i hi => h (36 + i) (by omega)]
    simp (disch := omega) only [udpDatagram, load_storeBytes_disjoint, load_store_disjoint,
      load_store_same]
    exact ntohs_ntohs hdest
  dataLen := by
    have hfield : udpLen packet 34 = udpHeaderSize + payload.length := by
      rw [udpLen, load_congr fun i hi => h (38 + i) (by omega)]
      simp (disch := omega) only [udpDatagram, load_storeBytes_disjoint, load_store_disjoint,
        load_store_same]
      exact ntohs_ntohs (by simp only [udpHeaderSize]; omega)
    rw [hip.payloadOffset_eq, udpDataLen, hfield]
    omega
  data := by
    have hcopy : ∀ i ∈ List.range payload.length,
        packet (payloadOffset packet + udpHeaderSize + i) =
          udpDatagram ip srcPort destPort payload (42 + i) := by
      intro i hi
      rw [hip.payloadOffset_eq]
      exact h _ (Nat.add_lt_add_left (List.mem_range.mp hi) 42)
    rw [List.map_congr_left hcopy]
    exact map_storeBytes _ 42 payload

theorem udpReceived_of_frame (s : Net) (destIp : IpAddress) {srcPort destPort : Nat}
    {payload : List UInt8} (hsrc : srcPort < 2 ^ 16) (hdest : destPort < 2 ^ 16)
    (hlen : payload.length ≤ 1458) (stale : Nat → UInt8) {size : Int} (hsize : 34 ≤ size) :
    UdpReceived (inBuffer stale (s.udpFrame destIp srcPort destPort payload)) size destIp
      srcPort destPort payload := by
  have htotal : ethHeaderSize + (ipv4HeaderSize + udpHeaderSize + payload.length) =
      42 + payload.length := by
    simp only [ethHeaderSize, ipv4HeaderSize, udpHeaderSize]
    omega
  refine udpReceived_of_packet ?_ hsize hsrc hdest hlen fun i hi => inBuffer_map (by omega)
  refine ipv4Header_of_packet s.myMac ((s.arpResolve destIp).getD (Vector.replicate 6 0xFF)) 1
    (by omega) fun i hi => ?_
  rw [Net.udpFrame, inBuffer_map (by omega)]
  simp (disch := omega) only [udpDatagram, store_outside, storeBytes_outside]

/-! ## Ping -/

/-- An echo request, as its handler decodes it. -/
structure PingReceived (packet : Nat → UInt8) (size : Int) (destIp : IpAddress) : Prop
    extends Ipv4Header packet destIp (ipv4HeaderSize + icmpHeaderSize + 32) 1 where
  handler : handlerOf destIp packet size = some .icmp
  request : icmpType packet (payloadOffset packet) = 8
  messageLen : icmpLen packet = icmpHeaderSize + 32
  complete : payloadOffset packet + icmpLen packet ≤ size
  data : (List.range 32).map (fun i => packet (payloadOffset packet + icmpHeaderSize + i)) =
    pingPayload
  icmpChecksum : ipChecksum packet (payloadOffset packet) (icmpHeaderSize + 32) = 0

theorem echoRequest_first (ip : Nat → UInt8) : echoRequest ip 34 = 8 := rfl

theorem pingReceived_of_packet {packet ip : Nat → UInt8} {destIp : IpAddress} {size : Int}
    (hip : Ipv4Header packet destIp (ipv4HeaderSize + icmpHeaderSize + 32) 1) (hsize : 74 ≤ size)
    (h : ∀ i, i < 74 → packet i =
      store (echoRequest ip) 2 36 (ipChecksum (echoRequest ip) 34 (icmpHeaderSize + 32)) i) :
    PingReceived packet size destIp where
  toIpv4Header := hip
  handler := by
    rw [hip.handlerOf_eq (by omega)]
    rfl
  request := by
    rw [hip.payloadOffset_eq, icmpType, h 34 (by decide), store_outside (by decide),
      echoRequest_first]
  messageLen := by
    rw [icmpLen, hip.length, hip.headerLen]
    rfl
  complete := by
    have hlen : icmpLen packet = 40 := by
      rw [icmpLen, hip.length, hip.headerLen]
      rfl
    rw [hip.payloadOffset_eq, hlen]
    exact hsize
  data := by
    have hcopy : ∀ i ∈ List.range 32, packet (payloadOffset packet + icmpHeaderSize + i) =
        echoRequest ip (42 + i) := by
      intro i hi
      have hi' : i < 32 := List.mem_range.mp hi
      have hbyte : packet (34 + icmpHeaderSize + i) = _ := h (42 + i) (by omega)
      rw [hip.payloadOffset_eq, hbyte, store_outside (by omega)]
    rw [List.map_congr_left hcopy]
    exact map_storeBytes _ 42 pingPayload
  icmpChecksum := by
    have hfield : load (echoRequest ip) 2 36 = 0 := by
      rw [echoRequest, load_storeBytes_disjoint (by decide), load_store_disjoint (by decide),
        load_store_disjoint (by decide), load_store_same, Nat.zero_mod]
    have hsum : ipChecksum packet 34 (icmpHeaderSize + 32) = _ :=
      ipChecksum_congr fun i hi => h (34 + i) (Nat.add_lt_add_left hi 34)
    rw [hip.payloadOffset_eq, hsum]
    exact ipChecksum_store (k := 1) rfl (by decide) (by decide) hfield

theorem pingReceived_of_frame (srcMac destMac : MacAddress) (destIp : IpAddress)
    (stale : Nat → UInt8) {size : Int} (hsize : 74 ≤ size) :
    PingReceived (inBuffer stale (Net.pingFrame srcMac destMac destIp)) size destIp := by
  refine pingReceived_of_packet ?_ hsize fun i hi => inBuffer_map hi
  refine ipv4Header_of_packet srcMac destMac 2 (by decide) fun i hi => ?_
  rw [Net.pingFrame, inBuffer_map (Nat.lt_of_lt_of_le hi (by decide)), store_outside (by omega),
    echoRequest, storeBytes_outside (by omega)]
  simp (disch := omega) only [store_outside]
  exact storeBytes_outside (by omega)

/-! ## ARP -/

/-- A request, as its handler decodes it. -/
structure ArpReceived (packet : Nat → UInt8) (size : Int) (senderMac : MacAddress)
    (targetIp : IpAddress) : Prop where
  handler : handlerOf targetIp packet size = some .arp
  complete : (ethHeaderSize + arpPacketSize : Int) ≤ size
  opcode : arpOpcode packet = 1
  senderMac : arpSenderMac packet = senderMac
  senderIp : arpSenderIp packet = myIp
  targetMac : arpTargetMac packet = Vector.replicate 6 0
  targetIp : arpTargetIp packet = targetIp

theorem arpReceived_of_packet {packet : Nat → UInt8} {srcMac : MacAddress} (destMac : MacAddress)
    {targetIp : IpAddress} {size : Int} (hsize : 42 ≤ size)
    (h : ∀ i, i < 42 → packet i =
      arpPacket srcMac destMac 1 (Vector.replicate 6 0) targetIp i) :
    ArpReceived packet size srcMac targetIp where
  handler := by
    have htype : ethType packet = 0x0806 := by
      rw [ethType, load_congr fun i hi => h (12 + i) (by omega)]
      simp (disch := simp) only [arpPacket, load_storeBytes_disjoint, load_store_disjoint,
        load_store_same]
      decide
    have hlong : ¬ size < ethHeaderSize := by
      simp only [ethHeaderSize]
      omega
    rw [handlerOf, if_neg hlong, if_pos htype]
  complete := hsize
  opcode := by
    have hfield : arpOpcode packet = ntohs (load _ 2 20) :=
      congrArg ntohs (load_congr fun i hi => h (20 + i) (by omega))
    simp (disch := simp) only [hfield, arpPacket, load_storeBytes_disjoint, load_store_same]
    decide
  senderMac := by
    have hfield : arpSenderMac packet = addressAt _ 6 22 :=
      addressAt_congr fun i hi => h (22 + i) (by omega)
    simp (disch := simp) only [hfield, arpPacket, addressAt_storeBytes_disjoint,
      addressAt_storeBytes]
  senderIp := by
    have hfield : arpSenderIp packet = addressAt _ 4 28 :=
      addressAt_congr fun i hi => h (28 + i) (by omega)
    simp (disch := simp) only [hfield, arpPacket, addressAt_storeBytes_disjoint,
      addressAt_storeBytes]
  targetMac := by
    have hfield : arpTargetMac packet = addressAt _ 6 32 :=
      addressAt_congr fun i hi => h (32 + i) (by omega)
    simp (disch := simp) only [hfield, arpPacket, addressAt_storeBytes_disjoint,
      addressAt_storeBytes]
  targetIp := by
    have hfield : arpTargetIp packet = addressAt _ 4 38 :=
      addressAt_congr fun i hi => h (38 + i) (by omega)
    simp only [hfield, arpPacket, addressAt_storeBytes]

theorem arpReceived_of_frame (s : Net) (targetIp : IpAddress) (stale : Nat → UInt8) {size : Int}
    (hsize : 60 ≤ size) :
    ArpReceived (inBuffer stale (s.arpRequest targetIp)) size s.myMac targetIp := by
  refine arpReceived_of_packet (Vector.replicate 6 0xFF) (by omega) fun i hi => ?_
  exact inBuffer_map (by omega)

/-! ## The senders -/

namespace Net

/-- The state in which `icmp_send_ping` has waited for the address, if it had to. -/
def resolved (s : Net) (destIp : IpAddress) (wait : Net → Net) : Net :=
  if s.arpResolve destIp = none then
    wait ((s.arpSendRequest destIp).printString "Resolving hardware address (ARP)...\n")
  else s

theorem rtl8139SendPacket_sent (s : Net) (frame : List UInt8) :
    (s.rtl8139SendPacket frame).sent =
      if s.rtl8139Present = false ∨ s.rtl8139IoBase = 0 then s.sent else s.sent ++ [frame] := by
  unfold rtl8139SendPacket
  split <;> rfl

theorem icmpSendPing_sent {s : Net} {destIp : IpAddress} {wait : Net → Net} {mac : MacAddress}
    (h : (s.resolved destIp wait).arpResolve destIp = some mac) :
    (s.icmpSendPing destIp wait).sent =
      ((s.resolved destIp wait).rtl8139SendPacket (pingFrame s.myMac mac destIp)).sent := by
  have hsend : ∀ t : Net, (t.sendPing destIp s.myMac mac).sent =
      (t.rtl8139SendPacket (pingFrame s.myMac mac destIp)).sent := by
    intro t
    rw [sendPing, rtl8139SendPacket_sent, rtl8139SendPacket_sent]
    rfl
  unfold resolved at h ⊢
  unfold icmpSendPing
  cases hknown : s.arpResolve destIp with
  | some known =>
    rw [hknown, if_neg (Option.some_ne_none known)] at h
    rw [if_neg (Option.some_ne_none known)]
    cases hknown.symm.trans h
    exact hsend s
  | none =>
    rw [if_pos hknown] at h
    simp only [h]
    exact hsend _

/-- The state in which `udp_send` sends its frame: an unknown destination has been asked
for. -/
def asked (s : Net) (destIp : IpAddress) : Net :=
  if s.arpResolve destIp = none then s.arpSendRequest destIp else s

theorem udpSend_eq (s : Net) (destIp : IpAddress) (srcPort destPort : Nat)
    {payload : List UInt8} (h : payload.length ≤ 1458) :
    s.udpSend destIp srcPort destPort payload =
      (s.asked destIp).rtl8139SendPacket (s.udpFrame destIp srcPort destPort payload) := by
  have hfits : ¬ ethHeaderSize + (ipv4HeaderSize + udpHeaderSize + payload.length) > 1500 := by
    simp only [ethHeaderSize, ipv4HeaderSize, udpHeaderSize]
    omega
  unfold udpSend asked
  rw [if_neg hfits]
  split <;> rfl

end Net

/-- Every frame that a sender hands to the device, found in the receive buffer of a host
with the address it is for, padded by the device or not and with any bytes behind it, is
decoded there to what the sender was given, and its checksums are right. -/
theorem sent_frames_received (s : Net) (destIp : IpAddress) (stale : Nat → UInt8) (pad : Nat) :
    (∀ (srcPort destPort : UInt16) (seq ack : UInt32) (flags : Nat), flags < 64 →
      let frame := s.tcpFrame destIp srcPort.toNat destPort.toNat seq.toNat ack.toNat flags
      (s.sendTcpPacket destIp srcPort.toNat destPort.toNat seq.toNat ack.toNat flags).sent =
          (s.rtl8139SendPacket frame).sent ∧
        TcpReceived (inBuffer stale frame) (frame.length + pad) destIp srcPort.toNat
          destPort.toNat seq.toNat ack.toNat flags) ∧
    (∀ (srcPort destPort : UInt16) (payload : List UInt8), payload.length ≤ 1458 →
      let frame := s.udpFrame destIp srcPort.toNat destPort.toNat payload
      (s.udpSend destIp srcPort.toNat destPort.toNat payload).sent =
          ((s.asked destIp).rtl8139SendPacket frame).sent ∧
        UdpReceived (inBuffer stale frame) (frame.length + pad) destIp srcPort.toNat
          destPort.toNat payload) ∧
    (∀ (wait : Net → Net) (mac : MacAddress),
      (s.resolved destIp wait).arpResolve destIp = some mac →
      let frame := Net.pingFrame s.myMac mac destIp
      (s.icmpSendPing destIp wait).sent =
          ((s.resolved destIp wait).rtl8139SendPacket frame).sent ∧
        PingReceived (inBuffer stale frame) (frame.length + pad) destIp) ∧
    (s.arpSendRequest destIp).sent = (s.rtl8139SendPacket (s.arpRequest destIp)).sent ∧
      ArpReceived (inBuffer stale (s.arpRequest destIp)) ((s.arpRequest destIp).length + pad)
        s.myMac destIp := by
  refine ⟨?_, ?_, ?_, rfl, ?_⟩
  · intro srcPort destPort seq ack flags hflags frame
    have hlen : frame.length = 54 := by simp [frame, tcpFrame_eq]
    exact ⟨rfl, tcpReceived_of_frame s destIp srcPort.toNat_lt destPort.toNat_lt seq.toNat_lt
      ack.toNat_lt hflags stale (by omega)⟩
  · intro srcPort destPort payload hpayload frame
    have hlen : 34 ≤ frame.length := by
      simp only [frame, Net.udpFrame, List.length_map, List.length_range, ethHeaderSize,
        ipv4HeaderSize]
      omega
    rw [Net.udpSend_eq s destIp _ _ hpayload]
    exact ⟨rfl, udpReceived_of_frame s destIp srcPort.toNat_lt destPort.toNat_lt hpayload stale
      (by omega)⟩
  · intro wait mac hmac frame
    have hlen : frame.length = 74 := by
      simp [frame, Net.pingFrame, ethHeaderSize, ipv4HeaderSize, icmpHeaderSize]
    exact ⟨Net.icmpSendPing_sent hmac,
      pingReceived_of_frame s.myMac mac destIp stale (by omega)⟩
  · have hlen : (s.arpRequest destIp).length = 60 := by simp [Net.arpRequest, arpFrame]
    exact arpReceived_of_frame s destIp stale (by omega)

/-- The responder that knows the address of the client. -/
def sampleSender : Net := sampleListen.net.arpCacheAdd client #v[0x52, 0x55, 10, 0, 2, 2]

/-- A SYN, the datagram `hi` and a ping to the client. -/
theorem sent_frames_received_sample :
    TcpReceived (inBuffer (fun _ => 7) (sampleSender.tcpFrame client 80 5555 2000 2 0x12)) 54
        client 80 5555 2000 2 0x12 ∧
      UdpReceived (inBuffer (fun _ => 7) (sampleSender.udpFrame client 1234 9 [104, 105])) 44
        client 1234 9 [104, 105] ∧
      PingReceived (inBuffer (fun _ => 7)
        (Net.pingFrame sampleSender.myMac #v[0x52, 0x55, 10, 0, 2, 2] client)) 74 client := by
  have hknown : (sampleSender.resolved client id).arpResolve client =
      some #v[0x52, 0x55, 10, 0, 2, 2] := by decide +kernel
  obtain ⟨htcp, hudp, hping, _⟩ := sent_frames_received sampleSender client (fun _ => 7) 0
  exact ⟨(htcp 80 5555 2000 2 0x12 (by decide)).2, (hudp 1234 9 [104, 105] (by decide)).2,
    (hping id _ hknown).2⟩

end Newrex
