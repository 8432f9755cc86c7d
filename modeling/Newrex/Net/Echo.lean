import Newrex.Net.Frames

/-!
# Echo replies

`handle_ipv4_packet` answers an echo request in a copy of it: the addresses are exchanged, the
type is changed, and the checksum of the IP header and that of the message are computed anew.

* `EchoRequest.answer`: the reply field by field, with both checksums 0. The message may have
  any length, even or odd;
* `EchoRequest.accepted`: the host that sent the request accepts the reply, as the checksum it
  computes is the one that the responder stored;
* `echo_request_answered` is the result.
-/

namespace Newrex

open LittleEndian

/-- A well-formed echo request for this host. -/
structure EchoRequest (packet : Nat → UInt8) (size : Int) : Prop where
  destination : ipDest packet = myIp ∨ ipDest packet = #v[255, 255, 255, 255]
  protocol : ipProto packet = 1
  headerLen : ipv4HeaderSize ≤ ipHeaderLen packet
  totalLen : ipHeaderLen packet + icmpHeaderSize ≤ ipLen packet
  complete : (ethHeaderSize + ipLen packet : Int) ≤ size
  fits : ethHeaderSize + ipLen packet ≤ 1024
  request : icmpType packet (payloadOffset packet) = 8

/-- The reply of a host whose hardware address is `mac` to the request `packet`. -/
structure EchoAnswer (mac : MacAddress) (packet reply : Nat → UInt8) : Prop where
  destMac : addressAt reply 6 0 = addressAt packet 6 6
  srcMac : addressAt reply 6 6 = mac
  header : ∀ i, 12 ≤ i → i < 24 → reply i = packet i
  ipSource : ipSrc reply = myIp
  ipDestination : ipDest reply = ipSrc packet
  options : ∀ i, 34 ≤ i → i < payloadOffset packet → reply i = packet i
  type : icmpType reply (payloadOffset packet) = 0
  code : reply (payloadOffset packet + 1) = packet (payloadOffset packet + 1)
  message : ∀ i, payloadOffset packet + 4 ≤ i → i < ethHeaderSize + ipLen packet →
    reply i = packet i
  ipChecksum : ipChecksum reply ethHeaderSize (ipHeaderLen packet) = 0
  icmpChecksum : Newrex.ipChecksum reply (payloadOffset packet)
    (ipLen packet - ipHeaderLen packet) = 0

/-! ## The stages of the reply -/

namespace Net

/-- The frame with the addresses of the reply. -/
def exchanged (mac : MacAddress) (b : Nat → UInt8) : Nat → UInt8 :=
  let b := storeBytes b 0 (addressAt b 6 6).toList
  let b := storeBytes b 6 mac.toList
  let b := storeBytes b 30 (addressAt b 4 26).toList
  storeBytes b 26 myIp.toList

/-- The frame with a new checksum of its IP header. -/
def headerSummed (b : Nat → UInt8) (headerLen : Nat) : Nat → UInt8 :=
  let b := store b 2 24 0
  store b 2 24 (ipChecksum b 14 headerLen)

/-- The frame with the type of a reply in the message at `off`. -/
def answered (b : Nat → UInt8) (off : Nat) : Nat → UInt8 :=
  store (storeBytes b off [0]) 2 (off + 2) 0

/-- The reply to `packet` in the array that holds `copy`. -/
def replyBytes (mac : MacAddress) (copy packet : Nat → UInt8) : Nat → UInt8 :=
  let b := headerSummed (exchanged mac copy) (ipHeaderLen packet)
  let b := answered b (payloadOffset packet)
  store b 2 (payloadOffset packet + 2) (ipChecksumInt b (payloadOffset packet) (icmpLen packet))

theorem echoReply_eq (s : Net) (garbage packet : Nat → UInt8) :
    s.echoReply garbage packet =
      (List.range (ethHeaderSize + ipLen packet)).map (replyBytes s.myMac
        (fun i => if i < ethHeaderSize + ipLen packet then packet i else garbage i) packet) := rfl

section Stages

variable {mac : MacAddress} {b : Nat → UInt8} {i n off : Nat}

theorem exchanged_outside (h : 12 ≤ i ∧ i < 26 ∨ 34 ≤ i) : exchanged mac b i = b i := by
  simp only [exchanged]
  rw [storeBytes_outside, storeBytes_outside, storeBytes_outside, storeBytes_outside]
  all_goals simp only [Vector.length_toList]; omega

theorem exchanged_destMac : addressAt (exchanged mac b) 6 0 = addressAt b 6 6 := by
  simp only [exchanged]
  rw [addressAt_storeBytes_disjoint, addressAt_storeBytes_disjoint, addressAt_storeBytes_disjoint,
    addressAt_storeBytes]
  all_goals simp

theorem exchanged_srcMac : addressAt (exchanged mac b) 6 6 = mac := by
  simp only [exchanged]
  rw [addressAt_storeBytes_disjoint, addressAt_storeBytes_disjoint, addressAt_storeBytes]
  all_goals simp

theorem exchanged_ipSource : addressAt (exchanged mac b) 4 26 = myIp := by
  simp only [exchanged]
  rw [addressAt_storeBytes]

theorem exchanged_ipDest : addressAt (exchanged mac b) 4 30 = addressAt b 4 26 := by
  simp only [exchanged]
  rw [addressAt_storeBytes_disjoint, addressAt_storeBytes, addressAt_storeBytes_disjoint,
    addressAt_storeBytes_disjoint]
  all_goals simp

theorem headerSummed_outside (h : i < 24 ∨ 26 ≤ i) : headerSummed b n i = b i :=
  (store_outside h).trans (store_outside h)

theorem headerSummed_checksum (hlow : 12 ≤ n) (hhigh : n ≤ 60) :
    ipChecksum (headerSummed b n) 14 n = 0 := by
  refine ipChecksum_store (k := 5) rfl (by omega) (by omega) ?_
  rw [load_store_same, Nat.zero_mod]

theorem answered_outside (h : i < off ∨ i = off + 1 ∨ off + 4 ≤ i) : answered b off i = b i := by
  have hout : i < off ∨ off + [(0 : UInt8)].length ≤ i := by
    rw [List.length_singleton]
    omega
  exact (store_outside (by omega)).trans (storeBytes_outside hout)

theorem answered_type : answered b off off = 0 :=
  (store_outside (by omega)).trans (storeBytes_singleton b off 0)

theorem answered_checksum : load (answered b off) 2 (off + 2) = 0 := by
  rw [answered, load_store_same, Nat.zero_mod]

end Stages

variable {mac : MacAddress} {copy packet : Nat → UInt8} {i n a : Nat}

/-- What the reply shares with the request. -/
theorem replyBytes_outside (hoff : 34 ≤ payloadOffset packet)
    (h : 12 ≤ i ∧ i < 24 ∨ 34 ≤ i ∧ i < payloadOffset packet ∨ i = payloadOffset packet + 1 ∨
      payloadOffset packet + 4 ≤ i) : replyBytes mac copy packet i = copy i := by
  simp only [replyBytes]
  rw [store_outside (by omega), answered_outside (by omega), headerSummed_outside (by omega),
    exchanged_outside (by omega)]

theorem replyBytes_address (hoff : 34 ≤ payloadOffset packet)
    (h : a + n ≤ 24 ∨ 26 ≤ a ∧ a + n ≤ 34) :
    addressAt (replyBytes mac copy packet) n a = addressAt (exchanged mac copy) n a := by
  refine addressAt_congr fun i hi => ?_
  simp only [replyBytes]
  rw [store_outside (by omega), answered_outside (by omega), headerSummed_outside (by omega)]

theorem replyBytes_type : replyBytes mac copy packet (payloadOffset packet) = 0 :=
  (store_outside (by omega)).trans answered_type

theorem replyBytes_headerChecksum (hlow : 20 ≤ ipHeaderLen packet)
    (hhigh : ipHeaderLen packet ≤ 60) :
    ipChecksum (replyBytes mac copy packet) 14 (ipHeaderLen packet) = 0 := by
  rw [← headerSummed_checksum (b := exchanged mac copy) (by omega) hhigh]
  refine ipChecksum_congr fun i hi => ?_
  have hbefore : 14 + i < payloadOffset packet := Nat.add_lt_add_left hi 14
  exact (store_outside (by omega)).trans (answered_outside (by omega))

/-- The message carries its checksum, so that it has the checksum 0, and clearing the field
gives the bytes that it was computed from. -/
theorem replyBytes_message {len : Nat} (hlen : icmpLen packet = len) (hlow : 8 ≤ len)
    (hhigh : len ≤ 1024) :
    ipChecksum (replyBytes mac copy packet) (payloadOffset packet) len = 0 ∧
      load (replyBytes mac copy packet) 2 (payloadOffset packet + 2) =
        ipChecksum (store (replyBytes mac copy packet) 2 (payloadOffset packet + 2) 0)
          (payloadOffset packet) len := by
  simp only [replyBytes, hlen, ipChecksumInt_natCast]
  generalize hb : answered _ (payloadOffset packet) = b
  have hzero : load b 2 (payloadOffset packet + 2) = 0 := by
    rw [← hb]
    exact answered_checksum
  have hlt := ipChecksum_lt b (payloadOffset packet) len
  constructor
  · exact ipChecksum_store (k := 1) rfl (by omega) (by omega) hzero
  · rw [load_store_same, store_store, store_load hzero]
    exact Nat.mod_eq_of_lt hlt

end Net

/-! ## The reply -/

namespace EchoRequest

variable {packet copy reply : Nat → UInt8} {size : Int} {mac : MacAddress}

theorem headerLen_le (packet : Nat → UInt8) : ipHeaderLen packet ≤ 60 := by
  have hmask : ipVerIhl packet &&& 0x0F ≤ 15 := Nat.and_le_right
  unfold ipHeaderLen
  omega

theorem icmpLen_eq (h : EchoRequest packet size) :
    icmpLen packet = ((ipLen packet - ipHeaderLen packet : Nat) : Int) := by
  have htotal := h.totalLen
  unfold icmpLen
  omega

theorem payloadOffset_le (h : EchoRequest packet size) : 34 ≤ payloadOffset packet :=
  Nat.add_le_add_left h.headerLen 14

/-- The message ends with the datagram. -/
theorem payload_end (h : EchoRequest packet size) :
    payloadOffset packet + (ipLen packet - ipHeaderLen packet) = ethHeaderSize + ipLen packet := by
  have hlen := h.totalLen
  unfold payloadOffset
  omega

/-- What is sent to an echo request, wherever it is received. -/
theorem answer (h : EchoRequest packet size)
    (hcopy : ∀ i, i < ethHeaderSize + ipLen packet → copy i = packet i)
    (hreply : ∀ i, i < ethHeaderSize + ipLen packet →
      reply i = Net.replyBytes mac copy packet i) : EchoAnswer mac packet reply := by
  have hoff := h.payloadOffset_le
  have hlen := h.totalLen
  have hhead := h.headerLen
  have hend := h.payload_end
  have hfits := h.fits
  simp only [ethHeaderSize, ipv4HeaderSize, icmpHeaderSize] at hcopy hreply hlen hhead hend hfits
  -- a byte that the reply shares with the request
  have hshare : ∀ i, i < 14 + ipLen packet → (12 ≤ i ∧ i < 24 ∨
      34 ≤ i ∧ i < payloadOffset packet ∨ i = payloadOffset packet + 1 ∨
      payloadOffset packet + 4 ≤ i) → reply i = packet i := by
    intro i hi hout
    rw [hreply i hi, Net.replyBytes_outside hoff hout, hcopy i hi]
  have haddress : ∀ a n, a + n ≤ 14 + ipLen packet → (a + n ≤ 24 ∨ 26 ≤ a ∧ a + n ≤ 34) →
      addressAt reply n a = addressAt (Net.exchanged mac copy) n a := by
    intro a n hn hplace
    rw [← Net.replyBytes_address hoff hplace]
    exact addressAt_congr fun i hi => hreply (a + i) (by omega)
  have hcopied : ∀ a n, a + n ≤ 14 + ipLen packet → addressAt copy n a = addressAt packet n a :=
    fun a n hn => addressAt_congr fun i hi => hcopy (a + i) (by omega)
  constructor
  · rw [haddress 0 6 (by omega) (by omega), Net.exchanged_destMac, hcopied 6 6 (by omega)]
  · rw [haddress 6 6 (by omega) (by omega), Net.exchanged_srcMac]
  · exact fun i hlow hhigh => hshare i (by omega) (by omega)
  · exact (haddress 26 4 (by omega) (by omega)).trans Net.exchanged_ipSource
  · refine (haddress 30 4 (by omega) (by omega)).trans ?_
    rw [Net.exchanged_ipDest, hcopied 26 4 (by omega)]
    rfl
  · exact fun i hlow hhigh => hshare i (by omega) (by omega)
  · exact (hreply _ (by omega)).trans Net.replyBytes_type
  · exact hshare _ (by omega) (by omega)
  · exact fun i hlow hhigh => hshare i hhigh (by omega)
  · rw [← Net.replyBytes_headerChecksum hhead (headerLen_le packet)]
    exact ipChecksum_congr fun i hi => hreply (14 + i) (by omega)
  · rw [← (Net.replyBytes_message h.icmpLen_eq (by omega) (by omega)).1]
    exact ipChecksum_congr fun i hi => hreply (payloadOffset packet + i) (by omega)

end EchoRequest

/-- The lengths in the reply are those of the request. -/
theorem EchoAnswer.lengths {mac : MacAddress} {packet reply : Nat → UInt8}
    (h : EchoAnswer mac packet reply) :
    payloadOffset reply = payloadOffset packet ∧ icmpLen reply = icmpLen packet := by
  have hheader : ipHeaderLen reply = ipHeaderLen packet := by
    rw [ipHeaderLen, ipHeaderLen, ipVerIhl, ipVerIhl,
      h.header ethHeaderSize (by decide) (by decide)]
  have hlen : ipLen reply = ipLen packet :=
    congrArg ntohs (load_congr fun i hi => h.header (16 + i) (by omega) (by omega))
  rw [payloadOffset, payloadOffset, icmpLen, icmpLen, hheader, hlen]
  exact ⟨rfl, rfl⟩

namespace EchoRequest

variable {packet copy reply : Nat → UInt8} {size : Int} {mac : MacAddress}

/-- The field that `handle_ipv4_packet` of the requester compares holds the checksum that it
computes. -/
theorem accepted (h : EchoRequest packet size)
    (hcopy : ∀ i, i < ethHeaderSize + ipLen packet → copy i = packet i)
    (hreply : ∀ i, i < ethHeaderSize + ipLen packet →
      reply i = Net.replyBytes mac copy packet i) :
    icmpChecksum reply (payloadOffset reply) =
      Host.calculatedChecksum reply (payloadOffset reply) := by
  have hsame := (h.answer hcopy hreply).lengths
  have hlen := h.totalLen
  have hend := h.payload_end
  have hfits := h.fits
  simp only [ethHeaderSize, icmpHeaderSize] at hreply hlen hend hfits
  obtain ⟨_, hsum⟩ := @Net.replyBytes_message mac copy packet _ h.icmpLen_eq (by omega) (by omega)
  rw [hsame.1, Host.calculatedChecksum, hsame.2, h.icmpLen_eq, ipChecksumInt_natCast]
  calc icmpChecksum reply (payloadOffset packet)
      = load (Net.replyBytes mac copy packet) 2 (payloadOffset packet + 2) :=
        load_congr fun i hi => hreply _ (by omega)
    _ = _ := hsum
    _ = _ := ipChecksum_congr fun i hi => ?_
  simp only [store]
  split
  · rfl
  · exact (hreply _ (by omega)).symm

end EchoRequest

/-- The reply gets to the ICMP handler of the host that sent the request. -/
theorem EchoAnswer.handlerOf_eq {mac : MacAddress} {packet reply : Nat → UInt8}
    (h : EchoAnswer mac packet reply) (htype : ethType packet = 0x0800)
    (hproto : ipProto packet = 1) {size : Int} (hsize : 34 ≤ size) :
    handlerOf (ipSrc packet) reply size = some .icmp := by
  have htype' : ethType reply = 0x0800 := by
    rw [← htype]
    exact congrArg ntohs (load_congr fun i hi => h.header (12 + i) (by omega) (by omega))
  have hproto' : ipProto reply = 1 := (h.header 23 (by decide) (by decide)).trans hproto
  have hlong : ¬ size < ethHeaderSize := by
    rw [ethHeaderSize]
    omega
  have hip : ¬ size < ethHeaderSize + ipv4HeaderSize := by
    rw [ethHeaderSize, ipv4HeaderSize]
    omega
  simp [handlerOf, hlong, hip, htype', h.ipDestination, hproto']

/-- The branch of `handle_ipv4_packet` that answers. -/
theorem EchoRequest.handleIpv4Packet_eq {packet : Nat → UInt8} {size : Int}
    (h : EchoRequest packet size) (s : Host) (garbage : Nat → UInt8) :
    s.handleIpv4Packet garbage packet size =
      { s with toNet := s.toNet.rtl8139SendPacket (s.echoReply garbage packet) } := by
  have hcomplete := h.complete
  have htotal := h.totalLen
  have hhead := h.headerLen
  have hlong : ¬ size < ethHeaderSize + ipv4HeaderSize := by omega
  have hdest : ¬ (ipDest packet ≠ myIp ∧ ipDest packet ≠ #v[255, 255, 255, 255]) := fun hne =>
    h.destination.elim hne.1 hne.2
  have hmessage : ¬ size < payloadOffset packet + icmpLen packet := by
    rw [h.icmpLen_eq, payloadOffset]
    omega
  rw [Host.handleIpv4Packet, if_neg hlong, if_neg hdest, if_pos h.protocol, Host.handleIcmpPacket,
    if_neg hmessage, if_pos h.request, if_neg (Nat.not_lt.mpr h.fits)]

/-- The branch of `handle_ipv4_packet` that counts a reply. -/
theorem handleIcmpPacket_counts (s : Host) (garbage : Nat → UInt8) {reply : Nat → UInt8}
    {size : Int} (hend : payloadOffset reply + icmpLen reply ≤ size)
    (htype : icmpType reply (payloadOffset reply) = 0)
    (hsum : icmpChecksum reply (payloadOffset reply) =
      Host.calculatedChecksum reply (payloadOffset reply)) :
    (s.handleIcmpPacket garbage reply size).netPingReplies = add32 s.netPingReplies 1 := by
  rw [Host.handleIcmpPacket, if_neg (Int.not_lt.mpr hend), htype, if_neg (by decide), if_pos rfl,
    if_neg (not_not_intro hsum)]

/-- Echo. A well-formed request makes the host send one frame, of the length of the datagram.
Received anywhere, padded by the device or not, the frame has the addresses exchanged and the
type of a reply; the rest is unchanged, and both checksums are 0. The host that sent the
request takes it for an ICMP message to itself, passes the checksum comparison and counts one
more reply. -/
theorem echo_request_answered (s : Host) (garbage : Nat → UInt8) {packet : Nat → UInt8} {size : Int}
    (h : EchoRequest packet size) :
    ∃ frame : List UInt8, frame.length = ethHeaderSize + ipLen packet ∧
      s.handleIpv4Packet garbage packet size =
        { s with toNet := s.toNet.rtl8139SendPacket frame } ∧
      (s.Attached → (s.handleIpv4Packet garbage packet size).sent = s.sent ++ [frame]) ∧
      ∀ (stale : Nat → UInt8) (pad : Nat),
        let reply := inBuffer stale frame
        EchoAnswer s.myMac packet reply ∧
          (ethType packet = 0x0800 →
            handlerOf (ipSrc packet) reply (frame.length + pad) = some .icmp) ∧
          icmpChecksum reply (payloadOffset reply) =
            Host.calculatedChecksum reply (payloadOffset reply) ∧
          ∀ (requester : Host) (garbage' : Nat → UInt8),
            (requester.runHandler garbage' reply (frame.length + pad) .icmp).netPingReplies =
              add32 requester.netPingReplies 1 := by
  have hlen := h.totalLen
  have hhead := h.headerLen
  have hcopy : ∀ i, i < ethHeaderSize + ipLen packet →
      (if i < ethHeaderSize + ipLen packet then packet i else garbage i) = packet i :=
    fun i hi => if_pos hi
  have hframe : (s.echoReply garbage packet).length = ethHeaderSize + ipLen packet := by
    rw [Net.echoReply_eq, List.length_map, List.length_range]
  have hsend := h.handleIpv4Packet_eq s garbage
  refine ⟨_, hframe, hsend, fun hattached => ?_, fun stale pad => ?_⟩
  · rw [hsend, Net.rtl8139SendPacket_sent, if_neg]
    exact fun hnone =>
      hnone.elim (fun h => absurd (hattached.1.symm.trans h) (by decide)) hattached.2
  · have hreply : ∀ i, i < ethHeaderSize + ipLen packet →
        inBuffer stale (s.echoReply garbage packet) i = Net.replyBytes s.myMac _ packet i :=
      fun i hi => inBuffer_map hi
    have hanswer := h.answer hcopy hreply
    have haccepted := h.accepted hcopy hreply
    obtain ⟨hoff, hmessage⟩ := hanswer.lengths
    refine ⟨hanswer, fun htype => hanswer.handlerOf_eq htype h.protocol ?_, haccepted,
      fun requester garbage' => handleIcmpPacket_counts requester garbage' ?_ ?_ haccepted⟩
    · rw [hframe, ethHeaderSize]
      simp only [ipv4HeaderSize, icmpHeaderSize] at hlen hhead
      omega
    · rw [hframe, hoff, hmessage, h.icmpLen_eq, payloadOffset]
      omega
    · rw [hoff]
      exact hanswer.type

/-- A ping of 5 bytes, with options in the IP header. -/
def sampleRequest : List UInt8 :=
  [0x52, 0x54, 0, 0x12, 0x34, 0x56, 0x52, 0x55, 10, 0, 2, 2, 8, 0,
    0x46, 0, 0, 37, 0, 7, 0, 0, 64, 1, 0, 0, 10, 0, 2, 2, 10, 0, 2, 15, 1, 1, 1, 0,
    8, 0, 0, 0, 4, 210, 0, 1, 104, 101, 108, 108, 111]

theorem echo_request_sample :
    ∃ frame : List UInt8, frame.length = 51 ∧
      ipSrc (inBuffer (fun _ => 7) frame) = myIp ∧
      ipDest (inBuffer (fun _ => 7) frame) = #v[10, 0, 2, 2] := by
  have hrequest : EchoRequest (inBuffer (fun _ => 0) sampleRequest) 60 :=
    ⟨by decide +kernel, by decide +kernel, by decide +kernel, by decide +kernel, by decide +kernel,
      by decide +kernel, by decide +kernel⟩
  obtain ⟨frame, hlen, _, _, hreply⟩ :=
    echo_request_answered ⟨sampleListen.net, 0⟩ (fun _ => 9) hrequest
  have hanswer := (hreply (fun _ => 7) 0).1
  exact ⟨frame, hlen.trans (by decide +kernel), hanswer.ipSource,
    hanswer.ipDestination.trans (by decide +kernel)⟩

end Newrex
