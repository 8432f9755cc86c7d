import Newrex.Net.Frames

/-!
# What the TCP responder acknowledges

A segment takes up as many sequence numbers as it has bytes of data, and one for each of
SYN and FIN. The responder counts one branch at a time: the branch on FIN stores `seq + 1`
over the number that the branch on data has just stored, and the segment that completes
the handshake is not looked at for data. So `tcp_ack` falls behind the peer when data comes
with FIN (`data_with_fin_unacknowledged`) or with the last ACK of the handshake.

* `beforeFin_answers` and `handleTcpFin_answers` say what each branch acknowledges;
* `answers_receive_iff` is the arithmetic of one segment of an established connection;
* `PeerRun.names_step_iff` says which segments of a run keep `tcp_ack` at the number that
  the peer uses next, and `tcp_ack_arithmetic` is the result for all runs of them.
-/

namespace Newrex

open LittleEndian

/-! ## Segments and answers -/

/-- `data_len` of a segment: total length less both header lengths. -/
def payloadLen (packet : Nat → UInt8) : Int :=
  Net.tcpDataLen packet (tcpOffset packet) (ipHeaderLen packet)

/-- `seq` of a segment. -/
def segmentSeq (packet : Nat → UInt8) : Nat := tcpSeqNum packet (tcpOffset packet)

/-- The sequence numbers that a segment takes up. -/
def seqLen (packet : Nat → UInt8) : Nat :=
  (payloadLen packet).toNat + (if HasSyn packet then 1 else 0) + if HasFin packet then 1 else 0

/-- The acknowledgement number in a frame that `send_tcp_packet` built. -/
def frameAck (frame : List UInt8) : Nat := tcpAckNum (inBuffer (fun _ => 0) frame) 34

namespace Net

/-- On the way from `s` to `s'` the number `n` was stored in `tcp_ack` and sent in the last
of the answers. -/
def Answers (s s' : Net) (n : Nat) : Prop :=
  s'.tcpAck = n ∧ (s.Attached →
    ∃ frames frame, s'.sent = s.sent ++ (frames ++ [frame]) ∧ frameAck frame = n)

end Net

/-! ## Lengths -/

theorem payloadLen_toNat_lt (packet : Nat → UInt8) : (payloadLen packet).toNat < 2 ^ 16 := by
  have hlen : ipLen packet < 2 ^ 16 := by
    have hlow := (packet (ethHeaderSize + 2 + 1)).toNat_lt
    have hhigh := (packet (ethHeaderSize + 2)).toNat_lt
    rw [ipLen, ntohs_load]
    omega
  rw [payloadLen, Net.tcpDataLen]
  omega

theorem segmentSeq_lt (packet : Nat → UInt8) : segmentSeq packet < 2 ^ 32 := by
  have h0 := (packet (tcpOffset packet + 4)).toNat_lt
  have h1 := (packet (tcpOffset packet + 4 + 1)).toNat_lt
  have h2 := (packet (tcpOffset packet + 4 + 1 + 1)).toNat_lt
  have h3 := (packet (tcpOffset packet + 4 + 1 + 1 + 1)).toNat_lt
  simp only [segmentSeq, tcpSeqNum, load, Nat.mul_zero, Nat.add_zero]
  rw [ntohl_bytes h0 h1 h2 h3]
  omega

theorem seqLen_lt (packet : Nat → UInt8) : seqLen packet < 2 ^ 32 := by
  have hlen := payloadLen_toNat_lt packet
  rw [seqLen]
  split
  · split
    · omega
    · omega
  · split
    · omega
    · omega

theorem add32_lt (a b : Nat) : add32 a b < 2 ^ 32 := Nat.mod_lt _ (by decide)

/-- Shorter than the sequence space, two lengths lead to the same number only if they are
the same. -/
theorem add32_inj {a m n : Nat} (hm : m < 2 ^ 32) (hn : n < 2 ^ 32) :
    add32 a m = add32 a n ↔ m = n := by
  refine ⟨fun h => ?_, fun h => by rw [h]⟩
  simp only [add32] at h
  omega

namespace Net

/-! ## What each branch acknowledges -/

theorem frameAck_tcpFrame (s : Net) (destIp : IpAddress) (srcPort destPort seq flags : Nat)
    {ack : Nat} (h : ack < 2 ^ 32) :
    frameAck (s.tcpFrame destIp srcPort destPort seq ack flags) = ack := by
  rw [frameAck, tcpAckNum, tcpFrame_eq, load_congr fun i hi => inBuffer_map (by omega)]
  simp (disch := omega) only [tcpHeader, load_store_disjoint, load_store_same]
  exact ntohl_ntohl h

theorem answers_reply (s : Net) (flags : Nat) (h : s.tcpAck < 2 ^ 32) :
    s.Answers (s.reply flags) s.tcpAck := by
  rw [reply, sendTcpPacket, rtl8139SendPacket]
  split
  · rename_i hdown
    refine ⟨rfl, fun hup => ?_⟩
    rcases hdown with hdown | hdown
    · exact absurd (hup.1.symm.trans hdown) (by decide)
    · exact absurd hdown hup.2
  · exact ⟨rfl, fun _ => ⟨[], _, rfl, frameAck_tcpFrame s _ _ _ _ flags h⟩⟩

/-- The last answer of a step is the last one of the steps up to it. -/
theorem Answers.of_logs {s s1 s2 : Net} {prints : List Print} {frames : List (List UInt8)}
    {n : Nat} (h : s1.Answers s2 n) (hup : s.Attached → s1.Attached)
    (hlog : Logs s s1 prints frames) : s.Answers s2 n := by
  refine ⟨h.1, fun hattached => ?_⟩
  obtain ⟨frames1, frame, hsent, hframe⟩ := h.2 (hup hattached)
  refine ⟨frames ++ frames1, frame, ?_, hframe⟩
  rw [hsent, hlog.2]
  simp only [List.append_assoc]

theorem receiveData_eq (s : Net) {packet : Nat → UInt8} {off ipHeaderLen : Nat}
    (hlen : 0 < tcpDataLen packet off ipHeaderLen) :
    ∃ prints, s.receiveData packet off ipHeaderLen = Net.reply
      { s with
        console := s.console ++ prints
        tcpAck := add32 (tcpSeqNum packet off) (tcpDataLen packet off ipHeaderLen).toNat }
      0x10 := by
  obtain ⟨prints, heq, _⟩ := s.printData_eq packet (off + tcpHeaderLen packet off)
    (tcpDataLen packet off ipHeaderLen).toNat
  refine ⟨prints, ?_⟩
  rw [receiveData, if_pos hlen, heq]

/-- SYN and data are acknowledged; any other segment leaves `tcp_ack` as it is. -/
theorem beforeFin_answers (s : Net) (packet : Nat → UInt8) :
    HasSyn packet ∧ s.Answers (s.beforeFin packet) (add32 (segmentSeq packet) 1) ∨
    s.CarriesData packet ∧ s.Answers (s.beforeFin packet)
      (add32 (segmentSeq packet) (payloadLen packet).toNat) ∨
    ¬ HasSyn packet ∧ ¬ s.CarriesData packet ∧ (s.beforeFin packet).tcpAck = s.tcpAck := by
  by_cases hsyn : HasSyn packet
  · have heq : s.beforeFin packet = s.openConnection packet (tcpOffset packet) := if_pos hsyn
    rw [heq]
    exact Or.inl ⟨hsyn, answers_reply
      { s with
        tcpRemotePort := tcpSrcPort packet (tcpOffset packet)
        tcpRemoteIp := ipSrc packet
        tcpAck := add32 (tcpSeqNum packet (tcpOffset packet)) 1
        tcpSeq := 2000
        tcpState := .synRcvd } 0x12 (add32_lt _ _)⟩
  by_cases hdata : s.CarriesData packet
  · have heq : s.beforeFin packet =
        s.receiveData packet (tcpOffset packet) (ipHeaderLen packet) :=
      (if_neg hsyn).trans ((if_neg hdata.2.1).trans (if_pos hdata.2.2.1))
    obtain ⟨prints, hreceive⟩ := s.receiveData_eq hdata.2.2.2
    rw [heq, hreceive]
    exact Or.inr (Or.inl ⟨hdata, answers_reply
      { s with
        console := s.console ++ prints
        tcpAck := add32 (segmentSeq packet) (payloadLen packet).toNat } 0x10 (add32_lt _ _)⟩)
  · refine Or.inr (Or.inr ⟨hsyn, hdata, ?_⟩)
    rw [beforeFin, handleTcpSegment]
    split
    case isTrue h => exact absurd h hsyn
    split
    case isTrue => rfl
    case isFalse hcomp =>
      split
      case isTrue hflags =>
        have hlen : ¬ 0 < tcpDataLen packet (tcpOffset packet) (ipHeaderLen packet) :=
          fun hlen => hdata ⟨hsyn, hcomp, hflags, hlen⟩
        rw [receiveData, if_neg hlen]
      case isFalse => rfl

/-- FIN is acknowledged as if the segment had no data. -/
theorem handleTcpFin_answers (s : Net) {packet : Nat → UInt8} (hfin : HasFin packet) :
    s.Answers (s.handleTcpFin packet (tcpOffset packet)) (add32 (segmentSeq packet) 1) := by
  rw [handleTcpFin]
  split
  case isTrue =>
    exact answers_reply { s with tcpAck := add32 (segmentSeq packet) 1 } 0x11 (add32_lt _ _)
  case isFalse h => exact absurd hfin h

theorem attached_reply {s : Net} (flags : Nat) (h : s.Attached) : (s.reply flags).Attached := by
  rw [reply, sendTcpPacket, rtl8139SendPacket]
  split
  · exact h
  · exact h

theorem attached_beforeFin {s : Net} (packet : Nat → UInt8) (h : s.Attached) :
    (s.beforeFin packet).Attached := by
  rw [beforeFin, handleTcpSegment]
  split
  · exact attached_reply (s := { s with
      tcpRemotePort := tcpSrcPort packet (tcpOffset packet)
      tcpRemoteIp := ipSrc packet
      tcpAck := add32 (tcpSeqNum packet (tcpOffset packet)) 1
      tcpSeq := 2000
      tcpState := .synRcvd }) 0x12 h
  split
  · exact h
  split
  · by_cases hlen : 0 < tcpDataLen packet (tcpOffset packet) (ipHeaderLen packet)
    · obtain ⟨prints, hreceive⟩ := s.receiveData_eq hlen
      rw [hreceive]
      exact attached_reply (s := { s with
        console := s.console ++ prints
        tcpAck := add32 (segmentSeq packet) (payloadLen packet).toNat }) 0x10 h
    · rw [receiveData, if_neg hlen]
      exact h
  · exact h

/-! ## One segment -/

section Segment

variable {s : Net} {packet : Nat → UInt8}

theorem receive_answers_fin (hport : ToLocalPort packet) (hfin : HasFin packet) :
    s.Answers (s.receive packet) (add32 (segmentSeq packet) 1) := by
  obtain ⟨_, _, hlog, _⟩ := s.beforeFin_effect packet
  rw [receive_of_toLocalPort hport]
  exact ((s.beforeFin packet).handleTcpFin_answers hfin).of_logs (attached_beforeFin packet) hlog

theorem receive_of_not_fin (hport : ToLocalPort packet) (hfin : ¬ HasFin packet) :
    s.receive packet = s.beforeFin packet := by
  rw [receive_of_toLocalPort hport]
  exact if_neg hfin

/-- Data without FIN is acknowledged up to its end. -/
theorem receive_answers_data (hport : ToLocalPort packet) (hfin : ¬ HasFin packet)
    (hdata : s.CarriesData packet) :
    s.Answers (s.receive packet) (add32 (segmentSeq packet) (payloadLen packet).toNat) := by
  rw [receive_of_not_fin hport hfin]
  rcases s.beforeFin_answers packet with ⟨hsyn, _⟩ | ⟨_, h⟩ | ⟨_, hnone, _⟩
  · exact absurd hsyn hdata.1
  · exact h
  · exact absurd hdata hnone

/-- In an established connection, data and FIN of a segment are acknowledged up to their end
if and only if they do not come together. -/
theorem answers_receive_iff (hstate : s.tcpState = .established) (hport : ToLocalPort packet)
    (hack : HasAck packet) (hsyn : ¬ HasSyn packet)
    (hused : 0 < payloadLen packet ∨ HasFin packet) :
    s.Answers (s.receive packet)
        ((segmentSeq packet + (payloadLen packet).toNat +
          if HasFin packet then 1 else 0) % 2 ^ 32) ↔
      ¬ (HasFin packet ∧ 0 < payloadLen packet) := by
  have hlen := payloadLen_toNat_lt packet
  by_cases hfin : HasFin packet
  · have hanswers : s.Answers (s.receive packet) _ := receive_answers_fin hport hfin
    have hexpected : (segmentSeq packet + (payloadLen packet).toNat + 1) % 2 ^ 32 =
        add32 (segmentSeq packet) ((payloadLen packet).toNat + 1) := by
      rw [add32, Nat.add_assoc]
    simp only [hfin, if_true, true_and]
    rw [hexpected]
    constructor
    · intro h hdata
      have hnum := (add32_inj (by omega) (by omega)).mp (h.1.symm.trans hanswers.1)
      omega
    · intro hnone
      have hzero : (payloadLen packet).toNat = 0 := by omega
      rw [hzero]
      exact hanswers
  · have hdata : s.CarriesData packet := by
      refine ⟨hsyn, fun h => ?_, Or.inr hack, hused.resolve_right hfin⟩
      exact absurd (hstate.symm.trans h.2) (by decide)
    simp only [hfin, if_false, false_and, not_false_eq_true, iff_true, Nat.add_zero]
    exact receive_answers_data hport hfin hdata

/-- The segments that are acknowledged up to their end: data reaches the branch that counts
it, and none of data, SYN and FIN comes with another one. -/
structure Counted (s : Net) (packet : Nat → UInt8) : Prop where
  flags : HasSyn packet → ¬ HasFin packet
  data : 0 < payloadLen packet → s.CarriesData packet ∧ ¬ HasFin packet

theorem counted_established_iff (hstate : s.tcpState = .established) (hack : HasAck packet)
    (hsyn : ¬ HasSyn packet) :
    s.Counted packet ↔ ¬ (HasFin packet ∧ 0 < payloadLen packet) := by
  constructor
  · rintro h ⟨hfin, hlen⟩
    exact (h.data hlen).2 hfin
  · intro h
    refine ⟨fun hsyn' => absurd hsyn' hsyn, fun hlen => ⟨⟨hsyn, fun hcomp => ?_, Or.inr hack, hlen⟩,
      fun hfin => h ⟨hfin, hlen⟩⟩⟩
    exact absurd (hstate.symm.trans hcomp.2) (by decide)

end Segment

end Net

/-! ## Runs -/

/-- The responder, and the sequence number that the peer uses next once it has opened a
connection. -/
structure PeerRun where
  net : Net
  next : Option Nat

namespace PeerRun

/-- `tcp_ack` is the number that the peer uses next. -/
def Names (s : PeerRun) : Prop := ∀ n, s.next = some n → s.net.tcpAck = n

/-- The next segment of the peer `e`: a SYN starts at any number, and every other segment
where the one before it ended. -/
structure InOrder (e : IpAddress × Nat) (s : PeerRun) (packet : Nat → UInt8) : Prop where
  port : ToLocalPort packet
  peer : source packet = e
  length : 0 ≤ payloadLen packet
  seq : HasSyn packet ∨ s.next = some (segmentSeq packet)

def step (s : PeerRun) (packet : Nat → UInt8) : PeerRun :=
  ⟨s.net.receive packet, some (add32 (segmentSeq packet) (seqLen packet))⟩

theorem names_step {s : PeerRun} {packet : Nat → UInt8} :
    (s.step packet).Names ↔
      (s.net.receive packet).tcpAck = add32 (segmentSeq packet) (seqLen packet) := by
  constructor
  · intro h
    exact h _ rfl
  · intro h n hn
    exact h.trans (Option.some.inj hn)

/-- Of the segments of the peer, exactly the counted ones keep `tcp_ack` at the number that
the peer uses next. -/
theorem names_step_iff {e : IpAddress × Nat} {s : PeerRun} {packet : Nat → UInt8}
    (h : s.Names) (horder : InOrder e s packet) :
    (s.step packet).Names ↔ s.net.Counted packet := by
  have hlt := seqLen_lt packet
  have hnone : (payloadLen packet).toNat = 0 ↔ ¬ 0 < payloadLen packet := by omega
  rw [names_step]
  by_cases hfin : HasFin packet
  · have hcounted : s.net.Counted packet ↔ ¬ HasSyn packet ∧ ¬ 0 < payloadLen packet :=
      ⟨fun hc => ⟨fun hsyn => hc.flags hsyn hfin, fun hlen => (hc.data hlen).2 hfin⟩,
        fun hc => ⟨fun hsyn => absurd hsyn hc.1, fun hlen => absurd hlen hc.2⟩⟩
    rw [(Net.receive_answers_fin horder.port hfin).1, add32_inj (by decide) hlt, hcounted, ← hnone]
    by_cases hsyn : HasSyn packet
    · simp [seqLen, hfin, hsyn]
    · simp [seqLen, hfin, hsyn]
  rw [Net.receive_of_not_fin horder.port hfin]
  rcases s.net.beforeFin_answers packet with
    ⟨hsyn, hanswers⟩ | ⟨hdata, hanswers⟩ | ⟨hsyn, hdata, hkept⟩
  · have hcounted : s.net.Counted packet ↔ ¬ 0 < payloadLen packet :=
      ⟨fun hc hlen => (hc.data hlen).1.1 hsyn,
        fun hc => ⟨fun _ => hfin, fun hlen => absurd hlen hc⟩⟩
    rw [hanswers.1, add32_inj (by decide) hlt, hcounted, ← hnone]
    simp [seqLen, hfin, hsyn]
  · have hcounted : s.net.Counted packet := ⟨fun _ => hfin, fun _ => ⟨hdata, hfin⟩⟩
    rw [hanswers.1]
    simp [seqLen, hfin, hdata.1, hcounted]
  · have hcounted : s.net.Counted packet ↔ ¬ 0 < payloadLen packet :=
      ⟨fun hc hlen => hdata (hc.data hlen).1, fun hc => ⟨fun _ => hfin, fun hlen => absurd hlen hc⟩⟩
    -- `tcp_ack` was at the number of the segment, and stays there
    have hseq : (s.net.beforeFin packet).tcpAck = add32 (segmentSeq packet) 0 := by
      rw [hkept, h _ (horder.seq.resolve_left hsyn), add32, Nat.add_zero,
        Nat.mod_eq_of_lt (segmentSeq_lt packet)]
    rw [hseq, add32_inj (by decide) hlt, hcounted, ← hnone]
    simp [seqLen, hfin, hsyn, eq_comm]

end PeerRun

/-- The segments of the peer `e` in order, as far as they are counted. The responder may be
in any state, as long as `tcp_ack` is right for a connection that is open already. -/
def peerRuns (e : IpAddress × Nat) : TransitionSystem PeerRun (Nat → UInt8) where
  init := PeerRun.Names
  allowed := fun s packet => PeerRun.InOrder e s packet ∧ s.net.Counted packet
  step := PeerRun.step

/-- In an established connection a segment with data or FIN is acknowledged up to its end,
modulo `2 ^ 32`, if and only if it does not have both. Along every run of counted segments of
one peer `tcp_ack` is the number that the peer uses next, and no other segment in order keeps
it there. -/
theorem tcp_ack_arithmetic (e : IpAddress × Nat) :
    (∀ (s : Net) (packet : Nat → UInt8), s.tcpState = .established → ToLocalPort packet →
      HasAck packet → ¬ HasSyn packet → 0 ≤ payloadLen packet →
      0 < payloadLen packet ∨ HasFin packet →
      (s.Answers (s.receive packet)
          ((segmentSeq packet + (payloadLen packet).toNat +
            if HasFin packet then 1 else 0) % 2 ^ 32) ↔
        ¬ (HasFin packet ∧ 0 < payloadLen packet)) ∧
      (s.Counted packet ↔ ¬ (HasFin packet ∧ 0 < payloadLen packet))) ∧
    (∀ s, (peerRuns e).Reachable s → s.Names) ∧
    ∀ s packet, PeerRun.Names s → PeerRun.InOrder e s packet →
      ((s.step packet).Names ↔ s.net.Counted packet) := by
  refine ⟨fun s packet hstate hport hack hsyn _ hused => ?_, fun s h => ?_,
    fun s packet h horder => ?_⟩
  · exact ⟨Net.answers_receive_iff hstate hport hack hsyn hused,
      Net.counted_established_iff hstate hack hsyn⟩
  · refine h.invariant (fun _ hinit => hinit) ?_
    rintro s packet _ hnames ⟨horder, hcounted⟩
    exact (PeerRun.names_step_iff hnames horder).mpr hcounted
  · exact PeerRun.names_step_iff h horder

/-! ### Data with FIN -/

/-- The next segment of the client after its handshake. -/
def sampleNext (flags : Nat) (payload : List UInt8) : Nat → UInt8 :=
  store (sampleSegment client 2001 flags payload) 4 38 (ntohl 2)

/-- The client sends `hi`, or closes. -/
theorem tcp_ack_arithmetic_sample :
    sampleEstablished.net.tcpState = .established ∧
      (sampleEstablished.net.receive (sampleNext 0x18 [104, 105])).tcpAck = 4 ∧
      (sampleEstablished.net.receive (sampleNext 0x11 [])).tcpAck = 3 := by
  have hstate : sampleEstablished.net.tcpState = .established := by decide +kernel
  have harith := (tcp_ack_arithmetic (client, 5555)).1 sampleEstablished.net
  have hdata := (harith (sampleNext 0x18 [104, 105]) hstate (by decide +kernel)
    (by decide +kernel) (by decide +kernel) (by decide +kernel) (by decide +kernel)).1.mpr
    (by decide +kernel)
  have hfin := (harith (sampleNext 0x11 []) hstate (by decide +kernel) (by decide +kernel)
    (by decide +kernel) (by decide +kernel) (by decide +kernel)).1.mpr (by decide +kernel)
  exact ⟨hstate, hdata.1.trans (by decide +kernel), hfin.1.trans (by decide +kernel)⟩

/-- The client sends `hi` with FIN, which takes up three numbers. The responder acknowledges
one, and `tcp_ack` is not the number that the client uses next. -/
theorem data_with_fin_unacknowledged :
    tcpRuns.Reachable sampleEstablished ∧ sampleEstablished.net.tcpState = .established ∧
      PeerRun.Names ⟨sampleEstablished.net, some 2⟩ ∧
      PeerRun.InOrder (client, 5555) ⟨sampleEstablished.net, some 2⟩
        (sampleNext 0x19 [104, 105]) ∧
      HasAck (sampleNext 0x19 [104, 105]) ∧ ¬ HasSyn (sampleNext 0x19 [104, 105]) ∧
      HasFin (sampleNext 0x19 [104, 105]) ∧ payloadLen (sampleNext 0x19 [104, 105]) = 2 ∧
      (sampleEstablished.net.receive (sampleNext 0x19 [104, 105])).tcpAck = 3 ∧
      ¬ sampleEstablished.net.Answers
        (sampleEstablished.net.receive (sampleNext 0x19 [104, 105]))
        ((segmentSeq (sampleNext 0x19 [104, 105]) + 2 + 1) % 2 ^ 32) ∧
      ¬ (PeerRun.step ⟨sampleEstablished.net, some 2⟩ (sampleNext 0x19 [104, 105])).Names := by
  have hack : (sampleEstablished.net.receive (sampleNext 0x19 [104, 105])).tcpAck = 3 := by
    decide +kernel
  have hseq : segmentSeq (sampleNext 0x19 [104, 105]) = 2 := by decide +kernel
  have hlen : payloadLen (sampleNext 0x19 [104, 105]) = 2 := by decide +kernel
  have hused : seqLen (sampleNext 0x19 [104, 105]) = 3 := by decide +kernel
  refine ⟨sampleEstablished_reachable, by decide +kernel, fun n hn => ?_,
    ⟨by decide +kernel, by decide +kernel, by rw [hlen]; decide, Or.inr (by rw [hseq])⟩,
    by decide +kernel, by decide +kernel, by decide +kernel, hlen, hack, fun h => ?_, fun h => ?_⟩
  · rw [← Option.some.inj hn]
    decide +kernel
  · rw [hseq] at h
    exact absurd (hack.symm.trans h.1) (by decide)
  · simp only [PeerRun.names_step, hack, hseq, hused] at h
    exact absurd h (by decide)

end Newrex
