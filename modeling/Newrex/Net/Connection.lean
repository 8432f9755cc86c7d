import Newrex.Lib.Transition
import Newrex.Net.Tcp

/-!
# The endpoint of a TCP connection

The responder stores the endpoint that sent the last SYN, but compares it with the
source of no later segment, and it never looks at acknowledgement numbers or, for data
and FIN, at the state of the connection. So a stranger can complete a handshake, have
data printed and acknowledged, and close the connection (`stranger_takes_over`).

`Conforming` is what the segments must keep to for the connection to belong to the
endpoint that opened it. `beforeFin_effect` and `handleTcpFin_effect` say what one
segment does, `servesRemoteOnly_iff` when it is served for that endpoint only, and
`run_tcp_integrity` is the result for all runs of conforming segments.
-/

namespace Newrex

open LittleEndian

/-! ## Segments -/

/-- `payload_offset` of `handle_ipv4_packet`: where the TCP header starts. -/
def tcpOffset (packet : Nat → UInt8) : Nat := ethHeaderSize + ipHeaderLen packet

/-- The endpoint that a segment comes from: its IP address and port. -/
def source (packet : Nat → UInt8) : IpAddress × Nat :=
  (ipSrc packet, tcpSrcPort packet (tcpOffset packet))

def ToLocalPort (packet : Nat → UInt8) : Prop :=
  tcpDestPort packet (tcpOffset packet) = tcpLocalPort

def HasFin (packet : Nat → UInt8) : Prop := tcpFlags packet (tcpOffset packet) &&& 0x01 ≠ 0
def HasSyn (packet : Nat → UInt8) : Prop := tcpFlags packet (tcpOffset packet) &&& 0x02 ≠ 0
def HasPsh (packet : Nat → UInt8) : Prop := tcpFlags packet (tcpOffset packet) &&& 0x08 ≠ 0
def HasAck (packet : Nat → UInt8) : Prop := tcpFlags packet (tcpOffset packet) &&& 0x10 ≠ 0

/-- A SYN of the endpoint `e`. -/
def SynFrom (e : IpAddress × Nat) (packet : Nat → UInt8) : Prop :=
  ToLocalPort packet ∧ source packet = e ∧ HasSyn packet

/-- An ACK of the endpoint `e` for the sequence number 2000 of the responder. -/
def AckFrom (e : IpAddress × Nat) (packet : Nat → UInt8) : Prop :=
  ToLocalPort packet ∧ source packet = e ∧ HasAck packet ∧
    tcpAckNum packet (tcpOffset packet) = 2000 + 1

/-- Among the segments received, latest first, are a SYN of `e` and after it an ACK. -/
def Handshake (history : List (Nat → UInt8)) (e : IpAddress × Nat) : Prop :=
  ∃ later ack between syn earlier, history = later ++ ack :: (between ++ syn :: earlier) ∧
    AckFrom e ack ∧ SynFrom e syn

namespace Net

/-- The endpoint of the connection. -/
def remote (s : Net) : IpAddress × Nat := (s.tcpRemoteIp, s.tcpRemotePort)

/-- What `handle_ipv4_packet` does with a TCP segment. -/
def receive (s : Net) (packet : Nat → UInt8) : Net :=
  s.handleTcpPacket packet (tcpOffset packet) (ipHeaderLen packet)

/-- The state of a segment's handling in which FIN is looked at. -/
def beforeFin (s : Net) (packet : Nat → UInt8) : Net :=
  s.handleTcpSegment packet (tcpOffset packet) (ipHeaderLen packet)

/-! ## What a segment causes -/

/-- The console output and the frames on the way from `s` to `s'`. -/
def printed (s s' : Net) : List Print := s'.console.drop s.console.length
def transmitted (s s' : Net) : List (List UInt8) := s'.sent.drop s.sent.length

/-- The flags of a frame that `send_tcp_packet` built. -/
def frameFlags (frame : List UInt8) : Nat := tcpFlags (fun i => frame.getD i 0) 34

def PrintsPayload (s : Net) (packet : Nat → UInt8) : Prop :=
  .literal "\n[TCP Data] Received: " colorWhite ∈ s.printed (s.receive packet)

def SendsDataAck (s : Net) (packet : Nat → UInt8) : Prop :=
  ∃ frame, frame ∈ s.transmitted (s.receive packet) ∧ frameFlags frame = 0x10

def Closes (s : Net) (packet : Nat → UInt8) : Prop :=
  .literal "\n[TCP Connection] Connection closed by remote host.\n" colorWhite ∈
      s.printed (s.receive packet) ∨
    s.tcpState ≠ .closed ∧ (s.receive packet).tcpState = .closed

/-- The segment is served only if it comes from the endpoint of the established
connection. -/
def ServesRemoteOnly (s : Net) (packet : Nat → UInt8) : Prop :=
  (s.PrintsPayload packet ∨ s.SendsDataAck packet →
    s.tcpState = .established ∧ source packet = s.remote) ∧
  (s.Closes packet →
    (s.beforeFin packet).tcpState = .established ∧ source packet = (s.beforeFin packet).remote)

/-- The segment gets to the branch on PSH and ACK and has a payload. -/
def CarriesData (s : Net) (packet : Nat → UInt8) : Prop :=
  ¬ HasSyn packet ∧ ¬ (HasAck packet ∧ s.tcpState = .synRcvd) ∧
    (HasPsh packet ∨ HasAck packet) ∧
    0 < tcpDataLen packet (tcpOffset packet) (ipHeaderLen packet)

/-- The segment, if it is for the port of the responder,
* is from the endpoint of the established connection when it carries data;
* is from that endpoint when it carries FIN, and then is no SYN, and the connection is
  established or becomes so by the segment. -/
structure InConnection (s : Net) (packet : Nat → UInt8) : Prop where
  data : ToLocalPort packet → s.CarriesData packet →
    s.tcpState = .established ∧ source packet = s.remote
  fin : ToLocalPort packet → HasFin packet → ¬ HasSyn packet ∧ source packet = s.remote ∧
    (s.tcpState = .established ∨ HasAck packet ∧ s.tcpState = .synRcvd)

/-- Also, when the segment completes the handshake, it is from the endpoint that opened
the connection and acknowledges 2001. -/
structure Conforming (s : Net) (packet : Nat → UInt8) : Prop extends InConnection s packet where
  completes : ToLocalPort packet → ¬ HasSyn packet → HasAck packet → s.tcpState = .synRcvd →
    source packet = s.remote ∧ tcpAckNum packet (tcpOffset packet) = 2000 + 1

/-! ## Frames sent -/

theorem frameFlags_tcpFrame (s : Net) (destIp : IpAddress) (srcPort destPort seq ack : Nat)
    {flags : Nat} (h : flags < 64) :
    frameFlags (s.tcpFrame destIp srcPort destPort seq ack flags) = flags := by
  have hswap : ∀ f, f < 64 → ntohs (ntohs ((5 <<< 12) ||| f) % 256 ^ 2) &&& 0x3F = f := by
    decide
  have hget : ∀ (m : Nat → UInt8) i, i < 54 → ((List.range 54).map m).getD i 0 = m i := by
    intro m i hi
    rw [List.getD_eq_getElem?_getD, List.getElem?_map, List.getElem?_range hi]
    rfl
  have hload : load (fun i => (s.tcpFrame destIp srcPort destPort seq ack flags).getD i 0) 2 46 =
      ntohs ((5 <<< 12) ||| flags) % 256 ^ 2 := by
    rw [load_congr fun i hi => hget _ _ (by omega)]
    rw [load_store_disjoint (by omega), load_store_disjoint (by omega),
      load_store_disjoint (by omega), load_store_disjoint (by omega), load_store_same]
  rw [frameFlags, tcpFlags, tcpFlagsField, hload]
  exact hswap flags h

/-- A reply appends at most one frame, with its flags, and changes nothing else of the
connection. -/
theorem reply_effect (s : Net) {flags : Nat} (h : flags < 64) :
    (∃ frames, (s.reply flags).sent = s.sent ++ frames ∧
      ∀ frame, frame ∈ frames → frameFlags frame = flags) ∧
    (s.reply flags).console = s.console ∧ (s.reply flags).tcpState = s.tcpState ∧
    (s.reply flags).remote = s.remote := by
  unfold reply sendTcpPacket rtl8139SendPacket
  split
  · exact ⟨⟨[], (List.append_nil _).symm, fun _ hf => absurd hf List.not_mem_nil⟩, rfl, rfl, rfl⟩
  · refine ⟨⟨_, rfl, fun frame hf => ?_⟩, rfl, rfl, rfl⟩
    rw [List.mem_singleton.mp hf]
    exact frameFlags_tcpFrame _ _ _ _ _ _ h

theorem printChars_eq (s : Net) (c : Nat → UInt8) (is : List Nat) :
    is.foldl (fun s i => s.printChar (c i)) s =
      { s with console := s.console ++ is.map fun i => .char (c i) } := by
  induction is generalizing s with
  | nil => simp
  | cons i is ih =>
    rw [List.foldl_cons, ih]
    simp [printChar]

/-- What `printData` prints: its two texts, and otherwise characters. -/
def PayloadTexts (prints : List Print) : Prop :=
  .literal "\n[TCP Data] Received: " colorWhite ∈ prints ∧
    ∀ text color, .literal text color ∈ prints → text = "\n[TCP Data] Received: " ∨ text = "\n"

/-- Printing the payload appends two fixed texts and characters to the console. -/
theorem printData_eq (s : Net) (packet : Nat → UInt8) (data dataLen : Nat) :
    ∃ prints, s.printData packet data dataLen = { s with console := s.console ++ prints } ∧
      PayloadTexts prints := by
  refine ⟨.literal "\n[TCP Data] Received: " colorWhite ::
    ((List.range (min dataLen 128)).map (fun i => .char (printable (packet (data + i)))) ++
      [.literal "\n" colorWhite]), ?_, List.mem_cons_self, ?_⟩
  · rw [printData, printChars_eq _ fun i => printable (packet (data + i))]
    simp [printString]
  · intro text color hmem
    simp only [List.mem_cons, List.mem_append, List.mem_map, Print.literal.injEq, reduceCtorEq,
      and_false, exists_false, false_or, List.not_mem_nil, or_false] at hmem
    rcases hmem with ⟨rfl, _⟩ | ⟨rfl, _⟩
    · exact Or.inl rfl
    · exact Or.inr rfl

/-- Data changes only the logs and the acknowledgement number. -/
theorem receiveData_effect (s : Net) {packet : Nat → UInt8} {off ipHeaderLen : Nat}
    (hlen : 0 < tcpDataLen packet off ipHeaderLen) :
    ∃ prints frames, (s.receiveData packet off ipHeaderLen).console = s.console ++ prints ∧
      (s.receiveData packet off ipHeaderLen).sent = s.sent ++ frames ∧
      (s.receiveData packet off ipHeaderLen).tcpState = s.tcpState ∧
      (s.receiveData packet off ipHeaderLen).remote = s.remote ∧ PayloadTexts prints := by
  obtain ⟨prints, heq, htexts⟩ := s.printData_eq packet (off + tcpHeaderLen packet off)
    (tcpDataLen packet off ipHeaderLen).toNat
  obtain ⟨⟨frames, hsent, _⟩, hconsole, hstate, hremote⟩ := reply_effect
    { s with
      console := s.console ++ prints
      tcpAck := add32 (tcpSeqNum packet off) (tcpDataLen packet off ipHeaderLen).toNat }
    (by decide : 0x10 < 64)
  have hreceive : s.receiveData packet off ipHeaderLen = Net.reply
      { s with
        console := s.console ++ prints
        tcpAck := add32 (tcpSeqNum packet off) (tcpDataLen packet off ipHeaderLen).toNat }
      0x10 := by
    rw [receiveData, if_pos hlen, heq]
  rw [hreceive]
  exact ⟨prints, frames, hconsole, hsent, hstate, hremote, htexts⟩

/-- The step from `s` to `s'` appended `prints` to the console and `frames` to the frames
sent. -/
def Logs (s s' : Net) (prints : List Print) (frames : List (List UInt8)) : Prop :=
  s'.console = s.console ++ prints ∧ s'.sent = s.sent ++ frames

theorem Logs.trans {s s1 s2 : Net} {ps1 ps2 : List Print} {fs1 fs2 : List (List UInt8)}
    (h1 : Logs s s1 ps1 fs1) (h2 : Logs s1 s2 ps2 fs2) : Logs s s2 (ps1 ++ ps2) (fs1 ++ fs2) := by
  refine ⟨?_, ?_⟩
  · rw [h2.1, h1.1, List.append_assoc]
  · rw [h2.2, h1.2, List.append_assoc]

theorem Logs.refl (s : Net) : Logs s s [] [] := ⟨(List.append_nil _).symm, (List.append_nil _).symm⟩

/-- What the branches on SYN, ACK and PSH do on the way from `s` to `s1`: what they print
and send, and what becomes of the connection. -/
inductive SegmentEffect (s : Net) (packet : Nat → UInt8) (s1 : Net) :
    List Print → List (List UInt8) → Prop
  | opened {frames : List (List UInt8)} : HasSyn packet → s1.tcpState = .synRcvd →
      s1.remote = source packet → (∀ frame, frame ∈ frames → frameFlags frame = 0x12) →
      SegmentEffect s packet s1 [] frames
  | completed : ¬ HasSyn packet → HasAck packet → s.tcpState = .synRcvd →
      s1.tcpState = .established → s1.remote = s.remote →
      SegmentEffect s packet s1
        [.literal "\n[TCP Connection] Established connection with remote host!\n" colorWhite] []
  | data {prints : List Print} {frames : List (List UInt8)} : s.CarriesData packet →
      s1.tcpState = s.tcpState → s1.remote = s.remote → PayloadTexts prints →
      SegmentEffect s packet s1 prints frames
  | ignored : ¬ HasSyn packet → ¬ (HasAck packet ∧ s.tcpState = .synRcvd) →
      ¬ s.CarriesData packet → s1.tcpState = s.tcpState → s1.remote = s.remote →
      SegmentEffect s packet s1 [] []

theorem beforeFin_effect (s : Net) (packet : Nat → UInt8) :
    ∃ prints frames, Logs s (s.beforeFin packet) prints frames ∧
      SegmentEffect s packet (s.beforeFin packet) prints frames := by
  by_cases hsyn : HasSyn packet
  · have heq : s.beforeFin packet = s.openConnection packet (tcpOffset packet) := if_pos hsyn
    obtain ⟨⟨frames, hsent, hflags⟩, hconsole, hstate, hremote⟩ := reply_effect
      { s with
        tcpRemotePort := tcpSrcPort packet (tcpOffset packet)
        tcpRemoteIp := ipSrc packet
        tcpAck := add32 (tcpSeqNum packet (tcpOffset packet)) 1
        tcpSeq := 2000
        tcpState := .synRcvd } (by decide : 0x12 < 64)
    rw [heq]
    exact ⟨[], frames, ⟨hconsole.trans (List.append_nil _).symm, hsent⟩,
      .opened hsyn hstate hremote hflags⟩
  by_cases hcomp : HasAck packet ∧ s.tcpState = .synRcvd
  · have heq : s.beforeFin packet = { s with tcpState := .established }.printString
        "\n[TCP Connection] Established connection with remote host!\n" :=
      (if_neg hsyn).trans (if_pos hcomp)
    rw [heq]
    exact ⟨_, [], ⟨rfl, (List.append_nil _).symm⟩, .completed hsyn hcomp.1 hcomp.2 rfl rfl⟩
  by_cases hdata : HasPsh packet ∨ HasAck packet
  · have heq : s.beforeFin packet =
        s.receiveData packet (tcpOffset packet) (ipHeaderLen packet) :=
      (if_neg hsyn).trans ((if_neg hcomp).trans (if_pos hdata))
    rw [heq]
    by_cases hlen : 0 < tcpDataLen packet (tcpOffset packet) (ipHeaderLen packet)
    · obtain ⟨prints, frames, hconsole, hsent, hstate, hremote, htexts⟩ :=
        s.receiveData_effect hlen
      exact ⟨prints, frames, ⟨hconsole, hsent⟩,
        .data ⟨hsyn, hcomp, hdata, hlen⟩ hstate hremote htexts⟩
    · have hnone : s.receiveData packet (tcpOffset packet) (ipHeaderLen packet) = s :=
        if_neg hlen
      rw [hnone]
      exact ⟨[], [], Logs.refl s, .ignored hsyn hcomp (fun h => hlen h.2.2.2) rfl rfl⟩
  · have heq : s.beforeFin packet = s :=
      (if_neg hsyn).trans ((if_neg hcomp).trans (if_neg hdata))
    rw [heq]
    exact ⟨[], [], Logs.refl s, .ignored hsyn hcomp (fun h => hdata h.2.2.1) rfl rfl⟩

/-- What the branch on FIN does on the way from `s` to `s1`. -/
inductive FinEffect (s : Net) (packet : Nat → UInt8) (s1 : Net) :
    List Print → List (List UInt8) → Prop
  | closed {frames : List (List UInt8)} : HasFin packet → s1.tcpState = .closed →
      (∀ frame, frame ∈ frames → frameFlags frame = 0x11) →
      FinEffect s packet s1
        [.literal "\n[TCP Connection] Connection closed by remote host.\n" colorWhite] frames
  | kept : ¬ HasFin packet → s1 = s → FinEffect s packet s1 [] []

theorem handleTcpFin_effect (s : Net) (packet : Nat → UInt8) :
    ∃ prints frames, Logs s (s.handleTcpFin packet (tcpOffset packet)) prints frames ∧
      FinEffect s packet (s.handleTcpFin packet (tcpOffset packet)) prints frames := by
  by_cases hfin : HasFin packet
  · obtain ⟨⟨frames, hsent, hflags⟩, hconsole, _, _⟩ := reply_effect
      { s with tcpAck := add32 (tcpSeqNum packet (tcpOffset packet)) 1 } (by decide : 0x11 < 64)
    have heq : s.handleTcpFin packet (tcpOffset packet) =
        { ({ s with tcpAck := add32 (tcpSeqNum packet (tcpOffset packet)) 1 } : Net).reply 0x11 with
          tcpState := .closed }.printString
            "\n[TCP Connection] Connection closed by remote host.\n" := if_pos hfin
    rw [heq]
    refine ⟨_, frames, ⟨?_, hsent⟩, .closed hfin rfl hflags⟩
    simp only [printString, hconsole]
  · have heq : s.handleTcpFin packet (tcpOffset packet) = s := if_neg hfin
    rw [heq]
    exact ⟨[], [], Logs.refl s, .kept hfin rfl⟩

theorem receive_of_toLocalPort {s : Net} {packet : Nat → UInt8} (h : ToLocalPort packet) :
    s.receive packet = (s.beforeFin packet).handleTcpFin packet (tcpOffset packet) :=
  if_neg fun hne => hne h

theorem receive_of_not_toLocalPort {s : Net} {packet : Nat → UInt8} (h : ¬ ToLocalPort packet) :
    s.receive packet = s := if_pos h

/-! ## When a segment is served -/

/-- Payload is printed or acknowledged by the branch on PSH and ACK only, and there always. -/
theorem SegmentEffect.serves_iff {s s1 : Net} {packet : Nat → UInt8} {prints : List Print}
    {frames : List (List UInt8)} (h : SegmentEffect s packet s1 prints frames) :
    (.literal "\n[TCP Data] Received: " colorWhite ∈ prints ∨
      ∃ frame, frame ∈ frames ∧ frameFlags frame = 0x10) ↔ s.CarriesData packet := by
  cases h with
  | opened hsyn _ _ hflags =>
    refine ⟨fun hout => ?_, fun hdata => absurd hsyn hdata.1⟩
    rcases hout with hmem | ⟨frame, hmem, hack⟩
    · exact absurd hmem List.not_mem_nil
    · rw [hflags frame hmem] at hack
      exact absurd hack (by decide)
  | completed _ hack hstate =>
    refine ⟨fun hout => ?_, fun hdata => absurd ⟨hack, hstate⟩ hdata.2.1⟩
    simp at hout
  | data hdata _ _ htexts => exact ⟨fun _ => hdata, fun _ => Or.inl htexts.1⟩
  | ignored _ _ hdata =>
    refine ⟨fun hout => ?_, fun h => absurd h hdata⟩
    simp at hout

/-- No branch but the one on FIN closes. -/
theorem SegmentEffect.not_closed {s s1 : Net} {packet : Nat → UInt8} {prints : List Print}
    {frames : List (List UInt8)} (h : SegmentEffect s packet s1 prints frames) :
    .literal "\n[TCP Connection] Connection closed by remote host.\n" colorWhite ∉ prints ∧
      (s.tcpState ≠ .closed → s1.tcpState ≠ .closed) := by
  cases h with
  | opened _ hstate => simp [hstate]
  | completed _ _ _ hstate => simp [hstate]
  | data _ hstate _ htexts =>
    refine ⟨fun hmem => ?_, fun hne => by rw [hstate]; exact hne⟩
    have htext := htexts.2 _ _ hmem
    simp at htext
  | ignored _ _ _ hstate => simp [hstate]

/-- The connection in which FIN is looked at is the established one of `e`. -/
theorem SegmentEffect.established_iff {s s1 : Net} {packet : Nat → UInt8} {prints : List Print}
    {frames : List (List UInt8)} (h : SegmentEffect s packet s1 prints frames)
    (e : IpAddress × Nat) :
    s1.tcpState = .established ∧ e = s1.remote ↔ ¬ HasSyn packet ∧ e = s.remote ∧
      (s.tcpState = .established ∨ HasAck packet ∧ s.tcpState = .synRcvd) := by
  cases h with
  | opened hsyn hstate => simp [hsyn, hstate]
  | completed hsyn hack hstate hestablished hremote =>
    simp [hsyn, hack, hstate, hestablished, hremote]
  | data hdata hstate hremote =>
    simp [hdata.1, hdata.2.1, hstate, hremote, and_comm]
  | ignored hsyn hcomp _ hstate hremote =>
    simp [hsyn, hcomp, hstate, hremote, and_comm]

/-- The branch on FIN neither prints payload nor acknowledges it. -/
theorem FinEffect.no_data {s s1 : Net} {packet : Nat → UInt8} {prints : List Print}
    {frames : List (List UInt8)} (h : FinEffect s packet s1 prints frames) :
    .literal "\n[TCP Data] Received: " colorWhite ∉ prints ∧
      ∀ frame, frame ∈ frames → frameFlags frame ≠ 0x10 := by
  cases h with
  | closed _ _ hflags =>
    refine ⟨by simp, fun frame hmem => ?_⟩
    rw [hflags frame hmem]
    decide
  | kept => simp

/-- What a segment for the port of the responder prints and sends, branch after branch. -/
theorem receive_effect {s : Net} {packet : Nat → UInt8} (hport : ToLocalPort packet) :
    ∃ ps1 fs1 ps2 fs2, s.printed (s.receive packet) = ps1 ++ ps2 ∧
      s.transmitted (s.receive packet) = fs1 ++ fs2 ∧
      SegmentEffect s packet (s.beforeFin packet) ps1 fs1 ∧
      FinEffect (s.beforeFin packet) packet (s.receive packet) ps2 fs2 := by
  obtain ⟨ps1, fs1, hlog1, heff1⟩ := s.beforeFin_effect packet
  obtain ⟨ps2, fs2, hlog2, heff2⟩ := (s.beforeFin packet).handleTcpFin_effect packet
  have hlog := hlog1.trans hlog2
  rw [← receive_of_toLocalPort hport] at hlog heff2
  refine ⟨ps1, fs1, ps2, fs2, ?_, ?_, heff1, heff2⟩
  · rw [printed, hlog.1, List.drop_left]
  · rw [transmitted, hlog.2, List.drop_left]

theorem printsOrAcks_iff {s : Net} {packet : Nat → UInt8} (hport : ToLocalPort packet) :
    s.PrintsPayload packet ∨ s.SendsDataAck packet ↔ s.CarriesData packet := by
  obtain ⟨ps1, fs1, ps2, fs2, hprints, hframes, heff1, heff2⟩ := receive_effect (s := s) hport
  obtain ⟨hnoprint, hnoack⟩ := heff2.no_data
  rw [PrintsPayload, SendsDataAck, hprints, hframes, ← heff1.serves_iff]
  constructor
  · rintro (hmem | ⟨frame, hmem, hflags⟩)
    · exact Or.inl ((List.mem_append.mp hmem).resolve_right hnoprint)
    · have hmem1 := (List.mem_append.mp hmem).resolve_right fun h2 => hnoack frame h2 hflags
      exact Or.inr ⟨frame, hmem1, hflags⟩
  · rintro (hmem | ⟨frame, hmem, hflags⟩)
    · exact Or.inl (List.mem_append_left _ hmem)
    · exact Or.inr ⟨frame, List.mem_append_left _ hmem, hflags⟩

theorem closes_iff {s : Net} {packet : Nat → UInt8} (hport : ToLocalPort packet) :
    s.Closes packet ↔ HasFin packet := by
  obtain ⟨ps1, fs1, ps2, fs2, hprints, _, heff1, heff2⟩ := receive_effect (s := s) hport
  rw [Closes, hprints]
  cases heff2 with
  | closed hfin => simp [hfin]
  | kept hfin heq =>
    obtain ⟨hnoprint, hopen⟩ := heff1.not_closed
    simpa [heq, hfin, hnoprint] using hopen

/-- A segment is served for the endpoint of the connection only, if and only if it is part
of that connection. -/
theorem servesRemoteOnly_iff (s : Net) (packet : Nat → UInt8) :
    s.ServesRemoteOnly packet ↔ s.InConnection packet := by
  by_cases hport : ToLocalPort packet
  · obtain ⟨_, _, _, _, _, _, heff, _⟩ := receive_effect (s := s) hport
    rw [ServesRemoteOnly, printsOrAcks_iff hport, closes_iff hport, heff.established_iff]
    exact ⟨fun h => ⟨fun _ => h.1, fun _ => h.2⟩, fun h => ⟨h.data hport, h.fin hport⟩⟩
  · have heq : s.receive packet = s := receive_of_not_toLocalPort hport
    have hprints : s.printed (s.receive packet) = [] := by
      rw [printed, heq, List.drop_length]
    have hframes : s.transmitted (s.receive packet) = [] := by
      rw [transmitted, heq, List.drop_length]
    have hserves : s.ServesRemoteOnly packet := by
      rw [ServesRemoteOnly, PrintsPayload, SendsDataAck, Closes, hprints, hframes, heq]
      simp
    exact ⟨fun _ => ⟨fun h => absurd h hport, fun h => absurd h hport⟩, fun _ => hserves⟩

end Net

/-! ## Runs -/

/-- The responder with the segments received so far, latest first. -/
structure TcpRun where
  net : Net
  history : List (Nat → UInt8)

namespace TcpRun

/-- The values that the variables of the responder start with. -/
def Initial (s : TcpRun) : Prop :=
  s.net.tcpState = .listen ∧ s.net.remote = (#v[0, 0, 0, 0], 0) ∧ s.net.tcpSeq = 1000 ∧
    s.net.tcpAck = 0 ∧ s.history = []

def step (s : TcpRun) (packet : Nat → UInt8) : TcpRun :=
  ⟨s.net.receive packet, packet :: s.history⟩

/-- The endpoint of the connection sent a SYN, and once the connection is established
also the ACK after it. -/
structure Inv (s : TcpRun) : Prop where
  opened : s.net.tcpState = .synRcvd → ∃ between syn earlier,
    s.history = between ++ syn :: earlier ∧ SynFrom s.net.remote syn
  established : s.net.tcpState = .established → Handshake s.history s.net.remote

end TcpRun

/-- All segments of all endpoints, in any order. -/
def tcpSegments : TransitionSystem TcpRun (Nat → UInt8) where
  init := TcpRun.Initial
  allowed := fun _ _ => True
  step := TcpRun.step

/-- The segments that conform to the connection they find. -/
def tcpRuns : TransitionSystem TcpRun (Nat → UInt8) where
  init := TcpRun.Initial
  allowed := fun s packet => s.net.Conforming packet
  step := TcpRun.step

theorem Handshake.cons {history : List (Nat → UInt8)} {e : IpAddress × Nat}
    (h : Handshake history e) (packet : Nat → UInt8) : Handshake (packet :: history) e := by
  obtain ⟨later, ack, between, syn, earlier, rfl, hack, hsyn⟩ := h
  exact ⟨packet :: later, ack, between, syn, earlier, rfl, hack, hsyn⟩

namespace TcpRun

theorem inv_of_initial {s : TcpRun} (h : s.Initial) : s.Inv := by
  have hlisten : s.net.tcpState = .listen := h.1
  constructor
  · intro hstate
    exact absurd (hlisten.symm.trans hstate) (by decide)
  · intro hstate
    exact absurd (hlisten.symm.trans hstate) (by decide)

/-- A connection that the segment leaves as it is keeps what is known of it. -/
theorem Inv.keep {s s' : TcpRun} (h : s.Inv) {packet : Nat → UInt8}
    (hhistory : s'.history = packet :: s.history) (hstate : s'.net.tcpState = s.net.tcpState)
    (hremote : s'.net.remote = s.net.remote) : s'.Inv := by
  constructor
  · intro hopened
    obtain ⟨between, syn, earlier, heq, hsyn⟩ := h.opened (hstate.symm.trans hopened)
    rw [hremote]
    exact ⟨packet :: between, syn, earlier, by rw [hhistory, heq]; rfl, hsyn⟩
  · intro hestablished
    rw [hhistory, hremote]
    exact (h.established (hstate.symm.trans hestablished)).cons packet

/-- The branches on SYN, ACK and PSH keep the invariant. -/
theorem Inv.beforeFin {s : TcpRun} (h : s.Inv) {packet : Nat → UInt8}
    (hport : ToLocalPort packet) (hconf : s.net.Conforming packet) :
    Inv ⟨s.net.beforeFin packet, packet :: s.history⟩ := by
  obtain ⟨prints, frames, _, heff⟩ := s.net.beforeFin_effect packet
  cases heff with
  | opened hsyn hstate hremote =>
    refine ⟨fun _ => ⟨[], packet, s.history, rfl, hport, hremote.symm, hsyn⟩, fun h' => ?_⟩
    exact absurd (hstate.symm.trans h') (by decide)
  | completed hsyn hack hstate hestablished hremote =>
    refine ⟨fun h' => absurd (hestablished.symm.trans h') (by decide), fun _ => ?_⟩
    obtain ⟨between, syn, earlier, heq, hopened⟩ := h.opened hstate
    obtain ⟨hsource, hnum⟩ := hconf.completes hport hsyn hack hstate
    show Handshake _ (s.net.beforeFin packet).remote
    rw [hremote]
    exact ⟨[], packet, between, syn, earlier, by rw [heq]; rfl, ⟨hport, hsource, hack, hnum⟩,
      hopened⟩
  | data _ hstate hremote => exact h.keep rfl hstate hremote
  | ignored _ _ _ hstate hremote => exact h.keep rfl hstate hremote

theorem Inv.step {s : TcpRun} (h : s.Inv) {packet : Nat → UInt8}
    (hconf : s.net.Conforming packet) : (s.step packet).Inv := by
  by_cases hport : ToLocalPort packet
  · obtain ⟨_, _, _, hfin⟩ := (s.net.beforeFin packet).handleTcpFin_effect packet
    rw [← Net.receive_of_toLocalPort hport] at hfin
    cases hfin with
    | closed _ hclosed =>
      constructor
      · intro h'
        exact absurd (hclosed.symm.trans h') (by decide)
      · intro h'
        exact absurd (hclosed.symm.trans h') (by decide)
    | kept _ heq =>
      rw [TcpRun.step, heq]
      exact h.beforeFin hport hconf
  · refine h.keep rfl ?_ ?_
    · rw [TcpRun.step, Net.receive_of_not_toLocalPort hport]
    · rw [TcpRun.step, Net.receive_of_not_toLocalPort hport]

end TcpRun

/-- In every run of conforming segments the endpoint of an established connection made
the handshake, and the next segment, if it conforms, is served for that endpoint only. The
last part says that a segment must be part of the connection for this. -/
theorem run_tcp_integrity {s : TcpRun} (h : tcpRuns.Reachable s) :
    (s.net.tcpState = .established → Handshake s.history s.net.remote) ∧
      (∀ packet, s.net.Conforming packet → s.net.ServesRemoteOnly packet) ∧
      ∀ packet, s.net.ServesRemoteOnly packet → s.net.InConnection packet := by
  have hinv : s.Inv := h.invariant (fun _ => TcpRun.inv_of_initial) fun _ _ _ hinv hconf =>
    hinv.step hconf
  refine ⟨hinv.established, fun packet hconf => ?_, fun packet hserves => ?_⟩
  · exact (s.net.servesRemoteOnly_iff packet).mpr hconf.toInConnection
  · exact (s.net.servesRemoteOnly_iff packet).mp hserves

/-! ### Segments of two endpoints -/

/-- A frame with a segment from port 5555 of `ip`. -/
def sampleSegment (ip : IpAddress) (ack flags : Nat) (payload : List UInt8) : Nat → UInt8 :=
  let packet := store (fun _ => 0) 2 12 (ntohs 0x0800)
  let packet := storeBytes packet 14 [0x45, 0]
  let packet := store packet 2 16 (ntohs (ipv4HeaderSize + tcpHeaderSize + payload.length))
  let packet := storeBytes packet 22 [64, 6]
  let packet := storeBytes packet 26 ip.toList
  let packet := storeBytes packet 30 myIp.toList
  let packet := store packet 2 34 (ntohs 5555)
  let packet := store packet 2 36 (ntohs tcpLocalPort)
  let packet := store packet 4 38 (ntohl 1)
  let packet := store packet 4 42 (ntohl ack)
  let packet := store packet 2 46 (ntohs ((5 <<< 12) ||| flags))
  storeBytes packet 54 payload

def client : IpAddress := #v[10, 0, 2, 2]
def stranger : IpAddress := #v[10, 0, 2, 3]

/-- The responder with its device up, before the first segment. -/
def sampleListen : TcpRun where
  net :=
    { rtl8139Present := true
      rtl8139IoBase := 0xC000
      txIndex := 0
      myMac := #v[0x52, 0x54, 0, 0x12, 0x34, 0x56]
      arpCache := fun _ => ⟨#v[0, 0, 0, 0], #v[0, 0, 0, 0, 0, 0], false⟩
      tcpState := .listen
      tcpRemotePort := 0
      tcpRemoteIp := #v[0, 0, 0, 0]
      tcpSeq := 1000
      tcpAck := 0
      sent := []
      console := [] }
  history := []

theorem sampleListen_initial : sampleListen.Initial := ⟨rfl, rfl, rfl, rfl, rfl⟩

section Decidable

variable (s : Net) (packet : Nat → UInt8) (e : IpAddress × Nat)

instance : Decidable (ToLocalPort packet) := inferInstanceAs (Decidable (_ = _))
instance : Decidable (HasFin packet) := inferInstanceAs (Decidable (_ ≠ _))
instance : Decidable (HasSyn packet) := inferInstanceAs (Decidable (_ ≠ _))
instance : Decidable (HasPsh packet) := inferInstanceAs (Decidable (_ ≠ _))
instance : Decidable (HasAck packet) := inferInstanceAs (Decidable (_ ≠ _))
instance : Decidable (AckFrom e packet) := inferInstanceAs (Decidable (_ ∧ _ ∧ _ ∧ _))
instance : Decidable (s.CarriesData packet) := inferInstanceAs (Decidable (_ ∧ _ ∧ _ ∧ _))
instance : Decidable (s.PrintsPayload packet) := inferInstanceAs (Decidable (_ ∈ _))
instance : Decidable (s.Closes packet) := inferInstanceAs (Decidable (_ ∨ _ ∧ _))
instance : Decidable (s.SendsDataAck packet) :=
  decidable_of_iff ((s.transmitted (s.receive packet)).any (Net.frameFlags · = 0x10) = true)
    (by simp [Net.SendsDataAck])

end Decidable

/-- A SYN conforms in every state, if it is no FIN too. -/
theorem Net.conforming_of_syn {packet : Nat → UInt8} (s : Net) (hsyn : HasSyn packet)
    (hfin : ¬ HasFin packet) : s.Conforming packet where
  data := fun _ h => absurd hsyn h.1
  fin := fun _ h => absurd h hfin
  completes := fun _ h => absurd hsyn h

/-- After the handshake of the client. -/
def sampleEstablished : TcpRun :=
  (sampleListen.step (sampleSegment client 0 0x02 [])).step (sampleSegment client 2001 0x10 [])

theorem sampleEstablished_reachable : tcpRuns.Reachable sampleEstablished := by
  have hopened := (TransitionSystem.Reachable.init (M := tcpRuns) sampleListen_initial).step
    (a := sampleSegment client 0 0x02 [])
    (Net.conforming_of_syn _ (by decide +kernel) (by decide +kernel))
  refine hopened.step (a := sampleSegment client 2001 0x10 []) ⟨⟨fun _ => ?_, fun _ => ?_⟩, ?_⟩
  · decide +kernel
  · decide +kernel
  · exact fun _ _ _ _ => by decide +kernel

/-- The client makes the handshake and sends `hi`, which is printed. -/
theorem run_tcp_integrity_sample :
    sampleEstablished.net.tcpState = .established ∧
      Handshake sampleEstablished.history (client, 5555) ∧
      sampleEstablished.net.PrintsPayload (sampleSegment client 2001 0x18 [104, 105]) ∧
      sampleEstablished.net.ServesRemoteOnly (sampleSegment client 2001 0x18 [104, 105]) := by
  have hstate : sampleEstablished.net.tcpState = .established := by decide +kernel
  have hremote : sampleEstablished.net.remote = (client, 5555) := by decide +kernel
  have hsource : source (sampleSegment client 2001 0x18 [104, 105]) = (client, 5555) := by
    decide +kernel
  have hconf : sampleEstablished.net.Conforming (sampleSegment client 2001 0x18 [104, 105]) := by
    refine ⟨⟨fun _ _ => ⟨hstate, hsource.trans hremote.symm⟩, fun _ hfin => ?_⟩, fun _ _ _ h => ?_⟩
    · exact absurd hfin (by decide +kernel)
    · exact absurd (hstate.symm.trans h) (by decide)
  obtain ⟨hhandshake, hserves, _⟩ := run_tcp_integrity sampleEstablished_reachable
  exact ⟨hstate, hhandshake hstate, by decide +kernel, hserves _ hconf⟩

/-- After an ACK of the stranger, for no sequence number of the responder. -/
def sampleTakenOver : TcpRun :=
  (sampleListen.step (sampleSegment client 0 0x02 [])).step (sampleSegment stranger 0 0x10 [])

/-- The client opens the connection and the stranger establishes it. Data of the stranger
is printed and acknowledged, and its FIN closes the connection. -/
theorem stranger_takes_over :
    tcpSegments.Reachable sampleTakenOver ∧ sampleTakenOver.net.tcpState = .established ∧
      ¬ Handshake sampleTakenOver.history sampleTakenOver.net.remote ∧
      (sampleTakenOver.net.PrintsPayload (sampleSegment stranger 0 0x18 [104, 105]) ∧
        sampleTakenOver.net.SendsDataAck (sampleSegment stranger 0 0x18 [104, 105]) ∧
        ¬ sampleTakenOver.net.ServesRemoteOnly (sampleSegment stranger 0 0x18 [104, 105])) ∧
      sampleTakenOver.net.Closes (sampleSegment stranger 0 0x01 []) ∧
      ¬ sampleTakenOver.net.ServesRemoteOnly (sampleSegment stranger 0 0x01 []) := by
  have hreachable : tcpSegments.Reachable sampleTakenOver :=
    ((TransitionSystem.Reachable.init (M := tcpSegments) sampleListen_initial).step
      (a := sampleSegment client 0 0x02 []) trivial).step
      (a := sampleSegment stranger 0 0x10 []) trivial
  have hprints : sampleTakenOver.net.PrintsPayload (sampleSegment stranger 0 0x18 [104, 105]) := by
    decide +kernel
  have hcloses : sampleTakenOver.net.Closes (sampleSegment stranger 0 0x01 []) := by
    decide +kernel
  refine ⟨hreachable, by decide +kernel, ?_, ⟨hprints, by decide +kernel, fun h => ?_⟩, hcloses,
    fun h => ?_⟩
  · rintro ⟨later, ack, between, syn, earlier, heq, hack, _⟩
    have hmem : ack ∈ sampleTakenOver.history := by
      rw [heq]
      simp
    rcases List.mem_pair.mp hmem with rfl | rfl
    · exact absurd hack (by decide +kernel)
    · exact absurd hack (by decide +kernel)
  · exact absurd (h.1 (Or.inl hprints)).2 (by decide +kernel)
  · exact absurd (h.2 hcloses).2 (by decide +kernel)

end Newrex
