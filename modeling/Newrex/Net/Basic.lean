import Mathlib.Data.List.FinRange
import Newrex.Console
import Newrex.Heap.Basic

/-!
# The network stack: frames

The parts of `drivers/rtl8139.c` that all protocols share: byte order, the offsets of
the packed headers, the checksum, the ARP cache and the transmission of a frame. A
received frame is the buffer `packet`, a function from positions to bytes; the code may
read it beyond the length of the frame.
-/

namespace Newrex

open LittleEndian

/-- `ntohs` of an `unsigned short`. -/
def ntohs (n : Nat) : Nat := ((n &&& 0xFF) <<< 8) ||| ((n &&& 0xFF00) >>> 8)

/-- `ntohl` of an `unsigned int`. -/
def ntohl (n : Nat) : Nat :=
  ((n &&& 0xFF) <<< 24) ||| ((n &&& 0xFF00) <<< 8) ||| ((n &&& 0xFF0000) >>> 8) |||
    ((n &&& 0xFF000000) >>> 24)

/-- The lengths of `eth_header_t`, `ipv4_header_t` and `tcp_header_t`. -/
def ethHeaderSize : Nat := 14
def ipv4HeaderSize : Nat := 20
def tcpHeaderSize : Nat := 20

abbrev IpAddress := Vector UInt8 4
abbrev MacAddress := Vector UInt8 6

/-- The address in the `n` bytes at `off`. -/
def addressAt (packet : Nat → UInt8) (n off : Nat) : Vector UInt8 n :=
  Vector.ofFn fun i => packet (off + i)

theorem addressAt_congr {b c : Nat → UInt8} {n off : Nat}
    (h : ∀ i, i < n → b (off + i) = c (off + i)) : addressAt b n off = addressAt c n off := by
  rw [addressAt, addressAt]
  congr 1
  funext i
  exact h i i.isLt

/-! ## Fields of the IPv4 header -/

def ipVerIhl (packet : Nat → UInt8) : Nat := (packet ethHeaderSize).toNat
def ipLen (packet : Nat → UInt8) : Nat := ntohs (load packet 2 (ethHeaderSize + 2))
def ipSrc (packet : Nat → UInt8) : IpAddress := addressAt packet 4 (ethHeaderSize + 12)

/-- `ip_header_len` of `handle_ipv4_packet`. -/
def ipHeaderLen (packet : Nat → UInt8) : Nat := (ipVerIhl packet &&& 0x0F) * 4

/-! ## The checksum -/

/-- The sum of the `n` words of two bytes from `off` on. -/
def sumWords (data : Nat → UInt8) (off n : Nat) : Nat :=
  (List.range n).foldl (fun sum i => add32 sum (load data 2 (off + 2 * i))) 0

/-- The loop that adds the carries, at most `fuel` times; a 32-bit sum needs two rounds. -/
def foldCarries : (fuel : Nat) → (sum : Nat) → Nat
  | 0, sum => sum
  | fuel + 1, sum =>
    if sum >>> 16 ≠ 0 then foldCarries fuel (add32 (sum &&& 0xFFFF) (sum >>> 16)) else sum

/-- `ip_checksum` of the `length` bytes from `off` on. -/
def ipChecksum (data : Nat → UInt8) (off length : Nat) : Nat :=
  let sum := sumWords data off (length / 2)
  let sum := if length &&& 1 ≠ 0 then add32 sum (data (off + length - 1)).toNat else sum
  0xFFFF - foldCarries 32 sum % 2 ^ 16

/-! ## State -/

/-- `arp_entry_t`. -/
structure ArpEntry where
  ip : IpAddress
  mac : MacAddress
  active : Bool

/-- `tcp_state`. -/
inductive TcpState
  | closed
  | listen
  | synRcvd
  | established
  | finWait
deriving DecidableEq, Repr

def myIp : IpAddress := #v[10, 0, 2, 15]

def tcpLocalPort : Nat := 80

/-- The variables of the driver and of the TCP responder, the frames handed to the device
and the console. -/
structure Net where
  rtl8139Present : Bool
  rtl8139IoBase : Nat
  txIndex : Nat
  myMac : MacAddress
  arpCache : Fin 16 → ArpEntry
  tcpState : TcpState
  tcpRemotePort : Nat
  tcpRemoteIp : IpAddress
  tcpSeq : Nat
  tcpAck : Nat
  sent : List (List UInt8)
  console : List Print

namespace Net

def printString (s : Net) (text : String) : Net :=
  { s with console := s.console ++ [.literal text colorWhite] }

def printChar (s : Net) (c : UInt8) : Net := { s with console := s.console ++ [.char c] }

/-- `rtl8139_send_packet`, once the device has freed the transmit descriptor. -/
def rtl8139SendPacket (s : Net) (data : List UInt8) : Net :=
  if s.rtl8139Present = false ∨ s.rtl8139IoBase = 0 then s
  else { s with sent := s.sent ++ [data], txIndex := (s.txIndex + 1) % 4 }

/-- The device was found, so that frames are sent. -/
def Attached (s : Net) : Prop := s.rtl8139Present = true ∧ s.rtl8139IoBase ≠ 0

/-- `arp_resolve`. -/
def arpResolve (s : Net) (ip : IpAddress) : Option MacAddress :=
  ((List.finRange 16).find? fun i => (s.arpCache i).active && decide ((s.arpCache i).ip = ip)).map
    fun i => (s.arpCache i).mac

end Net

end Newrex
