import Newrex.Net.ArpCache
import Newrex.Net.Frames

/-!
# Hosts beyond the ARP cache

`arp_cache_add` drops the address of a new host when all sixteen entries are taken, and no
entry is ever given up. `ping` then asks for the address, gets the answer, drops it and
reports that the host cannot be reached.

* `arp_reply_reaches_iff`: an ARP packet makes its sender reachable exactly when the cache has
  room for it (`Net.HasRoom`);
* `seventeenth_host_unreachable`: the seventeenth host is not.
-/

namespace Newrex

open LittleEndian

namespace Net

/-- The host has an entry, or an entry is free. -/
def HasRoom (s : Net) (ip : IpAddress) : Prop :=
  (∃ i, (s.arpCache i).active = true ∧ (s.arpCache i).ip = ip) ∨ ∃ i, (s.arpCache i).active = false

/-- A call of `icmp_send_ping` ended here without an address to send to. -/
def SaysUnreachable (s : Net) : Prop :=
  s.console.getLast? =
    some (.literal "Error: ARP resolution failed. Host unreachable.\n" colorLightRed)

theorem room_arpTable {s : Net} {ip : IpAddress} :
    SlotTable.Room s.arpTable ip ↔ s.HasRoom ip := by
  refine or_congr ?_ ?_
  · exact exists_congr fun i => keyAt_arpTable
  · exact exists_congr fun i => ArpEntry.pair_eq_none

theorem sendPing_console (s : Net) (destIp : IpAddress) (srcMac destMac : MacAddress) :
    ¬ (s.sendPing destIp srcMac destMac).SaysUnreachable := by
  have hconsole : (s.sendPing destIp srcMac destMac).console =
      s.console ++ [.literal "Sending ICMP Echo Request to " colorWhite] ++ dottedAddress destIp ++
        [.literal "...\n" colorWhite] := by
    simp only [sendPing]
    rw [rtl8139SendPacket]
    split
    · rfl
    · rfl
  rw [SaysUnreachable, hconsole, List.getLast?_concat]
  simp

/-- `icmp_send_ping` gives up exactly when it has no address behind its waiting loop. -/
theorem icmpSendPing_saysUnreachable (s : Net) (destIp : IpAddress) (wait : Net → Net) :
    (s.icmpSendPing destIp wait).SaysUnreachable ↔
      (s.resolved destIp wait).arpResolve destIp = none := by
  unfold resolved icmpSendPing
  cases hknown : s.arpResolve destIp with
  | some mac =>
    rw [if_neg (Option.some_ne_none mac), hknown]
    exact iff_of_false (sendPing_console _ _ _ _) (Option.some_ne_none mac)
  | none =>
    rw [if_pos rfl]
    dsimp only
    cases hwait : (wait ((s.arpSendRequest destIp).printString
      "Resolving hardware address (ARP)...\n")).arpResolve destIp with
    | some mac => exact iff_of_false (sendPing_console _ _ _ _) (Option.some_ne_none mac)
    | none => exact iff_of_true List.getLast?_concat rfl

end Net

/-- An ARP packet from a host that comes behind any history makes the host reachable if and
only if the cache has room for it. A `ping` that the packet is the answer to, among any other
frames that come while it waits, finds the host under the same condition. -/
theorem arp_reply_reaches_iff (s : Net) (hempty : ∀ i, (s.arpCache i).active = false)
    (history : List ((Nat → UInt8) × Int)) (packet : Nat → UInt8) (size : Int)
    (hsize : 42 ≤ size) :
    (((s.handleArpPackets history).handleArpPacket packet size).arpResolve (arpSenderIp packet) =
        some (arpSenderMac packet) ↔
      (s.handleArpPackets history).HasRoom (arpSenderIp packet)) ∧
    ∀ past during after, history = past ++ during →
      (¬ ((s.handleArpPackets past).icmpSendPing (arpSenderIp packet) fun s =>
          s.handleArpPackets (during ++ (packet, size) :: after)).SaysUnreachable ↔
        (s.handleArpPackets history).HasRoom (arpSenderIp packet)) := by
  have hcurrent := Net.current_handleArpPackets hempty history
  have hsenders : ∀ frames, arpSenders ((packet, size) :: frames) =
      (arpSenderIp packet, arpSenderMac packet) :: arpSenders frames := by
    intro frames
    have hlong : (ethHeaderSize + arpPacketSize : Int) ≤ size := hsize
    rw [arpSenders, List.filter_cons_of_pos (by simpa using hlong)]
    rfl
  refine ⟨?_, ?_⟩
  · rw [Net.arpResolve_eq, Net.arpTable_handleArpPacket _ (packet, size), hsenders,
      ← Net.room_arpTable]
    exact SlotTable.lookup_put_iff hcurrent.distinct
  · rintro past during after rfl
    rw [Net.icmpSendPing_saysUnreachable, ← Net.room_arpTable]
    -- the table behind the waiting loop, which only frames have changed
    have hwaited : ∀ t : Net, t.arpTable = (s.handleArpPackets past).arpTable →
        ((t.handleArpPackets (during ++ (packet, size) :: after)).arpResolve
          (arpSenderIp packet) ≠ none ↔
          SlotTable.Room (s.handleArpPackets (past ++ during)).arpTable (arpSenderIp packet)) := by
      intro t ht
      rw [Net.arpResolve_eq, Net.handleArpPackets_append, Net.arpTable_handleArpPackets,
        Net.arpTable_handleArpPackets, ht, ← Net.arpTable_handleArpPackets,
        ← Net.handleArpPackets_append, hsenders, ← Option.isSome_iff_ne_none]
      exact hcurrent.lookup_put_putAll _ _
    unfold Net.resolved
    split
    next hunknown =>
      exact hwaited _ (Net.arpTable_rtl8139SendPacket _ _)
    next hknown =>
      -- a known host keeps its entry
      obtain ⟨mac, hmac⟩ := Option.ne_none_iff_exists'.mp hknown
      rw [Net.arpResolve_eq] at hmac
      obtain ⟨i, hi⟩ := SlotTable.exists_of_lookup hmac
      refine iff_of_true hknown (Or.inl ⟨i, ?_⟩)
      rw [Net.handleArpPackets_append, Net.arpTable_handleArpPackets]
      exact (Net.current_handleArpPackets hempty past).keyAt_putAll
        (SlotTable.keyAt_eq_some.mpr ⟨mac, hi⟩)

/-- Sixteen hosts, each with one ARP packet. -/
def sixteenHosts : List ((Nat → UInt8) × Int) :=
  (List.range 16).map fun i =>
    (arpFrom #v[10, 0, 2, 100 + UInt8.ofNat i] #v[2, 0, 0, 0, 0, UInt8.ofNat i], 60)

theorem arp_reply_reaches_sample :
    ((sampleListen.net.handleArpPackets sampleArpFrames).handleArpPacket
      (arpFrom client #v[5, 5, 5, 5, 5, 5]) 60).arpResolve client =
        some #v[5, 5, 5, 5, 5, 5] := by
  have hiff := (arp_reply_reaches_iff sampleListen.net (fun _ => rfl) sampleArpFrames
    (arpFrom client #v[5, 5, 5, 5, 5, 5]) 60 (by decide)).1
  have hip : arpSenderIp (arpFrom client #v[5, 5, 5, 5, 5, 5]) = client := by decide +kernel
  have hmac : arpSenderMac (arpFrom client #v[5, 5, 5, 5, 5, 5]) = #v[5, 5, 5, 5, 5, 5] := by
    decide +kernel
  rw [hip, hmac] at hiff
  exact hiff.mpr (Or.inr ⟨15, by decide +kernel⟩)

/-- The answer of the seventeenth host is dropped, and its `ping` says so. -/
theorem seventeenth_host_unreachable :
    (∀ i, (sampleListen.net.arpCache i).active = false) ∧
      arpSenderIp (arpFrom client #v[5, 5, 5, 5, 5, 5]) = client ∧
      ((sampleListen.net.handleArpPackets sixteenHosts).handleArpPacket
        (arpFrom client #v[5, 5, 5, 5, 5, 5]) 60).arpResolve client = none ∧
      ((sampleListen.net.handleArpPackets sixteenHosts).icmpSendPing client fun s =>
        s.handleArpPacket (arpFrom client #v[5, 5, 5, 5, 5, 5]) 60).SaysUnreachable := by
  refine ⟨fun _ => rfl, by decide +kernel, by decide +kernel, ?_⟩
  unfold Net.SaysUnreachable
  decide +kernel

end Newrex
