import Newrex.Lib.SlotTable
import Newrex.Net.Connection
import Newrex.Net.Handlers

/-!
# The ARP cache

The cache of `drivers/rtl8139.c` is a table of sixteen slots: `arp_resolve` is its lookup
(`arpResolve_eq`), `arp_cache_add` puts one pair (`arpTable_arpCacheAdd`), and
`handle_arp_packet` puts the sender of every frame that is long enough for an ARP packet
(`arpTable_handleArpPackets`).

`arp_cache_current` is the result. After any frames a host has at most one entry, an answer of
the cache is the last address that the host sent, and only a host beyond the sixteenth may be
missing.
-/

namespace Newrex

open LittleEndian

/-- The pair of an active entry. -/
def ArpEntry.pair (e : ArpEntry) : Option (IpAddress × MacAddress) :=
  if e.active then some (e.ip, e.mac) else none

theorem ArpEntry.pair_eq_none {e : ArpEntry} : e.pair = none ↔ e.active = false := by
  simp [ArpEntry.pair]

namespace Net

/-- The cache as a table. -/
def arpTable (s : Net) : SlotTable.Table IpAddress MacAddress 16 := fun i => (s.arpCache i).pair

variable {s : Net} {i : Fin 16} {ip : IpAddress}

theorem keyAt_arpTable : SlotTable.keyAt s.arpTable i = some ip ↔
    (s.arpCache i).active = true ∧ (s.arpCache i).ip = ip := by
  cases hactive : (s.arpCache i).active with
  | false => simp [SlotTable.keyAt, arpTable, ArpEntry.pair, hactive]
  | true => simp [SlotTable.keyAt, arpTable, ArpEntry.pair, hactive]

theorem slotOf_arpTable (s : Net) (ip : IpAddress) : SlotTable.slotOf s.arpTable ip =
    (List.finRange 16).find? fun i =>
      (s.arpCache i).active && decide ((s.arpCache i).ip = ip) := by
  rw [SlotTable.slotOf]
  congr 1
  funext i
  rw [Bool.eq_iff_iff, decide_eq_true_iff, keyAt_arpTable, Bool.and_eq_true, decide_eq_true_iff]

theorem freeSlot_arpTable (s : Net) : SlotTable.freeSlot s.arpTable =
    (List.finRange 16).find? fun i => !(s.arpCache i).active := by
  rw [SlotTable.freeSlot]
  congr 1
  funext i
  rw [Bool.eq_iff_iff, Option.isNone_iff_eq_none, Bool.not_eq_true']
  exact ArpEntry.pair_eq_none

theorem arpResolve_eq (s : Net) (ip : IpAddress) :
    s.arpResolve ip = SlotTable.lookup s.arpTable ip := by
  rw [arpResolve, ← slotOf_arpTable, SlotTable.lookup]
  cases hslot : SlotTable.slotOf s.arpTable ip with
  | none => rfl
  | some i =>
    have hactive : (s.arpCache i).active = true :=
      (keyAt_arpTable.mp (SlotTable.keyAt_of_slotOf hslot)).1
    simp [arpTable, ArpEntry.pair, hactive]

/-- Writing an entry. -/
theorem arpTable_update (s : Net) (i : Fin 16) (e : ArpEntry) :
    arpTable { s with arpCache := Function.update s.arpCache i e } =
      Function.update s.arpTable i e.pair := by
  funext j
  rcases eq_or_ne j i with rfl | hne
  · simp [arpTable]
  · simp [arpTable, hne]

theorem arpTable_arpCacheAdd (s : Net) (ip : IpAddress) (mac : MacAddress) :
    (s.arpCacheAdd ip mac).arpTable = SlotTable.put s.arpTable ip mac := by
  rw [arpCacheAdd, ← slotOf_arpTable, ← freeSlot_arpTable, SlotTable.put]
  cases hslot : SlotTable.slotOf s.arpTable ip with
  | some i =>
    obtain ⟨hactive, hip⟩ := keyAt_arpTable.mp (SlotTable.keyAt_of_slotOf hslot)
    simp only [arpTable_update]
    rw [ArpEntry.pair, if_pos hactive, hip]
  | none =>
    cases SlotTable.freeSlot s.arpTable with
    | some i => exact arpTable_update s i ⟨ip, mac, true⟩
    | none => rfl

theorem arpTable_rtl8139SendPacket (s : Net) (data : List UInt8) :
    (s.rtl8139SendPacket data).arpTable = s.arpTable := by
  rw [rtl8139SendPacket]
  split
  · rfl
  · rfl

/-! ## Runs -/

/-- Frames given to `handle_arp_packet` one after the other, each with its size. -/
def handleArpPackets (s : Net) (frames : List ((Nat → UInt8) × Int)) : Net :=
  frames.foldl (fun s f => s.handleArpPacket f.1 f.2) s

end Net

/-- The addresses of the senders, of the frames that are long enough for an ARP packet. -/
def arpSenders (frames : List ((Nat → UInt8) × Int)) : List (IpAddress × MacAddress) :=
  (frames.filter fun f => (ethHeaderSize + arpPacketSize : Int) ≤ f.2).map
    fun f => (arpSenderIp f.1, arpSenderMac f.1)

namespace Net

/-- One frame. The reply to a request leaves the cache as it is. -/
theorem arpTable_handleArpPacket (s : Net) (f : (Nat → UInt8) × Int) :
    (s.handleArpPacket f.1 f.2).arpTable = SlotTable.putAll s.arpTable (arpSenders [f]) := by
  rw [handleArpPacket, arpSenders]
  rcases lt_or_ge f.2 (ethHeaderSize + arpPacketSize) with hshort | hlong
  · rw [if_pos hshort, List.filter_cons_of_neg (by simpa using hshort)]
    rfl
  · rw [if_neg (not_lt.mpr hlong), List.filter_cons_of_pos (by simpa using hlong)]
    simp only [List.filter_nil, List.map_cons, List.map_nil, SlotTable.putAll, List.foldl_cons,
      List.foldl_nil]
    rw [← arpTable_arpCacheAdd]
    split
    · exact arpTable_rtl8139SendPacket _ _
    · rfl

theorem arpTable_handleArpPackets (s : Net) (frames : List ((Nat → UInt8) × Int)) :
    (s.handleArpPackets frames).arpTable = SlotTable.putAll s.arpTable (arpSenders frames) := by
  induction frames generalizing s with
  | nil => rfl
  | cons f frames ih =>
    have hsplit : arpSenders (f :: frames) = arpSenders [f] ++ arpSenders frames := by
      rw [arpSenders, ← List.singleton_append, List.filter_append, List.map_append]
      rfl
    rw [handleArpPackets, List.foldl_cons, hsplit, SlotTable.putAll, List.foldl_append]
    have hrest := ih (s.handleArpPacket f.1 f.2)
    rw [arpTable_handleArpPacket] at hrest
    exact hrest

theorem handleArpPackets_append (s : Net) (past frames : List ((Nat → UInt8) × Int)) :
    s.handleArpPackets (past ++ frames) = (s.handleArpPackets past).handleArpPackets frames :=
  List.foldl_append

/-- The table of a cache that was empty before the frames. -/
theorem current_handleArpPackets {s : Net} (hempty : ∀ i, (s.arpCache i).active = false)
    (frames : List ((Nat → UInt8) × Int)) :
    SlotTable.Current (arpSenders frames) (s.handleArpPackets frames).arpTable := by
  have hstart : SlotTable.Current [] s.arpTable :=
    SlotTable.Current.nil fun i => ArpEntry.pair_eq_none.mpr (hempty i)
  rw [arpTable_handleArpPackets]
  exact hstart.putAll (arpSenders frames)

end Net

/-- The cache after any frames, from an empty one. -/
theorem arp_cache_current (s : Net) (frames : List ((Nat → UInt8) × Int))
    (hempty : ∀ i, (s.arpCache i).active = false) :
    (∀ i j, ((s.handleArpPackets frames).arpCache i).active = true →
        ((s.handleArpPackets frames).arpCache j).active = true →
        ((s.handleArpPackets frames).arpCache i).ip = ((s.handleArpPackets frames).arpCache j).ip →
        i = j) ∧
      (∀ ip mac, (s.handleArpPackets frames).arpResolve ip = some mac →
        SlotTable.latest (arpSenders frames) ip = some mac) ∧
      (((arpSenders frames).map Prod.fst).toFinset.card ≤ 16 →
        ∀ ip, ip ∈ (arpSenders frames).map Prod.fst →
          ((s.handleArpPackets frames).arpResolve ip).isSome) := by
  have hcurrent := Net.current_handleArpPackets hempty frames
  refine ⟨?_, ?_, ?_⟩
  · intro i j hi hj hip
    exact hcurrent.distinct i j _ (Net.keyAt_arpTable.mpr ⟨hi, rfl⟩)
      (Net.keyAt_arpTable.mpr ⟨hj, hip.symm⟩)
  · intro ip mac hmac
    rw [Net.arpResolve_eq] at hmac
    exact hcurrent.lookup_latest hmac
  · intro hcard ip hip
    rw [Net.arpResolve_eq]
    exact hcurrent.lookup_isSome hcard hip

/-- An ARP packet from a host, in an array of zeros. -/
def arpFrom (ip : IpAddress) (mac : MacAddress) : Nat → UInt8 :=
  storeBytes (storeBytes (fun _ => 0) 22 mac.toList) 28 ip.toList

/-- The client, another host, a frame that is too short, and the client with a new card. -/
def sampleArpFrames : List ((Nat → UInt8) × Int) :=
  [(arpFrom client #v[1, 1, 1, 1, 1, 1], 60), (arpFrom stranger #v[2, 2, 2, 2, 2, 2], 42),
    (arpFrom client #v[3, 3, 3, 3, 3, 3], 41), (arpFrom client #v[4, 4, 4, 4, 4, 4], 60)]

theorem arp_cache_current_sample :
    (sampleListen.net.handleArpPackets sampleArpFrames).arpResolve client =
      some #v[4, 4, 4, 4, 4, 4] := by
  obtain ⟨-, hlatest, hfound⟩ :=
    arp_cache_current sampleListen.net sampleArpFrames fun _ => rfl
  have hsome := hfound (by decide +kernel) client (by decide +kernel)
  obtain ⟨mac, hmac⟩ := Option.isSome_iff_exists.mp hsome
  have hlast : SlotTable.latest (arpSenders sampleArpFrames) client =
      some #v[4, 4, 4, 4, 4, 4] := by decide +kernel
  exact hmac.trans ((hlatest client mac hmac).symm.trans hlast)

end Newrex
