import Newrex.Lib.Numeral
import Newrex.Net.Connection
import Newrex.Net.Frames

/-!
# The commands ping and udpsend

`parse_ip`, `net_ping` and `net_udp_send`, and the addresses and lines that they are meant to
take. The parser lets more through than that: a field may be empty or above 255, the address
is cut at 31 characters, a port may be empty or above 65535, and nothing has to stand between
the port and the message.

* `parseIp_eq_some_iff`: what the parser accepts, and what it stores;
* `address_commands_exact_iff`: both commands send exactly what a well-formed argument names,
  if and only if the argument is none of those (`LooseAddress`, `LooseLine`);
* `ping_over_255_sent`: the ping of something that is no address.
-/

namespace Newrex

open Decimal

/-! ## Parsing an address -/

/-- The loop of `parse_ip`, with `ip[0..octet)` and `val`. An `int` that overflows wraps. -/
def parseIpLoop : List UInt8 → (octets : List UInt8) → (val : Nat) → Option (List UInt8)
  | [], octets, val => if octets.length ≠ 3 then none else some (octets ++ [UInt8.ofNat val])
  | c :: str, octets, val =>
    if 48 ≤ c ∧ c ≤ 57 then parseIpLoop str octets ((val * 10 + (c.toNat - 48)) % 2 ^ 32)
    else if c = 46 then
      if 3 ≤ octets.length then none else parseIpLoop str (octets ++ [UInt8.ofNat val]) 0
    else none

/-- `parse_ip`. -/
def parseIp (str : List UInt8) : Option IpAddress :=
  (parseIpLoop str [] 0).map fun octets => Vector.ofFn fun i => octets.getD i 0

/-- The parts of a string between its dots. -/
def dotFields (str : List UInt8) : List (List UInt8) := str.splitOn 46

/-- Fields of digits. -/
def DigitFields (fields : List (List UInt8)) : Prop := ∀ f ∈ fields, ∀ c ∈ f, IsDigit c

instance (fields : List (List UInt8)) : Decidable (DigitFields fields) :=
  haveI (f : List UInt8) : Decidable (∀ c ∈ f, IsDigit c) := List.decidableBAll IsDigit f
  List.decidableBAll (fun f => ∀ c ∈ f, IsDigit c) fields

/-- Four fields of digits, any of which may be empty. -/
def Dotted (str : List UInt8) : Prop :=
  (dotFields str).length = 4 ∧ DigitFields (dotFields str)

/-- Four non-empty decimal numbers from 0 to 255 with dots between them, and the address that
they are. -/
def IsAddress (str : List UInt8) (ip : IpAddress) : Prop :=
  Dotted str ∧ (∀ f ∈ dotFields str, f ≠ []) ∧
    (dotFields str).map value = ip.toList.map UInt8.toNat

/-- Four fields of digits, one of which is empty or stands for a number above 255. -/
def LooseAddress (str : List UInt8) : Prop :=
  Dotted str ∧ ∃ f ∈ dotFields str, f = [] ∨ 255 < value f

instance (str : List UInt8) : Decidable (Dotted str) := inferInstanceAs (Decidable (_ ∧ _))
instance (str : List UInt8) : Decidable (LooseAddress str) := inferInstanceAs (Decidable (_ ∧ _))

/-- The octets that the loop stores for the fields, with `val` in front of the first one. -/
def octetsFrom (val : Nat) : List (List UInt8) → List UInt8
  | [] => []
  | f :: fs => UInt8.ofNat (f.foldl append val) :: fs.map fun f => UInt8.ofNat (value f)

theorem ofNat_mod (n : Nat) : UInt8.ofNat (n % 2 ^ 32) = UInt8.ofNat n := by
  rw [← UInt8.toNat_inj, UInt8.toNat_ofNat', UInt8.toNat_ofNat']
  omega

theorem dotFields_cons_dot (str : List UInt8) : dotFields (46 :: str) = [] :: dotFields str := by
  rw [dotFields, dotFields, List.splitOn_cons_eq_if_modifyHead,
    if_pos (beq_self_eq_true _)]

theorem dotFields_cons {c : UInt8} (hc : c ≠ 46) {str f : List UInt8} {fs : List (List UInt8)}
    (hstr : dotFields str = f :: fs) : dotFields (c :: str) = (c :: f) :: fs := by
  rw [dotFields] at hstr ⊢
  rw [List.splitOn_cons_eq_if_modifyHead, if_neg (by simpa using hc), hstr, List.modifyHead_cons]

theorem digitFields_cons {c : UInt8} {f : List UInt8} {fs : List (List UInt8)} :
    DigitFields ((c :: f) :: fs) ↔ IsDigit c ∧ DigitFields (f :: fs) := by
  simp only [DigitFields, List.forall_mem_cons]
  exact and_assoc

theorem digitFields_empty {fs : List (List UInt8)} : DigitFields ([] :: fs) ↔ DigitFields fs := by
  rw [DigitFields, List.forall_mem_cons]
  exact and_iff_right (List.forall_mem_nil _)

theorem parseIpLoop_eq (str octets : List UInt8) (val : Nat) :
    parseIpLoop str octets (val % 2 ^ 32) =
      if octets.length + (dotFields str).length = 4 ∧ DigitFields (dotFields str) then
        some (octets ++ octetsFrom val (dotFields str))
      else none := by
  induction str generalizing octets val with
  | nil =>
    rw [parseIpLoop, ofNat_mod]
    by_cases hfull : octets.length = 3
    · rw [if_neg (not_not_intro hfull), if_pos (by simp [dotFields, DigitFields, hfull])]
      rfl
    · rw [if_pos hfull, if_neg (by simp [dotFields, hfull])]
  | cons c str ih =>
    obtain ⟨f, fs, hfields⟩ : ∃ f fs, dotFields str = f :: fs :=
      List.exists_cons_of_ne_nil (List.splitOn_ne_nil 46 str)
    rw [parseIpLoop]
    by_cases hdigit : 48 ≤ c ∧ c ≤ 57
    · have hdot : c ≠ 46 := by
        rintro rfl
        exact absurd hdigit (by decide)
      have hval : (val % 2 ^ 32 * 10 + (c.toNat - 48)) % 2 ^ 32 = append val c % 2 ^ 32 :=
        append_mod (2 ^ 32) val c
      rw [if_pos hdigit, hval, ih, hfields, dotFields_cons hdot hfields]
      have hc : IsDigit c := hdigit
      simp only [digitFields_cons, hc, true_and]
      rfl
    · rw [if_neg hdigit]
      by_cases hdot : c = 46
      · rw [hdot, if_pos rfl, dotFields_cons_dot]
        have hval : parseIpLoop str (octets ++ [UInt8.ofNat (val % 2 ^ 32)]) 0 =
            parseIpLoop str (octets ++ [UInt8.ofNat val]) (0 % 2 ^ 32) := by
          rw [ofNat_mod, Nat.zero_mod]
        by_cases hfull : 3 ≤ octets.length
        · rw [if_pos hfull, if_neg]
          rw [hfields, List.length_cons, List.length_cons]
          omega
        · have hlength : (octets ++ [UInt8.ofNat val]).length + (f :: fs).length =
              octets.length + ([] :: f :: fs).length := by
            simp only [List.length_append, List.length_cons, List.length_nil]
            omega
          rw [if_neg hfull, hval, ih, hfields, hlength, List.append_assoc]
          simp only [digitFields_empty]
          rfl
      · rw [if_neg hdot, dotFields_cons hdot hfields, if_neg]
        rintro ⟨-, hall⟩
        exact hdigit (hall _ List.mem_cons_self c List.mem_cons_self)

/-- The octets of four fields, each number taken modulo 256. -/
theorem parseIp_eq_some_iff {str : List UInt8} {ip : IpAddress} :
    parseIp str = some ip ↔
      Dotted str ∧ ip.toList = (dotFields str).map fun f => UInt8.ofNat (value f) := by
  have hoctets : ∀ octets : List UInt8, octets.length = 4 →
      (Vector.ofFn fun i : Fin 4 => octets.getD i 0).toList = octets := by
    intro octets hfour
    match octets, hfour with
    | [a, b, c, d], _ => rfl
  obtain ⟨f, fs, hfields⟩ : ∃ f fs, dotFields str = f :: fs :=
    List.exists_cons_of_ne_nil (List.splitOn_ne_nil 46 str)
  have hfrom : octetsFrom 0 (dotFields str) =
      (dotFields str).map fun f => UInt8.ofNat (value f) := by
    rw [hfields]
    rfl
  have hloop := parseIpLoop_eq str [] 0
  rw [Nat.zero_mod, List.length_nil, Nat.zero_add, List.nil_append, hfrom] at hloop
  rw [parseIp, hloop]
  by_cases hdotted : Dotted str
  · have hlist := hoctets ((dotFields str).map fun f => UInt8.ofNat (value f))
      (by rw [List.length_map]; exact hdotted.1)
    rw [if_pos (show _ ∧ _ from hdotted), Option.map_some, Option.some_inj,
      ← Vector.toList_inj, hlist]
    exact ⟨fun h => ⟨hdotted, h.symm⟩, fun h => h.2.symm⟩
  · rw [if_neg (show ¬ (_ ∧ _) from hdotted), Option.map_none]
    exact ⟨fun h => (nomatch h), fun h => absurd h.1 hdotted⟩

theorem parseIp_of_isAddress {str : List UInt8} {ip : IpAddress} (h : IsAddress str ip) :
    parseIp str = some ip := by
  obtain ⟨hdotted, -, hvalues⟩ := h
  rw [parseIp_eq_some_iff]
  refine ⟨hdotted, ?_⟩
  calc ip.toList = (ip.toList.map UInt8.toNat).map UInt8.ofNat := by
        rw [List.map_map]
        simp [Function.comp_def]
    _ = (dotFields str).map fun f => UInt8.ofNat (value f) := by
        rw [← hvalues, List.map_map]
        rfl

theorem exists_parseIp {str : List UInt8} (h : Dotted str) : ∃ ip, parseIp str = some ip := by
  have hfour : ((dotFields str).map fun f => UInt8.ofNat (value f)).toArray.size = 4 := by
    rw [List.size_toArray, List.length_map]
    exact h.1
  exact ⟨⟨_, hfour⟩, parseIp_eq_some_iff.mpr ⟨h, rfl⟩⟩

/-- What the parser accepts is an address, unless it is a loose one. -/
theorem exists_isAddress_iff {str : List UInt8} :
    (∃ ip, IsAddress str ip) ↔ Dotted str ∧ ¬ LooseAddress str := by
  constructor
  · rintro ⟨ip, hdotted, hfilled, hvalues⟩
    refine ⟨hdotted, ?_⟩
    rintro ⟨-, f, hf, hempty | hlarge⟩
    · exact hfilled f hf hempty
    · have hmem : value f ∈ ip.toList.map UInt8.toNat := hvalues ▸ List.mem_map_of_mem hf
      obtain ⟨b, -, hb⟩ := List.mem_map.mp hmem
      have hbyte := b.toNat_lt
      omega
  · rintro ⟨hdotted, htight⟩
    obtain ⟨ip, hparse⟩ := exists_parseIp hdotted
    have hbounds : ∀ f ∈ dotFields str, f ≠ [] ∧ value f ≤ 255 := fun f hf =>
      ⟨fun hempty => htight ⟨hdotted, f, hf, .inl hempty⟩,
        Nat.le_of_not_lt fun hlarge => htight ⟨hdotted, f, hf, .inr hlarge⟩⟩
    refine ⟨ip, hdotted, fun f hf => (hbounds f hf).1, ?_⟩
    rw [(parseIp_eq_some_iff.mp hparse).2, List.map_map]
    refine List.map_congr_left fun f hf => ?_
    exact (UInt8.toNat_ofNat_of_lt (Nat.lt_succ_of_le (hbounds f hf).2)).symm

/-! ## The commands -/

/-- The loop of `net_udp_send` that copies the first word, at most `n` characters of it: the
copy, and the rest of the arguments. -/
def copyWord : (n : Nat) → List UInt8 → List UInt8 × List UInt8
  | 0, args => ([], args)
  | _ + 1, [] => ([], [])
  | n + 1, c :: args =>
    if c ≠ 32 then
      let (word, rest) := copyWord n args
      (c :: word, rest)
    else ([], c :: args)

/-- The loop that reads the port: its value, and the rest of the arguments. -/
def readPort : (port : Nat) → List UInt8 → Nat × List UInt8
  | port, [] => (port, [])
  | port, c :: args =>
    if 48 ≤ c ∧ c ≤ 57 then readPort ((port * 10 + (c.toNat - 48)) % 2 ^ 32) args
    else (port, c :: args)

namespace Net

/-- `net_ping`; for `wait` see `icmpSendPing`. -/
def netPing (s : Net) (cmdArgs : CString) (wait : Net → Net) : Net :=
  if s.rtl8139Present = false then
    s.printStringColor "Error: RTL8139 not detected.\n" colorLightRed
  else
    match parseIp cmdArgs.chars with
    | none => s.printString "Usage: ping <ip>\n"
    | some destIp => s.icmpSendPing destIp wait

/-- What `net_udp_send` prints in front of its call of `udp_send`. -/
def printUdpTarget (s : Net) (ipStr : List UInt8) : Net :=
  { s with console := s.console ++ [.literal "Sending UDP payload to " colorWhite,
    .string ipStr colorWhite, .literal "...\n" colorWhite] }

/-- `net_udp_send`. -/
def netUdpSend (s : Net) (cmdArgs : CString) : Net :=
  if s.rtl8139Present = false then
    s.printStringColor "Error: RTL8139 not detected.\n" colorLightRed
  else
    let (ipStr, rest) := copyWord 31 cmdArgs.chars
    if rest = [] then s.printString "Usage: udpsend <ip> <port> <message>\n"
    else
      let (port, rest) := readPort 0 (rest.dropWhile (· = 32))
      if rest = [] then s.printString "Usage: udpsend <ip> <port> <message>\n"
      else
        let message := rest.dropWhile (· = 32)
        match parseIp ipStr with
        | none => s.printString "Error: Invalid IP address format.\n"
        | some destIp =>
          (s.printUdpTarget ipStr).udpSend destIp 1234 (port % 2 ^ 16) message

end Net

/-! ## Well-formed lines -/

/-- An address, spaces, a decimal port from 0 to 65535, spaces and a message that a frame has
room for. -/
def IsLine (args : List UInt8) (ip : IpAddress) (port : Nat) (message : List UInt8) : Prop :=
  ∃ address digits, ∃ a b : Nat,
    args = address ++ List.replicate (a + 1) 32 ++ digits ++ List.replicate (b + 1) 32 ++ message ∧
      IsAddress address ip ∧ digits ≠ [] ∧ (∀ c ∈ digits, IsDigit c) ∧ value digits = port ∧
      port ≤ 65535 ∧ message.head? ≠ some 32 ∧ message.length ≤ 1458

/-- The parts of a line as the code finds them: the first word, its first 31 characters, the
digits behind it, what comes behind these, and the message. -/
def firstWord (args : List UInt8) : List UInt8 := args.takeWhile (· ≠ 32)

def cutWord (args : List UInt8) : List UInt8 := (firstWord args).take 31

def portDigits (args : List UInt8) : List UInt8 :=
  ((args.drop (cutWord args).length).dropWhile (· = 32)).takeWhile IsDigit

def behindPort (args : List UInt8) : List UInt8 :=
  ((args.drop (cutWord args).length).dropWhile (· = 32)).dropWhile IsDigit

def messageOf (args : List UInt8) : List UInt8 := (behindPort args).dropWhile (· = 32)

/-- The line gets past the checks of `net_udp_send` and `udp_send`. -/
def Taken (args : List UInt8) : Prop :=
  Dotted (cutWord args) ∧ behindPort args ≠ [] ∧ (messageOf args).length ≤ 1458

/-- The lines that `net_udp_send` does not treat as it should. Either the line is well formed
with an address of more than 31 characters. Or it gets past the checks although its address is
that long or a loose one, its port is empty or above 65535, or no space follows the port. -/
def LooseLine (args : List UInt8) : Prop :=
  31 < (firstWord args).length ∧ (∃ ip port message, IsLine args ip port message) ∨
    Taken args ∧ (31 < (firstWord args).length ∨ LooseAddress (firstWord args) ∨
      portDigits args = [] ∨ 65535 < value (portDigits args) ∨ (behindPort args).head? ≠ some 32)

theorem copyWord_eq (n : Nat) (args : List UInt8) :
    copyWord n args =
      ((firstWord args).take n, args.drop ((firstWord args).take n).length) := by
  induction n generalizing args with
  | zero => rfl
  | succ n ih =>
    cases args with
    | nil => rfl
    | cons c args =>
      rw [copyWord, firstWord]
      by_cases hspace : c = 32
      · rw [if_neg (not_not_intro hspace), List.takeWhile_cons_of_neg (by simpa using hspace)]
        rfl
      · rw [if_pos hspace, List.takeWhile_cons_of_pos (by simpa using hspace), ih]
        rfl

theorem readPort_eq (port : Nat) (args : List UInt8) :
    readPort (port % 2 ^ 32) args =
      ((args.takeWhile IsDigit).foldl append port % 2 ^ 32, args.dropWhile IsDigit) := by
  induction args generalizing port with
  | nil => rfl
  | cons c args ih =>
    rw [readPort]
    by_cases hdigit : 48 ≤ c ∧ c ≤ 57
    · have hport : (port % 2 ^ 32 * 10 + (c.toNat - 48)) % 2 ^ 32 = append port c % 2 ^ 32 :=
        append_mod (2 ^ 32) port c
      have htake : decide (IsDigit c) = true := decide_eq_true hdigit
      rw [if_pos hdigit, hport, ih,
        List.takeWhile_cons_of_pos (p := fun c => decide (IsDigit c)) htake,
        List.dropWhile_cons_of_pos (p := fun c => decide (IsDigit c)) htake, List.foldl_cons]
    · have hstop : ¬ decide (IsDigit c) = true := fun h => hdigit (of_decide_eq_true h)
      rw [if_neg hdigit, List.takeWhile_cons_of_neg (p := fun c => decide (IsDigit c)) hstop,
        List.dropWhile_cons_of_neg (p := fun c => decide (IsDigit c)) hstop, List.foldl_nil]

/-! ## The parts of a line -/

theorem dropSpaces (n : Nat) {l : List UInt8} (hl : l.head? ≠ some 32) :
    (List.replicate n 32 ++ l).dropWhile (· = 32) = l := by
  rw [List.dropWhile_append_of_pos fun c hc => by simpa using (List.mem_replicate.mp hc).2]
  cases l with
  | nil => rfl
  | cons c l => exact List.dropWhile_cons_of_neg (by simpa using hl)

theorem exists_spaces {l : List UInt8} (h : l.head? = some 32) :
    ∃ n : Nat, l = List.replicate (n + 1) 32 ++ l.dropWhile (· = 32) := by
  induction l with
  | nil => cases h
  | cons c l ih =>
    cases Option.some_inj.mp h
    rw [List.dropWhile_cons_of_pos (by simp)]
    by_cases hl : l.head? = some 32
    · obtain ⟨n, hn⟩ := ih hl
      exact ⟨n + 1, congrArg (List.cons 32) hn⟩
    · have hstay : l.dropWhile (· = 32) = l := dropSpaces 0 hl
      exact ⟨0, by rw [hstay]; rfl⟩

/-- Dropping a prefix stops at a member that stays. -/
theorem suffix_dropWhile {p : UInt8 → Bool} {c : UInt8} (hc : p c = false) (u z : List UInt8) :
    c :: z <:+ (u ++ c :: z).dropWhile p := by
  induction u with
  | nil =>
    have hstay : (c :: z).dropWhile p = c :: z := List.dropWhile_cons_of_neg (by simp [hc])
    exact ⟨[], hstay.symm⟩
  | cons d u ih =>
    rw [List.cons_append, List.dropWhile_cons]
    split
    · exact ih
    · exact List.suffix_append (d :: u) (c :: z)

theorem mem_of_digitFields {str : List UInt8} (h : DigitFields (dotFields str)) :
    ∀ c ∈ str, c ≠ 32 := by
  induction str with
  | nil => exact List.forall_mem_nil _
  | cons c str ih =>
    obtain ⟨f, fs, hfields⟩ : ∃ f fs, dotFields str = f :: fs :=
      List.exists_cons_of_ne_nil (List.splitOn_ne_nil 46 str)
    rw [List.forall_mem_cons]
    by_cases hdot : c = 46
    · rw [hdot, dotFields_cons_dot, digitFields_empty] at h
      exact ⟨by rw [hdot]; decide, ih h⟩
    · rw [dotFields_cons hdot hfields, digitFields_cons, ← hfields] at h
      refine ⟨?_, ih h.2⟩
      rintro rfl
      exact absurd h.1 (by decide)

/-- The parts of a well-formed line. -/
structure LineParts (args address digits message : List UInt8) (a b : Nat) : Prop where
  args_eq : args = address ++ (List.replicate (a + 1) 32 ++
    (digits ++ (List.replicate (b + 1) 32 ++ message)))
  address_ne : ∀ c ∈ address, c ≠ 32
  digits_ne : digits ≠ []
  digits : ∀ c ∈ digits, IsDigit c
  message : message.head? ≠ some 32

theorem IsLine.parts {args : List UInt8} {ip : IpAddress} {port : Nat} {message : List UInt8}
    (h : IsLine args ip port message) :
    ∃ address digits, ∃ a b : Nat, LineParts args address digits message a b ∧
      IsAddress address ip ∧ value digits = port ∧ port ≤ 65535 ∧ message.length ≤ 1458 := by
  obtain ⟨address, digits, a, b, hargs, haddress, hne, hdigits, hvalue, hport, hmessage, hfits⟩ := h
  have hparts : LineParts args address digits message a b :=
    { args_eq := by
        rw [hargs]
        simp only [List.append_assoc]
      address_ne := mem_of_digitFields haddress.1.2
      digits_ne := hne
      digits := hdigits
      message := hmessage }
  exact ⟨address, digits, a, b, hparts, haddress, hvalue, hport, hfits⟩

namespace LineParts

variable {args address digits message : List UInt8} {a b : Nat}

theorem firstWord_eq (h : LineParts args address digits message a b) :
    firstWord args = address := by
  rw [h.args_eq, firstWord, List.takeWhile_append_of_pos fun c hc => by
    simpa using h.address_ne c hc]
  rw [List.replicate_succ, List.cons_append, List.takeWhile_cons_of_neg (by simp),
    List.append_nil]

theorem head_digits (h : LineParts args address digits message a b) (l : List UInt8) :
    (digits ++ l).head? ≠ some 32 := by
  have hdigits := h.digits
  cases hcons : digits with
  | nil => exact absurd hcons h.digits_ne
  | cons c digits =>
    rw [hcons] at hdigits
    intro hhead
    cases Option.some_inj.mp hhead
    exact absurd (hdigits 32 List.mem_cons_self) (by decide)

theorem drop_address (h : LineParts args address digits message a b) :
    (args.drop address.length).dropWhile (· = 32) =
      digits ++ 32 :: (List.replicate b 32 ++ message) := by
  rw [h.args_eq, List.drop_left, dropSpaces _ (h.head_digits _)]
  rfl

theorem cutWord_eq (h : LineParts args address digits message a b)
    (hshort : address.length ≤ 31) : cutWord args = address := by
  rw [cutWord, h.firstWord_eq, List.take_of_length_le hshort]

theorem portDigits_eq (h : LineParts args address digits message a b)
    (hshort : address.length ≤ 31) : portDigits args = digits := by
  rw [portDigits, h.cutWord_eq hshort, h.drop_address,
    List.takeWhile_append_of_pos fun c hc => decide_eq_true (h.digits c hc),
    List.takeWhile_cons_of_neg (by decide), List.append_nil]

theorem behindPort_eq (h : LineParts args address digits message a b)
    (hshort : address.length ≤ 31) :
    behindPort args = 32 :: (List.replicate b 32 ++ message) := by
  rw [behindPort, h.cutWord_eq hshort, h.drop_address,
    List.dropWhile_append_of_pos fun c hc => decide_eq_true (h.digits c hc),
    List.dropWhile_cons_of_neg (by decide)]

theorem messageOf_eq (h : LineParts args address digits message a b)
    (hshort : address.length ≤ 31) : messageOf args = message := by
  rw [messageOf, h.behindPort_eq hshort]
  exact dropSpaces (b + 1) h.message

/-- When the address is cut, the port and the message both end up in the message. -/
theorem length_messageOf (h : LineParts args address digits message a b)
    (hlong : 31 < address.length) : message.length < (messageOf args).length := by
  obtain ⟨c, left, hleft⟩ : ∃ c left, address.drop 31 = c :: left :=
    List.exists_cons_of_ne_nil fun hnil => by
      have := congrArg List.length hnil
      rw [List.length_drop, List.length_nil] at this
      omega
  have hc : c ≠ 32 := h.address_ne c (List.mem_of_mem_drop (hleft ▸ List.mem_cons_self))
  obtain ⟨d, digits', hdigits⟩ : ∃ d digits', digits = d :: digits' :=
    List.exists_cons_of_ne_nil h.digits_ne
  have hd : d ≠ 32 := by
    rintro rfl
    exact absurd (h.digits 32 (hdigits ▸ List.mem_cons_self)) (by decide)
  let behind := digits' ++ (List.replicate (b + 1) 32 ++ message)
  have hcut : (cutWord args).length = 31 := by
    rw [cutWord, h.firstWord_eq, List.length_take]
    omega
  have hrest : args.drop 31 = c :: left ++ 32 :: (List.replicate a 32 ++ d :: behind) := by
    rw [h.args_eq, List.drop_append_of_le_length (by omega), hleft, hdigits]
    rfl
  have hport : behindPort args =
      (c :: left ++ 32 :: (List.replicate a 32 ++ d :: behind)).dropWhile IsDigit := by
    rw [behindPort, hcut, hrest, List.cons_append, List.dropWhile_cons_of_neg (by simpa using hc)]
  obtain ⟨u, hu⟩ := suffix_dropWhile (p := fun c => decide (IsDigit c)) (c := 32) (by decide)
    (c :: left) (List.replicate a 32 ++ d :: behind)
  have hmessage := suffix_dropWhile (p := fun c => decide (c = 32)) (c := d) (by simpa using hd)
    (u ++ 32 :: List.replicate a 32) behind
  have hlength := hmessage.length_le
  rw [List.append_assoc, List.cons_append, hu, ← hport] at hlength
  simp only [behind, List.length_cons, List.length_append, List.length_replicate] at hlength
  rw [messageOf]
  omega

end LineParts

theorem head_messageOf (args : List UInt8) : (messageOf args).head? ≠ some 32 := by
  intro hhead
  have hstop := List.head?_dropWhile_not (fun c : UInt8 => decide (c = 32)) (behindPort args)
  rw [messageOf] at hhead
  rw [hhead] at hstop
  simp at hstop

/-- A line that gets past the checks is well formed, unless it is a loose one. -/
theorem exists_isLine {args : List UInt8} (htaken : Taken args) (htight : ¬ LooseLine args) :
    ∃ ip port message, IsLine args ip port message := by
  obtain ⟨hdotted, hbehind, hfits⟩ := htaken
  simp only [LooseLine, not_or, not_and] at htight
  obtain ⟨hshort, haddress, hdigits, hport, hspace⟩ := htight.2 ⟨hdotted, hbehind, hfits⟩
  have hcut : cutWord args = firstWord args := List.take_of_length_le (by omega)
  obtain ⟨ip, hip⟩ := exists_isAddress_iff.mpr ⟨hcut ▸ hdotted, haddress⟩
  obtain ⟨b, hb⟩ := exists_spaces (Classical.not_not.mp hspace)
  have hsplit : firstWord args ++ args.dropWhile (· ≠ 32) = args :=
    List.takeWhile_append_dropWhile
  have hrest : args.drop (cutWord args).length = args.dropWhile (· ≠ 32) := by
    calc args.drop (cutWord args).length =
          (firstWord args ++ args.dropWhile (· ≠ 32)).drop (firstWord args).length := by
          rw [hsplit, hcut]
      _ = args.dropWhile (· ≠ 32) := List.drop_left
  have hhead : (args.dropWhile (· ≠ 32)).head? = some 32 := by
    cases hcons : args.dropWhile (· ≠ 32) with
    | nil => exact absurd (by rw [behindPort, hrest, hcons]; rfl) hbehind
    | cons c rest =>
      have hc := List.head?_dropWhile_not (fun c : UInt8 => decide (c ≠ 32)) args
      rw [hcons, List.head?_cons] at hc
      simpa using hc
  obtain ⟨a, ha⟩ := exists_spaces hhead
  have hport' : (args.dropWhile (· ≠ 32)).dropWhile (· = 32) =
      portDigits args ++ behindPort args := by
    rw [portDigits, behindPort, hrest, List.takeWhile_append_dropWhile]
  refine ⟨ip, value (portDigits args), messageOf args, firstWord args, portDigits args, a, b, ?_,
    hip, hdigits, ?_, rfl, by omega, head_messageOf args, hfits⟩
  · calc args = firstWord args ++ (List.replicate (a + 1) 32 ++
          (portDigits args ++ behindPort args)) := by rw [← hport', ← ha, hsplit]
      _ = firstWord args ++ (List.replicate (a + 1) 32 ++ (portDigits args ++
          (List.replicate (b + 1) 32 ++ messageOf args))) := by rw [messageOf, ← hb]
      _ = _ := by simp only [List.append_assoc]
  · intro c hc
    exact of_decide_eq_true (List.mem_takeWhile_imp (p := fun c => decide (IsDigit c)) hc)

/-! ## What the commands send -/

namespace Net

/-- The frames of the device after a command that sends `frames`. -/
def Sends (s s' : Net) (frames : List (List UInt8)) : Prop := s'.sent = s.sent ++ frames

/-- A ping goes to exactly the address that the argument is, and no other argument sends
anything. -/
def PingExact (s : Net) (cmdArgs : CString) (wait : Net → Net) (macOf : IpAddress → MacAddress) :
    Prop :=
  (∀ ip, IsAddress cmdArgs.chars ip →
    s.Sends (s.netPing cmdArgs wait) [pingFrame s.myMac (macOf ip) ip]) ∧
  ((¬ ∃ ip, IsAddress cmdArgs.chars ip) → s.Sends (s.netPing cmdArgs wait) [])

/-- A datagram goes to exactly the address and port that the line names, with its message, and
no other line sends anything. -/
def UdpSendExact (s : Net) (cmdArgs : CString) : Prop :=
  (∀ ip port message, IsLine cmdArgs.chars ip port message →
    s.Sends (s.netUdpSend cmdArgs) [s.udpFrame ip 1234 port message]) ∧
  ((¬ ∃ ip port message, IsLine cmdArgs.chars ip port message) →
    s.Sends (s.netUdpSend cmdArgs) [])

theorem netPing_sends {s : Net} (hup : s.Attached) {cmdArgs : CString} {wait : Net → Net}
    {ip : IpAddress} {mac : MacAddress} (hparse : parseIp cmdArgs.chars = some ip)
    (hmac : s.arpResolve ip = some mac) :
    s.Sends (s.netPing cmdArgs wait) [pingFrame s.myMac mac ip] := by
  have hknown : (s.resolved ip wait).arpResolve ip = some mac := by
    rw [resolved, if_neg (by simp [hmac]), hmac]
  have hstay : s.resolved ip wait = s := by rw [resolved, if_neg (by simp [hmac])]
  rw [Sends, netPing, if_neg (by simp [hup.1]), hparse]
  show (s.icmpSendPing ip wait).sent = _
  rw [icmpSendPing_sent hknown, hstay, rtl8139SendPacket_sent, if_neg (by simp [hup.1, hup.2])]

theorem netPing_silent {s : Net} {cmdArgs : CString} {wait : Net → Net}
    (hparse : parseIp cmdArgs.chars = none) : s.Sends (s.netPing cmdArgs wait) [] := by
  rw [Sends, List.append_nil, netPing]
  split
  · rfl
  · rw [hparse]
    rfl

theorem not_sends_nil {s s' : Net} {frame : List UInt8} (h : s.Sends s' [frame]) :
    ¬ s.Sends s' [] := by
  intro hnone
  have hframes := List.append_cancel_left (h.symm.trans hnone)
  exact List.cons_ne_nil _ _ hframes

theorem netUdpSend_eq {s : Net} (hup : s.rtl8139Present = true) (cmdArgs : CString) :
    s.netUdpSend cmdArgs =
      if behindPort cmdArgs.chars = [] then
        s.printString "Usage: udpsend <ip> <port> <message>\n"
      else
        match parseIp (cutWord cmdArgs.chars) with
        | none => s.printString "Error: Invalid IP address format.\n"
        | some destIp => (s.printUdpTarget (cutWord cmdArgs.chars)).udpSend destIp 1234
            (value (portDigits cmdArgs.chars) % 2 ^ 32 % 2 ^ 16) (messageOf cmdArgs.chars) := by
  have hword : copyWord 31 cmdArgs.chars =
      (cutWord cmdArgs.chars, cmdArgs.chars.drop (cutWord cmdArgs.chars).length) :=
    copyWord_eq 31 cmdArgs.chars
  have hport : readPort 0
      ((cmdArgs.chars.drop (cutWord cmdArgs.chars).length).dropWhile (· = 32)) =
        (value (portDigits cmdArgs.chars) % 2 ^ 32, behindPort cmdArgs.chars) :=
    readPort_eq 0 _
  rw [netUdpSend, if_neg (by simp [hup]), hword]
  dsimp only
  rw [hport]
  by_cases hrest : cmdArgs.chars.drop (cutWord cmdArgs.chars).length = []
  · rw [if_pos hrest, if_pos (by rw [behindPort, hrest]; rfl)]
  · rw [if_neg hrest]
    rfl

theorem netUdpSend_sends {s : Net} (hup : s.Attached) {cmdArgs : CString} {ip : IpAddress}
    {mac : MacAddress} (htaken : Taken cmdArgs.chars)
    (hparse : parseIp (cutWord cmdArgs.chars) = some ip) (hmac : s.arpResolve ip = some mac) :
    s.Sends (s.netUdpSend cmdArgs) [s.udpFrame ip 1234
      (value (portDigits cmdArgs.chars) % 2 ^ 16) (messageOf cmdArgs.chars)] := by
  have hwrap : value (portDigits cmdArgs.chars) % 2 ^ 32 % 2 ^ 16 =
      value (portDigits cmdArgs.chars) % 2 ^ 16 := Nat.mod_mod_of_dvd _ (by decide)
  have hasked : (s.printUdpTarget (cutWord cmdArgs.chars)).asked ip =
      s.printUdpTarget (cutWord cmdArgs.chars) := if_neg (by
    show ¬ s.arpResolve ip = none
    simp [hmac])
  rw [Sends, netUdpSend_eq hup.1, if_neg htaken.2.1, hparse]
  dsimp only
  rw [hwrap, udpSend_eq _ _ _ _ htaken.2.2, hasked, rtl8139SendPacket_sent, if_neg]
  · rfl
  · show ¬ (s.rtl8139Present = false ∨ s.rtl8139IoBase = 0)
    simp [hup.1, hup.2]

theorem netUdpSend_silent {s : Net} (hup : s.Attached) {cmdArgs : CString}
    (htaken : ¬ Taken cmdArgs.chars) : s.Sends (s.netUdpSend cmdArgs) [] := by
  rw [Sends, List.append_nil, netUdpSend_eq hup.1]
  by_cases hbehind : behindPort cmdArgs.chars = []
  · rw [if_pos hbehind]
    rfl
  · rw [if_neg hbehind]
    cases hparse : parseIp (cutWord cmdArgs.chars) with
    | none => rfl
    | some ip =>
      have hlarge : 1458 < (messageOf cmdArgs.chars).length := Nat.lt_of_not_le fun hle =>
        htaken ⟨(parseIp_eq_some_iff.mp hparse).1, hbehind, hle⟩
      dsimp only
      unfold udpSend
      rw [if_pos]
      · rfl
      · simp only [ethHeaderSize, ipv4HeaderSize, udpHeaderSize]
        omega

theorem pingExact_iff {s : Net} (hup : s.Attached) (cmdArgs : CString) (wait : Net → Net)
    (macOf : IpAddress → MacAddress)
    (hresolved : ∀ ip, parseIp cmdArgs.chars = some ip → s.arpResolve ip = some (macOf ip)) :
    s.PingExact cmdArgs wait macOf ↔ ¬ LooseAddress cmdArgs.chars := by
  constructor
  · rintro ⟨-, hother⟩ hloose
    obtain ⟨ip, hparse⟩ := exists_parseIp hloose.1
    have hno : ¬ ∃ ip, IsAddress cmdArgs.chars ip := fun h =>
      (exists_isAddress_iff.mp h).2 hloose
    exact not_sends_nil (netPing_sends hup hparse (hresolved ip hparse)) (hother hno)
  · intro htight
    refine ⟨fun ip haddress => ?_, fun hno => ?_⟩
    · have hparse := parseIp_of_isAddress haddress
      exact netPing_sends hup hparse (hresolved ip hparse)
    · have hdotted : ¬ Dotted cmdArgs.chars := fun h =>
        hno (exists_isAddress_iff.mpr ⟨h, htight⟩)
      refine netPing_silent ?_
      cases hparse : parseIp cmdArgs.chars with
      | none => rfl
      | some ip => exact absurd (parseIp_eq_some_iff.mp hparse).1 hdotted

theorem length_udpFrame (s : Net) (ip : IpAddress) (port : Nat) (message : List UInt8) :
    (s.udpFrame ip 1234 port message).length = 42 + message.length := by
  simp only [udpFrame, List.length_map, List.length_range, ethHeaderSize, ipv4HeaderSize,
    udpHeaderSize]
  omega

/-- A well-formed line whose address is cut is not sent as it should be. -/
theorem not_sends_long {s : Net} (hup : s.Attached) {cmdArgs : CString}
    {macOf : IpAddress → MacAddress}
    (hresolved : ∀ ip, parseIp (cutWord cmdArgs.chars) = some ip →
      s.arpResolve ip = some (macOf ip))
    {address digits message : List UInt8} {a b : Nat}
    (hparts : LineParts cmdArgs.chars address digits message a b) (hlong : 31 < address.length)
    (ip : IpAddress) (port : Nat) :
    ¬ s.Sends (s.netUdpSend cmdArgs) [s.udpFrame ip 1234 port message] := by
  intro hsends
  by_cases htaken : Taken cmdArgs.chars
  · obtain ⟨ip', hparse⟩ := exists_parseIp htaken.1
    have hother := netUdpSend_sends hup htaken hparse (hresolved ip' hparse)
    have hframes := List.append_cancel_left (hsends.symm.trans hother)
    have hlength := congrArg List.length (List.cons.inj hframes).1
    rw [length_udpFrame, length_udpFrame] at hlength
    have hmessage := hparts.length_messageOf hlong
    omega
  · exact not_sends_nil hsends (netUdpSend_silent hup htaken)

theorem udpSendExact_iff {s : Net} (hup : s.Attached) (cmdArgs : CString)
    (macOf : IpAddress → MacAddress)
    (hresolved : ∀ ip, parseIp (cutWord cmdArgs.chars) = some ip →
      s.arpResolve ip = some (macOf ip)) :
    s.UdpSendExact cmdArgs ↔ ¬ LooseLine cmdArgs.chars := by
  constructor
  · rintro ⟨hline, hother⟩ hloose
    by_cases hwell : ∃ ip port message, IsLine cmdArgs.chars ip port message
    · obtain ⟨ip, port, message, h⟩ := hwell
      obtain ⟨address, digits, a, b, hparts, haddress, hvalue, hport, -⟩ := h.parts
      rcases Nat.lt_or_ge 31 address.length with hlong | hshort
      · exact not_sends_long hup hresolved hparts hlong ip port (hline ip port message h)
      · rw [LooseLine, hparts.firstWord_eq, hparts.portDigits_eq hshort,
          hparts.behindPort_eq hshort] at hloose
        rcases hloose with ⟨hlong, -⟩ | ⟨-, hlong | hloose | hempty | hlarge | hspace⟩
        · omega
        · omega
        · exact (exists_isAddress_iff.mp ⟨ip, haddress⟩).2 hloose
        · exact hparts.digits_ne hempty
        · omega
        · exact hspace rfl
    · rcases hloose with ⟨-, h⟩ | ⟨htaken, -⟩
      · exact hwell h
      · obtain ⟨ip, hparse⟩ := exists_parseIp htaken.1
        exact not_sends_nil (netUdpSend_sends hup htaken hparse (hresolved ip hparse))
          (hother hwell)
  · intro htight
    refine ⟨fun ip port message hline => ?_, fun hno => ?_⟩
    · obtain ⟨address, digits, a, b, hparts, haddress, hvalue, hport, hfits⟩ := hline.parts
      have hshort : address.length ≤ 31 := Nat.le_of_not_lt fun hlong => htight (.inl ⟨by
        rw [hparts.firstWord_eq]
        exact hlong, ip, port, message, hline⟩)
      have hcut := hparts.cutWord_eq hshort
      have hparse : parseIp (cutWord cmdArgs.chars) = some ip := by
        rw [hcut]
        exact parseIp_of_isAddress haddress
      have htaken : Taken cmdArgs.chars := by
        rw [Taken, hcut, hparts.behindPort_eq hshort, hparts.messageOf_eq hshort]
        exact ⟨haddress.1, List.cons_ne_nil _ _, hfits⟩
      have hsends := netUdpSend_sends hup htaken hparse (hresolved ip hparse)
      rw [hparts.portDigits_eq hshort, hparts.messageOf_eq hshort, hvalue,
        Nat.mod_eq_of_lt (by omega)] at hsends
      exact hsends
    · exact netUdpSend_silent hup fun htaken => hno (exists_isLine htaken htight)

end Net

/-- Both commands send exactly what a well-formed argument names, and nothing for every other
argument, if and only if the argument of `ping` is not a loose address and that of `udpsend`
not a loose line. The device is there and the addresses that they send to are resolved. -/
theorem address_commands_exact_iff (s : Net) (hup : s.Attached)
    (macOf : IpAddress → MacAddress) (wait : Net → Net) (pingArgs udpArgs : CString)
    (hping : ∀ ip, parseIp pingArgs.chars = some ip → s.arpResolve ip = some (macOf ip))
    (hudp : ∀ ip, parseIp (cutWord udpArgs.chars) = some ip →
      s.arpResolve ip = some (macOf ip)) :
    (s.PingExact pingArgs wait macOf ↔ ¬ LooseAddress pingArgs.chars) ∧
      (s.UdpSendExact udpArgs ↔ ¬ LooseLine udpArgs.chars) :=
  ⟨Net.pingExact_iff hup pingArgs wait macOf hping, Net.udpSendExact_iff hup udpArgs macOf hudp⟩

/-- The responder when it has heard from 10.0.2.2. -/
def sampleResolved : Net :=
  { sampleListen.net with
    arpCache := fun i => ⟨client, #v[0x52, 0x54, 0, 0x12, 0x35, 2], i.val = 0⟩ }

theorem address_commands_exact_sample :
    sampleResolved.PingExact (.ofLiteral "10.0.2.2") id
        (fun _ => #v[0x52, 0x54, 0, 0x12, 0x35, 2]) ∧
      sampleResolved.UdpSendExact (.ofLiteral "10.0.2.2 80 hello") := by
  have hping : parseIp (CString.ofLiteral "10.0.2.2").chars = some client := by decide +kernel
  have hudp : parseIp (cutWord (CString.ofLiteral "10.0.2.2 80 hello").chars) = some client := by
    decide +kernel
  have hmac : sampleResolved.arpResolve client = some #v[0x52, 0x54, 0, 0x12, 0x35, 2] := by decide
  have hiff := address_commands_exact_iff sampleResolved ⟨rfl, by decide⟩
    (fun _ => #v[0x52, 0x54, 0, 0x12, 0x35, 2]) id (.ofLiteral "10.0.2.2")
    (.ofLiteral "10.0.2.2 80 hello")
    (fun ip h => Option.some_inj.mp (hping.symm.trans h) ▸ hmac)
    (fun ip h => Option.some_inj.mp (hudp.symm.trans h) ▸ hmac)
  refine ⟨hiff.1.mpr (by decide +kernel), hiff.2.mpr ?_⟩
  rintro (⟨hlong, -⟩ | ⟨-, hbad⟩)
  · exact absurd hlong (by decide +kernel)
  · exact absurd hbad (by decide +kernel)

/-- A ping of 10.0.2.258 goes to 10.0.2.2. -/
theorem ping_over_255_sent :
    ¬ sampleResolved.PingExact (.ofLiteral "10.0.2.258") id
      (fun _ => #v[0x52, 0x54, 0, 0x12, 0x35, 2]) := by
  rintro ⟨-, hother⟩
  have hparse : parseIp (CString.ofLiteral "10.0.2.258").chars = some client := by decide +kernel
  have hmac : sampleResolved.arpResolve client = some #v[0x52, 0x54, 0, 0x12, 0x35, 2] := by decide
  have hloose : LooseAddress (CString.ofLiteral "10.0.2.258").chars := by decide +kernel
  exact Net.not_sends_nil (Net.netPing_sends ⟨rfl, by decide⟩ hparse hmac)
    (hother fun haddress => (exists_isAddress_iff.mp haddress).2 hloose)

end Newrex
