import Newrex.RexFS.Files

/-!
# RexFS: writing a file in hexadecimal

`HexSpells` says that a string spells bytes in hexadecimal, in the notation that
`rexfs_writehex` takes. `parseHexBytes_spelled` is the decoder's side of it, and
`write_writehex_agree` the result: with a spelled text, `rexfs_writehex` does to the disk
what `rexfs_write` does with the text itself.
-/

namespace Newrex

open RexFS

/-! ## The notation -/

/-- The characters for one hexadecimal digit. -/
def digitChars (v : Nat) : List UInt8 :=
  if v < 10 then [UInt8.ofNat (48 + v)] else [UInt8.ofNat (87 + v), UInt8.ofNat (55 + v)]

/-- `hex` spells `bytes`: two digits for each byte, in either case, and any number of spaces
behind a byte. -/
inductive HexSpells : (bytes hex : List UInt8) → Prop
  | nil : HexSpells [] []
  | byte {b high low : UInt8} {bytes hex : List UInt8} (spaces : Nat) :
      high ∈ digitChars (b.toNat / 16) → low ∈ digitChars (b.toNat % 16) → HexSpells bytes hex →
      HexSpells (b :: bytes) (high :: low :: (List.replicate spaces 32 ++ hex))

/-! ## The decoder -/

theorem hexDigit_of_mem :
    ∀ v, v < 16 → ∀ c, c ∈ digitChars v → (hexDigit c).toNat = v ∧ c ≠ 32 := by
  decide +kernel

/-- Two digits give the byte they spell. -/
theorem hexDigits_byte {b high low : UInt8} (hhigh : high ∈ digitChars (b.toNat / 16))
    (hlow : low ∈ digitChars (b.toNat % 16)) : (hexDigit high <<< 4) + hexDigit low = b := by
  have hb := b.toNat_lt
  have h1 := (hexDigit_of_mem _ (by omega) high hhigh).1
  have h2 := (hexDigit_of_mem _ (by omega) low hlow).1
  have h4 : (4 : UInt8).toNat % 8 = 4 := rfl
  refine UInt8.toNat.inj ?_
  rw [UInt8.toNat_add, UInt8.toNat_shiftLeft, h1, h2, h4, Nat.shiftLeft_eq]
  omega

/-- Leading spaces are skipped. -/
theorem parseHexBytes_spaces (n : Nat) (hex : List UInt8) :
    parseHexBytes (List.replicate n 32 ++ hex) = parseHexBytes hex := by
  induction n with
  | zero => rfl
  | succ n ih =>
    rw [← ih, List.replicate_succ, List.cons_append]
    cases List.replicate n 32 ++ hex with
    | nil => rfl
    | cons c rest => rw [parseHexBytes, if_pos rfl]

theorem parseHexBytes_spelled {bytes hex : List UInt8} (h : HexSpells bytes hex) :
    parseHexBytes hex = (bytes, false) := by
  induction h with
  | nil => rfl
  | @byte b high low bytes hex spaces hhigh hlow _ ih =>
    have hb := b.toNat_lt
    have hne := (hexDigit_of_mem _ (by omega) high hhigh).2
    rw [parseHexBytes, if_neg hne, parseHexBytes_spaces, ih, hexDigits_byte hhigh hlow]

/-- A string that spells bytes starts with no space. -/
theorem HexSpells.head {bytes hex : List UInt8} (h : HexSpells bytes hex) :
    hex.head? ≠ some 32 := by
  cases h with
  | nil => decide
  | @byte b high low bytes hex spaces hhigh _ _ =>
    have hb := b.toNat_lt
    have hne := (hexDigit_of_mem _ (by omega) high hhigh).2
    simpa using hne

/-! ## The two commands -/

/-- The messages of `storePayload` are the only difference that its first two arguments
make. -/
theorem storePayload_messages (tooLarge written tooLarge' written' : String) (st : RexFS) (s : Slot)
    (ino : NrInode) (data : List UInt8) :
    (storePayload tooLarge written st s ino data).1.disk =
        (storePayload tooLarge' written' st s ino data).1.disk ∧
      (storePayload tooLarge written st s ino data).1.writes =
        (storePayload tooLarge' written' st s ino data).1.writes ∧
      (storePayload tooLarge written st s ino data).2 =
        (storePayload tooLarge' written' st s ino data).2 := by
  unfold storePayload
  split
  · exact ⟨rfl, rfl, rfl⟩
  · split
    · exact ⟨rfl, rfl, rfl⟩
    · exact ⟨rfl, rfl, rfl⟩

/-- `write` and `writehex` agree. On every state, `rexfs_writehex` with a text spelled in
hexadecimal and a buffer from `kmalloc` leaves the disk that `rexfs_write` leaves with the
text itself. They make the same sector writes in the same order, and leave through the same
exit. -/
theorem write_writehex_agree (st : RexFS) {name text hex : CString} (hspace : 32 ∉ name.chars)
    (hlen : name.chars.length ≤ 27) (hhead : text.chars.head? ≠ some 32)
    (hhex : HexSpells text.chars hex.chars) {binBuf : UInt32} (hbuf : binBuf ≠ 0) :
    let write := st.rexfsWrite (writeArgs name text)
    let writehex := st.rexfsWritehex (writeArgs name hex) binBuf
    write.1.disk = writehex.1.disk ∧ write.1.writes = writehex.1.writes ∧ write.2 = writehex.2 := by
  have hargs : ∀ t, (writeArgs name t).chars ≠ [] := fun t => by rw [writeArgs_chars]; simp
  simp only [rexfsWrite, rexfsWritehex, if_neg (hargs _), payloadOf_writeArgs hspace hlen hhead,
    payloadOf_writeArgs hspace hlen hhex.head, filenameOf_writeArgs hspace hlen, if_neg hbuf,
    parseHexBytes_spelled hhex, Bool.false_eq_true, if_false]
  split
  · exact ⟨rfl, rfl, rfl⟩
  · split
    · exact ⟨rfl, rfl, rfl⟩
    · exact storePayload_messages _ _ _ _ _ _ _ _

/-- `jk` in hexadecimal. -/
theorem write_writehex_agree_sample :
    (sampleRun.rexfsWrite (writeArgs (.ofBuffer [97]) (.ofLiteral "jk"))).1.disk =
      (sampleRun.rexfsWritehex (writeArgs (.ofBuffer [97]) (.ofLiteral "6a  6B")) 0x100000).1.disk :=
  (write_writehex_agree sampleRun (by decide) (by decide) (by decide)
    (.byte 2 (by decide) (by decide) (.byte 0 (by decide) (by decide) .nil)) (by decide)).1

end Newrex
