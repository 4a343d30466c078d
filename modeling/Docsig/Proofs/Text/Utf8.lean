import Docsig.Proofs.Result
import Docsig.Text.Utf8

/-!
UTF-8 read back.

A character beyond ASCII is a lead byte and the bytes that it announces. `Pending.Takes` says
which bytes finish a character that has begun, and to which code point; `lead_takes` is the
arithmetic: what a lead byte announces is what some character is written with, so that overlong
forms, surrogates and code points beyond the last have no lead.

* `toUTF8_eq`: a text is written with the bytes that strings are stored in.
* `decode_eq_ok`: the bytes of a text, and no others, are read as that text.
* `decodeSource_encode`, `decodeSource_mark`: of a source one byte order mark at the start is
  left out.
* `exists_decodeSource_iff`: a source has a text exactly if its bytes are valid.
-/

namespace Docsig.Text.Utf8

variable {c : Char} {cs : List Char} {b : UInt8} {bs tail : List UInt8} {n : Nat}

/-! ### Written characters -/

theorem encodeChar_one (h : c.toNat < 0x80) : encodeChar c = [UInt8.ofNat c.toNat] := if_pos h

theorem encodeChar_two (low : 0x80 ≤ c.toNat) (high : c.toNat < 0x800) :
    encodeChar c = [UInt8.ofNat (0xC0 + c.toNat / 64), UInt8.ofNat (0x80 + c.toNat % 64)] := by
  simp only [encodeChar]
  rw [if_neg (by omega), if_pos high]
  simp

theorem encodeChar_three (low : 0x800 ≤ c.toNat) (high : c.toNat < 0x10000) :
    encodeChar c = [UInt8.ofNat (0xE0 + c.toNat / 4096), UInt8.ofNat (0x80 + c.toNat / 64 % 64),
      UInt8.ofNat (0x80 + c.toNat % 64)] := by
  simp only [encodeChar]
  rw [if_neg (by omega), if_neg (by omega), if_pos high]
  simp

theorem encodeChar_four (low : 0x10000 ≤ c.toNat) :
    encodeChar c = [UInt8.ofNat (0xF0 + c.toNat / 262144),
      UInt8.ofNat (0x80 + c.toNat / 4096 % 64), UInt8.ofNat (0x80 + c.toNat / 64 % 64),
      UInt8.ofNat (0x80 + c.toNat % 64)] := by
  simp only [encodeChar]
  rw [if_neg (by omega), if_neg (by omega), if_neg (by omega)]
  simp

/-- **A character is written as strings are stored.** -/
theorem encodeChar_eq (c : Char) : encodeChar c = String.utf8EncodeChar c := by
  have value : c.val.toNat = c.toNat := rfl
  have range : c.toNat < 0xD800 ∨ 0xDFFF < c.toNat ∧ c.toNat < 0x110000 := c.valid
  unfold String.utf8EncodeChar
  dsimp only
  rw [value]
  split
  · rw [encodeChar_one (by omega)]
  split
  · rw [encodeChar_two (by omega) (by omega), Nat.add_comm 0x80, Nat.add_comm 0xC0,
      Nat.mod_eq_of_lt (by omega : c.toNat / 64 < 0x20)]
  split
  · rw [encodeChar_three (by omega) (by omega), Nat.add_comm 0x80, Nat.add_comm 0x80,
      Nat.add_comm 0xE0, Nat.mod_eq_of_lt (by omega : c.toNat / 4096 < 0x10)]
  · rw [encodeChar_four (by omega), Nat.add_comm 0x80, Nat.add_comm 0x80, Nat.add_comm 0x80,
      Nat.add_comm 0xF0, Nat.mod_eq_of_lt (by omega : c.toNat / 262144 < 0x08)]

theorem exists_encodeChar (c : Char) : ∃ b tail, encodeChar c = b :: tail :=
  List.exists_cons_of_ne_nil (encodeChar_eq c ▸ String.utf8EncodeChar_ne_nil)

/-- **A text is written as strings are stored.** -/
theorem toUTF8_eq (s : String) : s.toUTF8.data.toList = encode s.toList := by
  have same : encodeChar = String.utf8EncodeChar := funext encodeChar_eq
  rw [encode, same, String.toUTF8_eq_toByteArray, ← String.utf8Encode_toList, List.utf8Encode,
    List.toList_data_toByteArray]

/-! ### Characters beyond ASCII -/

/-- The bytes that finish a character that has begun, and its code point. -/
inductive Pending.Takes : Pending → List UInt8 → Nat → Prop
  | last {bits low high n : Nat} {b : UInt8} : low ≤ b.toNat → b.toNat ≤ high →
      n = bits * 64 + (b.toNat - 0x80) → Takes ⟨1, bits, low, high⟩ [b] n
  | more {more bits low high n : Nat} {b : UInt8} {bs : List UInt8} :
      low ≤ b.toNat → b.toNat ≤ high →
      Takes ⟨more + 1, bits * 64 + (b.toNat - 0x80), 0x80, 0xBF⟩ bs n →
      Takes ⟨more + 2, bits, low, high⟩ (b :: bs) n

/-- A character that has begun is read up to the bytes that finish it. -/
theorem decodeFrom_some_eq_ok {more bits low high : Nat} :
    decodeFrom (some ⟨more + 1, bits, low, high⟩) bs = .ok cs ↔
      ∃ tail n rest ds, bs = tail ++ rest ∧ Pending.Takes ⟨more + 1, bits, low, high⟩ tail n ∧
        decodeFrom none rest = .ok ds ∧ cs = Char.ofNat n :: ds := by
  -- by induction on the bytes; the number of those still due goes down with each
  induction bs generalizing more bits low high with
  | nil =>
      refine iff_of_false nofun ?_
      rintro ⟨tail, n, rest, ds, empty, takes, -⟩
      cases takes <;> cases empty
  | cons b bs ih =>
      rw [decodeFrom, guard_eq_ok]
      simp only [Bool.or_eq_true, decide_eq_true_eq, not_or, Nat.not_lt]
      constructor
      · rintro ⟨⟨above, below⟩, h⟩
        cases more with
        | zero =>
            obtain ⟨ds, read, h⟩ := bind_eq_ok.mp h
            cases h
            exact ⟨[b], _, bs, ds, rfl, .last above below rfl, read, rfl⟩
        | succ more =>
            obtain ⟨tail, n, rest, ds, rfl, takes, read, eq⟩ := ih.mp h
            exact ⟨b :: tail, n, rest, ds, rfl, .more above below takes, read, eq⟩
      · rintro ⟨tail, n, rest, ds, eq, takes, read, rfl⟩
        cases takes with
        | last above below value =>
            cases eq
            exact ⟨⟨above, below⟩, bind_eq_ok.mpr ⟨ds, read, value ▸ rfl⟩⟩
        | more above below takes =>
            cases eq
            exact ⟨⟨above, below⟩, ih.mpr ⟨_, n, rest, ds, rfl, takes, read, rfl⟩⟩

theorem exists_char (h : n < 0xD800 ∨ 0xDFFF < n ∧ n < 0x110000) : ∃ c : Char, c.toNat = n :=
  ⟨Char.ofNatAux n h, rfl⟩

theorem takes_last {bits low high : Nat} : Pending.Takes ⟨1, bits, low, high⟩ tail n ↔
    ∃ b : UInt8, tail = [b] ∧ (low ≤ b.toNat ∧ b.toNat ≤ high) ∧
      n = bits * 64 + (b.toNat - 0x80) := by
  constructor
  · intro takes
    cases takes with
    | last above below value => exact ⟨_, rfl, ⟨above, below⟩, value⟩
  · rintro ⟨b, rfl, ⟨above, below⟩, value⟩
    exact .last above below value

theorem takes_more {more bits low high : Nat} :
    Pending.Takes ⟨more + 2, bits, low, high⟩ tail n ↔
      ∃ (b : UInt8) (bs : List UInt8), tail = b :: bs ∧ (low ≤ b.toNat ∧ b.toNat ≤ high) ∧
        Pending.Takes ⟨more + 1, bits * 64 + (b.toNat - 0x80), 0x80, 0xBF⟩ bs n := by
  constructor
  · intro takes
    cases takes with
    | more above below takes => exact ⟨_, _, rfl, ⟨above, below⟩, takes⟩
  · rintro ⟨b, bs, rfl, ⟨above, below⟩, takes⟩
    exact .more above below takes

theorem toNat_ofNat_byte {x : Nat} (h : x < 256) : (UInt8.ofNat x).toNat = x :=
  UInt8.toNat_ofNat_of_lt' h

/-- The range of the second byte, which is shorter after some lead bytes. -/
theorem between_ite {lead first last low high short tall x : Nat} :
    ((if lead = first then short else low) ≤ x ∧ x ≤ if lead = last then tall else high) ↔
      (lead = first → short ≤ x) ∧ (lead ≠ first → low ≤ x) ∧
        (lead = last → x ≤ tall) ∧ (lead ≠ last → x ≤ high) := by
  split <;> split <;> omega

/-- What a lead byte announces is a character, written with these bytes. -/
theorem exists_written {l : Lead} (lead : lead? b.toNat = some l)
    (takes : Pending.Takes ⟨l.more, l.bits, l.low, l.high⟩ tail n) :
    ∃ c : Char, 0x80 ≤ c.toNat ∧ encodeChar c = b :: tail ∧ c.toNat = n := by
  unfold lead? at lead
  split at lead
  · cases lead
  split at lead
  · -- Two bytes.
    cases lead
    dsimp only at takes
    obtain ⟨x, rfl, range, value⟩ := takes_last.mp takes
    obtain ⟨c, rfl⟩ := exists_char (n := n) (by omega)
    refine ⟨c, by omega, ?_, rfl⟩
    rw [encodeChar_two (by omega) (by omega)]
    simp only [List.cons.injEq, and_true, UInt8.ofNat_eq_iff_mod_eq_toNat]
    omega
  split at lead
  · -- Three bytes.
    cases lead
    dsimp only at takes
    obtain ⟨x, _, rfl, first, takes⟩ := takes_more.mp takes
    rw [between_ite] at first
    obtain ⟨y, rfl, range, value⟩ := takes_last.mp takes
    obtain ⟨c, rfl⟩ := exists_char (n := n) (by omega)
    refine ⟨c, by omega, ?_, rfl⟩
    rw [encodeChar_three (by omega) (by omega)]
    simp only [List.cons.injEq, and_true, UInt8.ofNat_eq_iff_mod_eq_toNat]
    omega
  split at lead
  · -- Four bytes.
    cases lead
    dsimp only at takes
    obtain ⟨x, _, rfl, first, takes⟩ := takes_more.mp takes
    rw [between_ite] at first
    obtain ⟨y, _, rfl, second, takes⟩ := takes_more.mp takes
    obtain ⟨z, rfl, range, value⟩ := takes_last.mp takes
    obtain ⟨c, rfl⟩ := exists_char (n := n) (by omega)
    refine ⟨c, by omega, ?_, rfl⟩
    rw [encodeChar_four (by omega)]
    simp only [List.cons.injEq, and_true, UInt8.ofNat_eq_iff_mod_eq_toNat]
    omega
  · cases lead

/-- The first byte of a character beyond ASCII announces the others. -/
theorem exists_lead (beyond : 0x80 ≤ c.toNat) (written : encodeChar c = b :: tail) :
    ∃ l, lead? b.toNat = some l ∧
      Pending.Takes ⟨l.more, l.bits, l.low, l.high⟩ tail c.toNat := by
  -- the character decides on the number of bytes, and they on the lead
  have range : c.toNat < 0xD800 ∨ 0xDFFF < c.toNat ∧ c.toNat < 0x110000 := c.valid
  rcases Nat.lt_or_ge c.toNat 0x800 with two | more
  · rw [encodeChar_two beyond two] at written
    cases written
    rw [toNat_ofNat_byte (by omega), lead?, if_neg (by omega), if_pos (by omega)]
    refine ⟨_, rfl, takes_last.mpr ⟨_, rfl, ?_⟩⟩
    rw [toNat_ofNat_byte (by omega)]
    dsimp only
    omega
  rcases Nat.lt_or_ge c.toNat 0x10000 with three | four
  · rw [encodeChar_three more three] at written
    cases written
    rw [toNat_ofNat_byte (by omega), lead?, if_neg (by omega), if_neg (by omega),
      if_pos (by omega)]
    refine ⟨_, rfl, takes_more.mpr ⟨_, _, rfl, ?_, takes_last.mpr ⟨_, rfl, ?_⟩⟩⟩
    · rw [between_ite, toNat_ofNat_byte (by omega)]
      omega
    · rw [toNat_ofNat_byte (by omega), toNat_ofNat_byte (by omega)]
      dsimp only
      omega
  · rw [encodeChar_four four] at written
    cases written
    rw [toNat_ofNat_byte (by omega), lead?, if_neg (by omega), if_neg (by omega),
      if_neg (by omega), if_pos (by omega)]
    refine ⟨_, rfl, takes_more.mpr ⟨_, _, rfl, ?_, takes_more.mpr ⟨_, _, rfl, ?_,
      takes_last.mpr ⟨_, rfl, ?_⟩⟩⟩⟩
    · rw [between_ite, toNat_ofNat_byte (by omega)]
      omega
    · rw [toNat_ofNat_byte (by omega)]
      omega
    · rw [toNat_ofNat_byte (by omega), toNat_ofNat_byte (by omega),
        toNat_ofNat_byte (by omega)]
      dsimp only
      omega

/-- **What a lead byte announces is what some character is written with.** -/
theorem lead_takes :
    (∃ l, lead? b.toNat = some l ∧ Pending.Takes ⟨l.more, l.bits, l.low, l.high⟩ tail n) ↔
      ∃ c : Char, 0x80 ≤ c.toNat ∧ encodeChar c = b :: tail ∧ c.toNat = n := by
  constructor
  · rintro ⟨l, lead, takes⟩
    exact exists_written lead takes
  · rintro ⟨c, beyond, written, rfl⟩
    exact exists_lead beyond written

/-! ### Texts -/

/-- A lead byte is beyond ASCII and announces some bytes. -/
theorem lead_bounds {l : Lead} (h : lead? b.toNat = some l) :
    0x80 ≤ b.toNat ∧ ∃ more, l.more = more + 1 := by
  unfold lead? at h
  split at h
  · cases h
  refine ⟨by omega, ?_⟩
  split at h
  · cases h
    exact ⟨0, rfl⟩
  split at h
  · cases h
    exact ⟨1, rfl⟩
  split at h
  · cases h
    exact ⟨2, rfl⟩
  · cases h

/-- **What is read starts with a character as it is written.** -/
theorem decodeFrom_cons_eq_ok : decodeFrom none (b :: bs) = .ok cs ↔
    ∃ c rest ds, b :: bs = encodeChar c ++ rest ∧ decodeFrom none rest = .ok ds ∧
      cs = c :: ds := by
  rw [decodeFrom]
  constructor
  · intro h
    -- a byte of ASCII, or a lead with the bytes that it is due
    split at h
    · rename_i ascii
      obtain ⟨c, value⟩ := exists_char (n := b.toNat) (by omega)
      obtain ⟨ds, read, h⟩ := bind_eq_ok.mp h
      cases h
      refine ⟨c, bs, ds, ?_, read, by rw [← value, Char.ofNat_toNat]⟩
      rw [encodeChar_one (by omega), value, UInt8.ofNat_toNat]
      rfl
    · split at h
      · cases h
      · rename_i l lead
        obtain ⟨-, more, length⟩ := lead_bounds lead
        rw [length, decodeFrom_some_eq_ok, ← length] at h
        obtain ⟨tail, n, rest, ds, rfl, takes, read, rfl⟩ := h
        obtain ⟨c, -, written, rfl⟩ := lead_takes.mp ⟨l, lead, takes⟩
        exact ⟨c, rest, ds, by rw [written]; rfl, read, by rw [Char.ofNat_toNat]⟩
  · rintro ⟨c, rest, ds, eq, read, rfl⟩
    rcases Nat.lt_or_ge c.toNat 0x80 with ascii | beyond
    · rw [encodeChar_one ascii] at eq
      cases eq
      rw [toNat_ofNat_byte (by omega), if_pos ascii, Char.ofNat_toNat]
      exact bind_eq_ok.mpr ⟨ds, read, rfl⟩
    · obtain ⟨first, tail, written⟩ := exists_encodeChar c
      rw [written] at eq
      cases eq
      obtain ⟨l, lead, takes⟩ := lead_takes.mpr ⟨c, beyond, written, rfl⟩
      obtain ⟨high, more, length⟩ := lead_bounds lead
      rw [if_neg (Nat.not_lt.mpr high), lead]
      dsimp only
      rw [length, decodeFrom_some_eq_ok, ← length]
      exact ⟨tail, _, rest, ds, rfl, takes, read, by rw [Char.ofNat_toNat]⟩

/-- **The bytes of a text, and no others, are read as that text.** -/
theorem decode_eq_ok : decode bs = .ok cs ↔ bs = encode cs := by
  constructor
  · intro h
    -- by induction on the characters in both directions, one character of the text for its
    -- bytes
    induction cs generalizing bs with
    | nil =>
        cases bs with
        | nil => rfl
        | cons b bs =>
            obtain ⟨c, rest, ds, -, -, eq⟩ := decodeFrom_cons_eq_ok.mp h
            cases eq
    | cons c cs ih =>
        cases bs with
        | nil => cases h
        | cons b bs =>
            obtain ⟨c, rest, ds, eq, read, same⟩ := decodeFrom_cons_eq_ok.mp h
            cases same
            rw [eq, ih read]
            rfl
  · rintro rfl
    induction cs with
    | nil => rfl
    | cons c cs ih =>
        obtain ⟨first, tail, written⟩ := exists_encodeChar c
        have whole : encode (c :: cs) = first :: (tail ++ encode cs) := by
          rw [encode, List.flatMap_cons, written]
          rfl
        rw [whole]
        exact decodeFrom_cons_eq_ok.mpr ⟨c, encode cs, cs, by rw [written]; rfl, ih, rfl⟩

/-- Bytes are valid exactly if they are read as some text. -/
theorem isValidUTF8_iff : bs.toByteArray.IsValidUTF8 ↔ ∃ cs, decode bs = .ok cs := by
  have same : encodeChar = String.utf8EncodeChar := funext encodeChar_eq
  simp only [decode_eq_ok, encode, same]
  constructor
  · rintro ⟨cs, eq⟩
    refine ⟨cs, ?_⟩
    rw [← List.toList_data_toByteArray (l := bs), eq, List.utf8Encode,
      List.toList_data_toByteArray]
  · rintro ⟨cs, rfl⟩
    exact ⟨cs, rfl⟩

/-! ### Byte order marks -/

/-- A byte order mark is read as a character of its own. -/
theorem decode_mark (bs : List UInt8) :
    decode (0xEF :: 0xBB :: 0xBF :: bs) = decode bs >>= fun cs => .ok ('\uFEFF' :: cs) := rfl

theorem decodeSource_mark (bs : List UInt8) :
    decodeSource (0xEF :: 0xBB :: 0xBF :: bs) = decode bs := rfl

theorem decodeSource_of_not_mark (h : ∀ rest, bs ≠ 0xEF :: 0xBB :: 0xBF :: rest) :
    decodeSource bs = decode bs := by
  unfold decodeSource
  split
  · rename_i rest
    exact (h rest rfl).elim
  · rfl

/-- **A text that does not start with a mark is read back** from its bytes. -/
theorem decodeSource_encode (h : cs.head? ≠ some '\uFEFF') : decodeSource (encode cs) = .ok cs := by
  rw [decodeSource_of_not_mark, decode_eq_ok]
  intro rest eq
  have read : decode (encode cs) = .ok cs := decode_eq_ok.mpr rfl
  rw [eq, decode_mark] at read
  obtain ⟨ds, -, eq⟩ := bind_eq_ok.mp read
  cases eq
  exact h rfl

/-- A source has a text exactly if its bytes are valid. -/
theorem exists_decodeSource_iff :
    (∃ cs, decodeSource bs = .ok cs) ↔ bs.toByteArray.IsValidUTF8 := by
  rw [isValidUTF8_iff]
  by_cases mark : ∃ rest, bs = 0xEF :: 0xBB :: 0xBF :: rest
  · obtain ⟨rest, rfl⟩ := mark
    rw [decodeSource_mark, decode_mark]
    exact exists_bind_pure_iff.symm
  · rw [decodeSource_of_not_mark fun rest eq => mark ⟨rest, eq⟩]

end Docsig.Text.Utf8
