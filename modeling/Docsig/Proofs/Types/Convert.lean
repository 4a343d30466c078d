import Docsig.Proofs.Definition.Entries
import Docsig.Proofs.Json.RoundTrip
import Docsig.Proofs.Number.Double
import Docsig.Proofs.Text.Base64
import Docsig.Proofs.Types.Validate
import Docsig.Types.Convert

/-!
What a text converts to.

Each reader of `convert` has two lemmas: what it gives, and which faults it ends with.
Arithmetic is never done on what is no number, since `numeral` refuses it before, and no
byte is made of a value that `isByte` has not let through.

* `convert_valid`: what a text converts to belongs to the type.
* `convert_reports`: it converts or ends with the fault of a conversion, unless it holds
  base64 text that is not ASCII.
* `convert_text`: the JSON text of a list or an object converts to it.
* `convert_bytes`: so does the JSON text of bytes, and that of an object that lists them.
-/

namespace Docsig

namespace Conversion

variable {type : Tag} {s : String} {v : Value} {n : Numeral}

/-- Every fault that a step ends with is raised as one of a conversion. -/
abbrev Reporting {α : Type} (x : Except Fault α) : Prop :=
  FailsOnly (fun fault => fault.isReported = true) x

/-! ### Numbers -/

/-- What is read as a numeral is a number. -/
theorem numeral_finite (h : numeral type s = .ok n) :
    ∃ negative coefficient exponent, n = .finite negative coefficient exponent := by
  unfold numeral at h
  dsimp only at h
  split at h
  · cases h
  · split at h
    · cases h
    · cases h
    · rename_i special _
      cases h
      cases n with
      | finite negative coefficient exponent => exact ⟨negative, coefficient, exponent, rfl⟩
      | nonFinite => exact absurd rfl special

theorem numeral_reporting (type : Tag) (s : String) : Reporting (numeral type s) := by
  unfold numeral
  dsimp only
  refine .guard rfl fun _ => ?_
  split
  · exact .error rfl
  · exact .error rfl
  · exact .ok _

/-- The nearest double is finite. -/
theorem nearestDouble_ok (h : nearestDouble type s n = .ok v) :
    ∃ d, v = .float d ∧ d.isFinite = true := by
  unfold nearestDouble at h
  split at h
  · cases h
  · split at h
    · rename_i finite
      cases h
      exact ⟨_, rfl, finite⟩
    · cases h

theorem nearestDouble_reporting (type : Tag) (s : String) (negative : Bool) (coefficient : Nat)
    (exponent : Int) :
    Reporting (nearestDouble type s (.finite negative coefficient exponent)) := by
  rw [nearestDouble]
  · split
    · exact .ok _
    · exact .error rfl
  · exact nofun

/-- A numeral is read as a finite double. -/
theorem number_ok (h : number type s = .ok v) : ∃ d, v = .float d ∧ d.isFinite = true := by
  obtain ⟨n, -, h⟩ := bind_eq_ok.mp h
  exact nearestDouble_ok h

theorem number_reporting (type : Tag) (s : String) : Reporting (number type s) := by
  refine .bind (numeral_reporting type s) fun n read => ?_
  obtain ⟨negative, coefficient, exponent, rfl⟩ := numeral_finite read
  exact nearestDouble_reporting type s negative coefficient exponent

/-- A numeral gives its own integer or a finite double. -/
theorem integer_ok (h : integer s = .ok v) :
    (∃ i, v = .int i) ∨ ∃ d, v = .float d ∧ d.isFinite = true := by
  obtain ⟨n, -, h⟩ := bind_eq_ok.mp h
  obtain ⟨whole?, -, h⟩ := bind_eq_ok.mp h
  cases whole? with
  | some i =>
      cases h
      exact .inl ⟨i, rfl⟩
  | none => exact .inr (nearestDouble_ok h)

theorem integer_reporting (s : String) : Reporting (integer s) := by
  refine .bind (numeral_reporting .integer s) fun n read => ?_
  obtain ⟨negative, coefficient, exponent, rfl⟩ := numeral_finite read
  refine .bind (.ok _) fun whole? _ => ?_
  cases whole? with
  | some i => exact .ok _
  | none => exact nearestDouble_reporting .integer s negative coefficient exponent

/-! ### Truth values -/

theorem boolean_ok (h : boolean s = .ok v) : ∃ b, v = .bool b := by
  unfold boolean at h
  dsimp only at h
  split at h
  · cases h
    exact ⟨true, rfl⟩
  · split at h
    · cases h
      exact ⟨false, rfl⟩
    · cases h

theorem boolean_reporting (s : String) : Reporting (boolean s) := by
  unfold boolean
  dsimp only
  split
  · exact .ok _
  · split
    · exact .ok _
    · exact .error rfl

/-! ### JSON -/

theorem document_eq_ok : document type s = .ok v ↔ Json.read s.toList = .ok v := by
  rw [document]
  cases Json.read s.toList <;> simp

theorem document_reporting (type : Tag) (s : String) : Reporting (document type s) := by
  rw [document]
  split
  · exact .ok _
  · exact .error rfl

section Tested

variable {test : Value → Bool} {fault : Fault}

/-- What is read from a document that has to pass a test. -/
theorem tested_eq_ok :
    (document type s >>= fun v => if test v then .ok v else .error fault) = .ok v ↔
      Json.read s.toList = .ok v ∧ test v = true := by
  rw [bind_eq_ok]
  simp only [document_eq_ok]
  constructor
  · rintro ⟨u, read, h⟩
    split at h
    · rename_i passed
      cases h
      exact ⟨read, passed⟩
    · cases h
  · rintro ⟨read, passed⟩
    exact ⟨v, read, if_pos passed⟩

theorem tested_reporting (reported : fault.isReported = true) :
    Reporting (document type s >>= fun v => if test v then .ok v else .error fault) := by
  refine .bind (document_reporting type s) fun v _ => ?_
  split
  · exact .ok _
  · exact .error reported

end Tested

/-- An object is read from a document that holds one. -/
theorem object_eq_ok :
    object type s = .ok v ↔ Json.read s.toList = .ok v ∧ v.isObject = true :=
  tested_eq_ok

theorem object_reporting (type : Tag) (s : String) : Reporting (object type s) :=
  tested_reporting rfl

/-- A list is read from a document that holds one. -/
theorem array_eq_ok : array s = .ok v ↔ Json.read s.toList = .ok v ∧ v.isArray = true :=
  tested_eq_ok

theorem array_reporting (s : String) : Reporting (array s) :=
  tested_reporting rfl

/-! ### Bytes -/

/-- What counts as a byte can be made one. -/
theorem byteOf_isByte (h : isByte v = true) : ∃ b, byteOf v = .ok b := by
  obtain ⟨integer, range⟩ := Bool.and_eq_true_iff.mp h
  suffices ∃ n, integerOf? v = some n ∧ 0 ≤ n ∧ n ≤ 255 by
    obtain ⟨n, value, bounds⟩ := this
    refine ⟨UInt8.ofNat n.toNat, ?_⟩
    rw [byteOf, value]
    exact if_pos bounds
  cases v with
  | int n => exact ⟨n, rfl, by simpa using range⟩
  | float d =>
      rw [Value.isInteger] at integer
      split at integer
      · rename_i n value
        refine ⟨n, value, ?_⟩
        simpa [← Bool.not_eq_true, Double.ltInt_iff value, Double.gtInt_iff value] using range
      · cases integer
  | _ => cases range

theorem listedBytes_ok {listed : Value} (h : listedBytes listed = .ok v) :
    ∃ data, v = .bytes .fixed data := by
  unfold listedBytes at h
  split at h
  · split at h
    · obtain ⟨data, -, h⟩ := bind_eq_ok.mp h
      cases h
      exact ⟨data, rfl⟩
    · cases h
  · cases h

theorem listedBytes_reporting (v : Value) : Reporting (listedBytes v) := by
  unfold listedBytes
  split
  · split
    · rename_i items bytes
      refine .bind (.mapM fun x hx => ?_) fun data _ => .ok _
      obtain ⟨b, made⟩ := byteOf_isByte (List.all_eq_true.mp bytes x hx)
      rw [made]
      exact .ok b
    · exact .error rfl
  · exact .error rfl

theorem encodedBytes_ok {encoded : Value} (h : encodedBytes encoded = .ok v) :
    ∃ data, v = .bytes .fixed data := by
  unfold encodedBytes at h
  split at h
  · split at h
    · cases h
      exact ⟨_, rfl⟩
    · cases h
  · cases h

theorem encodedBytes_reporting {encoded : Value}
    (ascii : ∀ text, encoded = .text text → ∀ c ∈ text.toList, c.toNat < 128) :
    Reporting (encodedBytes encoded) := by
  unfold encodedBytes
  split
  · rename_i text
    split
    · exact .ok _
    · rename_i fault refused
      refine .error ?_
      cases fault with
      | notAscii =>
          obtain ⟨c, hc, beyond⟩ := Text.Base64.decode_eq_notAscii.mp refused
          exact absurd (ascii text rfl c hc) (Nat.not_lt.mpr beyond)
      | _ => rfl
  · exact .error rfl

/-- The number of a byte is made that byte again. -/
theorem byteOf_toNat (b : UInt8) :
    isByte (.int b.toNat) = true ∧ byteOf (.int b.toNat) = .ok b := by
  have byte := b.toNat_lt
  constructor
  · have safe : -maxSafeInteger ≤ b.toNat ∧ (b.toNat : Int) ≤ maxSafeInteger := by
      rw [maxSafeInteger]
      omega
    have range : (0 : Int) ≤ b.toNat ∧ (b.toNat : Int) ≤ 255 := by omega
    simp [isByte, Value.isInteger, safe, range]
  · rw [byteOf, integerOf?]
    dsimp only
    rw [if_pos (by omega), Int.toNat_natCast, UInt8.ofNat_toNat]

/-- Listed bytes are read back. -/
theorem listedBytes_map (data : List UInt8) :
    listedBytes (.list (data.map fun b => .int b.toNat)) = .ok (.bytes .fixed data) := by
  have bytes : (data.map fun b => Value.int b.toNat).all isByte = true := by
    rw [List.all_map, List.all_eq_true]
    exact fun b _ => (byteOf_toNat b).1
  have made : (data.map fun b => Value.int b.toNat).mapM byteOf = .ok data := by
    rw [mapM_eq_ok, List.forall₂_map_left_iff, List.forall₂_same]
    exact fun b _ => (byteOf_toNat b).2
  rw [listedBytes, if_pos bytes, made]
  rfl

/-- Encoded bytes are read back. -/
theorem encodedBytes_encode (data : List UInt8) :
    encodedBytes (.text (String.ofList (Text.Base64.encode data))) = .ok (.bytes .fixed data) := by
  rw [encodedBytes, String.toList_ofList, Text.Base64.decode_encode]

/-- A document of an object that encodes bytes by a text with a character beyond ASCII. -/
def EncodesBeyondAscii (s : String) : Prop :=
  ∃ kind fields text, Json.read s.toList = .ok (.map kind fields) ∧
    Value.field? "_bytes" fields = none ∧ Value.field? "_base64" fields = some (.text text) ∧
    ∃ c ∈ text.toList, 128 ≤ c.toNat

theorem buffer_ok (h : buffer s = .ok v) : ∃ data, v = .bytes .fixed data := by
  obtain ⟨wrapper, -, h⟩ := bind_eq_ok.mp h
  split at h
  · split at h
    · exact listedBytes_ok h
    · exact encodedBytes_ok h
    · cases h
  · cases h

/-- A document with the one field `_bytes` gives the bytes that it lists. -/
theorem buffer_listed {listed : Value}
    (read : Json.read s.toList = .ok (.dict [(.text "_bytes", listed)])) :
    buffer s = listedBytes listed := by
  rw [buffer, document_eq_ok.mpr read, ok_bind]
  rfl

/-- A document with the one field `_base64` gives the bytes that it encodes. -/
theorem buffer_encoded {encoded : Value}
    (read : Json.read s.toList = .ok (.dict [(.text "_base64", encoded)])) :
    buffer s = encodedBytes encoded := by
  rw [buffer, document_eq_ok.mpr read, ok_bind]
  rfl

/-- A character beyond ASCII in the encoded text is no conversion error. -/
theorem buffer_notAscii (h : EncodesBeyondAscii s) : buffer s = .error (.base64 .notAscii) := by
  obtain ⟨kind, fields, text, read, unlisted, encoded, beyond⟩ := h
  rw [buffer, document_eq_ok.mpr read, ok_bind]
  simp only [unlisted, encoded]
  rw [encodedBytes, Text.Base64.decode_eq_notAscii.mpr beyond]

theorem buffer_reporting (h : ¬ EncodesBeyondAscii s) : Reporting (buffer s) := by
  refine .bind (document_reporting .buffer s) fun wrapper read => ?_
  split
  · rename_i kind fields
    split
    · exact listedBytes_reporting _
    · rename_i encoded unlisted found
      refine encodedBytes_reporting ?_
      rintro text rfl c hc
      by_contra beyond
      exact h ⟨kind, fields, text, document_eq_ok.mp read, unlisted, found, c, hc,
        Nat.not_lt.mp beyond⟩
    · exact .error rfl
  · exact .error rfl

end Conversion

open Conversion

variable {type : String} {s : String} {v : Value}

/-! ### Conversion by the name of a type -/

theorem convert_name (tag : Tag) (s : String) : convert tag.name (.text s) = ofText tag s := by
  rw [convert, Tag.ofName?_name]

theorem convert_unknown (h : Tag.ofName? type = none) (s : String) :
    convert type (.text s) = .error (.unknownType type) := by
  rw [convert, h]

/-- A document that holds an object converts to it. -/
theorem convert_object (read : Json.read s.toList = .ok v) (h : v.isObject = true) :
    convert Tag.object.name (.text s) = .ok v := by
  rw [convert_name]
  exact object_eq_ok.mpr ⟨read, h⟩

/-- A document that holds a list converts to it. -/
theorem convert_array (read : Json.read s.toList = .ok v) (h : v.isArray = true) :
    convert Tag.array.name (.text s) = .ok v := by
  rw [convert_name]
  exact array_eq_ok.mpr ⟨read, h⟩

/-! ### Membership -/

/-- What is read as a number of any kind is an integer or a finite double. -/
theorem convert_number {tag : Tag} (numeric : tag ∈ [Tag.number, .float, .integer])
    (h : convert tag.name (.text s) = .ok v) :
    (∃ n, v = .int n) ∨ ∃ d, v = .float d ∧ d.isFinite = true := by
  rw [convert_name] at h
  simp only [List.mem_cons, List.not_mem_nil, or_false] at numeric
  rcases numeric with rfl | rfl | rfl
  · exact .inr (number_ok h)
  · exact .inr (number_ok h)
  · exact integer_ok h

theorem validate_number_iff :
    validate (some .number) v false [] = true ↔
      (∃ n, v = .int n) ∨ ∃ d, v = .float d ∧ d.isFinite = true := by
  rw [validate_number]
  cases v <;> simp [Value.isNumber]

/-- **What a text converts to belongs to the type**, an integer at least to the numbers,
and none of them is infinite, no number or a truth value. -/
theorem convert_valid (s : String) (v : Value) :
    (∀ tag ∈ [Tag.string, .number, .float, .boolean, .buffer, .object, .array, .query, .any],
      convert tag.name (.text s) = .ok v → validate (some tag) v false [] = true) ∧
    (convert Tag.integer.name (.text s) = .ok v → validate (some .number) v false [] = true) ∧
    ∀ tag ∈ [Tag.number, .float, .integer], convert tag.name (.text s) = .ok v →
      (∃ n, v = .int n) ∨ ∃ d, v = .float d ∧ d.isFinite = true := by
  refine ⟨fun tag covered h => ?_, fun h => ?_, fun tag numeric h => convert_number numeric h⟩
  -- one case per registered type; the three that the list leaves out are ruled out by it
  · cases tag with
    | string =>
        rw [convert_name] at h
        cases h
        rfl
    | number => exact validate_number_iff.mpr (convert_number (by decide) h)
    | float => exact validate_number_iff.mpr (convert_number (by decide) h)
    | boolean =>
        rw [convert_name] at h
        obtain ⟨b, rfl⟩ := boolean_ok h
        rfl
    | buffer =>
        rw [convert_name] at h
        obtain ⟨data, rfl⟩ := buffer_ok h
        rfl
    | object =>
        rw [convert_name] at h
        exact (object_eq_ok.mp h).2
    | array =>
        rw [convert_name] at h
        exact (array_eq_ok.mp h).2
    | query =>
        rw [convert_name] at h
        exact (object_eq_ok.mp h).2
    | any => rfl
    | integer => exact absurd covered (by decide)
    | enum => exact absurd covered (by decide)
    | limit => exact absurd covered (by decide)
  · exact validate_number_iff.mpr (convert_number (by decide) h)

theorem convert_valid_written :
    (∃ v, convert Tag.integer.name (.text " 1_2.5e1\n") = .ok v ∧
      validate (some .number) v false [] = true) ∧
    ∃ v, convert Tag.buffer.name (.text "\x7b\"_base64\": \"AQI=\"\x7d") = .ok v ∧
      validate (some .buffer) v false [] = true := by
  have integer : (convert Tag.integer.name (.text " 1_2.5e1\n")).isOk = true := by
    decide +kernel
  have buffer : (convert Tag.buffer.name
      (.text "\x7b\"_base64\": \"AQI=\"\x7d")).isOk = true := by
    decide +kernel
  obtain ⟨n, hn⟩ := exists_of_isOk integer
  obtain ⟨data, hdata⟩ := exists_of_isOk buffer
  exact ⟨⟨n, hn, (convert_valid _ n).2.1 hn⟩,
    data, hdata, (convert_valid _ data).1 .buffer (by decide) hdata⟩

/-! ### Faults -/

/-- Only base64 text keeps a fault from being raised as one of a conversion. -/
theorem ofText_reporting {tag : Tag} (h : tag = .buffer → ¬ EncodesBeyondAscii s) :
    Reporting (ofText tag s) := by
  cases tag with
  | string => exact .ok _
  | number => exact number_reporting .number s
  | float => exact number_reporting .float s
  | integer => exact integer_reporting s
  | boolean => exact boolean_reporting s
  | object => exact object_reporting .object s
  | array => exact array_reporting s
  | buffer => exact buffer_reporting (h rfl)
  | enum => exact .ok _
  | any => exact .ok _
  | query => exact object_reporting .query s
  | limit => exact object_reporting .limit s

/-- **A text converts or the fault of a conversion is raised, except for** base64 text with
a character beyond ASCII, whose fault comes up as it is. -/
theorem convert_reports (type s : String) :
    (Reporting (convert type (.text s)) ↔
      ¬ (type = Tag.buffer.name ∧ EncodesBeyondAscii s)) ∧
    (EncodesBeyondAscii s →
      convert Tag.buffer.name (.text s) = .error (.base64 .notAscii)) := by
  have escapes (h : EncodesBeyondAscii s) :
      convert Tag.buffer.name (.text s) = .error (.base64 .notAscii) := by
    rw [convert_name]
    exact buffer_notAscii h
  refine ⟨⟨?_, fun h => ?_⟩, escapes⟩
  · rintro reporting ⟨rfl, beyond⟩
    exact absurd (reporting _ (escapes beyond)) (by decide)
  · cases named : Tag.ofName? type with
    | none =>
        rw [convert_unknown named]
        exact .error rfl
    | some tag =>
        obtain rfl := Tag.name_of_ofName? named
        rw [convert_name]
        refine ofText_reporting ?_
        rintro rfl beyond
        exact h ⟨rfl, beyond⟩

theorem convert_reports_accented : ∃ s, EncodesBeyondAscii s ∧
    convert Tag.buffer.name (.text s) = .error (.base64 .notAscii) := by
  have plain : (Value.dict [(.text "_base64", .text "é")]).IsPlain := by decide
  obtain ⟨s, -, read⟩ := Json.read_text plain
  have beyond : EncodesBeyondAscii s := ⟨_, _, "é", read, rfl, rfl, 'é', by decide, by decide⟩
  exact ⟨s, beyond, (convert_reports Tag.buffer.name s).2 beyond⟩

theorem convert_unreported :
    ¬ Reporting (convert Tag.buffer.name (.text "\x7b\"_base64\": \"é\"\x7d")) := by
  decide +kernel

/-! ### Round trip -/

/-- **The JSON text of a list or an object converts back to it**, whatever plain values are
inside. -/
theorem convert_text (plain : v.IsPlain) (isOpen : v.IsOpen) :
    ∃ s, Json.text v = .ok s ∧
      (v.isArray = true → convert Tag.array.name (.text s) = .ok v) ∧
      (v.isObject = true → convert Tag.object.name (.text s) = .ok v) := by
  obtain ⟨s, written, read⟩ := Json.read_text plain
  rw [isOpen] at read
  exact ⟨s, written, convert_array read, convert_object read⟩

/-- A list with an integer beyond the safe range, what has to be escaped and nested maps. -/
def nestedItems : Value :=
  .list [.null, .bool true, .int 1, .int (-123456789012345678901234567890), .list [],
    .dict [(.text "b\"\\\n", .text "\x7fé😀"), (.text "a", .dict [(.text "", .bool false)])]]

theorem convert_text_nested :
    (∃ s, Json.text nestedItems = .ok s ∧
      convert Tag.array.name (.text s) = .ok nestedItems) ∧
    ∃ s, Json.text (.dict [(.text "items", nestedItems)]) = .ok s ∧
      convert Tag.object.name (.text s) = .ok (.dict [(.text "items", nestedItems)]) := by
  have items : nestedItems.IsPlain ∧ nestedItems.IsOpen := ⟨by decide, rfl⟩
  have fields : (Value.dict [(.text "items", nestedItems)]).IsPlain ∧
      (Value.dict [(.text "items", nestedItems)]).IsOpen := ⟨by decide, rfl⟩
  obtain ⟨s, written, array, -⟩ := convert_text items.1 items.2
  obtain ⟨s', written', -, object⟩ := convert_text fields.1 fields.2
  exact ⟨⟨s, written, array rfl⟩, s', written', object rfl⟩

/-- Bytes are written as the object that encodes them. -/
theorem Json.text_bytes (kind : BytesKind) (data : List UInt8) :
    Json.text (.bytes kind data) =
      Json.text (.dict [(.text "_base64", .text (String.ofList (Text.Base64.encode data)))]) := by
  simp [Json.text, write, writeEntries, keyText, commaSeparated, writeBytes, bind, Except.bind,
    pure, Except.pure]

/-- A list of the numbers of bytes is a plain value and open. -/
theorem listed_plain (data : List UInt8) :
    (Value.list (data.map fun b => .int b.toNat)).IsOpen ∧
      (Value.list (data.map fun b => .int b.toNat)).IsPlain := by
  constructor
  · rw [Value.IsOpen, Value.thaw, Value.thawAll_eq, List.map_map]
    rfl
  · refine .node rfl fun u hu => ?_
    obtain ⟨b, -, rfl⟩ := List.mem_map.mp hu
    exact .leaf rfl rfl

/-- **The text of bytes converts back to them**, whether they are encoded, as the JSON text
of bytes of either kind has them, or listed in an object. -/
theorem convert_bytes (data : List UInt8) :
    (∀ kind, ∃ s, Json.text (.bytes kind data) = .ok s ∧
      convert Tag.buffer.name (.text s) = .ok (.bytes .fixed data) ∧
      (Value.bytes .fixed data).same (.bytes kind data) = true) ∧
    ∃ s, Json.text (.dict [(.text "_bytes", .list (data.map fun b => .int b.toNat))]) = .ok s ∧
      convert Tag.buffer.name (.text s) = .ok (.bytes .fixed data) := by
  constructor
  · intro kind
    obtain ⟨s, written, read⟩ := Json.read_text (.field "_base64" (.leaf
      (v := .text (String.ofList (Text.Base64.encode data))) rfl rfl))
    refine ⟨s, (Json.text_bytes kind data).trans written, ?_, beq_self_eq_true data⟩
    rw [convert_name]
    exact (buffer_encoded read).trans (encodedBytes_encode data)
  · obtain ⟨items, plain⟩ := listed_plain data
    obtain ⟨s, written, read⟩ := Json.read_text (plain.field "_bytes")
    rw [Value.thaw, Value.thawEntries_eq, List.map_singleton, items] at read
    refine ⟨s, written, ?_⟩
    rw [convert_name]
    exact (buffer_listed read).trans (listedBytes_map data)

end Docsig
