import Docsig.Definition.Parse
import Docsig.Proofs.Text.Utf8

/-!
Sources as text and as bytes.

`parse_encoding`: a definition is the same, and so is the fault if there is none, whether a
source is given as text, as the bytes of that text, or as these bytes behind a byte order mark.
Bytes that encode no text are refused before anything else, with the fault of the first byte
that cannot be read and without a line.
-/

namespace Docsig.Definition

open Text.Utf8 (decodeSource)

variable {pathname : String} {charge : Int} {contents contents' : Contents}

/-- Only the text of a source counts. -/
theorem parse_congr (h : contents.decode = contents'.decode) :
    parse charge pathname contents = parse charge pathname contents' := by
  rw [parse, parse, readParts, readParts, h]

/-- Bytes of a source are read as the text that they encode. -/
theorem decode_bytes {data : List UInt8} {cs : List Char} (h : decodeSource data = .ok cs) :
    (Contents.bytes data).decode = .ok cs := by
  rw [Contents.decode, h]

/-- A source that has no text is refused as a whole. -/
theorem parse_undecoded {data : List UInt8} {fault : Text.Utf8.Fault}
    (h : decodeSource data = .error fault) :
    parse charge pathname (.bytes data) = .error ⟨pathname, none, .encoding fault⟩ := by
  have refused : (Contents.bytes data).decode = .error ⟨none, .encoding fault⟩ := by
    rw [Contents.decode, h]
  rw [parse, readParts, refused]
  rfl

/-- **Text and bytes of a source agree.** A byte order mark in front of the bytes makes no
difference, and bytes that are not valid are refused with no line. -/
theorem parse_encoding (charge : Int) (pathname : String) :
    (∀ s : String, s.toList.head? ≠ some '\uFEFF' →
      parse charge pathname (.bytes s.toUTF8.data.toList) = parse charge pathname (.text s)) ∧
    (∀ s : String, parse charge pathname (.bytes (0xEF :: 0xBB :: 0xBF :: s.toUTF8.data.toList)) =
      parse charge pathname (.text s)) ∧
    ∀ data : List UInt8, ¬ data.toByteArray.IsValidUTF8 →
      ∃ fault, decodeSource data = .error fault ∧ (Cause.encoding fault).isReported = true ∧
        parse charge pathname (.bytes data) = .error ⟨pathname, none, .encoding fault⟩ := by
  refine ⟨fun s unmarked => ?_, fun s => ?_, fun data invalid => ?_⟩
  · rw [Text.Utf8.toUTF8_eq]
    exact parse_congr (decode_bytes (Text.Utf8.decodeSource_encode unmarked))
  · rw [Text.Utf8.toUTF8_eq]
    refine parse_congr (decode_bytes ?_)
    rw [Text.Utf8.decodeSource_mark]
    exact Text.Utf8.decode_eq_ok.mpr rfl
  · cases h : decodeSource data with
    | ok cs => exact (invalid (Text.Utf8.exists_decodeSource_iff.mp ⟨cs, h⟩)).elim
    | error fault => exact ⟨fault, rfl, rfl, parse_undecoded h⟩

/-- A source with characters of every length. -/
def accentedSource : String := "# @param {string} a é€😀\ndef f(a='ß'): pass\n"

theorem parse_encoding_accented :
    (accentedSource.toList.head? ≠ some '\uFEFF' ∧
      parse 1 "f.py" (.bytes accentedSource.toUTF8.data.toList) =
        parse 1 "f.py" (.text accentedSource)) ∧
    ¬ [0x23, 0xC0, 0x80].toByteArray.IsValidUTF8 ∧
      ∃ fault, decodeSource [0x23, 0xC0, 0x80] = .error fault ∧
        (Cause.encoding fault).isReported = true ∧
        parse 1 "f.py" (.bytes [0x23, 0xC0, 0x80]) = .error ⟨"f.py", none, .encoding fault⟩ := by
  have unmarked : accentedSource.toList.head? ≠ some '\uFEFF' := by decide
  have overlong : ¬ [0x23, 0xC0, 0x80].toByteArray.IsValidUTF8 := by
    rw [← Text.Utf8.exists_decodeSource_iff]
    exact nofun
  have ⟨same, _, refused⟩ := parse_encoding 1 "f.py"
  exact ⟨⟨unmarked, same _ unmarked⟩, overlong, refused _ overlong⟩

end Docsig.Definition
