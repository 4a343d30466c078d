import Docsig.Proofs.Json.RoundTrip

/-!
Values that have a JSON text.

Writing fails at a key that is no scalar and nowhere else, and it does not look at the
kinds of sequences and maps: a value has the text of its open form (`write_thaw`) and of
its frozen form (`write_freeze`).

* `isWritable_seq`: a sequence has a text exactly if its items have.
* `IsWritable.map`: a map with text keys has one if its values have.
-/

namespace Docsig

namespace Json

open Value (thawAll thawEntries)

variable {xs : List Value} {es : List (Value × Value)}

theorem writeItems_thaw (h : ∀ x ∈ xs, write x.thaw = write x) :
    writeItems (thawAll xs) = writeItems xs := by
  induction xs with
  | nil => rfl
  | cons x xs ih =>
      obtain ⟨first, others⟩ := List.forall_mem_cons.mp h
      rw [thawAll, writeItems, writeItems, first, ih others]

theorem writeEntries_thaw (h : ∀ e ∈ es, write e.2.thaw = write e.2) :
    writeEntries (thawEntries es) = writeEntries es := by
  induction es with
  | nil => rfl
  | cons e es ih =>
      obtain ⟨first, others⟩ := List.forall_mem_cons.mp h
      rw [thawEntries, writeEntries, writeEntries, first, ih others]

/-- **The kinds of sequences and maps are not written.** -/
theorem write_thaw (v : Value) : write v.thaw = write v := by
  induction v using Value.nested_induction with
  | step v ih =>
      cases v with
      | seq kind xs => rw [Value.thaw, write, write, @writeItems_thaw xs ih]
      | map kind es =>
          rw [Value.thaw, write, write, writeEntries_thaw fun e he =>
            ih e.2 (@Value.value_mem_inside e.1 e.2 es kind he)]
      | _ => rfl

/-- A frozen value is written as the value. -/
theorem write_freeze (v : Value) : write v.freeze = write v := by
  rw [← write_thaw v.freeze, Value.thaw_freeze, write_thaw]

end Json

namespace Value

variable {v : Value} {xs : List Value} {es : List (Value × Value)}

/-- A value that has a JSON text. -/
def IsWritable (v : Value) : Prop := ∃ cs, Json.write v = .ok cs

theorem IsWritable.exists_text (h : v.IsWritable) : ∃ s, Json.text v = .ok s := by
  obtain ⟨cs, written⟩ := h
  exact ⟨String.ofList cs, by rw [Json.text, written]; rfl⟩

theorem isWritable_thaw : v.thaw.IsWritable ↔ v.IsWritable := by
  rw [IsWritable, IsWritable, Json.write_thaw]

theorem isWritable_freeze : v.freeze.IsWritable ↔ v.IsWritable := by
  rw [IsWritable, IsWritable, Json.write_freeze]

/-- A sequence has a text exactly if its items have. -/
theorem isWritable_seq {kind : SeqKind} : (seq kind xs).IsWritable ↔ ∀ x ∈ xs, x.IsWritable := by
  rw [IsWritable, Json.write, Json.writeItems_eq]
  constructor
  · rintro ⟨cs, h⟩ x hx
    obtain ⟨parts, written, -⟩ := bind_eq_ok.mp h
    obtain ⟨part, -, hpart⟩ := exists_of_mem_left (mapM_eq_ok.mp written) hx
    exact ⟨part, hpart⟩
  · intro h
    have each (x : Value) (hx : x ∈ xs) : ∃ part, Json.write x = .ok part ∧ True := by
      obtain ⟨part, hpart⟩ := h x hx
      exact ⟨part, hpart, trivial⟩
    obtain ⟨parts, written, -⟩ := mapM_exists (R := fun _ _ => True) each
    exact ⟨_, bind_eq_ok.mpr ⟨parts, written, rfl⟩⟩

/-- A map with text keys has a text if its values have. -/
theorem IsWritable.map {kind : MapKind} (h : ∀ e ∈ es, (∃ s, e.1 = text s) ∧ e.2.IsWritable) :
    (map kind es).IsWritable := by
  suffices ∃ parts, Json.writeEntries es = .ok parts by
    obtain ⟨parts, written⟩ := this
    exact ⟨_, bind_eq_ok.mpr ⟨parts, written, rfl⟩⟩
  induction es with
  | nil => exact ⟨[], rfl⟩
  | cons e es ih =>
      obtain ⟨key, x⟩ := e
      obtain ⟨⟨⟨s, hkey⟩, part, written⟩, others⟩ := List.forall_mem_cons.mp h
      obtain ⟨parts, rest⟩ := ih others
      dsimp only at hkey written
      rw [Json.writeEntries, hkey, Json.keyText, ok_bind, written, ok_bind, rest]
      exact ⟨_, rfl⟩

end Value

end Docsig
