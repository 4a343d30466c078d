import Docsig.Proofs.Json.RoundTrip

/-!
JSON texts are printable.

A JSON text holds nothing but printable ASCII characters: whatever else is in a value is
escaped (`printable_escapeChar`). So no character of the text of a value ends a line
(`text_printable`).
-/

namespace Docsig.Json

variable {cs ds : List Char} {c : Char}

/-! ### Characters -/

/-- Nothing but printable ASCII characters. -/
def Printable (cs : List Char) : Prop := ∀ c ∈ cs, 32 ≤ c.toNat ∧ c.toNat < 127

instance (cs : List Char) : Decidable (Printable cs) := List.decidableBAll _ cs

namespace Printable

theorem nil : Printable [] := nofun

theorem cons (hc : 32 ≤ c.toNat ∧ c.toNat < 127) (h : Printable cs) : Printable (c :: cs) :=
  List.forall_mem_cons.mpr ⟨hc, h⟩

theorem append (h : Printable cs) (h' : Printable ds) : Printable (cs ++ ds) :=
  List.forall_mem_append.mpr ⟨h, h'⟩

theorem subset (h : Printable cs) (part : ds ⊆ cs) : Printable ds := fun c hc => h c (part hc)

theorem flatMap {α : Type} {f : α → List Char} {xs : List α} (h : ∀ x ∈ xs, Printable (f x)) :
    Printable (xs.flatMap f) := by
  intro c hc
  obtain ⟨x, hx, hc⟩ := List.mem_flatMap.mp hc
  exact h x hx c hc

theorem replicate {n : Nat} (hc : 32 ≤ c.toNat ∧ c.toNat < 127) :
    Printable (List.replicate n c) := by
  intro x hx
  rw [(List.mem_replicate.mp hx).2]
  exact hc

end Printable

/-! ### Texts -/

theorem printable_hexDigits (count n : Nat) : Printable (Text.hexDigits count n) := by
  have digit : ∀ n < 16, Printable [Text.hexChar n] := by decide
  induction count generalizing n with
  | zero => exact .nil
  | succ count ih => exact (ih _).append (digit _ (Nat.mod_lt n (by decide)))

theorem printable_unitEscape (n : Nat) : Printable (unitEscape n) :=
  .cons (by decide) (.cons (by decide) (printable_hexDigits 4 n))

/-- **Whatever is not printable is escaped.** -/
theorem printable_escapeChar (c : Char) : Printable (escapeChar c) := by
  unfold escapeChar
  split_ifs with _ _ _ _ _ _ _ plain
  iterate 7 decide
  · simp only [Bool.and_eq_true, decide_eq_true_eq] at plain
    exact .cons plain .nil
  · unfold unicodeEscape
    dsimp only
    split
    · exact printable_unitEscape _
    · exact (printable_unitEscape _).append (printable_unitEscape _)

theorem printable_writeText (cs : List Char) : Printable (writeText cs) :=
  .cons (by decide) ((Printable.flatMap fun c _ => printable_escapeChar c).append (by decide))

/-! ### Numbers -/

theorem printable_toDigits (n : Nat) : Printable (Nat.toDigits 10 n) := by
  intro c hc
  have digit := Nat.isDigit_of_mem_toDigits (by decide) (by decide) hc
  simp only [Char.isDigit, Bool.and_eq_true, decide_eq_true_eq, UInt32.le_iff_toNat_le] at digit
  have low : 48 ≤ c.toNat := digit.1
  have high : c.toNat ≤ 57 := digit.2
  omega

theorem printable_writeInt (n : Int) : Printable (writeInt n) := by
  unfold writeInt
  split
  · exact .cons (by decide) (printable_toDigits _)
  · exact printable_toDigits _

theorem printable_exponentText (e : Int) : Printable (Double.exponentText e) := by
  unfold Double.exponentText
  refine .cons (by decide) (.cons (by split <;> decide) ?_)
  split
  · exact .cons (by decide) (printable_toDigits _)
  · exact printable_toDigits _

/-- A number is written in printable characters in every notation. -/
theorem printable_layout {style : Double.Layout} {digits : List Char} (point : Int)
    (whole : Printable style.whole) (h : Printable digits) :
    Printable (style.write digits point) := by
  have zero : 32 ≤ '0'.toNat ∧ '0'.toNat < 127 := by decide
  unfold Double.Layout.write
  -- with a point among the digits or zeros beside them, or with an exponent
  split
  · split
    · exact .cons zero (.cons (by decide) ((Printable.replicate zero).append h))
    · split
      · exact (h.append (.replicate zero)).append whole
      · exact (h.subset (List.take_subset _ _)).append
          (.cons (by decide) (h.subset (List.drop_subset _ _)))
  · split
    · exact .nil
    · exact .cons (h _ List.mem_cons_self) (printable_exponentText _)
    · obtain ⟨first, others⟩ := List.forall_mem_cons.mp h
      exact .cons first (.cons (by decide) (Printable.append others (printable_exponentText _)))

theorem printable_magnitude {style : Double.Layout} (whole : Printable style.whole) (m : Nat)
    (e : Int) : Printable (Double.magnitudeText style m e) := by
  unfold Double.magnitudeText
  split
  · exact .cons (by decide) whole
  · refine printable_layout _ whole fun c hc => ?_
    have digit := List.mem_reverse.mp
      ((List.dropWhile_suffix _).subset (List.mem_reverse.mp hc))
    exact printable_toDigits _ c digit

theorem printable_writeDouble (d : Double) : Printable (writeDouble d) := by
  cases d with
  | nan => decide
  | infinite s => cases s <;> decide
  | finite s m e =>
      have magnitude : Printable (Double.magnitudeText .real m e) :=
        printable_magnitude (by decide) m e
      cases s with
      | false => exact magnitude
      | true => exact .cons (by decide) magnitude

/-! ### Values -/

theorem printable_commaSeparated {parts : List (List Char)} (h : ∀ part ∈ parts, Printable part) :
    Printable (commaSeparated parts) := by
  induction parts with
  | nil => exact .nil
  | cons part parts ih =>
      obtain ⟨first, others⟩ := List.forall_mem_cons.mp h
      cases parts with
      | nil => exact first
      | cons next parts =>
          exact first.append (.cons (by decide) (.cons (by decide) (ih others)))

mutual

/-- **The JSON text of a value is printable.** -/
theorem write_printable {cs : List Char} : ∀ {v : Value}, write v = .ok cs → Printable cs
  | .null, h => by
      cases h
      decide
  | .bool b, h => by
      cases h
      cases b <;> decide
  | .int n, h => by
      cases h
      exact printable_writeInt n
  | .float d, h => by
      cases h
      exact printable_writeDouble d
  | .text s, h => by
      cases h
      exact printable_writeText _
  | .bytes _ data, h => by
      cases h
      exact .cons (by decide) ((printable_writeText _).append
        (.cons (by decide) (.cons (by decide) ((printable_writeText _).append (by decide)))))
  | .seq _ xs, h => by
      rw [write] at h
      obtain ⟨parts, hparts, ⟨⟩⟩ := bind_eq_ok.mp h
      exact .cons (by decide)
        ((printable_commaSeparated (writeItems_printable hparts)).append (by decide))
  | .map _ es, h => by
      rw [write] at h
      obtain ⟨parts, hparts, ⟨⟩⟩ := bind_eq_ok.mp h
      exact .cons (by decide)
        ((printable_commaSeparated (writeEntries_printable hparts)).append (by decide))

theorem writeItems_printable {parts : List (List Char)} :
    ∀ {xs : List Value}, writeItems xs = .ok parts → ∀ part ∈ parts, Printable part
  | [], h => by
      cases h
      simp
  | x :: xs, h => by
      rw [writeItems] at h
      obtain ⟨part, hpart, h⟩ := bind_eq_ok.mp h
      obtain ⟨rest, hrest, ⟨⟩⟩ := bind_eq_ok.mp h
      exact List.forall_mem_cons.mpr ⟨write_printable hpart, writeItems_printable hrest⟩

theorem writeEntries_printable {parts : List (List Char)} :
    ∀ {es : List (Value × Value)}, writeEntries es = .ok parts → ∀ part ∈ parts, Printable part
  | [], h => by
      cases h
      simp
  | (k, x) :: es, h => by
      rw [writeEntries] at h
      obtain ⟨key, -, h⟩ := bind_eq_ok.mp h
      obtain ⟨part, hpart, h⟩ := bind_eq_ok.mp h
      obtain ⟨rest, hrest, ⟨⟩⟩ := bind_eq_ok.mp h
      refine List.forall_mem_cons.mpr ⟨?_, writeEntries_printable hrest⟩
      exact (printable_writeText key).append
        (.cons (by decide) (.cons (by decide) (write_printable hpart)))

end

/-- The JSON text of a value holds printable ASCII characters alone. -/
theorem text_printable {v : Value} {s : String} (h : text v = .ok s) : Printable s.toList := by
  obtain ⟨cs, written, rfl⟩ := map_eq_ok.mp h
  rw [String.toList_ofList]
  exact write_printable written

end Docsig.Json
