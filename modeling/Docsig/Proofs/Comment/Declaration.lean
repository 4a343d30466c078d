import Docsig.Comment.Block
import Docsig.Proofs.Result

/-!
Which line a declaration stands on.

The lines of a block that start with an at sign are its declarations, in order
(`readDeclarations_lines`). What is read from one is in form (`readHeading_inForm`): its name
is one word, and a field is indented.
-/

namespace Docsig

namespace Text

/-- An indentation that is not empty has a width. -/
theorem indentWidth_pos {c : Char} {cs : List Char} : 1 ≤ indentWidth (c :: cs) := by
  rw [indentWidth, widthFrom]
  dsimp only
  split <;> omega

end Text

namespace Comment

variable {ls : List Line} {ds : List Declaration} {l : Line} {d : Declaration}

/-! ### Headings -/

def Heading.name? : Heading → Option String
  | param _ name _ => some name
  | field _ _ name _ => some name
  | returns _ _ => none
  | charge _ => none

/-- What holds of a heading that is read. -/
structure Heading.InForm (h : Heading) : Prop where
  word : ∀ name, h.name? = some name → ∀ c ∈ name.toList, Text.isBlank c = false
  indented : ∀ n type name text, h = .field n type name text → 1 ≤ n

variable {cs : List Char} {h : Heading}

theorem takeBlank?_ne_nil {blank rest : List Char} (h : takeBlank? cs = some (blank, rest)) :
    blank ≠ [] := by
  unfold takeBlank? at h
  split at h
  · cases h
  · rename_i filled
    cases h
    exact filled

/-- A word holds no white space. -/
theorem takeWord?_word {word rest : List Char} (h : takeWord? cs = some (word, rest)) :
    ∀ c ∈ word, Text.isBlank c = false := by
  unfold takeWord? at h
  split at h
  · cases h
  · cases h
    intro c hc
    simpa using List.all_eq_true.mp List.all_takeWhile c hc

theorem takeNamed?_word {type : TypeMark} {name text : String}
    (h : takeNamed? cs = some (type, name, text)) : ∀ c ∈ name.toList, Text.isBlank c = false := by
  obtain ⟨⟨type', rest⟩, _, h⟩ := Option.bind_eq_some_iff.mp h
  obtain ⟨⟨blank, rest⟩, _, h⟩ := Option.bind_eq_some_iff.mp h
  obtain ⟨⟨word, rest⟩, found, h⟩ := Option.bind_eq_some_iff.mp h
  obtain ⟨text', _, h⟩ := Option.bind_eq_some_iff.mp h
  cases h
  rw [String.toList_ofList]
  exact takeWord?_word found

theorem paramHeading?_inForm (read : paramHeading? cs = some h) : h.InForm := by
  obtain ⟨_, _, read⟩ := Option.bind_eq_some_iff.mp read
  obtain ⟨⟨type, name, text⟩, named, ⟨⟩⟩ := Option.bind_eq_some_iff.mp read
  exact ⟨fun _ own => Option.some.inj own ▸ takeNamed?_word named, nofun⟩

theorem fieldHeading?_inForm (read : fieldHeading? cs = some h) : h.InForm := by
  obtain ⟨⟨blank, rest⟩, found, read⟩ := Option.bind_eq_some_iff.mp read
  obtain ⟨⟨type, name, text⟩, named, ⟨⟩⟩ := Option.bind_eq_some_iff.mp read
  refine ⟨fun _ own => Option.some.inj own ▸ takeNamed?_word named, ?_⟩
  rintro n type name text ⟨⟩
  obtain ⟨c, cs, rfl⟩ := List.exists_cons_of_ne_nil (takeBlank?_ne_nil found)
  exact Text.indentWidth_pos

theorem returnsHeading?_inForm (read : returnsHeading? cs = some h) : h.InForm := by
  obtain ⟨_, _, read⟩ := Option.bind_eq_some_iff.mp read
  obtain ⟨_, _, read⟩ := Option.bind_eq_some_iff.mp read
  obtain ⟨_, _, ⟨⟩⟩ := Option.bind_eq_some_iff.mp read
  exact ⟨nofun, nofun⟩

theorem chargeHeading?_inForm (read : chargeHeading? cs = some h) : h.InForm := by
  obtain ⟨_, _, read⟩ := Option.bind_eq_some_iff.mp read
  obtain ⟨⟨_, _⟩, _, read⟩ := Option.bind_eq_some_iff.mp read
  dsimp only at read
  split at read <;> cases read
  exact ⟨nofun, nofun⟩

theorem orFault_eq_ok {fault : Fault} {h? : Option Heading} : orFault fault h? = .ok h ↔ h? = some h := by
  cases h? <;> simp [orFault]

/-- Every heading that is read is in form. -/
theorem readHeading_inForm {line : String} (read : readHeading line cs = .ok h) : h.InForm := by
  unfold readHeading at read
  dsimp only at read
  split at read
  · exact fieldHeading?_inForm (orFault_eq_ok.mp read)
  split at read
  · exact paramHeading?_inForm (orFault_eq_ok.mp read)
  split at read
  · exact returnsHeading?_inForm (orFault_eq_ok.mp read)
  split at read
  · exact chargeHeading?_inForm (orFault_eq_ok.mp read)
  · cases read

/-! ### Lines -/

/-- A line that starts a declaration, and the declaration. -/
structure DeclaredOn (l : Line) (d : Declaration) : Prop where
  number : d.line = l.number
  heading : readHeading (String.ofList (Text.trim l.text)) ((Text.trim l.text).drop 1) = .ok d.heading

/-- **The declarations of a block stand on its lines that start with an at sign, in order.** -/
theorem readDeclarations_lines (h : readDeclarations ls = .ok ds) :
    List.Forall₂ DeclaredOn (ls.filter isDeclarationLine) ds := by
  induction ls generalizing ds with
  | nil =>
      cases h
      exact .nil
  | cons l ls ih =>
      rw [readDeclarations] at h
      -- a line that starts a declaration gives the first one, any other line is passed over
      split at h
      · rename_i starts
        rw [List.filter_cons_of_pos starts]
        dsimp only at h
        split at h
        · cases h
        · rename_i heading read
          obtain ⟨rest, hrest, ⟨⟩⟩ := bind_eq_ok.mp h
          exact .cons ⟨rfl, read⟩ (ih hrest)
      · rename_i other
        rw [List.filter_cons_of_neg other]
        exact ih h

end Comment

end Docsig
