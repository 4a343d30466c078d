import Docsig.Proofs.Code.Literal
import Docsig.Proofs.Value.Insert

/-!
Literals by their form and by their value.

`IsLiteral` is the grammar of literals, without their values. `Expr.value?` evaluates
expressions that are made of constants, signs, lists, tuples and maps, whether they are
literals or not: a tuple is a tuple here, and signs may stand in front of truth values and
of each other. `ofExpr_literal` is that reading a literal accepts the grammar and nothing
else, and gives the value of the expression with lists for tuples.

* `Denotes.form`, `IsLiteral.denotes`: the grammar generates what denotes a value.
* `Denotes.value`: the value that is denoted is that of the expression with lists for tuples.
-/

namespace Docsig

/-! ### Values of expressions -/

namespace Value

/-- The number that is left by a plus; truth values count as numbers. -/
def affirmed? : Value → Option Value
  | int n => some (int n)
  | bool b => some (int (truthInt b))
  | float d => some (float d)
  | _ => none

/-- The number that is left by a minus; truth values count as numbers. -/
def negated? : Value → Option Value
  | int n => some (int (-n))
  | bool b => some (int (-truthInt b))
  | float d => some (float d.neg)
  | _ => none

end Value

namespace Code

/-- The value of a constant that has one here. -/
def Constant.value? : Constant → Option Value
  | none => some .null
  | bool b => some (.bool b)
  | int n => some (.int n)
  | float d => some (.float d)
  | text s _ => some (.text s)
  | bytes data => some (.bytes .fixed data)
  | imaginary _ => Option.none
  | ellipsis => Option.none

namespace Expr

mutual

/-- The value of an expression of constants, signs, lists, tuples and maps with texts for keys;
none for any other. -/
def value? : Expr → Option Value
  | constant _ c => c.value?
  | unary _ .minus e => (value? e).bind Value.negated?
  | unary _ .plus e => (value? e).bind Value.affirmed?
  | list _ items => (values? items).map Value.list
  | tuple _ items => (values? items).map Value.tuple
  | dict _ entries => (fields? entries).map fun es => Value.record (lastGiven es)
  | _ => none

def values? : List Expr → Option (List Value)
  | [] => some []
  | e :: es => do
      let v ← value? e
      let vs ← values? es
      return v :: vs

/-- The keys and the values that a map is written with. -/
def fields? : List (Option Expr × Expr) → Option (List (String × Value))
  | [] => some []
  | (none, _) :: _ => none
  | (some key, value) :: entries => do
      let k ← value? key
      let s ← k.text?
      let v ← value? value
      let es ← fields? entries
      return (s, v) :: es

end

end Expr

/-! ### The grammar -/

def Constant.isPlain : Constant → Bool
  | bytes _ | imaginary _ | ellipsis => false
  | _ => true

/-- A constant that may have a sign in front of it. -/
def Constant.isNumber : Constant → Bool
  | int _ | float _ => true
  | _ => false

def Expr.IsTextConstant (e : Expr) : Prop := ∃ p s marked, e = .constant p (.text s marked)

namespace Literal

inductive IsLiteral : Expr → Prop
  | constant (p : Place) {c : Constant} : c.isPlain = true → IsLiteral (.constant p c)
  | signed (p q : Place) {op : UnaryOp} {c : Constant} : op = .plus ∨ op = .minus →
      c.isNumber = true → IsLiteral (.unary p op (.constant q c))
  | list (p : Place) {items : List Expr} : (∀ e ∈ items, IsLiteral e) → IsLiteral (.list p items)
  | tuple (p : Place) {items : List Expr} : (∀ e ∈ items, IsLiteral e) → IsLiteral (.tuple p items)
  /-- Every entry has a key, and this is a text. -/
  | dict (p : Place) {entries : List (Option Expr × Expr)} :
      (∀ entry ∈ entries, ∃ key, entry.1 = some key ∧ key.IsTextConstant) →
      (∀ entry ∈ entries, IsLiteral entry.2) → IsLiteral (.dict p entries)

variable {e : Expr} {es : List Expr} {v : Value} {vs : List Value} {s : String}
  {entries : List (Option Expr × Expr)} {fields : List (Value × Value)}

/-- Only a constant denotes a text. -/
theorem denotes_text_iff : Denotes e (.text s) ↔ ∃ p marked, e = .constant p (.text s marked) := by
  constructor
  · rintro ⟨⟩
    exact ⟨_, _, rfl⟩
  · rintro ⟨p, marked, rfl⟩
    exact .text p s marked

mutual

/-- What denotes a value is in the grammar. -/
theorem Denotes.form {e : Expr} {v : Value} : Denotes e v → IsLiteral e
  | .null p | .bool p _ | .int p _ | .float p _ | .text p _ _ => .constant p rfl
  | .minusInt p q _ | .minusFloat p q _ => .signed p q (.inr rfl) rfl
  | .plusInt p q _ | .plusFloat p q _ => .signed p q (.inl rfl) rfl
  | .list items => .list _ items.form
  | .tuple items => .tuple _ items.form
  | .dict entries => .dict _ (fun entry h => (entries.form entry h).1) fun entry h =>
      (entries.form entry h).2

theorem DenotesItems.form {es : List Expr} {vs : List Value} :
    DenotesItems es vs → ∀ e ∈ es, IsLiteral e
  | .nil => by simp
  | .cons head tail => List.forall_mem_cons.mpr ⟨head.form, tail.form⟩

theorem DenotesEntries.form {entries : List (Option Expr × Expr)} {es : List (Value × Value)} :
    DenotesEntries entries es → ∀ entry ∈ entries,
      (∃ key, entry.1 = some key ∧ key.IsTextConstant) ∧ IsLiteral entry.2
  | .nil => by simp
  | .cons key value tail =>
      have ⟨p, marked, text⟩ := denotes_text_iff.mp key
      List.forall_mem_cons.mpr ⟨⟨⟨_, rfl, p, _, marked, text⟩, value.form⟩, tail.form⟩

end

theorem exists_denotesItems (h : ∀ e ∈ es, ∃ v, Denotes e v) : ∃ vs, DenotesItems es vs := by
  induction es with
  | nil => exact ⟨[], .nil⟩
  | cons e es ih =>
      obtain ⟨⟨v, head⟩, tail⟩ := List.forall_mem_cons.mp h
      obtain ⟨vs, tail⟩ := ih tail
      exact ⟨v :: vs, .cons head tail⟩

theorem exists_denotesEntries
    (texts : ∀ entry ∈ entries, ∃ key, entry.1 = some key ∧ key.IsTextConstant)
    (h : ∀ entry ∈ entries, ∃ v, Denotes entry.2 v) : ∃ fields, DenotesEntries entries fields := by
  induction entries with
  | nil => exact ⟨[], .nil⟩
  | cons entry entries ih =>
      obtain ⟨⟨key, hkey, p, s, marked, text⟩, others⟩ := List.forall_mem_cons.mp texts
      obtain ⟨⟨v, head⟩, tail⟩ := List.forall_mem_cons.mp h
      obtain ⟨fields, tail⟩ := ih others tail
      obtain ⟨key?, value⟩ := entry
      cases hkey
      exact ⟨_, .cons (denotes_text_iff.mpr ⟨p, marked, text⟩) head tail⟩

/-- What is in the grammar denotes a value. -/
theorem IsLiteral.denotes (h : IsLiteral e) : ∃ v, Denotes e v := by
  -- by the grammar: a constant that denotes nothing is not plain, and a sign stands before a
  -- number
  induction h with
  | @constant p c plain =>
      cases c with
      | bytes _ | imaginary _ | ellipsis => cases plain
      | none => exact ⟨_, .null p⟩
      | bool b => exact ⟨_, .bool p b⟩
      | int n => exact ⟨_, .int p n⟩
      | float d => exact ⟨_, .float p d⟩
      | text s marked => exact ⟨_, .text p s marked⟩
  | @signed p q op c sign number =>
      cases c with
      | int n => rcases sign with rfl | rfl <;> exact ⟨_, by constructor⟩
      | float d => rcases sign with rfl | rfl <;> exact ⟨_, by constructor⟩
      | _ => cases number
  | list p _ ih =>
      obtain ⟨vs, items⟩ := exists_denotesItems ih
      exact ⟨_, .list items⟩
  | tuple p _ ih =>
      obtain ⟨vs, items⟩ := exists_denotesItems ih
      exact ⟨_, .tuple items⟩
  | dict p texts _ ih =>
      obtain ⟨fields, entries⟩ := exists_denotesEntries texts ih
      exact ⟨_, .dict entries⟩

/-! ### Values -/

theorem value?_key (h : Denotes e (.text s)) : e.value? = some (.text s) := by
  obtain ⟨p, marked, rfl⟩ := denotes_text_iff.mp h
  rfl

/-- The open form of a map that is written with some keys and values. -/
theorem thaw_record_lastGiven (fs : List (String × Value)) :
    (Value.record (lastGiven fs)).thaw =
      .dict (Value.ofEntries (fs.map fun f => (.text f.1, f.2.thaw))) := by
  have texts : (fs.map fun f => ((.text f.1, f.2.thaw) : Value × Value)) =
      (fs.map fun f => (f.1, f.2.thaw)).map fun f => (.text f.1, f.2) := by
    rw [List.map_map]
    rfl
  rw [texts, ofEntries_texts, lastGiven_map rfl, Value.record, Value.thaw, Value.thawEntries_eq,
    List.map_map, List.map_map]
  rfl

mutual

/-- A literal denotes its value with lists for tuples. -/
theorem Denotes.value {e : Expr} {v : Value} : Denotes e v → ∃ w, e.value? = some w ∧ w.thaw = v
  | .null _ | .bool _ _ | .int _ _ | .float _ _ | .text _ _ _ => ⟨_, rfl, rfl⟩
  | .minusInt _ _ _ | .plusInt _ _ _ | .minusFloat _ _ _ | .plusFloat _ _ _ => ⟨_, rfl, rfl⟩
  | .list items | .tuple items =>
      have ⟨ws, found, same⟩ := items.values
      ⟨_, by rw [Expr.value?, found]; rfl, by rw [Value.thaw, same]⟩
  | .dict entries =>
      have ⟨fs, found, same⟩ := entries.values
      ⟨_, by rw [Expr.value?, found]; rfl, by rw [thaw_record_lastGiven, same]⟩

theorem DenotesItems.values {es : List Expr} {vs : List Value} :
    DenotesItems es vs → ∃ ws, Expr.values? es = some ws ∧ Value.thawAll ws = vs
  | .nil => ⟨[], rfl, rfl⟩
  | .cons head tail =>
      have ⟨w, found, same⟩ := head.value
      have ⟨ws, others, rest⟩ := tail.values
      ⟨w :: ws, by rw [Expr.values?, found, others]; rfl, by rw [Value.thawAll, same, rest]⟩

theorem DenotesEntries.values {entries : List (Option Expr × Expr)} {es : List (Value × Value)} :
    DenotesEntries entries es → ∃ fs, Expr.fields? entries = some fs ∧
      (fs.map fun f => ((.text f.1, f.2.thaw) : Value × Value)) = es
  | .nil => ⟨[], rfl, rfl⟩
  | @DenotesEntries.cons _ _ s _ _ _ key head tail =>
      have ⟨w, found, same⟩ := head.value
      have ⟨fs, others, rest⟩ := tail.values
      ⟨(s, w) :: fs, by rw [Expr.fields?, value?_key key, found, others]; rfl, by
        rw [List.map_cons, same, rest]⟩

end

/-- **Reading a literal accepts the grammar and nothing else**, and gives the value of the
expression, in which every tuple is a list. -/
theorem ofExpr_literal (e : Expr) :
    ((∃ v, ofExpr e = .ok v) ↔ IsLiteral e) ∧
      ∀ v, ofExpr e = .ok v ↔ IsLiteral e ∧ ∃ w, e.value? = some w ∧ w.thaw = v := by
  constructor
  · simp only [ofExpr_eq_ok]
    exact ⟨fun ⟨_, h⟩ => h.form, IsLiteral.denotes⟩
  · intro v
    rw [ofExpr_eq_ok]
    constructor
    · exact fun h => ⟨h.form, h.value⟩
    · rintro ⟨form, w, found, rfl⟩
      obtain ⟨v, h⟩ := form.denotes
      obtain ⟨w', found', rfl⟩ := h.value
      cases found.symm.trans found'
      exact h

end Literal

end Code

end Docsig
