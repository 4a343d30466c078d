import Docsig.Code.Literal
import Docsig.Proofs.Result
import Docsig.Proofs.Value.Freeze

/-!
The grammar of literals.

`Literal.Denotes e v` is the grammar as a relation: it says which expressions are
literals and what each stands for. `ofExpr_eq_ok` is that evaluation finds exactly the
literals, and `Denotes.isOpen` that they stand for open values.
-/

namespace Docsig.Code.Literal

mutual

/-- `Denotes e v`: the expression is a literal for the value. -/
inductive Denotes : Expr → Value → Prop
  | null (p : Place) : Denotes (.constant p .none) .null
  | bool (p : Place) (b : Bool) : Denotes (.constant p (.bool b)) (.bool b)
  | int (p : Place) (n : Nat) : Denotes (.constant p (.int n)) (.int n)
  | float (p : Place) (d : Double) : Denotes (.constant p (.float d)) (.float d)
  | text (p : Place) (s : String) (marked : Bool) :
      Denotes (.constant p (.text s marked)) (.text s)
  | minusInt (p q : Place) (n : Nat) :
      Denotes (.unary p .minus (.constant q (.int n))) (.int (-n))
  | plusInt (p q : Place) (n : Nat) : Denotes (.unary p .plus (.constant q (.int n))) (.int n)
  | minusFloat (p q : Place) (d : Double) :
      Denotes (.unary p .minus (.constant q (.float d))) (.float d.neg)
  | plusFloat (p q : Place) (d : Double) :
      Denotes (.unary p .plus (.constant q (.float d))) (.float d)
  | list {p : Place} {items : List Expr} {vs : List Value} :
      DenotesItems items vs → Denotes (.list p items) (.list vs)
  | tuple {p : Place} {items : List Expr} {vs : List Value} :
      DenotesItems items vs → Denotes (.tuple p items) (.list vs)
  /-- A key that is repeated keeps its first place and takes its last value. -/
  | dict {p : Place} {entries : List (Option Expr × Expr)} {es : List (Value × Value)} :
      DenotesEntries entries es → Denotes (.dict p entries) (.dict (Value.ofEntries es))

/-- The expressions are literals for the values, one by one. -/
inductive DenotesItems : List Expr → List Value → Prop
  | nil : DenotesItems [] []
  | cons {e : Expr} {v : Value} {es : List Expr} {vs : List Value} :
      Denotes e v → DenotesItems es vs → DenotesItems (e :: es) (v :: vs)

/-- The entries have texts for keys, and literals under them. -/
inductive DenotesEntries : List (Option Expr × Expr) → List (Value × Value) → Prop
  | nil : DenotesEntries [] []
  | cons {key value : Expr} {s : String} {v : Value} {entries : List (Option Expr × Expr)}
      {es : List (Value × Value)} :
      Denotes key (.text s) → Denotes value v → DenotesEntries entries es →
        DenotesEntries ((some key, value) :: entries) ((.text s, v) :: es)

end

/-! ### Evaluation -/

variable {line : Nat} {p : Place} {v : Value}

/-- A constant is read as what it denotes. -/
theorem ofConstant_eq_ok {c : Constant} :
    ofConstant p.line c = .ok v ↔ Denotes (.constant p c) v := by
  constructor
  · intro h
    cases c <;> cases h <;> constructor
  · intro h
    cases h <;> rfl

/-- What stands behind a minus is read if it is a number, and is negated. -/
theorem signed_minus_eq_ok {e : Expr} :
    signed p.line true e = .ok v ↔ Denotes (.unary p .minus e) v := by
  constructor
  · intro h
    unfold signed at h
    split at h <;> cases h <;> constructor
  · intro h
    cases h <;> rfl

theorem signed_plus_eq_ok {e : Expr} :
    signed p.line false e = .ok v ↔ Denotes (.unary p .plus e) v := by
  constructor
  · intro h
    unfold signed at h
    split at h <;> cases h <;> constructor
  · intro h
    cases h <;> rfl

theorem textKey_eq_ok {key : Value} : textKey line key = .ok v ↔ ∃ s, key = .text s ∧ v = key := by
  cases key <;> simp [textKey, Value.text?, eq_comm]

theorem denotes_list_iff {items : List Expr} :
    Denotes (.list p items) v ↔ ∃ vs, DenotesItems items vs ∧ Value.list vs = v := by
  constructor
  · rintro ⟨⟩
    exact ⟨_, ‹_›, rfl⟩
  · rintro ⟨vs, h, rfl⟩
    exact .list h

theorem denotes_tuple_iff {items : List Expr} :
    Denotes (.tuple p items) v ↔ ∃ vs, DenotesItems items vs ∧ Value.list vs = v := by
  constructor
  · rintro ⟨⟩
    exact ⟨_, ‹_›, rfl⟩
  · rintro ⟨vs, h, rfl⟩
    exact .tuple h

/-- A map denotes its entries, the later of two with one key in the place of the earlier. -/
theorem denotes_dict_iff {entries : List (Option Expr × Expr)} :
    Denotes (.dict p entries) v ↔
      ∃ es, DenotesEntries entries es ∧ Value.dict (Value.ofEntries es) = v := by
  constructor
  · rintro ⟨⟩
    exact ⟨_, ‹_›, rfl⟩
  · rintro ⟨es, h, rfl⟩
    exact .dict h

/-- Evaluation finds the literals, their entries and their items. -/
theorem ofExpr_denotes :
    (∀ e v, ofExpr e = .ok v ↔ Denotes e v) ∧
      (∀ entries es, ofEntries entries = .ok es ↔ DenotesEntries entries es) ∧
      ∀ items vs, ofItems items = .ok vs ↔ DenotesItems items vs := by
  apply ofExpr.mutual_induct
  case case1 => -- a constant
    intro p c v
    rw [ofExpr]
    exact ofConstant_eq_ok
  case case2 => -- a minus
    intro p operand v
    rw [ofExpr]
    exact signed_minus_eq_ok
  case case3 => -- a plus
    intro p operand v
    rw [ofExpr]
    exact signed_plus_eq_ok
  case case4 => -- a list
    intro p items ih v
    rw [ofExpr, bind_eq_ok, denotes_list_iff]
    exact exists_congr fun vs => and_congr (ih vs) (by simp)
  case case5 => -- a tuple
    intro p items ih v
    rw [ofExpr, bind_eq_ok, denotes_tuple_iff]
    exact exists_congr fun vs => and_congr (ih vs) (by simp)
  case case6 => -- a map
    intro p entries ih v
    rw [ofExpr, bind_eq_ok, denotes_dict_iff]
    exact exists_congr fun es => and_congr (ih es) (by simp)
  case case7 => -- no literal
    intro e constant minus plus list tuple dict v
    have fault : ofExpr e = .error (formFault e) := by
      rw [ofExpr]
      all_goals assumption
    rw [fault]
    refine ⟨fun h => (by cases h), fun h => ?_⟩
    cases h with
    | list _ => exact (list _ _ rfl).elim
    | tuple _ => exact (tuple _ _ rfl).elim
    | dict _ => exact (dict _ _ rfl).elim
    | minusInt _ _ _ => exact (minus _ _ rfl).elim
    | minusFloat _ _ _ => exact (minus _ _ rfl).elim
    | plusInt _ _ _ => exact (plus _ _ rfl).elim
    | plusFloat _ _ _ => exact (plus _ _ rfl).elim
    | _ => exact (constant _ _ rfl).elim
  case case8 => -- no items
    intro vs
    rw [ofItems]
    refine ⟨fun h => ?_, fun h => ?_⟩
    · cases h
      exact .nil
    · cases h
      rfl
  case case9 => -- an item and more
    intro e es head tail vs
    rw [ofItems, bind_eq_ok]
    constructor
    · rintro ⟨v, hv, h⟩
      obtain ⟨rest, hrest, ⟨⟩⟩ := bind_eq_ok.mp h
      exact .cons ((head v).mp hv) ((tail rest).mp hrest)
    · rintro ⟨⟩
      rename_i v rest hv hrest
      exact ⟨v, (head v).mpr hv, bind_eq_ok.mpr ⟨rest, (tail rest).mpr hrest, rfl⟩⟩
  case case10 => -- no entries
    intro es
    rw [ofEntries]
    refine ⟨fun h => ?_, fun h => ?_⟩
    · cases h
      exact .nil
    · cases h
      rfl
  case case11 => -- a map that is spread
    intro value entries es
    rw [ofEntries]
    exact ⟨fun h => (by cases h), fun h => (by cases h)⟩
  case case12 => -- an entry and more
    intro key value entries hkey hvalue tail es
    rw [ofEntries, bind_eq_ok]
    constructor
    · rintro ⟨k, hk, h⟩
      obtain ⟨k', text, h⟩ := bind_eq_ok.mp h
      obtain ⟨v, hv, h⟩ := bind_eq_ok.mp h
      obtain ⟨rest, hrest, ⟨⟩⟩ := bind_eq_ok.mp h
      obtain ⟨s, rfl, rfl⟩ := textKey_eq_ok.mp text
      exact .cons ((hkey _).mp hk) ((hvalue v).mp hv) ((tail rest).mp hrest)
    · rintro ⟨⟩
      rename_i s v rest hk hv hrest
      refine ⟨.text s, (hkey _).mpr hk, bind_eq_ok.mpr ⟨.text s, rfl, ?_⟩⟩
      exact bind_eq_ok.mpr
        ⟨v, (hvalue v).mpr hv, bind_eq_ok.mpr ⟨rest, (tail rest).mpr hrest, rfl⟩⟩

/-- **Evaluation finds exactly the literals.** -/
theorem ofExpr_eq_ok {e : Expr} : ofExpr e = .ok v ↔ Denotes e v := ofExpr_denotes.1 e v

/-! ### Values -/

mutual

/-- Literals stand for open values. -/
theorem Denotes.isOpen {e : Expr} {v : Value} : Denotes e v → v.IsOpen
  | .null _ | .bool _ _ | .int _ _ | .float _ _ | .text _ _ _ => rfl
  | .minusInt _ _ _ | .plusInt _ _ _ | .minusFloat _ _ _ | .plusFloat _ _ _ => rfl
  | .list items | .tuple items => .list items.isOpen
  | .dict entries => .dict (Value.ofEntries_isOpen entries.isOpen)

theorem DenotesItems.isOpen {es : List Expr} {vs : List Value} :
    DenotesItems es vs → ∀ v ∈ vs, v.IsOpen
  | .nil => by simp
  | .cons head tail => List.forall_mem_cons.mpr ⟨head.isOpen, tail.isOpen⟩

theorem DenotesEntries.isOpen {entries : List (Option Expr × Expr)}
    {es : List (Value × Value)} : DenotesEntries entries es → ∀ e ∈ es, e.2.IsOpen
  | .nil => by simp
  | .cons _ value tail => List.forall_mem_cons.mpr ⟨value.isOpen, tail.isOpen⟩

end

end Docsig.Code.Literal
