import Docsig.Proofs.Code.Literal
import Docsig.Proofs.Definition.Export
import Docsig.Proofs.Definition.WellFormed
import Docsig.Proofs.Types.Freeze

/-!
Defaults of declared parameters.

Where a comment block declares parameters, every one of them is matched with the formal
parameter in its position. `Fits` says when the two agree and `Settled` what parameter
they make up; `exists_matchParams_iff` is that matching succeeds exactly if all pairs agree, and
`parse_declared` says so of whole sources.

The initial value is checked as it is written, against the draft, and stored frozen, in a
parameter that is frozen as well; `withDefault_valid` is that the check holds of what is
stored.
-/

namespace Docsig

/-- The exported form of a default is its open form, and there is none without one. -/
theorem Parameter.get?_defaultValue (p : Parameter) :
    p.toValue.get? "defaultValue" = p.default?.map Value.thaw := by
  simp [toValue_eq, sharedFields]

namespace Definition

open Code.Literal

/-! ### Pairs that agree -/

/-- The initial value that a formal parameter has for a draft: a literal of the declared
type, or none. -/
inductive Initial (d : Draft) (f : Formal) : Option Value → Prop
  | none : f.default? = .none → Initial d f .none
  | literal {e : Code.Expr} {v : Value} : f.default? = some e → Denotes e v →
      validate (some d.type) v true (nestedEntries d) = true → Initial d f (some v)

/-- A declared parameter and a formal one that agree: they have one name, and the initial
value, if there is one, is a literal of the declared type. -/
structure Fits (d : Draft) (f : Formal) : Prop where
  name : d.name? = some f.name
  initial : ∃ v?, Initial d f v?

/-- What a parameter is that a draft and a formal parameter make up. -/
structure Settled (d : Draft) (f : Formal) (p : Parameter) : Prop where
  name : p.name = f.name
  type : p.type = d.type.name
  /-- An initial value is the default, frozen in the parameter and exported as it is. -/
  literal : ∀ e, f.default? = some e → ∃ v, Denotes e v ∧ p.default? = some v.freeze ∧
    p.toValue.get? "defaultValue" = some v
  /-- Without one, null is the default of what may be null, and nothing else has any. -/
  implied : f.default? = none →
    p.default? = (if d.nullable then some .null else none) ∧
      p.toValue.get? "defaultValue" = if d.nullable then some .null else none
  /-- The default is valid for the parameter that it is stored in. -/
  valid : ∀ v, p.default? = some v →
    validate (Tag.ofName? p.type) v true (Entry.ofNested p.schema? p.members?) = true

variable {d : Draft} {f : Formal} {p : Parameter} {position : Nat}

/-- A default is the value that its expression denotes. -/
theorem defaultValue_eq_ok {name : String} {e : Code.Expr} {v : Value} :
    defaultValue name e = .ok v ↔ Denotes e v := by
  rw [defaultValue, ← ofExpr_eq_ok]
  cases ofExpr e <;> simp

/-- A draft and a formal parameter are matched exactly if they agree. -/
theorem matchParam_eq_ok : matchParam position d f = .ok p ↔
    d.name? = some f.name ∧ ∃ v?, Initial d f v? ∧ p = d.withDefault v? := by
  refine guard_eq_ok.trans ?_
  rw [ne_eq, not_not]
  refine and_congr_right fun _ => ?_
  -- with a default in the signature the value has to be read and be valid, without one nothing
  -- is asked
  cases h : f.default? with
  | none =>
      constructor
      · rintro ⟨⟩
        exact ⟨none, .none h, rfl⟩
      · rintro ⟨_, ⟨-⟩ | ⟨he, -, -⟩, rfl⟩
        · rfl
        · rw [h] at he
          cases he
  | some e =>
      rw [bind_eq_ok]
      constructor
      · rintro ⟨v, hv, h'⟩
        split at h'
        · rename_i valid
          cases h'
          exact ⟨some v, .literal h (defaultValue_eq_ok.mp hv) valid, rfl⟩
        · cases h'
      · rintro ⟨_, he | ⟨he, denotes, valid⟩, rfl⟩
        · rw [h] at he
          cases he
        · rw [h] at he
          cases he
          exact ⟨_, defaultValue_eq_ok.mpr denotes, by rw [if_pos valid]; rfl⟩

/-! ### Parameters of pairs -/

/-- What is given comes before the null that a nullable type implies. -/
theorem withDefault_default? (v? : Option Value) : (d.withDefault v?).default? =
    (v?.map Value.freeze).or (Draft.impliedDefault? d.nullable) := by
  rw [← Draft.toParameter_default?]
  rfl

/-- **What is checked before it is frozen holds of what is stored.** -/
theorem withDefault_valid {v? : Option Value} (h : Initial d f v?) :
    ∀ v, (d.withDefault v?).default? = some v →
      validate (Tag.ofName? (d.withDefault v?).type) v true
        (Entry.ofNested (d.withDefault v?).schema? (d.withDefault v?).members?) = true := by
  intro v hv
  have type : Tag.ofName? (d.withDefault v?).type = some d.type := by
    rw [show (d.withDefault v?).type = d.type.name from Draft.toParameter_type d,
      Tag.ofName?_name]
  rw [type]
  rw [withDefault_default?] at hv
  cases h with
  | none =>
      -- without a literal the default is the null of a nullable type, which is valid everywhere
      have null : v = .null := by
        rw [Option.map_none, Option.none_or, Draft.impliedDefault?] at hv
        split at hv <;> cases hv
        rfl
      exact validate_iff.mpr (.inl ⟨rfl, null⟩)
  | literal _ _ valid =>
      cases hv
      exact validate_freeze.trans valid

/-- The parameter of a pair that agrees. -/
theorem Initial.settled {v? : Option Value} (name : d.name? = some f.name) (h : Initial d f v?) :
    Settled d f (d.withDefault v?) where
  name := by rw [Draft.withDefault_name, name]; rfl
  type := Draft.toParameter_type d
  literal := by
    intro e he
    rw [Parameter.get?_defaultValue, withDefault_default?]
    cases h with
    | none absent => rw [absent] at he; cases he
    | @literal _ v written denotes _ =>
        rw [written] at he
        cases he
        exact ⟨v, denotes, rfl, congrArg some denotes.isOpen.thaw_freeze⟩
  implied := by
    intro absent
    rw [Parameter.get?_defaultValue, withDefault_default?]
    cases h with
    | none =>
        rw [Option.map_none, Option.none_or, Draft.impliedDefault?]
        cases d.nullable <;> exact ⟨rfl, rfl⟩
    | literal written => rw [absent] at written; cases written
  valid := withDefault_valid h

/-! ### Lists of pairs -/

/-- Matching finds the parameters of the pairs that agree, in order. -/
theorem matchFrom_settled :
    ∀ {ds : List Draft} {fs : List Formal} {position : Nat} {ps : List Parameter},
      ds.length = fs.length → matchFrom position ds fs = .ok ps →
        List.Forall₂ Fits ds fs ∧
          List.Forall₂ (fun pair p => Settled pair.1 pair.2 p) (ds.zip fs) ps := by
  intro ds
  induction ds with
  | nil =>
      intro fs position ps length h
      obtain rfl := List.length_eq_zero_iff.mp length.symm
      cases h
      exact ⟨.nil, .nil⟩
  | cons d ds ih =>
      intro fs position ps length h
      cases fs with
      | nil => cases length
      | cons f fs =>
          rw [matchFrom] at h
          obtain ⟨p, hp, h⟩ := bind_eq_ok.mp h
          obtain ⟨rest, hrest, ⟨⟩⟩ := bind_eq_ok.mp h
          obtain ⟨name, v?, initial, rfl⟩ := matchParam_eq_ok.mp hp
          obtain ⟨fits, settled⟩ := ih (Nat.succ.inj length) hrest
          exact ⟨.cons ⟨name, v?, initial⟩ fits, .cons (initial.settled name) settled⟩

/-- Pairs that all agree are matched. -/
theorem exists_matchFrom {ds : List Draft} {fs : List Formal} (h : List.Forall₂ Fits ds fs) :
    ∀ position, ∃ ps, matchFrom position ds fs = .ok ps := by
  induction h with
  | nil => exact fun _ => ⟨[], rfl⟩
  | cons first _ ih =>
      intro position
      obtain ⟨v?, initial⟩ := first.initial
      obtain ⟨ps, hps⟩ := ih (position + 1)
      rw [matchFrom, matchParam_eq_ok.mpr ⟨first.name, v?, initial, rfl⟩, ok_bind, hps]
      exact ⟨_, rfl⟩

/-- Declared parameters are matched exactly if there are as many as formal ones and each
agrees with its counterpart. -/
theorem exists_matchParams_iff {ds : List Draft} {fs : List Formal} :
    (∃ ps, matchParams ds fs = .ok ps) ↔ List.Forall₂ Fits ds fs := by
  constructor
  · rintro ⟨ps, h⟩
    obtain ⟨length, h⟩ := guard_eq_ok.mp h
    exact (matchFrom_settled (by simpa using length) h).1
  · intro h
    obtain ⟨ps, hps⟩ := exists_matchFrom h 1
    exact ⟨ps, guard_eq_ok.mpr ⟨by simpa using h.length_eq, hps⟩⟩

theorem matchParams_settled {ds : List Draft} {fs : List Formal} {ps : List Parameter}
    (h : matchParams ds fs = .ok ps) :
    List.Forall₂ (fun pair p => Settled pair.1 pair.2 p) (ds.zip fs) ps := by
  obtain ⟨length, h⟩ := guard_eq_ok.mp h
  exact (matchFrom_settled (by simpa using length) h).2

/-! ### Sources -/

/-- The formal parameters of a signature are those of the function, the context split
off. -/
theorem Signature.ofFunction_formals {pathname : String} {f : Code.Function} {s : Signature}
    (h : ofFunction pathname f = .ok s) :
    s.formals = (splitContext (f.params.map formalOf)).1 := by
  obtain ⟨-, h⟩ := guard_eq_ok.mp h
  obtain ⟨-, h⟩ := guard_eq_ok.mp h
  obtain ⟨-, -, h⟩ := bind_eq_ok.mp h
  obtain ⟨-, -, h⟩ := bind_eq_ok.mp h
  cases h
  rfl

/-- A source whose parts are read has a definition if its parameters are found. -/
theorem parse_eq_ok {charge : Int} {pathname : String} {contents : Contents} {parts : Parts}
    {def' : Definition} (read : readParts pathname contents = .ok parts) :
    parse charge pathname contents = .ok def' ↔
      ∃ ps, parts.params = .ok ps ∧ parts.definition pathname charge ps = def' := by
  rw [parse, mapError_eq_ok, read, ok_bind, bind_eq_ok]
  simp

/-- **Which sources with declared parameters have a definition, and which parameters it
has.** Once the comment block and the signature are read, the source parses exactly if
the declared names are those of the formal parameters, in number and order, and every
initial value is a literal of the declared type. The parameters are settled pair by pair:
each stored default is valid as it is stored, and exported as it was written. -/
theorem parse_declared {charge : Int} {pathname : String} {contents : Contents} {parts : Parts}
    (read : readParts pathname contents = .ok parts) (declared : parts.declared.params ≠ []) :
    parts.signature.formals =
        (Signature.splitContext (parts.function.params.map Signature.formalOf)).1 ∧
      ((∃ d, parse charge pathname contents = .ok d) ↔
        List.Forall₂ Fits parts.declared.params parts.signature.formals) ∧
      ∀ d, parse charge pathname contents = .ok d →
        List.Forall₂ (fun pair p => Settled pair.1 pair.2 p)
          (parts.declared.params.zip parts.signature.formals) d.params := by
  obtain ⟨-, -, -, -, -, -, signed⟩ := readParts_ok read
  have params : parts.params = matchParams parts.declared.params parts.signature.formals :=
    if_neg (by simpa using declared)
  refine ⟨Signature.ofFunction_formals signed, ?_, fun d hd => ?_⟩
  · rw [← exists_matchParams_iff, ← params]
    constructor
    · rintro ⟨d, hd⟩
      obtain ⟨ps, hps, -⟩ := (parse_eq_ok read).mp hd
      exact ⟨ps, hps⟩
    · rintro ⟨ps, hps⟩
      exact ⟨_, (parse_eq_ok read).mpr ⟨ps, hps, rfl⟩⟩
  · obtain ⟨ps, hps, rfl⟩ := (parse_eq_ok read).mp hd
    exact matchParams_settled (params ▸ hps)

/-- A source with a nested default, a nullable parameter without one, and a context. -/
def defaultsSource : String :=
  "# @param \x7b?string\x7d s\n# @param \x7bobject\x7d o\n# @ \x7barray\x7d xs\n" ++
    "# @   \x7b?string\x7d x\ndef f(s, o=\x7b'xs': ('a', None)\x7d, context=None): pass\n"

theorem parse_declared_nested :
    ∃ parts d, readParts "f.py" (.text defaultsSource) = .ok parts ∧
      parts.declared.params ≠ [] ∧ parse 1 "f.py" (.text defaultsSource) = .ok d ∧
      List.Forall₂ Fits parts.declared.params parts.signature.formals ∧
      List.Forall₂ (fun pair p => Settled pair.1 pair.2 p)
        (parts.declared.params.zip parts.signature.formals) d.params := by
  have reads : ((readParts "f.py" (.text defaultsSource)).toOption.any fun parts =>
      !parts.declared.params.isEmpty && parts.params.isOk) = true := by decide +kernel
  obtain ⟨parts, found, filled⟩ := (Option.any_eq_true _ _).mp reads
  obtain ⟨filled, matched⟩ := Bool.and_eq_true_iff.mp filled
  have hparts : readParts "f.py" (.text defaultsSource) = .ok parts := by
    cases h : readParts "f.py" (.text defaultsSource) with
    | error f => rw [h] at found; cases found
    | ok parts => rw [h] at found; cases found; rfl
  have declared : parts.declared.params ≠ [] := by simpa using filled
  obtain ⟨ps, hps⟩ := exists_of_isOk matched
  have hd := (@parse_eq_ok 1 _ _ _ _ hparts).mpr ⟨ps, hps, rfl⟩
  have ⟨_, fits, settled⟩ := @parse_declared 1 _ _ _ hparts declared
  exact ⟨parts, _, hparts, declared, hd, fits.mp ⟨_, hd⟩, settled _ hd⟩

end Definition

end Docsig
