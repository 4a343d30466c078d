import Docsig.Proofs.Definition.Belonging
import Docsig.Proofs.Definition.Defaults

/-!
Inferred parameters.

Where a comment block declares no parameter, every formal parameter needs a literal for an
initial value, and the class of that literal is the type. Nothing is checked on the way, and
nothing has to be but one thing: a literal that overflows to an infinity has the class of
objects and belongs to no object. `Inferred` says what a parameter then is, and
`parse_inferred` that every parameter of such a source is.
-/

namespace Docsig

namespace Value

/-- Freezing makes no number of what is none. -/
theorem isNonFinite_freeze {v : Value} : v.freeze.IsNonFinite ↔ v.IsNonFinite := by
  cases v <;> simp [freeze, IsNonFinite]

end Value

namespace Definition

open Code.Literal

def DefaultsValid (d : Definition) : Prop :=
  ∀ p ∈ d.params, ∀ v, p.default? = some v →
    validate (Tag.ofName? p.type) v true (Entry.ofNested p.schema? p.members?) = true

/-- What parameter the initial value of a formal parameter speaks for. -/
structure Inferred (f : Formal) (p : Parameter) : Prop where
  name : p.name = f.name
  schema : p.schema? = none
  members : p.members? = none
  /-- The type is the class of the initial value, and this is the default, frozen in the
  parameter and exported as it is. -/
  literal : ∃ e v, f.default? = some e ∧ Denotes e v ∧ p.type = v.classify.name ∧
    p.default? = some v.freeze ∧ p.toValue.get? "defaultValue" = some v
  /-- The default is valid for the parameter unless it is infinite. -/
  valid : ∀ v, p.default? = some v →
    (validate (Tag.ofName? p.type) v true (Entry.ofNested p.schema? p.members?) = true ↔
      ¬ v.IsNonFinite)

variable {f : Formal} {fs : List Formal} {p : Parameter} {ps : List Parameter}

/-! ### One parameter -/

/-- A formal parameter speaks for one with the class of its initial value. -/
theorem inferParam_eq_ok : inferParam f = .ok p ↔ ∃ e v, f.default? = some e ∧ Denotes e v ∧
    p = { name := f.name, type := v.classify.name, default? := some v.freeze } := by
  unfold inferParam
  cases f.default? with
  | none => simp
  | some e =>
      rw [bind_eq_ok]
      constructor
      · rintro ⟨v, hv, ⟨⟩⟩
        exact ⟨e, v, rfl, defaultValue_eq_ok.mp hv, rfl⟩
      · rintro ⟨_, v, ⟨⟩, denotes, rfl⟩
        exact ⟨v, defaultValue_eq_ok.mpr denotes, rfl⟩

/-- A parameter is inferred if its default is written and denotes a value. -/
theorem exists_inferParam_iff :
    (∃ p, inferParam f = .ok p) ↔ ∃ e v, f.default? = some e ∧ Denotes e v := by
  constructor
  · rintro ⟨p, h⟩
    obtain ⟨e, v, written, denotes, -⟩ := inferParam_eq_ok.mp h
    exact ⟨e, v, written, denotes⟩
  · rintro ⟨e, v, written, denotes⟩
    exact ⟨_, inferParam_eq_ok.mpr ⟨e, v, written, denotes, rfl⟩⟩

/-- **What is inferred is valid unless it is infinite.** Freezing a value changes neither its
class nor what it belongs to. -/
theorem inferParam_inferred (h : inferParam f = .ok p) : Inferred f p := by
  obtain ⟨e, v, written, denotes, rfl⟩ := inferParam_eq_ok.mp h
  refine ⟨rfl, rfl, rfl, ⟨e, v, written, denotes, rfl, rfl, ?_⟩, ?_⟩
  · rw [Parameter.get?_defaultValue]
    exact congrArg some denotes.isOpen.thaw_freeze
  · rintro _ ⟨⟩
    rw [Tag.ofName?_name, validate_freeze, Value.isNonFinite_freeze]
    exact validate_classify

/-! ### Sources -/

/-- A block without a parameter has no parameters. -/
theorem Draft.read_params_eq_nil {ds : List Comment.Declaration} {r : Declared}
    (h : Draft.read ds = .ok r) (undeclared : ∀ d ∈ ds, Draft.isParam d = false) :
    r.params = [] := by
  have rooted := (Draft.read_rooted h).1
  have none : ((Draft.groups ds).2.filter fun g => Draft.isParam g.head) = [] := by
    refine List.filter_eq_nil_iff.mpr fun g hg => ?_
    have member : g.head ∈ ds := Draft.groups_subset hg List.mem_cons_self
    simp [undeclared g.head member]
  exact List.forall₂_nil_left_iff.mp (none ▸ rooted)

/-- **Which sources without declared parameters have a definition, and which parameters it
has.** Once the comment block, which declares none, and the signature are read, the source
parses exactly if every formal parameter has a literal for an initial value. The parameters
are inferred from these one by one, and each default is valid for its parameter unless it is
an infinite number. -/
theorem parse_inferred {charge : Int} {pathname : String} {contents : Contents} {parts : Parts}
    (read : readParts pathname contents = .ok parts)
    (undeclared : ∀ d ∈ parts.block.declarations, Draft.isParam d = false) :
    ((∃ d, parse charge pathname contents = .ok d) ↔
        ∀ f ∈ parts.signature.formals, ∃ e v, f.default? = some e ∧ Denotes e v) ∧
      ∀ d, parse charge pathname contents = .ok d →
        List.Forall₂ Inferred parts.signature.formals d.params ∧
        (d.DefaultsValid ↔ ∀ p ∈ d.params, ∀ v, p.default? = some v → ¬ v.IsNonFinite) := by
  obtain ⟨-, -, -, -, -, declared, -⟩ := readParts_ok read
  -- no parameter is declared, so that all of them are inferred
  have params : parts.params = inferParams parts.signature.formals :=
    if_pos (List.isEmpty_iff.mpr (Draft.read_params_eq_nil declared undeclared))
  refine ⟨?_, fun d hd => ?_⟩
  · have parsed : (∃ d, parse charge pathname contents = .ok d) ↔ ∃ ps, parts.params = .ok ps := by
      simp only [parse_eq_ok read]
      exact ⟨fun ⟨_, ps, hps, _⟩ => ⟨ps, hps⟩, fun ⟨ps, hps⟩ => ⟨_, ps, hps, rfl⟩⟩
    rw [parsed, params, inferParams, exists_mapM_iff]
    exact forall₂_congr fun f _ => exists_inferParam_iff
  · obtain ⟨ps, hps, rfl⟩ := (parse_eq_ok read).mp hd
    rw [params, inferParams, mapM_eq_ok] at hps
    have inferred : List.Forall₂ Inferred parts.signature.formals ps :=
      hps.imp fun f p h => inferParam_inferred h
    refine ⟨inferred, forall₂_congr fun p hp => forall₂_congr fun v hv => ?_⟩
    obtain ⟨f, -, of⟩ := exists_of_mem_right inferred hp
    exact of.valid v hv

/-- A source with a signed number, null below a list, an infinity inside a map, and a context. -/
def inferredSource : String :=
  "# Does it.\ndef f(a=-1.5, b=[None, 'x'], c=\x7b'k': 1e999\x7d, context=None): pass\n"

theorem parse_inferred_mixed :
    ∃ parts d, readParts "f.py" (.text inferredSource) = .ok parts ∧
      (∀ d ∈ parts.block.declarations, Draft.isParam d = false) ∧
      parse 1 "f.py" (.text inferredSource) = .ok d ∧
      List.Forall₂ Inferred parts.signature.formals d.params := by
  have reads : ((readParts "f.py" (.text inferredSource)).toOption.any fun parts =>
      parts.block.declarations.isEmpty && parts.params.isOk) = true := by decide +kernel
  obtain ⟨parts, found, bare⟩ := (Option.any_eq_true _ _).mp reads
  obtain ⟨bare, inferred⟩ := Bool.and_eq_true_iff.mp bare
  have hparts : readParts "f.py" (.text inferredSource) = .ok parts := mem_toOption.mp found
  have undeclared : ∀ d ∈ parts.block.declarations, Draft.isParam d = false := by
    simp [List.isEmpty_iff.mp bare]
  obtain ⟨ps, hps⟩ := exists_of_isOk inferred
  have hd := (@parse_eq_ok 1 _ _ _ _ hparts).mpr ⟨ps, hps, rfl⟩
  exact ⟨parts, _, hparts, undeclared, hd, ((parse_inferred hparts undeclared).2 _ hd).1⟩

/-- A literal that overflows is the default of an object, and it is none. -/
theorem parse_infinite : ∃ d, parse 1 "f.py" (.text "def f(a=1e999): pass\n") = .ok d ∧
    ¬ d.DefaultsValid := by
  have parsed : ((parse 1 "f.py" (.text "def f(a=1e999): pass\n")).toOption.any fun d =>
      d.params.any fun p => p.default?.any fun v =>
        !validate (Tag.ofName? p.type) v true (Entry.ofNested p.schema? p.members?)) = true := by
    decide +kernel
  obtain ⟨d, found, invalid⟩ := (Option.any_eq_true _ _).mp parsed
  obtain ⟨p, hp, invalid⟩ := List.any_eq_true.mp invalid
  obtain ⟨v, hv, invalid⟩ := (Option.any_eq_true _ _).mp invalid
  refine ⟨d, mem_toOption.mp found, fun valid => ?_⟩
  rw [valid p hp v hv] at invalid
  cases invalid

end Definition

end Docsig
