import Docsig.Proofs.Definition.Defaults
import Docsig.Proofs.JsonSchema.Export
import Docsig.Proofs.Page.Render

/-!
Parsed definitions can be exported.

A value in a definition comes from a literal of its source, and the keys of a literal are
texts: `Denotes.isWritable`. `Draft.Writable` carries this through the comment block, where
members stand at any depth, and `parse_holds` to the definition, which has no other values.

* `parse_exports`: a parsed definition has a JSON Schema, a JSON text and its pages.
-/

namespace Docsig

/-- JSON text goes up from values to lists and records. -/
theorem Value.IsWritable.composes : Composes IsWritable where
  null := ⟨_, rfl⟩
  int _ := ⟨_, rfl⟩
  text _ := ⟨_, rfl⟩
  list := isWritable_seq.mpr
  record _ h := .map fun e he => by
    obtain ⟨f, hf, rfl⟩ := List.mem_map.mp he
    exact ⟨⟨f.1, rfl⟩, h f hf⟩

/-! ### Literals -/

namespace Code.Literal

mutual

/-- Literals stand for values that have JSON texts. -/
theorem Denotes.isWritable {e : Expr} {v : Value} : Denotes e v → v.IsWritable
  | .null _ | .bool _ _ | .int _ _ | .float _ _ | .text _ _ _ => ⟨_, rfl⟩
  | .minusInt _ _ _ | .plusInt _ _ _ | .minusFloat _ _ _ | .plusFloat _ _ _ => ⟨_, rfl⟩
  | .list items | .tuple items => Value.isWritable_seq.mpr items.isWritable
  | .dict entries => .map (Value.ofEntries_forall (P := fun k => ∃ s, k = .text s)
      entries.isWritable)

theorem DenotesItems.isWritable {es : List Expr} {vs : List Value} :
    DenotesItems es vs → ∀ v ∈ vs, v.IsWritable
  | .nil => by simp
  | .cons head tail => List.forall_mem_cons.mpr ⟨head.isWritable, tail.isWritable⟩

theorem DenotesEntries.isWritable {entries : List (Option Expr × Expr)}
    {es : List (Value × Value)} :
    DenotesEntries entries es → ∀ e ∈ es, (∃ s, e.1 = .text s) ∧ e.2.IsWritable
  | .nil => by simp
  | .cons _ value tail => List.forall_mem_cons.mpr ⟨⟨⟨_, rfl⟩, value.isWritable⟩, tail.isWritable⟩

end

/-- A literal can be written. -/
theorem ofText_isWritable {cs : List Char} {v : Value} (h : ofText cs = .ok v) :
    v.IsWritable := by
  unfold ofText at h
  dsimp only at h
  split at h
  · cases h
  · cases h
  · split at h
    · rename_i evaluated
      cases h
      exact (ofExpr_eq_ok.mp evaluated).isWritable
    · cases h

end Code.Literal

namespace Definition

open Value (IsWritable isWritable_seq isWritable_thaw isWritable_freeze)

variable {charge : Int} {pathname : String} {contents : Contents} {parts : Parts}
  {ps : List Parameter}

/-! ### Drafts -/

namespace Draft

variable {d draft : Draft} {s : Source} {fields : List Field}

theorem memberOf?_isWritable {literal : Value} {m : String × Value} (h : literal.IsWritable)
    (member : memberOf? literal = some m) : m.2.IsWritable := by
  unfold memberOf? at member
  split at member
  · cases member
    exact isWritable_seq.mp h _ (by simp)
  · cases member
  · cases member
    exact h
  · obtain ⟨label, -, rfl⟩ := Option.map_eq_some_iff.mp member
    exact h

/-- The values of members can be written. -/
theorem readMembers_isWritable {texts labels : List String} {line : Nat}
    {ms : List (String × Value)} (h : readMembers labels line texts = .ok ms) :
    ∀ m ∈ ms, m.2.IsWritable := by
  induction texts generalizing labels line ms with
  | nil =>
      cases h
      simp
  | cons text texts ih =>
      rw [readMembers] at h
      split at h
      · cases h
      rename_i literal read
      split at h
      · cases h
      rename_i label value member
      obtain ⟨-, h⟩ := guard_eq_ok.mp h
      obtain ⟨rest, hrest, ⟨⟩⟩ := bind_eq_ok.mp h
      exact List.forall_mem_cons.mpr
        ⟨memberOf?_isWritable (Code.Literal.ofText_isWritable read) member, ih hrest⟩

/-- A draft whose members have JSON texts, at every depth. -/
inductive Writable : Draft → Prop
  | mk {d : Draft} : (∀ ms, d.members? = some ms → ∀ m ∈ ms, m.2.IsWritable) →
      (∀ e ∈ d.schema, Writable e) → Writable d

theorem ofSource_members (h : ofSource s = .ok d) :
    ∀ ms, d.members? = some ms → ∀ m ∈ ms, m.2.IsWritable := by
  unfold ofSource at h
  split at h
  · cases h
  · obtain ⟨read, hread, h⟩ := bind_eq_ok.mp h
    obtain ⟨-, h⟩ := guard_eq_ok.mp h
    cases h
    rintro ms ⟨⟩
    exact readMembers_isWritable hread
  · cases h
    exact nofun

/-- Members can be written in every field, at any depth. -/
theorem readFields_writable {fuel : Nat} {parent : Draft} {filled : Bool} {indent : Nat}
    {rest : List Field} {schema : List Draft}
    (h : readFields fuel parent filled indent fields = .ok (schema, rest)) :
    ∀ e ∈ schema, e.Writable := by
  induction fuel generalizing parent filled indent fields rest schema with
  | zero =>
      cases h
      simp
  | succ fuel ih =>
      cases fields with
      | nil =>
          cases h
          simp
      | cons f fields =>
          rw [readFields] at h
          split at h
          · cases h
            simp
          obtain ⟨⟨⟩, -, h⟩ := bind_eq_ok.mp h
          obtain ⟨draft, draftOk, h⟩ := bind_eq_ok.mp h
          obtain ⟨⟨below, left⟩, belowOk, h⟩ := bind_eq_ok.mp h
          obtain ⟨⟨siblings, left'⟩, siblingsOk, h⟩ := bind_eq_ok.mp h
          cases h
          have members := ofSource_members draftOk
          exact List.forall_mem_cons.mpr ⟨.mk members (ih belowOk), ih siblingsOk⟩

theorem withFields_writable (source : ofSource s = .ok draft)
    (h : draft.withFields fields = .ok d) : d.Writable := by
  obtain ⟨⟨schema, rest⟩, read, ⟨⟩⟩ := bind_eq_ok.mp h
  have members := ofSource_members source
  exact .mk members (readFields_writable read)

/-- The parameter of a draft has no other members than the draft, and no default but null. -/
theorem Writable.toParameter_holds (h : d.Writable) :
    ∀ q ∈ d.toParameter.entries, q.Holds IsWritable := by
  -- by the tree of drafts: the default and the members of the draft itself, and the entries
  -- below
  induction h with
  | @mk d members below ih =>
      intro q hq
      rcases mem_entries.mp hq with rfl | ⟨ps, hps, f, hf, hq⟩
      · refine ⟨fun v hv => ?_, fun ms hms m hm => ?_⟩
        · rw [toParameter_default?, impliedDefault?] at hv
          split at hv
          · cases hv
            exact ⟨_, rfl⟩
          · cases hv
        · rw [toParameter_members?] at hms
          obtain ⟨own, hown, rfl⟩ := Option.map_eq_some_iff.mp hms
          obtain ⟨m, mem, rfl⟩ := List.mem_map.mp hm
          exact isWritable_thaw.mpr (isWritable_freeze.mpr (members own hown m mem))
      · obtain ⟨-, rfl⟩ := mem_of_toParameter_schema? hps
        obtain ⟨e, he, rfl⟩ := List.mem_map.mp hf
        exact ih e he q hq

/-- An initial value changes nothing but the default. -/
theorem Writable.withDefault_holds {v? : Option Value} (h : d.Writable)
    (initial : ∀ v, (d.withDefault v?).default? = some v → v.IsWritable) :
    ∀ q ∈ (d.withDefault v?).entries, q.Holds IsWritable := by
  intro q hq
  rcases mem_entries.mp hq with rfl | ⟨ps, hps, f, hf, hq⟩
  · have own : d.toParameter.Holds IsWritable := h.toParameter_holds _ (self_mem_entries _)
    exact ⟨fun v hv => isWritable_thaw.mpr (initial v hv), own.members⟩
  · exact h.toParameter_holds q (entries_of_field hps hf hq)

end Draft

/-! ### Parameters -/

/-- A settled default can be written: it is a literal, or null. -/
theorem Settled.default_isWritable {d : Draft} {f : Formal} {p : Parameter} (h : Settled d f p) :
    ∀ v, p.default? = some v → v.IsWritable := by
  intro v hv
  cases initial : f.default? with
  | none =>
      rw [(h.implied initial).1] at hv
      split at hv
      · cases hv
        exact ⟨_, rfl⟩
      · cases hv
  | some e =>
      obtain ⟨u, denotes, default, -⟩ := h.literal e initial
      rw [default] at hv
      cases hv
      exact isWritable_freeze.mpr denotes.isWritable

theorem inferParam_holds {f : Formal} {p : Parameter} (h : inferParam f = .ok p) :
    ∀ q ∈ p.entries, q.Holds IsWritable := by
  unfold inferParam at h
  split at h
  · cases h
  · obtain ⟨v, denotes, ⟨⟩⟩ := bind_eq_ok.mp h
    intro q hq
    rcases mem_entries.mp hq with rfl | ⟨ps, hps, -⟩
    · refine ⟨?_, nofun⟩
      rintro _ ⟨⟩
      exact isWritable_thaw.mpr
        (isWritable_freeze.mpr (defaultValue_eq_ok.mp denotes).isWritable)
    · cases hps

/-- What the parameters store can be written. -/
theorem Parts.params_holds (declared : ∀ d ∈ parts.declared.params, d.Writable)
    (h : parts.params = .ok ps) : ∀ q ∈ allEntries ps, q.Holds IsWritable := by
  intro q hq
  obtain ⟨p, hp, hq⟩ := mem_allEntries.mp hq
  unfold params at h
  split at h
  · obtain ⟨f, -, inferred⟩ := exists_of_mem_right (mapM_eq_ok.mp h) hp
    exact inferParam_holds inferred q hq
  · obtain ⟨⟨d', f⟩, -, settled⟩ := exists_of_mem_right (matchParams_settled h) hp
    obtain ⟨length, h⟩ := guard_eq_ok.mp h
    obtain ⟨d, hd, v?, rfl⟩ := (matchFrom_ok (by simpa using length) h).2 p hp
    exact (declared d hd).withDefault_holds settled.default_isWritable q hq

theorem Declared.returnSpec_holds {d : Declared} (h : ∀ r, d.returns? = some r → r.Writable) :
    EntryHolds IsWritable d.returnSpec.default? d.returnSpec.members? ∧
      ∀ q ∈ schemaEntries d.returnSpec.schema?, q.Holds IsWritable := by
  unfold returnSpec
  cases found : d.returns? with
  | none => exact ⟨⟨nofun, nofun⟩, nofun⟩
  | some r =>
      have holds := (h r found).toParameter_holds
      refine ⟨holds _ (self_mem_entries _), fun q hq => holds q ?_⟩
      rw [Parameter.entries_eq]
      exact List.mem_cons_of_mem _ hq

/-! ### Whole definitions -/

/-- All values in a parsed definition have JSON texts. -/
theorem parse_holds {d : Definition} (h : parse charge pathname contents = .ok d) :
    d.Holds IsWritable := by
  obtain ⟨parts, ps, hparts, hps, rfl⟩ := parse_ok h
  obtain ⟨-, -, -, -, -, read, -⟩ := readParts_ok hparts
  have drafts : parts.declared.All Draft.Writable := Draft.read_all Draft.withFields_writable read
  have ⟨returns, returned⟩ := Declared.returnSpec_holds drafts.returns
  exact ⟨parts.params_holds drafts.params hps, returns, returned⟩

/-- A parsed definition has a schema. -/
theorem parse_schema {d : Definition} (h : parse charge pathname contents = .ok d) :
    ∃ schema, Schema.ofDefinition d = .ok schema := by
  obtain ⟨parts, ps, hparts, hps, rfl⟩ := parse_ok h
  obtain ⟨-, -, -, -, -, read, signed⟩ := readParts_ok hparts
  have ⟨built, differ, _⟩ := Draft.read_built read
  have ⟨names, formed⟩ := parts.params_ok built differ hps
  have nodup : (ps.map Parameter.name).Nodup := names ▸ (Signature.ofFunction_ok signed).2.2.1
  obtain ⟨fields, -, schema⟩ := Schema.ofDefinition_ok (d := parts.definition pathname charge ps)
    nodup fun q hq =>
      have ⟨p, hp, hq⟩ := mem_allEntries.mp hq
      (formed p hp q hq).toEntryShape
  exact ⟨_, schema⟩

/-- **Every parsed definition can be exported.** It has a JSON Schema, which names no unknown
type and requires no name twice, its record has a JSON text, and it has a page under every
key. -/
theorem parse_exports {d : Definition} (h : parse charge pathname contents = .ok d) :
    (∃ schema, Schema.ofDefinition d = .ok schema) ∧
      (∃ text, Json.text d.toValue = .ok text) ∧
      ∀ key?, ∃ page, Page.render d key? = .ok page := by
  have holds := parse_holds h
  exact ⟨parse_schema h, (holds.toValue IsWritable.composes).exists_text, Page.exists_render holds⟩

/-- A source with a member and a default that hold maps. -/
def mapsSource : String :=
  "# @param \x7benum\x7d m\n#   [\"a\", \x7b\"k\": 1\x7d]\n# @param \x7bobject\x7d o\n" ++
    "# @ \x7b?number\x7d x\ndef f(m, o=\x7b'xs': ('a', None)\x7d):\n    return m\n"

theorem parse_exports_maps :
    ∃ d, parse 1 "f.py" (.text mapsSource) = .ok d ∧
      (∃ schema, Schema.ofDefinition d = .ok schema) ∧
      (∃ text, Json.text d.toValue = .ok text) ∧
      ∃ page, Page.render d (some "f") = .ok page := by
  have succeeds : (parse 1 "f.py" (.text mapsSource)).isOk = true := by decide +kernel
  obtain ⟨d, parsed⟩ := exists_of_isOk succeeds
  have ⟨schema, text, page⟩ := parse_exports parsed
  exact ⟨d, parsed, schema, text, page (some "f")⟩

end Definition

end Docsig
