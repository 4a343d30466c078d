import Docsig.Definition.Parse
import Docsig.Proofs.Definition.Draft
import Docsig.Settings.Basic

/-!
Definitions that sources parse into.

`Definition.WellFormed` lists what holds of every parsed definition at every
depth, `Signature.ofFunction_ok` ties its parameters to those of the entry
function. The declarations of a block are read one group after the other, and what holds
of drafts as they are made holds of all drafts of the block (`addGroup_all`, `read_all`);
`Declared.Built` is what each group keeps so (`addGroup_built`, `read_built`).
-/

namespace Docsig

/-! ### Well-formed definitions -/

/-- What holds of a definition that a source parses into. -/
structure Definition.WellFormed (d : Definition) : Prop where
  names : (d.params.map Parameter.name).Nodup
  no_context : Definition.contextName ∉ d.params.map Parameter.name
  params : ∀ q ∈ allEntries d.params, q.Formed
  returns : EntryForm d.returns.type d.returns.schema? d.returns.members?
  returned : ∀ q ∈ schemaEntries d.returns.schema?, q.Formed
  charge : 1 ≤ d.charge
  keys : d.keys.Nodup

/-- An entry without schema and members is in form if its type is a registered one
that lists no members. -/
theorem EntryForm.leaf {t : Tag} (h : t ≠ .enum) : EntryForm t.name none none where
  registered := Tag.isName_name t
  container := by simp
  single := by simp
  distinct := by simp
  defaults := by simp
  enumeration := by simp
  schema_ne_nil := by simp
  enumerated := fun eq => absurd (Tag.name_injective eq) h
  members_ne_nil := by simp
  labels := by simp

/-- No value is an enumeration by itself. -/
theorem Value.classify_ne_enum (v : Value) : v.classify ≠ .enum := by
  cases v with
  | float d => simp only [classify]; split <;> simp
  | _ => simp [classify]

/-- Settings that are accepted have a positive default charge. -/
theorem Settings.defaultCharge_pos {fields : List (String × Value)} {settings : Settings}
    (h : ofFields fields = .ok settings) : 1 ≤ settings.defaultCharge := by
  unfold ofFields at h
  split at h
  · cases h
  obtain ⟨-, -, h⟩ := bind_eq_ok.mp h
  obtain ⟨extensions, -, h⟩ := bind_eq_ok.mp h
  obtain ⟨-, h⟩ := guard_eq_ok.mp h
  obtain ⟨charge, charged, h⟩ := bind_eq_ok.mp h
  cases h
  unfold chargeOf at charged
  split at charged
  · split at charged
    · rename_i positive
      exact Except.ok.inj charged ▸ positive
    · cases charged
  · cases charged

namespace Code

/-! ### Keys -/

theorem distinct_nodup : ∀ ss : List String, (distinct ss).Nodup := by
  intro ss
  induction ss with
  | nil => exact List.nodup_nil
  | cons s ss ih =>
      refine List.nodup_cons.mpr ⟨?_, ih.filter _⟩
      simp

end Code

namespace Definition

/-! ### Signatures -/

namespace Signature

/-- Formal parameters that pass the check have different names. -/
theorem checkNames_ok :
    ∀ {fs : List Formal} {seen : List String}, checkNames seen fs = .ok () →
      (fs.map Formal.name).Nodup ∧ ∀ n ∈ fs.map Formal.name, n ∉ seen := by
  intro fs
  induction fs with
  | nil => intro seen _; simp
  | cons f fs ih =>
      intro seen h
      rw [checkNames] at h
      obtain ⟨fresh, h⟩ := guard_eq_ok.mp h
      have ⟨nodup, apart⟩ := ih h
      rw [List.contains_iff_mem] at fresh
      refine ⟨List.nodup_cons.mpr ⟨fun mem => apart _ mem List.mem_cons_self, nodup⟩, ?_⟩
      intro n hn
      rcases List.mem_cons.mp hn with rfl | hn
      · exact fresh
      · exact fun mem => apart n hn (List.mem_cons_of_mem _ mem)

theorem checkContext_ok :
    ∀ {fs : List Formal}, checkContext fs = .ok () → contextName ∉ fs.map Formal.name := by
  intro fs
  induction fs with
  | nil => intro _; simp
  | cons f fs ih =>
      intro h
      rw [checkContext] at h
      obtain ⟨other, h⟩ := guard_eq_ok.mp h
      rw [List.map_cons, List.mem_cons, not_or]
      exact ⟨fun eq => other eq.symm, ih h⟩

/-- Splitting off the context only cuts the list. -/
theorem splitContext_names (fs : List Formal) :
    fs.map Formal.name = (splitContext fs).1.map Formal.name ++
        ((splitContext fs).2.map fun _ => contextName).toList ∧
      ((splitContext fs).2.isSome = true ↔
        (fs.map Formal.name).getLast? = some contextName) := by
  unfold splitContext
  rw [List.getLast?_map]
  cases h : fs.getLast? with
  | none => simp
  | some last =>
      by_cases context : last.name = contextName
      · obtain ⟨init, rfl⟩ := List.getLast?_eq_some_iff.mp h
        simp [context]
      · simp [context]

/-- The names in a signature are those of the function, the context split off. -/
theorem ofFunction_ok {pathname : String} {f : Code.Function} {s : Signature}
    (h : ofFunction pathname f = .ok s) :
    f.params.map Code.Param.name =
        s.formals.map Formal.name ++ (s.context?.map fun _ => contextName).toList ∧
      (s.context?.isSome = true ↔
        (f.params.map Code.Param.name).getLast? = some contextName) ∧
      (s.formals.map Formal.name).Nodup ∧ contextName ∉ s.formals.map Formal.name := by
  unfold ofFunction at h
  obtain ⟨-, h⟩ := guard_eq_ok.mp h
  obtain ⟨-, h⟩ := guard_eq_ok.mp h
  obtain ⟨⟨⟩, unique, h⟩ := bind_eq_ok.mp h
  have nodup := (checkNames_ok unique).1
  have ⟨split, last⟩ := splitContext_names (f.params.map formalOf)
  -- the last parameter may be the context, which is split off
  cases parts : splitContext (f.params.map formalOf) with
  | mk formals context? =>
      simp only [parts] at h split last
      obtain ⟨⟨⟩, noContext, h⟩ := bind_eq_ok.mp h
      cases h
      have names : f.params.map Code.Param.name = (f.params.map formalOf).map Formal.name := by
        rw [List.map_map]; rfl
      rw [split] at nodup
      refine ⟨?_, ?_, (List.nodup_append.mp nodup).1, checkContext_ok noContext⟩
      · rw [names, split, Option.map_map]; rfl
      · rw [names, Option.isSome_map, last]

end Signature

/-! ### Declarations -/

/-- What holds of all drafts of a block. -/
structure Declared.All (P : Draft → Prop) (d : Declared) : Prop where
  params : ∀ p ∈ d.params, P p
  returns : ∀ r, d.returns? = some r → P r

/-- What each group of declarations keeps. -/
structure Declared.Built (d : Declared) : Prop where
  params : ∀ p ∈ d.params, p.Built
  returns : ∀ r, d.returns? = some r → r.Built
  charge : ∀ c, d.charge? = some c → 1 ≤ c

namespace Draft

theorem chargeOf?_pos {text : String} {c : Int} (h : chargeOf? text = some c) : 1 ≤ c := by
  obtain ⟨-, h⟩ := Option.filter_eq_some_iff.mp h
  simpa using h

variable {P : Draft → Prop} {d d' : Declared} {g : Group}

/-- A group of declarations adds drafts that are made from a source and its fields. -/
theorem addGroup_all
    (made : ∀ {s draft full fields}, ofSource s = .ok draft → draft.withFields fields = .ok full →
      P full)
    (all : d.All P) (h : addGroup d g = .ok d') : d'.All P := by
  unfold addGroup at h
  split at h
  · -- a parameter
    obtain ⟨-, h⟩ := guard_eq_ok.mp h
    obtain ⟨draft, source, h⟩ := bind_eq_ok.mp h
    obtain ⟨full, fields, h⟩ := bind_eq_ok.mp h
    cases h
    refine ⟨fun p hp => ?_, all.returns⟩
    rcases List.mem_append.mp hp with hp | hp
    · exact all.params p hp
    · rw [List.mem_singleton.mp hp]
      exact made source fields
  · -- the return value
    obtain ⟨-, h⟩ := guard_eq_ok.mp h
    obtain ⟨draft, source, h⟩ := bind_eq_ok.mp h
    obtain ⟨full, fields, h⟩ := bind_eq_ok.mp h
    cases h
    exact ⟨all.params, fun r hr => Option.some.inj hr ▸ made source fields⟩
  · -- the charge
    obtain ⟨-, h⟩ := guard_eq_ok.mp h
    obtain ⟨-, h⟩ := guard_eq_ok.mp h
    split at h
    · cases h
    · obtain ⟨-, -, h⟩ := bind_eq_ok.mp h
      cases h
      exact ⟨all.params, all.returns⟩
  · cases h
    exact all

/-- A charge that is declared is positive. -/
theorem addGroup_charge (positive : ∀ c, d.charge? = some c → 1 ≤ c)
    (h : addGroup d g = .ok d') : ∀ c, d'.charge? = some c → 1 ≤ c := by
  unfold addGroup at h
  split at h
  · obtain ⟨-, h⟩ := guard_eq_ok.mp h
    obtain ⟨draft, -, h⟩ := bind_eq_ok.mp h
    obtain ⟨full, -, h⟩ := bind_eq_ok.mp h
    cases h
    exact positive
  · obtain ⟨-, h⟩ := guard_eq_ok.mp h
    obtain ⟨draft, -, h⟩ := bind_eq_ok.mp h
    obtain ⟨full, -, h⟩ := bind_eq_ok.mp h
    cases h
    exact positive
  · -- the charge
    obtain ⟨-, h⟩ := guard_eq_ok.mp h
    obtain ⟨-, h⟩ := guard_eq_ok.mp h
    split at h
    · cases h
    · rename_i charge amount
      obtain ⟨-, -, h⟩ := bind_eq_ok.mp h
      cases h
      exact fun c hc => Option.some.inj hc ▸ chargeOf?_pos amount
  · cases h
    exact positive

theorem addGroup_built (built : d.Built) (h : addGroup d g = .ok d') : d'.Built :=
  have all : d'.All Draft.Built :=
    addGroup_all (fun source fields => (withFields_built source fields).2)
      ⟨built.params, built.returns⟩ h
  ⟨all.params, all.returns, addGroup_charge built.charge h⟩

/-- A block is a run over its groups, and no two of its fields share a name. -/
theorem read_ok {ds : List Comment.Declaration} (h : read ds = .ok d) :
    (groups ds).2.foldlM addGroup {} = .ok d ∧ (∀ p ∈ d.params, p.FieldsDiffer) ∧
      ∀ r, d.returns? = some r → r.FieldsDiffer := by
  obtain ⟨⟨⟩, -, h⟩ := bind_eq_ok.mp h
  obtain ⟨declared, run, h⟩ := bind_eq_ok.mp h
  obtain ⟨⟨⟩, params, h⟩ := bind_eq_ok.mp h
  split at h
  · rename_i r hr
    obtain ⟨⟨⟩, returns, h⟩ := bind_eq_ok.mp h
    cases h
    refine ⟨run, (checkUnique_ok params).2.2, fun r' hr' => ⟨"return schema", ?_⟩⟩
    rw [hr] at hr'
    exact Option.some.inj hr' ▸ returns
  · rename_i hr
    cases h
    exact ⟨run, (checkUnique_ok params).2.2, fun r' hr' => by rw [hr] at hr'; cases hr'⟩

/-- What is read from a block is built, and no two of its fields share a name. -/
theorem read_built {ds : List Comment.Declaration} (h : read ds = .ok d) :
    d.Built ∧ (∀ p ∈ d.params, p.FieldsDiffer) ∧ ∀ r, d.returns? = some r → r.FieldsDiffer := by
  have ⟨run, differ⟩ := read_ok h
  exact ⟨foldlM_keeps Declared.Built (fun _ _ _ => addGroup_built)
    (b := {}) ⟨by simp, by simp, by simp⟩ run, differ⟩

/-- What holds of drafts as they are made holds of all drafts of a block. -/
theorem read_all {ds : List Comment.Declaration}
    (made : ∀ {s draft full fields}, ofSource s = .ok draft → draft.withFields fields = .ok full →
      P full)
    (h : read ds = .ok d) : d.All P :=
  foldlM_keeps (Declared.All P) (fun _ _ _ => addGroup_all made) (b := {}) ⟨by simp, by simp⟩
    (read_ok h).1

/-- An initial value changes nothing but the default. -/
theorem withDefault_formed {d : Draft} (default? : Option Value)
    (formed : ∀ q ∈ d.toParameter.entries, q.Formed) :
    ∀ q ∈ (d.withDefault default?).entries, q.Formed := by
  intro q hq
  rcases mem_entries.mp hq with rfl | ⟨ps, hps, f, hf, hq⟩
  · have own : d.toParameter.Formed := formed _ (self_mem_entries _)
    exact own
  · exact formed q (entries_of_field hps hf hq)

theorem withDefault_name (d : Draft) (default? : Option Value) :
    (d.withDefault default?).name = d.name?.getD "" :=
  toParameter_name d

end Draft

/-- The return specification of a block is in form at every depth. -/
theorem Declared.returnSpec_formed {d : Declared} (built : d.Built)
    (differ : ∀ r, d.returns? = some r → r.FieldsDiffer) :
    EntryForm d.returnSpec.type d.returnSpec.schema? d.returnSpec.members? ∧
      ∀ q ∈ schemaEntries d.returnSpec.schema?, q.Formed := by
  unfold returnSpec
  cases h : d.returns? with
  | none => exact ⟨EntryForm.leaf (t := .any) (by simp), by simp [schemaEntries]⟩
  | some r =>
      have formed := (built.returns r h).formed (differ r h)
      refine ⟨formed _ (self_mem_entries _), fun q hq => formed q ?_⟩
      rw [Parameter.entries_eq]
      exact List.mem_cons_of_mem _ hq

/-! ### Parameters -/

/-- A declared parameter has the name of the formal one, and is the draft with some default. -/
theorem matchParam_ok {position : Nat} {d : Draft} {f : Formal} {p : Parameter}
    (h : matchParam position d f = .ok p) :
    p.name = f.name ∧ ∃ default?, p = d.withDefault default? := by
  unfold matchParam at h
  obtain ⟨name, h⟩ := guard_eq_ok.mp h
  rw [ne_eq, not_not] at name
  have named : ∀ default?, (d.withDefault default?).name = f.name := fun default? => by
    rw [Draft.withDefault_name, name]; rfl
  split at h
  · cases h
    exact ⟨named none, none, rfl⟩
  · obtain ⟨v, -, h⟩ := bind_eq_ok.mp h
    split at h
    · cases h
      exact ⟨named (some v), some v, rfl⟩
    · cases h

/-- Drafts and formal parameters are matched in order, every one with its
counterpart. -/
theorem matchFrom_ok :
    ∀ {ds : List Draft} {fs : List Formal} {position : Nat} {ps : List Parameter},
      ds.length = fs.length → matchFrom position ds fs = .ok ps →
        ps.map Parameter.name = fs.map Formal.name ∧
          ∀ p ∈ ps, ∃ d ∈ ds, ∃ default?, p = d.withDefault default? := by
  intro ds
  -- by induction on the drafts, beside which the formal parameters stand one by one
  induction ds with
  | nil =>
      intro fs position ps length h
      obtain rfl := List.length_eq_zero_iff.mp length.symm
      cases h
      simp
  | cons d ds ih =>
      intro fs position ps length h
      cases fs with
      | nil => simp at length
      | cons f fs =>
          rw [matchFrom] at h
          obtain ⟨p, hp, h⟩ := bind_eq_ok.mp h
          obtain ⟨rest, hrest, h⟩ := bind_eq_ok.mp h
          cases h
          obtain ⟨name, default?, rfl⟩ := matchParam_ok hp
          have ⟨names, drafts⟩ := ih (by simpa using length) hrest
          refine ⟨by rw [List.map_cons, List.map_cons, name, names], ?_⟩
          intro q hq
          rcases List.mem_cons.mp hq with rfl | hq
          · exact ⟨d, List.mem_cons_self, default?, rfl⟩
          · obtain ⟨e, he, hq⟩ := drafts q hq
            exact ⟨e, List.mem_cons_of_mem _ he, hq⟩

/-- An inferred parameter has the name of the formal one and is well-formed. -/
theorem inferParam_ok {f : Formal} {p : Parameter} (h : inferParam f = .ok p) :
    p.name = f.name ∧ ∀ q ∈ p.entries, q.Formed := by
  unfold inferParam at h
  split at h
  · cases h
  · obtain ⟨v, -, h⟩ := bind_eq_ok.mp h
    cases h
    refine ⟨rfl, fun q hq => ?_⟩
    rcases mem_entries.mp hq with rfl | ⟨ps, hps, -⟩
    · exact EntryForm.leaf v.classify_ne_enum
    · cases hps

theorem inferParams_ok {fs : List Formal} {ps : List Parameter} (h : inferParams fs = .ok ps) :
    ps.map Parameter.name = fs.map Formal.name ∧ ∀ p ∈ ps, ∀ q ∈ p.entries, q.Formed := by
  have each := mapM_eq_ok.mp h
  clear h
  induction each with
  | nil => simp
  | cons h _ ih =>
      have ⟨name, formed⟩ := inferParam_ok h
      refine ⟨by rw [List.map_cons, List.map_cons, name, ih.1], ?_⟩
      intro p hp
      rcases List.mem_cons.mp hp with rfl | hp
      · exact formed
      · exact ih.2 p hp

/-- The parameters of a definition are the formal parameters, each in form at every
depth. -/
theorem Parts.params_ok {parts : Parts} {ps : List Parameter} (built : parts.declared.Built)
    (differ : ∀ d ∈ parts.declared.params, d.FieldsDiffer) (h : parts.params = .ok ps) :
    ps.map Parameter.name = parts.signature.formals.map Formal.name ∧
      ∀ p ∈ ps, ∀ q ∈ p.entries, q.Formed := by
  unfold params at h
  split at h
  · exact inferParams_ok h
  · obtain ⟨length, h⟩ := guard_eq_ok.mp h
    have ⟨names, drafts⟩ := matchFrom_ok (by simpa using length) h
    refine ⟨names, fun p hp => ?_⟩
    obtain ⟨d, hd, default?, rfl⟩ := drafts p hp
    exact Draft.withDefault_formed default? ((built.params d hd).formed (differ d hd))

/-! ### Whole definitions -/

/-- The parts of a source and where they come from. -/
theorem readParts_ok {pathname : String} {contents : Contents} {parts : Parts}
    (h : readParts pathname contents = .ok parts) :
    ∃ cs ss, contents.decode = .ok cs ∧ statements cs = .ok ss ∧
      entryFunction ss = .ok parts.function ∧
      Draft.read parts.block.declarations = .ok parts.declared ∧
      Signature.ofFunction pathname parts.function = .ok parts.signature := by
  obtain ⟨cs, decoded, h⟩ := bind_eq_ok.mp h
  obtain ⟨-, -, h⟩ := bind_eq_ok.mp h
  obtain ⟨ss, parsed, h⟩ := bind_eq_ok.mp h
  obtain ⟨f, entry, h⟩ := bind_eq_ok.mp h
  obtain ⟨block, -, h⟩ := bind_eq_ok.mp h
  obtain ⟨declared, read, h⟩ := bind_eq_ok.mp h
  obtain ⟨signature, signed, h⟩ := bind_eq_ok.mp h
  cases h
  exact ⟨cs, ss, decoded, parsed, entry, read, signed⟩

/-- A definition is put together from the parts of its source. -/
theorem parse_ok {charge : Int} {pathname : String} {contents : Contents} {d : Definition}
    (h : parse charge pathname contents = .ok d) :
    ∃ parts ps, readParts pathname contents = .ok parts ∧ parts.params = .ok ps ∧
      d = parts.definition pathname charge ps := by
  obtain ⟨parts, hparts, h⟩ := bind_eq_ok.mp (mapError_eq_ok.mp h)
  obtain ⟨ps, hps, h⟩ := bind_eq_ok.mp h
  exact ⟨parts, ps, hparts, hps, (Except.ok.inj h).symm⟩

/-- **Every parsed definition is well formed.** Whatever settings are accepted, a
source that parses gives a well-formed definition, and its parameters are in order
those of the entry function, without the trailing context that the definition has
a place for exactly if the function has one. -/
theorem parse_wellFormed {fields : List (String × Value)} {settings : Settings}
    {pathname : String} {contents : Contents} {d : Definition}
    (accepted : Settings.ofFields fields = .ok settings)
    (parsed : parse settings.defaultCharge pathname contents = .ok d) :
    d.WellFormed ∧
      ∃ cs ss f, contents.decode = .ok cs ∧ statements cs = .ok ss ∧ entryFunction ss = .ok f ∧
        f.params.map Code.Param.name =
          d.params.map Parameter.name ++ (d.context?.map fun _ => contextName).toList ∧
        (d.context?.isSome = true ↔
          (f.params.map Code.Param.name).getLast? = some contextName) := by
  obtain ⟨parts, ps, hparts, hps, rfl⟩ := parse_ok parsed
  obtain ⟨cs, ss, decoded, parsed, entry, read, signed⟩ := readParts_ok hparts
  have ⟨built, differ, returnsDiffer⟩ := Draft.read_built read
  have ⟨names, formed⟩ := parts.params_ok built differ hps
  have ⟨split, last, nodup, noContext⟩ := Signature.ofFunction_ok signed
  have ⟨returns, returned⟩ := parts.declared.returnSpec_formed built returnsDiffer
  -- the charge is declared, or is the one of the settings
  have charge : 1 ≤ parts.declared.charge?.getD settings.defaultCharge := by
    cases h : parts.declared.charge? with
    | none => exact Settings.defaultCharge_pos accepted
    | some c => exact built.charge c h
  rw [← names] at nodup noContext split
  refine ⟨⟨nodup, noContext, fun q hq => ?_, returns, returned, charge, Code.distinct_nodup _⟩,
    cs, ss, parts.function, decoded, parsed, entry, split, last⟩
  obtain ⟨p, hp, hq⟩ := mem_allEntries.mp hq
  exact formed p hp q hq

/-- A source with an array inside an object, members, a return value and a context. -/
def nestedSource : String :=
  "# @param \x7bobject\x7d o\n# @ \x7barray\x7d xs\n# @   \x7b?string\x7d x\n" ++
    "# @ \x7benum\x7d m\n#   [\"a\", 1]\n# @returns \x7b?number\x7d\n" ++
      "def f(o, context):\n    return o\n"

theorem parse_wellFormed_nested :
    ∃ settings d, Settings.ofFields [("default_charge", .int 2)] = .ok settings ∧
      parse settings.defaultCharge "f.py" (.text nestedSource) = .ok d ∧ d.WellFormed := by
  have accepted : Settings.ofFields [("default_charge", .int 2)] =
      .ok ⟨[".py"], .text "__main__", .list [], 2, .text "INFO", .text "ERROR"⟩ := rfl
  have succeeds : (parse 2 "f.py" (.text nestedSource)).isOk = true := by decide +kernel
  obtain ⟨d, parsed⟩ := exists_of_isOk succeeds
  exact ⟨_, d, accepted, parsed, (parse_wellFormed accepted parsed).1⟩

end Definition

end Docsig
