import Docsig.Proofs.Definition.Draft
import Docsig.Proofs.Text.Outline

/-!
How the fields of a draft are laid out.

`Draft.allDrafts` lists a forest of drafts, each before its own fields. `Laid` says that a
forest has an outline: what is nested in a draft stands right below it and is indented more.
An outline has one forest, and `Laid.roots` and `Laid.fields` say which, by the parents of
`Outline`: the schema of a draft holds the children of its line.

* `readFields_laid`: the fields that are read have the outline of the lines they are read
  from, one field for each line in order.
* `exists_readFields`: reading succeeds where every line takes the children that it has.
-/

namespace Docsig.Definition.Draft

open Outline (children)

/-! ### Forests -/

mutual

def drafts : Draft → List Draft
  | ⟨name?, type, nullable, line, description, schema, members?⟩ =>
      ⟨name?, type, nullable, line, description, schema, members?⟩ :: allDrafts schema

def allDrafts : List Draft → List Draft
  | [] => []
  | d :: ds => d.drafts ++ allDrafts ds

end

/-- The indentations of the lines of a forest. -/
inductive Laid : List Nat → List Draft → Prop
  | nil : Laid [] []
  | cons {n : Nat} {inner outer : List Nat} {d : Draft} {ds : List Draft} :
      (∀ m ∈ inner, n < m) → (∀ m ∈ outer.head?, m ≤ n) → Laid inner d.schema → Laid outer ds →
      Laid ((n :: inner) ++ outer) (d :: ds)

def Source.tag? (s : Source) : Option Tag := Tag.ofName? s.type.name

/-- A source says what a draft is, apart from its fields. -/
def Declares (s : Source) (e : Draft) : Prop :=
  ∃ draft, ofSource s = .ok draft ∧ e = { draft with schema := e.schema }

/-- A type takes a number of fields. -/
structure Takes (t : Tag) (count : Nat) : Prop where
  container : count ≠ 0 → t.hasSchema = true
  single : t = .array → count ≤ 1

/-- Every line of an outline takes what is nested directly in it. -/
def Fits (ns : List Nat) (ts : List (Option Tag)) : Prop :=
  ∀ i t, ts[i]? = some (some t) → Takes t (children ns (some i)).length

variable {ns inner outer : List Nat} {n i : Nat} {d e parent : Draft} {ds schema : List Draft}
  {fuel indent : Nat} {filled : Bool} {f : Field} {fs rest : List Field} {t : Tag}
  {inner' outer' : List (Option Tag)}

theorem drafts_eq (d : Draft) : d.drafts = d :: allDrafts d.schema := by
  cases d; rfl

theorem allDrafts_cons : allDrafts (d :: ds) = (d :: allDrafts d.schema) ++ allDrafts ds := by
  rw [allDrafts, drafts_eq]

/-- The drafts of a forest are those of its trees. -/
theorem mem_allDrafts : e ∈ allDrafts ds ↔ ∃ d ∈ ds, e ∈ d.drafts := by
  induction ds with
  | nil => simp [allDrafts]
  | cons d ds ih => simp [allDrafts, ih]

namespace Laid

/-- A forest has as many drafts as lines. -/
theorem length (h : Laid ns ds) : (allDrafts ds).length = ns.length := by
  induction h with
  | nil => rfl
  | cons _ _ _ _ ihInner ihOuter =>
      rw [allDrafts_cons, List.length_append, List.length_append, List.length_cons,
        List.length_cons, ihInner, ihOuter]

/-- The line after a tree is indented no more than all lines of it. -/
theorem head_le {m : Nat} (more : ∀ k ∈ inner, n < k) (next : ∀ k ∈ outer.head?, k ≤ n)
    (hm : m ∈ outer.head?) : ∀ k ∈ n :: inner, m ≤ k := by
  have le := next m hm
  refine List.forall_mem_cons.mpr ⟨le, fun k hk => ?_⟩
  have := more k hk
  omega

/-- A part of a list in the place that it has in the whole. -/
theorem map_getElem?_shift {es fs : List Draft} {is : List Nat} :
    (is.map (es.length + ·)).map ((es ++ fs)[·]?) = is.map (fs[·]?) := by
  rw [List.map_map]
  refine List.map_congr_left fun i _ => ?_
  simp [List.getElem?_append_right]

/-- **The roots of a forest are the lines that are nested in none.** -/
theorem roots (h : Laid ns ds) :
    ds.map some = (children ns none).map ((allDrafts ds)[·]?) := by
  induction h with
  | nil => rfl
  | @cons n inner outer d ds more next hInner hOuter _ ihOuter =>
      have apart : ∀ m ∈ outer.head?, ∀ k ∈ n :: inner, m ≤ k := fun m hm => head_le more next hm
      have length : (d :: allDrafts d.schema).length = (n :: inner).length :=
        congrArg (· + 1) hInner.length
      rw [Outline.children_append_none apart, Outline.children_cons_none more, allDrafts_cons,
        List.map_append, ← length, map_getElem?_shift, ← ihOuter]
      rfl

/-- The schema of the first root. -/
theorem inner_shift {es fs : List Draft} {is : List Nat} (inside : ∀ i ∈ is, i < es.length) :
    (is.map (· + 1)).map (((d :: es) ++ fs)[·]?) = is.map (es[·]?) := by
  rw [List.map_map]
  refine List.map_congr_left fun i hi => ?_
  simp [List.getElem?_append_left (inside i hi)]

/-- **The schema of a draft holds the children of its line, in order.** -/
theorem fields (h : Laid ns ds) {i : Nat} {e : Draft} (he : (allDrafts ds)[i]? = some e) :
    e.schema.map some = (children ns (some i)).map ((allDrafts ds)[·]?) := by
  induction h generalizing i e with
  | nil => cases he
  | @cons n inner outer d ds more next hInner hOuter ihInner ihOuter =>
      have apart : ∀ m ∈ outer.head?, ∀ k ∈ n :: inner, m ≤ k := fun m hm => head_le more next hm
      have length : (d :: allDrafts d.schema).length = (n :: inner).length :=
        congrArg (· + 1) hInner.length
      have inside : ∀ p, ∀ k ∈ children inner p, k < (allDrafts d.schema).length :=
        fun p k hk => hInner.length ▸ (Outline.mem_children.mp hk).1
      rw [allDrafts_cons] at he ⊢
      by_cases first : i < (n :: inner).length
      · rw [List.getElem?_append_left (by omega)] at he
        rw [Outline.children_append_left apart first]
        cases i with
        | zero =>
            cases he
            rw [Outline.children_cons_zero more, inner_shift (inside none), hInner.roots]
        | succ i =>
            rw [Outline.children_cons_succ more, inner_shift (inside (some i))]
            exact ihInner he
      · obtain ⟨k, rfl⟩ := Nat.exists_eq_add_of_le (Nat.le_of_not_lt first)
        rw [Outline.children_append_right apart, ← length, map_getElem?_shift]
        rw [← length, List.getElem?_append_right (Nat.le_add_right _ _),
          Nat.add_sub_cancel_left] at he
        exact ihOuter he

end Laid

/-! ### What is read -/

theorem ofSource_schema {s : Source} (h : ofSource s = .ok d) : d.schema = [] := by
  unfold ofSource at h
  split at h
  · cases h
  · obtain ⟨ms, -, h⟩ := bind_eq_ok.mp h
    obtain ⟨-, h⟩ := guard_eq_ok.mp h
    cases h
    rfl
  · cases h
    rfl

theorem ofSource_type {s : Source} (h : ofSource s = .ok d) : s.tag? = some d.type := by
  unfold ofSource at h
  split at h
  · cases h
  · rename_i tag
    obtain ⟨ms, -, h⟩ := bind_eq_ok.mp h
    obtain ⟨-, h⟩ := guard_eq_ok.mp h
    cases h
    exact tag
  · rename_i tag
    cases h
    exact tag

theorem ofSource_nullable {s : Source} (h : ofSource s = .ok d) : d.nullable = s.type.nullable := by
  unfold ofSource at h
  split at h
  · cases h
  · obtain ⟨ms, -, h⟩ := bind_eq_ok.mp h
    obtain ⟨-, h⟩ := guard_eq_ok.mp h
    cases h
    rfl
  · cases h
    rfl

theorem Declares.type {s : Source} (h : Declares s e) : s.tag? = some e.type := by
  obtain ⟨draft, source, eq⟩ := h
  exact (ofSource_type source).trans (congrArg (fun d => some d.type) eq.symm)

theorem Declares.name {s : Source} (h : Declares s e) : e.name? = s.name? := by
  obtain ⟨draft, source, eq⟩ := h
  exact (congrArg name? eq).trans (ofSource_fits source).1

theorem Declares.nullable {s : Source} (h : Declares s e) : e.nullable = s.type.nullable := by
  obtain ⟨draft, source, eq⟩ := h
  exact (congrArg (fun d => d.nullable) eq).trans (ofSource_nullable source)

/-- A field that is indented enough is read with its own fields, and then those after it. -/
theorem readFields_cons (more : indent < f.indent) :
    readFields (fuel + 1) parent filled indent (f :: fs) = .ok (schema, rest) ↔
      checkParent parent filled f = .ok () ∧ ∃ draft below left siblings,
        ofSource f.source = .ok draft ∧
        readFields fuel draft false f.indent fs = .ok (below, left) ∧
        readFields fuel parent true indent left = .ok (siblings, rest) ∧
        schema = { draft with schema := below } :: siblings := by
  rw [readFields, if_neg (by omega), then_eq_ok]
  refine and_congr_right fun _ => ?_
  constructor
  · intro h
    obtain ⟨draft, source, h⟩ := bind_eq_ok.mp h
    obtain ⟨⟨below, left⟩, belowOk, h⟩ := bind_eq_ok.mp h
    obtain ⟨⟨siblings, rest⟩, siblingsOk, h⟩ := bind_eq_ok.mp h
    cases h
    exact ⟨draft, below, left, siblings, source, belowOk, siblingsOk, rfl⟩
  · rintro ⟨draft, below, left, siblings, source, belowOk, siblingsOk, rfl⟩
    exact bind_eq_ok.mpr ⟨draft, source, bind_eq_ok.mpr ⟨(below, left), belowOk,
      bind_eq_ok.mpr ⟨(siblings, rest), siblingsOk, rfl⟩⟩⟩

/-- **What is read for a draft has the outline of its lines.** The lines that are read are
those indented more than `indent`, up to the first that is not, and each of them declares
the draft in its place. -/
theorem readFields_laid (enough : fs.length < fuel)
    (h : readFields fuel parent filled indent fs = .ok (schema, rest)) :
    ∃ taken, fs = taken ++ rest ∧ (∀ f ∈ taken, indent < f.indent) ∧
      (∀ f ∈ rest.head?, f.indent ≤ indent) ∧ Laid (taken.map Field.indent) schema ∧
      List.Forall₂ (fun f e => Declares f.source e) taken (allDrafts schema) := by
  -- by induction on the fuel: the first field, the lines further in, which lie below it, and
  -- those beside it
  induction fuel generalizing parent filled indent fs rest schema with
  | zero => omega
  | succ fuel ih =>
      cases fs with
      | nil =>
          cases h
          exact ⟨[], rfl, by simp, by simp, .nil, .nil⟩
      | cons f fs =>
          -- a line that is not further in than the parent ends its fields
          by_cases stop : f.indent ≤ indent
          · rw [readFields, if_pos stop] at h
            cases h
            exact ⟨[], rfl, by simp, by simpa using stop, .nil, .nil⟩
          · obtain ⟨-, draft, below, left, siblings, source, belowOk, siblingsOk, rfl⟩ :=
              (readFields_cons (Nat.lt_of_not_le stop)).mp h
            rw [List.length_cons] at enough
            obtain ⟨inner, rfl, moreInner, nextInner, laidInner, declInner⟩ :=
              ih (by omega) belowOk
            rw [List.length_append] at enough
            obtain ⟨outer, rfl, moreOuter, nextOuter, laidOuter, declOuter⟩ :=
              ih (by omega) siblingsOk
            refine ⟨(f :: inner) ++ outer, by simp, ?_, nextOuter, ?_, ?_⟩
            · intro g hg
              rcases List.mem_append.mp hg with hg | hg
              · rcases List.mem_cons.mp hg with rfl | hg
                · omega
                · have := moreInner g hg
                  omega
              · exact moreOuter g hg
            · rw [List.map_append, List.map_cons]
              refine .cons ?_ ?_ laidInner laidOuter
              · simpa using moreInner
              · intro m hm
                rw [List.head?_map] at hm
                obtain ⟨g, hg, rfl⟩ := Option.map_eq_some_iff.mp hm
                exact nextInner g (by rw [List.head?_append, hg]; rfl)
            · rw [allDrafts_cons]
              refine List.rel_append (.cons ⟨draft, source, rfl⟩ declInner) declOuter

/-- Where all fields are indented, all are read. -/
theorem readFields_all (enough : fs.length < fuel) (indented : ∀ f ∈ fs, 1 ≤ f.indent)
    (h : readFields fuel parent filled 0 fs = .ok (schema, rest)) : rest = [] := by
  obtain ⟨taken, rfl, -, next, -⟩ := readFields_laid enough h
  cases rest with
  | nil => rfl
  | cons f rest =>
      have stop := next f rfl
      have more := indented f (List.mem_append_right _ List.mem_cons_self)
      omega

/-! ### What can be read -/

theorem Takes.le {m k : Nat} (h : Takes t m) (le : k ≤ m) : Takes t k where
  container := fun some => h.container (by omega)
  single := fun array => Nat.le_trans le (h.single array)

/-- An outline that fits has parts that fit. -/
theorem Fits.split (more : ∀ m ∈ inner, n < m) (next : ∀ m ∈ outer.head?, m ≤ n)
    (h : Fits ((n :: inner) ++ outer) ((some t :: inner') ++ outer'))
    (length : inner'.length = inner.length) :
    Takes t (children inner none).length ∧ Fits inner inner' ∧ Fits outer outer' := by
  -- the lines beside are not further in than any of the first tree, which keeps their children
  -- apart
  have apart : ∀ m ∈ outer.head?, ∀ k ∈ n :: inner, m ≤ k :=
    fun m hm => Laid.head_le more next hm
  have length : (some t :: inner').length = (n :: inner).length := congrArg (· + 1) length
  refine ⟨?_, fun i u hu => ?_, fun i u hu => ?_⟩
  · have takes := h 0 t rfl
    rwa [Outline.children_append_left apart (Nat.succ_pos _), Outline.children_cons_zero more,
      List.length_map] at takes
  · have inside : i < inner.length := by
      have := (List.getElem?_eq_some_iff.mp hu).1
      simp only [List.length_cons] at length
      omega
    have takes := h (i + 1) u (by
      rw [List.getElem?_append_left (by rw [length]; exact Nat.succ_lt_succ inside)]
      exact hu)
    rwa [Outline.children_append_left apart (Nat.succ_lt_succ inside),
      Outline.children_cons_succ more, List.length_map] at takes
  · have takes := h ((n :: inner).length + i) u (by
      rw [← length, List.getElem?_append_right (Nat.le_add_right _ _), Nat.add_sub_cancel_left]
      exact hu)
    rwa [Outline.children_append_right apart, List.length_map] at takes

theorem length_roots (more : ∀ m ∈ inner, n < m) (next : ∀ m ∈ outer.head?, m ≤ n) :
    (children ((n :: inner) ++ outer) none).length = 1 + (children outer none).length := by
  rw [Outline.children_append_none fun m hm => Laid.head_le more next hm,
    Outline.children_cons_none more, List.length_append, List.length_map, List.length_singleton]

/-- The fields of a field are the lines below it that are indented more. -/
theorem exists_nested (f : Field) (fs : List Field) : ∃ inner outer, fs = inner ++ outer ∧
    (∀ g ∈ inner, f.indent < g.indent) ∧ ∀ g ∈ outer.head?, g.indent ≤ f.indent := by
  refine ⟨fs.takeWhile fun g => f.indent < g.indent, fs.dropWhile fun g => f.indent < g.indent,
    List.takeWhile_append_dropWhile.symm, fun g hg => ?_, fun g hg => ?_⟩
  · simpa using List.all_eq_true.mp List.all_takeWhile g hg
  · have stop := List.head?_dropWhile_not (fun g => decide (f.indent < g.indent)) fs
    rw [hg] at stop
    simpa using stop

/-- A parent that can take one more field is accepted. -/
theorem exists_checkParent (h : Takes parent.type (1 + filled.toNat)) :
    checkParent parent filled f = .ok () := by
  unfold checkParent
  rw [if_neg (by simp [h.container (by omega)]), if_neg]
  intro full
  obtain ⟨array, rfl⟩ := Bool.and_eq_true_iff.mp full
  have := h.single (of_decide_eq_true array)
  simp at this

/-- **Fields are read where every line takes its children**: those of the first lines, which
are indented more than `indent`. -/
theorem exists_readFields {taken : List Field} (enough : (taken ++ rest).length < fuel)
    (more : ∀ f ∈ taken, indent < f.indent) (next : ∀ f ∈ rest.head?, f.indent ≤ indent)
    (sources : ∀ f ∈ taken, ∃ draft, ofSource f.source = .ok draft)
    (own : Takes parent.type ((children (taken.map Field.indent) none).length + filled.toNat))
    (fits : Fits (taken.map Field.indent) (taken.map fun f => f.source.tag?)) :
    ∃ schema, readFields fuel parent filled indent (taken ++ rest) = .ok (schema, rest) := by
  -- by induction on the fuel, cut as in the reading: the first field, the lines below it and
  -- those beside it
  induction fuel generalizing parent filled indent taken rest with
  | zero => omega
  | succ fuel ih =>
      cases taken with
      | nil =>
          cases rest with
          | nil => exact ⟨[], rfl⟩
          | cons g rest =>
              have stop : g.indent ≤ indent := next g rfl
              exact ⟨[], by rw [List.nil_append, readFields, if_pos stop]⟩
      | cons f fs =>
          obtain ⟨inner, outer, rfl, moreInner, nextOuter⟩ := exists_nested f fs
          obtain ⟨moreFirst, moreRest⟩ := List.forall_mem_cons.mp more
          obtain ⟨⟨draft, source⟩, sources⟩ := List.forall_mem_cons.mp sources
          have tag : f.source.tag? = some draft.type := ofSource_type source
          have moreInner' : ∀ m ∈ inner.map Field.indent, f.indent < m := by
            simpa using moreInner
          have nextOuter' : ∀ m ∈ (outer.map Field.indent).head?, m ≤ f.indent := by
            rw [List.head?_map]
            intro m hm
            obtain ⟨g, hg, rfl⟩ := Option.map_eq_some_iff.mp hm
            exact nextOuter g hg
          rw [List.map_cons, List.map_cons, List.map_append, List.map_append, tag] at fits
          obtain ⟨ownInner, fitsInner, fitsOuter⟩ :=
            Fits.split moreInner' nextOuter' fits (by simp)
          rw [List.map_cons, List.map_append, ← List.cons_append,
            length_roots moreInner' nextOuter'] at own
          simp only [List.length_append, List.length_cons] at enough
          -- what follows the lines below the first field is beside it, or beside its parent
          have nextInner : ∀ g ∈ (outer ++ rest).head?, g.indent ≤ f.indent := by
            intro g hg
            cases outer with
            | nil =>
                have := next g hg
                omega
            | cons o outer => exact nextOuter g hg
          obtain ⟨below, belowOk⟩ : ∃ below,
              readFields fuel draft false f.indent (inner ++ (outer ++ rest)) =
                .ok (below, outer ++ rest) :=
            ih (by simp only [List.length_append]; omega) moreInner nextInner
              (fun g hg => sources g (List.mem_append_left _ hg)) ownInner fitsInner
          have ownOuter := own.le (k := (children (outer.map Field.indent) none).length + 1) (by omega)
          obtain ⟨siblings, siblingsOk⟩ : ∃ siblings,
              readFields fuel parent true indent (outer ++ rest) = .ok (siblings, rest) :=
            ih (by simp only [List.length_append]; omega)
              (fun g hg => moreRest g (List.mem_append_right _ hg)) next
              (fun g hg => sources g (List.mem_append_right _ hg)) ownOuter fitsOuter
          rw [← List.append_assoc] at belowOk
          refine ⟨{ draft with schema := below } :: siblings, (readFields_cons moreFirst).mpr
            ⟨exists_checkParent (own.le (by omega)), draft, below, outer ++ rest, siblings, source,
              belowOk, siblingsOk, rfl⟩⟩

end Docsig.Definition.Draft
