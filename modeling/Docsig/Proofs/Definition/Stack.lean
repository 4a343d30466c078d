import Docsig.Proofs.Definition.Orderly

/-!
Fields are read with a stack.

Fields can be read one line at a time, with a stack of the drafts that may still take
fields: a line takes every draft off the stack that is indented as much as it is, and its
own draft is put on top of the one that is left. `stacked` reads so, and it reads what
`Draft.withFields` does, with the same faults (`stacked_eq`). In particular the draft at
the bottom is never taken off.

* `stacked_readFields` is the simulation: what is read below a draft is what the stack adds
  to the draft on top of it.
* `read_nesting` sums up what indentation does to a block.
-/

namespace Docsig.Definition.Draft

open Comment (Declaration)

/-! ### The stack -/

/-- A draft that may take more fields, with its indentation. -/
structure Frame where
  indent : Int
  draft : Draft

/-- Why reading with a stack fails: a fault of the block, or the bottom is taken off. -/
inductive StackFault where
  | fault (f : LocalFault)
  | empty

namespace Frame

/-- A frame with more fields in its draft. -/
def extend (top : Frame) (schema : List Draft) : Frame :=
  ⟨top.indent, { top.draft with schema := top.draft.schema ++ schema }⟩

/-- Takes frames off the stack until the top is indented less than a line. What is taken
off is a field of what is below it. -/
def unwind (indent : Int) (top : Frame) : List Frame → Except StackFault (Frame × List Frame)
  | [] => if top.indent < indent then .ok (top, []) else .error .empty
  | next :: below =>
      if top.indent < indent then .ok (top, next :: below)
      else unwind indent (next.extend [top.draft]) below

/-- Puts a field on the stack. -/
def push (stack : Frame × List Frame) (f : Field) : Except StackFault (Frame × List Frame) := do
  let (top, below) ← unwind f.indent stack.1 stack.2
  (checkParent top.draft (!top.draft.schema.isEmpty) f).mapError .fault
  let draft ← (ofSource f.source).mapError .fault
  return (⟨f.indent, draft⟩, top :: below)

/-- Takes everything off but the bottom. -/
def close (top : Frame) : List Frame → Draft
  | [] => top.draft
  | next :: below => close (next.extend [top.draft]) below

/-- Reads fields onto a stack and closes it. -/
def run (fs : List Field) (stack : Frame × List Frame) : Except StackFault Draft := do
  let (top, below) ← fs.foldlM push stack
  return close top below

end Frame

/-- Reads the fields of a draft with a stack that has the draft at its bottom. -/
def stacked (draft : Draft) (fs : List Field) : Except StackFault Draft :=
  Frame.run fs (⟨-1, draft⟩, [])

variable {top next : Frame} {below : List Frame} {fs : List Field} {f : Field}
  {parent draft : Draft} {fuel indent : Nat} {ds : List Declaration}

namespace Frame

@[simp] theorem extend_indent (schema : List Draft) : (top.extend schema).indent = top.indent := rfl

theorem extend_nil : top.extend [] = top := by
  obtain ⟨indent, ⟨name?, type, nullable, line, description, schema, members?⟩⟩ := top
  simp [extend]

theorem extend_extend (es es' : List Draft) : (top.extend es).extend es' = top.extend (es ++ es') := by
  simp [extend, List.append_assoc]

theorem extend_filled (e : Draft) : (top.extend [e]).draft.schema.isEmpty = false := by
  simp [extend]

theorem unwind_of_lt {n : Int} (less : top.indent < n) : unwind n top below = .ok (top, below) := by
  cases below <;> exact if_pos less

/-- The fields are pushed one after the other. -/
theorem run_cons : run (f :: fs) (top, below) = (push (top, below) f >>= run fs) := by
  rw [run, List.foldlM_cons, bind_assoc]
  rfl

/-- A line below a draft that is indented less goes on top of it. -/
theorem push_of_lt (less : top.indent < f.indent) : push (top, below) f =
    ((checkParent top.draft (!top.draft.schema.isEmpty) f).mapError .fault >>= fun _ =>
      (ofSource f.source).mapError .fault >>= fun draft =>
        .ok (⟨f.indent, draft⟩, top :: below)) := by
  rw [push, unwind_of_lt less]
  rfl

/-- The top is taken off where no line is indented more. -/
theorem run_pop (stop : ∀ f ∈ fs.head?, f.indent ≤ top.indent) :
    run fs (top, next :: below) = run fs (next.extend [top.draft], below) := by
  cases fs with
  | nil => rfl
  | cons f fs =>
      have unwound : unwind f.indent top (next :: below) =
          unwind f.indent (next.extend [top.draft]) below :=
        if_neg (Int.not_lt.mpr (stop f rfl))
      rw [run_cons, run_cons, push, push, unwound]

end Frame

/-- A parent is judged by its type and is named in the fault. -/
theorem checkParent_congr {other : Draft} {filled : Bool} (type : other.type = parent.type)
    (name : other.name? = parent.name?) :
    checkParent other filled f = checkParent parent filled f := by
  rw [checkParent, checkParent, type, name]

/-- **What is read below a draft is what the stack adds to the draft on top of it.** The
stack goes on with the fields that are left. -/
theorem stacked_readFields (enough : fs.length < fuel)
    (type : top.draft.type = parent.type) (name : top.draft.name? = parent.name?)
    (above : ∀ f ∈ fs, top.indent < f.indent ↔ indent < f.indent) :
    Frame.run fs (top, below) =
      ((readFields fuel parent (!top.draft.schema.isEmpty) indent fs).mapError .fault >>=
        fun read => Frame.run read.2 (top.extend read.1, below)) := by
  induction fuel generalizing top parent indent fs below with
  | zero => omega
  | succ fuel ih =>
      cases fs with
      | nil => simp only [readFields, Except.mapError, ok_bind, Frame.extend_nil]
      | cons f fs =>
          by_cases stop : f.indent ≤ indent
          · rw [readFields, if_pos stop, Except.mapError, ok_bind, Frame.extend_nil]
          have less := (above f List.mem_cons_self).mpr (Nat.lt_of_not_le stop)
          rw [List.length_cons] at enough
          rw [Frame.run_cons, Frame.push_of_lt less, checkParent_congr type name, readFields,
            if_neg stop]
          cases checkParent parent (!top.draft.schema.isEmpty) f with
          | error e => rfl
          | ok u =>
          cases source : ofSource f.source with
          | error e => rfl
          | ok draft =>
          have inner : Frame.run fs (⟨f.indent, draft⟩, top :: below) =
              ((readFields fuel draft false f.indent fs).mapError .fault >>= fun read =>
                Frame.run read.2 (⟨f.indent, { draft with schema := read.1 }⟩, top :: below)) := by
            rw [ih (by omega) rfl rfl (fun g _ => Int.ofNat_lt), ofSource_schema source]
            simp [Frame.extend, ofSource_schema source]
          simp only [Except.mapError, ok_bind, inner]
          cases read : readFields fuel draft false f.indent fs with
          | error e => rfl
          | ok found =>
          obtain ⟨nested, left⟩ := found
          obtain ⟨taken, split, -, next, -⟩ := readFields_laid (by omega) read
          have fewer : left.length < fuel := by
            rw [split, List.length_append] at enough
            omega
          have outer : Frame.run left (⟨f.indent, { draft with schema := nested }⟩, top :: below) =
              ((readFields fuel parent true indent left).mapError .fault >>= fun read =>
                Frame.run read.2
                  (top.extend ({ draft with schema := nested } :: read.1), below)) := by
            rw [Frame.run_pop fun g hg => Int.ofNat_le.mpr (next g hg)]
            refine (@ih (top.extend [_]) below left parent indent fewer type name fun g hg => ?_).trans ?_
            · exact above g (List.mem_cons_of_mem _ (by simp [split, hg]))
            · simp only [Frame.extend_filled, Frame.extend_extend, List.singleton_append,
                Bool.not_false]
          simp only [Except.mapError, ok_bind, outer]
          cases readFields fuel parent true indent left with
          | error e => rfl
          | ok found => rfl

/-- **Reading with a stack is reading what is nested.** It has the same result and the same
faults, so the bottom of the stack is never taken off. -/
theorem stacked_eq (indented : ∀ f ∈ fs, 1 ≤ f.indent) (bare : draft.schema = []) :
    stacked draft fs = (draft.withFields fs).mapError .fault := by
  have above : ∀ f ∈ fs, (-1 : Int) < f.indent ↔ 0 < f.indent := by
    intro f hf
    have := indented f hf
    omega
  refine (stacked_readFields (Nat.lt_succ_self fs.length) rfl rfl above).trans ?_
  rw [withFields]
  simp only [bare, List.isEmpty_nil, Bool.not_true]
  cases read : readFields (fs.length + 1) draft false 0 fs with
  | error e => rfl
  | ok found =>
      obtain ⟨schema, rest⟩ := found
      obtain rfl := readFields_all (Nat.lt_succ_self _) indented read
      simp [Except.mapError, Frame.run, Frame.close, Frame.extend, bare]

/-! ### Nesting -/

/-- **Indentation decides nesting.** A block of declarations that are in order one by one is
read exactly if all that has fields is an object or an array and no array has two. Then the
drafts are the forest of the block: the schema of each holds the children of its line in
order, and listed before their fields they are the declarations in order. However the fields
of the groups are indented, a stack reads them, and it never loses its bottom. -/
theorem read_nesting (orderly : Orderly ds) :
    ((∃ r, read ds = .ok r) ↔ Fits (ds.map indentOf) (ds.map tagOf?)) ∧
      (∀ r, read ds = .ok r → Arranged ds r) ∧
        ∀ g ∈ (groups ds).2, ∀ draft, draft.schema = [] →
          stacked draft g.fields = (draft.withFields g.fields).mapError .fault := by
  have arranged : ∀ r, read ds = .ok r → Arranged ds r := fun r h =>
    orderly.filter_isSourced ▸ read_arranged orderly.indented h
  refine ⟨⟨?_, exists_read orderly⟩, arranged, fun g hg draft bare => ?_⟩
  · rintro ⟨r, h⟩
    obtain ⟨roots, grown, params, returns⟩ := arranged r h
    have built := (read_built h).1
    refine grown.fits fun root hroot => ?_
    rcases (Arranged.mem_roots params returns).mp hroot with param | returned
    · exact built.params root param
    · exact built.returns root returned
  · exact stacked_eq (orderly.indented.fields g hg) bare

/-- A block whose fields are indented back and forth. -/
def zigzag : List Declaration :=
  [⟨.param ⟨"object", false⟩ "o" "", 1, []⟩,
    ⟨.field 3 ⟨"object", false⟩ "a" "", 2, []⟩,
    ⟨.field 6 ⟨"array", false⟩ "xs" "", 3, []⟩,
    ⟨.field 7 ⟨"string", true⟩ "x" "", 4, []⟩,
    ⟨.field 4 ⟨"enum", false⟩ "x" "", 5, ["1"]⟩,
    ⟨.field 1 ⟨"any", false⟩ "xs" "", 7, []⟩,
    ⟨.returns ⟨"array", false⟩ "", 8, []⟩,
    ⟨.field 2 ⟨"number", false⟩ "o" "", 9, []⟩]

theorem read_nesting_zigzag : Orderly zigzag ∧ ∃ r, read zigzag = .ok r ∧ Arranged zigzag r := by
  have orderly : Orderly zigzag := by
    have sound : ∀ d ∈ zigzag, (sourceOf? d).any (fun s => (ofSource s).isOk) = true := by
      decide +kernel
    refine ⟨?_, fun d hd => ?_, ?_, ?_, by decide, by decide⟩
    · simp [zigzag, fieldOf?]
    · obtain ⟨s, source, made⟩ := (Option.any_eq_true _ _).mp (sound d hd)
      exact ⟨s, source, Source.sound_iff.mpr (exists_of_isOk made)⟩
    · simp [zigzag, Indented, fieldOf?]
    · simp only [zigzag, List.forall_mem_cons]
      simp only [Comment.Heading.param.injEq, reduceCtorEq, false_implies, implies_true,
        List.not_mem_nil, and_true]
      rintro type name text ⟨-, rfl, -⟩
      decide
  have succeeds : (read zigzag).isOk = true := by decide +kernel
  obtain ⟨r, h⟩ := exists_of_isOk succeeds
  exact ⟨orderly, r, h, (read_nesting orderly).2.1 r h⟩

end Docsig.Definition.Draft
