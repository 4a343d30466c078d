import Docsig.Proofs.Comment.Block
import Docsig.Proofs.Definition.CommentBlock
import Docsig.Proofs.Definition.Defaults
import Docsig.Proofs.Definition.Nesting

/-!
Which faults of a source are reported.

A file that is no definition should come up as a fault that names it. `parse_reports` says
that it does, with two exceptions: a null character in the source or in its path, and a
literal whose refused part has no text to be shown.

Each step of `parse` is `Reporting` on its own: its faults are reported if those of the
texts it reads are. Those texts are the listed members of enumerations, which stand in the
source, and the initial values of the entry function. What a step says of its faults apart
from these texts holds of any property that structural faults have (`Draft.read_failsOnly`,
`Parts.params_failsOnly`).
-/

namespace Docsig.Definition

open Code.Literal (ofExpr ofText)
open Comment (RunTo)

/-- Every fault that a step ends with is reported. -/
abbrev Reporting {α : Type} (x : Except LocalFault α) : Prop :=
  FailsOnly (fun e => e.cause.isReported = true) x

/-- Whether a cause is about how declarations and parameters fit together, and not about a
null character, a listed member or an initial value. -/
def Cause.isStructural : Cause → Bool
  | nullCharacter | invalidMember _ | memberShape _ | duplicateLabel _ | invalidDefault _ _ => false
  | _ => true

theorem Cause.isReported_of_structural {cause : Cause} (h : cause.isStructural = true) :
    cause.isReported = true := by
  cases cause <;> first | rfl | cases h

/-! ### Literals -/

/-- An expression that is a literal, or whose refused part has a text. -/
def Quotable (e : Code.Expr) : Prop := ∀ line, ofExpr e ≠ .error ⟨.unprintable, line⟩

/-- A text without null characters that can be quoted if it is an expression. -/
structure QuotableText (t : String) : Prop where
  noNull : ¬ Text.HasNull t.toList
  quotable : ∀ e, Code.expression (Text.trim t.toList) = .ok e → Quotable e

/-- A default that can be quoted fails only with a report. -/
theorem defaultValue_reporting {name : String} {e : Code.Expr} (h : Quotable e) :
    Reporting (defaultValue name e) := by
  unfold defaultValue
  split
  · exact .ok _
  · rename_i fault refused
    obtain ⟨cause, line⟩ := fault
    refine .error ?_
    cases cause with
    | unprintable => exact (h line refused).elim
    | _ => rfl

/-- A member that can be quoted is refused with a report. -/
theorem ofText_reported {t : String} {fault : Code.Literal.TextFault} (h : QuotableText t)
    (refused : ofText t.toList = .error fault) : (Cause.invalidMember fault).isReported = true := by
  unfold Code.Literal.ofText at refused
  dsimp only at refused
  split at refused
  · rename_i null
    exact (h.noNull ((Code.expression_eq_null.mp null).mono (Text.trim_subset _))).elim
  · cases refused
    rfl
  · rename_i e read
    split at refused
    · cases refused
    · rename_i f unread
      cases refused
      obtain ⟨cause, line⟩ := f
      -- only a form without a text goes unreported
      cases cause with
      | unprintable => exact (h.quotable e read line unread).elim
      | _ => rfl

/-! ### Drafts -/

namespace Draft

/-- What lists members can be quoted. -/
def Clear (type : Comment.TypeMark) (extra : List String) : Prop :=
  type.name = Tag.enum.name → ∀ t ∈ extra, QuotableText t

theorem readMembers_reporting {texts : List String} (h : ∀ t ∈ texts, QuotableText t)
    (labels : List String) (line : Nat) : Reporting (readMembers labels line texts) := by
  induction texts generalizing labels line with
  | nil => exact .ok []
  | cons t texts ih =>
      rw [readMembers]
      split
      · rename_i fault refused
        exact .error (ofText_reported (h t List.mem_cons_self) refused)
      · split
        · exact .error rfl
        · refine .guard rfl fun _ => .bind (ih ?_ _ _) fun _ _ => .ok _
          exact fun t ht => h t (List.mem_cons_of_mem _ ht)

mutual

theorem checkFields_failsOnly {p : LocalFault → Prop}
    (own : ∀ e : LocalFault, e.cause.isStructural = true → p e) :
    ∀ d : Draft, FailsOnly p (checkFields d)
  | ⟨_, _, _, _, _, schema, _⟩ => by
      rw [checkFields]
      exact checkUnique_failsOnly own _ _ schema

theorem checkUnique_failsOnly {p : LocalFault → Prop}
    (own : ∀ e : LocalFault, e.cause.isStructural = true → p e) (scope : String)
    (seen : List (Option String)) : ∀ ds : List Draft, FailsOnly p (checkUnique scope seen ds)
  | [] => .ok ()
  | d :: ds => by
      rw [checkUnique]
      exact .guard (own _ rfl) fun _ => .bind (checkFields_failsOnly own d) fun _ _ =>
        checkUnique_failsOnly own scope _ ds

end

section Read

variable {p : LocalFault → Prop} (own : ∀ e : LocalFault, e.cause.isStructural = true → p e)
  {fields : List Field} {ds : List Comment.Declaration}
include own

theorem ofSource_failsOnly {s : Source} (members : s.type.name = Tag.enum.name →
      FailsOnly p (readMembers [] (s.line + 1) s.extra)) : FailsOnly p (ofSource s) := by
  unfold ofSource
  split
  · exact .error (own _ rfl)
  · rename_i tag
    refine .bind (members (Tag.name_of_ofName? tag)) fun _ _ => ?_
    exact .guard (own _ rfl) fun _ => .ok _
  · exact .ok _

theorem checkParent_failsOnly (parent : Draft) (filled : Bool) (f : Field) :
    FailsOnly p (checkParent parent filled f) :=
  .guard (own _ rfl) fun _ => .guard (own _ rfl) fun _ => .ok ()

omit own in
/-- The fields that are left are some of those that were there. -/
theorem readFields_left {fuel : Nat} {parent : Draft} {filled : Bool} {indent : Nat}
    {left : List Field} {schema : List Draft}
    (h : readFields fuel parent filled indent fields = .ok (schema, left)) : left ⊆ fields := by
  -- by induction on the fuel: what is left beside the first field is left of what is left below
  -- it
  induction fuel generalizing parent filled indent fields left schema with
  | zero =>
      cases h
      exact List.Subset.refl fields
  | succ fuel ih =>
      cases fields with
      | nil =>
          cases h
          exact List.Subset.refl []
      | cons f fields =>
          rw [readFields] at h
          split at h
          · cases h
            exact List.Subset.refl _
          obtain ⟨⟨⟩, -, h⟩ := bind_eq_ok.mp h
          obtain ⟨draft, -, h⟩ := bind_eq_ok.mp h
          obtain ⟨⟨below, rest⟩, readBelow, h⟩ := bind_eq_ok.mp h
          obtain ⟨⟨siblings, rest'⟩, readSiblings, h⟩ := bind_eq_ok.mp h
          cases h
          exact List.Subset.trans (ih readSiblings)
            (List.Subset.trans (ih readBelow) (List.subset_cons_self f fields))

/-- Reading fields fails as their declarations do, or in their structure. -/
theorem readFields_failsOnly {fuel : Nat} {parent : Draft} {filled : Bool} {indent : Nat}
    (h : ∀ f ∈ fields, FailsOnly p (ofSource f.source)) :
    FailsOnly p (readFields fuel parent filled indent fields) := by
  induction fuel generalizing parent filled indent fields with
  | zero => exact .ok _
  | succ fuel ih =>
      cases fields with
      | nil => exact .ok _
      | cons f fields =>
          obtain ⟨first, below⟩ := List.forall_mem_cons.mp h
          rw [readFields]
          split
          · exact .ok _
          refine .bind (checkParent_failsOnly own parent filled f) fun _ _ => ?_
          refine .bind first fun draft _ => ?_
          refine .bind (ih below) fun found read => ?_
          obtain ⟨schema, rest⟩ := found
          refine .bind (ih fun f hf => below f (readFields_left read hf)) fun _ _ => ?_
          exact .ok _

theorem noOrphans_failsOnly (fields : List Field) : FailsOnly p (noOrphans fields) := by
  cases fields with
  | nil => exact .ok ()
  | cons f fields => exact .error (own _ rfl)

theorem sourceWithFields_failsOnly {s : Source} (head : FailsOnly p (ofSource s))
    (below : ∀ f ∈ fields, FailsOnly p (ofSource f.source)) (add : Draft → Declared) :
    FailsOnly p
      (ofSource s >>= fun draft => withFields draft fields >>= fun full => .ok (add full)) :=
  .bind head fun _ _ => .bind (.bind (readFields_failsOnly own below) fun _ _ => .ok _)
    fun _ _ => .ok _

/-- A declaration and its fields fail as each of them does, or in their structure. -/
theorem addGroup_failsOnly (d : Declared) {g : Group}
    (head : ∀ s, sourceOf? g.head = some s → FailsOnly p (ofSource s))
    (below : ∀ f ∈ g.fields, FailsOnly p (ofSource f.source)) : FailsOnly p (addGroup d g) := by
  -- a parameter, a return value, a charge, and a field on its own, which is passed over
  unfold addGroup
  split
  · rename_i heading
    have source := head _ (by rw [sourceOf?, heading])
    exact .guard (own _ rfl) fun _ => sourceWithFields_failsOnly own source below _
  · rename_i heading
    have source := head _ (by rw [sourceOf?, heading])
    exact .guard (own _ rfl) fun _ => sourceWithFields_failsOnly own source below _
  · refine .guard (own _ rfl) fun _ => .guard (own _ rfl) fun _ => ?_
    split
    · exact .error (own _ rfl)
    · exact .bind (noOrphans_failsOnly own g.fields) fun _ _ => .ok _
  · exact .ok d

/-- **A block fails as one of its declarations does**, or with a structural fault. -/
theorem read_failsOnly (sources : ∀ d ∈ ds, ∀ s, sourceOf? d = some s → FailsOnly p (ofSource s)) :
    FailsOnly p (read ds) := by
  have inGroup {g : Group} (hg : g ∈ (groups ds).2) {d : Comment.Declaration}
      (hd : d ∈ g.declarations) : d ∈ ds := by
    rw [groups_eq ds]
    exact List.mem_append_right _ (List.mem_flatMap_of_mem hg hd)
  refine .bind (noOrphans_failsOnly own _) fun _ _ => ?_
  refine .bind (.foldlM (fun d g hg => addGroup_failsOnly own d ?_ ?_) _) fun declared _ => ?_
  · exact sources _ (inGroup hg List.mem_cons_self)
  · intro f hf
    exact sources _ (inGroup hg (List.mem_cons_of_mem _ (List.mem_map_of_mem hf))) _
      (sourceOf?_declaration f)
  refine .bind (checkUnique_failsOnly own _ _ _) fun _ _ => ?_
  split
  · exact .bind (checkUnique_failsOnly own _ _ _) fun _ _ => .ok _
  · exact .ok _

end Read

def typeOf? (d : Comment.Declaration) : Option Comment.TypeMark :=
  match d.heading with
  | .param type _ _ => some type
  | .returns type _ => some type
  | .field _ type _ _ => some type
  | .charge _ => none

/-- The members that a declaration lists can be quoted. -/
def ClearDeclaration (d : Comment.Declaration) : Prop :=
  ∀ type, typeOf? d = some type → Clear type d.extra

theorem typeOf?_eq {d : Comment.Declaration} {s : Source} (h : sourceOf? d = some s) :
    typeOf? d = some s.type ∧ s.line = d.line ∧ s.extra = d.extra := by
  obtain ⟨heading, line, extra⟩ := d
  cases heading with
  | charge => cases h
  | param | returns | field =>
      cases h
      exact ⟨rfl, rfl, rfl⟩

theorem ofSource_reporting {d : Comment.Declaration} {s : Source} (source : sourceOf? d = some s)
    (clear : ClearDeclaration d) : Reporting (ofSource s) := by
  obtain ⟨type, -, extra⟩ := typeOf?_eq source
  refine ofSource_failsOnly (fun _ => Cause.isReported_of_structural) fun enum => ?_
  exact readMembers_reporting (extra ▸ clear _ type enum) _ _

end Draft

/-! ### Signatures and parameters -/

namespace Signature

section

variable {p : LocalFault → Prop} (own : ∀ e : LocalFault, e.cause.isStructural = true → p e)
include own

theorem checkNames_failsOnly (seen : List String) (fs : List Formal) :
    FailsOnly p (checkNames seen fs) := by
  induction fs generalizing seen with
  | nil => exact .ok ()
  | cons f fs ih =>
      rw [checkNames]
      exact .guard (own _ rfl) fun _ => ih _

theorem checkContext_failsOnly (fs : List Formal) : FailsOnly p (checkContext fs) := by
  induction fs with
  | nil => exact .ok ()
  | cons f fs ih =>
      rw [checkContext]
      exact .guard (own _ rfl) fun _ => ih

/-- A signature fails in its structure alone. -/
theorem ofFunction_failsOnly (pathname : String) (f : Code.Function) :
    FailsOnly p (ofFunction pathname f) := by
  refine .guard (own _ rfl) fun _ => .guard (own _ rfl) fun _ => ?_
  refine .bind (checkNames_failsOnly own _ _) fun _ _ => ?_
  exact .bind (checkContext_failsOnly own _) fun _ _ => .ok _

end

/-- An initial value in a signature is one of the function. -/
theorem ofFunction_default? {pathname : String} {f : Code.Function} {s : Signature}
    (h : ofFunction pathname f = .ok s) {formal : Formal} (mem : formal ∈ s.formals)
    {e : Code.Expr} (he : formal.default? = some e) : ∃ p ∈ f.params, p.default? = some e := by
  rw [ofFunction_formals h] at mem
  have all : formal ∈ f.params.map formalOf := by
    unfold splitContext at mem
    split at mem
    · split at mem
      · exact (List.dropLast_sublist _).subset mem
      · exact mem
    · exact mem
  obtain ⟨p, hp, rfl⟩ := List.mem_map.mp all
  exact ⟨p, hp, he⟩

end Signature

section Parameters

variable {p : LocalFault → Prop} (own : ∀ e : LocalFault, e.cause.isStructural = true → p e)
  {fs : List Formal}
include own

/-- Matching parameters fails as reading their defaults does, or in its structure. -/
theorem matchFrom_failsOnly (position : Nat) (ds : List Draft)
    (h : ∀ f ∈ fs, ∀ e, f.default? = some e → FailsOnly p (defaultValue f.name e)) :
    FailsOnly p (matchFrom position ds fs) := by
  induction ds generalizing position fs with
  | nil => exact .ok []
  | cons d ds ih =>
      cases fs with
      | nil => exact .ok []
      | cons f fs =>
          obtain ⟨first, others⟩ := List.forall_mem_cons.mp h
          rw [matchFrom]
          refine .bind ?_ fun p _ => .bind (ih _ others) fun _ _ => .ok _
          refine .guard (own _ rfl) fun _ => ?_
          split
          · exact .ok _
          · rename_i e he
            refine .bind (first e he) fun v _ => ?_
            split
            · exact .ok _
            · exact .error (own _ rfl)

/-- Inferring parameters fails as reading their defaults does. -/
theorem inferParams_failsOnly
    (h : ∀ f ∈ fs, ∀ e, f.default? = some e → FailsOnly p (defaultValue f.name e)) :
    FailsOnly p (inferParams fs) := by
  refine .mapM fun f hf => ?_
  unfold inferParam
  split
  · exact .error (own _ rfl)
  · rename_i e he
    exact .bind (h f hf e he) fun _ _ => .ok _

/-- **Parameters fail as an initial value does**, or with a structural fault. -/
theorem Parts.params_failsOnly {parts : Parts} (h : ∀ f ∈ parts.signature.formals, ∀ e,
      f.default? = some e → FailsOnly p (defaultValue f.name e)) : FailsOnly p parts.params := by
  unfold Parts.params
  split
  · exact inferParams_failsOnly own h
  · exact .guard (own _ rfl) fun _ => matchFrom_failsOnly own 1 _ h

end Parameters

/-! ### Sources -/

/-- The literals of a source: the initial values of its entry function, and the members
that are listed above it. -/
inductive LiteralOf (cs : List Char) : Code.Expr → Prop
  | initial {ss : List Code.Statement} {f : Code.Function} {p : Code.Param} {e : Code.Expr} :
      statements cs = .ok ss → entryFunction ss = .ok f → p ∈ f.params →
        p.default? = some e → LiteralOf cs e
  | member {ss : List Code.Statement} {f : Code.Function} {block : Comment.Block}
      {d : Comment.Declaration} {type : Comment.TypeMark} {t : String} {e : Code.Expr} :
      statements cs = .ok ss → entryFunction ss = .ok f → commentBlock cs f = .ok block →
        d ∈ block.declarations → Draft.typeOf? d = some type → type.name = Tag.enum.name →
          t ∈ d.extra → Code.expression (Text.trim t.toList) = .ok e → LiteralOf cs e

variable {cs : List Char}

/-- A null character that the reader of statements comes upon: in their source, or in the
path of it. -/
def NullIn (pathname : String) (cs : List Char) : Prop :=
  Text.HasNull pathname.toList ∨ Text.HasNull cs

/-- **A null character is found before anything else.** -/
theorem statements_null (h : Text.HasNull cs) : statements cs = .error ⟨none, .nullCharacter⟩ := by
  unfold statements
  rw [Code.file_eq_null.mpr h]

theorem checkPath_failsOnly {p : LocalFault → Prop} {pathname : String}
    (null : Text.HasNull pathname.toList → p ⟨none, .nullCharacter⟩) :
    FailsOnly p (checkPath pathname) := by
  unfold checkPath
  split
  · rename_i found
    exact .error (null found)
  · exact .ok _

section

variable {p : LocalFault → Prop} (own : ∀ e : LocalFault, e.cause.isStructural = true → p e)
include own

/-- Bytes that are no text fail without a line. -/
theorem decode_failsOnly (contents : Contents) : FailsOnly p contents.decode := by
  cases contents with
  | text s => exact .ok _
  | bytes data =>
      unfold Contents.decode
      dsimp only
      split
      · exact .ok _
      · exact .error (own _ rfl)

/-- A source fails for a null character or in its syntax. -/
theorem statements_failsOnly (null : Text.HasNull cs → p ⟨none, .nullCharacter⟩) :
    FailsOnly p (statements cs) := by
  unfold statements
  split
  · exact .ok _
  · rename_i found
    exact .error (null (Code.file_eq_null.mp found))
  · exact .error (own _ rfl)

theorem entryFunction_failsOnly (ss : List Code.Statement) : FailsOnly p (entryFunction ss) := by
  unfold entryFunction
  split
  · exact .ok _
  · exact .error (own _ rfl)

/-- The block above a function fails in its declarations alone. -/
theorem commentBlock_failsOnly (cs : List Char) (f : Code.Function) :
    FailsOnly p (commentBlock cs f) := by
  unfold commentBlock
  dsimp only
  split
  · exact .ok _
  · exact .error (own _ rfl)

/-- **The parts of a source fail as one of its declarations does**, or with a null character
or a structural fault. -/
theorem readParts_failsOnly {contents : Contents} (pathname : String)
    (null : ∀ cs, contents.decode = .ok cs → NullIn pathname cs → p ⟨none, .nullCharacter⟩)
    (sources : ∀ cs ss f block, contents.decode = .ok cs → statements cs = .ok ss →
      entryFunction ss = .ok f → commentBlock cs f = .ok block → ∀ d ∈ block.declarations,
        ∀ s, Draft.sourceOf? d = some s → FailsOnly p (Draft.ofSource s)) :
    FailsOnly p (readParts pathname contents) := by
  refine .bind (decode_failsOnly own contents) fun cs decoded => ?_
  refine .bind (checkPath_failsOnly fun path => null cs decoded (.inl path)) fun _ _ => ?_
  refine .bind (statements_failsOnly own fun text => null cs decoded (.inr text)) fun ss hss => ?_
  refine .bind (entryFunction_failsOnly own ss) fun f hf => ?_
  refine .bind (commentBlock_failsOnly own cs f) fun block hb => ?_
  refine .bind (Draft.read_failsOnly own (sources cs ss f block decoded hss hf hb)) fun _ _ => ?_
  exact .bind (Signature.ofFunction_failsOnly own pathname f) fun _ _ => .ok _

end

variable {ss : List Code.Statement} {f : Code.Function} {block : Comment.Block}

/-- What continues a declaration holds no character that is not in the source. -/
theorem commentBlock_extra (hss : statements cs = .ok ss) (hf : entryFunction ss = .ok f)
    (hb : commentBlock cs f = .ok block) {d : Comment.Declaration} (hd : d ∈ block.declarations)
    {t : String} (ht : t ∈ d.extra) : t.toList ⊆ cs := by
  obtain ⟨ls, -, eq, run⟩ := commentBlock_found hss hf
  rw [eq, readLines, mapError_eq_ok] at hb
  obtain ⟨raw, hraw, sub⟩ := Comment.readBlock_extra run hb hd ht
  exact fun c hc => Text.mem_of_mem_lines hraw (sub hc)

/-! ### Definitions -/

/-- A source without null characters, in its path neither, whose literals can be quoted. -/
structure Clear (pathname : String) (cs : List Char) : Prop where
  noNull : ¬ NullIn pathname cs
  quotable : ∀ e, LiteralOf cs e → Quotable e

theorem Clear.declarations {pathname : String} (clear : Clear pathname cs) (hss : statements cs = .ok ss)
    (hf : entryFunction ss = .ok f) (hb : commentBlock cs f = .ok block) :
    ∀ d ∈ block.declarations, Draft.ClearDeclaration d := by
  intro d hd type named lists t ht
  refine ⟨fun null => clear.noNull (.inr (null.mono (commentBlock_extra hss hf hb hd ht))), ?_⟩
  exact fun e he => clear.quotable e (.member hss hf hb hd named lists ht he)

variable {pathname : String} {contents : Contents}

/-- The parts of a clear source fail only with a report. -/
theorem readParts_reporting (clear : ∀ cs, contents.decode = .ok cs → Clear pathname cs) :
    Reporting (readParts pathname contents) := by
  refine readParts_failsOnly (fun _ => Cause.isReported_of_structural) pathname
    (fun cs decoded null => ((clear cs decoded).noNull null).elim) ?_
  intro cs ss f block decoded hss hf hb d hd s source
  exact Draft.ofSource_reporting source ((clear cs decoded).declarations hss hf hb d hd)

/-- The parameters of a clear source fail only with a report. -/
theorem params_reporting (clear : ∀ cs, contents.decode = .ok cs → Clear pathname cs)
    {parts : Parts} (read : readParts pathname contents = .ok parts) : Reporting parts.params := by
  obtain ⟨cs, ss, decoded, hss, hf, -, signed⟩ := readParts_ok read
  refine Parts.params_failsOnly (fun _ => Cause.isReported_of_structural) fun formal mem e he => ?_
  obtain ⟨p, hp, he⟩ := Signature.ofFunction_default? signed mem he
  exact defaultValue_reporting ((clear cs decoded).quotable e (.initial hss hf hp he))

/-- What is expected of a file: a definition, or a reported fault, which names the file and
whose message starts with its path. -/
def Reports (pathname : String) : Except Fault Definition → Prop
  | .ok d => d.pathname = pathname
  | .error f => f.pathname = pathname ∧ pathname.toList <+: f.message.toList ∧
      f.cause.isReported = true

/-- Whether there is a definition or a reported fault. -/
def isReported : Except Fault Definition → Bool
  | .ok _ => true
  | .error f => f.cause.isReported

theorem not_reports {result : Except Fault Definition} (h : isReported result = false) :
    ¬ Reports pathname result := by
  intro reports
  cases result with
  | ok d => cases h
  | error f => exact Bool.false_ne_true (h.symm.trans reports.2.2)

/-- Every message names the file first. -/
theorem Fault.message_prefix (f : Fault) : f.pathname.toList <+: f.message.toList := by
  unfold Fault.message Fault.placed
  split
  · simp [String.toList_append]
  · simp [String.toList_append]

/-- Where the text is clear, every fault is reported. -/
theorem parse_reported {charge : Int}
    (clear : ∀ cs, contents.decode = .ok cs → Clear pathname cs) :
    Reports pathname (parse charge pathname contents) := by
  cases result : parse charge pathname contents with
  | ok d =>
      obtain ⟨parts, ps, -, -, rfl⟩ := parse_ok result
      rfl
  | error f =>
      obtain ⟨e, failed, rfl⟩ := mapError_eq_error.mp result
      refine ⟨rfl, Fault.message_prefix (e.inFile pathname), ?_⟩
      rcases bind_eq_error.mp failed with first | ⟨parts, read, failed⟩
      · exact readParts_reporting clear e first
      · rcases bind_eq_error.mp failed with second | ⟨ps, -, failed⟩
        · exact params_reporting clear read e second
        · cases failed

/-- A source is refused for a null character in it or in its path. -/
theorem parse_null {charge : Int} (decoded : contents.decode = .ok cs)
    (null : NullIn pathname cs) :
    parse charge pathname contents = .error ⟨pathname, none, .nullCharacter⟩ := by
  have refused : readParts pathname contents = .error ⟨none, .nullCharacter⟩ := by
    unfold readParts checkPath
    rw [decoded, ok_bind]
    split
    · rfl
    · rename_i plain
      rw [ok_bind, statements_null (null.resolve_left plain)]
      rfl
  unfold parse
  rw [refused]
  rfl

/-- **Which faults are reported.** A file gives a definition or a reported fault, unless
there is a null character in it or in its path, or a literal in it cannot be quoted. A null
character always comes up unreported, and the comment is never looked for outside of the
text. -/
theorem parse_reports (charge : Int) (pathname : String) (contents : Contents) :
    (Reports pathname (parse charge pathname contents) ∨
      ∃ cs, contents.decode = .ok cs ∧
        (NullIn pathname cs ∨ ∃ e, LiteralOf cs e ∧ ¬ Quotable e)) ∧
    (∀ cs, contents.decode = .ok cs → NullIn pathname cs →
      parse charge pathname contents = .error ⟨pathname, none, .nullCharacter⟩) ∧
    ∀ cs ss f, contents.decode = .ok cs → statements cs = .ok ss → entryFunction ss = .ok f →
      (Comment.linesAbove? (Text.lines cs) (firstLine f)).isSome = true := by
  refine ⟨?_, fun cs => parse_null, ?_⟩
  -- a source that is not clear has a null character, or a literal that cannot be quoted
  · by_cases clear : ∀ cs, contents.decode = .ok cs → Clear pathname cs
    · exact .inl (parse_reported clear)
    · obtain ⟨cs, unclear⟩ := not_forall.mp clear
      obtain ⟨decoded, unclear⟩ := Classical.not_imp.mp unclear
      refine .inr ⟨cs, decoded, ?_⟩
      by_cases null : NullIn pathname cs
      · exact .inl null
      · right
        by_contra none
        exact unclear ⟨null, fun e he => by_contra fun quotes => none ⟨e, he, quotes⟩⟩
  · intro cs ss f _ hss hf
    obtain ⟨ls, found, -⟩ := commentBlock_found hss hf
    rw [found]
    rfl

/-! ### Two sources -/

/-- A source with a null character in front of its function. -/
def nullSource : Contents := .text "# d\n\x00def main(): pass\n"

/-- A source with an initial value whose text would need a backslash between braces. -/
def unquotedSource : Contents := .text "# d\ndef main(a=f\"\x7b'\u00a0'\x7d\"): pass\n"

theorem parse_unreported : ¬ Reports "f.py" (parse 1 "f.py" nullSource) ∧
    ¬ Reports "f.py" (parse 1 "f.py" unquotedSource) := by
  have null : Text.HasNull ("# d\n\x00def main(): pass\n").toList := ⟨'\x00', by decide, rfl⟩
  constructor
  · rw [nullSource, parse_null rfl (.inr null)]
    exact not_reports rfl
  · exact not_reports (by decide +kernel)

end Docsig.Definition
