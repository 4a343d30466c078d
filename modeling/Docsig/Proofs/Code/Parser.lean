import Docsig.Code.Parser
import Docsig.Proofs.Result

/-!
Where the functions of a source start.

A reader only moves on, so every statement that a file is read into was read at some token
of the file. `statement?_define` says what token that is for a function: the mark of its
first decorator, or else its own first word, and `file_define` is the same for a whole
source. The parameters of a function have their names from tokens, too (`file_params`).

* `run_bind` and `ite_takeWord` take a reader apart into its steps.
* `Gives` is a demand on whatever a reader gives; the rules for all other statements give
  no function.
-/

namespace Docsig.Code.Parser

variable {α β : Type} {s t u : State} {a : α} {b : β}

/-! ### Steps of readers -/

/-- Two readers in sequence succeed if the second does from where the first one stops. -/
theorem run_bind {p : Reader α} {f : α → Reader β} : (p >>= f).run s = .ok (b, u) ↔
    ∃ a t, p.run s = .ok (a, t) ∧ (f a).run t = .ok (b, u) := by
  change (Reader.andThen p f).run s = .ok (b, u) ↔ _
  unfold Reader.andThen
  dsimp only
  constructor
  · intro h
    split at h
    · rename_i a t first
      exact ⟨a, t, first, h⟩
    · cases h
  · rintro ⟨a, t, first, second⟩
    rw [first]
    exact second

theorem run_pure {a b : α} : (pure a : Reader α).run s = .ok (b, u) ↔ a = b ∧ s = u := by
  change Except.ok (a, s) = _ ↔ _
  rw [Except.ok.injEq, Prod.mk.injEq]

theorem run_place {q : Place} (h : place.run s = .ok (q, t)) :
    q = (s.rest.headD noToken).place ∧ t.rest = s.rest := by
  obtain ⟨tok, v, peeked, h⟩ := run_bind.mp h
  cases peeked
  obtain ⟨rfl, rfl⟩ := run_pure.mp h
  exact ⟨rfl, rfl⟩

/-- Looking at the next token. -/
theorem run_atMark {m : String} {found : Bool} (h : (atMark m).run s = .ok (found, t)) :
    t.rest = s.rest ∧ (found = true → ∃ tok rest, s.rest = tok :: rest ∧ tok.isMark m = true) := by
  obtain ⟨rest, index, far, explain, bound, depth⟩ := s
  obtain ⟨tok, v, peeked, h⟩ := run_bind.mp h
  cases peeked
  obtain ⟨rfl, rfl⟩ := run_pure.mp h
  refine ⟨rfl, fun isMark => ?_⟩
  cases rest with
  | nil => cases isMark
  | cons tok rest => exact ⟨tok, rest, rfl, isMark⟩

/-- Moving past the next token on a condition: the token is there and meets it, or nothing
is read. -/
theorem run_take {test : Token → Bool} {found : Bool} (none : test noToken = false)
    (h : (do
      if ← (do return test (← peek) : Reader Bool) then
        advance
        return true
      else return false : Reader Bool).run s = .ok (found, t)) :
    (found = true ∧ ∃ tok, s.rest = tok :: t.rest ∧ test tok = true) ∨
      (found = false ∧ t.rest = s.rest) := by
  obtain ⟨rest, index, far, explain, bound, depth⟩ := s
  obtain ⟨here, v, looked, h⟩ := run_bind.mp h
  obtain ⟨tok, v', peeked, looked⟩ := run_bind.mp looked
  cases peeked
  obtain ⟨rfl, rfl⟩ := run_pure.mp looked
  split at h
  · rename_i holds
    obtain ⟨_, v, moved, h⟩ := run_bind.mp h
    cases moved
    obtain ⟨rfl, rfl⟩ := run_pure.mp h
    cases rest with
    -- past the end the token is one that the test refuses
    | nil =>
        rw [List.headD_nil, none] at holds
        cases holds
    | cons tok rest => exact .inl ⟨rfl, tok, rfl, holds⟩
  · obtain ⟨rfl, rfl⟩ := run_pure.mp h
    exact .inr ⟨rfl, rfl⟩

theorem run_takeWord {w : String} {found : Bool} (h : (takeWord w).run s = .ok (found, t)) :
    (found = true ∧ ∃ tok, s.rest = tok :: t.rest ∧ tok.isWord w = true) ∨
      (found = false ∧ t.rest = s.rest) :=
  run_take rfl h

theorem run_takeMark {m : String} {found : Bool} (h : (takeMark m).run s = .ok (found, t)) :
    (found = true ∧ ∃ tok, s.rest = tok :: t.rest ∧ tok.isMark m = true) ∨
      (found = false ∧ t.rest = s.rest) :=
  run_take rfl h

theorem run_word {w : String} (h : (word w).run s = .ok ((), t)) :
    ∃ tok, s.rest = tok :: t.rest ∧ tok.isWord w = true := by
  obtain ⟨found, v, taken, h⟩ := run_bind.mp h
  rcases run_takeWord taken with ⟨rfl, head⟩ | ⟨rfl, -⟩
  · obtain ⟨-, rfl⟩ := run_pure.mp h
    exact head
  · cases h

/-- A token of a kind is taken off the front. -/
theorem run_kind {k : TokenKind} (noFault : k ≠ .fault) (h : (kind k).run s = .ok ((), t)) :
    ∃ tok, s.rest = tok :: t.rest ∧ tok.kind = k := by
  have none : (noToken.kind == k) = false := beq_eq_false_iff_ne.mpr noFault.symm
  obtain ⟨found, v, taken, h⟩ := run_bind.mp h
  rcases @run_take _ _ (fun tok => tok.kind == k) _ none taken with
    ⟨rfl, tok, head, isKind⟩ | ⟨rfl, -⟩
  · obtain ⟨-, rfl⟩ := run_pure.mp h
    exact ⟨tok, head, eq_of_beq isKind⟩
  · cases h

theorem some_of_bind {p : Reader α} (h : (do return some (← p) : Reader (Option α)).run s =
    .ok (some a, u)) : p.run s = .ok (a, u) := by
  obtain ⟨b, t, read, h⟩ := run_bind.mp h
  obtain ⟨⟨⟩, rfl⟩ := run_pure.mp h
  exact read

/-- A choice by the next word. -/
theorem ite_takeWord {w : String} {p q : Reader α}
    (h : (do if ← takeWord w then p else q : Reader α).run s = .ok (a, u)) :
    (∃ tok t, s.rest = tok :: t.rest ∧ tok.isWord w = true ∧ p.run t = .ok (a, u)) ∨
      ∃ t, t.rest = s.rest ∧ q.run t = .ok (a, u) := by
  obtain ⟨found, t, taken, h⟩ := run_bind.mp h
  rcases run_takeWord taken with ⟨rfl, tok, head, isWord⟩ | ⟨rfl, same⟩
  · exact .inl ⟨tok, t, head, isWord, h⟩
  · exact .inr ⟨t, same, h⟩

/-! ### Repetition -/

/-- Whatever is read in a repetition was read at some point further on. -/
theorem manyUpTo_mem {p : Reader (Option α)} :
    ∀ {n : Nat} {s u : State} {as : List α}, (manyUpTo p n).run s = .ok (as, u) → ∀ a ∈ as,
      ∃ v w, v.rest <:+ s.rest ∧ p.run v = .ok (some a, w) := by
  intro n
  -- by induction on the rounds: what a later round reads lies in what the first one left
  induction n with
  | zero =>
      intro s u as h a ha
      obtain ⟨rfl, -⟩ := run_pure.mp h
      cases ha
  | succ n ih =>
      intro s u as h a ha
      obtain ⟨first?, t, first, h⟩ := run_bind.mp h
      cases first? with
      | none =>
          obtain ⟨rfl, -⟩ := run_pure.mp h
          cases ha
      | some b =>
          obtain ⟨others, v, more, h⟩ := run_bind.mp h
          obtain ⟨rfl, -⟩ := run_pure.mp h
          rcases List.mem_cons.mp ha with rfl | ha
          · exact ⟨s, t, List.suffix_refl _, first⟩
          · obtain ⟨v, w, left, read⟩ := ih more a ha
            exact ⟨v, w, left.trans (p.moves first), read⟩

/-- Every item of a repetition is read somewhere in the tokens ahead. -/
theorem many_mem {p : Reader (Option α)} {as : List α} (h : (many p).run s = .ok (as, u)) :
    ∀ a ∈ as, ∃ v w, v.rest <:+ s.rest ∧ p.run v = .ok (some a, w) := by
  obtain ⟨n, t, bounded, h⟩ := run_bind.mp h
  cases bounded
  exact manyUpTo_mem h

/-- A repetition that gives nothing has read nothing, or was never started. -/
theorem many_nil {p : Reader (Option α)} (h : (many p).run s = .ok ([], u)) :
    u = s ∨ p.run s = .ok (none, u) := by
  obtain ⟨n, t, bounded, h⟩ := run_bind.mp h
  cases bounded
  cases hn : s.bound with
  | zero =>
      rw [hn] at h
      exact .inl (run_pure.mp h).2.symm
  | succ n =>
      rw [hn] at h
      obtain ⟨first?, t, first, h⟩ := run_bind.mp h
      cases first? with
      | none =>
          obtain ⟨-, rfl⟩ := run_pure.mp h
          exact .inr first
      | some b =>
          obtain ⟨others, v, more, h⟩ := run_bind.mp h
          cases (run_pure.mp h).1

/-! ### Names of parameters -/

/-- A name that is one of some tokens. -/
def NameIn (ts : List Token) (name : String) : Prop := ∃ tok ∈ ts, tok.kind = .name name

theorem NameIn.mono {ts ts' : List Token} {name : String} (h : NameIn ts name)
    (left : ts <:+ ts') : NameIn ts' name := by
  obtain ⟨tok, mem, kind⟩ := h
  exact ⟨tok, left.subset mem, kind⟩

/-- A name is the text of a token. -/
theorem run_ident {id : String} (h : ident.run s = .ok (id, t)) : NameIn s.rest id := by
  obtain ⟨rest, index, far, explain, bound, depth⟩ := s
  obtain ⟨tok, v, peeked, h⟩ := run_bind.mp h
  cases peeked
  cases rest with
  | nil => cases h
  | cons tok rest =>
      simp only [List.headD_cons] at h
      split at h
      · rename_i id' name
        obtain ⟨_, w, moved, h⟩ := run_bind.mp h
        obtain ⟨rfl, -⟩ := run_pure.mp h
        refine ⟨tok, List.mem_cons_self, ?_⟩
        -- a word is a name unless it is reserved
        unfold Token.name? at name
        split at name
        · rename_i word kind
          split at name
          · cases name
          · cases name
            exact kind
        · cases name
      · cases h

theorem run_attempt {p : Reader α} (h : (attempt p).run s = .ok (some a, t)) :
    p.run s = .ok (a, t) := by
  unfold attempt at h
  dsimp only at h
  split at h <;> cases h
  assumption

/-- Whatever stands in a list with commas was read at some point further on. -/
theorem commaTail_mem {p : Reader α} :
    ∀ {n : Nat} {s u : State} {as : List α} {comma : Bool},
      (commaTail p n).run s = .ok ((as, comma), u) → ∀ a ∈ as,
        ∃ v w, v.rest <:+ s.rest ∧ p.run v = .ok (a, w) := by
  intro n
  -- by induction on the rounds: each takes a comma and then an item, or ends the list
  induction n with
  | zero =>
      intro s u as comma h a ha
      obtain ⟨⟨⟩, -⟩ := run_pure.mp h
      cases ha
  | succ n ih =>
      intro s u as comma h a ha
      obtain ⟨found, t, taken, h⟩ := run_bind.mp h
      split at h
      · obtain ⟨first?, v, tried, h⟩ := run_bind.mp h
        cases first? with
        | none =>
            obtain ⟨⟨⟩, -⟩ := run_pure.mp h
            cases ha
        | some b =>
            obtain ⟨⟨others, more⟩, w, rest, h⟩ := run_bind.mp h
            obtain ⟨⟨⟩, -⟩ := run_pure.mp h
            have first := run_attempt tried
            have left := (takeMark ",").moves taken
            rcases List.mem_cons.mp ha with rfl | ha
            · exact ⟨t, v, left, first⟩
            · obtain ⟨v', w', left', read⟩ := ih rest a ha
              exact ⟨v', w', left'.trans ((p.moves first).trans left), read⟩
      · obtain ⟨⟨⟩, -⟩ := run_pure.mp h
        cases ha

/-- Every item of a list with commas is read somewhere in the tokens ahead. -/
theorem commaList_mem {p : Reader α} {as : List α} {comma : Bool}
    (h : (commaList p).run s = .ok ((as, comma), u)) :
    ∀ a ∈ as, ∃ v w, v.rest <:+ s.rest ∧ p.run v = .ok (a, w) := by
  obtain ⟨first, t, read, h⟩ := run_bind.mp h
  obtain ⟨n, t', bounded, h⟩ := run_bind.mp h
  cases bounded
  obtain ⟨⟨others, trailing⟩, v, more, h⟩ := run_bind.mp h
  obtain ⟨⟨⟩, -⟩ := run_pure.mp h
  refine List.forall_mem_cons.mpr ⟨⟨s, t, List.suffix_refl _, read⟩, fun a ha => ?_⟩
  obtain ⟨v, w, left, read'⟩ := commaTail_mem more a ha
  exact ⟨v, w, left.trans (p.moves read), read'⟩

namespace Rules

variable {r : Rules} {annotated : Bool}

def ParamItem.name? : ParamItem → Option String
  | .plain _ name _ _ => some name
  | .star param? => param?.map fun p => p.2.1
  | .doubleStar _ name _ => some name
  | .slash => none

theorem name_comp_beforeSlash : Param.name ∘ beforeSlash = Param.name := by
  funext p
  cases p
  rfl

/-- Arranging keeps the names and their order. -/
theorem arrange?_names {stage : ParamStage} {done ps : List Param} {items : List ParamItem}
    (h : arrange? stage done items = some ps) :
    ps.map Param.name = (done.map Param.name).reverse ++ items.filterMap ParamItem.name? := by
  fun_induction arrange? stage done items with
  | case1 | case3 | case5 | case13 => cases h
  | case2 =>
      cases h
      rw [List.map_reverse, List.filterMap_nil, List.append_nil]
  | case6 _ _ _ _ _ ih =>
      rw [ih h, List.map_map, name_comp_beforeSlash]
      rfl
  | case7 _ _ _ _ ih => exact ih h
  | case4 | case8 | case9 | case10 | case11 | case12 =>
      rename_i ih
      rw [ih h, List.map_cons, List.reverse_cons, List.append_assoc]
      rfl

/-- A name with its place. -/
theorem run_named {f : Place → String → Reader β}
    (h : (do
      let p ← place
      let name ← ident
      f p name : Reader β).run s = .ok (b, u)) :
    ∃ p name v, NameIn s.rest name ∧ (f p name).run v = .ok (b, u) := by
  obtain ⟨p, t, placed, h⟩ := run_bind.mp h
  obtain ⟨name, v, read, h⟩ := run_bind.mp h
  exact ⟨p, name, v, (run_ident read).mono (place.moves placed), h⟩

/-- An item has its name from a token. -/
theorem paramItem_name {item : ParamItem} (h : (r.paramItem annotated).run s = .ok (item, u)) :
    ∀ name, item.name? = some name → NameIn s.rest name := by
  intro name own
  obtain ⟨slash, v, taken, h⟩ := run_bind.mp h
  have left := (takeMark "/").moves taken
  split at h
  · obtain ⟨rfl, -⟩ := run_pure.mp h
    cases own
  obtain ⟨double, v₂, taken, h⟩ := run_bind.mp h
  have left := ((takeMark "**").moves taken).trans left
  split at h
  · obtain ⟨q, id, v, named, h⟩ := run_named h
    obtain ⟨note, w, -, h⟩ := run_bind.mp h
    obtain ⟨rfl, -⟩ := run_pure.mp h
    cases own
    exact named.mono left
  obtain ⟨single, v₃, taken, h⟩ := run_bind.mp h
  have left := ((takeMark "*").moves taken).trans left
  split at h
  · obtain ⟨lone, v₄, looked, h⟩ := run_bind.mp h
    have left := ((atMark ",").moves looked).trans left
    split at h
    · obtain ⟨rfl, -⟩ := run_pure.mp h
      cases own
    obtain ⟨q, id, v, named, h⟩ := run_named h
    obtain ⟨note, w, -, h⟩ := run_bind.mp h
    obtain ⟨rfl, -⟩ := run_pure.mp h
    cases own
    exact named.mono left
  · obtain ⟨q, id, v, named, h⟩ := run_named h
    obtain ⟨note, w, -, h⟩ := run_bind.mp h
    obtain ⟨given, w', -, h⟩ := run_bind.mp h
    dsimp only at h
    split at h
    all_goals
      obtain ⟨default?, w'', -, h⟩ := run_bind.mp h
      obtain ⟨rfl, -⟩ := run_pure.mp h
      cases own
      exact named.mono left

/-- **Parameters have their names from tokens.** -/
theorem parameters_names {close : String} {ps : List Param}
    (h : (r.parameters annotated close).run s = .ok (ps, u)) :
    ∀ p ∈ ps, NameIn s.rest p.name := by
  intro p hp
  obtain ⟨closed, t, looked, h⟩ := run_bind.mp h
  have left := (atMark close).moves looked
  split at h
  · obtain ⟨rfl, -⟩ := run_pure.mp h
    cases hp
  obtain ⟨⟨items, comma⟩, v, read, h⟩ := run_bind.mp h
  dsimp only at h
  split at h
  · rename_i arranged
    obtain ⟨ended, w, -, h⟩ := run_bind.mp h
    split at h
    · obtain ⟨rfl, -⟩ := run_pure.mp h
      have name : p.name ∈ items.filterMap ParamItem.name? := by
        have names := arrange?_names arranged
        rw [List.map_nil, List.reverse_nil, List.nil_append] at names
        exact names ▸ List.mem_map_of_mem hp
      obtain ⟨item, mem, named⟩ := List.mem_filterMap.mp name
      obtain ⟨x, y, left', here⟩ := commaList_mem read item mem
      exact (paramItem_name here _ named).mono (left'.trans left)
    · cases h
  · split at h <;> cases h

end Rules
/-! ### Statements that are no functions -/

/-- Whatever a reader gives has a property. -/
def Gives (post : α → Prop) (p : Reader α) : Prop := ∀ s a t, p.run s = .ok (a, t) → post a

section Gives

variable {post : α → Prop} {p q : Reader α}

theorem Gives.give (h : post a) : Gives post (pure a) := by
  intro s b t run
  exact (run_pure.mp run).1 ▸ h

theorem Gives.fail : Gives post fail := by
  rintro s a t ⟨⟩

theorem Gives.raise (line : Nat) : Gives post (raise line) := by
  rintro s a t ⟨⟩

/-- What comes last decides. -/
theorem Gives.last {p : Reader β} {f : β → Reader α} (h : ∀ b, Gives post (f b)) :
    Gives post (p >>= f) := by
  intro s a u run
  obtain ⟨b, t, -, run⟩ := run_bind.mp run
  exact h b t a u run

theorem Gives.ite {c : Prop} [Decidable c] (hp : Gives post p) (hq : Gives post q) :
    Gives post (if c then p else q) := by
  split
  · exact hp
  · exact hq

end Gives

/-- Whether a statement is no function. -/
def isOther : Statement → Bool
  | .define _ => false
  | _ => true

/-- A reader that gives no function. -/
abbrev GivesOther (p : Reader Statement) : Prop := Gives (fun s => isOther s = true) p

namespace Simple

variable (r : Rules)

theorem assignment_other (first : Expr) : GivesOther (assignment r first) :=
  .last fun _ => .last fun _ => .last fun _ => .last fun _ => .last fun _ => .give rfl

theorem expressionStatement_other : GivesOther (expressionStatement r) := by
  refine .last fun first => .last fun colon => .ite (.ite ?_ .fail) ?_
  · -- an annotation
    refine .last fun _ => .last fun _ => .last fun _ => ?_
    exact .ite (.last fun _ => .give rfl) (.last fun _ => .give rfl)
  · refine .last fun equals => .ite (assignment_other r first) (.last fun op? => ?_)
    cases op? with
    | some op => exact .ite (.last fun _ => .give rfl) (.raise _)
    | none => exact .give rfl

theorem deletion_other : GivesOther (deletion r) :=
  .last fun _ => .last fun _ => .last fun _ => .ite (.give rfl) .fail

theorem raising_other : GivesOther (raising r) := by
  refine .last fun e? => ?_
  cases e? with
  | none => exact .give rfl
  | some e => exact .last fun _ => .ite (.last fun _ => .give rfl) (.give rfl)

theorem assertion_other : GivesOther (assertion r) :=
  .last fun _ => .last fun _ => .ite (.last fun _ => .give rfl) (.give rfl)

/-- No simple statement defines a function. -/
theorem statement_other : GivesOther (statement r) := by
  refine .last fun _ => .last fun _ => .last fun _ => .ite (.give rfl) ?_
  refine .last fun _ => .ite (.last fun _ => .give rfl) ?_
  refine .last fun _ => .ite (raising_other r) ?_
  refine .last fun _ => .ite (assertion_other r) ?_
  refine .last fun _ => .ite (deletion_other r) ?_
  refine .last fun _ => .ite (.last fun _ => .give rfl) ?_
  refine .last fun _ => .ite (.last fun _ => .give rfl) ?_
  refine .last fun _ => .last fun _ => .ite (.last fun _ => .give rfl) ?_
  exact .last fun _ => .ite (.last fun _ => .give rfl) (expressionStatement_other r)

theorem following_other :
    ∀ n, Gives (fun ss => ∀ s ∈ ss, isOther s = true) (following r n) := by
  intro n
  induction n with
  | zero => exact .fail
  | succ n ih =>
      refine .last fun _ => .ite (.give (by simp)) ?_
      refine .last fun _ => .last fun _ => .ite (.give (by simp)) ?_
      intro s ss u h
      obtain ⟨first, t, read, h⟩ := run_bind.mp h
      obtain ⟨others, v, more, h⟩ := run_bind.mp h
      obtain ⟨rfl, -⟩ := run_pure.mp h
      exact List.forall_mem_cons.mpr ⟨statement_other r s first t read, ih t others v more⟩

/-- The simple statements of a line are no functions. -/
theorem line_other : Gives (fun ss => ∀ s ∈ ss, isOther s = true) (line r) := by
  intro s ss u h
  obtain ⟨first, t, read, h⟩ := run_bind.mp h
  obtain ⟨n, t', bounded, h⟩ := run_bind.mp h
  cases bounded
  obtain ⟨others, v, more, h⟩ := run_bind.mp h
  obtain ⟨rfl, -⟩ := run_pure.mp h
  exact List.forall_mem_cons.mpr
    ⟨statement_other r s first t read, following_other r _ t others v more⟩

end Simple

namespace Compound

variable (r : Rules) (block : Reader (List Statement))

theorem branches_other : ∀ n, GivesOther (branches r block n) := by
  intro n
  cases n with
  | zero => exact .fail
  | succ n =>
      refine .last fun _ => .last fun _ => .last fun _ => ?_
      exact .ite (.last fun _ => .give rfl) (.last fun _ => .give rfl)

theorem loop_other : GivesOther (loop r block) :=
  .last fun _ => .last fun _ => .last fun _ => .give rfl

theorem iterate_other : GivesOther (iterate r block) :=
  .last fun _ => .last fun _ => .last fun _ => .last fun _ => .last fun _ => .give rfl

theorem withStatement_other : GivesOther (withStatement r block) :=
  .last fun _ => .last fun _ => .give rfl

theorem classDef_other (ds : List Expr) : GivesOther (classDef r block ds) :=
  .last fun _ => .last fun _ => .ite (.last fun _ => .last fun _ => .give rfl)
    (.last fun _ => .last fun _ => .give rfl)

theorem guarded_other : GivesOther (guarded r block) := by
  refine .last fun _ => .last fun _ => .last fun handlers => ?_
  have ending : ∀ inner otherwise, GivesOther (do
      let hasFinal ← atWord "finally"
      let final ← bodyAfter block "finally"
      if handlers.isEmpty && !hasFinal then fail
      else return .guarded inner handlers otherwise final) :=
    fun _ _ => .last fun _ => .last fun _ => .ite .fail (.give rfl)
  exact .ite (.last fun _ => ending _ _) (.last fun _ => ending _ _)

theorem selection_other (subject : Expr) : GivesOther (selection r block subject) :=
  .last fun _ => .ite .fail (.last fun _ => .give rfl)

/-! ### Functions -/

variable {r block} {f : Function} {start : Place}

/-- What is read of a function after its word, from some tokens. -/
structure ReadFrom (start : Place) (ds : List Expr) (ts : List Token) (f : Function) : Prop where
  place : f.place = start
  decorators : f.decorators = ds
  params : ∀ p ∈ f.params, NameIn ts p.name

theorem ReadFrom.mono {ds : List Expr} {ts ts' : List Token} (h : ReadFrom start ds ts f)
    (left : ts <:+ ts') : ReadFrom start ds ts' f :=
  ⟨h.place, h.decorators, fun p hp => (h.params p hp).mono left⟩

/-- The rule of functions gives a function that is read from the tokens ahead. -/
theorem function_define {ds : List Expr} {stmt : Statement}
    (h : (function r block start ds).run s = .ok (stmt, u)) :
    ∃ f, stmt = .define f ∧ ReadFrom start ds s.rest f := by
  obtain ⟨name, t, named, h⟩ := run_bind.mp h
  obtain ⟨⟨⟩, v, opened, h⟩ := run_bind.mp h
  obtain ⟨ps, w, read, h⟩ := run_bind.mp h
  have left := ((mark "(").moves opened).trans (ident.moves named)
  have params := fun p hp => (Rules.parameters_names read p hp).mono left
  have gives : Gives (fun stmt => ∃ f, stmt = .define f ∧ ReadFrom start ds s.rest f) (do
      mark ")"
      let returns? ← if ← takeMark "->" then some <$> r.expression else pure none
      return .define (.mk start ds name ps returns? (← body block)) : Reader Statement) := by
    refine .last fun _ => .last fun _ => .ite ?_ ?_
    all_goals exact .last fun _ => .last fun _ => .give ⟨.mk .., rfl, rfl, rfl, params⟩
  exact gives w stmt u h

/-- A function after its word for asynchrony is read from the tokens ahead. -/
theorem asynchronous_define (h : (asynchronous r block start).run s = .ok (.define f, u)) :
    ReadFrom start [] s.rest f := by
  rcases ite_takeWord h with ⟨tok, t, head, -, h⟩ | ⟨t, -, h⟩
  · obtain ⟨_, ⟨⟩, read⟩ := function_define h
    exact read.mono (head ▸ List.suffix_cons tok t.rest)
  rcases ite_takeWord h with ⟨tok, t, -, -, h⟩ | ⟨t, -, h⟩
  · cases iterate_other r block _ _ _ h
  · obtain ⟨_, t', -, h⟩ := run_bind.mp h
    cases withStatement_other r block _ _ _ h

/-- No token is both a mark and a word. -/
theorem isMark_ne_isWord {tok : Token} {m w : String} (hm : tok.isMark m = true)
    (hw : tok.isWord w = true) : False := by
  unfold Token.isMark at hm
  unfold Token.isWord at hw
  cases h : tok.kind <;> simp [h] at hm hw

/-- No decorators leave everything to be read. -/
theorem decorators_nil (h : (decorators r).run s = .ok ([], t)) : t.rest = s.rest := by
  rcases many_nil h with rfl | h
  · rfl
  obtain ⟨found, v, taken, h⟩ := run_bind.mp h
  rcases run_takeMark taken with ⟨rfl, -⟩ | ⟨rfl, same⟩
  · obtain ⟨e, v', -, h⟩ := run_bind.mp h
    obtain ⟨_, v'', -, h⟩ := run_bind.mp h
    cases (run_pure.mp h).1
  · obtain ⟨-, rfl⟩ := run_pure.mp h
    exact same

/-- The word that a function starts with where its decorators end. -/
structure OwnWord (f : Function) (tok : Token) : Prop where
  isWord : tok.isWord "def" = true ∨ tok.isWord "async" = true
  here : tok.place = f.place

theorem OwnWord.sound {tok : Token} (h : OwnWord f tok) : tok.kind ≠ .fault := by
  intro fault
  rcases h.isWord with isDef | isAsync
  · simp [Token.isWord, fault] at isDef
  · simp [Token.isWord, fault] at isAsync

/-- The tokens that a function is read from: they start with its own word, or with the mark
of the first of the decorators that stand in front of that word. -/
inductive OpenedBy (r : Rules) (f : Function) : List Token → Prop
  | word {tok : Token} {rest : List Token} (plain : f.decorators = []) (own : OwnWord f tok) :
      OpenedBy r f (tok :: rest)
  | mark {tok own : Token} {rest left : List Token} {s t : State} (head : s.rest = tok :: rest)
      (isMark : tok.isMark "@" = true) (read : (decorators r).run s = .ok (f.decorators, t))
      (next : t.rest = own :: left) (word : OwnWord f own) : OpenedBy r f (tok :: rest)

/-- What opens a function holds a word of its own. -/
theorem OpenedBy.own_mem {ts : List Token} (h : OpenedBy r f ts) : ∃ tok ∈ ts, OwnWord f tok := by
  cases h with
  | word _ own => exact ⟨_, List.mem_cons_self, own⟩
  | mark head _ read next word =>
      have left := (decorators r).moves read
      rw [head, next] at left
      exact ⟨_, left.subset List.mem_cons_self, word⟩

/-- Without decorators, the first token is the function's own word. -/
theorem OpenedBy.own {tok : Token} {rest : List Token} (h : OpenedBy r f (tok :: rest))
    (plain : f.decorators = []) : OwnWord f tok := by
  cases h with
  | word _ own => exact own
  | mark head isMark read next word =>
      rw [plain] at read
      have unread := decorators_nil read
      rw [head, next] at unread
      cases unread
      rcases word.isWord with isDef | isAsync
      · exact (isMark_ne_isWord isMark isDef).elim
      · exact (isMark_ne_isWord isMark isAsync).elim

/-- A decorated function is opened by its mark and takes its names from the tokens ahead. -/
theorem decorated_define {tok : Token} {rest : List Token} (head : s.rest = tok :: rest)
    (isMark : tok.isMark "@" = true) (h : (decorated r block).run s = .ok (.define f, u)) :
    OpenedBy r f s.rest ∧ ∀ p ∈ f.params, NameIn s.rest p.name := by
  obtain ⟨ds, t, read, h⟩ := run_bind.mp h
  obtain ⟨start, t₁, here, h⟩ := run_bind.mp h
  obtain ⟨rfl, same⟩ := run_place here
  rcases ite_takeWord h with ⟨_, t₂, -, -, h⟩ | ⟨t₂, same₂, h⟩
  · cases classDef_other r block ds _ _ _ h
  -- the word of the function stands right after the decorators, or after one more word
  obtain ⟨async, t₃, taken, h⟩ := run_bind.mp h
  obtain ⟨⟨⟩, t₄, found, h⟩ := run_bind.mp h
  obtain ⟨_, ⟨⟩, place, same_ds, params⟩ := function_define h
  obtain ⟨wordTok, wordHead, isDef⟩ := run_word found
  obtain ⟨first, others, left, isWord⟩ : ∃ first others, t.rest = first :: others ∧
      (first.isWord "def" = true ∨ first.isWord "async" = true) := by
    rcases run_takeWord taken with ⟨-, asyncTok, left, isAsync⟩ | ⟨-, left⟩
    · exact ⟨asyncTok, t₃.rest, by rw [← same, ← same₂, left], .inr isAsync⟩
    · exact ⟨wordTok, t₄.rest, by rw [← same, ← same₂, ← left, wordHead], .inl isDef⟩
  have own : OwnWord f first := ⟨isWord, by rw [place, left]; rfl⟩
  have tail : t₄.rest <:+ s.rest :=
    ((word "def").moves found).trans (((takeWord "async").moves taken).trans
      (same₂ ▸ same ▸ (decorators r).moves read))
  rw [← same_ds] at read
  exact ⟨head ▸ .mark head isMark read left own, fun p hp => (params p hp).mono tail⟩

/-- **A function is read at the token that it starts with**, and its parameters after that. -/
theorem statement?_define (h : (statement? r block).run s = .ok (some (.define f), u)) :
    OpenedBy r f s.rest ∧ ∀ p ∈ f.params, NameIn s.rest p.name := by
  obtain ⟨start, t, here, h⟩ := run_bind.mp h
  obtain ⟨rfl, same⟩ := run_place here
  -- the rules are tried in turn: those before the rule of functions give other statements
  rcases ite_takeWord h with ⟨_, v, -, -, h⟩ | ⟨v₁, same₁, h⟩
  · obtain ⟨n, w, -, h⟩ := run_bind.mp h
    cases branches_other r block n _ _ _ (some_of_bind h)
  rcases ite_takeWord h with ⟨_, v, -, -, h⟩ | ⟨v₂, same₂, h⟩
  · cases loop_other r block _ _ _ (some_of_bind h)
  rcases ite_takeWord h with ⟨_, v, -, -, h⟩ | ⟨v₃, same₃, h⟩
  · cases iterate_other r block _ _ _ (some_of_bind h)
  rcases ite_takeWord h with ⟨_, v, -, -, h⟩ | ⟨v₄, same₄, h⟩
  · cases withStatement_other r block _ _ _ (some_of_bind h)
  rcases ite_takeWord h with ⟨_, v, -, -, h⟩ | ⟨v₅, same₅, h⟩
  · cases guarded_other r block _ _ _ (some_of_bind h)
  rcases ite_takeWord h with ⟨_, v, -, -, h⟩ | ⟨v₆, same₆, h⟩
  · cases classDef_other r block [] _ _ _ (some_of_bind h)
  -- none of the words was there, so that nothing has been read yet
  have unread : v₆.rest = s.rest := by
    rw [same₆, same₅, same₄, same₃, same₂, same₁, same]
  rcases ite_takeWord h with ⟨tok, v, head, isDef, h⟩ | ⟨v₇, same₇, h⟩
  · obtain ⟨_, ⟨⟩, place, decorators, params⟩ := function_define (some_of_bind h)
    rw [unread] at head
    rw [head] at place ⊢
    exact ⟨.word decorators ⟨.inl isDef, place.symm⟩,
      fun p hp => (params p hp).mono (List.suffix_cons tok v.rest)⟩
  rcases ite_takeWord h with ⟨tok, v, head, isAsync, h⟩ | ⟨v₈, same₈, h⟩
  · obtain ⟨place, decorators, params⟩ := asynchronous_define (some_of_bind h)
    rw [same₇, unread] at head
    rw [head] at place ⊢
    exact ⟨.word decorators ⟨.inr isAsync, place.symm⟩,
      fun p hp => (params p hp).mono (List.suffix_cons tok v.rest)⟩
  rw [same₇, unread] at same₈
  obtain ⟨found, v, looked, h⟩ := run_bind.mp h
  obtain ⟨same₉, head⟩ := run_atMark looked
  split at h
  · rename_i isDecorated
    obtain ⟨tok, rest, head, isMark⟩ := head isDecorated
    rw [← same₉] at head
    have opened := decorated_define head isMark (some_of_bind h)
    rwa [same₉, same₈] at opened
  · -- what is left is a selection, or no compound statement
    obtain ⟨isMatch, w, -, h⟩ := run_bind.mp h
    split at h
    · obtain ⟨subject?, w', -, h⟩ := run_bind.mp h
      cases subject? with
      | some subject => cases selection_other r block subject _ _ _ (some_of_bind h)
      | none => cases (run_pure.mp h).1
    · cases (run_pure.mp h).1

/-- The functions among the statements of a line. -/
theorem line_define {ss : List Statement} (h : (line r block).run s = .ok (ss, u))
    (mem : .define f ∈ ss) : OpenedBy r f s.rest ∧ ∀ p ∈ f.params, NameIn s.rest p.name := by
  obtain ⟨stmt?, t, read, h⟩ := run_bind.mp h
  cases stmt? with
  | some stmt =>
      obtain ⟨rfl, -⟩ := run_pure.mp h
      obtain rfl := List.mem_singleton.mp mem
      exact statement?_define read
  | none => cases Simple.line_other r t ss u h _ mem

end Compound

/-! ### Sources -/

variable {f : Function} {ss : List Statement}

/-- What stands at the top of a file was read at one of its tokens. -/
theorem fileStatements_define {r : Rules} {depth : Nat}
    (h : (fileStatements r depth).run s = .ok (ss, u)) (mem : .define f ∈ ss) :
    (∃ tok rest, tok :: rest <:+ s.rest ∧ Compound.OpenedBy r f (tok :: rest)) ∧
      ∀ p ∈ f.params, NameIn s.rest p.name := by
  obtain ⟨ss', t, read, h⟩ := run_bind.mp h
  obtain ⟨_, t', -, h⟩ := run_bind.mp h
  obtain ⟨rfl, -⟩ := run_pure.mp h
  obtain ⟨lines, v, found, h⟩ := run_bind.mp read
  obtain ⟨rfl, -⟩ := run_pure.mp h
  -- the function is on a line of the file, which was read from some of its tokens on
  obtain ⟨line, hline, mem⟩ := List.mem_flatten.mp mem
  obtain ⟨w, w', left, read⟩ := many_mem found line hline
  obtain ⟨last, x, looked, read⟩ := run_bind.mp read
  split at read
  · cases (run_pure.mp read).1
  · obtain ⟨opened, params⟩ := Compound.line_define (some_of_bind read) mem
    have left := ((atKind .stop).moves looked).trans left
    cases head : x.rest with
    | nil =>
        rw [head] at opened
        cases opened
    | cons tok rest =>
        refine ⟨⟨tok, rest, head ▸ left, head ▸ opened⟩, fun p hp => (params p hp).mono left⟩

/-- A file is read up to the token that ends it. -/
theorem fileStatements_stop {r : Rules} {depth : Nat}
    (h : (fileStatements r depth).run s = .ok (ss, u)) :
    ∃ tok ∈ s.rest, tok.kind = .stop := by
  obtain ⟨ss', t, read, h⟩ := run_bind.mp h
  obtain ⟨_, t', ended, -⟩ := run_bind.mp h
  obtain ⟨tok, head, stop⟩ := run_kind (by decide : TokenKind.stop ≠ .fault) ended
  refine ⟨tok, ?_, stop⟩
  exact ((statementsUpTo r (blocks r depth) .stop).moves read).subset (head ▸ List.mem_cons_self)

/-- What is read from tokens is read without a look for faults. -/
theorem parse_eq_ok {ts : Tokens} {p : Reader α} (h : parse ts p = .ok a) :
    ∃ u, p.run (State.start ts false) = .ok (a, u) := by
  unfold parse at h
  split at h
  · rename_i u read
    cases h
    exact ⟨u, read⟩
  · cases h
  · split at h <;> cases h

/-- What can be read from tokens depends on nothing else. -/
theorem parse_congr {ts ts' : Tokens} {p : Reader α} (same : ts'.items = ts.items)
    (h : parse ts p = .ok a) : parse ts' p = .ok a := by
  obtain ⟨u, read⟩ := parse_eq_ok h
  have start : State.start ts' false = State.start ts false := by
    rw [State.start, State.start, same]
  rw [parse, start, read]

end Docsig.Code.Parser

namespace Docsig.Code

variable {cs : List Char} {ss : List Statement} {f : Function}

/-- The rules that a source is read by. -/
def sourceRules (cs : List Char) : Parser.Rules := .upTo (nesting (sourceText cs))

/-- A file that is read is read by the rule of files from the tokens of its text. -/
theorem file_eq_ok (h : file cs = .ok ss) :
    ∃ depth u, (Parser.fileStatements (sourceRules cs) depth).run
      (Parser.State.start (Lexer.tokens (sourceText cs)) false) = .ok (ss, u) := by
  unfold file readSource at h
  split at h
  · cases h
  · unfold readTokens at h
    simp only at h
    split at h
    · rename_i read
      cases h
      obtain ⟨u, read⟩ := Parser.parse_eq_ok read
      exact ⟨_, u, read⟩
    · cases h

/-- **Every function at the top of a source starts at one of its tokens.** -/
theorem file_define (h : file cs = .ok ss) (mem : .define f ∈ ss) :
    ∃ tok rest, tok :: rest <:+ (Lexer.tokens (sourceText cs)).items ∧
      Parser.Compound.OpenedBy (sourceRules cs) f (tok :: rest) := by
  obtain ⟨depth, u, read⟩ := file_eq_ok h
  exact (Parser.fileStatements_define read mem).1

/-- The parameters of a function at the top of a source have their names from its tokens. -/
theorem file_params (h : file cs = .ok ss) (mem : .define f ∈ ss) :
    ∀ p ∈ f.params, Parser.NameIn (Lexer.tokens (sourceText cs)).items p.name := by
  obtain ⟨depth, u, read⟩ := file_eq_ok h
  exact (Parser.fileStatements_define read mem).2

end Docsig.Code
