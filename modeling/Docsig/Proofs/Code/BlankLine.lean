import Docsig.Proofs.Code.Scan
import Docsig.Proofs.Code.Source

/-!
One more blank line at the end of a source.

A source whose last line is ended can be followed by a blank line. Reading it then takes two
steps more, and where the source without it can be read to its end, its tokens are the same
(`run_feed`): those that stand at the end have no line of their own. So its statements are the
same too (`readSource_feed`). What cannot be read to its end may change: a backslash before the
last line end joins the blank line, and a fault that shows at the end is reported on it.
-/

namespace Docsig.Code.Lexer

variable {cs rest : List Char} {p : Char → Bool} {n : Nat}

/-! ### Cursors -/

/-- A cursor whose text has one more line feed at its end. -/
def Cursor.feed (c : Cursor) : Cursor := ⟨c.rest ++ ['\n'], c.place⟩

variable {c : Cursor}

theorem Cursor.exists_feed (ended : Ended c.rest) (filled : c.rest ≠ []) :
    ∃ d : Cursor, c = d.feed := by
  obtain ⟨ds, eq⟩ := ended.exists_concat filled
  exact ⟨⟨ds, c.place⟩, by rw [feed, ← eq]⟩

theorem Cursor.feed_filled (c : Cursor) : c.feed.rest ≠ [] :=
  List.append_ne_nil_of_right_ne_nil c.rest (List.cons_ne_nil '\n' [])

theorem Cursor.drop_feed (h : n ≤ c.rest.length) : c.feed.drop n = (c.drop n).feed := by
  unfold drop feed
  rw [List.take_append_of_le_length h, List.drop_append_of_le_length h]
  rfl

theorem consumed_feed (h : rest <:+ cs) :
    (cs ++ ['\n']).take ((cs ++ ['\n']).length - (rest ++ ['\n']).length) =
      cs.take (cs.length - rest.length) := by
  have shorter := h.length_le
  rw [List.length_append, List.length_append, Nat.add_sub_add_right,
    List.take_append_of_le_length (Nat.sub_le _ _)]

theorem past_run_feed (h : p '\n' = false) (c : Cursor) :
    c.feed.past (c.feed.rest.takeWhile p) (c.feed.rest.dropWhile p) =
      (c.past (c.rest.takeWhile p) (c.rest.dropWhile p)).feed := by
  simp only [Cursor.feed, takeWhile_feed h, dropWhile_feed h]
  rfl

/-- Spaces and a comment are skipped alike with a line end added. -/
theorem skipSpace_feed (c : Cursor) : skipSpace c.feed = (skipSpace c).feed := by
  unfold skipSpace
  extract_lets isSpace past past'
  have spaces : past = past'.feed := past_run_feed (by decide) c
  rw [spaces]
  obtain ⟨_ | ⟨x, cs⟩, place⟩ := past'
  · rfl
  -- a comment stops in front of a line end, so the added one stays outside of it
  by_cases comment : x = '#'
  · subst comment
    exact @past_run_feed (· ≠ '\n') (by decide) ⟨'#' :: cs, place⟩
  · simp only [Cursor.feed, List.cons_append]
    split
    · rename_i eq
      cases eq
      exact absurd rfl comment
    · split
      · rename_i eq
        cases eq
        exact absurd rfl comment
      · rfl

/-- Spaces and comments do not reach over a line feed. -/
theorem skipSpace_filled (ended : Ended c.rest) (filled : c.rest ≠ []) :
    (skipSpace c).rest ≠ [] := by
  obtain ⟨d, rfl⟩ := Cursor.exists_feed ended filled
  rw [skipSpace_feed]
  exact (skipSpace d).feed_filled

/-! ### Tokens -/

def Step.feed : Step → Step
  | .token kind place after layout => .token kind place after.feed layout
  | .lineEnd after => .lineEnd after.feed
  | .skip after => .skip after.feed
  | step => step

/-- Which text, number, word or mark comes next does not depend on a line end added at the end. -/
theorem itemAt_feed {l : Layout} (filled : c.rest ≠ []) (x : Char) :
    itemAt l c.feed x = (itemAt l c x).feed := by
  have nameEnd : isNameChar '\n' = false := by decide
  unfold itemAt
  simp only [Cursor.feed, textMarks?_feed, startsNumber_feed, number?_feed]
  cases marks : textMarks? c.rest with
  | some found =>
      obtain ⟨marks', letters⟩ := found
      obtain ⟨len, quote⟩ := textMarks?_quote marks
      simp only [List.drop_append_of_le_length len, quotation?_feed quote]
      cases quoted : quotation? (c.rest.drop letters) with
      | none => rfl
      | some found =>
          obtain ⟨body, width, rest⟩ := found
          have left := (quotation?_suffix quoted).trans (List.drop_suffix _ _)
          simp only [Option.map_some, consumed_feed left]
          rfl
  | none =>
      simp only
      split
      · -- a number
        cases number : number? c.rest with
        | none => rfl
        | some found =>
            obtain ⟨value, rest⟩ := found
            simp only [Option.map_some, fed, consumed_feed (number?_suffix number)]
            rfl
      split
      · -- a word
        simp only [takeWhile_feed nameEnd, dropWhile_feed nameEnd]
        split <;> rfl
      · -- a mark
        cases l.bracket? x c.place.line with
        | none => rfl
        | some l =>
            simp only [markAt_feed filled]
            split
            · exact congrArg (Step.token _ _ · _) (Cursor.drop_feed (markAt_length_le c.rest))
            · rfl

/-- A step over a text, a number, a word or a mark, or to where none can be read. -/
def Step.isItem : Step → Bool
  | .token _ _ _ _ => true
  | .broken _ => true
  | _ => false

theorem itemAt_isItem (l : Layout) (c : Cursor) (x : Char) : (itemAt l c x).isItem = true := by
  unfold itemAt
  dsimp only
  repeat' split
  all_goals rfl

variable {l l' : Layout} {after : Cursor}

theorem tokenAt_item {x : Char} {place : Place} (noFeed : x ≠ '\n') (noBackslash : x ≠ '\\') :
    tokenAt l ⟨x :: cs, place⟩ = itemAt l ⟨x :: cs, place⟩ x := by
  simp only [tokenAt, noFeed, noBackslash, if_false]

/-- A step that is taken in the same way where one more line feed ends the text. A line end
may be the last of its text; after anything else something is left. -/
def Step.Carries (l : Layout) (c : Cursor) : Step → Prop
  | .token kind place after l' =>
      after.rest ≠ [] ∧ tokenAt l c.feed = .token kind place after.feed l'
  | .skip after => after.rest ≠ [] ∧ tokenAt l c.feed = .skip after.feed
  | .lineEnd after => tokenAt l c.feed = .lineEnd after.feed
  | .done => c.rest = []
  | _ => True

/-- What is read in front of the last line feed of a text leaves that. -/
theorem itemAt_filled {x : Char} {kind : TokenKind} {place : Place} (ended : Ended c.rest)
    (first : c.rest.head? = some x) (noFeed : x ≠ '\n')
    (h : itemAt l c x = .token kind place after l') : after.rest ≠ [] := by
  have filled : c.rest ≠ [] := by
    intro none
    rw [none] at first
    cases first
  obtain ⟨d, rfl⟩ := Cursor.exists_feed ended filled
  have inside : d.rest ≠ [] := by
    intro none
    rw [Cursor.feed, none] at first
    cases first
    exact noFeed rfl
  rw [itemAt_feed inside] at h
  cases step : itemAt l d x with
  | token kind' place' after' l'' =>
      rw [step] at h
      cases h
      exact after'.feed_filled
  | _ =>
      rw [step] at h
      cases h

/-- Each step carries over to the text with one more line end. -/
theorem tokenAt_carries (l : Layout) (ended : Ended c.rest) : (tokenAt l c).Carries l c := by
  obtain ⟨_ | ⟨x, cs⟩, here⟩ := c
  · exact rfl
  by_cases feed : x = '\n'
  · subst feed
    exact rfl
  by_cases backslash : x = '\\'
  · subst backslash
    obtain _ | ⟨y, rest⟩ := cs
    · trivial
    -- a joined line is followed by another, or the source would end in it
    by_cases joined : y = '\n'
    · subst joined
      obtain _ | ⟨z, rest⟩ := rest
      · trivial
      · exact ⟨List.cons_ne_nil z rest, rfl⟩
    · have stray : tokenAt l ⟨'\\' :: y :: rest, here⟩ = .unjoined (.stray here.line) := by
        simp [tokenAt, joined]
      rw [stray]
      trivial
  · rw [tokenAt_item feed backslash]
    have item := itemAt_isItem l ⟨x :: cs, here⟩ x
    have fed := @itemAt_feed ⟨x :: cs, here⟩ l (List.cons_ne_nil x cs) x
    cases step : itemAt l ⟨x :: cs, here⟩ x with
    | token kind place after l' =>
        rw [step] at fed
        exact ⟨itemAt_filled ended rfl feed step, (tokenAt_item feed backslash).trans fed⟩
    | broken line => trivial
    | _ =>
        rw [step] at item
        cases item

/-! ### The start of a line -/

/-- In front of another character than a line feed a text goes on. -/
theorem Ended.tail {x : Char} (ended : Ended (x :: cs)) (noFeed : x ≠ '\n') :
    Ended cs ∧ cs ≠ [] := by
  refine ⟨ended.suffix (List.suffix_cons x cs), ?_⟩
  rintro rfl
  exact noFeed (ended x rfl)

/-- Indentation is measured alike with a line end added, at which measuring stops. -/
theorem measure_feed {m m' : Measure} {place : Place} (h : measure m place cs = .ok (m', after)) :
    measure m place (cs ++ ['\n']) = .ok (m', after.feed) := by
  -- by the recursion of the measure: each case takes the same branch with the line end added
  fun_induction measure m place cs with
  | case1 =>
      cases h
      rfl
  | case2 => cases h
  | case3 m place rest filled ih =>
      rw [List.cons_append, List.cons_append, measure, if_neg (by simp)]
      exact ih h
  | case4 => cases h
  | case5 m place cs next notEnd ih =>
      rw [List.cons_append, measure]
      · exact ih h
      · exact notEnd
  | case6 m place cs next notEnd _ ih =>
      rw [List.cons_append, measure]
      · exact ih h
      · exact notEnd
  | case7 m place c cs notEnd next _ _ formFeed ih =>
      rw [List.cons_append, measure, if_neg ‹_›, if_neg ‹_›, if_pos formFeed]
      · exact ih h
      · exact notEnd
  | case8 m place c cs notEnd noSpace noTab noFormFeed =>
      rw [List.cons_append, measure, if_neg noSpace, if_neg noTab, if_neg noFormFeed]
      · cases h
        rfl
      · exact notEnd

/-- Something is left behind an indentation, if only the end of its line. -/
theorem measure_filled {m m' : Measure} {place : Place} (ended : Ended cs) (filled : cs ≠ [])
    (h : measure m place cs = .ok (m', after)) : after.rest ≠ [] := by
  fun_induction measure m place cs with
  | case1 => exact absurd rfl filled
  | case2 => cases h
  | case3 m place rest more ih =>
      have joined : rest <:+ '\\' :: '\n' :: rest :=
        (List.suffix_cons '\n' rest).trans (List.suffix_cons '\\' _)
      exact ih (ended.suffix joined) (by simpa using more) h
  | case4 => cases h
  | case5 m place cs next _ ih =>
      obtain ⟨rest, more⟩ := ended.tail (by decide)
      exact ih rest more h
  | case6 m place cs next _ _ ih =>
      obtain ⟨rest, more⟩ := ended.tail (by decide)
      exact ih rest more h
  | case7 m place c cs _ next _ _ formFeed ih =>
      have other : c ≠ '\n' := by
        rintro rfl
        cases formFeed
      obtain ⟨rest, more⟩ := ended.tail other
      exact ih rest more h
  | case8 =>
      cases h
      exact List.cons_ne_nil _ _

/-- A line starts alike with a line end added behind the text. -/
theorem lineStart_feed {shift : Shift} {blank : Bool} (ended : Ended c.rest) (filled : c.rest ≠ [])
    (h : lineStart l c = .ok shift l' blank after) :
    after.rest ≠ [] ∧ lineStart l c.feed = .ok shift l' blank after.feed := by
  unfold lineStart at h ⊢
  cases measured : measure {} c.place c.rest with
  | error fault =>
      rw [measured] at h
      cases h
  | ok found =>
      obtain ⟨m, next⟩ := found
      rw [measured] at h
      have left := measure_filled ended filled measured
      have fed : measure {} c.feed.place c.feed.rest = .ok (m, next.feed) := measure_feed measured
      -- both lines are judged by the same character, since something is left
      have first : next.feed.rest.head? = next.rest.head? := by
        rw [Cursor.feed, List.head?_append_of_ne_nil _ left]
      rw [fed]
      simp only [first] at h ⊢
      split at h
      · rename_i inner
        rw [if_pos inner]
        cases h
        exact ⟨left, rfl⟩
      · rename_i inner
        rw [if_neg inner]
        split at h
        · rename_i fits
          cases h
          exact ⟨left, rfl⟩
        · cases h

/-! ### Whole texts -/

variable {done : List Token}

section Steps

variable {fuel : Nat} {fresh blank blank' : Bool} {shift : Shift} {place place' : Place}

theorem run_start (h : lineStart l c = .ok shift l' blank' after) :
    run (fuel + 1) true blank l done c =
      run fuel false blank' l' ((shiftTokens after.shiftPlace shift).reverse ++ done) after := by
  rw [run, h]

theorem run_skip (h : tokenAt l (skipSpace c) = .skip after) :
    run (fuel + 1) false blank l done c = run fuel false blank l done after := by
  rw [run]
  simp only [h]

/-- The tokens after a line end that stands at a place. -/
def lineEndTokens (blank : Bool) (l : Layout) (place : Place) (done : List Token) : List Token :=
  if blank || !l.brackets.isEmpty then done else ⟨.newline, place, 0⟩ :: done

theorem run_lineEnd (h : tokenAt l (skipSpace c) = .lineEnd after) :
    run (fuel + 1) false blank l done c =
      run fuel true false l (lineEndTokens blank l (skipSpace c).place done) after := by
  rw [run, lineEndTokens]
  simp only [h]
  split <;> rfl

theorem run_token {kind : TokenKind} (h : tokenAt l (skipSpace c) = .token kind place after l') :
    run (fuel + 1) false blank l done c =
      run fuel false false l' (⟨kind, place, l'.brackets.length⟩ :: done) after := by
  rw [run]
  simp only [h]

theorem run_end (h : tokenAt l (skipSpace c) = .done) (closed : l.brackets.isEmpty = true) :
    run (fuel + 1) false blank l done c = finish done l (skipSpace c).endLine .complete := by
  rw [run]
  simp only [h, closed, if_true]

theorem unjoined_ne_complete (l : Layout) (fault : JoinFault) : l.unjoined fault ≠ .complete := by
  unfold Layout.unjoined
  intro complete
  split at complete
  · cases complete
  · split at complete <;> cases complete

/-- A text that is read to its end starts a line, or reads on in it. -/
theorem run_start_of_complete (h : (run (fuel + 1) true blank l done c).ending = .complete) :
    ∃ shift l' blank' after, lineStart l c = .ok shift l' blank' after := by
  rw [run] at h
  cases step : lineStart l c with
  | misplaced line =>
      rw [step] at h
      cases h
  | unjoined fault =>
      rw [step] at h
      exact absurd h (unjoined_ne_complete l fault)
  | ok shift l' blank' after => exact ⟨shift, l', blank', after, rfl⟩

/-- At the end of a text a line starts alike wherever it stands. -/
theorem lineStart_nil (h : lineStart l ⟨[], place⟩ = .ok shift l' blank after) (place' : Place) :
    after = ⟨[], place⟩ ∧ lineStart l ⟨[], place'⟩ = .ok shift l' blank ⟨[], place'⟩ := by
  unfold lineStart at h ⊢
  simp only [measure] at h ⊢
  split at h
  · rename_i inner
    rw [if_pos inner]
    cases h
    exact ⟨rfl, rfl⟩
  · rename_i inner
    rw [if_neg inner]
    split at h
    · rename_i fits
      cases h
      exact ⟨rfl, rfl⟩
    · cases h

/-- Where nothing is left, the tokens do not depend on the place that was reached. -/
theorem run_nil (h : (run fuel true blank l done ⟨[], place⟩).ending = .complete) :
    (run fuel true blank' l done ⟨[], place'⟩).items =
      (run fuel true blank l done ⟨[], place⟩).items := by
  obtain _ | fuel := fuel
  · cases h
  obtain ⟨shift, l', blank₁, after, start⟩ := run_start_of_complete h
  obtain ⟨rfl, start'⟩ := lineStart_nil start place'
  rw [run_start start] at h
  rw [run_start start, run_start start']
  obtain _ | fuel := fuel
  · cases h
  -- with a bracket open the run would not be complete
  by_cases closed : l'.brackets.isEmpty = true
  · rw [run_end rfl closed, run_end rfl closed]
    rfl
  · rw [run] at h
    change (if l'.brackets.isEmpty then _ else _ : Tokens).ending = _ at h
    rw [if_neg closed] at h
    cases h

end Steps

/-- **One more line feed at the end of a text changes none of its tokens**, as long as the text
without it can be read to its end. -/
theorem run_feed :
    ∀ {fuel fresh blank l done c}, Ended c.rest → (fresh = true ∨ c.rest ≠ []) →
      (run fuel fresh blank l done c).ending = .complete →
        (run (fuel + 2) fresh blank l done c.feed).items =
          (run fuel fresh blank l done c).items := by
  intro fuel
  -- by induction on the fuel: the two runs take the same steps up to the end of the text, where
  -- the longer one starts a blank line more
  induction fuel with
  | zero =>
      intro fresh blank l done c _ _ complete
      cases complete
  | succ fuel ih =>
      intro fresh blank l done c ended filled complete
      cases fresh with
      | true =>
          -- nothing but the added line is left
          by_cases none : c.rest = []
          · obtain ⟨rest, place⟩ := c
            obtain rfl : rest = [] := none
            exact run_nil complete
          obtain ⟨shift, l', blank', after, start⟩ := run_start_of_complete complete
          obtain ⟨left, start'⟩ := lineStart_feed ended none start
          have same : after.feed.shiftPlace = after.shiftPlace := by
            simp [Cursor.shiftPlace, Cursor.feed, left]
          rw [run_start start] at complete
          rw [run_start start, run_start start', same]
          exact ih (ended.suffix (lineStart_reaches start).left) (.inr left) complete
      | false =>
          have more : c.rest ≠ [] := filled.resolve_left nofun
          have left := skipSpace_filled ended more
          have ended := ended.suffix (skipSpace_reaches c).left
          have carries := tokenAt_carries l ended
          have reaches := tokenAt_from l (skipSpace c)
          cases step : tokenAt l (skipSpace c) with
          | done =>
              rw [step] at carries
              exact absurd carries left
          -- no complete run passes a fault
          | broken line =>
              rw [run] at complete
              simp only [step] at complete
              cases complete
          | unjoined fault =>
              rw [run] at complete
              simp only [step] at complete
              exact absurd complete (unjoined_ne_complete l fault)
          | skip after =>
              rw [step] at carries reaches
              have step' : tokenAt l (skipSpace c.feed) = .skip after.feed := by
                rw [skipSpace_feed]
                exact carries.2
              rw [run_skip step] at complete
              rw [run_skip step, run_skip step']
              exact ih (ended.suffix reaches.left) (.inr carries.1) complete
          | lineEnd after =>
              rw [step] at carries reaches
              have step' : tokenAt l (skipSpace c.feed) = .lineEnd after.feed := by
                rw [skipSpace_feed]
                exact carries
              rw [run_lineEnd step] at complete
              rw [run_lineEnd step, run_lineEnd step', skipSpace_feed]
              exact ih (ended.suffix reaches.left) (.inl rfl) complete
          | token kind place after l' =>
              rw [step] at carries reaches
              have step' : tokenAt l (skipSpace c.feed) = .token kind place after.feed l' := by
                rw [skipSpace_feed]
                exact carries.2
              rw [run_token step] at complete
              rw [run_token step, run_token step']
              exact ih (ended.suffix reaches.2.2.left) (.inr carries.1) complete

/-- **One more line feed changes none of the tokens** of a text that can be read to its end. -/
theorem tokens_feed (ended : Ended cs) (complete : (tokens cs).ending = .complete) :
    (tokens (cs ++ ['\n'])).items = (tokens cs).items := by
  have fed := @run_feed _ true false ⟨[], []⟩ [] ⟨cs, ⟨1, 0⟩⟩ ended (.inl rfl) complete
  unfold tokens tokensFrom
  rwa [List.length_append, List.length_singleton]

end Docsig.Code.Lexer

namespace Docsig.Code

variable {cs : List Char} {ss : List Statement}

/-- The statements of a source stand in front of the token that ends it. -/
theorem tokens_complete_of_parse {r : Parser.Rules} {depth : Nat} (ended : Lexer.Ended cs)
    (h : Parser.parse (Lexer.tokens cs) (Parser.fileStatements r depth) = .ok ss) :
    (Lexer.tokens cs).ending = .complete := by
  obtain ⟨u, read⟩ := Parser.parse_eq_ok h
  obtain ⟨tok, mem, stop⟩ := Parser.fileStatements_stop read
  exact Lexer.tokens_complete ended mem stop

/-- A file that can be read is read alike with a blank line added at its end. -/
theorem readTokens_feed (ended : Lexer.Ended cs)
    (h : readTokens cs Parser.fileStatements = .ok ss) :
    readTokens (cs ++ ['\n']) Parser.fileStatements = .ok ss := by
  have nested : nesting (cs ++ ['\n']) = nesting cs := by simp [nesting]
  unfold readTokens at h ⊢
  simp only [nested] at h ⊢
  split at h
  · rename_i read
    cases h
    have fed := Lexer.tokens_feed ended (tokens_complete_of_parse ended read)
    rw [Parser.parse_congr fed read]
  · cases h

/-- **A blank line at the end changes none of the statements of a source.** -/
theorem readSource_feed (ended : Lexer.Ended cs)
    (h : readSource cs Parser.fileStatements = .ok ss) :
    readSource (cs ++ ['\n']) Parser.fileStatements = .ok ss := by
  unfold readSource at h ⊢
  split at h
  · cases h
  · rename_i clean
    rw [if_neg (mt Text.hasNull_append_feed.mp clean)]
    exact readTokens_feed ended h

end Docsig.Code
