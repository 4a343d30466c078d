import Docsig.Code.Lexer
import Mathlib.Data.List.Basic
import Mathlib.Order.Basic

/-!
The lines of tokens, and their words.

What a lexer leaves of a text is its end, and its cursor counts the line feeds before
that. So the line on which a text ends, `Cursor.lastLine`, never changes while tokens are
read (`Reaches`). In a text whose last line is ended every token stands above that line,
apart from the one that ends the text: `run_endsOnce`, with `tokens_line` and
`tokens_complete` for a whole text. A token that is a word is an identifier (`tokens_word`).
-/

namespace Docsig.Code.Lexer

variable {cs rest body : List Char}

/-! ### What scanners leave -/

/-- The body of a text is read off the front. -/
theorem bodyUpTo?_suffix {quote : Char} {triple : Bool} :
    ∀ {cs body rest}, bodyUpTo? quote triple cs = some (body, rest) → rest <:+ cs := by
  intro cs
  -- by the recursion of the scan: an escaped pair, the closing mark, a line end, and any other
  -- character
  induction cs using bodyUpTo?.induct quote triple with
  | case1 => intro body rest h; cases h
  | case2 c cs ih =>
      intro body rest h
      rw [bodyUpTo?] at h
      obtain ⟨⟨inner, left⟩, found, ⟨⟩⟩ := Option.map_eq_some_iff.mp h
      exact (ih found).trans ((List.suffix_cons c cs).trans (List.suffix_cons _ _))
  | case3 c cs plain closes =>
      intro body rest h
      rw [bodyUpTo?, if_pos closes] at h
      · cases h
        split
        · exact (List.drop_suffix 2 cs).trans (List.suffix_cons c cs)
        · exact List.suffix_cons c cs
      · exact plain
  | case4 c cs plain open_ broken =>
      intro body rest h
      rw [bodyUpTo?, if_neg open_, if_pos broken] at h
      · cases h
      · exact plain
  | case5 c cs plain open_ unbroken ih =>
      intro body rest h
      rw [bodyUpTo?, if_neg open_, if_neg unbroken] at h
      · obtain ⟨⟨inner, left⟩, found, ⟨⟩⟩ := Option.map_eq_some_iff.mp h
        exact (ih found).trans (List.suffix_cons c cs)
      · exact plain

/-- A quoted text is read off the front. -/
theorem quotation?_suffix {width : Nat} (h : quotation? cs = some (body, width, rest)) :
    rest <:+ cs := by
  cases cs with
  | nil => cases h
  | cons quote cs =>
      rw [quotation?] at h
      split at h
      · obtain ⟨⟨inner, left⟩, found, ⟨⟩⟩ := Option.map_eq_some_iff.mp h
        exact (bodyUpTo?_suffix found).trans
          ((List.drop_suffix 2 cs).trans (List.suffix_cons quote cs))
      · obtain ⟨⟨inner, left⟩, found, ⟨⟩⟩ := Option.map_eq_some_iff.mp h
        exact (bodyUpTo?_suffix found).trans (List.suffix_cons quote cs)

section Numbers

variable {ds : List Nat} {value : Constant}

/-- Digits are read off the front. -/
theorem digitRun?_suffix {digit? : Char → Option Nat} :
    ∀ {cs ds rest}, digitRun? digit? cs = some (ds, rest) → rest <:+ cs := by
  intro cs
  induction cs using digitRun?.induct digit? with
  | case1 =>
      intro ds rest h
      cases h
      exact List.suffix_refl _
  | case2 c cs d hd ih =>
      intro ds rest h
      rw [digitRun?] at h
      simp only [hd] at h
      exact (ih h).trans (List.suffix_cons _ _)
  | case3 c cs hd =>
      intro ds rest h
      rw [digitRun?] at h
      simp only [hd] at h
      cases h
  | case4 =>
      intro ds rest h
      cases h
  | case5 c cs plain d hd ih =>
      intro ds rest h
      rw [digitRun?] at h
      · simp only [hd] at h
        obtain ⟨⟨inner, left⟩, found, ⟨⟩⟩ := Option.map_eq_some_iff.mp h
        exact (ih found).trans (List.suffix_cons c cs)
      · exact plain
  | case6 c cs plain hd =>
      intro ds rest h
      rw [digitRun?] at h
      · simp only [hd] at h
        cases h
        exact List.suffix_refl _
      · exact plain

theorem closeNumber_suffix {v : Constant} (h : closeNumber v cs = some (value, rest)) :
    rest <:+ cs := by
  unfold closeNumber at h
  split at h
  · cases h
    exact List.suffix_refl _
  · cases h

theorem basedNumber?_suffix {base : Nat} (h : basedNumber? base cs = some (value, rest)) :
    rest <:+ cs := by
  obtain ⟨⟨ds, left⟩, digits, h⟩ := Option.bind_eq_some_iff.mp h
  simp only at h
  split at h
  · cases h
  · exact (closeNumber_suffix h).trans (digitRun?_suffix digits)

theorem fraction?_suffix (h : fraction? cs = some (ds, rest)) : rest <:+ cs := by
  unfold fraction? at h
  split at h
  · exact digitRun?_suffix h
  · cases h
    exact List.suffix_refl _

theorem takeSign_suffix (cs : List Char) : (takeSign cs).2 <:+ cs := by
  unfold takeSign
  split
  · exact List.suffix_cons _ _
  · exact List.suffix_cons _ _
  · exact List.suffix_refl _

theorem exponent?_suffix {e? : Option Int} (h : exponent? cs = some (e?, rest)) : rest <:+ cs := by
  cases cs with
  | nil =>
      cases h
      exact List.suffix_refl _
  | cons c cs =>
      simp only [exponent?] at h
      split at h
      · split at h
        · obtain ⟨⟨ds, left⟩, digits, ⟨⟩⟩ := Option.map_eq_some_iff.mp h
          exact (digitRun?_suffix digits).trans
            ((takeSign_suffix cs).trans (List.suffix_cons c cs))
        · split at h
          · cases h
          · split at h
            · cases h
              exact List.suffix_refl _
            · cases h
      · cases h
        exact List.suffix_refl _

theorem closeReal_suffix {whole fraction : List Nat} {exponent : Int} {real : Constant}
    (h : closeReal whole fraction exponent real cs = some (value, rest)) : rest <:+ cs := by
  cases cs with
  | nil =>
      cases h
      exact List.suffix_refl _
  | cons c cs =>
      rw [closeReal] at h
      split at h
      · exact (closeNumber_suffix h).trans (List.suffix_cons c cs)
      · exact closeNumber_suffix h

theorem afterWhole?_suffix {whole : List Nat} (h : afterWhole? whole cs = some (value, rest)) :
    rest <:+ cs := by
  simp only [afterWhole?] at h
  -- the fraction is read after a point, or is missing; what comes after it is read alike
  split at h
  all_goals
    obtain ⟨⟨fraction, left⟩, hfraction, h⟩ := Option.bind_eq_some_iff.mp h
    obtain ⟨⟨exponent?, left'⟩, hexponent, h⟩ := Option.bind_eq_some_iff.mp h
    simp only at h
    split at h
    · cases h
    refine (closeReal_suffix h).trans ((exponent?_suffix hexponent).trans ?_)
  · exact (fraction?_suffix hfraction).trans (List.drop_suffix 1 cs)
  · cases hfraction
    exact List.suffix_refl _

/-- A number is read off the front. -/
theorem number?_suffix (h : number? cs = some (value, rest)) : rest <:+ cs := by
  have whole : ∀ {cs}, ((digitRun? Text.asciiDigit? cs).bind fun run =>
      afterWhole? run.1 run.2) = some (value, rest) → rest <:+ cs := by
    intro cs h
    obtain ⟨⟨ds, left⟩, digits, h⟩ := Option.bind_eq_some_iff.mp h
    exact (afterWhole?_suffix h).trans (digitRun?_suffix digits)
  unfold number? at h
  split at h
  · exact afterWhole?_suffix h
  · rename_i c cs
    -- after a leading zero there is a base, or a number like any other
    have based : ∀ {base}, basedNumber? base cs = some (value, rest) → rest <:+ '0' :: c :: cs :=
      fun h => (basedNumber?_suffix h).trans
        ((List.suffix_cons c cs).trans (List.suffix_cons '0' (c :: cs)))
    split at h
    · exact based h
    split at h
    · exact based h
    split at h
    · exact based h
    · exact whole h
  · exact whole h

end Numbers

/-! ### Texts whose lines are ended -/

/-- A text with no line left open: nothing follows its last line feed. -/
def Ended (cs : List Char) : Prop := ∀ c ∈ cs.getLast?, c = '\n'

theorem Ended.suffix (h : Ended cs) (left : rest <:+ cs) : Ended rest := by
  intro c hc
  obtain ⟨consumed, rfl⟩ := left
  exact h c (List.mem_getLast?_append_of_mem_getLast? hc)

theorem Ended.exists_concat (h : Ended cs) (filled : cs ≠ []) : ∃ ds, cs = ds ++ ['\n'] := by
  have last := h _ (List.getLast?_eq_some_getLast filled)
  exact ⟨cs.dropLast, by rw [← last, List.dropLast_append_getLast]⟩

theorem Ended.mem (h : Ended cs) (filled : cs ≠ []) : '\n' ∈ cs := by
  obtain ⟨ds, rfl⟩ := h.exists_concat filled
  exact List.mem_concat_self

/-! ### Cursors -/

theorem advance_line (p : Place) (cs : List Char) :
    (advance p cs).line = p.line + cs.count '\n' := by
  induction cs generalizing p with
  | nil => rfl
  | cons c cs ih =>
      rw [advance, ih, List.count_cons]
      split
      · rename_i feed
        simp only [feed, beq_self_eq_true, if_true]
        omega
      · rename_i other
        simp [other]

def Cursor.lastLine (c : Cursor) : Nat := c.place.line + c.rest.count '\n'

/-- Reading went on from one cursor to another: what is left is an end of the text, which
still ends on the same line. -/
structure Reaches (c d : Cursor) : Prop where
  line : d.lastLine = c.lastLine
  left : d.rest <:+ c.rest

variable {c d e : Cursor}

theorem Reaches.refl (c : Cursor) : Reaches c c := ⟨rfl, List.suffix_refl _⟩

theorem Reaches.trans (h : Reaches c d) (h' : Reaches d e) : Reaches c e :=
  ⟨h'.line.trans h.line, h'.left.trans h.left⟩

theorem past_reaches {consumed : List Char} (h : consumed ++ rest = c.rest) :
    Reaches c (c.past consumed rest) := by
  refine ⟨?_, ⟨consumed, h⟩⟩
  rw [Cursor.lastLine, Cursor.lastLine, ← h, List.count_append]
  simp only [Cursor.past, advance_line]
  omega

theorem drop_reaches (count : Nat) : Reaches c (c.drop count) :=
  past_reaches (List.take_append_drop count c.rest)

/-- What is consumed in front of an end of the text. -/
theorem past_suffix_reaches (h : rest <:+ c.rest) :
    Reaches c (c.past (c.rest.take (c.rest.length - rest.length)) rest) := by
  refine past_reaches ?_
  obtain ⟨consumed, eq⟩ := h
  rw [← eq]
  simp

theorem skipSpace_reaches (c : Cursor) : Reaches c (skipSpace c) := by
  unfold skipSpace
  extract_lets isSpace past
  have spaces : Reaches c past := past_reaches List.takeWhile_append_dropWhile
  split
  · exact spaces.trans (past_reaches List.takeWhile_append_dropWhile)
  · exact spaces

/-- A step over one character that is no line feed. -/
theorem step_reaches {p : Place} {x : Char} (h : x ≠ '\n') :
    Reaches ⟨x :: cs, p⟩ ⟨cs, ⟨p.line, p.column + 1⟩⟩ := by
  refine ⟨?_, List.suffix_cons x cs⟩
  rw [Cursor.lastLine, Cursor.lastLine, List.count_cons_of_ne h]

/-- Measuring an indentation gives the cursor after it. -/
theorem measure_reaches {m m' : Measure} {p : Place} {after : Cursor}
    (h : measure m p cs = .ok (m', after)) : Reaches ⟨cs, p⟩ after := by
  -- by the recursion of the measure: only a joined line moves to another line, and its line end
  -- is consumed
  fun_induction measure m p cs with
  | case1 =>
      cases h
      exact .refl _
  | case2 => cases h
  | case3 m p rest _ ih =>
      have joined : Reaches ⟨'\\' :: '\n' :: rest, p⟩ ⟨rest, ⟨p.line + 1, 0⟩⟩ := by
        refine ⟨?_, (List.suffix_cons '\n' rest).trans (List.suffix_cons '\\' _)⟩
        simp only [Cursor.lastLine, List.count_cons_of_ne (by decide : '\\' ≠ '\n'),
          List.count_cons_self]
        omega
      exact joined.trans (ih h)
  | case4 => cases h
  | case5 m p cs next _ ih => exact (step_reaches (by decide : ' ' ≠ '\n')).trans (ih h)
  | case6 m p cs next _ _ ih => exact (step_reaches (by decide : '\t' ≠ '\n')).trans (ih h)
  | case7 m p c cs _ next _ _ formFeed ih =>
      have other : c ≠ '\n' := by
        rintro rfl
        cases formFeed
      exact (step_reaches other).trans (ih h)
  | case8 =>
      cases h
      exact .refl _

theorem lineStart_reaches {l l' : Layout} {shift : Shift} {blank : Bool} {after : Cursor}
    (h : lineStart l c = .ok shift l' blank after) : Reaches c after := by
  unfold lineStart at h
  split at h
  · cases h
  · rename_i m next measured
    have reaches : Reaches c next := measure_reaches measured
    dsimp only at h
    split at h
    · cases h
      exact reaches
    · split at h
      · cases h
        exact reaches
      · cases h

/-! ### Tokens -/

/-- What may stand in front of the token that ends a text: words are identifiers. -/
def InnerKind : TokenKind → Prop
  | .stop => False
  | .name id => Text.isIdentifier id.toList = true
  | _ => True

/-- A step that goes on in the text: a token stands at the cursor, and does not end the text. -/
def Step.From (cur : Cursor) : Step → Prop
  | .token kind place after _ => InnerKind kind ∧ place = cur.place ∧ Reaches cur after
  | .lineEnd after => Reaches cur after
  | .skip after => Reaches cur after
  | _ => True

/-- An item has a place where the cursor stands and is of a kind that occurs within a source. -/
theorem itemAt_from (l : Layout) (cur : Cursor) (c : Char) : (itemAt l cur c).From cur := by
  unfold itemAt
  split
  · -- a quoted text
    split
    · rename_i found
      refine ⟨.intro, rfl, past_suffix_reaches ?_⟩
      exact (quotation?_suffix found).trans (List.drop_suffix _ _)
    · trivial
  split
  · -- a number
    split
    · rename_i found
      exact ⟨.intro, rfl, past_suffix_reaches (number?_suffix found)⟩
    · trivial
  split
  · -- a word
    extract_lets word
    split
    · rename_i identifier
      refine ⟨?_, rfl, past_reaches List.takeWhile_append_dropWhile⟩
      rwa [InnerKind, String.toList_ofList]
    · trivial
  · -- a mark
    split
    · trivial
    · split
      · extract_lets mark
        exact ⟨.intro, rfl, drop_reaches _⟩
      · trivial

/-- Each step starts where the cursor stands and moves on from there. -/
theorem tokenAt_from (l : Layout) (cur : Cursor) : (tokenAt l cur).From cur := by
  unfold tokenAt
  split
  · trivial
  split
  · exact drop_reaches 1
  split
  · -- a backslash
    split
    · split
      · trivial
      · exact drop_reaches 2
    · trivial
  · exact itemAt_from l cur _

theorem tokenAt_nil {l : Layout} (h : c.rest = []) : tokenAt l c = .done := by
  rw [tokenAt, h]

/-! ### Whole texts -/

variable {done : List Token} {l : Layout} {last : Nat} {t : Token}

/-- A token in front of the one that ends a text: it stands above the last line, or at the
end. -/
structure Inner (last : Nat) (t : Token) : Prop where
  line : t.place.line < last
  kind : InnerKind t.kind

theorem shiftTokens_inner {place : Place} {shift : Shift} (h : place.line < last) :
    ∀ t ∈ shiftTokens place shift, Inner last t := by
  intro t ht
  cases shift with
  | stay => cases ht
  | deeper =>
      obtain rfl := List.mem_singleton.mp ht
      exact ⟨h, .intro⟩
  | back count =>
      obtain ⟨-, rfl⟩ := List.mem_replicate.mp ht
      exact ⟨h, .intro⟩

/-- Tokens of which only the last may end the text, as their ending says. -/
def EndsOnce (last : Nat) (ts : Tokens) : Prop :=
  ∃ inner depth line, (∀ t ∈ inner, Inner last t) ∧
    ts.items = inner ++ [lastToken depth line ts.ending]

theorem finish_endsOnce {line : Nat} {ending : Ending} (inner : ∀ t ∈ done, Inner last t) :
    EndsOnce last (finish done l line ending) := by
  refine ⟨done.reverse, l.brackets.length, line, ?_, ?_⟩
  · exact fun t ht => inner t (List.mem_reverse.mp ht)
  · exact List.reverse_cons

/-- Where something is left of a text, its last line is further down. -/
theorem Ended.line_lt (h : Ended c.rest) (filled : c.rest ≠ []) : c.place.line < c.lastLine :=
  Nat.lt_add_of_pos_right (List.count_pos_iff.mpr (h.mem filled))

theorem Ended.shiftPlace_lt (h : Ended c.rest) (some : 1 ≤ c.lastLine) :
    c.shiftPlace.line < c.lastLine := by
  unfold Cursor.shiftPlace
  split
  · exact some
  · rename_i filled
    exact h.line_lt (by simpa using filled)

/-- What reading keeps: the text ends on one line, and its tokens stand above that. -/
theorem run_endsOnce (h : 1 ≤ last) :
    ∀ {fuel fresh blank l done cur}, cur.lastLine = last → Ended cur.rest →
      (∀ t ∈ done, Inner last t) → EndsOnce last (run fuel fresh blank l done cur) := by
  intro fuel
  -- by induction on the fuel: the tokens so far lie above the last line, and what is left still
  -- ends there
  induction fuel with
  | zero =>
      intro fresh blank l done cur _ _ inner
      exact finish_endsOnce inner
  | succ fuel ih =>
      intro fresh blank l done cur cursor ended inner
      cases fresh with
      | true =>
          rw [run]
          cases step : lineStart l cur with
          | misplaced line => exact finish_endsOnce inner
          | unjoined fault => exact finish_endsOnce inner
          | ok shift l' blank' after =>
              have reaches := lineStart_reaches step
              have there : after.lastLine = last := reaches.line.trans cursor
              have left := ended.suffix reaches.left
              refine ih there left fun t ht => ?_
              rcases List.mem_append.mp ht with ht | ht
              · exact shiftTokens_inner (there ▸ left.shiftPlace_lt (there ▸ h)) t
                  (List.mem_reverse.mp ht)
              · exact inner t ht
      | false =>
          have spaces := skipSpace_reaches cur
          have there : (skipSpace cur).lastLine = last := spaces.line.trans cursor
          have left := ended.suffix spaces.left
          have here (filled : (skipSpace cur).rest ≠ []) : (skipSpace cur).place.line < last :=
            there ▸ left.line_lt filled
          have next := tokenAt_from l (skipSpace cur)
          rw [run]
          cases step : tokenAt l (skipSpace cur) with
          | done =>
              simp only
              split
              · exact finish_endsOnce inner
              · exact finish_endsOnce inner
          | broken line => exact finish_endsOnce inner
          | unjoined fault => exact finish_endsOnce inner
          | skip after =>
              rw [step] at next
              exact ih (next.line.trans there) (left.suffix next.left) inner
          | lineEnd after =>
              rw [step] at next
              -- a line end is in what is left, so that it lies above the last line
              have filled : (skipSpace cur).rest ≠ [] := fun none => by
                rw [tokenAt_nil none] at step
                cases step
              simp only
              split
              · exact ih (next.line.trans there) (left.suffix next.left) inner
              · exact ih (next.line.trans there) (left.suffix next.left)
                  (List.forall_mem_cons.mpr ⟨⟨here filled, .intro⟩, inner⟩)
          | token kind place after l' =>
              rw [step] at next
              obtain ⟨inside, rfl, reaches⟩ := next
              have filled : (skipSpace cur).rest ≠ [] := fun none => by
                rw [tokenAt_nil none] at step
                cases step
              exact ih (reaches.line.trans there) (left.suffix reaches.left)
                (List.forall_mem_cons.mpr ⟨⟨here filled, inside⟩, inner⟩)

theorem tokens_endsOnce (ended : Ended cs) : EndsOnce (1 + cs.count '\n') (tokens cs) :=
  run_endsOnce (Nat.le_add_right _ _) rfl ended (by simp)

/-- **No token stands below the last line of its source**, which is where a fault may stand. -/
theorem tokens_line (ended : Ended cs) (h : t ∈ (tokens cs).items) (sound : t.kind ≠ .fault) :
    t.place.line ≤ cs.count '\n' := by
  obtain ⟨inner, depth, line, above, eq⟩ := tokens_endsOnce ended
  rw [eq] at h
  rcases List.mem_append.mp h with h | h
  · exact Nat.lt_one_add_iff.mp (above t h).line
  · obtain rfl := List.mem_singleton.mp h
    unfold lastToken at sound ⊢
    split at sound
    · rename_i complete
      rw [if_pos complete]
      exact Nat.zero_le _
    · exact absurd rfl sound

/-- Only a source that was read to its end has the token for that. -/
theorem tokens_complete (ended : Ended cs) (h : t ∈ (tokens cs).items) (stop : t.kind = .stop) :
    (tokens cs).ending = .complete := by
  obtain ⟨inner, depth, line, above, eq⟩ := tokens_endsOnce ended
  rw [eq] at h
  rcases List.mem_append.mp h with h | h
  · have inside := (above t h).kind
    rw [stop] at inside
    exact inside.elim
  · obtain rfl := List.mem_singleton.mp h
    unfold lastToken at stop
    split at stop
    · assumption
    · cases stop

/-- **The words of a source are identifiers.** -/
theorem tokens_word {id : String} (ended : Ended cs) (h : t ∈ (tokens cs).items)
    (word : t.kind = .name id) : Text.isIdentifier id.toList = true := by
  obtain ⟨inner, depth, line, above, eq⟩ := tokens_endsOnce ended
  rw [eq] at h
  rcases List.mem_append.mp h with h | h
  · have inside := (above t h).kind
    rwa [word] at inside
  · obtain rfl := List.mem_singleton.mp h
    unfold lastToken at word
    split at word <;> cases word

end Docsig.Code.Lexer
