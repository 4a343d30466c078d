import Docsig.Code.Lexer
import Mathlib.Data.List.Basic

/-!
Scanners in front of a line feed.

No scanner reads over a line feed that ends its text, apart from one that looks for the end
of a quotation and does not find it. So with one more line feed at the end each of them finds
what it found, and leaves that line feed too: `quotation?_feed`, `number?_feed` and
`markAt_feed`, from a lemma of the same kind for each part.
-/

namespace Docsig.Code.Lexer

variable {cs rest w : List Char} {p : Char → Bool} {n : Nat}

/-! ### Runs of characters -/

theorem takeWhile_feed (h : p '\n' = false) (cs : List Char) :
    (cs ++ ['\n']).takeWhile p = cs.takeWhile p := by
  induction cs with
  | nil => simp [h]
  | cons c cs ih =>
      rw [List.cons_append, List.takeWhile_cons, List.takeWhile_cons, ih]

theorem dropWhile_feed (h : p '\n' = false) (cs : List Char) :
    (cs ++ ['\n']).dropWhile p = cs.dropWhile p ++ ['\n'] := by
  induction cs with
  | nil => simp [h]
  | cons c cs ih =>
      rw [List.cons_append, List.dropWhile_cons, List.dropWhile_cons, ih]
      split <;> rfl

theorem head?_any_feed (h : p '\n' = false) (cs : List Char) :
    (cs ++ ['\n']).head?.any p = cs.head?.any p := by
  cases cs with
  | nil => simp [h]
  | cons c cs => rfl

theorem head?_feed {x : Char} (h : x ≠ '\n') (cs : List Char) :
    ((cs ++ ['\n']).head? = some x) = (cs.head? = some x) := by
  cases cs with
  | nil => simp [h.symm]
  | cons c cs => rfl

theorem prefix_feed (h : '\n' ∉ w) : w <+: cs ++ ['\n'] ↔ w <+: cs := by
  rw [List.prefix_concat_iff, or_iff_right]
  rintro rfl
  exact h List.mem_concat_self

theorem take_feed (h : '\n' ∉ w) (len : w.length = n) :
    (cs ++ ['\n']).take n = w ↔ cs.take n = w := by
  subst len
  rw [eq_comm, ← List.prefix_iff_eq_take, prefix_feed h, List.prefix_iff_eq_take, eq_comm]

theorem drop_feed (h : cs.take n = w) (len : w.length = n) :
    (cs ++ ['\n']).drop n = cs.drop n ++ ['\n'] := by
  rw [List.drop_append_of_le_length]
  subst h
  rw [List.length_take] at len
  omega

/-- What a scanner finds, with a line feed after what it leaves. -/
def fed {α : Type} (found : α × List Char) : α × List Char := (found.1, found.2 ++ ['\n'])

/-- What is scanned after something else has the line feed after it too. -/
theorem bind_fed {α β : Type} {x : Option (α × List Char)}
    {f g : α × List Char → Option (β × List Char)}
    (h : ∀ a rest, f (fed (a, rest)) = (g (a, rest)).map fed) :
    (x.map fed).bind f = (x.bind g).map fed := by
  cases x with
  | none => rfl
  | some found => exact h found.1 found.2

/-! ### Quotations -/

theorem isQuote_ne {quote : Char} (h : isQuote quote = true) : quote ≠ '\n' ∧ quote ≠ '\\' := by
  constructor <;> (rintro rfl; exact absurd h (by decide))

/-- The rest of a tripled mark stands where it stood. -/
theorem triple_feed {quote : Char} (h : quote ≠ '\n') (cs : List Char) :
    ((cs ++ ['\n']).take 2 = [quote, quote]) = (cs.take 2 = [quote, quote]) :=
  propext (take_feed (by simpa using h.symm) rfl)

theorem bodyUpTo?_plain {quote c : Char} {triple : Bool} (h : c ≠ '\\') :
    bodyUpTo? quote triple (c :: cs) =
      if c = quote && (!triple || cs.take 2 = [quote, quote]) then
        some ([], if triple then cs.drop 2 else cs)
      else if c = '\n' && !triple then none
      else (bodyUpTo? quote triple cs).map fun (body, rest) => (c :: body, rest) := by
  rw [bodyUpTo?]
  rintro d ds rfl
  exact absurd rfl h

/-- The body of a text is read alike with a line end added, which stays behind it. -/
theorem bodyUpTo?_feed {quote : Char} (h : isQuote quote = true) (triple : Bool) (cs : List Char) :
    bodyUpTo? quote triple (cs ++ ['\n']) = (bodyUpTo? quote triple cs).map fed := by
  obtain ⟨noFeed, noBackslash⟩ := isQuote_ne h
  have same := triple_feed noFeed
  -- by the recursion of the scan; a mark that opens a text is neither a line end nor a
  -- backslash
  induction cs using bodyUpTo?.induct quote triple with
  | case1 =>
      rw [List.nil_append, bodyUpTo?_plain (by decide), if_neg (by simp [noFeed.symm])]
      split <;> rfl
  | case2 c cs ih =>
      rw [List.cons_append, List.cons_append, bodyUpTo?, bodyUpTo?, ih, Option.map_map,
        Option.map_map]
      rfl
  | case3 c cs plain closes =>
      obtain ⟨isQuote, two⟩ : c = quote ∧ (triple = true → cs.take 2 = [quote, quote]) := by
        simpa [← Bool.not_eq_true, imp_iff_not_or] using closes
      have other : c ≠ '\\' := isQuote ▸ noBackslash
      rw [List.cons_append, bodyUpTo?_plain other, bodyUpTo?_plain other]
      simp only [same]
      rw [if_pos closes, if_pos closes]
      cases triple with
      | false => rfl
      | true => simp [fed, drop_feed (two rfl) rfl]
  | case4 c cs plain open_ broken =>
      have other : c ≠ '\\' := by
        rintro rfl
        exact absurd broken (by simp)
      rw [List.cons_append, bodyUpTo?_plain other, bodyUpTo?_plain other]
      simp only [same]
      rw [if_neg open_, if_neg open_, if_pos broken, if_pos broken]
      rfl
  | case5 c cs plain open_ unbroken ih =>
      by_cases other : c = '\\'
      · -- a backslash at the end keeps the line feed
        subst other
        cases cs with
        | nil =>
            rw [bodyUpTo?, if_neg open_, if_neg unbroken]
            · rfl
            · exact plain
        | cons d ds => exact (plain d ds rfl rfl).elim
      · rw [List.cons_append, bodyUpTo?_plain other, bodyUpTo?_plain other]
        simp only [same]
        rw [if_neg open_, if_neg open_, if_neg unbroken, if_neg unbroken, ih, Option.map_map,
          Option.map_map]
        rfl

/-- A quoted text is read alike with a line end added. -/
theorem quotation?_feed (h : cs.head?.any isQuote = true) :
    quotation? (cs ++ ['\n']) =
      (quotation? cs).map fun (body, width, rest) => (body, width, rest ++ ['\n']) := by
  cases cs with
  | nil => cases h
  | cons quote cs =>
      have h : isQuote quote = true := h
      rw [List.cons_append, quotation?, quotation?]
      simp only [triple_feed (isQuote_ne h).1]
      split
      · rename_i triple
        rw [drop_feed triple rfl, bodyUpTo?_feed h, Option.map_map, Option.map_map]
        rfl
      · rw [bodyUpTo?_feed h, Option.map_map, Option.map_map]
        rfl

theorem textMarks?_feed (cs : List Char) : textMarks? (cs ++ ['\n']) = textMarks? cs := by
  have plain : isQuote '\n' = false := by decide
  match cs with
  | [] => rfl
  | [a] => simp [textMarks?, plain]
  | [a, b] => simp [textMarks?, plain]
  | a :: b :: c :: cs => rfl

/-- Marks are followed by the quotation that they belong to. -/
theorem textMarks?_quote {marks : TextMarks} {letters : Nat}
    (h : textMarks? cs = some (marks, letters)) :
    letters ≤ cs.length ∧ (cs.drop letters).head?.any isQuote = true := by
  -- at most two letters stand before the mark: one case for each length that is looked at
  match cs with
  | [] => cases h
  | [a] =>
      rw [textMarks?] at h
      split at h
      · rename_i first
        cases h
        exact ⟨Nat.zero_le _, first⟩
      · cases h
  | [a, b] =>
      rw [textMarks?] at h
      split at h
      · rename_i first
        cases h
        exact ⟨Nat.zero_le _, first⟩
      split at h
      · rename_i second
        obtain ⟨m, -, ⟨⟩⟩ := Option.map_eq_some_iff.mp h
        exact ⟨by simp, second⟩
      · cases h
  | a :: b :: c :: cs =>
      rw [textMarks?] at h
      split at h
      · rename_i first
        cases h
        exact ⟨Nat.zero_le _, first⟩
      split at h
      · rename_i second
        obtain ⟨m, -, ⟨⟩⟩ := Option.map_eq_some_iff.mp h
        exact ⟨by simp, second⟩
      split at h
      · rename_i third
        obtain ⟨m, -, ⟨⟩⟩ := Option.map_eq_some_iff.mp h
        exact ⟨by simp, third⟩
      · cases h

/-! ### Numbers -/

/-- Digits are read alike with a line end added, which is none. -/
theorem digitRun?_feed {digit? : Char → Option Nat} (h : digit? '\n' = none) (cs : List Char) :
    digitRun? digit? (cs ++ ['\n']) = (digitRun? digit? cs).map fed := by
  fun_induction digitRun? digit? cs with
  | case1 => simp [digitRun?, h, fed]
  | case2 c cs d hd ih =>
      rw [← ih]
      simp [digitRun?, hd]
  | case3 c cs hd => simp [digitRun?, hd]
  | case4 => simp [digitRun?, h]
  | case5 c cs plain d hd ih =>
      rw [List.cons_append, digitRun?, hd]
      · simp only [ih, Option.map_map]
        rfl
      · exact plain
  | case6 c cs plain hd =>
      rw [List.cons_append, digitRun?, hd]
      · rfl
      · exact plain

theorem endsNumber_feed (cs : List Char) : endsNumber (cs ++ ['\n']) = endsNumber cs := by
  have noFeed : ∀ w ∈ followingWords, '\n' ∉ w := by decide
  have words : (followingWords.any fun w => w.isPrefixOf (cs ++ ['\n'])) =
      followingWords.any fun w => w.isPrefixOf cs := by
    rw [Bool.eq_iff_iff, List.any_eq_true, List.any_eq_true]
    refine exists_congr fun w => and_congr_right fun hw => ?_
    rw [List.isPrefixOf_iff_prefix, List.isPrefixOf_iff_prefix, prefix_feed (noFeed w hw)]
  rw [endsNumber, endsNumber, words, head?_any_feed (by decide : isNameChar '\n' = false)]

theorem closeNumber_feed (value : Constant) (cs : List Char) :
    closeNumber value (cs ++ ['\n']) = (closeNumber value cs).map fed := by
  rw [closeNumber, closeNumber, endsNumber_feed]
  split <;> rfl

theorem basedNumber?_feed (base : Nat) (cs : List Char) :
    basedNumber? base (cs ++ ['\n']) = (basedNumber? base cs).map fed := by
  have plain : digitBelow? base '\n' = none := rfl
  unfold basedNumber?
  rw [digitRun?_feed plain]
  refine bind_fed fun ds rest => ?_
  simp only [fed, head?_any_feed (by decide : '\n'.isDigit = false)]
  split
  · rfl
  · exact closeNumber_feed _ rest

theorem fraction?_feed (cs : List Char) :
    fraction? (cs ++ ['\n']) = (fraction? cs).map fed := by
  unfold fraction?
  rw [head?_any_feed (by decide)]
  split
  · exact digitRun?_feed rfl cs
  · rfl

theorem takeSign_feed (cs : List Char) : takeSign (cs ++ ['\n']) = fed (takeSign cs) := by
  unfold takeSign
  cases cs with
  | nil => rfl
  | cons c cs =>
      rw [List.cons_append]
      split
      · rename_i eq
        cases eq
        rfl
      · rename_i eq
        cases eq
        rfl
      · rename_i minus plus
        split
        · rename_i eq
          cases eq
          exact absurd rfl (minus _)
        · rename_i eq
          cases eq
          exact absurd rfl (plus _)
        · rfl

/-- An exponent is read alike with a line end added. -/
theorem exponent?_feed (cs : List Char) :
    exponent? (cs ++ ['\n']) = (exponent? cs).map fed := by
  cases cs with
  | nil => rfl
  | cons c cs =>
      simp only [List.cons_append, exponent?]
      split
      · rw [takeSign_feed]
        simp only [fed, head?_any_feed (by decide : '\n'.isDigit = false)]
        split
        · rw [digitRun?_feed rfl, Option.map_map, Option.map_map]
          rfl
        · simp only [head?_feed (by decide : '+' ≠ '\n'), head?_feed (by decide : '-' ≠ '\n')]
          split
          · rfl
          · rw [← List.cons_append, endsNumber_feed]
            split <;> rfl
      · rfl

theorem closeReal_feed (whole fraction : List Nat) (exponent : Int) (real : Constant)
    (cs : List Char) :
    closeReal whole fraction exponent real (cs ++ ['\n']) =
      (closeReal whole fraction exponent real cs).map fed := by
  cases cs with
  | nil => rfl
  | cons c cs =>
      rw [List.cons_append, closeReal, closeReal]
      split
      · exact closeNumber_feed _ cs
      · exact closeNumber_feed _ (c :: cs)

theorem afterWhole?_feed (whole : List Nat) (cs : List Char) :
    afterWhole? whole (cs ++ ['\n']) = (afterWhole? whole cs).map fed := by
  have imaginary := @head?_any_feed (fun c => decide (c = 'j') || decide (c = 'J')) (by decide)
  simp only [afterWhole?, head?_feed (by decide : '.' ≠ '\n')]
  split
  on_goal 1 =>
    rename_i point
    obtain ⟨cs, rfl⟩ : ∃ ds, cs = '.' :: ds := List.head?_eq_some_iff.mp point
    simp only [List.cons_append, List.drop_one, List.tail_cons, fraction?_feed]
    refine bind_fed fun fraction rest => ?_
  on_goal 2 => refine @bind_fed _ _ (some ([], cs)) _ _ fun fraction rest => ?_
  all_goals
    simp only [fed, exponent?_feed]
    refine bind_fed fun exponent? rest => ?_
    simp only [fed, imaginary]
    split
    · rfl
    · exact closeReal_feed _ _ _ _ rest

/-- A number is read alike with a line end added. -/
theorem number?_feed (cs : List Char) : number? (cs ++ ['\n']) = (number? cs).map fed := by
  have whole : ∀ cs, ((digitRun? Text.asciiDigit? (cs ++ ['\n'])).bind fun run =>
      afterWhole? run.1 run.2) = ((digitRun? Text.asciiDigit? cs).bind fun run =>
        afterWhole? run.1 run.2).map fed := by
    intro cs
    rw [digitRun?_feed rfl]
    exact bind_fed fun ds rest => afterWhole?_feed ds rest
  -- a point first, one of three bases, another number from zero, and any other number
  fun_cases number? cs with
  | case1 cs =>
      rw [List.cons_append, number?]
      exact afterWhole?_feed [] ('.' :: cs)
  | case2 c rest hex =>
      rw [List.cons_append, List.cons_append, number?, if_pos hex]
      exact basedNumber?_feed 16 rest
  | case3 c rest _ octal =>
      rw [List.cons_append, List.cons_append, number?, if_neg ‹_›, if_pos octal]
      exact basedNumber?_feed 8 rest
  | case4 c rest _ _ binary =>
      rw [List.cons_append, List.cons_append, number?, if_neg ‹_›, if_neg ‹_›, if_pos binary]
      exact basedNumber?_feed 2 rest
  | case5 c rest _ _ plain =>
      rw [List.cons_append, List.cons_append, number?, if_neg ‹_›, if_neg ‹_›, if_neg plain]
      exact whole ('0' :: c :: rest)
  | case6 _ point based =>
      by_cases zero : cs = ['0']
      · -- the line feed is what follows the zero, and no base
        rw [zero]
        exact whole ['0']
      · rw [number?]
        · exact whole cs
        · intro ds eq
          cases cs with
          | nil => cases eq
          | cons d cs =>
              cases eq
              exact point cs rfl
        · intro c ds eq
          match cs with
          | [] => cases eq
          | [d] =>
              cases eq
              exact zero rfl
          | d :: e :: cs =>
              cases eq
              exact based c cs rfl

theorem startsNumber_feed (cs : List Char) : startsNumber (cs ++ ['\n']) = startsNumber cs := by
  match cs with
  | [] => rfl
  | [c] =>
      by_cases point : c = '.'
      · subst point
        rfl
      · simp [startsNumber, point]
  | c :: d :: cs =>
      by_cases point : c = '.'
      · subst point
        rfl
      · simp [startsNumber, point]

/-! ### Marks -/

/-- Marks of one length, without a line feed, are found alike. -/
theorem contains_feed {marks : List String}
    (h : ∀ m ∈ marks, '\n' ∉ m.toList ∧ m.toList.length = n) (cs : List Char) :
    marks.contains (String.ofList ((cs ++ ['\n']).take n)) =
      marks.contains (String.ofList (cs.take n)) := by
  rw [Bool.eq_iff_iff, List.contains_iff_mem, List.contains_iff_mem]
  constructor
  · intro mem
    obtain ⟨noFeed, len⟩ := h _ mem
    rw [String.toList_ofList] at noFeed len
    rwa [(take_feed noFeed len).mp rfl]
  · intro mem
    obtain ⟨noFeed, len⟩ := h _ mem
    rw [String.toList_ofList] at noFeed len
    rwa [(take_feed noFeed len).mpr rfl]

/-- A mark that is found is as long as its kind says. -/
theorem take_of_contains {marks : List String} (h : ∀ m ∈ marks, m.toList.length = n)
    (found : marks.contains (String.ofList (cs.take n)) = true) :
    (cs ++ ['\n']).take n = cs.take n := by
  have len := h _ (List.contains_iff_mem.mp found)
  rw [String.toList_ofList, List.length_take] at len
  exact List.take_append_of_le_length (by omega)

/-- The mark at the start of a text is not a line end that is added behind. -/
theorem markAt_feed (filled : cs ≠ []) : markAt (cs ++ ['\n']) = markAt cs := by
  have long := @contains_feed 3 longMarks (by decide +kernel) cs
  have short := @contains_feed 2 shortMarks (by decide +kernel) cs
  unfold markAt
  simp only [long, short]
  split
  · rename_i found
    rw [@take_of_contains cs 3 longMarks (by decide +kernel) found]
  · split
    · rename_i found
      rw [@take_of_contains cs 2 shortMarks (by decide +kernel) found]
    · rw [List.take_append_of_le_length (List.length_pos_of_ne_nil filled)]

theorem markAt_length_le (cs : List Char) : (markAt cs).length ≤ cs.length := by
  have taken (k : Nat) : (String.ofList (cs.take k)).length ≤ cs.length := by
    rw [String.length_ofList, List.length_take]
    exact Nat.min_le_right _ _
  unfold markAt
  extract_lets three two
  split
  · exact taken 3
  · split
    · exact taken 2
    · exact taken 1

end Docsig.Code.Lexer
