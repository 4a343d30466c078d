import Docsig.Proofs.Text.Split
import Docsig.Tree.Path
import Mathlib.Data.String.Basic

/-!
Paths as names.

A text of names with slashes between them reads as the path of these names
(`ofText_names`), so that a file is found again by the text of its path. A name is its
stem and at most one suffix (`stemOf_append`, `stemOf_cases`).
-/

namespace Docsig

namespace Path

/-- What the entries of a directory may be called. -/
structure IsName (name : String) : Prop where
  ne_empty : name ≠ ""
  ne_point : name ≠ "."
  no_slash : '/' ∉ name.toList

instance : DecidablePred IsName := fun name =>
  decidable_of_iff (name ≠ "" ∧ name ≠ "." ∧ '/' ∉ name.toList)
    ⟨fun ⟨empty, point, slash⟩ => ⟨empty, point, slash⟩,
      fun ⟨empty, point, slash⟩ => ⟨empty, point, slash⟩⟩

/-- What names an entry of a directory and not the directory above. -/
structure IsProper (name : String) : Prop extends IsName name where
  ne_above : name ≠ ".."

instance : DecidablePred IsProper := fun name =>
  decidable_of_iff (IsName name ∧ name ≠ "..") ⟨fun ⟨h, above⟩ => ⟨h, above⟩,
    fun h => ⟨h.toIsName, h.ne_above⟩⟩

variable {name : String} {names : List String}

theorem IsName.not_idle (h : IsName name) : isIdle name.toList = false := by
  have empty : name.toList ≠ [] := fun nil => h.ne_empty (String.toList_inj.mp nil)
  have point : name.toList ≠ ['.'] := fun one => h.ne_point (String.toList_inj.mp one)
  simp [isIdle, empty, point]

/-- A text that starts with a name does not start with a slash. -/
theorem IsName.takeWhile_slash (h : IsName name) (rest : List Char) :
    (name.toList ++ rest).takeWhile (· == '/') = [] := by
  cases cs : name.toList with
  | nil => exact absurd (String.toList_inj.mp cs) h.ne_empty
  | cons c cs' =>
      have other : c ≠ '/' := by
        rintro rfl
        exact h.no_slash (cs ▸ List.mem_cons_self)
      simp [other]

/-- A path of names is cut at its slashes into these names. -/
theorem splitAt_names (ne : names ≠ []) (valid : ∀ name ∈ names, IsName name) :
    Text.splitAt '/' ("/".intercalate names).toList = names.map String.toList := by
  rw [Text.splitAt_eq, String.toList_intercalate]
  refine List.splitOn_intercalate '/' ?_ (by simpa using ne)
  exact List.forall_mem_map.mpr fun name hname => (valid name hname).no_slash

theorem takeWhile_slash_names (ne : names ≠ []) (valid : ∀ name ∈ names, IsName name) :
    ("/".intercalate names).toList.takeWhile (· == '/') = [] := by
  cases names with
  | nil => exact absurd rfl ne
  | cons name rest =>
      have hname := valid name (by simp)
      by_cases alone : rest = []
      · subst alone
        simpa using hname.takeWhile_slash []
      · rw [String.intercalate_cons_of_ne_nil alone, String.toList_append, String.toList_append,
          List.append_assoc]
        exact hname.takeWhile_slash _

/-- **Names with slashes between them read as their path.** -/
theorem ofText_names (ne : names ≠ []) (valid : ∀ name ∈ names, IsName name) :
    ofText ("/".intercalate names) = ⟨0, names⟩ := by
  have kept : ((names.map String.toList).filter fun segment => !isIdle segment) =
      names.map String.toList := by
    refine List.filter_eq_self.mpr (List.forall_mem_map.mpr fun name hname => ?_)
    rw [(valid name hname).not_idle]
    rfl
  rw [ofText, splitAt_names ne valid, kept, takeWhile_slash_names ne valid, List.map_map]
  have same : names.map (String.ofList ∘ String.toList) = names := by simp [Function.comp_def]
  rw [same]
  rfl

/-- Names with slashes between them are the segments of their text. -/
theorem segmentsOf_names (ne : names ≠ []) (valid : ∀ name ∈ names, IsName name) :
    segmentsOf ("/".intercalate names) = names := by
  have kept : (names.map String.toList).filter (· != []) = names.map String.toList := by
    refine List.filter_eq_self.mpr (List.forall_mem_map.mpr fun name hname => ?_)
    simpa using (valid name hname).ne_empty
  rw [segmentsOf, splitAt_names ne valid, kept, List.map_map]
  simp [Function.comp_def]

theorem isAbsolute_names (ne : names ≠ []) (valid : ∀ name ∈ names, IsName name) :
    isAbsolute ("/".intercalate names) = false := by
  have leading := takeWhile_slash_names ne valid
  rw [isAbsolute]
  cases cs : ("/".intercalate names).toList with
  | nil => rfl
  | cons c rest =>
      rw [cs, List.takeWhile_cons] at leading
      by_cases slash : c = '/'
      · simp [slash] at leading
      · simp [slash]

theorem intercalate_ne_empty (ne : names ≠ []) (valid : ∀ name ∈ names, IsName name) :
    "/".intercalate names ≠ "" := by
  intro empty
  have none : ofText "" = ⟨0, []⟩ := rfl
  have path := ofText_names ne valid
  rw [empty, none] at path
  exact ne (congrArg segments path).symm

theorem intercalate_eq_empty_iff (valid : ∀ name ∈ names, IsName name) :
    "/".intercalate names = "" ↔ names = [] := by
  constructor
  · intro empty
    by_contra ne
    exact intercalate_ne_empty ne valid empty
  · rintro rfl
    rfl

/-- Different names make different texts. -/
theorem intercalate_inj {others : List String} (valid : ∀ name ∈ names, IsName name)
    (valid' : ∀ name ∈ others, IsName name)
    (h : "/".intercalate names = "/".intercalate others) : names = others := by
  obtain rfl | ne := eq_or_ne names []
  · exact ((intercalate_eq_empty_iff valid').mp h.symm).symm
  obtain rfl | ne' := eq_or_ne others []
  · exact (intercalate_eq_empty_iff valid).mp h
  have := ofText_names ne valid
  rw [h, ofText_names ne' valid'] at this
  exact (congrArg segments this).symm

/-- What is added to a path is added to its last name. -/
theorem intercalate_concat (names : List String) (name suffix : String) :
    "/".intercalate (names ++ [name]) ++ suffix =
      "/".intercalate (names ++ [name ++ suffix]) := by
  by_cases none : names = []
  · simp [none]
  · rw [String.intercalate_append_of_ne_nil none (by simp),
      String.intercalate_append_of_ne_nil none (by simp), String.append_assoc,
      String.intercalate_singleton, String.intercalate_singleton]

/-- A text is cut in one way at its last slash. -/
theorem append_slash_inj {directory directory' other : String} (flat : '/' ∉ name.toList)
    (flat' : '/' ∉ other.toList) (h : directory ++ "/" ++ name = directory' ++ "/" ++ other) :
    directory = directory' ∧ name = other := by
  have chars : directory.toList ++ '/' :: name.toList = directory'.toList ++ '/' :: other.toList := by
    simpa using congrArg String.toList h
  suffices directory.toList = directory'.toList by
    rw [this] at chars
    exact ⟨String.toList_inj.mp this,
      String.toList_inj.mp (List.cons.inj (List.append_cancel_left chars)).2⟩
  rcases List.append_eq_append_iff.mp chars with ⟨between, same, rest⟩ | ⟨between, same, rest⟩
  all_goals
    cases between with
    | nil => rw [same, List.append_nil]
    | cons c between =>
        obtain ⟨-, rest⟩ := List.cons.inj rest
        simp [rest] at flat flat'

/-! ### Paths from a directory -/

/-- At a slash a path is cut in two. -/
theorem segmentsOf_slash {path before after : String}
    (h : path.toList = before.toList ++ '/' :: after.toList) :
    segmentsOf path = segmentsOf before ++ segmentsOf after := by
  rw [segmentsOf, h, Text.splitAt_append, List.filter_append, List.map_append]
  rfl

theorem isAbsolute_append {directory : String} (ne : directory ≠ "") (path : String) :
    isAbsolute (directory ++ path) = isAbsolute directory := by
  have nonempty : directory.toList ≠ [] := fun nil => ne (String.toList_inj.mp nil)
  rw [isAbsolute, isAbsolute, String.toList_append, List.head?_append_of_ne_nil _ nonempty]

/-- **A relative path goes on from its directory.** -/
theorem join_relative {directory path : String} (relative : isAbsolute path = false) :
    isAbsolute (join directory path) = isAbsolute directory ∧
      segmentsOf (join directory path) = segmentsOf directory ++ segmentsOf path := by
  rw [join, relative, Bool.false_or]
  by_cases here : directory = ""
  · subst here
    exact ⟨relative, rfl⟩
  · rw [if_neg (by simpa using here)]
    by_cases slash : directory.toList.getLast? = some '/'
    · -- the slash at the end of the directory is the one in between
      obtain ⟨cs, chars⟩ := List.getLast?_eq_some_iff.mp slash
      have ends : directory.toList = (String.ofList cs).toList ++ '/' :: "".toList := by
        simpa using chars
      have before : segmentsOf directory = segmentsOf (String.ofList cs) :=
        (segmentsOf_slash ends).trans (List.append_nil _)
      rw [if_pos (by simpa using slash), before]
      exact ⟨isAbsolute_append here path, segmentsOf_slash (by simp [chars])⟩
    · rw [if_neg (by simpa using slash), String.append_assoc]
      exact ⟨isAbsolute_append here _, segmentsOf_slash (by simp)⟩

/-! ### Suffixes -/

/-- What can be taken off the end of a name: a point and something after it. -/
def IsSuffix (suffix : String) : Prop :=
  ∃ cs, suffix.toList = '.' :: cs ∧ cs ≠ [] ∧ '.' ∉ cs ∧ '/' ∉ cs

theorem takeWhile_reverse {ds : List Char} (free : '.' ∉ ds) (rest : List Char) :
    (ds.reverse ++ rest).takeWhile (· != '.') = ds.reverse ++ rest.takeWhile (· != '.') :=
  List.takeWhile_append_of_pos fun _ hc =>
    bne_iff_ne.mpr fun point => free (point ▸ List.mem_reverse.mp hc)

/-- A name stays one when a suffix is added. -/
theorem IsName.append_suffix {suffix : String} (h : IsName name) (hs : IsSuffix suffix) :
    IsName (name ++ suffix) := by
  obtain ⟨cs, chars, ne, -, noSlash⟩ := hs
  have whole : (name ++ suffix).toList = name.toList ++ '.' :: cs := by
    rw [String.toList_append, chars]
  refine ⟨fun empty => ?_, fun point => ?_, ?_⟩
  · rw [empty] at whole
    simp at whole
  · rw [point] at whole
    have length := congrArg List.length whole
    have := List.length_pos_iff.mpr ne
    simp at length
    omega
  · rw [whole, List.mem_append, List.mem_cons, not_or, not_or]
    exact ⟨h.no_slash, by decide, noSlash⟩

/-- The last point of a name decides where its stem ends. -/
theorem stemLength_append {cs ds : List Char} (last : '.' ∉ ds) :
    stemLength (cs ++ '.' :: ds) =
      if cs = [] ∨ ds = [] then (cs ++ '.' :: ds).length else cs.length := by
  have tail : ((cs ++ '.' :: ds).reverse.takeWhile (· != '.')).length = ds.length := by
    rw [List.reverse_append, List.reverse_cons, List.append_assoc, takeWhile_reverse last]
    simp
  have length : (cs ++ '.' :: ds).length = cs.length + (ds.length + 1) := by simp
  have before : (cs ++ '.' :: ds).length - ds.length - 1 = cs.length := by omega
  have shorter : ds.length ≠ (cs ++ '.' :: ds).length := by omega
  rw [stemLength, tail, before]
  simp only [shorter, decide_false, Bool.false_or, Bool.or_eq_true, decide_eq_true_eq,
    List.length_eq_zero_iff]
  exact if_congr Or.comm rfl rfl

theorem stemLength_of_not_mem {cs : List Char} (none : '.' ∉ cs) : stemLength cs = cs.length := by
  have tail := takeWhile_reverse none []
  rw [List.append_nil] at tail
  simp [stemLength, tail]

/-- A suffix is taken off. -/
theorem stemOf_append {stem suffix : String} (ne : stem ≠ "") (h : IsSuffix suffix) :
    stemOf (stem ++ suffix) = stem := by
  obtain ⟨cs, chars, some, last, -⟩ := h
  have nonempty : stem.toList ≠ [] := fun nil => ne (String.toList_inj.mp nil)
  rw [stemOf, String.toList_append, chars, stemLength_append last,
    if_neg (not_or.mpr ⟨nonempty, some⟩), List.take_left, String.ofList_toList]

/-- Nothing is taken off a name, or one suffix. -/
theorem stemOf_cases (noSlash : '/' ∉ name.toList) :
    stemOf name = name ∨
      ∃ stem suffix, stem ≠ "" ∧ IsSuffix suffix ∧ name = stem ++ suffix := by
  by_cases point : '.' ∈ name.toList.reverse
  · obtain ⟨after, before, split, last⟩ := List.eq_append_cons_of_mem point
    have chars : name.toList = before.reverse ++ '.' :: after.reverse := by
      simpa using congrArg List.reverse split
    rw [List.mem_reverse.not.symm] at last
    -- a point with nothing before it or nothing behind it starts no suffix
    by_cases whole : before.reverse = [] ∨ after.reverse = []
    · left
      rw [stemOf, chars, stemLength_append last, if_pos whole, List.take_length, ← chars,
        String.ofList_toList]
    · rw [not_or] at whole
      rw [chars, List.mem_append, List.mem_cons, not_or, not_or] at noSlash
      refine .inr ⟨String.ofList before.reverse, String.ofList ('.' :: after.reverse), ?_,
        ⟨after.reverse, String.toList_ofList, whole.2, last, noSlash.2.2⟩, ?_⟩
      · exact fun empty => whole.1 (by simpa using congrArg String.toList empty)
      · rw [← String.ofList_append, ← chars, String.ofList_toList]
  · left
    rw [stemOf, stemLength_of_not_mem fun h => point (List.mem_reverse.mpr h), List.take_length,
      String.ofList_toList]

end Path

end Docsig
