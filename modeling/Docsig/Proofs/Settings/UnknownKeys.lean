import Docsig.Proofs.Result
import Docsig.Settings.File
import Docsig.Yaml.Resolve
import Mathlib.Data.List.Infix
import Mathlib.Data.List.Pairwise

/-!
Keys of a file that name no setting.

A file with such a key never gives settings, whatever it is read with (`ofFile_unknown`). Which
fault it gives depends on what the keys are: they are sorted before they are reported, so that the
report, which names all of them, is made exactly if any two of them can be compared
(`exists_sortKeys_iff`). A text and a number cannot, nor can null and anything else:
`ofFile_unsorted` is about such a file.
-/

namespace Docsig.Settings

open scoped List
open Yaml (Key)

variable {read : Yaml.Reader} {path text : String} {entries : List (Key × Option Value)}
  {keys sorted : List Key} {a b k : Key} {fault : Fault}

/-! ### Which keys are unknown -/

def NamesSetting (k : Key) : Prop := ∃ name ∈ names, k = .text name

theorem isKnown_iff : isKnown k = true ↔ NamesSetting k := by
  constructor
  · intro h
    cases k with
    | text s => exact ⟨s, List.contains_iff_mem.mp h, rfl⟩
    | _ => cases h
  · rintro ⟨name, known, rfl⟩
    exact List.contains_iff_mem.mpr known

/-- The keys that are listed are those of the file that name no setting. -/
theorem mem_unknownKeys :
    k ∈ unknownKeys entries ↔ k ∈ entries.map Prod.fst ∧ ¬ NamesSetting k := by
  rw [unknownKeys, List.mem_filter, ← isKnown_iff, Bool.not_eq_true', Bool.not_eq_true]

/-! ### Which keys can be sorted -/

/-- Two keys that can be compared: both are numbers, both texts, both bytes, both days, or
both moments with a distance from universal time or both without. -/
def Comparable (a b : Key) : Prop := a.sort?.isSome = true ∧ b.sort? = a.sort?

instance : DecidableRel Comparable := fun a b =>
  inferInstanceAs (Decidable (a.sort?.isSome = true ∧ b.sort? = a.sort?))

/-- Two keys or more can be compared pair by pair exactly if all are of one sort. -/
theorem pairwise_comparable_iff (several : keys ≠ []) :
    (k :: keys).Pairwise Comparable ↔ k.sort?.isSome = true ∧ ∀ l ∈ keys, l.sort? = k.sort? := by
  constructor
  · intro pairs
    have first := (List.pairwise_cons.mp pairs).1
    obtain ⟨l, hl⟩ := List.exists_mem_of_ne_nil keys several
    exact ⟨(first l hl).1, fun l hl => (first l hl).2⟩
  · rintro ⟨ordered, same⟩
    have all (l : Key) (hl : l ∈ k :: keys) : l.sort? = k.sort? := by
      rcases List.mem_cons.mp hl with rfl | hl
      · rfl
      · exact same l hl
    refine List.pairwise_of_forall_mem_list fun a ha b hb => ⟨?_, ?_⟩
    · rw [all a ha]
      exact ordered
    · rw [all a ha, all b hb]

/-- Sorting keeps the keys. -/
theorem sortKeys_perm (h : sortKeys keys = .ok sorted) : sorted ~ keys := by
  unfold sortKeys at h
  split at h
  · cases h
    exact .refl _
  · cases h
    exact .refl _
  · split at h
    · cases h
      exact List.mergeSort_perm _ _
    · cases h

theorem sortKeys_eq_error (h : sortKeys keys = .error fault) : fault = .unorderedKeys keys := by
  unfold sortKeys at h
  split at h
  · cases h
  · cases h
  · split at h
    · cases h
    · cases h
      rfl

/-- **Keys can be sorted exactly if any two of them can be compared.** -/
theorem exists_sortKeys_iff :
    (∃ sorted, sortKeys keys = .ok sorted) ↔ keys.Pairwise Comparable := by
  -- no two keys are there to be compared unless there are two
  match keys with
  | [] => exact iff_of_true ⟨[], rfl⟩ .nil
  | [k] => exact iff_of_true ⟨[k], rfl⟩ (List.pairwise_singleton _ k)
  | k :: l :: ks =>
      have oneSort : (k.sort?.isSome && (l :: ks).all fun m => m.sort? == k.sort?) = true ↔
          k.sort?.isSome = true ∧ ∀ m ∈ l :: ks, m.sort? = k.sort? := by
        simp only [Bool.and_eq_true, List.all_eq_true, beq_iff_eq]
      rw [pairwise_comparable_iff (List.cons_ne_nil l ks), sortKeys, ← oneSort]
      split
      · rename_i same
        exact iff_of_true ⟨_, rfl⟩ same
      · rename_i mixed
        exact iff_of_false (fun ⟨_, h⟩ => nomatch h) mixed
      · exact nofun

/-! ### What is said of unknown keys -/

/-- A text occurs in another. -/
def OccursIn (s t : String) : Prop := ∃ before after, t = before ++ s ++ after

theorem OccursIn.refl (s : String) : OccursIn s s := ⟨"", "", by simp⟩

theorem OccursIn.append {s t : String} (h : OccursIn s t) (u : String) : OccursIn s (t ++ u) := by
  obtain ⟨before, after, rfl⟩ := h
  exact ⟨before, after ++ u, by rw [← String.append_assoc]⟩

theorem OccursIn.prepend {s t : String} (h : OccursIn s t) (u : String) :
    OccursIn s (u ++ t) := by
  obtain ⟨before, after, rfl⟩ := h
  exact ⟨u ++ before, after, by simp only [String.append_assoc]⟩

/-- A part occurs in the parts joined. -/
theorem occursIn_joined {separator s : String} {parts : List String} (h : s ∈ parts) :
    OccursIn s (Value.joined separator parts) := by
  unfold Value.joined
  induction parts with
  | nil => cases h
  | cons part parts ih =>
      by_cases last : parts = []
      · subst last
        obtain rfl := List.mem_singleton.mp h
        rw [String.intercalate_singleton]
        exact .refl _
      · rw [String.intercalate_cons_of_ne_nil last]
        rcases List.mem_cons.mp h with rfl | later
        · exact ((OccursIn.refl _).append separator).append _
        · exact (ih later).prepend _

/-- A report of unknown keys names each of them. -/
theorem occursIn_message (h : k ∈ keys) :
    OccursIn k.display (Fault.unknownKeys keys path).message := by
  have listed : OccursIn k.display (Value.displaySeq .list (keys.map Key.display)) :=
    ((occursIn_joined (List.mem_map_of_mem h)).prepend _).append _
  exact ((listed.prepend _).append _).append _

/-! ### Files -/

/-- The fault of unknown keys: a report of them all if they can be sorted, else none. -/
inductive Refused (path : String) (unknown : List Key) : Fault → Prop
  | reported {keys : List Key} : unknown.Pairwise Comparable → keys ~ unknown →
      Refused path unknown (.unknownKeys keys path)
  | unordered : ¬ unknown.Pairwise Comparable → Refused path unknown (.unorderedKeys unknown)

/-- A refusal is a report if any two of the unknown keys can be compared. -/
theorem Refused.isReported_iff {unknown : List Key} (h : Refused path unknown fault) :
    fault.isReported = true ↔ unknown.Pairwise Comparable := by
  cases h with
  | reported pairs _ => exact iff_of_true rfl pairs
  | unordered mixed => exact iff_of_false Bool.false_ne_true mixed

/-- A report names every unknown key. -/
theorem Refused.occursIn {unknown : List Key} (h : Refused path unknown fault)
    (reported : fault.isReported = true) (member : k ∈ unknown) :
    OccursIn k.display fault.message := by
  cases h with
  | reported _ same => exact occursIn_message (same.mem_iff.mpr member)
  | unordered _ => cases reported

/-- Unknown keys are refused, with a report if they can be sorted. -/
theorem checkKeys_refused (unknown : unknownKeys entries ≠ []) :
    ∃ fault, checkKeys path entries = .error fault ∧ Refused path (unknownKeys entries) fault := by
  -- sorting succeeds if every two of the keys can be compared, whatever their number
  by_cases pairs : (unknownKeys entries).Pairwise Comparable
  · obtain ⟨sorted, found⟩ := exists_sortKeys_iff.mpr pairs
    have same := sortKeys_perm found
    have nonempty : sorted.isEmpty = false := by
      rw [List.isEmpty_eq_false_iff]
      rintro rfl
      exact unknown same.symm.eq_nil
    refine ⟨.unknownKeys sorted path, ?_, .reported pairs same⟩
    rw [checkKeys, found, ok_bind, nonempty]
    rfl
  · obtain ⟨fault, failed⟩ : ∃ fault, sortKeys (unknownKeys entries) = .error fault := by
      by_contra passes
      exact pairs (exists_sortKeys_iff.mp (exists_ok_iff.mpr passes))
    obtain rfl := sortKeys_eq_error failed
    refine ⟨_, ?_, .unordered pairs⟩
    rw [checkKeys, failed]
    rfl

theorem ofFile_refused (found : read text = .ok (.mapping entries))
    (unknown : unknownKeys entries ≠ []) :
    ∃ fault, ofFile read path (some text) = .error (.settings fault) ∧
      Refused path (unknownKeys entries) fault := by
  obtain ⟨fault, failed, refused⟩ := @checkKeys_refused path _ unknown
  have document : fileDocument read path (some text) = .ok (.mapping entries) := by
    rw [fileDocument, found]
  refine ⟨fault, ?_, refused⟩
  rw [ofFile, document, ok_bind]
  simp only [fileEntries, ok_bind, ofEntries, failed]
  rfl

/-- **A file with a key that names no setting.** However files are read and whatever else this
one holds, it never gives settings. If any two of its unknown keys can be compared, the fault is
one of settings and its message names them all. Otherwise it is none. -/
theorem ofFile_unknown (found : read text = .ok (.mapping entries))
    (unknown : ∃ k ∈ entries.map Prod.fst, ¬ NamesSetting k) :
    ∃ fault, ofFile read path (some text) = .error (.settings fault) ∧
      Refused path (unknownKeys entries) fault ∧
      (fault.isReported = true ↔ (unknownKeys entries).Pairwise Comparable) ∧
      (fault.isReported = true → ∀ k ∈ entries.map Prod.fst, ¬ NamesSetting k →
        OccursIn k.display fault.message) := by
  obtain ⟨k, member, unnamed⟩ := unknown
  have listed : k ∈ unknownKeys entries := mem_unknownKeys.mpr ⟨member, unnamed⟩
  obtain ⟨fault, failed, refused⟩ := @ofFile_refused _ path _ _ found (List.ne_nil_of_mem listed)
  refine ⟨fault, failed, refused, refused.isReported_iff, ?_⟩
  intro reported k member unnamed
  exact refused.occursIn reported (mem_unknownKeys.mpr ⟨member, unnamed⟩)

/-- The entries of a document that is a mapping. -/
def entriesOf? : Yaml.Document → Option (List (Key × Option Value))
  | .mapping entries => some entries
  | _ => none

theorem exists_entries {p : List (Key × Option Value) → Prop} [DecidablePred p]
    (h : ((Yaml.load text).toOption.bind entriesOf?).any (fun es => decide (p es)) = true) :
    ∃ entries, Yaml.load text = .ok (.mapping entries) ∧ p entries := by
  obtain ⟨entries, found, holds⟩ := (Option.any_eq_true _ _).mp h
  obtain ⟨document, loaded, here⟩ := Option.bind_eq_some_iff.mp found
  cases document with
  | mapping es =>
      obtain rfl : es = entries := Option.some.inj here
      exact ⟨es, mem_toOption.mp loaded, of_decide_eq_true holds⟩
  | _ => cases here

/-- A file with two unknown texts beside a setting. -/
def misspelt : String := "charge: 2\nindex_name: main\n'Print': [no, 0x10]\n"

theorem ofFile_unknown_misspelt : ∃ entries fault,
    Yaml.load misspelt = .ok (.mapping entries) ∧
    (∃ k ∈ entries.map Prod.fst, ¬ NamesSetting k) ∧
    ofFile Yaml.load "settings.yaml" (some misspelt) = .error (.settings fault) ∧
    fault.isReported = true ∧
    ∀ k ∈ entries.map Prod.fst, ¬ NamesSetting k → OccursIn k.display fault.message := by
  have facts : ((Yaml.load misspelt).toOption.bind entriesOf?).any (fun es => decide
      (unknownKeys es ≠ [] ∧ (unknownKeys es).Pairwise Comparable)) = true := by
    decide +kernel
  obtain ⟨entries, found, several, pairs⟩ := exists_entries facts
  obtain ⟨k, listed⟩ := List.exists_mem_of_ne_nil _ several
  have unknown : ∃ k ∈ entries.map Prod.fst, ¬ NamesSetting k := ⟨k, mem_unknownKeys.mp listed⟩
  obtain ⟨fault, failed, -, reports, named⟩ := @ofFile_unknown _ "settings.yaml" _ _ found unknown
  have reported := reports.mpr pairs
  exact ⟨entries, fault, found, unknown, failed, reported, named reported⟩

/-- A file with two unknown keys, a number and a text. -/
def mixed : String := "1: a\nb: c\n"

/-- A number and a text cannot be sorted, and the fault is none of settings. -/
theorem ofFile_unsorted : ∃ entries fault, Yaml.load mixed = .ok (.mapping entries) ∧
    (∃ k ∈ entries.map Prod.fst, ¬ NamesSetting k) ∧
    ofFile Yaml.load "settings.yaml" (some mixed) = .error (.settings fault) ∧
    fault.isReported = false := by
  have facts : ((Yaml.load mixed).toOption.bind entriesOf?).any (fun es => decide
      (unknownKeys es ≠ [] ∧ ¬ (unknownKeys es).Pairwise Comparable)) = true := by
    decide +kernel
  obtain ⟨entries, found, several, unordered⟩ := exists_entries facts
  obtain ⟨k, listed⟩ := List.exists_mem_of_ne_nil _ several
  obtain ⟨fault, failed, refused⟩ := @ofFile_refused _ "settings.yaml" _ _ found several
  refine ⟨entries, fault, found, ⟨k, mem_unknownKeys.mp listed⟩, failed, ?_⟩
  rw [← Bool.not_eq_true, refused.isReported_iff]
  exact unordered

end Docsig.Settings
