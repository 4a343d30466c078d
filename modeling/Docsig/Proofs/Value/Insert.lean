import Docsig.Value.Equality
import Mathlib.Data.List.Induction
import Mathlib.Data.List.Nodup

/-!
Maps that are written with repeated keys.

`lastGiven` is what is left of some keys and values without inserting them one by one: each key
once, where it is first written, with the value that it is last given. Inserting the entries in
order leaves the same (`ofEntries_texts`).
-/

namespace Docsig

variable {keys : List String} {key : String} {v : Value} {f : String → Value}

/-! ### Keys -/

theorem eraseDups_concat (keys : List String) (key : String) :
    (keys ++ [key]).eraseDups = if key ∈ keys then keys.eraseDups else keys.eraseDups ++ [key] := by
  rw [List.eraseDups_append]
  by_cases old : key ∈ keys
  · simp [old, List.removeAll]
  · simp [old, List.removeAll, List.eraseDups_cons]

theorem nodup_eraseDups (keys : List String) : keys.eraseDups.Nodup := by
  induction keys using List.reverseRecOn with
  | nil => exact List.nodup_nil
  | append_singleton keys key ih =>
      rw [eraseDups_concat]
      split
      · exact ih
      · rename_i new
        refine List.nodup_append.mpr ⟨ih, List.nodup_singleton key, ?_⟩
        rintro a ha _ hb rfl
        rw [List.mem_singleton.mp hb, List.mem_eraseDups] at ha
        exact new ha

/-- A key that is given a value keeps its place if it has one. -/
theorem insert_texts (nodup : keys.Nodup) :
    Value.insert (.text key) v (keys.map fun k => (.text k, f k)) =
      (if key ∈ keys then keys else keys ++ [key]).map fun k =>
        (.text k, if k = key then v else f k) := by
  induction keys with
  | nil => simp [Value.insert]
  | cons k keys ih =>
      obtain ⟨fresh, nodup⟩ := List.nodup_cons.mp nodup
      rw [List.map_cons, Value.insert, ih nodup]
      by_cases own : k = key
      · subst own
        have others : keys.map (fun j => ((Value.text j, f j) : Value × Value)) =
            keys.map fun j => (.text j, if j = k then v else f j) :=
          List.map_congr_left fun j hj => by rw [if_neg (ne_of_mem_of_not_mem hj fresh)]
        simp [Value.same, Value.sameScalar, others]
      · by_cases old : key ∈ keys <;>
          simp [Value.same, Value.sameScalar, own, old, Ne.symm own]

/-! ### Last values -/

/-- The entries that a map is left with when it is written with some keys and values: a key
stands where it is first written, with the value that it is last given. -/
def lastGiven (es : List (String × Value)) : List (String × Value) :=
  (es.map Prod.fst).eraseDups.map fun key => (key, (es.reverse.lookup key).getD .null)

theorem lastGiven_concat (es : List (String × Value)) :
    lastGiven (es ++ [(key, v)]) =
      (if key ∈ es.map Prod.fst then (es.map Prod.fst).eraseDups
        else (es.map Prod.fst).eraseDups ++ [key]).map fun k =>
          (k, if k = key then v else (es.reverse.lookup k).getD .null) := by
  rw [lastGiven, List.map_append, List.map_singleton, eraseDups_concat]
  refine List.map_congr_left fun k _ => ?_
  rw [List.reverse_append, List.reverse_singleton, List.singleton_append, List.lookup_cons]
  by_cases own : k = key
  · subst own
    simp
  · rw [beq_eq_false_iff_ne.mpr own, if_neg own]

theorem lookup_map (key : String) (es : List (String × Value)) (f : Value → Value) :
    (es.map fun e => (e.1, f e.2)).lookup key = (es.lookup key).map f := by
  induction es with
  | nil => rfl
  | cons e es ih =>
      rw [List.map_cons, List.lookup_cons, List.lookup_cons, ih]
      cases key == e.1 <;> rfl

theorem lastGiven_map {f : Value → Value} (null : f .null = .null) (es : List (String × Value)) :
    lastGiven (es.map fun e => (e.1, f e.2)) = (lastGiven es).map fun e => (e.1, f e.2) := by
  rw [lastGiven, lastGiven, List.map_map, List.map_map]
  refine List.map_congr_left fun key _ => ?_
  rw [← List.map_reverse, lookup_map, Function.comp_apply]
  cases es.reverse.lookup key with
  | none => exact congrArg (Prod.mk key) null.symm
  | some v => rfl

/-- **A key that is repeated keeps its first place and takes its last value.** -/
theorem ofEntries_texts (es : List (String × Value)) :
    Value.ofEntries (es.map fun e => (.text e.1, e.2)) =
      (lastGiven es).map fun e => (.text e.1, e.2) := by
  induction es using List.reverseRecOn with
  | nil => rfl
  | append_singleton es e ih =>
      obtain ⟨key, v⟩ := e
      have step : Value.ofEntries ((es ++ [(key, v)]).map fun e => (.text e.1, e.2)) =
          Value.insert (.text key) v (Value.ofEntries (es.map fun e => (.text e.1, e.2))) := by
        rw [List.map_append, Value.ofEntries, List.foldl_append]
        rfl
      rw [step, ih, lastGiven_concat, lastGiven, List.map_map, List.map_map]
      refine (insert_texts (nodup_eraseDups _)).trans ?_
      simp only [List.mem_eraseDups]
      rfl

example : Value.ofEntries [(.text "a", .int 1), (.text "b", .int 2), (.text "a", .int 3)] =
    [(.text "a", .int 3), (.text "b", .int 2)] := by rfl

end Docsig
