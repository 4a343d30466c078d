import Docsig.Value.Equality
import Mathlib.Data.List.Basic

/-!
Values as trees.

`Value.inside` lists what stands directly in a value, keys included, and
`Value.parts` the value itself and all that stands in it at any depth, so that a
demand on every part is a demand on the members of a list.

* `nested_induction` is induction over what stands in a value.
* `same_self` is the one law of equality that look-up needs: a value without "not a
  number" equals itself, so a key finds its own entry.
* `HasFiniteNumbers`, `HasDistinctKeys` and `IsJson` are demands on every part.
-/

namespace Docsig.Value

/-! ### What stands in a value -/

/-- What stands directly in a value: items, keys and the values under keys. -/
def inside : Value → List Value
  | seq _ xs => xs
  | map _ es => es.flatMap fun e => [e.1, e.2]
  | _ => []

mutual

def parts : Value → List Value
  | seq kind xs => seq kind xs :: partsOfItems xs
  | map kind es => map kind es :: partsOfEntries es
  | v => [v]

def partsOfItems : List Value → List Value
  | [] => []
  | x :: xs => x.parts ++ partsOfItems xs

def partsOfEntries : List (Value × Value) → List Value
  | [] => []
  | (key, x) :: es => key.parts ++ (x.parts ++ partsOfEntries es)

end

variable {u v w key x : Value} {es : List (Value × Value)}

theorem partsOfItems_eq (xs : List Value) : partsOfItems xs = xs.flatMap parts := by
  induction xs with
  | nil => rfl
  | cons x xs ih => rw [partsOfItems, ih, List.flatMap_cons]

theorem partsOfEntries_eq (es : List (Value × Value)) :
    partsOfEntries es = (es.flatMap fun e => [e.1, e.2]).flatMap parts := by
  induction es with
  | nil => rfl
  | cons e es ih =>
      obtain ⟨key, x⟩ := e
      simp only [partsOfEntries, ih, List.flatMap_cons, List.cons_append, List.nil_append]

theorem parts_eq (v : Value) : v.parts = v :: v.inside.flatMap parts := by
  cases v with
  | seq kind xs => rw [parts, partsOfItems_eq, inside]
  | map kind es => rw [parts, partsOfEntries_eq, inside]
  | _ => rfl

/-- A part of a value is the value itself or a part of what stands in it. -/
theorem mem_parts : w ∈ v.parts ↔ w = v ∨ ∃ u ∈ v.inside, w ∈ u.parts := by
  rw [parts_eq, List.mem_cons, List.mem_flatMap]

theorem self_mem_parts (v : Value) : v ∈ v.parts := mem_parts.mpr (.inl rfl)

theorem parts_of_inside (hu : u ∈ v.inside) (hw : w ∈ u.parts) : w ∈ v.parts :=
  mem_parts.mpr (.inr ⟨u, hu, hw⟩)

theorem key_mem_inside {kind : MapKind} (h : (key, x) ∈ es) : key ∈ (map kind es).inside :=
  List.mem_flatMap.mpr ⟨(key, x), h, by simp⟩

theorem value_mem_inside {kind : MapKind} (h : (key, x) ∈ es) : x ∈ (map kind es).inside :=
  List.mem_flatMap.mpr ⟨(key, x), h, by simp⟩

/-- A property that goes up from what stands in a value holds of all values. -/
theorem nested_induction {motive : Value → Prop}
    (step : ∀ v, (∀ u ∈ v.inside, motive u) → motive v) (v : Value) : motive v :=
  step v fun u _ => nested_induction step u
termination_by sizeOf v
decreasing_by
  rename_i hu
  cases v with
  | seq kind xs =>
      have : sizeOf u < sizeOf xs := List.sizeOf_lt_of_mem hu
      simp only [seq.sizeOf_spec]
      omega
  | map kind es =>
      obtain ⟨⟨key, x⟩, he, hu⟩ := List.mem_flatMap.mp hu
      have := List.sizeOf_lt_of_mem he
      simp only [Prod.mk.sizeOf_spec] at this
      simp only [map.sizeOf_spec]
      simp only [List.mem_cons, List.not_mem_nil, or_false] at hu
      rcases hu with rfl | rfl
      · omega
      · omega
  | _ => cases hu

/-- The parts of a part are parts. -/
theorem parts_trans (hu : u ∈ v.parts) (hw : w ∈ u.parts) : w ∈ v.parts := by
  induction v using nested_induction with
  | step v ih =>
      rcases mem_parts.mp hu with rfl | ⟨t, ht, hu⟩
      · exact hw
      · exact parts_of_inside ht (ih t ht hu)

/-! ### Depth -/

theorem depth_pos (v : Value) : 0 < v.depth := by
  cases v <;> simp [depth]

theorem depthOfAll_le {xs : List Value} {bound : Nat} :
    depthOfAll xs ≤ bound ↔ ∀ x ∈ xs, x.depth ≤ bound := by
  induction xs with
  | nil => simp [depthOfAll]
  | cons x xs ih => rw [depthOfAll, Nat.max_le, ih, List.forall_mem_cons]

theorem depthOfEntries_le {bound : Nat} :
    depthOfEntries es ≤ bound ↔ ∀ e ∈ es, e.2.depth ≤ bound := by
  induction es with
  | nil => simp [depthOfEntries]
  | cons e es ih => rw [depthOfEntries, Nat.max_le, ih, List.forall_mem_cons]

/-! ### Equality and look-up -/

theorem same_text_iff {s : String} : same v (text s) = true ↔ v = text s := by
  cases v <;> simp [same, sameScalar]

theorem text_same_iff {s : String} : same (text s) v = true ↔ v = text s := by
  cases v with
  | text t => simpa [same, sameScalar] using eq_comm
  | _ => simp [same, sameScalar]

theorem sameItems_self {xs : List Value} (h : ∀ x ∈ xs, same x x = true) :
    sameItems xs xs = true := by
  induction xs with
  | nil => rfl
  | cons x xs ih =>
      rw [sameItems, h x (by simp), ih fun y hy => h y (by simp [hy])]
      rfl

theorem sameEntries_of_mem {fs : List (Value × Value)}
    (h : ∀ e ∈ es, e ∈ fs ∧ same e.1 e.1 = true ∧ same e.2 e.2 = true) :
    sameEntries es fs = true := by
  induction es with
  | nil => rfl
  | cons e es ih =>
      obtain ⟨he, hkey, hvalue⟩ := h e (by simp)
      obtain ⟨key, x⟩ := e
      rw [sameEntries, ih fun f hf => h f (by simp [hf]), Bool.and_true]
      exact List.any_eq_true.mpr ⟨(key, x), he, by rw [hkey, hvalue]; rfl⟩

/-- A value without "not a number" equals itself. -/
theorem same_self (h : float .nan ∉ v.parts) : same v v = true := by
  induction v using nested_induction with
  | step v ih =>
      have below : ∀ u ∈ v.inside, same u u = true := fun u hu =>
        ih u hu fun mem => h (parts_of_inside hu mem)
      cases v with
      | seq kind xs =>
          have items : sameItems xs xs = true := sameItems_self below
          rw [same, items]
          simp
      | map kind es =>
          have entries : sameEntries es es = true := sameEntries_of_mem fun e he =>
            ⟨he, below _ (key_mem_inside he), below _ (value_mem_inside he)⟩
          rw [same, entries]
          simp
      | float d =>
          cases d with
          | nan => exact absurd (self_mem_parts _) h
          | infinite s => simp [same, sameScalar, Double.same]
          | finite s m e => simp [same, sameScalar, Double.same]
      | _ => simp [same, sameScalar]

/-- What look-up finds is the value of an entry with an equal key. -/
theorem mem_of_lookup? (h : lookup? key es = some x) :
    ∃ k, (k, x) ∈ es ∧ same k key = true := by
  induction es with
  | nil => cases h
  | cons e es ih =>
      obtain ⟨k, y⟩ := e
      rw [lookup?] at h
      split at h
      · rename_i found
        cases h
        exact ⟨k, by simp, found⟩
      · obtain ⟨k', hk', found⟩ := ih h
        exact ⟨k', by simp [hk'], found⟩

/-- A key that an entry has is found. -/
theorem hasKey_of_mem {k : Value} (h : (k, x) ∈ es) (eq : same k key = true) :
    hasKey key es = true := by
  induction es with
  | nil => cases h
  | cons e es ih =>
      obtain ⟨k', y⟩ := e
      rw [hasKey, lookup?]
      split
      · rfl
      · rename_i other
        refine ih ((List.mem_cons.mp h).resolve_left ?_)
        rintro ⟨⟩
        exact other eq

section Inserting

variable {P Q : Value → Prop}

theorem insert_forall (hkey : P key) (hx : Q x) (hes : ∀ e ∈ es, P e.1 ∧ Q e.2) :
    ∀ e ∈ insert key x es, P e.1 ∧ Q e.2 := by
  induction es with
  | nil => simpa [insert] using ⟨hkey, hx⟩
  | cons f es ih =>
      obtain ⟨first, others⟩ := List.forall_mem_cons.mp hes
      rw [insert]
      split
      · exact List.forall_mem_cons.mpr ⟨⟨first.1, hx⟩, others⟩
      · exact List.forall_mem_cons.mpr ⟨first, ih others⟩

/-- What holds of all keys and of all values of some entries holds of them after they are
inserted one after the other. -/
theorem ofEntries_forall (h : ∀ e ∈ es, P e.1 ∧ Q e.2) : ∀ e ∈ ofEntries es, P e.1 ∧ Q e.2 :=
  List.foldlRecOn es (fun es e => insert e.1 e.2 es)
    (motive := fun es => ∀ e ∈ es, P e.1 ∧ Q e.2) (by simp)
    fun _ keeps e he => insert_forall (h e he).1 (h e he).2 keeps

end Inserting

/-- Entries of which no two have equal keys. -/
def DistinctKeys (es : List (Value × Value)) : Prop :=
  es.Pairwise fun e f => same e.1 f.1 = false

/-- Where keys differ, look-up of a key finds the value of its own entry. -/
theorem lookup?_of_mem (keys : DistinctKeys es) (self : same key key = true)
    (h : (key, x) ∈ es) : lookup? key es = some x := by
  induction es with
  | nil => cases h
  | cons e es ih =>
      obtain ⟨differ, keys⟩ := List.pairwise_cons.mp keys
      rcases List.mem_cons.mp h with rfl | h
      · rw [lookup?, if_pos self]
      · rw [lookup?, differ (key, x) h, if_neg Bool.false_ne_true]
        exact ih keys h

/-! ### Demands on every part -/

/-- No number in a value is an infinity or "not a number". -/
def HasFiniteNumbers (v : Value) : Prop := ∀ d, float d ∈ v.parts → d.isFinite = true

/-- An infinity or "not a number". -/
def IsNonFinite (v : Value) : Prop := ∃ d, v = float d ∧ d.isFinite = false

/-- No map in a value has two equal keys. -/
def HasDistinctKeys (v : Value) : Prop :=
  ∀ kind es, map kind es ∈ v.parts → DistinctKeys es

theorem HasFiniteNumbers.inside (h : HasFiniteNumbers v) (hu : u ∈ v.inside) :
    HasFiniteNumbers u :=
  fun d hd => h d (parts_of_inside hu hd)

theorem HasDistinctKeys.inside (h : HasDistinctKeys v) (hu : u ∈ v.inside) :
    HasDistinctKeys u :=
  fun kind es hes => h kind es (parts_of_inside hu hes)

theorem HasFiniteNumbers.same_self (h : HasFiniteNumbers v) : same v v = true :=
  Value.same_self fun nan => Bool.false_ne_true (h .nan nan)

/-- Whether a part may stand in a value that JSON text decodes to: numbers are finite,
sequences are lists, and maps are dictionaries with text keys. -/
def isJsonPart : Value → Bool
  | float d => d.isFinite
  | bytes _ _ => false
  | seq kind _ => kind == .list
  | map kind es => kind == .dict && es.all fun e => e.1.text?.isSome
  | _ => true

/-- A value that JSON text decodes to. -/
def IsJson (v : Value) : Prop := ∀ w ∈ v.parts, w.isJsonPart = true

instance (v : Value) : Decidable (IsJson v) := inferInstanceAs (Decidable (∀ w ∈ v.parts, _))

theorem IsJson.inside (h : IsJson v) (hu : u ∈ v.inside) : IsJson u :=
  fun w hw => h w (parts_of_inside hu hw)

/-- A sequence of JSON text is a list of its values. -/
theorem IsJson.items {kind : SeqKind} {xs : List Value} (h : IsJson (seq kind xs)) :
    kind = .list ∧ ∀ x ∈ xs, IsJson x :=
  ⟨beq_iff_eq.mp (h _ (self_mem_parts _)), fun _ hx => h.inside hx⟩

/-- A map of JSON text is a dictionary of its values. -/
theorem IsJson.entries {kind : MapKind} (h : IsJson (map kind es)) :
    kind = .dict ∧ ∀ e ∈ es, IsJson e.2 := by
  have node : (kind == .dict && es.all fun e => e.1.text?.isSome) = true :=
    h _ (self_mem_parts _)
  exact ⟨beq_iff_eq.mp (Bool.and_eq_true_iff.mp node).1,
    fun _ he => h.inside (value_mem_inside he)⟩

/-- What stands in a field of a map of JSON text is a value of JSON text. -/
theorem IsJson.lookup? {kind : MapKind} (h : IsJson (map kind es))
    (found : lookup? key es = some x) : IsJson x :=
  have ⟨_, mem, _⟩ := mem_of_lookup? found
  h.entries.2 _ mem

end Docsig.Value
