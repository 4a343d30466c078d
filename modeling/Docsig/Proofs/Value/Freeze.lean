import Docsig.Proofs.Value.Parts
import Docsig.Value.Freeze

/-!
Frozen and open forms of a value.

Either form forgets the kinds of sequences and maps and nothing else, so that one is
determined by the other: `freeze_thaw` and `thaw_freeze`. A value is stored frozen and
exported open.

* `Recasts` is what both have in common, and `Recasts.absorb` that the last of two decides.
* `IsOpen` and `IsFrozen` are the values that are in one form already.
* `IsOpen.list` and `IsOpen.dict` build open values from open parts.
* `lookup?_freezeEntries`: freezing leaves keys alone, so look-up finds the frozen form
  of what it found before.
-/

namespace Docsig.Value

variable {v w key : Value} {xs : List Value} {es : List (Value × Value)}

theorem freezeAll_eq (xs : List Value) : freezeAll xs = xs.map freeze := by
  induction xs with
  | nil => rfl
  | cons x xs ih => rw [freezeAll, ih, List.map_cons]

theorem freezeEntries_eq (es : List (Value × Value)) :
    freezeEntries es = es.map fun e => (e.1, e.2.freeze) := by
  induction es with
  | nil => rfl
  | cons e es ih => rw [freezeEntries, ih, List.map_cons]

theorem thawAll_eq (xs : List Value) : thawAll xs = xs.map thaw := by
  induction xs with
  | nil => rfl
  | cons x xs ih => rw [thawAll, ih, List.map_cons]

theorem thawEntries_eq (es : List (Value × Value)) :
    thawEntries es = es.map fun e => (e.1, e.2.thaw) := by
  induction es with
  | nil => rfl
  | cons e es ih => rw [thawEntries, ih, List.map_cons]

/-! ### One form determines the other -/

/-- Functions that agree on what stands in a map agree on the values of its entries. -/
theorem entries_congr {kind : MapKind} {f g : Value → Value}
    (h : ∀ u ∈ (map kind es).inside, f u = g u) :
    (es.map fun e => (e.1, f e.2)) = es.map fun e => (e.1, g e.2) :=
  List.map_congr_left fun e he => by rw [h e.2 (value_mem_inside he)]

/-- `Recasts f s m`: the function gives all sequences in a value the kind `s` and all maps the
kind `m`, below keys aside, and changes nothing else. -/
structure Recasts (f : Value → Value) (s : SeqKind) (m : MapKind) : Prop where
  seq : ∀ kind xs, f (.seq kind xs) = .seq s (xs.map f)
  map : ∀ kind es, f (.map kind es) = .map m (es.map fun e => (e.1, f e.2))
  scalar : ∀ v, v.items? = none → v.entries? = none → f v = v

theorem freeze_recasts : Recasts freeze .tuple .frozen where
  seq kind xs := by rw [freeze, freezeAll_eq]
  map kind es := by rw [freeze, freezeEntries_eq]
  scalar v noItems noEntries := by
    cases v with
    | seq kind xs => cases noItems
    | map kind es => cases noEntries
    | _ => rfl

theorem thaw_recasts : Recasts thaw .list .dict where
  seq kind xs := by rw [thaw, thawAll_eq]
  map kind es := by rw [thaw, thawEntries_eq]
  scalar v noItems noEntries := by
    cases v with
    | seq kind xs => cases noItems
    | map kind es => cases noEntries
    | _ => rfl

/-- The kinds that a value is given last are the ones that it has. -/
theorem Recasts.absorb {f g : Value → Value} {s t : SeqKind} {m n : MapKind}
    (hf : Recasts f s m) (hg : Recasts g t n) (v : Value) : f (g v) = f v := by
  induction v using nested_induction with
  | step v ih =>
      cases v with
      | seq kind xs =>
          rw [hg.seq, hf.seq, hf.seq, List.map_map]
          exact congrArg _ (List.map_congr_left ih)
      | map kind es =>
          rw [hg.map, hf.map, hf.map, List.map_map]
          exact congrArg _ (entries_congr ih)
      | _ => rw [hg.scalar _ rfl rfl]

theorem freeze_freeze (v : Value) : v.freeze.freeze = v.freeze :=
  freeze_recasts.absorb freeze_recasts v

theorem thaw_thaw (v : Value) : v.thaw.thaw = v.thaw :=
  thaw_recasts.absorb thaw_recasts v

theorem freeze_thaw (v : Value) : v.thaw.freeze = v.freeze :=
  freeze_recasts.absorb thaw_recasts v

theorem thaw_freeze (v : Value) : v.freeze.thaw = v.thaw :=
  thaw_recasts.absorb freeze_recasts v

/-! ### Values in one form -/

/-- A value whose sequences are all lists and whose maps are all open, below keys
aside. -/
def IsOpen (v : Value) : Prop := v.thaw = v

/-- A value whose sequences are all tuples and whose maps are all frozen, below keys
aside. -/
def IsFrozen (v : Value) : Prop := v.freeze = v

/-- Frozen values with one open form are one value. -/
theorem IsFrozen.eq_of_thaw (hv : v.IsFrozen) (hw : w.IsFrozen) (h : v.thaw = w.thaw) : v = w :=
  calc
    v = v.thaw.freeze := by rw [freeze_thaw, hv]
    _ = w.thaw.freeze := by rw [h]
    _ = w := by rw [freeze_thaw, hw]

/-- An open value is the open form of its frozen form. -/
theorem IsOpen.thaw_freeze (h : v.IsOpen) : v.freeze.thaw = v := by
  rw [Value.thaw_freeze, h]

theorem IsOpen.list (h : ∀ x ∈ xs, x.IsOpen) : (list xs).IsOpen := by
  rw [IsOpen, thaw, thawAll_eq, List.map_congr_left h, List.map_id']

theorem IsOpen.dict (h : ∀ e ∈ es, e.2.IsOpen) : (dict es).IsOpen := by
  have entries : (es.map fun e => (e.1, e.2.thaw)) = es.map id :=
    List.map_congr_left fun e he => by rw [h e he]; rfl
  rw [IsOpen, thaw, thawEntries_eq, entries, List.map_id]

theorem IsOpen.record {fields : List (String × Value)} (h : ∀ f ∈ fields, f.2.IsOpen) :
    (record fields).IsOpen :=
  IsOpen.dict fun e he => by
    obtain ⟨f, hf, rfl⟩ := List.mem_map.mp he
    exact h f hf

/-- Inserting open values one after the other gives open entries. -/
theorem ofEntries_isOpen (h : ∀ e ∈ es, e.2.IsOpen) : ∀ e ∈ ofEntries es, e.2.IsOpen :=
  fun e he => (ofEntries_forall (P := fun _ => True) (fun e he => ⟨trivial, h e he⟩) e he).2

/-! ### Look-up -/

theorem lookup?_freezeEntries :
    lookup? key (freezeEntries es) = (lookup? key es).map freeze := by
  induction es with
  | nil => rfl
  | cons e es ih =>
      rw [freezeEntries, lookup?, lookup?, ih]
      split <;> rfl

end Docsig.Value
