import Docsig.Proofs.Code.Literal

/-!
The containers in a value.

`Value.containers` lists the sequences and maps in a value, so that a demand on their kinds
is a demand on the members of a list. What stands in a key is left out: freezing and thawing
leave keys alone.

* `isFrozen_iff`, `isOpen_iff`: which values are in one form, said by the kinds of their
  containers. Both are cases of `Recasts.eq_self_iff`.
* `Recasts.same_left`: a value whose sequences keep their kinds equals what it equalled before,
  since equality does not see the kinds of maps.
* `forms_inverse`: freezing and thawing undo each other up to the kinds of containers.
-/

namespace Docsig.Value

/-! ### Containers -/

mutual

/-- The sequences and maps in a value at any depth, the value itself among them. -/
def containers : Value → List Value
  | seq kind xs => seq kind xs :: containersOfItems xs
  | map kind es => map kind es :: containersOfEntries es
  | _ => []

def containersOfItems : List Value → List Value
  | [] => []
  | x :: xs => x.containers ++ containersOfItems xs

def containersOfEntries : List (Value × Value) → List Value
  | [] => []
  | (_, x) :: es => x.containers ++ containersOfEntries es

end

variable {f : Value → Value} {s : SeqKind} {m : MapKind} {v w x : Value} {xs : List Value}
  {es : List (Value × Value)}

theorem containersOfItems_eq (xs : List Value) : containersOfItems xs = xs.flatMap containers := by
  induction xs with
  | nil => rfl
  | cons x xs ih => rw [containersOfItems, ih, List.flatMap_cons]

theorem containersOfEntries_eq (es : List (Value × Value)) :
    containersOfEntries es = es.flatMap fun e => e.2.containers := by
  induction es with
  | nil => rfl
  | cons e es ih => rw [containersOfEntries, ih, List.flatMap_cons]

theorem mem_containers_seq {kind : SeqKind} :
    w ∈ (seq kind xs).containers ↔ w = seq kind xs ∨ ∃ x ∈ xs, w ∈ x.containers := by
  rw [containers, containersOfItems_eq, List.mem_cons, List.mem_flatMap]

theorem mem_containers_map {kind : MapKind} :
    w ∈ (map kind es).containers ↔ w = map kind es ∨ ∃ e ∈ es, w ∈ e.2.containers := by
  rw [containers, containersOfEntries_eq, List.mem_cons, List.mem_flatMap]

/-! ### Kinds -/

/-- Whether a sequence has the kind `s` and a map the kind `m`. -/
def hasKind (s : SeqKind) (m : MapKind) : Value → Bool
  | seq kind _ => kind == s
  | map kind _ => kind == m
  | _ => true

/-- All sequences in a value have the kind `s` and all maps the kind `m`. -/
def OfKinds (s : SeqKind) (m : MapKind) (v : Value) : Prop :=
  ∀ w ∈ v.containers, w.hasKind s m = true

theorem ofKinds_seq {kind : SeqKind} :
    (seq kind xs).OfKinds s m ↔ kind = s ∧ ∀ x ∈ xs, x.OfKinds s m := by
  constructor
  · intro h
    refine ⟨beq_iff_eq.mp (h _ (mem_containers_seq.mpr (.inl rfl))), fun x hx w hw => ?_⟩
    exact h w (mem_containers_seq.mpr (.inr ⟨x, hx, hw⟩))
  · rintro ⟨rfl, items⟩ w hw
    rcases mem_containers_seq.mp hw with rfl | ⟨x, hx, hw⟩
    · exact beq_self_eq_true kind
    · exact items x hx w hw

theorem ofKinds_map {kind : MapKind} :
    (map kind es).OfKinds s m ↔ kind = m ∧ ∀ e ∈ es, e.2.OfKinds s m := by
  constructor
  · intro h
    refine ⟨beq_iff_eq.mp (h _ (mem_containers_map.mpr (.inl rfl))), fun e he w hw => ?_⟩
    exact h w (mem_containers_map.mpr (.inr ⟨e, he, hw⟩))
  · rintro ⟨rfl, values⟩ w hw
    rcases mem_containers_map.mp hw with rfl | ⟨e, he, hw⟩
    · exact beq_self_eq_true kind
    · exact values e he w hw

/-- A list stays as it is exactly if its members do. -/
theorem map_eq_self_iff {α : Type} {g : α → α} {l : List α} :
    l.map g = l ↔ ∀ a ∈ l, g a = a :=
  calc
    l.map g = l ↔ l.map g = l.map id := by rw [List.map_id]
    _ ↔ ∀ a ∈ l, g a = id a := List.map_inj_left

/-- A function that gives containers their kinds leaves exactly those values as they are whose
containers have these kinds. -/
theorem Recasts.eq_self_iff (hf : Recasts f s m) : f v = v ↔ v.OfKinds s m := by
  induction v using nested_induction with
  | step v ih =>
      cases v with
      | seq kind xs =>
          have items : xs.map f = xs ↔ ∀ x ∈ xs, x.OfKinds s m :=
            map_eq_self_iff.trans (forall₂_congr ih)
          rw [hf.seq, seq.injEq, items, ofKinds_seq, eq_comm]
      | map kind es =>
          have value (e : Value × Value) (he : e ∈ es) :
              (e.1, f e.2) = e ↔ e.2.OfKinds s m := by
            rw [Prod.ext_iff, and_iff_right rfl, ih e.2 (value_mem_inside he)]
          rw [hf.map, map.injEq, map_eq_self_iff, forall₂_congr value, ofKinds_map, eq_comm]
      | _ =>
          rw [hf.scalar _ rfl rfl]
          exact iff_of_true rfl nofun

/-- The frozen values are those without lists and open maps. -/
theorem isFrozen_iff :
    v.IsFrozen ↔ (∀ xs, list xs ∉ v.containers) ∧ ∀ es, dict es ∉ v.containers := by
  rw [IsFrozen, freeze_recasts.eq_self_iff]
  constructor
  · intro kinds
    exact ⟨fun xs h => Bool.false_ne_true (kinds _ h), fun es h => Bool.false_ne_true (kinds _ h)⟩
  · rintro ⟨noList, noDict⟩ w hw
    cases w with
    | seq kind xs =>
        cases kind with
        | list => exact absurd hw (noList xs)
        | tuple => rfl
    | map kind es =>
        cases kind with
        | dict => exact absurd hw (noDict es)
        | frozen => rfl
    | _ => rfl

/-- The open values are those without tuples and frozen maps. -/
theorem isOpen_iff :
    v.IsOpen ↔ (∀ xs, tuple xs ∉ v.containers) ∧ ∀ es, map .frozen es ∉ v.containers := by
  rw [IsOpen, thaw_recasts.eq_self_iff]
  constructor
  · intro kinds
    exact ⟨fun xs h => Bool.false_ne_true (kinds _ h), fun es h => Bool.false_ne_true (kinds _ h)⟩
  · rintro ⟨noTuple, noView⟩ w hw
    cases w with
    | seq kind xs =>
        cases kind with
        | list => rfl
        | tuple => exact absurd hw (noTuple xs)
    | map kind es =>
        cases kind with
        | dict => rfl
        | frozen => exact absurd hw (noView es)
    | _ => rfl

/-! ### Equality -/

theorem sameItems_map (h : ∀ x ∈ xs, ∀ y, same (f x) y = same x y) (ys : List Value) :
    sameItems (xs.map f) ys = sameItems xs ys := by
  induction xs generalizing ys with
  | nil => rfl
  | cons x xs ih =>
      obtain ⟨first, others⟩ := List.forall_mem_cons.mp h
      cases ys with
      | nil => rfl
      | cons y ys => rw [List.map_cons, sameItems, sameItems, first, ih others]

theorem sameEntries_map (h : ∀ e ∈ es, ∀ y, same (f e.2) y = same e.2 y)
    (fs : List (Value × Value)) :
    sameEntries (es.map fun e => (e.1, f e.2)) fs = sameEntries es fs := by
  induction es with
  | nil => rfl
  | cons e es ih =>
      obtain ⟨first, others⟩ := List.forall_mem_cons.mp h
      simp only [List.map_cons, sameEntries, first, ih others]

/-- A value whose sequences keep their kinds equals what it equalled before. -/
theorem Recasts.same_left (hf : Recasts f s m)
    (kinds : ∀ kind xs, Value.seq kind xs ∈ v.containers → kind = s) (w : Value) :
    Value.same (f v) w = Value.same v w := by
  induction v using nested_induction generalizing w with
  | step v ih =>
      cases v with
      | seq kind xs =>
          obtain rfl : kind = s := kinds kind xs (mem_containers_seq.mpr (.inl rfl))
          have items : ∀ x ∈ xs, ∀ y, Value.same (f x) y = Value.same x y := fun x hx =>
            ih x hx fun k ys hy => kinds k ys (mem_containers_seq.mpr (.inr ⟨x, hx, hy⟩))
          rw [hf.seq]
          cases w with
          | seq l ys => rw [Value.same, Value.same, sameItems_map items]
          | _ => rfl
      | map kind es =>
          have values : ∀ e ∈ es, ∀ y, Value.same (f e.2) y = Value.same e.2 y := fun e he =>
            ih e.2 (value_mem_inside he) fun k ys hy =>
              kinds k ys (mem_containers_map.mpr (.inr ⟨e, he, hy⟩))
          rw [hf.map]
          cases w with
          | map l fs => rw [Value.same, Value.same, sameEntries_map values, List.length_map]
          | _ => rfl
      | _ => rw [hf.scalar _ rfl rfl]

/-! ### Both forms -/

/-- **Freezing and thawing undo each other up to the kinds of containers.** Of two in a row the
last decides, and a frozen value holds no list and no open map. A value without tuples comes
back from its frozen form: it equals what it equalled before, and it is the same value if no
frozen map was in it. The values of literals are of this kind. -/
theorem forms_inverse (v : Value) :
    (v.freeze.freeze = v.freeze ∧ v.thaw.thaw = v.thaw ∧
      v.freeze.thaw = v.thaw ∧ v.thaw.freeze = v.freeze) ∧
      ((∀ xs, list xs ∉ v.freeze.containers) ∧ ∀ es, dict es ∉ v.freeze.containers) ∧
      ((∀ xs, tuple xs ∉ v.containers) →
        (∀ w, same v.freeze.thaw w = same v w) ∧
          ((∀ es, map .frozen es ∉ v.containers) → v.freeze.thaw = v)) ∧
      ∀ e, Code.Literal.ofExpr e = .ok v →
        (∀ xs, tuple xs ∉ v.containers) ∧ v.freeze.thaw = v := by
  refine ⟨⟨freeze_freeze v, thaw_thaw v, thaw_freeze v, freeze_thaw v⟩,
    isFrozen_iff.mp (freeze_freeze v), ?_, ?_⟩
  · intro noTuple
    refine ⟨fun w => ?_, fun noView => (isOpen_iff.mpr ⟨noTuple, noView⟩).thaw_freeze⟩
    have lists : ∀ kind xs, seq kind xs ∈ v.containers → kind = .list := by
      intro kind xs h
      cases kind with
      | list => rfl
      | tuple => exact absurd h (noTuple xs)
    rw [thaw_freeze, thaw_recasts.same_left lists]
  · intro e h
    have isOpen : v.IsOpen := (Code.Literal.ofExpr_eq_ok.mp h).isOpen
    exact ⟨(isOpen_iff.mp isOpen).1, isOpen.thaw_freeze⟩

/-- A map with a pair for a key, "not a number" in a list and a frozen map in it. -/
def pairedMap : Value :=
  dict [(tuple [int 1, int 2], list [float .nan]),
    (text "more", map .frozen [(text "none", list [])])]

/-- A map display that holds a pair, `(1, [2])`. -/
def pairDisplay : Code.Expr :=
  .dict ⟨1, 0⟩
    [(some (.constant ⟨1, 1⟩ (.text "pair" false)),
      .tuple ⟨1, 9⟩ [.constant ⟨1, 10⟩ (.int 1), .list ⟨1, 13⟩ [.constant ⟨1, 14⟩ (.int 2)]])]

def displayedMap : Value := dict [(text "pair", list [int 1, list [int 2]])]

theorem forms_inverse_paired :
    (∀ xs, tuple xs ∉ pairedMap.containers) ∧
      (∀ w, same pairedMap.freeze.thaw w = same pairedMap w) ∧
      Code.Literal.ofExpr pairDisplay = .ok displayedMap ∧
      (∀ xs, tuple xs ∉ displayedMap.containers) ∧
      (∀ es, map .frozen es ∉ displayedMap.containers) ∧
      displayedMap.freeze.thaw = displayedMap := by
  have paired : ∀ xs, tuple xs ∉ pairedMap.containers := by
    simp [pairedMap, containers, containersOfItems, containersOfEntries]
  have displayed : Code.Literal.ofExpr pairDisplay = .ok displayedMap := rfl
  have noView : ∀ es, map .frozen es ∉ displayedMap.containers := by
    simp [displayedMap, containers, containersOfItems, containersOfEntries]
  obtain ⟨noTuple, -⟩ := (forms_inverse displayedMap).2.2.2 pairDisplay displayed
  exact ⟨paired, ((forms_inverse pairedMap).2.2.1 paired).1, displayed, noTuple, noView,
    ((forms_inverse displayedMap).2.2.1 noTuple).2 noView⟩

end Docsig.Value
