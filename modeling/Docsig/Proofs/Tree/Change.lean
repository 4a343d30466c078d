import Docsig.Proofs.Tree.Walk

/-!
Changes of a tree that leave it well-formed.

A directory lists its entries in some order, and `Rearranged` trees differ in that order
alone, at any depth: they have the same files. Writing and removing are one `edit` each,
and an edit at names leaves a well-formed tree so.

* `WellFormed.rearranged`, `at?_rearranged`: other orders.
* `wellFormed_write`, `wellFormed_remove`, `at?_remove`: one file written or taken away.
-/

namespace Docsig.Tree

open Docsig.Path (IsName)

variable {name other : String} {p q : List String} {es : List (String × Tree)} {t u : Tree}
  {c d : Definition.Contents}

/-! ### Entries in another order -/

/-- Trees that differ in the order of entries, in any number of their directories. -/
inductive Rearranged : Tree → Tree → Prop
  | refl (t : Tree) : Rearranged t t
  | trans {t u v : Tree} : Rearranged t u → Rearranged u v → Rearranged t v
  | order {es fs : List (String × Tree)} : es.Perm fs →
      Rearranged (.directory es) (.directory fs)
  | within {before after : List (String × Tree)} {name : String} {t u : Tree} :
      Rearranged t u →
        Rearranged (.directory (before ++ (name, t) :: after))
          (.directory (before ++ (name, u) :: after))

/-- Rearranging keeps a tree well-formed. -/
theorem WellFormed.rearranged (wf : t.WellFormed) (h : Rearranged t u) : u.WellFormed := by
  induction h with
  | refl => exact wf
  | trans _ _ ih ih' => exact ih' (ih wf)
  | order perm =>
      cases wf with
      | directory nodup valid below =>
          refine .directory ((perm.map Prod.fst).nodup_iff.mp nodup) (fun e he => ?_) fun e he => ?_
          · exact valid e (perm.mem_iff.mpr he)
          · exact below e (perm.mem_iff.mpr he)
  | within _ ih =>
      cases wf with
      | directory nodup valid below =>
          rw [List.forall_mem_append, List.forall_mem_cons] at valid below
          refine .directory ?_ ?_ ?_
          · rw [List.map_append, List.map_cons] at nodup ⊢
            exact nodup
          · rw [List.forall_mem_append, List.forall_mem_cons]
            exact valid
          · rw [List.forall_mem_append, List.forall_mem_cons]
            exact ⟨below.1, ih below.2.1, below.2.2⟩

theorem Rearranged.isDirectory (h : Rearranged t u) : u.isDirectory = t.isDirectory := by
  induction h with
  | refl => rfl
  | trans _ _ ih ih' => exact ih'.trans ih
  | order => rfl
  | within => rfl

theorem child?_append {fs : List (String × Tree)} :
    child? name (es ++ fs) = (child? name es).or (child? name fs) := by
  rw [child?, List.find?_append, Option.map_or]
  rfl

/-- **The order of entries does not matter for the files of a tree.** -/
theorem at?_rearranged (wf : t.WellFormed) (h : Rearranged t u) :
    u.at? q = some (file d) ↔ t.at? q = some (file d) := by
  -- by the steps of the rearrangement: in another order a name finds the same entry, as names
  -- differ
  induction h generalizing q with
  | refl => rfl
  | trans first _ ih ih' => exact (ih' (wf.rearranged first)).trans (ih wf)
  | @order es fs perm =>
      cases q with
      | nil => simp [at?]
      | cons name q =>
          cases wf with
          | directory nodup =>
              have nodup' := (perm.map Prod.fst).nodup_iff.mp nodup
              have same : child? name fs = child? name es := Option.ext fun v => by
                rw [child?_eq_some nodup, child?_eq_some nodup', perm.mem_iff]
              rw [at?, at?, entries, entries, same]
  | @within before after name t u _ ih =>
      cases q with
      | nil => simp [at?]
      | cons other q =>
          have wf : t.WellFormed := by
            cases wf with
            | directory _ _ below => exact below (name, t) (by simp)
          rw [at?, at?, entries, entries, child?_append, child?_append, child?_cons, child?_cons]
          cases child? other before with
          | some v => rfl
          | none =>
              rw [Option.none_or, Option.none_or]
              by_cases same : name = other
              · rw [if_pos same, if_pos same]
                exact ih wf
              · rw [if_neg same, if_neg same]

/-! ### Entries with a change -/

variable {tree? : Option Tree} {e : String × Tree}

/-- An entry that is put is new, or was there. -/
theorem mem_put (h : e ∈ put name tree? es) : e ∈ es ∨ ∃ t, tree? = some t ∧ e = (name, t) := by
  induction es with
  | nil =>
      obtain ⟨t, found, rfl⟩ : ∃ t, tree? = some t ∧ (name, t) = e := by simpa [put] using h
      exact .inr ⟨t, found, rfl⟩
  | cons first es ih =>
      rw [put] at h
      split at h
      · rcases List.mem_append.mp h with h | h
        · obtain ⟨t, found, rfl⟩ : ∃ t, tree? = some t ∧ (name, t) = e := by simpa using h
          exact .inr ⟨t, found, rfl⟩
        · exact .inl (List.mem_cons_of_mem _ h)
      · rcases List.mem_cons.mp h with rfl | h
        · exact .inl List.mem_cons_self
        · exact (ih h).imp_left (List.mem_cons_of_mem _)

/-- Putting an entry keeps the names different. -/
theorem put_nodup (nodup : (es.map Prod.fst).Nodup) :
    ((put name tree? es).map Prod.fst).Nodup := by
  induction es with
  | nil => cases tree? <;> simp [put]
  | cons first es ih =>
      rw [List.map_cons, List.nodup_cons] at nodup
      rw [put]
      -- the entry of that name is replaced or taken out, the others stay
      split
      · rename_i same
        obtain rfl : first.1 = name := by simpa using same
        cases tree? with
        | none => exact nodup.2
        | some t => exact List.nodup_cons.mpr nodup
      · rename_i differ
        refine List.nodup_cons.mpr ⟨fun mem => ?_, ih nodup.2⟩
        obtain ⟨e, he, same⟩ := List.mem_map.mp mem
        rcases mem_put he with he | ⟨t, -, rfl⟩
        · exact nodup.1 (same ▸ List.mem_map_of_mem he)
        · exact differ (by simpa using same.symm)

theorem wellFormed_put (wf : (directory es).WellFormed) (valid : IsName name)
    (inside : ∀ t, tree? = some t → t.WellFormed) :
    (directory (put name tree? es)).WellFormed := by
  cases wf with
  | directory nodup names below =>
      refine .directory (put_nodup nodup) (fun e he => ?_) fun e he => ?_
      · rcases mem_put he with he | ⟨t, -, rfl⟩
        · exact names e he
        · exact valid
      · rcases mem_put he with he | ⟨t, found, rfl⟩
        · exact below e he
        · exact inside t found

theorem wellFormed_child (wf : (directory es).WellFormed) (h : child? name es = some t) :
    t.WellFormed := by
  cases wf with
  | directory nodup _ below => exact below _ ((child?_eq_some nodup).mp h)

theorem wellFormed_entries (wf : t.WellFormed) : (directory t.entries).WellFormed := by
  cases t with
  | directory es => exact wf
  | file c => exact .directory .nil nofun nofun

/-- **An edit at names keeps a tree well-formed**, if the change does. -/
theorem wellFormed_edit {change : Option Tree → Option Tree}
    (keeps : ∀ old, (∀ t, old = some t → t.WellFormed) →
      ∀ t, change old = some t → t.WellFormed)
    (valid : ∀ name ∈ p, IsName name) (wf : (directory es).WellFormed) :
    (directory (edit change p es)).WellFormed := by
  fun_induction edit change p es with
  | case1 => exact wf
  | case2 name es =>
      exact wellFormed_put wf (valid name (by simp)) (keeps _ fun t => wellFormed_child wf)
  | case3 name names es _ below ih =>
      obtain ⟨hname, hnames⟩ := List.forall_mem_cons.mp valid
      have wfBelow : (directory below).WellFormed := by
        cases found : child? name es with
        | none =>
            simp only [below, found]
            exact .directory .nil (by simp) (by simp)
        | some t =>
            simp only [below, found]
            exact wellFormed_entries (wellFormed_child wf found)
      refine wellFormed_put wf hname ?_
      rintro t ⟨⟩
      exact ih hnames wfBelow

/-! ### One file -/

/-- Writing a file keeps a tree well-formed. -/
theorem wellFormed_write (wf : t.WellFormed) (valid : ∀ name ∈ p, IsName name) :
    (t.write p c).WellFormed := by
  refine wellFormed_edit ?_ valid (wellFormed_entries wf)
  rintro old - t ⟨⟩
  exact .file

/-- Removing a file keeps a tree well-formed. -/
theorem wellFormed_remove (wf : t.WellFormed) : (t.remove p).WellFormed := by
  rw [remove]
  split
  · rename_i there
    obtain ⟨u, found⟩ := Option.isSome_iff_exists.mp there
    exact wellFormed_edit (fun _ _ _ h => nomatch h) (names_of_at? wf found)
      (wellFormed_entries wf)
  · exact wf

/-- What is taken out is not found, everything else is. -/
theorem child?_put_none (nodup : (es.map Prod.fst).Nodup) :
    child? other (put name none es) = if name = other then none else child? other es := by
  induction es with
  | nil => simp [put, child?]
  | cons e es ih =>
      rw [List.map_cons, List.nodup_cons] at nodup
      rw [put, child?_cons]
      by_cases same : e.1 = name
      · subst same
        rw [if_pos (beq_self_eq_true _), Option.map_none, Option.toList_none, List.nil_append]
        by_cases here : e.1 = other
        · subst here
          rw [if_pos rfl, Option.eq_none_iff_forall_ne_some]
          intro t found
          have mem := (child?_eq_some nodup.2).mp found
          exact nodup.1 (List.mem_map.mpr ⟨_, mem, rfl⟩)
        · rw [if_neg here, if_neg here]
      · rw [if_neg (by simpa using same), child?_cons, ih nodup.2]
        by_cases here : name = other
        · rw [if_pos here, if_pos here, if_neg fun eq => same (eq.trans here.symm)]
        · rw [if_neg here, if_neg here]

/-- Where a file stands there is room for one. -/
theorem room_of_at? (h : t.at? p = some (file c)) : t.obstacle? p = none := by
  induction p generalizing t with
  | nil =>
      obtain rfl : t = file c := by simpa [at?] using h
      rfl
  | cons name p ih =>
      rw [at?, Option.bind_eq_some_iff] at h
      obtain ⟨u, found, h⟩ := h
      cases t with
      | file d => cases found
      | directory es =>
          rw [entries] at found
          rw [obstacle?_directory, found]
          exact ih h

/-- A file taken from the entries of a directory. -/
theorem at?_edit_none (wf : (directory es).WellFormed)
    (found : (directory es).at? p = some (file c)) :
    (directory (edit (fun _ => none) p es)).at? q = some (file d) ↔
      q ≠ p ∧ (directory es).at? q = some (file d) := by
  induction p generalizing es q with
  | nil => simp [at?] at found
  | cons name p ih =>
      rw [at?, entries, Option.bind_eq_some_iff] at found
      obtain ⟨u, child, found⟩ := found
      cases q with
      | nil => simp [at?]
      | cons other q =>
          cases p with
          | nil =>
              obtain rfl : u = file c := by simpa [at?] using found
              cases wf with
              | directory nodup =>
                  rw [edit, at?, entries, child?_put_none nodup]
                  split
                  · rename_i same
                    subst same
                    rw [at?, entries, child]
                    cases q <;> simp [at?, entries, child?]
                  · rename_i differ
                    simp [Ne.symm differ, at?, entries]
          | cons n p =>
              cases u with
              | file b => simp [at?, entries, child?] at found
              | directory fs =>
                  have below : edit (fun _ => none) (name :: n :: p) es =
                      put name (some (directory (edit (fun _ => none) (n :: p) fs))) es := by
                    rw [edit, child]
                    · rfl
                    · simp
                  rw [below, at?_put]
                  split
                  · rename_i same
                    subst same
                    rw [ih (wellFormed_child wf child) found, at?, entries, child]
                    simp
                  · rename_i differ
                    simp [Ne.symm differ]

/-- **A removed file is gone, and no other file is touched.** -/
theorem at?_remove (wf : (directory es).WellFormed)
    (found : (directory es).at? p = some (file c)) :
    ((directory es).remove p).at? q = some (file d) ↔
      q ≠ p ∧ (directory es).at? q = some (file d) := by
  rw [remove, found, Option.isSome_some, if_pos rfl]
  exact at?_edit_none wf found

end Docsig.Tree
