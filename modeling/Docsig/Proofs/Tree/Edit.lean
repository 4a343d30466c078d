import Docsig.Tree.Basic

/-!
Files written to a tree.

A file has room at a path if there is no obstacle. Writing it there changes what stands
at that path alone (`at?_write`). This is an induction on the path: in the directory of the
file the name gets the file (`write_single`), further up it gets the directory below with
the file in it (`edit_cons`).
-/

namespace Docsig.Tree

variable {name other : String} {p q : List String} {es : List (String × Tree)} {t : Tree}
  {c d : Definition.Contents}

/-! ### One directory -/

theorem child?_cons {e : String × Tree} :
    child? name (e :: es) = if e.1 = name then some e.2 else child? name es := by
  by_cases h : e.1 = name <;> simp [child?, h]

/-- What is put is found, and everything else as before. -/
theorem child?_put : child? other (put name (some t) es) =
    if name = other then some t else child? other es := by
  induction es with
  | nil => simp [put, child?]
  | cons e es ih =>
      rw [put]
      by_cases same : e.1 = name
      · subst same
        rw [if_pos (beq_self_eq_true _), Option.map_some, Option.toList_some, List.singleton_append,
          child?_cons, child?_cons]
        split <;> rfl
      · rw [if_neg (by simpa using same), child?_cons, child?_cons, ih]
        by_cases found : e.1 = other
        · rw [if_pos found, if_pos found, if_neg fun eq => same (found.trans eq.symm)]
        · rw [if_neg found, if_neg found]

/-- What stands further down is found from what stands further up. -/
theorem at?_append : t.at? (p ++ q) = (t.at? p).bind (at? q) := by
  induction p generalizing t with
  | nil => rfl
  | cons name p ih =>
      rw [List.cons_append, at?, at?, Option.bind_assoc]
      exact congrArg _ (funext fun _ => ih)

/-- What stands under a name, with an empty directory for nothing. -/
def under (name : String) (t : Tree) : Tree := (child? name t.entries).getD empty

theorem write_single : t.write [name] c = directory (put name (some (file c)) t.entries) := rfl

/-- A change further down is one in the directory below. -/
theorem edit_cons (change : Option Tree → Option Tree) (ne : p ≠ []) :
    edit change (name :: p) t.entries =
      put name (some (directory (edit change p (t.under name).entries))) t.entries := by
  cases p with
  | nil => exact absurd rfl ne
  | cons n p =>
      rw [edit, under]
      cases child? name t.entries with
      | none => rfl
      | some u => rfl
      · exact nofun

theorem write_cons (ne : p ≠ []) :
    t.write (name :: p) c = directory (put name (some ((t.under name).write p c)) t.entries) :=
  congrArg directory (edit_cons _ ne)

/-- Below the name that is put stands what is put, elsewhere what stood there. -/
theorem at?_put {u : Tree} : (directory (put name (some u) es)).at? (other :: q) =
    if name = other then u.at? q else (directory es).at? (other :: q) := by
  rw [at?, entries, child?_put]
  split <;> rfl

theorem obstacle?_directory :
    (directory es).obstacle? (name :: p) = (child? name es).bind (obstacle? p) := by
  cases p <;> rfl

/-- A file stands below a directory; none does if the directory is missing. -/
theorem at?_under : t.at? (name :: p) = some (file c) ↔ (t.under name).at? p = some (file c) := by
  rw [at?, under]
  cases child? name t.entries with
  | some u => rfl
  | none =>
      cases p with
      | nil => simp [at?, empty]
      | cons n p => simp [at?, empty, entries, child?]

/-- Below a directory there is the room of that directory. -/
theorem obstacle?_under (ne : p ≠ []) :
    (directory es).obstacle? (name :: p) = ((directory es).under name).obstacle? p := by
  rw [obstacle?_directory, under, entries]
  cases child? name es with
  | some u => rfl
  | none =>
      cases p with
      | nil => exact absurd rfl ne
      | cons n p =>
          rw [Option.getD_none, empty, obstacle?_directory]
          rfl

/-- Only a directory has room below it. -/
theorem directory_of_room (room : t.obstacle? (name :: p) = none) : ∃ es, t = directory es := by
  cases t with
  | directory es => exact ⟨es, rfl⟩
  | file c => cases p <;> cases room

theorem at?_file (ne : q ≠ []) : (file c).at? q = none := by
  cases q with
  | nil => exact absurd rfl ne
  | cons n q => rfl

/-- Where a file has room, no file is further down. -/
theorem at?_of_room (room : t.obstacle? p = none) (ne : q ≠ []) :
    t.at? (p ++ q) ≠ some (file d) := by
  induction p generalizing t with
  | nil =>
      cases t with
      | directory es => cases room
      | file c =>
          rw [List.nil_append, at?_file ne]
          exact nofun
  | cons name p ih =>
      obtain ⟨es, rfl⟩ := directory_of_room room
      rw [obstacle?_directory] at room
      rw [List.cons_append, at?, entries]
      cases found : child? name es with
      | none => exact nofun
      | some u =>
          rw [found] at room
          exact ih room

/-! ### One file -/

/-- **A written file stands at its path, and no other file is touched.** -/
theorem at?_write (ne : p ≠ []) (room : t.obstacle? p = none) :
    (t.write p c).at? q = some (file d) ↔
      (q = p ∧ d = c) ∨ q ≠ p ∧ t.at? q = some (file d) := by
  -- by induction on the path of the file, with the path that is looked up beside it
  induction p generalizing q t with
  | nil => exact absurd rfl ne
  | cons name p ih =>
      obtain ⟨es, rfl⟩ := directory_of_room room
      cases q with
      | nil => simp [write, at?]
      | cons other q =>
          by_cases last : p = []
          · subst last
            rw [write_single, at?_put]
            split
            · rename_i same
              subst same
              by_cases here : q = []
              · subst here
                simp [at?, eq_comm]
              · have absent := at?_of_room (d := d) room here
                rw [List.singleton_append] at absent
                simp [at?_file here, here, absent]
            · rename_i differ
              simp [Ne.symm differ, entries]
          · rw [write_cons last, at?_put]
            split
            · rename_i same
              subst same
              rw [ih last (obstacle?_under last ▸ room), at?_under]
              simp
            · rename_i differ
              simp [Ne.symm differ, entries]

end Docsig.Tree
