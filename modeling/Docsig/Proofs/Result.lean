import Mathlib.Data.List.Forall2
import Mathlib.Logic.Relation

/-!
Inversion of steps that may fail.

A sequence of steps succeeds exactly when each of them does, and fails with the
fault of the first that fails. `foldlM_keeps` is the one induction over a run of
steps: what every step keeps, the run keeps. `FailsOnly` says which faults a step can
end with, and goes from steps to their sequence. `forall_reachable_iff` peels the first
step off a demand on all that steps of a relation lead to.
-/

namespace Docsig

variable {ε α β γ : Type}

/-! ### Two steps -/

/-- Two steps succeed if the first does and the second does with what it gave. -/
theorem bind_eq_ok {x : Except ε α} {f : α → Except ε β} {b : β} :
    (x >>= f) = .ok b ↔ ∃ a, x = .ok a ∧ f a = .ok b := by
  cases x with
  | error e => simp [bind, Except.bind]
  | ok a => simp [bind, Except.bind]

/-- A check that only may go on. -/
theorem then_eq_ok {x : Except ε Unit} {y : Except ε β} {b : β} :
    (x >>= fun _ => y) = .ok b ↔ x = .ok () ∧ y = .ok b := by
  rw [bind_eq_ok]
  exact ⟨fun ⟨_, checked, h⟩ => ⟨checked, h⟩, fun ⟨checked, h⟩ => ⟨(), checked, h⟩⟩

/-- Two steps fail if the first does, or the second does with what the first gave. -/
theorem bind_eq_error {x : Except ε α} {f : α → Except ε β} {e : ε} :
    (x >>= f) = .error e ↔ x = .error e ∨ ∃ a, x = .ok a ∧ f a = .error e := by
  cases x with
  | error e' => simp [bind, Except.bind]
  | ok a => simp [bind, Except.bind]

@[simp] theorem ok_bind (a : α) (f : α → Except ε β) : (Except.ok a >>= f) = f a := rfl

@[simp] theorem pure_eq_ok (a : α) : (pure a : Except ε α) = .ok a := rfl

theorem map_eq_ok {x : Except ε α} {f : α → β} {b : β} :
    x.map f = .ok b ↔ ∃ a, x = .ok a ∧ f a = b := by
  cases x <;> simp [Except.map]

theorem mapError_eq_ok {x : Except ε α} {f : ε → β} {a : α} :
    x.mapError f = .ok a ↔ x = .ok a := by
  cases x <;> simp [Except.mapError]

theorem mapError_eq_error {x : Except ε α} {f : ε → β} {e' : β} :
    x.mapError f = .error e' ↔ ∃ e, x = .error e ∧ f e = e' := by
  cases x <;> simp [Except.mapError]

theorem exists_of_isOk {x : Except ε α} (h : x.isOk = true) : ∃ a, x = .ok a := by
  cases x with
  | error e => cases h
  | ok a => exact ⟨a, rfl⟩

/-- A step succeeds exactly if it does not fail. -/
theorem exists_ok_iff {x : Except ε α} : (∃ a, x = .ok a) ↔ ¬ ∃ e, x = .error e := by
  cases x <;> simp

/-- What is made of a result is found exactly if the result is. -/
theorem exists_bind_pure_iff {x : Except ε α} {f : α → β} :
    (∃ b, (x >>= fun a => pure (f a)) = .ok b) ↔ ∃ a, x = .ok a := by
  cases x <;> simp [bind, Except.bind]

theorem exists_map_iff {x : Except ε α} {f : α → β} :
    (∃ b, x.map f = .ok b) ↔ ∃ a, x = .ok a := by
  cases x <;> simp [Except.map]

theorem mem_toOption {x : Except ε α} {a : α} : a ∈ x.toOption ↔ x = .ok a := by
  cases x <;> simp [Except.toOption]

/-- A step that only may go on under a condition. -/
theorem guard_eq_ok {c : Prop} [Decidable c] {e : ε} {x : Except ε α} {a : α} :
    (if c then .error e else x) = .ok a ↔ ¬ c ∧ x = .ok a := by
  split <;> simp [*]

/-! ### Runs of steps -/

/-- What every step keeps, a run of steps keeps. -/
theorem foldlM_keeps {step : β → α → Except ε β} (keeps : β → Prop)
    (hstep : ∀ b a b', keeps b → step b a = .ok b' → keeps b') :
    ∀ {xs : List α} {b b' : β}, keeps b → xs.foldlM step b = .ok b' → keeps b' := by
  intro xs
  induction xs with
  | nil =>
      intro b b' hb h
      rw [List.foldlM_nil, pure_eq_ok] at h
      exact Except.ok.inj h ▸ hb
  | cons x xs ih =>
      intro b b' hb h
      rw [List.foldlM_cons] at h
      obtain ⟨c, hc, h⟩ := bind_eq_ok.mp h
      exact ih (hstep b x c hb hc) h

/-- A list of results is the list of the results of the steps. -/
theorem mapM_eq_ok {f : α → Except ε β} :
    ∀ {xs : List α} {ys : List β},
      xs.mapM f = .ok ys ↔ List.Forall₂ (fun x y => f x = .ok y) xs ys := by
  intro xs
  induction xs with
  | nil => intro ys; cases ys <;> simp [List.mapM_nil]
  | cons x xs ih =>
      intro ys
      rw [List.mapM_cons, bind_eq_ok]
      constructor
      · rintro ⟨y, hy, h⟩
        obtain ⟨zs, hzs, h⟩ := bind_eq_ok.mp h
        cases h
        exact .cons hy (ih.mp hzs)
      · intro h
        cases h with
        | cons hy h => exact ⟨_, hy, bind_eq_ok.mpr ⟨_, ih.mpr h, rfl⟩⟩

/-- A run of steps with one more at its end. -/
theorem mapM_concat (f : α → Except ε β) (xs : List α) (x : α) :
    (xs ++ [x]).mapM f = xs.mapM f >>= fun ys => (f x).map fun y => ys ++ [y] := by
  rw [List.mapM_append]
  cases xs.mapM f with
  | error => rfl
  | ok ys =>
      rw [List.mapM_cons, List.mapM_nil]
      cases f x <;> rfl

/-- If every step has a result, the list of steps has one. -/
theorem mapM_exists {f : α → Except ε β} {R : α → β → Prop} {xs : List α}
    (h : ∀ x ∈ xs, ∃ y, f x = .ok y ∧ R x y) :
    ∃ ys, xs.mapM f = .ok ys ∧ List.Forall₂ R xs ys := by
  induction xs with
  | nil => exact ⟨[], rfl, .nil⟩
  | cons x xs ih =>
      obtain ⟨y, hy, hxy⟩ := h x (by simp)
      obtain ⟨ys, hys, paired⟩ := ih fun x hx => h x (by simp [hx])
      refine ⟨y :: ys, ?_, .cons hxy paired⟩
      rw [List.mapM_cons, hy, hys]
      rfl

/-! ### Faults -/

/-- Every fault that a step ends with has a property. -/
def FailsOnly (p : ε → Prop) (x : Except ε α) : Prop := ∀ e, x = .error e → p e

namespace FailsOnly

variable {p : ε → Prop} {x : Except ε α} {e : ε}

theorem ok (a : α) : FailsOnly p (.ok a) := fun _ h => nomatch h

theorem error (h : p e) : FailsOnly p (.error e : Except ε α) := by
  rintro _ ⟨⟩
  exact h

/-- Two steps fail only in this way if both do. -/
theorem bind {f : α → Except ε β} (hx : FailsOnly p x)
    (hf : ∀ a, x = .ok a → FailsOnly p (f a)) : FailsOnly p (x >>= f) := by
  intro e h
  rcases bind_eq_error.mp h with first | ⟨a, done, second⟩
  · exact hx e first
  · exact hf a done e second

theorem map {f : α → β} (hx : FailsOnly p x) : FailsOnly p (x.map f) := by
  cases x with
  | error e => exact error (hx e rfl)
  | ok a => exact ok (f a)

/-- A check fails only with its own fault. -/
theorem guard {c : Prop} [Decidable c] (h : p e) (hx : ¬ c → FailsOnly p x) :
    FailsOnly p (if c then .error e else x) := by
  by_cases holds : c
  · rw [if_pos holds]
    exact error h
  · rw [if_neg holds]
    exact hx holds

theorem foldlM {step : β → α → Except ε β} {xs : List α}
    (h : ∀ b, ∀ x ∈ xs, FailsOnly p (step b x)) (b : β) : FailsOnly p (xs.foldlM step b) := by
  induction xs generalizing b with
  | nil => exact ok b
  | cons x xs ih =>
      rw [List.foldlM_cons]
      exact bind (h b x List.mem_cons_self) fun b' _ =>
        ih (fun b x hx => h b x (List.mem_cons_of_mem _ hx)) b'

/-- A list is gone through with faults of its items alone. -/
theorem mapM {step : α → Except ε β} {xs : List α} (h : ∀ x ∈ xs, FailsOnly p (step x)) :
    FailsOnly p (xs.mapM step) := by
  induction xs with
  | nil => exact ok []
  | cons x xs ih =>
      rw [List.mapM_cons]
      exact bind (h x List.mem_cons_self) fun _ _ =>
        bind (ih fun x hx => h x (List.mem_cons_of_mem _ hx)) fun _ _ => ok _

instance [DecidablePred p] : (x : Except ε α) → Decidable (FailsOnly p x)
  | .ok a => isTrue (ok a)
  | .error e => decidable_of_iff (p e) ⟨error, fun h => h e rfl⟩

end FailsOnly

/-! ### Paired lists -/

section Paired

variable {R : α → β → Prop} {xs : List α} {ys : List β}

theorem exists_of_mem_left (h : List.Forall₂ R xs ys) {x : α} (hx : x ∈ xs) :
    ∃ y ∈ ys, R x y := by
  induction h with
  | nil => cases hx
  | @cons _ y _ _ hxy _ ih =>
      rcases List.mem_cons.mp hx with rfl | hx
      · exact ⟨y, by simp, hxy⟩
      · obtain ⟨z, hz, hxz⟩ := ih hx
        exact ⟨z, by simp [hz], hxz⟩

theorem exists_of_mem_right (h : List.Forall₂ R xs ys) {y : β} (hy : y ∈ ys) :
    ∃ x ∈ xs, R x y :=
  exists_of_mem_left (R := fun y x => R x y) h.flip hy

/-- Lists whose paired items have one image have one list of images. -/
theorem map_eq_map (h : List.Forall₂ R xs ys) {f : α → γ} {g : β → γ}
    (same : ∀ x y, R x y → f x = g y) : xs.map f = ys.map g := by
  induction h with
  | nil => rfl
  | cons hxy _ ih => rw [List.map_cons, List.map_cons, same _ _ hxy, ih]

end Paired

/-- A list of results is found exactly if every step has one. -/
theorem exists_mapM_iff {f : α → Except ε β} {xs : List α} :
    (∃ ys, xs.mapM f = .ok ys) ↔ ∀ x ∈ xs, ∃ y, f x = .ok y := by
  constructor
  · rintro ⟨ys, h⟩ x hx
    obtain ⟨y, -, hy⟩ := exists_of_mem_left (mapM_eq_ok.mp h) hx
    exact ⟨y, hy⟩
  · intro h
    obtain ⟨ys, hys, -⟩ := mapM_exists fun x hx => (h x hx).imp fun y hy => And.intro hy trivial
    exact ⟨ys, hys⟩

/-! ### What can be reached -/

/-- All that can be reached has a property if the start has it and so has all that can be
reached from where one step leads. -/
theorem forall_reachable_iff {r : α → α → Prop} {P : α → Prop} {a : α} :
    (∀ b, Relation.ReflTransGen r a b → P b) ↔
      P a ∧ ∀ c, r a c → ∀ b, Relation.ReflTransGen r c b → P b := by
  constructor
  · exact fun h => ⟨h a .refl, fun c step b path => h b (path.head step)⟩
  · rintro ⟨here, below⟩ b path
    rcases path.cases_head with rfl | ⟨c, step, path⟩
    · exact here
    · exact below c step b path

end Docsig
