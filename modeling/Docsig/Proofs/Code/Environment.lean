import Docsig.Proofs.Code.Node
import Mathlib.Data.List.Sort
import Mathlib.Data.Prod.Lex
import Mathlib.Data.String.Basic

/-!
The environment variables that a function names.

`Node.Uses` says, form by form, which nodes use a variable. The names are then told by what
stands in the function, and not by how it is searched: a name is there exactly if some node
inside uses it, once, and names stand in the order of their first uses
(`environmentKeys_ordered`). A breadth-first walk that keeps, sorts and thins out what it meets
comes to the same list: it meets the same uses (`usesAlong_walk`), and sorting forgets their
order (`inOrder_congr`).

A use reads the variable, or assigns or deletes it. Whether some nodes read a variable can be
decided by a walk (`reads_iff`).
-/

namespace Docsig.Code

open scoped List

variable {id name : String} {e callee : Expr} {place : Place} {role : Role} {n m : Node}
  {u : KeyUse}

/-! ### What uses a variable -/

/-- A name, bare or as a member of the system module. -/
inductive System (id : String) : Expr → Prop
  | bare (place : Place) : System id (.name place id)
  | member (place inner : Place) : System id (.access place (.name inner "os") id)

/-- What is called to get a variable: the getter of the environment, or the getter function. -/
inductive Getter : Expr → Prop
  | ofEnviron (place : Place) {value : Expr} : System "environ" value →
      Getter (.access place value "get")
  | function {callee : Expr} : System "getenv" callee → Getter callee

/-- A node uses a variable that a constant text at a place names: as the index of the
environment, or as the first argument of a getter. An index has the role of the value that it
selects; a getter only reads. -/
inductive Node.Uses : Node → Role → Place → String → Prop
  | index (role : Role) (p : Place) {value : Expr} (place : Place) (name : String) (marked : Bool) :
      System "environ" value →
      Uses (.expr role (.subscript p value (.constant place (.text name marked)))) role place name
  | getter (role : Role) (p : Place) {callee : Expr} (place : Place) (name : String)
      (marked : Bool) (args : List Expr) (keywords : List (Option String × Expr)) :
      Getter callee →
      Uses (.expr role (.call p callee (.constant place (.text name marked) :: args) keywords))
        .read place name

/-- A variable is used, with a role and at a place, anywhere within some nodes. -/
def UsedIn (ns : List Node) (role : Role) (place : Place) (name : String) : Prop :=
  ∃ n ∈ ns, ∃ m, Within n m ∧ m.Uses role place name

def Mentions (ns : List Node) (name : String) : Prop := ∃ role place, UsedIn ns role place name

/-- The test of the shape of an expression is sound and complete. -/
theorem isSystemName_iff : isSystemName id e = true ↔ System id e := by
  constructor
  · intro h
    unfold isSystemName at h
    split at h
    · rename_i place inner module member
      rw [Bool.and_eq_true, beq_iff_eq, beq_iff_eq] at h
      obtain ⟨rfl, rfl⟩ := h
      exact .member place inner
    · rename_i place name
      rw [beq_iff_eq] at h
      subst h
      exact .bare place
    · cases h
  · intro h
    cases h <;> simp [isSystemName]

/-- A call looks a key up if it is of one of the two forms. -/
theorem isGetter_iff : isGetter callee = true ↔ Getter callee := by
  constructor
  · intro h
    unfold isGetter at h
    split at h
    · rename_i place value member
      rw [Bool.or_eq_true, Bool.and_eq_true, beq_iff_eq, isSystemName_iff, isSystemName_iff] at h
      rcases h with ⟨rfl, environ⟩ | function
      · exact .ofEnviron place environ
      · exact .function function
    · exact .function (isSystemName_iff.mp h)
  · intro h
    cases h with
    | ofEnviron place environ => simp [isGetter, isSystemName_iff.mpr environ]
    | function system =>
        unfold isGetter
        split
        · rw [Bool.or_eq_true]
          exact .inr (isSystemName_iff.mpr system)
        · exact isSystemName_iff.mpr system

/-! ### What a search finds -/

/-- The uses of keys that a node is, apart from those inside it, with their roles. -/
def Node.ownUses : Node → List (Role × KeyUse)
  | .expr role (.subscript _ value index) =>
      if isSystemName "environ" value then (keyUse index).map (role, ·) else []
  | .expr _ (.call _ callee args _) =>
      if isGetter callee then (firstKeyUse args).map (Role.read, ·) else []
  | _ => []

theorem mem_keyUse : u ∈ keyUse e ↔ ∃ marked, e = .constant u.place (.text u.name marked) := by
  obtain ⟨place, name⟩ := u
  constructor
  · intro h
    unfold keyUse at h
    split at h
    · rename_i marked
      obtain ⟨rfl, rfl⟩ : place = _ ∧ name = _ := by simpa using h
      exact ⟨marked, rfl⟩
    · cases h
  · rintro ⟨marked, rfl⟩
    exact List.mem_singleton_self _

/-- The uses that a node reports are exactly those that it makes. -/
theorem mem_ownUses : (role, u) ∈ n.ownUses ↔ n.Uses role u.place u.name := by
  constructor
  · intro h
    unfold Node.ownUses at h
    split at h
    · rename_i r p value index
      split at h
      · rename_i system
        obtain ⟨v, hv, ⟨⟩⟩ := List.mem_map.mp h
        obtain ⟨marked, rfl⟩ := mem_keyUse.mp hv
        exact .index role p u.place u.name marked (isSystemName_iff.mp system)
      · cases h
    · rename_i r p callee args keywords
      split at h
      · rename_i getter
        obtain ⟨v, hv, ⟨⟩⟩ := List.mem_map.mp h
        -- the key is the first argument, so a call without one uses no key
        cases args with
        | nil => cases hv
        | cons e args =>
            obtain ⟨marked, rfl⟩ := mem_keyUse.mp hv
            exact .getter r p u.place u.name marked args keywords (isGetter_iff.mp getter)
      · cases h
    · cases h
  · obtain ⟨place, name⟩ := u
    intro h
    cases h with
    | index _ p _ _ marked system => simp [Node.ownUses, isSystemName_iff.mpr system, keyUse]
    | getter _ p _ _ marked args keywords getter =>
        simp [Node.ownUses, isGetter_iff.mpr getter, firstKeyUse, keyUse]

/-! ### What stands right below a node -/

def Node.keyUses : Node → List KeyUse
  | .expr _ e => e.keyUses
  | .part p => partUses [p]
  | .clause c => clauseUses [c]
  | .param p => paramUses [p]
  | .statement s => s.keyUses
  | .function f => f.keyUses
  | .handler h => handlerUses [h]
  | .case c => caseUses [c]

def usesIn (ns : List Node) : List KeyUse := ns.flatMap Node.keyUses

@[simp] theorem usesIn_nil : usesIn [] = [] := rfl

@[simp] theorem usesIn_cons (n : Node) (ns : List Node) :
    usesIn (n :: ns) = n.keyUses ++ usesIn ns := List.flatMap_cons

@[simp] theorem usesIn_append (ns ms : List Node) : usesIn (ns ++ ms) = usesIn ns ++ usesIn ms :=
  List.flatMap_append

/-- A search through a list of parts is a search through their nodes. -/
theorem usesIn_map {α : Type} {f : α → Node} {uses : List α → List KeyUse} (nil : uses [] = [])
    (cons : ∀ x xs, uses (x :: xs) = (f x).keyUses ++ uses xs) (xs : List α) :
    usesIn (xs.map f) = uses xs := by
  induction xs with
  | nil => exact nil.symm
  | cons x xs ih => rw [List.map_cons, usesIn_cons, ih, cons]

@[simp] theorem usesIn_exprs (role : Role) (es : List Expr) :
    usesIn (es.map (.expr role)) = allUses es :=
  usesIn_map rfl (fun _ _ => rfl) es

@[simp] theorem usesIn_optional (role : Role) (e? : Option Expr) :
    usesIn (e?.toList.map (.expr role)) = optionUses e? := by
  cases e? with
  | none => rfl
  | some e => exact List.append_nil _

@[simp] theorem usesIn_block (ss : List Statement) : usesIn (block ss) = blockUses ss :=
  usesIn_map rfl (fun _ _ => rfl) ss

@[simp] theorem usesIn_parts (ps : List TextPart) : usesIn (ps.map .part) = partUses ps := by
  refine usesIn_map rfl (fun p ps => ?_) ps
  cases p <;> simp [Node.keyUses, partUses]

@[simp] theorem usesIn_clauses (cs : List Clause) : usesIn (cs.map .clause) = clauseUses cs := by
  refine usesIn_map rfl (fun c cs => ?_) cs
  cases c
  simp [Node.keyUses, clauseUses]

@[simp] theorem usesIn_params (ps : List Param) : usesIn (ps.map .param) = paramUses ps := by
  refine usesIn_map rfl (fun p ps => ?_) ps
  cases p
  simp [Node.keyUses, paramUses]

@[simp] theorem usesIn_handlers (hs : List Handler) :
    usesIn (hs.map .handler) = handlerUses hs := by
  refine usesIn_map rfl (fun h hs => ?_) hs
  cases h
  simp [Node.keyUses, handlerUses]

@[simp] theorem usesIn_cases (cs : List Case) : usesIn (cs.map .case) = caseUses cs := by
  refine usesIn_map rfl (fun c cs => ?_) cs
  cases c
  simp [Node.keyUses, caseUses]

@[simp] theorem usesIn_readAll (es : List Expr) : usesIn (readAll es) = allUses es :=
  usesIn_exprs .read es

@[simp] theorem usesIn_assignedAll (es : List Expr) : usesIn (assignedAll es) = allUses es :=
  usesIn_exprs .assigned es

@[simp] theorem allUses_append (es fs : List Expr) :
    allUses (es ++ fs) = allUses es ++ allUses fs := by
  rw [← usesIn_readAll, readAll, List.map_append, usesIn_append, usesIn_exprs, usesIn_exprs]

@[simp] theorem allUses_optional (e? : Option Expr) : allUses e?.toList = optionUses e? := by
  rw [← usesIn_exprs .read, usesIn_optional]

@[simp] theorem allUses_comparisons (rest : List (CompareOp × Expr)) :
    allUses (rest.map Prod.snd) = comparisonUses rest := by
  rw [← usesIn_exprs .read, List.map_map]
  exact usesIn_map rfl (fun _ _ => rfl) rest

@[simp] theorem allUses_keywords (keywords : List (Option String × Expr)) :
    allUses (keywords.map Prod.snd) = keywordUses keywords := by
  rw [← usesIn_exprs .read, List.map_map]
  exact usesIn_map rfl (fun _ _ => rfl) keywords

@[simp] theorem allUses_entries (entries : List (Option Expr × Expr)) :
    allUses (entries.flatMap fun entry => entry.1.toList ++ [entry.2]) = entryUses entries := by
  induction entries with
  | nil => rfl
  | cons entry entries ih =>
      obtain ⟨key?, value⟩ := entry
      rw [List.flatMap_cons, allUses_append, ih]
      cases key? <;> simp [allUses, entryUses]

@[simp] theorem usesIn_items (items : List (Expr × Option Expr)) :
    usesIn (items.flatMap fun item => readAll [item.1] ++ assignedAll item.2.toList) =
      itemUses items := by
  induction items with
  | nil => rfl
  | cons item items ih =>
      rw [List.flatMap_cons, usesIn_append, ih]
      simp [allUses, itemUses]

/-- The uses in an expression are its own and those in its parts. -/
theorem Expr.keyUses_eq (role : Role) (e : Expr) :
    e.keyUses = (Node.ownUses (.expr role e)).map Prod.snd ++ usesIn (e.children role) := by
  cases e with
  | subscript _ value index =>
      rw [keyUses, Node.ownUses]
      split <;> simp [children, allUses, List.map_map, Function.comp_def]
  | call _ callee args keywords =>
      rw [keyUses, Node.ownUses]
      split <;> simp [children, allUses, List.map_map, Function.comp_def]
  | _ => simp [keyUses, children, Node.ownUses, allUses, Node.keyUses]

theorem Statement.keyUses_eq (s : Statement) : s.keyUses = usesIn s.children := by
  cases s <;> simp [keyUses, children, allUses, Node.keyUses]

/-- **What a search finds in a node** is what the node itself is, and what the search finds in
the nodes right below. -/
theorem Node.keyUses_eq (n : Node) : n.keyUses = n.ownUses.map Prod.snd ++ usesIn n.children := by
  match n with
  | .expr role e => exact e.keyUses_eq role
  | .part (.literal s) => rfl
  | .part (.field _ _ format?) =>
      cases format? <;> simp [keyUses, ownUses, children, partUses, formatUses, allUses]
  | .clause (.mk _ target iterable conditions) =>
      simp [keyUses, ownUses, children, clauseUses, allUses]
  | .param (.mk _ _ _ type? default?) =>
      simp [keyUses, ownUses, children, paramUses]
  | .statement s => exact s.keyUses_eq
  | .function (.mk _ decorators _ params returns? body) =>
      simp [keyUses, ownUses, children, Function.keyUses, Function.head, Function.body]
  | .handler (.mk type? body) => simp [keyUses, ownUses, children, handlerUses]
  | .case (.mk pattern guard? body) => simp [keyUses, ownUses, children, caseUses]

/-! ### The walk -/

/-- The uses of keys that a walk meets, in its order. -/
def usesAlong (ns : List Node) : List KeyUse := ns.flatMap fun n => n.ownUses.map Prod.snd

/-- **A walk meets every use once**, though not in the order of a search. -/
theorem usesAlong_walk (todo : List Node) : (usesAlong (walk todo)).Perm (usesIn todo) := by
  fun_induction walk todo with
  | case1 => exact .refl _
  | case2 n todo ih =>
      have step := n.keyUses_eq
      calc usesAlong (n :: walk (todo ++ n.children))
          = n.ownUses.map Prod.snd ++ usesAlong (walk (todo ++ n.children)) := List.flatMap_cons
        _ ~ n.ownUses.map Prod.snd ++ usesIn (todo ++ n.children) := ih.append_left _
        _ = n.ownUses.map Prod.snd ++ (usesIn todo ++ usesIn n.children) := by rw [usesIn_append]
        _ ~ n.ownUses.map Prod.snd ++ (usesIn n.children ++ usesIn todo) :=
            List.perm_append_comm.append_left _
        _ = usesIn (n :: todo) := by rw [← List.append_assoc, ← step, usesIn_cons]

/-- A walk meets what uses a variable. -/
theorem usedIn_iff {ns : List Node} {place : Place} :
    UsedIn ns role place name ↔ ∃ m ∈ walk ns, (role, ⟨place, name⟩) ∈ m.ownUses := by
  constructor
  · rintro ⟨n, hn, m, inside, uses⟩
    exact ⟨m, mem_walk.mpr ⟨n, hn, inside⟩, mem_ownUses.mpr uses⟩
  · rintro ⟨m, hm, own⟩
    obtain ⟨n, hn, inside⟩ := mem_walk.mp hm
    exact ⟨n, hn, m, inside, mem_ownUses.mp own⟩

theorem mem_usesIn {ns : List Node} : u ∈ usesIn ns ↔ ∃ role, UsedIn ns role u.place u.name := by
  rw [← (usesAlong_walk ns).mem_iff, usesAlong, List.mem_flatMap]
  constructor
  · rintro ⟨m, hm, hu⟩
    obtain ⟨⟨role, _⟩, own, rfl⟩ := List.mem_map.mp hu
    exact ⟨role, usedIn_iff.mpr ⟨m, hm, own⟩⟩
  · rintro ⟨role, used⟩
    obtain ⟨m, hm, own⟩ := usedIn_iff.mp used
    exact ⟨m, hm, List.mem_map.mpr ⟨_, own, rfl⟩⟩

/-- A name is mentioned if a use of it is found. -/
theorem mentions_iff_mem {ns : List Node} : Mentions ns name ↔ name ∈ (usesIn ns).map KeyUse.name := by
  rw [List.mem_map]
  constructor
  · rintro ⟨role, place, used⟩
    exact ⟨⟨place, name⟩, mem_usesIn.mpr ⟨role, used⟩, rfl⟩
  · rintro ⟨u, hu, rfl⟩
    obtain ⟨role, used⟩ := mem_usesIn.mp hu
    exact ⟨role, u.place, used⟩

instance (ns : List Node) (name : String) : Decidable (Mentions ns name) :=
  decidable_of_iff _ mentions_iff_mem.symm

/-! ### Order -/

/-- What uses are ordered by: the line, then the column, then the name. -/
def rank (place : Place) (name : String) : ℕ ×ₗ ℕ ×ₗ String :=
  toLex (place.line, toLex (place.column, name))

def KeyUse.rank (u : KeyUse) : ℕ ×ₗ ℕ ×ₗ String := Code.rank u.place u.name

theorem rank_injective : Function.Injective KeyUse.rank := by
  rintro ⟨⟨line, column⟩, name⟩ ⟨⟨line', column'⟩, name'⟩ same
  obtain ⟨rfl, same⟩ := Prod.mk.inj same
  obtain ⟨rfl, rfl⟩ := Prod.mk.inj same
  rfl

/-- The order of uses is that of their ranks: by line, then by column, then by name. -/
theorem before_iff {a b : KeyUse} : a.before b = true ↔ a.rank ≤ b.rank := by
  have le : a.rank ≤ b.rank ↔ a.place.line < b.place.line ∨ a.place.line = b.place.line ∧
      (a.place.column < b.place.column ∨ a.place.column = b.place.column ∧ a.name ≤ b.name) := by
    unfold KeyUse.rank rank
    rw [Prod.Lex.toLex_le_toLex, Prod.Lex.toLex_le_toLex]
  rw [le, KeyUse.before]
  by_cases line : a.place.line = b.place.line
  · by_cases column : a.place.column = b.place.column
    · rw [if_neg (not_not.mpr line), if_neg (not_not.mpr column), Bool.not_eq_true',
        decide_eq_false_iff_not, not_lt]
      simp [line, column]
    · simp [line, column]
  · simp [line]

def inOrder (us : List KeyUse) : List KeyUse := us.mergeSort KeyUse.before

theorem inOrder_sorted (us : List KeyUse) : (inOrder us).Pairwise fun a b => a.rank ≤ b.rank := by
  have trans (a b c : KeyUse) (ab : a.before b = true) (bc : b.before c = true) :
      a.before c = true :=
    before_iff.mpr (le_trans (before_iff.mp ab) (before_iff.mp bc))
  have total (a b : KeyUse) : (a.before b || b.before a) = true := by
    rw [Bool.or_eq_true, before_iff, before_iff]
    exact le_total _ _
  exact (List.pairwise_mergeSort trans total us).imp before_iff.mp

theorem inOrder_perm (us : List KeyUse) : (inOrder us).Perm us := List.mergeSort_perm _ _

/-- **Sorting forgets the order that the uses had.** -/
theorem inOrder_congr {us vs : List KeyUse} (same : us.Perm vs) : inOrder us = inOrder vs := by
  refine List.Perm.eq_of_pairwise (fun a b _ _ ab ba => rank_injective (le_antisymm ab ba))
    (inOrder_sorted us) (inOrder_sorted vs) ?_
  exact (inOrder_perm us).trans (same.trans (inOrder_perm vs).symm)

/-! ### First uses -/

def firsts : List KeyUse → List KeyUse
  | [] => []
  | u :: us => u :: (firsts us).filter fun v => v.name ≠ u.name

theorem distinct_map (us : List KeyUse) :
    distinct (us.map KeyUse.name) = (firsts us).map KeyUse.name := by
  induction us with
  | nil => rfl
  | cons u us ih =>
      rw [List.map_cons, distinct, ih, firsts, List.map_cons, List.filter_map]
      rfl

theorem firsts_sublist (us : List KeyUse) : (firsts us).Sublist us := by
  induction us with
  | nil => exact .slnil
  | cons u us ih => exact (List.filter_sublist.trans ih).cons_cons u

/-- No name has two first uses. -/
theorem firsts_differ (us : List KeyUse) : (firsts us).Pairwise fun a b => a.name ≠ b.name := by
  induction us with
  | nil => exact .nil
  | cons u us ih =>
      refine .cons (fun v hv => ?_) (ih.filter _)
      exact Ne.symm (by simpa using (List.mem_filter.mp hv).2)

/-- Every name that is used has a first use. -/
theorem exists_first {us : List KeyUse} (h : u ∈ us) : ∃ v ∈ firsts us, v.name = u.name := by
  induction us with
  | nil => cases h
  | cons v us ih =>
      by_cases same : v.name = u.name
      · exact ⟨v, List.mem_cons_self, same⟩
      -- the head is a use of another name, so it strikes nothing with this one out
      · have later : u ∈ us := by
          rcases List.mem_cons.mp h with rfl | h
          · exact absurd rfl same
          · exact h
        obtain ⟨w, hw, name⟩ := ih later
        refine ⟨w, List.mem_cons_of_mem _ (List.mem_filter.mpr ⟨hw, ?_⟩), name⟩
        simpa [name] using Ne.symm same

/-- In a list that is in order the first use of a name comes before its others. -/
theorem firsts_least {us : List KeyUse} (sorted : us.Pairwise fun a b => a.rank ≤ b.rank)
    (hu : u ∈ firsts us) : ∀ v ∈ us, v.name = u.name → u.rank ≤ v.rank := by
  induction sorted with
  | nil => cases hu
  | @cons w us above sorted ih =>
      intro v hv same
      rcases List.mem_cons.mp hu with rfl | hu
      · rcases List.mem_cons.mp hv with rfl | hv
        · exact le_refl _
        · exact above v hv
      · obtain ⟨hu, other⟩ := List.mem_filter.mp hu
        rcases List.mem_cons.mp hv with rfl | hv
        · simp [same] at other
        · exact ih hu v hv same

/-! ### Keys -/

/-- The names that uses have, each at its first use. -/
def namesOf (us : List KeyUse) : List String := distinct ((inOrder us).map KeyUse.name)

theorem namesOf_eq (us : List KeyUse) : namesOf us = (firsts (inOrder us)).map KeyUse.name :=
  distinct_map _

theorem mem_namesOf {us : List KeyUse} : name ∈ namesOf us ↔ name ∈ us.map KeyUse.name := by
  rw [namesOf_eq, List.mem_map, List.mem_map]
  constructor
  · rintro ⟨u, hu, named⟩
    exact ⟨u, (inOrder_perm us).mem_iff.mp ((firsts_sublist _).subset hu), named⟩
  · rintro ⟨u, hu, rfl⟩
    exact exists_first ((inOrder_perm us).mem_iff.mpr hu)

theorem Function.environmentKeys_eq (f : Function) :
    f.environmentKeys = namesOf (usesIn [.function f]) := by
  have uses : usesIn [.function f] = f.keyUses := List.append_nil _
  rw [uses]
  rfl

/-- The keys of a function are the variables that it mentions. -/
theorem Function.mem_environmentKeys {f : Function} :
    name ∈ f.environmentKeys ↔ Mentions [.function f] name := by
  rw [f.environmentKeys_eq, mem_namesOf, mentions_iff_mem]

/-- A variable is used first at a place: it is used there, and nowhere before. -/
structure IsFirst (ns : List Node) (place : Place) (name : String) : Prop where
  used : ∃ role, UsedIn ns role place name
  least : ∀ role other, UsedIn ns role other name → rank place name ≤ rank other name

/-- What comes first in order is the least of its name. -/
theorem isFirst_of_mem {ns : List Node} (h : u ∈ firsts (inOrder (usesIn ns))) :
    IsFirst ns u.place u.name := by
  have mem := (firsts_sublist _).subset h
  refine ⟨mem_usesIn.mp ((inOrder_perm _).mem_iff.mp mem), fun role other used => ?_⟩
  have found : ⟨other, u.name⟩ ∈ inOrder (usesIn ns) :=
    (inOrder_perm _).mem_iff.mpr (mem_usesIn.mpr ⟨role, used⟩)
  exact firsts_least (inOrder_sorted _) h _ found rfl

/-- **The environment variables of a function.** Each name stands there once. A name stands there
exactly if something in the function uses it: at any depth of statements and expressions, of
functions inside and of the decorators and the signature. Names stand in the order of their first
uses, by line, column and name. And the list is the one that a breadth-first walk comes to. -/
theorem environmentKeys_ordered (f : Function) :
    f.environmentKeys.Nodup ∧
    (∀ name, name ∈ f.environmentKeys ↔ Mentions [.function f] name) ∧
    (f.environmentKeys.Pairwise fun a b => ∃ p q, IsFirst [.function f] p a ∧
      IsFirst [.function f] q b ∧ rank p a < rank q b) ∧
    f.environmentKeys = namesOf (usesAlong (walk [.function f])) := by
  have keys := f.environmentKeys_eq
  have firsts := namesOf_eq (usesIn [.function f])
  refine ⟨?_, fun name => f.mem_environmentKeys, ?_, ?_⟩
  · rw [keys, firsts]
    exact List.pairwise_map.mpr (firsts_differ _)
  · rw [keys, firsts, List.pairwise_map]
    -- first uses are in order, and as no two are of one name, strictly so
    have sorted := (inOrder_sorted (usesIn [.function f])).sublist (firsts_sublist _)
    refine (sorted.and (firsts_differ _)).imp_of_mem fun {u v} hu hv ⟨le, differ⟩ => ?_
    refine ⟨u.place, v.place, isFirst_of_mem hu, isFirst_of_mem hv, lt_of_le_of_ne le ?_⟩
    exact fun same => differ (congrArg KeyUse.name (rank_injective same))
  · rw [keys, namesOf, namesOf, inOrder_congr (usesAlong_walk [.function f])]

/-! ### What is done with a variable -/

def Reads (ns : List Node) (name : String) : Prop :=
  ∃ role place, UsedIn ns role place name ∧ role.isRead = true

/-- A statement or an expression within some nodes assigns or deletes a variable. -/
def Stores (ns : List Node) (name : String) : Prop :=
  ∃ role place, UsedIn ns role place name ∧ role.isRead = false

/-- A name is mentioned where it is read or where it is stored. -/
theorem mentions_iff {ns : List Node} : Mentions ns name ↔ Reads ns name ∨ Stores ns name := by
  constructor
  · rintro ⟨role, place, used⟩
    cases read : role.isRead with
    | true => exact .inl ⟨role, place, used, read⟩
    | false => exact .inr ⟨role, place, used, read⟩
  · rintro (⟨role, place, used, -⟩ | ⟨role, place, used, -⟩) <;> exact ⟨role, place, used⟩

theorem mentions_append {ns ms : List Node} :
    Mentions (ns ++ ms) name ↔ Mentions ns name ∨ Mentions ms name := by
  simp only [Mentions, UsedIn, List.mem_append, or_and_right, exists_or]

/-- A function is no use itself. -/
theorem mentions_function (f : Function) :
    Mentions [.function f] name ↔ Mentions (f.head ++ f.body) name := by
  constructor
  · rintro ⟨role, place, n, hn, m, inside, uses⟩
    obtain rfl := List.mem_singleton.mp hn
    rcases within_iff.mp inside with rfl | ⟨c, hc, inside⟩
    · cases uses
    · exact ⟨role, place, c, hc, m, inside, uses⟩
  · rintro ⟨role, place, c, hc, m, inside, uses⟩
    exact ⟨role, place, _, List.mem_singleton_self _, m, within_iff.mpr (.inr ⟨c, hc, inside⟩), uses⟩

theorem reads_iff {ns : List Node} : Reads ns name ↔
    ∃ m ∈ walk ns, ∃ own ∈ m.ownUses, own.1.isRead = true ∧ own.2.name = name := by
  constructor
  · rintro ⟨role, place, used, read⟩
    obtain ⟨m, hm, own⟩ := usedIn_iff.mp used
    exact ⟨m, hm, _, own, read, rfl⟩
  · rintro ⟨m, hm, ⟨role, u⟩, own, read, rfl⟩
    exact ⟨role, u.place, usedIn_iff.mpr ⟨m, hm, own⟩, read⟩

instance (ns : List Node) (name : String) : Decidable (Reads ns name) :=
  decidable_of_iff _ reads_iff.symm

end Docsig.Code
