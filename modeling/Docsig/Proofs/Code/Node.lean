import Docsig.Code.Environment
import Mathlib.Algebra.BigOperators.Group.List.Basic
import Mathlib.Algebra.Order.Ring.Nat
import Mathlib.Logic.Relation

/-!
The nodes of a program.

Whatever has a place of its own in a program is a `Node`, and the nodes right below one are its
`children`. An expression comes with its role: whether its value is read, or stored in what the
expression names. `Within` says that a node stands anywhere inside another.

* `children_weight_lt`: a node outweighs all its children together, so that a program has
  finitely many nodes.
* `walk` visits them breadth first: its queue starts with some nodes, and the children of each
  one go to the end. It visits what stands within them and nothing else (`mem_walk`).
-/

namespace Docsig.Code

/-! ### Roles -/

/-- What becomes of the value that an expression names. -/
inductive Role where
  | read
  /-- The target of an assignment that first reads the old value. -/
  | updated
  | assigned
  | deleted
  deriving DecidableEq, Repr

def Role.isRead : Role → Bool
  | read | updated => true
  | assigned | deleted => false

/-! ### Nodes -/

inductive Node where
  | expr (role : Role) (e : Expr)
  | part (p : TextPart)
  | clause (c : Clause)
  | param (p : Param)
  | statement (s : Statement)
  | function (f : Function)
  | handler (h : Handler)
  | case (c : Case)

def readAll (es : List Expr) : List Node := es.map (.expr .read)

def assignedAll (es : List Expr) : List Node := es.map (.expr .assigned)

def block (ss : List Statement) : List Node := ss.map .statement

/-- The nodes right below an expression. The items of a target are targets. -/
def Expr.children (role : Role) : Expr → List Node
  | .constant _ _ | .name _ _ => []
  | .joined _ parts => parts.map .part
  | .list _ items | .tuple _ items => items.map (.expr role)
  | .set _ items | .boolean _ _ items => readAll items
  | .dict _ entries => readAll (entries.flatMap fun entry => entry.1.toList ++ [entry.2])
  | .comprehension _ _ element clauses => readAll [element] ++ clauses.map .clause
  | .dictComprehension _ key value clauses => readAll [key, value] ++ clauses.map .clause
  | .unary _ _ e | .await _ e | .yieldFrom _ e | .access _ e _ => readAll [e]
  | .binary _ left _ right | .subscript _ left right => readAll [left, right]
  | .compare _ left rest => readAll (left :: rest.map Prod.snd)
  | .conditional _ test body otherwise => readAll [test, body, otherwise]
  | .lambda _ params body => params.map .param ++ readAll [body]
  | .named _ target value => assignedAll [target] ++ readAll [value]
  | .starred _ value => [.expr role value]
  | .yield _ value? => readAll value?.toList
  | .slice _ lower? upper? step? => readAll (lower?.toList ++ upper?.toList ++ step?.toList)
  | .call _ callee args keywords => readAll (callee :: args ++ keywords.map Prod.snd)

def Statement.children : Statement → List Node
  | .define f => [.function f]
  | .classDef decorators _ args keywords body =>
      readAll (decorators ++ args ++ keywords.map Prod.snd) ++ block body
  | .expression e => readAll [e]
  | .assign targets value => assignedAll targets ++ readAll [value]
  | .annotated target type value? =>
      assignedAll [target] ++ readAll (type :: value?.toList)
  | .augmented target _ value => .expr .updated target :: readAll [value]
  | .delete targets => targets.map (.expr .deleted)
  | .leave parts => readAll parts
  | .plain => []
  | .branch test body otherwise | .loop test body otherwise =>
      readAll [test] ++ block body ++ block otherwise
  | .iterate target iterable body otherwise =>
      assignedAll [target] ++ readAll [iterable] ++ block body ++ block otherwise
  | .withItems items body =>
      (items.flatMap fun item => readAll [item.1] ++ assignedAll item.2.toList) ++ block body
  | .guarded body handlers otherwise final =>
      block body ++ handlers.map .handler ++ block otherwise ++ block final
  | .select subject cases => readAll [subject] ++ cases.map .case

/-- The nodes in front of the body of a function: its decorators and its signature. -/
def Function.head : Function → List Node
  | .mk _ decorators _ params returns? _ =>
      readAll decorators ++ params.map .param ++ readAll returns?.toList

def Function.body : Function → List Node
  | .mk _ _ _ _ _ body => block body

def Node.children : Node → List Node
  | .expr role e => e.children role
  | .part (.literal _) => []
  | .part (.field value _ format?) => readAll [value] ++ (format?.getD []).map .part
  | .clause (.mk _ target iterable conditions) =>
      assignedAll [target] ++ readAll (iterable :: conditions)
  | .param (.mk _ _ _ type? default?) => readAll (type?.toList ++ default?.toList)
  | .statement s => s.children
  | .function f => f.head ++ f.body
  | .handler (.mk type? body) => readAll type?.toList ++ block body
  | .case (.mk pattern guard? body) => readAll (pattern ++ guard?.toList) ++ block body

/-- A node stands within another: it is that node, or stands within one of its children. -/
def Within : Node → Node → Prop := Relation.ReflTransGen fun n m => m ∈ n.children

/-- What is within a node is the node or is within one of its parts. -/
theorem within_iff {n m : Node} : Within n m ↔ m = n ∨ ∃ c ∈ n.children, Within c m := by
  rw [Within, Relation.ReflTransGen.cases_head_iff, eq_comm]

/-! ### Weights -/

/-- The size of the part that a node is. -/
@[simp] noncomputable def Node.weight : Node → Nat
  | .expr _ e => sizeOf e
  | .part p => sizeOf p
  | .clause c => sizeOf c
  | .param p => sizeOf p
  | .statement s => sizeOf s
  | .function f => sizeOf f
  | .handler h => sizeOf h
  | .case c => sizeOf c

noncomputable def weights (ns : List Node) : Nat := (ns.map Node.weight).sum

@[simp] theorem weights_nil : weights [] = 0 := rfl

@[simp] theorem weights_cons (n : Node) (ns : List Node) :
    weights (n :: ns) = n.weight + weights ns := rfl

@[simp] theorem weights_append (ns ms : List Node) :
    weights (ns ++ ms) = weights ns + weights ms := by
  simp [weights]

/-- A list is larger than its items together. -/
theorem weights_map_lt {α : Type} [SizeOf α] {f : α → Node} (h : ∀ a, (f a).weight = sizeOf a)
    (xs : List α) : weights (xs.map f) < sizeOf xs := by
  induction xs with
  | nil => simp
  | cons x xs ih =>
      rw [List.map_cons, weights_cons, h, List.cons.sizeOf_spec]
      omega

theorem weights_exprs (role : Role) (es : List Expr) : weights (es.map (.expr role)) < sizeOf es :=
  weights_map_lt (fun _ => rfl) es

theorem weights_block (ss : List Statement) : weights (block ss) < sizeOf ss :=
  weights_map_lt (fun _ => rfl) ss

theorem weights_optional (role : Role) (e? : Option Expr) :
    weights (e?.toList.map (.expr role)) < sizeOf e? := by
  cases e? <;> simp

theorem weights_entries (entries : List (Option Expr × Expr)) :
    weights (readAll (entries.flatMap fun entry => entry.1.toList ++ [entry.2])) <
      sizeOf entries := by
  induction entries with
  | nil => simp [readAll]
  | cons entry entries ih =>
      obtain ⟨key?, value⟩ := entry
      have key := weights_optional .read key?
      simp [readAll] at ih key ⊢
      omega

/-- Pairs whose second part is an expression are comparisons and keyword arguments. -/
theorem weights_second {α : Type} [SizeOf α] (pairs : List (α × Expr)) :
    weights (readAll (pairs.map Prod.snd)) < sizeOf pairs := by
  induction pairs with
  | nil => simp [readAll]
  | cons pair pairs ih =>
      obtain ⟨a, e⟩ := pair
      simp [readAll] at ih ⊢
      omega

theorem weights_items (items : List (Expr × Option Expr)) :
    weights (items.flatMap fun item => readAll [item.1] ++ assignedAll item.2.toList) <
      sizeOf items := by
  induction items with
  | nil => simp
  | cons item items ih =>
      obtain ⟨e, target?⟩ := item
      have target := weights_optional .assigned target?
      simp [readAll, assignedAll] at ih target ⊢
      omega

/-- An expression outweighs what stands right below it. -/
theorem Expr.children_weight_lt (role : Role) (e : Expr) : weights (e.children role) < sizeOf e := by
  -- one case for each form of expression: each part is smaller, and so are the parts of a list
  -- together
  cases e with
  | constant | name => simp [children]
  | joined _ parts =>
      have := weights_map_lt (f := .part) (fun _ => rfl) parts
      simp [children]
      omega
  | list _ items | tuple _ items =>
      have := weights_exprs role items
      simp [children]
      omega
  | set _ items | boolean _ _ items =>
      have := weights_exprs .read items
      simp [children, readAll]
      omega
  | dict _ entries =>
      have := weights_entries entries
      simp [children]
      omega
  | comprehension _ _ _ clauses | dictComprehension _ _ _ clauses =>
      have := weights_map_lt (f := .clause) (fun _ => rfl) clauses
      simp [children, readAll]
      omega
  | unary | await | yieldFrom | access | binary | subscript | conditional | named | starred =>
      simp [children, readAll, assignedAll] <;> omega
  | compare _ _ rest =>
      have := weights_second rest
      simp [children, readAll] at this ⊢
      omega
  | lambda _ params _ =>
      have := weights_map_lt (f := .param) (fun _ => rfl) params
      simp [children, readAll]
      omega
  | yield _ value? =>
      have := weights_optional .read value?
      simp [children, readAll]
      omega
  | slice _ lower? upper? step? =>
      have lower := weights_optional .read lower?
      have upper := weights_optional .read upper?
      have step := weights_optional .read step?
      simp [children, readAll]
      omega
  | call _ _ args keywords =>
      have positional := weights_exprs .read args
      have named := weights_second keywords
      simp [children, readAll] at named ⊢
      omega

/-- A statement outweighs what stands right below it. -/
theorem Statement.children_weight_lt (s : Statement) : weights s.children < sizeOf s := by
  -- one case for each form of statement: the parts of all its lists and blocks count together
  cases s with
  | define | plain => simp [children]
  | expression => simp [children, readAll]
  | augmented => simp [children, readAll]; omega
  | classDef decorators _ args keywords body =>
      have first := weights_exprs .read decorators
      have second := weights_exprs .read args
      have third := weights_second keywords
      have last := weights_block body
      simp [children, readAll] at third ⊢
      omega
  | assign targets =>
      have := weights_exprs .assigned targets
      simp [children, readAll, assignedAll]
      omega
  | annotated _ _ value? =>
      have := weights_optional .read value?
      simp [children, readAll, assignedAll]
      omega
  | delete targets =>
      have := weights_exprs .deleted targets
      simp [children]
      omega
  | leave parts =>
      have := weights_exprs .read parts
      simp [children, readAll]
      omega
  | branch _ body otherwise | loop _ body otherwise | iterate _ _ body otherwise =>
      have first := weights_block body
      have second := weights_block otherwise
      simp [children, readAll, assignedAll]
      omega
  | withItems items body =>
      have first := weights_items items
      have second := weights_block body
      simp [children] at first ⊢
      omega
  | guarded body handlers otherwise final =>
      have first := weights_block body
      have second := weights_map_lt (f := .handler) (fun _ => rfl) handlers
      have third := weights_block otherwise
      have last := weights_block final
      simp [children]
      omega
  | select _ cases =>
      have := weights_map_lt (f := .case) (fun _ => rfl) cases
      simp [children, readAll]
      omega

/-- **A node outweighs all its children together.** -/
theorem Node.children_weight_lt (n : Node) : weights n.children < n.weight := by
  match n with
  | .expr role e => exact e.children_weight_lt role
  | .part (.literal s) => simp [children]
  | .part (.field _ _ format?) =>
      cases format? with
      | none => simp [children, readAll]; omega
      | some parts =>
          have := weights_map_lt (f := .part) (fun _ => rfl) parts
          simp [children, readAll]
          omega
  | .clause (.mk _ _ _ conditions) =>
      have := weights_exprs .read conditions
      simp [children, readAll, assignedAll]
      omega
  | .param (.mk _ _ _ type? default?) =>
      have first := weights_optional .read type?
      have second := weights_optional .read default?
      simp [children, readAll]
      omega
  | .statement s => exact s.children_weight_lt
  | .function (.mk _ decorators _ params returns? body) =>
      have first := weights_exprs .read decorators
      have second := weights_map_lt (f := .param) (fun _ => rfl) params
      have third := weights_optional .read returns?
      have last := weights_block body
      simp [children, Function.head, Function.body, readAll]
      omega
  | .handler (.mk type? body) =>
      have first := weights_optional .read type?
      have second := weights_block body
      simp [children, readAll]
      omega
  | .case (.mk pattern guard? body) =>
      have first := weights_exprs .read pattern
      have second := weights_optional .read guard?
      have third := weights_block body
      simp [children, readAll]
      omega

/-! ### The walk -/

/-- The nodes within some nodes, breadth first. -/
def walk : List Node → List Node
  | [] => []
  | n :: todo => n :: walk (todo ++ n.children)
termination_by todo => weights todo
decreasing_by
  have := n.children_weight_lt
  simp only [weights_append, weights_cons]
  omega

/-- **A walk visits what stands within the nodes that it starts with, and nothing else.** -/
theorem mem_walk {m : Node} {todo : List Node} : m ∈ walk todo ↔ ∃ n ∈ todo, Within n m := by
  fun_induction walk todo with
  | case1 => simp
  | case2 n todo ih =>
      rw [List.mem_cons, ih]
      constructor
      · rintro (rfl | ⟨c, hc, inside⟩)
        · exact ⟨m, List.mem_cons_self, .refl⟩
        · rcases List.mem_append.mp hc with hc | hc
          · exact ⟨c, List.mem_cons_of_mem _ hc, inside⟩
          · exact ⟨n, List.mem_cons_self, within_iff.mpr (.inr ⟨c, hc, inside⟩)⟩
      · rintro ⟨c, hc, inside⟩
        rcases List.mem_cons.mp hc with rfl | hc
        · rcases within_iff.mp inside with rfl | ⟨d, hd, inside⟩
          · exact .inl rfl
          · exact .inr ⟨d, List.mem_append_right _ hd, inside⟩
        · exact .inr ⟨c, List.mem_append_left _ hc, inside⟩

end Docsig.Code
