import Docsig.Code.Token

/-!
Reading tokens.

A reader moves over tokens, never back, and remembers the furthest one that it has
looked at: where no rule applies, that token is the one that is wrong. A reader may
also raise a fault at a line of its own; alternatives are not tried after that.
-/

namespace Docsig.Code.Parser

/-- Where a reader stands. -/
structure State where
  rest : List Token
  /-- The number of tokens before the rest. -/
  index : Nat
  /-- The number of the furthest token looked at. -/
  far : Nat
  /-- Whether faults with a line of their own are looked for. -/
  explain : Bool
  /-- A bound on the tokens left, for loops. -/
  bound : Nat
  /-- The number of brackets open after the last token that was read. -/
  depth : Nat := 0
  deriving Repr

/-- Why a reader fails: the furthest token that was looked at, and the line of a
fault that was raised. -/
structure Failure where
  far : Nat
  line? : Option Nat
  deriving DecidableEq, Repr

/-- A reader. What it leaves of the tokens is the end of what it found. -/
structure Reader (α : Type) where
  run : State → Except Failure (α × State)
  moves : ∀ {s a t}, run s = .ok (a, t) → t.rest <:+ s.rest

namespace Reader

variable {α β : Type}

/-- Reads nothing. -/
def give (a : α) : Reader α where
  run s := .ok (a, s)
  moves := by
    rintro s _ t ⟨⟩
    exact List.suffix_refl _

/-- Reads with one reader and then with another. -/
def andThen (p : Reader α) (f : α → Reader β) : Reader β where
  run s :=
    match p.run s with
    | .ok (a, t) => (f a).run t
    | .error e => .error e
  moves := by
    intro s b u h
    split at h
    · rename_i first
      exact ((f _).moves h).trans (p.moves first)
    · cases h

instance : Monad Reader where
  pure := give
  bind := andThen

end Reader

/-! ### Single tokens -/

/-- The token that stands where there is none. -/
def noToken : Token := ⟨.fault, ⟨0, 0⟩, 0⟩

/-- The next token, which stays. -/
def peek : Reader Token where
  run s := .ok (s.rest.headD noToken, { s with far := max s.far s.index })
  moves := by
    rintro s _ t ⟨⟩
    exact List.suffix_refl _

def place : Reader Place := do return (← peek).place

/-- Moves past the next token. -/
def advance : Reader Unit where
  run s := .ok ((), { s with rest := s.rest.drop 1, index := s.index + 1,
                             depth := (s.rest.headD noToken).depth })
  moves := by
    rintro s _ t ⟨⟩
    exact List.drop_suffix 1 s.rest

/-- No rule applies. -/
def fail {α : Type} : Reader α where
  run s := .error ⟨s.far, none⟩
  moves := by rintro s a t ⟨⟩

def raise {α : Type} (line : Nat) : Reader α where
  run s := .error ⟨s.far, some line⟩
  moves := by rintro s a t ⟨⟩

/-- A bound on the tokens left. -/
def bound : Reader Nat where
  run s := .ok (s.bound, s)
  moves := by
    rintro s _ t ⟨⟩
    exact List.suffix_refl _

def atMark (s : String) : Reader Bool := do return (← peek).isMark s

def atWord (w : String) : Reader Bool := do return (← peek).isWord w

/-- Whether the next token is of a kind without content. -/
def atKind (k : TokenKind) : Reader Bool := do return (← peek).kind == k

/-- Moves past a mark if it is next. -/
def takeMark (s : String) : Reader Bool := do
  if ← atMark s then
    advance
    return true
  else return false

def takeWord (w : String) : Reader Bool := do
  if ← atWord w then
    advance
    return true
  else return false

/-- Moves past a token of a kind if it is next. -/
def takeKind (k : TokenKind) : Reader Bool := do
  if ← atKind k then
    advance
    return true
  else return false

/-- Moves past a mark, which has to be next. -/
def mark (s : String) : Reader Unit := do if ← takeMark s then pure () else fail

def word (w : String) : Reader Unit := do if ← takeWord w then pure () else fail

/-- Moves past a token of a kind, which has to be next. -/
def kind (k : TokenKind) : Reader Unit := do if ← takeKind k then pure () else fail

def ident : Reader String := do
  match (← peek).name? with
  | some id =>
      advance
      return id
  | none => fail

/-! ### Alternatives -/

/-- Tries a reader; where no rule applies, nothing has been read. -/
def attempt {α : Type} (p : Reader α) : Reader (Option α) where
  run s :=
    match p.run s with
    | .ok (a, t) => .ok (some a, t)
    | .error ⟨far, none⟩ => .ok (none, { s with far := max s.far far })
    | .error f => .error f
  moves := by
    intro s a t h
    split at h <;> cases h
    · rename_i found
      exact p.moves found
    · exact List.suffix_refl _

/-- The first reader that applies. -/
def orElse {α : Type} (p q : Reader α) : Reader α := do
  match ← attempt p with
  | some a => return a
  | none => q

/-- Whether a reader applies here; nothing is read. -/
def ahead {α : Type} (p : Reader α) : Reader Bool where
  run s :=
    match p.run s with
    | .ok (_, t) => .ok (true, { s with far := max s.far t.far })
    | .error ⟨far, none⟩ => .ok (false, { s with far := max s.far far })
    | .error f => .error f
  moves := by
    intro s a t h
    split at h <;> cases h <;> exact List.suffix_refl _

/-- The number of open brackets after what a reader would read here, if it
applies; nothing is read. -/
def depthAhead {α : Type} (p : Reader α) : Reader (Option Nat) where
  run s :=
    match p.run s with
    | .ok (_, t) => .ok (some t.depth, { s with far := max s.far t.far })
    | .error ⟨far, none⟩ => .ok (none, { s with far := max s.far far })
    | .error f => .error f
  moves := by
    intro s a t h
    split at h <;> cases h <;> exact List.suffix_refl _

/-- Whether faults with a line of their own are looked for. -/
def explaining : Reader Bool where
  run s := .ok (s.explain, s)
  moves := by
    rintro s _ t ⟨⟩
    exact List.suffix_refl _

/-- Runs a reader without looking for such faults. -/
def quietly {α : Type} (p : Reader α) : Reader α where
  run s :=
    match p.run { s with explain := false } with
    | .ok (a, t) => .ok (a, { t with explain := s.explain })
    | .error f => .error f
  moves := by
    intro s a t h
    split at h <;> cases h
    rename_i found
    have left := p.moves found
    exact left

/-! ### Repetition -/

/-- Reads on while a reader gives something, at most so many times. -/
def manyUpTo {α : Type} (p : Reader (Option α)) : Nat → Reader (List α)
  | 0 => pure []
  | n + 1 => do
      match ← p with
      | some a => return a :: (← manyUpTo p n)
      | none => return []

/-- Reads on while a reader gives something. -/
def many {α : Type} (p : Reader (Option α)) : Reader (List α) := do
  manyUpTo p (← bound)

/-- Extends a value while a reader does so, at most so many times. -/
def extendUpTo {α : Type} (p : α → Reader (Option α)) : Nat → α → Reader α
  | 0, a => pure a
  | n + 1, a => do
      match ← p a with
      | some b => extendUpTo p n b
      | none => return a

/-- Extends a value while a reader does so. -/
def extend {α : Type} (p : α → Reader (Option α)) (a : α) : Reader α := do
  extendUpTo p (← bound) a

/-- Reads what follows a comma, if there is one. -/
def afterComma {α : Type} (p : Reader α) : Reader (Option α) := do
  if ← takeMark "," then return some (← p) else return none

/-- Reads one or more items with commas between them. -/
def commaSeparated {α : Type} (p : Reader α) : Reader (List α) := do
  let first ← p
  return first :: (← many (afterComma p))

/-- Reads items in front of each of which a comma stands, at most so many. Also
gives whether a comma without an item ends them. -/
def commaTail {α : Type} (p : Reader α) : Nat → Reader (List α × Bool)
  | 0 => pure ([], false)
  | n + 1 => do
      if ← takeMark "," then
        match ← attempt p with
        | some a =>
            let (rest, open?) ← commaTail p n
            return (a :: rest, open?)
        | none => return ([], true)
      else return ([], false)

/-- Reads one or more items with commas between them; a comma may follow the last
one. Also gives whether there is any comma. -/
def commaList {α : Type} (p : Reader α) : Reader (List α × Bool) := do
  let first ← p
  let (rest, trailing) ← commaTail p (← bound)
  return (first :: rest, trailing || !rest.isEmpty)

/-! ### Whole sources -/

/-- The line that a failure is reported on. A source that cannot be read at all
is reported where that shows, a bracket that is never closed where it opens, and
anything else at the furthest token or where the fault was raised. -/
def Failure.line (f : Failure) (ts : Tokens) : Nat :=
  let token := ts.items.getD f.far (ts.items.getLastD noToken)
  let here := ts.reported token.place.line
  let raised := ts.reported (f.line?.getD token.place.line)
  if token.kind = .fault && f.line?.isNone then
    match ts.ending with
    | .unclosed => ts.openLines.headD here
    | _ => here
  else if token.kind = .indent && f.line?.isNone then here
  else
    match ts.ending with
    | .broken line => line
    | _ =>
        match ts.openLines with
        | opened :: _ => if opened < here then opened else raised
        | [] => raised

def State.start (ts : Tokens) (explain : Bool) : State :=
  { rest := ts.items, index := 0, far := 0, explain := explain, bound := ts.items.length }

/-- What a reader makes of some tokens, or the line of the fault. Where no rule
applies, faults with a line of their own are looked for. -/
def parse {α : Type} (ts : Tokens) (p : Reader α) : Except Nat α :=
  match p.run (State.start ts false) with
  | .ok (a, _) => .ok a
  | .error ⟨far, some line⟩ => .error (Failure.line ⟨far, some line⟩ ts)
  | .error ⟨far, none⟩ =>
      match p.run (State.start ts true) with
      | .error ⟨far, some line⟩ => .error (Failure.line ⟨far, some line⟩ ts)
      | _ => .error (Failure.line ⟨far, none⟩ ts)

end Docsig.Code.Parser
