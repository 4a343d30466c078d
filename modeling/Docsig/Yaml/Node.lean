import Docsig.Yaml.Token

/-!
Nodes of a YAML text.

The tokens of a document form one node: a scalar, a sequence or a mapping. Where
a node is missing, an empty plain scalar stands for it. In a flow sequence a
pair of key and value is a mapping of its own. A text has at most one document.
-/

namespace Docsig.Yaml

inductive Node where
  | scalar (plain : Bool) (text : String)
  | sequence (items : List Node)
  | mapping (pairs : List (Node × Node))
  deriving Repr, Inhabited

namespace Node

/-- The node that stands for a missing one. -/
def empty : Node := scalar true ""

/-- A node that is read and the tokens behind it. -/
abbrev Read := Except Fault (Node × List Token)

/-! ### What comes next -/

/-- Whether no item follows the mark of one in a block sequence. -/
def endsBlockItem : List Token → Bool
  | .blockEntry :: _ => true
  | .blockEnd :: _ => true
  | _ => false

/-- Whether no node follows the mark of a key or a value in a block mapping. -/
def endsBlockPart : List Token → Bool
  | .key :: _ => true
  | .value :: _ => true
  | .blockEnd :: _ => true
  | _ => false

/-- Whether no item follows the mark of one in a sequence without an indentation
of its own. -/
def endsLooseItem (ts : List Token) : Bool := endsBlockItem ts || endsBlockPart ts

/-- Whether no value follows a colon between brackets that this token closes. -/
def endsFlowValue (closing : Token) : List Token → Bool
  | t :: _ => t == .flowEntry || t == closing
  | [] => false

/-- Whether no key follows the mark of one between such brackets. -/
def endsFlowKey (closing : Token) : List Token → Bool
  | .value :: _ => true
  | ts => endsFlowValue closing ts

/-- The tokens behind the comma between items; none is due before the first
one. -/
def afterComma (isFirst : Bool) (ts : List Token) : Except Fault (List Token) :=
  if isFirst then .ok ts
  else
    match ts with
    | .flowEntry :: ts => .ok ts
    | _ => .error .malformed

/-! ### Reading -/

mutual

/-- A node; `n` bounds the depth of the calls. Block collections and sequences
without an indentation of their own are read where they are allowed. -/
def read (block loose : Bool) : Nat → List Token → Read
  | 0, _ => .error .malformed
  | n + 1, ts =>
      match ts with
      | .scalar plain text :: ts => .ok (scalar plain text, ts)
      | .flowSequenceStart :: ts => readFlowItems n true [] ts
      | .flowMappingStart :: ts => readFlowPairs n true [] ts
      | .blockSequenceStart :: ts => if block then readItems n [] ts else .error .malformed
      | .blockMappingStart :: ts => if block then readPairs n [] ts else .error .malformed
      | .blockEntry :: _ => if loose then readLooseItems n [] ts else .error .malformed
      | _ => .error .malformed

/-- A node, unless none follows. -/
def readUnless (missing : Bool) (block loose : Bool) : Nat → List Token → Read
  | 0, _ => .error .malformed
  | n + 1, ts => if missing then .ok (empty, ts) else read block loose n ts

/-- The items of a block sequence; `items` are the ones so far, last first. -/
def readItems : Nat → List Node → List Token → Read
  | 0, _, _ => .error .malformed
  | n + 1, items, ts =>
      match ts with
      | .blockEntry :: ts => do
          let (item, ts) ← readUnless (endsBlockItem ts) true false n ts
          readItems n (item :: items) ts
      | .blockEnd :: ts => .ok (sequence items.reverse, ts)
      | _ => .error .malformed

/-- The items of a sequence without an indentation of its own. -/
def readLooseItems : Nat → List Node → List Token → Read
  | 0, _, _ => .error .malformed
  | n + 1, items, ts =>
      match ts with
      | .blockEntry :: ts => do
          let (item, ts) ← readUnless (endsLooseItem ts) true false n ts
          readLooseItems n (item :: items) ts
      | ts => .ok (sequence items.reverse, ts)

def readPairs : Nat → List (Node × Node) → List Token → Read
  | 0, _, _ => .error .malformed
  | n + 1, pairs, ts =>
      match ts with
      | .key :: ts => do
          let (key, ts) ← readUnless (endsBlockPart ts) true true n ts
          readPairValue n pairs key ts
      | .blockEnd :: ts => .ok (mapping pairs.reverse, ts)
      | _ => .error .malformed

/-- The value of a pair and the pairs behind it. -/
def readPairValue : Nat → List (Node × Node) → Node → List Token → Read
  | 0, _, _, _ => .error .malformed
  | n + 1, pairs, key, ts =>
      match ts with
      | .value :: ts => do
          let (value, ts) ← readUnless (endsBlockPart ts) true true n ts
          readPairs n ((key, value) :: pairs) ts
      | ts => readPairs n ((key, empty) :: pairs) ts

def readFlowItems : Nat → Bool → List Node → List Token → Read
  | 0, _, _, _ => .error .malformed
  | n + 1, isFirst, items, ts =>
      match ts with
      | .flowSequenceEnd :: ts => .ok (sequence items.reverse, ts)
      | ts => do
          match ← afterComma isFirst ts with
          | .key :: ts => do
              let (key, ts) ← readUnless (endsFlowKey .flowSequenceEnd ts) false false n ts
              let (value, ts) ← readFlowValue .flowSequenceEnd n ts
              readFlowItems n false (mapping [(key, value)] :: items) ts
          | .flowSequenceEnd :: ts => .ok (sequence items.reverse, ts)
          | ts => do
              let (item, ts) ← read false false n ts
              readFlowItems n false (item :: items) ts

def readFlowPairs : Nat → Bool → List (Node × Node) → List Token → Read
  | 0, _, _, _ => .error .malformed
  | n + 1, isFirst, pairs, ts =>
      match ts with
      | .flowMappingEnd :: ts => .ok (mapping pairs.reverse, ts)
      | ts => do
          match ← afterComma isFirst ts with
          | .key :: ts => do
              let (key, ts) ← readUnless (endsFlowKey .flowMappingEnd ts) false false n ts
              let (value, ts) ← readFlowValue .flowMappingEnd n ts
              readFlowPairs n false ((key, value) :: pairs) ts
          | .flowMappingEnd :: ts => .ok (mapping pairs.reverse, ts)
          | ts => do
              let (key, ts) ← read false false n ts
              readFlowPairs n false ((key, empty) :: pairs) ts

/-- The value after a key between brackets; without a colon it is missing. -/
def readFlowValue (closing : Token) : Nat → List Token → Read
  | 0, _ => .error .malformed
  | n + 1, ts =>
      match ts with
      | .value :: ts => readUnless (endsFlowValue closing ts) false false n ts
      | ts => .ok (empty, ts)

end

/-- Whether nothing stands between the start of a document and its end. -/
def endsDocument : List Token → Bool
  | [] => true
  | .documentStart :: _ => true
  | .documentEnd :: _ => true
  | _ => false

/-- The node of the only document; none if there is no document. -/
def ofTokens (ts : List Token) : Except Fault (Option Node) :=
  let depth := 4 * ts.length + 4
  let whole (r : Read) : Except Fault (Option Node) := do
    let (node, ts) ← r
    if ts.all (· == .documentEnd) then return some node else throw .malformed
  match ts with
  | [] => .ok none
  | .documentStart :: ts => whole (readUnless (endsDocument ts) true false depth ts)
  | ts => whole (read true false depth ts)

end Node

end Docsig.Yaml
