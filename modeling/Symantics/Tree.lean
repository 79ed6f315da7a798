import Symantics.Failure

/-
  Generic trees.

  A tree is a leaf with a text or a node with a tag and children; any tag and any
  number of children make a tree. Trees travel among values of other kinds, where
  contents, tags and children may be anything: `Tree.toValue` puts a tree there and
  `Value.toTree` finds it again, or tells the first part, children before their
  node, that is no tree.

  `Value.depth` and `Value.outline` are defined on whatever looks like a tree from
  its root and fail where they meet something else.
-/
namespace Symantics

inductive Tree where
  | leaf (text : String)
  | node (tag : String) (children : List Tree)
  deriving Repr, Inhabited

namespace Tree

mutual

def toValue : Tree → Value
  | leaf text => .leaf (.text text)
  | node tag children => .node (.text tag) (toValues children)

def toValues : List Tree → List Value
  | [] => []
  | t :: ts => toValue t :: toValues ts

end

end Tree

namespace Value

/-- The failure of looking for children where there are none. -/
def childless (v : Value) : Failure := .misuse (.noAttribute v.kind "children")

/-- The text in a field that must hold one. -/
def textIn (field : String) : Value → Except Failure String
  | text s => .ok s
  | _ => .error (.invalid [⟨[field], .notText⟩])

mutual

def toTree : Value → Except Failure Tree
  | leaf content => return .leaf (← content.textIn "text")
  | node tag children => do
    let ts ← toTrees children
    return .node (← tag.textIn "tag") ts
  | v => .error v.childless

def toTrees : List Value → Except Failure (List Tree)
  | [] => .ok []
  | v :: vs => do
    let t ← toTree v
    return t :: (← toTrees vs)

end

mutual

/-- The nodes on the longest path from the root, a leaf counting as one. -/
def depth : Value → Except Failure Nat
  | leaf _ => .ok 1
  | node _ children => return 1 + (← deepest children)
  | v => .error v.childless

def deepest : List Value → Except Failure Nat
  | [] => .ok 0
  | v :: vs => do
    let d ← depth v
    return max d (← deepest vs)

end

/-- Texts joined by blanks; the first value that is no text is told by its index. -/
def joined (vs : List Value) : Except Failure String :=
  (texts 0 vs).map (" ".intercalate ·)
where
  texts (index : Nat) : List Value → Except Failure (List String)
    | [] => .ok []
    | text s :: vs => (texts (index + 1) vs).map (s :: ·)
    | v :: _ => .error (.misuse (.notJoinable index v.kind))

mutual

/-- The tree in parentheses: the tag, then the children. A leaf is its content, of whatever
kind. -/
def outline : Value → Except Failure Value
  | leaf content => .ok content
  | node tag [] => return .text ("(" ++ (← tag.written) ++ ")")
  | node tag (v :: vs) => do
    let first ← outline v
    let rest ← outlines vs
    let inner ← joined (first :: rest)
    return .text ("(" ++ (← tag.written) ++ " " ++ inner ++ ")")
  | v => .error v.childless

def outlines : List Value → Except Failure (List Value)
  | [] => .ok []
  | v :: vs => do
    let first ← outline v
    return first :: (← outlines vs)

end

end Value

end Symantics
