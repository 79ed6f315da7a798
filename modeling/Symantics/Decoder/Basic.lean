import Symantics.Decoder.Defect
import Symantics.Interp.Basic
import Symantics.Tag

/-
  Decoding trees.

  A decoder replays a tree as calls on an interpretation. It holds a table of rules,
  one for each tag it knows, and a greatest depth. An operator rule calls the
  interpretation with the decoded children; a raw rule gets the children undecoded,
  with the path of their node. Children are decoded left to right before their node,
  and the first defect met ends the decoding.

  A table is a list of tags with their rules, and the first rule for a tag counts;
  extending a decoder puts the new rules in front.
-/
namespace Symantics

variable {σ : Type}

/-- What a rule does with the children of a node. -/
inductive Rule.Action (σ : Type) where
  | operator (build : Interp σ → List Value → Run σ Value)
  | raw (build : Interp σ → List Value → Path → Run σ Value)

/-- How a node with so many children becomes calls on an interpretation. A table might also ask
for a negative number of children, and no node would have it; that is not expressed here. -/
structure Rule (σ : Type) where
  arity : Nat
  action : Rule.Action σ

abbrev Rules (σ : Type) := List (String × Rule σ)

namespace Rules

/-- The tags of a table, sorted. -/
def tags (rules : Rules σ) : List String :=
  (rules.map (·.1)).eraseDups.mergeSort (· ≤ ·)

end Rules

namespace Rule

/-- The misuse of a rule with a number of children that is not its arity. -/
def miscounted {α : Type} (expected : Nat) (children : List Value) : Run σ α :=
  if children.length < expected then .misuse (.tooFewParts expected children.length)
  else .misuse (.tooManyParts expected)

/-- What stands where a literal's leaf is expected, if it is no integer text: the content of a
leaf, or the kind of anything else in angle brackets. -/
def offered : Value → Value
  | .leaf .null => .text "<Leaf>"
  | .leaf content => content
  | v => .text ("<" ++ v.kind ++ ">")

/-- The integer of a literal's leaf. -/
def literal (path : Path) (v : Value) : Run σ Int :=
  match v with
  | .leaf (.text s) => match Decimal.read s with
    | .ok n => pure n
    | .error .tooLong => .fault ((Defect.longLiteral s.length).fault path)
    | .error .malformed => refuse
  | _ => refuse
where
  refuse : Run σ Int := do
    let shown ← Run.ofExcept (offered v).shown
    .fault ((Defect.invalidLiteral shown).fault path)

def lit : Rule σ where
  arity := Tag.lit.arity
  action := .raw fun I children path =>
    match children with
    | [v] => do
      let n ← literal path v
      I.litOf n
    | vs => miscounted 1 vs

def unary (call : Interp σ → Value → Run σ Value) : Rule σ where
  arity := 1
  action := .operator fun I values =>
    match values with
    | [v] => call I v
    | vs => miscounted 1 vs

def binary (call : Interp σ → Value → Value → Run σ Value) : Rule σ where
  arity := 2
  action := .operator fun I values =>
    match values with
    | [v, w] => call I v w
    | vs => miscounted 2 vs

def neg : Rule σ := unary fun I v => do (← I.neg) v

def add : Rule σ := binary fun I v w => do (← I.add) v w

/-- A product is refused when the interpretation has no multiplication. -/
def mul : Rule σ := binary fun I v w => do
  I.requireMul
  (← I.mul) v w

end Rule

namespace Rules

def base : Rules σ :=
  [(Tag.lit.word, Rule.lit), (Tag.neg.word, Rule.neg), (Tag.add.word, Rule.add)]

def mul : Rules σ := [(Tag.mul.word, Rule.mul)]

end Rules

/-- A table of rules and the greatest depth at which a node may stand, the root's being 1. -/
structure Decoder (σ : Type) where
  rules : Rules σ
  maxDepth : Nat
  one_le : 1 ≤ maxDepth

namespace Decoder

/-- The depth that decoders allow unless told otherwise. -/
def standardDepth : Int := 500

/-- A decoder with a table, if the depth allows a node at all. -/
def ofRules (rules : Rules σ) (maxDepth : Int := standardDepth) : Except Failure (Decoder σ) :=
  if h : 1 ≤ maxDepth then .ok ⟨rules, maxDepth.toNat, by omega⟩
  else .error (.misuse (.showing maxDepth (.tooShallow maxDepth)))

def tags (d : Decoder σ) : List String := d.rules.tags

/-- A decoder that also knows the tags of `rules`; where both know a tag, `rules` count. -/
def extend (d : Decoder σ) (rules : Rules σ) : Decoder σ := { d with rules := rules ++ d.rules }

def base (maxDepth : Int := standardDepth) : Except Failure (Decoder σ) :=
  ofRules Rules.base maxDepth

/-- The decoder of the extended tier: that of the base tier, extended. -/
def extended (maxDepth : Int := standardDepth) : Except Failure (Decoder σ) :=
  (base maxDepth).map (·.extend Rules.mul)

def ofTier : Tier → Int → Except Failure (Decoder σ)
  | .base, maxDepth => base maxDepth
  | .extended, maxDepth => extended maxDepth

/-- Ends the decoding with a defect. -/
def reject {α : Type} (path : Path) (d : Defect) : Run σ α := .fault (d.fault path)

/-- Applies `f` to each value with its index, from left to right. -/
def eachIndexed {α β : Type} (f : Nat → α → Run σ β) : Nat → List α → Run σ (List β)
  | _, [] => pure []
  | index, a :: as => do
    let b ← f index a
    return b :: (← eachIndexed f (index + 1) as)

/-- The rule for a node, if it is one that the decoder can decode. -/
def ruleFor (d : Decoder σ) (path : Path) (tag : Value) (children : List Value) :
    Run σ (Rule σ) :=
  match tag with
  | .text word => match d.rules.lookup word with
    | none => reject path (.unknownTag word (Text.quoted word) d.tags)
    | some rule =>
      if children.length = rule.arity then pure rule
      else reject path (.wrongArity word rule.arity children.length)
  | tag => reject path (.tagNotText tag.kind)

/-- Decodes what stands at a path, with so many levels left for it and what is below. -/
def decodeAt (d : Decoder σ) (I : Interp σ) : Nat → Path → Value → Run σ Value
  | 0, path, _ => reject path (.tooDeep d.maxDepth)
  | _ + 1, path, .leaf content => do
    let shown ← Run.ofExcept content.shown
    reject path (.unexpectedLeaf shown)
  | levels + 1, path, .node tag children => do
    let rule ← d.ruleFor path tag children
    match rule.action with
    | .raw build => build I children path
    | .operator build => do
      let values ← eachIndexed (fun index => decodeAt d I levels (path ++ [index])) 0 children
      build I values
  | _ + 1, path, v => reject path (.notTree v.kind)

def decode (d : Decoder σ) (tree : Value) (I : Interp σ) : Run σ Value :=
  decodeAt d I d.maxDepth [] tree

/-- A decoded value, or the fault that a tree was rejected with. -/
abbrev Outcome := Except Fault Value

/-- Decodes a tree; a decoding fault becomes part of the outcome, and any other failure stays
one. -/
def attempt (d : Decoder σ) (tree : Value) (I : Interp σ) : Run σ Outcome :=
  tryCatch (return .ok (← d.decode tree I)) fun
    | .fault f => if f.isDecoding then return .error f else throw (.fault f)
    | e => throw e

end Decoder

end Symantics
