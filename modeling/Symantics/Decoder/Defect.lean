import Symantics.Fault
import Symantics.Value.Basic

/-
  Defects of a tree.

  What a decoder may find wrong at a position of a tree, and how each defect is
  reported: by a code, the tag it concerns (if the node's tag was recognised as
  text and looked up), and a message.
-/
namespace Symantics

inductive Defect where
  -- The position lies deeper than the decoder goes.
  | tooDeep (limit : Nat)
  -- A leaf stands where an expression is expected; its content as quoted.
  | unexpectedLeaf (shown : String)
  | notTree (kind : String)
  | tagNotText (kind : String)
  -- The tag, its quoted form, and the tags that the decoder knows.
  | unknownTag (tag shown : String) (known : List String)
  | wrongArity (tag : String) (expected found : Nat)
  -- The child of a literal is no integer leaf; what it is, as quoted.
  | invalidLiteral (shown : String)
  -- A literal's text of this length has too many digits.
  | longLiteral (length : Nat)
  -- The data is no tree document, for so many reasons.
  | notDocument (issues : Nat)
  -- An entry of a document refers to one that does not come before it.
  | badReference (entry : Nat) (target : Int)
  deriving DecidableEq, Repr

namespace Defect

def code : Defect → String
  | tooDeep _ => "DEPTH_EXCEEDED"
  | unexpectedLeaf _ => "UNEXPECTED_LEAF"
  | notTree _ | tagNotText _ | notDocument _ | badReference _ _ => "MALFORMED_TREE"
  | unknownTag _ _ _ => "UNKNOWN_TAG"
  | wrongArity _ _ _ => "WRONG_ARITY"
  | invalidLiteral _ | longLiteral _ => "INVALID_LITERAL"

def tag : Defect → Option String
  | unknownTag tag _ _ | wrongArity tag _ _ => some tag
  | invalidLiteral _ | longLiteral _ => some "Lit"
  | _ => none

/-- The failure that made the defect known, if one did. -/
def cause : Defect → Option Cause
  | longLiteral _ => some .digits
  | notDocument _ => some .report
  | _ => none

def message : Defect → String
  | tooDeep limit => "Tree nesting exceeds max depth " ++ toString limit
  | unexpectedLeaf shown => "Expected an expression node, got leaf " ++ shown
  | notTree kind => "Expected a tree, got " ++ kind
  | tagNotText kind => "Node tag must be a string, got " ++ kind
  | unknownTag _ shown known =>
    "Unrecognized tag " ++ shown ++ "; expected one of " ++ ", ".intercalate known
  | wrongArity tag expected found =>
    tag ++ " takes " ++ toString expected ++ " child(ren), got " ++ toString found
  | invalidLiteral shown => "Lit expects an integer leaf, got " ++ shown
  | longLiteral length => "Lit text has too many digits (" ++ toString length ++ ")"
  | notDocument issues =>
    "Not a tree document: " ++ toString issues ++ " validation error(s)"
  | badReference entry target =>
    "Entry " ++ toString entry ++ " refers to entry " ++ toString target ++
      "; children must point at earlier entries"

/-- The fault that reports a defect at a path. -/
def fault (d : Defect) (path : Path) : Fault :=
  .decoding d.message d.code d.tag path {} d.cause

end Defect

end Symantics
