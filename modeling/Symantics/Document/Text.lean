import Symantics.Capacity
import Symantics.Document.Schema
import Symantics.Json.Reader
import Symantics.Json.Writer

/-
  The text form of trees.

  A tree is written as the JSON text of its document, compact or indented, and read
  from such a text or its UTF-8 bytes. An indent is a number of blanks per level; it
  has to be a count, and that is checked when the document has been made. Whether
  there is room for so many blanks is not asked. Reading has one way to fail: a fault
  that says that the data is malformed, either with the number of issues found or
  with the first reference that leads nowhere. Tags and child counts are not checked
  here.
-/
namespace Symantics

/-- The layout of a text that has an indent: compact if that is null. -/
def Json.Layout.ofIndent (indent : Value) : Except Failure Json.Layout :=
  match indent.integer? with
  | some n =>
    if n < 0 then .error (.misuse .negativeIndent)
    else if Capacity.greatestCount < n then .error (.misuse .hugeIndent)
    else .ok (.indented n.toNat)
  | none => match indent with
    | .null => .ok .compact
    | v => .error (.misuse (.notIndent v.kind))

/-- The text of a tree with an indent. -/
def Tree.write (t : Tree) (indent : Value) : Except Failure String := do
  let document := Document.ofTree t
  let layout ← Json.Layout.ofIndent indent
  return document.toJson.write layout

/-- The text of the tree that a value is. -/
def Value.writeTree (v indent : Value) : Except Failure String := do
  let t ← v.toTree
  t.write indent

namespace Document

def ofText (s : String) : Checked Document :=
  match Json.read? .standard s with
  | some j => ofJson j
  | none => .problem .notJson

def ofBytes (bytes : ByteArray) : Checked Document :=
  match String.fromUTF8? bytes with
  | some s => ofText s
  | none => .problem .notJson

/-- What comes of a document that was checked; issues are a decoding fault of no place. -/
def onChecked {α : Type} (f : Document → Except Failure α) :
    Checked Document → Except Failure α
  | .ok d => f d
  | .error r => .error (.fault ((Defect.notDocument r.length).fault []))

end Document

namespace Tree

def read (s : String) : Except Failure Tree :=
  Document.onChecked Document.toTree (Document.ofText s)

def readBytes (bytes : ByteArray) : Except Failure Tree :=
  Document.onChecked Document.toTree (Document.ofBytes bytes)

end Tree

def Value.readTree (s : String) : Except Failure Value :=
  Document.onChecked Document.toValue (Document.ofText s)

def Value.readTreeBytes (bytes : ByteArray) : Except Failure Value :=
  Document.onChecked Document.toValue (Document.ofBytes bytes)

theorem Value.readTree_eq (s : String) : Value.readTree s = (Tree.read s).map Tree.toValue := by
  simp only [Value.readTree, Tree.read]
  cases Document.ofText s with
  | ok d => exact d.toValue_eq
  | error r => rfl

end Symantics
