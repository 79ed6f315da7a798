import Symantics.Decoder.Defect
import Symantics.Failure
import Symantics.Tree

/-
  Documents.

  A document is a tree as a flat list of entries: a leaf's text, or a node's tag with
  the indexes of its children among the earlier entries. The last entry is the root.
  `ofTree` lists the nodes of a tree children before their node, left to right;
  `toTree` unfolds the last entry. Entries may be shared or left out by the entries
  after them, and then the tree of the document lists differently.

  Unfolding takes each entry once, whatever it is read as; `unfolded?_map` carries one
  reading over to another, and `toValue_eq` says that a document is the same tree
  whether it is read as a tree or as a value.
-/
namespace Symantics

inductive Entry where
  | leaf (text : String)
  | node (tag : String) (children : List Int)
  deriving DecidableEq, Repr

/-- Entries in order; there is always a last one. -/
structure Document where
  earlier : List Entry
  last : Entry
  deriving DecidableEq, Repr

namespace Document

def entries (d : Document) : List Entry := d.earlier ++ [d.last]

/-- The document with some entries, unless there are none. -/
def ofEntries? : List Entry → Option Document
  | [] => none
  | e :: es => some ⟨(e :: es).dropLast, (e :: es).getLast (List.cons_ne_nil e es)⟩

mutual

/-- The document of a tree that is listed from index `first` on. -/
def listed (first : Nat) : Tree → Document
  | .leaf text => ⟨[], .leaf text⟩
  | .node tag children =>
    let (below, indexes) := listedAll first children
    ⟨below, .node tag indexes⟩

/-- The entries of several trees that are listed from index `first` on, and the indexes of
their roots. -/
def listedAll (first : Nat) : List Tree → List Entry × List Int
  | [] => ([], [])
  | t :: ts =>
    let entries := (listed first t).entries
    let next := first + entries.length
    let (rest, indexes) := listedAll next ts
    (entries ++ rest, (next - 1 : Nat) :: indexes)

end

def ofTree (t : Tree) : Document := listed 0 t

/-- What a leaf is read as, and a node whose children have been read. -/
structure Reading (α : Type) where
  leaf : String → α
  node : String → List α → α

/-- Entries read as trees. -/
def Reading.tree : Reading Tree := ⟨.leaf, .node⟩

/-- Entries read as trees among values. An entry with several parents is one value under all of
them, so a document is never read as more values than it has entries. -/
def Reading.value : Reading Value where
  leaf text := .leaf (.text text)
  node tag := .node (.text tag)

section

variable {α β : Type}

/-- What an index stands for, which must be that of an earlier entry. -/
def child (built : Array α) (index : Int) : Except Defect α :=
  if h : 0 ≤ index ∧ index < built.size then .ok built[index.toNat]
  else .error (.badReference built.size index)

/-- What an entry is read as, given the earlier entries. -/
def unfold (r : Reading α) (built : Array α) : Entry → Except Defect α
  | .leaf text => .ok (r.leaf text)
  | .node tag children => (children.mapM (child built)).map (r.node tag)

/-- What entries are read as, each given those before it. -/
def unfoldAll (r : Reading α) (built : Array α) : List Entry → Except Defect (Array α)
  | [] => .ok built
  | e :: es => do
    let a ← unfold r built e
    unfoldAll r (built.push a) es

/-- What the last entry is read as, or the first reference, entry by entry, that leads nowhere. -/
def unfolded? (r : Reading α) (d : Document) : Except Defect α := do
  let built ← unfoldAll r #[] d.earlier
  unfold r built d.last

/-- What a defect is reported as: a decoding fault of no place. The message shows the index of a
reference, so one with too many digits to be shown is a misuse. -/
def failure : Defect → Failure
  | .badReference entry target =>
    if Decimal.fits target then .fault ((Defect.badReference entry target).fault [])
    else .misuse .tooManyDigits
  | defect => .fault (defect.fault [])

def orFault : Except Defect α → Except Failure α
  | .ok a => .ok a
  | .error defect => .error (failure defect)

theorem child_map (f : α → β) (built : Array α) (index : Int) :
    child (built.map f) index = (child built index).map f := by
  unfold child
  by_cases h : 0 ≤ index ∧ index < built.size <;> simp [h, Except.map]

theorem children_map (f : α → β) (built : Array α) (indexes : List Int) :
    indexes.mapM (child (built.map f)) = (indexes.mapM (child built)).map (List.map f) := by
  induction indexes with
  | nil => rfl
  | cons i is ih =>
    rw [List.mapM_cons, List.mapM_cons, ih, child_map]
    cases child built i with
    | error => rfl
    | ok a => cases is.mapM (child built) <;> rfl

/-- One reading turns into another where leaves and nodes do. -/
structure Reading.Maps (f : α → β) (r : Reading α) (q : Reading β) : Prop where
  leaf : ∀ text, f (r.leaf text) = q.leaf text
  node : ∀ tag parts, f (r.node tag parts) = q.node tag (parts.map f)

variable {f : α → β} {r : Reading α} {q : Reading β}

theorem unfold_map (h : r.Maps f q) (built : Array α) (e : Entry) :
    unfold q (built.map f) e = (unfold r built e).map f := by
  cases e with
  | leaf text => simp [unfold, Except.map, h.leaf]
  | node tag children =>
    simp only [unfold, children_map]
    cases children.mapM (child built) <;> simp [Except.map, h.node]

theorem unfoldAll_map (h : r.Maps f q) (es : List Entry) (built : Array α) :
    unfoldAll q (built.map f) es = (unfoldAll r built es).map (Array.map f) := by
  induction es generalizing built with
  | nil => rfl
  | cons e es ih =>
    simp only [unfoldAll, unfold_map h]
    cases unfold r built e with
    | error => rfl
    | ok a =>
      have := ih (built.push a)
      rw [Array.map_push] at this
      exact this

theorem unfolded?_map (h : r.Maps f q) (d : Document) :
    d.unfolded? q = (d.unfolded? r).map f := by
  have start := unfoldAll_map h d.earlier #[]
  rw [Array.map_empty] at start
  simp only [unfolded?, start]
  cases unfoldAll r #[] d.earlier with
  | error => rfl
  | ok built => exact unfold_map h built d.last

end

theorem Reading.value_of_tree : Reading.tree.Maps Tree.toValue .value where
  leaf _ := rfl
  node tag ts := by
    have each : ∀ us : List Tree, Tree.toValues us = us.map Tree.toValue := fun us => by
      induction us with
      | nil => rfl
      | cons u us ih => simp [Tree.toValues, ih]
    simp [Reading.tree, Reading.value, Tree.toValue, each]

/-- The tree of a document, or the first reference, entry by entry, that leads nowhere. -/
def toTree? (d : Document) : Except Defect Tree := d.unfolded? .tree

def toTree (d : Document) : Except Failure Tree := orFault d.toTree?

def toValue (d : Document) : Except Failure Value := orFault (d.unfolded? .value)

theorem toValue_eq (d : Document) : d.toValue = d.toTree.map Tree.toValue := by
  simp only [toValue, toTree, toTree?, unfolded?_map Reading.value_of_tree]
  cases d.unfolded? .tree <;> rfl

end Document

end Symantics
