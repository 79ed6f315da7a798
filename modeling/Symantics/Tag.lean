/-
  Tags.

  The four node tags of the language's trees, their words, and how many children
  each takes. Multiplication belongs to the extended tier only.
-/
namespace Symantics

inductive Tag where
  | lit
  | neg
  | add
  | mul
  deriving DecidableEq, Repr

namespace Tag

def word : Tag → String
  | lit => "Lit"
  | neg => "Neg"
  | add => "Add"
  | mul => "Mul"

def name : Tag → String
  | lit => "LIT"
  | neg => "NEG"
  | add => "ADD"
  | mul => "MUL"

def ofWord? : String → Option Tag
  | "Lit" => some lit
  | "Neg" => some neg
  | "Add" => some add
  | "Mul" => some mul
  | _ => none

/-- How many children a node with the tag has. -/
def arity : Tag → Nat
  | lit | neg => 1
  | add | mul => 2

def isBase : Tag → Bool
  | lit | neg | add => true
  | mul => false

theorem ofWord?_word (t : Tag) : ofWord? t.word = some t := by cases t <;> rfl

theorem word_of_ofWord? {s : String} {t : Tag} (h : ofWord? s = some t) : s = t.word := by
  unfold ofWord? at h
  split at h <;> cases h <;> rfl

end Tag

end Symantics
