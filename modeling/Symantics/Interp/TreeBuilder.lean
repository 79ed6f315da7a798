import Symantics.Interp.Basic
import Symantics.Tag

/-
  Building trees.

  A term becomes a generic tree: a literal a node over one leaf with its decimal
  text, an operation a node over its operands. Only the text of a literal can fail.
-/
namespace Symantics.Interp

variable {σ : Type}

/-- A node with one of the language's tags. -/
def tagged (t : Tag) (children : List Value) : Value := .node (.text t.word) children

def treeBuilder (tier : Tier) : Interp σ where
  kind := match tier with
    | .base => "TreeBuild"
    | .extended => "TreeMulBuild"
  lit? := some fun v => do
    let text ← Run.ofExcept v.written
    return tagged .lit [.leaf (.text text)]
  neg? := some fun v => return tagged .neg [v]
  add? := some fun v w => return tagged .add [v, w]
  mul? := tier.ifExtended fun v w => return tagged .mul [v, w]

end Symantics.Interp
