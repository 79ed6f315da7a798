import Symantics.Proofs.Grammar
import Symantics.Tree

/-
  Where a tree is defective.

  `Check` lists what a decoder checks at a position, in order, and `Check.Fails` says
  of each check when it fails. A position is looked at when every node above it is an
  operation with no defect of its own; of the failing checks at such positions, the
  first is that of the least path, and there that of the least rank. Paths are ordered
  as words: a node comes before its children, and those come from left to right.

  The failure that ends the reading of a tree is that of the first failing check
  (`reading_ending`), and a reading that does not end in a failure has none.
-/
namespace Symantics

namespace Value

def children : Value → List Value
  | node _ cs => cs
  | _ => []

/-- What stands at a path. -/
def at? (v : Value) : Path → Option Value
  | [] => some v
  | i :: p => match v.children[i]? with
    | some c => c.at? p
    | none => none

/-- Every leaf of a tree can be shown. -/
def LeavesShown (v : Value) : Prop :=
  ∀ p content, v.at? p = some (leaf content) → content.shown?.isSome = true

/-- Every leaf of a tree holds a text. -/
def TextLeaves (v : Value) : Prop :=
  ∀ p content, v.at? p = some (leaf content) → ∃ s, content = text s

theorem TextLeaves.leavesShown {v : Value} (h : v.TextLeaves) : v.LeavesShown := by
  intro p content hp
  obtain ⟨s, rfl⟩ := h p content hp
  rfl

end Value

/-- What a decoder checks at a position, in this order. -/
inductive Check where
  | depth
  | notLeaf
  | tree
  | tagText
  | known
  | arity
  | literal
  deriving DecidableEq, Repr

namespace Check

def rank : Check → Nat
  | depth => 0
  | notLeaf => 1
  | tree => 2
  | tagText => 3
  | known => 4
  | arity => 5
  | literal => 6

/-- The code that a failing check is reported with. -/
def code : Check → String
  | depth => "DEPTH_EXCEEDED"
  | notLeaf => "UNEXPECTED_LEAF"
  | tree => "MALFORMED_TREE"
  | tagText => "MALFORMED_TREE"
  | known => "UNKNOWN_TAG"
  | arity => "WRONG_ARITY"
  | literal => "INVALID_LITERAL"

/-- The tag that a failing check is reported with, at a node with that tag. -/
def tag (v : Value) : Check → Option String
  | depth | notLeaf | tree | tagText => none
  | known | arity | literal => match v with
    | .node (.text word) _ => some word
    | _ => none

/-- When a check fails at a path where `v` stands, with `levels` levels allowed. -/
def Fails (tier : Tier) (levels : Nat) (p : Path) (v : Value) : Check → Prop
  | depth => p.length = levels
  | notLeaf => ∃ content, v = .leaf content
  | tree => (∀ content, v ≠ .leaf content) ∧ ∀ tag children, v ≠ .node tag children
  | tagText => ∃ tag children, v = .node tag children ∧ ∀ word, tag ≠ .text word
  | known => ∃ word children, v = .node (.text word) children ∧
      ∀ t, tier.has t = true → word ≠ t.word
  | arity => ∃ t children, v = Interp.tagged t children ∧ tier.has t = true ∧
      children.length ≠ t.arity
  | literal => ∃ c, v = Interp.tagged .lit [c] ∧
      ∀ s n, c = .leaf (.text s) → ¬ Decimal.Numeral s.toList n

end Check

/-- An operation of the tier on as many operands as it takes, not too deep. -/
def IsOperation (tier : Tier) (levels : Nat) (p : Path) (v : Value) : Prop :=
  (∃ t cs, v = Interp.tagged t cs ∧ t ≠ .lit) ∧ ∀ c : Check, ¬ c.Fails tier levels p v

/-- A check that fails at a position all of whose ancestors are operations without a defect. -/
structure Defective (tier : Tier) (levels : Nat) (t : Value) (p : Path) (v : Value) (c : Check) :
    Prop where
  there : t.at? p = some v
  above : ∀ q, q <+: p → q ≠ p → ∃ w, t.at? q = some w ∧ IsOperation tier levels q w
  fails : c.Fails tier levels p v

/-- The first failing check: at the least path, and there the first in order. -/
structure FirstDefect (tier : Tier) (levels : Nat) (t : Value) (p : Path) (v : Value) (c : Check) :
    Prop extends Defective tier levels t p v c where
  first : ∀ d : Check, d.rank < c.rank → ¬ d.Fails tier levels p v
  least : ∀ q w d, Defective tier levels t q w d → ¬ List.Lex (· < ·) q p

/-! ## The checks at one position -/

theorem Tag.word_injective {t u : Tag} (h : t.word = u.word) : t = u :=
  Option.some.inj ((ofWord?_word t).symm.trans (h ▸ ofWord?_word u))

theorem Interp.tagged_inj {t u : Tag} {cs ds : List Value} :
    Interp.tagged t cs = Interp.tagged u ds ↔ t = u ∧ cs = ds := by
  constructor
  · intro h
    simp only [Interp.tagged, Value.node.injEq, Value.text.injEq] at h
    exact ⟨Tag.word_injective h.1, h.2⟩
  · intro h
    obtain ⟨rfl, rfl⟩ := h
    rfl

/-- The child of a literal is refused as a literal. -/
theorem Value.code_of_numeral {v : Value} {d : Defect} (h : v.numeral = .error (.ok d)) :
    d.code = "INVALID_LITERAL" ∧ d.tag = some "Lit" := by
  have refused : (Rule.offered v).shown.map .invalidLiteral = .ok d →
      d.code = "INVALID_LITERAL" ∧ d.tag = some "Lit" := by
    intro hd
    cases hs : (Rule.offered v).shown with
    | error e => rw [hs] at hd; cases hd
    | ok shown => rw [hs] at hd; cases hd; exact ⟨rfl, rfl⟩
  by_cases ht : ∃ s, v = .leaf (.text s)
  · obtain ⟨s, rfl⟩ := ht
    simp only [numeral] at h
    rcases hr : Decimal.read s with (_ | _) | n <;> simp only [hr] at h
    · exact refused (Except.error.inj h)
    · cases h
      exact ⟨rfl, rfl⟩
    · cases h
  · rw [numeral_of_not_text (not_exists.mp ht)] at h
    exact refused (Except.error.inj h)

namespace Check

variable {tier : Tier} {levels : Nat} {p : Path}

/-- A node with a tag of the tier can only fail for its children. -/
theorem fails_tagged {t : Tag} (ht : tier.has t = true) (cs : List Value) {c : Check}
    (hc : c ≠ .depth) : c.Fails tier levels p (Interp.tagged t cs) ↔
      (c = .arity ∧ cs.length ≠ t.arity) ∨
      (c = .literal ∧ t = .lit ∧ ∃ v, cs = [v] ∧ ∀ n, v.numeral ≠ .ok n) := by
  cases c with
  | depth => exact absurd rfl hc
  | notLeaf => simp [Fails, Interp.tagged]
  | tree => simp [Fails, Interp.tagged]
  | tagText => simp [Fails, Interp.tagged]
  | known =>
    -- the tag is known, as it belongs to the tier
    suffices ¬ known.Fails tier levels p (Interp.tagged t cs) by simp [this]
    intro h
    obtain ⟨word, children, h, hw⟩ := h
    simp only [Interp.tagged, Value.node.injEq, Value.text.injEq] at h
    exact hw t ht h.1.symm
  | arity =>
    simp only [Fails, Interp.tagged_inj]
    constructor
    · intro h
      obtain ⟨u, ds, ⟨rfl, rfl⟩, -, h⟩ := h
      exact .inl ⟨trivial, h⟩
    · intro h
      obtain ⟨-, h⟩ | ⟨h, -⟩ := h
      · exact ⟨t, cs, ⟨rfl, rfl⟩, ht, h⟩
      · cases h
  | literal =>
    simp only [Fails, Interp.tagged_inj]
    constructor
    · intro h
      obtain ⟨v, ⟨rfl, rfl⟩, h⟩ := h
      refine .inr ⟨trivial, rfl, v, rfl, ?_⟩
      intro n hn
      obtain ⟨s, hs, hn⟩ := Value.numeral_eq_ok.mp hn
      exact h s n hs hn
    · intro h
      obtain ⟨h, -⟩ | ⟨-, rfl, v, rfl, h⟩ := h
      · cases h
      · exact ⟨v, ⟨rfl, rfl⟩, fun s n hs hn => h n (Value.numeral_eq_ok.mpr ⟨s, hs, hn⟩)⟩

/-- A position with a shape of the language fails no check but that of its depth. -/
theorem not_fails {v : Value} {s : Shape} (hs : Value.Shaped tier v s) (hf : ∀ f, s ≠ .flawed f)
    {c : Check} (hc : c ≠ .depth) : ¬ c.Fails tier levels p v := by
  intro h
  cases hs with
  | lit hv =>
    rcases (fails_tagged tier.has_lit _ hc).mp h with ⟨-, h⟩ | ⟨-, -, w, hw, h⟩
    · exact h rfl
    · cases hw
      exact h _ hv
  | neg c =>
    rcases (fails_tagged tier.has_neg _ hc).mp h with ⟨-, h⟩ | ⟨-, h, -⟩
    · exact h rfl
    · cases h
  | add l r =>
    rcases (fails_tagged tier.has_add _ hc).mp h with ⟨-, h⟩ | ⟨-, h, -⟩
    · exact h rfl
    · cases h
  | mul l r ht =>
    have has : tier.has .mul = true := by rw [ht]; rfl
    rcases (fails_tagged has _ hc).mp h with ⟨-, h⟩ | ⟨-, h, -⟩
    · exact h rfl
    · cases h
  | _ => exact hf _ rfl

/-- A flawed position fails one check, apart from that of its depth, and the flaw is reported with
the code and the tag of that check. -/
theorem fails_flawed {v : Value} {f : Flaw} (hs : Value.Shaped tier v (.flawed f)) :
    ∃ c : Check, c ≠ .depth ∧
      (∀ d : Check, d ≠ .depth → ∀ levels p, d.Fails tier levels p v ↔ d = c) ∧
      ∀ defect, f = .ok defect → defect.code = c.code ∧ defect.tag = c.tag v := by
  cases hs with
  | leaf content =>
    refine ⟨.notLeaf, by decide, ?_, ?_⟩
    · intro d hd levels p
      cases d <;> simp_all [Fails, Interp.tagged]
    · intro defect h
      cases hc : content.shown with
      | error e => rw [hc] at h; cases h
      | ok shown => rw [hc] at h; cases h; exact ⟨rfl, rfl⟩
  | notTree hl hn =>
    refine ⟨.tree, by decide, ?_, ?_⟩
    · intro d hd levels p
      cases d <;> simp_all [Fails, Interp.tagged]
    · intro defect h
      cases h
      exact ⟨rfl, rfl⟩
  | @tagNotText tag children ht =>
    refine ⟨.tagText, by decide, ?_, ?_⟩
    · intro d hd levels p
      cases d <;> simp_all [Fails, Interp.tagged]
    · intro defect h
      cases h
      exact ⟨rfl, rfl⟩
  | @unknownTag word children hw =>
    have other : ∀ t, tier.has t = true → word ≠ t.word := by
      intro t ht h
      subst h
      rw [Tier.tag?_word ht] at hw
      cases hw
    refine ⟨.known, by decide, ?_, ?_⟩
    · intro d hd levels p
      cases d <;> simp_all [Fails, Interp.tagged]
      · exact fun t h ht => absurd h (other t ht)
      · exact fun v h => absurd h (other .lit tier.has_lit)
    · intro defect h
      cases h
      exact ⟨rfl, rfl⟩
  | @wrongArity t children ht hc =>
    refine ⟨.arity, by decide, ?_, ?_⟩
    · intro d hd levels p
      rw [fails_tagged ht children hd]
      constructor
      · intro h
        obtain ⟨h, -⟩ | ⟨-, rfl, v, rfl, -⟩ := h
        · exact h
        · exact absurd rfl hc
      · intro h
        exact .inl ⟨h, hc⟩
    · intro defect h
      cases h
      exact ⟨rfl, rfl⟩
  | @badLit w f hv =>
    refine ⟨.literal, by decide, ?_, ?_⟩
    · intro d hd levels p
      rw [fails_tagged tier.has_lit _ hd]
      constructor
      · intro h
        obtain ⟨-, h⟩ | ⟨h, -⟩ := h
        · exact absurd rfl h
        · exact h
      · intro h
        refine .inr ⟨h, rfl, w, rfl, ?_⟩
        intro n hn
        rw [hv] at hn
        cases hn
    · intro defect h
      subst h
      exact Value.code_of_numeral hv

end Check

/-! ## Positions below a node -/

section

variable {tier : Tier} {levels i : Nat} {p : Path} {t u v : Value} {c : Check}

theorem Check.fails_cons : c.Fails tier (levels + 1) (i :: p) v ↔ c.Fails tier levels p v := by
  cases c with
  | depth => exact Nat.succ_inj
  | _ => exact Iff.rfl

theorem isOperation_cons :
    IsOperation tier (levels + 1) (i :: p) v ↔ IsOperation tier levels p v := by
  simp only [IsOperation, Check.fails_cons]

theorem Value.at?_cons (hu : t.children[i]? = some u) : t.at? (i :: p) = u.at? p := by
  rw [at?, hu]

theorem Value.LeavesShown.child (h : t.LeavesShown) (hu : t.children[i]? = some u) :
    u.LeavesShown :=
  fun p content hp => h (i :: p) content ((at?_cons hu).trans hp)

theorem Value.LeavesShown.operand {tag : Tag} {cs : List Value}
    (h : (Interp.tagged tag cs).LeavesShown) (hv : v ∈ cs) : v.LeavesShown := by
  obtain ⟨i, hi⟩ := List.mem_iff_getElem?.mp hv
  exact h.child hi

theorem Tree.toValues_eq_map (ts : List Tree) : Tree.toValues ts = ts.map Tree.toValue := by
  induction ts with
  | nil => rfl
  | cons t ts ih => rw [Tree.toValues, ih, List.map_cons]

/-- In a tree proper there are only trees. -/
theorem Tree.exists_of_at? {t : Tree} (h : t.toValue.at? p = some v) :
    ∃ u : Tree, v = u.toValue := by
  induction p generalizing t with
  | nil => exact ⟨t, (Option.some.inj h).symm⟩
  | cons i p ih =>
    cases t with
    | leaf text => cases h
    | node tag ts =>
      simp only [Value.at?, toValue, Value.children, toValues_eq_map, List.getElem?_map] at h
      cases hu : ts[i]? with
      | none => simp [hu] at h
      | some u =>
        have below : u.toValue.at? p = some v := by simpa [hu] using h
        exact ih below

/-- The leaves of a tree proper hold texts. -/
theorem Tree.textLeaves (t : Tree) : t.toValue.TextLeaves := by
  intro p content h
  obtain ⟨u, hu⟩ := exists_of_at? h
  cases u with
  | leaf text =>
    cases hu
    exact ⟨text, rfl⟩
  | node tag ts => cases hu

theorem Tree.leavesShown (t : Tree) : t.toValue.LeavesShown := t.textLeaves.leavesShown

theorem defective_nil : Defective tier levels t [] v c ↔ v = t ∧ c.Fails tier levels [] t := by
  constructor
  · intro h
    obtain rfl : t = v := Option.some.inj h.there
    exact ⟨rfl, h.fails⟩
  · intro h
    obtain ⟨rfl, h⟩ := h
    refine ⟨rfl, ?_, h⟩
    intro q hq hne
    exact absurd (List.prefix_nil.mp hq) hne

/-- Below an operation, the defective positions are those of its children. -/
theorem defective_cons : Defective tier (levels + 1) t (i :: p) v c ↔
    IsOperation tier (levels + 1) [] t ∧
      ∃ u, t.children[i]? = some u ∧ Defective tier levels u p v c := by
  constructor
  · intro h
    have root : IsOperation tier (levels + 1) [] t := by
      obtain ⟨w, hw, ho⟩ := h.above [] List.nil_prefix (List.cons_ne_nil i p).symm
      cases hw
      exact ho
    cases hu : t.children[i]? with
    | none =>
      have := h.there
      simp [Value.at?, hu] at this
    | some u =>
      have there : u.at? p = some v := (Value.at?_cons hu).symm.trans h.there
      refine ⟨root, u, rfl, there, ?_, Check.fails_cons.mp h.fails⟩
      intro q hq hne
      obtain ⟨w, hw, ho⟩ := h.above (i :: q) ((List.prefix_cons_inj i).mpr hq) (by simpa using hne)
      exact ⟨w, (Value.at?_cons hu).symm.trans hw, isOperation_cons.mp ho⟩
  · intro h
    obtain ⟨root, u, hu, h⟩ := h
    have there : t.at? (i :: p) = some v := (Value.at?_cons hu).trans h.there
    refine ⟨there, ?_, Check.fails_cons.mpr h.fails⟩
    intro q hq hne
    cases q with
    | nil => exact ⟨t, rfl, root⟩
    | cons j q =>
      obtain ⟨rfl, hq'⟩ := List.cons_prefix_cons.mp hq
      obtain ⟨w, hw, ho⟩ := h.above q hq' (by simpa using hne)
      exact ⟨w, (Value.at?_cons hu).trans hw, isOperation_cons.mpr ho⟩

/-- A defect of the root is the first of all when it is the first there. -/
theorem FirstDefect.root (h : c.Fails tier levels [] t)
    (first : ∀ d : Check, d.rank < c.rank → ¬ d.Fails tier levels [] t) :
    FirstDefect tier levels t [] t c :=
  ⟨defective_nil.mpr ⟨rfl, h⟩, first, fun _ _ _ _ => List.not_lex_nil⟩

/-- The first defect of a child is that of the whole when the children before it have none. -/
theorem FirstDefect.below (ho : IsOperation tier (levels + 1) [] t)
    (hu : t.children[i]? = some u)
    (before : ∀ j < i, ∀ u', t.children[j]? = some u' → ∀ q w d, ¬ Defective tier levels u' q w d)
    (h : FirstDefect tier levels u p v c) : FirstDefect tier (levels + 1) t (i :: p) v c := by
  refine ⟨defective_cons.mpr ⟨ho, u, hu, h.toDefective⟩, ?_, ?_⟩
  · intro d hd hf
    exact h.first d hd (Check.fails_cons.mp hf)
  · -- a position that comes before is the root, in an earlier child, or earlier in this one
    intro q w d hq hlex
    cases q with
    | nil => exact ho.2 d (defective_nil.mp hq).2
    | cons j q =>
      obtain ⟨-, u', hu', hq'⟩ := defective_cons.mp hq
      rcases List.cons_lex_cons_iff.mp hlex with hji | ⟨rfl, hqp⟩
      · exact before j hji u' hu' q w d hq'
      · obtain rfl : u = u' := Option.some.inj (hu.symm.trans hu')
        exact h.least q w d hq' hqp

end

/-! ## The failure that ends a reading -/

/-- A failure that reports the first defect of the tree that stands at `path`. -/
def Reported (tier : Tier) (levels : Nat) (t : Value) (path : Path) (f : Failure) : Prop :=
  ∃ (p : Path) (v : Value) (c : Check) (d : Defect), FirstDefect tier levels t p v c ∧
    d.code = c.code ∧ d.tag = c.tag v ∧ f = .fault (d.fault (path ++ p))

section

variable {tier : Tier} {levels i : Nat} {path p : Path} {t u v : Value} {c : Check} {f : Failure}

/-- What is refused as a literal can be shown. -/
theorem Value.offered_shown (hv : v.LeavesShown) : (Rule.offered v).shown?.isSome = true := by
  cases v with
  | leaf content =>
    cases content with
    | null => rfl
    | _ => exact hv [] _ rfl
  | _ => rfl

theorem Value.defect_of_numeral {f : Flaw} (h : v.numeral = .error f) (hv : v.LeavesShown) :
    ∃ d, f = .ok d := by
  obtain ⟨quoted, hq⟩ := Option.isSome_iff_exists.mp (offered_shown hv)
  have refused : ((Rule.offered v).shown.map .invalidLiteral : Flaw) =
      .ok (.invalidLiteral quoted) := by
    rw [Value.shown, hq]
    rfl
  by_cases ht : ∃ s, v = .leaf (.text s)
  · obtain ⟨s, rfl⟩ := ht
    simp only [numeral] at h
    rcases hr : Decimal.read s with (_ | _) | n <;> simp only [hr] at h
    · exact ⟨_, (Except.error.inj h).symm.trans refused⟩
    · exact ⟨_, (Except.error.inj h).symm⟩
    · cases h
  · rw [numeral_of_not_text (not_exists.mp ht)] at h
    exact ⟨_, (Except.error.inj h).symm.trans refused⟩

/-- A flaw of a tree whose leaves can be shown is a defect. -/
theorem defect_of_flawed {f : Flaw} (hs : Value.Shaped tier v (.flawed f))
    (hv : v.LeavesShown) : ∃ d, f = .ok d := by
  cases hs with
  | leaf content =>
    obtain ⟨quoted, hc⟩ := Option.isSome_iff_exists.mp (hv [] content rfl)
    exact ⟨.unexpectedLeaf quoted, by simp [Value.shown, hc, Except.map]⟩
  | badLit h => exact Value.defect_of_numeral h (hv.operand List.mem_cons_self)
  | _ => exact ⟨_, rfl⟩

theorem Check.not_fails_root {s : Shape} (hs : Value.Shaped tier t s) (hf : ∀ f, s ≠ .flawed f)
    (c : Check) : ¬ c.Fails tier (levels + 1) [] t := by
  by_cases hd : c = .depth
  · subst hd
    exact (Nat.succ_ne_zero levels).symm
  · exact Check.not_fails hs hf hd

theorem isOperation_of_shaped (levels : Nat) {s : Shape} (hs : Value.Shaped tier t s)
    (hf : ∀ f, s ≠ .flawed f) (hl : ∀ n, s ≠ .lit n) : IsOperation tier (levels + 1) [] t := by
  refine ⟨?_, Check.not_fails_root hs hf⟩
  cases hs with
  | lit hv => exact absurd rfl (hl _)
  | neg c => exact ⟨.neg, _, rfl, by decide⟩
  | add l r => exact ⟨.add, _, rfl, by decide⟩
  | mul l r ht => exact ⟨.mul, _, rfl, by decide⟩
  | _ => exact absurd rfl (hf _)

/-- A tree is defective nowhere when it is not at its root and, if that is an operation, in none
of its children. -/
theorem not_defective_node (root : ∀ c : Check, ¬ c.Fails tier (levels + 1) [] t)
    (below : IsOperation tier (levels + 1) [] t →
      ∀ u ∈ t.children, ∀ p v c, ¬ Defective tier levels u p v c)
    (p : Path) (v : Value) (c : Check) : ¬ Defective tier (levels + 1) t p v c := by
  intro h
  cases p with
  | nil => exact root c (defective_nil.mp h).2
  | cons i p =>
    obtain ⟨ho, u, hu, hd⟩ := defective_cons.mp h
    exact below ho u (List.mem_of_getElem? hu) p v c hd

theorem Denotes.not_defective {e : Exp} (h : Denotes tier levels t e) :
    ∀ p v c, ¬ Defective tier levels t p v c := by
  induction h with
  | lit hn =>
    have shaped := @Value.Shaped.lit tier _ _ (Value.numeral_eq_ok.mpr ⟨_, rfl, hn⟩)
    apply not_defective_node (Check.not_fails_root shaped (by simp))
    intro ho
    -- a literal is no operation, so nothing below it is looked at
    obtain ⟨⟨t, cs, h, ht⟩, -⟩ := ho
    exact absurd (Interp.tagged_inj.mp h).1.symm ht
  | neg h ih =>
    apply not_defective_node (Check.not_fails_root (.neg _) (by simp))
    intro _ u hu
    rcases List.mem_singleton.mp hu with rfl
    exact ih
  | add hl hr ihl ihr =>
    apply not_defective_node (Check.not_fails_root (.add _ _) (by simp))
    intro _ u hu
    rcases List.mem_cons.mp hu with rfl | hu
    · exact ihl
    · rcases List.mem_singleton.mp hu with rfl
      exact ihr
  | mul ht hl hr ihl ihr =>
    apply not_defective_node (Check.not_fails_root (.mul _ _ ht) (by simp))
    intro _ u hu
    rcases List.mem_cons.mp hu with rfl | hu
    · exact ihl
    · rcases List.mem_singleton.mp hu with rfl
      exact ihr

/-- The report of a child's first defect reports that of the whole when the children before it
have none. -/
theorem Reported.below (ho : IsOperation tier (levels + 1) [] t) (hu : t.children[i]? = some u)
    (before : ∀ j < i, ∀ u', t.children[j]? = some u' → ∀ q w d, ¬ Defective tier levels u' q w d)
    (h : Reported tier levels u (path ++ [i]) f) : Reported tier (levels + 1) t path f := by
  obtain ⟨p, v, c, d, hd, hcode, htag, rfl⟩ := h
  exact ⟨i :: p, v, c, d, hd.below ho hu before, hcode, htag, by simp⟩

/-- What ends the readings of two operands, one after the other, reports the first defect of the
operation when it reports that of the operand it ends. -/
theorem Reported.operands {tag : Tag} {l r : Value} {first second : Option Failure}
    (ho : IsOperation tier (levels + 1) [] (Interp.tagged tag [l, r]))
    (hl : ∀ f, first = some f → Reported tier levels l (path ++ [0]) f)
    (sound : first = none → ∀ p v c, ¬ Defective tier levels l p v c)
    (hr : ∀ f, second = some f → Reported tier levels r (path ++ [1]) f)
    (h : first.or second = some f) :
    Reported tier (levels + 1) (Interp.tagged tag [l, r]) path f := by
  cases first with
  | some e =>
    obtain rfl : e = f := Option.some.inj h
    have there : (Interp.tagged tag [l, r]).children[0]? = some l := rfl
    exact .below ho there (by simp) (hl e rfl)
  | none =>
    have there : (Interp.tagged tag [l, r]).children[1]? = some r := rfl
    apply Reported.below ho there _ (hr f h)
    intro j hj u hu
    obtain rfl : j = 0 := by omega
    obtain rfl : l = u := Option.some.inj hu
    exact sound rfl

theorem Value.denotes_of_ending {limit : Nat} {path : Path}
    (h : (t.reading tier limit levels path).script.ending = none) :
    ∃ e, Denotes tier levels t e := by
  obtain ⟨e, he⟩ := Exp.widen_of_ending h
  exact ⟨e, Value.denotes_of_reading he⟩

/-- What ends the reading of a tree reports its first defect. -/
theorem Value.reported_of_ending {limit : Nat} (ht : t.LeavesShown)
    (h : (t.reading tier limit levels path).script.ending = some f) :
    Reported tier levels t path f := by
  induction levels generalizing path t f with
  | zero =>
    obtain rfl := Option.some.inj h
    have first : FirstDefect tier 0 t [] t .depth := .root rfl fun d hd => by cases hd
    refine ⟨[], t, .depth, .tooDeep limit, first, rfl, rfl, ?_⟩
    rw [List.append_nil]
    rfl
  | succ levels ih =>
    have hs := Value.shaped_shape tier t
    rw [Value.reading] at h
    generalize t.shape tier = s at h hs
    -- an operand whose reading comes to its end is in the grammar, so it has no defect
    have sound : ∀ {u : Value} {path : Path},
        (u.reading tier limit levels path).script.ending = none →
          ∀ p v c, ¬ Defective tier levels u p v c := by
      intro u path hu
      obtain ⟨e, he⟩ := Value.denotes_of_ending hu
      exact he.not_defective
    cases s with
    | lit n => cases h
    | neg c =>
      have ho := isOperation_of_shaped levels hs (by simp) (by simp)
      cases hs
      simp only [Exp.script, Script.ending_andThen, Script.single, Option.or_none] at h
      have there : (Interp.tagged .neg [c]).children[0]? = some c := rfl
      exact .below ho there (by simp) (ih (ht.operand (by simp)) h)
    | add l r | mul l r =>
      have ho := isOperation_of_shaped levels hs (by simp) (by simp)
      cases hs
      simp only [Exp.script, Script.ending_andThen, Script.single, Option.or_none] at h
      have hl := fun f => @ih (path ++ [0]) l f (ht.operand (by simp))
      have hr := fun f => @ih (path ++ [1]) r f (ht.operand (by simp))
      exact .operands ho hl sound hr h
    | flawed g =>
      obtain ⟨d, rfl⟩ := defect_of_flawed hs ht
      -- the depth is allowed here, so the check that fails is the only one
      obtain ⟨c, hc, only, report⟩ := Check.fails_flawed hs
      obtain ⟨hcode, htag⟩ := report d rfl
      obtain rfl := Option.some.inj h
      have first : FirstDefect tier (levels + 1) t [] t c := by
        apply FirstDefect.root ((only c hc _ _).mpr rfl)
        intro e he hf
        by_cases hd : e = .depth
        · subst hd
          cases hf
        · rw [(only e hd _ _).mp hf] at he
          omega
      refine ⟨[], t, c, d, first, hcode, htag, ?_⟩
      rw [List.append_nil]
      rfl

end

end Symantics
