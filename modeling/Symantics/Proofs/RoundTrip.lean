import Symantics.Proofs.Acceptance

/-
  The trees of expressions.

  `Exp.tree` is the tree that the tree builder makes of an expression whose numbers
  are not too long. It is in the grammar, with as many levels as the expression has,
  so a decoder that goes that deep does with it what the expression does. A decoder
  that does not go that deep fails at the first position, from the left, that is
  one level deeper than it goes (`decoding_tree`).
-/
namespace Symantics

variable {σ : Type}

/-- The text of a number, if it is short enough to be written. -/
theorem Value.written_int (n : Int) : (Value.int n).written =
    if Decimal.fits n then .ok (Decimal.text n) else .error (.misuse .tooManyDigits) := by
  simp only [written, text?, shown?, Decimal.text?]
  cases Decimal.fits n <;> rfl

theorem Value.written_of_fits {n : Int} (h : Decimal.fits n = true) :
    (Value.int n).written = .ok (Decimal.text n) :=
  (written_int n).trans (if_pos h)

namespace Exp

/-- Every number of the expression is short enough to be written. -/
def fits : Exp → Bool
  | lit n => Decimal.fits n
  | neg e => fits e
  | add l r | mul l r => fits l && fits r
  | stray v => v.elim

def tree : Exp → Tree
  | lit n => .node Tag.lit.word [.leaf (Decimal.text n)]
  | neg e => .node Tag.neg.word [tree e]
  | add l r => .node Tag.add.word [tree l, tree r]
  | mul l r => .node Tag.mul.word [tree l, tree r]
  | stray v => v.elim

/-- The operands of an operation. -/
def operands : Exp → List Exp
  | lit _ => []
  | neg e => [e]
  | add l r | mul l r => [l, r]
  | stray v => v.elim

def at? (e : Exp) : Path → Option Exp
  | [] => some e
  | i :: p => match e.operands[i]? with
    | some d => d.at? p
    | none => none

section

variable {e d : Exp}

theorem fits_operand (h : e.fits = true) (hd : d ∈ e.operands) : d.fits = true := by
  cases e with
  | lit n => cases hd
  | neg e => exact List.mem_singleton.mp hd ▸ h
  | add l r | mul l r =>
    have both : l.fits = true ∧ r.fits = true := (Bool.and_eq_true _ _).mp h
    rcases List.mem_cons.mp hd with rfl | hd
    · exact both.1
    · exact List.mem_singleton.mp hd ▸ both.2
  | stray v => exact v.elim

theorem hasMul_operand (h : d.hasMul = true) (hd : d ∈ e.operands) : e.hasMul = true := by
  cases e with
  | lit n => cases hd
  | neg e => exact List.mem_singleton.mp hd ▸ h
  | add l r =>
    rcases List.mem_cons.mp hd with rfl | hd
    · exact (Bool.or_eq_true _ _).mpr (.inl h)
    · exact (Bool.or_eq_true _ _).mpr (.inr (List.mem_singleton.mp hd ▸ h))
  | mul l r => rfl
  | stray v => exact v.elim

theorem height_pos (e : Exp) : 0 < e.height := by
  cases e <;> simp only [height] <;> omega

/-- An expression of more than one level has an operand of one level less. -/
theorem exists_operand {levels : Nat} (h : levels + 1 < e.height) :
    ∃ (i : Nat) (d : Exp), e.operands[i]? = some d ∧ levels < d.height := by
  cases e with
  | lit n => simp only [height] at h; omega
  | neg e => exact ⟨0, e, rfl, by simp only [height] at h; omega⟩
  | add l r | mul l r =>
    simp only [height] at h
    by_cases hl : levels < l.height
    · exact ⟨0, l, rfl, hl⟩
    · exact ⟨1, r, rfl, by omega⟩
  | stray v => exact v.elim

theorem exists_at? {levels : Nat} (h : levels < e.height) :
    ∃ p d, e.at? p = some d ∧ p.length = levels := by
  induction levels generalizing e with
  | zero => exact ⟨[], e, rfl, rfl⟩
  | succ levels ih =>
    obtain ⟨i, d, hd, hlt⟩ := exists_operand h
    obtain ⟨p, u, hu, hp⟩ := ih hlt
    exact ⟨i :: p, u, by rw [at?, hd]; exact hu, by rw [List.length_cons, hp]⟩

end

/-! ## Building the tree -/

/-- The tree builder of a tier fails on an expression of the tier only if a number is too long. -/
theorem run_treeBuilder_eq {tier : Tier} {e : Exp} (ht : e.hasMul = true → tier = .extended) :
    e.run (.treeBuilder tier : Interp σ) =
      if e.fits then pure e.tree.toValue else throw (.misuse .tooManyDigits) := by
  induction e with
  | lit n =>
    show (Run.ofExcept (Value.int n).written >>= _) = if Decimal.fits n then _ else _
    rw [Value.written_int]
    cases Decimal.fits n <;> rfl
  | neg e ih =>
    rw [run, Interp.negOf, Interp.neg_eq rfl, pure_bind, ih ht, fits]
    cases e.fits <;> rfl
  | add l r ihl ihr =>
    have left := ihl fun hx => ht (by rw [hasMul, hx, Bool.true_or])
    have right := ihr fun hx => ht (by rw [hasMul, hx, Bool.or_true])
    rw [run, left, right, Interp.add_eq rfl, fits]
    cases l.fits <;> cases r.fits <;> rfl
  | mul l r ihl ihr =>
    obtain rfl := ht rfl
    rw [run, Interp.requireMul_eq rfl, ihl fun _ => rfl, ihr fun _ => rfl, Interp.mul_eq rfl, fits]
    cases l.fits <;> cases r.fits <;> rfl
  | stray v => exact v.elim

/-- The tree builder of a tier makes the tree of an expression of the tier. -/
theorem run_treeBuilder {tier : Tier} {e : Exp} (hf : e.fits = true)
    (ht : e.hasMul = true → tier = .extended) :
    e.run (.treeBuilder tier : Interp σ) = pure e.tree.toValue :=
  (run_treeBuilder_eq ht).trans (if_pos hf)

/-! ## The tree and the grammar -/

section

variable {tier : Tier} {e : Exp} (hf : e.fits = true) (ht : e.hasMul = true → tier = .extended)

include hf ht

/-- The tree of an expression of so many levels is in the grammar with so many. -/
theorem denotes_tree {levels : Nat} (h : e.height ≤ levels) :
    Denotes tier levels e.tree.toValue e := by
  induction levels generalizing e with
  | zero => exact absurd (height_pos e) (by omega)
  | succ levels ih =>
    -- what holds of the whole holds of every operand
    have operand : ∀ d ∈ e.operands, d.height ≤ levels → Denotes tier levels d.tree.toValue d :=
      fun d hd => ih (fits_operand hf hd) fun hx => ht (hasMul_operand hx hd)
    cases e with
    | lit n => exact .lit (Decimal.numeral_text hf)
    | neg e =>
      simp only [height] at h
      exact .neg (operand e (by simp [operands]) (by omega))
    | add l r =>
      simp only [height] at h
      exact .add (operand l (by simp [operands]) (by omega))
        (operand r (by simp [operands]) (by omega))
    | mul l r =>
      simp only [height] at h
      exact .mul (ht rfl) (operand l (by simp [operands]) (by omega))
        (operand r (by simp [operands]) (by omega))
    | stray v => exact v.elim

/-- The decoder finds no flaw at the root of the tree, and a literal only for a literal. -/
theorem shaped_tree : ∃ s, Value.Shaped tier e.tree.toValue s ∧ (∀ f, s ≠ .flawed f) ∧
    (e.operands ≠ [] → ∀ n, s ≠ .lit n) := by
  cases e with
  | lit n => exact ⟨_, .lit (Value.numeral_eq_ok.mpr ⟨_, rfl, Decimal.numeral_text hf⟩),
      by simp, fun h => absurd rfl h⟩
  | neg e => exact ⟨_, .neg _, by simp, by simp⟩
  | add l r => exact ⟨_, .add _ _, by simp, by simp⟩
  | mul l r => exact ⟨_, .mul _ _ (ht rfl), by simp, by simp⟩
  | stray v => exact v.elim

theorem isOperation_tree {levels : Nat} :
    IsOperation tier (levels + 1) [] e.tree.toValue ↔ e.operands ≠ [] := by
  obtain ⟨s, hs, unflawed, operation⟩ := shaped_tree hf ht
  constructor
  · intro h none
    obtain ⟨⟨t, cs, h, hl⟩, -⟩ := h
    cases e with
    | lit n => exact hl (Interp.tagged_inj.mp h).1.symm
    | stray v => exact v.elim
    | _ => cases none
  · exact fun h => isOperation_of_shaped levels hs unflawed (operation h)

end

theorem children_tree {e : Exp} (h : e.operands ≠ []) :
    e.tree.toValue.children = e.operands.map fun d => d.tree.toValue := by
  cases e with
  | lit n => exact absurd rfl h
  | stray v => exact v.elim
  | _ => rfl

/-- The only defect in the tree of an expression is to be too deep. -/
theorem defective_tree {tier : Tier} {levels : Nat} {p : Path} {v : Value} {c : Check} {e : Exp}
    (hf : e.fits = true) (ht : e.hasMul = true → tier = .extended) :
    Defective tier levels e.tree.toValue p v c ↔
      c = .depth ∧ p.length = levels ∧ ∃ d, e.at? p = some d ∧ v = d.tree.toValue := by
  -- on the path: the root of every subtree is without a flaw, so only its depth can count
  induction p generalizing levels e with
  | nil =>
    rw [defective_nil]
    obtain ⟨s, hs, unflawed, -⟩ := shaped_tree hf ht
    constructor
    · intro h
      obtain ⟨rfl, h⟩ := h
      by_cases hc : c = .depth
      · subst hc
        exact ⟨rfl, h, e, rfl, rfl⟩
      · exact absurd h (Check.not_fails hs unflawed hc)
    · intro h
      obtain ⟨rfl, h, d, hd, rfl⟩ := h
      obtain rfl : e = d := Option.some.inj hd
      exact ⟨rfl, h⟩
  | cons i p ih =>
    have operand : ∀ {d : Exp}, e.operands[i]? = some d →
        d.fits = true ∧ (d.hasMul = true → tier = .extended) := by
      intro d hd
      have mem := List.mem_of_getElem? hd
      exact ⟨fits_operand hf mem, fun hx => ht (hasMul_operand hx mem)⟩
    cases levels with
    | zero =>
      -- the root is too deep already, and what is below it is not looked at
      constructor
      · intro h
        obtain ⟨w, -, -, none⟩ := h.above [] List.nil_prefix (List.cons_ne_nil i p).symm
        exact absurd rfl (none .depth)
      · intro h
        obtain ⟨-, h, -⟩ := h
        cases h
    | succ levels =>
      rw [defective_cons, isOperation_tree hf ht, List.length_cons, Nat.succ_inj, at?]
      constructor
      · intro h
        obtain ⟨ho, u, hu, h⟩ := h
        rw [children_tree ho, List.getElem?_map, Option.map_eq_some_iff] at hu
        obtain ⟨d, hd, rfl⟩ := hu
        rw [hd]
        exact (ih (operand hd).1 (operand hd).2).mp h
      · intro h
        cases hd : e.operands[i]? with
        | none => simp [hd] at h
        | some d =>
          rw [hd] at h
          have ho : e.operands ≠ [] := List.ne_nil_of_mem (List.mem_of_getElem? hd)
          refine ⟨ho, d.tree.toValue, ?_, (ih (operand hd).1 (operand hd).2).mpr h⟩
          rw [children_tree ho, List.getElem?_map, hd]
          rfl

theorem hasMul_of_tree {e : Exp} (h : e.tree.toValue.HasMul) : e.hasMul = true := by
  obtain ⟨p, cs, hp⟩ := h
  induction p generalizing e with
  | nil =>
    have root : e.tree.toValue = Interp.tagged .mul cs := Option.some.inj hp
    cases e with
    | mul l r => rfl
    | stray v => exact v.elim
    | _ => cases (Interp.tagged_inj.mp root).1
  | cons i p ih =>
    by_cases ho : e.operands = []
    · cases e with
      | lit n =>
        -- below a literal there is nothing but its leaf
        cases i with
        | zero => cases p <;> cases hp
        | succ i => cases hp
      | stray v => exact v.elim
      | _ => cases ho
    · simp only [Value.at?, children_tree ho, List.getElem?_map] at hp
      cases hd : e.operands[i]? with
      | none => simp [hd] at hp
      | some d =>
        rw [hd] at hp
        exact hasMul_operand (ih hp) (List.mem_of_getElem? hd)

/-- Decoding the tree of an expression that is not too high does what running it does. -/
theorem decoding_tree (tier : Tier) {maxDepth : Nat} (h : 1 ≤ maxDepth) {e : Exp}
    (hf : e.fits = true) (ht : e.hasMul = true → tier = .extended) {I : Interp σ}
    (hI : I.hasBase = true) (hm : e.hasMul = true → I.hasMul = true) (hle : e.height ≤ maxDepth) :
    tier.decoding maxDepth e.tree.toValue I = e.run I :=
  (denotes_tree hf ht hle).decoding_eq h hI fun _ hx => hm (hasMul_of_tree hx)

/-- The first position on some level of an expression, from the left. -/
structure FirstAt (e : Exp) (levels : Nat) (p : Path) : Prop where
  there : ∃ d, e.at? p = some d
  level : p.length = levels
  least : ∀ q d, e.at? q = some d → q.length = levels → ¬ List.Lex (· < ·) q p

/-- What ends the reading of a tree that is too deep reports its first position on the first level
that is. -/
theorem reported_of_deep {tier : Tier} {maxDepth : Nat} {e : Exp} (hf : e.fits = true)
    (ht : e.hasMul = true → tier = .extended) (h : maxDepth < e.height) :
    ∃ (p : Path) (d : Defect), e.FirstAt maxDepth p ∧ d.code = "DEPTH_EXCEEDED" ∧ d.tag = none ∧
      (tier.script maxDepth e.tree.toValue).ending = some (.fault (d.fault p)) := by
  -- some position is too deep, so the tree is outside the grammar and has a first defect
  obtain ⟨q, u, hu, hq⟩ := exists_at? h
  have deep : Defective tier maxDepth e.tree.toValue q u.tree.toValue .depth :=
    (defective_tree hf ht).mpr ⟨rfl, hq, u, hu, rfl⟩
  have outside : ¬ ∃ d, Denotes tier maxDepth e.tree.toValue d :=
    fun ⟨_, hd⟩ => hd.not_defective q _ _ deep
  obtain ⟨_, hc, p, v, c, d, first, hcode, htag, rfl⟩ :=
    reported_of_rejected (Tree.leavesShown _) outside
  obtain ⟨rfl, hp, w, hw, -⟩ := (defective_tree hf ht).mp first.toDefective
  have least : ∀ q d, e.at? q = some d → q.length = maxDepth → ¬ List.Lex (· < ·) q p := by
    intro q d hd hq
    exact first.least q _ _ ((defective_tree hf ht).mpr ⟨rfl, hq, d, hd, rfl⟩)
  exact ⟨p, d, ⟨⟨w, hw⟩, hp, least⟩, hcode, htag, hc⟩

end Exp

/-- Decoding the tree that is built from an expression does what running the expression does, if
the decoder goes as deep as the expression is high. If not, it fails: at the leftmost position one
level below the last that it reads, unless a call fails before it gets there. -/
theorem decoding_built_tree (tier : Tier) {maxDepth : Nat} (h : 1 ≤ maxDepth) {e : Exp}
    (hf : e.fits = true) (ht : e.hasMul = true → tier = .extended) {I : Interp σ}
    (hI : I.hasBase = true) (hm : e.hasMul = true → I.hasMul = true) :
    ∃ t : Value, (∀ {ρ : Type}, e.run (.treeBuilder .extended : Interp ρ) = pure t) ∧
      (e.height ≤ maxDepth →
        tier.decoding maxDepth t I = e.run I ∧
        tier.decoding maxDepth t I.watched = e.run I.watched) ∧
      (maxDepth < e.height → ∃ p message cause steps, e.FirstAt maxDepth p ∧
        ∀ s : Watched σ, ∃ f s',
          (tier.decoding maxDepth t I.watched).exec s = (.error f, s') ∧
          (tier.decoding maxDepth t I).exec s.inner = (.error f, s'.inner) ∧
          (s.Took s' steps ∧ f = .fault (.decoding message "DEPTH_EXCEEDED" none p {} cause) ∨
            s.Raised s' f steps)) := by
  refine ⟨e.tree.toValue, Exp.run_treeBuilder hf fun _ => rfl, ?_, ?_⟩
  · intro hle
    refine ⟨Exp.decoding_tree tier h hf ht hI hm hle, ?_⟩
    -- the watched interpretation is one more that has the methods
    rw [← Interp.hasBase_watched] at hI
    rw [← Interp.hasMul_watched] at hm
    exact Exp.decoding_tree tier h hf ht hI hm hle
  · intro hlt
    obtain ⟨p, d, first, hcode, htag, hc⟩ := Exp.reported_of_deep hf ht hlt
    refine ⟨p, d.message, d.cause, (tier.script maxDepth e.tree.toValue).steps, first, ?_⟩
    intro s
    have shows := Tier.shows_decoding tier h hI fun _ hx => hm (Exp.hasMul_of_tree hx)
    obtain ⟨f, s', hw, hq, outcome⟩ := shows.fails hc s
    refine ⟨f, s', hw, hq, outcome.imp (fun ⟨took, hf⟩ => ⟨took, ?_⟩) And.left⟩
    rw [hf, Defect.fault, hcode, htag]

theorem decoding_built_negated_seven :
    let e : Exp := .neg (.lit 7)
    let I : Interp Unit := .treeBuilder .base
    ∃ t : Value, e.run (.treeBuilder .extended : Interp Unit) = pure t ∧
      Tier.base.decoding 2 t I = e.run I ∧ ∃ p, e.FirstAt 1 p := by
  intro e I
  have fits : e.fits = true := by decide
  have product : e.hasMul = true → (Tier.base = .extended) := by intro h; cases h
  have method : e.hasMul = true → I.hasMul = true := by intro h; cases h
  obtain ⟨t, build, whole, -⟩ :=
    decoding_built_tree .base (show 1 ≤ 2 by decide) fits product (I := I) rfl method
  obtain ⟨_, -, -, deep⟩ :=
    decoding_built_tree .base (show 1 ≤ 1 by decide) fits product (I := I) rfl method
  obtain ⟨p, _, _, _, first, -⟩ := deep (by decide)
  exact ⟨t, build, (whole (by decide)).1, p, first⟩

end Symantics
