import Symantics.Proofs.RoundTrip
import Symantics.Proofs.Safety

/-
  Decoding into the tree builder.

  A literal may be written in many ways: with leading zeros, or as "-0". In
  `Value.canonical` every literal has the text that its integer is written with. A tree
  and its canonical form denote the same expression (`Denotes.canonical`), and the tree
  of that expression is the canonical form (`Denotes.canonical_eq`). So the tree builder,
  into which a tree is decoded, gives back the canonical form, which no decoder of the
  tier can tell from the tree itself (`decoding_into_builder`).
-/
namespace Symantics

variable {σ : Type}

namespace Value

/-- A leaf that holds an integer, with the integer as it is written; anything else as it is. -/
def canonicalLeaf (v : Value) : Value :=
  match v.numeral with
  | .ok n => leaf (text (Decimal.text n))
  | .error _ => v

mutual

/-- The tree with the text of each literal replaced by the one its integer is written with. -/
def canonical : Value → Value
  | node tag children => match tag with
    | text "Lit" => node tag (children.map canonicalLeaf)
    | _ => node tag (canonicalAll children)
  | v => v

def canonicalAll : List Value → List Value
  | [] => []
  | v :: vs => canonical v :: canonicalAll vs

end

/-- What the tree builder gives back when a tree is decoded into it. -/
def rebuilt (maxDepth : Nat) (t : Value) : Except Failure Value :=
  (Interp.treeBuilder .extended : Interp Unit).outcome (Tier.extended.decoding maxDepth t) ()

end Value

/-! ## The canonical form and the grammar -/

namespace Denotes

variable {tier : Tier} {levels : Nat} {v : Value} {e : Exp} (h : Denotes tier levels v e)

include h

/-- The numbers of a tree can be written. -/
theorem fits : e.fits = true := by
  induction h with
  | lit h => exact h.fits
  | neg _ ih => exact ih
  | add _ _ ihl ihr => exact (Bool.and_eq_true _ _).mpr ⟨ihl, ihr⟩
  | mul _ _ _ ihl ihr => exact (Bool.and_eq_true _ _).mpr ⟨ihl, ihr⟩

/-- The canonical form of a tree is the tree of the expression that it denotes. -/
theorem canonical_eq : v.canonical = e.tree.toValue := by
  induction h with
  | @lit _ s n h =>
    have number : (Value.leaf (.text s)).numeral = .ok n := Value.numeral_eq_ok.mpr ⟨s, rfl, h⟩
    simp only [Interp.tagged, Tag.word, Value.canonical, List.map_cons, List.map_nil,
      Value.canonicalLeaf, number]
    rfl
  | neg _ ih =>
    simp only [Interp.tagged, Tag.word, Value.canonical, Value.canonicalAll, ih]
    rfl
  | add _ _ ihl ihr | mul _ _ _ ihl ihr =>
    simp only [Interp.tagged, Tag.word, Value.canonical, Value.canonicalAll, ihl, ihr]
    rfl

/-- The canonical form of a tree denotes the same expression. -/
theorem canonical : Denotes tier levels v.canonical e := by
  rw [h.canonical_eq]
  induction h with
  | lit h => exact .lit (Decimal.numeral_text h.fits)
  | neg _ ih => exact .neg ih
  | add _ _ ihl ihr => exact .add ihl ihr
  | mul ht _ _ ihl ihr => exact .mul ht ihl ihr

end Denotes

section

variable {tier : Tier} {maxDepth : Nat} (h : 1 ≤ maxDepth) {t : Value}

include h

/-- No decoder of the tier tells two trees apart that denote the same expression. -/
theorem Denotes.decoding_congr {t' : Value} {e : Exp} (ht : Denotes tier maxDepth t e)
    (ht' : Denotes tier maxDepth t' e) (I : Interp σ) :
    tier.decoding maxDepth t' I = tier.decoding maxDepth t I := by
  rw [Tier.decoding_eq_replay tier h, Tier.decoding_eq_replay tier h, ht.reading_eq,
    ht'.reading_eq]

/-- Only trees of the grammar are decoded to a value. -/
theorem Tier.denotes_of_decoding {I : Interp σ} (hI : I.hasBase = true)
    (hm : tier = .extended → t.HasMul → I.hasMul = true) {s : σ} {v : Value}
    (hv : I.outcome (tier.decoding maxDepth t) s = .ok v) : ∃ e, Denotes tier maxDepth t e := by
  cases hc : (tier.script maxDepth t).ending with
  | none => exact Value.denotes_of_ending hc
  | some f =>
    obtain ⟨g, s', -, hf, -⟩ := (Tier.shows_decoding tier h hI hm).fails hc ⟨s, []⟩
    rw [Interp.outcome, hf] at hv
    cases hv

/-- The trees of the grammar are decoded to a value by every interpretation that never fails. -/
theorem Denotes.returns {e : Exp} (he : Denotes tier maxDepth t e) {I : Interp σ}
    (hI : I.hasMul = true) (never : I.NeverRaises) (s : σ) :
    ∃ v, I.outcome (tier.decoding maxDepth t) s = .ok v := by
  have shows := Tier.shows_decoding (t := t) tier h (Interp.methods_of_hasMul hI).1 fun _ _ => hI
  obtain ⟨v, s', -, hv⟩ := shows.returns he.ending_script never ⟨s, []⟩
  exact ⟨v, congrArg Prod.fst hv⟩

/-- The tree builder gives back the trees of the grammar, in their canonical form. -/
theorem Value.rebuilt_eq_ok {t' : Value} :
    t.rebuilt maxDepth = .ok t' ↔
      (∃ e, Denotes .extended maxDepth t e) ∧ t' = t.canonical := by
  have given : ∀ e, Denotes .extended maxDepth t e → t.rebuilt maxDepth = .ok t.canonical := by
    intro e he
    rw [rebuilt, Interp.outcome, he.decoding_eq h rfl fun _ _ => rfl,
      Exp.run_treeBuilder he.fits fun _ => rfl, he.canonical_eq]
    rfl
  constructor
  · intro ht
    obtain ⟨e, he⟩ := Tier.denotes_of_decoding h rfl (fun _ _ => rfl) ht
    exact ⟨⟨e, he⟩, Except.ok.inj (ht.symm.trans (given e he))⟩
  · intro ht
    obtain ⟨⟨e, he⟩, rfl⟩ := ht
    exact given e he

end

/-- What the tree builder gives back of a tree of texts is the tree with its literals in canonical
form; it is given back itself, and decoding it does under every interpretation what decoding the
tree does. The tree builder fails with decoding faults only, and gives a tree back exactly when
every interpretation of the extended tier that never fails decodes it to a value. -/
theorem decoding_into_builder {maxDepth : Nat} (h : 1 ≤ maxDepth) {t : Value}
    (ht : t.TextLeaves) :
    (∀ t', t.rebuilt maxDepth = .ok t' →
      t' = t.canonical ∧ t'.rebuilt maxDepth = .ok t' ∧
      ∀ {ρ : Type} (J : Interp ρ),
        Tier.extended.decoding maxDepth t' J = Tier.extended.decoding maxDepth t J ∧
        Tier.extended.decoding maxDepth t' J.watched =
          Tier.extended.decoding maxDepth t J.watched) ∧
    (∀ f, t.rebuilt maxDepth = .error f → f.isDecoding = true) ∧
    ((∃ t', t.rebuilt maxDepth = .ok t') ↔
      ∀ {ρ : Type} (J : Interp ρ), J.hasMul = true → J.NeverRaises →
        ∀ s, ∃ v, J.outcome (Tier.extended.decoding maxDepth t) s = .ok v) := by
  refine ⟨?_, ?_, ?_, ?_⟩
  · intro t' ht'
    obtain ⟨⟨e, he⟩, rfl⟩ := (Value.rebuilt_eq_ok h).mp ht'
    have same : t.canonical.canonical = t.canonical := by
      rw [he.canonical.canonical_eq, he.canonical_eq]
    refine ⟨rfl, (Value.rebuilt_eq_ok h).mpr ⟨⟨e, he.canonical⟩, same.symm⟩, ?_⟩
    intro ρ J
    exact ⟨he.decoding_congr h he.canonical J, he.decoding_congr h he.canonical J.watched⟩
  · intro f hf
    have keeps := Interp.keeps_treeBuilder (σ := Unit) .extended fun _ => False
    have lands := Tier.lands_decoding .extended h ht.leavesShown keeps fun _ => rfl
    rcases lands.of_outcome () with ⟨v, hv, -⟩ | ⟨g, hg, decoding | never⟩
    · cases hf.symm.trans hv
    · obtain rfl := Except.error.inj (hf.symm.trans hg)
      exact decoding
    · exact never.elim
  · rintro ⟨t', ht'⟩ ρ J hJ never s
    obtain ⟨⟨e, he⟩, -⟩ := (Value.rebuilt_eq_ok h).mp ht'
    exact he.returns h hJ never s
  · intro accepted
    obtain ⟨v, hv⟩ := accepted (Interp.constant .null : Interp Unit) rfl
      (Interp.neverRaises_constant .null) ()
    have denotes := Tier.denotes_of_decoding h rfl (fun _ _ => rfl) hv
    exact ⟨_, (Value.rebuilt_eq_ok h).mpr ⟨denotes, rfl⟩⟩

theorem decoding_into_builder_of_padded :
    let t := (Tree.node "Neg" [.node "Lit" [.leaf "-007"]]).toValue
    let t' := (Tree.node "Neg" [.node "Lit" [.leaf "-7"]]).toValue
    t.TextLeaves ∧ t.rebuilt 2 = .ok t' ∧ t' = t.canonical ∧ t'.rebuilt 2 = .ok t' := by
  intro t t'
  have texts : t.TextLeaves := Tree.textLeaves _
  have back : t.rebuilt 2 = .ok t' := rfl
  obtain ⟨canonical, again, -⟩ := (decoding_into_builder (by decide) texts).1 t' back
  exact ⟨texts, back, canonical, again⟩

end Symantics
