import Symantics.Interp.TreeBuilder
import Symantics.Proofs.Defects

/-
  Which trees a decoder accepts, and what it does with the others.

  A tree of the grammar is decoded as the expression that it denotes is run: the same
  calls, and whatever comes of them (`decoding_of_grammar`). Any other tree is
  rejected, whatever the interpretation: the failure reports the first defect of the
  tree, unless a call fails before the decoder gets there (`decoding_reports`).
-/
namespace Symantics

variable {σ : Type} {tier : Tier}

namespace Value

/-- A product stands somewhere in the tree. -/
def HasMul (t : Value) : Prop := ∃ p cs, t.at? p = some (Interp.tagged .mul cs)

theorem HasMul.operand {tag : Tag} {cs : List Value} {v : Value} (h : v.HasMul) (hv : v ∈ cs) :
    (Interp.tagged tag cs).HasMul := by
  obtain ⟨p, ds, hp⟩ := h
  obtain ⟨i, hi⟩ := List.mem_iff_getElem?.mp hv
  have there : (Interp.tagged tag cs).children[i]? = some v := hi
  exact ⟨i :: p, ds, (at?_cons there).trans hp⟩

/-- Only a product of the tree is taken for a product, and only in the extended tier. -/
theorem hasMul_of_reading {limit levels : Nat} {path : Path} {t : Value}
    (h : (t.reading tier limit levels path).hasMul = true) : tier = .extended ∧ t.HasMul := by
  induction levels generalizing path t with
  | zero => cases h
  | succ levels ih =>
    have hs := shaped_shape tier t
    rw [reading] at h
    generalize t.shape tier = s at h hs
    cases hs with
    | neg c =>
      obtain ⟨ht, hc⟩ := ih h
      exact ⟨ht, hc.operand (by simp)⟩
    | add l r =>
      rcases (Bool.or_eq_true _ _).mp h with h | h
      · obtain ⟨ht, hl⟩ := ih h
        exact ⟨ht, hl.operand (by simp)⟩
      · obtain ⟨ht, hr⟩ := ih h
        exact ⟨ht, hr.operand (by simp)⟩
    | mul l r ht => exact ⟨ht, [], _, rfl⟩
    | _ => cases h

end Value

section

variable {maxDepth : Nat} {t : Value} {I : Interp σ}

/-- What decoding a tree in a tier does, apart from the interpretation: the script of what the tree
is taken for. -/
def Tier.script (tier : Tier) (maxDepth : Nat) (t : Value) : Script :=
  (t.reading tier maxDepth maxDepth []).script

/-- Decoding into a watched interpretation follows the script. -/
theorem Tier.shows_decoding (tier : Tier) (h : 1 ≤ maxDepth) (hI : I.hasBase = true)
    (hm : tier = .extended → t.HasMul → I.hasMul = true) :
    Shows I (tier.decoding maxDepth t I.watched) (tier.decoding maxDepth t I)
      (tier.script maxDepth t) := by
  rw [Tier.decoding_eq_replay tier h, Tier.decoding_eq_replay tier h]
  apply Exp.shows_replay hI
  intro hx
  obtain ⟨ht, hx⟩ := Value.hasMul_of_reading hx
  exact hm ht hx

theorem Denotes.decoding_eq {e : Exp} (he : Denotes tier maxDepth t e) (h : 1 ≤ maxDepth)
    (hI : I.hasBase = true) (hm : tier = .extended → t.HasMul → I.hasMul = true) :
    tier.decoding maxDepth t I = e.run I := by
  have reading := he.reading_eq maxDepth []
  rw [Tier.decoding_eq_replay tier h, reading]
  apply Exp.replay_widen hI
  intro hx
  obtain ⟨ht, hx⟩ := Value.hasMul_of_reading (by rwa [reading, Exp.hasMul_widen])
  exact hm ht hx

theorem Denotes.ending_script {e : Exp} (he : Denotes tier maxDepth t e) :
    (tier.script maxDepth t).ending = none := by
  rw [Tier.script, he.reading_eq maxDepth [], Exp.ending_widen]

/-- What is outside the grammar has a defect that is reported first. -/
theorem reported_of_rejected (ht : t.LeavesShown) (hr : ¬ ∃ e, Denotes tier maxDepth t e) :
    ∃ f, (tier.script maxDepth t).ending = some f ∧
      Reported tier maxDepth t [] f := by
  cases hf : (tier.script maxDepth t).ending with
  | none => exact absurd (Value.denotes_of_ending hf) hr
  | some f => exact ⟨f, rfl, Value.reported_of_ending ht hf⟩

end

/-- A decoder accepts exactly the grammar of its tier and means by a tree what the grammar says.
A tree of the grammar is decoded as its one expression is run, call by call, and only a call can
fail; on any other tree the decoder fails after calls that all returned, or a call failed before. -/
theorem decoding_of_grammar (tier : Tier) {maxDepth : Nat} (h : 1 ≤ maxDepth) {t : Value}
    (ht : t.LeavesShown) {I : Interp σ} (hI : I.hasBase = true)
    (hm : tier = .extended → t.HasMul → I.hasMul = true) :
    (∀ e, Denotes tier maxDepth t e →
      (∀ d, Denotes tier maxDepth t d → d = e) ∧
      tier.decoding maxDepth t I = e.run I ∧
      tier.decoding maxDepth t I.watched = e.run I.watched ∧
      ∀ s f s', (tier.decoding maxDepth t I.watched).exec s = (.error f, s') →
        ∃ steps, s.Raised s' f steps) ∧
    ((¬ ∃ e, Denotes tier maxDepth t e) → ∀ s : Watched σ, ∃ f s',
      (tier.decoding maxDepth t I.watched).exec s = (.error f, s') ∧
      (tier.decoding maxDepth t I).exec s.inner = (.error f, s'.inner) ∧
      ∃ steps, s.Took s' steps ∧ f.isDecoding = true ∨ s.Raised s' f steps) := by
  have shows := Tier.shows_decoding tier h hI hm
  constructor
  · intro e he
    have watched : I.watched.hasBase = true := by rw [Interp.hasBase_watched, hI]
    refine ⟨fun d hd => hd.unique he, he.decoding_eq h hI hm, ?_, ?_⟩
    · apply he.decoding_eq h watched
      rwa [Interp.hasMul_watched]
    · intro s f s' hf
      exact ⟨_, shows.raised he.ending_script hf⟩
  · intro hr s
    obtain ⟨e, hc, p, v, c, d, -, -, -, rfl⟩ := reported_of_rejected ht hr
    obtain ⟨f, s', hw, hq, ⟨took, rfl⟩ | ⟨raised, -⟩⟩ := shows.fails hc s
    · exact ⟨_, s', hw, hq, _, .inl ⟨took, rfl⟩⟩
    · exact ⟨f, s', hw, hq, _, .inr raised⟩

theorem decoding_of_negated_seven :
    let t := (Tree.node "Neg" [.node "Lit" [.leaf "7"]]).toValue
    let I : Interp Unit := .treeBuilder .extended
    Tier.extended.decoding 2 t I = (Exp.neg (.lit 7) : Exp).run I ∧
      ∀ s, ∃ f s', (Tier.extended.decoding 1 t I.watched).exec s = (.error f, s') := by
  intro t I
  have shown : t.LeavesShown := Tree.leavesShown _
  have hI : I.hasBase = true := rfl
  have inside : Denotes .extended 2 t (.neg (.lit 7)) :=
    .neg (.lit (.plain (List.all_eq_true.mp (by decide)) (by decide) (by decide)))
  have outside : ¬ ∃ e, Denotes .extended 1 t e := by
    intro h
    obtain ⟨e, h⟩ := h
    obtain ⟨d, -, hd⟩ := Exp.widen_eq_neg (h.reading_eq 1 []).symm
    exact Exp.widen_ne_stray hd
  have two := decoding_of_grammar .extended (show 1 ≤ 2 by decide) shown hI fun _ _ => rfl
  have one := decoding_of_grammar .extended (show 1 ≤ 1 by decide) shown hI fun _ _ => rfl
  refine ⟨(two.1 _ inside).2.1, ?_⟩
  intro s
  obtain ⟨f, s', h, -⟩ := one.2 outside s
  exact ⟨f, s', h⟩

/-! ## Rejected trees -/

/-- The interpretation under which every call returns the same value. -/
def Interp.constant (v : Value) : Interp σ where
  kind := "Constant"
  lit? := some fun _ => pure v
  neg? := some fun _ => pure v
  add? := some fun _ _ => pure v
  mul? := some fun _ _ => pure v

theorem Interp.neverRaises_constant (v : Value) : (Interp.constant v : Interp σ).NeverRaises := by
  intro k hk
  cases hk with
  | lit h => cases h; exact ⟨v, rfl⟩
  | neg h => cases h; exact ⟨v, rfl⟩
  | add h => cases h; exact ⟨v, rfl⟩
  | mul h => cases h; exact ⟨v, rfl⟩

/-- Decoding the tree into an interpretation that cannot fail fails all the same. -/
def Tier.Rejects (tier : Tier) (maxDepth : Nat) (t : Value) : Prop :=
  ∃ (ρ : Type) (I : Interp ρ) (s s' : ρ) (f : Failure), I.hasMul = true ∧ I.NeverRaises ∧
    (tier.decoding maxDepth t I).exec s = (.error f, s')

/-- The rejected trees are those outside the grammar. -/
theorem Tier.rejects_iff {maxDepth : Nat} (h : 1 ≤ maxDepth) {t : Value} :
    tier.Rejects maxDepth t ↔ ¬ ∃ e, Denotes tier maxDepth t e := by
  constructor
  · intro rejected accepted
    obtain ⟨ρ, I, s, s', f, hI, never, hf⟩ := rejected
    obtain ⟨e, he⟩ := accepted
    have shows := Tier.shows_decoding (t := t) tier h (Interp.methods_of_hasMul hI).1
      fun _ _ => hI
    obtain ⟨a, s'', -, ha⟩ := shows.returns he.ending_script never ⟨s, []⟩
    rw [hf] at ha
    cases ha
  · intro hr
    have shows := Tier.shows_decoding (t := t) (I := (.constant .null : Interp Unit)) tier
      h rfl fun _ _ => rfl
    cases hc : (tier.script maxDepth t).ending with
    | none => exact absurd (Value.denotes_of_ending hc) hr
    | some e =>
      obtain ⟨f, s', -, hf, -⟩ := shows.fails hc ⟨(), []⟩
      exact ⟨Unit, _, (), s'.inner, f, rfl, Interp.neverRaises_constant .null, hf⟩

/-- A rejected tree is reported for its first defect, whatever the interpretation: there are one
position, check, message and sequence of steps so that decoding into any interpretation takes
those steps and fails with that report, unless one of the calls fails. -/
theorem decoding_reports_first_defect (tier : Tier) {maxDepth : Nat} (h : 1 ≤ maxDepth) {t : Value}
    (ht : t.LeavesShown) (hr : tier.Rejects maxDepth t) :
    ∃ p v c message cause steps, FirstDefect tier maxDepth t p v c ∧
      ∀ {σ : Type} (I : Interp σ), I.hasBase = true → (tier = .extended → I.hasMul = true) →
        ∀ s : Watched σ, ∃ f s',
          (tier.decoding maxDepth t I.watched).exec s = (.error f, s') ∧
          (tier.decoding maxDepth t I).exec s.inner = (.error f, s'.inner) ∧
          (s.Took s' steps ∧ f = .fault (.decoding message c.code (c.tag v) p {} cause) ∨
            s.Raised s' f steps ∧ ¬ I.NeverRaises) := by
  obtain ⟨_, hc, p, v, c, d, hd, hcode, htag, rfl⟩ :=
    reported_of_rejected ht ((Tier.rejects_iff h).mp hr)
  refine ⟨p, v, c, d.message, d.cause, (tier.script maxDepth t).steps, hd, ?_⟩
  intro σ I hI hm s
  obtain ⟨f, s', hw, hq, outcome⟩ := (Tier.shows_decoding tier h hI fun ht _ => hm ht).fails hc s
  refine ⟨f, s', hw, hq, outcome.imp_left fun ⟨took, hf⟩ => ⟨took, ?_⟩⟩
  rw [hf, Defect.fault, hcode, htag, List.nil_append]

theorem decoding_reports_bare_operand :
    let t := (Tree.node "Add" [.node "Lit" [.leaf "7"], .leaf "x"]).toValue
    let I : Interp Unit := .constant .null
    Tier.base.Rejects 3 t ∧ ∃ p v c message cause, FirstDefect .base 3 t p v c ∧
      ∀ s, ∃ s', (Tier.base.decoding 3 t I.watched).exec s =
        (.error (.fault (.decoding message c.code (c.tag v) p {} cause)), s') := by
  intro t I
  have shown : t.LeavesShown := Tree.leavesShown _
  have never : I.NeverRaises := Interp.neverRaises_constant .null
  have rejects : Tier.base.Rejects 3 t := ⟨Unit, I, (), (), _, rfl, never, rfl⟩
  obtain ⟨p, v, c, message, cause, steps, first, report⟩ :=
    decoding_reports_first_defect .base (by decide) shown rejects
  refine ⟨rejects, p, v, c, message, cause, first, ?_⟩
  intro s
  obtain ⟨f, s', h, -, ⟨-, rfl⟩ | ⟨-, raises⟩⟩ := report I rfl (fun _ => rfl) s
  · exact ⟨s', h⟩
  · exact absurd never raises

end Symantics
