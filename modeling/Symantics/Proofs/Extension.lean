import Symantics.Proofs.Logs
import Symantics.Tree

/-
  Extending a decoder.

  A decoder that is extended by rules for other tags does what it did before, up to the
  first node whose tag it did not know (`Decoder.Stuck`). A tree without such a node on
  the way is decoded as before, state for state; at such a node the decoder fails, and
  the extended one either fails there too or goes on from there
  (`extension_conservative`). This holds of every table, whatever its rules do, since the
  extended decoder keeps the one that it extends.

  A state may keep a log that runs only add to (`Run.Adds`), as the state of a watched
  interpretation keeps its calls. Then what a decoder has logged where it is stuck is
  the beginning of what the extended decoder logs.
-/
namespace Symantics

variable {σ : Type}

/-! ## Tables -/

theorem Rules.lookup_eq_none {rules : Rules σ} {tag : String} :
    rules.lookup tag = none ↔ tag ∉ rules.tags := by
  simp only [tags, List.mem_mergeSort, List.mem_eraseDups, List.mem_map, List.lookup_eq_none_iff]
  constructor
  · rintro h ⟨p, hp, rfl⟩
    exact absurd rfl (bne_iff_ne.mp (h p hp))
  · intro h p hp
    apply bne_iff_ne.mpr
    rintro rfl
    exact h ⟨p, hp, rfl⟩

namespace Decoder

variable {d : Decoder σ} {rules : Rules σ}

theorem lookup_extend (word : String) :
    (d.extend rules).rules.lookup word = (rules.lookup word).or (d.rules.lookup word) :=
  List.lookup_append

/-- A tag that the decoder knows keeps its rule. -/
theorem lookup_extend_of_known (disjoint : ∀ tag ∈ d.tags, tag ∉ rules.tags) {word : String}
    {rule : Rule σ} (h : d.rules.lookup word = some rule) :
    (d.extend rules).rules.lookup word = some rule := by
  have known : word ∈ d.tags := by
    apply Classical.byContradiction
    intro unknown
    cases h.symm.trans (Rules.lookup_eq_none.mpr unknown)
  rw [lookup_extend, Rules.lookup_eq_none.mpr (disjoint word known), Option.none_or, h]

theorem keptBy_extend (disjoint : ∀ tag ∈ d.tags, tag ∉ rules.tags) :
    d.KeptBy (d.extend rules) 0 := by
  intro levels v rule ruled
  obtain ⟨left, word, children, rfl, rfl, known, arity⟩ := ruleAt_eq_ok.mp ruled
  exact ruleAt_eq_ok.mpr
    ⟨left, word, children, rfl, rfl, lookup_extend_of_known disjoint known, arity⟩

/-! ## Unknown tags -/

/-- The failure of a decoder at a node with a tag that it does not know. -/
def unknown (d : Decoder σ) (tag : String) (path : Path) : Failure :=
  .fault ((Defect.unknownTag tag (Text.quoted tag) d.tags).fault path)

theorem unknown_inj {tag tag' : String} {p p' : Path} (h : d.unknown tag p = d.unknown tag' p') :
    tag = tag' ∧ p = p' := by
  have place : (some tag, p) = (some tag', p') := congrArg Fault.place (Failure.fault.inj h)
  obtain ⟨tags, paths⟩ := Prod.mk.inj place
  exact ⟨Option.some.inj tags, paths⟩

/-- Decoding from `s` what stands at a path, with so many levels left, the decoder gets to a node
with a tag that it does not know; there the state is `s'`. -/
inductive Stuck (d : Decoder σ) (I : Interp σ) :
    Nat → Path → Value → σ → String → Path → σ → Prop where
  | here {levels : Nat} {path : Path} {tag : String} {children : List Value} {s : σ}
      (unknown : d.rules.lookup tag = none) :
      Stuck d I (levels + 1) path (.node (.text tag) children) s tag path s
  | child {levels : Nat} {path p : Path} {word tag : String} {before after values : List Value}
      {v : Value} {rule : Rule σ} {build : Interp σ → List Value → Run σ Value} {s s₁ s' : σ}
      (known : d.rules.lookup word = some rule) (operator : rule.action = .operator build)
      (arity : (before ++ v :: after).length = rule.arity)
      (decoded : (d.decodeChildren I levels path before).exec s = (.ok values, s₁))
      (stuck : Stuck d I levels (path ++ [before.length]) v s₁ tag p s') :
      Stuck d I (levels + 1) path (.node (.text word) (before ++ v :: after)) s tag p s'

section

variable {I : Interp σ} {levels : Nat} {path p : Path} {v : Value} {s s' : σ} {tag : String}

/-- Where the decoder is stuck, it visits a node with a tag that it does not know. -/
theorem visits_of_stuck (h : d.Stuck I levels path v s tag p s') :
    ∃ left children, d.rules.lookup tag = none ∧
      d.Visits I ⟨levels, path, v, s⟩ ⟨left + 1, p, .node (.text tag) children, s'⟩ := by
  induction h with
  | here unknown => exact ⟨_, _, unknown, .refl⟩
  | child known operator arity decoded _ ih =>
    obtain ⟨left, children, unknown, visits⟩ := ih
    refine ⟨left, children, unknown, .head (.child ?_ operator rfl decoded) visits⟩
    exact ruleAt_eq_ok.mpr ⟨_, _, _, rfl, rfl, known, arity⟩

theorem stuck_of_visits (unknown : d.rules.lookup tag = none) {a : Stand σ}
    {children : List Value} (h : d.Visits I a ⟨levels + 1, p, .node (.text tag) children, s'⟩) :
    d.Stuck I a.levels a.path a.value a.state tag p s' := by
  induction h using Relation.ReflTransGen.head_induction_on with
  | refl => exact .here unknown
  | @head a b step _ ih =>
    cases step with
    | child ruled operator split decoded =>
      obtain ⟨left, word, children, levels, value, known, arity⟩ := ruleAt_eq_ok.mp ruled
      simp only [value, Value.children] at split
      subst split
      simp only [levels, value] at ih decoded ⊢
      exact .child known operator arity decoded ih

/-- Where the decoder is stuck, it fails. -/
theorem exec_decodeAt_of_stuck (h : d.Stuck I levels path v s tag p s') :
    (d.decodeAt I levels path v).exec s = (.error (d.unknown tag p), s') := by
  obtain ⟨left, children, unknown, visits⟩ := visits_of_stuck h
  apply visits.fails
  rw [outcomeAt_of_flaw (Finds.unknownTag unknown).ruleAt_eq]
  rfl

section

variable (disjoint : ∀ tag ∈ d.tags, tag ∉ rules.tags)

include disjoint

/-- A decoder that does not get stuck does the same when it is extended. -/
theorem exec_decodeAt_extend (h : ∀ tag p s', ¬ d.Stuck I levels path v s tag p s') :
    ((d.extend rules).decodeAt I levels path v).exec s = (d.decodeAt I levels path v).exec s := by
  suffices (d.extend rules).outcomeAt I (Stand.raised ⟨levels, path, v, s⟩ 0) =
      d.outcomeAt I ⟨levels, path, v, s⟩ from this
  apply outcomeAt_congr
  intro b visits
  left
  obtain ⟨_ | left, p, u, s'⟩ := b
  · rfl
  · cases u with
    | node tag children =>
      cases tag with
      | text word =>
        cases known : d.rules.lookup word with
        | none => exact absurd (stuck_of_visits known visits) (h word p s')
        | some rule => simp only [ruleAt, lookup_extend_of_known disjoint known, known]
      | _ => rfl
    | _ => rfl

/-- Where a decoder is stuck, the extended one is stuck unless it knows the tag. -/
theorem stuck_extend (h : d.Stuck I levels path v s tag p s') (other : tag ∉ rules.tags) :
    (d.extend rules).Stuck I levels path v s tag p s' := by
  obtain ⟨left, children, unknown, visits⟩ := visits_of_stuck h
  have unknown' : (d.extend rules).rules.lookup tag = none := by
    rw [lookup_extend, Rules.lookup_eq_none.mpr other, Option.none_or, unknown]
  exact stuck_of_visits unknown' (visits.raised (keptBy_extend disjoint))

end

end

/-! ## Conservative extension -/

/-- Decoding a tree with an extended decoder is decoding it with the decoder itself, up to a tag
that this one does not know. -/
structure Conserved (d : Decoder σ) (rules : Rules σ) (I : Interp σ) (t : Value) (s : σ) :
    Prop where
  -- A decoding that does not end at an unknown tag stays what it is.
  known : (∀ tag p, ((d.decode t I).exec s).1 ≠ .error (d.unknown tag p)) →
    ((d.extend rules).decode t I).exec s = (d.decode t I).exec s
  -- A decoding that ends at one still ends there, unless the new rules know the tag; the failure
  -- may list the tags of the extended table.
  unknown : ∀ tag p s', (d.decode t I).exec s = (.error (d.unknown tag p), s') →
    tag ∉ rules.tags →
      ∃ e, (e = d ∨ e = d.extend rules) ∧
        ((d.extend rules).decode t I).exec s = (.error (e.unknown tag p), s')
  -- What has been logged by then is logged in any case. The calls on the interpretation are a log
  -- that the rules only add to.
  logged : ∀ (κ : Type) (log : σ → List κ), (∀ r ∈ (d.extend rules).rules, r.2.Adds log I) →
    log ((d.decode t I).exec s).2 <+: log (((d.extend rules).decode t I).exec s).2

theorem conserved (disjoint : ∀ tag ∈ d.tags, tag ∉ rules.tags) (I : Interp σ) (t : Value)
    (s : σ) : d.Conserved rules I t s := by
  have logged : ∀ (κ : Type) (log : σ → List κ), (∀ r ∈ (d.extend rules).rules, r.2.Adds log I) →
      log ((d.decode t I).exec s).2 <+: log (((d.extend rules).decode t I).exec s).2 :=
    fun κ log adds => prefix_of_kept (keptBy_extend disjoint) adds (d.start t s)
  by_cases h : ∃ tag p s', d.Stuck I d.maxDepth [] t s tag p s'
  · obtain ⟨tag, p, s', stuck⟩ := h
    have fails : (d.decode t I).exec s = (.error (d.unknown tag p), s') :=
      exec_decodeAt_of_stuck stuck
    refine ⟨?_, ?_, logged⟩
    · intro other
      exact absurd (congrArg Prod.fst fails) (other tag p)
    · intro tag' p' s₁ fails' other
      obtain ⟨same, rfl⟩ := Prod.mk.inj (fails.symm.trans fails')
      obtain ⟨rfl, rfl⟩ := unknown_inj (Except.error.inj same)
      exact ⟨d.extend rules, .inr rfl, exec_decodeAt_of_stuck (stuck_extend disjoint stuck other)⟩
  · have same : ((d.extend rules).decode t I).exec s = (d.decode t I).exec s := by
      apply exec_decodeAt_extend disjoint
      intro tag p s' stuck
      exact h ⟨tag, p, s', stuck⟩
    refine ⟨fun _ => same, ?_, logged⟩
    intro tag p s' fails _
    exact ⟨d, .inl rfl, same.trans fails⟩

end Decoder

/-- The rules of a tier are extended by other tags if the table has none for a word of the tier. -/
theorem Decoder.disjoint_tiered {tier : Tier} {maxDepth : Nat} {h : 1 ≤ maxDepth} {rules : Rules σ}
    (other : tier.words.all (fun word => (rules.lookup word).isNone) = true) :
    ∀ tag ∈ (tiered tier maxDepth h : Decoder σ).tags, tag ∉ rules.tags := by
  intro tag ht
  have known : tag ∈ tier.words := Tier.tags_rules tier ▸ ht
  exact Rules.lookup_eq_none.mp (Option.isNone_iff_eq_none.mp (List.all_eq_true.mp other tag known))

/-- Extending a decoder by other tags changes nothing but what happens from an unknown tag on. So
it is with multiplication, and the calls of the base tier are the first of the extended one. -/
theorem extension_conservative :
    (∀ (σ : Type) (d : Decoder σ) (rules : Rules σ), (∀ tag ∈ d.tags, tag ∉ rules.tags) →
      ∀ (I : Interp σ) (t : Value) (s : σ), d.Conserved rules I t s) ∧
    ∀ maxDepth : Nat, 1 ≤ maxDepth → ∃ d : ∀ σ : Type, Decoder σ,
      (∀ σ, Decoder.base maxDepth = .ok (d σ) ∧
        Decoder.extended maxDepth = .ok ((d σ).extend Rules.mul)) ∧
      ∀ (σ : Type) (I : Interp σ) (t : Value) (s : σ), (d σ).Conserved Rules.mul I t s ∧
        I.callsOf ((d _).decode t) s <+: I.callsOf (((d _).extend Rules.mul).decode t) s := by
  constructor
  · intro σ d rules disjoint
    exact Decoder.conserved disjoint
  · intro maxDepth h
    have disjoint : ∀ σ, ∀ tag ∈ (Decoder.tiered .base maxDepth h : Decoder σ).tags,
        tag ∉ (Rules.mul : Rules σ).tags := fun σ => Decoder.disjoint_tiered rfl
    refine ⟨fun σ => .tiered .base maxDepth h, ?_, ?_⟩
    · exact fun σ => ⟨Decoder.ofTier_eq .base h, Decoder.ofTier_eq .extended h⟩
    · intro σ I t s
      refine ⟨Decoder.conserved (disjoint σ) I t s, ?_⟩
      -- the rules of the language add to the calls, as they act on nothing but the interpretation
      apply (Decoder.conserved (disjoint _) I.watched t ⟨s, []⟩).logged Call Kept.calls
      intro r hr
      have ofTier : r ∈ (Tier.extended.rules : Rules (Watched σ)) := hr
      obtain ⟨tag, -, rfl⟩ := Tier.mem_rules ofTier
      exact Rule.adds_ofTag I tag

theorem extension_conservative_after_sibling :
    let I : Interp Unit := .treeBuilder .extended
    let zero : Rules (Watched Unit) := [("Zero", ⟨0, .operator fun J _ => J.litOf 0⟩)]
    let t := (Tree.node "Add" [.node "Lit" [.leaf "01"], .node "Mul" [.node "Zero" []]]).toValue
    let s' : Watched Unit :=
      ⟨(), [⟨.lit, [.int 1], .ok (Interp.tagged .lit [.leaf (.text "1")])⟩]⟩
    (∃ d : Decoder (Watched Unit), (∀ tag ∈ d.tags, tag ∉ zero.tags) ∧
      (d.decode t I.watched).exec ⟨(), []⟩ = (.error (d.unknown "Mul" [1]), s') ∧
      ∃ e, (e = d ∨ e = d.extend zero) ∧
        ((d.extend zero).decode t I.watched).exec ⟨(), []⟩ =
          (.error (e.unknown "Mul" [1]), s')) ∧
    1 ≤ 3 ∧ ∃ d : ∀ σ : Type, Decoder σ,
      (∀ σ, Decoder.base 3 = .ok (d σ) ∧ Decoder.extended 3 = .ok ((d σ).extend Rules.mul)) ∧
      I.callsOf ((d _).decode t) () <+: I.callsOf (((d _).extend Rules.mul).decode t) () := by
  intro I zero t s'
  constructor
  · let d : Decoder (Watched Unit) := .tiered .base 3 (by decide)
    have disjoint : ∀ tag ∈ d.tags, tag ∉ zero.tags := Decoder.disjoint_tiered rfl
    have fails : (d.decode t I.watched).exec ⟨(), []⟩ = (.error (d.unknown "Mul" [1]), s') := rfl
    have other : "Mul" ∉ zero.tags := Rules.lookup_eq_none.mp rfl
    exact ⟨d, disjoint, fails, (extension_conservative.1 _ d zero disjoint I.watched t _).unknown
      "Mul" [1] s' fails other⟩
  · obtain ⟨d, tiers, conserved⟩ := extension_conservative.2 3 (by decide)
    exact ⟨by decide, d, tiers, (conserved Unit I t ()).2⟩

end Symantics
