import Symantics.Proofs.Logs
import Symantics.Proofs.Paths
import Symantics.Proofs.RoundTrip

/-
  The depth that a decoder allows.

  A decoder that goes deeper than another one with the same rules keeps it: it does the
  same on a tree, unless this one gets to a path as long as it goes deep
  (`Decoder.Exceeds`), and then it has done the same up to there (`deepened`). A tree of
  no more depth has no such path. In a tree of the language the literals have leaves
  below them, which `Value.depth` counts and decoders do not look at, so the least depth
  at which the tree is accepted is one less than its own (`accepts_iff`).
-/
namespace Symantics

variable {σ : Type}

/-! ## Deeper decoders -/

namespace Decoder

/-- The failure of a decoder at a path that is deeper than it goes. -/
def tooDeep (d : Decoder σ) (p : Path) : Failure := .fault ((Defect.tooDeep d.maxDepth).fault p)

/-- Decoding a tree from `s`, a decoder gets in the state `s'` to a path that is deeper than it
goes. -/
def Exceeds (d : Decoder σ) (I : Interp σ) (t : Value) (s : σ) (p : Path) (s' : σ) : Prop :=
  ∃ v, d.Visits I (d.start t s) ⟨0, p, v, s'⟩

/-- Decoding a tree with a decoder that goes deeper is decoding it with the decoder itself, up to a
path that is deeper than this one goes. -/
structure Deepened (d d' : Decoder σ) (I : Interp σ) (t : Value) (s : σ) : Prop where
  within : (¬ ∃ p s', d.Exceeds I t s p s') → (d'.decode t I).exec s = (d.decode t I).exec s
  exceeded : ∀ p s', d.Exceeds I t s p s' → (d.decode t I).exec s = (.error (d.tooDeep p), s')
  -- Nothing else ends so, unless it is a rule that fails so.
  own : ∀ p s', (d.decode t I).exec s = (.error (d.tooDeep p), s') →
    d.Exceeds I t s p s' ∨ d.Foreign I (d.start t s) (d.tooDeep p) s'
  -- What has been logged by then is logged in any case. The calls on the interpretation are a log
  -- that the rules only add to.
  logged : ∀ (κ : Type) (log : σ → List κ), (∀ r ∈ d.rules, r.2.Adds log I) →
    log ((d.decode t I).exec s).2 <+: log ((d'.decode t I).exec s).2

section

variable {d d' : Decoder σ} {I : Interp σ} {t : Value} {s s' : σ} {p : Path}

theorem exec_decode_of_exceeds (h : d.Exceeds I t s p s') :
    (d.decode t I).exec s = (.error (d.tooDeep p), s') := by
  obtain ⟨v, visits⟩ := h
  exact visits.fails rfl

theorem exceeds_or_foreign (h : (d.decode t I).exec s = (.error (d.tooDeep p), s')) :
    d.Exceeds I t s p s' ∨ d.Foreign I (d.start t s) (d.tooDeep p) s' := by
  have start : d.outcomeAt I (d.start t s) = (.error (d.tooDeep p), s') := h
  rcases refuses_or_foreign start with ⟨b, defect, visits, refuses, same, rfl⟩ | foreign
  · -- the code says that no level is left
    have fault : (Defect.tooDeep d.maxDepth).fault p = defect.fault b.path := Failure.fault.inj same
    have code : defect.code = "DEPTH_EXCEEDED" := (congrArg Fault.code fault).symm
    have levels : b.levels = 0 := (code_of_refuses refuses).mp code
    have path : p = b.path := congrArg (fun f : Fault => f.place.2) fault
    obtain ⟨_, _, v, _⟩ := b
    subst levels path
    exact .inl ⟨v, visits⟩
  · exact .inr foreign

section

variable (rules : d'.rules = d.rules)

include rules

/-- What is at hand where a level is left depends on the rules only. -/
theorem ruleAt_of_rules (levels levels' : Nat) (v : Value) :
    d'.ruleAt (levels' + 1) v = d.ruleAt (levels + 1) v := by
  cases v with
  | node tag children =>
    cases tag with
    | text word => simp only [ruleAt, tags, rules]
    | _ => rfl
  | _ => rfl

theorem keptBy_of_rules (more : Nat) : d.KeptBy d' more := by
  intro levels v rule ruled
  cases levels with
  | zero => cases ruled
  | succ left => rwa [Nat.add_right_comm, ruleAt_of_rules rules left (left + more)]

theorem deepened (deeper : d.maxDepth ≤ d'.maxDepth) (I : Interp σ) (t : Value) (s : σ) :
    d.Deepened d' I t s := by
  obtain ⟨more, depth⟩ := Nat.exists_eq_add_of_le deeper
  have raised : (d.start t s).raised more = d'.start t s := by
    rw [start, start, Stand.raised, depth]
  constructor
  · intro within
    suffices d'.outcomeAt I ((d.start t s).raised more) = d.outcomeAt I (d.start t s) by
      rwa [raised] at this
    apply outcomeAt_congr
    intro b visits
    left
    obtain ⟨levels, p, v, s'⟩ := b
    cases levels with
    | zero => exact absurd ⟨p, s', v, visits⟩ within
    | succ left => rw [Nat.add_right_comm, ruleAt_of_rules rules left (left + more)]
  · intro p s'
    exact exec_decode_of_exceeds
  · intro p s'
    exact exceeds_or_foreign
  · intro κ log adds
    have logs := prefix_of_kept (keptBy_of_rules rules more) (rules ▸ adds) (d.start t s)
    rwa [raised] at logs

end

end

end Decoder

/-! ## The depth of a tree -/

namespace Value

/-- Whatever stands in the tree is a leaf or a node. -/
def IsTree (t : Value) : Prop :=
  ∀ p v, t.at? p = some v → (∃ content, v = leaf content) ∨ ∃ tag children, v = node tag children

theorem IsTree.child {t v : Value} (h : t.IsTree) (hv : v ∈ t.children) : v.IsTree := by
  obtain ⟨i, hi⟩ := List.mem_iff_getElem?.mp hv
  exact fun p w hw => h (i :: p) w ((at?_cons hi).trans hw)

theorem deepest_of_forall {vs : List Value} (h : ∀ v ∈ vs, ∃ k, v.depth = .ok k) :
    ∃ k, deepest vs = .ok k := by
  induction vs with
  | nil => exact ⟨0, rfl⟩
  | cons v vs ih =>
    obtain ⟨j, hj⟩ := h v List.mem_cons_self
    obtain ⟨k, hk⟩ := ih fun w hw => h w (List.mem_cons_of_mem v hw)
    exact ⟨max j k, by simp only [deepest, hj, hk]; rfl⟩

/-- No child is deeper than the deepest. -/
theorem depth_le_of_deepest {vs : List Value} {k : Nat} (h : deepest vs = .ok k) :
    ∀ v ∈ vs, ∃ j, v.depth = .ok j ∧ j ≤ k := by
  induction vs generalizing k with
  | nil =>
    intro v hv
    cases hv
  | cons v vs ih =>
    rw [deepest] at h
    cases hj : v.depth with
    | error f =>
      rw [hj] at h
      cases h
    | ok j =>
      rw [hj] at h
      cases hm : deepest vs with
      | error f =>
        rw [hm] at h
        cases h
      | ok m =>
        rw [hm] at h
        cases h
        intro w hw
        rcases List.mem_cons.mp hw with rfl | hw
        · exact ⟨j, hj, Nat.le_max_left j m⟩
        · obtain ⟨i, hi, le⟩ := ih hm w hw
          exact ⟨i, hi, Nat.le_trans le (Nat.le_max_right j m)⟩

/-- The depth of a tree is known. -/
theorem IsTree.exists_depth {t : Value} (h : t.IsTree) : ∃ k, t.depth = .ok k := by
  cases t with
  | leaf content => exact ⟨1, rfl⟩
  | node tag children =>
    have below : ∀ v ∈ children, ∃ k, v.depth = .ok k := fun v hv => (h.child hv).exists_depth
    obtain ⟨k, hk⟩ := deepest_of_forall below
    exact ⟨1 + k, by simp only [depth, hk]; rfl⟩
  | _ =>
    rcases h [] _ rfl with ⟨_, other⟩ | ⟨_, _, other⟩
    · cases other
    · cases other

theorem depth_node {tag : Value} {children : List Value} {k : Nat}
    (h : (node tag children).depth = .ok k) : ∃ m, deepest children = .ok m ∧ k = 1 + m := by
  rw [depth] at h
  cases below : deepest children with
  | error f =>
    rw [below] at h
    cases h
  | ok m =>
    rw [below] at h
    exact ⟨m, rfl, (Except.ok.inj h).symm⟩

theorem depth_pos {t : Value} {k : Nat} (h : t.depth = .ok k) : 0 < k := by
  cases t with
  | leaf content =>
    cases h
    exact Nat.one_pos
  | node tag children =>
    obtain ⟨m, -, rfl⟩ := depth_node h
    omega
  | _ => cases h

/-- A child is less deep than its node. -/
theorem depth_child {t v : Value} {k : Nat} (h : t.depth = .ok k) (hv : v ∈ t.children) :
    ∃ j, v.depth = .ok j ∧ j < k := by
  cases t with
  | node tag children =>
    obtain ⟨m, below, rfl⟩ := depth_node h
    obtain ⟨j, hj, le⟩ := depth_le_of_deepest below v hv
    exact ⟨j, hj, by omega⟩
  | _ => cases hv

/-- A path in a tree has fewer steps than the tree has levels. -/
theorem length_lt_of_depth {t v : Value} {p : Path} {k : Nat} (h : t.depth = .ok k)
    (there : t.at? p = some v) : p.length < k := by
  induction p generalizing t k with
  | nil => exact depth_pos h
  | cons i p ih =>
    cases child : t.children[i]? with
    | none => simp [at?, child] at there
    | some c =>
      rw [at?_cons child] at there
      obtain ⟨j, hj, lt⟩ := depth_child h (List.mem_of_getElem? child)
      have below := ih hj there
      simp only [List.length_cons]
      omega

end Value

theorem Tree.isTree (t : Tree) : t.toValue.IsTree := by
  intro p v h
  obtain ⟨u, rfl⟩ := exists_of_at? h
  cases u with
  | leaf text => exact .inl ⟨_, rfl⟩
  | node tag ts => exact .inr ⟨_, _, rfl⟩

/-- A decoder that goes as deep as the tree does not get to where no level is left. -/
theorem Decoder.not_exceeds {d : Decoder σ} {t : Value} {k : Nat} (depth : t.depth = .ok k)
    (le : k ≤ d.maxDepth) (I : Interp σ) (s : σ) : ¬ ∃ p s', d.Exceeds I t s p s' := by
  rintro ⟨p, s', v, visits⟩
  have within := visits.within (d.within_start t s)
  have short : p.length < k := Value.length_lt_of_depth depth within.there
  have used : p.length + 0 = d.maxDepth := within.used
  omega

/-! ## Accepted trees -/

/-- Decoding the tree with a new decoder of the tier gives a value. -/
def Tier.Accepts (tier : Tier) (I : Interp σ) (s : σ) (maxDepth : Int) (t : Value) : Prop :=
  ∃ v s', (tier.decoding maxDepth t I).exec s = (.ok v, s')

theorem Decoder.ofTier_eq_error (tier : Tier) {maxDepth : Int} (h : maxDepth < 1) :
    (Decoder.ofTier tier maxDepth : Except Failure (Decoder σ)) =
      .error (.misuse (.showing maxDepth (.tooShallow maxDepth))) := by
  have shallow : ¬ 1 ≤ maxDepth := by omega
  cases tier
  · simp only [ofTier, base, ofRules, dif_neg shallow]
  · simp only [ofTier, extended, base, ofRules, dif_neg shallow]
    rfl

/-- No decoder is made that may not decode even a root. -/
theorem Tier.decoding_eq_throw (tier : Tier) {maxDepth : Int} (h : maxDepth < 1) (t : Value)
    (I : Interp σ) : tier.decoding maxDepth t I =
      throw (.misuse (.showing maxDepth (.tooShallow maxDepth))) := by
  rw [decoding, Decoder.ofTier_eq_error tier h]
  rfl

/-- Only whole expressions are replayed to their end. -/
theorem Exp.widen_of_replay {I : Interp σ} {x : Exp Failure} {s s' : σ} {v : Value}
    (h : (x.replay I).exec s = (.ok v, s')) : ∃ e : Exp, x = e.widen := by
  induction x generalizing s s' v with
  | lit n => exact ⟨.lit n, rfl⟩
  | neg x ih =>
    obtain ⟨w, s₁, operand, -⟩ := Run.of_exec_bind_ok h
    obtain ⟨e, rfl⟩ := ih operand
    exact ⟨.neg e, rfl⟩
  | add x y ihx ihy =>
    obtain ⟨w, s₁, left, onward⟩ := Run.of_exec_bind_ok h
    obtain ⟨u, s₂, right, -⟩ := Run.of_exec_bind_ok onward
    obtain ⟨l, rfl⟩ := ihx left
    obtain ⟨r, rfl⟩ := ihy right
    exact ⟨.add l r, rfl⟩
  | mul x y ihx ihy =>
    obtain ⟨w, s₁, left, onward⟩ := Run.of_exec_bind_ok h
    obtain ⟨u, s₂, right, -⟩ := Run.of_exec_bind_ok onward
    obtain ⟨l, rfl⟩ := ihx left
    obtain ⟨r, rfl⟩ := ihy right
    exact ⟨.mul l r, rfl⟩
  | stray f => cases h

namespace Denotes

variable {tier : Tier} {levels : Nat} {t : Value} {e : Exp} (h : Denotes tier levels t e)

include h

theorem height_le : e.height ≤ levels := by
  induction h with
  | lit h => simp only [Exp.height]; omega
  | neg _ ih => simp only [Exp.height]; omega
  | add _ _ ihl ihr | mul _ _ _ ihl ihr => simp only [Exp.height]; omega

/-- A tree denotes what it does with as many levels as the expression has. -/
theorem of_height_le {levels' : Nat} (le : e.height ≤ levels') : Denotes tier levels' t e := by
  induction h generalizing levels' with
  | lit h =>
    obtain ⟨left, rfl⟩ := Nat.exists_eq_add_of_le' le
    exact .lit h
  | neg _ ih =>
    simp only [Exp.height] at le
    obtain ⟨left, rfl⟩ := Nat.exists_eq_add_of_le' (show 1 ≤ levels' by omega)
    exact .neg (ih (by omega))
  | add _ _ ihl ihr =>
    simp only [Exp.height] at le
    obtain ⟨left, rfl⟩ := Nat.exists_eq_add_of_le' (show 1 ≤ levels' by omega)
    exact .add (ihl (by omega)) (ihr (by omega))
  | mul ht _ _ ihl ihr =>
    simp only [Exp.height] at le
    obtain ⟨left, rfl⟩ := Nat.exists_eq_add_of_le' (show 1 ≤ levels' by omega)
    exact .mul ht (ihl (by omega)) (ihr (by omega))

/-- The leaves of the literals are one more level. -/
theorem depth_eq : t.depth = .ok (e.height + 1) := by
  induction h with
  | lit h => rfl
  | @neg _ v e _ ih =>
    calc (Interp.tagged .neg [v]).depth
        = .ok (1 + max (e.height + 1) 0) := by
          simp only [Interp.tagged, Value.depth, Value.deepest, ih]
          rfl
      _ = .ok ((Exp.neg e).height + 1) := by
          simp only [Exp.height, Nat.max_zero, Nat.add_assoc]
  | @add _ v w l r _ _ ihl ihr | @mul _ v w l r _ _ _ ihl ihr =>
    calc (Interp.tagged _ [v, w]).depth
        = .ok (1 + max (l.height + 1) (max (r.height + 1) 0)) := by
          simp only [Interp.tagged, Value.depth, Value.deepest, ihl, ihr]
          rfl
      _ = .ok (1 + max l.height r.height + 1) := by
          rw [Nat.max_zero, Nat.add_max_add_right, Nat.add_assoc]

end Denotes

section

variable {tier : Tier} {I : Interp σ} {s : σ} {t : Value}

theorem Denotes.decoding_eq_replay {n : Nat} (h : 1 ≤ n) {e : Exp} (he : Denotes tier n t e)
    (I : Interp σ) : tier.decoding n t I = e.widen.replay I := by
  rw [Tier.decoding_eq_replay tier h, he.reading_eq]

namespace Tier

/-- Only trees of the grammar are accepted. -/
theorem Accepts.denotes {m : Int} (h : tier.Accepts I s m t) :
    ∃ (n : Nat) (e : Exp), m = n ∧ 1 ≤ n ∧ Denotes tier n t e := by
  obtain ⟨v, s', decoded⟩ := h
  by_cases shallow : m < 1
  · rw [decoding_eq_throw tier shallow] at decoded
    cases decoded
  · obtain ⟨n, rfl⟩ := Int.eq_ofNat_of_zero_le (show 0 ≤ m by omega)
    have one_le : 1 ≤ n := by omega
    rw [decoding_eq_replay tier one_le] at decoded
    obtain ⟨e, whole⟩ := Exp.widen_of_replay decoded
    exact ⟨n, e, rfl, one_le, Value.denotes_of_reading whole⟩

/-- A tree that is accepted at some depth is accepted from one less than its own depth on. -/
theorem accepts_iff {m : Int} (accepted : tier.Accepts I s m t) :
    ∃ k : Nat, t.depth = .ok (k + 1) ∧ ∀ m' : Int, tier.Accepts I s m' t ↔ k ≤ m' := by
  obtain ⟨n, e, rfl, one_le, denotes⟩ := accepted.denotes
  refine ⟨e.height, denotes.depth_eq, ?_⟩
  intro m'
  constructor
  · intro accepted'
    obtain ⟨n', e', rfl, -, denotes'⟩ := accepted'.denotes
    have same : e.height + 1 = e'.height + 1 :=
      Except.ok.inj (denotes.depth_eq.symm.trans denotes'.depth_eq)
    have le := denotes'.height_le
    omega
  · intro le
    have pos : 0 < e.height := e.height_pos
    obtain ⟨n', rfl⟩ := Int.eq_ofNat_of_zero_le (show 0 ≤ m' by omega)
    have denotes' : Denotes tier n' t e := denotes.of_height_le (by omega)
    rw [Accepts, denotes.decoding_eq_replay one_le] at accepted
    rwa [Accepts, denotes'.decoding_eq_replay (by omega)]

/-- The calls that are made at some depth are the first of those at any greater one. -/
theorem calls_of_deeper (tier : Tier) {m m' : Int} (le : m ≤ m') (I : Interp σ) (t : Value)
    (s : σ) : I.callsOf (tier.decoding m t) s <+: I.callsOf (tier.decoding m' t) s := by
  by_cases shallow : m < 1
  · rw [Interp.callsOf, decoding_eq_throw tier shallow]
    exact List.nil_prefix
  · obtain ⟨n, rfl⟩ := Int.eq_ofNat_of_zero_le (show 0 ≤ m by omega)
    obtain ⟨n', rfl⟩ := Int.eq_ofNat_of_zero_le (show 0 ≤ m' by omega)
    have one_le : 1 ≤ n := by omega
    have one_le' : 1 ≤ n' := by omega
    have deepened : (Decoder.tiered tier n one_le).Deepened (.tiered tier n' one_le') I.watched t
        ⟨s, []⟩ := by
      refine Decoder.deepened ?_ ?_ _ _ _
      · rfl
      · show n ≤ n'
        omega
    rw [Interp.callsOf, Interp.callsOf, decoding_eq tier one_le, decoding_eq tier one_le']
    apply deepened.logged Call Kept.calls
    intro r hr
    have ofTier : r ∈ (tier.rules : Rules (Watched σ)) := hr
    obtain ⟨tag, -, rfl⟩ := mem_rules ofTier
    exact Rule.adds_ofTag I tag

end Tier

end

/-- A greater depth changes nothing but what happens where the depth is exceeded, and the calls
made by then are made in any case. No tree exceeds a depth that it has itself, and the trees that
a tier accepts at some depth are accepted from one less than their own depth on. -/
theorem depth_limit_exact :
    (∀ (σ : Type) (d d' : Decoder σ), d'.rules = d.rules → d.maxDepth ≤ d'.maxDepth →
      ∀ (I : Interp σ) (t : Value) (s : σ), d.Deepened d' I t s) ∧
    (∀ (tier : Tier) (m m' : Int), m ≤ m' → ∀ (σ : Type) (I : Interp σ) (t : Value) (s : σ),
      I.callsOf (tier.decoding m t) s <+: I.callsOf (tier.decoding m' t) s) ∧
    (∀ t : Value, t.IsTree → ∃ k, t.depth = .ok k ∧
      ∀ (σ : Type) (d : Decoder σ), k ≤ d.maxDepth →
        ∀ (I : Interp σ) (s : σ), ¬ ∃ p s', d.Exceeds I t s p s') ∧
    ∀ (tier : Tier) (σ : Type) (I : Interp σ) (s : σ) (m : Int) (t : Value),
      tier.Accepts I s m t →
        ∃ k : Nat, t.depth = .ok (k + 1) ∧ ∀ m' : Int, tier.Accepts I s m' t ↔ k ≤ m' := by
  refine ⟨?_, ?_, ?_, ?_⟩
  · intro σ d d' rules deeper
    exact Decoder.deepened rules deeper
  · intro tier m m' le σ I t s
    exact tier.calls_of_deeper le I t s
  · intro t tree
    obtain ⟨k, depth⟩ := tree.exists_depth
    exact ⟨k, depth, fun σ d le I s => Decoder.not_exceeds depth le I s⟩
  · intro tier σ I s m t accepted
    exact Tier.accepts_iff accepted

/-- The leaf of a literal is a third level for the tree, and none for the decoder. -/
theorem depth_limit_exact_of_negation :
    let I : Interp Unit := .treeBuilder .base
    let t := (Tree.node "Neg" [.node "Lit" [.leaf "7"]]).toValue
    let one : Decoder Unit := .tiered .base 1 (by decide)
    let three : Decoder Unit := .tiered .base 3 (by decide)
    (one.Exceeds I t () [0] () ∧ (one.decode t I).exec () = (.error (one.tooDeep [0]), ())) ∧
    I.callsOf (Tier.base.decoding 1 t) () <+: I.callsOf (Tier.base.decoding 2 t) () ∧
    (t.IsTree ∧ t.depth = .ok 3 ∧ ¬ ∃ p s', three.Exceeds I t () p s') ∧
    Tier.base.Accepts I () 7 t ∧ ∀ m : Int, Tier.base.Accepts I () m t ↔ 2 ≤ m := by
  intro I t one three
  obtain ⟨deepened, calls, exceeds, accepts⟩ := depth_limit_exact
  refine ⟨?_, ?_, ?_, ?_⟩
  · have beyond : one.Exceeds I t () [0] () :=
      ⟨_, .single (@Decoder.Descends.child _ one I (one.start t ()) .neg _ [] [] [] _ ()
        rfl rfl rfl rfl)⟩
    exact ⟨beyond, (deepened _ one three rfl (by decide) I t ()).exceeded [0] () beyond⟩
  · exact calls .base 1 2 (by decide) Unit I t ()
  · have tree : t.IsTree := Tree.isTree _
    obtain ⟨k, depth, within⟩ := exceeds t tree
    obtain rfl : 3 = k := Except.ok.inj depth
    exact ⟨tree, rfl, within Unit three (by decide) I ()⟩
  · have accepted : Tier.base.Accepts I () 7 t := ⟨_, _, rfl⟩
    obtain ⟨k, depth, least⟩ := accepts .base Unit I () 7 t accepted
    obtain rfl : 2 = k := Nat.succ.inj (Except.ok.inj depth)
    exact ⟨accepted, least⟩

end Symantics
