import Symantics.Interp.Printer
import Symantics.Proofs.DepthLimit
import Symantics.Proofs.Extension
import Symantics.Proofs.Products

/-
  Counterparts in the extended tier.

  Evaluators, printers, tree builders and the products that are nested of them can be made
  in either tier (`Nesting.make`). What is made in the extended tier is the counterpart of
  what is made in the base tier: on the same operands their methods do the same, but for
  the name of the evaluator in the context of an overflow (`Nesting.counterparts`, by
  induction on the nesting).

  A replay without products uses no other method, so it does the same under both
  (`Counterparts.replay`). Decoding is compared in two steps. First the interpretation
  is changed: what the base decoder does is such a replay. Then the decoder is extended,
  under the same interpretation, which is known to change nothing but what happens from an
  unknown tag on (`Decoder.conserved`).
-/
namespace Symantics

variable {σ α β : Type}

/-- The failure without the name of the interpretation under which it arose. -/
def Failure.unnamed : Failure → Failure
  | fault f => fault { f with context := { f.context with interpretation := none } }
  | f => f

/-- What ends like a fault is a fault with its code, tag and path. -/
theorem Failure.unnamed_fault {f : Fault} {e : Failure} (h : (fault f).unnamed = e.unnamed) :
    ∃ g, e = fault g ∧ g.code = f.code ∧ g.place = f.place := by
  cases e with
  | fault g =>
    have same := Failure.fault.inj h
    refine ⟨g, rfl, (congrArg Fault.code same).symm, (congrArg Fault.place same).symm⟩
  | _ => cases h

/-- Two runs end in the same state, with the same value or with failures that differ in the name of
an interpretation at most. -/
inductive EndAlike : Except Failure α × σ → Except Failure α × σ → Prop where
  | returned (a : α) (s : σ) : EndAlike (.ok a, s) (.ok a, s)
  | failed {f g : Failure} (s : σ) (h : f.unnamed = g.unnamed) :
      EndAlike (.error f, s) (.error g, s)

namespace Run

/-- From every state the two runs end alike. -/
def Matches (r q : Run σ α) : Prop := ∀ s, EndAlike (r.exec s) (q.exec s)

namespace Matches

theorem refl (r : Run σ α) : r.Matches r := by
  intro s
  rcases r.exec s with ⟨f | a, s'⟩
  · exact .failed s' rfl
  · exact .returned a s'

theorem throw {f g : Failure} (h : f.unnamed = g.unnamed) :
    (MonadExcept.throw f : Run σ α).Matches (MonadExcept.throw g) := fun s => .failed s h

theorem bind {r q : Run σ α} {k l : α → Run σ β} (h : r.Matches q)
    (hk : ∀ a, (k a).Matches (l a)) : (r >>= k).Matches (q >>= l) := by
  intro s
  have first := h s
  rw [exec_bind, exec_bind]
  generalize r.exec s = x at first ⊢
  generalize q.exec s = y at first ⊢
  cases first with
  | returned a s' => exact hk a s'
  | failed s' same => exact .failed s' same

theorem inTurn {r q r' q' : Run σ Value} (h : r.Matches q) (h' : r'.Matches q') :
    (Run.inTurn r r').Matches (Run.inTurn q q') :=
  h.bind fun _ => h'.bind fun _ => refl _

end Matches

end Run

/-! ## Counterparts -/

namespace Interp

/-- The methods of the base tier do the same in both interpretations, on any operands. -/
structure Counterparts (B X : Interp σ) : Prop where
  lit : ∀ n, (B.litOf n).Matches (X.litOf n)
  neg : ∀ v, (B.neg >>= fun neg => neg v).Matches (X.neg >>= fun neg => neg v)
  add : ∀ v w, (B.add >>= fun add => add v w).Matches (X.add >>= fun add => add v w)

/-- A replay without products does the same under counterparts. -/
theorem Counterparts.replay {B X : Interp σ} (h : B.Counterparts X) {e : Exp Failure}
    (he : e.hasMul = false) : (e.replay B).Matches (e.replay X) := by
  induction e with
  | lit n => exact h.lit n
  | neg e ih => exact (ih he).bind h.neg
  | add l r ihl ihr =>
    obtain ⟨left, right⟩ := Bool.or_eq_false_iff.mp he
    exact (ihl left).bind fun v => (ihr right).bind fun w => h.add v w
  | mul l r => cases he
  | stray f => exact .throw rfl

/-- An expression without products does the same under counterparts that have the methods. -/
theorem Counterparts.run {B X : Interp σ} (h : B.Counterparts X) (hB : B.hasBase = true)
    (hX : X.hasBase = true) {e : Exp} (he : e.hasMul = false) : (e.run B).Matches (e.run X) := by
  have none : ∀ {I : Interp σ}, e.hasMul = true → I.hasMul = true := by
    intro I some
    cases he.symm.trans some
  rw [← Exp.replay_widen hB e none, ← Exp.replay_widen hX e none]
  exact h.replay (by rwa [Exp.hasMul_widen])

theorem unnamed_overflow (name name' operation : String) (operands : List Int) (bits : Nat) :
    (overflow name operation operands bits).unnamed =
      (overflow name' operation operands bits).unnamed := by
  unfold overflow Fault.overflow?
  cases operands.mapM Decimal.text? with
  | none => rfl
  | some shown => cases Decimal.text? bits <;> rfl

/-- Checks of a result that go by different names do the same. -/
theorem matches_checked (name name' : String) (w : Width) (operation : String)
    (operands : List Value) (result : Value) :
    (checked name w operation operands result : Run σ Value).Matches
      (checked name' w operation operands result) := by
  cases w with
  | unbounded => exact .refl _
  | signed bits h =>
    unfold checked
    cases result.integer? with
    | none => exact .refl _
    | some n =>
      cases admitted : (Width.signed bits h).admits n with
      | true =>
        simp only [admitted, if_true]
        exact .refl _
      | false =>
        simp only [admitted, Bool.false_eq_true, if_false]
        exact .throw (unnamed_overflow name name' operation _ bits)

theorem matches_check (w : Width) (operation : String) (operands : List Value)
    (result : Except Misuse Value) :
    (evaluator.check .base w operation operands result : Run σ Value).Matches
      (evaluator.check .extended w operation operands result) := by
  cases result with
  | ok v => exact matches_checked _ _ w operation operands v
  | error m => exact .refl _

theorem counterparts_evaluator (w : Width) :
    (evaluator .base w : Interp σ).Counterparts (evaluator .extended w) where
  lit n := matches_check w "lit" [.int n] (.ok (.int n))
  neg v := matches_check w "neg" [v] _
  add v u := matches_check w "add" [v, u] _

theorem counterparts_printer : (printer .base : Interp σ).Counterparts (printer .extended) where
  lit _ := .refl _
  neg _ := .refl _
  add _ _ := .refl _

theorem counterparts_treeBuilder :
    (treeBuilder .base : Interp σ).Counterparts (treeBuilder .extended) where
  lit _ := .refl _
  neg _ := .refl _
  add _ _ := .refl _

/-- Of a pair each component of a product gets its half. -/
theorem pairedOne_eq (f g : Run σ (Value → Run σ Value)) (v : Value) :
    pairedOne f g v = halves v >>= fun p =>
      Run.inTurn (f >>= fun f => f p.1) (g >>= fun g => g p.2) := by
  simp only [pairedOne, Run.inTurn, bind_assoc]

theorem pairedTwo_eq (f g : Run σ (Value → Value → Run σ Value)) (v w : Value) :
    pairedTwo f g v w = halves v >>= fun p => halves w >>= fun q =>
      Run.inTurn (f >>= fun f => f p.1 q.1) (g >>= fun g => g p.2 q.2) := by
  simp only [pairedTwo, Run.inTurn, bind_assoc]

theorem Counterparts.product {A B A' B' : Interp σ} (hA : A.Counterparts A')
    (hB : B.Counterparts B') : (product .base A B).Counterparts (product .extended A' B') where
  lit n := by
    rw [product_litOf, product_litOf]
    exact (hA.lit n).inTurn (hB.lit n)
  neg v := by
    show (pairedOne A.neg B.neg v).Matches (pairedOne A'.neg B'.neg v)
    rw [pairedOne_eq, pairedOne_eq]
    apply Run.Matches.bind (.refl _)
    rintro ⟨a, b⟩
    exact (hA.neg a).inTurn (hB.neg b)
  add v w := by
    show (pairedTwo A.add B.add v w).Matches (pairedTwo A'.add B'.add v w)
    rw [pairedTwo_eq, pairedTwo_eq]
    apply Run.Matches.bind (.refl _)
    rintro ⟨a, b⟩
    apply Run.Matches.bind (.refl _)
    rintro ⟨c, d⟩
    exact (hA.add a c).inTurn (hB.add b d)

end Interp

/-! ## Nestings -/

/-- How an interpretation is nested of products of evaluators, printers and tree builders. -/
inductive Nesting where
  | evaluator (w : Width)
  | printer
  | treeBuilder
  | product (first second : Nesting)

namespace Nesting

/-- The interpretation of a tier that is nested so. -/
def interp (tier : Tier) : Nesting → Interp σ
  | evaluator w => .evaluator tier w
  | printer => .printer tier
  | treeBuilder => .treeBuilder tier
  | product first second => .product tier (interp tier first) (interp tier second)

/-- The product of a tier, which in the extended tier is made only of components that support it. -/
def duplicate (A B : Interp σ) : Tier → Except Failure (Interp σ)
  | .base => .ok (.baseProduct A B)
  | .extended => Interp.mulProduct A B

/-- Makes the interpretation of a tier, components before their product. -/
def make (tier : Tier) : Nesting → Except Failure (Interp σ)
  | evaluator w => .ok (.evaluator tier w)
  | printer => .ok (.printer tier)
  | treeBuilder => .ok (.treeBuilder tier)
  | product first second => do
    let A ← make tier first
    let B ← make tier second
    duplicate A B tier

theorem hasBase_interp (tier : Tier) (N : Nesting) : (N.interp tier : Interp σ).hasBase = true := by
  cases N <;> rfl

theorem hasMul_interp (N : Nesting) : (N.interp .extended : Interp σ).hasMul = true := by
  cases N <;> rfl

/-- Whatever is nested of them can be made. -/
theorem make_eq (tier : Tier) (N : Nesting) : N.make tier = .ok (N.interp tier : Interp σ) := by
  induction N with
  | product first second ihA ihB =>
    rw [make, ihA, ihB]
    cases tier with
    | base => rfl
    | extended =>
      show Interp.mulProduct (first.interp .extended) (second.interp .extended) = _
      simp only [Interp.mulProduct, List.filter, hasMul_interp, Bool.not_true]
      rfl
  | _ => rfl

theorem counterparts (N : Nesting) :
    (N.interp .base : Interp σ).Counterparts (N.interp .extended) := by
  induction N with
  | evaluator w => exact Interp.counterparts_evaluator w
  | printer => exact Interp.counterparts_printer
  | treeBuilder => exact Interp.counterparts_treeBuilder
  | product first second ihA ihB => exact ihA.product ihB

end Nesting

/-! ## Decoding -/

/-- What decoding comes to in the extended tier, told by what it comes to in the base tier. Unless
that is a fault for an unknown tag, it is the same but for names. If it is one, and the tag is not
that of products, there is such a fault for the same tag and path. -/
structure Follows (base extended : Except Failure Value × σ) : Prop where
  alike : (∀ f s, base = (.error (.fault f), s) → f.code ≠ "UNKNOWN_TAG") → EndAlike base extended
  unknown : ∀ f s, base = (.error (.fault f), s) → f.code = "UNKNOWN_TAG" →
    f.place.1 ≠ some Tag.mul.word →
      ∃ g, extended = (.error (.fault g), s) ∧ g.code = f.code ∧ g.place = f.place

theorem EndAlike.follows {x y : Except Failure Value × σ} (h : EndAlike x y) : Follows x y := by
  refine ⟨fun _ => h, ?_⟩
  rintro f s rfl - -
  cases h with
  | failed s same =>
    obtain ⟨g, rfl, code, place⟩ := Failure.unnamed_fault same
    exact ⟨g, rfl, code, place⟩

theorem Rules.not_mem_tags_mul {tag : String} (h : tag ≠ Tag.mul.word) :
    tag ∉ (Rules.mul : Rules σ).tags := by
  apply Rules.lookup_eq_none.mp
  apply List.lookup_eq_none_iff.mpr
  intro rule hr
  obtain rfl := List.mem_singleton.mp hr
  exact bne_iff_ne.mpr h

theorem Decoder.exists_unknown (d : Decoder σ) (tag : String) (p : Path) :
    ∃ f, d.unknown tag p = .fault f ∧ f.code = "UNKNOWN_TAG" ∧ f.place = (some tag, p) :=
  ⟨_, rfl, rfl, rfl⟩

/-- What ends like a decoding is followed by the decoding with multiplication. -/
theorem EndAlike.follows_of_conserved {d : Decoder σ} {X : Interp σ} {t : Value} {s : σ}
    (h : d.Conserved Rules.mul X t s) {x : Except Failure Value × σ}
    (alike : EndAlike x ((d.decode t X).exec s)) :
    Follows x (((d.extend Rules.mul).decode t X).exec s) := by
  by_cases stuck : ∃ tag p s', (d.decode t X).exec s = (.error (d.unknown tag p), s')
  · obtain ⟨tag, p, s', fails⟩ := stuck
    obtain ⟨f, hf, code, place⟩ := d.exists_unknown tag p
    rw [fails, hf] at alike
    cases alike with
    | failed _ same =>
      obtain ⟨g, rfl, code', place'⟩ := Failure.unnamed_fault same.symm
      rw [code] at code'
      rw [place] at place'
      refine ⟨fun other => absurd code' (other g s' rfl), ?_⟩
      rintro _ _ ⟨⟩ - other
      have unknown : tag ∉ (Rules.mul : Rules σ).tags := by
        apply Rules.not_mem_tags_mul
        rintro rfl
        exact other (congrArg Prod.fst place')
      -- the extended decoder may list more tags, but the fault is for the same one
      obtain ⟨e, -, fails'⟩ := h.unknown tag p s' fails unknown
      obtain ⟨f', hf', code'', place''⟩ := e.exists_unknown tag p
      exact ⟨f', hf' ▸ fails', code''.trans code'.symm, place''.trans place'.symm⟩
  · have same : ((d.extend Rules.mul).decode t X).exec s = (d.decode t X).exec s := by
      apply h.known
      intro tag p fails
      exact stuck ⟨tag, p, _, Prod.ext fails rfl⟩
    rw [same]
    exact alike.follows

/-- Decoding in the extended tier into the counterpart follows decoding in the base tier. -/
theorem Interp.Counterparts.decoding {B X : Interp σ} (h : B.Counterparts X) (maxDepth : Int)
    (t : Value) (s : σ) :
    Follows ((Tier.base.decoding maxDepth t B).exec s)
      ((Tier.extended.decoding maxDepth t X).exec s) := by
  by_cases shallow : maxDepth < 1
  · rw [Tier.decoding_eq_throw _ shallow, Tier.decoding_eq_throw _ shallow]
    exact EndAlike.follows (.failed s rfl)
  · obtain ⟨n, rfl⟩ := Int.eq_ofNat_of_zero_le (show 0 ≤ maxDepth by omega)
    have one_le : 1 ≤ n := by omega
    have read : (t.reading .base n n []).hasMul = false := by
      cases hx : (t.reading .base n n []).hasMul with
      | false => rfl
      | true => cases (Value.hasMul_of_reading hx).1
    have alike := h.replay read s
    rw [← Tier.decoding_eq_replay .base one_le, ← Tier.decoding_eq_replay .base one_le] at alike
    rw [Tier.decoding_eq .base one_le t X] at alike
    rw [Tier.decoding_eq .extended one_le]
    exact alike.follows_of_conserved (Decoder.conserved (Decoder.disjoint_tiered rfl) X t s)

/-- Evaluators, printers, tree builders and what is nested of them with products can be made in
both tiers. An expression without products does the same under what is made in the extended tier as
under what is made in the base tier: it returns the same value, or fails with the same failure, but
for the name of the interpretation in the context of a fault. So does decoding a tree, with the
decoder of the tier that goes as deep, unless the base tier has not got the tag of some node; and
then it fails in the extended tier for the same tag at the same path, unless that is a product. -/
theorem extension_without_interference {σ : Type} (N : Nesting) :
    ∃ B X : Interp σ, N.make .base = .ok B ∧ N.make .extended = .ok X ∧
      (∀ e : Exp, e.hasMul = false → ∀ s,
        EndAlike ((e.run B).exec s) ((e.run X).exec s)) ∧
      ∀ (maxDepth : Int) (t : Value) (s : σ),
        Follows ((Tier.base.decoding maxDepth t B).exec s)
          ((Tier.extended.decoding maxDepth t X).exec s) := by
  refine ⟨N.interp .base, N.interp .extended, N.make_eq .base, N.make_eq .extended, ?_, ?_⟩
  · intro e he
    exact N.counterparts.run (N.hasBase_interp .base) (N.hasBase_interp .extended) he
  · exact N.counterparts.decoding

/-- An overflow in the middle of a product, and a tag that neither tier has. -/
theorem extension_without_interference_of_overflow :
    let byte : Nesting := .evaluator (.signed 8 (by decide))
    let N : Nesting := .product (.product .printer byte) .treeBuilder
    let e : Exp := .add (.lit 100) (.lit 28)
    let d : Decoder Unit := .tiered .base 2 (by decide)
    let t := (Tree.node "Add" [.node "Lit" [.leaf "1"], .node "Pow" []]).toValue
    e.hasMul = false ∧ ∃ B X : Interp Unit, N.make .base = .ok B ∧ N.make .extended = .ok X ∧
      (e.run B).exec () = (.error (Interp.overflow "IntEval[8]" "add" [100, 28] 8), ()) ∧
      EndAlike ((e.run B).exec ()) ((e.run X).exec ()) ∧
      (Tier.base.decoding 2 t B).exec () = (.error (d.unknown "Pow" [1]), ()) ∧
      ∃ g, (Tier.extended.decoding 2 t X).exec () = (.error (.fault g), ()) ∧
        g.code = "UNKNOWN_TAG" ∧ g.place = (some "Pow", [1]) := by
  intro byte N e d t
  have product : e.hasMul = false := rfl
  obtain ⟨B, X, hB, hX, runs, decodes⟩ := extension_without_interference (σ := Unit) N
  obtain rfl : N.interp .base = B := Except.ok.inj ((N.make_eq .base).symm.trans hB)
  have unknown : (Tier.base.decoding 2 t (N.interp .base)).exec () =
      (.error (d.unknown "Pow" [1]), ()) := rfl
  have same := (decodes 2 t ()).unknown _ () unknown rfl (by decide)
  exact ⟨product, _, X, hB, hX, rfl, runs e product (), unknown, same⟩

end Symantics
