import Symantics.Proofs.Evaluation
import Symantics.Proofs.Products
import Symantics.Proofs.Sessions

/-
  What can come of decoding a tree.

  A run lands in `P` or fails in `Q` if that holds from every state (`Run.Lands`), and
  an interpretation keeps to `P` and `Q` if all its methods land there on operands of
  `P` (`Interp.Keeps`). Then so does every replay of numbers that can be written
  (`Exp.lands_replay`), and decoding a tree may moreover fail with a decoding fault.

  Each interpretation of the library keeps to values of one form: numbers within its
  width, texts, trees, and pairs of what its components keep to. None of them fails
  but by an overflow (`Standard.onlyOverflows`), so from decoding a tree of texts into
  one of them nothing else can come.
-/
namespace Symantics

variable {σ : Type}

namespace Run

variable {α β : Type} {P : α → Prop} {Q : Failure → Prop}

/-- From every state the run returns a value of `P` or fails with one of `Q`. -/
def Lands (P : α → Prop) (Q : Failure → Prop) (r : Run σ α) : Prop :=
  ∀ s, match (r.exec s).1 with
    | .ok a => P a
    | .error f => Q f

namespace Lands

theorem pure {a : α} (h : P a) : (Pure.pure a : Run σ α).Lands P Q := fun _ => h

theorem throw {f : Failure} (h : Q f) : (MonadExcept.throw f : Run σ α).Lands P Q := fun _ => h

theorem bind {r : Run σ α} {P' : β → Prop} {k : α → Run σ β} (hr : r.Lands P Q)
    (hk : ∀ a, P a → (k a).Lands P' Q) : (r >>= k).Lands P' Q := by
  intro s
  have first := hr s
  rcases h : r.exec s with ⟨f | a, s'⟩ <;> rw [h] at first
  · rw [exec_bind_error h]
    exact first
  · rw [exec_bind_ok h]
    exact hk a first s'

theorem mono {r : Run σ α} {Q' : Failure → Prop} (h : r.Lands P Q) (hQ : ∀ f, Q f → Q' f) :
    r.Lands P Q' := by
  intro s
  have lands := h s
  rcases hr : r.exec s with ⟨f | a, s'⟩ <;> rw [hr] at lands
  · exact hQ f lands
  · exact lands

theorem inTurn {r q : Run σ Value} {P P' : Value → Prop} (hr : r.Lands P Q) (hq : q.Lands P' Q) :
    (inTurn r q).Lands (fun v => ∃ a b, v = .pair a b ∧ P a ∧ P' b) Q := by
  apply bind hr
  intro a ha
  apply bind hq
  intro b hb
  exact pure ⟨a, b, rfl, ha, hb⟩

theorem of_outcome {r : Run σ α} (h : r.Lands P Q) (s : σ) :
    (∃ a, (r.exec s).1 = .ok a ∧ P a) ∨ ∃ f, (r.exec s).1 = .error f ∧ Q f := by
  have lands := h s
  cases hr : (r.exec s).1 with
  | ok a =>
    rw [hr] at lands
    exact .inl ⟨a, rfl, lands⟩
  | error f =>
    rw [hr] at lands
    exact .inr ⟨f, rfl, lands⟩

end Lands

end Run

/-- The methods are there (but for multiplication, perhaps), and on operands of `P` they return
values of `P` or fail with one of `Q`. Literals are tried on numbers that can be written only. -/
structure Interp.Keeps (I : Interp σ) (P : Value → Prop) (Q : Failure → Prop) : Prop where
  lit : ∀ n, Decimal.fits n = true → (I.litOf n).Lands P Q
  neg : ∀ v, P v → (I.neg >>= fun neg => neg v).Lands P Q
  add : ∀ v w, P v → P w → (I.add >>= fun add => add v w).Lands P Q
  mul : I.hasMul = true → ∀ v w, P v → P w → (I.mul >>= fun mul => mul v w).Lands P Q

theorem Interp.Keeps.mono {I : Interp σ} {P : Value → Prop} {Q Q' : Failure → Prop}
    (h : I.Keeps P Q) (hQ : ∀ f, Q f → Q' f) : I.Keeps P Q' where
  lit n hn := (h.lit n hn).mono hQ
  neg v hv := (h.neg v hv).mono hQ
  add v w hv hw := (h.add v w hv hw).mono hQ
  mul hI v w hv hw := (h.mul hI v w hv hw).mono hQ

/-! ## Replaying and decoding -/

/-- Every number can be written, and what is no expression fails with one of `Q`. -/
def Exp.Writable (Q : Failure → Prop) : Exp Failure → Prop
  | lit n => Decimal.fits n = true
  | neg e => Writable Q e
  | add l r | mul l r => Writable Q l ∧ Writable Q r
  | stray f => Q f

theorem Exp.lands_replay {I : Interp σ} {P : Value → Prop} {Q : Failure → Prop} (hI : I.Keeps P Q) :
    ∀ e : Exp Failure, e.Writable Q → (e.hasMul = true → I.hasMul = true) →
      (e.replay I).Lands P Q := by
  intro e
  induction e with
  | lit n => exact fun hn _ => hI.lit n hn
  | neg e ih =>
    intro he hm
    exact .bind (ih he hm) hI.neg
  | add l r ihl ihr =>
    intro he hm
    simp only [hasMul, Bool.or_eq_true] at hm
    apply Run.Lands.bind (ihl he.1 fun h => hm (.inl h))
    intro v hv
    apply Run.Lands.bind (ihr he.2 fun h => hm (.inr h))
    intro w hw
    exact hI.add v w hv hw
  | mul l r ihl ihr =>
    intro he hm
    have hmul := hm rfl
    rw [replay]
    apply Run.Lands.bind (ihl he.1 fun _ => hmul)
    intro v hv
    apply Run.Lands.bind (ihr he.2 fun _ => hmul)
    intro w hw
    rw [Interp.requireMul_eq hmul, pure_bind]
    exact hI.mul hmul v w hv hw
  | stray f => exact fun hf _ => .throw hf

/-- What a decoder takes a tree for fails with decoding faults only, if the leaves can be shown. -/
theorem Value.writable_reading {tier : Tier} {limit levels : Nat} {path : Path} {t : Value}
    (ht : t.LeavesShown) {Q : Failure → Prop} (hQ : ∀ f : Failure, f.isDecoding = true → Q f) :
    (t.reading tier limit levels path).Writable Q := by
  induction levels generalizing path t with
  | zero => exact hQ _ rfl
  | succ levels ih =>
    have hs := shaped_shape tier t
    rw [reading]
    generalize t.shape tier = s at hs
    cases s with
    | lit n =>
      cases hs with
      | lit hv =>
        obtain ⟨s, -, hn⟩ := numeral_eq_ok.mp hv
        exact hn.fits
    | neg c =>
      cases hs
      exact ih (ht.operand (by simp))
    | add l r | mul l r =>
      cases hs
      exact ⟨ih (ht.operand (by simp)), ih (ht.operand (by simp))⟩
    | flawed f =>
      obtain ⟨d, rfl⟩ := defect_of_flawed hs ht
      exact hQ _ rfl

/-- Decoding a tree into an interpretation that keeps to `P` and `Q` may fail with a decoding fault
too, but in no other way. -/
theorem Tier.lands_decoding (tier : Tier) {maxDepth : Nat} (h : 1 ≤ maxDepth) {t : Value}
    (ht : t.LeavesShown) {I : Interp σ} {P : Value → Prop} {Q : Failure → Prop} (hI : I.Keeps P Q)
    (hm : tier = .extended → I.hasMul = true) :
    (tier.decoding maxDepth t I).Lands P fun f => f.isDecoding = true ∨ Q f := by
  rw [Tier.decoding_eq_replay tier h]
  apply Exp.lands_replay (hI.mono fun _ => .inr)
  · exact Value.writable_reading ht fun _ => .inl
  · exact fun hx => hm (Value.hasMul_of_reading hx).1

/-! ## The interpretations of the library -/

/-- The failure is an overflow. -/
def Failure.Overflows (f : Failure) : Prop :=
  ∃ operation numbers bits, f.IsOverflow operation numbers bits

namespace Width

variable {bits : Nat} {h : 2 ≤ bits} (hle : bits ≤ 4096)

include hle

/-- What is within so few bits can be written. -/
theorem fits_of_admits {n : Int} (hn : (signed bits h).admits n = true) :
    Decimal.fits n = true := by
  have power : ((2 ^ (bits - 1) : Nat) : Int) = 2 ^ (bits - 1) := Int.natCast_pow 2 _
  have bounds := (admits_iff h).mp hn
  rw [← power] at bounds
  have limit : Decimal.digitLimit = 4300 := rfl
  rw [Decimal.fits_iff]
  calc n.natAbs ≤ 2 ^ (bits - 1) := by omega
    _ ≤ 2 ^ Decimal.digitLimit := Nat.pow_le_pow_right (by decide) (by omega)
    _ < 10 ^ Decimal.digitLimit := Nat.pow_lt_pow_left (by decide) (by decide)

theorem fits_bits : Decimal.fits bits = true := by
  rw [Decimal.fits_iff]
  calc (bits : Int).natAbs < 10 ^ 4 := by omega
    _ ≤ 10 ^ Decimal.digitLimit := Nat.pow_le_pow_right (by decide) (by decide)

end Width

namespace Interp

/-- An integer within the width. -/
def IsNumber (w : Width) (v : Value) : Prop := ∃ n, v = .int n ∧ w.admits n = true

/-- Methods that land where they should. -/
theorem Keeps.of_methods {I : Interp σ} {tier : Tier} {P : Value → Prop} {Q : Failure → Prop}
    {f g : Value → Run σ Value} {h k : Value → Value → Run σ Value} (hf : I.lit? = some f)
    (hg : I.neg? = some g) (hh : I.add? = some h) (hk : I.mul? = tier.ifExtended k)
    (lit : ∀ n, Decimal.fits n = true → (f (.int n)).Lands P Q)
    (neg : ∀ v, P v → (g v).Lands P Q) (add : ∀ v w, P v → P w → (h v w).Lands P Q)
    (mul : ∀ v w, P v → P w → (k v w).Lands P Q) : I.Keeps P Q where
  lit n hn := by
    rw [litOf, lit_eq hf]
    exact lit n hn
  neg v hv := by
    rw [neg_eq hg]
    exact neg v hv
  add v w hv hw := by
    rw [add_eq hh]
    exact add v w hv hw
  mul hI v w hv hw := by
    obtain ⟨-, m, hm⟩ := methods_of_hasMul hI
    rw [mul_eq hm]
    cases tier with
    | base => cases hk.symm.trans hm
    | extended =>
      obtain rfl := Option.some.inj (hk.symm.trans hm)
      exact mul v w hv hw

theorem keeps_unbounded (tier : Tier) (Q : Failure → Prop) :
    (evaluator tier .unbounded : Interp σ).Keeps (IsNumber .unbounded) Q := by
  apply Keeps.of_methods rfl rfl rfl rfl
  · intro n _
    exact .pure ⟨n, rfl, rfl⟩
  · rintro _ ⟨n, rfl, -⟩
    exact .pure ⟨-n, rfl, rfl⟩
  · rintro _ _ ⟨m, rfl, -⟩ ⟨n, rfl, -⟩
    exact .pure ⟨m + n, rfl, rfl⟩
  · rintro _ _ ⟨m, rfl, -⟩ ⟨n, rfl, -⟩
    exact .pure ⟨m * n, rfl, rfl⟩

section

variable {bits : Nat} {h : 2 ≤ bits} (hle : bits ≤ 4096)

include hle

/-- A check of a result is passed or overflows when the operands can be written. -/
theorem lands_checked {name method : String} (arguments : List Int)
    (fit : ∀ n ∈ arguments, Decimal.fits n = true) (n : Int) :
    (checked name (.signed bits h) method (arguments.map .int) (.int n) : Run σ Value).Lands
      (IsNumber (.signed bits h)) Failure.Overflows := by
  cases hn : (Width.signed bits h).admits n with
  | true =>
    rw [checked_of_admits hn]
    exact .pure ⟨n, rfl, hn⟩
  | false =>
    rw [checked_of_beyond hn]
    exact .throw ⟨_, _, _, isOverflow_overflow fit (Width.fits_bits hle)⟩

theorem keeps_signed (tier : Tier) :
    (evaluator tier (.signed bits h) : Interp σ).Keeps (IsNumber (.signed bits h))
      Failure.Overflows := by
  -- operands within the width can be written, and so can the number of a literal
  have fit : ∀ {n : Int}, (Width.signed bits h).admits n = true → Decimal.fits n = true :=
    Width.fits_of_admits hle
  apply Keeps.of_methods rfl rfl rfl rfl
  · intro n hn
    exact lands_checked hle [n] (by simpa using hn) n
  · rintro _ ⟨n, rfl, hn⟩
    exact lands_checked hle [n] (by simpa using fit hn) (-n)
  · rintro _ _ ⟨m, rfl, hm⟩ ⟨n, rfl, hn⟩
    exact lands_checked hle [m, n] (by simpa using ⟨fit hm, fit hn⟩) (m + n)
  · rintro _ _ ⟨m, rfl, hm⟩ ⟨n, rfl, hn⟩
    exact lands_checked hle [m, n] (by simpa using ⟨fit hm, fit hn⟩) (m * n)

end

theorem keeps_printer (tier : Tier) (Q : Failure → Prop) :
    (printer tier : Interp σ).Keeps (fun v => ∃ s, v = .text s) Q := by
  apply Keeps.of_methods rfl rfl rfl rfl
  · intro n hn
    simp only [written, Value.written_of_fits hn]
    exact .pure ⟨_, rfl⟩
  · rintro _ ⟨s, rfl⟩
    exact .pure ⟨_, rfl⟩
  · rintro _ _ ⟨s, rfl⟩ ⟨t, rfl⟩
    exact .pure ⟨_, rfl⟩
  · rintro _ _ ⟨s, rfl⟩ ⟨t, rfl⟩
    exact .pure ⟨_, rfl⟩

theorem keeps_treeBuilder (tier : Tier) (Q : Failure → Prop) :
    (treeBuilder tier : Interp σ).Keeps (fun _ => True) Q := by
  apply Keeps.of_methods rfl rfl rfl rfl
  · intro n hn
    simp only [Value.written_of_fits hn]
    exact .pure trivial
  · exact fun _ _ => .pure trivial
  · exact fun _ _ _ _ => .pure trivial
  · exact fun _ _ _ _ => .pure trivial

/-- A product keeps to pairs of what its components keep to. -/
theorem Keeps.product {A B : Interp σ} {P P' : Value → Prop} {Q : Failure → Prop}
    (hA : A.Keeps P Q) (hB : B.Keeps P' Q) {tier : Tier}
    (ht : tier = .extended → A.hasMul = true ∧ B.hasMul = true) :
    (product tier A B).Keeps (fun v => ∃ a b, v = .pair a b ∧ P a ∧ P' b) Q where
  lit n hn := by
    rw [product_litOf]
    exact .inTurn (hA.lit n hn) (hB.lit n hn)
  neg v hv := by
    obtain ⟨a, b, rfl, ha, hb⟩ := hv
    rw [product_neg]
    exact .inTurn (hA.neg a ha) (hB.neg b hb)
  add v w hv hw := by
    obtain ⟨a, b, rfl, ha, hb⟩ := hv
    obtain ⟨c, d, rfl, hc, hd⟩ := hw
    rw [product_add]
    exact .inTurn (hA.add a c ha hc) (hB.add b d hb hd)
  mul hI v w hv hw := by
    obtain ⟨a, b, rfl, ha, hb⟩ := hv
    obtain ⟨c, d, rfl, hc, hd⟩ := hw
    obtain rfl := hasMul_product.mp hI
    obtain ⟨hmA, hmB⟩ := ht rfl
    rw [product_mul]
    exact .inTurn (hA.mul hmA a c ha hc) (hB.mul hmB b d hb hd)

/-- The interpretations that the library has: evaluators of at most 4096 bits or without a bound,
printers and tree builders, and products of such interpretations, in whichever way they are made. -/
inductive Standard : Interp σ → Prop where
  | unbounded (tier : Tier) : Standard (evaluator tier .unbounded)
  | signed (tier : Tier) {bits : Nat} (h : 2 ≤ bits) (hle : bits ≤ 4096) :
      Standard (evaluator tier (.signed bits h))
  | printer (tier : Tier) : Standard (printer tier)
  | treeBuilder (tier : Tier) : Standard (treeBuilder tier)
  | baseProduct {A B : Interp σ} (hA : Standard A) (hB : Standard B) : Standard (baseProduct A B)
  | mulProduct {A B I : Interp σ} (hA : Standard A) (hB : Standard B)
      (hI : mulProduct A B = .ok I) : Standard I
  | bestProduct {A B : Interp σ} (hA : Standard A) (hB : Standard B) : Standard (bestProduct A B)
  | productOf {Is : List (Interp σ)} {I : Interp σ} (h : ∀ J ∈ Is, Standard J)
      (hI : productOf Is = .ok I) : Standard I

/-- A product in the extended tier is made of components that support it. -/
theorem mulProduct_eq_ok {A B I : Interp σ} (h : mulProduct A B = .ok I) :
    I = product .extended A B ∧ A.hasMul = true ∧ B.hasMul = true := by
  unfold mulProduct at h
  split at h
  · next none =>
    have both := List.filter_eq_nil_iff.mp none
    refine ⟨(Except.ok.inj h).symm, ?_, ?_⟩
    · simpa using both A (by simp)
    · simpa using both B (by simp)
  · cases h

/-- The interpretation keeps to some form of values and fails with overflows only. -/
def OnlyOverflows (I : Interp σ) : Prop := ∃ P, I.Keeps P Failure.Overflows

theorem OnlyOverflows.bestProduct {A B : Interp σ} (hA : A.OnlyOverflows)
    (hB : B.OnlyOverflows) : (bestProduct A B).OnlyOverflows := by
  obtain ⟨P, hA⟩ := hA
  obtain ⟨P', hB⟩ := hB
  refine ⟨_, hA.product hB ?_⟩
  intro ht
  rw [← hasMul_bestProduct]
  exact hasMul_product.mpr ht

theorem OnlyOverflows.nested {I : Interp σ} {Js : List (Interp σ)}
    (h : ∀ J ∈ I :: Js, J.OnlyOverflows) : (productOf.nested I Js).OnlyOverflows := by
  induction Js generalizing I with
  | nil => exact h I List.mem_cons_self
  | cons J Js ih =>
    have rest := ih fun K hK => h K (List.mem_cons_of_mem I hK)
    exact (h I List.mem_cons_self).bestProduct rest

theorem Standard.onlyOverflows {I : Interp σ} (h : I.Standard) : I.OnlyOverflows := by
  induction h with
  | unbounded tier => exact ⟨_, keeps_unbounded tier _⟩
  | signed tier _ hle => exact ⟨_, keeps_signed hle tier⟩
  | printer tier => exact ⟨_, keeps_printer tier _⟩
  | treeBuilder tier => exact ⟨_, keeps_treeBuilder tier _⟩
  | baseProduct _ _ ihA ihB =>
    obtain ⟨P, hA⟩ := ihA
    obtain ⟨P', hB⟩ := ihB
    exact ⟨_, hA.product hB (by simp)⟩
  | mulProduct _ _ hI ihA ihB =>
    obtain ⟨rfl, both⟩ := mulProduct_eq_ok hI
    obtain ⟨P, hA⟩ := ihA
    obtain ⟨P', hB⟩ := ihB
    exact ⟨_, hA.product hB fun _ => both⟩
  | bestProduct _ _ ihA ihB => exact ihA.bestProduct ihB
  | @productOf Is I _ hI ih =>
    cases Is with
    | nil => cases hI
    | cons J Js =>
      obtain rfl := Except.ok.inj hI
      exact .nested ih

end Interp

/-- Decoding a tree whose leaves are texts into an interpretation of the library, in the tier that
the interpretation supports, returns a value or fails with a decoding fault or an overflow. -/
theorem decode_returns_or_faults {I : Interp σ} (hI : I.Standard) {t : Value} (ht : t.TextLeaves)
    (settings : Settings) (s : Session σ) :
    (∃ v, ((Session.decode t I none (some settings)).exec s).1 = .ok v) ∨
      ∃ f, ((Session.decode t I none (some settings)).exec s).1 = .error f ∧
        (f.isDecoding = true ∨
          ∃ operation numbers bits, f.IsOverflow operation numbers bits) := by
  obtain ⟨P, keeps⟩ := hI.onlyOverflows
  have multiplies : Session.tierOf I = .extended → I.hasMul = true := by
    intro h
    unfold Session.tierOf at h
    split at h
    · assumption
    · cases h
  have lands := Tier.lands_decoding (Session.tierOf I) settings.depth_ge ht.leavesShown keeps
    multiplies
  obtain ⟨s', hs, -⟩ := Session.does_decode t I none settings s
  rw [hs]
  exact (lands.of_outcome s.inner).imp_left fun ⟨v, hv, _⟩ => ⟨v, hv⟩

theorem decode_returns_or_faults_of_product :
    let I : Interp Unit := .bestProduct (.evaluator .extended (.signed 8 (by decide)))
      (.baseProduct (.printer .base) (.treeBuilder .extended))
    let t := (Tree.node "Neg" [.node "Lit" [.leaf "-128"]]).toValue
    let settings : Settings :=
      ⟨64, 3, .info, .json, by decide, by decide, by decide, by decide⟩
    I.Standard ∧ t.TextLeaves ∧ ∃ f operation numbers bits,
      ((Session.decode t I none (some settings)).exec ⟨[], none, [], ()⟩).1 = .error f ∧
        f.IsOverflow operation numbers bits := by
  intro I t settings
  have standard : I.Standard :=
    .bestProduct (.signed .extended _ (by decide)) (.baseProduct (.printer _) (.treeBuilder _))
  have texts : t.TextLeaves := Tree.textLeaves _
  refine ⟨standard, texts, ?_⟩
  have outcome : ((Session.decode t I none (some settings)).exec ⟨[], none, [], ()⟩).1 =
      .error (Interp.overflow "IntMulEval[8]" "neg" [-128] 8) := rfl
  rcases decode_returns_or_faults standard texts settings ⟨[], none, [], ()⟩ with
    ⟨v, hv⟩ | ⟨f, hf, decoding | ⟨operation, numbers, bits, overflow⟩⟩
  · cases outcome.symm.trans hv
  · obtain rfl := Except.error.inj (outcome.symm.trans hf)
    cases decoding
  · exact ⟨f, operation, numbers, bits, hf, overflow⟩

end Symantics
