import Mathlib.Algebra.Group.Int.Defs
import Mathlib.Algebra.Group.Nat.Defs
import Symantics.Interp.Evaluator
import Symantics.Proofs.Grammar

/-
  Checked evaluation against the exact values.

  The operations of an expression are gone through operands first, left before right
  (`Exp.postorder`). An evaluator does so, and every call gets exact operands and
  returns the exact value, up to the first operation whose value is beyond the width;
  that one overflows (`evaluates_run`). So an evaluator gives the exact value or says
  which operation left the range first, and on which operands, even where the value of
  the whole expression is within the range again.
-/
namespace Symantics

namespace Tag

/-- The method that does the operation. -/
def method : Tag → String
  | lit => "lit"
  | neg => "neg"
  | add => "add"
  | mul => "mul"

end Tag

namespace Exp

/-- The number that an expression denotes, which it always does. -/
def value : Exp → Int
  | lit n => n
  | neg e => -value e
  | add l r => value l + value r
  | mul l r => value l * value r
  | stray v => v.elim

theorem eval_eq (e : Exp) : e.eval = .ok e.value := by
  induction e with
  | lit n => rfl
  | neg e ih =>
    rw [eval, ih]
    rfl
  | add l r ihl ihr =>
    rw [eval, ihl, ihr]
    rfl
  | mul l r ihl ihr =>
    rw [eval, ihl, ihr]
    rfl
  | stray v => exact v.elim

/-- The expressions in an expression, operands before what they are operands of, left before
right. -/
def postorder : Exp → List Exp
  | lit n => [lit n]
  | neg e => postorder e ++ [neg e]
  | add l r => postorder l ++ (postorder r ++ [add l r])
  | mul l r => postorder l ++ (postorder r ++ [mul l r])
  | stray v => v.elim

/-- The outermost operation. -/
def operation : Exp → Tag
  | lit _ => .lit
  | neg _ => .neg
  | add _ _ => .add
  | mul _ _ => .mul
  | stray v => v.elim

/-- The numbers that the outermost operation is done on, in order: exact values. -/
def arguments : Exp → List Int
  | lit n => [n]
  | neg e => [e.value]
  | add l r => [l.value, r.value]
  | mul l r => [l.value, r.value]
  | stray v => v.elim

/-- The call of the outermost operation on its exact arguments. -/
def call (e : Exp) (outcome : Except Failure Value) : Call :=
  ⟨e.operation, e.arguments.map .int, outcome⟩

/-- The call that returns the exact value. -/
def exactCall (e : Exp) : Call := e.call (.ok (.int e.value))

/-- The value is a signed number of `bits` bits. -/
def Within (bits : Nat) (e : Exp) : Prop :=
  ∃ n, e.eval = .ok n ∧ -2 ^ (bits - 1) ≤ n ∧ n ≤ 2 ^ (bits - 1) - 1

end Exp

theorem Width.admits_iff {bits : Nat} (h : 2 ≤ bits) {n : Int} :
    (Width.signed bits h).admits n = true ↔ -2 ^ (bits - 1) ≤ n ∧ n ≤ 2 ^ (bits - 1) - 1 := by
  have power : ((Nat.pow 2 (bits - 1) : Nat) : Int) = 2 ^ (bits - 1) := Int.natCast_pow 2 _
  simp only [admits, bounds?, power, Bool.and_eq_true, decide_eq_true_eq]

theorem Width.signed_of_not_admits {w : Width} {n : Int} (hn : w.admits n = false) :
    ∃ bits h, w = .signed bits h := by
  cases w with
  | unbounded => cases hn
  | signed bits h => exact ⟨bits, h, rfl⟩

namespace Interp

variable {σ : Type} {name method : String} {n : Int}

theorem checked_of_admits {w : Width} {arguments : List Value} (hn : w.admits n = true) :
    (checked name w method arguments (.int n) : Run σ Value) = pure (.int n) := by
  cases w with
  | unbounded => rfl
  | signed bits h => exact if_pos hn

theorem checked_of_beyond {bits : Nat} {h : 2 ≤ bits} {arguments : List Int}
    (hn : (Width.signed bits h).admits n = false) :
    (checked name (.signed bits h) method (arguments.map .int) (.int n) : Run σ Value) =
      throw (overflow name method arguments bits) := by
  have numbers : (arguments.map Value.int).filterMap (·.integer?) = arguments := by
    rw [List.filterMap_map]
    exact List.filterMap_some
  show (if (Width.signed bits h).admits n = true then _ else _) = _
  rw [if_neg (Bool.not_eq_true _ ▸ hn), numbers]

end Interp

theorem Exp.within_iff {bits : Nat} (h : 2 ≤ bits) {e : Exp} :
    e.Within bits ↔ (Width.signed bits h).admits e.value = true := by
  rw [Width.admits_iff h]
  constructor
  · intro within
    obtain ⟨n, he, bounds⟩ := within
    obtain rfl : e.value = n := Except.ok.inj (e.eval_eq.symm.trans he)
    exact bounds
  · exact fun bounds => ⟨e.value, e.eval_eq, bounds⟩

/-! ## Going through the operations -/

/-- The failure of an operation whose exact value is beyond the width. -/
def Exp.overflow (tier : Tier) (bits : Nat) (h : 2 ≤ bits) (e : Exp) : Failure :=
  Interp.overflow (Interp.evaluatorName tier (.signed bits h)) e.operation.method e.arguments bits

/-- What comes of operations done one after another on exact arguments, and of the calls: all return
their exact values, and the last of these is the value `v`, or one of them overflows. -/
inductive Evaluated (tier : Tier) (w : Width) :
    List Exp → Value → Except Failure Value → List Call → Prop where
  | exact {ds : List Exp} {v : Value} (within : ∀ d ∈ ds, w.admits d.value = true) :
      Evaluated tier w ds v (.ok v) (ds.map Exp.exactCall)
  | beyond {done rest : List Exp} {d : Exp} {v : Value} {bits : Nat} {h : 2 ≤ bits}
      (hw : w = .signed bits h) (within : ∀ c ∈ done, w.admits c.value = true)
      (hd : w.admits d.value = false) :
      Evaluated tier w (done ++ d :: rest) v (.error (d.overflow tier bits h))
        (done.map Exp.exactCall ++ [d.call (.error (d.overflow tier bits h))])

/-- A run under a watched evaluator of a width does the operations in turn, for the value `v`. -/
def Evaluates {σ : Type} (tier : Tier) (w : Width) (r : Run (Watched σ) Value) (ds : List Exp)
    (v : Value) : Prop :=
  ∀ s, ∃ x calls, r.exec s = (x, ⟨s.inner, s.calls ++ calls⟩) ∧ Evaluated tier w ds v x calls

namespace Evaluated

variable {tier : Tier} {w : Width} {ds es : List Exp} {u v : Value} {x : Except Failure Value}
  {calls : List Call} {f : Failure}

theorem after (within : ∀ d ∈ ds, w.admits d.value = true) (h : Evaluated tier w es v x calls) :
    Evaluated tier w (ds ++ es) v x (ds.map Exp.exactCall ++ calls) := by
  cases h with
  | exact hes =>
    rw [← List.map_append]
    exact .exact (List.forall_mem_append.mpr ⟨within, hes⟩)
  | beyond hw hdone hd =>
    rw [← List.append_assoc, ← List.append_assoc, ← List.map_append]
    exact .beyond hw (List.forall_mem_append.mpr ⟨within, hdone⟩) hd

/-- What is still to be done does not matter once an operation has overflowed. -/
theorem andThen (h : Evaluated tier w ds u (.error f) calls) :
    Evaluated tier w (ds ++ es) v (.error f) calls := by
  cases h with
  | beyond hw hdone hd =>
    rw [List.append_assoc, List.cons_append]
    exact .beyond hw hdone hd

theorem returns_unbounded (h : Evaluated tier .unbounded ds v x calls) : x = .ok v := by
  cases h with
  | exact _ => rfl
  | beyond hw _ _ => cases hw

theorem ok_iff (h : Evaluated tier w ds v x calls) (u : Value) :
    x = .ok u ↔ (∀ d ∈ ds, w.admits d.value = true) ∧ u = v := by
  cases h with
  | exact within =>
    constructor
    · intro h
      exact ⟨within, (Except.ok.inj h).symm⟩
    · intro h
      rw [h.2]
  | @beyond done rest d _ _ _ _ _ hd =>
    constructor
    · intro h
      cases h
    · intro h
      have within := h.1 d (by simp)
      rw [hd] at within
      cases within

end Evaluated

namespace Evaluates

variable {σ : Type} {tier : Tier} {w : Width}

/-- The outermost operation of an expression is called on its exact arguments. -/
theorem call (e : Exp) {q : Run σ Value}
    (hq : q = Interp.checked (Interp.evaluatorName tier w) w e.operation.method
      (e.arguments.map .int) (.int e.value)) :
    Evaluates tier w (Interp.watch e.operation (e.arguments.map .int) q) [e] (.int e.value) := by
  intro s
  rw [Interp.exec_keep, hq]
  cases he : w.admits e.value with
  | true =>
    rw [Interp.checked_of_admits he]
    have within : ∀ d ∈ [e], w.admits d.value = true := by simpa using he
    exact ⟨_, _, rfl, .exact within⟩
  | false =>
    obtain ⟨bits, h, rfl⟩ := Width.signed_of_not_admits he
    rw [Interp.checked_of_beyond he]
    exact ⟨_, _, rfl, @Evaluated.beyond tier _ [] [] e _ bits h rfl (by simp) he⟩

theorem bind {r : Run (Watched σ) Value} {k : Value → Run (Watched σ) Value} {ds es : List Exp}
    {u v : Value} (hr : Evaluates tier w r ds u) (hk : Evaluates tier w (k u) es v) :
    Evaluates tier w (r >>= k) (ds ++ es) v := by
  intro s
  obtain ⟨x, calls, he, evaluated⟩ := hr s
  cases x with
  | error f => exact ⟨.error f, calls, Run.exec_bind_error he k, evaluated.andThen⟩
  | ok a =>
    cases evaluated with
    | exact within =>
      obtain ⟨y, later, hl, evaluated⟩ := hk ⟨s.inner, s.calls ++ ds.map Exp.exactCall⟩
      refine ⟨y, ds.map Exp.exactCall ++ later, ?_, evaluated.after within⟩
      rw [Run.exec_bind_ok he, hl, List.append_assoc]

end Evaluates

/-- An evaluator does the operations of an expression in turn, operands first. -/
theorem evaluates_run {σ : Type} (tier : Tier) (w : Width) :
    ∀ e : Exp, (e.hasMul = true → tier = .extended) →
      Evaluates tier w (e.run (Interp.evaluator tier w : Interp σ).watched) e.postorder
        (.int e.value) := by
  intro e
  induction e with
  | lit n =>
    intro _
    rw [Exp.run, Interp.litOf, Interp.lit_eq rfl, pure_bind]
    exact .call (.lit n) rfl
  | neg e ih =>
    intro hm
    rw [Exp.run, Interp.negOf, Interp.neg_eq rfl, pure_bind]
    apply Evaluates.bind (ih hm)
    exact .call (.neg e) rfl
  | add l r ihl ihr =>
    intro hm
    simp only [Exp.hasMul, Bool.or_eq_true] at hm
    rw [Exp.run, Interp.add_eq rfl]
    apply Evaluates.bind (ihl fun h => hm (.inl h))
    rw [pure_bind]
    apply Evaluates.bind (ihr fun h => hm (.inr h))
    exact .call (.add l r) rfl
  | mul l r ihl ihr =>
    intro hm
    obtain rfl := hm rfl
    rw [Exp.run, Interp.requireMul_eq rfl, pure_bind, Interp.mul_eq rfl]
    apply Evaluates.bind (ihl fun _ => rfl)
    rw [pure_bind]
    apply Evaluates.bind (ihr fun _ => rfl)
    exact .call (.mul l r) rfl
  | stray v => exact v.elim

/-! ## What an overflow says -/

/-- An operation on numbers of so many digits has a value of at most twice as many. -/
theorem Exp.value_lt {e : Exp} {digits : Nat} (hd : 0 < digits)
    (h : ∀ n ∈ e.arguments, n.natAbs < 10 ^ digits) : e.value.natAbs < 10 ^ (2 * digits) := by
  have ten : 10 ≤ 10 ^ digits := Nat.le_pow hd
  have square : 10 ^ (2 * digits) = 10 ^ digits * 10 ^ digits := by rw [Nat.two_mul, Nat.pow_add]
  have twice : 2 * 10 ^ digits ≤ 10 ^ digits * 10 ^ digits :=
    Nat.mul_le_mul_right _ (Nat.le_trans (by decide) ten)
  rw [square]
  cases e with
  | lit n =>
    have hn : n.natAbs < 10 ^ digits := h n (by simp [arguments])
    show n.natAbs < _
    omega
  | neg e =>
    have hn : e.value.natAbs < 10 ^ digits := h e.value (by simp [arguments])
    show (-e.value).natAbs < _
    omega
  | add l r =>
    have hl : l.value.natAbs < 10 ^ digits := h l.value (by simp [arguments])
    have hr : r.value.natAbs < 10 ^ digits := h r.value (by simp [arguments])
    show (l.value + r.value).natAbs < _
    omega
  | mul l r =>
    have hl : l.value.natAbs < 10 ^ digits := h l.value (by simp [arguments])
    have hr : r.value.natAbs < 10 ^ digits := h r.value (by simp [arguments])
    show (l.value * r.value).natAbs < _
    rw [Int.natAbs_mul]
    exact Nat.mul_lt_mul'' hl hr
  | stray v => exact v.elim

/-- A width that is too narrow for the value of an operation on numbers that can be written can be
written itself. -/
theorem Exp.fits_bits {e : Exp} {bits : Nat} {h : 2 ≤ bits}
    (beyond : (Width.signed bits h).admits e.value = false)
    (fit : ∀ n ∈ e.arguments, Decimal.fits n = true) : Decimal.fits bits = true := by
  have value : e.value.natAbs < 10 ^ (2 * Decimal.digitLimit) :=
    value_lt (by decide) fun n hn => Decimal.fits_iff.mp (fit n hn)
  have reached : 2 ^ (bits - 1) ≤ e.value.natAbs := by
    have outside := mt (Width.admits_iff h).mpr (Bool.not_eq_true _ ▸ beyond)
    have power : ((2 ^ (bits - 1) : Nat) : Int) = 2 ^ (bits - 1) := Int.natCast_pow 2 _
    rw [← power] at outside
    omega
  have narrow : bits - 1 < 8 * Decimal.digitLimit := by
    apply (Nat.pow_lt_pow_iff_right (show 1 < 2 by decide)).mp
    calc 2 ^ (bits - 1) < 10 ^ (2 * Decimal.digitLimit) := Nat.lt_of_le_of_lt reached value
      _ ≤ 16 ^ (2 * Decimal.digitLimit) := Nat.pow_le_pow_left (by decide) _
      _ = 2 ^ (8 * Decimal.digitLimit) := by
        rw [show 16 = 2 ^ 4 from rfl, ← Nat.pow_mul, ← Nat.mul_assoc]
  have limit : Decimal.digitLimit = 4300 := rfl
  rw [Decimal.fits_iff]
  calc (bits : Int).natAbs < 10 ^ 5 := by omega
    _ ≤ 10 ^ Decimal.digitLimit := Nat.pow_le_pow_right (by decide) (by omega)

/-- The failure is an overflow of an operation on these numbers. -/
def Failure.IsOverflow (f : Failure) (operation : String) (numbers : List Int) (bits : Nat) :
    Prop :=
  ∃ g, f = .fault g ∧ g.code = "INTEGER_OVERFLOW" ∧ g.detail = .overflow operation numbers bits

theorem Decimal.mapM_text {ns : List Int} (h : ∀ n ∈ ns, fits n = true) :
    ns.mapM text? = some (ns.map text) := by
  induction ns with
  | nil => rfl
  | cons n ns ih =>
    have first : text? n = some (text n) := if_pos (h n (by simp))
    rw [List.mapM_cons, first, ih fun m hm => h m (List.mem_cons_of_mem n hm)]
    rfl

theorem Interp.isOverflow_overflow {name operation : String} {numbers : List Int} {bits : Nat}
    (hn : ∀ n ∈ numbers, Decimal.fits n = true) (hb : Decimal.fits bits = true) :
    (overflow name operation numbers bits).IsOverflow operation numbers bits := by
  have width : Decimal.text? bits = some (Decimal.text bits) := if_pos hb
  rw [overflow, Fault.overflow?, Decimal.mapM_text hn, width]
  exact ⟨_, rfl, rfl, rfl⟩

/-- Where some value is beyond the width, the first such value is an overflow. -/
theorem Evaluated.overflows {tier : Tier} {bits : Nat} {h : 2 ≤ bits} {ds : List Exp} {v : Value}
    {x : Except Failure Value} {calls : List Call}
    (evaluated : Evaluated tier (.signed bits h) ds v x calls)
    (outside : ¬ ∀ d ∈ ds, (Width.signed bits h).admits d.value = true) :
    ∃ done d rest f, ds = done ++ d :: rest ∧
      (∀ c ∈ done, (Width.signed bits h).admits c.value = true) ∧
      ¬ (Width.signed bits h).admits d.value = true ∧ x = .error f ∧
      calls = done.map Exp.exactCall ++ [d.call (.error f)] ∧
      ((∀ m ∈ d.arguments, Decimal.fits m = true) →
        f.IsOverflow d.operation.method d.arguments bits) := by
  cases evaluated with
  | exact within => exact absurd within outside
  | @beyond done rest d _ _ _ hw within hd =>
    cases hw
    refine ⟨done, d, rest, _, rfl, within, ?_, rfl, rfl, ?_⟩
    · rw [hd]
      exact Bool.false_ne_true
    · intro fit
      exact Interp.isOverflow_overflow fit (Exp.fits_bits hd fit)

/-! ## Evaluating expressions -/

/-- What comes of an expression under an evaluator, and of its calls. -/
theorem evaluated_run {σ : Type} {tier : Tier} {w : Width} {e : Exp}
    (ht : e.hasMul = true → tier = .extended) (s : σ) :
    Evaluated tier w e.postorder (.int e.value) ((Interp.evaluator tier w).outcome e.program s)
      ((Interp.evaluator tier w).callsOf e.program s) := by
  have multiplies : e.hasMul = true → (Interp.evaluator tier w : Interp σ).hasMul = true := by
    intro h
    obtain rfl := ht h
    rfl
  obtain ⟨x, calls, he, evaluated⟩ := evaluates_run tier w e ht (⟨s, []⟩ : Watched σ)
  obtain ⟨_, hs, -⟩ := Exp.shows_run (I := Interp.evaluator tier w) rfl e multiplies ⟨s, []⟩
  have outcome : (Interp.evaluator tier w).outcome e.program s = x :=
    (congrArg Prod.fst hs).symm.trans (congrArg Prod.fst he)
  have made : (Interp.evaluator tier w).callsOf e.program s = calls :=
    congrArg (fun r => r.2.calls) he
  rwa [outcome, made]

/-- An evaluator of a width returns the exact value of an expression exactly if the values of all
expressions in it are within the width. Otherwise every call returns its exact value up to the first
operation, operands first, whose value is beyond the width, and that one fails; where its operands
can be written, it fails with the overflow of that operation on them. Without a width the exact
value is always returned. -/
theorem evaluation_exact {σ : Type} {tier : Tier} {e : Exp}
    (ht : e.hasMul = true → tier = .extended) (s : σ) :
    ∃ n, e.eval = .ok n ∧
      (Interp.evaluator tier .unbounded).outcome e.program s = .ok (.int n) ∧
      ∀ (bits : Nat) (h : 2 ≤ bits), let I : Interp σ := .evaluator tier (.signed bits h)
        (∀ v, I.outcome e.program s = .ok v ↔
          (∀ d ∈ e.postorder, d.Within bits) ∧ v = .int n) ∧
        ((¬ ∀ d ∈ e.postorder, d.Within bits) →
          ∃ done d rest f, e.postorder = done ++ d :: rest ∧ (∀ c ∈ done, c.Within bits) ∧
            ¬ d.Within bits ∧ I.outcome e.program s = .error f ∧
            I.callsOf e.program s = done.map Exp.exactCall ++ [d.call (.error f)] ∧
            ((∀ m ∈ d.arguments, Decimal.fits m = true) →
              f.IsOverflow d.operation.method d.arguments bits)) := by
  refine ⟨e.value, e.eval_eq, ?_, ?_⟩
  · exact (evaluated_run ht s).returns_unbounded
  · intro bits h I
    have evaluated := evaluated_run (w := .signed bits h) ht s
    simp only [Exp.within_iff h]
    exact ⟨evaluated.ok_iff, evaluated.overflows⟩

theorem evaluation_exact_of_cancelled :
    let sum : Exp := .add (.lit 127) (.lit 1)
    let e : Exp := .add sum (.lit (-1))
    let I : Interp Unit := .evaluator .base (.signed 8 (by decide))
    e.eval = .ok 127 ∧ ¬ sum.Within 8 ∧ ∃ f, I.outcome e.program () = .error f := by
  intro sum e I
  have base : e.hasMul = true → Tier.base = .extended := fun h => by cases h
  obtain ⟨n, -, -, checked⟩ := evaluation_exact base ()
  have outside : ¬ sum.Within 8 := by
    intro within
    obtain ⟨n, hn, -, upper⟩ := within
    obtain rfl : 128 = n := Except.ok.inj hn
    exact absurd upper (by decide)
  obtain ⟨done, d, rest, f, -, -, -, fails, -⟩ := (checked 8 (by decide)).2 <| by
    intro within
    exact outside (within sum (by simp [e, sum, Exp.postorder]))
  exact ⟨rfl, outside, f, fails⟩

end Symantics
