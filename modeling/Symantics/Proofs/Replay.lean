import Symantics.Exp
import Symantics.Proofs.Calls

/-
  Replaying expressions, operands first.

  `Exp.run` looks a method up before the last operand of a call runs; a decoder has
  all operands before it looks the method up. `Exp.replay` is the second order, on
  expressions with a failure wherever something that is no expression stands. On an
  interpretation that has the methods called for, the two orders cannot be told
  apart (`replay_widen`), and what a replay does is told by a script that depends on
  the expression alone (`shows_replay`).
-/
namespace Symantics.Exp

variable {ν σ : Type}

/-- The expression, where other things might have stood in place of some of it. -/
def widen : Exp → Exp ν
  | lit n => lit n
  | neg e => neg (widen e)
  | add l r => add (widen l) (widen r)
  | mul l r => mul (widen l) (widen r)
  | stray v => v.elim

/-- Replays the expression as calls on an interpretation, each when its operands are there; what
is no expression fails. -/
def replay (I : Interp σ) : Exp Failure → Run σ Value
  | lit n => I.litOf n
  | neg e => do
    let v ← replay I e
    (← I.neg) v
  | add l r => do
    let a ← replay I l
    let b ← replay I r
    (← I.add) a b
  | mul l r => do
    let a ← replay I l
    let b ← replay I r
    I.requireMul
    (← I.mul) a b
  | stray e => throw e

/-- The steps of a replay, and what ends it. -/
def script : Exp Failure → Script
  | lit n => .single (.lit [.int n])
  | neg e => (script e).andThen (.single .neg)
  | add l r => (script l).andThen ((script r).andThen (.single .add))
  | mul l r => (script l).andThen ((script r).andThen (.single .mul))
  | stray e => .stop e

/-! What widens to an expression of some form has that form. -/

theorem widen_eq_lit {e : Exp} {n : Int} (h : (widen e : Exp ν) = lit n) : e = lit n := by
  cases e with
  | lit m => exact congrArg lit (lit.inj h)
  | stray v => exact v.elim
  | _ => cases h

theorem widen_eq_neg {e : Exp} {x : Exp ν} (h : widen e = neg x) :
    ∃ d, e = neg d ∧ widen d = x := by
  cases e with
  | neg d => exact ⟨d, rfl, neg.inj h⟩
  | stray v => exact v.elim
  | _ => cases h

theorem widen_eq_add {e : Exp} {x y : Exp ν} (h : widen e = add x y) :
    ∃ l r, e = add l r ∧ widen l = x ∧ widen r = y := by
  cases e with
  | add l r => exact ⟨l, r, rfl, add.inj h⟩
  | stray v => exact v.elim
  | _ => cases h

theorem widen_eq_mul {e : Exp} {x y : Exp ν} (h : widen e = mul x y) :
    ∃ l r, e = mul l r ∧ widen l = x ∧ widen r = y := by
  cases e with
  | mul l r => exact ⟨l, r, rfl, mul.inj h⟩
  | stray v => exact v.elim
  | _ => cases h

theorem widen_ne_stray {e : Exp} {v : ν} : widen e ≠ stray v := by
  intro h
  cases e with
  | stray x => exact x.elim
  | _ => cases h

theorem widen_injective {d e : Exp} (h : (widen d : Exp ν) = widen e) : d = e := by
  induction d generalizing e with
  | lit n => exact (widen_eq_lit h.symm).symm
  | neg d ih =>
    obtain ⟨d', rfl, hd⟩ := widen_eq_neg h.symm
    rw [ih hd.symm]
  | add l r ihl ihr =>
    obtain ⟨l', r', rfl, hl, hr⟩ := widen_eq_add h.symm
    rw [ihl hl.symm, ihr hr.symm]
  | mul l r ihl ihr =>
    obtain ⟨l', r', rfl, hl, hr⟩ := widen_eq_mul h.symm
    rw [ihl hl.symm, ihr hr.symm]
  | stray v => exact v.elim

@[simp] theorem hasMul_widen (e : Exp) : (widen e : Exp ν).hasMul = e.hasMul := by
  induction e with
  | stray v => exact v.elim
  | _ => simp_all [widen, hasMul]

/-! ## The two orders of replaying -/

/-- Where every method is there, it does not matter when methods are looked up. -/
theorem replay_widen {I : Interp σ} (hI : I.hasBase = true) :
    ∀ e : Exp, (e.hasMul = true → I.hasMul = true) → replay I e.widen = e.run I := by
  -- a method that is there is looked up without effect, so it may be looked up at any time
  obtain ⟨_, neg, add, -, hn, ha⟩ := Interp.methods_of_hasBase hI
  intro e
  induction e with
  | lit n => intro _; rfl
  | neg e ih =>
    intro hm
    simp only [widen, replay, run, Interp.negOf, ih hm, Interp.neg_eq hn, pure_bind]
  | add l r ihl ihr =>
    intro hm
    simp only [hasMul, Bool.or_eq_true] at hm
    simp only [widen, replay, run, ihl fun h => hm (.inl h), ihr fun h => hm (.inr h),
      Interp.add_eq ha, pure_bind]
  | mul l r ihl ihr =>
    intro hm
    have hmul := hm rfl
    obtain ⟨-, mul, hx⟩ := Interp.methods_of_hasMul hmul
    simp only [widen, replay, run, ihl fun _ => hmul, ihr fun _ => hmul, Interp.mul_eq hx,
      Interp.requireMul_eq hmul, pure_bind]
  | stray v => exact v.elim

/-! ## What a replay does -/

/-- Only the replay of a whole expression comes to its end. -/
theorem widen_of_ending {x : Exp Failure} (h : x.script.ending = none) :
    ∃ e : Exp, x = e.widen := by
  induction x with
  | lit n => exact ⟨lit n, rfl⟩
  | neg x ih =>
    rw [script, Script.ending_andThen, Option.or_eq_none_iff] at h
    obtain ⟨e, rfl⟩ := ih h.1
    exact ⟨neg e, rfl⟩
  | add x y ihx ihy =>
    simp only [script, Script.ending_andThen, Option.or_eq_none_iff] at h
    obtain ⟨l, rfl⟩ := ihx h.1
    obtain ⟨r, rfl⟩ := ihy h.2.1
    exact ⟨add l r, rfl⟩
  | mul x y ihx ihy =>
    simp only [script, Script.ending_andThen, Option.or_eq_none_iff] at h
    obtain ⟨l, rfl⟩ := ihx h.1
    obtain ⟨r, rfl⟩ := ihy h.2.1
    exact ⟨mul l r, rfl⟩
  | stray e => cases h

theorem ending_widen (e : Exp) : (widen e : Exp Failure).script.ending = none := by
  induction e with
  | lit n => rfl
  | neg e ih => simp [widen, script, Script.ending_andThen, Script.single, ih]
  | add l r ihl ihr => simp [widen, script, Script.ending_andThen, Script.single, ihl, ihr]
  | mul l r ihl ihr => simp [widen, script, Script.ending_andThen, Script.single, ihl, ihr]
  | stray v => exact v.elim

/-- A replay on a watched interpretation does what it does on the interpretation itself, and its
calls follow the script of the expression. -/
theorem shows_replay {I : Interp σ} (hI : I.hasBase = true) :
    ∀ e : Exp Failure, (e.hasMul = true → I.hasMul = true) →
      Shows I (replay I.watched e) (replay I e) e.script := by
  obtain ⟨lit, neg, add, hl, hn, ha⟩ := Interp.methods_of_hasBase hI
  -- the watched interpretation has the same methods, each of them watched
  have wl : I.watched.lit? = some fun v => Interp.watch .lit [v] (lit v) := Interp.calling_lit _ hl
  have wn : I.watched.neg? = some fun v => Interp.watch .neg [v] (neg v) := Interp.calling_neg _ hn
  have wa : I.watched.add? = some fun v w => Interp.watch .add [v, w] (add v w) :=
    Interp.calling_add _ ha
  intro e
  induction e with
  | lit n =>
    intro _
    simp only [replay, Interp.litOf, Interp.lit_eq hl, Interp.lit_eq wl, pure_bind]
    exact .watch (fun _ => rfl) (.lit hl _)
  | neg e ih =>
    intro hm
    simp only [replay, Interp.neg_eq hn, Interp.neg_eq wn, pure_bind]
    apply Shows.bind (ih hm)
    intro v
    exact .watch (fun _ => rfl) (.neg hn v)
  | add l r ihl ihr =>
    intro hm
    simp only [hasMul, Bool.or_eq_true] at hm
    simp only [replay, Interp.add_eq ha, Interp.add_eq wa, pure_bind]
    apply Shows.bind (ihl fun h => hm (.inl h))
    intro v
    apply Shows.bind (ihr fun h => hm (.inr h))
    intro w
    exact .watch (fun _ => rfl) (.add ha v w)
  | mul l r ihl ihr =>
    intro hm
    have hmul := hm rfl
    obtain ⟨-, mul, hx⟩ := Interp.methods_of_hasMul hmul
    have wx : I.watched.mul? = some fun v w => Interp.watch .mul [v, w] (mul v w) :=
      Interp.calling_mul _ hx
    have wmul : I.watched.hasMul = true := by rw [Interp.hasMul_watched, hmul]
    simp only [replay, Interp.mul_eq hx, Interp.mul_eq wx, Interp.requireMul_eq hmul,
      Interp.requireMul_eq wmul, pure_bind]
    apply Shows.bind (ihl fun _ => hmul)
    intro v
    apply Shows.bind (ihr fun _ => hmul)
    intro w
    exact .watch (fun _ => rfl) (.mul hx v w)
  | stray e => intro _; exact .throw e

theorem replay_watched {I : Interp σ} (hI : I.hasBase = true) (e : Exp)
    (hm : e.hasMul = true → I.hasMul = true) : replay I.watched e.widen = e.run I.watched := by
  apply replay_widen
  · rwa [Interp.hasBase_watched]
  · rwa [Interp.hasMul_watched]

/-- An expression runs on a watched interpretation as it does on the interpretation itself, and its
calls follow the script of the expression. -/
theorem shows_run {I : Interp σ} (hI : I.hasBase = true) (e : Exp)
    (hm : e.hasMul = true → I.hasMul = true) :
    Shows I (e.run I.watched) (e.run I) (widen e : Exp Failure).script := by
  rw [← replay_widen hI e hm, ← replay_watched hI e hm]
  apply shows_replay hI
  rwa [hasMul_widen]

end Symantics.Exp
