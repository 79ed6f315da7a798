import Symantics.Program
import Symantics.Proofs.Runs
import Symantics.Tag

/-
  The calls that a run makes.

  `Interp.calling` is an interpretation that makes the calls on another one in a way of
  its own, and `Interp.keep` is such a way: it keeps something of every call, beside the
  state. `Interp.watched` keeps the call as it is: the method, the arguments and what
  came of it. So two programs make the same calls on an interpretation when they do the
  same on the watched one.

  A `Script` is what a program does apart from the interpretation: which methods it
  calls in which order, with which numbers as literals, and what ends it if it ends
  without a result. `Shows` relates a run on a watched interpretation, the same run
  unwatched, and a script: the two have the same outcome and the same state, and the
  calls seen follow the script until one of them fails.
-/
namespace Symantics

/-- A call on an interpretation: the method, its arguments, and what came of it. -/
structure Call where
  operation : Tag
  arguments : List Value
  outcome : Except Failure Value

/-- What of a call does not depend on the interpretation: the method, and the arguments of a
literal. -/
inductive Step where
  | lit (arguments : List Value)
  | neg
  | add
  | mul

namespace Call

/-- The step that a call takes. -/
def step (c : Call) : Step :=
  match c.operation with
  | .lit => .lit c.arguments
  | .neg => .neg
  | .add => .add
  | .mul => .mul

/-- Whether a call returned a value. -/
def Returned (c : Call) : Prop := ∃ v, c.outcome = .ok v

end Call

/-- The state of an interpretation with an entry kept for every call on it: its own, and the entries
so far. -/
structure Kept (κ σ : Type) where
  inner : σ
  calls : List κ := []

/-- The state of a watched interpretation: its own, and the calls so far. -/
abbrev Watched (σ : Type) := Kept Call σ

namespace Interp

variable {σ ρ κ : Type}

/-- An interpretation that makes the calls on `I` in a way of its own. -/
def calling (call : Tag → List Value → Run σ Value → Run ρ Value) (I : Interp σ) : Interp ρ where
  kind := I.kind
  ownName := I.ownName
  lit? := I.lit?.map fun lit v => call .lit [v] (lit v)
  neg? := I.neg?.map fun neg v => call .neg [v] (neg v)
  add? := I.add?.map fun add v w => call .add [v, w] (add v w)
  mul? := I.mul?.map fun mul v w => call .mul [v, w] (mul v w)

/-- Makes a call and keeps an entry for it. -/
def keep (entry : Call → κ) (operation : Tag) (arguments : List Value) (r : Run σ Value) :
    Run (Kept κ σ) Value :=
  fun s =>
    let (outcome, inner) := r.exec s.inner
    (outcome, ⟨inner, s.calls ++ [entry ⟨operation, arguments, outcome⟩]⟩)

theorem exec_keep (entry : Call → κ) (operation : Tag) (arguments : List Value) (r : Run σ Value)
    (s : Kept κ σ) :
    (keep entry operation arguments r).exec s = ((r.exec s.inner).1, ⟨(r.exec s.inner).2,
      s.calls ++ [entry ⟨operation, arguments, (r.exec s.inner).1⟩]⟩) := rfl

/-- Makes a call and keeps it. -/
abbrev watch : Tag → List Value → Run σ Value → Run (Watched σ) Value := keep fun call => call

/-- An interpretation that does as `I` does and keeps every call. -/
def watched (I : Interp σ) : Interp (Watched σ) := I.calling watch

/-- What comes of a program under an interpretation. -/
def outcome (I : Interp σ) (p : Program σ) (s : σ) : Except Failure Value := ((p I).exec s).1

/-- The calls that a program makes on an interpretation. -/
def callsOf (I : Interp σ) (p : Program (Watched σ)) (s : σ) : List Call :=
  ((p I.watched).exec ⟨s, []⟩).2.calls

/-! Looking up a method that is there. -/

section

variable {I : Interp σ}

theorem lit_eq {f : Value → Run σ Value} (h : I.lit? = some f) : I.lit = pure f := by
  rw [lit, h]; rfl

theorem neg_eq {f : Value → Run σ Value} (h : I.neg? = some f) : I.neg = pure f := by
  rw [neg, h]; rfl

theorem add_eq {f : Value → Value → Run σ Value} (h : I.add? = some f) : I.add = pure f := by
  rw [add, h]; rfl

theorem mul_eq {f : Value → Value → Run σ Value} (h : I.mul? = some f) : I.mul = pure f := by
  rw [mul, h]; rfl

theorem requireMul_eq (h : I.hasMul = true) : I.requireMul = pure () := by
  rw [requireMul, if_pos h]

end

section

variable {I : Interp σ} (call : Tag → List Value → Run σ Value → Run ρ Value)

@[simp] theorem hasBase_calling : (I.calling call).hasBase = I.hasBase := by
  simp [hasBase, calling]

@[simp] theorem hasMul_calling : (I.calling call).hasMul = I.hasMul := by
  simp [hasMul, calling, hasBase]

theorem calling_lit {f : Value → Run σ Value} (h : I.lit? = some f) :
    (I.calling call).lit? = some fun v => call .lit [v] (f v) := by
  simp only [calling, h, Option.map_some]

theorem calling_neg {f : Value → Run σ Value} (h : I.neg? = some f) :
    (I.calling call).neg? = some fun v => call .neg [v] (f v) := by
  simp only [calling, h, Option.map_some]

theorem calling_add {f : Value → Value → Run σ Value} (h : I.add? = some f) :
    (I.calling call).add? = some fun v w => call .add [v, w] (f v w) := by
  simp only [calling, h, Option.map_some]

theorem calling_mul {f : Value → Value → Run σ Value} (h : I.mul? = some f) :
    (I.calling call).mul? = some fun v w => call .mul [v, w] (f v w) := by
  simp only [calling, h, Option.map_some]

end

@[simp] theorem hasBase_watched (I : Interp σ) : I.watched.hasBase = I.hasBase :=
  hasBase_calling watch

@[simp] theorem hasMul_watched (I : Interp σ) : I.watched.hasMul = I.hasMul :=
  hasMul_calling watch

theorem methods_of_hasBase {I : Interp σ} (h : I.hasBase = true) :
    ∃ lit neg add, I.lit? = some lit ∧ I.neg? = some neg ∧ I.add? = some add := by
  simp only [hasBase, Bool.and_eq_true, Option.isSome_iff_exists] at h
  obtain ⟨⟨⟨lit, hl⟩, ⟨neg, hn⟩⟩, ⟨add, ha⟩⟩ := h
  exact ⟨lit, neg, add, hl, hn, ha⟩

theorem methods_of_hasMul {I : Interp σ} (h : I.hasMul = true) :
    I.hasBase = true ∧ ∃ mul, I.mul? = some mul := by
  simp only [hasMul, Bool.and_eq_true, Option.isSome_iff_exists] at h
  exact h

end Interp

/-! ## Scripts -/

/-- Steps to take, and what ends the run after them, if it ends without a result. -/
structure Script where
  steps : List Step
  ending : Option Failure

namespace Script

def single (s : Step) : Script := ⟨[s], none⟩

def stop (e : Failure) : Script := ⟨[], some e⟩

def andThen (c d : Script) : Script :=
  match c.ending with
  | none => ⟨c.steps ++ d.steps, d.ending⟩
  | some e => ⟨c.steps, some e⟩

theorem ending_andThen (c d : Script) : (c.andThen d).ending = c.ending.or d.ending := by
  unfold andThen
  cases h : c.ending <;> simp

/-- How a script is followed: to its end, up to what ends it, or up to a call that fails. -/
inductive Followed {α : Type} (c : Script) : Except Failure α → List Call → Prop where
  | finished {a : α} {calls : List Call} : c.ending = none → calls.map Call.step = c.steps →
      (∀ k ∈ calls, k.Returned) → Followed c (.ok a) calls
  | stopped {e : Failure} {calls : List Call} : c.ending = some e →
      calls.map Call.step = c.steps → (∀ k ∈ calls, k.Returned) → Followed c (.error e) calls
  | raised {e : Failure} {calls : List Call} {last : Call} : last.outcome = .error e →
      (calls ++ [last]).map Call.step <+: c.steps → (∀ k ∈ calls, k.Returned) →
      Followed c (.error e) (calls ++ [last])

section

variable {α β : Type} {c d : Script} {e : Failure} {calls later : List Call}

/-- What follows a script does not matter to a run that the script ended. -/
theorem Followed.andThen (h : c.Followed (.error e : Except Failure α) calls) :
    (c.andThen d).Followed (.error e : Except Failure β) calls := by
  cases h with
  | stopped hn hm hr =>
    have steps : (c.andThen d).steps = c.steps := by simp [Script.andThen, hn]
    have ending : (c.andThen d).ending = c.ending := by simp [Script.andThen, hn]
    exact .stopped (ending.trans hn) (hm.trans steps.symm) hr
  | raised hl hp hr =>
    refine .raised hl (hp.trans ?_) hr
    unfold Script.andThen
    split
    · exact List.prefix_append _ _
    · exact List.prefix_rfl

/-- A run that follows a second script after it has followed a first one to its end. -/
theorem Followed.after {outcome : Except Failure α} (hn : c.ending = none)
    (hm : calls.map Call.step = c.steps) (hr : ∀ k ∈ calls, k.Returned)
    (h : d.Followed outcome later) : (c.andThen d).Followed outcome (calls ++ later) := by
  have steps : (c.andThen d).steps = c.steps ++ d.steps := by simp [Script.andThen, hn]
  have ending : (c.andThen d).ending = d.ending := by simp [Script.andThen, hn]
  have both : ∀ {more : List Call}, (∀ k ∈ more, k.Returned) → ∀ k ∈ calls ++ more, k.Returned :=
    fun hmore => List.forall_mem_append.mpr ⟨hr, hmore⟩
  cases h with
  | finished hn' hm' hr' => exact .finished (ending.trans hn') (by simp [steps, hm, hm']) (both hr')
  | stopped hn' hm' hr' => exact .stopped (ending.trans hn') (by simp [steps, hm, hm']) (both hr')
  | raised hl hp hr' =>
    rw [← List.append_assoc]
    refine .raised hl ?_ (both hr')
    rw [steps, List.append_assoc, List.map_append, hm]
    exact (List.prefix_append_right_inj _).mpr hp

end

end Script

/-! ## Watched runs -/

/-- A call that an interpretation answers as its method does in some state. -/
inductive Interp.Answers {σ : Type} (I : Interp σ) : Call → Prop where
  | lit {f : Value → Run σ Value} (h : I.lit? = some f) (v : Value) (s : σ) :
      Answers I ⟨.lit, [v], ((f v).exec s).1⟩
  | neg {f : Value → Run σ Value} (h : I.neg? = some f) (v : Value) (s : σ) :
      Answers I ⟨.neg, [v], ((f v).exec s).1⟩
  | add {f : Value → Value → Run σ Value} (h : I.add? = some f) (v w : Value) (s : σ) :
      Answers I ⟨.add, [v, w], ((f v w).exec s).1⟩
  | mul {f : Value → Value → Run σ Value} (h : I.mul? = some f) (v w : Value) (s : σ) :
      Answers I ⟨.mul, [v, w], ((f v w).exec s).1⟩

/-- No call on the interpretation fails, whatever its arguments and the state. -/
def Interp.NeverRaises {σ : Type} (I : Interp σ) : Prop := ∀ k, I.Answers k → k.Returned

namespace Watched

variable {σ : Type}

/-- From `s` to `s'`, calls were made in these steps, and all of them returned. -/
def Took (s s' : Watched σ) (steps : List Step) : Prop :=
  ∃ calls, s'.calls = s.calls ++ calls ∧ calls.map Call.step = steps ∧ ∀ k ∈ calls, k.Returned

/-- From `s` to `s'`, calls were made in the first of these steps, and the last call failed. -/
def Raised (s s' : Watched σ) (f : Failure) (steps : List Step) : Prop :=
  ∃ calls last, s'.calls = s.calls ++ (calls ++ [last]) ∧
    (calls ++ [last]).map Call.step <+: steps ∧ (∀ k ∈ calls, k.Returned) ∧
    last.outcome = .error f

end Watched

/-- `r` does on a watched interpretation what `q` does on the interpretation itself, and its calls
follow the script `c`. -/
def Shows {σ α : Type} (I : Interp σ) (r : Run (Watched σ) α) (q : Run σ α) (c : Script) : Prop :=
  ∀ s : Watched σ, ∃ calls, r.exec s =
    ((q.exec s.inner).1, ⟨(q.exec s.inner).2, s.calls ++ calls⟩) ∧
    c.Followed (q.exec s.inner).1 calls ∧ ∀ k ∈ calls, I.Answers k

namespace Shows

variable {σ α β : Type} {I : Interp σ} {c : Script}

theorem throw (e : Failure) :
    Shows I (MonadExcept.throw e : Run (Watched σ) α) (MonadExcept.throw e) (.stop e) :=
  fun s => ⟨[], by simp, .stopped rfl rfl (by simp), by simp⟩

theorem watch {operation : Tag} {arguments : List Value} {q : Run σ Value} {step : Step}
    (hs : ∀ outcome, (Call.mk operation arguments outcome).step = step)
    (ha : ∀ s, I.Answers ⟨operation, arguments, (q.exec s).1⟩) :
    Shows I (Interp.watch operation arguments q) q (.single step) := by
  intro s
  refine ⟨[⟨operation, arguments, (q.exec s.inner).1⟩], rfl, ?_, by simpa using ha s.inner⟩
  rcases q.exec s.inner with ⟨e | v, s'⟩
  · rw [← List.nil_append [_]]
    exact .raised rfl (by simp [Script.single, hs]) (by simp)
  · exact .finished rfl (by simp [Script.single, hs]) (by simp [Call.Returned])

theorem bind {r : Run (Watched σ) α} {q : Run σ α} {d : Script}
    {k : α → Run (Watched σ) β} {l : α → Run σ β} (hr : Shows I r q c)
    (hk : ∀ a, Shows I (k a) (l a) d) : Shows I (r >>= k) (q >>= l) (c.andThen d) := by
  intro s
  obtain ⟨calls, he, hf, ha⟩ := hr s
  rcases hq : q.exec s.inner with ⟨e | a, s'⟩ <;> rw [hq] at he hf
  · -- the first part fails, so the second is never reached
    refine ⟨calls, ?_, ?_, ha⟩
    · rw [Run.exec_bind_error he, Run.exec_bind_error hq]
    · rw [Run.exec_bind_error hq]
      exact hf.andThen
  · cases hf with
    | finished hn hm hr =>
      -- the second part starts after all calls of the first
      obtain ⟨later, he', hf', ha'⟩ := hk a ⟨s', s.calls ++ calls⟩
      refine ⟨calls ++ later, ?_, ?_, List.forall_mem_append.mpr ⟨ha, ha'⟩⟩
      · rw [Run.exec_bind_ok he, he', Run.exec_bind_ok hq, List.append_assoc]
      · rw [Run.exec_bind_ok hq]
        exact .after hn hm hr hf'

section

variable {r : Run (Watched σ) α} {q : Run σ α} (h : Shows I r q c)

include h

/-- A run whose script has an end of its own fails only where a call fails. -/
theorem raised {s s' : Watched σ} {f : Failure} (hc : c.ending = none)
    (he : r.exec s = (.error f, s')) : s.Raised s' f c.steps := by
  obtain ⟨calls, he', hf, -⟩ := h s
  obtain ⟨ho, rfl⟩ := Prod.mk.inj (he.symm.trans he')
  rw [← ho] at hf
  cases hf with
  | stopped hn hm hr => rw [hc] at hn; cases hn
  | raised hl hp hr => exact ⟨_, _, rfl, hp, hr, hl⟩

/-- A run whose script is ended by a failure fails: with that failure, or earlier where a call
fails. -/
theorem fails {e : Failure} (hc : c.ending = some e) (s : Watched σ) :
    ∃ f s', r.exec s = (.error f, s') ∧ q.exec s.inner = (.error f, s'.inner) ∧
      (s.Took s' c.steps ∧ f = e ∨ s.Raised s' f c.steps ∧ ¬ I.NeverRaises) := by
  obtain ⟨calls, he, hf, ha⟩ := h s
  rcases hq : q.exec s.inner with ⟨f | a, s'⟩ <;> rw [hq] at he hf
  · refine ⟨f, _, he, rfl, ?_⟩
    cases hf with
    | stopped hn hm hr =>
      obtain rfl : e = f := Option.some.inj (hc.symm.trans hn)
      exact .inl ⟨⟨calls, rfl, hm, hr⟩, rfl⟩
    | @raised _ _ last hl hp hr =>
      -- the interpretation answered the last call, and it failed
      refine .inr ⟨⟨_, _, rfl, hp, hr, hl⟩, ?_⟩
      intro never
      obtain ⟨v, hv⟩ := never last (ha last (by simp))
      rw [hl] at hv
      cases hv
  · cases hf with
    | finished hn => rw [hc] at hn; cases hn

/-- A run whose script has an end of its own returns when no call can fail. -/
theorem returns (hc : c.ending = none) (never : I.NeverRaises) (s : Watched σ) :
    ∃ a s', r.exec s = (.ok a, s') ∧ q.exec s.inner = (.ok a, s'.inner) := by
  obtain ⟨calls, he, hf, ha⟩ := h s
  rcases hq : q.exec s.inner with ⟨f | a, s'⟩ <;> rw [hq] at he hf
  · cases hf with
    | stopped hn => rw [hc] at hn; cases hn
    | @raised _ _ last hl =>
      obtain ⟨v, hv⟩ := never last (ha last (by simp))
      rw [hl] at hv
      cases hv
  · exact ⟨a, _, he, rfl⟩

end

end Shows

end Symantics
