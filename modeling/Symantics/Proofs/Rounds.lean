import Mathlib.Data.Fin.Tuple.Basic
import Mathlib.Tactic.Choose
import Symantics.Interp.Printer
import Symantics.Interp.TreeBuilder
import Symantics.Proofs.Products

/-
  Products of many interpretations.

  A product of any number of components nests to the right, and so do its results
  (`Value.nest`). An operation on nested pairs is done by all components in turn
  (`Run.allInTurn`): one call each, up to the first that fails. These calls make a
  `Round`, and the run of an expression under a product is a sequence of rounds:
  `Together` says how it ends, told by the runs under the components alone.

  The interpretations answer each call as a function of its arguments, so they have no
  state. The induction on the components stands in `exec_allInTurn`, that on the
  expression in `inRounds_replay`.
-/
namespace Symantics

variable {ρ : Type} {n : Nat}

/-! ## Nested results -/

namespace Value

/-- At least one value as right-nested pairs. -/
def nest : {n : Nat} → (Fin (n + 1) → Value) → Value
  | 0, vs => vs 0
  | _ + 1, vs => .pair (vs 0) (nest fun k => vs k.succ)

theorem halves_pair (a b : Value) : (pair a b).halves = .ok (a, b) := rfl

theorem spread_nest (vs : Fin (n + 1) → Value) :
    unnest.spread n (nest vs) = .ok (List.ofFn vs) := by
  induction n with
  | zero => rfl
  | succ n ih =>
    rw [nest, unnest.spread, halves_pair, List.ofFn_succ]
    show (unnest.spread n (nest fun k => vs k.succ)).map (vs 0 :: ·) = _
    rw [ih]
    rfl

/-- The values are found again, also those that are pairs themselves. -/
theorem unnest_nest (vs : Fin (n + 1) → Value) :
    (nest vs).unnest ((n + 1 : Nat) : Int) = .ok (.tuple (List.ofFn vs)) := by
  have counted : ¬ ((n + 1 : Nat) : Int) < 1 := by omega
  have others : ((n + 1 : Nat) : Int).toNat - 1 = n := by omega
  rw [unnest, if_neg counted, others, spread_nest]
  rfl

end Value

/-! ## Runs in turn -/

/-- How the runs of a round end together: with all that they return, or with the first failure.
The number is that of the runs that were reached. -/
inductive RoundEnds (y : Fin (n + 1) → Except Failure Value) :
    Except Failure Value → Nat → Prop where
  | returned (vs : Fin (n + 1) → Value) (all : ∀ k, y k = .ok (vs k)) :
      RoundEnds y (.ok (.nest vs)) (n + 1)
  | raised {f : Failure} (i : Fin (n + 1)) (before : ∀ k < i, ∃ v, y k = .ok v)
      (fails : y i = .error f) : RoundEnds y (.error f) (i + 1)

namespace RoundEnds

/-- The others are not reached if the first one fails. -/
theorem first {y : Fin (n + 1) → Except Failure Value} {f : Failure} (h : y 0 = .error f) :
    RoundEnds y (.error f) 1 := by
  apply RoundEnds.raised 0 _ h
  intro k hk
  exact absurd hk (Fin.not_lt_zero k)

theorem single (y : Fin 1 → Except Failure Value) : RoundEnds y (y 0) 1 := by
  cases h : y 0 with
  | error f => exact first h
  | ok v =>
    apply RoundEnds.returned fun _ => v
    intro k
    rw [Fin.fin_one_eq_zero k, h]

theorem cons {y : Fin (n + 2) → Except Failure Value} {v : Value} {z : Except Failure Value}
    {m : Nat} (h : y 0 = .ok v) (ends : RoundEnds (fun k => y k.succ) z m) :
    RoundEnds y (z.map (.pair v)) (m + 1) := by
  cases ends with
  | returned vs all =>
    apply RoundEnds.returned (Fin.cons v vs)
    exact Fin.cases h all
  | raised i before fails =>
    apply RoundEnds.raised i.succ _ fails
    intro k hk
    induction k using Fin.cases with
    | zero => exact ⟨v, h⟩
    | succ k => exact before k (Fin.succ_lt_succ_iff.mp hk)

end RoundEnds

namespace Run

/-- At least one run, and then the others, for the nested pairs of what they return. -/
def allInTurn : {n : Nat} → (Fin (n + 1) → Run ρ Value) → Run ρ Value
  | 0, rs => rs 0
  | _ + 1, rs => inTurn (rs 0) (allInTurn fun k => rs k.succ)

/-- The state after a sequence of steps. -/
def after (steps : List (ρ → ρ)) (s : ρ) : ρ := steps.foldl (fun s step => step s) s

/-- Runs whose outcomes do not depend on the state end in turn as their outcomes say. -/
theorem exec_allInTurn (y : Fin (n + 1) → Except Failure Value) :
    ∃ z m, RoundEnds y z m ∧ ∀ {ρ : Type} (rs : Fin (n + 1) → Run ρ Value)
      (next : Fin (n + 1) → ρ → ρ), (∀ k s, (rs k).exec s = (y k, next k s)) →
        ∀ s, (allInTurn rs).exec s = (z, after ((List.ofFn next).take m) s) := by
  induction n with
  | zero => exact ⟨y 0, 1, .single y, fun rs next h s => h 0 s⟩
  | succ n ih =>
    cases h0 : y 0 with
    | error f =>
      refine ⟨.error f, 1, .first h0, ?_⟩
      intro ρ rs next h s
      have first := h 0 s
      rw [h0] at first
      rw [allInTurn, exec_inTurn_error first, List.ofFn_succ]
      rfl
    | ok v =>
      obtain ⟨z, m, ends, others⟩ := ih fun k => y k.succ
      refine ⟨z.map (.pair v), m + 1, ends.cons h0, ?_⟩
      intro ρ rs next h s
      have first := h 0 s
      rw [h0] at first
      have steps : List.ofFn next = next 0 :: List.ofFn fun k => next k.succ := List.ofFn_succ
      rw [allInTurn, exec_inTurn_ok first (others _ _ (fun k => h k.succ) _), steps]
      rfl

/-- Steps that each keep an entry keep all of them. -/
theorem after_keeping {κ : Type} (entries : List κ) (s : Kept κ Unit) :
    after (entries.map fun entry (s : Kept κ Unit) => ⟨(), s.calls ++ [entry]⟩) s =
      ⟨(), s.calls ++ entries⟩ := by
  induction entries generalizing s with
  | nil => rw [List.append_nil]; rfl
  | cons entry entries ih =>
    rw [List.append_cons]
    exact ih ⟨(), s.calls ++ [entry]⟩

end Run

/-! ## Methods of a product -/

namespace Interp

/-- The right-nested product of at least one interpretation. -/
def combined : {n : Nat} → (Fin (n + 1) → Interp ρ) → Interp ρ
  | 0, X => X 0
  | _ + 1, X => bestProduct (X 0) (combined fun k => X k.succ)

theorem productOf_ofFn (X : Fin (n + 1) → Interp ρ) :
    productOf (List.ofFn X) = .ok (combined X) := by
  rw [List.ofFn_succ, productOf]
  congr 1
  induction n with
  | zero => rfl
  | succ n ih =>
    rw [List.ofFn_succ, productOf.nested, ih fun k => X k.succ]
    rfl

theorem hasMul_combined {X : Fin (n + 1) → Interp ρ} :
    (combined X).hasMul = true ↔ ∀ k, (X k).hasMul = true := by
  induction n with
  | zero =>
    constructor
    · intro h k
      rwa [Fin.fin_one_eq_zero k]
    · exact fun h => h 0
  | succ n ih =>
    rw [combined, hasMul_bestProduct, ih]
    constructor
    · intro h
      exact Fin.cases h.1 h.2
    · exact fun h => ⟨h 0, fun k => h k.succ⟩

theorem hasBase_combined {X : Fin (n + 1) → Interp ρ} (h : ∀ k, (X k).hasBase = true) :
    (combined X).hasBase = true := by
  cases n with
  | zero => exact h 0
  | succ n => rfl

section

variable (X : Fin (n + 1) → Interp ρ) (vs ws : Fin (n + 1) → Value)

/-! An operation on nested pairs is done by each component with its own part. -/

theorem combined_litOf (m : Int) :
    (combined X).litOf m = Run.allInTurn fun k => (X k).litOf m := by
  induction n with
  | zero => rfl
  | succ n ih => rw [combined, bestProduct, product_litOf, ih, Run.allInTurn]

theorem combined_neg :
    ((combined X).neg >>= fun neg => neg (.nest vs)) =
      Run.allInTurn fun k => (X k).neg >>= fun neg => neg (vs k) := by
  induction n with
  | zero => rfl
  | succ n ih => rw [combined, bestProduct, Value.nest, product_neg, ih, Run.allInTurn]

theorem combined_add :
    ((combined X).add >>= fun add => add (.nest vs) (.nest ws)) =
      Run.allInTurn fun k => (X k).add >>= fun add => add (vs k) (ws k) := by
  induction n with
  | zero => rfl
  | succ n ih => rw [combined, bestProduct, Value.nest, Value.nest, product_add, ih, Run.allInTurn]

theorem combined_mul (h : ∀ k, (X k).hasMul = true) :
    ((combined X).mul >>= fun mul => mul (.nest vs) (.nest ws)) =
      Run.allInTurn fun k => (X k).mul >>= fun mul => mul (vs k) (ws k) := by
  induction n with
  | zero => rfl
  | succ n ih =>
    have others : ∀ k : Fin (n + 1), (X k.succ).hasMul = true := fun k => h k.succ
    rw [combined, bestProduct_eq ⟨h 0, hasMul_combined.mpr others⟩, Value.nest, Value.nest,
      product_mul, ih _ _ _ others, Run.allInTurn]

end

end Interp

/-! ## Runs in rounds -/

/-- One operation, done by each component of a product with its own arguments. -/
structure Round (n : Nat) where
  operation : Tag
  arguments : Fin (n + 1) → List Value
  outcomes : Fin (n + 1) → Except Failure Value

namespace Round

/-- The call on a component. -/
def call (r : Round n) (k : Fin (n + 1)) : Call := ⟨r.operation, r.arguments k, r.outcomes k⟩

/-- The calls in order, each with its component. -/
def calls (r : Round n) : List (Fin (n + 1) × Call) := List.ofFn fun k => (k, r.call k)

def Returned (r : Round n) : Prop := ∀ k, (r.call k).Returned

end Round

namespace Interp

/-- The components of a product, with every call kept. -/
def heard (I : Fin (n + 1) → Interp Unit) (k : Fin (n + 1)) :
    Interp (Heard (Fin (n + 1)) Unit) :=
  (I k).calling (hear k)

variable {I : Fin (n + 1) → Interp Unit}

theorem hasBase_heard (h : ∀ k, (I k).hasBase = true) (k : Fin (n + 1)) :
    (heard I k).hasBase = true :=
  (hasBase_calling _).trans (h k)

theorem hasMul_heard (h : ∀ k, (I k).hasMul = true) (k : Fin (n + 1)) :
    (heard I k).hasMul = true :=
  (hasMul_calling _).trans (h k)

end Interp

/-- A run on an interpretation whose calls are kept has this outcome and makes these calls. -/
def Ran {κ : Type} (q : Run (Kept κ Unit) Value) (x : Except Failure Value) (calls : List κ) :
    Prop :=
  ∀ s, q.exec s = (x, ⟨(), s.calls ++ calls⟩)

namespace Ran

theorem watch (operation : Tag) (arguments : List Value) (r : Run Unit Value) :
    Ran (Interp.watch operation arguments r) (r.exec ()).1
      [⟨operation, arguments, (r.exec ()).1⟩] :=
  fun _ => rfl

variable {κ : Type} {q : Run (Kept κ Unit) Value} {k : Value → Run (Kept κ Unit) Value}
  {x y : Except Failure Value} {v : Value} {f : Failure} {calls more : List κ}

theorem outcome_eq (hq : Ran q x calls) : (q.exec ⟨(), []⟩).1 = x := by rw [hq]

theorem calls_eq (hq : Ran q x calls) : (q.exec ⟨(), []⟩).2.calls = calls := by
  rw [hq, List.nil_append]

theorem bind (hq : Ran q (.ok v) calls) (hk : Ran (k v) y more) :
    Ran (q >>= k) y (calls ++ more) := by
  intro s
  rw [Run.exec_bind_ok (hq s), hk, List.append_assoc]

theorem bind_error (hq : Ran q (.error f) calls) : Ran (q >>= k) (.error f) calls :=
  fun s => Run.exec_bind_error (hq s) k

/-- A run goes on after its calls, unless it has failed. -/
theorem goesOn (hq : Ran q x calls) (hk : ∀ v, ∃ y more, Ran (k v) y more) :
    ∃ y more, Ran (q >>= k) y (calls ++ more) ∧ ∀ f, x = .error f → y = .error f := by
  cases x with
  | error f => exact ⟨.error f, [], by rw [List.append_nil]; exact hq.bind_error, fun _ => id⟩
  | ok v =>
    obtain ⟨y, more, hv⟩ := hk v
    exact ⟨y, more, hq.bind hv, fun f hf => by cases hf⟩

end Ran

/-- How a run under a product ends, told by the outcomes and the calls of the runs under its
components. Every round of calls returns, or there is a last one, in which a component fails after
those before it have returned; the components alone may then have made more calls. -/
inductive Together (x : Fin (n + 1) → Except Failure Value) (calls : Fin (n + 1) → List Call) :
    Except Failure Value → List (Fin (n + 1) × Call) → Prop where
  | returned (vs : Fin (n + 1) → Value) (rounds : List (Round n))
      (returned : ∀ r ∈ rounds, r.Returned) (outcomes : ∀ k, x k = .ok (vs k))
      (made : ∀ k, calls k = rounds.map (·.call k)) :
      Together x calls (.ok (.nest vs)) (rounds.flatMap Round.calls)
  | raised {f : Failure} (rounds : List (Round n)) (last : Round n) (i : Fin (n + 1))
      (returned : ∀ r ∈ rounds, r.Returned) (before : ∀ k < i, (last.call k).Returned)
      (fails : (last.call i).outcome = .error f) (outcome : x i = .error f)
      (made : ∀ k, ∃ later, calls k = rounds.map (·.call k) ++ last.call k :: later) :
      Together x calls (.error f) (rounds.flatMap Round.calls ++ last.calls.take (i + 1))

/-- What comes after rounds in which every call has returned. -/
theorem Together.after {x : Fin (n + 1) → Except Failure Value} {calls : Fin (n + 1) → List Call}
    {z : Except Failure Value} {cs : List (Fin (n + 1) × Call)} {rounds : List (Round n)}
    (returned : ∀ r ∈ rounds, r.Returned) (h : Together x calls z cs) :
    Together x (fun k => rounds.map (·.call k) ++ calls k) z
      (rounds.flatMap Round.calls ++ cs) := by
  cases h with
  | returned vs later returned' outcomes made =>
    rw [← List.flatMap_append]
    apply Together.returned vs _ (List.forall_mem_append.mpr ⟨returned, returned'⟩) outcomes
    intro k
    rw [made k, List.map_append]
  | raised later last i returned' before fails outcome made =>
    rw [← List.append_assoc, ← List.flatMap_append]
    apply Together.raised _ last i (List.forall_mem_append.mpr ⟨returned, returned'⟩) before fails
      outcome
    intro k
    obtain ⟨more, made⟩ := made k
    exact ⟨more, by rw [made, List.map_append, List.append_assoc]⟩

/-- Runs under the components, each watched, and runs under their product, with calls heard and
without, that go in rounds. -/
def InRounds (q : Fin (n + 1) → Run (Watched Unit) Value)
    (p : Run (Heard (Fin (n + 1)) Unit) Value) (o : Run Unit Value) : Prop :=
  ∃ x calls z cs, (∀ k, Ran (q k) (x k) (calls k)) ∧ Ran p z cs ∧ o.exec () = (z, ()) ∧
    Together x calls z cs

namespace InRounds

/-- A call on the product is a round of calls on the components. -/
theorem call (operation : Tag) (arguments : Fin (n + 1) → List Value)
    (r : Fin (n + 1) → Run Unit Value) :
    InRounds (fun k => Interp.watch operation (arguments k) (r k))
      (Run.allInTurn fun k => Interp.hear k operation (arguments k) (r k)) (Run.allInTurn r) := by
  let last : Round n := ⟨operation, arguments, fun k => ((r k).exec ()).1⟩
  obtain ⟨z, m, ends, go⟩ := Run.exec_allInTurn fun k => ((r k).exec ()).1
  refine ⟨_, fun k => [last.call k], z, last.calls.take m, fun k => .watch _ _ _, ?_, ?_, ?_⟩
  · intro s
    rw [go _ (fun k s => ⟨(), s.calls ++ [(k, last.call k)]⟩) fun k s => Interp.exec_keep _ _ _ _ s,
      ← Run.after_keeping, Round.calls, List.map_take, List.map_ofFn]
    rfl
  · exact go r (fun _ _ => ()) (fun _ _ => rfl) ()
  · cases ends with
    | returned vs all =>
      have whole : last.calls.take (n + 1) = [last].flatMap Round.calls := by
        rw [List.take_of_length_le (by simp [Round.calls]), List.flatMap_singleton]
      rw [whole]
      have done : last.Returned := fun k => ⟨vs k, all k⟩
      exact .returned vs [last] (by simpa using done) all fun k => rfl
    | raised i before fails =>
      exact .raised [] last i (by simp) before fails fails fun k => ⟨[], rfl⟩

/-- Runs in rounds go on in rounds, the product with the nested pairs of what its components
return. -/
theorem bind {q : Fin (n + 1) → Run (Watched Unit) Value}
    {p : Run (Heard (Fin (n + 1)) Unit) Value} {o : Run Unit Value} (h : InRounds q p o)
    {i : Fin (n + 1) → Value → Run (Watched Unit) Value}
    {j : Value → Run (Heard (Fin (n + 1)) Unit) Value} {l : Value → Run Unit Value}
    (hk : ∀ vs : Fin (n + 1) → Value,
      InRounds (fun k => i k (vs k)) (j (.nest vs)) (l (.nest vs))) :
    InRounds (fun k => q k >>= i k) (p >>= j) (o >>= l) := by
  obtain ⟨x, calls, z, cs, hq, hp, ho, together⟩ := h
  cases together with
  | returned vs rounds returned outcomes made =>
    obtain ⟨x', calls', z', cs', hi, hj, hl, together⟩ := hk vs
    have later := together.after returned
    refine ⟨x', fun k => rounds.map (·.call k) ++ calls' k, z', _, ?_, hp.bind hj, ?_, later⟩
    · intro k
      have first := hq k
      rw [outcomes k, made k] at first
      exact first.bind (hi k)
    · rw [Run.exec_bind_ok ho, hl]
  | @raised f rounds last c returned before fails outcome made =>
    -- the other components alone may go on
    have goesOn : ∀ k, ∃ y more, Ran (q k >>= i k) y (calls k ++ more) ∧
        ∀ f, x k = .error f → y = .error f := by
      intro k
      apply (hq k).goesOn
      intro v
      obtain ⟨x', calls', _, _, hi, -⟩ := hk fun _ => v
      exact ⟨x' k, calls' k, hi k⟩
    choose y more ran failed using goesOn
    refine ⟨y, _, _, _, ran, hp.bind_error, Run.exec_bind_error ho l, ?_⟩
    apply Together.raised rounds last c returned before fails (failed c f outcome)
    intro k
    obtain ⟨later, made⟩ := made k
    exact ⟨later ++ more k, by rw [made, List.append_assoc, List.cons_append]⟩

end InRounds

/-! ## Steps of a product -/

section

variable {I : Fin (n + 1) → Interp Unit}

theorem inRounds_lit (hI : ∀ k, (I k).hasBase = true) (m : Int) :
    InRounds (fun k => (I k).watched.litOf m) ((Interp.combined (Interp.heard I)).litOf m)
      ((Interp.combined I).litOf m) := by
  choose f _ _ hf _ _ using fun k => Interp.methods_of_hasBase (hI k)
  rw [Interp.combined_litOf, Interp.combined_litOf]
  simp only [Interp.litOf, Interp.watched, Interp.heard, Interp.lit_eq (hf _),
    Interp.lit_eq (Interp.calling_lit _ (hf _)), pure_bind]
  exact .call .lit _ _

theorem inRounds_neg (hI : ∀ k, (I k).hasBase = true) (vs : Fin (n + 1) → Value) :
    InRounds (fun k => (I k).watched.neg >>= fun neg => neg (vs k))
      ((Interp.combined (Interp.heard I)).neg >>= fun neg => neg (.nest vs))
      ((Interp.combined I).neg >>= fun neg => neg (.nest vs)) := by
  choose _ f _ _ hf _ using fun k => Interp.methods_of_hasBase (hI k)
  rw [Interp.combined_neg, Interp.combined_neg]
  simp only [Interp.watched, Interp.heard, Interp.neg_eq (hf _),
    Interp.neg_eq (Interp.calling_neg _ (hf _)), pure_bind]
  exact .call .neg _ _

theorem inRounds_add (hI : ∀ k, (I k).hasBase = true) (vs ws : Fin (n + 1) → Value) :
    InRounds (fun k => (I k).watched.add >>= fun add => add (vs k) (ws k))
      ((Interp.combined (Interp.heard I)).add >>= fun add => add (.nest vs) (.nest ws))
      ((Interp.combined I).add >>= fun add => add (.nest vs) (.nest ws)) := by
  choose _ _ f _ _ hf using fun k => Interp.methods_of_hasBase (hI k)
  rw [Interp.combined_add, Interp.combined_add]
  simp only [Interp.watched, Interp.heard, Interp.add_eq (hf _),
    Interp.add_eq (Interp.calling_add _ (hf _)), pure_bind]
  exact .call .add _ _

theorem inRounds_mul (hI : ∀ k, (I k).hasMul = true) (vs ws : Fin (n + 1) → Value) :
    InRounds
      (fun k => do
        (I k).watched.requireMul
        (← (I k).watched.mul) (vs k) (ws k))
      (do
        (Interp.combined (Interp.heard I)).requireMul
        (← (Interp.combined (Interp.heard I)).mul) (.nest vs) (.nest ws))
      (do
        (Interp.combined I).requireMul
        (← (Interp.combined I).mul) (.nest vs) (.nest ws)) := by
  choose _ f hf using fun k => Interp.methods_of_hasMul (hI k)
  have heard := Interp.hasMul_heard hI
  have watched : ∀ k, ((I k).calling Interp.watch).hasMul = true :=
    fun k => (Interp.hasMul_calling _).trans (hI k)
  rw [Interp.requireMul_eq (Interp.hasMul_combined.mpr heard),
    Interp.requireMul_eq (Interp.hasMul_combined.mpr hI), pure_bind, pure_bind,
    Interp.combined_mul _ _ _ heard, Interp.combined_mul _ _ _ hI]
  simp only [Interp.watched, Interp.requireMul_eq (watched _), Interp.heard,
    Interp.mul_eq (hf _), Interp.mul_eq (Interp.calling_mul _ (hf _)), pure_bind]
  exact .call .mul _ _

/-- The replay of an expression under a product goes in rounds with its replays under the
components. -/
theorem inRounds_replay (hI : ∀ k, (I k).hasBase = true) :
    ∀ e : Exp, (e.hasMul = true → ∀ k, (I k).hasMul = true) →
      InRounds (fun k => e.widen.replay (I k).watched)
        (e.widen.replay (Interp.combined (Interp.heard I)))
        (e.widen.replay (Interp.combined I)) := by
  intro e
  induction e with
  | lit m => exact fun _ => inRounds_lit hI m
  | neg e ih =>
    intro hm
    apply InRounds.bind (ih hm)
    exact inRounds_neg hI
  | add l r ihl ihr =>
    intro hm
    simp only [Exp.hasMul, Bool.or_eq_true] at hm
    apply InRounds.bind (ihl fun h => hm (.inl h))
    intro vs
    apply InRounds.bind (ihr fun h => hm (.inr h))
    exact inRounds_add hI vs
  | mul l r ihl ihr =>
    intro hm
    have all := hm rfl
    apply InRounds.bind (ihl fun _ => all)
    intro vs
    apply InRounds.bind (ihr fun _ => all)
    exact inRounds_mul all vs
  | stray v => exact v.elim

end

/-! ## Expressions under a product -/

/-- An expression does under the product `P` of interpretations what it does under each of them
alone; `Q` is their product with every call kept. -/
structure Combines (I : Fin (n + 1) → Interp Unit) (P : Interp Unit)
    (Q : Interp (Heard (Fin (n + 1)) Unit)) (e : Exp) : Prop where
  -- If every component returns, so does the product, after a round of calls for each operation.
  returns : ∀ vs : Fin (n + 1) → Value, (∀ k, (I k).outcome e.program () = .ok (vs k)) →
    ∃ (v : Value) (rounds : List (Round n)), P.outcome e.program () = .ok v ∧
      v.unnest ((n + 1 : Nat) : Int) = .ok (.tuple (List.ofFn vs)) ∧
      (∀ k, (I k).callsOf e.program () = rounds.map (·.call k)) ∧
      ((e.program Q).exec ⟨(), []⟩).2.calls = rounds.flatMap Round.calls
  -- If some component fails, the product fails as the first component to fail in the first round
  -- in which one does, and calls no other one after it.
  raises : ∀ j g, (I j).outcome e.program () = .error g →
    ∃ (rounds : List (Round n)) (last : Round n) (i : Fin (n + 1)) (f : Failure),
      (∀ r ∈ rounds, r.Returned) ∧ (∀ k < i, (last.call k).Returned) ∧
      (last.call i).outcome = .error f ∧
      (∀ k, rounds.map (·.call k) ++ [last.call k] <+: (I k).callsOf e.program ()) ∧
      (I i).outcome e.program () = .error f ∧ P.outcome e.program () = .error f ∧
      ((e.program Q).exec ⟨(), []⟩).2.calls =
        rounds.flatMap Round.calls ++ last.calls.take (i + 1)
  -- Keeping the calls changes nothing else.
  heard : Q.outcome e.program ⟨(), []⟩ = P.outcome e.program ()

section

variable {I : Fin (n + 1) → Interp Unit} {e : Exp} {x : Fin (n + 1) → Except Failure Value}
  {calls : Fin (n + 1) → List Call} {z : Except Failure Value} {cs : List (Fin (n + 1) × Call)}

/-- A watched run tells what the expression does under an interpretation. -/
theorem Ran.alone {J : Interp Unit} (hJ : J.hasBase = true)
    (hm : e.hasMul = true → J.hasMul = true) {y : Except Failure Value} {made : List Call}
    (ran : Ran (e.run J.watched) y made) :
    J.outcome e.program () = y ∧ J.callsOf e.program () = made := by
  obtain ⟨made', shown, -⟩ := Exp.shows_run hJ e hm ⟨(), []⟩
  obtain ⟨outcome, -⟩ := Prod.mk.inj (shown.symm.trans (ran ⟨(), []⟩))
  exact ⟨outcome, ran.calls_eq⟩

theorem Combines.of_together {P : Interp Unit} {Q : Interp (Heard (Fin (n + 1)) Unit)}
    (outcomes : ∀ k, (I k).outcome e.program () = x k)
    (made : ∀ k, (I k).callsOf e.program () = calls k)
    (heard : Ran (e.program Q) z cs) (plain : P.outcome e.program () = z)
    (together : Together x calls z cs) : Combines I P Q e where
  returns := by
    intro vs returned
    cases together with
    | returned vs' rounds _ outcomes' made' =>
      have same : vs' = vs := by
        funext k
        exact Except.ok.inj ((outcomes' k).symm.trans ((outcomes k).symm.trans (returned k)))
      subst same
      exact ⟨_, rounds, plain, Value.unnest_nest vs', fun k => (made k).trans (made' k),
        heard.calls_eq⟩
    | raised rounds last i _ _ _ outcome _ =>
      cases (returned i).symm.trans ((outcomes i).trans outcome)
  raises := by
    intro j g fails
    cases together with
    | returned vs rounds _ outcomes' _ =>
      cases fails.symm.trans ((outcomes j).trans (outcomes' j))
    | raised rounds last i returned before fails outcome made' =>
      refine ⟨rounds, last, i, _, returned, before, fails, ?_, (outcomes i).trans outcome, plain,
        heard.calls_eq⟩
      intro k
      obtain ⟨later, made'⟩ := made' k
      rw [made k, made']
      exact ⟨later, by rw [List.append_assoc, List.singleton_append]⟩
  heard := by
    rw [plain]
    exact heard.outcome_eq

/-- The product of any number of interpretations has a multiplication if all of them have one, and
every expression does under it what it does under each of them alone. -/
theorem productOf_combines (I : Fin (n + 1) → Interp Unit) :
    ∃ P Q, Interp.productOf (List.ofFn I) = .ok P ∧
      Interp.productOf (List.ofFn (Interp.heard I)) = .ok Q ∧
      (P.hasMul = true ↔ ∀ k, (I k).hasMul = true) ∧
      ∀ e : Exp, (∀ k, (I k).hasBase = true) →
        (e.hasMul = true → ∀ k, (I k).hasMul = true) → Combines I P Q e := by
  refine ⟨_, _, Interp.productOf_ofFn I, Interp.productOf_ofFn _, Interp.hasMul_combined, ?_⟩
  intro e hI hm
  obtain ⟨x, calls, z, cs, hq, hp, ho, together⟩ := inRounds_replay hI e hm
  -- on all of these interpretations the expression is run as it is replayed
  have heard := Exp.replay_widen (Interp.hasBase_combined (Interp.hasBase_heard hI)) e
    fun h => Interp.hasMul_combined.mpr (Interp.hasMul_heard (hm h))
  have plain := Exp.replay_widen (Interp.hasBase_combined hI) e
    fun h => Interp.hasMul_combined.mpr (hm h)
  have alone : ∀ k, (I k).outcome e.program () = x k ∧ (I k).callsOf e.program () = calls k := by
    intro k
    apply Ran.alone (hI k) fun h => hm h k
    rw [← Exp.replay_watched (hI k) e fun h => hm h k]
    exact hq k
  rw [heard] at hp
  rw [plain] at ho
  exact .of_together (fun k => (alone k).1) (fun k => (alone k).2) hp (congrArg Prod.fst ho)
    together

end

theorem productOf_combines_of_product :
    let A : Interp Unit := .evaluator .extended (.signed 4 (by decide))
    let B : Interp Unit := .bestProduct (.printer .extended) (.treeBuilder .extended)
    let C : Interp Unit := .treeBuilder .extended
    let tree : Value := (Tree.node "Mul"
      [.node "Lit" [.leaf "2"], .node "Lit" [.leaf "3"]]).toValue
    let six : Exp := .mul (.lit 2) (.lit 3)
    let twelve : Exp := .mul (.lit 3) (.lit 4)
    ∃ P, Interp.productOf [A, B, C] = .ok P ∧ P.hasMul = true ∧
      (∃ v, P.outcome six.program () = .ok v ∧
        v.unnest 3 = .ok (.tuple [.int 6, .pair (.text "(2 * 3)") tree, tree])) ∧
      P.outcome twelve.program () =
        .error (Interp.overflow "IntMulEval[4]" "mul" [3, 4] 4) := by
  intro A B C tree six twelve
  let I : Fin 3 → Interp Unit
    | 0 => A
    | 1 => B
    | 2 => C
  have base : ∀ k, (I k).hasBase = true := by
    intro k
    match k with
    | 0 | 1 | 2 => rfl
  have mul : ∀ k, (I k).hasMul = true := by
    intro k
    match k with
    | 0 | 1 | 2 => rfl
  obtain ⟨P, Q, hP, -, multiplies, combines⟩ := productOf_combines I
  refine ⟨P, hP, multiplies.mpr mul, ?_, ?_⟩
  · let vs : Fin 3 → Value
      | 0 => .int 6
      | 1 => .pair (.text "(2 * 3)") tree
      | 2 => tree
    have returned : ∀ k, (I k).outcome six.program () = .ok (vs k) := by
      intro k
      match k with
      | 0 | 1 | 2 => rfl
    obtain ⟨v, rounds, hv, unnested, -⟩ := (combines _ base fun _ => mul).returns vs returned
    exact ⟨v, hv, unnested⟩
  · have failed : (I 0).outcome twelve.program () =
        .error (Interp.overflow "IntMulEval[4]" "mul" [3, 4] 4) := rfl
    obtain ⟨rounds, last, i, f, -, -, -, -, outcome, fails, -⟩ :=
      (combines _ base fun _ => mul).raises 0 _ failed
    -- the other components do not fail, so it is the first one that does
    match i with
    | 0 => rw [fails, Except.error.inj (failed.symm.trans outcome)]
    | 1 | 2 => cases outcome

end Symantics
