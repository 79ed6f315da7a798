import Symantics.Interp.Evaluator
import Symantics.Interp.Product
import Symantics.Proofs.Acceptance

/-
  What a product of interpretations does.

  The components of a product have states of their own and are told apart by a `Side`;
  a call that is kept says on which side it was made. `Lockstep` relates a run under a
  product to the runs under its components: all of them take the same steps, the first
  component before the second, until one of the two fails or all end. Replays of an
  expression do so (`lockstep_replay`), and with them whatever is a replay: running an
  expression and decoding a tree (`product_faithful`).
-/
namespace Symantics

variable {σ τ ρ : Type}

/-- The components of a product. -/
inductive Side where
  | first
  | second
  deriving DecidableEq, Repr

/-- The state of a product whose components are heard: theirs, and the calls so far, each with the
component that it was made on. -/
abbrev Heard (ι ρ : Type) := Kept (ι × Call) ρ

namespace Run

/-- A run on the first part of a state. -/
def inFirst {α : Type} (r : Run σ α) : Run (σ × τ) α := fun s =>
  let (outcome, first) := r.exec s.1
  (outcome, (first, s.2))

/-- A run on the second part of a state. -/
def inSecond {α : Type} (r : Run τ α) : Run (σ × τ) α := fun s =>
  let (outcome, second) := r.exec s.2
  (outcome, (s.1, second))

/-- A run and then another one, for the pair of what they return. -/
def inTurn (r q : Run ρ Value) : Run ρ Value := do
  let x ← r
  let y ← q
  return .pair x y

variable {α : Type}

section

variable {r q : Run ρ Value} {s s' : ρ}

theorem exec_inTurn_error {e : Failure} (hr : r.exec s = (.error e, s')) :
    (inTurn r q).exec s = (.error e, s') :=
  exec_bind_error hr _

theorem exec_inTurn_ok {a : Value} {y : Except Failure Value} {s'' : ρ}
    (hr : r.exec s = (.ok a, s')) (hq : q.exec s' = (y, s'')) :
    (inTurn r q).exec s = (y.map (Value.pair a), s'') := by
  rw [inTurn, exec_bind_ok hr]
  cases y with
  | error e => exact exec_bind_error hq _
  | ok b => exact exec_bind_ok hq _

end

theorem exec_inFirst (r : Run σ α) (s : σ × τ) :
    r.inFirst.exec s = ((r.exec s.1).1, ((r.exec s.1).2, s.2)) := rfl

theorem exec_inSecond (r : Run τ α) (s : σ × τ) :
    r.inSecond.exec s = ((r.exec s.2).1, (s.1, (r.exec s.2).2)) := rfl

end Run

namespace Interp

/-- Makes a call and keeps it with the component that it is made on. -/
abbrev hear {ι : Type} (component : ι) : Tag → List Value → Run ρ Value → Run (Heard ι ρ) Value :=
  keep fun call => (component, call)

/-- The product of two interpretations with states of their own. -/
def joint (A : Interp σ) (B : Interp τ) : Interp (σ × τ) :=
  bestProduct (A.calling fun _ _ => Run.inFirst) (B.calling fun _ _ => Run.inSecond)

/-- The product of two interpretations with states of their own, with every call kept. -/
def jointHeard (A : Interp σ) (B : Interp τ) : Interp (Heard Side (σ × τ)) :=
  bestProduct (A.calling fun o vs r => hear .first o vs r.inFirst)
    (B.calling fun o vs r => hear .second o vs r.inSecond)

end Interp

/-- The calls of two runs in turn: one of the first, then one of the second. -/
def alternating : List Call → List Call → List (Side × Call)
  | a :: as, b :: bs => (.first, a) :: (.second, b) :: alternating as bs
  | _, _ => []

/-- As many calls were made on one component as on the other, and all of them returned. -/
structure Abreast (as bs : List Call) : Prop where
  first : ∀ k ∈ as, k.Returned
  second : ∀ k ∈ bs, k.Returned
  length : as.length = bs.length

/-- How a run under a product ends, told by the outcomes and the calls of the runs under its
components, of the first before the second. Where a call fails, the product ends; the other
component alone would have made the `later` calls too. -/
inductive Joined : Except Failure Value → List Call → Except Failure Value → List Call →
    Except Failure Value → List (Side × Call) → Prop where
  | returned {a b : Value} {as bs : List Call} (abreast : Abreast as bs) :
      Joined (.ok a) as (.ok b) bs (.ok (.pair a b)) (alternating as bs)
  | stopped {e : Failure} {as bs : List Call} (abreast : Abreast as bs) :
      Joined (.error e) as (.error e) bs (.error e) (alternating as bs)
  | first {f : Failure} {y : Except Failure Value} {as bs later : List Call} {a : Call}
      (abreast : Abreast as bs) (ha : a.outcome = .error f) :
      Joined (.error f) (as ++ [a]) y (bs ++ later) (.error f)
        (alternating as bs ++ [(.first, a)])
  | second {f : Failure} {x : Except Failure Value} {as bs later : List Call} {a b : Call}
      (abreast : Abreast as bs) (ha : a.Returned) (hb : b.outcome = .error f) :
      Joined x (as ++ a :: later) (.error f) (bs ++ [b]) (.error f)
        (alternating as bs ++ [(.first, a), (.second, b)])

theorem alternating_append {as bs : List Call} (h : as.length = bs.length) (cs ds : List Call) :
    alternating (as ++ cs) (bs ++ ds) = alternating as bs ++ alternating cs ds := by
  induction as generalizing bs with
  | nil =>
    obtain rfl := List.eq_nil_of_length_eq_zero h.symm
    rfl
  | cons a as ih =>
    cases bs with
    | nil => cases h
    | cons b bs => simp only [List.cons_append, alternating, ih (Nat.succ_inj.mp h)]

namespace Abreast

variable {as bs cs ds : List Call}

theorem nil : Abreast [] [] := ⟨by simp, by simp, rfl⟩

theorem append (h : Abreast as bs) (h' : Abreast cs ds) : Abreast (as ++ cs) (bs ++ ds) where
  first := List.forall_mem_append.mpr ⟨h.first, h'.first⟩
  second := List.forall_mem_append.mpr ⟨h.second, h'.second⟩
  length := by rw [List.length_append, List.length_append, h.length, h'.length]

end Abreast

/-- What the components do after all calls have returned is what the product does after them. -/
theorem Joined.after {x y z : Except Failure Value} {as bs later more : List Call}
    {cs : List (Side × Call)} (before : Abreast as bs) (h : Joined x later y more z cs) :
    Joined x (as ++ later) y (bs ++ more) z (alternating as bs ++ cs) := by
  cases h with
  | returned abreast =>
    rw [← alternating_append before.length]
    exact .returned (before.append abreast)
  | stopped abreast =>
    rw [← alternating_append before.length]
    exact .stopped (before.append abreast)
  | first abreast ha =>
    rw [← List.append_assoc, ← List.append_assoc, ← List.append_assoc,
      ← alternating_append before.length]
    exact .first (before.append abreast) ha
  | second abreast ha hb =>
    rw [← List.append_assoc, ← List.append_assoc, ← List.append_assoc,
      ← alternating_append before.length]
    exact .second (before.append abreast) ha hb

/-- Runs under two components and under their product, with calls heard and without, that go in
step. -/
def Lockstep (q : Run (Watched σ) Value) (r : Run (Watched τ) Value)
    (p : Run (Heard Side (σ × τ)) Value) (o : Run (σ × τ) Value) : Prop :=
  ∀ (s : Watched σ) (t : Watched τ) (u : Heard Side (σ × τ)), u.inner = (s.inner, t.inner) →
    ∃ x y z s' t' w as bs cs,
      q.exec s = (x, ⟨s', s.calls ++ as⟩) ∧ r.exec t = (y, ⟨t', t.calls ++ bs⟩) ∧
      p.exec u = (z, ⟨w, u.calls ++ cs⟩) ∧ o.exec u.inner = (z, w) ∧
      Joined x as y bs z cs ∧ ∀ v, z = .ok v → w = (s', t')

namespace Lockstep

/-- A run that has gone on has kept the calls it made before. -/
theorem goesOn {r : Run (Watched σ) Value} {k : Value → Run (Watched σ) Value} {s : Watched σ}
    {x : Except Failure Value} {s' : σ} {calls : List Call}
    (hr : r.exec s = (x, ⟨s', s.calls ++ calls⟩))
    (hk : ∀ a s, ∃ x s' later, (k a).exec s = (x, ⟨s', s.calls ++ later⟩)) :
    ∃ x s' later, (r >>= k).exec s = (x, ⟨s', s.calls ++ (calls ++ later)⟩) := by
  cases x with
  | error e => exact ⟨.error e, s', [], by rw [Run.exec_bind_error hr, List.append_nil]⟩
  | ok a =>
    obtain ⟨x, s'', later, h⟩ := hk a ⟨s', s.calls ++ calls⟩
    exact ⟨x, s'', later, by rw [Run.exec_bind_ok hr, h, List.append_assoc]⟩

theorem throw (e : Failure) :
    Lockstep (MonadExcept.throw e : Run (Watched σ) Value)
      (MonadExcept.throw e : Run (Watched τ) Value) (MonadExcept.throw e)
      (MonadExcept.throw e) := by
  intro s t u hu
  have ends : Joined (.error e) [] (.error e) [] (.error e) [] := .stopped .nil
  exact ⟨_, _, _, s.inner, t.inner, u.inner, [], [], [], by simp, by simp, by simp, rfl, ends,
    by simp⟩

/-- A call on the product is a call on the first component and then one on the second. -/
theorem call (operation : Tag) (vs ws : List Value) (f : Run σ Value) (g : Run τ Value) :
    Lockstep (Interp.watch operation vs f) (Interp.watch operation ws g)
      (Run.inTurn (Interp.hear .first operation vs f.inFirst)
        (Interp.hear .second operation ws g.inSecond))
      (Run.inTurn f.inFirst g.inSecond) := by
  intro s t u hu
  obtain ⟨states, heard⟩ := u
  obtain rfl : states = (s.inner, t.inner) := hu
  rcases hf : f.exec s.inner with ⟨x, s'⟩
  rcases hg : g.exec t.inner with ⟨y, t'⟩
  have watchFirst : (Interp.watch operation vs f).exec s =
      (x, ⟨s', s.calls ++ [⟨operation, vs, x⟩]⟩) := by rw [Interp.exec_keep, hf]
  have watchSecond : (Interp.watch operation ws g).exec t =
      (y, ⟨t', t.calls ++ [⟨operation, ws, y⟩]⟩) := by rw [Interp.exec_keep, hg]
  have first : f.inFirst.exec (s.inner, t.inner) = (x, (s', t.inner)) := by
    rw [Run.exec_inFirst, hf]
  have second : g.inSecond.exec (s', t.inner) = (y, (s', t')) := by rw [Run.exec_inSecond, hg]
  have hearFirst : (Interp.hear .first operation vs f.inFirst).exec ⟨(s.inner, t.inner), heard⟩ =
      (x, ⟨(s', t.inner), heard ++ [(.first, ⟨operation, vs, x⟩)]⟩) := by
    rw [Interp.exec_keep, first]
  have hearSecond : ∀ calls,
      (Interp.hear Side.second operation ws g.inSecond).exec ⟨(s', t.inner), calls⟩ =
        (y, ⟨(s', t'), calls ++ [(.second, ⟨operation, ws, y⟩)]⟩) := by
    intro calls
    rw [Interp.exec_keep, second]
  cases x with
  | error e =>
    -- the second component is not called any more under the product
    refine ⟨_, y, _, s', t', _, _, _, _, watchFirst, watchSecond,
      Run.exec_inTurn_error hearFirst, Run.exec_inTurn_error first, ?_, by simp⟩
    exact @Joined.first e y [] [] _ _ .nil rfl
  | ok a =>
    have both := Run.exec_inTurn_ok hearFirst (hearSecond _)
    rw [List.append_assoc] at both
    refine ⟨_, _, _, s', t', _, _, _, _, watchFirst, watchSecond, both,
      Run.exec_inTurn_ok first second, ?_, fun _ _ => rfl⟩
    have returned : (⟨operation, vs, .ok a⟩ : Call).Returned := ⟨a, rfl⟩
    cases y with
    | error e => exact @Joined.second e _ [] [] [] _ _ .nil returned rfl
    | ok b =>
      have abreast : Abreast [⟨operation, vs, .ok a⟩] [⟨operation, ws, .ok b⟩] :=
        ⟨by simpa using returned, by simp [Call.Returned], rfl⟩
      exact .returned abreast

/-- Runs in step go on in step, the product with the pair of what its components return. -/
theorem bind {q : Run (Watched σ) Value} {r : Run (Watched τ) Value}
    {p : Run (Heard Side (σ × τ)) Value} {o : Run (σ × τ) Value} (h : Lockstep q r p o)
    {i : Value → Run (Watched σ) Value} {j : Value → Run (Watched τ) Value}
    {k : Value → Run (Heard Side (σ × τ)) Value} {l : Value → Run (σ × τ) Value}
    (hk : ∀ a b, Lockstep (i a) (j b) (k (.pair a b)) (l (.pair a b))) :
    Lockstep (q >>= i) (r >>= j) (p >>= k) (o >>= l) := by
  intro s t u hu
  obtain ⟨x, y, z, s', t', w, as, bs, cs, hq, hr, hp, ho, joined, states⟩ := h s t u hu
  cases joined with
  | returned abreast =>
    obtain ⟨x, y, z, s'', t'', w', as', bs', cs', hi, hj, hk, hl, joined, states'⟩ :=
      hk _ _ ⟨s', s.calls ++ as⟩ ⟨t', t.calls ++ bs⟩ ⟨w, _⟩ (states _ rfl)
    refine ⟨x, y, z, s'', t'', w', _, _, _, ?_, ?_, ?_, ?_, joined.after abreast, states'⟩
    · rw [Run.exec_bind_ok hq, hi, List.append_assoc]
    · rw [Run.exec_bind_ok hr, hj, List.append_assoc]
    · rw [Run.exec_bind_ok hp, hk, List.append_assoc]
    · rw [Run.exec_bind_ok ho, hl]
  | stopped abreast =>
    exact ⟨_, _, _, s', t', w, _, _, _, Run.exec_bind_error hq _, Run.exec_bind_error hr _,
      Run.exec_bind_error hp _, Run.exec_bind_error ho _, .stopped abreast, by simp⟩
  | @first f _ as bs later a abreast ha =>
    -- the second component alone may go on
    have appends : ∀ b t, ∃ y t' later, (j b).exec t = (y, ⟨t', t.calls ++ later⟩) := by
      intro b t
      obtain ⟨_, y, _, _, t', _, _, later, _, -, hj, -⟩ :=
        hk default b ⟨s.inner, []⟩ t ⟨(s.inner, t.inner), []⟩ rfl
      exact ⟨y, t', later, hj⟩
    obtain ⟨y, t', more, hr⟩ := goesOn hr appends
    rw [List.append_assoc bs] at hr
    exact ⟨_, y, _, s', t', w, _, _, _, Run.exec_bind_error hq _, hr, Run.exec_bind_error hp _,
      Run.exec_bind_error ho _, .first abreast ha, by simp⟩
  | @second f _ as bs later a b abreast ha hb =>
    have appends : ∀ a s, ∃ x s' later, (i a).exec s = (x, ⟨s', s.calls ++ later⟩) := by
      intro a s
      obtain ⟨x, _, _, s', _, _, later, _, _, hi, -⟩ :=
        hk a default s ⟨t.inner, []⟩ ⟨(s.inner, t.inner), []⟩ rfl
      exact ⟨x, s', later, hi⟩
    obtain ⟨x, s', more, hq⟩ := goesOn hq appends
    rw [List.append_assoc as, List.cons_append] at hq
    exact ⟨x, _, _, s', t', w, _, _, _, hq, Run.exec_bind_error hr _, Run.exec_bind_error hp _,
      Run.exec_bind_error ho _, .second abreast ha hb, by simp⟩

end Lockstep

/-! ## Methods of a product -/

namespace Interp

section

variable {X Y : Interp ρ}

/-! An operation on pairs is done by the first component and then by the second. -/

theorem product_litOf (tier : Tier) (n : Int) :
    (product tier X Y).litOf n = Run.inTurn (X.litOf n) (Y.litOf n) := by
  rw [litOf, lit_eq rfl, pure_bind]
  simp only [Run.inTurn, litOf, bind_assoc]

theorem product_neg (tier : Tier) (a b : Value) :
    ((product tier X Y).neg >>= fun neg => neg (.pair a b)) =
      Run.inTurn (X.neg >>= fun neg => neg a) (Y.neg >>= fun neg => neg b) := by
  rw [neg_eq rfl, pure_bind]
  simp only [Run.inTurn, bind_assoc]
  rfl

theorem product_add (tier : Tier) (a b c d : Value) :
    ((product tier X Y).add >>= fun add => add (.pair a b) (.pair c d)) =
      Run.inTurn (X.add >>= fun add => add a c) (Y.add >>= fun add => add b d) := by
  rw [add_eq rfl, pure_bind]
  simp only [Run.inTurn, bind_assoc]
  rfl

theorem product_mul (a b c d : Value) :
    ((product .extended X Y).mul >>= fun mul => mul (.pair a b) (.pair c d)) =
      Run.inTurn (X.mul >>= fun mul => mul a c) (Y.mul >>= fun mul => mul b d) := by
  rw [mul_eq rfl, pure_bind]
  simp only [Run.inTurn, bind_assoc]
  rfl

theorem bestProduct_eq (h : X.hasMul = true ∧ Y.hasMul = true) :
    bestProduct X Y = product .extended X Y := by
  rw [bestProduct, h.1, h.2]
  rfl

theorem bestProduct_litOf {f g : Value → Run ρ Value} (hX : X.lit? = some f)
    (hY : Y.lit? = some g) (n : Int) :
    (bestProduct X Y).litOf n = Run.inTurn (f (.int n)) (g (.int n)) := by
  rw [bestProduct, product_litOf, litOf, lit_eq hX, litOf, lit_eq hY, pure_bind, pure_bind]

theorem bestProduct_neg {f g : Value → Run ρ Value} (hX : X.neg? = some f)
    (hY : Y.neg? = some g) (a b : Value) :
    ((bestProduct X Y).neg >>= fun neg => neg (.pair a b)) = Run.inTurn (f a) (g b) := by
  rw [bestProduct, product_neg, neg_eq hX, neg_eq hY, pure_bind, pure_bind]

theorem bestProduct_add {f g : Value → Value → Run ρ Value} (hX : X.add? = some f)
    (hY : Y.add? = some g) (a b c d : Value) :
    ((bestProduct X Y).add >>= fun add => add (.pair a b) (.pair c d)) =
      Run.inTurn (f a c) (g b d) := by
  rw [bestProduct, product_add, add_eq hX, add_eq hY, pure_bind, pure_bind]

theorem bestProduct_mul {f g : Value → Value → Run ρ Value} (hX : X.mul? = some f)
    (hY : Y.mul? = some g) (h : X.hasMul = true ∧ Y.hasMul = true) (a b c d : Value) :
    (do
      (bestProduct X Y).requireMul
      (← (bestProduct X Y).mul) (.pair a b) (.pair c d)) = Run.inTurn (f a c) (g b d) := by
  rw [bestProduct_eq h, requireMul_eq rfl, pure_bind, product_mul, mul_eq hX, mul_eq hY, pure_bind,
    pure_bind]

theorem hasMul_product {tier : Tier} : (product tier X Y).hasMul = true ↔ tier = .extended := by
  cases tier <;> simp [product, hasMul, hasBase, Tier.ifExtended]

theorem hasMul_bestProduct :
    (bestProduct X Y).hasMul = true ↔ X.hasMul = true ∧ Y.hasMul = true := by
  rw [bestProduct, hasMul_product]
  cases X.hasMul <;> cases Y.hasMul <;> decide

end

theorem both_calling {A : Interp σ} {B : Interp τ}
    (first : Tag → List Value → Run σ Value → Run ρ Value)
    (second : Tag → List Value → Run τ Value → Run ρ Value)
    (h : A.hasMul = true ∧ B.hasMul = true) :
    (A.calling first).hasMul = true ∧ (B.calling second).hasMul = true := by
  rwa [hasMul_calling, hasMul_calling]

end Interp

/-! ## Steps of a product -/

section

variable {A : Interp σ} {B : Interp τ}

theorem lockstep_lit (hA : A.hasBase = true) (hB : B.hasBase = true) (n : Int) :
    Lockstep (A.watched.litOf n) (B.watched.litOf n) ((A.jointHeard B).litOf n)
      ((A.joint B).litOf n) := by
  obtain ⟨f, -, -, hf, -⟩ := Interp.methods_of_hasBase hA
  obtain ⟨g, -, -, hg, -⟩ := Interp.methods_of_hasBase hB
  rw [Interp.jointHeard, Interp.joint, Interp.watched, Interp.watched,
    Interp.bestProduct_litOf (Interp.calling_lit _ hf) (Interp.calling_lit _ hg),
    Interp.bestProduct_litOf (Interp.calling_lit _ hf) (Interp.calling_lit _ hg),
    Interp.litOf, Interp.lit_eq (Interp.calling_lit _ hf), pure_bind,
    Interp.litOf, Interp.lit_eq (Interp.calling_lit _ hg), pure_bind]
  exact .call .lit _ _ _ _

theorem lockstep_neg (hA : A.hasBase = true) (hB : B.hasBase = true) (a b : Value) :
    Lockstep (A.watched.neg >>= fun neg => neg a) (B.watched.neg >>= fun neg => neg b)
      ((A.jointHeard B).neg >>= fun neg => neg (.pair a b))
      ((A.joint B).neg >>= fun neg => neg (.pair a b)) := by
  obtain ⟨-, f, -, -, hf, -⟩ := Interp.methods_of_hasBase hA
  obtain ⟨-, g, -, -, hg, -⟩ := Interp.methods_of_hasBase hB
  rw [Interp.jointHeard, Interp.joint, Interp.watched, Interp.watched,
    Interp.bestProduct_neg (Interp.calling_neg _ hf) (Interp.calling_neg _ hg),
    Interp.bestProduct_neg (Interp.calling_neg _ hf) (Interp.calling_neg _ hg),
    Interp.neg_eq (Interp.calling_neg _ hf), pure_bind,
    Interp.neg_eq (Interp.calling_neg _ hg), pure_bind]
  exact .call .neg _ _ _ _

theorem lockstep_add (hA : A.hasBase = true) (hB : B.hasBase = true) (a b c d : Value) :
    Lockstep (A.watched.add >>= fun add => add a c) (B.watched.add >>= fun add => add b d)
      ((A.jointHeard B).add >>= fun add => add (.pair a b) (.pair c d))
      ((A.joint B).add >>= fun add => add (.pair a b) (.pair c d)) := by
  obtain ⟨-, -, f, -, -, hf⟩ := Interp.methods_of_hasBase hA
  obtain ⟨-, -, g, -, -, hg⟩ := Interp.methods_of_hasBase hB
  rw [Interp.jointHeard, Interp.joint, Interp.watched, Interp.watched,
    Interp.bestProduct_add (Interp.calling_add _ hf) (Interp.calling_add _ hg),
    Interp.bestProduct_add (Interp.calling_add _ hf) (Interp.calling_add _ hg),
    Interp.add_eq (Interp.calling_add _ hf), pure_bind,
    Interp.add_eq (Interp.calling_add _ hg), pure_bind]
  exact .call .add _ _ _ _

theorem lockstep_mul (h : A.hasMul = true ∧ B.hasMul = true) (a b c d : Value) :
    Lockstep
      (do
        A.watched.requireMul
        (← A.watched.mul) a c)
      (do
        B.watched.requireMul
        (← B.watched.mul) b d)
      (do
        (A.jointHeard B).requireMul
        (← (A.jointHeard B).mul) (.pair a b) (.pair c d))
      (do
        (A.joint B).requireMul
        (← (A.joint B).mul) (.pair a b) (.pair c d)) := by
  obtain ⟨-, f, hf⟩ := Interp.methods_of_hasMul h.1
  obtain ⟨-, g, hg⟩ := Interp.methods_of_hasMul h.2
  rw [Interp.jointHeard, Interp.joint,
    Interp.bestProduct_mul (Interp.calling_mul _ hf) (Interp.calling_mul _ hg)
      (Interp.both_calling _ _ h),
    Interp.bestProduct_mul (Interp.calling_mul _ hf) (Interp.calling_mul _ hg)
      (Interp.both_calling _ _ h),
    Interp.requireMul_eq (by rw [Interp.hasMul_watched, h.1]), pure_bind,
    Interp.requireMul_eq (by rw [Interp.hasMul_watched, h.2]), pure_bind,
    Interp.watched, Interp.mul_eq (Interp.calling_mul _ hf), pure_bind,
    Interp.watched, Interp.mul_eq (Interp.calling_mul _ hg), pure_bind]
  exact .call .mul _ _ _ _

/-- The replay of an expression under a product goes in step with its replays under the
components. -/
theorem lockstep_replay (hA : A.hasBase = true) (hB : B.hasBase = true) :
    ∀ e : Exp Failure, (e.hasMul = true → A.hasMul = true ∧ B.hasMul = true) →
      Lockstep (e.replay A.watched) (e.replay B.watched) (e.replay (A.jointHeard B))
        (e.replay (A.joint B)) := by
  intro e
  induction e with
  | lit n => exact fun _ => lockstep_lit hA hB n
  | neg e ih =>
    intro hm
    apply Lockstep.bind (ih hm)
    exact lockstep_neg hA hB
  | add l r ihl ihr =>
    intro hm
    simp only [Exp.hasMul, Bool.or_eq_true] at hm
    apply Lockstep.bind (ihl fun h => hm (.inl h))
    intro a b
    apply Lockstep.bind (ihr fun h => hm (.inr h))
    exact lockstep_add hA hB a b
  | mul l r ihl ihr =>
    intro hm
    have both := hm rfl
    apply Lockstep.bind (ihl fun _ => both)
    intro a b
    apply Lockstep.bind (ihr fun _ => both)
    exact lockstep_mul both a b
  | stray e => exact fun _ => .throw e

theorem lockstep_run (hA : A.hasBase = true) (hB : B.hasBase = true) (e : Exp)
    (hm : e.hasMul = true → A.hasMul = true ∧ B.hasMul = true) :
    Lockstep (e.run A.watched) (e.run B.watched) (e.run (A.jointHeard B)) (e.run (A.joint B)) := by
  -- on each of the four interpretations the expression is run as it is replayed
  have heard := Exp.replay_widen (I := A.jointHeard B) rfl e
    fun h => Interp.hasMul_bestProduct.mpr (Interp.both_calling _ _ (hm h))
  have plain := Exp.replay_widen (I := A.joint B) rfl e
    fun h => Interp.hasMul_bestProduct.mpr (Interp.both_calling _ _ (hm h))
  rw [← Exp.replay_watched hA e fun h => (hm h).1, ← Exp.replay_watched hB e fun h => (hm h).2,
    ← heard, ← plain]
  apply lockstep_replay hA hB
  rwa [Exp.hasMul_widen]

end

/-! ## Programs under a product -/

namespace Interp

/-- The calls that a program makes on the components of a product. -/
def heardOf (A : Interp σ) (B : Interp τ) (p : Program (Heard Side (σ × τ))) (s : σ) (t : τ) :
    List (Side × Call) :=
  ((p (A.jointHeard B)).exec ⟨(s, t), []⟩).2.calls

end Interp

/-- The call of a step failed. -/
def RaisedAt (calls : List Call) (step : Nat) (f : Failure) : Prop :=
  ∃ k, calls[step]? = some k ∧ k.outcome = .error f

/-- A program does under the product of `A` and `B` what it does under each of them alone. The
failures that are not those of a call are the program's own. -/
structure Faithful (A : Interp σ) (B : Interp τ) (p : ∀ ρ : Type, Program ρ) (Own : Failure → Prop)
    (s : σ) (t : τ) : Prop where
  -- The pair of what both return, if both do.
  returns : ∀ v, (A.joint B).outcome (p _) (s, t) = .ok v ↔
    ∃ a b, A.outcome (p _) s = .ok a ∧ B.outcome (p _) t = .ok b ∧ v = .pair a b
  -- Then the calls of both, in turn.
  calls : ∀ v, (A.joint B).outcome (p _) (s, t) = .ok v →
    (A.callsOf (p _) s).length = (B.callsOf (p _) t).length ∧
      A.heardOf B (p _) s t = alternating (A.callsOf (p _) s) (B.callsOf (p _) t)
  -- Step for step, both are called for the same operations, until they fail.
  common : ∃ steps, (A.callsOf (p _) s).map Call.step <+: steps ∧
    (B.callsOf (p _) t).map Call.step <+: steps
  -- The failure of the first component, unless the second fails at an earlier step.
  first : ∀ i f, RaisedAt (A.callsOf (p _) s) i f →
    (∀ j < i, ∀ g, ¬ RaisedAt (B.callsOf (p _) t) j g) →
      (A.joint B).outcome (p _) (s, t) = .error f
  -- The failure of the second component, unless the first fails at that step or an earlier one.
  second : ∀ i f, RaisedAt (B.callsOf (p _) t) i f →
    (∀ j ≤ i, ∀ g, ¬ RaisedAt (A.callsOf (p _) s) j g) →
      (A.joint B).outcome (p _) (s, t) = .error f
  -- The program's own failure, which it has under each component, if no call fails.
  neither : (∀ i f, ¬ RaisedAt (A.callsOf (p _) s) i f) →
    (∀ i f, ¬ RaisedAt (B.callsOf (p _) t) i f) →
      ∀ f, A.outcome (p _) s = .error f ∨ B.outcome (p _) t = .error f →
        (A.joint B).outcome (p _) (s, t) = .error f ∧ Own f

section

variable {calls more : List Call} {k : Call} {i : Nat} {f g : Failure}

theorem not_raisedAt (h : ∀ k ∈ calls, k.Returned) : ¬ RaisedAt calls i f := by
  intro raised
  obtain ⟨k, hk, hf⟩ := raised
  obtain ⟨v, hv⟩ := h k (List.mem_of_getElem? hk)
  rw [hf] at hv
  cases hv

/-- After calls that all returned, only a later one can have failed. -/
theorem RaisedAt.later (hr : RaisedAt (calls ++ more) i f) (h : ∀ k ∈ calls, k.Returned) :
    calls.length ≤ i ∧ RaisedAt more (i - calls.length) f := by
  obtain ⟨k, hk, hf⟩ := hr
  by_cases hi : i < calls.length
  · rw [List.getElem?_append_left hi] at hk
    exact absurd ⟨k, hk, hf⟩ (not_raisedAt h)
  · rw [List.getElem?_append_right (Nat.not_lt.mp hi)] at hk
    exact ⟨Nat.not_lt.mp hi, k, hk, hf⟩

theorem RaisedAt.last (hr : RaisedAt (calls ++ [k]) i g) (h : ∀ k ∈ calls, k.Returned)
    (hf : k.outcome = .error f) : g = f := by
  obtain ⟨-, l, hl, hg⟩ := hr.later h
  obtain rfl := List.mem_singleton.mp (List.mem_of_getElem? hl)
  exact Except.error.inj (hg.symm.trans hf)

theorem raisedAt_length (hf : k.outcome = .error f) :
    RaisedAt (calls ++ k :: more) calls.length f :=
  ⟨k, by simp, hf⟩

end

namespace Joined

variable {x y z : Except Failure Value} {as bs : List Call} {cs : List (Side × Call)}
  {i : Nat} {f : Failure}

theorem returns (h : Joined x as y bs z cs) (v : Value) :
    z = .ok v ↔ ∃ a b, x = .ok a ∧ y = .ok b ∧ v = .pair a b := by
  cases h with
  | @returned a b as bs abreast =>
    constructor
    · intro h
      exact ⟨a, b, rfl, rfl, (Except.ok.inj h).symm⟩
    · intro h
      obtain ⟨a, b, ha, hb, rfl⟩ := h
      rw [← Except.ok.inj ha, ← Except.ok.inj hb]
  | _ => simp

theorem calls (h : Joined x as y bs z cs) {v : Value} (hz : z = .ok v) :
    as.length = bs.length ∧ cs = alternating as bs := by
  cases h with
  | returned abreast => exact ⟨abreast.length, rfl⟩
  | _ => cases hz

/-- The first component's failure counts unless the second failed at an earlier step. -/
theorem ofFirst (h : Joined x as y bs z cs) (hr : RaisedAt as i f)
    (before : ∀ j < i, ∀ g, ¬ RaisedAt bs j g) : z = .error f := by
  cases h with
  | returned abreast => exact absurd hr (not_raisedAt abreast.first)
  | stopped abreast => exact absurd hr (not_raisedAt abreast.first)
  | first abreast ha => rw [hr.last abreast.first ha]
  | @second _ _ as bs later a b abreast ha hb =>
    have returned : ∀ k ∈ as ++ [a], k.Returned :=
      List.forall_mem_append.mpr ⟨abreast.first, by simpa using ha⟩
    rw [← List.singleton_append, ← List.append_assoc] at hr
    have late := (hr.later returned).1
    rw [List.length_append, List.length_singleton, abreast.length] at late
    exact absurd (raisedAt_length hb) (before _ late _)

/-- The second component's failure counts if the first failed at no step up to there. -/
theorem ofSecond (h : Joined x as y bs z cs) (hr : RaisedAt bs i f)
    (before : ∀ j ≤ i, ∀ g, ¬ RaisedAt as j g) : z = .error f := by
  cases h with
  | returned abreast => exact absurd hr (not_raisedAt abreast.second)
  | stopped abreast => exact absurd hr (not_raisedAt abreast.second)
  | first abreast ha =>
    have late := (hr.later abreast.second).1
    rw [← abreast.length] at late
    exact absurd (raisedAt_length ha) (before _ late _)
  | second abreast ha hb => rw [hr.last abreast.second hb]

theorem ofNeither (h : Joined x as y bs z cs) (ha : ∀ i g, ¬ RaisedAt as i g)
    (hb : ∀ i g, ¬ RaisedAt bs i g) (hf : x = .error f ∨ y = .error f) :
    x = .error f ∧ z = .error f := by
  cases h with
  | returned _ => rcases hf with hf | hf <;> cases hf
  | stopped _ => exact ⟨hf.elim id id, hf.elim id id⟩
  | first _ hk => exact absurd (raisedAt_length hk) (ha _ _)
  | second _ _ hk => exact absurd (raisedAt_length hk) (hb _ _)

end Joined

namespace Script.Followed

variable {c : Script} {calls : List Call}

/-- The calls that follow a script take its first steps. -/
theorem steps_prefix {x : Except Failure Value} (h : c.Followed x calls) :
    calls.map Call.step <+: c.steps := by
  cases h with
  | finished _ hm _ => exact hm ▸ List.prefix_rfl
  | stopped _ hm _ => exact hm ▸ List.prefix_rfl
  | raised _ hp _ => exact hp

theorem ending_eq {f : Failure} (h : c.Followed (.error f : Except Failure Value) calls)
    (hr : ∀ i g, ¬ RaisedAt calls i g) : c.ending = some f := by
  cases h with
  | stopped hn _ _ => exact hn
  | raised hl _ _ => exact absurd (raisedAt_length hl) (hr _ _)

end Script.Followed

theorem Faithful.of_lockstep {A : Interp σ} {B : Interp τ} {p : ∀ ρ : Type, Program ρ}
    {Own : Failure → Prop} {c : Script} (hA : Shows A (p _ A.watched) (p _ A) c)
    (hB : Shows B (p _ B.watched) (p _ B) c)
    (h : Lockstep (p _ A.watched) (p _ B.watched) (p _ (A.jointHeard B)) (p _ (A.joint B)))
    (own : ∀ f, c.ending = some f → Own f) (s : σ) (t : τ) : Faithful A B p Own s t := by
  obtain ⟨as, hs, followsA, -⟩ := hA ⟨s, []⟩
  obtain ⟨bs, ht, followsB, -⟩ := hB ⟨t, []⟩
  obtain ⟨x, y, z, s', t', w, as', bs', cs, hq, hr, hp, ho, joined, -⟩ :=
    h ⟨s, []⟩ ⟨t, []⟩ ⟨(s, t), []⟩ rfl
  rw [List.nil_append] at hs ht hq hr hp
  obtain ⟨hx, hs⟩ := Prod.mk.inj (hs.symm.trans hq)
  obtain ⟨hy, ht⟩ := Prod.mk.inj (ht.symm.trans hr)
  obtain ⟨-, rfl⟩ := Kept.mk.inj hs
  obtain ⟨-, rfl⟩ := Kept.mk.inj ht
  rw [hx] at followsA
  rw [hy] at followsB
  -- the outcomes and calls of the statement are those of the three runs
  have outA : A.outcome (p _) s = x := hx
  have outB : B.outcome (p _) t = y := hy
  have out : (A.joint B).outcome (p _) (s, t) = z := congrArg Prod.fst ho
  have callsA : A.callsOf (p _) s = as := by rw [Interp.callsOf, hq]
  have callsB : B.callsOf (p _) t = bs := by rw [Interp.callsOf, hr]
  have heard : A.heardOf B (p _) s t = cs := by rw [Interp.heardOf, hp]
  constructor <;> simp only [outA, outB, out, callsA, callsB, heard]
  · exact joined.returns
  · exact fun _ => joined.calls
  · exact ⟨c.steps, followsA.steps_prefix, followsB.steps_prefix⟩
  · exact fun _ _ => joined.ofFirst
  · exact fun _ _ => joined.ofSecond
  · intro noneA noneB f hf
    obtain ⟨rfl, failed⟩ := joined.ofNeither noneA noneB hf
    exact ⟨failed, own f (followsA.ending_eq noneA)⟩

/-- Running an expression and decoding a tree are faithful to the components of a product. An
expression has no failures of its own, and those of a decoder are decoding faults. -/
theorem product_faithful {A : Interp σ} {B : Interp τ} (hA : A.hasBase = true)
    (hB : B.hasBase = true) :
    (∀ e : Exp, (e.hasMul = true → A.hasMul = true ∧ B.hasMul = true) →
      ∀ s t, Faithful A B (fun _ => e.program) (fun _ => False) s t) ∧
    ∀ (tier : Tier) (maxDepth : Nat) (tree : Value), 1 ≤ maxDepth →
      (tier = .extended → tree.HasMul → A.hasMul = true ∧ B.hasMul = true) →
      ∀ s t, Faithful A B (fun _ => tier.decoding maxDepth tree)
        (fun f => tree.LeavesShown → f.isDecoding = true) s t := by
  constructor
  · intro e hm s t
    apply Faithful.of_lockstep (Exp.shows_run hA e fun h => (hm h).1)
      (Exp.shows_run hB e fun h => (hm h).2)
    · exact lockstep_run hA hB e hm
    · intro f hf
      rw [Exp.ending_widen] at hf
      cases hf
  · intro tier maxDepth tree h hm s t
    apply Faithful.of_lockstep
      (Tier.shows_decoding tier h hA fun ht hx => (hm ht hx).1)
      (Tier.shows_decoding tier h hB fun ht hx => (hm ht hx).2)
    · simp only [Tier.decoding_eq_replay tier h]
      apply lockstep_replay hA hB
      intro hx
      obtain ⟨ht, hx⟩ := Value.hasMul_of_reading hx
      exact hm ht hx
    · intro f hf shown
      obtain ⟨p, v, c, d, -, -, -, rfl⟩ := Value.reported_of_ending shown hf
      rfl

theorem product_of_evaluator_and_builder :
    let A : Interp Unit := .evaluator .base (.signed 8 (by decide))
    let B : Interp Unit := .treeBuilder .base
    let e : Exp := .neg (.lit 7)
    let t := (Tree.node "Neg" [.node "Lit" [.leaf "-128"]]).toValue
    (∃ b, B.outcome e.program () = .ok b ∧
      (A.joint B).outcome e.program ((), ()) = .ok (.pair (.int (-7)) b)) ∧
    (A.joint B).outcome (Tier.base.decoding 2 t) ((), ()) =
      .error (Interp.overflow "IntEval[8]" "neg" [-128] 8) := by
  intro A B e t
  have faithful := product_faithful (A := A) (B := B) rfl rfl
  constructor
  · have expression := faithful.1 e (fun h => by cases h) () ()
    exact ⟨_, rfl, (expression.returns _).mpr ⟨_, _, rfl, rfl, rfl⟩⟩
  · have tree := faithful.2 .base 2 t (by decide) (fun h => by cases h) () ()
    -- the evaluator fails at the second step, where the builder has returned from the first
    apply tree.first 1 _ ⟨_, rfl, rfl⟩
    intro j hj g raised
    obtain rfl : j = 0 := by omega
    obtain ⟨k, hk, hf⟩ := raised
    have returned : (B.callsOf (Tier.base.decoding 2 t) ())[0]? =
        some ⟨.lit, [.int (-128)], .ok (Interp.tagged .lit [.leaf (.text "-128")])⟩ := rfl
    obtain rfl := Option.some.inj (returned.symm.trans hk)
    cases hf

end Symantics
