import Symantics.Proofs.Logs
import Symantics.Proofs.RoundTrip

/-
  Products on an interpretation without multiplication.

  Running an expression refuses a product before its operands run, decoding the tree of
  the expression after them. On an interpretation whose calls all return, both come to
  the same: they return the same if there is no product, and are refused in the same
  words if there is one (`agrees_run`). When a product is refused, running has made
  some of the calls that decoding makes, from the first on. With several products, or
  one inside another, the two stop at different ones; `Agrees` says what they have in
  common, and the induction that gives it needs only that decoding never unmakes a
  call (`Run.Adds`). All calls are ones that the interpretation answers
  (`answered_replay`), so none of them is a multiplication.
-/
namespace Symantics

variable {σ τ α β κ : Type}

/-! ## Calls that are answered -/

namespace Interp

/-- Every call that a run makes on a watched interpretation is one that the interpretation
answers. -/
def Answered (I : Interp σ) (r : Run (Watched σ) α) : Prop :=
  ∀ s, ∃ calls, (r.exec s).2.calls = s.calls ++ calls ∧ ∀ k ∈ calls, I.Answers k

namespace Answered

variable {I : Interp σ}

theorem throw (f : Failure) : I.Answered (MonadExcept.throw f : Run (Watched σ) α) :=
  fun _ => ⟨[], (List.append_nil _).symm, List.forall_mem_nil _⟩

theorem bind {r : Run (Watched σ) α} {k : α → Run (Watched σ) β} (hr : I.Answered r)
    (hk : ∀ a, I.Answered (k a)) : I.Answered (r >>= k) := by
  intro s
  obtain ⟨calls, first, answered⟩ := hr s
  rw [Run.exec_bind]
  rcases hx : r.exec s with ⟨f | a, t⟩ <;> rw [hx] at first
  · exact ⟨calls, first, answered⟩
  · obtain ⟨later, next, answered'⟩ := hk a t
    refine ⟨calls ++ later, ?_, List.forall_mem_append.mpr ⟨answered, answered'⟩⟩
    rw [← List.append_assoc, ← first]
    exact next

theorem watch {operation : Tag} {arguments : List Value} {q : Run σ Value}
    (h : ∀ s, I.Answers ⟨operation, arguments, (q.exec s).1⟩) :
    I.Answered (Interp.watch operation arguments q) :=
  fun s => ⟨[_], rfl, List.forall_mem_singleton.mpr (h s.inner)⟩

/-- A method that is watched is looked up, and called if it is there. -/
theorem method {M N : Type} {name : String} {m : Option M} {watched : M → N}
    {k : N → Run (Watched σ) Value} (hk : ∀ f, m = some f → I.Answered (k (watched f))) :
    I.Answered (I.watched.method name (m.map watched) >>= k) := by
  cases m with
  | none => exact .throw _
  | some f => exact hk f rfl

theorem adds {r : Run (Watched σ) α} (h : I.Answered r) : r.Adds Kept.calls := by
  intro s
  obtain ⟨calls, added, -⟩ := h s
  rw [added]
  exact List.prefix_append _ _

end Answered

theorem neverRaises_watched {I : Interp σ} (never : I.NeverRaises) : I.watched.NeverRaises := by
  intro k hk
  cases hk with
  | lit h v s =>
    obtain ⟨f, hf, rfl⟩ := Option.map_eq_some_iff.mp h
    exact never _ (.lit hf v s.inner)
  | neg h v s =>
    obtain ⟨f, hf, rfl⟩ := Option.map_eq_some_iff.mp h
    exact never _ (.neg hf v s.inner)
  | add h v w s =>
    obtain ⟨f, hf, rfl⟩ := Option.map_eq_some_iff.mp h
    exact never _ (.add hf v w s.inner)
  | mul h v w s =>
    obtain ⟨f, hf, rfl⟩ := Option.map_eq_some_iff.mp h
    exact never _ (.mul hf v w s.inner)

end Interp

theorem Exp.answered_replay (I : Interp σ) (x : Exp Failure) :
    I.Answered (replay I.watched x) := by
  induction x with
  | lit n => exact .method fun f hf => .watch (.lit hf _)
  | neg x ih =>
    apply Interp.Answered.bind ih
    intro v
    exact .method fun f hf => .watch (.neg hf v)
  | add x y ihx ihy =>
    apply Interp.Answered.bind ihx
    intro v
    apply Interp.Answered.bind ihy
    intro w
    exact .method fun f hf => .watch (.add hf v w)
  | mul x y ihx ihy =>
    apply Interp.Answered.bind ihx
    intro v
    apply Interp.Answered.bind ihy
    intro w
    unfold Interp.requireMul
    split
    · exact .method fun f hf => .watch (.mul hf v w)
    · exact .throw _
  | stray f => exact .throw f

/-! ## Runs that agree but for what is refused -/

/-- Two runs end alike: both return the same in the same state, or both are refused, as the index
says. Then they fail with `f`, and the log of the first is the beginning of that of the second. -/
inductive Ends (log : τ → List κ) (f : Failure) :
    Bool → Except Failure α × τ → Except Failure α × τ → Prop where
  | returned (a : α) (s : τ) : Ends log f false (.ok a, s) (.ok a, s)
  | refused {s t : τ} (h : log s <+: log t) : Ends log f true (.error f, s) (.error f, t)

namespace Ends

variable {log : τ → List κ} {f : Failure} {b : Bool} {x y : Except Failure α × τ}

theorem outcomes (h : Ends log f b x y) :
    (x.1 = .error f ↔ b = true) ∧ (y.1 = .error f ↔ b = true) ∧
      (b = false → ∃ a, x.1 = .ok a ∧ y.1 = .ok a) := by
  cases h with
  | returned a s => simp
  | refused h => simp

theorem logs (h : Ends log f b x y) : log x.2 <+: log y.2 := by
  cases h with
  | returned a s => exact List.prefix_rfl
  | refused h => exact h

end Ends

/-- From every state, two runs end alike; `refused` says whether they fail. -/
def Agrees (log : τ → List κ) (f : Failure) (refused : Bool) (r q : Run τ α) : Prop :=
  ∀ s, Ends log f refused (r.exec s) (q.exec s)

namespace Agrees

variable {log : τ → List κ} {f : Failure} {b c : Bool}

theorem bind {r q : Run τ α} {k l : α → Run τ β} (hr : Agrees log f b r q)
    (hk : ∀ a, Agrees log f c (k a) (l a)) : Agrees log f (b || c) (r >>= k) (q >>= l) := by
  intro s
  have first := hr s
  rw [Run.exec_bind, Run.exec_bind]
  generalize r.exec s = x at first ⊢
  generalize q.exec s = y at first ⊢
  cases first with
  | returned a t =>
    rw [Bool.false_or]
    exact hk a t
  | refused h => exact .refused h

theorem throw : Agrees log f true (MonadExcept.throw f : Run τ α) (MonadExcept.throw f) :=
  fun _ => .refused List.prefix_rfl

/-- A call that cannot fail. -/
theorem call {r : Run τ α} (h : ∀ s, ∃ a, (r.exec s).1 = .ok a) : Agrees log f false r r := by
  intro s
  obtain ⟨a, ha⟩ := h s
  rcases hx : r.exec s with ⟨x, t⟩
  rw [hx] at ha
  obtain rfl : x = .ok a := ha
  exact .returned a t

/-- What is refused at once agrees with what is refused in the end. -/
theorem early {r q : Run τ α} (h : Agrees log f true r q) (adds : q.Adds log) :
    Agrees log f true (MonadExcept.throw f) q := by
  intro s
  have ends := h s
  have added := adds s
  generalize r.exec s = x at ends
  generalize q.exec s = y at ends added ⊢
  cases ends with
  | refused => exact .refused added

end Agrees

namespace Exp

/-- Running an expression and replaying it operands first end alike on an interpretation without
multiplication whose calls all return. They are refused exactly if the expression has a product. -/
theorem agrees_run {J : Interp τ} {log : τ → List κ} (hJ : J.hasBase = true)
    (hx : J.mul? = none) (never : J.NeverRaises)
    (adds : ∀ x : Exp Failure, (replay J x).Adds log) (e : Exp) :
    Agrees log (.misuse (.noMul J.name)) e.hasMul (e.run J) (replay J e.widen) := by
  obtain ⟨lit, neg, add, hl, hn, ha⟩ := Interp.methods_of_hasBase hJ
  have refuses : J.requireMul = throw (.misuse (.noMul J.name)) := by
    have missing : J.hasMul = false := by simp [Interp.hasMul, hx]
    rw [Interp.requireMul, missing]
    rfl
  induction e with
  | lit n =>
    rw [widen, replay, run, Interp.litOf, Interp.lit_eq hl, pure_bind]
    exact .call fun s => never _ (.lit hl _ s)
  | neg e ih =>
    simp only [widen, replay, run, Interp.negOf, Interp.neg_eq hn, pure_bind]
    rw [hasMul, ← Bool.or_false e.hasMul]
    apply ih.bind
    intro v
    exact .call fun s => never _ (.neg hn v s)
  | add l r ihl ihr =>
    simp only [widen, replay, run, Interp.add_eq ha, pure_bind]
    rw [hasMul, ← Bool.or_false r.hasMul]
    apply ihl.bind
    intro v
    apply ihr.bind
    intro w
    exact .call fun s => never _ (.add ha v w s)
  | mul l r ihl ihr =>
    -- the operands may be refused; if they are not, the product is
    have late : Agrees log (.misuse (.noMul J.name)) (l.hasMul || (r.hasMul || true))
        (do let _ ← l.run J; let _ ← r.run J; throw (.misuse (.noMul J.name)))
        (replay J (widen (mul l r))) := by
      simp only [widen, replay, refuses]
      apply ihl.bind
      intro v
      apply ihr.bind
      intro w
      exact .throw
    rw [Bool.or_true, Bool.or_true] at late
    have atOnce : (mul l r).run J = throw (.misuse (.noMul J.name)) := by
      rw [run, refuses]
      rfl
    rw [atOnce]
    exact late.early (adds _)
  | stray v => exact v.elim

section

variable {I : Interp σ} (hI : I.hasBase = true) (hx : I.mul? = none) (never : I.NeverRaises)

include hI hx never

theorem outcomes_run (e : Exp) (s : σ) :
    (I.outcome e.program s = .error (.misuse (.noMul I.name)) ↔ e.hasMul = true) ∧
    (I.outcome (replay · e.widen) s = .error (.misuse (.noMul I.name)) ↔ e.hasMul = true) ∧
    (e.hasMul = false →
      ∃ v, I.outcome e.program s = .ok v ∧ I.outcome (replay · e.widen) s = .ok v) := by
  -- no log is needed to compare what comes of the two
  have agree : Agrees (fun _ : σ => ([] : List Call)) (.misuse (.noMul I.name)) e.hasMul (e.run I)
      (replay I e.widen) :=
    agrees_run hI hx never (fun _ _ => List.prefix_rfl) e
  exact (agree s).outcomes

theorem calls_run (e : Exp) (s : σ) :
    I.callsOf e.program s <+: I.callsOf (replay · e.widen) s := by
  rw [← Interp.hasBase_watched] at hI
  have missing : I.watched.mul? = none := by simp [Interp.watched, Interp.calling, hx]
  have agree : Agrees Kept.calls (.misuse (.noMul I.name)) e.hasMul (e.run I.watched)
      (replay I.watched e.widen) :=
    agrees_run hI missing (Interp.neverRaises_watched never)
      (fun x => (answered_replay I x).adds) e
  exact (agree ⟨s, []⟩).logs

end

/-- A method that is missing is never called. -/
theorem unmultiplied {I : Interp σ} (hx : I.mul? = none) (x : Exp Failure) (s : σ) :
    ∀ k ∈ I.callsOf (replay · x) s, k.operation ≠ .mul := by
  obtain ⟨calls, added, answered⟩ := answered_replay I x ⟨s, []⟩
  intro k hk
  rw [Interp.callsOf, added, List.nil_append] at hk
  cases answered k hk with
  | mul h =>
    rw [hx] at h
    cases h
  | _ => simp

end Exp

/-- An expression and its tree on an interpretation without multiplication whose calls all return:
running the one and decoding the other fail exactly if there is a product, and in the same words;
otherwise they return the same. Neither calls a multiplication, and the calls that running makes are
the first of those that decoding makes. -/
theorem refusals_agree {e : Exp} (hf : e.fits = true) {I : Interp σ} (hI : I.hasBase = true)
    (hx : I.mul? = none) (never : I.NeverRaises) {maxDepth : Nat} (h : e.height ≤ maxDepth) :
    ∃ t : Value, (∀ {ρ : Type}, e.run (.treeBuilder .extended : Interp ρ) = pure t) ∧
      ∀ s : σ,
        (I.outcome e.program s = .error (.misuse (.noMul I.name)) ↔ e.hasMul = true) ∧
        (I.outcome (Tier.extended.decoding maxDepth t) s = .error (.misuse (.noMul I.name)) ↔
          e.hasMul = true) ∧
        (e.hasMul = false → ∃ v, I.outcome e.program s = .ok v ∧
          I.outcome (Tier.extended.decoding maxDepth t) s = .ok v) ∧
        I.callsOf e.program s <+: I.callsOf (Tier.extended.decoding maxDepth t) s ∧
        (∀ k ∈ I.callsOf e.program s, k.operation ≠ .mul) ∧
        ∀ k ∈ I.callsOf (Tier.extended.decoding maxDepth t) s, k.operation ≠ .mul := by
  have positive : 1 ≤ maxDepth := Nat.le_trans e.height_pos h
  have denotes := Exp.denotes_tree hf (fun _ => rfl : e.hasMul = true → Tier.extended = .extended) h
  have decoding : ∀ {τ : Type},
      (Tier.extended.decoding maxDepth e.tree.toValue : Program τ) = (Exp.replay · e.widen) := by
    intro τ
    funext J
    rw [Tier.decoding_eq_replay _ positive, denotes.reading_eq]
  refine ⟨e.tree.toValue, Exp.run_treeBuilder hf fun _ => rfl, ?_⟩
  intro s
  rw [decoding, decoding]
  obtain ⟨run, decoded, same⟩ := Exp.outcomes_run hI hx never e s
  have first := Exp.calls_run hI hx never e s
  have none := Exp.unmultiplied hx e.widen s
  exact ⟨run, decoded, same, first, fun k hk => none k (first.subset hk), none⟩

theorem refusals_agree_of_products :
    let e : Exp := .add (.neg (.lit 7)) (.mul (.lit 3) (.mul (.lit 2) (.lit 5)))
    let I : Interp Unit := { Interp.constant .null with mul? := none }
    ∃ t : Value, e.run (.treeBuilder .extended : Interp Unit) = pure t ∧
      I.outcome e.program () = .error (.misuse (.noMul I.name)) ∧
      I.outcome (Tier.extended.decoding 4 t) () = .error (.misuse (.noMul I.name)) ∧
      I.callsOf e.program () <+: I.callsOf (Tier.extended.decoding 4 t) () := by
  intro e I
  have never : I.NeverRaises := by
    intro k hk
    cases hk with
    | lit h => cases h; exact ⟨.null, rfl⟩
    | neg h => cases h; exact ⟨.null, rfl⟩
    | add h => cases h; exact ⟨.null, rfl⟩
    | mul h => cases h
  have fits : e.fits = true := by decide
  have height : e.height ≤ 4 := by decide
  obtain ⟨t, build, alike⟩ := refusals_agree fits (I := I) rfl rfl never height
  obtain ⟨run, decoded, -, first, -⟩ := alike ()
  exact ⟨t, build, run.mpr rfl, decoded.mpr rfl, first⟩

end Symantics
