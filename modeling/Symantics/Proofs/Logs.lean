import Symantics.Interp.TreeBuilder
import Symantics.Proofs.Visits

/-
  What runs add to a log.

  A state may keep a log that runs only add to (`Run.Adds`), as the state of a watched
  interpretation keeps its calls. A decoder adds to a log if its rules do, and the rules
  of the language do. So what has been logged by the time that something is visited is
  the beginning of all that is logged; and what one decoder has logged in the end is the
  beginning of what a decoder that keeps it logs (`prefix_of_kept`).
-/
namespace Symantics

variable {σ : Type}

namespace Run

variable {α β κ : Type} {log : σ → List κ}

/-- Whatever the run does, it only adds to a log that the state keeps. -/
def Adds (log : σ → List κ) (r : Run σ α) : Prop := ∀ s, log s <+: log (r.exec s).2

namespace Adds

theorem pure (a : α) : (Pure.pure a : Run σ α).Adds log := fun _ => List.prefix_rfl

theorem throw (f : Failure) : (MonadExcept.throw f : Run σ α).Adds log := fun _ => List.prefix_rfl

/-- A run that goes on has logged what it had logged before. -/
theorem onward {k : α → Run σ β} (hk : ∀ a, (k a).Adds log) (r : Run σ α) (s : σ) :
    log (r.exec s).2 <+: log ((r >>= k).exec s).2 := by
  rcases h : r.exec s with ⟨f | a, s'⟩
  · simp only [exec_bind_error h, List.prefix_rfl]
  · rw [exec_bind_ok h]
    exact hk a s'

theorem bind {r : Run σ α} {k : α → Run σ β} (hr : r.Adds log) (hk : ∀ a, (k a).Adds log) :
    (r >>= k).Adds log :=
  fun s => (hr s).trans (onward hk r s)

end Adds

end Run

/-- What the rule does with an interpretation only adds to the log. The calls on a watched
interpretation are such a log for rules that act by calling its methods. -/
def Rule.Adds {κ : Type} (log : σ → List κ) (I : Interp σ) (rule : Rule σ) : Prop :=
  match rule.action with
  | .operator build => ∀ values, (build I values).Adds log
  | .raw build => ∀ children path, (build I children path).Adds log

namespace Interp

variable {τ : Type} (J : Interp τ)

theorem adds_keep {κ : Type} (entry : Call → κ) (operation : Tag) (arguments : List Value)
    (r : Run τ Value) : (keep entry operation arguments r).Adds Kept.calls := by
  intro s
  rw [exec_keep]
  exact List.prefix_append _ _

/-- A method that is watched is looked up and then called. -/
theorem adds_method {M N : Type} (name : String) (method : Option M) (watched : M → N)
    {k : N → Run (Watched τ) Value} (hk : ∀ f, (k (watched f)).Adds Kept.calls) :
    (J.watched.method name (method.map watched) >>= k).Adds Kept.calls := by
  cases method with
  | none => exact .throw _
  | some f => exact hk f

end Interp

theorem Rule.adds_miscounted {σ κ α : Type} {log : σ → List κ} (expected : Nat)
    (children : List Value) : (miscounted expected children : Run σ α).Adds log := by
  unfold miscounted
  split
  · exact .throw _
  · exact .throw _

/-- The rules of the language act on an interpretation by calling its methods. -/
theorem Rule.adds_ofTag {τ : Type} (J : Interp τ) (t : Tag) :
    (ofTag t).Adds Kept.calls J.watched := by
  cases t with
  | lit =>
    intro children path
    match children with
    | [v] =>
      apply Run.Adds.bind
      · rw [Decoder.literal_eq]
        cases v.numeral with
        | ok n => exact .pure n
        | error f => exact .throw _
      · intro n
        exact J.adds_method _ J.lit? _ fun f => Interp.adds_keep _ _ _ _
    | [] | _ :: _ :: _ => exact adds_miscounted _ _
  | neg =>
    intro values
    match values with
    | [v] => exact J.adds_method _ J.neg? _ fun f => Interp.adds_keep _ _ _ _
    | [] | _ :: _ :: _ => exact adds_miscounted _ _
  | add =>
    intro values
    match values with
    | [v, w] => exact J.adds_method _ J.add? _ fun f => Interp.adds_keep _ _ _ _
    | [] | [_] | _ :: _ :: _ :: _ => exact adds_miscounted _ _
  | mul =>
    intro values
    match values with
    | [v, w] =>
      apply Run.Adds.bind
      · unfold Interp.requireMul
        split
        · exact .pure ()
        · exact .throw _
      · intro _
        exact J.adds_method _ J.mul? _ fun f => Interp.adds_keep _ _ _ _
    | [] | [_] | _ :: _ :: _ :: _ => exact adds_miscounted _ _

namespace Decoder

variable {κ : Type} {log : σ → List κ} {d : Decoder σ} {I : Interp σ} {a b : Stand σ}

theorem adds_eachIndexed {α β : Type} {f : Nat → α → Run σ β} (hf : ∀ index a, (f index a).Adds log)
    (index : Nat) (as : List α) : (eachIndexed f index as).Adds log := by
  induction as generalizing index with
  | nil => exact .pure []
  | cons a as ih =>
    apply Run.Adds.bind (hf index a)
    intro b
    apply Run.Adds.bind (ih (index + 1))
    intro bs
    exact .pure (b :: bs)

theorem adds_of_ruleAt (adds : ∀ r ∈ d.rules, r.2.Adds log I) {levels : Nat} {v : Value}
    {rule : Rule σ} (ruled : d.ruleAt levels v = .ok rule) : rule.Adds log I := by
  obtain ⟨-, word, -, -, -, known, -⟩ := ruleAt_eq_ok.mp ruled
  exact adds (word, rule) (Rules.mem_of_lookup known)

/-- Decoding adds to a log if the rules do. -/
theorem adds_decodeAt (adds : ∀ r ∈ d.rules, r.2.Adds log I) (levels : Nat) (path : Path)
    (v : Value) : (d.decodeAt I levels path v).Adds log := by
  induction levels generalizing path v with
  | zero => exact .throw _
  | succ left ih =>
    rw [decodeAt_eq]
    cases ruled : d.ruleAt (left + 1) v with
    | error flaw => exact .throw _
    | ok rule =>
      have added := adds_of_ruleAt adds ruled
      cases action : rule.action with
      | raw build =>
        simp only [Rule.Adds, action] at added ⊢
        exact added v.children path
      | operator build =>
        simp only [Rule.Adds, action] at added ⊢
        exact .bind (adds_eachIndexed (fun index => ih (path ++ [index])) 0 v.children) added

section

variable (adds : ∀ r ∈ d.rules, r.2.Adds log I)

include adds

/-- What has been logged when a child is decoded is logged when its node is. -/
theorem Descends.logs (h : d.Descends I a b) :
    log (d.outcomeAt I b).2 <+: log (d.outcomeAt I a).2 := by
  cases h with
  | @child rule build before after values v s ruled operator children decoded =>
    have built : ∀ values, (build I values).Adds log := by
      have added := adds_of_ruleAt adds ruled
      simpa only [Rule.Adds, operator] using added
    rw [outcomeAt_of_operator ruled operator, children, Run.exec_bind,
      exec_eachIndexed_from _ _ decoded, ← Run.exec_bind, bind_assoc, Nat.zero_add]
    apply Run.Adds.onward
    intro w
    apply Run.Adds.bind
    · apply Run.Adds.bind (adds_eachIndexed (fun index => adds_decodeAt adds _ _) _ _)
      exact fun ws => .pure _
    · exact built

theorem Visits.logs (h : d.Visits I a b) :
    log (d.outcomeAt I b).2 <+: log (d.outcomeAt I a).2 := by
  induction h with
  | refl => exact List.prefix_rfl
  | tail _ step ih => exact (step.logs adds).trans ih

end

/-- What a decoder logs, one that keeps it logs too, and then maybe more. -/
theorem prefix_of_kept {d' : Decoder σ} {more : Nat} (kept : d.KeptBy d' more)
    (adds : ∀ r ∈ d'.rules, r.2.Adds log I) (a : Stand σ) :
    log (d.outcomeAt I a).2 <+: log (d'.outcomeAt I (a.raised more)).2 := by
  rcases outcomeAt_of_kept kept I a with same | ⟨b, flaw, visits, flawed⟩
  · simp only [same, List.prefix_rfl]
  · rw [visits.fails (outcomeAt_of_flaw flawed)]
    have before : log b.state <+: log (d'.outcomeAt I (b.raised more)).2 :=
      adds_decodeAt adds _ _ _ _
    exact before.trans ((visits.raised kept).logs adds)

end Decoder

end Symantics
