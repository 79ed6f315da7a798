import Mathlib.Logic.Relation
import Symantics.Proofs.Defects

/-
  Where a decoder gets to.

  `Decoder.ruleAt` is the rule by which a decoder decodes what stands somewhere, or what
  is wrong with it, and decoding there is running that rule (`decodeAt_eq`). Where the
  rule is that of an operation, the decoder goes on with the children, one after the
  other: `Descends` is the step to a child, and a decoder visits what it gets to in any
  number of steps. So much can be said of every table, whatever its rules do:

  - what is visited stands at its path in the tree, and the path is as long as the
    levels that have been used up (`Visits.within`);
  - a decoding fails where something is wrong that is visited, or where its rule fails
    (`Visits.fails`, `exists_of_outcomeAt_error`), and wherever it fails is on one way
    down (`Visits.total`);
  - two decoders do the same if they do the same wherever the first of them does not go
    on to the children (`outcomeAt_congr`), and a decoder that has all the rules of
    another one does what that one does until something is wrong (`outcomeAt_of_kept`).
-/
namespace Symantics

variable {σ : Type}

theorem Value.at?_concat (t : Value) (p : Path) (i : Nat) :
    t.at? (p ++ [i]) = (t.at? p).bind fun v => v.children[i]? := by
  induction p generalizing t with
  | nil =>
    simp only [List.nil_append, at?, Option.bind_some]
    cases t.children[i]? <;> rfl
  | cons j p ih =>
    simp only [List.cons_append, at?]
    cases t.children[j]? with
    | none => rfl
    | some c => exact ih c

theorem Rules.mem_of_lookup {rules : Rules σ} {tag : String} {rule : Rule σ}
    (h : rules.lookup tag = some rule) : (tag, rule) ∈ rules := by
  obtain ⟨before, after, rfl, -⟩ := List.lookup_eq_some_iff.mp h
  simp

namespace Decoder

/-! ## Children -/

section

variable {α β : Type} {f g : Nat → α → Run σ β} {as : List α} {a : α} {bs : List β} {index : Nat}
  {s s' : σ}

/-- Two runs over a list do the same if they do the same to each item that they get to. -/
theorem exec_eachIndexed_congr
    (h : ∀ before a after bs s', as = before ++ a :: after →
      (eachIndexed f index before).exec s = (.ok bs, s') →
      (g (index + before.length) a).exec s' = (f (index + before.length) a).exec s') :
    (eachIndexed g index as).exec s = (eachIndexed f index as).exec s := by
  induction as generalizing index s with
  | nil => rfl
  | cons a as ih =>
    have head : (g index a).exec s = (f index a).exec s := h [] a as [] s rfl rfl
    rw [eachIndexed, eachIndexed, Run.exec_bind, Run.exec_bind, head]
    rcases hf : (f index a).exec s with ⟨e | b, s₁⟩
    · rfl
    · have rest :
          (eachIndexed g (index + 1) as).exec s₁ = (eachIndexed f (index + 1) as).exec s₁ := by
        apply ih
        intro before a' after bs s' has hbefore
        have all : (eachIndexed f index (a :: before)).exec s = (.ok (b :: bs), s') := by
          rw [eachIndexed, Run.exec_bind_ok hf, Run.exec_bind_ok hbefore]
          rfl
        have next := h (a :: before) a' after (b :: bs) s' (by rw [has]; rfl) all
        rwa [List.length_cons, Nat.add_comm before.length, ← Nat.add_assoc] at next
      simp only [Run.onward, Run.exec_bind, rest]

theorem eachIndexed_append (index : Nat) (before after : List α) :
    eachIndexed f index (before ++ after) = (do
      let bs ← eachIndexed f index before
      let cs ← eachIndexed f (index + before.length) after
      return bs ++ cs) := by
  induction before generalizing index with
  | nil => simp [eachIndexed]
  | cons a before ih =>
    simp [eachIndexed, ih, Nat.add_assoc, Nat.add_comm 1]

/-- What is left to do after the items before one. -/
theorem exec_eachIndexed_from {before : List α} (a : α) (after : List α)
    (h : (eachIndexed f index before).exec s = (.ok bs, s')) :
    (eachIndexed f index (before ++ a :: after)).exec s =
      (f (index + before.length) a >>= fun b => do
        let cs ← eachIndexed f (index + before.length + 1) after
        return bs ++ b :: cs).exec s' := by
  rw [eachIndexed_append, Run.exec_bind_ok h, eachIndexed]
  simp only [bind_assoc, pure_bind]

/-- What is done to every item is still done by a run that does no less. -/
theorem exec_eachIndexed_ok_of
    (h : ∀ index a b s s', (f index a).exec s = (.ok b, s') → (g index a).exec s = (.ok b, s'))
    (hf : (eachIndexed f index as).exec s = (.ok bs, s')) :
    (eachIndexed g index as).exec s = (.ok bs, s') := by
  induction as generalizing index s bs with
  | nil => exact hf
  | cons a as ih =>
    obtain ⟨b, s₁, head, onward⟩ := Run.of_exec_bind_ok hf
    obtain ⟨cs, s₂, rest, all⟩ := Run.of_exec_bind_ok onward
    cases all
    rw [eachIndexed, Run.exec_bind_ok (h _ _ _ _ _ head), Run.exec_bind_ok (ih rest)]
    rfl

/-- A run over a list fails at the first item that it fails on. -/
theorem exec_eachIndexed_error {e : Failure}
    (h : (eachIndexed f index as).exec s = (.error e, s')) :
    ∃ before a after bs s₁, as = before ++ a :: after ∧
      (eachIndexed f index before).exec s = (.ok bs, s₁) ∧
      (f (index + before.length) a).exec s₁ = (.error e, s') := by
  induction as generalizing index s with
  | nil => cases h
  | cons a as ih =>
    rcases Run.of_exec_bind_error h with head | ⟨b, s₁, head, onward⟩
    · exact ⟨[], a, as, [], s, rfl, rfl, head⟩
    · rcases Run.of_exec_bind_error onward with rest | ⟨bs, s₂, -, never⟩
      · obtain ⟨before, a', after, bs, s₂, rfl, done, failed⟩ := ih rest
        refine ⟨a :: before, a', after, b :: bs, s₂, rfl, ?_, ?_⟩
        · rw [eachIndexed, Run.exec_bind_ok head, Run.exec_bind_ok done]
          rfl
        · rwa [List.length_cons, Nat.add_comm before.length, ← Nat.add_assoc]
      · cases never

end

/-- Decodes the children of a node at a path, with so many levels left for them. -/
abbrev decodeChildren (d : Decoder σ) (I : Interp σ) (levels : Nat) (path : Path) :
    List Value → Run σ (List Value) :=
  eachIndexed (fun index => d.decodeAt I levels (path ++ [index])) 0

/-! ## What a decoder does at a position -/

/-- The rule by which what stands somewhere is decoded with so many levels left, or what is wrong
with it. -/
def ruleAt (d : Decoder σ) : Nat → Value → Except Flaw (Rule σ)
  | 0, _ => .error (.ok (.tooDeep d.maxDepth))
  | _ + 1, .leaf content => .error (content.shown.map .unexpectedLeaf)
  | _ + 1, .node (.text word) children => match d.rules.lookup word with
    | none => .error (.ok (.unknownTag word (Text.quoted word) d.tags))
    | some rule =>
      if children.length = rule.arity then .ok rule
      else .error (.ok (.wrongArity word rule.arity children.length))
  | _ + 1, .node tag _ => .error (.ok (.tagNotText tag.kind))
  | _ + 1, v => .error (.ok (.notTree v.kind))

/-- What a decoder may find at a position: a rule, or something wrong. -/
inductive Finds (d : Decoder σ) : Nat → Value → Except Flaw (Rule σ) → Prop where
  | tooDeep (v : Value) : Finds d 0 v (.error (.ok (.tooDeep d.maxDepth)))
  | leaf {left : Nat} {content : Value} {text : String} (shown : content.shown = .ok text) :
      Finds d (left + 1) (.leaf content) (.error (.ok (.unexpectedLeaf text)))
  | unshown {left : Nat} {content : Value} {f : Failure} (unshown : content.shown = .error f) :
      Finds d (left + 1) (.leaf content) (.error (.error f))
  | notTree {left : Nat} {v : Value} (hl : ∀ content, v ≠ .leaf content)
      (hn : ∀ tag children, v ≠ .node tag children) :
      Finds d (left + 1) v (.error (.ok (.notTree v.kind)))
  | tagNotText {left : Nat} {tag : Value} {children : List Value}
      (ht : ∀ word, tag ≠ .text word) :
      Finds d (left + 1) (.node tag children) (.error (.ok (.tagNotText tag.kind)))
  | unknownTag {left : Nat} {word : String} {children : List Value}
      (unknown : d.rules.lookup word = none) :
      Finds d (left + 1) (.node (.text word) children)
        (.error (.ok (.unknownTag word (Text.quoted word) d.tags)))
  | wrongArity {left : Nat} {word : String} {children : List Value} {rule : Rule σ}
      (known : d.rules.lookup word = some rule) (arity : children.length ≠ rule.arity) :
      Finds d (left + 1) (.node (.text word) children)
        (.error (.ok (.wrongArity word rule.arity children.length)))
  | rule {left : Nat} {word : String} {children : List Value} {rule : Rule σ}
      (known : d.rules.lookup word = some rule) (arity : children.length = rule.arity) :
      Finds d (left + 1) (.node (.text word) children) (.ok rule)

section

variable {d : Decoder σ} {levels : Nat} {v : Value} {rule : Rule σ}

theorem finds_ruleAt (d : Decoder σ) (levels : Nat) (v : Value) :
    d.Finds levels v (d.ruleAt levels v) := by
  cases levels with
  | zero => exact .tooDeep v
  | succ left =>
    cases v with
    | leaf content =>
      simp only [ruleAt]
      cases shown : content.shown with
      | ok text => exact .leaf shown
      | error f => exact .unshown shown
    | node tag children =>
      cases tag with
      | text word =>
        simp only [ruleAt]
        cases known : d.rules.lookup word with
        | none => exact .unknownTag known
        | some rule =>
          by_cases arity : children.length = rule.arity
          · simp only [if_pos arity]
            exact .rule known arity
          · simp only [if_neg arity]
            exact .wrongArity known arity
      | _ => exact .tagNotText (by simp)
    | _ => exact .notTree (by simp) (by simp)

theorem Finds.ruleAt_eq {found : Except Flaw (Rule σ)} (h : d.Finds levels v found) :
    d.ruleAt levels v = found := by
  cases h with
  | tooDeep v => rfl
  | leaf shown | unshown shown =>
    simp only [ruleAt, shown]
    rfl
  | notTree hl hn =>
    cases v with
    | leaf content => exact absurd rfl (hl content)
    | node tag children => exact absurd rfl (hn tag children)
    | _ => rfl
  | @tagNotText left tag children ht =>
    cases tag with
    | text word => exact absurd rfl (ht word)
    | _ => rfl
  | unknownTag unknown => simp only [ruleAt, unknown]
  | wrongArity known arity => simp only [ruleAt, known, if_neg arity]
  | rule known arity => simp only [ruleAt, known, if_pos arity]

theorem finds_of_ruleAt {found : Except Flaw (Rule σ)} (h : d.ruleAt levels v = found) :
    d.Finds levels v found :=
  h ▸ d.finds_ruleAt levels v

/-- Only a node has a rule: the one of its tag, when it has as many children as that asks for. -/
theorem ruleAt_eq_ok : d.ruleAt levels v = .ok rule ↔
    ∃ left word children, levels = left + 1 ∧ v = .node (.text word) children ∧
      d.rules.lookup word = some rule ∧ children.length = rule.arity := by
  constructor
  · intro h
    cases finds_of_ruleAt h with
    | rule known arity => exact ⟨_, _, _, rfl, rfl, known, arity⟩
  · intro h
    obtain ⟨left, word, children, rfl, rfl, known, arity⟩ := h
    exact (Finds.rule known arity).ruleAt_eq

/-- Only where no level is left it is the depth that is wrong. -/
theorem code_of_ruleAt {defect : Defect} (h : d.ruleAt levels v = .error (.ok defect)) :
    defect.code = "DEPTH_EXCEEDED" ↔ levels = 0 := by
  cases finds_of_ruleAt h with
  | tooDeep v => exact ⟨fun _ => rfl, fun _ => rfl⟩
  | _ => simp [Defect.code]

/-- It may be impossible to say what is wrong with a leaf, when what it holds cannot be shown. -/
theorem unshown_of_ruleAt {f : Failure} (h : d.ruleAt levels v = .error (.error f)) :
    ∃ content, v = .leaf content ∧ content.shown = .error f := by
  cases finds_of_ruleAt h with
  | unshown unshown => exact ⟨_, rfl, unshown⟩

end

/-- Decoding what stands at a path is running its rule there. -/
theorem decodeAt_eq (d : Decoder σ) (I : Interp σ) (levels : Nat) (path : Path) (v : Value) :
    d.decodeAt I levels path v =
      (match d.ruleAt levels v with
      | .error f => throw (f.failure path)
      | .ok rule => match rule.action with
        | .raw build => build I v.children path
        | .operator build =>
          d.decodeChildren I (levels - 1) path v.children >>= fun values => build I values) := by
  cases levels with
  | zero => rfl
  | succ left =>
    cases v with
    | leaf content =>
      simp only [decodeAt, ruleAt]
      cases content.shown <;> rfl
    | node tag children =>
      cases tag with
      | text word =>
        simp only [decodeAt, ruleFor, ruleAt]
        cases d.rules.lookup word with
        | none => rfl
        | some rule =>
          by_cases arity : children.length = rule.arity
          · simp only [if_pos arity, pure_bind]
            rfl
          · simp only [if_neg arity]
            rfl
      | _ => rfl
    | _ => rfl

/-! ## Steps -/

/-- What a decoder has before it: a value, with its path and so many levels left, and the state. -/
structure Stand (σ : Type) where
  levels : Nat
  path : Path
  value : Value
  state : σ

namespace Stand

/-- The same with more levels left. -/
def raised (a : Stand σ) (more : Nat) : Stand σ := { a with levels := a.levels + more }

/-- The value stands at its path in a tree, and the path has used up the levels that are not left
of so many. -/
structure Within (a : Stand σ) (t : Value) (levels : Nat) : Prop where
  there : t.at? a.path = some a.value
  used : a.path.length + a.levels = levels

end Stand

/-- Where a decoder starts. -/
def start (d : Decoder σ) (t : Value) (s : σ) : Stand σ := ⟨d.maxDepth, [], t, s⟩

theorem within_start (d : Decoder σ) (t : Value) (s : σ) : (d.start t s).Within t d.maxDepth :=
  ⟨rfl, Nat.zero_add _⟩

/-- How the decoding of what a decoder has before it ends, and in which state. -/
def outcomeAt (d : Decoder σ) (I : Interp σ) (a : Stand σ) : Except Failure Value × σ :=
  (d.decodeAt I a.levels a.path a.value).exec a.state

/-- At an operation a decoder goes on to a child when it has decoded the children before it. -/
inductive Descends (d : Decoder σ) (I : Interp σ) (a : Stand σ) : Stand σ → Prop where
  | child {rule : Rule σ} {build : Interp σ → List Value → Run σ Value}
      {before after values : List Value} {v : Value} {s : σ}
      (ruled : d.ruleAt a.levels a.value = .ok rule) (operator : rule.action = .operator build)
      (children : a.value.children = before ++ v :: after)
      (decoded : (d.decodeChildren I (a.levels - 1) a.path before).exec a.state = (.ok values, s)) :
      Descends d I a ⟨a.levels - 1, a.path ++ [before.length], v, s⟩

/-- A decoder visits what it gets to in any number of steps. -/
abbrev Visits (d : Decoder σ) (I : Interp σ) : Stand σ → Stand σ → Prop :=
  Relation.ReflTransGen (d.Descends I)

/-- The rule of what a decoder has before it, as it is run: on the children, or on their values in
the state after their decoding. -/
inductive Applies (d : Decoder σ) (I : Interp σ) (a : Stand σ) : Run σ Value → σ → Prop where
  | raw {rule : Rule σ} {build : Interp σ → List Value → Path → Run σ Value}
      (ruled : d.ruleAt a.levels a.value = .ok rule) (raw : rule.action = .raw build) :
      Applies d I a (build I a.value.children a.path) a.state
  | operator {rule : Rule σ} {build : Interp σ → List Value → Run σ Value} {values : List Value}
      {s : σ} (ruled : d.ruleAt a.levels a.value = .ok rule)
      (operator : rule.action = .operator build)
      (decoded : (d.decodeChildren I (a.levels - 1) a.path a.value.children).exec a.state =
        (.ok values, s)) :
      Applies d I a (build I values) s

section

variable {d : Decoder σ} {I : Interp σ} {a b : Stand σ} {t : Value} {m : Nat}

theorem outcomeAt_of_flaw {flaw : Flaw} (h : d.ruleAt a.levels a.value = .error flaw) :
    d.outcomeAt I a = (.error (flaw.failure a.path), a.state) := by
  rw [outcomeAt, decodeAt_eq, h]
  rfl

theorem outcomeAt_of_raw {rule : Rule σ} {build : Interp σ → List Value → Path → Run σ Value}
    (ruled : d.ruleAt a.levels a.value = .ok rule) (raw : rule.action = .raw build) :
    d.outcomeAt I a = (build I a.value.children a.path).exec a.state := by
  rw [outcomeAt, decodeAt_eq, ruled]
  simp only [raw]

theorem outcomeAt_of_operator {rule : Rule σ} {build : Interp σ → List Value → Run σ Value}
    (ruled : d.ruleAt a.levels a.value = .ok rule) (operator : rule.action = .operator build) :
    d.outcomeAt I a =
      (d.decodeChildren I (a.levels - 1) a.path a.value.children >>= fun values =>
        build I values).exec a.state := by
  rw [outcomeAt, decodeAt_eq, ruled]
  simp only [operator]

/-- Where a rule is run, decoding is running it. -/
theorem outcomeAt_of_applies {r : Run σ Value} {s : σ} (h : d.Applies I a r s) :
    d.outcomeAt I a = r.exec s := by
  cases h with
  | raw ruled raw => exact outcomeAt_of_raw ruled raw
  | operator ruled operator decoded =>
    rw [outcomeAt_of_operator ruled operator, Run.exec_bind_ok decoded]

namespace Descends

theorem levels_lt (h : d.Descends I a b) : b.levels < a.levels := by
  cases h with
  | child ruled operator children decoded =>
    obtain ⟨left, -, -, levels, -⟩ := ruleAt_eq_ok.mp ruled
    simp only [levels]
    omega

/-- What holds wherever it holds one step further down holds everywhere. -/
theorem induction (d : Decoder σ) (I : Interp σ) {P : Stand σ → Prop}
    (h : ∀ a, (∀ b, d.Descends I a b → P b) → P a) (a : Stand σ) : P a := by
  apply (measure Stand.levels).wf.induction a
  intro a ih
  apply h
  intro b step
  exact ih b step.levels_lt

theorem within (h : d.Descends I a b) (ha : a.Within t m) : b.Within t m := by
  cases h with
  | @child rule build before after values v s ruled operator children decoded =>
    constructor
    · rw [Value.at?_concat, ha.there, Option.bind_some, children]
      simp
    · obtain ⟨left, -, -, levels, -⟩ := ruleAt_eq_ok.mp ruled
      have used := ha.used
      simp only [List.length_append, List.length_cons, List.length_nil]
      omega

/-- Where the decoding of a child fails, that of the node does. -/
theorem fails (h : d.Descends I a b) {f : Failure} {s : σ}
    (hb : d.outcomeAt I b = (.error f, s)) : d.outcomeAt I a = (.error f, s) := by
  cases h with
  | child ruled operator children decoded =>
    rw [outcomeAt_of_operator ruled operator]
    apply Run.exec_bind_error
    rw [children, exec_eachIndexed_from _ _ decoded, Nat.zero_add]
    exact Run.exec_bind_error hb _

end Descends

namespace Visits

theorem within (h : d.Visits I a b) (ha : a.Within t m) : b.Within t m := by
  induction h with
  | refl => exact ha
  | tail _ step ih => exact step.within ih

theorem fails (h : d.Visits I a b) {f : Failure} {s : σ}
    (hb : d.outcomeAt I b = (.error f, s)) : d.outcomeAt I a = (.error f, s) := by
  induction h with
  | refl => exact hb
  | tail _ step ih => exact ih (step.fails hb)

end Visits

/-- A decoding that fails does so at something that is visited: there something is wrong, or there
the rule fails. -/
theorem exists_of_outcomeAt_error {f : Failure} {s : σ} (h : d.outcomeAt I a = (.error f, s)) :
    ∃ b, d.Visits I a b ∧
      ((∃ flaw, d.ruleAt b.levels b.value = .error flaw ∧ f = flaw.failure b.path ∧
          s = b.state) ∨
        ∃ r s', d.Applies I b r s' ∧ r.exec s' = (.error f, s)) := by
  induction a using Descends.induction d I generalizing s with
  | h a ih =>
    cases ruled : d.ruleAt a.levels a.value with
    | error flaw =>
      rw [outcomeAt_of_flaw ruled] at h
      obtain ⟨failure, rfl⟩ := Prod.mk.inj h
      exact ⟨a, .refl, .inl ⟨flaw, ruled, (Except.error.inj failure).symm, rfl⟩⟩
    | ok rule =>
      cases action : rule.action with
      | raw build =>
        rw [outcomeAt_of_raw ruled action] at h
        exact ⟨a, .refl, .inr ⟨_, _, .raw ruled action, h⟩⟩
      | operator build =>
        rw [outcomeAt_of_operator ruled action] at h
        rcases Run.of_exec_bind_error h with failed | ⟨values, s₁, decoded, failed⟩
        · -- the decoding of one child has failed
          obtain ⟨before, v, after, values, s₂, children, done, failed⟩ :=
            exec_eachIndexed_error failed
          have step := Descends.child ruled action children done
          rw [Nat.zero_add] at failed
          obtain ⟨b, visits, why⟩ := ih _ step failed
          exact ⟨b, .head step visits, why⟩
        · exact ⟨a, .refl, .inr ⟨_, _, .operator ruled action decoded, failed⟩⟩

/-! ## The way to a failure -/

/-- The decoding of what a decoder has before it fails. -/
def Fails (d : Decoder σ) (I : Interp σ) (a : Stand σ) : Prop :=
  ∃ f s, d.outcomeAt I a = (.error f, s)

/-- No children are decoded when one among them fails. -/
theorem not_decoded_of_fails {levels : Nat} {path : Path} {before after values values' : List Value}
    {v : Value} {s s₁ s₂ : σ} (fails : d.Fails I ⟨levels, path ++ [before.length], v, s₁⟩)
    (decoded : (d.decodeChildren I levels path before).exec s = (.ok values, s₁)) :
    (d.decodeChildren I levels path (before ++ v :: after)).exec s ≠ (.ok values', s₂) := by
  obtain ⟨f, s', failed⟩ := fails
  rw [exec_eachIndexed_from _ _ decoded, Nat.zero_add, Run.exec_bind_error failed]
  nofun

/-- Of the children that a decoder gets to, it fails at one at most. -/
theorem Descends.eq_of_fails {c : Stand σ} (hb : d.Descends I a b) (hc : d.Descends I a c)
    (fb : d.Fails I b) (fc : d.Fails I c) : b = c := by
  cases hb with
  | @child _ _ before after values v s _ _ children decoded =>
    cases hc with
    | @child _ _ before' after' values' v' s' _ _ children' decoded' =>
      -- what is decoded before the one does not go past the other
      have same : before = before' := by
        rcases List.append_eq_append_iff.mp (children.symm.trans children') with
          ⟨_ | ⟨w, between⟩, rfl, rest⟩ | ⟨_ | ⟨w, between⟩, rfl, rest⟩
        · exact (List.append_nil before).symm
        · obtain ⟨rfl, -⟩ := List.cons.inj rest
          exact absurd decoded' (not_decoded_of_fails fb decoded)
        · exact List.append_nil before'
        · obtain ⟨rfl, -⟩ := List.cons.inj rest
          exact absurd decoded (not_decoded_of_fails fc decoded')
      subst same
      obtain ⟨rfl, -⟩ := List.cons.inj (List.append_cancel_left (children.symm.trans children'))
      cases decoded.symm.trans decoded'
      rfl

theorem Visits.fails_of_fails (h : d.Visits I a b) (fails : d.Fails I b) : d.Fails I a := by
  obtain ⟨f, s, failed⟩ := fails
  exact ⟨f, s, h.fails failed⟩

/-- Wherever a decoder fails, it is on one way down from where it starts. -/
theorem Visits.total {c : Stand σ} (hb : d.Visits I a b) (hc : d.Visits I a c) (fb : d.Fails I b)
    (fc : d.Fails I c) : d.Visits I b c ∨ d.Visits I c b := by
  induction hb using Relation.ReflTransGen.head_induction_on with
  | refl => exact .inl hc
  | head step visits ih =>
    rcases hc.cases_head with rfl | ⟨a', step', visits'⟩
    · exact .inr (.head step visits)
    · obtain rfl := step.eq_of_fails step' (Visits.fails_of_fails visits fb)
        (Visits.fails_of_fails visits' fc)
      exact ih visits'

/-! ## Comparing decoders -/

section

variable {d' : Decoder σ} {more : Nat}

theorem levels_raised {rule : Rule σ} (ruled : d.ruleAt a.levels a.value = .ok rule) :
    (a.raised more).levels - 1 = a.levels - 1 + more := by
  obtain ⟨left, -, -, levels, -⟩ := ruleAt_eq_ok.mp ruled
  simp only [Stand.raised, levels]
  omega

/-- A decoder with more levels left does the same as another one if, at everything that this one
visits, it has the same rule or does the same. -/
theorem outcomeAt_congr
    (h : ∀ b, d.Visits I a b →
      d'.ruleAt (b.levels + more) b.value = d.ruleAt b.levels b.value ∨
      d'.outcomeAt I (b.raised more) = d.outcomeAt I b) :
    d'.outcomeAt I (a.raised more) = d.outcomeAt I a := by
  induction a using Descends.induction d I with
  | h a ih =>
    rcases h a .refl with same | same
    · cases ruled : d.ruleAt a.levels a.value with
      | error flaw =>
        rw [outcomeAt_of_flaw ruled]
        exact outcomeAt_of_flaw (same.trans ruled)
      | ok rule =>
        cases action : rule.action with
        | raw build =>
          rw [outcomeAt_of_raw ruled action]
          exact outcomeAt_of_raw (same.trans ruled) action
        | operator build =>
          rw [outcomeAt_of_operator ruled action]
          apply (outcomeAt_of_operator (same.trans ruled) action).trans
          rw [Run.exec_bind, Run.exec_bind]
          congr 1
          apply exec_eachIndexed_congr
          intro before v after values s children decoded
          rw [Nat.zero_add]
          have step := Descends.child ruled action children decoded
          rw [levels_raised ruled]
          exact ih _ step fun b visits => h b (.head step visits)
    · exact same

/-- A decoder is kept by one that, with more levels left, has every rule that it has. -/
def KeptBy (d d' : Decoder σ) (more : Nat) : Prop :=
  ∀ levels v rule, d.ruleAt levels v = .ok rule → d'.ruleAt (levels + more) v = .ok rule

section

variable (kept : d.KeptBy d' more)

include kept

/-- A decoder that keeps another one does the same, unless this one finds something wrong. -/
theorem outcomeAt_of_kept (I : Interp σ) (a : Stand σ) :
    d'.outcomeAt I (a.raised more) = d.outcomeAt I a ∨
      ∃ b flaw, d.Visits I a b ∧ d.ruleAt b.levels b.value = .error flaw := by
  apply Classical.or_iff_not_imp_right.mpr
  intro sound
  apply outcomeAt_congr
  intro b visits
  cases ruled : d.ruleAt b.levels b.value with
  | error flaw => exact absurd ⟨b, flaw, visits, ruled⟩ sound
  | ok rule => exact .inl (kept _ _ _ ruled)

/-- What a decoder decodes is decoded to the same by one that keeps it. -/
theorem outcomeAt_ok_of_kept {v : Value} {s : σ} (h : d.outcomeAt I a = (.ok v, s)) :
    d'.outcomeAt I (a.raised more) = (.ok v, s) := by
  rcases outcomeAt_of_kept kept I a with same | ⟨b, flaw, visits, flawed⟩
  · exact same.trans h
  · cases h.symm.trans (visits.fails (outcomeAt_of_flaw flawed))

theorem Descends.raised (h : d.Descends I a b) :
    d'.Descends I (a.raised more) (b.raised more) := by
  cases h with
  | @child rule build before after values v s ruled operator children decoded =>
    have decoded' : (d'.decodeChildren I (a.levels - 1 + more) a.path before).exec a.state =
        (.ok values, s) := by
      apply exec_eachIndexed_ok_of _ decoded
      intro index v w s s' done
      have child : d.outcomeAt I ⟨a.levels - 1, a.path ++ [index], v, s⟩ = (.ok w, s') := done
      exact outcomeAt_ok_of_kept kept child
    rw [← levels_raised ruled] at decoded'
    have step : d'.Descends I (a.raised more) _ :=
      .child (kept _ _ _ ruled) operator children decoded'
    rwa [levels_raised ruled] at step

theorem Visits.raised (h : d.Visits I a b) : d'.Visits I (a.raised more) (b.raised more) := by
  induction h with
  | refl => exact .refl
  | tail _ step ih => exact ih.tail (step.raised kept)

end

end

end

end Decoder

end Symantics
