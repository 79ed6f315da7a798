import Mathlib.Data.List.Forall2
import Symantics.Interp.TreeBuilder
import Symantics.Proofs.Visits

/-
  The paths that a decoder reports.

  The path and the levels left go down a tree together, so whatever a decoder visits
  stands at its path, and the path is as long as the levels that are used up. A raw rule
  is therefore run on the children of the node at the path that it is given and on
  nothing else: what it would do elsewhere makes no difference
  (`exec_decode_of_replaced`). And a value that the decoder refuses is the one at the path
  of the fault (`blames_of_refuses`). The rules may be any, so a failure may also be one of
  theirs, but not where the decoder gets to something that it refuses
  (`not_foreign_of_refuses`).
-/
namespace Symantics

variable {σ : Type}

namespace Decoder

/-! ## What raw rules are run on -/

/-- What the raw rule of a word may be run on when a tree is decoded with so many levels: the
children of the node with that word at the path. -/
structure NodeAt (t : Value) (levels : Nat) (word : String) (arity : Nat) (children : List Value)
    (path : Path) : Prop where
  node : t.at? path = some (.node (.text word) children)
  shorter : path.length < levels
  counted : children.length = arity

/-- An entry of a table in place of another. Of a raw rule it is only asked that it does the same
on the children of nodes. -/
inductive Replaces (t : Value) (levels : Nat) (I : Interp σ) :
    String × Rule σ → String × Rule σ → Prop where
  | same (entry : String × Rule σ) : Replaces t levels I entry entry
  | raw {word : String} {arity : Nat} {build build' : Interp σ → List Value → Path → Run σ Value}
      (agree : ∀ children path, NodeAt t levels word arity children path →
        build' I children path = build I children path) :
      Replaces t levels I (word, ⟨arity, .raw build⟩) (word, ⟨arity, .raw build'⟩)

section

variable {t : Value} {m levels : Nat} {I : Interp σ} {rules rules' : Rules σ}

theorem Replaces.word_eq {entry entry' : String × Rule σ} (h : Replaces t m I entry entry') :
    entry'.1 = entry.1 := by
  cases h <;> rfl

theorem Replaces.arity_eq {entry entry' : String × Rule σ} (h : Replaces t m I entry entry') :
    entry'.2.arity = entry.2.arity := by
  cases h <;> rfl

theorem tags_of_replaced (h : List.Forall₂ (Replaces t m I) rules rules') :
    rules'.tags = rules.tags := by
  have words : rules'.map (·.1) = rules.map (·.1) := by
    induction h with
    | nil => rfl
    | cons entry _ ih => rw [List.map_cons, List.map_cons, ih, entry.word_eq]
  rw [Rules.tags, Rules.tags, words]

/-- The same words are known, with rules in place of the others. -/
theorem lookup_of_replaced (h : List.Forall₂ (Replaces t m I) rules rules') (word : String) :
    (rules.lookup word = none → rules'.lookup word = none) ∧
    ∀ rule, rules.lookup word = some rule → ∃ rule', rules'.lookup word = some rule' ∧
      Replaces t m I (word, rule) (word, rule') := by
  induction h with
  | nil => exact ⟨fun _ => rfl, fun rule known => by cases known⟩
  | @cons entry entry' _ _ replaces _ ih =>
    obtain ⟨tag, rule⟩ := entry
    obtain ⟨tag', rule'⟩ := entry'
    obtain rfl : tag' = tag := replaces.word_eq
    by_cases found : word = tag'
    · subst found
      refine ⟨fun unknown => by simp at unknown, ?_⟩
      intro r known
      obtain rfl : rule = r := by simpa using known
      exact ⟨rule', by simp, replaces⟩
    · have other : (word == tag') = false := beq_false_of_ne found
      simpa only [List.lookup_cons, other] using ih

end

section

variable {d d' : Decoder σ} {t : Value} {I : Interp σ}
  (depth : d'.maxDepth = d.maxDepth)
  (replaced : List.Forall₂ (Replaces t d.maxDepth I) d.rules d'.rules)

include depth replaced

/-- With entries of its table replaced, a decoder finds the same wrong, and where it has a rule
there is the one in its place. -/
theorem Finds.of_replaced {levels : Nat} {v : Value} {found : Except Flaw (Rule σ)}
    (h : d.Finds levels v found) :
    d'.Finds levels v found ∨
    ∃ word children rule rule', v = .node (.text word) children ∧ children.length = rule.arity ∧
      found = .ok rule ∧ d'.ruleAt levels v = .ok rule' ∧
      Replaces t d.maxDepth I (word, rule) (word, rule') := by
  cases h with
  | tooDeep v =>
    rw [← depth]
    exact .inl (.tooDeep v)
  | leaf shown => exact .inl (.leaf shown)
  | unshown unshown => exact .inl (.unshown unshown)
  | notTree hl hn => exact .inl (.notTree hl hn)
  | tagNotText ht => exact .inl (.tagNotText ht)
  | @unknownTag left word children unknown =>
    have tags : d.tags = d'.tags := (tags_of_replaced replaced).symm
    rw [tags]
    exact .inl (.unknownTag ((lookup_of_replaced replaced word).1 unknown))
  | @wrongArity left word children rule known arity =>
    obtain ⟨rule', known', replaces⟩ := (lookup_of_replaced replaced word).2 rule known
    have same : rule'.arity = rule.arity := replaces.arity_eq
    rw [← same] at arity ⊢
    exact .inl (.wrongArity known' arity)
  | @rule left word children rule known arity =>
    obtain ⟨rule', known', replaces⟩ := (lookup_of_replaced replaced word).2 rule known
    have same : rule'.arity = rule.arity := replaces.arity_eq
    exact .inr ⟨word, children, rule, rule', rfl, arity, rfl,
      (Finds.rule known' (arity.trans same.symm)).ruleAt_eq, replaces⟩

/-- Raw rules are run on nothing but the children of nodes, so that they may be replaced by any
others that do the same on these. -/
theorem exec_decode_of_replaced (s : σ) : (d'.decode t I).exec s = (d.decode t I).exec s := by
  have same : d'.outcomeAt I ((d.start t s).raised 0) = d.outcomeAt I (d.start t s) := by
    apply outcomeAt_congr
    intro b visits
    rcases (d.finds_ruleAt b.levels b.value).of_replaced depth replaced with
      same | ⟨word, children, rule, rule', value, counted, ruled, ruled', h⟩
    · exact .inl same.ruleAt_eq
    · cases h with
      | same => exact .inl (ruled'.trans ruled.symm)
      | @raw _ arity build build' agree =>
        right
        have within := visits.within (d.within_start t s)
        have shorter : b.path.length < d.maxDepth := by
          obtain ⟨left, -, -, levels, -⟩ := ruleAt_eq_ok.mp ruled
          have used := within.used
          omega
        have sound : NodeAt t d.maxDepth word arity children b.path :=
          ⟨value ▸ within.there, shorter, counted⟩
        rw [outcomeAt_of_raw ruled rfl, outcomeAt_of_raw (a := b.raised 0) ruled' rfl]
        simp only [Stand.raised, value, Value.children, agree children b.path sound]
  rw [decode, depth]
  exact same

end

/-! ## What is refused -/

/-- What a decoder finds wrong with a value itself: with its shape, or with the leaf of a
literal. -/
inductive Refuses (d : Decoder σ) (levels : Nat) (v : Value) : Defect → Prop where
  | shape {defect : Defect} (flawed : d.ruleAt levels v = .error (.ok defect)) :
      Refuses d levels v defect
  | literal {c : Value} {defect : Defect} (ruled : d.ruleAt levels v = .ok Rule.lit)
      (children : v.children = [c]) (numeral : c.numeral = .error (.ok defect)) :
      Refuses d levels v defect

/-- A fault that says where in a tree a decoder refuses what. -/
structure Blames (d : Decoder σ) (t : Value) (fault : Fault) : Prop where
  decoding : fault.isDecoding = true
  -- The path is that of a value in the tree, and the value is refused there.
  refused : ∃ v defect, t.at? fault.place.2 = some v ∧
    d.Refuses (d.maxDepth - fault.place.2.length) v defect ∧ fault = defect.fault fault.place.2
  -- No path is longer than the decoder goes, and only one as long says that it is too deep.
  short : fault.place.2.length ≤ d.maxDepth
  deepest : fault.place.2.length = d.maxDepth ↔ fault.code = "DEPTH_EXCEEDED"
  context : (fault.context.tag, fault.context.path) = fault.place

section

variable {d : Decoder σ} {t v : Value} {levels : Nat} {defect : Defect}

theorem code_of_refuses (h : d.Refuses levels v defect) :
    defect.code = "DEPTH_EXCEEDED" ↔ levels = 0 := by
  cases h with
  | shape flawed => exact code_of_ruleAt flawed
  | literal ruled children numeral =>
    obtain ⟨left, -, -, levels, -⟩ := ruleAt_eq_ok.mp ruled
    rw [(Value.code_of_numeral numeral).1, levels]
    simp

/-- What is refused at its path is blamed. -/
theorem blames_of_refuses {b : Stand σ} (within : b.Within t d.maxDepth)
    (h : d.Refuses b.levels b.value defect) : d.Blames t (defect.fault b.path) := by
  have used := within.used
  have levels : d.maxDepth - b.path.length = b.levels := by omega
  refine ⟨rfl, ⟨b.value, defect, within.there, ?_, rfl⟩, ?_, ?_, rfl⟩
  · show d.Refuses (d.maxDepth - b.path.length) b.value defect
    rwa [levels]
  · show b.path.length ≤ d.maxDepth
    omega
  · show b.path.length = d.maxDepth ↔ defect.code = "DEPTH_EXCEEDED"
    rw [code_of_refuses h]
    omega

theorem outcomeAt_of_refuses {I : Interp σ} {b : Stand σ}
    (h : d.Refuses b.levels b.value defect) :
    d.outcomeAt I b = (.error (.fault (defect.fault b.path)), b.state) := by
  cases h with
  | shape flawed => exact outcomeAt_of_flaw flawed
  | literal ruled children numeral =>
    rw [outcomeAt_of_raw ruled rfl, children]
    simp only [literal_eq, numeral]
    rfl

/-- A failure that is none of the decoder's own: that of showing what a leaf holds, or that of a
rule where nothing is refused. -/
inductive Foreign (d : Decoder σ) (I : Interp σ) (a : Stand σ) (f : Failure) (s' : σ) : Prop where
  | leaf {b : Stand σ} {content : Value} (visits : d.Visits I a b) (leaf : b.value = .leaf content)
      (unshown : content.shown = .error f) : Foreign d I a f s'
  | rule {b : Stand σ} {r : Run σ Value} {s : σ} (visits : d.Visits I a b)
      (accepted : ∀ defect, ¬ d.Refuses b.levels b.value defect) (applied : d.Applies I b r s)
      (failed : r.exec s = (.error f, s')) : Foreign d I a f s'

/-- A decoding that fails has refused something that it has visited, or the failure is foreign. -/
theorem refuses_or_foreign {I : Interp σ} {a : Stand σ} {f : Failure} {s' : σ}
    (h : d.outcomeAt I a = (.error f, s')) :
    (∃ b defect, d.Visits I a b ∧ d.Refuses b.levels b.value defect ∧
      f = .fault (defect.fault b.path) ∧ s' = b.state) ∨
    d.Foreign I a f s' := by
  obtain ⟨b, visits, ⟨flaw, flawed, rfl, rfl⟩ | ⟨r, s, applied, failed⟩⟩ :=
    exists_of_outcomeAt_error h
  · cases flaw with
    | ok defect => exact .inl ⟨b, defect, visits, .shape flawed, rfl, rfl⟩
    | error g =>
      obtain ⟨content, leaf, unshown⟩ := unshown_of_ruleAt flawed
      exact .inr (.leaf visits leaf unshown)
  · by_cases refused : ∃ defect, d.Refuses b.levels b.value defect
    · obtain ⟨defect, refuses⟩ := refused
      have fails := (outcomeAt_of_refuses refuses).symm.trans
        ((outcomeAt_of_applies applied).trans failed)
      obtain ⟨same, rfl⟩ := Prod.mk.inj fails
      obtain rfl := Except.error.inj same
      exact .inl ⟨b, defect, visits, refuses, rfl, rfl⟩
    · exact .inr (.rule visits (not_exists.mp refused) applied failed)

/-- Below what is refused nothing is visited. -/
theorem not_descends_of_refuses {I : Interp σ} {b c : Stand σ}
    (h : d.Refuses b.levels b.value defect) : ¬ d.Descends I b c := by
  rintro ⟨ruled, operator, -, -⟩
  cases h with
  | shape flawed => cases flawed.symm.trans ruled
  | literal ruled' _ _ =>
    obtain rfl := Except.ok.inj (ruled'.symm.trans ruled)
    cases operator

/-- Where a rule is run, no child has failed. -/
theorem not_fails_of_applies {I : Interp σ} {b c : Stand σ} {r : Run σ Value} {s : σ}
    (applies : d.Applies I b r s) (step : d.Descends I b c) : ¬ d.Fails I c := by
  intro fails
  obtain ⟨ruled, operator, children, decoded⟩ := step
  cases applies with
  | raw ruled' raw =>
    obtain rfl := Except.ok.inj (ruled'.symm.trans ruled)
    cases operator.symm.trans raw
  | operator _ _ decoded' =>
    rw [children] at decoded'
    exact not_decoded_of_fails fails decoded decoded'

/-- A fault is not foreign if the decoder gets to something that it refuses. -/
theorem not_foreign_of_refuses {I : Interp σ} {a b : Stand σ} (visits : d.Visits I a b)
    (refuses : d.Refuses b.levels b.value defect) (fault : Fault) (s' : σ) :
    ¬ d.Foreign I a (.fault fault) s' := by
  intro foreign
  have fails : d.Fails I b := ⟨_, _, outcomeAt_of_refuses refuses⟩
  cases foreign with
  | @leaf c content _ _ unshown =>
    unfold Value.shown at unshown
    split at unshown <;> cases unshown
  | @rule c r s visits' accepted applied failed =>
    have fails' : d.Fails I c := ⟨_, _, (outcomeAt_of_applies applied).trans failed⟩
    -- both are on the way to the failure, so one of them is below the other
    rcases visits.total visits' fails fails' with down | up
    · rcases down.cases_head with rfl | ⟨next, step, -⟩
      · exact accepted _ refuses
      · exact not_descends_of_refuses refuses step
    · rcases up.cases_head with rfl | ⟨next, step, visits⟩
      · exact accepted _ refuses
      · exact not_fails_of_applies applied step (Visits.fails_of_fails visits fails)

end

end Decoder

/-- A raw rule is run on nothing but the children of a node, as many as it takes, with the path of
the node, which is shorter than the decoder goes; what it does elsewhere makes no difference. And
a failure that is the decoder's own is a fault that says where in the tree it refuses what. -/
theorem paths_sound (d : Decoder σ) (I : Interp σ) (t : Value) :
    (∀ d' : Decoder σ, d'.maxDepth = d.maxDepth →
      List.Forall₂ (Decoder.Replaces t d.maxDepth I) d.rules d'.rules →
        ∀ s, (d'.decode t I).exec s = (d.decode t I).exec s) ∧
    ∀ (s s' : σ) (f : Failure), (d.decode t I).exec s = (.error f, s') →
      (∃ fault, f = .fault fault ∧ d.Blames t fault) ∨ d.Foreign I (d.start t s) f s' := by
  constructor
  · intro d' depth replaced
    exact Decoder.exec_decode_of_replaced depth replaced
  · intro s s' f h
    have start : d.outcomeAt I (d.start t s) = (.error f, s') := h
    rcases Decoder.refuses_or_foreign start with ⟨b, defect, visits, refuses, rfl, -⟩ | foreign
    · have within := visits.within (d.within_start t s)
      exact .inl ⟨_, rfl, Decoder.blames_of_refuses within refuses⟩
    · exact .inr foreign

/-- A rule that counts the parts that it is given may as well insist on one. -/
theorem paths_sound_of_quoted :
    let quote : Interp Unit → List Value → Path → Run Unit Value := fun I children _ =>
      I.litOf children.length
    let quoteOne : Interp Unit → List Value → Path → Run Unit Value := fun I children _ =>
      match children with
      | [_] => I.litOf 1
      | vs => Rule.miscounted 1 vs
    let d : Decoder Unit := ⟨[("Quote", ⟨1, .raw quote⟩), ("Neg", .neg)], 2, by decide⟩
    let d' : Decoder Unit := ⟨[("Quote", ⟨1, .raw quoteOne⟩), ("Neg", .neg)], 2, by decide⟩
    let I : Interp Unit := .treeBuilder .extended
    let t := (Tree.node "Neg" [.node "Quote" [.leaf "x"]]).toValue
    let t' := (Tree.node "Neg" [.leaf "x"]).toValue
    let fault := (Defect.unexpectedLeaf "'x'").fault [0]
    List.Forall₂ (Decoder.Replaces t 2 I) d.rules d'.rules ∧
      (d'.decode t I).exec () = (d.decode t I).exec () ∧
      (d.decode t' I).exec () = (.error (.fault fault), ()) ∧ d.Blames t' fault := by
  intro quote quoteOne d d' I t t' fault
  have replaced : List.Forall₂ (Decoder.Replaces t 2 I) d.rules d'.rules := by
    refine .cons (.raw ?_) (.cons (.same _) .nil)
    intro children path node
    obtain ⟨c, rfl⟩ := List.length_eq_one_iff.mp node.counted
    rfl
  have refused : (d.decode t' I).exec () = (.error (.fault fault), ()) := rfl
  refine ⟨replaced, (paths_sound d I t).1 d' rfl replaced (), refused, ?_⟩
  rcases (paths_sound d I t').2 _ _ _ refused with ⟨blamed, same, blames⟩ | foreign
  · obtain rfl := Failure.fault.inj same
    exact blames
  · -- the decoder gets to the leaf and refuses it
    have step : d.Descends I (d.start t' ()) ⟨1, [0], .leaf (.text "x"), ()⟩ :=
      @Decoder.Descends.child _ _ _ _ .neg _ [] [] [] _ () rfl rfl rfl rfl
    have refuses : d.Refuses 1 (.leaf (.text "x")) (.unexpectedLeaf "'x'") := .shape rfl
    exact absurd foreign (Decoder.not_foreign_of_refuses (.single step) refuses fault ())

end Symantics
