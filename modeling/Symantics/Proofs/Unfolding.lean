import Mathlib.Data.List.Induction
import Mathlib.Logic.Relation
import Symantics.Proofs.Documents

/-
  What documents stand for.

  Seen from the top, an entry stands for a tree: a leaf for itself, a node for its tag
  over the trees of the entries that it refers to (`treeAt`). A document is unfolded
  the other way, entry by entry from the first on. If every reference leads to an
  earlier entry (`Backward`), each entry is built when it is needed, and what is built
  is the tree that it stands for (`unfoldAll_of_backward`). If not, unfolding fails at
  the first reference that leads elsewhere (`unfoldAll_of_astray`), and some reference
  is the first (`exists_firstAstray`). So a document is unfolded exactly if its
  references lead backward (`unfolding_exact`).
-/
namespace Symantics.Document

/-- The index leads to one of the first `n` entries. -/
def Earlier (n : Nat) (index : Int) : Prop := 0 ≤ index ∧ index < n

instance (n : Nat) (index : Int) : Decidable (Earlier n index) :=
  inferInstanceAs (Decidable (0 ≤ index ∧ index < n))

/-- The tree that an entry stands for: a node has the trees of the entries that it refers to below
it, in order and as often as it refers to them. There is none if the node, or one below it, refers
to an entry that is not earlier. -/
def treeAt (es : List Entry) (i : Nat) : Option Tree :=
  match es[i]? with
  | none => none
  | some (.leaf text) => some (.leaf text)
  | some (.node tag children) =>
    (children.mapM fun c => if _h : Earlier i c then treeAt es c.toNat else none).map (.node tag)
termination_by i
decreasing_by
  unfold Earlier at _h
  omega

/-- Every reference leads to an earlier entry. -/
def Backward (es : List Entry) : Prop :=
  ∀ i e, es[i]? = some e → ∀ c ∈ references e, Earlier i c

/-- The first reference, entry by entry, that does not lead to an earlier entry is `c` in the entry
at `i`. -/
structure FirstAstray (es : List Entry) (i : Nat) (c : Int) : Prop where
  above : Backward (es.take i)
  here : ∃ e before after, es[i]? = some e ∧ references e = before ++ c :: after ∧
    ∀ b ∈ before, Earlier i b
  astray : ¬ Earlier i c

/-- The entry at `i` refers to that at `j`. -/
def Refers (es : List Entry) (i j : Nat) : Prop :=
  ∃ e, es[i]? = some e ∧ (j : Int) ∈ references e

/-- The entry at `i` is that at `j`, or stands over it. -/
def Reaches (es : List Entry) : Nat → Nat → Prop := Relation.ReflTransGen (Refers es)

theorem backward_concat {es : List Entry} {e : Entry} :
    Backward (es ++ [e]) ↔ Backward es ∧ ∀ c ∈ references e, Earlier es.length c := by
  constructor
  · intro h
    refine ⟨?_, h es.length e (by simp)⟩
    intro i f hf
    have inside : i < es.length := (List.getElem?_eq_some_iff.mp hf).1
    exact h i f (by rw [List.getElem?_append_left inside, hf])
  · intro h i f hf
    by_cases inside : i < es.length
    · exact h.1 i f (by rwa [List.getElem?_append_left inside] at hf)
    · have last : i = es.length := by
        have := (List.getElem?_eq_some_iff.mp hf).1
        simp only [List.length_append, List.length_singleton] at this
        omega
      subst last
      obtain rfl : e = f := by simpa using hf
      exact h.2

instance (es : List Entry) : Decidable (Backward es) :=
  decidable_of_iff (∀ p ∈ es.zipIdx, ∀ c ∈ references p.1, Earlier p.2 c) <| by
    simp only [Backward, List.mem_zipIdx_iff_getElem?]
    exact ⟨fun h i e he => h (e, i) he, fun h p hp => h p.2 p.1 hp⟩

/-! ## References that lead backward -/

section

variable {all es : List Entry} {e : Entry} {built : Array Tree}

/-- The trees that some entries stand for have been built. -/
def Holds (all : List Entry) (built : Array Tree) : Prop :=
  ∀ i (h : i < built.size), treeAt all i = some built[i]

/-- Earlier entries that have been built are found. -/
theorem children_of_earlier (holds : Holds all built) {cs : List Int}
    (h : ∀ c ∈ cs, Earlier built.size c) :
    ∃ ts, cs.mapM (child built) = .ok ts ∧
      (cs.mapM fun c => if Earlier built.size c then treeAt all c.toNat else none) = some ts := by
  induction cs with
  | nil => exact ⟨[], rfl, rfl⟩
  | cons c cs ih =>
    have hc : Earlier built.size c := h c List.mem_cons_self
    have inside : c.toNat < built.size := by
      unfold Earlier at hc
      omega
    have found : child built c = .ok built[c.toNat] := dif_pos hc
    obtain ⟨ts, others, trees⟩ := ih fun b hb => h b (List.mem_cons_of_mem c hb)
    refine ⟨built[c.toNat] :: ts, ?_, ?_⟩
    · rw [List.mapM_cons, found, others]
      rfl
    · rw [List.mapM_cons, if_pos hc, holds _ inside, trees]
      rfl

/-- An entry that refers to earlier entries is built as the tree that it stands for. -/
theorem unfold_of_earlier (holds : Holds all built) (he : all[built.size]? = some e)
    (h : ∀ c ∈ references e, Earlier built.size c) :
    ∃ t, unfold .tree built e = .ok t ∧ treeAt all built.size = some t := by
  rw [treeAt, he]
  cases e with
  | leaf text => exact ⟨.leaf text, rfl, rfl⟩
  | node tag cs =>
    have children : ∀ c ∈ cs, Earlier built.size c := h
    obtain ⟨ts, found, trees⟩ := children_of_earlier holds children
    refine ⟨.node tag ts, ?_, ?_⟩
    · rw [unfold, found]
      rfl
    · simp only [dite_eq_ite, trees, Option.map_some]

/-- Entry by entry, what is built are the trees that the entries stand for. -/
theorem unfoldAll_of_backward (part : es <+: all) (h : Backward es) :
    ∃ built, unfoldAll .tree #[] es = .ok built ∧ built.size = es.length ∧ Holds all built := by
  -- on the last entry: those before it have been built
  induction es using List.reverseRecOn with
  | nil => exact ⟨#[], rfl, rfl, fun i hi => absurd hi (Nat.not_lt_zero i)⟩
  | append_singleton es e ih =>
    obtain ⟨above, here⟩ := backward_concat.mp h
    obtain ⟨built, run, size, holds⟩ := ih ((List.prefix_append es [e]).trans part) above
    have he : all[built.size]? = some e := by
      obtain ⟨rest, rfl⟩ := part
      simp [size]
    rw [← size] at here
    obtain ⟨t, last, tree⟩ := unfold_of_earlier holds he here
    refine ⟨built.push t, ?_, ?_, ?_⟩
    · rw [unfoldAll_append, run]
      show unfoldAll .tree built [e] = _
      rw [unfoldAll, last]
      rfl
    · rw [Array.size_push, size, List.length_append, List.length_singleton]
    · intro i hi
      rw [Array.getElem_push]
      split
      · next old => exact holds i old
      · next new =>
        rw [Array.size_push] at hi
        obtain rfl : i = built.size := by omega
        exact tree

end

/-! ## References that lead elsewhere -/

section

variable {α : Type} {r : Reading α} {es : List Entry} {e : Entry} {c : Int}

/-- Entries are looked up up to the first that has not been built. -/
theorem children_of_astray {built : Array α} {before after : List Int}
    (hb : ∀ b ∈ before, Earlier built.size b) (hc : ¬ Earlier built.size c) :
    (before ++ c :: after).mapM (child built) = .error (.badReference built.size c) := by
  induction before with
  | nil =>
    have missing : child built c = .error (.badReference built.size c) := dif_neg hc
    rw [List.nil_append, List.mapM_cons, missing]
    rfl
  | cons b before ih =>
    have found : child built b = .ok _ := dif_pos (hb b List.mem_cons_self)
    have others := ih fun d hd => hb d (List.mem_cons_of_mem b hd)
    rw [List.cons_append, List.mapM_cons, found, others]
    rfl

theorem unfold_of_astray {built : Array α} {before after : List Int}
    (split : references e = before ++ c :: after) (hb : ∀ b ∈ before, Earlier built.size b)
    (hc : ¬ Earlier built.size c) :
    unfold r built e = .error (.badReference built.size c) := by
  cases e with
  | leaf text => cases before <;> cases split
  | node tag cs =>
    obtain rfl : cs = before ++ c :: after := split
    rw [unfold, children_of_astray hb hc]
    rfl

/-- Unfolding fails at the first reference that does not lead to an earlier entry. -/
theorem unfoldAll_of_astray {i : Nat} (h : FirstAstray es i c) :
    unfoldAll .tree #[] es = .error (.badReference i c) := by
  obtain ⟨e, before, after, he, split, hb⟩ := h.here
  obtain ⟨hi, rfl⟩ := List.getElem?_eq_some_iff.mp he
  obtain ⟨built, run, size, -⟩ := unfoldAll_of_backward (List.take_prefix i es) h.above
  obtain rfl : built.size = i := by
    rw [size, List.length_take]
    omega
  -- the entries are those before the one at `i`, this one, and those that are never reached
  rw [← List.take_append_drop built.size es, List.drop_eq_getElem_cons hi, unfoldAll_append, run]
  show (unfold .tree built es[built.size] >>= _) = _
  rw [unfold_of_astray split hb h.astray]
  rfl

theorem exists_firstAstray (h : ¬ Backward es) : ∃ i c, FirstAstray es i c := by
  -- on the last entry: it counts only if those before it refer backward
  induction es using List.reverseRecOn with
  | nil => exact absurd (fun i e he => by cases he) h
  | append_singleton es e ih =>
    by_cases above : Backward es
    · have elsewhere : ∃ c ∈ references e, ¬ Earlier es.length c := by
        simpa [backward_concat, above] using h
      obtain ⟨d, hd, astray⟩ := elsewhere
      obtain ⟨c, hc⟩ : ∃ c, (references e).find? (fun c => ¬ Earlier es.length c) = some c := by
        apply Option.isSome_iff_exists.mp
        rw [List.find?_isSome]
        exact ⟨d, hd, by simpa using astray⟩
      obtain ⟨hc, before, after, split, hb⟩ := List.find?_eq_some_iff_append.mp hc
      refine ⟨es.length, c, ?_, ⟨e, before, after, by simp, split, ?_⟩, by simpa using hc⟩
      · rwa [List.take_left]
      · intro b mem
        simpa using hb b mem
    · obtain ⟨i, c, first⟩ := ih above
      obtain ⟨f, before, after, hf, split, hb⟩ := first.here
      have inside : i < es.length := (List.getElem?_eq_some_iff.mp hf).1
      refine ⟨i, c, ?_, ⟨f, before, after, ?_, split, hb⟩, first.astray⟩
      · rw [List.take_append_of_le_length (Nat.le_of_lt inside)]
        exact first.above
      · rwa [List.getElem?_append_left inside]

end

/-! ## Documents -/

theorem mapM_congr {α β : Type} {f g : α → Option β} {as : List α} (h : ∀ a ∈ as, f a = g a) :
    as.mapM f = as.mapM g := by
  induction as with
  | nil => rfl
  | cons a as ih =>
    rw [List.mapM_cons, List.mapM_cons, h a List.mem_cons_self,
      ih fun b hb => h b (List.mem_cons_of_mem a hb)]

/-- What an entry stands for depends on the entries that it reaches only. -/
theorem treeAt_congr {es fs : List Entry} {i : Nat} (h : ∀ j, Reaches es i j → fs[j]? = es[j]?) :
    treeAt fs i = treeAt es i := by
  induction i using Nat.strongRecOn with
  | _ i ih =>
    rw [treeAt, treeAt, h i .refl]
    rcases he : es[i]? with _ | (text | ⟨tag, cs⟩)
    · rfl
    · rfl
    · have below : ∀ c ∈ cs, (if Earlier i c then treeAt fs c.toNat else none) =
          if Earlier i c then treeAt es c.toNat else none := by
        intro c hc
        by_cases earlier : Earlier i c
        · have bounds : 0 ≤ c ∧ c < i := earlier
          have refers : Refers es i c.toNat :=
            ⟨_, he, by rw [Int.toNat_of_nonneg bounds.1]; exact hc⟩
          have same : treeAt fs c.toNat = treeAt es c.toNat :=
            ih c.toNat (by omega) fun j hj => h j (.head refers hj)
          rw [same]
        · rw [if_neg earlier, if_neg earlier]
      simp only [dite_eq_ite, mapM_congr below]

theorem toTree_of_backward {d : Document} (h : Backward d.entries) :
    ∃ t, treeAt d.entries d.earlier.length = some t ∧ d.toTree = .ok t := by
  obtain ⟨above, here⟩ := backward_concat.mp h
  obtain ⟨built, run, size, holds⟩ := unfoldAll_of_backward (List.prefix_append _ [d.last]) above
  rw [← size] at here ⊢
  have last : d.entries[built.size]? = some d.last := by
    rw [entries, size]
    simp
  obtain ⟨t, unfolds, tree⟩ := unfold_of_earlier holds last here
  refine ⟨t, tree, ?_⟩
  rw [toTree, toTree?, unfolded?, run]
  show orFault (unfold .tree built d.last) = _
  rw [unfolds]
  rfl

theorem toTree_of_astray {d : Document} {i : Nat} {c : Int} (h : FirstAstray d.entries i c) :
    d.toTree = .error (failure (.badReference i c)) := by
  have fails := unfoldAll_of_astray h
  rw [entries, unfoldAll_append] at fails
  rw [toTree, toTree?, unfolded?]
  cases run : unfoldAll .tree #[] d.earlier with
  | error defect =>
    rw [run] at fails
    obtain rfl : defect = .badReference i c := Except.error.inj fails
    rfl
  | ok built =>
    rw [run] at fails
    show orFault (unfold .tree built d.last) = _
    have last : (unfold .tree built d.last >>= fun t => .ok (built.push t)) =
        .error (.badReference i c) := fails
    cases unfolds : unfold .tree built d.last with
    | error defect =>
      rw [unfolds] at last
      obtain rfl : defect = .badReference i c := Except.error.inj last
      rfl
    | ok t =>
      rw [unfolds] at last
      cases last

/-- A document is unfolded exactly if every reference of every entry leads to an earlier one. Then
its tree is what its last entry stands for, and entries that this one does not reach do not matter.
If not, unfolding fails at the first reference that leads elsewhere; the failure names the entry and
the index, unless the index has too many digits to be shown. -/
theorem unfolding_exact (d : Document) :
    (Backward d.entries →
      ∃ t, treeAt d.entries d.earlier.length = some t ∧ d.toTree = .ok t) ∧
    (¬ Backward d.entries → ∃ i c, FirstAstray d.entries i c ∧
      d.toTree = .error (if Decimal.fits c then .fault (.decoding
          ("Entry " ++ toString i ++ " refers to entry " ++ toString c ++
            "; children must point at earlier entries") "MALFORMED_TREE" none [] {} none)
        else .misuse .tooManyDigits)) ∧
    (Backward d.entries → ∀ d' : Document, Backward d'.entries →
      d'.earlier.length = d.earlier.length →
      (∀ i, Reaches d.entries d.earlier.length i → d'.entries[i]? = d.entries[i]?) →
        d'.toTree = d.toTree) := by
  refine ⟨toTree_of_backward, ?_, ?_⟩
  · intro h
    obtain ⟨i, c, first⟩ := exists_firstAstray h
    exact ⟨i, c, first, toTree_of_astray first⟩
  · intro h d' h' length same
    obtain ⟨t, tree, unfolds⟩ := toTree_of_backward h
    obtain ⟨t', tree', unfolds'⟩ := toTree_of_backward h'
    rw [length, treeAt_congr same, tree] at tree'
    rw [unfolds, unfolds', Option.some.inj tree']

theorem unfolding_exact_of_shared :
    let d : Document := ⟨[.leaf "a", .leaf "b"], .node "Add" [0, 0]⟩
    let d' : Document := ⟨[.leaf "a", .node "Neg" [0]], .node "Add" [0, 0]⟩
    let astray : Document := ⟨[.leaf "a", .node "Neg" [0, -1, 7]], .node "Add" [2, 0]⟩
    Backward d.entries ∧ Backward d'.entries ∧ ¬ Backward astray.entries ∧
      (∃ t, treeAt d.entries 2 = some t ∧ d.toTree = .ok t) ∧ d'.toTree = d.toTree ∧
      ∃ i c, FirstAstray astray.entries i c ∧ ∃ f, astray.toTree = .error f := by
  intro d d' astray
  have backward : Backward d.entries := by decide
  have backward' : Backward d'.entries := by decide
  have elsewhere : ¬ Backward astray.entries := by decide
  -- the last entry reaches itself and the first, which are the same in both documents
  have reached : ∀ i, Reaches d.entries 2 i → i = 2 ∨ i = 0 := by
    intro i h
    induction h with
    | refl => exact .inl rfl
    | @tail _ j _ refers ih =>
      obtain ⟨e, he, mem⟩ := refers
      rcases ih with rfl | rfl <;> obtain rfl := Option.some.inj he
      · have first : (j : Int) ∈ ([0, 0] : List Int) := mem
        simp only [List.mem_cons, List.not_mem_nil, or_false] at first
        omega
      · cases mem
  have same : ∀ i, Reaches d.entries 2 i → d'.entries[i]? = d.entries[i]? := by
    intro i h
    rcases reached i h with rfl | rfl <;> rfl
  obtain ⟨i, c, first, fails⟩ := (unfolding_exact astray).2.1 elsewhere
  exact ⟨backward, backward', elsewhere, (unfolding_exact d).1 backward,
    (unfolding_exact d).2.2 backward d' backward' rfl same, i, c, first, _, fails⟩

end Symantics.Document
