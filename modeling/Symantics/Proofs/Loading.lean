import Symantics.Proofs.JsonBounds
import Symantics.Proofs.Unfolding

/-
  Loading trees.

  Whatever text or bytes come in, what is read is a tree or a fault that says that the
  data is malformed (`reading_total`). A fault about a reference shows the index, which
  could itself fail; it does not, as no index in a document that was read is too long
  for that (`fits_of_ofText`).
-/
namespace Symantics

/-! ## Checks that passed -/

namespace Checked

variable {α β : Type}

theorem of_inside {step : String} {c : Checked α} {a : α} (h : c.inside step = .ok a) :
    c = .ok a := by
  cases c with
  | ok b => exact h
  | error r => cases h

theorem of_both {c : Checked α} {c' : Checked β} {p : α × β} (h : c.both c' = .ok p) :
    c = .ok p.1 ∧ c' = .ok p.2 := by
  cases c <;> cases c' <;> cases h
  exact ⟨rfl, rfl⟩

theorem of_map {f : α → β} {c : Checked α} {b : β} (h : c.map f = .ok b) :
    ∃ a, c = .ok a ∧ f a = b := by
  cases c with
  | ok a => exact ⟨a, rfl, Except.ok.inj h⟩
  | error r => cases h

/-- Every item that a list holds has passed the check. -/
theorem of_items {check : α → Checked β} {index : Nat} {as : List α} {bs : List β}
    (h : items check index as = .ok bs) : ∀ b ∈ bs, ∃ a ∈ as, check a = .ok b := by
  induction as generalizing index bs with
  | nil =>
    cases h
    exact List.forall_mem_nil _
  | cons a as ih =>
    obtain ⟨p, both, rfl⟩ := of_map h
    obtain ⟨first, rest⟩ := of_both both
    refine List.forall_mem_cons.mpr ⟨⟨a, List.mem_cons_self, of_inside first⟩, ?_⟩
    intro b hb
    obtain ⟨a', mem, passed⟩ := ih rest b hb
    exact ⟨a', List.mem_cons_of_mem a mem, passed⟩

end Checked

namespace Json

variable {α : Type} {name : String} {check : Json → Checked α} {fields : List (String × Json)}
  {a : α}

theorem of_required (h : required name check fields = .ok a) :
    ∃ j, lookup name fields = some j ∧ check j = .ok a := by
  have passed := Checked.of_inside h
  cases found : lookup name fields with
  | none =>
    rw [found] at passed
    cases passed
  | some j =>
    rw [found] at passed
    exact ⟨j, rfl, passed⟩

theorem of_optional {default : α} (h : optional name default check fields = .ok a) :
    a = default ∨ ∃ j, lookup name fields = some j ∧ check j = .ok a := by
  have passed := Checked.of_inside h
  cases found : lookup name fields with
  | none =>
    rw [found] at passed
    exact .inl (Except.ok.inj passed).symm
  | some j =>
    rw [found] at passed
    exact .inr ⟨j, rfl, passed⟩

/-- The items of bounded data that passed a check are those of bounded data. -/
theorem of_asList {digits : Nat} {j : Json} {as : List α} (hj : j.Bounded digits)
    (h : asList check j = .ok as) : ∀ a ∈ as, ∃ k, Bounded digits k ∧ check k = .ok a := by
  cases hj with
  | list items =>
    intro a ha
    obtain ⟨k, mem, passed⟩ := Checked.of_items h a ha
    exact ⟨k, items k mem, passed⟩
  | _ => cases h

theorem fits_of_asInteger {j : Json} {n : Int} (hj : j.Bounded Decimal.digitLimit)
    (h : asInteger j = .ok n) : Decimal.fits n = true := by
  unfold asInteger at h
  split at h <;> cases h
  next hn => exact fits_of_toInteger hj hn

end Json

/-! ## Indexes -/

namespace Document

/-- Every index in an entry can be written. -/
def Legible (e : Entry) : Prop := ∀ i ∈ references e, Decimal.fits i = true

theorem legible_of_ofJson {j : Json} {e : Entry} (hj : j.Bounded Decimal.digitLimit)
    (h : Entry.ofJson j = .ok e) : Legible e := by
  unfold Entry.ofJson at h
  split at h
  · next fields =>
    cases hj with
    | record hf =>
      split at h
      · obtain ⟨_, -, rfl⟩ := Checked.of_map (Checked.of_inside h)
        exact List.forall_mem_nil _
      · obtain ⟨⟨_, _, indexes, _⟩, passed, rfl⟩ := Checked.of_map (Checked.of_inside h)
        obtain ⟨-, passed⟩ := Checked.of_both passed
        obtain ⟨-, passed⟩ := Checked.of_both passed
        obtain ⟨children, -⟩ := Checked.of_both passed
        intro i hi
        rcases Json.of_optional children with none | ⟨k, found, list⟩
        · obtain rfl : indexes = [] := none
          cases hi
        · have hk : k.Bounded Decimal.digitLimit := Json.bounded_of_lookup found hf
          obtain ⟨m, hm, integer⟩ := Json.of_asList hk list i hi
          exact Json.fits_of_asInteger hm integer
      · cases h
  · cases h

theorem entries_of_ofEntries {es : List Entry} {d : Document} (h : ofEntries es = .ok d) :
    d.entries = es := by
  cases es with
  | nil => cases h
  | cons e es =>
    obtain rfl := Except.ok.inj h
    exact List.dropLast_concat_getLast _

theorem legible_of_ofItems {j : Json} {d : Document} (hj : j.Bounded Decimal.digitLimit)
    (h : ofItems j = .ok d) : ∀ e ∈ d.entries, Legible e := by
  unfold ofItems at h
  split at h
  · next es list =>
    intro e he
    rw [entries_of_ofEntries h] at he
    obtain ⟨k, hk, entry⟩ := Json.of_asList hj list e he
    exact legible_of_ofJson hk entry
  · cases h

/-- No index in a document from a text is too long to be written. -/
theorem legible_of_ofText {s : String} {d : Document} (h : ofText s = .ok d) :
    ∀ e ∈ d.entries, Legible e := by
  unfold ofText at h
  split at h
  · next j read =>
    have hj : j.Bounded Decimal.digitLimit := Json.bounded_of_read? read
    cases hj with
    | record hf =>
      obtain ⟨p, both, rfl⟩ := Checked.of_map h
      obtain ⟨nodes, -⟩ := Checked.of_both both
      obtain ⟨k, found, items⟩ := Json.of_required nodes
      exact legible_of_ofItems (Json.bounded_of_lookup found hf) items
    | _ => cases h
  · cases h

theorem legible_of_ofBytes {bytes : ByteArray} {d : Document} (h : ofBytes bytes = .ok d) :
    ∀ e ∈ d.entries, Legible e := by
  unfold ofBytes at h
  split at h
  · exact legible_of_ofText h
  · cases h

/-! ## The outcome -/

/-- What reading data gives: the tree of a document whose references lead backward; or a fault that
says that the data is malformed, because it is no document or at the first reference that does not
lead backward. -/
inductive Loads (c : Checked Document) : Except Failure Tree → Prop where
  | tree {d : Document} {t : Tree} (hc : c = .ok d) (backward : Backward d.entries)
      (ht : treeAt d.entries d.earlier.length = some t) : Loads c (.ok t)
  | notDocument {r : Report} (hc : c = .error r) :
      Loads c (.error (.fault (.decoding
        ("Not a tree document: " ++ toString r.length ++ " validation error(s)")
        "MALFORMED_TREE" none [] {} (some .report))))
  | astray {d : Document} {i : Nat} {index : Int} (hc : c = .ok d)
      (first : FirstAstray d.entries i index) :
      Loads c (.error (.fault (.decoding
        ("Entry " ++ toString i ++ " refers to entry " ++ toString index ++
          "; children must point at earlier entries") "MALFORMED_TREE" none [] {} none)))

theorem loads_onChecked {c : Checked Document} (h : ∀ d, c = .ok d → ∀ e ∈ d.entries, Legible e) :
    Loads c (onChecked toTree c) := by
  cases c with
  | error r => exact .notDocument rfl
  | ok d =>
    show Loads _ d.toTree
    by_cases backward : Backward d.entries
    · obtain ⟨t, ht, unfolds⟩ := toTree_of_backward backward
      rw [unfolds]
      exact .tree rfl backward ht
    · obtain ⟨i, index, first⟩ := exists_firstAstray backward
      obtain ⟨e, before, after, he, split, -⟩ := first.here
      have mem : index ∈ references e := by
        rw [split]
        exact List.mem_append_right before List.mem_cons_self
      have shown : Decimal.fits index = true := h d rfl e (List.mem_of_getElem? he) index mem
      have fails : d.toTree = .error (.fault ((Defect.badReference i index).fault [])) := by
        rw [toTree_of_astray first, failure, if_pos shown]
      rw [fails]
      exact .astray rfl first

end Document

/-- Any text and any bytes are read as a tree, or lead to a fault that says that the data is
malformed. -/
theorem Tree.reading_total :
    (∀ s : String, Document.Loads (Document.ofText s) (Tree.read s)) ∧
    ∀ bytes : ByteArray, Document.Loads (Document.ofBytes bytes) (Tree.readBytes bytes) :=
  ⟨fun _ => Document.loads_onChecked fun _ => Document.legible_of_ofText,
    fun _ => Document.loads_onChecked fun _ => Document.legible_of_ofBytes⟩

end Symantics
