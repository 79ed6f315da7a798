import Mathlib.Algebra.Group.Nat.Defs
import Symantics.Document.Text
import Symantics.Proofs.JsonText

/-
  Trees come back from their documents and texts.

  Unfolding the list of a tree's nodes gives the tree (`toTree_ofTree`): when the
  entries of a subtree have been taken, the last thing built is the subtree, and what
  was built before is still in its place. The JSON form of a document is checked to
  be that document, and its text is read as that JSON form, so a tree is read from
  the text that it was written as (`read_of_write`), unless it has so many nodes that
  their indexes are too long to be read. It is written with any indent that is null
  or a count of blanks (`write_ok_iff`).
-/
namespace Symantics

mutual

/-- The number of leaves and nodes of a tree. -/
def Tree.size : Tree → Nat
  | .leaf _ => 1
  | .node _ ts => Tree.sizes ts + 1

def Tree.sizes : List Tree → Nat
  | [] => 0
  | t :: ts => Tree.size t + Tree.sizes ts

end

namespace Document

/-! ## Unfolding -/

section

variable {α : Type} {built : Array α} {r : Reading α}

/-- What was built stays in its place. -/
theorem child_append {index : Int} {a : α} (h : child built index = .ok a) (more : Array α) :
    child (built ++ more) index = .ok a := by
  unfold child at h
  split at h
  · next hi =>
    have wide : 0 ≤ index ∧ index < (built ++ more).size := by
      rw [Array.size_append]
      omega
    have left : index.toNat < built.size := by omega
    rw [child, dif_pos wide, Array.getElem_append_left left]
    exact h
  · cases h

theorem child_last (a : α) : child (built.push a) built.size = .ok a := by
  have last : (0 : Int) ≤ built.size ∧ (built.size : Int) < (built.push a).size := by
    rw [Array.size_push]
    omega
  rw [child, dif_pos last]
  simp

theorem unfoldAll_append (es fs : List Entry) :
    unfoldAll r built (es ++ fs) = unfoldAll r built es >>= fun built => unfoldAll r built fs := by
  induction es generalizing built with
  | nil => rfl
  | cons e es ih =>
    rw [List.cons_append, unfoldAll, unfoldAll, bind_assoc]
    simp only [ih]

end

mutual

theorem length_listed : ∀ (first : Nat) (t : Tree), (listed first t).entries.length = t.size
  | _, .leaf _ => rfl
  | first, .node _ ts => by
    show ((listedAll first ts).1 ++ [_]).length = Tree.sizes ts + 1
    rw [List.length_append, length_listedAll first ts]
    rfl

theorem length_listedAll : ∀ (first : Nat) (ts : List Tree),
    (listedAll first ts).1.length = Tree.sizes ts
  | _, [] => rfl
  | first, t :: ts => by
    show ((listed first t).entries ++ (listedAll _ ts).1).length = t.size + Tree.sizes ts
    rw [List.length_append, length_listed first t, length_listedAll _ ts]

end

mutual

/-- Unfolding what a tree is listed as builds the tree last. -/
theorem unfold_listed : ∀ (t : Tree) (built : Array Tree), ∃ below : Array Tree,
    unfoldAll .tree built (listed built.size t).earlier = .ok (built ++ below) ∧
    unfold .tree (built ++ below) (listed built.size t).last = .ok t ∧ below.size + 1 = t.size
  | .leaf text, built => ⟨#[], by rw [Array.append_empty]; rfl, rfl, rfl⟩
  | .node tag ts, built => by
    obtain ⟨below, hb, hc, hs⟩ := unfold_listedAll ts built
    refine ⟨below, hb, ?_, by rw [hs, Tree.size]⟩
    show (List.mapM (child (built ++ below)) (listedAll built.size ts).2).map (Tree.node tag) = _
    rw [hc]
    rfl

theorem unfold_listedAll : ∀ (ts : List Tree) (built : Array Tree), ∃ below : Array Tree,
    unfoldAll .tree built (listedAll built.size ts).1 = .ok (built ++ below) ∧
    (listedAll built.size ts).2.mapM (child (built ++ below)) = .ok ts ∧ below.size = Tree.sizes ts
  | [], built => ⟨#[], by rw [Array.append_empty]; rfl, rfl, rfl⟩
  | t :: ts, built => by
    obtain ⟨below, hb, ht, hs⟩ := unfold_listed t built
    obtain ⟨rest, hr, hc, hss⟩ := unfold_listedAll ts ((built ++ below).push t)
    -- the first tree's entries are `below` and the tree itself; the others follow from there
    have next : built.size + (listed built.size t).entries.length =
        ((built ++ below).push t).size := by
      rw [length_listed, Array.size_push, Array.size_append]
      omega
    have whole : built ++ (below.push t ++ rest) = (built ++ below).push t ++ rest := by
      rw [← Array.append_assoc, Array.append_push]
    have root : built.size + (listed built.size t).entries.length - 1 = (built ++ below).size := by
      rw [next, Array.size_push]
      omega
    refine ⟨below.push t ++ rest, ?_, ?_, ?_⟩
    · show unfoldAll .tree built ((listed built.size t).entries ++ (listedAll _ ts).1) = _
      rw [next, unfoldAll_append, entries, unfoldAll_append, hb, whole, ← hr]
      show (unfoldAll .tree (built ++ below) [_] >>= _) = _
      rw [unfoldAll, ht]
      rfl
    · show List.mapM (child _) (((_ : Nat) : Int) :: (listedAll _ ts).2) = _
      rw [root, next, whole, List.mapM_cons, child_append (child_last t), hc]
      rfl
    · rw [Array.size_append, Array.size_push, hs, hss, Tree.sizes]

end

theorem toTree_ofTree (t : Tree) : (ofTree t).toTree = .ok t := by
  obtain ⟨below, hb, ht, -⟩ := unfold_listed t #[]
  have built : unfoldAll .tree #[] (ofTree t).earlier = .ok (#[] ++ below) := hb
  have last : unfold .tree (#[] ++ below) (ofTree t).last = .ok t := ht
  rw [toTree, toTree?, unfolded?, built]
  show orFault (unfold .tree (#[] ++ below) (ofTree t).last) = _
  rw [last]
  rfl

/-! ## The JSON form -/

theorem items_map {α : Type} {check : Json → Checked α} {write : α → Json}
    (h : ∀ a, check (write a) = .ok a) (index : Nat) (as : List α) :
    Checked.items check index (as.map write) = .ok as := by
  induction as generalizing index with
  | nil => rfl
  | cons a as ih =>
    rw [List.map_cons, Checked.items, h, ih]
    rfl

end Document

theorem Entry.ofJson_toJson (e : Entry) : Entry.ofJson e.toJson = .ok e := by
  cases e with
  | leaf text => rfl
  | node tag children =>
    let fields : List (String × Json) :=
      [("kind", .text "node"), ("tag", .text tag), ("children", .list (children.map .int))]
    have integers : Json.asList Json.asInteger (.list (children.map .int)) = .ok children :=
      @Document.items_map Int Json.asInteger .int (fun _ => rfl) 0 children
    have indexes : Json.optional "children" [] (Json.asList Json.asInteger) fields =
        .ok children := by
      show (Json.asList Json.asInteger (.list (children.map .int))).inside "children" = _
      rw [integers]
      rfl
    show (nodeOfFields fields).inside "node" = _
    rw [nodeOfFields, indexes]
    rfl

namespace Document

theorem ofEntries?_entries (d : Document) : ofEntries? d.entries = some d := by
  have ne : d.entries ≠ [] := List.append_ne_nil_of_right_ne_nil _ (List.cons_ne_nil _ _)
  obtain ⟨e, es, h⟩ := List.exists_cons_of_ne_nil ne
  rw [h, ofEntries?]
  have earlier : (e :: es).dropLast = d.earlier := by rw [← h, entries, List.dropLast_concat]
  have last : (e :: es).getLast (List.cons_ne_nil e es) = d.last := by
    simp only [← h, entries, List.getLast_concat]
  rw [earlier, last]

theorem ofJson_toJson (d : Document) : ofJson d.toJson = .ok d := by
  have items : ofItems (.list (d.entries.map Entry.toJson)) = .ok d := by
    rw [ofItems, Json.asList, items_map Entry.ofJson_toJson]
    show ofEntries d.entries = _
    rw [ofEntries, ofEntries?_entries]
  let fields : List (String × Json) := [("nodes", .list (d.entries.map Entry.toJson))]
  have nodes : Json.required "nodes" ofItems fields = .ok d := by
    show (ofItems (.list (d.entries.map Entry.toJson))).inside "nodes" = _
    rw [items]
    rfl
  show ((Json.required "nodes" ofItems fields).both _).map _ = _
  rw [nodes]
  rfl

/-! ## The text -/

/-- The indexes that an entry refers to. -/
def references : Entry → List Int
  | .leaf _ => []
  | .node _ children => children

mutual

/-- The entries of a tree refer to entries of that tree. -/
theorem references_listed : ∀ (first : Nat) (t : Tree), ∀ e ∈ (listed first t).entries,
    ∀ i ∈ references e, (first : Int) ≤ i ∧ i < (first + t.size : Nat)
  | first, .leaf text, e, he, i, hi => by
    rcases List.mem_singleton.mp he with rfl
    cases hi
  | first, .node tag ts, e, he, i, hi => by
    have below := references_listedAll first ts
    rw [Tree.size]
    rcases List.mem_append.mp he with he | he
    · have := below.1 e he i hi
      omega
    · rcases List.mem_singleton.mp he with rfl
      have := below.2 i hi
      omega

theorem references_listedAll : ∀ (first : Nat) (ts : List Tree),
    (∀ e ∈ (listedAll first ts).1, ∀ i ∈ references e,
      (first : Int) ≤ i ∧ i < (first + Tree.sizes ts : Nat)) ∧
    ∀ i ∈ (listedAll first ts).2, (first : Int) ≤ i ∧ i < (first + Tree.sizes ts : Nat)
  | first, [] => by simp [listedAll]
  | first, t :: ts => by
    have here := references_listed first t
    have rest := references_listedAll (first + (listed first t).entries.length) ts
    have positive : 0 < t.size := by cases t <;> simp [Tree.size]
    rw [length_listed] at rest
    rw [Tree.sizes]
    constructor
    · intro e he i hi
      rcases List.mem_append.mp he with he | he
      · have := here e he i hi
        omega
      · rw [length_listed] at he
        have := rest.1 e he i hi
        omega
    · intro i hi
      rcases List.mem_cons.mp hi with rfl | hi
      · rw [length_listed]
        omega
      · rw [length_listed] at hi
        have := rest.2 i hi
        omega

end

/-- A document whose indexes are short enough is found again in its text. -/
theorem readable_toJson {d : Document}
    (h : ∀ e ∈ d.entries, ∀ i ∈ references e, Decimal.digitCount i ≤ Decimal.digitLimit) :
    Json.Readable .standard 0 d.toJson := by
  have entry : ∀ e ∈ d.entries, Json.Readable .standard 2 e.toJson := by
    intro e he
    cases e with
    | leaf text =>
      apply Json.Readable.record (fun _ => by decide) (by simp)
      intro f hf
      simp only [List.mem_cons, List.not_mem_nil, or_false] at hf
      rcases hf with rfl | rfl <;> exact .text _
    | node tag children =>
      apply Json.Readable.record (fun _ => by decide) (by simp)
      intro f hf
      simp only [List.mem_cons, List.not_mem_nil, or_false] at hf
      rcases hf with rfl | rfl | rfl
      · exact .text _
      · exact .text _
      · apply Json.Readable.list (fun _ => by decide)
        intro j hj
        obtain ⟨i, hi, rfl⟩ := List.mem_map.mp hj
        exact .int (h _ he i hi)
  apply Json.Readable.record (fun _ => by decide) (by simp)
  intro f hf
  rcases List.mem_singleton.mp hf with rfl
  apply Json.Readable.list (fun _ => by decide)
  intro j hj
  obtain ⟨e, he, rfl⟩ := List.mem_map.mp hj
  exact entry e he

end Document

mutual

theorem Tree.toTree_toValue : ∀ t : Tree, t.toValue.toTree = .ok t
  | .leaf _ => rfl
  | .node tag ts => by
    rw [Tree.toValue, Value.toTree, Tree.toTrees_toValues ts]
    rfl

theorem Tree.toTrees_toValues : ∀ ts : List Tree, Value.toTrees (Tree.toValues ts) = .ok ts
  | [] => rfl
  | t :: ts => by
    rw [Tree.toValues, Value.toTrees, Tree.toTree_toValue t, Tree.toTrees_toValues ts]
    rfl

end

/-! ## Texts -/

/-- The value is an indent: null, or a number of blanks that is a count. -/
def Value.IsIndent (v : Value) : Prop :=
  v = .null ∨ ∃ n : Nat, n ≤ Capacity.greatestCount ∧ v.integer? = some (n : Int)

/-- Null and the numbers that are counts are all that there is a layout for. -/
theorem Json.Layout.ofIndent_ok_iff {indent : Value} :
    (∃ layout, ofIndent indent = .ok layout) ↔ indent.IsIndent := by
  constructor
  · rintro ⟨layout, h⟩
    unfold ofIndent at h
    split at h
    · next n hn =>
      split at h
      · cases h
      · next nonneg =>
        split at h
        · cases h
        · next fits =>
          refine .inr ⟨n.toNat, by omega, ?_⟩
          rw [hn, Int.toNat_of_nonneg (Int.not_lt.mp nonneg)]
    · split at h
      · exact .inl rfl
      · cases h
  · rintro (rfl | ⟨n, count, hn⟩)
    · exact ⟨.compact, rfl⟩
    · have nonneg : ¬ (n : Int) < 0 := Int.not_lt.mpr (Int.natCast_nonneg n)
      have fits : ¬ (Capacity.greatestCount : Int) < n := by omega
      refine ⟨.indented n, ?_⟩
      simp only [ofIndent, hn, if_neg nonneg, if_neg fits, Int.toNat_natCast]

theorem Tree.write_eq_ok {t : Tree} {indent : Value} {text : String} :
    t.write indent = .ok text ↔ ∃ layout, Json.Layout.ofIndent indent = .ok layout ∧
      (Document.ofTree t).toJson.write layout = text := by
  unfold Tree.write
  cases Json.Layout.ofIndent indent with
  | ok layout =>
    constructor
    · rintro ⟨⟩
      exact ⟨layout, rfl, rfl⟩
    · rintro ⟨_, ⟨⟩, rfl⟩
      rfl
  | error e => exact ⟨nofun, nofun⟩

/-- A tree is written with an indent, and with nothing else. -/
theorem Tree.write_ok_iff {t : Tree} {indent : Value} :
    (∃ text, t.write indent = .ok text) ↔ indent.IsIndent := by
  rw [← Json.Layout.ofIndent_ok_iff]
  constructor
  · rintro ⟨text, write⟩
    obtain ⟨layout, known, -⟩ := write_eq_ok.mp write
    exact ⟨layout, known⟩
  · rintro ⟨layout, known⟩
    exact ⟨_, write_eq_ok.mpr ⟨layout, known, rfl⟩⟩

/-- A tree is read from the text that it was written as, if its indexes are short enough. -/
theorem Tree.read_of_write {t : Tree} (h : t.size ≤ 10 ^ Decimal.digitLimit) {indent : Value}
    {text : String} (write : t.write indent = .ok text) : Tree.read text = .ok t := by
  have short : ∀ e ∈ (Document.ofTree t).entries, ∀ i ∈ Document.references e,
      Decimal.digitCount i ≤ Decimal.digitLimit := by
    intro e he i hi
    have bounds := Document.references_listed 0 t e he i hi
    exact (Nat.length_toDigits_le_iff (by decide) (by decide)).mpr (by omega)
  obtain ⟨layout, -, rfl⟩ := write_eq_ok.mp write
  have document : Document.ofText ((Document.ofTree t).toJson.write layout) =
      .ok (Document.ofTree t) := by
    rw [Document.ofText, Json.read?_write (Document.readable_toJson short)]
    exact Document.ofJson_toJson _
  rw [Tree.read, document]
  exact Document.toTree_ofTree t

theorem Value.writeTree_toValue (t : Tree) (indent : Value) :
    t.toValue.writeTree indent = t.write indent := by
  rw [writeTree, Tree.toTree_toValue]
  rfl

theorem Value.readTree_writeTree {t : Tree} (h : t.size ≤ 10 ^ Decimal.digitLimit)
    {indent : Value} (hi : indent.IsIndent) :
    ∃ text, t.toValue.writeTree indent = .ok text ∧ Value.readTree text = .ok t.toValue := by
  obtain ⟨text, write⟩ := Tree.write_ok_iff.mpr hi
  refine ⟨text, (writeTree_toValue t indent).trans write, ?_⟩
  rw [readTree_eq, Tree.read_of_write h write]
  rfl

/-- A text is read from its bytes as it is read itself. -/
theorem Document.ofBytes_toUTF8 (s : String) : ofBytes s.toUTF8 = ofText s := by
  have decoded : String.fromUTF8? s.toUTF8 = some s := by
    rw [String.toUTF8_eq_toByteArray, String.fromUTF8?, dif_pos s.isValidUTF8]
    rfl
  rw [ofBytes, decoded]

/-- Any tree that is written with an indent can be read back, from the text and from its bytes,
whatever its texts, tags and child counts. Only the indexes of its nodes have to be within the
digits that a number may have; no list is so long that they would not be. -/
theorem Tree.read_back {t : Tree} (h : t.size ≤ 10 ^ Decimal.digitLimit) {indent : Value}
    (hi : indent.IsIndent) :
    ∃ text, t.toValue.writeTree indent = .ok text ∧ Tree.read text = .ok t ∧
      Tree.readBytes text.toUTF8 = .ok t := by
  obtain ⟨text, write⟩ := Tree.write_ok_iff.mpr hi
  have read : Tree.read text = .ok t := Tree.read_of_write h write
  refine ⟨text, (Value.writeTree_toValue t indent).trans write, read, ?_⟩
  rw [Tree.readBytes, Document.ofBytes_toUTF8]
  exact read

theorem Tree.read_back_of_quoted :
    let t : Tree := .node "\"\\" [.leaf "", .node "\n" [.leaf "\u0001é"]]
    ∃ text, t.toValue.writeTree (.int 0) = .ok text ∧ Tree.read text = .ok t ∧
      Tree.readBytes text.toUTF8 = .ok t := by
  intro t
  have size : t.size ≤ 10 ^ Decimal.digitLimit :=
    Nat.le_trans (show 4 ≤ 10 ^ 1 by decide) (Nat.pow_le_pow_right (by decide) (by decide))
  have indent : (Value.int 0).IsIndent := .inr ⟨0, Nat.zero_le _, rfl⟩
  exact Tree.read_back size indent

/-- An indent of `2 ^ 64` blanks, one more than the greatest count, is refused, so there is no text
to be read. -/
theorem Tree.unwritten_of_huge_indent :
    let t : Tree := .leaf "x"
    t.toValue.writeTree (.int 0x10000000000000000) = .error (.misuse .hugeIndent) ∧
    ¬ ∀ (t : Tree) (n : Nat), t.size ≤ 10 ^ Decimal.digitLimit →
      ∃ text, t.toValue.writeTree (.int n) = .ok text ∧ Tree.read text = .ok t := by
  intro t
  have refused : t.toValue.writeTree (.int 0x10000000000000000) = .error (.misuse .hugeIndent) := by
    rfl
  refine ⟨refused, ?_⟩
  intro all
  have size : t.size ≤ 10 ^ Decimal.digitLimit := Nat.one_le_pow _ _ (by decide)
  obtain ⟨text, write, -⟩ := all t 0x10000000000000000 size
  cases refused.symm.trans write

end Symantics
