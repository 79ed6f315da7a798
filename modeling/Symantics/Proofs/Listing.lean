import Mathlib.Data.List.Induction
import Mathlib.Logic.Relation
import Symantics.Proofs.Documents

/-
  Which documents are the list of a tree.

  A tree can be listed without recursion, with a stack of what is still to be listed
  and a stack of the indexes that no node has taken yet; that gives the document of
  the tree (`listing_ofTree`). Read from left to right, a document keeps such a stack
  itself: an entry takes its children from the top of it and leaves its own index
  there. The documents that do so throughout, with one index left at the end, are
  those of trees (`postOrder_iff`); in the others entries are shared, left out or out
  of order, though they may be unfolded all the same.
-/
namespace Symantics

namespace Document

/-! ## Listing with two stacks -/

/-- A listing under way: the trees still to be listed, next first, each with whether its children
have been; the indexes that no entry has taken, latest last; and the entries. -/
structure Listing where
  pending : List (Tree × Bool)
  untaken : List Int
  entries : List Entry

namespace Listing

/-- One turn of the listing, unless there is nothing left to list. A node waits for its children
and then takes as many indexes as it has. -/
def step : Listing → Option Listing
  | ⟨[], _, _⟩ => none
  | ⟨(.leaf text, _) :: pending, untaken, entries⟩ =>
    some ⟨pending, untaken ++ [(entries.length : Int)], entries ++ [.leaf text]⟩
  | ⟨(.node tag children, false) :: pending, untaken, entries⟩ =>
    some ⟨children.map (·, false) ++ (.node tag children, true) :: pending, untaken, entries⟩
  | ⟨(.node tag children, true) :: pending, untaken, entries⟩ =>
    let split := untaken.length - children.length
    some ⟨pending, untaken.take split ++ [(entries.length : Int)],
      entries ++ [.node tag (untaken.drop split)]⟩

/-- The listing of one tree before its first turn. -/
def start (t : Tree) : Listing := ⟨[(t, false)], [], []⟩

/-- The turns lead from one state of a listing to another. -/
def Leads : Listing → Listing → Prop := Relation.ReflTransGen fun a b => a.step = some b

end Listing

/-- The index of a tree's root when the tree is listed from `first` on. -/
def rootIndex (first : Nat) (t : Tree) : Int := (first + t.size - 1 : Nat)

theorem listedAll_cons (first : Nat) (t : Tree) (ts : List Tree) :
    listedAll first (t :: ts) =
      ((listed first t).entries ++ (listedAll (first + t.size) ts).1,
        rootIndex first t :: (listedAll (first + t.size) ts).2) := by
  rw [listedAll, length_listed, rootIndex]

theorem entries_listed_node (first : Nat) (tag : String) (ts : List Tree) :
    (listed first (.node tag ts)).entries =
      (listedAll first ts).1 ++ [.node tag (listedAll first ts).2] := rfl

theorem length_indexes (first : Nat) (ts : List Tree) :
    (listedAll first ts).2.length = ts.length := by
  induction ts generalizing first with
  | nil => rfl
  | cons t ts ih => rw [listedAll_cons, List.length_cons, ih, List.length_cons]

mutual

/-- Turn by turn, a tree on top of the stack is listed as its document from the next index on, and
only its root is left untaken. -/
theorem leads_listed : ∀ (t : Tree) (pending : List (Tree × Bool)) (untaken : List Int)
    (entries : List Entry), Listing.Leads ⟨(t, false) :: pending, untaken, entries⟩
      ⟨pending, untaken ++ [rootIndex entries.length t],
        entries ++ (listed entries.length t).entries⟩
  | .leaf text, pending, untaken, entries => .single rfl
  | .node tag ts, pending, untaken, entries => by
    have children := leads_listedAll ts ((.node tag ts, true) :: pending) untaken entries
    refine .head rfl (children.tail ?_)
    -- the indexes on top are those of the children
    have split : (untaken ++ (listedAll entries.length ts).2).length - ts.length =
        untaken.length := by
      rw [List.length_append, length_indexes, Nat.add_sub_cancel]
    have root : ((entries ++ (listedAll entries.length ts).1).length : Int) =
        rootIndex entries.length (.node tag ts) := by
      rw [List.length_append, length_listedAll, rootIndex, Tree.size]
      omega
    simp only [Listing.step, split, root, List.take_left, List.drop_left, entries_listed_node,
      List.append_assoc]

theorem leads_listedAll : ∀ (ts : List Tree) (pending : List (Tree × Bool)) (untaken : List Int)
    (entries : List Entry), Listing.Leads ⟨ts.map (·, false) ++ pending, untaken, entries⟩
      ⟨pending, untaken ++ (listedAll entries.length ts).2,
        entries ++ (listedAll entries.length ts).1⟩
  | [], pending, untaken, entries => by
    simp only [listedAll, List.map_nil, List.nil_append, List.append_nil]
    exact .refl
  | t :: ts, pending, untaken, entries => by
    have first := leads_listed t (ts.map (·, false) ++ pending) untaken entries
    have others := leads_listedAll ts pending (untaken ++ [rootIndex entries.length t])
      (entries ++ (listed entries.length t).entries)
    rw [List.length_append, length_listed] at others
    rw [listedAll_cons]
    simp only [List.append_assoc, List.singleton_append] at others
    exact first.trans others

end

/-- The listing of a tree ends with the entries of its document, and its root untaken. -/
theorem listing_ofTree (t : Tree) :
    Listing.Leads (.start t) ⟨[], [rootIndex 0 t], (ofTree t).entries⟩ :=
  leads_listed t [] [] []

/-! ## The discipline of the stack -/

/-- The untaken indexes after the entry at an index, if its children are the last of those before
it, in their order. -/
def take (index : Nat) (untaken : List Int) (e : Entry) : Option (List Int) :=
  if references e <:+ untaken then
    some (untaken.take (untaken.length - (references e).length) ++ [(index : Int)])
  else none

/-- The untaken indexes after some entries, the first of which stands at `next`. -/
def takeAll (next : Nat) (untaken : List Int) : List Entry → Option (List Int)
  | [] => some untaken
  | e :: es => (take next untaken e).bind fun untaken => takeAll (next + 1) untaken es

/-- Every entry takes the last untaken indexes for its children, and in the end only that of the
last entry is untaken. -/
def PostOrder (d : Document) : Prop :=
  takeAll 0 [] d.entries = some [(d.earlier.length : Int)]

instance (d : Document) : Decidable d.PostOrder :=
  inferInstanceAs (Decidable (takeAll 0 [] d.entries = some [(d.earlier.length : Int)]))

theorem take_eq_some {index : Nat} {untaken after : List Int} {e : Entry} :
    take index untaken e = some after ↔
      ∃ below, untaken = below ++ references e ∧ after = below ++ [(index : Int)] := by
  unfold take
  constructor
  · intro h
    split at h
    · next top =>
      obtain ⟨below, rfl⟩ := top
      rw [List.length_append, Nat.add_sub_cancel, List.take_left] at h
      exact ⟨below, rfl, (Option.some.inj h).symm⟩
    · cases h
  · intro h
    obtain ⟨below, rfl, rfl⟩ := h
    rw [if_pos (List.suffix_append _ _), List.length_append, Nat.add_sub_cancel, List.take_left]

theorem takeAll_append (next : Nat) (untaken : List Int) (es fs : List Entry) :
    takeAll next untaken (es ++ fs) =
      (takeAll next untaken es).bind fun untaken => takeAll (next + es.length) untaken fs := by
  induction es generalizing next untaken with
  | nil => rfl
  | cons e es ih =>
    rw [List.cons_append, takeAll, takeAll, Option.bind_assoc]
    simp only [ih, List.length_cons, Nat.add_assoc, Nat.add_comm 1]

mutual

/-- A tree leaves only the index of its root untaken. -/
theorem takeAll_listed : ∀ (first : Nat) (t : Tree) (untaken : List Int),
    takeAll first untaken (listed first t).entries = some (untaken ++ [rootIndex first t])
  | first, .leaf text, untaken => by
    have leaf : take first untaken (.leaf text) = some (untaken ++ [(first : Int)]) :=
      take_eq_some.mpr ⟨untaken, (List.append_nil untaken).symm, rfl⟩
    show (take first untaken (.leaf text)).bind _ = _
    rw [leaf]
    rfl
  | first, .node tag ts, untaken => by
    have root : ((first + (listedAll first ts).1.length : Nat) : Int) =
        rootIndex first (.node tag ts) := by
      rw [length_listedAll, rootIndex, Tree.size]
      omega
    have node : take (first + (listedAll first ts).1.length) (untaken ++ (listedAll first ts).2)
        (.node tag (listedAll first ts).2) = some (untaken ++ [rootIndex first (.node tag ts)]) :=
      take_eq_some.mpr ⟨untaken, rfl, by rw [root]⟩
    rw [entries_listed_node, takeAll_append, takeAll_listedAll first ts untaken, Option.bind_some,
      takeAll, node]
    rfl

theorem takeAll_listedAll : ∀ (first : Nat) (ts : List Tree) (untaken : List Int),
    takeAll first untaken (listedAll first ts).1 = some (untaken ++ (listedAll first ts).2)
  | first, [], untaken => by rw [listedAll, takeAll, List.append_nil]
  | first, t :: ts, untaken => by
    rw [listedAll_cons, takeAll_append, takeAll_listed first t untaken, Option.bind_some,
      length_listed, takeAll_listedAll (first + t.size) ts, List.append_assoc,
      List.singleton_append]

end

/-! ## Documents in post-order -/

theorem listedAll_append (first : Nat) (ts us : List Tree) :
    listedAll first (ts ++ us) =
      ((listedAll first ts).1 ++ (listedAll (first + Tree.sizes ts) us).1,
        (listedAll first ts).2 ++ (listedAll (first + Tree.sizes ts) us).2) := by
  induction ts generalizing first with
  | nil => rfl
  | cons t ts ih =>
    rw [List.cons_append, listedAll_cons, listedAll_cons, ih, Tree.sizes, List.append_assoc,
      Nat.add_assoc]
    rfl

/-- An entry over trees whose roots it refers to is the root of a tree over them. -/
theorem exists_listed {first : Nat} {ts : List Tree} {e : Entry}
    (h : (listedAll first ts).2 = references e) :
    ∃ t, (listed first t).entries = (listedAll first ts).1 ++ [e] := by
  cases e with
  | leaf text =>
    have none : ts = [] := by
      apply List.eq_nil_of_length_eq_zero
      rw [← length_indexes first ts, h]
      rfl
    subst none
    exact ⟨.leaf text, rfl⟩
  | node tag children =>
    obtain rfl : (listedAll first ts).2 = children := h
    exact ⟨.node tag ts, entries_listed_node first tag ts⟩

/-- Entries that keep the discipline of the stack list some trees, whose roots are untaken. -/
theorem exists_listedAll {es : List Entry} {untaken : List Int}
    (h : takeAll 0 [] es = some untaken) : ∃ ts, listedAll 0 ts = (es, untaken) := by
  -- on the last entry: it stands over the last of the trees that are listed before it
  induction es using List.reverseRecOn generalizing untaken with
  | nil => exact ⟨[], by rw [listedAll, Option.some.inj h]⟩
  | append_singleton es e ih =>
    rw [takeAll_append, Option.bind_eq_some_iff] at h
    obtain ⟨before, hb, h⟩ := h
    rw [takeAll, Option.bind_eq_some_iff] at h
    obtain ⟨after, he, ha⟩ := h
    obtain ⟨below, rfl, rfl⟩ := take_eq_some.mp he
    obtain rfl : below ++ [((0 + es.length : Nat) : Int)] = untaken := Option.some.inj ha
    obtain ⟨us, hu⟩ := ih hb
    -- the trees below the entry, and those that stay untaken
    obtain ⟨ts, vs, rfl, ht⟩ : ∃ ts vs, us = ts ++ vs ∧ ts.length = below.length := by
      have length := length_indexes 0 us
      rw [hu, List.length_append] at length
      refine ⟨us.take below.length, us.drop below.length, (List.take_append_drop _ _).symm, ?_⟩
      rw [List.length_take]
      omega
    rw [listedAll_append, Prod.mk.injEq] at hu
    obtain ⟨rfl, hi⟩ := hu
    obtain ⟨rfl, children⟩ := List.append_inj hi (by rw [length_indexes, ht])
    obtain ⟨t, hl⟩ := exists_listed children
    refine ⟨ts ++ [t], ?_⟩
    have size : t.size = (listedAll (0 + Tree.sizes ts) vs).1.length + 1 := by
      rw [← length_listed (0 + Tree.sizes ts) t, hl, List.length_append]
      rfl
    have root : rootIndex (0 + Tree.sizes ts) t = ((0 + ((listedAll 0 ts).1 ++
        (listedAll (0 + Tree.sizes ts) vs).1).length : Nat) : Int) := by
      rw [rootIndex, size, List.length_append, length_listedAll 0 ts]
      omega
    rw [listedAll_append, listedAll_cons, listedAll, hl, List.append_nil, root, List.append_assoc]

/-- The documents in post-order are those of trees. -/
theorem postOrder_iff {d : Document} : d.PostOrder ↔ ∃ t, ofTree t = d := by
  constructor
  · intro h
    obtain ⟨ts, hl⟩ := exists_listedAll h
    have one := length_indexes 0 ts
    rw [hl] at one
    obtain ⟨t, rfl⟩ := List.length_eq_one_iff.mp one.symm
    refine ⟨t, ?_⟩
    rw [listedAll_cons, listedAll, List.append_nil, Prod.mk.injEq] at hl
    obtain ⟨earlier, last⟩ := List.append_inj' hl.1 rfl
    obtain ⟨es, e⟩ := d
    obtain rfl : (ofTree t).earlier = es := earlier
    obtain rfl : (ofTree t).last = e := (List.cons.inj last).1
    rfl
  · intro h
    obtain ⟨t, rfl⟩ := h
    have root : ((ofTree t).earlier.length : Int) = rootIndex 0 t := by
      have length := length_listed 0 t
      rw [entries, List.length_append] at length
      have one : [(listed 0 t).last].length = 1 := rfl
      rw [rootIndex, ← length, one]
      show _ = ((0 + ((listed 0 t).earlier.length + 1) - 1 : Nat) : Int)
      rw [Nat.zero_add, Nat.add_sub_cancel]
      rfl
    rw [PostOrder, root]
    exact takeAll_listed 0 t []

/-- A tree is unfolded from the document that it is listed as, and the document that a tree is
unfolded from is the one that the tree is listed as exactly if it is in post-order. -/
theorem listing_exact :
    (∀ t, Listing.Leads (.start t) ⟨[], [rootIndex 0 t], (ofTree t).entries⟩ ∧
      (ofTree t).toTree = .ok t) ∧
    ∀ d t, d.toTree = .ok t → (ofTree t = d ↔ d.PostOrder) := by
  refine ⟨fun t => ⟨listing_ofTree t, toTree_ofTree t⟩, ?_⟩
  intro d t hd
  constructor
  · intro h
    exact postOrder_iff.mpr ⟨t, h⟩
  · intro h
    obtain ⟨t', rfl⟩ := postOrder_iff.mp h
    obtain rfl : t' = t := Except.ok.inj ((toTree_ofTree t').symm.trans hd)
    rfl

theorem listing_exact_of_shared :
    let shared : Document := ⟨[.leaf "a"], .node "Add" [0, 0]⟩
    let t : Tree := .node "Add" [.leaf "a", .leaf "a"]
    shared.toTree = .ok t ∧ ofTree t ≠ shared := by
  intro shared t
  have accepted : shared.toTree = .ok t := rfl
  refine ⟨accepted, ?_⟩
  intro h
  exact absurd ((listing_exact.2 shared t accepted).mp h) (by decide)

end Document

end Symantics
