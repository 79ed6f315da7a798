import Symantics.Proofs.Rendering

/-
  The outline of a tree.

  `Tree.chars` is what an outline is made of: a leaf is its text, and a node puts its
  tag and its children, a blank before each, in parentheses. Every tree of texts has an
  outline (`outline_toValue`).

  Where no text and no tag holds a blank or a parenthesis, a name goes on until the next
  of these, even an empty one, and so an outline says where it ends: for one tree this is
  `Tree.chars_append_inj`, for the children of a node, which end at the parenthesis that
  closes it, `Tree.charsAll_append_inj`. So two trees of such names have different outlines,
  and with them the trees that are built from two expressions (`outline_unambiguous`).
-/
namespace Symantics

namespace Tree

mutual

/-- The characters of a tree in parentheses. -/
def chars : Tree → List Char
  | leaf text => text.toList
  | node tag children => '(' :: (tag.toList ++ (charsAll children ++ [')']))

/-- The characters of children, with a blank before each. -/
def charsAll : List Tree → List Char
  | [] => []
  | t :: ts => ' ' :: (chars t ++ charsAll ts)

end

def outline (t : Tree) : String := String.ofList t.chars

mutual

/-- The texts and tags of a tree. -/
def names : Tree → List String
  | leaf text => [text]
  | node tag children => tag :: namesAll children

def namesAll : List Tree → List String
  | [] => []
  | t :: ts => names t ++ namesAll ts

end

end Tree

/-! ## Every tree of texts has an outline -/

namespace Value

theorem joined_texts (ss : List String) : joined (ss.map text) = .ok (" ".intercalate ss) := by
  have texts : ∀ index, joined.texts index (ss.map text) = .ok ss := by
    induction ss with
    | nil => exact fun _ => rfl
    | cons s ss ih =>
      intro index
      rw [List.map_cons, joined.texts, ih]
      rfl
  rw [joined, texts]
  rfl

end Value

namespace Tree

/-- Outlines with a blank between each two. -/
theorem intercalate_outlines (t : Tree) (ts : List Tree) :
    " ".intercalate ((t :: ts).map outline) = String.ofList (t.chars ++ charsAll ts) := by
  induction ts generalizing t with
  | nil =>
    rw [charsAll, List.append_nil]
    exact String.intercalate_singleton
  | cons u ts ih =>
    rw [List.map_cons, List.map_cons, String.intercalate_cons_cons, ← List.map_cons, ih]
    apply String.toList_inj.mp
    simp [outline, charsAll]

mutual

/-- The outline of a tree of texts is a text. -/
theorem outline_toValue : ∀ t : Tree, t.toValue.outline = .ok (.text t.outline)
  | .leaf text => by
    rw [toValue, Value.outline, outline, chars, String.ofList_toList]
  | .node tag [] => by
    show Except.ok (Value.text ("(" ++ tag ++ ")")) = _
    congr 2
    apply String.toList_inj.mp
    simp [outline, chars, charsAll]
  | .node tag (t :: ts) => by
    have inner : Value.joined ((t :: ts).map fun t => Value.text t.outline) =
        .ok (String.ofList (t.chars ++ charsAll ts)) := by
      rw [← intercalate_outlines, ← Value.joined_texts, List.map_map]
      rfl
    rw [toValue, toValues, Value.outline, outline_toValue t, outlines_toValues ts]
    show (Value.joined ((t :: ts).map fun t => Value.text t.outline) >>= _) = _
    rw [inner]
    show Except.ok (Value.text ("(" ++ tag ++ " " ++ _ ++ ")")) = _
    congr 2
    apply String.toList_inj.mp
    simp [outline, chars, charsAll]

theorem outlines_toValues : ∀ ts : List Tree,
    Value.outlines (toValues ts) = .ok (ts.map fun t => .text t.outline)
  | [] => rfl
  | t :: ts => by
    rw [toValues, Value.outlines, outline_toValue t, outlines_toValues ts]
    rfl

end

end Tree

/-! ## Where an outline ends -/

namespace Tree

/-- A blank or a parenthesis. -/
def isDelimiter (c : Char) : Bool := c == ' ' || c == '(' || c == ')'

/-- The names hold no blank and no parenthesis. -/
def Undelimited (names : List String) : Prop :=
  ∀ s ∈ names, ∀ c ∈ s.toList, isDelimiter c = false

instance {names : List String} : Decidable (Undelimited names) :=
  decidable_of_iff (names.all fun s => s.toList.all fun c => !isDelimiter c)
    (by simp [Undelimited])

/-- What may stand behind a name or a tree: nothing that goes on with it or opens another. -/
def Closes (cs : List Char) : Prop := ∀ c ∈ cs.head?, c = ' ' ∨ c = ')'

theorem closes_nil : Closes [] := by
  intro c hc
  cases hc

theorem closes_closing (cs : List Char) : Closes (')' :: cs) := by
  intro c hc
  exact .inr (Option.some.inj hc).symm

/-- Behind a tag and behind a child the other children follow, or the node is closed. -/
theorem closes_charsAll (ts : List Tree) (cs : List Char) :
    Closes (charsAll ts ++ ')' :: cs) := by
  cases ts with
  | nil => exact closes_closing cs
  | cons t ts =>
    intro c hc
    exact .inl (Option.some.inj hc).symm

section

variable {s s' : String} {ss : List String} {x y : List Char}

/-- A name goes on until what closes it. -/
theorem name_append_inj {ss' : List String} (hs : Undelimited (s :: ss))
    (hs' : Undelimited (s' :: ss')) (hx : Closes x) (hy : Closes y)
    (h : s.toList ++ x = s'.toList ++ y) : s = s' ∧ x = y := by
  have plain : ∀ {s : String} {ss : List String}, Undelimited (s :: ss) →
      ∀ c ∈ s.toList, (!isDelimiter c) = true := by
    intro s ss hs c hc
    rw [hs s List.mem_cons_self c hc]
    rfl
  have ends : ∀ {z : List Char}, Closes z → ∀ c ∈ z.head?, (!isDelimiter c) = false := by
    intro z hz c hc
    rcases hz c hc with rfl | rfl <;> rfl
  obtain ⟨same, rest⟩ := word_append_inj (plain hs) (plain hs') (ends hx) (ends hy) h
  exact ⟨String.toList_inj.mp same, rest⟩

/-- No name is written like the beginning of a node. -/
theorem name_ne_opening (hs : Undelimited (s :: ss)) (hx : Closes x) :
    s.toList ++ x ≠ '(' :: y := by
  intro h
  cases hc : s.toList with
  | nil =>
    -- the name is empty, and what closes it opens nothing
    rw [hc, List.nil_append] at h
    rcases hx '(' (h ▸ rfl) with h | h <;> exact absurd h (by decide)
  | cons c cs =>
    rw [hc] at h
    obtain ⟨rfl, -⟩ := List.cons.inj h
    have delimiter := hs s List.mem_cons_self '(' (hc ▸ List.mem_cons_self)
    exact absurd delimiter (by decide)

end

mutual

/-- Two trees that are written alike up to what closes them are the same. -/
theorem chars_append_inj : ∀ {t u : Tree} {x y : List Char}, Undelimited t.names →
    Undelimited u.names → Closes x → Closes y → t.chars ++ x = u.chars ++ y → t = u ∧ x = y
  | .leaf s, .leaf s', x, y, ht, hu, hx, hy, h => by
    obtain ⟨rfl, rest⟩ := name_append_inj ht hu hx hy h
    exact ⟨rfl, rest⟩
  | .leaf s, .node tag us, x, y, ht, _, hx, _, h => absurd h (name_ne_opening ht hx)
  | .node tag ts, .leaf s, x, y, _, hu, _, hy, h => absurd h.symm (name_ne_opening hu hy)
  | .node tag ts, .node tag' us, x, y, ht, hu, _, _, h => by
    simp only [chars, List.cons_append, List.nil_append, List.append_assoc, List.cons.injEq,
      true_and] at h
    obtain ⟨rfl, children⟩ :=
      name_append_inj ht hu (closes_charsAll ts x) (closes_charsAll us y) h
    obtain ⟨rfl, rest⟩ :=
      charsAll_append_inj (List.forall_mem_cons.mp ht).2 (List.forall_mem_cons.mp hu).2 children
    exact ⟨rfl, rest⟩

/-- The children of a node end where the node is closed. -/
theorem charsAll_append_inj : ∀ {ts us : List Tree} {x y : List Char},
    Undelimited (namesAll ts) → Undelimited (namesAll us) →
    charsAll ts ++ ')' :: x = charsAll us ++ ')' :: y → ts = us ∧ x = y
  | [], [], x, y, _, _, h => ⟨rfl, (List.cons.inj h).2⟩
  | [], u :: us, x, y, _, _, h => absurd (List.cons.inj h).1 (by decide)
  | t :: ts, [], x, y, _, _, h => absurd (List.cons.inj h).1 (by decide)
  | t :: ts, u :: us, x, y, ht, hu, h => by
    simp only [charsAll, List.cons_append, List.append_assoc, List.cons.injEq, true_and] at h
    obtain ⟨first, others⟩ := List.forall_mem_append.mp ht
    obtain ⟨first', others'⟩ := List.forall_mem_append.mp hu
    obtain ⟨rfl, rest⟩ :=
      chars_append_inj first first' (closes_charsAll ts x) (closes_charsAll us y) h
    obtain ⟨rfl, last⟩ := charsAll_append_inj others others' rest
    exact ⟨rfl, last⟩

end

theorem outline_injective {t u : Tree} (ht : Undelimited t.names) (hu : Undelimited u.names)
    (h : t.outline = u.outline) : t = u := by
  have same : t.chars ++ [] = u.chars ++ [] := by
    rw [List.append_nil, List.append_nil]
    exact String.ofList_injective h
  exact (chars_append_inj ht hu closes_nil closes_nil same).1

end Tree

/-! ## The trees of expressions -/

namespace Tree

theorem undelimited_namesAll {ts : List Tree} (h : ∀ t ∈ ts, Undelimited t.names) :
    Undelimited (namesAll ts) := by
  induction ts with
  | nil =>
    intro s hs
    cases hs
  | cons t ts ih =>
    obtain ⟨first, others⟩ := List.forall_mem_cons.mp h
    exact List.forall_mem_append.mpr ⟨first, ih others⟩

theorem undelimited_tagged (t : Tag) {ts : List Tree} (h : ∀ u ∈ ts, Undelimited u.names) :
    Undelimited (node t.word ts).names := by
  have word : Undelimited [t.word] := by cases t <;> decide
  exact List.forall_mem_cons.mpr ⟨word t.word List.mem_cons_self, undelimited_namesAll h⟩

end Tree

/-- A number is written with digits and a sign. -/
theorem Decimal.undelimited_text (n : Int) : Tree.Undelimited [text n] := by
  intro s hs c hc
  obtain rfl := List.mem_singleton.mp hs
  rw [text, String.toList_ofList] at hc
  cases hd : Tree.isDelimiter c with
  | false => rfl
  | true =>
    simp only [Tree.isDelimiter, Bool.or_eq_true, beq_iff_eq] at hd
    rcases hd with (rfl | rfl) | rfl <;> exact absurd (mem_chars _ hc) (by decide)

namespace Exp

theorem undelimited_tree (e : Exp) : Tree.Undelimited e.tree.names := by
  induction e with
  | lit n =>
    have leaf : Tree.Undelimited (Tree.leaf (Decimal.text n)).names := Decimal.undelimited_text n
    exact Tree.undelimited_tagged .lit (by simpa using leaf)
  | neg e ih => exact Tree.undelimited_tagged .neg (by simpa using ih)
  | add l r ihl ihr => exact Tree.undelimited_tagged .add (by simpa using ⟨ihl, ihr⟩)
  | mul l r ihl ihr => exact Tree.undelimited_tagged .mul (by simpa using ⟨ihl, ihr⟩)
  | stray v => exact v.elim

/-- What the tree builder returns of an expression is the tree of the expression. -/
theorem tree_of_built {σ : Type} {e : Exp} {s : σ} {v : Value}
    (h : (Interp.treeBuilder .extended).outcome e.program s = .ok v) :
    e.fits = true ∧ v = e.tree.toValue := by
  rw [Interp.outcome, program, run_treeBuilder_eq fun _ => rfl] at h
  cases hf : e.fits with
  | true =>
    rw [hf] at h
    exact ⟨rfl, (Except.ok.inj h).symm⟩
  | false =>
    rw [hf] at h
    cases h

/-- A tree is built from one expression only. -/
theorem tree_injective {d e : Exp} (hd : d.fits = true) (he : e.fits = true)
    (h : d.tree = e.tree) : d = e := by
  let levels := max d.height e.height
  have left : Denotes .extended levels d.tree.toValue d :=
    denotes_tree hd (fun _ => rfl) (Nat.le_max_left _ _)
  have right : Denotes .extended levels e.tree.toValue e :=
    denotes_tree he (fun _ => rfl) (Nat.le_max_right _ _)
  rw [h] at left
  exact left.unique right

end Exp

/-- Every tree of texts has an outline, whatever its tags and child counts. Trees whose texts and
tags hold no blank and no parenthesis have the same outline only if they are the same tree; those
that are built from two expressions, only if the expressions are the same. -/
theorem outline_unambiguous :
    (∀ t : Tree, ∃ s, t.toValue.outline = .ok (.text s)) ∧
    (∀ t u : Tree, Tree.Undelimited t.names → Tree.Undelimited u.names →
      t.toValue.outline = u.toValue.outline → t = u) ∧
    (∀ (d e : Exp) {σ : Type} (s s' : σ) (v w : Value),
      (Interp.treeBuilder .extended).outcome d.program s = .ok v →
      (Interp.treeBuilder .extended).outcome e.program s' = .ok w →
      v.outline = w.outline → d = e) := by
  have trees : ∀ t u : Tree, Tree.Undelimited t.names → Tree.Undelimited u.names →
      t.toValue.outline = u.toValue.outline → t = u := by
    intro t u ht hu h
    rw [Tree.outline_toValue, Tree.outline_toValue] at h
    exact Tree.outline_injective ht hu (Value.text.inj (Except.ok.inj h))
  refine ⟨fun t => ⟨t.outline, t.outline_toValue⟩, trees, ?_⟩
  intro d e σ s s' v w hv hw h
  obtain ⟨hd, rfl⟩ := Exp.tree_of_built hv
  obtain ⟨he, rfl⟩ := Exp.tree_of_built hw
  exact Exp.tree_injective hd he (trees _ _ d.undelimited_tree e.undelimited_tree h)

/-- A leaf, a node without children and a node with one child are told apart, and so are a negative
number and the negation of a number. -/
theorem outline_unambiguous_of_one_name :
    let leaf : Tree := .leaf "a"
    let bare : Tree := .node "a" []
    let nested : Tree := .node "a" [leaf]
    let number : Exp := .lit (-7)
    let negation : Exp := .neg (.lit 7)
    let builder : Interp Unit := .treeBuilder .extended
    (Tree.Undelimited leaf.names ∧ Tree.Undelimited bare.names ∧ Tree.Undelimited nested.names) ∧
      leaf.toValue.outline ≠ bare.toValue.outline ∧
      bare.toValue.outline ≠ nested.toValue.outline ∧
      builder.outcome number.program () = .ok number.tree.toValue ∧
      builder.outcome negation.program () = .ok negation.tree.toValue ∧
      number.tree.toValue.outline ≠ negation.tree.toValue.outline := by
  intro leaf bare nested number negation builder
  have first : Tree.Undelimited leaf.names := by decide
  have second : Tree.Undelimited bare.names := by decide
  have third : Tree.Undelimited nested.names := by decide
  obtain ⟨-, trees, expressions⟩ := outline_unambiguous
  refine ⟨⟨first, second, third⟩, ?_, ?_, rfl, rfl, ?_⟩
  · intro h
    have same : leaf = bare := trees leaf bare first second h
    simp [leaf, bare] at same
  · intro h
    have same : bare = nested := trees bare nested second third h
    simp [bare, nested] at same
  · intro h
    have same : number = negation := expressions number negation () () _ _ rfl rfl h
    simp [number, negation] at same

/-- A blank in a name is not told from one between names. -/
example : (Tree.node "a" [.leaf "b"]).toValue.outline = (Tree.node "a b" []).toValue.outline := by
  rfl

end Symantics
