import Symantics.Decoder.Basic
import Symantics.Interp.TreeBuilder
import Symantics.Proofs.Replay

/-
  What a decoder takes a tree for.

  The decoder of a tier looks at one value at a time. `Value.shape` is what it finds
  there: a literal, an operation on some children, or a flaw. `Value.reading` looks at
  the children in turn and gives the expression that the tree stands for, with the
  failure of the flaw wherever there is one. Decoding a tree is replaying its reading
  (`decoding_eq_replay`), so what is true of replays is true of decoders.
-/
namespace Symantics

variable {σ : Type}

namespace Tier

/-- Whether a tag belongs to the tier. -/
def has : Tier → Tag → Bool
  | base, t => t.isBase
  | extended, _ => true

/-- The tag of the tier that a word is. -/
def tag? (tier : Tier) (word : String) : Option Tag := (Tag.ofWord? word).filter tier.has

def words : Tier → List String
  | base => ["Add", "Lit", "Neg"]
  | extended => ["Add", "Lit", "Mul", "Neg"]

def rules : Tier → Rules σ
  | base => Rules.base
  | extended => Rules.mul ++ Rules.base

/-- Decodes a tree with a new decoder of the tier. -/
def decoding (tier : Tier) (maxDepth : Int) (tree : Value) : Program σ := fun I => do
  let d ← .ofExcept (Decoder.ofTier tier maxDepth)
  d.decode tree I

end Tier

def Rule.ofTag : Tag → Rule σ
  | .lit => .lit
  | .neg => .neg
  | .add => .add
  | .mul => .mul

theorem Tier.has_lit (tier : Tier) : tier.has .lit = true := by cases tier <;> rfl

theorem Tier.has_neg (tier : Tier) : tier.has .neg = true := by cases tier <;> rfl

theorem Tier.has_add (tier : Tier) : tier.has .add = true := by cases tier <;> rfl

theorem Tier.tag?_word {tier : Tier} {t : Tag} (h : tier.has t = true) :
    tier.tag? t.word = some t := by
  simp [tag?, Tag.ofWord?_word, h]

theorem Tier.tag?_eq_some {tier : Tier} {word : String} {t : Tag} :
    tier.tag? word = some t ↔ word = t.word ∧ tier.has t = true := by
  constructor
  · intro h
    obtain ⟨hw, ht⟩ := Option.filter_eq_some_iff.mp h
    exact ⟨Tag.word_of_ofWord? hw, ht⟩
  · intro h
    obtain ⟨rfl, h⟩ := h
    exact tag?_word h

theorem Tier.mem_rules {tier : Tier} {p : String × Rule σ} (h : p ∈ (tier.rules : Rules σ)) :
    ∃ t, tier.has t = true ∧ p = (t.word, Rule.ofTag t) := by
  cases tier
  · simp only [rules, Rules.base, List.mem_cons, List.not_mem_nil, or_false] at h
    rcases h with rfl | rfl | rfl
    · exact ⟨.lit, rfl, rfl⟩
    · exact ⟨.neg, rfl, rfl⟩
    · exact ⟨.add, rfl, rfl⟩
  · simp only [rules, Rules.mul, Rules.base, List.cons_append, List.nil_append, List.mem_cons,
      List.not_mem_nil, or_false] at h
    rcases h with rfl | rfl | rfl | rfl
    · exact ⟨.mul, rfl, rfl⟩
    · exact ⟨.lit, rfl, rfl⟩
    · exact ⟨.neg, rfl, rfl⟩
    · exact ⟨.add, rfl, rfl⟩

/-- A table has the rule of every tag of the tier under its word, and no other. -/
theorem Tier.lookup_rules (tier : Tier) (word : String) :
    (tier.rules : Rules σ).lookup word = (tier.tag? word).map Rule.ofTag := by
  cases h : tier.tag? word with
  | some t =>
    obtain ⟨rfl, ht⟩ := tag?_eq_some.mp h
    cases tier <;> cases t <;> first | rfl | cases ht
  | none =>
    apply List.lookup_eq_none_iff.mpr
    intro p hp
    obtain ⟨t, ht, rfl⟩ := mem_rules hp
    apply bne_iff_ne.mpr
    intro hw
    rw [hw, tag?_word ht] at h
    cases h

/-- Of sorted words each comes before the next. -/
theorem pairwise_mergeSort (words : List String) :
    (words.mergeSort (· ≤ ·)).Pairwise (· ≤ ·) := by
  have trans : ∀ a b c : String, decide (a ≤ b) = true → decide (b ≤ c) = true →
      decide (a ≤ c) = true := by
    intro a b c hab hbc
    exact decide_eq_true (String.le_trans (of_decide_eq_true hab) (of_decide_eq_true hbc))
  have total : ∀ a b : String, (decide (a ≤ b) || decide (b ≤ a)) = true := by
    intro a b
    simpa using String.le_total a b
  simpa using List.pairwise_mergeSort trans total words

/-- Sorting words gives their one order in which each comes before the next. -/
theorem mergeSort_eq_of_sorted {words sorted : List String} (perm : words.Perm sorted)
    (h : sorted.Pairwise (· ≤ ·)) : words.mergeSort (· ≤ ·) = sorted :=
  List.Perm.eq_of_pairwise (fun _ _ _ _ => String.le_antisymm) (pairwise_mergeSort words) h
    ((List.mergeSort_perm words _).trans perm)

theorem Tier.tags_rules (tier : Tier) : (tier.rules : Rules σ).tags = tier.words := by
  cases tier
  · show ["Lit", "Neg", "Add"].eraseDups.mergeSort (· ≤ ·) = ["Add", "Lit", "Neg"]
    exact mergeSort_eq_of_sorted (by decide) (by decide)
  · show ["Mul", "Lit", "Neg", "Add"].eraseDups.mergeSort (· ≤ ·) = ["Add", "Lit", "Mul", "Neg"]
    exact mergeSort_eq_of_sorted (by decide) (by decide)

/-- The decoder of a tier at a depth that allows a node. -/
def Decoder.tiered (tier : Tier) (maxDepth : Nat) (h : 1 ≤ maxDepth) : Decoder σ :=
  ⟨tier.rules, maxDepth, h⟩

theorem Decoder.ofTier_eq (tier : Tier) {maxDepth : Nat} (h : 1 ≤ maxDepth) :
    (Decoder.ofTier tier maxDepth : Except Failure (Decoder σ)) = .ok (tiered tier maxDepth h) := by
  have h' : (1 : Int) ≤ maxDepth := by omega
  cases tier
  · simp only [ofTier, base, ofRules, dif_pos h', Int.toNat_natCast]
    rfl
  · simp only [ofTier, extended, base, ofRules, dif_pos h', Int.toNat_natCast]
    rfl

theorem Tier.decoding_eq (tier : Tier) {maxDepth : Nat} (h : 1 ≤ maxDepth) (tree : Value)
    (I : Interp σ) :
    tier.decoding maxDepth tree I = (Decoder.tiered tier maxDepth h).decode tree I := by
  simp only [decoding, Decoder.ofTier_eq tier h, Run.ofExcept_ok, pure_bind]

/-! ## One position -/

/-- What is wrong with a position: a defect of the tree, or a failure to show what is there. -/
abbrev Flaw := Except Failure Defect

/-- The failure that a flaw at a path is reported as. -/
def Flaw.failure (path : Path) : Flaw → Failure
  | .ok d => .fault (d.fault path)
  | .error e => e

/-- What a decoder finds at a position. -/
inductive Shape where
  | lit (n : Int)
  | neg (operand : Value)
  | add (left right : Value)
  | mul (left right : Value)
  | flawed (f : Flaw)

namespace Value

/-- The integer that the child of a literal holds. -/
def numeral : Value → Except Flaw Int
  | leaf (text s) => match Decimal.read s with
    | .ok n => .ok n
    | .error .tooLong => .error (.ok (.longLiteral s.length))
    | .error .malformed => .error ((Rule.offered (leaf (text s))).shown.map .invalidLiteral)
  | v => .error ((Rule.offered v).shown.map .invalidLiteral)

theorem numeral_of_not_text {v : Value} (h : ∀ s, v ≠ leaf (text s)) :
    v.numeral = .error ((Rule.offered v).shown.map .invalidLiteral) := by
  unfold numeral
  split
  · exact absurd rfl (h _)
  · rfl

/-- What the decoder of a tier finds where a value stands. -/
def shape (tier : Tier) : Value → Shape
  | leaf content => .flawed (content.shown.map .unexpectedLeaf)
  | node (text word) children => match tier.tag? word, children with
    | none, _ => .flawed (.ok (.unknownTag word (Text.quoted word) tier.words))
    | some .lit, [v] => match v.numeral with
      | .ok n => .lit n
      | .error f => .flawed f
    | some .neg, [v] => .neg v
    | some .add, [v, w] => .add v w
    | some .mul, [v, w] => .mul v w
    | some t, vs => .flawed (.ok (.wrongArity word t.arity vs.length))
  | node tag _ => .flawed (.ok (.tagNotText tag.kind))
  | v => .flawed (.ok (.notTree v.kind))

/-- What the shape of a value says about the value. -/
inductive Shaped (tier : Tier) : Value → Shape → Prop where
  | leaf (content : Value) :
      Shaped tier (leaf content) (.flawed (content.shown.map .unexpectedLeaf))
  | notTree {v : Value} (hl : ∀ content, v ≠ leaf content)
      (hn : ∀ tag children, v ≠ node tag children) :
      Shaped tier v (.flawed (.ok (.notTree v.kind)))
  | tagNotText {tag : Value} (children : List Value) (ht : ∀ word, tag ≠ text word) :
      Shaped tier (node tag children) (.flawed (.ok (.tagNotText tag.kind)))
  | unknownTag {word : String} (children : List Value) (hw : tier.tag? word = none) :
      Shaped tier (node (text word) children)
        (.flawed (.ok (.unknownTag word (Text.quoted word) tier.words)))
  | wrongArity {t : Tag} {children : List Value} (ht : tier.has t = true)
      (hc : children.length ≠ t.arity) :
      Shaped tier (Interp.tagged t children)
        (.flawed (.ok (.wrongArity t.word t.arity children.length)))
  | badLit {v : Value} {f : Flaw} (hv : v.numeral = .error f) :
      Shaped tier (Interp.tagged .lit [v]) (.flawed f)
  | lit {v : Value} {n : Int} (hv : v.numeral = .ok n) :
      Shaped tier (Interp.tagged .lit [v]) (.lit n)
  | neg (c : Value) : Shaped tier (Interp.tagged .neg [c]) (.neg c)
  | add (l r : Value) : Shaped tier (Interp.tagged .add [l, r]) (.add l r)
  | mul (l r : Value) (ht : tier = .extended) : Shaped tier (Interp.tagged .mul [l, r]) (.mul l r)

/-- A node with a tag of the tier is shaped by its tag and the number of its children. -/
theorem shaped_tagged {tier : Tier} {t : Tag} (ht : tier.has t = true) (children : List Value) :
    Shaped tier (Interp.tagged t children) ((Interp.tagged t children).shape tier) := by
  simp only [Interp.tagged, shape, Tier.tag?_word ht]
  match t, children with
  | .lit, [v] =>
    cases hv : v.numeral with
    | ok n =>
      simp only [hv]
      exact .lit hv
    | error f =>
      simp only [hv]
      exact .badLit hv
  | .neg, [v] => exact .neg v
  | .add, [v, w] => exact .add v w
  | .mul, [v, w] =>
    apply Shaped.mul v w
    cases tier
    · cases ht
    · rfl
  | .lit, [] | .lit, _ :: _ :: _ => exact .wrongArity ht (by simp [Tag.arity])
  | .neg, [] | .neg, _ :: _ :: _ => exact .wrongArity ht (by simp [Tag.arity])
  | .add, [] | .add, [_] | .add, _ :: _ :: _ :: _ => exact .wrongArity ht (by simp [Tag.arity])
  | .mul, [] | .mul, [_] | .mul, _ :: _ :: _ :: _ => exact .wrongArity ht (by simp [Tag.arity])

theorem shaped_shape (tier : Tier) (v : Value) : Shaped tier v (v.shape tier) := by
  cases v with
  | leaf content => exact .leaf content
  | node tag children =>
    cases tag with
    | text word =>
      cases h : tier.tag? word with
      | none => simpa only [shape, h] using Shaped.unknownTag children h
      | some t =>
        obtain ⟨rfl, ht⟩ := Tier.tag?_eq_some.mp h
        exact shaped_tagged ht children
    | _ => exact .tagNotText _ (by simp)
  | _ => exact .notTree (by simp) (by simp)

theorem shape_of_shaped {tier : Tier} {v : Value} {s : Shape} (h : Shaped tier v s) :
    v.shape tier = s := by
  cases h with
  | leaf content => rfl
  | notTree hl hn =>
    cases v with
    | leaf content => exact absurd rfl (hl content)
    | node tag children => exact absurd rfl (hn tag children)
    | _ => rfl
  | @tagNotText tag children ht =>
    cases tag with
    | text word => exact absurd rfl (ht word)
    | _ => rfl
  | unknownTag children hw => simp only [shape, hw]
  | @wrongArity t children ht hc =>
    simp only [Interp.tagged, shape, Tier.tag?_word ht]
    split <;> simp_all [Tag.arity]
  | badLit hv => simp only [Interp.tagged, shape, Tier.tag?_word tier.has_lit, hv]
  | lit hv => simp only [Interp.tagged, shape, Tier.tag?_word tier.has_lit, hv]
  | neg c => simp only [Interp.tagged, shape, Tier.tag?_word tier.has_neg]
  | add l r => simp only [Interp.tagged, shape, Tier.tag?_word tier.has_add]
  | mul l r ht =>
    have has : tier.has .mul = true := by rw [ht]; rfl
    simp only [Interp.tagged, shape, Tier.tag?_word has]

/-- The expression that the decoder of a tier takes a value for, at a path with so many levels
left; `limit` is the depth at which the levels ran out. -/
def reading (tier : Tier) (limit : Nat) : Nat → Path → Value → Exp Failure
  | 0, path, _ => .stray (Flaw.failure path (.ok (.tooDeep limit)))
  | levels + 1, path, v => match v.shape tier with
    | .lit n => .lit n
    | .neg c => .neg (reading tier limit levels (path ++ [0]) c)
    | .add l r => .add (reading tier limit levels (path ++ [0]) l)
        (reading tier limit levels (path ++ [1]) r)
    | .mul l r => .mul (reading tier limit levels (path ++ [0]) l)
        (reading tier limit levels (path ++ [1]) r)
    | .flawed f => .stray (f.failure path)

end Value

/-- What a decoder does with a shape, given what it does with the children by index. -/
def Shape.decoded (I : Interp σ) (path : Path) (child : Nat → Value → Run σ Value) :
    Shape → Run σ Value
  | .lit n => I.litOf n
  | .neg c => do
    let a ← child 0 c
    (← I.neg) a
  | .add l r => do
    let a ← child 0 l
    let b ← child 1 r
    (← I.add) a b
  | .mul l r => do
    let a ← child 0 l
    let b ← child 1 r
    I.requireMul
    (← I.mul) a b
  | .flawed f => throw (f.failure path)

namespace Decoder

variable {tier : Tier} {maxDepth : Nat} {h : 1 ≤ maxDepth} {I : Interp σ}

theorem literal_of_not_text (path : Path) {v : Value} (h : ∀ s, v ≠ .leaf (.text s)) :
    (Rule.literal path v : Run σ Int) =
      throw (Flaw.failure path ((Rule.offered v).shown.map .invalidLiteral)) := by
  unfold Rule.literal
  split
  · exact absurd rfl (h _)
  · unfold Rule.literal.refuse
    cases (Rule.offered v).shown <;> rfl

theorem literal_eq (path : Path) (v : Value) :
    (Rule.literal path v : Run σ Int) = match v.numeral with
      | .ok n => pure n
      | .error f => throw (Flaw.failure path f) := by
  by_cases h : ∃ s, v = .leaf (.text s)
  · obtain ⟨s, rfl⟩ := h
    simp only [Rule.literal, Value.numeral]
    rcases Decimal.read s with (_ | _) | n
    · rfl
    · rfl
    · rfl
  · have other : ∀ s, v ≠ .leaf (.text s) := not_exists.mp h
    rw [literal_of_not_text path other, Value.numeral_of_not_text other]

/-- The rule for a node with a tag of the tier and as many children as the tag asks for. -/
theorem ruleFor_tag {t : Tag} (ht : tier.has t = true) (path : Path) {children : List Value}
    (hc : children.length = t.arity) :
    (tiered tier maxDepth h : Decoder σ).ruleFor path (.text t.word) children =
      pure (Rule.ofTag t) := by
  have arity : (Rule.ofTag t : Rule σ).arity = t.arity := by cases t <;> rfl
  simp only [ruleFor, tiered, Tier.lookup_rules, Tier.tag?_word ht, Option.map_some, arity, hc,
    if_true]

/-- A node with a tag of the tier and as many children as the tag asks for is decoded by the rule
of the tag. -/
theorem decodeAt_tagged {t : Tag} (ht : tier.has t = true) {children : List Value}
    (hc : children.length = t.arity) (levels : Nat) (path : Path) :
    decodeAt (tiered tier maxDepth h) I (levels + 1) path (Interp.tagged t children) =
      (match (Rule.ofTag t).action with
      | .raw build => build I children path
      | .operator build => do
        let values ← eachIndexed
          (fun index => decodeAt (tiered tier maxDepth h) I levels (path ++ [index])) 0 children
        build I values) := by
  cases action : (Rule.ofTag t : Rule σ).action <;>
    simp only [decodeAt, Interp.tagged, ruleFor_tag ht path hc, pure_bind, action]

/-- A value is decoded by its shape. -/
theorem decodeAt_of_shaped {v : Value} {s : Shape} (hs : Value.Shaped tier v s) (levels : Nat)
    (path : Path) :
    decodeAt (tiered tier maxDepth h) I (levels + 1) path v =
      s.decoded I path fun index =>
        decodeAt (tiered tier maxDepth h) I levels (path ++ [index]) := by
  cases hs with
  | leaf content =>
    simp only [decodeAt]
    cases content.shown <;> rfl
  | notTree hl hn =>
    cases v with
    | leaf content => exact absurd rfl (hl content)
    | node tag children => exact absurd rfl (hn tag children)
    | _ => rfl
  | @tagNotText tag children ht =>
    cases tag with
    | text word => exact absurd rfl (ht word)
    | _ => rfl
  | @unknownTag word children hw =>
    -- the message lists the tags of the table, and those are the words of the tier
    simp only [decodeAt, ruleFor, tiered, Tier.lookup_rules, hw, Option.map_none, tags,
      Tier.tags_rules]
    rfl
  | @wrongArity t children ht hc =>
    have arity : (Rule.ofTag t : Rule σ).arity = t.arity := by cases t <;> rfl
    simp only [decodeAt, ruleFor, tiered, Tier.lookup_rules, Interp.tagged, Tier.tag?_word ht,
      Option.map_some, arity, if_neg hc]
    rfl
  | badLit hv =>
    rw [decodeAt_tagged tier.has_lit rfl]
    simp only [Rule.ofTag, Rule.lit, literal_eq, hv]
    rfl
  | lit hv =>
    rw [decodeAt_tagged tier.has_lit rfl]
    simp only [Rule.ofTag, Rule.lit, literal_eq, hv, pure_bind]
    rfl
  | neg c =>
    rw [decodeAt_tagged tier.has_neg rfl]
    simp only [Rule.ofTag, Rule.neg, Rule.unary, eachIndexed, bind_assoc, pure_bind, Shape.decoded]
  | add l r =>
    rw [decodeAt_tagged tier.has_add rfl]
    simp only [Rule.ofTag, Rule.add, Rule.binary, eachIndexed, bind_assoc, pure_bind, Shape.decoded]
  | mul l r ht =>
    rw [decodeAt_tagged (by rw [ht]; rfl) rfl]
    simp only [Rule.ofTag, Rule.mul, Rule.binary, eachIndexed, bind_assoc, pure_bind, Shape.decoded]

theorem decodeAt_eq_replay (levels : Nat) (path : Path) (v : Value) :
    decodeAt (tiered tier maxDepth h) I levels path v =
      Exp.replay I (v.reading tier maxDepth levels path) := by
  -- on the levels left, since the decoder may find anything at all below a node
  induction levels generalizing path v with
  | zero => rfl
  | succ levels ih =>
    rw [decodeAt_of_shaped (Value.shaped_shape tier v), Value.reading]
    cases v.shape tier <;> simp only [Shape.decoded, Exp.replay, ih]

end Decoder

/-- Decoding a tree in a tier is replaying what the tier takes it for. -/
theorem Tier.decoding_eq_replay (tier : Tier) {maxDepth : Nat} (h : 1 ≤ maxDepth) (tree : Value)
    (I : Interp σ) :
    tier.decoding maxDepth tree I =
      Exp.replay I (tree.reading tier maxDepth maxDepth []) := by
  rw [decoding_eq tier h, Decoder.decode, Decoder.decodeAt_eq_replay]
  rfl

end Symantics
