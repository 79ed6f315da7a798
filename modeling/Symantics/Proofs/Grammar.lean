import Mathlib.Algebra.Group.Nat.Defs
import Symantics.Proofs.Reading

/-
  The grammar of trees.

  `Denotes` says which trees are well formed in a tier, with so many nodes of the
  language inside one another at most, and which expression each of them stands for;
  `Numeral` says which texts stand for integers. A decoder takes a tree for the
  expression that the tree denotes (`reading_eq`), and for a whole expression only if
  the tree denotes that one (`denotes_of_reading`), so a tree denotes one at most.
-/
namespace Symantics

/-- At most one '-', then at least one digit and no more than an integer's text may have; and the
integer that is meant. -/
inductive Decimal.Numeral : List Char → Int → Prop where
  | plain {ds : List Char} (hd : ∀ c ∈ ds, c.isDigit = true) (hn : ds ≠ [])
      (hl : ds.length ≤ digitLimit) : Numeral ds (Nat.ofDigitChars 10 ds 0)
  | negative {ds : List Char} (hd : ∀ c ∈ ds, c.isDigit = true) (hn : ds ≠ [])
      (hl : ds.length ≤ digitLimit) : Numeral ('-' :: ds) (-(Nat.ofDigitChars 10 ds 0))

/-- The trees of a tier with at most so many nodes inside one another, leaves not counted, and what
they stand for. -/
inductive Denotes (tier : Tier) : Nat → Value → Exp → Prop where
  | lit {levels : Nat} {s : String} {n : Int} (h : Decimal.Numeral s.toList n) :
      Denotes tier (levels + 1) (Interp.tagged .lit [.leaf (.text s)]) (.lit n)
  | neg {levels : Nat} {v : Value} {e : Exp} (h : Denotes tier levels v e) :
      Denotes tier (levels + 1) (Interp.tagged .neg [v]) (.neg e)
  | add {levels : Nat} {v w : Value} {l r : Exp} (hl : Denotes tier levels v l)
      (hr : Denotes tier levels w r) :
      Denotes tier (levels + 1) (Interp.tagged .add [v, w]) (.add l r)
  | mul {levels : Nat} {v w : Value} {l r : Exp} (ht : tier = .extended)
      (hl : Denotes tier levels v l) (hr : Denotes tier levels w r) :
      Denotes tier (levels + 1) (Interp.tagged .mul [v, w]) (.mul l r)

/-! ## Literals -/

namespace Decimal

theorem unsigned_digits {ds : List Char} (hd : ∀ c ∈ ds, c.isDigit = true) :
    unsigned ds = ds ∧ ofLiteral ds = Nat.ofDigitChars 10 ds 0 := by
  cases ds with
  | nil => exact ⟨rfl, rfl⟩
  | cons c cs =>
    have hc : c ≠ '-' := by
      intro h
      subst h
      exact absurd (hd '-' List.mem_cons_self) (by decide)
    simp [unsigned, ofLiteral, hc]

theorem numeral_iff {cs : List Char} {n : Int} :
    Numeral cs n ↔ unsigned cs ≠ [] ∧ (∀ c ∈ unsigned cs, c.isDigit = true) ∧
      (unsigned cs).length ≤ digitLimit ∧ n = ofLiteral cs := by
  constructor
  · intro h
    cases h with
    | plain hd hn hl =>
      obtain ⟨hu, ho⟩ := unsigned_digits hd
      rw [hu, ho]
      exact ⟨hn, hd, hl, rfl⟩
    | negative hd hn hl => exact ⟨hn, hd, hl, rfl⟩
  · intro h
    obtain ⟨hn, hd, hl, rfl⟩ := h
    -- only the first character can be a sign
    match cs with
    | '-' :: ds => exact .negative hd hn hl
    | [] => exact absurd rfl hn
    | c :: ds =>
      by_cases hc : c = '-'
      · subst hc
        exact .negative hd hn hl
      · have hu : unsigned (c :: ds) = c :: ds := by simp [unsigned, hc]
        rw [hu] at hd hn hl
        rw [(unsigned_digits hd).2]
        exact .plain hd hn hl

/-- Reading succeeds on the numerals and gives what they stand for. -/
theorem read_eq_ok {s : String} {n : Int} : read s = .ok n ↔ Numeral s.toList n := by
  have literal : isLiteral s.toList = true ↔
      unsigned s.toList ≠ [] ∧ ∀ c ∈ unsigned s.toList, c.isDigit = true := by
    simp [isLiteral, List.all_eq_true]
  rw [numeral_iff, ← and_assoc, ← literal, read]
  cases isLiteral s.toList with
  | false => simp
  | true =>
    by_cases hl : digitLimit < (unsigned s.toList).length
    · simp [hl, Nat.not_le.mpr hl]
    · simp [hl, Nat.not_lt.mp hl, eq_comm]

theorem numeral_text {n : Int} (h : fits n = true) : Numeral (text n).toList n :=
  read_eq_ok.mp (read_text h)

/-- A number can be written when it is small enough. -/
theorem fits_iff {n : Int} : fits n = true ↔ n.natAbs < 10 ^ digitLimit := by
  rw [fits, decide_eq_true_iff]
  exact Nat.length_toDigits_le_iff (by decide) (by decide)

theorem ofDigitChars_lt {ds : List Char} (hd : ∀ c ∈ ds, c.isDigit = true) :
    Nat.ofDigitChars 10 ds 0 < 10 ^ ds.length := by
  induction ds with
  | nil => decide
  | cons c ds ih =>
    have digit : c.toNat - '0'.toNat ≤ 9 := by
      have hc := hd c List.mem_cons_self
      simp only [Char.isDigit, Bool.and_eq_true, decide_eq_true_eq] at hc
      exact Nat.sub_le_of_le_add (UInt32.le_iff_toNat_le.mp hc.2)
    have rest := ih fun d hd' => hd d (List.mem_cons_of_mem c hd')
    rw [Nat.ofDigitChars_cons, Nat.ofDigitChars_eq_ofDigitChars_zero, List.length_cons,
      Nat.pow_succ]
    calc 10 ^ ds.length * (10 * 0 + (c.toNat - '0'.toNat)) + Nat.ofDigitChars 10 ds 0
        < 10 ^ ds.length * 9 + 10 ^ ds.length :=
          Nat.add_lt_add_of_le_of_lt (Nat.mul_le_mul_left _ (by omega)) rest
      _ = 10 ^ ds.length * 10 := by omega

/-- What a numeral stands for can be written again. -/
theorem Numeral.fits {cs : List Char} {n : Int} (h : Numeral cs n) : fits n = true := by
  rw [fits_iff]
  cases h with
  | plain hd _ hl =>
    rw [Int.natAbs_natCast]
    exact Nat.lt_of_lt_of_le (ofDigitChars_lt hd) (Nat.pow_le_pow_right (by decide) hl)
  | negative hd _ hl =>
    rw [Int.natAbs_neg, Int.natAbs_natCast]
    exact Nat.lt_of_lt_of_le (ofDigitChars_lt hd) (Nat.pow_le_pow_right (by decide) hl)

end Decimal

/-- The child of a literal holds an integer when it is a leaf with a numeral. -/
theorem Value.numeral_eq_ok {v : Value} {n : Int} :
    v.numeral = .ok n ↔ ∃ s, v = .leaf (.text s) ∧ Decimal.Numeral s.toList n := by
  constructor
  · intro h
    by_cases ht : ∃ s, v = .leaf (.text s)
    · obtain ⟨s, rfl⟩ := ht
      refine ⟨s, rfl, ?_⟩
      apply Decimal.read_eq_ok.mp
      simp only [numeral] at h
      rcases hr : Decimal.read s with (_ | _) | m <;> simp only [hr] at h
      · cases h
      · cases h
      · exact congrArg Except.ok (Except.ok.inj h)
    · rw [numeral_of_not_text (not_exists.mp ht)] at h
      cases h
  · intro h
    obtain ⟨s, rfl, h⟩ := h
    simp only [numeral, Decimal.read_eq_ok.mpr h]

/-! ## Trees -/

/-- What a well-formed tree is taken for. -/
theorem Denotes.reading_eq {tier : Tier} {levels : Nat} {v : Value} {e : Exp}
    (h : Denotes tier levels v e) (limit : Nat) (path : Path) :
    v.reading tier limit levels path = e.widen := by
  induction h generalizing path with
  | lit h =>
    have hs := @Value.Shaped.lit tier _ _ (Value.numeral_eq_ok.mpr ⟨_, rfl, h⟩)
    simp only [Value.reading, Value.shape_of_shaped hs, Exp.widen]
  | neg h ih =>
    simp only [Value.reading, Value.shape_of_shaped (.neg _), Exp.widen, ih]
  | add hl hr ihl ihr =>
    simp only [Value.reading, Value.shape_of_shaped (.add _ _), Exp.widen, ihl, ihr]
  | mul ht hl hr ihl ihr =>
    simp only [Value.reading, Value.shape_of_shaped (.mul _ _ ht), Exp.widen, ihl, ihr]

theorem Value.denotes_of_reading {tier : Tier} {limit levels : Nat} {path : Path} {v : Value}
    {e : Exp} (h : v.reading tier limit levels path = e.widen) : Denotes tier levels v e := by
  induction levels generalizing path v e with
  | zero => exact absurd h.symm Exp.widen_ne_stray
  | succ levels ih =>
    have hs := Value.shaped_shape tier v
    rw [Value.reading] at h
    -- the shape says how the expression starts, and so which rule of the grammar applies
    generalize v.shape tier = s at h hs
    cases hs with
    | lit hv =>
      obtain ⟨s, rfl, hn⟩ := Value.numeral_eq_ok.mp hv
      rw [Exp.widen_eq_lit h.symm]
      exact .lit hn
    | neg c =>
      obtain ⟨d, rfl, hd⟩ := Exp.widen_eq_neg h.symm
      exact .neg (ih hd.symm)
    | add l r =>
      obtain ⟨d, e, rfl, hd, he⟩ := Exp.widen_eq_add h.symm
      exact .add (ih hd.symm) (ih he.symm)
    | mul l r ht =>
      obtain ⟨d, e, rfl, hd, he⟩ := Exp.widen_eq_mul h.symm
      exact .mul ht (ih hd.symm) (ih he.symm)
    | _ => exact absurd h.symm Exp.widen_ne_stray

theorem Denotes.unique {tier : Tier} {levels : Nat} {v : Value} {d e : Exp}
    (hd : Denotes tier levels v d) (he : Denotes tier levels v e) : d = e :=
  Exp.widen_injective ((hd.reading_eq levels []).symm.trans (he.reading_eq levels []))

end Symantics
