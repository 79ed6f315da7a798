import Symantics.Proofs.RoundTrip

/-
  Literals as text.

  A text stands for an integer when it is a numeral: at most one '-', then at least one
  digit and no more than an integer's text may have. Of the numerals of an integer one is
  its own text; it is the one that is not padded with zeros and is not "-0"
  (`Decimal.chars_eq_iff`).

  A decoder calls the literals of an interpretation for the numerals, each with the
  integer that it stands for, and refuses any other text without a call. What the tree
  builder makes of an integer is decoded to that integer, so it gives a text back exactly
  if the text is the integer's own (`literal_codec`).
-/
namespace Symantics

namespace Decimal

/-- A zero stands before another digit. -/
def Padded (cs : List Char) : Prop := ∃ d ds, unsigned cs = '0' :: d :: ds

/-- A digit is the one that its value is written with. -/
theorem digitChar_value {c : Char} (h : c.isDigit = true) :
    c.toNat - '0'.toNat < 10 ∧ (c.toNat - '0'.toNat).digitChar = c := by
  simp only [Char.isDigit, Bool.and_eq_true, decide_eq_true_eq] at h
  have least : '0'.toNat ≤ c.toNat := UInt32.le_iff_toNat_le.mp h.1
  have greatest : c.toNat ≤ '9'.toNat := UInt32.le_iff_toNat_le.mp h.2
  have zero : '0'.toNat = 48 := rfl
  have nine : '9'.toNat = 57 := rfl
  refine ⟨by omega, ?_⟩
  apply Char.toNat_inj.mp
  rw [Nat.toNat_digitChar_of_lt_ten (by omega)]
  omega

/-- Digits behind the digits of a positive number are those of a greater one. -/
theorem toDigits_append {n : Nat} (hn : 0 < n) {ds : List Char}
    (hd : ∀ c ∈ ds, c.isDigit = true) :
    Nat.toDigits 10 n ++ ds = Nat.toDigits 10 (Nat.ofDigitChars 10 ds n) := by
  induction ds generalizing n with
  | nil => rw [List.append_nil]; rfl
  | cons c ds ih =>
    obtain ⟨digit, rest⟩ := List.forall_mem_cons.mp hd
    obtain ⟨lt, char⟩ := digitChar_value digit
    have one : Nat.toDigits 10 n ++ [c] = Nat.toDigits 10 (10 * n + (c.toNat - '0'.toNat)) := by
      rw [← Nat.toDigits_append_toDigits (by decide) hn lt, Nat.toDigits_of_lt_base lt, char]
    calc Nat.toDigits 10 n ++ c :: ds = (Nat.toDigits 10 n ++ [c]) ++ ds := by simp
      _ = Nat.toDigits 10 (10 * n + (c.toNat - '0'.toNat)) ++ ds := by rw [one]
      _ = Nat.toDigits 10 (Nat.ofDigitChars 10 (c :: ds) n) := by
        rw [ih (by omega) rest, Nat.ofDigitChars_cons]

/-- Digits that are not padded are those of the number they stand for. -/
theorem toDigits_ofDigitChars {ds : List Char} (hd : ∀ c ∈ ds, c.isDigit = true) (hn : ds ≠ [])
    (plain : ¬ Padded ds) : Nat.toDigits 10 (Nat.ofDigitChars 10 ds 0) = ds := by
  cases ds with
  | nil => exact absurd rfl hn
  | cons c ds =>
    obtain ⟨digit, rest⟩ := List.forall_mem_cons.mp hd
    obtain ⟨lt, char⟩ := digitChar_value digit
    rw [Nat.ofDigitChars_cons, Nat.mul_zero, Nat.zero_add]
    by_cases zero : c.toNat - '0'.toNat = 0
    · -- a zero stands alone
      rw [zero] at char
      cases ds with
      | nil => rw [zero, ← char]; rfl
      | cons d ds => exact absurd ⟨d, ds, by rw [(unsigned_digits hd).1, ← char]; rfl⟩ plain
    · rw [← toDigits_append (by omega) rest, Nat.toDigits_of_lt_base lt, char]
      rfl

/-- An integer is written without zeros in front. -/
theorem not_padded_chars (n : Int) : ¬ Padded (chars n) := by
  rintro ⟨d, ds, h⟩
  rw [unsigned_chars] at h
  -- the digits behind the zero would do for the number, and they are fewer
  have digits : ∀ c ∈ d :: ds, c.isDigit = true :=
    fun c hc => isDigit_toDigits n.natAbs c (h ▸ List.mem_cons_of_mem '0' hc)
  have value : n.natAbs = Nat.ofDigitChars 10 (d :: ds) 0 := by
    rw [← Nat.ofDigitChars_ten_toDigits (n := n.natAbs), h, Nat.ofDigitChars_cons]
    rfl
  have short : (Nat.toDigits 10 n.natAbs).length ≤ (d :: ds).length :=
    (Nat.length_toDigits_le_iff (by decide) (by simp)).mpr (value ▸ ofDigitChars_lt digits)
  rw [h] at short
  exact Nat.not_succ_le_self _ short

/-- A numeral is the text of its integer if it is not padded and not "-0". -/
theorem chars_eq_iff {cs : List Char} {n : Int} (h : Numeral cs n) :
    chars n = cs ↔ ¬ Padded cs ∧ cs ≠ ['-', '0'] := by
  constructor
  · rintro rfl
    refine ⟨not_padded_chars n, ?_⟩
    intro zero
    have value : n = 0 := by rw [← ofLiteral_chars n, zero]; rfl
    rw [value] at zero
    cases zero
  · rintro ⟨plain, nonzero⟩
    cases h with
    | @plain ds hd hn _ =>
      rw [chars, if_neg (by omega), Int.natAbs_natCast, toDigits_ofDigitChars hd hn plain]
    | @negative ds hd hn _ =>
      have same : ¬ Padded ds := by
        rintro ⟨d, es, h⟩
        exact plain ⟨d, es, (unsigned_digits hd).1 ▸ h⟩
      have digits := toDigits_ofDigitChars hd hn same
      have positive : Nat.ofDigitChars 10 ds 0 ≠ 0 := by
        intro zero
        rw [zero] at digits
        exact nonzero (digits ▸ rfl)
      rw [chars, if_pos (by omega), Int.natAbs_neg, Int.natAbs_natCast, digits]

end Decimal

/-- The tree of a literal with a text. -/
def Tree.literal (s : String) : Tree := .node Tag.lit.word [.leaf s]

/-- What the tree builder makes of an integer that can be written. -/
theorem Interp.litOf_treeBuilder {σ : Type} (tier : Tier) {n : Int} (h : Decimal.fits n = true) :
    (treeBuilder tier : Interp σ).litOf n = pure (Tree.literal (Decimal.text n)).toValue :=
  Exp.run_treeBuilder (e := .lit n) h fun hx => by cases hx

/-- Decoding the tree calls the literals of the interpretation once, with the integer, and does what
they do. -/
structure Tier.CallsLiteral {σ : Type} (tier : Tier) (maxDepth : Nat) (I : Interp σ)
    (lit : Value → Run σ Value) (t : Value) (n : Int) : Prop where
  does : tier.decoding maxDepth t I = lit (.int n)
  calls : ∀ s, I.callsOf (tier.decoding maxDepth t) s =
    [⟨.lit, [.int n], ((lit (.int n)).exec s).1⟩]

section

variable {σ : Type} {tier : Tier} {maxDepth : Nat} {s : String}

/-- A numeral is decoded by the literal of the integer that it stands for. -/
theorem Decimal.Numeral.decoding_eq {n : Int} (hn : Decimal.Numeral s.toList n)
    (h : 1 ≤ maxDepth) (I : Interp σ) :
    tier.decoding maxDepth (Tree.literal s).toValue I = I.litOf n := by
  obtain ⟨left, rfl⟩ := Nat.exists_eq_add_of_le' h
  have denotes : Denotes tier (left + 1) (Tree.literal s).toValue (.lit n) := .lit hn
  rw [Tier.decoding_eq_replay tier h, denotes.reading_eq]
  rfl

/-- Any other text is refused, whatever the interpretation. -/
theorem Tier.decoding_of_malformed (tier : Tier) (h : 1 ≤ maxDepth)
    (hs : ¬ ∃ n, Decimal.Numeral s.toList n) :
    ∃ d : Defect, d.code = "INVALID_LITERAL" ∧ d.tag = some "Lit" ∧
      ∀ {ρ : Type} (J : Interp ρ),
        tier.decoding maxDepth (Tree.literal s).toValue J = throw (.fault (d.fault [])) := by
  obtain ⟨left, rfl⟩ := Nat.exists_eq_add_of_le' h
  cases hv : (Value.leaf (.text s)).numeral with
  | ok n =>
    obtain ⟨_, same, hn⟩ := Value.numeral_eq_ok.mp hv
    obtain rfl := Value.text.inj (Value.leaf.inj same)
    exact absurd ⟨n, hn⟩ hs
  | error f =>
    obtain ⟨d, rfl⟩ := Value.defect_of_numeral hv (Tree.leavesShown (.leaf s))
    obtain ⟨code, tag⟩ := Value.code_of_numeral hv
    refine ⟨d, code, tag, ?_⟩
    intro ρ J
    have shaped : Value.Shaped tier (Tree.literal s).toValue (.flawed (.ok d)) := .badLit hv
    rw [decoding_eq_replay tier h, Value.reading, Value.shape_of_shaped shaped]
    rfl

theorem Decimal.Numeral.callsLiteral {n : Int} (hn : Decimal.Numeral s.toList n)
    (h : 1 ≤ maxDepth) {I : Interp σ} {lit : Value → Run σ Value} (hI : I.lit? = some lit) :
    tier.CallsLiteral maxDepth I lit (Tree.literal s).toValue n where
  does := by rw [hn.decoding_eq h, Interp.litOf, Interp.lit_eq hI, pure_bind]
  calls st := by
    have watched : I.watched.lit? = some fun v => Interp.watch .lit [v] (lit v) :=
      Interp.calling_lit _ hI
    rw [Interp.callsOf, hn.decoding_eq h, Interp.litOf, Interp.lit_eq watched, pure_bind,
      Interp.exec_keep]
    rfl

end

/-- Decoding a literal calls the literals of the interpretation for a numeral, with the integer that
it stands for, and refuses any other text without a call. So an integer that can be written is
called for by what the tree builder makes of it; and this is the literal of a given numeral if the
numeral is not padded with zeros and not "-0". -/
theorem literal_codec {σ : Type} (tier : Tier) {maxDepth : Nat} (h : 1 ≤ maxDepth) {I : Interp σ}
    {lit : Value → Run σ Value} (hI : I.lit? = some lit) :
    (∀ (s : String) (n : Int), Decimal.Numeral s.toList n →
      tier.CallsLiteral maxDepth I lit (Tree.literal s).toValue n) ∧
    (∀ s : String, (¬ ∃ n, Decimal.Numeral s.toList n) → ∀ st,
      I.callsOf (tier.decoding maxDepth (Tree.literal s).toValue) st = [] ∧
      ∃ f : Fault, (tier.decoding maxDepth (Tree.literal s).toValue I).exec st =
          (.error (.fault f), st) ∧
        f.isDecoding = true ∧ f.code = "INVALID_LITERAL" ∧ f.place = (some "Lit", [])) ∧
    (∀ n, Decimal.fits n = true → ∃ t,
      (∀ (builder : Tier) {ρ : Type}, (Interp.treeBuilder builder : Interp ρ).litOf n = pure t) ∧
      tier.CallsLiteral maxDepth I lit t n) ∧
    ∀ (s : String) (n : Int), Decimal.Numeral s.toList n → ∃ text,
      (∀ (builder : Tier) {ρ : Type}, (Interp.treeBuilder builder : Interp ρ).litOf n =
        pure (Tree.literal text).toValue) ∧
      (text = s ↔ ¬ Decimal.Padded s.toList ∧ s ≠ "-0") := by
  refine ⟨?_, ?_, ?_, ?_⟩
  · intro s n hn
    exact hn.callsLiteral h hI
  · intro s hs st
    obtain ⟨d, code, tag, refused⟩ := tier.decoding_of_malformed h hs
    refine ⟨?_, d.fault [], ?_, rfl, code, ?_⟩
    · rw [Interp.callsOf, refused]
      rfl
    · rw [refused]
      rfl
    · rw [← tag]
      rfl
  · intro n fits
    refine ⟨(Tree.literal (Decimal.text n)).toValue, ?_, ?_⟩
    · intro builder ρ
      exact Interp.litOf_treeBuilder builder fits
    · exact (Decimal.numeral_text fits).callsLiteral h hI
  · intro s n hn
    refine ⟨Decimal.text n, ?_, ?_⟩
    · intro builder ρ
      exact Interp.litOf_treeBuilder builder hn.fits
    · have texts : Decimal.text n = s ↔ Decimal.chars n = s.toList := by
        rw [← String.toList_inj, Decimal.text, String.toList_ofList]
      have minusZero : s = "-0" ↔ s.toList = ['-', '0'] := String.toList_inj.symm
      rw [texts, Decimal.chars_eq_iff hn, Ne, Ne, minusZero]

/-- Zeros in front count for what is called, and are not given back; a blank is refused. -/
theorem literal_codec_of_padded :
    let I : Interp Unit := .treeBuilder .extended
    let lit : Value → Run Unit Value := fun v => do
      let text ← Run.ofExcept v.written
      return Interp.tagged .lit [.leaf (.text text)]
    1 ≤ 1 ∧ I.lit? = some lit ∧
      Tier.base.CallsLiteral 1 I lit (Tree.literal "-007").toValue (-7) ∧
      I.callsOf (Tier.base.decoding 1 (Tree.literal " 7").toValue) () = [] ∧
      ∃ text, I.litOf (-7) = pure (Tree.literal text).toValue ∧ text ≠ "-007" := by
  intro I lit
  have digits : ∀ c ∈ ['0', '0', '7'], c.isDigit = true := List.all_eq_true.mp (by decide)
  have padded : Decimal.Numeral "-007".toList (-7) := .negative digits (by decide) (by decide)
  have blank : ¬ ∃ n, Decimal.Numeral " 7".toList n := by
    rintro ⟨n, h⟩
    exact absurd ((Decimal.numeral_iff.mp h).2.1 ' ' (by decide)) (by decide)
  have positive : 1 ≤ 1 := Nat.le_refl 1
  have method : I.lit? = some lit := rfl
  obtain ⟨called, refused, -, back⟩ := literal_codec .base positive method
  obtain ⟨text, built, same⟩ := back "-007" (-7) padded
  refine ⟨positive, method, called _ _ padded, (refused _ blank ()).1, text, built _, ?_⟩
  intro equal
  exact (same.mp equal).1 ⟨'0', ['7'], rfl⟩

end Symantics
