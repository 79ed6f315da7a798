/-
  Integers as decimal text.

  An integer is written with an optional '-' and its digits, most significant
  first and without leading zeros. Both directions are bounded: a text of more
  than `digitLimit` digits is neither written nor read (leading zeros count when
  reading). `text?` writes, `read` reads the literal grammar '-'? digit+, and
  nothing else: no sign '+', no blanks, no underscores, no other scripts' digits.
-/
namespace Symantics.Decimal

/-- The most digits, sign not counted, that an integer's text may have. -/
def digitLimit : Nat := 4300

/-- The number of decimal digits of an integer, sign not counted. -/
def digitCount (n : Int) : Nat := (Nat.toDigits 10 n.natAbs).length

/-- Whether the integer's text stays within the bound. -/
def fits (n : Int) : Bool := digitCount n ≤ digitLimit

/-- The characters of an integer's text, of any length. -/
def chars (n : Int) : List Char :=
  if n < 0 then '-' :: Nat.toDigits 10 n.natAbs else Nat.toDigits 10 n.natAbs

def text (n : Int) : String := String.ofList (chars n)

/-- The text of an integer, if it is short enough to be written. -/
def text? (n : Int) : Option String := if fits n then some (text n) else none

def unsigned : List Char → List Char
  | '-' :: ds => ds
  | cs => cs

/-- The grammar of literals: at most one '-', then at least one ASCII digit. -/
def isLiteral (cs : List Char) : Bool :=
  !(unsigned cs).isEmpty && (unsigned cs).all Char.isDigit

/-- The integer that a literal denotes. -/
def ofLiteral : List Char → Int
  | '-' :: ds => -(Nat.ofDigitChars 10 ds 0 : Int)
  | ds => (Nat.ofDigitChars 10 ds 0 : Int)

/-- Why a text is no readable literal. -/
inductive Defect where
  | malformed
  | tooLong
  deriving DecidableEq, Repr

/-- Reads a literal; the grammar is checked before the bound. -/
def read (s : String) : Except Defect Int :=
  if !isLiteral s.toList then .error .malformed
  else if digitLimit < (unsigned s.toList).length then .error .tooLong
  else .ok (ofLiteral s.toList)

/-! ## Writing and reading agree -/

theorem isDigit_toDigits (n : Nat) : ∀ c ∈ Nat.toDigits 10 n, c.isDigit = true :=
  fun _ hc => Nat.isDigit_of_mem_toDigits (by decide) (by decide) hc

theorem toDigits_ne_dash (n : Nat) : ∀ c ∈ Nat.toDigits 10 n, c ≠ '-' := by
  intro c hc h
  have := isDigit_toDigits n c hc
  simp [h] at this

theorem unsigned_toDigits (n : Nat) : unsigned (Nat.toDigits 10 n) = Nat.toDigits 10 n := by
  unfold unsigned
  split
  · next ds h => exact absurd rfl (toDigits_ne_dash n '-' (h ▸ List.mem_cons_self))
  · rfl

/-- The sign is the only part of an integer's text that is not a digit. -/
theorem unsigned_chars (n : Int) : unsigned (chars n) = Nat.toDigits 10 n.natAbs := by
  unfold chars
  split
  · rfl
  · exact unsigned_toDigits _

theorem mem_chars {n : Int} : ∀ c ∈ chars n, c.isDigit = true ∨ c = '-' := by
  intro c hc
  unfold chars at hc
  split at hc
  · rcases List.mem_cons.mp hc with rfl | hc
    · exact .inr rfl
    · exact .inl (isDigit_toDigits _ c hc)
  · exact .inl (isDigit_toDigits _ c hc)

theorem chars_ne_nil (n : Int) : chars n ≠ [] := by
  unfold chars
  split
  · exact List.cons_ne_nil _ _
  · exact Nat.toDigits_ne_nil

theorem isLiteral_chars (n : Int) : isLiteral (chars n) = true := by
  rw [isLiteral, unsigned_chars]
  simp only [Bool.and_eq_true, Bool.not_eq_true', List.isEmpty_eq_false_iff, List.all_eq_true]
  exact ⟨Nat.toDigits_ne_nil, isDigit_toDigits n.natAbs⟩

theorem ofLiteral_chars (n : Int) : ofLiteral (chars n) = n := by
  unfold chars
  split
  · simp only [ofLiteral, Nat.ofDigitChars_ten_toDigits]; omega
  · unfold ofLiteral
    split
    · next ds h => exact absurd rfl (toDigits_ne_dash _ '-' (h ▸ List.mem_cons_self))
    · rw [Nat.ofDigitChars_ten_toDigits]; omega

/-- An integer within the bound is read back from its text. -/
theorem read_text {n : Int} (h : fits n = true) : read (text n) = .ok n := by
  have hl : (Nat.toDigits 10 n.natAbs).length ≤ digitLimit := of_decide_eq_true h
  simp [read, text, isLiteral_chars, unsigned_chars, ofLiteral_chars, Nat.not_lt.2 hl]

end Symantics.Decimal
