/-
  Tokens of JSON text.

  A text is a sequence of marks ('[', ']', '{', '}', ':' and ','), quoted texts and
  words; a word is a maximal run of letters, digits, '+', '-', '.' and '_', and
  stands for a number or a name. Blanks separate tokens. Inside a quoted text a
  character below U+0020 has to be escaped; a character beyond U+FFFF may be escaped
  as a surrogate pair, and half a pair is refused.

  The scanner goes through the text once, one character at a time.
-/
namespace Symantics.Json

inductive Token where
  | mark (c : Char)
  | text (s : String)
  | word (cs : List Char)
  deriving DecidableEq, Repr

/-- Where in a token the scanner is; what has been read of it is kept latest first. -/
inductive Token.Mode where
  | between
  | word (read : List Char)
  | text (read : List Char)
  -- After a backslash.
  | escape (read : List Char)
  -- In a hexadecimal escape, with so many digits to come; `high` is the first half of a pair that
  -- the escape has to complete.
  | code (high : Option Nat) (left value : Nat) (read : List Char)
  -- After the first half of a pair.
  | half (high : Nat) (read : List Char)
  -- After the first half of a pair and a backslash.
  | halfEscape (high : Nat) (read : List Char)
  deriving DecidableEq, Repr

/-- The state of the scanner: the tokens so far, latest first. -/
structure Scan where
  mode : Token.Mode
  tokens : List Token
  deriving DecidableEq, Repr

def isBlank (c : Char) : Bool := c = ' ' ∨ c = '\t' ∨ c = '\n' ∨ c = '\r'

def isMark (c : Char) : Bool := c = '[' ∨ c = ']' ∨ c = '\x7b' ∨ c = '\x7d' ∨ c = ':' ∨ c = ','

def isWord (c : Char) : Bool := c.isAlphanum ∨ c = '+' ∨ c = '-' ∨ c = '.' ∨ c = '_'

/-- The character that a backslash before `c` makes. -/
def unescape? : Char → Option Char
  | '"' => some '"'
  | '\\' => some '\\'
  | '/' => some '/'
  | 'b' => some '\x08'
  | 'f' => some '\x0c'
  | 'n' => some '\n'
  | 'r' => some '\r'
  | 't' => some '\t'
  | _ => none

def hexValue? (c : Char) : Option Nat :=
  if c.isDigit then some (c.toNat - '0'.toNat)
  else if 'a' ≤ c ∧ c ≤ 'f' then some (c.toNat - 'a'.toNat + 10)
  else if 'A' ≤ c ∧ c ≤ 'F' then some (c.toNat - 'A'.toNat + 10)
  else none

def isHighHalf (n : Nat) : Bool := 0xd800 ≤ n ∧ n < 0xdc00

def isLowHalf (n : Nat) : Bool := 0xdc00 ≤ n ∧ n < 0xe000

/-- What a completed hexadecimal escape leads to. -/
def afterCode (high : Option Nat) (n : Nat) (read : List Char) : Option Token.Mode :=
  match high with
  | none =>
    if isHighHalf n then some (.half n read)
    else if isLowHalf n then none
    else some (.text (Char.ofNat n :: read))
  | some h =>
    if isLowHalf n then some (.text (Char.ofNat (0x10000 + (h - 0xd800) * 0x400 + (n - 0xdc00)) :: read))
    else none

namespace Scan

/-- Reads a character outside all tokens. -/
def enter (tokens : List Token) (c : Char) : Option Scan :=
  if isBlank c then some ⟨.between, tokens⟩
  else if isMark c then some ⟨.between, .mark c :: tokens⟩
  else if c = '"' then some ⟨.text [], tokens⟩
  else if isWord c then some ⟨.word [c], tokens⟩
  else none

def step (s : Scan) (c : Char) : Option Scan :=
  match s.mode with
  | .between => enter s.tokens c
  | .word read =>
    if isWord c then some { s with mode := .word (c :: read) }
    else enter (.word read.reverse :: s.tokens) c
  | .text read =>
    if c = '"' then some ⟨.between, .text (String.ofList read.reverse) :: s.tokens⟩
    else if c = '\\' then some { s with mode := .escape read }
    else if c.toNat < 0x20 then none
    else some { s with mode := .text (c :: read) }
  | .escape read =>
    if c = 'u' then some { s with mode := .code none 4 0 read }
    else (unescape? c).map fun d => { s with mode := .text (d :: read) }
  | .code high left value read => do
    let d ← hexValue? c
    let value := value * 16 + d
    if left ≤ 1 then return { s with mode := ← afterCode high value read }
    else return { s with mode := .code high (left - 1) value read }
  | .half high read => if c = '\\' then some { s with mode := .halfEscape high read } else none
  | .halfEscape high read =>
    if c = 'u' then some { s with mode := .code (some high) 4 0 read } else none

/-- All tokens, when the text may end here. -/
def finish (s : Scan) : Option (List Token) :=
  match s.mode with
  | .between => some s.tokens.reverse
  | .word read => some (.word read.reverse :: s.tokens).reverse
  | _ => none

end Scan

def tokens? (cs : List Char) : Option (List Token) := do
  (← cs.foldlM Scan.step ⟨.between, []⟩).finish

end Symantics.Json
