import Symantics.Capacity

/-
  Templates.

  A template is a text with directives in it, each of which stands for an argument.
  A directive is '%', maybe the name of an argument in parentheses, flags out of
  "-+ #0", a width, a precision after '.', and a letter for the kind of conversion;
  a letter h, l or L before it is skipped, and "%%" is a plain '%'. Width and
  precision are digits, or '*' for one more argument.

  `pieces` takes a template apart, one character at a time. A template that is
  broken comes apart up to the broken directive.
-/
namespace Symantics.Template

inductive Count where
  | given (n : Nat)
  -- Taken from the arguments.
  | argument
  deriving DecidableEq, Repr

/-- What a directive says before its conversion. -/
structure Directive where
  name : Option String := none
  flags : List Char := []
  width : Option Count := none
  precision : Option Count := none
  deriving DecidableEq, Repr

/-- How a directive may be broken. -/
inductive Break where
  | openName
  | openDirective
  | hugeWidth
  | hugePrecision
  deriving DecidableEq, Repr

inductive Piece where
  | plain (c : Char)
  -- A directive with its conversion, at an index of the template.
  | directive (d : Directive) (conversion : Char) (index : Nat)
  -- A broken directive; nothing after it counts.
  | broken (d : Directive) (how : Break)
  deriving DecidableEq, Repr

/-- Where in a template a character stands. -/
inductive Stage where
  | text
  -- After a '%'.
  | opening
  -- In a name, with so many parentheses open; the name so far, latest first.
  | name (depth : Nat) (read : List Char)
  | flags
  | width
  | afterWidth
  | point
  | precision
  | afterPrecision
  -- After a skipped letter.
  | letter
  -- After a broken directive.
  | ended
  deriving DecidableEq, Repr

/-- The template so far: its pieces, latest first, and the directive that is being read. -/
structure Scan where
  stage : Stage := .text
  current : Directive := {}
  index : Nat := 0
  pieces : List Piece := []
  deriving DecidableEq, Repr

/-- The greatest width, a number of 63 bits. -/
def widthLimit : Nat := Capacity.greatestIndex

/-- The greatest precision, a number of 31 bits. -/
def precisionLimit : Nat := 0x7fffffff

namespace Scan

def digitValue (c : Char) : Nat := c.toNat - '0'.toNat

/-- A number with one more digit, unless that exceeds the limit. -/
def extend? (limit n : Nat) (c : Char) : Option Nat :=
  if n * 10 + digitValue c ≤ limit then some (n * 10 + digitValue c) else none

/-- Ends a directive with its conversion. -/
def finish (s : Scan) (c : Char) : Scan :=
  { s with stage := .text, pieces := .directive s.current c s.index :: s.pieces }

/-- Ends the template with a broken directive. -/
def breakOff (s : Scan) (how : Break) : Scan :=
  { s with stage := .ended, pieces := .broken s.current how :: s.pieces }

/-- Reads a letter that may have to be skipped. -/
def letter (s : Scan) (c : Char) : Scan :=
  if c = 'h' ∨ c = 'l' ∨ c = 'L' then { s with stage := .letter } else s.finish c

def withWidth (s : Scan) (n : Count) (stage : Stage) : Scan :=
  { s with stage, current := { s.current with width := some n } }

def withPrecision (s : Scan) (n : Count) (stage : Stage) : Scan :=
  { s with stage, current := { s.current with precision := some n } }

/-- Reads on after the width. -/
def afterWidth (s : Scan) (c : Char) : Scan :=
  if c = '.' then s.withPrecision (.given 0) .point else s.letter c

/-- Reads a flag, or on after the flags. -/
def flag (s : Scan) (c : Char) : Scan :=
  if c ∈ ['-', '+', ' ', '#', '0'] then
    { s with stage := .flags, current := { s.current with flags := c :: s.current.flags } }
  else if c = '*' then s.withWidth .argument .afterWidth
  else if c.isDigit then s.withWidth (.given (digitValue c)) .width
  else s.afterWidth c

def inName (s : Scan) (depth : Nat) (read : List Char) (c : Char) : Scan :=
  if c = ')' ∧ depth ≤ 1 then
    { s with
      stage := .flags
      current := { s.current with name := some (String.ofList read.reverse) } }
  else
    let depth := if c = '(' then depth + 1 else if c = ')' then depth - 1 else depth
    { s with stage := .name depth (c :: read) }

def read (s : Scan) (c : Char) : Scan :=
  match s.stage with
  | .text =>
    if c = '%' then { s with stage := .opening, current := {} }
    else { s with pieces := .plain c :: s.pieces }
  | .opening =>
    if c = '%' then { s with stage := .text, pieces := .plain c :: s.pieces }
    else if c = '(' then { s with stage := .name 1 [] }
    else s.flag c
  | .name depth read => s.inName depth read c
  | .flags => s.flag c
  | .width => match s.current.width with
    | some (.given n) =>
      if c.isDigit then match extend? widthLimit n c with
        | some n => s.withWidth (.given n) .width
        | none => s.breakOff .hugeWidth
      else s.afterWidth c
    | _ => s.afterWidth c
  | .afterWidth => s.afterWidth c
  | .point =>
    if c = '*' then s.withPrecision .argument .afterPrecision
    else if c.isDigit then s.withPrecision (.given (digitValue c)) .precision
    else s.letter c
  | .precision => match s.current.precision with
    | some (.given n) =>
      if c.isDigit then match extend? precisionLimit n c with
        | some n => s.withPrecision (.given n) .precision
        | none => s.breakOff .hugePrecision
      else s.letter c
    | _ => s.letter c
  | .afterPrecision => s.letter c
  | .letter => s.finish c
  | .ended => s

/-- All pieces, when the template ends here. -/
def close (s : Scan) : List Piece :=
  match s.stage with
  | .text | .ended => s.pieces.reverse
  | .name _ _ => (s.breakOff .openName).pieces.reverse
  | _ => (s.breakOff .openDirective).pieces.reverse

/-- Reads one character and counts it. -/
def step (s : Scan) (c : Char) : Scan := { s.read c with index := s.index + 1 }

end Scan

def pieces (template : String) : List Piece :=
  (template.toList.foldl Scan.step {}).close

end Symantics.Template
