import Symantics.Template.Basic
import Symantics.Binary64.Rounded
import Symantics.Value.Show

/-
  Filling in templates.

  The arguments are a sequence, taken in order, or a single value; a single record
  also serves the directives with a name. Every argument has to be used, unless it
  is a record. A converted argument is padded to the width: on the left with blanks,
  on the right with the flag '-', and with zeros behind the sign with the flag '0' if
  it is a number.
-/
namespace Symantics.Template

/-- Why a template cannot be filled in. -/
inductive Defect where
  | broken (how : Break)
  | needsRecord
  | listNeedsIndex
  -- No field has the name, as quoted.
  | noField (shown : String)
  | tooFewArguments
  | tooManyArguments
  | countNeedsInteger
  | countTooLarge (bound : String)
  -- An integer was asked for with more digits than can be counted.
  | precisionTooLarge
  -- There is no memory for the padding.
  | outOfMemory
  | needsNumber (conversion : Char) (kind : String)
  | needsInteger (conversion : Char) (kind : String)
  | needsReal (kind : String)
  | needsCharacter
  | noSuchCharacter
  | noInteger (name : String)
  | hugeReal
  | tooManyDigits
  | unknownConversion (c : Char) (index : Nat)
  deriving DecidableEq, Repr

namespace Defect

def message : Defect → String
  | broken .openName => "incomplete format key"
  | broken .openDirective => "incomplete format"
  | broken .hugeWidth => "width too big"
  | broken .hugePrecision => "precision too big"
  | needsRecord => "format requires a mapping"
  | listNeedsIndex => "list indices must be integers or slices, not str"
  | noField shown => shown
  | tooFewArguments => "not enough arguments for format string"
  | tooManyArguments => "not all arguments converted during string formatting"
  | countNeedsInteger => "* wants int"
  | countTooLarge bound => "Python int too large to convert to C " ++ bound
  | precisionTooLarge => "precision too large"
  | outOfMemory => ""
  | needsNumber conversion kind =>
    "%" ++ String.singleton conversion ++ " format: a real number is required, not " ++ kind
  | needsInteger conversion kind =>
    "%" ++ String.singleton conversion ++ " format: an integer is required, not " ++ kind
  | needsReal kind => "must be real number, not " ++ kind
  | needsCharacter => "%c requires int or char"
  | noSuchCharacter => "%c arg not in range(0x110000)"
  | noInteger name => "cannot convert float " ++ name ++ " to integer"
  | hugeReal => "int too large to convert to float"
  | tooManyDigits =>
    "Exceeds the limit (4300 digits) for integer string conversion; " ++
      "use sys.set_int_max_str_digits() to increase the limit"
  | unknownConversion c index =>
    "unsupported format character '" ++
      String.singleton (if 31 ≤ c.toNat ∧ c.toNat ≤ 126 then c else '?') ++ "' (0x" ++
      String.ofList (Nat.toDigits 16 c.toNat) ++ ") at index " ++ toString index

/-- The sort of error that a defect is. -/
def kind : Defect → String
  | broken _ | noInteger "NaN" | tooManyDigits | unknownConversion _ _ => "ValueError"
  | noField _ => "KeyError"
  | outOfMemory => "MemoryError"
  | countTooLarge _ | precisionTooLarge | noSuchCharacter | noInteger _ | hugeReal =>
    "OverflowError"
  | needsRecord | listNeedsIndex | tooFewArguments | tooManyArguments | countNeedsInteger
  | needsNumber _ _ | needsInteger _ _ | needsReal _ | needsCharacter => "TypeError"

end Defect

/-- The arguments that are left, and the value that directives with a name look into. -/
structure Arguments where
  left : List Value
  named : Option Value

namespace Arguments

def ofValue : Value → Arguments
  | .tuple vs => ⟨vs, none⟩
  | .record fs => ⟨[.record fs], some (.record fs)⟩
  | .list vs => ⟨[.list vs], some (.list vs)⟩
  | v => ⟨[v], none⟩

def next (a : Arguments) : Except Defect (Value × Arguments) :=
  match a.left with
  | [] => .error .tooFewArguments
  | v :: vs => .ok (v, { a with left := vs })

/-- Makes the named field the only argument left. -/
def select (a : Arguments) (name : String) : Except Defect Arguments :=
  match a.named with
  | none => .error .needsRecord
  | some (.list _) => .error .listNeedsIndex
  | some v => match v.field? name with
    | some field => .ok { a with left := [field] }
    | none => .error (.noField (Text.quoted name))

/-- A width or precision, which an argument gives as an integer of limited size. -/
def count (a : Arguments) (limit : Nat) (bound : String) :
    Option Count → Except Defect (Option Int × Arguments)
  | none => .ok (none, a)
  | some (.given n) => .ok (some n, a)
  | some .argument => do
    let (v, a) ← a.next
    match v.integer? with
    | none => .error .countNeedsInteger
    | some n =>
      if -(limit : Int) - 1 ≤ n ∧ n ≤ limit then .ok (some n, a) else .error (.countTooLarge bound)

end Arguments

/-- A converted argument: a number has a sign (maybe none), a base mark and digits; anything else
is digits alone. -/
structure Converted where
  isNumber : Bool := false
  isNegative : Bool := false
  mark : List Char := []
  body : List Char

/-- The sign of a converted argument. -/
def sign (flags : List Char) (c : Converted) : List Char :=
  if !c.isNumber then []
  else if c.isNegative then ['-']
  else if '+' ∈ flags then ['+']
  else if ' ' ∈ flags then [' ']
  else []

/-- So many copies of a character, if there is memory for them. -/
def padding (n : Nat) (c : Char) : Except Defect (List Char) :=
  if Capacity.memory < n then .error .outOfMemory else .ok (List.replicate n c)

/-- A converted argument padded to a width. -/
def padded (flags : List Char) (width : Nat) (c : Converted) : Except Defect (List Char) := do
  let front := sign flags c ++ c.mark
  let missing := width - (front.length + c.body.length)
  if '-' ∈ flags then return front ++ c.body ++ (← padding missing ' ')
  else if '0' ∈ flags ∧ c.isNumber then return front ++ (← padding missing '0') ++ c.body
  else return (← padding missing ' ') ++ front ++ c.body

/-- The most digits that an integer may be asked to have. -/
def greatestPrecision : Nat := precisionLimit - 3

/-- An integer in a base, with at least so many digits. -/
def integerIn (base : Nat) (mark : List Char) (precision : Nat) (n : Int) :
    Except Defect Converted := do
  if greatestPrecision < precision then .error .precisionTooLarge
  let ds := Nat.toDigits base n.natAbs
  let zeros ← padding (precision - ds.length) '0'
  return { isNumber := true, isNegative := n < 0, mark, body := zeros ++ ds }

/-- A floating-point number, laid out by `layout` unless it is infinite or not a number. -/
def real (layout : Nat → Nat → List Char) (x : Binary64) : Converted :=
  { isNumber := true, isNegative := x.isNegative
    body := match x with
      | .nan => ['n', 'a', 'n']
      | .infinite _ => ['i', 'n', 'f']
      | x => match x.ratio? with
        | some (num, den) => layout num den
        | none => [] }

def Converted.capital (c : Converted) : Converted :=
  { c with mark := c.mark.map Char.toUpper, body := c.body.map Char.toUpper }

/-- The floating-point number that a value is. -/
def toReal : Value → Except Defect Binary64
  | .float x => .ok x
  | v => match v.integer? with
    | some n => match Binary64.ofRatio (n < 0) n.natAbs 1 with
      | .infinite _ => .error .hugeReal
      | x => .ok x
    | none => .error (.needsReal v.kind)

/-- The integer that a number is, its fraction dropped. -/
def toWhole (conversion : Char) : Value → Except Defect Int
  | .float x => match x with
    | .nan => .error (.noInteger "NaN")
    | .infinite _ => .error (.noInteger "infinity")
    | x => .ok (x.truncate?.getD 0)
  | v => match v.integer? with
    | some n => .ok n
    | none => .error (.needsNumber conversion v.kind)

/-- The text of a value, cut off at the precision. -/
def textual (precision : Option Nat) : Option String → Except Defect Converted
  | none => .error .tooManyDigits
  | some s => .ok { body := match precision with
      | some n => s.toList.take n
      | none => s.toList }

/-- A quoted text with all characters beyond ASCII escaped. -/
def asciiOnly (s : String) : String :=
  String.ofList (s.toList.flatMap fun c =>
    if c.toNat < 0x80 then [c] else Text.codeEscape c.toNat)

/-- A single character, given as itself or by its code. -/
def character : Value → Except Defect Converted
  | .text s => match s.toList with
    | [c] => .ok { body := [c] }
    | _ => .error .needsCharacter
  | v => match v.integer? with
    | some n =>
      if 0 ≤ n ∧ n < 0x110000 then .ok { body := [Char.ofNat n.toNat] }
      else .error .noSuchCharacter
    | none => .error .needsCharacter

/-- An integer in base 8 or 16. -/
def based (conversion : Char) (base : Nat) (letter : Char) (alternate : Bool) (precision : Nat)
    (v : Value) : Except Defect Converted :=
  match v.integer? with
  | some n => integerIn base (if alternate then ['0', letter] else []) precision n
  | none => .error (.needsInteger conversion v.kind)

def convert (conversion : Char) (index : Nat) (alternate : Bool) (precision : Option Nat)
    (v : Value) : Except Defect Converted :=
  let layout (f : Nat → Nat → Nat → Bool → List Char) (num den : Nat) :=
    f num den (precision.getD 6) alternate
  match conversion with
  | 's' => textual precision v.text?
  | 'r' => textual precision v.shown?
  | 'a' => textual precision (v.shown?.map asciiOnly)
  | 'd' | 'i' | 'u' => do
    let n ← toWhole conversion v
    let c ← integerIn 10 [] (precision.getD 0) n
    if Decimal.fits n then return c else .error .tooManyDigits
  | 'o' => based conversion 8 'o' alternate (precision.getD 0) v
  | 'x' => based conversion 16 'x' alternate (precision.getD 0) v
  | 'X' => (based conversion 16 'x' alternate (precision.getD 0) v).map (·.capital)
  | 'f' => (toReal v).map (real (layout Binary64.fixed))
  | 'F' => (toReal v).map fun x => (real (layout Binary64.fixed) x).capital
  | 'e' => (toReal v).map (real (layout Binary64.exponential))
  | 'E' => (toReal v).map fun x => (real (layout Binary64.exponential) x).capital
  | 'g' => (toReal v).map (real (layout Binary64.general))
  | 'G' => (toReal v).map fun x => (real (layout Binary64.general) x).capital
  | 'c' => character v
  | c => .error (.unknownConversion c index)

/-- What a directive takes from the arguments before its own: the arguments that are then left,
with the width and the precision. -/
def prepare (d : Directive) (a : Arguments) :
    Except Defect (Option Int × Option Int × Arguments) := do
  let a ← match d.name with
    | some name => a.select name
    | none => pure a
  let (width, a) ← a.count widthLimit "ssize_t" d.width
  let (precision, a) ← a.count precisionLimit "int" d.precision
  return (width, precision, a)

/-- The width that an integer asks for, whatever its sign; one whose size is no width asks for
none. -/
def widthOf (n : Int) : Nat := if n.natAbs ≤ widthLimit then n.natAbs else 0

/-- The text of a directive, and the arguments that are left. -/
def fillDirective (d : Directive) (conversion : Char) (index : Nat) (a : Arguments) :
    Except Defect (List Char × Arguments) := do
  let (width, precision, a) ← prepare d a
  let (v, a) ← a.next
  let c ← convert conversion index ('#' ∈ d.flags) (precision.map Int.toNat) v
  let width := width.getD 0
  let flags := if width < 0 then '-' :: d.flags else d.flags
  let cs ← padded flags (widthOf width) c
  if a.named.isSome ∧ !a.left.isEmpty then .error .tooManyArguments
  else return (cs, a)

/-- The failure of a broken directive, after what it takes from the arguments. -/
def failBroken (d : Directive) (how : Break) (a : Arguments) : Except Defect (List Char) := do
  match how with
  | .openName => if a.named.isNone then .error .needsRecord else .error (.broken how)
  | how =>
    let _ ← prepare d a
    .error (.broken how)

def fillAll : List Piece → Arguments → Except Defect (List Char)
  | [], a => if a.named.isNone ∧ !a.left.isEmpty then .error .tooManyArguments else .ok []
  | .plain c :: ps, a => (fillAll ps a).map (c :: ·)
  | .broken d how :: _, a => failBroken d how a
  | .directive d conversion index :: ps, a => do
    let (cs, a) ← fillDirective d conversion index a
    return cs ++ (← fillAll ps a)

/-- Fills in a template with the arguments that a value stands for. -/
def fill (template : String) (arguments : Value) : Except Defect String :=
  (fillAll (pieces template) (.ofValue arguments)).map String.ofList

end Symantics.Template
