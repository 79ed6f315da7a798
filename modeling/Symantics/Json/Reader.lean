import Symantics.Json.Number
import Symantics.Json.Token

/-
  Reading JSON text.

  The reader goes through the tokens once, with a stack of the lists and records
  that are open. Nothing may follow the value. Of several fields of a record with
  one name, the last value is kept, in the place of the first. Two limits hold: one
  on the lists and records with something in them that are open at a time, and one
  on the whole part of a number.
-/
namespace Symantics.Json

/-- What a reader refuses to go beyond. -/
structure Limits where
  -- The most lists and records, not empty, that may be open at a time.
  nesting : Nat
  -- The most digits of a number before its point or exponent.
  whole : Nat
  deriving DecidableEq, Repr

/-- The limits for data from outside. -/
def Limits.standard : Limits := ⟨200, 4300⟩

/-- Sets a field of a record; a new one goes to the end. -/
def put (name : String) (j : Json) : List (String × Json) → List (String × Json)
  | [] => [(name, j)]
  | (other, k) :: fields =>
    if other = name then (name, j) :: fields else (other, k) :: put name j fields

/-- A list or record that is open, with what it holds so far; items are kept latest first. -/
inductive Frame where
  | list (items : List Json)
  | record (fields : List (String × Json))
  -- A record that waits for the value of the named field.
  | field (fields : List (String × Json)) (name : String)
  deriving Repr

inductive Expected where
  | value
  -- A value, or the end of the list just opened.
  | item
  | name
  -- A name, or the end of the record just opened.
  | firstName
  | colon
  -- A comma, or the end of the innermost list or record.
  | more
  deriving DecidableEq, Repr

inductive Reading where
  | within (expected : Expected) (frames : List Frame)
  | done (j : Json)
  deriving Repr

namespace Reading

/-- Puts a complete value where it belongs. -/
def deliver (j : Json) : List Frame → Option Reading
  | [] => some (.done j)
  | .list items :: frames => some (.within .more (.list (j :: items) :: frames))
  | .field fields name :: frames => some (.within .more (.record (put name j fields) :: frames))
  | .record _ :: _ => none

def closeList : List Frame → Option Reading
  | .list items :: frames => deliver (.list items.reverse) frames
  | _ => none

def closeRecord : List Frame → Option Reading
  | .record fields :: frames => deliver (.record fields) frames
  | _ => none

def start (limits : Limits) (frames : List Frame) : Token → Option Reading
  | .text s => deliver (.text s) frames
  | .word cs => do deliver (← ofWord? limits.whole cs) frames
  | .mark c =>
    if c = '[' then some (.within .item (.list [] :: frames))
    else if c = '\x7b' then some (.within .firstName (.record [] :: frames))
    else none

/-- Goes into the list or record just opened, unless too many are open. -/
def enter (limits : Limits) (frames : List Frame) (r : Option Reading) : Option Reading :=
  if frames.length ≤ limits.nesting then r else none

def naming (frames : List Frame) (name : String) : Option Reading :=
  match frames with
  | .record fields :: frames => some (.within .colon (.field fields name :: frames))
  | _ => none

/-- Reads on after a complete item or field. -/
def goOn (frames : List Frame) (c : Char) : Option Reading :=
  match frames with
  | .list _ :: _ =>
    if c = ',' then some (.within .value frames) else if c = ']' then closeList frames else none
  | .record _ :: _ =>
    if c = ',' then some (.within .name frames) else if c = '\x7d' then closeRecord frames else none
  | _ => none

def step (limits : Limits) : Reading → Token → Option Reading
  | .within .value frames, t => start limits frames t
  | .within .item frames, t =>
    if t = .mark ']' then closeList frames else enter limits frames (start limits frames t)
  | .within .name frames, .text s => naming frames s
  | .within .firstName frames, .text s => enter limits frames (naming frames s)
  | .within .firstName frames, .mark c => if c = '\x7d' then closeRecord frames else none
  | .within .colon frames, .mark c => if c = ':' then some (.within .value frames) else none
  | .within .more frames, .mark c => goOn frames c
  | _, _ => none

/-- The value, when all of it has been read. -/
def value? : Reading → Option Json
  | .done j => some j
  | _ => none

end Reading

def ofTokens? (limits : Limits) (ts : List Token) : Option Json := do
  (← ts.foldlM (Reading.step limits) (.within .value [])).value?

def read? (limits : Limits) (s : String) : Option Json := do
  ofTokens? limits (← tokens? s.toList)

end Symantics.Json
