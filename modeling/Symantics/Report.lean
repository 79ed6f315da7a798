/-
  Validation reports.

  Checking untyped data collects every issue instead of stopping at the first.
  An issue has a place (field names and indexes from the outside in) and a
  problem; a problem has a short code and a message. A report is what was found,
  and holds at least one issue when it is handed out as a failure.
-/
namespace Symantics

/-- What is wrong with one part of checked data. -/
inductive Problem where
  -- The text is no JSON text.
  | notJson
  | missing
  | extra
  | notText
  | notList
  | notRecord
  | tooShort
  | noKind
  | otherThan (allowed : String)
  | notInteger
  | fractional
  | unreadableInteger
  | oversizedInteger
  | infiniteNumber
  | below (least : Int)
  | above (greatest : Int)
  | refused (reason : String)
  deriving DecidableEq, Repr

namespace Problem

def code : Problem → String
  | notJson => "json_invalid"
  | missing => "missing"
  | extra => "extra_forbidden"
  | notText => "string_type"
  | notList => "list_type"
  | notRecord => "model_type"
  | tooShort => "too_short"
  | noKind => "union_tag_invalid"
  | otherThan _ => "literal_error"
  | notInteger => "int_type"
  | fractional => "int_from_float"
  | unreadableInteger => "int_parsing"
  | oversizedInteger => "int_parsing_size"
  | infiniteNumber => "finite_number"
  | below _ => "greater_than_equal"
  | above _ => "less_than_equal"
  | refused _ => "value_error"

def message : Problem → String
  | notJson => "Invalid JSON"
  | missing => "Field required"
  | extra => "Extra inputs are not permitted"
  | notText => "Input should be a valid string"
  | notList => "Input should be a valid list"
  | notRecord => "Input should be a valid dictionary"
  | tooShort => "List should have at least 1 item after validation, not 0"
  | noKind => "Unable to extract tag using discriminator 'kind'"
  | otherThan allowed => "Input should be " ++ allowed
  | notInteger => "Input should be a valid integer"
  | fractional => "Input should be a valid integer, got a number with a fractional part"
  | unreadableInteger =>
    "Input should be a valid integer, unable to parse string as an integer"
  | oversizedInteger => "Unable to parse input string as an integer, exceeded maximum size"
  | infiniteNumber => "Input should be a finite number"
  | below least => "Input should be greater than or equal to " ++ toString least
  | above greatest => "Input should be less than or equal to " ++ toString greatest
  | refused reason => "Value error, " ++ reason

end Problem

/-- A problem and where it was found. -/
structure Issue where
  place : List String
  problem : Problem
  deriving DecidableEq, Repr

/-- The issue seen from the record or list around it. -/
def Issue.inside (step : String) (i : Issue) : Issue := { i with place := step :: i.place }

/-- All that a check found, in the order of checking. -/
abbrev Report := List Issue

namespace Report

/-- The order of a listing: by place, then by code, then by message. -/
def before (a b : Issue) : Bool :=
  let key (i : Issue) := (i.place, i.problem.code, i.problem.message)
  match compareOfLessAndEq (key a).1 (key b).1 with
  | .lt => true
  | .gt => false
  | .eq => match compareOfLessAndEq (key a).2.1 (key b).2.1 with
    | .lt => true
    | .gt => false
    | .eq => (key a).2.2 ≤ (key b).2.2

/-- The issues in the order of a listing. -/
def listing (r : Report) : List Issue := r.mergeSort before

end Report

/-- Checked data, or all that is wrong with it. -/
abbrev Checked (α : Type) := Except Report α

namespace Checked

variable {α β : Type}

/-- A single problem with the data itself. -/
def problem (p : Problem) : Checked α := .error [⟨[], p⟩]

/-- The check seen from the record or list around it. -/
def inside (step : String) : Checked α → Checked α
  | .ok a => .ok a
  | .error r => .error (r.map (·.inside step))

/-- Two checks that are both made; the issues of the first come first. -/
def both : Checked α → Checked β → Checked (α × β)
  | .ok a, .ok b => .ok (a, b)
  | .ok _, .error s => .error s
  | .error r, .ok _ => .error r
  | .error r, .error s => .error (r ++ s)

/-- A check of every item, each seen from its index on. -/
def items (check : α → Checked β) (index : Nat) : List α → Checked (List β)
  | [] => .ok []
  | a :: as => (both ((check a).inside (toString index)) (items check (index + 1) as)).map
    fun (b, bs) => b :: bs

/-- Issues alone, as a check: it holds when there are none. -/
def none : Report → Checked Unit
  | [] => .ok ()
  | r => .error r

end Checked

end Symantics
