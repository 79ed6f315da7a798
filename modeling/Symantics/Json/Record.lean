import Symantics.Json.Integer

/-
  Checking records.

  A record is checked field by field: a field may be required or have a default, its
  data must fit, and fields that are not asked for are refused. All checks are made,
  and every issue is placed at its field.
-/
namespace Symantics.Json

/-- The field with a name, checked. -/
def required {α : Type} (name : String) (check : Json → Checked α)
    (fields : List (String × Json)) : Checked α :=
  .inside name <| match lookup name fields with
    | none => .problem .missing
    | some j => check j

/-- The field with a name, checked, or a default where there is none. -/
def optional {α : Type} (name : String) (default : α) (check : Json → Checked α)
    (fields : List (String × Json)) : Checked α :=
  .inside name <| match lookup name fields with
    | none => .ok default
    | some j => check j

/-- Refuses every field that has none of the names. -/
def onlyFields (names : List String) (fields : List (String × Json)) : Checked Unit :=
  .none ((fields.filter fun f => !names.contains f.1).map fun f => ⟨[f.1], .extra⟩)

def asText : Json → Checked String
  | text s => .ok s
  | _ => .problem .notText

/-- Data that must be one of some words; `shown` lists them for the message. -/
def asWord (words : List String) (shown : String) : Json → Checked String
  | text s => if words.contains s then .ok s else .problem (.otherThan shown)
  | _ => .problem (.otherThan shown)

def asInteger (j : Json) : Checked Int :=
  match j.toInteger with
  | .ok n => .ok n
  | .error p => .problem p

/-- Data that must be a list, with its items checked. -/
def asList {α : Type} (check : Json → Checked α) : Json → Checked (List α)
  | list js => Checked.items check 0 js
  | _ => .problem .notList

end Symantics.Json
