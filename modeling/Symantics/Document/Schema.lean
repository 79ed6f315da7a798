import Symantics.Document.Basic
import Symantics.Json.Record

/-
  The JSON form of documents.

  A document is a record with one field `nodes`, the list of its entries. An entry is
  a record whose field `kind` is "leaf" or "node": a leaf has a field `text`, a node
  a field `tag` and, unless it has no children, a field `children`. On its own an
  entry may leave out its kind; in a document the kind says which fields to check.
-/
namespace Symantics

namespace Entry

def leafOfFields (fields : List (String × Json)) : Checked Entry :=
  ((Json.optional "kind" "leaf" (Json.asWord ["leaf"] "'leaf'") fields).both
    ((Json.required "text" Json.asText fields).both
      (Json.onlyFields ["kind", "text"] fields))).map fun (_, text, _) => .leaf text

def nodeOfFields (fields : List (String × Json)) : Checked Entry :=
  ((Json.optional "kind" "node" (Json.asWord ["node"] "'node'") fields).both
    ((Json.required "tag" Json.asText fields).both
      ((Json.optional "children" [] (Json.asList Json.asInteger) fields).both
        (Json.onlyFields ["kind", "tag", "children"] fields)))).map
    fun (_, tag, children, _) => .node tag children

def ofJson : Json → Checked Entry
  | .record fields => match Json.lookup "kind" fields with
    | some (.text "leaf") => (leafOfFields fields).inside "leaf"
    | some (.text "node") => (nodeOfFields fields).inside "node"
    | _ => .problem .noKind
  | _ => .problem .notRecord

def toJson : Entry → Json
  | leaf text => .record [("kind", .text "leaf"), ("text", .text text)]
  | node tag children =>
    .record [("kind", .text "node"), ("tag", .text tag), ("children", .list (children.map .int))]

end Entry

namespace Document

/-- Entries that must make a document. -/
def ofEntries (es : List Entry) : Checked Document :=
  match ofEntries? es with
  | some d => .ok d
  | none => .problem .tooShort

def ofItems (j : Json) : Checked Document :=
  match Json.asList Entry.ofJson j with
  | .ok es => ofEntries es
  | .error r => .error r

def ofJson : Json → Checked Document
  | .record fields =>
    ((Json.required "nodes" ofItems fields).both (Json.onlyFields ["nodes"] fields)).map (·.1)
  | _ => .problem .notRecord

def toJson (d : Document) : Json := .record [("nodes", .list (d.entries.map Entry.toJson))]

end Document

end Symantics
