import Mathlib.Data.List.Forall2
import Symantics.Log.Record
import Symantics.Proofs.JsonText

/-
  Log lines as JSON.

  Data without floating-point numbers, written with blanks after commas and colons, is
  one line of text: no character of it is below U+0020, since texts are quoted with
  escapes for those (`oneLine_chars`). A record whose level and logger are texts and
  whose attributes are texts, integers that may be written or tuples of such integers has
  a line, and the line holds all of the record: it is read back as its parts and the
  attributes that are there and not null, each with its value (`jsonLine_lossless`).
-/
namespace Symantics

namespace Json

/-! ## One line of text -/

/-- None of the characters is a control character such as the end of a line. -/
def OneLine (cs : List Char) : Prop := ∀ c ∈ cs, 0x20 ≤ c.toNat

instance : DecidablePred OneLine := fun cs =>
  List.decidableBAll (fun c : Char => 0x20 ≤ c.toNat) cs

section

variable {cs ds : List Char}

theorem OneLine.append (hc : OneLine cs) (hd : OneLine ds) : OneLine (cs ++ ds) :=
  List.forall_mem_append.mpr ⟨hc, hd⟩

theorem OneLine.cons {c : Char} (hc : 0x20 ≤ c.toNat) (hd : OneLine ds) : OneLine (c :: ds) :=
  List.forall_mem_cons.mpr ⟨hc, hd⟩

theorem oneLine_intersperse (hc : OneLine cs) (items : List (List Char))
    (h : ∀ ds ∈ items, OneLine ds) : OneLine (items.intersperse cs).flatten := by
  cases items with
  | nil => nofun
  | cons ds items =>
    induction items generalizing ds with
    | nil => simpa using h
    | cons es items ih =>
      obtain ⟨hd, rest⟩ := List.forall_mem_cons.mp h
      rw [List.intersperse_cons_cons, List.flatten_cons, List.flatten_cons]
      exact hd.append (hc.append (ih es rest))

end

theorem oneLine_hex : ∀ n < 0x20, OneLine (Text.hex 4 n) := by decide

theorem oneLine_escaped (c : Char) : OneLine (escaped c) := by
  unfold escaped
  repeat' split
  · decide
  · decide
  · decide
  · decide
  · decide
  · decide
  · decide
  · next control => exact .cons (by decide) (.cons (by decide) (oneLine_hex c.toNat control))
  · next visible => exact .cons (Nat.le_of_not_lt visible) nofun

theorem oneLine_quotedChars (s : String) : OneLine (quotedChars s) := by
  have inner : OneLine (s.toList.flatMap escaped) := by
    intro d hd
    obtain ⟨c, _, mem⟩ := List.mem_flatMap.mp hd
    exact oneLine_escaped c d mem
  exact .append (.cons (by decide) inner) (by decide)

theorem oneLine_decimal (n : Int) : OneLine (Decimal.chars n) := by
  intro c hc
  rcases Decimal.mem_chars c hc with digit | rfl
  · simp only [Char.isDigit, Bool.and_eq_true, decide_eq_true_eq] at digit
    exact Nat.le_trans (by decide) digit.1
  · decide

theorem oneLine_enclosed {opening closing : Char} (ho : 0x20 ≤ opening.toNat)
    (hc : 0x20 ≤ closing.toNat) (depth : Nat) {items : List (List Char)}
    (h : ∀ cs ∈ items, OneLine cs) :
    OneLine (enclosed .spaced depth opening closing items) := by
  cases items with
  | nil => exact .cons ho (.cons hc nofun)
  | cons cs items =>
    have inner : OneLine ((cs :: items).intersperse [',', ' ']).flatten :=
      oneLine_intersperse (by decide) _ h
    exact .append (.append (.cons ho inner) nofun) (.cons hc nofun)

/-- Data that reads back is written on one line. -/
theorem oneLine_chars {limits : Limits} {opened : Nat} {j : Json} (h : Readable limits opened j)
    (depth : Nat) : OneLine (chars .spaced depth j) := by
  induction h generalizing depth with
  | null =>
    rw [chars]
    decide
  | bool b =>
    rw [chars]
    cases b <;> decide
  | @int _ n _ =>
    rw [chars]
    exact oneLine_decimal n
  | text s =>
    rw [chars]
    exact oneLine_quotedChars s
  | @list _ items _ _ ih =>
    rw [chars, itemChars_eq_map]
    apply oneLine_enclosed (by decide) (by decide)
    intro cs mem
    obtain ⟨j, hj, rfl⟩ := List.mem_map.mp mem
    exact ih j hj (depth + 1)
  | @record _ fields _ _ _ ih =>
    rw [chars, fieldChars_eq_map]
    apply oneLine_enclosed (by decide) (by decide)
    intro cs mem
    obtain ⟨f, hf, rfl⟩ := List.mem_map.mp mem
    exact .append (.append (oneLine_quotedChars f.1) (by decide)) (ih f hf (depth + 1))

end Json

namespace Log

/-! ## Attributes -/

/-- A value that is a text, an integer that may be written or a tuple of such integers, and its
data; the tuple becomes a list. -/
inductive Plain : Value → Json → Prop
  | text (s : String) : Plain (.text s) (.text s)
  | int {n : Int} (h : Decimal.digitCount n ≤ Decimal.digitLimit) : Plain (.int n) (.int n)
  | tuple {ns : List Int} (h : ∀ n ∈ ns, Decimal.digitCount n ≤ Decimal.digitLimit) :
      Plain (.tuple (ns.map .int)) (.list (ns.map .int))

theorem toJson_int {n : Int} (h : Decimal.digitCount n ≤ Decimal.digitLimit) :
    (Value.int n).toJson = .ok (.int n) := by
  have fits : Decimal.fits n = true := decide_eq_true h
  rw [Value.toJson, if_pos fits]

theorem toJsons_ints {ns : List Int} (h : ∀ n ∈ ns, Decimal.digitCount n ≤ Decimal.digitLimit) :
    Value.toJsons (ns.map .int) = .ok (ns.map .int) := by
  induction ns with
  | nil => rfl
  | cons n ns ih =>
    obtain ⟨first, rest⟩ := List.forall_mem_cons.mp h
    rw [List.map_cons, Value.toJsons, ih rest, toJson_int first]
    rfl

section

variable {v : Value} {j : Json}

theorem Plain.toJson (h : Plain v j) : v.toJson = .ok j := by
  cases h with
  | text s => rfl
  | int h => exact toJson_int h
  | tuple h =>
    rw [Value.toJson, toJsons_ints h]
    rfl

/-- A value has no other data. -/
theorem Plain.unique {j' : Json} (h : Plain v j) (h' : Plain v j') : j = j' := by
  cases h.toJson.symm.trans h'.toJson
  rfl

theorem Plain.readable (h : Plain v j) {limits : Json.Limits} {opened : Nat}
    (room : opened < limits.nesting) (whole : Decimal.digitLimit ≤ limits.whole) :
    Json.Readable limits opened j := by
  cases h with
  | text s => exact .text s
  | int h => exact .int (Nat.le_trans h whole)
  | @tuple ns h =>
    refine .list (fun _ => room) ?_
    intro j mem
    obtain ⟨n, hn, rfl⟩ := List.mem_map.mp mem
    exact .int (Nat.le_trans (h n hn) whole)

end

/-- Fields with their data. -/
def PlainFields : List (String × Value) → List (String × Json) → Prop :=
  List.Forall₂ fun f g => f.1 = g.1 ∧ Plain f.2 g.2

namespace PlainFields

variable {fs : List (String × Value)} {gs : List (String × Json)}

theorem ofPlain (h : ∀ f ∈ fs, ∃ j, Plain f.2 j) : ∃ gs, PlainFields fs gs := by
  induction fs with
  | nil => exact ⟨[], .nil⟩
  | cons f fs ih =>
    obtain ⟨⟨j, first⟩, rest⟩ := List.forall_mem_cons.mp h
    obtain ⟨gs, fields⟩ := ih rest
    exact ⟨(f.1, j) :: gs, .cons ⟨rfl, first⟩ fields⟩

theorem toJson (h : PlainFields fs gs) : Value.fieldsToJson fs = .ok gs := by
  induction h with
  | nil => rfl
  | @cons f g fs gs first _ ih =>
    obtain ⟨name, plain⟩ := first
    rw [Value.fieldsToJson, ih, plain.toJson, name]
    rfl

theorem names (h : PlainFields fs gs) : fs.map Prod.fst = gs.map Prod.fst := by
  induction h with
  | nil => rfl
  | cons first _ ih => rw [List.map_cons, List.map_cons, first.1, ih]

theorem mem_iff (h : PlainFields fs gs) {name : String} {j : Json} :
    (name, j) ∈ gs ↔ ∃ v, (name, v) ∈ fs ∧ Plain v j := by
  induction h with
  | nil => simp
  | @cons f g fs gs first _ ih =>
    obtain ⟨same, plain⟩ := first
    have head : (name, j) = g ↔ ∃ v, (name, v) = f ∧ Plain v j := by
      constructor
      · rintro rfl
        exact ⟨f.2, Prod.ext same.symm rfl, plain⟩
      · rintro ⟨v, rfl, plain'⟩
        exact Prod.ext same (plain'.unique plain)
    simp only [List.mem_cons, or_and_right, exists_or, head, ih]

end PlainFields

namespace Record

/-! ## What a line shows -/

/-- Fields that show a record: those of the attributes for a line that are there and not null,
in their order, with their data. -/
structure Shown (r : Record) (shown : List (String × Json)) : Prop where
  order : (shown.map Prod.fst).Sublist shownAttributes
  exact : ∀ name j, (name, j) ∈ shown ↔
    name ∈ shownAttributes ∧ ∃ v, r.attributes.lookup name = some v ∧ Plain v j

/-- The attributes that a line shows, with their values. -/
def showing (r : Record) : List (String × Value) :=
  shownAttributes.filterMap fun name => (r.attribute? name).map (name, ·)

variable {r : Record} {shown : List (String × Json)}

theorem attribute?_eq_some {name : String} {v : Value} :
    r.attribute? name = some v ↔ r.attributes.lookup name = some v ∧ v ≠ .null := by
  unfold attribute?
  split
  · next absent => simp only [absent]; grind
  · next absent => simp [absent]
  · next found there => grind

theorem mem_showing {name : String} {v : Value} :
    (name, v) ∈ r.showing ↔
      name ∈ shownAttributes ∧ r.attributes.lookup name = some v ∧ v ≠ .null := by
  rw [← attribute?_eq_some, showing, List.mem_filterMap]
  constructor
  · rintro ⟨_, shown, found⟩
    obtain ⟨_, there, ⟨⟩⟩ := Option.map_eq_some_iff.mp found
    exact ⟨shown, there⟩
  · rintro ⟨shown, there⟩
    exact ⟨name, shown, by rw [there]; rfl⟩

theorem names_showing (r : Record) : (r.showing.map Prod.fst).Sublist shownAttributes := by
  have names : r.showing.map Prod.fst =
      shownAttributes.filter fun name => (r.attribute? name).isSome := by
    rw [showing, List.map_filterMap, ← List.filterMap_eq_filter]
    congr 1
    funext name
    cases h : r.attribute? name <;> simp [Option.guard, h]
  rw [names]
  exact List.filter_sublist

theorem Shown.ofPlain (h : PlainFields r.showing shown) : r.Shown shown := by
  refine ⟨?_, ?_⟩
  · rw [← h.names]
    exact r.names_showing
  · intro name j
    rw [h.mem_iff]
    constructor
    · rintro ⟨v, mem, data⟩
      obtain ⟨known, found, -⟩ := mem_showing.mp mem
      exact ⟨known, v, found, data⟩
    · rintro ⟨known, v, found, data⟩
      have there : v ≠ .null := by
        rintro rfl
        cases data
      exact ⟨v, mem_showing.mpr ⟨known, found, there⟩, data⟩

/-! ## Lines -/

/-- What every line has. -/
def parts (time level logger message : String) : List (String × Json) :=
  [("timestamp", .text time), ("level", .text level), ("logger", .text logger),
    ("message", .text message)]

section

variable {time level logger message : String}

theorem jsonLine_eq (hl : r.level = .text level) (hn : r.logger = .text logger)
    (hm : r.filled = .ok message) (he : r.exception = none) (h : PlainFields r.showing shown) :
    r.jsonLine time =
      .ok (Json.write .spaced (.record (parts time level logger message ++ shown))) := by
  let values : List (String × Value) := [("timestamp", .text time), ("level", .text level),
    ("logger", .text logger), ("message", .text message)]
  have fields : r.fields time = .ok (values ++ r.showing) := by
    rw [fields, hm, he, hl, hn]
    show Except.ok (values ++ r.showing ++ []) = _
    rw [List.append_nil]
  have data : PlainFields (values ++ r.showing) (parts time level logger message ++ shown) :=
    .cons ⟨rfl, .text time⟩ (.cons ⟨rfl, .text level⟩ (.cons ⟨rfl, .text logger⟩
      (.cons ⟨rfl, .text message⟩ h)))
  rw [jsonLine, fields]
  show (do
    let j ← (Value.fieldsToJson (values ++ r.showing)).map Json.record
    return j.write .spaced) = _
  rw [data.toJson]
  rfl

/-- The data of a line is found again in its text. -/
theorem Shown.readable (h : r.Shown shown) {limits : Json.Limits} (room : 2 ≤ limits.nesting)
    (whole : Decimal.digitLimit ≤ limits.whole) :
    Json.Readable limits 0 (.record (parts time level logger message ++ shown)) := by
  have distinct : ((parts time level logger message ++ shown).map Prod.fst).Nodup := by
    have names := h.order.append_left ["timestamp", "level", "logger", "message"]
    exact names.nodup (by decide)
  refine .record (fun _ => by omega) distinct ?_
  intro f mem
  rcases List.mem_append.mp mem with part | other
  · simp only [parts, List.mem_cons, List.not_mem_nil, or_false] at part
    rcases part with rfl | rfl | rfl | rfl <;> exact .text _
  · obtain ⟨-, v, -, data⟩ := (h.exact f.1 f.2).mp other
    exact data.readable (by omega) whole

end

/-- A record with a text for level and logger, a message that can be filled in and plain attributes
has a line, which is one line of text and is read back as a record of its parts and of exactly the
attributes that are there and not null. -/
theorem jsonLine_lossless (time : String) (r : Record) {level logger message : String}
    (hl : r.level = .text level) (hn : r.logger = .text logger) (hm : r.filled = .ok message)
    (he : r.exception = none)
    (plain : ∀ name ∈ shownAttributes, ∀ v, r.attributes.lookup name = some v →
      v = .null ∨ ∃ j, Plain v j) :
    ∃ line shown, r.jsonLine time = .ok line ∧ Json.OneLine line.toList ∧ r.Shown shown ∧
      ∀ limits : Json.Limits, 2 ≤ limits.nesting → Decimal.digitLimit ≤ limits.whole →
        Json.read? limits line = some (.record (parts time level logger message ++ shown)) := by
  obtain ⟨shown, data⟩ : ∃ shown, PlainFields r.showing shown := by
    apply PlainFields.ofPlain
    intro f mem
    obtain ⟨name, found, there⟩ := mem_showing.mp mem
    exact (plain f.1 name f.2 found).resolve_left there
  have exact : r.Shown shown := .ofPlain data
  refine ⟨_, shown, jsonLine_eq hl hn hm he data, ?_, exact, ?_⟩
  · rw [Json.write, String.toList_ofList]
    have readable : Json.Readable .standard 0
        (.record (parts time level logger message ++ shown)) :=
      exact.readable (by decide) (by decide)
    exact Json.oneLine_chars readable 0
  · intro limits room whole
    exact Json.read?_write (exact.readable room whole) .spaced

/-- Quotes and ends of lines in texts, an empty tuple, an empty text and a null. -/
theorem jsonLine_lossless_of_quotes :
    let r : Record := {
      level := .text "WARNING", logger := .text "a.b", message := .text "line\nof %s"
      arguments := .tuple [.text "\"\\"]
      attributes := [("path", .tuple []), ("tag", .text ""), ("error_code", .null),
        ("depth", .int (-3)), ("other", .float .nan)] }
    r.filled = .ok "line\nof \"\\" ∧
    ∃ line shown, r.jsonLine "now" = .ok line ∧ Json.OneLine line.toList ∧
      (("path", .list []) ∈ shown ∧ ("tag", .text "") ∈ shown ∧ ("depth", .int (-3)) ∈ shown) ∧
      (∀ j, ("error_code", j) ∉ shown) ∧
      Json.read? .standard line =
        some (.record (parts "now" "WARNING" "a.b" "line\nof \"\\" ++ shown)) := by
  intro r
  have filled : r.filled = .ok "line\nof \"\\" := by rfl
  have empty : Plain (.tuple []) (.list []) := @Plain.tuple [] nofun
  have plain : ∀ name ∈ shownAttributes, ∀ v, r.attributes.lookup name = some v →
      v = .null ∨ ∃ j, Plain v j := by
    intro name known v found
    have cases : name = "interpretation" ∨ name = "tag" ∨ name = "path" ∨ name = "error_code" ∨
        name = "depth" := by simpa [shownAttributes] using known
    rcases cases with rfl | rfl | rfl | rfl | rfl <;> cases found
    · exact .inr ⟨_, .text ""⟩
    · exact .inr ⟨_, empty⟩
    · exact .inl rfl
    · exact .inr ⟨_, .int (by decide)⟩
  obtain ⟨line, shown, written, one, ⟨-, exact⟩, read⟩ :=
    jsonLine_lossless "now" r rfl rfl filled rfl plain
  refine ⟨filled, line, shown, written, one, ⟨?_, ?_, ?_⟩, ?_, read _ (by decide) (by decide)⟩
  · exact (exact _ _).mpr ⟨by decide, _, rfl, empty⟩
  · exact (exact _ _).mpr ⟨by decide, _, rfl, .text ""⟩
  · exact (exact _ _).mpr ⟨by decide, _, rfl, .int (by decide)⟩
  · intro j mem
    obtain ⟨-, v, found, data⟩ := (exact _ _).mp mem
    cases found
    cases data

end Record

end Log

end Symantics
