import Symantics.Json.Reader
import Symantics.Proofs.JsonTokens

/-
  JSON text reads back.

  Data without floating-point numbers, with distinct names in each record and within
  the limits of a reader, is read from its written text as it was, whatever the
  layout (`read?_write`).
-/
namespace Symantics.Json

/-- Data that a reader with some limits finds again in its text when so many lists and records are
open around it. -/
inductive Readable (limits : Limits) : Nat → Json → Prop where
  | null {opened : Nat} : Readable limits opened .null
  | bool {opened : Nat} (b : Bool) : Readable limits opened (.bool b)
  | int {opened : Nat} {n : Int} (h : Decimal.digitCount n ≤ limits.whole) :
      Readable limits opened (.int n)
  | text {opened : Nat} (s : String) : Readable limits opened (.text s)
  | list {opened : Nat} {items : List Json} (room : items ≠ [] → opened < limits.nesting)
      (h : ∀ j ∈ items, Readable limits (opened + 1) j) : Readable limits opened (.list items)
  | record {opened : Nat} {fields : List (String × Json)}
      (room : fields ≠ [] → opened < limits.nesting) (distinct : (fields.map Prod.fst).Nodup)
      (h : ∀ f ∈ fields, Readable limits (opened + 1) f.2) : Readable limits opened (.record fields)

/-! ## Numbers -/

/-- The digits of a number do not start with a zero, but for zero itself. -/
theorem head_toDigits {n : Nat} (h : 0 < n) : ∃ d ds, Nat.toDigits 10 n = d :: ds ∧ d ≠ '0' := by
  induction n using Nat.strongRecOn with
  | ind n ih =>
    by_cases hn : n < 10
    · have digit : ∀ m < 10, 0 < m → m.digitChar ≠ '0' := by decide
      exact ⟨n.digitChar, [], Nat.toDigits_of_lt_base hn, digit n hn h⟩
    · obtain ⟨d, ds, hd, hne⟩ := ih (n / 10) (by omega) (by omega)
      rw [Nat.toDigits_of_base_le (by decide) (by omega), hd]
      exact ⟨d, _, rfl, hne⟩

theorem isWhole_toDigits (n : Nat) : isWhole (Nat.toDigits 10 n) = true := by
  by_cases hn : 0 < n
  · obtain ⟨d, ds, hd, hne⟩ := head_toDigits hn
    rw [hd]
    unfold isWhole
    split <;> simp_all
  · obtain rfl : n = 0 := by omega
    rfl

theorem spanDigits_eq {ds : List Char} (h : ∀ c ∈ ds, c.isDigit = true) :
    spanDigits ds = (ds, []) := by
  induction ds with
  | nil => rfl
  | cons d ds ih =>
    obtain ⟨hd, hds⟩ := List.forall_mem_cons.mp h
    obtain ⟨ht, hn⟩ := Prod.mk.inj (ih hds)
    simp only [spanDigits, List.takeWhile_cons, List.dropWhile_cons, hd, if_true, ht, hn]

/-- The whole part of an integer's text is all of it. -/
theorem Whole.read_chars {limit : Nat} {n : Int} (h : Decimal.digitCount n ≤ limit) :
    Whole.read limit (Decimal.chars n) = .ok (⟨decide (n < 0), Nat.toDigits 10 n.natAbs⟩, []) := by
  have hl : ¬ limit < (Nat.toDigits 10 n.natAbs).length := Nat.not_lt.mpr h
  have span := spanDigits_eq (Decimal.isDigit_toDigits n.natAbs)
  have whole := isWhole_toDigits n.natAbs
  unfold Decimal.chars
  by_cases hn : n < 0
  · simp [Whole.read, hn, span, whole, hl]
  · rw [if_neg hn]
    cases hd : Nat.toDigits 10 n.natAbs with
    | nil => exact absurd hd Nat.toDigits_ne_nil
    | cons d ds =>
      -- without a sign the first character is a digit
      have hc : d ≠ '-' := Decimal.toDigits_ne_dash n.natAbs d (hd ▸ List.mem_cons_self)
      rw [hd] at span whole hl
      simpa [Whole.read, hn, hc, span, whole] using hl

theorem number?_chars {limit : Nat} {n : Int} (h : Decimal.digitCount n ≤ limit) :
    number? limit (Decimal.chars n) = some (.int n) := by
  rw [number?, Whole.read_chars h]
  simp only [Whole.toInt, Nat.ofDigitChars_ten_toDigits, decide_eq_true_eq, Option.some.injEq,
    Json.int.injEq]
  split <;> omega

/-- A word that starts like a number is no name. -/
theorem ofWord?_eq_number? {limit : Nat} {cs : List Char}
    (h : ∀ c ∈ cs, c.isDigit = true ∨ c = '-') : ofWord? limit cs = number? limit cs := by
  unfold ofWord?
  split
  · exact absurd (h 'n' (by simp)) (by decide)
  · exact absurd (h 't' (by simp)) (by decide)
  · exact absurd (h 'f' (by simp)) (by decide)
  · exact absurd (h 'N' (by simp)) (by decide)
  · exact absurd (h 'I' (by simp)) (by decide)
  · exact absurd (h 'I' (by simp)) (by decide)
  · rfl

theorem ofWord?_chars {limit : Nat} {n : Int} (h : Decimal.digitCount n ≤ limit) :
    ofWord? limit (Decimal.chars n) = some (.int n) := by
  rw [ofWord?_eq_number? Decimal.mem_chars, number?_chars h]

/-! ## Texts -/

theorem isWord_of_isDigit {c : Char} (h : c.isDigit = true ∨ c = '-') : isWord c = true := by
  rcases h with h | rfl
  · simp [isWord, Char.isAlphanum, h]
  · rfl

theorem spells_chars {limits : Limits} {opened : Nat} {j : Json} (h : Readable limits opened j)
    (layout : Layout) (depth : Nat) : Spells (chars layout depth j) (tokens j) := by
  induction h generalizing depth with
  | null =>
    rw [chars, tokens]
    exact spells_word (by decide) (List.all_eq_true.mp (by decide))
  | bool b =>
    rw [chars, tokens]
    cases b <;> exact spells_word (by decide) (List.all_eq_true.mp (by decide))
  | int h =>
    rw [chars, tokens]
    exact spells_word (Decimal.chars_ne_nil _) fun c hc => isWord_of_isDigit (Decimal.mem_chars c hc)
  | text s => exact (delimited_quotedChars s).spells
  | @list _ items room h ih =>
    rw [chars, tokens, itemChars_eq_map, itemTokens_eq_map]
    exact (delimited_enclosed layout depth rfl rfl items fun j hj => ih j hj (depth + 1)).spells
  | @record _ fields room distinct h ih =>
    rw [chars, tokens, fieldChars_eq_map, fieldTokens_eq_map]
    apply Delimited.spells
    apply delimited_enclosed layout depth rfl rfl
    intro f hf
    have start := (delimited_quotedChars f.1).append (delimited_colon layout)
    exact start.appendSpells (ih f hf (depth + 1))

/-! ## Reading -/

/-- The tokens of items with commas between them: those of the first, then each with its comma. -/
theorem flatten_intersperse_map {α β : Type} (g : α → List β) (comma : List β) (x : α)
    (xs : List α) : (((x :: xs).map g).intersperse comma).flatten =
      g x ++ xs.flatMap fun y => comma ++ g y := by
  induction xs generalizing x with
  | nil => simp
  | cons y ys ih =>
    rw [List.map_cons, List.map_cons, List.intersperse_cons_cons, List.flatten_cons,
      List.flatten_cons, ← List.map_cons, ih, List.flatMap_cons, List.append_assoc]

theorem put_new {name : String} {fields : List (String × Json)} (j : Json)
    (h : name ∉ fields.map Prod.fst) : put name j fields = fields ++ [(name, j)] := by
  induction fields with
  | nil => rfl
  | cons f fields ih =>
    obtain ⟨hne, hn⟩ := not_or.mp (mt List.mem_cons.mpr h)
    rw [put, if_neg (Ne.symm hne), ih hn]
    rfl

/-- Reading a value that starts where one may start puts it where it belongs. -/
def ReadsAs (limits : Limits) (opened : Nat) (ts : List Token) (j : Json) : Prop :=
  ∃ t us, ts = t :: us ∧ t ≠ .mark ']' ∧ ∀ frames : List Frame, frames.length = opened →
    (Reading.start limits frames t).bind (us.foldlM (Reading.step limits)) =
      Reading.deliver j frames

section

variable {limits : Limits} {opened : Nat} {ts : List Token} {j : Json} {frames : List Frame}

theorem ReadsAs.value (h : ReadsAs limits opened ts j) (hf : frames.length = opened) :
    ts.foldlM (Reading.step limits) (.within .value frames) = Reading.deliver j frames := by
  obtain ⟨t, us, rfl, -, read⟩ := h
  exact read frames hf

/-- Where a list was just opened, its first item is read, if the list may be open. -/
theorem ReadsAs.item (h : ReadsAs limits opened ts j) (hf : frames.length = opened)
    (room : opened ≤ limits.nesting) :
    ts.foldlM (Reading.step limits) (.within .item frames) = Reading.deliver j frames := by
  obtain ⟨t, us, rfl, ht, read⟩ := h
  have enter : Reading.step limits (.within .item frames) t = Reading.start limits frames t := by
    simp [Reading.step, ht, Reading.enter, hf, room]
  rw [List.foldlM_cons, enter]
  exact read frames hf

/-- Items after the first, and the end of the list. -/
theorem foldlM_items (js : List Json) (h : ∀ j ∈ js, ReadsAs limits (opened + 1) (tokens j) j)
    (hf : frames.length = opened) (before : List Json) :
    (js.flatMap (fun j => [Token.mark ','] ++ tokens j) ++ [Token.mark ']']).foldlM
      (Reading.step limits) (.within .more (.list before :: frames)) =
        Reading.deliver (.list (before.reverse ++ js)) frames := by
  induction js generalizing before with
  | nil =>
    rw [List.append_nil]
    show (Reading.deliver (.list before.reverse) frames).bind some = _
    rw [Option.bind_fun_some]
  | cons j js ih =>
    obtain ⟨hj, hjs⟩ := List.forall_mem_cons.mp h
    rw [List.flatMap_cons, List.append_assoc, List.append_assoc, List.singleton_append,
      List.foldlM_cons]
    show List.foldlM (Reading.step limits) (.within .value (.list before :: frames)) _ = _
    rw [List.foldlM_append, hj.value (by rw [List.length_cons, hf])]
    show List.foldlM (Reading.step limits) (.within .more (.list (j :: before) :: frames)) _ = _
    rw [ih hjs, List.reverse_cons, List.append_assoc]
    rfl

/-- A field with a new name is read where a name is expected, or where a record was just opened. -/
theorem foldlM_field {f : String × Json} {before : List (String × Json)}
    (h : ReadsAs limits (opened + 1) (tokens f.2) f.2) (hf : frames.length = opened)
    (new : f.1 ∉ before.map Prod.fst) {expected : Expected}
    (start : Reading.step limits (.within expected (.record before :: frames)) (.text f.1) =
      Reading.naming (.record before :: frames) f.1) :
    (namedTokens f).foldlM (Reading.step limits) (.within expected (.record before :: frames)) =
      some (.within .more (.record (before ++ [f]) :: frames)) := by
  rw [namedTokens, List.foldlM_cons, start]
  show (tokens f.2).foldlM (Reading.step limits) (.within .value (.field before f.1 :: frames)) = _
  rw [h.value (by rw [List.length_cons, hf])]
  show some (Reading.within .more (.record (put f.1 f.2 before) :: frames)) = _
  rw [put_new f.2 new]

/-- Fields after the first, and the end of the record. -/
theorem foldlM_fields (fields before : List (String × Json))
    (h : ∀ f ∈ fields, ReadsAs limits (opened + 1) (tokens f.2) f.2)
    (hf : frames.length = opened) (distinct : ((before ++ fields).map Prod.fst).Nodup) :
    (fields.flatMap (fun f => [Token.mark ','] ++ namedTokens f) ++ [Token.mark '\x7d']).foldlM
      (Reading.step limits) (.within .more (.record before :: frames)) =
        Reading.deliver (.record (before ++ fields)) frames := by
  induction fields generalizing before with
  | nil =>
    rw [List.append_nil]
    show (Reading.deliver (.record before) frames).bind some = _
    rw [Option.bind_fun_some]
  | cons f fields ih =>
    obtain ⟨hj, hjs⟩ := List.forall_mem_cons.mp h
    -- a name that was there before would be set anew and keep its old place
    have new : f.1 ∉ before.map Prod.fst := by
      rw [List.map_append, List.map_cons] at distinct
      intro hm
      exact (List.nodup_append.mp distinct).2.2 f.1 hm f.1 List.mem_cons_self rfl
    have rest : before ++ f :: fields = before ++ [f] ++ fields := by simp
    rw [rest] at distinct ⊢
    rw [List.flatMap_cons, List.append_assoc, List.append_assoc, List.singleton_append,
      List.foldlM_cons]
    show List.foldlM (Reading.step limits) (.within .name (.record before :: frames)) _ = _
    rw [List.foldlM_append, foldlM_field hj hf new rfl]
    exact ih (before ++ [f]) hjs distinct

end

theorem readsAs_singleton {limits : Limits} {opened : Nat} {t : Token} {j : Json}
    (ht : t ≠ .mark ']')
    (start : ∀ frames, Reading.start limits frames t = Reading.deliver j frames) :
    ReadsAs limits opened [t] j := by
  refine ⟨t, [], rfl, ht, ?_⟩
  intro frames _
  rw [start]
  exact Option.bind_fun_some _

theorem readsAs_word {limits : Limits} {opened : Nat} {cs : List Char} {j : Json}
    (h : ofWord? limits.whole cs = some j) : ReadsAs limits opened [.word cs] j := by
  apply readsAs_singleton (by simp)
  intro frames
  rw [Reading.start, h]
  rfl

theorem readsAs_tokens {limits : Limits} {opened : Nat} {j : Json} (h : Readable limits opened j) :
    ReadsAs limits opened (tokens j) j := by
  induction h with
  | null =>
    rw [tokens]
    exact readsAs_word rfl
  | bool b =>
    rw [tokens]
    cases b
    · exact readsAs_word rfl
    · exact readsAs_word rfl
  | int h =>
    rw [tokens]
    exact readsAs_word (ofWord?_chars h)
  | text s =>
    rw [tokens]
    exact readsAs_singleton (by simp) fun _ => rfl
  | @list opened items room h ih =>
    rw [tokens, itemTokens_eq_map, enclosedTokens, List.cons_append]
    refine ⟨_, _, rfl, by decide, ?_⟩
    intro frames hf
    show List.foldlM (Reading.step limits) (.within .item (.list [] :: frames)) _ = _
    cases items with
    | nil => exact Option.bind_fun_some _
    | cons j js =>
      obtain ⟨hj, hjs⟩ := List.forall_mem_cons.mp ih
      have inside : (Frame.list [] :: frames).length = opened + 1 := by rw [List.length_cons, hf]
      rw [flatten_intersperse_map, List.append_assoc, List.foldlM_append,
        hj.item inside (room (List.cons_ne_nil j js))]
      exact foldlM_items js hjs hf [j]
  | @record opened fields room distinct h ih =>
    rw [tokens, fieldTokens_eq_map, enclosedTokens, List.cons_append]
    refine ⟨_, _, rfl, by decide, ?_⟩
    intro frames hf
    show List.foldlM (Reading.step limits) (.within .firstName (.record [] :: frames)) _ = _
    cases fields with
    | nil => exact Option.bind_fun_some _
    | cons f fields =>
      obtain ⟨hj, hjs⟩ := List.forall_mem_cons.mp ih
      -- only the first name is checked for how many lists and records are open
      have enter : Reading.step limits (.within .firstName (.record [] :: frames)) (.text f.1) =
          Reading.naming (.record [] :: frames) f.1 := by
        have inside : (Frame.record [] :: frames).length ≤ limits.nesting := by
          rw [List.length_cons, hf]
          exact room (List.cons_ne_nil f fields)
        exact if_pos inside
      have first := foldlM_field hj hf List.not_mem_nil enter
      rw [flatten_intersperse_map, List.append_assoc, List.foldlM_append, first]
      exact foldlM_fields fields [f] hjs hf distinct

/-- Readable data is read from its text as it was. -/
theorem read?_write {limits : Limits} {j : Json} (h : Readable limits 0 j) (layout : Layout) :
    read? limits (j.write layout) = some j := by
  have text : tokens? (j.write layout).toList = some (tokens j) := by
    rw [write, String.toList_ofList]
    exact (spells_chars h layout 0).tokens
  rw [read?, text]
  show ofTokens? limits (tokens j) = _
  rw [ofTokens?, (readsAs_tokens h).value rfl]
  rfl

end Symantics.Json
