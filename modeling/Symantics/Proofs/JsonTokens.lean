import Symantics.Json.Token
import Symantics.Json.Writer

/-
  The tokens of JSON text as it is written.

  Every part of a written text is scanned for itself: `Spells` says which tokens a
  text stands for, and `Delimited` that its last token also ends there, so that any
  text may follow. A word ends only where something else begins, and in a written
  text that is always a comma, a line or a closing mark (`spells_chars`).
-/
namespace Symantics.Json

/-! ## Scanning part of a text -/

/-- The tokens so far, latest first, when the last of them may end here. -/
def Scan.settled (s : Scan) : Option (List Token) :=
  match s.mode with
  | .between => some s.tokens
  | .word read => some (.word read.reverse :: s.tokens)
  | _ => none

/-- A text that stands for some tokens, if it is not continued by the characters of a word. -/
def Spells (cs : List Char) (ts : List Token) : Prop :=
  ∀ before, ∃ s, cs.foldlM Scan.step ⟨.between, before⟩ = some s ∧
    s.settled = some (ts.reverse ++ before)

/-- A text that stands for some tokens whatever follows it. -/
def Delimited (cs : List Char) (ts : List Token) : Prop :=
  ∀ before, cs.foldlM Scan.step ⟨.between, before⟩ = some ⟨.between, ts.reverse ++ before⟩

/-- A text that does not continue a word. -/
def Apart (cs : List Char) : Prop := ∃ c ds, cs = c :: ds ∧ isWord c = false

theorem Scan.finish_eq (s : Scan) : s.finish = s.settled.map List.reverse := by
  rcases s with ⟨mode, tokens⟩
  cases mode <;> rfl

/-- A character that continues no word ends the token before it. -/
theorem Scan.step_settled {s : Scan} {before : List Token} {c : Char}
    (hs : s.settled = some before) (hc : isWord c = false) :
    s.step c = Scan.step ⟨.between, before⟩ c := by
  rcases s with ⟨mode, tokens⟩
  cases mode with
  | between =>
    obtain rfl := Option.some.inj hs
    rfl
  | word read =>
    obtain rfl := Option.some.inj hs
    simp only [step, hc, Bool.false_eq_true, if_false]
  | _ => cases hs

section

variable {cs ds : List Char} {ts us : List Token}

theorem Delimited.spells (h : Delimited cs ts) : Spells cs ts :=
  fun before => ⟨_, h before, rfl⟩

theorem delimited_nil : Delimited [] [] := fun _ => rfl

theorem Delimited.append (hc : Delimited cs ts) (hd : Delimited ds us) :
    Delimited (cs ++ ds) (ts ++ us) := by
  intro before
  rw [List.foldlM_append, hc before]
  show ds.foldlM Scan.step _ = _
  rw [hd, List.reverse_append, List.append_assoc]

theorem Delimited.appendSpells (hc : Delimited cs ts) (hd : Spells ds us) :
    Spells (cs ++ ds) (ts ++ us) := by
  intro before
  obtain ⟨s, hs, settled⟩ := hd (ts.reverse ++ before)
  refine ⟨s, ?_, by rw [settled, List.reverse_append, List.append_assoc]⟩
  rw [List.foldlM_append, hc before]
  exact hs

/-- What continues no word ends a token that is still open. -/
theorem Spells.append (hc : Spells cs ts) (hd : Delimited ds us) (apart : Apart ds) :
    Delimited (cs ++ ds) (ts ++ us) := by
  obtain ⟨c, ds, rfl, hw⟩ := apart
  intro before
  obtain ⟨s, hs, settled⟩ := hc before
  have next := hd (ts.reverse ++ before)
  rw [List.foldlM_cons] at next
  rw [List.foldlM_append, hs]
  show (c :: ds).foldlM Scan.step s = _
  rw [List.foldlM_cons, Scan.step_settled settled hw, next, List.reverse_append, List.append_assoc]

theorem Spells.tokens (h : Spells cs ts) : tokens? cs = some ts := by
  obtain ⟨s, hs, settled⟩ := h []
  rw [tokens?, hs]
  show s.finish = _
  rw [Scan.finish_eq, settled, List.append_nil, Option.map_some, List.reverse_reverse]

/-! ## Blanks, marks, words and quoted texts -/

theorem delimited_blank {c : Char} (h : isBlank c = true) : Delimited [c] [] := by
  intro before
  simp only [List.foldlM_cons, List.foldlM_nil, Scan.step, Scan.enter, h, if_true]
  rfl

theorem delimited_mark {c : Char} (hb : isBlank c = false) (hm : isMark c = true) :
    Delimited [c] [.mark c] := by
  intro before
  simp only [List.foldlM_cons, List.foldlM_nil, Scan.step, Scan.enter, hb, hm, if_true,
    Bool.false_eq_true, if_false]
  rfl

theorem delimited_blanks (h : ∀ c ∈ cs, isBlank c = true) : Delimited cs [] := by
  induction cs with
  | nil => exact delimited_nil
  | cons c cs ih =>
    have hc := delimited_blank (h c List.mem_cons_self)
    exact hc.append (ih fun d hd => h d (List.mem_cons_of_mem c hd))

/-- The characters of words are no blanks, marks or quotes. -/
theorem others_of_isWord {c : Char} (h : isWord c = true) :
    isBlank c = false ∧ isMark c = false ∧ c ≠ '"' := by
  refine ⟨Bool.eq_false_iff.mpr fun hb => ?_, Bool.eq_false_iff.mpr fun hm => ?_, ?_⟩
  · have blank := of_decide_eq_true hb
    rcases blank with rfl | rfl | rfl | rfl <;> exact absurd h (by decide)
  · have mark := of_decide_eq_true hm
    rcases mark with rfl | rfl | rfl | rfl | rfl | rfl <;> exact absurd h (by decide)
  · intro h
    subst h
    exact absurd h (by decide)

theorem foldlM_word (h : ∀ c ∈ cs, isWord c = true) (read : List Char) (before : List Token) :
    cs.foldlM Scan.step ⟨.word read, before⟩ = some ⟨.word (cs.reverse ++ read), before⟩ := by
  induction cs generalizing read with
  | nil => rfl
  | cons c cs ih =>
    have hc : Scan.step ⟨.word read, before⟩ c = some ⟨.word (c :: read), before⟩ :=
      if_pos (h c List.mem_cons_self)
    rw [List.foldlM_cons, hc]
    show cs.foldlM Scan.step _ = _
    rw [ih (fun d hd => h d (List.mem_cons_of_mem c hd)), List.reverse_cons, List.append_assoc]
    rfl

theorem spells_word (hn : cs ≠ []) (h : ∀ c ∈ cs, isWord c = true) : Spells cs [.word cs] := by
  obtain ⟨c, cs, rfl⟩ := List.exists_cons_of_ne_nil hn
  obtain ⟨hc, hcs⟩ := List.forall_mem_cons.mp h
  obtain ⟨hb, hm, hq⟩ := others_of_isWord hc
  intro before
  have first : Scan.step ⟨.between, before⟩ c = some ⟨.word [c], before⟩ := by
    simp only [Scan.step, Scan.enter, hb, hm, hq, hc, Bool.false_eq_true, if_false, if_true]
  refine ⟨⟨.word (cs.reverse ++ [c]), before⟩, ?_, ?_⟩
  · rw [List.foldlM_cons, first]
    exact foldlM_word hcs [c] before
  · simp [Scan.settled]

/-! Inside quotes. -/

theorem hex_control : ∀ n < 0x20,
    Text.hex 4 n = ['0', '0', (n / 16).digitChar, (n % 16).digitChar] := by
  decide

theorem hexValue?_digitChar : ∀ d < 16, hexValue? d.digitChar = some d := by
  decide

/-- An escaped character is read as itself. -/
theorem foldlM_escaped (c : Char) (read : List Char) (before : List Token) :
    (escaped c).foldlM Scan.step ⟨.text read, before⟩ = some ⟨.text (c :: read), before⟩ := by
  unfold escaped
  split
  · subst_vars; rfl
  split
  · subst_vars; rfl
  split
  · subst_vars; rfl
  split
  · subst_vars; rfl
  split
  · subst_vars; rfl
  split
  · subst_vars; rfl
  split
  · subst_vars; rfl
  split
  · next hc =>
    -- a control character is written as two zeros and two digits, and is no half of a pair
    have high := hexValue?_digitChar (c.toNat / 16) (by omega)
    have low := hexValue?_digitChar (c.toNat % 16) (by omega)
    have value : c.toNat / 16 * 16 + c.toNat % 16 = c.toNat := by omega
    have noHigh : isHighHalf c.toNat = false := by simp [isHighHalf]; omega
    have noLow : isLowHalf c.toNat = false := by simp [isLowHalf]; omega
    have zero : hexValue? '0' = some 0 := by decide
    have escape : Scan.step ⟨.text read, before⟩ '\\' = some ⟨.escape read, before⟩ := rfl
    rw [hex_control c.toNat hc, List.foldlM_cons, escape]
    simp only [List.foldlM_cons, List.foldlM_nil, Scan.step, zero, high, low, Option.bind_eq_bind,
      Option.bind_some, pure]
    simp [afterCode, value, noHigh, noLow]
  · next hq hb _ _ _ _ _ hc =>
    simp only [List.foldlM_cons, List.foldlM_nil, Scan.step, hq, hb, hc, if_false]
    rfl

theorem foldlM_escapes (cs : List Char) (read : List Char) (before : List Token) :
    (cs.flatMap escaped).foldlM Scan.step ⟨.text read, before⟩ =
      some ⟨.text (cs.reverse ++ read), before⟩ := by
  induction cs generalizing read with
  | nil => rfl
  | cons c cs ih =>
    rw [List.flatMap_cons, List.foldlM_append, foldlM_escaped]
    show (cs.flatMap escaped).foldlM Scan.step _ = _
    rw [ih, List.reverse_cons, List.append_assoc]
    rfl

theorem delimited_quotedChars (s : String) : Delimited (quotedChars s) [.text s] := by
  intro before
  rw [quotedChars, List.cons_append, List.foldlM_cons]
  show ((s.toList.flatMap escaped) ++ ['"']).foldlM Scan.step ⟨.text [], before⟩ = _
  rw [List.foldlM_append, foldlM_escapes]
  show some _ = _
  simp

end

/-! ## Lists and records -/

/-- Tokens between two marks, with commas between the items. -/
def enclosedTokens (opening closing : Char) (items : List (List Token)) : List Token :=
  .mark opening :: (items.intersperse [.mark ',']).flatten ++ [.mark closing]

mutual

/-- The tokens of JSON data. -/
def tokens : Json → List Token
  | null => [.word "null".toList]
  | bool b => [.word (if b then "true" else "false").toList]
  | int n => [.word (Decimal.chars n)]
  | float x => [.word (floatChars x)]
  | text s => [.text s]
  | list items => enclosedTokens '[' ']' (itemTokens items)
  | record fields => enclosedTokens '\x7b' '\x7d' (fieldTokens fields)

def itemTokens : List Json → List (List Token)
  | [] => []
  | j :: js => tokens j :: itemTokens js

def fieldTokens : List (String × Json) → List (List Token)
  | [] => []
  | (name, j) :: fields => (.text name :: .mark ':' :: tokens j) :: fieldTokens fields

end

theorem itemTokens_eq_map (js : List Json) : itemTokens js = js.map tokens := by
  induction js with
  | nil => rfl
  | cons j js ih => rw [itemTokens, ih, List.map_cons]

def namedTokens (f : String × Json) : List Token := .text f.1 :: .mark ':' :: tokens f.2

theorem fieldTokens_eq_map (fields : List (String × Json)) :
    fieldTokens fields = fields.map namedTokens := by
  induction fields with
  | nil => rfl
  | cons f fields ih => rw [fieldTokens, ih, List.map_cons, namedTokens]

theorem itemChars_eq_map (layout : Layout) (depth : Nat) (js : List Json) :
    itemChars layout depth js = js.map (chars layout depth) := by
  induction js with
  | nil => rfl
  | cons j js ih => rw [itemChars, ih, List.map_cons]

theorem fieldChars_eq_map (layout : Layout) (depth : Nat) (fields : List (String × Json)) :
    fieldChars layout depth fields =
      fields.map fun f => quotedChars f.1 ++ layout.colon ++ chars layout depth f.2 := by
  induction fields with
  | nil => rfl
  | cons f fields ih => rw [fieldChars, ih, List.map_cons]

section

variable (layout : Layout) (depth : Nat)

theorem delimited_edge : Delimited (layout.edge depth) [] := by
  cases layout with
  | compact => exact delimited_nil
  | spaced => exact delimited_nil
  | indented width =>
    apply delimited_blanks
    intro c hc
    rcases List.mem_cons.mp hc with rfl | hc
    · rfl
    · rw [List.eq_of_mem_replicate hc]
      rfl

theorem delimited_separator : Delimited (layout.separator depth) [.mark ','] := by
  have comma : Delimited [','] [.mark ','] := delimited_mark rfl rfl
  cases layout with
  | compact => exact comma
  | spaced => exact comma.append (delimited_blank rfl)
  | indented width => exact comma.append (delimited_edge (.indented width) depth)

theorem apart_separator : Apart (layout.separator depth) := by
  cases layout with
  | compact => exact ⟨',', _, rfl, rfl⟩
  | spaced => exact ⟨',', _, rfl, rfl⟩
  | indented width => exact ⟨',', _, rfl, rfl⟩

theorem delimited_colon : Delimited layout.colon [.mark ':'] := by
  have colon : Delimited [':'] [.mark ':'] := delimited_mark rfl rfl
  cases layout with
  | compact => exact colon
  | spaced => exact colon.append (delimited_blank rfl)
  | indented width => exact colon.append (delimited_blank rfl)

/-- What closes a list or record ends the last item. -/
theorem apart_closing {closing : Char} (h : isWord closing = false) :
    Apart (layout.edge depth ++ [closing]) := by
  cases layout with
  | compact => exact ⟨closing, [], rfl, h⟩
  | spaced => exact ⟨closing, [], rfl, h⟩
  | indented width => exact ⟨'\n', _, rfl, rfl⟩

variable {α : Type} {f : α → List Char} {g : α → List Token}

/-- Items with separators between them have their tokens with commas between them. -/
theorem spells_intersperse (x : α) (xs : List α) (h : ∀ y ∈ x :: xs, Spells (f y) (g y)) :
    Spells (((x :: xs).map f).intersperse (layout.separator depth)).flatten
      (((x :: xs).map g).intersperse [.mark ',']).flatten := by
  induction xs generalizing x with
  | nil => simpa using h x List.mem_cons_self
  | cons y ys ih =>
    obtain ⟨hx, hys⟩ := List.forall_mem_cons.mp h
    have first := hx.append (delimited_separator layout depth) (apart_separator layout depth)
    have both := first.appendSpells (ih y hys)
    simpa only [List.map_cons, List.intersperse_cons_cons, List.flatten_cons, List.append_assoc]
      using both

/-- A list or record is delimited by its marks. -/
theorem delimited_enclosed {opening closing : Char} (ho : isMark opening = true)
    (hc : isMark closing = true) (xs : List α) (h : ∀ x ∈ xs, Spells (f x) (g x)) :
    Delimited (enclosed layout depth opening closing (xs.map f))
      (enclosedTokens opening closing (xs.map g)) := by
  have plain : ∀ {c : Char}, isMark c = true → isBlank c = false ∧ isWord c = false := by
    intro c hc
    have mark := of_decide_eq_true hc
    rcases mark with rfl | rfl | rfl | rfl | rfl | rfl <;> exact ⟨rfl, rfl⟩
  have opens : Delimited [opening] [.mark opening] := delimited_mark (plain ho).1 ho
  have closes : Delimited [closing] [.mark closing] := delimited_mark (plain hc).1 hc
  cases xs with
  | nil => exact opens.append closes
  | cons x xs =>
    -- the last item may end in a word, which the closing edge or mark ends
    have inside := (delimited_edge layout (depth + 1)).appendSpells
      (spells_intersperse layout (depth + 1) x xs h)
    have ending := (delimited_edge layout depth).append closes
    have whole := opens.append (inside.append ending (apart_closing layout depth (plain hc).2))
    simpa only [enclosed, enclosedTokens, List.map_cons, List.append_assoc, List.cons_append,
      List.nil_append] using whole

end

end Symantics.Json
