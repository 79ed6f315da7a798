import Symantics.Interp.Printer
import Symantics.Proofs.RoundTrip

/-
  The text of an expression.

  `Exp.chars` is how an expression is written, whatever the length of its numbers.
  Rendering gives that text unless a number is too long (`render_eq`), and running the
  expression under the printer does what rendering it does (`run_printer`).

  Each operation writes one pair of parentheses around all that its operands write, so
  the parentheses of a text are as many as the operations and nested (`printing_agrees`).
  A text also says where it ends: what is written of one expression is not the beginning
  of what is written of another, unless a number goes on (`selfDelimiting`). So no two
  expressions have the same text (`rendering_unambiguous`).
-/
namespace Symantics

namespace Exp

/-- Characters in parentheses. -/
def enclosed (cs : List Char) : List Char := '(' :: (cs ++ [')'])

/-- Two operands with a sign between them. -/
def joined (sign : Char) (cs ds : List Char) : List Char :=
  enclosed (cs ++ ([' ', sign, ' '] ++ ds))

/-- The characters of an expression, whatever the length of its numbers. -/
def chars : Exp → List Char
  | lit n => Decimal.chars n
  | neg e => enclosed (['-', ' '] ++ chars e)
  | add l r => joined '+' (chars l) (chars r)
  | mul l r => joined '*' (chars l) (chars r)
  | stray v => v.elim

def text (e : Exp) : String := String.ofList e.chars

section

variable (e l r : Exp)

theorem text_neg : (neg e).text = Interp.negText e.text := by
  apply String.toList_inj.mp
  simp [text, chars, enclosed, Interp.negText]

theorem text_add : (add l r).text = Interp.addText l.text r.text := by
  apply String.toList_inj.mp
  simp [text, chars, joined, enclosed, Interp.addText]

theorem text_mul : (mul l r).text = Interp.mulText l.text r.text := by
  apply String.toList_inj.mp
  simp [text, chars, joined, enclosed, Interp.mulText]

end

/-- Rendering fails only on numbers that are too long. -/
theorem render_eq (e : Exp) :
    e.render = if e.fits then .ok e.text else .error (.misuse .tooManyDigits) := by
  induction e with
  | lit n => exact Value.written_int n
  | neg e ih =>
    rw [render, ih, text_neg, fits]
    cases e.fits <;> rfl
  | add l r ihl ihr =>
    rw [render, ihl, ihr, text_add, fits]
    cases l.fits <;> cases r.fits <;> rfl
  | mul l r ihl ihr =>
    rw [render, ihl, ihr, text_mul, fits]
    cases l.fits <;> cases r.fits <;> rfl
  | stray v => exact v.elim

theorem text_of_render {e : Exp} {s : String} (h : e.render = .ok s) : e.text = s := by
  rw [render_eq] at h
  cases hf : e.fits with
  | true =>
    rw [hf] at h
    exact Except.ok.inj h
  | false =>
    rw [hf] at h
    cases h

/-- The printer of a tier writes the expressions of the tier as they are rendered. -/
theorem run_printer {σ : Type} {tier : Tier} {e : Exp} (ht : e.hasMul = true → tier = .extended) :
    e.run (.printer tier : Interp σ) = Run.ofExcept (e.render.map .text) := by
  induction e with
  | lit n =>
    show (Run.ofExcept (Value.int n).written >>= fun s => pure (Value.text s)) = _
    rw [render]
    cases (Value.int n).written <;> rfl
  | neg e ih =>
    rw [run, Interp.negOf, Interp.neg_eq rfl, pure_bind, ih ht, render]
    cases e.render <;> rfl
  | add l r ihl ihr =>
    have left := ihl fun hx => ht (by rw [hasMul, hx, Bool.true_or])
    have right := ihr fun hx => ht (by rw [hasMul, hx, Bool.or_true])
    rw [run, left, right, Interp.add_eq rfl, render]
    cases l.render <;> cases r.render <;> rfl
  | mul l r ihl ihr =>
    obtain rfl := ht rfl
    rw [run, Interp.requireMul_eq rfl, ihl fun _ => rfl, ihr fun _ => rfl, Interp.mul_eq rfl, render]
    cases l.render <;> cases r.render <;> rfl
  | stray v => exact v.elim

end Exp

/-! ## Parentheses -/

/-- So many parentheses are opened and closed, and none is closed before it is opened. -/
structure Balanced (pairs : Nat) (cs : List Char) : Prop where
  opened : cs.count '(' = pairs
  closed : cs.count ')' = pairs
  nested : ∀ p, p <+: cs → p.count ')' ≤ p.count '('

namespace Balanced

variable {m n : Nat} {cs ds : List Char}

theorem plain (ho : '(' ∉ cs) (hc : ')' ∉ cs) : Balanced 0 cs where
  opened := List.count_eq_zero.mpr ho
  closed := List.count_eq_zero.mpr hc
  nested p hp := by
    have none : p.count ')' = 0 := List.count_eq_zero.mpr fun h => hc (hp.subset h)
    rw [none]
    exact Nat.zero_le _

theorem append (hc : Balanced m cs) (hd : Balanced n ds) : Balanced (m + n) (cs ++ ds) where
  opened := by rw [List.count_append, hc.opened, hd.opened]
  closed := by rw [List.count_append, hc.closed, hd.closed]
  nested p hp := by
    rcases List.prefix_or_prefix_of_prefix hp (List.prefix_append cs ds) with h | ⟨q, rfl⟩
    · exact hc.nested p h
    · have rest : q.count ')' ≤ q.count '(' :=
        hd.nested q ((List.prefix_append_right_inj cs).mp hp)
      rw [List.count_append, List.count_append, hc.opened, hc.closed]
      exact Nat.add_le_add_left rest m

theorem enclosed (h : Balanced n cs) : Balanced (1 + n) (Exp.enclosed cs) where
  opened := by simp [Exp.enclosed, h.opened, Nat.add_comm]
  closed := by simp [Exp.enclosed, h.closed, Nat.add_comm]
  nested p hp := by
    rcases List.prefix_cons_iff.mp hp with rfl | ⟨q, rfl, hq⟩
    · exact Nat.le_refl 0
    · -- the parenthesis that is opened first makes up for the one that is closed last
      rcases List.prefix_concat_iff.mp hq with rfl | hq
      · simp [h.opened, h.closed]
      · calc ('(' :: q).count ')' = q.count ')' := List.count_cons_of_ne (by decide)
          _ ≤ q.count '(' := h.nested q hq
          _ ≤ ('(' :: q).count '(' := by rw [List.count_cons_self]; exact Nat.le_succ _

theorem joined {sign : Char} (ho : sign ≠ '(') (hs : sign ≠ ')') (hc : Balanced m cs)
    (hd : Balanced n ds) : Balanced (1 + m + n) (Exp.joined sign cs ds) := by
  have middle : Balanced 0 [' ', sign, ' '] := plain (by simp [ho.symm]) (by simp [hs.symm])
  have inside : Balanced (m + (0 + n)) (cs ++ ([' ', sign, ' '] ++ ds)) := hc.append (middle.append hd)
  rw [Nat.zero_add] at inside
  rw [Nat.add_assoc]
  exact inside.enclosed

end Balanced

namespace Exp

/-- The text of an expression has a pair of parentheses for each operation. -/
theorem balanced_chars (e : Exp) : ∃ n, e.operationCount = .ok n ∧ Balanced n e.chars := by
  induction e with
  | lit n =>
    refine ⟨0, rfl, .plain ?_ ?_⟩
    · exact fun h => absurd (Decimal.mem_chars _ h) (by decide)
    · exact fun h => absurd (Decimal.mem_chars _ h) (by decide)
  | neg e ih =>
    obtain ⟨n, hn, balanced⟩ := ih
    have minus : Balanced 0 ['-', ' '] := .plain (by decide) (by decide)
    have inside : Balanced (0 + n) (['-', ' '] ++ e.chars) := minus.append balanced
    rw [Nat.zero_add] at inside
    refine ⟨1 + n, ?_, inside.enclosed⟩
    rw [operationCount, hn]
    rfl
  | add l r ihl ihr | mul l r ihl ihr =>
    obtain ⟨m, hm, left⟩ := ihl
    obtain ⟨n, hn, right⟩ := ihr
    refine ⟨1 + m + n, ?_, left.joined (by decide) (by decide) right⟩
    rw [operationCount, hm, hn]
    rfl
  | stray v => exact v.elim

end Exp

/-- The printer of a tier writes the expressions of the tier as they are rendered, or fails as
rendering them does, which is when a number is too long. A text has as many '(' as there are
operations, and as many ')', and in no beginning of it are there more of these than of those. -/
theorem printing_agrees {tier : Tier} {e : Exp} (ht : e.hasMul = true → tier = .extended) :
    (∀ {σ : Type} (s : σ),
      (e.run (.printer tier : Interp σ)).exec s = (e.render.map .text, s)) ∧
    (e.fits = false → e.render = .error (.misuse .tooManyDigits)) ∧
    (e.fits = true → ∃ text n, e.render = .ok text ∧ e.operationCount = .ok n ∧
      Balanced n text.toList) := by
  refine ⟨?_, ?_, ?_⟩
  · intro σ s
    rw [Exp.run_printer ht]
    cases e.render <;> rfl
  · intro long
    rw [Exp.render_eq, long]
    rfl
  · intro fits
    obtain ⟨n, hn, balanced⟩ := e.balanced_chars
    refine ⟨e.text, n, ?_, hn, ?_⟩
    · rw [Exp.render_eq, fits]
      rfl
    · rwa [Exp.text, String.toList_ofList]

theorem printing_agrees_on_difference :
    let e : Exp := .add (.lit 12) (.neg (.lit 5))
    (∀ s : Unit, (e.run (.printer .base)).exec s = (.ok (.text "(12 + (- 5))"), s)) ∧
      ∃ text n, e.render = .ok text ∧ e.operationCount = .ok n ∧ Balanced n text.toList := by
  intro e
  have sum : e.hasMul = true → Tier.base = .extended := by intro h; cases h
  have rendered : e.render = .ok "(12 + (- 5))" := rfl
  obtain ⟨printed, -, written⟩ := printing_agrees sum
  refine ⟨?_, written (by decide)⟩
  intro s
  rw [printed s, rendered]
  rfl

/-! ## Where a text ends -/

/-- What may stand behind an expression: nothing that would go on with a number. -/
def Ended (cs : List Char) : Prop := ∀ c ∈ cs.head?, c.isDigit = false ∧ c ≠ '-'

theorem ended_blank (cs : List Char) : Ended (' ' :: cs) := by
  intro c hc
  cases hc
  decide

theorem ended_closing (cs : List Char) : Ended (')' :: cs) := by
  intro c hc
  cases hc
  decide

/-- Two words that are the same up to the first character of another sort are the same. -/
theorem word_append_inj {sort : Char → Bool} {cs ds x y : List Char} (hc : ∀ c ∈ cs, sort c = true)
    (hd : ∀ c ∈ ds, sort c = true) (hx : ∀ c ∈ x.head?, sort c = false)
    (hy : ∀ c ∈ y.head?, sort c = false) (h : cs ++ x = ds ++ y) : cs = ds ∧ x = y := by
  have munch : ∀ {cs x : List Char}, (∀ c ∈ cs, sort c = true) →
      (∀ c ∈ x.head?, sort c = false) → (cs ++ x).takeWhile sort = cs := by
    intro cs x hc hx
    rw [List.takeWhile_append_of_pos hc]
    cases x with
    | nil => simp
    | cons c x => simp [hx c rfl]
  have same : cs = ds := by rw [← munch hc hx, h, munch hd hy]
  subst same
  exact ⟨rfl, List.append_cancel_left h⟩

namespace Decimal

/-- A character that numbers are written with. -/
def isPart (c : Char) : Bool := c.isDigit || c == '-'

/-- Two numbers with the same characters up to an end are the same. -/
theorem chars_append_inj {m n : Int} {x y : List Char} (hx : Ended x) (hy : Ended y)
    (h : chars m ++ x = chars n ++ y) : m = n ∧ x = y := by
  have parts : ∀ k : Int, ∀ c ∈ chars k, isPart c = true := by
    intro k c hc
    simpa [isPart] using mem_chars c hc
  have ends : ∀ {z : List Char}, Ended z → ∀ c ∈ z.head?, isPart c = false := by
    intro z hz c hc
    simpa [isPart] using hz c hc
  obtain ⟨same, rest⟩ := word_append_inj (parts m) (parts n) (ends hx) (ends hy) h
  exact ⟨by rw [← ofLiteral_chars m, same, ofLiteral_chars], rest⟩

end Decimal

namespace Exp

/-- Up to an end, the expression is the only one that is written so. -/
def SelfDelimiting (e : Exp) : Prop :=
  ∀ ⦃d : Exp⦄ ⦃x y : List Char⦄, Ended x → Ended y → e.chars ++ x = d.chars ++ y → e = d ∧ x = y

section

variable {x y : List Char}

theorem number_ne_enclosed {n : Int} {cs : List Char} : Decimal.chars n ++ x ≠ enclosed cs ++ y := by
  intro h
  cases hc : Decimal.chars n with
  | nil => exact Decimal.chars_ne_nil n hc
  | cons c ds =>
    rw [hc] at h
    have first : c = '(' := (List.cons.inj h).1
    have digit := Decimal.mem_chars c (hc ▸ List.mem_cons_self)
    rw [first] at digit
    exact absurd digit (by decide)

/-- No expression is written with a sign and a blank at first. -/
theorem chars_ne_minus (e : Exp) : e.chars ++ x ≠ ['-', ' '] ++ y := by
  intro h
  cases e with
  | lit n =>
    -- behind the sign of a number there is a digit
    have signed : Decimal.chars n ++ x = '-' :: ' ' :: y := h
    cases hu : Nat.toDigits 10 n.natAbs with
    | nil => exact absurd hu Nat.toDigits_ne_nil
    | cons d ds =>
      have digit : d.isDigit = true :=
        Decimal.isDigit_toDigits n.natAbs d (hu ▸ List.mem_cons_self)
      rw [Decimal.chars, hu] at signed
      split at signed
      · obtain ⟨-, rfl, -⟩ := by simpa only [List.cons_append, List.cons.injEq] using signed
        exact absurd digit (by decide)
      · obtain ⟨rfl, -⟩ := List.cons.inj signed
        exact absurd digit (by decide)
  | stray v => exact v.elim
  | _ => cases (List.cons.inj h).1

theorem joined_inj {sign sign' : Char} {l r d e : Exp} (hl : l.SelfDelimiting)
    (hr : r.SelfDelimiting)
    (h : joined sign l.chars r.chars ++ x = joined sign' d.chars e.chars ++ y) :
    sign = sign' ∧ l = d ∧ r = e ∧ x = y := by
  simp only [joined, enclosed, List.cons_append, List.nil_append, List.append_assoc,
    List.cons.injEq, true_and] at h
  obtain ⟨rfl, later⟩ := hl (ended_blank _) (ended_blank _) h
  simp only [List.cons.injEq, true_and] at later
  obtain ⟨rfl, right⟩ := later
  obtain ⟨rfl, last⟩ := hr (ended_closing _) (ended_closing _) right
  exact ⟨rfl, rfl, rfl, (List.cons.inj last).2⟩

/-- What follows the first parenthesis tells a negation from a sum or product. -/
theorem minus_ne_joined {sign : Char} {e l r : Exp} :
    enclosed (['-', ' '] ++ e.chars) ++ x ≠ joined sign l.chars r.chars ++ y := by
  intro h
  simp only [joined, enclosed, List.cons_append, List.append_assoc, List.cons.injEq,
    true_and] at h
  exact chars_ne_minus l h.symm

theorem selfDelimiting (e : Exp) : e.SelfDelimiting := by
  induction e with
  | lit m =>
    intro d x y hx hy h
    cases d with
    | lit n =>
      obtain ⟨rfl, rfl⟩ := Decimal.chars_append_inj hx hy h
      exact ⟨rfl, rfl⟩
    | stray v => exact v.elim
    | _ => exact absurd h number_ne_enclosed
  | neg e ih =>
    intro d x y _ _ h
    cases d with
    | lit n => exact absurd h.symm number_ne_enclosed
    | neg d =>
      simp only [chars, enclosed, List.cons_append, List.nil_append, List.append_assoc,
        List.cons.injEq, true_and] at h
      obtain ⟨rfl, last⟩ := ih (ended_closing _) (ended_closing _) h
      exact ⟨rfl, (List.cons.inj last).2⟩
    | add l r | mul l r => exact absurd h minus_ne_joined
    | stray v => exact v.elim
  | add l r ihl ihr =>
    intro d x y _ _ h
    cases d with
    | lit n => exact absurd h.symm number_ne_enclosed
    | neg d => exact absurd h.symm minus_ne_joined
    | add l' r' =>
      obtain ⟨-, rfl, rfl, rfl⟩ := joined_inj ihl ihr h
      exact ⟨rfl, rfl⟩
    | mul l' r' => cases (joined_inj ihl ihr h).1
    | stray v => exact v.elim
  | mul l r ihl ihr =>
    intro d x y _ _ h
    cases d with
    | lit n => exact absurd h.symm number_ne_enclosed
    | neg d => exact absurd h.symm minus_ne_joined
    | add l' r' => cases (joined_inj ihl ihr h).1
    | mul l' r' =>
      obtain ⟨-, rfl, rfl, rfl⟩ := joined_inj ihl ihr h
      exact ⟨rfl, rfl⟩
    | stray v => exact v.elim
  | stray v => exact v.elim

end

theorem text_injective {d e : Exp} (h : d.text = e.text) : d = e := by
  have same : d.chars ++ [] = e.chars ++ [] := by
    rw [List.append_nil, List.append_nil]
    exact String.ofList_injective h
  have ended : Ended [] := by intro c hc; cases hc
  exact (d.selfDelimiting ended ended same).1

theorem render_injective {d e : Exp} {s : String} (hd : d.render = .ok s) (he : e.render = .ok s) :
    d = e :=
  text_injective ((text_of_render hd).trans (text_of_render he).symm)

/-- What the printer returns is what rendering returns. -/
theorem render_of_printed {σ : Type} {e : Exp} {s : σ} {v : Value}
    (h : (Interp.printer .extended).outcome e.program s = .ok v) :
    ∃ text, e.render = .ok text ∧ v = .text text := by
  rw [Interp.outcome, program, run_printer fun _ => rfl] at h
  cases hr : e.render with
  | ok text =>
    rw [hr] at h
    exact ⟨text, rfl, (Except.ok.inj h).symm⟩
  | error f =>
    rw [hr] at h
    cases h

end Exp

/-- Expressions that are rendered alike are the same, and so are expressions of which the printer
makes the same text. -/
theorem rendering_unambiguous (d e : Exp) :
    (∀ s, d.render = .ok s → e.render = .ok s → d = e) ∧
    (∀ {σ : Type} (s s' : σ) (v : Value),
      (Interp.printer .extended).outcome d.program s = .ok v →
      (Interp.printer .extended).outcome e.program s' = .ok v → d = e) := by
  refine ⟨fun s => Exp.render_injective, ?_⟩
  intro σ s s' v hd he
  obtain ⟨text, left, rfl⟩ := Exp.render_of_printed hd
  obtain ⟨same, right, hv⟩ := Exp.render_of_printed he
  obtain rfl := Value.text.inj hv
  exact Exp.render_injective left right

/-- A negative number and the negation of a number are told apart, also where a sum or a product
starts with them. -/
theorem rendering_unambiguous_of_minus :
    let number : Exp := .lit (-7)
    let negation : Exp := .neg (.lit 7)
    let one : Exp := .lit 1
    (number.render = .ok "-7" ∧ negation.render ≠ .ok "-7") ∧
    ((Exp.add number one).render = .ok "(-7 + 1)" ∧
      (Exp.add negation one).render ≠ .ok "(-7 + 1)") ∧
    ((Interp.printer .extended).outcome (Exp.mul number one).program () =
        .ok (.text "(-7 * 1)") ∧
      (Interp.printer .extended).outcome (Exp.mul negation one).program () ≠
        .ok (.text "(-7 * 1)")) := by
  intro number negation one
  have differ : number ≠ negation := by simp [number, negation]
  refine ⟨⟨rfl, ?_⟩, ⟨rfl, ?_⟩, ⟨rfl, ?_⟩⟩
  · intro h
    exact differ ((rendering_unambiguous number negation).1 _ rfl h)
  · intro h
    have same := (rendering_unambiguous (.add number one) (.add negation one)).1 _ rfl h
    exact differ (Exp.add.inj same).1
  · intro h
    have same := (rendering_unambiguous (.mul number one) (.mul negation one)).2 () () _ rfl h
    exact differ (Exp.mul.inj same).1

end Symantics
