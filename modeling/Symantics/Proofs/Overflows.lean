import Symantics.Proofs.Evaluation

/-
  How an overflow is reported.

  An evaluator of a width fails at the first operation whose exact value is beyond the
  width. The overflow says in its message which numbers the operation was done on, so
  there is one only if all of them can be written (`overflow_of_long`). Where they can,
  the failure is an overflow of that operation on its exact arguments; where one of them
  is too long, the failure is that of writing it, and no overflow is reported
  (`overflow_reported`). The number of a literal may have any length, so this happens at
  every width (`overflow_unreported_of_long_literal`).
-/
namespace Symantics

/-- One number that is too long keeps all of them from being written. -/
theorem Decimal.mapM_text_of_long {ns : List Int} {n : Int} (hn : n ∈ ns)
    (long : fits n = false) : ns.mapM text? = none := by
  induction ns with
  | nil => cases hn
  | cons m ns ih =>
    rw [List.mapM_cons]
    rcases List.mem_cons.mp hn with rfl | hn
    · have first : text? n = none := by rw [text?, long]; rfl
      rw [first]
      rfl
    · rw [ih hn]
      cases text? m <;> rfl

/-- An operation on a number that is too long is no overflow, whatever comes of it. -/
theorem Interp.overflow_of_long {name operation : String} {numbers : List Int} {bits : Nat}
    {n : Int} (hn : n ∈ numbers) (long : Decimal.fits n = false) :
    overflow name operation numbers bits = .misuse .tooManyDigits := by
  rw [overflow, Fault.overflow?, Decimal.mapM_text_of_long hn long]
  rfl

/-- What an operation whose value is beyond the width fails with. -/
theorem Exp.overflow_cases {tier : Tier} {bits : Nat} {h : 2 ≤ bits} {d : Exp}
    (beyond : (Width.signed bits h).admits d.value = false) :
    ((∀ n ∈ d.arguments, Decimal.fits n = true) ∧
      (d.overflow tier bits h).IsOverflow d.operation.method d.arguments bits) ∨
    ((∃ n ∈ d.arguments, Decimal.fits n = false) ∧
      d.overflow tier bits h = .misuse .tooManyDigits) := by
  by_cases fit : ∀ n ∈ d.arguments, Decimal.fits n = true
  · exact .inl ⟨fit, Interp.isOverflow_overflow fit (fits_bits beyond fit)⟩
  · obtain ⟨n, hn, long⟩ : ∃ n ∈ d.arguments, Decimal.fits n = false := by simpa using fit
    exact .inr ⟨⟨n, hn, long⟩, Interp.overflow_of_long hn long⟩

/-- An evaluator of a width that fails has come to an operation whose exact value is beyond the
width, the first one, operands before what they are operands of. If the numbers that the operation
is done on can be written, the failure is an overflow that carries the operation, these numbers and
the width. If not, it is the misuse of a number that is too long. -/
theorem overflow_reported {σ : Type} {bits : Nat} (h : 2 ≤ bits) {e : Exp} {s : σ} {f : Failure}
    (fails : (Interp.evaluator .extended (.signed bits h)).outcome e.program s = .error f) :
    ∃ done d rest, e.postorder = done ++ d :: rest ∧ (∀ c ∈ done, c.Within bits) ∧
      ¬ d.Within bits ∧
      (((∀ n ∈ d.arguments, Decimal.fits n = true) ∧
          f.IsOverflow d.operation.method d.arguments bits) ∨
        ((∃ n ∈ d.arguments, Decimal.fits n = false) ∧ f = .misuse .tooManyDigits)) := by
  have evaluated := evaluated_run (w := .signed bits h) (fun _ => rfl : e.hasMul = true → _) s
  rw [fails] at evaluated
  generalize e.postorder = ds at evaluated ⊢
  generalize (Interp.evaluator .extended (.signed bits h)).callsOf e.program s = calls at evaluated
  cases evaluated with
  | @beyond done rest d _ _ _ hw within hd =>
    cases hw
    simp only [Exp.within_iff h]
    refine ⟨done, d, rest, rfl, within, ?_, Exp.overflow_cases hd⟩
    rw [hd]
    exact Bool.false_ne_true

theorem overflow_reported_of_least :
    let e : Exp := .mul (.lit (-128)) (.lit (-1))
    let I : Interp Unit := .evaluator .extended (.signed 8 (by decide))
    2 ≤ 8 ∧ ∃ f, I.outcome e.program () = .error f ∧ f.IsOverflow "mul" [-128, -1] 8 := by
  intro e I
  have fails : I.outcome e.program () =
      .error (Interp.overflow "IntMulEval[8]" "mul" [-128, -1] 8) := rfl
  refine ⟨by decide, _, fails, ?_⟩
  obtain ⟨done, d, rest, split, -, beyond, report⟩ := overflow_reported (by decide) fails
  have visited : d ∈ e.postorder := by simp [split]
  have number : ∀ n : Int, -128 ≤ n → n ≤ 127 → (Exp.lit n).Within 8 :=
    fun n least greatest => ⟨n, rfl, least, greatest⟩
  -- both literals are within the width, so it is the product that is not
  obtain rfl : d = e := by
    simp only [e, Exp.postorder, List.cons_append, List.nil_append, List.mem_cons,
      List.not_mem_nil, or_false] at visited
    rcases visited with rfl | rfl | rfl
    · exact absurd (number (-128) (by decide) (by decide)) beyond
    · exact absurd (number (-1) (by decide) (by decide)) beyond
    · rfl
  rcases report with ⟨-, overflow⟩ | ⟨-, misuse⟩
  · exact overflow
  · cases misuse

/-- A literal that is too long is beyond the width without an overflow that says so. -/
theorem Exp.outcome_of_long_literal {σ : Type} {bits : Nat} {h : 2 ≤ bits} {n : Int}
    (beyond : (Width.signed bits h).admits n = false) (long : Decimal.fits n = false) (s : σ) :
    (Interp.evaluator .extended (.signed bits h)).outcome (lit n : Exp).program s =
      .error (.misuse .tooManyDigits) := by
  have fails : (lit n : Exp).run (.evaluator .extended (.signed bits h) : Interp σ) =
      throw (.misuse .tooManyDigits) := by
    rw [run, Interp.litOf, Interp.lit_eq rfl, pure_bind,
      ← Interp.overflow_of_long (List.mem_singleton_self n) long]
    exact @Interp.checked_of_beyond σ _ _ n bits h [n] beyond
  rw [Interp.outcome, program, fails]
  rfl

/-- The literal has one digit too many to be written, and what says that it is beyond 64 bits is no
overflow. -/
theorem overflow_unreported_of_long_literal :
    let e : Exp := .lit (10 ^ Decimal.digitLimit : Nat)
    let I : Interp Unit := .evaluator .extended (.signed 64 (by decide))
    ¬ e.Within 64 ∧ I.outcome e.program () = .error (.misuse .tooManyDigits) ∧
      ∀ operation numbers bits,
        ¬ (Failure.misuse .tooManyDigits).IsOverflow operation numbers bits := by
  intro e I
  have long : Decimal.fits (10 ^ Decimal.digitLimit : Nat) = false := by
    rw [← Bool.not_eq_true, Decimal.fits_iff, Int.natAbs_natCast]
    exact Nat.lt_irrefl _
  have beyond : (Width.signed 64 (by decide)).admits (10 ^ Decimal.digitLimit : Nat) = false := by
    have reached : 2 ^ 63 ≤ 10 ^ Decimal.digitLimit :=
      calc 2 ^ 63 ≤ 10 ^ 63 := by decide
        _ ≤ 10 ^ Decimal.digitLimit := Nat.pow_le_pow_right (by decide) (by decide)
    rw [← Bool.not_eq_true, Width.admits_iff]
    rintro ⟨-, within⟩
    generalize 10 ^ Decimal.digitLimit = n at reached within
    omega
  refine ⟨?_, Exp.outcome_of_long_literal beyond long (), ?_⟩
  · rw [Exp.within_iff (by decide)]
    exact Bool.not_eq_true _ ▸ beyond
  · rintro operation numbers bits ⟨g, same, -⟩
    cases same

end Symantics
