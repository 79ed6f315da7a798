import Symantics.Json.Integer
import Symantics.Proofs.Grammar

/-
  Integers from JSON text.

  The reader refuses a number with too many digits before its point, so no integer in
  the data that it gives has more. `Bounded` says so of data; of a reader on its way it
  says so of all that the open lists and records hold. Each step keeps that
  (`bounded_of_step`), hence the whole reading does (`bounded_of_read?`). What passes
  for an integer in such data, a text or a floating-point number among it, can be
  written again (`fits_of_toInteger`).
-/
namespace Symantics.Json

/-- No integer in the data has more than so many digits. -/
inductive Bounded (digits : Nat) : Json → Prop where
  | null : Bounded digits .null
  | bool (b : Bool) : Bounded digits (.bool b)
  | int {n : Int} (h : Decimal.digitCount n ≤ digits) : Bounded digits (.int n)
  | float (x : Binary64) : Bounded digits (.float x)
  | text (s : String) : Bounded digits (.text s)
  | list {items : List Json} (h : ∀ j ∈ items, Bounded digits j) : Bounded digits (.list items)
  | record {fields : List (String × Json)} (h : ∀ f ∈ fields, Bounded digits f.2) :
      Bounded digits (.record fields)

def Frame.Bounded (digits : Nat) : Frame → Prop
  | .list items => ∀ j ∈ items, j.Bounded digits
  | .record fields | .field fields _ => ∀ f ∈ fields, f.2.Bounded digits

def Reading.Bounded (digits : Nat) : Reading → Prop
  | .within _ frames => ∀ f ∈ frames, f.Bounded digits
  | .done j => j.Bounded digits

/-! ## Words -/

section

variable {limit : Nat} {cs rest : List Char} {w : Whole}

/-- The start of a number has digits, and no more than allowed. -/
theorem Whole.digits_of_read (h : read limit cs = .ok (w, rest)) :
    (∀ c ∈ w.digits, c.isDigit = true) ∧ 0 < w.digits.length ∧ w.digits.length ≤ limit := by
  unfold read at h
  -- the sign first, which leaves some characters to take digits from
  split at h
  next negative cs _ =>
    obtain ⟨ds, after, span⟩ : ∃ ds after, spanDigits cs = (ds, after) := ⟨_, _, rfl⟩
    obtain ⟨taken, -⟩ := Prod.mk.inj span
    simp only [span] at h
    split at h
    · cases h
    · next whole =>
      split at h <;> cases h
      next short =>
        refine ⟨?_, ?_, Nat.not_lt.mp short⟩
        · subst taken
          exact List.all_eq_true.mp List.all_takeWhile
        · apply List.length_pos_iff.mpr
          intro none
          obtain rfl : ds = [] := none
          exact whole rfl

theorem Whole.digitCount_of_read (h : read limit cs = .ok (w, rest)) :
    Decimal.digitCount w.toInt ≤ limit := by
  obtain ⟨digits, some, short⟩ := digits_of_read h
  have size : w.toInt.natAbs = Nat.ofDigitChars 10 w.digits 0 := by
    rw [toInt]
    split
    · rw [Int.natAbs_neg, Int.natAbs_natCast]
    · rw [Int.natAbs_natCast]
  rw [Decimal.digitCount, Nat.length_toDigits_le_iff (by decide) (Nat.lt_of_lt_of_le some short),
    size]
  exact Nat.lt_of_lt_of_le (Decimal.ofDigitChars_lt digits) (Nat.pow_le_pow_right (by decide) short)

theorem Whole.digitCount_of_readInt {n : Int} (h : readInt limit cs = .ok n) :
    Decimal.digitCount n ≤ limit := by
  rw [readInt] at h
  rcases hr : read limit cs with _ | ⟨w, rest⟩ <;> rw [hr] at h
  · cases h
  · cases rest with
    | nil =>
      obtain rfl : w.toInt = n := Except.ok.inj h
      exact digitCount_of_read hr
    | cons => cases h

theorem bounded_of_floatAfter? {j : Json} (h : floatAfter? w rest = some j) : j.Bounded limit := by
  unfold floatAfter? at h
  split at h
  split at h
  · cases h
  · obtain ⟨e, -, rfl⟩ := Option.map_eq_some_iff.mp h
    exact .float _

theorem bounded_of_number? {j : Json} (h : number? limit cs = some j) : j.Bounded limit := by
  unfold number? at h
  split at h
  · next hr =>
    obtain rfl := Option.some.inj h
    exact .int (Whole.digitCount_of_read hr)
  · exact bounded_of_floatAfter? h
  · cases h

theorem bounded_of_ofWord? {j : Json} (h : ofWord? limit cs = some j) : j.Bounded limit := by
  unfold ofWord? at h
  split at h
  · exact Option.some.inj h ▸ .null
  · exact Option.some.inj h ▸ .bool true
  · exact Option.some.inj h ▸ .bool false
  · exact Option.some.inj h ▸ .float _
  · exact Option.some.inj h ▸ .float _
  · exact Option.some.inj h ▸ .float _
  · exact bounded_of_number? h

end

/-! ## The reader -/

section

variable {limits : Limits} {digits : Nat} {frames : List Frame} {r r' : Reading}

theorem mem_put {name : String} {j : Json} {fields : List (String × Json)} {f : String × Json}
    (h : f ∈ put name j fields) : f = (name, j) ∨ f ∈ fields := by
  induction fields with
  | nil => exact .inl (List.mem_singleton.mp h)
  | cons g fields ih =>
    rw [put] at h
    split at h
    · rcases List.mem_cons.mp h with rfl | h
      · exact .inl rfl
      · exact .inr (List.mem_cons_of_mem g h)
    · rcases List.mem_cons.mp h with rfl | h
      · exact .inr List.mem_cons_self
      · exact (ih h).imp id (List.mem_cons_of_mem g)

theorem bounded_of_lookup {name : String} {j : Json} {fields : List (String × Json)}
    (h : lookup name fields = some j) (hf : ∀ f ∈ fields, f.2.Bounded digits) :
    j.Bounded digits := by
  obtain ⟨f, found, rfl⟩ := Option.map_eq_some_iff.mp h
  exact hf f (List.mem_reverse.mp (List.mem_of_find?_eq_some found))

namespace Reading

theorem bounded_of_deliver {j : Json} (hj : j.Bounded digits)
    (hf : ∀ f ∈ frames, f.Bounded digits) (h : deliver j frames = some r) : r.Bounded digits := by
  unfold deliver at h
  split at h <;> cases h
  · exact hj
  · obtain ⟨items, frames⟩ := List.forall_mem_cons.mp hf
    exact List.forall_mem_cons.mpr ⟨List.forall_mem_cons.mpr ⟨hj, items⟩, frames⟩
  · obtain ⟨fields, frames⟩ := List.forall_mem_cons.mp hf
    refine List.forall_mem_cons.mpr ⟨?_, frames⟩
    intro f mem
    rcases mem_put mem with rfl | mem
    · exact hj
    · exact fields f mem

theorem bounded_of_closeList (hf : ∀ f ∈ frames, f.Bounded digits)
    (h : closeList frames = some r) : r.Bounded digits := by
  unfold closeList at h
  split at h
  · obtain ⟨items, frames⟩ := List.forall_mem_cons.mp hf
    exact bounded_of_deliver (.list fun j mem => items j (List.mem_reverse.mp mem)) frames h
  · cases h

theorem bounded_of_closeRecord (hf : ∀ f ∈ frames, f.Bounded digits)
    (h : closeRecord frames = some r) : r.Bounded digits := by
  unfold closeRecord at h
  split at h
  · obtain ⟨fields, frames⟩ := List.forall_mem_cons.mp hf
    exact bounded_of_deliver (.record fields) frames h
  · cases h

theorem bounded_of_start {t : Token} (hf : ∀ f ∈ frames, f.Bounded limits.whole)
    (h : start limits frames t = some r) : r.Bounded limits.whole := by
  cases t with
  | text s => exact bounded_of_deliver (.text s) hf h
  | word cs =>
    obtain ⟨j, word, h⟩ := Option.bind_eq_some_iff.mp h
    exact bounded_of_deliver (bounded_of_ofWord? word) hf h
  | mark c =>
    have items : Frame.Bounded limits.whole (.list []) := List.forall_mem_nil _
    have fields : Frame.Bounded limits.whole (.record []) := List.forall_mem_nil _
    rw [start] at h
    split at h
    · cases h
      exact List.forall_mem_cons.mpr ⟨items, hf⟩
    · split at h <;> cases h
      exact List.forall_mem_cons.mpr ⟨fields, hf⟩

theorem bounded_of_naming {name : String} (hf : ∀ f ∈ frames, f.Bounded digits)
    (h : naming frames name = some r) : r.Bounded digits := by
  unfold naming at h
  split at h <;> cases h
  obtain ⟨fields, frames⟩ := List.forall_mem_cons.mp hf
  exact List.forall_mem_cons.mpr ⟨fields, frames⟩

theorem bounded_of_goOn {c : Char} (hf : ∀ f ∈ frames, f.Bounded digits)
    (h : goOn frames c = some r) : r.Bounded digits := by
  unfold goOn at h
  split at h
  · split at h
    · cases h
      exact hf
    · split at h
      · exact bounded_of_closeList hf h
      · cases h
  · split at h
    · cases h
      exact hf
    · split at h
      · exact bounded_of_closeRecord hf h
      · cases h
  · cases h

theorem of_enter {q : Option Reading} (h : enter limits frames q = some r) : q = some r := by
  unfold enter at h
  split at h
  · exact h
  · cases h

/-- A token adds no longer integer to what has been read. -/
theorem bounded_of_step {t : Token} (h : step limits r t = some r')
    (hr : r.Bounded limits.whole) : r'.Bounded limits.whole := by
  unfold step at h
  -- one case for each thing that the reader may expect, and none for a token that does not fit
  split at h
  · exact bounded_of_start hr h
  · split at h
    · exact bounded_of_closeList hr h
    · exact bounded_of_start hr (of_enter h)
  · exact bounded_of_naming hr h
  · exact bounded_of_naming hr (of_enter h)
  · split at h
    · exact bounded_of_closeRecord hr h
    · cases h
  · split at h <;> cases h
    exact hr
  · exact bounded_of_goOn hr h
  · cases h

theorem bounded_of_steps {ts : List Token} (h : ts.foldlM (step limits) r = some r')
    (hr : r.Bounded limits.whole) : r'.Bounded limits.whole := by
  induction ts generalizing r with
  | nil =>
    cases h
    exact hr
  | cons t ts ih =>
    rw [List.foldlM_cons] at h
    obtain ⟨q, first, rest⟩ := Option.bind_eq_some_iff.mp h
    exact ih rest (bounded_of_step first hr)

end Reading

/-- Data from a text has no integer with more digits than the reader allows. -/
theorem bounded_of_read? {s : String} {j : Json} (h : read? limits s = some j) :
    j.Bounded limits.whole := by
  obtain ⟨ts, -, h⟩ := Option.bind_eq_some_iff.mp h
  obtain ⟨r, steps, value⟩ := Option.bind_eq_some_iff.mp h
  have read : r.Bounded limits.whole :=
    Reading.bounded_of_steps steps (List.forall_mem_nil _ : ∀ f ∈ [], Frame.Bounded _ f)
  cases r with
  | within => cases value
  | done k =>
    obtain rfl : k = j := Option.some.inj value
    exact read

end

/-! ## Integers in data -/

theorem fits_of_integerOfText {s : String} {n : Int} (h : integerOfText s = .ok n) :
    Decimal.fits n = true := by
  apply decide_eq_true
  unfold integerOfText at h
  split at h
  · next hr =>
    cases h
    exact Whole.digitCount_of_readInt hr
  · cases h
  · split at h
    · next hs =>
      cases h
      obtain ⟨cs, -, h⟩ := Option.bind_eq_some_iff.mp hs
      cases hr : Whole.readInt Limits.standard.whole cs with
      | error =>
        rw [hr] at h
        cases h
      | ok m =>
        rw [hr] at h
        cases h
        exact Whole.digitCount_of_readInt hr
    · cases h

theorem fits_of_integerOfFloat {x : Binary64} {n : Int} (h : integerOfFloat x = .ok n) :
    Decimal.fits n = true := by
  rw [Decimal.fits_iff]
  unfold integerOfFloat at h
  split at h
  · cases h
  · cases h
  · split at h
    · next small =>
      cases h
      calc n.natAbs < floatLimit := small
        _ ≤ 10 ^ 19 := by decide
        _ ≤ 10 ^ Decimal.digitLimit := Nat.pow_le_pow_right (by decide) (by decide)
    · cases h

/-- What is an integer in data from outside can be written again. -/
theorem fits_of_toInteger {j : Json} {n : Int} (hj : j.Bounded Decimal.digitLimit)
    (h : j.toInteger = .ok n) : Decimal.fits n = true := by
  cases hj with
  | int hn =>
    cases h
    exact decide_eq_true hn
  | bool b =>
    cases h
    cases b <;> decide
  | float x => exact fits_of_integerOfFloat h
  | text s => exact fits_of_integerOfText h
  | null => cases h
  | list => cases h
  | record => cases h

end Symantics.Json
