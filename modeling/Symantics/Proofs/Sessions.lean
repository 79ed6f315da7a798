import Symantics.Proofs.Documents
import Symantics.Proofs.RoundTrip
import Symantics.Session

/-
  What sessions do beside keeping a log.

  Running a program and decoding a tree in a session do to the interpretation what
  the program and the decoder do (`Does`); the log and the settings are the session's
  own. So a program that is written as text and decoded again does what it does when
  it is run (`replay_of_text`).
-/
namespace Symantics

variable {σ α : Type}

namespace Session

/-- `r` has the outcome of `q` and does the same to the state of the interpretations. -/
def Does (r : Run (Session σ) α) (q : Run σ α) : Prop :=
  ∀ s, ∃ s', r.exec s = ((q.exec s.inner).1, s') ∧ s'.inner = (q.exec s.inner).2

/-- Two runs in a session that no interpretation can tell apart. -/
def Alike (r q : Run (Session σ) α) : Prop :=
  ∀ s, (r.exec s).1 = (q.exec s).1 ∧ (r.exec s).2.inner = (q.exec s).2.inner

theorem Does.alike {r r' : Run (Session σ) α} {q : Run σ α} (h : Does r q) (h' : Does r' q) :
    Alike r r' := by
  intro s
  obtain ⟨t, ht, hi⟩ := h s
  obtain ⟨t', ht', hi'⟩ := h' s
  rw [ht, ht']
  exact ⟨rfl, hi.trans hi'.symm⟩

theorem does_within (q : Run σ α) : Does (within q) q := fun _ => ⟨_, rfl, rfl⟩

/-- Noting a fault lets it pass. -/
theorem Does.noting {r : Run (Session σ) α} {q : Run σ α} (h : Does r q) {I : Interp σ} :
    Does (noting I r) q := by
  intro s
  obtain ⟨s', hs, hi⟩ := h s
  rw [Session.noting, Run.exec_tryCatch, hs]
  rcases hq : q.exec s.inner with ⟨e | a, t⟩ <;> rw [hq] at hi
  · cases e with
    | fault f =>
      -- a record may be written, but the fault itself goes on
      cases hf : f.isDecoding with
      | true =>
        refine ⟨((noteFault f I).exec s').2, ?_, hi⟩
        simp only [hf, if_true]
        rfl
      | false =>
        refine ⟨s', ?_, hi⟩
        simp only [hf]
        rfl
    | _ => exact ⟨s', rfl, hi⟩
  · exact ⟨s', rfl, hi⟩

/-- A record that is written afterwards changes nothing. -/
theorem Does.noted {r : Run (Session σ) α} {q : Run σ α} (h : Does r q) (level : Level)
    (message : String) (arguments : List Value) (attributes : List (String × Value)) :
    Does (do
      let a ← r
      note level message arguments attributes
      return a) q := by
  intro s
  obtain ⟨s', hs, hi⟩ := h s
  rcases hq : q.exec s.inner with ⟨e | a, t⟩ <;> rw [hq] at hs hi
  · rw [Run.exec_bind_error hs]
    exact ⟨s', rfl, hi⟩
  · rw [Run.exec_bind_ok hs]
    exact ⟨_, rfl, hi⟩

theorem does_run (name : String) (program : Program σ) (I : Interp σ) :
    Does (run name program I) (program I) :=
  (does_within _).noted _ _ _ _

/-- Decoding a tree in a session does what the decoder of the tier does at the settings' depth. -/
theorem does_decode (tree : Value) (I : Interp σ) (tier : Option Tier) (settings : Settings) :
    Does (decode tree I tier (some settings))
      ((tier.getD (tierOf I)).decoding settings.maxDecodeDepth tree I) := by
  have start : decoderOf I tier (some settings) = pure
      (Decoder.tiered (tier.getD (tierOf I)) settings.maxDecodeDepth settings.depth_ge) := by
    rw [decoderOf, decoder, settingsOr, pure_bind, Decoder.ofTier_eq _ settings.depth_ge]
    rfl
  rw [decode, start, pure_bind, Tier.decoding_eq _ settings.depth_ge]
  exact (does_within _).noting.noted _ _ _ _

/-- Decoding a text that holds a tree does what decoding the tree does. -/
theorem does_decodeText {text : String} {tree : Value} (h : Value.readTree text = .ok tree)
    (I : Interp σ) (tier : Option Tier) (settings : Settings) :
    Does (decodeText text I tier (some settings))
      ((tier.getD (tierOf I)).decoding settings.maxDecodeDepth tree I) := by
  intro s
  have read : (noting I (.ofExcept (Value.readTree text))).exec s = (.ok tree, s) := by
    rw [noting, Run.exec_tryCatch, h]
    rfl
  rw [decodeText, decodeRead, Run.exec_bind_ok read]
  exact does_decode tree I tier settings s

/-- The text of a program that builds a tree is the text of the tree. -/
theorem exec_textOf {program : Program σ} {tier : Tier} {tree : Value} {text : String}
    {indent : Value} (build : program (.treeBuilder tier) = pure tree)
    (write : tree.writeTree indent = .ok text) (name : String) (s : Session σ) :
    ∃ s', (textOf name program tier indent).exec s = (.ok text, s') ∧ s'.inner = s.inner := by
  obtain ⟨s', hs, hi⟩ := does_run name program (.treeBuilder tier) s
  rw [build] at hs hi
  rw [textOf, treeOf, Run.exec_bind_ok hs, write]
  exact ⟨s', rfl, hi⟩

end Session

namespace Exp

theorem size_tree (e : Exp) : e.tree.size + 2 ≤ 2 ^ (e.height + 1) := by
  induction e with
  | lit n =>
    simp only [tree, height, Tree.size, Tree.sizes]
    omega
  | neg e ih =>
    have double : 2 ^ (1 + e.height + 1) = 2 * 2 ^ (e.height + 1) := by
      rw [Nat.add_comm 1, Nat.pow_succ, Nat.mul_comm]
    simp only [tree, height, Tree.size, Tree.sizes, double]
    omega
  | add l r ihl ihr | mul l r ihl ihr =>
    have left : 2 ^ (l.height + 1) ≤ 2 ^ (max l.height r.height + 1) :=
      Nat.pow_le_pow_right (by decide) (by omega)
    have right : 2 ^ (r.height + 1) ≤ 2 ^ (max l.height r.height + 1) :=
      Nat.pow_le_pow_right (by decide) (by omega)
    have double : 2 ^ (1 + max l.height r.height + 1) = 2 * 2 ^ (max l.height r.height + 1) := by
      rw [Nat.add_comm 1, Nat.pow_succ, Nat.mul_comm]
    simp only [tree, height, Tree.size, Tree.sizes, double]
    omega
  | stray v => exact v.elim

/-- The tree of an expression that some settings allow to be decoded can be written and read. -/
theorem size_tree_le {e : Exp} {settings : Settings} (h : e.height ≤ settings.maxDecodeDepth) :
    e.tree.size ≤ 10 ^ Decimal.digitLimit := by
  -- the depth that settings allow is far below the digits that a number may have
  have low : e.height + 1 ≤ Decimal.digitLimit := by
    have limit : Decimal.digitLimit = 4300 := rfl
    have := settings.depth_le
    omega
  calc e.tree.size ≤ e.tree.size + 2 := Nat.le_add_right _ 2
    _ ≤ 2 ^ (e.height + 1) := size_tree e
    _ ≤ 2 ^ Decimal.digitLimit := Nat.pow_le_pow_right (by decide) low
    _ ≤ 10 ^ Decimal.digitLimit := Nat.pow_le_pow_left (by decide) _

end Exp

/-- Decoding a text that holds the tree of an expression does what running the expression does. -/
theorem Session.does_decodeText_tree {e : Exp} (hf : e.fits = true) {settings : Settings}
    (h : e.height ≤ settings.maxDecodeDepth) {text : String}
    (read : Value.readTree text = .ok e.tree.toValue) {I : Interp σ} (hI : I.hasBase = true)
    (hm : e.hasMul = true → I.hasMul = true) :
    Does (decodeText text I none (some settings)) (e.run I) := by
  have tier : e.hasMul = true → (none.getD (tierOf I) : Tier) = .extended :=
    fun hx => if_pos (hm hx)
  rw [← Exp.decoding_tree _ settings.depth_ge hf tier hI hm h]
  exact does_decodeText read I none settings

/-- An expression that is written as text with an indent and decoded again does what it does when it
is run: the calls on the interpretation are the same, and so is what comes of them. -/
theorem replay_of_text {e : Exp} (hf : e.fits = true) {settings : Settings}
    (h : e.height ≤ settings.maxDecodeDepth) {indent : Value} (hi : indent.IsIndent) {tier : Tier}
    (ht : e.hasMul = true → tier = .extended) {I : Interp σ} (hI : I.hasBase = true)
    (hm : e.hasMul = true → I.hasMul = true) (name : String) :
    ∃ text : String,
      (∀ {ρ : Type} (s : Session ρ), ∃ s',
        (Session.textOf name e.program tier indent).exec s = (.ok text, s') ∧ s'.inner = s.inner) ∧
      Session.Alike (Session.decodeText text I none (some settings))
        (Session.run name e.program I) ∧
      Session.Alike (Session.decodeText text I.watched none (some settings))
        (Session.run name e.program I.watched) := by
  obtain ⟨text, write, read⟩ := Value.readTree_writeTree (Exp.size_tree_le h) hi
  refine ⟨text, ?_, ?_, ?_⟩
  · intro ρ s
    exact Session.exec_textOf (Exp.run_treeBuilder hf ht) write name s
  · exact (Session.does_decodeText_tree hf h read hI hm).alike (Session.does_run name _ I)
  · rw [← Interp.hasBase_watched] at hI
    rw [← Interp.hasMul_watched] at hm
    exact (Session.does_decodeText_tree hf h read hI hm).alike (Session.does_run name _ I.watched)

theorem replay_of_text_product :
    let e : Exp := .mul (.lit 7) (.neg (.lit 3))
    let settings : Settings :=
      ⟨64, 3, .info, .json, by decide, by decide, by decide, by decide⟩
    let I : Interp Unit := .treeBuilder .extended
    ∃ text, Session.Alike (Session.decodeText text I none (some settings))
      (Session.run "product" e.program I) := by
  intro e settings I
  have fits : e.fits = true := by decide
  have height : e.height ≤ settings.maxDecodeDepth := by decide
  have product : e.hasMul = true → Tier.extended = .extended := fun _ => rfl
  have method : e.hasMul = true → I.hasMul = true := fun _ => rfl
  have indent : (Value.int 2).IsIndent := .inr ⟨2, by decide, rfl⟩
  obtain ⟨text, -, same, -⟩ :=
    replay_of_text fits height indent product (I := I) rfl method "product"
  exact ⟨text, same⟩

/-- With an indent of `2 ^ 64` blanks, one more than the greatest count, there is no text to decode:
the tree is built, which is logged, and then it is not written. -/
theorem replay_fails_of_huge_indent :
    let one : Exp := .lit 1
    let indent : Value := .int 0x10000000000000000
    let settings : Settings :=
      ⟨64, 1, .info, .json, by decide, by decide, by decide, by decide⟩
    let s : Session Unit := { inner := () }
    let r := (Session.textOf "one" one.program .extended indent).exec s
    r.1 = .error (.misuse .hugeIndent) ∧ r.2.log.length = 1 ∧
    ¬ ∀ (e : Exp) (n : Nat) (tier : Tier), e.fits = true → e.height ≤ settings.maxDecodeDepth →
      (e.hasMul = true → tier = .extended) →
      ∃ text s', (Session.textOf "one" e.program tier (.int n)).exec s = (.ok text, s') := by
  intro one indent settings s r
  have refused : r.1 = .error (.misuse .hugeIndent) := by rfl
  refine ⟨refused, rfl, ?_⟩
  intro all
  have fits : one.fits = true := by decide
  have height : one.height ≤ settings.maxDecodeDepth := by decide
  obtain ⟨text, s', write⟩ := all one 0x10000000000000000 .extended fits height fun _ => rfl
  have written : r.1 = .ok text := congrArg Prod.fst write
  cases refused.symm.trans written

end Symantics
