import Symantics.Proofs.Sessions

/-
  The log of failures.

  Decoding a tree and attempting it come out alike (`outcome_attempt`): where the one
  fails with a decoding fault, the other returns that fault, and all other failures
  pass through both. `Logs` says that a run adds to the log what its outcome is logged
  as: a decoding fault as one warning, any other failure not at all. A fault of a part
  is logged where the part is, and not once more around it (`Logs.bind`). No request
  adds a record that is an error or worse (`mild_of_request`), so none of any number of
  requests does (`mild_of_evolves`).
-/
namespace Symantics

variable {σ α β : Type}

namespace Decoder

/-- An outcome with decoding faults caught. -/
def captured : Except Failure Value → Except Failure Outcome
  | .ok v => .ok (.ok v)
  | .error (.fault f) => if f.isDecoding then .ok (.error f) else .error (.fault f)
  | .error e => .error e

theorem exec_attempt (d : Decoder σ) (tree : Value) (I : Interp σ) (s : σ) :
    (d.attempt tree I).exec s =
      (captured ((d.decode tree I).exec s).1, ((d.decode tree I).exec s).2) := by
  rw [attempt, Run.exec_tryCatch, Run.exec_bind]
  rcases (d.decode tree I).exec s with ⟨e | v, t⟩
  · cases e with
    | fault f =>
      show ((if f.isDecoding then pure (.error f) else throw (.fault f) : Run σ Outcome).exec t) =
        (if f.isDecoding then .ok (.error f) else .error (.fault f), t)
      split <;> rfl
    | _ => rfl
  · rfl

/-- Catching tells apart what comes of decoding. -/
theorem captured_exact (x : Except Failure Value) :
    (∀ f, captured x = .ok (.error f) ↔ f.isDecoding = true ∧ x = .error (.fault f)) ∧
    (∀ v, captured x = .ok (.ok v) ↔ x = .ok v) ∧
    ∀ e, captured x = .error e ↔ e.isDecoding = false ∧ x = .error e := by
  rcases x with e | v
  · cases e with
    | fault g =>
      cases hg : g.isDecoding with
      | true =>
        have caught : captured (.error (.fault g)) = .ok (.error g) := if_pos hg
        rw [caught]
        grind [Failure.isDecoding]
      | false =>
        have passes : captured (.error (.fault g)) = .error (.fault g) := by simp [captured, hg]
        rw [passes]
        grind [Failure.isDecoding]
    | _ => grind [captured, Failure.isDecoding]
  · simp [captured]

end Decoder

namespace Session

/-! ## Records -/

/-- A record as a session writes it. -/
def record (level : Level) (message : String) (arguments : List Value)
    (attributes : List (String × Value)) : Log.Record :=
  { level := .text level.word, logger := .text logger, message := .text message
    arguments := .tuple arguments, attributes }

/-- The record of a decoding fault. -/
def faultRecord (f : Fault) (I : Interp σ) : Log.Record :=
  record .warning "Tree decode failed: %s" [.text f.text]
    [("error_code", .text f.code), ("tag", f.place.1.elim .null .text),
      ("path", .ofPath f.place.2), ("interpretation", .text I.name)]

/-- What a failure to decode is logged as: a decoding fault as one warning. -/
def warnings (I : Interp σ) : Failure → List Log.Record
  | .fault f => if f.isDecoding then [faultRecord f I] else []
  | _ => []

/-- What an outcome is logged as, by whether there is a result. -/
def byOutcome (done : List Log.Record) (failed : Failure → List Log.Record) :
    Except Failure α → List Log.Record
  | .ok _ => done
  | .error e => failed e

/-- What running a program is logged as. -/
def runRecords (name : String) (I : Interp σ) : Except Failure Value → List Log.Record :=
  byOutcome [record .debug "Ran %s" [.text name] [("interpretation", .text I.name)]] fun _ => []

/-- What decoding a tree is logged as. -/
def decodeRecords (I : Interp σ) : Except Failure Value → List Log.Record :=
  byOutcome [record .debug "Decoded tree" [] [("interpretation", .text I.name)]] (warnings I)

/-- What attempting to decode a tree is logged as. -/
def attemptRecords (I : Interp σ) : Except Failure Decoder.Outcome → List Log.Record
  | .ok (.error f) => [faultRecord f I]
  | _ => []

/-- A run adds to the log what its outcome is logged as. -/
def Logs (r : Run (Session σ) α) (records : Except Failure α → List Log.Record) : Prop :=
  ∀ s, (r.exec s).2.log = s.log ++ records (r.exec s).1

section

variable {r : Run (Session σ) α} {k : α → Run (Session σ) β}
  {records : Except Failure β → List Log.Record} {failed : Failure → List Log.Record}

/-- A run whose first part is logged only if it fails. -/
theorem Logs.bind (hr : Logs r (byOutcome [] fun e => records (.error e)))
    (hk : ∀ a, Logs (k a) records) : Logs (r >>= k) records := by
  intro s
  have first := hr s
  rw [Run.exec_bind]
  rcases hx : r.exec s with ⟨e | a, t⟩ <;> rw [hx] at first
  · exact first
  · have same : t.log = s.log := first.trans (List.append_nil _)
    rw [← same]
    exact hk a t

/-- A record that is written afterwards. -/
theorem Logs.noted (hr : Logs r (byOutcome [] failed)) (level : Level) (message : String)
    (arguments : List Value) (attributes : List (String × Value)) :
    Logs (do
      let a ← r
      note level message arguments attributes
      return a) (byOutcome [record level message arguments attributes] failed) := by
  intro s
  have first := hr s
  rw [Run.exec_bind]
  rcases hx : r.exec s with ⟨e | a, t⟩ <;> rw [hx] at first
  · exact first
  · have same : t.log = s.log := first.trans (List.append_nil _)
    rw [← same]
    rfl

theorem exec_within (q : Run σ α) (s : Session σ) :
    (within q).exec s = ((q.exec s.inner).1, { s with inner := (q.exec s.inner).2 }) := rfl

theorem logs_within (q : Run σ α) : Logs (within q) (byOutcome [] fun _ => []) := by
  intro s
  rw [exec_within]
  cases (q.exec s.inner).1 <;> exact (List.append_nil _).symm

theorem logs_ofExcept (x : Except Failure α) :
    Logs (.ofExcept x : Run (Session σ) α) (byOutcome [] fun _ => []) := by
  intro s
  cases x with
  | ok a => exact (List.append_nil _).symm
  | error e => exact (List.append_nil _).symm

/-- A decoding fault of a part that logs nothing is logged, and only once. -/
theorem logs_noting (hr : Logs r (byOutcome [] fun _ => [])) (I : Interp σ) :
    Logs (noting I r) (byOutcome [] (warnings I)) := by
  intro s
  have first := hr s
  rw [noting, Run.exec_tryCatch]
  rcases hx : r.exec s with ⟨e | a, t⟩ <;> rw [hx] at first
  · have same : t.log = s.log := first.trans (List.append_nil _)
    cases e with
    | fault f =>
      rw [← same]
      cases hf : f.isDecoding with
      | true =>
        simp only [hf, if_true]
        show t.log ++ [faultRecord f I] = t.log ++ warnings I (.fault f)
        rw [warnings, if_pos hf]
      | false =>
        simp only [hf, Bool.false_eq_true, if_false]
        show t.log = t.log ++ warnings I (.fault f)
        rw [warnings, hf]
        exact (List.append_nil _).symm
    | _ => exact first
  · exact first

end

/-! ## Settings -/

/-- A run logs nothing, and fails only for settings that are invalid. -/
def Configures (r : Run (Session σ) α) : Prop :=
  ∀ s, (r.exec s).2.log = s.log ∧ ∀ e, (r.exec s).1 = .error e → ∃ report, e = .invalid report

section

variable {r : Run (Session σ) α}

theorem Configures.logs (hr : Configures r) {failed : Failure → List Log.Record}
    (h : ∀ report, failed (.invalid report) = []) : Logs r (byOutcome [] failed) := by
  intro s
  obtain ⟨same, invalid⟩ := hr s
  rw [same]
  cases hx : (r.exec s).1 with
  | ok a => exact (List.append_nil _).symm
  | error e =>
    obtain ⟨report, rfl⟩ := invalid e hx
    rw [byOutcome, h, List.append_nil]

theorem Configures.map (hr : Configures r) (f : α → β) :
    Configures (r >>= fun a => pure (f a)) := by
  intro s
  obtain ⟨same, invalid⟩ := hr s
  rw [Run.exec_bind]
  rcases hx : r.exec s with ⟨e | a, t⟩ <;> rw [hx] at same invalid
  · refine ⟨same, ?_⟩
    intro d hd
    cases hd
    exact invalid e rfl
  · refine ⟨same, ?_⟩
    intro d hd
    cases hd

theorem configures_settingsOr (settings : Option Settings) :
    Configures (settingsOr settings : Run (Session σ) Settings) := by
  intro s
  cases settings with
  | some given => exact ⟨rfl, fun e he => by cases he⟩
  | none =>
    have start : (get : Run (Session σ) (Session σ)).exec s = (.ok s, s) := rfl
    rw [settingsOr, ownSettings, Run.exec_bind_ok start]
    cases s.settings with
    | some settings => exact ⟨rfl, fun e he => by cases he⟩
    | none =>
      cases Settings.ofSource ⟨[], s.environment⟩ with
      | ok settings => exact ⟨rfl, fun e he => by cases he⟩
      | error report =>
        refine ⟨rfl, ?_⟩
        intro e he
        cases he
        exact ⟨report, rfl⟩

theorem configures_evaluator (settings : Option Settings) :
    Configures (evaluator settings : Run (Session σ) (Interp σ)) :=
  (configures_settingsOr settings).map _

theorem configures_decoder (tier : Tier) (settings : Option Settings) :
    Configures (decoder tier settings : Run (Session σ) (Decoder σ)) := by
  have made : (decoder tier settings : Run (Session σ) (Decoder σ)) =
      settingsOr settings >>= fun given =>
        pure (Decoder.tiered tier given.maxDecodeDepth given.depth_ge) := by
    rw [decoder]
    congr 1
    funext given
    rw [Decoder.ofTier_eq _ given.depth_ge]
    rfl
  rw [made]
  exact (configures_settingsOr settings).map _

end

/-! ## Requests -/

section

variable (tree : Value) (I : Interp σ) (tier : Option Tier) (settings : Option Settings)

theorem logs_run (name : String) (program : Program σ) :
    Logs (run name program I) (runRecords name I) :=
  (logs_within _).noted _ _ _ _

theorem logs_decode : Logs (decode tree I tier settings) (decodeRecords I) := by
  apply Logs.bind ((configures_decoder _ settings).logs fun _ => rfl)
  intro d
  exact (logs_noting (logs_within _) I).noted _ _ _ _

theorem logs_decodeRead (read : Except Failure Value) :
    Logs (decodeRead read I tier settings) (decodeRecords I) := by
  apply Logs.bind (logs_noting (logs_ofExcept read) I)
  intro t
  exact logs_decode t I tier settings

/-- What attempting a tree does once there is a decoder. -/
theorem exec_attempt {s t : Session σ} {d : Decoder σ} {x : Except Failure Value} {inner : σ}
    (start : (decoderOf I tier settings).exec s = (.ok d, t))
    (h : (d.decode tree I).exec t.inner = (x, inner)) :
    (attempt tree I tier settings).exec s = (Decoder.captured x,
      { t with inner, log := t.log ++ attemptRecords I (Decoder.captured x) }) := by
  have caught : (within (d.attempt tree I)).exec t = (Decoder.captured x, { t with inner }) := by
    rw [exec_within, Decoder.exec_attempt, h]
  rw [attempt, Run.exec_bind_ok start, Run.exec_bind, caught]
  rcases Decoder.captured x with e | (f | v)
  · simp only [attemptRecords, List.append_nil]
    rfl
  · rfl
  · simp only [attemptRecords, List.append_nil]
    rfl

/-- An attempt is logged as a warning exactly if it returns the fault of a tree. -/
theorem logs_attempt : Logs (attempt tree I tier settings) (attemptRecords I) := by
  intro s
  obtain ⟨same, -⟩ := configures_decoder (tier.getD (tierOf I)) settings s
  rcases start : (decoderOf I tier settings).exec s with ⟨e | d, t⟩ <;>
    rw [← decoderOf, start] at same
  · rw [attempt, Run.exec_bind_error start, same]
    exact (List.append_nil _).symm
  · rw [exec_attempt tree I tier settings start rfl, same]

/-- Attempting a tree comes out as decoding it does, with decoding faults caught, and does the same
to the interpretation. -/
theorem outcome_attempt (s : Session σ) :
    ((attempt tree I tier settings).exec s).1 =
        Decoder.captured ((decode tree I tier settings).exec s).1 ∧
      ((attempt tree I tier settings).exec s).2.inner =
        ((decode tree I tier settings).exec s).2.inner := by
  obtain ⟨-, invalid⟩ := configures_decoder (tier.getD (tierOf I)) settings s
  rcases start : (decoderOf I tier settings).exec s with ⟨e | d, t⟩ <;>
    rw [← decoderOf, start] at invalid
  · obtain ⟨report, rfl⟩ := invalid e rfl
    rw [attempt, decode, Run.exec_bind_error start, Run.exec_bind_error start]
    exact ⟨rfl, rfl⟩
  · have faults : Does (noting I (within (d.decode tree I))) (d.decode tree I) :=
      (does_within _).noting
    obtain ⟨u, decoded, same⟩ := faults.noted .debug "Decoded tree" [] [shownInterp I] t
    rw [exec_attempt tree I tier settings start rfl, decode, Run.exec_bind_ok start, decoded, same]
    exact ⟨rfl, rfl⟩

end

/-! ## Any number of requests -/

/-- What may be asked of a session. -/
inductive Request (σ : Type) where
  | evaluator (settings : Option Settings)
  | decoder (tier : Tier) (settings : Option Settings)
  | run (name : String) (program : Program σ) (I : Interp σ)
  | treeOf (name : String) (program : Program σ) (tier : Tier)
  | textOf (name : String) (program : Program σ) (tier : Tier) (indent : Value)
  | decode (tree : Value) (I : Interp σ) (tier : Option Tier) (settings : Option Settings)
  | attempt (tree : Value) (I : Interp σ) (tier : Option Tier) (settings : Option Settings)
  | decodeText (text : String) (I : Interp σ) (tier : Option Tier) (settings : Option Settings)
  | decodeBytes (bytes : ByteArray) (I : Interp σ) (tier : Option Tier)
      (settings : Option Settings)

/-- The session after a request, whether that succeeds or fails. -/
def Request.after (s : Session σ) : Request σ → Session σ
  | .evaluator settings => ((Session.evaluator settings).exec s).2
  | .decoder tier settings => ((Session.decoder tier settings : Run _ (Decoder σ)).exec s).2
  | .run name program I => ((Session.run name program I).exec s).2
  | .treeOf name program tier => ((Session.treeOf name program tier).exec s).2
  | .textOf name program tier indent => ((Session.textOf name program tier indent).exec s).2
  | .decode tree I tier settings => ((Session.decode tree I tier settings).exec s).2
  | .attempt tree I tier settings => ((Session.attempt tree I tier settings).exec s).2
  | .decodeText text I tier settings => ((Session.decodeText text I tier settings).exec s).2
  | .decodeBytes bytes I tier settings => ((Session.decodeBytes bytes I tier settings).exec s).2

/-- What a session may become: by requests one after the other, and by changes of the environment,
the settings and the interpretations between them. -/
inductive Evolves (s : Session σ) : Session σ → Prop where
  | refl : Evolves s s
  | request {t : Session σ} (h : Evolves s t) (q : Request σ) : Evolves s (q.after t)
  | outside {t u : Session σ} (h : Evolves s t) (same : u.log = t.log) : Evolves s u

/-- The record is no error, and nothing worse. -/
def Mild (r : Log.Record) : Prop :=
  ∃ level : Level, r.level = .text level.word ∧ level.number < Level.error.number

/-- Records were added to the log, and only mild ones. -/
def AddsMild (s t : Session σ) : Prop := ∃ records, t.log = s.log ++ records ∧ ∀ r ∈ records, Mild r

section

variable {s t u : Session σ}

theorem AddsMild.of_eq (h : t.log = s.log) : AddsMild s t :=
  ⟨[], h.trans (List.append_nil _).symm, List.forall_mem_nil _⟩

theorem AddsMild.trans (h : AddsMild s t) (h' : AddsMild t u) : AddsMild s u := by
  obtain ⟨records, first, mild⟩ := h
  obtain ⟨more, next, mild'⟩ := h'
  refine ⟨records ++ more, ?_, List.forall_mem_append.mpr ⟨mild, mild'⟩⟩
  rw [next, first, List.append_assoc]

theorem Logs.addsMild {r : Run (Session σ) α} {records : Except Failure α → List Log.Record}
    (h : Logs r records) (mild : ∀ x, ∀ q ∈ records x, Mild q) : AddsMild s (r.exec s).2 :=
  ⟨records (r.exec s).1, h s, mild _⟩

theorem mild_record {level : Level} (h : level.number < Level.error.number) (message : String)
    (arguments : List Value) (attributes : List (String × Value)) :
    Mild (record level message arguments attributes) :=
  ⟨level, rfl, h⟩

theorem mild_byOutcome {done : List Log.Record} {failed : Failure → List Log.Record}
    (hd : ∀ q ∈ done, Mild q) (hf : ∀ e, ∀ q ∈ failed e, Mild q) (x : Except Failure α) :
    ∀ q ∈ byOutcome done failed x, Mild q := by
  cases x with
  | ok a => exact hd
  | error e => exact hf e

theorem mild_faultRecord (f : Fault) (I : Interp σ) : Mild (faultRecord f I) :=
  mild_record (by decide) _ _ _

theorem mild_warnings (I : Interp σ) (e : Failure) : ∀ q ∈ warnings I e, Mild q := by
  unfold warnings
  split
  · next f =>
    split
    · exact List.forall_mem_singleton.mpr (mild_faultRecord f I)
    · exact List.forall_mem_nil _
  · exact List.forall_mem_nil _

theorem mild_runRecords (name : String) (I : Interp σ) (x : Except Failure Value) :
    ∀ q ∈ runRecords name I x, Mild q :=
  mild_byOutcome (List.forall_mem_singleton.mpr (mild_record (by decide) _ _ _))
    (fun _ => List.forall_mem_nil _) x

theorem mild_decodeRecords (I : Interp σ) (x : Except Failure Value) :
    ∀ q ∈ decodeRecords I x, Mild q :=
  mild_byOutcome (List.forall_mem_singleton.mpr (mild_record (by decide) _ _ _)) (mild_warnings I) x

theorem mild_attemptRecords (I : Interp σ) (x : Except Failure Decoder.Outcome) :
    ∀ q ∈ attemptRecords I x, Mild q := by
  unfold attemptRecords
  split
  · exact List.forall_mem_singleton.mpr (mild_faultRecord _ I)
  · exact List.forall_mem_nil _

/-- Writing a tree as text does nothing to a session. -/
theorem after_textOf (name : String) (program : Program σ) (tier : Tier) (indent : Value) :
    (Request.textOf name program tier indent).after s =
      ((run name program (.treeBuilder tier)).exec s).2 := by
  rw [Request.after, textOf, treeOf, Run.exec_bind]
  rcases (run name program (.treeBuilder tier)).exec s with ⟨e | v, t⟩
  · rfl
  · rw [Run.onward]
    cases v.writeTree indent <;> rfl

/-- A request adds mild records at most. -/
theorem mild_of_request (q : Request σ) : AddsMild s (q.after s) := by
  cases q with
  | evaluator settings => exact .of_eq (configures_evaluator settings s).1
  | decoder tier settings => exact .of_eq (configures_decoder tier settings s).1
  | run name program I => exact (logs_run I name program).addsMild (mild_runRecords name I)
  | treeOf name program tier => exact (logs_run _ name program).addsMild (mild_runRecords name _)
  | textOf name program tier indent =>
    have ran : AddsMild s ((run name program (.treeBuilder tier)).exec s).2 :=
      (logs_run _ name program).addsMild (mild_runRecords name _)
    rw [after_textOf]
    exact ran
  | decode tree I tier settings =>
    exact (logs_decode tree I tier settings).addsMild (mild_decodeRecords I)
  | attempt tree I tier settings =>
    exact (logs_attempt tree I tier settings).addsMild (mild_attemptRecords I)
  | decodeText text I tier settings =>
    exact (logs_decodeRead I tier settings _).addsMild (mild_decodeRecords I)
  | decodeBytes bytes I tier settings =>
    exact (logs_decodeRead I tier settings _).addsMild (mild_decodeRecords I)

theorem mild_of_evolves (h : s.Evolves t) : AddsMild s t := by
  induction h with
  | refl => exact .of_eq rfl
  | request _ q ih => exact ih.trans (mild_of_request q)
  | outside _ same ih => exact ih.trans (.of_eq same)

end

/-- Decoding a tree fails with a decoding fault exactly if attempting it returns that fault; it
succeeds and fails otherwise exactly as attempting it does. Such a fault is logged as one warning,
and only then, also where the tree comes from text or bytes and where reading them already fails.
However many requests are made, no record is an error or worse. -/
theorem failures_logged (tree : Value) (I : Interp σ) (tier : Option Tier)
    (settings : Option Settings) :
    (∀ s : Session σ,
      let decoded := ((decode tree I tier settings).exec s).1
      let attempted := ((attempt tree I tier settings).exec s).1
      (∀ f, attempted = .ok (.error f) ↔ f.isDecoding = true ∧ decoded = .error (.fault f)) ∧
      (∀ v, attempted = .ok (.ok v) ↔ decoded = .ok v) ∧
      ∀ e, attempted = .error e ↔ e.isDecoding = false ∧ decoded = .error e) ∧
    Logs (decode tree I tier settings) (decodeRecords I) ∧
    Logs (attempt tree I tier settings) (attemptRecords I) ∧
    (∀ text, Logs (decodeText text I tier settings) (decodeRecords I)) ∧
    (∀ bytes, Logs (decodeBytes bytes I tier settings) (decodeRecords I)) ∧
    ∀ s t : Session σ, s.Evolves t →
      ∃ records, t.log = s.log ++ records ∧ ∀ r ∈ records, Mild r := by
  refine ⟨?_, logs_decode tree I tier settings, logs_attempt tree I tier settings,
    fun text => logs_decodeRead I tier settings _,
    fun bytes => logs_decodeRead I tier settings _, fun s t h => mild_of_evolves h⟩
  intro s
  rw [(outcome_attempt tree I tier settings s).1]
  exact Decoder.captured_exact _

theorem failures_logged_of_childless :
    let tree : Value := .node (.text "Neg") []
    let I : Interp Unit := .printer .base
    let settings : Settings :=
      ⟨64, 3, .info, .json, by decide, by decide, by decide, by decide⟩
    let s : Session Unit := { inner := () }
    let t := (Request.decode tree I none (some settings)).after s
    ∃ f, ((decode tree I none (some settings)).exec s).1 = .error (.fault f) ∧
      ((attempt tree I none (some settings)).exec s).1 = .ok (.error f) ∧
      t.log = [faultRecord f I] ∧ s.Evolves t ∧
      ∃ records, t.log = s.log ++ records ∧ ∀ r ∈ records, Mild r := by
  intro tree I settings s t
  let f := (Defect.wrongArity "Neg" 1 0).fault []
  have decoded : ((decode tree I none (some settings)).exec s).1 = .error (.fault f) := by rfl
  obtain ⟨outcomes, decodes, -, -, -, mild⟩ := failures_logged tree I none (some settings)
  have attempted := ((outcomes s).1 f).mpr ⟨rfl, decoded⟩
  have logged := decodes s
  rw [decoded] at logged
  have evolves : s.Evolves t := .request .refl (.decode tree I none (some settings))
  exact ⟨f, decoded, attempted, logged, evolves, mild s t evolves⟩

end Session

end Symantics
