import Mathlib.Data.List.Forall2
import Symantics.Proofs.FaultLog

/-
  The log of successes.

  A program that runs to its end and a tree that is decoded are reported by one record at
  level DEBUG each, whichever request led to it: writing a tree as text is reported as the
  run that makes the tree, and decoding a text as the decoding of the tree in it. However
  many requests are made, the records at level DEBUG report the successes one by one and
  in order (`addsReports_of_succeeds`). An attempt is the exception: one that succeeds is not
  reported (`attempt_unreported`). So there are as many records at level DEBUG as there are
  successes other than attempts (`successes_logged`).
-/
namespace Symantics

variable {σ α : Type}

namespace Session

/-! ## Successes -/

/-- Something that succeeds in a session: a run of a program, the decoding of a tree, or an attempt
at the latter, each with the name of the interpretation. -/
inductive Success where
  | ran (interp : String)
  | decoded (interp : String)
  | attempted (interp : String)
  deriving DecidableEq, Repr

namespace Success

def interp : Success → String
  | ran interp => interp
  | decoded interp => interp
  | attempted interp => interp

def isAttempt : Success → Bool
  | attempted _ => true
  | _ => false

/-- What a record says of a success. -/
def message : Success → String
  | ran _ => "Ran %s"
  | _ => "Decoded tree"

end Success

/-- What succeeds in a session with a request, if anything does. A tree that was made has been made
even if it cannot be written. -/
def Request.success? (s : Session σ) : Request σ → Option Success
  | .evaluator _ | .decoder _ _ => none
  | .run _ program I => ((program I).exec s.inner).1.toOption.map fun _ => .ran I.name
  | .treeOf _ program tier | .textOf _ program tier _ =>
    let I : Interp σ := .treeBuilder tier
    ((program I).exec s.inner).1.toOption.map fun _ => .ran I.name
  | .decode tree I tier settings =>
    ((Session.decode tree I tier settings).exec s).1.toOption.map fun _ => .decoded I.name
  | .attempt tree I tier settings =>
    (((Session.attempt tree I tier settings).exec s).1.toOption.bind Except.toOption).map fun _ =>
      .attempted I.name
  | .decodeText text I tier settings =>
    ((Session.decodeText text I tier settings).exec s).1.toOption.map fun _ => .decoded I.name
  | .decodeBytes bytes I tier settings =>
    ((Session.decodeBytes bytes I tier settings).exec s).1.toOption.map fun _ => .decoded I.name

/-- What a session may become, as by `Evolves`, with the successes on the way. -/
inductive Succeeds (s : Session σ) : List Success → Session σ → Prop where
  | refl : Succeeds s [] s
  | request {done : List Success} {t : Session σ} (h : Succeeds s done t) (q : Request σ) :
      Succeeds s (done ++ (q.success? t).toList) (q.after t)
  | outside {done : List Success} {t u : Session σ} (h : Succeeds s done t) (same : u.log = t.log) :
      Succeeds s done u

/-! ## Their records -/

def isDebug (r : Log.Record) : Bool :=
  match r.level with
  | .text level => level = Level.debug.word
  | _ => false

/-- The record is at level DEBUG, tells what succeeded and names the interpretation. -/
structure Reports (x : Success) (r : Log.Record) : Prop where
  level : r.level = .text Level.debug.word
  message : r.message = .text x.message
  interp : r.attributes.lookup "interpretation" = some (.text x.interp)

/-- Records were added to the log, and those at level DEBUG report the successes other than
attempts, one by one and in order. -/
def AddsReports (s : Session σ) (done : List Success) (t : Session σ) : Prop :=
  ∃ records, t.log = s.log ++ records ∧
    List.Forall₂ Reports (done.filter (!·.isAttempt)) (records.filter isDebug)

section

variable {s t u : Session σ} {done more : List Success}

theorem AddsReports.of_eq (h : t.log = s.log) : AddsReports s [] t :=
  ⟨[], h.trans (List.append_nil _).symm, .nil⟩

theorem AddsReports.trans (h : AddsReports s done t) (h' : AddsReports t more u) :
    AddsReports s (done ++ more) u := by
  obtain ⟨records, first, reports⟩ := h
  obtain ⟨records', next, reports'⟩ := h'
  refine ⟨records ++ records', ?_, ?_⟩
  · rw [next, first, List.append_assoc]
  · rw [List.filter_append, List.filter_append]
    exact List.rel_append reports reports'

theorem isDebug_faultRecord (f : Fault) (I : Interp σ) : isDebug (faultRecord f I) = false := rfl

/-- Faults are not logged at level DEBUG. -/
theorem filter_warnings (I : Interp σ) (e : Failure) : (warnings I e).filter isDebug = [] := by
  unfold warnings
  split
  · next f => split <;> simp [isDebug_faultRecord]
  · rfl

/-- A run that is logged by one record if it succeeds, and not at level DEBUG if it fails. -/
theorem Logs.addsReports {r : Run (Session σ) α} {record : Log.Record}
    {failed : Failure → List Log.Record} {x : Success} (h : Logs r (byOutcome [record] failed))
    (reports : Reports x record) (quiet : ∀ e, (failed e).filter isDebug = [])
    (other : x.isAttempt = false) :
    AddsReports s ((r.exec s).1.toOption.map fun _ => x).toList (r.exec s).2 := by
  refine ⟨_, h s, ?_⟩
  have debug : isDebug record = true := by simp [isDebug, reports.level]
  cases (r.exec s).1 with
  | ok a => simpa [Except.toOption, byOutcome, other, debug] using reports
  | error e => simp [Except.toOption, byOutcome, quiet]

/-- Running a program is reported if the program succeeds. -/
theorem addsReports_run (name : String) (program : Program σ) (I : Interp σ) :
    AddsReports s (((program I).exec s.inner).1.toOption.map fun _ => Success.ran I.name).toList
      ((run name program I).exec s).2 := by
  obtain ⟨t, ran, -⟩ := does_run name program I s
  have outcome : ((run name program I).exec s).1 = ((program I).exec s.inner).1 := by rw [ran]
  rw [← outcome]
  exact (logs_run I name program).addsReports ⟨rfl, rfl, rfl⟩ (fun _ => rfl) rfl

/-- Attempting to decode a tree is never reported. -/
theorem addsReports_attempt (tree : Value) (I : Interp σ) (tier : Option Tier)
    (settings : Option Settings) (attempts : ∀ x ∈ done, x.isAttempt = true) :
    AddsReports s done ((attempt tree I tier settings).exec s).2 := by
  refine ⟨_, logs_attempt tree I tier settings s, ?_⟩
  have quiet : ∀ x, (attemptRecords I x).filter isDebug = [] := by
    intro x
    unfold attemptRecords
    split <;> simp [isDebug_faultRecord]
  have none : done.filter (!·.isAttempt) = [] := by simpa using attempts
  rw [quiet, none]
  exact .nil

/-- A request is reported if it is no attempt and something succeeds. -/
theorem addsReports_of_request (q : Request σ) :
    AddsReports s (q.success? s).toList (q.after s) := by
  cases q with
  | evaluator settings => exact .of_eq (configures_evaluator settings s).1
  | decoder tier settings => exact .of_eq (configures_decoder tier settings s).1
  | run name program I => exact addsReports_run name program I
  | treeOf name program tier => exact addsReports_run name program (.treeBuilder tier)
  | textOf name program tier indent =>
    rw [after_textOf]
    exact addsReports_run name program (.treeBuilder tier)
  | decode tree I tier settings =>
    exact (logs_decode tree I tier settings).addsReports ⟨rfl, rfl, rfl⟩ (filter_warnings I) rfl
  | attempt tree I tier settings =>
    apply addsReports_attempt
    intro x mem
    obtain ⟨_, _, rfl⟩ := Option.map_eq_some_iff.mp (Option.mem_toList.mp mem)
    rfl
  | decodeText text I tier settings =>
    exact (logs_decodeRead I tier settings _).addsReports ⟨rfl, rfl, rfl⟩ (filter_warnings I) rfl
  | decodeBytes bytes I tier settings =>
    exact (logs_decodeRead I tier settings _).addsReports ⟨rfl, rfl, rfl⟩ (filter_warnings I) rfl

/-- However many requests are made, those that succeed are reported in their order. -/
theorem addsReports_of_succeeds (h : Succeeds s done t) : AddsReports s done t := by
  induction h with
  | refl => exact .of_eq rfl
  | request _ q ih => exact ih.trans (addsReports_of_request q)
  | outside _ same ih => simpa using ih.trans (.of_eq same)

end

/-- However many requests are made, every run of a program that succeeds and every tree that is
decoded, but for attempts, is reported by one record at level DEBUG that names the interpretation,
in order, and nothing else is logged at that level: with the attempts that succeed there are as many
of these records as successes. -/
theorem successes_logged {s t : Session σ} {done : List Success} (h : Succeeds s done t) :
    ∃ records, t.log = s.log ++ records ∧
      List.Forall₂ Reports (done.filter (!·.isAttempt)) (records.filter isDebug) ∧
      (records.filter isDebug).length + done.countP Success.isAttempt = done.length := by
  obtain ⟨records, log, reports⟩ := addsReports_of_succeeds h
  refine ⟨records, log, reports, ?_⟩
  calc (records.filter isDebug).length + done.countP Success.isAttempt
      = done.countP (!·.isAttempt) + done.countP Success.isAttempt := by
        rw [← reports.length_eq, ← List.countP_eq_length_filter]
    _ = done.length := by
        rw [Nat.add_comm, List.length_eq_countP_add_countP Success.isAttempt]
        simp

/-- A run, a tree that cannot be decoded, the same tree attempted, and a decoded tree. -/
theorem successes_logged_of_several :
    let settings : Settings :=
      ⟨64, 3, .info, .json, by decide, by decide, by decide, by decide⟩
    let I : Interp Unit := .printer .base
    let seven : Exp := .lit 7
    let faulty : Value := .node (.text "Neg") []
    let s : Session Unit := { inner := () }
    let t := (Request.textOf "seven" seven.program .base .null).after s
    let u := (Request.decode faulty I none (some settings)).after t
    let v := (Request.attempt faulty I none (some settings)).after u
    let w := (Request.decode (Tree.node "Lit" [.leaf "7"]).toValue I none (some settings)).after v
    let done : List Success := [.ran "TreeBuild", .decoded "PrettyPrint"]
    Succeeds s done w ∧ w.log.length = 4 ∧
    ∃ records, w.log = s.log ++ records ∧
      List.Forall₂ Reports done (records.filter isDebug) ∧ (records.filter isDebug).length = 2 := by
  intro settings I seven faulty s t u v w done
  have wrote : Succeeds s [.ran "TreeBuild"] t :=
    .request .refl (.textOf "seven" seven.program .base .null)
  have refused : Succeeds s [.ran "TreeBuild"] v :=
    .request (.request wrote (.decode faulty I none (some settings)))
      (.attempt faulty I none (some settings))
  have succeeds : Succeeds s done w :=
    .request refused (.decode (Tree.node "Lit" [.leaf "7"]).toValue I none (some settings))
  obtain ⟨records, log, reports, count⟩ := successes_logged succeeds
  exact ⟨succeeds, rfl, records, log, reports, count⟩

/-- An attempt that succeeds is not reported, though decoding the same tree is. -/
theorem attempt_unreported :
    let settings : Settings :=
      ⟨64, 3, .info, .json, by decide, by decide, by decide, by decide⟩
    let I : Interp Unit := .evaluator .base (.signed 64 (by decide))
    let one : Value := (Tree.node "Lit" [.leaf "1"]).toValue
    let s : Session Unit := { inner := () }
    let attempted := (Request.attempt one I none (some settings)).after s
    let decoded := (Request.decode one I none (some settings)).after s
    ((attempt one I none (some settings)).exec s).1 = .ok (.ok (.int 1)) ∧
    Succeeds s [.attempted "IntEval[64]"] attempted ∧ attempted.log = s.log ∧
    Succeeds s [.decoded "IntEval[64]"] decoded ∧ decoded.log.length = s.log.length + 1 ∧
    ¬ ∀ (t : Session Unit) (done : List Success), Succeeds s done t →
      ∃ records, t.log = s.log ++ records ∧ (records.filter isDebug).length = done.length := by
  intro settings I one s attempted decoded
  have succeeds : Succeeds s [.attempted "IntEval[64]"] attempted :=
    .request .refl (.attempt one I none (some settings))
  have sibling : Succeeds s [.decoded "IntEval[64]"] decoded :=
    .request .refl (.decode one I none (some settings))
  refine ⟨rfl, succeeds, rfl, sibling, rfl, ?_⟩
  intro all
  obtain ⟨records, log, count⟩ := all attempted _ succeeds
  have none : records = [] := log.symm
  rw [none] at count
  cases count

end Session

end Symantics
