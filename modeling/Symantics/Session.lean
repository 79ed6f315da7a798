import Symantics.Decoder.Basic
import Symantics.Document.Text
import Symantics.Interp.Evaluator
import Symantics.Interp.Printer
import Symantics.Interp.TreeBuilder
import Symantics.Log.Record
import Symantics.Program

/-
  Sessions.

  A session runs programs, makes trees and texts of them, and decodes those, under the
  settings at hand: those that the caller gives, or those read from the environment
  the first time they are needed and kept from then on. Every program that runs to
  its end and every tree that is decoded is logged at level DEBUG with the name of the
  interpretation; every decoding fault is logged at level WARNING with its code, tag
  and path. A tree is decoded in the tier that the interpretation supports unless the
  caller says otherwise.
-/
namespace Symantics

/-- A session: the environment, the settings read from it (if they were needed), the log so far,
and the state of the interpretations. -/
structure Session (σ : Type) where
  environment : List (String × String) := []
  settings : Option Settings := none
  log : List Log.Record := []
  inner : σ

namespace Session

variable {σ α : Type}

def within (r : Run σ α) : Run (Session σ) α := fun s =>
  let (result, inner) := r s.inner
  (result, { s with inner })

/-- The name of the session's logger. -/
def logger : String := "tagless.services.pipeline"

def note (level : Level) (message : String) (arguments : List Value)
    (attributes : List (String × Value)) : Run (Session σ) Unit :=
  modify fun s => { s with
    log := s.log ++ [{ level := .text level.word, logger := .text logger
                       message := .text message, arguments := .tuple arguments, attributes }] }

/-- Replaces the environment; settings that were read stay as they are. -/
def setEnvironment (environment : List (String × String)) : Run (Session σ) Unit :=
  modify fun s => { s with environment }

/-- Forgets the settings that were read. -/
def forgetSettings : Run (Session σ) Unit := modify fun s => { s with settings := none }

/-- The settings of the environment, read at most once. -/
def ownSettings : Run (Session σ) Settings := do
  let s ← get
  match s.settings with
  | some settings => return settings
  | none => match Settings.ofSource ⟨[], s.environment⟩ with
    | .ok settings =>
      set { s with settings := some settings }
      return settings
    | .error r => throw (.invalid r)

/-- The settings that are given, or the session's own. -/
def settingsOr : Option Settings → Run (Session σ) Settings
  | some settings => pure settings
  | none => ownSettings

/-- The checked evaluator of the extended tier at the settings' width. -/
def evaluator (settings : Option Settings) : Run (Session σ) (Interp σ) := do
  let s ← settingsOr settings
  return .evaluator .extended (.signed s.intBits (Nat.le_trans (by decide) s.intBits_ge))

def printer : Interp σ := .printer .extended

/-- The decoder of a tier at the settings' depth. -/
def decoder (tier : Tier) (settings : Option Settings) : Run (Session σ) (Decoder σ) := do
  let s ← settingsOr settings
  .ofExcept (Decoder.ofTier tier s.maxDecodeDepth)

/-- The name of an interpretation, as records show it. -/
def shownInterp (I : Interp σ) : String × Value := ("interpretation", .text I.name)

def run (name : String) (program : Program σ) (I : Interp σ) : Run (Session σ) Value := do
  let v ← within (program I)
  note .debug "Ran %s" [.text name] [shownInterp I]
  return v

def treeOf (name : String) (program : Program σ) (tier : Tier := .extended) :
    Run (Session σ) Value :=
  run name program (.treeBuilder tier)

def textOf (name : String) (program : Program σ) (tier : Tier := .extended)
    (indent : Value := .null) : Run (Session σ) String := do
  let v ← treeOf name program tier
  .ofExcept (v.writeTree indent)

def noteFault (f : Fault) (I : Interp σ) : Run (Session σ) Unit :=
  note .warning "Tree decode failed: %s" [.text f.text]
    [("error_code", .text f.code), ("tag", f.place.1.elim .null .text),
      ("path", .ofPath f.place.2), shownInterp I]

/-- Logs a decoding fault and lets it pass; other failures pass unlogged. -/
def noting (I : Interp σ) (r : Run (Session σ) α) : Run (Session σ) α :=
  tryCatch r fun
    | .fault f => do
      if f.isDecoding then noteFault f I
      throw (.fault f)
    | e => throw e

/-- The tier that an interpretation supports. -/
def tierOf (I : Interp σ) : Tier := if I.hasMul then .extended else .base

/-- The decoder for an interpretation, of the given tier or of its own. -/
def decoderOf (I : Interp σ) (tier : Option Tier) (settings : Option Settings) :
    Run (Session σ) (Decoder σ) :=
  decoder (tier.getD (tierOf I)) settings

def decode (tree : Value) (I : Interp σ) (tier : Option Tier := none)
    (settings : Option Settings := none) : Run (Session σ) Value := do
  let d ← decoderOf I tier settings
  let v ← noting I (within (d.decode tree I))
  note .debug "Decoded tree" [] [shownInterp I]
  return v

/-- Decodes a tree into an interpretation; a decoding fault becomes part of the outcome. -/
def attempt (tree : Value) (I : Interp σ) (tier : Option Tier := none)
    (settings : Option Settings := none) : Run (Session σ) Decoder.Outcome := do
  let d ← decoderOf I tier settings
  let outcome ← within (d.attempt tree I)
  match outcome with
  | .error f => noteFault f I
  | .ok _ => pure ()
  return outcome

/-- Decodes a tree that was read, if it could be; a fault of reading it is logged like one of
decoding it. -/
def decodeRead (read : Except Failure Value) (I : Interp σ) (tier : Option Tier)
    (settings : Option Settings) : Run (Session σ) Value := do
  let t ← noting I (.ofExcept read)
  decode t I tier settings

def decodeText (s : String) (I : Interp σ) (tier : Option Tier := none)
    (settings : Option Settings := none) : Run (Session σ) Value :=
  decodeRead (Value.readTree s) I tier settings

def decodeBytes (bytes : ByteArray) (I : Interp σ) (tier : Option Tier := none)
    (settings : Option Settings := none) : Run (Session σ) Value :=
  decodeRead (Value.readTreeBytes bytes) I tier settings

end Session

end Symantics
