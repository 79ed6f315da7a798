import Symantics.Interp.Basic

/-
  What runs do.

  What a composite run does is told by what its parts do: a part that fails ends the
  run and leaves the state it failed in, and only then may the failure be caught.
-/
namespace Symantics.Run

variable {σ α β : Type}

/-- Goes on from where a run ended, unless it failed. -/
def onward (k : α → Run σ β) : Except Failure α × σ → Except Failure β × σ
  | (.ok a, s) => (k a).exec s
  | (.error e, s) => (.error e, s)

@[simp] theorem exec_pure (a : α) (s : σ) : (pure a : Run σ α).exec s = (.ok a, s) := rfl

@[simp] theorem exec_throw (e : Failure) (s : σ) :
    (throw e : Run σ α).exec s = (.error e, s) := rfl

theorem exec_bind (r : Run σ α) (k : α → Run σ β) (s : σ) :
    (r >>= k).exec s = onward k (r.exec s) := by
  show Id.run (StateT.run (ExceptT.run (r >>= k)) s) =
    onward k (Id.run (StateT.run (ExceptT.run r) s))
  simp only [ExceptT.run_bind, StateT.run_bind]
  rcases StateT.run (ExceptT.run r) s with ⟨a | e, s'⟩ <;> rfl

theorem exec_bind_ok {r : Run σ α} {s s' : σ} {a : α} (h : r.exec s = (.ok a, s'))
    (k : α → Run σ β) : (r >>= k).exec s = (k a).exec s' := by
  rw [exec_bind, h]; rfl

theorem exec_bind_error {r : Run σ α} {s s' : σ} {e : Failure} (h : r.exec s = (.error e, s'))
    (k : α → Run σ β) : (r >>= k).exec s = (.error e, s') := by
  rw [exec_bind, h]; rfl

/-- A run that ends well has gone on where its first part ended well. -/
theorem of_exec_bind_ok {r : Run σ α} {k : α → Run σ β} {s s' : σ} {b : β}
    (h : (r >>= k).exec s = (.ok b, s')) :
    ∃ a s₁, r.exec s = (.ok a, s₁) ∧ (k a).exec s₁ = (.ok b, s') := by
  rcases hr : r.exec s with ⟨e | a, s₁⟩
  · rw [exec_bind_error hr] at h
    cases h
  · rw [exec_bind_ok hr] at h
    exact ⟨a, s₁, rfl, h⟩

/-- A run that fails has failed in its first part, or after that. -/
theorem of_exec_bind_error {r : Run σ α} {k : α → Run σ β} {s s' : σ} {e : Failure}
    (h : (r >>= k).exec s = (.error e, s')) :
    r.exec s = (.error e, s') ∨
    ∃ a s₁, r.exec s = (.ok a, s₁) ∧ (k a).exec s₁ = (.error e, s') := by
  rcases hr : r.exec s with ⟨f | a, s₁⟩
  · rw [exec_bind_error hr] at h
    obtain ⟨same, rfl⟩ := Prod.mk.inj h
    obtain rfl := Except.error.inj same
    exact .inl rfl
  · rw [exec_bind_ok hr] at h
    exact .inr ⟨a, s₁, rfl, h⟩

/-- A failure that is caught is handled in the state it left. -/
theorem exec_tryCatch (r : Run σ α) (handle : Failure → Run σ α) (s : σ) :
    (tryCatch r handle).exec s = match r.exec s with
      | (.ok a, s') => (.ok a, s')
      | (.error e, s') => (handle e).exec s' := by
  show Id.run (StateT.run (ExceptT.run (ExceptT.tryCatch r handle)) s) = _
  simp only [ExceptT.tryCatch, ExceptT.run_mk, StateT.run_bind]
  rcases h : r.exec s with ⟨e | a, s'⟩
  · have raw : StateT.run r s = (.error e, s') := h
    rw [raw]
    rfl
  · have raw : StateT.run r s = (.ok a, s') := h
    rw [raw]
    rfl

@[simp] theorem ofExcept_ok (a : α) : (ofExcept (.ok a) : Run σ α) = pure a := rfl

end Symantics.Run
