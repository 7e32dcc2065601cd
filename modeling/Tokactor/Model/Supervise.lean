/-!
# Tasks under a supervisor

The receiver of a notifier as the tasks of a connection use it, and the race of a future
against it (`io/mod.rs`). Which branch a `select!` takes is the choice of the scheduler.
-/

namespace Tokactor

/-- `SupervisorMessage`. -/
inductive SupervisorMessage
  | shutdown
  deriving DecidableEq

/-- A `watch::Receiver<Option<SupervisorMessage>>`: what the notifier holds, whether that is
unseen, and whether the notifier was dropped. -/
structure Watch where
  value : Option SupervisorMessage
  unseen : Bool
  dropped : Bool
  deriving DecidableEq

/-- `notifier.subscribe()`: what the notifier holds has been seen. -/
def Watch.subscribe (value : Option SupervisorMessage) : Watch := ⟨value, false, false⟩

/-- `notifier.send(m)`. -/
def Watch.send (w : Watch) (m : Option SupervisorMessage) : Watch := { w with value := m, unseen := true }

def Watch.drop (w : Watch) : Watch := { w with dropped := true }

/-- `rx.changed()`: `none` while it waits; an error once the notifier was dropped. -/
def Watch.changed (w : Watch) : Option (Bool × Watch) :=
  if w.unseen then some (true, { w with unseen := false })
  else if w.dropped then some (false, w)
  else none

/-- `Supervise`. -/
inductive Supervise (α : Type)
  | success (x : α)
  | continue_
  | shutdown
  | dead

/-- The branches of the `select!` of `supervisor`. -/
inductive Branch
  | parent
  | shutdown
  | fut
  deriving DecidableEq

/-- `supervisor`, when the branch `b` is taken. `shutdown` tells whether the second future is
ready, and `fut` what the third one yields. -/
def supervisor {α : Type} (rx : Watch) (shutdown : Bool) (fut : Option α) : Branch → Option (Supervise α × Watch)
  | .parent =>
    rx.changed.map fun
      | (false, rx) => (.dead, rx)
      | (true, rx) =>
        match rx.value with
        | some .shutdown => (.shutdown, rx)
        | none => (.continue_, rx)
  | .shutdown => if shutdown then some (.shutdown, rx) else none
  | .fut => fut.map (.success ·, rx)

/-- All that `supervisor` can come back with: what the future yields, or a signal. -/
theorem supervisor_cases {α : Type} {rx w : Watch} {shutdown : Bool} {fut : Option α} {b : Branch} {r : Supervise α}
    (h : supervisor rx shutdown fut b = some (r, w)) :
    (∃ x, b = .fut ∧ fut = some x ∧ r = .success x ∧ w = rx) ∨
      b ≠ .fut ∧ (shutdown = true ∨ rx.unseen = true ∨ rx.dropped = true) ∧ w.value = rx.value ∧
        (w.unseen = true → rx.unseen = true) ∧
        (r = .dead ∨ r = .shutdown ∨ r = .continue_ ∧ rx.unseen = true ∧ rx.value = none) := by
  cases b with
  | fut =>
    simp only [supervisor, Option.map_eq_some_iff] at h
    obtain ⟨x, hx, hp⟩ := h
    cases hp
    exact .inl ⟨x, rfl, hx, rfl, rfl⟩
  | shutdown =>
    simp only [supervisor] at h
    split at h
    · rename_i hs
      cases h
      exact .inr ⟨by simp, .inl hs, rfl, id, .inr (.inl rfl)⟩
    · cases h
  | parent =>
    right
    simp only [supervisor, Watch.changed] at h
    split at h
    · rename_i hu
      simp only [Option.map_some, Option.some.injEq] at h
      split at h
      · cases h
        exact ⟨by simp, .inr (.inl hu), rfl, fun h => (by cases h), .inr (.inl rfl)⟩
      · rename_i hv
        cases h
        exact ⟨by simp, .inr (.inl hu), rfl, fun h => (by cases h), .inr (.inr ⟨rfl, hu, hv⟩)⟩
    · split at h
      · rename_i hd
        cases h
        exact ⟨by simp, .inr (.inr hd), rfl, id, .inl rfl⟩
      · cases h

end Tokactor
