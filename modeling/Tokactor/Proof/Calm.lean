import Tokactor.Proof.Tasks

/-!
# Runs in which no actor panics

* `Calm`, `AssertionHolds`, `SupervisorStays`: a step in which user code does not panic, the
  assertion of `stop` does not fail, and the supervisor of the actor does not go away.
* `Calm.fails`: what is left of the causes of a panic in a calm step.
* `upright_run`: with these conditions nothing is left.
-/

namespace Tokactor

variable {A M : Type}

/-- The executor is at the assertion of `stop`. -/
def Pc.asserts : Pc A M → Bool
  | .assertClosed => true
  | _ => false

/-- When the assertion of `stop` is evaluated, no receiver of the notifier is alive. -/
def AssertionHolds (n : Node A M) (l : Label A M) : Prop :=
  l.isExec = true → n.pc.asserts = true → n.isClosed = true

instance (n : Node A M) (l : Label A M) : Decidable (AssertionHolds n l) :=
  inferInstanceAs (Decidable (_ → _ → _))

/-- The step is no panic of a callback, no `abort`, and not the time-out of `stopping`. -/
def Node.calm (n : Node A M) : Label A M → Bool
  | .exec .panic | .exec (.op .abort) => false
  | .exec (.op (.spawn _)) => n.state = .running
  | .exec .tick => n.timeoutCounter ≠ 10
  | _ => true

def Calm (n : Node A M) (l : Label A M) : Prop := n.calm l = true

instance (n : Node A M) (l : Label A M) : Decidable (Calm n l) := inferInstanceAs (Decidable (_ = _))

theorem Calm.noAbort {n : Node A M} {l : Label A M} (h : Calm n l) : NoAbort n l := by
  unfold NoAbort Label.isAbort
  split
  · cases h
  · rfl

/-- What is left of the causes of a panic in a calm step. -/
theorem Calm.fails {n n' : Node A M} {l : Label A M} (hc : Calm n l) (hA : AssertionHolds n l)
    (h : n.step l = some n') (hn : n.pc.stage ≠ .failed) (hf : n'.pc.stage = .failed) :
    l = .exec .died ∧ n.pc = .select := by
  rcases Node.step_outside h with ⟨x, rfl, hx⟩ | ⟨ms, ho⟩
  · obtain ⟨c, hp⟩ := exec_fails hx hf
    cases c with
    | callback =>
      rcases hp.2 with rfl | ⟨id, rfl, hs⟩
      · cases hc
      · simp [Calm, Node.calm, hs] at hc
    | timeout =>
      obtain ⟨rfl, -, ht⟩ := hp
      simp [Calm, Node.calm, ht] at hc
    | assertion =>
      obtain ⟨rfl, hpc, hcl⟩ := hp
      rw [hA rfl (by rw [hpc]; rfl)] at hcl
      cases hcl
    | supervisor => exact ⟨by rw [hp.1], hp.2⟩
  · exact absurd (ho.pc ▸ hf) hn

/-! ## A single actor -/

/-- The actor finds that its own supervisor has gone. -/
def Label.isDied : Label A M → Bool
  | .exec .died => true
  | _ => false

def SupervisorStays (_ : Node A M) (l : Label A M) : Prop := l.isDied = false

instance (n : Node A M) (l : Label A M) : Decidable (SupervisorStays n l) := inferInstanceAs (Decidable (_ = _))

theorem upright_step {n n' : Node A M} {l : Label A M} (hn : n.pc.stage ≠ .failed) (hc : Calm n l)
    (hA : AssertionHolds n l) (hs : SupervisorStays n l) (h : n.step l = some n') : n'.pc.stage ≠ .failed := by
  intro hf
  obtain ⟨rfl, -⟩ := hc.fails hA h hn hf
  cases hs

/-- **The task of the actor does not panic** in such a run. -/
theorem upright_run {cfg : Config} {a : A} {ls : List (Label A M)} {n : Node A M}
    (hc : Lts.Along Node.step Calm (Node.init cfg a) ls)
    (hA : Lts.Along Node.step AssertionHolds (Node.init cfg a) ls)
    (hs : Lts.Along Node.step SupervisorStays (Node.init cfg a) ls)
    (hr : Lts.run Node.step (Node.init cfg a) ls = some n) : n.pc.stage ≠ .failed := by
  have hstep : ∀ (n : Node A M) l n', n.pc.stage ≠ .failed → Calm n l ∧ AssertionHolds n l ∧ SupervisorStays n l →
      n.step l = some n' → n'.pc.stage ≠ .failed :=
    fun n l n' hn ⟨hc, hA, hs⟩ h => upright_step hn hc hA hs h
  exact Lts.run_along hstep (by simp [Node.init, Pc.stage]) (hc.and (hA.and hs)) hr

end Tokactor
