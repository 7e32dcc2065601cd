import Tokactor.Model.Host
import Tokactor.Proof.Timeout

/-!
# The panic of `stopping`

The last second of `stopping` is counted inside the `select!`, and whether anybody still holds
a receiver is asked only after it. A receiver may go silently in between: that of a child whose
actor goes to an awaiter, of a forwarder, of a reader or writer task.

* `timeout_justified`: the panic is reached only while a receiver is left, if and only if the
  last receiver is never dropped during the last wait.
-/

namespace Tokactor

variable {A M : Type}

namespace Host

/-- From here the panic of `stopping` is not reached unless a receiver is left. -/
def Justified (h : Host A M) : Prop :=
  ∀ l h', h.step l = some h' → h.node.pc ≠ .panicked .timeout → h'.node.pc = .panicked .timeout → h.isClosed = false

/-- The executor waits in the `select!` of `stopping`, and the next second is the panic. -/
def lastWait (h : Host A M) : Bool :=
  match h.node.pc with
  | .wait => h.node.timeoutCounter == 10
  | _ => false

theorem lastWait_iff {h : Host A M} : h.lastWait = true ↔ h.node.pc = .wait ∧ h.node.timeoutCounter = 10 := by
  unfold lastWait
  split
  · rename_i hpc
    simp [hpc]
  · rename_i hpc
    exact ⟨fun h => (by cases h), fun h => (hpc h.1).elim⟩

end Host

/-- The step is the executor's. -/
def HostLabel.isExec : HostLabel A M → Bool
  | .node l => l.isExec
  | _ => false

/-- In the last wait nobody drops the last receiver. -/
def LastHeld (h : Host A M) (l : HostLabel A M) : Prop :=
  h.lastWait = true → l.isExec = false → h.isClosed = false → (h.step l).all (fun h' => !h'.isClosed) = true

instance (h : Host A M) (l : HostLabel A M) : Decidable (LastHeld h l) := inferInstanceAs (Decidable (_ → _))

/-! ## How the last wait is entered -/

namespace Node

theorem exec_wait {n n' : Node A M} {x : Act A M} (h : n.exec x = some n') (hpc : n'.pc = .wait) :
    n'.timeoutCounter = 0 ∨ n.pc = .recheck ∧ n.isClosed = false ∧ n' = { n with pc := .wait } := by
  have hflow := exec_enters (exec_rule h) (by rw [hpc]; exact Stage.noConfusion)
  rw [hpc] at hflow
  rcases hflow with hq | hq | hq
  · -- no step of the loop stays at the `select!`
    rcases wait_cases hq.symm h with ⟨m, c, -, -, rfl⟩ | ⟨-, -, -, rfl⟩ | ⟨-, ⟨-, rfl⟩ | ⟨-, rfl⟩⟩ <;> cases hpc
  · left
    simp only [exec, hq] at h
    split at h <;> cases h
    rfl
  · rcases recheck_cases hq h with ⟨-, rfl⟩ | ⟨hcl, hn⟩
    · cases hpc
    · exact .inr ⟨hq, hcl, hn⟩

theorem execHeld_wait {n n' : Node A M} {x : Act A M} {held : Bool} (h : n.execHeld held x = some n')
    (hpc : n'.pc = .wait) :
    n'.timeoutCounter = 0 ∨ (n.isClosed && !held) = false ∧ n' = { n with pc := .wait } := by
  have hexec : n.exec x = some n' →
      n'.timeoutCounter = 0 ∨ (n.isClosed && !held) = false ∧ n' = { n with pc := .wait } := by
    intro h
    rcases exec_wait h hpc with ht | ⟨-, hcl, hn⟩
    · exact .inl ht
    · exact .inr ⟨by rw [hcl, Bool.false_and], hn⟩
  unfold execHeld at h
  split at h
  · rename_i hheld
    split at h
    · cases h
      cases hpc
    · cases h
      exact .inl rfl
    · cases h
      exact .inr ⟨by rw [hheld]; simp, rfl⟩
    · cases h
      cases hpc
    · exact hexec h
  · exact hexec h

theorem rawExec_wait {n n' : Node A M} {x : Act A M} {held : Bool} (h : n.rawExec held x = some n')
    (hpc : n'.pc = .wait) :
    n'.timeoutCounter = 0 ∨ (n.isClosed && !held) = false ∧ n' = { n with pc := .wait } := by
  unfold rawExec at h
  split at h
  · rename_i hrecv
    split at h
    · rename_i o
      cases h
      rcases ctxOp_pc n o with ho | ho
      · rw [ho, hrecv] at hpc
        cases hpc
      · rw [ho] at hpc
        cases hpc
    · cases h
      rw [show ({ n with actor := _ } : Node A M).pc = n.pc from rfl, hrecv] at hpc
      cases hpc
    · cases h
      cases hpc
    · cases h
      cases hpc
    · cases h
      cases hpc
    · cases h
  · exact execHeld_wait h hpc

/-- The panic comes after the last wait. -/
theorem exec_timedOut {n n' : Node A M} {x : Act A M} (h : n.exec x = some n') (hn : n.pc ≠ .panicked .timeout)
    (hpc : n'.pc = .panicked .timeout) : n.pc = .wait ∧ n.timeoutCounter = 10 := by
  exact (exec_panics (exec_rule h) hpc hn).2

theorem execHeld_timedOut {n n' : Node A M} {x : Act A M} {held : Bool} (h : n.execHeld held x = some n')
    (hn : n.pc ≠ .panicked .timeout) (hpc : n'.pc = .panicked .timeout) : n.pc = .wait ∧ n.timeoutCounter = 10 := by
  unfold execHeld at h
  split at h
  · split at h
    · cases h
      cases hpc
    · cases h
      cases hpc
    · cases h
      cases hpc
    · cases h
      cases hpc
    · exact exec_timedOut h hn hpc
  · exact exec_timedOut h hn hpc

theorem rawExec_timedOut {n n' : Node A M} {x : Act A M} {held : Bool} (h : n.rawExec held x = some n')
    (hn : n.pc ≠ .panicked .timeout) (hpc : n'.pc = .panicked .timeout) : n.pc = .wait ∧ n.timeoutCounter = 10 := by
  unfold rawExec at h
  split at h
  · rename_i hrecv
    split at h
    · rename_i o
      cases h
      rcases ctxOp_pc n o with ho | ho
      · exact absurd (ho.symm.trans hpc) hn
      · rw [ho] at hpc
        cases hpc
    · cases h
      exact absurd hpc hn
    · cases h
      cases hpc
    · cases h
      cases hpc
    · cases h
      cases hpc
    · cases h
  · exact execHeld_timedOut h hn hpc

end Node

namespace Host

/-- A step of the host is one of its executor, or it leaves the executor alone. -/
theorem step_cases {h h' : Host A M} {l : HostLabel A M} (hs : h.step l = some h') :
    (∃ x, l = .node (.exec x) ∧ h.exec x = some h'.node ∧ h'.raw = h.raw ∧ h'.pipes = h.pipes) ∨
      l.isExec = false ∧ h'.node.pc = h.node.pc ∧ h'.node.timeoutCounter = h.node.timeoutCounter := by
  cases l with
  | node l =>
    cases l with
    | exec x =>
      obtain ⟨n, hx, rfl⟩ := Option.map_eq_some_iff.1 hs
      exact .inl ⟨x, rfl, hx, rfl, rfl⟩
    | _ =>
      obtain ⟨n, hn, rfl⟩ := Option.map_eq_some_iff.1 hs
      rcases Node.step_outside hn with ⟨x, hx, -⟩ | ⟨ms, ho⟩
      · cases hx
      · exact .inr ⟨rfl, ho.pc, ho.timeoutCounter⟩
  | subscribe =>
    simp only [step] at hs
    split at hs
    · cases hs
      exact .inr ⟨rfl, rfl, rfl⟩
    · cases hs
  | leave i =>
    simp only [step] at hs
    split at hs
    · cases hs
      exact .inr ⟨rfl, rfl, rfl⟩
    · cases hs

/-- Which executor the actor sits in stays. -/
theorem step_raw {h h' : Host A M} {l : HostLabel A M} (hs : h.step l = some h') : h'.raw = h.raw := by
  cases l with
  | node l =>
    cases l <;>
      · obtain ⟨n, -, rfl⟩ := Option.map_eq_some_iff.1 hs
        rfl
  | subscribe | leave =>
    simp only [step] at hs
    split at hs <;> cases hs
    rfl

theorem exec_wait {h : Host A M} {x : Act A M} {n : Node A M} (hx : h.exec x = some n) (hpc : n.pc = .wait) :
    n.timeoutCounter = 0 ∨ h.isClosed = false ∧ n = { h.node with pc := .wait } := by
  unfold exec at hx
  split at hx
  · exact Node.rawExec_wait hx hpc
  · exact Node.execHeld_wait hx hpc

theorem exec_timedOut {h : Host A M} {x : Act A M} {n : Node A M} (hx : h.exec x = some n)
    (hn : h.node.pc ≠ .panicked .timeout) (hpc : n.pc = .panicked .timeout) : h.lastWait = true := by
  rw [lastWait_iff]
  unfold exec at hx
  split at hx
  · exact Node.rawExec_timedOut hx hn hpc
  · exact Node.execHeld_timedOut hx hn hpc

theorem tick {h : Host A M} (hw : h.lastWait = true) :
    h.step (.node (.exec .tick)) = some { h with node := h.node.unwind .timeout } := by
  obtain ⟨hpc, ht⟩ := lastWait_iff.1 hw
  have hexec : h.node.exec .tick = some (h.node.unwind .timeout) := by
    simp [Node.exec, hpc, Node.stoppingLoop, ht]
  have hheld : h.node.execHeld h.held .tick = some (h.node.unwind .timeout) := by
    unfold Node.execHeld
    rw [hpc]
    split
    · exact hexec
    · exact hexec
  have hraw : h.node.rawExec h.held .tick = some (h.node.unwind .timeout) := by
    unfold Node.rawExec
    rw [hpc]
    exact hheld
  have hx : h.exec .tick = some (h.node.unwind .timeout) := by
    unfold exec
    split
    · exact hraw
    · exact hheld
  rw [step, hx]
  rfl

theorem justified_iff {h : Host A M} : h.Justified ↔ (h.lastWait = true → h.isClosed = false) := by
  constructor
  · intro hj hw
    refine hj _ _ (tick hw) ?_ rfl
    rw [(lastWait_iff.1 hw).1]
    exact fun hpc => by cases hpc
  · intro hj l h' hs hn hpc
    rcases step_cases hs with ⟨x, -, hx, -, -⟩ | ⟨-, hsame, -⟩
    · exact hj (exec_timedOut hx hn hpc)
    · exact absurd (hsame.symm.trans hpc) hn

/-! ## The last receiver -/

/-- Only a receiver that is dropped in the last wait makes the panic unjustified. -/
theorem keeps_iff {h : Host A M} {l : HostLabel A M} : Lts.Keeps step Justified h l ↔ LastHeld h l := by
  constructor
  · intro hk hw hl hcl
    rw [Option.all_eq_true_iff_get]
    intro hsome
    have hs : h.step l = some ((h.step l).get hsome) := (Option.some_get hsome).symm
    generalize (h.step l).get hsome = h' at hs
    have hj : h'.Justified := hk (justified_iff.2 fun _ => hcl) h' hs
    have hw' : h'.lastWait = true := by
      rcases step_cases hs with ⟨x, rfl, -⟩ | ⟨-, hpc, ht⟩
      · cases hl
      · rw [lastWait_iff, hpc, ht]
        exact lastWait_iff.1 hw
    rw [justified_iff.1 hj hw']
    rfl
  · intro hlast hj h' hs
    rw [justified_iff]
    intro hw'
    rcases step_cases hs with ⟨x, rfl, hx, hraw, hpipes⟩ | ⟨hl, hpc, ht⟩
    · obtain ⟨hpc', ht'⟩ := lastWait_iff.1 hw'
      rcases exec_wait hx hpc' with hzero | ⟨hcl, hn⟩
      · rw [ht'] at hzero
        cases hzero
      · -- the wait is entered from the check at the end of the loop
        have hheld : h'.held = h.held := by rw [held, held, hpipes]
        rw [isClosed, hheld, hn]
        exact hcl
    · have hw : h.lastWait = true := by
        rw [lastWait_iff, ← hpc, ← ht]
        exact lastWait_iff.1 hw'
      have hall := hlast hw hl (justified_iff.1 hj hw)
      rw [hs] at hall
      simpa using hall

/-- **The panic of `stopping` is reached only while a receiver is left**, in every state of a
run, if and only if nobody drops the last receiver in the last wait. -/
theorem timeout_justified {cfg : Config} {raw : Bool} {a : A} {ls : List (HostLabel A M)} :
    Lts.Throughout step Justified (init cfg raw a) ls ↔ Lts.Along step LastHeld (init cfg raw a) ls := by
  have hstart : (init cfg raw a : Host A M).Justified := justified_iff.2 fun hw => (by cases hw)
  rw [Lts.throughout_iff hstart]
  exact ⟨Lts.Along.mono fun _ _ => keeps_iff.1, Lts.Along.mono fun _ _ => keeps_iff.2⟩

end Host

/-- Ten seconds without a message. -/
def tenSeconds : List (HostLabel Unit ℕ) :=
  (List.replicate 10 [.node (.exec .tick), .node (.exec .go)]).flatten

/-- The child of an actor is awaited; while the actor stops, the child ends and hands itself to
its awaiter in the last wait. -/
def silentExitRun : List (HostLabel Unit ℕ) :=
  [.node (.exec (.op (.spawn 1))), .node (.exec (.op .stop)), .node (.exec (.ret ())), .node (.send (.user 0)),
    .node (.exec .recv), .node (.exec .go), .node (.exec .go), .node (.exec (.ret ())), .node (.exec (.ret ())),
    .node (.exec (.ret ())), .node (.exec (.ret ())), .node (.exec .go), .node (.exec .go)] ++ tenSeconds ++
    [.node (.task 0 (.child (.ended .handed))), .node (.task 0 (.child .drop))]

/-- **The panic comes although every receiver is gone**: the last one was dropped in the last
wait, and the actor was not told. -/
theorem timeout_unjustified :
    ∃ h h' : Host Unit ℕ, Lts.run Host.step (Host.init ⟨4, 1, false, []⟩ false ()) silentExitRun = some h ∧
      h.isClosed = true ∧ h.step (.node (.exec .tick)) = some h' ∧ h'.node.pc = .panicked .timeout ∧
      ¬ Lts.Throughout Host.step Host.Justified (Host.init ⟨4, 1, false, []⟩ false ()) silentExitRun := by
  have hr : ∃ h h' : Host Unit ℕ,
      Lts.run Host.step (Host.init ⟨4, 1, false, []⟩ false ()) silentExitRun = some h ∧ h.node.pc = .wait ∧
        h.isClosed = true ∧ h.step (.node (.exec .tick)) = some h' ∧ h'.node.pc = .panicked .timeout :=
    ⟨_, _, rfl, rfl, rfl, rfl, rfl⟩
  obtain ⟨h, h', hr, hwait, hcl, hs, hpc⟩ := hr
  refine ⟨h, h', hr, hcl, hs, hpc, fun hall => ?_⟩
  have hj : h.Justified := hall silentExitRun [] h (List.append_nil _).symm hr
  have hopen := hj _ h' hs (by rw [hwait]; exact fun hp => by cases hp) hpc
  rw [hcl] at hopen
  cases hopen

end Tokactor
