import Mathlib.Data.Nat.Basic
import Tokactor.Proof.Flow

/-!
# The life-cycle state

`stop`, `subscribe_and_stop` and `abort` write the state under a guard, and the end of
`stopping` writes the last one. The start of `shutdown` writes `stopping` whatever was
there before.

* `state_step`: a step takes the state back exactly when it starts `shutdown` in a stopped
  context.
* `state_forward`: so the state of a run only moves forward if and only if `shutdown` never
  starts in a stopped context.
-/

namespace Tokactor

variable {A M : Type}

/-- Where a state stands in the order `Running`, `Stopping`, `Stopped`. -/
def ActorState.rank : ActorState → ℕ
  | .running => 0
  | .stopping => 1
  | .stopped => 2

theorem ActorState.rank_le (s : ActorState) : s.rank ≤ 2 := by
  cases s <;> simp [rank]

namespace Node

/-- The step ends the main loop, and `shutdown` starts. -/
def endsLoop (n : Node A M) : Label A M → Bool
  | .exec x =>
    match n.pc, x with
    | .recv, .none | .select, .none | .select, .shutdown => true
    | .postRun .main, .ret _ => n.state ≠ .running
    | _, _ => false
  | _ => false

theorem stop_rank (n : Node A M) : n.state.rank ≤ n.stop.state.rank := by
  unfold stop
  split
  · rename_i h
    rw [h]
    exact Nat.zero_le _
  · exact Nat.le_refl _

theorem abort_rank (n : Node A M) : n.state.rank ≤ n.abort.state.rank := by
  unfold abort
  split
  · exact ActorState.rank_le _
  · exact ActorState.rank_le _
  · exact Nat.le_refl _

theorem anonymous_state (n : Node A M) (kind : AnonKind) : (n.anonymous kind).state = n.state := by
  obtain ⟨p, q, t, h⟩ := anonymous_eq n kind
  rw [h]

theorem ctxOp_rank {n : Node A M} {o : CtxOp} (ho : n.allows o) : n.state.rank ≤ (n.ctxOp o).state.rank := by
  cases o with
  | stop => exact stop_rank n
  | abort => exact abort_rank n
  | spawn id =>
    rw [ctxOp, if_pos (show n.state = .running from ho)]
  | anonymous | anonymousTask | anonymousHandle => exact Nat.le_of_eq (congrArg _ (anonymous_state n _).symm)

theorem subscribe_rank (n : Node A M) (stopNow : Bool) (w : ℕ) :
    n.state.rank ≤ (if stopNow then n.subscribeAndStop w else n.subscribeAndWait w).state.rank := by
  cases stopNow
  · exact Nat.le_refl _
  · exact stop_rank (n.storeSender w)

/-- The main loop is left into `shutdown`. -/
theorem endsLoop_state {n n' : Node A M} {l : Label A M} (he : n.endsLoop l = true) (h : n.step l = some n') :
    n'.state = .stopping := by
  unfold endsLoop at he
  split at he
  · split at he
    · rename_i hpc
      simp only [step, exec, hpc, receive] at h
      split at h <;> cases h
      rfl
    · rename_i hpc
      simp only [step, exec, hpc, handleSupervisedMessage, receive] at h
      split at h <;> cases h
      rfl
    · rename_i hpc
      simp only [step, exec, hpc, handleSupervisedMessage] at h
      cases h
      rfl
    · rename_i hpc
      have hs : n.state ≠ .running := by simpa using he
      simp only [step, exec, hpc, callback, processed, if_neg hs] at h
      cases h
      rfl
    · cases he
  · cases he

/-- A rule of the executor moves the state forward, or starts `shutdown`. -/
theorem exec_state {n n' : Node A M} {x : Act A M} (hx : Exec n x n') :
    n.state.rank ≤ n'.state.rank ∨ n.pc ≠ .onStopping ∧ n'.pc = .onStopping := by
  cases hx with
  | op o ho' hu ho => exact .inl (ctxOp_rank ho)
  | unwind c hc =>
    obtain ⟨aw, ak, h⟩ := unwind_eq n c
    rw [h]
    exact .inl (Nat.le_refl _)
  | leaveLoop hpc =>
    refine .inr ⟨?_, rfl⟩
    rcases hpc with hpc | hpc <;> rw [hpc] <;> simp
  | check hand hpc => unfold checkStep; split <;> cases hand <;> exact .inl (Nat.le_refl _)
  | acquired hand k rest hpc hk => cases hand <;> exact .inl (Nat.le_refl _)
  | task p m a k h hx hpc hb => exact .inl (Nat.le_of_eq (congrArg _ (anonymous_state { n with actor := a } (.reply k h)).symm))
  | await p m stopNow w hpc hb => exact .inl (subscribe_rank n stopNow w)
  | cancelClosed p m hpc hc =>
    obtain ⟨aw, ak, h⟩ := dropMail_eq n m
    rw [h]
    exact .inl (Nat.le_refl _)
  | cancelSent p m c hpc hc =>
    obtain ⟨aw, ak, h⟩ := dropMail_eq { n with mailbox := c } m
    rw [h]
    exact .inl (Nat.le_refl _)
  | postRun p a hpc =>
    cases p with
    | main =>
      unfold processed
      dsimp only
      split
      · exact .inl (Nat.le_refl _)
      · exact .inr ⟨by rw [hpc]; simp, rfl⟩
    | stopping | stopped => exact .inl (Nat.le_refl _)
  | stoppingDone hgo hpc hc => exact .inl (ActorState.rank_le _)
  | finish hpc => unfold finish; (repeat' split) <;> exact .inl (Nat.le_refl _)
  | _ => exact .inl (Nat.le_refl _)

theorem receive_cases {n n' : Node A M} {x : Act A M} {k : Mail A M → Node A M → Node A M}
    {e : Node A M → Node A M} (h : n.receive x k e = some n') :
    (∃ m c, x = .recv ∧ n' = k m { n with mailbox := c }) ∨ x = .none ∧ n' = e n := by
  unfold receive at h
  split at h
  · obtain ⟨⟨m, c⟩, -, rfl⟩ := Option.map_eq_some_iff.1 h
    exact .inl ⟨m, c, rfl, rfl⟩
  · split at h <;> cases h
    exact .inr ⟨rfl, rfl⟩
  · cases h

/-- `shutdown` starts only where the main loop ends. -/
theorem endsLoop_of {n n' : Node A M} {x : Act A M} (h : n.exec x = some n') (h0 : n.pc ≠ .onStopping)
    (h1 : n'.pc = .onStopping) : n.endsLoop (.exec x) = true := by
  have hpc : n.pc = .recv ∨ n.pc = .select ∨ n.pc = .postRun .main := by
    have hflow := exec_enters (exec_rule h) (by rw [h1]; exact Stage.noConfusion)
    rw [h1] at hflow
    exact hflow.resolve_left fun h => h0 h.symm
  have hpanic : ∀ c, n.unwind c ≠ n' := by
    intro c heq
    rw [← heq] at h1
    cases h1
  rcases hpc with hpc | hpc | hpc
  · simp only [exec, hpc] at h
    rcases receive_cases h with ⟨m, c, -, rfl⟩ | ⟨rfl, -⟩
    · cases h1
    · simp only [endsLoop, hpc]
  · simp only [exec, hpc, handleSupervisedMessage] at h
    split at h
    · simp only [endsLoop, hpc]
    · exact absurd (Option.some.inj h) (hpanic .supervisor)
    · rcases receive_cases h with ⟨m, c, -, rfl⟩ | ⟨rfl, -⟩
      · cases h1
      · simp only [endsLoop, hpc]
  · -- behind the last callback the state decides
    cases x with
    | op o =>
      simp only [exec, hpc, callback, Option.some.injEq] at h
      by_cases ho : n.allows o
      · rw [← h, (ctxOp_kept ho).pc] at h1
        exact absurd h1 h0
      · cases o with
        | spawn id => exact absurd (h ▸ (if_neg ho).symm) (hpanic .callback)
        | _ => exact absurd trivial ho
    | ret a =>
      simp only [exec, hpc, callback, Option.some.injEq] at h
      rw [← h] at h1
      simp only [processed] at h1
      split at h1
      · simp only [mainLoop] at h1
        split at h1 <;> cases h1
      · rename_i hs
        simp [endsLoop, hpc, hs]
    | panic =>
      simp only [exec, hpc, callback, Option.some.injEq] at h
      exact absurd h (hpanic .callback)
    | _ => simp [exec, hpc, callback] at h

/-- **A step takes the state back exactly when it starts `shutdown` in a stopped context.** -/
theorem state_step {n n' : Node A M} {l : Label A M} (h : n.step l = some n') :
    n.state.rank ≤ n'.state.rank ↔ (n.endsLoop l = true → n.state ≠ .stopped) := by
  by_cases he : n.endsLoop l = true
  · rw [endsLoop_state he h]
    cases hs : n.state <;> simp [ActorState.rank, he]
  · refine ⟨fun _ h => absurd h he, fun _ => ?_⟩
    cases l with
    | exec x =>
      rcases exec_state (exec_rule h) with hle | ⟨h0, h1⟩
      · exact hle
      · exact absurd (endsLoop_of h h0 h1) he
    | _ =>
      rcases step_outside h with ⟨x, hx, -⟩ | ⟨ms, ho⟩
      · cases hx
      · exact Nat.le_of_eq (congrArg _ ho.state.symm)

end Node

/-- The step does not start `shutdown` in a stopped context. -/
def FreshShutdown (n : Node A M) (l : Label A M) : Prop := n.endsLoop l = true → n.state ≠ .stopped

instance (n : Node A M) (l : Label A M) : Decidable (FreshShutdown n l) := inferInstanceAs (Decidable (_ → _))

/-- **The state only moves forward**, through `Running`, `Stopping` and `Stopped`, in a run
if and only if `shutdown` does not start in a stopped context. -/
theorem state_forward {cfg : Config} {a : A} {ls : List (Label A M)} {n : Node A M}
    (hr : Lts.run Node.step (Node.init cfg a) ls = some n) :
    Lts.Ascends Node.step (fun n => n.state.rank) (Node.init cfg a) ls ↔
      Lts.Along Node.step FreshShutdown (Node.init cfg a) ls := by
  rw [Lts.ascends_iff]
  constructor
  · intro h
    exact h.of_run (fun n l n' hs hle => (Node.state_step hs).1 (hle n' hs)) hr
  · intro h
    exact h.mono fun n l hf n' hs => (Node.state_step hs).2 hf

/-- An actor is stopped, aborts in `on_stopping`, and ends. -/
def lateAbortRun : List (Label Unit ℕ) :=
  [.exec (.op .stop), .exec (.ret ()), .send (.user 5), .exec .recv, .exec .go, .exec .go, .exec (.ret ()),
    .exec (.ret ()), .exec (.ret ()), .exec (.op .abort), .exec (.ret ()), .exec .go, .exec (.ret ()), .exec .go,
    .exec .none, .exec (.ret ()), .exec .go]

theorem state_forward_lateAbortRun :
    ∃ n : Node Unit ℕ, Lts.run Node.step (Node.init ⟨4, 1, false, []⟩ ()) lateAbortRun = some n ∧ n.pc = .done ∧
      Lts.Ascends Node.step (fun n => n.state.rank) (Node.init ⟨4, 1, false, []⟩ ()) lateAbortRun := by
  have hr : ∃ n : Node Unit ℕ, Lts.run Node.step (Node.init ⟨4, 1, false, []⟩ ()) lateAbortRun = some n ∧
      n.pc = .done := ⟨_, rfl, rfl⟩
  obtain ⟨n, hr, hpc⟩ := hr
  exact ⟨n, hr, hpc, (state_forward hr).2 (by decide)⟩

/-- An actor that aborts in its `on_start`. -/
def abortRun : List (Label Unit ℕ) := [.exec (.op .abort), .exec (.ret ()), .exec .none]

/-- **`abort` in the main loop lets the state go back**, from `Stopped` to `Stopping`. -/
theorem state_goes_back :
    ¬ Lts.Ascends Node.step (fun n => n.state.rank) (Node.init ⟨4, 1, false, []⟩ ()) abortRun := by
  intro h
  have hback := h [.exec (.op .abort)] [.exec (.ret ()), .exec .none] [] _ _ rfl rfl rfl
  exact absurd hback (by decide)

end Tokactor
