import Tokactor.Proof.Life

/-!
# The control flow of the executor

`Pc.Flow pc pc'`: control point `pc'` can follow `pc`. Every step of the executor follows
it (`exec_flow`), so what holds of the order of control points is read off this one
relation, without the rest of the state.

* `exec_rank`: the stages of a life only move forward.
* `exec_closing`, `exec_onEnd`, `exec_fails`: how the executor gets past `stopping`, to
  `on_end`, and to a panic.
-/

namespace Tokactor

variable {A M : Type}

/-- `pc'` can follow `pc`. -/
inductive Pc.Flow (pc : Pc A M) : Pc A M → Prop
  /-- user code uses the context -/
  | stay : Flow pc pc
  /-- the head of a main loop -/
  | loop (pc' : Pc A M) (h : pc = .onStart ∨ pc = .postRun .main) (h' : pc' = .recv ∨ pc' = .check none) : Flow pc pc'
  | took (m : Mail A M) (pc' : Pc A M) (h : pc.took m = some pc') : Flow pc pc'
  | acquire (hand : Option (Mail A M)) (k rest : ℕ) (h : pc = .check hand) : Flow pc (.acquire hand k rest)
  | process (m : Mail A M) (h : pc = .check (some m) ∨ ∃ k rest, pc = .acquire (some m) k rest) :
      Flow pc (.process .main m)
  | select (h : pc = .check none ∨ ∃ k rest, pc = .acquire none k rest) : Flow pc .select
  | preRun (p : Phase) (m : Mail A M) (h : pc = .process p m) : Flow pc (.preRun p m)
  | handle (p : Phase) (m : Mail A M) (h : pc = .preRun p m) : Flow pc (.handle p m)
  | future (p : Phase) (m : Mail A M) (seen : Bool) (h : pc = .handle p m) : Flow pc (.future p m seen)
  | cancelling (p : Phase) (m : Mail A M) (seen : Bool) (h : pc = .future p m seen) : Flow pc (.cancelling p m)
  | postRun (p : Phase) (m : Mail A M)
      (h : pc = .handle p m ∨ (∃ seen, pc = .future p m seen) ∨ pc = .cancelling p m) : Flow pc (.postRun p)
  | onStopping (h : pc = .recv ∨ pc = .select ∨ pc = .postRun .main) : Flow pc .onStopping
  | isClosed (h : pc = .onStopping) : Flow pc .isClosed
  | notify (h : pc = .isClosed) : Flow pc .notify
  | wait (h : pc = .notify ∨ pc = .recheck) : Flow pc .wait
  | recheck (h : pc = .wait ∨ pc = .postRun .stopping) : Flow pc .recheck
  | onStopped (h : pc = .isClosed ∨ pc = .recheck) : Flow pc .onStopped
  | assertClosed (h : pc = .onStopped) : Flow pc .assertClosed
  | drain (h : pc = .assertClosed ∨ pc = .postRun .stopped) : Flow pc .drain
  | onEnd (h : pc = .drain) : Flow pc .onEnd
  | returned (h : pc = .onEnd) : Flow pc .returned
  | finish (pc' : Pc A M) (h : pc = .returned) (h' : pc' = .handed ∨ pc' = .reporting ∨ pc' = .done) : Flow pc pc'

namespace Node

theorem mainLoop_flow {n : Node A M} {pc : Pc A M} (h : pc = .onStart ∨ pc = .postRun .main) :
    pc.Flow n.mainLoop.pc := by
  refine .loop _ h ?_
  unfold mainLoop
  cases n.cfg.supervised
  · exact .inl rfl
  · exact .inr rfl

theorem passCheck_flow {n : Node A M} {pc : Pc A M} {hand : Option (Mail A M)}
    (h : pc = .check hand ∨ ∃ k rest, pc = .acquire hand k rest) : pc.Flow (n.passCheck hand).pc := by
  cases hand with
  | none => exact .select h
  | some m => exact .process m h

/-- **Every step of the executor follows the control flow**, unless it panics. -/
theorem exec_flow {n n' : Node A M} {x : Act A M} (hx : Exec n x n') :
    (∃ c, n.panics x c ∧ n' = n.unwind c) ∨ n.pc.Flow n'.pc := by
  cases hx with
  | unwind c hc => exact .inl ⟨c, hc, rfl⟩
  | op o ho' hu ho =>
    right
    rw [(ctxOp_kept ho).pc]
    exact .stay
  | onStart a hpc => exact .inr (mainLoop_flow (.inl hpc))
  | took m c pc hp hpc => exact .inr (.took m pc hpc)
  | leaveLoop hpc => exact .inr (.onStopping (hpc.imp_right .inl))
  | check hand hpc =>
    right
    unfold checkStep
    split
    · exact passCheck_flow (.inl hpc)
    · exact .acquire hand _ _ hpc
  | acquired hand k rest hpc hk => exact .inr (passCheck_flow (.inr ⟨k, rest, hpc⟩))
  | process p m hpc => exact .inr (.preRun p m hpc)
  | preRun p m a hpc => exact .inr (.handle p m hpc)
  | handled p m a hpc hb => exact .inr (.postRun p m (.inl hpc))
  | answered p m a k r hpc hb hr => exact .inr (.postRun p m (hpc.imp_right .inl))
  | task p m a k h hx hpc hb => exact .inr (.postRun p m (.inl hpc))
  | future p m a k hpc hb => exact .inr (.future p m _ hpc)
  | await p m stopNow w hpc hb => exact .inr (.postRun p m (.inl hpc))
  | changed p m seen hpc hs => exact .inr (.cancelling p m seen hpc)
  | cancelClosed p m hpc hc => exact .inr (.postRun p m (.inr (.inr hpc)))
  | cancelSent p m c hpc hc => exact .inr (.postRun p m (.inr (.inr hpc)))
  | postRun p a hpc =>
    cases p with
    | main =>
      right
      simp only [processed]
      split
      · exact mainLoop_flow (.inr hpc)
      · exact .onStopping (.inr (.inr hpc))
    | stopping => exact .inr (.recheck (.inr hpc))
    | stopped => exact .inr (.drain (.inr hpc))
  | onStopping a hpc => exact .inr (.isClosed hpc)
  | stoppingDone hgo hpc hc => exact .inr (.onStopped hpc)
  | children hpc hc => exact .inr (.notify hpc)
  | notify hpc => exact .inr (.wait (.inl hpc))
  | again t hpc => exact .inr (.recheck (.inl hpc))
  | stay hpc hc => exact .inr (.wait (.inr hpc))
  | onStopped a hpc => exact .inr (.assertClosed hpc)
  | assertClosed hpc hc => exact .inr (.drain (.inl hpc))
  | drained hpc hq => exact .inr (.onEnd hpc)
  | onEnd a hpc => exact .inr (.returned hpc)
  | finish hpc =>
    refine .inr (.finish _ hpc ?_)
    unfold finish
    (repeat' split) <;> simp

end Node

theorem unwind_stage (n : Node A M) (c : Cause) : (n.unwind c).pc.stage = .failed := rfl

/-- From where a control point is entered, for those that follow one place of the source only. -/
def Pc.Enters (pc : Pc A M) : Pc A M → Prop
  | .onStart | .panicked _ => False
  | .future p m _ => pc = .handle p m
  | .onStopping => pc = .recv ∨ pc = .select ∨ pc = .postRun .main
  | .wait => pc = .notify ∨ pc = .recheck
  | .onEnd => pc = .drain
  | .handed => pc = .returned
  | _ => True

/-- The control flow stays, or enters the next control point from where it can be entered. -/
theorem Pc.Flow.enters {pc pc' : Pc A M} (h : pc.Flow pc') : pc' = pc ∨ pc.Enters pc' := by
  cases h with
  | stay => exact .inl rfl
  | loop _ h h' => right; rcases h' with rfl | rfl <;> trivial
  | took m _ h => right; unfold Pc.took at h; split at h <;> cases h <;> trivial
  | future p m seen h | onStopping h | wait h | onEnd h => exact .inr h
  | finish _ h h' => right; rcases h' with rfl | rfl | rfl <;> first | exact h | trivial
  | _ => exact .inr trivial

/-- **A step that does not panic enters the next control point from where it can be entered.** -/
theorem exec_enters {n n' : Node A M} {x : Act A M} (hx : Node.Exec n x n') (hf : n'.pc.stage ≠ .failed) :
    n'.pc = n.pc ∨ n.pc.Enters n'.pc := by
  rcases Node.exec_flow hx with ⟨c, -, rfl⟩ | hflow
  · exact absurd (unwind_stage n c) hf
  · exact hflow.enters

/-- A panic comes from the step that raises it. -/
theorem exec_panics {n n' : Node A M} {x : Act A M} {c : Cause} (hx : Node.Exec n x n') (h : n'.pc = .panicked c)
    (h0 : n.pc ≠ .panicked c) : n.panics x c := by
  rcases Node.exec_flow hx with ⟨c', hc, rfl⟩ | hflow
  · have heq : Pc.panicked c' = Pc.panicked (A := A) (M := M) c := h
    cases heq
    exact hc
  · rcases hflow.enters with hpc | hpc
    · exact absurd (hpc.symm.trans h) h0
    · rw [h] at hpc
      exact hpc.elim

/-- The executor is at one of the two `notifier.is_closed()` of `stopping`. -/
def Pc.closes : Pc A M → Bool
  | .isClosed | .recheck => true
  | _ => false

theorem Pc.closes_cases {pc : Pc A M} (h : pc.closes = true) : pc = .isClosed ∨ pc = .recheck := by
  unfold Pc.closes at h
  split at h
  · exact .inl rfl
  · exact .inr rfl
  · cases h

theorem Pc.closes_stage {pc : Pc A M} (h : pc.closes = true) : pc.stage = .stopping := by
  rcases closes_cases h with rfl | rfl <;> rfl

/-- How far a life has got; a panic is the end of it. -/
def Stage.rank : Stage → ℕ
  | .main => 0
  | .stopping => 1
  | .stopped => 2
  | .ended => 3
  | .failed => 4

/-- Where the control flow goes from one stage of a life to another. -/
theorem Pc.Flow.stage {pc pc' : Pc A M} (h : pc.Flow pc') :
    pc'.stage = pc.stage ∨ pc.stage = .main ∧ pc'.stage = .stopping ∨
      pc.closes = true ∧ pc'.stage = .stopped ∨
      pc = .drain ∧ pc'.stage = .ended := by
  cases h with
  | stay => exact .inl rfl
  | loop _ h h' => left; rcases h with rfl | rfl <;> rcases h' with rfl | rfl <;> rfl
  | took m _ h => left; unfold Pc.took at h; split at h <;> cases h <;> rfl
  | acquire hand k rest h => subst h; exact .inl rfl
  | process m h | select h => left; rcases h with rfl | ⟨k, rest, rfl⟩ <;> rfl
  | preRun p m h | handle p m h | future p m seen h | cancelling p m seen h => subst h; exact .inl rfl
  | postRun p m h => left; rcases h with rfl | ⟨seen, rfl⟩ | rfl <;> rfl
  | onStopping h => right; left; rcases h with rfl | rfl | rfl <;> exact ⟨rfl, rfl⟩
  | isClosed h | notify h | assertClosed h | returned h => subst h; exact .inl rfl
  | wait h | recheck h | drain h => left; rcases h with rfl | rfl <;> rfl
  | onStopped h => right; right; left; rcases h with rfl | rfl <;> exact ⟨rfl, rfl⟩
  | onEnd h => exact .inr (.inr (.inr ⟨h, rfl⟩))
  | finish _ h h' => subst h; left; rcases h' with rfl | rfl | rfl <;> rfl

/-- **The stages of a life only move forward.** -/
theorem exec_rank {n n' : Node A M} {x : Act A M} (hx : Node.Exec n x n') :
    n.pc.stage.rank ≤ n'.pc.stage.rank := by
  rcases Node.exec_flow hx with ⟨c, -, rfl⟩ | hf
  · rw [unwind_stage]
    cases n.pc.stage <;> simp [Stage.rank]
  rcases hf.stage with h | ⟨h, -⟩ | ⟨h, h'⟩ | ⟨h, h'⟩
  · exact Nat.le_of_eq (congrArg Stage.rank h).symm
  · rw [h]
    exact Nat.zero_le _
  · rw [h', Pc.closes_stage h]
    exact Nat.le_succ 1
  · rw [h', h]
    exact Nat.le_succ 2

/-- **An executor fails only by a panic.** -/
theorem exec_fails {n n' : Node A M} {x : Act A M} (hx : Node.Exec n x n') (hf : n'.pc.stage = .failed) :
    ∃ c, n.panics x c := by
  rcases Node.exec_flow hx with ⟨c, hc, -⟩ | hflow
  · exact ⟨c, hc⟩
  rcases hflow.stage with h | ⟨-, h⟩ | ⟨-, h⟩ | ⟨-, h⟩
  · exact (exec_failed hx (h ▸ hf)).elim
  all_goals rw [hf] at h; cases h

/-- The executor gets past `stopping` when it sees no receiver. -/
theorem exec_closing {n n' : Node A M} {x : Act A M} (hx : Node.Exec n x n') (hpc : n.pc.closes = true)
    (hs : n'.pc.stage = .stopped) : n.isClosed = true ∧ n' = n.stoppingDone := by
  have hpc := Pc.closes_cases hpc
  cases hx with
  | stoppingDone hgo hpc' hc => exact ⟨hc, rfl⟩
  | unwind c h => rw [unwind_stage] at hs; cases hs
  | _ => rcases hpc with hpc | hpc <;> simp_all [Pc.user, Pc.took, Pc.stage]

/-- The executor starts to wait for permits at a check. -/
theorem exec_acquire {n n' : Node A M} {x : Act A M} (hx : Node.Exec n x n') {hand : Option (Mail A M)} {k rest : ℕ}
    (h : n'.pc = .acquire hand k rest) : n.pc = .check hand ∧ n' = n.checkStep hand := by
  cases hx with
  | check hand' hpc =>
    have hkeep : (n.checkStep hand').pc = .acquire hand k rest → hand' = hand := by
      unfold Node.checkStep
      split
      · intro h'
        cases hand' <;> cases h'
      · intro h'
        cases h'
        rfl
    obtain rfl := hkeep h
    exact ⟨hpc, rfl⟩
  | op o ho' hu ho =>
    rw [(Node.ctxOp_kept ho).pc] at h
    rw [h] at hu
    cases hu
  | onStart a hpc => unfold Node.mainLoop at h; dsimp only at h; split at h <;> cases h
  | took m c pc hp hpc => unfold Pc.took at hpc; split at hpc <;> cases hpc <;> cases h
  | acquired hand' k' rest' hpc hk => cases hand' <;> cases h
  | postRun p a hpc =>
    cases p with
    | main =>
      simp only [Node.processed, Node.mainLoop] at h
      (repeat' split at h) <;> cases h
    | stopping | stopped => cases h
  | finish hpc => unfold Node.finish at h; (repeat' split at h) <;> cases h
  | _ => cases h

/-- An actor is handed to its awaiter after its `shutdown`. -/
theorem exec_handed {n n' : Node A M} {x : Act A M} (hx : Node.Exec n x n') (h : n'.pc = .handed) :
    n.pc = .returned ∧ n' = n.finish := by
  have hpc : n.pc = .returned ∨ n.pc = .handed := by
    have hflow := exec_enters hx (by rw [h]; exact Stage.noConfusion)
    rw [h] at hflow
    exact hflow.symm.imp_right Eq.symm
  cases hx with
  | finish hpc' => exact ⟨hpc', rfl⟩
  | unwind c hc =>
    have hfail := unwind_stage n c
    rw [h] at hfail
    cases hfail
  | _ => rcases hpc with hpc | hpc <;> simp_all [Pc.user, Pc.took]

/-- `on_end` is called in the drain. -/
theorem exec_onEnd {n n' : Node A M} {x : Act A M} (hx : Node.Exec n x n') (h0 : n.pc ≠ .onEnd)
    (h1 : n'.pc = .onEnd) : n.pc = .drain := by
  have hflow := exec_enters hx (by rw [h1]; exact Stage.noConfusion)
  rw [h1] at hflow
  exact hflow.resolve_left fun h => h0 h.symm

end Tokactor
