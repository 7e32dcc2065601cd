import Tokactor.Proof.Flow

/-!
# How soon an actor stops

`process_message` ends with a test of the state, and the main loops are left when the context
is not running any more. Before the first message there is no such test: after `on_start` both
loops go straight to their receive.

* `stop_prompt`: a stop request takes effect at once, if and only if `on_start` leaves the
  context running, or leaves a mailbox that is closed and empty.
-/

namespace Tokactor

variable {A M : Type}

/-- The executor of the main loop has a message that it has not begun to handle. -/
def Pc.fresh : Pc A M → Bool
  | .check (some _) | .acquire (some _) _ _ | .process .main _ => true
  | _ => false

/-- The executor is at the receive of its main loop, or goes there without a message. -/
def Pc.receiving : Pc A M → Bool
  | .recv | .check none | .acquire none _ _ | .select => true
  | _ => false

namespace Node

/-- In a context that is not running the main loop begins with no other message and waits for
none: the receive yields `None` at once. -/
structure Prompt (n : Node A M) : Prop where
  handles : n.state ≠ .running → n.pc.fresh = false
  waits : n.state ≠ .running → n.pc.receiving = true → n.mailbox.closed = true ∧ n.mailbox.queue = []

/-- The context lets the main loop go to its first receive. -/
def mayReceive (n : Node A M) : Bool := n.state == .running || n.mailbox.closed && n.mailbox.queue.isEmpty

end Node

/-- When `on_start` returns, the context is running, or the mailbox is closed and empty. -/
def StartsPrompt (n : Node A M) (l : Label A M) : Prop :=
  match n.pc, l with
  | .onStart, .exec (.ret _) => n.mayReceive = true
  | _, _ => True

instance (n : Node A M) (l : Label A M) : Decidable (StartsPrompt n l) := by
  unfold StartsPrompt
  split <;> infer_instance

namespace Node

theorem mayReceive_iff {n : Node A M} :
    n.mayReceive = true ↔ (n.state ≠ .running → n.mailbox.closed = true ∧ n.mailbox.queue = []) := by
  unfold mayReceive
  by_cases hs : n.state = .running <;> simp [hs]

/-- Elsewhere in the code nothing is asked of the state. -/
theorem Prompt.of_pc {n : Node A M} (hf : n.pc.fresh = false) (hr : n.pc.receiving = false) : n.Prompt :=
  ⟨fun _ => hf, fun _ h => by rw [hr] at h; cases h⟩

theorem Prompt.of_running {n : Node A M} (hs : n.state = .running) : n.Prompt :=
  ⟨fun h => absurd hs h, fun h => absurd hs h⟩

theorem mainLoop_prompt {n : Node A M} : n.mainLoop.Prompt ↔ n.mayReceive = true := by
  rw [mayReceive_iff]
  have hrec : n.mainLoop.pc.receiving = true ∧ n.mainLoop.pc.fresh = false := by
    unfold mainLoop
    cases n.cfg.supervised <;> exact ⟨rfl, rfl⟩
  exact ⟨fun h hs => h.waits hs hrec.1, fun h => ⟨fun _ => hrec.2, fun hs _ => h hs⟩⟩

/-- The executor goes on without a change of what is asked. -/
theorem Prompt.goes {n n' : Node A M} (hp : n.Prompt) (hs : n'.state = n.state) (hm : n'.mailbox = n.mailbox)
    (hf : n'.pc.fresh = n.pc.fresh) (hr : n'.pc.receiving = n.pc.receiving) : n'.Prompt := by
  constructor
  · rw [hs, hf]
    exact hp.handles
  · rw [hs, hr, hm]
    exact hp.waits

theorem passCheck_prompt {n : Node A M} {hand : Option (Mail A M)} (hp : n.Prompt)
    (hpc : n.pc = .check hand ∨ ∃ k rest, n.pc = .acquire hand k rest) : (n.passCheck hand).Prompt := by
  cases hand with
  | none =>
    have hrec : n.pc.fresh = false ∧ n.pc.receiving = true := by
      rcases hpc with h | ⟨k, rest, h⟩ <;> rw [h] <;> exact ⟨rfl, rfl⟩
    exact hp.goes rfl rfl hrec.1.symm hrec.2.symm
  | some m =>
    have hfresh : n.pc.fresh = true ∧ n.pc.receiving = false := by
      rcases hpc with h | ⟨k, rest, h⟩ <;> rw [h] <;> exact ⟨rfl, rfl⟩
    exact hp.goes rfl rfl hfresh.1.symm hfresh.2.symm

theorem checkStep_prompt {n : Node A M} {hand : Option (Mail A M)} (hp : n.Prompt) (hpc : n.pc = .check hand) :
    (n.checkStep hand).Prompt := by
  unfold checkStep
  split
  · exact passCheck_prompt hp (.inl hpc)
  · cases hand with
    | none => exact hp.goes rfl rfl (by rw [hpc]; rfl) (by rw [hpc]; rfl)
    | some m => exact hp.goes rfl rfl (by rw [hpc]; rfl) (by rw [hpc]; rfl)

/-- A message is only taken by a running actor, or in `shutdown`. -/
theorem took_prompt {n : Node A M} {m : Mail A M} {c : Chan (Mail A M)} {pc : Pc A M} (hp : n.Prompt)
    (hpop : n.mailbox.pop = some (m, c)) (hpc : n.pc.took m = some pc) : Prompt { n with mailbox := c, pc := pc } := by
  by_cases hrec : n.pc.receiving = true
  · refine .of_running ?_
    by_contra hs
    have hq := (hp.waits hs hrec).2
    rw [(Chan.pop_cases hpop).1] at hq
    cases hq
  · refine .of_pc ?_ ?_ <;> unfold Pc.took at hpc <;> split at hpc <;> cases hpc <;>
      first | rfl | (rename_i h; rw [h] at hrec; exact absurd rfl hrec)

theorem onStart_prompt {n n' : Node A M} {x : Act A M} (hpc : n.pc = .onStart) (h : n.exec x = some n') :
    n'.Prompt ↔ ((∃ a, x = .ret a) → n.mayReceive = true) := by
  simp only [exec, hpc, callback] at h
  split at h
  · rename_i o
    cases h
    have hprompt : (n.ctxOp o).Prompt := by
      rcases ctxOp_pc n o with ho | ho
      · exact .of_pc (by rw [ho, hpc]; rfl) (by rw [ho, hpc]; rfl)
      · exact .of_pc (by rw [ho]; rfl) (by rw [ho]; rfl)
    exact iff_of_true hprompt (by simp)
  · rename_i a
    cases h
    rw [mainLoop_prompt]
    exact ⟨fun hm _ => hm, fun hm => hm ⟨a, rfl⟩⟩
  · cases h
    exact iff_of_true (.of_pc rfl rfl) (by simp)
  · cases h

/-- After `on_start` no step of the executor makes it less prompt. -/
theorem exec_prompt {n n' : Node A M} {x : Act A M} (hp : n.Prompt) (hstart : n.pc ≠ .onStart) (hx : Exec n x n') :
    n'.Prompt := by
  cases hx with
  | op o ho' hu ho =>
    have hpc := (ctxOp_kept ho).pc
    refine .of_pc ?_ ?_ <;> rw [hpc] <;> unfold Pc.user at hu <;> split at hu <;> rename_i hq <;>
      first | (rw [hq]; rfl) | cases hu
  | onStart a hpc => exact absurd hpc hstart
  | took m c pc hpop hpc => exact took_prompt hp hpop hpc
  | check hand hpc => exact checkStep_prompt hp hpc
  | acquired hand k rest hpc hk =>
    exact passCheck_prompt (n := { n with overflow := rest }) ⟨hp.handles, hp.waits⟩ (.inr ⟨k, rest, hpc⟩)
  | postRun p a hpc =>
    cases p with
    | main =>
      -- the test at the end of `process_message`
      simp only [processed]
      split
      · rename_i hs
        exact mainLoop_prompt.2 (mayReceive_iff.2 fun hs' => absurd hs hs')
      · exact .of_pc rfl rfl
    | stopping | stopped => exact .of_pc rfl rfl
  | finish hpc => unfold finish; (repeat' split) <;> exact .of_pc rfl rfl
  | _ => exact .of_pc rfl rfl

/-- A closed and empty mailbox stays so, whatever others do. -/
theorem Prompt.outside {n n' : Node A M} {ms : List (Mail A M)} (hp : n.Prompt) (ho : Outside ms n n') : n'.Prompt := by
  constructor
  · rw [ho.state, ho.pc]
    exact hp.handles
  · rw [ho.state, ho.pc]
    intro hs hr
    obtain ⟨hc, hq⟩ := hp.waits hs hr
    exact ⟨by rw [ho.mailbox.closed, hc], by rw [ho.mailbox.queue, hq, ho.mailbox.opened hc]; rfl⟩

end Node

/-- Only the end of `on_start` can make the executor wait in a context that is stopping. -/
theorem keeps_prompt {n : Node A M} {l : Label A M} : Lts.Keeps Node.step Node.Prompt n l ↔ StartsPrompt n l := by
  constructor
  · intro hk
    unfold StartsPrompt
    split
    · rename_i a hpc
      have hstep : n.step (.exec (.ret a)) = some (({ n with actor := a }).mainLoop) := by
        simp [Node.step, Node.exec, hpc, Node.callback]
      have hp : n.Prompt := .of_pc (by rw [hpc]; rfl) (by rw [hpc]; rfl)
      have hm := Node.mainLoop_prompt.1 (hk hp _ hstep)
      exact hm
    · trivial
  · intro hc hp n' h
    rcases Node.step_outside h with ⟨x, rfl, hx⟩ | ⟨ms, ho⟩
    · by_cases hstart : n.pc = .onStart
      · rw [Node.onStart_prompt hstart h]
        rintro ⟨a, rfl⟩
        unfold StartsPrompt at hc
        rw [hstart] at hc
        exact hc
      · exact Node.exec_prompt hp hstart hx
    · exact hp.outside ho

/-- **A stop request takes effect at once**: in every state of a run in which the context is
not running, the main loop begins with no other message and waits for none. This holds if and
only if `on_start` leaves the context running, or its mailbox closed and empty. -/
theorem stop_prompt {cfg : Config} {a : A} {ls : List (Label A M)} :
    Lts.Throughout Node.step Node.Prompt (Node.init cfg a) ls ↔ Lts.Along Node.step StartsPrompt (Node.init cfg a) ls := by
  rw [Lts.throughout_iff (Node.Prompt.of_running rfl)]
  exact ⟨Lts.Along.mono fun _ _ => keeps_prompt.1, Lts.Along.mono fun _ _ => keeps_prompt.2⟩

/-- `on_start` calls `stop`; the actor waits, and handles the message it gets. -/
def stopInStartRun : List (Label Unit ℕ) :=
  [.exec (.op .stop), .exec (.ret ()), .send (.user 7), .exec .recv, .exec .go, .exec .go, .exec (.ret ()),
    .exec (.ret ()), .exec (.ret ())]

/-- **A stop request in `on_start` waits for a message**, which is handled. -/
theorem stop_waits :
    ∃ n₁ n : Node Unit ℕ, Lts.run Node.step (Node.init ⟨4, 1, false, []⟩ ()) (stopInStartRun.take 2) = some n₁ ∧
      n₁.pc = .recv ∧ n₁.state = .stopping ∧ n₁.exec .recv = none ∧ n₁.exec .none = none ∧
      Lts.run Node.step (Node.init ⟨4, 1, false, []⟩ ()) stopInStartRun = some n ∧
      n.trace = [.onStart, .preRun, .handle ⟨none, .user 7⟩, .postRun, .onStopping] ∧
      ¬ Lts.Throughout Node.step Node.Prompt (Node.init ⟨4, 1, false, []⟩ ()) stopInStartRun := by
  refine ⟨_, _, rfl, rfl, rfl, rfl, rfl, rfl, rfl, fun h => ?_⟩
  have hp := h (stopInStartRun.take 2) (stopInStartRun.drop 2) _ rfl rfl
  exact absurd (hp.waits (by decide) rfl).1 (by decide)

end Tokactor
