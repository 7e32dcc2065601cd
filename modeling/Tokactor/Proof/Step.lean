import Tokactor.Lib.Lts
import Tokactor.Proof.Moves

/-!
# What one step can do

* `exec_rule`: every step of the executor is one of the rules of `Exec`.
* `step_rule`: every step is one of the executor, of a task, of a `join` or of the rest.
* `step_outside`: a step that is not the executor's touches neither the executor nor what
  the executor alone writes, and only appends to the mailbox.
* `step_keeps`: the invariant rule for one step.
* `ctxOp_kept`: what user code can do with the context leaves the rest alone.
-/

namespace Tokactor

variable {A M : Type}

/-! ## Control points -/

/-- User code can run on a message with this body. -/
def Body.isUser : Body A M → Bool
  | .await _ _ | .cancelled _ => false
  | _ => true

/-- The asker of a body. -/
def Body.asker : Body A M → Option ℕ
  | .ask _ k | .asyncAsk _ k _ => some k
  | _ => none

/-- The asker has its answer, or the sender of it was dropped. -/
def Reply.decided : Reply M → Bool
  | .pending => false
  | .replied _ | .dropped => true

/-- User code with the context in its hands is running. -/
def Pc.user : Pc A M → Bool
  | .onStart | .preRun _ _ | .postRun _ | .onStopping | .onStopped | .onEnd => true
  | .handle _ m => m.body.isUser
  | _ => false

/-- Where the executor stands after it took `m` from the mailbox. -/
def Pc.took (m : Mail A M) : Pc A M → Option (Pc A M)
  | .recv => some (.check (some m))
  | .select => some (.process .main m)
  | .wait => some (.process .stopping m)
  | .drain => some (.process .stopped m)
  | _ => none

/-- What an effect does to the asks. -/
def Eff.asks (e : Eff A M) (l : List (Reply M)) : List (Reply M) :=
  let l := if e.newAsk then l ++ [.pending] else l
  match e.answer with
  | some (k, r) => l.set k r
  | none => l

/-- What a caller that waits for the actor can do to its own cell, and a refused request. -/
inductive AwaitMoves (closed : Bool) (l : List (Await A)) : List (Await A) → Prop
  | same : AwaitMoves closed l l
  | refused (h : closed = true) : AwaitMoves closed l (l ++ [.refused])
  | received (w : ℕ) (a : A) (h : l[w]? = some (.sent a)) : AwaitMoves closed l (l.set w (.received a))
  | gone (w : ℕ) (c : Await A) (h : l[w]? = some c) (hc : c = .waiting ∨ (∃ a, c = .sent a) ∨ c = .dropped) :
      AwaitMoves closed l (l.set w .gone)

namespace Node

/-- An operation that does not panic. -/
def allows (n : Node A M) : CtxOp → Prop
  | .spawn _ => n.state = .running
  | _ => True

/-- Where the executor can panic, at which action, and why. -/
def panics (n : Node A M) (x : Act A M) : Cause → Prop
  | .callback => (n.pc.user = true ∨ ∃ p m seen, n.pc = .future p m seen) ∧
      (x = .panic ∨ ∃ id, x = .op (.spawn id) ∧ n.state ≠ .running)
  | .timeout => x = .tick ∧ n.pc = .wait ∧ n.timeoutCounter = 10
  | .assertion => x = .go ∧ n.pc = .assertClosed ∧ n.isClosed = false
  | .supervisor => x = .died ∧ n.pc = .select

/-- The rules of `exec`. -/
inductive Exec (n : Node A M) (x : Act A M) : Node A M → Prop
  | op (o : CtxOp) (hx : x = .op o) (hu : n.pc.user = true) (ho : n.allows o) : Exec n x (n.ctxOp o)
  | unwind (c : Cause) (h : n.panics x c) : Exec n x (n.unwind c)
  | onStart (a : A) (h : n.pc = .onStart) : Exec n x ({ n with actor := a }).mainLoop
  | took (m : Mail A M) (c : Chan (Mail A M)) (pc : Pc A M) (hp : n.mailbox.pop = some (m, c))
      (h : n.pc.took m = some pc) : Exec n x { n with mailbox := c, pc := pc }
  | leaveLoop (h : n.pc = .recv ∨ n.pc = .select) : Exec n x n.shutdownStart
  | check (hand : Option (Mail A M)) (h : n.pc = .check hand) : Exec n x (n.checkStep hand)
  | acquired (hand : Option (Mail A M)) (k rest : ℕ) (h : n.pc = .acquire hand k rest)
      (hk : k ≤ n.permits) : Exec n x (({ n with overflow := rest }).passCheck hand)
  | process (p : Phase) (m : Mail A M) (h : n.pc = .process p m) :
      Exec n x (n.call (.preRun p m) .preRun)
  | preRun (p : Phase) (m : Mail A M) (a : A) (h : n.pc = .preRun p m) :
      Exec n x (({ n with actor := a }).call (.handle p m) (.handle m))
  | handled (p : Phase) (m : Mail A M) (a : A) (h : n.pc = .handle p m)
      (hb : ∀ stopNow w, m.body ≠ .await stopNow w) : Exec n x (({ n with actor := a }).handled p)
  | answered (p : Phase) (m : Mail A M) (a : A) (k : ℕ) (r : Reply M)
      (h : n.pc = .handle p m ∨ ∃ seen, n.pc = .future p m seen) (hb : m.body.asker = some k)
      (hr : r.decided = true) :
      Exec n x ((({ n with actor := a }).answer k r).handled p)
  | task (p : Phase) (m : Mail A M) (a : A) (k h : ℕ) (hx : x = .task a h) (hpc : n.pc = .handle p m)
      (hb : m.body.asker = some k) : Exec n x ((({ n with actor := a }).replyTask k h).handled p)
  | future (p : Phase) (m : Mail A M) (a : A) (k : ℕ) (h : n.pc = .handle p m)
      (hb : m.body.asker = some k) : Exec n x { n with actor := a, pc := .future p m n.shutdown }
  | await (p : Phase) (m : Mail A M) (stopNow : Bool) (w : ℕ) (h : n.pc = .handle p m)
      (hb : m.body = .await stopNow w) :
      Exec n x ((if stopNow then n.subscribeAndStop w else n.subscribeAndWait w).handled p)
  | changed (p : Phase) (m : Mail A M) (seen : Bool) (h : n.pc = .future p m seen)
      (hs : n.shutdown ≠ seen) : Exec n x { n with pc := .cancelling p m }
  | cancelClosed (p : Phase) (m : Mail A M) (h : n.pc = .cancelling p m)
      (hc : n.mailbox.closed = true) : Exec n x ((n.dropMail m).handled p)
  | cancelSent (p : Phase) (m : Mail A M) (c : Chan (Mail A M)) (h : n.pc = .cancelling p m)
      (hc : n.mailbox.push ⟨none, .cancelled .cancel⟩ = some c) :
      Exec n x ((({ n with mailbox := c }).dropMail m).handled p)
  | postRun (p : Phase) (a : A) (h : n.pc = .postRun p) : Exec n x (({ n with actor := a }).processed p)
  | onStopping (a : A) (h : n.pc = .onStopping) : Exec n x { n with actor := a, pc := .isClosed }
  | stoppingDone (hx : x = .go) (h : n.pc = .isClosed ∨ n.pc = .recheck) (hc : n.isClosed = true) :
      Exec n x n.stoppingDone
  | children (h : n.pc = .isClosed) (hc : n.isClosed = false) : Exec n x { n with pc := .notify }
  | notify (h : n.pc = .notify) :
      Exec n x { n with shutdown := n.shutdown || !n.isClosed, timeoutCounter := 0, pc := .wait }
  | again (t : ℕ) (h : n.pc = .wait) : Exec n x { n with timeoutCounter := t, pc := .recheck }
  | stay (h : n.pc = .recheck) (hc : n.isClosed = false) : Exec n x { n with pc := .wait }
  | onStopped (a : A) (h : n.pc = .onStopped) : Exec n x { n with actor := a, pc := .assertClosed }
  | assertClosed (h : n.pc = .assertClosed) (hc : n.isClosed = true) : Exec n x { n with pc := .drain }
  | drained (h : n.pc = .drain) (hq : n.mailbox.queue = []) : Exec n x (n.call .onEnd .onEnd)
  | onEnd (a : A) (h : n.pc = .onEnd) :
      Exec n x (({ n with actor := a }).call .returned (.ended a))
  | finish (h : n.pc = .returned) : Exec n x n.finish

theorem ctxOp_rule {n : Node A M} {x : Act A M} {o : CtxOp} (hx : x = .op o) (hu : n.pc.user = true) :
    Exec n x (n.ctxOp o) := by
  by_cases ho : n.allows o
  · exact .op o hx hu ho
  · cases o with
    | spawn id =>
      have : n.state ≠ .running := ho
      simp only [ctxOp, if_neg this]
      exact .unwind .callback ⟨.inl hu, .inr ⟨id, hx, this⟩⟩
    | _ => exact absurd trivial ho

theorem callback_rule {n n' : Node A M} {x : Act A M} {k : Node A M → Node A M}
    (hu : n.pc.user = true) (hk : ∀ a, Exec n x (k { n with actor := a }))
    (h : n.callback x k = some n') : Exec n x n' := by
  cases x <;> simp only [callback, Option.some.injEq, reduceCtorEq] at h <;> subst h
  case op o => exact ctxOp_rule rfl hu
  case ret a => exact hk a
  case panic => exact .unwind .callback ⟨.inl hu, .inl rfl⟩

theorem receive_rule {n n' : Node A M} {x : Act A M} {k : Mail A M → Node A M → Node A M}
    {e : Node A M → Node A M} (hk : ∀ m c, n.mailbox.pop = some (m, c) → Exec n x (k m { n with mailbox := c }))
    (he : Exec n x (e n)) (h : n.receive x k e = some n') : Exec n x n' := by
  unfold receive at h
  split at h
  · simp only [Option.map_eq_some_iff] at h
    obtain ⟨⟨m, c⟩, hp, rfl⟩ := h
    exact hk m c hp
  · split at h
    · cases h; exact he
    · cases h
  · cases h

theorem deliver_rule {n n' : Node A M} {p : Phase} {m : Mail A M} {x : Act A M}
    (hpc : n.pc = .handle p m) (h : n.deliver p m x = some n') : Exec n x n' := by
  have hu : ∀ b, m.body = b → b.isUser = true → n.pc.user = true := by
    intro b hb hbu; rw [hpc]; simp only [Pc.user, hb]; exact hbu
  unfold deliver at h
  split at h
  · rename_i u hb
    exact callback_rule (hu _ hb rfl) (fun a => .handled p m a hpc (by simp [hb])) h
  · rename_i r hb
    exact callback_rule (hu _ hb rfl) (fun a => .handled p m a hpc (by simp [hb])) h
  · rename_i q k hb
    have hask : m.body.asker = some k := by rw [hb]; rfl
    split at h
    · cases h; exact .answered p m _ k _ (.inl hpc) hask rfl
    · cases h; exact .task p m _ k _ rfl hpc hask
    · cases h; exact ctxOp_rule rfl (hu _ hb rfl)
    · cases h; exact .unwind .callback ⟨.inl (hu _ hb rfl), .inl rfl⟩
    · cases h
  · rename_i q k s hb
    have hask : m.body.asker = some k := by rw [hb]; rfl
    refine callback_rule (hu _ hb rfl) (fun a => ?_) h
    cases s with
    | nonBlocking => exact .future p m a k hpc hask
    | blocking => exact .answered p m a k .dropped (.inl hpc) hask rfl
  · rename_i stopNow w hb
    split at h
    · cases h; exact .await p m stopNow w hpc hb
    · cases h
  · rename_i c hb
    split at h
    · cases h; exact .handled p m n.actor hpc (by simp [hb])
    · cases h

theorem handleSupervisedMessage_rule {n n' : Node A M} {x : Act A M} (hpc : n.pc = .select)
    (h : n.handleSupervisedMessage x = some n') : Exec n x n' := by
  unfold handleSupervisedMessage at h
  split at h
  · cases h; exact .leaveLoop (.inr hpc)
  · cases h; exact .unwind .supervisor ⟨rfl, hpc⟩
  · exact receive_rule (fun m c hp => .took m c _ hp (by rw [hpc]; rfl)) (.leaveLoop (.inr hpc)) h

theorem resolve_rule {n n' : Node A M} {x : Act A M} {p : Phase} {m : Mail A M} {seen : Bool}
    (hpc : n.pc = .future p m seen) (h : n.resolve p m seen x = some n') : Exec n x n' := by
  unfold resolve at h
  split at h
  · rename_i hb
    cases h; exact .answered p m _ _ _ (.inr ⟨seen, hpc⟩) (by rw [hb]; rfl) rfl
  · split at h
    · cases h
    · rename_i hs
      cases h; exact .changed p m seen hpc hs
  · cases h; exact .unwind .callback ⟨.inr ⟨p, m, seen, hpc⟩, .inl rfl⟩
  · cases h

theorem cancelFuture_rule {n n' : Node A M} {x : Act A M} {p : Phase} {m : Mail A M} (hpc : n.pc = .cancelling p m)
    (h : n.cancelFuture p m x = some n') : Exec n x n' := by
  unfold cancelFuture at h
  split at h
  · split at h
    · rename_i hc
      cases h; exact .cancelClosed p m hpc hc
    · simp only [Option.map_eq_some_iff] at h
      obtain ⟨c, hc, rfl⟩ := h
      exact .cancelSent p m c hpc hc
  · cases h

theorem stoppingLoop_rule {n n' : Node A M} {x : Act A M} (hpc : n.pc = .wait) (h : n.stoppingLoop x = some n') :
    Exec n x n' := by
  unfold stoppingLoop at h
  split at h
  · split at h
    · rename_i ht
      cases h; exact .unwind .timeout ⟨rfl, hpc, ht⟩
    · cases h; exact .again _ hpc
  · exact receive_rule (fun m c hp => .took m c _ hp (by rw [hpc]; rfl)) (.again _ hpc) h

theorem drainStep_rule {n n' : Node A M} {x : Act A M} (hpc : n.pc = .drain) (h : n.drainStep x = some n') :
    Exec n x n' := by
  unfold drainStep at h
  split at h
  · simp only [Option.map_eq_some_iff] at h
    obtain ⟨⟨m, c⟩, hp, rfl⟩ := h
    exact .took m c _ hp (by rw [hpc]; rfl)
  · split at h
    · rename_i hq
      cases h; exact .drained hpc hq
    · cases h
  · cases h

/-- **Every step of the executor is one of the rules.** -/
theorem exec_rule {n n' : Node A M} {x : Act A M} (h : n.exec x = some n') : Exec n x n' := by
  unfold exec at h
  cases hpc : n.pc <;> simp only [hpc, reduceCtorEq] at h
  case onStart => exact callback_rule (by rw [hpc]; rfl) (fun a => .onStart a hpc) h
  case recv => exact receive_rule (fun m c hp => .took m c _ hp (by rw [hpc]; rfl)) (.leaveLoop (.inl hpc)) h
  case check hand =>
    split at h
    · cases h; exact .check hand hpc
    · cases h
  case acquire hand k rest =>
    split at h
    · split at h
      · rename_i hk
        cases h; exact .acquired hand k rest hpc hk
      · cases h
    · cases h
  case select => exact handleSupervisedMessage_rule hpc h
  case process p m =>
    split at h
    · cases h; exact .process p m hpc
    · cases h
  case preRun p m => exact callback_rule (by rw [hpc]; rfl) (fun a => .preRun p m a hpc) h
  case handle p m => exact deliver_rule hpc h
  case future p m seen => exact resolve_rule hpc h
  case cancelling p m => exact cancelFuture_rule hpc h
  case postRun p => exact callback_rule (by rw [hpc]; rfl) (fun a => .postRun p a hpc) h
  case onStopping => exact callback_rule (by rw [hpc]; rfl) (fun a => .onStopping a hpc) h
  case isClosed =>
    split at h
    · cases h
      split
      · rename_i hc; exact .stoppingDone rfl (.inl hpc) hc
      · rename_i hc; exact .children hpc (by simpa using hc)
    · cases h
  case notify =>
    split at h
    · cases h; exact .notify hpc
    · cases h
  case wait => exact stoppingLoop_rule hpc h
  case recheck =>
    split at h
    · cases h
      split
      · rename_i hc; exact .stoppingDone rfl (.inr hpc) hc
      · rename_i hc; exact .stay hpc (by simpa using hc)
    · cases h
  case onStopped => exact callback_rule (by rw [hpc]; rfl) (fun a => .onStopped a hpc) h
  case assertClosed =>
    split at h
    · cases h
      split
      · rename_i hc; exact .assertClosed hpc hc
      · rename_i hc; exact .unwind .assertion ⟨rfl, hpc, by simpa using hc⟩
    · cases h
  case drain => exact drainStep_rule hpc h
  case onEnd => exact callback_rule (by rw [hpc]; rfl) (fun a => .onEnd a hpc) h
  case returned =>
    split at h
    · cases h; exact .finish hpc
    · cases h

/-! ## Steps of everybody else -/

/-- A step that is not the executor's. It appends `ms` to the mailbox. -/
structure Outside (ms : List (Mail A M)) (n n' : Node A M) : Prop where
  cfg : n'.cfg = n.cfg
  actor : n'.actor = n.actor
  pc : n'.pc = n.pc
  shutdown : n'.shutdown = n.shutdown
  state : n'.state = n.state
  overflow : n'.overflow = n.overflow
  sender : n'.sender = n.sender
  timeoutCounter : n'.timeoutCounter = n.timeoutCounter
  trace : n'.trace = n.trace
  mailbox : Chan.Grown ms n.mailbox n'.mailbox

theorem Outside.trans {ms ms' : List (Mail A M)} {n n' n'' : Node A M} (h : Outside ms n n')
    (h' : Outside ms' n' n'') : Outside (ms ++ ms') n n'' :=
  ⟨h'.cfg.trans h.cfg, h'.actor.trans h.actor, h'.pc.trans h.pc, h'.shutdown.trans h.shutdown,
    h'.state.trans h.state, h'.overflow.trans h.overflow, h'.sender.trans h.sender,
    h'.timeoutCounter.trans h.timeoutCounter, h'.trace.trans h.trace, h.mailbox.trans h'.mailbox⟩

/-- What a step of a task leaves of the actor. -/
theorem absorb_kept (n : Node A M) (e : Eff A M) :
    (n.absorb e).cfg = n.cfg ∧ (n.absorb e).actor = n.actor ∧ (n.absorb e).pc = n.pc ∧
      (n.absorb e).shutdown = n.shutdown ∧ (n.absorb e).state = n.state ∧
      (n.absorb e).overflow = n.overflow ∧ (n.absorb e).sender = n.sender ∧
      (n.absorb e).timeoutCounter = n.timeoutCounter ∧ (n.absorb e).trace = n.trace ∧
      (n.absorb e).mailbox = n.mailbox ∧ (n.absorb e).awaits = n.awaits ∧
      (n.absorb e).dropped = n.dropped ∧ (n.absorb e).asks = e.asks n.asks ∧
      (n.absorb e).permits = n.permits + if e.release then 1 else 0 := by
  unfold absorb Eff.asks
  cases e.newAsk <;> cases e.release <;> cases e.answer <;> simp [answer]

/-- All that a step of task `k` does. -/
structure Tasked (n : Node A M) (k : ℕ) (l : TaskLabel A M) (n' : Node A M) (s : Slot A M)
    (t : Task A M) (e : Eff A M) : Prop where
  slot : n.tasks[k]? = some s
  moves : s.task.Moves n.view l t e
  tasks : n'.tasks = n.tasks.set k ⟨t, s.out ++ e.push.toList⟩
  permits : n'.permits = n.permits + if e.release then 1 else 0
  awaits : n'.awaits = n.awaits
  dropped : n'.dropped = n.dropped
  asks : n'.asks = e.asks n.asks
  outside : Outside (e.push.toList.map (⟨some k, ·⟩)) n n'

theorem taskStep_cases {n n' : Node A M} {k : ℕ} {l : TaskLabel A M} (h : n.taskStep k l = some n') :
    ∃ s t e, Tasked n k l n' s t e := by
  unfold taskStep at h
  split at h
  · cases h
  rename_i s hs
  split at h
  · cases h
  rename_i t e ht
  simp only [Option.map_eq_some_iff] at h
  obtain ⟨n1, h1, rfl⟩ := h
  obtain ⟨k1, k2, k3, k4, k5, k6, k7, k8, k9, k10, k11, k12, k13, k14⟩ := absorb_kept n1 e
  cases hp : e.push with
  | none =>
    rw [hp] at h1
    cases h1
    exact ⟨s, t, e, hs, task_moves ht, by rw [hp], k14, k11, k12, k13,
      ⟨k1, k2, k3, k4, k5, k6, k7, k8, k9, by rw [hp, k10]; exact Chan.Grown.refl _⟩⟩
  | some b =>
    rw [hp] at h1
    simp only [emit, Option.map_eq_some_iff] at h1
    obtain ⟨c, hc, rfl⟩ := h1
    exact ⟨s, t, e, hs, task_moves ht, by rw [hp], k14, k11, k12, k13,
      ⟨k1, k2, k3, k4, k5, k6, k7, k8, k9, by rw [hp, k10]; exact Chan.Grown.of_push hc⟩⟩

/-- The handle of task `h` yields nothing to the `reply` task that joins it. -/
def yieldsNone (n : Node A M) (h : ℕ) : Bool :=
  match n.tasks[h]?.map Slot.task with
  | some (.anon { kind := .handle, pc := .returned (some _), .. }) => false
  | _ => true

/-- All that a `join` does: a step of the joining task, after a step of the handle it
joins if that one still holds its output. -/
structure Joined (n : Node A M) (i h : ℕ) (n' : Node A M) (n₁ : Node A M) (l : AnonLabel M) : Prop where
  taken : n₁ = n ∨ n.taskStep h (.anon .take) = some n₁
  join : n₁.taskStep i (.anon l) = some n'
  label : l = .lost ∧ n.yieldsNone h = true ∨ ∃ v, l = .finish v

theorem join_cases {n n' : Node A M} {i h : ℕ} (hj : n.join i h = some n') :
    ∃ n₁ l, Joined n i h n' n₁ l := by
  unfold join at hj
  split at hj
  · rename_i hh
    split at hj
    · split at hj
      · obtain ⟨n₁, h1, h2⟩ := Option.bind_eq_some_iff.1 hj
        exact ⟨n₁, _, .inr h1, h2, .inr ⟨_, rfl⟩⟩
      · obtain ⟨n₁, h1, h2⟩ := Option.bind_eq_some_iff.1 hj
        exact ⟨n₁, _, .inr h1, h2, .inl ⟨rfl, by unfold yieldsNone; rw [hh]⟩⟩
      · exact ⟨n, _, .inl rfl, hj, .inl ⟨rfl, by unfold yieldsNone; rw [hh]⟩⟩
      · cases hj
    · cases hj
  · cases hj

/-- The cells of a request that the mailbox accepts, and what that request is. -/
structure Sent (n n' : Node A M) (b : Body A M) : Prop where
  awaits : n'.awaits = n.awaits ∧ b.isUser = true ∨
    ∃ stopNow, b = .await stopNow n.awaits.length ∧ n'.awaits = n.awaits ++ [.waiting]
  asks : n'.asks = n.asks ∧ b.asker = none ∨
    b.asker = some n.asks.length ∧ n'.asks = n.asks ++ [.pending]

/-- A step of somebody who is neither the executor nor a task of the actor. -/
structure Rest (ms : List (Mail A M)) (n n' : Node A M) : Prop where
  outside : Outside ms n n'
  tasks : n'.tasks = n.tasks
  permits : n'.permits = n.permits
  dropped : n'.dropped = n.dropped ∨ n.pc = .reporting
  src : ∀ m ∈ ms, m.src = none

/-- All that a step can be. -/
inductive Step (n : Node A M) (n' : Node A M) : Label A M → Prop
  | exec (x : Act A M) (h : Exec n x n') : Step n n' (.exec x)
  | task (k : ℕ) (l : TaskLabel A M) (s : Slot A M) (t : Task A M) (e : Eff A M)
      (hb : n.bound k l = false) (h : Tasked n k l n' s t e) : Step n n' (.task k l)
  | join (i h : ℕ) (n₁ : Node A M) (l : AnonLabel M) (hj : Joined n i h n' n₁ l) : Step n n' (.join i h)
  | send (r : Request M) (b : Body A M) (h : Rest [⟨none, b⟩] n n') (hs : Sent n n' b) : Step n n' (.send r)
  | quiet (l : Label A M) (h : Rest [] n n') (hw : AwaitMoves n.mailbox.closed n.awaits n'.awaits)
      (ha : n'.asks = n.asks) : Step n n' l

/-- An accepted send. -/
theorem send_rule {n n' : Node A M} {r : Request M} (h : n.send r = some n') : Step n n' (.send r) := by
  unfold send at h
  cases r with
  | user m =>
    simp only [Option.map_eq_some_iff] at h
    obtain ⟨c, hc, rfl⟩ := h
    exact .send _ _ ⟨⟨rfl, rfl, rfl, rfl, rfl, rfl, rfl, rfl, rfl, .of_push hc⟩, rfl, rfl, .inl rfl, by simp⟩
      ⟨.inl ⟨rfl, rfl⟩, .inl ⟨rfl, rfl⟩⟩
  | ask m | asyncAsk m s =>
    simp only [Option.map_eq_some_iff] at h
    obtain ⟨c, hc, rfl⟩ := h
    exact .send _ _ ⟨⟨rfl, rfl, rfl, rfl, rfl, rfl, rfl, rfl, rfl, .of_push hc⟩, rfl, rfl, .inl rfl, by simp⟩
      ⟨.inl ⟨rfl, rfl⟩, .inr ⟨rfl, rfl⟩⟩
  | await stopNow =>
    simp only [Option.map_eq_some_iff] at h
    obtain ⟨c, hc, rfl⟩ := h
    exact .send _ _ ⟨⟨rfl, rfl, rfl, rfl, rfl, rfl, rfl, rfl, rfl, .of_push hc⟩, rfl, rfl, .inl rfl, by simp⟩
      ⟨.inr ⟨stopNow, rfl, rfl⟩, .inl ⟨rfl, rfl⟩⟩

/-- A step that changes only the cells of the callers that wait. -/
theorem quiet_rule {n : Node A M} {l : Label A M} {aw : List (Await A)}
    (hw : AwaitMoves n.mailbox.closed n.awaits aw) : Step n { n with awaits := aw } l :=
  .quiet l ⟨⟨rfl, rfl, rfl, rfl, rfl, rfl, rfl, rfl, rfl, .refl _⟩, rfl, rfl, .inl rfl, by simp⟩ hw rfl

/-- **Every step is one of the rules.** -/
theorem step_rule {n n' : Node A M} {l : Label A M} (h : n.step l = some n') : Step n n' l := by
  unfold step at h
  cases l with
  | exec x => exact .exec x (exec_rule h)
  | send r => exact send_rule h
  | refuse =>
    simp only at h
    split at h
    · rename_i hc
      cases h
      exact quiet_rule (.refused hc)
    · cases h
  | poll w =>
    simp only [poll] at h
    split at h
    · rename_i a ha
      cases h
      exact quiet_rule (.received w a ha)
    · cases h
  | giveUp w =>
    simp only [giveUp] at h
    split at h
    · rename_i hc
      cases h
      exact quiet_rule (.gone w _ hc (.inl rfl))
    · rename_i a hc
      cases h
      exact quiet_rule (.gone w _ hc (.inr (.inl ⟨a, rfl⟩)))
    · rename_i hc
      cases h
      exact quiet_rule (.gone w _ hc (.inr (.inr rfl)))
    · cases h
  | task k l =>
    simp only at h
    split at h
    · cases h
    · rename_i hb
      obtain ⟨s, t, e, ht⟩ := taskStep_cases h
      exact .task k l s t e (by simpa using hb) ht
  | join i h' =>
    obtain ⟨n₁, l, hj⟩ := join_cases h
    exact .join i h' n₁ l hj
  | dropCtx =>
    simp only at h
    split at h
    · rename_i hpc
      cases h
      exact .quiet _ ⟨⟨rfl, rfl, rfl, rfl, rfl, rfl, rfl, rfl, rfl, .refl _⟩, rfl, rfl, .inr hpc, by simp⟩ .same rfl
    · cases h

/-- **Every step is one of the executor or an outside step.** -/
theorem step_outside {n n' : Node A M} {l : Label A M} (h : n.step l = some n') :
    (∃ x, l = .exec x ∧ Exec n x n') ∨ ∃ ms, Outside ms n n' := by
  cases step_rule h with
  | exec x hx => exact .inl ⟨x, rfl, hx⟩
  | task k l s t e hb ht => exact .inr ⟨_, ht.outside⟩
  | join i h' n₁ l hj =>
    obtain ⟨s, t, e, ht⟩ := taskStep_cases hj.join
    rcases hj.taken with rfl | h1
    · exact .inr ⟨_, ht.outside⟩
    · obtain ⟨s', t', e', ht'⟩ := taskStep_cases h1
      exact .inr ⟨_, ht'.outside.trans ht.outside⟩
  | send r b hr hs => exact .inr ⟨_, hr.outside⟩
  | quiet l hr hw ha => exact .inr ⟨_, hr.outside⟩

/-- **Invariant rule for one step**: it is enough to look at the rules of the executor,
at one step of one task, and at the steps of the rest. -/
theorem step_keeps {I : Node A M → Prop} {n n' : Node A M} {l : Label A M} (hi : I n)
    (h : n.step l = some n') (hexec : ∀ x, l = .exec x → Exec n x n' → I n')
    (htask : ∀ n₁ k tl n₂ s t e, I n₁ → (l = .task k tl ∧ n₁ = n ∨ ∃ al, tl = .anon al) →
      Tasked n₁ k tl n₂ s t e → I n₂)
    (hrest : ∀ ms, Rest ms n n' → I n') : I n' := by
  cases step_rule h with
  | exec x hx => exact hexec x rfl hx
  | task k l s t e hb ht => exact htask n k l n' s t e hi (.inl ⟨rfl, rfl⟩) ht
  | join i h' n₁ l hj =>
    obtain ⟨s, t, e, ht⟩ := taskStep_cases hj.join
    have hi₁ : I n₁ := by
      rcases hj.taken with rfl | h1
      · exact hi
      · obtain ⟨s', t', e', ht'⟩ := taskStep_cases h1
        exact htask n h' _ n₁ s' t' e' hi (.inr ⟨_, rfl⟩) ht'
    exact htask n₁ i _ n' s t e hi₁ (.inr ⟨l, rfl⟩) ht
  | send r b hr hs => exact hrest _ hr
  | quiet l hr hw ha => exact hrest _ hr

/-! ## What the parts of a rule change -/

theorem anonymous_eq (n : Node A M) (kind : AnonKind) :
    ∃ p o t, n.anonymous kind = { n with permits := p, overflow := o, tasks := n.tasks ++ [⟨t, []⟩] } := by
  unfold anonymous acquireAnonymousPermit
  cases n.permits <;> exact ⟨_, _, _, rfl⟩

theorem anonymous_tasks (n : Node A M) (kind : AnonKind) : ∃ tracked,
    (n.anonymous kind).tasks = n.tasks ++ [⟨.anon { kind, tracked, halted := false, pc := kind.start }, []⟩] := by
  unfold anonymous acquireAnonymousPermit
  cases n.permits <;> exact ⟨_, rfl⟩

theorem stop_eq (n : Node A M) : ∃ st, n.stop = { n with state := st } ∧ (n.state ≠ .running → st = n.state) := by
  unfold stop
  split
  · rename_i h; exact ⟨_, rfl, fun h' => absurd h h'⟩
  · exact ⟨n.state, rfl, fun _ => rfl⟩

theorem subscribe_eq (n : Node A M) (stopNow : Bool) (w : ℕ) :
    ∃ st, (if stopNow then n.subscribeAndStop w else n.subscribeAndWait w) =
        { n with state := st, awaits := (n.storeSender w).awaits, sender := some w } ∧
      (n.state ≠ .running → st = n.state) := by
  cases stopNow
  · exact ⟨n.state, rfl, fun _ => rfl⟩
  · obtain ⟨st, h1, h2⟩ := stop_eq (n.storeSender w)
    exact ⟨st, h1, h2⟩

theorem dropMail_eq (n : Node A M) (m : Mail A M) :
    ∃ aw ak, n.dropMail m = { n with awaits := aw, asks := ak } := by
  unfold dropMail
  split
  · exact ⟨_, n.asks, rfl⟩
  · exact ⟨n.awaits, _, rfl⟩
  · exact ⟨n.awaits, _, rfl⟩
  · exact ⟨n.awaits, n.asks, rfl⟩

theorem foldl_dropMail_eq (l : List (Mail A M)) (n : Node A M) :
    ∃ aw ak, l.foldl dropMail n = { n with awaits := aw, asks := ak } := by
  induction l generalizing n with
  | nil => exact ⟨n.awaits, n.asks, rfl⟩
  | cons m l ih =>
    obtain ⟨aw, ak, h⟩ := dropMail_eq n m
    obtain ⟨aw', ak', h'⟩ := ih { n with awaits := aw, asks := ak }
    exact ⟨aw', ak', by rw [List.foldl_cons, h, h']⟩

theorem unwind_eq (n : Node A M) (c : Cause) :
    ∃ aw ak, n.unwind c = { n with
      pc := .panicked c, mailbox := n.mailbox.close, dropped := true, sender := none, awaits := aw, asks := ak } := by
  obtain ⟨aw, ak, h⟩ := foldl_dropMail_eq (n.pc.hand.toList ++ n.mailbox.queue) n
  unfold unwind
  rw [h]
  exact ⟨_, ak, rfl⟩

@[simp] theorem unwind_pc (n : Node A M) (c : Cause) : (n.unwind c).pc = .panicked c := rfl

/-! ## Operations of user code -/

/-- What an operation of user code on the context leaves alone. -/
structure Kept (n n' : Node A M) : Prop where
  cfg : n'.cfg = n.cfg
  actor : n'.actor = n.actor
  pc : n'.pc = n.pc
  shutdown : n'.shutdown = n.shutdown
  dropped : n'.dropped = n.dropped
  sender : n'.sender = n.sender
  timeoutCounter : n'.timeoutCounter = n.timeoutCounter
  awaits : n'.awaits = n.awaits
  asks : n'.asks = n.asks
  trace : n'.trace = n.trace
  queue : n'.mailbox.queue = n.mailbox.queue
  taken : n'.mailbox.taken = n.mailbox.taken
  accepted : n'.mailbox.accepted = n.mailbox.accepted
  closed : n.mailbox.closed = true → n'.mailbox.closed = true
  state : n.state ≠ .running → n'.state ≠ .running
  tasks : n'.tasks = n.tasks ∨ ∃ t, n'.tasks = n.tasks ++ [⟨t, []⟩]

theorem anonymous_kept (n : Node A M) (kind : AnonKind) : Kept n (n.anonymous kind) := by
  obtain ⟨p, o, t, h⟩ := anonymous_eq n kind
  rw [h]
  exact ⟨rfl, rfl, rfl, rfl, rfl, rfl, rfl, rfl, rfl, rfl, rfl, rfl, rfl, id, id, .inr ⟨t, rfl⟩⟩

theorem ctxOp_kept {n : Node A M} {o : CtxOp} (ho : n.allows o) : Kept n (n.ctxOp o) := by
  cases o with
  | stop =>
    obtain ⟨st, h, hst⟩ := stop_eq n
    rw [ctxOp, h]
    exact ⟨rfl, rfl, rfl, rfl, rfl, rfl, rfl, rfl, rfl, rfl, rfl, rfl, rfl, id, fun h' => hst h' ▸ h', .inl rfl⟩
  | abort =>
    unfold ctxOp abort
    simp only
    split <;>
      exact ⟨rfl, rfl, rfl, rfl, rfl, rfl, rfl, rfl, rfl, rfl, rfl, rfl, rfl, by simp, by simp_all, .inl rfl⟩
  | spawn id =>
    simp only [ctxOp, if_pos (show n.state = .running from ho)]
    exact ⟨rfl, rfl, rfl, rfl, rfl, rfl, rfl, rfl, rfl, rfl, rfl, rfl, rfl, fun h => h, fun h => h,
      .inr ⟨_, rfl⟩⟩
  | anonymous => exact anonymous_kept n _
  | anonymousTask => exact anonymous_kept n _
  | anonymousHandle => exact anonymous_kept n _

/-- An operation of user code leaves the executor where it is, unless it panics. -/
theorem ctxOp_pc (n : Node A M) (o : CtxOp) : (n.ctxOp o).pc = n.pc ∨ (n.ctxOp o).pc = .panicked .callback := by
  by_cases ho : n.allows o
  · exact .inl (ctxOp_kept ho).pc
  · cases o with
    | spawn id =>
      have hst : n.state ≠ .running := ho
      right
      simp only [ctxOp, if_neg hst]
      rfl
    | _ => exact absurd trivial ho

/-- A callback that uses the context has done so. -/
theorem exec_op {n n' : Node A M} {o : CtxOp} (h : n.exec (.op o) = some n') : n' = n.ctxOp o := by
  cases hpc : n.pc with
  | handle p m =>
    simp only [exec, hpc, deliver] at h
    cases hb : m.body <;> simp_all [callback]
  | _ => simp_all [exec, callback, receive, handleSupervisedMessage, resolve, cancelFuture, stoppingLoop, drainStep]

/-- A panic of user code unwinds the task, whatever it ran in. -/
theorem exec_panic {n n' : Node A M} (h : n.exec .panic = some n') : n' = n.unwind .callback := by
  cases hpc : n.pc with
  | handle p m =>
    simp only [exec, hpc, deliver] at h
    cases hb : m.body <;> simp only [hb, callback, Option.some.injEq, reduceCtorEq] at h <;> exact h.symm
  | _ =>
    simp only [exec, hpc, callback, receive, handleSupervisedMessage, resolve, cancelFuture, stoppingLoop, drainStep,
      Option.some.injEq, reduceCtorEq] at h
    try exact h.symm

/-- So does a supervised loop that has lost its supervisor. -/
theorem exec_died {n n' : Node A M} (h : n.exec .died = some n') : n' = n.unwind .supervisor := by
  cases hpc : n.pc with
  | select =>
    simp only [exec, hpc, handleSupervisedMessage, Option.some.injEq] at h
    exact h.symm
  | handle p m =>
    simp only [exec, hpc, deliver] at h
    cases hb : m.body <;> simp [hb, callback] at h
  | _ => simp [exec, hpc, callback, receive, resolve, cancelFuture, stoppingLoop, drainStep] at h

/-- And the last second of `stopping`. -/
theorem exec_tick {n n' : Node A M} (ht : n.timeoutCounter = 10) (h : n.exec .tick = some n') :
    n' = n.unwind .timeout := by
  cases hpc : n.pc with
  | wait =>
    simp only [exec, hpc, stoppingLoop, if_pos ht, Option.some.injEq] at h
    exact h.symm
  | handle p m =>
    simp only [exec, hpc, deliver] at h
    cases hb : m.body <;> simp [hb, callback] at h
  | _ => simp [exec, hpc, callback, receive, handleSupervisedMessage, resolve, cancelFuture, drainStep] at h

end Node

end Tokactor
