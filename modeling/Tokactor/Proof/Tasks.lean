import Tokactor.Proof.Flow

/-!
# The tasks of an actor

* `exec_tasks`: the executor leaves its tasks alone, or starts one (`Started`).
* `outbox_run`: what the mailbox accepted from task `k` is what task `k` has sent.
* `slots_keep`: an invariant of single tasks holds of all tasks of an actor.
* `doors_run`: once the executor is past `stopping`, no child and no forwarder holds a
  receiver; and unless `abort` is called, the mailbox is not closed before that.
-/

namespace Tokactor

variable {A M : Type}

namespace Node

theorem isClosed_iff (n : Node A M) : n.isClosed = true ↔ ∀ s ∈ n.tasks, s.task.rx = false := by
  simp [isClosed]

/-- A task as the executor starts it in the state `st`; what that does to the available
permits (`p` to `p'`) and the overflow counter (`o` to `o'`). -/
inductive Started (st : ActorState) (p p' o o' : ℕ) : Task A M → Prop
  | child (id : ℕ) (hs : st = .running) (hp : p' = p) (ho : o' = o) :
      Started st p p' o o' (.child { id := id, pc := .running })
  | tracked (kind : AnonKind) (hp : p = p' + 1) (ho : o' = o) :
      Started st p p' o o' (.anon { kind, tracked := true, halted := false, pc := kind.start })
  | untracked (kind : AnonKind) (hp : p = 0) (hp' : p' = 0) (ho : o' = o + 1) :
      Started st p p' o o' (.anon { kind, tracked := false, halted := false, pc := kind.start })

/-- The step from `n` to `n'` starts the task `t`. -/
def Starts (n n' : Node A M) (t : Task A M) : Prop :=
  n'.tasks = n.tasks ++ [⟨t, []⟩] ∧ Started n.state n.permits n'.permits n.overflow n'.overflow t

theorem anonymous_starts (n : Node A M) (kind : AnonKind) : ∃ t, Starts n (n.anonymous kind) t := by
  unfold anonymous acquireAnonymousPermit
  cases hp : n.permits with
  | zero => exact ⟨_, rfl, .untracked kind hp rfl rfl⟩
  | succ k => exact ⟨_, rfl, .tracked kind hp rfl⟩

theorem ctxOp_tasks {n : Node A M} {o : CtxOp} (ho : n.allows o) :
    (n.ctxOp o).tasks = n.tasks ∧ (n.ctxOp o).permits = n.permits ∧ (n.ctxOp o).overflow = n.overflow ∨
      ∃ t, Starts n (n.ctxOp o) t := by
  cases o with
  | stop =>
    obtain ⟨st, h, -⟩ := stop_eq n
    rw [ctxOp, h]
    exact .inl ⟨rfl, rfl, rfl⟩
  | abort => unfold ctxOp abort; simp only; split <;> exact .inl ⟨rfl, rfl, rfl⟩
  | spawn id =>
    have hs : n.state = .running := ho
    simp only [ctxOp, if_pos hs]
    exact .inr ⟨_, rfl, .child id hs rfl rfl⟩
  | anonymous => exact .inr (anonymous_starts n _)
  | anonymousTask => exact .inr (anonymous_starts n _)
  | anonymousHandle => exact .inr (anonymous_starts n _)

/-- A rule of the executor is an operation of user code, or starts a `reply` task, or leaves
the tasks, the permits and the configuration alone; the counter it writes after a wait. -/
theorem exec_split {n n' : Node A M} {x : Act A M} (hx : Exec n x n') :
    (∃ o, x = .op o ∧ n.allows o ∧ n' = n.ctxOp o) ∨
    (∃ p m a k h, x = .task a h ∧ n.pc = .handle p m ∧ m.body.asker = some k ∧
      n' = (({ n with actor := a }).replyTask k h).handled p) ∨
    n'.tasks = n.tasks ∧ n'.permits = n.permits ∧ n'.cfg = n.cfg ∧
      (n'.overflow = n.overflow ∨ ∃ hand k, n.pc = .acquire hand k n'.overflow) := by
  cases hx with
  | op o ho' hu ho => exact .inl ⟨o, ho', ho, rfl⟩
  | task p m a k h hx hpc hb => exact .inr (.inl ⟨p, m, a, k, h, hx, hpc, hb, rfl⟩)
  | unwind c hc =>
    obtain ⟨aw, ak, h⟩ := unwind_eq n c
    rw [h]
    exact .inr (.inr ⟨rfl, rfl, rfl, .inl rfl⟩)
  | check hand hpc => unfold checkStep; split <;> cases hand <;> exact .inr (.inr ⟨rfl, rfl, rfl, .inl rfl⟩)
  | acquired hand k rest hpc hk => cases hand <;> exact .inr (.inr ⟨rfl, rfl, rfl, .inr ⟨_, k, hpc⟩⟩)
  | await p m stopNow w hpc hb =>
    obtain ⟨st, h, -⟩ := subscribe_eq n stopNow w
    rw [h]
    exact .inr (.inr ⟨rfl, rfl, rfl, .inl rfl⟩)
  | cancelClosed p m hpc hc =>
    obtain ⟨aw, ak, h⟩ := dropMail_eq n m
    rw [h]
    exact .inr (.inr ⟨rfl, rfl, rfl, .inl rfl⟩)
  | cancelSent p m c hpc hc =>
    obtain ⟨aw, ak, h⟩ := dropMail_eq { n with mailbox := c } m
    rw [h]
    exact .inr (.inr ⟨rfl, rfl, rfl, .inl rfl⟩)
  | postRun p a hpc =>
    cases p with
    | main => simp only [processed]; split <;> exact .inr (.inr ⟨rfl, rfl, rfl, .inl rfl⟩)
    | stopping | stopped => exact .inr (.inr ⟨rfl, rfl, rfl, .inl rfl⟩)
  | finish hpc => unfold finish; (repeat' split) <;> exact .inr (.inr ⟨rfl, rfl, rfl, .inl rfl⟩)
  | _ => exact .inr (.inr ⟨rfl, rfl, rfl, .inl rfl⟩)

/-- What the executor does to its tasks and permits. -/
theorem exec_tasks {n n' : Node A M} {x : Act A M} (hx : Exec n x n') :
    n'.tasks = n.tasks ∧ n'.permits = n.permits ∨
      ∃ t, Starts n n' t := by
  rcases exec_split hx with ⟨o, -, ho, rfl⟩ | ⟨p, m, a, k, h, -, -, -, rfl⟩ | ⟨h1, h2, -⟩
  · rcases ctxOp_tasks ho with ⟨h1, h2, -⟩ | h
    · exact .inl ⟨h1, h2⟩
    · exact .inr h
  · exact .inr (anonymous_starts { n with actor := a } (.reply k h))
  · exact .inl ⟨h1, h2⟩

theorem exec_cfg {n n' : Node A M} {x : Act A M} (hx : Exec n x n') : n'.cfg = n.cfg := by
  rcases exec_split hx with ⟨o, -, ho, rfl⟩ | ⟨p, m, a, k, h, -, -, -, rfl⟩ | ⟨-, -, h, -⟩
  · exact (ctxOp_kept ho).cfg
  · exact (anonymous_kept { n with actor := a } (.reply k h)).cfg
  · exact h

theorem cfg_run {cfg : Config} {a : A} {ls : List (Label A M)} {n : Node A M}
    (hr : Lts.run Node.step (Node.init cfg a) ls = some n) : n.cfg = cfg := by
  refine Lts.run_inv (I := fun n => n.cfg = cfg) ?_ rfl hr
  intro n l n' hi h
  rcases step_outside h with ⟨x, -, hx⟩ | ⟨ms, ho⟩
  · rw [exec_cfg hx, hi]
  · rw [ho.cfg, hi]

/-- What the executor does to the mailbox: it takes a message, puts its own notice of a
cancelled future there, or closes it by a call of `abort`, by a panic, or at the end of
`stopping`. -/
theorem exec_mailbox {n n' : Node A M} {x : Act A M} (hx : Exec n x n') :
    n'.mailbox = n.mailbox ∨
    (∃ m c pc, n.mailbox.pop = some (m, c) ∧ n.pc.took m = some pc ∧ n' = { n with mailbox := c, pc := pc }) ∨
    (∃ p m, n.pc = .cancelling p m ∧ n.mailbox.push ⟨none, .cancelled .cancel⟩ = some n'.mailbox) ∨
    n'.mailbox = n.mailbox.close ∧ (x = .op .abort ∧ n.state ≠ .stopped ∧ n' = n.abort ∨
      (∃ c, n.panics x c ∧ n' = n.unwind c) ∨ n.isClosed = true ∧ n' = n.stoppingDone) := by
  cases hx with
  | op o ho' hu ho =>
    cases o with
    | abort =>
      -- a second `abort` does nothing
      by_cases hs : n.state = .stopped
      · left
        rw [ctxOp, abort, hs]
      · refine .inr (.inr (.inr ⟨?_, .inl ⟨ho', hs, rfl⟩⟩))
        rw [ctxOp, abort]
        split
        · rfl
        · rfl
        · rename_i h
          exact absurd h hs
    | stop =>
      obtain ⟨st, h, -⟩ := stop_eq n
      exact .inl (by rw [ctxOp, h])
    | spawn id => exact .inl (by rw [ctxOp, if_pos (show n.state = .running from ho)])
    | anonymous | anonymousTask | anonymousHandle =>
      obtain ⟨p, o, t, h⟩ := anonymous_eq n _
      exact .inl (by rw [ctxOp, h])
  | unwind c hc =>
    obtain ⟨aw, ak, h⟩ := unwind_eq n c
    exact .inr (.inr (.inr ⟨by rw [h], .inr (.inl ⟨c, hc, rfl⟩)⟩))
  | took m c pc hp hpc => exact .inr (.inl ⟨m, c, pc, hp, hpc, rfl⟩)
  | task p m a k h hx hpc hb =>
    obtain ⟨q, o, t, h'⟩ := anonymous_eq { n with actor := a } (.reply k h)
    exact .inl (by rw [replyTask, h']; rfl)
  | check hand hpc => left; unfold checkStep; split <;> cases hand <;> rfl
  | acquired hand k rest hpc hk => left; cases hand <;> rfl
  | await p m stopNow w hpc hb =>
    obtain ⟨st, h, -⟩ := subscribe_eq n stopNow w
    exact .inl (by rw [h]; rfl)
  | cancelClosed p m hpc hc =>
    obtain ⟨aw, ak, h⟩ := dropMail_eq n m
    exact .inl (by rw [h]; rfl)
  | cancelSent p m c hpc hc =>
    obtain ⟨aw, ak, h⟩ := dropMail_eq { n with mailbox := c } m
    exact .inr (.inr (.inl ⟨p, m, hpc, by rw [h]; exact hc⟩))
  | postRun p a hpc =>
    left
    cases p with
    | main => simp only [processed]; split <;> rfl
    | stopping | stopped => rfl
  | stoppingDone hgo hpc hc => exact .inr (.inr (.inr ⟨rfl, .inr (.inr ⟨hc, rfl⟩)⟩))
  | finish hpc => left; unfold finish; (repeat' split) <;> rfl
  | _ => exact .inl rfl

/-- It accepts nothing but that notice. -/
theorem exec_accepted {n n' : Node A M} {x : Act A M} (hx : Exec n x n') :
    ∃ ms, n'.mailbox.accepted = n.mailbox.accepted ++ ms ∧ ∀ m ∈ ms, m = ⟨none, .cancelled .cancel⟩ := by
  rcases exec_mailbox hx with h | ⟨m, c, pc, hp, -, rfl⟩ | ⟨p, m, -, hc⟩ | ⟨h, -⟩
  · exact ⟨[], by rw [h, List.append_nil], by simp⟩
  · exact ⟨[], (Chan.pop_cases hp).2.2.2.1.trans (List.append_nil _).symm, by simp⟩
  · exact ⟨[⟨none, .cancelled .cancel⟩], (Chan.Grown.of_push hc).accepted, by simp⟩
  · exact ⟨[], by rw [h, Chan.close_accepted, List.append_nil], by simp⟩

/-- What was taken from the mailbox stays taken. -/
theorem exec_taken {n n' : Node A M} {x : Act A M} (hx : Exec n x n') :
    n'.mailbox.taken = n.mailbox.taken ∨ ∃ m, n'.mailbox.taken = n.mailbox.taken ++ [m] := by
  rcases exec_mailbox hx with h | ⟨m, c, pc, hp, -, rfl⟩ | ⟨p, m, -, hc⟩ | ⟨h, -⟩
  · exact .inl (by rw [h])
  · exact .inr ⟨m, (Chan.pop_cases hp).2.2.2.2⟩
  · exact .inl (Chan.Grown.of_push hc).taken
  · exact .inl (by rw [h, Chan.close_taken])

/-- What closes the mailbox. -/
theorem exec_shuts {n n' : Node A M} {x : Act A M} (hx : Exec n x n') (hc : n'.mailbox.closed = true) :
    n.mailbox.closed = true ∨ x = .op .abort ∧ n.state ≠ .stopped ∧ n' = n.abort ∨
      (∃ c, n.panics x c ∧ n' = n.unwind c) ∨ n.isClosed = true ∧ n' = n.stoppingDone := by
  rcases exec_mailbox hx with h | ⟨m, c, pc, hp, -, rfl⟩ | ⟨p, m, -, hpush⟩ | ⟨-, h⟩
  · exact .inl (h ▸ hc)
  · exact .inl ((Chan.pop_cases hp).2.2.1 ▸ hc)
  · exact .inl ((Chan.Grown.of_push hpush).closed ▸ hc)
  · exact .inr h

/-- The mailbox forgets nothing that it has accepted. -/
theorem step_accepted {n n' : Node A M} {l : Label A M} (h : n.step l = some n') {m : Mail A M}
    (hm : m ∈ n.mailbox.accepted) : m ∈ n'.mailbox.accepted := by
  rcases step_outside h with ⟨x, -, hx⟩ | ⟨ms, ho⟩
  · obtain ⟨ms, hac, -⟩ := exec_accepted hx
    rw [hac]
    exact List.mem_append_left _ hm
  · rw [ho.mailbox.accepted]
    exact List.mem_append_left _ hm

end Node

/-! ## What each task has sent -/

/-- The bodies of the messages of `l` that came from task `k`. -/
def sentBy (k : ℕ) (l : List (Mail A M)) : List (Body A M) :=
  l.filterMap fun m => if m.src = some k then some m.body else none

@[simp] theorem sentBy_append (k : ℕ) (l l' : List (Mail A M)) :
    sentBy k (l ++ l') = sentBy k l ++ sentBy k l' :=
  List.filterMap_append

theorem sentBy_none {k : ℕ} {l : List (Mail A M)} (h : ∀ m ∈ l, m.src = none) : sentBy k l = [] := by
  unfold sentBy
  rw [List.filterMap_eq_nil_iff]
  intro m hm
  rw [h m hm]
  simp

theorem sentBy_task (k j : ℕ) (bs : List (Body A M)) :
    sentBy k (bs.map (⟨some j, ·⟩)) = if j = k then bs else [] := by
  induction bs with
  | nil => simp [sentBy]
  | cons b bs ih =>
    unfold sentBy at ih ⊢
    rw [List.map_cons, List.filterMap_cons, ih]
    split <;> simp_all

/-- What task `k` has sent. -/
def Node.outOf (n : Node A M) (k : ℕ) : List (Body A M) := (n.tasks[k]?.map Slot.out).getD []

/-- The mailbox has accepted from each task what that task sent. -/
def Outbox (n : Node A M) : Prop := ∀ k, sentBy k n.mailbox.accepted = n.outOf k

theorem outOf_append {n n' : Node A M} {t : Task A M} (h : n'.tasks = n.tasks ++ [⟨t, []⟩]) (k : ℕ) :
    n'.outOf k = n.outOf k := by
  unfold Node.outOf
  rw [h]
  rcases Nat.lt_or_ge k n.tasks.length with hk | hk
  · rw [List.getElem?_append_left hk]
  · rw [List.getElem?_append_right hk, List.getElem?_eq_none hk]
    cases k - n.tasks.length <;> rfl

theorem outbox_step {n n' : Node A M} {l : Label A M} (ho : Outbox n) (h : n.step l = some n') :
    Outbox n' := by
  refine Node.step_keeps (I := Outbox) ho h ?_ ?_ ?_
  · intro x _ hx k
    obtain ⟨ms, h1, h2⟩ := Node.exec_accepted hx
    have hnone : sentBy k ms = [] := sentBy_none fun m hm => by rw [h2 m hm]
    rw [h1, sentBy_append, hnone, List.append_nil, ho k]
    rcases Node.exec_tasks hx with ⟨ht, -⟩ | ⟨t, ht, -⟩
    · unfold Node.outOf; rw [ht]
    · exact (outOf_append ht k).symm
  · intro n j l n' s t e ho _ hk k
    rw [hk.outside.mailbox.accepted, sentBy_append, sentBy_task, ho k]
    have hlt : j < n.tasks.length := (List.getElem?_eq_some_iff.1 hk.slot).1
    unfold Node.outOf
    rw [hk.tasks, List.getElem?_set]
    by_cases hjk : j = k
    · subst hjk
      rw [if_pos rfl, if_pos hlt, hk.slot, if_pos rfl]
      rfl
    · simp [hjk]
  · intro ms hr k
    rw [hr.outside.mailbox.accepted, sentBy_append, sentBy_none hr.src, List.append_nil, ho k]
    unfold Node.outOf
    rw [hr.tasks]

theorem outbox_init (cfg : Config) (a : A) : Outbox (Node.init cfg a : Node A M) := by
  intro k
  show [] = _
  unfold Node.outOf Node.init
  rw [List.getElem?_map]
  cases cfg.forwarders[k]? <;> rfl

theorem outbox_run {cfg : Config} {a : A} {ls : List (Label A M)} {n : Node A M}
    (hr : Lts.run Node.step (Node.init cfg a) ls = some n) : Outbox n :=
  Lts.run_inv (fun _ _ _ ho h => outbox_step ho h) (outbox_init cfg a) hr

/-! ## Invariants of single tasks -/

/-- A task as it starts. -/
def Task.Fresh : Task A M → Prop
  | .child c => c.pc = .running
  | .anon a => a.halted = false ∧ a.pc = a.kind.start
  | .fwd _ => False

theorem Node.Started.fresh {st : ActorState} {p p' o o' : ℕ} {t : Task A M}
    (h : Node.Started st p p' o o' t) : t.Fresh := by
  cases h <;> simp [Task.Fresh]

/-- What holds of every task, and of the task that moved, holds of every task after it. -/
theorem Node.Tasked.slots {P : Slot A M → Prop} {n n' : Node A M} {k : ℕ} {l : TaskLabel A M}
    {s : Slot A M} {t : Task A M} {e : Eff A M} (h : Node.Tasked n k l n' s t e)
    (hP : ∀ s ∈ n.tasks, P s) (hnew : P ⟨t, s.out ++ e.push.toList⟩) : ∀ s ∈ n'.tasks, P s := by
  intro s' hs'
  rw [h.tasks] at hs'
  rcases List.mem_or_eq_of_mem_set hs' with hs' | rfl
  · exact hP s' hs'
  · exact hnew

/-- **Invariant rule for tasks.** What holds of a fresh task and is kept by its steps
holds of every task of an actor. -/
theorem slots_keep {P : Slot A M → Prop} (hnew : ∀ t, t.Fresh → P ⟨t, []⟩)
    (hstep : ∀ s v l t e, P s → s.task.Moves v l t e → P ⟨t, s.out ++ e.push.toList⟩)
    {n n' : Node A M} {l : Label A M} (hP : ∀ s ∈ n.tasks, P s) (h : n.step l = some n') :
    ∀ s ∈ n'.tasks, P s := by
  refine Node.step_keeps (I := fun n => ∀ s ∈ n.tasks, P s) hP h ?_ ?_ ?_
  · intro x _ hx s hs
    rcases Node.exec_tasks hx with ⟨ht, -⟩ | ⟨t, ht, hst⟩
    · exact hP s (ht ▸ hs)
    · rw [ht, List.mem_append, List.mem_singleton] at hs
      rcases hs with hs | rfl
      · exact hP s hs
      · exact hnew t hst.fresh
  · intro n k l n' s0 t e hP _ hk
    exact hk.slots hP (hstep _ _ _ _ _ (hP s0 (List.mem_of_getElem? hk.slot)) hk.moves)
  · intro ms hr s hs
    exact hP s (hr.tasks ▸ hs)

/-- What the move of a task leaves in slot `k`. -/
theorem Node.Tasked.slot_at {n n' : Node A M} {i k : ℕ} {tl : TaskLabel A M} {s s₁ : Slot A M} {t : Task A M} {e : Eff A M}
    (ht : Node.Tasked n i tl n' s₁ t e) (hs : n.tasks[k]? = some s) :
    k = i ∧ s = s₁ ∧ n'.tasks[k]? = some ⟨t, s₁.out ++ e.push.toList⟩ ∨ k ≠ i ∧ n'.tasks[k]? = some s := by
  rw [ht.tasks, List.getElem?_set]
  by_cases hik : i = k
  · subst hik
    have hlt : i < n.tasks.length := (List.getElem?_eq_some_iff.1 hs).1
    have hslot := ht.slot
    rw [hs] at hslot
    cases hslot
    rw [if_pos rfl, if_pos hlt]
    exact .inl ⟨rfl, rfl, rfl⟩
  · rw [if_neg hik]
    exact .inr ⟨fun h => hik h.symm, hs⟩

/-- What one step does to the task in slot `k`: it stays as it is, or makes one move of its
own. -/
theorem slot_step {n n' : Node A M} {l : Label A M} (h : n.step l = some n') {k : ℕ} {s : Slot A M}
    (hs : n.tasks[k]? = some s) : ∃ s', n'.tasks[k]? = some s' ∧ (s' = s ∨ ∃ v tl e, s.task.Moves v tl s'.task e ∧
      (l = .task k tl ∨ tl ≠ .anon .halt ∧ ∃ i j, l = .join i j)) := by
  cases Node.step_rule h with
  | exec x hx =>
    rcases Node.exec_tasks hx with ⟨ht, -⟩ | ⟨t, ht, -⟩
    · exact ⟨s, ht ▸ hs, .inl rfl⟩
    · have hlt : k < n.tasks.length := (List.getElem?_eq_some_iff.1 hs).1
      exact ⟨s, by rw [ht, List.getElem?_append_left hlt]; exact hs, .inl rfl⟩
  | task i tl s₁ t e hb ht =>
    rcases ht.slot_at hs with ⟨rfl, rfl, h'⟩ | ⟨-, h'⟩
    · exact ⟨_, h', .inr ⟨_, tl, e, ht.moves, .inl rfl⟩⟩
    · exact ⟨s, h', .inl rfl⟩
  | join i j n₁ al hj =>
    obtain ⟨s₂, t₂, e₂, ht₂⟩ := Node.taskStep_cases hj.join
    have hlabel : (.anon al : TaskLabel A M) ≠ .anon .halt := by
      rcases hj.label with ⟨rfl, -⟩ | ⟨v, rfl⟩ <;> simp
    rcases hj.taken with rfl | h1
    · rcases ht₂.slot_at hs with ⟨rfl, rfl, h'⟩ | ⟨-, h'⟩
      · exact ⟨_, h', .inr ⟨_, _, e₂, ht₂.moves, .inr ⟨hlabel, _, _, rfl⟩⟩⟩
      · exact ⟨s, h', .inl rfl⟩
    obtain ⟨s₁, t₁, e₁, ht₁⟩ := Node.taskStep_cases h1
    rcases ht₁.slot_at hs with ⟨rfl, rfl, h'⟩ | ⟨-, h'⟩
    · rcases ht₂.slot_at h' with ⟨rfl, rfl, -⟩ | ⟨-, h''⟩
      · -- a handle whose output was taken does nothing more
        obtain ⟨a, a', -, rfl, hm₁⟩ := ht₁.moves.of_anon
        obtain ⟨b, b', hb, -, hm₂⟩ := ht₂.moves.of_anon
        cases hb
        cases hm₁ with
        | take out hk hpc =>
          rcases hj.label with ⟨rfl, -⟩ | ⟨v, rfl⟩ <;> cases hm₂ <;> simp_all
      · exact ⟨_, h'', .inr ⟨_, _, e₁, ht₁.moves, .inr ⟨by simp, _, _, rfl⟩⟩⟩
    · rcases ht₂.slot_at h' with ⟨rfl, rfl, h''⟩ | ⟨-, h''⟩
      · exact ⟨_, h'', .inr ⟨_, _, e₂, ht₂.moves, .inr ⟨hlabel, _, _, rfl⟩⟩⟩
      · exact ⟨s, h'', .inl rfl⟩
  | send r b hr _ => exact ⟨s, by rw [hr.tasks]; exact hs, .inl rfl⟩
  | quiet l hr _ _ => exact ⟨s, by rw [hr.tasks]; exact hs, .inl rfl⟩

/-- Where the task in slot `k` comes from: it was there before the step, or it is fresh. -/
theorem slot_origin {n n' : Node A M} {l : Label A M} (h : n.step l = some n') {k : ℕ} {s' : Slot A M}
    (hs' : n'.tasks[k]? = some s') : (∃ s, n.tasks[k]? = some s ∧ (s' = s ∨ ∃ v tl e, s.task.Moves v tl s'.task e ∧
      (l = .task k tl ∨ tl ≠ .anon .halt ∧ ∃ i j, l = .join i j))) ∨ s'.task.Fresh := by
  cases hk : n.tasks[k]? with
  | some s =>
    obtain ⟨s'', hs'', hm⟩ := slot_step h hk
    rw [hs'] at hs''
    cases hs''
    exact .inl ⟨s, rfl, hm⟩
  | none =>
    right
    -- a slot that is new
    have hge : n.tasks.length ≤ k := List.getElem?_eq_none_iff.1 hk
    have hlt : k < n'.tasks.length := (List.getElem?_eq_some_iff.1 hs').1
    -- the tasks that are there start no others
    have length_eq : ∀ {n₁ n₂ : Node A M} {i : ℕ} {tl : TaskLabel A M}, n₁.taskStep i tl = some n₂ →
        n₂.tasks.length = n₁.tasks.length := by
      intro n₁ n₂ i tl ht
      obtain ⟨s, t, e, ht⟩ := Node.taskStep_cases ht
      rw [ht.tasks, List.length_set]
    cases Node.step_rule h with
    | exec x hx =>
      rcases Node.exec_tasks hx with ⟨ht, -⟩ | ⟨t, ht, hst⟩
      · rw [ht] at hlt
        omega
      · rw [ht, List.length_append, List.length_singleton] at hlt
        have hlast : k = n.tasks.length := by omega
        rw [ht, hlast, List.getElem?_concat_length] at hs'
        cases hs'
        exact hst.fresh
    | task i tl s₁ t e hb ht =>
      rw [ht.tasks, List.length_set] at hlt
      omega
    | join i j n₁ al hj =>
      rw [length_eq hj.join] at hlt
      rcases hj.taken with rfl | h1
      · omega
      · rw [length_eq h1] at hlt
        omega
    | send r b hr _ =>
      rw [hr.tasks] at hlt
      omega
    | quiet l hr _ _ =>
      rw [hr.tasks] at hlt
      omega

/-- The forwarders of a fresh node. -/
theorem mem_init_tasks {cfg : Config} {a : A} {s : Slot A M} (hs : s ∈ (Node.init cfg a : Node A M).tasks) :
    ∃ kind, s = ⟨.fwd { kind := kind, chan := Chan.new cfg.mailboxSize, pc := .select }, []⟩ := by
  simp only [Node.init, List.mem_map] at hs
  obtain ⟨kind, -, rfl⟩ := hs
  exact ⟨kind, rfl⟩

/-! ## Receivers and the mailbox -/

/-- The executor is past `stopping`. -/
def Node.Late (n : Node A M) : Prop := n.pc.stage = .stopped ∨ n.pc.stage = .ended

/-- The executor's place decides whether it is past `stopping`. -/
theorem late_congr {n n' : Node A M} (hpc : n'.pc = n.pc) (h : n'.Late) : n.Late := by
  unfold Node.Late at *
  rwa [hpc] at h

/-- Children and forwarders, which only a running context can start. -/
def Task.kin : Task A M → Bool
  | .anon _ => false
  | _ => true

/-- The executor gets past `stopping` only when it sees no receiver. -/
theorem exec_late {n n' : Node A M} {x : Act A M} (hx : Node.Exec n x n') (hl : n'.Late) :
    n.Late ∨ n.pc.closes = true ∧ n.isClosed = true ∧ n'.tasks = n.tasks := by
  rcases Node.exec_flow hx with ⟨c, -, rfl⟩ | hf
  · rcases hl with hl | hl <;> rw [unwind_stage] at hl <;> cases hl
  rcases hf.stage with h | ⟨-, h⟩ | ⟨hpc, h⟩ | ⟨hpc, -⟩
  · unfold Node.Late at *
    rw [← h]
    exact .inl hl
  · rcases hl with hl | hl <;> rw [h] at hl <;> cases hl
  · obtain ⟨hc, rfl⟩ := exec_closing hx hpc h
    exact .inr ⟨hpc, hc, rfl⟩
  · exact .inl (.inl (by rw [hpc]; rfl))

/-- A child or forwarder without a receiver gets none back. -/
theorem kin_step {s t : Task A M} {v : View} {l : TaskLabel A M} {e : Eff A M}
    (h : s.Moves v l t e) : t.kin = s.kin ∧ (s.kin = true → s.rx = false → t.rx = false) := by
  cases h with
  | child h =>
    refine ⟨rfl, fun _ hrx => ?_⟩
    simp only [Task.rx, Child.rx] at hrx ⊢
    cases h <;> simp_all
  | anon h => exact ⟨rfl, fun hk => by cases hk⟩
  | fwd h =>
    refine ⟨rfl, fun _ hrx => ?_⟩
    simp only [Task.rx, Fwd.rx] at hrx ⊢
    cases h <;> simp_all

/-- Past `stopping` no child and no forwarder holds a receiver. -/
def KinGone (n : Node A M) : Prop := n.Late → ∀ s ∈ n.tasks, s.task.kin = true → s.task.rx = false

theorem kinGone_step {n n' : Node A M} {l : Label A M} (hlife : LifeOK n) (hk : KinGone n)
    (h : n.step l = some n') : KinGone n' := by
  refine Node.step_keeps (I := KinGone) hk h ?_ ?_ ?_
  · intro x _ hx hl s hs hkin
    rcases exec_late hx hl with hl' | ⟨-, hc, ht⟩
    · rcases Node.exec_tasks hx with ⟨ht, -⟩ | ⟨t, ht, hst⟩
      · exact hk hl' s (ht ▸ hs) hkin
      rw [ht, List.mem_append, List.mem_singleton] at hs
      rcases hs with hs | rfl
      · exact hk hl' s hs hkin
      -- a child is started in a running context only, and that is before `stopping`
      cases hst with
      | child id hs =>
        rcases hlife with hf | ⟨h, hlife⟩
        · rcases hl' with hl' | hl' <;> rw [hf] at hl' <;> cases hl'
        · refine absurd hs (hlife.state ?_)
          rcases hl' with hl' | hl' <;> rw [hl'] <;> decide
      | tracked | untracked => cases hkin
    · rw [ht] at hs
      have := List.all_eq_true.1 hc s hs
      simpa using this
  · intro n k l n' s0 t e hk _ ht hl s hs' hkin
    have hl' : n.Late := by unfold Node.Late at *; rw [ht.outside.pc] at hl; exact hl
    rw [ht.tasks] at hs'
    rcases List.mem_or_eq_of_mem_set hs' with hs' | rfl
    · exact hk hl' s hs' hkin
    · obtain ⟨h1, h2⟩ := kin_step ht.moves
      have hk0 : s0.task.kin = true := h1 ▸ hkin
      exact h2 hk0 (hk hl' s0 (List.mem_of_getElem? ht.slot) hk0)
  · intro ms hr hl s hs hkin
    refine hk ?_ s (hr.tasks ▸ hs) hkin
    unfold Node.Late at *
    rw [hr.outside.pc] at hl
    exact hl

/-- The mailbox is closed only past `stopping`. -/
def ClosedLate (n : Node A M) : Prop := n.mailbox.closed = true → 2 ≤ n.pc.stage.rank

/-- The step is one of the executor. -/
def Label.isExec : Label A M → Bool
  | .exec _ => true
  | _ => false

/-- The step is a call of `abort`. -/
def Label.isAbort : Label A M → Bool
  | .exec (.op .abort) => true
  | _ => false

/-- The step is not a call of `abort`. -/
def NoAbort (_ : Node A M) (l : Label A M) : Prop := l.isAbort = false

instance (n : Node A M) (l : Label A M) : Decidable (NoAbort n l) := inferInstanceAs (Decidable (_ = _))

theorem exec_closed {n n' : Node A M} {x : Act A M} (hx : Node.Exec n x n') (hab : x ≠ .op .abort)
    (hc : n'.mailbox.closed = true) : n.mailbox.closed = true ∨ 2 ≤ n'.pc.stage.rank := by
  rcases Node.exec_shuts hx hc with hc | ⟨h, -, -⟩ | ⟨c, -, rfl⟩ | ⟨-, rfl⟩
  · exact .inl hc
  · exact absurd h hab
  · exact .inr (Nat.le_add_left 2 2)
  · exact .inr (Nat.le_refl 2)

theorem closedLate_step {n n' : Node A M} {l : Label A M} (hk : ClosedLate n) (hab : NoAbort n l)
    (h : n.step l = some n') : ClosedLate n' := by
  rcases Node.step_outside h with ⟨x, rfl, hx⟩ | ⟨ms, ho⟩
  · intro hc
    rcases exec_closed hx (by rintro rfl; cases hab) hc with hc' | h2
    · exact Nat.le_trans (hk hc') (exec_rank hx)
    · exact h2
  · intro hc
    rw [ho.pc]
    exact hk (ho.mailbox.closed ▸ hc)

/-- The notifier is dropped only when the life is over. -/
def DroppedLate (n : Node A M) : Prop := n.dropped = true → 3 ≤ n.pc.stage.rank

theorem exec_dropped {n n' : Node A M} {x : Act A M} (hx : Node.Exec n x n') (hd : n'.dropped = true) :
    n.dropped = true ∨ 3 ≤ n'.pc.stage.rank := by
  cases hx with
  | op o ho' hu ho => exact .inl ((Node.ctxOp_kept ho).dropped ▸ hd)
  | unwind c h =>
    obtain ⟨aw, ak, h⟩ := Node.unwind_eq n c
    rw [h]
    exact .inr (Nat.le_succ 3)
  | check hand hpc => unfold Node.checkStep at hd; split at hd <;> cases hand <;> exact .inl hd
  | acquired hand k rest hpc hk => cases hand <;> exact .inl hd
  | task p m a k h hx hpc hb =>
    exact .inl ((Node.anonymous_kept { n with actor := a } (.reply k h)).dropped ▸ hd)
  | await p m stopNow w hpc hb =>
    obtain ⟨st, h, -⟩ := Node.subscribe_eq n stopNow w
    rw [h] at hd
    exact .inl hd
  | cancelClosed p m hpc hc' =>
    obtain ⟨aw, ak, h⟩ := Node.dropMail_eq n m
    rw [h] at hd
    exact .inl hd
  | cancelSent p m c hpc hc' =>
    obtain ⟨aw, ak, h⟩ := Node.dropMail_eq { n with mailbox := c } m
    rw [h] at hd
    exact .inl hd
  | postRun p a hpc =>
    left
    cases p with
    | main => simp only [Node.processed] at hd; split at hd <;> exact hd
    | stopping | stopped => exact hd
  | finish hpc =>
    right
    unfold Node.finish
    (repeat' split) <;> exact Nat.le_refl 3
  | _ => exact .inl hd

theorem droppedLate_step {n n' : Node A M} {l : Label A M} (hk : DroppedLate n) (h : n.step l = some n') :
    DroppedLate n' := by
  refine Node.step_keeps (I := DroppedLate) hk h ?_ ?_ ?_
  · intro x _ hx hd
    rcases exec_dropped hx hd with hd | h3
    · exact Nat.le_trans (hk hd) (exec_rank hx)
    · exact h3
  · intro n₁ k tl n₂ s t e hk _ ht hd
    rw [ht.outside.pc]
    exact hk (ht.dropped ▸ hd)
  · intro ms hr hd
    rw [hr.outside.pc]
    rcases hr.dropped with h | h
    · exact hk (h ▸ hd)
    · rw [h]
      exact Nat.le_refl 3

/-- What holds of the receivers, the mailbox and the notifier in a run without `abort`. -/
structure Doors (n : Node A M) : Prop where
  life : LifeOK n
  kin : KinGone n
  closed : ClosedLate n
  dropped : DroppedLate n

theorem doors_init (cfg : Config) (a : A) : Doors (Node.init cfg a : Node A M) where
  life := .inr ⟨_, life_init cfg a⟩
  kin h := by rcases h with h | h <;> cases h
  closed h := by cases h
  dropped h := by cases h

theorem doors_step {n n' : Node A M} {l : Label A M} (hd : Doors n) (hab : NoAbort n l)
    (h : n.step l = some n') : Doors n' :=
  ⟨lifeOK_step hd.life h, kinGone_step hd.life hd.kin h, closedLate_step hd.closed hab h,
    droppedLate_step hd.dropped h⟩

theorem doors_run {cfg : Config} {a : A} {ls : List (Label A M)} {n : Node A M}
    (hab : Lts.Along Node.step NoAbort (Node.init cfg a) ls)
    (hr : Lts.run Node.step (Node.init cfg a) ls = some n) : Doors n :=
  Lts.run_along (fun _ _ _ hd hab h => doors_step hd hab h) (doors_init cfg a) hab hr

theorem late_of_rank {n : Node A M} (hf : n.pc.stage ≠ .failed) (hr : 2 ≤ n.pc.stage.rank) : n.Late := by
  unfold Node.Late
  cases hst : n.pc.stage <;> simp_all [Stage.rank]

theorem LifeOK.late_closed {n : Node A M} (hl : LifeOK n) (h : n.Late) : n.mailbox.closed = true := by
  rcases hl with hf | ⟨_, hl⟩
  · rcases h with h | h <;> rw [hf] at h <;> cases h
  · exact hl.closed h

/-- Without `abort`, only the end of `stopping` closes the mailbox. -/
theorem exec_closes {n n' : Node A M} {x : Act A M} (hl : LifeOK n) (hx : Node.Exec n x n')
    (hab : x ≠ .op .abort) (hf : n'.pc.stage ≠ .failed) (ho : n.mailbox.closed = false)
    (hc : n'.mailbox.closed = true) : n.pc.closes = true ∧ n.isClosed = true ∧ n'.tasks = n.tasks := by
  rcases exec_closed hx hab hc with hc' | hr
  · rw [ho] at hc'; cases hc'
  rcases exec_late hx (late_of_rank hf hr) with hl' | h
  · rw [hl.late_closed hl'] at ho; cases ho
  · exact h

section

variable {n : Node A M} {s : Slot A M}

/-- While a child or forwarder holds a receiver, the executor is not past `stopping`. -/
theorem Doors.not_late (hd : Doors n) (hs : s ∈ n.tasks) (hk : s.task.kin = true) (hrx : s.task.rx = true) :
    ¬ n.Late := by
  intro hl
  rw [hd.kin hl s hs hk] at hrx
  cases hrx

/-- **While a child or forwarder holds a receiver, the mailbox is open**, unless the
executor has panicked. -/
theorem Doors.mailbox_open (hd : Doors n) (hf : n.pc.stage ≠ .failed) (hs : s ∈ n.tasks)
    (hk : s.task.kin = true) (hrx : s.task.rx = true) : n.mailbox.closed = false := by
  by_contra hc
  exact hd.not_late hs hk hrx (late_of_rank hf (hd.closed (by simpa using hc)))

/-- It has its notifier then. -/
theorem Doors.notifier_alive (hd : Doors n) (hf : n.pc.stage ≠ .failed) (hs : s ∈ n.tasks)
    (hk : s.task.kin = true) (hrx : s.task.rx = true) : n.dropped = false := by
  by_contra hc
  have h3 : 3 ≤ n.pc.stage.rank := hd.dropped (by simpa using hc)
  exact hd.not_late hs hk hrx (late_of_rank hf (by omega))

end

end Tokactor
