import Tokactor.Proof.Anonymous

/-!
# The limit on anonymous actors

`check_anonymous_actors` waits until a number of permits is available. Tasks started
beyond the limit hold none, and a task keeps its permit until its wrapper has sent its
notice; two things follow from that.

* `anonymous_bound`: at most `max_anonymous_actors` futures are alive when the main loop
  handles a message, as long as every pause is for enough permits to make up for the
  futures alive without one (`Node.pausesEnough`).
* `anonymous_no_deadlock`: no pause is for ever, as long as the mailbox has room for the
  notices that can come before the last permit it waits for (`Node.roomy`).
-/

namespace Tokactor

variable {A M : Type}

/-! ## The bound -/

/-- A halt of this task leaves its future alive and gives its permit back. -/
def Anon.detaches (a : Anon A M) : Bool :=
  a.permit && match a.pc with
    | .fresh | .running => true
    | _ => false

def Task.detaches : Task A M → Bool
  | .anon a => a.detaches
  | _ => false

namespace Node

/-- Futures alive whose task holds a permit. -/
def liveHeld (n : Node A M) : ℕ := n.tally fun t => t.live && t.permit

/-- Futures alive whose task holds none. -/
def liveFree (n : Node A M) : ℕ := n.tally fun t => t.live && !t.permit

/-- How many permits `check_anonymous_actors` is about to wait for. -/
def demand (n : Node A M) : ℕ :=
  match checkAnonymousActors n.cfg.maxAnonymousActors n.permits n.overflow with
  | none => 0
  | some (k, _) => k

/-- Once `k` permits are available, `held` futures with a permit and `free` without one
are not too many. -/
def enough (n : Node A M) (k held free : ℕ) : Bool :=
  min held (n.cfg.maxAnonymousActors - k) + free ≤ n.cfg.maxAnonymousActors

/-- The check waits for enough permits to make up for the futures alive without one, and
no halt during the wait adds to these. -/
def pausesEnough (n : Node A M) (l : Label A M) : Bool :=
  match l, n.pc with
  | .exec _, .check _ => n.enough n.demand n.liveHeld n.liveFree
  | .task i (.anon .halt), .acquire _ k _ =>
    match n.tasks[i]?.map fun s => s.task.detaches with
    | some true => n.enough k (n.liveHeld - 1) (n.liveFree + 1)
    | _ => true
  | _, _ => true

end Node

def PausesEnough (n : Node A M) (l : Label A M) : Prop := n.pausesEnough l = true

instance (n : Node A M) (l : Label A M) : Decidable (PausesEnough n l) := inferInstanceAs (Decidable (_ = _))

/-- In a pause the permits waited for are enough; after it the bound holds until the
message is handled. -/
def Bound (n : Node A M) : Prop :=
  match n.pc with
  | .acquire _ k _ => n.enough k n.liveHeld n.liveFree = true
  | .select | .process .main _ => n.liveHeld + n.liveFree ≤ n.cfg.maxAnonymousActors
  | _ => True

/-- The executor is in a pause, or past the check and about to handle a message. -/
def Pc.gated : Pc A M → Bool
  | .acquire _ _ _ | .select | .process .main _ => true
  | _ => false

theorem bound_of_not_gated {n : Node A M} (h : n.pc.gated = false) : Bound n := by
  unfold Bound
  split <;> simp_all [Pc.gated]

theorem Pc.gated_user {pc : Pc A M} (h : pc.user = true) : pc.gated = false := by
  unfold gated
  split <;> simp_all [Pc.user]

theorem Node.mainLoop_gated (n : Node A M) : n.mainLoop.pc.gated = false := by
  unfold mainLoop
  cases n.cfg.supervised <;> rfl

/-- The futures alive with a permit are at most the permits that are taken. -/
theorem Permits.liveHeld_le {n : Node A M} (hp : Permits n) :
    n.liveHeld + n.permits ≤ n.cfg.maxAnonymousActors := by
  have hle : n.liveHeld ≤ n.tally Task.permit := by
    refine List.countP_mono_left fun s _ h => ?_
    simp only [Bool.and_eq_true] at h
    exact h.2
  have := hp.sum
  omega

theorem bound_passCheck {n : Node A M} {hand : Option (Mail A M)}
    (h : n.liveHeld + n.liveFree ≤ n.cfg.maxAnonymousActors) : Bound (n.passCheck hand) := by
  cases hand <;> exact h

theorem bound_check {n : Node A M} {hand : Option (Mail A M)} (hp : Permits n)
    (h : n.enough n.demand n.liveHeld n.liveFree = true) : Bound (n.checkStep hand) := by
  unfold Node.checkStep
  unfold Node.demand at h
  split
  · rename_i hc
    have hheld := hp.liveHeld_le
    rw [hc] at h
    simp only [Node.enough, decide_eq_true_eq] at h
    exact bound_passCheck (by omega)
  · rename_i k rest hc
    rw [hc] at h
    exact h

theorem bound_exec {n n' : Node A M} {x : Act A M} (hp : Permits n) (hi : Bound n)
    (hs : n.pausesEnough (.exec x) = true) (hx : Node.Exec n x n') : Bound n' := by
  cases hx with
  | op o ho' hu ho =>
    refine bound_of_not_gated (Pc.gated_user ?_)
    rw [(Node.ctxOp_kept ho).pc]
    exact hu
  | unwind c hc =>
    obtain ⟨aw, ak, h⟩ := Node.unwind_eq n c
    rw [h]
    trivial
  | took m c pc hpop hpc =>
    unfold Pc.took at hpc
    unfold Bound at hi
    split at hpc <;> cases hpc
    · trivial
    · rename_i hsel
      rw [hsel] at hi
      exact hi
    all_goals trivial
  | check hand hpc =>
    simp only [Node.pausesEnough, hpc] at hs
    exact bound_check hp hs
  | acquired hand k rest hpc hk =>
    -- with `k` permits available, at most `max - k` futures hold one
    have hheld := hp.liveHeld_le
    simp only [Bound, hpc, Node.enough, decide_eq_true_eq] at hi
    exact bound_passCheck (show n.liveHeld + n.liveFree ≤ n.cfg.maxAnonymousActors by omega)
  | onStart a hpc => exact bound_of_not_gated (Node.mainLoop_gated _)
  | postRun p a hpc =>
    refine bound_of_not_gated ?_
    cases p with
    | main =>
      simp only [Node.processed]
      split
      · exact Node.mainLoop_gated _
      · rfl
    | stopping | stopped => rfl
  | finish hpc =>
    refine bound_of_not_gated ?_
    unfold Node.finish
    (repeat' split) <;> rfl
  | _ => trivial

/-- Only a halt takes the permit from a future that stays alive. -/
theorem Anon.Moves.detaches {v : View} {a a' : Anon A M} {l : AnonLabel M} {e : Eff A M}
    (h : a.Moves v l a' e) (hl : a'.live = true) (hp : a.permit = true) (hp' : a'.permit = false) :
    a.detaches = true ∧ l = .halt := by
  cases h with
  | skip h | finish out h | cancel h | lost k j hk h => rw [Anon.finished_live] at hl; cases hl
  | panic h => rw [Anon.unwind_live] at hl; cases hl
  | haltLive hk hh h =>
    refine ⟨?_, rfl⟩
    rcases h with h | h <;> simp [Anon.detaches, hp, h]
  | spawn h | poll h => cases hk : a.kind <;> simp_all [Anon.permit]
  | _ => cases hl

theorem Task.detaches_held {t : Task A M} (h : t.detaches = true) : (t.live && t.permit) = true := by
  cases t with
  | anon a =>
    simp only [Task.detaches, Anon.detaches, Bool.and_eq_true] at h
    cases hpc : a.pc <;> simp_all [Task.live, Task.permit, Anon.live]
  | child c | fwd f => cases h

/-- What a step of a task does to its share of the futures alive. -/
theorem Task.Moves.alive {v : View} {s t : Task A M} {l : TaskLabel A M} {e : Eff A M}
    (h : s.Moves v l t e) (hs : ∀ a, s = .anon a → a.Sound) :
    t.live.toNat ≤ s.live.toNat ∧ (t.live && t.permit).toNat ≤ (s.live && s.permit).toNat ∧
      ((t.live && !t.permit).toNat ≤ (s.live && !s.permit).toNat ∨ s.detaches = true ∧ l = .anon .halt) := by
  have hback := h.permit hs
  cases h with
  | child h | fwd h => exact ⟨Nat.le_refl _, Nat.le_refl _, .inl (Nat.le_refl _)⟩
  | @anon a a' l e h =>
    have hl : a'.live = true → a.live = true := h.live
    have hd : a'.live = true → a.permit = true → a'.permit = false → a.detaches = true ∧ l = .halt := h.detaches
    simp only [Task.live, Task.permit, Task.detaches] at hback ⊢
    cases hl' : a'.live
    · simp
    · rw [hl hl']
      cases hp : a.permit <;> cases hp' : a'.permit <;> simp_all

/-- The live futures are those with and those without a permit. -/
theorem Node.live_split (n : Node A M) : n.tally Task.live = n.liveHeld + n.liveFree :=
  Tally.tally_split (fun s : Slot A M => s.task.live) (fun s => s.task.permit) n.tasks

theorem bound_tasked {n n' : Node A M} {k : ℕ} {l : TaskLabel A M} {s : Slot A M} {t : Task A M}
    {e : Eff A M} (hp : Permits n) (hi : Bound n) (h : Node.Tasked n k l n' s t e)
    (hhalt : ∀ hand j rest, n.pc = .acquire hand j rest → l = .anon .halt → s.task.detaches = true →
      n.enough j (n.liveHeld - 1) (n.liveFree + 1) = true) : Bound n' := by
  obtain ⟨h1, h2, h3⟩ := h.moves.alive (h.sound hp.sound).1
  have hheld : n'.liveHeld + (s.task.live && s.task.permit).toNat = n.liveHeld + (t.live && t.permit).toNat :=
    h.tally _
  have hfree : n'.liveFree + (s.task.live && !s.task.permit).toNat = n.liveFree + (t.live && !t.permit).toNat :=
    h.tally _
  have hlive := h.tally Task.live
  have hsplit := n.live_split
  have hsplit' := n'.live_split
  have hcfg := h.outside.cfg
  have hpc := h.outside.pc
  unfold Bound at *
  rw [hpc, hcfg]
  split at hi
  · rename_i hand j rest hacq
    simp only [Node.enough, decide_eq_true_eq, hcfg] at hi hhalt ⊢
    -- no future loses its permit but one that a halt detaches
    rcases h3 with h3 | ⟨hd, rfl⟩
    · omega
    · have hafter := hhalt hand j rest hacq rfl hd
      have hone : (t.live && t.permit).toNat + (t.live && !t.permit).toNat ≤ 1 := by
        cases t.live <;> cases t.permit <;> decide
      have hheld1 : (s.task.live && s.task.permit).toNat = 1 := by
        rw [Task.detaches_held hd]; rfl
      omega
  · omega
  · omega
  · trivial

theorem bound_rest {ms : List (Mail A M)} {n n' : Node A M} (hi : Bound n) (hr : Node.Rest ms n n') :
    Bound n' := by
  unfold Bound Node.enough Node.liveHeld Node.liveFree Node.tally at *
  rw [hr.outside.pc, hr.outside.cfg, hr.tasks]
  exact hi

theorem bound_step {n n' : Node A M} {l : Label A M} (hp : Permits n) (hi : Bound n)
    (hs : PausesEnough n l) (h : n.step l = some n') : Bound n' := by
  cases Node.step_rule h with
  | exec x hx => exact bound_exec hp hi hs hx
  | task k tl s t e hb ht =>
    refine bound_tasked hp hi ht ?_
    rintro hand j rest hacq rfl hd
    simpa [PausesEnough, Node.pausesEnough, hacq, ht.slot, hd] using hs
  | join i h' n₁ l hj =>
    -- neither step of a join is a halt
    obtain ⟨s, t, e, ht⟩ := Node.taskStep_cases hj.join
    have hn₁ : Permits n₁ ∧ Bound n₁ := by
      rcases hj.taken with rfl | h1
      · exact ⟨hp, hi⟩
      · obtain ⟨s', t', e', ht'⟩ := Node.taskStep_cases h1
        exact ⟨permits_tasked hp ht', bound_tasked hp hi ht' (by rintro _ _ _ _ ⟨⟩)⟩
    refine bound_tasked hn₁.1 hn₁.2 ht ?_
    rintro _ _ _ _ hl
    rcases hj.label with ⟨rfl, -⟩ | ⟨v, rfl⟩ <;> cases hl
  | send r b hr _ => exact bound_rest hi hr
  | quiet l hr _ _ => exact bound_rest hi hr

/-- **The bound on anonymous actors.** Whenever the main loop starts to handle a message,
at most `max_anonymous_actors` anonymous futures are alive, in every run in which each
pause is for enough permits. -/
theorem anonymous_bound {cfg : Config} {a : A} {ls : List (Label A M)} {n : Node A M} {m : Mail A M}
    (hs : Lts.Along Node.step PausesEnough (Node.init cfg a) ls)
    (hr : Lts.run Node.step (Node.init cfg a) ls = some n) (hpc : n.pc = .process .main m) :
    n.tally Task.live ≤ cfg.maxAnonymousActors := by
  have hstep : ∀ (n : Node A M) l n', (Permits n ∧ Bound n) → PausesEnough n l → n.step l = some n' →
      Permits n' ∧ Bound n' :=
    fun n l n' hi hs h => ⟨permits_step hi.1 h, bound_step hi.1 hi.2 hs h⟩
  have hbound := (Lts.run_along hstep ⟨permits_init cfg a, trivial⟩ hs hr).2
  have hcfg := Node.cfg_run hr
  rw [n.live_split, ← hcfg]
  simpa [Bound, hpc] using hbound

/-- The steps of the anonymous task `k` that take it through its wrapper's last one. -/
def endOf (k : ℕ) : List (Label Unit ℕ) :=
  [.task k (.anon .spawn), .task k (.anon .poll), .task k (.anon (.finish 0)), .task k (.anon .wake),
    .task k (.anon .send), .task k (.anon .drop), .task k (.anon .release)]

/-- With a limit of one, two tasks are started; the second has no permit, and the first
ends before the next message is handled. -/
def pausedRun : List (Label Unit ℕ) :=
  [.exec (.op .anonymousTask), .exec (.op .anonymousTask), .exec (.ret ()), .send (.user 0), .exec .recv,
    .exec .go] ++ endOf 0 ++ [.exec .go]

theorem anonymous_bound_pausedRun :
    ∃ n : Node Unit ℕ, Lts.run Node.step (Node.init ⟨4, 1, false, []⟩ ()) pausedRun = some n ∧
      n.pc = .process .main ⟨none, .user 0⟩ ∧ n.tally Task.live ≤ 1 := by
  have hr : ∃ n : Node Unit ℕ, Lts.run Node.step (Node.init ⟨4, 1, false, []⟩ ()) pausedRun = some n ∧
      n.pc = .process .main ⟨none, .user 0⟩ := ⟨_, rfl, rfl⟩
  obtain ⟨n, hr, hpc⟩ := hr
  exact ⟨n, hr, hpc, anonymous_bound (by decide) hr hpc⟩

/-- With a limit of one, three tasks are started; the pause is for one permit. -/
def burstRun : List (Label Unit ℕ) := .exec (.op .anonymousTask) :: pausedRun

/-- **The bound can be exceeded**: two futures are alive when the message is handled. -/
theorem anonymous_unbounded :
    ∃ (n : Node Unit ℕ) (m : Mail Unit ℕ),
      Lts.run Node.step (Node.init ⟨4, 1, false, []⟩ ()) burstRun = some n ∧ n.pc = .process .main m ∧
      ¬ n.tally Task.live ≤ 1 :=
  ⟨_, _, rfl, rfl, by decide⟩

/-! ## Deadlock -/

/-- The wrapper is past its send and still holds its permit. -/
def Anon.settled (a : Anon A M) : Bool :=
  a.permit && match a.pc with
    | .sent _ | .closing => true
    | _ => false

/-- The task was started beyond the limit, and its wrapper has yet to send. -/
def Anon.pending (a : Anon A M) : Bool :=
  a.kind.wrapper && !a.tracked && !a.halted && match a.pc with
    | .queued | .fresh | .running | .returned _ | .crashed | .sending _ => true
    | .sent _ | .closing | .done => false

def Task.settled : Task A M → Bool
  | .anon a => a.settled
  | _ => false

def Task.pending : Task A M → Bool
  | .anon a => a.pending
  | _ => false

/-- The task is the wrapper of an anonymous actor, and in its send. -/
def Task.blocked : Task A M → Bool
  | .anon a => a.inSend
  | _ => false

/-- There is a wrapper around the task. -/
def Task.wrapper : Task A M → Bool
  | .anon a => a.kind.wrapper
  | _ => false

/-- The message of this step is not the notice of a wrapper. -/
def TaskLabel.foreign : TaskLabel A M → Bool
  | .child .send | .fwd .send | .anon .lost => true
  | _ => false

namespace Node

/-- The executor waits for permits, and every wrapper that holds one is in its send to
the full mailbox. -/
def Deadlocked (n : Node A M) : Prop :=
  ∃ hand k rest, n.pc = .acquire hand k rest ∧ n.permits < k ∧ n.mailbox.closed = false ∧
    n.mailbox.full = true ∧ ∀ s ∈ n.tasks, s.task.permit = true → s.task.wrapper = true → s.task.blocked = true

/-- With `d` messages more in the mailbox, either the permits of the wrappers that are
past their send are enough for `k`, or the mailbox has room for the notices that can come
before the rest of the `k` permits. -/
def room (n : Node A M) (k d : ℕ) : Bool :=
  k ≤ n.permits + n.tally Task.settled ||
    n.tally Task.pending + k + d ≤ n.mailbox.free + n.permits + n.tally Task.settled

/-- There is room when a pause begins, and after each message that enters the mailbox
during it and is not the notice of a wrapper. -/
def roomy (n : Node A M) (l : Label A M) : Bool :=
  n.mailbox.closed ||
    match n.pc, l with
    | .check _, .exec _ =>
      match checkAnonymousActors n.cfg.maxAnonymousActors n.permits n.overflow with
      | none => true
      | some (k, _) => n.room k 0
    | .acquire _ k _, .send _ => n.room k 1
    | .acquire _ k _, .task _ tl => !tl.foreign || n.room k 1
    | .acquire _ k _, .join _ h => !n.yieldsNone h || n.room k 1
    | _, _ => true

end Node

def Roomy (n : Node A M) (l : Label A M) : Prop := n.roomy l = true

instance (n : Node A M) (l : Label A M) : Decidable (Roomy n l) := inferInstanceAs (Decidable (_ = _))

/-- During a pause there is room. -/
def Room (n : Node A M) (d : ℕ) : Prop :=
  ∀ hand k rest, n.pc = .acquire hand k rest → n.mailbox.closed = true ∨ n.room k d = true

theorem Anon.finished_room {a : Anon A M} (h : a.pc = .fresh ∨ a.pc = .running) (out : Option M) :
    a.settled = false ∧ (a.finished out).1.settled = false ∧ (a.finished out).2.push = none ∧
      (a.finished out).1.pending.toNat ≤ a.pending.toNat := by
  have hs : a.settled = false := by
    rcases h with h | h <;> simp [Anon.settled, h]
  refine ⟨hs, ?_⟩
  rcases a.finished_cases out with ⟨hh, he⟩ | ⟨hh, hk, he⟩ | ⟨hh, hk, he⟩ <;> rw [he]
  · exact ⟨by simp [Anon.settled], rfl, by simp [Anon.pending]⟩
  · exact ⟨by simp [Anon.settled], rfl, by simp [Anon.pending, hk, AnonKind.wrapper]⟩
  · refine ⟨by simp [Anon.settled], rfl, ?_⟩
    rcases h with h | h <;> simp [Anon.pending, h]

/-- A wrapper holds the permit of its task until it is done. -/
theorem Anon.permit_wrapper {a : Anon A M} (hw : a.kind.wrapper = true) (hd : a.pc ≠ .done) :
    a.permit = (a.tracked && !a.halted) := by
  unfold Anon.permit
  cases hk : a.kind <;> cases hpc : a.pc <;> simp_all [AnonKind.wrapper]

/-- What a step of an anonymous actor does to the permits and notices to come. -/
theorem Anon.Moves.room {v : View} {a a' : Anon A M} {l : AnonLabel M} {e : Eff A M} (hs : a.Sound)
    (h : a.Moves v l a' e) :
    a.settled.toNat ≤ e.release.toNat + a'.settled.toNat ∧
      a'.pending.toNat + e.push.toList.length + a.settled.toNat ≤
        a.pending.toNat + e.release.toNat + a'.settled.toNat + (TaskLabel.anon l : TaskLabel A M).foreign.toNat := by
  have hfin : ∀ out, a.pc = .fresh ∨ a.pc = .running →
      a.settled.toNat = 0 ∧ (a.finished out).2.push = none ∧
        (a.finished out).1.pending.toNat ≤ a.pending.toNat := by
    intro out h
    obtain ⟨h1, -, h3, h4⟩ := Anon.finished_room h out
    exact ⟨by rw [h1]; rfl, h3, h4⟩
  cases h with
  | skip h =>
    obtain ⟨h1, h2, h3⟩ := hfin none (.inl h)
    rw [h1, h2]
    exact ⟨by omega, by simp; omega⟩
  | finish out h =>
    obtain ⟨h1, h2, h3⟩ := hfin (some out) (.inr h)
    rw [h1, h2]
    exact ⟨by omega, by simp; omega⟩
  | cancel h =>
    obtain ⟨h1, h2, h3⟩ := hfin none (.inr h)
    rw [h1, h2]
    exact ⟨by omega, by simp; omega⟩
  | lost k j hk h =>
    obtain ⟨h1, h2, h3⟩ := hfin none (.inr h)
    rw [h1]
    refine ⟨by omega, ?_⟩
    cases v.closed <;> simp [TaskLabel.foreign] <;> omega
  | panic h =>
    rcases a.unwind_cases with ⟨hh, he⟩ | ⟨hh, hk, he⟩ | ⟨hh, hk, he⟩ <;> rw [he] <;>
      simp_all [Anon.settled, Anon.pending]
  | spawn h | poll h => simp_all [Anon.settled, Anon.pending]
  | wake out hk h =>
    rcases h with ⟨o, h, -⟩ | ⟨h, -⟩ <;> simp_all [Anon.settled, Anon.pending]
  | send b h | refused b h =>
    obtain ⟨hw, hh⟩ := hs.wrapped (by simp [h]) (by simp [h]) (by simp [h]) (by simp [h])
    cases ht : a.tracked <;> simp_all [Anon.settled, Anon.pending, Anon.permit_wrapper, TaskLabel.foreign]
  | drop b h | release h =>
    obtain ⟨hw, hh⟩ := hs.wrapped (by simp [h]) (by simp [h]) (by simp [h]) (by simp [h])
    cases ht : a.tracked <;> simp_all [Anon.settled, Anon.pending, Anon.permit_wrapper, TaskLabel.foreign]
  | haltQueued hk hh h => simp_all [Anon.settled, Anon.pending]
  | haltLive hk hh h =>
    rcases h with h | h <;> simp_all [Anon.settled, Anon.pending]
  | haltLate hk hh h hd =>
    have hw := AnonKind.wrapper_of_ne hk
    cases ht : a.tracked <;> cases hpc : a.pc <;>
      simp_all [Anon.settled, Anon.pending, Anon.permit_wrapper, Anon.live]
  | take out hk h => simp_all [Anon.settled, Anon.pending]

theorem Task.Moves.room {v : View} {s t : Task A M} {l : TaskLabel A M} {e : Eff A M}
    (h : s.Moves v l t e) (hs : ∀ a, s = .anon a → a.Sound) :
    s.settled.toNat ≤ e.release.toNat + t.settled.toNat ∧
      t.pending.toNat + e.push.toList.length + s.settled.toNat ≤
        s.pending.toNat + e.release.toNat + t.settled.toNat + l.foreign.toNat := by
  cases h with
  | child h => cases h <;> simp [Task.settled, Task.pending, TaskLabel.foreign]
  | anon h => exact h.room (hs _ rfl)
  | fwd h => cases h <;> simp [Task.settled, Task.pending, TaskLabel.foreign]

theorem room_tasked {n n' : Node A M} {k d : ℕ} {l : TaskLabel A M} {s : Slot A M} {t : Task A M}
    {e : Eff A M} (hp : Permits n) (hi : Room n (d + l.foreign.toNat)) (h : Node.Tasked n k l n' s t e) :
    Room n' d := by
  obtain ⟨h1, h2⟩ := h.moves.room (h.sound hp.sound).1
  have hset := h.tally Task.settled
  have hpen := h.tally Task.pending
  have hfree := h.outside.mailbox.free
  have hpm := h.permits
  intro hand j rest hacq
  rw [h.outside.pc] at hacq
  rw [h.outside.mailbox.closed]
  refine (hi hand j rest hacq).imp_right fun hroom => ?_
  simp only [Node.room, Bool.or_eq_true, decide_eq_true_eq, List.length_map] at *
  cases hr : e.release <;> simp [hr] at hpm h1 h2 <;> omega

theorem room_rest {ms : List (Mail A M)} {n n' : Node A M} (hi : Room n ms.length) (hr : Node.Rest ms n n') :
    Room n' 0 := by
  intro hand j rest hacq
  have hfree := hr.outside.mailbox.free
  rw [hr.outside.pc] at hacq
  rw [hr.outside.mailbox.closed]
  refine (hi hand j rest hacq).imp_right fun hroom => ?_
  unfold Node.room Node.tally at *
  rw [hr.tasks, hr.permits]
  simp only [Bool.or_eq_true, decide_eq_true_eq] at *
  omega

theorem room_exec {n n' : Node A M} {x : Act A M} (hs : n.roomy (.exec x) = true) (hx : Node.Exec n x n') :
    Room n' 0 := by
  intro hand j rest hacq
  -- only a check leads to the wait for permits
  have hno : n'.pc.gated = false → False := fun h => by rw [hacq] at h; cases h
  cases hx with
  | op o ho' hu ho =>
    refine (hno (Pc.gated_user ?_)).elim
    rw [(Node.ctxOp_kept ho).pc]
    exact hu
  | unwind c hc =>
    obtain ⟨aw, ak, h⟩ := Node.unwind_eq n c
    rw [h] at hacq
    cases hacq
  | took m c pc hpop hpc =>
    unfold Pc.took at hpc
    split at hpc <;> cases hpc <;> cases hacq
  | check hand hpc =>
    unfold Node.checkStep at hacq ⊢
    split at hacq
    · cases hand <;> cases hacq
    · rename_i k rest hc
      cases hacq
      simp only [Node.roomy, hpc, hc, Bool.or_eq_true] at hs ⊢
      exact hs
  | acquired hand k rest hpc hk => cases hand <;> cases hacq
  | onStart a hpc => exact (hno (Node.mainLoop_gated _)).elim
  | postRun p a hpc =>
    cases p with
    | main =>
      simp only [Node.processed] at hno hacq
      split at hacq
      · rw [if_pos ‹_›] at hno
        exact (hno (Node.mainLoop_gated _)).elim
      · cases hacq
    | stopping | stopped => cases hacq
  | finish hpc =>
    unfold Node.finish at hacq
    (repeat' split at hacq) <;> cases hacq
  | _ => cases hacq

theorem room_step {n n' : Node A M} {l : Label A M} (hp : Permits n) (hi : Room n 0) (hs : Roomy n l)
    (h : n.step l = some n') : Room n' 0 := by
  cases Node.step_rule h with
  | exec x hx => exact room_exec hs hx
  | task k tl s t e hb ht =>
    refine room_tasked hp (fun hand j rest hacq => ?_) ht
    simp only [Roomy, Node.roomy, hacq, Bool.or_eq_true, Bool.not_eq_true'] at hs
    cases hf : tl.foreign
    · exact hi hand j rest hacq
    · simpa [hf] using hs
  | join i h' n₁ l hj =>
    have hroom : Room n (TaskLabel.anon l : TaskLabel A M).foreign.toNat := by
      intro hand j rest hacq
      simp only [Roomy, Node.roomy, hacq, Bool.or_eq_true, Bool.not_eq_true'] at hs
      rcases hj.label with ⟨rfl, hy⟩ | ⟨v, rfl⟩
      · simpa [hy, TaskLabel.foreign] using hs
      · exact hi hand j rest hacq
    have hn₁ : Permits n₁ ∧ Room n₁ (TaskLabel.anon l : TaskLabel A M).foreign.toNat := by
      rcases hj.taken with rfl | h1
      · exact ⟨hp, hroom⟩
      · obtain ⟨s', t', e', ht'⟩ := Node.taskStep_cases h1
        have hroom' : Room n (_ + (TaskLabel.anon .take : TaskLabel A M).foreign.toNat) := hroom
        exact ⟨permits_tasked hp ht', room_tasked hp hroom' ht'⟩
    obtain ⟨s, t, e, ht⟩ := Node.taskStep_cases hj.join
    exact room_tasked hn₁.1 (by rw [Nat.zero_add]; exact hn₁.2) ht
  | send r b hr _ =>
    refine room_rest (fun hand j rest hacq => ?_) hr
    simpa [Roomy, Node.roomy, hacq] using hs
  | quiet l hr _ _ => exact room_rest hi hr

theorem Task.settled_facts {t : Task A M} (hs : ∀ a, t = .anon a → a.Sound) (h : t.settled = true) :
    t.permit = true ∧ t.wrapper = true ∧ t.blocked = false := by
  cases t with
  | anon a =>
    simp only [Task.settled, Anon.settled, Bool.and_eq_true] at h
    have hpc : (∃ b, a.pc = .sent b) ∨ a.pc = .closing := by
      cases hpc : a.pc <;> simp_all
    have hw : a.kind.wrapper = true := by
      rcases hpc with ⟨b, hpc⟩ | hpc <;>
        exact ((hs a rfl).wrapped (by simp [hpc]) (by simp [hpc]) (by simp [hpc]) (by simp [hpc])).1
    refine ⟨h.1, hw, ?_⟩
    rcases hpc with ⟨b, hpc⟩ | hpc <;> simp [Task.blocked, Anon.inSend, hpc]
  | child c | fwd f => cases h

/-- With room, somebody who holds a permit can go on. -/
theorem Room.not_deadlocked {n : Node A M} (hp : Permits n) (hi : Room n 0) : ¬ n.Deadlocked := by
  rintro ⟨hand, k, rest, hacq, hk, hopen, hfull, hall⟩
  have hsettled : n.tally Task.settled = 0 := by
    refine List.countP_eq_zero.2 fun s hs hset => ?_
    obtain ⟨hpm, hw, hb⟩ := Task.settled_facts (hp.sound s hs) hset
    rw [hall s hs hpm hw] at hb
    cases hb
  have hfree := Chan.full_free hfull
  rcases hi hand k rest hacq with hcl | hroom
  · rw [hopen] at hcl; cases hcl
  · simp only [Node.room, Bool.or_eq_true, decide_eq_true_eq] at hroom
    omega

/-- **The limit on anonymous actors does not deadlock the actor**, in every run in which
the mailbox has room for the notices that can come during a pause. -/
theorem anonymous_no_deadlock {cfg : Config} {a : A} {ls : List (Label A M)} {n : Node A M}
    (hs : Lts.Along Node.step Roomy (Node.init cfg a) ls)
    (hr : Lts.run Node.step (Node.init cfg a) ls = some n) : ¬ n.Deadlocked := by
  have hstep : ∀ (n : Node A M) l n', (Permits n ∧ Room n 0) → Roomy n l → n.step l = some n' →
      Permits n' ∧ Room n' 0 :=
    fun n l n' hi hs h => ⟨permits_step hi.1 h, room_step hi.1 hi.2 hs h⟩
  have hinit : Room (Node.init cfg a : Node A M) 0 := fun _ _ _ h => by cases h
  obtain ⟨hp, hroom⟩ := Lts.run_along hstep ⟨permits_init cfg a, hinit⟩ hs hr
  exact hroom.not_deadlocked hp

/-- In the pause of `pausedRun`, before the first notice is sent. -/
theorem anonymous_no_deadlock_pausedRun :
    ∃ n : Node Unit ℕ, Lts.run Node.step (Node.init ⟨4, 1, false, []⟩ ()) (pausedRun.take 10) = some n ∧
      (∃ hand, n.pc = .acquire hand 1 0) ∧ n.permits = 0 ∧ ¬ n.Deadlocked := by
  have hr : ∃ n : Node Unit ℕ,
      Lts.run Node.step (Node.init ⟨4, 1, false, []⟩ ()) (pausedRun.take 10) = some n ∧
        (∃ hand, n.pc = .acquire hand 1 0) ∧ n.permits = 0 := ⟨_, rfl, ⟨_, rfl⟩, rfl⟩
  obtain ⟨n, hr, hpc, hp⟩ := hr
  exact ⟨n, hr, hpc, hp, anonymous_no_deadlock (by decide) hr⟩

/-- With a limit of one and a mailbox for one message, two tasks are started; the one
without a permit fills the mailbox, and the other cannot send and keeps its permit. -/
def deadlockRun : List (Label Unit ℕ) :=
  [.exec (.op .anonymousTask), .exec (.op .anonymousTask), .exec (.ret ()), .send (.user 0), .exec .recv, .exec .go,
    .task 1 (.anon .spawn), .task 1 (.anon .poll), .task 1 (.anon (.finish 0)), .task 1 (.anon .wake),
    .task 1 (.anon .send),
    .task 0 (.anon .spawn), .task 0 (.anon .poll), .task 0 (.anon (.finish 0)), .task 0 (.anon .wake)]

/-- **The limit can deadlock the actor.** -/
theorem anonymous_deadlock :
    ∃ n : Node Unit ℕ, Lts.run Node.step (Node.init ⟨1, 1, false, []⟩ ()) deadlockRun = some n ∧ n.Deadlocked :=
  ⟨_, rfl, _, _, _, rfl, by decide, rfl, rfl, by decide⟩

end Tokactor
