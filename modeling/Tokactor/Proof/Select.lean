import Mathlib.Data.Option.Basic
import Tokactor.Model.Select
import Tokactor.Proof.Flow

/-!
# Shutdown and the mailbox

The doc comment of `handle_supervised_message` gives the supervisor's message precedence when
both branches are ready. A `select!` without `biased` takes either.

* `node_run`: under its supervisor an actor does what it can do by itself.
* `shutdown_precedes`: the `Shutdown` wins every poll at which both are ready, and no message
  is taken by the main loop from the first poll that sees it, if and only if each of these
  polls starts at the supervisor's branch.
-/

namespace Tokactor

variable {A M : Type}

namespace Supervised

/-- The executor is at the `select!`, which can see an unseen `Shutdown`. -/
def visible (s : Supervised A M) : Bool :=
  match s.node.pc with
  | .select => s.receiver.unseen && s.receiver.value == some .shutdown
  | _ => false

/-- Both branches are ready, the second one with a message. -/
def bothReady (s : Supervised A M) : Bool := s.visible && !s.node.mailbox.queue.isEmpty

/-- A poll at which both branches are ready takes the `Shutdown`. -/
def Breaks (s : Supervised A M) (l : SupervisedLabel A M) : Prop :=
  ∀ b, l = .poll b → s.bothReady = true → ∀ s', s.step l = some s' → s'.node = s.node.shutdownStart

/-- The message that the main loop takes in this step. -/
def takes (s : Supervised A M) (l : SupervisedLabel A M) : List (Mail A M) :=
  match l with
  | .poll _ => (s.step l).elim [] fun s' => s'.node.pc.hand.toList
  | _ => []

/-- A poll at which both branches are ready starts at the supervisor's. -/
def SupervisorFirst (s : Supervised A M) (l : SupervisedLabel A M) : Prop :=
  match l with
  | .poll false => s.bothReady = false
  | _ => True

/-- In the run of `ls` from `s₀` the supervisor's message takes precedence. -/
structure Precedence (s₀ : Supervised A M) (ls : List (SupervisedLabel A M)) : Prop where
  breaks : Lts.Along step Breaks s₀ ls
  none_after : ∀ ls₁ b ls₂ s, ls = ls₁ ++ .poll b :: ls₂ → Lts.run step s₀ ls₁ = some s → s.visible = true →
    Lts.outs step takes s (.poll b :: ls₂) = []

end Supervised

instance (s : Supervised A M) (l : SupervisedLabel A M) : Decidable (s.SupervisorFirst l) := by
  unfold Supervised.SupervisorFirst
  split <;> infer_instance

namespace Supervised

/-! ## One poll -/

theorem visible_iff {s : Supervised A M} :
    s.visible = true ↔ s.node.pc = .select ∧ s.receiver.unseen = true ∧ s.receiver.value = some .shutdown := by
  unfold visible
  split
  · rename_i hpc
    simp [hpc]
  · rename_i hpc
    exact ⟨fun h => (by cases h), fun h => (hpc h.1).elim⟩

theorem bothReady_iff {s : Supervised A M} :
    s.bothReady = true ↔ s.visible = true ∧ ∃ m q, s.node.mailbox.queue = m :: q := by
  unfold bothReady
  rw [Bool.and_eq_true]
  cases s.node.mailbox.queue <;> simp

theorem changed_visible {s : Supervised A M} (hv : s.visible = true) :
    s.changed = some ⟨s.node.shutdownStart, { s.receiver with unseen := false }⟩ := by
  obtain ⟨hpc, hu, hval⟩ := visible_iff.1 hv
  unfold changed Watch.changed
  rw [if_pos hu]
  simp [hval, Node.exec, hpc, Node.handleSupervisedMessage]

theorem recv_cases {s s' : Supervised A M} (hpc : s.node.pc = .select) (h : s.recv = some s') :
    (∃ m q, s.node.mailbox.queue = m :: q ∧ s'.node.pc = .process .main m) ∨
      s.node.mailbox.queue = [] ∧ s'.node = s.node.shutdownStart := by
  unfold recv at h
  obtain ⟨n, hn, rfl⟩ := Option.map_eq_some_iff.1 h
  rcases (Option.orElse_eq_some _ _ _).1 hn with hr | ⟨-, hr⟩
  · simp only [Node.exec, hpc, Node.handleSupervisedMessage, Node.receive] at hr
    obtain ⟨⟨m, c⟩, hp, rfl⟩ := Option.map_eq_some_iff.1 hr
    exact .inl ⟨m, c.queue, (Chan.pop_cases hp).1, rfl⟩
  · simp only [Node.exec, hpc, Node.handleSupervisedMessage, Node.receive] at hr
    split at hr
    · rename_i hq _
      cases hr
      exact .inr ⟨hq, rfl⟩
    · cases hr

/-- A poll that sees the `Shutdown` takes it, unless it starts at a mailbox with a message. -/
theorem poll_visible {s s' : Supervised A M} {b : Bool} (hv : s.visible = true) (h : s.poll b = some s') :
    s'.node = s.node.shutdownStart ∨ b = false ∧ s.bothReady = true := by
  have hpc := (visible_iff.1 hv).1
  unfold poll at h
  rw [hpc] at h
  cases b with
  | true =>
    rw [if_pos rfl, changed_visible hv] at h
    cases h
    exact .inl rfl
  | false =>
    rw [if_neg (by decide)] at h
    rcases (Option.orElse_eq_some _ _ _).1 h with hr | ⟨-, hr⟩
    · rcases recv_cases hpc hr with ⟨m, q, hq, -⟩ | ⟨-, hn⟩
      · exact .inr ⟨rfl, bothReady_iff.2 ⟨hv, m, q, hq⟩⟩
      · exact .inl hn
    · rw [changed_visible hv] at hr
      cases hr
      exact .inl rfl

/-- A poll that starts at a mailbox with a message takes it. -/
theorem poll_mailbox {s : Supervised A M} (hr : s.bothReady = true) :
    ∃ s' m, s.poll false = some s' ∧ s'.node.pc = .process .main m := by
  obtain ⟨hv, m, q, hq⟩ := bothReady_iff.1 hr
  have hpc := (visible_iff.1 hv).1
  obtain ⟨⟨m', c⟩, hp⟩ := Chan.pop_of_cons hq
  have hrecv : s.recv = some ⟨{ s.node with mailbox := c, pc := .process .main m' }, s.receiver⟩ := by
    simp [recv, Node.exec, hpc, Node.handleSupervisedMessage, Node.receive, hp]
  refine ⟨⟨{ s.node with mailbox := c, pc := .process .main m' }, s.receiver⟩, m', ?_, rfl⟩
  unfold poll
  rw [hpc, if_neg (by decide), hrecv]
  rfl

theorem breaks_iff {s : Supervised A M} {l : SupervisedLabel A M} : s.Breaks l ↔ s.SupervisorFirst l := by
  constructor
  · intro hb
    unfold SupervisorFirst
    split
    · by_contra hr
      have hr : s.bothReady = true := by simpa using hr
      obtain ⟨s', m, hs, hpc⟩ := poll_mailbox hr
      have hn := hb false rfl hr s' hs
      rw [hn] at hpc
      cases hpc
    · trivial
  · rintro hf b rfl hr s' hs
    rcases poll_visible (bothReady_iff.1 hr).1 hs with hn | ⟨rfl, -⟩
    · exact hn
    · have hno : s.bothReady = false := hf
      rw [hr] at hno
      cases hno

/-! ## After the shutdown -/

/-- The executor has left its main loop. -/
def Left (s : Supervised A M) : Prop := 1 ≤ s.node.pc.stage.rank

theorem left_poll {s : Supervised A M} (hl : s.Left) (b : Bool) : s.poll b = none := by
  unfold poll
  split
  · rename_i hpc
    rw [Left, hpc] at hl
    cases hl
  · rfl

theorem left_step {s s' : Supervised A M} {l : SupervisedLabel A M} (hl : s.Left) (h : s.step l = some s') : s'.Left := by
  -- the stages of a life only move forward
  have hnode : ∀ (l : Label A M) n, s.node.step l = some n → 1 ≤ n.pc.stage.rank := by
    intro l n hn
    rcases Node.step_outside hn with ⟨x, rfl, hx⟩ | ⟨ms, ho⟩
    · exact Nat.le_trans hl (exec_rank hx)
    · rw [ho.pc]
      exact hl
  cases l with
  | node l =>
    cases l with
    | exec x =>
      simp only [step] at h
      split at h
      · cases h
      · obtain ⟨n, hn, rfl⟩ := Option.map_eq_some_iff.1 h
        exact hnode (.exec x) n hn
    | _ =>
      obtain ⟨n, hn, rfl⟩ := Option.map_eq_some_iff.1 h
      exact hnode _ n hn
  | poll b =>
    rw [step, left_poll hl b] at h
    cases h
  | shutdown =>
    simp only [step] at h
    split at h
    · cases h
    · cases h
      exact hl
  | drop =>
    cases h
    exact hl

theorem left_takes {s : Supervised A M} (hl : s.Left) (ls : List (SupervisedLabel A M)) : Lts.outs step takes s ls = [] := by
  induction ls generalizing s with
  | nil => rfl
  | cons l ls ih =>
    have hno : s.takes l = [] := by
      unfold takes
      split
      · rename_i b
        rw [step, left_poll hl b]
        rfl
      · rfl
    rw [Lts.outs, hno, List.nil_append]
    cases hs : s.step l with
    | none => rfl
    | some s' => exact ih (left_step hl hs)

/-- From a poll that takes the `Shutdown` on, the main loop takes nothing. -/
theorem none_takes {s : Supervised A M} {b : Bool} {ls : List (SupervisedLabel A M)} (hv : s.visible = true)
    (hf : s.SupervisorFirst (.poll b)) : Lts.outs step takes s (.poll b :: ls) = [] := by
  rw [Lts.outs, takes]
  cases hs : s.step (.poll b) with
  | none => rfl
  | some s' =>
    have hn : s'.node = s.node.shutdownStart := by
      rcases poll_visible hv hs with hn | ⟨rfl, hr⟩
      · exact hn
      · have hno : s.bothReady = false := hf
        rw [hr] at hno
        cases hno
    have hleft : s'.Left := by
      rw [Left, hn]
      exact Nat.le_refl 1
    simp only [Option.elim_some]
    rw [left_takes hleft, hn]
    rfl

/-- **The supervisor's message takes precedence over the mailbox** in a run, if and only if
every poll at which both are ready starts at the supervisor's branch. -/
theorem shutdown_precedes {cfg : Config} {a : A} {ls : List (SupervisedLabel A M)} :
    Precedence (init cfg a) ls ↔ Lts.Along step SupervisorFirst (init cfg a) ls := by
  constructor
  · intro h
    exact h.breaks.mono fun _ _ => breaks_iff.1
  · intro h
    refine ⟨h.mono fun _ _ => breaks_iff.2, ?_⟩
    rintro ls₁ b ls₂ s rfl hr hv
    exact none_takes hv (h.drop hr).1

/-! ## The actor under its supervisor -/

/-- The notifier is only ever sent `Some(Shutdown)`. -/
def Told (w : Watch) : Prop := w.unseen = true → w.value = some .shutdown

theorem changed_node {s s' : Supervised A M} (ht : Told s.receiver) (h : s.changed = some s') :
    (s.node.exec .died = some s'.node ∨ s.node.exec .shutdown = some s'.node) ∧ Told s'.receiver := by
  unfold changed Watch.changed at h
  by_cases hu : s.receiver.unseen = true
  · rw [if_pos hu] at h
    simp only [ht hu, Option.map_eq_some_iff] at h
    obtain ⟨n, hn, rfl⟩ := h
    exact ⟨.inr hn, fun hf => by cases hf⟩
  · rw [if_neg hu] at h
    by_cases hd : s.receiver.dropped = true
    · rw [if_pos hd] at h
      simp only [Option.map_eq_some_iff] at h
      obtain ⟨n, hn, rfl⟩ := h
      exact ⟨.inl hn, ht⟩
    · rw [if_neg hd] at h
      cases h

theorem recv_node {s s' : Supervised A M} (h : s.recv = some s') :
    (s.node.exec .recv = some s'.node ∨ s.node.exec .none = some s'.node) ∧ s'.receiver = s.receiver := by
  unfold recv at h
  obtain ⟨n, hn, rfl⟩ := Option.map_eq_some_iff.1 h
  rcases (Option.orElse_eq_some _ _ _).1 hn with hr | ⟨-, hr⟩
  · exact ⟨.inl hr, rfl⟩
  · exact ⟨.inr hr, rfl⟩

/-- A step is one of the actor, or leaves it alone. -/
theorem step_node {s s' : Supervised A M} {l : SupervisedLabel A M} (ht : Told s.receiver) (h : s.step l = some s') :
    ((∃ l', s.node.step l' = some s'.node) ∨ s'.node = s.node) ∧ Told s'.receiver := by
  cases l with
  | node l =>
    cases l with
    | exec x =>
      simp only [step] at h
      split at h
      · cases h
      · obtain ⟨n, hn, rfl⟩ := Option.map_eq_some_iff.1 h
        exact ⟨.inl ⟨.exec x, hn⟩, ht⟩
    | _ =>
      obtain ⟨n, hn, rfl⟩ := Option.map_eq_some_iff.1 h
      exact ⟨.inl ⟨_, hn⟩, ht⟩
  | poll b =>
    -- whatever its start is, a poll is one of its two branches
    have hor : s.changed = some s' ∨ s.recv = some s' := by
      simp only [step, poll] at h
      split at h
      · split at h
        · exact ((Option.orElse_eq_some _ _ _).1 h).imp_right And.right
        · exact (((Option.orElse_eq_some _ _ _).1 h).imp_right And.right).symm
      · cases h
    rcases hor with hc | hr
    · obtain ⟨hx, ht'⟩ := changed_node ht hc
      exact ⟨.inl (hx.elim (fun hx => ⟨.exec .died, hx⟩) fun hx => ⟨.exec .shutdown, hx⟩), ht'⟩
    · obtain ⟨hx, hrec⟩ := recv_node hr
      refine ⟨.inl (hx.elim (fun hx => ⟨.exec .recv, hx⟩) fun hx => ⟨.exec .none, hx⟩), ?_⟩
      rw [hrec]
      exact ht
  | shutdown =>
    simp only [step] at h
    split at h
    · cases h
    · cases h
      exact ⟨.inr rfl, fun _ => rfl⟩
  | drop =>
    cases h
    exact ⟨.inr rfl, ht⟩

/-- **Under its supervisor an actor does what it can do by itself.** -/
theorem node_run {cfg : Config} {a : A} {ls : List (SupervisedLabel A M)} {s : Supervised A M}
    (hr : Lts.run step (init cfg a) ls = some s) :
    ∃ ls', Lts.run Node.step (Node.init { cfg with supervised := true } a) ls' = some s.node := by
  refine (Lts.run_inv (I := fun s => (∃ ls', Lts.run Node.step (Node.init { cfg with supervised := true } a) ls' =
    some s.node) ∧ Told s.receiver) ?_ ⟨⟨[], rfl⟩, fun h => by cases h⟩ hr).1
  rintro s l s' ⟨⟨ls', hrun⟩, ht⟩ h
  obtain ⟨hnode, ht'⟩ := step_node ht h
  refine ⟨?_, ht'⟩
  rcases hnode with ⟨l', hl'⟩ | hsame
  · exact ⟨ls' ++ [l'], Lts.run_concat hrun hl'⟩
  · exact ⟨ls', by rw [hsame]; exact hrun⟩

/-- A child gets a message, then its supervisor shuts down, and the `select!` starts at the
mailbox. -/
def mailboxFirstRun : List (SupervisedLabel Unit ℕ) :=
  [.node (.exec (.ret ())), .node (.exec .go), .node (.send (.user 7)), .shutdown, .poll false]

/-- **The mailbox can win the `select!`**: the message is handled after a poll that saw the
`Shutdown`. -/
theorem mailbox_precedes :
    ∃ s s' : Supervised Unit ℕ, Lts.run step (init ⟨4, 1, true, []⟩ ()) (mailboxFirstRun.take 4) = some s ∧
      s.bothReady = true ∧ s.step (.poll false) = some s' ∧ s'.node.pc = .process .main ⟨none, .user 7⟩ ∧
      ¬ Precedence (init ⟨4, 1, true, []⟩ ()) mailboxFirstRun := by
  have hr : ∃ s s' : Supervised Unit ℕ,
      Lts.run step (init ⟨4, 1, true, []⟩ ()) (mailboxFirstRun.take 4) = some s ∧ s.visible = true ∧
        s.bothReady = true ∧ s.step (.poll false) = some s' ∧ s'.node.pc = .process .main ⟨none, .user 7⟩ ∧
        Lts.outs step takes s [.poll false] = [⟨none, .user 7⟩] := ⟨_, _, rfl, rfl, rfl, rfl, rfl, rfl⟩
  obtain ⟨s, s', hr, hv, hb, hs, hpc, hout⟩ := hr
  refine ⟨s, s', hr, hb, hs, hpc, fun h => ?_⟩
  have hnone := h.none_after (mailboxFirstRun.take 4) false [] s rfl hr hv
  rw [hout] at hnone
  cases hnone

end Supervised

end Tokactor
