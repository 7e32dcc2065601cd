import Tokactor.Proof.Limit

/-!
# Halting an anonymous actor

`AnonymousRef::halt` aborts the wrapper of an anonymous actor. While the wrapper waits for
the task that polls the future, all this drops is the handle it waits on: the task is
detached and goes on, and the permit is free.

* `halt_stops`: a halt stops the future, and the permits bound the futures that have got
  one, if and only if no halt comes while the future's own task is there.
-/

namespace Tokactor

variable {A M : Type}

/-- The task that polls the future is spawned and has not ended. -/
def Anon.inner (a : Anon A M) : Bool :=
  match a.pc with
  | .fresh | .running => true
  | _ => false

def Task.inner : Task A M → Bool
  | .anon a => a.inner
  | _ => false

/-- The task was started with a permit. -/
def Task.tracked : Task A M → Bool
  | .anon a => a.tracked
  | _ => false

namespace Node

/-- The step does not halt a wrapper that waits for the task of its future. -/
def cleanHalt (n : Node A M) : Label A M → Bool
  | .task k (.anon .halt) => n.tasks[k]?.all fun s => !s.task.inner
  | _ => true

/-- Futures alive that acquired a permit. -/
def liveTracked (n : Node A M) : ℕ := n.tally fun t => t.live && t.tracked

end Node

def CleanHalt (n : Node A M) (l : Label A M) : Prop := n.cleanHalt l = true

instance (n : Node A M) (l : Label A M) : Decidable (CleanHalt n l) := inferInstanceAs (Decidable (_ = _))

/-- Halting works in this step. -/
structure HaltStops (n : Node A M) (l : Label A M) : Prop where
  /-- once the abort takes effect the future is gone, the task makes no step and sends
  nothing, whatever comes after -/
  stops : ∀ k n', l = .task k (.anon .halt) → n.step l = some n' → ∃ s s', n.tasks[k]? = some s ∧
    n'.tasks[k]? = some s' ∧ s'.out = s.out ∧ s'.task.live = false ∧
    ∀ ls n'', Lts.run Node.step n' ls = some n'' → n''.tasks[k]? = some s' ∧ ∀ tl, n''.step (.task k tl) = none
  /-- a permit is given back when the future is not running any more -/
  releases : ∀ (k : ℕ) (s s' : Slot A M) n', n.step l = some n' → n.tasks[k]? = some s → n'.tasks[k]? = some s' →
    s.task.permit = true → s'.task.permit = false → s'.task.live = false
  bounded : ∀ n', n.step l = some n' → n'.liveTracked ≤ n'.cfg.maxAnonymousActors

/-! ## Tasks that are done -/

theorem Anon.Moves.not_done {v : View} {a a' : Anon A M} {l : AnonLabel M} {e : Eff A M} (h : a.Moves v l a' e) :
    a.pc ≠ .done := by
  cases h with
  | haltLate hk hh h hd => exact hd
  | haltLive hk hh h => rcases h with h | h <;> rw [h] <;> simp
  | wake out hk h => rcases h with ⟨o, h, -⟩ | ⟨h, -⟩ <;> rw [h] <;> simp
  | _ => simp_all

section

variable {n n' : Node A M} {k : ℕ} {s : Slot A M} {a : Anon A M}

theorem Anon.done_moves {v : View} {t : Task A M} {tl : TaskLabel A M} {e : Eff A M} (ha : s.task = .anon a)
    (hd : a.pc = .done) (h : s.task.Moves v tl t e) : False := by
  rw [ha] at h
  cases h with
  | anon h => exact h.not_done hd

theorem done_step {l : Label A M} (ha : s.task = .anon a) (hd : a.pc = .done) (hs : n.tasks[k]? = some s)
    (h : n.step l = some n') : n'.tasks[k]? = some s := by
  obtain ⟨s', hs', hm⟩ := slot_step h hs
  rcases hm with rfl | ⟨v, tl, e, hm, -⟩
  · exact hs'
  · exact (Anon.done_moves ha hd hm).elim

/-- A task that is done makes no more steps. -/
theorem done_run {ls : List (Label A M)} (ha : s.task = .anon a) (hd : a.pc = .done) (hs : n.tasks[k]? = some s)
    (hr : Lts.run Node.step n ls = some n') : n'.tasks[k]? = some s ∧ ∀ tl, n'.step (.task k tl) = none := by
  have hs' : n'.tasks[k]? = some s :=
    Lts.run_inv (I := fun n => n.tasks[k]? = some s) (fun _ _ _ hs h => done_step ha hd hs h) hs hr
  refine ⟨hs', fun tl => ?_⟩
  by_contra hstep
  obtain ⟨n'', h⟩ := Option.ne_none_iff_exists'.1 hstep
  simp only [Node.step] at h
  split at h
  · cases h
  obtain ⟨s₁, t, e, ht⟩ := Node.taskStep_cases h
  have hslot := ht.slot
  rw [hs'] at hslot
  cases hslot
  exact Anon.done_moves ha hd ht.moves

end

/-! ## Runs without detached futures -/

/-- No future goes on without its wrapper. -/
structure Intact (n : Node A M) : Prop where
  permits : Permits n
  unhalted : ∀ (k : ℕ) (s : Slot A M) a, n.tasks[k]? = some s → s.task = .anon a → a.halted = false

/-- Only a halt of a wrapper that waits for its future's task leaves that task alone. -/
theorem Anon.Moves.halts {v : View} {a a' : Anon A M} {l : AnonLabel M} {e : Eff A M} (h : a.Moves v l a' e)
    (hh : a.halted = false) : a'.halted = false ∨ l = .halt ∧ a.inner = true := by
  cases h with
  | skip h | finish out h | cancel h | lost k j hk h =>
    left
    rcases a.finished_cases _ with ⟨-, he⟩ | ⟨-, -, he⟩ | ⟨-, -, he⟩ <;> rw [he] <;> exact hh
  | panic h =>
    left
    rcases a.unwind_cases with ⟨-, he⟩ | ⟨-, -, he⟩ | ⟨-, -, he⟩ <;> rw [he] <;> exact hh
  | haltLive hk hh' h =>
    refine .inr ⟨rfl, ?_⟩
    rcases h with h | h <;> rw [Anon.inner, h]
  | _ => exact .inl hh

theorem intact_init (cfg : Config) (a : A) : Intact (Node.init cfg a : Node A M) where
  permits := permits_init cfg a
  unhalted k s b hs hb := by
    obtain ⟨kind, rfl⟩ := mem_init_tasks (List.mem_of_getElem? hs)
    cases hb

theorem intact_step {n n' : Node A M} {l : Label A M} (hi : Intact n) (hc : CleanHalt n l) (h : n.step l = some n') :
    Intact n' := by
  refine ⟨permits_step hi.permits h, fun k s' a' hs' ha' => ?_⟩
  rcases slot_origin h hs' with ⟨s, hs, hm⟩ | hfresh
  · rcases hm with rfl | ⟨v, tl, e, hm, hl⟩
    · exact hi.unhalted k _ a' hs ha'
    rw [ha'] at hm
    generalize hst : s.task = st at hm
    cases hm with
    | @anon a _ al _ hm =>
      rcases hm.halts (hi.unhalted k s a hs hst) with hh | ⟨rfl, hin⟩
      · exact hh
      · rcases hl with rfl | ⟨hl, -⟩
        · simp [CleanHalt, Node.cleanHalt, hs, hst, Task.inner, hin] at hc
        · exact absurd rfl hl
  · rw [ha'] at hfresh
    exact hfresh.1

/-- The futures alive with a permit hold theirs. -/
theorem Intact.bounded {n : Node A M} (hi : Intact n) : n.liveTracked ≤ n.cfg.maxAnonymousActors := by
  have hle : n.liveTracked ≤ n.tally Task.permit := by
    refine List.countP_mono_left fun s hs h => ?_
    obtain ⟨k, hk⟩ := List.mem_iff_getElem?.1 hs
    cases ht : s.task with
    | child c | fwd f =>
      rw [ht] at h
      cases h
    | anon a =>
      have hh := hi.unhalted k s a hk ht
      rw [ht] at h
      cases hpc : a.pc <;> cases hkind : a.kind <;>
        simp_all [Task.live, Task.tracked, Task.permit, Anon.live, Anon.permit]
  have hsum := hi.permits.sum
  omega

/-- What a halt does: it ends the task, or leaves the task of the future alone. -/
theorem halt_cases {n n' : Node A M} {k : ℕ} (h : n.step (.task k (.anon .halt)) = some n') :
    ∃ (s s' : Slot A M) (a a' : Anon A M), n.tasks[k]? = some s ∧ n'.tasks[k]? = some s' ∧ s'.out = s.out ∧
      s.task = .anon a ∧ s'.task = .anon a' ∧
      (a.inner = false ∧ a'.pc = .done ∨ a.inner = true ∧ a'.live = true) := by
  simp only [Node.step] at h
  split at h
  · cases h
  obtain ⟨s, t, e, ht⟩ := Node.taskStep_cases h
  have hslot := ht.slot
  have hlt : k < n.tasks.length := (List.getElem?_eq_some_iff.1 hslot).1
  obtain ⟨a, a', ha, rfl, hm⟩ := ht.moves.of_anon
  have hend : e.push = none ∧ (a.inner = false ∧ a'.pc = .done ∨ a.inner = true ∧ a'.live = true) := by
    cases hm with
    | haltLive hk hh hpc =>
      refine ⟨rfl, .inr ?_⟩
      rcases hpc with hpc | hpc <;> simp [Anon.inner, Anon.live, hpc]
    | haltQueued hk hh hpc => exact ⟨rfl, .inl ⟨by rw [Anon.inner, hpc], rfl⟩⟩
    | haltLate hk hh hlive hd =>
      refine ⟨rfl, .inl ⟨?_, rfl⟩⟩
      cases hpc : a.pc <;> simp_all [Anon.inner, Anon.live]
  refine ⟨s, ⟨.anon a', s.out ++ e.push.toList⟩, a, a', hslot, ?_, ?_, ha, rfl, hend.2⟩
  · rw [ht.tasks, List.getElem?_set_self hlt]
  · rw [hend.1]
    exact List.append_nil _

theorem cleanHalt_iff {n : Node A M} {k : ℕ} {s : Slot A M} {a : Anon A M} (hs : n.tasks[k]? = some s)
    (ha : s.task = .anon a) : CleanHalt n (.task k (.anon .halt)) ↔ a.inner = false := by
  simp [CleanHalt, Node.cleanHalt, hs, ha, Task.inner]

theorem Anon.done_live {a : Anon A M} (h : a.pc = .done) : a.live = false := by
  rw [Anon.live, h]

theorem Intact.haltStops {n : Node A M} {l : Label A M} (hi : Intact n) (hc : CleanHalt n l) : HaltStops n l where
  stops k n' hl h := by
    subst hl
    obtain ⟨s, s', a, a', hs, hs', hout, ha, ha', hend⟩ := halt_cases h
    have hin := (cleanHalt_iff hs ha).1 hc
    have hd : a'.pc = .done := by
      rcases hend with ⟨-, hd⟩ | ⟨hin', -⟩
      · exact hd
      · rw [hin] at hin'
        cases hin'
    refine ⟨s, s', hs, hs', hout, ?_, fun ls n'' hr => done_run ha' hd hs' hr⟩
    rw [ha']
    exact Anon.done_live hd
  releases k s s' n' h hs hs' hp hp' := by
    obtain ⟨s'', hs'', hm⟩ := slot_step h hs
    rw [hs'] at hs''
    cases hs''
    rcases hm with rfl | ⟨v, tl, e, hm, hl⟩
    · rw [hp] at hp'
      cases hp'
    -- a permit that comes back while the future is alive is one that a halt detached
    by_contra hlive
    generalize hst : s.task = st at hm hp
    generalize hst' : s'.task = st' at hm hp' hlive
    cases hm with
    | child hm | fwd hm => cases hp
    | @anon a a' al e hm =>
      obtain ⟨hd, rfl⟩ := hm.detaches (by simpa [Task.live] using hlive) hp hp'
      rcases hl with rfl | ⟨hl, -⟩
      · have hin : a.inner = true := by
          simp only [Anon.detaches, Bool.and_eq_true] at hd
          exact hd.2
        rw [(cleanHalt_iff hs hst).1 hc] at hin
        cases hin
      · exact hl rfl
  bounded n' h := (intact_step hi hc h).bounded

/-- **Halting an anonymous actor stops it**, and the futures that got a permit and are alive
stay below the limit, at all steps of a run if and only if no halt comes while the task of
the future is spawned and has not ended. -/
theorem halt_stops {cfg : Config} {a : A} {ls : List (Label A M)} {n : Node A M}
    (hr : Lts.run Node.step (Node.init cfg a) ls = some n) :
    Lts.Along Node.step HaltStops (Node.init cfg a) ls ↔ Lts.Along Node.step CleanHalt (Node.init cfg a) ls := by
  constructor
  · intro h
    apply h.of_run _ hr
    intro n l n' hstep hstops
    by_contra hc
    have hl : ∃ k, l = .task k (.anon .halt) := by
      unfold CleanHalt Node.cleanHalt at hc
      split at hc
      · exact ⟨_, rfl⟩
      · exact absurd rfl hc
    obtain ⟨k, rfl⟩ := hl
    obtain ⟨s, s', -, hs', -, hlive, -⟩ := hstops.stops k n' rfl hstep
    obtain ⟨t, t', a, a', ht, ht', -, ha, ha', hend⟩ := halt_cases hstep
    rw [hs'] at ht'
    cases ht'
    rcases hend with ⟨hin, -⟩ | ⟨-, hlive'⟩
    · exact hc ((cleanHalt_iff ht ha).2 hin)
    · rw [ha'] at hlive
      rw [show a'.live = false from hlive] at hlive'
      cases hlive'
  · intro h
    exact h.of_inv (fun _ _ _ hi hc hs => intact_step hi hc hs) (fun _ _ hi hc => hi.haltStops hc) (intact_init cfg a)

/-- A task is halted before it is polled. -/
def earlyHaltRun : List (Label Unit ℕ) :=
  [.exec (.op .anonymous), .task 0 (.anon .halt), .exec (.op .anonymous), .exec (.ret ())]

theorem halt_stops_earlyHaltRun :
    ∃ n : Node Unit ℕ, Lts.run Node.step (Node.init ⟨4, 1, false, []⟩ ()) earlyHaltRun = some n ∧
      Lts.Along Node.step HaltStops (Node.init ⟨4, 1, false, []⟩ ()) earlyHaltRun := by
  have hr : ∃ n : Node Unit ℕ, Lts.run Node.step (Node.init ⟨4, 1, false, []⟩ ()) earlyHaltRun = some n := ⟨_, rfl⟩
  obtain ⟨n, hr⟩ := hr
  exact ⟨n, hr, (halt_stops hr).2 (by decide)⟩

/-- With a limit of one, a task is halted while its future runs, a second one gets the
permit, and the future of the first one goes on to its end. -/
def detachedRun : List (Label Unit ℕ) :=
  [.exec (.op .anonymous), .task 0 (.anon .spawn), .task 0 (.anon .poll), .task 0 (.anon .halt),
    .exec (.op .anonymous), .task 1 (.anon .spawn), .task 1 (.anon .poll)]

/-- **A halted future goes on** without its permit, and two futures that acquired the only
permit are alive. -/
theorem halt_detaches :
    ∃ n : Node Unit ℕ, Lts.run Node.step (Node.init ⟨4, 1, false, []⟩ ()) detachedRun = some n ∧
      n.liveTracked = 2 ∧ (n.step (.task 0 (.anon (.finish 7)))).isSome = true ∧
      ¬ Lts.Along Node.step HaltStops (Node.init ⟨4, 1, false, []⟩ ()) detachedRun := by
  have hr : ∃ n : Node Unit ℕ, Lts.run Node.step (Node.init ⟨4, 1, false, []⟩ ()) detachedRun.dropLast = some n ∧
      ∃ n', n.step (.task 1 (.anon .poll)) = some n' ∧ n'.liveTracked = 2 ∧ n'.cfg.maxAnonymousActors = 1 ∧
      (n'.step (.task 0 (.anon (.finish 7)))).isSome = true :=
    ⟨_, rfl, _, rfl, rfl, rfl, rfl⟩
  obtain ⟨n, hr, n', hstep, htwo, hmax, hgoes⟩ := hr
  refine ⟨n', Lts.run_concat hr hstep, htwo, hgoes, fun h => ?_⟩
  have hlast : HaltStops n (.task 1 (.anon .poll)) := by
    have hsplit : detachedRun = detachedRun.dropLast ++ [.task 1 (.anon .poll)] := rfl
    rw [hsplit] at h
    exact (h.drop hr).1
  have hbound := hlast.bounded n' hstep
  rw [htwo, hmax] at hbound
  omega

end Tokactor
