import Tokactor.Proof.Receivers

/-!
# The results of anonymous actors

What an actor gets to handle of a future it has started with `Ctx::anonymous`.

* `Reporting`: how far the result of such a task has got, by where the task stands.
* `anonymous_reported`: when `on_end` is called the actor has handled one message of the
  task, its output or the notice that it was cancelled.
-/

namespace Tokactor

variable {A M : Type}

/-- What an anonymous actor tells its parent: the output of its future, or that it has none. -/
def resultOf : Option M → Body A M
  | some m => .user m
  | none => .cancelled .cancel

/-- The outputs of the future of task `k` in a run. -/
def outputs (k : ℕ) (ls : List (Label A M)) : List M :=
  ls.filterMap fun
    | .task i (.anon (.finish m)) => if i = k then some m else none
    | _ => none

theorem outputs_concat (k : ℕ) (ls : List (Label A M)) (l : Label A M) :
    outputs k (ls ++ [l]) = outputs k ls ++ outputs k [l] :=
  List.filterMap_append

/-- The step calls `abort`, halts task `k`, or lets its future panic. -/
def Label.disturbs (k : ℕ) : Label A M → Bool
  | .exec (.op .abort) => true
  | .task i (.anon .halt) | .task i (.anon .panic) => i == k
  | _ => false

/-- The step does not. -/
def Undisturbed (k : ℕ) (_ : Node A M) (l : Label A M) : Prop := l.disturbs k = false

instance (k : ℕ) (n : Node A M) (l : Label A M) : Decidable (Undisturbed k n l) := inferInstanceAs (Decidable (_ = _))

theorem Undisturbed.noAbort {k : ℕ} {n : Node A M} {l : Label A M} (h : Undisturbed k n l) : NoAbort n l := by
  unfold NoAbort Label.isAbort
  split
  · cases h
  · rfl

/-! ## One task -/

/-- The task was started by `anonymous` and its future has yielded `o` so far: where the
task stands, and what it has sent. -/
def Reporting (o : Option M) (s : Slot A M) : Prop :=
  ∃ a, s.task = .anon a ∧ a.kind = .anonymous ∧ a.halted = false ∧
    match a.pc with
    | .queued | .fresh | .running => o = none ∧ s.out = []
    | .returned o' => o' = o ∧ s.out = []
    | .sending b => b = resultOf o ∧ s.out = []
    | .sent b => b = resultOf o ∧ s.out = [b]
    | .closing | .done => s.out = [resultOf o]
    | .crashed => False

/-- Without a receiver the task has sent its result. -/
theorem Reporting.sent {o : Option M} {s : Slot A M} (h : Reporting o s) (hrx : s.task.rx = false) :
    s.out = [resultOf o] := by
  obtain ⟨a, ht, hk, -, hpc⟩ := h
  rw [ht] at hrx
  simp only [Task.rx, Anon.rx, hk] at hrx
  cases h : a.pc with
  | closing | done => rwa [h] at hpc
  | crashed => rw [h] at hpc; exact hpc.elim
  | queued | fresh | running | returned _ => rw [h] at hrx; cases hrx
  | sending b | sent b =>
    rw [h] at hrx hpc
    obtain ⟨rfl, -⟩ := hpc
    cases o <;> cases hrx

/-- What the future yields in a step of its task. -/
def AnonLabel.output : AnonLabel M → Option M
  | .finish m => some m
  | _ => none

/-- **A step of the task takes its result further**, unless it is halted, panics, or is
refused by the mailbox. -/
theorem Reporting.step {o : Option M} {s : Slot A M} {v : View} {l : AnonLabel M} {t : Task A M} {e : Eff A M}
    (h : Reporting o s) (hm : s.task.Moves v (.anon l) t e) (hhalt : l ≠ .halt) (hpanic : l ≠ .panic)
    (hopen : s.task.rx = true → v.closed = false) :
    ∃ o', o'.toList = o.toList ++ l.output.toList ∧ Reporting o' ⟨t, s.out ++ e.push.toList⟩ := by
  obtain ⟨a, ht, hk, hh, hpc⟩ := h
  rw [ht] at hm hopen
  cases hm with
  | anon hm =>
    -- an unhalted wrapper gets whatever the inner task returns
    have hfin : ∀ o', a.finished o' = ({ a with pc := .returned o' }, { answer := a.answer o' }) := by
      intro o'
      unfold Anon.finished
      rw [if_neg (by rw [hh]; decide), hk]
    cases hm with
    | spawn h | poll h hs =>
      rw [h] at hpc
      exact ⟨o, by simp [AnonLabel.output], _, rfl, hk, hh, by simpa using hpc⟩
    | skip h hs | cancel h hs =>
      rw [h] at hpc
      rw [hfin none]
      exact ⟨o, by simp [AnonLabel.output], _, rfl, hk, hh, by simpa using ⟨hpc.1.symm, hpc.2⟩⟩
    | finish m h =>
      rw [h] at hpc
      obtain ⟨rfl, hout⟩ := hpc
      rw [hfin (some m)]
      exact ⟨some m, rfl, _, rfl, hk, hh, by simpa using hout⟩
    | lost i j hk' h => rw [hk] at hk'; cases hk'
    | panic h => exact absurd rfl hpanic
    | wake out hk' h =>
      rcases h with ⟨o', h, rfl⟩ | ⟨h, rfl⟩
      · rw [h] at hpc
        obtain ⟨rfl, hout⟩ := hpc
        refine ⟨o', by simp [AnonLabel.output], _, rfl, hk, hh, ?_⟩
        cases o' <;> simpa [Anon.report, hk, resultOf] using hout
      · rw [h] at hpc
        exact hpc.elim
    | send b h =>
      rw [h] at hpc
      exact ⟨o, by simp [AnonLabel.output], _, rfl, hk, hh, by simpa using hpc⟩
    | refused b h hc =>
      -- the receiver of the notifier is held across the send
      rw [h] at hpc
      have hrx : Task.rx (.anon a : Task A M) = true := by
        simp only [Task.rx, Anon.rx, h, hk, hpc.1]
        cases o <;> rfl
      rw [hopen hrx] at hc
      cases hc
    | drop b h =>
      rw [h] at hpc
      obtain ⟨rfl, hout⟩ := hpc
      exact ⟨o, by simp [AnonLabel.output], _, rfl, hk, hh, by simpa using hout⟩
    | release h =>
      rw [h] at hpc
      exact ⟨o, by simp [AnonLabel.output], _, rfl, hk, hh, by simpa using hpc⟩
    | haltQueued hk' hh' h | haltLive hk' hh' h | haltLate hk' hh' h hd => exact absurd rfl hhalt
    | take out hk' h => rw [hk] at hk'; cases hk'

/-! ## The task and its actor -/

/-- Task `k` was started by `anonymous` and its future has yielded `os`; past `stopping` it
holds no receiver. -/
def Carried (k : ℕ) (os : List M) (n : Node A M) : Prop :=
  ∃ o s, n.tasks[k]? = some s ∧ o.toList = os ∧ Reporting o s ∧ (n.Late → s.task.rx = false)

/-- The two tasks of a `join` are a `reply` task and a handle. -/
theorem join_kinds {n n' : Node A M} {i h : ℕ} (hj : n.join i h = some n') :
    ∃ a b : Anon A M, n.tasks[i]?.map Slot.task = some (.anon a) ∧ a.kind ≠ .anonymous ∧
      n.tasks[h]?.map Slot.task = some (.anon b) ∧ b.kind ≠ .anonymous := by
  unfold Node.join at hj
  split at hj
  · rename_i hi hh
    exact ⟨_, _, hi, by simp, hh, by simp⟩
  · cases hj

/-- The output of task `k` in a step of another task, or of no task. -/
theorem outputs_other {k : ℕ} {l : Label A M} (h : ∀ tl, l ≠ .task k tl) : outputs k [l] = [] := by
  unfold outputs
  rw [List.filterMap_cons]
  split
  · rfl
  · rename_i m hm
    split at hm
    · split at hm
      · rename_i i m' hi
        subst hi
        exact absurd rfl (h _)
      · cases hm
    · cases hm

/-- A step that leaves task `k` alone. -/
theorem Carried.other {k : ℕ} {os : List M} {n n' : Node A M} (hc : Carried k os n)
    (ht : ∀ s, n.tasks[k]? = some s → n'.tasks[k]? = some s)
    (hl : n'.Late → n.Late ∨ n.isClosed = true) : Carried k os n' := by
  obtain ⟨o, s, hs, ho, hr, hlate⟩ := hc
  refine ⟨o, s, ht s hs, ho, hr, fun h => ?_⟩
  rcases hl h with h | h
  · exact hlate h
  · exact (Node.isClosed_iff n).1 h s (List.mem_of_getElem? hs)

/-- A step of one task leaves the others alone. -/
theorem Node.Tasked.other {n n' : Node A M} {i k : ℕ} {l : TaskLabel A M} {s : Slot A M} {t : Task A M}
    {e : Eff A M} (h : Node.Tasked n i l n' s t e) (hik : i ≠ k) : n'.tasks[k]? = n.tasks[k]? := by
  rw [h.tasks, List.getElem?_set_ne hik]

/-- A step of task `k` itself. -/
theorem carried_own {k : ℕ} {os : List M} {n n' : Node A M} {l : TaskLabel A M} (hd : Doors n)
    (hf : n.pc.stage ≠ .failed) (hc : Carried k os n) (hq : Undisturbed k n (.task k l))
    (h : n.step (.task k l) = some n') : Carried k (os ++ outputs k [.task k l]) n' := by
  obtain ⟨s₀, t, e, ht⟩ : ∃ s t e, Node.Tasked n k l n' s t e := by
    simp only [Node.step] at h
    split at h
    · cases h
    · exact Node.taskStep_cases h
  obtain ⟨o, s, hs, rfl, hr, hlate⟩ := hc
  obtain rfl : s = s₀ := Option.some.inj (hs.symm.trans ht.slot)
  -- while the task holds its receiver the mailbox is open
  have hopen : s.task.rx = true → n.view.closed = false := by
    intro hrx
    by_contra hcl
    have hlate := hlate (late_of_rank hf (hd.closed (by simpa [Node.view] using hcl)))
    rw [hrx] at hlate
    cases hlate
  obtain ⟨al, rfl⟩ : ∃ al, l = .anon al := by
    obtain ⟨a, ha, -⟩ := hr
    have hm := ht.moves
    rw [ha] at hm
    cases hm with
    | anon hm => exact ⟨_, rfl⟩
  have hhalt : al ≠ .halt := by
    rintro rfl
    simp [Undisturbed, Label.disturbs] at hq
  have hpanic : al ≠ .panic := by
    rintro rfl
    simp [Undisturbed, Label.disturbs] at hq
  obtain ⟨o', ho', hr'⟩ := hr.step ht.moves hhalt hpanic hopen
  refine ⟨o', _, ?_, ?_, hr', fun hl => ?_⟩
  · rw [ht.tasks, List.getElem?_set_self (List.getElem?_eq_some_iff.1 ht.slot).1]
  · rw [ho']
    cases al <;> simp [outputs, AnonLabel.output]
  · by_contra hrx
    have hold := ht.moves.rx (by simpa using hrx)
    rw [hlate (late_congr ht.outside.pc hl)] at hold
    cases hold

/-- Every other step leaves task `k` alone, and gets past `stopping` when there is no
receiver. -/
theorem carried_other {k : ℕ} {os : List M} {n n' : Node A M} {l : Label A M} (hc : Carried k os n)
    (hl : ∀ tl, l ≠ .task k tl) (h : n.step l = some n') : Carried k os n' := by
  cases Node.step_rule h with
  | exec x hx =>
    refine hc.other (fun s hs => ?_) fun hl => (exec_late hx hl).imp_right fun h => h.2.1
    rcases Node.exec_tasks hx with ⟨ht, -⟩ | ⟨t, ht, -⟩
    · rw [ht, hs]
    · rw [ht, List.getElem?_append_left (List.getElem?_eq_some_iff.1 hs).1, hs]
  | task j tl s t e hb ht =>
    have hjk : j ≠ k := by
      rintro rfl
      exact hl tl rfl
    exact hc.other (fun s hs => by rw [ht.other hjk, hs]) fun hl => .inl (late_congr ht.outside.pc hl)
  | join i j n₁ al hj =>
    -- a join takes part in two tasks, and neither is the one that carries the outputs
    have hne : ∀ i (a : Anon A M), n.tasks[i]?.map Slot.task = some (.anon a) → a.kind ≠ .anonymous → i ≠ k := by
      rintro i a hi ha rfl
      obtain ⟨o, s, hs, -, ⟨a', ha', hk, -⟩, -⟩ := hc
      rw [hs, Option.map_some, ha'] at hi
      cases hi
      exact ha hk
    obtain ⟨a, b, hi, ha, hh, hb⟩ := join_kinds h
    obtain ⟨s, t, e, ht⟩ := Node.taskStep_cases hj.join
    have h₁ : n₁.tasks[k]? = n.tasks[k]? ∧ n₁.pc = n.pc := by
      rcases hj.taken with rfl | h₁
      · exact ⟨rfl, rfl⟩
      · obtain ⟨s', t', e', ht'⟩ := Node.taskStep_cases h₁
        exact ⟨ht'.other (hne j b hh hb), ht'.outside.pc⟩
    exact hc.other (fun s hs => by rw [ht.other (hne i a hi ha), h₁.1, hs])
      fun hl => .inl (late_congr (ht.outside.pc.trans h₁.2) hl)
  | send r b hr hs => exact hc.other (fun s hs => by rw [hr.tasks, hs]) fun hl => .inl (late_congr hr.outside.pc hl)
  | quiet l hr hw ha => exact hc.other (fun s hs => by rw [hr.tasks, hs]) fun hl => .inl (late_congr hr.outside.pc hl)

/-- **A step of the actor or of its tasks keeps track of task `k`.** -/
theorem carried_step {k : ℕ} {os : List M} {n n' : Node A M} {l : Label A M} (hd : Doors n)
    (hf : n.pc.stage ≠ .failed) (hc : Carried k os n) (hq : Undisturbed k n l) (h : n.step l = some n') :
    Carried k (os ++ outputs k [l]) n' := by
  by_cases hl : ∃ tl, l = .task k tl
  · obtain ⟨tl, rfl⟩ := hl
    exact carried_own hd hf hc hq h
  · have hl : ∀ tl, l ≠ .task k tl := fun tl htl => hl ⟨tl, htl⟩
    rw [outputs_other hl, List.append_nil]
    exact carried_other hc hl h

/-- A panicked executor stays so. -/
theorem failed_step {n n' : Node A M} {l : Label A M} (hf : n.pc.stage = .failed) (h : n.step l = some n') :
    n'.pc.stage = .failed := by
  rcases Node.step_outside h with ⟨x, -, hx⟩ | ⟨ms, ho⟩
  · exact (exec_failed hx hf).elim
  · rw [ho.pc, hf]

/-- A fresh task of `anonymous` has yielded nothing. -/
theorem carried_start {n n' : Node A M} (hearly : ¬ n.Late) (h : n.step (.exec (.op .anonymous)) = some n') :
    Carried n.tasks.length [] n' := by
  rw [Node.exec_op h]
  obtain ⟨tracked, ht⟩ := Node.anonymous_tasks n .anonymous
  refine ⟨none, ⟨.anon { kind := .anonymous, tracked, halted := false, pc := .queued }, []⟩, ?_, rfl, ?_, fun hl => ?_⟩
  · show (n.anonymous .anonymous).tasks[n.tasks.length]? = _
    rw [ht, List.getElem?_concat_length]
    rfl
  · exact ⟨_, rfl, rfl, rfl, rfl, rfl⟩
  · exact absurd (late_congr (Node.anonymous_kept n .anonymous).pc hl) hearly

/-- **A run of the actor keeps track of task `k`.** -/
theorem carried_run {k : ℕ} {ls : List (Label A M)} {n n' : Node A M} (hd : Doors n) (hc : Carried k [] n)
    (hq : Lts.Along Node.step (Undisturbed k) n ls) (hr : Lts.run Node.step n ls = some n') :
    Doors n' ∧ (n'.pc.stage = .failed ∨ Carried k (outputs k ls) n') := by
  refine Lts.run_history (I := fun ls n => Doors n ∧ (n.pc.stage = .failed ∨ Carried k (outputs k ls) n))
    ?_ ⟨hd, .inr hc⟩ hq hr
  rintro ls n l n' ⟨hd, hc⟩ hq h
  refine ⟨doors_step hd hq.noAbort h, ?_⟩
  rcases hc with hf | hc
  · exact .inl (failed_step hf h)
  · by_cases hf : n.pc.stage = .failed
    · exact .inl (failed_step hf h)
    · right
      rw [outputs_concat]
      exact carried_step hd hf hc hq h

/-- **The result of an anonymous actor reaches its parent.** A future that was started with
`anonymous` before `on_stopped`, and neither halted nor panicked: when `on_end` is called in a
run without `abort`, the actor has handled exactly one message of it, its output if it has
yielded one and the notice of its cancellation otherwise. -/
theorem anonymous_reported {cfg : Config} {a : A} {k : ℕ} {ls ls' : List (Label A M)} {n₀ n : Node A M}
    (h₀ : Lts.run Node.step (Node.init cfg a) ls = some n₀) (hk : n₀.tasks.length = k) (hearly : ¬ n₀.Late)
    (hr : Lts.run Node.step n₀ (.exec (.op .anonymous) :: ls') = some n)
    (hq : Lts.Along Node.step (Undisturbed k) (Node.init cfg a) (ls ++ .exec (.op .anonymous) :: ls'))
    (hend : n.pc = .onEnd) :
    ∃ o : Option M, outputs k ls' = o.toList ∧ sentBy k (handledOf n.trace) = [resultOf o] := by
  have hr₀ : Lts.run Node.step (Node.init cfg a) (ls ++ .exec (.op .anonymous) :: ls') = some n :=
    Lts.run_append.2 ⟨n₀, h₀, hr⟩
  have hab : Lts.Along Node.step NoAbort (Node.init cfg a) (ls ++ .exec (.op .anonymous) :: ls') :=
    hq.mono fun n l h => h.noAbort
  obtain ⟨n₁, h₁, hr₁⟩ := Lts.run_cons.1 hr
  have hd₁ : Doors n₁ := doors_step (doors_run hab.take h₀) (hab.drop h₀).1 h₁
  subst hk
  obtain ⟨hd, hc⟩ := carried_run hd₁ (carried_start hearly h₁) ((hq.drop h₀).2 n₁ h₁) hr₁
  obtain ⟨o, s, hs, ho, hrep, hlate⟩ := hc.resolve_left (by rw [hend]; simp [Pc.stage])
  have hst : n.pc.stage = .ended := by rw [hend]; rfl
  refine ⟨o, ho.symm, ?_⟩
  rw [(ended_handled hd.life hst).2, outbox_run hr₀]
  unfold Node.outOf
  rw [hs]
  exact hrep.sent (hlate (.inr hst))

/-- An actor gets a message. -/
def handlerRun : List (Label Unit ℕ) :=
  [.exec (.ret ()), .send (.user 5), .exec .recv, .exec .go, .exec .go, .exec (.ret ())]

/-- In its handler it has started a future and stopped; the future yields after the
broadcast of `Shutdown`. -/
def lateResultRun : List (Label Unit ℕ) :=
  [.exec (.op .stop), .exec (.ret ()), .task 0 (.anon .spawn), .task 0 (.anon .poll), .exec (.ret ()), .exec (.ret ()),
    .exec .go, .exec .go, .task 0 (.anon (.finish 7)), .task 0 (.anon .wake), .task 0 (.anon .send), .exec .recv,
    .task 0 (.anon .drop), .exec .go, .exec (.ret ()), .exec (.ret ()), .exec (.ret ()), .exec .go, .exec (.ret ()),
    .exec .go, .exec .none]

theorem anonymous_reported_lateResultRun :
    ∃ n₀ n : Node Unit ℕ, Lts.run Node.step (Node.init ⟨4, 1, false, []⟩ ()) handlerRun = some n₀ ∧
      Lts.run Node.step n₀ (.exec (.op .anonymous) :: lateResultRun) = some n ∧ n.pc = .onEnd ∧
      ∃ o : Option ℕ, outputs 0 lateResultRun = o.toList ∧ sentBy 0 (handledOf n.trace) = [resultOf o] := by
  have h₀ : ∃ n₀ n : Node Unit ℕ, Lts.run Node.step (Node.init ⟨4, 1, false, []⟩ ()) handlerRun = some n₀ ∧
      n₀.tasks.length = 0 ∧ n₀.pc.stage = .main ∧
      Lts.run Node.step n₀ (.exec (.op .anonymous) :: lateResultRun) = some n ∧ n.pc = .onEnd :=
    ⟨_, _, rfl, rfl, rfl, rfl, rfl⟩
  obtain ⟨n₀, n, h₀, hk, hmain, hr, hend⟩ := h₀
  have hearly : ¬ n₀.Late := by
    rintro (h | h) <;> rw [hmain] at h <;> cases h
  exact ⟨n₀, n, h₀, hr, hend, anonymous_reported h₀ hk hearly hr (by decide) hend⟩

end Tokactor
