import Tokactor.Proof.Awaiters
import Tokactor.Proof.Receivers

/-!
# The assertion of `stop`

`stopping` returns when no receiver of the notifier is left. Then `on_stopped` runs with the
context in its hands, and after it `stop` asserts that there is still none.

* `stop_holds`: the assertion holds, and the awaiter of the actor gets it, if and only if the
  tasks that `on_stopped` has started hold no receiver any more when it is evaluated.
-/

namespace Tokactor

open Cells

variable {A M : Type}

/-- The task that the step starts in `on_stopped`. -/
def Node.lateStart (n : Node A M) (l : Label A M) : List ℕ :=
  match n.pc with
  | .onStopped => if l.starts then [n.tasks.length] else []
  | _ => []

/-- Task `k` holds a receiver of the notifier. -/
def Node.listens (n : Node A M) (k : ℕ) : Bool := n.tasks[k]?.any fun s => s.task.rx

/-- When the assertion of `stop` is evaluated, none of the tasks `p.2` holds a receiver. -/
def LateGone (p : Node A M × List ℕ) (l : Label A M) : Prop :=
  l.isExec = true → p.1.pc.asserts = true → ∀ k ∈ p.2, p.1.listens k = false

instance (p : Node A M × List ℕ) (l : Label A M) : Decidable (LateGone p l) :=
  inferInstanceAs (Decidable (_ → _ → _))

/-- In the run of `ls` from `n₀` to `n` the assertion of `stop` holds and costs nobody the
actor. -/
structure StopHolds (n₀ : Node A M) (ls : List (Label A M)) (n : Node A M) : Prop where
  closed : Lts.Along Node.step AssertionHolds n₀ ls
  passes : n.pc ≠ .panicked .assertion
  /-- when the executor is over, the last request has the actor, or its caller went away -/
  served : n.pc.over = true ∨ n.pc = .panicked .assertion → ∀ w, (awaitIds n.mailbox.accepted).getLast? = some w →
    At n.awaits w fun c => c.Got n.actor

/-! ## Receivers between `stopping` and `stop` -/

/-- The executor has left `stopping` and has not passed the assertion. -/
def Pc.settling : Pc A M → Bool
  | .onStopped | .assertClosed => true
  | _ => false

theorem Pc.settling_stage {pc : Pc A M} (h : pc.settling = true) : pc.stage = .stopped := by
  unfold Pc.settling at h
  split at h <;> first | rfl | cases h

/-- There only the tasks `os` may hold a receiver. -/
def Settling (n : Node A M) (os : List ℕ) : Prop := n.pc.settling = true → ∀ k, n.listens k = true → k ∈ os

theorem listens_iff {n : Node A M} {k : ℕ} : n.listens k = true ↔ ∃ s, n.tasks[k]? = some s ∧ s.task.rx = true := by
  unfold Node.listens
  rw [Option.any_eq_true]

theorem isClosed_listens {n : Node A M} : n.isClosed = true ↔ ∀ k, n.listens k = false := by
  rw [Node.isClosed_iff]
  constructor
  · intro h k
    by_contra hk
    obtain ⟨s, hs, hrx⟩ := listens_iff.1 (by simpa using hk)
    rw [h s (List.mem_of_getElem? hs)] at hrx
    cases hrx
  · intro h s hs
    obtain ⟨k, hk⟩ := List.mem_iff_getElem?.1 hs
    by_contra hrx
    have hlis := listens_iff.2 ⟨s, hk, by simpa using hrx⟩
    rw [h k] at hlis
    cases hlis

/-- `on_stopped` is called when no receiver is left, and the assertion follows it. -/
theorem exec_settling {n n' : Node A M} {x : Act A M} (h : n.exec x = some n') (hd : n'.pc.settling = true) :
    n'.isClosed = true ∨ n.pc = .onStopped := by
  rcases Node.exec_flow (Node.exec_rule h) with ⟨c, -, rfl⟩ | hf
  · cases hd
  have hcloses : ∀ pc, n.pc = pc → pc = .isClosed ∨ pc = .recheck → n'.isClosed = true := by
    intro pc hpc hor
    have hgo : ∀ m : Node A M, some (if n.isClosed then n.stoppingDone else m) = some n' → m.pc.settling = false →
        n'.isClosed = true := by
      intro m hm hset
      split at hm
      · rename_i hcl
        cases hm
        exact hcl
      · cases hm
        rw [hset] at hd
        cases hd
    rcases hor with rfl | rfl <;> simp only [Node.exec, hpc] at h <;> split at h
    · exact hgo _ h rfl
    · cases h
    · exact hgo _ h rfl
    · cases h
  generalize hq : n.pc = pc at hf
  generalize hq' : n'.pc = pc' at hf hd
  cases hf with
  | stay =>
    unfold Pc.settling at hd
    split at hd
    · exact .inr rfl
    · -- the assertion is left at once
      simp only [Node.exec, hq] at h
      split at h
      · split at h <;> cases h <;> cases hq'
      · cases h
    · cases hd
  | onStopped hpc => exact .inl (hcloses pc hq hpc)
  | assertClosed hpc => exact .inr hpc
  | loop _ _ h' => rcases h' with rfl | rfl <;> cases hd
  | took m _ h => unfold Pc.took at h; split at h <;> cases h <;> cases hd
  | finish _ _ h' => rcases h' with rfl | rfl | rfl <;> cases hd
  | _ => cases hd

theorem settling_exec {n n' : Node A M} {x : Act A M} {os : List ℕ} (hs : n.pc.settling = true → n.state ≠ .running)
    (hi : Settling n os) (h : n.exec x = some n') : Settling n' (os ++ n.lateStart (.exec x)) := by
  intro hd k hk
  rcases exec_settling h hd with hcl | hpc
  · rw [isClosed_listens.1 hcl k] at hk
    cases hk
  have hlate : n.pc.settling = true := by rw [hpc]; rfl
  by_cases hst : (Label.exec x : Label A M).starts = true
  · -- one task more
    rcases Node.exec_tasks (Node.exec_rule h) with ⟨ht, -⟩ | ⟨t, ht, -⟩
    · refine List.mem_append_left _ (hi hlate k ?_)
      rwa [Node.listens, ← ht]
    · obtain ⟨s, hs, hrx⟩ := listens_iff.1 hk
      rw [ht] at hs
      by_cases hlt : k < n.tasks.length
      · rw [List.getElem?_append_left hlt] at hs
        exact List.mem_append_left _ (hi hlate k (listens_iff.2 ⟨s, hs, hrx⟩))
      · have hlen := (List.getElem?_eq_some_iff.1 hs).1
        rw [List.length_append, List.length_singleton] at hlen
        have hkl : k = n.tasks.length := by omega
        apply List.mem_append_right
        simp [Node.lateStart, hpc, hst, hkl]
  · have ht := Node.exec_quiet (Node.exec_rule h) (by simpa using hst) (hs hlate)
    refine List.mem_append_left _ (hi hlate k ?_)
    rwa [Node.listens, ← ht]

theorem settling_step {n n' : Node A M} {l : Label A M} {os : List ℕ} (hl : LifeOK n) (hi : Settling n os)
    (h : n.step l = some n') : Settling n' (os ++ n.lateStart l) := by
  have hstate : n.pc.settling = true → n.state ≠ .running := by
    intro hd
    rcases hl with hf | ⟨h, hl⟩
    · rw [Pc.settling_stage hd] at hf
      cases hf
    · exact hl.state (by rw [Pc.settling_stage hd]; decide)
  have hi' : Settling n (os ++ n.lateStart l) := fun hd k hk => List.mem_append_left _ (hi hd k hk)
  refine Node.step_keeps (I := fun n' => Settling n' (os ++ n.lateStart l)) hi' h ?_ ?_ ?_
  · rintro x rfl -
    exact settling_exec hstate hi h
  · intro n₁ k tl n₂ s t e hi₁ _ hk hd j hj
    rw [hk.outside.pc] at hd
    refine hi₁ hd j (listens_iff.2 ?_)
    obtain ⟨s', hs', hrx⟩ := listens_iff.1 hj
    rw [hk.tasks] at hs'
    by_cases hjk : k = j
    · -- the task that moves held its receiver before
      subst hjk
      rw [List.getElem?_set_self (List.getElem?_eq_some_iff.1 hk.slot).1] at hs'
      cases hs'
      exact ⟨s, hk.slot, hk.moves.rx hrx⟩
    · rw [List.getElem?_set_ne hjk] at hs'
      exact ⟨s', hs', hrx⟩
  · intro ms hr hd k hk
    rw [hr.outside.pc] at hd
    refine hi' hd k ?_
    rwa [Node.listens, ← hr.tasks]

/-! ## The assertion holds -/

theorem asserts_iff {n : Node A M} {l : Label A M} {os : List ℕ} (hi : Settling n os) :
    AssertionHolds n l ↔ LateGone (n, os) l := by
  constructor
  · intro hA hl hpc k _
    exact isClosed_listens.1 (hA hl hpc) k
  · intro hg hl hpc
    rw [isClosed_listens]
    intro k
    by_contra hk
    have hlate : n.pc.settling = true := by
      change n.pc.asserts = true at hpc
      unfold Pc.asserts at hpc
      split at hpc
      · rename_i hq
        rw [hq]
        rfl
      · cases hpc
    have hk' : n.listens k = true := by simpa using hk
    have hgone : n.listens k = false := hg hl hpc k (hi hlate k hk')
    exact hk hgone

theorem asserts_run {cfg : Config} {a : A} {ls : List (Label A M)} :
    Lts.Along Node.step AssertionHolds (Node.init cfg a) ls ↔
      Lts.Along (Lts.record Node.step Node.lateStart) LateGone (Node.init cfg a, []) ls := by
  have hstep : ∀ (p : Node A M × List ℕ) l q, LifeOK p.1 ∧ Settling p.1 p.2 →
      Lts.record Node.step Node.lateStart p l = some q → LifeOK q.1 ∧ Settling q.1 q.2 := by
    intro p l q hi hq
    obtain ⟨n', hs, rfl⟩ := Lts.record_some.1 hq
    exact ⟨lifeOK_step hi.1 hs, settling_step hi.1 hi.2 hs⟩
  have h0 : LifeOK (Node.init cfg a : Node A M) ∧ Settling (Node.init cfg a : Node A M) [] :=
    ⟨.inr ⟨_, life_init cfg a⟩, fun h => by cases h⟩
  have hrecord : Lts.Along (Lts.record Node.step Node.lateStart) (fun p l => AssertionHolds p.1 l)
      (Node.init cfg a, []) ls ↔ Lts.Along Node.step AssertionHolds (Node.init cfg a) ls := Lts.Along.record_iff
  rw [← hrecord]
  constructor
  · exact Lts.Along.of_inv (fun p l q hi _ => hstep p l q hi) (fun p l hi => (asserts_iff hi.2).1) h0
  · exact Lts.Along.of_inv (fun p l q hi _ => hstep p l q hi) (fun p l hi => (asserts_iff hi.2).2) h0

/-- Where the assertion holds it does not fail. -/
theorem passes_run {cfg : Config} {a : A} {ls : List (Label A M)} {n : Node A M}
    (hA : Lts.Along Node.step AssertionHolds (Node.init cfg a) ls)
    (hr : Lts.run Node.step (Node.init cfg a) ls = some n) : n.pc ≠ .panicked .assertion := by
  refine Lts.run_along (I := fun n => n.pc ≠ .panicked .assertion) ?_ (fun h => by cases h) hA hr
  intro n l n' hi hA h hpc
  rcases Node.step_outside h with ⟨x, rfl, hx⟩ | ⟨ms, ho⟩
  · obtain ⟨-, hassert, hopen⟩ := exec_panics hx hpc hi
    have hcl := hA rfl (by rw [hassert]; rfl)
    rw [hopen] at hcl
    cases hcl
  · exact hi (ho.pc ▸ hpc)

theorem Pc.outcome_over {pc : Pc A M} {a : A} {c : Await A} (ho : pc.over = true) (hc : pc.outcome a c) : c.Got a := by
  unfold Pc.over at ho
  split at ho
  · exact hc
  · exact hc
  · exact .inr (.inr hc)
  · cases ho

/-- **The assertion of `stop` holds**, and the awaiter gets its actor, if and only if whenever
it is evaluated the tasks that `on_stopped` has started hold no receiver any more. -/
theorem stop_holds {cfg : Config} {a : A} {ls : List (Label A M)} {n : Node A M}
    (hr : Lts.run Node.step (Node.init cfg a) ls = some n) :
    StopHolds (Node.init cfg a) ls n ↔
      Lts.Along (Lts.record Node.step Node.lateStart) LateGone (Node.init cfg a, []) ls := by
  rw [← asserts_run]
  constructor
  · exact StopHolds.closed
  · intro hA
    have hpass := passes_run hA hr
    refine ⟨hA, hpass, ?_⟩
    intro hover w hw
    have hov : n.pc.over = true := hover.resolve_right hpass
    have hst : n.pc.stage = .ended ∧ n.pc.hand = none := by
      unfold Pc.over at hov
      split at hov
      · rename_i hpc; rw [hpc]; exact ⟨rfl, rfl⟩
      · rename_i hpc; rw [hpc]; exact ⟨rfl, rfl⟩
      · rename_i hpc; rw [hpc]; exact ⟨rfl, rfl⟩
      · cases hov
    obtain ⟨h, ha⟩ := (awaiters_run hr).resolve_left (by rw [hst.1]; decide)
    obtain ⟨h', hl⟩ := (life_run hr).resolve_left (by rw [hst.1]; decide)
    have hac : awaitIds n.mailbox.accepted = awaitIds h := by
      rw [ha.accepted, hl.empty hst.1, hst.2]
      simp
    exact (ha.last w (hac ▸ hw)).mono fun c hc => Pc.outcome_over hov hc

/-- The task that `on_stopped` starts is over before the assertion. -/
def quickTaskRun : List (Label Unit ℕ) :=
  [.exec (.ret ()), .send (.await true), .exec .recv, .exec .go, .exec .go, .exec (.ret ()), .exec .go,
    .exec (.ret ()), .exec (.ret ()), .exec .go, .exec (.op .anonymousTask), .task 0 (.anon .spawn),
    .task 0 (.anon .poll), .task 0 (.anon (.finish 0)), .task 0 (.anon .wake), .exec (.ret ()), .exec .go,
    .exec .none, .exec (.ret ()), .exec .go]

theorem stop_holds_quickTaskRun :
    ∃ n : Node Unit ℕ, Lts.run Node.step (Node.init ⟨4, 1, false, []⟩ ()) quickTaskRun = some n ∧
      n.awaits = [.sent ()] ∧ StopHolds (Node.init ⟨4, 1, false, []⟩ ()) quickTaskRun n := by
  have hr : ∃ n : Node Unit ℕ,
      Lts.run Node.step (Node.init ⟨4, 1, false, []⟩ ()) quickTaskRun = some n ∧ n.awaits = [.sent ()] :=
    ⟨_, rfl, rfl⟩
  obtain ⟨n, hr, haw⟩ := hr
  exact ⟨n, hr, haw, (stop_holds hr).2 (by decide)⟩

/-- The task that `on_stopped` starts waits to be polled. -/
def slowTaskRun : List (Label Unit ℕ) :=
  [.exec (.ret ()), .send (.await true), .exec .recv, .exec .go, .exec .go, .exec (.ret ()), .exec .go,
    .exec (.ret ()), .exec (.ret ()), .exec .go, .exec (.op .anonymousHandle), .exec (.ret ())]

/-- **A task that `on_stopped` starts fails the assertion of `stop`**, and the awaiter does not
get its actor. -/
theorem stop_asserts :
    ∃ n : Node Unit ℕ, Lts.run Node.step (Node.init ⟨4, 1, false, []⟩ ()) (slowTaskRun ++ [.exec .go]) = some n ∧
      n.pc = .panicked .assertion ∧ n.awaits = [.dropped] ∧
      ¬ StopHolds (Node.init ⟨4, 1, false, []⟩ ()) (slowTaskRun ++ [.exec .go]) n := by
  refine ⟨_, rfl, rfl, rfl, fun h => ?_⟩
  exact h.passes rfl

end Tokactor
