import Tokactor.Proof.States
import Tokactor.Proof.Tree

/-!
# The reports of children that end normally

The wrapper of a child expects its supervisor to accept the report of a child that has
ended normally: behind the refusal is an `unreachable!`. The end of `stopping` closes the
mailbox when no child is left, but `abort` and a panic of the executor close it as well.

* `reports_accepted`: no wrapper can come to its `unreachable!` if and only if neither of the
  two closes the mailbox while a child is still to report.
-/

namespace Tokactor

variable {A M : Type}

/-- The child runs, or its wrapper reports that it has ended normally. -/
def Child.due (c : Child A) : Bool :=
  match c.pc with
  | .running | .reporting _ => true
  | _ => false

def Task.due : Task A M → Bool
  | .child c => c.due
  | _ => false

/-- The step is one of the wrapper of a child. -/
def Label.ofChild : Label A M → Bool
  | .task _ (.child _) => true
  | _ => false

namespace Node

/-- The report of a child may be due. -/
def due (n : Node A M) : Bool := n.tasks.any fun s => s.task.due

/-- The step is a call of `abort` that closes the mailbox, or a panic of the executor. -/
def shuts (n : Node A M) : Label A M → Bool
  | .exec (.op .abort) => n.state ≠ .stopped
  | .exec (.op (.spawn _)) => n.state ≠ .running
  | .exec .panic | .exec .died => true
  | .exec .tick => n.timeoutCounter = 10
  | .exec .go =>
    match n.pc with
    | .assertClosed => !n.isClosed
    | _ => false
  | _ => false

/-- No wrapper comes to its `unreachable!`, whatever the children and their wrappers do
from here. -/
def Accepting (n : Node A M) : Prop :=
  ∀ ls n', (∀ l ∈ ls, l.ofChild = true) → Lts.run Node.step n ls = some n' →
    ∀ k c a, n'.childAt k = some c → c.pc ≠ .crashed a

end Node

/-- After this step every report will be accepted. -/
def ReportsAccepted (n : Node A M) (l : Label A M) : Prop := ∀ n', n.step l = some n' → n'.Accepting

/-- The mailbox is not closed on a child that is still to report. -/
def OpenWhileDue (n : Node A M) (l : Label A M) : Prop := n.shuts l = true → n.due = false

instance (n : Node A M) (l : Label A M) : Decidable (OpenWhileDue n l) := inferInstanceAs (Decidable (_ → _))

/-! ## What closes the mailbox -/

namespace Node

theorem due_iff (n : Node A M) : n.due = true ↔ ∃ k c, n.childAt k = some c ∧ c.due = true := by
  unfold due
  rw [List.any_eq_true]
  constructor
  · rintro ⟨⟨t, out⟩, hs, hu⟩
    obtain ⟨k, hk⟩ := List.mem_iff_getElem?.1 hs
    cases t with
    | child c => exact ⟨k, c, childAt_iff.2 ⟨out, hk⟩, hu⟩
    | anon a | fwd f => cases hu
  · rintro ⟨k, c, hc, hu⟩
    obtain ⟨out, hk⟩ := childAt_iff.1 hc
    exact ⟨_, List.mem_of_getElem? hk, hu⟩

theorem shuts_of_panics {n : Node A M} {x : Act A M} {c : Cause} (h : n.panics x c) : n.shuts (.exec x) = true := by
  cases c with
  | callback =>
    rcases h.2 with rfl | ⟨id, rfl, hs⟩
    · rfl
    · simp [shuts, hs]
  | timeout =>
    obtain ⟨rfl, -, ht⟩ := h
    simp [shuts, ht]
  | assertion =>
    obtain ⟨rfl, hpc, hcl⟩ := h
    simp [shuts, hpc, hcl]
  | supervisor =>
    obtain ⟨rfl, -⟩ := h
    rfl

theorem unwind_shut (n : Node A M) (c : Cause) : (n.unwind c).mailbox.closed = true ∧ (n.unwind c).tasks = n.tasks := by
  obtain ⟨aw, ak, h⟩ := unwind_eq n c
  rw [h]
  exact ⟨rfl, rfl⟩

theorem abort_shut {n : Node A M} (hs : n.state ≠ .stopped) :
    n.abort.mailbox.closed = true ∧ n.abort.tasks = n.tasks ∧ n.abort.state = .stopped := by
  unfold abort
  split
  · exact ⟨rfl, rfl, rfl⟩
  · exact ⟨rfl, rfl, rfl⟩
  · rename_i h
    exact absurd h hs

/-- Such a step closes the mailbox, with the children as they are. -/
theorem shuts_shut {n n' : Node A M} {l : Label A M} (h : n.step l = some n') (hs : n.shuts l = true) :
    n'.mailbox.closed = true ∧ n'.tasks = n.tasks := by
  unfold shuts at hs
  split at hs
  · have hs : n.state ≠ .stopped := by simpa using hs
    obtain rfl := exec_op h
    obtain ⟨h1, h2, -⟩ := abort_shut hs
    exact ⟨h1, h2⟩
  · have hs : n.state ≠ .running := by simpa using hs
    obtain rfl := exec_op h
    rw [ctxOp, if_neg hs]
    exact n.unwind_shut _
  · obtain rfl := exec_panic h
    exact n.unwind_shut _
  · obtain rfl := exec_died h
    exact n.unwind_shut _
  · obtain rfl := exec_tick (by simpa using hs) h
    exact n.unwind_shut _
  · split at hs
    · rename_i hpc
      have hcl : n.isClosed = false := by simpa using hs
      have hx : n.exec .go = some n' := h
      simp only [exec, hpc, hcl, Option.some.injEq] at hx
      obtain rfl := hx
      exact n.unwind_shut _
    · cases hs
  · cases hs

/-- A context does not start to run again. -/
theorem exec_running {n n' : Node A M} {x : Act A M} (h : n.exec x = some n') (hs : n'.state = .running) :
    n.state = .running := by
  rcases exec_state (exec_rule h) with hle | ⟨h0, h1⟩
  · rw [hs] at hle
    cases hst : n.state <;> rw [hst] at hle <;> simp [ActorState.rank] at hle ⊢
  · rw [endsLoop_state (endsLoop_of h h0 h1) h] at hs
    cases hs

end Node

/-! ## Runs that close it in time -/

theorem Child.Moves.due {v : View} {c c' : Child A} {l : ChildLabel A} {e : Eff A M} (h : c.Moves v l c' e)
    (hd : c'.due = true) : c.due = true := by
  cases h <;> simp_all [Child.due]

/-- A report becomes due only when a child is started. -/
theorem due_step {n n' : Node A M} {l : Label A M} (h : n.step l = some n') (hd : n'.due = true) :
    n.due = true ∨ ∃ id, l = .exec (.op (.spawn id)) ∧ n.state = .running := by
  obtain ⟨k, c, hc, hdue⟩ := n'.due_iff.1 hd
  cases Node.child_step h with
  | same _ hat => exact .inl (n.due_iff.2 ⟨k, c, hat k ▸ hc, hdue⟩)
  | spawned id hs hat => exact .inr ⟨id, rfl, hs⟩
  | moved k₀ c₀ c₁ cl e hc₀ hm hat =>
    rw [hat k] at hc
    split at hc
    · cases hc
      exact .inl (n.due_iff.2 ⟨k₀, c₀, hc₀, hm.due hdue⟩)
    · exact .inl (n.due_iff.2 ⟨k, c, hc, hdue⟩)

/-- Once the mailbox is closed no report is due, and none was refused. -/
structure Covered (n : Node A M) : Prop where
  shut : n.mailbox.closed = true → n.due = false ∧ (n.state = .running → n.pc.stage = .failed)
  accepted : ∀ k c a, n.childAt k = some c → c.pc ≠ .crashed a

theorem covered_init (cfg : Config) (a : A) : Covered (Node.init cfg a : Node A M) where
  shut h := by cases h
  accepted k c a hc := by
    rw [Node.childAt_init] at hc
    cases hc

/-- A step that leaves the mailbox closed leaves no report due, if none was due before. -/
theorem Covered.still {n n' : Node A M} {l : Label A M} (hi : Covered n) (h : n.step l = some n')
    (hcl : n.mailbox.closed = true) : n'.due = false := by
  obtain ⟨hdue, hst⟩ := hi.shut hcl
  by_contra hd
  rcases due_step h (by simpa using hd) with hd | ⟨id, rfl, hs⟩
  · rw [hdue] at hd
    cases hd
  · exact exec_failed (Node.exec_rule h) (hst hs)

theorem covered_step {n n' : Node A M} {l : Label A M} (hi : Covered n) (hc : OpenWhileDue n l)
    (h : n.step l = some n') : Covered n' where
  shut hcl' := by
    rcases Node.step_outside h with ⟨x, rfl, hx⟩ | ⟨ms, ho⟩
    · have same : n'.tasks = n.tasks → n.shuts (.exec x) = true → n'.due = false := by
        intro ht hs
        unfold Node.due
        rw [ht]
        exact hc hs
      rcases Node.exec_shuts hx hcl' with hcl | ⟨rfl, hs, rfl⟩ | ⟨c, hp, rfl⟩ | ⟨hgone, rfl⟩
      · obtain ⟨-, hst⟩ := hi.shut hcl
        exact ⟨hi.still h hcl, fun hs => (exec_failed hx (hst (Node.exec_running h hs))).elim⟩
      · obtain ⟨-, ht, hst⟩ := Node.abort_shut hs
        refine ⟨same ht (by simpa [Node.shuts] using hs), fun hrun => ?_⟩
        rw [hst] at hrun
        cases hrun
      · exact ⟨same (n.unwind_shut c).2 (Node.shuts_of_panics hp), fun _ => rfl⟩
      · refine ⟨?_, fun hs => by cases hs⟩
        by_contra hd
        obtain ⟨k, c, hk, hdue⟩ := n.stoppingDone.due_iff.1 (by simpa using hd)
        obtain ⟨out, hslot⟩ := Node.childAt_iff.1 hk
        have hrx : c.rx = false := n.isClosed_iff.1 hgone _ (List.mem_of_getElem? hslot)
        cases hpc : c.pc <;> simp [Child.due, Child.rx, hpc] at hdue hrx
    · rw [ho.mailbox.closed] at hcl'
      refine ⟨hi.still h hcl', ?_⟩
      rw [ho.state, ho.pc]
      exact (hi.shut hcl').2
  accepted k c a hk hcrash := by
    cases Node.child_step h with
    | same _ hat =>
      rw [hat k] at hk
      exact hi.accepted k c a hk hcrash
    | spawned id hs hat =>
      rw [hat k] at hk
      split at hk
      · cases hk
        cases hcrash
      · exact hi.accepted k c a hk hcrash
    | moved k₀ c₀ c₁ cl e hc₀ hm hat =>
      rw [hat k] at hk
      split at hk
      · cases hk
        cases hm with
        | crash a' hpc hcl =>
          -- while it reports, the mailbox is open
          have hdue : n.due = true := n.due_iff.2 ⟨k₀, c₀, hc₀, by rw [Child.due, hpc]⟩
          rw [(hi.shut hcl).1] at hdue
          cases hdue
        | _ => cases hcrash
      · exact hi.accepted k c a hk hcrash

/-- In a covered state every report will be accepted. -/
theorem Covered.accepting {n : Node A M} (hi : Covered n) : n.Accepting := by
  intro ls n' hls hr
  have hfree : Lts.Along Node.step OpenWhileDue n ls := by
    apply (Lts.Along.of_labels hls).mono
    intro n l hl hs
    unfold Label.ofChild at hl
    split at hl
    · cases hs
    · cases hl
  exact (Lts.run_along (fun _ _ _ hi hc h => covered_step hi hc h) hi hfree hr).accepted

/-! ## The way to the panic -/

/-- A step of a wrapper that sends nothing. -/
theorem child_moves_on {n : Node A M} {k : ℕ} {c : Child A} (cl : ChildLabel A) (c' : Child A)
    (hc : n.childAt k = some c) (hs : c.step n.view cl = some (c', ({} : Eff A M))) :
    ∃ n', n.step (.task k (.child cl)) = some n' ∧ n'.childAt k = some c' ∧ n'.mailbox = n.mailbox := by
  obtain ⟨out, hslot⟩ := Node.childAt_iff.1 hc
  have hlt : k < n.tasks.length := (List.getElem?_eq_some_iff.1 hslot).1
  refine ⟨{ n with tasks := n.tasks.set k ⟨.child c', out ++ []⟩ }, ?_, ?_, rfl⟩
  · simp only [Node.step, Node.bound, Node.taskStep, hslot, Task.step, hs, Option.map_some, Node.emit]
    rfl
  · rw [Node.childAt_iff]
    exact ⟨out ++ [], List.getElem?_set_self hlt⟩

/-- A child that is to report to a closed mailbox can come to the `unreachable!`. -/
theorem not_accepting {n : Node A M} (hcl : n.mailbox.closed = true) (hd : n.due = true) : ¬ n.Accepting := by
  obtain ⟨k, c, hc, hdue⟩ := n.due_iff.1 hd
  have refused : ∀ {m : Node A M} {c : Child A} {a : A}, m.mailbox.closed = true → m.childAt k = some c →
      c.pc = .reporting a → ∃ m', m.step (.task k (.child .refused)) = some m' ∧
        m'.childAt k = some { c with pc := .crashed a } := by
    intro m c a hcl hc hpc
    obtain ⟨m', hm, hat, -⟩ := child_moves_on .refused { c with pc := .crashed a } hc
      (by simp [Child.step, Node.view, hcl, hpc])
    exact ⟨m', hm, hat⟩
  intro hacc
  cases hpc : c.pc with
  | reporting a =>
    obtain ⟨n', hn, hat⟩ := refused hcl hc hpc
    exact hacc [.task k (.child .refused)] n' (by simp [Label.ofChild]) (Lts.run_cons.2 ⟨n', hn, rfl⟩) k _ a hat rfl
  | running =>
    -- it ends normally first
    obtain ⟨n₁, hn₁, hat₁, hmb⟩ := child_moves_on (.ended (.dead n.actor)) { c with pc := .reporting n.actor } hc
      (by simp [Child.step, hpc])
    obtain ⟨n', hn, hat⟩ := refused (by rw [hmb]; exact hcl) hat₁ rfl
    exact hacc [.task k (.child (.ended (.dead n.actor))), .task k (.child .refused)] n' (by simp [Label.ofChild])
      (Lts.run_cons.2 ⟨n₁, hn₁, Lts.run_cons.2 ⟨n', hn, rfl⟩⟩) k _ _ hat rfl
  | _ => rw [Child.due, hpc] at hdue; cases hdue

/-- **No child that ends normally makes its wrapper panic**, at any point of a run, if and
only if neither `abort` nor a panic of the executor closes the mailbox while a child runs or
is being reported. -/
theorem reports_accepted {cfg : Config} {a : A} {ls : List (Label A M)} {n : Node A M}
    (hr : Lts.run Node.step (Node.init cfg a) ls = some n) :
    Lts.Along Node.step ReportsAccepted (Node.init cfg a) ls ↔
      Lts.Along Node.step OpenWhileDue (Node.init cfg a) ls := by
  constructor
  · intro h
    apply h.of_run _ hr
    intro n l n' hstep hacc hs
    by_contra hd
    obtain ⟨hcl, ht⟩ := Node.shuts_shut hstep hs
    have hdue : n'.due = true := by
      unfold Node.due at hd ⊢
      rw [ht]
      simpa using hd
    exact not_accepting hcl hdue (hacc n' hstep)
  · intro h
    apply h.of_inv (fun _ _ _ hi hc hs => covered_step hi hc hs) _ (covered_init cfg a)
    intro n l hi hc n' hstep
    exact (covered_step hi hc hstep).accepting

/-- A child ends and is reported before its supervisor aborts. -/
def reportedFirstRun : List (Label Unit ℕ) :=
  [.exec (.op (.spawn 1)), .exec (.ret ()), .task 0 (.child (.ended (.dead ()))), .task 0 (.child .send),
    .task 0 (.child .drop), .exec .recv, .exec .go, .exec .go, .exec (.ret ()), .exec (.op .abort), .exec (.ret ())]

theorem reports_accepted_reportedFirstRun :
    ∃ n : Node Unit ℕ, Lts.run Node.step (Node.init ⟨4, 1, false, []⟩ ()) reportedFirstRun = some n ∧
      n.mailbox.closed = true ∧ Lts.Along Node.step ReportsAccepted (Node.init ⟨4, 1, false, []⟩ ()) reportedFirstRun := by
  have hr : ∃ n : Node Unit ℕ, Lts.run Node.step (Node.init ⟨4, 1, false, []⟩ ()) reportedFirstRun = some n ∧
      n.mailbox.closed = true := ⟨_, rfl, rfl⟩
  obtain ⟨n, hr, hcl⟩ := hr
  exact ⟨n, hr, hcl, (reports_accepted hr).2 (by decide)⟩

/-- An actor starts a child and aborts. It asks the child to stop, and the child ends. -/
def abortedParentRun : List (Label Unit ℕ) :=
  [.exec (.op (.spawn 1)), .exec (.op .abort), .exec (.ret ()), .exec .none, .exec (.ret ()), .exec .go, .exec .go,
    .task 0 (.child (.ended (.dead ()))), .task 0 (.child .refused)]

/-- **The wrapper of a child panics** when the child ends normally after its supervisor has
called `abort`. -/
theorem report_unreachable :
    ∃ n : Node Unit ℕ, Lts.run Node.step (Node.init ⟨4, 1, false, []⟩ ()) abortedParentRun = some n ∧
      n.childAt 0 = some ⟨1, .crashed ()⟩ ∧ (∀ c, n.pc ≠ .panicked c) ∧
      ¬ Lts.Along Node.step ReportsAccepted (Node.init ⟨4, 1, false, []⟩ ()) abortedParentRun := by
  have hr : ∃ n₁ n : Node Unit ℕ, Lts.run Node.step (Node.init ⟨4, 1, false, []⟩ ()) (abortedParentRun.take 8) = some n₁ ∧
      n₁.step (.task 0 (.child .refused)) = some n ∧ n.childAt 0 = some ⟨1, .crashed ()⟩ ∧ n.pc = .wait :=
    ⟨_, _, rfl, rfl, rfl, rfl⟩
  obtain ⟨n₁, n, hr, hstep, hcrash, hpc⟩ := hr
  refine ⟨n, Lts.run_concat hr hstep, hcrash, fun c h => ?_, fun h => ?_⟩
  · rw [hpc] at h
    cases h
  · have hlast : ReportsAccepted n₁ (.task 0 (.child .refused)) := by
      have hsplit : abortedParentRun = abortedParentRun.take 8 ++ [.task 0 (.child .refused)] := rfl
      rw [hsplit] at h
      exact (h.drop hr).1
    exact hlast n hstep [] n (by simp) rfl 0 _ () hcrash rfl

end Tokactor
