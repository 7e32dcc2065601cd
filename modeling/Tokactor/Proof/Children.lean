import Tokactor.Proof.Calm

/-!
# Reports of supervised children

The wrapper task of `spawn_with` tells the supervisor how its child ended. In the `Err`
arm the receiver of the child is gone before the wrapper sends, so nothing keeps the
supervisor from closing its mailbox first.

* `reported_run`: what the wrapper has put in the mailbox can be read off its state.
* `panic_reported`: as long as the supervisor does not end `stopping` between the panic
  of a child and its report, and does not die, the report is accepted, once, and handled
  before `on_end`.
* `panic_unreported`: otherwise it can be lost.
-/

namespace Tokactor

variable {A M : Type}

/-- What the wrapper has put in the mailbox of the supervisor. -/
def Child.reports (c : Child A) : List (Body A M) :=
  match c.pc with
  | .reported a _ => [.dead (.ok a)]
  | .failed e true => [.dead (.error e)]
  | _ => []

theorem Child.Moves.reports {v : View} {c c' : Child A} {l : ChildLabel A} {e : Eff A M} (h : c.Moves v l c' e) :
    c'.reports = c.reports ++ e.push.toList := by
  unfold Child.reports
  cases h <;> simp_all

/-- The slot of a child holds what its wrapper has reported. -/
def Slot.Reported (s : Slot A M) : Prop := ∀ c, s.task = .child c → s.out = c.reports

theorem reported_step {n n' : Node A M} {l : Label A M} (hr : ∀ s ∈ n.tasks, s.Reported)
    (h : n.step l = some n') : ∀ s ∈ n'.tasks, s.Reported := by
  refine slots_keep ?_ ?_ hr h
  · intro t ht c hc
    have hc : t = .child c := hc
    subst hc
    have hpc : c.pc = .running := ht
    unfold Child.reports
    rw [hpc]
  · intro s v l t e hs hstep c' hc'
    have hc' : t = .child c' := hc'
    subst hc'
    obtain ⟨s, out⟩ := s
    cases hstep with
    | child h => rw [hs _ rfl, h.reports]

theorem reported_run {cfg : Config} {a : A} {ls : List (Label A M)} {n : Node A M}
    (hr : Lts.run Node.step (Node.init cfg a) ls = some n) : ∀ s ∈ n.tasks, s.Reported := by
  refine Lts.run_inv (fun _ _ _ hi h => reported_step hi h) ?_ hr
  intro s hs c hc
  obtain ⟨kind, rfl⟩ := mem_init_tasks hs
  cases hc

/-! ## Panics -/

/-- The task of the child has panicked. -/
def Child.panicked (c : Child A) : Bool :=
  match c.pc with
  | .failing .panic | .failed .panic _ => true
  | _ => false

/-- It has, and the wrapper has not come to its send. -/
def Child.unreported (c : Child A) : Bool :=
  match c.pc with
  | .failing .panic => true
  | _ => false

/-- The mailbox of the supervisor refused the report. -/
def Child.lost (c : Child A) : Bool :=
  match c.pc with
  | .failed .panic false => true
  | _ => false

/-- Some child has panicked whose wrapper has not come to its send. -/
def Node.unreported (n : Node A M) : Bool :=
  n.tasks.any fun s =>
    match s.task with
    | .child c => c.unreported
    | _ => false

/-- When this step ends `stopping`, every panicked child has reported. -/
def ReportsFirst (n : Node A M) (l : Label A M) : Prop :=
  l.isExec = true → n.pc.closes = true → n.isClosed = true → n.unreported = false

instance (n : Node A M) (l : Label A M) : Decidable (ReportsFirst n l) :=
  inferInstanceAs (Decidable (_ → _ → _ → _))

/-- The reports of panics that have come to their send were accepted, each once. -/
def PanicsAccepted (n : Node A M) : Prop :=
  ∀ k c out, n.tasks[k]? = some ⟨.child c, out⟩ → c.panicked = true → c.unreported = false →
    sentBy k n.mailbox.accepted = [.dead (.error .panic)]

/-- Every child has ended, and the reports of the panicked ones were handled, each once. -/
def PanicsReported (n : Node A M) : Prop :=
  ∀ k c out, n.tasks[k]? = some ⟨.child c, out⟩ →
    c.pc ≠ .running ∧
      (c.panicked = true → sentBy k (handledOf n.trace) = [.dead (.error .panic)])

/-- No report of a panic was refused, and while one is missing the mailbox is open. -/
def Expected (n : Node A M) : Prop :=
  n.pc.stage ≠ .failed → ∀ s ∈ n.tasks, ∀ c, s.task = .child c →
    c.lost = false ∧ (c.unreported = true → n.mailbox.closed = false)

theorem Child.Moves.panics {v : View} {c c' : Child A} {l : ChildLabel A} {e : Eff A M} (h : c.Moves v l c' e) :
    (c'.lost = true → c.lost = true ∨ c.unreported = true ∧ v.closed = true) ∧
      (c'.unreported = true → c.unreported = true ∨ c.rx = true) := by
  unfold Child.lost Child.unreported Child.rx
  cases h with
  | lost e hpc hc => cases e <;> simp [hpc, hc]
  | fails e hpc => cases e <;> simp [hpc]
  | error e hpc => simp [hpc]
  | _ => simp_all

theorem expected_exec {n n' : Node A M} {x : Act A M} (hd : Doors n) (hi : Expected n)
    (hab : x ≠ .op .abort) (hr : n.pc.closes = true → n.isClosed = true → n.unreported = false)
    (hx : Node.Exec n x n') : Expected n' := by
  intro hf s hs c hc
  have hf0 : n.pc.stage ≠ .failed := fun hf0 => exec_failed hx hf0
  by_cases hold : s ∈ n.tasks
  · obtain ⟨h1, h2⟩ := hi hf0 s hold c hc
    refine ⟨h1, fun hu => ?_⟩
    -- the mailbox is closed only at the end of `stopping`, when nothing is unreported
    by_contra hcl
    obtain ⟨hpc, hcl, -⟩ := exec_closes hd.life hx hab hf (h2 hu) (by simpa using hcl)
    have hno := hr hpc hcl
    rw [Node.unreported, List.any_eq_false] at hno
    have := hno s hold
    simp [hc, hu] at this
  · rcases Node.exec_tasks hx with ⟨ht, -⟩ | ⟨t, ht, hst⟩
    · exact absurd (ht ▸ hs) hold
    · rw [ht, List.mem_append, List.mem_singleton] at hs
      rcases hs with hs | rfl
      · exact absurd hs hold
      · have hc : t = .child c := hc
        have hfresh := hst.fresh
        rw [hc] at hfresh
        have hpc : c.pc = .running := hfresh
        simp [Child.lost, Child.unreported, hpc]

theorem expected_step {n n' : Node A M} {l : Label A M} (hd : Doors n) (hi : Expected n)
    (hab : NoAbort n l) (hr : ReportsFirst n l) (h : n.step l = some n') : Expected n' := by
  refine Node.step_keeps (I := Expected) hi h ?_ ?_ ?_
  · rintro x rfl hx
    exact expected_exec hd hi (by rintro rfl; cases hab) (hr rfl) hx
  · intro n₁ k tl n₂ s0 t e hi₁ hn hk hf s hs' c hc
    rw [hk.outside.pc] at hf
    rw [hk.outside.mailbox.closed]
    rw [hk.tasks] at hs'
    rcases List.mem_or_eq_of_mem_set hs' with hs' | rfl
    · exact hi₁ hf s hs' c hc
    -- the task that moves is a child, so its step is the whole step
    have ht : t = .child c := hc
    subst ht
    have hmoves := hk.moves
    have hs0 : s0 ∈ n₁.tasks := List.mem_of_getElem? hk.slot
    obtain ⟨s0, out⟩ := s0
    cases hmoves with
    | child hm =>
      have hn : n₁ = n := by
        rcases hn with ⟨-, hn⟩ | ⟨al, hn⟩
        · exact hn
        · cases hn
      subst hn
      obtain ⟨h1, h2⟩ := hi hf _ hs0 _ rfl
      obtain ⟨h3, h4⟩ := hm.panics
      refine ⟨?_, fun hu => ?_⟩
      · by_contra hlost
        rcases h3 (by simpa using hlost) with h | ⟨hu, hcl⟩
        · rw [h1] at h; cases h
        · have hopen := h2 hu
          rw [show n₁.mailbox.closed = true from hcl] at hopen
          cases hopen
      · rcases h4 hu with hu | hrx
        · exact h2 hu
        · exact hd.mailbox_open hf hs0 rfl hrx
  · intro ms hr hf s hs c hc
    rw [hr.outside.pc] at hf
    rw [hr.tasks] at hs
    rw [hr.outside.mailbox.closed]
    exact hi hf s hs c hc

theorem expected_run {cfg : Config} {a : A} {ls : List (Label A M)} {n : Node A M}
    (hab : Lts.Along Node.step NoAbort (Node.init cfg a) ls)
    (hr : Lts.Along Node.step ReportsFirst (Node.init cfg a) ls)
    (h : Lts.run Node.step (Node.init cfg a) ls = some n) : Expected n := by
  have hstep : ∀ (n : Node A M) l n', Doors n ∧ Expected n → NoAbort n l ∧ ReportsFirst n l →
      n.step l = some n' → Doors n' ∧ Expected n' := by
    intro n l n' ⟨hd, hi⟩ ⟨hab, hr⟩ h
    exact ⟨doors_step hd hab h, expected_step hd hi hab hr h⟩
  refine (Lts.run_along hstep ⟨doors_init cfg a, ?_⟩ (hab.and hr) h).2
  intro _ s hs c hc
  obtain ⟨kind, rfl⟩ := mem_init_tasks hs
  cases hc

/-- What was neither refused nor is on its way was accepted. -/
theorem Child.reported {c : Child A} (hp : c.panicked = true) (hlost : c.lost = false) (hun : c.unreported = false) :
    (c.reports : List (Body A M)) = [.dead (.error .panic)] := by
  unfold Child.panicked Child.lost Child.unreported Child.reports at *
  split at hp
  · rename_i hpc; rw [hpc] at hun; cases hun
  · rename_i acc hpc
    cases acc with
    | true => rw [hpc]
    | false => rw [hpc] at hlost; cases hlost
  · cases hp

/-- **A panicking child is always reported**, in every run in which user code does not panic and
the timeout of `stopping` does not fire, as long as the supervisor never ends `stopping` between
the panic of a child and its report, the assertion of `stop` holds, and its own supervisor stays:
its task does not panic, each report is accepted, and at `on_end` each was handled. -/
theorem panic_reported {cfg : Config} {a : A} {ls : List (Label A M)} {n : Node A M}
    (hc : Lts.Along Node.step Calm (Node.init cfg a) ls)
    (hr : Lts.Along Node.step ReportsFirst (Node.init cfg a) ls)
    (hA : Lts.Along Node.step AssertionHolds (Node.init cfg a) ls)
    (hs : Lts.Along Node.step SupervisorStays (Node.init cfg a) ls)
    (h : Lts.run Node.step (Node.init cfg a) ls = some n) :
    n.pc.stage ≠ .failed ∧ PanicsAccepted n ∧ (n.pc.stage = .ended → PanicsReported n) := by
  have hab := hc.mono fun _ _ => Calm.noAbort
  have hup := upright_run hc hA hs h
  have hd := doors_run hab h
  have hexp := expected_run hab hr h hup
  have haccepted : PanicsAccepted n := by
    intro k c out hk hp hun
    have hmem : (⟨.child c, out⟩ : Slot A M) ∈ n.tasks := List.mem_of_getElem? hk
    rw [outbox_run h k, Node.outOf, hk]
    exact (reported_run h _ hmem c rfl).trans (Child.reported hp (hexp _ hmem c rfl).1 hun)
  refine ⟨hup, haccepted, fun hend k c out hk => ⟨fun hrun => ?_, fun hp => ?_⟩⟩
  · have hrx := hd.kin (.inr hend) _ (List.mem_of_getElem? hk) rfl
    simp [Task.rx, Child.rx, hrun] at hrx
  · -- a report that is on its way finds the mailbox open, and the mailbox is closed
    obtain ⟨hclosed, hhandled⟩ := ended_handled hd.life hend
    have hun : c.unreported = false := by
      by_contra hu
      rw [(hexp _ (List.mem_of_getElem? hk) c rfl).2 (by simpa using hu)] at hclosed
      cases hclosed
    rw [hhandled]
    exact haccepted k c out hk hp hun

/-- A child panics and its supervisor handles the report before it is told to stop. -/
def reportedRun : List (Label Unit ℕ) :=
  [.exec (.op (.spawn 1)), .exec (.ret ()), .task 0 (.child (.ended (.failed .panic))), .task 0 (.child .send),
    .exec .recv, .exec .go, .exec .go, .exec (.ret ()), .exec (.ret ()), .exec (.ret ()),
    .send (.await true), .exec .recv, .exec .go, .exec .go, .exec (.ret ()), .exec .go, .exec (.ret ()),
    .exec (.ret ()), .exec .go, .exec (.ret ()), .exec .go, .exec .none]

theorem panic_reported_reportedRun :
    ∃ n : Node Unit ℕ, Lts.run Node.step (Node.init ⟨4, 1, false, []⟩ ()) reportedRun = some n ∧
      n.tasks.map Slot.task = [.child ⟨1, .failed .panic true⟩] ∧ n.pc = .onEnd ∧
      n.pc.stage ≠ .failed ∧ PanicsAccepted n ∧ (n.pc.stage = .ended → PanicsReported n) := by
  have hr : ∃ n : Node Unit ℕ, Lts.run Node.step (Node.init ⟨4, 1, false, []⟩ ()) reportedRun = some n ∧
      n.tasks.map Slot.task = [.child ⟨1, .failed .panic true⟩] ∧ n.pc = .onEnd := ⟨_, rfl, rfl, rfl⟩
  obtain ⟨n, hr, ht, hpc⟩ := hr
  exact ⟨n, hr, ht, hpc, panic_reported (by decide) (by decide) (by decide) (by decide) hr⟩

/-- The supervisor stops; its only child panics before it is told to shut down, the
supervisor sees that it has no children, and the wrapper finds the mailbox closed. -/
def unreportedRun : List (Label Unit ℕ) :=
  [.exec (.op (.spawn 1)), .exec (.ret ()), .send (.await true), .exec .recv, .exec .go, .exec .go,
    .exec (.ret ()), .exec .go, .exec (.ret ()), .task 0 (.child (.ended (.failed .panic))), .exec (.ret ()),
    .exec .go, .task 0 (.child .refused), .exec (.ret ()), .exec .go, .exec .none]

/-- **The report of a panicked child can be lost.** -/
theorem panic_unreported :
    ∃ n : Node Unit ℕ, Lts.run Node.step (Node.init ⟨4, 1, false, []⟩ ()) unreportedRun = some n ∧
      Lts.Along Node.step Calm (Node.init ⟨4, 1, false, []⟩ ()) unreportedRun ∧
      Lts.Along Node.step AssertionHolds (Node.init ⟨4, 1, false, []⟩ ()) unreportedRun ∧
      Lts.Along Node.step SupervisorStays (Node.init ⟨4, 1, false, []⟩ ()) unreportedRun ∧ n.pc = .onEnd ∧
      ¬ PanicsReported n := by
  refine ⟨_, rfl, by decide, by decide, by decide, rfl, fun h => ?_⟩
  have := (h 0 ⟨1, .failed .panic false⟩ [] rfl).2 rfl
  cases this

end Tokactor
