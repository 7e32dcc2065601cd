import Tokactor.Proof.Awaiters
import Tokactor.Proof.Tree

/-!
# Shutting a tree down

* `sound_run`: in a run without panics of callbacks, `abort` and time-outs in which the
  assertion of `stop` holds, no actor of the tree panics.
* `shutdown_bottom_up`: in such a run every descendant has ended when `on_stopped` is
  called, and every child is accounted for when `on_end` is.
-/

namespace Tokactor

open Cells

variable {A M : Type}

/-! ## Panics -/

/-- `on_end` has returned. -/
def Node.Ended (n : Node A M) : Prop := ∃ a, Event.ended a ∈ n.trace

/-- How a child has ended that its wrapper does not wait for, when it has not panicked. -/
theorem Child.Follows.over {c : Child A} {d : Node A M} (hf : c.Follows d) (hup : d.pc.stage ≠ .failed)
    (hrx : c.rx = false) :
    d.pc = .handed ∧ (∃ rx, c.pc = .handed rx) ∨
      d.pc = .reporting ∧ ((∃ rx, c.pc = .reported d.actor rx) ∨ c.pc = .crashed d.actor) := by
  have hpanic : ¬ ∃ x, d.pc = .panicked x := fun ⟨x, hx⟩ => hup (by rw [hx]; rfl)
  unfold Child.Follows at hf
  unfold Child.rx at hrx
  cases hpc : c.pc with
  | running | reporting a => rw [hpc] at hrx; cases hrx
  | handed rx =>
    rw [hpc] at hf
    exact .inl ⟨hf, rx, rfl⟩
  | reported a rx =>
    rw [hpc] at hf
    obtain ⟨hd, rfl⟩ := hf
    exact .inr ⟨hd, .inl ⟨rx, rfl⟩⟩
  | crashed a =>
    rw [hpc] at hf
    obtain ⟨hd, rfl⟩ := hf
    exact .inr ⟨hd, .inr rfl⟩
  | failing e | failed e acc =>
    rw [hpc] at hf
    exact absurd hf.2 hpanic

namespace Tree

/-- A tree in which no actor has panicked. -/
structure Sound (t : Tree A M) : Prop where
  linked : Linked t
  doors : ∀ (i : ℕ) (m : Member A M), t[i]? = some m → Doors m.node
  upright : ∀ (i : ℕ) (m : Member A M), t[i]? = some m → m.node.pc.stage ≠ .failed

/-- A child that runs has a supervisor with a notifier. -/
theorem Sound.supervised {t : Tree A M} (hs : Sound t) {j : ℕ} {d : Member A M} (hd : t[j]? = some d)
    (hpc : d.node.pc = .select) : (t.supervisor d).any Node.dropped = false := by
  cases hp : d.parent with
  | none => rw [supervisor, hp]; rfl
  | some p =>
    obtain ⟨i, k⟩ := p
    obtain ⟨m, c, hm, hc, rfl⟩ := hs.linked.parent j d i k hd hp
    obtain ⟨d', hd', -, -, hf⟩ := hs.linked.child i m k c hm hc
    rw [hd] at hd'
    cases hd'
    -- its wrapper waits for it, and keeps the supervisor from getting past `stopping`
    have hrun : c.rx = true := by
      unfold Child.Follows at hf
      unfold Child.rx
      split at hf <;> simp_all
    obtain ⟨out, hslot⟩ := Node.childAt_iff.1 hc
    have halive := (hs.doors i m hm).notifier_alive (hs.upright i m hm) (List.mem_of_getElem? hslot) rfl hrun
    rw [supervisor, hp]
    simp [hm, halive]

theorem sound_step {t t' : Tree A M} {l : TreeLabel A M} (hs : Sound t) (hc : Everywhere Calm t l)
    (hA : Everywhere AssertionHolds t l) (h : t.step l = some t') : Sound t' := by
  have hlinked := linked_step hs.linked h
  have hall : ∀ (i : ℕ) (m : Member A M), t'[i]? = some m → Doors m.node ∧ m.node.pc.stage ≠ .failed := by
    intro i m' hm'
    cases stepped h hm' with
    | acts m nl ha hm hstep hp hlic =>
      have hcalm : Calm m.node nl := hc _ ha
      refine ⟨doors_step (hs.doors i m hm) hcalm.noAbort hstep, fun hf => ?_⟩
      obtain ⟨rfl, hpc⟩ := hcalm.fails (hA _ ha) hstep (hs.upright i m hm) hf
      generalize t.started l = new at hlic
      cases hlic with
      | step _ hallow =>
        rw [show t.allows m (.exec .died) = (t.supervisor m).any Node.dropped from rfl,
          hs.supervised hm hpc] at hallow
        cases hallow
    | rests hm => exact ⟨hs.doors i m' hm, hs.upright i m' hm⟩
    | starts k hj hk cfg a hinit =>
      rw [hinit]
      exact ⟨doors_init cfg a, by simp [Node.init, Pc.stage]⟩
  exact ⟨hlinked, fun i m hm => (hall i m hm).1, fun i m hm => (hall i m hm).2⟩

/-- **No actor of the tree panics** in a calm run in which the assertion of `stop` holds. -/
theorem sound_run {ls : List (TreeLabel A M)} {t : Tree A M} (hc : Lts.Along Tree.step (Everywhere Calm) [] ls)
    (hA : Lts.Along Tree.step (Everywhere AssertionHolds) [] ls) (hr : Lts.run Tree.step [] ls = some t) :
    Sound t := by
  refine Lts.run_along (I := Sound) (fun t l t' hs hP h => sound_step hs hP.1 hP.2 h) ⟨⟨?_, ?_⟩, ?_, ?_⟩ (hc.and hA) hr
  · intro i m k c hm; cases hm
  · intro j d i k hd; cases hd
  · intro i m hm; cases hm
  · intro i m hm; cases hm

/-! ## Bottom-up -/

/-- Past `stopping` every child of an actor has ended. -/
theorem Sound.child_over {t : Tree A M} (hs : Sound t) {i j k : ℕ} {m d : Member A M} (hm : t[i]? = some m)
    (hlate : m.node.Late) (hd : t[j]? = some d) (hp : d.parent = some (i, k)) :
    d.node.pc = .handed ∨ d.node.pc = .reporting := by
  obtain ⟨m', c, hm', hc, rfl⟩ := hs.linked.parent j d i k hd hp
  rw [hm] at hm'
  cases hm'
  obtain ⟨d', hd', -, -, hf⟩ := hs.linked.child i m k c hm hc
  rw [hd] at hd'
  cases hd'
  obtain ⟨out, hslot⟩ := Node.childAt_iff.1 hc
  have hrx : c.rx = false := (hs.doors i m hm).kin hlate _ (List.mem_of_getElem? hslot) rfl
  exact (hf.over (hs.upright _ d hd) hrx).imp And.left And.left

/-- Past `stopping` every descendant of an actor has ended. -/
theorem Sound.below_over {t : Tree A M} (hs : Sound t) {i j : ℕ} {m : Member A M} (hm : t[i]? = some m)
    (hlate : m.node.Late) (hb : t.Below i j) :
    ∃ d, t[j]? = some d ∧ (d.node.pc = .handed ∨ d.node.pc = .reporting) := by
  induction hb with
  | child j d k hd hp => exact ⟨d, hd, hs.child_over hm hlate hd hp⟩
  | trans h j d k hb hd hp ih =>
    obtain ⟨dh, hdh, hover⟩ := ih
    have hlate' : dh.node.Late := by
      right
      rcases hover with hpc | hpc <;> rw [hpc] <;> rfl
    exact ⟨d, hd, hs.child_over hdh hlate' hd hp⟩

/-- A supervised actor whose task is over has completed its `on_end`. -/
theorem Sound.ended {t : Tree A M} (hs : Sound t) {j : ℕ} {d : Member A M} (hd : t[j]? = some d)
    (hover : d.node.pc = .handed ∨ d.node.pc = .reporting) : d.node.Ended := by
  obtain ⟨h, hl⟩ := (hs.doors j d hd).life.resolve_left (hs.upright j d hd)
  have htrace : ∃ tr, d.node.trace = tr ++ [.onEnd, .ended d.node.actor] := by
    rcases hover with hpc | hpc <;> exact hl.ended (by rw [hpc]; rfl) (by rw [hpc]; rfl)
  obtain ⟨tr, htr⟩ := htrace
  exact ⟨d.node.actor, by rw [htr]; simp⟩

end Tree

/-! ## The reports of children that have ended -/

/-- No wrapper has come to the `unreachable!` after its first send. -/
def Uncrashed (n : Node A M) : Prop :=
  n.pc.stage ≠ .failed → ∀ k c, n.childAt k = some c → ∀ a, c.pc ≠ .crashed a

theorem Node.failed_stays {n n' : Node A M} {l : Label A M} (h : n.step l = some n') (hf : n.pc.stage = .failed) :
    n'.pc.stage = .failed := by
  rcases Node.step_outside h with ⟨x, -, hx⟩ | ⟨ms, ho⟩
  · exact (exec_failed hx hf).elim
  · rw [ho.pc, hf]

theorem uncrashed_step {n n' : Node A M} {l : Label A M} (hd : Doors n) (hi : Uncrashed n)
    (h : n.step l = some n') : Uncrashed n' := by
  intro hf k c hc a hcrash
  have hf0 : n.pc.stage ≠ .failed := fun hf0 => hf (Node.failed_stays h hf0)
  cases Node.child_step h with
  | same _ hat =>
    rw [hat k] at hc
    exact hi hf0 k c hc a hcrash
  | spawned id hs hat =>
    rw [hat k] at hc
    split at hc
    · cases hc; cases hcrash
    · exact hi hf0 k c hc a hcrash
  | moved k₀ c₀ c₁ cl e hc₀ hm hat =>
    rw [hat k] at hc
    split at hc
    · cases hc
      -- the wrapper holds the receiver while it sends, so the mailbox is open
      cases hm with
      | crash a' hpc hcl =>
        obtain ⟨out, hslot⟩ := Node.childAt_iff.1 hc₀
        have hrx : c₀.rx = true := by rw [Child.rx, hpc]
        have hopen := hd.mailbox_open hf0 (List.mem_of_getElem? hslot) rfl hrx
        rw [show n.mailbox.closed = true from hcl] at hopen
        cases hopen
      | _ => cases hcrash
    · exact hi hf0 k c hc a hcrash

theorem uncrashed_run {cfg : Config} {a : A} {ls : List (Label A M)} {n : Node A M}
    (hab : Lts.Along Node.step NoAbort (Node.init cfg a) ls)
    (hr : Lts.run Node.step (Node.init cfg a) ls = some n) : Uncrashed n := by
  have hstep : ∀ (n : Node A M) l n', Doors n ∧ Uncrashed n → NoAbort n l → n.step l = some n' →
      Doors n' ∧ Uncrashed n' :=
    fun n l n' hi hab h => ⟨doors_step hi.1 hab h, uncrashed_step hi.1 hi.2 h⟩
  refine (Lts.run_along hstep ⟨doors_init cfg a, fun _ k c hc => ?_⟩ hab hr).2
  rw [Node.childAt_init] at hc
  cases hc

/-- What the mailbox has accepted from the wrapper of a child. -/
theorem accepted_reports {P : Node A M → Label A M → Prop} {n : Node A M} (hl : Tree.Lives P n) {k : ℕ} {c : Child A}
    (hc : n.childAt k = some c) : sentBy k n.mailbox.accepted = c.reports := by
  obtain ⟨cfg, a, ls, -, hr⟩ := hl
  obtain ⟨out, hslot⟩ := Node.childAt_iff.1 hc
  rw [outbox_run hr k, Node.outOf, hslot]
  exact reported_run hr _ (List.mem_of_getElem? hslot) c rfl

/-- What the actor has handled of a child's reports once `on_end` is called. -/
theorem handled_reports {n : Node A M} (hl : Tree.Lives NoAbort n) (hend : n.pc.stage = .ended) {k : ℕ} {c : Child A}
    (hc : n.childAt k = some c) :
    c.rx = false ∧ (∀ a, c.pc ≠ .crashed a) ∧ sentBy k (handledOf n.trace) = c.reports := by
  have hsent := accepted_reports hl hc
  obtain ⟨cfg, a, ls, hab, hr⟩ := hl
  obtain ⟨out, hslot⟩ := Node.childAt_iff.1 hc
  have hmem : (⟨.child c, out⟩ : Slot A M) ∈ n.tasks := List.mem_of_getElem? hslot
  have hd := doors_run hab hr
  refine ⟨hd.kin (.inr hend) _ hmem rfl, uncrashed_run hab hr (by rw [hend]; decide) k c hc, ?_⟩
  rw [(ended_handled hd.life hend).2, hsent]

namespace Tree

/-- When `on_stopped` is called every descendant has completed its `on_end`, and when
`on_end` is called every child was handed to an awaiter, or its report was handled. -/
structure BottomUp (t : Tree A M) : Prop where
  stopped : ∀ (i j : ℕ) (m : Member A M), t[i]? = some m → m.node.pc = .onStopped → t.Below i j →
    ∃ d, t[j]? = some d ∧ d.node.Ended
  ended : ∀ (i k : ℕ) (m : Member A M) (c : Child A), t[i]? = some m → m.node.pc = .onEnd →
    m.node.childAt k = some c →
    (∃ rx, c.pc = .handed rx) ∨ ∃ a, sentBy k (handledOf m.node.trace) = [.dead (.ok a)]

end Tree

/-- **Shutdown is bottom-up**, in every run of the tree in which no callback panics, no
actor calls `abort` and no `stopping` times out, as long as the assertion of `stop` holds
whenever an actor evaluates it. -/
theorem shutdown_bottom_up {ls : List (TreeLabel A M)} {t : Tree A M}
    (hc : Lts.Along Tree.step (Tree.Everywhere Calm) [] ls)
    (hA : Lts.Along Tree.step (Tree.Everywhere AssertionHolds) [] ls)
    (hr : Lts.run Tree.step [] ls = some t) : t.BottomUp := by
  have hs := Tree.sound_run hc hA hr
  constructor
  · intro i j m hm hpc hb
    have hlate : m.node.Late := .inl (by rw [hpc]; rfl)
    obtain ⟨d, hd, hover⟩ := hs.below_over hm hlate hb
    exact ⟨d, hd, hs.ended hd hover⟩
  · intro i k m c hm hpc hch
    have hab : Lts.Along Tree.step (Tree.Locally i NoAbort) [] ls :=
      hc.mono fun t l hcalm x hx _ => (hcalm x hx).noAbort
    obtain ⟨hrx, hcrash, hsent⟩ := handled_reports (Tree.local_run hab hr hm) (by rw [hpc]; rfl) hch
    obtain ⟨d, hd, -, -, hf⟩ := hs.linked.child i m k c hm hch
    rw [hsent]
    unfold Child.reports
    rcases hf.over (hs.upright _ d hd) hrx with ⟨-, rx, hcp⟩ | ⟨-, ⟨rx, hcp⟩ | hcp⟩
    · exact .inl ⟨rx, hcp⟩
    · rw [hcp]
      exact .inr ⟨_, rfl⟩
    · exact absurd hcp (hcrash _)

/-- What a supervised actor does on its `Shutdown` when nothing is left below it: it stops,
ends and is reported. -/
def endLabels (i : ℕ) : List (TreeLabel Unit ℕ) :=
  [.step i (.exec (.ret ())), .step i (.exec .go), .step i (.exec .none), .step i (.exec (.ret ())),
    .step i (.exec .go)]

/-- Actor `i` hears of its child, handles the report and sees that no child is left. -/
def hearLabels (i : ℕ) : List (TreeLabel Unit ℕ) :=
  [.join i 0, .step i (.task 0 (.child .send)), .step i (.task 0 (.child .drop)), .step i (.exec .recv),
    .step i (.exec .go), .step i (.exec (.ret ())), .step i (.exec (.ret ())), .step i (.exec (.ret ())),
    .step i (.exec .go)]

/-- Actor 0 with child 1 and grandchild 2 is told to stop. -/
def stopLabels : List (TreeLabel Unit ℕ) :=
  [.run ⟨4, 1, false, []⟩ (), .spawn 0 ⟨4, 1, true, []⟩ (), .step 0 (.exec (.ret ())),
    .spawn 1 ⟨4, 1, true, []⟩ (), .step 1 (.exec (.ret ())), .step 1 (.exec .go),
    .step 2 (.exec (.ret ())), .step 2 (.exec .go), .step 0 (.send (.await true)), .step 0 (.exec .recv),
    .step 0 (.exec .go), .step 0 (.exec .go), .step 0 (.exec (.ret ())), .step 0 (.exec .go),
    .step 0 (.exec (.ret ())), .step 0 (.exec (.ret ())), .step 0 (.exec .go), .step 0 (.exec .go),
    .step 1 (.exec .shutdown), .step 1 (.exec (.ret ())), .step 1 (.exec .go), .step 1 (.exec .go),
    .step 2 (.exec .shutdown), .step 2 (.exec (.ret ())), .step 2 (.exec .go)]

def threeLevelRun : List (TreeLabel Unit ℕ) :=
  stopLabels ++ endLabels 2 ++ hearLabels 1 ++ endLabels 1 ++ hearLabels 0

theorem shutdown_bottom_up_threeLevelRun :
    ∃ t : Tree Unit ℕ, Lts.run Tree.step [] threeLevelRun = some t ∧
      (∃ m, t[0]? = some m ∧ m.node.pc = .onStopped) ∧ t.Below 0 2 ∧ t.BottomUp := by
  have hr : ∃ t : Tree Unit ℕ, Lts.run Tree.step [] threeLevelRun = some t ∧
      (∃ m, t[0]? = some m ∧ m.node.pc = .onStopped) ∧ t.Below 0 2 :=
    ⟨_, rfl, ⟨_, rfl, rfl⟩, .trans 1 2 _ 0 (.child 1 _ 0 rfl rfl) rfl rfl⟩
  obtain ⟨t, hr, hm, hb⟩ := hr
  exact ⟨t, hr, hm, hb, shutdown_bottom_up (by decide) (by decide) hr⟩

/-- The child starts an anonymous task in its `on_stopped`, and the assertion of its `stop`
fails; its supervisor is told that it panicked. -/
def brokenChildRun : List (TreeLabel Unit ℕ) :=
  [.run ⟨4, 1, false, []⟩ (), .spawn 0 ⟨4, 1, true, []⟩ (), .step 0 (.exec (.ret ())),
    .step 1 (.exec (.ret ())), .step 1 (.exec .go), .step 0 (.send (.await true)), .step 0 (.exec .recv),
    .step 0 (.exec .go), .step 0 (.exec .go), .step 0 (.exec (.ret ())), .step 0 (.exec .go),
    .step 0 (.exec (.ret ())), .step 0 (.exec (.ret ())), .step 0 (.exec .go), .step 0 (.exec .go),
    .step 1 (.exec .shutdown), .step 1 (.exec (.ret ())), .step 1 (.exec .go),
    .step 1 (.exec (.op .anonymousTask)), .step 1 (.exec (.ret ())), .step 1 (.exec .go),
    .join 0 0, .step 0 (.task 0 (.child .send)), .step 0 (.exec .recv), .step 0 (.exec .go),
    .step 0 (.exec (.ret ())), .step 0 (.exec (.ret ())), .step 0 (.exec (.ret ())), .step 0 (.exec .go)]

/-- **A supervisor can stop before its child has ended**, when the assertion of the child's
`stop` fails. -/
theorem shutdown_not_bottom_up :
    ∃ t : Tree Unit ℕ, Lts.run Tree.step [] brokenChildRun = some t ∧
      Lts.Along Tree.step (Tree.Everywhere Calm) [] brokenChildRun ∧ ¬ t.BottomUp := by
  have hr : ∃ t : Tree Unit ℕ, Lts.run Tree.step [] brokenChildRun = some t ∧
      (∃ m, t[0]? = some m ∧ m.node.pc = .onStopped) ∧
      ∃ d, t[1]? = some d ∧ d.parent = some (0, 0) ∧ d.node.trace = [.onStart, .onStopping, .onStopped] :=
    ⟨_, rfl, ⟨_, rfl, rfl⟩, _, rfl, rfl, rfl⟩
  obtain ⟨t, hr, ⟨m, hm, hpc⟩, d, hd, hp, htrace⟩ := hr
  refine ⟨t, hr, by decide, fun h => ?_⟩
  obtain ⟨d', hd', a, ha⟩ := h.stopped 0 1 m hm hpc (.child 1 d 0 hd hp)
  rw [hd] at hd'
  cases hd'
  rw [htrace] at ha
  simp at ha

end Tokactor
