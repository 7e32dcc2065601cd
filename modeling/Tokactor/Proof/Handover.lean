import Tokactor.Proof.Shutdown

/-!
# Handing over a child that has ended

A supervised actor that has ended goes to the caller that awaits it, when that caller still
listens, and to its supervisor otherwise.

* `Awaiters.holder`: a caller that has an actor was the last one to await it.
* `awaited_run`: an actor that was handed to a caller was awaited.
* `handed_over`: either the last caller or the supervisor gets the actor that `on_end` has
  left, and never both.
-/

namespace Tokactor

open Cells

variable {A M : Type}

/-! ## The caller -/

/-- The channel of a caller holds the actor `a`, or the caller has taken it out. -/
def Await.Has (a : A) (c : Await A) : Prop := c = .sent a ∨ c = .received a

theorem Await.Has.not_held {a : A} {c : Await A} (h : c.Has a) : ¬ c.Held := by
  rintro (h' | h') <;> rcases h with h | h <;> rw [h] at h' <;> cases h'

theorem Await.Has.not_lost {a : A} {c : Await A} (h : c.Has a) : ¬ c.Lost := by
  rintro (h' | h') <;> rcases h with h | h <;> rw [h] at h' <;> cases h'

/-- **A caller that has an actor is the last one whose request was handled**, the actor is
the one that has ended, and its executor is over. -/
theorem Awaiters.holder {n : Node A M} {h : List (Mail A M)} (ha : Awaiters n h) {w : ℕ} {a : A}
    (hc : At n.awaits w (Await.Has a)) :
    (awaitIds h).getLast? = some w ∧ (n.pc = .done ∨ n.pc = .handed) ∧ a = n.actor := by
  have hmem : w ∈ awaitIds n.mailbox.accepted := by
    by_contra hna
    obtain ⟨c, hhas, rfl⟩ := hc.and (ha.refused w hc.lt hna)
    rcases hhas with h | h <;> cases h
  rw [ha.accepted, List.mem_append] at hmem
  have hlast : (awaitIds h).getLast? = some w := by
    by_contra hne
    rcases hmem with hw | hw
    · obtain ⟨c, hhas, hlost⟩ := hc.and (ha.earlier w hw hne)
      exact hhas.not_lost hlost
    · obtain ⟨c, hhas, hheld⟩ := hc.and (ha.queued w hw)
      exact hhas.not_held hheld
  refine ⟨hlast, ?_⟩
  obtain ⟨c, hhas, hout⟩ := hc.and (ha.last w hlast)
  have hgot : c.Got n.actor → a = n.actor := by
    rintro (h' | h' | h') <;> rcases hhas with h | h <;> rw [h] at h' <;> cases h' <;> rfl
  cases hpc : n.pc with
  | done => exact ⟨.inl rfl, hgot (by rwa [hpc] at hout)⟩
  | handed => exact ⟨.inr rfl, hgot (by rwa [hpc] at hout)⟩
  | reporting =>
    rw [hpc] at hout
    have hgone : c = .gone := hout
    rcases hhas with h | h <;> rw [h] at hgone <;> cases hgone
  | _ =>
    rw [hpc] at hout
    exact absurd hout hhas.not_held

/-- When nothing is left to handle, every accepted request was handled. -/
theorem Awaiters.all {n : Node A M} {h : List (Mail A M)} (ha : Awaiters n h) (hh : n.pc.hand = none)
    (hq : n.mailbox.queue = []) : awaitIds n.mailbox.accepted = awaitIds h := by
  rw [ha.accepted, hh, hq]
  simp

/-- An actor that was handed to a caller was awaited. -/
def Awaited (n : Node A M) : Prop := n.pc = .handed → ∃ w, (awaitIds n.mailbox.accepted).getLast? = some w

theorem awaited_step {n n' : Node A M} {l : Label A M} (hl : LifeOK n) (ha : AwaitersOK n) (hi : Awaited n)
    (h : n.step l = some n') : Awaited n' := by
  intro hpc'
  rcases Node.step_outside h with ⟨x, -, hx⟩ | ⟨ms, ho⟩
  · obtain ⟨hpc, rfl⟩ := exec_handed hx hpc'
    have hend : n.pc.stage = .ended := by rw [hpc]; rfl
    obtain ⟨hs, ha⟩ := ha.resolve_left (by rw [hend]; decide)
    obtain ⟨hp, hl⟩ := hl.resolve_left (by rw [hend]; decide)
    have hsender := ha.sender (by rw [hpc]; rfl)
    have hmb : n.finish.mailbox = n.mailbox := by unfold Node.finish; (repeat' split) <;> rfl
    rw [hmb, ha.all (by rw [hpc]; rfl) (hl.empty hend), ← hsender]
    -- without a stored sender the actor is reported
    by_contra hnone
    have hnone : n.sender = none := Option.eq_none_iff_forall_ne_some.2 fun w hw => hnone ⟨w, hw⟩
    unfold Node.finish at hpc'
    rw [hnone] at hpc'
    cases hsup : n.cfg.supervised <;> simp [hsup] at hpc'
  · have hpc : n.pc = .handed := ho.pc ▸ hpc'
    have hend : n.pc.stage = .ended := by rw [hpc]; rfl
    obtain ⟨hp, hl⟩ := hl.resolve_left (by rw [hend]; decide)
    have hac : n'.mailbox.accepted = n.mailbox.accepted := by
      rw [ho.mailbox.accepted, ho.mailbox.opened (hl.closed (.inr hend)), List.append_nil]
    rw [hac]
    exact hi hpc

theorem awaited_run {cfg : Config} {a : A} {ls : List (Label A M)} {n : Node A M}
    (hr : Lts.run Node.step (Node.init cfg a) ls = some n) : Awaited n := by
  have hR : ∀ (ls : List (Label A M)) n, Lts.run Node.step (Node.init cfg a) ls = some n → LifeOK n ∧ AwaitersOK n :=
    fun ls n hr => ⟨life_run hr, awaiters_run hr⟩
  refine Lts.run_inv_of hR (fun n l n' hn hi h => awaited_step hn.1 hn.2 hi h) ?_ hr
  intro hpc
  cases hpc

/-! ## The caller and the supervisor -/

/-- `on_end` has returned and left the actor as `a`. -/
def Node.EndedAs (n : Node A M) (a : A) : Prop := ∃ tr, n.trace = tr ++ [.onEnd, .ended a]

/-- The actor `a` was sent to the last caller that awaits it. The caller has it, unless it
has dropped its future. -/
def Node.HandedTo (n : Node A M) (a : A) : Prop :=
  n.pc = .handed ∧ ∃ w, (awaitIds n.mailbox.accepted).getLast? = some w ∧ At n.awaits w (Await.Got a)

/-- The child `d`, whose wrapper is in slot `k` of `n`, goes to its last caller or to `n`. -/
structure HandedOver (n : Node A M) (k : ℕ) (d : Node A M) : Prop where
  /-- when a caller has it, it is the last one, and `n` is told nothing -/
  caller : ∀ w a, At d.awaits w (Await.Has a) →
    (awaitIds d.mailbox.accepted).getLast? = some w ∧ d.EndedAs a ∧ sentBy k n.mailbox.accepted = []
  /-- `n` is told at most once -/
  supervisor : sentBy k n.mailbox.accepted = [] ∨ ∃ a, sentBy k n.mailbox.accepted = [.dead (.ok a)] ∧ d.EndedAs a
  /-- once `on_end` of `n` is called, exactly one of them has got it -/
  settled : n.pc.stage = .ended → ∃ a, d.EndedAs a ∧
    (d.HandedTo a ∧ sentBy k (handledOf n.trace) = [] ∨
      (d.pc ≠ .handed ∧ ∀ w b, ¬ At d.awaits w (Await.Has b)) ∧ sentBy k (handledOf n.trace) = [.dead (.ok a)])

theorem Life.over_ended {n : Node A M} {h : Phase → List (Mail A M)} (hl : Life n h) (ho : n.pc.over = true) :
    n.pc.stage = .ended ∧ n.EndedAs n.actor := by
  have hs : n.pc.stage = .ended ∧ n.pc.part n.actor = [.ended n.actor] := by
    cases hpc : n.pc <;> rw [hpc] at ho <;> first | exact ⟨rfl, rfl⟩ | cases ho
  exact ⟨hs.1, hl.ended hs.1 hs.2⟩

/-- An actor that is over has handled every request it accepted. -/
theorem Awaiters.over_all {n : Node A M} {h : List (Mail A M)} {p : Phase → List (Mail A M)} (ha : Awaiters n h)
    (hl : Life n p) (ho : n.pc.over = true) : awaitIds n.mailbox.accepted = awaitIds h := by
  refine ha.all ?_ (hl.empty (hl.over_ended ho).1)
  cases hpc : n.pc <;> rw [hpc] at ho <;> first | rfl | cases ho

/-- What the wrapper has reported of a child that has not panicked. -/
theorem Child.Follows.reports {c : Child A} {d : Node A M} (hf : c.Follows d) (hup : d.pc.stage ≠ .failed) :
    (c.reports : List (Body A M)) = [] ∨ d.pc = .reporting ∧ c.reports = [(.dead (.ok d.actor) : Body A M)] := by
  have hpanic : ¬ ∃ x, d.pc = .panicked x := fun ⟨x, hx⟩ => hup (by rw [hx]; rfl)
  unfold Child.Follows at hf
  unfold Child.reports
  cases hpc : c.pc with
  | running | reporting a | handed rx | crashed a => exact .inl rfl
  | reported a rx =>
    rw [hpc] at hf
    obtain ⟨hd, rfl⟩ := hf
    exact .inr ⟨hd, rfl⟩
  | failing e | failed e acc =>
    rw [hpc] at hf
    exact absurd hf.2 hpanic

/-- **A child that has ended is handed over exactly once**, in every run in which its
supervisor does not call `abort`: the last caller that awaits it or the supervisor gets the
actor that `on_end` has left. -/
theorem handed_over {i : ℕ} {ls : List (TreeLabel A M)} {t : Tree A M}
    (hab : Lts.Along Tree.step (Tree.Locally i NoAbort) [] ls) (hr : Lts.run Tree.step [] ls = some t)
    {m : Member A M} (hm : t[i]? = some m) {k : ℕ} {c : Child A} (hc : m.node.childAt k = some c)
    {d : Member A M} (hd : t[c.id]? = some d) (hup : d.node.pc.stage ≠ .failed) : HandedOver m.node k d.node := by
  -- what the wrapper knows of the child, and the supervisor of the wrapper
  obtain ⟨d', hd', -, -, hf⟩ := (Tree.linked_run hr).child i m k c hm hc
  rw [hd] at hd'
  cases hd'
  have hlives := Tree.local_run hab hr hm
  have hsent := accepted_reports hlives hc
  -- the child alone
  have htrue : Lts.Along Tree.step (Tree.Locally c.id fun _ _ => True) [] ls := Lts.Along.of_forall fun _ _ _ _ _ => trivial
  obtain ⟨cfg, a, ls', -, hrd⟩ := Tree.local_run htrue hr hd
  obtain ⟨h, ha⟩ := (awaiters_run hrd).resolve_left hup
  obtain ⟨p, hl⟩ := (life_run hrd).resolve_left hup
  have hholder : ∀ w a, At d.node.awaits w (Await.Has a) →
      (awaitIds d.node.mailbox.accepted).getLast? = some w ∧ (d.node.pc = .done ∨ d.node.pc = .handed) ∧
        d.node.EndedAs a := by
    intro w a hw
    obtain ⟨hlast, hpc, rfl⟩ := ha.holder hw
    have ho : d.node.pc.over = true := by rcases hpc with hpc | hpc <;> rw [hpc] <;> rfl
    exact ⟨ha.over_all hl ho ▸ hlast, hpc, (hl.over_ended ho).2⟩
  have hreporting : d.node.pc = .reporting → (∀ w b, ¬ At d.node.awaits w (Await.Has b)) ∧ d.node.EndedAs d.node.actor := by
    intro hpc
    refine ⟨fun w b hw => ?_, (hl.over_ended (by rw [hpc]; rfl)).2⟩
    rcases (hholder w b hw).2.1 with h | h <;> rw [hpc] at h <;> cases h
  have hreports := hf.reports hup
  rw [← hsent] at hreports
  refine ⟨fun w a hw => ?_, ?_, fun hend => ?_⟩
  · obtain ⟨hlast, -, hended⟩ := hholder w a hw
    refine ⟨hlast, hended, hreports.resolve_right fun h => ?_⟩
    exact (hreporting h.1).1 w a hw
  · exact hreports.imp_right fun h => ⟨_, h.2, (hreporting h.1).2⟩
  · obtain ⟨hrx, hcrash, hhandled⟩ := handled_reports hlives hend hc
    rw [hhandled]
    unfold Child.reports
    rcases hf.over hup hrx with ⟨hpc, rx, hcp⟩ | ⟨hpc, ⟨rx, hcp⟩ | hcp⟩
    · have ho : d.node.pc.over = true := by rw [hpc]; rfl
      obtain ⟨w, hlast⟩ := awaited_run hrd hpc
      have hgot := ha.last w (ha.over_all hl ho ▸ hlast)
      rw [hpc] at hgot
      rw [hcp]
      exact ⟨d.node.actor, (hl.over_ended ho).2, .inl ⟨⟨hpc, w, hlast, hgot⟩, rfl⟩⟩
    · obtain ⟨hnone, hended⟩ := hreporting hpc
      rw [hcp]
      exact ⟨_, hended, .inr ⟨⟨by rw [hpc]; simp, hnone⟩, rfl⟩⟩
    · exact absurd hcp (hcrash _)

/-- Actor 0 starts child 1, which is awaited and ends. -/
def awaitedLabels : List (TreeLabel Unit ℕ) :=
  [.run ⟨4, 1, false, []⟩ (), .spawn 0 ⟨4, 1, true, []⟩ (), .step 0 (.exec (.ret ())),
    .step 1 (.exec (.ret ())), .step 1 (.exec .go), .step 1 (.send (.await true)), .step 1 (.exec .recv),
    .step 1 (.exec .go), .step 1 (.exec (.ret ())), .step 1 (.exec .go), .step 1 (.exec (.ret ())),
    .step 1 (.exec (.ret ())), .step 1 (.exec .go), .step 1 (.exec (.ret ())), .step 1 (.exec .go),
    .step 1 (.exec .none), .step 1 (.exec (.ret ())), .step 1 (.exec .go)]

/-- Actor 0 is awaited and comes to its `on_end`. -/
def supervisorLabels : List (TreeLabel Unit ℕ) :=
  [.join 0 0, .step 0 (.task 0 (.child .drop)), .step 0 (.send (.await true)), .step 0 (.exec .recv),
    .step 0 (.exec .go), .step 0 (.exec .go), .step 0 (.exec (.ret ())), .step 0 (.exec .go),
    .step 0 (.exec (.ret ())), .step 0 (.exec (.ret ())), .step 0 (.exec .go), .step 0 (.exec (.ret ())),
    .step 0 (.exec .go), .step 0 (.exec .none)]

/-- The caller takes the child. -/
def takenRun : List (TreeLabel Unit ℕ) := awaitedLabels ++ [.step 1 (.poll 0)] ++ supervisorLabels

theorem handed_over_takenRun :
    ∃ t : Tree Unit ℕ, Lts.run Tree.step [] takenRun = some t ∧
      ∃ m d, t[0]? = some m ∧ t[1]? = some d ∧ m.node.pc = .onEnd ∧ d.node.awaits = [.received ()] ∧
        HandedOver m.node 0 d.node := by
  have hr : ∃ t : Tree Unit ℕ, Lts.run Tree.step [] takenRun = some t ∧
      ∃ m d, t[0]? = some m ∧ t[1]? = some d ∧ m.node.pc = .onEnd ∧ d.node.awaits = [.received ()] ∧
        m.node.childAt 0 = some ⟨1, .handed false⟩ ∧ d.node.pc.stage = .ended :=
    ⟨_, rfl, _, _, rfl, rfl, rfl, rfl, rfl, rfl⟩
  obtain ⟨t, hr, m, d, hm, hd, hpc, haw, hc, hs⟩ := hr
  exact ⟨t, hr, m, d, hm, hd, hpc, haw, handed_over (by decide) hr hm hc hd (by rw [hs]; decide)⟩

/-- The child is sent to its caller, which drops its future before it has looked. -/
def untakenRun : List (TreeLabel Unit ℕ) := awaitedLabels ++ [.step 1 (.giveUp 0)] ++ supervisorLabels

/-- **A child that was sent to a caller can be lost with it**: neither the caller nor the
supervisor ever has it. -/
theorem handed_to_nobody :
    ∃ t : Tree Unit ℕ, Lts.run Tree.step [] untakenRun = some t ∧
      Lts.Along Tree.step (Tree.Everywhere NoAbort) [] untakenRun ∧
      ∃ m d, t[0]? = some m ∧ t[1]? = some d ∧ d.parent = some (0, 0) ∧ m.node.pc = .onEnd ∧
        d.node.EndedAs () ∧ awaitIds d.node.mailbox.accepted = [0] ∧
        (∀ w a, ¬ At d.node.awaits w (Await.Has a)) ∧ sentBy 0 (handledOf m.node.trace) = [] := by
  refine ⟨_, rfl, by decide, _, _, rfl, rfl, rfl, rfl, ⟨?tr, ?ended⟩, rfl, ?_, rfl⟩
  case tr => exact [.onStart, .preRun, .handle ⟨none, .await true 0⟩, .postRun, .onStopping, .onStopped]
  case ended => rfl
  rintro w a ⟨c, hc, hhas⟩
  cases w with
  | zero => cases hc; rcases hhas with h | h <;> cases h
  | succ w => cases hc

end Tokactor
