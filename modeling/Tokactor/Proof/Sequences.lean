import Tokactor.Proof.Loops

/-!
# What the main loops handle

* `taken_run`: the main loop passes to its handlers what it takes from the mailbox, in
  that order.
* `Node.Held`: a task of `Ctx::anonymous` keeps its permit up to its message.
* `loops_agree`: as long as `check_anonymous_actors` has no permit to acquire, the two
  loops handle the same messages on the same actors.
* `loops_differ`: otherwise they do not.
-/

namespace Tokactor

variable {A M : Type}

/-! ## From the mailbox to the handlers -/

/-- The message that the main loop has taken and not yet passed to its handler. -/
def Pc.pending : Pc A M → List (Mail A M)
  | .check hand | .acquire hand _ _ => hand.toList
  | .process .main m | .preRun .main m => [m]
  | _ => []

namespace Node

theorem sequence_moment (n : Node A M) (l : Label A M) : sequence (n.moment l) = (n.handles l).toList := by
  have hnone : l.visible = false → n.handles l = none := by
    intro hl
    cases l with
    | exec x => cases x <;> first | rfl | cases hl
    | _ => cases hl
  unfold moment
  cases hl : l.visible with
  | true =>
    simp only [if_true]
    cases n.handles l <;> simp [sequence]
  | false =>
    rw [hnone hl]
    rfl

theorem mainLoop_pending (n : Node A M) : n.mainLoop.mailbox = n.mailbox ∧ n.mainLoop.pc.pending = [] := by
  unfold mainLoop
  cases n.cfg.supervised <;> exact ⟨rfl, rfl⟩

/-- What is taken from the mailbox is pending. -/
def Passes (n n' : Node A M) : Prop :=
  ∃ ms, n'.mailbox.taken = n.mailbox.taken ++ ms ∧ (n'.pc.stage = .main → n.pc.pending ++ ms = n'.pc.pending)

/-- Nothing is taken, and what was pending stays. -/
theorem Passes.same {n n' : Node A M} (ht : n'.mailbox.taken = n.mailbox.taken)
    (hp : n'.pc.stage = .main → n'.pc.pending = n.pc.pending) : Passes n n' :=
  ⟨[], by rw [ht, List.append_nil], fun hm => by rw [hp hm, List.append_nil]⟩

theorem unwind_passes (n : Node A M) (c : Cause) : Passes n (n.unwind c) := by
  obtain ⟨aw, ak, heq⟩ := unwind_eq n c
  rw [heq]
  exact .same rfl fun hm => by cases hm

theorem ctxOp_passes {n : Node A M} (o : CtxOp) : Passes n (n.ctxOp o) := by
  by_cases ho : n.allows o
  · have hk := ctxOp_kept ho
    exact .same hk.taken fun _ => by rw [hk.pc]
  · cases o with
    | spawn id =>
      have hs : n.state ≠ .running := ho
      simp only [ctxOp, if_neg hs]
      exact unwind_passes n .callback
    | _ => exact absurd trivial ho

/-- A step of the executor that passes no message to its handler. -/
theorem exec_passes {n n' : Node A M} {x : Act A M} (hs : n.pc.stage = .main) (hp : ∀ m, n.pc ≠ .preRun .main m)
    (h : Exec n x n') : Passes n n' := by
  cases h with
  | op o hx hu ho => exact ctxOp_passes o
  | unwind c hc => exact unwind_passes n c
  | took m c pc hpop hpc =>
    obtain ⟨-, -, -, -, htaken⟩ := Chan.pop_cases hpop
    refine ⟨[m], htaken, fun hm => ?_⟩
    cases hn : n.pc <;> rw [hn] at hpc hs <;> cases hpc <;> first | rfl | cases hs
  | check hand hpc =>
    refine .same ?_ fun _ => ?_ <;> unfold checkStep <;> split <;> cases hand <;>
      simp [hpc, Pc.pending, passCheck]
  | acquired hand k rest hpc hk =>
    refine .same ?_ fun _ => ?_ <;> cases hand <;> simp [hpc, Pc.pending, passCheck]
  | preRun p m a hpc =>
    rw [hpc] at hs
    cases p with
    | main => exact absurd hpc (hp m)
    | stopping | stopped => cases hs
  | onStart a hpc =>
    obtain ⟨hmail, hpend⟩ := mainLoop_pending { n with actor := a }
    exact .same (by rw [hmail]) fun _ => by rw [hpend, hpc]; rfl
  | postRun p a hpc =>
    cases p with
    | main =>
      obtain ⟨hmail, hpend⟩ := mainLoop_pending { n with actor := a }
      simp only [processed]
      split
      · exact .same (by rw [hmail]) fun _ => by rw [hpend, hpc]; rfl
      · exact .same rfl fun hm => by cases hm
    | stopping | stopped =>
      rw [hpc] at hs
      cases hs
  | task p m a k h' hx hpc hb =>
    have hk := anonymous_kept { n with actor := a } (.reply k h')
    exact .same hk.taken fun _ => by rw [hpc]; rfl
  | await p m stopNow w hpc hb =>
    obtain ⟨st, h1, -⟩ := subscribe_eq n stopNow w
    rw [h1]
    exact .same rfl fun _ => by rw [hpc]; rfl
  | cancelClosed p m hpc hc =>
    obtain ⟨aw, ak, h1⟩ := dropMail_eq n m
    rw [h1]
    exact .same rfl fun _ => by rw [hpc]; rfl
  | cancelSent p m c hpc hc =>
    obtain ⟨aw, ak, h1⟩ := dropMail_eq { n with mailbox := c } m
    rw [h1]
    exact .same (Chan.Grown.of_push hc).taken fun _ => by rw [hpc]; rfl
  | process p m hpc =>
    rw [hpc] at hs
    cases p with
    | main => exact .same rfl fun _ => by rw [hpc]; rfl
    | stopping | stopped => cases hs
  | handled p m a hpc hb | future p m a k hpc hb | changed p m seen hpc hb =>
    exact .same rfl fun _ => by rw [hpc]; rfl
  | answered p m a k r hpc hb hr =>
    refine .same rfl fun _ => ?_
    rcases hpc with hpc | ⟨seen, hpc⟩ <;> rw [hpc] <;> rfl
  | leaveLoop hpc => exact .same rfl fun hm => by cases hm
  | stoppingDone hgo hpc hc =>
    rcases hpc with hpc | hpc <;> rw [hpc] at hs <;> cases hs
  | onStopping a hpc | onStopped a hpc | onEnd a hpc =>
    rw [hpc] at hs
    cases hs
  | children hpc hc | stay hpc hc | assertClosed hpc hc | drained hpc hc =>
    rw [hpc] at hs
    cases hs
  | notify hpc | finish hpc =>
    rw [hpc] at hs
    cases hs
  | again t hpc =>
    rw [hpc] at hs
    cases hs

/-- What is taken from the mailbox goes to the handlers, in the order it is taken. -/
def Taken (seq : List (Mail A M × A)) (n : Node A M) : Prop :=
  ∃ ms, n.mailbox.taken = seq.map Prod.fst ++ ms ∧ (n.pc.stage = .main → ms = n.pc.pending)

theorem handles_none {n : Node A M} {l : Label A M} (h : ∀ a m, l = .exec (.ret a) → n.pc ≠ .preRun .main m) :
    n.handles l = none := by
  cases l with
  | exec x =>
    cases x with
    | ret a =>
      show n.pc.passes a = none
      cases hpc : n.pc with
      | preRun p m =>
        cases p with
        | main => exact absurd hpc (h a m rfl)
        | stopping | stopped => rfl
      | _ => rfl
    | _ => rfl
  | _ => rfl

theorem taken_step {seq : List (Mail A M × A)} {n n' : Node A M} {l : Label A M} (ht : Taken seq n)
    (hm : n.pc.stage = .main) (h : n.step l = some n') : Taken (seq ++ (n.handles l).toList) n' := by
  obtain ⟨ms, htaken, hms⟩ := ht
  obtain rfl := hms hm
  by_cases hret : ∃ a m, l = .exec (.ret a) ∧ n.pc = .preRun .main m
  · obtain ⟨a, m, rfl, hpc⟩ := hret
    have hexec : n.exec (.ret a) = some n' := h
    have hpass : n.handles (.exec (.ret a)) = some (m, a) := by
      show n.pc.passes a = _
      rw [hpc]
      rfl
    simp only [exec, hpc, callback, Option.some.injEq] at hexec
    subst hexec
    refine ⟨[], ?_, fun _ => rfl⟩
    show n.mailbox.taken = _
    rw [htaken, hpass, hpc]
    simp [Pc.pending]
  · have hnone : n.handles l = none := handles_none fun a m hl hpc => hret ⟨a, m, hl, hpc⟩
    have key : Passes n n' := by
      rcases step_outside h with ⟨x, rfl, hx⟩ | ⟨ms, ho⟩
      · by_cases hp : ∃ m, n.pc = .preRun .main m
        · -- `pre_run` goes on, or panics
          obtain ⟨m, hpc⟩ := hp
          have hexec : n.exec x = some n' := h
          simp only [exec, hpc] at hexec
          cases x with
          | op o =>
            cases hexec
            exact ctxOp_passes o
          | ret a => exact absurd ⟨a, m, rfl, hpc⟩ hret
          | panic =>
            cases hexec
            exact unwind_passes n .callback
          | _ => cases hexec
        · exact exec_passes hm (fun m hpc => hp ⟨m, hpc⟩) hx
      · exact ⟨[], by rw [ho.mailbox.taken, List.append_nil], fun _ => by rw [ho.pc, List.append_nil]⟩
    obtain ⟨ms, htaken', hpend⟩ := key
    refine ⟨n.pc.pending ++ ms, ?_, hpend⟩
    rw [htaken', htaken, hnone]
    simp

/-- **The messages handled are those taken from the mailbox, in that order.** -/
theorem taken_run {cfg : Config} {a : A} {ls : List (Label A M)} {n : Node A M}
    (hr : Lts.run step (init cfg a) ls = some n) (hm : Lts.Along step MainLoop (init cfg a) ls) :
    Taken (sequence (Lts.outs step moment (init cfg a) ls)) n := by
  refine Lts.run_outs (I := fun h n => Taken (sequence h) n) (P := MainLoop) ?_ ?_ hm hr
  · intro h n l n' ht hm hstep
    have happend : sequence (h ++ n.moment l) = sequence h ++ (n.handles l).toList := by
      rw [← sequence_moment]
      exact List.filterMap_append
    rw [happend]
    exact taken_step ht hm.1 hstep
  · exact ⟨[], rfl, fun _ => rfl⟩

end Node

/-! ## A permit that is held -/

/-- A tracked task of `Ctx::anonymous` whose wrapper has not sent its message. -/
structure Anon.Unsent (a : Anon A M) : Prop where
  kind : a.kind = .anonymous
  tracked : a.tracked = true
  halted : a.halted = false
  pc : a.pc = .queued ∨ a.pc = .fresh ∨ a.pc = .running ∨ (∃ out, a.pc = .returned out) ∨ a.pc = .crashed ∨
    ∃ b, a.pc = .sending b

theorem Anon.Unsent.permit {a : Anon A M} (h : a.Unsent) : a.permit = true := by
  unfold Anon.permit
  rw [h.tracked, h.halted, h.kind]
  rcases h.pc with h | h | h | ⟨out, h⟩ | h | ⟨b, h⟩ <;> rw [h] <;> rfl

/-- Such a task keeps its permit up to its message. -/
theorem Anon.Moves.unsent {v : View} {a a' : Anon A M} {l : AnonLabel M} {e : Eff A M} (ha : a.Unsent)
    (hl : l ≠ .halt) (hc : v.closed = false) (h : a.Moves v l a' e) : a'.Unsent ∨ ∃ b, e.push = some b := by
  obtain ⟨hkind, htracked, hhalted, hpc⟩ := ha
  have hfin : ∀ out, (a.finished out).1.Unsent := by
    intro out
    rcases a.finished_cases out with ⟨hh, -⟩ | ⟨-, hk, -⟩ | ⟨-, -, heq⟩
    · rw [hhalted] at hh
      cases hh
    · rw [hkind] at hk
      cases hk
    · rw [heq]
      exact ⟨hkind, htracked, hhalted, .inr (.inr (.inr (.inl ⟨out, rfl⟩)))⟩
  cases h with
  | spawn h => exact .inl ⟨hkind, htracked, hhalted, .inr (.inl rfl)⟩
  | poll h hs => exact .inl ⟨hkind, htracked, hhalted, .inr (.inr (.inl rfl))⟩
  | skip h | finish out h | cancel h => exact .inl (hfin _)
  | lost k j hk h =>
    rw [hkind] at hk
    cases hk
  | panic h =>
    left
    rcases a.unwind_cases with ⟨hh, -⟩ | ⟨-, hk, -⟩ | ⟨-, -, heq⟩
    · rw [hhalted] at hh
      cases hh
    · rw [hkind] at hk
      cases hk
    · rw [heq]
      exact ⟨hkind, htracked, hhalted, .inr (.inr (.inr (.inr (.inl rfl))))⟩
  | wake out hk h => exact .inl ⟨hkind, htracked, hhalted, .inr (.inr (.inr (.inr (.inr ⟨_, rfl⟩))))⟩
  | send b h => exact .inr ⟨b, rfl⟩
  | refused b h hc' =>
    rw [hc] at hc'
    cases hc'
  | drop b h | release h =>
    rcases hpc with h' | h' | h' | ⟨out, h'⟩ | h' | ⟨b, h'⟩ <;> rw [h] at h' <;> cases h'
  | haltQueued | haltLive | haltLate => exact absurd rfl hl
  | take out hk h =>
    rw [hkind] at hk
    cases hk

/-- The first task of the actor has its permit and has not sent its message. -/
def Node.Held (n : Node A M) : Prop := ∃ a out, n.tasks[0]? = some ⟨.anon a, out⟩ ∧ a.Unsent

/-- No permit is left where there is only one. -/
theorem Node.Held.permits {n : Node A M} (h : n.Held) (hp : Permits n) (hmax : n.cfg.maxAnonymousActors = 1) :
    n.permits = 0 := by
  obtain ⟨a, out, hslot, ha⟩ := h
  have hpos : 0 < n.tally Task.permit := by
    unfold Node.tally
    rw [List.countP_pos_iff]
    exact ⟨_, List.mem_of_getElem? hslot, ha.permit⟩
  have hsum := hp.sum
  omega

theorem Node.Held.tasked {n n' : Node A M} {k : ℕ} {l : TaskLabel A M} {s : Slot A M} {t : Task A M} {e : Eff A M}
    (hh : n.Held) (hl : l ≠ .anon .halt) (hc : n.mailbox.closed = false) (h : Node.Tasked n k l n' s t e) :
    n'.Held ∨ ∃ b, e.push = some b := by
  obtain ⟨a, out, hslot, ha⟩ := hh
  by_cases hk : k = 0
  · subst hk
    have hs := h.slot
    rw [hslot] at hs
    cases hs
    have hmoves := h.moves
    cases hmoves with
    | anon hm =>
      rcases hm.unsent ha (fun heq => hl (by rw [heq])) hc with hu | hb
      · left
        refine ⟨_, out ++ e.push.toList, ?_, hu⟩
        rw [h.tasks]
        exact List.getElem?_set_self (List.getElem?_eq_some_iff.1 hslot).1
      · exact .inr hb
  · left
    refine ⟨a, out, ?_, ha⟩
    rw [h.tasks, List.getElem?_set_ne hk]
    exact hslot

/-! ## The two loops -/

/-- **The two loops agree**: as long as `check_anonymous_actors` has no permit to acquire, a
supervised actor handles just the sequences of messages that it handles without a supervisor,
on the same actors. -/
theorem loops_agree (actor : List (Moment A M) → Prop) (cfg : Config) (a : A) (qs : List (Request M))
    (ms : List (Mail A M × A)) :
    Possible Node.Spare true actor cfg a qs ms ↔ Possible Node.Spare false actor cfg a qs ms :=
  ⟨possible_under (b := false), possible_under (b := true)⟩

/-! ### When the check waits -/

/-- What the executor does in this step. -/
def Label.act : Label A M → Option (Act A M)
  | .exec x => some x
  | _ => none

/-- `AnonymousRef::halt`. -/
def Label.isHalt : Label A M → Bool
  | .task _ (.anon .halt) => true
  | _ => false

/-- What user code does in a run. -/
def acts (h : List (Moment A M)) : List (Act A M) := h.filterMap fun x => x.label.act

/-- An actor whose `on_start` starts two anonymous actors. Its other callbacks do nothing, and
nobody halts its anonymous actors. -/
def startsTwo (h : List (Moment Unit ℕ)) : Prop :=
  (∀ x ∈ h, x.label.isHalt = false) ∧
    ∃ k, acts h <+: .op .anonymous :: .op .anonymous :: List.replicate k (.ret ())

/-- Such an actor up to the first wait of `run_supervised_actor` for a permit; `xs` is what
`on_start` has done. -/
inductive Starting : List (Act Unit ℕ) → Node Unit ℕ → Prop
  | fresh (n : Node Unit ℕ) (hpc : n.pc = .onStart) (ho : n.overflow = 0) (hp : n.permits = 1) (ht : n.tasks = []) :
      Starting [] n
  | one (n : Node Unit ℕ) (hpc : n.pc = .onStart) (ho : n.overflow = 0) (hh : n.Held) : Starting [.op .anonymous] n
  | two (n : Node Unit ℕ) (hpc : n.pc = .onStart) (ho : n.overflow = 1) (hh : n.Held) :
      Starting [.op .anonymous, .op .anonymous] n
  | waits (n : Node Unit ℕ) (hpc : n.pc = .check none ∨ n.pc = .acquire none 1 0) (ho : n.overflow = 1) (hh : n.Held) :
      Starting [.op .anonymous, .op .anonymous, .ret ()] n

/-- Nothing has been taken from the mailbox of one slot. -/
structure Waiting (xs : List (Act Unit ℕ)) (n : Node Unit ℕ) : Prop where
  cfg : n.cfg = ⟨1, 1, true, []⟩
  cap : n.mailbox.cap = 1
  closed : n.mailbox.closed = false
  taken : n.mailbox.taken = []
  start : Starting xs n

/-- The first message of the mailbox is one of the actor's own tasks. -/
def Node.OwnFirst (n : Node A M) : Prop := ∃ m ms, n.mailbox.accepted = m :: ms ∧ m.src ≠ none

theorem Node.OwnFirst.step {n n' : Node A M} {l : Label A M} (ho : n.OwnFirst) (h : n.step l = some n') : n'.OwnFirst := by
  obtain ⟨m, ms, hac, hm⟩ := ho
  rcases Node.step_outside h with ⟨x, -, hx⟩ | ⟨ms', hout⟩
  · obtain ⟨ms', hac', -⟩ := Node.exec_accepted hx
    exact ⟨m, ms ++ ms', by rw [hac', hac]; rfl, hm⟩
  · exact ⟨m, ms ++ ms', by rw [hout.mailbox.accepted, hac]; rfl, hm⟩

/-- A step of a task leaves the actor waiting, or puts the task's message first. -/
theorem Waiting.tasked {xs : List (Act Unit ℕ)} {n n' : Node Unit ℕ} {k : ℕ} {l : TaskLabel Unit ℕ}
    {s : Slot Unit ℕ} {t : Task Unit ℕ} {e : Eff Unit ℕ} (hw : Waiting xs n) (hl : l ≠ .anon .halt)
    (h : Node.Tasked n k l n' s t e) : Waiting xs n' ∨ n'.OwnFirst := by
  have hgrown := h.outside.mailbox
  cases hpush : e.push with
  | some b =>
    -- the only slot was free
    right
    have hac := hgrown.accepted
    have hbound := n'.mailbox.bound
    rw [hgrown.cap, hw.cap, hgrown.queue, hpush, List.length_append] at hbound
    have hempty : n.mailbox.queue = [] := by
      rw [← List.length_eq_zero_iff]
      simp only [Option.toList_some, List.map_cons, List.map_nil, List.length_cons, List.length_nil] at hbound
      omega
    rw [n.mailbox.history, hw.taken, hempty, hpush] at hac
    exact ⟨_, [], hac, by simp⟩
  | none =>
    have hheld : n.Held → n'.Held := by
      intro hh
      rcases hh.tasked hl hw.closed h with hh' | ⟨b, hb⟩
      · exact hh'
      · rw [hpush] at hb
        cases hb
    left
    refine ⟨h.outside.cfg.trans hw.cfg, hgrown.cap.trans hw.cap, hgrown.closed.trans hw.closed,
      hgrown.taken.trans hw.taken, ?_⟩
    have hpc := h.outside.pc
    have ho := h.outside.overflow
    cases hw.start with
    | fresh _ hpc' ho' hpm ht =>
      have hslot := h.slot
      rw [ht] at hslot
      cases hslot
    | one _ hpc' ho' hh => exact .one n' (hpc.trans hpc') (ho.trans ho') (hheld hh)
    | two _ hpc' ho' hh => exact .two n' (hpc.trans hpc') (ho.trans ho') (hheld hh)
    | waits _ hpc' ho' hh => exact .waits n' (by rw [hpc]; exact hpc') (ho.trans ho') (hheld hh)

/-- So does a step of somebody who is no task. -/
theorem Waiting.rest {xs : List (Act Unit ℕ)} {n n' : Node Unit ℕ} {ms : List (Mail Unit ℕ)} (hw : Waiting xs n)
    (h : Node.Rest ms n n') : Waiting xs n' := by
  have hgrown := h.outside.mailbox
  have hpc := h.outside.pc
  have ho := h.outside.overflow
  have hheld : n.Held → n'.Held := by
    intro hh
    unfold Node.Held
    rw [h.tasks]
    exact hh
  refine ⟨h.outside.cfg.trans hw.cfg, hgrown.cap.trans hw.cap, hgrown.closed.trans hw.closed,
    hgrown.taken.trans hw.taken, ?_⟩
  cases hw.start with
  | fresh _ hpc' ho' hpm ht => exact .fresh n' (hpc.trans hpc') (ho.trans ho') (h.permits.trans hpm) (h.tasks.trans ht)
  | one _ hpc' ho' hh => exact .one n' (hpc.trans hpc') (ho.trans ho') (hheld hh)
  | two _ hpc' ho' hh => exact .two n' (hpc.trans hpc') (ho.trans ho') (hheld hh)
  | waits _ hpc' ho' hh => exact .waits n' (by rw [hpc]; exact hpc') (ho.trans ho') (hheld hh)

/-- The next act of user code, after `xs`. -/
theorem next_act {xs : List (Act Unit ℕ)} {x : Act Unit ℕ} {k : ℕ}
    (h : xs ++ [x] <+: .op .anonymous :: .op .anonymous :: List.replicate k (.ret ())) :
    (xs = [] → x = .op .anonymous) ∧ (xs = [.op .anonymous] → x = .op .anonymous) ∧
      (xs = [.op .anonymous, .op .anonymous] → x = .ret ()) := by
  refine ⟨?_, ?_, ?_⟩ <;> rintro rfl
  · simpa using h
  · simpa using h
  · cases k <;> simp_all [List.replicate_succ]

/-- An operation of `on_start`. -/
theorem Waiting.anonymous {xs : List (Act Unit ℕ)} {n : Node Unit ℕ} {ys : List (Act Unit ℕ)} (hw : Waiting xs n)
    (h : Starting ys (n.anonymous .anonymous)) : Waiting ys (n.anonymous .anonymous) := by
  obtain ⟨p, o, t, heq⟩ := Node.anonymous_eq n .anonymous
  rw [heq] at h ⊢
  exact ⟨hw.cfg, hw.cap, hw.closed, hw.taken, h⟩

/-- **A supervised actor that has more anonymous actors than permits waits.** -/
theorem Waiting.exec {xs : List (Act Unit ℕ)} {n n' : Node Unit ℕ} {x : Act Unit ℕ} (hw : Waiting xs n) (hp : Permits n)
    (hx : x.byUser = true → ∃ k, xs ++ [x] <+: .op .anonymous :: .op .anonymous :: List.replicate k (.ret ()))
    (h : n.exec x = some n') : Waiting (xs ++ if x.byUser then [x] else []) n' := by
  have hnext : x.byUser = true → (xs = [] → x = .op .anonymous) ∧ (xs = [.op .anonymous] → x = .op .anonymous) ∧
      (xs = [.op .anonymous, .op .anonymous] → x = .ret ()) := by
    intro hu
    obtain ⟨k, hk⟩ := hx hu
    exact next_act hk
  have huser : n.pc = .onStart → x.byUser = true := by
    intro hpc
    simp only [Node.exec, hpc] at h
    cases x <;> first | rfl | cases h
  have hmax : n.cfg.maxAnonymousActors = 1 := by rw [hw.cfg]
  cases hw.start with
  | fresh _ hpc ho hpm ht =>
    -- the first task gets the only permit
    obtain rfl := (hnext (huser hpc)).1 rfl
    simp only [Node.exec, hpc] at h
    cases h
    refine hw.anonymous (.one _ ?_ ?_ ?_)
    · rw [(Node.anonymous_kept n .anonymous).pc, hpc]
    · simp only [Node.anonymous, Node.acquireAnonymousPermit, hpm, ho]
    · refine ⟨⟨.anonymous, true, false, .queued⟩, [], ?_, ⟨rfl, rfl, rfl, .inl rfl⟩⟩
      simp only [Node.anonymous, Node.acquireAnonymousPermit, hpm, ht]
      rfl
  | one _ hpc ho hh =>
    -- the second gets none
    obtain rfl := (hnext (huser hpc)).2.1 rfl
    have hpm := hh.permits hp hmax
    simp only [Node.exec, hpc] at h
    cases h
    refine hw.anonymous (.two _ ?_ ?_ ?_)
    · rw [(Node.anonymous_kept n .anonymous).pc, hpc]
    · simp only [Node.anonymous, Node.acquireAnonymousPermit, hpm, ho]
    · obtain ⟨a, out, hslot, ha⟩ := hh
      refine ⟨a, out, ?_, ha⟩
      simp only [Node.anonymous, Node.acquireAnonymousPermit, hpm]
      rw [List.getElem?_append_left (List.getElem?_eq_some_iff.1 hslot).1]
      exact hslot
  | two _ hpc ho hh =>
    -- `on_start` returns into the loop
    obtain rfl := (hnext (huser hpc)).2.2 rfl
    simp only [Node.exec, hpc, Node.callback, Option.some.injEq] at h
    subst h
    have hpc' : (Node.mainLoop { n with actor := () }).pc = .check none := by simp [Node.mainLoop, hw.cfg]
    exact ⟨hw.cfg, hw.cap, hw.closed, hw.taken, .waits _ (.inl hpc') ho hh⟩
  | waits _ hpc ho hh =>
    have hpm := hh.permits hp hmax
    have hgo : x = .go := by
      rcases hpc with hpc | hpc <;> simp only [Node.exec, hpc] at h <;> cases x <;> first | rfl | cases h
    subst hgo
    rcases hpc with hpc | hpc
    · -- the check finds the overflow
      simp only [Node.exec, hpc, Option.some.injEq] at h
      subst h
      have hcheck : n.checkStep none = { n with pc := .acquire none 1 0 } := by
        unfold Node.checkStep
        rw [hmax, hpm, ho]
        rfl
      rw [hcheck]
      exact ⟨hw.cfg, hw.cap, hw.closed, hw.taken, .waits _ (.inr rfl) ho hh⟩
    · -- and no permit comes back
      simp only [Node.exec, hpc, hpm] at h
      cases h

/-- What user code does in this step. -/
def Label.userAct : Label A M → List (Act A M)
  | .exec x => if x.byUser then [x] else []
  | _ => []

theorem Label.userAct_none {l : Label A M} (h : ∀ x, l ≠ .exec x) : l.userAct = [] := by
  cases l with
  | exec x => exact absurd rfl (h x)
  | _ => rfl

theorem acts_moment (h : List (Moment A M)) (n : Node A M) (l : Label A M) :
    acts (h ++ n.moment l) = acts h ++ l.userAct := by
  unfold acts
  rw [List.filterMap_append]
  congr 1
  cases l with
  | exec x => cases x <;> rfl
  | _ => rfl

/-- One step more. -/
theorem Waiting.step {h : List (Moment Unit ℕ)} {n n' : Node Unit ℕ} {l : Label Unit ℕ} (hw : Waiting (acts h) n)
    (hp : Permits n) (hact : startsTwo (h ++ n.moment l)) (hstep : n.step l = some n') :
    Waiting (acts (h ++ n.moment l)) n' ∨ n'.OwnFirst := by
  obtain ⟨hhalt, k, hk⟩ := hact
  rw [acts_moment] at hk ⊢
  have hexec : ∀ x, l = .exec x → Waiting (acts h ++ l.userAct) n' := by
    rintro x rfl
    refine hw.exec hp (fun hu => ⟨k, ?_⟩) hstep
    simpa only [Label.userAct, if_pos hu] using hk
  cases Node.step_rule hstep with
  | exec x hx => exact .inl (hexec x rfl)
  | task i tl s t e hb ht =>
    -- no task is halted
    have hl : tl ≠ .anon .halt := by
      rintro rfl
      have hmem := hhalt ⟨n.trace, n.actor, n.state, .task i (.anon .halt), none⟩
        (List.mem_append_right _ List.mem_cons_self)
      cases hmem
    rw [Label.userAct_none (by simp), List.append_nil]
    exact hw.tasked hl ht
  | join i j n₁ al hj =>
    have hl : (.anon al : TaskLabel Unit ℕ) ≠ .anon .halt := by
      rcases hj.label with ⟨rfl, -⟩ | ⟨v, rfl⟩ <;> simp
    obtain ⟨s, t, e, ht⟩ := Node.taskStep_cases hj.join
    have hw₁ : Waiting (acts h) n₁ ∨ n₁.OwnFirst := by
      rcases hj.taken with rfl | htake
      · exact .inl hw
      · obtain ⟨s', t', e', ht'⟩ := Node.taskStep_cases htake
        exact hw.tasked (by simp) ht'
    rw [Label.userAct_none (by simp), List.append_nil]
    rcases hw₁ with hw₁ | ⟨m, ms, hac, hm⟩
    · exact hw₁.tasked hl ht
    · exact .inr ⟨m, _, by rw [ht.outside.mailbox.accepted, hac]; rfl, hm⟩
  | send r b hr hs =>
    rw [Label.userAct_none (by simp), List.append_nil]
    exact .inl (hw.rest hr)
  | quiet l hr hcells ha =>
    left
    cases l with
    | exec x => exact hexec x rfl
    | _ =>
      rw [Label.userAct_none (by simp), List.append_nil]
      exact hw.rest hr

/-- A supervised actor of this kind waits until it has a message of its own. -/
theorem waiting_run {ls : List (Label Unit ℕ)} {n : Node Unit ℕ}
    (hr : Lts.run Node.step (Node.init ⟨1, 1, true, []⟩ ()) ls = some n)
    (hact : startsTwo (Lts.outs Node.step Node.moment (Node.init ⟨1, 1, true, []⟩ ()) ls)) :
    Waiting (acts (Lts.outs Node.step Node.moment (Node.init ⟨1, 1, true, []⟩ ()) ls)) n ∨ n.OwnFirst := by
  refine (Lts.run_outs (I := fun h n => Permits n ∧ (startsTwo h → Waiting (acts h) n ∨ n.OwnFirst))
    (P := fun _ _ => True) ?_ ?_ (Lts.Along.of_forall fun _ _ => trivial) hr).2 hact
  · rintro h n l n' ⟨hp, hi⟩ - hstep
    refine ⟨permits_step hp hstep, fun hs => ?_⟩
    have hbefore : startsTwo h := by
      obtain ⟨hhalt, k, hk⟩ := hs
      refine ⟨fun x hx => hhalt x (List.mem_append_left _ hx), k, ?_⟩
      unfold acts at hk
      rw [List.filterMap_append] at hk
      exact (List.prefix_append _ _).trans hk
    rcases hi hbefore with hw | ho
    · exact hw.step hp hs hstep
    · exact .inr (ho.step hstep)
  · refine ⟨permits_init _ _, fun _ => .inl ⟨rfl, rfl, rfl, rfl, .fresh _ rfl rfl rfl rfl⟩⟩

/-- `run_actor` holds a request and waits for a permit, while the task that has it sends its
message to the only slot. -/
def overtakenRun : List (Label Unit ℕ) :=
  [.exec (.op .anonymous), .exec (.op .anonymous), .exec (.ret ()), .send (.user 7), .exec .recv, .exec .go,
    .task 0 (.anon .spawn), .task 0 (.anon .poll), .task 0 (.anon (.finish 1)), .task 0 (.anon .wake),
    .task 0 (.anon .send), .task 0 (.anon .drop), .task 0 (.anon .release), .exec .go, .exec .go, .exec (.ret ())]

/-- **The two loops differ when the check waits**: with one slot and one permit, `run_actor`
handles a request before the message of a task that it waits for, and `run_supervised_actor`
cannot. -/
theorem loops_differ :
    ¬ ∀ (actor : List (Moment Unit ℕ) → Prop) (cfg : Config) (a : Unit) (qs : List (Request ℕ))
      (ms : List (Mail Unit ℕ × Unit)), 1 ≤ cfg.mailboxSize → 1 ≤ cfg.maxAnonymousActors →
      (Possible (fun _ => True) true actor cfg a qs ms ↔ Possible (fun _ => True) false actor cfg a qs ms) := by
  intro hall
  have hplain : Possible (fun _ => True) false startsTwo ⟨1, 1, false, []⟩ () [.user 7] [(⟨none, .user 7⟩, ())] := by
    refine ⟨overtakenRun, _, rfl, ?_, _, rfl, ?_, rfl, rfl⟩
    · decide
    · exact ⟨by decide, 2, [], rfl⟩
  have hsup := (hall startsTwo ⟨1, 1, false, []⟩ () [.user 7] [(⟨none, .user 7⟩, ())] (by decide) (by decide)).2 hplain
  obtain ⟨ls, n, hr, hmain, h, hout, hact, -, hseq⟩ := hsup
  subst hout
  have htaken := Node.taken_run hr (hmain.mono fun _ _ h => h.1)
  rw [hseq] at htaken
  obtain ⟨ms, htaken, -⟩ := htaken
  rcases waiting_run hr hact with hw | ⟨m, ms', hac, hm⟩
  · rw [hw.taken] at htaken
    cases htaken
  · have hhist := n.mailbox.history
    rw [hac, htaken] at hhist
    cases hhist
    exact hm rfl

end Tokactor
