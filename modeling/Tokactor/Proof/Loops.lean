import Tokactor.Proof.Anonymous

/-!
# The two main loops

* `Moment`: what is seen of a run from outside the loops; an actor with its tasks and
  senders is a set of sequences of moments.
* `Possible`: which messages a main loop can handle, and on which actors.
* `under_step`: a step under one loop, matched by steps under the other one.
* `possible_under`: so is a run, as long as `check_anonymous_actors` has no permit to acquire.
-/

namespace Tokactor

variable {A M : Type}

/-! ## What is seen of a run -/

/-- The action is one of user code. -/
def Act.byUser : Act A M → Bool
  | .op _ | .ret _ | .reply _ _ | .task _ _ | .panic => true
  | _ => false

/-- The step is not one of the loops themselves. -/
def Label.visible : Label A M → Bool
  | .exec x => x.byUser
  | _ => true

/-- A `Shutdown` from the supervisor. -/
def Label.isShutdown : Label A M → Bool
  | .exec .shutdown => true
  | _ => false

/-- A step of user code, of a task or of somebody else, with what user code can see before
it: the callbacks called so far, the actor and the state of its context. -/
structure Moment (A M : Type) where
  trace : List (Event A M)
  actor : A
  state : ActorState
  label : Label A M
  /-- the message that the main loop passes to its handler in this step, and the actor -/
  handled : Option (Mail A M × A)

/-- The message that goes to its handler in the main loop when `pre_run` has left the actor
as `a`. -/
def Pc.passes (a : A) : Pc A M → Option (Mail A M × A)
  | .preRun .main m => some (m, a)
  | _ => none

namespace Node

/-- The message that the main loop passes to its handler in this step, and the actor. -/
def handles (n : Node A M) : Label A M → Option (Mail A M × A)
  | .exec (.ret a) => n.pc.passes a
  | _ => none

def moment (n : Node A M) (l : Label A M) : List (Moment A M) :=
  if l.visible then [⟨n.trace, n.actor, n.state, l, n.handles l⟩] else []

/-- A step during the main loop, without a `Shutdown` from the supervisor. -/
def MainLoop (n : Node A M) (l : Label A M) : Prop := n.pc.stage = .main ∧ l.isShutdown = false

instance MainLoop.decidable (n : Node A M) (l : Label A M) : Decidable (n.MainLoop l) :=
  inferInstanceAs (Decidable (_ ∧ _))

end Node

/-- The executor is between two messages, or before the first one. -/
def Pc.between : Pc A M → Bool
  | .recv | .check _ | .acquire _ _ _ | .select => true
  | _ => false

/-- There is no permit that `check_anonymous_actors` has to acquire: no anonymous actor was
started without a permit, or no permit is held. -/
def Node.Spare (n : Node A M) : Prop :=
  n.pc.between = true → n.overflow = 0 ∨ n.cfg.maxAnonymousActors ≤ n.permits

/-- The requests that enter the mailbox. -/
def requests (h : List (Moment A M)) : List (Request M) :=
  h.filterMap fun x => match x.label with
    | .send r => some r
    | _ => none

/-- The messages handled, each with the actor that its handler is called on. -/
def sequence (h : List (Moment A M)) : List (Mail A M × A) := h.filterMap Moment.handled

/-- The steps of a main loop that meet `P` can handle `ms`, while the requests `qs` enter the
mailbox. `actor` says what the actor, its tasks and everybody else do. -/
def Possible (P : Node A M → Prop) (supervised : Bool) (actor : List (Moment A M) → Prop) (cfg : Config) (a : A)
    (qs : List (Request M)) (ms : List (Mail A M × A)) : Prop :=
  ∃ ls n, Lts.run Node.step (Node.init { cfg with supervised } a) ls = some n ∧
    Lts.Along Node.step (fun n l => n.MainLoop l ∧ P n) (Node.init { cfg with supervised } a) ls ∧
    ∃ h, Lts.outs Node.step Node.moment (Node.init { cfg with supervised } a) ls = h ∧
      actor h ∧ requests h = qs ∧ sequence h = ms

/-! ## The same actor under the other loop -/

/-- The place in one loop that is the place `pc` of the other one. -/
def Pc.under : Bool → Pc A M → Pc A M
  | false, .check none | false, .acquire none _ _ | false, .select => .recv
  | true, .recv => .check none
  | true, .check (some m) | true, .acquire (some m) _ _ => .process .main m
  | _, pc => pc

namespace Node

/-- The actor with a supervisor, or without one. -/
def as (b : Bool) (n : Node A M) : Node A M := { n with cfg := { n.cfg with supervised := b } }

/-- The actor in the other loop. -/
def under (b : Bool) (n : Node A M) : Node A M := { n.as b with pc := n.pc.under b }

theorem under_of {b : Bool} {n : Node A M} (h : n.pc.under b = n.pc) : n.under b = n.as b := by
  unfold under
  rw [h]
  rfl

end Node

theorem Pc.under_of {b : Bool} {pc : Pc A M} (h : pc.between = false) : pc.under b = pc := by
  cases pc <;> first | (cases b <;> rfl) | cases h

theorem Pc.under_stage (b : Bool) (pc : Pc A M) : (pc.under b).stage = pc.stage := by
  cases pc with
  | check hand | acquire hand k rest => cases b <;> cases hand <;> rfl
  | _ => cases b <;> rfl

namespace Node

/-! ### Operations -/

theorem dropMail_as (b : Bool) (n : Node A M) (m : Mail A M) : (n.as b).dropMail m = (n.dropMail m).as b := by
  unfold dropMail
  cases m.body <;> rfl

theorem foldl_dropMail_as (b : Bool) (ms : List (Mail A M)) (n : Node A M) :
    ms.foldl dropMail (n.as b) = (ms.foldl dropMail n).as b := by
  induction ms generalizing n with
  | nil => rfl
  | cons m ms ih => rw [List.foldl_cons, List.foldl_cons, dropMail_as, ih]

theorem unwind_as (b : Bool) (n : Node A M) (c : Cause) : (n.as b).unwind c = (n.unwind c).as b := by
  have h : ((n.as b).pc.hand.toList ++ (n.as b).mailbox.queue).foldl dropMail (n.as b) =
      ((n.pc.hand.toList ++ n.mailbox.queue).foldl dropMail n).as b := foldl_dropMail_as b _ n
  unfold unwind
  dsimp only
  rw [h]
  rfl

theorem anonymous_as (b : Bool) (n : Node A M) (kind : AnonKind) :
    (n.as b).anonymous kind = (n.anonymous kind).as b := by
  simp only [anonymous, acquireAnonymousPermit, as]
  cases n.permits <;> rfl

theorem ctxOp_as (b : Bool) (n : Node A M) (o : CtxOp) : (n.as b).ctxOp o = (n.ctxOp o).as b := by
  cases o with
  | stop => by_cases hs : n.state = .running <;> simp only [ctxOp, stop, as, hs, if_true, if_false]
  | abort => cases hs : n.state <;> simp only [ctxOp, abort, as, hs]
  | spawn id =>
    by_cases hs : n.state = .running
    · simp only [ctxOp, as, hs, if_true]
    · have hs' : ¬ (n.as b).state = .running := hs
      simp only [ctxOp, if_neg hs, if_neg hs', unwind_as]
  | anonymous | anonymousTask | anonymousHandle => exact anonymous_as b n _

/-! ### Steps of everybody else -/

theorem emit_under (b : Bool) (n : Node A M) (k : ℕ) (o : Option (Body A M)) :
    (n.under b).emit k o = (n.emit k o).map (under b) := by
  cases o with
  | none => rfl
  | some x =>
    simp only [emit, Option.map_map]
    rfl

theorem absorb_under (b : Bool) (n : Node A M) (e : Eff A M) : (n.under b).absorb e = (n.absorb e).under b := by
  unfold absorb
  cases e.newAsk <;> cases e.release <;> cases e.answer <;> rfl

theorem taskStep_under (b : Bool) (n : Node A M) (k : ℕ) (l : TaskLabel A M) :
    (n.under b).taskStep k l = (n.taskStep k l).map (under b) := by
  have htasks : (n.under b).tasks = n.tasks := rfl
  have hview : (n.under b).view = n.view := rfl
  unfold taskStep
  rw [htasks, hview]
  cases n.tasks[k]? with
  | none => rfl
  | some s =>
    dsimp only
    cases s.task.step n.view l with
    | none => rfl
    | some p =>
      simp only [emit_under, Option.map_map]
      congr 1
      funext n'
      simp only [Function.comp, absorb_under]
      rfl

theorem join_under (b : Bool) (n : Node A M) (i h : ℕ) : (n.under b).join i h = (n.join i h).map (under b) := by
  have hbind : ∀ (o : Option (Node A M)) (k : ℕ) (l : TaskLabel A M),
      (o.map (under b)).bind (·.taskStep k l) = (o.bind (·.taskStep k l)).map (under b) := by
    intro o k l
    cases o with
    | none => rfl
    | some n => exact taskStep_under b n k l
  have htasks : (n.under b).tasks = n.tasks := rfl
  unfold join
  rw [htasks]
  split
  · split
    · split
      · rw [taskStep_under, hbind]
      · rw [taskStep_under, hbind]
      · rw [taskStep_under]
      · rfl
    · rfl
  · rfl

/-- **Nobody else sees which loop it is.** -/
theorem outside_under (b : Bool) {n n' : Node A M} {l : Label A M} (hl : ∀ x, l ≠ .exec x) (hd : l ≠ .dropCtx)
    (h : n.step l = some n') : (n.under b).step l = some (n'.under b) := by
  have heq : (n.under b).step l = (n.step l).map (under b) := by
    cases l with
    | exec x => exact absurd rfl (hl x)
    | dropCtx => exact absurd rfl hd
    | send r => cases r <;> simp only [step, send, Option.map_map] <;> rfl
    | refuse =>
      by_cases hc : n.mailbox.closed = true
      · have hc' : (n.under b).mailbox.closed = true := hc
        simp only [step, if_pos hc, if_pos hc']
        rfl
      · have hc' : ¬ (n.under b).mailbox.closed = true := hc
        simp only [step, if_neg hc, if_neg hc']
        rfl
    | poll w =>
      have haw : (n.under b).awaits = n.awaits := rfl
      simp only [step, poll, haw]
      split <;> rfl
    | giveUp w =>
      have haw : (n.under b).awaits = n.awaits := rfl
      simp only [step, giveUp, haw]
      split <;> rfl
    | task k l =>
      have hb : (n.under b).bound k l = n.bound k l := rfl
      simp only [step, hb]
      split
      · rfl
      · exact taskStep_under b n k l
    | join i j => exact join_under b n i j
  rw [heq, h]
  rfl

/-! ### Steps of the executor outside the loops -/

theorem mainLoop_under (b : Bool) (n : Node A M) : (n.as b).mainLoop = n.mainLoop.under b := by
  cases b <;> cases hs : n.cfg.supervised <;> simp [mainLoop, under, as, Pc.under, hs]

theorem ctxOp_under (b : Bool) {n : Node A M} (hb : n.pc.between = false) (o : CtxOp) :
    (n.as b).ctxOp o = (n.ctxOp o).under b := by
  have hpc : (n.ctxOp o).pc.between = false := by
    by_cases ho : n.allows o
    · rw [(ctxOp_kept ho).pc, hb]
    · cases o with
      | spawn id =>
        have hs : n.state ≠ .running := ho
        simp only [ctxOp, if_neg hs]
        rfl
      | _ => exact absurd trivial ho
  rw [under_of (Pc.under_of hpc), ctxOp_as]

theorem unwind_under (b : Bool) (n : Node A M) (c : Cause) : (n.as b).unwind c = (n.unwind c).under b := by
  rw [unwind_as, under_of (by cases b <;> rfl)]

theorem callback_under (b : Bool) {n : Node A M} (hb : n.pc.between = false) (x : Act A M)
    {k k' : Node A M → Node A M} (hk : ∀ a, k' (({ n with actor := a } : Node A M).as b) = (k { n with actor := a }).under b) :
    (n.as b).callback x k' = (n.callback x k).map (under b) := by
  cases x with
  | op o => simp only [callback, Option.map_some, ctxOp_under b hb]
  | ret a => exact congrArg some (hk a)
  | panic => simp only [callback, Option.map_some, unwind_under]
  | _ => rfl

theorem call_under (b : Bool) (n : Node A M) (pc : Pc A M) (e : Event A M) (hb : pc.between = false) :
    (n.as b).call pc e = (n.call pc e).under b := by
  rw [under_of (n := n.call pc e) (Pc.under_of hb)]
  rfl

theorem handled_under (b : Bool) (n : Node A M) (p : Phase) : (n.as b).handled p = (n.handled p).under b :=
  call_under b n (.postRun p) .postRun rfl

theorem processed_under (b : Bool) (n : Node A M) : (n.as b).processed .main = (n.processed .main).under b := by
  have hstate : (n.as b).state = n.state := rfl
  simp only [processed, hstate]
  split
  · exact mainLoop_under b n
  · exact call_under b { n with state := .stopping } .onStopping .onStopping rfl

theorem deliver_under (b : Bool) {n : Node A M} {p : Phase} {m : Mail A M} (hpc : n.pc = .handle p m) (x : Act A M) :
    (n.as b).deliver p m x = (n.deliver p m x).map (under b) := by
  have hb : n.pc.between = false := by rw [hpc]; rfl
  unfold deliver
  cases m.body with
  | user _ | dead _ => exact callback_under b hb x fun a => handled_under b { n with actor := a } p
  | ask q k =>
    cases x with
    | reply a v => exact congrArg some (handled_under b (({ n with actor := a } : Node A M).answer k (.replied v)) p)
    | task a h =>
      have htask := anonymous_as b { n with actor := a } (.reply k h)
      refine congrArg some ?_
      show (((({ n with actor := a } : Node A M).as b).anonymous (.reply k h)).handled p) = _
      rw [htask]
      exact handled_under b _ p
    | op o => exact congrArg some (ctxOp_under b hb o)
    | panic => exact congrArg some (unwind_under b n .callback)
    | _ => rfl
  | asyncAsk q k s =>
    refine callback_under b hb x fun a => ?_
    cases s with
    | nonBlocking => cases b <;> rfl
    | blocking => exact handled_under b (({ n with actor := a } : Node A M).answer k .dropped) p
  | await stopNow w =>
    cases x with
    | go =>
      refine congrArg some ?_
      -- the sender is stored; the stop looks at the state only
      cases stopNow with
      | true =>
        have hstop : (n.as b).subscribeAndStop w = (n.subscribeAndStop w).as b := by
          by_cases hs : n.state = .running <;> simp only [subscribeAndStop, storeSender, stop, as, hs, if_true, if_false]
        show ((n.as b).subscribeAndStop w).handled p = _
        rw [hstop]
        exact handled_under b _ p
      | false => exact handled_under b (n.subscribeAndWait w) p
    | _ => rfl
  | cancelled c =>
    cases x with
    | go => exact congrArg some (handled_under b n p)
    | _ => rfl

theorem resolve_under (b : Bool) {n : Node A M} {p : Phase} {m : Mail A M} {seen : Bool} (x : Act A M) :
    (n.as b).resolve p m seen x = (n.resolve p m seen x).map (under b) := by
  have hshut : (n.as b).shutdown = n.shutdown := rfl
  unfold resolve
  split
  · rename_i a v q k s hb
    exact congrArg some (handled_under b (({ n with actor := a } : Node A M).answer k (.replied v)) p)
  · rw [hshut]
    split
    · rfl
    · cases b <;> rfl
  · exact congrArg some (unwind_under b n .callback)
  · rfl

theorem cancelFuture_under (b : Bool) {n : Node A M} {p : Phase} {m : Mail A M} (x : Act A M) :
    (n.as b).cancelFuture p m x = (n.cancelFuture p m x).map (under b) := by
  have hmail : (n.as b).mailbox = n.mailbox := rfl
  unfold cancelFuture
  rw [hmail]
  cases x with
  | go =>
    dsimp only
    split
    · rw [dropMail_as]
      exact congrArg some (handled_under b _ p)
    · cases n.mailbox.push ⟨none, .cancelled .cancel⟩ with
      | none => rfl
      | some c =>
        refine congrArg some ?_
        show ((({ n with mailbox := c } : Node A M).as b).dropMail m).handled p = _
        rw [dropMail_as]
        exact handled_under b _ p
  | _ => rfl

/-- **Between the loops the executor does the same.** -/
theorem exec_under (b : Bool) {n n' : Node A M} {x : Act A M} (hs : n.pc.stage = .main) (hb : n.pc.between = false)
    (h : n.exec x = some n') : (n.under b).exec x = some (n'.under b) := by
  have hpc' : (n.as b).pc = n.pc := rfl
  have heq : (n.as b).exec x = (n.exec x).map (under b) := by
    unfold exec
    rw [hpc']
    cases hpc : n.pc with
    | onStart => exact callback_under b hb x fun a => mainLoop_under b _
    | process p m =>
      cases x with
      | go => exact congrArg some (call_under b n _ _ rfl)
      | _ => rfl
    | preRun p m => exact callback_under b hb x fun a => call_under b { n with actor := a } (.handle p m) (.handle m) rfl
    | handle p m => exact deliver_under b hpc x
    | future p m seen => exact resolve_under b x
    | cancelling p m => exact cancelFuture_under b x
    | postRun p =>
      rw [hpc] at hs
      cases p with
      | main => exact callback_under b hb x fun a => processed_under b _
      | stopping | stopped => cases hs
    | recv | check | acquire | select =>
      rw [hpc] at hb
      cases hb
    | _ =>
      rw [hpc] at hs
      cases hs
  rw [under_of (Pc.under_of hb), heq, h]
  rfl

/-! ### Steps of the loops -/

/-- A step of a loop whose check has nothing to do. -/
def Calm (n : Node A M) (l : Label A M) : Prop := n.MainLoop l ∧ n.Spare

/-- The loop takes the actor from `n` to `n'` without anything that is seen. -/
def Silent (n n' : Node A M) : Prop :=
  ∃ ls, Lts.run step n ls = some n' ∧ Lts.Along step Calm n ls ∧ Lts.outs step moment n ls = []

theorem Silent.refl (n : Node A M) : Silent n n := ⟨[], rfl, trivial, rfl⟩

theorem Silent.trans {n n' n'' : Node A M} (h : Silent n n') (h' : Silent n' n'') : Silent n n'' := by
  obtain ⟨ls, hr, hc, ho⟩ := h
  obtain ⟨ls', hr', hc', ho'⟩ := h'
  refine ⟨ls ++ ls', Lts.run_append.2 ⟨n', hr, hr'⟩, hc.append hr hc', ?_⟩
  rw [Lts.outs_append hr, ho, ho']
  rfl

theorem Silent.one {n n' : Node A M} {x : Act A M} (hc : n.Calm (.exec x)) (hx : x.byUser = false)
    (h : n.exec x = some n') : Silent n n' := by
  have hstep : n.step (.exec x) = some n' := h
  have hmoment : n.moment (.exec x) = [] := by
    unfold moment
    rw [show (Label.exec x : Label A M).visible = false from hx]
    rfl
  refine ⟨[.exec x], ?_, ⟨hc, fun _ _ => trivial⟩, ?_⟩
  · rw [Lts.run, hstep]
    rfl
  · rw [Lts.outs_cons hstep, hmoment]
    rfl

/-- `check_anonymous_actors` has nothing to acquire. -/
theorem check_spare {max permits overflow : ℕ} (h : overflow = 0 ∨ max ≤ permits) :
    checkAnonymousActors max permits overflow = none ∨ checkAnonymousActors max permits overflow = some (0, overflow) := by
  unfold checkAnonymousActors
  by_cases ho : overflow > 0
  · right
    have hle : max ≤ permits := h.resolve_left (by omega)
    by_cases hp : permits = 0
    · have hmax : max = 0 := by omega
      rw [if_pos ⟨hp, ho⟩, if_neg (by omega), hmax]
      rfl
    · have hrun : max - permits = 0 := by omega
      rw [if_neg (by omega), if_pos ho, hrun, if_neg (by omega)]
      rfl
  · left
    rw [if_neg (by omega), if_neg ho]

theorem checkStep_spare {n : Node A M} (h : n.overflow = 0 ∨ n.cfg.maxAnonymousActors ≤ n.permits)
    (hand : Option (Mail A M)) :
    n.checkStep hand = n.passCheck hand ∨ n.checkStep hand = { n with pc := .acquire hand 0 n.overflow } := by
  unfold checkStep
  rcases check_spare h with hc | hc <;> rw [hc]
  · exact .inl rfl
  · exact .inr rfl

/-- The loop gets past the check. -/
theorem silent_check {n : Node A M} {hand : Option (Mail A M)} (hpc : n.pc = .check hand)
    (h : n.overflow = 0 ∨ n.cfg.maxAnonymousActors ≤ n.permits) : Silent n (n.passCheck hand) := by
  have hcalm : n.Calm (.exec .go) := ⟨⟨by rw [hpc]; rfl, rfl⟩, fun _ => h⟩
  have hgo : n.exec .go = some (n.checkStep hand) := by simp only [exec, hpc]
  rcases checkStep_spare h hand with hc | hc
  · rw [hc] at hgo
    exact .one hcalm rfl hgo
  · rw [hc] at hgo
    have hgo' : ({ n with pc := .acquire hand 0 n.overflow } : Node A M).exec .go = some (n.passCheck hand) := by
      simp only [exec, Nat.zero_le, if_true]
      cases hand <;> rfl
    exact (Silent.one hcalm rfl hgo).trans (.one ⟨⟨rfl, rfl⟩, fun _ => h⟩ rfl hgo')

/-- The permits that are being acquired are none. -/
def Acquires (n : Node A M) : Prop := ∀ hand k rest, n.pc = .acquire hand k rest → k = 0 ∧ rest = n.overflow

/-- What a step in one loop is in the other one. -/
def Matched (b : Bool) (n n' : Node A M) (l : Label A M) : Prop :=
  ∃ ls t, Lts.run step (n.under b) ls = some t ∧ (n'.pc.stage = .main → t = n'.under b) ∧
    Lts.Along step Calm (n.under b) ls ∧ Lts.outs step moment (n.under b) ls = n.moment l

theorem between_under {b : Bool} {pc : Pc A M} (h : (pc.under b).between = true) : pc.between = true := by
  cases pc with
  | recv | check hand | acquire hand k rest | select => rfl
  | _ => cases b <;> cases h

theorem Calm.under {b : Bool} {n : Node A M} {l : Label A M} (h : n.Calm l) : (n.under b).Calm l :=
  ⟨⟨(Pc.under_stage b n.pc).trans h.1.1, h.1.2⟩, fun hb => h.2 (between_under hb)⟩

theorem handles_under (b : Bool) (n : Node A M) (l : Label A M) : (n.under b).handles l = n.handles l := by
  cases l with
  | exec x =>
    cases x with
    | ret a =>
      show (n.pc.under b).passes a = n.pc.passes a
      cases n.pc with
      | check hand | acquire hand k rest => cases b <;> cases hand <;> rfl
      | _ => cases b <;> rfl
    | _ => rfl
  | _ => rfl

/-- The same step. -/
theorem Matched.same {b : Bool} {n n' : Node A M} {l : Label A M} (hc : n.Calm l)
    (h : (n.under b).step l = some (n'.under b)) : Matched b n n' l := by
  have hmoment : (n.under b).moment l = n.moment l := by
    unfold moment
    rw [handles_under]
    rfl
  refine ⟨[l], n'.under b, ?_, fun _ => rfl, ⟨hc.under, fun _ _ => trivial⟩, ?_⟩
  · rw [Lts.run, h]
    rfl
  · rw [Lts.outs_cons h, hmoment]
    exact List.append_nil _

/-- A step of a loop. -/
theorem Matched.silent {b : Bool} {n n' t : Node A M} {x : Act A M} (hx : x.byUser = false)
    (h : Silent (n.under b) t) (ht : n'.pc.stage = .main → t = n'.under b) : Matched b n n' (.exec x) := by
  obtain ⟨ls, hr, hc, ho⟩ := h
  refine ⟨ls, t, hr, ht, hc, ?_⟩
  rw [ho]
  unfold moment
  rw [show (Label.exec x : Label A M).visible = false from hx]
  rfl

/-- A receive from the same mailbox. -/
theorem receive_map {n t : Node A M} (hm : t.mailbox = n.mailbox) {k k' : Mail A M → Node A M → Node A M}
    {e e' : Node A M → Node A M} {f : Node A M → Node A M} (x : Act A M)
    (hk : ∀ m c, k' m { t with mailbox := c } = f (k m { n with mailbox := c })) (he : e' t = f (e n)) :
    t.receive x k' e' = (n.receive x k e).map f := by
  unfold receive
  rw [hm]
  cases x with
  | recv =>
    simp only [Option.map_map]
    congr 1
    funext p
    exact hk p.1 p.2
  | none =>
    dsimp only
    split
    · exact congrArg some he
    · rfl
  | _ => rfl

theorem shutdownStart_under (b : Bool) (n : Node A M) : (n.under b).shutdownStart = n.shutdownStart.under b := by
  cases b <;> rfl

/-- What a receive can be. -/
theorem receive_or {n n' : Node A M} {x : Act A M} {k : Mail A M → Node A M → Node A M} {e : Node A M → Node A M}
    (h : n.receive x k e = some n') : x = .recv ∨ x = .none := by
  cases x <;> first | exact .inl rfl | exact .inr rfl | cases h

/-- At the receive of `run_actor`. -/
theorem matched_recv {b : Bool} {n n' : Node A M} {x : Act A M} (hc : n.Calm (.exec x)) (hpc : n.pc = .recv)
    (h : n.exec x = some n') : Matched b n n' (.exec x) := by
  have hspare := hc.2 (by rw [hpc]; rfl)
  simp only [exec, hpc] at h
  cases b with
  | false =>
    have hpc' : (n.under false).pc = .recv := by
      show n.pc.under false = _
      rw [hpc]
      rfl
    have heq : (n.under false).receive x (fun m n => { n with pc := .check (some m) }) shutdownStart =
        (n.receive x (fun m n => { n with pc := .check (some m) }) shutdownStart).map (under false) := by
      refine receive_map ?_ x ?_ ?_
      · rfl
      · intro m c
        rfl
      · exact shutdownStart_under false n
    refine .same hc ?_
    show (n.under false).exec x = _
    simp only [exec, hpc']
    rw [heq, h]
    rfl
  | true =>
    -- the check comes first
    have hpc' : (n.under true).pc = .check none := by
      show n.pc.under true = _
      rw [hpc]
      rfl
    have hcheck := silent_check hpc' hspare
    have heq : ((n.under true).passCheck none).receive x (fun m n => { n with pc := .process .main m }) shutdownStart =
        (n.receive x (fun m n => { n with pc := .check (some m) }) shutdownStart).map (under true) := by
      refine receive_map ?_ x ?_ ?_
      · rfl
      · intro m c
        rfl
      · exact shutdownStart_under true n
    rw [h] at heq
    have hx := receive_or h
    have hexec : ((n.under true).passCheck none).exec x = some (n'.under true) := by
      show ((n.under true).passCheck none).handleSupervisedMessage x = _
      rcases hx with rfl | rfl <;> exact heq
    have hcalm : ((n.under true).passCheck none).Calm (.exec x) := ⟨⟨rfl, hc.1.2⟩, fun _ => hspare⟩
    have hquiet : x.byUser = false := by rcases hx with rfl | rfl <;> rfl
    exact .silent hquiet (hcheck.trans (.one hcalm hquiet hexec)) fun _ => rfl

/-- A supervised loop takes from its mailbox as it is. -/
theorem matched_supervised {n n' : Node A M} {x : Act A M} (hc : n.Calm (.exec x)) (hpc : n.pc = .select)
    (hx : x = .recv ∨ x = .none)
    (hrecv : n.receive x (fun m n => { n with pc := .process .main m }) shutdownStart = some n') :
    Matched true n n' (.exec x) := by
  have hpc' : (n.under true).pc = .select := by
    show n.pc.under true = _
    rw [hpc]
    rfl
  have heq : (n.under true).receive x (fun m n => { n with pc := .process .main m }) shutdownStart =
      (n.receive x (fun m n => { n with pc := .process .main m }) shutdownStart).map (under true) := by
    refine receive_map ?_ x ?_ ?_
    · rfl
    · intro m c
      rfl
    · exact shutdownStart_under true n
  rw [hrecv] at heq
  refine .same hc ?_
  show (n.under true).exec x = _
  simp only [exec, hpc']
  rcases hx with rfl | rfl <;> exact heq

/-- The other loop takes a message before the check. -/
theorem matched_taken {n n' : Node A M} (hc : n.Calm (.exec .recv)) (hpc : (n.under false).pc = .recv)
    (hspare : n.overflow = 0 ∨ n.cfg.maxAnonymousActors ≤ n.permits)
    (hrecv : n.receive .recv (fun m n => { n with pc := .process .main m }) shutdownStart = some n') :
    Matched false n n' (.exec .recv) := by
  simp only [receive, Option.map_eq_some_iff] at hrecv
  obtain ⟨⟨m, c⟩, hp, rfl⟩ := hrecv
  have hexec : (n.under false).exec .recv =
      some { n.under false with mailbox := c, pc := .check (some m) } := by
    have hp' : (n.under false).mailbox.pop = some (m, c) := hp
    simp only [exec, hpc, receive, hp', Option.map_some]
  have hcheck : Silent ({ n.under false with mailbox := c, pc := .check (some m) } : Node A M)
      (passCheck { n.under false with mailbox := c, pc := .check (some m) } (some m)) := silent_check rfl hspare
  exact .silent rfl ((Silent.one hc.under rfl hexec).trans hcheck) fun _ => rfl

/-- Both loops end at a mailbox that is closed and empty. -/
theorem matched_none {n n' : Node A M} (hc : n.Calm (.exec .none)) (hpc : (n.under false).pc = .recv)
    (hrecv : n.receive .none (fun m n => { n with pc := .process .main m }) shutdownStart = some n') :
    Matched false n n' (.exec .none) := by
  have hexec : (n.under false).exec .none = some (n'.under false) := by
    have hmail : (n.under false).mailbox = n.mailbox := rfl
    simp only [exec, hpc, receive, hmail] at hrecv ⊢
    split at hrecv
    · rename_i hq hcl
      cases hrecv
      rw [shutdownStart_under]
    · cases hrecv
  exact .silent rfl (.one hc.under rfl hexec) fun _ => rfl

/-- At the `select!` of `handle_supervised_message`. -/
theorem matched_select {b : Bool} {n n' : Node A M} {x : Act A M} (hc : n.Calm (.exec x)) (hpc : n.pc = .select)
    (h : n.exec x = some n') : Matched b n n' (.exec x) := by
  have hspare := hc.2 (by rw [hpc]; rfl)
  simp only [exec, hpc] at h
  by_cases hdied : x = .died
  · -- nothing is handled after that
    subst hdied
    cases h
    exact .silent rfl (.refl _) fun hs => (by cases hs)
  have hrecv : n.receive x (fun m n => { n with pc := .process .main m }) shutdownStart = some n' := by
    cases x with
    | died => exact absurd rfl hdied
    | shutdown => cases hc.1.2
    | _ => exact h
  have hx := receive_or hrecv
  cases b with
  | true => exact matched_supervised hc hpc hx hrecv
  | false =>
    have hpc' : (n.under false).pc = .recv := by
      show n.pc.under false = _
      rw [hpc]
      rfl
    rcases hx with rfl | rfl
    · exact matched_taken hc hpc' hspare hrecv
    · exact matched_none hc hpc' hrecv

/-- On its way past the check the one loop stands still for the other one, which checks
elsewhere. -/
theorem matched_pass {b : Bool} {n n' : Node A M} {hand : Option (Mail A M)} (hc : n.Calm (.exec .go))
    (hpc : n.pc = .check hand ∨ n.pc = .acquire hand 0 n.overflow) (h : n.exec .go = some n') :
    Matched b n n' (.exec .go) := by
  have hn' : n' = n.passCheck hand ∨ n' = { n with pc := .acquire hand 0 n.overflow } := by
    rcases hpc with hpc | hpc
    · simp only [exec, hpc, Option.some.injEq] at h
      rw [← h]
      exact checkStep_spare (hc.2 (by rw [hpc]; rfl)) hand
    · simp only [exec, hpc, Nat.zero_le, if_true, Option.some.injEq] at h
      rw [← h]
      left
      cases hand <;> rfl
  by_cases hb : b = hand.isSome
  · -- `run_actor` checks with a message at hand, `run_supervised_actor` without one
    refine .silent rfl (.refl _) fun _ => ?_
    subst hb
    cases hand <;> rcases hn' with rfl | rfl <;> rcases hpc with hpc | hpc <;>
      simp only [under, as, passCheck, hpc] <;> rfl
  · have hpass : (n.under b).passCheck hand = (n.passCheck hand).under b := by
      cases b <;> cases hand <;> first | rfl | exact absurd rfl hb
    have hacquire : ({ n.under b with pc := .acquire hand 0 n.overflow } : Node A M) =
        ({ n with pc := .acquire hand 0 n.overflow } : Node A M).under b := by
      cases b <;> cases hand <;> first | rfl | exact absurd rfl hb
    have hstay : n.pc.under b = n.pc := by
      rcases hpc with hpc | hpc <;> rw [hpc] <;> cases b <;> cases hand <;> first | rfl | exact absurd rfl hb
    have hpc' : (n.under b).pc = n.pc := hstay
    refine .same hc ?_
    show (n.under b).exec .go = _
    rcases hpc with hpc | hpc
    · simp only [exec, hpc, hpc', Option.some.injEq] at h ⊢
      have hsame : (n.under b).checkStep hand = (n.checkStep hand).under b := by
        have hcheck : checkAnonymousActors (n.under b).cfg.maxAnonymousActors (n.under b).permits (n.under b).overflow =
            checkAnonymousActors n.cfg.maxAnonymousActors n.permits n.overflow := rfl
        unfold checkStep
        rw [hcheck]
        rcases check_spare (hc.2 (by rw [hpc]; rfl)) with hs | hs <;> rw [hs]
        · exact hpass
        · exact hacquire
      rw [hsame, h]
    · simp only [exec, hpc, hpc', Nat.zero_le, if_true, Option.some.injEq] at h ⊢
      rw [← h]
      cases hand <;> exact hpass

/-- **A step under one loop is matched under the other one.** -/
theorem under_step {b : Bool} {n n' : Node A M} {l : Label A M} (ha : n.Acquires) (hc : n.Calm l)
    (h : n.step l = some n') : Matched b n n' l := by
  cases l with
  | exec x =>
    have hx : n.exec x = some n' := h
    by_cases hb : n.pc.between = true
    · cases hpc : n.pc with
      | recv => exact matched_recv hc hpc hx
      | select => exact matched_select hc hpc hx
      | check hand =>
        have hgo : x = .go := by
          simp only [exec, hpc] at hx
          cases x <;> first | rfl | cases hx
        subst hgo
        exact matched_pass hc (.inl hpc) hx
      | acquire hand k rest =>
        have hgo : x = .go := by
          simp only [exec, hpc] at hx
          cases x <;> first | rfl | cases hx
        subst hgo
        obtain ⟨rfl, rfl⟩ := ha hand k rest hpc
        exact matched_pass hc (.inr hpc) hx
      | _ =>
        rw [hpc] at hb
        cases hb
    · exact .same hc (exec_under b hc.1.1 (by simpa using hb) hx)
  | dropCtx =>
    -- the main loop is over
    simp only [step] at h
    split at h
    · rename_i hpc
      have hs := hc.1.1
      rw [hpc] at hs
      cases hs
    · cases h
  | _ => exact .same hc (outside_under b (by simp) (by simp) h)

/-- The check acquires no permit. -/
theorem acquires_step {n n' : Node A M} {l : Label A M} (ha : n.Acquires) (hc : n.Calm l) (h : n.step l = some n') :
    n'.Acquires := by
  intro hand k rest hpc'
  rcases step_outside h with ⟨x, rfl, hx⟩ | ⟨ms, ho⟩
  · obtain ⟨hpc, rfl⟩ := exec_acquire hx hpc'
    rcases checkStep_spare (hc.2 (by rw [hpc]; rfl)) hand with hs | hs
    · rw [hs] at hpc'
      cases hand <;> cases hpc'
    · rw [hs] at hpc' ⊢
      cases hpc'
      exact ⟨rfl, rfl⟩
  · rw [ho.pc] at hpc'
    rw [ho.overflow]
    exact ha hand k rest hpc'

end Node

/-! ## The two loops -/

/-- A run under one loop is matched under the other one. -/
theorem possible_under {b : Bool} {actor : List (Moment A M) → Prop} {cfg : Config} {a : A} {qs : List (Request M)}
    {ms : List (Mail A M × A)} (h : Possible Node.Spare (!b) actor cfg a qs ms) :
    Possible Node.Spare b actor cfg a qs ms := by
  obtain ⟨ls, n, hr, hc, hist, hout, hactor, hreq, hseq⟩ := h
  have hsim : ∃ ls' t, Lts.run Node.step (Node.init { cfg with supervised := b } a) ls' = some t ∧
      (n.Acquires ∧ (n.pc.stage = .main → t = n.under b)) ∧
      Lts.Along Node.step Node.Calm (Node.init { cfg with supervised := b } a) ls' ∧
      Lts.outs Node.step Node.moment (Node.init { cfg with supervised := b } a) ls' =
        Lts.outs Node.step Node.moment (Node.init { cfg with supervised := !b } a) ls := by
    refine Lts.simulates (R := fun (n t : Node A M) => n.Acquires ∧ (n.pc.stage = .main → t = n.under b)) ?_ ?_ hc hr
    · rintro n t l n' ⟨ha, ht⟩ hc h
      obtain rfl := ht hc.1.1
      obtain ⟨ls, t, hr, ht, hc', hout⟩ := Node.under_step (b := b) ha hc h
      exact ⟨ls, t, hr, ⟨Node.acquires_step ha hc h, ht⟩, hc', hout⟩
    · exact ⟨fun hand k rest hpc => (by cases hpc), fun _ => (by cases b <;> rfl)⟩
  obtain ⟨ls', t, hr', -, hc', hout'⟩ := hsim
  exact ⟨ls', t, hr', hc', hist, hout'.trans hout, hactor, hreq, hseq⟩

end Tokactor
