import Tokactor.Proof.Connection
import Tokactor.Proof.RoundRobin

/-!
# An actor that one task asks

The actor of a connection has no tasks of its own, no supervisor and no hooks, and it gets
nothing but async asks, one after the other, and an await request at the end.

* `Sole`: what happens to such an actor.
* `alone_step`: it stays `Alone`; nothing of it goes wrong.
* `Node.through`: the payloads whose futures have yielded. One is added when a future yields
  (`through_reply`), and at no other step (`through_step`).
-/

namespace Tokactor

variable {A M : Type}

/-- What happens to an actor that one task asks. -/
def Sole : Label A M → Prop
  | .send (.asyncAsk _ .nonBlocking) | .send (.await true) | .refuse | .poll _ => True
  | .exec (.op _) | .exec .panic | .exec (.task _ _) => False
  | .exec _ => True
  | _ => False

/-- Where its executor can stand. -/
def Pc.alone : Pc A M → Bool
  | .check none | .acquire _ _ _ | .select | .cancelling _ _ | .notify | .wait | .recheck | .handed | .reporting
  | .panicked _ => false
  | .process .stopping _ | .preRun .stopping _ | .handle .stopping _ | .future .stopping _ _ | .postRun .stopping => false
  | _ => true

/-- An await request. -/
def Body.isAwait : Body A M → Bool
  | .await _ _ => true
  | _ => false

/-- **An actor that one task asks**, as it is at any time. -/
structure Alone (n : Node A M) : Prop where
  routes : n.Routes
  unsupervised : n.cfg.supervised = false
  tasks : n.tasks = []
  pc : n.pc.alone = true
  /-- it runs until it is awaited -/
  runs : n.state ≠ .running → ∃ m ∈ n.mailbox.accepted, m.body.isAwait = true

theorem alone_init (cfg : Config) (a : A) (hc : cfg.forwarders = []) (hs : cfg.supervised = false) :
    Alone (Node.init cfg a : Node A M) :=
  ⟨routes_init cfg a hc, hs, by simp [Node.init, hc], rfl, fun h => absurd rfl h⟩

variable {n n' : Node A M} {x : Act A M} {l : Label A M}

theorem Alone.isClosed (hn : Alone n) : n.isClosed = true := by
  rw [Node.isClosed, hn.tasks]
  rfl

/-- Nothing of this goes wrong in a router. -/
theorem Alone.routed (hn : Alone n) (hl : Sole l) (h : n.step l = some n') : Routed n l := by
  have hpc := hn.pc
  cases l with
  | send r =>
    cases r with
    | asyncAsk q s => cases s <;> exact hl
    | await stopNow => trivial
    | _ => exact hl.elim
  | exec x =>
    cases x with
    | died =>
      -- it has no supervisor to lose
      have hx : n.exec .died = some n' := h
      unfold Node.exec at hx
      cases hn : n.pc with
      | select =>
        rw [hn] at hpc
        cases hpc
      | handle p m =>
        simp only [hn, Node.deliver] at hx
        cases hb : m.body <;> simp [hb, Node.callback] at hx
      | _ => simp [hn, Node.callback, Node.receive, Node.resolve, Node.cancelFuture, Node.stoppingLoop, Node.drainStep] at hx
    | tick =>
      have hx : n.exec .tick = some n' := h
      unfold Node.exec at hx
      cases hn : n.pc with
      | wait =>
        rw [hn] at hpc
        cases hpc
      | handle p m =>
        simp only [hn, Node.deliver] at hx
        cases hb : m.body <;> simp [hb, Node.callback] at hx
      | _ =>
        simp [hn, Node.callback, Node.receive, Node.handleSupervisedMessage, Node.resolve, Node.cancelFuture,
          Node.drainStep] at hx
    | op | panic | task => exact hl.elim
    | _ => trivial
  | refuse | poll => trivial
  | giveUp | task | join | dropCtx => exact hl.elim

/-- The executor stays where it can stand. -/
theorem Alone.stands (hn : Alone n) (hr : Routed n (.exec x)) (hl : Sole (.exec x : Label A M)) (hx : Node.Exec n x n') :
    n'.pc.alone = true := by
  have hpc := hn.pc
  have hup := hn.routes.routing.goesOn hr hx
  cases hx with
  | op o ho hu hop =>
    subst ho
    exact hl.elim
  | unwind c hc => exact absurd (unwind_stage n c) hup
  | onStart a hold =>
    unfold Node.mainLoop
    rw [hn.unsupervised]
    rfl
  | took m c pc hp htook =>
    show pc.alone = true
    cases hold : n.pc <;> rw [hold] at hpc htook <;> cases htook <;> first | rfl | cases hpc
  | check hand hold =>
    -- no task of it is beyond the limit
    have hnone : checkAnonymousActors n.cfg.maxAnonymousActors n.permits n.overflow = none := by
      simp [checkAnonymousActors, hn.routes.routing.overflow]
    unfold Node.checkStep
    rw [hnone]
    cases hand with
    | none =>
      rw [hold] at hpc
      cases hpc
    | some m => rfl
  | acquired hand k rest hold hk => exact absurd hold (hn.routes.routing.permitted hand k rest)
  | answered p m a k r hold hb hr =>
    -- the message was taken in the main loop or in the drain
    rcases hold with hold | ⟨seen, hold⟩ <;> rw [hold] at hpc <;> cases p <;> first | rfl | cases hpc
  | process p m hold | preRun p m a hold | handled p m a hold hb | await p m stopNow w hold hb | future p m a k hold hb =>
    rw [hold] at hpc
    cases p <;> first | rfl | cases hpc
  | task p m a k j hx' hold hb =>
    subst hx'
    exact hl.elim
  | changed p m seen hold hs =>
    obtain ⟨a₀, tr, hserved⟩ := hn.routes.served
    exact absurd (hserved.future hold).1.symm hs
  | cancelClosed p m hold hc | cancelSent p m c hold hc | notify hold | again t hold | stay hold hc =>
    rw [hold] at hpc
    cases hpc
  | postRun p a hold =>
    rw [hold] at hpc
    cases p with
    | main =>
      simp only [Node.processed]
      split
      · unfold Node.mainLoop
        simp only [hn.unsupervised]
        rfl
      · rfl
    | stopping => cases hpc
    | stopped => rfl
  | children hold hc =>
    -- nobody has a receiver of its notifier
    rw [hn.isClosed] at hc
    cases hc
  | finish hold =>
    unfold Node.finish
    simp only [hn.unsupervised]
    rfl
  | _ => rfl

/-- While it has not been awaited, its mailbox is open. -/
theorem Alone.opened (hn : Alone n) (h : ∀ m ∈ n.mailbox.accepted, m.body.isAwait = false) : n.mailbox.closed = false := by
  have hup := hn.routes.routing.upright
  obtain ⟨cfg, a, ls, -, -, hr⟩ := hn.routes
  refine (opened_run hr).resolve_left hup ?_
  by_contra hs
  obtain ⟨m, hm, hw⟩ := hn.runs hs
  rw [h m hm] at hw
  cases hw

/-- The executor does not stop before an await request. -/
theorem Alone.keepsRunning (hn : Alone n) (hl : Sole (.exec x : Label A M)) (hup : n'.pc.stage ≠ .failed)
    (h : n.exec x = some n') (hs : n'.state ≠ .running) : ∃ m ∈ n.mailbox.accepted, m.body.isAwait = true := by
  have same : n'.state = n.state → ∃ m ∈ n.mailbox.accepted, m.body.isAwait = true := fun heq => hn.runs (heq ▸ hs)
  have hlife := hn.routes.routing.life
  have hup₀ := hn.routes.routing.upright
  have past : n.pc.stage ≠ .main → ∃ m ∈ n.mailbox.accepted, m.body.isAwait = true := by
    intro hstage
    obtain ⟨hm, hlf⟩ := hlife.resolve_left hup₀
    exact hn.runs (hlf.state hstage)
  cases Node.exec_rule h with
  | op o ho hu hop =>
    subst ho
    exact hl.elim
  | unwind c hc => exact absurd (unwind_stage n c) hup
  | leaveLoop hpc =>
    rcases hpc with hpc | hpc
    · -- the receive has yielded `None`, so the mailbox is closed
      by_contra hnone
      have hopen := hn.opened fun m hm => by
        by_contra hw
        exact hnone ⟨m, hm, by simpa using hw⟩
      simp only [Node.exec, hpc, Node.receive] at h
      split at h
      · obtain ⟨q, -, hq⟩ := Option.map_eq_some_iff.1 h
        exact absurd (congrArg Node.pc hq) (by simp [Node.shutdownStart, Node.call])
      · rw [hopen] at h
        split at h <;> simp_all
      · cases h
    · have hpc' := hn.pc
      rw [hpc] at hpc'
      cases hpc'
  | await p m stopNow w hpc hb =>
    have hm := hlife.hand_accepted hup₀ (m := m) (by rw [hpc]; rfl)
    exact ⟨m, hm, by rw [hb]; rfl⟩
  | stoppingDone hx hpc hc => exact past (by rcases hpc with hpc | hpc <;> rw [hpc] <;> exact Stage.noConfusion)
  | check hand hpc => exact same (by unfold Node.checkStep; split <;> cases hand <;> rfl)
  | acquired hand k rest hpc hk => exact absurd hpc (hn.routes.routing.permitted hand k rest)
  | postRun p a hpc =>
    cases p with
    | main =>
      by_cases hrun : n.state = .running
      · simp only [Node.processed, if_pos hrun, Node.mainLoop] at hs
        exact absurd hrun hs
      · exact hn.runs hrun
    | stopping | stopped => exact same rfl
  | cancelClosed p m hpc hc | cancelSent p m c hpc hc =>
    have hpc' := hn.pc
    rw [hpc] at hpc'
    cases hpc'
  | task p m a k j hx' hpc hb =>
    subst hx'
    exact hl.elim
  | finish hpc =>
    refine same ?_
    unfold Node.finish
    simp only [hn.unsupervised]
    rfl
  | _ => exact same rfl

theorem Alone.outside {ms : List (Mail A M)} (hn : Alone n) (hroutes : n'.Routes) (h : Node.Rest ms n n') : Alone n' := by
  refine ⟨hroutes, by rw [h.outside.cfg]; exact hn.unsupervised, h.tasks.trans hn.tasks, h.outside.pc ▸ hn.pc, fun hs => ?_⟩
  obtain ⟨m, hm, hw⟩ := hn.runs (h.outside.state ▸ hs)
  exact ⟨m, by rw [h.outside.mailbox.accepted]; exact List.mem_append_left _ hm, hw⟩

/-- **An actor that one task asks stays one.** -/
theorem alone_step (hn : Alone n) (hl : Sole l) (h : n.step l = some n') : Alone n' := by
  have hr := hn.routed hl h
  have hroutes := hn.routes.step hr h
  cases Node.step_rule h with
  | exec x hx =>
    rcases Node.exec_split hx with ⟨o, rfl, -, -⟩ | ⟨p, m, a, k, j, rfl, -, -, -⟩ | ⟨ht, -, hc, -⟩
    · exact hl.elim
    · exact hl.elim
    · refine ⟨hroutes, by rw [hc]; exact hn.unsupervised, ht.trans hn.tasks, hn.stands hr hl hx, fun hs => ?_⟩
      obtain ⟨m, hm, hw⟩ := hn.keepsRunning hl hroutes.routing.upright h hs
      obtain ⟨ms, hac, -⟩ := Node.exec_accepted hx
      exact ⟨m, by rw [hac]; exact List.mem_append_left _ hm, hw⟩
  | task => exact hl.elim
  | join => exact hl.elim
  | send r b hrest hs => exact hn.outside hroutes hrest
  | quiet l hrest hw ha => exact hn.outside hroutes hrest

/-! ## What is ahead -/

/-- What is ahead was accepted behind what is through. -/
theorem Node.ahead_eq (hl : LifeOK n) (hf : n.pc.stage ≠ .failed) : n.ahead = n.mailbox.accepted.drop n.passed := by
  obtain ⟨h, hl⟩ := hl.resolve_left hf
  have htaken := hl.taken
  have hpassed : n.passed = (h .main ++ h .stopping ++ h .stopped).length := by
    rw [passed, htaken, List.length_append, Nat.add_sub_cancel]
  rw [n.mailbox.history, htaken, hpassed, List.append_assoc _ n.pc.hand.toList, List.drop_left, ahead]

/-- The executor sends nothing to itself. -/
theorem Alone.exec_accepted (hn : Alone n) (hx : Node.Exec n x n') : n'.mailbox.accepted = n.mailbox.accepted := by
  rcases Node.exec_mailbox hx with h | ⟨m, c, pc, hp, -, rfl⟩ | ⟨p, m, hpc, -⟩ | ⟨h, -⟩
  · rw [h]
  · exact (Chan.pop_cases hp).2.2.2.1
  · have hpc' := hn.pc
    rw [hpc] at hpc'
    cases hpc'
  · rw [h, Chan.close_accepted]

/-- What is ahead gets less when the executor goes on. -/
theorem Alone.ahead_suffix (hn : Alone n) (hl : Sole (.exec x : Label A M)) (h : n.step (.exec x) = some n') :
    n'.ahead <:+ n.ahead := by
  have hn' := (alone_step hn hl h).routes.routing
  rw [Node.ahead_eq hn'.life hn'.upright, Node.ahead_eq hn.routes.routing.life hn.routes.routing.upright,
    hn.exec_accepted (Node.exec_rule h)]
  exact List.drop_suffix_drop_left _ (Node.passed_step h)

/-! ## Requests -/

/-- The payload of an async ask. -/
def Body.payload : Body A M → Option M
  | .asyncAsk q _ _ => some q
  | _ => none

/-- The payloads among the messages `l`. -/
def payloads (l : List (Mail A M)) : List M := l.filterMap fun m => m.body.payload

@[simp] theorem payloads_nil : payloads ([] : List (Mail A M)) = [] := rfl

@[simp] theorem payloads_append (l l' : List (Mail A M)) : payloads (l ++ l') = payloads l ++ payloads l' :=
  List.filterMap_append

/-- The payloads whose futures have yielded. -/
def Node.through (n : Node A M) : List M :=
  payloads (handledOf (n.trace.take (n.trace.length - n.pc.opened.length)))

theorem Node.through_eq {tr : List (Event A M)} (h : n.trace = tr ++ n.pc.opened) :
    n.through = payloads (handledOf tr) := by
  rw [through, h, List.length_append, Nat.add_sub_cancel, List.take_left]

/-- What was accepted is through, or is ahead. -/
theorem Alone.accepted (hn : Alone n) : payloads n.mailbox.accepted = n.through ++ payloads n.ahead := by
  obtain ⟨a, tr, hs⟩ := hn.routes.served
  rw [accepted_ahead hn.routes.routing.life hn.routes.routing.upright hs.trace, payloads_append, Node.through_eq hs.trace]

/-- A callback that handles no payload. -/
theorem payloads_plain {e : Event A M} (he : e.plain = true) (a : A) :
    payloads (handledOf ([e] ++ e.closing a)) = [] := by
  cases e with
  | handle m =>
    simp only [Event.plain, Bool.and_eq_true] at he
    cases hb : m.body <;> simp_all [handledOf, payloads, Event.closing, Body.payload, Body.asker]
  | _ => rfl

/-- No payload is through before its future yields. -/
theorem through_step (hn : Alone n) (hl : Sole l) (hne : ∀ a v, l ≠ .exec (.reply a v)) (h : n.step l = some n') :
    n'.through = n.through := by
  obtain ⟨a₀, tr, hs⟩ := hn.routes.served
  -- the callbacks `es` return, and handle no payload
  have same : ∀ es, n'.trace = tr ++ es ++ n'.pc.opened → payloads (handledOf es) = [] → n'.through = n.through := by
    intro es ht he
    rw [Node.through_eq ht, handledOf_append, payloads_append, he, List.append_nil, Node.through_eq hs.trace]
  -- an actor that one task asks gets async asks only, and their futures are polled
  have hasked : ∀ m k, n.pc.hand = some m → m.body.asker = some k → ∃ q, m.body = .asyncAsk q k .nonBlocking := by
    intro m k hm hk
    exact hn.routes.routing.asks (hn.routes.routing.life.hand_accepted hn.routes.routing.upright hm) hk
  have hup := (alone_step hn hl h).routes.routing.upright
  rcases Node.step_outside h with ⟨x, rfl, -⟩ | ⟨ms, ho⟩
  swap
  · refine same [] ?_ rfl
    rw [ho.trace, ho.pc, List.append_nil]
    exact hs.trace
  cases Node.serves_rule h with
  | fails c heq => exact absurd (by rw [heq]; rfl) hup
  | uses o ho heq =>
    subst heq
    have hk := Node.ctxOp_kept ho
    refine same [] ?_ rfl
    rw [hk.trace, hk.pc, List.append_nil]
    exact hs.trace
  | silent hpc hp hactor htrace hasks =>
    refine same [] ?_ rfl
    rw [htrace, hs.trace, hpc]
  | returns e a hx hpc he hp hactor htrace hasks =>
    refine same ([e] ++ e.closing a) ?_ (payloads_plain he a)
    rw [htrace, hs.trace, hpc]
    simp only [List.append_assoc]
  | internal p m hpc hb hpc' hactor htrace hasks =>
    refine same [.handle m] ?_ ?_
    · rw [htrace, hs.trace, hpc, hpc']
      rfl
    · cases hbody : m.body <;> simp_all [handledOf, payloads, Body.payload, Body.isUser]
  | unpolled p m a q k hx hpc hb heq =>
    obtain ⟨q', hb'⟩ := hasked m k (by rw [hpc]; rfl) (by rw [hb]; rfl)
    rw [hb] at hb'
    cases hb'
  | polled p m a q k hx hpc hb heq =>
    subst heq
    refine same [] ?_ rfl
    show n.trace = _
    rw [hs.trace, hpc, List.append_nil]
    rfl
  | replied p m a v k hx hpc heq =>
    subst hx
    exact absurd rfl (hne a v)
  | task p m a q k j hx hpc hb heq =>
    subst hx
    exact hl.elim
  | changed p m seen hpc hseen => exact absurd (hs.future hpc).1.symm hseen
  | cancelled p m hpc => exact absurd hpc (hs.uncancelled p m)

/-- **Then it is.** -/
theorem through_reply {p : Phase} {m : Mail A M} {seen : Bool} {q : M} {k : ℕ} {s : Scheduler} {a : A} {v : M}
    (hn : Alone n) (hpc : n.pc = .future p m seen) (hb : m.body = .asyncAsk q k s)
    (h : n.step (.exec (.reply a v)) = some n') : n'.pc = .postRun p ∧ n'.through = n.through ++ [q] := by
  obtain ⟨a₀, tr, hs⟩ := hn.routes.served
  have hexec : n.exec (.reply a v) = some n' := h
  simp only [Node.exec, hpc, Node.resolve, hb, Option.some.injEq] at hexec
  subst hexec
  have ht : n.trace ++ [.postRun] = (tr ++ [.handle m]) ++ [.postRun] := by
    rw [hs.trace, hpc]
    rfl
  refine ⟨rfl, ?_⟩
  rw [Node.through_eq (show Node.trace _ = (tr ++ [.handle m]) ++ _ from ht), handledOf_append, payloads_append,
    Node.through_eq hs.trace]
  simp [handledOf, payloads, Body.payload, hb]

end Tokactor
