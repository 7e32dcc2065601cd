import Tokactor.Model.Router
import Tokactor.Proof.Asks

/-!
# A router by itself

A router runs no code in its context but the spawning of its children. As long as its code
does not panic and `stopping` does not time out, it does not panic at all.

* `Routed`: such a step of a router.
* `routing_run`: what holds of a router then.
* `routed_answers`: its asks wait, or have an answer.
* `replies_step`: the answers it gives.
-/

namespace Tokactor

variable {A M : Type}

/-- A step of a router that has started without forwarders: its code does not panic, the
supervisor stays, and `stopping` does not time out. -/
def Routed (n : Node A M) : Label A M → Prop
  | .send (.asyncAsk _ .nonBlocking) | .send (.await _) => True
  | .send _ => False
  | .exec .panic | .exec .died | .exec (.task _ _) => False
  | .exec (.op (.spawn _)) => n.pc = .onStart
  | .exec (.op _) => False
  | .exec .tick => n.timeoutCounter ≠ 10
  | .task _ (.child _) => True
  | .task _ _ | .join _ _ => False
  | _ => True

theorem Routed.op {n : Node A M} {o : CtxOp} (h : Routed n (.exec (.op o))) : n.pc = .onStart ∧ ∃ id, o = .spawn id := by
  cases o with
  | spawn id => exact ⟨h, id, rfl⟩
  | _ => exact h.elim

theorem Routed.child {n : Node A M} {k : ℕ} {l : TaskLabel A M} (h : Routed n (.task k l)) : ∃ cl, l = .child cl := by
  cases l with
  | child cl => exact ⟨cl, rfl⟩
  | _ => exact h.elim

/-- A message that a router gets. The error of a child is told by the wrapper of that child. -/
def Node.Expects (n : Node A M) : Body A M → Prop
  | .asyncAsk _ _ s => s = .nonBlocking
  | .user _ | .ask _ _ => False
  | .dead (.error e) => ∃ s ∈ n.tasks, ∃ c told, s.task = .child c ∧ c.pc = .failed e told
  | .dead (.ok _) | .await _ _ | .cancelled _ => True

/-- The wrappers that have told an error are still there. -/
theorem Node.Expects.mono {n n' : Node A M} {b : Body A M} (h : n.Expects b)
    (ht : ∀ s ∈ n.tasks, ∀ c e told, s.task = .child c → c.pc = .failed e told → ∃ s' ∈ n'.tasks, s'.task = .child c) :
    n'.Expects b := by
  unfold Expects at *
  split at h
  · exact h
  · exact h
  · exact h
  · obtain ⟨s, hs, c, told, hc, hpc⟩ := h
    obtain ⟨s', hs', hc'⟩ := ht s hs c _ told hc hpc
    exact ⟨s', hs', c, told, hc', hpc⟩
  · trivial
  · trivial
  · trivial

/-- What holds of a router. -/
structure Routing (n : Node A M) : Prop where
  life : LifeOK n
  kin : KinGone n
  upright : n.pc.stage ≠ .failed
  start : n.pc = .onStart → n.state = .running
  tasks : ∀ s ∈ n.tasks, ∃ c, s.task = .child c
  mail : ∀ m ∈ n.mailbox.accepted, n.Expects m.body
  /-- it has no anonymous tasks to wait for -/
  overflow : n.overflow = 0
  permitted : ∀ hand k rest, n.pc ≠ .acquire hand k rest

theorem routing_init (cfg : Config) (a : A) (hc : cfg.forwarders = []) : Routing (Node.init cfg a : Node A M) where
  life := .inr ⟨_, life_init cfg a⟩
  kin h := by rcases h with h | h <;> cases h
  upright h := by cases h
  start _ := rfl
  tasks s hs := by simp [Node.init, hc] at hs
  mail m hm := by cases hm
  overflow := rfl
  permitted hand k rest h := by cases h

/-- A step of the executor starts a child in `on_start`, or keeps the tasks. -/
theorem Routed.tasks {n n' : Node A M} {x : Act A M} (hr : Routed n (.exec x)) (hx : Node.Exec n x n') :
    (∃ id, n.pc = .onStart ∧ n.state = .running ∧ n' = n.ctxOp (.spawn id)) ∨ n'.tasks = n.tasks := by
  rcases Node.exec_split hx with ⟨o, rfl, ho, rfl⟩ | ⟨p, m, a, k, h, rfl, -, -, -⟩ | ⟨h, -, -⟩
  · obtain ⟨hpc, id, rfl⟩ := hr.op
    exact .inl ⟨id, hpc, ho, rfl⟩
  · exact hr.elim
  · exact .inr h

/-- Past `stopping` a router has no receiver left. -/
theorem Routing.barred {n : Node A M} (hn : Routing n) (hl : n.Late) : n.isClosed = true := by
  unfold Node.isClosed
  rw [List.all_eq_true]
  intro s hs
  obtain ⟨c, hc⟩ := hn.tasks s hs
  rw [hn.kin hl s hs (by rw [hc]; rfl)]
  rfl

/-- Why the executor of a router goes on. -/
theorem Routing.goesOn {n n' : Node A M} {x : Act A M} (hn : Routing n) (hr : Routed n (.exec x)) (hx : Node.Exec n x n') :
    n'.pc.stage ≠ .failed := by
  intro hf
  obtain ⟨c, hp⟩ := exec_fails hx hf
  cases c with
  | callback =>
    rcases hp.2 with rfl | ⟨id, rfl, hs⟩
    · exact hr
    · exact hs (hn.start hr)
  | timeout =>
    obtain ⟨rfl, -, ht⟩ := hp
    exact hr ht
  | assertion =>
    obtain ⟨-, hpc, hc⟩ := hp
    rw [hn.barred (.inl (by rw [hpc]; rfl))] at hc
    cases hc
  | supervisor =>
    obtain ⟨rfl, -⟩ := hp
    exact hr

/-- In `on_start` the executor stays, or `on_start` returns. -/
theorem exec_onStart {n n' : Node A M} {x : Act A M} (h : n.exec x = some n') (hpc : n'.pc = .onStart) :
    n.pc = .onStart ∧ ∃ o, x = .op o := by
  have hx := Node.exec_rule h
  have hold : n.pc = .onStart := by
    have hflow := exec_enters hx (by rw [hpc]; exact Stage.noConfusion)
    rw [hpc] at hflow
    exact (hflow.resolve_right id).symm
  refine ⟨hold, ?_⟩
  unfold Node.exec at h
  rw [hold] at h
  cases x with
  | op o => exact ⟨o, rfl⟩
  | ret a =>
    obtain rfl := Option.some.inj h
    simp only [Node.mainLoop] at hpc
    split at hpc <;> cases hpc
  | panic =>
    obtain rfl := Option.some.inj h
    cases hpc
  | _ => cases h

/-- Without anonymous tasks `check_anonymous_actors` does not wait. -/
theorem routed_permitted {n n' : Node A M} {x : Act A M} (hn : Routing n) (hr : Routed n (.exec x))
    (hx : Node.Exec n x n') : n'.overflow = 0 ∧ ∀ hand k rest, n'.pc ≠ .acquire hand k rest := by
  have ho := hn.overflow
  have hup := hn.goesOn hr hx
  cases hx with
  | op o ho' hu hop =>
    subst ho'
    obtain ⟨-, id, rfl⟩ := hr.op
    simp only [Node.ctxOp, if_pos (show n.state = .running from hop)]
    exact ⟨ho, hn.permitted⟩
  | unwind c hc => exact absurd (unwind_stage n c) hup
  | onStart a hpc =>
    refine ⟨ho, fun hand k rest => ?_⟩
    unfold Node.mainLoop
    cases n.cfg.supervised <;> simp
  | took m c pc hp hpc =>
    refine ⟨ho, fun hand k rest h => ?_⟩
    have h : pc = _ := h
    subst h
    unfold Pc.took at hpc
    split at hpc <;> cases hpc
  | check hand hpc =>
    -- no task of a router is beyond the limit, so the check does not wait
    have hnone : checkAnonymousActors n.cfg.maxAnonymousActors n.permits n.overflow = none := by
      simp [checkAnonymousActors, ho]
    unfold Node.checkStep
    rw [hnone]
    cases hand <;> exact ⟨ho, fun hand k rest => by simp [Node.passCheck]⟩
  | acquired hand k rest hpc hk => exact absurd hpc (hn.permitted hand k rest)
  | task p m a k h hx' hpc hb =>
    subst hx'
    exact hr.elim
  | await p m stopNow w hpc hb =>
    obtain ⟨st, heq, -⟩ := Node.subscribe_eq n stopNow w
    rw [heq]
    exact ⟨ho, fun hand k rest => by simp [Node.handled, Node.call]⟩
  | cancelClosed p m hpc hc =>
    obtain ⟨aw, ak, heq⟩ := Node.dropMail_eq n m
    rw [heq]
    exact ⟨ho, fun hand k rest => by simp [Node.handled, Node.call]⟩
  | cancelSent p m c hpc hc =>
    obtain ⟨aw, ak, heq⟩ := Node.dropMail_eq { n with mailbox := c } m
    rw [heq]
    exact ⟨ho, fun hand k rest => by simp [Node.handled, Node.call]⟩
  | postRun p a hpc =>
    cases p with
    | main =>
      simp only [Node.processed]
      split
      · refine ⟨ho, fun hand k rest => ?_⟩
        unfold Node.mainLoop
        cases n.cfg.supervised <;> simp
      · exact ⟨ho, fun hand k rest => by simp [Node.shutdownStart, Node.call]⟩
    | stopping | stopped => exact ⟨ho, fun hand k rest => by simp [Node.processed]⟩
  | finish hpc =>
    unfold Node.finish
    (repeat' split) <;> exact ⟨ho, fun hand k rest => by simp⟩
  | _ => exact ⟨ho, fun hand k rest h => by cases h⟩

theorem routing_exec {n n' : Node A M} {x : Act A M} (hn : Routing n) (hr : Routed n (.exec x))
    (h : n.step (.exec x) = some n') : Routing n' := by
  have hx := Node.exec_rule h
  obtain ⟨ms, hac, hms⟩ := Node.exec_accepted hx
  have hgrown : ∃ new : List (Slot A M), n'.tasks = n.tasks ++ new ∧ ∀ s ∈ new, ∃ c, s.task = .child c := by
    rcases hr.tasks hx with ⟨id, -, hs, rfl⟩ | ht
    · refine ⟨[⟨.child { id := id, pc := .running }, []⟩], by simp only [Node.ctxOp, if_pos hs], fun s hs => ?_⟩
      exact ⟨_, by rw [List.mem_singleton.1 hs]⟩
    · exact ⟨[], by rw [ht, List.append_nil], fun s hs => by cases hs⟩
  obtain ⟨new, htasks, hnew⟩ := hgrown
  obtain ⟨hover, hperm⟩ := routed_permitted hn hr hx
  refine ⟨lifeOK_step hn.life h, kinGone_step hn.life hn.kin h, hn.goesOn hr hx, fun hpc => ?_, fun s hs => ?_,
    fun m hm => ?_, hover, hperm⟩
  · -- nothing but the use of its context keeps a router in `on_start`
    obtain ⟨hpc₀, o, rfl⟩ := exec_onStart h hpc
    obtain ⟨-, id, rfl⟩ := hr.op
    have hs := hn.start hpc₀
    rw [Node.exec_op h, Node.ctxOp, if_pos hs]
    exact hs
  · rw [htasks, List.mem_append] at hs
    rcases hs with hs | hs
    · exact hn.tasks s hs
    · exact hnew s hs
  · rw [hac, List.mem_append] at hm
    rcases hm with hm | hm
    · refine (hn.mail m hm).mono fun s hs c e told hc _ => ⟨s, ?_, hc⟩
      rw [htasks]
      exact List.mem_append_left _ hs
    · rw [hms m hm]
      trivial

/-- A step that leaves the executor alone. -/
theorem Routing.outside {n n' : Node A M} {l : Label A M} {ms : List (Mail A M)} (hn : Routing n)
    (h : n.step l = some n') (ho : Node.Outside ms n n') (ht : ∀ s ∈ n'.tasks, ∃ c, s.task = .child c)
    (hkept : ∀ s ∈ n.tasks, ∀ c e told, s.task = .child c → c.pc = .failed e told → ∃ s' ∈ n'.tasks, s'.task = .child c)
    (hms : ∀ m ∈ ms, n'.Expects m.body) : Routing n' := by
  refine ⟨lifeOK_step hn.life h, kinGone_step hn.life hn.kin h, ?_, fun hpc => ?_, ht, fun m hm => ?_,
    ho.overflow.trans hn.overflow, by rw [ho.pc]; exact hn.permitted⟩
  · rw [ho.pc]
    exact hn.upright
  · rw [ho.state]
    exact hn.start (ho.pc ▸ hpc)
  · rw [ho.mailbox.accepted, List.mem_append] at hm
    rcases hm with hm | hm
    · exact (hn.mail m hm).mono hkept
    · exact hms m hm

/-- **A step of the wrapper of a child.** -/
theorem routing_child {n n' : Node A M} {k : ℕ} {cl : ChildLabel A} {s : Slot A M} {t : Task A M} {e : Eff A M}
    (hn : Routing n) (h : n.step (.task k (.child cl)) = some n') (ht : Node.Tasked n k (.child cl) n' s t e) :
    Routing n' := by
  have hlt := (List.getElem?_eq_some_iff.1 ht.slot).1
  have hmoves := ht.moves
  have hslot := ht.slot
  have htasks := ht.tasks
  obtain ⟨task, out⟩ := s
  cases hmoves with
  | @child c c' _ _ hm =>
    have hself : (⟨.child c', out ++ e.push.toList⟩ : Slot A M) ∈ n'.tasks := by
      rw [htasks]
      exact List.mem_of_getElem? (List.getElem?_set_self hlt)
    refine hn.outside h ht.outside (fun s' hs' => ?_) (fun s' hs' d err told hd hpc => ?_) fun m hmem => ?_
    · rw [htasks] at hs'
      rcases List.mem_or_eq_of_mem_set hs' with hs' | rfl
      · exact hn.tasks s' hs'
      · exact ⟨c', rfl⟩
    · -- a wrapper that has told an error is at its end
      obtain ⟨j, hj⟩ := List.mem_iff_getElem?.1 hs'
      have hjk : k ≠ j := by
        rintro rfl
        rw [hslot] at hj
        cases hj
        cases hd
        cases hm <;> simp_all
      exact ⟨s', List.mem_of_getElem? (by rw [htasks, List.getElem?_set_ne hjk, hj]), hd⟩
    · simp only [List.mem_map, Option.mem_toList] at hmem
      obtain ⟨b, hb, rfl⟩ := hmem
      cases hm with
      | report a hpc =>
        cases hb
        trivial
      | error err hpc =>
        cases hb
        exact ⟨_, hself, _, true, rfl, rfl⟩
      | _ => cases hb

/-- An async ask that is accepted. -/
theorem Node.send_asyncAsk {n n' : Node A M} {q : M} {s : Scheduler} (h : n.send (.asyncAsk q s) = some n') :
    n'.mailbox.accepted = n.mailbox.accepted ++ [⟨none, .asyncAsk q n.asks.length s⟩] := by
  simp only [send, Option.map_eq_some_iff] at h
  obtain ⟨c, hc, rfl⟩ := h
  exact (Chan.Grown.of_push hc).accepted

/-- A request for a router. -/
theorem Routed.request {n n' : Node A M} {r : Request M} {b : Body A M} (hr : Routed n (.send r))
    (h : n.send r = some n') (hrest : Node.Rest [⟨none, b⟩] n n') : n'.Expects b := by
  have hac := hrest.outside.mailbox.accepted
  cases r with
  | asyncAsk q s =>
    cases s with
    | nonBlocking =>
      rw [Node.send_asyncAsk h, List.append_cancel_left_eq] at hac
      cases hac
      rfl
    | blocking => exact hr.elim
  | await stopNow =>
    simp only [Node.send, Option.map_eq_some_iff] at h
    obtain ⟨c, hc, rfl⟩ := h
    rw [show _ = _ from (Chan.Grown.of_push hc).accepted, List.append_cancel_left_eq] at hac
    cases hac
    trivial
  | _ => exact hr.elim

theorem routing_step {n n' : Node A M} {l : Label A M} (hn : Routing n) (hr : Routed n l) (h : n.step l = some n') :
    Routing n' := by
  cases Node.step_rule h with
  | exec x hx => exact routing_exec hn hr h
  | task k tl s t e hb ht =>
    obtain ⟨cl, rfl⟩ := hr.child
    exact routing_child hn h ht
  | join i j n₁ l hj => exact hr.elim
  | send r b hrest hs =>
    refine hn.outside h hrest.outside (fun s hs => hn.tasks s (hrest.tasks ▸ hs)) ?_ fun m hm => ?_
    · exact fun s hs c _ _ hc _ => ⟨s, hrest.tasks ▸ hs, hc⟩
    · rw [List.mem_singleton] at hm
      rw [hm]
      exact hr.request h hrest
  | quiet l hrest hw ha =>
    refine hn.outside h hrest.outside (fun s hs => hn.tasks s (hrest.tasks ▸ hs)) ?_ fun m hm => by cases hm
    exact fun s hs c _ _ hc _ => ⟨s, hrest.tasks ▸ hs, hc⟩

/-- **What holds of a router in every run of such steps.** -/
theorem routing_run {cfg : Config} {a : A} {ls : List (Label A M)} {n : Node A M} (hc : cfg.forwarders = [])
    (hal : Lts.Along Node.step Routed (Node.init cfg a) ls)
    (hr : Lts.run Node.step (Node.init cfg a) ls = some n) : Routing n :=
  Lts.run_along (fun _ _ _ hn hr h => routing_step hn hr h) (routing_init cfg a hc) hal hr

/-- A router that has taken such steps only. -/
def Node.Routes (n : Node A M) : Prop :=
  ∃ cfg a ls, cfg.forwarders = [] ∧ Lts.Along Node.step Routed (Node.init cfg a) ls ∧
    Lts.run Node.step (Node.init cfg a) ls = some n

theorem Node.Routes.routing {n : Node A M} (h : n.Routes) : Routing n := by
  obtain ⟨cfg, a, ls, hc, hal, hr⟩ := h
  exact routing_run hc hal hr

theorem Node.Routes.served {n : Node A M} (h : n.Routes) : ∃ (a : A) (tr : List (Event A M)), Served .any a n tr := by
  have hup := h.routing.upright
  obtain ⟨cfg, a, ls, -, -, hr⟩ := h
  obtain ⟨tr, hs⟩ := (served_any hr).resolve_left hup
  exact ⟨a, tr, hs⟩

theorem routes_init (cfg : Config) (a : A) (hc : cfg.forwarders = []) : (Node.init cfg a : Node A M).Routes :=
  ⟨cfg, a, [], hc, trivial, rfl⟩

theorem Node.Routes.step {n n' : Node A M} {l : Label A M} (h : n.Routes) (hr : Routed n l) (hs : n.step l = some n') :
    n'.Routes := by
  obtain ⟨cfg, a, ls, hc, hal, hrun⟩ := h
  exact ⟨cfg, a, ls ++ [l], hc, hal.concat hrun hr, Lts.run_concat hrun hs⟩

/-- An ask that a router has accepted is an async one. -/
theorem Routing.asks {n : Node A M} (hn : Routing n) {m : Mail A M} (hm : m ∈ n.mailbox.accepted) {k : ℕ}
    (hk : m.body.asker = some k) : ∃ q, m.body = .asyncAsk q k .nonBlocking := by
  have hexp := hn.mail m hm
  cases hb : m.body with
  | asyncAsk q j s =>
    rw [hb] at hexp hk
    cases hk
    rw [show s = .nonBlocking from hexp]
    exact ⟨q, rfl⟩
  | ask q j =>
    rw [hb] at hexp
    exact hexp.elim
  | _ =>
    rw [hb] at hk
    cases hk

/-- **The asks of a router wait, or have an answer.** -/
theorem routed_answers {n : Node A M} (h : n.Routes) {m : Mail A M} (hm : m ∈ n.mailbox.accepted) {k : ℕ}
    (hk : m.body.asker = some k) :
    (m ∈ n.ahead ∧ ActorRef.answer n k = none) ∨ ∃ v, ActorRef.answer n k = some (.ok v) := by
  have hn := h.routing
  obtain ⟨q, hb⟩ := hn.asks hm hk
  obtain ⟨cfg, a, ls, -, -, hr⟩ := h
  rcases asyncAsk_answered hr hn.upright hm hb with hw | ⟨v, hv⟩
  · exact .inl hw
  · exact .inr ⟨v, hv [] n rfl⟩

/-- Another cell is set, or something else is put into this one. -/
theorem replied_set {asks : List (Reply M)} {j k : ℕ} {r : Reply M} {v : M}
    (hv : (asks.set j r)[k]? = some (.replied v)) (hj : j = k → r ≠ .replied v) : asks[k]? = some (.replied v) := by
  by_cases hjk : j = k
  · rw [hjk] at hv
    have hlt : k < asks.length := by simpa using (List.getElem?_eq_some_iff.1 hv).1
    rw [List.getElem?_set_self hlt] at hv
    exact absurd (Option.some.inj hv) (hj hjk)
  · rwa [List.getElem?_set_ne hjk] at hv

/-- The executor answers the ask at hand only. -/
theorem routed_exec_replied {n n' : Node A M} {x : Act A M} (h : n.Routes) (hr : Routed n (.exec x))
    (hs : n.exec x = some n') {k : ℕ} {v : M} (hv : n'.asks[k]? = some (.replied v)) :
    n.asks[k]? = some (.replied v) ∨
      ∃ a m, x = .reply a v ∧ n.pc.hand = some m ∧ m.body.asker = some k := by
  have same : n'.asks = n.asks → n.asks[k]? = some (.replied v) := fun heq => heq ▸ hv
  have hup := h.routing.goesOn hr (Node.exec_rule hs)
  obtain ⟨a₀, tr, hserved⟩ := h.served
  cases Node.serves_rule hs with
  | fails c heq => exact absurd (by rw [heq]; rfl) hup
  | uses o ho heq => exact .inl (same (by rw [heq]; exact (Node.ctxOp_kept ho).asks))
  | silent _ _ _ _ hasks | returns _ _ _ _ _ _ _ _ hasks | internal _ _ _ _ _ _ _ hasks => exact .inl (same hasks)
  | unpolled p m a q j hx' hpc hb heq =>
    rw [heq] at hv
    exact .inl (replied_set hv fun _ => by simp)
  | polled p m a q j hx' hpc hb heq => exact .inl (same (by rw [heq]))
  | replied p m a u j hx' hpc heq =>
    by_cases hju : j = k ∧ u = v
    · obtain ⟨rfl, rfl⟩ := hju
      refine .inr ⟨a, m, hx', ?_⟩
      rcases hpc with ⟨hpc, q, hb⟩ | ⟨seen, q, s, hpc, hb⟩ <;> rw [hpc, hb] <;> exact ⟨rfl, rfl⟩
    · rw [heq] at hv
      refine .inl (replied_set hv fun hj hr => hju ⟨hj, ?_⟩)
      cases hr
      rfl
  | task p m a q j i hx' hpc hb heq =>
    -- the handler of a router leaves no task
    rw [hx'] at hr
    exact hr.elim
  | changed p m seen hpc hseen => exact absurd (hserved.future hpc).1.symm hseen
  | cancelled p m hpc => exact absurd hpc (hserved.uncancelled p m)

/-- **Where the answers of a router come from**: the future at hand yields them. -/
theorem routed_replied {n n' : Node A M} {l : Label A M} (h : n.Routes) (hr : Routed n l) (hs : n.step l = some n')
    {k : ℕ} {v : M} (hv : n'.asks[k]? = some (.replied v)) :
    n.asks[k]? = some (.replied v) ∨
      ∃ a m, l = .exec (.reply a v) ∧ n.pc.hand = some m ∧ m.body.asker = some k := by
  have same : n'.asks = n.asks → n.asks[k]? = some (.replied v) := fun heq => heq ▸ hv
  cases Node.step_rule hs with
  | exec x hx =>
    rcases routed_exec_replied h hr hs hv with hold | ⟨a, m, rfl, hhand, hask⟩
    · exact .inl hold
    · exact .inr ⟨a, m, rfl, hhand, hask⟩
  | task i tl s t e hb ht =>
    obtain ⟨cl, rfl⟩ := hr.child
    refine .inl (same ?_)
    rw [ht.asks]
    have hmoves := ht.moves
    obtain ⟨task, out⟩ := s
    cases hmoves with
    | child hm => cases hm <;> rfl
  | join i j n₁ l hj => exact hr.elim
  | send r b hrest hsent =>
    rcases hsent.asks with ⟨ha, -⟩ | ⟨-, ha⟩
    · exact .inl (same ha)
    · -- a new ask is pending
      rw [ha] at hv
      rcases Cells.get_concat hv with hv | ⟨-, hv⟩
      · exact .inl hv
      · cases hv
  | quiet l hrest hw ha => exact .inl (same ha)

/-- The future at hand is awaited until it yields. -/
theorem routed_future {n n' : Node A M} {l : Label A M} {p : Phase} {m : Mail A M} {seen : Bool} (h : n.Routes)
    (hr : Routed n l) (hs : n.step l = some n') (hpc : n.pc = .future p m seen) :
    (∃ a v, l = .exec (.reply a v)) ∨ n'.pc = n.pc := by
  rcases Node.step_outside hs with ⟨x, rfl, -⟩ | ⟨ms, ho⟩
  · have hexec : n.resolve p m seen x = some n' := by
      have hexec : n.exec x = some n' := hs
      unfold Node.exec at hexec
      rwa [hpc] at hexec
    obtain ⟨a₀, tr, hserved⟩ := h.served
    have hseen := (hserved.future hpc).1
    unfold Node.resolve at hexec
    split at hexec
    · exact .inl ⟨_, _, rfl⟩
    · rw [if_pos hseen.symm] at hexec
      cases hexec
    · exact hr.elim
    · cases hexec
  · exact .inr ho.pc

end Tokactor
