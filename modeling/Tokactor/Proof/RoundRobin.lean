import Tokactor.Lib.Deal
import Tokactor.Proof.Routes
import Tokactor.Proof.States

/-!
# The turns of a router

* `opened_run`: an actor whose context is running has an open mailbox.
* `asyncAsk_final`: the answer of an async ask is final.
* `rounds_run`: what a router has done with its requests, as long as its children neither
  stop nor panic and it has not panicked itself.
* `round_robin`: the `k`-th request goes to child `k` modulo their number, whose answer is
  passed on.
-/

namespace Tokactor

open Tokactor.Tree

variable {A M : Type} {i : ℕ} {scheduler : Scheduler} {s s' : RouterTree A M}

/-! ## One actor -/

/-- While its context is running, its mailbox is open, unless it has panicked. -/
def Opened (n : Node A M) : Prop := n.pc.stage = .failed ∨ (n.state = .running → n.mailbox.closed = false)

theorem opened_exec {n n' : Node A M} {x : Act A M} (ho : n.state = .running → n.mailbox.closed = false)
    (hl : LifeOK n') (hx : Node.Exec n x n') : Opened n' := by
  by_cases hf : n'.pc.stage = .failed
  · exact .inl hf
  refine .inr fun hrun => ?_
  by_contra hc
  rcases Node.exec_shuts hx (by simpa using hc) with hold | ⟨-, hs, rfl⟩ | ⟨c, -, rfl⟩ | ⟨-, rfl⟩
  · have hstate : n.state ≠ .running := fun h => by rw [ho h] at hold; cases hold
    rcases Node.exec_state hx with hle | ⟨-, hpc⟩
    · rw [hrun] at hle
      cases hn : n.state <;> simp_all [ActorState.rank]
    · -- `shutdown` has started
      obtain ⟨h, hlife⟩ := hl.resolve_left hf
      exact hlife.state (by rw [hpc]; exact Stage.noConfusion) hrun
  · unfold Node.abort at hrun
    cases hn : n.state <;> simp_all
  · exact hf (unwind_stage n c)
  · cases hrun

theorem opened_step {n n' : Node A M} {l : Label A M} (ho : Opened n) (hl : LifeOK n') (h : n.step l = some n') :
    Opened n' := by
  rcases ho with hf | ho
  · exact .inl (failed_step hf h)
  rcases Node.step_outside h with ⟨x, -, hx⟩ | ⟨ms, hout⟩
  · exact opened_exec ho hl hx
  · right
    rw [hout.state, hout.mailbox.closed]
    exact ho

/-- **An actor whose context is running has an open mailbox.** -/
theorem opened_run {cfg : Config} {a : A} {ls : List (Label A M)} {n : Node A M}
    (hr : Lts.run Node.step (Node.init cfg a) ls = some n) : Opened n := by
  have hstep : ∀ (n : Node A M) l n', LifeOK n ∧ Opened n → n.step l = some n' → LifeOK n' ∧ Opened n' :=
    fun n l n' ⟨hl, ho⟩ h => ⟨lifeOK_step hl h, opened_step ho (lifeOK_step hl h) h⟩
  exact (Lts.run_inv hstep ⟨life_run (Lts.run_nil _), .inr fun _ => rfl⟩ hr).2

/-- **The answer of an async ask is final.** -/
theorem asyncAsk_final {cfg : Config} {a : A} {ls : List (Label A M)} {n : Node A M}
    (hr : Lts.run Node.step (Node.init cfg a) ls = some n) (hf : n.pc.stage ≠ .failed) {m : Mail A M}
    (hm : m ∈ n.mailbox.accepted) {q : M} {k : ℕ} {sch : Scheduler} (hb : m.body = .asyncAsk q k sch) {v : M}
    (hv : ActorRef.answer n k = some (.ok v)) :
    ∀ ls' n', Lts.run Node.step n ls' = some n' → ActorRef.answer n' k = some (.ok v) := by
  intro ls' n' hr'
  obtain ⟨tr, hs⟩ := (served_any hr).resolve_left hf
  have hcell := RouterTree.answer_ok hv
  -- an ask that is ahead has no answer yet
  have hahead : k ∉ askIds n.ahead := by
    intro hk
    rw [hs.waiting k hk] at hcell
    cases hcell
  have hfinal := final_run (asksOK_run hr) ⟨hcell, hahead, asyncAsk_direct hr hm hb⟩ hr'
  unfold ActorRef.answer
  rw [hfinal.cell]

/-- What a future yields is the answer of its ask. -/
theorem exec_yields {n n' : Node A M} {a : A} {v : M} (h : n.exec (.reply a v) = some n') {p : Phase} {src : Option ℕ}
    {q : M} {k : ℕ} {sch : Scheduler} {seen : Bool} (hpc : n.pc = .future p ⟨src, .asyncAsk q k sch⟩ seen) {r : Reply M}
    (hk : n.asks[k]? = some r) : n'.mailbox = n.mailbox ∧ ActorRef.answer n' k = some (.ok v) := by
  simp only [Node.exec, hpc, Node.resolve, Option.some.injEq] at h
  subst h
  refine ⟨rfl, ?_⟩
  simp only [ActorRef.answer, Node.handled, Node.call, Node.answer,
    List.getElem?_set_self (List.getElem?_eq_some_iff.1 hk).1]

/-- The ask whose future is awaited has no answer yet. -/
theorem Node.Routes.pending {n : Node A M} (h : n.Routes) {p : Phase} {src : Option ℕ} {q : M} {k : ℕ} {sch : Scheduler}
    {seen : Bool} (hpc : n.pc = .future p ⟨src, .asyncAsk q k sch⟩ seen) : n.asks[k]? = some .pending := by
  obtain ⟨a₀, tr, hserved⟩ := h.served
  refine hserved.waiting k (mem_askIds.2 ⟨⟨src, .asyncAsk q k sch⟩, ?_, rfl⟩)
  rw [Node.ahead, hpc]
  exact List.mem_cons_self

namespace RouterTree

/-! ## The children in the order they were started -/

/-- The children of actor `i`. -/
def kids (t : Tree A M) (i : ℕ) : List ℕ :=
  (List.range t.length).filter fun j => t[j]?.any fun d => d.parent.map Prod.fst = some i

theorem kids_nodup (t : Tree A M) (i : ℕ) : (kids t i).Nodup := List.nodup_range.filter _

theorem mem_kids {t : Tree A M} {j : ℕ} : j ∈ kids t i ↔ Kid t i j := by
  unfold kids Kid
  rw [List.mem_filter, List.mem_range, Option.any_eq_true]
  constructor
  · rintro ⟨-, d, hd, hp⟩
    obtain ⟨⟨i', k⟩, hk, rfl⟩ := Option.map_eq_some_iff.1 (of_decide_eq_true hp)
    exact ⟨d, k, hd, hk⟩
  · rintro ⟨d, k, hd, hk⟩
    exact ⟨(List.getElem?_eq_some_iff.1 hd).1, d, hd, by simp [hk]⟩

/-- An actor that goes on has the supervisor it had. -/
theorem kids_set {t : Tree A M} {j : ℕ} {m : Member A M} (hm : t[j]? = some m) (n : Node A M) :
    kids (t.set j { m with node := n }) i = kids t i := by
  unfold kids
  rw [List.length_set]
  refine List.filter_congr fun j' hj' => ?_
  by_cases hjj : j = j'
  · subst hjj
    rw [List.getElem?_set_self (List.getElem?_eq_some_iff.1 hm).1, hm]
    rfl
  · rw [List.getElem?_set_ne hjj]

theorem kids_concat (t : Tree A M) (d : Member A M) :
    kids (t ++ [d]) i = kids t i ++ if d.parent.map Prod.fst = some i then [t.length] else [] := by
  unfold kids
  rw [List.length_append, List.length_singleton, List.range_succ, List.filter_append]
  congr 1
  · refine List.filter_congr fun j hj => ?_
    rw [List.getElem?_append_left (List.mem_range.1 hj)]
  · rw [List.filter_singleton, List.getElem?_concat_length]
    simp only [Option.any_some, cond_eq_ite, decide_eq_true_eq]

/-- Actors that are not started by actor `i` are not among its children. -/
theorem kids_step {t t' : Tree A M} {l : TreeLabel A M} (h : t.step l = some t') (hl : ∀ cfg a, l ≠ .spawn i cfg a) :
    kids t' i = kids t i := by
  cases ha : actor l with
  | none =>
    cases l with
    | run cfg a =>
      cases h
      rw [show t.started (.run cfg a) = [⟨Node.init { cfg with supervised := false } a, none⟩] from rfl, kids_concat]
      simp
    | spawn | join | step => cases ha
  | some j =>
    obtain ⟨m, nl, n, hact, hm, hstep, hlic, rfl⟩ := acted h ha
    have hset := kids_set (i := i) hm n
    have hstarted : t.started l = [] ∨ ∃ cfg a, l = .spawn j cfg a ∧
        t.started l = [⟨Node.init { cfg with supervised := true } a, some (j, m.node.tasks.length)⟩] := by
      cases l with
      | spawn j' cfg a =>
        cases ha
        simp only [started, hm]
        split
        · exact .inr ⟨cfg, a, rfl, rfl⟩
        · exact .inl rfl
      | run cfg a => cases ha
      | join | step => exact .inl rfl
    rcases hstarted with hnil | ⟨cfg, a, rfl, hnew⟩
    · rw [hnil, List.append_nil, hset]
    · rw [hnew, kids_concat, hset, if_neg, List.append_nil]
      intro hji
      have hji : j = i := by simpa using hji
      exact hl cfg a (by rw [hji])

/-! ## The router and its children -/

/-- The actor `i` is a router with these children, of which it starts `maxActors` in
`on_start`. -/
structure Manned (i maxActors : ℕ) (t : Tree A M) (actors : List ℕ) : Prop where
  grown : ∃ ls, Lts.run Tree.step [] ls = some t
  routes : ∀ m : Member A M, t[i]? = some m → m.node.Routes
  order : actors = kids t i
  bound : actors.length ≤ maxActors
  filled : ∀ m : Member A M, t[i]? = some m → m.node.pc ≠ .onStart → actors.length = maxActors

section

variable {maxActors : ℕ} {t t' : Tree A M} {actors : List ℕ}

theorem Manned.linked (hm : Manned i maxActors t actors) : Linked t := by
  obtain ⟨ls, hls⟩ := hm.grown
  exact linked_run hls

/-- An actor of the tree has run by itself. -/
theorem Manned.lives (hm : Manned i maxActors t actors) {j : ℕ} {d : Member A M} (hd : t[j]? = some d) :
    ∃ cfg a ls, Lts.run Node.step (Node.init cfg a) ls = some d.node := by
  obtain ⟨ls, hls⟩ := hm.grown
  obtain ⟨cfg, a, ls', -, hr⟩ := local_run (P := fun _ _ => True) (.of_forall fun t l x _ _ => trivial) hls hd
  exact ⟨cfg, a, ls', hr⟩

theorem Manned.kid (hm : Manned i maxActors t actors) {j : ℕ} (hj : j ∈ actors) : Kid t i j := by
  rw [hm.order] at hj
  exact mem_kids.1 hj

/-- A child was started after the router. -/
theorem Manned.kid_ne (hm : Manned i maxActors t actors) {j : ℕ} (hj : j ∈ actors) : j ≠ i := by
  obtain ⟨d, k, hd, hp⟩ := hm.kid hj
  have hlt := hm.linked.lt hd hp
  omega

/-- A step of the tree in which the router starts nobody. -/
theorem Manned.moved {l : TreeLabel A M} (hm : Manned i maxActors t actors)
    (hrouted : ∀ m nl, t.acting l = some (i, m, nl) → Routed m.node nl)
    (hfresh : ∀ k m, i = t.length + k → (t.started l)[k]? = some m →
      ∃ cfg a, cfg.forwarders = [] ∧ m.node = Node.init cfg a)
    (hleaves : ∀ m nl n, t.acting l = some (i, m, nl) → m.node.step nl = some n → m.node.pc = .onStart →
      n.pc ≠ .onStart → actors.length = maxActors)
    (hl : ∀ cfg a, l ≠ .spawn i cfg a) (h : t.step l = some t') : Manned i maxActors t' actors where
  grown := by
    obtain ⟨ls, hls⟩ := hm.grown
    exact ⟨ls ++ [l], Lts.run_concat hls h⟩
  routes m' hm' := routes_step hm.routes hrouted hfresh h hm'
  order := hm.order.trans (kids_step h hl).symm
  bound := hm.bound
  filled m' hm' := filled_step hm.filled hleaves h hm'

/-- `on_start` of the router starts a child. -/
theorem Manned.spawn {n : Node A M} {cfg : Config} {a : A} (hm : Manned i maxActors s.tree s.router.actors)
    (hn : s.node i = some n) (hpc : n.pc = .onStart) (hlt : s.router.actors.length < maxActors)
    (ht : s.tree.step (.spawn i cfg a) = some t) :
    Manned i maxActors t (s.router.actors ++ [s.tree.length]) := by
  obtain ⟨p, hp, rfl⟩ := node_eq.1 hn
  have hstate := (hm.routes p hp).routing.start hpc
  have ha : Advance i s (.spawn i cfg a) [] := advance_spawn hp hpc hstate
  obtain ⟨ls, hls⟩ := hm.grown
  obtain ⟨n', d, k, htree, hd, hpc'⟩ := spawn_tree hp hpc hstate ht
  refine ⟨⟨_, Lts.run_concat hls ht⟩, fun m hm' => routes_step hm.routes ha.routed ha.fresh ht hm', ?_, ?_, fun m hm' hne => ?_⟩
  · rw [htree, kids_concat, kids_set hp, hd, List.length_set, ← hm.order]
    simp
  · rw [List.length_append]
    exact hlt
  · -- the router is in `on_start` still
    rw [htree, Cells.get_set (List.getElem?_eq_some_iff.1 hp).1] at hm'
    cases hm'
    exact absurd hpc' hne

/-- A step of the executor of the router past `on_start`. -/
theorem Manned.own {n : Node A M} {x : Act A M} (hm : Manned i maxActors s.tree s.router.actors)
    (hn : s.node i = some n) (hr : Routed n (.exec x)) (hpc : n.pc ≠ .onStart)
    (ht : s.tree.step (.step i (.exec x)) = some t) : Manned i maxActors t s.router.actors := by
  refine hm.moved (fun m nl hact => ?_) (fun k m _ hk => (by cases hk)) (fun m nl n' hact _ hpc₀ => ?_)
    (fun cfg a hl => (by cases hl)) ht
  · obtain ⟨rfl, rfl⟩ := acting_exec hn hact
    exact hr
  · obtain ⟨rfl, -⟩ := acting_exec hn hact
    exact absurd hpc₀ hpc

end

/-! ## What the router does with its requests -/

/-- A request that has been put to a child: the ask of the router it came with, and the ask of
the child that took it. -/
structure Put (M : Type) where
  own : ℕ
  message : M
  child : ℕ
  ask : ℕ

/-- The ask of the router and its message. -/
def Put.request (p : Put M) : ℕ × M := (p.own, p.message)

/-- What the router does with a request. -/
inductive Dealing (M : Type)
  /-- `AsyncAsk::handle` is called with it, and returns its future -/
  | handled (own : ℕ) (message : M)
  /-- a child has taken it -/
  | put (p : Put M)

def Dealing.request? : Dealing M → Option (ℕ × M)
  | .handled own message => some (own, message)
  | .put _ => none

def Dealing.put? : Dealing M → Option (Put M)
  | .handled _ _ => none
  | .put p => some p

/-- The requests that were handled, in their order. -/
def requests (es : List (Dealing M)) : List (ℕ × M) := es.filterMap Dealing.request?

/-- The requests that were put to children. -/
def puts (es : List (Dealing M)) : List (Put M) := es.filterMap Dealing.put?

/-- What the router, actor `i`, does with its requests in a step. -/
def deals (i : ℕ) (s : RouterTree A M) : RouterLabel A M → List (Dealing M)
  | .handle =>
    match (s.node i).map Node.pc with
    | some (.handle _ ⟨_, .asyncAsk message own _⟩) => [.handled own message]
    | _ => []
  | .ask =>
    match (s.node i).map Node.pc, s.proxy with
    | some (.future _ ⟨_, .asyncAsk message own _⟩ _), some (.asking address _) =>
      match s.node address with
      | some d => if d.mailbox.closed then [] else [.put ⟨own, message, address, d.asks.length⟩]
      | none => []
    | _, _ => []
  | _ => []

@[simp] theorem requests_nil : requests ([] : List (Dealing M)) = [] := rfl

@[simp] theorem puts_nil : puts ([] : List (Dealing M)) = [] := rfl

@[simp] theorem requests_handled (es : List (Dealing M)) (own : ℕ) (q : M) :
    requests (es ++ [.handled own q]) = requests es ++ [(own, q)] :=
  List.filterMap_append

@[simp] theorem requests_put (es : List (Dealing M)) (p : Put M) : requests (es ++ [.put p]) = requests es := by
  simp [requests, Dealing.request?]

@[simp] theorem puts_handled (es : List (Dealing M)) (own : ℕ) (q : M) : puts (es ++ [.handled own q]) = puts es := by
  simp [puts, Dealing.put?]

@[simp] theorem puts_put (es : List (Dealing M)) (p : Put M) : puts (es ++ [.put p]) = puts es ++ [p] :=
  List.filterMap_append

/-- None of the children of actor `i` stops or panics. -/
def KidsRun (t : Tree A M) (i : ℕ) : Prop :=
  ∀ d ∈ t, d.parent.map Prod.fst = some i → d.node.state = .running ∧ d.node.pc.stage ≠ .failed

instance (t : Tree A M) (i : ℕ) : Decidable (KidsRun t i) := inferInstanceAs (Decidable (∀ d ∈ t, _ → _))

/-- What a router has done with its requests, when it has not panicked. -/
structure Rounds (i : ℕ) (scheduler : Scheduler) (maxActors : ℕ) (es : List (Dealing M)) (s : RouterTree A M) : Prop where
  manned : Manned i maxActors s.tree s.router.actors
  max : s.router.maxActors = maxActors
  index : s.router.index = (requests es).length % maxActors
  started : es ≠ [] → s.router.actors.length = maxActors
  dealt : Deal.Dealt s.router.actors Put.child (puts es)
  accepted : ∀ p ∈ puts es, Accepted s.tree p.child (.asyncAsk p.message p.ask scheduler)
  idle : s.proxy = none → requests es = (puts es).map Put.request ∧
    ∀ m : Member A M, s.tree[i]? = some m → ∀ p hand seen, m.node.pc ≠ .future p hand seen
  asking : ∀ address retries, s.proxy = some (.asking address retries) →
    s.router.actors[(puts es).length % maxActors]? = some address ∧
      ∃ own q, requests es = (puts es).map Put.request ++ [(own, q)] ∧ Polls s.tree i own q
  awaiting : ∀ address k, s.proxy = some (.awaiting address k) →
    requests es = (puts es).map Put.request ∧
      ∃ p, (puts es).getLast? = some p ∧ p.child = address ∧ p.ask = k ∧ Polls s.tree i p.own p.message
  replied : ∀ p ∈ puts es, (s.proxy = some (.awaiting p.child p.ask) ∧ (puts es).getLast? = some p) ∨
    ∃ v, Gave s.tree i p.own v ∧ Gave s.tree p.child p.ask v

section

variable {maxActors : ℕ} {es : List (Dealing M)} {t : Tree A M}

theorem rounds_init (maxRetry : ℕ) :
    Rounds i scheduler maxActors [] (RouterTree.init maxRetry maxActors : RouterTree A M) where
  manned :=
    { grown := ⟨[], rfl⟩
      routes := fun m hm => by cases hm
      order := rfl
      bound := Nat.zero_le _
      filled := fun m hm => by cases hm }
  max := rfl
  index := (Nat.zero_mod _).symm
  started h := absurd rfl h
  dealt := .nil _ _
  accepted p hp := by cases hp
  idle _ := ⟨rfl, fun m hm => by cases hm⟩
  asking _ _ h := by cases h
  awaiting _ _ h := by cases h
  replied p hp := by cases hp

/-- A step of the tree that is neither a turn of the future nor the start of a child. -/
theorem Rounds.moved {l : TreeLabel A M} (hs : Rounds i scheduler maxActors es s) (ha : Advance i s l [])
    (hl : ∀ cfg a, l ≠ .spawn i cfg a) (h : s.tree.step l = some t) :
    Rounds i scheduler maxActors es { s with tree := t } := by
  -- in such a step the future yields nothing
  have hpolls : ∀ own q, Polls s.tree i own q → Polls t i own q := by
    intro own q hq
    refine hq.step hs.manned.routes ha.routed (fun m a v hact => ?_) h
    obtain ⟨m', hm', p, src, seen, hpc⟩ := hq
    obtain ⟨-, hm, -⟩ := acting_cases hact
    rw [hm'] at hm
    cases hm
    obtain ⟨j, k, hmem⟩ := ha.replies m a v _ own hact (by rw [hpc]; rfl) rfl
    cases hmem
  refine ⟨?_, hs.max, hs.index, hs.started, hs.dealt, fun p hp => (hs.accepted p hp).step h, fun hp => ?_,
    fun address retries hp => ?_, fun address k hp => ?_, fun p hp => ?_⟩
  · exact hs.manned.moved ha.routed ha.fresh (fun m nl n h₁ h₂ h₃ h₄ => (ha.leaves m nl n h₁ h₂ h₃ h₄).trans hs.max) hl h
  · obtain ⟨hreq, hbusy⟩ := hs.idle hp
    exact ⟨hreq, fun m hm => busy_step hbusy (ha.polls hp) h hm⟩
  · obtain ⟨haddr, own, q, hreq, hq⟩ := hs.asking address retries hp
    exact ⟨haddr, own, q, hreq, hpolls own q hq⟩
  · obtain ⟨hreq, p, hlast, hchild, hask, hq⟩ := hs.awaiting address k hp
    exact ⟨hreq, p, hlast, hchild, hask, hpolls p.own p.message hq⟩
  · rcases hs.replied p hp with hw | ⟨v, hown, hchild⟩
    · exact .inl hw
    · exact .inr ⟨v, hown.step h, hchild.step h⟩

/-- Nothing has been asked before `on_start` returns. -/
theorem Rounds.fresh (hs : Rounds i scheduler maxActors es s) (hlt : s.router.actors.length < maxActors) : es = [] := by
  by_contra hne
  have hfull := hs.started hne
  omega

theorem Rounds.spawn {n : Node A M} {cfg : Config} {a : A} (hs : Rounds i scheduler maxActors es s)
    (hn : s.node i = some n) (hpc : n.pc = .onStart) (hlt : s.router.actors.length < maxActors)
    (ht : s.tree.step (.spawn i cfg a) = some t) :
    Rounds i scheduler maxActors es
      { s with tree := t, router := { s.router with actors := s.router.actors ++ [s.tree.length] } } := by
  have hm := hs.manned.spawn hn hpc hlt ht
  obtain rfl := hs.fresh hlt
  obtain ⟨p, hp, rfl⟩ := node_eq.1 hn
  have ha : Advance i s (.spawn i cfg a) [] := advance_spawn hp hpc ((hs.manned.routes p hp).routing.start hpc)
  refine ⟨hm, hs.max, hs.index, fun h => absurd rfl h, .nil _ _, fun p hp => (by cases hp), fun hproxy => ⟨rfl, fun m hm => ?_⟩,
    fun address retries hproxy => ?_, fun address k hproxy => ?_, fun p hp => (by cases hp)⟩
  · exact busy_step (hs.idle hproxy).2 (ha.polls hproxy) ht hm
  · obtain ⟨-, own, q, hreq, -⟩ := hs.asking address retries hproxy
    cases hreq
  · obtain ⟨-, p, hlast, -⟩ := hs.awaiting address k hproxy
    cases hlast

/-- In a handler of the router its future is not there yet. -/
theorem Rounds.unasked (hs : Rounds i scheduler maxActors es s) {n : Node A M} (hn : s.node i = some n)
    (hpc : ∀ p m seen, n.pc ≠ .future p m seen) : s.proxy = none := by
  obtain ⟨m, hm, rfl⟩ := node_eq.1 hn
  have hpolls : ∀ own q, ¬ Polls s.tree i own q := by
    rintro own q ⟨m', hm', p, src, seen, hpc'⟩
    rw [hm] at hm'
    cases hm'
    exact hpc p _ seen hpc'
  cases hp : s.proxy with
  | none => rfl
  | some x =>
    cases x with
    | asking address retries =>
      obtain ⟨-, own, q, -, hq⟩ := hs.asking address retries hp
      exact absurd hq (hpolls own q)
    | awaiting address k =>
      obtain ⟨-, p, -, -, -, hq⟩ := hs.awaiting address k hp
      exact absurd hq (hpolls p.own p.message)

/-- The router takes a request in hand: the future is for the child whose turn it is. -/
theorem Rounds.handle {n : Node A M} {p : Phase} {src : Option ℕ} {q : M} {own : ℕ} {sch : Scheduler} {address : ℕ}
    (hs : Rounds i scheduler maxActors es s) (hn : s.node i = some n) (hpc : n.pc = .handle p ⟨src, .asyncAsk q own sch⟩)
    (ha : s.router.actors[s.router.index]? = some address)
    (ht : s.tree.step (.step i (.exec (.ret n.actor))) = some t) :
    Rounds i scheduler maxActors (es ++ [.handled own q])
      { s with
        tree := t
        router := { s.router with index := (s.router.index + 1) % s.router.maxActors }
        proxy := some (.asking address s.router.maxRetry) } := by
  have hproxy := hs.unasked hn (by rw [hpc]; simp)
  obtain ⟨hreq, -⟩ := hs.idle hproxy
  have hlen : (requests es).length = (puts es).length := by rw [hreq, List.length_map]
  have hold : ∀ p ∈ puts es, ∃ v, Gave s.tree i p.own v ∧ Gave s.tree p.child p.ask v := by
    intro p hp
    refine (hs.replied p hp).resolve_left fun h => ?_
    rw [hproxy] at h
    cases h.1
  have hpolls : Polls t i own q := by
    obtain ⟨m, hm, rfl⟩ := node_eq.1 hn
    have hr := (hs.manned.routes m hm).routing
    have hmem := hr.life.hand_accepted hr.upright (m := ⟨src, .asyncAsk q own sch⟩) (by rw [hpc]; rfl)
    obtain ⟨q', hb⟩ := hr.asks hmem rfl
    cases hb
    obtain ⟨m', n', hm', hexec, hnew⟩ := exec_tree ht
    rw [hm] at hm'
    cases hm'
    simp only [Node.exec, hpc, Node.deliver, Node.callback, Option.some.injEq] at hexec
    exact ⟨_, hnew, p, src, m.node.shutdown, by rw [← hexec]⟩
  have hrouted : Routed n (.exec (.ret n.actor)) := trivial
  refine ⟨hs.manned.own hn hrouted (by rw [hpc]; simp) ht, hs.max, ?_, fun _ => ?_, ?_, ?_, fun h => (by cases h),
    fun address' retries h => ?_, fun address' k h => (by cases h), ?_⟩
  · rw [requests_handled, List.length_append, List.length_singleton, hs.index, hs.max, Nat.mod_add_mod]
  · obtain ⟨m, hm, rfl⟩ := node_eq.1 hn
    exact hs.manned.filled m hm (by rw [hpc]; simp)
  · rw [puts_handled]
    exact hs.dealt
  · rw [puts_handled]
    exact fun p hp => (hs.accepted p hp).step ht
  · cases h
    rw [puts_handled, requests_handled, hreq, ← hlen, ← hs.index]
    exact ⟨ha, own, q, rfl, hpolls⟩
  · rw [puts_handled]
    intro p hp
    obtain ⟨v, hown, hchild⟩ := hold p hp
    exact .inr ⟨v, hown.step ht, hchild.step ht⟩

/-- A child whose context is running takes what it is asked. -/
theorem Manned.opened {actors : List ℕ} (hm : Manned i maxActors t actors) (hk : KidsRun t i) {j : ℕ} (hj : j ∈ actors)
    {d : Member A M} (hd : t[j]? = some d) :
    d.node.mailbox.closed = false ∧ d.node.pc.stage ≠ .failed := by
  obtain ⟨d', k, hd', hp⟩ := hm.kid hj
  rw [hd] at hd'
  cases hd'
  obtain ⟨hrun, hup⟩ := hk d (List.mem_of_getElem? hd) (by rw [hp]; rfl)
  obtain ⟨cfg, a, ls, hr⟩ := hm.lives hd
  exact ⟨(opened_run hr).resolve_left hup hrun, hup⟩

theorem Rounds.child_mem (hs : Rounds i scheduler maxActors es s) {p : Put M} (hp : p ∈ puts es) :
    p.child ∈ s.router.actors := by
  obtain ⟨k, hk⟩ := List.mem_iff_getElem?.1 hp
  exact List.mem_of_getElem? (hs.dealt k p hk)

/-- What a child has answered is final. -/
theorem Rounds.childAnswer (hs : Rounds i scheduler maxActors es s) (hk : KidsRun s.tree i) {p : Put M} (hp : p ∈ puts es)
    {d : Node A M} (hd : s.node p.child = some d) {v : M} (hv : ActorRef.answer d p.ask = some (.ok v)) :
    Gave s.tree p.child p.ask v := by
  obtain ⟨c, hc, rfl⟩ := node_eq.1 hd
  obtain ⟨cfg, a, ls, hr⟩ := hs.manned.lives hc
  have hup := (hs.manned.opened hk (hs.child_mem hp) hc).2
  obtain ⟨c', hc', m, hm, hb⟩ := hs.accepted p hp
  rw [hc] at hc'
  cases hc'
  exact ⟨c, hc, asyncAsk_final hr hup hm hb hv⟩

/-- The future asks the child, which takes the request. -/
theorem Rounds.ask {n d : Node A M} {p : Phase} {src : Option ℕ} {q : M} {own : ℕ} {sch : Scheduler} {seen : Bool}
    {address retries : ℕ} (hs : Rounds i scheduler maxActors es s) (hn : s.node i = some n)
    (hpc : n.pc = .future p ⟨src, .asyncAsk q own sch⟩ seen) (hp : s.proxy = some (.asking address retries))
    (hd : s.node address = some d) (ht : s.tree.step (.step address (.send (.asyncAsk q scheduler))) = some t) :
    Rounds i scheduler maxActors (es ++ [.put ⟨own, q, address, d.asks.length⟩])
      { s with tree := t, proxy := some (.awaiting address d.asks.length) } := by
  obtain ⟨haddr, own', q', hreq, hq⟩ := hs.asking address retries hp
  have hne := hs.manned.kid_ne (List.mem_of_getElem? haddr)
  have hmoved := hs.moved (advance_away hne) (fun cfg a h => by cases h) ht
  have hfull : s.router.actors.length = maxActors := hs.started fun hes => by
    rw [hes] at hreq
    cases hreq
  -- the request at hand is the last one
  obtain ⟨rfl, rfl⟩ := hq.hand hn hpc
  have hold : ∀ p ∈ puts es, ∃ v, Gave t i p.own v ∧ Gave t p.child p.ask v := by
    intro p' hp'
    refine (hmoved.replied p' hp').resolve_left fun h => ?_
    have hproxy : s.proxy = some (.awaiting p'.child p'.ask) := h.1
    rw [hp] at hproxy
    cases hproxy
  obtain ⟨c, hc, rfl⟩ := node_eq.1 hd
  refine ⟨hmoved.manned, hs.max, ?_, fun _ => hfull, ?_, fun p' hp' => ?_, fun h => (by cases h), fun _ _ h => (by cases h),
    fun address' k h => ?_, fun p' hp' => ?_⟩
  · rw [requests_put]
    exact hs.index
  · rw [puts_put]
    exact hs.dealt.concat (by rw [hfull]; exact haddr)
  · rw [puts_put, List.mem_append, List.mem_singleton] at hp'
    rcases hp' with hp' | rfl
    · exact hmoved.accepted p' hp'
    · exact accepted_ask hc ht
  · cases h
    obtain ⟨-, own₁, q₁, hreq₁, hq₁⟩ := hmoved.asking address retries hp
    rw [hreq] at hreq₁
    obtain ⟨-, h₁⟩ := List.append_inj' hreq₁ rfl
    cases h₁
    rw [requests_put, puts_put, hreq, List.map_append]
    exact ⟨rfl, _, List.getLast?_concat, rfl, rfl, hq₁⟩
  · rw [puts_put, List.mem_append, List.mem_singleton] at hp'
    rw [puts_put]
    rcases hp' with hp' | rfl
    · exact .inr (hold p' hp')
    · exact .inl ⟨rfl, List.getLast?_concat⟩

/-- The child has answered, and its answer becomes that of the router. -/
theorem Rounds.answer {n d : Node A M} {p : Phase} {src : Option ℕ} {q : M} {own : ℕ} {sch : Scheduler} {seen : Bool}
    {address k : ℕ} {v : M} (hs : Rounds i scheduler maxActors es s) (hk : KidsRun s.tree i) (hn : s.node i = some n)
    (hpc : n.pc = .future p ⟨src, .asyncAsk q own sch⟩ seen) (hp : s.proxy = some (.awaiting address k))
    (hd : s.node address = some d) (hv : ActorRef.answer d k = some (.ok v))
    (ht : s.tree.step (.step i (.exec (.reply n.actor v))) = some t) :
    Rounds i scheduler maxActors es { s with tree := t, proxy := none, served := s.served ++ [(own, address, k, v)] } := by
  obtain ⟨hreq, p₀, hlast, rfl, rfl, hq⟩ := hs.awaiting address k hp
  obtain ⟨rfl, rfl⟩ := hq.hand hn hpc
  have hrouted : Routed n (.exec (.reply n.actor v)) := trivial
  have hmanned := hs.manned.own hn hrouted (by rw [hpc]; simp) ht
  have hchild := hs.childAnswer hk (List.mem_of_getLast? hlast) hd hv
  have hown : Gave t i p₀.own v := by
    obtain ⟨m, n', hm, hexec, hnew⟩ := exec_tree ht
    obtain rfl : m.node = n := Option.some.inj ((node_eq.2 ⟨m, hm, rfl⟩).symm.trans hn)
    obtain ⟨cfg, a, ls, hr⟩ := hmanned.lives hnew
    have hup := (hmanned.routes _ hnew).routing.upright
    have hmail := (hs.manned.routes m hm).routing.life.hand_accepted (hs.manned.routes m hm).routing.upright
      (m := ⟨src, .asyncAsk p₀.message p₀.own sch⟩) (by rw [hpc]; rfl)
    obtain ⟨hmailbox, hgot⟩ := exec_yields hexec hpc ((hs.manned.routes m hm).pending hpc)
    exact ⟨_, hnew, asyncAsk_final hr hup (by rw [hmailbox]; exact hmail) rfl hgot⟩
  refine ⟨hmanned, hs.max, hs.index, hs.started, hs.dealt, fun p hp => (hs.accepted p hp).step ht, fun _ => ⟨hreq, fun m hm => ?_⟩,
    fun _ _ h => (by cases h), fun _ _ h => (by cases h), fun p' hp' => .inr ?_⟩
  · intro p' hand seen' hpc'
    have hpolled := replied_pc ht (n := m.node) (by rw [hm]; rfl)
    rw [hpc'] at hpolled
    cases hpolled
  · rcases hs.replied p' hp' with ⟨-, hlast'⟩ | ⟨v', hown', hchild'⟩
    · rw [hlast] at hlast'
      cases hlast'
      exact ⟨v, hown, hchild.step ht⟩
    · exact ⟨v', hown'.step ht, hchild'.step ht⟩

/-- A router that has not panicked in a step of its own took it as a router does. -/
theorem permitted_routed {m : Member A M} {nl : Label A M} (hm : s.tree[i]? = some m)
    (hruns : runs s.router m.node nl = true) (ht : s.tree.step (.step i nl) = some t)
    (hup : ∀ m' : Member A M, t[i]? = some m' → m'.node.pc.stage ≠ .failed) : Routed m.node nl := by
  have hexec : ∀ x, nl = .exec x → ∃ n', m.node.exec x = some n' ∧ n'.pc.stage ≠ .failed := by
    rintro x rfl
    obtain ⟨m', n', hm', hexec, hnew⟩ := exec_tree ht
    rw [hm] at hm'
    cases hm'
    exact ⟨n', hexec, hup _ hnew⟩
  refine runs_routed hruns ?_ ?_ ?_
  · intro hl
    obtain ⟨n', hx, hn'⟩ := hexec .panic hl
    exact hn' (by rw [Node.exec_panic hx]; rfl)
  · intro hl
    obtain ⟨n', hx, hn'⟩ := hexec .died hl
    exact hn' (by rw [Node.exec_died hx]; rfl)
  · intro hl ht
    obtain ⟨n', hx, hn'⟩ := hexec .tick hl
    exact hn' (by rw [Node.exec_tick ht hx]; rfl)

theorem Rounds.other {l : TreeLabel A M} (hs : Rounds i scheduler maxActors es s) (hp : s.permits i l = true)
    (ht : s.tree.step l = some t) (hup : ∀ m' : Member A M, t[i]? = some m' → m'.node.pc.stage ≠ .failed) :
    Rounds i scheduler maxActors es { s with tree := t } := by
  refine hs.moved (advance_permitted hp fun m nl hm hl hruns => ?_) (fun cfg a hl => ?_) ht
  · subst hl
    exact permitted_routed hm hruns ht hup
  · subst hl
    simp [permits] at hp

/-- The router, actor `i`, has panicked. -/
def Failed (s : RouterTree A M) (i : ℕ) : Prop := ∃ m : Member A M, s.tree[i]? = some m ∧ m.node.pc.stage = .failed

/-- A router that gets `AskError::Dropped` panics. -/
theorem answer_fails {address k : ℕ} {d : Node A M} {e : AskError M} (hp : s.proxy = some (.awaiting address k))
    (hd : s.node address = some d) (hv : ActorRef.answer d k = some (.error e))
    (h : s.step i scheduler .answer = some s') : Failed s' i := by
  obtain ⟨n, hn, h⟩ := Option.bind_eq_some_iff.1 h
  unfold answer at h
  split at h
  · rename_i hp'
    rw [hp] at hp'
    cases hp'
    simp only [hd, Option.bind_some, hv] at h
    obtain ⟨t, ht, rfl⟩ := act_cases h
    obtain ⟨m, n', -, hexec, hnew⟩ := exec_tree ht
    exact ⟨_, hnew, by rw [Node.exec_panic hexec]; rfl⟩
  · cases h

/-- A router that has panicked does nothing more. -/
theorem Failed.step {l : RouterLabel A M} (hf : Failed s i) (h : s.step i scheduler l = some s') : Failed s' i := by
  obtain ⟨m, hm, hf⟩ := hf
  obtain ⟨c, hc⟩ := Pc.failed_iff.1 hf
  have hn : s.node i = some m.node := node_eq.2 ⟨m, hm, rfl⟩
  cases l with
  | other l =>
    have h : (if s.permits i l then s.act l id else none) = some s' := h
    split at h
    · obtain ⟨t, ht, rfl⟩ := act_cases h
      obtain ⟨m', hm', -, ls, hls⟩ := goes_on ht hm
      exact ⟨m', hm', Lts.run_inv (I := fun n : Node A M => n.pc.stage = .failed) (fun _ _ _ hf h => failed_step hf h) hf hls⟩
    · cases h
  | spawn cfg a =>
    rw [RouterTree.step, hn, Option.bind_some, onStart, hc] at h
    cases h
  | handle =>
    rw [RouterTree.step, hn, Option.bind_some, RouterTree.handle, hc] at h
    cases h
  | ask =>
    rw [RouterTree.step, hn, Option.bind_some, RouterTree.ask, hc] at h
    cases h
  | answer =>
    rw [RouterTree.step, hn, Option.bind_some, RouterTree.answer, hc] at h
    cases h

/-- **A step of a router whose children run**, if it does not panic in it. -/
theorem rounds_step {l : RouterLabel A M} (hs : Rounds i scheduler maxActors es s) (hk : KidsRun s.tree i)
    (hpos : 0 < maxActors) (hup : ¬ Failed s' i) (h : s.step i scheduler l = some s') :
    Rounds i scheduler maxActors (es ++ deals i s l) s' := by
  have hup' : ∀ m' : Member A M, s'.tree[i]? = some m' → m'.node.pc.stage ≠ .failed := fun m' hm' hf => hup ⟨m', hm', hf⟩
  have hturn := turn h
  cases hturn with
  | spawn cfg a n t hn hpc hlt ht =>
    rw [show deals i s (.spawn cfg a) = [] from rfl, List.append_nil]
    exact hs.spawn hn hpc (hs.max ▸ hlt) ht
  | handle n p src q own sch address t hn hpc ha ht =>
    have hdeals : deals i s .handle = [.handled own q] := by simp only [deals, hn, Option.map_some, hpc]
    rw [hdeals]
    exact hs.handle hn hpc ha ht
  | ask n p src q own sch seen address retries d t hn hpc hp hd ht =>
    obtain ⟨c, hc, rfl⟩ := node_eq.1 hd
    have hopen := (hs.manned.opened hk (List.mem_of_getElem? (hs.asking address retries hp).1) hc).1
    have hdeals : deals i s .ask = [.put ⟨own, q, address, c.node.asks.length⟩] := by
      simp only [deals, hn, Option.map_some, hpc, hp, hd, hopen]
      rfl
    rw [hdeals]
    exact hs.ask hn hpc hp hd ht
  | answer n p src q own sch seen address k d v t hn hpc hp hd hv ht =>
    rw [show deals i s .answer = [] from rfl, List.append_nil]
    exact hs.answer hk hn hpc hp hd hv ht
  | other l t hp ht =>
    rw [show deals i s (.other l) = [] from rfl, List.append_nil]
    exact hs.other hp ht hup'
  | unaddressed n p m hn hpc ha =>
    -- once `on_start` has returned, there is a child at every index
    obtain ⟨r, hr, rfl⟩ := node_eq.1 hn
    have hfull := hs.manned.filled r hr (by rw [hpc]; simp)
    rw [List.getElem?_eq_none_iff, hs.index, hfull] at ha
    exact absurd (Nat.mod_lt _ hpos) (Nat.not_lt.2 ha)
  | closed address retries d hp hd hc =>
    obtain ⟨c, hcm, rfl⟩ := node_eq.1 hd
    rw [(hs.manned.opened hk (List.mem_of_getElem? (hs.asking address retries hp).1) hcm).1] at hc
    cases hc
  | dropped address k d e hp hd hv => exact absurd (answer_fails hp hd hv h) hup

/-- **What a router has done with its requests**, as long as its children neither stop nor
panic, and it has not panicked itself. -/
theorem rounds_run {maxRetry : ℕ} {ls : List (RouterLabel A M)} (hpos : 0 < maxActors)
    (hk : Lts.Along (RouterTree.step i scheduler) (fun s _ => KidsRun s.tree i) (RouterTree.init maxRetry maxActors) ls)
    (hr : Lts.run (RouterTree.step i scheduler) (RouterTree.init maxRetry maxActors) ls = some s) (hup : ¬ Failed s i) :
    Rounds i scheduler maxActors (Lts.outs (RouterTree.step i scheduler) (deals i) (RouterTree.init maxRetry maxActors) ls) s := by
  refine (Lts.run_outs (I := fun es s => Failed s i ∨ Rounds i scheduler maxActors es s) ?_ ?_ hk hr).resolve_left hup
  · intro es s l s' hs hk h
    by_cases hf : Failed s' i
    · exact .inl hf
    · exact .inr (rounds_step (hs.resolve_left fun hf' => hf (hf'.step h)) hk hpos hf h)
  · exact .inr (rounds_init maxRetry)

end

/-! ## Round-robin -/

/-- What round-robin means for the router, actor `i`, with its children on the given scheduler,
when it has done `es` with its requests. -/
structure RoundRobin (i : ℕ) (scheduler : Scheduler) (es : List (Dealing M)) (s : RouterTree A M) (n : Node A M) : Prop where
  /-- the actors are its children in the order they were started -/
  spawned : s.router.actors = kids s.tree i
  /-- past `on_start` there is one at the index, and the divisor is not zero -/
  inBounds : n.pc ≠ .onStart → s.router.actors.length = s.router.maxActors ∧ 0 < s.router.maxActors ∧
    s.router.index < s.router.actors.length
  /-- the index counts the requests -/
  index : s.router.index = (requests es).length % s.router.maxActors
  /-- request `k` is put, as it is, to child `k` modulo their number, which takes it -/
  turns : ∀ k p, (puts es)[k]? = some p →
    (requests es)[k]? = some (p.own, p.message) ∧ s.router.actors[k % s.router.maxActors]? = some p.child ∧
      ∃ d, s.node p.child = some d ∧ ∃ m ∈ d.mailbox.accepted, m.body = .asyncAsk p.message p.ask scheduler
  /-- every request has been put, or is the last one and waits for a slot in the mailbox of
  that child -/
  next : ∀ k r, (requests es)[k]? = some r → k < (puts es).length ∨
    k = (puts es).length ∧ ∃ address retries, s.proxy = some (.asking address retries) ∧
      s.router.actors[k % s.router.maxActors]? = some address
  /-- its reply is that of the child, or it is the last one and awaits it -/
  replies : ∀ p ∈ puts es,
    (s.proxy = some (.awaiting p.child p.ask) ∧ (puts es).getLast? = some p ∧ ActorRef.answer n p.own = none) ∨
    ∃ d v, s.node p.child = some d ∧ ActorRef.answer d p.ask = some (.ok v) ∧ ActorRef.answer n p.own = some (.ok v)
  /-- a reply that is awaited is passed on when it is there -/
  passes : ∀ p, (puts es).getLast? = some p → s.proxy = some (.awaiting p.child p.ask) →
    ∀ d v, s.node p.child = some d → ActorRef.answer d p.ask = some (.ok v) →
      ∃ s' n', s.step i scheduler .answer = some s' ∧ s'.node i = some n' ∧ ActorRef.answer n' p.own = some (.ok v)
  /-- a child that polls its futures drops no request -/
  undropped : scheduler = .nonBlocking → ∀ p ∈ puts es, ∀ d, s.node p.child = some d →
    ActorRef.answer d p.ask ≠ some (.error .dropped)
  /-- any two children have got the same number of requests, give or take one -/
  even : ∀ j ∈ s.router.actors, ∀ j' ∈ s.router.actors,
    (puts es).countP (·.child = j) ≤ (puts es).countP (·.child = j') + 1

section

variable {maxActors : ℕ} {es : List (Dealing M)}

/-- The requests that were put are the first ones of those that were handled. -/
theorem Rounds.first (hs : Rounds i scheduler maxActors es s) :
    (requests es = (puts es).map Put.request) ∨
    ∃ address retries r, s.proxy = some (.asking address retries) ∧
      s.router.actors[(puts es).length % maxActors]? = some address ∧ requests es = (puts es).map Put.request ++ [r] := by
  cases hp : s.proxy with
  | none => exact .inl (hs.idle hp).1
  | some x =>
    cases x with
    | asking address retries =>
      obtain ⟨haddr, own, q, hreq, -⟩ := hs.asking address retries hp
      exact .inr ⟨address, retries, (own, q), rfl, haddr, hreq⟩
    | awaiting address k => exact .inl (hs.awaiting address k hp).1

theorem Rounds.same (hs : Rounds i scheduler maxActors es s) {k : ℕ} {p : Put M} (hk : (puts es)[k]? = some p) :
    (requests es)[k]? = some (p.own, p.message) := by
  have hmap : ((puts es).map Put.request)[k]? = some (p.own, p.message) := by
    rw [List.getElem?_map, hk]
    rfl
  rcases hs.first with hreq | ⟨address, retries, r, -, -, hreq⟩
  · rw [hreq, hmap]
  · rw [hreq, List.getElem?_append_left (List.getElem?_eq_some_iff.1 hmap).1, hmap]

theorem Rounds.next (hs : Rounds i scheduler maxActors es s) {k : ℕ} {r : ℕ × M} (hk : (requests es)[k]? = some r) :
    k < (puts es).length ∨ k = (puts es).length ∧ ∃ address retries, s.proxy = some (.asking address retries) ∧
      s.router.actors[k % maxActors]? = some address := by
  have hlt := (List.getElem?_eq_some_iff.1 hk).1
  rcases hs.first with hreq | ⟨address, retries, r', hp, haddr, hreq⟩
  · left
    rwa [hreq, List.length_map] at hlt
  · rw [hreq, List.length_append, List.length_map, List.length_singleton] at hlt
    rcases Nat.lt_or_eq_of_le (Nat.le_of_lt_succ hlt) with hk' | rfl
    · exact .inl hk'
    · exact .inr ⟨rfl, address, retries, hp, haddr⟩

/-- The router awaits the reply to the last request, with its own ask undecided. -/
theorem Rounds.awaited (hs : Rounds i scheduler maxActors es s) {n : Node A M} (hn : s.node i = some n) {p : Put M}
    (hp : s.proxy = some (.awaiting p.child p.ask)) (hlast : (puts es).getLast? = some p) :
    n.asks[p.own]? = some .pending ∧ ∃ ph src seen, n.pc = .future ph ⟨src, .asyncAsk p.message p.own .nonBlocking⟩ seen := by
  obtain ⟨-, p', hlast', -, -, m, hm, ph, src, seen, hpc⟩ := hs.awaiting p.child p.ask hp
  rw [hlast] at hlast'
  cases hlast'
  obtain ⟨m', hm', rfl⟩ := node_eq.1 hn
  rw [hm] at hm'
  cases hm'
  exact ⟨(hs.manned.routes m hm).pending hpc, ph, src, seen, hpc⟩

theorem Rounds.replies (hs : Rounds i scheduler maxActors es s) {n : Node A M} (hn : s.node i = some n) {p : Put M}
    (hp : p ∈ puts es) :
    (s.proxy = some (.awaiting p.child p.ask) ∧ (puts es).getLast? = some p ∧ ActorRef.answer n p.own = none) ∨
    ∃ d v, s.node p.child = some d ∧ ActorRef.answer d p.ask = some (.ok v) ∧ ActorRef.answer n p.own = some (.ok v) := by
  rcases hs.replied p hp with ⟨hproxy, hlast⟩ | ⟨v, ⟨m, hm, hown⟩, d, hd, hchild⟩
  · left
    refine ⟨hproxy, hlast, ?_⟩
    unfold ActorRef.answer
    rw [(hs.awaited hn hproxy hlast).1]
  · right
    obtain ⟨m', hm', rfl⟩ := node_eq.1 hn
    rw [hm] at hm'
    cases hm'
    exact ⟨d.node, v, node_eq.2 ⟨d, hd, rfl⟩, hchild [] d.node rfl, hown [] m.node rfl⟩

/-- A reply that is awaited is passed on. -/
theorem Rounds.passes (hs : Rounds i scheduler maxActors es s) {n : Node A M} (hn : s.node i = some n) {p : Put M}
    (hlast : (puts es).getLast? = some p) (hp : s.proxy = some (.awaiting p.child p.ask)) {d : Node A M} {v : M}
    (hd : s.node p.child = some d) (hv : ActorRef.answer d p.ask = some (.ok v)) :
    ∃ s' n', s.step i scheduler .answer = some s' ∧ s'.node i = some n' ∧ ActorRef.answer n' p.own = some (.ok v) := by
  obtain ⟨hpending, ph, src, seen, hpc⟩ := hs.awaited hn hp hlast
  have hexec : ∃ n', n.exec (.reply n.actor v) = some n' := ⟨_, by simp [Node.exec, hpc, Node.resolve]; rfl⟩
  obtain ⟨n', hexec⟩ := hexec
  obtain ⟨t, ht⟩ := exec_enabled hn (fun _ _ => rfl) hexec
  have hnew : t[i]?.map Member.node = some n' := by
    obtain ⟨m, n₁, hm, hexec', hnew⟩ := exec_tree ht
    obtain rfl : m.node = n := Option.some.inj ((node_eq.2 ⟨m, hm, rfl⟩).symm.trans hn)
    rw [hexec] at hexec'
    cases hexec'
    rw [hnew]
    rfl
  refine ⟨{ s with tree := t, proxy := none, served := s.served ++ [(p.own, p.child, p.ask, v)] }, n', ?_, hnew,
    (exec_yields hexec hpc hpending).2⟩
  rw [RouterTree.step, hn, Option.bind_some, RouterTree.answer, hpc, hp]
  simp only [hd, Option.bind_some, hv, act, ht, Option.map_some]

/-- A child that polls its futures drops no request. -/
theorem Rounds.undropped (hs : Rounds i .nonBlocking maxActors es s) (hk : KidsRun s.tree i) {p : Put M} (hp : p ∈ puts es)
    {d : Node A M} (hd : s.node p.child = some d) : ActorRef.answer d p.ask ≠ some (.error .dropped) := by
  obtain ⟨c, hc, rfl⟩ := node_eq.1 hd
  obtain ⟨cfg, a, ls, hr⟩ := hs.manned.lives hc
  obtain ⟨c', hc', m, hm, hb⟩ := hs.accepted p hp
  rw [hc] at hc'
  cases hc'
  rcases asyncAsk_answered hr (hs.manned.opened hk (hs.child_mem hp) hc).2 hm hb with ⟨-, hnone⟩ | ⟨v, hv⟩
  · rw [hnone]
    simp
  · rw [hv [] c.node rfl]
    simp

/-- **Round-robin is exact.** -/
theorem round_robin {maxRetry : ℕ} {ls : List (RouterLabel A M)} (hpos : 0 < maxActors)
    (hk : Lts.Along (RouterTree.step i scheduler) (fun s _ => KidsRun s.tree i) (RouterTree.init maxRetry maxActors) ls)
    (hr : Lts.run (RouterTree.step i scheduler) (RouterTree.init maxRetry maxActors) ls = some s)
    (hlast : KidsRun s.tree i) {n : Node A M} (hn : s.node i = some n) (hup : n.pc.stage ≠ .failed) :
    RoundRobin i scheduler
      (Lts.outs (RouterTree.step i scheduler) (deals i) (RouterTree.init maxRetry maxActors) ls) s n := by
  obtain ⟨m, hm, rfl⟩ := node_eq.1 hn
  have hfailed : ¬ Failed s i := by
    rintro ⟨m', hm', hf⟩
    rw [hm] at hm'
    cases hm'
    exact hup hf
  have hs := rounds_run hpos hk hr hfailed
  generalize Lts.outs (RouterTree.step i scheduler) (deals i) (RouterTree.init maxRetry maxActors) ls = es at hs
  obtain rfl := hs.max
  refine ⟨hs.manned.order, fun hpc => ?_, hs.index, fun k p hp => ⟨hs.same hp, ?_, ?_⟩, fun k r hr => hs.next hr,
    fun p hp => hs.replies hn hp, fun p hlast hp d v hd hv => hs.passes hn hlast hp hd hv, ?_, fun j hj j' hj' => ?_⟩
  · have hfull := hs.manned.filled m hm hpc
    refine ⟨hfull, hpos, ?_⟩
    rw [hs.index, hfull]
    exact Nat.mod_lt _ hpos
  · have hfull := hs.started fun hes => by rw [hes] at hp; cases hp
    rw [← hfull]
    exact hs.dealt k p hp
  · obtain ⟨d, hd, hmail⟩ := hs.accepted p (List.mem_of_getElem? hp)
    exact ⟨d.node, node_eq.2 ⟨d, hd, rfl⟩, hmail⟩
  · rintro rfl p hp d hd
    exact hs.undropped hlast hp hd
  · have hnodup : s.router.actors.Nodup := hs.manned.order ▸ kids_nodup s.tree i
    exact Deal.dealt_even hnodup hs.dealt hj hj'

end

/-- A router takes the request `q`, and the child `c` answers `v`. -/
def turnRun (c q v : ℕ) : List (RouterLabel Unit ℕ) :=
  [.other (.step 0 (.send (.asyncAsk q .nonBlocking))), does 0 .recv, does 0 .go, does 0 .go, does 0 (.ret ()),
    .handle, .ask, does c .go, does c .recv, does c .go, does c (.ret ()), does c (.ret ()), does c (.reply () v),
    does c (.ret ()), .answer, does 0 (.ret ())]

/-- A router with two children is asked three times. -/
def threeTurnsRun : List (RouterLabel Unit ℕ) :=
  [.other (.run ⟨4, 1, false, []⟩ ()), .spawn ⟨4, 1, true, []⟩ (), .spawn ⟨4, 1, true, []⟩ (), does 0 (.ret ()),
    does 1 (.ret ()), does 2 (.ret ())] ++ turnRun 1 7 9 ++ turnRun 2 8 10 ++ turnRun 1 5 6

theorem round_robin_threeTurnsRun :
    ∃ (s : RouterTree Unit ℕ) (n : Node Unit ℕ) (es : List (Dealing ℕ)),
      Lts.run (RouterTree.step 0 .nonBlocking) (RouterTree.init 1 2) threeTurnsRun = some s ∧ s.node 0 = some n ∧
      (puts es).map Put.child = [1, 2, 1] ∧ requests es = [(0, 7), (1, 8), (2, 5)] ∧
      RoundRobin 0 .nonBlocking es s n := by
  have hr : ∃ (s : RouterTree Unit ℕ) (n : Node Unit ℕ),
      Lts.run (RouterTree.step 0 .nonBlocking) (RouterTree.init 1 2) threeTurnsRun = some s ∧ s.node 0 = some n ∧
      KidsRun s.tree 0 ∧ n.pc.stage ≠ .failed := ⟨_, _, rfl, rfl, by decide, by decide⟩
  obtain ⟨s, n, hr, hn, hk, hup⟩ := hr
  exact ⟨s, n, Lts.outs (RouterTree.step 0 .nonBlocking) (deals 0) (RouterTree.init 1 2) threeTurnsRun, hr, hn, rfl, rfl,
    round_robin (by decide) (by decide) hr hk hn hup⟩

end RouterTree

end Tokactor
