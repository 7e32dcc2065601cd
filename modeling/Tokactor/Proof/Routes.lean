import Tokactor.Proof.Address
import Tokactor.Proof.Awaiters
import Tokactor.Proof.Router
import Tokactor.Proof.Tree

/-!
# Who answers the asks of a router

* `turn`: what a step of a tree with a router can be.
* `proper_run`: what holds of the router and its children, as long as each child that it asks
  has an open mailbox.
* `router_answers`: every ask the router has accepted waits, or has the answer of a child.
* `router_panics`: a router that is told to shut down can ask a child whose mailbox is closed.
-/

namespace Tokactor

open Tokactor.Tree

variable {A M : Type} {i : ℕ} {scheduler : Scheduler} {s s' : RouterTree A M}

namespace RouterTree

/-! ## The rules -/

/-- What a step of a tree with a router can be. -/
inductive Turn (i : ℕ) (scheduler : Scheduler) (s : RouterTree A M) : RouterLabel A M → RouterTree A M → Prop
  | spawn (cfg : Config) (a : A) (n : Node A M) (t : Tree A M) (hn : s.node i = some n) (hpc : n.pc = .onStart)
      (hlt : s.router.actors.length < s.router.maxActors) (ht : s.tree.step (.spawn i cfg a) = some t) :
      Turn i scheduler s (.spawn cfg a)
        { s with tree := t, router := { s.router with actors := s.router.actors ++ [s.tree.length] } }
  | handle (n : Node A M) (p : Phase) (src : Option ℕ) (q : M) (own : ℕ) (sch : Scheduler) (address : ℕ) (t : Tree A M)
      (hn : s.node i = some n) (hpc : n.pc = .handle p ⟨src, .asyncAsk q own sch⟩)
      (ha : s.router.actors[s.router.index]? = some address)
      (ht : s.tree.step (.step i (.exec (.ret n.actor))) = some t) :
      Turn i scheduler s .handle
        { s with
          tree := t
          router := { s.router with index := (s.router.index + 1) % s.router.maxActors }
          proxy := some (.asking address s.router.maxRetry) }
  | ask (n : Node A M) (p : Phase) (src : Option ℕ) (q : M) (own : ℕ) (sch : Scheduler) (seen : Bool)
      (address retries : ℕ) (d : Node A M) (t : Tree A M) (hn : s.node i = some n)
      (hpc : n.pc = .future p ⟨src, .asyncAsk q own sch⟩ seen) (hp : s.proxy = some (.asking address retries))
      (hd : s.node address = some d) (ht : s.tree.step (.step address (.send (.asyncAsk q scheduler))) = some t) :
      Turn i scheduler s .ask { s with tree := t, proxy := some (.awaiting address d.asks.length) }
  | answer (n : Node A M) (p : Phase) (src : Option ℕ) (q : M) (own : ℕ) (sch : Scheduler) (seen : Bool)
      (address k : ℕ) (d : Node A M) (v : M) (t : Tree A M) (hn : s.node i = some n)
      (hpc : n.pc = .future p ⟨src, .asyncAsk q own sch⟩ seen) (hp : s.proxy = some (.awaiting address k))
      (hd : s.node address = some d) (hv : ActorRef.answer d k = some (.ok v))
      (ht : s.tree.step (.step i (.exec (.reply n.actor v))) = some t) :
      Turn i scheduler s .answer { s with tree := t, proxy := none, served := s.served ++ [(own, address, k, v)] }
  | other (l : TreeLabel A M) (t : Tree A M) (hp : s.permits i l = true) (ht : s.tree.step l = some t) :
      Turn i scheduler s (.other l) { s with tree := t }
  /-- there is no actor at the index -/
  | unaddressed (n : Node A M) (p : Phase) (m : Mail A M) (hn : s.node i = some n) (hpc : n.pc = .handle p m)
      (ha : s.router.actors[s.router.index]? = none) (s' : RouterTree A M) : Turn i scheduler s .handle s'
  /-- the mailbox of the child is closed -/
  | closed (address retries : ℕ) (d : Node A M) (hp : s.proxy = some (.asking address retries))
      (hd : s.node address = some d) (hc : d.mailbox.closed = true) (s' : RouterTree A M) : Turn i scheduler s .ask s'
  /-- the child has dropped the ask -/
  | dropped (address k : ℕ) (d : Node A M) (e : AskError M) (hp : s.proxy = some (.awaiting address k))
      (hd : s.node address = some d) (hv : ActorRef.answer d k = some (.error e)) (s' : RouterTree A M) :
      Turn i scheduler s .answer s'

theorem act_cases {l : TreeLabel A M} {f : RouterTree A M → RouterTree A M} (h : s.act l f = some s') :
    ∃ t, s.tree.step l = some t ∧ s' = f { s with tree := t } := by
  obtain ⟨t, ht, rfl⟩ := Option.map_eq_some_iff.1 h
  exact ⟨t, ht, rfl⟩

/-- An ask that a child has taken. -/
theorem asyncAsk_open {d d' : Node A M} {q : M} {sch : Scheduler} {c : Call (Except (AskError M) ℕ)}
    (hc : d.mailbox.closed = false) (h : ActorRef.asyncAsk d q sch = some (c, d')) : c = .returns (.ok d.asks.length) := by
  unfold ActorRef.asyncAsk ActorRef.askWith mpscSend at h
  rw [if_neg (by rw [hc]; decide)] at h
  obtain ⟨r, hr, h⟩ := Option.map_eq_some_iff.1 h
  obtain ⟨n', -, rfl⟩ := Option.map_eq_some_iff.1 hr
  cases h
  rfl

theorem onStart_turn {n : Node A M} {cfg : Config} {a : A} (hn : s.node i = some n)
    (h : s.onStart i n cfg a = some s') : Turn i scheduler s (.spawn cfg a) s' := by
  unfold onStart at h
  split at h
  · rename_i hpc
    split at h
    · rename_i hlt
      obtain ⟨t, ht, rfl⟩ := act_cases h
      exact .spawn cfg a n t hn hpc hlt ht
    · cases h
  · cases h

theorem handle_turn {n : Node A M} (hn : s.node i = some n) (h : s.handle i n = some s') :
    Turn i scheduler s .handle s' := by
  unfold handle at h
  split at h
  · rename_i p src q own sch hpc
    split at h
    · rename_i address ha
      obtain ⟨t, ht, rfl⟩ := act_cases h
      exact .handle n p src q own sch address t hn hpc ha ht
    · rename_i ha
      exact .unaddressed n p _ hn hpc ha s'
  · cases h

theorem ask_turn {n : Node A M} (hn : s.node i = some n) (h : s.ask i scheduler n = some s') :
    Turn i scheduler s .ask s' := by
  unfold ask at h
  split at h
  · rename_i p src q own sch seen address retries hpc hp
    obtain ⟨d, hd, h⟩ := Option.bind_eq_some_iff.1 h
    obtain ⟨⟨c, d'⟩, hask, h⟩ := Option.bind_eq_some_iff.1 h
    by_cases hc : d.mailbox.closed = true
    · exact .closed address retries d hp hd hc s'
    · -- an open mailbox takes the ask
      obtain rfl := asyncAsk_open (by simpa using hc) hask
      obtain ⟨t, ht, rfl⟩ := act_cases h
      exact .ask n p src q own sch seen address retries d t hn hpc hp hd ht
  · cases h

theorem answer_turn {n : Node A M} (hn : s.node i = some n) (h : s.answer i n = some s') :
    Turn i scheduler s .answer s' := by
  unfold answer at h
  split at h
  · rename_i p src q own sch seen address k hpc hp
    obtain ⟨d, hd, h⟩ := Option.bind_eq_some_iff.1 h
    obtain ⟨r, hv, h⟩ := Option.bind_eq_some_iff.1 h
    cases r with
    | ok v =>
      obtain ⟨t, ht, rfl⟩ := act_cases h
      exact .answer n p src q own sch seen address k d v t hn hpc hp hd hv ht
    | error e => exact .dropped address k d e hp hd hv s'
  · cases h

/-- **Every step is one of the rules.** -/
theorem turn {l : RouterLabel A M} (h : s.step i scheduler l = some s') : Turn i scheduler s l s' := by
  cases l with
  | spawn cfg a =>
    obtain ⟨n, hn, h⟩ := Option.bind_eq_some_iff.1 h
    exact onStart_turn hn h
  | handle =>
    obtain ⟨n, hn, h⟩ := Option.bind_eq_some_iff.1 h
    exact handle_turn hn h
  | ask =>
    obtain ⟨n, hn, h⟩ := Option.bind_eq_some_iff.1 h
    exact ask_turn hn h
  | answer =>
    obtain ⟨n, hn, h⟩ := Option.bind_eq_some_iff.1 h
    exact answer_turn hn h
  | other l =>
    have h : (if s.permits i l then s.act l id else none) = some s' := h
    split at h
    · rename_i hp
      obtain ⟨t, ht, rfl⟩ := act_cases h
      exact .other l t hp ht
    · cases h

/-! ## What the router knows of its children -/

/-- Actor `j` is a child of actor `i`. -/
def Kid (t : Tree A M) (i j : ℕ) : Prop := ∃ d k, t[j]? = some d ∧ d.parent = some (i, k)

/-- Actor `j` has accepted the async ask `k` of `q`, whose future is polled. -/
def Took (t : Tree A M) (j k : ℕ) (q : M) : Prop :=
  ∃ d : Member A M, t[j]? = some d ∧ ∃ m ∈ d.node.mailbox.accepted, m.body = .asyncAsk q k .nonBlocking

/-- Actor `j` has answered the ask `k` for good. -/
def Gave (t : Tree A M) (j k : ℕ) (v : M) : Prop :=
  ∃ d : Member A M, t[j]? = some d ∧
    ∀ ls n, Lts.run Node.step d.node ls = some n → ActorRef.answer n k = some (.ok v)

theorem Kid.step {t t' : Tree A M} {l : TreeLabel A M} {j : ℕ} (hk : Kid t i j) (h : t.step l = some t') : Kid t' i j := by
  obtain ⟨d, k, hd, hp⟩ := hk
  obtain ⟨d', hd', hp', -⟩ := goes_on h hd
  exact ⟨d', k, hd', hp'.trans hp⟩

/-- Actor `j` has accepted a message with the body `b`. -/
def Accepted (t : Tree A M) (j : ℕ) (b : Body A M) : Prop :=
  ∃ d : Member A M, t[j]? = some d ∧ ∃ m ∈ d.node.mailbox.accepted, m.body = b

theorem Accepted.step {t t' : Tree A M} {l : TreeLabel A M} {j : ℕ} {b : Body A M} (hk : Accepted t j b)
    (h : t.step l = some t') : Accepted t' j b := by
  obtain ⟨d, hd, m, hm, hb⟩ := hk
  obtain ⟨d', hd', -, ls, hls⟩ := goes_on h hd
  refine ⟨d', hd', m, ?_, hb⟩
  exact Lts.run_inv (I := fun n : Node A M => m ∈ n.mailbox.accepted) (fun _ _ _ hm h => Node.step_accepted h hm) hm hls

theorem Took.step {t t' : Tree A M} {l : TreeLabel A M} {j k : ℕ} {q : M} (hk : Took t j k q) (h : t.step l = some t') :
    Took t' j k q :=
  Accepted.step hk h

theorem Gave.step {t t' : Tree A M} {l : TreeLabel A M} {j k : ℕ} {v : M} (hg : Gave t j k v) (h : t.step l = some t') :
    Gave t' j k v := by
  obtain ⟨d, hd, hv⟩ := hg
  obtain ⟨d', hd', -, ls, hls⟩ := goes_on h hd
  exact ⟨d', hd', fun ls' n hn => hv (ls ++ ls') n (Lts.run_append.2 ⟨_, hls, hn⟩)⟩

/-- The child that the future asks. -/
def asked (s : RouterTree A M) : Option ℕ :=
  match s.proxy with
  | some (.asking address _) => some address
  | _ => none

/-- None of the children of actor `i` has panicked. -/
def KidsUpright (t : Tree A M) (i : ℕ) : Prop := ∀ d ∈ t, d.parent.map Prod.fst = some i → d.node.pc.stage ≠ .failed

/-- **A step of a router none of whose children has panicked**: the child it asks has an open
mailbox and polls the future of the ask, the supervisor of the router stays, and `stopping`
does not time out. -/
def Fit (i : ℕ) (scheduler : Scheduler) (s : RouterTree A M) (l : RouterLabel A M) : Prop :=
  KidsUpright s.tree i ∧
  match l with
  | .ask => scheduler = .nonBlocking ∧ ∀ j ∈ s.asked, ∀ d ∈ s.node j, d.mailbox.closed = false
  | .other (.step j (.exec .died)) => j ≠ i
  | .other (.step j (.exec .tick)) => j = i → ∀ n ∈ s.node i, n.timeoutCounter ≠ 10
  | _ => True

/-- Actor `i` awaits the future of its ask `own` of `q`. -/
def Polls (t : Tree A M) (i own : ℕ) (q : M) : Prop :=
  ∃ m : Member A M, t[i]? = some m ∧ ∃ p src seen, m.node.pc = .future p ⟨src, .asyncAsk q own .nonBlocking⟩ seen

/-- What holds of a router and its children. -/
structure Proper (i : ℕ) (s : RouterTree A M) : Prop where
  grown : ∃ ls, Lts.run Tree.step [] ls = some s.tree
  routes : ∀ n, s.node i = some n → n.Routes
  bound : s.router.actors.length ≤ s.router.maxActors
  filled : ∀ n, s.node i = some n → n.pc ≠ .onStart → s.router.actors.length = s.router.maxActors
  index : s.router.index < s.router.maxActors
  kids : ∀ j ∈ s.router.actors, Kid s.tree i j
  asking : ∀ j retries, s.proxy = some (.asking j retries) → j ∈ s.router.actors
  awaiting : ∀ j k, s.proxy = some (.awaiting j k) →
    j ∈ s.router.actors ∧ ∃ own q, Polls s.tree i own q ∧ Took s.tree j k q
  busy : s.proxy = none → ∀ n, s.node i = some n → ∀ p m seen, n.pc ≠ .future p m seen
  served : ∀ own j k v, (own, j, k, v) ∈ s.served →
    j ∈ s.router.actors ∧ Gave s.tree j k v ∧ ∃ q, Took s.tree i own q ∧ Took s.tree j k q
  answers : ∀ n, s.node i = some n → ∀ own v, n.asks[own]? = some (.replied v) →
    ∃ j k, (own, j, k, v) ∈ s.served

theorem proper_init (maxRetry maxActors : ℕ) (h : 0 < maxActors) :
    Proper i (RouterTree.init maxRetry maxActors : RouterTree A M) where
  grown := ⟨[], rfl⟩
  routes n hn := by cases hn
  bound := Nat.zero_le _
  filled n hn := by cases hn
  index := h
  kids j hj := by cases hj
  asking j r hp := by cases hp
  awaiting j k hp := by cases hp
  busy _ n hn := by cases hn
  served own j k v hs := by cases hs
  answers n hn := by cases hn

theorem node_eq {n : Node A M} {j : ℕ} : s.node j = some n ↔ ∃ m : Member A M, s.tree[j]? = some m ∧ m.node = n :=
  Option.map_eq_some_iff

/-- The step of the tree behind a turn, with the answers `rs` that the router got in it. -/
structure Advance (i : ℕ) (s : RouterTree A M) (l : TreeLabel A M) (rs : List (ℕ × ℕ × ℕ × M)) : Prop where
  routed : ∀ m nl, s.tree.acting l = some (i, m, nl) → Routed m.node nl
  fresh : ∀ k m, i = s.tree.length + k → (s.tree.started l)[k]? = some m →
    ∃ cfg a, cfg.forwarders = [] ∧ m.node = Node.init cfg a
  leaves : ∀ m nl n, s.tree.acting l = some (i, m, nl) → m.node.step nl = some n → m.node.pc = .onStart →
    n.pc ≠ .onStart → s.router.actors.length = s.router.maxActors
  replies : ∀ m a v hand own, s.tree.acting l = some (i, m, .exec (.reply a v)) → m.node.pc.hand = some hand →
    hand.body.asker = some own → ∃ j k, (own, j, k, v) ∈ rs
  waits : ∀ m a v, s.tree.acting l = some (i, m, .exec (.reply a v)) → ∀ j k, s.proxy ≠ some (.awaiting j k)
  polls : s.proxy = none → ∀ m nl n p hand seen, s.tree.acting l = some (i, m, nl) → m.node.step nl = some n →
    n.pc = .future p hand seen → ∃ p' hand' seen', m.node.pc = .future p' hand' seen'
  gave : ∀ own j k v, (own, j, k, v) ∈ rs →
    j ∈ s.router.actors ∧ Gave s.tree j k v ∧ ∃ q, Took s.tree i own q ∧ Took s.tree j k q

/-- The router stays one that has taken steps of a router only. -/
theorem routes_step {t t' : Tree A M} {l : TreeLabel A M} (hroutes : ∀ m : Member A M, t[i]? = some m → m.node.Routes)
    (hrouted : ∀ m nl, t.acting l = some (i, m, nl) → Routed m.node nl)
    (hfresh : ∀ k m, i = t.length + k → (t.started l)[k]? = some m →
      ∃ cfg a, cfg.forwarders = [] ∧ m.node = Node.init cfg a)
    (h : t.step l = some t') {m' : Member A M} (hm' : t'[i]? = some m') : m'.node.Routes := by
  cases stepped h hm' with
  | acts m nl hact hm hstep hp hl => exact (hroutes m hm).step (hrouted m nl hact) hstep
  | rests hm => exact hroutes m' hm
  | starts k hj hk cfg a hinit =>
    obtain ⟨cfg, a, hc, hinit⟩ := hfresh k m' hj hk
    rw [hinit]
    exact routes_init cfg a hc

/-- What holds once the router has left `on_start`. -/
theorem filled_step {t t' : Tree A M} {l : TreeLabel A M} {P : Prop}
    (hfilled : ∀ m : Member A M, t[i]? = some m → m.node.pc ≠ .onStart → P)
    (hleaves : ∀ m nl n, t.acting l = some (i, m, nl) → m.node.step nl = some n → m.node.pc = .onStart →
      n.pc ≠ .onStart → P)
    (h : t.step l = some t') {m' : Member A M} (hm' : t'[i]? = some m') (hpc : m'.node.pc ≠ .onStart) : P := by
  cases stepped h hm' with
  | acts m nl hact hm hstep hp hl =>
    by_cases hpc₀ : m.node.pc = .onStart
    · exact hleaves m nl m'.node hact hstep hpc₀ hpc
    · exact hfilled m hm hpc₀
  | rests hm => exact hfilled m' hm hpc
  | starts k hj hk cfg a hinit =>
    rw [hinit] at hpc
    exact absurd rfl hpc

/-- While its future yields nothing, the router stays there. -/
theorem Polls.step {t t' : Tree A M} {l : TreeLabel A M} {own : ℕ} {q : M} (hq : Polls t i own q)
    (hroutes : ∀ m : Member A M, t[i]? = some m → m.node.Routes)
    (hrouted : ∀ m nl, t.acting l = some (i, m, nl) → Routed m.node nl)
    (hsilent : ∀ m a v, t.acting l ≠ some (i, m, .exec (.reply a v))) (h : t.step l = some t') : Polls t' i own q := by
  obtain ⟨m, hm, p, src, seen, hpc⟩ := hq
  obtain ⟨m', hm', -⟩ := goes_on h hm
  refine ⟨m', hm', p, src, seen, ?_⟩
  cases stepped h hm' with
  | acts m₀ nl hact hm₀ hstep hp' hl =>
    rw [hm] at hm₀
    cases hm₀
    rcases routed_future (hroutes m hm) (hrouted m nl hact) hstep hpc with ⟨a, v, rfl⟩ | heq
    · exact absurd hact (hsilent m a v)
    · rw [heq, hpc]
  | rests hm₀ =>
    rw [hm] at hm₀
    cases hm₀
    exact hpc
  | starts k' hj' hk' cfg a hinit =>
    have hlt := (List.getElem?_eq_some_iff.1 hm).1
    omega

/-- The router gets to a future by a step of its own only. -/
theorem busy_step {t t' : Tree A M} {l : TreeLabel A M}
    (hbusy : ∀ m : Member A M, t[i]? = some m → ∀ p hand seen, m.node.pc ≠ .future p hand seen)
    (hpolls : ∀ m nl n p hand seen, t.acting l = some (i, m, nl) → m.node.step nl = some n →
      n.pc = .future p hand seen → ∃ p' hand' seen', m.node.pc = .future p' hand' seen')
    (h : t.step l = some t') {m' : Member A M} (hm' : t'[i]? = some m') (p : Phase) (hand : Mail A M) (seen : Bool) :
    m'.node.pc ≠ .future p hand seen := by
  intro hpc
  cases stepped h hm' with
  | acts m nl hact hm hstep hp' hl =>
    obtain ⟨p', hand', seen', hpc'⟩ := hpolls m nl m'.node p hand seen hact hstep hpc
    exact hbusy m hm p' hand' seen' hpc'
  | rests hm => exact hbusy m' hm p hand seen hpc
  | starts k hj hk cfg a hinit =>
    rw [hinit] at hpc
    cases hpc

theorem Proper.member (hs : Proper i s) {m : Member A M} (hm : s.tree[i]? = some m) : m.node.Routes :=
  hs.routes m.node (node_eq.2 ⟨m, hm, rfl⟩)

/-- An answer of the router is one that it got before, or gets now. -/
theorem Advance.answers {l : TreeLabel A M} {t : Tree A M} {rs : List (ℕ × ℕ × ℕ × M)} (ha : Advance i s l rs)
    (hs : Proper i s) (h : s.tree.step l = some t) {m' : Member A M} (hm' : t[i]? = some m') {own : ℕ} {v : M}
    (hv : m'.node.asks[own]? = some (.replied v)) : ∃ j k, (own, j, k, v) ∈ s.served ++ rs := by
  have hold : ∀ m : Member A M, s.tree[i]? = some m → m.node.asks[own]? = some (.replied v) →
      ∃ j k, (own, j, k, v) ∈ s.served ++ rs := by
    intro m hm hv
    obtain ⟨j, k, hmem⟩ := hs.answers m.node (node_eq.2 ⟨m, hm, rfl⟩) own v hv
    exact ⟨j, k, List.mem_append_left _ hmem⟩
  cases stepped h hm' with
  | acts m nl hact hm hstep hp hl =>
    rcases routed_replied (hs.routes m.node (node_eq.2 ⟨m, hm, rfl⟩)) (ha.routed m nl hact) hstep hv with
      hv | ⟨a, hand, rfl, hhand, hown⟩
    · exact hold m hm hv
    · obtain ⟨j, k, hmem⟩ := ha.replies m a v hand own hact hhand hown
      exact ⟨j, k, List.mem_append_right _ hmem⟩
  | rests hm => exact hold m' hm hv
  | starts k hj hk cfg a hinit =>
    rw [hinit] at hv
    cases hv

theorem Proper.advance {l : TreeLabel A M} {t : Tree A M} {rs : List (ℕ × ℕ × ℕ × M)} (hs : Proper i s)
    (ha : Advance i s l rs) (h : s.tree.step l = some t) : Proper i { s with tree := t, served := s.served ++ rs } := by
  refine ⟨?_, ?_, hs.bound, ?_, hs.index, fun j hj => (hs.kids j hj).step h, hs.asking, ?_, ?_, ?_, ?_⟩
  · obtain ⟨ls, hls⟩ := hs.grown
    exact ⟨ls ++ [l], Lts.run_concat hls h⟩
  · intro n hn
    obtain ⟨m', hm', rfl⟩ := node_eq.1 hn
    exact routes_step (fun m hm => hs.member hm) ha.routed ha.fresh h hm'
  · -- a router that has started has all its children
    intro n hn hpc
    obtain ⟨m', hm', rfl⟩ := node_eq.1 hn
    exact filled_step (fun m hm => hs.filled m.node (node_eq.2 ⟨m, hm, rfl⟩)) ha.leaves h hm' hpc
  · -- while the answer of a child is awaited, the router stays at its future
    intro j k hp
    obtain ⟨hj, own, q, hq, hk⟩ := hs.awaiting j k hp
    exact ⟨hj, own, q, hq.step (fun m hm => hs.member hm) ha.routed (fun m a v hact => ha.waits m a v hact j k hp) h,
      hk.step h⟩
  · intro hp n hn
    obtain ⟨m', hm', rfl⟩ := node_eq.1 hn
    exact busy_step (fun m hm => hs.busy hp m.node (node_eq.2 ⟨m, hm, rfl⟩)) (ha.polls hp) h hm'
  · intro own j k v hmem
    have hold : j ∈ s.router.actors ∧ Gave s.tree j k v ∧ ∃ q, Took s.tree i own q ∧ Took s.tree j k q := by
      rcases List.mem_append.1 hmem with hmem | hmem
      · exact hs.served own j k v hmem
      · exact ha.gave own j k v hmem
    obtain ⟨hj, hg, q, h₁, h₂⟩ := hold
    exact ⟨hj, hg.step h, q, h₁.step h, h₂.step h⟩
  · intro n hn own v hv
    obtain ⟨m', hm', rfl⟩ := node_eq.1 hn
    exact ha.answers hs h hm' hv

/-! ## Every turn advances the tree -/

theorem Proper.linked (hs : Proper i s) : Linked s.tree := by
  obtain ⟨ls, hls⟩ := hs.grown
  exact linked_run hls

/-- An actor of the tree has run by itself. -/
theorem Proper.lives (hs : Proper i s) {j : ℕ} {d : Node A M} (hd : s.node j = some d) :
    ∃ cfg a ls, Lts.run Node.step (Node.init cfg a) ls = some d := by
  obtain ⟨m, hm, rfl⟩ := node_eq.1 hd
  obtain ⟨ls, hls⟩ := hs.grown
  obtain ⟨cfg, a, ls', -, hr⟩ := local_run (P := fun _ _ => True) (.of_forall fun t l x _ _ => trivial) hls hm
  exact ⟨cfg, a, ls', hr⟩

theorem Proper.upright (hs : Proper i s) (hu : KidsUpright s.tree i) {j : ℕ} (hj : j ∈ s.router.actors) {d : Node A M}
    (hd : s.node j = some d) : d.pc.stage ≠ .failed := by
  obtain ⟨m, hm, rfl⟩ := node_eq.1 hd
  obtain ⟨m', k, hm', hp⟩ := hs.kids j hj
  rw [hm] at hm'
  cases hm'
  exact hu m (List.mem_of_getElem? hm) (by rw [hp]; rfl)

/-- **The router is told of no error**: a wrapper tells one when its child has panicked. -/
theorem Proper.no_error (hs : Proper i s) (hu : KidsUpright s.tree i) {n : Node A M} (hn : s.node i = some n)
    {m : Mail A M} (hm : m ∈ n.mailbox.accepted) (e : ChildError) : m.body ≠ .dead (.error e) := by
  intro hb
  have hexp := (hs.routes n hn).routing.mail m hm
  rw [hb] at hexp
  obtain ⟨slot, hslot, c, told, hc, hpc⟩ := hexp
  obtain ⟨p, hp, rfl⟩ := node_eq.1 hn
  obtain ⟨k, hk⟩ := List.mem_iff_getElem?.1 hslot
  obtain ⟨task, out⟩ := slot
  cases hc
  obtain ⟨d, hd, hparent, -, hf⟩ := hs.linked.child i p k c hp (Node.childAt_iff.2 ⟨out, hk⟩)
  simp only [Child.Follows, hpc] at hf
  obtain ⟨-, x, hx⟩ := hf
  refine hu d (List.mem_of_getElem? hd) (by rw [hparent]; rfl) ?_
  rw [hx]
  rfl

/-- **A child that the router waits for does not drop the ask**, and what it answers is final. -/
theorem Proper.gave (hs : Proper i s) (hu : KidsUpright s.tree i) {j k : ℕ} (hp : s.proxy = some (.awaiting j k))
    {d : Node A M} (hd : s.node j = some d) {r : Except (AskError M) M} (hr : ActorRef.answer d k = some r) :
    ∃ v, r = .ok v ∧ Gave s.tree j k v := by
  obtain ⟨hj, own, q, -, m, hm, mail, hmem, hb⟩ := hs.awaiting j k hp
  obtain ⟨m', hm', rfl⟩ := node_eq.1 hd
  rw [hm] at hm'
  cases hm'
  obtain ⟨cfg, a, ls, hrun⟩ := hs.lives hd
  rcases asyncAsk_answered hrun (hs.upright hu hj hd) hmem hb with ⟨-, hnone⟩ | ⟨v, hv⟩
  · rw [hr] at hnone
    cases hnone
  · have hnow := hv [] m.node rfl
    rw [hr] at hnow
    cases hnow
    exact ⟨v, rfl, m, hm, hv⟩

theorem runs_routed {r : Router} {n : Node A M} {l : Label A M} (h : runs r n l = true) (hpanic : l ≠ .exec .panic)
    (hdied : l ≠ .exec .died) (htick : l = .exec .tick → n.timeoutCounter ≠ 10) : Routed n l := by
  cases l with
  | send q =>
    cases q with
    | asyncAsk q sch =>
      cases sch with
      | nonBlocking => trivial
      | blocking => cases h
    | await stopNow => trivial
    | _ => cases h
  | exec x =>
    cases x with
    | panic => exact absurd rfl hpanic
    | died => exact absurd rfl hdied
    | tick => exact htick rfl
    | op o | reply a v | task a j => cases h
    | _ => trivial
  | task k tl =>
    cases tl with
    | child cl => trivial
    | _ => cases h
  | join j k => cases h
  | _ => trivial

/-- `on_start` of a router returns when all its children are there. -/
theorem runs_leaves {r : Router} {n n' : Node A M} {l : Label A M} (h : runs r n l = true) (hs : n.step l = some n')
    (hpc : n.pc = .onStart) (hpc' : n'.pc ≠ .onStart) : r.actors.length = r.maxActors := by
  rcases Node.step_outside hs with ⟨x, rfl, -⟩ | ⟨ms, ho⟩
  · have hexec : n.exec x = some n' := hs
    unfold Node.exec at hexec
    rw [hpc] at hexec
    cases x with
    | ret a => simpa [runs, hpc] using h
    | op o => cases h
    | panic => simp [runs, hpc] at h
    | _ => cases hexec
  · exact absurd (ho.pc.trans hpc) hpc'

/-- The code of the router gets to a future by the handler of an async ask only. -/
theorem runs_handle {r : Router} {n n' : Node A M} {x : Act A M} {p : Phase} {m : Mail A M} (h : runs r n (.exec x) = true)
    (hs : n.exec x = some n') (hpc : n.pc = .handle p m) : n'.pc.polled = false := by
  cases Node.serves_rule hs with
  | silent _ hp | returns _ _ _ _ _ hp => exact hp
  | internal _ _ _ _ hpc' => rw [hpc']; rfl
  | fails _ heq | unpolled _ _ _ _ _ _ _ _ heq | replied _ _ _ _ _ _ _ heq | task _ _ _ _ _ _ _ _ _ heq =>
    rw [heq]
    rfl
  | uses o ho heq =>
    rw [heq, (Node.ctxOp_kept ho).pc, hpc]
    rfl
  | polled p' m' a q k hx hpc' hb =>
    rw [hpc] at hpc'
    cases hpc'
    subst hx
    obtain ⟨src, body⟩ := m
    cases hb
    simp [runs, hpc] at h
  | changed _ _ _ hpc' | cancelled _ _ hpc' =>
    rw [hpc] at hpc'
    cases hpc'

/-- A router does not get to a future by a step that its code allows. -/
theorem runs_future {r : Router} {n n' : Node A M} {l : Label A M} {p : Phase} {m : Mail A M} {seen : Bool}
    (h : runs r n l = true) (hs : n.step l = some n') (hpc : n'.pc = .future p m seen) : n.pc = .future p m seen := by
  rcases Node.step_outside hs with ⟨x, rfl, hx⟩ | ⟨ms, ho⟩
  · have hflow := exec_enters hx (by rw [hpc]; cases p <;> exact Stage.noConfusion)
    rw [hpc] at hflow
    rcases hflow with hsame | hhandle
    · exact hsame.symm
    · have hpolled := runs_handle h hs hhandle
      rw [hpc] at hpolled
      cases hpolled
  · rw [← ho.pc, hpc]

/-- A step of the router itself is one that its code allows. -/
theorem permitted_own {l : TreeLabel A M} {m : Member A M} {nl : Label A M} (hp : s.permits i l = true)
    (hact : s.tree.acting l = some (i, m, nl)) :
    s.tree[i]? = some m ∧ ((∃ k o, nl = .task k (.child (.ended o))) ∨ l = .step i nl ∧ runs s.router m.node nl = true) := by
  obtain ⟨hi, hm, ha⟩ := acting_cases hact
  refine ⟨hm, ?_⟩
  cases l with
  | run cfg a => cases hi
  | spawn j cfg a =>
    cases hi
    simp [permits] at hp
  | join j k =>
    obtain ⟨o, -, rfl⟩ := Option.map_eq_some_iff.1 ha
    exact .inl ⟨k, o, rfl⟩
  | step j x =>
    cases hi
    simp only [action] at ha
    split at ha
    · cases ha
      have hruns : ∀ n ∈ s.node i, runs s.router n nl = true := by simpa [permits] using hp
      exact .inr ⟨rfl, hruns m.node (node_eq.2 ⟨m, hm, rfl⟩)⟩
    · cases ha

/-- An actor that is started as the router has no forwarders. -/
theorem permitted_fresh {l : TreeLabel A M} {m : Member A M} {k : ℕ} (hp : s.permits i l = true)
    (hk : i = s.tree.length + k) (hm : (s.tree.started l)[k]? = some m) :
    ∃ cfg a, cfg.forwarders = [] ∧ m.node = Node.init cfg a := by
  have hlen : ∀ {new : Tree A M}, new.length ≤ 1 → new[k]? = some m → s.tree.length = i := by
    intro new hnew hm
    have hlt := (List.getElem?_eq_some_iff.1 hm).1
    omega
  have hmem := List.mem_of_getElem? hm
  cases l with
  | run cfg a =>
    have hi := hlen (by simp [started]) hm
    rw [started, List.mem_singleton] at hmem
    refine ⟨_, a, ?_, by rw [hmem]⟩
    simpa [permits, hi] using hp
  | spawn j cfg a =>
    have hi := hlen (by rw [started]; split <;> [split; skip] <;> simp) hm
    have hc : cfg.forwarders = [] := by
      simp only [permits, decide_eq_true_eq] at hp
      simpa using hp.2 hi
    rw [started] at hmem
    split at hmem
    · split at hmem
      · rw [List.mem_singleton] at hmem
        exact ⟨{ cfg with supervised := true }, a, hc, by rw [hmem]⟩
      · cases hmem
    · cases hmem
  | join j k' => cases hm
  | step j x => cases hm

/-- A step of the tree that is no turn of the router's future. -/
theorem advance_permitted {l : TreeLabel A M} (hp : s.permits i l = true)
    (hrouted : ∀ m nl, s.tree[i]? = some m → l = .step i nl → runs s.router m.node nl = true → Routed m.node nl) :
    Advance i s l [] := by
  -- an answer of the router is a turn of its own
  have silent : ∀ m a v, s.tree.acting l ≠ some (i, m, .exec (.reply a v)) := by
    intro m a v hact
    obtain ⟨hm, ⟨k, o, hnl⟩ | ⟨rfl, hruns⟩⟩ := permitted_own hp hact
    · cases hnl
    · cases hruns
  refine ⟨fun m nl hact => ?_, fun k m hk hm => permitted_fresh hp hk hm, fun m nl n hact hstep hpc hpc' => ?_,
    fun m a v hand own hact => absurd hact (silent m a v), fun m a v hact => absurd hact (silent m a v),
    fun _ m nl n p hand seen hact hstep hpc => ?_, fun _ _ _ _ h => (by cases h)⟩
  · obtain ⟨hm, ⟨k, o, rfl⟩ | ⟨rfl, hruns⟩⟩ := permitted_own hp hact
    · trivial
    · exact hrouted m nl hm rfl hruns
  · obtain ⟨hm, ⟨k, o, rfl⟩ | ⟨rfl, hruns⟩⟩ := permitted_own hp hact
    · rcases Node.step_outside hstep with ⟨x, hx, -⟩ | ⟨ms, ho⟩
      · cases hx
      · exact absurd (ho.pc.trans hpc) hpc'
    · exact runs_leaves hruns hstep hpc hpc'
  · obtain ⟨hm, ⟨k, o, rfl⟩ | ⟨rfl, hruns⟩⟩ := permitted_own hp hact
    · rcases Node.step_outside hstep with ⟨x, hx, -⟩ | ⟨ms, ho⟩
      · cases hx
      · exact ⟨p, hand, seen, by rw [← ho.pc, hpc]⟩
    · exact ⟨p, hand, seen, runs_future hruns hstep hpc⟩

theorem advance_other {l : TreeLabel A M} (hs : Proper i s) (hp : s.permits i l = true)
    (hf : Fit i scheduler s (.other l)) : Advance i s l [] := by
  refine advance_permitted hp fun m nl hm hl hruns => ?_
  subst hl
  have hn : s.node i = some m.node := node_eq.2 ⟨m, hm, rfl⟩
  refine runs_routed hruns ?_ ?_ ?_
  · -- its handler panics only at the error of a child
    rintro rfl
    simp only [runs] at hruns
    split at hruns
    · rename_i p src e hpc
      have hr := (hs.routes m.node hn).routing
      exact hs.no_error hf.1 hn (hr.life.hand_accepted hr.upright (by rw [hpc]; rfl)) e rfl
    · cases hruns
  · rintro rfl
    exact hf.2 rfl
  · rintro rfl
    exact hf.2 rfl m.node hn

/-- A step of the executor of the router is its own. -/
theorem acting_exec {n : Node A M} {x : Act A M} (hn : s.node i = some n) {m : Member A M} {nl : Label A M}
    (hact : s.tree.acting (.step i (.exec x)) = some (i, m, nl)) : m.node = n ∧ nl = .exec x := by
  obtain ⟨-, hm, ha⟩ := acting_cases hact
  have hmn : s.node i = some m.node := node_eq.2 ⟨m, hm, rfl⟩
  simp only [action] at ha
  split at ha
  · cases ha
    rw [hn] at hmn
    exact ⟨(Option.some.inj hmn).symm, rfl⟩
  · cases ha

/-- A step of the router itself, in which it starts nobody. -/
theorem advance_own {n : Node A M} {x : Act A M} {rs : List (ℕ × ℕ × ℕ × M)} (hn : s.node i = some n)
    (hr : Routed n (.exec x)) (hpc : n.pc ≠ .onStart) {address retries : ℕ} (hp : s.proxy = some (.asking address retries))
    (hreply : ∀ a v hand own, x = .reply a v → n.pc.hand = some hand → hand.body.asker = some own →
      ∃ j k, (own, j, k, v) ∈ rs)
    (hgave : ∀ own j k v, (own, j, k, v) ∈ rs →
      j ∈ s.router.actors ∧ Gave s.tree j k v ∧ ∃ q, Took s.tree i own q ∧ Took s.tree j k q) :
    Advance i s (.step i (.exec x)) rs := by
  refine ⟨fun m nl hact => ?_, fun k m hk hm => (by cases hm), fun m nl n' hact hstep hpc₀ => ?_, ?_,
    fun _ _ _ _ j k => (by rw [hp]; simp), fun hnone => (by rw [hp] at hnone; cases hnone), hgave⟩
  · obtain ⟨rfl, rfl⟩ := acting_exec hn hact
    exact hr
  · obtain ⟨rfl, -⟩ := acting_exec hn hact
    exact absurd hpc₀ hpc
  · intro m a v hand ask hact hhand hask
    obtain ⟨rfl, hx⟩ := acting_exec hn hact
    cases hx
    exact hreply a v hand ask rfl hhand hask

/-- A step of another actor that starts nobody. -/
theorem advance_away {j : ℕ} {x : Label A M} (hj : j ≠ i) : Advance i s (.step j x) [] := by
  have away : ∀ m nl, s.tree.acting (.step j x) ≠ some (i, m, nl) := by
    intro m nl hact
    obtain ⟨hi, -, -⟩ := acting_cases hact
    exact hj (Option.some.inj hi)
  exact ⟨fun m nl h => absurd h (away m nl), fun k m hk hm => (by cases hm), fun m nl n h => absurd h (away m nl),
    fun m a v hand own h => absurd h (away m _), fun m a v h => absurd h (away m _),
    fun _ m nl n p hand seen h => absurd h (away m nl), fun _ _ _ _ h => (by cases h)⟩

/-- A step of the tree in which the router gets no answer. -/
theorem Proper.moved {l : TreeLabel A M} {t : Tree A M} (hs : Proper i s) (ha : Advance i s l [])
    (h : s.tree.step l = some t) : Proper i { s with tree := t } := by
  simpa only [List.append_nil] using hs.advance ha h

/-- The step of the tree in which the router starts a child is its own. -/
theorem spawn_own {p : Member A M} {cfg : Config} {a : A} (hp : s.tree[i]? = some p) {m : Member A M} {nl : Label A M}
    (hact : s.tree.acting (.spawn i cfg a) = some (i, m, nl)) : m = p ∧ nl = .exec (.op (.spawn s.tree.length)) := by
  obtain ⟨-, hm, ha⟩ := acting_cases hact
  rw [hp] at hm
  cases hm
  cases ha
  exact ⟨rfl, rfl⟩

/-- It stays in `on_start`. -/
theorem spawn_stays {n n' : Node A M} {id : ℕ} (hstate : n.state = .running) (hpc : n.pc = .onStart)
    (hstep : n.step (.exec (.op (.spawn id))) = some n') : n'.pc = .onStart := by
  rw [Node.exec_op hstep, Node.ctxOp, if_pos hstate]
  exact hpc

theorem advance_spawn {p : Member A M} {cfg : Config} {a : A} (hp : s.tree[i]? = some p) (hpc : p.node.pc = .onStart)
    (hstate : p.node.state = .running) : Advance i s (.spawn i cfg a) [] := by
  refine ⟨fun m nl hact => ?_, fun k m hk hm => ?_, fun m nl n' hact hstep hpc₀ hpc' => ?_,
    fun m a v hand ask hact => (by cases (spawn_own hp hact).2), fun m a v hact => (by cases (spawn_own hp hact).2),
    fun _ m nl n' p' hand seen hact hstep hpc' => ?_, fun _ _ _ _ h => (by cases h)⟩
  · obtain ⟨rfl, rfl⟩ := spawn_own hp hact
    exact hpc
  · -- nobody is started at a place that is taken
    have hlt := (List.getElem?_eq_some_iff.1 hp).1
    omega
  · obtain ⟨rfl, rfl⟩ := spawn_own hp hact
    exact absurd (spawn_stays hstate hpc hstep) hpc'
  · obtain ⟨rfl, rfl⟩ := spawn_own hp hact
    rw [spawn_stays hstate hpc hstep] at hpc'
    cases hpc'

/-- The child that it starts is new, and its own. -/
theorem spawn_tree {p : Member A M} {cfg : Config} {a : A} {t : Tree A M} (hp : s.tree[i]? = some p)
    (hpc : p.node.pc = .onStart) (hstate : p.node.state = .running) (ht : s.tree.step (.spawn i cfg a) = some t) :
    ∃ n d k, t = s.tree.set i { p with node := n } ++ [d] ∧ d.parent = some (i, k) ∧ n.pc = .onStart := by
  obtain ⟨m, nl, n', hact, hm, hstep, hl, rfl⟩ := acted ht rfl
  obtain ⟨rfl, rfl⟩ := spawn_own hp hact
  generalize s.tree.started (.spawn i cfg a) = new at hl
  cases hl with
  | spawn cfg a hrun => exact ⟨n', _, _, rfl, rfl, spawn_stays hstate hpc hstep⟩
  | panic hrun => exact absurd hstate hrun
  | step _ ha => cases ha

/-- `on_start` of the router starts a child. -/
theorem Proper.spawn {n : Node A M} {cfg : Config} {a : A} {t : Tree A M} (hs : Proper i s) (hn : s.node i = some n)
    (hpc : n.pc = .onStart) (hlt : s.router.actors.length < s.router.maxActors)
    (ht : s.tree.step (.spawn i cfg a) = some t) :
    Proper i { s with tree := t, router := { s.router with actors := s.router.actors ++ [s.tree.length] } } := by
  obtain ⟨p, hp, rfl⟩ := node_eq.1 hn
  have hstate := (hs.routes p.node hn).routing.start hpc
  have hold := hs.moved (advance_spawn hp hpc hstate) ht
  -- the child that is new, and the router that is still in `on_start`
  have hnew : Kid t i s.tree.length ∧ ∀ n', t[i]?.map Member.node = some n' → n'.pc = .onStart := by
    obtain ⟨n', d, k, rfl, hd, hpc'⟩ := spawn_tree hp hpc hstate ht
    refine ⟨⟨d, k, Cells.get_new, hd⟩, fun n₁ hn₁ => ?_⟩
    rw [Cells.get_set (List.getElem?_eq_some_iff.1 hp).1] at hn₁
    cases hn₁
    exact hpc'
  exact
    { grown := hold.grown
      routes := hold.routes
      bound := by
        rw [List.length_append]
        exact hlt
      filled := fun n' hn' hpc' => absurd (hnew.2 n' hn') hpc'
      index := hs.index
      kids := fun j hj => by
        rcases List.mem_append.1 hj with hj | hj
        · exact hold.kids j hj
        · rw [List.mem_singleton.1 hj]
          exact hnew.1
      asking := fun j r hp => List.mem_append_left _ (hold.asking j r hp)
      awaiting := fun j k hp => ⟨List.mem_append_left _ (hold.awaiting j k hp).1, (hold.awaiting j k hp).2⟩
      busy := hold.busy
      served := fun own j k v hm => ⟨List.mem_append_left _ (hold.served own j k v hm).1, (hold.served own j k v hm).2⟩
      answers := hold.answers }

/-- The future of the router does something else. -/
theorem Proper.proxied {index : ℕ} {proxy : Option Proxy} (hs : Proper i s) (hindex : index < s.router.maxActors)
    (hasking : ∀ j retries, proxy = some (.asking j retries) → j ∈ s.router.actors)
    (hawaiting : ∀ j k, proxy = some (.awaiting j k) →
      j ∈ s.router.actors ∧ ∃ own q, Polls s.tree i own q ∧ Took s.tree j k q)
    (hbusy : proxy = none → ∀ n, s.node i = some n → ∀ p m seen, n.pc ≠ .future p m seen) :
    Proper i { s with router := { s.router with index := index }, proxy := proxy } :=
  ⟨hs.grown, hs.routes, hs.bound, hs.filled, hindex, hs.kids, hasking, hawaiting, hbusy, hs.served, hs.answers⟩

/-- It asks a child. -/
theorem Proper.asks {index address : ℕ} (hs : Proper i s) (retries : ℕ) (hindex : index < s.router.maxActors)
    (ha : address ∈ s.router.actors) :
    Proper i { s with router := { s.router with index := index }, proxy := some (.asking address retries) } := by
  refine hs.proxied hindex (fun j r hp => ?_) (fun j k hp => by cases hp) fun hp => by cases hp
  cases hp
  exact ha

/-- The child has taken the ask. -/
theorem accepted_ask {t t' : Tree A M} {q : M} {j : ℕ} {sch : Scheduler} {m : Member A M} (hm : t[j]? = some m)
    (h : t.step (.step j (.send (.asyncAsk q sch))) = some t') : Accepted t' j (.asyncAsk q m.node.asks.length sch) := by
  obtain ⟨m', nl, n, hact, hm', hstep, -, rfl⟩ := acted h rfl
  obtain ⟨-, -, ha⟩ := acting_cases hact
  obtain rfl : m' = m := Option.some.inj (hm'.symm.trans hm)
  simp only [action] at ha
  split at ha
  · cases ha
    refine ⟨_, Cells.get_set (List.getElem?_eq_some_iff.1 hm).1, ⟨none, .asyncAsk q m'.node.asks.length sch⟩, ?_, rfl⟩
    rw [Node.send_asyncAsk hstep]
    exact List.mem_append_right _ List.mem_cons_self
  · cases ha

/-- A child was started after the router. -/
theorem Proper.child_ne (hs : Proper i s) {j : ℕ} (hj : j ∈ s.router.actors) : j ≠ i := by
  obtain ⟨d, k, hd, hp⟩ := hs.kids j hj
  have hlt := hs.linked.lt hd hp
  omega

/-- An answer ends a handler or a future. -/
theorem exec_reply {n n' : Node A M} {a : A} {v : M} (h : n.exec (.reply a v) = some n') : n'.pc.polled = false := by
  unfold Node.exec at h
  cases hpc : n.pc <;> simp only [hpc, reduceCtorEq] at h
  case handle p m =>
    unfold Node.deliver at h
    split at h
    all_goals cases h
    rfl
  case future p m seen =>
    unfold Node.resolve at h
    split at h
    all_goals first
      | (cases h; rfl)
      | contradiction
  all_goals cases h

/-- What a step of its executor makes of the router. -/
theorem exec_tree {t t' : Tree A M} {x : Act A M} (h : t.step (.step i (.exec x)) = some t') :
    ∃ m n, t[i]? = some m ∧ m.node.exec x = some n ∧ t'[i]? = some { m with node := n } := by
  obtain ⟨m, nl, n, hact, hm, hstep, -, rfl⟩ := acted h rfl
  obtain ⟨-, -, ha⟩ := acting_cases hact
  simp only [action] at ha
  split at ha
  · cases ha
    exact ⟨m, n, hm, hstep, Cells.get_set (List.getElem?_eq_some_iff.1 hm).1⟩
  · cases ha

/-- Once the future has yielded, it is not awaited any more. -/
theorem replied_pc {t t' : Tree A M} {a : A} {v : M}
    (h : t.step (.step i (.exec (.reply a v))) = some t') {n : Node A M} (hn : t'[i]?.map Member.node = some n) :
    n.pc.polled = false := by
  obtain ⟨m, n', -, hexec, hm'⟩ := exec_tree h
  rw [hm'] at hn
  cases hn
  exact exec_reply hexec

/-- A router that awaits a future was asked an async ask. -/
theorem Proper.polls (hs : Proper i s) {n : Node A M} (hn : s.node i = some n) {p : Phase} {src : Option ℕ} {q : M}
    {own : ℕ} {sch : Scheduler} {seen : Bool} (hpc : n.pc = .future p ⟨src, .asyncAsk q own sch⟩ seen) :
    Polls s.tree i own q ∧ Took s.tree i own q := by
  have hr := (hs.routes n hn).routing
  have hmem := hr.life.hand_accepted hr.upright (m := ⟨src, .asyncAsk q own sch⟩) (by rw [hpc]; rfl)
  obtain ⟨q', hb⟩ := hr.asks hmem rfl
  cases hb
  obtain ⟨m, hm, rfl⟩ := node_eq.1 hn
  exact ⟨⟨m, hm, p, src, seen, hpc⟩, m, hm, _, hmem, rfl⟩

/-- The request whose future is awaited is the one at hand. -/
theorem Polls.hand {own own' : ℕ} {q q' : M} (hq : Polls s.tree i own' q') {n : Node A M} (hn : s.node i = some n)
    {p : Phase} {src : Option ℕ} {sch : Scheduler} {seen : Bool}
    (hpc : n.pc = .future p ⟨src, .asyncAsk q own sch⟩ seen) : own' = own ∧ q' = q := by
  obtain ⟨m, hm, p', src', seen', hpc'⟩ := hq
  obtain ⟨m', hm', rfl⟩ := node_eq.1 hn
  rw [hm] at hm'
  cases hm'
  rw [hpc] at hpc'
  cases hpc'
  exact ⟨rfl, rfl⟩

/-- The future of the router asks the child. -/
theorem Proper.sends {n d : Node A M} {p : Phase} {src : Option ℕ} {q : M} {own : ℕ} {sch : Scheduler} {seen : Bool}
    {address retries : ℕ} {t : Tree A M} (hs : Proper i s) (hn : s.node i = some n)
    (hpc : n.pc = .future p ⟨src, .asyncAsk q own sch⟩ seen) (hp : s.proxy = some (.asking address retries))
    (hd : s.node address = some d) (ht : s.tree.step (.step address (.send (.asyncAsk q .nonBlocking))) = some t) :
    Proper i { s with tree := t, proxy := some (.awaiting address d.asks.length) } := by
  have haddr := hs.asking address retries hp
  have hne := hs.child_ne haddr
  obtain ⟨⟨m, hm, hpolls⟩, -⟩ := hs.polls hn hpc
  have hs' := hs.moved (advance_away hne) ht
  refine hs'.proxied hs.index (fun j r h => ?_) (fun j k h => ?_) fun h => ?_
  · cases h
  · cases h
    obtain ⟨c, hc, rfl⟩ := node_eq.1 hd
    refine ⟨haddr, own, q, ⟨m, ?_, hpolls⟩, accepted_ask hc ht⟩
    obtain ⟨-, -, -, -, -, -, -, rfl⟩ := acted ht rfl
    exact Cells.get_old (Ne.symm hne) hm
  · cases h

/-- The child has answered, and the future yields its answer. -/
theorem Proper.yields {n d : Node A M} {p : Phase} {src : Option ℕ} {q : M} {own : ℕ} {sch : Scheduler} {seen : Bool}
    {address k : ℕ} {v : M} {t : Tree A M} (hs : Proper i s) (hu : KidsUpright s.tree i) (hn : s.node i = some n)
    (hpc : n.pc = .future p ⟨src, .asyncAsk q own sch⟩ seen) (hp : s.proxy = some (.awaiting address k))
    (hd : s.node address = some d) (hv : ActorRef.answer d k = some (.ok v))
    (ht : s.tree.step (.step i (.exec (.reply n.actor v))) = some t) :
    Proper i { s with tree := t, proxy := none, served := s.served ++ [(own, address, k, v)] } := by
  obtain ⟨haddr, own', q', hpolls, htook⟩ := hs.awaiting address k hp
  have hs' := hs.asks 0 hs.index haddr
  -- the ask that the child has answered is the one at hand
  obtain ⟨rfl, rfl⟩ := hpolls.hand hn hpc
  have hadv : Advance i { s with proxy := some (.asking address 0) } (.step i (.exec (.reply n.actor v)))
      [(own', address, k, v)] := advance_own hn ?_ (by rw [hpc]; simp) rfl ?_ ?_
  · refine (hs'.advance hadv ht).proxied hs.index (fun j r h => ?_) (fun j k h => ?_) fun _ n' hn' p' m' seen' hpc' => ?_
    · cases h
    · cases h
    · have hpolled := replied_pc ht hn'
      rw [hpc'] at hpolled
      cases hpolled
  · exact trivial
  · intro a v' hand ask hx hhand hask
    cases hx
    rw [hpc] at hhand
    cases hhand
    cases hask
    exact ⟨address, k, List.mem_cons_self⟩
  · intro own₁ j₁ k₁ v₁ hmem
    rw [List.mem_singleton] at hmem
    cases hmem
    obtain ⟨v', hv', hgave⟩ := hs.gave hu hp hd hv
    cases hv'
    exact ⟨haddr, hgave, q', (hs.polls hn hpc).2, htook⟩

/-- **A step under the condition keeps the router and its children proper.** -/
theorem proper_step {l : RouterLabel A M} (hs : Proper i s) (hf : Fit i scheduler s l)
    (h : s.step i scheduler l = some s') : Proper i s' := by
  have hpos := hs.index
  cases turn h with
  | spawn cfg a n t hn hpc hlt ht => exact hs.spawn hn hpc hlt ht
  | handle n p src q own sch address t hn hpc ha ht =>
    have hnext : (s.router.index + 1) % s.router.maxActors < s.router.maxActors := Nat.mod_lt _ (Nat.zero_lt_of_lt hpos)
    have hs' := hs.asks s.router.maxRetry hnext (List.mem_of_getElem? ha)
    refine hs'.moved (advance_own hn ?_ (by rw [hpc]; simp) rfl (fun _ _ _ _ h => ?_) fun _ _ _ _ h => ?_) ht
    · exact trivial
    · cases h
    · cases h
  | ask n p src q own sch seen address retries d t hn hpc hp hd ht =>
    obtain ⟨rfl, -⟩ := hf.2
    exact hs.sends hn hpc hp hd ht
  | answer n p src q own sch seen address k d v t hn hpc hp hd hv ht => exact hs.yields hf.1 hn hpc hp hd hv ht
  | other l t hp ht => exact hs.moved (advance_other hs hp hf) ht
  | unaddressed n p m hn hpc ha =>
    -- once `on_start` has returned, there is a child at every index
    have hfull := hs.filled n hn (by rw [hpc]; simp)
    rw [List.getElem?_eq_none_iff] at ha
    omega
  | closed address retries d hp hd hc =>
    have hopen := hf.2.2 address (by simp [asked, hp]) d hd
    rw [hopen] at hc
    cases hc
  | dropped address k d e hp hd hv =>
    obtain ⟨v, hv, -⟩ := hs.gave hf.1 hp hd hv
    cases hv

/-- **In every run under the condition the router and its children are proper.** -/
theorem proper_run {maxRetry maxActors : ℕ} {ls : List (RouterLabel A M)} (h : 0 < maxActors)
    (hf : Lts.Along (RouterTree.step i scheduler) (Fit i scheduler) (RouterTree.init maxRetry maxActors) ls)
    (hr : Lts.run (RouterTree.step i scheduler) (RouterTree.init maxRetry maxActors) ls = some s) : Proper i s :=
  Lts.run_along (fun _ _ _ hs hf h => proper_step hs hf h) (proper_init maxRetry maxActors h) hf hr

/-! ## What a router waits for -/

/-- The step is one of the code of the router, actor `i`. -/
def own (i : ℕ) : RouterLabel A M → Bool
  | .spawn _ _ | .handle | .ask | .answer => true
  | .other (.step j (.exec _)) => j = i
  | .other _ => false

/-- What the code of the router waits for. -/
inductive Waits (s : RouterTree A M) (n : Node A M) : Prop
  /-- a message, or the end of all addresses -/
  | message (hpc : n.pc = .recv ∨ n.pc = .select) (hq : n.mailbox.queue = []) (ho : n.mailbox.closed = false)
  /-- a child that takes messages -/
  | room (j : ℕ) (d : Node A M) (hj : j ∈ s.asked) (hd : s.node j = some d) (hf : d.mailbox.full = true)
  /-- the answer of a child -/
  | answer (j k : ℕ) (d : Node A M) (hj : s.proxy = some (.awaiting j k)) (hd : s.node j = some d)
      (hm : ∃ m ∈ d.ahead, m.body.asker = some k)

/-- An actor that can take a step takes it in the tree. -/
theorem step_member {t : Tree A M} {j : ℕ} {m : Member A M} {l : Label A M} {n : Node A M} (hm : t[j]? = some m)
    (ha : t.allows m l = true) (h : m.node.step l = some n) : ∃ t', t.step (.step j l) = some t' := by
  refine ⟨t.set j { m with node := n } ++ [], ?_⟩
  simp [Tree.step, actor, acting, action, hm, ha, h, started]

theorem act_enabled {l : TreeLabel A M} (f : RouterTree A M → RouterTree A M) (h : ∃ t, s.tree.step l = some t) :
    ∃ s', s.act l f = some s' := by
  obtain ⟨t, ht⟩ := h
  exact ⟨f { s with tree := t }, by rw [act, ht]; rfl⟩

/-- An action of the router that nobody else decides. -/
theorem exec_enabled {n n' : Node A M} {x : Act A M} (hn : s.node i = some n)
    (hx : ∀ (t : Tree A M) m, t.allows m (.exec x) = true) (h : n.exec x = some n') :
    ∃ t, s.tree.step (.step i (.exec x)) = some t := by
  obtain ⟨m, hm, rfl⟩ := node_eq.1 hn
  exact step_member hm (hx _ m) h

theorem other_enabled (scheduler : Scheduler) {n n' : Node A M} {x : Act A M} (hn : s.node i = some n)
    (hr : runs s.router n (.exec x) = true) (hx : ∀ (t : Tree A M) m, t.allows m (.exec x) = true) (h : n.exec x = some n') :
    ∃ s', s.step i scheduler (.other (.step i (.exec x))) = some s' := by
  have hp : s.permits i (.step i (.exec x)) = true := by
    simp only [permits, hn, Option.mem_def, Option.some.injEq, decide_eq_true_eq]
    rintro - n rfl
    exact hr
  obtain ⟨s', hs'⟩ := act_enabled id (exec_enabled hn hx h)
  exact ⟨s', by rw [step, if_pos hp, hs']⟩

/-- A main loop goes on, unless the mailbox is empty and open. -/
theorem loop_enabled {n : Node A M} (hpc : n.pc = .recv ∨ n.pc = .select) :
    (∃ x n', (x = .recv ∨ x = .none) ∧ n.exec x = some n') ∨ n.mailbox.queue = [] ∧ n.mailbox.closed = false := by
  cases hq : n.mailbox.queue with
  | cons m q =>
    obtain ⟨p, hp⟩ := Chan.pop_of_cons hq
    refine .inl ⟨.recv, ?_⟩
    rcases hpc with hpc | hpc <;> simp [Node.exec, hpc, Node.handleSupervisedMessage, Node.receive, hp]
  | nil =>
    cases hc : n.mailbox.closed with
    | true =>
      refine .inl ⟨.none, ?_⟩
      rcases hpc with hpc | hpc <;> simp [Node.exec, hpc, Node.handleSupervisedMessage, Node.receive, hq, hc]
    | false => exact .inr ⟨rfl, rfl⟩

/-- The drain takes a message, or is over. -/
theorem drain_enabled {n : Node A M} (hpc : n.pc = .drain) : ∃ x n', (x = .recv ∨ x = .none) ∧ n.exec x = some n' := by
  cases hq : n.mailbox.queue with
  | cons m q =>
    obtain ⟨p, hp⟩ := Chan.pop_of_cons hq
    exact ⟨.recv, by simp [Node.exec, hpc, Node.drainStep, hp]⟩
  | nil => exact ⟨.none, by simp [Node.exec, hpc, Node.drainStep, hq]⟩

/-- In `on_start` the router starts its next child, or returns. -/
theorem Proper.onStart_enabled (hs : Proper i s) {n : Node A M} (hn : s.node i = some n) (hpc : n.pc = .onStart) :
    ∃ l s', own i l = true ∧ s.step i scheduler l = some s' := by
  by_cases hlt : s.router.actors.length < s.router.maxActors
  · obtain ⟨m, hm, rfl⟩ := node_eq.1 hn
    have hstep : ∃ t, s.tree.step (.spawn i ⟨0, 0, true, []⟩ m.node.actor) = some t := by
      have hexec : m.node.step (.exec (.op (.spawn s.tree.length))) = some (m.node.ctxOp (.spawn s.tree.length)) := by
        simp [Node.step, Node.exec, hpc, Node.callback]
      exact ⟨_, by simp only [Tree.step, actor, acting, action, hm, Option.bind_some, Option.map_some, hexec]; rfl⟩
    obtain ⟨s', hs'⟩ := act_enabled (s := s)
      (fun s' => { s' with router := { s.router with actors := s.router.actors ++ [s.tree.length] } }) hstep
    refine ⟨.spawn ⟨0, 0, true, []⟩ m.node.actor, s', rfl, ?_⟩
    rw [step, hn, Option.bind_some, onStart, hpc]
    simp only [if_pos hlt]
    exact hs'
  · have hfull : s.router.actors.length = s.router.maxActors := Nat.le_antisymm hs.bound (by omega)
    have hr : runs s.router n (.exec (.ret n.actor)) = true := by simp [runs, hpc, hfull]
    obtain ⟨s', hs'⟩ := other_enabled scheduler hn hr (fun _ _ => rfl)
      (show n.exec (.ret n.actor) = some ({ n with actor := n.actor } : Node A M).mainLoop by
        simp [Node.exec, hpc, Node.callback]; rfl)
    exact ⟨_, s', by simp [own], hs'⟩

/-- A handler of the router goes on. -/
theorem Proper.handle_enabled (hs : Proper i s) (hu : KidsUpright s.tree i) {n : Node A M} (hn : s.node i = some n)
    {p : Phase} {m : Mail A M} (hpc : n.pc = .handle p m) : ∃ l s', own i l = true ∧ s.step i scheduler l = some s' := by
  have hr := (hs.routes n hn).routing
  have hmem := hr.life.hand_accepted hr.upright (m := m) (by rw [hpc]; rfl)
  have hexp := hr.mail m hmem
  obtain ⟨src, body⟩ := m
  have other : ∀ x n', runs s.router n (.exec x) = true → (∀ (t : Tree A M) m, t.allows m (.exec x) = true) →
      n.exec x = some n' → ∃ l s', own i l = true ∧ s.step i scheduler l = some s' := by
    intro x n' hruns hx hexec
    obtain ⟨s', hs'⟩ := other_enabled scheduler hn hruns hx hexec
    exact ⟨_, s', by simp [own], hs'⟩
  cases body with
  | user q | ask q k => exact hexp.elim
  | asyncAsk q k sch =>
    -- there is a child at every index
    have hlt : s.router.index < s.router.actors.length := by
      rw [hs.filled n hn (by rw [hpc]; simp)]
      exact hs.index
    have hexec : ∃ n', n.exec (.ret n.actor) = some n' := ⟨_, by simp [Node.exec, hpc, Node.deliver, Node.callback]; rfl⟩
    obtain ⟨n', hexec⟩ := hexec
    obtain ⟨s', hs'⟩ := act_enabled (s := s)
      (fun s' => { s' with
        router := { s.router with index := (s.router.index + 1) % s.router.maxActors }
        proxy := some (.asking s.router.actors[s.router.index] s.router.maxRetry) })
      (exec_enabled hn (fun _ _ => rfl) hexec)
    refine ⟨.handle, s', rfl, ?_⟩
    rw [step, hn, Option.bind_some, handle, hpc]
    simp only [List.getElem?_eq_getElem hlt]
    exact hs'
  | await stopNow w => exact other .go _ rfl (fun _ _ => rfl) (by simp [Node.exec, hpc, Node.deliver]; rfl)
  | cancelled c => exact other .go _ rfl (fun _ _ => rfl) (by simp [Node.exec, hpc, Node.deliver]; rfl)
  | dead r =>
    cases r with
    | ok a =>
      exact other (.ret n.actor) _ (by simp [runs, hpc]) (fun _ _ => rfl)
        (by simp [Node.exec, hpc, Node.deliver, Node.callback]; rfl)
    | error e => exact absurd rfl (hs.no_error hu hn hmem e)

/-- The router can panic where its code says so. -/
theorem panic_enabled {n : Node A M} (hn : s.node i = some n) {p : Phase} {m : Mail A M} {seen : Bool}
    (hpc : n.pc = .future p m seen) : ∃ s', s.panic i = some s' := by
  have hexec : n.exec .panic = some (n.unwind .callback) := by simp [Node.exec, hpc, Node.resolve]
  exact act_enabled id (exec_enabled hn (fun _ _ => rfl) hexec)

/-- An open mailbox with a slot takes an ask. -/
theorem asyncAsk_enabled {d : Node A M} (hc : d.mailbox.closed = false) (hf : d.mailbox.full = false) (q : M)
    (sch : Scheduler) : ∃ d', d.send (.asyncAsk q sch) = some d' ∧
      ActorRef.asyncAsk d q sch = some (.returns (.ok d.asks.length), d') := by
  have hlt : d.mailbox.queue.length < d.mailbox.cap := by
    unfold Chan.full at hf
    simpa using hf
  have hsend : ∃ d', d.send (.asyncAsk q sch) = some d' := by
    simp only [Node.send, Chan.push, dif_pos (And.intro hc hlt)]
    exact ⟨_, rfl⟩
  obtain ⟨d', hd'⟩ := hsend
  refine ⟨d', hd', ?_⟩
  unfold ActorRef.asyncAsk ActorRef.askWith mpscSend
  rw [if_neg (by rw [hc]; decide)]
  simp only [hd', Option.map_some]

/-- The future of the router asks its child, or waits for a slot in the mailbox of the child. -/
theorem Proper.asking_enabled (hs : Proper i s) {m : Member A M} (hm : s.tree[i]? = some m) {p : Phase}
    {src : Option ℕ} {q : M} {own₀ : ℕ} {sch : Scheduler} {seen : Bool}
    (hpc : m.node.pc = .future p ⟨src, .asyncAsk q own₀ sch⟩ seen) {j retries : ℕ}
    (hp : s.proxy = some (.asking j retries)) :
    (∃ l s', own i l = true ∧ s.step i scheduler l = some s') ∨ s.Waits m.node := by
  have hn : s.node i = some m.node := node_eq.2 ⟨m, hm, rfl⟩
  obtain ⟨c, k, hc, -⟩ := hs.kids j (hs.asking j retries hp)
  have hd : s.node j = some c.node := node_eq.2 ⟨c, hc, rfl⟩
  have hask : s.step i scheduler .ask = s.ask i scheduler m.node := by rw [step, hn, Option.bind_some]
  cases hclosed : c.node.mailbox.closed with
  | true =>
    -- the ask fails, and the `unwrap` panics
    left
    obtain ⟨s', hs'⟩ := panic_enabled hn hpc
    refine ⟨.ask, s', rfl, ?_⟩
    rw [hask, ask, hpc, hp]
    simp only [hd, Option.bind_some, (ask_panics hclosed q scheduler).2]
    exact hs'
  | false =>
    cases hfull : c.node.mailbox.full with
    | true => exact .inr (.room j c.node (by simp [asked, hp]) hd hfull)
    | false =>
      left
      obtain ⟨d', hsend, hasync⟩ := asyncAsk_enabled hclosed hfull q scheduler
      obtain ⟨s', hs'⟩ := act_enabled (s := s) (fun s' => { s' with proxy := some (.awaiting j c.node.asks.length) })
        (step_member hc (l := .send (.asyncAsk q scheduler)) rfl hsend)
      refine ⟨.ask, s', rfl, ?_⟩
      rw [hask, ask, hpc, hp]
      simp only [hd, Option.bind_some, hasync]
      exact hs'

/-- It yields the answer of the child, or waits for it. -/
theorem Proper.awaiting_enabled (hs : Proper i s) (hu : KidsUpright s.tree i) {m : Member A M}
    (hm : s.tree[i]? = some m) {p : Phase} {src : Option ℕ} {q : M} {own₀ : ℕ} {sch : Scheduler} {seen : Bool}
    (hpc : m.node.pc = .future p ⟨src, .asyncAsk q own₀ sch⟩ seen) {j k : ℕ} (hp : s.proxy = some (.awaiting j k)) :
    (∃ l s', own i l = true ∧ s.step i scheduler l = some s') ∨ s.Waits m.node := by
  have hn : s.node i = some m.node := node_eq.2 ⟨m, hm, rfl⟩
  obtain ⟨hj, own', q', -, c, hc, mail, hmail, hb⟩ := hs.awaiting j k hp
  have hd : s.node j = some c.node := node_eq.2 ⟨c, hc, rfl⟩
  obtain ⟨cfg, a, ls, hrun⟩ := hs.lives hd
  rcases asyncAsk_answered hrun (hs.upright hu hj hd) hmail hb with ⟨hahead, -⟩ | ⟨v, hv⟩
  · exact .inr (.answer j k c.node hp hd ⟨mail, hahead, by rw [hb]; rfl⟩)
  · left
    have hexec : ∃ n', m.node.exec (.reply m.node.actor v) = some n' :=
      ⟨_, by simp [Node.exec, hpc, Node.resolve]; rfl⟩
    obtain ⟨n', hexec⟩ := hexec
    obtain ⟨s', hs'⟩ := act_enabled (s := s)
      (fun s' => { s' with proxy := none, served := s.served ++ [(own₀, j, k, v)] })
      (exec_enabled hn (fun _ _ => rfl) hexec)
    refine ⟨.answer, s', rfl, ?_⟩
    rw [step, hn, Option.bind_some, answer, hpc, hp]
    simp only [hd, Option.bind_some, hv [] c.node rfl]
    exact hs'

/-- The future of the router goes on, or waits for a child. -/
theorem Proper.future_enabled (hs : Proper i s) (hu : KidsUpright s.tree i) {n : Node A M} (hn : s.node i = some n)
    {p : Phase} {m : Mail A M} {seen : Bool} (hpc : n.pc = .future p m seen) :
    (∃ l s', own i l = true ∧ s.step i scheduler l = some s') ∨ s.Waits n := by
  obtain ⟨a₀, tr, hserved⟩ := (hs.routes n hn).served
  obtain ⟨-, q, own₀, hbody⟩ := hserved.future hpc
  obtain ⟨src, body⟩ := m
  obtain rfl : body = .asyncAsk q own₀ .nonBlocking := hbody
  obtain ⟨m, hm, rfl⟩ := node_eq.1 hn
  cases hp : s.proxy with
  | none => exact absurd hpc (hs.busy hp m.node hn p _ seen)
  | some x =>
    cases x with
    | asking j retries => exact hs.asking_enabled hm hpc hp
    | awaiting j k => exact hs.awaiting_enabled hu hm hpc hp

/-- **The code of the router goes on until it is over**, but where it waits for a message or a
child. -/
theorem Proper.goes (hs : Proper i s) (hu : KidsUpright s.tree i) {n : Node A M} (hn : s.node i = some n)
    (hstuck : ∀ l, own i l = true → s.step i scheduler l = none) : n.pc.over = true ∨ s.Waits n := by
  have hr := (hs.routes n hn).routing
  have stuck : (∃ l s', own i l = true ∧ s.step i scheduler l = some s') → False := by
    rintro ⟨l, s', hl, hs'⟩
    rw [hstuck l hl] at hs'
    cases hs'
  have can : ∀ x n', runs s.router n (.exec x) = true → (∀ (t : Tree A M) m, t.allows m (.exec x) = true) →
      n.exec x = some n' → False := by
    intro x n' hruns hx hexec
    obtain ⟨s', hs'⟩ := other_enabled scheduler hn hruns hx hexec
    exact stuck ⟨_, s', by simp [own], hs'⟩
  have go : ∀ n', n.exec .go = some n' → False := fun n' => can .go n' rfl fun _ _ => rfl
  have take : ∀ x n', x = .recv ∨ x = .none → n.exec x = some n' → False := by
    rintro x n' (rfl | rfl) hexec
    · exact can .recv n' rfl (fun _ _ => rfl) hexec
    · exact can .none n' rfl (fun _ _ => rfl) hexec
  -- its callbacks return, but for the handlers and `on_start`
  have ret : n.pc ≠ .onStart → (∀ p m, n.pc ≠ .handle p m) → ∀ n', n.exec (.ret n.actor) = some n' → False := by
    intro h₁ h₂ n'
    refine can (.ret n.actor) n' ?_ fun _ _ => rfl
    unfold runs
    split <;> simp_all
  cases hpc : n.pc with
  | onStart => exact (stuck (hs.onStart_enabled hn hpc)).elim
  | recv =>
    rcases loop_enabled (.inl hpc) with ⟨x, n', hx, hexec⟩ | ⟨hq, ho⟩
    · exact (take x n' hx hexec).elim
    · exact .inr (.message (.inl hpc) hq ho)
  | select =>
    rcases loop_enabled (.inr hpc) with ⟨x, n', hx, hexec⟩ | ⟨hq, ho⟩
    · exact (take x n' hx hexec).elim
    · exact .inr (.message (.inr hpc) hq ho)
  | check hand => exact (go _ (by simp [Node.exec, hpc]; rfl)).elim
  | acquire hand k rest => exact absurd hpc (hr.permitted hand k rest)
  | process p m => exact (go _ (by simp [Node.exec, hpc]; rfl)).elim
  | preRun p m | postRun p | onStopping | onStopped | onEnd =>
    exact (ret (by simp [hpc]) (by simp [hpc]) _ (by simp [Node.exec, hpc, Node.callback]; rfl)).elim
  | handle p m => exact (stuck (hs.handle_enabled hu hn hpc)).elim
  | future p m seen =>
    rcases hs.future_enabled hu hn hpc with h | h
    · exact (stuck h).elim
    · exact .inr h
  | cancelling p m =>
    obtain ⟨a₀, tr, hserved⟩ := (hs.routes n hn).served
    exact absurd hpc (hserved.uncancelled p m)
  | isClosed | recheck | notify | assertClosed | returned => exact (go _ (by simp [Node.exec, hpc]; rfl)).elim
  | wait =>
    -- a second passes at any rate
    have htick : ∃ n', n.exec .tick = some n' := by
      simp only [Node.exec, hpc, Node.stoppingLoop]
      split <;> exact ⟨_, rfl⟩
    obtain ⟨n', htick⟩ := htick
    exact (can .tick n' rfl (fun _ _ => rfl) htick).elim
  | drain =>
    obtain ⟨x, n', hx, hexec⟩ := drain_enabled hpc
    exact (take x n' hx hexec).elim
  | handed | reporting | done => exact .inl rfl
  | panicked c => exact absurd (by rw [hpc]; rfl) hr.upright

/-! ## The answers of a router -/

/-- What the callers of a router can rely on. -/
structure Serving (i : ℕ) (scheduler : Scheduler) (s : RouterTree A M) (n : Node A M) : Prop where
  /-- it does not panic -/
  upright : n.pc.stage ≠ .failed
  /-- when `on_end` is called, nothing is ahead -/
  ended : n.pc.stage = .ended → n.ahead = []
  /-- an ask is ahead and waits, or a child was asked the same and its answer was passed on -/
  answered : ∀ m ∈ n.mailbox.accepted, ∀ own, m.body.asker = some own →
    (m ∈ n.ahead ∧ ActorRef.answer n own = none) ∨
    ∃ q j k d v, m.body = .asyncAsk q own .nonBlocking ∧ j ∈ s.router.actors ∧ s.node j = some d ∧
      (∃ m' ∈ d.mailbox.accepted, m'.body = .asyncAsk q k .nonBlocking) ∧
      ActorRef.answer d k = some (.ok v) ∧ ActorRef.answer n own = some (.ok v)
  /-- its code goes on until it is over, but where it waits for a message or a child -/
  goes : KidsUpright s.tree i → (∀ l, own i l = true → s.step i scheduler l = none) → n.pc.over = true ∨ s.Waits n

theorem answer_ok {n : Node A M} {k : ℕ} {v : M} (h : ActorRef.answer n k = some (.ok v)) :
    n.asks[k]? = some (.replied v) := by
  unfold ActorRef.answer at h
  split at h
  · rename_i u hu
    cases h
    exact hu
  · cases h
  · cases h
  · cases h

/-- The answer of a router is one that a child gave to the same question. -/
theorem Proper.answered (hs : Proper i s) {n : Node A M} (hn : s.node i = some n) {m : Mail A M}
    (hm : m ∈ n.mailbox.accepted) {ask : ℕ} (hask : m.body.asker = some ask) {v : M}
    (hv : ActorRef.answer n ask = some (.ok v)) :
    ∃ q j k d v, m.body = .asyncAsk q ask .nonBlocking ∧ j ∈ s.router.actors ∧ s.node j = some d ∧
      (∃ m' ∈ d.mailbox.accepted, m'.body = .asyncAsk q k .nonBlocking) ∧
      ActorRef.answer d k = some (.ok v) ∧ ActorRef.answer n ask = some (.ok v) := by
  obtain ⟨j, k, hmem⟩ := hs.answers n hn ask v (answer_ok hv)
  obtain ⟨hj, ⟨d, hd, hgave⟩, q, ⟨r, hr, m₀, hm₀, hb₀⟩, ⟨d', hd', hm'⟩⟩ := hs.served ask j k v hmem
  rw [hd] at hd'
  cases hd'
  obtain ⟨r', hr', rfl⟩ := node_eq.1 hn
  rw [hr] at hr'
  cases hr'
  -- an ask is known by its number
  obtain ⟨cfg, a, ls, hrun⟩ := hs.lives hn
  have heq := (distinct_run hrun).eq hm hm₀ hask (by rw [hb₀]; rfl)
  exact ⟨q, j, k, d.node, v, heq ▸ hb₀, hj, node_eq.2 ⟨d, hd, rfl⟩, hm', hgave [] d.node rfl, hv⟩

/-- **A router answers every ask with what a child answers**, as long as each child it asks has
an open mailbox. -/
theorem router_answers {maxRetry maxActors : ℕ} {ls : List (RouterLabel A M)} (h : 0 < maxActors)
    (hf : Lts.Along (RouterTree.step i scheduler) (Fit i scheduler) (RouterTree.init maxRetry maxActors) ls)
    (hr : Lts.run (RouterTree.step i scheduler) (RouterTree.init maxRetry maxActors) ls = some s) {n : Node A M}
    (hn : s.node i = some n) : Serving i scheduler s n := by
  have hs := proper_run h hf hr
  have hroutes := hs.routes n hn
  have hrouting := hroutes.routing
  refine ⟨hrouting.upright, ended_ahead hrouting.life, fun m hm ask hask => ?_, fun hu hstuck => hs.goes hu hn hstuck⟩
  rcases routed_answers hroutes hm hask with hw | ⟨v, hv⟩
  · exact .inl hw
  · exact .inr (hs.answered hn hm hask hv)

instance (t : Tree A M) (i : ℕ) : Decidable (KidsUpright t i) := inferInstanceAs (Decidable (∀ d ∈ t, _ → _))

instance (i : ℕ) (scheduler : Scheduler) (s : RouterTree A M) : (l : RouterLabel A M) → Decidable (Fit i scheduler s l)
  | .ask => inferInstanceAs (Decidable (_ ∧ _ ∧ _))
  | .other (.step _ (.exec .died)) | .other (.step _ (.exec .tick)) => inferInstanceAs (Decidable (_ ∧ _))
  | .spawn _ _ | .handle | .answer | .other (.run _ _) | .other (.spawn _ _ _) | .other (.join _ _)
  | .other (.step _ (.send _)) | .other (.step _ .refuse) | .other (.step _ (.poll _)) | .other (.step _ (.giveUp _))
  | .other (.step _ (.task _ _)) | .other (.step _ (.join _ _)) | .other (.step _ .dropCtx)
  | .other (.step _ (.exec (.op _))) | .other (.step _ (.exec (.ret _))) | .other (.step _ (.exec (.reply _ _)))
  | .other (.step _ (.exec (.task _ _))) | .other (.step _ (.exec .panic)) | .other (.step _ (.exec .recv))
  | .other (.step _ (.exec .none)) | .other (.step _ (.exec .shutdown)) | .other (.step _ (.exec .changed))
  | .other (.step _ (.exec .go)) => inferInstanceAs (Decidable (_ ∧ True))

/-- The executor of actor `j` takes a step. -/
def does (j : ℕ) (x : Act Unit ℕ) : RouterLabel Unit ℕ := .other (.step j (.exec x))

/-- A router with one child passes an ask on, and its answer back; then it is awaited and
stops with its child. -/
def passingRun : List (RouterLabel Unit ℕ) :=
  [.other (.run ⟨4, 1, false, []⟩ ()), .spawn ⟨4, 1, true, []⟩ (), does 0 (.ret ()), does 1 (.ret ()), does 1 .go,
    .other (.step 0 (.send (.asyncAsk 7 .nonBlocking))), does 0 .recv, does 0 .go, does 0 .go, does 0 (.ret ()),
    .handle, .ask, does 1 .recv, does 1 .go, does 1 (.ret ()), does 1 (.ret ()), does 1 (.reply () 9),
    does 1 (.ret ()), .answer, does 0 (.ret ()),
    .other (.step 0 (.send (.await true))), does 0 .recv, does 0 .go, does 0 .go, does 0 (.ret ()), does 0 .go,
    does 0 (.ret ()), does 0 (.ret ()), does 0 .go, does 0 .go, does 1 .go, does 1 .shutdown, does 1 (.ret ()),
    does 1 .go, does 1 (.ret ()), does 1 .go, does 1 .none, does 1 (.ret ()), does 1 .go, .other (.join 0 0),
    .other (.step 0 (.task 0 (.child .send))), .other (.step 0 (.task 0 (.child .drop))), does 0 .recv, does 0 .go,
    does 0 (.ret ()), does 0 (.ret ()), does 0 (.ret ()), does 0 .go, does 0 (.ret ()), does 0 .go, does 0 .none]

theorem router_answers_passingRun :
    ∃ (s : RouterTree Unit ℕ) (n : Node Unit ℕ),
      Lts.run (RouterTree.step 0 .nonBlocking) (RouterTree.init 1 1) passingRun = some s ∧ s.node 0 = some n ∧
      n.pc = .onEnd ∧ ActorRef.answer n 0 = some (.ok 9) ∧ Serving 0 .nonBlocking s n := by
  have hr : ∃ (s : RouterTree Unit ℕ) (n : Node Unit ℕ),
      Lts.run (RouterTree.step 0 .nonBlocking) (RouterTree.init 1 1) passingRun = some s ∧ s.node 0 = some n ∧
      n.pc = .onEnd ∧ ActorRef.answer n 0 = some (.ok 9) := ⟨_, _, rfl, rfl, rfl, rfl⟩
  obtain ⟨s, n, hr, hn, hpc, hv⟩ := hr
  exact ⟨s, n, hr, hn, hpc, hv, router_answers (by decide) (by decide) hr hn⟩

/-- The router is awaited and has told its child to shut down when it takes the ask that was
still queued. -/
def lateRun : List (RouterLabel Unit ℕ) :=
  [.other (.run ⟨4, 1, false, []⟩ ()), .spawn ⟨4, 1, true, []⟩ (), does 0 (.ret ()), does 1 (.ret ()), does 1 .go,
    .other (.step 0 (.send (.await true))), .other (.step 0 (.send (.asyncAsk 7 .nonBlocking))), does 0 .recv,
    does 0 .go, does 0 .go, does 0 (.ret ()), does 0 .go, does 0 (.ret ()), does 0 (.ret ()), does 0 .go, does 0 .go,
    does 1 .shutdown, does 1 (.ret ()), does 1 .go, does 0 .recv, does 0 .go, does 0 (.ret ()), .handle, .ask]

/-- **A router panics when it asks a child that it has told to shut down**, and drops the ask;
no child has panicked. -/
theorem router_panics :
    ∃ (s : RouterTree Unit ℕ) (n : Node Unit ℕ),
      Lts.run (RouterTree.step 0 .nonBlocking) (RouterTree.init 1 1) lateRun = some s ∧ s.node 0 = some n ∧
      KidsUpright s.tree 0 ∧ n.mailbox.accepted = [⟨none, .await true 0⟩, ⟨none, .asyncAsk 7 0 .nonBlocking⟩] ∧
      n.pc = .panicked .callback ∧ ActorRef.answer n 0 = some (.error .dropped) ∧ ¬ Serving 0 .nonBlocking s n := by
  refine ⟨_, _, rfl, rfl, by decide, rfl, rfl, rfl, fun h => ?_⟩
  exact h.upright rfl

end RouterTree

end Tokactor
