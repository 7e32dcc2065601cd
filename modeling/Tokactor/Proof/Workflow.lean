import Tokactor.Model.Workflow
import Tokactor.Proof.Completion
import Tokactor.Proof.FanIn

/-!
# Workflows against a tree of objects

A task runs a workflow, and asks actors that run objects, while they, and everybody else who
sends them messages, go on in any way.

* `Workflow.Takes`: the calls that a workflow makes, and what it returns, part by part;
  `Workflow.takes_iff`: these are the paths of `Workflow.run`.
* `workflow_performs`: the calls of the task are those of its workflow, and each has the answer that
  the object gives to it at its place in the mailbox.
* `workflow_computes`: where the answer of an actor is a function of the message, the workflow
  computes the composition of these functions.
* `workflow_ends`: at rest the workflow has ended.
-/

namespace Tokactor

open Script

variable {A M : Type}

/-! ## What a workflow does -/

namespace Workflow

/-- The workflow makes the calls `es` on `input`, and returns `v`. -/
def Takes : Workflow M → M → List ((ℕ × M) × Except (AskError M) M) → M → Prop
  | .func f, input, es, v => Path (f input) es (.done v)
  | .actorRef address, input, es, v => es = [((address, input), .ok v)]
  | .andThen a b, input, es, v | .chained a b, input, es, v =>
    ∃ es₁ es₂ x, es = es₁ ++ es₂ ∧ a.Takes input es₁ x ∧ b.Takes x es₂ v

/-- **The paths of `run`** are the calls of its parts, one part after the other. -/
theorem takes_iff (w : Workflow M) {input v : M} {es : List ((ℕ × M) × Except (AskError M) M)} :
    Path (w.run input) es (.done v) ↔ w.Takes input es v := by
  induction w generalizing input v es with
  | func f => rfl
  | actorRef address =>
    constructor
    · intro h
      cases h with
      | @cons _ r _ _ _ h =>
        cases r with
        | ok response =>
          obtain ⟨rfl, h⟩ := h.of_done
          cases h
          rfl
        | error e => cases h
    · intro h
      have h : es = [((address, input), .ok v)] := h
      rw [h]
      exact .cons (.nil _)
  | andThen a b iha ihb | chained a b iha ihb =>
    constructor
    · intro h
      obtain ⟨es₁, es₂, x, hes, h₁, h₂⟩ := Path.bind_done h
      exact ⟨es₁, es₂, x, hes, iha.1 h₁, ihb.1 h₂⟩
    · rintro ⟨es₁, es₂, x, rfl, h₁, h₂⟩
      exact (iha.2 h₁).bind (ihb.2 h₂)

/-- How steps are nested makes no difference. -/
theorem run_assoc (a b c : Workflow M) : (Workflow.andThen (.andThen a b) c).run = (Workflow.andThen a (.andThen b c)).run := by
  funext input
  exact bind_assoc (a.run input) b.run c.run

/-- What the workflow returns when actor `i` answers `f i m`; `none` if it panics. -/
def value (f : ℕ → M → M) : Workflow M → M → Option M
  | .func g, input => (g input).value fun q => .ok (f q.1 q.2)
  | .actorRef address, input => some (f address input)
  | .andThen a b, input | .chained a b, input => (a.value f input).bind (b.value f)

theorem run_value (f : ℕ → M → M) (w : Workflow M) (input : M) :
    (w.run input).value (fun q => .ok (f q.1 q.2)) = w.value f input := by
  induction w generalizing input with
  | func g => rfl
  | actorRef address => rfl
  | andThen a b iha ihb | chained a b iha ihb =>
    show ((a.run input).bind b.run).value _ = (a.value f input).bind (b.value f)
    rw [bind_value, iha]
    exact congrArg _ (funext ihb)

end Workflow

/-! ## Steps -/

/-- The call and its response. -/
def Asking.exchange (c : Asking M) : (ℕ × M) × Except (AskError M) M := ((c.address, c.message), c.response)

namespace WorkflowTree

variable {s s' : WorkflowTree A M}

/-- **What a step is.** -/
inductive Turn (s : WorkflowTree A M) : WorkflowLabel A M → WorkflowTree A M → Prop
  | asks {address : ℕ} {message : M} {next : Except (AskError M) M → Fut M} {m : Member A M} {t : Tree A M}
      (hf : s.fut = .call (address, message) next) (hrx : s.rx = none) (hm : s.tree[address]? = some m)
      (ht : s.tree.step (.step address (.send (.ask message))) = some t) :
      Turn s .ask { s with tree := t, rx := some m.node.asks.length }
  | panics {address : ℕ} {message : M} {next : Except (AskError M) M → Fut M} {m : Member A M}
      (hf : s.fut = .call (address, message) next) (hrx : s.rx = none) (hm : s.tree[address]? = some m)
      (hc : m.node.mailbox.closed = true) : Turn s .ask { s with fut := .crash, panicked := some address }
  | answered {address : ℕ} {message : M} {next : Except (AskError M) M → Fut M} {m : Member A M} {k : ℕ}
      {response : Except (AskError M) M} (hf : s.fut = .call (address, message) next) (hrx : s.rx = some k)
      (hm : s.tree[address]? = some m) (hv : ActorRef.answer m.node k = some response) :
      Turn s .answer (s.resume next ⟨address, message, some k, response⟩)
  | other {l : TreeLabel A M} {t : Tree A M} (ht : s.tree.step l = some t) : Turn s (.other l) { s with tree := t }

/-- An ask of a closed mailbox panics: what comes back is not the `Envelope` that it unwraps. -/
theorem ask_cases {n n' : Node A M} {message : M} {c : Call (Except (AskError M) ℕ)}
    (h : ActorRef.ask n message = some (c, n')) :
    n.mailbox.closed = false ∧ c = .returns (.ok n.asks.length) ∨ n.mailbox.closed = true ∧ c = .panics := by
  unfold ActorRef.ask ActorRef.askWith mpscSend at h
  cases hc : n.mailbox.closed with
  | true =>
    simp only [hc, if_true, Option.map_some, Option.some.injEq] at h
    cases h
    exact .inr ⟨rfl, rfl⟩
  | false =>
    simp only [hc, Bool.false_eq_true, if_false, Option.map_map] at h
    obtain ⟨n'', -, h⟩ := Option.map_eq_some_iff.1 h
    cases h
    exact .inl ⟨rfl, rfl⟩

theorem turn {l : WorkflowLabel A M} (h : s.step l = some s') : Turn s l s' := by
  cases l with
  | ask =>
    simp only [step, ask] at h
    split at h
    · rename_i address message next hf hrx
      obtain ⟨m, hm, h⟩ := Option.bind_eq_some_iff.1 h
      obtain ⟨⟨c, n'⟩, hask, h⟩ := Option.bind_eq_some_iff.1 h
      rcases ask_cases hask with ⟨-, rfl⟩ | ⟨hc, rfl⟩
      · obtain ⟨t, ht, rfl⟩ := Option.map_eq_some_iff.1 h
        exact .asks hf hrx hm ht
      · cases h
        exact .panics hf hrx hm hc
    · cases h
  | answer =>
    simp only [step, answer] at h
    split at h
    · rename_i address message next k hf hrx
      obtain ⟨m, hm, h⟩ := Option.bind_eq_some_iff.1 h
      obtain ⟨response, hv, rfl⟩ := Option.map_eq_some_iff.1 h
      exact .answered hf hrx hm hv
    · cases h
  | other l =>
    obtain ⟨t, ht, rfl⟩ := Option.map_eq_some_iff.1 h
    exact .other ht

end WorkflowTree

/-! ## What stays -/

/-- What no step takes back. -/
structure Node.Grows (n n' : Node A M) : Prop where
  accepted : n.mailbox.accepted <+: n'.mailbox.accepted
  closed : n.mailbox.closed = true → n'.mailbox.closed = true
  failed : n.pc.stage = .failed → n'.pc.stage = .failed

theorem Node.Grows.refl (n : Node A M) : n.Grows n := ⟨List.prefix_rfl, id, id⟩

theorem Node.Grows.step {n₀ n n' : Node A M} {l : Label A M} (hg : n₀.Grows n) (h : n.step l = some n') : n₀.Grows n' := by
  refine ⟨hg.accepted.trans ?_, fun hc => ?_, fun hf => Node.failed_stays h (hg.failed hf)⟩
  · rcases Node.step_outside h with ⟨x, -, hx⟩ | ⟨ms, ho⟩
    · obtain ⟨ms, hac, -⟩ := Node.exec_accepted hx
      exact ⟨ms, hac.symm⟩
    · exact ⟨ms, ho.mailbox.accepted.symm⟩
  · have hc := hg.closed hc
    rcases Node.step_outside h with ⟨x, -, hx⟩ | ⟨ms, ho⟩
    · rcases Node.exec_mailbox hx with h | ⟨m, c, pc, hp, -, rfl⟩ | ⟨p, m, -, hpush⟩ | ⟨h, -⟩
      · rw [h, hc]
      · rw [← hc]
        exact (Chan.pop_cases hp).2.2.1
      · rw [(Chan.Grown.of_push hpush).closed, hc]
      · rw [h, Chan.close_closed]
    · rw [ho.mailbox.closed, hc]

namespace Tree

theorem grows {t t' : Tree A M} {l : TreeLabel A M} (h : t.step l = some t') {i : ℕ} {m : Member A M} (hm : t[i]? = some m) :
    ∃ m', t'[i]? = some m' ∧ m.node.Grows m'.node := by
  obtain ⟨m', hm', -, ls, hls⟩ := goes_on h hm
  exact ⟨m', hm', Lts.run_inv (I := fun n => m.node.Grows n) (fun _ _ _ hg h => hg.step h) (.refl _) hls⟩

theorem acting_step {t : Tree A M} {i : ℕ} {nl : Label A M} {x : ℕ × Member A M × Label A M}
    (h : t.acting (.step i nl) = some x) : x.2.2 = nl := by
  obtain ⟨j, m, nl'⟩ := x
  obtain ⟨-, -, ha⟩ := acting_cases h
  simp only [action] at ha
  split at ha <;> cases ha
  rfl

/-- A caller's send is no step of an object. -/
theorem objects_send (code : ℕ → Object A M) (start : ℕ → A) (t : Tree A M) (i : ℕ) (r : Request M) :
    Objects code start t (.step i (.send r)) := by
  refine ⟨fun d hd => (by cases hd), fun x hx => ?_⟩
  rw [acting_step hx]
  trivial

end Tree

/-! ## The calls of the task -/

namespace WorkflowTree

variable {code : ℕ → Object A M} {start : ℕ → A} {w : Workflow M} {input : M} {s s' : WorkflowTree A M}

/-- The asks that the mailboxes took from the task, with their actors. -/
def asks (s : WorkflowTree A M) : List (ℕ × Mail A M) :=
  (s.calls.filterMap fun c => c.k.map fun k => (c.address, ⟨none, .ask c.message k⟩)) ++
    match s.fut, s.rx with
    | .call (address, message) _, some k => [(address, ⟨none, .ask message k⟩)]
    | _, _ => []

/-- Those of actor `i`. -/
def sent (s : WorkflowTree A M) (i : ℕ) : List (Mail A M) := (s.asks.filter fun x => x.1 = i).map Prod.snd

/-- The calls so far, with their responses. -/
def exchanges (s : WorkflowTree A M) : List ((ℕ × M) × Except (AskError M) M) := s.calls.map Asking.exchange

/-- The response to `c` is the answer of the object `O` to it, behind the messages that the
mailbox of `n` accepted before it. -/
def Answered (O : Object A M) (a₀ : A) (n : Node A M) (c : Asking M) : Prop :=
  ∃ k ms rest, c.k = some k ∧ n.mailbox.accepted = ms ++ ⟨none, .ask c.message k⟩ :: rest ∧
    c.response = .ok (O.ask c.message (O.value a₀ ms)).2

/-- **What holds of a task that runs the workflow `w`** among actors that run objects. -/
structure Performs (code : ℕ → Object A M) (start : ℕ → A) (w : Workflow M) (input : M) (s : WorkflowTree A M) : Prop where
  /-- it has made the calls of the workflow, up to where it is, or up to an ask of an actor that
  had closed its mailbox; that ask has panicked -/
  path : s.panicked = none ∧ Path (w.run input) s.exchanges s.fut ∨
    ∃ i message next m, s.panicked = some i ∧ s.fut = .crash ∧ Path (w.run input) s.exchanges (.call (i, message) next) ∧
      s.tree[i]? = some m ∧ m.node.mailbox.closed = true
  /-- every mailbox has accepted its asks in the order of the calls -/
  inOrder : ∀ (i : ℕ) (m : Member A M), s.tree[i]? = some m → (s.sent i).Sublist m.node.mailbox.accepted
  /-- and a response is the answer of the object, unless the executor of the actor has panicked -/
  answered : ∀ c ∈ s.calls, ∃ m, s.tree[c.address]? = some m ∧
    (m.node.pc.stage = .failed ∨ Answered (code c.address) (start c.address) m.node c)

theorem Answered.grows {O : Object A M} {a₀ : A} {n n' : Node A M} {c : Asking M} (h : Answered O a₀ n c)
    (hg : n.Grows n') : Answered O a₀ n' c := by
  obtain ⟨k, ms, rest, hk, hms, hr⟩ := h
  obtain ⟨more, hmore⟩ := hg.accepted
  refine ⟨k, ms, rest ++ more, hk, ?_, hr⟩
  rw [← hmore, hms, List.append_assoc, List.cons_append]

/-- The future is at the ask `k` of actor `i`. -/
theorem asks_pending {i k : ℕ} {message : M} {next : Except (AskError M) M → Fut M} (hf : s.fut = .call (i, message) next)
    (hrx : s.rx = some k) :
    s.asks = (s.calls.filterMap fun c => c.k.map fun k => (c.address, ⟨none, .ask c.message k⟩)) ++
      [(i, ⟨none, .ask message k⟩)] := by
  unfold asks
  rw [hf, hrx]

theorem asks_idle (hrx : s.rx = none) :
    s.asks = s.calls.filterMap fun c => c.k.map fun k => (c.address, ⟨none, .ask c.message k⟩) := by
  unfold asks
  rw [hrx]
  cases s.fut <;> exact List.append_nil _

theorem sent_of_asks {x : List (ℕ × Mail A M)} (h : s.asks = x) (i : ℕ) : s.sent i = (x.filter fun y => y.1 = i).map Prod.snd := by
  rw [sent, h]

/-- What carries the run: the tree is one of objects, and the task asks actors that exist. -/
structure Working (code : ℕ → Object A M) (start : ℕ → A) (w : Workflow M) (input : M) (s : WorkflowTree A M) : Prop where
  performs : s.Performs code start w input
  tree : ∃ ls, Lts.Along Tree.step (Tree.Objects code start) [] ls ∧ Lts.run Tree.step [] ls = some s.tree
  known : ∀ x ∈ s.asks, ∃ m, s.tree[x.1]? = some m

theorem working_init : (init w input : WorkflowTree A M).Working code start w input := by
  refine ⟨⟨.inl ⟨rfl, .nil _⟩, ?_, ?_⟩, ⟨[], trivial, rfl⟩, ?_⟩
  · intro i m hm
    cases hm
  · intro c hc
    cases hc
  · intro x hx
    rw [asks_idle rfl] at hx
    cases hx

/-- The tree takes a step, in which the mailbox may take an ask of the task. -/
theorem Working.moved {t : Tree A M} {l : TreeLabel A M} (hs : s.Working code start w input)
    (hO : Tree.Objects code start s.tree l) (ht : s.tree.step l = some t) (hcalls : s'.calls = s.calls)
    (hfut : s'.fut = s.fut) (hp : s'.panicked = s.panicked) (htree : s'.tree = t)
    (hsent : ∀ i m', t[i]? = some m' → (s'.sent i).Sublist m'.node.mailbox.accepted)
    (hknown : ∀ x ∈ s'.asks, ∃ m, t[x.1]? = some m) : s'.Working code start w input := by
  subst htree
  have hex : s'.exchanges = s.exchanges := by rw [exchanges, hcalls, exchanges]
  refine ⟨⟨?_, hsent, ?_⟩, ?_, hknown⟩
  · rw [hex, hfut, hp]
    rcases hs.performs.path with h | ⟨i, message, next, m, h1, h2, h3, hm, hc⟩
    · exact .inl h
    · obtain ⟨m', hm', hg⟩ := Tree.grows ht hm
      exact .inr ⟨i, message, next, m', h1, h2, h3, hm', hg.closed hc⟩
  · intro c hc
    obtain ⟨m, hm, hans⟩ := hs.performs.answered c (hcalls ▸ hc)
    obtain ⟨m', hm', hg⟩ := Tree.grows ht hm
    exact ⟨m', hm', hans.imp hg.failed fun h => h.grows hg⟩
  · obtain ⟨ls, hal, hr⟩ := hs.tree
    exact ⟨ls ++ [l], hal.concat hr hO, Lts.run_concat hr ht⟩

/-- A step of the tree leaves what was sent. -/
theorem Working.kept {t : Tree A M} {l : TreeLabel A M} (hs : s.Working code start w input) (ht : s.tree.step l = some t)
    {i : ℕ} {m' : Member A M} (hm' : t[i]? = some m') : (s.sent i).Sublist m'.node.mailbox.accepted := by
  cases hm : s.tree[i]? with
  | some m =>
    obtain ⟨m₁, hm₁, hg⟩ := Tree.grows ht hm
    rw [hm'] at hm₁
    cases hm₁
    exact (hs.performs.inOrder i m hm).trans hg.accepted.sublist
  | none =>
    -- nothing was sent to an actor that is only started now
    have hnone : s.sent i = [] := by
      unfold sent
      rw [List.map_eq_nil_iff, List.filter_eq_nil_iff]
      intro x hx hi
      obtain ⟨m, hm'⟩ := hs.known x hx
      rw [of_decide_eq_true hi, hm] at hm'
      cases hm'
    rw [hnone]
    exact List.nil_sublist _

/-- An ask that a mailbox takes is the last message it has accepted. -/
theorem ask_accepted {t t' : Tree A M} {i : ℕ} {message : M} {m : Member A M} (hm : t[i]? = some m)
    (h : t.step (.step i (.send (.ask message))) = some t') :
    ∃ m', t'[i]? = some m' ∧ m'.node.mailbox.accepted = m.node.mailbox.accepted ++ [⟨none, .ask message m.node.asks.length⟩] := by
  obtain ⟨m₁, nl, n, hact, hm₁, hs, -, rfl⟩ := Tree.acted h rfl
  rw [hm] at hm₁
  cases hm₁
  have hnl : nl = .send (.ask message) := Tree.acting_step hact
  subst hnl
  obtain ⟨c, hc, rfl⟩ := Option.map_eq_some_iff.1 (show m.node.send (.ask message) = some n from hs)
  exact ⟨_, Cells.get_set (List.getElem?_eq_some_iff.1 hm).1, (Chan.Grown.of_push hc).accepted⟩

theorem Working.asks {address : ℕ} {message : M} {next : Except (AskError M) M → Fut M} {m : Member A M} {t : Tree A M}
    (hs : s.Working code start w input) (hf : s.fut = .call (address, message) next) (hrx : s.rx = none)
    (hm : s.tree[address]? = some m) (ht : s.tree.step (.step address (.send (.ask message))) = some t) :
    ({ s with tree := t, rx := some m.node.asks.length } : WorkflowTree A M).Working code start w input := by
  have hasks : ({ s with tree := t, rx := some m.node.asks.length } : WorkflowTree A M).asks =
      s.asks ++ [(address, ⟨none, .ask message m.node.asks.length⟩)] := by
    rw [asks_idle hrx]
    exact asks_pending hf rfl
  refine hs.moved (Tree.objects_send code start s.tree address (.ask message)) ht rfl rfl rfl rfl ?_ ?_
  · intro i m' hm'
    rw [sent_of_asks hasks, List.filter_append, List.map_append]
    by_cases hi : address = i
    · subst hi
      obtain ⟨m₁, hm₁, hac⟩ := ask_accepted hm ht
      rw [hm'] at hm₁
      cases hm₁
      rw [hac, List.filter_cons_of_pos (by simp)]
      exact (hs.performs.inOrder address m hm).append (List.Sublist.refl _)
    · rw [List.filter_cons_of_neg (by simpa using hi), List.filter_nil, List.map_nil, List.append_nil]
      exact hs.kept ht hm'
  · intro x hx
    rw [hasks] at hx
    have hold : ∃ m, s.tree[x.1]? = some m := by
      rcases List.mem_append.1 hx with hx | hx
      · exact hs.known x hx
      · rw [List.mem_singleton.1 hx]
        exact ⟨m, hm⟩
    obtain ⟨m₀, hm₀⟩ := hold
    obtain ⟨m₁, hm₁, -⟩ := Tree.grows ht hm₀
    exact ⟨m₁, hm₁⟩

/-- A future that is at a call has not panicked. -/
theorem Performs.running {q : ℕ × M} {next : Except (AskError M) M → Fut M} (hs : s.Performs code start w input)
    (hf : s.fut = .call q next) : s.panicked = none ∧ Path (w.run input) s.exchanges (.call q next) := by
  rcases hs.path with h | ⟨i, message, next', m, -, hcrash, -⟩
  · rw [← hf]
    exact h
  · rw [hf] at hcrash
    cases hcrash

theorem Working.panics {address : ℕ} {message : M} {next : Except (AskError M) M → Fut M} {m : Member A M}
    (hs : s.Working code start w input) (hf : s.fut = .call (address, message) next) (hrx : s.rx = none)
    (hm : s.tree[address]? = some m) (hc : m.node.mailbox.closed = true) :
    ({ s with fut := .crash, panicked := some address } : WorkflowTree A M).Working code start w input := by
  have hasks : ({ s with fut := .crash, panicked := some address } : WorkflowTree A M).asks = s.asks := by
    rw [asks_idle hrx]
    exact asks_idle hrx
  refine ⟨⟨?_, fun i m hm => ?_, hs.performs.answered⟩, hs.tree, fun x hx => hs.known x (hasks ▸ hx)⟩
  · exact .inr ⟨address, message, next, m, rfl, rfl, (hs.performs.running hf).2, hm, hc⟩
  · rw [sent_of_asks hasks]
    exact hs.performs.inOrder i m hm

/-- The ask that the future is at stands in the mailbox of its actor. -/
theorem Working.waits {i k : ℕ} {message : M} {next : Except (AskError M) M → Fut M} {m : Member A M}
    (hs : s.Working code start w input) (hf : s.fut = .call (i, message) next) (hrx : s.rx = some k)
    (hm : s.tree[i]? = some m) : (⟨none, .ask message k⟩ : Mail A M) ∈ m.node.mailbox.accepted := by
  refine (hs.performs.inOrder i m hm).subset ?_
  rw [sent_of_asks (asks_pending hf hrx)]
  refine List.mem_map.2 ⟨(i, ⟨none, .ask message k⟩), List.mem_filter.2 ⟨?_, by simp⟩, rfl⟩
  exact List.mem_append_right _ (List.mem_singleton_self _)

/-- The actor it asks is atomic. -/
theorem Working.atomic {i : ℕ} {m : Member A M} (hs : s.Working code start w input) (hm : s.tree[i]? = some m)
    (hup : m.node.pc.stage ≠ .failed) : Atomic (code i) (start i) m.node := by
  obtain ⟨ls, hO, hr⟩ := hs.tree
  obtain ⟨cfg, ls', hal, hr'⟩ := Tree.object_run hO hr hm
  exact Object.atomic_run hal hr' hup

theorem Working.answer {address : ℕ} {message : M} {next : Except (AskError M) M → Fut M} {m : Member A M} {k : ℕ}
    {response : Except (AskError M) M} (hs : s.Working code start w input) (hf : s.fut = .call (address, message) next)
    (hrx : s.rx = some k) (hm : s.tree[address]? = some m) (hv : ActorRef.answer m.node k = some response) :
    (s.resume next ⟨address, message, some k, response⟩).Working code start w input := by
  have hasks : (s.resume next ⟨address, message, some k, response⟩).asks = s.asks := by
    rw [asks_pending hf hrx]
    refine (asks_idle rfl).trans ?_
    show List.filterMap _ (s.calls ++ [_]) = _
    rw [List.filterMap_append]
    rfl
  obtain ⟨hp, hpath⟩ := hs.performs.running hf
  refine ⟨⟨.inl ⟨hp, ?_⟩, fun i m hm => ?_, ?_⟩, hs.tree, fun x hx => hs.known x (hasks ▸ hx)⟩
  · show Path _ (List.map _ (s.calls ++ [_])) (next response)
    rw [List.map_append]
    exact hpath.concat response
  · rw [sent_of_asks hasks]
    exact hs.performs.inOrder i m hm
  · intro c hc
    rcases List.mem_append.1 (show c ∈ s.calls ++ [_] from hc) with hc | hc
    · exact hs.performs.answered c hc
    · rw [List.mem_singleton.1 hc]
      refine ⟨m, hm, ?_⟩
      by_cases hup : m.node.pc.stage = .failed
      · exact .inl hup
      · -- the object has answered it at its place
        right
        obtain ⟨ms, rest, hms⟩ := List.append_of_mem (hs.waits hf hrx hm)
        rcases (hs.atomic hm hup).answered ms _ rest k hms rfl rfl with ⟨-, hnone⟩ | ⟨v, hO, hfinal⟩
        · rw [hnone] at hv
          cases hv
        · have hsome := hfinal [] m.node (Lts.run_nil _)
          rw [hv] at hsome
          cases hsome
          cases hO
          exact ⟨k, ms, rest, rfl, hms, rfl⟩

/-- The actors run their objects. -/
def Objects (code : ℕ → Object A M) (start : ℕ → A) (s : WorkflowTree A M) : WorkflowLabel A M → Prop
  | .other l => Tree.Objects code start s.tree l
  | .ask | .answer => True

instance [DecidableEq A] [DecidableEq M] (code : ℕ → Object A M) (start : ℕ → A) (s : WorkflowTree A M) :
    ∀ l, Decidable (s.Objects code start l)
  | .other l => inferInstanceAs (Decidable (Tree.Objects code start s.tree l))
  | .ask | .answer => inferInstanceAs (Decidable True)

theorem working_step {l : WorkflowLabel A M} (hs : s.Working code start w input) (hO : s.Objects code start l)
    (h : s.step l = some s') : s'.Working code start w input := by
  cases turn h with
  | asks hf hrx hm ht => exact hs.asks hf hrx hm ht
  | panics hf hrx hm hc => exact hs.panics hf hrx hm hc
  | answered hf hrx hm hv => exact hs.answer hf hrx hm hv
  | other ht =>
    refine hs.moved hO ht rfl rfl rfl rfl (fun i m' hm' => hs.kept ht hm') fun x hx => ?_
    obtain ⟨m, hm⟩ := hs.known x hx
    obtain ⟨m', hm', -⟩ := Tree.grows ht hm
    exact ⟨m', hm'⟩

theorem working_run {ls : List (WorkflowLabel A M)} (hO : Lts.Along step (Objects code start) (init w input) ls)
    (hr : Lts.run step (init w input) ls = some s) : s.Working code start w input :=
  Lts.run_along (fun _ _ _ hs hO h => working_step hs hO h) working_init hO hr

end WorkflowTree

section

variable {code : ℕ → Object A M} {start : ℕ → A} {w : Workflow M} {input : M} {s : WorkflowTree A M}
  {ls : List (WorkflowLabel A M)}

/-- **A workflow performs its calls**, in every run of its task and of actors that run objects,
with anybody else in between. What it has returned is what it takes from the responses. -/
theorem workflow_performs (hO : Lts.Along WorkflowTree.step (WorkflowTree.Objects code start) (.init w input) ls)
    (hr : Lts.run WorkflowTree.step (.init w input) ls = some s) :
    s.Performs code start w input ∧ ∀ v, s.fut = .done v → w.Takes input s.exchanges v := by
  have hp := (WorkflowTree.working_run hO hr).performs
  refine ⟨hp, fun v hv => w.takes_iff.1 ?_⟩
  rcases hp.path with ⟨-, h⟩ | ⟨i, message, next, m, -, hcrash, -⟩
  · rw [← hv]
    exact h
  · rw [hcrash] at hv
    cases hv

/-- The task asks `AddOnce`, which answers `v`. -/
def addOnceTurn (v : AddOnce.Number) : List (WorkflowLabel Unit AddOnce.Number) :=
  [.ask, .other (.step 0 (.exec .recv)), .other (.step 0 (.exec .go)), .other (.step 0 (.exec .go)),
    .other (.step 0 (.exec (.ret ()))), .other (.step 0 (.exec (.reply () v))), .other (.step 0 (.exec (.ret ()))), .answer]

/-- The workflow of the test, on `Number::I32(-1)`. -/
def addOnceRun : List (WorkflowLabel Unit AddOnce.Number) :=
  [.other (.run ⟨4, 1, false, []⟩ ()), .other (.step 0 (.exec (.ret ())))] ++ addOnceTurn (.i64 (-1)) ++
    addOnceTurn (.i128 (-1)) ++ addOnceTurn (.u32 4294967295) ++ addOnceTurn (.u64 4294967295)

theorem workflow_performs_addOnceRun :
    ∃ s : WorkflowTree Unit AddOnce.Number,
      Lts.run WorkflowTree.step (.init (AddOnce.workflow 0) (.i32 (-1))) addOnceRun = some s ∧
      s.Performs (fun _ => AddOnce.addOnce) (fun _ => ()) (AddOnce.workflow 0) (.i32 (-1)) ∧
      (AddOnce.workflow 0).Takes (.i32 (-1)) s.exchanges (.u64 4294967295) := by
  have hr : ∃ s : WorkflowTree Unit AddOnce.Number,
      Lts.run WorkflowTree.step (.init (AddOnce.workflow 0) (.i32 (-1))) addOnceRun = some s ∧
      s.fut = .done (.u64 4294967295) := ⟨_, rfl, rfl⟩
  obtain ⟨s, hr, hfut⟩ := hr
  have hO : Lts.Along WorkflowTree.step (WorkflowTree.Objects (fun _ => AddOnce.addOnce) fun _ => ())
      (.init (AddOnce.workflow 0) (.i32 (-1))) addOnceRun := by decide
  have h := workflow_performs hO hr
  exact ⟨s, hr, h.1, h.2 _ hfut⟩

/-- **A workflow computes**, in every such run. Where the answer of actor `i` to `m` is `f i m`
whatever came before, what is left of the future always makes the value of the workflow. -/
theorem workflow_computes {f : ℕ → M → M} (hf : ∀ i m a, ((code i).ask m a).2 = f i m)
    (hO : Lts.Along WorkflowTree.step (WorkflowTree.Objects code start) (.init w input) ls)
    (hr : Lts.run WorkflowTree.step (.init w input) ls = some s) (hup : ∀ m ∈ s.tree, m.node.pc.stage ≠ .failed)
    (hp : s.panicked = none) : s.fut.value (fun q => .ok (f q.1 q.2)) = w.value f input := by
  have hs := (WorkflowTree.working_run hO hr).performs
  have hpath : Path (w.run input) s.exchanges s.fut := by
    rcases hs.path with ⟨-, h⟩ | ⟨i, message, next, m, hsome, -⟩
    · exact h
    · rw [hp] at hsome
      cases hsome
  rw [← w.run_value]
  refine (hpath.value fun e he => ?_).symm
  obtain ⟨c, hc, rfl⟩ := List.mem_map.1 he
  obtain ⟨m, hm, hfail | ⟨k, ms, rest, -, -, hresp⟩⟩ := hs.answered c hc
  · exact absurd hfail (hup m (List.mem_of_getElem? hm))
  · show c.response = .ok (f c.address c.message)
    rw [hresp, hf]

theorem workflow_computes_addOnceRun :
    ∃ s : WorkflowTree Unit AddOnce.Number,
      Lts.run WorkflowTree.step (.init (AddOnce.workflow 0) (.i32 (-1))) addOnceRun = some s ∧
      s.fut = .done (.u64 4294967295) ∧
      s.fut.value (fun q => .ok (AddOnce.handle q.2)) = (AddOnce.workflow 0).value (fun _ => AddOnce.handle) (.i32 (-1)) := by
  have hr : ∃ s : WorkflowTree Unit AddOnce.Number,
      Lts.run WorkflowTree.step (.init (AddOnce.workflow 0) (.i32 (-1))) addOnceRun = some s ∧
      s.fut = .done (.u64 4294967295) ∧ (∀ m ∈ s.tree, m.node.pc.stage ≠ .failed) ∧ s.panicked = none :=
    ⟨_, rfl, rfl, by decide, rfl⟩
  obtain ⟨s, hr, hfut, hup, hp⟩ := hr
  have hO : Lts.Along WorkflowTree.step (WorkflowTree.Objects (fun _ => AddOnce.addOnce) fun _ => ())
      (.init (AddOnce.workflow 0) (.i32 (-1))) addOnceRun := by decide
  exact ⟨s, hr, hfut, workflow_computes (fun _ _ _ => rfl) hO hr hup hp⟩

end

/-! ## At rest -/

namespace Tree

variable {t : Tree A M} {i : ℕ} {m : Member A M}

theorem orderly_send (t : Tree A M) (i : ℕ) (r : Request M) : Orderly t (.step i (.send r)) := by
  refine ⟨fun d hd => (by cases hd), fun x hx => ?_⟩
  rw [acting_step hx]
  exact ⟨rfl, rfl⟩

/-- An actor of a quiet tree that is over has closed its mailbox; the others wait for messages. -/
theorem Ordered.door (ho : Ordered t) (hq : t.Quiet) (hm : t[i]? = some m) : m.node.mailbox.closed = true ∨ m.node.Waits := by
  refine (hq i m hm).imp (fun hover => ?_) And.left
  obtain ⟨h, hl⟩ := (ho.sound.doors i m hm).life.resolve_left (ho.sound.upright i m hm)
  refine hl.closed (.inr ?_)
  cases hold : m.node.pc <;> rw [hold] at hover <;> first | rfl | cases hover

/-- Nothing is ahead of it. -/
theorem Ordered.ahead (ho : Ordered t) (hq : t.Quiet) (hm : t[i]? = some m) : m.node.ahead = [] := by
  rcases hq i m hm with hover | ⟨⟨hpc, hqueue, -⟩, -⟩
  · refine ended_ahead (ho.sound.doors i m hm).life ?_
    cases hold : m.node.pc <;> rw [hold] at hover <;> first | rfl | cases hover
  · unfold Node.ahead
    rcases hpc with hpc | hpc <;> rw [hpc, hqueue] <;> rfl

end Tree

namespace WorkflowTree

variable {code : ℕ → Object A M} {start : ℕ → A} {w : Workflow M} {input : M} {s s' : WorkflowTree A M}

/-- The actors run their objects, and start nothing but children. -/
def Orderly (code : ℕ → Object A M) (start : ℕ → A) (s : WorkflowTree A M) (l : WorkflowLabel A M) : Prop :=
  s.Objects code start l ∧
    match l with
    | .other l => Tree.Orderly s.tree l
    | .ask | .answer => True

instance [DecidableEq A] [DecidableEq M] (code : ℕ → Object A M) (start : ℕ → A) (s : WorkflowTree A M) :
    ∀ l, Decidable (s.Orderly code start l)
  | .other l => inferInstanceAs (Decidable (_ ∧ Tree.Orderly s.tree l))
  | .ask | .answer => inferInstanceAs (Decidable (_ ∧ True))

theorem ordered_step {l : WorkflowLabel A M} (ho : s.tree.Ordered) (hO : s.Orderly code start l) (h : s.step l = some s') :
    s'.tree.Ordered := by
  cases turn h with
  | asks hf hrx hm ht => exact Tree.ordered_step ho (Tree.orderly_send s.tree _ _) ht
  | panics | answered => exact ho
  | other ht => exact Tree.ordered_step ho hO.2 ht

theorem ordered_run {ls : List (WorkflowLabel A M)} (hO : Lts.Along step (Orderly code start) (init w input) ls)
    (hr : Lts.run step (init w input) ls = some s) : s.tree.Ordered :=
  Lts.run_along (I := fun s : WorkflowTree A M => s.tree.Ordered) (fun _ _ _ ho hO h => ordered_step ho hO h)
    Tree.ordered_nil hO hr

/-- An ask that its actor has answered is at its end. -/
theorem answer_can {i k : ℕ} {message : M} {next : Except (AskError M) M → Fut M} {m : Member A M} {v : M}
    (hf : s.fut = .call (i, message) next) (hrx : s.rx = some k) (hm : s.tree[i]? = some m)
    (hv : ActorRef.answer m.node k = some (.ok v)) : (s.step .answer).isSome = true := by
  simp [step, answer, hf, hrx, hm, hv]

/-- The future can ask an actor that waits for messages, or has closed its mailbox. -/
theorem ask_can {i : ℕ} {message : M} {next : Except (AskError M) M → Fut M} {m : Member A M}
    (hf : s.fut = .call (i, message) next) (hrx : s.rx = none) (hm : s.tree[i]? = some m)
    (h : m.node.mailbox.closed = true ∨ m.node.Waits ∧ 0 < m.node.mailbox.cap) : (s.step .ask).isSome = true := by
  rcases h with hc | ⟨⟨-, hq, hc⟩, hroom⟩
  · simp [step, ask, hf, hrx, hm, ActorRef.ask, ActorRef.askWith, mpscSend, hc, Call.unwrap, SendMessage.downcastEnvelope]
  · have hsend : (m.node.send (.ask message)).isSome = true := by
      simp [Node.send, Chan.push, hq, hc, hroom]
    have htree : (s.tree.step (.step i (.send (.ask message)))).isSome = true := Tree.step_can hm rfl hsend
    obtain ⟨n, hn⟩ := Option.isSome_iff_exists.1 hsend
    obtain ⟨t, ht⟩ := Option.isSome_iff_exists.1 htree
    simp [step, ask, hf, hrx, hm, ActorRef.ask, ActorRef.askWith, mpscSend, hc, hn, ht]

end WorkflowTree

/-- **A workflow ends.** Whatever has happened before: when neither the actors nor the task can go
on by themselves, the workflow has returned or panicked, unless it asks an actor that was never
started. -/
theorem workflow_ends {code : ℕ → Object A M} {start : ℕ → A} {w : Workflow M} {input : M} {s : WorkflowTree A M}
    {ls : List (WorkflowLabel A M)} (hO : Lts.Along WorkflowTree.step (WorkflowTree.Orderly code start) (.init w input) ls)
    (hr : Lts.run WorkflowTree.step (.init w input) ls = some s) (hrest : s.tree.AtRest) (hask : s.step .ask = none)
    (hanswer : s.step .answer = none) :
    (∃ v, s.fut = .done v) ∨ s.fut = .crash ∨ ∃ i message next, s.fut = .call (i, message) next ∧ s.tree[i]? = none := by
  have hs : s.Working code start w input := WorkflowTree.working_run (hO.mono fun _ _ h => h.1) hr
  have ho := WorkflowTree.ordered_run hO hr
  have hq := ho.quiet hrest
  cases hf : s.fut with
  | done v => exact .inl ⟨v, rfl⟩
  | crash => exact .inr (.inl rfl)
  | call q next =>
    obtain ⟨i, message⟩ := q
    cases hm : s.tree[i]? with
    | none => exact .inr (.inr ⟨i, message, next, rfl, hm⟩)
    | some m =>
      exfalso
      cases hrx : s.rx with
      | none =>
        have hcan := WorkflowTree.ask_can hf hrx hm ((ho.door hq hm).imp_right fun h => ⟨h, (ho.staffed i m hm).room⟩)
        rw [hask] at hcan
        cases hcan
      | some k =>
        -- nothing is ahead, so the ask was answered
        obtain ⟨ms, rest, hms⟩ := List.append_of_mem (hs.waits hf hrx hm)
        rcases (hs.atomic hm (ho.sound.upright i m hm)).answered ms _ rest k hms rfl rfl with ⟨hahead, -⟩ | ⟨v, -, hfinal⟩
        · rw [ho.ahead hq hm] at hahead
          cases hahead
        · have hcan := WorkflowTree.answer_can hf hrx hm (hfinal [] m.node (Lts.run_nil _))
          rw [hanswer] at hcan
          cases hcan

/-- The workflow, and then somebody stops the actor. -/
def addOnceStopRun : List (WorkflowLabel Unit AddOnce.Number) :=
  addOnceRun ++ ([.send (.await true), .exec .recv, .exec .go, .exec .go, .exec (.ret ()), .exec .go, .exec (.ret ()),
    .exec (.ret ()), .exec .go, .exec (.ret ()), .exec .go, .exec .none, .exec (.ret ()), .exec .go].map fun l => .other (.step 0 l))

theorem workflow_ends_addOnceStopRun :
    ∃ s : WorkflowTree Unit AddOnce.Number,
      Lts.run WorkflowTree.step (.init (AddOnce.workflow 0) (.i32 (-1))) addOnceStopRun = some s ∧ s.tree.AtRest ∧
      ((∃ v, s.fut = .done v) ∨ s.fut = .crash ∨
        ∃ i message next, s.fut = .call (i, message) next ∧ s.tree[i]? = none) := by
  have hr : ∃ s : WorkflowTree Unit AddOnce.Number,
      Lts.run WorkflowTree.step (.init (AddOnce.workflow 0) (.i32 (-1))) addOnceStopRun = some s ∧ s.tree.work = 0 ∧
      s.step .ask = none ∧ s.step .answer = none := ⟨_, rfl, rfl, rfl, rfl⟩
  obtain ⟨s, hr, hw, hask, hanswer⟩ := hr
  have hO : Lts.Along WorkflowTree.step (WorkflowTree.Orderly (fun _ => AddOnce.addOnce) fun _ => ())
      (.init (AddOnce.workflow 0) (.i32 (-1))) addOnceStopRun := by decide
  have hrest := (WorkflowTree.ordered_run hO hr).atRest hw
  exact ⟨s, hr, hrest, workflow_ends hO hr hrest hask hanswer⟩

end Tokactor
