import Tokactor.Model.Process
import Tokactor.Proof.Accept

/-!
# What a scheduler changes

* `processMessage_run`: `process_message` under either scheduler is a run of the executor.
* `schedulers_agree`: both schedulers leave the same actor, the same answer and the same
  `ExecutorLoop`, if and only if no future of an `AsyncAsk` is made, or both panic.
-/

namespace Tokactor

variable {A M : Type}

/-- What comes of a message: the actor, what its asker has, and how the loop goes on. -/
inductive Effect (A M : Type)
  | returned (a : A) (reply : Option (Reply M)) (event : ExecutorLoop)
  | panicked (reply : Option (Reply M))
  | pending (reply : Option (Reply M))

/-- What the asker of `m` has. -/
def Node.replyTo (n : Node A M) (m : Mail A M) : Option (Reply M) := m.body.asker.bind fun k => n.asks[k]?

/-- The actor is gone after a panic, and the message with it. -/
def effect (m : Mail A M) : Except (Stuck A M) (Node A M × ExecutorLoop) → Effect A M
  | .ok (n, event) => .returned n.actor (n.replyTo m) event
  | .error (.panicked n) => .panicked ((n.pc.hand.elim n n.dropMail).replyTo m)
  | .error (.pending n) => .pending (n.replyTo m)

namespace ActorCode

variable {c : ActorCode A M}

/-- Both schedulers make the same of the message `m`. -/
def Agrees (c : ActorCode A M) (n : Node A M) (p : Phase) (m : Mail A M) : Prop :=
  effect m (c.processMessage .blocking n p m) = effect m (c.processMessage .nonBlocking n p m)

/-- `process_message` up to the return of `send`. -/
def sent (c : ActorCode A M) (n : Node A M) (p : Phase) (m : Mail A M) : Except (Stuck A M) (Node A M × Resolve M) := do
  let (n, _) ← call c.preRun (n.call (.preRun p m) .preRun)
  c.send (n.call (.handle p m) (.handle m)) m.body

/-- `process_message` from `post_run` on. -/
def finished (c : ActorCode A M) (n : Node A M) (p : Phase) : Except (Stuck A M) (Node A M × ExecutorLoop) := do
  let (n, _) ← call c.postRun (n.handled p)
  return (n, if n.state = .running then .continue_ else .break_)

/-- Every future that `send` returns panics, and so does `post_run` without it. -/
def Futile (c : ActorCode A M) (n : Node A M) (p : Phase) (m : Mail A M) : Prop :=
  ∀ n' q k, c.sent n p m = .ok (n', .future q k) →
    c.future q n'.actor = .panicked ∧ ∃ e, c.finished (n'.answer k .dropped) p = .error e

/-! ## Callbacks -/

theorem call_rule {R : Type} (f : Node A M → Usage A R) (n : Node A M) :
    (∃ n', call f n = .error (.panicked n') ∧ Node.Performs n (f n) (.error n')) ∨
      ∃ n' x, call f n = .ok (n', x) ∧ Node.Performs n (f n) (.ok (n', x)) := by
  have h := Node.perform_rule n fun _ _ => f n
  unfold call
  split
  · rename_i n' hn
    rw [hn] at h
    exact .inl ⟨n', rfl, h⟩
  · rename_i r hn
    rw [hn] at h
    exact .inr ⟨r.1, r.2, rfl, h⟩

theorem call_ok {R : Type} {f : Node A M → Usage A R} {n n' : Node A M} {x : R} (h : call f n = .ok (n', x)) :
    Node.Performs n (f n) (.ok (n', x)) := by
  rcases call_rule f n with ⟨n₁, h₁, -⟩ | ⟨n₁, x₁, h₁, hp⟩ <;> rw [h] at h₁ <;> cases h₁
  exact hp

theorem bind_ok {ε α β : Type} {x : Except ε α} {f : α → Except ε β} {b : β} :
    x.bind f = .ok b ↔ ∃ a, x = .ok a ∧ f a = .ok b := by
  cases x <;> simp [Except.bind]

theorem bind_error {ε α β : Type} {x : Except ε α} {f : α → Except ε β} {e : ε} :
    x.bind f = .error e ↔ x = .error e ∨ ∃ a, x = .ok a ∧ f a = .error e := by
  cases x <;> simp [Except.bind]

/-! ## One message -/

theorem processMessage_eq (s : Scheduler) (n : Node A M) (p : Phase) (m : Mail A M) :
    c.processMessage s n p m =
      (c.sent n p m).bind fun r => (c.schedule (m.body.scheduler s) r.1 r.2).bind fun n => c.finished n p := by
  unfold processMessage sent finished
  cases call c.preRun (n.call (.preRun p m) .preRun) <;> rfl

/-- A future is what `send` makes of an `AsyncResponse`. -/
theorem send_future {n n' : Node A M} {b : Body A M} {q : M} {k : ℕ} (h : c.send n b = .ok (n', .future q k)) :
    (∃ s, b = .asyncAsk q k s) ∧ call (c.asyncAsk q) n = .ok (n', ()) := by
  cases b with
  | asyncAsk q' k' s =>
    obtain ⟨⟨n₁, u⟩, hcall, hret⟩ := bind_ok.1 h
    cases hret
    exact ⟨⟨s, rfl⟩, hcall⟩
  | user q' | dead r | ask q' k' =>
    obtain ⟨r, -, hret⟩ := bind_ok.1 h
    cases hret
  | await stopNow w | cancelled x => cases h

theorem sent_future {n n' : Node A M} {p : Phase} {m : Mail A M} {q : M} {k : ℕ}
    (h : c.sent n p m = .ok (n', .future q k)) :
    (∃ s, m.body = .asyncAsk q k s) ∧ n'.pc = .handle p m ∧ n'.asks = n.asks := by
  obtain ⟨⟨n₁, u⟩, hpre, hsend⟩ := bind_ok.1 h
  obtain ⟨hb, hcall⟩ := send_future hsend
  obtain ⟨-, -, hasks₁⟩ := (call_ok hpre).kept (.inr ⟨u, rfl⟩)
  obtain ⟨-, hpc, hasks⟩ := (call_ok hcall).kept (.inr ⟨(), rfl⟩)
  exact ⟨hb, hpc, hasks.trans hasks₁⟩

/-- `post_run` leaves the answer as it is. -/
theorem finished_effect (n : Node A M) (p : Phase) (m : Mail A M) :
    (∃ n' ev, c.finished n p = .ok (n', ev) ∧ effect m (c.finished n p) = .returned n'.actor (n.replyTo m) ev) ∨
      (∃ e, c.finished n p = .error e) ∧ effect m (c.finished n p) = .panicked (n.replyTo m) := by
  unfold finished
  rcases call_rule c.postRun (n.handled p) with ⟨n₁, h₁, hp⟩ | ⟨n₁, u, h₁, hp⟩
  · right
    obtain ⟨-, hpc, hasks⟩ := hp.kept (.inl rfl)
    rw [h₁]
    refine ⟨⟨_, rfl⟩, ?_⟩
    have hhand : n₁.pc.hand = none := by rw [hpc]; rfl
    show Effect.panicked _ = Effect.panicked _
    rw [hhand, Option.elim_none, Node.replyTo, hasks]
    rfl
  · left
    obtain ⟨-, -, hasks⟩ := hp.kept (.inr ⟨u, rfl⟩)
    rw [h₁]
    refine ⟨n₁, _, rfl, ?_⟩
    show Effect.returned _ _ _ = Effect.returned _ _ _
    rw [show n₁.replyTo m = n.replyTo m by rw [Node.replyTo, hasks]; rfl]

/-- A future that is awaited yields, panics or never ends. -/
theorem await_cases (c : ActorCode A M) (n : Node A M) (q : M) (k : ℕ) :
    (∃ a v, c.future q n.actor = .ready a v ∧
        c.await n (.future q k) = .ok (Node.answer { n with actor := a } k (.replied v))) ∨
      c.future q n.actor = .panicked ∧ c.await n (.future q k) = .error (.panicked n) ∨
      c.future q n.actor = .pending ∧ c.await n (.future q k) = .error (.pending n) := by
  simp only [await]
  cases c.future q n.actor with
  | ready a v => exact .inl ⟨a, v, rfl, rfl⟩
  | panicked => exact .inr (.inl ⟨rfl, rfl⟩)
  | pending => exact .inr (.inr ⟨rfl, rfl⟩)

/-! ## `process_message` as a run of the executor -/

/-- What comes of a part of `process_message` shows in a run of the executor from `n₀`. -/
structure Runs {α : Type} (n₀ : Node A M) (out : Except (Stuck A M) α) (f : α → Node A M) : Prop where
  ok : ∀ x, out = .ok x → ∃ xs, Lts.run Node.exec n₀ xs = some (f x)
  panicked : ∀ n, out = .error (.panicked n) → ∃ xs, Lts.run Node.exec n₀ xs = some (n.unwind .callback)
  pending : ∀ n, out = .error (.pending n) →
    ∃ xs p m seen, Lts.run Node.exec n₀ xs = some { n with pc := .future p m seen }

theorem Runs.pure {α : Type} {n₀ : Node A M} {f : α → Node A M} {x : α} (xs : List (Act A M))
    (h : Lts.run Node.exec n₀ xs = some (f x)) : Runs n₀ (.ok x) f :=
  ⟨fun y hy => (by cases hy; exact ⟨xs, h⟩), fun n hn => (by cases hn), fun n hn => (by cases hn)⟩

/-- One part after the other. -/
theorem Runs.bind {α β : Type} {n₀ : Node A M} {out : Except (Stuck A M) α} {f : α → Node A M}
    {g : α → Except (Stuck A M) β} {h : β → Node A M} (hf : Runs n₀ out f) (hg : ∀ x, out = .ok x → Runs (f x) (g x) h) :
    Runs n₀ (out.bind g) h := by
  constructor
  · intro y hy
    obtain ⟨x, hx, hgx⟩ := bind_ok.1 hy
    obtain ⟨xs, hxs⟩ := hf.ok x hx
    obtain ⟨ys, hys⟩ := (hg x hx).ok y hgx
    exact ⟨xs ++ ys, Lts.run_append.2 ⟨_, hxs, hys⟩⟩
  · intro n hn
    rcases bind_error.1 hn with hx | ⟨x, hx, hgx⟩
    · exact hf.panicked n hx
    · obtain ⟨xs, hxs⟩ := hf.ok x hx
      obtain ⟨ys, hys⟩ := (hg x hx).panicked n hgx
      exact ⟨xs ++ ys, Lts.run_append.2 ⟨_, hxs, hys⟩⟩
  · intro n hn
    rcases bind_error.1 hn with hx | ⟨x, hx, hgx⟩
    · exact hf.pending n hx
    · obtain ⟨xs, hxs⟩ := hf.ok x hx
      obtain ⟨ys, p, m, seen, hys⟩ := (hg x hx).pending n hgx
      exact ⟨xs ++ ys, p, m, seen, Lts.run_append.2 ⟨_, hxs, hys⟩⟩

/-- A callback runs, and the executor goes on from its return. -/
theorem call_runs {R : Type} {u : Node A M → Usage A R} {n : Node A M} {f : Node A M × R → Node A M}
    (hu : n.pc.user = true)
    (hret : ∀ (n₁ : Node A M) a x, n₁.pc = n.pc → ∃ y, n₁.exec y = some (f ({ n₁ with actor := a }, x))) :
    Runs n (call u n) f := by
  rcases call_rule u n with ⟨n', hcall, hp⟩ | ⟨n', x, hcall, hp⟩
  · rw [hcall]
    refine ⟨fun y hy => (by cases hy), fun n₁ hn => ?_, fun n₁ hn => (by cases hn)⟩
    cases hn
    exact (hp.run hu).1 n' rfl
  · rw [hcall]
    obtain ⟨n₁, a, hrun, hpc, rfl⟩ := (hp.run hu).2 n' x rfl
    obtain ⟨y, hy⟩ := hret n₁ a x hpc
    exact .pure _ (Lts.run_concat hrun hy)

theorem foldl_dropMail_pc (ms : List (Mail A M)) (n : Node A M) (pc : Pc A M) :
    ms.foldl Node.dropMail { n with pc := pc } = { ms.foldl Node.dropMail n with pc := pc } := by
  induction ms generalizing n with
  | nil => rfl
  | cons m ms ih =>
    have hone : Node.dropMail { n with pc := pc } m = { n.dropMail m with pc := pc } := by
      unfold Node.dropMail
      cases m.body <;> rfl
    rw [List.foldl_cons, List.foldl_cons, hone, ih]

/-- A panic in the future is one in the handler. -/
theorem unwind_hand {n : Node A M} (pc : Pc A M) (h : pc.hand = n.pc.hand) (x : Cause) :
    Node.unwind { n with pc := pc } x = n.unwind x := by
  unfold Node.unwind
  simp only [h, foldl_dropMail_pc]

theorem await_runs {n : Node A M} {p : Phase} {m : Mail A M} {q : M} {k : ℕ} {s : Scheduler}
    (hb : m.body = .asyncAsk q k s) (hpc : n.pc = .handle p m) :
    Runs { n with pc := .future p m n.shutdown } (c.await n (.future q k)) (Node.handled · p) := by
  rcases await_cases c n q k with ⟨a, v, -, hwait⟩ | ⟨-, hwait⟩ | ⟨-, hwait⟩ <;> rw [hwait]
  · refine .pure [.reply a v] ?_
    simp only [Lts.run, Node.exec, Node.resolve, hb]
    rfl
  · refine ⟨fun y hy => (by cases hy), fun n₁ hn => ?_, fun n₁ hn => (by cases hn)⟩
    cases hn
    refine ⟨[.panic], ?_⟩
    rw [← unwind_hand (.future p m n.shutdown) (by rw [hpc]; rfl)]
    simp only [Lts.run, Node.exec, Node.resolve]
    rfl
  · refine ⟨fun y hy => (by cases hy), fun n₁ hn => (by cases hn), fun n₁ hn => ?_⟩
    cases hn
    exact ⟨[], p, m, n.shutdown, rfl⟩

/-- `send` and what the scheduler does with its `Resolve`. -/
theorem send_runs {n : Node A M} {p : Phase} {m : Mail A M} {s : Scheduler} (hpc : n.pc = .handle p m)
    (hs : ∀ q k s', m.body = .asyncAsk q k s' → s' = s) :
    Runs n ((c.send n m.body).bind fun r => c.schedule (m.body.scheduler s) r.1 r.2) (Node.handled · p) := by
  have hready : ∀ s n₁, c.schedule s n₁ .ready = .ok n₁ := fun s n₁ => by cases s <;> rfl
  have huser : m.body.isUser = true → n.pc.user = true := fun h => by rw [hpc]; exact h
  -- a handler without an answer is a call, and then `post_run`
  have hplain : ∀ u : Node A M → Usage A Unit, m.body.isUser = true →
      (∀ (n₁ : Node A M) a, n₁.pc = n.pc → n₁.exec (.ret a) = some (Node.handled { n₁ with actor := a } p)) →
      Runs n ((call u n).bind fun r => .ok r.1) (Node.handled · p) := by
    intro u hu hret
    refine .bind (call_runs (f := fun r => r.1.handled p) (huser hu) fun n₁ a x h => ⟨.ret a, hret n₁ a h⟩) ?_
    exact fun r _ => .pure [] rfl
  cases hb : m.body with
  | user q =>
    have hsend : ((c.send n (.user q)).bind fun r => c.schedule ((Body.user q : Body A M).scheduler s) r.1 r.2) =
        (call (c.handle q) n).bind fun r => .ok r.1 := by
      simp only [send]
      cases call (c.handle q) n <;> simp [Bind.bind, Except.bind, Pure.pure, Except.pure, hready]
    rw [hsend]
    refine hplain _ (by rw [hb]; rfl) fun n₁ a h => ?_
    simp only [Node.exec, h, hpc, Node.deliver, hb, Node.callback]
  | dead d =>
    have hsend : ((c.send n (.dead d)).bind fun r => c.schedule ((Body.dead d : Body A M).scheduler s) r.1 r.2) =
        (call (c.dead d) n).bind fun r => .ok r.1 := by
      simp only [send]
      cases call (c.dead d) n <;> simp [Bind.bind, Except.bind, Pure.pure, Except.pure, hready]
    rw [hsend]
    refine hplain _ (by rw [hb]; rfl) fun n₁ a h => ?_
    simp only [Node.exec, h, hpc, Node.deliver, hb, Node.callback]
  | ask q k =>
    have hsend : ((c.send n (.ask q k)).bind fun r => c.schedule ((Body.ask q k : Body A M).scheduler s) r.1 r.2) =
        (call (c.ask q) n).bind fun r => .ok (r.1.answerWith k r.2) := by
      simp only [send]
      cases call (c.ask q) n <;> simp [Bind.bind, Except.bind, Pure.pure, Except.pure, hready]
    rw [hsend]
    refine .bind (call_runs (f := fun r => (r.1.answerWith k r.2).handled p) (huser (by rw [hb]; rfl)) ?_)
      fun r _ => .pure [] rfl
    intro n₁ a x h
    cases x with
    | reply v => exact ⟨.reply a v, by simp only [Node.exec, h, hpc, Node.deliver, hb, Node.answerWith]⟩
    | task j => exact ⟨.task a j, by simp only [Node.exec, h, hpc, Node.deliver, hb, Node.answerWith]⟩
  | asyncAsk q k s' =>
    obtain rfl := hs q k s' hb
    have hsend : ((c.send n (.asyncAsk q k s')).bind fun r =>
        c.schedule ((Body.asyncAsk q k s' : Body A M).scheduler s') r.1 r.2) =
        (call (c.asyncAsk q) n).bind fun r => c.schedule s' r.1 (.future q k) := by
      simp only [send]
      cases call (c.asyncAsk q) n <;> rfl
    rw [hsend]
    cases s' with
    | blocking =>
      -- nobody polls the future
      refine .bind (call_runs (f := fun r => (r.1.answer k .dropped).handled p) (huser (by rw [hb]; rfl)) ?_)
        fun r _ => .pure [] rfl
      exact fun n₁ a x h => ⟨.ret a, by simp only [Node.exec, h, hpc, Node.deliver, hb, Node.callback]⟩
    | nonBlocking =>
      refine .bind (call_runs (f := fun r => { r.1 with pc := .future p m r.1.shutdown }) (huser (by rw [hb]; rfl)) ?_) ?_
      · exact fun n₁ a x h => ⟨.ret a, by simp only [Node.exec, h, hpc, Node.deliver, hb, Node.callback]⟩
      · intro r hr
        obtain ⟨-, hpc', -⟩ := (call_ok hr).kept (.inr ⟨r.2, rfl⟩)
        exact await_runs hb (hpc'.trans hpc)
  | await stopNow w =>
    refine .pure [.go] ?_
    simp only [Lts.run, Node.exec, hpc, Node.deliver, hb]
    rfl
  | cancelled x =>
    refine .pure [.go] ?_
    simp only [Lts.run, Node.exec, hpc, Node.deliver, hb]
    rfl

/-- **`process_message` is a run of the executor**, under the scheduler that the message carries. -/
theorem exec_processMessage (c : ActorCode A M) (s : Scheduler) (n : Node A M) (p : Phase) (m : Mail A M)
    (hs : ∀ q k s', m.body = .asyncAsk q k s' → s' = s) :
    Runs { n with pc := .process p m } (c.processMessage s n p m) (fun r => r.1.processed p) := by
  have hsplit : c.processMessage s n p m = (call c.preRun (n.call (.preRun p m) .preRun)).bind fun r =>
      ((c.send (r.1.call (.handle p m) (.handle m)) m.body).bind fun r =>
        c.schedule (m.body.scheduler s) r.1 r.2).bind fun n => c.finished n p := by
    unfold processMessage finished
    cases call c.preRun (n.call (.preRun p m) .preRun) with
    | error e => rfl
    | ok r => cases h : c.send (r.1.call (.handle p m) (.handle m)) m.body <;> simp [Bind.bind, Except.bind, h]
  have hstart : Runs { n with pc := .process p m } (.ok ()) (fun _ => n.call (.preRun p m) .preRun) := .pure [.go] rfl
  have hpre : Runs (n.call (.preRun p m) .preRun) (call c.preRun (n.call (.preRun p m) .preRun))
      (fun r => r.1.call (.handle p m) (.handle m)) := by
    refine call_runs rfl fun n₁ a x h => ⟨.ret a, ?_⟩
    have hpc : n₁.pc = .preRun p m := h
    simp only [Node.exec, hpc, Node.callback]
  have hpost : ∀ n₁ : Node A M, Runs (n₁.handled p) (c.finished n₁ p) (fun r => r.1.processed p) := by
    intro n₁
    refine .bind (call_runs (f := fun r => r.1.processed p) rfl fun n₂ a x h => ⟨.ret a, ?_⟩) fun r _ => .pure [] rfl
    have hpc : n₂.pc = .postRun p := h
    simp only [Node.exec, hpc, Node.callback]
  rw [hsplit]
  have hrest := hpre.bind fun r _ => (send_runs (c := c) (n := r.1.call (.handle p m) (.handle m)) rfl hs).bind
    fun n₁ _ => hpost n₁
  exact hstart.bind fun _ _ => hrest

/-! ## The two schedulers -/

/-- Where `send` returns no future there is nothing to schedule. -/
theorem agrees_of_ready {n : Node A M} {p : Phase} {m : Mail A M}
    (h : ∀ n' q k, c.sent n p m ≠ .ok (n', .future q k)) : c.Agrees n p m := by
  unfold Agrees
  rw [processMessage_eq, processMessage_eq]
  cases hs : c.sent n p m with
  | error e => rfl
  | ok r =>
    obtain ⟨n', r⟩ := r
    cases r with
    | future q k => exact absurd hs (h n' q k)
    | ready =>
      have hboth : ∀ s, c.schedule s n' .ready = .ok n' := fun s => by cases s <;> rfl
      simp only [Except.bind, hboth]

theorem replyTo_answer {n : Node A M} {m : Mail A M} {q : M} {k : ℕ} {s : Scheduler} (hb : m.body = .asyncAsk q k s)
    (hk : k < n.asks.length) (r : Reply M) : (n.answer k r).replyTo m = some r := by
  simp [Node.replyTo, hb, Body.asker, Node.answer, hk]

/-- What becomes of a future, under both schedulers. -/
theorem agrees_of_future {n n' : Node A M} {p : Phase} {m : Mail A M} {q : M} {k : ℕ}
    (hs : c.sent n p m = .ok (n', .future q k)) (hk : k < n.asks.length) :
    c.Agrees n p m ↔ c.future q n'.actor = .panicked ∧ ∃ e, c.finished (n'.answer k .dropped) p = .error e := by
  obtain ⟨⟨s, hb⟩, hpc, hasks⟩ := sent_future hs
  have hk' : k < n'.asks.length := by rw [hasks]; exact hk
  have hblocking : c.processMessage .blocking n p m = c.finished (n'.answer k .dropped) p := by
    rw [processMessage_eq, hs, hb]
    rfl
  have hawait : c.processMessage .nonBlocking n p m = (c.await n' (.future q k)).bind fun n => c.finished n p := by
    rw [processMessage_eq, hs, hb]
    rfl
  have hdropped : (n'.answer k .dropped).replyTo m = some .dropped := replyTo_answer hb hk' _
  unfold Agrees
  rw [hblocking, hawait]
  rcases await_cases c n' q k with ⟨a, v, hf, hwait⟩ | ⟨hf, hwait⟩ | ⟨hf, hwait⟩ <;> rw [hwait, hf, Except.bind]
  · have hreplied : (Node.answer { n' with actor := a } k (.replied v)).replyTo m = some (.replied v) :=
      replyTo_answer hb hk' _
    -- the answer is there, or it is not
    refine iff_of_false (fun h => ?_) (fun h => by cases h.1)
    rcases finished_effect (c := c) (n'.answer k .dropped) p m with ⟨n₁, ev₁, -, h₁⟩ | ⟨-, h₁⟩ <;>
      rcases finished_effect (c := c) (Node.answer { n' with actor := a } k (.replied v)) p m with
        ⟨n₂, ev₂, -, h₂⟩ | ⟨-, h₂⟩ <;>
      rw [h₁, h₂, hdropped, hreplied] at h <;> simp at h
  · have hhand : effect m (Except.error (.panicked n')) = .panicked (some .dropped) := by
      show Effect.panicked _ = Effect.panicked _
      rw [hpc]
      simp only [Pc.hand, Option.elim_some, Node.dropMail, hb]
      rw [hdropped]
    rw [hhand]
    rcases finished_effect (c := c) (n'.answer k .dropped) p m with ⟨n₁, ev₁, hok, h₁⟩ | ⟨herr, h₁⟩
    · rw [h₁]
      refine iff_of_false (fun h => by cases h) (fun ⟨_, e, he⟩ => ?_)
      rw [hok] at he
      cases he
    · rw [h₁, hdropped]
      exact iff_of_true rfl ⟨rfl, herr⟩
  · refine iff_of_false (fun h => ?_) (fun h => by cases h.1)
    rcases finished_effect (c := c) (n'.answer k .dropped) p m with ⟨n₁, ev₁, -, h₁⟩ | ⟨-, h₁⟩ <;>
      rw [h₁] at h <;> cases h

/-- **The scheduler changes only where a message runs**: both leave the same actor and the same
answer, and come back with the same `ExecutorLoop`, if and only if `send` returns no future,
or that future panics and `post_run` does so without it. -/
theorem schedulers_agree (c : ActorCode A M) (n : Node A M) (p : Phase) (m : Mail A M)
    (hk : ∀ k, m.body.asker = some k → k < n.asks.length) : c.Agrees n p m ↔ c.Futile n p m := by
  constructor
  · intro h n' q k hs
    obtain ⟨⟨s, hb⟩, -, -⟩ := sent_future hs
    exact (agrees_of_future hs (hk k (by rw [hb]; rfl))).1 h
  · intro h
    by_cases hmade : ∃ n' q k, c.sent n p m = .ok (n', .future q k)
    · obtain ⟨n', q, k, hs⟩ := hmade
      obtain ⟨⟨s, hb⟩, -, -⟩ := sent_future hs
      exact (agrees_of_future hs (hk k (by rw [hb]; rfl))).2 (h n' q k hs)
    · exact agrees_of_ready fun n' q k hs => hmade ⟨n', q, k, hs⟩

/-- An actor that counts: its future adds one to the actor and answers with what was there. -/
def adding : ActorCode ℕ ℕ where
  preRun n := ⟨[], some (n.actor, ())⟩
  handle _ n := ⟨[], some (n.actor + 1, ())⟩
  dead _ n := ⟨[], some (n.actor, ())⟩
  ask q n := ⟨[], some (n.actor + 1, .reply (q + n.actor))⟩
  asyncAsk _ n := ⟨[], some (n.actor, ())⟩
  future q a := .ready (a + q) a
  postRun n := ⟨[], some (n.actor, ())⟩

/-- The actor with one asker. -/
def asked : Node ℕ ℕ := (Node.init ⟨4, 1, false, []⟩ 5).newAsk

theorem schedulers_agree_ask :
    effect ⟨none, .ask 3 0⟩ (adding.processMessage .blocking asked .main ⟨none, .ask 3 0⟩) =
        .returned 6 (some (.replied 8)) .continue_ ∧
      adding.Agrees asked .main ⟨none, .ask 3 0⟩ := by
  refine ⟨rfl, (schedulers_agree adding asked .main ⟨none, .ask 3 0⟩ ?_).2 ?_⟩
  · intro k hk
    cases hk
    decide
  · intro n' q k hs
    obtain ⟨⟨s, hb⟩, -⟩ := sent_future hs
    cases hb

/-- **`Blocking` drops the future of an `AsyncAsk`**: the actor is left as it was, and its
caller gets no answer. -/
theorem blocking_drops :
    effect ⟨none, .asyncAsk 3 0 .blocking⟩ (adding.processMessage .blocking asked .main ⟨none, .asyncAsk 3 0 .blocking⟩) =
        .returned 5 (some .dropped) .continue_ ∧
      effect ⟨none, .asyncAsk 3 0 .blocking⟩
          (adding.processMessage .nonBlocking asked .main ⟨none, .asyncAsk 3 0 .blocking⟩) =
        .returned 8 (some (.replied 5)) .continue_ ∧
      ¬ adding.Agrees asked .main ⟨none, .asyncAsk 3 0 .blocking⟩ := by
  have hblocking : effect ⟨none, .asyncAsk 3 0 .blocking⟩
      (adding.processMessage .blocking asked .main ⟨none, .asyncAsk 3 0 .blocking⟩) =
        .returned 5 (some .dropped) .continue_ := rfl
  have hawaits : effect ⟨none, .asyncAsk 3 0 .blocking⟩
      (adding.processMessage .nonBlocking asked .main ⟨none, .asyncAsk 3 0 .blocking⟩) =
        .returned 8 (some (.replied 5)) .continue_ := rfl
  refine ⟨hblocking, hawaits, fun h => ?_⟩
  unfold Agrees at h
  rw [hblocking, hawaits] at h
  simp at h

end ActorCode

end Tokactor
