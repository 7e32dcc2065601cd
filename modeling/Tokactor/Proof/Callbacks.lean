import Tokactor.Proof.Flow

/-!
# What the callbacks do to the actor

* `serves_rule`: a step of the executor, by what it does to the actor, the callbacks
  called and the asks.
* `Behaviour`: what the user's code can do, as a relation between actors.
* `Behaviour.Left`: the actor that a list of callbacks leaves.
-/

namespace Tokactor

variable {A M : Type}

/-- The callback that is running, or whose future is awaited. -/
def Pc.opened : Pc A M → List (Event A M)
  | .onStart => [.onStart]
  | .preRun _ _ => [.preRun]
  | .handle _ m | .future _ m _ | .cancelling _ m => [.handle m]
  | .postRun _ => [.postRun]
  | .onStopping => [.onStopping]
  | .onStopped => [.onStopped]
  | .onEnd => [.onEnd]
  | _ => []

/-- What is noted when the callback `e` has left the actor as `a`. -/
def Event.closing (a : A) : Event A M → List (Event A M)
  | .onEnd => [.ended a]
  | _ => []

/-- The callback is a handler without an answer, or a hook. -/
def Event.plain : Event A M → Bool
  | .handle m => m.body.isUser && m.body.asker.isNone
  | _ => true

/-- The future of this message is awaited. -/
def Pc.polled : Pc A M → Bool
  | .future _ _ _ | .cancelling _ _ => true
  | _ => false

namespace Node

/-- A step of the executor: what it does to the actor, the trace and the asks. -/
inductive Serves (n : Node A M) (x : Act A M) (n' : Node A M) : Prop
  | fails (c : Cause) (h : n' = n.unwind c)
  | uses (o : CtxOp) (ho : n.allows o) (h : n' = n.ctxOp o)
  | silent (hpc : n.pc.opened = []) (hp : n'.pc.polled = false) (hactor : n'.actor = n.actor)
      (htrace : n'.trace = n.trace ++ n'.pc.opened) (hasks : n'.asks = n.asks)
  | returns (e : Event A M) (a : A) (hx : x = .ret a) (hpc : n.pc.opened = [e]) (he : e.plain = true)
      (hp : n'.pc.polled = false) (hactor : n'.actor = a)
      (htrace : n'.trace = n.trace ++ e.closing a ++ n'.pc.opened) (hasks : n'.asks = n.asks)
  | internal (p : Phase) (m : Mail A M) (hpc : n.pc = .handle p m) (hb : m.body.isUser = false)
      (hpc' : n'.pc = .postRun p) (hactor : n'.actor = n.actor) (htrace : n'.trace = n.trace ++ [.postRun])
      (hasks : n'.asks = n.asks)
  | unpolled (p : Phase) (m : Mail A M) (a : A) (q : M) (k : ℕ) (hx : x = .ret a) (hpc : n.pc = .handle p m)
      (hb : m.body = .asyncAsk q k .blocking) (h : n' = (({ n with actor := a }).answer k .dropped).handled p)
  | polled (p : Phase) (m : Mail A M) (a : A) (q : M) (k : ℕ) (hx : x = .ret a) (hpc : n.pc = .handle p m)
      (hb : m.body = .asyncAsk q k .nonBlocking) (h : n' = { n with actor := a, pc := .future p m n.shutdown })
  | replied (p : Phase) (m : Mail A M) (a : A) (v : M) (k : ℕ) (hx : x = .reply a v)
      (hpc : n.pc = .handle p m ∧ (∃ q, m.body = .ask q k) ∨
        ∃ seen q s, n.pc = .future p m seen ∧ m.body = .asyncAsk q k s)
      (h : n' = (({ n with actor := a }).answer k (.replied v)).handled p)
  | task (p : Phase) (m : Mail A M) (a : A) (q : M) (k j : ℕ) (hx : x = .task a j) (hpc : n.pc = .handle p m)
      (hb : m.body = .ask q k) (h : n' = (({ n with actor := a }).replyTask k j).handled p)
  | changed (p : Phase) (m : Mail A M) (seen : Bool) (hpc : n.pc = .future p m seen) (hs : n.shutdown ≠ seen)
  | cancelled (p : Phase) (m : Mail A M) (hpc : n.pc = .cancelling p m)

theorem ctxOp_serves {n : Node A M} {x : Act A M} (o : CtxOp) : Serves n x (n.ctxOp o) := by
  by_cases ho : n.allows o
  · exact .uses o ho rfl
  · cases o with
    | spawn id =>
      have hs : n.state ≠ .running := ho
      simp only [ctxOp, if_neg hs]
      exact .fails .callback rfl
    | _ => exact absurd trivial ho

theorem callback_serves {n n' : Node A M} {x : Act A M} {k : Node A M → Node A M}
    (hk : ∀ a, x = .ret a → Serves n x (k { n with actor := a })) (h : n.callback x k = some n') :
    Serves n x n' := by
  cases x <;> simp only [callback, Option.some.injEq, reduceCtorEq] at h <;> subst h
  case op o => exact ctxOp_serves o
  case ret a => exact hk a rfl
  case panic => exact .fails .callback rfl

theorem mainLoop_serves {n : Node A M} {x : Act A M} {e : Event A M} {a : A} (hx : x = .ret a)
    (hpc : n.pc.opened = [e]) (he : e.plain = true) (hc : e.closing a = []) :
    Serves n x ({ n with actor := a }).mainLoop := by
  refine .returns e a hx hpc he ?_ rfl ?_ rfl <;> unfold mainLoop <;> cases n.cfg.supervised <;>
    simp [Pc.polled, Pc.opened, hc]

theorem receive_serves {n n' : Node A M} {x : Act A M} {k : Mail A M → Node A M → Node A M}
    {e : Node A M → Node A M} (hk : ∀ m c, Serves n x (k m { n with mailbox := c })) (he : Serves n x (e n))
    (h : n.receive x k e = some n') : Serves n x n' := by
  unfold receive at h
  split at h
  · simp only [Option.map_eq_some_iff] at h
    obtain ⟨⟨m, c⟩, hp, rfl⟩ := h
    exact hk m c
  · split at h
    · cases h; exact he
    · cases h
  · cases h

theorem handled_serves {n n₁ : Node A M} {x : Act A M} {p : Phase} {m : Mail A M} (hpc : n.pc = .handle p m)
    (hb : m.body.isUser = false) (hactor : n₁.actor = n.actor) (htrace : n₁.trace = n.trace)
    (hasks : n₁.asks = n.asks) : Serves n x (n₁.handled p) :=
  .internal p m hpc hb rfl hactor (by simp [handled, call, htrace]) hasks

theorem deliver_serves {n n' : Node A M} {p : Phase} {m : Mail A M} {x : Act A M} (hpc : n.pc = .handle p m)
    (h : n.deliver p m x = some n') : Serves n x n' := by
  have hopen : n.pc.opened = [.handle m] := by rw [hpc]; rfl
  -- a handler without an answer
  have plain : ∀ b, m.body = b → b.isUser = true → b.asker = none → ∀ a, x = .ret a →
      Serves n x (({ n with actor := a }).handled p) := by
    intro b hb hu hn a hx
    refine .returns (.handle m) a hx hopen ?_ rfl rfl ?_ rfl
    · simp [Event.plain, hb, hu, hn]
    · simp [handled, call, Event.closing, Pc.opened]
  unfold deliver at h
  split at h
  · rename_i u hb
    exact callback_serves (plain _ hb rfl rfl) h
  · rename_i r hb
    exact callback_serves (plain _ hb rfl rfl) h
  · rename_i q k hb
    split at h
    · cases h; exact .replied p m _ _ k rfl (.inl ⟨hpc, q, hb⟩) rfl
    · cases h; exact .task p m _ q k _ rfl hpc hb rfl
    · cases h; exact ctxOp_serves _
    · cases h; exact .fails .callback rfl
    · cases h
  · rename_i q k s hb
    refine callback_serves (fun a hx => ?_) h
    cases s with
    | nonBlocking => exact .polled p m a q k hx hpc hb rfl
    | blocking => exact .unpolled p m a q k hx hpc hb rfl
  · rename_i stopNow w hb
    split at h
    · cases h
      obtain ⟨st, heq, -⟩ := subscribe_eq n stopNow w
      rw [heq]
      exact handled_serves hpc (by rw [hb]; rfl) rfl rfl rfl
    · cases h
  · rename_i c hb
    split at h
    · cases h; exact handled_serves hpc (by rw [hb]; rfl) rfl rfl rfl
    · cases h

theorem handleSupervisedMessage_serves {n n' : Node A M} {x : Act A M} (hopen : n.pc.opened = [])
    (h : n.handleSupervisedMessage x = some n') : Serves n x n' := by
  unfold handleSupervisedMessage at h
  split at h
  · cases h; exact .silent hopen rfl rfl rfl rfl
  · cases h; exact .fails .supervisor rfl
  · exact receive_serves (fun m c => .silent hopen rfl rfl (by simp [Pc.opened]) rfl)
      (.silent hopen rfl rfl rfl rfl) h

theorem resolve_serves {n n' : Node A M} {x : Act A M} {p : Phase} {m : Mail A M} {seen : Bool}
    (hpc : n.pc = .future p m seen) (h : n.resolve p m seen x = some n') : Serves n x n' := by
  unfold resolve at h
  split at h
  · rename_i hb
    cases h; exact .replied p m _ _ _ rfl (.inr ⟨seen, _, _, hpc, hb⟩) rfl
  · split at h
    · cases h
    · rename_i hs
      exact .changed p m seen hpc hs
  · cases h; exact .fails .callback rfl
  · cases h

theorem processed_serves {n : Node A M} {x : Act A M} {p : Phase} {a : A} (hx : x = .ret a)
    (hopen : n.pc.opened = [.postRun]) : Serves n x (({ n with actor := a }).processed p) := by
  cases p with
  | main =>
    simp only [processed]
    split
    · exact mainLoop_serves hx hopen rfl rfl
    · exact .returns .postRun a hx hopen rfl rfl rfl (by simp [shutdownStart, call, Event.closing, Pc.opened]) rfl
  | stopping | stopped =>
    exact .returns .postRun a hx hopen rfl rfl rfl (by simp [processed, Event.closing, Pc.opened]) rfl

theorem stoppingLoop_serves {n n' : Node A M} {x : Act A M} (hopen : n.pc.opened = [])
    (h : n.stoppingLoop x = some n') : Serves n x n' := by
  unfold stoppingLoop at h
  split at h
  · split at h
    · cases h; exact .fails .timeout rfl
    · cases h; exact .silent hopen rfl rfl (by simp [Pc.opened]) rfl
  · exact receive_serves (fun m c => .silent hopen rfl rfl (by simp [Pc.opened]) rfl)
      (.silent hopen rfl rfl (by simp [Pc.opened]) rfl) h

theorem drainStep_serves {n n' : Node A M} {x : Act A M} (hopen : n.pc.opened = [])
    (h : n.drainStep x = some n') : Serves n x n' := by
  unfold drainStep at h
  split at h
  · simp only [Option.map_eq_some_iff] at h
    obtain ⟨⟨m, c⟩, hp, rfl⟩ := h
    exact .silent hopen rfl rfl (by simp [Pc.opened]) rfl
  · split at h
    · cases h; exact .silent hopen rfl rfl rfl rfl
    · cases h
  · cases h

/-- **Every step of the executor is one of the rules of `Serves`.** -/
theorem serves_rule {n n' : Node A M} {x : Act A M} (h : n.exec x = some n') : Serves n x n' := by
  unfold exec at h
  cases hpc : n.pc <;> simp only [hpc, reduceCtorEq] at h <;> have hopen := congrArg Pc.opened hpc
  case onStart => exact callback_serves (fun a hx => mainLoop_serves hx hopen rfl rfl) h
  case recv =>
    exact receive_serves (fun m c => .silent hopen rfl rfl (by simp [Pc.opened]) rfl) (.silent hopen rfl rfl rfl rfl) h
  case check hand =>
    split at h
    · cases h
      refine .silent hopen ?_ ?_ ?_ ?_ <;> unfold checkStep <;> split <;>
        cases hand <;> simp [passCheck, Pc.polled, Pc.opened]
    · cases h
  case acquire hand k rest =>
    split at h
    · split at h
      · cases h
        refine .silent hopen ?_ ?_ ?_ ?_ <;> cases hand <;> simp [passCheck, Pc.polled, Pc.opened]
      · cases h
    · cases h
  case select => exact handleSupervisedMessage_serves hopen h
  case process p m =>
    split at h
    · cases h; exact .silent hopen rfl rfl rfl rfl
    · cases h
  case preRun p m =>
    refine callback_serves (fun a hx => ?_) h
    exact .returns .preRun a hx hopen rfl rfl rfl (by simp [call, Event.closing, Pc.opened]) rfl
  case handle p m => exact deliver_serves hpc h
  case future p m seen => exact resolve_serves hpc h
  case cancelling p m => exact .cancelled p m hpc
  case postRun p => exact callback_serves (fun a hx => processed_serves hx hopen) h
  case onStopping =>
    refine callback_serves (fun a hx => ?_) h
    exact .returns .onStopping a hx hopen rfl rfl rfl (by simp [Event.closing, Pc.opened]) rfl
  case isClosed =>
    split at h
    · cases h
      split
      · exact .silent hopen rfl rfl rfl rfl
      · exact .silent hopen rfl rfl (by simp [Pc.opened]) rfl
    · cases h
  case notify =>
    split at h
    · cases h; exact .silent hopen rfl rfl (by simp [Pc.opened]) rfl
    · cases h
  case wait => exact stoppingLoop_serves hopen h
  case recheck =>
    split at h
    · cases h
      split
      · exact .silent hopen rfl rfl rfl rfl
      · exact .silent hopen rfl rfl (by simp [Pc.opened]) rfl
    · cases h
  case onStopped =>
    refine callback_serves (fun a hx => ?_) h
    exact .returns .onStopped a hx hopen rfl rfl rfl (by simp [Event.closing, Pc.opened]) rfl
  case assertClosed =>
    split at h
    · cases h
      split
      · exact .silent hopen rfl rfl (by simp [Pc.opened]) rfl
      · exact .fails .assertion rfl
    · cases h
  case drain => exact drainStep_serves hopen h
  case onEnd =>
    refine callback_serves (fun a hx => ?_) h
    exact .returns .onEnd a hx hopen rfl rfl rfl (by simp [call, Event.closing, Pc.opened]) rfl
  case returned =>
    split at h
    · cases h
      refine .silent hopen ?_ ?_ ?_ ?_ <;> unfold finish <;> (repeat' split) <;>
        simp [Pc.polled, Pc.opened]
    · cases h

end Node

/-! ## What user code does -/

/-- The user's part of an actor, as relations. `call e a a'`: the callback `e` on the actor
`a` returns without an answer and leaves `a'` (a handler of an ask returned
`AskResult::Task`, one of an async ask its future). `reply m a a' v`: the handler of the
ask `m`, or the future of the async ask `m`, yields `v` and leaves `a'`. -/
structure Behaviour (A M : Type) where
  call : Event A M → A → A → Prop
  reply : Mail A M → A → A → M → Prop

namespace Behaviour

variable (B : Behaviour A M)

/-- The step is one that the user's code can do. -/
def Follows (n : Node A M) : Label A M → Prop
  | .exec (.ret a) | .exec (.task a _) => ∀ e ∈ n.pc.opened, B.call e n.actor a
  | .exec (.reply a v) => ∀ m ∈ n.pc.hand, B.reply m n.actor a v
  | _ => True

/-- The handler of `m` on the actor `a` answers `v` and leaves `a'`. -/
def Answers (m : Mail A M) (a a' : A) (v : M) : Prop :=
  match m.body with
  | .ask _ _ => B.reply m a a' v
  | .asyncAsk _ _ _ => ∃ a₁, B.call (.handle m) a a₁ ∧ B.reply m a₁ a' v
  | _ => False

/-- The callback `e` on the actor `a` leaves `a'`. The handlers of an await request and of
`AnonymousTaskCancelled` do not touch the actor. -/
def Does : Event A M → A → A → Prop
  | .handle m, a, a' =>
    match m.body with
    | .await _ _ | .cancelled _ => a' = a
    | .asyncAsk _ _ .nonBlocking => ∃ v, B.Answers m a a' v
    | .ask _ _ => B.call (.handle m) a a' ∨ ∃ v, B.Answers m a a' v
    | _ => B.call (.handle m) a a'
  | .ended _, a, a' => a' = a
  | e, a, a' => B.call e a a'

/-- The actor that the callbacks `tr`, one after the other, leave of `a₀`. -/
inductive Left (a₀ : A) : List (Event A M) → A → Prop
  | nil : Left a₀ [] a₀
  | concat (tr : List (Event A M)) (e : Event A M) (a a' : A) (h : Left a₀ tr a) (he : B.Does e a a') :
      Left a₀ (tr ++ [e]) a'

variable {B}

/-- A handler without an answer, or a hook. -/
theorem does_plain {e : Event A M} {a a' : A} (he : e.plain = true) (hno : ∀ b, e ≠ .ended b)
    (h : B.call e a a') : B.Does e a a' := by
  cases e with
  | handle m =>
    simp only [Does]
    cases hb : m.body <;> simp [Event.plain, hb, Body.isUser, Body.asker] at he ⊢ <;> exact h
  | ended b => exact absurd rfl (hno b)
  | _ => exact h

theorem Left.closing {a₀ a : A} {tr : List (Event A M)} (h : B.Left a₀ tr a) (e : Event A M) :
    B.Left a₀ (tr ++ e.closing a) a := by
  cases e with
  | onEnd => exact .concat tr _ a a h rfl
  | _ => simpa [Event.closing] using h

theorem opened_running {n : Node A M} {e : Event A M} (h : n.pc.opened = [e]) : ∀ b, e ≠ .ended b := by
  rintro b rfl
  cases hpc : n.pc <;> rw [hpc] at h <;> simp [Pc.opened] at h

end Behaviour

end Tokactor
