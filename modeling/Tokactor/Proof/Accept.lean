import Tokactor.Lib.Lts
import Tokactor.Model.Accept
import Tokactor.Proof.Step

/-!
# The accept path of a router

* `processMessage_run`: `process_message` for a router is a run of the executor.
* `accept_agrees`: the two paths agree for a router whose hooks do nothing, which replies at
  once and goes on running.
* `ordinary_iff`: they agree in general only as long as no connection is accepted.
-/

namespace Tokactor

variable {A M : Type} {r : RouterAct A M}

namespace Node

/-! ## A callback -/

theorem refuses_iff {n : Node A M} {o : CtxOp} : n.refuses o = false ↔ n.allows o := by
  cases o <;> simp [refuses, allows]

/-- The use of the context is noted nowhere, and answers nobody. -/
theorem useCtx_kept {n : Node A M} (os : List CtxOp) :
    (reached (n.useCtx os)).trace = n.trace ∧ (reached (n.useCtx os)).pc = n.pc ∧
      (reached (n.useCtx os)).asks = n.asks := by
  induction os generalizing n with
  | nil => exact ⟨rfl, rfl, rfl⟩
  | cons o os ih =>
    rw [useCtx]
    split
    · exact ⟨rfl, rfl, rfl⟩
    · rename_i ho
      have hk := ctxOp_kept (refuses_iff.1 (by simpa using ho))
      obtain ⟨htrace, hpc, hasks⟩ := ih (n := n.ctxOp o)
      exact ⟨htrace.trans hk.trace, hpc.trans hk.pc, hasks.trans hk.asks⟩

/-- What comes back from a callback: a panic in the middle of it, or its return. -/
inductive Performs {R : Type} (n : Node A M) (u : Usage A R) : Except (Node A M) (Node A M × R) → Prop
  | refused (n' : Node A M) (h : n.useCtx u.ops = .error n') : Performs n u (.error n')
  | panics (n' : Node A M) (h : n.useCtx u.ops = .ok n') (hu : u.result = none) : Performs n u (.error n')
  | returns (n' : Node A M) (a : A) (x : R) (h : n.useCtx u.ops = .ok n') (hu : u.result = some (a, x)) :
      Performs n u (.ok ({ n' with actor := a }, x))

theorem perform_rule {R : Type} (n : Node A M) (f : A → ActorState → Usage A R) :
    Performs n (f n.actor n.state) (n.perform f) := by
  unfold perform
  split
  · rename_i n' h
    exact .refused n' h
  · rename_i n' h
    split
    · rename_i hu
      exact .panics n' h hu
    · rename_i a x hu
      exact .returns n' a x h hu

/-- A callback that uses the context as it may and returns. -/
theorem perform_returns {R : Type} {n n' : Node A M} {f : A → ActorState → Usage A R} {a : A} {x : R}
    (h : n.useCtx (f n.actor n.state).ops = .ok n') (hres : (f n.actor n.state).result = some (a, x)) :
    n.perform f = .ok ({ n' with actor := a }, x) := by
  simp only [perform, h, hres]

/-- However it ends, a callback leaves these alone. -/
theorem Performs.kept {R : Type} {n n' : Node A M} {u : Usage A R} {out : Except (Node A M) (Node A M × R)}
    (h : Performs n u out) (ho : out = .error n' ∨ ∃ x, out = .ok (n', x)) :
    n'.trace = n.trace ∧ n'.pc = n.pc ∧ n'.asks = n.asks := by
  have hkept := useCtx_kept (n := n) u.ops
  cases h with
  | refused n₁ h | panics n₁ h hu =>
    rw [h] at hkept
    rcases ho with ho | ⟨x, ho⟩ <;> cases ho
    exact hkept
  | returns n₁ a x h hu =>
    rw [h] at hkept
    rcases ho with ho | ⟨y, ho⟩ <;> cases ho
    exact hkept

theorem Performs.trace {R : Type} {n n' : Node A M} {u : Usage A R} {out : Except (Node A M) (Node A M × R)}
    (h : Performs n u out) (ho : out = .error n' ∨ ∃ x, out = .ok (n', x)) : n'.trace = n.trace := (h.kept ho).1

/-! ## The path of an ordinary actor -/

/-- How `process_message` gets through the callbacks, or where it panics. -/
inductive Processes (r : RouterAct A M) (n : Node A M) (q : M) (k : ℕ) : Except (Node A M) (Node A M) → Prop
  | preRun (n₁ : Node A M)
      (h₁ : Performs (n.call (.preRun .main ⟨none, .ask q k⟩) .preRun) (r.preRun n.actor n.state) (.error n₁)) :
      Processes r n q k (.error n₁)
  | handle (n₁ n₂ : Node A M)
      (h₁ : Performs (n.call (.preRun .main ⟨none, .ask q k⟩) .preRun) (r.preRun n.actor n.state) (.ok (n₁, ())))
      (h₂ : Performs (n₁.call (.handle .main ⟨none, .ask q k⟩) (.handle ⟨none, .ask q k⟩))
        (r.handle q n₁.actor n₁.state) (.error n₂)) : Processes r n q k (.error n₂)
  | postRun (n₁ n₂ n₃ : Node A M) (x : AskResult M)
      (h₁ : Performs (n.call (.preRun .main ⟨none, .ask q k⟩) .preRun) (r.preRun n.actor n.state) (.ok (n₁, ())))
      (h₂ : Performs (n₁.call (.handle .main ⟨none, .ask q k⟩) (.handle ⟨none, .ask q k⟩))
        (r.handle q n₁.actor n₁.state) (.ok (n₂, x)))
      (h₃ : Performs ((n₂.answerWith k x).handled .main)
        (r.postRun (n₂.answerWith k x).actor (n₂.answerWith k x).state) (.error n₃)) : Processes r n q k (.error n₃)
  | returns (n₁ n₂ n₃ : Node A M) (x : AskResult M)
      (h₁ : Performs (n.call (.preRun .main ⟨none, .ask q k⟩) .preRun) (r.preRun n.actor n.state) (.ok (n₁, ())))
      (h₂ : Performs (n₁.call (.handle .main ⟨none, .ask q k⟩) (.handle ⟨none, .ask q k⟩))
        (r.handle q n₁.actor n₁.state) (.ok (n₂, x)))
      (h₃ : Performs ((n₂.answerWith k x).handled .main)
        (r.postRun (n₂.answerWith k x).actor (n₂.answerWith k x).state) (.ok (n₃, ()))) : Processes r n q k (.ok n₃)

theorem processMessage_rule (n : Node A M) (q : M) (k : ℕ) : Processes r n q k (n.processMessage r q k) := by
  unfold processMessage
  dsimp only
  have h₁ := perform_rule (n.call (.preRun .main ⟨none, .ask q k⟩) .preRun) r.preRun
  split
  · rename_i n₁ e₁
    rw [e₁] at h₁
    exact .preRun n₁ h₁
  · rename_i n₁ u₁ e₁
    rw [e₁] at h₁
    have h₂ := perform_rule (n₁.call (.handle .main ⟨none, .ask q k⟩) (.handle ⟨none, .ask q k⟩)) (r.handle q)
    split
    · rename_i n₂ e₂
      rw [e₂] at h₂
      exact .handle n₁ n₂ h₁ h₂
    · rename_i n₂ x e₂
      rw [e₂] at h₂
      have h₃ := perform_rule ((n₂.answerWith k x).handled .main) r.postRun
      split
      · rename_i n₃ e₃
        rw [e₃] at h₃
        exact .postRun n₁ n₂ n₃ x h₁ h₂ h₃
      · rename_i n₃ u₃ e₃
        rw [e₃] at h₃
        exact .returns n₁ n₂ n₃ x h₁ h₂ h₃

theorem answerWith_trace (n : Node A M) (k : ℕ) (x : AskResult M) : (n.answerWith k x).trace = n.trace := by
  cases x with
  | reply v => rfl
  | task h => exact (anonymous_kept n (.reply k h)).trace

/-- `process_message` calls `pre_run` first. -/
theorem processMessage_trace (n : Node A M) (q : M) (k : ℕ) :
    n.trace ++ [.preRun] <+: (reached (n.processMessage r q k)).trace := by
  have hpre : ∀ n₁, Performs (n.call (.preRun .main ⟨none, .ask q k⟩) .preRun) (r.preRun n.actor n.state)
      (.ok (n₁, ())) → n₁.trace = n.trace ++ [.preRun] := fun n₁ h => h.trace (.inr ⟨(), rfl⟩)
  have hhandle : ∀ (n₁ n₂ : Node A M) x, Performs (n₁.call (.handle .main ⟨none, .ask q k⟩) (.handle ⟨none, .ask q k⟩))
      (r.handle q n₁.actor n₁.state) (.ok (n₂, x)) → n₁.trace <+: n₂.trace := by
    intro n₁ n₂ x h
    rw [h.trace (.inr ⟨x, rfl⟩)]
    exact List.prefix_append _ _
  have hrun := processMessage_rule (r := r) n q k
  generalize n.processMessage r q k = out at hrun
  cases hrun with
  | preRun n₁ h₁ => rw [reached, h₁.trace (.inl rfl)]; exact List.prefix_refl _
  | handle n₁ n₂ h₁ h₂ =>
    rw [reached, h₂.trace (.inl rfl), ← hpre n₁ h₁]
    exact List.prefix_append _ _
  | postRun n₁ n₂ n₃ x h₁ h₂ h₃ =>
    rw [reached, h₃.trace (.inl rfl), ← hpre n₁ h₁]
    show _ <+: (n₂.answerWith k x).trace ++ _
    rw [answerWith_trace]
    exact (hhandle n₁ n₂ x h₂).trans (List.prefix_append _ _)
  | returns n₁ n₂ n₃ x h₁ h₂ h₃ =>
    rw [reached, h₃.trace (.inr ⟨(), rfl⟩), ← hpre n₁ h₁]
    show _ <+: (n₂.answerWith k x).trace ++ _
    rw [answerWith_trace]
    exact (hhandle n₁ n₂ x h₂).trans (List.prefix_append _ _)

theorem processAll_trace (n : Node A M) (qs : List M) : n.trace <+: (reached (n.processAll r qs)).trace := by
  induction qs generalizing n with
  | nil => exact List.prefix_refl _
  | cons q qs ih =>
    have hone := (List.prefix_append n.trace [.preRun]).trans (processMessage_trace (r := r) n.newAsk q n.asks.length)
    rw [processAll]
    split
    · rename_i n' h
      rwa [h] at hone
    · rename_i n' h
      rw [h] at hone
      split
      · exact hone.trans (ih n')
      · exact hone

/-- The first callback of an ordinary actor. -/
theorem processAll_cons (n : Node A M) (q : M) (qs : List M) :
    n.trace ++ [.preRun] <+: (reached (n.processAll r (q :: qs))).trace := by
  have hone := processMessage_trace (r := r) n.newAsk q n.asks.length
  rw [processAll]
  split
  · rename_i n' h
    rwa [h] at hone
  · rename_i n' h
    rw [h] at hone
    split
    · exact hone.trans (processAll_trace n' qs)
    · exact hone

/-! ## The accept path -/

theorem rawAsk_trace (n : Node A M) (q : M) (k : ℕ) :
    (reached (n.rawAsk r q k)).trace = n.trace ++ [.handle ⟨none, .ask q k⟩] := by
  have h := perform_rule (n.call n.pc (.handle ⟨none, .ask q k⟩)) (r.handle q)
  unfold rawAsk
  split
  · rename_i n₁ e
    rw [e] at h
    exact h.trace (.inl rfl)
  · rename_i n₁ v e
    rw [e] at h
    have htrace : n₁.trace = _ := h.trace (.inr ⟨_, rfl⟩)
    exact htrace
  · rename_i n₁ j e
    rw [e] at h
    exact h.trace (.inr ⟨_, rfl⟩)

theorem rawAsk_grows (n : Node A M) (q : M) (k : ℕ) :
    n.trace ++ [.handle ⟨none, .ask q k⟩] <+: (reached (n.rawAsk r q k)).trace :=
  ⟨[], by rw [List.append_nil, rawAsk_trace]⟩

theorem acceptAll_trace (n : Node A M) (qs : List M) : n.trace <+: (reached (n.acceptAll r qs)).trace := by
  induction qs generalizing n with
  | nil => exact List.prefix_refl _
  | cons q qs ih =>
    have hone := (List.prefix_append n.trace _).trans
      (rawAsk_grows (r := r) n.newAsk q n.asks.length)
    rw [acceptAll, tcpAccept]
    split
    · rename_i n' h
      rwa [h] at hone
    · rename_i n' h
      rw [h] at hone
      exact hone.trans (ih n')

/-- The first callback of the router of a component. -/
theorem acceptAll_cons (n : Node A M) (q : M) (qs : List M) :
    n.trace ++ [.handle ⟨none, .ask q n.asks.length⟩] <+: (reached (n.acceptAll r (q :: qs))).trace := by
  have hone := rawAsk_grows (r := r) n.newAsk q n.asks.length
  rw [acceptAll, tcpAccept]
  split
  · rename_i n' h
    rwa [h] at hone
  · rename_i n' h
    rw [h] at hone
    exact hone.trans (acceptAll_trace n' qs)

/-! ## `process_message` as a run of the executor -/

theorem deliver_user {n : Node A M} {p : Phase} {m : Mail A M} (hu : m.body.isUser = true) :
    (∀ o, n.deliver p m (.op o) = some (n.ctxOp o)) ∧ n.deliver p m .panic = some (n.unwind .callback) := by
  unfold deliver
  cases hb : m.body with
  | await stopNow w | cancelled c => rw [hb] at hu; cases hu
  | user q | ask q k | asyncAsk q k s | dead r => exact ⟨fun o => rfl, rfl⟩

/-- Where user code runs it may use the context, or panic. -/
theorem user_exec {n : Node A M} (hu : n.pc.user = true) :
    (∀ o, n.exec (.op o) = some (n.ctxOp o)) ∧ n.exec .panic = some (n.unwind .callback) := by
  cases hpc : n.pc with
  | handle p m =>
    simp only [exec, hpc]
    rw [hpc] at hu
    exact deliver_user hu
  | onStart | preRun p m | postRun p | onStopping | onStopped | onEnd =>
    constructor <;> intros <;> simp only [exec, hpc, callback]
  | _ => rw [hpc] at hu; cases hu

theorem useCtx_run {n : Node A M} (hu : n.pc.user = true) (os : List CtxOp) :
    (∀ n', n.useCtx os = .ok n' → Lts.run exec n (os.map .op) = some n') ∧
      ∀ n', n.useCtx os = .error n' → ∃ xs, Lts.run exec n xs = some (n'.unwind .callback) := by
  induction os generalizing n with
  | nil => exact ⟨fun n' h => (by cases h; rfl), fun n' h => (by cases h)⟩
  | cons o os ih =>
    have hstep : Lts.run exec n [.op o] = some (n.ctxOp o) := by
      rw [Lts.run, (user_exec hu).1 o]
      rfl
    rw [useCtx]
    by_cases ho : n.refuses o = true
    · rw [if_pos ho]
      refine ⟨fun n' h => (by cases h), fun n' h => ⟨[.op o], ?_⟩⟩
      cases h
      rw [hstep]
      cases o with
      | spawn id =>
        have hs : n.state ≠ .running := by simpa [refuses] using ho
        simp only [ctxOp, if_neg hs]
      | _ => cases ho
    · rw [if_neg ho]
      have hpc := (ctxOp_kept (refuses_iff.1 (by simpa using ho))).pc
      obtain ⟨hok, herror⟩ := ih (n := n.ctxOp o) (by rw [hpc]; exact hu)
      refine ⟨fun n' h => ?_, fun n' h => ?_⟩
      · exact Lts.run_append.2 ⟨_, hstep, hok n' h⟩
      · obtain ⟨xs, hxs⟩ := herror n' h
        exact ⟨_, Lts.run_append.2 ⟨_, hstep, hxs⟩⟩

/-- A callback as a run of the executor, up to its return. -/
theorem Performs.run {R : Type} {n : Node A M} {u : Usage A R} {out : Except (Node A M) (Node A M × R)}
    (h : Performs n u out) (hu : n.pc.user = true) :
    (∀ n', out = .error n' → ∃ xs, Lts.run exec n xs = some (n'.unwind .callback)) ∧
      ∀ n' x, out = .ok (n', x) →
        ∃ n₁ a, Lts.run exec n (u.ops.map .op) = some n₁ ∧ n₁.pc = n.pc ∧ n' = { n₁ with actor := a } := by
  obtain ⟨hok, herror⟩ := useCtx_run hu u.ops
  have hpc : ∀ n₁, n.useCtx u.ops = .ok n₁ → n₁.pc = n.pc := by
    intro n₁ h
    have hkept := (useCtx_kept (n := n) u.ops).2.1
    rwa [h] at hkept
  cases h with
  | refused n₁ h =>
    refine ⟨fun n' ho => ?_, fun n' x ho => (by cases ho)⟩
    cases ho
    exact herror n₁ h
  | panics n₁ h hres =>
    refine ⟨fun n' ho => ?_, fun n' x ho => (by cases ho)⟩
    cases ho
    refine ⟨_, Lts.run_concat (hok n₁ h) (l := .panic) ?_⟩
    exact (user_exec (by rw [hpc n₁ h]; exact hu)).2
  | returns n₁ a x h hres =>
    refine ⟨fun n' ho => (by cases ho), fun n' y ho => ?_⟩
    cases ho
    exact ⟨n₁, a, hok n₁ h, hpc n₁ h, rfl⟩

/-- `pre_run` has returned, and the handler is next. -/
theorem Performs.preRun_run {n n₁ : Node A M} {q : M} {k : ℕ}
    (h : Performs (n.call (.preRun .main ⟨none, .ask q k⟩) .preRun) (r.preRun n.actor n.state) (.ok (n₁, ()))) :
    ∃ xs, Lts.run exec { n with pc := .process .main ⟨none, .ask q k⟩ } xs =
      some (n₁.call (.handle .main ⟨none, .ask q k⟩) (.handle ⟨none, .ask q k⟩)) := by
  have hstart : Lts.run exec { n with pc := .process .main ⟨none, .ask q k⟩ } [.go] =
      some (n.call (.preRun .main ⟨none, .ask q k⟩) .preRun) := rfl
  obtain ⟨n₂, a, hrun, hpc, rfl⟩ := (h.run rfl).2 n₁ () rfl
  refine ⟨_, Lts.run_concat (Lts.run_append.2 ⟨_, hstart, hrun⟩) (l := .ret a) ?_⟩
  unfold exec
  rw [hpc]
  rfl

/-- The handler has returned, with an answer or a task that will answer. -/
theorem Performs.handle_run {n₁ n₂ : Node A M} {q : M} {k : ℕ} {x : AskResult M}
    (h : Performs (n₁.call (.handle .main ⟨none, .ask q k⟩) (.handle ⟨none, .ask q k⟩))
      (r.handle q n₁.actor n₁.state) (.ok (n₂, x))) :
    ∃ xs, Lts.run exec (n₁.call (.handle .main ⟨none, .ask q k⟩) (.handle ⟨none, .ask q k⟩)) xs =
      some ((n₂.answerWith k x).handled .main) := by
  obtain ⟨n₃, a, hrun, hpc, rfl⟩ := (h.run rfl).2 n₂ x rfl
  cases x with
  | reply v =>
    refine ⟨_, Lts.run_concat hrun (l := .reply a v) ?_⟩
    unfold exec
    rw [hpc]
    rfl
  | task j =>
    refine ⟨_, Lts.run_concat hrun (l := .task a j) ?_⟩
    have hpc' : n₃.pc = .handle .main ⟨none, .ask q k⟩ := hpc
    simp only [exec, hpc', deliver, answerWith]

/-- **The path of an ordinary actor is `process_message`**: a run of the executor with the
request at hand ends where this path ends, in a panic or behind `post_run`. -/
theorem processMessage_run (n : Node A M) (q : M) (k : ℕ) :
    (∀ n', n.processMessage r q k = .ok n' →
      ∃ xs, Lts.run exec { n with pc := .process .main ⟨none, .ask q k⟩ } xs = some (n'.processed .main)) ∧
    ∀ n', n.processMessage r q k = .error n' →
      ∃ xs, Lts.run exec { n with pc := .process .main ⟨none, .ask q k⟩ } xs = some (n'.unwind .callback) := by
  have hstart : Lts.run exec { n with pc := .process .main ⟨none, .ask q k⟩ } [.go] =
      some (n.call (.preRun .main ⟨none, .ask q k⟩) .preRun) := rfl
  have hrun := processMessage_rule (r := r) n q k
  generalize n.processMessage r q k = out at hrun
  cases hrun with
  | preRun n₁ h₁ =>
    refine ⟨fun n' h => (by cases h), fun n' h => ?_⟩
    cases h
    obtain ⟨xs, hxs⟩ := (h₁.run rfl).1 n₁ rfl
    exact ⟨_, Lts.run_append.2 ⟨_, hstart, hxs⟩⟩
  | handle n₁ n₂ h₁ h₂ =>
    refine ⟨fun n' h => (by cases h), fun n' h => ?_⟩
    cases h
    obtain ⟨xs₁, hxs₁⟩ := h₁.preRun_run
    obtain ⟨xs₂, hxs₂⟩ := (h₂.run rfl).1 n₂ rfl
    exact ⟨_, Lts.run_append.2 ⟨_, hxs₁, hxs₂⟩⟩
  | postRun n₁ n₂ n₃ x h₁ h₂ h₃ =>
    refine ⟨fun n' h => (by cases h), fun n' h => ?_⟩
    cases h
    obtain ⟨xs₁, hxs₁⟩ := h₁.preRun_run
    obtain ⟨xs₂, hxs₂⟩ := h₂.handle_run
    obtain ⟨xs₃, hxs₃⟩ := (h₃.run rfl).1 n₃ rfl
    exact ⟨_, Lts.run_append.2 ⟨_, hxs₁, Lts.run_append.2 ⟨_, hxs₂, hxs₃⟩⟩⟩
  | returns n₁ n₂ n₃ x h₁ h₂ h₃ =>
    refine ⟨fun n' h => ?_, fun n' h => (by cases h)⟩
    cases h
    obtain ⟨xs₁, hxs₁⟩ := h₁.preRun_run
    obtain ⟨xs₂, hxs₂⟩ := h₂.handle_run
    obtain ⟨n₄, a, hrun, hpc, rfl⟩ := (h₃.run rfl).2 n₃ () rfl
    refine ⟨_, Lts.run_append.2 ⟨_, hxs₁, Lts.run_append.2 ⟨_, hxs₂, Lts.run_concat hrun (l := .ret a) ?_⟩⟩⟩
    unfold exec
    rw [hpc]
    rfl

/-! ## Where the paths agree -/

/-- The same actor at another place, with another trace. -/
def relabel (n : Node A M) (pc : Pc A M) (trace : List (Event A M)) : Node A M := { n with pc := pc, trace := trace }

theorem ctxOp_relabel {n : Node A M} {o : CtxOp} (ho : n.allows o) (pc : Pc A M) (trace : List (Event A M)) :
    (n.relabel pc trace).ctxOp o = (n.ctxOp o).relabel pc trace := by
  cases o with
  | stop => by_cases hs : n.state = .running <;> simp only [ctxOp, stop, relabel, hs, if_true, if_false]
  | abort => cases hs : n.state <;> simp only [ctxOp, abort, relabel, hs]
  | spawn id =>
    have hs : n.state = .running := ho
    simp [ctxOp, relabel, hs]
  | anonymous | anonymousTask | anonymousHandle =>
    simp only [ctxOp, anonymous, acquireAnonymousPermit, relabel]
    cases n.permits <;> rfl

theorem useCtx_relabel {n n' : Node A M} {os : List CtxOp} (h : n.useCtx os = .ok n') (pc : Pc A M)
    (trace : List (Event A M)) : (n.relabel pc trace).useCtx os = .ok (n'.relabel pc trace) := by
  induction os generalizing n with
  | nil =>
    cases h
    rfl
  | cons o os ih =>
    rw [useCtx] at h ⊢
    by_cases ho : n.refuses o = true
    · rw [if_pos ho] at h
      cases h
    · have ho' : ¬ (n.relabel pc trace).refuses o = true := ho
      rw [if_neg ho] at h
      rw [if_neg ho', ctxOp_relabel (refuses_iff.1 (by simpa using ho))]
      exact ih h

theorem perform_relabel {R : Type} {n n' : Node A M} {f : A → ActorState → Usage A R} {x : R}
    (h : n.perform f = .ok (n', x)) (pc : Pc A M) (trace : List (Event A M)) :
    (n.relabel pc trace).perform f = .ok (n'.relabel pc trace, x) := by
  have hr := perform_rule n f
  rw [h] at hr
  cases hr with
  | returns n₁ a x hu hres =>
    have hu' := useCtx_relabel hu pc trace
    exact perform_returns (n := n.relabel pc trace) hu' hres

end Node

/-- The hooks do nothing. -/
structure RouterAct.Idle (r : RouterAct A M) : Prop where
  preRun : ∀ a s, r.preRun a s = ⟨[], some (a, ())⟩
  postRun : ∀ a s, r.postRun a s = ⟨[], some (a, ())⟩

/-- The event is not one of the hooks around a message. -/
def Event.inner : Event A M → Bool
  | .preRun | .postRun => false
  | _ => true

namespace Node

/-- A connection that is accepted with a reply is what an ordinary actor makes of the request. -/
theorem tcpAccept_agrees (hi : r.Idle) {n n' : Node A M} {q : M} (h : n.tcpAccept r q = .ok n') (pc : Pc A M)
    (trace : List (Event A M)) : ∃ pc', (n.relabel pc trace).newAsk.processMessage r q n.asks.length =
      .ok (n'.relabel pc' (trace ++ [.preRun, .handle ⟨none, .ask q n.asks.length⟩, .postRun])) := by
  have hidle : ∀ (f : A → ActorState → Usage A Unit) (n : Node A M), (∀ a s, f a s = ⟨[], some (a, ())⟩) →
      n.perform f = .ok (n, ()) := by
    intro f n hf
    simp only [perform, hf, useCtx]
  unfold tcpAccept rawAsk at h
  split at h
  · cases h
  · rename_i n₁ v hp
    cases h
    have hp' : ((((n.relabel pc trace).newAsk).call (.preRun .main ⟨none, .ask q n.asks.length⟩) .preRun).call
        (.handle .main ⟨none, .ask q n.asks.length⟩) (.handle ⟨none, .ask q n.asks.length⟩)).perform (r.handle q) =
        .ok (n₁.relabel (.handle .main ⟨none, .ask q n.asks.length⟩)
          (trace ++ [.preRun] ++ [.handle ⟨none, .ask q n.asks.length⟩]), .reply v) := perform_relabel hp _ _
    refine ⟨.postRun .main, ?_⟩
    unfold processMessage
    dsimp only
    rw [hidle _ _ hi.preRun]
    dsimp only
    rw [hp']
    dsimp only
    rw [hidle _ _ hi.postRun]
    simp [answerWith, answer, handled, call, relabel]
  · cases h

/-- The router goes on running whatever it accepts. -/
def Stays (r : RouterAct A M) : Node A M → List M → Prop
  | _, [] => True
  | n, q :: qs => ∀ n', n.tcpAccept r q = .ok n' → n'.state = .running ∧ n'.Stays r qs

/-- **The paths agree** for a router whose hooks do nothing, which replies to every request at
once and goes on running: but for the hooks, it is left the same, with the same replies. -/
theorem accept_agrees (hi : r.Idle) {n n' : Node A M} {qs : List M} (h : n.acceptAll r qs = .ok n') (hs : n.Stays r qs) :
    ∃ pc trace, n.processAll r qs = .ok (n'.relabel pc trace) ∧
      trace.filter Event.inner = n'.trace.filter Event.inner := by
  -- by induction on the requests, over every control point and trace that the two paths may have left
  have key : ∀ (qs : List M) (n : Node A M) (pc : Pc A M) (trace : List (Event A M)),
      trace.filter Event.inner = n.trace.filter Event.inner → n.acceptAll r qs = .ok n' → n.Stays r qs →
      ∃ pc' trace', (n.relabel pc trace).processAll r qs = .ok (n'.relabel pc' trace') ∧
        trace'.filter Event.inner = n'.trace.filter Event.inner := by
    intro qs
    induction qs with
    | nil =>
      intro n pc trace ht h _
      cases h
      exact ⟨pc, trace, rfl, ht⟩
    | cons q qs ih =>
      intro n pc trace ht h hs
      rw [acceptAll] at h
      split at h
      · cases h
      · rename_i n₁ h₁
        obtain ⟨hrunning, hs₁⟩ := hs n₁ h₁
        obtain ⟨pc₁, hp₁⟩ := tcpAccept_agrees hi h₁ pc trace
        have htrace : n₁.trace = n.trace ++ [.handle ⟨none, .ask q n.asks.length⟩] := by
          have := rawAsk_trace (r := r) n.newAsk q n.asks.length
          rwa [show rawAsk r n.newAsk q n.asks.length = .ok n₁ from h₁] at this
        have ht₁ : (trace ++ [Event.preRun, Event.handle ⟨none, .ask q n.asks.length⟩, Event.postRun]).filter Event.inner =
            n₁.trace.filter Event.inner := by
          rw [htrace, List.filter_append, List.filter_append, ht]
          rfl
        have hstate : (n₁.relabel pc₁ (trace ++ [Event.preRun, Event.handle ⟨none, .ask q n.asks.length⟩, Event.postRun])).state =
            .running := hrunning
        have hp₂ : (n.relabel pc trace).newAsk.processMessage r q (n.relabel pc trace).asks.length = _ := hp₁
        rw [processAll, hp₂]
        dsimp only
        rw [if_pos hstate]
        exact ih n₁ pc₁ _ ht₁ h hs₁
  exact key qs n n.pc n.trace rfl h hs

/-- The accept path treats the router as an ordinary actor: with the same callbacks, it leaves
the same actor and the same replies, it panics only where that does, and it accepts nothing
when the router is not running. -/
structure Ordinary (r : RouterAct A M) (n : Node A M) (qs : List M) : Prop where
  trace : (reached (n.acceptAll r qs)).trace = (reached (n.processAll r qs)).trace
  actor : (reached (n.acceptAll r qs)).actor = (reached (n.processAll r qs)).actor
  state : (reached (n.acceptAll r qs)).state = (reached (n.processAll r qs)).state
  asks : (reached (n.acceptAll r qs)).asks = (reached (n.processAll r qs)).asks
  panics : ∀ n', n.acceptAll r qs = .error n' → ∃ n'', n.processAll r qs = .error n''
  running : ∀ pre q post, qs = pre ++ q :: post → ∀ n', n.acceptAll r pre = .ok n' → n'.state = .running

end Node

open Node in
/-- **The accept path is not that of an ordinary actor**: for no router, in no state, and for
no connection, since `RawExecutor::ask` calls neither `pre_run` nor `post_run`. -/
theorem ordinary_iff (r : RouterAct A M) (n : Node A M) (qs : List M) : Ordinary r n qs ↔ qs = [] := by
  constructor
  · intro h
    cases qs with
    | nil => rfl
    | cons q qs =>
      -- the callback behind the trace so far is another one
      obtain ⟨t, ht⟩ := acceptAll_cons (r := r) n q qs
      obtain ⟨t', ht'⟩ := processAll_cons (r := r) n q qs
      have htrace := h.trace
      rw [← ht, ← ht', List.append_assoc, List.append_assoc, List.append_cancel_left_eq] at htrace
      cases htrace
  · rintro rfl
    refine ⟨rfl, rfl, rfl, rfl, fun n' h => (by cases h), fun pre q post h => ?_⟩
    exact absurd h (by simp)

/-- A router that counts the messages it is run for, stops at the request 0, and hands other
requests to a task. -/
def counting : RouterAct ℕ ℕ where
  preRun a _ := ⟨[], some (a + 1, ())⟩
  handle q a _ := if q = 0 then ⟨[.stop], some (a, .reply a)⟩ else ⟨[.anonymousHandle], some (a, .task 0)⟩
  postRun a _ := ⟨[], some (a, ())⟩

/-- The count is not kept, a connection is accepted after the stop, and a task panics. -/
theorem counting_differs :
    ¬ Node.Ordinary counting (.init { mailboxSize := 1, maxAnonymousActors := 1, supervised := false } 0) [1] ∧
      (∃ n, Node.acceptAll counting (.init { mailboxSize := 1, maxAnonymousActors := 1, supervised := false } 0) [0, 0] =
        .ok n ∧ n.actor = 0 ∧ n.state = .stopping ∧ n.asks = [.replied 0, .replied 0]) ∧
      ∃ n, Node.processAll counting (.init { mailboxSize := 1, maxAnonymousActors := 1, supervised := false } 0) [0, 0] =
        .ok n ∧ n.actor = 1 ∧ n.state = .stopping ∧ n.asks = [.replied 1] := by
  refine ⟨fun h => ?_, ⟨_, rfl, rfl, rfl, rfl⟩, ⟨_, rfl, rfl, rfl, rfl⟩⟩
  obtain ⟨n, hn⟩ := h.panics _ rfl
  cases hn

end Tokactor
