import Tokactor.Model.Object
import Tokactor.Proof.Asks
import Tokactor.Proof.Handover

/-!
# An actor is an atomic object

An actor that runs an `Object` is, for everybody else, that object: whatever is interleaved
with its executor, it looks as if each message were handled at once when the mailbox accepts
it.

* `Object.behaviour`: what the callbacks of such an actor do.
* `Object.atomic_run`: every answer, every actor that a caller gets and the actor that goes to the
  supervisor are those of the object, for the messages in the order the mailbox accepted them.
-/

namespace Tokactor

open Cells

variable {A M : Type}

namespace Object

/-- The callbacks of an actor that runs the object. The handler of an async ask leaves the work
to its future. -/
def behaviour (O : Object A M) : Behaviour A M where
  call e a a' :=
    match e with
    | .handle ⟨_, .user m⟩ => a' = O.handle m a
    | .handle ⟨_, .dead r⟩ => a' = O.dead r a
    | .handle ⟨_, .ask _ _⟩ => False
    | _ => a' = a
  reply m a a' v :=
    match m.body with
    | .ask q _ => (a', v) = O.ask q a
    | .asyncAsk q _ _ => (a', v) = O.asyncAsk q a
    | _ => False

instance (O : Object A M) [DecidableEq A] : ∀ e a a', Decidable (O.behaviour.call e a a')
  | .handle ⟨_, .user m⟩, a, a' => inferInstanceAs (Decidable (a' = O.handle m a))
  | .handle ⟨_, .dead r⟩, a, a' => inferInstanceAs (Decidable (a' = O.dead r a))
  | .handle ⟨_, .ask _ _⟩, _, _ => inferInstanceAs (Decidable False)
  | .handle ⟨_, .asyncAsk _ _ _⟩, a, a' | .handle ⟨_, .await _ _⟩, a, a' | .handle ⟨_, .cancelled _⟩, a, a'
  | .onStart, a, a' | .preRun, a, a' | .postRun, a, a' | .onStopping, a, a' | .onStopped, a, a' | .onEnd, a, a'
  | .ended _, a, a' =>
    inferInstanceAs (Decidable (a' = a))

instance (O : Object A M) [DecidableEq A] [DecidableEq M] : ∀ m a a' v, Decidable (O.behaviour.reply m a a' v)
  | ⟨_, .ask q _⟩, a, a', v => inferInstanceAs (Decidable ((a', v) = O.ask q a))
  | ⟨_, .asyncAsk q _ _⟩, a, a', v => inferInstanceAs (Decidable ((a', v) = O.asyncAsk q a))
  | ⟨_, .user _⟩, _, _, _ | ⟨_, .dead _⟩, _, _, _ | ⟨_, .await _ _⟩, _, _, _ | ⟨_, .cancelled _⟩, _, _, _ =>
    inferInstanceAs (Decidable False)

variable {O : Object A M} {a₀ a a' : A} {tr : List (Event A M)}

theorem value_concat (a : A) (ms : List (Mail A M)) (m : Mail A M) :
    O.value a (ms ++ [m]) = (O.apply (O.value a ms) m.body).1 := by
  unfold value
  rw [List.foldl_append]
  rfl

/-- A handler that answers applies its message. -/
theorem answers_apply {m : Mail A M} {v : M} (h : O.behaviour.Answers m a a' v) (hu : m.body.unpolled = false) :
    O.apply a m.body = (a', some v) := by
  obtain ⟨src, body⟩ := m
  cases body with
  | ask q k =>
    have h : (a', v) = O.ask q a := h
    rw [apply, ← h]
  | asyncAsk q k s =>
    obtain ⟨a₁, hcall, hreply⟩ := h
    cases s with
    | blocking => cases hu
    | nonBlocking =>
      have hcall : a₁ = a := hcall
      have hreply : (a', v) = O.asyncAsk q a₁ := hreply
      rw [apply, ← hcall, ← hreply]
  | user | dead | await | cancelled => exact h.elim

/-- What a callback leaves: a hook the actor as it is. -/
def leaves (O : Object A M) (a : A) : Event A M → A
  | .handle m => (O.apply a m.body).1
  | _ => a

theorem does_apply {e : Event A M} (h : O.behaviour.Does e a a') : a' = O.leaves a e := by
  cases e with
  | handle m =>
    obtain ⟨src, body⟩ := m
    cases body with
    | user | dead | await | cancelled => exact h
    | ask q k =>
      rcases h with h | ⟨v, h⟩
      · exact h.elim
      · rw [leaves, answers_apply h rfl]
    | asyncAsk q k s =>
      cases s with
      | blocking => exact h
      | nonBlocking =>
        obtain ⟨v, h⟩ := h
        rw [leaves, answers_apply h rfl]
  | _ => exact h

/-- **What callbacks leave** is what the messages handled in them make of the actor. -/
theorem left_value (h : O.behaviour.Left a₀ tr a) : a = O.value a₀ (handledOf tr) := by
  induction h with
  | nil => rfl
  | concat tr e a a' h he ih =>
    have hdoes := does_apply he
    rw [handledOf_append]
    cases e with
    | handle m => rw [hdoes, handledOf_handle, value_concat, ← ih, leaves]
    | _ => exact hdoes.trans (ih.trans (by rw [show handledOf [_] = [] from rfl, List.append_nil]))

end Object

/-! ## Runs -/

/-- No task answers an ask. -/
def Node.Prompts (n : Node A M) : Prop := ∀ s ∈ n.tasks, s.task.replies = none

theorem Object.prompts_step {O : Object A M} {n n' : Node A M} {l : Label A M} (hn : n.Prompts)
    (hfol : O.behaviour.Follows n l) (h : n.step l = some n') : n'.Prompts := by
  refine Node.step_keeps (I := Node.Prompts) hn h ?_ ?_ ?_
  · rintro x rfl hx s hs
    by_contra hk
    obtain ⟨k, hk⟩ := Option.ne_none_iff_exists'.1 hk
    rcases Node.exec_split hx with ⟨o, -, ho, rfl⟩ | ⟨p, m, a, i, j, rfl, hpc, -, rfl⟩ | ⟨ht, -, -⟩
    · rcases Node.ctxOp_replies ho hs with hs | hs
      · rw [hn s hs] at hk
        cases hk
      · rw [hs] at hk
        cases hk
    · -- the handler of an object does not return a task
      obtain ⟨q, k', hb⟩ := Node.exec_task h hpc
      have hcall := hfol (.handle m) (by rw [hpc]; exact List.mem_singleton_self _)
      obtain ⟨src, body⟩ := m
      cases hb
      exact hcall
    · rw [hn s (ht ▸ hs)] at hk
      cases hk
  · intro n₁ i tl n₂ s t e hn₁ _ ht s' hs'
    obtain ⟨s, hs, heq⟩ := ht.replies.1 s' hs'
    rw [← heq]
    exact hn₁ s hs
  · intro ms hr s hs
    exact hn s (hr.tasks ▸ hs)

theorem Object.prompts_run {O : Object A M} {cfg : Config} {a : A} {ls : List (Label A M)} {n : Node A M}
    (hfol : Lts.Along Node.step O.behaviour.Follows (Node.init cfg a) ls)
    (hr : Lts.run Node.step (Node.init cfg a) ls = some n) : n.Prompts := by
  refine Lts.run_along (fun _ _ _ hn hfol h => prompts_step hn hfol h) (fun s hs => ?_) hfol hr
  obtain ⟨kind, rfl⟩ := mem_init_tasks hs
  rfl

/-- An ask is in one place only. -/
theorem Distinct.place {n : Node A M} (hd : Distinct n) {ms ms' rest rest' : List (Mail A M)} {m : Mail A M} {k : ℕ}
    (hk : m.body.asker = some k) (h : n.mailbox.accepted = ms ++ m :: rest) (h' : n.mailbox.accepted = ms' ++ m :: rest') :
    ms = ms' := by
  unfold Distinct at hd
  have hmem : k ∈ askIds (m :: rest) := mem_askIds.2 ⟨m, List.mem_cons_self, hk⟩
  have hmem' : k ∈ askIds (m :: rest') := mem_askIds.2 ⟨m, List.mem_cons_self, hk⟩
  have hnot : k ∉ askIds ms := by
    rw [h, askIds_append, List.nodup_append] at hd
    exact fun hin => hd.2.2 k hin k hmem rfl
  have hnot' : k ∉ askIds ms' := by
    rw [h', askIds_append, List.nodup_append] at hd
    exact fun hin => hd.2.2 k hin k hmem' rfl
  -- otherwise the one is in what comes before the other
  rcases List.append_eq_append_iff.1 (h.symm.trans h') with ⟨es, hes, hes'⟩ | ⟨es, hes, hes'⟩
  · cases es with
    | nil => rw [hes, List.append_nil]
    | cons e es =>
      obtain ⟨rfl, -⟩ := List.cons.inj hes'
      refine absurd ?_ hnot'
      rw [hes]
      exact mem_askIds.2 ⟨m, by simp, hk⟩
  · cases es with
    | nil => rw [hes, List.append_nil]
    | cons e es =>
      obtain ⟨rfl, -⟩ := List.cons.inj hes'
      refine absurd ?_ hnot
      rw [hes]
      exact mem_askIds.2 ⟨m, by simp, hk⟩

/-- The actor `n` is the object, for everybody that can see it. -/
structure Atomic (O : Object A M) (a₀ : A) (n : Node A M) : Prop where
  /-- an ask is ahead and waits, or it has the answer of the object to it, behind the messages that
  the mailbox accepted before it, and keeps it ever after -/
  answered : ∀ ms m rest k, n.mailbox.accepted = ms ++ m :: rest → m.body.asker = some k → m.body.unpolled = false →
    (m ∈ n.ahead ∧ ActorRef.answer n k = none) ∨ ∃ v, O.answer a₀ ms m = some v ∧
      ∀ ls n', Lts.run Node.step n ls = some n' → ActorRef.answer n' k = some (.ok v)
  /-- between two callbacks the actor is what the messages handled so far have made of it -/
  actor : n.pc.opened = [] → n.actor = O.value a₀ (handledOf n.trace)
  /-- once `on_end` is called it is what all messages that were accepted make of it, -/
  ended : n.pc.stage = .ended → n.actor = O.value a₀ n.mailbox.accepted
  /-- and so is the actor that a caller has got -/
  awaited : ∀ w a, At n.awaits w (Await.Has a) → a = O.value a₀ n.mailbox.accepted

/-- **An actor that runs an object is atomic**: in every run in which the executor has not
panicked, whatever is interleaved with it. -/
theorem Object.atomic_run {O : Object A M} {cfg : Config} {a₀ : A} {ls : List (Label A M)} {n : Node A M}
    (hfol : Lts.Along Node.step O.behaviour.Follows (Node.init cfg a₀) ls)
    (hr : Lts.run Node.step (Node.init cfg a₀) ls = some n) (hf : n.pc.stage ≠ .failed) : Atomic O a₀ n := by
  have hi := asksOK_run hr
  obtain ⟨tr, hs⟩ := (served_run hfol hr).resolve_left hf
  obtain ⟨h, ha⟩ := (awaiters_run hr).resolve_left hf
  have hprompts := O.prompts_run hfol hr
  have hvalue : n.pc.polled = false → n.actor = O.value a₀ (handledOf tr) := fun hp =>
    Object.left_value ((Behaviour.holds_iff hp).1 hs.actor)
  -- in the end all that was accepted is handled
  have hended : n.pc.stage = .ended → n.actor = O.value a₀ n.mailbox.accepted := by
    intro hend
    have hac := accepted_ahead hi.life hf hs.trace
    rw [ended_ahead hi.life hend, List.append_nil] at hac
    rw [hac]
    refine hvalue ?_
    cases hpc : n.pc with
    | future p | cancelling p =>
      rw [hpc] at hend
      cases p <;> cases hend
    | _ => rfl
  refine ⟨fun ms m rest k hms hk hu => ?_, fun hopen => ?_, hended, fun w a hw => ?_⟩
  · have hm : m ∈ n.mailbox.accepted := by
      rw [hms]
      exact List.mem_append_right _ List.mem_cons_self
    have hdir : n.Direct k := fun s hs hk => by
      rw [hprompts s hs] at hk
      cases hk
    refine (hs.answer hi hf hm hk hu hdir).imp_right ?_
    rintro ⟨tr₁, rest₁, rest₂, a, a', v, hac, -, hleft, hans, hv⟩
    refine ⟨v, ?_, hv⟩
    rw [hi.distinct.place hk hms hac, Object.answer, ← Object.left_value hleft, Object.answers_apply hans hu]
  · rw [hs.trace, hopen, List.append_nil]
    refine hvalue ?_
    cases hpc : n.pc <;> rw [hpc] at hopen <;> first | rfl | cases hopen
  · obtain ⟨-, hpc, rfl⟩ := ha.holder hw
    exact hended (by rcases hpc with hpc | hpc <;> rw [hpc] <;> rfl)

end Tokactor
