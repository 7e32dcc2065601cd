import Tokactor.Model.Address
import Tokactor.Proof.Step

/-!
# What becomes of a message that the mailbox does not take

* `gives_back_iff`: only `send` and `send_async` give such a message back.
* `ask_panics`, `internal_lost`: what the other operations do with it.
* `message_lost`: a reachable actor where they lose it.
* `takes_step`: where the mailbox takes the message, the operation is a step of the actor.
-/

namespace Tokactor

variable {A M : Type}

/-- The mailbox does not take the message, and will not do so later. -/
def Node.Refuses (n : Node A M) : Sending A M → Prop
  | .send _ _ => n.mailbox.closed = true ∨ n.mailbox.full = true
  | _ => n.mailbox.closed = true

/-- The operation is over, the caller has its message back, and nothing has happened to
the actor. -/
def Node.GivesBack (n : Node A M) : Sending A M → Prop
  | .send src m =>
    ActorRef.send n src m = (.returns (.error (if n.mailbox.closed then .closed m else .full m)), n)
  | .sendAsync src m => ActorRef.sendAsync n src m = some (.returns (.error (.closed m)), n)
  | .ask m => ActorRef.ask n m = some (.returns (.error (.closed m)), n)
  | .asyncAsk m s => ActorRef.asyncAsk n m s = some (.returns (.error (.closed m)), n)
  | .internalSendAsync src m => ActorRef.internalSendAsync n src m = some (.returns (.error (.closed m)), n)

/-- The operation puts an `Envelope` in the box. -/
def Sending.enveloped : Sending A M → Bool
  | .send _ _ | .sendAsync _ _ => true
  | _ => false

section

variable {n : Node A M} {T : Type}

theorem mpscSend_closed (hc : n.mailbox.closed = true) (box : SendMessage T)
    (put : Node A M → Option (Node A M)) : mpscSend n box put = some (.error box) := by
  unfold mpscSend
  rw [if_pos hc]

theorem mpscTrySend_closed (hc : n.mailbox.closed = true) (box : SendMessage T)
    (put : Node A M → Option (Node A M)) : mpscTrySend n box put = .error (.closed box) := by
  unfold mpscTrySend
  rw [if_pos hc]

/-- A full mailbox takes nothing. -/
theorem accept_full (hf : n.mailbox.full = true) (src : Option ℕ) (b : Body A M) : n.accept src b = none := by
  have hcap : n.mailbox.cap ≤ n.mailbox.queue.length := by simpa [Chan.full] using hf
  have hpush : n.mailbox.push ⟨src, b⟩ = none := by
    unfold Chan.push
    rw [dif_neg fun h => by omega]
  unfold Node.accept
  rw [hpush]
  rfl

theorem mpscTrySend_full (hc : n.mailbox.closed = false) (hf : n.mailbox.full = true) (box : SendMessage T)
    (src : Option ℕ) (b : Body A M) : mpscTrySend n box (·.accept src b) = .error (.full box) := by
  unfold mpscTrySend
  simp only [hc, accept_full hf]
  rfl

end

/-! ## The operations on a message that is refused -/

/-- **`send` gives the message back.** -/
theorem send_gives_back {n : Node A M} (src : Option ℕ) (m : Handled A M)
    (h : n.mailbox.closed = true ∨ n.mailbox.full = true) : n.GivesBack (.send src m) := by
  show ActorRef.send n src m = _
  unfold ActorRef.send
  by_cases hc : n.mailbox.closed = true
  · rw [mpscTrySend_closed hc, if_pos hc]
    rfl
  · have hfull : n.mailbox.full = true := h.resolve_left hc
    rw [mpscTrySend_full (by simpa using hc) hfull, if_neg hc]
    rfl

/-- **`send_async` gives the message back.** -/
theorem sendAsync_gives_back {n : Node A M} (src : Option ℕ) (m : Handled A M)
    (hc : n.mailbox.closed = true) : n.GivesBack (.sendAsync src m) := by
  show ActorRef.sendAsync n src m = _
  unfold ActorRef.sendAsync
  rw [mpscSend_closed hc]
  rfl

/-- `ask` and `async_ask` panic: what comes back is no `Envelope`. -/
theorem ask_panics {n : Node A M} (hc : n.mailbox.closed = true) (m : M) (s : Scheduler) :
    ActorRef.ask n m = some (.panics, n) ∧ ActorRef.asyncAsk n m s = some (.panics, n) := by
  unfold ActorRef.ask ActorRef.asyncAsk ActorRef.askWith
  rw [mpscSend_closed hc, mpscSend_closed hc]
  exact ⟨rfl, rfl⟩

/-- `internal_send_async` loses the message. -/
theorem internal_lost {n : Node A M} (hc : n.mailbox.closed = true) (src : Option ℕ) (m : Internal) :
    ActorRef.internalSendAsync n src m = some (.returns (.error .lost), n) := by
  unfold ActorRef.internalSendAsync
  rw [mpscSend_closed hc]
  rfl

/-- **A message that is refused comes back exactly from `send` and `send_async`.** -/
theorem gives_back_iff (n : Node A M) (op : Sending A M) :
    (n.Refuses op → n.GivesBack op) ↔ op.enveloped = true ∨ ¬ n.Refuses op := by
  constructor
  · intro h
    by_cases hr : n.Refuses op
    · have hback := h hr
      left
      cases op with
      | send src m | sendAsync src m => rfl
      | ask m =>
        have hback : ActorRef.ask n m = _ := hback
        rw [(ask_panics hr m .nonBlocking).1] at hback
        cases hback
      | asyncAsk m s =>
        have hback : ActorRef.asyncAsk n m s = _ := hback
        rw [(ask_panics hr m s).2] at hback
        cases hback
      | internalSendAsync src m =>
        have hback : ActorRef.internalSendAsync n src m = _ := hback
        rw [internal_lost hr] at hback
        cases hback
    · exact .inr hr
  · intro h hr
    rcases h with h | h
    · cases op with
      | send src m => exact send_gives_back src m hr
      | sendAsync src m => exact sendAsync_gives_back src m hr
      | ask m | asyncAsk m s | internalSendAsync src m => cases h
    · exact absurd hr h

/-- An actor that is told to stop has closed its mailbox. -/
def closingRun : List (Label Unit ℕ) :=
  [.exec (.ret ()), .send (.await true), .exec .recv, .exec .go, .exec .go, .exec (.ret ()), .exec .go,
    .exec (.ret ()), .exec (.ret ()), .exec .go]

/-- **A message can be lost**: `ask` panics and `internal_send_async` returns `Lost`. -/
theorem message_lost :
    ∃ n : Node Unit ℕ, Lts.run Node.step (Node.init ⟨4, 1, false, []⟩ ()) closingRun = some n ∧
      n.Refuses (.ask 5) ∧ ¬ n.GivesBack (.ask 5) ∧
      ¬ n.GivesBack (.internalSendAsync none (.intoFutureShutdown true)) := by
  refine ⟨_, rfl, rfl, fun h => ?_, fun h => ?_⟩
  · have h : some _ = some _ := h
    cases h
  · have h : some _ = some _ := h
    cases h

/-! ## The operations on a message that is taken -/

/-- The operation succeeds, and the actor is `n'` then. -/
def Node.Takes (n n' : Node A M) : Sending A M → Prop
  | .send src m => ActorRef.send n src m = (.returns (.ok ()), n')
  | .sendAsync src m => ActorRef.sendAsync n src m = some (.returns (.ok ()), n')
  | .ask m => ∃ k, ActorRef.ask n m = some (.returns (.ok k), n')
  | .asyncAsk m s => ∃ k, ActorRef.asyncAsk n m s = some (.returns (.ok k), n')
  | .internalSendAsync src m => ActorRef.internalSendAsync n src m = some (.returns (.ok ()), n')

/-- What is sent by somebody who is no task of the actor. -/
def Sending.request : Sending A M → Option (Request M)
  | .send none (.message m) | .sendAsync none (.message m) => some (.user m)
  | .ask m => some (.ask m)
  | .asyncAsk m s => some (.asyncAsk m s)
  | .internalSendAsync none (.intoFutureShutdown stopNow) => some (.await stopNow)
  | _ => none

theorem mpscSend_ok {n n' : Node A M} {T : Type} {box : SendMessage T} {put : Node A M → Option (Node A M)}
    (h : mpscSend n box put = some (.ok n')) : put n = some n' := by
  unfold mpscSend at h
  split at h
  · cases h
  · simpa using h

theorem mpscTrySend_ok {n n' : Node A M} {T : Type} {box : SendMessage T} {put : Node A M → Option (Node A M)}
    (h : mpscTrySend n box put = .ok n') : put n = some n' := by
  unfold mpscTrySend at h
  split at h
  · cases h
  · split at h
    · rename_i hp
      cases h
      exact hp
    · cases h

/-- The error paths do not return `Ok`. -/
theorem Call.unwrap_error {α β ε : Type} (x : Option α) (f : α → ε) (y : β) :
    Call.unwrap x (fun a => (.error (f a) : Except ε β)) ≠ .returns (.ok y) := by
  cases x <;> simp [Call.unwrap]

theorem askWith_ok {n n' : Node A M} {box : SendMessage M} {put : Node A M → Option (Node A M)} {k : ℕ}
    (h : ActorRef.askWith n box put = some (.returns (.ok k), n')) : put n = some n' := by
  simp only [ActorRef.askWith, Option.map_eq_some_iff] at h
  obtain ⟨r, hr, h⟩ := h
  cases r with
  | ok n₁ => cases h; exact mpscSend_ok hr
  | error err => exact absurd (congrArg Prod.fst h) (Call.unwrap_error _ _ _)

/-- **An operation that succeeds is a step of the actor**: its message is accepted. -/
theorem takes_step {n n' : Node A M} {op : Sending A M} {r : Request M} (hop : op.request = some r)
    (h : n.Takes n' op) : n.step (.send r) = some n' := by
  cases op with
  | send src m =>
    have h : ActorRef.send n src m = _ := h
    unfold ActorRef.send at h
    split at h
    · rename_i n₁ hput
      cases h
      have hput := mpscTrySend_ok hput
      cases src <;> cases m <;> cases hop
      exact hput
    · exact absurd (congrArg Prod.fst h) (Call.unwrap_error _ _ _)
    · exact absurd (congrArg Prod.fst h) (Call.unwrap_error _ _ _)
  | sendAsync src m =>
    have h : ActorRef.sendAsync n src m = _ := h
    simp only [ActorRef.sendAsync, Option.map_eq_some_iff] at h
    obtain ⟨res, hput, h⟩ := h
    cases res with
    | ok n₁ =>
      cases h
      have hput := mpscSend_ok hput
      cases src <;> cases m <;> cases hop
      exact hput
    | error err => exact absurd (congrArg Prod.fst h) (Call.unwrap_error _ _ _)
  | ask m =>
    obtain ⟨k, h⟩ := h
    cases hop
    exact askWith_ok h
  | asyncAsk m s =>
    obtain ⟨k, h⟩ := h
    cases hop
    exact askWith_ok h
  | internalSendAsync src m =>
    have h : ActorRef.internalSendAsync n src m = _ := h
    simp only [ActorRef.internalSendAsync, Option.map_eq_some_iff] at h
    obtain ⟨res, hput, h⟩ := h
    cases res with
    | ok n₁ =>
      cases h
      have hput := mpscSend_ok hput
      cases src <;> cases m <;> cases hop
      exact hput
    | error err =>
      simp only at h
      split at h
      · exact absurd (congrArg Prod.fst h) (Call.unwrap_error _ _ _)
      · cases h

end Tokactor
