import Tokactor.Lib.Cells
import Tokactor.Proof.Anonymous
import Tokactor.Proof.Calm

/-!
# Who gets the actor

Callers that `.await` an address, or `wait_for_completion` on it, put the sender of a
one-shot channel in the mailbox. The context keeps one: a later request replaces it.

* `Awaiters n h`: what the cell of each request holds after the messages `h` were
  handled. It holds in every reachable state of an actor that has not panicked
  (`awaiters_run`).
* `last_awaiter`: the last accepted request of an unsupervised actor gets the actor, and
  every other accepted one is dropped.
-/

namespace Tokactor

open Cells

variable {A M : Type}

/-! ## Requests and their cells -/

/-- The requests among the messages `l`. -/
def awaitIds (l : List (Mail A M)) : List ℕ := l.filterMap fun m => m.body.awaiter

@[simp] theorem awaitIds_nil : awaitIds ([] : List (Mail A M)) = [] := rfl

@[simp] theorem awaitIds_append (l l' : List (Mail A M)) : awaitIds (l ++ l') = awaitIds l ++ awaitIds l' :=
  List.filterMap_append

theorem awaitIds_singleton (m : Mail A M) : awaitIds [m] = m.body.awaiter.toList := by
  unfold awaitIds
  cases h : m.body.awaiter <;> simp [h]

theorem awaitIds_none {l : List (Mail A M)} (h : ∀ m ∈ l, m.body.awaiter = none) : awaitIds l = [] := by
  unfold awaitIds
  rw [List.filterMap_eq_nil_iff]
  exact h

/-- The sender is there. -/
def Await.Held (c : Await A) : Prop := c = .waiting ∨ c = .gone

/-- The sender was dropped. -/
def Await.Lost (c : Await A) : Prop := c = .dropped ∨ c = .gone

/-- The actor `a` was sent. -/
def Await.Got (a : A) (c : Await A) : Prop := c = .sent a ∨ c = .received a ∨ c = .gone

/-- What callers do to their own cells keeps `P`. -/
structure Await.Stable (P : Await A → Prop) : Prop where
  gone : ∀ c, P c → c = .waiting ∨ (∃ a, c = .sent a) ∨ c = .dropped → P .gone
  received : ∀ a, P (.sent a) → P (.received a)

theorem Await.stable_held : Await.Stable (Await.Held : Await A → Prop) :=
  ⟨fun _ _ _ => .inr rfl, fun a h => by rcases h with h | h <;> cases h⟩

theorem Await.stable_lost : Await.Stable (Await.Lost : Await A → Prop) :=
  ⟨fun _ _ _ => .inr rfl, fun a h => by rcases h with h | h <;> cases h⟩

theorem Await.stable_got (a : A) : Await.Stable (Await.Got a) := by
  refine ⟨fun _ _ _ => .inr (.inr rfl), fun b h => ?_⟩
  rcases h with h | h | h <;> cases h
  exact .inr (.inl rfl)

theorem Await.stable_gone : Await.Stable (fun c : Await A => c = .gone) :=
  ⟨fun _ _ _ => rfl, fun a h => by cases h⟩

theorem Await.stable_refused : Await.Stable (fun c : Await A => c = .refused) := by
  refine ⟨fun c hc h => ?_, fun a h => by cases h⟩
  subst hc
  rcases h with h | ⟨a, h⟩ | h <;> cases h

theorem AwaitMoves.keep {P : Await A → Prop} (hP : Await.Stable P) {closed : Bool} {l l' : List (Await A)}
    (h : AwaitMoves closed l l') {w : ℕ} (hw : At l w P) : At l' w P := by
  cases h with
  | same => exact hw
  | refused hc => exact hw.append _
  | received v a hv => exact hw.set hv (hP.received a)
  | gone v c hv hc => exact hw.set hv fun hp => hP.gone c hp hc

/-- A new cell is that of a refused request. -/
theorem AwaitMoves.fresh {closed : Bool} {l l' : List (Await A)} (h : AwaitMoves closed l l') {w : ℕ}
    (hw : w < l'.length) : w < l.length ∨ At l' w (· = .refused) := by
  cases h with
  | same => exact .inl hw
  | refused hc =>
    rw [List.length_append, List.length_singleton] at hw
    rcases Nat.lt_or_eq_of_le (Nat.le_of_lt_succ hw) with hw | rfl
    · exact .inl hw
    · exact .inr (At.concat rfl)
  | received v a hv | gone v c hv hc => rw [List.length_set] at hw; exact .inl hw

/-- The executor is over. -/
def Pc.over : Pc A M → Bool
  | .done | .handed | .reporting => true
  | _ => false

/-- What the cell of the last request handled holds. -/
def Pc.outcome (pc : Pc A M) (a : A) : Await A → Prop :=
  match pc with
  | .done | .handed => Await.Got a
  | .reporting => fun c => c = .gone
  | _ => Await.Held

theorem Pc.outcome_held {pc : Pc A M} (h : pc.over = false) (a : A) : pc.outcome a = Await.Held := by
  unfold Pc.outcome
  cases pc <;> first | rfl | cases h

theorem Pc.stable_outcome (pc : Pc A M) (a : A) : Await.Stable (pc.outcome a) := by
  unfold Pc.outcome
  split
  · exact Await.stable_got a
  · exact Await.stable_got a
  · exact Await.stable_gone
  · exact Await.stable_held

/-- The message whose future the executor awaits. -/
def Pc.inFuture : Pc A M → Option (Mail A M)
  | .future _ m _ | .cancelling _ m => some m
  | _ => none

/-- The messages `h` were handled, and the last request among them is the one that is
stored. -/
structure Awaiters (n : Node A M) (h : List (Mail A M)) : Prop where
  taken : n.mailbox.taken = h ++ n.pc.hand.toList
  nodup : (awaitIds n.mailbox.accepted).Nodup
  refused : ∀ w < n.awaits.length, w ∉ awaitIds n.mailbox.accepted → At n.awaits w (· = .refused)
  queued : ∀ w ∈ awaitIds (n.pc.hand.toList ++ n.mailbox.queue), At n.awaits w Await.Held
  earlier : ∀ w ∈ awaitIds h, (awaitIds h).getLast? ≠ some w → At n.awaits w Await.Lost
  last : ∀ w, (awaitIds h).getLast? = some w → At n.awaits w (n.pc.outcome n.actor)
  sender : n.pc.over = false → n.sender = (awaitIds h).getLast?
  future : ∀ m, n.pc.inFuture = some m → m.body.awaiter = none

section

variable {n n' : Node A M} {h : List (Mail A M)}

theorem Awaiters.accepted (ha : Awaiters n h) :
    awaitIds n.mailbox.accepted = awaitIds h ++ awaitIds (n.pc.hand.toList ++ n.mailbox.queue) := by
  rw [n.mailbox.history, ha.taken]
  simp [List.append_assoc]

/-- Every accepted request has its cell. -/
theorem Awaiters.known (ha : Awaiters n h) {w : ℕ} (hw : w ∈ awaitIds n.mailbox.accepted) :
    w < n.awaits.length := by
  rw [ha.accepted, List.mem_append] at hw
  rcases hw with hw | hw
  · by_cases hl : (awaitIds h).getLast? = some w
    · exact (ha.last w hl).lt
    · exact (ha.earlier w hw hl).lt
  · exact (ha.queued w hw).lt

/-- A step that leaves the requests alone. -/
theorem Awaiters.still (ha : Awaiters n h) (ho : n.pc.over = false) (ho' : n'.pc.over = false)
    (hh : n'.pc.hand = n.pc.hand) (htk : n'.mailbox.taken = n.mailbox.taken)
    (hq : n'.mailbox.queue = n.mailbox.queue) (hac : n'.mailbox.accepted = n.mailbox.accepted)
    (haw : n'.awaits = n.awaits) (hs : n'.sender = n.sender)
    (hf : ∀ m, n'.pc.inFuture = some m → m.body.awaiter = none) : Awaiters n' h where
  taken := by rw [htk, hh, ha.taken]
  nodup := by rw [hac]; exact ha.nodup
  refused := by rw [hac, haw]; exact ha.refused
  queued := by rw [hh, hq, haw]; exact ha.queued
  earlier := by rw [haw]; exact ha.earlier
  last := by
    intro w hw
    have := ha.last w hw
    rw [Pc.outcome_held ho] at this
    rw [haw, Pc.outcome_held ho']
    exact this
  sender _ := by rw [hs]; exact ha.sender ho
  future := hf

/-- A message is taken out of the mailbox. -/
theorem Awaiters.took {m : Mail A M} {c : Chan (Mail A M)} {pc : Pc A M} (ha : Awaiters n h)
    (hp : n.mailbox.pop = some (m, c)) (hpc : n.pc.took m = some pc) :
    Awaiters { n with mailbox := c, pc := pc } h := by
  obtain ⟨hq, -, -, hac, htk⟩ := Chan.pop_cases hp
  obtain ⟨-, -, hh, hh', -, -⟩ := Pc.took_facts hpc n.actor
  have hover : n.pc.over = false ∧ pc.over = false ∧ pc.inFuture = none := by
    unfold Pc.took at hpc
    split at hpc <;> cases hpc <;> rename_i hn <;> rw [hn] <;> exact ⟨rfl, rfl, rfl⟩
  obtain ⟨ho, ho', hf⟩ := hover
  refine ⟨?_, ?_, ?_, ?_, ha.earlier, ?_, fun _ => ha.sender ho, ?_⟩
  · rw [htk, ha.taken, hh, hh']; simp
  · rw [hac]; exact ha.nodup
  · rw [hac]; exact ha.refused
  · intro w hw
    refine ha.queued w ?_
    rw [hh, hq]
    simpa [hh'] using hw
  · intro w hw
    have := ha.last w hw
    rw [Pc.outcome_held ho] at this
    simpa only [Pc.outcome_held ho'] using this
  · intro m' hm
    rw [show ({ n with mailbox := c, pc := pc } : Node A M).pc.inFuture = none from hf] at hm
    cases hm

/-- A message that is no request is handled; the mailbox may accept others like it. -/
theorem Awaiters.handled {n1 : Node A M} {m : Mail A M} {p : Phase} {ms : List (Mail A M)}
    (ha : Awaiters n h) (hh : n.pc.hand = some m) (ho : n.pc.over = false) (hm : m.body.awaiter = none)
    (hg : Chan.Grown ms n.mailbox n1.mailbox) (hms : ∀ m ∈ ms, m.body.awaiter = none)
    (haw : n1.awaits = n.awaits) (hs : n1.sender = n.sender) : Awaiters (n1.handled p) (h ++ [m]) := by
  have hids : awaitIds (h ++ [m]) = awaitIds h := by
    rw [awaitIds_append, awaitIds_singleton, hm]; simp
  have hac : awaitIds n1.mailbox.accepted = awaitIds n.mailbox.accepted := by
    rw [hg.accepted, awaitIds_append, awaitIds_none hms, List.append_nil]
  refine ⟨?_, ?_, ?_, ?_, ?_, ?_, ?_, ?_⟩
  · show n1.mailbox.taken = _
    rw [hg.taken, ha.taken, hh]
    simp [Node.handled, Node.call, Pc.hand]
  · show (awaitIds n1.mailbox.accepted).Nodup
    rw [hac]; exact ha.nodup
  · show ∀ w < n1.awaits.length, w ∉ awaitIds n1.mailbox.accepted → At n1.awaits w _
    rw [hac, haw]; exact ha.refused
  · show ∀ w ∈ awaitIds ([] ++ n1.mailbox.queue), At n1.awaits w _
    rw [haw, hg.queue, List.nil_append, awaitIds_append, awaitIds_none hms, List.append_nil]
    intro w hw
    refine ha.queued w ?_
    rw [awaitIds_append]
    exact List.mem_append_right _ hw
  · show ∀ w ∈ awaitIds (h ++ [m]), _ → At n1.awaits w _
    rw [hids, haw]; exact ha.earlier
  · show ∀ w, (awaitIds (h ++ [m])).getLast? = some w → At n1.awaits w Await.Held
    rw [hids, haw]
    intro w hw
    have := ha.last w hw
    rwa [Pc.outcome_held ho] at this
  · intro _
    show n1.sender = _
    rw [hs, hids, ha.sender ho]
  · intro m' hm'; cases hm'

theorem storeSender_length (n : Node A M) (w : ℕ) : (n.storeSender w).awaits.length = n.awaits.length := by
  unfold Node.storeSender
  cases n.sender <;> simp

theorem storeSender_other {w v : ℕ} {P : Await A → Prop} (hv : n.sender ≠ some v) (hc : At n.awaits v P) :
    At (n.storeSender w).awaits v P := by
  unfold Node.storeSender
  cases hs : n.sender with
  | none => exact hc
  | some u => exact hc.modify_ne _ fun hu => hv (by rw [hs, hu])

theorem storeSender_old {w v : ℕ} (hv : n.sender = some v) (hc : At n.awaits v Await.Held) :
    At (n.storeSender w).awaits v Await.Lost := by
  unfold Node.storeSender
  rw [hv]
  refine hc.modify_eq _ fun c hc => ?_
  rcases hc with rfl | rfl
  · exact .inl rfl
  · exact .inr rfl

/-- A request is handled: its sender is stored, and the one stored before is dropped. -/
theorem Awaiters.await {m : Mail A M} {p : Phase} {stopNow : Bool} {w : ℕ} (ha : Awaiters n h)
    (hpc : n.pc = .handle p m) (hb : m.body = .await stopNow w) :
    Awaiters ((if stopNow then n.subscribeAndStop w else n.subscribeAndWait w).handled p) (h ++ [m]) := by
  obtain ⟨st, heq, -⟩ := Node.subscribe_eq n stopNow w
  rw [heq]
  have hm : m.body.awaiter = some w := by rw [hb]; rfl
  have hh : n.pc.hand = some m := by rw [hpc]; rfl
  have ho : n.pc.over = false := by rw [hpc]; rfl
  have hids : awaitIds (h ++ [m]) = awaitIds h ++ [w] := by
    rw [awaitIds_append, awaitIds_singleton, hm]; rfl
  have hlast : (awaitIds (h ++ [m])).getLast? = some w := by
    rw [hids, List.getLast?_append]; rfl
  have hsender := ha.sender ho
  -- the requests before `w`, `w`, and those still queued are different ones
  have hqueue : awaitIds (n.pc.hand.toList ++ n.mailbox.queue) = w :: awaitIds n.mailbox.queue := by
    rw [hh, awaitIds_append]
    simp [awaitIds_singleton, hm]
  have hnd := ha.nodup
  rw [ha.accepted, hqueue, List.nodup_append] at hnd
  obtain ⟨-, hnd, hdis⟩ := hnd
  have hheld : At n.awaits w Await.Held := ha.queued w (by rw [hqueue]; exact List.mem_cons_self)
  have hother : ∀ v, v ∈ w :: awaitIds n.mailbox.queue → n.sender ≠ some v := by
    intro v hv hs
    rw [hsender] at hs
    exact hdis v (List.mem_of_getLast? hs) v hv rfl
  refine ⟨?_, ha.nodup, ?_, ?_, ?_, ?_, fun _ => hlast.symm, fun m' hm' => by cases hm'⟩
  · show n.mailbox.taken = _
    rw [ha.taken, hh]
    simp [Node.handled, Node.call, Pc.hand]
  · show ∀ v < (n.storeSender w).awaits.length, v ∉ awaitIds n.mailbox.accepted → At (n.storeSender w).awaits v _
    intro v hv hna
    rw [storeSender_length] at hv
    refine storeSender_other (fun hs => hna ?_) (ha.refused v hv hna)
    rw [hsender] at hs
    rw [ha.accepted]
    exact List.mem_append_left _ (List.mem_of_getLast? hs)
  · show ∀ v ∈ awaitIds ([] ++ n.mailbox.queue), At (n.storeSender w).awaits v _
    intro v hv
    rw [List.nil_append] at hv
    have hv' : v ∈ w :: awaitIds n.mailbox.queue := List.mem_cons_of_mem _ hv
    exact storeSender_other (hother v hv') (ha.queued v (by rw [hqueue]; exact hv'))
  · show ∀ v ∈ awaitIds (h ++ [m]), _ → At (n.storeSender w).awaits v _
    intro v hv hne
    rw [hlast] at hne
    rw [hids, List.mem_append, List.mem_singleton] at hv
    rcases hv with hv | rfl
    · by_cases hold : n.sender = some v
      · have hc := ha.last v (hsender ▸ hold)
        rw [Pc.outcome_held ho] at hc
        exact storeSender_old hold hc
      · exact storeSender_other hold (ha.earlier v hv (hsender ▸ hold))
    · exact absurd rfl hne
  · show ∀ v, (awaitIds (h ++ [m])).getLast? = some v → At (n.storeSender w).awaits v Await.Held
    intro v hv
    rw [hlast] at hv
    cases hv
    exact storeSender_other (hother w List.mem_cons_self) hheld

/-- The executor is over; only the cell of the stored sender changes. -/
theorem Awaiters.over (ha : Awaiters n h) (hpc : n.pc = .returned) (hmb : n'.mailbox = n.mailbox)
    (ho : n'.pc.over = true) (hlen : n'.awaits.length = n.awaits.length)
    (hother : ∀ v P, n.sender ≠ some v → At n.awaits v P → At n'.awaits v P)
    (hlast : ∀ v, n.sender = some v → At n.awaits v Await.Held → At n'.awaits v (n'.pc.outcome n'.actor)) :
    Awaiters n' h := by
  have hno : n'.pc.hand = none ∧ n'.pc.inFuture = none := by
    cases hpc' : n'.pc <;> rw [hpc'] at ho <;> first | exact ⟨rfl, rfl⟩ | cases ho
  have hs : n.sender = (awaitIds h).getLast? := ha.sender (by rw [hpc]; rfl)
  have hh : n.pc.hand = none := by rw [hpc]; rfl
  refine ⟨?_, ?_, ?_, ?_, ?_, ?_, fun h => (by rw [ho] at h; cases h), fun m hm => ?_⟩
  · rw [hmb, hno.1, ha.taken, hh]
  · rw [hmb]; exact ha.nodup
  · rw [hmb, hlen]
    intro v hv hna
    refine hother v _ (fun hsv => hna ?_) (ha.refused v hv hna)
    rw [hs] at hsv
    rw [ha.accepted]
    exact List.mem_append_left _ (List.mem_of_getLast? hsv)
  · rw [hmb, hno.1]
    intro v hv
    rw [← hh] at hv
    -- the sender that is stored is that of a message handled
    refine hother v _ (fun hsv => ?_) (ha.queued v hv)
    have hnd := ha.nodup
    rw [ha.accepted, List.nodup_append] at hnd
    rw [hs] at hsv
    exact hnd.2.2 v (List.mem_of_getLast? hsv) v hv rfl
  · intro v hv hne
    exact hother v _ (by rw [hs]; exact hne) (ha.earlier v hv hne)
  · intro v hv
    have hc := ha.last v hv
    rw [Pc.outcome_held (by rw [hpc]; rfl)] at hc
    exact hlast v (by rw [hs]; exact hv) hc
  · rw [hno.2] at hm; cases hm

theorem Await.send_got {a : A} {c : Await A} (h : c.Held) : (c.send a).Got a := by
  rcases h with rfl | rfl
  · exact .inl rfl
  · exact .inr (.inr rfl)

/-- The stored sender sends the actor. -/
theorem Awaiters.finish (ha : Awaiters n h) (hpc : n.pc = .returned) : Awaiters n.finish h := by
  unfold Node.finish
  cases hsup : n.cfg.supervised with
  | false =>
    cases hs : n.sender with
    | none => exact ha.over hpc rfl rfl rfl (fun v P _ hc => hc) fun v hv => by rw [hs] at hv; cases hv
    | some w =>
      refine ha.over hpc rfl rfl (by simp) (fun v P hv hc => ?_) fun v hv hc => ?_
      · exact hc.modify_ne _ fun hwv => hv (by rw [hs, hwv])
      · rw [hs] at hv
        cases hv
        exact hc.modify_eq _ fun c hc => Await.send_got hc
  | true =>
    cases hs : n.sender with
    | none => exact ha.over hpc rfl rfl rfl (fun v P _ hc => hc) fun v hv => by rw [hs] at hv; cases hv
    | some w =>
      have hheld : At n.awaits w Await.Held := by
        have hc := ha.last w ((ha.sender (by rw [hpc]; rfl)) ▸ hs)
        rwa [Pc.outcome_held (by rw [hpc]; rfl)] at hc
      obtain ⟨c, hc, rfl | rfl⟩ := hheld
      · -- its awaiter takes the actor
        simp only [hc, if_true]
        refine ha.over hpc rfl rfl (by simp) (fun v P hv hc => ?_) fun v hv hc => ?_
        · exact hc.modify_ne _ fun hwv => hv (by rw [hs, hwv])
        · rw [hs] at hv
          cases hv
          exact hc.modify_eq _ fun c hc => Await.send_got hc
      · -- or is gone, and the actor goes to the supervisor
        simp only [hc, if_true]
        refine ha.over hpc rfl rfl rfl (fun v P _ hc => hc) fun v hv _ => ?_
        rw [hs] at hv
        cases hv
        exact ⟨_, hc, rfl⟩

/-- Steps of others: the mailbox may accept messages that are no requests, and callers
move their cells. -/
theorem Awaiters.outside {ms : List (Mail A M)} (ha : Awaiters n h) (ho : Node.Outside ms n n')
    (hms : ∀ m ∈ ms, m.body.awaiter = none) (hw : AwaitMoves n.mailbox.closed n.awaits n'.awaits) :
    Awaiters n' h := by
  have hac : awaitIds n'.mailbox.accepted = awaitIds n.mailbox.accepted := by
    rw [ho.mailbox.accepted, awaitIds_append, awaitIds_none hms, List.append_nil]
  refine ⟨?_, ?_, ?_, ?_, ?_, ?_, ?_, ?_⟩
  · rw [ho.mailbox.taken, ho.pc, ha.taken]
  · rw [hac]; exact ha.nodup
  · rw [hac]
    intro v hv hna
    by_cases hlt : v < n.awaits.length
    · exact hw.keep Await.stable_refused (ha.refused v hlt hna)
    · exact (hw.fresh hv).resolve_left hlt
  · rw [ho.pc, ho.mailbox.queue]
    intro v hv
    refine hw.keep Await.stable_held (ha.queued v ?_)
    simpa [awaitIds_none hms] using hv
  · intro v hv hne
    exact hw.keep Await.stable_lost (ha.earlier v hv hne)
  · rw [ho.pc, ho.actor]
    intro v hv
    exact hw.keep (Pc.stable_outcome _ _) (ha.last v hv)
  · rw [ho.pc, ho.sender]
    exact ha.sender
  · rw [ho.pc]; exact ha.future

/-- A request is accepted. -/
theorem Awaiters.request {stopNow : Bool} (ha : Awaiters n h)
    (ho : Node.Outside [⟨none, .await stopNow n.awaits.length⟩] n n') (hw : n'.awaits = n.awaits ++ [.waiting]) :
    Awaiters n' h := by
  have hids : awaitIds [(⟨none, .await stopNow n.awaits.length⟩ : Mail A M)] = [n.awaits.length] := rfl
  have hac : awaitIds n'.mailbox.accepted = awaitIds n.mailbox.accepted ++ [n.awaits.length] := by
    rw [ho.mailbox.accepted, awaitIds_append, hids]
  refine ⟨?_, ?_, ?_, ?_, ?_, ?_, ?_, ?_⟩
  · rw [ho.mailbox.taken, ho.pc, ha.taken]
  · rw [hac, List.nodup_append]
    refine ⟨ha.nodup, by simp, fun v hv u hu => ?_⟩
    have := ha.known hv
    rw [List.mem_singleton] at hu
    omega
  · rw [hac, hw]
    intro v hv hna
    rw [List.mem_append, List.mem_singleton, not_or] at hna
    rw [List.length_append, List.length_singleton] at hv
    exact (ha.refused v (by omega) hna.1).append _
  · rw [ho.pc, ho.mailbox.queue, ← List.append_assoc, awaitIds_append, hids, hw]
    intro v hv
    rw [List.mem_append, List.mem_singleton] at hv
    rcases hv with hv | rfl
    · exact (ha.queued v hv).append _
    · -- the new one waits
      exact At.concat (.inl rfl)
  · rw [hw]
    intro v hv hne
    exact (ha.earlier v hv hne).append _
  · rw [hw, ho.pc, ho.actor]
    intro v hv
    exact (ha.last v hv).append _
  · rw [ho.pc, ho.sender]
    exact ha.sender
  · rw [ho.pc]; exact ha.future

end

/-! ## Every reachable state -/

/-- The executor has panicked, or the requests are in order. -/
def AwaitersOK (n : Node A M) : Prop := n.pc.stage = .failed ∨ ∃ h, Awaiters n h

theorem dropMail_awaits (n : Node A M) {m : Mail A M} (hm : m.body.awaiter = none) :
    ∃ ak, n.dropMail m = { n with asks := ak } := by
  unfold Node.dropMail
  split
  · rename_i hb; rw [hb] at hm; cases hm
  · exact ⟨_, rfl⟩
  · exact ⟨_, rfl⟩
  · exact ⟨n.asks, rfl⟩

theorem Body.awaiter_of_asker {b : Body A M} {k : ℕ} (h : b.asker = some k) : b.awaiter = none := by
  cases b <;> first | rfl | cases h

theorem awaiters_exec {n n' : Node A M} {x : Act A M} {h : List (Mail A M)} (ha : Awaiters n h)
    (hx : Node.Exec n x n') (hf : n'.pc.stage ≠ .failed) : ∃ h', Awaiters n' h' := by
  cases hx with
  | op o ho' hu ho =>
    have hk := Node.ctxOp_kept ho
    have hover : n.pc.over = false := by
      cases hpc : n.pc <;> rw [hpc] at hu <;> first | rfl | cases hu
    exact ⟨h, ha.still hover (by rw [hk.pc]; exact hover) (by rw [hk.pc]) hk.taken hk.queue hk.accepted hk.awaits
      hk.sender (by rw [hk.pc]; exact ha.future)⟩
  | unwind c hc => exact absurd rfl hf
  | onStart a hpc =>
    refine ⟨h, ha.still (by rw [hpc]; rfl) ?_ ?_ rfl rfl rfl rfl rfl ?_⟩ <;> unfold Node.mainLoop <;>
      cases n.cfg.supervised <;> simp [hpc, Pc.over, Pc.hand, Pc.inFuture]
  | took m c pc hp hpc => exact ⟨h, ha.took hp hpc⟩
  | leaveLoop hpc =>
    rcases hpc with hpc | hpc <;>
      exact ⟨h, ha.still (by rw [hpc]; rfl) rfl (by rw [hpc]; rfl) rfl rfl rfl rfl rfl (by intro m hm; cases hm)⟩
  | check hand hpc =>
    refine ⟨h, ha.still (by rw [hpc]; rfl) ?_ ?_ ?_ ?_ ?_ ?_ ?_ ?_⟩ <;> unfold Node.checkStep <;> split <;>
      cases hand <;> simp [hpc, Pc.over, Pc.hand, Pc.inFuture, Node.passCheck]
  | acquired hand k rest hpc hk =>
    refine ⟨h, ha.still (by rw [hpc]; rfl) ?_ ?_ ?_ ?_ ?_ ?_ ?_ ?_⟩ <;>
      cases hand <;> simp [hpc, Pc.over, Pc.hand, Pc.inFuture, Node.passCheck]
  | handled p m a hpc hb =>
    have hm : m.body.awaiter = none := by
      cases hbody : m.body <;> first | rfl | exact absurd hbody (hb _ _)
    exact ⟨_, ha.handled (by rw [hpc]; rfl) (by rw [hpc]; rfl) hm (.refl _) (by simp) rfl rfl⟩
  | answered p m a k r hpc hb hr =>
    refine ⟨_, ha.handled ?_ ?_ (Body.awaiter_of_asker hb) (.refl _) (by simp) rfl rfl⟩ <;>
      rcases hpc with hpc | ⟨_, hpc⟩ <;> rw [hpc] <;> rfl
  | task p m a k h' hx hpc hb =>
    obtain ⟨q, o, t, heq⟩ := Node.anonymous_eq { n with actor := a } (.reply k h')
    unfold Node.replyTask
    rw [heq]
    exact ⟨_, ha.handled (by rw [hpc]; rfl) (by rw [hpc]; rfl) (Body.awaiter_of_asker hb) (.refl _) (by simp)
      rfl rfl⟩
  | future p m a k hpc hb =>
    refine ⟨h, ha.still (by rw [hpc]; rfl) rfl (by rw [hpc]; rfl) rfl rfl rfl rfl rfl fun m' hm' => ?_⟩
    cases hm'
    exact Body.awaiter_of_asker hb
  | await p m stopNow w hpc hb => exact ⟨_, ha.await hpc hb⟩
  | changed p m seen hpc hs =>
    exact ⟨h, ha.still (by rw [hpc]; rfl) rfl (by rw [hpc]; rfl) rfl rfl rfl rfl rfl fun m' hm' => 
      ha.future m' (by rw [hpc]; exact hm')⟩
  | cancelClosed p m hpc hc =>
    have hm := ha.future m (by rw [hpc]; rfl)
    obtain ⟨ak, heq⟩ := dropMail_awaits n hm
    rw [heq]
    exact ⟨_, ha.handled (by rw [hpc]; rfl) (by rw [hpc]; rfl) hm (.refl _) (by simp) rfl rfl⟩
  | cancelSent p m c hpc hc =>
    have hm := ha.future m (by rw [hpc]; rfl)
    obtain ⟨ak, heq⟩ := dropMail_awaits { n with mailbox := c } hm
    rw [heq]
    exact ⟨_, ha.handled (by rw [hpc]; rfl) (by rw [hpc]; rfl) hm (.of_push hc) (by simp [Body.awaiter]) rfl rfl⟩
  | finish hpc => exact ⟨h, ha.finish hpc⟩
  | postRun p a hpc =>
    refine ⟨h, ha.still (by rw [hpc]; rfl) ?_ ?_ ?_ ?_ ?_ ?_ ?_ ?_⟩ <;> cases p <;> simp only [Node.processed] <;>
      (try split) <;> (try unfold Node.mainLoop) <;> (try cases n.cfg.supervised) <;>
      simp [hpc, Pc.over, Pc.hand, Pc.inFuture, Node.shutdownStart, Node.call]
  | stoppingDone hgo hpc hc =>
    rcases hpc with hpc | hpc <;>
      exact ⟨h, ha.still (by rw [hpc]; rfl) rfl (by rw [hpc]; rfl) rfl rfl rfl rfl rfl (by intro m hm; cases hm)⟩
  | process p m hpc | preRun p m a hpc | onStopping a hpc | children hpc hc | notify hpc | again t hpc
  | stay hpc hc | onStopped a hpc | assertClosed hpc hc | drained hpc hq | onEnd a hpc =>
    exact ⟨h, ha.still (by rw [hpc]; rfl) rfl (by rw [hpc]; rfl) rfl rfl rfl rfl rfl (by intro m hm; cases hm)⟩

theorem awaiters_tasked {n n' : Node A M} {k : ℕ} {l : TaskLabel A M} {s : Slot A M} {t : Task A M}
    {e : Eff A M} (hp : ∀ s ∈ n.tasks, s.Plain) (ha : AwaitersOK n) (h : Node.Tasked n k l n' s t e) :
    AwaitersOK n' := by
  rcases ha with hf | ⟨hd, ha⟩
  · exact .inl (by rw [h.outside.pc]; exact hf)
  refine .inr ⟨hd, ha.outside h.outside ?_ (by rw [h.awaits]; exact .same)⟩
  intro m hm
  simp only [List.mem_map, Option.mem_toList] at hm
  obtain ⟨b, hb, rfl⟩ := hm
  exact (h.moves.push (hp s (List.mem_of_getElem? h.slot)) hb).1

theorem awaiters_step {n n' : Node A M} {l : Label A M} (hp : ∀ s ∈ n.tasks, s.Plain) (ha : AwaitersOK n)
    (h : n.step l = some n') : AwaitersOK n' := by
  cases Node.step_rule h with
  | exec x hx =>
    rcases ha with hf | ⟨hd, ha⟩
    · exact (exec_failed hx hf).elim
    · by_cases hf : n'.pc.stage = .failed
      · exact .inl hf
      · exact .inr (awaiters_exec ha hx hf)
  | task k tl s t e hb ht => exact awaiters_tasked hp ha ht
  | join i h' n₁ l hj =>
    obtain ⟨s, t, e, ht⟩ := Node.taskStep_cases hj.join
    rcases hj.taken with rfl | h1
    · exact awaiters_tasked hp ha ht
    · obtain ⟨s', t', e', ht'⟩ := Node.taskStep_cases h1
      -- taking the output of a handle keeps the tasks plain
      have hp₁ : ∀ s ∈ n₁.tasks, s.Plain :=
        ht'.slots hp (ht'.moves.plain (hp s' (List.mem_of_getElem? ht'.slot)))
      exact awaiters_tasked hp₁ (awaiters_tasked hp ha ht') ht
  | send r b hr hs =>
    rcases ha with hf | ⟨hd, ha⟩
    · exact .inl (by rw [hr.outside.pc]; exact hf)
    rcases hs.awaits with ⟨hw, hu⟩ | ⟨stopNow, rfl, hw⟩
    · refine .inr ⟨hd, ha.outside hr.outside (fun m hm => ?_) (by rw [hw]; exact .same)⟩
      rw [List.mem_singleton] at hm
      subst hm
      cases b <;> first | rfl | cases hu
    · exact .inr ⟨hd, ha.request hr.outside hw⟩
  | quiet l hr hw _ =>
    rcases ha with hf | ⟨hd, ha⟩
    · exact .inl (by rw [hr.outside.pc]; exact hf)
    · exact .inr ⟨hd, ha.outside hr.outside (by simp) hw⟩

/-- **In every reachable state the requests are in order**, or the executor has panicked. -/
theorem awaiters_run {cfg : Config} {a : A} {ls : List (Label A M)} {n : Node A M}
    (hr : Lts.run Node.step (Node.init cfg a) ls = some n) : AwaitersOK n := by
  have hinit : Awaiters (Node.init cfg a : Node A M) [] := by
    refine ⟨rfl, List.nodup_nil, ?_, ?_, ?_, ?_, fun _ => rfl, ?_⟩
    · intro w hw
      exact absurd hw (Nat.not_lt_zero w)
    all_goals intro w hw; cases hw
  have hstep : ∀ (n : Node A M) l n', ((∀ s ∈ n.tasks, s.Plain) ∧ AwaitersOK n) → n.step l = some n' →
      (∀ s ∈ n'.tasks, s.Plain) ∧ AwaitersOK n' :=
    fun n l n' hi h => ⟨plain_step hi.1 h, awaiters_step hi.1 hi.2 h⟩
  exact (Lts.run_inv hstep ⟨plain_init cfg a, .inr ⟨[], hinit⟩⟩ hr).2

/-! ## Unsupervised actors -/

/-- Where an unsupervised actor gets to when the assertion holds. -/
def Pc.solo : Pc A M → Bool
  | .select | .check none | .acquire none _ _ | .handed | .reporting => false
  | .panicked .supervisor | .panicked .assertion => false
  | _ => true

theorem solo_exec {n n' : Node A M} {x : Act A M} (hc : n.cfg.supervised = false) (hs : n.pc.solo = true)
    (hA : AssertionHolds n (.exec x)) (hx : Node.Exec n x n') : n'.pc.solo = true := by
  have hloop : ∀ n : Node A M, n.cfg.supervised = false → n.mainLoop.pc.solo = true := by
    intro n hc
    unfold Node.mainLoop
    rw [hc]
    rfl
  cases hx with
  | op o ho' hu ho => rw [(Node.ctxOp_kept ho).pc]; exact hs
  | unwind c h =>
    obtain ⟨aw, ak, heq⟩ := Node.unwind_eq n c
    rw [heq]
    cases c with
    | callback | timeout => rfl
    -- the assertion holds, and nobody supervises the actor
    | assertion =>
      have hcl := hA rfl (by rw [h.2.1]; rfl)
      rw [h.2.2] at hcl
      cases hcl
    | supervisor =>
      rw [h.2] at hs
      cases hs
  | onStart a hpc => exact hloop _ hc
  | took m c pc hp hpc =>
    unfold Pc.took at hpc
    split at hpc <;> cases hpc <;> rfl
  | check hand hpc =>
    rw [hpc] at hs
    unfold Node.checkStep
    cases hand with
    | none => cases hs
    | some m => split <;> rfl
  | acquired hand k rest hpc hk =>
    rw [hpc] at hs
    cases hand with
    | none => cases hs
    | some m => rfl
  | postRun p a hpc =>
    cases p with
    | main =>
      simp only [Node.processed]
      split
      · exact hloop _ hc
      · rfl
    | stopping | stopped => rfl
  | finish hpc =>
    unfold Node.finish
    rw [hc]
    rfl
  | _ => rfl

theorem solo_run {cfg : Config} {a : A} {ls : List (Label A M)} {n : Node A M}
    (hc : cfg.supervised = false) (hA : Lts.Along Node.step AssertionHolds (Node.init cfg a) ls)
    (hr : Lts.run Node.step (Node.init cfg a) ls = some n) : n.pc.solo = true := by
  have hstep : ∀ (n : Node A M) l n', (n.cfg.supervised = false ∧ n.pc.solo = true) → AssertionHolds n l →
      n.step l = some n' → n'.cfg.supervised = false ∧ n'.pc.solo = true := by
    intro n l n' ⟨hc, hs⟩ hA h
    rcases Node.step_outside h with ⟨x, rfl, hx⟩ | ⟨ms, ho⟩
    · exact ⟨by rw [Node.exec_cfg hx]; exact hc, solo_exec hc hs hA hx⟩
    · exact ⟨by rw [ho.cfg]; exact hc, by rw [ho.pc]; exact hs⟩
  exact (Lts.run_along hstep ⟨hc, rfl⟩ hA hr).2

/-- What the request `w` resolves to: the last accepted one to the actor, the other
accepted ones to a dropped sender. -/
def Node.fate (n : Node A M) (w : ℕ) : Except IntoFutureError A :=
  if (awaitIds n.mailbox.accepted).getLast? = some w then .ok n.actor
  else if w ∈ awaitIds n.mailbox.accepted then .error .paniced
  else .error .mailboxClosed

/-- Every request is resolved, unless its caller has dropped its future, and the actor is
the one that `on_end` has left. -/
structure AwaitsSettled (n : Node A M) : Prop where
  nodup : (awaitIds n.mailbox.accepted).Nodup
  ended : ∃ tr, n.trace = tr ++ [.onEnd, .ended n.actor]
  cells : ∀ w < n.awaits.length, At n.awaits w fun c => c = .gone ∨ c.result = some (n.fate w)

theorem Awaiters.settled {n : Node A M} {h : List (Mail A M)} (ha : Awaiters n h) (hpc : n.pc = .done)
    (hq : n.mailbox.queue = []) {w : ℕ} (hw : w < n.awaits.length) :
    At n.awaits w fun c => c = .gone ∨ c.result = some (n.fate w) := by
  have hac : awaitIds n.mailbox.accepted = awaitIds h := by
    rw [ha.accepted, hq, hpc]
    simp [Pc.hand]
  unfold Node.fate
  rw [hac]
  by_cases hl : (awaitIds h).getLast? = some w
  · rw [if_pos hl]
    have hc := ha.last w hl
    rw [hpc] at hc
    refine hc.mono fun c hc => ?_
    rcases hc with rfl | rfl | rfl
    · exact .inr rfl
    · exact .inr rfl
    · exact .inl rfl
  rw [if_neg hl]
  by_cases hm : w ∈ awaitIds h
  · rw [if_pos hm]
    refine (ha.earlier w hm hl).mono fun c hc => ?_
    rcases hc with rfl | rfl
    · exact .inr rfl
    · exact .inl rfl
  · rw [if_neg hm]
    refine (ha.refused w hw (by rw [hac]; exact hm)).mono fun c hc => ?_
    subst hc
    exact .inr rfl

/-- **The last accepted awaiter of an unsupervised actor gets it, and only that one.** In
every run in which the assertion of `stop` holds when it is evaluated: once the executor
has ended other than by a panic of a callback or of the timeout, every request is
settled. -/
theorem last_awaiter {cfg : Config} {a : A} {ls : List (Label A M)} {n : Node A M}
    (hc : cfg.supervised = false) (hA : Lts.Along Node.step AssertionHolds (Node.init cfg a) ls)
    (hr : Lts.run Node.step (Node.init cfg a) ls = some n)
    (hend : n.pc = .done ∨ ∃ c, n.pc = .panicked c ∧ c ≠ .callback ∧ c ≠ .timeout) : AwaitsSettled n := by
  have hs := solo_run hc hA hr
  have hpc : n.pc = .done := by
    rcases hend with hpc | ⟨c, hpc, h1, h2⟩
    · exact hpc
    · rw [hpc] at hs
      cases c <;> simp_all [Pc.solo]
  have hst : n.pc.stage = .ended := by rw [hpc]; rfl
  obtain ⟨h, ha⟩ := (awaiters_run hr).resolve_left (by rw [hst]; decide)
  obtain ⟨h', hl⟩ := (life_run hr).resolve_left (by rw [hst]; decide)
  exact ⟨ha.nodup, hl.ended hst (by rw [hpc]; rfl), fun w hw => ha.settled hpc (hl.empty hst) hw⟩

/-- Two requests are accepted, and a third one is made when the mailbox is closed. -/
def threeAwaitersRun : List (Label Unit ℕ) :=
  [.exec (.ret ()), .send (.await false), .send (.await true), .exec .recv, .exec .go, .exec .go, .exec (.ret ()),
    .exec .go, .exec (.ret ()), .exec .recv, .exec .go, .exec .go, .exec (.ret ()), .exec .go, .exec (.ret ()),
    .exec (.ret ()), .exec .go, .refuse, .exec (.ret ()), .exec .go, .exec .none, .exec (.ret ()), .exec .go]

theorem last_awaiter_threeAwaitersRun :
    ∃ n : Node Unit ℕ, Lts.run Node.step (Node.init ⟨4, 1, false, []⟩ ()) threeAwaitersRun = some n ∧
      n.awaits = [.dropped, .sent (), .refused] ∧ AwaitsSettled n := by
  have hr : ∃ n : Node Unit ℕ,
      Lts.run Node.step (Node.init ⟨4, 1, false, []⟩ ()) threeAwaitersRun = some n ∧
        n.awaits = [.dropped, .sent (), .refused] ∧ n.pc = .done := ⟨_, rfl, rfl, rfl⟩
  obtain ⟨n, hr, haw, hpc⟩ := hr
  exact ⟨n, hr, haw, last_awaiter rfl (by decide) hr (.inl hpc)⟩

/-- An actor is awaited, and its `on_stopped` starts an anonymous task. -/
def assertionRun : List (Label Unit ℕ) :=
  [.exec (.ret ()), .send (.await true), .exec .recv, .exec .go, .exec .go, .exec (.ret ()), .exec .go,
    .exec (.ret ()), .exec (.ret ()), .exec .go, .exec (.op .anonymousTask), .exec (.ret ()), .exec .go]

/-- **The only awaiter can lose the actor** to the assertion of `stop`. -/
theorem awaiter_loses_actor :
    ∃ n : Node Unit ℕ, Lts.run Node.step (Node.init ⟨4, 1, false, []⟩ ()) assertionRun = some n ∧
      n.pc = .panicked .assertion ∧ awaitIds n.mailbox.accepted = [0] ∧ n.awaits = [.dropped] ∧
      ¬ AwaitsSettled n := by
  refine ⟨_, rfl, rfl, rfl, rfl, fun h => ?_⟩
  obtain ⟨c, hc, hres⟩ := h.cells 0 (by decide)
  cases hc
  rcases hres with hres | hres <;> cases hres

end Tokactor
