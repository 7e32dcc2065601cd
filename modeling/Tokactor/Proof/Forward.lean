import Mathlib.Data.List.Forall2
import Tokactor.Proof.Calm

/-!
# Forwarders of `CtxBuilder` addresses

A forwarder moves what its address accepted into the mailbox of the actor, one message
at a time. On `Shutdown` it leaves its loop, and what is queued is dropped with it.

* `Fwd.Forwards`: what the forwarder has taken is what it has sent, and the message at
  hand; and it leaves its loop with an empty queue.
* `all_forwarded`: if every forwarder is shut down with an empty queue, no address accepts
  anything after that, and the actor does not die, all accepted messages are handled.
* `queue_dropped`: otherwise they can be lost.
-/

namespace Tokactor

open List (Forall₂)

variable {A M : Type}

/-- The forwarder is in its loop. -/
def Fwd.looping (f : Fwd M) : Bool :=
  match f.pc with
  | .select | .sending _ | .asking _ => true
  | _ => false

/-- The message the forwarder holds. -/
def Fwd.hand (f : Fwd M) : Option M :=
  match f.pc with
  | .sending m => some m
  | _ => none

/-- `b` is what the forwarder sends for `m`. -/
def FwdKind.Carries (kind : FwdKind) (m : M) (b : Body A M) : Prop := ∃ k, b = kind.body m k

/-- The step is not a `Shutdown` of a forwarder that has messages queued, and no message
is accepted by a forwarder that has left its loop. -/
def Node.emptied (n : Node A M) : Label A M → Bool
  | .task k (.fwd .shutdown) =>
    match n.tasks[k]?.map Slot.task with
    | some (.fwd f) => f.chan.queue.isEmpty
    | _ => true
  | .task k (.fwd (.push _)) =>
    match n.tasks[k]?.map Slot.task with
    | some (.fwd f) => f.looping
    | _ => true
  | _ => true

def Emptied (n : Node A M) (l : Label A M) : Prop := n.emptied l = true

instance (n : Node A M) (l : Label A M) : Decidable (Emptied n l) := inferInstanceAs (Decidable (_ = _))

/-- The forwarder has sent what it has taken, up to the message at hand, and has not left
its loop with messages queued. -/
structure Fwd.Forwards (f : Fwd M) (out : List (Body A M)) : Prop where
  taken : ∃ sent, f.chan.taken = sent ++ f.hand.toList ∧ Forall₂ f.kind.Carries sent out
  queue : f.looping = false → f.chan.queue = []

theorem Forall₂.concat {α β : Type} {R : α → β → Prop} {l : List α} {l' : List β} {a : α} {b : β}
    (h : Forall₂ R l l') (hab : R a b) : Forall₂ R (l ++ [a]) (l' ++ [b]) :=
  List.rel_append h (.cons hab .nil)

/-- **One step of a forwarder**, while the mailbox is open and the notifier alive. -/
theorem Fwd.Moves.forwards {v : View} {f f' : Fwd M} {l : FwdLabel M} {e : Eff A M} {out : List (Body A M)}
    (h : f.Moves v l f' e) (hf : f.Forwards out) (hc : f.rx = true → v.closed = false ∧ v.dropped = false)
    (hs : l = .shutdown → f.chan.queue = []) (hp : ∀ m, l = .push m → f.looping = true) :
    f'.Forwards (out ++ e.push.toList) := by
  obtain ⟨sent, htaken, hall⟩ := hf.taken
  -- while the forwarder has a receiver, the mailbox takes what it sends
  have hopen : ∀ {P : Prop}, f.rx = true → v.closed = true ∨ v.dropped = true → P := by
    intro P hrx hcl
    obtain ⟨h1, h2⟩ := hc hrx
    rw [h1, h2] at hcl
    rcases hcl with h | h <;> cases h
  cases h with
  | push m c h =>
    obtain ⟨-, -, -, -, hq, hac, htk⟩ := Chan.push_cases h
    rw [show ({} : Eff A M).push.toList = [] from rfl, List.append_nil]
    refine ⟨⟨sent, by rw [htk, htaken]; rfl, hall⟩, fun hl => ?_⟩
    rw [show f.looping = false from hl] at hp
    cases hp m rfl
  | recv m c h hpop =>
    obtain ⟨hq, -, -, -, htk⟩ := Chan.pop_cases hpop
    have hhand : f.hand = Option.none := by rw [Fwd.hand, h]
    rw [show ({} : Eff A M).push.toList = [] from rfl, List.append_nil]
    refine ⟨⟨sent, ?_, hall⟩, fun hl => by cases hl⟩
    rw [htk, htaken, hhand]
    simp [Fwd.hand]
  | send m h =>
    -- the message at hand is out
    have hhand : f.hand = some m := by rw [Fwd.hand, h]
    refine ⟨⟨sent ++ [m], ?_, Forall₂.concat hall ⟨_, rfl⟩⟩, fun hl => ?_⟩
    · show f.chan.taken = _
      rw [htaken, hhand]
      cases hk : f.kind.isAsk <;> simp [Fwd.hand]
    · cases hk : f.kind.isAsk <;> simp [Fwd.looping, hk] at hl
  | lost m h hcl hk | refused m h hcl hk => exact hopen (by simp [Fwd.rx, h]) (.inl hcl)
  | died h hd => exact hopen (by simp [Fwd.rx, h]) (.inr hd)
  | none h hq =>
    have hhand : f.hand = Option.none := by rw [Fwd.hand, h]
    rw [show ({} : Eff A M).push.toList = [] from rfl, List.append_nil]
    exact ⟨⟨sent, by rw [Chan.close_taken, htaken, hhand]; rfl, hall⟩, fun _ => hq⟩
  | shutdown h hv =>
    have hhand : f.hand = Option.none := by rw [Fwd.hand, h]
    rw [show ({} : Eff A M).push.toList = [] from rfl, List.append_nil]
    exact ⟨⟨sent, by rw [htaken, hhand]; rfl, hall⟩, fun _ => hs rfl⟩
  | answered k h ha =>
    have hhand : f.hand = Option.none := by rw [Fwd.hand, h]
    rw [show ({} : Eff A M).push.toList = [] from rfl, List.append_nil]
    exact ⟨⟨sent, by rw [htaken, hhand]; rfl, hall⟩, fun hl => by cases hl⟩
  | leave h | close h =>
    have hhand : f.hand = Option.none := by rw [Fwd.hand, h]
    have hloop : f.looping = false := by rw [Fwd.looping, h]
    rw [show ({} : Eff A M).push.toList = [] from rfl, List.append_nil]
    refine ⟨⟨sent, ?_, hall⟩, fun _ => hf.queue hloop⟩
    show f.chan.taken = _
    rw [htaken, hhand]
    rfl

/-- All forwarders of an actor that has not panicked. -/
def Forwarding (n : Node A M) : Prop :=
  n.pc.stage ≠ .failed → ∀ s ∈ n.tasks, ∀ f, s.task = .fwd f → f.Forwards s.out

theorem forwarding_step {n n' : Node A M} {l : Label A M} (hd : Doors n) (hi : Forwarding n)
    (he : Emptied n l) (h : n.step l = some n') : Forwarding n' := by
  refine Node.step_keeps (I := Forwarding) hi h ?_ ?_ ?_
  · intro x _ hx hf s hs f hfwd
    have hf0 : n.pc.stage ≠ .failed := fun hf0 => exec_failed hx hf0
    rcases Node.exec_tasks hx with ⟨ht, -⟩ | ⟨t, ht, hst⟩
    · exact hi hf0 s (ht ▸ hs) f hfwd
    · rw [ht, List.mem_append, List.mem_singleton] at hs
      rcases hs with hs | rfl
      · exact hi hf0 s hs f hfwd
      · have hfwd : t = .fwd f := hfwd
        have hfresh := hst.fresh
        rw [hfwd] at hfresh
        exact hfresh.elim
  · intro n₁ k tl n₂ s0 t e hi₁ hn hk hf
    rw [hk.outside.pc] at hf
    refine hk.slots (hi₁ hf) fun f' hfwd => ?_
    -- a forwarder moves, so its step is the whole step
    have hfwd : t = .fwd f' := hfwd
    subst hfwd
    have hmoves := hk.moves
    have hslot := hk.slot
    have hs0 : s0 ∈ n₁.tasks := List.mem_of_getElem? hk.slot
    obtain ⟨s0, out⟩ := s0
    cases hmoves with
    | @fwd f _ fl e hm =>
      have hn : l = .task k (.fwd fl) ∧ n₁ = n := by
        rcases hn with hn | ⟨al, hn⟩
        · exact hn
        · cases hn
      obtain ⟨rfl, rfl⟩ := hn
      refine hm.forwards (hi₁ hf _ hs0 f rfl) (fun hrx => ?_) ?_ ?_
      · exact ⟨hd.mailbox_open hf hs0 rfl hrx, hd.notifier_alive hf hs0 rfl hrx⟩
      · rintro rfl
        simpa [Emptied, Node.emptied, hslot] using he
      · rintro m rfl
        simpa [Emptied, Node.emptied, hslot] using he
  · intro ms hr hf s hs f hfwd
    rw [hr.outside.pc] at hf
    exact hi hf s (hr.tasks ▸ hs) f hfwd

theorem forwarding_run {cfg : Config} {a : A} {ls : List (Label A M)} {n : Node A M}
    (hab : Lts.Along Node.step NoAbort (Node.init cfg a) ls)
    (he : Lts.Along Node.step Emptied (Node.init cfg a) ls)
    (hr : Lts.run Node.step (Node.init cfg a) ls = some n) : Forwarding n := by
  have hstep : ∀ (n : Node A M) l n', Doors n ∧ Forwarding n → NoAbort n l ∧ Emptied n l →
      n.step l = some n' → Doors n' ∧ Forwarding n' :=
    fun n l n' hi hc h => ⟨doors_step hi.1 hc.1 h, forwarding_step hi.1 hi.2 hc.2 h⟩
  refine (Lts.run_along hstep ⟨doors_init cfg a, ?_⟩ (hab.and he) hr).2
  intro _ s hs f hf
  obtain ⟨kind, rfl⟩ := mem_init_tasks hs
  cases hf
  exact ⟨⟨[], rfl, .nil⟩, fun h => by cases h⟩

/-- What each address has accepted was handled, in that order and each message once. -/
def AllForwarded (n : Node A M) : Prop :=
  ∀ k f out, n.tasks[k]? = some ⟨.fwd f, out⟩ →
    Forall₂ f.kind.Carries f.chan.accepted (sentBy k (handledOf n.trace))

/-- **No message accepted by a `CtxBuilder` address is lost**, in every run in which user code does
not panic, each forwarder takes `Shutdown` with an empty queue and accepts nothing after it has
left its loop, the timeout of `stopping` does not fire, the assertion of `stop` holds, and the
supervisor of the actor stays: the task of the actor does not panic, and at `on_end` all messages
were handled. -/
theorem all_forwarded {cfg : Config} {a : A} {ls : List (Label A M)} {n : Node A M}
    (hc : Lts.Along Node.step Calm (Node.init cfg a) ls)
    (he : Lts.Along Node.step Emptied (Node.init cfg a) ls)
    (hA : Lts.Along Node.step AssertionHolds (Node.init cfg a) ls)
    (hs : Lts.Along Node.step SupervisorStays (Node.init cfg a) ls)
    (hr : Lts.run Node.step (Node.init cfg a) ls = some n) :
    n.pc.stage ≠ .failed ∧ (n.pc.stage = .ended → AllForwarded n) := by
  have hab := hc.mono fun _ _ => Calm.noAbort
  have hup := upright_run hc hA hs hr
  refine ⟨hup, fun hend k f out hk => ?_⟩
  have hmem : (⟨.fwd f, out⟩ : Slot A M) ∈ n.tasks := List.mem_of_getElem? hk
  have hd := doors_run hab hr
  have hfwd := forwarding_run hab he hr hup _ hmem f rfl
  -- the forwarder has no receiver any more, so it is out of its loop with nothing at hand
  have hrx : f.rx = false := hd.kin (.inr hend) _ hmem rfl
  have hout : f.looping = false ∧ f.hand = none := by
    cases hf : f.pc <;> simp_all [Fwd.rx, Fwd.looping, Fwd.hand]
  obtain ⟨sent, htaken, hall⟩ := hfwd.taken
  rw [hout.2, Option.toList_none, List.append_nil] at htaken
  have hsent : sentBy k (handledOf n.trace) = out := by
    rw [(ended_handled hd.life hend).2, outbox_run hr k, Node.outOf, hk]
    rfl
  rw [hsent, ← Chan.taken_eq (hfwd.queue hout.1), htaken]
  exact hall

/-- A message and an ask are accepted by two addresses and forwarded, and then the actor
is told to stop. -/
def forwardedRun : List (Label Unit ℕ) :=
  [.exec (.ret ()), .task 0 (.fwd (.push 5)), .task 1 (.fwd (.push 6)), .task 0 (.fwd .recv), .task 1 (.fwd .recv),
    .task 0 (.fwd .send), .task 1 (.fwd .send), .send (.await true),
    .exec .recv, .exec .go, .exec .go, .exec (.ret ()), .exec (.ret ()), .exec (.ret ()),
    .exec .recv, .exec .go, .exec .go, .exec (.ret ()), .exec (.reply () 7), .exec (.ret ()),
    .task 1 (.fwd .answered), .exec .recv, .exec .go, .exec .go, .exec (.ret ()), .exec .go, .exec (.ret ()),
    .exec (.ret ()), .exec .go, .exec .go, .task 0 (.fwd .shutdown), .task 1 (.fwd .shutdown),
    .task 0 (.fwd .leave), .task 1 (.fwd .leave), .task 0 (.fwd .close), .exec .tick, .exec .go,
    .exec (.ret ()), .exec .go, .exec .none]

theorem all_forwarded_forwardedRun :
    ∃ n : Node Unit ℕ, Lts.run Node.step (Node.init ⟨4, 1, false, [.handle, .ask]⟩ ()) forwardedRun = some n ∧
      n.mailbox.accepted.length = 3 ∧ n.pc = .onEnd ∧
      n.pc.stage ≠ .failed ∧ (n.pc.stage = .ended → AllForwarded n) := by
  have hr : ∃ n : Node Unit ℕ,
      Lts.run Node.step (Node.init ⟨4, 1, false, [.handle, .ask]⟩ ()) forwardedRun = some n ∧
        n.mailbox.accepted.length = 3 ∧ n.pc = .onEnd := ⟨_, rfl, rfl, rfl⟩
  obtain ⟨n, hr, hlen, hpc⟩ := hr
  exact ⟨n, hr, hlen, hpc, all_forwarded (by decide) (by decide) (by decide) (by decide) hr⟩

/-- The actor is told to stop while a message is queued at its address, and the forwarder
takes `Shutdown` first. -/
def droppedRun : List (Label Unit ℕ) :=
  [.exec (.ret ()), .send (.await true), .exec .recv, .exec .go, .exec .go, .exec (.ret ()), .exec .go,
    .exec (.ret ()), .exec (.ret ()), .exec .go, .exec .go, .task 0 (.fwd (.push 5)), .task 0 (.fwd .shutdown),
    .task 0 (.fwd .leave), .task 0 (.fwd .close), .exec .tick, .exec .go, .exec (.ret ()), .exec .go, .exec .none]

/-- **A message accepted by a `CtxBuilder` address can be lost.** -/
theorem queue_dropped :
    ∃ n : Node Unit ℕ, Lts.run Node.step (Node.init ⟨4, 1, false, [.handle]⟩ ()) droppedRun = some n ∧
      Lts.Along Node.step Calm (Node.init ⟨4, 1, false, [.handle]⟩ ()) droppedRun ∧
      Lts.Along Node.step AssertionHolds (Node.init ⟨4, 1, false, [.handle]⟩ ()) droppedRun ∧
      Lts.Along Node.step SupervisorStays (Node.init ⟨4, 1, false, [.handle]⟩ ()) droppedRun ∧ n.pc = .onEnd ∧
      ¬ AllForwarded n := by
  refine ⟨_, rfl, by decide, by decide, by decide, rfl, fun h => ?_⟩
  have := h 0 _ _ rfl
  cases this

end Tokactor
