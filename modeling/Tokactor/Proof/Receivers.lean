import Tokactor.Lib.Cells
import Tokactor.Proof.Anonymous

/-!
# Who still listens when an actor ends

`stopping` and the head of `stop` wait until no receiver of the notifier is left. After
that the mailbox is drained, and nobody looks again.

* `drained_run`: as long as no anonymous task is started in the drain, no receiver is
  left there.
* `asked_run`: the asker of an `AskResult::Task` is resolved once its future is gone.
* `none_outlives`: with both, no anonymous work is left when `on_end` is called.
* `task_outlives`: a task that is started in the drain outlives its actor.
-/

namespace Tokactor

open Cells

variable {A M : Type}

/-! ## Receivers in the drain -/

/-- The executor is in the drain of `stop`. -/
def Pc.draining : Pc A M → Bool
  | .drain | .process .stopped _ | .preRun .stopped _ | .handle .stopped _ | .future .stopped _ _ => true
  | .cancelling .stopped _ | .postRun .stopped => true
  | _ => false

/-- The step starts an anonymous task. -/
def Label.starts : Label A M → Bool
  | .exec (.op .anonymous) | .exec (.op .anonymousTask) | .exec (.op .anonymousHandle) => true
  | .exec (.task _ _) => true
  | _ => false

/-- The step starts no anonymous task in the drain. -/
def QuietDrain (n : Node A M) (l : Label A M) : Prop := n.pc.draining = true → l.starts = false

instance (n : Node A M) (l : Label A M) : Decidable (QuietDrain n l) :=
  inferInstanceAs (Decidable (_ → _))

/-- Whoever holds a receiver has held it from the start. -/
theorem Anon.Moves.rx {v : View} {a a' : Anon A M} {l : AnonLabel M} {e : Eff A M}
    (h : a.Moves v l a' e) (hrx : a'.rx = true) : a.rx = true := by
  cases h with
  | skip h | finish out h | cancel h | lost k j hk h | poll h | spawn h => simp [Anon.rx, h]
  | panic h => simp [Anon.rx, h]
  | wake out hk h =>
    rcases h with ⟨o, h, rfl⟩ | ⟨h, rfl⟩
    · simp [Anon.rx, h]
    · cases hkind : a.kind <;> simp [Anon.rx, Anon.report, hkind] at hrx
  | send b h | refused b h => simpa [Anon.rx, h] using hrx
  | haltLive hk hh h => exact hrx
  | _ => cases hrx

theorem Task.Moves.rx {v : View} {s t : Task A M} {l : TaskLabel A M} {e : Eff A M}
    (h : s.Moves v l t e) (hrx : t.rx = true) : s.rx = true := by
  by_cases hk : s.kin = true
  · by_contra hs
    rw [(kin_step h).2 hk (by simpa using hs)] at hrx
    cases hrx
  · cases h with
    | anon h => exact h.rx hrx
    | child h | fwd h => exact absurd rfl hk

namespace Node

/-- Only user code starts tasks, and a child only in a running context. -/
theorem exec_quiet {n n' : Node A M} {x : Act A M} (hx : Exec n x n')
    (hq : (Label.exec x : Label A M).starts = false) (hs : n.state ≠ .running) : n'.tasks = n.tasks := by
  rcases exec_split hx with ⟨o, rfl, ho, rfl⟩ | ⟨p, m, a, k, h, rfl, -, -, -⟩ | ⟨h, -, -⟩
  · cases o with
    | stop =>
      obtain ⟨st, h, -⟩ := stop_eq n
      rw [ctxOp, h]
    | abort => unfold ctxOp abort; simp only; split <;> rfl
    | spawn id => exact absurd ho hs
    | anonymous | anonymousTask | anonymousHandle => cases hq
  · cases hq
  · exact h

/-- The drain is entered through the assertion at the head of `stop`. -/
theorem exec_draining {n n' : Node A M} {x : Act A M} (hx : Exec n x n') (hd : n'.pc.draining = true) :
    n.pc.draining = true ∨ n.isClosed = true ∧ n'.tasks = n.tasks := by
  rcases exec_flow hx with ⟨c, -, rfl⟩ | hf
  · rw [show (n.unwind c).pc.draining = false from rfl] at hd
    cases hd
  by_cases hpc : n.pc = .assertClosed
  · right
    cases hx with
    | assertClosed _ hc => exact ⟨hc, rfl⟩
    | _ => simp_all [Pc.user, Pc.took, Pc.draining]
  left
  generalize n.pc = pc at hf hpc
  generalize n'.pc = pc' at hf hd
  cases hf with
  | stay => exact hd
  | loop _ h h' => rcases h' with rfl | rfl <;> cases hd
  | took m _ h => unfold Pc.took at h; split at h <;> cases h <;> first | rfl | cases hd
  | preRun p m h | handle p m h | future p m seen h | cancelling p m seen h =>
    subst h
    cases p <;> first | rfl | cases hd
  | postRun p m h => rcases h with rfl | ⟨seen, rfl⟩ | rfl <;> cases p <;> first | rfl | cases hd
  | drain h =>
    rcases h with h | rfl
    · exact absurd h hpc
    · rfl
  | finish _ h h' => rcases h' with rfl | rfl | rfl <;> cases hd
  | _ => cases hd

end Node

/-- No receiver is left in the drain. -/
def Drained (n : Node A M) : Prop := n.pc.draining = true → n.isClosed = true

/-- The drain belongs to the last part of a life. -/
theorem Pc.draining_stage {pc : Pc A M} (h : pc.draining = true) : pc.stage = .stopped := by
  unfold Pc.draining at h
  split at h <;> first | rfl | cases h

theorem drained_step {n n' : Node A M} {l : Label A M} (hl : LifeOK n) (hi : Drained n)
    (hq : QuietDrain n l) (h : n.step l = some n') : Drained n' := by
  refine Node.step_keeps (I := Drained) hi h ?_ ?_ ?_
  · rintro x rfl hx hd
    rcases Node.exec_draining hx hd with hd0 | ⟨hc, ht⟩
    · have hs : n.state ≠ .running := by
        rcases hl with hf | ⟨h, hl⟩
        · rw [Pc.draining_stage hd0] at hf; cases hf
        · exact hl.state (by rw [Pc.draining_stage hd0]; decide)
      have ht := Node.exec_quiet hx (hq hd0) hs
      have hc := hi hd0
      unfold Node.isClosed at *
      rw [ht]
      exact hc
    · unfold Node.isClosed at *
      rw [ht]
      exact hc
  · intro n₁ k tl n₂ s t e hi₁ _ hk hd
    rw [hk.outside.pc] at hd
    have hc := (Node.isClosed_iff n₁).1 (hi₁ hd)
    -- the task that moves held no receiver, so it holds none now
    have hrx : t.rx = false := by
      by_contra hrx
      have := hk.moves.rx (by simpa using hrx)
      rw [hc s (List.mem_of_getElem? hk.slot)] at this
      cases this
    exact (Node.isClosed_iff n₂).2 (hk.slots hc hrx)
  · intro ms hr hd
    rw [hr.outside.pc] at hd
    have hc := hi hd
    unfold Node.isClosed at *
    rw [hr.tasks]
    exact hc

/-- **No receiver is left in the drain**, if no anonymous task is started there. -/
theorem drained_run {cfg : Config} {a : A} {ls : List (Label A M)} {n : Node A M}
    (hq : Lts.Along Node.step QuietDrain (Node.init cfg a) ls)
    (hr : Lts.run Node.step (Node.init cfg a) ls = some n) : Drained n := by
  have hstep : ∀ (n : Node A M) l n', LifeOK n ∧ Drained n → QuietDrain n l → n.step l = some n' →
      LifeOK n' ∧ Drained n' :=
    fun n l n' hi hq h => ⟨lifeOK_step hi.1 h, drained_step hi.1 hi.2 hq h⟩
  have h0 : LifeOK (Node.init cfg a : Node A M) ∧ Drained (Node.init cfg a : Node A M) :=
    ⟨.inr ⟨_, life_init cfg a⟩, fun h => by cases h⟩
  exact (Lts.run_along hstep h0 hq hr).2

/-! ## Askers of reply tasks -/

/-- Ask `k` is decided. -/
def Decided (l : List (Reply M)) (k : ℕ) : Prop := At l k fun r => r.decided = true

/-- From `l` to `l'` asks are only added and decided. -/
structure Settles (l l' : List (Reply M)) : Prop where
  length : l.length ≤ l'.length
  kept : ∀ k, Decided l k → Decided l' k

theorem Settles.refl (l : List (Reply M)) : Settles l l := ⟨Nat.le_refl _, fun _ h => h⟩

theorem Settles.trans {l l' l'' : List (Reply M)} (h : Settles l l') (h' : Settles l' l'') : Settles l l'' :=
  ⟨Nat.le_trans h.length h'.length, fun k hk => h'.kept k (h.kept k hk)⟩

theorem Settles.append (l l' : List (Reply M)) : Settles l (l ++ l') :=
  ⟨by rw [List.length_append]; exact Nat.le_add_right _ _, fun _ h => At.append h l'⟩

theorem Settles.set (l : List (Reply M)) (k : ℕ) {r : Reply M} (hr : r.decided = true) : Settles l (l.set k r) :=
  ⟨Nat.le_of_eq List.length_set.symm, fun _ h => At.set_of h hr⟩

theorem dropMail_settles (n : Node A M) (m : Mail A M) : Settles n.asks (n.dropMail m).asks := by
  unfold Node.dropMail
  split
  · exact .refl _
  · exact .set _ _ rfl
  · exact .set _ _ rfl
  · exact .refl _

theorem foldl_dropMail_settles (l : List (Mail A M)) (n : Node A M) :
    Settles n.asks (l.foldl Node.dropMail n).asks := by
  induction l generalizing n with
  | nil => exact .refl _
  | cons m l ih => exact (dropMail_settles n m).trans (ih _)

theorem exec_settles {n n' : Node A M} {x : Act A M} (hx : Node.Exec n x n') : Settles n.asks n'.asks := by
  have same : n'.asks = n.asks → Settles n.asks n'.asks := fun h => h ▸ .refl _
  cases hx with
  | op o ho' hu ho => exact same (Node.ctxOp_kept ho).asks
  | unwind c hc => exact foldl_dropMail_settles _ n
  | check hand hpc => refine same ?_; unfold Node.checkStep; split <;> cases hand <;> rfl
  | acquired hand k rest hpc hk => exact same (by cases hand <;> rfl)
  | answered p m a k r hpc hb hr => exact .set _ _ hr
  | task p m a k h hx hpc hb => exact same (Node.anonymous_kept { n with actor := a } (.reply k h)).asks
  | await p m stopNow w hpc hb =>
    obtain ⟨st, h, -⟩ := Node.subscribe_eq n stopNow w
    exact same (by rw [h]; rfl)
  | cancelClosed p m hpc hc => exact dropMail_settles n m
  | cancelSent p m c hpc hc => exact dropMail_settles { n with mailbox := c } m
  | postRun p a hpc =>
    cases p with
    | main => exact same (by simp only [Node.processed]; split <;> rfl)
    | stopping | stopped => exact same rfl
  | finish hpc =>
    refine same ?_
    unfold Node.finish
    repeat' split
    all_goals rfl
  | _ => exact same rfl

/-! ## What tasks answer -/

theorem Anon.answer_reply {a : Anon A M} {k h : ℕ} (hk : a.kind = .reply k h) (out : Option M) :
    ∃ r, a.answer out = some (k, r) ∧ r.decided = true := by
  unfold Anon.answer
  rw [hk]
  cases out <;> exact ⟨_, rfl, rfl⟩

theorem Anon.answer_decided {a : Anon A M} {out : Option M} {k : ℕ} {r : Reply M}
    (h : a.answer out = some (k, r)) : r.decided = true := by
  cases hk : a.kind with
  | reply i j =>
    obtain ⟨r', h', hr⟩ := Anon.answer_reply hk out
    rw [h] at h'
    cases h'
    exact hr
  | _ => simp [Anon.answer, hk] at h

/-- The answer of a future that is over. -/
theorem Anon.finished_answer (a : Anon A M) (out : Option M) :
    (a.finished out).2.answer = a.answer out ∧ (a.finished out).1.kind = a.kind := by
  rcases a.finished_cases out with ⟨-, he⟩ | ⟨-, hk, he⟩ | ⟨-, -, he⟩ <;> rw [he] <;>
    simp_all [Anon.answer]

theorem Anon.unwind_answer (a : Anon A M) : a.unwind.2.answer = a.answer none ∧ a.unwind.1.kind = a.kind := by
  rcases a.unwind_cases with ⟨-, he⟩ | ⟨-, hk, he⟩ | ⟨-, -, he⟩ <;> rw [he] <;> simp_all [Anon.answer]

theorem Anon.Moves.kind {v : View} {a a' : Anon A M} {l : AnonLabel M} {e : Eff A M}
    (h : a.Moves v l a' e) : a'.kind = a.kind := by
  cases h with
  | skip h | finish out h | cancel h | lost k j hk h => exact (a.finished_answer _).2
  | panic h => exact a.unwind_answer.2
  | _ => rfl

theorem Anon.Moves.decides {v : View} {a a' : Anon A M} {l : AnonLabel M} {e : Eff A M}
    (h : a.Moves v l a' e) {k : ℕ} {r : Reply M} (hr : e.answer = some (k, r)) : r.decided = true := by
  cases h with
  | skip h | finish out h | cancel h | lost k j hk h =>
    exact Anon.answer_decided ((a.finished_answer _).1 ▸ hr)
  | panic h => exact Anon.answer_decided (a.unwind_answer.1 ▸ hr)
  | haltQueued hk hh h => exact Anon.answer_decided (show a.answer none = some (k, r) from hr)
  | _ => cases hr

/-- A future that ends answers its asker. -/
theorem Anon.Moves.answers {v : View} {a a' : Anon A M} {l : AnonLabel M} {e : Eff A M}
    (h : a.Moves v l a' e) (hl : a.live = true) (hl' : a'.live = false) : ∃ out, e.answer = a.answer out := by
  cases h with
  | skip h | finish out h | cancel h | lost k j hk h => exact ⟨_, (a.finished_answer _).1⟩
  | panic h => exact ⟨_, a.unwind_answer.1⟩
  | haltQueued hk hh h => exact ⟨none, rfl⟩
  | spawn h | poll h => cases hl'
  | haltLive hk hh h =>
    rw [show a.live = false from hl'] at hl
    cases hl
  | haltLate hk hh h hd =>
    rw [h] at hl
    cases hl
  | wake out hk h => rcases h with ⟨o, h, -⟩ | ⟨h, -⟩ <;> simp [Anon.live, h] at hl
  | send b h | refused b h | drop b h => simp [Anon.live, h] at hl
  | release h => simp [Anon.live, h] at hl
  | take out hk h => simp [Anon.live, h] at hl

theorem Task.Moves.decides {v : View} {s t : Task A M} {l : TaskLabel A M} {e : Eff A M}
    (h : s.Moves v l t e) {k : ℕ} {r : Reply M} (hr : e.answer = some (k, r)) : r.decided = true := by
  cases h with
  | child h => cases h <;> cases hr
  | anon h => exact h.decides hr
  | fwd h => cases h <;> cases hr

/-- What an effect does to the asks. -/
theorem Eff.asks_cases (e : Eff A M) (l : List (Reply M)) :
    ∃ l', Settles l l' ∧ (e.newAsk = true → l.length < l'.length) ∧
      (e.answer = none ∧ e.asks l = l' ∨ ∃ k r, e.answer = some (k, r) ∧ e.asks l = l'.set k r) := by
  refine ⟨if e.newAsk then l ++ [.pending] else l, ?_, ?_, ?_⟩
  · split
    · exact .append _ _
    · exact .refl _
  · intro h
    rw [if_pos h]
    simp
  · unfold Eff.asks
    cases e.answer with
    | none => exact .inl ⟨rfl, rfl⟩
    | some p => exact .inr ⟨p.1, p.2, rfl, rfl⟩

/-! ## The askers of all reply tasks -/

namespace Node

/-- Only the start of a `reply` task adds one. -/
theorem exec_replies {n n' : Node A M} {x : Act A M} (hx : Exec n x n') {s : Slot A M} (hs : s ∈ n'.tasks) :
    s ∈ n.tasks ∨ ∀ a, s.task = .anon a → a.live = true ∧
      ∀ k h, a.kind = .reply k h → ∃ m, n.pc.hand = some m ∧ m.body.asker = some k := by
  -- a task that is started is alive, and answers the ask at hand if it answers one
  have new : ∀ kind, (∀ k h, kind = .reply k h → ∃ m, n.pc.hand = some m ∧ m.body.asker = some k) →
      ∀ n₀ : Node A M, n₀.tasks = n.tasks → s ∈ (n₀.anonymous kind).tasks →
      s ∈ n.tasks ∨ ∀ a, s.task = .anon a → a.live = true ∧
        ∀ k h, a.kind = .reply k h → ∃ m, n.pc.hand = some m ∧ m.body.asker = some k := by
    intro kind hkind n₀ h0 hs
    obtain ⟨tracked, ht⟩ := n₀.anonymous_tasks kind
    rw [ht, h0, List.mem_append, List.mem_singleton] at hs
    rcases hs with hs | rfl
    · exact .inl hs
    · refine .inr fun a ha => ?_
      cases ha
      exact ⟨by cases kind <;> rfl, hkind⟩
  rcases exec_split hx with ⟨o, -, ho, rfl⟩ | ⟨p, m, a, k, h, -, hpc, hb, rfl⟩ | ⟨h, -, -⟩
  · cases o with
    | stop =>
      obtain ⟨st, h, -⟩ := stop_eq n
      rw [ctxOp, h] at hs
      exact .inl hs
    | abort =>
      unfold ctxOp abort at hs
      simp only at hs
      split at hs <;> exact .inl hs
    | spawn id =>
      rw [ctxOp, if_pos (show n.state = .running from ho), List.mem_append, List.mem_singleton] at hs
      rcases hs with hs | rfl
      · exact .inl hs
      · exact .inr fun a ha => by cases ha
    | anonymous | anonymousTask | anonymousHandle => exact new _ (fun k h hk => by cases hk) n rfl hs
  · refine new (.reply k h) (fun k' h' hk => ?_) { n with actor := a } rfl hs
    cases hk
    exact ⟨m, by rw [hpc]; rfl, hb⟩
  · exact .inl (h ▸ hs)

end Node

/-- Every ask the mailbox has accepted is there; and so is that of a `reply` task, decided
once the future is gone. -/
structure Asked (n : Node A M) : Prop where
  plain : ∀ s ∈ n.tasks, s.Plain
  known : ∀ m ∈ n.mailbox.accepted, ∀ k, m.body.asker = some k → k < n.asks.length
  reply : ∀ s ∈ n.tasks, ∀ a, s.task = .anon a → ∀ k h, a.kind = .reply k h →
    k < n.asks.length ∧ (a.live = false → Decided n.asks k)

theorem asked_exec {n n' : Node A M} {x : Act A M} (hl : LifeOK n) (hi : Asked n)
    (hp : ∀ s ∈ n'.tasks, s.Plain) (hx : Node.Exec n x n') : Asked n' := by
  have hset := exec_settles hx
  refine ⟨hp, ?_, ?_⟩
  · intro m hm k hk
    obtain ⟨ms, h1, h2⟩ := Node.exec_accepted hx
    rw [h1, List.mem_append] at hm
    rcases hm with hm | hm
    · exact Nat.lt_of_lt_of_le (hi.known m hm k hk) hset.length
    · rw [h2 m hm] at hk
      cases hk
  · intro s hs a ha k h hk
    rcases Node.exec_replies hx hs with hs | hnew
    · obtain ⟨h1, h2⟩ := hi.reply s hs a ha k h hk
      exact ⟨Nat.lt_of_lt_of_le h1 hset.length, fun hl => hset.kept k (h2 hl)⟩
    · obtain ⟨hlive, hasker⟩ := hnew a ha
      obtain ⟨m, hm, hb⟩ := hasker k h hk
      refine ⟨Nat.lt_of_lt_of_le (hi.known m ?_ k hb) hset.length, fun h => ?_⟩
      · exact hl.hand_accepted (exec_failed hx) hm
      · rw [hlive] at h
        cases h

theorem asked_tasked {n n' : Node A M} {k : ℕ} {l : TaskLabel A M} {s : Slot A M} {t : Task A M}
    {e : Eff A M} (hi : Asked n) (h : Node.Tasked n k l n' s t e) : Asked n' := by
  have hs : s ∈ n.tasks := List.mem_of_getElem? h.slot
  have hplain := hi.plain s hs
  obtain ⟨l', hset, hlen, hasks⟩ := e.asks_cases n.asks
  have hset' : Settles l' n'.asks := by
    rw [h.asks]
    rcases hasks with ⟨-, he⟩ | ⟨j, r, hj, he⟩
    · rw [he]; exact .refl _
    · rw [he]; exact .set _ _ (h.moves.decides hj)
  have hall := hset.trans hset'
  refine ⟨h.slots hi.plain (h.moves.plain hplain), ?_, ?_⟩
  · intro m hm j hj
    rw [h.outside.mailbox.accepted, List.mem_append] at hm
    rcases hm with hm | hm
    · exact Nat.lt_of_lt_of_le (hi.known m hm j hj) hall.length
    · simp only [List.mem_map, Option.mem_toList] at hm
      obtain ⟨b, hb, rfl⟩ := hm
      obtain ⟨-, hask⟩ := h.moves.push hplain hb
      rcases hask with hask | ⟨hnew, hask⟩
      · rw [show b.asker = some j from hj] at hask; cases hask
      · -- the ask is the new one
        rw [show b.asker = some j from hj] at hask
        have hj : j = n.asks.length := Option.some.inj hask
        exact hj ▸ Nat.lt_of_lt_of_le (hlen hnew) hset'.length
  · refine h.slots (fun s' hs' a ha j i hk => ?_) fun a' ha' j i hk' => ?_
    · obtain ⟨h1, h2⟩ := hi.reply s' hs' a ha j i hk
      exact ⟨Nat.lt_of_lt_of_le h1 hall.length, fun hl => hall.kept j (h2 hl)⟩
    · have ha' : t = .anon a' := ha'
      subst ha'
      have hm := h.moves
      obtain ⟨s, out⟩ := s
      cases hm with
      | @anon a _ l e hm =>
        have hk : a.kind = .reply j i := hm.kind ▸ hk'
        obtain ⟨h1, h2⟩ := hi.reply _ hs a rfl j i hk
        refine ⟨Nat.lt_of_lt_of_le h1 hall.length, fun hl' => ?_⟩
        cases hl : a.live with
        | false => exact hall.kept j (h2 hl)
        | true =>
          -- its future has just ended, with an answer
          obtain ⟨o, ho⟩ := hm.answers hl hl'
          obtain ⟨r, hr, hd⟩ := Anon.answer_reply hk o
          rcases hasks with ⟨hn, -⟩ | ⟨j', r', hj', he⟩
          · rw [ho, hr] at hn; cases hn
          · rw [ho, hr] at hj'
            cases hj'
            rw [h.asks, he]
            exact At.set_self (Nat.lt_of_lt_of_le h1 hset.length) hd

theorem asked_rest {ms : List (Mail A M)} {n n' : Node A M} (hi : Asked n) (hr : Node.Rest ms n n')
    (hset : Settles n.asks n'.asks) (hms : ∀ m ∈ ms, ∀ k, m.body.asker = some k → k < n'.asks.length) :
    Asked n' := by
  refine ⟨hr.tasks ▸ hi.plain, ?_, ?_⟩
  · intro m hm k hk
    rw [hr.outside.mailbox.accepted, List.mem_append] at hm
    rcases hm with hm | hm
    · exact Nat.lt_of_lt_of_le (hi.known m hm k hk) hset.length
    · exact hms m hm k hk
  · intro s hs a ha k h hk
    obtain ⟨h1, h2⟩ := hi.reply s (hr.tasks ▸ hs) a ha k h hk
    exact ⟨Nat.lt_of_lt_of_le h1 hset.length, fun hl => hset.kept k (h2 hl)⟩

theorem asked_step {n n' : Node A M} {l : Label A M} (hl : LifeOK n) (hi : Asked n)
    (h : n.step l = some n') : Asked n' := by
  have hp := plain_step hi.plain h
  cases Node.step_rule h with
  | exec x hx => exact asked_exec hl hi hp hx
  | task k tl s t e hb ht => exact asked_tasked hi ht
  | join i h n₁ al hj =>
    obtain ⟨s, t, e, ht⟩ := Node.taskStep_cases hj.join
    rcases hj.taken with rfl | h1
    · exact asked_tasked hi ht
    · obtain ⟨s', t', e', ht'⟩ := Node.taskStep_cases h1
      exact asked_tasked (asked_tasked hi ht') ht
  | send r b hr hs =>
    rcases hs.asks with ⟨he, hb⟩ | ⟨hb, he⟩
    · refine asked_rest hi hr (he ▸ .refl _) fun m hm k hk => ?_
      rw [List.mem_singleton] at hm
      subst hm
      rw [show b.asker = some k from hk] at hb
      cases hb
    · refine asked_rest hi hr (he ▸ .append _ _) fun m hm k hk => ?_
      rw [List.mem_singleton] at hm
      subst hm
      rw [show b.asker = some k from hk] at hb
      cases hb
      rw [he]
      simp
  | quiet l hr hw ha => exact asked_rest hi hr (ha ▸ .refl _) fun m hm => absurd hm List.not_mem_nil

/-- **The asker of a `reply` task is decided once its future is gone**, in every reachable
state. -/
theorem asked_run {cfg : Config} {a : A} {ls : List (Label A M)} {n : Node A M}
    (hr : Lts.run Node.step (Node.init cfg a) ls = some n) : Asked n := by
  have hstep : ∀ (n : Node A M) l n', LifeOK n ∧ Asked n → n.step l = some n' → LifeOK n' ∧ Asked n' :=
    fun n l n' hi h => ⟨lifeOK_step hi.1 h, asked_step hi.1 hi.2 h⟩
  refine (Lts.run_inv hstep ⟨.inr ⟨_, life_init cfg a⟩, plain_init cfg a, ?_, ?_⟩ hr).2
  · intro m hm
    exact absurd hm List.not_mem_nil
  · intro s hs a ha
    obtain ⟨kind, rfl⟩ := mem_init_tasks hs
    cases ha

/-! ## When `on_end` is called -/

/-- No receiver and no future is left, and the asker of every `reply` task is decided. -/
structure NoneLeft (n : Node A M) : Prop where
  closed : n.isClosed = true
  ended : ∀ s ∈ n.tasks, s.task.live = false
  answered : ∀ s ∈ n.tasks, ∀ a, s.task = .anon a → ∀ k h, a.kind = .reply k h → Decided n.asks k

/-- A future that is alive holds a receiver. -/
theorem Task.rx_of_live {t : Task A M} (h : t.live = true) : t.rx = true := by
  cases t with
  | anon a => cases hpc : a.pc <;> simp_all [Task.live, Task.rx, Anon.live, Anon.rx]
  | child c | fwd f => cases h

/-- **No anonymous work outlives its actor**, in every run in which no anonymous task is
started in the drain. -/
theorem none_outlives {cfg : Config} {a : A} {ls : List (Label A M)} {n n' : Node A M} {l : Label A M}
    (hq : Lts.Along Node.step QuietDrain (Node.init cfg a) ls)
    (hr : Lts.run Node.step (Node.init cfg a) ls = some n) (hs : n.step l = some n')
    (h0 : n.pc ≠ .onEnd) (h1 : n'.pc = .onEnd) : NoneLeft n' := by
  have hasked := asked_step (life_run hr) (asked_run hr) hs
  have hclosed : n'.isClosed = true := by
    rcases Node.step_outside hs with ⟨x, rfl, hx⟩ | ⟨ms, ho⟩
    · have hpc := exec_onEnd hx h0 h1
      have hdrained : n.isClosed = true := drained_run hq hr (by rw [hpc]; rfl)
      cases hx with
      | drained _ hempty => exact hdrained
      | _ => simp_all [Pc.user, Pc.took]
    · exact absurd (ho.pc ▸ h1) h0
  have hended : ∀ s ∈ n'.tasks, s.task.live = false := by
    intro s hmem
    by_contra hl
    have hrx := Task.rx_of_live (by simpa using hl)
    rw [(Node.isClosed_iff n').1 hclosed s hmem] at hrx
    cases hrx
  refine ⟨hclosed, hended, fun s hmem a ha k h hk => ?_⟩
  have hlive := hended s hmem
  rw [ha] at hlive
  exact (hasked.reply s hmem a ha k h hk).2 hlive

/-- An ask is answered by a task; the actor is told to stop, the task is cancelled, and the
ask decided. -/
def cancelledRun : List (Label Unit ℕ) :=
  [.exec (.ret ()), .send (.ask 5), .exec .recv, .exec .go, .exec .go, .exec (.ret ()),
    .exec (.op .anonymousHandle), .exec (.task () 0), .exec (.ret ()), .send (.await true), .exec .recv,
    .exec .go, .exec .go, .exec (.ret ()), .exec .go, .exec (.ret ()), .exec (.ret ()), .exec .go, .exec .go,
    .task 1 (.anon .spawn), .task 0 (.anon .poll), .task 1 (.anon .poll), .task 1 (.anon .wake),
    .task 0 (.anon .take), .task 1 (.anon .send), .exec .recv, .exec .go, .exec (.ret ()), .exec .go,
    .exec (.ret ()), .exec .go, .exec (.ret ()), .exec .go]

theorem none_outlives_cancelledRun :
    ∃ n n' : Node Unit ℕ, Lts.run Node.step (Node.init ⟨4, 2, false, []⟩ ()) cancelledRun = some n ∧
      n.step (.exec .none) = some n' ∧ n'.asks = [.dropped] ∧ n'.tasks.length = 2 ∧ NoneLeft n' := by
  have hr : ∃ n n' : Node Unit ℕ, Lts.run Node.step (Node.init ⟨4, 2, false, []⟩ ()) cancelledRun = some n ∧
      n.step (.exec .none) = some n' ∧ n'.asks = [.dropped] ∧ n'.tasks.length = 2 ∧ n.pc = .drain ∧
      n'.pc = .onEnd := ⟨_, _, rfl, rfl, rfl, rfl, rfl, rfl⟩
  obtain ⟨n, n', hr, hs, ha, ht, hpc, hpc'⟩ := hr
  exact ⟨n, n', hr, hs, ha, ht, none_outlives (by decide) hr hs (by rw [hpc]; simp) hpc'⟩

/-- A message that is handled in the drain starts a task. -/
def lateTaskRun : List (Label Unit ℕ) :=
  [.exec (.ret ()), .send (.await true), .send (.user 5), .exec .recv, .exec .go, .exec .go, .exec (.ret ()),
    .exec .go, .exec (.ret ()), .exec (.ret ()), .exec .go, .exec (.ret ()), .exec .go,
    .exec .recv, .exec .go, .exec (.ret ()), .exec (.op .anonymousTask), .exec (.ret ()), .exec (.ret ())]

/-- **A task that is started in the drain outlives its actor.** -/
theorem task_outlives :
    ∃ n n' : Node Unit ℕ, Lts.run Node.step (Node.init ⟨4, 2, false, []⟩ ()) lateTaskRun = some n ∧
      n.step (.exec .none) = some n' ∧ n.pc = .drain ∧ n'.pc = .onEnd ∧ ¬ NoneLeft n' := by
  refine ⟨_, _, rfl, rfl, rfl, rfl, fun h => ?_⟩
  have hc := h.closed
  cases hc

end Tokactor
