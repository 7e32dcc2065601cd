import Tokactor.Proof.Tasks

/-!
# The loop of `stopping`

Each turn of the loop waits for a message or for one second, and then looks whether a receiver
of the notifier is left. After ten seconds in which no message came, the next one panics.

* `stopping_ends`: every turn that does not return takes a message or counts a second, if and only
  if the loop returns whenever its receive has yielded `None`; then there are at most eleven turns
  more than messages, and the last of so many is the panic, or the loop returns at its end. The
  turns that return do so too, if and only if the mailbox is at none of them closed and empty.
-/

namespace Tokactor

variable {A M : Type}

/-- A turn of the loop of `stopping`: what was taken and counted when it started, and whether
the receive of its `select!` yields `None`. -/
structure Turn where
  taken : ℕ
  seconds : ℕ
  none : Bool

/-- Since the turn has started a message was taken, or a second counted. -/
def Turn.Progress (t : Turn) (n : Node A M) : Prop :=
  n.mailbox.taken.length = t.taken + 1 ∧ n.timeoutCounter = t.seconds ∨
    n.mailbox.taken.length = t.taken ∧ n.timeoutCounter = t.seconds + 1

/-- The turn that starts here. -/
def Node.turn (n : Node A M) (l : Label A M) : List Turn :=
  match l, n.pc with
  | .exec .none, .wait => [⟨n.mailbox.taken.length, n.timeoutCounter, true⟩]
  | .exec _, .wait => [⟨n.mailbox.taken.length, n.timeoutCounter, false⟩]
  | _, _ => []

/-- How many turns of the loop of `stopping` start in the run of `ls`. -/
def turns (n : Node A M) (ls : List (Label A M)) : ℕ := (Lts.outs Node.step Node.turn n ls).length

/-- The executor is at the end of a turn. -/
def Pc.rechecks : Pc A M → Bool
  | .recheck => true
  | _ => false

/-- A turn that ends here and does not return, as a receiver is left, has made progress. -/
def Progresses (p : Node A M × List Turn) (l : Label A M) : Prop :=
  l.isExec = true → p.1.pc.rechecks = true → p.1.isClosed = false → ∃ t, p.2.getLast? = some t ∧ t.Progress p.1

/-- A turn that ends here returns, if its receive has yielded `None`. -/
def NoneReturns (p : Node A M × List Turn) (l : Label A M) : Prop :=
  l.isExec = true → p.1.pc.rechecks = true → p.2.getLast?.any Turn.none = true → p.1.isClosed = true

instance (p : Node A M × List Turn) (l : Label A M) : Decidable (NoneReturns p l) :=
  inferInstanceAs (Decidable (_ → _ → _ → _))

/-- At the `select!` the mailbox is open, or a message is left in it. -/
def Node.receivable (n : Node A M) (l : Label A M) : Bool :=
  match l, n.pc with
  | .exec _, .wait => !n.mailbox.closed || !n.mailbox.queue.isEmpty
  | _, _ => true

def Receivable (n : Node A M) (l : Label A M) : Prop := n.receivable l = true

instance (n : Node A M) (l : Label A M) : Decidable (Receivable n l) := inferInstanceAs (Decidable (_ = _))

/-! ## One turn -/

namespace Node

theorem turn_nil {n : Node A M} {l : Label A M} (h : ∀ x, l = .exec x → n.pc ≠ .wait) : n.turn l = [] := by
  unfold turn
  split
  · rename_i hpc
    exact absurd hpc (h _ rfl)
  · rename_i hpc
    exact absurd hpc (h _ rfl)
  · rfl

theorem wait_cases {n n' : Node A M} {x : Act A M} (hpc : n.pc = .wait) (h : n.exec x = some n') :
    (∃ m c, x = .recv ∧ n.mailbox.pop = some (m, c) ∧ n' = { n with mailbox := c, pc := .process .stopping m }) ∨
      (x = .none ∧ n.mailbox.queue = [] ∧ n.mailbox.closed = true ∧ n' = { n with pc := .recheck }) ∨
      x = .tick ∧ (n.timeoutCounter ≠ 10 ∧ n' = { n with timeoutCounter := n.timeoutCounter + 1, pc := .recheck } ∨
        n.timeoutCounter = 10 ∧ n' = n.unwind .timeout) := by
  simp only [exec, hpc, stoppingLoop] at h
  split at h
  · split at h
    · rename_i ht
      cases h
      exact .inr (.inr ⟨rfl, .inr ⟨ht, rfl⟩⟩)
    · rename_i ht
      cases h
      exact .inr (.inr ⟨rfl, .inl ⟨ht, rfl⟩⟩)
  · unfold receive at h
    split at h
    · obtain ⟨⟨m, c⟩, hp, rfl⟩ := Option.map_eq_some_iff.1 h
      exact .inl ⟨m, c, rfl, hp, rfl⟩
    · split at h
      · rename_i hq hc
        cases h
        exact .inr (.inl ⟨rfl, hq, hc, rfl⟩)
      · cases h
    · cases h

/-- The end of a turn. -/
theorem recheck_cases {n n' : Node A M} {x : Act A M} (hpc : n.pc = .recheck) (h : n.exec x = some n') :
    n.isClosed = true ∧ n' = n.stoppingDone ∨ n.isClosed = false ∧ n' = { n with pc := .wait } := by
  simp only [exec, hpc] at h
  split at h
  · cases hc : n.isClosed <;> rw [hc] at h <;> cases h
    · exact .inr ⟨rfl, rfl⟩
    · exact .inl ⟨rfl, rfl⟩
  · cases h

/-- Elsewhere the seconds are only set back, before the loop. -/
theorem exec_counter {n n' : Node A M} {x : Act A M} (hx : Exec n x n') (hw : n.pc ≠ .wait) :
    n'.timeoutCounter = n.timeoutCounter ∨ n.pc = .notify ∧ n'.timeoutCounter = 0 := by
  cases hx with
  | op o ho' hu ho => exact .inl (ctxOp_kept ho).timeoutCounter
  | unwind c hc =>
    obtain ⟨aw, ak, h⟩ := unwind_eq n c
    exact .inl (by rw [h])
  | check hand hpc => left; unfold checkStep; split <;> cases hand <;> rfl
  | acquired hand k rest hpc hk => left; cases hand <;> rfl
  | task p m a k h hx hpc hb => exact .inl (anonymous_kept { n with actor := a } (.reply k h)).timeoutCounter
  | await p m stopNow w hpc hb =>
    obtain ⟨st, h, -⟩ := subscribe_eq n stopNow w
    exact .inl (by rw [h]; rfl)
  | cancelClosed p m hpc hc =>
    obtain ⟨aw, ak, h⟩ := dropMail_eq n m
    exact .inl (by rw [h]; rfl)
  | cancelSent p m c hpc hc =>
    obtain ⟨aw, ak, h⟩ := dropMail_eq { n with mailbox := c } m
    exact .inl (by rw [h]; rfl)
  | postRun p a hpc =>
    left
    cases p with
    | main => simp only [processed]; split <;> rfl
    | stopping | stopped => rfl
  | notify hpc => exact .inr ⟨hpc, rfl⟩
  | again t hpc => exact absurd hpc hw
  | finish hpc => left; unfold finish; (repeat' split) <;> rfl
  | _ => exact .inl rfl

end Node

/-! ## All turns -/

/-- The loop of `stopping` is not entered yet. -/
def Pc.beforeLoop (pc : Pc A M) : Bool :=
  match pc with
  | .onStopping | .isClosed | .notify => true
  | _ => pc.stage.rank = 0

/-- The loop has run out of patience. -/
def Pc.timedOut : Pc A M → Bool
  | .panicked .timeout => true
  | _ => false

theorem Pc.Flow.beforeLoop {pc pc' : Pc A M} (h : pc.Flow pc') (hb : pc'.beforeLoop = true) : pc.beforeLoop = true := by
  cases h with
  | stay => exact hb
  | loop _ h h' => rcases h with rfl | rfl <;> rfl
  | took m _ h => unfold Pc.took at h; split at h <;> cases h <;> first | rfl | cases hb
  | process m h | select h => rcases h with rfl | ⟨k, rest, rfl⟩ <;> rfl
  | postRun p m h => rcases h with rfl | ⟨seen, rfl⟩ | rfl <;> exact hb
  | onStopping h => rcases h with rfl | rfl | rfl <;> rfl
  | wait h | recheck h | onStopped h | drain h => cases hb
  | finish _ h h' => rcases h' with rfl | rfl | rfl <;> cases hb
  | acquire hand k rest h | preRun p m h | handle p m h | future p m seen h | cancelling p m seen h | isClosed h
  | notify h | assertClosed h | onEnd h | returned h => subst h; first | rfl | exact hb

/-- The message of a turn is at hand, or the turn is at its end. -/
def Pc.turning : Pc A M → Bool
  | .process .stopping _ | .preRun .stopping _ | .handle .stopping _ | .future .stopping _ _
  | .cancelling .stopping _ | .postRun .stopping | .recheck => true
  | _ => false

theorem Pc.Flow.turning {pc pc' : Pc A M} (h : pc.Flow pc') (ht : pc'.turning = true) :
    pc = .wait ∨ pc.turning = true := by
  cases h with
  | stay => exact .inr ht
  | loop _ h h' => rcases h' with rfl | rfl <;> cases ht
  | took m _ h => unfold Pc.took at h; split at h <;> cases h <;> first | exact .inl rfl | cases ht
  | preRun p m h | handle p m h | future p m seen h | cancelling p m seen h =>
    subst h
    cases p <;> first | exact .inr rfl | cases ht
  | postRun p m h => rcases h with rfl | ⟨seen, rfl⟩ | rfl <;> cases p <;> first | exact .inr rfl | cases ht
  | recheck h =>
    rcases h with rfl | rfl
    · exact .inl rfl
    · exact .inr rfl
  | finish _ h h' => rcases h' with rfl | rfl | rfl <;> cases ht
  | _ => cases ht

/-- The executor is at the end of a turn, or past the loop. -/
def Pc.passed : Pc A M → Bool
  | .recheck => true
  | .panicked .timeout => false
  | pc => 2 ≤ pc.stage.rank

/-- Nothing is taken from the mailbox in between. -/
theorem turning_exec {n n' : Node A M} {x : Act A M} (ht : n.pc.turning = true) (hx : Node.Exec n x n') :
    n'.mailbox.taken = n.mailbox.taken ∧ n'.timeoutCounter = n.timeoutCounter := by
  constructor
  · rcases Node.exec_mailbox hx with h | ⟨m, c, pc, -, htook, -⟩ | ⟨p, m, -, hc⟩ | ⟨h, -⟩
    · rw [h]
    · unfold Pc.took at htook
      split at htook <;> rename_i hpc <;> first | (rw [hpc] at ht; cases ht) | cases htook
    · exact (Chan.Grown.of_push hc).taken
    · rw [h, Chan.close_taken]
  · rcases Node.exec_counter hx (fun hpc => by rw [hpc] at ht; cases ht) with h | ⟨hpc, -⟩
    · exact h
    · rw [hpc] at ht
      cases ht

/-- What is known of the turns so far. -/
structure Turned (ts : List Turn) (n : Node A M) : Prop where
  before : n.pc.beforeLoop = true → ts = []
  counter : n.timeoutCounter ≤ 10
  /-- the turn that has started took a message or counted a second, or it is over -/
  within : n.pc.turning = true → ∃ t, ts.getLast? = some t ∧ (t.none = false → t.Progress n) ∧
    (t.none = true → n.pc = .recheck ∧ n.mailbox.taken.length = t.taken ∧ n.timeoutCounter = t.seconds)

/-- They are paid for by messages and seconds, but for the panic and for the last one. -/
structure Paid (ts : List Turn) (n : Node A M) : Prop where
  last : ts.getLast?.any Turn.none = true → n.pc.passed = true
  paid : ts.length ≤ n.mailbox.taken.length + n.timeoutCounter + n.pc.timedOut.toNat +
    (ts.getLast?.any Turn.none).toNat

theorem turned_wait {ts : List Turn} {n n' : Node A M} {x : Act A M} (hi : Turned ts n) (hpc : n.pc = .wait)
    (h : n.exec x = some n') : Turned (ts ++ n.turn (.exec x)) n' := by
  have hcounter := hi.counter
  rcases Node.wait_cases hpc h with ⟨m, c, rfl, hp, rfl⟩ | ⟨rfl, -, -, rfl⟩ | ⟨rfl, ⟨ht, rfl⟩ | ⟨ht, rfl⟩⟩ <;>
    simp only [Node.turn, hpc]
  · refine ⟨fun hb => (by cases hb), hcounter, fun _ => ⟨_, List.getLast?_concat, fun _ => .inl ⟨?_, rfl⟩,
      fun h => (by cases h)⟩⟩
    show c.taken.length = _
    rw [(Chan.pop_cases hp).2.2.2.2, List.length_append, List.length_singleton]
  · exact ⟨fun hb => (by cases hb), hcounter, fun _ => ⟨_, List.getLast?_concat, fun h => (by cases h),
      fun _ => ⟨rfl, rfl, rfl⟩⟩⟩
  · exact ⟨fun hb => (by cases hb), show n.timeoutCounter + 1 ≤ 10 by omega, fun _ => ⟨_, List.getLast?_concat,
      fun _ => .inr ⟨rfl, rfl⟩, fun h => (by cases h)⟩⟩
  · obtain ⟨aw, ak, hun⟩ := Node.unwind_eq n .timeout
    rw [hun]
    exact ⟨fun hb => (by cases hb), hcounter, fun ht => (by cases ht)⟩

theorem turned_exec {ts : List Turn} {n n' : Node A M} {x : Act A M} (hi : Turned ts n) (hpc : n.pc ≠ .wait)
    (h : n.exec x = some n') : Turned ts n' := by
  have hx := Node.exec_rule h
  have hcounter := hi.counter
  refine ⟨fun hb => ?_, ?_, fun ht => ?_⟩
  · rcases Node.exec_flow hx with ⟨c, -, rfl⟩ | hf
    · cases hb
    · exact hi.before (hf.beforeLoop hb)
  · rcases Node.exec_counter hx hpc with hc | ⟨-, hc⟩ <;> omega
  · by_cases hre : n.pc = .recheck
    · -- behind the end of a turn is the next one, or `on_stopped`
      rcases Node.recheck_cases hre h with ⟨-, rfl⟩ | ⟨-, rfl⟩ <;> cases ht
    · rcases Node.exec_flow hx with ⟨c, -, rfl⟩ | hf
      · cases ht
      have hturning := (hf.turning ht).resolve_left hpc
      obtain ⟨htaken, hseconds⟩ := turning_exec hturning hx
      obtain ⟨t, hlast, hprogress, hnone⟩ := hi.within hturning
      refine ⟨t, hlast, fun hn => ?_, fun hn => absurd (hnone hn).1 hre⟩
      unfold Turn.Progress
      rw [htaken, hseconds]
      exact hprogress hn

theorem turned_step {ts : List Turn} {n n' : Node A M} {l : Label A M} (hi : Turned ts n)
    (h : n.step l = some n') : Turned (ts ++ n.turn l) n' := by
  cases l with
  | exec x =>
    by_cases hpc : n.pc = .wait
    · exact turned_wait hi hpc h
    · rw [Node.turn_nil fun _ _ => hpc, List.append_nil]
      exact turned_exec hi hpc h
  | _ =>
    rcases Node.step_outside h with ⟨x, hx, -⟩ | ⟨ms, ho⟩
    · cases hx
    · rw [Node.turn_nil (by simp), List.append_nil]
      refine ⟨?_, ?_, ?_⟩
      · rw [ho.pc]
        exact hi.before
      · rw [ho.timeoutCounter]
        exact hi.counter
      · unfold Turn.Progress
        rw [ho.pc, ho.timeoutCounter, ho.mailbox.taken]
        exact hi.within

theorem turned_init (cfg : Config) (a : A) : Turned [] (Node.init cfg a : Node A M) where
  before _ := rfl
  counter := Nat.zero_le _
  within h := by cases h

/-- **What the turns that end without returning come to**: they make progress if and only if none
of them has found the mailbox closed and empty. -/
theorem progresses_iff {ts : List Turn} {n : Node A M} {l : Label A M} (hi : Turned ts n) :
    Progresses (n, ts) l ↔ NoneReturns (n, ts) l := by
  have hturn : n.pc.rechecks = true → n.pc.turning = true := by
    intro hpc
    unfold Pc.rechecks at hpc
    split at hpc
    · rename_i hq
      rw [hq]
      rfl
    · cases hpc
  constructor
  · intro h hl hpc hnone
    by_contra hcl
    obtain ⟨t, ht, hprogress⟩ := h hl hpc (by simpa using hcl)
    obtain ⟨t', ht', -, hover⟩ := hi.within (hturn hpc)
    rw [show ts.getLast? = some t from ht] at ht'
    obtain rfl := Option.some.inj ht'
    have hnone : t.none = true := by simpa [show ts.getLast? = some t from ht] using hnone
    obtain ⟨-, htaken, hseconds⟩ := hover hnone
    rcases hprogress with ⟨h, -⟩ | ⟨-, h⟩
    · exact absurd (htaken.symm.trans h) (by omega)
    · exact absurd (hseconds.symm.trans h) (by omega)
  · intro h hl hpc hcl
    obtain ⟨t, ht, hprogress, -⟩ := hi.within (hturn hpc)
    refine ⟨t, ht, hprogress ?_⟩
    by_contra hnone
    have hclosed := h hl hpc (by simpa [show ts.getLast? = some t from ht] using hnone)
    rw [hcl] at hclosed
    cases hclosed

theorem paid_wait {ts : List Turn} {n n' : Node A M} {x : Act A M} (hp : Paid ts n) (hpc : n.pc = .wait)
    (h : n.exec x = some n') : Paid (ts ++ n.turn (.exec x)) n' := by
  -- no turn before this one has yielded `None`
  have hnone : ts.getLast?.any Turn.none = false := by
    by_contra hlast
    have := hp.last (by simpa using hlast)
    rw [hpc] at this
    cases this
  have hpaid := hp.paid
  rw [hnone, hpc, show (Pc.wait : Pc A M).timedOut.toNat = 0 from rfl] at hpaid
  simp only [Bool.toNat_false, Nat.add_zero] at hpaid
  rcases Node.wait_cases hpc h with ⟨m, c, rfl, hpop, rfl⟩ | ⟨rfl, -, -, rfl⟩ | ⟨rfl, ⟨ht, rfl⟩ | ⟨ht, rfl⟩⟩ <;>
    simp only [Node.turn, hpc]
  · refine ⟨fun h => (by simp at h), ?_⟩
    show (ts ++ [_]).length ≤ c.taken.length + n.timeoutCounter + 0 + _
    rw [(Chan.pop_cases hpop).2.2.2.2, List.length_append, List.length_append, List.length_singleton,
      List.length_singleton]
    omega
  · refine ⟨fun _ => rfl, ?_⟩
    show (ts ++ [_]).length ≤ n.mailbox.taken.length + n.timeoutCounter + 0 + _
    rw [List.getLast?_concat, List.length_append, List.length_singleton]
    exact Nat.add_le_add_right hpaid 1
  · refine ⟨fun h => (by simp at h), ?_⟩
    show (ts ++ [_]).length ≤ n.mailbox.taken.length + (n.timeoutCounter + 1) + 0 + _
    rw [List.length_append, List.length_singleton]
    omega
  · obtain ⟨aw, ak, hun⟩ := Node.unwind_eq n .timeout
    rw [hun]
    refine ⟨fun h => (by simp at h), ?_⟩
    show (ts ++ [_]).length ≤ n.mailbox.taken.length + n.timeoutCounter + 1 + _
    rw [List.length_append, List.length_singleton]
    omega

theorem timedOut_iff {pc : Pc A M} : pc.timedOut = true ↔ pc = .panicked .timeout := by
  unfold Pc.timedOut
  constructor
  · intro h
    split at h
    · rfl
    · cases h
  · rintro rfl
    rfl

theorem passed_of_rank {pc : Pc A M} (hpc : pc ≠ .panicked .timeout) (h : 2 ≤ pc.stage.rank) : pc.passed = true := by
  unfold Pc.passed
  split
  · rfl
  · exact absurd rfl hpc
  · simpa using h

/-- Behind the loop the executor does not come back to it. -/
theorem passed_exec {n n' : Node A M} {x : Act A M} (hpc : n.pc ≠ .recheck) (hp : n.pc.passed = true)
    (hx : Node.Exec n x n') : n'.pc.passed = true := by
  have hrank : 2 ≤ n.pc.stage.rank := by
    unfold Pc.passed at hp
    split at hp
    · rename_i hq
      exact absurd hq hpc
    · cases hp
    · simpa using hp
  refine passed_of_rank (fun htimeout => ?_) (Nat.le_trans hrank (exec_rank hx))
  have hwait := (exec_panics hx htimeout fun h => exec_failed hx (by rw [h]; rfl)).2.1
  rw [hwait] at hrank
  cases hrank with
  | step h => cases h

theorem paid_exec {ts : List Turn} {n n' : Node A M} {x : Act A M} (hi : Turned ts n) (hp : Paid ts n)
    (hpc : n.pc ≠ .wait) (hc : NoneReturns (n, ts) (.exec x)) (h : n.exec x = some n') : Paid ts n' := by
  have hx := Node.exec_rule h
  have hpaid := hp.paid
  have hup : n.pc.timedOut = false := by
    by_contra hno
    have htimed : n.pc.timedOut = true := by simpa using hno
    exact exec_failed hx (by rw [timedOut_iff.1 htimed]; rfl)
  have htaken : n.mailbox.taken.length ≤ n'.mailbox.taken.length := by
    rcases Node.exec_taken hx with h | ⟨m, h⟩
    · exact Nat.le_of_eq (by rw [h])
    · rw [h, List.length_append]
      omega
  rw [hup, show false.toNat = 0 from rfl] at hpaid
  refine ⟨fun hlast => ?_, ?_⟩
  · by_cases hre : n.pc = .recheck
    · -- the receive has yielded `None`, so the loop returns
      rcases Node.recheck_cases hre h with ⟨-, rfl⟩ | ⟨hcl, -⟩
      · rfl
      · have hclosed : n.isClosed = true := hc rfl (show n.pc.rechecks = true by rw [hre]; rfl) hlast
        rw [hcl] at hclosed
        cases hclosed
    · exact passed_exec hre (hp.last hlast) hx
  · rcases Node.exec_counter hx hpc with ht | ⟨hn, ht⟩
    · omega
    · -- the seconds are set back before the first turn
      have hts : ts = [] := hi.before (by rw [hn]; rfl)
      rw [hts]
      exact Nat.zero_le _

theorem paid_step {ts : List Turn} {n n' : Node A M} {l : Label A M} (hi : Turned ts n) (hp : Paid ts n)
    (hc : NoneReturns (n, ts) l) (h : n.step l = some n') : Paid (ts ++ n.turn l) n' := by
  cases l with
  | exec x =>
    by_cases hpc : n.pc = .wait
    · exact paid_wait hp hpc h
    · rw [Node.turn_nil fun _ _ => hpc, List.append_nil]
      exact paid_exec hi hp hpc hc h
  | _ =>
    rcases Node.step_outside h with ⟨x, hx, -⟩ | ⟨ms, ho⟩
    · cases hx
    · rw [Node.turn_nil (by simp), List.append_nil]
      refine ⟨?_, ?_⟩
      · rw [ho.pc]
        exact hp.last
      · rw [ho.pc, ho.timeoutCounter, ho.mailbox.taken]
        exact hp.paid

/-- Ten seconds and one more without a message end in the panic, as long as a receiver is
left. -/
theorem patience {n : Node A M} (hpc : n.pc = .wait) (hcl : n.isClosed = false) (ht : n.timeoutCounter ≤ 10) :
    ∃ ls n', (∀ l ∈ ls, l = .exec .tick ∨ l = .exec .go) ∧ Lts.run Node.step n ls = some n' ∧
      n'.pc = .panicked .timeout := by
  obtain ⟨k, hk⟩ := Nat.exists_eq_add_of_le ht
  induction k generalizing n with
  | zero =>
    refine ⟨[.exec .tick], n.unwind .timeout, by simp, ?_, rfl⟩
    simp [Lts.run, Node.step, Node.exec, hpc, Node.stoppingLoop, show n.timeoutCounter = 10 by omega]
  | succ k ih =>
    have hstep : Lts.run Node.step n [.exec .tick, .exec .go] =
        some { n with timeoutCounter := n.timeoutCounter + 1, pc := .wait } := by
      have hcl' : ∀ (t : ℕ) (pc : Pc A M), ({ n with timeoutCounter := t, pc := pc } : Node A M).isClosed = false :=
        fun _ _ => hcl
      simp [Lts.run, Node.step, Node.exec, hpc, Node.stoppingLoop, show n.timeoutCounter ≠ 10 by omega, hcl']
    have hnext := ih (n := { n with timeoutCounter := n.timeoutCounter + 1, pc := .wait }) rfl hcl
      (by dsimp only; omega) (by dsimp only; omega)
    obtain ⟨ls, n', hls, hr, hpan⟩ := hnext
    refine ⟨.exec .tick :: .exec .go :: ls, n', ?_, Lts.run_append.2 ⟨_, hstep, hr⟩, hpan⟩
    simpa using hls

/-! ## The loop ends -/

/-- The loop of `stopping` goes forward in the run of `ls` from `n₀` to `n`. -/
structure StoppingEnds (n₀ : Node A M) (ls : List (Label A M)) (n : Node A M) : Prop where
  progress : Lts.Along (Lts.record Node.step Node.turn) Progresses (n₀, []) ls
  bounded : turns n₀ ls ≤ n.mailbox.accepted.length + 11
  /-- after so many turns it has panicked, or it is at the end of a turn, or past the loop -/
  lasts : n.mailbox.accepted.length + 11 ≤ turns n₀ ls → n.pc = .panicked .timeout ∨ n.pc.passed = true
  /-- it is not left in another way while a child is alive, and the panic can always come -/
  leaves : n.Late → ∀ s ∈ n.tasks, s.task.kin = true → s.task.rx = false
  fires : n.pc = .wait → n.isClosed = false → ∃ ls' n', (∀ l ∈ ls', l = .exec .tick ∨ l = .exec .go) ∧
    Lts.run Node.step n ls' = some n' ∧ n'.pc = .panicked .timeout

/-- Every turn that can start here takes a message, counts a second or panics. -/
def Node.Advances (n : Node A M) (l : Label A M) : Prop :=
  l.isExec = true → n.pc = .wait → ∀ x n', n.exec x = some n' →
    (∃ m, n'.pc = .process .stopping m ∧ n'.mailbox.taken = n.mailbox.taken ++ [m]) ∨
      n'.timeoutCounter = n.timeoutCounter + 1 ∨ n'.pc = .panicked .timeout

/-- So does the loop in each of its turns, and after so many turns it has panicked. -/
structure StoppingAdvances (n₀ : Node A M) (ls : List (Label A M)) (n : Node A M) : Prop where
  advances : Lts.Along Node.step Node.Advances n₀ ls
  lasts : n.mailbox.accepted.length + 11 ≤ turns n₀ ls → n.pc = .panicked .timeout

theorem kinGone_run {cfg : Config} {a : A} {ls : List (Label A M)} {n : Node A M}
    (hr : Lts.run Node.step (Node.init cfg a) ls = some n) : KinGone n := by
  refine (Lts.run_inv (I := fun n => LifeOK n ∧ KinGone n) ?_ ⟨(doors_init cfg a).life, (doors_init cfg a).kin⟩ hr).2
  exact fun n l n' hi h => ⟨lifeOK_step hi.1 h, kinGone_step hi.1 hi.2 h⟩

theorem turned_record (p : Node A M × List Turn) (l : Label A M) (q : Node A M × List Turn) (hi : Turned p.2 p.1)
    (h : Lts.record Node.step Node.turn p l = some q) : Turned q.2 q.1 := by
  obtain ⟨n', hs, rfl⟩ := Lts.record_some.1 h
  exact turned_step hi hs

/-- What holds of the actor with its turns along a run holds at its end. -/
theorem record_run {P : Node A M × List Turn → Label A M → Prop} {cfg : Config} {a : A} {ls : List (Label A M)}
    {n : Node A M} {I : Node A M × List Turn → Prop}
    (hstep : ∀ p l q, I p → P p l → Lts.record Node.step Node.turn p l = some q → I q) (h0 : I (Node.init cfg a, []))
    (h : Lts.Along (Lts.record Node.step Node.turn) P (Node.init cfg a, []) ls)
    (hr : Lts.run Node.step (Node.init cfg a) ls = some n) :
    I (n, Lts.outs Node.step Node.turn (Node.init cfg a) ls) := by
  have hrec : Lts.run (Lts.record Node.step Node.turn) (Node.init cfg a, []) ls = some (n, _) := Lts.run_record hr
  rw [List.nil_append] at hrec
  exact Lts.run_along hstep h0 h hrec

theorem paid_run {cfg : Config} {a : A} {ls : List (Label A M)} {n : Node A M}
    (h : Lts.Along (Lts.record Node.step Node.turn) NoneReturns (Node.init cfg a, []) ls)
    (hr : Lts.run Node.step (Node.init cfg a) ls = some n) :
    Turned (Lts.outs Node.step Node.turn (Node.init cfg a) ls) n ∧
      Paid (Lts.outs Node.step Node.turn (Node.init cfg a) ls) n := by
  refine record_run (I := fun p => Turned p.2 p.1 ∧ Paid p.2 p.1) ?_ ?_ h hr
  · intro p l q hi hc h
    obtain ⟨n', hs, rfl⟩ := Lts.record_some.1 h
    exact ⟨turned_step hi.1 hs, paid_step hi.1 hi.2 hc hs⟩
  · exact ⟨turned_init cfg a, fun h => (by cases h), Nat.zero_le _⟩

/-- With ten seconds at most, the messages pay for all turns but eleven, and for all but ten if the
last one is not the panic and has not yielded `None`. -/
theorem Paid.bounds {ts : List Turn} {n : Node A M} (hp : Paid ts n) (hi : Turned ts n) :
    ts.length ≤ n.mailbox.accepted.length + 11 ∧
      (n.mailbox.accepted.length + 11 ≤ ts.length → ts.getLast?.any Turn.none = false → n.pc = .panicked .timeout) := by
  have hcounter := hi.counter
  have hlen := hp.paid
  have htaken : n.mailbox.taken.length ≤ n.mailbox.accepted.length := by
    rw [n.mailbox.history, List.length_append]
    omega
  rcases hnone : ts.getLast?.any Turn.none with - | -
  · rw [hnone, show false.toNat = 0 from rfl] at hlen
    cases hout : n.pc.timedOut with
    | false =>
      rw [hout, show false.toNat = 0 from rfl] at hlen
      exact ⟨by omega, by omega⟩
    | true =>
      rw [hout, show true.toNat = 1 from rfl] at hlen
      exact ⟨by omega, fun _ _ => timedOut_iff.1 hout⟩
  · have hpassed := hp.last hnone
    have hout : n.pc.timedOut = false := by
      by_contra hno
      have htimed : n.pc.timedOut = true := by simpa using hno
      rw [timedOut_iff.1 htimed] at hpassed
      cases hpassed
    rw [hnone, hout, show false.toNat = 0 from rfl, show true.toNat = 1 from rfl] at hlen
    exact ⟨by omega, fun _ h => (by cases h)⟩

/-! ## Turns that return -/

/-- When the receive finds the mailbox open, or a message in it, the turn does not yield `None`. -/
theorem noNone_record (p : Node A M × List Turn) (l : Label A M) (q : Node A M × List Turn)
    (hi : p.2.getLast?.any Turn.none = false) (hc : Receivable p.1 l)
    (hq : Lts.record Node.step Node.turn p l = some q) : q.2.getLast?.any Turn.none = false := by
  obtain ⟨n', hs, rfl⟩ := Lts.record_some.1 hq
  show (p.2 ++ p.1.turn l).getLast?.any Turn.none = false
  unfold Node.turn
  split
  · rename_i hpc
    rcases Node.wait_cases hpc hs with ⟨m, c, hx, -⟩ | ⟨-, hqueue, hclosed, -⟩ | ⟨hx, -⟩
    · cases hx
    · simp [Receivable, Node.receivable, hpc, hqueue, hclosed] at hc
    · cases hx
  · rw [List.getLast?_concat]
    rfl
  · rwa [List.append_nil]

theorem noneReturns_of_receivable {n : Node A M} {ls : List (Label A M)}
    (h : Lts.Along Node.step Receivable n ls) :
    Lts.Along (Lts.record Node.step Node.turn) NoneReturns (n, []) ls := by
  refine Lts.Along.of_inv (I := fun p => p.2.getLast?.any Turn.none = false) (P := fun p l => Receivable p.1 l)
    noNone_record ?_ rfl (Lts.Along.record_iff.2 h)
  intro p l hi _ _ _ hnone
  rw [hi] at hnone
  cases hnone

/-- A turn at a mailbox that is closed and empty makes no progress, and every other one does. -/
theorem advances_iff {n : Node A M} {l : Label A M} : n.Advances l ↔ Receivable n l := by
  constructor
  · intro hp
    by_contra hc
    unfold Receivable Node.receivable at hc
    split at hc
    · rename_i x hpc
      simp only [Bool.or_eq_true, Bool.not_eq_true', not_or, Bool.not_eq_false, List.isEmpty_iff] at hc
      have hnone : n.exec .none = some { n with pc := .recheck } := by
        simp [Node.exec, hpc, Node.stoppingLoop, Node.receive, hc.1, hc.2]
      rcases hp rfl hpc .none _ hnone with ⟨m, h, -⟩ | h | h
      · cases h
      · exact absurd h (Nat.succ_ne_self _).symm
      · cases h
    · exact hc rfl
  · intro hc hl hpc x n' hx
    have hrec : Receivable n (.exec x) := by
      unfold Label.isExec at hl
      split at hl
      · simpa [Receivable, Node.receivable, hpc] using hc
      · cases hl
    rcases Node.wait_cases hpc hx with ⟨m, c, -, hp, rfl⟩ | ⟨-, hq, hcl, -⟩ | ⟨-, ⟨-, rfl⟩ | ⟨-, rfl⟩⟩
    · exact .inl ⟨m, rfl, (Chan.pop_cases hp).2.2.2.2⟩
    · simp [Receivable, Node.receivable, hpc, hq, hcl] at hrec
    · exact .inr (.inl rfl)
    · exact .inr (.inr rfl)

/-- **Every turn of the loop of `stopping` makes progress or returns**, and so the loop ends, if
and only if it returns whenever its receive has yielded `None`. The turns that return make progress
as well, if and only if the mailbox is not closed and empty at any of the `select!`s. -/
theorem stopping_ends {cfg : Config} {a : A} {ls : List (Label A M)} {n : Node A M}
    (hr : Lts.run Node.step (Node.init cfg a) ls = some n) :
    (StoppingEnds (Node.init cfg a) ls n ↔
      Lts.Along (Lts.record Node.step Node.turn) NoneReturns (Node.init cfg a, []) ls) ∧
    (StoppingEnds (Node.init cfg a) ls n ∧ StoppingAdvances (Node.init cfg a) ls n ↔
      Lts.Along Node.step Receivable (Node.init cfg a) ls) := by
  have h0 : Turned [] (Node.init cfg a : Node A M) := turned_init cfg a
  have hiff : StoppingEnds (Node.init cfg a) ls n ↔
      Lts.Along (Lts.record Node.step Node.turn) NoneReturns (Node.init cfg a, []) ls := by
    constructor
    · intro h
      exact Lts.Along.of_inv (fun p l q hi _ h => turned_record p l q hi h) (fun p l hi => (progresses_iff hi).1) h0
        h.progress
    · intro h
      obtain ⟨hturned, hpaid⟩ := paid_run h hr
      obtain ⟨hbounded, hlasts⟩ := hpaid.bounds hturned
      refine ⟨?_, hbounded, fun hle => ?_, kinGone_run hr, fun hpc hcl => patience hpc hcl hturned.counter⟩
      · exact Lts.Along.of_inv (fun p l q hi _ h => turned_record p l q hi h) (fun p l hi => (progresses_iff hi).2) h0 h
      · rcases hnone : (Lts.outs Node.step Node.turn (Node.init cfg a) ls).getLast?.any Turn.none with - | -
        · exact .inl (hlasts hle hnone)
        · exact .inr (hpaid.last hnone)
  refine ⟨hiff, fun h => h.2.advances.mono fun n l => advances_iff.1, fun h => ?_⟩
  have hreturns := noneReturns_of_receivable h
  obtain ⟨hturned, hpaid⟩ := paid_run hreturns hr
  refine ⟨hiff.2 hreturns, h.mono fun n l => advances_iff.2, fun hle => (hpaid.bounds hturned).2 hle ?_⟩
  exact record_run (I := fun p => p.2.getLast?.any Turn.none = false) noNone_record rfl (Lts.Along.record_iff.2 h) hr

/-- An actor with a child is told to stop, and waits for two seconds. -/
def patientRun : List (Label Unit ℕ) :=
  [.exec (.op (.spawn 1)), .exec (.ret ()), .send (.await true), .exec .recv, .exec .go, .exec .go, .exec (.ret ()),
    .exec .go, .exec (.ret ()), .exec (.ret ()), .exec .go, .exec .go, .exec .tick, .exec .go, .exec .tick]

theorem stopping_ends_patientRun :
    ∃ n : Node Unit ℕ, Lts.run Node.step (Node.init ⟨4, 1, false, []⟩ ()) patientRun = some n ∧ n.timeoutCounter = 2 ∧
      StoppingEnds (Node.init ⟨4, 1, false, []⟩ ()) patientRun n := by
  have hr : ∃ n : Node Unit ℕ, Lts.run Node.step (Node.init ⟨4, 1, false, []⟩ ()) patientRun = some n ∧
      n.timeoutCounter = 2 := ⟨_, rfl, rfl⟩
  obtain ⟨n, hr, ht⟩ := hr
  exact ⟨n, hr, ht, (stopping_ends hr).1.2 (by decide)⟩

/-- An actor starts a child and aborts; in `stopping` its receive yields `None` twelve times. -/
def spinRun : List (Label Unit ℕ) :=
  [.exec (.op (.spawn 1)), .exec (.op .abort), .exec (.ret ()), .exec .none, .exec (.ret ()), .exec .go, .exec .go] ++
    (List.replicate 12 [.exec .none, .exec .go]).flatten

/-- **With its mailbox closed and empty the loop of `stopping` spins**: twelve turns without
a message and without a second. -/
theorem stopping_spins :
    ∃ n : Node Unit ℕ, Lts.run Node.step (Node.init ⟨4, 1, false, []⟩ ()) spinRun = some n ∧ n.pc = .wait ∧
      n.isClosed = false ∧ n.timeoutCounter = 0 ∧ n.mailbox.accepted = [] ∧
      turns (Node.init ⟨4, 1, false, []⟩ ()) spinRun = 12 ∧
      ¬ StoppingEnds (Node.init ⟨4, 1, false, []⟩ ()) spinRun n := by
  have hr : ∃ n : Node Unit ℕ, Lts.run Node.step (Node.init ⟨4, 1, false, []⟩ ()) spinRun = some n ∧ n.pc = .wait ∧
      n.isClosed = false ∧ n.timeoutCounter = 0 ∧ n.mailbox.accepted = [] ∧
      turns (Node.init ⟨4, 1, false, []⟩ ()) spinRun = 12 := ⟨_, rfl, rfl, rfl, rfl, rfl, rfl⟩
  obtain ⟨n, hr, hpc, hcl, ht, hacc, hturns⟩ := hr
  refine ⟨n, hr, hpc, hcl, ht, hacc, hturns, fun h => ?_⟩
  have hbound := h.bounded
  rw [hturns, hacc] at hbound
  exact absurd hbound (by decide)

end Tokactor
