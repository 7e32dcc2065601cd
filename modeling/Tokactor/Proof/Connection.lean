import Tokactor.Model.Connection
import Tokactor.Proof.Handover
import Tokactor.Proof.Reader
import Tokactor.Proof.Writes

/-!
# What a connection keeps

* `Node.passed_step`: the messages an actor has dealt with are never fewer.
* `Connection.Waited`: the reader task ends behind the task of the connection, and that
  behind the actor.
* `Connection.Unhurt`: no call of a handler is lost because the writer task was shut down.
* `Connection.Graceful`: what a step must not do, for both.
-/

namespace Tokactor

open Cells

variable {len : ℕ} {P A M : Type}

/-! ## The actor -/

theorem Pc.dead_over {pc : Pc A M} (h : pc.dead = true) : pc.over = true ∨ pc.stage = .failed := by
  cases pc <;> first | exact .inl rfl | exact .inr rfl | cases h

theorem Pc.works_live {pc : Pc A M} (h : pc.works = true) : pc.dead = false := by
  cases pc <;> first | rfl | cases h

namespace Node

variable {n n' : Node A M} {x : Act A M} {l : Label A M}

theorem exec_live (h : n.exec x = some n') : n.pc.dead = false := by
  unfold exec at h
  cases hpc : n.pc <;> rw [hpc] at h <;> first | rfl | cases h

/-- An executor that has come to its end stays there. -/
theorem dead_step (h : n.step l = some n') (hd : n.pc.dead = true) : n'.pc.dead = true := by
  rcases step_outside h with ⟨x, rfl, hx⟩ | ⟨ms, ho⟩
  · have hlive := exec_live (show n.exec x = some n' from h)
    rw [hd] at hlive
    cases hlive
  · rw [ho.pc]
    exact hd

/-- The executor has a message at hand when it took one, or when it had one. -/
theorem exec_hand (hx : Exec n x n') :
    (∃ m c pc, n.mailbox.pop = some (m, c) ∧ n.pc.took m = some pc ∧ n' = { n with mailbox := c, pc := pc }) ∨
      n'.pc.hand.toList.length ≤ n.pc.hand.toList.length := by
  cases hx with
  | took m c pc hp hpc => exact .inl ⟨m, c, pc, hp, hpc, rfl⟩
  | op o ho' hu ho => exact .inr (Nat.le_of_eq (by rw [(ctxOp_kept ho).pc]))
  | check hand hpc =>
    right
    unfold checkStep
    split <;> cases hand <;> simp [hpc, Pc.hand, passCheck]
  | acquired hand k rest hpc hk => right; cases hand <;> simp [hpc, Pc.hand, passCheck]
  | onStart a hpc => right; unfold mainLoop; cases n.cfg.supervised <;> simp [Pc.hand]
  | postRun p a hpc =>
    right
    cases p <;> simp only [processed] <;> (try split) <;> (try unfold mainLoop) <;> (try cases n.cfg.supervised) <;>
      simp [Pc.hand, shutdownStart, call]
  | finish hpc => right; unfold finish; (repeat' split) <;> simp [Pc.hand]
  | process p m hpc | preRun p m a hpc | future p m a k hpc hb | changed p m seen hpc hs =>
    right
    rw [hpc]
    exact Nat.le_refl 1
  | _ => exact .inr (Nat.zero_le _)

/-- **The messages an actor has dealt with are never fewer.** -/
theorem passed_step (h : n.step l = some n') : n.passed ≤ n'.passed := by
  unfold passed
  rcases step_outside h with ⟨x, rfl, hx⟩ | ⟨ms, ho⟩
  · rcases exec_hand hx with ⟨m, c, pc, hp, hpc, rfl⟩ | hhand
    · obtain ⟨-, -, hnone, hsome, -, -⟩ := Pc.took_facts hpc n.actor
      have htaken := congrArg List.length (Chan.pop_cases hp).2.2.2.2
      simp only [hnone, hsome, Option.toList_none, Option.toList_some, List.length_nil, List.length_append,
        List.length_singleton] at htaken ⊢
      omega
    · have htaken : n.mailbox.taken.length ≤ n'.mailbox.taken.length := by
        rcases exec_taken hx with heq | ⟨m, heq⟩
        · exact Nat.le_of_eq (by rw [heq])
        · rw [heq, List.length_append]
          omega
      omega
  · exact Nat.le_of_eq (by rw [ho.pc, ho.mailbox.taken])

/-- A caller is sent the actor at the end of its executor. -/
theorem sent_dead {cfg : Config} {a b : A} {ls : List (Label A M)} (hr : Lts.run step (init cfg a) ls = some n) {w : ℕ}
    (hw : n.awaits[w]? = some (.sent b)) : n.pc.dead = true := by
  rcases awaiters_run hr with hf | ⟨h, ha⟩
  · obtain ⟨c, hpc⟩ := Pc.failed_iff.1 hf
    rw [hpc]
    rfl
  · obtain ⟨-, hpc | hpc, -⟩ := ha.holder ⟨_, hw, .inl rfl⟩ <;> rw [hpc] <;> rfl

end Node

/-! ## The reader task -/

namespace ReaderActor

variable {d : DataFrameReceiver len P M} {n n' : ReaderActor len P M} {b : Branch} {p : Peek} {l : ReaderLabel}

/-- The outer loop ends for a signal, or when the last `Reader` is dropped. -/
theorem takeRequest_over (h : n.takeRequest d b = some n') :
    n'.handles = n.handles ∧ (n'.pc.over = true → b ≠ .fut ∨ n.handles = false) := by
  unfold takeRequest at h
  split at h
  · rename_i hpc
    simp only [Option.map_eq_some_iff] at h
    obtain ⟨⟨r, w⟩, hs, rfl⟩ := h
    have hfinish : ∀ m : ReaderActor len P M, m.finish.handles = m.handles := by
      intro m
      obtain ⟨calls, heq⟩ := finish_eq m
      rw [heq]
    rcases supervisor_cases hs with ⟨⟨o, rx⟩, rfl, hrecv, rfl, rfl⟩ | ⟨hb, -, -, -, hr⟩
    · unfold recv at hrecv
      split at hrecv
      · cases hrecv
        exact ⟨rfl, fun hd => by cases hd⟩
      · split at hrecv
        · cases hrecv
        · rename_i hh
          cases hrecv
          exact ⟨hfinish _, fun _ => .inr (by simpa using hh)⟩
    · rcases hr with rfl | rfl | ⟨rfl, -, -⟩
      · exact ⟨hfinish _, fun _ => .inl hb⟩
      · exact ⟨hfinish _, fun _ => .inl hb⟩
      · exact ⟨rfl, fun _ => .inl hb⟩
  · cases h

/-- The inner loop does not end the task. -/
theorem readFrame_over (h : n.readFrame d b p = some n') : n'.handles = n.handles ∧ n'.pc.over = false := by
  have hpc : n.pc.over = false := by
    unfold readFrame at h
    split at h
    · rename_i hpc
      rw [hpc]
      rfl
    · cases h
  cases readFrame_rule h with
  | goesOn l b w hl hb hs => exact ⟨rfl, hpc⟩
  | completes | reads | drops => exact ⟨rfl, rfl⟩

/-- **How a reader task ends.** -/
theorem task_over (hl : l.task = true) (h : n.step d l = some n') :
    n'.handles = n.handles ∧
      (n'.pc.over = true → n.pc.over = true ∨ n.handles = false ∨ ∃ b, l = .request b ∧ b ≠ .fut) := by
  cases l with
  | request b =>
    obtain ⟨hh, hd⟩ := takeRequest_over h
    exact ⟨hh, fun ho => .inr ((hd ho).symm.imp_right fun hb => ⟨b, rfl, hb⟩)⟩
  | frame b p =>
    obtain ⟨hh, hd⟩ := readFrame_over h
    exact ⟨hh, fun ho => by rw [hd] at ho; cases ho⟩
  | arrive bs =>
    simp only [step] at h
    split at h <;> cases h
    exact ⟨rfl, .inl⟩
  | close =>
    cases h
    exact ⟨rfl, .inl⟩
  | read | refused | giveUp | hangUp | notify | died => cases hl

end ReaderActor

/-! ## The writer task -/

/-- The call came back with an error that is not the socket's. -/
def WriteCall.lost (w : WriteCall) : Bool :=
  match w.state with
  | .returned (.error .brokenPipe) | .returned (.error .other) => true
  | _ => false

namespace WriterActor

variable {n n' : WriterActor} {l : WriterLabel}

/-- A call is lost to a writer task that has ended. -/
theorem lost_over (hn : Kept n) {k : ℕ} {w : WriteCall} (hw : n.calls[k]? = some w) (hl : w.lost = true) :
    n.pc.over = true := by
  have hacc := hn.calls k w hw
  unfold WriteCall.lost at hl
  split at hl
  · rename_i hs
    rw [hs] at hacc
    rw [hn.closed.2 hacc.2]
    rfl
  · rename_i hs
    rw [hs] at hacc
    rw [hacc.2.2]
    rfl
  · cases hl

theorem finish_rest (n : WriterActor) : n.finish.writers = n.writers ∧ n.finish.calls.length = n.calls.length := by
  obtain ⟨calls, hlen, h⟩ := finish_eq n
  rw [h]
  exact ⟨rfl, hlen⟩

/-- The steps of the task keep the calls and the `Writer`s. -/
theorem select_rest (hs : Selects n l n') : n'.writers = n.writers ∧ n'.calls.length = n.calls.length := by
  cases hs with
  | takes data k rx hpc hrx => exact ⟨rfl, rfl⟩
  | writes data k written result hpc => exact ⟨rfl, List.length_modify _ _ _⟩
  | ends b w hpc hw hend => exact finish_rest _
  | breaks b result w data k written hpc hw hb hend =>
    obtain ⟨hw, hc⟩ := finish_rest (({ n with parentRx := w } : WriterActor).dropSender k)
    exact ⟨hw, hc.trans (List.length_modify _ _ _)⟩

/-- What a step that starts no call does to the calls and the `Writer`s. -/
theorem task_rest (hn : Kept n) (hl : l.task = true) (h : n.step l = some n') :
    n'.calls.length = n.calls.length ∧ (n.writers = 0 → n'.writers = 0) ∧
      (n'.writers = 0 → n.writers = 0 ∨ l = .dropWriter ∧ n.writers = 1) := by
  have hsame : n'.writers = n.writers → n'.calls.length = n.calls.length → n'.calls.length = n.calls.length ∧
      (n.writers = 0 → n'.writers = 0) ∧
      (n'.writers = 0 → n.writers = 0 ∨ l = .dropWriter ∧ n.writers = 1) :=
    fun hw hc => ⟨hc, hw.trans, fun h => .inl (hw.symm.trans h)⟩
  cases step_rule hn.told h with
  | task l n' hs =>
    obtain ⟨hw, hc⟩ := select_rest hs
    exact hsame hw hc
  | clone hpos => exact ⟨rfl, fun h => absurd h hpos, fun h => absurd h (Nat.succ_ne_zero _)⟩
  | dropWriter =>
    refine ⟨rfl, fun h => ?_, fun h => ?_⟩
    · show n.writers - 1 = 0
      omega
    · have hle : n.writers - 1 = 0 := h
      by_cases hzero : n.writers = 0
      · exact .inl hzero
      · exact .inr ⟨rfl, by omega⟩
  | send | refuse | giveUp => exact hsame rfl List.length_set
  | put => exact hsame rfl rfl
  | write => cases hl
  | signal l w b hl' hw => rcases hl' with rfl | rfl | rfl <;> cases hl

/-- **How a writer task ends.** -/
theorem task_over (hn : Kept n) (hl : l.task = true) (h : n.step l = some n') (hd : n'.pc.over = true) :
    n.pc.over = true ∨ n.writers = 0 ∨
      ∃ b, b ≠ .fut ∧ (l = .request b ∨ ∃ result, l = .written b result) := by
  cases step_rule hn.told h with
  | task l n' hs =>
    cases hs with
    | takes | writes => cases hd
    | ends b w hpc hw hend =>
      rcases hend with ⟨-, hnone⟩ | ⟨hb, -⟩
      · exact .inr (.inl hnone)
      · exact .inr (.inr ⟨b, hb, .inl rfl⟩)
    | breaks b result w data k written hpc hw hb hend => exact .inr (.inr ⟨b, hb, .inr ⟨result, rfl⟩⟩)
  | clone | dropWriter | send | refuse | giveUp => exact .inl hd
  | put => cases hd
  | write => cases hl
  | signal l w b hl' hw => rcases hl' with rfl | rfl | rfl <;> cases hl

end WriterActor

namespace Connection

variable {d : DataFrameReceiver len P M} {s : Scheduler} {c c' : Connection len P A M}

/-! ## A step that cuts nothing off -/

/-- The call `k` was made by the handler of a message that the actor had accepted when ctrl-c
came, if it has come. -/
def early (c : Connection len P A M) (k : ℕ) : Bool :=
  match c.owners[k]? with
  | some (some p) => c.handed.all fun h => p < h
  | _ => false

theorem early_iff {k : ℕ} :
    c.early k = true ↔ ∃ p, c.owners[k]? = some (some p) ∧ ∀ h, c.handed = some h → p < h := by
  unfold early
  split
  · rename_i p hp
    cases c.handed <;> simp [hp]
  · rename_i hne
    constructor
    · intro h
      cases h
    · rintro ⟨p, hp, -⟩
      exact absurd hp (hne p)

/-- No handler of such a message will run any more. -/
def served (c : Connection len P A M) : Bool := c.actor.pc.dead || c.handed.any fun h => h ≤ c.actor.passed

/-- No call of such a handler is under way. -/
def Settled (c : Connection len P A M) : Prop :=
  ∀ k < c.writer.calls.length, c.early k = true → ∀ w ∈ c.writer.calls[k]?, w.underWay = false

instance (c : Connection len P A M) : Decidable c.Settled := by unfold Settled; infer_instance

/-- `connection.await` is about to come back with an error. -/
def refused (c : Connection len P A M) : Bool :=
  match c.pc with
  | .leaving => c.actor.mailbox.closed
  | .awaiting w =>
    match c.actor.awaits[w]? with
    | some .dropped => true
    | _ => false
  | _ => false

/-- **The step cuts nothing off.** An error of `connection.await` comes behind the end of the
actor; the reader task takes a signal in its outer loop behind the end of the task of the
connection; the writer task takes one when what was handed over before ctrl-c is dealt
with, and the writes of it are through. -/
def Graceful (c : Connection len P A M) : ConnectionLabel A M → Prop
  | .go => c.refused = true → c.actor.pc.dead = true
  | .reader (.request b) => b ≠ .fut → c.pc.over = true
  | .writer (.request b) | .writer (.written b _) => b ≠ .fut → c.served = true ∧ c.Settled
  | _ => True

instance (c : Connection len P A M) (l : ConnectionLabel A M) : Decidable (c.Graceful l) := by
  unfold Graceful; split <;> infer_instance

/-! ## Who waits for whom -/

/-- The reader task ends behind the task of the connection, and that behind the actor. -/
structure Waited (c : Connection len P A M) : Prop where
  actor : ∃ cfg a ls, Lts.run Node.step (Node.init cfg a) ls = some c.actor
  done : c.pc = .done → c.actor.pc.dead = true
  handles : c.reader.handles = false → c.pc.over = true
  reader : c.reader.pc.over = true → c.pc.over = true

theorem Waited.act {n : Node A M} {l : Label A M} (hw : Waited c) (h : c.actor.step l = some n) :
    Waited { c with actor := n } := by
  obtain ⟨cfg, a, ls, hr⟩ := hw.actor
  exact ⟨⟨cfg, a, ls ++ [l], Lts.run_concat hr h⟩, fun hpc => Node.dead_step h (hw.done hpc), hw.handles, hw.reader⟩

/-- The task goes on in its loop, or behind it. -/
theorem Waited.move {pc : ConnectionPc} {r : ReaderActor len P M} (hw : Waited c) (hpc : c.pc.over = false)
    (hpc' : pc ≠ .done) (hh : r.handles = c.reader.handles) (hr : r.pc = c.reader.pc) :
    Waited { c with pc := pc, reader := r } where
  actor := hw.actor
  done h := absurd h hpc'
  handles h := by
    have hover := hw.handles (hh ▸ h)
    rw [hpc] at hover
    cases hover
  reader h := by
    have hover := hw.reader (hr ▸ h)
    rw [hpc] at hover
    cases hover

/-- The task ends. -/
theorem Waited.finish {pc : ConnectionPc} (hw : Waited c) (hpc : pc.over = true)
    (hd : pc = .done → c.actor.pc.dead = true) : Waited (c.finish pc) :=
  ⟨hw.actor, hd, fun _ => hpc, fun _ => hpc⟩

/-- A call of `Reader::read` leaves the reader task alone. -/
theorem read_frame {n n' : ReaderActor len P M} {l : ReaderLabel} (hl : l = .read ∨ l = .refused)
    (h : n.step d l = some n') : n'.handles = n.handles ∧ n'.pc = n.pc := by
  rcases hl with rfl | rfl <;> simp only [ReaderActor.step] at h
  · split at h
    · rw [Option.map_eq_some_iff] at h
      obtain ⟨rx, -, rfl⟩ := h
      exact ⟨rfl, rfl⟩
    · cases h
  · split at h <;> cases h
    exact ⟨rfl, rfl⟩

theorem Waited.go (hw : Waited c) (hg : c.refused = true → c.actor.pc.dead = true) (h : c.go d s = some c') :
    Waited c' := by
  unfold Connection.go at h
  split at h
  · -- it asks the reader task for a request
    rename_i hpc
    have hlive : c.pc.over = false := by rw [hpc]; rfl
    split at h
    · rename_i r hr
      cases h
      obtain ⟨hh, hrpc⟩ := read_frame (.inl rfl) hr
      exact hw.move hlive (by simp) hh hrpc
    · rw [Option.map_eq_some_iff] at h
      obtain ⟨r, hr, rfl⟩ := h
      obtain ⟨hh, hrpc⟩ := read_frame (.inr rfl) hr
      exact hw.move hlive (by simp) hh hrpc
  · -- its `read` comes back
    rename_i k hpc
    have hlive : c.pc.over = false := by rw [hpc]; rfl
    split at h
    · rename_i payload hcall
      split at h
      · rename_i n hsend
        cases h
        have hn : c.actor.step (.send (.asyncAsk payload s)) = some n := hsend
        exact (hw.act hn).move hlive (by simp) rfl rfl
      · split at h <;> cases h
        exact hw.finish rfl fun h => by cases h
    · cases h
      exact hw.move hlive (by simp) rfl rfl
    · cases h
  · -- the actor answers the request
    rename_i k hpc
    have hlive : c.pc.over = false := by rw [hpc]; rfl
    split at h <;> cases h <;> exact hw.move hlive (by simp) rfl rfl
  · -- it tells the actor to stop
    rename_i hpc
    have hlive : c.pc.over = false := by rw [hpc]; rfl
    split at h
    · rename_i n hsend
      cases h
      have hn : c.actor.step (.send (.await true)) = some n := hsend
      exact (hw.act hn).move hlive (by simp) rfl rfl
    · rw [Option.map_eq_some_iff] at h
      obtain ⟨n, hn, rfl⟩ := h
      -- the mailbox is closed, so the await comes back at once
      have hclosed : c.actor.mailbox.closed = true := by
        simp only [Node.step] at hn
        split at hn
        · assumption
        · cases hn
      have hdead := hg (by rw [refused, hpc]; exact hclosed)
      exact (hw.act hn).finish rfl fun _ => Node.dead_step hn hdead
  · -- and waits until it has
    rename_i w hpc
    split at h
    · rename_i a hsent
      rw [Option.map_eq_some_iff] at h
      obtain ⟨n, hn, rfl⟩ := h
      obtain ⟨cfg, a₀, ls, hr⟩ := hw.actor
      exact (hw.act hn).finish rfl fun _ => Node.dead_step hn (Node.sent_dead hr hsent)
    · rename_i hdropped
      cases h
      exact hw.finish rfl fun _ => hg (by simp only [refused, hpc, hdropped])
    · cases h
  · cases h
  · cases h

/-- **A step that cuts nothing off keeps the order of the ends.** -/
theorem waited_step {l : ConnectionLabel A M} (hw : Waited c) (hg : c.Graceful l) (h : c.step d s l = some c') :
    Waited c' := by
  cases l with
  | go => exact hw.go hg h
  | reader l =>
    simp only [step] at h
    split at h
    · -- the reader task ends when there is no `Reader`, or when it is told to
      rename_i hl
      rw [Option.map_eq_some_iff] at h
      obtain ⟨r, hr, rfl⟩ := h
      obtain ⟨hh, hd⟩ := ReaderActor.task_over hl hr
      refine ⟨hw.actor, hw.done, fun h => hw.handles (hh ▸ h), fun hover => ?_⟩
      rcases hd hover with hover | hnone | ⟨b, rfl, hb⟩
      · exact hw.reader hover
      · exact hw.handles hnone
      · exact hg hb
    · cases h
  | writer l =>
    simp only [step] at h
    split at h
    · rw [Option.map_eq_some_iff] at h
      obtain ⟨w, -, rfl⟩ := h
      exact ⟨hw.actor, hw.done, hw.handles, hw.reader⟩
    · cases h
  | write data handler =>
    simp only [step] at h
    split at h
    · cases h
    · rw [Option.map_eq_some_iff] at h
      obtain ⟨w, -, rfl⟩ := h
      exact ⟨hw.actor, hw.done, hw.handles, hw.reader⟩
  | actor l =>
    simp only [step] at h
    split at h
    · cases h
    · rw [Option.map_eq_some_iff] at h
      obtain ⟨n, hn, rfl⟩ := h
      exact hw.act hn

theorem waited_shutdown (hw : Waited c) : Waited c.shutdown := ⟨hw.actor, hw.done, hw.handles, hw.reader⟩

theorem waited_died (hw : Waited c) : Waited c.died := ⟨hw.actor, hw.done, hw.handles, hw.reader⟩

theorem waited_interrupt (hw : Waited c) : Waited c.interrupt := ⟨hw.actor, hw.done, hw.handles, hw.reader⟩

theorem waited_init (parent : Option SupervisorMessage) (cfg : Config) (a : A) (handed : Option ℕ) :
    Waited (init len P parent cfg a handed : Connection len P A M) where
  actor := ⟨{ cfg with supervised := false }, a, [], rfl⟩
  done h := by cases h
  handles h := by cases h
  reader h := by cases h

/-! ## What is written -/

/-- The writer task ends when no write of an early message is to come, and none of those that
were made is lost. -/
structure Unhurt (c : Connection len P A M) : Prop where
  kept : c.writer.Kept
  owners : c.owners.length = c.writer.calls.length
  dropped : c.writer.writers = 0 → ∀ w ∈ c.writer.calls, w.underWay = false
  settled : c.writer.pc.over = true → c.Settled ∧ (c.writer.writers = 0 ∨ c.served = true)
  unlost : ∀ k, c.early k = true → ∀ w ∈ c.writer.calls[k]?, w.lost = false

/-- What is decided about the messages handed over stays decided. -/
theorem served_step {l : Label A M} (hh : c'.handed = c.handed) (h : c.actor.step l = some c'.actor)
    (hs : c.served = true) : c'.served = true := by
  unfold served at *
  rw [Bool.or_eq_true] at *
  rcases hs with hd | hp
  · exact .inl (Node.dead_step h hd)
  · right
    have hle := Node.passed_step h
    rw [hh]
    rw [Option.any_eq_true] at *
    obtain ⟨m, hm, hle'⟩ := hp
    simp only [decide_eq_true_eq] at hle' ⊢
    exact ⟨m, hm, Nat.le_trans hle' hle⟩

/-- A step that leaves the writer task and its calls alone. -/
theorem Unhurt.frame (hu : Unhurt c) (hw : c'.writer = c.writer) (ho : c'.owners = c.owners) (hh : c'.handed = c.handed)
    (hs : c.served = true → c'.served = true) : Unhurt c' := by
  have hearly : c'.early = c.early := by
    funext k
    rw [early, early, ho, hh]
  refine ⟨hw ▸ hu.kept, by rw [ho, hw, hu.owners], by rw [hw]; exact hu.dropped, ?_, by rw [hearly, hw]; exact hu.unlost⟩
  intro hover
  rw [hw] at hover
  obtain ⟨hset, hserved⟩ := hu.settled hover
  refine ⟨?_, ?_⟩
  · unfold Settled
    rw [hw, hearly]
    exact hset
  · rw [hw]
    exact hserved.imp_right hs

/-- A signal to the writer task. -/
theorem Unhurt.signal {w : WriterActor} (hu : Unhurt c) (hk : w.Kept) (hc : w.calls = c.writer.calls)
    (hws : w.writers = c.writer.writers) (hpc : w.pc = c.writer.pc) : Unhurt { c with writer := w } where
  kept := hk
  owners := hc ▸ hu.owners
  dropped := by rw [hc, hws]; exact hu.dropped
  settled hover := by
    obtain ⟨hset, hserved⟩ := hu.settled (hpc ▸ hover)
    refine ⟨?_, ?_⟩
    · unfold Settled
      rw [hc]
      exact hset
    · rw [hws]
      exact hserved
  unlost := by rw [hc]; exact hu.unlost

/-- **The writer task and the `Writer`s go on.** -/
theorem Unhurt.works {l : WriterLabel} {w : WriterActor} (hu : Unhurt c) (hl : l.task = true) (hd : c.droppable l = true)
    (hg : c.Graceful (.writer l)) (h : c.writer.step l = some w) : Unhurt { c with writer := w } := by
  obtain ⟨hlen, hzero, hlast⟩ := WriterActor.task_rest hu.kept hl h
  have hk := WriterActor.kept_step hu.kept h
  -- when the task is over behind the step, nothing was to come before it
  have hend : w.pc.over = true → c.Settled ∧ (c.writer.writers = 0 ∨ c.served = true) := by
    intro hover
    rcases WriterActor.task_over hu.kept hl h hover with hover | hnone | ⟨b, hb, hlabel⟩
    · exact hu.settled hover
    · exact ⟨fun k _ _ w hw => hu.dropped hnone w (List.mem_of_getElem? hw), .inl hnone⟩
    · have hboth : c.served = true ∧ c.Settled := by
        rcases hlabel with rfl | ⟨result, rfl⟩ <;> exact hg hb
      exact ⟨hboth.2, .inr hboth.1⟩
  -- a call that had come back is still there
  have hsame : ∀ {k : ℕ} {v v' : WriteCall}, c.writer.calls[k]? = some v → v.underWay = false → w.calls[k]? = some v' →
      v' = v := by
    intro k v v' hv hdone hv'
    rw [WriterActor.settled_step hu.kept h hv hdone] at hv'
    exact (Option.some.inj hv').symm
  have hold : ∀ {k : ℕ} {v' : WriteCall}, w.calls[k]? = some v' → ∃ v, c.writer.calls[k]? = some v := by
    intro k v' hv'
    have hlt := (List.getElem?_eq_some_iff.1 hv').1
    exact ⟨_, List.getElem?_eq_getElem (hlen ▸ hlt)⟩
  refine ⟨hk, hu.owners.trans hlen.symm, ?_, ?_, ?_⟩
  · intro hnone v' hv'
    obtain ⟨k, hk'⟩ := List.mem_iff_getElem?.1 hv'
    obtain ⟨v, hv⟩ := hold hk'
    have hdone : v.underWay = false := by
      rcases hlast hnone with hnone | ⟨rfl, hone⟩
      · exact hu.dropped hnone v (List.mem_of_getElem? hv)
      · -- the last `Writer` goes when no call of it is under way
        simp only [droppable, hone, Bool.or_eq_true, List.all_eq_true] at hd
        rcases hd with hd | hd
        · cases hd
        · simpa using hd v (List.mem_of_getElem? hv)
    rw [hsame hv hdone hk']
    exact hdone
  · intro hover
    obtain ⟨hset, hserved⟩ := hend hover
    refine ⟨fun k hk' he v' hv' => ?_, ?_⟩
    · obtain ⟨v, hv⟩ := hold hv'
      have hdone := hset k (hlen ▸ hk') he v hv
      rw [hsame hv hdone hv']
      exact hdone
    · exact hserved.imp_left hzero
  · intro k he v' hv'
    by_contra hlost
    have hlost : v'.lost = true := by simpa using hlost
    obtain ⟨hset, -⟩ := hend (WriterActor.lost_over hk hv' hlost)
    obtain ⟨v, hv⟩ := hold hv'
    have hdone := hset k (List.getElem?_eq_some_iff.1 hv).1 he v hv
    rw [hsame hv hdone hv', hu.unlost k he v hv] at hlost
    cases hlost

/-- **A handler calls `Writer::write`**, or somebody else does. -/
theorem Unhurt.write {data : List UInt8} {handler : Bool} {w : WriterActor} (hu : Unhurt c)
    (hh : handler = true → c.actor.pc.works = true) (h : c.writer.step (.write data) = some w) :
    Unhurt { c with writer := w, owners := c.owners ++ [if handler then some c.actor.passed else none] } := by
  have hk := WriterActor.kept_step hu.kept h
  simp only [WriterActor.step] at h
  split at h
  · cases h
  rename_i hpos
  cases h
  -- the calls that were there, and the new one
  have hcall : ∀ {k : ℕ} {v : WriteCall}, (c.writer.calls ++ [⟨data, .sending⟩])[k]? = some v →
      k < c.writer.calls.length ∧ c.writer.calls[k]? = some v ∨ k = c.writer.calls.length ∧ v = ⟨data, .sending⟩ := by
    intro k v hv
    rcases Nat.lt_trichotomy k c.writer.calls.length with hk | rfl | hk
    · rw [List.getElem?_append_left hk] at hv
      exact .inl ⟨hk, hv⟩
    · rw [List.getElem?_concat_length] at hv
      exact .inr ⟨rfl, (Option.some.inj hv).symm⟩
    · rw [List.getElem?_eq_none (by rw [List.length_append]; exact hk)] at hv
      cases hv
  have hearly : ∀ {k : ℕ}, k < c.writer.calls.length →
      ({ c with owners := c.owners ++ [if handler then some c.actor.passed else none] } : Connection len P A M).early k =
        c.early k := by
    intro k hk
    simp only [early]
    rw [List.getElem?_append_left (hu.owners ▸ hk)]
  refine ⟨hk, by simp [hu.owners], fun hzero => absurd hzero hpos, ?_, ?_⟩
  · intro hover
    obtain ⟨hset, hserved⟩ := hu.settled hover
    have hserved : c.served = true := hserved.resolve_left hpos
    refine ⟨fun k _ he v hv => ?_, .inr hserved⟩
    rcases hcall hv with ⟨hk, hv⟩ | ⟨rfl, rfl⟩
    · exact hset k hk ((hearly hk).symm.trans he) v hv
    · -- no handler of an early message runs any more
      exfalso
      obtain ⟨p, hp, hlt⟩ := early_iff.1 he
      rw [← hu.owners, List.getElem?_concat_length, Option.some.injEq] at hp
      cases handler with
      | false => cases hp
      | true =>
        cases hp
        rw [served, Pc.works_live (hh rfl), Bool.false_or, Option.any_eq_true] at hserved
        obtain ⟨m, hm, hle⟩ := hserved
        exact absurd (hlt m hm) (Nat.not_lt_of_le (of_decide_eq_true hle))
  · intro k he v hv
    rcases hcall hv with ⟨hk, hv⟩ | ⟨-, rfl⟩
    · exact hu.unlost k ((hearly hk).symm.trans he) v hv
    · rfl

/-- ctrl-c comes: what the actor has accepted now is what was handed over. -/
theorem unhurt_interrupt (hu : Unhurt c) : Unhurt c.interrupt := by
  cases hh : c.handed with
  | some m =>
    refine hu.frame rfl rfl ?_ ?_ <;> simp [interrupt, hh, served]
  | none =>
    have hearly : ∀ {k : ℕ}, c.interrupt.early k = true → c.early k = true := by
      intro k he
      obtain ⟨p, hp, -⟩ := early_iff.1 he
      exact early_iff.2 ⟨p, hp, fun h hm => by rw [hh] at hm; cases hm⟩
    refine ⟨hu.kept, hu.owners, hu.dropped, fun hover => ?_, fun k he => hu.unlost k (hearly he)⟩
    obtain ⟨hset, hserved⟩ := hu.settled hover
    refine ⟨fun k hk he => hset k hk (hearly he), hserved.imp_right fun hs => ?_⟩
    simp only [served, hh, Option.any_none, Bool.or_false] at hs
    simp only [served, interrupt, hs, Bool.true_or]

/-- The task of the connection leaves the writer task alone, and what it does to the actor is
a step of it. -/
theorem go_frame (h : c.go d s = some c') : c'.writer = c.writer ∧ c'.owners = c.owners ∧ c'.handed = c.handed ∧
    (c'.actor = c.actor ∨ ∃ l, c.actor.step l = some c'.actor) := by
  unfold go at h
  split at h
  · split at h
    · cases h
      exact ⟨rfl, rfl, rfl, .inl rfl⟩
    · rw [Option.map_eq_some_iff] at h
      obtain ⟨r, -, rfl⟩ := h
      exact ⟨rfl, rfl, rfl, .inl rfl⟩
  · split at h
    · rename_i payload hcall
      split at h
      · rename_i n hsend
        cases h
        exact ⟨rfl, rfl, rfl, .inr ⟨.send (.asyncAsk payload s), hsend⟩⟩
      · split at h <;> cases h
        exact ⟨rfl, rfl, rfl, .inl rfl⟩
    · cases h
      exact ⟨rfl, rfl, rfl, .inl rfl⟩
    · cases h
  · split at h <;> cases h <;> exact ⟨rfl, rfl, rfl, .inl rfl⟩
  · split at h
    · rename_i n hsend
      cases h
      exact ⟨rfl, rfl, rfl, .inr ⟨.send (.await true), hsend⟩⟩
    · rw [Option.map_eq_some_iff] at h
      obtain ⟨n, hn, rfl⟩ := h
      exact ⟨rfl, rfl, rfl, .inr ⟨.refuse, hn⟩⟩
  · rename_i w hpc
    split at h
    · rw [Option.map_eq_some_iff] at h
      obtain ⟨n, hn, rfl⟩ := h
      exact ⟨rfl, rfl, rfl, .inr ⟨.poll w, hn⟩⟩
    · cases h
      exact ⟨rfl, rfl, rfl, .inl rfl⟩
    · cases h
  · cases h
  · cases h

/-- **A step that cuts nothing off loses no write of an early message.** -/
theorem unhurt_step {l : ConnectionLabel A M} (hu : Unhurt c) (hg : c.Graceful l) (h : c.step d s l = some c') :
    Unhurt c' := by
  cases l with
  | go =>
    obtain ⟨hw, ho, hh, hact⟩ := go_frame h
    refine hu.frame hw ho hh fun hs => ?_
    rcases hact with heq | ⟨l, hl⟩
    · rw [served, heq, hh]
      exact hs
    · exact served_step hh hl hs
  | reader l =>
    simp only [step] at h
    split at h
    · rw [Option.map_eq_some_iff] at h
      obtain ⟨r, -, rfl⟩ := h
      -- the writer task hears that the reader task has ended
      have hshut : Unhurt { c with writer := { c.writer with shutdownRx := c.writer.shutdownRx || r.shutdownTx } } := by
        refine hu.signal ?_ rfl rfl rfl
        have hk := hu.kept
        exact ⟨hk.told, hk.closed, hk.unique, hk.own, hk.put, hk.calls, hk.cap⟩
      exact hshut.frame rfl rfl rfl id
    · cases h
  | writer l =>
    simp only [step] at h
    split at h
    · rename_i hl
      rw [Bool.and_eq_true] at hl
      rw [Option.map_eq_some_iff] at h
      obtain ⟨w, hw, rfl⟩ := h
      exact hu.works hl.1 hl.2 hg hw
    · cases h
  | write data handler =>
    simp only [step] at h
    split at h
    · cases h
    · rename_i hh
      rw [Option.map_eq_some_iff] at h
      obtain ⟨w, hw, rfl⟩ := h
      refine hu.write (fun hhandler => ?_) hw
      simpa [hhandler] using hh
  | actor l =>
    simp only [step] at h
    split at h
    · cases h
    · rw [Option.map_eq_some_iff] at h
      obtain ⟨n, hn, rfl⟩ := h
      exact hu.frame rfl rfl rfl (served_step rfl hn)

theorem unhurt_shutdown (hu : Unhurt c) : Unhurt c.shutdown := by
  have hs := hu.signal (WriterActor.kept_step hu.kept (show c.writer.step .shutdown = some _ from rfl)) rfl rfl rfl
  exact hs.frame rfl rfl rfl id

theorem unhurt_died (hu : Unhurt c) : Unhurt c.died := by
  have hs := hu.signal (WriterActor.kept_step hu.kept (show c.writer.step .died = some _ from rfl)) rfl rfl rfl
  exact hs.frame rfl rfl rfl id

theorem unhurt_init (parent : Option SupervisorMessage) (cfg : Config) (a : A) (handed : Option ℕ) :
    Unhurt (init len P parent cfg a handed : Connection len P A M) where
  kept := @WriterActor.kept_run parent [] _ rfl
  owners := rfl
  dropped h := by cases h
  settled h := by cases h
  unlost k he := by
    obtain ⟨p, hp, -⟩ := early_iff.1 he
    cases hp

end Connection

end Tokactor
