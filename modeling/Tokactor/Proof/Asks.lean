import Tokactor.Proof.Callbacks
import Tokactor.Proof.Receivers
import Tokactor.Proof.Results
import Tokactor.Model.Address

/-!
# Who answers an ask

* `distinct_run`: no two accepted asks have the same one-shot channel.
* `Served`: every ask that was handled has its answer, and every other one still waits.
* `ask_answered`: an accepted ask waits until it is handled, and then gets what its handler
  computes on the actor that all earlier messages have left.
-/

namespace Tokactor

variable {A M : Type}

/-! ## Accepted asks -/

/-- The asks among the messages `l`. -/
def askIds (l : List (Mail A M)) : List ℕ := l.filterMap fun m => m.body.asker

@[simp] theorem askIds_nil : askIds ([] : List (Mail A M)) = [] := rfl

@[simp] theorem askIds_append (l l' : List (Mail A M)) : askIds (l ++ l') = askIds l ++ askIds l' :=
  List.filterMap_append

theorem askIds_cons (m : Mail A M) (l : List (Mail A M)) : askIds (m :: l) = m.body.asker.toList ++ askIds l := by
  unfold askIds
  cases h : m.body.asker <;> simp [h]

theorem askIds_none {l : List (Mail A M)} (h : ∀ m ∈ l, m.body.asker = none) : askIds l = [] := by
  unfold askIds
  rw [List.filterMap_eq_nil_iff]
  exact h

theorem mem_askIds {l : List (Mail A M)} {k : ℕ} : k ∈ askIds l ↔ ∃ m ∈ l, m.body.asker = some k := by
  unfold askIds
  rw [List.mem_filterMap]

/-- The messages whose handler has not returned. -/
def Node.ahead (n : Node A M) : List (Mail A M) := n.pc.hand.toList ++ n.mailbox.queue

/-- The ask a `reply` task answers. -/
def Task.replies : Task A M → Option ℕ
  | .anon { kind := .reply k _, .. } => some k
  | _ => none

theorem Anon.replies_of_answer {a : Anon A M} {out : Option M} {k : ℕ} {r : Reply M} (h : a.answer out = some (k, r)) :
    (Task.anon a : Task A M).replies = some k := by
  obtain ⟨kind, tracked, halted, pc⟩ := a
  cases kind with
  | reply i j =>
    simp only [Anon.answer, Option.some.injEq, Prod.mk.injEq] at h
    rw [← h.1]
    rfl
  | _ => cases h

theorem Anon.replies_congr {a a' : Anon A M} (h : a'.kind = a.kind) :
    (Task.anon a' : Task A M).replies = (Task.anon a : Task A M).replies := by
  obtain ⟨kind, tracked, halted, pc⟩ := a
  obtain ⟨kind', tracked', halted', pc'⟩ := a'
  cases h
  cases kind <;> rfl

/-- A task answers the ask it was started for. -/
theorem Task.Moves.replies {v : View} {s t : Task A M} {l : TaskLabel A M} {e : Eff A M} (h : s.Moves v l t e) :
    t.replies = s.replies ∧ ∀ k r, e.answer = some (k, r) → s.replies = some k := by
  cases h with
  | child h => exact ⟨rfl, fun k r hr => by cases h <;> cases hr⟩
  | fwd h => exact ⟨rfl, fun k r hr => by cases h <;> cases hr⟩
  | @anon a a' l e h =>
    refine ⟨Anon.replies_congr h.kind, fun k r hr => ?_⟩
    cases h with
    | skip h | finish out h | cancel h | lost i j hk h => exact Anon.replies_of_answer ((a.finished_answer _).1 ▸ hr)
    | panic h => exact Anon.replies_of_answer (a.unwind_answer.1 ▸ hr)
    | haltQueued hk hh h => exact Anon.replies_of_answer (show a.answer none = some (k, r) from hr)
    | _ => cases hr

/-- A task that makes a new ask answers none. -/
theorem Task.Moves.asks_or_answers {v : View} {s t : Task A M} {l : TaskLabel A M} {e : Eff A M}
    (h : s.Moves v l t e) (hnew : e.newAsk = true) : e.answer = none := by
  cases h with
  | child h => cases h <;> rfl
  | fwd h => cases h <;> rfl
  | @anon a a' l e h =>
    have hfin : ∀ out, (a.finished out).2.newAsk = false := by
      intro out
      rcases a.finished_cases out with ⟨-, he⟩ | ⟨-, -, he⟩ | ⟨-, -, he⟩ <;> rw [he]
    have hunw : a.unwind.2.newAsk = false := by
      rcases a.unwind_cases with ⟨-, he⟩ | ⟨-, -, he⟩ | ⟨-, -, he⟩ <;> rw [he]
    cases h with
    | skip h | finish out h | cancel h | lost i j hk h =>
      rw [show _ = false from hfin _] at hnew
      cases hnew
    | panic h =>
      rw [hunw] at hnew
      cases hnew
    | _ => cases hnew

/-- User code starts no `reply` task. -/
theorem Node.ctxOp_replies {n : Node A M} {o : CtxOp} (ho : n.allows o) {s : Slot A M} (hs : s ∈ (n.ctxOp o).tasks) :
    s ∈ n.tasks ∨ s.task.replies = none := by
  have new : ∀ kind : AnonKind, (∀ k h, kind ≠ .reply k h) → s ∈ (n.anonymous kind).tasks →
      s ∈ n.tasks ∨ s.task.replies = none := by
    intro kind hkind hs
    obtain ⟨tracked, ht⟩ := n.anonymous_tasks kind
    rw [ht, List.mem_append, List.mem_singleton] at hs
    rcases hs with hs | rfl
    · exact .inl hs
    · cases kind <;> first | exact .inr rfl | exact absurd rfl (hkind _ _)
  cases o with
  | stop =>
    obtain ⟨st, h, -⟩ := stop_eq n
    rw [ctxOp, h] at hs
    exact .inl hs
  | abort =>
    unfold ctxOp abort at hs
    simp only at hs
    split at hs <;> exact .inl hs
  | spawn id =>
    rw [ctxOp, if_pos (show n.state = .running from ho), List.mem_append, List.mem_singleton] at hs
    rcases hs with hs | rfl
    · exact .inl hs
    · exact .inr rfl
  | anonymous => exact new .anonymous (by simp) hs
  | anonymousTask => exact new .task (by simp) hs
  | anonymousHandle => exact new .handle (by simp) hs

/-- Only the handler of an ask starts a `reply` task, for that ask. -/
theorem Node.exec_replying {n n' : Node A M} {x : Act A M} (hx : Node.Exec n x n') {s : Slot A M} (hs : s ∈ n'.tasks)
    {k : ℕ} (hk : s.task.replies = some k) :
    s ∈ n.tasks ∨ ∃ p m, n.pc = .handle p m ∧ m.body.asker = some k ∧ n'.pc = .postRun p := by
  rcases Node.exec_split hx with ⟨o, -, ho, rfl⟩ | ⟨p, m, a, i, j, -, hpc, hb, rfl⟩ | ⟨h, -, -⟩
  · rcases ctxOp_replies ho hs with hs | hs
    · exact .inl hs
    · rw [hk] at hs
      cases hs
  · obtain ⟨tracked, ht⟩ := Node.anonymous_tasks { n with actor := a } (.reply i j)
    have hs : s ∈ (({ n with actor := a } : Node A M).anonymous (.reply i j)).tasks := hs
    rw [ht, List.mem_append, List.mem_singleton] at hs
    rcases hs with hs | rfl
    · exact .inl hs
    · cases hk
      exact .inr ⟨p, m, hpc, hb, rfl⟩
  · exact .inl (h ▸ hs)

/-- No two accepted asks have the same channel. -/
def Distinct (n : Node A M) : Prop := (askIds n.mailbox.accepted).Nodup

/-- The mailbox accepts messages with no ask, or with a new one. -/
theorem Distinct.accept {n n' : Node A M} {ms : List (Mail A M)} (hd : Distinct n) (hi : Asked n)
    (hac : n'.mailbox.accepted = n.mailbox.accepted ++ ms) (hms : askIds ms = [] ∨ askIds ms = [n.asks.length]) :
    Distinct n' := by
  unfold Distinct at *
  rw [hac, askIds_append, List.nodup_append]
  refine ⟨hd, by rcases hms with h | h <;> rw [h] <;> simp, fun k hk j hj => ?_⟩
  rcases hms with h | h
  · rw [h] at hj
    cases hj
  · rw [h, List.mem_singleton] at hj
    obtain ⟨m, hm, hmk⟩ := mem_askIds.1 hk
    have := hi.known m hm k hmk
    omega

theorem distinct_tasked {n n' : Node A M} {i : ℕ} {l : TaskLabel A M} {s : Slot A M} {t : Task A M} {e : Eff A M}
    (hi : Asked n) (hd : Distinct n) (h : Node.Tasked n i l n' s t e) : Distinct n' := by
  refine hd.accept hi h.outside.mailbox.accepted ?_
  cases hp : e.push with
  | none => exact .inl rfl
  | some b =>
    obtain ⟨-, hb⟩ := h.moves.push (hi.plain s (List.mem_of_getElem? h.slot)) hp
    rcases hb with hb | ⟨-, hb⟩
    · left; simp [askIds, hb]
    · right; simp [askIds, hb, Node.view]

theorem distinct_step {n n' : Node A M} {l : Label A M} (hi : Asked n) (hd : Distinct n) (h : n.step l = some n') :
    Distinct n' := by
  cases Node.step_rule h with
  | exec x hx =>
    obtain ⟨ms, hac, hms⟩ := Node.exec_accepted hx
    exact hd.accept hi hac (.inl (askIds_none fun m hm => by rw [hms m hm]; rfl))
  | task k l s t e hb ht => exact distinct_tasked hi hd ht
  | join i j n₁ l hj =>
    obtain ⟨s, t, e, ht⟩ := Node.taskStep_cases hj.join
    rcases hj.taken with rfl | h₁
    · exact distinct_tasked hi hd ht
    · obtain ⟨s', t', e', ht'⟩ := Node.taskStep_cases h₁
      exact distinct_tasked (asked_tasked hi ht') (distinct_tasked hi hd ht') ht
  | send r b hr hs =>
    refine hd.accept hi hr.outside.mailbox.accepted ?_
    rcases hs.asks with ⟨-, hb⟩ | ⟨hb, -⟩
    · left; simp [askIds, hb]
    · right; simp [askIds, hb]
  | quiet l hr hw ha => exact hd.accept hi hr.outside.mailbox.accepted (.inl rfl)

/-- **No two accepted asks have the same channel**, in every reachable state. -/
theorem distinct_run {cfg : Config} {a : A} {ls : List (Label A M)} {n : Node A M}
    (hr : Lts.run Node.step (Node.init cfg a) ls = some n) : Distinct n :=
  Lts.run_inv_of (R := Asked) (fun _ _ hr => asked_run hr) (fun _ _ _ hi hd h => distinct_step hi hd h)
    List.nodup_nil hr

/-! ## Cells that are decided -/

/-- What a step of a task does to the cell of an ask that it does not answer. -/
theorem Node.Tasked.cell {n n' : Node A M} {i : ℕ} {l : TaskLabel A M} {s : Slot A M} {t : Task A M} {e : Eff A M}
    (h : Node.Tasked n i l n' s t e) {k : ℕ} (hk : k < n.asks.length) (hs : s.task.replies ≠ some k) :
    n'.asks[k]? = n.asks[k]? := by
  have hnew : (if e.newAsk then n.asks ++ [.pending] else n.asks)[k]? = n.asks[k]? := by
    split
    · rw [List.getElem?_append_left hk]
    · rfl
  rw [h.asks]
  unfold Eff.asks
  cases ha : e.answer with
  | none => exact hnew
  | some p =>
    obtain ⟨j, r⟩ := p
    have hjk : j ≠ k := by
      rintro rfl
      exact hs (h.moves.replies.2 j r ha)
    rw [List.getElem?_set_ne hjk, hnew]

theorem dropMail_cell (n : Node A M) {m : Mail A M} {k : ℕ} (hk : m.body.asker ≠ some k) :
    (n.dropMail m).asks[k]? = n.asks[k]? := by
  unfold Node.dropMail
  split
  · rfl
  · rename_i q j hb
    rw [hb] at hk
    exact List.getElem?_set_ne fun h => hk (by rw [← h]; rfl)
  · rename_i q j s hb
    rw [hb] at hk
    exact List.getElem?_set_ne fun h => hk (by rw [← h]; rfl)
  · rfl

/-- A panic leaves the asks alone that are not ahead. -/
theorem unwind_cell (n : Node A M) (c : Cause) {k : ℕ} (hk : k ∉ askIds n.ahead) :
    (n.unwind c).asks[k]? = n.asks[k]? := by
  have key : ∀ (l : List (Mail A M)) (n : Node A M), k ∉ askIds l → (l.foldl Node.dropMail n).asks[k]? = n.asks[k]? := by
    intro l
    induction l with
    | nil => intro n _; rfl
    | cons m l ih =>
      intro n hk
      rw [askIds_cons, List.mem_append, not_or, Option.mem_toList] at hk
      rw [List.foldl_cons, ih _ hk.2, dropMail_cell n hk.1]
  exact key n.ahead n hk

/-! ## Handled and ahead -/

/-- The messages handled in a life. -/
theorem Life.handledOf {n : Node A M} {h : Phase → List (Mail A M)} (hl : Life n h) (hf : n.pc.stage ≠ .failed) :
    Tokactor.handledOf n.trace =
      h .main ++ h .stopping ++ h .stopped ++ Tokactor.handledOf (n.pc.part n.actor) := by
  have hev : ∀ e : Event A M, (∀ m, e ≠ .handle m) → ∀ tr, Tokactor.handledOf (e :: tr) = Tokactor.handledOf tr := by
    intro e he tr
    cases e with
    | handle m => exact absurd rfl (he m)
    | _ => rfl
  have hstopping := hl.stopping
  have hstopped := hl.stopped
  rw [hl.trace, handledOf_append]
  cases hs : n.pc.stage with
  | main => rw [hs] at hstopping hstopped; simp [Stage.render, hev, hstopping rfl, hstopped (.inl rfl)]
  | stopping => rw [hs] at hstopped; simp [Stage.render, hev, hstopped (.inr rfl)]
  | stopped | ended => simp [Stage.render, hev, show Tokactor.handledOf ([] : List (Event A M)) = [] from rfl]
  | failed => exact absurd hs hf

/-- **Accepted is what was handled, followed by what is ahead.** -/
theorem accepted_ahead {n : Node A M} {tr : List (Event A M)} (hl : LifeOK n) (hf : n.pc.stage ≠ .failed)
    (ht : n.trace = tr ++ n.pc.opened) : n.mailbox.accepted = Tokactor.handledOf tr ++ n.ahead := by
  obtain ⟨h, hl⟩ := hl.resolve_left hf
  have htr := hl.handledOf hf
  -- the callback that is open is that of the message at hand, or of none
  have hpart : Tokactor.handledOf (n.pc.part n.actor) = Tokactor.handledOf n.pc.opened := by
    cases n.pc <;> rfl
  rw [ht, handledOf_append, hpart] at htr
  rw [n.mailbox.history, hl.taken, List.append_cancel_right htr, Node.ahead, List.append_assoc]

/-! ## Every ask that was handled has its answer -/

/-- The future of the message is dropped unpolled. -/
def Body.unpolled : Body A M → Bool
  | .asyncAsk _ _ .blocking => true
  | _ => false

/-- The callbacks `tr` have returned and left the actor as it is; a future that is awaited
has seen the notifier as it is. -/
def Behaviour.Holds (B : Behaviour A M) (a₀ : A) (n : Node A M) (tr : List (Event A M)) : Prop :=
  match n.pc with
  | .future _ m seen =>
    seen = n.shutdown ∧ (∃ q k, m.body = .asyncAsk q k .nonBlocking) ∧
      ∃ a, B.Left a₀ tr a ∧ B.call (.handle m) a n.actor
  | .cancelling _ _ => False
  | _ => B.Left a₀ tr n.actor

theorem Behaviour.holds_iff {B : Behaviour A M} {a₀ : A} {n : Node A M} {tr : List (Event A M)}
    (h : n.pc.polled = false) : B.Holds a₀ n tr ↔ B.Left a₀ tr n.actor := by
  unfold Behaviour.Holds
  split
  · rename_i hpc; rw [hpc] at h; cases h
  · rename_i hpc; rw [hpc] at h; cases h
  · rfl

/-- The ask `m` with the channel `k` got what its handler computes on the actor that the
callbacks `tr` have left. -/
def Behaviour.Got (B : Behaviour A M) (a₀ : A) (tr : List (Event A M)) (m : Mail A M) (r : Option (Reply M)) : Prop :=
  ∃ a a' v, B.Left a₀ tr a ∧ B.Answers m a a' v ∧ r = some (.replied v)

/-- No task answers the ask `k`. -/
def Node.Direct (n : Node A M) (k : ℕ) : Prop := ∀ s ∈ n.tasks, s.task.replies ≠ some k

/-- The callbacks `tr` have returned: the asks handled in them have their answers, unless a
task answers them, and the others wait. -/
structure Served (B : Behaviour A M) (a₀ : A) (n : Node A M) (tr : List (Event A M)) : Prop where
  trace : n.trace = tr ++ n.pc.opened
  actor : B.Holds a₀ n tr
  waiting : ∀ k ∈ askIds n.ahead, n.asks[k]? = some .pending
  replies : ∀ s ∈ n.tasks, ∀ k, s.task.replies = some k → k ∈ askIds (handledOf tr)
  answered : ∀ tr₁ m rest k, tr = tr₁ ++ .handle m :: rest → m.body.asker = some k → m.body.unpolled = false →
    n.Direct k → B.Got a₀ tr₁ m n.asks[k]?

theorem mem_handledOf {tr₁ rest : List (Event A M)} {m : Mail A M} {k : ℕ} (hk : m.body.asker = some k) :
    k ∈ askIds (handledOf (tr₁ ++ .handle m :: rest)) := by
  rw [handledOf_append, askIds_append]
  exact List.mem_append_right _ (mem_askIds.2 ⟨m, List.mem_cons_self, hk⟩)

/-- An event is among the first callbacks or the last ones. -/
theorem split_append {α : Type} {l es l₁ rest : List α} {x : α} (h : l ++ es = l₁ ++ x :: rest) :
    (∃ rest', l = l₁ ++ x :: rest') ∨ ∃ es₁, l₁ = l ++ es₁ ∧ es = es₁ ++ x :: rest := by
  rcases List.append_eq_append_iff.1 h with ⟨es₁, h₁, h₂⟩ | ⟨es₁, h₁, h₂⟩
  · exact .inr ⟨es₁, h₁, h₂⟩
  · cases es₁ with
    | nil => exact .inr ⟨[], by simpa using h₁.symm, by simpa using h₂.symm⟩
    | cons y es₁ =>
      rw [List.cons_append, List.cons.injEq] at h₂
      obtain ⟨rfl, -⟩ := h₂
      exact .inl ⟨es₁, h₁⟩

section

variable {B : Behaviour A M} {a₀ : A} {n n' : Node A M} {x : Act A M} {tr es : List (Event A M)}

/-- **A step of the executor in which the callbacks `es` return.** -/
theorem Served.step (hs : Served B a₀ n tr) (hl : LifeOK n) (hl' : LifeOK n') (hd : Distinct n')
    (hx : Node.Exec n x n') (hf : n'.pc.stage ≠ .failed) (htr : n'.trace = tr ++ es ++ n'.pc.opened)
    (hactor : B.Holds a₀ n' (tr ++ es))
    (hcell : ∀ k ∉ askIds (handledOf es), n'.asks[k]? = n.asks[k]?)
    (hreply : ∀ p m k, n.pc = .handle p m → m.body.asker = some k → n'.pc = .postRun p → k ∈ askIds (handledOf es))
    (hnew : ∀ es₁ m rest k, es = es₁ ++ .handle m :: rest → m.body.asker = some k → m.body.unpolled = false →
      n'.Direct k → B.Got a₀ (tr ++ es₁) m n'.asks[k]?) : Served B a₀ n' (tr ++ es) := by
  have hnf : n.pc.stage ≠ .failed := fun h => exec_failed hx h
  have hids : askIds n'.mailbox.accepted = askIds n.mailbox.accepted := by
    obtain ⟨ms, hac, hms⟩ := Node.exec_accepted hx
    have hnone : askIds ms = [] := askIds_none fun m hm => by rw [hms m hm]; rfl
    rw [hac, askIds_append, hnone, List.append_nil]
  have hac := accepted_ahead hl hnf hs.trace
  have hac' := accepted_ahead hl' hf htr
  have hdis := hd
  unfold Distinct at hdis
  rw [hac', handledOf_append, askIds_append, askIds_append, List.nodup_append, List.nodup_append] at hdis
  obtain ⟨⟨-, -, hdis₁⟩, -, hdis₂⟩ := hdis
  refine ⟨htr, hactor, ?_, ?_, ?_⟩
  · -- an ask that is still ahead is none of those handled so far
    intro k hk
    have hout : k ∉ askIds (handledOf tr) ++ askIds (handledOf es) := fun h => hdis₂ k h k hk rfl
    rw [List.mem_append, not_or] at hout
    rw [hcell k hout.2]
    refine hs.waiting k ?_
    have hmem : k ∈ askIds n'.mailbox.accepted := by
      rw [hac', askIds_append]
      exact List.mem_append_right _ hk
    rw [hids, hac, askIds_append, List.mem_append] at hmem
    exact hmem.resolve_left hout.1
  · -- a new task of an answer belongs to the handler that has just returned
    intro s hsn k hk
    rw [handledOf_append, askIds_append, List.mem_append]
    rcases Node.exec_replying hx hsn hk with hsn | ⟨p, m, hpc, hb, hpc'⟩
    · exact .inl (hs.replies s hsn k hk)
    · exact .inr (hreply p m k hpc hb hpc')
  · intro tr₁ m rest k heq hk hu hdir
    -- the handler was among the earlier callbacks, or is one of `es`
    rcases split_append heq with ⟨rest', rfl⟩ | ⟨es₁, rfl, rfl⟩
    · have hdir₀ : n.Direct k := by
        intro s hsn
        rcases Node.exec_tasks hx with ⟨ht, -⟩ | ⟨t, ht, -⟩
        · exact hdir s (ht ▸ hsn)
        · exact hdir s (by rw [ht]; exact List.mem_append_left _ hsn)
      rw [hcell k fun h => hdis₁ k (mem_handledOf hk) k h rfl]
      exact hs.answered tr₁ m rest' k rfl hk hu hdir₀
    · exact hnew es₁ m rest k rfl hk hu hdir

theorem handledOf_handle (m : Mail A M) : handledOf [.handle m] = [m] := rfl

/-- The handler of `m` has returned, and with it the step of its ask. -/
theorem Served.handled {m : Mail A M} {p : Phase} {k : ℕ} (hs : Served B a₀ n tr) (hl : LifeOK n) (hl' : LifeOK n')
    (hd : Distinct n') (hx : Node.Exec n x n') (hf : n'.pc.stage ≠ .failed) (hk : m.body.asker = some k)
    (hopen : n.pc.opened = [.handle m]) (hpc' : n'.pc = .postRun p) (htr : n'.trace = n.trace ++ [.postRun])
    (hleft : B.Left a₀ (tr ++ [.handle m]) n'.actor) (hcell : ∀ j, j ≠ k → n'.asks[j]? = n.asks[j]?)
    (hnew : m.body.unpolled = false → n'.Direct k → B.Got a₀ tr m n'.asks[k]?) :
    Served B a₀ n' (tr ++ [.handle m]) := by
  have hids : askIds (handledOf [Event.handle m]) = [k] := by
    rw [handledOf_handle, askIds_cons, hk]
    rfl
  refine hs.step hl hl' hd hx hf ?_ ?_ ?_ ?_ ?_
  · rw [htr, hs.trace, hopen, hpc']
    rfl
  · rw [Behaviour.holds_iff (by rw [hpc']; rfl)]
    exact hleft
  · intro j hj
    refine hcell j fun h => hj ?_
    rw [hids, h]
    exact List.mem_cons_self
  · intro p' m' j hpc hj _
    rw [hpc] at hopen
    simp only [Pc.opened, List.cons.injEq, Event.handle.injEq, and_true] at hopen
    subst hopen
    rw [hids, Option.some.inj (hj.symm.trans hk)]
    exact List.mem_cons_self
  · intro es₁ m' rest j heq hj hu hdir
    obtain ⟨rfl, hm, -⟩ : es₁ = [] ∧ m' = m ∧ rest = [] := by
      cases es₁ with
      | nil => simpa [eq_comm] using heq
      | cons e es₁ => simp at heq
    subst hm
    rw [List.append_nil]
    rw [Option.some.inj (hj.symm.trans hk)] at hdir ⊢
    exact hnew hu hdir

theorem Behaviour.Holds.congr (h : B.Holds a₀ n tr) (hpc : n'.pc = n.pc) (hactor : n'.actor = n.actor)
    (hshut : n'.shutdown = n.shutdown) : B.Holds a₀ n' tr := by
  unfold Behaviour.Holds at *
  rw [hpc, hactor, hshut]
  exact h

/-- A step in which no handler of an ask returns. -/
theorem Served.other (hs : Served B a₀ n tr) (hl : LifeOK n) (hl' : LifeOK n') (hd : Distinct n')
    (hx : Node.Exec n x n') (hf : n'.pc.stage ≠ .failed) (hes : ∀ m, .handle m ∈ es → m.body.asker = none)
    (htr : n'.trace = tr ++ es ++ n'.pc.opened) (hactor : B.Holds a₀ n' (tr ++ es)) (hasks : n'.asks = n.asks)
    (hreply : ∀ p m k, n.pc = .handle p m → m.body.asker = some k → n'.pc ≠ .postRun p) :
    Served B a₀ n' (tr ++ es) := by
  refine hs.step hl hl' hd hx hf htr hactor (fun _ _ => by rw [hasks]) ?_ ?_
  · intro p m k hpc hk hpc'
    exact absurd hpc' (hreply p m k hpc hk)
  · intro es₁ m rest k heq hk
    rw [hes m (by rw [heq]; exact List.mem_append_right _ List.mem_cons_self)] at hk
    cases hk

/-- A callback other than the handler of an ask returns. -/
theorem Served.returns {e : Event A M} {a : A} (hs : Served B a₀ n tr) (hl : LifeOK n) (hl' : LifeOK n') (hd : Distinct n')
    (hx : Node.Exec n x n') (hf : n'.pc.stage ≠ .failed) (hcall : B.call e n.actor a) (hpc : n.pc.opened = [e])
    (he : e.plain = true) (hp : n'.pc.polled = false) (hactor : n'.actor = a)
    (htrace : n'.trace = n.trace ++ e.closing a ++ n'.pc.opened) (hasks : n'.asks = n.asks) :
    Served B a₀ n' (tr ++ ([e] ++ e.closing a)) := by
  have hpolled : n.pc.polled = false := by
    have hholds := hs.actor
    cases hn : n.pc with
    | future p m seen =>
      -- an ask is not answered by a handler without an answer
      rw [hn] at hpc
      cases hpc
      simp only [Behaviour.Holds, hn] at hholds
      obtain ⟨-, ⟨q, k, hb⟩, -⟩ := hholds
      simp [Event.plain, hb, Body.asker] at he
    | cancelling p m =>
      simp only [Behaviour.Holds, hn] at hholds
    | _ => rfl
  have hleft := (Behaviour.holds_iff hpolled).1 hs.actor
  have hdoes := Behaviour.does_plain he (Behaviour.opened_running hpc) hcall
  have hplain : ∀ m, e = .handle m → m.body.asker = none := by
    rintro m rfl
    simp only [Event.plain, Bool.and_eq_true, Option.isNone_iff_eq_none] at he
    exact he.2
  refine hs.other hl hl' hd hx hf ?_ ?_ ?_ hasks ?_
  · intro m hm
    rw [List.mem_append, List.mem_singleton] at hm
    rcases hm with hm | hm
    · exact hplain m hm.symm
    · cases e <;> simp [Event.closing] at hm
  · rw [htrace, hs.trace, hpc]
    simp only [List.append_assoc]
  · rw [Behaviour.holds_iff hp, hactor, ← List.append_assoc]
    exact Behaviour.Left.closing (.concat tr e _ _ hleft hdoes) e
  · intro p m k hn hk _
    rw [hn] at hpc
    cases hpc
    rw [hplain m rfl] at hk
    cases hk

/-- The handler of an ask answers it, at once or out of its future. -/
theorem Served.replied {p : Phase} {m : Mail A M} {a : A} {v : M} {k : ℕ} (hs : Served B a₀ n tr) (hl : LifeOK n)
    (hl' : LifeOK n') (hd : Distinct n') (hx : Node.Exec n x n') (hf : n'.pc.stage ≠ .failed)
    (hreply : B.reply m n.actor a v)
    (hpc : n.pc = .handle p m ∧ (∃ q, m.body = .ask q k) ∨
      ∃ seen q s, n.pc = .future p m seen ∧ m.body = .asyncAsk q k s)
    (heq : n' = (({ n with actor := a }).answer k (.replied v)).handled p) : Served B a₀ n' (tr ++ [.handle m]) := by
  have hopen : n.pc.opened = [.handle m] := by rcases hpc with ⟨hpc, -⟩ | ⟨seen, q, s, hpc, -⟩ <;> rw [hpc] <;> rfl
  have hhand : n.pc.hand = some m := by rcases hpc with ⟨hpc, -⟩ | ⟨seen, q, s, hpc, -⟩ <;> rw [hpc] <;> rfl
  -- the handler has run on the actor that the callbacks `tr` have left
  have hanswer : m.body.asker = some k ∧ ∃ b, B.Left a₀ tr b ∧ B.Answers m b a v ∧ B.Does (.handle m) b a := by
    rcases hpc with ⟨hpc, q, hb⟩ | ⟨seen, q, s, hpc, hb⟩
    · have hleft := (Behaviour.holds_iff (by rw [hpc]; rfl)).1 hs.actor
      have hans : B.Answers m n.actor a v := by simpa [Behaviour.Answers, hb] using hreply
      exact ⟨by rw [hb]; rfl, n.actor, hleft, hans, by simpa [Behaviour.Does, hb] using .inr ⟨v, hans⟩⟩
    · have hholds := hs.actor
      simp only [Behaviour.Holds, hpc] at hholds
      obtain ⟨-, ⟨q', k', hb'⟩, b, hleft, hcall⟩ := hholds
      have hans : B.Answers m b a v := by
        simp only [Behaviour.Answers, hb]
        exact ⟨n.actor, hcall, hreply⟩
      exact ⟨by rw [hb]; rfl, b, hleft, hans, by simpa [Behaviour.Does, hb'] using ⟨v, hans⟩⟩
  obtain ⟨hk, b, hleft, hans, hdoes⟩ := hanswer
  have hpending : n.asks[k]? = some .pending := by
    refine hs.waiting k (mem_askIds.2 ⟨m, ?_, hk⟩)
    rw [Node.ahead, hhand]
    exact List.mem_cons_self
  rw [heq] at hx hl' hd hf ⊢
  refine hs.handled hl hl' hd hx hf hk hopen rfl rfl (.concat tr _ _ _ hleft hdoes) ?_ ?_
  · intro j hj
    exact List.getElem?_set_ne fun h => hj h.symm
  · intro _ _
    exact ⟨b, a, v, hleft, hans, List.getElem?_set_self (List.getElem?_eq_some_iff.1 hpending).1⟩

/-- The handler of an ask leaves the answer to the task of a handle. -/
theorem Served.tasked {p : Phase} {m : Mail A M} {a : A} {q : M} {k j : ℕ} (hs : Served B a₀ n tr) (hl : LifeOK n)
    (hl' : LifeOK n') (hd : Distinct n') (hx : Node.Exec n x n') (hf : n'.pc.stage ≠ .failed)
    (hcall : B.call (.handle m) n.actor a) (hpc : n.pc = .handle p m) (hb : m.body = .ask q k)
    (heq : n' = (({ n with actor := a }).replyTask k j).handled p) : Served B a₀ n' (tr ++ [.handle m]) := by
  have hleft := (Behaviour.holds_iff (by rw [hpc]; rfl)).1 hs.actor
  have hopen : n.pc.opened = [.handle m] := by rw [hpc]; rfl
  have hkept := Node.anonymous_kept { n with actor := a } (.reply k j)
  rw [heq] at hx hl' hd hf ⊢
  refine hs.handled hl hl' hd hx hf (by rw [hb]; rfl) hopen rfl ?_ (.concat tr _ _ _ hleft ?_) ?_ ?_
  · show (({ n with actor := a } : Node A M).anonymous (.reply k j)).trace ++ [.postRun] = _
    rw [hkept.trace]
  · rw [show ((({ n with actor := a } : Node A M).replyTask k j).handled p).actor = a from hkept.actor]
    simp only [Behaviour.Does, hb]
    exact .inl hcall
  · intro i _
    exact congrArg (·[i]?) hkept.asks
  · intro _ hdir
    obtain ⟨tracked, ht⟩ := Node.anonymous_tasks { n with actor := a } (.reply k j)
    refine absurd rfl (hdir ⟨.anon { kind := .reply k j, tracked, halted := false, pc := .queued }, []⟩ ?_)
    show _ ∈ (({ n with actor := a } : Node A M).anonymous (.reply k j)).tasks
    rw [ht]
    exact List.mem_append_right _ List.mem_cons_self

/-- A step outside of the callbacks. -/
theorem Served.silent (hs : Served B a₀ n tr) (hl : LifeOK n) (hl' : LifeOK n') (hd : Distinct n')
    (hx : Node.Exec n x n') (hf : n'.pc.stage ≠ .failed) (hpc : n.pc.opened = []) (hp : n'.pc.polled = false)
    (hactor : n'.actor = n.actor) (htrace : n'.trace = n.trace ++ n'.pc.opened) (hasks : n'.asks = n.asks) :
    Served B a₀ n' (tr ++ []) := by
  have hpolled : n.pc.polled = false := by
    cases hn : n.pc <;> rw [hn] at hpc <;> first | rfl | cases hpc
  have hleft := (Behaviour.holds_iff hpolled).1 hs.actor
  refine hs.other hl hl' hd hx hf (by simp) ?_ ?_ hasks ?_
  · rw [htrace, hs.trace, hpc]
  · rw [Behaviour.holds_iff hp, hactor, List.append_nil]
    exact hleft
  · intro p m k hn _ _
    rw [hn] at hpc
    cases hpc

/-- A message that no user code handles. -/
theorem Served.internal {p : Phase} {m : Mail A M} (hs : Served B a₀ n tr) (hl : LifeOK n) (hl' : LifeOK n')
    (hd : Distinct n') (hx : Node.Exec n x n') (hf : n'.pc.stage ≠ .failed) (hpc : n.pc = .handle p m)
    (hb : m.body.isUser = false) (hpc' : n'.pc = .postRun p) (hactor : n'.actor = n.actor)
    (htrace : n'.trace = n.trace ++ [.postRun]) (hasks : n'.asks = n.asks) : Served B a₀ n' (tr ++ [.handle m]) := by
  have hleft := (Behaviour.holds_iff (by rw [hpc]; rfl)).1 hs.actor
  have hnone : m.body.asker = none := by
    cases hbody : m.body <;> rw [hbody] at hb <;> first | rfl | cases hb
  refine hs.other hl hl' hd hx hf ?_ ?_ ?_ hasks ?_
  · intro m' hm'
    rw [List.mem_singleton, Event.handle.injEq] at hm'
    rw [hm', hnone]
  · rw [htrace, hs.trace, hpc, hpc']
    rfl
  · rw [Behaviour.holds_iff (by rw [hpc']; rfl), hactor]
    refine .concat tr _ _ _ hleft ?_
    simp only [Behaviour.Does]
    cases hbody : m.body <;> rw [hbody] at hb <;> first | exact trivial | cases hb
  · intro p' m' k hn hk _
    rw [hpc] at hn
    cases hn
    rw [hnone] at hk
    cases hk

/-- The future of an async ask that nobody polls. -/
theorem Served.unpolled {p : Phase} {m : Mail A M} {a : A} {q : M} {k : ℕ} (hs : Served B a₀ n tr) (hl : LifeOK n)
    (hl' : LifeOK n') (hd : Distinct n') (hx : Node.Exec n x n') (hf : n'.pc.stage ≠ .failed)
    (hcall : B.call (.handle m) n.actor a) (hpc : n.pc = .handle p m) (hb : m.body = .asyncAsk q k .blocking)
    (heq : n' = (({ n with actor := a }).answer k .dropped).handled p) : Served B a₀ n' (tr ++ [.handle m]) := by
  have hleft := (Behaviour.holds_iff (by rw [hpc]; rfl)).1 hs.actor
  have hopen : n.pc.opened = [.handle m] := by rw [hpc]; rfl
  rw [heq] at hx hl' hd hf ⊢
  refine hs.handled hl hl' hd hx hf (by rw [hb]; rfl) hopen rfl rfl (.concat tr _ _ _ hleft ?_) ?_ ?_
  · simp only [Behaviour.Does, hb]
    exact hcall
  · intro j hj
    exact List.getElem?_set_ne fun h => hj h.symm
  · intro hu
    rw [hb] at hu
    cases hu

/-- The future of an async ask is there, and the executor awaits it. -/
theorem Served.polled {p : Phase} {m : Mail A M} {a : A} {q : M} {k : ℕ} (hs : Served B a₀ n tr) (hl : LifeOK n)
    (hl' : LifeOK n') (hd : Distinct n') (hx : Node.Exec n x n') (hf : n'.pc.stage ≠ .failed)
    (hcall : B.call (.handle m) n.actor a) (hpc : n.pc = .handle p m) (hb : m.body = .asyncAsk q k .nonBlocking)
    (heq : n' = { n with actor := a, pc := .future p m n.shutdown }) : Served B a₀ n' (tr ++ []) := by
  have hleft := (Behaviour.holds_iff (by rw [hpc]; rfl)).1 hs.actor
  have hopen : n.pc.opened = [.handle m] := by rw [hpc]; rfl
  rw [heq] at hx hl' hd hf ⊢
  refine hs.other hl hl' hd hx hf (by simp) ?_ ?_ rfl (by simp)
  · simp only [hs.trace, hopen, List.append_nil]
    rfl
  · -- the callback is open until the future yields
    rw [List.append_nil]
    exact ⟨rfl, ⟨q, k, hb⟩, n.actor, hleft, hcall⟩

/-- **A step of the executor that the user's code can do keeps every ask served.** -/
theorem served_exec (hs : Served B a₀ n tr) (hl : LifeOK n) (hl' : LifeOK n') (hd : Distinct n')
    (hfol : B.Follows n (.exec x)) (h : n.exec x = some n') (hf : n'.pc.stage ≠ .failed) :
    ∃ tr', Served B a₀ n' tr' := by
  have hx := Node.exec_rule h
  cases Node.serves_rule h with
  | fails c hc =>
    rw [hc] at hf
    exact absurd (unwind_stage n c) hf
  | uses o ho heq =>
    subst heq
    have hk := Node.ctxOp_kept ho
    refine ⟨tr ++ [], hs.other hl hl' hd hx hf (by simp) ?_ ?_ hk.asks ?_⟩
    · rw [hk.trace, hk.pc, List.append_nil, hs.trace]
    · rw [List.append_nil]
      exact hs.actor.congr hk.pc hk.actor hk.shutdown
    · intro p m k hpc _ hpc'
      rw [hk.pc, hpc] at hpc'
      cases hpc'
  | silent hpc hp hactor htrace hasks => exact ⟨_, hs.silent hl hl' hd hx hf hpc hp hactor htrace hasks⟩
  | returns e a hx' hpc he hp hactor htrace hasks =>
    subst hx'
    have hcall : B.call e n.actor a := hfol e (by rw [hpc]; exact List.mem_cons_self)
    exact ⟨_, hs.returns hl hl' hd hx hf hcall hpc he hp hactor htrace hasks⟩
  | internal p m hpc hb hpc' hactor htrace hasks =>
    exact ⟨_, hs.internal hl hl' hd hx hf hpc hb hpc' hactor htrace hasks⟩
  | unpolled p m a q k hx' hpc hb heq =>
    subst hx'
    have hcall : B.call (.handle m) n.actor a := hfol _ (by rw [hpc]; exact List.mem_cons_self)
    exact ⟨_, hs.unpolled hl hl' hd hx hf hcall hpc hb heq⟩
  | polled p m a q k hx' hpc hb heq =>
    subst hx'
    have hcall : B.call (.handle m) n.actor a := hfol _ (by rw [hpc]; exact List.mem_cons_self)
    exact ⟨_, hs.polled hl hl' hd hx hf hcall hpc hb heq⟩
  | replied p m a v k hx' hpc heq =>
    subst hx'
    have hhand : n.pc.hand = some m := by rcases hpc with ⟨hpc, -⟩ | ⟨seen, q, s, hpc, -⟩ <;> rw [hpc] <;> rfl
    exact ⟨_, hs.replied hl hl' hd hx hf (hfol m hhand) hpc heq⟩
  | task p m a q k j hx' hpc hb heq =>
    subst hx'
    have hcall : B.call (.handle m) n.actor a := hfol _ (by rw [hpc]; exact List.mem_cons_self)
    exact ⟨_, hs.tasked hl hl' hd hx hf hcall hpc hb heq⟩
  | changed p m seen hpc hseen =>
    -- a future that is awaited has seen no other state
    have hholds := hs.actor
    simp only [Behaviour.Holds, hpc] at hholds
    exact absurd hholds.1.symm hseen
  | cancelled p m hpc =>
    have hholds := hs.actor
    simp only [Behaviour.Holds, hpc] at hholds

/-- **A step of anybody else keeps every ask served.** -/
theorem Served.outside {ms : List (Mail A M)} (hs : Served B a₀ n tr) (hl : LifeOK n) (hf : n.pc.stage ≠ .failed)
    (hd : Distinct n') (ho : Node.Outside ms n n') (hreplies : ∀ s' ∈ n'.tasks, ∃ s ∈ n.tasks, s.task.replies = s'.task.replies)
    (hreplies' : ∀ s ∈ n.tasks, ∃ s' ∈ n'.tasks, s'.task.replies = s.task.replies)
    (hcell : ∀ k, k < n.asks.length → n.Direct k → n'.asks[k]? = n.asks[k]?)
    (hnew : ∀ k ∈ askIds ms, n'.asks[k]? = some .pending) : Served B a₀ n' tr := by
  have hac := accepted_ahead hl hf hs.trace
  have hahead : n'.ahead = n.ahead ++ ms := by
    rw [Node.ahead, Node.ahead, ho.pc, ho.mailbox.queue, List.append_assoc]
  have hdis := hd
  unfold Distinct at hdis
  rw [ho.mailbox.accepted, hac, askIds_append, askIds_append, List.nodup_append, List.nodup_append] at hdis
  have hdirect : ∀ k, n'.Direct k → n.Direct k := by
    intro k hk s hsn h
    obtain ⟨s', hs', heq⟩ := hreplies' s hsn
    exact hk s' hs' (heq.trans h)
  refine ⟨?_, hs.actor.congr ho.pc ho.actor ho.shutdown, ?_, ?_, ?_⟩
  · rw [ho.trace, ho.pc]
    exact hs.trace
  · intro k hk
    rw [hahead, askIds_append, List.mem_append] at hk
    rcases hk with hk | hk
    · have hpending := hs.waiting k hk
      -- the tasks answer asks that were handled
      have hdir : n.Direct k := fun s hsn h => hdis.1.2.2 k (hs.replies s hsn k h) k hk rfl
      rw [hcell k (List.getElem?_eq_some_iff.1 hpending).1 hdir]
      exact hpending
    · exact hnew k hk
  · intro s' hs' k hk
    obtain ⟨s, hsn, heq⟩ := hreplies s' hs'
    exact hs.replies s hsn k (heq.trans hk)
  · intro tr₁ m rest k heq hk hu hdir
    obtain ⟨a, a', v, hleft, hans, hr⟩ := hs.answered tr₁ m rest k heq hk hu (hdirect k hdir)
    refine ⟨a, a', v, hleft, hans, ?_⟩
    rw [hcell k (List.getElem?_eq_some_iff.1 hr).1 (hdirect k hdir)]
    exact hr

/-- A step of a task leaves alone which tasks answer which asks. -/
theorem Node.Tasked.replies {i : ℕ} {l : TaskLabel A M} {s : Slot A M} {t : Task A M} {e : Eff A M}
    (h : Node.Tasked n i l n' s t e) :
    (∀ s' ∈ n'.tasks, ∃ s ∈ n.tasks, s.task.replies = s'.task.replies) ∧
      ∀ s ∈ n.tasks, ∃ s' ∈ n'.tasks, s'.task.replies = s.task.replies := by
  have hkey := h.moves.replies.1
  have hi := (List.getElem?_eq_some_iff.1 h.slot).1
  rw [h.tasks]
  constructor
  · intro s' hs'
    rcases List.mem_or_eq_of_mem_set hs' with hs' | rfl
    · exact ⟨s', hs', rfl⟩
    · exact ⟨s, List.mem_of_getElem? h.slot, hkey.symm⟩
  · intro s₀ hs₀
    obtain ⟨j, hj⟩ := List.mem_iff_getElem?.1 hs₀
    by_cases hij : i = j
    · subst hij
      obtain rfl : s = s₀ := Option.some.inj (h.slot.symm.trans hj)
      exact ⟨_, List.mem_of_getElem? (List.getElem?_set_self hi), hkey⟩
    · exact ⟨s₀, List.mem_of_getElem? (by rw [List.getElem?_set_ne hij, hj]), rfl⟩

theorem served_tasked {i : ℕ} {l : TaskLabel A M} {s : Slot A M} {t : Task A M} {e : Eff A M} (hs : Served B a₀ n tr)
    (hi : Asked n) (hl : LifeOK n) (hf : n.pc.stage ≠ .failed) (hd : Distinct n') (h : Node.Tasked n i l n' s t e) :
    Served B a₀ n' tr := by
  have hslot := List.mem_of_getElem? h.slot
  refine hs.outside hl hf hd h.outside h.replies.1 h.replies.2 (fun k hk hdir => h.cell hk (hdir s hslot)) ?_
  intro k hk
  obtain ⟨m, hm, hmk⟩ := mem_askIds.1 hk
  simp only [List.mem_map, Option.mem_toList] at hm
  obtain ⟨b, hb, rfl⟩ := hm
  -- the only ask a task can send is a new one
  rcases (h.moves.push (hi.plain s hslot) hb).2 with hnone | ⟨hnew, hask⟩
  · rw [show b.asker = some k from hmk] at hnone
    cases hnone
  · rw [show b.asker = some k from hmk] at hask
    obtain rfl : k = n.asks.length := Option.some.inj hask
    rw [h.asks]
    simp only [Eff.asks, hnew, h.moves.asks_or_answers hnew, if_true]
    exact List.getElem?_concat_length

theorem served_rest {ms : List (Mail A M)} (hs : Served B a₀ n tr) (hl : LifeOK n) (hf : n.pc.stage ≠ .failed)
    (hd : Distinct n') (h : Node.Rest ms n n') (hcell : ∀ k, k < n.asks.length → n'.asks[k]? = n.asks[k]?)
    (hnew : ∀ k ∈ askIds ms, n'.asks[k]? = some .pending) : Served B a₀ n' tr := by
  refine hs.outside hl hf hd h.outside ?_ ?_ (fun k hk _ => hcell k hk) hnew
  · intro s hsn
    exact ⟨s, h.tasks ▸ hsn, rfl⟩
  · intro s hsn
    exact ⟨s, h.tasks ▸ hsn, rfl⟩

/-- What is known of every state a run has got to. -/
structure AsksOK (n : Node A M) : Prop where
  life : LifeOK n
  asked : Asked n
  distinct : Distinct n

/-- The executor has panicked, or every ask is served. -/
def ServedOK (B : Behaviour A M) (a₀ : A) (n : Node A M) : Prop := n.pc.stage = .failed ∨ ∃ tr, Served B a₀ n tr

theorem asksOK_run {cfg : Config} {a : A} {ls : List (Label A M)} {n : Node A M}
    (hr : Lts.run Node.step (Node.init cfg a) ls = some n) : AsksOK n :=
  ⟨life_run hr, asked_run hr, distinct_run hr⟩

theorem asksOK_tasked {i : ℕ} {l : TaskLabel A M} {s : Slot A M} {t : Task A M} {e : Eff A M} (hi : AsksOK n)
    (h : Node.Tasked n i l n' s t e) : AsksOK n' := by
  refine ⟨?_, asked_tasked hi.asked h, distinct_tasked hi.asked hi.distinct h⟩
  rcases hi.life with hf | ⟨hm, hl⟩
  · exact .inl (by rw [h.outside.pc]; exact hf)
  · exact .inr ⟨hm, hl.outside h.outside⟩

theorem served_step {l : Label A M} (hs : ServedOK B a₀ n) (hi : AsksOK n) (hi' : AsksOK n') (hfol : B.Follows n l)
    (h : n.step l = some n') : ServedOK B a₀ n' := by
  rcases hs with hf | ⟨tr, hs⟩
  · exact .inl (failed_step hf h)
  by_cases hf : n.pc.stage = .failed
  · exact .inl (failed_step hf h)
  cases Node.step_rule h with
  | exec x hx =>
    by_cases hf' : n'.pc.stage = .failed
    · exact .inl hf'
    · exact .inr (served_exec hs hi.life hi'.life hi'.distinct hfol h hf')
  | task k l s t e hb ht => exact .inr ⟨tr, served_tasked hs hi.asked hi.life hf hi'.distinct ht⟩
  | join i j n₁ l hj =>
    obtain ⟨s, t, e, ht⟩ := Node.taskStep_cases hj.join
    -- joining a handle is the move of the handle, before the move of the task
    rcases hj.taken with rfl | h₁
    · exact .inr ⟨tr, served_tasked hs hi.asked hi.life hf hi'.distinct ht⟩
    · obtain ⟨s', t', e', ht'⟩ := Node.taskStep_cases h₁
      have hi₁ := asksOK_tasked hi ht'
      have hf₁ : n₁.pc.stage ≠ .failed := by rwa [ht'.outside.pc]
      exact .inr ⟨tr, served_tasked (served_tasked hs hi.asked hi.life hf hi₁.distinct ht') hi₁.asked hi₁.life hf₁
        hi'.distinct ht⟩
  | send r b hr hsent =>
    rcases hsent.asks with ⟨ha, hb⟩ | ⟨hb, ha⟩
    · refine .inr ⟨tr, served_rest hs hi.life hf hi'.distinct hr (fun k _ => by rw [ha]) ?_⟩
      intro k hk
      simp [askIds, hb] at hk
    · -- the ask that is sent has a cell of its own, and waits
      refine .inr ⟨tr, served_rest hs hi.life hf hi'.distinct hr (fun k hk => ?_) ?_⟩
      · rw [ha, List.getElem?_append_left hk]
      · intro k hk
        simp only [askIds, List.filterMap_cons, hb, List.filterMap_nil, List.mem_singleton] at hk
        rw [ha, hk, List.getElem?_concat_length]
  | quiet l hr hw ha =>
    refine .inr ⟨tr, served_rest hs hi.life hf hi'.distinct hr (fun k _ => by rw [ha]) ?_⟩
    intro k hk
    cases hk

theorem served_run {cfg : Config} {ls : List (Label A M)} (hfol : Lts.Along Node.step B.Follows (Node.init cfg a₀) ls)
    (hr : Lts.run Node.step (Node.init cfg a₀) ls = some n) : ServedOK B a₀ n := by
  have hinit : Served B a₀ (Node.init cfg a₀ : Node A M) [] := by
    refine ⟨rfl, .nil, fun k hk => (by cases hk), fun s hs k hk => ?_, fun tr₁ m rest k h => ?_⟩
    · obtain ⟨kind, rfl⟩ := mem_init_tasks hs
      cases hk
    · cases tr₁ <;> cases h
  have hstep : ∀ (n : Node A M) l n', (AsksOK n ∧ ServedOK B a₀ n) → B.Follows n l → n.step l = some n' →
      AsksOK n' ∧ ServedOK B a₀ n' := by
    intro n l n' ⟨hi, hs⟩ hfol h
    have hi' : AsksOK n' := ⟨lifeOK_step hi.life h, asked_step hi.life hi.asked h, distinct_step hi.asked hi.distinct h⟩
    exact ⟨hi', served_step hs hi hi' hfol h⟩
  exact (Lts.run_along hstep ⟨asksOK_run (Lts.run_nil _), .inr ⟨[], hinit⟩⟩ hfol hr).2

end

/-! ## An answer is final -/

/-- What is ahead after a step of the executor was ahead before it, but for its own notices. -/
theorem exec_ahead {n n' : Node A M} {x : Act A M} (hx : Node.Exec n x n') {k : ℕ} (hk : k ∈ askIds n'.ahead) :
    k ∈ askIds n.ahead := by
  -- the mail at hand and the queue are as they were, or the mail at hand is gone
  have same : n'.pc.hand = n.pc.hand → n'.mailbox.queue = n.mailbox.queue → k ∈ askIds n.ahead := by
    intro hh hq
    rwa [Node.ahead, hh, hq] at hk
  have later : n'.pc.hand = none → askIds n'.mailbox.queue = askIds n.mailbox.queue → k ∈ askIds n.ahead := by
    intro hh hq
    rw [Node.ahead, hh, Option.toList_none, List.nil_append, hq] at hk
    rw [Node.ahead, askIds_append]
    exact List.mem_append_right _ hk
  cases hx with
  | op o ho' hu ho =>
    have hkept := Node.ctxOp_kept ho
    exact same (by rw [hkept.pc]) hkept.queue
  | unwind c hc =>
    obtain ⟨aw, ak, heq⟩ := Node.unwind_eq n c
    exact later (by rw [heq]; rfl) (by rw [heq]; rfl)
  | took m c pc hp hpc =>
    obtain ⟨-, -, hh, hh', -, -⟩ := Pc.took_facts hpc n.actor
    have hq := (Chan.pop_cases hp).1
    rw [Node.ahead, hh, hq]
    simpa [Node.ahead, hh'] using hk
  | check hand hpc =>
    refine same ?_ ?_ <;> unfold Node.checkStep <;> split <;> cases hand <;> simp [hpc, Pc.hand, Node.passCheck]
  | acquired hand i rest hpc hi => refine same ?_ ?_ <;> cases hand <;> simp [hpc, Pc.hand, Node.passCheck]
  | onStart a hpc =>
    refine same ?_ rfl
    unfold Node.mainLoop
    cases n.cfg.supervised <;> simp [hpc, Pc.hand]
  | task p m a i j hx' hpc hb =>
    exact later rfl (congrArg askIds (Node.anonymous_kept { n with actor := a } (.reply i j)).queue)
  | await p m stopNow w hpc hb =>
    obtain ⟨st, heq, -⟩ := Node.subscribe_eq n stopNow w
    exact later rfl (by rw [heq]; rfl)
  | cancelClosed p m hpc hc =>
    obtain ⟨aw, ak, heq⟩ := Node.dropMail_eq n m
    exact later rfl (by rw [heq]; rfl)
  | cancelSent p m c hpc hc =>
    obtain ⟨aw, ak, heq⟩ := Node.dropMail_eq { n with mailbox := c } m
    refine later rfl ?_
    rw [heq]
    show askIds c.queue = _
    rw [(Chan.Grown.of_push hc).queue, askIds_append]
    simp [askIds, Body.asker]
  | postRun p a hpc =>
    refine same ?_ ?_ <;> cases p <;> simp only [Node.processed] <;> (try split) <;> (try unfold Node.mainLoop) <;>
      (try cases n.cfg.supervised) <;> simp [hpc, Pc.hand, Node.shutdownStart, Node.call]
  | finish hpc =>
    refine same ?_ ?_ <;> unfold Node.finish <;> (repeat' split) <;> simp [hpc, Pc.hand]
  | leaveLoop hpc | stoppingDone hgo hpc hc =>
    refine same ?_ rfl
    rcases hpc with hpc | hpc <;> rw [hpc] <;> rfl
  | handled p m a hpc hb | answered p m a i r hpc hb hr => exact later rfl rfl
  | process p m hpc | preRun p m a hpc | future p m a i hpc hb | changed p m seen hpc hs | onStopping a hpc
  | children hpc hc | notify hpc | again t hpc | stay hpc hc | onStopped a hpc | assertClosed hpc hc | drained hpc hq
  | onEnd a hpc => exact same (by rw [hpc]; rfl) rfl

/-- The executor decides no ask that is not ahead. -/
theorem exec_cell {n n' : Node A M} {x : Act A M} (hx : Node.Exec n x n') {k : ℕ} (hk : k ∉ askIds n.ahead) :
    n'.asks[k]? = n.asks[k]? := by
  have same : n'.asks = n.asks → n'.asks[k]? = n.asks[k]? := fun h => by rw [h]
  -- the ask at hand is not `k`
  have hand : ∀ m, n.pc.hand = some m → m.body.asker ≠ some k := by
    intro m hm hb
    refine hk (mem_askIds.2 ⟨m, ?_, hb⟩)
    rw [Node.ahead, hm]
    exact List.mem_cons_self
  cases hx with
  | op o ho' hu ho => exact same (Node.ctxOp_kept ho).asks
  | unwind c hc => exact unwind_cell n c hk
  | check hd hpc => exact same (by unfold Node.checkStep; split <;> cases hd <;> rfl)
  | acquired hd i rest hpc hi => exact same (by cases hd <;> rfl)
  | answered p m a i r hpc hb hr =>
    refine List.getElem?_set_ne fun hik => hand m ?_ (by rw [hb, hik])
    rcases hpc with hpc | ⟨seen, hpc⟩ <;> rw [hpc] <;> rfl
  | task p m a i j hx' hpc hb => exact same (Node.anonymous_kept { n with actor := a } (.reply i j)).asks
  | await p m stopNow w hpc hb =>
    obtain ⟨st, heq, -⟩ := Node.subscribe_eq n stopNow w
    exact same (by rw [heq]; rfl)
  | cancelClosed p m hpc hc => exact dropMail_cell n (hand m (by rw [hpc]; rfl))
  | cancelSent p m c hpc hc => exact dropMail_cell { n with mailbox := c } (hand m (by rw [hpc]; rfl))
  | postRun p a hpc =>
    cases p with
    | main => exact same (by simp only [Node.processed]; split <;> rfl)
    | stopping | stopped => exact same rfl
  | finish hpc =>
    refine same ?_
    unfold Node.finish
    repeat' split
    all_goals rfl
  | _ => exact same rfl

/-- The ask `k` got `r`, and nobody can decide it any more. -/
structure Final (k : ℕ) (r : Reply M) (n : Node A M) : Prop where
  cell : n.asks[k]? = some r
  ahead : k ∉ askIds n.ahead
  direct : n.Direct k

theorem final_tasked {n n' : Node A M} {i k : ℕ} {r : Reply M} {l : TaskLabel A M} {s : Slot A M} {t : Task A M}
    {e : Eff A M} (hi : Asked n) (hf : Final k r n) (h : Node.Tasked n i l n' s t e) : Final k r n' := by
  have hlt := (List.getElem?_eq_some_iff.1 hf.cell).1
  have hslot := List.mem_of_getElem? h.slot
  refine ⟨by rw [h.cell hlt (hf.direct s hslot)]; exact hf.cell, fun hk => hf.ahead ?_, fun s' hs' hk => ?_⟩
  · rw [Node.ahead, h.outside.pc, h.outside.mailbox.queue, ← List.append_assoc, askIds_append, List.mem_append] at hk
    rcases hk with hk | hk
    · exact hk
    · obtain ⟨m, hm, hmk⟩ := mem_askIds.1 hk
      simp only [List.mem_map, Option.mem_toList] at hm
      obtain ⟨b, hb, rfl⟩ := hm
      rcases (h.moves.push (hi.plain s hslot) hb).2 with hnone | ⟨-, hask⟩
      · rw [show b.asker = some k from hmk] at hnone
        cases hnone
      · rw [show b.asker = some k from hmk] at hask
        rw [show k = n.asks.length from Option.some.inj hask] at hlt
        exact absurd hlt (Nat.lt_irrefl _)
  · obtain ⟨s₀, hs₀, heq⟩ := h.replies.1 s' hs'
    exact hf.direct s₀ hs₀ (heq.trans hk)

theorem final_rest {n n' : Node A M} {k : ℕ} {r : Reply M} {ms : List (Mail A M)} (hf : Final k r n)
    (h : Node.Rest ms n n') (hcell : n'.asks[k]? = n.asks[k]?) (hms : k ∉ askIds ms) : Final k r n' := by
  refine ⟨by rw [hcell]; exact hf.cell, ?_, fun s hs => hf.direct s (h.tasks ▸ hs)⟩
  rw [Node.ahead, h.outside.pc, h.outside.mailbox.queue, ← List.append_assoc, askIds_append, List.mem_append, not_or]
  exact ⟨hf.ahead, hms⟩

/-- **An answer is final.** -/
theorem final_step {n n' : Node A M} {k : ℕ} {r : Reply M} {l : Label A M} (hi : Asked n) (hf : Final k r n)
    (h : n.step l = some n') : Final k r n' := by
  have hlt := (List.getElem?_eq_some_iff.1 hf.cell).1
  cases Node.step_rule h with
  | exec x hx =>
    refine ⟨by rw [exec_cell hx hf.ahead]; exact hf.cell, fun hk => hf.ahead (exec_ahead hx hk), fun s hs hk => ?_⟩
    rcases Node.exec_replying hx hs hk with hs | ⟨p, m, hpc, hb, -⟩
    · exact hf.direct s hs hk
    · refine hf.ahead (mem_askIds.2 ⟨m, ?_, hb⟩)
      rw [Node.ahead, hpc]
      exact List.mem_cons_self
  | task i l s t e hb ht => exact final_tasked hi hf ht
  | join i j n₁ l hj =>
    obtain ⟨s, t, e, ht⟩ := Node.taskStep_cases hj.join
    rcases hj.taken with rfl | h₁
    · exact final_tasked hi hf ht
    · obtain ⟨s', t', e', ht'⟩ := Node.taskStep_cases h₁
      exact final_tasked (asked_tasked hi ht') (final_tasked hi hf ht') ht
  | send q b hr hs =>
    rcases hs.asks with ⟨ha, hb⟩ | ⟨hb, ha⟩
    · exact final_rest hf hr (by rw [ha]) (by simp [askIds, hb])
    · refine final_rest hf hr (by rw [ha, List.getElem?_append_left hlt]) ?_
      simp only [askIds, List.filterMap_cons, hb, List.filterMap_nil, List.mem_singleton]
      omega
  | quiet l hr hw ha => exact final_rest hf hr (by rw [ha]) (by simp)

theorem final_run {n n' : Node A M} {k : ℕ} {r : Reply M} {ls : List (Label A M)} (hi : AsksOK n) (hf : Final k r n)
    (hr : Lts.run Node.step n ls = some n') : Final k r n' := by
  have hstep : ∀ (n : Node A M) l n', (LifeOK n ∧ Asked n ∧ Final k r n) → n.step l = some n' →
      LifeOK n' ∧ Asked n' ∧ Final k r n' :=
    fun n l n' ⟨hl, hi, hf⟩ h => ⟨lifeOK_step hl h, asked_step hl hi h, final_step hi hf h⟩
  exact (Lts.run_inv hstep ⟨hi.life, hi.asked, hf⟩ hr).2.2

/-- When `on_end` is called, nothing is ahead. -/
theorem ended_ahead {n : Node A M} (hl : LifeOK n) (hend : n.pc.stage = .ended) : n.ahead = [] := by
  obtain ⟨h, hl⟩ := hl.resolve_left (by rw [hend]; decide)
  have hhand : n.pc.hand = none := by
    cases hpc : n.pc with
    | process p | preRun p | handle p | future p | cancelling p =>
      rw [hpc] at hend
      cases p <;> cases hend
    | check | acquire =>
      rw [hpc] at hend
      cases hend
    | _ => rfl
  rw [Node.ahead, hhand, hl.empty hend]
  rfl

/-- A handled message, with what was called before it. -/
theorem handledOf_split {tr : List (Event A M)} {m : Mail A M} (hm : m ∈ handledOf tr) :
    ∃ tr₁ rest, tr = tr₁ ++ .handle m :: rest := by
  unfold handledOf at hm
  rw [List.mem_filterMap] at hm
  obtain ⟨e, hmem, he⟩ := hm
  cases e with
  | handle m' =>
    cases he
    exact List.append_of_mem hmem
  | _ => cases he

/-! ## Async asks -/

/-- An ask is known by its channel. -/
theorem Distinct.eq {n : Node A M} (hd : Distinct n) {m m' : Mail A M} (hm : m ∈ n.mailbox.accepted)
    (hm' : m' ∈ n.mailbox.accepted) {k : ℕ} (hk : m.body.asker = some k) (hk' : m'.body.asker = some k) : m = m' := by
  unfold Distinct at hd
  generalize n.mailbox.accepted = l at hd hm hm'
  induction l with
  | nil => cases hm
  | cons x l ih =>
    rw [askIds_cons, List.nodup_append] at hd
    have hout : ∀ y ∈ l, y.body.asker = some k → x.body.asker ≠ some k := by
      intro y hy hyk hx
      exact hd.2.2 k (by rw [hx]; exact List.mem_cons_self) k (mem_askIds.2 ⟨y, hy, hyk⟩) rfl
    rcases List.mem_cons.1 hm with hx | hml <;> rcases List.mem_cons.1 hm' with hx' | hml'
    · exact hx.trans hx'.symm
    · exact absurd (hx ▸ hk) (hout m' hml' hk')
    · exact absurd (hx' ▸ hk') (hout m hml hk)
    · exact ih hd.2.1 hml hml'

/-- `AskResult::Task` is the result of an `ask`. -/
theorem Node.exec_task {n n' : Node A M} {p : Phase} {m : Mail A M} {a : A} {j : ℕ} (h : n.exec (.task a j) = some n')
    (hpc : n.pc = .handle p m) : ∃ q k, m.body = .ask q k := by
  have hdel : n.deliver p m (.task a j) = some n' := by
    unfold exec at h
    rwa [hpc] at h
  unfold deliver at hdel
  cases hb : m.body with
  | ask q k => exact ⟨q, k, rfl⟩
  | user q | dead r | asyncAsk q k s | await b w | cancelled c =>
    rw [hb] at hdel
    cases hdel

/-- A `reply` task answers an `ask` that was accepted. -/
def RepliesAsks (n : Node A M) : Prop :=
  ∀ s ∈ n.tasks, ∀ k, s.task.replies = some k → ∃ m ∈ n.mailbox.accepted, ∃ q, m.body = .ask q k

theorem RepliesAsks.grown {n n' : Node A M} {ms : List (Mail A M)} (hi : RepliesAsks n)
    (hac : n'.mailbox.accepted = n.mailbox.accepted ++ ms)
    (ht : ∀ s' ∈ n'.tasks, ∃ s ∈ n.tasks, s.task.replies = s'.task.replies) : RepliesAsks n' := by
  intro s' hs' k hk
  obtain ⟨s, hs, heq⟩ := ht s' hs'
  obtain ⟨m, hm, hb⟩ := hi s hs k (heq.trans hk)
  exact ⟨m, by rw [hac]; exact List.mem_append_left _ hm, hb⟩

theorem repliesAsks_exec {n n' : Node A M} {x : Act A M} (hl : LifeOK n) (hi : RepliesAsks n)
    (h : n.exec x = some n') : RepliesAsks n' := by
  have hx := Node.exec_rule h
  obtain ⟨ms, hac, -⟩ := Node.exec_accepted hx
  intro s hs k hk
  by_cases hold : s ∈ n.tasks
  · obtain ⟨m, hm, hb⟩ := hi s hold k hk
    exact ⟨m, by rw [hac]; exact List.mem_append_left _ hm, hb⟩
  · -- the handler that has returned is that of an `ask`
    obtain ⟨p, m, hpc, hask, hpc'⟩ := (Node.exec_replying hx hs hk).resolve_left hold
    have hm := hl.hand_accepted (exec_failed hx) (m := m) (by rw [hpc]; rfl)
    refine ⟨m, by rw [hac]; exact List.mem_append_left _ hm, ?_⟩
    rcases Node.exec_split hx with ⟨o, -, ho, rfl⟩ | ⟨p', m', a, i, j, rfl, hpc₁, -, rfl⟩ | ⟨ht, -, -⟩
    · rw [(Node.ctxOp_kept ho).pc, hpc] at hpc'
      cases hpc'
    · obtain ⟨q, k', hb⟩ := Node.exec_task h hpc
      rw [hb] at hask
      exact ⟨q, by rw [hb, Option.some.inj hask]⟩
    · exact absurd (ht ▸ hs) hold

theorem repliesAsks_step {n n' : Node A M} {l : Label A M} (hl : LifeOK n) (hi : RepliesAsks n)
    (h : n.step l = some n') : RepliesAsks n' := by
  refine Node.step_keeps (I := RepliesAsks) hi h ?_ ?_ ?_
  · rintro x rfl -
    exact repliesAsks_exec hl hi h
  · intro n₁ i tl n₂ s t e hi₁ _ ht
    exact hi₁.grown ht.outside.mailbox.accepted ht.replies.1
  · intro ms hr
    exact hi.grown hr.outside.mailbox.accepted fun s hs => ⟨s, hr.tasks ▸ hs, rfl⟩

theorem repliesAsks_run {cfg : Config} {a : A} {ls : List (Label A M)} {n : Node A M}
    (hr : Lts.run Node.step (Node.init cfg a) ls = some n) : RepliesAsks n := by
  refine Lts.run_inv_of (R := LifeOK) (fun _ _ hr => life_run hr) (fun _ _ _ hl hi h => repliesAsks_step hl hi h) ?_ hr
  intro s hs k hk
  obtain ⟨kind, rfl⟩ := mem_init_tasks hs
  cases hk

/-- **No task answers an async ask.** -/
theorem asyncAsk_direct {cfg : Config} {a : A} {ls : List (Label A M)} {n : Node A M}
    (hr : Lts.run Node.step (Node.init cfg a) ls = some n) {m : Mail A M} (hm : m ∈ n.mailbox.accepted) {q : M} {k : ℕ}
    {s : Scheduler} (hb : m.body = .asyncAsk q k s) : n.Direct k := by
  intro t ht hk
  obtain ⟨m', hm', q', hb'⟩ := repliesAsks_run hr t ht k hk
  have heq := (distinct_run hr).eq hm hm' (k := k) (by rw [hb]; rfl) (by rw [hb']; rfl)
  rw [heq, hb'] at hb
  cases hb

/-! ## The answer of an ask -/

/-- **An ask that no task answers, and whose future is polled**, is ahead and waits, or its
caller has what the handler computed, and keeps it ever after. -/
theorem Served.answer {B : Behaviour A M} {a₀ : A} {n : Node A M} {tr : List (Event A M)} (hs : Served B a₀ n tr)
    (hi : AsksOK n) (hf : n.pc.stage ≠ .failed) {m : Mail A M} (hm : m ∈ n.mailbox.accepted) {k : ℕ}
    (hk : m.body.asker = some k) (hu : m.body.unpolled = false) (hdir : n.Direct k) :
    (m ∈ n.ahead ∧ ActorRef.answer n k = none) ∨
    ∃ tr rest rest' a a' v, n.mailbox.accepted = handledOf tr ++ m :: rest ∧ n.trace = tr ++ .handle m :: rest' ∧
      B.Left a₀ tr a ∧ B.Answers m a a' v ∧
      ∀ ls n', Lts.run Node.step n ls = some n' → ActorRef.answer n' k = some (.ok v) := by
  have hac := accepted_ahead hi.life hf hs.trace
  rw [hac, List.mem_append] at hm
  rcases hm with hm | hm
  · right
    obtain ⟨tr₁, rest, rfl⟩ := handledOf_split hm
    obtain ⟨a, a', v, hleft, hans, hcell⟩ := hs.answered tr₁ m rest k rfl hk hu hdir
    -- an ask that was handled is not ahead any more, so nothing touches its cell
    have hnot : k ∉ askIds n.ahead := by
      have hdistinct := hi.distinct
      unfold Distinct at hdistinct
      rw [hac, askIds_append, List.nodup_append] at hdistinct
      exact fun h => hdistinct.2.2 k (mem_handledOf hk) k h rfl
    refine ⟨tr₁, handledOf rest ++ n.ahead, rest ++ n.pc.opened, a, a', v, ?_, ?_, hleft, hans, fun ls' n' hr' => ?_⟩
    · rw [hac, handledOf_append, List.append_assoc]
      rfl
    · rw [hs.trace, List.append_assoc]
      rfl
    · have hfinal := final_run hi ⟨hcell, hnot, hdir⟩ hr'
      unfold ActorRef.answer
      rw [hfinal.cell]
  · left
    refine ⟨hm, ?_⟩
    unfold ActorRef.answer
    rw [hs.waiting k (mem_askIds.2 ⟨m, hm, hk⟩)]

/-- User code that may do anything. -/
def Behaviour.any : Behaviour A M := ⟨fun _ _ _ => True, fun _ _ _ _ => True⟩

/-- Whatever user code does, asks are served. -/
theorem served_any {cfg : Config} {a : A} {ls : List (Label A M)} {n : Node A M}
    (hr : Lts.run Node.step (Node.init cfg a) ls = some n) : ServedOK .any a n := by
  refine served_run (.of_forall fun n l => ?_) hr
  unfold Behaviour.Follows
  split
  · exact fun _ _ => trivial
  · exact fun _ _ => trivial
  · exact fun _ _ => trivial
  · trivial

/-- **An async ask whose future is polled waits or is answered for good**, unless the executor
panics. -/
theorem asyncAsk_answered {cfg : Config} {a : A} {ls : List (Label A M)} {n : Node A M}
    (hr : Lts.run Node.step (Node.init cfg a) ls = some n) (hf : n.pc.stage ≠ .failed) {m : Mail A M}
    (hm : m ∈ n.mailbox.accepted) {q : M} {k : ℕ} (hb : m.body = .asyncAsk q k .nonBlocking) :
    (m ∈ n.ahead ∧ ActorRef.answer n k = none) ∨
    ∃ v, ∀ ls n', Lts.run Node.step n ls = some n' → ActorRef.answer n' k = some (.ok v) := by
  obtain ⟨tr, hs⟩ := (served_any hr).resolve_left hf
  rcases hs.answer (asksOK_run hr) hf hm (by rw [hb]; rfl) (by rw [hb]; rfl) (asyncAsk_direct hr hm hb) with h | h
  · exact .inl h
  · obtain ⟨-, -, -, -, -, v, -, -, -, -, hv⟩ := h
    exact .inr ⟨v, hv⟩

/-- A future that is awaited has seen the notifier as it is, and is that of an async ask. -/
theorem Served.future {B : Behaviour A M} {a₀ : A} {n : Node A M} {tr : List (Event A M)} (hs : Served B a₀ n tr)
    {p : Phase} {m : Mail A M} {seen : Bool} (hpc : n.pc = .future p m seen) :
    seen = n.shutdown ∧ ∃ q k, m.body = .asyncAsk q k .nonBlocking := by
  have hholds := hs.actor
  simp only [Behaviour.Holds, hpc] at hholds
  exact ⟨hholds.1, hholds.2.1⟩

/-- A future that is awaited is never cancelled. -/
theorem Served.uncancelled {B : Behaviour A M} {a₀ : A} {n : Node A M} {tr : List (Event A M)} (hs : Served B a₀ n tr)
    (p : Phase) (m : Mail A M) : n.pc ≠ .cancelling p m := by
  intro hpc
  have hholds := hs.actor
  simp only [Behaviour.Holds, hpc] at hholds

/-- What the callers of asks can rely on. -/
structure AsksAnswered (B : Behaviour A M) (a₀ : A) (n : Node A M) : Prop where
  /-- a future that is awaited is never cancelled -/
  uncancelled : ∀ p m, n.pc ≠ .cancelling p m
  /-- when `on_end` is called, nothing is ahead -/
  ended : n.pc.stage = .ended → n.ahead = []
  /-- an ask that no task answers, and whose future is polled, is ahead and waits, or its
  caller has what the handler computed on the actor that all messages accepted before it
  have left, and keeps it ever after -/
  answered : ∀ m ∈ n.mailbox.accepted, ∀ k, m.body.asker = some k → m.body.unpolled = false → n.Direct k →
    (m ∈ n.ahead ∧ ActorRef.answer n k = none) ∨
    ∃ tr rest rest' a a' v, n.mailbox.accepted = handledOf tr ++ m :: rest ∧ n.trace = tr ++ .handle m :: rest' ∧
      B.Left a₀ tr a ∧ B.Answers m a a' v ∧
      ∀ ls n', Lts.run Node.step n ls = some n' → ActorRef.answer n' k = some (.ok v)

/-- **An accepted ask is answered once, by its handler**, in every run in which the executor
has not panicked. -/
theorem ask_answered {B : Behaviour A M} {cfg : Config} {a₀ : A} {ls : List (Label A M)} {n : Node A M}
    (hfol : Lts.Along Node.step B.Follows (Node.init cfg a₀) ls)
    (hr : Lts.run Node.step (Node.init cfg a₀) ls = some n) (hf : n.pc.stage ≠ .failed) : AsksAnswered B a₀ n := by
  have hi := asksOK_run hr
  obtain ⟨tr, hs⟩ := (served_run hfol hr).resolve_left hf
  exact ⟨hs.uncancelled, fun hend => ended_ahead hi.life hend, fun m hm k hk hu hdir => hs.answer hi hf hm hk hu hdir⟩

instance {B : Behaviour A M} [∀ e a a', Decidable (B.call e a a')] [∀ m a a' v, Decidable (B.reply m a a' v)]
    (n : Node A M) : (l : Label A M) → Decidable (B.Follows n l)
  | .exec (.ret a) | .exec (.task a _) => inferInstanceAs (Decidable (∀ e ∈ n.pc.opened, B.call e n.actor a))
  | .exec (.reply a v) =>
    match h : n.pc.hand with
    | none => .isTrue fun m hm => by rw [h] at hm; cases hm
    | some m => decidable_of_iff (B.reply m n.actor a v)
        ⟨fun hb m' hm => by rw [h] at hm; cases hm; exact hb, fun hb => hb m h⟩
  | .exec (.op _) | .exec .panic | .exec .recv | .exec .none | .exec .shutdown | .exec .died | .exec .tick
  | .exec .changed | .exec .go | .send _ | .refuse | .poll _ | .giveUp _ | .task _ _ | .join _ _ | .dropCtx =>
    .isTrue trivial

/-- A counter: an ask returns it and adds one. -/
def counter : Behaviour ℕ ℕ where
  call _ a a' := a' = a
  reply _ a a' v := v = a ∧ a' = a + 1

instance (e : Event ℕ ℕ) (a a' : ℕ) : Decidable (counter.call e a a') := inferInstanceAs (Decidable (a' = a))

instance (m : Mail ℕ ℕ) (a a' v : ℕ) : Decidable (counter.reply m a a' v) :=
  inferInstanceAs (Decidable (v = a ∧ a' = a + 1))

/-- A counter gets an ask, an await request and an async ask; it answers the last one while
it stops. -/
def lateAskRun : List (Label ℕ ℕ) :=
  [.exec (.ret 5), .send (.ask 0), .send (.await true), .send (.asyncAsk 0 .nonBlocking), .exec .recv, .exec .go,
    .exec .go, .exec (.ret 5), .exec (.reply 6 5), .exec (.ret 6), .exec .recv, .exec .go, .exec .go, .exec (.ret 6),
    .exec .go, .exec (.ret 6), .exec (.ret 6), .exec .go, .exec (.ret 6), .exec .go, .exec .recv, .exec .go,
    .exec (.ret 6), .exec (.ret 6), .exec (.reply 7 6), .exec (.ret 7), .exec .none]

theorem ask_answered_lateAskRun :
    ∃ n : Node ℕ ℕ, Lts.run Node.step (Node.init ⟨4, 1, false, []⟩ 5) lateAskRun = some n ∧ n.pc = .onEnd ∧
      ActorRef.answer n 0 = some (.ok 5) ∧ ActorRef.answer n 1 = some (.ok 6) ∧ AsksAnswered counter 5 n := by
  have hr : ∃ n : Node ℕ ℕ, Lts.run Node.step (Node.init ⟨4, 1, false, []⟩ 5) lateAskRun = some n ∧ n.pc = .onEnd ∧
      ActorRef.answer n 0 = some (.ok 5) ∧ ActorRef.answer n 1 = some (.ok 6) := ⟨_, rfl, rfl, rfl, rfl⟩
  obtain ⟨n, hr, hpc, h₀, h₁⟩ := hr
  exact ⟨n, hr, hpc, h₀, h₁, ask_answered (by decide) hr (by rw [hpc]; simp [Pc.stage])⟩

/-- The step is a panic of user code. -/
def Label.isPanic : Label A M → Bool
  | .exec .panic | .task _ (.anon .panic) => true
  | _ => false

/-- An actor that has started a task stops, and its `stopping` times out when an async ask
has just come in. -/
def timeoutRun : List (Label Unit ℕ) :=
  [.exec (.op .anonymousTask), .exec (.ret ()), .send (.user 5), .exec .recv, .exec .go, .exec .go, .exec (.ret ()),
    .exec (.op .stop), .exec (.ret ()), .exec (.ret ()), .exec (.ret ()), .exec .go, .exec .go] ++
  (List.replicate 10 [.exec .tick, .exec .go]).flatten ++ [.send (.asyncAsk 7 .nonBlocking), .exec .tick]

/-- **An accepted ask can be dropped**, by the panic of `stopping` after ten seconds. -/
theorem ask_dropped :
    ∃ n : Node Unit ℕ, Lts.run Node.step (Node.init ⟨4, 1, false, []⟩ ()) timeoutRun = some n ∧
      (∀ l ∈ timeoutRun, l.isPanic = false) ∧
      n.mailbox.accepted = [⟨none, .user 5⟩, ⟨none, .asyncAsk 7 0 .nonBlocking⟩] ∧
      ActorRef.answer n 0 = some (.error .dropped) :=
  ⟨_, rfl, by decide, rfl, rfl⟩

end Tokactor
