import Tokactor.Proof.Echo

/-!
# A server does not deadlock

* `Alone.goes_on`: where an actor that one task asks waits.
* `Server.Held`: who still has what the others wait for.
* `server_progress`: in every state of a run one of the tasks can go on, or the peer is waited
  for, or all four tasks have ended.
-/

namespace Tokactor

variable {len : ℕ} {P A M : Type}

/-! ## The actor -/

section

variable {n n' : Node A M} {x : Act A M} {l : Label A M}

/-- The executor waits for a message. -/
def Node.Idle (n : Node A M) : Prop := n.pc = .recv ∧ n.mailbox.queue = [] ∧ n.mailbox.closed = false

/-- **Where an actor that one task asks waits**: for a message, or in a future. -/
theorem Alone.goes_on (hn : Alone n) :
    (∃ x, Server.runs (.exec x : Label A M) = true ∧ (n.exec x).isSome = true) ∨ n.Idle ∨
      (∃ p m seen q k, n.pc = .future p m seen ∧ m.body = .asyncAsk q k .nonBlocking) ∨ n.pc = .done := by
  have hpc := hn.pc
  cases hold : n.pc with
  | onStart | preRun p m | postRun p | onStopping | onStopped | onEnd =>
    refine .inl ⟨.ret n.actor, rfl, ?_⟩
    simp [Node.exec, hold, Node.callback]
  | check hand | process p m | isClosed | assertClosed | returned =>
    refine .inl ⟨.go, rfl, ?_⟩
    simp [Node.exec, hold]
  | recv =>
    cases hq : n.mailbox.queue with
    | cons m q =>
      obtain ⟨y, hy⟩ := Chan.pop_of_cons hq
      refine .inl ⟨.recv, rfl, ?_⟩
      simp [Node.exec, hold, Node.receive, hy]
    | nil =>
      cases hc : n.mailbox.closed with
      | false => exact .inr (.inl ⟨hold, hq, hc⟩)
      | true =>
        refine .inl ⟨.none, rfl, ?_⟩
        simp [Node.exec, hold, Node.receive, hq, hc]
  | drain =>
    cases hq : n.mailbox.queue with
    | cons m q =>
      obtain ⟨y, hy⟩ := Chan.pop_of_cons hq
      refine .inl ⟨.recv, rfl, ?_⟩
      simp [Node.exec, hold, Node.drainStep, hy]
    | nil =>
      refine .inl ⟨.none, rfl, ?_⟩
      simp [Node.exec, hold, Node.drainStep, hq]
  | handle p m =>
    have hm := hn.routes.routing.life.hand_accepted hn.routes.routing.upright (m := m) (by rw [hold]; rfl)
    cases hb : m.body with
    | user v | dead v | asyncAsk v j sch =>
      refine .inl ⟨.ret n.actor, rfl, ?_⟩
      simp [Node.exec, hold, Node.deliver, hb, Node.callback]
    | await stopNow w | cancelled c =>
      refine .inl ⟨.go, rfl, ?_⟩
      simp [Node.exec, hold, Node.deliver, hb]
    | ask q k =>
      -- it gets async asks only
      obtain ⟨q', h⟩ := hn.routes.routing.asks hm (k := k) (by rw [hb]; rfl)
      rw [hb] at h
      cases h
  | future p m seen =>
    obtain ⟨a₀, tr, hserved⟩ := hn.routes.served
    obtain ⟨-, q, k, hb⟩ := hserved.future hold
    exact .inr (.inr (.inl ⟨p, m, seen, q, k, rfl, hb⟩))
  | done => exact .inr (.inr (.inr rfl))
  | acquire | select | cancelling | notify | wait | recheck | handed | reporting | panicked =>
    rw [hold] at hpc
    cases hpc

/-- Its caller waits for the actor, or for the next time that it is polled. -/
def Await.untouched : Await A → Bool
  | .received _ | .gone => false
  | _ => true

/-- **What an await request does**: it tells the actor to stop. -/
structure Steady (n : Node A M) : Prop where
  recv : n.pc = .recv → n.state = .running
  sender : n.sender ≠ none → n.state ≠ .running
  stops : ∀ m ∈ n.mailbox.accepted, m.body.isAwait = true → ∃ w, m.body = .await true w
  cells : ∀ c ∈ n.awaits, c.untouched = true

theorem steady_init (cfg : Config) (a : A) : Steady (Node.init cfg a : Node A M) where
  recv h := by cases h
  sender h := absurd rfl h
  stops m hm := by cases hm
  cells c hc := by cases hc

/-- Cells that are changed without their callers. -/
theorem untouched_modify {f : Await A → Await A} (hf : ∀ c, c.untouched = true → (f c).untouched = true)
    {cs : List (Await A)} (h : ∀ c ∈ cs, c.untouched = true) (w : ℕ) : ∀ c ∈ cs.modify w f, c.untouched = true := by
  intro c hc
  obtain ⟨j, hj⟩ := List.mem_iff_getElem?.1 hc
  obtain ⟨b, hb, ⟨-, rfl⟩ | ⟨-, rfl⟩⟩ := Cells.get_modify hj
  · exact hf b (h b (List.mem_of_getElem? hb))
  · exact h _ (List.mem_of_getElem? hb)

theorem untouched_dropSender (c : Await A) (h : c.untouched = true) : c.dropSender.untouched = true := by
  cases c <;> first | rfl | cases h

theorem untouched_send (a : A) (c : Await A) (h : c.untouched = true) : (c.send a).untouched = true := by
  cases c <;> first | rfl | cases h

theorem stop_state (n : Node A M) : n.stop.state ≠ .running := by
  unfold Node.stop
  split
  · simp
  · assumption

theorem subscribe_untouched (h : ∀ c ∈ n.awaits, c.untouched = true) (w : ℕ) :
    ∀ c ∈ (n.subscribeAndStop w).awaits, c.untouched = true := by
  have hstop : ∀ n : Node A M, n.stop.awaits = n.awaits := by
    intro n
    unfold Node.stop
    split <;> rfl
  unfold Node.subscribeAndStop
  rw [hstop]
  unfold Node.storeSender
  cases n.sender with
  | none => exact h
  | some v => exact untouched_modify untouched_dropSender h v

/-- The executor goes on. -/
theorem Steady.exec (hs : Steady n) (hn : Alone n) (hn' : Alone n') (hl : Sole (.exec x : Label A M))
    (hx : Node.Exec n x n') : Steady n' := by
  have hpc := hn.pc
  have hup := hn'.routes.routing.upright
  have hstops : ∀ m ∈ n'.mailbox.accepted, m.body.isAwait = true → ∃ w, m.body = .await true w := by
    rw [hn.exec_accepted hx]
    exact hs.stops
  -- most steps leave the state, the sender and the cells
  have same : n'.pc ≠ .recv → n'.state = n.state → n'.sender = n.sender → n'.awaits = n.awaits → Steady n' :=
    fun hpc hst hse haw => ⟨fun h => absurd h hpc, by rw [hst, hse]; exact hs.sender, hstops, by rw [haw]; exact hs.cells⟩
  cases hx with
  | op o ho hu hop =>
    subst ho
    exact hl.elim
  | unwind c hc => exact absurd (unwind_stage n c) hup
  | onStart a hold => exact ⟨fun _ => hn.routes.routing.start hold, hs.sender, hstops, hs.cells⟩
  | took m c pc hp htook =>
    refine same ?_ rfl rfl rfl
    show pc ≠ .recv
    cases hold : n.pc <;> rw [hold] at htook <;> cases htook <;> simp
  | leaveLoop hold => exact ⟨fun h => (by cases h), fun _ h => (by cases h), hstops, hs.cells⟩
  | check hand hold =>
    refine same ?_ ?_ ?_ ?_ <;> unfold Node.checkStep <;> split <;> cases hand <;> simp [Node.passCheck]
  | acquired hand k rest hold hk => exact absurd hold (hn.routes.routing.permitted hand k rest)
  | task p m a k j hx' hold hb =>
    subst hx'
    exact hl.elim
  | await p m stopNow w hold hb =>
    have hm := hn.routes.routing.life.hand_accepted hn.routes.routing.upright (m := m) (by rw [hold]; rfl)
    obtain ⟨v, hv⟩ := hs.stops m hm (by rw [hb]; rfl)
    rw [hb] at hv
    cases hv
    -- the state is not running any more
    exact ⟨fun h => (by cases h), fun _ => stop_state _, hstops, subscribe_untouched hs.cells w⟩
  | postRun p a hold =>
    cases p with
    | main =>
      by_cases hrun : n.state = .running
      · simp only [Node.processed, if_pos hrun]
        exact ⟨fun _ => hrun, hs.sender, hs.stops, hs.cells⟩
      · simp only [Node.processed, if_neg hrun]
        exact ⟨fun h => (by cases h), fun _ h => (by cases h), hs.stops, hs.cells⟩
    | stopping | stopped => exact same (by simp [Node.processed]) rfl rfl rfl
  | stoppingDone hx' hold hc => exact ⟨fun h => (by cases h), fun _ h => (by cases h), hstops, hs.cells⟩
  | finish hold =>
    have hnone : n.finish.sender = none := by
      unfold Node.finish
      simp [hn.unsupervised]
    refine ⟨fun h => ?_, fun h => absurd hnone h, hstops, ?_⟩
    · unfold Node.finish at h
      simp [hn.unsupervised] at h
    · unfold Node.finish
      simp only [hn.unsupervised]
      cases n.sender with
      | none => exact hs.cells
      | some w => exact untouched_modify (untouched_send n.actor) hs.cells w
  | cancelClosed p m hold hc | cancelSent p m c hold hc =>
    rw [hold] at hpc
    cases hpc
  | _ => exact same (by simp [Node.call, Node.handled]) rfl rfl rfl

/-- So does everybody else, but for the caller that takes the actor. -/
theorem steady_step (hn : Alone n) (hs : Steady n) (hl : Sole l) (hp : ∀ w, l ≠ .poll w) (h : n.step l = some n') :
    Steady n' := by
  have hcells : ∀ c, c.untouched = true → ∀ b ∈ n.awaits ++ [c], b.untouched = true := by
    intro c hc b hb
    rcases List.mem_append.1 hb with hb | hb
    · exact hs.cells b hb
    · rw [List.mem_singleton.1 hb]
      exact hc
  cases l with
  | exec x => exact hs.exec hn (alone_step hn hl h) hl (Node.exec_rule h)
  | send r =>
    -- the request is a new message, and an await request tells the actor to stop
    have hstops : ∀ m ∈ n'.mailbox.accepted, m.body.isAwait = true → ∃ w, m.body = .await true w := by
      rw [(Node.send_ahead h).2]
      intro m hm hw
      rcases List.mem_append.1 hm with hm | hm
      · exact hs.stops m hm hw
      · rw [List.mem_singleton.1 hm] at hw ⊢
        cases r with
        | await stopNow =>
          cases stopNow with
          | true => exact ⟨_, rfl⟩
          | false => exact hl.elim
        | _ => cases hw
    cases r with
    | user m | ask m => exact hl.elim
    | asyncAsk q s =>
      simp only [Node.step, Node.send, Option.map_eq_some_iff] at h
      obtain ⟨c, -, rfl⟩ := h
      exact ⟨hs.recv, hs.sender, hstops, hs.cells⟩
    | await stopNow =>
      simp only [Node.step, Node.send, Option.map_eq_some_iff] at h
      obtain ⟨c, -, rfl⟩ := h
      exact ⟨hs.recv, hs.sender, hstops, hcells _ rfl⟩
  | refuse =>
    simp only [Node.step] at h
    split at h <;> cases h
    exact ⟨hs.recv, hs.sender, hs.stops, hcells _ rfl⟩
  | poll w => exact absurd rfl (hp w)
  | giveUp | task | join | dropCtx => exact hl.elim

/-- The cell of the only await request, while its caller waits. -/
theorem Steady.cell {w : ℕ} (hs : Steady n) (hn : Alone n) (hw : awaitIds n.mailbox.accepted = [w]) :
    (n.awaits[w]? = some .waiting ∧ ¬n.Idle ∧ n.pc ≠ .done) ∨ ∃ a, n.awaits[w]? = some (.sent a) ∧ n.pc = .done := by
  have hup := hn.routes.routing.upright
  obtain ⟨cfg, a, ls, -, -, hr⟩ := hn.routes
  obtain ⟨h, ha⟩ := (awaiters_run hr).resolve_left hup
  have hac := ha.accepted
  rw [hw] at hac
  -- its caller has neither gone nor taken the actor
  have hheld : Cells.At n.awaits w Await.Held → n.awaits[w]? = some .waiting := by
    rintro ⟨c, hc, rfl | rfl⟩
    · exact hc
    · cases hs.cells _ (List.mem_of_getElem? hc)
  have hgot : ∀ a, Cells.At n.awaits w (Await.Got a) → n.awaits[w]? = some (.sent a) := by
    rintro a ⟨c, hc, rfl | rfl | rfl⟩
    · exact hc
    · cases hs.cells _ (List.mem_of_getElem? hc)
    · cases hs.cells _ (List.mem_of_getElem? hc)
  rcases List.append_eq_singleton_iff.1 hac.symm with ⟨hh, hahead⟩ | ⟨hh, hahead⟩
  · -- it is ahead
    have hne : n.ahead ≠ [] := by
      intro hnil
      rw [show n.pc.hand.toList ++ n.mailbox.queue = [] from hnil] at hahead
      cases hahead
    refine .inl ⟨hheld (ha.queued w (by rw [hahead]; exact List.mem_singleton_self w)), fun hidle => hne ?_, fun hdone => hne ?_⟩
    · rw [Node.ahead, hidle.1, hidle.2.1]
      rfl
    · exact ended_ahead hn.routes.routing.life (by rw [hdone]; rfl)
  · -- its sender is stored, so the actor is told to stop
    have hlast : (awaitIds h).getLast? = some w := by rw [hh]; rfl
    have hcell := ha.last w hlast
    by_cases hdone : n.pc = .done
    · rw [hdone] at hcell
      exact .inr ⟨n.actor, hgot _ hcell, hdone⟩
    · have hover : n.pc.over = false := by
        have hpc := hn.pc
        cases hold : n.pc with
        | done => exact absurd hold hdone
        | handed | reporting =>
          rw [hold] at hpc
          cases hpc
        | _ => rfl
      rw [Pc.outcome_held hover] at hcell
      refine .inl ⟨hheld hcell, fun hidle => ?_, hdone⟩
      refine hs.sender ?_ (hs.recv hidle.1)
      rw [ha.sender hover, hlast]
      simp

end

/-! ## The reader task -/

namespace ReaderActor

variable {d : DataFrameReceiver len P M} {n n' : ReaderActor len P M} {l : ReaderLabel}

/-- The queue has room, and the writer task hears of the end. -/
def Tells (n : ReaderActor len P M) : Prop := 0 < n.readerRx.cap ∧ (n.pc.over = true → n.shutdownTx = true)

theorem tells_step (ht : n.Tells) (h : n.step d l = some n') : n'.Tells := by
  cases step_rule h with
  | task l n' hs =>
    cases hs with
    | takes frame k rx w hw hpc hrx => exact ⟨by rw [(Chan.pop_cases hrx).2.1]; exact ht.1, fun h => (by cases h)⟩
    | goesOn => exact ht
    | ends b w hpc hend =>
      obtain ⟨calls, heq⟩ := finish_eq { n with parentRx := w }
      rw [heq]
      exact ⟨ht.1, fun _ => rfl⟩
    | completes | reads | drops => exact ⟨ht.1, fun h => (by cases h)⟩
  | read rx hh hrx => exact ⟨by rw [(Chan.push_cases hrx).2.2.1]; exact ht.1, ht.2⟩
  | refused | giveUp | hangUp | outside => exact ht

theorem tells_run {m : Option SupervisorMessage} {ls : List ReaderLabel} (hr : Lts.run (step d) (init len P M m) ls = some n) :
    n.Tells :=
  Lts.run_inv (fun _ _ _ ht h => tells_step ht h) ⟨Nat.succ_pos 9, fun h => (by cases h)⟩ hr

/-- The task takes a request, or hears that there will be none. -/
theorem request_can (hpc : n.pc = .request) (h : n.readerRx.queue ≠ [] ∨ n.handles = false) :
    (n.step d (.request .fut)).isSome = true := by
  have hrecv : n.recv.isSome = true := by
    unfold recv
    cases hq : n.readerRx.queue with
    | cons e q =>
      obtain ⟨⟨o, rx⟩, hp⟩ := Chan.pop_of_cons hq
      rw [hp]
      rfl
    | nil =>
      have hh := h.resolve_left (fun h => h hq)
      split
      · rfl
      · rw [hh]
        rfl
  simp [step, takeRequest, hpc, supervisor, hrecv]

/-- It reads what is there, and sees the end of the stream. -/
theorem frame_can {frame : Read len} {k : ℕ} {payload : P} (hpc : n.pc = .reading frame k payload) :
    (∃ j, (n.step d (.frame .fut (.bytes j))).isSome = true) ∨ n.source.incoming = [] ∧ n.source.closed = false := by
  by_cases hpos : len = 0
  · have hpoll : (ReadFut.poll frame n.source (.bytes 0)).isSome = true := by
      simp [ReadFut.poll, hpos]
    exact .inl ⟨0, by simp [step, readFrame, hpc, supervisor, hpoll]⟩
  cases hin : n.source.incoming with
  | cons b bs =>
    have hpoll : (ReadFut.poll frame n.source (.bytes 1)).isSome = true := by
      have hlt : 0 + 1 ≤ len ∧ 0 + 1 ≤ n.source.incoming.length := ⟨by omega, by simp [hin]⟩
      simp only [ReadFut.poll, dif_pos hlt]
      rfl
    exact .inl ⟨1, by simp [step, readFrame, hpc, supervisor, hpoll]⟩
  | nil =>
    cases hc : n.source.closed with
    | true =>
      have hpoll : (ReadFut.poll frame n.source (.bytes 0)).isSome = true := by
        simp [ReadFut.poll, hin, hc]
      exact .inl ⟨0, by simp [step, readFrame, hpc, supervisor, hpoll]⟩
    | false => exact .inr ⟨rfl, rfl⟩

end ReaderActor

namespace WriterActor

variable {n : WriterActor}

/-- A call whose data is queued waits. -/
theorem pending_waits (hn : n.Kept) (hopen : n.writerRx.closed = false) (hgone : ∀ c ∈ n.calls, c.state ≠ .gone)
    {e : List UInt8 × ℕ} (he : e ∈ n.writerRx.queue) : ∃ c, n.calls[e.2]? = some c ∧ c.state = .waiting := by
  have hpending : e.2 ∈ n.pending := List.mem_append_right _ (List.mem_map_of_mem (f := Prod.snd) he)
  obtain ⟨hac, hans⟩ := hn.pending hpending
  have hmem : e ∈ n.writerRx.accepted := by
    rw [n.writerRx.history]
    exact List.mem_append_right _ he
  obtain ⟨c, hc, -⟩ := hn.own e hmem
  refine ⟨c, hc, ?_⟩
  have hacc := hn.calls e.2 c hc
  have hres : ∀ result, (e.2, result) ∈ n.results → False :=
    fun result h => hans (List.mem_map_of_mem (f := Prod.fst) h)
  cases hs : c.state with
  | sending =>
    rw [hs] at hacc
    exact absurd hac hacc
  | waiting => rfl
  | gone => exact absurd hs (hgone c (List.mem_of_getElem? hc))
  | returned result =>
    rw [hs] at hacc
    cases result with
    | ok u => exact (hres _ hacc).elim
    | error err =>
      cases err with
      | socket e => exact (hres _ hacc).elim
      | brokenPipe => exact absurd hac hacc.1
      | other =>
        rw [hn.closed.1 hacc.2.2] at hopen
        cases hopen

theorem writer_request_can (hpc : n.pc = .request) (h : n.writerRx.queue ≠ []) : (n.step (.request .fut)).isSome = true := by
  have hrecv : n.recv.isSome = true := by
    unfold recv
    cases hq : n.writerRx.queue with
    | cons e q =>
      obtain ⟨⟨o, rx⟩, hp⟩ := Chan.pop_of_cons hq
      rw [hp]
      rfl
    | nil => exact absurd hq h
  simp [step, takeRequest, hpc, supervisor, hrecv]

/-- The task hears of the end of the reader task. -/
theorem shutdown_can (hs : n.shutdownRx = true) (hpc : n.pc ≠ .done) :
    (n.step (.request .shutdown)).isSome = true ∨ (n.step (.written .shutdown (.ok ()))).isSome = true := by
  cases hold : n.pc with
  | request => exact .inl (by simp [step, takeRequest, hold, supervisor, hs])
  | writing data k written => exact .inr (by simp [step, writeAll, hold, supervisor, hs])
  | done => exact absurd hold hpc

/-- **A call that is under way goes on**, unless its caller has gone. -/
theorem call_can (hn : n.Kept) {k : ℕ} {c : WriteCall} (hk : n.calls[k]? = some c) (hu : c.underWay = true)
    (halone : ∀ j c', n.calls[j]? = some c' → c'.underWay = true → j = k) (hgone : ∀ c ∈ n.calls, c.state ≠ .gone) :
    (n.step (.send k)).isSome = true ∨ (n.step (.refuse k)).isSome = true ∨ (n.step (.request .fut)).isSome = true ∨
      (n.step (.written .fut (.ok ()))).isSome = true := by
  have hacc := hn.calls k c hk
  obtain ⟨data, st⟩ := c
  cases st with
  | sending =>
    cases hc : n.writerRx.closed with
    | true => exact .inr (.inl (by simp [step, hk, hc]))
    | false =>
      -- no other call is under way, so the queue is empty
      have hempty : n.writerRx.queue = [] := by
        refine List.eq_nil_iff_forall_not_mem.2 fun e he => ?_
        obtain ⟨c', hc', hw⟩ := pending_waits hn hc hgone he
        rw [halone e.2 c' hc' (by rw [WriteCall.underWay, hw]), hk] at hc'
        cases hc'
        cases hw
      have hpush : (n.writerRx.push (data, k)).isSome = true := by
        unfold Chan.push
        rw [dif_pos ⟨hc, by rw [hempty]; exact hn.cap⟩]
        rfl
      exact .inl (by simp [step, hk, hpush])
  | waiting =>
    obtain ⟨-, -, hpending, hrun⟩ := hacc
    cases hold : n.pc with
    | request =>
      rw [pending, hold, List.nil_append] at hpending
      refine .inr (.inr (.inl (writer_request_can hold fun hnil => ?_)))
      rw [hnil] at hpending
      cases hpending
    | writing data j written => exact .inr (.inr (.inr (by simp [step, writeAll, hold, supervisor])))
    | done => exact absurd hold hrun
  | returned | gone => cases hu

end WriterActor

/-- The writer task only reads what it is told. -/
theorem WriterActor.task_shutdownRx {n n' : WriterActor} {l : WriterLabel} (hn : n.Kept) (hl : l.task = true)
    (h : n.step l = some n') : n'.shutdownRx = n.shutdownRx := by
  have ends : ∀ n : WriterActor, n.finish.shutdownRx = n.shutdownRx := by
    intro n
    obtain ⟨calls, -, heq⟩ := finish_eq n
    rw [heq]
  cases step_rule hn.told h with
  | task l n' hs =>
    cases hs with
    | takes | writes => rfl
    | ends b w hpc hw hend => exact ends _
    | breaks b result w data k written hpc hw hb hend => exact ends _
  | signal l w b hl' hw => rcases hl' with rfl | rfl | rfl <;> cases hl
  | _ => rfl

/-! ## Who has what the others wait for -/

namespace Server

variable {d : DataFrameReceiver len P M} {r : Responder M} {s s' : Server len P A M} {l : ServerLabel A M}

/-- **Who has what the others wait for.** -/
structure Held (s : Server len P A M) : Prop where
  handles : s.connection.reader.handles = false → s.connection.pc.over = true
  writers : s.connection.writer.writers = 0 → s.connection.pc.over = true
  calls : ∀ c ∈ s.connection.writer.calls, c.state ≠ .gone
  shutdownRx : s.connection.reader.shutdownTx = true → s.connection.writer.shutdownRx = true
  mailbox : 0 < s.connection.actor.mailbox.cap
  steady : s.connection.pc ≠ .done → Steady s.connection.actor
  done : s.connection.pc = .done → s.connection.actor.pc = .done
  asking : ∀ k, s.connection.pc = .asking k → ∃ m ∈ s.connection.actor.mailbox.accepted, m.body.asker = some k
  awaiting : ∀ w, s.connection.pc = .awaiting w → awaitIds s.connection.actor.mailbox.accepted = [w]
  left : s.connection.pc = .done → s.connection.reader.handles = false

theorem held_init (parent : Option SupervisorMessage) (cfg : Config) (a : A) (hc : 0 < cfg.mailboxSize) :
    Held (init len P parent cfg a : Server len P A M) where
  handles h := by cases h
  writers h := by cases h
  calls c hc := by cases hc
  shutdownRx h := by cases h
  mailbox := hc
  steady _ := steady_init _ a
  done h := by cases h
  asking k h := by cases h
  awaiting w h := by cases h
  left h := by cases h

/-- The mailbox keeps its room. -/
theorem mailbox_cap {n n' : Node A M} {l : Label A M} (h : n.step l = some n') : n'.mailbox.cap = n.mailbox.cap := by
  rcases Node.step_outside h with ⟨x, rfl, hx⟩ | ⟨ms, ho⟩
  · rcases Node.exec_mailbox hx with h | ⟨m, c, pc, hp, -, rfl⟩ | ⟨p, m, hpc, h⟩ | ⟨h, -⟩
    · rw [h]
    · exact (Chan.pop_cases hp).2.1
    · exact (Chan.push_cases h).2.2.1
    · rw [h, Chan.close_cap]
  · exact ho.mailbox.cap

/-- The executor of the actor goes on. -/
theorem Held.acts {x : Act A M} {n : Node A M} (hh : Held s) (hn : Alone s.connection.actor)
    (hl : Sole (.exec x : Label A M)) (h : s.connection.actor.step (.exec x) = some n) (writing : Option ℕ) :
    Held ⟨{ s.connection with actor := n }, writing⟩ := by
  have hac := hn.exec_accepted (Node.exec_rule h)
  refine ⟨hh.handles, hh.writers, hh.calls, hh.shutdownRx, by rw [mailbox_cap h]; exact hh.mailbox,
    fun hpc => steady_step hn (hh.steady hpc) hl (fun w h => (by cases h)) h, fun hpc => ?_, ?_, ?_, hh.left⟩
  · -- its executor is over
    have hlive := Node.exec_live h
    rw [hh.done hpc] at hlive
    cases hlive
  · rw [hac]
    exact hh.asking
  · rw [hac]
    exact hh.awaiting

/-- The task of the connection goes on. -/
theorem Held.goes {c : Connection len P A M} (hh : Held s) (hs : Serving d r s)
    (h : Connection.Goes d .nonBlocking s.connection c) : Held { s with connection := c } := by
  have hturn := hs.inTurn
  unfold Connection.InTurn at hturn
  -- while it runs, its `Reader` and its `Writer` are there
  have hkeep : ∀ {pc : ConnectionPc}, s.connection.pc = pc → pc.over = false →
      s.connection.reader.handles ≠ false ∧ s.connection.writer.writers ≠ 0 := by
    intro pc hpc hlive
    refine ⟨fun h => ?_, fun h => ?_⟩
    · have hover := hh.handles h
      rw [hpc, hlive] at hover
      cases hover
    · have hover := hh.writers h
      rw [hpc, hlive] at hover
      cases hover
  cases h with
  | read n hpc h =>
    obtain ⟨hhandles, hwriters⟩ := hkeep hpc rfl
    obtain ⟨-, rx, -, rfl⟩ := ReaderActor.read_eq h
    refine ⟨fun h => absurd h hhandles, fun h => absurd h hwriters, hh.calls, hh.shutdownRx, hh.mailbox,
      fun _ => hh.steady (by rw [hpc]; simp), fun h => (by cases h), fun k h => (by cases h), fun w h => (by cases h),
      fun h => (by cases h)⟩
  | refused n hpc h =>
    obtain ⟨hhandles, hwriters⟩ := hkeep hpc rfl
    obtain ⟨-, rfl⟩ := ReaderActor.refused_eq h
    refine ⟨fun h => absurd h hhandles, fun h => absurd h hwriters, hh.calls, hh.shutdownRx, hh.mailbox,
      fun _ => hh.steady (by rw [hpc]; simp), fun h => (by cases h), fun k h => (by cases h), fun w h => (by cases h),
      fun h => (by cases h)⟩
  | asks k payload n hpc hk h =>
    obtain ⟨hhandles, hwriters⟩ := hkeep hpc rfl
    refine ⟨fun h => absurd h hhandles, fun h => absurd h hwriters, hh.calls, hh.shutdownRx, by rw [mailbox_cap h]; exact hh.mailbox,
      fun _ => steady_step hs.alone (hh.steady (by rw [hpc]; simp)) (l := .send (.asyncAsk payload .nonBlocking)) trivial
        (fun w h => (by cases h)) h, fun h => (by cases h), fun j hj => ?_, fun w h => (by cases h),
        fun h => (by cases h)⟩
    cases hj
    rw [(Node.send_ahead h).2]
    exact ⟨_, List.mem_append_right _ (List.mem_singleton_self _), rfl⟩
  | panics k payload hpc hk hclosed =>
    rw [hpc] at hturn
    rw [hs.alone.opened hturn.2] at hclosed
    cases hclosed
  | ends k hpc | answered k r hpc =>
    obtain ⟨hhandles, hwriters⟩ := hkeep hpc rfl
    exact ⟨fun h => absurd h hhandles, fun h => absurd h hwriters, hh.calls, hh.shutdownRx, hh.mailbox,
      fun _ => hh.steady (by rw [hpc]; simp), fun h => (by cases h), fun k h => (by cases h), fun w h => (by cases h),
      fun h => (by cases h)⟩
  | awaits n hpc h =>
    obtain ⟨hhandles, hwriters⟩ := hkeep hpc rfl
    refine ⟨fun h => absurd h hhandles, fun h => absurd h hwriters, hh.calls, hh.shutdownRx, by rw [mailbox_cap h]; exact hh.mailbox,
      fun _ => steady_step hs.alone (hh.steady (by rw [hpc]; simp)) (l := .send (.await true)) trivial (fun w h => (by cases h)) h,
      fun h => (by cases h), fun j hj => (by cases hj), fun w hw => ?_, fun h => (by cases h)⟩
    cases hw
    rw [hpc] at hturn
    rw [(Node.send_ahead h).2, awaitIds_append, awaitIds_none fun m hm => ?_]
    · rfl
    · have hb := hturn.2 m hm
      cases hbody : m.body <;> rw [hbody] at hb <;> first | rfl | cases hb
  | late n hpc h =>
    -- the mailbox is open, since the actor was not told to stop
    rw [hpc] at hturn
    have hopen := hs.alone.opened hturn.2
    simp only [Node.step, hopen] at h
    cases h
  | received w a n hpc hw h =>
    -- the actor was sent, so its executor is over
    obtain ⟨hwait, -, -⟩ | ⟨b, -, hdone⟩ := (hh.steady (by rw [hpc]; simp)).cell hs.alone (hh.awaiting w hpc)
    · rw [hwait] at hw
      cases hw
    · have hn : n.pc = .done := by
        simp only [Node.step, Node.poll, hw] at h
        cases h
        exact hdone
      exact ⟨fun _ => rfl, fun _ => rfl, hh.calls, hh.shutdownRx, (mailbox_cap h).symm ▸ hh.mailbox,
        fun h => absurd rfl h, fun _ => hn, fun k h => (by cases h), fun w h => (by cases h), fun _ => rfl⟩
  | dropped w hpc hw =>
    -- nobody drops the sender
    rcases (hh.steady (by rw [hpc]; simp)).cell hs.alone (hh.awaiting w hpc) with ⟨hwait, -⟩ | ⟨b, hsent, -⟩
    · rw [hwait] at hw
      cases hw
    · rw [hsent] at hw
      cases hw

theorem held_step (hs : Serving d r s) (hh : Held s) (hstep : s.step d r l = some s') : Held s' := by
  cases step_rule hstep with
  | write p m seen q j sch w owners hpc hb hwriting h =>
    obtain ⟨-, rfl⟩ : s.connection.writer.writers ≠ 0 ∧ _ = w := by
      simpa [WriterActor.step] using h
    refine ⟨hh.handles, hh.writers, fun c hc => ?_, hh.shutdownRx, hh.mailbox, hh.steady, hh.done, hh.asking, hh.awaiting, hh.left⟩
    rcases List.mem_append.1 hc with hc | hc
    · exact hh.calls c hc
    · rw [List.mem_singleton.1 hc]
      simp
  | reply k c result n hw hc hr h =>
    have hl : Sole (.exec (.reply s.connection.actor.actor r.output) : Label A M) := trivial
    exact hh.acts hs.alone hl h _
  | shutdown =>
    exact ⟨hh.handles, hh.writers, hh.calls, hh.shutdownRx, hh.mailbox, hh.steady, hh.done, hh.asking, hh.awaiting, hh.left⟩
  | died =>
    exact ⟨hh.handles, hh.writers, hh.calls, hh.shutdownRx, hh.mailbox, hh.steady, hh.done, hh.asking, hh.awaiting, hh.left⟩
  | go c h => exact hh.goes hs h
  | reader l n hl h =>
    obtain ⟨hhandles, -⟩ := ReaderActor.task_over hl h
    exact ⟨fun h => hh.handles (hhandles ▸ h), hh.writers, hh.calls, fun h => by rw [h, Bool.or_true], hh.mailbox,
      hh.steady, hh.done, hh.asking, hh.awaiting, fun h => hhandles.trans (hh.left h)⟩
  | writer l w hl hg hd h =>
    obtain ⟨hlen, -, hwriters⟩ := WriterActor.task_rest hs.kept hl h
    have hgoes := WriterActor.task_goes hs.kept hl hg h
    refine ⟨hh.handles, fun hnone => ?_, fun c hc hgone => ?_, fun h' => ?_, hh.mailbox, hh.steady, hh.done, hh.asking, hh.awaiting, hh.left⟩
    · rcases hwriters hnone with hnone | ⟨rfl, hone⟩
      · exact hh.writers hnone
      · exact (hd rfl).2.resolve_left (by omega)
    · obtain ⟨k, hk⟩ := List.mem_iff_getElem?.1 hc
      have hlt : k < s.connection.writer.calls.length := hlen ▸ (List.getElem?_eq_some_iff.1 hk).1
      have hgo := (List.forall₂_iff_get.1 hgoes).2 k hlt (hlen ▸ hlt)
      rw [List.get_eq_getElem, List.get_eq_getElem, (List.getElem?_eq_some_iff.1 hk).2] at hgo
      exact hh.calls _ (List.getElem_mem hlt) (hgo.2 hgone)
    · rw [show w.shutdownRx = _ from WriterActor.task_shutdownRx hs.kept hl h]
      exact hh.shutdownRx h'
  | actor x n hx h => exact hh.acts hs.alone (sole_runs hx).1 h _

theorem held_run {parent : Option SupervisorMessage} {cfg : Config} {a : A} {ls : List (ServerLabel A M)}
    (hc : 0 < cfg.mailboxSize) (hr : Lts.run (step d r) (init len P parent cfg a) ls = some s) : s.Held :=
  (Lts.run_inv (I := fun s => Serving d r s ∧ s.Held) (fun _ _ _ hi h => ⟨serving_step hi.1 h, held_step hi.1 hi.2 h⟩)
    ⟨serving_init parent cfg a, held_init parent cfg a hc⟩ hr).2

/-! ## Who can go on -/

end Server

/-- The tasks of the server do this by themselves; the socket takes what is written. -/
def ServerLabel.inner : ServerLabel A M → Bool
  | .write | .reply | .other .go | .other (.reader (.request _)) | .other (.reader (.frame _ (.bytes _)))
  | .other (.writer (.send _)) | .other (.writer (.refuse _)) | .other (.writer (.request _))
  | .other (.writer (.written _ (.ok _))) | .other (.actor (.exec _)) => true
  | _ => false

namespace Server

variable {d : DataFrameReceiver len P M} {r : Responder M} {s s' : Server len P A M} {l : ServerLabel A M}

/-- One of the tasks can go on. -/
def Can (d : DataFrameReceiver len P M) (r : Responder M) (s : Server len P A M) : Prop :=
  ∃ l : ServerLabel A M, l.inner = true ∧ (s.step d r l).isSome = true

/-- The reader task waits for the peer, and the task of the connection for the reader task. -/
def AwaitsPeer (s : Server len P A M) : Prop :=
  ∃ k frame payload, s.connection.pc = .reading k ∧ s.connection.reader.pc = .reading frame k payload ∧
    s.connection.reader.source.incoming = [] ∧ s.connection.reader.source.closed = false

/-- All four tasks have ended. -/
def Over (s : Server len P A M) : Prop :=
  s.connection.pc = .done ∧ s.connection.actor.pc = .done ∧ s.connection.reader.pc.over = true ∧
    s.connection.writer.pc.over = true

theorem can_go (h : (s.connection.go d .nonBlocking).isSome = true) : Can d r s :=
  ⟨.other .go, rfl, by simp [step, permits, Connection.step, h]⟩

theorem can_reader {l : ReaderLabel} (hl : l.task = true) (hi : ServerLabel.inner (.other (.reader l) : ServerLabel A M) = true)
    (h : (s.connection.reader.step d l).isSome = true) : Can d r s :=
  ⟨.other (.reader l), hi, by simp [step, permits, Connection.step, hl, h]⟩

theorem can_writer {l : WriterLabel} (hl : l.task = true) (hi : ServerLabel.inner (.other (.writer l) : ServerLabel A M) = true)
    (h : (s.connection.writer.step l).isSome = true) : Can d r s := by
  refine ⟨.other (.writer l), hi, ?_⟩
  have hp : permits s.connection (.writer l) = true := by
    cases l <;> first | rfl | cases hi
  have hd : s.connection.droppable l = true := by
    cases l <;> first | rfl | cases hi
  simp [step, hp, Connection.step, hl, hd, h]

theorem can_actor {x : Act A M} (hx : runs (.exec x : Label A M) = true) (h : (s.connection.actor.exec x).isSome = true) :
    Can d r s :=
  ⟨.other (.actor (.exec x)), rfl, by simp [step, permits, hx, Connection.step, Connection.owns, Node.step, h]⟩

/-- A mailbox that is open and empty takes a message. -/
theorem mailbox_can {n : Node A M} (hc : 0 < n.mailbox.cap) (hopen : n.mailbox.closed = false) (hahead : n.ahead = [])
    (m : Mail A M) : ∃ c, n.mailbox.push m = some c := by
  have hq : n.mailbox.queue = [] := (List.append_eq_nil_iff.1 hahead).2
  unfold Chan.push
  rw [dif_pos ⟨hopen, by rw [hq]; exact hc⟩]
  exact ⟨_, rfl⟩

/-- The future that is awaited can go on, or the writer task. -/
theorem Serving.future_can {p : Phase} {m : Mail A M} {seen : Bool} {q : M} {k : ℕ} (hs : Serving d r s) (hh : s.Held)
    (hover : s.connection.pc.over = false) (hpc : s.connection.actor.pc = .future p m seen)
    (hb : m.body = .asyncAsk q k .nonBlocking) : Can d r s := by
  obtain ⟨src, body⟩ := m
  have hb : body = .asyncAsk q k .nonBlocking := hb
  subst hb
  cases hw : s.writing with
  | none =>
    -- `Writer::write` is called
    refine ⟨.write, rfl, ?_⟩
    have hwriters : s.connection.writer.writers ≠ 0 := by
      intro h
      have ho := hh.writers h
      rw [hover] at ho
      cases ho
    simp [step, write, hpc, hw, Connection.step, Pc.works, WriterActor.step, hwriters]
  | some j =>
    have hlt : j < s.connection.writer.calls.length := by
      have h := hs.turn.last j hw
      omega
    have hj := List.getElem?_eq_getElem hlt
    cases hst : s.connection.writer.calls[j].state with
    | returned result =>
      -- it has come back, and the future yields
      have hcall : (s.writing.bind fun k => s.connection.writer.calls[k]?) =
          some ⟨s.connection.writer.calls[j].data, .returned result⟩ := by
        rw [hw, ← hst]
        exact hj
      refine ⟨.reply, rfl, ?_⟩
      show (s.reply d r).isSome = true
      unfold reply
      rw [hcall]
      simp [Connection.step, Connection.owns, Node.step, Node.exec, hpc, Node.resolve]
    | sending | waiting =>
      have hcan := WriterActor.call_can hs.kept hj (by rw [WriteCall.underWay, hst])
        (fun i c' hi hu => Option.some.inj ((hs.turn.idle i c' hi hu).symm.trans hw)) hh.calls
      rcases hcan with h | h | h | h
      · exact can_writer rfl rfl h
      · exact can_writer rfl rfl h
      · exact can_writer rfl rfl h
      · exact can_writer rfl rfl h
    | gone => exact absurd hst (hh.calls _ (List.getElem_mem hlt))

/-- An actor that has something ahead goes on. -/
theorem Serving.ahead_can (hs : Serving d r s) (hh : s.Held) (hover : s.connection.pc.over = false)
    (hidle : ¬s.connection.actor.Idle) (hdone : s.connection.actor.pc ≠ .done) : Can d r s := by
  rcases hs.alone.goes_on with ⟨x, hx, h⟩ | h | ⟨p, m, seen, q, k, hpc, hb⟩ | h
  · exact can_actor hx h
  · exact absurd h hidle
  · exact hs.future_can hh hover hpc hb
  · exact absurd h hdone

/-- No request is queued, or served, while the task of the connection awaits none. -/
theorem Serving.unread (hs : Serving d r s) (hpc : ∀ k, s.connection.pc ≠ .reading k) :
    s.connection.reader.pc.over = true ∧ s.connection.reader.readerRx.closed = true ∨
      s.connection.reader.pc = .request ∧ s.connection.reader.readerRx.queue = [] ∧
        s.connection.reader.readerRx.closed = false := by
  obtain ⟨m, ls, hr⟩ := hs.reader
  obtain ⟨es, ht⟩ := ReaderActor.tracks_run hr
  have hnone : ∀ k, ¬s.connection.reader.Open k := fun k hk => hpc k (hs.fed.open hk).1
  cases hold : s.connection.reader.pc with
  | done => exact .inl ⟨rfl, ht.ended.2 hold⟩
  | reading frame k payload => exact (hnone k (ht.serving frame k payload hold).1).elim
  | request =>
    have hne : s.connection.reader.pc ≠ .done := by rw [hold]; simp
    refine .inr ⟨rfl, List.eq_nil_iff_forall_not_mem.2 fun e he => ?_, ?_⟩
    · exact hnone e.2 (ht.queue hne e.2 (List.mem_map_of_mem (f := Prod.snd) he)).1
    · rw [Bool.eq_false_iff]
      exact fun h => hne (ht.ended.1 h)

/-- The task of the connection is in its loop. -/
theorem Serving.loop_can (hs : Serving d r s) (hh : s.Held) (hpc : s.connection.pc = .loop) : Can d r s := by
  obtain ⟨m, ls, hr⟩ := hs.reader
  have htells := ReaderActor.tells_run hr
  have hhandles : s.connection.reader.handles = true := by
    rw [← Bool.not_eq_false]
    intro h
    have hover := hh.handles h
    rw [hpc] at hover
    cases hover
  refine can_go ?_
  rcases hs.unread (fun k h => by rw [hpc] at h; cases h) with ⟨-, hclosed⟩ | ⟨-, hq, hopen⟩
  · have hpush : s.connection.reader.readerRx.push (Read.default len, s.connection.reader.calls.length) = none := by
      simp [Chan.push, hclosed]
    simp [Connection.go, hpc, ReaderActor.step, hhandles, hclosed, hpush]
  · have hpush : ∃ rx, s.connection.reader.readerRx.push (Read.default len, s.connection.reader.calls.length) = some rx := by
      unfold Chan.push
      rw [dif_pos ⟨hopen, by rw [hq]; exact htells.1⟩]
      exact ⟨_, rfl⟩
    obtain ⟨rx, hrx⟩ := hpush
    simp [Connection.go, hpc, ReaderActor.step, hhandles, hrx]

/-- It is in a call of `Reader::read`. -/
theorem Serving.reading_can {k : ℕ} (hs : Serving d r s) (hh : s.Held) (hpc : s.connection.pc = .reading k) :
    Can d r s ∨ s.AwaitsPeer := by
  have hfed := hs.fed
  have hturn := hs.inTurn
  unfold Connection.Fed at hfed
  unfold Connection.InTurn at hturn
  rw [hpc] at hfed hturn
  obtain ⟨rfl, c, hgone, hcalls⟩ := hfed
  have hk : s.connection.reader.calls[(payloads s.connection.actor.mailbox.accepted).length]? = some c := by
    rw [hcalls, List.getElem?_append_right (by rw [List.length_map])]
    simp
  cases c with
  | response payload =>
    -- the actor takes the request
    obtain ⟨n, hn⟩ := mailbox_can hh.mailbox (hs.alone.opened hturn.2) hturn.1
      ⟨none, .asyncAsk payload s.connection.actor.asks.length .nonBlocking⟩
    refine .inl (can_go ?_)
    simp [Connection.go, hpc, hk, Node.send, hn]
  | closed =>
    refine .inl (can_go ?_)
    simp [Connection.go, hpc, hk]
  | gone => exact absurd rfl hgone
  | waiting =>
    obtain ⟨m, ls, hr⟩ := hs.reader
    obtain ⟨es, ht⟩ := ReaderActor.tracks_run hr
    obtain ⟨hne, hheld⟩ := ht.calls _ _ hk
    cases hold : s.connection.reader.pc with
    | done => exact absurd hold hne
    | request =>
      have hqueued := hheld.resolve_right fun h => by
        obtain ⟨frame, payload, h⟩ := h
        rw [hold] at h
        cases h
      refine .inl (can_reader rfl rfl (ReaderActor.request_can hold (.inl fun hnil => ?_)))
      rw [ReaderActor.queued, hnil] at hqueued
      cases hqueued
    | reading frame j payload =>
      rcases ReaderActor.frame_can (d := d) hold with ⟨i, h⟩ | ⟨hin, hopen⟩
      · exact .inl (can_reader rfl rfl h)
      · exact .inr ⟨_, frame, payload, hpc, by
          have hj := (hs.fed.open (ht.serving frame j payload hold).1).1
          rw [hpc] at hj
          cases hj
          exact hold, hin, hopen⟩

/-- It awaits the answer to a request. -/
theorem Serving.asking_can {k : ℕ} (hs : Serving d r s) (hh : s.Held) (hpc : s.connection.pc = .asking k) : Can d r s := by
  obtain ⟨m, hm, hk⟩ := hh.asking k hpc
  rcases routed_answers hs.alone.routes hm hk with ⟨hahead, -⟩ | ⟨v, hv⟩
  · refine hs.ahead_can hh (by rw [hpc]; rfl) (fun hidle => ?_) (fun hdone => ?_)
    · rw [Node.ahead, hidle.1, hidle.2.1] at hahead
      cases hahead
    · rw [ended_ahead hs.alone.routes.routing.life (by rw [hdone]; rfl)] at hahead
      cases hahead
  · refine can_go ?_
    have hcell := RouterTree.answer_ok hv
    simp [Connection.go, hpc, hcell]

/-- It has told the actor to stop, or does so now. -/
theorem Serving.leaving_can (hs : Serving d r s) (hh : s.Held)
    (hpc : s.connection.pc = .leaving ∨ ∃ w, s.connection.pc = .awaiting w) : Can d r s := by
  have hturn := hs.inTurn
  unfold Connection.InTurn at hturn
  rcases hpc with hpc | ⟨w, hpc⟩
  · rw [hpc] at hturn
    obtain ⟨n, hn⟩ := mailbox_can hh.mailbox (hs.alone.opened hturn.2) hturn.1
      ⟨none, .await true s.connection.actor.awaits.length⟩
    refine can_go ?_
    simp [Connection.go, hpc, Node.send, hn]
  · rcases (hh.steady (by rw [hpc]; simp)).cell hs.alone (hh.awaiting w hpc) with ⟨-, hidle, hdone⟩ | ⟨a, hsent, -⟩
    · exact hs.ahead_can hh (by rw [hpc]; rfl) hidle hdone
    · refine can_go ?_
      simp [Connection.go, hpc, hsent, Node.step, Node.poll]

/-- It has ended. -/
theorem Serving.done_can (hs : Serving d r s) (hh : s.Held) (hpc : s.connection.pc = .done) : Can d r s ∨ s.Over := by
  obtain ⟨m, ls, hr⟩ := hs.reader
  have htells := ReaderActor.tells_run hr
  rcases hs.unread (fun k h => by rw [hpc] at h; cases h) with ⟨hover, -⟩ | ⟨hold, -⟩
  · -- the reader task has ended too, and the writer task hears of it
    by_cases hw : s.connection.writer.pc = .done
    · exact .inr ⟨hpc, hh.done hpc, hover, by rw [hw]; rfl⟩
    · rcases WriterActor.shutdown_can (hh.shutdownRx (htells.2 hover)) hw with h | h
      · exact .inl (can_writer rfl rfl h)
      · exact .inl (can_writer rfl rfl h)
  · exact .inl (can_reader rfl rfl (ReaderActor.request_can hold (.inr (hh.left hpc))))

/-- One of the tasks can go on, or the peer is waited for, or all of them have ended. -/
theorem Serving.progress (hs : Serving d r s) (hh : s.Held) : s.Can d r ∨ s.AwaitsPeer ∨ s.Over := by
  cases hpc : s.connection.pc with
  | loop => exact .inl (hs.loop_can hh hpc)
  | reading k => exact (hs.reading_can hh hpc).imp_right .inl
  | asking k => exact .inl (hs.asking_can hh hpc)
  | leaving => exact .inl (hs.leaving_can hh (.inl hpc))
  | awaiting w => exact .inl (hs.leaving_can hh (.inr ⟨w, hpc⟩))
  | done => exact (hs.done_can hh hpc).imp_right .inr
  | panicked =>
    have hturn := hs.inTurn
    unfold Connection.InTurn at hturn
    rw [hpc] at hturn
    exact hturn.elim

end Server

variable {d : DataFrameReceiver len P M} {r : Responder M} {s : Server len P A M}

/-- **No deadlock**: in every state of every run, whatever signals came and whatever the socket
did, one of the tasks of the server can go on, or the peer is waited for, or all four tasks have
ended, the one of the connection without a panic. -/
theorem server_progress {parent : Option SupervisorMessage} {cfg : Config} {a : A} {ls : List (ServerLabel A M)}
    (hc : 0 < cfg.mailboxSize) (hr : Lts.run (Server.step d r) (.init len P parent cfg a) ls = some s) :
    s.Can d r ∨ s.AwaitsPeer ∨ s.Over :=
  (Server.serving_run hr).progress (Server.held_run hc hr)

theorem server_progress_echoRun :
    ∃ s : Server 4 (List UInt8) Unit (List UInt8),
      Lts.run (Server.step (StatefulTcpWorld.Data 4) StatefulTcpWorld.Connection)
        (.init 4 (List UInt8) none ⟨4, 1, true, []⟩ ()) echoRun = some s ∧
      (s.Can (StatefulTcpWorld.Data 4) StatefulTcpWorld.Connection ∨ s.AwaitsPeer ∨ s.Over) := by
  have hr : ∃ s : Server 4 (List UInt8) Unit (List UInt8),
      Lts.run (Server.step (StatefulTcpWorld.Data 4) StatefulTcpWorld.Connection)
        (.init 4 (List UInt8) none ⟨4, 1, true, []⟩ ()) echoRun = some s := ⟨_, rfl⟩
  obtain ⟨s, hr⟩ := hr
  exact ⟨s, hr, server_progress (by decide) hr⟩

end Tokactor
