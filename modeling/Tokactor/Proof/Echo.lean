import Tokactor.Proof.Server

/-!
# A server that nobody disturbs

* `ServerLabel.undisturbed`: the supervisor stays and sends nothing, and the socket does not fail.
* `ReaderActor.Calm`, `WriterActor.Calm`: then neither task ends before that of the connection,
  no request ends without its object but at the end of the stream, and no write is lost.
* `responses_complete`: so when that task has left its loop, the peer has got every response.
* `echo`: what the server of `examples/stateful_tcp_world.rs` sends back.
-/

namespace Tokactor

variable {len : ℕ} {P A M : Type}

/-- The supervisor stays and sends nothing, and the socket does not fail. -/
def ServerLabel.undisturbed : ServerLabel A M → Bool
  | .shutdown | .died | .other (.reader (.frame _ (.error _))) | .other (.writer (.written _ (.error _))) => false
  | _ => true

/-- The task has left its loop. -/
def ConnectionPc.left : ConnectionPc → Bool
  | .leaving | .awaiting _ | .done => true
  | _ => false

/-! ## The reader task -/

namespace ReaderActor

variable {d : DataFrameReceiver len P M} {n n' : ReaderActor len P M} {l : ReaderLabel} {ended ended' : Prop}

/-- The task has nothing to end for before the task of the connection has `ended`, and a request
that is dropped was dropped at the end of the stream. -/
structure Calm (ended : Prop) (n : ReaderActor len P M) : Prop where
  signal : ¬n.Signalled
  handles : n.handles = false → ended
  pc : n.pc.over = true → ended
  shutdownTx : n.shutdownTx = true → ended
  closed : .closed ∈ n.calls → n.Over

theorem Calm.mono (hn : Calm ended n) (h : ended → ended') : Calm ended' n :=
  ⟨hn.signal, fun hh => h (hn.handles hh), fun hh => h (hn.pc hh), fun hh => h (hn.shutdownTx hh), hn.closed⟩

theorem calm_init (m : Option SupervisorMessage) : Calm ended (init len P M m) where
  signal := by simp [Signalled, init, Watch.subscribe]
  handles h := by cases h
  pc h := by cases h
  shutdownTx h := by cases h
  closed h := by cases h

theorem tracks_run {m : Option SupervisorMessage} {ls : List ReaderLabel} (hr : Lts.run (step d) (init len P M m) ls = some n) :
    ∃ es, Tracks d es n :=
  Lts.run_inv (I := fun n => ∃ es, Tracks d es n)
    (fun n l _ hi h => hi.elim fun es hes => ⟨es ++ n.reads (.step l), tracks_step hes (moves_rule h)⟩) ⟨[], tracks_init m⟩ hr

/-- Calls that are not closed by `f` are not closed. -/
theorem closed_modify {f : ReadCall M → ReadCall M} (hf : ∀ c, f c = .closed → c = .closed) {k : ℕ}
    {cs : List (ReadCall M)} (h : .closed ∈ cs.modify k f) : .closed ∈ cs := by
  obtain ⟨j, hj⟩ := List.mem_iff_getElem?.1 h
  obtain ⟨c, hc, ⟨-, hx⟩ | ⟨-, rfl⟩⟩ := Cells.get_modify hj
  · rw [hf c hx.symm] at hc
    exact List.mem_of_getElem? hc
  · exact List.mem_of_getElem? hc

theorem send_closed (object : M) (c : ReadCall M) (h : c.send object = .closed) : c = .closed := by
  cases c <;> first | rfl | cases h

/-- A frame that shows something was there. -/
theorem poll_more {f f' : Read len} {s s' : Source} {p : Peek} (h : ReadFut.poll f s p = some (.ok (some ()), f', s')) :
    s.incoming ≠ [] := by
  obtain ⟨hne, -, hin, -⟩ := poll_some h
  rw [hin]
  exact fun hnil => hne (List.append_eq_nil_iff.1 hnil).1

/-- **The task goes on**, as long as its socket does not fail. -/
theorem calm_task (hn : Calm ended n) (hl : l.task = true) (he : ∀ b e, l ≠ .frame b (.error e))
    (h : n.step d l = some n') : Calm ended n' := by
  -- what is read was there, so no request was dropped before, but where nothing can be read
  have hread : ∀ {p : Peek} {f f' : Read len} {source : Source}, ReadFut.poll f n.source p = some (.ok (some ()), f', source) →
      n.Over → len = 0 := fun hpoll ho => ho.resolve_left fun h => poll_more hpoll h.1
  cases l with
  | request b =>
    cases takeRequest_rule h with
    | takes frame k rx w hw hpc hrx =>
      subst hw
      exact ⟨hn.signal, hn.handles, fun h => (by cases h), hn.shutdownTx, hn.closed⟩
    | goesOn l b w hl hb hs => exact absurd hs hn.signal
    | ends b w hpc hend =>
      obtain ⟨hq, hh, rfl⟩ := hend.resolve_left hn.signal
      have hover := hn.handles hh
      obtain ⟨calls, heq⟩ := finish_eq { n with parentRx := n.parentRx }
      have hcalls := finish_calls { n with parentRx := n.parentRx }
      rw [heq] at hcalls ⊢
      refine ⟨hn.signal, fun _ => hover, fun _ => hover, fun _ => hover, fun hc => hn.closed ?_⟩
      -- its queue is empty
      have hsame : calls = n.calls := List.ext_getElem? fun k => by
        refine (hcalls k).trans ?_
        rw [hq]
        simp
      rwa [← hsame]
  | frame b p =>
    cases readFrame_rule h with
    | goesOn l b w hl hb hs => exact absurd hs hn.signal
    | completes p frame frame' k payload payload' object source w hw hpc hpoll hrecv =>
      subst hw
      exact ⟨hn.signal, hn.handles, fun h => (by cases h), hn.shutdownTx,
        fun hc => .inr (hread hpoll (hn.closed (closed_modify (send_closed object) hc)))⟩
    | reads p frame frame' k payload payload' source w hw hpc hpoll hrecv =>
      subst hw
      exact ⟨hn.signal, hn.handles, fun h => (by cases h), hn.shutdownTx, fun hc => .inr (hread hpoll (hn.closed hc))⟩
    | drops b p frame k payload w hpc hend =>
      obtain ⟨rfl, -, hend⟩ := hend.resolve_left fun h => hn.signal h.1
      rcases hend with ⟨e, rfl⟩ | ⟨-, ho⟩
      · exact absurd rfl (he b e)
      · exact ⟨hn.signal, hn.handles, fun h => (by cases h), hn.shutdownTx, fun _ => ho⟩
  | arrive bs =>
    simp only [step] at h
    split at h <;> cases h
    rename_i hopen
    -- the stream was not over
    exact ⟨hn.signal, hn.handles, hn.pc, hn.shutdownTx, fun hc => .inr ((hn.closed hc).resolve_left fun h => hopen h.2)⟩
  | close =>
    cases h
    exact ⟨hn.signal, hn.handles, hn.pc, hn.shutdownTx, fun hc => (hn.closed hc).imp_left fun h => ⟨h.1, rfl⟩⟩
  | read | refused | giveUp | hangUp | notify | died => cases hl

end ReaderActor

/-! ## The writer task -/

namespace WriterActor

variable {n n' : WriterActor} {l : WriterLabel} {ended ended' : Prop}

/-- So has the writer task, and no call was given up or lost. -/
structure Calm (ended : Prop) (n : WriterActor) : Prop where
  signal : n.Signalled → ended
  writers : n.writers = 0 → ended
  pc : n.pc.over = true → ended
  results : ∀ p ∈ n.results, p.2 = .ok ()
  calls : ∀ c ∈ n.calls, c.state ≠ .gone ∧ c.lost = false

theorem Calm.mono (hn : Calm ended n) (h : ended → ended') : Calm ended' n :=
  ⟨fun hh => h (hn.signal hh), fun hh => h (hn.writers hh), fun hh => h (hn.pc hh), hn.results, hn.calls⟩

theorem calm_init (m : Option SupervisorMessage) : Calm ended (init m) where
  signal h := by simp [Signalled, init, Watch.subscribe] at h
  writers h := by cases h
  pc h := by cases h
  results p hp := by cases hp
  calls c hc := by cases hc

/-- The task ends. -/
theorem Ended.calm (he : Ended n n') (hn : Calm ended n) (ho : ended) :
    (n'.Signalled → ended) ∧ (n'.pc.over = true → ended) ∧ ∀ p ∈ n'.results, p.2 = .ok () :=
  ⟨fun _ => ho, fun _ => ho, by rw [he.results]; exact hn.results⟩

/-- The task goes on, and its results are those of the socket. -/
theorem Calm.goes (hk : Kept n) (hn : Calm ended n) (hl : l.task = true) (he : ∀ b e, l ≠ .written b (.error e))
    (h : n.step l = some n') :
    (n'.Signalled → ended) ∧ (n'.pc.over = true → ended) ∧ ∀ p ∈ n'.results, p.2 = .ok () := by
  cases step_rule hk.told h with
  | task l n' hs =>
    cases hs with
    | takes data k rx hpc hrx => exact ⟨hn.signal, fun h => (by cases h), hn.results⟩
    | writes data k written result hpc =>
      refine ⟨hn.signal, fun h => (by cases h), fun p hp => ?_⟩
      rcases List.mem_append.1 hp with hp | hp
      · exact hn.results p hp
      · rw [List.mem_singleton.1 hp]
        cases result with
        | ok u => rfl
        | error e => exact absurd rfl (he .fut e)
    | ends b w hpc hw hend =>
      refine (ended_request hpc hw).calm hn ?_
      rcases hend with ⟨-, hnone⟩ | ⟨-, hs⟩
      · exact hn.writers hnone
      · exact hn.signal hs
    | breaks b result w data k written hpc hw hb hend => exact (ended_writing hpc hw).calm hn (hn.signal hend)
  | clone | dropWriter | send | refuse | giveUp => exact ⟨hn.signal, hn.pc, hn.results⟩
  | put => exact ⟨hn.signal, fun h => (by cases h), hn.results⟩
  | write => cases hl
  | signal l w b hl' hw => rcases hl' with rfl | rfl | rfl <;> cases hl

/-- **No call is lost** while the task of the connection goes on. -/
theorem calm_task (hk : Kept n) (hn : Calm ended n) (hl : l.task = true) (hg : ∀ k, l ≠ .giveUp k)
    (he : ∀ b e, l ≠ .written b (.error e)) (hd : l = .dropWriter → 2 ≤ n.writers ∨ ended)
    (hlive : ∀ c ∈ n.calls, c.underWay = true → ¬ended) (h : n.step l = some n') : Calm ended n' := by
  obtain ⟨hsignal, hpc, hresults⟩ := hn.goes hk hl he h
  obtain ⟨hlen, -, hwriters⟩ := task_rest hk hl h
  refine ⟨hsignal, fun hnone => ?_, hpc, hresults, fun c' hc' => ?_⟩
  · rcases hwriters hnone with hnone | ⟨rfl, hone⟩
    · exact hn.writers hnone
    · exact (hd rfl).resolve_left (by omega)
  · obtain ⟨k, hk'⟩ := List.mem_iff_getElem?.1 hc'
    have hlt : k < n.calls.length := hlen ▸ (List.getElem?_eq_some_iff.1 hk').1
    have hc := List.getElem?_eq_getElem hlt
    have hmem := List.getElem_mem hlt
    by_cases hu : n.calls[k].underWay = true
    · -- its task is there
      have hover := hlive _ hmem hu
      have hgoes := task_goes hk hl hg h
      have hgo := (List.forall₂_iff_get.1 hgoes).2 k hlt (hlen ▸ hlt)
      rw [List.get_eq_getElem, List.get_eq_getElem, (List.getElem?_eq_some_iff.1 hk').2] at hgo
      refine ⟨fun hgone => (hn.calls _ hmem).1 (hgo.2 hgone), ?_⟩
      rw [Bool.eq_false_iff]
      exact fun hlost => hover (hpc (lost_over (kept_step hk h) hk' hlost))
    · rw [settled_step hk h hc (by simpa using hu)] at hk'
      cases hk'
      exact hn.calls _ hmem

end WriterActor

/-! ## The server -/

namespace Server

variable {d : DataFrameReceiver len P M} {r : Responder M} {s s' : Server len P A M} {l : ServerLabel A M}

/-- **No task ends before the task of the connection.** -/
def Calm (s : Server len P A M) : Prop :=
  s.connection.reader.Calm (s.connection.pc.over = true) ∧ s.connection.writer.Calm (s.connection.pc.over = true)

/-- The task of the connection goes on. -/
theorem calm_goes {c : Connection len P A M} (hs : Serving d r s) (hcalm : s.Calm)
    (h : Connection.Goes d .nonBlocking s.connection c) : Calm { s with connection := c } := by
  obtain ⟨hr, hw⟩ := hcalm
  have hlive : s.connection.pc.over = true → False := by
    cases h with
    | read r hpc | refused r hpc | asks k p n hpc | panics k p hpc | ends k hpc | answered k r hpc | awaits n hpc
    | late n hpc | received w a n hpc | dropped w hpc =>
      rw [hpc]
      exact fun h => by cases h
  have hr' : ∀ ended, s.connection.reader.Calm ended := fun ended => hr.mono fun h => (hlive h).elim
  have hw' : ∀ ended, s.connection.writer.Calm ended := fun ended => hw.mono fun h => (hlive h).elim
  -- its `Reader` is dropped
  have hang : ({ s.connection.reader with handles := false } : ReaderActor len P M).Calm True :=
    ⟨hr.signal, fun _ => trivial, fun _ => trivial, fun _ => trivial, hr.closed⟩
  have hends : ∀ ended : Prop, ended → ({ s.connection.reader with handles := false } : ReaderActor len P M).Calm ended :=
    fun ended ho => hang.mono fun _ => ho
  cases h with
  | read n hpc h =>
    refine ⟨?_, hw' _⟩
    obtain ⟨-, rx, -, rfl⟩ := ReaderActor.read_eq h
    refine ⟨hr.signal, fun h => (hlive (hr.handles h)).elim, fun h => (hlive (hr.pc h)).elim,
      fun h => (hlive (hr.shutdownTx h)).elim, fun hc => hr.closed ?_⟩
    rcases List.mem_append.1 hc with hc | hc
    · exact hc
    · cases List.mem_singleton.1 hc
  | refused n hpc h =>
    -- the queue is closed when the reader task has ended
    obtain ⟨hclosed, -⟩ := ReaderActor.refused_eq h
    obtain ⟨m, ls, hrun⟩ := hs.reader
    obtain ⟨es, ht⟩ := ReaderActor.tracks_run hrun
    refine (hlive (hr.pc ?_)).elim
    rw [ht.ended.1 hclosed]
    rfl
  | asks | ends | answered | awaits => exact ⟨hr' _, hw' _⟩
  | panics | late | received | dropped => exact ⟨hends _ rfl, hw' _⟩

/-- A write is under way only before the end of the task of the connection. -/
theorem Serving.busy (hs : Serving d r s) : ∀ c ∈ s.connection.writer.calls, c.underWay = true → ¬s.connection.pc.over = true := by
  intro c hc hu
  obtain ⟨k, hk⟩ := List.mem_iff_getElem?.1 hc
  obtain ⟨j, hpc⟩ := hs.asking (hs.turn.idle k c hk hu)
  rw [hpc]
  exact fun h => by cases h

theorem calm_step (hs : Serving d r s) (hcalm : s.Calm) (hl : l.undisturbed = true) (hstep : s.step d r l = some s') :
    s'.Calm := by
  have hcalm' := hcalm
  obtain ⟨hr, hw⟩ := hcalm
  cases step_rule hstep with
  | write p m seen q j sch w owners hpc hb hwriting h =>
    cases WriterActor.step_rule hs.kept.told h with
    | task l n' hs => cases hs
    | signal l w b hl => rcases hl with hl | hl | hl <;> cases hl
    | write data hpos =>
      refine ⟨hr, hw.signal, hw.writers, hw.pc, hw.results, fun c hc => ?_⟩
      rcases List.mem_append.1 hc with hc | hc
      · exact hw.calls c hc
      · rw [List.mem_singleton.1 hc]
        exact ⟨by simp, rfl⟩
  | reply => exact ⟨hr, hw⟩
  | shutdown | died => cases hl
  | go c h => exact calm_goes hs hcalm' h
  | reader l n hl' h =>
    have hr' := ReaderActor.calm_task hr hl' (fun b e he => by subst he; cases hl) h
    refine ⟨hr', ⟨fun hsig => ?_, hw.writers, hw.pc, hw.results, hw.calls⟩⟩
    rcases hsig with hsig | hsig
    · rcases Bool.or_eq_true_iff.1 hsig with hsig | hsig
      · exact hw.signal (.inl hsig)
      · exact hr'.shutdownTx hsig
    · exact hw.signal (.inr hsig)
  | writer l w hl' hg hd h =>
    refine ⟨hr, WriterActor.calm_task hs.kept hw hl' hg (fun b e he => by subst he; cases hl) (fun h => (hd h).2) hs.busy h⟩
  | actor x n hx h => exact ⟨hr, hw⟩

theorem calm_run {parent : Option SupervisorMessage} {cfg : Config} {a : A} {ls : List (ServerLabel A M)}
    (hl : ∀ l ∈ ls, l.undisturbed = true) (hr : Lts.run (step d r) (init len P parent cfg a) ls = some s) : s.Calm :=
  (Lts.run_along (I := fun s => Serving d r s ∧ s.Calm) (P := fun _ l => ServerLabel.undisturbed l = true)
    (fun _ _ _ hi hl h => ⟨serving_step hi.1 h, calm_step hi.1 hi.2 hl h⟩)
    ⟨serving_init parent cfg a, ReaderActor.calm_init parent, WriterActor.calm_init parent⟩
    (Lts.Along.of_labels (p := fun l => ServerLabel.undisturbed l = true) hl) hr).2

/-- The calls of a writer task that lost none have all succeeded, but for that under way. -/
theorem Serving.succeeded (hs : Serving d r s) (hcalm : s.Calm) (hw : s.writing = none) {k : ℕ} {c : WriteCall}
    (hk : s.connection.writer.calls[k]? = some c) : c.state = .returned (.ok ()) ∧ (k, .ok ()) ∈ s.connection.writer.results := by
  have hidle : c.underWay = false := by
    rw [Bool.eq_false_iff]
    intro hu
    have hwriting := hs.turn.idle k c hk hu
    rw [hw] at hwriting
    cases hwriting
  obtain ⟨hgone, hlost⟩ := hcalm.2.calls c (List.mem_of_getElem? hk)
  have hacc := hs.kept.calls k c hk
  unfold WriteCall.underWay at hidle
  unfold WriteCall.lost at hlost
  cases hc : c.state with
  | sending | waiting =>
    rw [hc] at hidle
    cases hidle
  | gone => exact absurd hc hgone
  | returned result =>
    rw [hc] at hacc hlost
    cases result with
    | ok u => exact ⟨rfl, hacc⟩
    | error e =>
      cases e with
      | socket e => cases hcalm.2.results _ hacc
      | brokenPipe | other => cases hlost

/-- Await requests have no payloads. -/
theorem payloads_await {ms : List (Mail A M)} (h : ∀ m ∈ ms, m.body.isAwait = true) : payloads ms = [] := by
  refine List.filterMap_eq_nil_iff.2 fun m hm => ?_
  have hb := h m hm
  cases hbody : m.body <;> rw [hbody] at hb <;> first | rfl | cases hb

/-- When the task of the connection has left its loop, every object that it got was answered. -/
theorem Serving.through (hs : Serving d r s) (hpc : s.connection.pc.left = true) :
    s.writing = none ∧ .closed ∈ s.connection.reader.calls ∧
      s.connection.writer.data = s.connection.reader.returned.map r.response := by
  have hnone : s.writing = none := by
    cases hw : s.writing with
    | none => rfl
    | some k =>
      obtain ⟨j, hj⟩ := hs.asking hw
      rw [hj] at hpc
      cases hpc
  have hfed := hs.fed
  have hturn := hs.inTurn
  have hwrote := hs.wrote
  rw [hnone] at hwrote
  unfold Connection.Fed at hfed
  unfold Connection.InTurn at hturn
  -- what is ahead is no request
  obtain ⟨hcalls, hahead⟩ : s.connection.reader.calls =
      (payloads s.connection.actor.mailbox.accepted).map .response ++ [.closed] ∧ payloads s.connection.actor.ahead = [] := by
    cases hc : s.connection.pc with
    | leaving =>
      rw [hc] at hfed hturn
      exact ⟨hfed, by rw [hturn.1]; rfl⟩
    | awaiting w | done =>
      rw [hc] at hfed hturn
      exact ⟨hfed, payloads_await hturn.2⟩
    | loop | reading k | asking k | panicked =>
      rw [hc] at hpc
      cases hpc
  refine ⟨hnone, by rw [hcalls]; simp, ?_⟩
  have hobjects : s.connection.reader.returned = payloads s.connection.actor.mailbox.accepted := by
    rw [ReaderActor.returned, hcalls, List.filterMap_append, List.filterMap_map]
    exact (List.append_nil _).trans List.filterMap_some
  rw [hobjects, hs.alone.accepted, hahead, List.append_nil]
  exact hwrote

/-- When the response to each object was written, the peer has got them all. -/
theorem Serving.written (hs : Serving d r s) (hcalm : s.Calm) (hnone : s.writing = none)
    (hdata : s.connection.writer.data = s.connection.reader.returned.map r.response) :
    s.connection.writer.source = (s.connection.reader.returned.map r.response).flatten := by
  obtain ⟨ws, hsource, hws⟩ := hs.kept.blocks
  have hlen := hws.length_eq
  -- every call has succeeded
  have hok : ∀ i, i < s.connection.reader.returned.length → (i, .ok ()) ∈ s.connection.writer.results := by
    intro i hi
    have h := congrArg List.length hdata
    rw [List.length_map, WriterActor.data, List.length_map] at h
    exact (hs.succeeded hcalm hnone (List.getElem?_eq_getElem (by omega))).2
  -- so its data was taken
  have hall : ∀ i, i < s.connection.reader.returned.length → i < ws.length := by
    intro i hi
    obtain ⟨-, c, -, hmem⟩ := hs.kept.result_taken (hok i hi)
    obtain ⟨j, hj, hget⟩ := List.getElem_of_mem hmem
    have hij := hs.turn.number hj
    rw [hget] at hij
    have hij : i = j := hij
    omega
  obtain ⟨hle, htaken⟩ := hs.blocks hws
  have heq : ws.length = s.connection.reader.returned.length := by
    refine Nat.le_antisymm hle (Nat.le_of_not_lt fun hlt => ?_)
    exact Nat.lt_irrefl _ (hall _ hlt)
  have hblocks : ws = s.connection.reader.returned.map r.response := by
    refine List.ext_getElem? fun i => ?_
    rcases Nat.lt_or_ge i ws.length with hi | hi
    · obtain ⟨q, hq, hw⟩ := hs.whole hws hi (hok i (by omega))
      rw [hw, List.getElem?_map, hq]
      rfl
    · rw [List.getElem?_eq_none hi, List.getElem?_eq_none (by rw [List.length_map]; omega)]
  rw [hsource, hblocks]

/-- **Then the peer has got every response**, and everything that it sent was read. -/
theorem Serving.complete (hs : Serving d r s) (hcalm : s.Calm) (hpc : s.connection.pc.left = true) :
    s.connection.writer.source = (s.connection.reader.returned.map r.response).flatten ∧ s.connection.reader.Over := by
  obtain ⟨hnone, hclosed, hdata⟩ := hs.through hpc
  exact ⟨hs.written hcalm hnone hdata, hcalm.1.closed hclosed⟩

end Server

variable {d : DataFrameReceiver len P M} {r : Responder M} {s : Server len P A M}

/-- The peer sends a request in two parts and closes its half; the actor is told to stop. -/
def echoRun : List (ServerLabel Unit (List UInt8)) :=
  [.other .go, .other (.actor (.exec (.ret ()))), .other (.reader (.arrive [1, 2, 3, 4, 5])),
    .other (.reader (.request .fut)), .other (.reader (.frame .fut (.bytes 4))), .other .go,
    .other (.actor (.exec .recv)), .other (.actor (.exec .go)), .other (.actor (.exec .go)),
    .other (.actor (.exec (.ret ()))), .other (.actor (.exec (.ret ()))), .write, .other (.writer (.send 0)),
    .other (.writer (.request .fut)), .other (.writer (.put 1)), .other (.writer (.written .fut (.ok ()))), .reply,
    .other (.actor (.exec (.ret ()))), .other .go, .other .go] ++
  [.other (.reader .close), .other (.reader (.request .fut)), .other (.reader (.frame .fut (.bytes 1))),
    .other .go, .other (.actor (.exec .recv)), .other (.actor (.exec .go)), .other (.actor (.exec .go)),
    .other (.actor (.exec (.ret ()))), .other (.actor (.exec (.ret ()))), .write, .other (.writer (.send 1)),
    .other (.writer (.request .fut)), .other (.writer (.written .fut (.ok ()))), .reply,
    .other (.actor (.exec (.ret ()))), .other .go, .other .go, .other (.reader (.request .fut)),
    .other (.reader (.frame .fut (.bytes 0))), .other .go, .other .go]

/-- A request that has no answer is the last one, and the task awaits it. -/
theorem ConnectionPc.Fed.open {pc : ConnectionPc} {qs : List M} {cs : List (ReadCall M)} {k : ℕ} (hf : pc.Fed qs cs)
    (hk : cs[k]? = some .waiting ∨ cs[k]? = some .gone) :
    pc = .reading k ∧ k = qs.length ∧ cs = qs.map .response ++ [.waiting] := by
  have hresponse : ∀ c, (qs.map ReadCall.response)[k]? = some c → ∃ q, c = .response q := by
    intro c hc
    rw [List.getElem?_map] at hc
    obtain ⟨q, -, rfl⟩ := Option.map_eq_some_iff.1 hc
    exact ⟨q, rfl⟩
  have hold : (qs.map ReadCall.response)[k]? ≠ some .waiting ∧ (qs.map ReadCall.response)[k]? ≠ some .gone := by
    constructor <;> intro h <;> obtain ⟨q, hq⟩ := hresponse _ h <;> cases hq
  -- so it is not among the calls that were answered
  have hlast : ∀ x, cs = qs.map .response ++ [x] → k = qs.length ∧ (x = .waiting ∨ x = .gone) := by
    rintro x rfl
    rcases hk with hk | hk
    · rcases Cells.get_concat hk with h | ⟨h, hx⟩
      · exact absurd h hold.1
      · exact ⟨by rw [h, List.length_map], .inl hx.symm⟩
    · rcases Cells.get_concat hk with h | ⟨h, hx⟩
      · exact absurd h hold.2
      · exact ⟨by rw [h, List.length_map], .inr hx.symm⟩
  cases pc with
  | loop | asking j =>
    rw [show cs = _ from hf] at hk
    exact (hk.elim hold.1 hold.2).elim
  | reading j =>
    obtain ⟨rfl, x, hx, rfl⟩ := hf
    obtain ⟨rfl, hxw⟩ := hlast x rfl
    obtain rfl := hxw.resolve_right hx
    exact ⟨rfl, rfl, rfl⟩
  | leaving | awaiting w | done =>
    obtain ⟨-, hx⟩ := hlast _ hf
    rcases hx with hx | hx <;> cases hx
  | panicked =>
    obtain ⟨q, hq⟩ := hf
    obtain ⟨-, hx⟩ := hlast _ hq
    rcases hx with hx | hx <;> cases hx

namespace StatefulTcpWorld

variable {s s' : Server len (List UInt8) A (List UInt8)} {r : Responder (List UInt8)} {l : ServerLabel A (List UInt8)}

/-- Every frame that was read has completed a request. -/
def Mirrors (n : ReaderActor len (List UInt8) (List UInt8)) : Prop := n.returned = n.frames

theorem Mirrors.same {n n' : ReaderActor len (List UInt8) (List UInt8)} (hn : Mirrors n) (hc : n'.returned = n.returned)
    (hf : n'.frames = n.frames) : Mirrors n' := by
  rw [Mirrors, hc, hf]
  exact hn

/-- Calls that are closed keep their objects. -/
theorem objects_same {cs cs' : List (ReadCall M)} (h : List.Forall₂ (fun c c' => c'.object = c.object) cs cs') :
    cs'.filterMap ReadCall.object = cs.filterMap ReadCall.object := by
  induction h with
  | nil => rfl
  | cons hc hcs ih => rw [List.filterMap_cons, List.filterMap_cons, hc, ih]

theorem object_dropSender (c : ReadCall M) : ReadCall.object c.dropSender = c.object := by
  cases c <;> rfl

/-- **A step of the reader task**: a frame is an object, for the last call. -/
theorem mirrors_task {n n' : ReaderActor len (List UInt8) (List UInt8)} {l : ReaderLabel} {pc : ConnectionPc}
    {qs : List (List UInt8)} {es : List (ℕ × FrameRead len)} (ht : ReaderActor.Tracks (Data len) es n)
    (hf : pc.Fed qs n.calls) (hn : Mirrors n) (hl : l.task = true) (h : n.step (Data len) l = some n') : Mirrors n' := by
  cases ReaderActor.step_rule h with
  | task l n' hs =>
    cases hs with
    | takes | goesOn => exact hn.same rfl rfl
    | ends b w hpc hend =>
      have hcalls := ReaderActor.finish_calls { n with parentRx := w }
      obtain ⟨calls, heq⟩ := ReaderActor.finish_eq { n with parentRx := w }
      rw [heq] at hcalls ⊢
      refine hn.same (objects_same (Cells.forall₂_of_get hcalls fun k c => ?_)) rfl
      split
      · exact object_dropSender c
      · rfl
    | completes p frame frame' k payload payload' object source w hw hpc hpoll hrecv =>
      -- the request at hand is that of the last call
      obtain ⟨hopen, -⟩ := ht.serving frame k payload hpc
      obtain ⟨-, rfl, hcalls⟩ := hf.open hopen
      have hobject : frame'.frame = object := Option.some.inj (Prod.mk.inj hrecv).2
      have hold : n.returned = qs := by
        rw [ReaderActor.returned, hcalls, List.filterMap_append, List.filterMap_map]
        exact (List.append_nil _).trans List.filterMap_some
      rw [Mirrors, hold] at hn
      show List.filterMap ReadCall.object (n.calls.modify qs.length (ReadCall.send object)) = n.frames ++ [frame'.frame]
      rw [hcalls, ← hn, hobject]
      have hlast := Cells.modify_concat (ReadCall.send object) (qs.map ReadCall.response) .waiting
      rw [List.length_map] at hlast
      rw [hlast, List.filterMap_append, List.filterMap_map]
      exact congrArg (· ++ [object]) List.filterMap_some
    | reads p frame frame' k payload payload' source w hw hpc hpoll hrecv => cases hrecv
    | drops b p frame k payload w hpc hend =>
      have hgoes : List.Forall₂ (fun c c' => ReadCall.object c' = c.object) n.calls (n.calls.modify k ReadCall.dropSender) :=
        Cells.forall₂_modify (R := fun c c' => ReadCall.object c' = c.object) (fun _ => rfl) object_dropSender k n.calls
      exact hn.same (objects_same hgoes) rfl
  | read | refused | giveUp | hangUp => cases hl
  | outside => exact hn.same rfl rfl

theorem mirrors_step (hs : Server.Serving (Data len) r s) (hn : Mirrors s.connection.reader)
    (hstep : s.step (Data len) r l = some s') : Mirrors s'.connection.reader := by
  cases Server.step_rule hstep with
  | write | reply | shutdown | died | writer | actor => exact hn
  | reader l n hl h =>
    obtain ⟨m, ls, hr⟩ := hs.reader
    obtain ⟨es, ht⟩ := ReaderActor.tracks_run hr
    exact mirrors_task ht hs.fed hn hl h
  | go c h =>
    cases h with
    | read n hpc h =>
      obtain ⟨-, rx, -, rfl⟩ := ReaderActor.read_eq h
      exact hn.same (by simp [ReaderActor.returned, ReadCall.object]) rfl
    | refused n hpc h =>
      obtain ⟨-, rfl⟩ := ReaderActor.refused_eq h
      exact hn.same (by simp [ReaderActor.returned, ReadCall.object]) rfl
    | asks | panics | ends | answered | awaits | late | received | dropped => exact hn

theorem mirrors_run {parent : Option SupervisorMessage} {cfg : Config} {a : A} {ls : List (ServerLabel A (List UInt8))}
    (hr : Lts.run (Server.step (Data len) r) (.init len (List UInt8) parent cfg a) ls = some s) :
    Mirrors s.connection.reader :=
  (Lts.run_inv (I := fun s => Server.Serving (Data len) r s ∧ Mirrors s.connection.reader)
    (fun _ _ _ hi h => ⟨Server.serving_step hi.1 h, mirrors_step hi.1 hi.2 h⟩)
    ⟨Server.serving_init parent cfg a, rfl⟩ hr).2

/-- **Echo**: in every run the peer gets back bytes that it sent, in their order, and none twice;
as long as no write fails in the socket, nothing is left out between them; and when nobody
disturbs the server and its buffers have room, all that the peer sent is back when the task of
the connection has left its loop. -/
theorem echo {parent : Option SupervisorMessage} {cfg : Config} {a : A} {ls : List (ServerLabel A (List UInt8))}
    (hr : Lts.run (Server.step (Data len) Connection) (.init len (List UInt8) parent cfg a) ls = some s) :
    s.connection.writer.source.Sublist s.connection.reader.source.arrived ∧
      ((∀ p ∈ s.connection.writer.results, p.2 = .ok ()) →
        s.connection.writer.source <+: s.connection.reader.source.arrived) ∧
      (0 < len → (∀ l ∈ ls, l.undisturbed = true) → s.connection.pc.left = true →
        s.connection.writer.source = s.connection.reader.source.arrived) := by
  have hs := Server.serving_run hr
  obtain ⟨m, rs, hrun⟩ := hs.reader
  have hconsumed : (s.connection.reader.returned.map Connection.response).flatten = s.connection.reader.source.consumed := by
    rw [← (ReaderActor.delivered_run hrun).frames, ← show _ = _ from mirrors_run hr]
    exact congrArg List.flatten (List.map_id _)
  have hpart : s.connection.reader.source.consumed <+: s.connection.reader.source.arrived := by
    rw [s.connection.reader.source.history]
    exact List.prefix_append _ _
  obtain ⟨ws, ha⟩ := hs.answers
  refine ⟨?_, fun hok => ?_, fun hpos hl hpc => ?_⟩
  · refine .trans ?_ hpart.sublist
    rw [ha.source, ← hconsumed]
    exact (flatten_sublist (List.forall₂_map_right_iff.2 ha.parts)).trans
      ((List.take_sublist _ _).map _).flatten
  · rw [← hconsumed] at hpart
    exact (ha.unbroken hok).trans hpart
  · obtain ⟨hsource, hover⟩ := hs.complete (Server.calm_run hl hr) hpc
    have hnil := (hover.resolve_right (by omega)).1
    rw [hsource, hconsumed, s.connection.reader.source.history, hnil, List.append_nil]

theorem echo_echoRun :
    ∃ s : Server 4 (List UInt8) Unit (List UInt8),
      Lts.run (Server.step (Data 4) Connection) (.init 4 (List UInt8) none ⟨4, 1, true, []⟩ ()) echoRun = some s ∧
      s.connection.reader.source.arrived = [1, 2, 3, 4, 5] ∧
      s.connection.writer.source = s.connection.reader.source.arrived := by
  have hr : ∃ s : Server 4 (List UInt8) Unit (List UInt8),
      Lts.run (Server.step (Data 4) Connection) (.init 4 (List UInt8) none ⟨4, 1, true, []⟩ ()) echoRun = some s ∧
      s.connection.pc = .awaiting 0 ∧ s.connection.reader.source.arrived = [1, 2, 3, 4, 5] := ⟨_, rfl, rfl, rfl⟩
  obtain ⟨s, hr, hpc, harrived⟩ := hr
  exact ⟨s, hr, harrived, (echo hr).2.2 (by decide) (by decide) (by rw [hpc]; rfl)⟩

end StatefulTcpWorld

end Tokactor
