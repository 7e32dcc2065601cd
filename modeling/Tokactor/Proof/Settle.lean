import Tokactor.Proof.Progress

/-!
# A server comes to rest

* `Node.effort`, `ReaderActor.effort`, `ConnectionPc.effort`, `Server.effort`: what is left to do,
  until the peer sends more.
* `effort_step`: every step that the tasks do by themselves lowers it.
* `server_settles`: so they do only so many, in any order, and then wait for the peer or have ended.
* `server_completes`: once the peer has closed its half, a server that nobody disturbs has ended
  then, and the peer has got every response.
-/

namespace Tokactor

variable {len : ℕ} {P A M : Type}

/-! ## The actor -/

section

variable {n n' : Node A M} {x : Act A M} {l : Label A M}

/-- What is left of a message at hand. -/
def Phase.effort : Phase → ℕ
  | .stopped => 3
  | _ => 8

/-- What is left behind the messages that are queued, for an actor that one task asks. -/
def Pc.effort : Pc A M → ℕ
  | .onStart => 9
  | .recv => 8
  | .check _ => 14
  | .process p _ => p.effort + 5
  | .preRun p _ => p.effort + 4
  | .handle p _ => p.effort + 3
  | .future p _ _ => p.effort + 2
  | .postRun p => p.effort + 1
  | .onStopping => 7
  | .isClosed => 6
  | .onStopped => 5
  | .assertClosed => 4
  | .drain => 3
  | .onEnd => 2
  | .returned => 1
  | _ => 0

def Node.effort (n : Node A M) : ℕ := 10 * n.mailbox.queue.length + n.pc.effort

/-- **Every step of the executor lowers it.** -/
theorem Alone.effort_lt (hn : Alone n) (hl : Sole (.exec x : Label A M)) (h : n.exec x = some n') : n'.effort < n.effort := by
  have hpc := hn.pc
  have hn' := alone_step hn hl (l := .exec x) h
  have hup := hn'.routes.routing.upright
  -- most steps leave the queue
  have same : n'.mailbox.queue = n.mailbox.queue → n'.pc.effort < n.pc.effort → n'.effort < n.effort := by
    intro hq hlt
    rw [Node.effort, Node.effort, hq]
    omega
  cases Node.exec_rule h with
  | op o ho hu hop =>
    subst ho
    exact hl.elim
  | unwind c hc => exact absurd (unwind_stage n c) hup
  | onStart a hold =>
    refine same rfl ?_
    simp [Node.mainLoop, hn.unsupervised, hold, Pc.effort]
  | took m c pc hp htook =>
    have hq := congrArg List.length (Chan.pop_cases hp).1
    rw [List.length_cons] at hq
    -- the message is at hand now
    have hle : pc.effort < n.pc.effort + 10 := by
      cases hold : n.pc <;> rw [hold] at hpc htook <;> cases htook <;> first | cases hpc; done | simp [Pc.effort, Phase.effort]
    show 10 * c.queue.length + pc.effort < 10 * n.mailbox.queue.length + n.pc.effort
    omega
  | leaveLoop hold =>
    refine same rfl ?_
    rcases hold with hold | hold
    · rw [hold]
      simp [Node.shutdownStart, Node.call, Pc.effort]
    · rw [hold] at hpc
      cases hpc
  | check hand hold =>
    cases hand with
    | none =>
      rw [hold] at hpc
      cases hpc
    | some m =>
      have hnone : checkAnonymousActors n.cfg.maxAnonymousActors n.permits n.overflow = none := by
        simp [checkAnonymousActors, hn.routes.routing.overflow]
      unfold Node.checkStep at same ⊢
      rw [hnone] at same ⊢
      refine same rfl ?_
      rw [hold]
      simp [Node.passCheck, Pc.effort, Phase.effort]
  | acquired hand k rest hold hk => exact absurd hold (hn.routes.routing.permitted hand k rest)
  | process p m hold | preRun p m a hold | handled p m a hold hb | future p m a k hold hb =>
    refine same rfl ?_
    rw [hold]
    simp [Node.call, Node.handled, Pc.effort]
  | answered p m a k r hold hb hr =>
    refine same rfl ?_
    rcases hold with hold | ⟨seen, hold⟩ <;> rw [hold] <;> simp [Node.call, Node.handled, Pc.effort]
  | task p m a k j hx' hold hb =>
    subst hx'
    exact hl.elim
  | await p m stopNow w hold hb =>
    have hq : (if stopNow then n.subscribeAndStop w else n.subscribeAndWait w).mailbox = n.mailbox := by
      cases stopNow
      · rfl
      · simp only [if_true, Node.subscribeAndStop, Node.stop]
        split <;> rfl
    refine same (congrArg Chan.queue hq) ?_
    rw [hold]
    simp [Node.call, Node.handled, Pc.effort]
  | changed p m seen hold hs =>
    obtain ⟨a₀, tr, hserved⟩ := hn.routes.served
    exact absurd (hserved.future hold).1.symm hs
  | cancelClosed p m hold hc | cancelSent p m c hold hc | notify hold | again t hold | stay hold hc =>
    rw [hold] at hpc
    cases hpc
  | postRun p a hold =>
    rw [hold] at hpc
    cases p with
    | main =>
      by_cases hrun : n.state = .running
      · simp only [Node.processed, if_pos hrun] at same ⊢
        refine same rfl ?_
        rw [hold]
        simp [Node.mainLoop, hn.unsupervised, Pc.effort, Phase.effort]
      · simp only [Node.processed, if_neg hrun] at same ⊢
        refine same rfl ?_
        rw [hold]
        simp [Node.shutdownStart, Node.call, Pc.effort, Phase.effort]
    | stopping => cases hpc
    | stopped =>
      refine same rfl ?_
      rw [hold]
      simp [Node.processed, Pc.effort, Phase.effort]
  | onStopping a hold | onStopped a hold | assertClosed hold hc | drained hold hq | onEnd a hold =>
    refine same rfl ?_
    rw [hold]
    simp [Node.call, Pc.effort]
  | stoppingDone hx' hold hc =>
    refine same rfl ?_
    rcases hold with hold | hold
    · rw [hold]
      simp [Node.stoppingDone, Node.call, Pc.effort]
    · rw [hold] at hpc
      cases hpc
  | children hold hc =>
    rw [hn.isClosed] at hc
    cases hc
  | finish hold =>
    have hfinish : n.finish.mailbox = n.mailbox ∧ n.finish.pc = .done := by
      unfold Node.finish
      simp [hn.unsupervised]
    refine same (congrArg Chan.queue hfinish.1) ?_
    rw [hfinish.2, hold]
    simp [Pc.effort]

end

/-! ## The reader task -/

namespace ReaderActor

variable {d : DataFrameReceiver len P M} {n n' : ReaderActor len P M} {l : ReaderLabel} {b : Branch} {p : Peek}

def effort (n : ReaderActor len P M) : ℕ :=
  2 * n.readerRx.queue.length +
    match n.pc with
    | .request => 1
    | .reading _ _ _ => 2
    | .done => 0

/-- The supervisor sends `Shutdown` only, so the outer loop takes a request or ends. -/
theorem told_request (ht : WriterActor.Told n.parentRx) (h : n.takeRequest d b = some n') :
    WriterActor.Told n'.parentRx ∧ n.pc = .request ∧ n'.pc ≠ .request := by
  unfold takeRequest at h
  split at h
  · rename_i hpc
    simp only [Option.map_eq_some_iff] at h
    obtain ⟨⟨r, w⟩, hs, rfl⟩ := h
    obtain ⟨hw, hcont⟩ := WriterActor.told_supervisor ht hs
    have hfinish : WriterActor.Told ({ n with parentRx := w } : ReaderActor len P M).finish.parentRx ∧
        n.pc = .request ∧ ({ n with parentRx := w } : ReaderActor len P M).finish.pc ≠ .request := by
      obtain ⟨calls, heq⟩ := finish_eq { n with parentRx := w }
      rw [heq]
      exact ⟨hw, hpc, by simp⟩
    cases r with
    | continue_ => exact (hcont rfl).elim
    | shutdown | dead => exact hfinish
    | success x =>
      obtain ⟨o, rx⟩ := x
      cases o with
      | none => exact hfinish
      | some e => exact ⟨hw, hpc, by simp⟩
  · cases h

/-- And the inner loop reads something or ends. -/
theorem told_frame (ht : WriterActor.Told n.parentRx) (h : n.readFrame d b p = some n') :
    WriterActor.Told n'.parentRx ∧ n.pc ≠ .request ∧
      (n'.pc = .request ∨ n'.source.incoming.length < n.source.incoming.length) := by
  unfold readFrame at h
  split at h
  · rename_i frame k payload hpc
    have hne : n.pc ≠ .request := by rw [hpc]; simp
    simp only [Option.map_eq_some_iff] at h
    obtain ⟨⟨r, w⟩, hs, rfl⟩ := h
    obtain ⟨hw, hcont⟩ := WriterActor.told_supervisor ht hs
    rcases supervisor_cases hs with ⟨⟨r, frame', source⟩, rfl, hpoll, rfl, rfl⟩ | ⟨-, -, -, -, hr⟩
    · by_cases hr : r = .ok (some ())
      · subst hr
        obtain ⟨hframe, -, hin, -⟩ := poll_some hpoll
        have hlt : source.incoming.length < n.source.incoming.length := by
          have hpos := List.length_pos_of_ne_nil hframe
          rw [hin, List.length_append]
          omega
        simp only
        split <;> exact ⟨hw, hne, .inr hlt⟩
      · rcases r with e | o
        · exact ⟨hw, hne, .inl rfl⟩
        · rcases o with - | u
          · exact ⟨hw, hne, .inl rfl⟩
          · exact absurd rfl hr
    · rcases hr with rfl | rfl | ⟨rfl, -, -⟩
      · exact ⟨hw, hne, .inl rfl⟩
      · exact ⟨hw, hne, .inl rfl⟩
      · exact (hcont rfl).elim
  · cases h

end ReaderActor

/-! ## The task of the connection -/

def ReadCall.effort : ReadCall M → ℕ
  | .response _ => 8
  | .closed => 4
  | .waiting | .gone => 5

/-- What is left, with the calls `cs` of `Reader::read`. -/
def ConnectionPc.effort (cs : List (ReadCall M)) : ConnectionPc → ℕ
  | .reading k => (cs[k]?.map ReadCall.effort).getD 5
  | .asking _ => 7
  | .loop => 6
  | .leaving => 3
  | .awaiting _ => 2
  | .done => 1
  | .panicked => 0

/-- The calls go on. -/
theorem ConnectionPc.effort_le {cs cs' : List (ReadCall M)} {j : ℕ} (pc : ConnectionPc)
    (h : List.Forall₂ (fun c c' => ReadCall.effort c' ≤ c.effort + j) cs cs') : pc.effort cs' ≤ pc.effort cs + j := by
  cases pc with
  | reading k =>
    have hlen := h.length_eq
    show (cs'[k]?.map ReadCall.effort).getD 5 ≤ (cs[k]?.map ReadCall.effort).getD 5 + j
    rcases Nat.lt_or_ge k cs.length with hk | hk
    · have hgo := (List.forall₂_iff_get.1 h).2 k hk (hlen ▸ hk)
      rw [List.getElem?_eq_getElem hk, List.getElem?_eq_getElem (hlen ▸ hk)]
      exact hgo
    · rw [List.getElem?_eq_none hk, List.getElem?_eq_none (hlen ▸ hk)]
      exact Nat.le_add_right _ _
  | _ => exact Nat.le_add_right _ _

theorem ReadCall.effort_dropSender (c : ReadCall M) : ReadCall.effort c.dropSender ≤ c.effort + 0 := by
  cases c <;> simp [ReadCall.dropSender, ReadCall.effort]

theorem ReadCall.effort_send (object : M) (c : ReadCall M) : ReadCall.effort (c.send object) ≤ c.effort + 3 := by
  cases c <;> simp [ReadCall.send, ReadCall.effort]

/-- **Every step of the reader task lowers what is left**, when its supervisor sends `Shutdown`
only. -/
theorem ReaderActor.effort_lt {d : DataFrameReceiver len P M} {n n' : ReaderActor len P M} {l : ReaderLabel} (pc : ConnectionPc)
    (ht : WriterActor.Told n.parentRx) (hl : (∃ b, l = .request b) ∨ ∃ b p, l = .frame b p) (h : n.step d l = some n') :
    400 * n'.source.incoming.length + 120 * pc.effort n'.calls + n'.effort <
      400 * n.source.incoming.length + 120 * pc.effort n.calls + n.effort := by
  have hrefl : ∀ j (c : ReadCall M), ReadCall.effort c ≤ c.effort + j := fun j c => Nat.le_add_right _ _
  rcases hl with ⟨b, rfl⟩ | ⟨b, p, rfl⟩
  · cases takeRequest_rule h with
    | takes frame k rx w hw hpc hrx =>
      have hq := congrArg List.length (Chan.pop_cases hrx).1
      rw [List.length_cons] at hq
      simp only [ReaderActor.effort, hpc]
      omega
    | goesOn l b w hl hb hs =>
      obtain ⟨-, hpc, hne⟩ := told_request ht h
      exact absurd hpc hne
    | ends b w hpc hend =>
      have hcalls := finish_calls { n with parentRx := w }
      obtain ⟨calls, heq⟩ := finish_eq { n with parentRx := w }
      rw [heq] at hcalls ⊢
      have hgoes : List.Forall₂ (fun c c' => ReadCall.effort c' ≤ c.effort + 0) n.calls calls := by
        refine Cells.forall₂_of_get hcalls fun k c => ?_
        split
        · exact ReadCall.effort_dropSender c
        · exact hrefl 0 c
      have hle := pc.effort_le hgoes
      simp only [ReaderActor.effort, hpc, Chan.close_queue]
      omega
  · cases readFrame_rule h with
    | goesOn l b w hl hb hs =>
      obtain ⟨-, hne, hpc | hlt⟩ := told_frame ht h
      · exact absurd hpc hne
      · exact absurd hlt (Nat.lt_irrefl _)
    | completes p frame frame' k payload payload' object source w hw hpc hpoll hrecv =>
      obtain ⟨hframe, -, hin, -⟩ := poll_some hpoll
      have hlen := congrArg List.length hin
      have hpos := List.length_pos_of_ne_nil hframe
      have hle := pc.effort_le (Cells.forall₂_modify (hrefl 3) (ReadCall.effort_send object) k n.calls)
      rw [List.length_append] at hlen
      simp only [ReaderActor.effort, hpc]
      omega
    | reads p frame frame' k payload payload' source w hw hpc hpoll hrecv =>
      obtain ⟨hframe, -, hin, -⟩ := poll_some hpoll
      have hlen := congrArg List.length hin
      have hpos := List.length_pos_of_ne_nil hframe
      rw [List.length_append] at hlen
      simp only [ReaderActor.effort, hpc]
      omega
    | drops b p frame k payload w hpc hend =>
      have hle := pc.effort_le (Cells.forall₂_modify (hrefl 0) ReadCall.effort_dropSender k n.calls)
      simp only [ReaderActor.effort, hpc, dropSender]
      omega

/-! ## The server -/

namespace Server

variable {d : DataFrameReceiver len P M} {r : Responder M} {s s' : Server len P A M} {l : ServerLabel A M}

/-- The future is not polled yet. -/
def unpolled (s : Server len P A M) : ℕ :=
  match s.connection.actor.pc, s.writing with
  | .future _ _ _, none => 5
  | _, _ => 0

/-- **What is left to do**, until the peer sends more. -/
def effort (s : Server len P A M) : ℕ :=
  400 * s.connection.reader.source.incoming.length + 120 * s.connection.pc.effort s.connection.reader.calls +
    s.connection.reader.effort + 10 * s.connection.actor.effort + s.unpolled + s.connection.writer.todo

theorem unpolled_le (s : Server len P A M) : s.unpolled ≤ 5 := by
  unfold unpolled
  split <;> simp

/-- A message that is sent to the actor. -/
theorem effort_send {n n' : Node A M} {q : Request M} (h : n.step (.send q) = some n') :
    n'.effort = n.effort + 10 ∧ n'.pc = n.pc := by
  obtain ⟨hpush, hpc⟩ := Node.send_mailbox h
  have hq := congrArg List.length (Chan.push_cases hpush).2.2.2.2.1
  rw [List.length_append, List.length_singleton] at hq
  refine ⟨?_, hpc⟩
  rw [Node.effort, Node.effort, hpc]
  omega

/-- One that changes nothing but the cells of callers. -/
theorem effort_quiet {n n' : Node A M} {l : Label A M} (hl : l = .refuse ∨ ∃ w, l = .poll w) (h : n.step l = some n') :
    n'.effort = n.effort ∧ n'.pc = n.pc := by
  rcases hl with rfl | ⟨w, rfl⟩
  · simp only [Node.step] at h
    split at h <;> cases h
    exact ⟨rfl, rfl⟩
  · simp only [Node.step, Node.poll] at h
    split at h <;> cases h
    exact ⟨rfl, rfl⟩

/-- The task of the connection ends. -/
theorem effort_finish (c : Connection len P A M) {pc : ConnectionPc} (writing : Option ℕ)
    (h : pc.effort c.reader.calls < c.pc.effort c.reader.calls) : effort ⟨c.finish pc, writing⟩ < effort ⟨c, writing⟩ := by
  show 400 * c.reader.source.incoming.length + 120 * pc.effort c.reader.calls + c.reader.effort + 10 * c.actor.effort +
      unpolled ⟨c, writing⟩ + c.writer.todo < 400 * c.reader.source.incoming.length + 120 * c.pc.effort c.reader.calls +
      c.reader.effort + 10 * c.actor.effort + unpolled ⟨c, writing⟩ + c.writer.todo
  omega

/-- The task of the connection goes on. -/
theorem effort_goes {c : Connection len P A M} (h : Connection.Goes d .nonBlocking s.connection c) :
    effort { s with connection := c } < s.effort := by
  have same : ∀ {n : Node A M}, n.pc = s.connection.actor.pc → c.actor = n →
      unpolled { s with connection := c } = s.unpolled := by
    intro n hpc hn
    unfold unpolled
    rw [hn, hpc]
  have quiets : ∀ {n : Node A M}, n.effort = s.connection.actor.effort → n.pc = s.connection.actor.pc →
      effort ⟨{ s.connection with actor := n }, s.writing⟩ = s.effort := by
    intro n heffort hn
    have hunpolled : unpolled ⟨{ s.connection with actor := n }, s.writing⟩ = s.unpolled := by
      unfold unpolled
      rw [hn]
    simp only [effort, hunpolled, heffort]
  cases h with
  | read n hpc h =>
    obtain ⟨-, rx, hrx, rfl⟩ := ReaderActor.read_eq h
    have hq := congrArg List.length (Chan.push_cases hrx).2.2.2.2.1
    rw [List.length_append, List.length_singleton] at hq
    have hunpolled := same rfl rfl
    simp only [effort, hunpolled, hpc, ConnectionPc.effort, ReaderActor.effort, List.getElem?_concat_length, Option.map_some,
      Option.getD_some, ReadCall.effort]
    omega
  | refused n hpc h =>
    obtain ⟨-, rfl⟩ := ReaderActor.refused_eq h
    have hunpolled := same rfl rfl
    simp only [effort, hunpolled, hpc, ConnectionPc.effort, ReaderActor.effort]
    omega
  | asks k payload n hpc hk h =>
    obtain ⟨heffort, hn⟩ := effort_send h
    have hunpolled := same hn rfl
    simp only [effort, hunpolled, hpc, ConnectionPc.effort, heffort, hk, Option.map_some, Option.getD_some, ReadCall.effort]
    omega
  | panics k payload hpc hk hclosed =>
    refine effort_finish s.connection s.writing ?_
    rw [hpc]
    simp [ConnectionPc.effort, hk, ReadCall.effort]
  | ends k hpc hk =>
    have hunpolled := same rfl rfl
    simp only [effort, hunpolled, hpc, ConnectionPc.effort, hk, Option.map_some, Option.getD_some, ReadCall.effort]
    omega
  | answered k q hpc hk hq =>
    have hunpolled := same rfl rfl
    simp only [effort, hunpolled, hpc, ConnectionPc.effort]
    omega
  | awaits n hpc h =>
    obtain ⟨heffort, hn⟩ := effort_send h
    have hunpolled := same hn rfl
    simp only [effort, hunpolled, hpc, ConnectionPc.effort, heffort]
    omega
  | late n hpc h =>
    obtain ⟨heffort, hn⟩ := effort_quiet (.inl rfl) h
    refine (effort_finish { s.connection with actor := n } s.writing ?_).trans_eq (quiets heffort hn)
    simp [hpc, ConnectionPc.effort]
  | received w a n hpc hw h =>
    obtain ⟨heffort, hn⟩ := effort_quiet (.inr ⟨w, rfl⟩) h
    refine (effort_finish { s.connection with actor := n } s.writing ?_).trans_eq (quiets heffort hn)
    simp [hpc, ConnectionPc.effort]
  | dropped w hpc hw =>
    refine effort_finish s.connection s.writing ?_
    rw [hpc]
    simp [ConnectionPc.effort]

/-- The executor of the actor goes on. -/
theorem effort_acts {x : Act A M} {n : Node A M} (writing : Option ℕ) (hn : Alone s.connection.actor)
    (hl : Sole (.exec x : Label A M)) (h : s.connection.actor.step (.exec x) = some n) :
    effort ⟨{ s.connection with actor := n }, writing⟩ < s.effort := by
  have hlt : n.effort < s.connection.actor.effort := hn.effort_lt hl h
  have hle := unpolled_le (⟨{ s.connection with actor := n }, writing⟩ : Server len P A M)
  dsimp only at hle
  simp only [effort]
  omega

/-- **Every step that the tasks do by themselves lowers what is left.** -/
theorem effort_step (hs : Serving d r s) (ht : WriterActor.Told s.connection.reader.parentRx) (hl : l.inner = true)
    (hstep : s.step d r l = some s') : s'.effort < s.effort := by
  cases step_rule hstep with
  | write p m seen q j sch w owners hpc hb hw h =>
    obtain ⟨-, rfl⟩ : s.connection.writer.writers ≠ 0 ∧ _ = w := by
      simpa [WriterActor.step] using h
    have hbefore : s.unpolled = 5 := by
      unfold unpolled
      rw [hpc, hw]
    have hafter : unpolled (⟨{ s.connection with
        writer := { s.connection.writer with calls := s.connection.writer.calls ++ [⟨r.response q, .sending⟩] }
        owners := owners }, some s.connection.writer.calls.length⟩ : Server len P A M) = 0 := by
      unfold unpolled
      dsimp only
      split
      · rename_i h
        cases h
      · rfl
    simp only [effort, hbefore, hafter, WriterActor.todo, List.countP_append, List.countP_singleton,
      WriterActor.WriteCall.isSending, if_true]
    omega
  | reply k c result n hw hc hr h =>
    have hl : Sole (.exec (.reply s.connection.actor.actor r.output) : Label A M) := trivial
    exact effort_acts none hs.alone hl h
  | shutdown | died => cases hl
  | go c h => exact effort_goes h
  | reader l n hl' h =>
    have hread : (∃ b, l = .request b) ∨ ∃ b p, l = .frame b p := by
      cases l with
      | request b => exact .inl ⟨b, rfl⟩
      | frame b p => exact .inr ⟨b, p, rfl⟩
      | arrive | close => cases hl
      | read | refused | giveUp | hangUp | notify | died => cases hl'
    have hlt := ReaderActor.effort_lt s.connection.pc ht hread h
    have hunpolled : unpolled (⟨{ s.connection with
        reader := n
        writer := { s.connection.writer with shutdownRx := s.connection.writer.shutdownRx || n.shutdownTx } },
        s.writing⟩ : Server len P A M) = s.unpolled := rfl
    simp only [effort, hunpolled, WriterActor.todo]
    omega
  | writer l w hl' hg hd h =>
    have hworks : l.works = true := by
      cases l <;> first | rfl | cases hl
    have hlt := WriterActor.todo_step hs.kept hworks h
    have hunpolled : unpolled (⟨{ s.connection with writer := w }, s.writing⟩ : Server len P A M) = s.unpolled := rfl
    simp only [effort, hunpolled]
    omega
  | actor x n hx h => exact effort_acts _ hs.alone (sole_runs hx).1 h

/-- The notifier tells the reader task nothing but `Shutdown`. -/
theorem told_step (ht : WriterActor.Told s.connection.reader.parentRx) (hstep : s.step d r l = some s') :
    WriterActor.Told s'.connection.reader.parentRx := by
  cases step_rule hstep with
  | write | reply | writer | actor => exact ht
  | shutdown => exact fun _ => rfl
  | died => exact ht
  | go c h =>
    cases h with
    | read n hpc h =>
      obtain ⟨-, rx, hrx, rfl⟩ := ReaderActor.read_eq h
      exact ht
    | refused n hpc h =>
      obtain ⟨-, rfl⟩ := ReaderActor.refused_eq h
      exact ht
    | _ => exact ht
  | reader l n hl h =>
    cases l with
    | request b => exact (ReaderActor.told_request ht h).1
    | frame b p => exact (ReaderActor.told_frame ht h).1
    | arrive bs =>
      simp only [ReaderActor.step] at h
      split at h <;> cases h
      exact ht
    | close =>
      cases h
      exact ht
    | read | refused | giveUp | hangUp | notify | died => cases hl

theorem told_run {parent : Option SupervisorMessage} {cfg : Config} {a : A} {ls : List (ServerLabel A M)}
    (hr : Lts.run (step d r) (init len P parent cfg a) ls = some s) : WriterActor.Told s.connection.reader.parentRx :=
  Lts.run_inv (fun _ _ _ ht h => told_step ht h) (fun h => by cases h) hr

/-- So they do only so many. -/
theorem effort_run {ls : List (ServerLabel A M)} (hs : Serving d r s) (ht : WriterActor.Told s.connection.reader.parentRx)
    (hl : ∀ l ∈ ls, l.inner = true) (hr : Lts.run (step d r) s ls = some s') : ls.length + s'.effort ≤ s.effort :=
  Lts.run_length (I := fun s => Serving d r s ∧ WriterActor.Told s.connection.reader.parentRx)
    (P := fun _ l => ServerLabel.inner l = true)
    (fun _ _ _ hi hl h => ⟨⟨serving_step hi.1 h, told_step hi.2 h⟩, effort_step hi.1 hi.2 hl h⟩) ⟨hs, ht⟩
    (Lts.Along.of_labels (p := fun l => ServerLabel.inner l = true) hl) hr

end Server

variable {d : DataFrameReceiver len P M} {r : Responder M} {s : Server len P A M}

/-- **A server comes to rest**: from any state of any run its tasks can do only so many steps by
themselves, in whatever order; and when they can do no more, the peer is waited for, or all
four tasks have ended. -/
theorem server_settles {parent : Option SupervisorMessage} {cfg : Config} {a : A} {ls : List (ServerLabel A M)}
    (hc : 0 < cfg.mailboxSize) (hr : Lts.run (Server.step d r) (.init len P parent cfg a) ls = some s) :
    ∀ ls' s', (∀ l ∈ ls', l.inner = true) → Lts.run (Server.step d r) s ls' = some s' →
      ls'.length + s'.effort ≤ s.effort ∧ (s'.Can d r ∨ s'.AwaitsPeer ∨ s'.Over) := by
  intro ls' s' hl hr'
  have hrun := Lts.run_append.2 ⟨s, hr, hr'⟩
  exact ⟨Server.effort_run (Server.serving_run hr) (Server.told_run hr) hl hr',
    (Server.serving_run hrun).progress (Server.held_run hc hrun)⟩

/-- What follows the end of the stream: the actor ends, and so do the tasks. -/
def partingRun : List (ServerLabel Unit (List UInt8)) :=
  [.other (.actor (.exec .recv)), .other (.actor (.exec .go)), .other (.actor (.exec .go)),
    .other (.actor (.exec (.ret ()))), .other (.actor (.exec .go)), .other (.actor (.exec (.ret ()))),
    .other (.actor (.exec (.ret ()))), .other (.actor (.exec .go)), .other (.actor (.exec (.ret ()))),
    .other (.actor (.exec .go)), .other (.actor (.exec .none)), .other (.actor (.exec (.ret ()))),
    .other (.actor (.exec .go)), .other .go, .other (.reader (.request .fut)), .other (.writer (.request .shutdown))]

theorem server_settles_partingRun :
    ∃ s s' : Server 4 (List UInt8) Unit (List UInt8),
      Lts.run (Server.step (StatefulTcpWorld.Data 4) StatefulTcpWorld.Connection)
        (.init 4 (List UInt8) none ⟨4, 1, true, []⟩ ()) echoRun = some s ∧
      Lts.run (Server.step (StatefulTcpWorld.Data 4) StatefulTcpWorld.Connection) s partingRun = some s' ∧
      partingRun.length + s'.effort ≤ s.effort ∧
        (s'.Can (StatefulTcpWorld.Data 4) StatefulTcpWorld.Connection ∨ s'.AwaitsPeer ∨ s'.Over) := by
  have hr : ∃ s s' : Server 4 (List UInt8) Unit (List UInt8),
      Lts.run (Server.step (StatefulTcpWorld.Data 4) StatefulTcpWorld.Connection)
        (.init 4 (List UInt8) none ⟨4, 1, true, []⟩ ()) echoRun = some s ∧
      Lts.run (Server.step (StatefulTcpWorld.Data 4) StatefulTcpWorld.Connection) s partingRun = some s' :=
    ⟨_, _, rfl, rfl⟩
  obtain ⟨s, s', hr, hr'⟩ := hr
  exact ⟨s, s', hr, hr', server_settles (by decide) hr partingRun s' (by decide) hr'⟩

/-- What the tasks do by themselves disturbs nobody. -/
theorem ServerLabel.undisturbed_of_inner {l : ServerLabel A M} (h : l.inner = true) : l.undisturbed = true := by
  cases l with
  | write | reply => rfl
  | shutdown | died => cases h
  | other l =>
    cases l with
    | go | write | actor => rfl
    | reader l =>
      cases l with
      | frame b p => cases p <;> first | rfl | cases h
      | _ => rfl
    | writer l =>
      cases l with
      | written b result => cases result <;> first | rfl | cases h
      | _ => rfl

end Tokactor
