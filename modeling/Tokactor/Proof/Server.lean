import Tokactor.Model.Server
import Tokactor.Proof.Alone
import Tokactor.Proof.Connection
import Tokactor.Proof.Decode
import Tokactor.Proof.Reading

/-!
# What a server answers

The four tasks of a connection whose actor answers every request with one write.

* `ReadCall.Goes`: what a step of the reader task does to a call.
* `ConnectionPc.Fed`: the objects that the task of the connection got are the requests that it
  passed on, in their order.
* `ConnectionPc.InTurn`: one message at a time is ahead of the actor.
* `Server.Wrote`: the actor has called `Writer::write` for each of them, in this order.
* `Server.Turn`: one write is under way at a time, so the queue accepts them in order.
* `responses_in_order`: what is in the socket are the responses to the first requests.
-/

namespace Tokactor

variable {len : ℕ} {P A M : Type}

/-! ## Blocks -/

/-- Parts of blocks, one after the other, are a part of them. -/
theorem flatten_sublist {α : Type*} {ws bs : List (List α)} (h : List.Forall₂ (· <+: ·) ws bs) :
    ws.flatten.Sublist bs.flatten := by
  induction h with
  | nil => exact .slnil
  | cons hw hws ih =>
    rw [List.flatten_cons, List.flatten_cons]
    exact hw.sublist.append ih

/-- They are its first part, when no block but the last one was cut. -/
theorem flatten_first {α : Type*} {ws bs : List (List α)} (h : List.Forall₂ (· <+: ·) ws bs)
    (hall : ∀ i, i + 1 < ws.length → ws[i]? = bs[i]?) : ws.flatten <+: bs.flatten := by
  induction h with
  | nil => exact List.nil_prefix
  | @cons w b ws bs hw hws ih =>
    rw [List.flatten_cons, List.flatten_cons]
    cases ws with
    | nil =>
      rw [List.flatten_nil, List.append_nil]
      exact hw.trans (List.prefix_append _ _)
    | cons w' ws =>
      have hb : w = b := by simpa using hall 0 (by simp)
      subst hb
      rw [List.prefix_append_right_inj]
      exact ih fun i hi => by simpa using hall (i + 1) (by simpa using hi)

/-! ## The reader task -/

/-- What a step of the reader task does to a call. -/
def ReadCall.Goes (c c' : ReadCall M) : Prop :=
  c' = c ∨ c = .waiting ∧ (c' = .closed ∨ ∃ object, c' = .response object)

theorem ReadCall.goes_dropSender (c : ReadCall M) : ReadCall.Goes c c.dropSender := by
  cases c with
  | waiting => exact .inr ⟨rfl, .inl rfl⟩
  | _ => exact .inl rfl

theorem ReadCall.goes_send (object : M) (c : ReadCall M) : ReadCall.Goes c (c.send object) := by
  cases c with
  | waiting => exact .inr ⟨rfl, .inr ⟨object, rfl⟩⟩
  | _ => exact .inl rfl

/-- Calls that have got their objects stay as they are. -/
theorem ReadCall.Goes.responses {qs : List M} {cs : List (ReadCall M)}
    (h : List.Forall₂ ReadCall.Goes (qs.map .response) cs) : cs = qs.map .response := by
  induction qs generalizing cs with
  | nil => simpa using h
  | cons q qs ih =>
    obtain ⟨c, cs, hc, hcs, rfl⟩ := List.forall₂_cons_left_iff.1 h
    rcases hc with rfl | ⟨hc, -⟩
    · rw [ih hcs, List.map_cons]
    · cases hc

/-- So the last call is the only one that can change. -/
theorem ReadCall.Goes.last {qs : List M} {x : ReadCall M} {cs : List (ReadCall M)}
    (h : List.Forall₂ ReadCall.Goes (qs.map .response ++ [x]) cs) :
    ∃ x', cs = qs.map .response ++ [x'] ∧ ReadCall.Goes x x' := by
  have hfst := List.forall₂_take (qs.map ReadCall.response).length h
  have hsnd := List.forall₂_drop (qs.map ReadCall.response).length h
  rw [List.take_left] at hfst
  rw [List.drop_left] at hsnd
  obtain ⟨x', cs', hx, hcs', hd⟩ := List.forall₂_cons_left_iff.1 hsnd
  rw [List.forall₂_nil_left_iff] at hcs'
  refine ⟨x', ?_, hx⟩
  rw [← List.take_append_drop (qs.map ReadCall.response).length cs, Goes.responses hfst, hd, hcs']

namespace ReaderActor

variable {d : DataFrameReceiver len P M} {n n' : ReaderActor len P M} {l : ReaderLabel}

/-- **A step of the task moves the calls on.** -/
theorem task_goes (hl : l.task = true) (h : n.step d l = some n') : List.Forall₂ ReadCall.Goes n.calls n'.calls := by
  have same : List.Forall₂ ReadCall.Goes n.calls n.calls := List.forall₂_same.2 fun c _ => .inl rfl
  cases step_rule h with
  | task l n' hs =>
    cases hs with
    | takes | goesOn | reads => exact same
    | completes => exact Cells.forall₂_modify (fun c => .inl rfl) (ReadCall.goes_send _) _ _
    | drops => exact Cells.forall₂_modify (fun c => .inl rfl) ReadCall.goes_dropSender _ _
    | ends b w hpc hend =>
      refine Cells.forall₂_of_get (finish_calls _) fun k c => ?_
      split
      · exact ReadCall.goes_dropSender c
      · exact .inl rfl
  | read | refused | giveUp | hangUp => cases hl
  | outside => exact same

/-- A call of `Reader::read`. -/
theorem read_eq (h : n.step d .read = some n') : n.handles = true ∧
    ∃ rx, n.readerRx.push (Read.default len, n.calls.length) = some rx ∧
      n' = { n with readerRx := rx, calls := n.calls ++ [.waiting] } := by
  simp only [step] at h
  split at h
  · rename_i hh
    obtain ⟨rx, hrx, rfl⟩ := Option.map_eq_some_iff.1 h
    exact ⟨hh, rx, hrx, rfl⟩
  · cases h

theorem refused_eq (h : n.step d .refused = some n') :
    n.readerRx.closed = true ∧ n' = { n with calls := n.calls ++ [.closed] } := by
  simp only [step] at h
  split at h <;> cases h
  rename_i hc
  exact ⟨hc.2, rfl⟩

end ReaderActor

/-! ## The task of the connection -/

namespace Connection

variable {d : DataFrameReceiver len P M} {s : Scheduler} {c c' : Connection len P A M}

/-- A step of the task of the connection. -/
inductive Goes (d : DataFrameReceiver len P M) (s : Scheduler) (c : Connection len P A M) : Connection len P A M → Prop
  | read (r : ReaderActor len P M) (hpc : c.pc = .loop) (h : c.reader.step d .read = some r) :
      Goes d s c { c with reader := r, pc := .reading c.reader.calls.length }
  | refused (r : ReaderActor len P M) (hpc : c.pc = .loop) (h : c.reader.step d .refused = some r) :
      Goes d s c { c with reader := r, pc := .leaving }
  | asks (k : ℕ) (payload : M) (n : Node A M) (hpc : c.pc = .reading k) (hk : c.reader.calls[k]? = some (.response payload))
      (h : c.actor.step (.send (.asyncAsk payload s)) = some n) :
      Goes d s c { c with actor := n, pc := .asking c.actor.asks.length }
  | panics (k : ℕ) (payload : M) (hpc : c.pc = .reading k) (hk : c.reader.calls[k]? = some (.response payload))
      (hc : c.actor.mailbox.closed = true) : Goes d s c (c.finish .panicked)
  | ends (k : ℕ) (hpc : c.pc = .reading k) (hk : c.reader.calls[k]? = some .closed) : Goes d s c { c with pc := .leaving }
  | answered (k : ℕ) (r : Reply M) (hpc : c.pc = .asking k) (hk : c.actor.asks[k]? = some r) (hr : r.decided = true) :
      Goes d s c { c with pc := .loop }
  | awaits (n : Node A M) (hpc : c.pc = .leaving) (h : c.actor.step (.send (.await true)) = some n) :
      Goes d s c { c with actor := n, pc := .awaiting c.actor.awaits.length }
  | late (n : Node A M) (hpc : c.pc = .leaving) (h : c.actor.step .refuse = some n) :
      Goes d s c ({ c with actor := n }.finish .done)
  | received (w : ℕ) (a : A) (n : Node A M) (hpc : c.pc = .awaiting w) (hw : c.actor.awaits[w]? = some (.sent a))
      (h : c.actor.step (.poll w) = some n) : Goes d s c ({ c with actor := n }.finish .done)
  | dropped (w : ℕ) (hpc : c.pc = .awaiting w) (hw : c.actor.awaits[w]? = some .dropped) : Goes d s c (c.finish .done)

/-- **Every step of the task is one of these.** -/
theorem go_rule (h : c.go d s = some c') : Goes d s c c' := by
  unfold go at h
  split at h
  · rename_i hpc
    split at h
    · rename_i r hr
      cases h
      exact .read r hpc hr
    · obtain ⟨r, hr, rfl⟩ := Option.map_eq_some_iff.1 h
      exact .refused r hpc hr
  · rename_i k hpc
    split at h
    · rename_i payload hk
      split at h
      · rename_i n hn
        cases h
        exact .asks k payload n hpc hk hn
      · split at h <;> cases h
        exact .panics k payload hpc hk ‹_›
    · rename_i hk
      cases h
      exact .ends k hpc hk
    · cases h
  · rename_i k hpc
    split at h
    · rename_i v hk
      cases h
      exact .answered k _ hpc hk rfl
    · rename_i hk
      cases h
      exact .answered k _ hpc hk rfl
    · cases h
  · rename_i hpc
    split at h
    · rename_i n hn
      cases h
      exact .awaits n hpc hn
    · obtain ⟨n, hn, rfl⟩ := Option.map_eq_some_iff.1 h
      exact .late n hpc hn
  · rename_i w hpc
    split at h
    · rename_i a hw
      obtain ⟨n, hn, rfl⟩ := Option.map_eq_some_iff.1 h
      exact .received w a n hpc hw hn
    · rename_i hw
      cases h
      exact .dropped w hpc hw
    · cases h
  · cases h
  · cases h

end Connection

/-- The calls `cs` of `Reader::read` and the payloads `qs` that were passed on, by where the task
stands. -/
def ConnectionPc.Fed (qs : List M) (cs : List (ReadCall M)) : ConnectionPc → Prop
  | .loop | .asking _ => cs = qs.map .response
  | .reading k => k = qs.length ∧ ∃ c, c ≠ .gone ∧ cs = qs.map .response ++ [c]
  | .leaving | .awaiting _ | .done => cs = qs.map .response ++ [.closed]
  | .panicked => ∃ q, cs = qs.map .response ++ [.response q]

/-- The reader task goes on. -/
theorem ConnectionPc.Fed.goes {qs : List M} {cs cs' : List (ReadCall M)} {pc : ConnectionPc} (h : pc.Fed qs cs)
    (hg : List.Forall₂ ReadCall.Goes cs cs') : pc.Fed qs cs' := by
  cases pc with
  | loop | asking k =>
    subst h
    exact ReadCall.Goes.responses hg
  | reading k =>
    obtain ⟨hk, c, hc, rfl⟩ := h
    obtain ⟨c', rfl, hgo⟩ := ReadCall.Goes.last hg
    refine ⟨hk, c', ?_, rfl⟩
    rcases hgo with rfl | ⟨-, rfl | ⟨object, rfl⟩⟩
    · exact hc
    · simp
    · simp
  | leaving | awaiting w | done =>
    subst h
    obtain ⟨c', rfl, hgo⟩ := ReadCall.Goes.last hg
    obtain rfl := hgo.resolve_right fun h => by cases h.1
    rfl
  | panicked =>
    obtain ⟨q, rfl⟩ := h
    obtain ⟨c', rfl, hgo⟩ := ReadCall.Goes.last hg
    obtain rfl := hgo.resolve_right fun h => by cases h.1
    exact ⟨q, rfl⟩

/-- The call that the task awaits is the last one. -/
theorem ConnectionPc.Fed.reading {qs : List M} {cs : List (ReadCall M)} {k : ℕ} {c : ReadCall M}
    (h : (ConnectionPc.reading k).Fed qs cs) (hk : cs[k]? = some c) : cs = qs.map .response ++ [c] := by
  obtain ⟨rfl, x, -, rfl⟩ := h
  rw [List.getElem?_append_right (by rw [List.length_map])] at hk
  simp only [List.length_map, Nat.sub_self, List.getElem?_cons_zero, Option.some.injEq] at hk
  rw [hk]

/-- What was passed on was got. -/
theorem ConnectionPc.Fed.objects {qs : List M} {cs : List (ReadCall M)} {pc : ConnectionPc} (h : pc.Fed qs cs) :
    qs <+: cs.filterMap ReadCall.object := by
  have hqs : (qs.map ReadCall.response).filterMap ReadCall.object = qs := by
    rw [List.filterMap_map]
    exact List.filterMap_some
  have more : ∀ c, cs = qs.map .response ++ [c] → qs <+: cs.filterMap ReadCall.object := by
    rintro c rfl
    rw [List.filterMap_append, hqs]
    exact List.prefix_append _ _
  cases pc with
  | loop | asking k => rw [show cs = _ from h, hqs]
  | reading k =>
    obtain ⟨-, c, -, hc⟩ := h
    exact more c hc
  | leaving | awaiting w | done => exact more _ h
  | panicked =>
    obtain ⟨q, hq⟩ := h
    exact more _ hq

/-- What the mailbox gets for a request. -/
def Request.body (n : Node A M) : Request M → Body A M
  | .user m => .user m
  | .ask m => .ask m n.asks.length
  | .asyncAsk m s => .asyncAsk m n.asks.length s
  | .await stopNow => .await stopNow n.awaits.length

/-- A request enters the mailbox. -/
theorem Node.send_mailbox {n n' : Node A M} {r : Request M} (h : n.step (.send r) = some n') :
    n.mailbox.push ⟨none, r.body n⟩ = some n'.mailbox ∧ n'.pc = n.pc := by
  cases r <;> simp only [step, send, Option.map_eq_some_iff] at h <;> obtain ⟨c, hc, rfl⟩ := h <;> exact ⟨hc, rfl⟩

/-- **A request that is sent is ahead.** -/
theorem Node.send_ahead {n n' : Node A M} {r : Request M} (h : n.step (.send r) = some n') :
    n'.ahead = n.ahead ++ [⟨none, r.body n⟩] ∧ n'.mailbox.accepted = n.mailbox.accepted ++ [⟨none, r.body n⟩] := by
  obtain ⟨hpush, hpc⟩ := send_mailbox h
  have hgrown := Chan.Grown.of_push hpush
  rw [ahead, ahead, hpc, hgrown.queue, hgrown.accepted, List.append_assoc]
  exact ⟨rfl, rfl⟩

/-- What is ahead of the actor and what it has accepted, by where the task stands. -/
def ConnectionPc.InTurn (ahead accepted : List (Mail A M)) : ConnectionPc → Prop
  | .loop | .reading _ | .leaving => ahead = [] ∧ ∀ m ∈ accepted, m.body.isAwait = false
  | .asking k =>
    ahead.length ≤ 1 ∧ (∀ m ∈ ahead, m.body.asker = some k) ∧ ∀ m ∈ accepted, m.body.isAwait = false
  | .awaiting _ | .done => ahead.length ≤ 1 ∧ ∀ m ∈ ahead, m.body.isAwait = true
  | .panicked => False

/-- The actor goes on. -/
theorem ConnectionPc.InTurn.suffix {ahead ahead' accepted : List (Mail A M)} {pc : ConnectionPc}
    (h : pc.InTurn ahead accepted) (hs : ahead' <:+ ahead) : pc.InTurn ahead' accepted := by
  cases pc with
  | loop | reading k | leaving =>
    obtain ⟨rfl, hac⟩ := h
    exact ⟨List.suffix_nil.1 hs, hac⟩
  | asking k =>
    obtain ⟨hone, hask, hac⟩ := h
    exact ⟨hs.length_le.trans hone, fun m hm => hask m (hs.subset hm), hac⟩
  | awaiting w | done =>
    obtain ⟨hone, hw⟩ := h
    exact ⟨hs.length_le.trans hone, fun m hm => hw m (hs.subset hm)⟩
  | panicked => exact h

namespace Connection

variable {d : DataFrameReceiver len P M} {c c' : Connection len P A M}

/-- The task has passed on what it got. -/
def Fed (c : Connection len P A M) : Prop := c.pc.Fed (payloads c.actor.mailbox.accepted) c.reader.calls

/-- Nothing is sent to the actor in this step. -/
theorem quiet_accepted {n : Node A M} {l : Label A M} (hl : l = .refuse ∨ ∃ w, l = .poll w)
    (h : c.actor.step l = some n) : n.mailbox = c.actor.mailbox := by
  rcases hl with rfl | ⟨w, rfl⟩
  · simp only [Node.step] at h
    split at h <;> cases h
    rfl
  · simp only [Node.step, Node.poll] at h
    split at h <;> cases h
    rfl

/-- **The task passes on what it got**, each object as soon as it is there. -/
theorem Goes.fed (h : Goes d .nonBlocking c c') (hf : c.Fed) : c'.Fed := by
  unfold Fed at *
  cases h with
  | read r hpc h =>
    rw [hpc] at hf
    have hf : c.reader.calls = _ := hf
    obtain ⟨-, rx, -, rfl⟩ := ReaderActor.read_eq h
    exact ⟨by rw [hf, List.length_map], .waiting, by simp, by rw [hf]⟩
  | refused r hpc h =>
    rw [hpc] at hf
    have hf : c.reader.calls = _ := hf
    obtain ⟨-, rfl⟩ := ReaderActor.refused_eq h
    show c.reader.calls ++ [.closed] = _
    rw [hf]
  | asks k payload n hpc hk h =>
    rw [hpc] at hf
    show c.reader.calls = _
    rw [hf.reading hk, (Node.send_ahead h).2, payloads_append, List.map_append]
    rfl
  | panics k payload hpc hk hc =>
    rw [hpc] at hf
    exact ⟨payload, hf.reading hk⟩
  | ends k hpc hk =>
    rw [hpc] at hf
    exact hf.reading hk
  | answered k r hpc hk hr =>
    rw [hpc] at hf
    exact hf
  | awaits n hpc h =>
    rw [hpc] at hf
    show c.reader.calls = _
    rw [(Node.send_ahead h).2, payloads_append]
    exact hf.trans (by simp [payloads, Request.body, Body.payload])
  | late n hpc h =>
    rw [hpc] at hf
    show c.reader.calls = (payloads n.mailbox.accepted).map .response ++ [.closed]
    rw [quiet_accepted (.inl rfl) h]
    exact hf
  | received w a n hpc hw h =>
    rw [hpc] at hf
    show c.reader.calls = (payloads n.mailbox.accepted).map .response ++ [.closed]
    rw [quiet_accepted (.inr ⟨w, rfl⟩) h]
    exact hf
  | dropped w hpc hw =>
    rw [hpc] at hf
    exact hf

/-- The task sends the actor one message at a time, and no request behind an await request, so
none meets a closed mailbox. -/
def InTurn (c : Connection len P A M) : Prop := c.pc.InTurn c.actor.ahead c.actor.mailbox.accepted

theorem quiet_ahead {n : Node A M} {l : Label A M} (hl : l = .refuse ∨ ∃ w, l = .poll w)
    (h : c.actor.step l = some n) : n.ahead = c.actor.ahead := by
  have hm := quiet_accepted hl h
  have hpc : n.pc = c.actor.pc := by
    rcases Node.step_outside h with ⟨x, rfl, -⟩ | ⟨ms, ho⟩
    · rcases hl with hl | ⟨w, hl⟩ <;> cases hl
    · exact ho.pc
  rw [Node.ahead, Node.ahead, hm, hpc]

/-- The executor of the actor goes on. -/
theorem InTurn.exec {n : Node A M} {x : Act A M} (ht : c.InTurn) (hn : Alone c.actor) (hl : Sole (.exec x : Label A M))
    (h : c.actor.step (.exec x) = some n) : InTurn { c with actor := n } := by
  have hs := ConnectionPc.InTurn.suffix ht (hn.ahead_suffix hl h)
  unfold InTurn
  rwa [hn.exec_accepted (Node.exec_rule h)]

/-- The task of the connection does. -/
theorem Goes.inTurn (h : Goes d .nonBlocking c c') (ht : c.InTurn) (hn : Alone c.actor) : c'.InTurn := by
  unfold InTurn at *
  cases h with
  | read r hpc h | refused r hpc h | ends k hpc hk =>
    rw [hpc] at ht
    exact ht
  | asks k payload n hpc hk h =>
    rw [hpc] at ht
    obtain ⟨hnil, hac⟩ := ht
    obtain ⟨hahead, haccepted⟩ := Node.send_ahead h
    rw [hnil, List.nil_append] at hahead
    show ConnectionPc.InTurn n.ahead n.mailbox.accepted (.asking _)
    rw [hahead, haccepted]
    refine ⟨Nat.le_refl 1, fun m hm => ?_, fun m hm => ?_⟩
    · rw [List.mem_singleton.1 hm]
      rfl
    · rcases List.mem_append.1 hm with hm | hm
      · exact hac m hm
      · rw [List.mem_singleton.1 hm]
        rfl
  | panics k payload hpc hk hc =>
    -- the mailbox is open, since no await request was sent
    rw [hpc] at ht
    rw [hn.opened ht.2] at hc
    cases hc
  | answered k r hpc hk hr =>
    rw [hpc] at ht
    obtain ⟨-, hask, hac⟩ := ht
    refine ⟨List.eq_nil_iff_forall_not_mem.2 fun m hm => ?_, hac⟩
    -- an ask that is ahead waits
    obtain ⟨a₀, tr, hs⟩ := hn.routes.served
    rw [hs.waiting k (mem_askIds.2 ⟨m, hm, hask m hm⟩)] at hk
    cases hk
    cases hr
  | awaits n hpc h =>
    rw [hpc] at ht
    have hahead := (Node.send_ahead h).1
    rw [ht.1, List.nil_append] at hahead
    show ConnectionPc.InTurn n.ahead n.mailbox.accepted (.awaiting _)
    rw [hahead]
    refine ⟨Nat.le_refl 1, fun m hm => ?_⟩
    rw [List.mem_singleton.1 hm]
    rfl
  | late n hpc h =>
    rw [hpc] at ht
    show ConnectionPc.InTurn n.ahead n.mailbox.accepted .done
    rw [quiet_ahead (.inl rfl) h, ht.1]
    exact ⟨Nat.zero_le 1, fun m hm => by cases hm⟩
  | received w a n hpc hw h =>
    rw [hpc] at ht
    show ConnectionPc.InTurn n.ahead n.mailbox.accepted .done
    rw [quiet_ahead (.inr ⟨w, rfl⟩) h]
    exact ht
  | dropped w hpc hw =>
    rw [hpc] at ht
    exact ht

end Connection

/-! ## The writer task -/

namespace WriterActor

variable {n n' : WriterActor} {l : WriterLabel}

/-- The data of the calls. -/
def data (n : WriterActor) : List (List UInt8) := n.calls.map WriteCall.data

/-- What a step of the task, or of a call that is not given up, does to a call. -/
def Goes (c c' : WriteCall) : Prop := c'.data = c.data ∧ (c'.state = .gone → c.state = .gone)

theorem goes_send (result : Except ℕ Unit) (c : WriteCall) : Goes c (c.send result) := by
  refine ⟨send_data result c, fun h => ?_⟩
  by_cases hw : c.state = .waiting
  · rw [send_of_waiting result hw] at h
    cases h
  · rwa [send_of_ne result hw] at h

theorem goes_dropSender (c : WriteCall) : Goes c c.dropSender := by
  refine ⟨dropSender_data c, fun h => ?_⟩
  by_cases hw : c.state = .waiting
  · rw [WriteCall.dropSender, hw] at h
    cases h
  · rwa [dropSender_of_ne hw] at h

/-- **A step that starts no call moves those on that there are.** -/
theorem task_goes (hn : Kept n) (hl : l.task = true) (hg : ∀ k, l ≠ .giveUp k) (h : n.step l = some n') :
    List.Forall₂ Goes n.calls n'.calls := by
  have hrefl : ∀ c, Goes c c := fun c => ⟨rfl, id⟩
  have same : List.Forall₂ Goes n.calls n.calls := List.forall₂_same.2 fun c _ => hrefl c
  have ends : Ended n n' → List.Forall₂ Goes n.calls n'.calls := by
    intro he
    refine Cells.forall₂_of_get he.calls fun k c => ?_
    split
    · exact goes_dropSender c
    · exact hrefl c
  cases step_rule hn.told h with
  | task l n' hs =>
    cases hs with
    | takes => exact same
    | writes => exact Cells.forall₂_modify hrefl (goes_send _) _ _
    | ends b w hpc hw hend => exact ends (ended_request hpc hw)
    | breaks b result w data k written hpc hw hb hend => exact ends (ended_writing hpc hw)
  | clone | dropWriter | put => exact same
  | send k data rx hc hrx =>
    exact Cells.forall₂_set hrefl hc (show Goes ⟨data, .sending⟩ ⟨data, .waiting⟩ from ⟨rfl, fun h => by cases h⟩)
  | refuse k data hc hclosed =>
    have hgo : Goes ⟨data, .sending⟩ ⟨data, .returned (.error .brokenPipe)⟩ := ⟨rfl, fun h => by cases h⟩
    exact Cells.forall₂_set hrefl hc hgo
  | giveUp k => exact absurd rfl (hg k)
  | write => cases hl
  | signal l w b hl' hw => rcases hl' with rfl | rfl | rfl <;> cases hl

theorem Goes.data {cs cs' : List WriteCall} (h : List.Forall₂ Goes cs cs') :
    cs'.map WriteCall.data = cs.map WriteCall.data := by
  induction h with
  | nil => rfl
  | cons hc hcs ih => rw [List.map_cons, List.map_cons, hc.1, ih]

/-- What a step does to the queue: it accepts one call, or what it has accepted stays. -/
theorem accepted_step (hn : Kept n) (h : n.step l = some n') :
    (n'.accepted = n.accepted ∧ (n.writerRx.closed = true → n'.writerRx.closed = true)) ∨
      ∃ k data, l = .send k ∧ n.calls[k]? = some ⟨data, .sending⟩ ∧ n.writerRx.closed = false ∧
        n'.accepted = n.accepted ++ [k] := by
  have ends : Ended n n' → n'.accepted = n.accepted ∧ (n.writerRx.closed = true → n'.writerRx.closed = true) := by
    intro he
    rw [accepted, accepted, he.rx]
    exact ⟨rfl, fun _ => rfl⟩
  cases step_rule hn.told h with
  | task l n' hs =>
    cases hs with
    | takes data k rx hpc hrx =>
      obtain ⟨-, -, hclosed, hac, -⟩ := Chan.pop_cases hrx
      exact .inl ⟨congrArg (List.map Prod.snd) hac, fun h => hclosed.trans h⟩
    | writes => exact .inl ⟨rfl, id⟩
    | ends b w hpc hw hend => exact .inl (ends (ended_request hpc hw))
    | breaks b result w data k written hpc hw hb hend => exact .inl (ends (ended_writing hpc hw))
  | clone | dropWriter | put | write | refuse | giveUp | signal => exact .inl ⟨rfl, id⟩
  | send k data rx hc hrx =>
    obtain ⟨hopen, -, -, -, -, hac, -⟩ := Chan.push_cases hrx
    refine .inr ⟨k, data, rfl, hc, hopen, ?_⟩
    rw [accepted, hac, List.map_append]
    rfl

/-- At most one request that was taken has no result. -/
def Paced (n : WriterActor) : Prop :=
  n.writerRx.taken.length ≤ n.results.length + 1 ∧ (n.pc = .request → n.writerRx.taken.length ≤ n.results.length)

theorem paced_step (hn : Kept n) (hp : n.Paced) (h : n.step l = some n') : n'.Paced := by
  have ends : Ended n n' → n'.Paced := by
    intro he
    unfold Paced
    rw [he.rx, he.results, Chan.close_taken, he.pc]
    exact ⟨hp.1, fun h => by cases h⟩
  cases step_rule hn.told h with
  | task l n' hs =>
    cases hs with
    | takes data k rx hpc hrx =>
      have hlen := congrArg List.length (Chan.pop_cases hrx).2.2.2.2
      rw [List.length_append, List.length_singleton] at hlen
      have hle := hp.2 hpc
      refine ⟨?_, fun h => by cases h⟩
      dsimp only
      omega
    | writes data k written result hpc =>
      have hle := hp.1
      have hlen : (n.results ++ [(k, result)]).length = n.results.length + 1 := by simp
      refine ⟨?_, fun _ => ?_⟩ <;> dsimp only <;> omega
    | ends b w hpc hw hend => exact ends (ended_request hpc hw)
    | breaks b result w data k written hpc hw hb hend => exact ends (ended_writing hpc hw)
  | send k data rx hc hrx =>
    obtain ⟨-, -, -, -, -, -, htaken⟩ := Chan.push_cases hrx
    unfold Paced
    rw [htaken]
    exact hp
  | put k data j written hpc => exact ⟨hp.1, fun h => by cases h⟩
  | clone | dropWriter | write | refuse | giveUp | signal => exact hp

/-- At most one request that was taken has no result, and it is the last one. -/
theorem paced_run {m : Option SupervisorMessage} {ls : List WriterLabel} (hr : Lts.run step (init m) ls = some n) :
    n.writerRx.taken.length ≤ n.results.length + 1 :=
  (Lts.run_inv (I := fun n => Kept n ∧ n.Paced) (fun _ _ _ hi h => ⟨kept_step hi.1 h, paced_step hi.1 hi.2 h⟩)
    ⟨kept_run (Lts.run_nil (init m)), Nat.zero_le _, fun _ => Nat.zero_le _⟩ hr).2.1

/-- At most the call `writing` is under way, which is the last one; the queue has accepted the
calls in the order they were made in, and those it has not will never be, but for that one. -/
structure Turn (n : WriterActor) (writing : Option ℕ) : Prop where
  idle : ∀ (k : ℕ) (c : WriteCall), n.calls[k]? = some c → c.underWay = true → writing = some k
  last : ∀ k, writing = some k → k + 1 = n.calls.length
  order : n.accepted = List.range n.accepted.length
  rest : ∀ k, n.accepted.length ≤ k → k < n.calls.length → n.writerRx.closed = true ∨ writing = some k

variable {writing : Option ℕ}

theorem turn_init (m : Option SupervisorMessage) : (init m).Turn none :=
  ⟨fun k c hc => (by simp [init] at hc), fun k hk => (by cases hk), rfl, fun k _ hlt => absurd hlt (Nat.not_lt_zero k)⟩

/-- A signal to the task. -/
theorem Turn.signal (ht : n.Turn writing) (w : Watch) (b : Bool) :
    ({ n with parentRx := w, shutdownRx := b } : WriterActor).Turn writing :=
  ⟨ht.idle, ht.last, ht.order, ht.rest⟩

theorem turn_task (hn : Kept n) (ht : n.Turn writing) (hl : l.task = true) (h : n.step l = some n') :
    n'.Turn writing := by
  obtain ⟨hlen, -, -⟩ := task_rest hn hl h
  have hidle : ∀ (k : ℕ) (c : WriteCall), n'.calls[k]? = some c → c.underWay = true → writing = some k := by
    intro k c' hc' hu
    have hlt : k < n.calls.length := hlen ▸ (List.getElem?_eq_some_iff.1 hc').1
    have hc := List.getElem?_eq_getElem hlt
    by_cases hw : n.calls[k].underWay = true
    · exact ht.idle k _ hc hw
    · rw [settled_step hn h hc (by simpa using hw)] at hc'
      cases hc'
      exact absurd hu hw
  rcases accepted_step hn h with ⟨hac, hcl⟩ | ⟨k, data, rfl, hk, hopen, hac⟩
  · refine ⟨hidle, fun k hk => by rw [hlen]; exact ht.last k hk, by rw [hac]; exact ht.order, fun k hk hlt => ?_⟩
    rw [hac] at hk
    rw [hlen] at hlt
    exact (ht.rest k hk hlt).imp_left hcl
  · -- the call that is accepted is the one under way, and every other one was accepted before
    have hwriting := ht.idle k _ hk rfl
    have hlast := ht.last k hwriting
    have hnew : k ∉ n.accepted := hn.calls k _ hk
    have hle : n.accepted.length ≤ k := by
      by_contra hlt
      rw [ht.order, List.mem_range] at hnew
      exact hnew (by omega)
    have heq : k = n.accepted.length := by
      rcases ht.rest n.accepted.length (Nat.le_refl _) (by omega) with hc | hw
      · rw [hopen] at hc
        cases hc
      · exact Option.some.inj (hwriting.symm.trans hw)
    refine ⟨hidle, fun j hj => by rw [hlen]; exact ht.last j hj, ?_, fun j hj hlt => ?_⟩
    · rw [hac, List.length_append, List.length_singleton, List.range_succ, ← ht.order, heq]
    · rw [hac, List.length_append, List.length_singleton] at hj
      rw [hlen] at hlt
      omega

/-- The next call is made. -/
theorem Turn.write (ht : n.Turn none) (data : List UInt8) :
    ({ n with calls := n.calls ++ [⟨data, .sending⟩] } : WriterActor).Turn (some n.calls.length) := by
  refine ⟨fun k c hc hu => ?_, fun k hk => ?_, ht.order, fun k hk hlt => ?_⟩
  · rcases Cells.get_concat hc with hc | ⟨rfl, -⟩
    · cases ht.idle k c hc hu
    · rfl
  · cases hk
    show _ = (n.calls ++ [(⟨data, .sending⟩ : WriteCall)]).length
    rw [List.length_append, List.length_singleton]
  · have hlt : k < (n.calls ++ [(⟨data, .sending⟩ : WriteCall)]).length := hlt
    rw [List.length_append, List.length_singleton] at hlt
    rcases Nat.lt_succ_iff_lt_or_eq.1 hlt with hlt | rfl
    · exact .inl ((ht.rest k hk hlt).resolve_right fun h => by cases h)
    · exact .inr rfl

/-- The call has come back. -/
theorem Turn.returned (hn : Kept n) {k : ℕ} {c : WriteCall} {result : Except WriteError Unit} (ht : n.Turn (some k))
    (hc : n.calls[k]? = some c) (hr : c.state = .returned result) : n.Turn none := by
  refine ⟨fun j c' hc' hu => ?_, fun j hj => (by cases hj), ht.order, fun j hj hlt => ?_⟩
  · have hjk := Option.some.inj (ht.idle j c' hc' hu)
    rw [← hjk, hc] at hc'
    cases hc'
    rw [WriteCall.underWay, hr] at hu
    cases hu
  · refine (ht.rest j hj hlt).elim .inl fun hjk => .inl ?_
    cases hjk
    -- its data was refused, since it was not accepted
    have hnot : k ∉ n.accepted := by
      rw [ht.order, List.mem_range]
      omega
    have hacc := hn.calls k c hc
    rw [hr] at hacc
    have hres : ∀ result, (k, result) ∈ n.results → k ∈ n.accepted := by
      intro result hmem
      obtain ⟨-, c', -, htaken⟩ := hn.result_taken hmem
      rw [accepted_eq]
      exact List.mem_append_left _ (List.mem_map_of_mem (f := Prod.snd) htaken)
    cases result with
    | ok u => exact absurd (hres _ hacc) hnot
    | error e =>
      cases e with
      | socket e => exact absurd (hres _ hacc) hnot
      | brokenPipe => exact hacc.2
      | other => exact absurd hacc.1 hnot

/-- The first calls that were accepted are the first ones. -/
theorem Turn.numbers (ht : n.Turn writing) {ks : List ℕ} (h : ks <+: n.accepted) : ks = List.range ks.length := by
  rw [ht.order] at h
  have hle := h.length_le
  rw [List.length_range] at hle
  rw [List.prefix_iff_eq_take.1 h, List.take_range, Nat.min_eq_left hle, List.length_range]

/-- Request number `i` is the call `i`. -/
theorem Turn.number (ht : n.Turn writing) {i : ℕ} (hi : i < n.writerRx.taken.length) : n.writerRx.taken[i].2 = i := by
  have hfirst : n.writerRx.taken.map Prod.snd <+: n.accepted := by
    rw [accepted_eq]
    exact List.prefix_append _ _
  have hnum := ht.numbers hfirst
  have hget := congrArg (·[i]?) hnum
  simp only [List.length_map, List.getElem?_range hi, List.getElem?_map, List.getElem?_eq_getElem hi, Option.map_some,
    Option.some.injEq] at hget
  exact hget

/-- The first calls have their results. -/
theorem Turn.result (hn : Kept n) (ht : n.Turn writing) {i : ℕ} (hi : i < n.results.length) :
    ∃ result, (i, result) ∈ n.results := by
  obtain ⟨rest, hrest, -⟩ := hn.answered
  have hfirst : n.answered <+: n.accepted := by
    rw [accepted_eq, hrest, List.append_assoc]
    exact List.prefix_append _ _
  have hmem : i ∈ n.answered := by
    rw [ht.numbers hfirst, WriterActor.answered, List.length_map]
    exact List.mem_range.2 hi
  obtain ⟨⟨k, result⟩, hr, rfl⟩ := List.mem_map.1 hmem
  exact ⟨result, hr⟩

/-- The requests that were taken carry the data of the first calls. -/
theorem Turn.taken (hn : Kept n) (ht : n.Turn writing) :
    n.writerRx.taken.map Prod.fst = n.data.take n.writerRx.taken.length := by
  refine List.ext_getElem? fun i => ?_
  rw [List.getElem?_map, List.getElem?_take]
  split
  · rename_i hi
    have hmem : n.writerRx.taken[i] ∈ n.writerRx.accepted := by
      rw [n.writerRx.history]
      exact List.mem_append_left _ (List.getElem_mem hi)
    obtain ⟨c, hc, hdata⟩ := hn.own _ hmem
    rw [ht.number hi] at hc
    rw [List.getElem?_eq_getElem hi, data, List.getElem?_map, hc, Option.map_some, Option.map_some, hdata]
  · rename_i hi
    rw [List.getElem?_eq_none (by omega)]
    rfl

end WriterActor

/-! ## The server -/

namespace Server

variable {d : DataFrameReceiver len P M} {r : Responder M} {s s' : Server len P A M} {l : ServerLabel A M}

/-- A step of a server. -/
inductive Goes (d : DataFrameReceiver len P M) (r : Responder M) (s : Server len P A M) :
    ServerLabel A M → Server len P A M → Prop
  | write (p : Phase) (m : Mail A M) (seen : Bool) (q : M) (j : ℕ) (sch : Scheduler) (w : WriterActor)
      (owners : List (Option ℕ)) (hpc : s.connection.actor.pc = .future p m seen) (hb : m.body = .asyncAsk q j sch)
      (hw : s.writing = none) (h : s.connection.writer.step (.write (r.response q)) = some w) :
      Goes d r s .write
        ⟨{ s.connection with writer := w, owners := owners }, some s.connection.writer.calls.length⟩
  | reply (k : ℕ) (c : WriteCall) (result : Except WriteError Unit) (n : Node A M) (hw : s.writing = some k)
      (hc : s.connection.writer.calls[k]? = some c) (hr : c.state = .returned result)
      (h : s.connection.actor.step (.exec (.reply s.connection.actor.actor r.output)) = some n) :
      Goes d r s .reply ⟨{ s.connection with actor := n }, none⟩
  | shutdown : Goes d r s .shutdown { s with connection := s.connection.shutdown }
  | died : Goes d r s .died { s with connection := s.connection.died }
  | go (c : Connection len P A M) (h : Connection.Goes d .nonBlocking s.connection c) :
      Goes d r s (.other .go) { s with connection := c }
  | reader (l : ReaderLabel) (n : ReaderActor len P M) (hl : l.task = true) (h : s.connection.reader.step d l = some n) :
      Goes d r s (.other (.reader l)) { s with connection := { s.connection with
        reader := n
        writer := { s.connection.writer with shutdownRx := s.connection.writer.shutdownRx || n.shutdownTx } } }
  | writer (l : WriterLabel) (w : WriterActor) (hl : l.task = true) (hg : ∀ k, l ≠ .giveUp k)
      (hd : l = .dropWriter → s.connection.droppable l = true ∧ (2 ≤ s.connection.writer.writers ∨ s.connection.pc.over = true))
      (h : s.connection.writer.step l = some w) :
      Goes d r s (.other (.writer l)) { s with connection := { s.connection with writer := w } }
  | actor (x : Act A M) (n : Node A M) (hx : runs (.exec x : Label A M) = true)
      (h : s.connection.actor.step (.exec x) = some n) :
      Goes d r s (.other (.actor (.exec x))) { s with connection := { s.connection with actor := n } }

theorem write_rule (h : s.write d r = some s') : Goes d r s .write s' := by
  unfold write at h
  split at h
  · rename_i p src q j sch seen hpc hw
    obtain ⟨c, hc, rfl⟩ := Option.map_eq_some_iff.1 h
    simp only [Connection.step] at hc
    split at hc
    · cases hc
    · obtain ⟨w, hw', rfl⟩ := Option.map_eq_some_iff.1 hc
      exact .write p _ seen q j sch w _ hpc rfl hw hw'
  · cases h

theorem reply_rule (h : s.reply d r = some s') : Goes d r s .reply s' := by
  unfold reply at h
  split at h
  · rename_i data result hk
    obtain ⟨k, hw, hk⟩ := Option.bind_eq_some_iff.1 hk
    obtain ⟨c, hc, rfl⟩ := Option.map_eq_some_iff.1 h
    simp only [Connection.step] at hc
    split at hc
    · cases hc
    · obtain ⟨n, hn, rfl⟩ := Option.map_eq_some_iff.1 hc
      exact .reply k _ result n hw hk rfl hn
  · cases h

/-- **Every step is one of these.** -/
theorem step_rule (h : s.step d r l = some s') : Goes d r s l s' := by
  cases l with
  | write => exact write_rule h
  | reply => exact reply_rule h
  | shutdown =>
    cases h
    exact .shutdown
  | died =>
    cases h
    exact .died
  | other l =>
    simp only [step] at h
    split at h
    swap
    · cases h
    rename_i hp
    obtain ⟨c, hc, rfl⟩ := Option.map_eq_some_iff.1 h
    cases l with
    | go => exact .go c (Connection.go_rule hc)
    | reader l =>
      simp only [Connection.step] at hc
      split at hc
      · rename_i hl
        obtain ⟨n, hn, rfl⟩ := Option.map_eq_some_iff.1 hc
        exact .reader l n hl hn
      · cases hc
    | writer l =>
      simp only [Connection.step] at hc
      split at hc
      · rename_i hl
        rw [Bool.and_eq_true] at hl
        obtain ⟨w, hw, rfl⟩ := Option.map_eq_some_iff.1 hc
        refine .writer l w hl.1 (fun k hk => ?_) (fun hd => ?_) hw
        · subst hk
          cases hp
        · subst hd
          exact ⟨hl.2, by simpa [permits] using hp⟩
      · cases hc
    | write data handler => cases hp
    | actor l =>
      simp only [Connection.step] at hc
      split at hc
      · cases hc
      obtain ⟨n, hn, rfl⟩ := Option.map_eq_some_iff.1 hc
      have hr : runs l = true := hp
      cases l with
      | exec x => exact .actor x n hr hn
      | _ => cases hr

/-- The data `data` was written by the actor `n`: the responses to the payloads that are
through, and the one that its future awaits. -/
def Wrote (r : Responder M) (n : Node A M) (data : List (List UInt8)) : Option ℕ → Prop
  | none => data = n.through.map r.response
  | some _ => ∃ p m seen q j sch, n.pc = .future p m seen ∧ m.body = .asyncAsk q j sch ∧
      data = (n.through ++ [q]).map r.response

variable {n n' : Node A M} {data : List (List UInt8)} {writing : Option ℕ}

/-- The actor goes on, but for its future. -/
theorem Wrote.acts {l : Label A M} (hw : Wrote r n data writing) (hn : Alone n) (hl : Sole l)
    (hne : ∀ a v, l ≠ .exec (.reply a v)) (h : n.step l = some n') : Wrote r n' data writing := by
  have hthrough := through_step hn hl hne h
  cases writing with
  | none => rwa [Wrote, hthrough]
  | some k =>
    obtain ⟨p, m, seen, q, j, sch, hpc, hb, hdata⟩ := hw
    rcases routed_future hn.routes (hn.routed hl h) h hpc with ⟨a, v, rfl⟩ | hsame
    · exact absurd rfl (hne a v)
    · exact ⟨p, m, seen, q, j, sch, hsame.trans hpc, hb, by rw [hthrough]; exact hdata⟩

/-- Its future yields. -/
theorem Wrote.replied {a : A} {v : M} {k : ℕ} (hw : Wrote r n data (some k)) (hn : Alone n)
    (h : n.step (.exec (.reply a v)) = some n') : Wrote r n' data none := by
  obtain ⟨p, m, seen, q, j, sch, hpc, hb, hdata⟩ := hw
  rw [Wrote, (through_reply hn hpc hb h).2]
  exact hdata

/-- What was written are the responses to the first payloads. -/
theorem Wrote.first (hw : Wrote r n data writing) (hn : Alone n) :
    data <+: (payloads n.mailbox.accepted).map r.response := by
  rw [hn.accepted]
  cases writing with
  | none =>
    rw [show data = _ from hw]
    exact (List.prefix_append _ _).map _
  | some k =>
    obtain ⟨p, m, seen, q, j, sch, hpc, hb, rfl⟩ := hw
    -- the message at hand is the first one that is ahead
    have hahead : payloads n.ahead = [q] ++ payloads n.mailbox.queue := by
      rw [Node.ahead, hpc, payloads_append]
      simp [payloads, Pc.hand, Body.payload, hb]
    rw [hahead, ← List.append_assoc]
    exact (List.prefix_append _ _).map _

/-- **What holds of a server at any time.** -/
structure Serving (d : DataFrameReceiver len P M) (r : Responder M) (s : Server len P A M) : Prop where
  reader : ∃ m ls, Lts.run (ReaderActor.step d) (.init len P M m) ls = some s.connection.reader
  writer : ∃ m ls, Lts.run WriterActor.step (.init m) ls = some s.connection.writer
  alone : Alone s.connection.actor
  inTurn : s.connection.InTurn
  fed : s.connection.Fed
  wrote : Wrote r s.connection.actor s.connection.writer.data s.writing
  turn : s.connection.writer.Turn s.writing

theorem Serving.kept (hs : Serving d r s) : s.connection.writer.Kept := by
  obtain ⟨m, ls, hr⟩ := hs.writer
  exact WriterActor.kept_run hr

theorem Serving.reads {n : ReaderActor len P M} {l : ReaderLabel} (hs : Serving d r s)
    (h : s.connection.reader.step d l = some n) : ∃ m ls, Lts.run (ReaderActor.step d) (.init len P M m) ls = some n := by
  obtain ⟨m, ls, hr⟩ := hs.reader
  exact ⟨m, ls ++ [l], Lts.run_concat hr h⟩

theorem Serving.writes {w : WriterActor} {l : WriterLabel} (hs : Serving d r s)
    (h : s.connection.writer.step l = some w) : ∃ m ls, Lts.run WriterActor.step (.init m) ls = some w := by
  obtain ⟨m, ls, hr⟩ := hs.writer
  exact ⟨m, ls ++ [l], Lts.run_concat hr h⟩

/-- A write is awaited while the task of the connection awaits the answer. -/
theorem Serving.asking {k : ℕ} (hs : Serving d r s) (hw : s.writing = some k) : ∃ j, s.connection.pc = .asking j := by
  have hwrote := hs.wrote
  rw [hw] at hwrote
  obtain ⟨p, m, seen, q, j, sch, hpc, hb, -⟩ := hwrote
  have hm : m ∈ s.connection.actor.ahead := by
    rw [Node.ahead, hpc]
    exact List.mem_cons_self
  have ht := hs.inTurn
  unfold Connection.InTurn at ht
  cases hc : s.connection.pc with
  | asking j => exact ⟨j, rfl⟩
  | loop | reading k | leaving =>
    rw [hc] at ht
    rw [ht.1] at hm
    cases hm
  | awaiting w | done =>
    -- an await request has no future
    rw [hc] at ht
    have hawait := ht.2 m hm
    rw [hb] at hawait
    cases hawait
  | panicked =>
    rw [hc] at ht
    exact ht.elim

theorem serving_init (parent : Option SupervisorMessage) (cfg : Config) (a : A) :
    Serving d r (init len P parent cfg a : Server len P A M) where
  reader := ⟨parent, [], rfl⟩
  writer := ⟨parent, [], rfl⟩
  alone := alone_init _ a rfl rfl
  inTurn := ⟨rfl, fun m hm => by cases hm⟩
  fed := rfl
  wrote := rfl
  turn := WriterActor.turn_init parent

theorem sole_runs {x : Act A M} (hx : runs (.exec x : Label A M) = true) :
    Sole (.exec x : Label A M) ∧ ∀ a v, (.exec x : Label A M) ≠ .exec (.reply a v) := by
  cases x with
  | op | panic | reply | task => cases hx
  | _ => exact ⟨trivial, fun a v h => by cases h⟩

/-- The task of the connection goes on. -/
theorem Serving.goes {c : Connection len P A M} (hs : Serving d r s) (h : Connection.Goes d .nonBlocking s.connection c) :
    Serving d r { s with connection := c } := by
  have hturn := h.inTurn hs.inTurn hs.alone
  have hfed := h.fed hs.fed
  -- the actor gets a request, or is awaited
  have hact : ∀ {l : Label A M} {n : Node A M}, Sole l → (∀ a v, l ≠ .exec (.reply a v)) →
      s.connection.actor.step l = some n → Alone n ∧ Wrote r n s.connection.writer.data s.writing :=
    fun hl hne h => ⟨alone_step hs.alone hl h, hs.wrote.acts hs.alone hl hne h⟩
  have hang : ∃ m ls, Lts.run (ReaderActor.step d) (.init len P M m) ls =
      some { s.connection.reader with handles := false } := hs.reads (l := .hangUp) rfl
  cases h with
  | read r hpc h | refused r hpc h => exact ⟨hs.reads h, hs.writer, hs.alone, hturn, hfed, hs.wrote, hs.turn⟩
  | asks k payload n hpc hk h =>
    obtain ⟨hn, hw⟩ := hact (l := .send (.asyncAsk payload .nonBlocking)) trivial (fun a v h => by cases h) h
    exact ⟨hs.reader, hs.writer, hn, hturn, hfed, hw, hs.turn⟩
  | ends | answered => exact ⟨hs.reader, hs.writer, hs.alone, hturn, hfed, hs.wrote, hs.turn⟩
  | awaits n hpc h =>
    obtain ⟨hn, hw⟩ := hact (l := .send (.await true)) trivial (fun a v h => by cases h) h
    exact ⟨hs.reader, hs.writer, hn, hturn, hfed, hw, hs.turn⟩
  | panics | dropped => exact ⟨hang, hs.writer, hs.alone, hturn, hfed, hs.wrote, hs.turn⟩
  | late n hpc h =>
    obtain ⟨hn, hw⟩ := hact (l := .refuse) trivial (fun a v h => by cases h) h
    exact ⟨hang, hs.writer, hn, hturn, hfed, hw, hs.turn⟩
  | received w a n hpc hw h =>
    obtain ⟨hn, hw⟩ := hact (l := .poll w) trivial (fun a v h => by cases h) h
    exact ⟨hang, hs.writer, hn, hturn, hfed, hw, hs.turn⟩

/-- **Every step keeps it.** -/
theorem serving_step (hs : Serving d r s) (hstep : s.step d r l = some s') : Serving d r s' := by
  cases step_rule hstep with
  | write p m seen q j sch w owners hpc hb hw h =>
    have hwrote := hs.wrote
    have hturn := hs.turn
    rw [hw] at hwrote hturn
    obtain ⟨-, rfl⟩ : s.connection.writer.writers ≠ 0 ∧ _ = w := by
      simpa [WriterActor.step] using h
    refine ⟨hs.reader, hs.writes h, hs.alone, hs.inTurn, hs.fed, ⟨p, m, seen, q, j, sch, hpc, hb, ?_⟩, hturn.write _⟩
    rw [List.map_append, ← show _ = _ from hwrote]
    exact List.map_append
  | reply k c result n hw hc hr h =>
    have hwrote := hs.wrote
    have hturn := hs.turn
    rw [hw] at hwrote hturn
    have hl : Sole (.exec (.reply s.connection.actor.actor r.output) : Label A M) := trivial
    refine ⟨hs.reader, hs.writer, alone_step hs.alone hl h, hs.inTurn.exec hs.alone hl h, ?_, hwrote.replied hs.alone h,
      hturn.returned hs.kept hc hr⟩
    unfold Connection.Fed
    rw [hs.alone.exec_accepted (Node.exec_rule h)]
    exact hs.fed
  | shutdown =>
    exact ⟨hs.reads (l := .notify (some .shutdown)) rfl, hs.writes (l := .shutdown) rfl, hs.alone, hs.inTurn, hs.fed, hs.wrote,
      hs.turn.signal _ _⟩
  | died =>
    exact ⟨hs.reads (l := .died) rfl, hs.writes (l := .died) rfl, hs.alone, hs.inTurn, hs.fed, hs.wrote, hs.turn.signal _ _⟩
  | go c h => exact hs.goes h
  | reader l n hl h =>
    refine ⟨hs.reads h, ?_, hs.alone, hs.inTurn, hs.fed.goes (ReaderActor.task_goes hl h), hs.wrote, hs.turn.signal _ _⟩
    -- the writer task may hear that the reader task has ended
    cases ht : n.shutdownTx with
    | true =>
      rw [Bool.or_true]
      exact hs.writes (l := .readerShutdown) rfl
    | false =>
      rw [Bool.or_false]
      exact hs.writer
  | writer l w hl hg hd h =>
    refine ⟨hs.reader, hs.writes h, hs.alone, hs.inTurn, hs.fed, ?_, WriterActor.turn_task hs.kept hs.turn hl h⟩
    rw [show WriterActor.data _ = _ from WriterActor.Goes.data (WriterActor.task_goes hs.kept hl hg h)]
    exact hs.wrote
  | actor x n hx h =>
    obtain ⟨hl, hne⟩ := sole_runs hx
    refine ⟨hs.reader, hs.writer, alone_step hs.alone hl h, hs.inTurn.exec hs.alone hl h, ?_, hs.wrote.acts hs.alone hl hne h, hs.turn⟩
    unfold Connection.Fed
    rw [hs.alone.exec_accepted (Node.exec_rule h)]
    exact hs.fed

theorem serving_run {parent : Option SupervisorMessage} {cfg : Config} {a : A} {ls : List (ServerLabel A M)}
    (hr : Lts.run (step d r) (init len P parent cfg a) ls = some s) : Serving d r s :=
  Lts.run_inv (fun _ _ _ hs h => serving_step hs h) (serving_init parent cfg a) hr

/-- What the peer gets: a part of the response to each of the first requests, in their order. -/
structure Answers (r : Responder M) (s : Server len P A M) (ws : List (List UInt8)) : Prop where
  source : s.connection.writer.source = ws.flatten
  parts : List.Forall₂ (fun w q => w <+: r.response q) ws (s.connection.reader.returned.take ws.length)
  /-- all of it, when the write has succeeded -/
  whole : ∀ (k : ℕ) (c : WriteCall), s.connection.writer.calls[k]? = some c → c.state = .returned (.ok ()) →
    ∃ q, s.connection.reader.returned[k]? = some q ∧ ws[k]? = some (r.response q)
  /-- nothing is left out between two responses, when no write has failed -/
  unbroken : (∀ p ∈ s.connection.writer.results, p.2 = .ok ()) →
    s.connection.writer.source <+: (s.connection.reader.returned.map r.response).flatten

/-- The blocks in the socket are parts of the first responses. -/
theorem Serving.blocks (hs : Serving d r s) {ws : List (List UInt8)}
    (hws : List.Forall₂ (WriterActor.Block s.connection.writer.results) ws s.connection.writer.writerRx.taken) :
    ws.length ≤ s.connection.reader.returned.length ∧
      s.connection.writer.writerRx.taken.map Prod.fst = (s.connection.reader.returned.take ws.length).map r.response := by
  have hdata := hs.wrote.first hs.alone
  have hobjects := (hs.fed.objects).map r.response
  have hle : s.connection.writer.data <+: s.connection.reader.returned.map r.response := hdata.trans hobjects
  have htaken := hs.turn.taken hs.kept
  have hlen := hws.length_eq
  -- what was taken carries the data of calls
  have hdatalen : ws.length ≤ s.connection.writer.data.length := by
    have h := congrArg List.length htaken
    rw [List.length_map, List.length_take] at h
    omega
  have hobjlen := hle.length_le
  rw [List.length_map] at hobjlen
  refine ⟨by omega, ?_⟩
  rw [htaken, ← hlen, List.map_take]
  obtain ⟨rest, hrest⟩ := hle
  rw [← hrest, List.take_append_of_le_length hdatalen]

/-- A write that has succeeded has put its response. -/
theorem Serving.whole (hs : Serving d r s) {ws : List (List UInt8)}
    (hws : List.Forall₂ (WriterActor.Block s.connection.writer.results) ws s.connection.writer.writerRx.taken) {i : ℕ}
    (hi : i < ws.length) (hok : (i, .ok ()) ∈ s.connection.writer.results) :
    ∃ q, s.connection.reader.returned[i]? = some q ∧ ws[i]? = some (r.response q) := by
  obtain ⟨hle, htaken⟩ := hs.blocks hws
  have hi' : i < s.connection.writer.writerRx.taken.length := hws.length_eq ▸ hi
  have hio : i < s.connection.reader.returned.length := by omega
  have hblock := (List.forall₂_iff_get.1 hws).2 i hi hi'
  rw [List.get_eq_getElem, List.get_eq_getElem] at hblock
  have hget := congrArg (·[i]?) htaken
  simp only [List.getElem?_map, List.getElem?_take, if_pos hi, List.getElem?_eq_getElem hi',
    List.getElem?_eq_getElem hio, Option.map_some, Option.some.injEq] at hget
  refine ⟨_, List.getElem?_eq_getElem hio, ?_⟩
  rw [List.getElem?_eq_getElem hi, hblock.2 (by rw [hs.turn.number hi']; exact hok), hget]

theorem Serving.answers (hs : Serving d r s) : ∃ ws, Answers r s ws := by
  have hkept := hs.kept
  obtain ⟨ws, hsource, hws⟩ := hkept.blocks
  obtain ⟨hle, htaken⟩ := hs.blocks hws
  have hlen := hws.length_eq
  have hparts : List.Forall₂ (· <+: ·) ws ((s.connection.reader.returned.take ws.length).map r.response) := by
    rw [← htaken, List.forall₂_map_right_iff]
    exact hws.imp fun _ _ h => h.1
  refine ⟨ws, hsource, List.forall₂_map_right_iff.1 hparts, fun k c hc hok => ?_, fun hall => ?_⟩
  · have hres := hkept.calls k c hc
    rw [hok] at hres
    obtain ⟨-, c', -, hmem⟩ := hkept.result_taken hres
    obtain ⟨i, hi, hget⟩ := List.getElem_of_mem hmem
    have hik : i = k := by rw [← hs.turn.number hi, hget]
    subst hik
    exact hs.whole hws (hlen ▸ hi) hres
  · obtain ⟨rest, hrest⟩ := (List.take_prefix ws.length s.connection.reader.returned).map r.response
    rw [hsource, ← hrest, List.flatten_append]
    refine (flatten_first hparts fun i hi => ?_).trans (List.prefix_append _ _)
    -- every request but the last one has a result
    obtain ⟨m, ls, hr⟩ := hs.writer
    have hpaced := WriterActor.paced_run hr
    obtain ⟨result, hmem⟩ := hs.turn.result hkept (i := i) (by omega)
    have hok : result = .ok () := hall _ hmem
    rw [hok] at hmem
    have hi' : i < ws.length := by omega
    obtain ⟨q, hq, hw⟩ := hs.whole hws hi' hmem
    rw [hw, List.getElem?_map, List.getElem?_take, if_pos hi', hq]
    rfl

end Server

variable {d : DataFrameReceiver len P M} {r : Responder M} {s : Server len P A M}

/-- **Responses come in order**: in every run, the peer has got a part of the response to each of
the first requests that the reader task has completed, in their order, and nothing else; it is
the whole response when the write has come back with `Ok`, and as long as no write fails in the
socket, what the peer has got is the first part of all responses, one after the other. -/
theorem responses_in_order {parent : Option SupervisorMessage} {cfg : Config} {a : A} {ls : List (ServerLabel A M)}
    (hr : Lts.run (Server.step d r) (.init len P parent cfg a) ls = some s) : ∃ ws, Server.Answers r s ws :=
  (Server.serving_run hr).answers

/-- The peer of an echo sends two requests; the second write fails in the socket, behind one
byte, and then a signal comes. -/
def brokenEchoRun : List (ServerLabel Unit (List UInt8)) :=
  [.other .go, .other (.actor (.exec (.ret ()))), .other (.reader (.arrive [1, 2])),
    .other (.reader (.request .fut)), .other (.reader (.frame .fut (.bytes 2))), .other .go] ++
  [.other (.actor (.exec .recv)), .other (.actor (.exec .go)), .other (.actor (.exec .go)),
    .other (.actor (.exec (.ret ()))), .other (.actor (.exec (.ret ()))), .write, .other (.writer (.send 0)),
    .other (.writer (.request .fut)), .other (.writer (.put 1)), .other (.writer (.written .fut (.ok ()))), .reply,
    .other (.actor (.exec (.ret ()))), .other .go, .other .go] ++
  [.other (.reader (.arrive [3, 4, 5])), .other (.reader (.request .fut)), .other (.reader (.frame .fut (.bytes 3))),
    .other .go, .other (.actor (.exec .recv)), .other (.actor (.exec .go)), .other (.actor (.exec .go)),
    .other (.actor (.exec (.ret ()))), .other (.actor (.exec (.ret ()))), .write, .other (.writer (.send 1)),
    .other (.writer (.request .fut)), .other (.writer (.put 1)), .other (.writer (.written .fut (.error 32))), .shutdown]

theorem responses_in_order_brokenEchoRun :
    ∃ s : Server 4 (List UInt8) Unit (List UInt8),
      Lts.run (Server.step (StatefulTcpWorld.Data 4) StatefulTcpWorld.Connection)
        (.init 4 (List UInt8) none ⟨4, 1, true, []⟩ ()) brokenEchoRun = some s ∧
      s.connection.writer.source = [1, 2, 3] ∧ s.connection.reader.returned = [[1, 2], [3, 4, 5]] ∧
      ∃ ws, Server.Answers StatefulTcpWorld.Connection s ws := by
  have hr : ∃ s : Server 4 (List UInt8) Unit (List UInt8),
      Lts.run (Server.step (StatefulTcpWorld.Data 4) StatefulTcpWorld.Connection)
        (.init 4 (List UInt8) none ⟨4, 1, true, []⟩ ()) brokenEchoRun = some s ∧
      s.connection.writer.source = [1, 2, 3] ∧ s.connection.reader.returned = [[1, 2], [3, 4, 5]] := ⟨_, rfl, rfl, rfl⟩
  obtain ⟨s, hr, hsource, hobjects⟩ := hr
  exact ⟨s, hr, hsource, hobjects, responses_in_order hr⟩

end Tokactor
