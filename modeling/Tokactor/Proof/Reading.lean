import Tokactor.Lib.Cells
import Tokactor.Model.Reading
import Tokactor.Proof.Reader

/-!
# Errors of the socket

* `moves_rule`: what the task can do in one step, with what the read of a frame gives.
* `reported_iff`: what callers are told is right if and only if no caller waited for a read that
  failed.
* `errors_reported`: so it is in every state of a run, if and only if no read fails for a request
  whose caller waits. The task drops the sender of such a request, and its caller gets `Ok(None)`,
  as at the end of the stream.
-/

namespace Tokactor

variable {len : ℕ} {P R : Type} {d : DataFrameReceiver len P R}

/-! ## The reads for a request -/

@[simp] theorem readsFor_nil (k : ℕ) : readsFor k ([] : List (ℕ × FrameRead len)) = [] := rfl

theorem mem_readsFor {k : ℕ} {x : FrameRead len} {es : List (ℕ × FrameRead len)} :
    x ∈ readsFor k es ↔ (k, x) ∈ es := by
  unfold readsFor
  rw [List.mem_filterMap]
  constructor
  · rintro ⟨e, he, hx⟩
    split at hx
    · rename_i hk
      cases hx
      rwa [← hk]
    · cases hx
  · intro h
    exact ⟨(k, x), h, if_pos rfl⟩

theorem readsFor_concat (k : ℕ) (x : FrameRead len) (es : List (ℕ × FrameRead len)) :
    readsFor k (es ++ [(k, x)]) = readsFor k es ++ [x] := by
  simp [readsFor]

theorem readsFor_concat_ne {j k : ℕ} (h : j ≠ k) (x : FrameRead len) (es : List (ℕ × FrameRead len)) :
    readsFor j (es ++ [(k, x)]) = readsFor j es := by
  simp [readsFor, h.symm]

theorem DataFrameReceiver.assemble_concat (xs : List (FrameRead len)) (x : FrameRead len) :
    d.assemble (xs ++ [x]) = d.receive (d.assemble xs) x := by
  simp [assemble]

/-- Only data makes a difference to the payload. -/
theorem DataFrameReceiver.receive_eq (acc : P × Option R) {x : FrameRead len} (hx : x.isData = false) :
    d.receive acc x = acc := by
  cases x <;> first | rfl | cases hx

/-- More data is still data. -/
theorem data_concat {xs : List (FrameRead len)} (hxs : ∀ x ∈ xs, x.isData = true) (frame : Read len) :
    ∀ x ∈ xs ++ [.data frame], x.isData = true := by
  intro x hx
  rcases List.mem_append.1 hx with hx | hx
  · exact hxs x hx
  · rw [List.mem_singleton.1 hx]
    rfl

namespace ReaderActor

/-! ## One step -/

/-- A step, with what the read of a frame gives in it. -/
inductive Moves (d : DataFrameReceiver len P R) (n : ReaderActor len P R) :
    ReaderMove → List (ℕ × FrameRead len) → ReaderActor len P R → Prop
  /-- not from the inner loop, or the task goes round it -/
  | rest (l : ReaderLabel) (n' : ReaderActor len P R) (h : Steps d n l n')
      (hl : (∀ b p, l ≠ .frame b p) ∨ ∃ w, n' = { n with parentRx := w }) : Moves d n (.step l) [] n'
  | completes (p : Peek) (frame frame' : Read len) (k : ℕ) (payload payload' : P) (object : R) (source : Source)
      (hpc : n.pc = .reading frame k payload) (hrecv : d.recv payload frame' = (payload', some object)) :
      Moves d n (.step (.frame .fut p)) [(k, .data frame')] { n with
        source := source, frames := n.frames ++ [frame'.frame]
        calls := n.calls.modify k (ReadCall.send object), pc := .request }
  | reads (p : Peek) (frame frame' : Read len) (k : ℕ) (payload payload' : P) (source : Source)
      (hpc : n.pc = .reading frame k payload) (hrecv : d.recv payload frame' = (payload', none)) :
      Moves d n (.step (.frame .fut p)) [(k, .data frame')] { n with
        source := source, frames := n.frames ++ [frame'.frame], pc := .reading frame' k payload' }
  | drops (b : Branch) (p : Peek) (frame : Read len) (k : ℕ) (payload : P) (w : Watch) (x : FrameRead len)
      (hpc : n.pc = .reading frame k payload) (hx : x.isData = false)
      (herror : ∀ e, x = .error e ↔ b = .fut ∧ p = .error e) :
      Moves d n (.step (.frame b p)) [(k, x)] ({ n with parentRx := w, pc := .request }.dropSender k)
  | panics (frame : Read len) (k : ℕ) (payload : P) (hpc : n.pc = .reading frame k payload) :
      Moves d n .panic [] (n.dropSender k).finish

/-- A read fails if and only if the socket does. -/
theorem poll_error {f f' : Read len} {s s' : Source} {p : Peek} {r : Except ℕ (Option Unit)}
    (h : ReadFut.poll f s p = some (r, f', s')) (e : ℕ) : r = .error e ↔ p = .error e := by
  unfold ReadFut.poll at h
  split at h
  · cases h
    simp
  · split at h <;> cases h
    simp
  · split at h <;> cases h
    simp

theorem frame_moves {n n' : ReaderActor len P R} {b : Branch} {p : Peek} (h : n.readFrame d b p = some n') :
    Moves d n (.step (.frame b p)) (n.reads (.step (.frame b p))) n' := by
  have hstep : Steps d n (.frame b p) n' := .task _ _ (readFrame_rule h)
  unfold readFrame at h
  split at h
  · rename_i frame k payload hpc
    simp only [Option.map_eq_some_iff] at h
    obtain ⟨⟨r, w⟩, hs, rfl⟩ := h
    rcases supervisor_cases hs with ⟨⟨r, frame', source⟩, rfl, hpoll, rfl, rfl⟩ | ⟨hb, -, -, -, hr⟩
    · rcases r with e | o | u
      · have hreads : n.reads (.step (.frame .fut p)) = [(k, .error e)] := by simp only [ReaderActor.reads, hpc, hs]
        obtain ⟨rfl, -⟩ := poll_none hpoll (by simp)
        rw [hreads]
        exact .drops .fut p frame k payload n.parentRx (.error e) hpc rfl fun e' => by simp [← poll_error hpoll e']
      · have hreads : n.reads (.step (.frame .fut p)) = [(k, .eof)] := by simp only [ReaderActor.reads, hpc, hs]
        obtain ⟨rfl, -⟩ := poll_none hpoll (by simp)
        rw [hreads]
        exact .drops .fut p frame k payload n.parentRx .eof hpc rfl fun e' => by simp [← poll_error hpoll e']
      · have hreads : n.reads (.step (.frame .fut p)) = [(k, .data frame')] := by
          simp only [ReaderActor.reads, hpc, hs]
        rw [hreads]
        simp only
        split
        · rename_i payload' object hrecv
          exact .completes p frame frame' k payload payload' object source hpc hrecv
        · rename_i payload' hrecv
          exact .reads p frame frame' k payload payload' source hpc hrecv
    · rcases hr with rfl | rfl | ⟨rfl, -, -⟩
      · have hreads : n.reads (.step (.frame b p)) = [(k, .signal)] := by simp only [ReaderActor.reads, hpc, hs]
        rw [hreads]
        exact .drops b p frame k payload w .signal hpc rfl fun e => by simp [hb]
      · have hreads : n.reads (.step (.frame b p)) = [(k, .signal)] := by simp only [ReaderActor.reads, hpc, hs]
        rw [hreads]
        exact .drops b p frame k payload w .signal hpc rfl fun e => by simp [hb]
      · have hreads : n.reads (.step (.frame b p)) = [] := by simp only [ReaderActor.reads, hpc, hs]
        rw [hreads]
        exact .rest _ _ hstep (.inr ⟨w, rfl⟩)
  · cases h

theorem moves_rule {n n' : ReaderActor len P R} {l : ReaderMove} (h : n.move d l = some n') :
    Moves d n l (n.reads l) n' := by
  cases l with
  | panic =>
    simp only [move, ReaderActor.panics] at h
    split at h
    · rename_i frame k payload hpc
      cases h
      exact .panics frame k payload hpc
    · cases h
  | step l =>
    cases l with
    | frame b p => exact frame_moves h
    | _ => exact .rest _ _ (step_rule h) (.inl (by simp))

/-! ## What is known of a call -/

/-- The caller waits, or has given up. -/
def Open (n : ReaderActor len P R) (k : ℕ) : Prop := n.calls[k]? = some .waiting ∨ n.calls[k]? = some .gone

/-- The requests that are queued. -/
def queued (n : ReaderActor len P R) : List ℕ := n.readerRx.queue.map Prod.snd

/-- The request is queued, or the task serves it. -/
def Held (n : ReaderActor len P R) (k : ℕ) : Prop :=
  n.pc ≠ .done ∧ (k ∈ n.queued ∨ ∃ frame payload, n.pc = .reading frame k payload)

/-- What holds of a call in each of its states, `xs` being the reads made for it. -/
def Fits (d : DataFrameReceiver len P R) (xs : List (FrameRead len)) (n : ReaderActor len P R) (k : ℕ) :
    ReadCall R → Prop
  | .waiting => n.Held k
  | .response object => (d.assemble xs).2 = some object ∧ ∀ x ∈ xs, x.isData = true
  | .closed => (d.assemble xs).2 = none ∧ (n.pc = .done ∨ ∃ x ∈ xs, x.isData = false)
  | .gone => True

theorem Fits.mono {xs : List (FrameRead len)} {n n' : ReaderActor len P R} {k : ℕ} {c : ReadCall R}
    (h : Fits d xs n k c) (hheld : c = .waiting → n.Held k → n'.Held k) (hdone : n.pc = .done → n'.pc = .done) :
    Fits d xs n' k c := by
  cases c with
  | waiting => exact hheld rfl h
  | response object => exact h
  | closed => exact ⟨h.1, h.2.imp_left hdone⟩
  | gone => trivial

/-- **What the reads `es` of a run say about its last state.** -/
structure Tracks (d : DataFrameReceiver len P R) (es : List (ℕ × FrameRead len)) (n : ReaderActor len P R) : Prop where
  /-- the queue is closed when the task ends -/
  ended : n.readerRx.closed = true ↔ n.pc = .done
  fresh : ∀ k, n.calls[k]? = none → readsFor k es = []
  calls : ∀ k c, n.calls[k]? = some c → Fits d (readsFor k es) n k c
  distinct : n.queued.Nodup
  queue : n.pc ≠ .done → ∀ k ∈ n.queued, n.Open k ∧ readsFor k es = []
  serving : ∀ frame k payload, n.pc = .reading frame k payload →
    n.Open k ∧ k ∉ n.queued ∧ (∀ x ∈ readsFor k es, x.isData = true) ∧ d.assemble (readsFor k es) = (payload, none)

theorem tracks_init (m : Option SupervisorMessage) : Tracks d [] (init len P R m) where
  ended := by simp [init]
  fresh k _ := rfl
  calls k c h := by simp [init] at h
  distinct := List.nodup_nil
  queue _ k hk := by simp [queued, init] at hk
  serving frame k payload h := by simp [init] at h

/-- The task, its queue and the callers stay. -/
theorem Tracks.same {es : List (ℕ × FrameRead len)} {n n' : ReaderActor len P R} (hn : Tracks d es n)
    (hpc : n'.pc = n.pc) (hrx : n'.readerRx = n.readerRx) (hc : n'.calls = n.calls) : Tracks d es n' := by
  have hq : n'.queued = n.queued := by rw [queued, hrx]; rfl
  have hheld : ∀ k, n.Held k → n'.Held k := by
    intro k hk
    rwa [Held, hpc, hq]
  have hopen : ∀ k, n.Open k → n'.Open k := by
    intro k hk
    rwa [Open, hc]
  refine ⟨by rw [hrx, hpc, hn.ended], fun k hk => hn.fresh k (hc ▸ hk), fun k c hk => ?_, hq ▸ hn.distinct, ?_, ?_⟩
  · exact (hn.calls k c (hc ▸ hk)).mono (fun _ => hheld k) fun h => hpc.trans h
  · intro hne k hk
    obtain ⟨ho, hes⟩ := hn.queue (hpc ▸ hne) k (hq ▸ hk)
    exact ⟨hopen k ho, hes⟩
  · intro frame k payload h
    obtain ⟨ho, hnot, hx⟩ := hn.serving frame k payload (hpc.symm.trans h)
    exact ⟨hopen k ho, by rwa [hq], hx⟩

/-- A frame is read for the request `k`, with `x` as what comes of it. -/
theorem Tracks.afterRead {es : List (ℕ × FrameRead len)} {n n' : ReaderActor len P R} (hn : Tracks d es n)
    {frame : Read len} {k : ℕ} {payload : P} {x : FrameRead len} {f : ReadCall R → ReadCall R}
    (hpc : n.pc = .reading frame k payload) (hne' : n'.pc ≠ .done) (hrx : n'.readerRx = n.readerRx)
    (hcalls : n'.calls = n.calls.modify k f)
    (hcall : ∀ c, c = .waiting ∨ c = .gone → Fits d (readsFor k es ++ [x]) n' k (f c))
    (hserving : ∀ frame' j payload', n'.pc = .reading frame' j payload' → j = k ∧ n'.Open k ∧
      (∀ y ∈ readsFor k es ++ [x], y.isData = true) ∧ d.assemble (readsFor k es ++ [x]) = (payload', none)) :
    Tracks d (es ++ [(k, x)]) n' := by
  have hq : n'.queued = n.queued := by rw [queued, hrx]; rfl
  obtain ⟨hopen, hnot, -⟩ := hn.serving frame k payload hpc
  have hne : n.pc ≠ .done := by rw [hpc]; simp
  refine ⟨?_, fun j hj => ?_, fun j c hj => ?_, hq ▸ hn.distinct, fun _ j hj => ?_, fun frame' j payload' h => ?_⟩
  · rw [hrx, hn.ended]
    exact ⟨fun h => absurd h hne, fun h => absurd h hne'⟩
  · have hjk : j ≠ k := by
      rintro rfl
      rw [hcalls, List.getElem?_modify_eq] at hj
      rcases hopen with h | h <;> rw [h] at hj <;> cases hj
    rw [hcalls, List.getElem?_modify_ne f n.calls hjk.symm] at hj
    rw [readsFor_concat_ne hjk]
    exact hn.fresh j hj
  · rw [hcalls] at hj
    obtain ⟨c₀, hc₀, ⟨rfl, rfl⟩ | ⟨hjk, rfl⟩⟩ := Cells.get_modify hj
    · rw [readsFor_concat]
      refine hcall c₀ ?_
      rcases hopen with h | h <;> rw [hc₀] at h <;> cases h
      · exact .inl rfl
      · exact .inr rfl
    · -- of the other calls nothing new is known
      rw [readsFor_concat_ne hjk]
      refine (hn.calls j c hc₀).mono (fun _ hheld => ?_) fun h => absurd h hne
      refine ⟨hne', .inl ?_⟩
      rcases hheld.2 with hmem | ⟨frame', payload', h⟩
      · rwa [hq]
      · rw [hpc] at h
        cases h
        exact absurd rfl hjk
  · rw [hq] at hj
    have hjk : j ≠ k := fun h => hnot (h ▸ hj)
    obtain ⟨ho, hes⟩ := hn.queue hne j hj
    rw [Open, hcalls, List.getElem?_modify_ne f n.calls hjk.symm, readsFor_concat_ne hjk]
    exact ⟨ho, hes⟩
  · obtain ⟨rfl, ho, hdata, hpayload⟩ := hserving frame' j payload' h
    rw [readsFor_concat]
    exact ⟨ho, by rwa [hq], hdata, hpayload⟩

/-- The task ends: whoever still waits was queued. -/
theorem tracks_finish {es : List (ℕ × FrameRead len)} {n : ReaderActor len P R}
    (hfresh : ∀ k, n.calls[k]? = none → readsFor k es = []) (hnodup : n.queued.Nodup)
    (hqueue : ∀ k ∈ n.queued, readsFor k es = [])
    (hcalls : ∀ k c, n.calls[k]? = some c →
      c = .waiting ∧ k ∈ n.queued ∨ c ≠ .waiting ∧ Fits d (readsFor k es) n.finish k c) : Tracks d es n.finish := by
  refine ⟨⟨fun _ => rfl, fun _ => rfl⟩, fun k hk => ?_, fun k c hk => ?_, hnodup, fun h => absurd rfl h, ?_⟩
  · rw [finish_calls, Option.map_eq_none_iff] at hk
    exact hfresh k hk
  · rw [finish_calls] at hk
    obtain ⟨c₀, hc₀, rfl⟩ := Option.map_eq_some_iff.1 hk
    rcases hcalls k c₀ hc₀ with ⟨rfl, hmem⟩ | ⟨hne, hfits⟩
    · rw [if_pos (show k ∈ n.readerRx.queue.map Prod.snd from hmem), hqueue k hmem]
      exact ⟨rfl, .inl rfl⟩
    · cases c₀ with
      | waiting => exact absurd rfl hne
      | response | closed | gone => split <;> exact hfits
  · intro frame k payload h
    cases h

/-- A new call, which is queued or refused. -/
theorem Tracks.newCall {es : List (ℕ × FrameRead len)} {n n' : ReaderActor len P R} (hn : Tracks d es n)
    {c : ReadCall R} (hpc : n'.pc = n.pc) (hcalls : n'.calls = n.calls ++ [c])
    (hcl : n'.readerRx.closed = n.readerRx.closed)
    (hc : c = .waiting ∧ n.pc ≠ .done ∧ n'.queued = n.queued ++ [n.calls.length] ∨
      c = .closed ∧ n.pc = .done ∧ n'.queued = n.queued) : Tracks d es n' := by
  have hnew : readsFor n.calls.length es = [] := hn.fresh _ (List.getElem?_eq_none (Nat.le_refl _))
  have hold : ∀ k, n.Open k → k < n.calls.length := by
    rintro k (h | h) <;> exact (List.getElem?_eq_some_iff.1 h).1
  have hsub : ∀ k ∈ n.queued, k ∈ n'.queued := by
    intro k hk
    rcases hc with ⟨-, -, hq⟩ | ⟨-, -, hq⟩ <;> rw [hq]
    · exact List.mem_append_left _ hk
    · exact hk
  have hheld : ∀ k, n.Held k → n'.Held k := by
    rintro k ⟨hne, hk⟩
    refine ⟨hpc ▸ hne, hk.imp (hsub k) ?_⟩
    rintro ⟨frame, payload, h⟩
    exact ⟨frame, payload, hpc.trans h⟩
  have hopen : ∀ k, n.Open k → n'.Open k := by
    intro k hk
    rwa [Open, hcalls, List.getElem?_append_left (hold k hk)]
  refine ⟨by rw [hcl, hpc, hn.ended], fun k hk => ?_, fun k c' hk => ?_, ?_, fun hne k hk => ?_, ?_⟩
  · rw [hcalls, List.getElem?_eq_none_iff, List.length_append] at hk
    exact hn.fresh k (List.getElem?_eq_none (by omega))
  · rw [hcalls] at hk
    rcases Cells.get_concat hk with hk | ⟨rfl, rfl⟩
    · exact (hn.calls k c' hk).mono (fun _ => hheld k) fun h => hpc.trans h
    · rw [hnew]
      rcases hc with ⟨rfl, hne, hq⟩ | ⟨rfl, hdone, -⟩
      · exact ⟨hpc ▸ hne, .inl (by rw [hq]; exact List.mem_concat_self)⟩
      · exact ⟨rfl, .inl (hpc.trans hdone)⟩
  · rcases hc with ⟨-, hne, hq⟩ | ⟨-, -, hq⟩ <;> rw [hq]
    · refine List.nodup_append.2 ⟨hn.distinct, by simp, fun k hk j hj => ?_⟩
      have hlt := hold k (hn.queue hne k hk).1
      rw [List.mem_singleton.1 hj]
      omega
    · exact hn.distinct
  · rcases hc with ⟨rfl, hne, hq⟩ | ⟨-, hdone, -⟩
    · rw [hq] at hk
      rcases List.mem_append.1 hk with hk | hk
      · obtain ⟨ho, hes⟩ := hn.queue hne k hk
        exact ⟨hopen k ho, hes⟩
      · rw [List.mem_singleton.1 hk]
        exact ⟨.inl (by rw [hcalls, List.getElem?_concat_length]), hnew⟩
    · exact absurd (hpc.trans hdone) hne
  · intro frame k payload h
    rw [hpc] at h
    obtain ⟨ho, hnot, hx⟩ := hn.serving frame k payload h
    refine ⟨hopen k ho, ?_, hx⟩
    rcases hc with ⟨-, -, hq⟩ | ⟨-, -, hq⟩ <;> rw [hq]
    · intro hmem
      rcases List.mem_append.1 hmem with hmem | hmem
      · exact hnot hmem
      · have hlt := hold k ho
        rw [List.mem_singleton.1 hmem] at hlt
        exact absurd hlt (Nat.lt_irrefl _)
    · exact hnot

/-- A caller drops its future. -/
theorem Tracks.givesUp {es : List (ℕ × FrameRead len)} {n : ReaderActor len P R} (hn : Tracks d es n) {k : ℕ}
    (hk : n.calls[k]? = some .waiting) : Tracks d es { n with calls := n.calls.set k .gone } := by
  have hset : (n.calls.set k .gone)[k]? = some .gone := List.getElem?_set_self (List.getElem?_eq_some_iff.1 hk).1
  have hopen : ∀ j, n.Open j → ({ n with calls := n.calls.set k .gone } : ReaderActor len P R).Open j := by
    intro j hj
    by_cases hjk : k = j
    · exact .inr (hjk ▸ hset)
    · unfold Open
      rwa [List.getElem?_set_ne hjk]
  refine ⟨hn.ended, fun j hj => ?_, fun j c hj => ?_, hn.distinct, fun hne j hj => ?_, fun frame j payload h => ?_⟩
  · by_cases hjk : k = j
    · rw [← hjk, hset] at hj
      cases hj
    · rw [List.getElem?_set_ne hjk] at hj
      exact hn.fresh j hj
  · by_cases hjk : k = j
    · rw [← hjk, hset] at hj
      cases hj
      trivial
    · rw [List.getElem?_set_ne hjk] at hj
      exact (hn.calls j c hj).mono (fun _ h => h) fun h => h
  · obtain ⟨ho, hes⟩ := hn.queue hne j hj
    exact ⟨hopen j ho, hes⟩
  · obtain ⟨ho, hx⟩ := hn.serving frame j payload h
    exact ⟨hopen j ho, hx⟩

/-- A request is taken. -/
theorem Tracks.takes {es : List (ℕ × FrameRead len)} {n : ReaderActor len P R} (hn : Tracks d es n) {frame : Read len}
    {k : ℕ} {rx : Chan (Read len × ℕ)} (hpc : n.pc = .request) (hrx : n.readerRx.pop = some ((frame, k), rx)) :
    Tracks d es { n with readerRx := rx, pc := .reading frame k d.default } := by
  obtain ⟨hq, -, hcl, -⟩ := Chan.pop_cases hrx
  have hq : n.queued = k :: rx.queue.map Prod.snd := by rw [queued, hq]; rfl
  have hne : n.pc ≠ .done := by rw [hpc]; simp
  have hnodup := hn.distinct
  rw [hq, List.nodup_cons] at hnodup
  have hqueue := hn.queue hne
  rw [hq] at hqueue
  refine ⟨⟨fun h => ?_, fun h => ?_⟩, hn.fresh, fun j c hj => ?_, hnodup.2, ?_, fun frame' j payload h => ?_⟩
  · exact absurd (hn.ended.1 (hcl ▸ h)) hne
  · cases h
  · refine (hn.calls j c hj).mono (fun _ hheld => ⟨by simp, ?_⟩) fun h => absurd h hne
    rcases hheld.2 with hmem | ⟨frame', payload, h⟩
    · rw [hq] at hmem
      rcases List.mem_cons.1 hmem with rfl | hmem
      · -- its request is the one that is served now
        exact .inr ⟨frame, d.default, rfl⟩
      · exact .inl hmem
    · rw [hpc] at h
      cases h
  · exact fun _ j hj => hqueue j (List.mem_cons_of_mem _ hj)
  · cases h
    obtain ⟨ho, hes⟩ := hqueue k List.mem_cons_self
    rw [hes]
    exact ⟨ho, hnodup.1, by simp, rfl⟩

/-- A step that is not one of the inner loop. -/
theorem Tracks.rest {es : List (ℕ × FrameRead len)} {n n' : ReaderActor len P R} {l : ReaderLabel} (hn : Tracks d es n)
    (h : Steps d n l n') (hl : ∀ b p, l ≠ .frame b p) : Tracks d es n' := by
  cases h with
  | task l n' hsel =>
    cases hsel with
    | takes frame k rx w hw hpc hrx =>
      subst hw
      exact hn.takes hpc hrx
    | goesOn l b w hl hb hs => exact hn.same rfl rfl rfl
    | ends b w hpc hend =>
      have hne : n.pc ≠ .done := by rw [hpc]; simp
      refine tracks_finish (n := { n with parentRx := w }) hn.fresh hn.distinct
        (fun k hk => (hn.queue hne k hk).2) fun k c hk => ?_
      have hfits := hn.calls k c hk
      by_cases hc : c = .waiting
      · subst hc
        obtain ⟨-, hmem | ⟨frame, payload, h⟩⟩ := hfits
        · exact .inl ⟨rfl, hmem⟩
        · rw [hpc] at h
          cases h
      · exact .inr ⟨hc, hfits.mono (fun h => absurd h hc) fun h => absurd h hne⟩
    | completes => exact absurd rfl (hl _ _)
    | reads => exact absurd rfl (hl _ _)
    | drops => exact absurd rfl (hl _ _)
  | read rx hh hrx =>
    obtain ⟨hopen, -, hcap, hcl, hq, -⟩ := Chan.push_cases hrx
    refine hn.newCall rfl rfl (hcl.trans hopen.symm) (.inl ⟨rfl, fun h => ?_, ?_⟩)
    · rw [hn.ended.2 h] at hopen
      cases hopen
    · rw [queued, queued, hq, List.map_append]
      rfl
  | refused hh hc => exact hn.newCall rfl rfl rfl (.inr ⟨rfl, hn.ended.1 hc, rfl⟩)
  | giveUp k hk => exact hn.givesUp hk
  | hangUp => exact hn.same rfl rfl rfl
  | outside l source w hs hl => exact hn.same rfl rfl rfl

/-- **Every step keeps track of what is read.** -/
theorem tracks_step {es xs : List (ℕ × FrameRead len)} {n n' : ReaderActor len P R} {l : ReaderMove}
    (hn : Tracks d es n) (h : Moves d n l xs n') : Tracks d (es ++ xs) n' := by
  cases h with
  | rest l n' h hl =>
    rw [List.append_nil]
    rcases hl with hl | ⟨w, rfl⟩
    · exact hn.rest h hl
    · exact hn.same rfl rfl rfl
  | completes p frame frame' k payload payload' object source hpc hrecv =>
    obtain ⟨-, -, hdata, hpayload⟩ := hn.serving frame k payload hpc
    refine hn.afterRead hpc (by simp) rfl rfl ?_ fun frame' j payload' h => by cases h
    rintro c (rfl | rfl)
    · refine ⟨?_, data_concat hdata frame'⟩
      rw [DataFrameReceiver.assemble_concat, hpayload, DataFrameReceiver.receive, hrecv]
    · trivial
  | reads p frame frame' k payload payload' source hpc hrecv =>
    obtain ⟨hopen, -, hdata, hpayload⟩ := hn.serving frame k payload hpc
    refine hn.afterRead (f := id) hpc (by simp) rfl (by rw [List.modify_id]) ?_ fun frame₁ j payload₁ h => ?_
    · rintro c (rfl | rfl)
      · exact ⟨by simp, .inr ⟨frame', payload', rfl⟩⟩
      · trivial
    · cases h
      refine ⟨rfl, hopen, data_concat hdata frame', ?_⟩
      rw [DataFrameReceiver.assemble_concat, hpayload, DataFrameReceiver.receive, hrecv]
  | drops b p frame k payload w x hpc hx herror =>
    obtain ⟨-, -, hdata, hpayload⟩ := hn.serving frame k payload hpc
    refine hn.afterRead hpc (by simp [dropSender]) rfl rfl ?_ fun frame' j payload' h => by cases h
    rintro c (rfl | rfl)
    · refine ⟨?_, .inr ⟨x, by simp, hx⟩⟩
      rw [DataFrameReceiver.assemble_concat, hpayload, DataFrameReceiver.receive_eq _ hx]
    · trivial
  | panics frame k payload hpc =>
    obtain ⟨hopen, -, -, hpayload⟩ := hn.serving frame k payload hpc
    have hne : n.pc ≠ .done := by rw [hpc]; simp
    rw [List.append_nil]
    -- the sender of the request goes first, then those in the queue
    refine tracks_finish (fun j hj => ?_) hn.distinct (fun j hj => (hn.queue hne j hj).2) fun j c hj => ?_
    · rw [dropSender, List.getElem?_modify, Option.map_eq_map, Option.map_eq_none_iff] at hj
      exact hn.fresh j hj
    · obtain ⟨c₀, hc₀, ⟨rfl, rfl⟩ | ⟨hjk, rfl⟩⟩ := Cells.get_modify hj
      · right
        rcases hopen with h | h <;> rw [hc₀] at h <;> cases h
        · exact ⟨by simp [ReadCall.dropSender], by rw [hpayload], .inl rfl⟩
        · exact ⟨by simp [ReadCall.dropSender], trivial⟩
      · have hfits := hn.calls j c hc₀
        by_cases hc : c = .waiting
        · subst hc
          obtain ⟨-, hmem | ⟨frame', payload', h⟩⟩ := hfits
          · exact .inl ⟨rfl, hmem⟩
          · rw [hpc] at h
            cases h
            exact absurd rfl hjk
        · exact .inr ⟨hc, hfits.mono (fun h => absurd h hc) fun h => absurd h hne⟩

/-- Whoever has given up is told nothing. -/
theorem gone_step {n n' : ReaderActor len P R} {l : ReaderMove} {xs : List (ℕ × FrameRead len)} {k : ℕ}
    (h : Moves d n l xs n') (hk : n.calls[k]? = some .gone) : n'.calls[k]? = some .gone := by
  have hmodify : ∀ (j : ℕ) (f : ReadCall R → ReadCall R), f .gone = .gone →
      (n.calls.modify j f)[k]? = some .gone := by
    intro j f hf
    rw [List.getElem?_modify, hk]
    by_cases hjk : j = k
    · simp [hjk, hf]
    · simp [hjk]
  have hfinish : ∀ m : ReaderActor len P R, m.calls[k]? = some .gone → m.finish.calls[k]? = some .gone := by
    intro m hm
    rw [finish_calls, hm]
    simp [ReadCall.dropSender]
  cases h with
  | completes p frame frame' j payload payload' object source hpc hrecv => exact hmodify j _ rfl
  | reads => exact hk
  | drops b p frame j payload w x hpc hx herror => exact hmodify j _ rfl
  | panics frame j payload hpc => exact hfinish (n.dropSender j) (hmodify j _ rfl)
  | rest l n' h hl =>
    cases h with
    | task l n' hsel =>
      cases hsel with
      | takes => exact hk
      | goesOn => exact hk
      | ends b w hpc hend => exact hfinish { n with parentRx := w } hk
      | completes p frame frame' j payload payload' object source w hw hpc hpoll hrecv => exact hmodify j _ rfl
      | reads => exact hk
      | drops b p frame j payload w hpc hend => exact hmodify j _ rfl
    | read | refused => exact (Cells.At.append ⟨_, hk, rfl⟩ _).elim fun c hc => by rw [hc.1, hc.2]
    | giveUp j hj =>
      by_cases hjk : j = k
      · rw [← hjk, hj] at hk
        cases hk
      · rw [List.getElem?_set_ne hjk]
        exact hk
    | hangUp => exact hk
    | outside => exact hk

/-! ## What callers are told -/

/-- What a call in the state `c` has come to is what the reads `xs` made for it gave. -/
structure Told (d : DataFrameReceiver len P R) (n : ReaderActor len P R) (xs : List (FrameRead len))
    (c : ReadCall R) : Prop where
  failed : ∀ e, c.returns = some (.error e) ↔ .error e ∈ xs
  completed : ∀ object, c.returns = some (.ok (some object)) ↔ (d.assemble xs).2 = some object
  ended : c.returns = some (.ok none) → n.pc = .done ∨ .eof ∈ xs ∨ .signal ∈ xs
  /-- the task of a connection takes its last arm -/
  arm : ∀ e, c.returns.map Arm.of = some (.fails e) ↔ .error e ∈ xs

/-- **Callers are told what the reads for their requests gave**, if they have not given up. -/
def Reported (d : DataFrameReceiver len P R) (es : List (ℕ × FrameRead len)) (n : ReaderActor len P R) : Prop :=
  ∀ k c, n.calls[k]? = some c → c ≠ .gone → Told d n (readsFor k es) c

/-- No call comes to an error. -/
theorem returns_ok {c : ReadCall R} {e : ℕ} : c.returns ≠ some (.error e) ∧ c.returns.map Arm.of ≠ some (.fails e) := by
  cases c <;> simp [ReadCall.returns, ReadCall.awaited, Reader.read, Except.map, Arm.of]

/-- The payload of a call that waits is not complete. -/
theorem Tracks.waits {es : List (ℕ × FrameRead len)} {n : ReaderActor len P R} (hn : Tracks d es n) {k : ℕ}
    (hk : n.calls[k]? = some .waiting) : (d.assemble (readsFor k es)).2 = none := by
  obtain ⟨hne, hmem | ⟨frame, payload, hpc⟩⟩ : n.Held k := hn.calls k _ hk
  · rw [(hn.queue hne k hmem).2]
    rfl
  · rw [(hn.serving frame k payload hpc).2.2.2]

/-- **What callers are told is right if and only if** nobody waited for a read that failed. -/
theorem reported_iff {es : List (ℕ × FrameRead len)} {n : ReaderActor len P R} (hn : Tracks d es n) :
    Reported d es n ↔ ∀ k e, .error e ∈ readsFor k es → n.calls[k]? = some .gone := by
  constructor
  · intro hr k e he
    cases hk : n.calls[k]? with
    | none =>
      rw [hn.fresh k hk] at he
      cases he
    | some c =>
      by_contra hc
      have htold := hr k c hk fun h => hc (by rw [h])
      exact returns_ok.1 ((htold.failed e).2 he)
  · intro hgone k c hk hc
    have hno : ∀ e, .error e ∉ readsFor k es := by
      intro e he
      have hg := hgone k e he
      rw [hk] at hg
      cases hg
      exact hc rfl
    have hfits := hn.calls k c hk
    refine ⟨fun e => ⟨fun h => absurd h returns_ok.1, fun h => absurd h (hno e)⟩, fun object => ?_, fun h => ?_,
      fun e => ⟨fun h => absurd h returns_ok.2, fun h => absurd h (hno e)⟩⟩
    · cases c with
      | waiting =>
        rw [hn.waits hk]
        simp [ReadCall.returns, ReadCall.awaited]
      | response object' =>
        rw [hfits.1]
        simp [ReadCall.returns, ReadCall.awaited, Reader.read, Except.map]
      | closed =>
        rw [hfits.1]
        simp [ReadCall.returns, ReadCall.awaited, Reader.read]
      | gone => exact absurd rfl hc
    · cases c with
      | waiting | gone => cases h
      | response object' => cases h
      | closed =>
        refine hfits.2.imp_right ?_
        rintro ⟨x, hx, hnot⟩
        cases x with
        | data => cases hnot
        | eof => exact .inl hx
        | error e => exact absurd hx (hno e)
        | signal => exact .inr hx

/-- If the socket fails in this step, it does so for a request whose caller has given up. -/
def Harmless (n : ReaderActor len P R) (l : ReaderMove) : Prop :=
  ∀ e frame k payload, l = .step (.frame .fut (.error e)) → n.pc = .reading frame k payload →
    n.calls[k]? = some .gone

/-- **A step leaves what callers are told right if and only if** it is harmless. -/
theorem reported_step {es : List (ℕ × FrameRead len)} {n : ReaderActor len P R} {l : ReaderMove}
    (hn : Tracks d es n) (hr : Reported d es n) :
    (∀ n', n.move d l = some n' → Reported d (es ++ n.reads l) n') ↔ Harmless n l := by
  constructor
  · rintro hall e frame k payload rfl hpc
    -- the read fails, and the sender is dropped without an answer
    have hmove : n.move d (.step (.frame .fut (.error e))) =
        some (({ n with pc := .request } : ReaderActor len P R).dropSender k) := by
      simp only [move, step, readFrame, hpc, supervisor, ReadFut.poll, Option.map_some]
    have hreads : n.reads (.step (.frame .fut (.error e))) = [(k, .error e)] := by
      simp only [ReaderActor.reads, hpc, supervisor, ReadFut.poll, Option.map_some]
    have hn' := tracks_step hn (moves_rule hmove)
    have hgone := (reported_iff hn').1 (hall _ hmove) k e (by rw [hreads, readsFor_concat]; simp)
    obtain ⟨c, hc, ⟨-, hcg⟩ | ⟨hne, -⟩⟩ := Cells.get_modify hgone
    · cases c <;> cases hcg
      exact hc
    · exact absurd rfl hne
  · intro hharm n' hmove
    have hmoves := moves_rule hmove
    refine (reported_iff (tracks_step hn hmoves)).2 fun k e he => gone_step hmoves ?_
    rw [mem_readsFor] at he
    rcases List.mem_append.1 he with he | he
    · exact (reported_iff hn).1 hr k e (mem_readsFor.2 he)
    · -- of all steps only this one adds an error
      revert he
      generalize n.reads l = xs at hmoves
      intro he
      cases hmoves with
      | rest => cases he
      | panics => cases he
      | completes => cases List.mem_singleton.1 he
      | reads => cases List.mem_singleton.1 he
      | drops b p frame k' payload w x hpc hx herror =>
        cases List.mem_singleton.1 he
        obtain ⟨rfl, rfl⟩ := (herror e).1 rfl
        exact hharm e frame k payload rfl hpc

end ReaderActor

open ReaderActor in
/-- **Read errors reach the caller**: in every state of a run of any requests, socket outcomes and
signals, callers are told what the reads for their requests gave, if and only if no read fails for
a request whose caller waits. -/
theorem errors_reported {m : Option SupervisorMessage} {ls : List ReaderMove} :
    Lts.Throughout (Lts.record (move d) reads) (fun q => Reported d q.2 q.1) (init len P R m, []) ls ↔
      Lts.Along (move d) Harmless (init len P R m) ls := by
  have hstart : Reported d [] (init len P R m) := by
    intro k c hk
    simp [init] at hk
  have htracks : ∀ q l q', Tracks d q.2 q.1 → Lts.record (move d) reads q l = some q' → Tracks d q'.2 q'.1 := by
    intro q l q' hq h
    obtain ⟨n', hmove, rfl⟩ := Lts.record_some.1 h
    exact tracks_step hq (moves_rule hmove)
  have hrecord : Lts.Along (Lts.record (move d) reads) (fun q l => Harmless q.1 l) (init len P R m, []) ls ↔
      Lts.Along (move d) Harmless (init len P R m) ls := Lts.Along.record_iff
  rw [← hrecord]
  refine (Lts.throughout_iff (P := fun q => Reported d q.2 q.1) (s := (init len P R m, [])) hstart).trans ?_
  constructor
  · intro hkeeps
    refine hkeeps.of_inv (I := fun q => Tracks d q.2 q.1 ∧ Reported d q.2 q.1) (fun q l q' hq hk h => ?_)
      (fun q l hq hk => ?_) ⟨tracks_init m, hstart⟩
    · exact ⟨htracks q l q' hq.1 h, hk hq.2 q' h⟩
    · exact (reported_step hq.1 hq.2).1 fun n' hmove =>
        hk hq.2 (n', q.2 ++ q.1.reads l) (Lts.record_some.2 ⟨n', hmove, rfl⟩)
  · intro hharm
    refine hharm.of_inv (I := fun q => Tracks d q.2 q.1) (fun q l q' hq _ h => htracks q l q' hq h)
      (fun q l hq hk hr q' h => ?_) (tracks_init m)
    obtain ⟨n', hmove, rfl⟩ := Lts.record_some.1 h
    exact (reported_step hq hr).2 hk n' hmove

/-- A request is taken, and the socket fails. -/
def failingRun : List ReaderMove := [.step .read, .step (.request .fut), .step (.frame .fut (.error 104))]

open ReaderActor in
/-- **A read error does not reach the caller**, who is told that the stream has ended. -/
theorem error_lost :
    (∃ n : ReaderActor 4 Unit (List UInt8), Lts.run (Lts.record (move pairs) reads)
        (init 4 Unit (List UInt8) none, []) failingRun = some (n, [(0, .error 104)]) ∧
      n.calls.map ReadCall.returns = [some (.ok none)]) ∧
    ¬ ∀ ls, Lts.Throughout (Lts.record (move pairs) reads) (fun q => Reported pairs q.2 q.1)
      (init 4 Unit (List UInt8) none, []) ls := by
  have hrun : ∃ n : ReaderActor 4 Unit (List UInt8), Lts.run (Lts.record (move pairs) reads)
      (init 4 Unit (List UInt8) none, []) failingRun = some (n, [(0, .error 104)]) ∧ n.calls = [.closed] :=
    ⟨_, rfl, rfl⟩
  obtain ⟨n, hrun, hcalls⟩ := hrun
  refine ⟨⟨n, hrun, by rw [hcalls]; rfl⟩, fun h => ?_⟩
  have htold := h failingRun failingRun [] _ (List.append_nil _).symm hrun 0 .closed (by rw [hcalls]; rfl) (by simp)
  have herror := (htold.failed 104).2 List.mem_cons_self
  cases herror

end Tokactor
