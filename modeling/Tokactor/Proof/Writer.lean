import Mathlib.Data.List.Forall2
import Mathlib.Data.List.Nodup
import Tokactor.Lib.Cells
import Tokactor.Lib.Lts
import Tokactor.Model.Writer

/-!
# What a writer task puts into its socket

* `WriterActor.Selects`: what the task can do in one step; the supervisor never sends `None`.
* `WriterActor.Kept`: the blocks in the socket, the requests they come from, and what the
  state of a call says about its data. Every step keeps this.
-/

namespace Tokactor

namespace WriterActor

/-! ## The steps of the task -/

/-- There is a signal to end. -/
def Signalled (n : WriterActor) : Prop :=
  n.shutdownRx = true ∨ n.parentRx.unseen = true ∨ n.parentRx.dropped = true

/-- The supervisor has sent nothing but `Shutdown`. -/
def Told (w : Watch) : Prop := w.unseen = true → w.value = some .shutdown

/-- A step of the writer task. -/
inductive Selects (n : WriterActor) : WriterLabel → WriterActor → Prop
  /-- a request is taken -/
  | takes (data : List UInt8) (k : ℕ) (rx : Chan (List UInt8 × ℕ)) (hpc : n.pc = .request)
      (hrx : n.writerRx.pop = some ((data, k), rx)) :
      Selects n (.request .fut) { n with writerRx := rx, pc := .writing data k 0 }
  /-- `write_all` comes back -/
  | writes (data : List UInt8) (k written : ℕ) (result : Except ℕ Unit) (hpc : n.pc = .writing data k written) :
      Selects n (.written .fut result) { n with
        source := n.source ++ (match result with
          | .ok _ => data.drop written
          | .error _ => [])
        results := n.results ++ [(k, result)], calls := n.calls.modify k (WriteCall.send result), pc := .request }
  /-- the loop ends at the receive -/
  | ends (b : Branch) (w : Watch) (hpc : n.pc = .request) (hw : Told w)
      (hend : n.writerRx.queue = [] ∧ n.writers = 0 ∨ b ≠ .fut ∧ n.Signalled) :
      Selects n (.request b) { n with parentRx := w }.finish
  /-- the loop ends while `write_all` is under way -/
  | breaks (b : Branch) (result : Except ℕ Unit) (w : Watch) (data : List UInt8) (k written : ℕ)
      (hpc : n.pc = .writing data k written) (hw : Told w) (hb : b ≠ .fut) (hend : n.Signalled) :
      Selects n (.written b result) (({ n with parentRx := w } : WriterActor).dropSender k).finish

/-- What the supervisor tells goes on as it was. -/
theorem told_supervisor {α : Type} {rx w : Watch} {shutdown : Bool} {fut : Option α} {b : Branch} {r : Supervise α}
    (ht : Told rx) (h : supervisor rx shutdown fut b = some (r, w)) : Told w ∧ (r = .continue_ → False) := by
  rcases supervisor_cases h with ⟨x, -, -, rfl, rfl⟩ | ⟨-, -, hv, hu, hr⟩
  · exact ⟨ht, fun h => by cases h⟩
  · refine ⟨fun h => hv.trans (ht (hu h)), ?_⟩
    rintro rfl
    rcases hr with h | h | ⟨-, hun, hnone⟩
    · cases h
    · cases h
    · rw [ht hun] at hnone
      cases hnone

theorem takeRequest_rule {n n' : WriterActor} {b : Branch} (ht : Told n.parentRx) (h : n.takeRequest b = some n') :
    Selects n (.request b) n' := by
  unfold takeRequest at h
  split at h
  · rename_i hpc
    simp only [Option.map_eq_some_iff] at h
    obtain ⟨⟨r, w⟩, hs, rfl⟩ := h
    obtain ⟨hw, hcont⟩ := told_supervisor ht hs
    rcases supervisor_cases hs with ⟨⟨o, rx⟩, rfl, hrecv, rfl, rfl⟩ | ⟨hb, hsig, -, -, hr⟩
    · unfold recv at hrecv
      split at hrecv
      · rename_i output rx' hpop
        cases hrecv
        exact .takes _ _ _ hpc hpop
      · rename_i hpop
        split at hrecv
        · rename_i hnone
          cases hrecv
          exact .ends _ _ hpc hw (.inl ⟨Chan.pop_none hpop, hnone⟩)
        · cases hrecv
    · have hends : Selects n (.request b) ({ n with parentRx := w } : WriterActor).finish :=
        .ends b w hpc hw (.inr ⟨hb, hsig⟩)
      rcases hr with rfl | rfl | ⟨rfl, -, -⟩
      · exact hends
      · exact hends
      · exact (hcont rfl).elim
  · cases h

theorem writeAll_rule {n n' : WriterActor} {b : Branch} {result : Except ℕ Unit} (ht : Told n.parentRx)
    (h : n.writeAll b result = some n') : Selects n (.written b result) n' := by
  unfold writeAll at h
  split at h
  · rename_i data k written hpc
    simp only [Option.map_eq_some_iff] at h
    obtain ⟨⟨r, w⟩, hs, rfl⟩ := h
    obtain ⟨hw, hcont⟩ := told_supervisor ht hs
    rcases supervisor_cases hs with ⟨x, rfl, hfut, rfl, rfl⟩ | ⟨hb, hsig, -, -, hr⟩
    · cases hfut
      exact .writes data k written result hpc
    · have hbreaks : Selects n (.written b result) (({ n with parentRx := w } : WriterActor).dropSender k).finish :=
        .breaks b result w data k written hpc hw hb hsig
      rcases hr with rfl | rfl | ⟨rfl, -, -⟩
      · exact hbreaks
      · exact hbreaks
      · exact (hcont rfl).elim
  · cases h

/-- A step of the task, of a call, of a `Writer` or of the socket, or a signal to the task. -/
inductive Steps (n : WriterActor) : WriterLabel → WriterActor → Prop
  | task (l : WriterLabel) (n' : WriterActor) (h : Selects n l n') : Steps n l n'
  | clone (h : n.writers ≠ 0) : Steps n .clone { n with writers := n.writers + 1 }
  | dropWriter : Steps n .dropWriter { n with writers := n.writers - 1 }
  | write (data : List UInt8) (h : n.writers ≠ 0) :
      Steps n (.write data) { n with calls := n.calls ++ [⟨data, .sending⟩] }
  | send (k : ℕ) (data : List UInt8) (rx : Chan (List UInt8 × ℕ)) (hc : n.calls[k]? = some ⟨data, .sending⟩)
      (hrx : n.writerRx.push (data, k) = some rx) :
      Steps n (.send k) { n with writerRx := rx, calls := n.calls.set k ⟨data, .waiting⟩ }
  | refuse (k : ℕ) (data : List UInt8) (hc : n.calls[k]? = some ⟨data, .sending⟩) (hclosed : n.writerRx.closed = true) :
      Steps n (.refuse k) { n with calls := n.calls.set k ⟨data, .returned (.error .brokenPipe)⟩ }
  | giveUp (k : ℕ) (data : List UInt8) (s : WriteState) (hc : n.calls[k]? = some ⟨data, s⟩)
      (hs : s = .sending ∨ s = .waiting) : Steps n (.giveUp k) { n with calls := n.calls.set k ⟨data, .gone⟩ }
  | signal (l : WriterLabel) (w : Watch) (b : Bool) (hl : l = .shutdown ∨ l = .died ∨ l = .readerShutdown)
      (hw : Told w) : Steps n l { n with parentRx := w, shutdownRx := b }
  | put (k : ℕ) (data : List UInt8) (j written : ℕ) (hpc : n.pc = .writing data j written) :
      Steps n (.put k) { n with
        source := n.source ++ (data.drop written).take k
        pc := .writing data j (written + k) }

/-- **Every step is one of these.** -/
theorem step_rule {n n' : WriterActor} {l : WriterLabel} (ht : Told n.parentRx) (h : n.step l = some n') :
    Steps n l n' := by
  cases l with
  | request b => exact .task _ _ (takeRequest_rule ht h)
  | written b result => exact .task _ _ (writeAll_rule ht h)
  | clone =>
    simp only [step] at h
    split at h <;> cases h
    exact .clone ‹_›
  | dropWriter =>
    cases h
    exact .dropWriter
  | shutdown =>
    cases h
    exact .signal _ _ _ (.inl rfl) fun _ => rfl
  | died =>
    cases h
    exact .signal _ _ _ (.inr (.inl rfl)) ht
  | readerShutdown =>
    cases h
    exact .signal _ _ _ (.inr (.inr rfl)) ht
  | write data =>
    simp only [step] at h
    split at h <;> cases h
    exact .write _ ‹_›
  | send k =>
    simp only [step] at h
    split at h
    · rename_i data hc
      rw [Option.map_eq_some_iff] at h
      obtain ⟨rx, hrx, rfl⟩ := h
      exact .send k data rx hc hrx
    · cases h
  | refuse k =>
    simp only [step] at h
    split at h
    · rename_i data hc
      split at h <;> cases h
      exact .refuse k data hc ‹_›
    · cases h
  | giveUp k =>
    simp only [step] at h
    split at h
    · rename_i data hc
      cases h
      exact .giveUp k data _ hc (.inl rfl)
    · rename_i data hc
      cases h
      exact .giveUp k data _ hc (.inr rfl)
    · cases h
  | put k =>
    simp only [step] at h
    split at h
    · rename_i data j written hpc
      split at h <;> cases h
      exact .put k data j written hpc
    · cases h

/-! ## The invariant -/

/-- The calls whose data the queue accepted, in this order. -/
def accepted (n : WriterActor) : List ℕ := n.writerRx.accepted.map Prod.snd

/-- The calls for which `write_all` came back. -/
def answered (n : WriterActor) : List ℕ := n.results.map Prod.fst

/-- The calls whose data is at hand or in the queue. -/
def pending (n : WriterActor) : List ℕ :=
  (match n.pc with
    | .writing _ k _ => [k]
    | _ => []) ++ n.writerRx.queue.map Prod.snd

/-- What a state of the call `k` says about its data. -/
def Accounted (n : WriterActor) (k : ℕ) : WriteState → Prop
  | .sending => k ∉ n.accepted
  | .waiting => k ∈ n.accepted ∧ k ∉ n.answered ∧ k ∈ n.pending ∧ n.pc ≠ .done
  | .returned (.ok _) => (k, .ok ()) ∈ n.results
  | .returned (.error (.socket e)) => (k, .error e) ∈ n.results
  | .returned (.error .brokenPipe) => k ∉ n.accepted ∧ n.writerRx.closed = true
  | .returned (.error .other) => k ∈ n.accepted ∧ k ∉ n.answered ∧ n.pc = .done
  | .gone => True

/-- A block in the socket, and the request it comes from: a part of the data, and all of it
when `write_all` has succeeded. -/
def Block (results : List (ℕ × Except ℕ Unit)) (w : List UInt8) (r : List UInt8 × ℕ) : Prop :=
  w <+: r.1 ∧ ((r.2, .ok ()) ∈ results → w = r.1)

/-- The socket got one block for each of the requests `ts`, in their order. -/
def Blocks (results : List (ℕ × Except ℕ Unit)) (source : List UInt8) (ts : List (List UInt8 × ℕ)) : Prop :=
  ∃ ws, source = ws.flatten ∧ List.Forall₂ (Block results) ws ts

/-- What is in the socket, by where the task stands. -/
def Put (n : WriterActor) : Prop :=
  match n.pc with
  | .request => Blocks n.results n.source n.writerRx.taken ∧ n.writerRx.taken.map Prod.snd = n.answered
  | .writing data k written =>
    ∃ source ts, n.writerRx.taken = ts ++ [(data, k)] ∧ n.source = source ++ data.take written ∧
      Blocks n.results source ts ∧ ts.map Prod.snd = n.answered
  | .done => Blocks n.results n.source n.writerRx.taken ∧ ∃ rest, n.writerRx.taken.map Prod.snd = n.answered ++ rest

structure Kept (n : WriterActor) : Prop where
  told : Told n.parentRx
  closed : n.pc = .done ↔ n.writerRx.closed = true
  unique : n.accepted.Nodup
  own : ∀ r ∈ n.writerRx.accepted, Cells.At n.calls r.2 fun c => c.data = r.1
  put : n.Put
  calls : ∀ k c, n.calls[k]? = some c → n.Accounted k c.state
  cap : 0 < n.writerRx.cap

theorem accepted_eq (n : WriterActor) : n.accepted = n.writerRx.taken.map Prod.snd ++ n.writerRx.queue.map Prod.snd := by
  rw [accepted, n.writerRx.history, List.map_append]

/-- One more block. -/
theorem Blocks.concat {results : List (ℕ × Except ℕ Unit)} {source w : List UInt8} {ts : List (List UInt8 × ℕ)}
    {r : List UInt8 × ℕ} (h : Blocks results source ts) (hw : Block results w r) :
    Blocks results (source ++ w) (ts ++ [r]) := by
  obtain ⟨ws, rfl, hws⟩ := h
  refine ⟨ws ++ [w], ?_, List.rel_append hws (.cons hw .nil)⟩
  rw [List.flatten_append, List.flatten_singleton]

/-- The result of another call changes nothing. -/
theorem Blocks.result {results : List (ℕ × Except ℕ Unit)} {source : List UInt8} {ts : List (List UInt8 × ℕ)}
    {k : ℕ} {result : Except ℕ Unit} (h : Blocks results source ts) (hk : k ∉ ts.map Prod.snd) :
    Blocks (results ++ [(k, result)]) source ts := by
  obtain ⟨ws, hs, hws⟩ := h
  refine ⟨ws, hs, ?_⟩
  clear hs
  induction hws with
  | nil => exact .nil
  | @cons w r ws ts hw hws ih =>
    rw [List.map_cons, List.mem_cons, not_or] at hk
    refine .cons ⟨hw.1, fun hr => hw.2 ?_⟩ (ih hk.2)
    rcases List.mem_append.1 hr with hr | hr
    · exact hr
    · rw [List.mem_singleton, Prod.mk.injEq] at hr
      exact absurd hr.1.symm hk.1

/-- The calls that were answered had their data taken; the one at hand is not among them. -/
theorem Kept.answered {n : WriterActor} (hn : Kept n) :
    ∃ rest, n.writerRx.taken.map Prod.snd = n.answered ++ rest ∧ ∀ data k written, n.pc = .writing data k written → k ∈ rest := by
  have hput := hn.put
  unfold Put at hput
  split at hput
  · rename_i hpc
    refine ⟨[], by rw [hput.2, List.append_nil], fun data k written h => ?_⟩
    rw [hpc] at h
    cases h
  · rename_i data k written hpc
    obtain ⟨source, ts, htaken, -, -, hts⟩ := hput
    refine ⟨[k], by rw [htaken, List.map_append, hts]; rfl, fun data' k' written' h => ?_⟩
    rw [hpc] at h
    cases h
    exact List.mem_singleton_self k
  · rename_i hpc
    obtain ⟨-, rest, hrest⟩ := hput
    refine ⟨rest, hrest, fun data k written h => ?_⟩
    rw [hpc] at h
    cases h

/-- What is pending was accepted, and not answered. -/
theorem Kept.pending {n : WriterActor} (hn : Kept n) {k : ℕ} (hk : k ∈ n.pending) :
    k ∈ n.accepted ∧ k ∉ n.answered := by
  obtain ⟨rest, hrest, hhand⟩ := hn.answered
  have hu := hn.unique
  rw [accepted_eq, hrest, List.append_assoc] at hu ⊢
  have hmem : k ∈ rest ++ n.writerRx.queue.map Prod.snd := by
    rcases List.mem_append.1 hk with hk | hk
    · split at hk
      · rename_i hpc
        rw [List.mem_singleton] at hk
        subst hk
        exact List.mem_append_left _ (hhand _ _ _ hpc)
      · cases hk
    · exact List.mem_append_right _ hk
  exact ⟨List.mem_append_right _ hmem, fun ha => List.disjoint_of_nodup_append hu ha hmem⟩

/-- The blocks in the socket are those of the requests taken; the one at hand is not complete. -/
theorem Kept.blocks {n : WriterActor} (hn : Kept n) : Blocks n.results n.source n.writerRx.taken := by
  have hput := hn.put
  unfold Put at hput
  split at hput
  · exact hput.1
  · rename_i data k written hpc
    obtain ⟨source, ts, htaken, hsource, hblocks, -⟩ := hput
    have hmem : k ∈ n.pending := by
      rw [WriterActor.pending, hpc]
      exact List.mem_append_left _ (List.mem_singleton_self k)
    rw [htaken, hsource]
    refine hblocks.concat ⟨List.take_prefix _ _, fun hr => absurd ?_ (hn.pending hmem).2⟩
    exact List.mem_map_of_mem (f := Prod.fst) hr
  · exact hput.1

/-- A call that does not wait is accounted for as before. -/
theorem Accounted.keep {n n' : WriterActor} {k : ℕ} {s : WriteState} (h : n.Accounted k s)
    (ha : k ∈ n'.accepted ↔ k ∈ n.accepted) (hc : n.writerRx.closed = true → n'.writerRx.closed = true)
    (hr : n.results ⊆ n'.results) (hpc : n.pc = .done → n'.pc = .done ∧ n'.results = n.results)
    (hw : s = .waiting → n'.Accounted k .waiting) : n'.Accounted k s := by
  unfold Accounted at h
  split at h
  · exact fun h' => h (ha.1 h')
  · exact hw rfl
  · exact hr h
  · exact hr h
  · exact ⟨fun h' => h.1 (ha.1 h'), hc h.2⟩
  · obtain ⟨hdone, hres⟩ := hpc h.2.2
    refine ⟨ha.2 h.1, ?_, hdone⟩
    rw [WriterActor.answered, hres]
    exact h.2.1
  · trivial

/-! ## The end of the task -/

@[simp]
theorem send_data (result : Except ℕ Unit) (c : WriteCall) : (c.send result).data = c.data := by
  unfold WriteCall.send
  split <;> rfl

theorem send_of_waiting (result : Except ℕ Unit) {c : WriteCall} (h : c.state = .waiting) :
    (c.send result).state = .returned (result.mapError .socket) := by
  rw [WriteCall.send, h]

theorem send_of_ne (result : Except ℕ Unit) {c : WriteCall} (h : c.state ≠ .waiting) : c.send result = c := by
  unfold WriteCall.send
  split
  · rename_i hw
    exact absurd hw h
  · rfl

@[simp]
theorem dropSender_data (c : WriteCall) : c.dropSender.data = c.data := by
  unfold WriteCall.dropSender
  split <;> rfl

theorem dropSender_of_ne {c : WriteCall} (h : c.state ≠ .waiting) : c.dropSender = c := by
  unfold WriteCall.dropSender
  split
  · rename_i hw
    exact absurd hw h
  · rfl

theorem dropSender_idem (c : WriteCall) : c.dropSender.dropSender = c.dropSender := by
  rcases c with ⟨data, s⟩
  cases s <;> rfl

/-- Dropping senders touches nothing but their calls. -/
theorem dropSenders_eq (q : List (List UInt8 × ℕ)) (n : WriterActor) :
    q.foldl (fun n r => n.dropSender r.2) n =
      { n with calls := (q.map Prod.snd).foldl (fun cs k => cs.modify k WriteCall.dropSender) n.calls } := by
  induction q generalizing n with
  | nil => rfl
  | cons r q ih =>
    rw [List.foldl_cons, ih]
    rfl

/-- Every sender in the queue is dropped. -/
theorem finish_calls (n : WriterActor) (k : ℕ) : n.finish.calls[k]? =
    n.calls[k]?.map fun c => if k ∈ n.writerRx.queue.map Prod.snd then c.dropSender else c := by
  rw [finish, dropSenders_eq]
  exact Cells.get_foldl_modify dropSender_idem _ _ _

/-- The rest of what `finish` does. -/
theorem finish_eq (n : WriterActor) : ∃ calls, calls.length = n.calls.length ∧
    n.finish = { n with pc := .done, writerRx := n.writerRx.close, calls := calls } :=
  ⟨_, Cells.length_foldl_modify _ _, by rw [finish, dropSenders_eq]⟩

/-- `n'` is `n` after the loop has ended: the senders that were pending are dropped. -/
structure Ended (n n' : WriterActor) : Prop where
  running : n.pc ≠ .done
  pc : n'.pc = .done
  rx : n'.writerRx = n.writerRx.close
  source : n'.source = n.source
  results : n'.results = n.results
  told : Told n'.parentRx
  calls : ∀ k, n'.calls[k]? = n.calls[k]?.map fun c => if k ∈ n.pending then c.dropSender else c

theorem ended_request {n : WriterActor} {w : Watch} (hpc : n.pc = .request) (hw : Told w) :
    Ended n ({ n with parentRx := w } : WriterActor).finish := by
  have hcalls := finish_calls { n with parentRx := w }
  obtain ⟨calls, -, h⟩ := finish_eq { n with parentRx := w }
  rw [h] at hcalls ⊢
  refine ⟨by rw [hpc]; simp, rfl, rfl, rfl, rfl, hw, fun k => ?_⟩
  rw [hcalls, pending, hpc]
  rfl

theorem ended_writing {n : WriterActor} {w : Watch} {data : List UInt8} {k written : ℕ}
    (hpc : n.pc = .writing data k written) (hw : Told w) :
    Ended n (({ n with parentRx := w } : WriterActor).dropSender k).finish := by
  have hcalls := finish_calls (({ n with parentRx := w } : WriterActor).dropSender k)
  obtain ⟨calls, -, h⟩ := finish_eq (({ n with parentRx := w } : WriterActor).dropSender k)
  rw [h] at hcalls ⊢
  refine ⟨by rw [hpc]; simp, rfl, rfl, rfl, rfl, hw, fun j => ?_⟩
  rw [hcalls, pending, hpc, dropSender, List.getElem?_modify]
  cases n.calls[j]? with
  | none => rfl
  | some c =>
    by_cases hk : k = j
    · by_cases hl : j ∈ n.writerRx.queue.map Prod.snd <;> simp [hk, hl, dropSender_idem]
    · have hk' : j ≠ k := fun h => hk h.symm
      by_cases hl : j ∈ n.writerRx.queue.map Prod.snd <;> simp [hk, hk', hl]

theorem Ended.kept {n n' : WriterActor} (hn : Kept n) (he : Ended n n') : Kept n' := by
  have hacc : n'.accepted = n.accepted := by rw [accepted, accepted, he.rx, Chan.close_accepted]
  refine ⟨he.told, ?_, ?_, ?_, ?_, ?_, by rw [he.rx, Chan.close_cap]; exact hn.cap⟩
  · rw [he.pc, he.rx]
    exact ⟨fun _ => rfl, fun _ => rfl⟩
  · rw [hacc]
    exact hn.unique
  · intro r hr
    rw [he.rx] at hr
    obtain ⟨c, hc, hdata⟩ := hn.own r hr
    refine ⟨_, by rw [he.calls, hc]; rfl, ?_⟩
    split
    · exact (dropSender_data c).trans hdata
    · exact hdata
  · obtain ⟨rest, hrest, -⟩ := hn.answered
    unfold Put
    rw [he.pc, he.rx, he.source, he.results, Chan.close_taken, WriterActor.answered, he.results]
    exact ⟨hn.blocks, rest, hrest⟩
  · intro k c' hc'
    rw [he.calls, Option.map_eq_some_iff] at hc'
    obtain ⟨c, hc, rfl⟩ := hc'
    have hold := hn.calls k c hc
    have hkeep : c.state ≠ .waiting → n'.Accounted k c.state := fun hw =>
      hold.keep (by rw [hacc]) (fun _ => by rw [he.rx, Chan.close_closed]) (by rw [he.results]; exact fun _ h => h)
        (fun h => absurd h he.running) fun h => absurd h hw
    have hans : n'.answered = n.answered := by rw [answered, answered, he.results]
    by_cases hw : c.state = .waiting
    · -- it waited for a sender that was pending
      rw [hw] at hold
      obtain ⟨ha, hu, hp, -⟩ := hold
      rw [if_pos hp, WriteCall.dropSender, hw]
      exact ⟨by rw [hacc]; exact ha, by rw [hans]; exact hu, he.pc⟩
    · -- the others have no sender to lose
      rw [dropSender_of_ne hw, ite_self]
      exact hkeep hw

/-! ## The steps keep the invariant -/

/-- While the task runs, its queue is open. -/
theorem Kept.opened {n : WriterActor} (hn : Kept n) (hpc : n.pc ≠ .done) : n.writerRx.closed = false := by
  rw [Bool.eq_false_iff]
  exact fun h => hpc (hn.closed.2 h)

/-- A request is taken. -/
theorem Kept.request {n : WriterActor} (hn : Kept n) {data : List UInt8} {k : ℕ} {rx : Chan (List UInt8 × ℕ)}
    (hpc : n.pc = .request) (hrx : n.writerRx.pop = some ((data, k), rx)) :
    Kept { n with writerRx := rx, pc := .writing data k 0 } := by
  obtain ⟨hqueue, hcap, hclosed, haccepted, htaken⟩ := Chan.pop_cases hrx
  have hacc : accepted { n with writerRx := rx, pc := .writing data k 0 } = n.accepted := by
    rw [accepted, haccepted, accepted]
  have hopen : n.writerRx.closed = false := hn.opened fun h => by rw [hpc] at h; cases h
  have hput := hn.put
  simp only [Put, hpc] at hput
  refine ⟨hn.told, ?_, ?_, ?_, ?_, fun j c hc => ?_, by rw [hcap]; exact hn.cap⟩
  · simp [hclosed, hopen]
  · rw [hacc]
    exact hn.unique
  · intro r hr
    rw [haccepted] at hr
    exact hn.own r hr
  · -- nothing of the data has been put
    refine ⟨n.source, n.writerRx.taken, htaken, ?_, hput.1, hput.2⟩
    rw [List.take_zero, List.append_nil]
  · refine (hn.calls j c hc).keep (by rw [hacc]) (fun h => hclosed.trans h) (fun _ h => h)
      (fun h => by rw [hpc] at h; cases h) fun hw => ?_
    have hold := hn.calls j c hc
    rw [hw] at hold
    obtain ⟨ha, hu, hp, -⟩ := hold
    refine ⟨by rw [hacc]; exact ha, hu, ?_, by simp⟩
    simpa [WriterActor.pending, hpc, hqueue] using hp

/-- What `write_all` has put when it comes back: all of the data, when it has succeeded. -/
theorem Blocks.returned {results : List (ℕ × Except ℕ Unit)} {source data : List UInt8}
    {ts : List (List UInt8 × ℕ)} {k : ℕ} (result : Except ℕ Unit) (written : ℕ) (h : Blocks results source ts)
    (hts : k ∉ ts.map Prod.snd) (hk : k ∉ results.map Prod.fst) :
    Blocks (results ++ [(k, result)])
      (source ++ data.take written ++ (match result with
        | .ok _ => data.drop written
        | .error _ => [])) (ts ++ [(data, k)]) := by
  have hrest : Blocks (results ++ [(k, result)]) source ts := h.result hts
  cases result with
  | ok u =>
    have hall := hrest.concat (r := (data, k)) ⟨List.prefix_refl data, fun _ => rfl⟩
    rw [List.append_assoc, List.take_append_drop]
    exact hall
  | error e =>
    have hpart : ((k, Except.ok ()) ∈ results ++ [(k, Except.error e)] → data.take written = data) := by
      intro hr
      rcases List.mem_append.1 hr with hr | hr
      · exact absurd (List.mem_map_of_mem (f := Prod.fst) hr) hk
      · simp at hr
    rw [List.append_nil]
    exact hrest.concat ⟨List.take_prefix written data, hpart⟩

/-- `write_all` comes back, and the caller gets its result. -/
theorem Kept.written {n : WriterActor} (hn : Kept n) {data : List UInt8} {k written : ℕ} {result : Except ℕ Unit}
    (hpc : n.pc = .writing data k written) :
    Kept { n with
      source := n.source ++ (match result with
        | .ok _ => data.drop written
        | .error _ => [])
      results := n.results ++ [(k, result)], calls := n.calls.modify k (WriteCall.send result), pc := .request } := by
  have hput := hn.put
  simp only [Put, hpc] at hput
  obtain ⟨source, ts, htaken, hsource, hblocks, hts⟩ := hput
  have hhand : k ∈ n.pending := by
    rw [WriterActor.pending, hpc]
    exact List.mem_append_left _ (List.mem_singleton_self k)
  obtain ⟨hkacc, hknew⟩ := hn.pending hhand
  have hopen : n.writerRx.closed = false := hn.opened fun h => by rw [hpc] at h; cases h
  refine ⟨hn.told, ?_, hn.unique, ?_, ⟨?_, ?_⟩, fun j c' hc' => ?_, hn.cap⟩
  · simp [hopen]
  · intro r hr
    obtain ⟨c, hc, hdata⟩ := hn.own r hr
    refine ⟨_, by rw [List.getElem?_modify, hc]; rfl, ?_⟩
    dsimp only
    split
    · exact (send_data result c).trans hdata
    · exact hdata
  · rw [htaken, hsource]
    exact hblocks.returned result written (by rw [hts]; exact hknew) hknew
  · rw [htaken, List.map_append, hts, WriterActor.answered, WriterActor.answered, List.map_append]
    rfl
  · rw [List.getElem?_modify, Option.map_eq_map, Option.map_eq_some_iff] at hc'
    obtain ⟨c, hc, rfl⟩ := hc'
    have hold := hn.calls j c hc
    by_cases hwait : k = j ∧ c.state = .waiting
    · -- the call gets its answer
      obtain ⟨rfl, hw⟩ := hwait
      rw [if_pos rfl, send_of_waiting result hw]
      have hlast : (k, result) ∈ n.results ++ [(k, result)] := List.mem_append_right _ (List.mem_singleton_self _)
      cases result <;> exact hlast
    · -- every other call goes on as it was
      have hsame : (if k = j then c.send result else c) = c := by
        split
        · rename_i hkj
          exact send_of_ne result fun hw => hwait ⟨hkj, hw⟩
        · rfl
      rw [hsame]
      refine hold.keep Iff.rfl id (fun _ h => List.mem_append_left _ h) (fun h => by rw [hpc] at h; cases h) fun hw => ?_
      rw [hw] at hold
      obtain ⟨ha, hu, hp, -⟩ := hold
      have hkj : j ≠ k := fun h => hwait ⟨h.symm, hw⟩
      refine ⟨ha, ?_, ?_, by simp⟩
      · rw [WriterActor.answered, List.map_append, List.mem_append, not_or]
        exact ⟨hu, by simpa using hkj⟩
      · simpa [WriterActor.pending, hpc, hkj] using hp

theorem Selects.kept {n n' : WriterActor} {l : WriterLabel} (hn : Kept n) (hs : Selects n l n') : Kept n' := by
  cases hs with
  | takes data k rx hpc hrx => exact hn.request hpc hrx
  | writes data k written result hpc => exact hn.written hpc
  | ends b w hpc hw hend => exact (ended_request hpc hw).kept hn
  | breaks b result w data k written hpc hw hb hend => exact (ended_writing hpc hw).kept hn

/-- A call goes on by itself. -/
theorem Kept.set {n : WriterActor} (hn : Kept n) {k : ℕ} {data : List UInt8} {s s' : WriteState}
    (hc : n.calls[k]? = some ⟨data, s⟩) (h : n.Accounted k s') : Kept { n with calls := n.calls.set k ⟨data, s'⟩ } := by
  refine ⟨hn.told, hn.closed, hn.unique, fun r hr => ?_, hn.put, fun j c' hc' => ?_, hn.cap⟩
  · exact (hn.own r hr).set hc id
  · by_cases hkj : k = j
    · subst hkj
      rw [List.getElem?_set_self (List.getElem?_eq_some_iff.1 hc).1] at hc'
      cases hc'
      exact h
    · rw [List.getElem?_set_ne hkj] at hc'
      exact hn.calls j c' hc'

/-- The queue accepts the data of a call. -/
theorem Kept.send {n : WriterActor} (hn : Kept n) {k : ℕ} {data : List UInt8} {rx : Chan (List UInt8 × ℕ)}
    (hc : n.calls[k]? = some ⟨data, .sending⟩) (hrx : n.writerRx.push (data, k) = some rx) :
    Kept { n with writerRx := rx, calls := n.calls.set k ⟨data, .waiting⟩ } := by
  obtain ⟨hopen, -, hcap, hopen', hqueue, haccepted, htaken⟩ := Chan.push_cases hrx
  have hnew : k ∉ n.accepted := hn.calls k _ hc
  have hrunning : n.pc ≠ .done := fun h => by
    rw [hn.closed.1 h] at hopen
    cases hopen
  have hacc : rx.accepted.map Prod.snd = n.accepted ++ [k] := by rw [haccepted, List.map_append]; rfl
  have hlt : k < n.calls.length := (List.getElem?_eq_some_iff.1 hc).1
  have hpend : ∀ j, j ∈ n.pending ∨ j = k →
      j ∈ WriterActor.pending { n with writerRx := rx, calls := n.calls.set k ⟨data, .waiting⟩ } := by
    intro j hj
    have hmap : rx.queue.map Prod.snd = n.writerRx.queue.map Prod.snd ++ [k] := by rw [hqueue, List.map_append]; rfl
    rw [WriterActor.pending, hmap, ← List.append_assoc, List.mem_append, List.mem_singleton]
    exact hj
  refine ⟨hn.told, ?_, ?_, fun r hr => ?_, ?_, fun j c' hc' => ?_, by rw [hcap]; exact hn.cap⟩
  · rw [hopen']
    exact ⟨fun h => absurd h hrunning, fun h => by cases h⟩
  · rw [accepted, hacc]
    refine List.Nodup.append hn.unique (List.nodup_singleton k) ?_
    rw [List.disjoint_singleton]
    exact hnew
  · rw [haccepted, List.mem_append, List.mem_singleton] at hr
    rcases hr with hr | rfl
    · exact (hn.own r hr).set hc id
    · exact Cells.At.set_self hlt rfl
  · have hput := hn.put
    unfold Put at hput ⊢
    rw [htaken]
    exact hput
  · by_cases hkj : k = j
    · -- the call waits now, and nobody has answered it
      subst hkj
      rw [List.getElem?_set_self hlt] at hc'
      cases hc'
      obtain ⟨rest, hrest, -⟩ := hn.answered
      refine ⟨?_, fun ha => hnew ?_, hpend k (.inr rfl), hrunning⟩
      · rw [accepted, hacc]
        exact List.mem_append_right _ (List.mem_singleton_self k)
      · rw [accepted_eq, hrest]
        exact List.mem_append_left _ (List.mem_append_left _ ha)
    · rw [List.getElem?_set_ne hkj] at hc'
      have hold := hn.calls j c' hc'
      have hiff : j ∈ rx.accepted.map Prod.snd ↔ j ∈ n.accepted := by
        rw [hacc, List.mem_append, List.mem_singleton]
        exact ⟨fun h => h.resolve_right fun h => hkj h.symm, .inl⟩
      refine hold.keep hiff (fun h => ?_) (fun _ h => h) (fun h => absurd h hrunning) fun hw => ?_
      · rw [hopen] at h
        cases h
      · rw [hw] at hold
        exact ⟨hiff.2 hold.1, hold.2.1, hpend j (.inl hold.2.2.1), hrunning⟩

/-- A call starts; no data was accepted for it. -/
theorem Kept.write {n : WriterActor} (hn : Kept n) (data : List UInt8) :
    Kept { n with calls := n.calls ++ [⟨data, .sending⟩] } := by
  refine ⟨hn.told, hn.closed, hn.unique, fun r hr => (hn.own r hr).append _, hn.put, fun j c hc => ?_, hn.cap⟩
  rcases Nat.lt_trichotomy j n.calls.length with hj | rfl | hj
  · rw [List.getElem?_append_left hj] at hc
    exact hn.calls j c hc
  · rw [List.getElem?_concat_length] at hc
    cases hc
    intro hmem
    obtain ⟨r, hr, heq⟩ := List.mem_map.1 hmem
    have hlt := (hn.own r hr).lt
    omega
  · rw [List.getElem?_eq_none (by rw [List.length_append]; exact hj)] at hc
    cases hc

/-- The socket takes a part of the data at hand. -/
theorem Kept.takes {n : WriterActor} (hn : Kept n) {data : List UInt8} {j written : ℕ} (hpc : n.pc = .writing data j written)
    (k : ℕ) : Kept { n with source := n.source ++ (data.drop written).take k, pc := .writing data j (written + k) } := by
  have hput := hn.put
  simp only [Put, hpc] at hput
  obtain ⟨source, ts, htaken, hsource, hblocks, hts⟩ := hput
  have hopen : n.writerRx.closed = false := by
    have hclosed := hn.closed
    rw [hpc] at hclosed
    simpa using hclosed
  refine ⟨hn.told, ?_, hn.unique, hn.own, ⟨source, ts, htaken, ?_, hblocks, hts⟩, fun i c hc => ?_, hn.cap⟩
  · simp [hopen]
  · show n.source ++ _ = _
    rw [hsource, List.append_assoc, ← List.take_add]
  · have hold := hn.calls i c hc
    refine hold.keep Iff.rfl id (fun _ h => h) (fun h => by rw [hpc] at h; cases h) fun hw => ?_
    rw [hw] at hold
    obtain ⟨ha, hu, hp, -⟩ := hold
    refine ⟨ha, hu, ?_, by simp⟩
    simpa [WriterActor.pending, hpc] using hp

theorem kept_step {n n' : WriterActor} {l : WriterLabel} (hn : Kept n) (h : n.step l = some n') : Kept n' := by
  cases step_rule hn.told h with
  | task l n' hs => exact hs.kept hn
  | clone | dropWriter => exact ⟨hn.told, hn.closed, hn.unique, hn.own, hn.put, hn.calls, hn.cap⟩
  | write data hpos => exact hn.write data
  | send k data rx hc hrx => exact hn.send hc hrx
  | refuse k data hc hclosed => exact hn.set hc ⟨hn.calls k _ hc, hclosed⟩
  | giveUp k data s hc hs => exact hn.set hc trivial
  | signal l w b hl hw => exact ⟨hw, hn.closed, hn.unique, hn.own, hn.put, hn.calls, hn.cap⟩
  | put k data j written hpc => exact hn.takes hpc k

theorem kept_run {m : Option SupervisorMessage} {ls : List WriterLabel} {n : WriterActor}
    (hr : Lts.run step (init m) ls = some n) : Kept n := by
  have h0 : Kept (init m) := by
    refine ⟨fun h => (by cases h), by simp [init], List.nodup_nil, fun r hr => (by cases hr), ?_, fun k c hc => (by cases hc),
      by simp [init]⟩
    exact ⟨⟨[], rfl, .nil⟩, rfl⟩
  exact Lts.run_inv (fun _ _ _ hn h => kept_step hn h) h0 hr

end WriterActor

end Tokactor
