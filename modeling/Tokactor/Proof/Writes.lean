import Tokactor.Lib.Tally
import Tokactor.Proof.Writer

/-!
# How the calls of a writer return

* `returned_run`: a call that has returned stays as it is.
* `todo_step`, `stuck_returned`: the task and the calls go on only so long, and then every
  call has returned.
* `writes_kept`: all that is said of `Writer::write`, for every run.
-/

namespace Tokactor

/-- A step of the task, or of a call by itself. -/
def WriterLabel.works : WriterLabel → Bool
  | .send _ | .refuse _ | .request _ | .written _ _ => true
  | _ => false

namespace WriterActor

/-! ## A call returns once -/

/-- What a step does to a call that is not under way. -/
theorem settled_step {n n' : WriterActor} {l : WriterLabel} (hn : Kept n) (h : n.step l = some n') {k : ℕ} {c : WriteCall}
    (hc : n.calls[k]? = some c) (hs : c.underWay = false) : n'.calls[k]? = some c := by
  -- the step sets another call
  have hset : ∀ {j : ℕ} {c' : WriteCall} (a : WriteCall), n.calls[j]? = some c' → c'.underWay = true →
      (n.calls.set j a)[k]? = some c := by
    intro j c' a hj hs'
    have hjk : j ≠ k := by
      rintro rfl
      rw [hj] at hc
      cases hc
      rw [hs] at hs'
      cases hs'
    rw [List.getElem?_set_ne hjk, hc]
  have hidle : c.state ≠ .waiting := by
    intro hw
    rw [WriteCall.underWay, hw] at hs
    cases hs
  have hends : Ended n n' → n'.calls[k]? = some c := by
    intro he
    rw [he.calls, hc, Option.map_some, dropSender_of_ne hidle, ite_self]
  cases step_rule hn.told h with
  | task l n' hs =>
    cases hs with
    | takes data j rx hpc hrx => exact hc
    | writes data j written result hpc =>
      rw [List.getElem?_modify, hc, Option.map_eq_map, Option.map_some, send_of_ne result hidle, ite_self]
    | ends b w hpc hw hend => exact hends (ended_request hpc hw)
    | breaks b result w data j written hpc hw hb hend => exact hends (ended_writing hpc hw)
  | clone | dropWriter | signal | put => exact hc
  | write data hpos => rw [List.getElem?_append_left (List.getElem?_eq_some_iff.1 hc).1, hc]
  | send j data rx hj hrx => exact hset _ hj rfl
  | refuse j data hj hclosed => exact hset _ hj rfl
  | giveUp j data s hj hs' => exact hset _ hj (by rcases hs' with rfl | rfl <;> rfl)

theorem returned_run {n n' : WriterActor} {ls : List WriterLabel} (hn : Kept n) (h : Lts.run step n ls = some n')
    {k : ℕ} {c : WriteCall} {r : Except WriteError Unit} (hc : n.calls[k]? = some c) (hr : c.state = .returned r) :
    n'.calls[k]? = some c :=
  (Lts.run_inv (I := fun n' => Kept n' ∧ n'.calls[k]? = some c)
    (fun _ _ _ hi h => ⟨kept_step hi.1 h, settled_step hi.1 h hi.2 (by rw [WriteCall.underWay, hr])⟩) ⟨hn, hc⟩ h).2

/-! ## A call returns at last -/

/-- Counts the calls whose data is neither accepted nor refused. -/
def WriteCall.isSending (c : WriteCall) : Bool :=
  match c.state with
  | .sending => true
  | _ => false

/-- What is left to do. -/
def todo (n : WriterActor) : ℕ :=
  4 * n.calls.countP WriteCall.isSending + 2 * n.writerRx.queue.length +
    match n.pc with
    | .request => 1
    | .writing _ _ _ => 2
    | .done => 0

theorem sending_dropSender (c : WriteCall) : WriteCall.isSending c.dropSender = WriteCall.isSending c := by
  rcases c with ⟨data, s⟩
  cases s <;> rfl

theorem Ended.todo {n n' : WriterActor} (he : Ended n n') : n'.todo < n.todo := by
  have hcount : n'.calls.countP WriteCall.isSending = n.calls.countP WriteCall.isSending := by
    refine Tally.tally_congr _ fun i => ?_
    rw [he.calls]
    cases n.calls[i]? with
    | none => rfl
    | some c =>
      rw [Option.map_some, Option.map_some, Option.map_some]
      split
      · rw [sending_dropSender]
      · rfl
  have hpc := he.running
  rw [WriterActor.todo, WriterActor.todo, hcount, he.pc, he.rx, Chan.close_queue]
  cases hp : n.pc with
  | request => simp
  | writing data k written => simp
  | done => exact absurd hp hpc

theorem todo_step {n n' : WriterActor} {l : WriterLabel} (hn : Kept n) (hl : l.works = true) (h : n.step l = some n') :
    n'.todo < n.todo := by
  cases step_rule hn.told h with
  | task l n' hs =>
    cases hs with
    | takes data k rx hpc hrx =>
      have hqueue := congrArg List.length (Chan.pop_cases hrx).1
      rw [List.length_cons] at hqueue
      simp only [todo, hpc]
      omega
    | writes data k written result hpc =>
      -- the answer goes to a call that does not send
      have hcount : (n.calls.modify k (WriteCall.send result)).countP WriteCall.isSending =
          n.calls.countP WriteCall.isSending := by
        refine Tally.tally_congr _ fun i => ?_
        rw [List.getElem?_modify]
        cases n.calls[i]? with
        | none => rfl
        | some c =>
          rw [Option.map_eq_map, Option.map_some, Option.map_some, Option.map_some]
          split
          · rcases c with ⟨data, s⟩
            cases s <;> rfl
          · rfl
      simp only [todo, hpc, hcount]
      omega
    | ends b w hpc hw hend => exact (ended_request hpc hw).todo
    | breaks b result w data k written hpc hw hb hend => exact (ended_writing hpc hw).todo
  | send k data rx hk hrx =>
    obtain ⟨-, -, -, -, hqueue, -, -⟩ := Chan.push_cases hrx
    have hset : (n.calls.set k ⟨data, .waiting⟩).countP WriteCall.isSending + 1 =
        n.calls.countP WriteCall.isSending + 0 := Tally.tally_set WriteCall.isSending hk _
    have hlen := congrArg List.length hqueue
    rw [List.length_append, List.length_singleton] at hlen
    simp only [todo]
    omega
  | refuse k data hk hclosed =>
    have hset : (n.calls.set k ⟨data, .returned (.error .brokenPipe)⟩).countP WriteCall.isSending + 1 =
        n.calls.countP WriteCall.isSending + 0 := Tally.tally_set WriteCall.isSending hk _
    simp only [todo]
    omega
  | signal l w b hl' hw => rcases hl' with rfl | rfl | rfl <;> cases hl
  | clone | dropWriter | write | giveUp | put => cases hl

/-- Neither the task nor a call by itself can go on. -/
def Stuck (n : WriterActor) : Prop := ∀ l, l.works = true → n.step l = none

/-- Then no call waits. -/
theorem stuck_returned {n : WriterActor} (hn : Kept n) (hs : n.Stuck) {k : ℕ} {c : WriteCall}
    (hc : n.calls[k]? = some c) : c.state = .gone ∨ ∃ r, c.state = .returned r := by
  -- `write_all` can always come back
  have hnot : ∀ data j written, n.pc ≠ .writing data j written := by
    intro data j written hpc
    have h := hs (.written .fut (.ok ())) rfl
    simp [step, writeAll, hpc, supervisor] at h
  -- and a request that is queued can be taken
  have hempty : n.pc = .request → n.writerRx.queue = [] := by
    intro hpc
    have h := hs (.request .fut) rfl
    cases hpop : n.writerRx.pop with
    | some p => simp [step, takeRequest, hpc, supervisor, recv, hpop] at h
    | none => exact Chan.pop_none hpop
  cases hstate : c.state with
  | gone => exact .inl rfl
  | returned r => exact .inr ⟨r, rfl⟩
  | waiting =>
    have hacc := hn.calls k c hc
    rw [hstate] at hacc
    obtain ⟨-, -, hp, hrunning⟩ := hacc
    cases hpc : n.pc with
    | writing data j written => exact absurd hpc (hnot data j written)
    | done => exact absurd hpc hrunning
    | request =>
      rw [pending, hpc, hempty hpc] at hp
      cases hp
  | sending =>
    obtain ⟨data, s⟩ := c
    cases hstate
    have hrefuse := hs (.refuse k) rfl
    have hsend := hs (.send k) rfl
    simp only [step, hc] at hrefuse hsend
    cases hclosed : n.writerRx.closed with
    | true => simp [hclosed] at hrefuse
    | false =>
      have hpc : n.pc = .request := by
        cases hpc : n.pc with
        | request => rfl
        | writing data j written => exact absurd hpc (hnot data j written)
        -- the queue of a task that is over is closed
        | done =>
          rw [hn.closed.1 hpc] at hclosed
          cases hclosed
      have hq := hempty hpc
      simp [Chan.push, hclosed, hq, hn.cap] at hsend

/-! ## The blocks and their calls -/

/-- What holds of the socket and the calls: there is one block for each request taken, in the
order the queue accepted them, and it is all of the data when the call returned `Ok`; no call
has its data accepted twice; and a call returned what its data met with. -/
structure Whole (n : WriterActor) : Prop where
  blocks : ∃ ws : List (List UInt8), n.source = ws.flatten ∧ List.Forall₂ (fun w r => w <+: r.1) ws n.writerRx.taken ∧
    ∀ (k : ℕ) (c : WriteCall), n.calls[k]? = some c → c.state = .returned (.ok ()) →
      ∃ i : ℕ, n.writerRx.taken[i]? = some (c.data, k) ∧ ws[i]? = some c.data
  order : n.writerRx.taken <+: n.writerRx.accepted
  once : n.accepted.Nodup
  calls : ∀ k c, n.calls[k]? = some c → n.Accounted k c.state
  processed : ∀ (k : ℕ) (r : Except ℕ Unit), (k, r) ∈ n.results →
    Cells.At n.calls k fun c => c.state = .returned (r.mapError .socket) ∨ c.state = .gone

/-- A call was answered at most once. -/
theorem Kept.results {n : WriterActor} (hn : Kept n) {k : ℕ} {r r' : Except ℕ Unit} (h : (k, r) ∈ n.results)
    (h' : (k, r') ∈ n.results) : r = r' := by
  obtain ⟨rest, hrest, -⟩ := hn.answered
  have hu := hn.unique
  rw [accepted_eq, hrest, List.append_assoc] at hu
  have hnodup : (n.results.map Prod.fst).Nodup := (List.nodup_append'.1 hu).1
  exact congrArg Prod.snd (List.inj_on_of_nodup_map hnodup h h' rfl)

/-- What was answered was taken out of the queue, with the data of the call. -/
theorem Kept.result_taken {n : WriterActor} (hn : Kept n) {k : ℕ} {r : Except ℕ Unit} (hr : (k, r) ∈ n.results) :
    k ∈ n.answered ∧ ∃ c, n.calls[k]? = some c ∧ (c.data, k) ∈ n.writerRx.taken := by
  obtain ⟨rest, hrest, -⟩ := hn.answered
  have hans : k ∈ n.answered := List.mem_map_of_mem (f := Prod.fst) hr
  have htaken : k ∈ n.writerRx.taken.map Prod.snd := by
    rw [hrest]
    exact List.mem_append_left _ hans
  obtain ⟨⟨data, k'⟩, hmem, rfl⟩ := List.mem_map.1 htaken
  have hinit : n.writerRx.taken <+: n.writerRx.accepted := ⟨_, n.writerRx.history.symm⟩
  obtain ⟨c, hc, hdata⟩ := hn.own _ (hinit.subset hmem)
  refine ⟨hans, c, hc, ?_⟩
  rw [hdata]
  exact hmem

/-- A call that was answered has returned the answer, or is gone. -/
theorem Kept.result_state {n : WriterActor} (hn : Kept n) {k : ℕ} {r : Except ℕ Unit} (hr : (k, r) ∈ n.results)
    {c : WriteCall} (hc : n.calls[k]? = some c) : c.state = .returned (r.mapError .socket) ∨ c.state = .gone := by
  obtain ⟨hans, c', hc', hmem⟩ := hn.result_taken hr
  have hacc : k ∈ n.accepted := by
    rw [accepted_eq]
    exact List.mem_append_left _ (List.mem_map_of_mem (f := Prod.snd) hmem)
  have hstate := hn.calls k c hc
  unfold Accounted at hstate
  split at hstate
  · exact absurd hacc hstate
  · exact absurd hans hstate.2.1
  · rename_i hs
    rw [hs, hn.results hr hstate]
    exact .inl rfl
  · rename_i e hs
    rw [hs, hn.results hr hstate]
    exact .inl rfl
  · exact absurd hacc hstate.1
  · exact absurd hans hstate.2.1
  · rename_i hs
    exact .inr hs

theorem Kept.whole {n : WriterActor} (hn : Kept n) : n.Whole := by
  refine ⟨?_, ⟨_, n.writerRx.history.symm⟩, hn.unique, hn.calls, ?_⟩
  · obtain ⟨ws, hs, hws⟩ := hn.blocks
    obtain ⟨hlen, hget⟩ := List.forall₂_iff_get.1 hws
    refine ⟨ws, hs, hws.imp fun _ _ h => h.1, fun k c hc hok => ?_⟩
    have hres := hn.calls k c hc
    rw [hok] at hres
    obtain ⟨-, c', hc', hmem⟩ := hn.result_taken hres
    rw [hc] at hc'
    cases hc'
    -- the block of the request is all of its data
    obtain ⟨i, hi, hti⟩ := List.getElem_of_mem hmem
    have hblock := (hget i (by omega) hi).2
    rw [List.get_eq_getElem, List.get_eq_getElem, hti] at hblock
    refine ⟨i, by rw [List.getElem?_eq_getElem hi, hti], ?_⟩
    rw [List.getElem?_eq_getElem (by omega), hblock hres]
  · intro k r hr
    obtain ⟨-, c, hc, -⟩ := hn.result_taken hr
    exact ⟨c, hc, hn.result_state hr hc⟩

end WriterActor

open WriterActor in
/-- **The writer keeps the data whole**: in every run, what is in the socket are the blocks of
the requests taken, in the order of their acceptance, complete for the calls that returned
`Ok`; a call returns what its data met with, and only once; and when neither the task nor a
call can go on, which is after finitely many of their steps, every call has returned. -/
theorem writes_kept {m : Option SupervisorMessage} {ls : List WriterLabel} {n : WriterActor}
    (hr : Lts.run step (init m) ls = some n) :
    n.Whole ∧
      (∀ ls' n', Lts.run step n ls' = some n' → ∀ (k : ℕ) (c : WriteCall) r, n.calls[k]? = some c → c.state = .returned r →
        n'.calls[k]? = some c) ∧
      ∀ ls' n', (∀ l ∈ ls', l.works = true) → Lts.run step n ls' = some n' → ls'.length ≤ n.todo ∧
        (n'.Stuck → ∀ (k : ℕ) (c : WriteCall), n'.calls[k]? = some c → c.state = .gone ∨ ∃ r, c.state = .returned r) := by
  have hn := kept_run hr
  refine ⟨hn.whole, fun ls' n' h k c r hc hs => returned_run hn h hc hs, fun ls' n' hl h => ⟨?_, fun hs k c hc => ?_⟩⟩
  · have hlen := Lts.run_length (I := Kept) (P := fun _ l => l.works = true) (f := todo)
      (fun _ _ _ hi hp h => ⟨kept_step hi h, todo_step hi hp h⟩) hn (.of_labels hl) h
    omega
  · exact stuck_returned (Lts.run_inv (I := Kept) (fun _ _ _ hi h => kept_step hi h) hn h) hs hc

/-- Two calls are answered, the second one with an error of the socket; the supervisor then
ends the task in the middle of the third block, with a fourth call in the queue, and a fifth
one is refused. -/
def cutRun : List WriterLabel :=
  [.write [1, 2, 3], .clone, .write [4, 5], .write [6, 7], .write [8], .write [9], .send 1, .send 0, .request .fut, .put 1,
    .written .fut (.ok ()), .request .fut, .put 2, .written .fut (.error 32), .send 2, .request .fut, .put 1, .send 3,
    .shutdown, .written .parent (.ok ()), .refuse 4]

theorem writes_kept_cutRun :
    ∃ n, Lts.run WriterActor.step (.init none) cutRun = some n ∧ n.source = [4, 5, 1, 2, 6] ∧
      n.calls.map WriteCall.state = [.returned (.error (.socket 32)), .returned (.ok ()), .returned (.error .other),
        .returned (.error .other), .returned (.error .brokenPipe)] ∧ n.Whole := by
  have hr : ∃ n, Lts.run WriterActor.step (.init none) cutRun = some n ∧ n.source = [4, 5, 1, 2, 6] ∧
      n.calls.map WriteCall.state = [.returned (.error (.socket 32)), .returned (.ok ()), .returned (.error .other),
        .returned (.error .other), .returned (.error .brokenPipe)] := ⟨_, rfl, rfl, rfl⟩
  obtain ⟨n, hr, hs, hc⟩ := hr
  exact ⟨n, hr, hs, hc, (writes_kept hr).1⟩

end Tokactor
