import Tokactor.Lib.Cells
import Tokactor.Proof.Reader

/-!
# A reader that has seen `Shutdown`

The `break` of the inner loop of `create_reader_actor` leaves the outer loop running, and the
signal it was taken at is seen by then.

* `Stops`: the task reads no more, answers nobody any more, and can end at once.
* `stops_iff`: so it is after a signal if and only if the outer loop saw it, or no request can
  come any more.
* `reader_stops`: the same along every run.
-/

namespace Tokactor

variable {len : ℕ} {P R : Type} {d : DataFrameReceiver len P R}

/-- It is `Shutdown` or `Dead`. -/
def Supervise.final {α : Type} : Supervise α → Bool
  | .shutdown | .dead => true
  | .success _ | .continue_ => false

namespace ReaderActor

/-- In this step `supervisor` comes back with `Shutdown` or `Dead`. -/
def sees (n : ReaderActor len P R) : ReaderLabel → Bool
  | .request b =>
    match n.pc with
    | .request => (supervisor n.parentRx false n.recv b).any fun r => r.1.final
    | _ => false
  | .frame b p =>
    match n.pc with
    | .reading frame _ _ => (supervisor n.parentRx false (ReadFut.poll frame n.source p) b).any fun r => r.1.final
    | _ => false
  | _ => false

/-- From now on the task performs no read, answers no request with data, and at any time is
over, with `shutdown_tx` signalled, or can do so at once. -/
structure Stops (d : DataFrameReceiver len P R) (n : ReaderActor len P R) : Prop where
  unread : ∀ ls n', Lts.run (step d) n ls = some n' → ∀ p, n'.step d (.frame .fut p) = none
  unanswered : ∀ ls n', Lts.run (step d) n ls = some n' → ∀ (k : ℕ) object,
    n'.calls[k]? = some (.response object) → n.calls[k]? = some (.response object)
  ends : ∀ ls n', Lts.run (step d) n ls = some n' → n'.pc = .done ∧ n'.shutdownTx = true ∨
    ∃ b n'', n'.step d (.request b) = some n'' ∧ n''.pc = .done ∧ n''.shutdownTx = true

/-! ## Where no request can come -/

/-- The task is over, or it waits for requests that cannot come any more. -/
def Idle (n : ReaderActor len P R) : Prop :=
  n.pc = .done ∧ n.shutdownTx = true ∨ n.pc = .request ∧ n.handles = false ∧ n.readerRx.queue = []

/-- It stays so, and answers nobody. -/
theorem idle_step {n n' : ReaderActor len P R} {l : ReaderLabel} (hn : n.Idle) (h : n.step d l = some n') :
    n'.Idle ∧ ∀ (k : ℕ) object, n'.calls[k]? = some (.response object) → n.calls[k]? = some (.response object) := by
  have same : n'.pc = n.pc → n'.shutdownTx = n.shutdownTx → n'.handles = n.handles → n'.readerRx = n.readerRx → n'.Idle := by
    intro hpc hsd hh hrx
    unfold Idle
    rw [hpc, hsd, hh, hrx]
    exact hn
  cases step_rule h with
  | task l n' hsel =>
    cases hsel with
    | takes frame k rx w hw hpc hrx =>
      -- there is no request to take
      rcases hn with ⟨hdone, -⟩ | ⟨-, -, hq⟩
      · rw [hpc] at hdone
        cases hdone
      · rw [(Chan.pop_cases hrx).1] at hq
        cases hq
    | goesOn l b w hl hb hs => exact ⟨same rfl rfl rfl rfl, fun k object hk => hk⟩
    | ends b w hpc hend => exact ⟨.inl ⟨rfl, rfl⟩, fun k object hk => finish_response (n := { n with parentRx := w }) hk⟩
    | completes p frame frame' k payload payload' object source w hw hpc hpoll hrecv
    | reads p frame frame' k payload payload' source w hw hpc hpoll hrecv
    | drops b p frame k payload w hpc hend =>
      rcases hn with ⟨hpc', -⟩ | ⟨hpc', -⟩ <;> rw [hpc] at hpc' <;> cases hpc'
  | read rx hh hrx =>
    rcases hn with ⟨hpc, hsd⟩ | ⟨-, hh', -⟩
    · exact ⟨.inl ⟨hpc, hsd⟩, fun k object hk => concat_response (by simp) hk⟩
    · rw [hh'] at hh
      cases hh
  | refused hh hc => exact ⟨same rfl rfl rfl rfl, fun k object hk => concat_response (by simp) hk⟩
  | giveUp j hj =>
    refine ⟨same rfl rfl rfl rfl, fun k object hk => ?_⟩
    have hk : (n.calls.set j .gone)[k]? = some (.response object) := hk
    by_cases hjk : j = k
    · rw [hjk, List.getElem?_set] at hk
      simp at hk
    · rwa [List.getElem?_set_ne hjk] at hk
  | hangUp =>
    refine ⟨?_, fun k object hk => hk⟩
    rcases hn with hdone | ⟨hpc, -, hq⟩
    · exact .inl hdone
    · exact .inr ⟨hpc, rfl, hq⟩
  | outside l source w hs hl => exact ⟨same rfl rfl rfl rfl, fun k object hk => hk⟩

/-- **Where no request can come, the task stops.** -/
theorem Idle.stops {n : ReaderActor len P R} (hn : n.Idle) : Stops d n := by
  have hrun : ∀ ls n', Lts.run (step d) n ls = some n' → n'.Idle ∧
      ∀ (k : ℕ) object, n'.calls[k]? = some (.response object) → n.calls[k]? = some (.response object) := by
    intro ls n' hr
    refine Lts.run_inv (I := fun m : ReaderActor len P R => m.Idle ∧
      ∀ (k : ℕ) object, m.calls[k]? = some (.response object) → n.calls[k]? = some (.response object))
      (fun m l m' hm h => ?_) ⟨hn, fun k object hk => hk⟩ hr
    obtain ⟨hidle, hsame⟩ := idle_step hm.1 h
    exact ⟨hidle, fun k object hk => hm.2 k object (hsame k object hk)⟩
  refine ⟨fun ls n' hr p => ?_, fun ls n' hr => (hrun ls n' hr).2, fun ls n' hr => ?_⟩
  · rcases (hrun ls n' hr).1 with ⟨hpc, -⟩ | ⟨hpc, -⟩ <;> simp only [step, readFrame, hpc]
  · rcases (hrun ls n' hr).1 with hdone | ⟨hpc, hh, hq⟩
    · exact .inl hdone
    · -- `reader_rx.recv()` yields `None`
      right
      have hpop : n'.readerRx.pop = none := by
        cases hp : n'.readerRx.pop with
        | none => rfl
        | some x =>
          rw [(Chan.pop_cases hp).1] at hq
          cases hq
      have hrecv : n'.recv = some (none, n'.readerRx) := by
        unfold recv
        rw [hpop, hh]
        rfl
      refine ⟨.fut, { n' with pc := .request }.finish, ?_, rfl, rfl⟩
      rw [step, takeRequest, hpc, supervisor, hrecv]
      rfl

/-! ## Where one can -/

/-- While the task is not over, its queue is open. -/
def Serves (n : ReaderActor len P R) : Prop := n.readerRx.cap = 10 ∧ (n.pc ≠ .done → n.readerRx.closed = false)

theorem serves_step {n n' : ReaderActor len P R} {l : ReaderLabel} (hn : n.Serves) (h : n.step d l = some n') :
    n'.Serves := by
  cases step_rule h with
  | task l n' hsel =>
    cases hsel with
    | takes frame k rx w hw hpc hrx =>
      obtain ⟨-, hcap, hcl, -⟩ := Chan.pop_cases hrx
      exact ⟨hcap.trans hn.1, fun _ => hcl.trans (hn.2 (by rw [hpc]; simp))⟩
    | goesOn l b w hl hb hs => exact hn
    | ends b w hpc hend =>
      obtain ⟨calls, heq⟩ := finish_eq { n with parentRx := w }
      rw [heq]
      exact ⟨hn.1, fun h => absurd rfl h⟩
    | completes p frame frame' k payload payload' object source w hw hpc hpoll hrecv
    | reads p frame frame' k payload payload' source w hw hpc hpoll hrecv
    | drops b p frame k payload w hpc hend => exact ⟨hn.1, fun _ => hn.2 (by rw [hpc]; simp)⟩
  | read rx hh hrx =>
    obtain ⟨-, -, hcap, hcl, -⟩ := Chan.push_cases hrx
    exact ⟨hcap.trans hn.1, fun _ => hcl⟩
  | refused | giveUp | hangUp | outside => exact hn

theorem serves_run {m : Option SupervisorMessage} {ls : List ReaderLabel} {n : ReaderActor len P R}
    (hr : Lts.run (step d) (init len P R m) ls = some n) : n.Serves :=
  Lts.run_inv (fun _ _ _ hn h => serves_step hn h) ⟨rfl, fun _ => rfl⟩ hr

/-- A request that is queued is taken, and a read for it can be performed. -/
theorem reads_queued {n : ReaderActor len P R} (hpc : n.pc = .request) {r : Read len × ℕ} {q : List (Read len × ℕ)}
    (hq : n.readerRx.queue = r :: q) :
    ∃ n' p, n.step d (.request .fut) = some n' ∧ n'.step d (.frame .fut p) ≠ none := by
  obtain ⟨⟨⟨frame, k⟩, rx⟩, hp⟩ := Chan.pop_of_cons hq
  refine ⟨{ n with readerRx := rx, pc := .reading frame k d.default }, .error 0, ?_, ?_⟩
  · simp only [step, takeRequest, hpc, supervisor, recv, hp, Option.map_some]
  · simp [step, readFrame, supervisor, ReadFut.poll]

/-- While a `Reader` is left, or a request is queued, the task goes on reading. -/
theorem reads_on {n : ReaderActor len P R} (hn : n.Serves) (hpc : n.pc = .request)
    (hmore : n.handles = true ∨ n.readerRx.queue ≠ []) : ¬ Stops d n := by
  intro hs
  cases hq : n.readerRx.queue with
  | cons r q =>
    obtain ⟨n', p, htake, hread⟩ := reads_queued (d := d) hpc hq
    exact hread (hs.unread [.request .fut] n' (by simp [Lts.run, htake]) p)
  | nil =>
    have hh := hmore.resolve_right fun h => h hq
    have hpush : ∃ rx, n.readerRx.push (Read.default len, n.calls.length) = some rx := by
      have hcap : n.readerRx.closed = false ∧ n.readerRx.queue.length < n.readerRx.cap := by
        refine ⟨hn.2 (by rw [hpc]; simp), ?_⟩
        rw [hq, hn.1]
        exact Nat.zero_lt_succ 9
      exact ⟨_, by rw [Chan.push, dif_pos hcap]⟩
    obtain ⟨rx, hrx⟩ := hpush
    obtain ⟨-, -, -, -, hqueue, -⟩ := Chan.push_cases hrx
    -- somebody calls `read`
    have hcall : n.step d .read = some { n with readerRx := rx, calls := n.calls ++ [.waiting] } := by
      simp only [step, if_pos hh, hrx, Option.map_some]
    rw [hq] at hqueue
    obtain ⟨n', p, htake, hread⟩ := reads_queued (d := d)
      (n := { n with readerRx := rx, calls := n.calls ++ [.waiting] }) hpc hqueue
    exact hread (hs.unread [.read, .request .fut] n' (by simp [Lts.run, hcall, htake]) p)

/-! ## After a signal -/

/-- What a signal does to the task: it ends the loop that sees it. -/
theorem sees_step {n n' : ReaderActor len P R} {l : ReaderLabel} (hs : n.sees l = true) (h : n.step d l = some n') :
    n.pc = .request ∧ n'.pc = .done ∧ n'.shutdownTx = true ∨
      n.pc ≠ .request ∧ n'.pc = .request ∧ n'.handles = n.handles ∧ n'.readerRx = n.readerRx := by
  cases l with
  | request b =>
    cases hpc : n.pc with
    | request =>
      simp only [sees, hpc, Option.any_eq_true] at hs
      obtain ⟨⟨r, w⟩, hsup, hfinal⟩ := hs
      simp only [step, takeRequest, hpc, hsup, Option.map_some, Option.some.injEq] at h
      left
      cases r with
      | shutdown | dead =>
        subst h
        exact ⟨rfl, rfl, rfl⟩
      | success | continue_ => cases hfinal
    | reading | done => simp [sees, hpc] at hs
  | frame b p =>
    cases hpc : n.pc with
    | reading frame k payload =>
      simp only [sees, hpc, Option.any_eq_true] at hs
      obtain ⟨⟨r, w⟩, hsup, hfinal⟩ := hs
      simp only [step, readFrame, hpc, hsup, Option.map_some, Option.some.injEq] at h
      right
      cases r with
      | shutdown | dead =>
        subst h
        exact ⟨by simp, rfl, rfl, rfl⟩
      | success | continue_ => cases hfinal
    | request | done => simp [sees, hpc] at hs
  | _ => cases hs

/-- A signal that is seen is a step. -/
theorem sees_enabled {n : ReaderActor len P R} {l : ReaderLabel} (hs : n.sees l = true) : ∃ n', n.step d l = some n' := by
  cases l with
  | request b =>
    cases hpc : n.pc with
    | request =>
      simp only [sees, hpc, Option.any_eq_true] at hs
      obtain ⟨r, hsup, -⟩ := hs
      simp only [step, takeRequest, hpc, hsup, Option.map_some]
      exact ⟨_, rfl⟩
    | reading | done => simp [sees, hpc] at hs
  | frame b p =>
    cases hpc : n.pc with
    | reading frame k payload =>
      simp only [sees, hpc, Option.any_eq_true] at hs
      obtain ⟨r, hsup, -⟩ := hs
      simp only [step, readFrame, hpc, hsup, Option.map_some]
      exact ⟨_, rfl⟩
    | request | done => simp [sees, hpc] at hs
  | _ => cases hs

/-- The task is in its outer loop, or no request can come any more. -/
def Unasked (n : ReaderActor len P R) : Prop := n.pc = .request ∨ n.handles = false ∧ n.readerRx.queue = []

/-- **After a signal the task stops if and only if** the outer loop saw it, or no request can
come any more. -/
theorem stops_iff {n n' : ReaderActor len P R} {l : ReaderLabel} (hn : n.Serves) (hs : n.sees l = true)
    (h : n.step d l = some n') : Stops d n' ↔ n.Unasked := by
  have hn' := serves_step hn h
  rcases sees_step hs h with ⟨hpc, hdone⟩ | ⟨hpc, hpc', hh, hrx⟩
  · exact ⟨fun _ => .inl hpc, fun _ => Idle.stops (.inl hdone)⟩
  · constructor
    · intro hstops
      right
      by_contra hmore
      refine reads_on hn' hpc' ?_ hstops
      rw [hh, hrx]
      cases hhandles : n.handles with
      | true => exact .inl rfl
      | false => exact .inr fun hq => hmore ⟨hhandles, hq⟩
    · rintro (hout | ⟨hhandles, hq⟩)
      · exact absurd hout hpc
      · exact Idle.stops (.inr ⟨hpc', hh.trans hhandles, hrx ▸ hq⟩)

/-- When this step sees a signal, the task stops. -/
def StopsThen (d : DataFrameReceiver len P R) (n : ReaderActor len P R) (l : ReaderLabel) : Prop :=
  n.sees l = true → ∀ n', n.step d l = some n' → Stops d n'

/-- When it does, the task is in its outer loop, or no request can come any more. -/
def SeenOutside (n : ReaderActor len P R) (l : ReaderLabel) : Prop := n.sees l = true → n.Unasked

theorem stopsThen_iff {n : ReaderActor len P R} {l : ReaderLabel} (hn : n.Serves) : StopsThen d n l ↔ SeenOutside n l := by
  constructor
  · intro hstops hs
    obtain ⟨n', h⟩ := sees_enabled (d := d) hs
    exact (stops_iff hn hs h).1 (hstops hs n' h)
  · intro hout hs n' h
    exact (stops_iff hn hs h).2 (hout hs)

end ReaderActor

open ReaderActor in
/-- **A reader that has seen `Shutdown` or the death of its supervisor stops**, in a run of any
requests, bytes and signals, if and only if each time the outer loop sees it or no request can
come any more. -/
theorem reader_stops {m : Option SupervisorMessage} {ls : List ReaderLabel} :
    Lts.Along (step d) (StopsThen d) (init len P R m) ls ↔ Lts.Along (step d) SeenOutside (init len P R m) ls := by
  have hkeep : ∀ (Q : ReaderActor len P R → ReaderLabel → Prop) (n : ReaderActor len P R) l n', n.Serves → Q n l →
      n.step d l = some n' → n'.Serves := fun _ _ _ _ hn _ h => serves_step hn h
  have hinit : (init len P R m).Serves := serves_run (d := d) (Lts.run_nil _)
  exact ⟨fun h => h.of_inv (hkeep _) (fun n l hn hs => (stopsThen_iff hn).1 hs) hinit,
    fun h => h.of_inv (hkeep _) (fun n l hn hs => (stopsThen_iff hn).2 hs) hinit⟩

/-- The signal comes while the task waits for bytes; the next request is served as if nothing
had been said. -/
def seenInsideRun : List ReaderLabel :=
  [.read, .request .fut, .notify (some .shutdown), .frame .parent (.bytes 0), .read, .arrive [1, 2], .request .fut,
    .frame .fut (.bytes 2)]

open ReaderActor in
/-- **A reader that has seen `Shutdown` reads on**, and answers the next request with data. -/
theorem reader_reads_on :
    (∃ n : ReaderActor 4 Unit (List UInt8), Lts.run (step pairs) (init 4 Unit (List UInt8) none) seenInsideRun = some n ∧
      n.source.consumed = [1, 2] ∧ n.calls = [.closed, .response [1, 2]] ∧ n.shutdownTx = false) ∧
    ¬ ∀ ls, Lts.Along (step pairs) (StopsThen pairs) (init 4 Unit (List UInt8) none) ls := by
  refine ⟨⟨_, rfl, rfl, rfl, rfl⟩, fun h => ?_⟩
  have hall : Lts.Along (step pairs) (StopsThen pairs) (init 4 Unit (List UInt8) none)
      (seenInsideRun.take 3 ++ seenInsideRun.drop 3) := h seenInsideRun
  have hstops := (hall.drop rfl).1 rfl _ rfl
  have hnone := hstops.unread [.read, .arrive [1, 2], .request .fut] _ rfl (.bytes 2)
  cases hnone

end Tokactor
