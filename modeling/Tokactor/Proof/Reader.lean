import Tokactor.Lib.Cells
import Tokactor.Lib.Lts
import Tokactor.Model.Reader

/-!
# What a reader task passes on

* `Read.fill_frame`: a frame shows what was read into it last, whatever stood there before.
* `select_rule`: what the reader task can do in one step.
* `given_run`: the slices that are noted are those `recv` was called with.
* `frames_consumed`: what payloads were given is what was consumed from the socket.
-/

namespace Tokactor

variable {len : ℕ} {P R : Type} {d : DataFrameReceiver len P R}

/-! ## Frames -/

theorem Read.fill_frame (f : Read len) (bs : List UInt8) (h : bs.length ≤ len) : (f.fill bs h).frame = bs := by
  unfold Read.frame Read.fill
  exact List.take_left

/-- **What a read that yields something does**: the bytes it shows were consumed. -/
theorem poll_some {f f' : Read len} {s s' : Source} {p : Peek}
    (h : ReadFut.poll f s p = some (.ok (some ()), f', s')) :
    f'.frame ≠ [] ∧ s'.consumed = s.consumed ++ f'.frame ∧ s.incoming = f'.frame ++ s'.incoming ∧
      s'.arrived = s.arrived ∧ s'.closed = s.closed ∧ p = .bytes f'.frame.length := by
  unfold ReadFut.poll at h
  split at h
  · simp at h
  · split at h <;> simp at h
  · rename_i k
    split at h
    · rename_i hk
      simp only [Option.some.injEq, Prod.mk.injEq, true_and] at h
      obtain ⟨rfl, rfl⟩ := h
      have hlen : (s.incoming.take (k + 1)).length = k + 1 := by
        rw [List.length_take]
        omega
      rw [Read.fill_frame]
      refine ⟨fun hnil => ?_, rfl, (List.take_append_drop _ _).symm, rfl, rfl, by rw [hlen]⟩
      rw [hnil] at hlen
      cases hlen
    · cases h

/-- A read that yields nothing, or fails, consumes nothing; it yields nothing at the end of
the stream. -/
theorem poll_none {f f' : Read len} {s s' : Source} {p : Peek} {r : Except ℕ (Option Unit)}
    (h : ReadFut.poll f s p = some (r, f', s')) (hr : r ≠ .ok (some ())) :
    s' = s ∧ ((∃ e, p = .error e) ∨ p = .bytes 0 ∧ (s.incoming = [] ∧ s.closed = true ∨ len = 0)) := by
  unfold ReadFut.poll at h
  split at h
  · simp only [Option.some.injEq, Prod.mk.injEq] at h
    exact ⟨h.2.2.symm, .inl ⟨_, rfl⟩⟩
  · split at h
    · rename_i hc
      simp only [Option.some.injEq, Prod.mk.injEq] at h
      exact ⟨h.2.2.symm, .inr ⟨rfl, hc⟩⟩
    · cases h
  · split at h
    · simp only [Option.some.injEq, Prod.mk.injEq] at h
      exact absurd h.1.symm hr
    · cases h

/-- What the frames `fs` make of a payload. -/
def DataFrameReceiver.payload (d : DataFrameReceiver len P R) (fs : List (Read len)) : P :=
  fs.foldl (fun p f => (d.recv p f).1) d.default

theorem DataFrameReceiver.payload_concat (fs : List (Read len)) (f : Read len) :
    d.payload (fs ++ [f]) = (d.recv (d.payload fs) f).1 := by
  rw [payload, List.foldl_append]
  rfl

/-! ## The reader task -/

namespace ReaderActor

/-- There is a signal of the supervisor. -/
def Signalled (n : ReaderActor len P R) : Prop := n.parentRx.unseen = true ∨ n.parentRx.dropped = true

/-- The stream is over. -/
def Over (n : ReaderActor len P R) : Prop := n.source.incoming = [] ∧ n.source.closed = true ∨ len = 0

/-- A step of the reader task, by what it does with its request. -/
inductive Selects (d : DataFrameReceiver len P R) (n : ReaderActor len P R) :
    ReaderLabel → ReaderActor len P R → Prop
  /-- a request is taken -/
  | takes (frame : Read len) (k : ℕ) (rx : Chan (Read len × ℕ)) (w : Watch) (hw : w = n.parentRx)
      (hpc : n.pc = .request) (hrx : n.readerRx.pop = some ((frame, k), rx)) :
      Selects d n (.request .fut) { n with readerRx := rx, parentRx := w, pc := .reading frame k d.default }
  /-- the supervisor has sent `None` -/
  | goesOn (l : ReaderLabel) (b : Branch) (w : Watch) (hl : l = .request b ∨ ∃ p, l = .frame b p) (hb : b ≠ .fut)
      (hs : n.Signalled) : Selects d n l { n with parentRx := w }
  /-- the outer loop ends -/
  | ends (b : Branch) (w : Watch) (hpc : n.pc = .request)
      (hend : n.Signalled ∨ n.readerRx.queue = [] ∧ n.handles = false ∧ w = n.parentRx) :
      Selects d n (.request b) { n with parentRx := w }.finish
  /-- a frame is read, and it completes the request -/
  | completes (p : Peek) (frame frame' : Read len) (k : ℕ) (payload payload' : P) (object : R) (source : Source)
      (w : Watch) (hw : w = n.parentRx) (hpc : n.pc = .reading frame k payload)
      (hpoll : ReadFut.poll frame n.source p = some (.ok (some ()), frame', source))
      (hrecv : d.recv payload frame' = (payload', some object)) :
      Selects d n (.frame .fut p) { n with
        source := source, parentRx := w, frames := n.frames ++ [frame'.frame]
        calls := n.calls.modify k (ReadCall.send object), pc := .request }
  /-- a frame is read, and more is needed -/
  | reads (p : Peek) (frame frame' : Read len) (k : ℕ) (payload payload' : P) (source : Source) (w : Watch)
      (hw : w = n.parentRx) (hpc : n.pc = .reading frame k payload)
      (hpoll : ReadFut.poll frame n.source p = some (.ok (some ()), frame', source))
      (hrecv : d.recv payload frame' = (payload', none)) :
      Selects d n (.frame .fut p) { n with
        source := source, parentRx := w, frames := n.frames ++ [frame'.frame], pc := .reading frame' k payload' }
  /-- the inner loop ends without an object -/
  | drops (b : Branch) (p : Peek) (frame : Read len) (k : ℕ) (payload : P) (w : Watch)
      (hpc : n.pc = .reading frame k payload)
      (hend : n.Signalled ∧ b ≠ .fut ∨ w = n.parentRx ∧ b = .fut ∧ ((∃ e, p = .error e) ∨ p = .bytes 0 ∧ n.Over)) :
      Selects d n (.frame b p) ({ n with parentRx := w, pc := .request }.dropSender k)

theorem takeRequest_rule {n n' : ReaderActor len P R} {b : Branch} (h : n.takeRequest d b = some n') :
    Selects d n (.request b) n' := by
  unfold takeRequest at h
  split at h
  · rename_i hpc
    simp only [Option.map_eq_some_iff] at h
    obtain ⟨⟨r, w⟩, hs, rfl⟩ := h
    rcases supervisor_cases hs with ⟨⟨o, rx⟩, rfl, hrecv, rfl, rfl⟩ | ⟨hb, hsig, -, -, hr⟩
    · unfold recv at hrecv
      split at hrecv
      · rename_i output rx' hpop
        cases hrecv
        exact .takes _ _ _ _ rfl hpc hpop
      · rename_i hpop
        split at hrecv
        · cases hrecv
        · rename_i hh
          cases hrecv
          exact .ends _ _ hpc (.inr ⟨Chan.pop_none hpop, by simpa using hh, rfl⟩)
    · have hsig : n.Signalled := hsig.resolve_left (by simp)
      have hends : Selects d n (.request b) ({ n with parentRx := w } : ReaderActor len P R).finish :=
        .ends b w hpc (.inl hsig)
      rcases hr with rfl | rfl | ⟨rfl, -, -⟩
      · exact hends
      · exact hends
      · exact .goesOn _ b w (.inl rfl) hb hsig
  · cases h

theorem readFrame_rule {n n' : ReaderActor len P R} {b : Branch} {p : Peek} (h : n.readFrame d b p = some n') :
    Selects d n (.frame b p) n' := by
  unfold readFrame at h
  split at h
  · rename_i frame k payload hpc
    simp only [Option.map_eq_some_iff] at h
    obtain ⟨⟨r, w⟩, hs, rfl⟩ := h
    rcases supervisor_cases hs with ⟨⟨r, frame', source⟩, rfl, hpoll, rfl, rfl⟩ | ⟨hb, hsig, -, -, hr⟩
    · by_cases hr : r = .ok (some ())
      · subst hr
        simp only
        split
        · rename_i object hrecv
          exact .completes p frame frame' k payload _ object source _ rfl hpc hpoll hrecv
        · rename_i payload' hrecv
          exact .reads p frame frame' k payload payload' source _ rfl hpc hpoll hrecv
      · -- nothing was read, and the sender is dropped
        obtain ⟨rfl, hp⟩ := poll_none hpoll hr
        have hdrops : Selects d n (.frame .fut p) (({ n with pc := .request } : ReaderActor len P R).dropSender k) :=
          .drops .fut p frame k payload _ hpc (.inr ⟨rfl, rfl, hp⟩)
        rcases r with e | o
        · exact hdrops
        · rcases o with - | u
          · exact hdrops
          · exact absurd rfl hr
    · have hsig : n.Signalled := hsig.resolve_left (by simp)
      have hdrops : Selects d n (.frame b p)
          (({ n with parentRx := w, pc := .request } : ReaderActor len P R).dropSender k) :=
        .drops b p frame k payload w hpc (.inl ⟨hsig, hb⟩)
      rcases hr with rfl | rfl | ⟨rfl, -, -⟩
      · exact hdrops
      · exact hdrops
      · exact .goesOn _ b w (.inr ⟨p, rfl⟩) hb hsig
  · cases h

/-- A step of the task, of a call, of the `Reader`s or of the socket, or a signal to the task. -/
inductive Steps (d : DataFrameReceiver len P R) (n : ReaderActor len P R) : ReaderLabel → ReaderActor len P R → Prop
  | task (l : ReaderLabel) (n' : ReaderActor len P R) (h : Selects d n l n') : Steps d n l n'
  | read (rx : Chan (Read len × ℕ)) (hh : n.handles = true)
      (hrx : n.readerRx.push (Read.default len, n.calls.length) = some rx) :
      Steps d n .read { n with readerRx := rx, calls := n.calls ++ [.waiting] }
  | refused (hh : n.handles = true) (hc : n.readerRx.closed = true) :
      Steps d n .refused { n with calls := n.calls ++ [.closed] }
  | giveUp (k : ℕ) (hk : n.calls[k]? = some .waiting) : Steps d n (.giveUp k) { n with calls := n.calls.set k .gone }
  | hangUp : Steps d n .hangUp { n with handles := false }
  | outside (l : ReaderLabel) (source : Source) (w : Watch) (hs : source.consumed = n.source.consumed)
      (hl : l = .close ∨ l = .died ∨ (∃ bs, l = .arrive bs) ∨ ∃ m, l = .notify m) :
      Steps d n l { n with source := source, parentRx := w }

/-- **Every step is one of these.** -/
theorem step_rule {n n' : ReaderActor len P R} {l : ReaderLabel} (h : n.step d l = some n') : Steps d n l n' := by
  cases l with
  | request b => exact .task _ _ (takeRequest_rule h)
  | frame b p => exact .task _ _ (readFrame_rule h)
  | read =>
    simp only [step] at h
    split at h
    · rename_i hh
      obtain ⟨rx, hrx, rfl⟩ := Option.map_eq_some_iff.1 h
      exact .read rx hh hrx
    · cases h
  | refused =>
    simp only [step] at h
    split at h
    · rename_i hc
      cases h
      exact .refused hc.1 hc.2
    · cases h
  | giveUp k =>
    simp only [step] at h
    split at h
    · rename_i hk
      cases h
      exact .giveUp k hk
    · cases h
  | hangUp =>
    cases h
    exact .hangUp
  | arrive bs =>
    simp only [step] at h
    split at h
    · cases h
    · cases h
      exact .outside _ (n.source.arrive bs) n.parentRx rfl (.inr (.inr (.inl ⟨bs, rfl⟩)))
  | close =>
    cases h
    exact .outside _ { n.source with closed := true } n.parentRx rfl (.inl rfl)
  | notify m =>
    cases h
    exact .outside _ n.source (n.parentRx.send m) rfl (.inr (.inr (.inr ⟨m, rfl⟩)))
  | died =>
    cases h
    exact .outside _ n.source n.parentRx.drop rfl (.inr (.inl rfl))

/-! ## Nothing is lost, nothing is passed on twice -/

/-- Dropping senders touches nothing but their calls. -/
theorem dropSenders_eq (q : List (Read len × ℕ)) (n : ReaderActor len P R) :
    q.foldl (fun n r => n.dropSender r.2) n =
      { n with calls := (q.map Prod.snd).foldl (fun cs k => cs.modify k ReadCall.dropSender) n.calls } := by
  induction q generalizing n with
  | nil => rfl
  | cons r q ih =>
    rw [List.foldl_cons, ih]
    rfl

theorem finish_eq (n : ReaderActor len P R) : ∃ calls,
    n.finish = { n with pc := .done, readerRx := n.readerRx.close, shutdownTx := true, calls := calls } :=
  ⟨_, by rw [finish, dropSenders_eq]⟩

/-- The senders that are queued are dropped. -/
theorem finish_calls (n : ReaderActor len P R) (k : ℕ) :
    n.finish.calls[k]? = n.calls[k]?.map fun c => if k ∈ n.readerRx.queue.map Prod.snd then c.dropSender else c := by
  have hidem : ∀ c : ReadCall R, c.dropSender.dropSender = c.dropSender := fun c => by cases c <;> rfl
  rw [finish, dropSenders_eq]
  exact Cells.get_foldl_modify hidem _ _ _

/-- Dropping a sender answers nobody. -/
theorem dropSender_response {calls : List (ReadCall R)} {j k : ℕ} {object : R}
    (h : (calls.modify j ReadCall.dropSender)[k]? = some (.response object)) : calls[k]? = some (.response object) := by
  obtain ⟨c, hc, ⟨rfl, hobject⟩ | ⟨-, rfl⟩⟩ := Cells.get_modify h
  · cases c <;> first | exact hc.trans (congrArg some hobject.symm) | cases hobject
  · exact hc

/-- Nor does the end of the task. -/
theorem finish_response {n : ReaderActor len P R} {k : ℕ} {object : R}
    (h : n.finish.calls[k]? = some (.response object)) : n.calls[k]? = some (.response object) := by
  rw [finish_calls] at h
  obtain ⟨c, hc, heq⟩ := Option.map_eq_some_iff.1 h
  rw [hc]
  split at heq
  · cases c <;> cases heq
    rfl
  · rw [heq]

/-- A call that has no data yet is new. -/
theorem concat_response {calls : List (ReadCall R)} {c : ReadCall R} {k : ℕ} {object : R} (hc : c ≠ .response object)
    (h : (calls ++ [c])[k]? = some (.response object)) : calls[k]? = some (.response object) := by
  rcases Cells.get_concat h with h | ⟨-, h⟩
  · exact h
  · exact absurd h.symm hc

/-- The bytes that arrive in a run. -/
def arrivals (ls : List ReaderLabel) : List UInt8 :=
  ls.flatMap fun
    | .arrive bs => bs
    | _ => []

/-- The sizes of the chunks that are read in a run. -/
def sizes (ls : List ReaderLabel) : List ℕ :=
  ls.flatMap fun
    | .frame .fut (.bytes (k + 1)) => [k + 1]
    | _ => []

/-- What payloads were given is what was consumed, chunk by chunk, and what has arrived was
consumed or is still there. -/
structure Delivered (n : ReaderActor len P R) (ls : List ReaderLabel) : Prop where
  frames : n.frames.flatten = n.source.consumed
  sizes : n.frames.map List.length = sizes ls
  arrived : n.source.arrived = arrivals ls

/-- A step that reads nothing, and in which nothing arrives. -/
theorem Delivered.same {n n' : ReaderActor len P R} {ls : List ReaderLabel} {l : ReaderLabel} (hn : Delivered n ls)
    (hf : n'.frames = n.frames) (hc : n'.source.consumed = n.source.consumed)
    (ha : n'.source.arrived = n.source.arrived) (hs : ReaderActor.sizes [l] = []) (hl : arrivals [l] = []) :
    Delivered n' (ls ++ [l]) := by
  refine ⟨by rw [hf, hc, hn.frames], ?_, ?_⟩
  · rw [hf, hn.sizes, show ReaderActor.sizes (ls ++ [l]) = _ from List.flatMap_append]
    exact (List.append_nil _).symm.trans (congrArg _ hs.symm)
  · rw [ha, hn.arrived, show arrivals (ls ++ [l]) = _ from List.flatMap_append]
    exact (List.append_nil _).symm.trans (congrArg _ hl.symm)

/-- A chunk is read, and passed on. -/
theorem Delivered.passes {n n' : ReaderActor len P R} {ls : List ReaderLabel} {frame frame' : Read len} {p : Peek}
    {source : Source} (hn : Delivered n ls) (hpoll : ReadFut.poll frame n.source p = some (.ok (some ()), frame', source))
    (hf : n'.frames = n.frames ++ [frame'.frame]) (hs : n'.source = source) : Delivered n' (ls ++ [.frame .fut p]) := by
  obtain ⟨hne, hcons, -, harr, -, hp⟩ := poll_some hpoll
  refine ⟨?_, ?_, ?_⟩
  · rw [hf, hs, hcons, List.flatten_append, hn.frames]
    simp
  · obtain ⟨k, hk⟩ : ∃ k, frame'.frame.length = k + 1 := Nat.exists_eq_succ_of_ne_zero (by simpa using hne)
    rw [hf, hp, hk, show ReaderActor.sizes (ls ++ [.frame .fut (.bytes (k + 1))]) = _ from List.flatMap_append,
      List.map_append, hn.sizes]
    simp [ReaderActor.sizes, hk]
  · rw [hs, harr, hn.arrived, show arrivals (ls ++ [.frame .fut p]) = _ from List.flatMap_append]
    simp [arrivals]

theorem delivered_select {n n' : ReaderActor len P R} {l : ReaderLabel} {ls : List ReaderLabel} (hn : Delivered n ls)
    (hs : Selects d n l n') : Delivered n' (ls ++ [l]) := by
  cases hs with
  | takes frame k rx w hw hpc hrx => exact hn.same rfl rfl rfl rfl rfl
  | goesOn l b w hl hb hs =>
    refine hn.same rfl rfl rfl ?_ ?_ <;> rcases hl with rfl | ⟨p, rfl⟩ <;> cases b <;>
      first | rfl | exact absurd rfl hb
  | ends b w hpc hend =>
    obtain ⟨calls, h⟩ := finish_eq { n with parentRx := w }
    rw [h]
    exact hn.same rfl rfl rfl rfl rfl
  | completes p frame frame' k payload payload' object source w hw hpc hpoll hrecv => exact hn.passes hpoll rfl rfl
  | reads p frame frame' k payload payload' source w hw hpc hpoll hrecv => exact hn.passes hpoll rfl rfl
  | drops b p frame k payload w hpc hend =>
    refine hn.same rfl rfl rfl ?_ rfl
    rcases hend with ⟨-, hb⟩ | ⟨-, -, ⟨e, rfl⟩ | ⟨rfl, -⟩⟩
    · cases b <;> first | rfl | exact absurd rfl hb
    · cases b <;> rfl
    · cases b <;> rfl

theorem delivered_step {n n' : ReaderActor len P R} {l : ReaderLabel} {ls : List ReaderLabel} (hn : Delivered n ls)
    (h : n.step d l = some n') : Delivered n' (ls ++ [l]) := by
  cases l with
  | request b => exact delivered_select hn (takeRequest_rule h)
  | frame b p => exact delivered_select hn (readFrame_rule h)
  | read =>
    simp only [step] at h
    split at h
    · simp only [Option.map_eq_some_iff] at h
      obtain ⟨rx, -, rfl⟩ := h
      exact hn.same rfl rfl rfl rfl rfl
    · cases h
  | refused | giveUp k =>
    simp only [step] at h
    split at h
    · cases h
      exact hn.same rfl rfl rfl rfl rfl
    · cases h
  | arrive bs =>
    simp only [step] at h
    split at h
    · cases h
    · cases h
      -- only these bytes are new
      refine ⟨hn.frames, ?_, ?_⟩
      · rw [show ReaderActor.sizes (ls ++ [.arrive bs]) = _ from List.flatMap_append]
        simpa [ReaderActor.sizes] using hn.sizes
      · rw [show arrivals (ls ++ [.arrive bs]) = _ from List.flatMap_append]
        show n.source.arrived ++ bs = _
        rw [hn.arrived]
        simp [arrivals]
  | hangUp | close | notify m | died =>
    cases h
    exact hn.same rfl rfl rfl rfl rfl

theorem delivered_run {m : Option SupervisorMessage} {ls : List ReaderLabel} {n : ReaderActor len P R}
    (hr : Lts.run (step d) (init len P R m) ls = some n) : Delivered n ls :=
  Lts.run_history (I := fun ls n => Delivered n ls) (fun _ _ _ _ hn _ h => delivered_step hn h) ⟨rfl, rfl, rfl⟩
    (Lts.Along.of_forall fun _ _ => trivial) hr

/-- The slices passed to `recv` are the chunks that were read. -/
theorem frames_cut {m : Option SupervisorMessage} {ls : List ReaderLabel} {n : ReaderActor len P R}
    (hr : Lts.run (step d) (init len P R m) ls = some n) : n.frames = cut (sizes ls) (arrivals ls) := by
  have hn := delivered_run hr
  rw [← hn.sizes, ← hn.arrived, n.source.history, ← hn.frames, cut_lengths]

/-- No chunk is empty. -/
theorem frames_nonempty {m : Option SupervisorMessage} {ls : List ReaderLabel} {n : ReaderActor len P R}
    (hr : Lts.run (step d) (init len P R m) ls = some n) : ∀ f ∈ n.frames, f ≠ [] := by
  intro f hf hnil
  have hmem : f.length ∈ sizes ls := by
    rw [← (delivered_run hr).sizes]
    exact List.mem_map_of_mem hf
  rw [hnil] at hmem
  unfold sizes at hmem
  rw [List.mem_flatMap] at hmem
  obtain ⟨l, -, hl⟩ := hmem
  split at hl <;> simp at hl

/-- The request `k` was taken in the run `ls`, in the state `n₀`, and got a fresh payload. -/
def Taken (d : DataFrameReceiver len P R) (m : Option SupervisorMessage) (ls : List ReaderLabel) (k : ℕ)
    (n₀ : ReaderActor len P R) : Prop :=
  ∃ ls₀ n₁ frame, ls₀ ++ [.request .fut] <+: ls ∧ Lts.run (step d) (init len P R m) ls₀ = some n₀ ∧
    n₀.step d (.request .fut) = some n₁ ∧ n₁.pc = .reading frame k d.default

/-- `frames` notes the calls of `recv`: the payload at hand is what `recv` has made of the slices
noted since its request was taken, and an object is what it gave for the last one of such a part. -/
structure Given (d : DataFrameReceiver len P R) (m : Option SupervisorMessage) (ls : List ReaderLabel)
    (n : ReaderActor len P R) : Prop where
  run : Lts.run (step d) (init len P R m) ls = some n
  payload : ∀ frame k payload, n.pc = .reading frame k payload → ∃ n₀ fs, Taken d m ls k n₀ ∧
    n.frames = n₀.frames ++ fs.map Read.frame ∧ payload = d.payload fs
  object : ∀ (k : ℕ) (object : R), n.calls[k]? = some (.response object) → ∃ n₀ fs frame rest, Taken d m ls k n₀ ∧
    n.frames = n₀.frames ++ (fs ++ [frame]).map Read.frame ++ rest ∧ (d.recv (d.payload fs) frame).2 = some object

section

variable {m : Option SupervisorMessage} {ls : List ReaderLabel} {n n' : ReaderActor len P R} {l : ReaderLabel}

theorem Taken.concat {k : ℕ} {n₀ : ReaderActor len P R} (h : Taken d m ls k n₀) (l : ReaderLabel) :
    Taken d m (ls ++ [l]) k n₀ := by
  obtain ⟨ls₀, n₁, frame, hpre, hrest⟩ := h
  exact ⟨ls₀, n₁, frame, hpre.trans (List.prefix_append _ _), hrest⟩

/-- No object is given in this step, and there is no new payload. -/
theorem Given.keeps (hn : Given d m ls n) (h : n.step d l = some n') (hf : n'.frames = n.frames)
    (hpc : ∀ frame k payload, n'.pc = .reading frame k payload → n.pc = .reading frame k payload)
    (hcalls : ∀ (k : ℕ) (object : R), n'.calls[k]? = some (.response object) →
      n.calls[k]? = some (.response object)) : Given d m (ls ++ [l]) n' := by
  refine ⟨Lts.run_concat hn.run h, fun frame k payload hp => ?_, fun k object hk => ?_⟩
  · obtain ⟨n₀, fs, ht, hfs⟩ := hn.payload frame k payload (hpc frame k payload hp)
    exact ⟨n₀, fs, ht.concat l, by rwa [hf]⟩
  · obtain ⟨n₀, fs, frame, rest, ht, hfs⟩ := hn.object k object (hcalls k object hk)
    exact ⟨n₀, fs, frame, rest, ht.concat l, by rwa [hf]⟩

/-- The objects given before a slice is noted. -/
theorem Given.earlier (hn : Given d m ls n) {k : ℕ} {object : R} (hk : n.calls[k]? = some (.response object))
    (l : ReaderLabel) (slice : List UInt8) : ∃ n₀ fs frame rest, Taken d m (ls ++ [l]) k n₀ ∧
      n.frames ++ [slice] = n₀.frames ++ (fs ++ [frame]).map Read.frame ++ rest ∧
        (d.recv (d.payload fs) frame).2 = some object := by
  obtain ⟨n₀, fs, frame, rest, ht, hfs, hobject⟩ := hn.object k object hk
  exact ⟨n₀, fs, frame, rest ++ [slice], ht.concat l, by rw [hfs, List.append_assoc], hobject⟩

theorem given_step (hn : Given d m ls n) (h : n.step d l = some n') : Given d m (ls ++ [l]) n' := by
  have hrun := Lts.run_concat hn.run h
  cases step_rule h with
  | task l n' hs =>
    cases hs with
    | takes frame k rx w hw hpc hrx =>
      refine ⟨hrun, fun frame' k' payload hp => ?_, fun k object hk => ?_⟩
      · cases hp
        exact ⟨n, [], ⟨ls, _, frame, List.prefix_refl _, hn.run, h, rfl⟩, (List.append_nil _).symm, rfl⟩
      · obtain ⟨n₀, fs, frame, rest, ht, hfs⟩ := hn.object k object hk
        exact ⟨n₀, fs, frame, rest, ht.concat _, hfs⟩
    | goesOn => exact hn.keeps h rfl (fun _ _ _ hp => hp) fun _ _ hk => hk
    | ends b w hpc hend =>
      obtain ⟨calls, heq⟩ := finish_eq { n with parentRx := w }
      refine hn.keeps h (by rw [heq]) (fun frame k payload hp => ?_) fun k object hk =>
        finish_response (n := { n with parentRx := w }) hk
      rw [heq] at hp
      cases hp
    | completes p frame frame' k payload payload' object source w hw hpc hpoll hrecv =>
      refine ⟨hrun, fun frame k payload hp => (by cases hp), fun j object' hj => ?_⟩
      obtain ⟨c, hc, ⟨rfl, hobject⟩ | ⟨-, rfl⟩⟩ := Cells.get_modify hj
      · cases c with
        | waiting =>
          -- what was noted since the request was taken, and this slice
          cases hobject
          obtain ⟨n₀, fs, ht, hfs, rfl⟩ := hn.payload frame j payload hpc
          exact ⟨n₀, fs, frame', [], ht.concat _, by simp [hfs], by rw [hrecv]⟩
        | response o =>
          cases hobject
          exact hn.earlier hc _ _
        | closed | gone => cases hobject
      · exact hn.earlier hc _ _
    | reads p frame frame' k payload payload' source w hw hpc hpoll hrecv =>
      refine ⟨hrun, fun frame₁ j payload₁ hp => ?_, fun j object hj => hn.earlier hj _ _⟩
      cases hp
      obtain ⟨n₀, fs, ht, hfs, rfl⟩ := hn.payload frame k payload hpc
      exact ⟨n₀, fs ++ [frame'], ht.concat _, by simp [hfs], by rw [DataFrameReceiver.payload_concat, hrecv]⟩
    | drops b p frame k payload w hpc hend =>
      exact hn.keeps h rfl (fun _ _ _ hp => by cases hp) fun j object hj => dropSender_response hj
  | read | refused =>
    exact hn.keeps h rfl (fun _ _ _ hp => hp) fun k object hk => concat_response (by simp) hk
  | giveUp j hj =>
    refine hn.keeps h rfl (fun _ _ _ hp => hp) fun k object hk => ?_
    rcases eq_or_ne j k with rfl | hne
    · rw [List.getElem?_set_self (List.getElem?_eq_some_iff.1 hj).1] at hk
      cases hk
    · rwa [List.getElem?_set_ne hne] at hk
  | hangUp | outside => exact hn.keeps h rfl (fun _ _ _ hp => hp) fun _ _ hk => hk

/-- **What was noted is what `recv` was given**, in every run. -/
theorem given_run (hr : Lts.run (step d) (init len P R m) ls = some n) : Given d m ls n := by
  refine Lts.run_history (I := Given d m) (fun _ _ _ _ hn _ h => given_step hn h) ⟨rfl, ?_, ?_⟩
    (Lts.Along.of_forall fun _ _ => trivial) hr
  · intro frame k payload hp
    cases hp
  · intro k object hk
    simp [init] at hk

end

end ReaderActor

open ReaderActor in
/-- **Bytes reach payloads without gap or repetition**: in every run, whatever the chunks, the
requests and the signals, the slices passed to `recv`, one after the other, are exactly what
was consumed of the stream. -/
theorem frames_consumed {m : Option SupervisorMessage} {ls : List ReaderLabel} {n : ReaderActor len P R}
    (hr : Lts.run (step d) (init len P R m) ls = some n) :
    n.frames.flatten = n.source.consumed ∧ n.source.consumed ++ n.source.incoming = arrivals ls := by
  have hn := delivered_run hr
  exact ⟨hn.frames, by rw [← n.source.history, hn.arrived]⟩

/-- A receiver that wants slices of two bytes. -/
def pairs : DataFrameReceiver 4 Unit (List UInt8) where
  default := ()
  recv _ f := ((), if f.frame.length = 2 then some f.frame else none)

/-- A long chunk and a short one are read into one frame; between them the supervisor sends a
message that ends nothing, and the caller has gone. -/
def staleRun : List ReaderLabel :=
  [.read, .arrive [1, 2, 3, 4, 5, 6], .request .fut, .frame .fut (.bytes 4), .notify none, .frame .parent (.bytes 0),
    .giveUp 0, .frame .fut (.bytes 2), .notify (some .shutdown), .request .parent]

theorem frames_consumed_staleRun :
    ∃ n : ReaderActor 4 Unit (List UInt8), Lts.run (ReaderActor.step pairs) (.init 4 Unit (List UInt8) none) staleRun = some n ∧
      n.frames = [[1, 2, 3, 4], [5, 6]] ∧ n.frames.flatten = n.source.consumed ∧
      n.source.consumed ++ n.source.incoming = ReaderActor.arrivals staleRun := by
  have hr : ∃ n : ReaderActor 4 Unit (List UInt8),
      Lts.run (ReaderActor.step pairs) (.init 4 Unit (List UInt8) none) staleRun = some n ∧
        n.frames = [[1, 2, 3, 4], [5, 6]] := ⟨_, rfl, rfl⟩
  obtain ⟨n, hr, hf⟩ := hr
  exact ⟨n, hr, hf, frames_consumed hr⟩

end Tokactor
