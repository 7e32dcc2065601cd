import Tokactor.Model.World
import Tokactor.Proof.Accept
import Tokactor.Proof.Connection

/-!
# The shutdown of the world

After ctrl-c every router waits in its `shutdown` until no reader or writer task holds a
receiver of its notifier; `block_until_completion` waits for the routers, and for nothing else.

* `Input.Tended`: a router that has stopped was let go by all of these tasks.
* `shutdown_waits`: in a run that cuts nothing off, every connection actor has ended when
  the world returns, and no write of a message handed over before ctrl-c is lost.
* `shutdown_cuts`: a handler that runs when ctrl-c comes is cut off.
-/

namespace Tokactor

variable {len : ℕ} {P A M : Type}

/-! ## The receivers of the notifier -/

/-- The executor gets past `stopping` when nobody else has a receiver. -/
theorem Node.execHeld_late {n n' : Node A M} {x : Act A M} {held : Bool} (h : n.execHeld held x = some n')
    (hl : n'.Late) : n.Late ∨ held = false := by
  cases held with
  | false => exact .inr rfl
  | true =>
    left
    simp only [execHeld, if_true] at h
    split at h
    · cases h
      rcases hl with hl | hl <;> cases hl
    · cases h
      rcases hl with hl | hl <;> cases hl
    · cases h
      rcases hl with hl | hl <;> cases hl
    · cases h
      rcases hl with hl | hl <;> cases hl
    · rename_i hclosed hnotify hrecheck hassert
      -- the two reads of the receiver count were told apart above
      have hx := exec_rule h
      rcases exec_late hx hl with hl | ⟨hcloses, -, -⟩
      · exact hl
      · exfalso
        rcases Pc.closes_cases hcloses with hpc | hpc <;> simp only [exec, hpc] at h <;> split at h
        · exact hclosed hpc rfl
        · cases h
        · exact hrecheck hpc rfl
        · cases h

namespace ReaderActor

variable {d : DataFrameReceiver len P M} {n n' : ReaderActor len P M} {l : ReaderLabel}

/-- A reader task that has ended stays so. -/
theorem over_step (hl : l.task = true) (ho : n.pc.over = true) (h : n.step d l = some n') : n'.pc.over = true := by
  have hpc : n.pc = .done := by
    cases hpc : n.pc <;> rw [hpc] at ho <;> first | rfl | cases ho
  cases l with
  | request b => simp [step, takeRequest, hpc] at h
  | frame b p => simp [step, readFrame, hpc] at h
  | arrive bs =>
    simp only [step] at h
    split at h <;> cases h
    exact ho
  | close =>
    cases h
    exact ho
  | read | refused | giveUp | hangUp | notify | died => cases hl

end ReaderActor

namespace WriterActor

variable {n n' : WriterActor} {l : WriterLabel}

/-- A writer task that has ended stays so. -/
theorem over_step (ht : Told n.parentRx) (ho : n.pc.over = true) (h : n.step l = some n') : n'.pc.over = true := by
  have hpc : n.pc = .done := by
    cases hpc : n.pc <;> rw [hpc] at ho <;> first | rfl | cases ho
  cases step_rule ht h with
  | task l n' hs =>
    cases hs with
    | takes data k rx hrun | writes data k written result hrun | ends b w hrun | breaks b result w data k written hrun =>
      rw [hpc] at hrun
      cases hrun
  | put k data j written hrun =>
    rw [hpc] at hrun
    cases hrun
  | _ => exact ho

end WriterActor

namespace Connection

variable {d : DataFrameReceiver len P M} {s : Scheduler} {c c' : Connection len P A M}

theorem held_iff : c.held = false ↔ c.reader.pc.over = true ∧ c.writer.pc.over = true := by
  unfold held
  cases c.reader.pc.over <;> cases c.writer.pc.over <;> simp

/-- The task of the connection leaves the reader task where it is. -/
theorem go_reader (h : c.go d s = some c') : c'.reader.pc = c.reader.pc := by
  unfold go at h
  split at h
  · split at h
    · rename_i r hr
      cases h
      exact (read_frame (.inl rfl) hr).2
    · rw [Option.map_eq_some_iff] at h
      obtain ⟨r, hr, rfl⟩ := h
      exact (read_frame (.inr rfl) hr).2
  · split at h
    · split at h
      · cases h
        rfl
      · split at h <;> cases h
        rfl
    · cases h
      rfl
    · cases h
  · split at h <;> cases h <;> rfl
  · split at h
    · cases h
      rfl
    · rw [Option.map_eq_some_iff] at h
      obtain ⟨n, -, rfl⟩ := h
      rfl
  · split at h
    · rw [Option.map_eq_some_iff] at h
      obtain ⟨n, -, rfl⟩ := h
      rfl
    · cases h
      rfl
    · cases h
  · cases h
  · cases h

/-- A connection does not get a receiver back. -/
theorem held_step {l : ConnectionLabel A M} (ht : WriterActor.Told c.writer.parentRx) (hc : c.held = false)
    (h : c.step d s l = some c') : c'.held = false := by
  obtain ⟨hr, hw⟩ := held_iff.1 hc
  refine held_iff.2 ?_
  cases l with
  | go => exact ⟨by rw [go_reader h, hr], by rw [(go_frame h).1, hw]⟩
  | reader l =>
    simp only [step] at h
    split at h
    · rename_i hl
      rw [Option.map_eq_some_iff] at h
      obtain ⟨r, hstep, rfl⟩ := h
      exact ⟨ReaderActor.over_step hl hr hstep, hw⟩
    · cases h
  | writer l =>
    simp only [step] at h
    split at h
    · rw [Option.map_eq_some_iff] at h
      obtain ⟨w, hstep, rfl⟩ := h
      exact ⟨hr, WriterActor.over_step ht hw hstep⟩
    · cases h
  | write data handler =>
    simp only [step] at h
    split at h
    · cases h
    · rw [Option.map_eq_some_iff] at h
      obtain ⟨w, hstep, rfl⟩ := h
      exact ⟨hr, WriterActor.over_step ht hw hstep⟩
  | actor l =>
    simp only [step] at h
    split at h
    · cases h
    · rw [Option.map_eq_some_iff] at h
      obtain ⟨n, -, rfl⟩ := h
      exact ⟨hr, hw⟩

end Connection

/-! ## One input -/

namespace Input

variable {i i' : Input A M}

/-- The step cuts nothing off. -/
def Graceful (i : Input A M) : InputLabel A M → Prop
  | .connection j l =>
    match i.connections[j]? with
    | some c => c.Graceful l
    | none => True
  | _ => True

instance (i : Input A M) (l : InputLabel A M) : Decidable (i.Graceful l) := by
  unfold Graceful; split <;> (try split) <;> infer_instance

/-- Neither the loop nor a task of a connection has panicked. -/
def Calm (i : Input A M) : Prop :=
  i.router.pc.stage ≠ .failed ∧ ∀ c ∈ i.connections, c.pc ≠ .panicked ∧ c.actor.pc.stage ≠ .failed

/-- The connections are in order, and none of their tasks has a receiver when the router has
stopped. -/
structure Tended (i : Input A M) : Prop where
  waited : ∀ c ∈ i.connections, c.Waited
  unhurt : ∀ c ∈ i.connections, c.Unhurt
  router : i.router.Late → i.held = false

theorem held_iff : i.held = false ↔ ∀ c ∈ i.connections, c.held = false := by
  unfold held
  rw [List.any_eq_false]
  simp

/-- The tasks of the connections hear from the notifier. -/
theorem Tended.tell {n : Node A M} (hi : Tended i) (hl : n.Late → i.held = false) : Tended (i.tell n) := by
  have hone : ∀ (b b' : Bool) (c : Connection i.component.len i.component.P A M), c.Waited → c.Unhurt →
      (if b' then (if b then c.shutdown else c).died else if b then c.shutdown else c).Waited ∧
        (if b' then (if b then c.shutdown else c).died else if b then c.shutdown else c).Unhurt ∧
        (if b' then (if b then c.shutdown else c).died else if b then c.shutdown else c).held = c.held := by
    intro b b' c hw hu
    have hfirst : (if b then c.shutdown else c).Waited ∧ (if b then c.shutdown else c).Unhurt ∧
        (if b then c.shutdown else c).held = c.held := by
      cases b
      · exact ⟨hw, hu, rfl⟩
      · exact ⟨Connection.waited_shutdown hw, Connection.unhurt_shutdown hu, rfl⟩
    obtain ⟨hw, hu, hh⟩ := hfirst
    cases b'
    · exact ⟨hw, hu, hh⟩
    · exact ⟨Connection.waited_died hw, Connection.unhurt_died hu, hh⟩
  refine ⟨fun c hc => ?_, fun c hc => ?_, fun hlate => held_iff.2 fun c hc => ?_⟩ <;>
    obtain ⟨c, hmem, rfl⟩ := List.mem_map.1 hc <;>
    obtain ⟨hw, hu, hh⟩ := hone _ _ c (hi.waited c hmem) (hi.unhurt c hmem)
  · exact hw
  · exact hu
  · exact hh.trans (held_iff.1 (hl hlate) c hmem)

theorem Tended.route {l : Label A M} {n : Node A M} (hi : Tended i) (hn : i.router.step l = some n)
    (hl : ∀ x, l ≠ .exec x) : Tended (i.tell n) := by
  rcases Node.step_outside hn with ⟨x, rfl, -⟩ | ⟨ms, ho⟩
  · exact absurd rfl (hl x)
  · exact hi.tell fun hlate => hi.router (late_congr ho.pc hlate)

/-- Only a step that the notifier lets through makes the router late. -/
theorem Tended.exec {x : Act A M} {n : Node A M} (hi : Tended i) (hn : i.router.execHeld i.held x = some n) :
    Tended (i.tell n) := by
  refine hi.tell fun hlate => ?_
  rcases Node.execHeld_late hn hlate with hlate | hheld
  · exact hi.router hlate
  · exact hheld

/-- A new connection, of a router that is where it was. -/
theorem Tended.accept {n : Node A M} {c' : Connection i.component.len i.component.P A M} (hi : Tended i)
    (hpc : n.pc = .recv) (hw : c'.Waited) (hu : c'.Unhurt) :
    Tended { i with router := n, connections := i.connections ++ [c'] } := by
  have hall : ∀ {p : Connection i.component.len i.component.P A M → Prop}, (∀ c ∈ i.connections, p c) → p c' →
      ∀ c ∈ i.connections ++ [c'], p c := by
    intro p hp hp' c hc
    rw [List.mem_append, List.mem_singleton] at hc
    rcases hc with hc | rfl
    · exact hp c hc
    · exact hp'
  refine ⟨hall hi.waited hw, hall hi.unhurt hu, fun hlate => ?_⟩
  rcases hlate with hlate | hlate <;> rw [hpc] at hlate <;> cases hlate

/-- A connection goes on. -/
theorem Tended.connection {j : ℕ} {c c' : Connection i.component.len i.component.P A M}
    {l : ConnectionLabel A M} (hi : Tended i) (hc : i.connections[j]? = some c) (hg : c.Graceful l)
    (h : c.step i.component.payload i.component.scheduler l = some c') :
    Tended { i with connections := i.connections.set j c' } := by
  have hmem := List.mem_of_getElem? hc
  have hall : ∀ {p : Connection i.component.len i.component.P A M → Prop}, (∀ c ∈ i.connections, p c) → p c' →
      ∀ c ∈ i.connections.set j c', p c := by
    intro p hp hp' c hc
    rcases List.mem_or_eq_of_mem_set hc with hc | rfl
    · exact hp c hc
    · exact hp'
  refine ⟨hall hi.waited (Connection.waited_step (hi.waited c hmem) hg h),
    hall hi.unhurt (Connection.unhurt_step (hi.unhurt c hmem) hg h), fun hlate => ?_⟩
  have hheld := held_iff.1 (hi.router hlate)
  exact held_iff.2 (hall hheld (Connection.held_step (hi.unhurt c hmem).kept.told (hheld c hmem) h))

/-- **A step of an input that cuts nothing off.** -/
theorem tended_step {b : Bool} {l : InputLabel A M} (hi : Tended i) (hg : i.Graceful l) (h : i.step b l = some i') :
    Tended i' := by
  cases l with
  | router l =>
    cases l with
    | exec x =>
      simp only [step] at h
      split at h
      · cases h
      · rw [Option.map_eq_some_iff] at h
        obtain ⟨n, hn, rfl⟩ := h
        exact hi.exec hn
    | _ =>
      simp only [step] at h
      rw [Option.map_eq_some_iff] at h
      obtain ⟨n, hn, rfl⟩ := h
      exact hi.route hn fun x hx => by cases hx
  | accept u =>
    simp only [step] at h
    split at h
    · rename_i n actor hpc hperf
      cases h
      -- the handler leaves the router where it was
      have hkept := (Node.perform_rule i.router fun _ _ => u).kept (.inr ⟨_, hperf⟩)
      exact hi.accept (hkept.2.1.trans hpc) (Connection.waited_init _ _ _ _) (Connection.unhurt_init _ _ _ _)
    · cases h
  | shutdown =>
    simp only [step] at h
    split at h
    · split at h <;> cases h
      exact ⟨hi.waited, hi.unhurt, fun hl => by rcases hl with hl | hl <;> cases hl⟩
    · cases h
  | connection j l =>
    simp only [step] at h
    split at h
    · cases h
    · rename_i c hc
      rw [Option.map_eq_some_iff] at h
      obtain ⟨c', hstep, rfl⟩ := h
      simp only [Graceful, hc] at hg
      exact hi.connection hc hg hstep

theorem tended_interrupt (hi : Tended i) : Tended i.interrupt where
  waited c hc := by
    obtain ⟨c, hmem, rfl⟩ := List.mem_map.1 hc
    exact Connection.waited_interrupt (hi.waited c hmem)
  unhurt c hc := by
    obtain ⟨c, hmem, rfl⟩ := List.mem_map.1 hc
    exact Connection.unhurt_interrupt (hi.unhurt c hmem)
  router hl := by
    refine held_iff.2 fun c hc => ?_
    obtain ⟨c, hmem, rfl⟩ := List.mem_map.1 hc
    exact held_iff.1 (hi.router hl) c hmem

theorem tended_init (k : Component A M) : Tended (init k) where
  waited c hc := by cases hc
  unhurt c hc := by cases hc
  router hl := by rcases hl with hl | hl <;> cases hl

/-- **When a loop has ended every connection actor has**, and no write of an early message is
under way, unless something has panicked. -/
theorem Tended.complete (hi : Tended i) (hc : Calm i) (he : i.ended = true) :
    ∀ c ∈ i.connections, (∃ a, c.actor.EndedAs a) ∧ c.Settled := by
  intro c hmem
  have hover := (Pc.dead_over he).resolve_right hc.1
  have hstage : i.router.Late := by
    right
    cases hpc : i.router.pc <;> rw [hpc] at hover <;> first | rfl | cases hover
  -- the router was let go by both tasks
  obtain ⟨hreader, hwriter⟩ := Connection.held_iff.1 (held_iff.1 (hi.router hstage) c hmem)
  have hw := hi.waited c hmem
  have hdone : c.pc = .done := by
    have hcover := hw.reader hreader
    have hcalm := (hc.2 c hmem).1
    cases hpc : c.pc <;> rw [hpc] at hcover hcalm <;> first | rfl | exact absurd rfl hcalm | cases hcover
  have hup := (hc.2 c hmem).2
  have hactor := (Pc.dead_over (hw.done hdone)).resolve_right hup
  obtain ⟨cfg, a, ls, hr⟩ := hw.actor
  obtain ⟨p, hl⟩ := (life_run hr).resolve_left hup
  exact ⟨⟨_, (hl.over_ended hactor).2⟩, ((hi.unhurt c hmem).settled hwriter).1⟩

end Input

/-! ## The world -/

namespace World

/-- The step cuts nothing off. -/
def Graceful (w : World A M) : WorldLabel A M → Prop
  | .input i l =>
    match w.inputs[i]? with
    | some input => input.Graceful l
    | none => True
  | _ => True

instance (w : World A M) (l : WorldLabel A M) : Decidable (w.Graceful l) := by
  unfold Graceful; split <;> (try split) <;> infer_instance

/-- **Nothing is cut off**: no call that the handler of a message has made, which was handed
over before ctrl-c, is lost; and when the world has returned, every connection actor has
ended, and no such call is under way, unless something has panicked. -/
structure Kept (w : World A M) : Prop where
  written : ∀ i ∈ w.inputs, ∀ c ∈ i.connections, ∀ k, c.early k = true → ∀ call ∈ c.writer.calls[k]?, call.lost = false
  ended : w.returned = true → (∀ i ∈ w.inputs, i.Calm) →
    ∀ i ∈ w.inputs, ∀ c ∈ i.connections, (∃ a, c.actor.EndedAs a) ∧ c.Settled

/-- Every input is in order, and the world returns behind all of them. -/
structure Tended (w : World A M) : Prop where
  inputs : ∀ i ∈ w.inputs, i.Tended
  returned : w.returned = true → ∀ i ∈ w.inputs, i.ended = true

theorem tended_step {w w' : World A M} {l : WorldLabel A M} (hw : Tended w) (hg : w.Graceful l) (h : w.step l = some w') :
    Tended w' := by
  unfold step at h
  split at h
  · cases h
  rename_i hret
  cases l with
  | input j l =>
    simp only at h
    split at h
    · cases h
    · rename_i i hi
      rw [Option.map_eq_some_iff] at h
      obtain ⟨i', hstep, rfl⟩ := h
      simp only [Graceful, hi] at hg
      refine ⟨fun i₁ hi₁ => ?_, fun h => absurd h hret⟩
      rcases List.mem_or_eq_of_mem_set hi₁ with hi₁ | rfl
      · exact hw.inputs i₁ hi₁
      · exact Input.tended_step (hw.inputs i (List.mem_of_getElem? hi)) hg hstep
  | ctrlC =>
    cases h
    refine ⟨fun i hi => ?_, fun h => absurd h hret⟩
    obtain ⟨i, hmem, rfl⟩ := List.mem_map.1 hi
    exact Input.tended_interrupt (hw.inputs i hmem)
  | complete =>
    simp only at h
    split at h <;> cases h
    rename_i hall
    exact ⟨hw.inputs, fun _ => List.all_eq_true.1 hall⟩

/-- **Every connection is waited for**, in every run whose steps cut nothing off. -/
theorem shutdown_waits {components : List (Component A M)} {ls : List (WorldLabel A M)} {w : World A M}
    (hg : Lts.Along step Graceful (init components) ls) (hr : Lts.run step (init components) ls = some w) : Kept w := by
  have h0 : Tended (init components) := by
    refine ⟨fun i hi => ?_, fun h => by cases h⟩
    obtain ⟨k, -, rfl⟩ := List.mem_map.1 hi
    exact Input.tended_init k
  have hw : Tended w := Lts.run_along (fun _ _ _ hw hg h => tended_step hw hg h) h0 hg hr
  refine ⟨fun i hi c hc => ((hw.inputs i hi).unhurt c hc).unlost, fun hret hcalm i hi => ?_⟩
  exact (hw.inputs i hi).complete (hcalm i hi) (hw.returned hret i hi)

/-- Every byte is a request. -/
def byteComponent : Component Unit ℕ where
  len := 1
  P := Unit
  payload := ⟨(), fun p f => (p, some f.frame.length)⟩
  scheduler := .nonBlocking
  connection := ⟨4, 1, false, []⟩
  router := ⟨4, 1, false, []⟩
  actor := ()

/-- A step of the only router. -/
def routerStep (x : Act Unit ℕ) : WorldLabel Unit ℕ := .input 0 (.router (.exec x))

/-- A step of the only connection. -/
def connStep (l : ConnectionLabel Unit ℕ) : WorldLabel Unit ℕ := .input 0 (.connection 0 l)

/-- A connection is accepted, and its actor handles the first request. -/
def requestRun : List (WorldLabel Unit ℕ) :=
  [routerStep (.ret ()), .input 0 (.accept ⟨[], some ((), .reply ())⟩), connStep (.actor (.exec (.ret ()))), connStep .go,
    connStep (.reader (.arrive [1])), connStep (.reader (.request .fut)), connStep (.reader (.frame .fut (.bytes 1))),
    connStep .go, connStep (.actor (.exec .recv)), connStep (.actor (.exec .go)), connStep (.actor (.exec .go)),
    connStep (.actor (.exec (.ret ()))), connStep (.actor (.exec (.ret ())))]

/-- ctrl-c comes, and the router tells the tasks of the connection. -/
def interruptRun : List (WorldLabel Unit ℕ) :=
  [.ctrlC, .input 0 .shutdown, routerStep (.ret ()), routerStep .go, routerStep .go]

/-- The router sees no receiver after a second, and the world returns. -/
def returnRun : List (WorldLabel Unit ℕ) :=
  [routerStep .tick, routerStep .go, routerStep (.ret ()), routerStep .go, routerStep .none, routerStep (.ret ()),
    routerStep .go, .complete]

/-- The response is written and the next request waited for when ctrl-c comes. -/
def quietRun : List (WorldLabel Unit ℕ) :=
  requestRun ++
    [connStep (.write [2] true), connStep (.writer (.send 0)), connStep (.writer (.request .fut)),
      connStep (.writer (.written .fut (.ok ()))), connStep (.actor (.exec (.reply () 9))),
      connStep (.actor (.exec (.ret ()))), connStep .go, connStep .go, connStep (.reader (.request .fut))] ++
    interruptRun ++
    [connStep (.reader (.frame .parent (.bytes 0))), connStep (.writer (.request .parent)), connStep .go, connStep .go,
      connStep (.actor (.exec .recv)), connStep (.actor (.exec .go)), connStep (.actor (.exec .go)),
      connStep (.actor (.exec (.ret ()))), connStep (.actor (.exec .go)), connStep (.actor (.exec (.ret ()))),
      connStep (.actor (.exec (.ret ()))), connStep (.actor (.exec .go)), connStep (.actor (.exec (.ret ()))),
      connStep (.actor (.exec .go)), connStep (.actor (.exec .none)), connStep (.actor (.exec (.ret ()))),
      connStep (.actor (.exec .go)), connStep .go, connStep (.reader (.request .fut))] ++
    returnRun

theorem shutdown_waits_quietRun :
    ∃ w : World Unit ℕ, Lts.run step (init [byteComponent]) quietRun = some w ∧ w.returned = true ∧ Kept w := by
  have hr : ∃ w : World Unit ℕ, Lts.run step (init [byteComponent]) quietRun = some w ∧ w.returned = true :=
    ⟨_, rfl, rfl⟩
  obtain ⟨w, hr, hret⟩ := hr
  exact ⟨w, hr, hret, shutdown_waits (by decide) hr⟩

/-- The handler is still at work when ctrl-c comes. -/
def cutRun : List (WorldLabel Unit ℕ) :=
  requestRun ++ interruptRun ++
    [connStep (.reader (.request .parent)), connStep (.writer (.request .parent)), connStep (.write [2] true),
      connStep (.writer (.refuse 0)), connStep (.actor (.exec (.reply () 9))), connStep (.actor (.exec (.ret ())))] ++
    returnRun

/-- **The world can return before the actor of a connection has ended**, and the response to a
request from before ctrl-c be refused: the reader task and the writer task take the
`Shutdown` while the handler runs. -/
theorem shutdown_cuts :
    ∃ w : World Unit ℕ, Lts.run step (init [byteComponent]) cutRun = some w ∧ w.returned = true ∧
      ∃ i, w.inputs = [i] ∧ i.router.pc.stage ≠ .failed ∧
        ∃ c, i.connections = [c] ∧ c.pc ≠ .panicked ∧ c.actor.pc = .recv ∧ (∀ a, ¬ c.actor.EndedAs a) ∧
          c.handed = some 1 ∧ c.owners = [some 0] ∧ c.writer.calls = [⟨[2], .returned (.error .brokenPipe)⟩] ∧
          ¬ Kept w := by
  have hr : ∃ w : World Unit ℕ, Lts.run step (init [byteComponent]) cutRun = some w ∧ w.returned = true ∧
      ∃ i, w.inputs = [i] ∧ i.router.pc = .done ∧
        ∃ c, i.connections = [c] ∧ c.pc = .asking 0 ∧ c.actor.pc = .recv ∧ c.actor.trace.getLast? = some .postRun ∧
          c.handed = some 1 ∧ c.owners = [some 0] ∧ c.writer.calls = [⟨[2], .returned (.error .brokenPipe)⟩] :=
    ⟨_, rfl, rfl, _, rfl, rfl, _, rfl, rfl, rfl, rfl, rfl, rfl, rfl⟩
  obtain ⟨w, hr, hret, i, hi, hrouter, c, hc, hpc, hactor, hlast, hhanded, howners, hcalls⟩ := hr
  refine ⟨w, hr, hret, i, hi, by rw [hrouter]; decide, c, hc, by rw [hpc]; decide, hactor, ?_, hhanded, howners, hcalls, ?_⟩
  · rintro a ⟨tr, htr⟩
    rw [htr] at hlast
    simp at hlast
  · intro hk
    have hi' : i ∈ w.inputs := by rw [hi]; exact List.mem_singleton_self i
    have hc' : c ∈ i.connections := by rw [hc]; exact List.mem_singleton_self c
    have hearly : c.early 0 = true := by
      refine Connection.early_iff.2 ⟨0, by rw [howners]; rfl, fun h hh => ?_⟩
      rw [hhanded] at hh
      cases hh
      exact Nat.zero_lt_one
    have hlost := hk.written i hi' c hc' 0 hearly ⟨[2], .returned (.error .brokenPipe)⟩ (by rw [hcalls]; rfl)
    cases hlost

end World

end Tokactor
