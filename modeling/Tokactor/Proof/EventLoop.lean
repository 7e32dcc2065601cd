import Tokactor.Lib.Lts
import Tokactor.Model.EventLoop
import Tokactor.Proof.Accept
import Tokactor.Proof.Host

/-!
# How the loop of an input ends

* `turns_rule`: what the loop can do in one step.
* `loop_shuts_down`: whenever the loop of a component ends, `component.shutdown()` has run to
  completion once, and no accept error panics the loop, if and only if there is none, and no
  future of the component panics.
* `hosted`: the loop of a `TcpListener` does to the router only what a `RawExecutor` does.
-/

namespace Tokactor

variable {C S K E L A M : Type} {impl : ComponentImpl C S K E L}

namespace EventLoop

/-! ## What is asked of the loop -/

/-- The loop has ended only after one `component.shutdown()`. -/
def ShutDown (n : EventLoop C S K E) : Prop := n.ended = true → n.completed = 1

/-- In this step `component.accept()` fails with `e`. -/
def Fails (impl : ComponentImpl C S K E L) (n : EventLoop C S K E) (l : LoopLabel L) (e : E) : Prop :=
  ∃ component x component', n.pc = .select component ∧ l = .accept x ∧
    impl.accept component x = some (component', .ready (.error e))

/-- After an accept error the loop goes on, or it will end with this error and have it logged. -/
def Answers (impl : ComponentImpl C S K E L) (n : EventLoop C S K E) (l : LoopLabel L) : Prop :=
  ∀ e n', Fails impl n l e → n.step impl l = some n' →
    n'.selects = true ∨ ∀ ls t, Lts.run (step impl) n' ls = some t → t.ended = true → t.logged = some e

/-- In this step `accept` does not fail, and no future of the component panics. -/
structure Calm (impl : ComponentImpl C S K E L) (n : EventLoop C S K E) (l : LoopLabel L) : Prop where
  accept : ∀ e, ¬ Fails impl n l e
  acceptPanic : ∀ component x component', n.pc = .select component → l = .accept x →
    impl.accept component x ≠ some (component', .panic)
  shutdownPanic : ∀ future x future', n.pc = .shutdown future → l = .poll x →
    impl.poll future x ≠ some (future', .panic)

/-! ## One step -/

/-- A step of the loop. -/
inductive Turns (impl : ComponentImpl C S K E L) (n : EventLoop C S K E) : LoopLabel L → EventLoop C S K E → Prop
  /-- it stays in its `select!`, perhaps with a new connection -/
  | stays (l : LoopLabel L) (component component' : C) (connections : List K) (hpc : n.pc = .select component)
      (hc : (∃ x r, impl.accept component x = some (component', r) ∧ r ≠ .panic) ∨
        ∃ x, impl.outside component x = some component') :
      Turns impl n l { n with pc := .select component', connections := connections }
  | breaks (component : C) (rx : Broadcast) (hpc : n.pc = .select component) :
      Turns impl n .recv { n with shutdown := rx, pc := .shutdown (impl.shutdown component) }
  | waits (l : LoopLabel L) (future future' : S) (hpc : n.pc = .shutdown future)
      (hf : (∃ x, impl.poll future x = some (future', .pending)) ∨ ∃ x, impl.outsideShutdown future x = some future') :
      Turns impl n l { n with pc := .shutdown future' }
  | returns (l : LoopLabel L) (future : S) (hpc : n.pc = .shutdown future) :
      Turns impl n l { n with pc := .returned (.ok ()), completed := n.completed + 1 }
  | panics (l : LoopLabel L) (hcalm : ¬ Calm impl n l) : Turns impl n l { n with pc := .panicked }
  | signal (l : LoopLabel L) (rx : Broadcast) : Turns impl n l { n with shutdown := rx }

theorem turns_rule {n n' : EventLoop C S K E} {l : LoopLabel L} (h : n.step impl l = some n') : Turns impl n l n' := by
  cases l with
  | accept x =>
    simp only [step] at h
    split at h
    · rename_i component hpc
      obtain ⟨⟨component', r⟩, hacc, rfl⟩ := Option.map_eq_some_iff.1 h
      cases r with
      | pending => exact .stays _ component component' n.connections hpc (.inl ⟨x, _, hacc, by simp⟩)
      | ready result =>
        cases result with
        | ok connection => exact .stays _ component component' _ hpc (.inl ⟨x, _, hacc, by simp⟩)
        | error e => exact .panics _ fun hcalm => hcalm.accept e ⟨component, x, component', hpc, rfl, hacc⟩
      | panic => exact .panics _ fun hcalm => hcalm.acceptPanic component x component' hpc rfl hacc
    · cases h
  | recv =>
    simp only [step] at h
    split at h
    · rename_i component hpc
      obtain ⟨r, -, rfl⟩ := Option.map_eq_some_iff.1 h
      exact .breaks component r.2 hpc
    · cases h
  | poll x =>
    simp only [step] at h
    split at h
    · rename_i future hpc
      obtain ⟨⟨future', r⟩, hpoll, rfl⟩ := Option.map_eq_some_iff.1 h
      cases r with
      | pending => exact .waits _ future future' hpc (.inl ⟨x, hpoll⟩)
      | ready u => exact .returns _ future hpc
      | panic => exact .panics _ fun hcalm => hcalm.shutdownPanic future x future' hpc rfl hpoll
    · cases h
  | outside x =>
    simp only [step] at h
    split at h
    · rename_i component hpc
      obtain ⟨component', hout, rfl⟩ := Option.map_eq_some_iff.1 h
      exact .stays _ component component' n.connections hpc (.inr ⟨x, hout⟩)
    · rename_i future hpc
      obtain ⟨future', hout, rfl⟩ := Option.map_eq_some_iff.1 h
      exact .waits _ future future' hpc (.inr ⟨x, hout⟩)
    · cases h
  | send =>
    simp only [step] at h
    split at h
    · cases h
    · cases h
      exact .signal _ _
  | drop =>
    cases h
    exact .signal _ _

/-- A step that is not calm panics the loop, before any `shutdown` is complete. -/
theorem step_panics {n : EventLoop C S K E} {l : LoopLabel L} (h : ¬ Calm impl n l) :
    n.step impl l = some { n with pc := .panicked } ∧ n.ended = false := by
  by_contra hno
  refine h ⟨?_, ?_, ?_⟩
  · rintro e ⟨component, x, component', hpc, rfl, hacc⟩
    exact hno ⟨by simp only [step, hpc, hacc, Option.map_some, accepted], by simp only [ended, hpc]⟩
  · rintro component x component' hpc rfl hacc
    exact hno ⟨by simp only [step, hpc, hacc, Option.map_some], by simp only [ended, hpc]⟩
  · rintro future x future' hpc rfl hpoll
    exact hno ⟨by simp only [step, hpc, hpoll, Option.map_some], by simp only [ended, hpc]⟩

/-! ## Whole runs -/

/-- How often `shutdown` has run to completion where the loop stands. -/
def shutdowns : LoopPc C S E → ℕ
  | .returned _ => 1
  | _ => 0

def Counted (n : EventLoop C S K E) : Prop := n.completed = shutdowns n.pc

theorem counted_step {n n' : EventLoop C S K E} {l : LoopLabel L} (hn : n.Counted) (h : n.step impl l = some n') :
    n'.Counted := by
  unfold Counted at hn ⊢
  cases turns_rule h with
  | stays l component component' connections hpc hc => rw [hn, hpc]; rfl
  | breaks component rx hpc => rw [hn, hpc]; rfl
  | waits l future future' hpc hf => rw [hn, hpc]; rfl
  | returns l future hpc => rw [hn, hpc]; rfl
  | panics l hcalm =>
    have hended := (step_panics hcalm).2
    rw [hn]
    unfold ended at hended
    cases hpc : n.pc with
    | select | shutdown => rfl
    | returned | panicked => simp [hpc] at hended
  | signal l rx => exact hn

/-- A calm step ends the loop only behind its `shutdown`. -/
theorem calm_keeps {n : EventLoop C S K E} {l : LoopLabel L} (hn : n.Counted) (hcalm : Calm impl n l) :
    Lts.Keeps (step impl) ShutDown n l := by
  intro hsd n' h hended
  have hn' := counted_step hn h
  rw [Counted] at hn'
  cases turns_rule h with
  | stays | breaks | waits => cases hended
  | returns => exact hn'
  | panics l hnot => exact absurd hcalm hnot
  | signal l rx => exact hsd hended

/-- Any other step ends it without one. -/
theorem calm_of_keeps {n : EventLoop C S K E} {l : LoopLabel L} (hn : n.Counted) (hsd : n.ShutDown)
    (hkeeps : Lts.Keeps (step impl) ShutDown n l) : Calm impl n l := by
  by_contra hnot
  obtain ⟨hstep, -⟩ := step_panics hnot
  have hzero : ({ n with pc := .panicked } : EventLoop C S K E).Counted := counted_step hn hstep
  have hone := hkeeps hsd _ hstep rfl
  rw [hzero] at hone
  cases hone

end EventLoop

open EventLoop in
/-- **Every end of an input loop goes through `component.shutdown()`**, and no accept error
panics it, if and only if no accept fails, and no future of the component panics. -/
theorem loop_shuts_down {component : C} {ls : List (LoopLabel L)} :
    Lts.Throughout (step impl) ShutDown (init component : EventLoop C S K E) ls ∧
        Lts.Along (step impl) (Answers impl) (init component : EventLoop C S K E) ls ↔
      Lts.Along (step impl) (EventLoop.Calm impl) (init component : EventLoop C S K E) ls := by
  have hcounted : (init component : EventLoop C S K E).Counted := rfl
  have hstart : (init component : EventLoop C S K E).ShutDown := fun h => by cases h
  rw [Lts.throughout_iff hstart]
  constructor
  · rintro ⟨hkeeps, -⟩
    exact hkeeps.of_inv (I := fun n => n.Counted ∧ n.ShutDown)
      (fun n l n' hn hk h => ⟨counted_step hn.1 h, hk hn.2 n' h⟩) (fun n l hn hk => calm_of_keeps hn.1 hn.2 hk)
      ⟨hcounted, hstart⟩
  · intro hcalm
    refine ⟨hcalm.of_inv (fun n l n' hn _ h => counted_step hn h) (fun n l hn hc => calm_keeps hn hc) hcounted, ?_⟩
    exact hcalm.mono fun n l hc e n' hfails _ => absurd hfails (hc.accept e)

/-- A listener whose `on_start` does nothing. -/
def listening : Option (Host Unit Unit) := TcpListener.new ⟨10, 10, false, []⟩ () ⟨[], some ((), ())⟩

open EventLoop in
/-- **An accept error panics the loop** of a `TcpListener`: its router is never shut down, and
nothing is logged. -/
theorem accept_panics : ∃ h : Host Unit Unit, listening = some h ∧
    (∃ n, Lts.run (step TcpListener.impl) (init h) [.accept (.failed 24)] = some n ∧
      n.ended = true ∧ n.completed = 0 ∧ n.logged = none) ∧
    ¬ ∀ ls, Lts.Throughout (step TcpListener.impl) ShutDown (init h) ls ∧
      Lts.Along (step TcpListener.impl) (Answers TcpListener.impl) (init h) ls := by
  refine ⟨_, rfl, ⟨_, rfl, rfl, rfl, rfl⟩, fun hall => ?_⟩
  have hsd := (hall [.accept (.failed 24)]).1 [.accept (.failed 24)] [] _ rfl rfl rfl
  cases hsd

/-! ## The TCP component -/

namespace TcpListener

/-- A callback of the router uses the context, in `raw_start` or in `ask`. -/
theorem ops_run {h : Host A M} {n : Node A M} {os : List CtxOp} (hraw : h.raw = true)
    (hpc : h.node.pc = .recv ∨ h.node.pc = .onStart) (hos : h.node.useCtx os = .ok n) :
    Lts.run Host.step h (os.map fun o => .node (.exec (.op o))) = some { h with node := n } ∧
      n.pc = h.node.pc ∧ n.cfg = h.node.cfg := by
  induction os generalizing h with
  | nil =>
    cases hos
    exact ⟨rfl, rfl, rfl⟩
  | cons o os ih =>
    rw [Node.useCtx] at hos
    split at hos
    · cases hos
    · rename_i hno
      have hkept := Node.ctxOp_kept (Node.refuses_iff.1 (by simpa using hno))
      obtain ⟨hrun, hn, hcfg⟩ := ih (h := { h with node := h.node.ctxOp o }) hraw (by rwa [hkept.pc]) hos
      refine ⟨Lts.run_cons.2 ⟨_, ?_, hrun⟩, hn.trans hkept.pc, hcfg.trans hkept.cfg⟩
      rcases hpc with hpc | hpc <;>
        simp only [Host.step, Host.exec, hraw, if_true, Node.rawExec, Node.execHeld, Node.exec, Node.callback, hpc,
          ite_self, Option.map_some]

/-- `TcpListener::new` starts the router. -/
theorem new_run {cfg : Config} {a : A} {u : Usage A Unit} {h : Host A M} (hnew : new cfg a u = some h) :
    h.raw = true ∧ h.node.pc = .recv ∧ ∃ ls, Lts.run Host.step (Host.init cfg true a) ls = some h := by
  have hperf := Node.perform_rule (Host.init cfg true a : Host A M).node fun _ _ => u
  unfold new at hnew
  simp only at hnew
  split at hnew
  · rename_i n x hok
    rw [hok] at hperf
    cases hperf with
    | returns n' a' x hos hu =>
      obtain ⟨hrun, hpc, hcfg⟩ := ops_run (h := Host.init cfg true a) rfl (.inr rfl) hos
      have hpc : n'.pc = .onStart := hpc
      have hsup : n'.cfg.supervised = false := by
        rw [hcfg]
        simp [Host.init, Node.init]
      cases hnew
      refine ⟨rfl, by simp [Node.mainLoop, hsup], _, Lts.run_concat hrun (l := .node (.exec (.ret a'))) ?_⟩
      simp only [Host.step, Host.exec, Host.init, Node.rawExec, Node.execHeld, Node.exec, Node.callback, hpc,
        ite_self, Option.map_some]
  · cases hnew

/-- A connection is accepted: its tasks subscribe, and the handler of the router runs. -/
theorem accept_run {h h' : Host A M} {e : TcpEvent A M} {r : Poll (Except ℕ M)} (hraw : h.raw = true)
    (hpc : h.node.pc = .recv) (hacc : accept h e = some (h', r)) :
    r = .panic ∨ h'.raw = true ∧ h'.node.pc = .recv ∧ ∃ ls, Lts.run Host.step h ls = some h' := by
  cases e with
  | pending | failed =>
    cases hacc
    exact .inr ⟨hraw, hpc, [], rfl⟩
  | stream u =>
    obtain ⟨h₁, hsub, heq⟩ := Option.map_eq_some_iff.1 hacc
    have hh₁ : h₁ = { h with pipes := h.pipes ++ [true, true] } := by
      simp only [Host.step, hraw, hpc, Option.some.injEq] at hsub
      rw [hraw]
      exact hsub.symm
    have hperf := Node.perform_rule h₁.node fun _ _ => u
    split at heq
    · rename_i n v hok
      cases heq
      right
      rw [hok] at hperf
      cases hperf with
      | returns n' a x hos hu =>
        have hraw₁ : h₁.raw = true := by rw [hh₁]; exact hraw
        have hpc₁ : h₁.node.pc = .recv := by rw [hh₁]; exact hpc
        obtain ⟨hrun, hn', -⟩ := ops_run hraw₁ (.inl hpc₁) hos
        have hn' : n'.pc = .recv := hn'.trans hpc₁
        have hreply : ({ h₁ with node := n' } : Host A M).step (.node (.exec (.reply a v))) =
            some { h₁ with node := { n' with actor := a } } := by
          simp only [Host.step, Host.exec, hraw₁, if_true, Node.rawExec, hn', Option.map_some]
        exact ⟨hraw₁, hn', _, Lts.run_cons.2 ⟨h₁, hsub, Lts.run_concat hrun hreply⟩⟩
    · cases heq
      exact .inl rfl
    · cases heq
      exact .inl rfl
  | shutdown | host => cases hacc

/-- Others leave the router where it is. -/
theorem outside_step {h h' : Host A M} {e : TcpEvent A M} (hout : outside h e = some h') :
    h'.raw = h.raw ∧ h'.node.pc = h.node.pc ∧ ∃ l, h.step l = some h' := by
  cases e with
  | host l =>
    have hstep : l.isExec = false ∧ h.step l = some h' := by
      cases l with
      | node l => cases l <;> first | exact ⟨rfl, hout⟩ | cases hout
      | subscribe => cases hout
      | leave i => exact ⟨rfl, hout⟩
    obtain ⟨hex, hs⟩ := hstep
    refine ⟨?_, ?_, l, hs⟩
    · exact Host.step_raw hs
    · rcases Host.step_cases hs with ⟨x, rfl, -⟩ | ⟨-, hpc, -⟩
      · cases hex
      · exact hpc
  | pending | stream | failed | shutdown => cases hout

/-- A poll of `raw_shutdown` is a step of the executor. -/
theorem poll_step {h h' : Host A M} {e : TcpEvent A M} {r : Poll Unit} (hpoll : poll h e = some (h', r)) :
    h'.raw = h.raw ∧ ∃ l, h.step l = some h' := by
  cases e with
  | shutdown x =>
    have hexec : ∃ n, h.exec x = some n ∧ h' = { h with node := n } := by
      simp only [poll] at hpoll
      split at hpoll
      · cases hpoll
      · cases hpoll
      · cases hpoll
      · cases hpoll
      · obtain ⟨n, hn, heq⟩ := Option.map_eq_some_iff.1 hpoll
        cases heq
        exact ⟨n, hn, rfl⟩
    obtain ⟨n, hn, rfl⟩ := hexec
    exact ⟨rfl, .node (.exec x), by rw [Host.step, hn]; rfl⟩
  | pending | stream | failed | host => cases hpoll

/-- While the loop has a router, that has come from `h₀` as a `RawExecutor` goes. -/
structure Hosts (h₀ : Host A M) (n : EventLoop (Host A M) (Host A M) M ℕ) : Prop where
  accepting : ∀ h, n.pc = .select h → h.raw = true ∧ h.node.pc = .recv ∧ ∃ ls, Lts.run Host.step h₀ ls = some h
  stopping : ∀ h, n.pc = .shutdown h → h.raw = true ∧ ∃ ls, Lts.run Host.step h₀ ls = some h

theorem hosts_step {h₀ : Host A M} {n n' : EventLoop (Host A M) (Host A M) M ℕ} {l : LoopLabel (TcpEvent A M)}
    (hn : Hosts h₀ n) (h : n.step TcpListener.impl l = some n') : Hosts h₀ n' := by
  cases EventLoop.turns_rule h with
  | stays l component component' connections hpc hc =>
    obtain ⟨hraw, hrecv, ls, hrun⟩ := hn.accepting component hpc
    refine ⟨fun h heq => ?_, fun h heq => by cases heq⟩
    cases heq
    rcases hc with ⟨e, r, hacc, hr⟩ | ⟨e, hout⟩
    · obtain ⟨hraw', hrecv', ls', hrun'⟩ := (accept_run hraw hrecv hacc).resolve_left hr
      exact ⟨hraw', hrecv', ls ++ ls', Lts.run_append.2 ⟨component, hrun, hrun'⟩⟩
    · obtain ⟨hraw', hpc', l', hstep⟩ := outside_step hout
      exact ⟨hraw'.trans hraw, hpc'.trans hrecv, _, Lts.run_concat hrun hstep⟩
  | breaks component rx hpc =>
    obtain ⟨hraw, -, hrun⟩ := hn.accepting component hpc
    refine ⟨fun h heq => (by cases heq), fun h heq => ?_⟩
    cases heq
    exact ⟨hraw, hrun⟩
  | waits l future future' hpc hf =>
    obtain ⟨hraw, ls, hrun⟩ := hn.stopping future hpc
    refine ⟨fun h heq => (by cases heq), fun h heq => ?_⟩
    cases heq
    rcases hf with ⟨e, hpoll⟩ | ⟨e, hout⟩
    · obtain ⟨hraw', l', hstep⟩ := poll_step hpoll
      exact ⟨hraw'.trans hraw, _, Lts.run_concat hrun hstep⟩
    · obtain ⟨hraw', -, l', hstep⟩ := outside_step hout
      exact ⟨hraw'.trans hraw, _, Lts.run_concat hrun hstep⟩
  | returns | panics => exact ⟨fun h heq => (by cases heq), fun h heq => (by cases heq)⟩
  | signal l rx => exact ⟨hn.accepting, hn.stopping⟩

/-- **The loop of a `TcpListener` does to its router only what a `RawExecutor` does**, from the
start of the router on. -/
theorem hosted {cfg : Config} {a : A} {u : Usage A Unit} {h : Host A M} {ls : List (LoopLabel (TcpEvent A M))}
    {n : EventLoop (Host A M) (Host A M) M ℕ} (hnew : new cfg a u = some h)
    (hr : Lts.run (EventLoop.step TcpListener.impl) (EventLoop.init h) ls = some n) : Hosts (Host.init cfg true a) n := by
  refine Lts.run_inv (fun _ _ _ hn h => hosts_step hn h) ⟨fun h' heq => ?_, fun h' heq => by cases heq⟩ hr
  cases heq
  exact new_run hnew

end TcpListener

end Tokactor
