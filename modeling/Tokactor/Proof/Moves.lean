import Tokactor.Model.Executor

/-!
# What a task can do

For each kind of task the rules of its step function, with the label, what the step
needs, what becomes of the task and what it does to the actor; and `task_moves`, which
says that every step of a task is one of them.
-/

namespace Tokactor

variable {A M : Type}

/-! ## The wrapper of a supervised child -/

/-- The rules of `Child.step`. -/
inductive Child.Moves (v : View) (c : Child A) : ChildLabel A → Child A → Eff A M → Prop
  | handed (h : c.pc = .running) : Moves v c (.ended .handed) { c with pc := .handed true } {}
  | dead (a : A) (h : c.pc = .running) : Moves v c (.ended (.dead a)) { c with pc := .reporting a } {}
  | fails (e : ChildError) (h : c.pc = .running) : Moves v c (.ended (.failed e)) { c with pc := .failing e } {}
  | report (a : A) (h : c.pc = .reporting a) :
      Moves v c .send { c with pc := .reported a true } { push := some (.dead (.ok a)) }
  | error (e : ChildError) (h : c.pc = .failing e) :
      Moves v c .send { c with pc := .failed e true } { push := some (.dead (.error e)) }
  | crash (a : A) (h : c.pc = .reporting a) (hc : v.closed = true) :
      Moves v c .refused { c with pc := .crashed a } {}
  | lost (e : ChildError) (h : c.pc = .failing e) (hc : v.closed = true) :
      Moves v c .refused { c with pc := .failed e false } {}
  | dropHanded (h : c.pc = .handed true) : Moves v c .drop { c with pc := .handed false } {}
  | dropReported (a : A) (h : c.pc = .reported a true) :
      Moves v c .drop { c with pc := .reported a false } {}

theorem child_moves {v : View} {c c' : Child A} {l : ChildLabel A} {e : Eff A M}
    (h : c.step v l = some (c', e)) : c.Moves v l c' e := by
  cases l with
  | ended o =>
    simp only [Child.step] at h
    split at h
    · rename_i hpc
      cases o <;> cases h
      · exact .handed hpc
      · exact .dead _ hpc
      · exact .fails _ hpc
    · cases h
  | send =>
    simp only [Child.step] at h
    split at h <;> cases h
    · rename_i hpc; exact .report _ hpc
    · rename_i hpc; exact .error _ hpc
  | refused =>
    simp only [Child.step] at h
    split at h
    · rename_i hc
      split at h <;> cases h
      · rename_i hpc; exact .crash _ hpc hc
      · rename_i hpc; exact .lost _ hpc hc
    · cases h
  | drop =>
    simp only [Child.step] at h
    split at h <;> cases h
    · rename_i hpc; exact .dropHanded hpc
    · rename_i hpc; exact .dropReported _ hpc

/-! ## Anonymous actors -/

/-- The rules of `Anon.step`. -/
inductive Anon.Moves (v : View) (a : Anon A M) : AnonLabel M → Anon A M → Eff A M → Prop
  | spawn (h : a.pc = .queued) : Moves v a .spawn { a with pc := .fresh } {}
  | poll (h : a.pc = .fresh) (hs : v.shutdown = false) : Moves v a .poll { a with pc := .running } {}
  | skip (h : a.pc = .fresh) (hs : v.shutdown = true) : Moves v a .poll (a.finished none).1 (a.finished none).2
  | finish (out : M) (h : a.pc = .running) :
      Moves v a (.finish out) (a.finished (some out)).1 (a.finished (some out)).2
  | lost (k j : ℕ) (hk : a.kind = .reply k j) (h : a.pc = .running) :
      Moves v a .lost (a.finished none).1
        { (a.finished none).2 with push := if v.closed then none else some (.cancelled .cancel) }
  | cancel (h : a.pc = .running) (hs : v.shutdown = true ∨ v.dropped = true) :
      Moves v a .cancel (a.finished none).1 (a.finished none).2
  | panic (h : a.pc = .running) : Moves v a .panic a.unwind.1 a.unwind.2
  | wake (out : Option (Option M)) (hk : a.kind ≠ .handle)
      (h : (∃ o, a.pc = .returned o ∧ out = some o) ∨ a.pc = .crashed ∧ out = none) :
      Moves v a .wake { a with pc := .sending (a.report out) } {}
  | send (b : Body A M) (h : a.pc = .sending b) : Moves v a .send { a with pc := .sent b } { push := some b }
  | refused (b : Body A M) (h : a.pc = .sending b) (hc : v.closed = true) :
      Moves v a .refused { a with pc := .sent b } {}
  | drop (b : Body A M) (h : a.pc = .sent b) : Moves v a .drop { a with pc := .closing } {}
  | release (h : a.pc = .closing) : Moves v a .release { a with pc := .done } { release := a.tracked }
  | haltQueued (hk : a.kind ≠ .handle) (hh : a.halted = false) (h : a.pc = .queued) :
      Moves v a .halt { a with pc := .done } { release := a.tracked, answer := a.answer none }
  | haltLive (hk : a.kind ≠ .handle) (hh : a.halted = false) (h : a.pc = .fresh ∨ a.pc = .running) :
      Moves v a .halt { a with halted := true } { release := a.tracked }
  | haltLate (hk : a.kind ≠ .handle) (hh : a.halted = false) (h : a.live = false) (hd : a.pc ≠ .done) :
      Moves v a .halt { a with pc := .done } { release := a.tracked }
  | take (out : Option M) (hk : a.kind = .handle) (h : a.pc = .returned out) :
      Moves v a .take { a with pc := .done } {}

theorem fst_snd_of_some {α β : Type} {p : α × β} {x : α} {y : β} (h : some p = some (x, y)) :
    x = p.1 ∧ y = p.2 := by
  rw [Option.some.inj h]
  exact ⟨rfl, rfl⟩

theorem anon_moves {v : View} {a a' : Anon A M} {l : AnonLabel M} {e : Eff A M}
    (h : a.step v l = some (a', e)) : a.Moves v l a' e := by
  cases l with
  | spawn =>
    simp only [Anon.step] at h
    split at h <;> cases h
    exact .spawn ‹_›
  | poll =>
    simp only [Anon.step] at h
    split at h
    · -- the first look at the notifier
      rename_i hpc
      cases hs : v.shutdown
      · rw [hs] at h; cases h; exact .poll hpc hs
      · rw [hs, if_pos rfl] at h
        obtain ⟨rfl, rfl⟩ := fst_snd_of_some h
        exact .skip hpc hs
    · cases h
  | finish out =>
    simp only [Anon.step] at h
    split at h
    · obtain ⟨rfl, rfl⟩ := fst_snd_of_some h
      exact .finish out ‹_›
    · cases h
  | lost =>
    simp only [Anon.step] at h
    split at h <;> cases h
    exact .lost _ _ ‹_› ‹_›
  | cancel =>
    simp only [Anon.step] at h
    split at h
    · rename_i hpc
      split at h
      · rename_i hs
        obtain ⟨rfl, rfl⟩ := fst_snd_of_some h
        exact .cancel hpc (by simpa using hs)
      · cases h
    · cases h
  | panic =>
    simp only [Anon.step] at h
    split at h
    · obtain ⟨rfl, rfl⟩ := fst_snd_of_some h
      exact .panic ‹_›
    · cases h
  | wake =>
    simp only [Anon.step] at h
    split at h
    · cases h
    · rename_i out hpc hk
      cases h
      exact .wake _ hk (.inl ⟨out, hpc, rfl⟩)
    · rename_i hpc hk
      cases h
      exact .wake _ hk (.inr ⟨hpc, rfl⟩)
    · cases h
  | send =>
    simp only [Anon.step] at h
    split at h <;> cases h
    exact .send _ ‹_›
  | refused =>
    simp only [Anon.step] at h
    split at h
    · split at h <;> cases h
      exact .refused _ ‹_› ‹_›
    · cases h
  | drop =>
    simp only [Anon.step] at h
    split at h <;> cases h
    exact .drop _ ‹_›
  | release =>
    simp only [Anon.step] at h
    split at h <;> cases h
    exact .release ‹_›
  | halt =>
    simp only [Anon.step] at h
    split at h
    all_goals cases h
    · rename_i hpc hk hh
      exact .haltQueued hk (by simpa using hh) hpc
    · rename_i hpc hk hh
      exact .haltLive hk (by simpa using hh) (.inl hpc)
    · rename_i hpc hk hh
      exact .haltLive hk (by simpa using hh) (.inr hpc)
    · -- a halt that comes when the future is over
      rename_i hk hh hd hq hf hr
      refine .haltLate hk (by simpa using hh) ?_ hd
      cases hpc : a.pc <;> simp_all [Anon.live]
  | take =>
    simp only [Anon.step] at h
    split at h <;> cases h
    exact .take _ ‹_› ‹_›

/-! ## Forwarders -/

/-- The rules of `Fwd.step`. -/
inductive Fwd.Moves (v : View) (f : Fwd M) : FwdLabel M → Fwd M → Eff A M → Prop
  | push (m : M) (c : Chan M) (h : f.chan.push m = some c) : Moves v f (.push m) { f with chan := c } {}
  | recv (m : M) (c : Chan M) (h : f.pc = .select) (hp : f.chan.pop = some (m, c)) :
      Moves v f .recv { f with chan := c, pc := .sending m } {}
  | none (h : f.pc = .select) (hq : f.chan.queue = []) :
      Moves v f .none { f with chan := f.chan.close, pc := .leaving } {}
  | shutdown (h : f.pc = .select) (hs : v.shutdown = true) : Moves v f .shutdown { f with pc := .leaving } {}
  | died (h : f.pc = .select) (hd : v.dropped = true) :
      Moves v f .died { f with chan := f.chan.close, pc := .panicked } {}
  | send (m : M) (h : f.pc = .sending m) :
      Moves v f .send { f with pc := if f.kind.isAsk then .asking v.nextAsk else .select }
        { push := some (f.kind.body m v.nextAsk), newAsk := f.kind.isAsk }
  | lost (m : M) (h : f.pc = .sending m) (hc : v.closed = true) (hk : f.kind.isAsk = true) :
      Moves v f .refused { f with chan := f.chan.close, pc := .panicked } {}
  | refused (m : M) (h : f.pc = .sending m) (hc : v.closed = true) (hk : f.kind.isAsk = false) :
      Moves v f .refused { f with pc := .leaving } {}
  | answered (k : ℕ) (h : f.pc = .asking k) (ha : v.answered k = true) :
      Moves v f .answered { f with pc := .select } {}
  | leave (h : f.pc = .leaving) : Moves v f .leave { f with pc := .left } {}
  | close (h : f.pc = .left) : Moves v f .close { f with chan := f.chan.close, pc := .done } {}

theorem fwd_moves {v : View} {f f' : Fwd M} {l : FwdLabel M} {e : Eff A M}
    (h : f.step v l = some (f', e)) : f.Moves v l f' e := by
  cases l with
  | push m =>
    simp only [Fwd.step, Option.map_eq_some_iff] at h
    obtain ⟨c, hc, hp⟩ := h
    cases hp
    exact .push m c hc
  | recv =>
    simp only [Fwd.step] at h
    split at h
    · simp only [Option.map_eq_some_iff] at h
      obtain ⟨⟨m, c⟩, hc, hp⟩ := h
      cases hp
      exact .recv m c ‹_› hc
    · cases h
  | none =>
    simp only [Fwd.step] at h
    split at h <;> cases h
    exact .none ‹_› ‹_›
  | shutdown =>
    simp only [Fwd.step] at h
    split at h
    · split at h <;> cases h
      exact .shutdown ‹_› ‹_›
    · cases h
  | died =>
    simp only [Fwd.step] at h
    split at h
    · split at h <;> cases h
      exact .died ‹_› ‹_›
    · cases h
  | send =>
    simp only [Fwd.step] at h
    split at h <;> cases h
    exact .send _ ‹_›
  | refused =>
    simp only [Fwd.step] at h
    split at h
    · rename_i m hpc
      split at h
      · rename_i hc
        -- an ask whose message comes back is lost; another message ends the forwarder
        by_cases hk : f.kind.isAsk = true
        · rw [if_pos hk] at h; cases h; exact .lost m hpc hc hk
        · rw [if_neg hk] at h; cases h; exact .refused m hpc hc (by simpa using hk)
      · cases h
    · cases h
  | answered =>
    simp only [Fwd.step] at h
    split at h
    · split at h <;> cases h
      exact .answered _ ‹_› ‹_›
    · cases h
  | leave =>
    simp only [Fwd.step] at h
    split at h <;> cases h
    exact .leave ‹_›
  | close =>
    simp only [Fwd.step] at h
    split at h <;> cases h
    exact .close ‹_›

/-! ## One task of any kind -/

/-- The rules of `Task.step`. -/
inductive Task.Moves (v : View) : Task A M → TaskLabel A M → Task A M → Eff A M → Prop
  | child {c c' : Child A} {l : ChildLabel A} {e : Eff A M} (h : c.Moves v l c' e) :
      Moves v (.child c) (.child l) (.child c') e
  | anon {a a' : Anon A M} {l : AnonLabel M} {e : Eff A M} (h : a.Moves v l a' e) :
      Moves v (.anon a) (.anon l) (.anon a') e
  | fwd {f f' : Fwd M} {l : FwdLabel M} {e : Eff A M} (h : f.Moves v l f' e) :
      Moves v (.fwd f) (.fwd l) (.fwd f') e

/-- Only anonymous actors make the moves of one. -/
theorem Task.Moves.of_anon {v : View} {s t : Task A M} {l : AnonLabel M} {e : Eff A M} (h : s.Moves v (.anon l) t e) :
    ∃ a a', s = .anon a ∧ t = .anon a' ∧ a.Moves v l a' e := by
  cases h with
  | anon h => exact ⟨_, _, rfl, rfl, h⟩

/-- **Every step of a task is one of the rules.** -/
theorem task_moves {v : View} {s t : Task A M} {l : TaskLabel A M} {e : Eff A M}
    (h : s.step v l = some (t, e)) : s.Moves v l t e := by
  unfold Task.step at h
  split at h
  · simp only [Option.map_eq_some_iff] at h
    obtain ⟨⟨c, e⟩, hc, hp⟩ := h
    cases hp
    exact .child (child_moves hc)
  · simp only [Option.map_eq_some_iff] at h
    obtain ⟨⟨a, e⟩, ha, hp⟩ := h
    cases hp
    exact .anon (anon_moves ha)
  · simp only [Option.map_eq_some_iff] at h
    obtain ⟨⟨f, e⟩, hf, hp⟩ := h
    cases hp
    exact .fwd (fwd_moves hf)
  · cases h

end Tokactor
