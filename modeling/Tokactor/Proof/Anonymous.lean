import Tokactor.Lib.Tally
import Tokactor.Proof.Tasks

/-!
# Anonymous actors and their permits

* `Anon.Sound`: a handle has no wrapper, and only a task whose future was alive goes on
  when its wrapper is halted.
* `permits_run`: the permits available and the permits held are the permits there are.
-/

namespace Tokactor

variable {A M : Type}

/-! ## One anonymous actor -/

/-- There is a wrapper around the task. -/
def AnonKind.wrapper : AnonKind → Bool
  | .handle => false
  | _ => true

/-- What holds of every anonymous actor. -/
structure Anon.Sound (a : Anon A M) : Prop where
  halted : a.halted = true → a.kind.wrapper = true ∧ (a.pc = .fresh ∨ a.pc = .running ∨ a.pc = .done)
  handle : a.kind.wrapper = false →
    a.pc = .fresh ∨ a.pc = .running ∨ (∃ out, a.pc = .returned out) ∨ a.pc = .done

theorem AnonKind.wrapper_of_ne {kind : AnonKind} (h : kind ≠ .handle) : kind.wrapper = true := by
  cases kind <;> simp_all [wrapper]

/-- Elsewhere the task is not halted. -/
theorem Anon.Sound.unhalted {a : Anon A M} (hs : a.Sound) (h1 : a.pc ≠ .fresh) (h2 : a.pc ≠ .running)
    (h3 : a.pc ≠ .done) : a.halted = false := by
  by_contra hh
  rcases (hs.halted (by simpa using hh)).2 with h | h | h
  · exact h1 h
  · exact h2 h
  · exact h3 h

/-- Where no handle gets to, there is a wrapper that was not halted. -/
theorem Anon.Sound.wrapped {a : Anon A M} (hs : a.Sound) (h1 : a.pc ≠ .fresh) (h2 : a.pc ≠ .running)
    (h3 : ∀ out, a.pc ≠ .returned out) (h4 : a.pc ≠ .done) : a.kind.wrapper = true ∧ a.halted = false := by
  refine ⟨?_, hs.unhalted h1 h2 h4⟩
  by_contra hw
  rcases hs.handle (by simpa using hw) with h | h | ⟨out, h⟩ | h
  · exact h1 h
  · exact h2 h
  · exact h3 out h
  · exact h4 h

theorem Anon.finished_cases (a : Anon A M) (out : Option M) :
    a.halted = true ∧ a.finished out = ({ a with pc := .done }, { answer := a.answer out }) ∨
    a.halted = false ∧ a.kind = .handle ∧
      a.finished out = ({ a with pc := .returned out }, { release := a.tracked }) ∨
    a.halted = false ∧ a.kind ≠ .handle ∧
      a.finished out = ({ a with pc := .returned out }, { answer := a.answer out }) := by
  unfold finished
  by_cases hh : a.halted = true
  · exact .inl ⟨hh, if_pos hh⟩
  · rw [if_neg hh]
    have hh : a.halted = false := by simpa using hh
    cases hk : a.kind
    case handle => exact .inr (.inl ⟨hh, rfl, rfl⟩)
    all_goals exact .inr (.inr ⟨hh, by simp, rfl⟩)

theorem Anon.unwind_cases (a : Anon A M) :
    a.halted = true ∧ a.unwind = ({ a with pc := .done }, { answer := a.answer none }) ∨
    a.halted = false ∧ a.kind = .handle ∧ a.unwind = ({ a with pc := .done }, { release := a.tracked }) ∨
    a.halted = false ∧ a.kind ≠ .handle ∧
      a.unwind = ({ a with pc := .crashed }, { answer := a.answer none }) := by
  unfold unwind
  by_cases hh : a.halted = true
  · exact .inl ⟨hh, if_pos hh⟩
  · rw [if_neg hh]
    have hh : a.halted = false := by simpa using hh
    cases hk : a.kind
    case handle => exact .inr (.inl ⟨hh, rfl, rfl⟩)
    all_goals exact .inr (.inr ⟨hh, by simp, rfl⟩)

theorem Anon.finished_pc (a : Anon A M) (out : Option M) :
    (a.finished out).1.pc = .done ∨ (a.finished out).1.pc = .returned out := by
  rcases a.finished_cases out with ⟨-, he⟩ | ⟨-, -, he⟩ | ⟨-, -, he⟩ <;> rw [he] <;> simp

theorem Anon.unwind_pc (a : Anon A M) : a.unwind.1.pc = .done ∨ a.unwind.1.pc = .crashed := by
  rcases a.unwind_cases with ⟨-, he⟩ | ⟨-, -, he⟩ | ⟨-, -, he⟩ <;> rw [he] <;> simp

theorem Anon.finished_push (a : Anon A M) (out : Option M) : (a.finished out).2.push = none := by
  rcases a.finished_cases out with ⟨-, he⟩ | ⟨-, -, he⟩ | ⟨-, -, he⟩ <;> rw [he]

theorem Anon.unwind_push (a : Anon A M) : a.unwind.2.push = none := by
  rcases a.unwind_cases with ⟨-, he⟩ | ⟨-, -, he⟩ | ⟨-, -, he⟩ <;> rw [he]

theorem Anon.finished_live (a : Anon A M) (out : Option M) : (a.finished out).1.live = false := by
  unfold Anon.live
  rcases a.finished_pc out with h | h <;> rw [h]

theorem Anon.unwind_live (a : Anon A M) : a.unwind.1.live = false := by
  unfold Anon.live
  rcases a.unwind_pc with h | h <;> rw [h]

theorem Anon.Moves.live {v : View} {a a' : Anon A M} {l : AnonLabel M} {e : Eff A M}
    (h : a.Moves v l a' e) (hl : a'.live = true) : a.live = true := by
  cases h with
  | skip h | finish out h | cancel h | lost k j hk h => rw [Anon.finished_live] at hl; cases hl
  | panic h => rw [Anon.unwind_live] at hl; cases hl
  | haltLive hk hh h => exact hl
  | _ => simp_all [Anon.live]

theorem Anon.Sound.finished {a : Anon A M} (hs : a.Sound) (out : Option M) : (a.finished out).1.Sound := by
  rcases a.finished_cases out with ⟨hh, he⟩ | ⟨hh, hk, he⟩ | ⟨hh, hk, he⟩ <;> rw [he]
  · exact ⟨fun h => ⟨(hs.halted h).1, by simp⟩, fun h => by simp⟩
  · exact ⟨fun h => by simp [hh] at h, fun h => by simp⟩
  · exact ⟨fun h => by simp [hh] at h, fun h => by simp⟩

theorem Anon.Moves.sound {v : View} {a a' : Anon A M} {l : AnonLabel M} {e : Eff A M}
    (hs : a.Sound) (h : a.Moves v l a' e) : a'.Sound := by
  cases h with
  | skip h | finish out h | cancel h | lost k j hk h => exact hs.finished _
  | panic h =>
    rcases a.unwind_cases with ⟨hh, he⟩ | ⟨hh, hk, he⟩ | ⟨hh, hk, he⟩ <;> rw [he]
    · exact ⟨fun h => ⟨(hs.halted h).1, by simp⟩, fun h => by simp⟩
    · exact ⟨fun h => by simp [hh] at h, fun h => by simp⟩
    · refine ⟨fun h => by simp [hh] at h, fun h => ?_⟩
      have := AnonKind.wrapper_of_ne hk
      simp_all
  | poll h | spawn h | send b h | refused b h | drop b h | release h =>
    refine ⟨fun hh => ?_, fun hk => ?_⟩
    · have := hs.halted hh; simp_all
    · have := hs.handle hk; simp_all
  | wake out hk h =>
    refine ⟨fun hh => ?_, fun hk' => ?_⟩
    · have := hs.halted hh
      rcases h with ⟨o, h, -⟩ | ⟨h, -⟩ <;> simp_all
    · rw [AnonKind.wrapper_of_ne hk] at hk'; cases hk'
  | haltQueued hk hh' h | haltLate hk hh' h =>
    refine ⟨fun hh => ?_, fun hk' => ?_⟩
    · simp_all
    · rw [AnonKind.wrapper_of_ne hk] at hk'; cases hk'
  | haltLive hk hh h =>
    refine ⟨fun _ => ⟨AnonKind.wrapper_of_ne hk, h.imp_right .inl⟩, fun hk' => ?_⟩
    rw [AnonKind.wrapper_of_ne hk] at hk'; cases hk'
  | take out hk h =>
    refine ⟨fun hh => ?_, fun _ => by simp⟩
    have := hs.halted hh; simp_all

/-- A permit is given back by the task that held it. -/
theorem Anon.Moves.permit {v : View} {a a' : Anon A M} {l : AnonLabel M} {e : Eff A M}
    (hs : a.Sound) (h : a.Moves v l a' e) : a'.permit.toNat + e.release.toNat = a.permit.toNat := by
  have hfin : ∀ out, a.live = true →
      (a.finished out).1.permit.toNat + (a.finished out).2.release.toNat = a.permit.toNat := by
    intro out hl
    rcases a.finished_cases out with ⟨hh, he⟩ | ⟨hh, hk, he⟩ | ⟨hh, hk, he⟩ <;> rw [he]
    · simp [Anon.permit, hh]
    · cases hpc : a.pc <;> simp_all [Anon.permit, Anon.live]
    · cases hpc : a.pc <;> simp_all [Anon.permit, Anon.live]
  cases h with
  | skip h | finish out h | cancel h | lost k j hk h => exact hfin _ (by simp [Anon.live, h])
  | panic h =>
    rcases a.unwind_cases with ⟨hh, he⟩ | ⟨hh, hk, he⟩ | ⟨hh, hk, he⟩ <;> rw [he] <;>
      simp_all [Anon.permit]
  | wake out hk h => rcases h with ⟨o, h, -⟩ | ⟨h, -⟩ <;> cases hk' : a.kind <;> simp_all [Anon.permit]
  | haltLive hk hh h => rcases h with h | h <;> cases hk' : a.kind <;> simp_all [Anon.permit]
  | haltLate hk hh h hd =>
    cases hpc : a.pc <;> cases hk' : a.kind <;> simp_all [Anon.permit]
  | release h =>
    have hh := hs.unhalted (by simp [h]) (by simp [h]) (by simp [h])
    cases hk' : a.kind <;> simp_all [Anon.permit]
  | _ => cases hk' : a.kind <;> simp_all [Anon.permit]

/-! ## All of them -/

/-- What the moves of an anonymous actor keep, the moves of a task keep. -/
theorem Task.Moves.anons {P : Anon A M → Prop} {v : View} {s t : Task A M} {l : TaskLabel A M} {e : Eff A M}
    (hkeep : ∀ v a l a' e, P a → a.Moves v l a' e → P a') (h : s.Moves v l t e) (hs : ∀ a, s = .anon a → P a) :
    ∀ a, t = .anon a → P a := by
  intro a ha
  subst ha
  cases h with
  | anon h => exact hkeep _ _ _ _ _ (hs _ rfl) h

/-- **Invariant rule for anonymous actors.** What holds of a fresh one and is kept by its moves
holds of every one. -/
theorem anons_step {P : Anon A M → Prop} (hnew : ∀ a, a.halted = false → a.pc = a.kind.start → P a)
    (hkeep : ∀ v a l a' e, P a → a.Moves v l a' e → P a') {n n' : Node A M} {l : Label A M}
    (hs : ∀ s ∈ n.tasks, ∀ a, s.task = .anon a → P a) (h : n.step l = some n') :
    ∀ s ∈ n'.tasks, ∀ a, s.task = .anon a → P a := by
  refine slots_keep (P := fun s => ∀ a, s.task = .anon a → P a) ?_ (fun s v l t e hs hm => hm.anons hkeep hs) hs h
  intro t ht a ha
  have ha : t = .anon a := ha
  subst ha
  exact hnew a ht.1 ht.2

/-- The anonymous actor of the slot is sound. -/
def Slot.Sound (s : Slot A M) : Prop := ∀ a, s.task = .anon a → a.Sound

theorem Anon.sound_new {a : Anon A M} (hh : a.halted = false) (hpc : a.pc = a.kind.start) : a.Sound := by
  refine ⟨fun h => (by rw [hh] at h; cases h), fun hk => ?_⟩
  cases hkind : a.kind <;> simp_all [AnonKind.wrapper, AnonKind.start]

theorem sound_step {n n' : Node A M} {l : Label A M} (hs : ∀ s ∈ n.tasks, s.Sound)
    (h : n.step l = some n') : ∀ s ∈ n'.tasks, s.Sound :=
  anons_step (fun _ => Anon.sound_new) (fun _ _ _ _ _ hs hm => hm.sound hs) hs h

/-- A permit is given back by the task that held it. -/
theorem Task.Moves.permit {v : View} {s t : Task A M} {l : TaskLabel A M} {e : Eff A M}
    (h : s.Moves v l t e) (hs : ∀ a, s = .anon a → a.Sound) :
    t.permit.toNat + e.release.toNat = s.permit.toNat := by
  cases h with
  | child h => cases h <;> rfl
  | anon h => exact h.permit (hs _ rfl)
  | fwd h => cases h <;> rfl

/-- How many tasks of the actor have the property `p`. -/
def Node.tally (n : Node A M) (p : Task A M → Bool) : ℕ := n.tasks.countP fun s => p s.task

/-- What the step of a task does to a count. -/
theorem Node.Tasked.tally {n n' : Node A M} {k : ℕ} {l : TaskLabel A M} {s : Slot A M} {t : Task A M}
    {e : Eff A M} (h : Node.Tasked n k l n' s t e) (p : Task A M → Bool) :
    n'.tally p + (p s.task).toNat = n.tally p + (p t).toNat := by
  unfold Node.tally
  rw [h.tasks]
  exact Tally.tally_set (fun s : Slot A M => p s.task) h.slot _

/-- A task that the executor starts is counted. -/
theorem Node.Starts.tally {n n' : Node A M} {t : Task A M} (h : Node.Starts n n' t)
    (p : Task A M → Bool) : n'.tally p = n.tally p + (p t).toNat := by
  unfold Node.tally
  rw [h.1]
  exact Tally.tally_concat (fun s : Slot A M => p s.task) _ _

/-- The permits available and the permits held are all there are. -/
structure Permits (n : Node A M) : Prop where
  sound : ∀ s ∈ n.tasks, s.Sound
  sum : n.permits + n.tally Task.permit = n.cfg.maxAnonymousActors

theorem Node.Tasked.sound {n n' : Node A M} {k : ℕ} {l : TaskLabel A M} {s : Slot A M} {t : Task A M}
    {e : Eff A M} (h : Node.Tasked n k l n' s t e) (hs : ∀ s ∈ n.tasks, s.Sound) :
    (∀ a, s.task = .anon a → a.Sound) ∧ ∀ s ∈ n'.tasks, s.Sound := by
  have h0 := hs s (List.mem_of_getElem? h.slot)
  exact ⟨h0, h.slots hs (h.moves.anons (fun _ _ _ _ _ hs hm => hm.sound hs) h0)⟩

theorem permits_exec {n n' : Node A M} {x : Act A M} (hp : n.permits + n.tally Task.permit = n.cfg.maxAnonymousActors)
    (hx : Node.Exec n x n') : n'.permits + n'.tally Task.permit = n'.cfg.maxAnonymousActors := by
  rw [Node.exec_cfg hx]
  rcases Node.exec_tasks hx with ⟨ht, hpm⟩ | ⟨t, hst⟩
  · unfold Node.tally at *
    rw [ht, hpm]
    exact hp
  · have hcount := hst.tally Task.permit
    cases hst.2 with
    | child id hs hpm ho =>
      have hzero : (Task.permit (.child ⟨id, .running⟩ : Task A M)).toNat = 0 := rfl
      omega
    | tracked kind hpm ho =>
      have hone : (Task.permit (.anon ⟨kind, true, false, kind.start⟩ : Task A M)).toNat = 1 := by
        cases kind <;> rfl
      omega
    | untracked kind h0 h0' ho =>
      have hzero : (Task.permit (.anon ⟨kind, false, false, kind.start⟩ : Task A M)).toNat = 0 := by
        cases kind <;> rfl
      omega

theorem permits_tasked {n n' : Node A M} {k : ℕ} {l : TaskLabel A M} {s : Slot A M} {t : Task A M}
    {e : Eff A M} (hp : Permits n) (h : Node.Tasked n k l n' s t e) : Permits n' := by
  obtain ⟨h0, hsound⟩ := h.sound hp.sound
  refine ⟨hsound, ?_⟩
  have hcount := h.tally Task.permit
  have hback := h.moves.permit h0
  have hpm := h.permits
  have hsum := hp.sum
  rw [h.outside.cfg]
  cases hr : e.release <;> simp [hr] at hpm hback <;> omega

theorem permits_step {n n' : Node A M} {l : Label A M} (hp : Permits n) (h : n.step l = some n') :
    Permits n' := by
  have hsound := sound_step hp.sound h
  refine Node.step_keeps (I := Permits) hp h ?_ ?_ ?_
  · intro x _ hx
    exact ⟨hsound, permits_exec hp.sum hx⟩
  · intro n₁ k tl n₂ s t e hp₁ _ hk
    exact permits_tasked hp₁ hk
  · intro ms hr
    refine ⟨hsound, ?_⟩
    have hsum := hp.sum
    unfold Node.tally at *
    rw [hr.tasks, hr.permits, hr.outside.cfg]
    exact hsum

theorem permits_init (cfg : Config) (a : A) : Permits (Node.init cfg a : Node A M) where
  sound s hs a ha := by
    obtain ⟨kind, rfl⟩ := mem_init_tasks hs
    cases ha
  sum := by
    have hzero : (Node.init cfg a : Node A M).tally Task.permit = 0 := by
      unfold Node.tally
      rw [List.countP_eq_zero]
      intro s hs
      obtain ⟨kind, rfl⟩ := mem_init_tasks hs
      simp [Task.permit]
    rw [hzero]
    rfl

/-- **The permits available and the permits held are the permits there are**, in every
reachable state. -/
theorem permits_run {cfg : Config} {a : A} {ls : List (Label A M)} {n : Node A M}
    (hr : Lts.run Node.step (Node.init cfg a) ls = some n) : Permits n :=
  Lts.run_inv (fun _ _ _ hp h => permits_step hp h) (permits_init cfg a) hr

/-! ## What tasks send -/

/-- The caller of `.await` that a body is from. -/
def Body.awaiter : Body A M → Option ℕ
  | .await _ w => some w
  | _ => none

/-- What the wrapper sends, or has sent, has the property `Q`. -/
def Anon.Sends (Q : Body A M → Prop) (a : Anon A M) : Prop := ∀ b, a.pc = .sending b ∨ a.pc = .sent b → Q b

theorem Anon.sends_new {Q : Body A M → Prop} {a : Anon A M} (hpc : a.pc = a.kind.start) : a.Sends Q := by
  intro b hb
  rw [hpc] at hb
  cases hk : a.kind <;> rw [hk] at hb <;> simp [AnonKind.start] at hb

/-- It sends nothing but the report of its task. -/
theorem Anon.Moves.sends {Q : Body A M → Prop} (hQ : ∀ (a : Anon A M) out, Q (a.report out)) {v : View}
    {a a' : Anon A M} {l : AnonLabel M} {e : Eff A M} (ha : a.Sends Q) (h : a.Moves v l a' e) : a'.Sends Q := by
  intro b hb
  cases h with
  | skip h | finish out h | cancel h | lost k j hk h =>
    rcases a.finished_pc _ with hpc | hpc <;> rw [hpc] at hb <;> simp at hb
  | panic h => rcases a.unwind_pc with hpc | hpc <;> rw [hpc] at hb <;> simp at hb
  | wake out hk h =>
    have hb : a.report out = b := by simpa using hb
    rw [← hb]
    exact hQ a out
  | send b' h | refused b' h =>
    have hb : b' = b := by simpa using hb
    exact ha b (.inl (hb ▸ h))
  | haltLive hk hh h => exact ha b hb
  | _ => simp at hb

theorem Task.Moves.sends {Q : Body A M → Prop} (hQ : ∀ (a : Anon A M) out, Q (a.report out)) {v : View}
    {s t : Task A M} {l : TaskLabel A M} {e : Eff A M} (h : s.Moves v l t e) (hs : ∀ a, s = .anon a → a.Sends Q) :
    ∀ a, t = .anon a → a.Sends Q :=
  h.anons (fun _ _ _ _ _ ha hm => hm.sends hQ ha) hs

theorem sends_step {Q : Body A M → Prop} (hQ : ∀ (a : Anon A M) out, Q (a.report out)) {n n' : Node A M}
    {l : Label A M} (hs : ∀ s ∈ n.tasks, ∀ a, s.task = .anon a → a.Sends Q) (h : n.step l = some n') :
    ∀ s ∈ n'.tasks, ∀ a, s.task = .anon a → a.Sends Q :=
  anons_step (fun _ _ => Anon.sends_new) (fun _ _ _ _ _ ha hm => hm.sends hQ ha) hs h

/-- What a wrapper sends carries no one-shot sender. -/
def Anon.Plain (a : Anon A M) : Prop :=
  ∀ b, a.pc = .sending b ∨ a.pc = .sent b → b.awaiter = none ∧ b.asker = none

theorem Anon.report_plain (a : Anon A M) (out : Option (Option M)) :
    (a.report out).awaiter = none ∧ (a.report out).asker = none := by
  unfold Anon.report
  split <;> exact ⟨rfl, rfl⟩

/-- The anonymous actor of the slot is plain. -/
def Slot.Plain (s : Slot A M) : Prop := ∀ a, s.task = .anon a → a.Plain

theorem Task.Moves.plain {v : View} {s t : Task A M} {l : TaskLabel A M} {e : Eff A M}
    (h : s.Moves v l t e) (hs : ∀ a, s = .anon a → a.Plain) : ∀ a, t = .anon a → a.Plain :=
  h.sends Anon.report_plain hs

theorem FwdKind.body_cells (kind : FwdKind) (m : M) (k : ℕ) :
    (kind.body m k : Body A M).awaiter = none ∧
      ((kind.body m k : Body A M).asker = none ∨ kind.isAsk = true ∧ (kind.body m k : Body A M).asker = some k) := by
  cases kind with
  | handle => exact ⟨rfl, .inl rfl⟩
  | ask | asyncAsk s => exact ⟨rfl, .inr ⟨rfl, rfl⟩⟩

/-- A message of a task is no await request; it is an ask only if the task makes a new
one. -/
theorem Task.Moves.push {v : View} {s t : Task A M} {l : TaskLabel A M} {e : Eff A M}
    (h : s.Moves v l t e) (hs : ∀ a, s = .anon a → a.Plain) {b : Body A M} (hb : e.push = some b) :
    b.awaiter = none ∧ (b.asker = none ∨ e.newAsk = true ∧ b.asker = some v.nextAsk) := by
  cases h with
  | child h => cases h <;> cases hb <;> exact ⟨rfl, .inl rfl⟩
  | anon h =>
    cases h with
    | skip h | finish out h | cancel h => rw [Anon.finished_push] at hb; cases hb
    | panic h => rw [Anon.unwind_push] at hb; cases hb
    | lost k j hk h =>
      have hb : b = .cancelled .cancel := by
        cases hc : v.closed <;> simp [hc] at hb
        exact hb.symm
      rw [hb]
      exact ⟨rfl, .inl rfl⟩
    | send b' h =>
      cases hb
      obtain ⟨h1, h2⟩ := hs _ rfl b (.inl h)
      exact ⟨h1, .inl h2⟩
    | _ => cases hb
  | fwd h =>
    cases h with
    | send m h =>
      cases hb
      exact FwdKind.body_cells _ m v.nextAsk
    | _ => cases hb

theorem plain_step {n n' : Node A M} {l : Label A M} (hs : ∀ s ∈ n.tasks, s.Plain)
    (h : n.step l = some n') : ∀ s ∈ n'.tasks, s.Plain :=
  sends_step Anon.report_plain hs h

theorem plain_init (cfg : Config) (a : A) : ∀ s ∈ (Node.init cfg a : Node A M).tasks, s.Plain := by
  intro s hs a ha
  obtain ⟨kind, rfl⟩ := mem_init_tasks hs
  cases ha

end Tokactor
