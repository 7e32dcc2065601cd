import Mathlib.Data.List.Basic
import Mathlib.Order.Basic

/-!
# Runs of a partial step function

A system is given by `step : S → L → Option S`: in state `s` the label `l` is
enabled when `step s l` is defined. A label carries every choice of a step, so a
run is determined by its labels.

* `run`: the state after a list of labels.
* `Along`: a predicate holds at every step of a run.
* `run_inv`, `run_along`: the invariant rules.
* `Throughout`: a predicate holds of every state of a run; it does if and only if it holds
  at the start and no step breaks it (`throughout_iff`).
* `run_length`: the termination rule.
* `simulates`: the simulation rule, for what the steps put out (`outs`); `record` keeps it in
  the state.
* `Ascends`: a measure of the state never falls, which is a condition on single steps
  (`ascends_iff`).
-/

namespace Lts

variable {S L : Type*} (step : S → L → Option S)

/-- The state after the labels `ls`, each enabled in turn. -/
def run : S → List L → Option S
  | s, [] => some s
  | s, l :: ls => (step s l).bind fun s' => run s' ls

/-- `P` holds of the state and the label at every step of the run of `ls` from `s`. -/
def Along (P : S → L → Prop) : S → List L → Prop
  | _, [] => True
  | s, l :: ls => P s l ∧ ∀ s', step s l = some s' → Along P s' ls

variable {step}

@[simp] theorem run_nil (s : S) : run step s [] = some s := rfl

theorem run_cons {s t : S} {l : L} {ls : List L} :
    run step s (l :: ls) = some t ↔ ∃ s', step s l = some s' ∧ run step s' ls = some t := by
  simp [run, Option.bind_eq_some_iff]

theorem run_append {s t : S} {ls ls' : List L} :
    run step s (ls ++ ls') = some t ↔ ∃ s', run step s ls = some s' ∧ run step s' ls' = some t := by
  induction ls generalizing s with
  | nil => simp
  | cons l ls ih =>
    rw [List.cons_append, run_cons]
    constructor
    · rintro ⟨s1, h1, h2⟩
      obtain ⟨s2, h3, h4⟩ := ih.1 h2
      exact ⟨s2, run_cons.2 ⟨s1, h1, h3⟩, h4⟩
    · rintro ⟨s2, h1, h2⟩
      obtain ⟨s1, h3, h4⟩ := run_cons.1 h1
      exact ⟨s1, h3, ih.2 ⟨s2, h4, h2⟩⟩

instance Along.decidable {P : S → L → Prop} [∀ s l, Decidable (P s l)] :
    ∀ s ls, Decidable (Along step P s ls)
  | _, [] => .isTrue trivial
  | s, l :: ls =>
    match h : step s l with
    | none => decidable_of_iff (P s l) ⟨fun hp => ⟨hp, fun s' hs => by rw [h] at hs; cases hs⟩, And.left⟩
    | some s' =>
      have : Decidable (Along step P s' ls) := Along.decidable s' ls
      decidable_of_iff (P s l ∧ Along step P s' ls) <| by
        simp only [Along, h, Option.some.injEq]
        exact ⟨fun hp => ⟨hp.1, fun t ht => ht ▸ hp.2⟩, fun hp => ⟨hp.1, hp.2 s' rfl⟩⟩

theorem Along.mono {P Q : S → L → Prop} (hPQ : ∀ s l, P s l → Q s l) {s : S} {ls : List L}
    (h : Along step P s ls) : Along step Q s ls := by
  induction ls generalizing s with
  | nil => trivial
  | cons l ls ih => exact ⟨hPQ s l h.1, fun s' hs' => ih (h.2 s' hs')⟩

theorem Along.and {P Q : S → L → Prop} {s : S} {ls : List L} (hP : Along step P s ls)
    (hQ : Along step Q s ls) : Along step (fun s l => P s l ∧ Q s l) s ls := by
  induction ls generalizing s with
  | nil => trivial
  | cons l ls ih => exact ⟨⟨hP.1, hQ.1⟩, fun s' hs' => ih (hP.2 s' hs') (hQ.2 s' hs')⟩

/-- **Invariant rule under a step condition.** What holds at the start and is kept by
every step that meets `P` holds at the end of every run whose steps all meet `P`. -/
theorem run_along {I : S → Prop} {P : S → L → Prop}
    (hstep : ∀ s l s', I s → P s l → step s l = some s' → I s') {s t : S} {ls : List L}
    (h0 : I s) (hP : Along step P s ls) (hr : run step s ls = some t) : I t := by
  induction ls generalizing s with
  | nil => cases hr; exact h0
  | cons l ls ih =>
    obtain ⟨s', hs, hr'⟩ := run_cons.1 hr
    exact ih (hstep s l s' h0 hP.1 hs) (hP.2 s' hs) hr'

/-- **Invariant rule.** -/
theorem run_inv {I : S → Prop} (hstep : ∀ s l s', I s → step s l = some s' → I s') {s t : S}
    {ls : List L} (h0 : I s) (hr : run step s ls = some t) : I t := by
  induction ls generalizing s with
  | nil => cases hr; exact h0
  | cons l ls ih =>
    obtain ⟨s', hs, hr'⟩ := run_cons.1 hr
    exact ih (hstep s l s' h0 hs) hr'

/-- A run goes on by one step. -/
theorem run_concat {s t t' : S} {ls : List L} {l : L} (hr : run step s ls = some t) (h : step t l = some t') :
    run step s (ls ++ [l]) = some t' :=
  run_append.2 ⟨t, hr, by simp [run, h]⟩

/-- So does a condition on its steps. -/
theorem Along.concat {P : S → L → Prop} {s t : S} {ls : List L} {l : L} (hP : Along step P s ls)
    (hr : run step s ls = some t) (h : P t l) : Along step P s (ls ++ [l]) := by
  induction ls generalizing s with
  | nil =>
    cases hr
    exact ⟨h, fun _ _ => trivial⟩
  | cons l' ls ih =>
    obtain ⟨s', hs, hr'⟩ := run_cons.1 hr
    refine ⟨hP.1, fun s'' hs'' => ?_⟩
    rw [hs] at hs''
    cases hs''
    exact ih (hP.2 s' hs) hr'

/-- **Invariant rule over known states.** A step may use what is known of every state of a
run from the start. -/
theorem run_inv_of {I R : S → Prop} {s t : S} {ls : List L} (hR : ∀ ls t, run step s ls = some t → R t)
    (hstep : ∀ s l s', R s → I s → step s l = some s' → I s') (h0 : I s) (hr : run step s ls = some t) : I t := by
  refine (run_inv (I := fun t => (∃ ls, run step s ls = some t) ∧ I t) ?_ ⟨⟨[], rfl⟩, h0⟩ hr).2
  rintro t l t' ⟨⟨ls, hr⟩, hi⟩ h
  exact ⟨⟨ls ++ [l], run_concat hr h⟩, hstep t l t' (hR ls t hr) hi h⟩

/-- **Invariant rule over a history**: the invariant may speak of the labels so far. -/
theorem run_history {I : List L → S → Prop} {P : S → L → Prop}
    (hstep : ∀ ls s l s', I ls s → P s l → step s l = some s' → I (ls ++ [l]) s') {s t : S} {ls : List L}
    (h0 : I [] s) (hP : Along step P s ls) (hr : run step s ls = some t) : I ls t := by
  have key : ∀ (ls₁ ls₂ : List L) (s : S), I ls₁ s → Along step P s ls₂ → run step s ls₂ = some t → I (ls₁ ++ ls₂) t := by
    intro ls₁ ls₂
    induction ls₂ generalizing ls₁ with
    | nil =>
      intro s hi _ hr
      cases hr
      rwa [List.append_nil]
    | cons l ls₂ ih =>
      intro s hi hP hr
      obtain ⟨s', hs, hr'⟩ := run_cons.1 hr
      have := ih (ls₁ ++ [l]) s' (hstep ls₁ s l s' hi hP.1 hs) (hP.2 s' hs) hr'
      rwa [List.append_assoc] at this
  exact key [] ls s h0 hP hr

theorem Along.of_forall {P : S → L → Prop} (h : ∀ s l, P s l) {s : S} {ls : List L} : Along step P s ls := by
  induction ls generalizing s with
  | nil => trivial
  | cons l ls ih => exact ⟨h s l, fun _ _ => ih⟩

/-- A condition on the labels alone. -/
theorem Along.of_labels {p : L → Prop} {s : S} {ls : List L} (h : ∀ l ∈ ls, p l) : Along step (fun _ l => p l) s ls := by
  induction ls generalizing s with
  | nil => trivial
  | cons l ls ih => exact ⟨h l List.mem_cons_self, fun _ _ => ih fun l' hl => h l' (List.mem_cons_of_mem _ hl)⟩

/-- **Termination rule.** When every step that meets `P` lowers `f`, a run of such steps is
no longer than `f` at its start. -/
theorem run_length {I : S → Prop} {P : S → L → Prop} {f : S → ℕ}
    (hstep : ∀ s l s', I s → P s l → step s l = some s' → I s' ∧ f s' < f s) {s t : S} {ls : List L}
    (h0 : I s) (hP : Along step P s ls) (hr : run step s ls = some t) : ls.length + f t ≤ f s := by
  induction ls generalizing s with
  | nil =>
    cases hr
    simp
  | cons l ls ih =>
    obtain ⟨s', hs, hr'⟩ := run_cons.1 hr
    obtain ⟨hi, hlt⟩ := hstep s l s' h0 hP.1 hs
    have hle := ih hi (hP.2 s' hs) hr'
    rw [List.length_cons]
    omega

/-- In a run a condition on steps may be exchanged for one that follows from it at the
steps that are possible. -/
theorem Along.of_run {P Q : S → L → Prop} (hPQ : ∀ s l s', step s l = some s' → P s l → Q s l) {s t : S}
    {ls : List L} (hr : run step s ls = some t) (hP : Along step P s ls) : Along step Q s ls := by
  induction ls generalizing s with
  | nil => trivial
  | cons l ls ih =>
    obtain ⟨s', hs, hr'⟩ := run_cons.1 hr
    refine ⟨hPQ s l s' hs hP.1, fun s'' hs'' => ?_⟩
    rw [hs] at hs''
    cases hs''
    exact ih hr' (hP.2 s' hs)

/-- So may it for one that follows from it in the states an invariant holds of. -/
theorem Along.of_inv {I : S → Prop} {P Q : S → L → Prop} (hI : ∀ s l s', I s → P s l → step s l = some s' → I s')
    (hPQ : ∀ s l, I s → P s l → Q s l) {s : S} {ls : List L} (h0 : I s) (hP : Along step P s ls) :
    Along step Q s ls := by
  induction ls generalizing s with
  | nil => trivial
  | cons l ls ih => exact ⟨hPQ s l h0 hP.1, fun s' hs => ih (hI s l s' h0 hP.1 hs) (hP.2 s' hs)⟩

theorem Along.take {P : S → L → Prop} {s : S} {ls ls' : List L} (hP : Along step P s (ls ++ ls')) :
    Along step P s ls := by
  induction ls generalizing s with
  | nil => trivial
  | cons l ls ih => exact ⟨hP.1, fun s' hs => ih (hP.2 s' hs)⟩

theorem Along.drop {P : S → L → Prop} {s t : S} {ls ls' : List L} (hP : Along step P s (ls ++ ls'))
    (hr : run step s ls = some t) : Along step P t ls' := by
  induction ls generalizing s with
  | nil => cases hr; exact hP
  | cons l ls ih =>
    obtain ⟨s', hs, hr'⟩ := run_cons.1 hr
    exact ih (hP.2 s' hs) hr'

/-! ## What holds in every state of a run -/

/-- `P` holds of every state of the run of `ls` from `s`. -/
def Throughout (step : S → L → Option S) (P : S → Prop) (s : S) (ls : List L) : Prop :=
  ∀ ls₁ ls₂ t, ls = ls₁ ++ ls₂ → run step s ls₁ = some t → P t

/-- A step from `s` does not break `P`. -/
def Keeps (step : S → L → Option S) (P : S → Prop) (s : S) (l : L) : Prop := P s → ∀ s', step s l = some s' → P s'

theorem Throughout.start {P : S → Prop} {s : S} {ls : List L} (h : Throughout step P s ls) : P s :=
  h [] ls s rfl rfl

theorem Throughout.tail {P : S → Prop} {s s' : S} {l : L} {ls : List L} (h : Throughout step P s (l :: ls))
    (hs : step s l = some s') : Throughout step P s' ls := by
  rintro ls₁ ls₂ t rfl hr
  exact h (l :: ls₁) ls₂ t rfl (run_cons.2 ⟨s', hs, hr⟩)

/-- **What no step breaks holds throughout**, and conversely. -/
theorem throughout_iff {P : S → Prop} {s : S} {ls : List L} (h0 : P s) :
    Throughout step P s ls ↔ Along step (Keeps step P) s ls := by
  constructor
  · intro h
    induction ls generalizing s with
    | nil => trivial
    | cons l ls ih => exact ⟨fun _ s' hs => (h.tail hs).start, fun s' hs => ih (h.tail hs).start (h.tail hs)⟩
  · rintro h ls₁ ls₂ t rfl hr
    exact run_along (fun _ _ s' hi hk hs => hk hi s' hs) h0 h.take hr

/-! ## Outputs and simulation -/

section

variable {T K β : Type*} {step' : T → K → Option T}

/-- What the steps of a run put out. -/
def outs (step : S → L → Option S) (out : S → L → List β) : S → List L → List β
  | _, [] => []
  | s, l :: ls => out s l ++ (step s l).elim [] fun s' => outs step out s' ls

theorem outs_cons {out : S → L → List β} {s s' : S} {l : L} {ls : List L} (h : step s l = some s') :
    outs step out s (l :: ls) = out s l ++ outs step out s' ls := by
  rw [outs, h, Option.elim_some]

theorem outs_append {out : S → L → List β} {s t : S} {ls ls' : List L} (hr : run step s ls = some t) :
    outs step out s (ls ++ ls') = outs step out s ls ++ outs step out t ls' := by
  induction ls generalizing s with
  | nil =>
    cases hr
    rfl
  | cons l ls ih =>
    obtain ⟨s', hs, hr'⟩ := run_cons.1 hr
    rw [List.cons_append, outs_cons hs, outs_cons hs, ih hr', List.append_assoc]

/-- **Invariant rule over outputs**: the invariant may speak of what was put out so far. -/
theorem run_outs {out : S → L → List β} {I : List β → S → Prop} {P : S → L → Prop}
    (hstep : ∀ os s l s', I os s → P s l → step s l = some s' → I (os ++ out s l) s') {s t : S} {ls : List L}
    (h0 : I [] s) (hP : Along step P s ls) (hr : run step s ls = some t) : I (outs step out s ls) t := by
  have key : ∀ (ls : List L) (os : List β) (s : S), I os s → Along step P s ls → run step s ls = some t →
      I (os ++ outs step out s ls) t := by
    intro ls
    induction ls with
    | nil =>
      intro os s hi _ hr
      cases hr
      rwa [outs, List.append_nil]
    | cons l ls ih =>
      intro os s hi hP hr
      obtain ⟨s', hs, hr'⟩ := run_cons.1 hr
      have := ih (os ++ out s l) s' (hstep os s l s' hi hP.1 hs) (hP.2 s' hs) hr'
      rwa [outs_cons hs, ← List.append_assoc]
  exact key ls [] s h0 hP hr

theorem Along.append {P : S → L → Prop} {s t : S} {ls ls' : List L} (h : Along step P s ls)
    (hr : run step s ls = some t) (h' : Along step P t ls') : Along step P s (ls ++ ls') := by
  induction ls generalizing s with
  | nil =>
    cases hr
    exact h'
  | cons l ls ih =>
    obtain ⟨s', hs, hr'⟩ := run_cons.1 hr
    refine ⟨h.1, fun s'' hs'' => ?_⟩
    rw [hs] at hs''
    cases hs''
    exact ih (h.2 s' hs) hr'

/-- The system that keeps beside its state what its steps have put out. -/
def record (step : S → L → Option S) (out : S → L → List β) (p : S × List β) (l : L) : Option (S × List β) :=
  (step p.1 l).map fun s' => (s', p.2 ++ out p.1 l)

theorem record_some {out : S → L → List β} {p q : S × List β} {l : L} :
    record step out p l = some q ↔ ∃ s', step p.1 l = some s' ∧ q = (s', p.2 ++ out p.1 l) := by
  unfold record
  rw [Option.map_eq_some_iff]
  exact ⟨fun ⟨s', hs, h⟩ => ⟨s', hs, h.symm⟩, fun ⟨s', hs, h⟩ => ⟨s', hs, h.symm⟩⟩

/-- It has the same runs, and ends with what they put out. -/
theorem run_record {out : S → L → List β} {s t : S} {os : List β} {ls : List L} (hr : run step s ls = some t) :
    run (record step out) (s, os) ls = some (t, os ++ outs step out s ls) := by
  induction ls generalizing s os with
  | nil =>
    cases hr
    rw [outs, List.append_nil]
    rfl
  | cons l ls ih =>
    obtain ⟨s', hs, hr'⟩ := run_cons.1 hr
    rw [outs_cons hs, ← List.append_assoc]
    exact run_cons.2 ⟨_, record_some.2 ⟨s', hs, rfl⟩, ih hr'⟩

/-- A condition that does not look at what was put out. -/
theorem Along.record_iff {out : S → L → List β} {P : S → L → Prop} {p : S × List β} {ls : List L} :
    Along (record step out) (fun p l => P p.1 l) p ls ↔ Along step P p.1 ls := by
  induction ls generalizing p with
  | nil => exact Iff.rfl
  | cons l ls ih =>
    constructor
    · intro h
      exact ⟨h.1, fun s' hs => ih.1 (h.2 (s', p.2 ++ out p.1 l) (record_some.2 ⟨s', hs, rfl⟩))⟩
    · intro h
      refine ⟨h.1, fun q hq => ?_⟩
      obtain ⟨s', hs, rfl⟩ := record_some.1 hq
      exact ih.2 (h.2 s' hs)

/-- **Simulation rule.** When every step that meets `P` is matched by a run of steps that meet
`Q` and put out the same, so is every run. -/
theorem simulates {R : S → T → Prop} {P : S → L → Prop} {Q : T → K → Prop} {out : S → L → List β}
    {out' : T → K → List β}
    (hsim : ∀ s t l s', R s t → P s l → step s l = some s' → ∃ ks t', run step' t ks = some t' ∧ R s' t' ∧
      Along step' Q t ks ∧ outs step' out' t ks = out s l) {s s' : S} {t : T} {ls : List L}
    (h0 : R s t) (hP : Along step P s ls) (hr : run step s ls = some s') :
    ∃ ks t', run step' t ks = some t' ∧ R s' t' ∧ Along step' Q t ks ∧
      outs step' out' t ks = outs step out s ls := by
  induction ls generalizing s t with
  | nil =>
    cases hr
    exact ⟨[], t, rfl, h0, trivial, rfl⟩
  | cons l ls ih =>
    obtain ⟨s₁, hs, hr'⟩ := run_cons.1 hr
    obtain ⟨ks₁, t₁, hrun₁, hR₁, hQ₁, hout₁⟩ := hsim s t l s₁ h0 hP.1 hs
    obtain ⟨ks₂, t₂, hrun₂, hR₂, hQ₂, hout₂⟩ := ih hR₁ (hP.2 s₁ hs) hr'
    refine ⟨ks₁ ++ ks₂, t₂, run_append.2 ⟨t₁, hrun₁, hrun₂⟩, hR₂, hQ₁.append hrun₁ hQ₂, ?_⟩
    rw [outs_append hrun₁, hout₁, hout₂, outs_cons hs]

end

/-! ## Measures that never fall -/

variable {β : Type*} [Preorder β]

/-- From any state of the run of `ls` to any later one `f` does not fall. -/
def Ascends (step : S → L → Option S) (f : S → β) (s : S) (ls : List L) : Prop :=
  ∀ ls₁ ls₂ ls₃ t₁ t₂, ls = ls₁ ++ (ls₂ ++ ls₃) → run step s ls₁ = some t₁ → run step t₁ ls₂ = some t₂ →
    f t₁ ≤ f t₂

/-- `f` does not fall in this step. -/
def Rises (step : S → L → Option S) (f : S → β) (s : S) (l : L) : Prop := ∀ s', step s l = some s' → f s ≤ f s'

theorem Along.rises {f : S → β} {s t : S} {ls ls' : List L} (h : Along step (Rises step f) s (ls ++ ls'))
    (hr : run step s ls = some t) : f s ≤ f t := by
  induction ls generalizing s with
  | nil => cases hr; exact le_refl _
  | cons l ls ih =>
    obtain ⟨s', hs, hr'⟩ := run_cons.1 hr
    exact le_trans (h.1 s' hs) (ih (h.2 s' hs) hr')

theorem ascends_iff {f : S → β} {s : S} {ls : List L} : Ascends step f s ls ↔ Along step (Rises step f) s ls := by
  constructor
  · intro h
    induction ls generalizing s with
    | nil => trivial
    | cons l ls ih =>
      refine ⟨fun s' hs => h [] [l] ls s s' rfl rfl (by simp [run, hs]), fun s' hs => ih ?_⟩
      intro ls₁ ls₂ ls₃ t₁ t₂ heq h₁ h₂
      exact h (l :: ls₁) ls₂ ls₃ t₁ t₂ (by rw [heq]; rfl) (run_cons.2 ⟨s', hs, h₁⟩) h₂
  · rintro h ls₁ ls₂ ls₃ t₁ t₂ rfl h₁ h₂
    exact (h.drop h₁).rises h₂

end Lts
