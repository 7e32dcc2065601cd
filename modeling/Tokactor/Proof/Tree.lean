import Tokactor.Model.Tree
import Tokactor.Lib.Cells
import Tokactor.Proof.Children

/-!
# The tree and its actors

* `child_step`: what one step of an actor does to the wrappers of its children.
* `moves`: every step of the tree is a step of one actor, or starts one.
* `local_run`: what an actor of the tree does is a run of that actor alone.
* `linked_run`: every wrapper follows its child.
-/

namespace Tokactor

variable {A M : Type}

/-! ## The children of one actor -/

namespace Node

/-- The child whose wrapper is in slot `k`. -/
def childAt (n : Node A M) (k : ℕ) : Option (Child A) :=
  match n.tasks[k]?.map Slot.task with
  | some (.child c) => some c
  | _ => none

theorem childAt_iff {n : Node A M} {k : ℕ} {c : Child A} :
    n.childAt k = some c ↔ ∃ out, n.tasks[k]? = some ⟨.child c, out⟩ := by
  unfold childAt
  constructor
  · intro h
    split at h
    · rename_i c' hs
      cases h
      obtain ⟨⟨t, out⟩, hk, ht⟩ := Option.map_eq_some_iff.1 hs
      exact ⟨out, by rw [hk]; congr⟩
    · cases h
  · rintro ⟨out, h⟩
    rw [h]
    rfl

theorem childAt_of_tasks {n n' : Node A M} (h : n'.tasks = n.tasks) (k : ℕ) : n'.childAt k = n.childAt k := by
  unfold childAt
  rw [h]

/-- A task that is started: it is the child in its slot, if it is one. -/
theorem childAt_concat {n n' : Node A M} {s : Slot A M} (h : n'.tasks = n.tasks ++ [s]) (k : ℕ) :
    n'.childAt k = if k = n.tasks.length then (match s.task with | .child c => some c | _ => none) else n.childAt k := by
  unfold childAt
  rw [h]
  rcases Nat.lt_trichotomy k n.tasks.length with hk | rfl | hk
  · rw [List.getElem?_append_left hk, if_neg (by omega)]
  · rw [List.getElem?_concat_length, if_pos rfl]
    cases hs : s.task <;> simp [hs]
  · rw [if_neg (by omega), List.getElem?_eq_none (by simp; omega), List.getElem?_eq_none (by omega)]

/-- A task of user code is nobody's wrapper. -/
theorem anonymous_childAt (n : Node A M) (kind : AnonKind) (j : ℕ) : (n.anonymous kind).childAt j = n.childAt j := by
  obtain ⟨tracked, ht⟩ := anonymous_tasks n kind
  rw [childAt_concat ht]
  split
  · rename_i hj
    rw [childAt, hj, List.getElem?_eq_none (Nat.le_refl _)]
    rfl
  · rfl

/-- What a step does to the wrappers of the children. -/
inductive ChildStep (n n' : Node A M) : Label A M → Prop
  | moved (k : ℕ) (c c' : Child A) (cl : ChildLabel A) (e : Eff A M) (hc : n.childAt k = some c)
      (hm : c.Moves n.view cl c' e) (h : ∀ j, n'.childAt j = if j = k then some c' else n.childAt j) :
      ChildStep n n' (.task k (.child cl))
  | spawned (id : ℕ) (hs : n.state = .running)
      (h : ∀ j, n'.childAt j = if j = n.tasks.length then some ⟨id, .running⟩ else n.childAt j) :
      ChildStep n n' (.exec (.op (.spawn id)))
  | same (l : Label A M) (h : ∀ j, n'.childAt j = n.childAt j) : ChildStep n n' l

/-- The step of another task than a child. -/
theorem Tasked.childAt_same {n n' : Node A M} {k : ℕ} {l : TaskLabel A M} {s : Slot A M} {t : Task A M}
    {e : Eff A M} (h : Tasked n k l n' s t e) (hs : ∀ c, s.task ≠ .child c) (ht : ∀ c, t ≠ .child c) (j : ℕ) :
    n'.childAt j = n.childAt j := by
  have hlt : k < n.tasks.length := (List.getElem?_eq_some_iff.1 h.slot).1
  unfold childAt
  rw [h.tasks]
  by_cases hjk : k = j
  · subst hjk
    rw [List.getElem?_set_self hlt, h.slot]
    simp only [Option.map_some]
    cases hs' : s.task with
    | child c => exact absurd hs' (hs c)
    | anon | fwd =>
      cases t with
      | child c => exact absurd rfl (ht c)
      | anon | fwd => rfl
  · rw [List.getElem?_set_ne hjk]

theorem anon_same {n n' : Node A M} {k : ℕ} {l : AnonLabel M} (h : n.taskStep k (.anon l) = some n') (j : ℕ) :
    n'.childAt j = n.childAt j := by
  obtain ⟨s, t, e, ht⟩ := taskStep_cases h
  have hm := ht.moves
  obtain ⟨task, out⟩ := s
  cases hm with
  | anon hm => exact ht.childAt_same (fun c hc => by cases hc) (fun c hc => by cases hc) j

/-- **What one step does to the wrappers of the children.** -/
theorem child_step {n n' : Node A M} {l : Label A M} (h : n.step l = some n') : ChildStep n n' l := by
  cases step_rule h with
  | exec x hx =>
    rcases exec_split hx with ⟨o, rfl, ho, rfl⟩ | ⟨p, m, a, k, h', rfl, -, -, rfl⟩ | ⟨ht, -, -⟩
    · cases o with
      | stop =>
        obtain ⟨st, h1, -⟩ := stop_eq n
        exact .same _ (childAt_of_tasks (by rw [ctxOp, h1]))
      | abort => exact .same _ (childAt_of_tasks (by unfold ctxOp abort; simp only; split <;> rfl))
      | spawn id =>
        have hs : n.state = .running := ho
        refine .spawned id hs fun j => ?_
        rw [childAt_concat (n := n) (s := ⟨.child ⟨id, .running⟩, []⟩) (by rw [ctxOp, if_pos hs])]
      | anonymous | anonymousTask | anonymousHandle => exact .same _ (anonymous_childAt n _)
    · exact .same _ (anonymous_childAt { n with actor := a } (.reply k h'))
    · exact .same _ (childAt_of_tasks ht)
  | task k tl s t e hb ht =>
    have hm := ht.moves
    have hslot := ht.slot
    obtain ⟨task, out⟩ := s
    cases hm with
    | @child c c' cl e hm =>
      refine .moved k c c' cl e (childAt_iff.2 ⟨out, hslot⟩) hm fun j => ?_
      have hlt : k < n.tasks.length := (List.getElem?_eq_some_iff.1 hslot).1
      unfold childAt
      rw [ht.tasks]
      by_cases hjk : k = j
      · subst hjk
        rw [List.getElem?_set_self hlt, if_pos rfl]
        rfl
      · rw [List.getElem?_set_ne hjk, if_neg fun h => hjk h.symm]
    | anon hm | fwd hm => exact .same _ (ht.childAt_same (fun c hc => by cases hc) (fun c hc => by cases hc))
  | join i h' n₁ al hj =>
    refine .same _ fun j => ?_
    rw [anon_same hj.join]
    rcases hj.taken with rfl | h1
    · rfl
    · exact anon_same h1 j
  | send r b hr hs => exact .same _ (childAt_of_tasks hr.tasks)
  | quiet l hr hw ha => exact .same _ (childAt_of_tasks hr.tasks)

theorem childAt_init (cfg : Config) (a : A) (k : ℕ) : (Node.init cfg a : Node A M).childAt k = none := by
  cases h : (Node.init cfg a : Node A M).childAt k with
  | none => rfl
  | some c =>
    obtain ⟨out, h⟩ := childAt_iff.1 h
    obtain ⟨kind, h⟩ := mem_init_tasks (List.mem_of_getElem? h)
    cases h

end Node

/-! ## One step of the tree -/

namespace Tree

/-- Why actor `i` may take its step, and the actors it starts. -/
inductive Licensed (t : Tree A M) (i : ℕ) (m : Member A M) : Label A M → Tree A M → Prop
  | spawn (cfg : Config) (a : A) (hs : m.node.state = .running) :
      Licensed t i m (.exec (.op (.spawn t.length))) [⟨Node.init cfg a, some (i, m.node.tasks.length)⟩]
  | panic (hs : m.node.state ≠ .running) : Licensed t i m (.exec (.op (.spawn t.length))) []
  | join (k : ℕ) (o : Outcome A) (ho : t.childOutcome m k = some o) :
      Licensed t i m (.task k (.child (.ended o))) []
  | step (l : Label A M) (ha : t.allows m l = true) : Licensed t i m l []

/-- What a step of the tree can be. -/
inductive Moves (t : Tree A M) (l : TreeLabel A M) : Tree A M → Prop
  | run (cfg : Config) (a : A) : Moves t l (t ++ [⟨Node.init cfg a, none⟩])
  | acts (i : ℕ) (m : Member A M) (nl : Label A M) (n : Node A M) (new : Tree A M)
      (ha : t.acting l = some (i, m, nl)) (hm : t[i]? = some m) (hs : m.node.step nl = some n)
      (hl : Licensed t i m nl new) : Moves t l (t.set i { m with node := n } ++ new)

theorem acting_cases {t : Tree A M} {l : TreeLabel A M} {i : ℕ} {m : Member A M} {nl : Label A M}
    (h : t.acting l = some (i, m, nl)) : actor l = some i ∧ t[i]? = some m ∧ t.action m l = some nl := by
  unfold acting at h
  obtain ⟨i', h1, h⟩ := Option.bind_eq_some_iff.1 h
  obtain ⟨m', h2, h⟩ := Option.bind_eq_some_iff.1 h
  obtain ⟨nl', h3, h⟩ := Option.map_eq_some_iff.1 h
  cases h
  exact ⟨h1, h2, h3⟩

theorem licensed {t : Tree A M} {l : TreeLabel A M} {i : ℕ} {m : Member A M} {nl : Label A M}
    (h : t.acting l = some (i, m, nl)) : Licensed t i m nl (t.started l) := by
  obtain ⟨hi, hm, ha⟩ := acting_cases h
  cases l with
  | run cfg a => cases hi
  | spawn j cfg a =>
    cases hi
    cases ha
    simp only [started, hm]
    split
    · rename_i hs; exact .spawn _ a hs
    · rename_i hs; exact .panic hs
  | join j k =>
    obtain ⟨o, ho, rfl⟩ := Option.map_eq_some_iff.1 ha
    exact .join k o ho
  | step j nl' =>
    simp only [action] at ha
    split at ha
    · rename_i hallow
      cases ha
      exact .step _ hallow
    · cases ha

/-- The step of an actor. -/
theorem acted {t t' : Tree A M} {l : TreeLabel A M} {i : ℕ} (h : t.step l = some t') (hl : actor l = some i) :
    ∃ m nl n, t.acting l = some (i, m, nl) ∧ t[i]? = some m ∧ m.node.step nl = some n ∧
      Licensed t i m nl (t.started l) ∧ t' = t.set i { m with node := n } ++ t.started l := by
  unfold step at h
  rw [hl] at h
  obtain ⟨⟨j, m, nl⟩, ha, h⟩ := Option.bind_eq_some_iff.1 h
  obtain ⟨n, hs, rfl⟩ := Option.map_eq_some_iff.1 h
  obtain ⟨hj, hm, -⟩ := acting_cases ha
  obtain rfl : i = j := Option.some.inj (hl.symm.trans hj)
  exact ⟨m, nl, n, ha, hm, hs, licensed ha, rfl⟩

/-- **Every step of the tree** starts an actor or is a step of one. -/
theorem moves {t t' : Tree A M} {l : TreeLabel A M} (h : t.step l = some t') : t.Moves l t' := by
  cases hl : actor l with
  | none =>
    cases l with
    | run cfg a => cases h; exact .run _ a
    | spawn i cfg a | join i k | step i nl => cases hl
  | some i =>
    obtain ⟨m, nl, n, ha, hm, hs, hlic, rfl⟩ := acted h hl
    exact .acts i m nl n _ ha hm hs hlic

/-- The actors that are started begin their life. -/
theorem Licensed.fresh {t new : Tree A M} {i : ℕ} {m : Member A M} {nl : Label A M} (h : Licensed t i m nl new)
    {k : ℕ} {d : Member A M} (hd : new[k]? = some d) : ∃ cfg a, d.node = Node.init cfg a := by
  cases h with
  | spawn cfg a hs =>
    cases k with
    | zero => cases hd; exact ⟨cfg, a, rfl⟩
    | succ k => cases hd
  | _ => cases hd

/-- What an actor was before a step of the tree. -/
inductive Stepped (t : Tree A M) (l : TreeLabel A M) (j : ℕ) (m' : Member A M) : Prop
  | acts (m : Member A M) (nl : Label A M) (ha : t.acting l = some (j, m, nl)) (hm : t[j]? = some m)
      (hs : m.node.step nl = some m'.node) (hp : m'.parent = m.parent) (hl : Licensed t j m nl (t.started l))
  | rests (hm : t[j]? = some m')
  | starts (k : ℕ) (hj : j = t.length + k) (hk : (t.started l)[k]? = some m') (cfg : Config) (a : A)
      (hn : m'.node = Node.init cfg a)

/-- **Every actor acts, rests, or is started.** -/
theorem stepped {t t' : Tree A M} {l : TreeLabel A M} (h : t.step l = some t') {j : ℕ} {m' : Member A M}
    (hm' : t'[j]? = some m') : Stepped t l j m' := by
  cases hl : actor l with
  | none =>
    cases l with
    | run cfg a =>
      cases h
      rcases Cells.get_concat hm' with hm' | ⟨rfl, rfl⟩
      · exact .rests hm'
      · exact .starts 0 rfl rfl { cfg with supervised := false } a rfl
    | spawn i cfg a | join i k | step i nl => cases hl
  | some i =>
    obtain ⟨m, nl, n, ha, hm, hs, hlic, rfl⟩ := acted h hl
    rcases Cells.get_set_append (List.getElem?_eq_some_iff.1 hm).1 hm' with ⟨rfl, rfl⟩ | ⟨-, hold⟩ | ⟨k, hj, hnew⟩
    · exact .acts m nl ha hm hs rfl hlic
    · exact .rests hold
    · obtain ⟨cfg, a, hn⟩ := hlic.fresh hnew
      exact .starts k hj hnew cfg a hn

/-- **An actor stays, and goes on by its own steps.** -/
theorem goes_on {t t' : Tree A M} {l : TreeLabel A M} (h : t.step l = some t') {j : ℕ} {m : Member A M}
    (hm : t[j]? = some m) :
    ∃ m', t'[j]? = some m' ∧ m'.parent = m.parent ∧ ∃ ls, Lts.run Node.step m.node ls = some m'.node := by
  cases moves h with
  | run cfg a =>
    refine ⟨m, ?_, rfl, [], rfl⟩
    rw [List.getElem?_append_left (List.getElem?_eq_some_iff.1 hm).1, hm]
  | acts i m₀ nl n new ha hm₀ hs hl =>
    by_cases hji : j = i
    · subst hji
      obtain rfl : m₀ = m := Option.some.inj (hm₀.symm.trans hm)
      exact ⟨_, Cells.get_set (List.getElem?_eq_some_iff.1 hm).1, rfl, [nl], by rw [Lts.run, hs]; rfl⟩
    · exact ⟨m, Cells.get_old hji hm, rfl, [], rfl⟩

/-! ## Runs of the tree and of one actor -/

/-- The step of actor `i`, if this is one, meets `P`. -/
def Locally (i : ℕ) (P : Node A M → Label A M → Prop) (t : Tree A M) (l : TreeLabel A M) : Prop :=
  ∀ x ∈ t.acting l, x.1 = i → P x.2.1.node x.2.2

/-- The step of every actor meets `P`. -/
def Everywhere (P : Node A M → Label A M → Prop) (t : Tree A M) (l : TreeLabel A M) : Prop :=
  ∀ x ∈ t.acting l, P x.2.1.node x.2.2

instance (i : ℕ) (P : Node A M → Label A M → Prop) [∀ n l, Decidable (P n l)] (t : Tree A M) (l : TreeLabel A M) :
    Decidable (Locally i P t l) :=
  inferInstanceAs (Decidable (∀ x ∈ t.acting l, _))

instance (P : Node A M → Label A M → Prop) [∀ n l, Decidable (P n l)] (t : Tree A M) (l : TreeLabel A M) :
    Decidable (Everywhere P t l) :=
  inferInstanceAs (Decidable (∀ x ∈ t.acting l, _))

/-- A run of one actor alone, from its start to `n`. -/
def Lives (P : Node A M → Label A M → Prop) (n : Node A M) : Prop :=
  ∃ cfg a ls, Lts.Along Node.step P (Node.init cfg a) ls ∧ Lts.run Node.step (Node.init cfg a) ls = some n

theorem lives_step {P : Node A M → Label A M → Prop} {i : ℕ} {t t' : Tree A M} {l : TreeLabel A M}
    (hi : ∀ m, t[i]? = some m → Lives P m.node) (hP : Locally i P t l) (h : t.step l = some t') :
    ∀ m, t'[i]? = some m → Lives P m.node := by
  intro m' hm'
  cases stepped h hm' with
  | acts m nl ha hm hs hp hl =>
    obtain ⟨cfg, a, ls, hal, hr⟩ := hi m hm
    exact ⟨cfg, a, ls ++ [nl], hal.concat hr (hP _ ha rfl), Lts.run_concat hr hs⟩
  | rests hm => exact hi m' hm
  | starts k hj hk cfg a hn =>
    rw [hn]
    exact ⟨cfg, a, [], trivial, rfl⟩

/-- **What an actor of the tree does is a run of that actor alone.** -/
theorem local_run {P : Node A M → Label A M → Prop} {i : ℕ} {ls : List (TreeLabel A M)} {t : Tree A M}
    (hP : Lts.Along Tree.step (Locally i P) [] ls) (hr : Lts.run Tree.step [] ls = some t) {m : Member A M}
    (hm : t[i]? = some m) : Lives P m.node := by
  refine Lts.run_along (I := fun t : Tree A M => ∀ m, t[i]? = some m → Lives P m.node) ?_ ?_ hP hr m hm
  · exact fun t l t' hi hP h => lives_step hi hP h
  · intro m hm
    cases hm

end Tree

/-! ## Wrappers and their children -/

/-- The wrapper has seen no other end of the child than the one the child came to. -/
def Child.Follows (c : Child A) (d : Node A M) : Prop :=
  match c.pc with
  | .running => True
  | .handed _ => d.pc = .handed
  | .reporting a | .reported a _ | .crashed a => d.pc = .reporting ∧ d.actor = a
  | .failing e | .failed e _ => e = .panic ∧ ∃ x, d.pc = .panicked x

/-- Where the task of a supervised actor ends. -/
theorem Node.ended_still {n n' : Node A M} {l : Label A M} (h : n.step l = some n')
    (hpc : n.pc = .handed ∨ n.pc = .reporting ∨ ∃ x, n.pc = .panicked x) :
    n'.pc = n.pc ∧ n'.actor = n.actor := by
  rcases step_outside h with ⟨x, rfl, -⟩ | ⟨ms, ho⟩
  · rcases hpc with hpc | hpc | ⟨c, hpc⟩ <;> simp [step, exec, hpc] at h
  · exact ⟨ho.pc, ho.actor⟩

theorem Child.Follows.step {c : Child A} {d d' : Node A M} {l : Label A M} (hf : c.Follows d)
    (h : d.step l = some d') : c.Follows d' := by
  unfold Child.Follows at *
  split at hf
  · trivial
  · rw [(Node.ended_still h (.inl hf)).1]
    exact hf
  all_goals first
    | (obtain ⟨h1, h2⟩ := Node.ended_still h (.inr (.inl hf.1))
       rw [h1, h2]
       exact hf)
    | (obtain ⟨h1, h2⟩ := Node.ended_still h (.inr (.inr hf.2))
       rw [h1]
       exact hf)

theorem Node.outcome_handed {d : Node A M} (h : d.outcome = some .handed) : d.pc = .handed := by
  unfold Node.outcome at h
  split at h <;> cases h
  assumption

theorem Node.outcome_dead {d : Node A M} {a : A} (h : d.outcome = some (.dead a)) : d.pc = .reporting ∧ d.actor = a := by
  unfold Node.outcome at h
  split at h <;> cases h
  exact ⟨‹_›, rfl⟩

theorem Node.outcome_failed {d : Node A M} {e : ChildError} (h : d.outcome = some (.failed e)) :
    e = .panic ∧ ∃ x, d.pc = .panicked x := by
  unfold Node.outcome at h
  split at h <;> cases h
  exact ⟨rfl, _, ‹_›⟩

theorem Child.Moves.follows {v : View} {c c' : Child A} {l : ChildLabel A} {e : Eff A M} {d : Node A M}
    (h : c.Moves v l c' e) (hf : c.Follows d) (ho : ∀ o, l = .ended o → d.outcome = some o) : c'.Follows d := by
  unfold Child.Follows at *
  cases h with
  | handed h => exact Node.outcome_handed (ho _ rfl)
  | dead a h => exact Node.outcome_dead (ho _ rfl)
  | fails e h => exact Node.outcome_failed (ho _ rfl)
  | report a h | error e h | crash a h hc | lost e h hc | dropHanded h | dropReported a h =>
    rw [h] at hf
    exact hf

namespace Tree

/-- Every wrapper has its child, and every supervised actor its wrapper. -/
structure Linked (t : Tree A M) : Prop where
  child : ∀ (i : ℕ) (m : Member A M) (k : ℕ) (c : Child A), t[i]? = some m → m.node.childAt k = some c →
    ∃ d : Member A M, t[c.id]? = some d ∧ d.parent = some (i, k) ∧ i < c.id ∧ c.Follows d.node
  parent : ∀ (j : ℕ) (d : Member A M) (i k : ℕ), t[j]? = some d → d.parent = some (i, k) →
    ∃ (m : Member A M) (c : Child A), t[i]? = some m ∧ m.node.childAt k = some c ∧ c.id = j

/-- A supervisor was started before its children. -/
theorem Linked.lt {t : Tree A M} (hl : Linked t) {i j k : ℕ} {d : Member A M} (hd : t[j]? = some d)
    (hp : d.parent = some (i, k)) : i < j := by
  obtain ⟨m, c, hm, hc, rfl⟩ := hl.parent j d i k hd hp
  obtain ⟨-, -, -, hlt, -⟩ := hl.child i m k c hm hc
  exact hlt

theorem linked_run_step {t : Tree A M} (hl : Linked t) (cfg : Config) (a : A) :
    Linked (t ++ [⟨Node.init cfg a, none⟩]) := by
  have hold : ∀ {i : ℕ} {m : Member A M}, t[i]? = some m → (t ++ [⟨Node.init cfg a, none⟩])[i]? = some m := by
    intro i m hm
    rw [List.getElem?_append_left (List.getElem?_eq_some_iff.1 hm).1, hm]
  have hget : ∀ {i : ℕ} {m : Member A M}, (t ++ [⟨Node.init cfg a, none⟩])[i]? = some m →
      t[i]? = some m ∨ m = ⟨Node.init cfg a, none⟩ := by
    intro i m hm
    rcases Cells.get_concat hm with hm | ⟨-, hm⟩
    · exact .inl hm
    · exact .inr hm
  refine ⟨fun i m k c hm hc => ?_, fun j d i k hd hp => ?_⟩
  · rcases hget hm with hm | rfl
    · obtain ⟨d, h1, h2⟩ := hl.child i m k c hm hc
      exact ⟨d, hold h1, h2⟩
    · rw [Node.childAt_init] at hc
      cases hc
  · rcases hget hd with hd | rfl
    · obtain ⟨m, c, h1, h2⟩ := hl.parent j d i k hd hp
      exact ⟨m, c, hold h1, h2⟩
    · cases hp

/-- After a step of actor `i` its wrappers still have their children. -/
theorem linked_children {t new : Tree A M} (hl : Linked t) {i : ℕ} {m : Member A M} {nl : Label A M} {n : Node A M}
    (hm : t[i]? = some m) (hs : m.node.step nl = some n) (hlic : Licensed t i m nl new) {k : ℕ} {c : Child A}
    (hc : n.childAt k = some c) :
    ∃ d, (t.set i { m with node := n } ++ new)[c.id]? = some d ∧ d.parent = some (i, k) ∧ i < c.id ∧
      c.Follows d.node := by
  have hold : m.node.childAt k = some c → ∃ d, (t.set i { m with node := n } ++ new)[c.id]? = some d ∧
      d.parent = some (i, k) ∧ i < c.id ∧ c.Follows d.node := by
    intro hc
    obtain ⟨d, hd, hp, hlt, hf⟩ := hl.child i m k c hm hc
    exact ⟨d, Cells.get_old (by omega) hd, hp, hlt, hf⟩
  cases Node.child_step hs with
  | same _ h => exact hold (h k ▸ hc)
  | moved k₀ c₀ c₁ cl e hc₀ hmv h =>
    rw [h k] at hc
    split at hc
    · rename_i hk
      cases hc
      subst hk
      obtain ⟨d, hd, hp, hlt, hf⟩ := hl.child i m k c₀ hm hc₀
      have hid : c.id = c₀.id := by cases hmv <;> rfl
      have hf' : c.Follows d.node := by
        refine hmv.follows hf fun o ho => ?_
        -- only the end the child came to is told to the wrapper
        subst ho
        cases hlic with
        | join k' o' ho =>
          obtain ⟨out, hk⟩ := Node.childAt_iff.1 hc₀
          rw [childOutcome, hk] at ho
          simpa [hd] using ho
        | step _ ha => cases ha
      rw [hid]
      exact ⟨d, Cells.get_old (by omega) hd, hp, hlt, hf'⟩
    · exact hold hc
  | spawned id hrun h =>
    rw [h k] at hc
    split at hc
    · rename_i hk
      cases hc
      have hlt : i < t.length := (List.getElem?_eq_some_iff.1 hm).1
      cases hlic with
      | spawn cfg a _ => exact ⟨_, Cells.get_new, by rw [hk], hlt, trivial⟩
      | panic hst => exact absurd hrun hst
      | step _ ha => cases ha
    · exact hold hc

/-- An actor that calls `spawn` while it is running has the wrapper of its new child. -/
theorem spawn_child {n n' : Node A M} {id : ℕ} (h : n.step (.exec (.op (.spawn id))) = some n')
    (hs : n.state = .running) : n'.childAt n.tasks.length = some ⟨id, .running⟩ := by
  rw [Node.exec_op h, Node.ctxOp, if_pos hs,
    Node.childAt_concat (n := n) (s := ⟨.child ⟨id, .running⟩, []⟩) rfl, if_pos rfl]

/-- A wrapper keeps its slot. -/
theorem child_kept {n n' : Node A M} {l : Label A M} (h : n.step l = some n') {k : ℕ} {c : Child A}
    (hc : n.childAt k = some c) : ∃ c', n'.childAt k = some c' ∧ c'.id = c.id := by
  cases Node.child_step h with
  | same _ hat => exact ⟨c, by rw [hat, hc], rfl⟩
  | moved k₀ c₀ c₁ cl e hc₀ hmv hat =>
    by_cases hk : k = k₀
    · subst hk
      rw [hc] at hc₀
      cases hc₀
      exact ⟨c₁, by rw [hat, if_pos rfl], by cases hmv <;> rfl⟩
    · exact ⟨c, by rw [hat, if_neg hk, hc], rfl⟩
  | spawned id hs hat =>
    refine ⟨c, ?_, rfl⟩
    obtain ⟨out, hk⟩ := Node.childAt_iff.1 hc
    have hlt : k < n.tasks.length := (List.getElem?_eq_some_iff.1 hk).1
    rw [hat, if_neg (by omega), hc]

theorem linked_step {t t' : Tree A M} {l : TreeLabel A M} (hl : Linked t) (h : t.step l = some t') : Linked t' := by
  cases moves h with
  | run cfg a => exact linked_run_step hl cfg a
  | acts i m nl n new ha hm hs hlic =>
    have hi : i < t.length := (List.getElem?_eq_some_iff.1 hm).1
    constructor
    · intro i' m' k c hm' hc
      rcases Cells.get_set_append hi hm' with ⟨rfl, rfl⟩ | ⟨hne, hold⟩ | ⟨j, -, hnew⟩
      · exact linked_children hl hm hs hlic hc
      · obtain ⟨d, hd, hp, hlt, hf⟩ := hl.child i' m' k c hold hc
        by_cases hid : c.id = i
        · -- the child itself has stepped
          have hdm : d = m := by rw [hid, hm] at hd; exact (Option.some.inj hd).symm
          subst hdm
          exact ⟨{ d with node := n }, by rw [hid]; exact Cells.get_set hi, hp, hlt, hf.step hs⟩
        · exact ⟨d, Cells.get_old hid hd, hp, hlt, hf⟩
      · obtain ⟨cfg, a, hinit⟩ := hlic.fresh hnew
        rw [hinit, Node.childAt_init] at hc
        cases hc
    · intro j d i' k hd hp
      have hkeep : ∀ {d : Member A M}, t[j]? = some d → d.parent = some (i', k) →
          ∃ m' c, (t.set i { m with node := n } ++ new)[i']? = some m' ∧ m'.node.childAt k = some c ∧ c.id = j := by
        intro d hd hp
        obtain ⟨m', c, hm', hc, hid⟩ := hl.parent j d i' k hd hp
        by_cases hii : i' = i
        · subst hii
          rw [hm] at hm'
          cases hm'
          obtain ⟨c', hc', hid'⟩ := child_kept hs hc
          exact ⟨_, c', Cells.get_set hi, hc', hid'.trans hid⟩
        · exact ⟨m', c, Cells.get_old hii hm', hc, hid⟩
      rcases Cells.get_set_append hi hd with ⟨rfl, rfl⟩ | ⟨hne, hold⟩ | ⟨j', hj, hnew⟩
      · exact hkeep hm hp
      · exact hkeep hold hp
      · cases hlic with
        | spawn cfg a hrun =>
          cases j' with
          | succ j' => cases hnew
          | zero =>
            cases hnew
            cases hp
            exact ⟨_, _, Cells.get_set hi, spawn_child hs hrun, hj.symm⟩
        | _ => cases hnew

/-- **Every wrapper follows its child**, in every reachable tree. -/
theorem linked_run {ls : List (TreeLabel A M)} {t : Tree A M} (hr : Lts.run Tree.step [] ls = some t) : Linked t := by
  refine Lts.run_inv (fun _ _ _ hl h => linked_step hl h) ⟨?_, ?_⟩ hr
  · intro i m k c hm
    cases hm
  · intro j d i k hd
    cases hd

end Tree

end Tokactor
