import Mathlib.Data.List.Perm.Basic
import Tokactor.Proof.Object
import Tokactor.Proof.Shutdown

/-!
# Fan-out and fan-in

A tree of actors that run objects. Each of them is its object (`Object.atomic_run`), and a
supervisor gets of every child that nobody awaits the value that all messages of that child
have made of it, once, in whatever order the children end.

* `tree_atomic`: every actor of the tree is atomic.
* `fan_in`: the results that a supervisor has handled are the values of its children.
* `fan_in_total`: what a supervisor sums up is the sum over its children.
-/

namespace Tokactor

open Cells

variable {A M : Type}

/-! ## Results -/

/-- The result of a child that a message carries. -/
def Body.result : Body A M → Option (DeadActorResult A)
  | .dead r => some r
  | _ => none

/-- The results among messages. -/
def resultsOf (ms : List (Mail A M)) : List (DeadActorResult A) := ms.filterMap fun m => m.body.result

theorem resultsOf_append (ms ms' : List (Mail A M)) : resultsOf (ms ++ ms') = resultsOf ms ++ resultsOf ms' :=
  List.filterMap_append

theorem resultsOf_cons (m : Mail A M) (ms : List (Mail A M)) :
    resultsOf (m :: ms) = m.body.result.toList ++ resultsOf ms := by
  unfold resultsOf
  cases h : m.body.result <;> simp [h]

/-- What the wrapper of a child has reported. -/
def Task.reported : Task A M → List (DeadActorResult A)
  | .child c => (c.reports : List (Body A M)).filterMap Body.result
  | _ => []

/-- The wrapper of an anonymous actor sends no result. -/
def Slot.Resultless (s : Slot A M) : Prop :=
  ∀ a, s.task = .anon a → ∀ b, a.pc = .sending b ∨ a.pc = .sent b → b.result = none

theorem Anon.report_result (a : Anon A M) (out : Option (Option M)) : (a.report out).result = none := by
  unfold Anon.report
  split <;> rfl

theorem Task.Moves.resultless {v : View} {s t : Task A M} {l : TaskLabel A M} {e : Eff A M} (h : s.Moves v l t e)
    (hs : Slot.Resultless ⟨s, []⟩) : Slot.Resultless (⟨t, []⟩ : Slot A M) :=
  h.sends Anon.report_result hs

/-- What a step of a task reports. -/
theorem Task.Moves.reported {v : View} {s t : Task A M} {l : TaskLabel A M} {e : Eff A M} (h : s.Moves v l t e)
    (hs : Slot.Resultless ⟨s, []⟩) : (t.reported : List (DeadActorResult A)) = s.reported ++ e.push.toList.filterMap Body.result := by
  cases h with
  | @child c c' l e h =>
    show (c'.reports : List (Body A M)).filterMap Body.result = (c.reports : List (Body A M)).filterMap Body.result ++ _
    rw [h.reports, List.filterMap_append]
  | @fwd f f' l e h =>
    cases h with
    | send m h =>
      show [] = [] ++ (([f.kind.body m v.nextAsk] : List (Body A M))).filterMap Body.result
      cases f.kind <;> rfl
    | _ => rfl
  | anon h =>
    cases h with
    | skip h | finish out h | cancel h =>
      rw [Anon.finished_push]
      rfl
    | panic h =>
      rw [Anon.unwind_push]
      rfl
    | lost k j hk h => cases hc : v.closed <;> simp [Task.reported, Body.result]
    | send b h =>
      have hb := hs _ rfl b (.inl h)
      simp [Task.reported, hb]
    | _ => rfl

theorem resultless_step {n n' : Node A M} {l : Label A M} (hs : ∀ s ∈ n.tasks, s.Resultless) (h : n.step l = some n') :
    ∀ s ∈ n'.tasks, s.Resultless :=
  sends_step Anon.report_result hs h

/-- The results that the mailbox has accepted are those that the wrappers have reported. -/
structure Resulting (n : Node A M) : Prop where
  slots : ∀ s ∈ n.tasks, s.Resultless
  results : (resultsOf n.mailbox.accepted).Perm (n.tasks.flatMap fun s => s.task.reported)

theorem Resulting.tasked {n n' : Node A M} {i : ℕ} {l : TaskLabel A M} {s : Slot A M} {t : Task A M} {e : Eff A M}
    (hn : Resulting n) (h : Node.Tasked n i l n' s t e) :
    (resultsOf n'.mailbox.accepted).Perm (n'.tasks.flatMap fun s => s.task.reported) := by
  have hmore := h.moves.reported (hn.slots s (List.mem_of_getElem? h.slot))
  have hsent : resultsOf (e.push.toList.map fun b => (⟨some i, b⟩ : Mail A M)) = e.push.toList.filterMap Body.result := by
    rw [resultsOf, List.filterMap_map]
    rfl
  rw [h.tasks, h.outside.mailbox.accepted, resultsOf_append, hsent]
  exact (List.Perm.append_right _ hn.results).trans (perm_flatMap_set h.slot hmore)

/-- Nobody else sends a result. -/
theorem Node.send_results {n n' : Node A M} {r : Request M} (h : n.send r = some n') :
    resultsOf n'.mailbox.accepted = resultsOf n.mailbox.accepted ∧ n'.tasks = n.tasks := by
  cases r with
  | user | ask | asyncAsk | await =>
    obtain ⟨c, hc, rfl⟩ := Option.map_eq_some_iff.1 h
    refine ⟨?_, rfl⟩
    show resultsOf c.accepted = _
    rw [(Chan.Grown.of_push hc).accepted, resultsOf_append]
    exact List.append_nil _

theorem resulting_step {n n' : Node A M} {l : Label A M} (hn : Resulting n) (h : n.step l = some n') : Resulting n' := by
  have hslots := resultless_step hn.slots h
  refine ⟨hslots, ?_⟩
  cases Node.step_rule h with
  | exec x hx =>
    obtain ⟨ms, hac, hms⟩ := Node.exec_accepted hx
    have hnone : resultsOf ms = [] := List.filterMap_eq_nil_iff.2 fun m hm => by rw [hms m hm]; rfl
    rw [hac, resultsOf_append, hnone, List.append_nil]
    rcases Node.exec_tasks hx with ⟨ht, -⟩ | ⟨t, ht, hst⟩
    · rw [ht]
      exact hn.results
    · -- a task that starts has reported nothing
      have hfresh : t.reported = [] := by
        have hf := hst.fresh
        cases t with
        | child c =>
          have hpc : c.pc = .running := hf
          rw [Task.reported, Child.reports, hpc]
          rfl
        | _ => rfl
      rw [ht, List.flatMap_append]
      simpa [hfresh] using hn.results
  | task k l s t e hb ht => exact hn.tasked ht
  | join i j n₁ l hj =>
    obtain ⟨s, t, e, ht⟩ := Node.taskStep_cases hj.join
    rcases hj.taken with rfl | h₁
    · exact hn.tasked ht
    · -- joining a handle is the move of the handle, before the move of the task
      obtain ⟨s', t', e', ht'⟩ := Node.taskStep_cases h₁
      have hn₁ : Resulting n₁ := ⟨ht'.slots hn.slots (ht'.moves.resultless (hn.slots s' (List.mem_of_getElem? ht'.slot))),
        hn.tasked ht'⟩
      exact hn₁.tasked ht
  | send r b hr hsent =>
    obtain ⟨hres, ht⟩ := Node.send_results (show n.send r = some n' from h)
    rw [hres, ht]
    exact hn.results
  | quiet l hr hw ha =>
    rw [hr.outside.mailbox.accepted, hr.tasks, List.append_nil]
    exact hn.results

theorem resulting_run {cfg : Config} {a : A} {ls : List (Label A M)} {n : Node A M}
    (hr : Lts.run Node.step (Node.init cfg a) ls = some n) : Resulting n := by
  refine Lts.run_inv (fun _ _ _ hn h => resulting_step hn h) ⟨fun s hs a ha => ?_, ?_⟩ hr
  · obtain ⟨kind, rfl⟩ := mem_init_tasks hs
    cases ha
  · have hnil : (Node.init cfg a : Node A M).tasks.flatMap (fun s => s.task.reported) = [] :=
      List.flatMap_eq_nil_iff.2 fun s hs => by
        obtain ⟨kind, rfl⟩ := mem_init_tasks hs
        rfl
    rw [hnil]
    exact List.Perm.nil

/-! ## Trees of objects -/

namespace Tree

/-- Actor `i` is started as `start i`, and runs the object `code i`. -/
structure Objects (code : ℕ → Object A M) (start : ℕ → A) (t : Tree A M) (l : TreeLabel A M) : Prop where
  starts : ∀ d ∈ t.started l, d.node.actor = start t.length
  follows : ∀ x ∈ t.acting l, (code x.1).behaviour.Follows x.2.1.node x.2.2

theorem started_length (t : Tree A M) (l : TreeLabel A M) : (t.started l).length ≤ 1 := by
  unfold started
  split
  · exact Nat.le_refl 1
  · split
    · split
      · exact Nat.le_refl 1
      · exact Nat.zero_le 1
    · exact Nat.zero_le 1
  · exact Nat.zero_le 1
  · exact Nat.zero_le 1

/-- What an actor of the tree does is a run of its object alone. -/
theorem object_run {code : ℕ → Object A M} {start : ℕ → A} {ls : List (TreeLabel A M)} {t : Tree A M}
    (hO : Lts.Along Tree.step (Objects code start) [] ls) (hr : Lts.run Tree.step [] ls = some t) {i : ℕ}
    {m : Member A M} (hm : t[i]? = some m) :
    ∃ cfg ls, Lts.Along Node.step (code i).behaviour.Follows (Node.init cfg (start i)) ls ∧
      Lts.run Node.step (Node.init cfg (start i)) ls = some m.node := by
  refine Lts.run_along (I := fun t : Tree A M => ∀ i m, t[i]? = some m → ∃ cfg ls,
    Lts.Along Node.step (code i).behaviour.Follows (Node.init cfg (start i)) ls ∧
      Lts.run Node.step (Node.init cfg (start i)) ls = some m.node) ?_ ?_ hO hr i m hm
  · intro t l t' hi hO h j m' hm'
    cases stepped h hm' with
    | acts m nl ha hm hs hp hl =>
      obtain ⟨cfg, ls, hal, hr⟩ := hi j m hm
      exact ⟨cfg, ls ++ [nl], hal.concat hr (hO.follows _ ha), Lts.run_concat hr hs⟩
    | rests hm => exact hi j m' hm
    | starts k hj hk cfg a hn =>
      have hlt := (List.getElem?_eq_some_iff.1 hk).1
      have hone := t.started_length l
      have hk0 : k = 0 := by omega
      have ha := hO.starts m' (List.mem_of_getElem? hk)
      rw [hn] at ha
      have ha : a = start j := by rw [hj, hk0]; exact ha
      rw [hn, ha]
      exact ⟨cfg, [], trivial, rfl⟩
  · intro i m hm
    cases hm

/-- The children of actor `i`. -/
def children (t : Tree A M) (i : ℕ) : List ℕ :=
  (List.range t.length).filter fun j => (t[j]?.bind Member.parent).map Prod.fst = some i

/-- The final actor of a child that its supervisor gets: all that the child was sent is
handled. A child that was handed to a caller of `await` is not reported. -/
def final (t : Tree A M) (code : ℕ → Object A M) (start : ℕ → A) (j : ℕ) : Option (DeadActorResult A) :=
  t[j]?.bind fun d =>
    match d.node.outcome with
    | some (.dead _) => some (.ok ((code j).value (start j) d.node.mailbox.accepted))
    | _ => none

theorem mem_children {t : Tree A M} {i j : ℕ} : j ∈ t.children i ↔ ∃ d k, t[j]? = some d ∧ d.parent = some (i, k) := by
  unfold children
  rw [List.mem_filter, List.mem_range, decide_eq_true_iff, Option.map_eq_some_iff]
  constructor
  · rintro ⟨-, ⟨i', k⟩, h, rfl⟩
    obtain ⟨d, hd, hp⟩ := Option.bind_eq_some_iff.1 h
    exact ⟨d, k, hd, hp⟩
  · rintro ⟨d, k, hd, hp⟩
    exact ⟨(List.getElem?_eq_some_iff.1 hd).1, (i, k), by rw [hd]; exact hp, rfl⟩

end Tree

/-- The child in a slot. -/
def Slot.childId (s : Slot A M) : Option ℕ :=
  match s.task with
  | .child c => some c.id
  | _ => none

namespace Tree

/-- **The wrappers of a supervisor are those of its children**, each of one. -/
theorem Linked.children {t : Tree A M} (hl : Linked t) {i : ℕ} {m : Member A M} (hm : t[i]? = some m) :
    (m.node.tasks.filterMap Slot.childId).Perm (t.children i) := by
  have hslot : ∀ (k : ℕ) (s : Slot A M) (j : ℕ), m.node.tasks[k]? = some s → s.childId = some j →
      ∃ d, t[j]? = some d ∧ d.parent = some (i, k) := by
    rintro k ⟨task, out⟩ j hk hj
    cases task with
    | child c =>
      cases hj
      obtain ⟨d, hd, hp, -⟩ := hl.child i m k c hm (Node.childAt_iff.2 ⟨out, hk⟩)
      exact ⟨d, hd, hp⟩
    | anon | fwd => cases hj
  have hnodup : (t.children i).Nodup := List.nodup_range.filter _
  refine (List.perm_ext_iff_of_nodup ?_ hnodup).2 fun j => ?_
  · -- two slots with one child would both be the slot of that child
    rw [List.Nodup, List.pairwise_filterMap, List.pairwise_iff_getElem]
    intro k₁ k₂ h₁ h₂ hlt j hj j' hj' hjj
    subst hjj
    obtain ⟨d, hd, hp⟩ := hslot k₁ _ j (List.getElem?_eq_getElem h₁) hj
    obtain ⟨d', hd', hp'⟩ := hslot k₂ _ j (List.getElem?_eq_getElem h₂) hj'
    rw [hd] at hd'
    cases hd'
    rw [hp] at hp'
    cases hp'
    omega
  · rw [mem_children, List.mem_filterMap]
    constructor
    · rintro ⟨s, hs, hj⟩
      obtain ⟨k, hk⟩ := List.mem_iff_getElem?.1 hs
      obtain ⟨d, hd, hp⟩ := hslot k s j hk hj
      exact ⟨d, k, hd, hp⟩
    · rintro ⟨d, k, hd, hp⟩
      obtain ⟨m', c, hm', hc, rfl⟩ := hl.parent j d i k hd hp
      rw [hm] at hm'
      cases hm'
      obtain ⟨out, hk⟩ := Node.childAt_iff.1 hc
      exact ⟨_, List.mem_of_getElem? hk, rfl⟩

end Tree

instance [DecidableEq A] [DecidableEq M] (code : ℕ → Object A M) (start : ℕ → A) (t : Tree A M) (l : TreeLabel A M) :
    Decidable (Tree.Objects code start t l) :=
  decidable_of_iff ((∀ d ∈ t.started l, d.node.actor = start t.length) ∧
    ∀ x ∈ t.acting l, (code x.1).behaviour.Follows x.2.1.node x.2.2)
    ⟨fun h => ⟨h.1, h.2⟩, fun h => ⟨h.starts, h.follows⟩⟩

section

variable {code : ℕ → Object A M} {start : ℕ → A} {ls : List (TreeLabel A M)} {t : Tree A M} {i : ℕ} {m : Member A M}

/-- **Every actor of a tree of objects is atomic**, unless its executor has panicked. -/
theorem tree_atomic (hO : Lts.Along Tree.step (Tree.Objects code start) [] ls) (hr : Lts.run Tree.step [] ls = some t)
    (hm : t[i]? = some m) (hf : m.node.pc.stage ≠ .failed) : Atomic (code i) (start i) m.node := by
  obtain ⟨cfg, ls, hal, hr⟩ := Tree.object_run hO hr hm
  exact Object.atomic_run hal hr hf

/-- Two asks, and a request to end in between. -/
def pingPongRun : List (TreeLabel UInt8 PingPong.Msg) :=
  [.run ⟨4, 1, false, []⟩ 255, .step 0 (.exec (.ret 255)), .step 0 (.send (.ask .ping)), .step 0 (.send (.await true)),
    .step 0 (.send (.ask .pong)), .step 0 (.exec .recv), .step 0 (.exec .go), .step 0 (.exec .go),
    .step 0 (.exec (.ret 255)), .step 0 (.exec (.reply 0 .pong)), .step 0 (.exec (.ret 0)), .step 0 (.exec .recv),
    .step 0 (.exec .go), .step 0 (.exec .go), .step 0 (.exec (.ret 0)), .step 0 (.exec .go), .step 0 (.exec (.ret 0)),
    .step 0 (.exec (.ret 0)), .step 0 (.exec .go), .step 0 (.exec (.ret 0)), .step 0 (.exec .go),
    .step 0 (.exec .recv), .step 0 (.exec .go), .step 0 (.exec (.ret 0)), .step 0 (.exec (.reply 1 .ping)),
    .step 0 (.exec (.ret 1)), .step 0 (.exec .none)]

theorem tree_atomic_pingPongRun :
    ∃ t m, Lts.run Tree.step [] pingPongRun = some t ∧ t[0]? = some m ∧ Atomic PingPong.pingPong 255 m.node ∧
      m.node.pc = .onEnd ∧ m.node.actor = 1 ∧ ActorRef.answer m.node 1 = some (.ok .ping) := by
  have hr : ∃ t m, Lts.run Tree.step [] pingPongRun = some t ∧ t[0]? = some m ∧ m.node.pc = .onEnd ∧
      m.node.actor = 1 ∧ ActorRef.answer m.node 1 = some (.ok .ping) := ⟨_, _, rfl, rfl, rfl, rfl, rfl⟩
  obtain ⟨t, m, hr, hm, hpc, hrest⟩ := hr
  have hO : Lts.Along Tree.step (Tree.Objects (fun _ => PingPong.pingPong) fun _ => 255) [] pingPongRun := by decide
  exact ⟨t, m, hr, hm, tree_atomic hO hr hm (by rw [hpc]; decide), hpc, hrest⟩

/-- What the wrapper of a child has reported when its supervisor ends. -/
theorem Tree.reported_final (hO : Lts.Along Tree.step (Tree.Objects code start) [] ls)
    (hr : Lts.run Tree.step [] ls = some t) (hab : Lts.Along Tree.step (Tree.Locally i NoAbort) [] ls)
    (hm : t[i]? = some m) (hend : m.node.pc.stage = .ended)
    (hup : ∀ j ∈ t.children i, ∀ d, t[j]? = some d → d.node.pc.stage ≠ .failed) {s : Slot A M} (hs : s ∈ m.node.tasks) :
    s.task.reported = (s.childId.bind (t.final code start)).toList := by
  obtain ⟨task, out⟩ := s
  cases task with
  | anon | fwd => rfl
  | child c =>
    obtain ⟨k, hk⟩ := List.mem_iff_getElem?.1 hs
    have hc := Node.childAt_iff.2 ⟨out, hk⟩
    obtain ⟨d, hd, hp, -, hf⟩ := (Tree.linked_run hr).child i m k c hm hc
    obtain ⟨hrx, hcrash, -⟩ := handled_reports (Tree.local_run hab hr hm) hend hc
    have hupd := hup c.id (Tree.mem_children.2 ⟨d, k, hd, hp⟩) d hd
    obtain ⟨cfg, lsd, hald, hrd⟩ := Tree.object_run hO hr hd
    have hat := Object.atomic_run hald hrd hupd
    show c.reports.filterMap Body.result = (t.final code start c.id).toList
    unfold Tree.final Node.outcome
    rw [hd, Option.bind_some]
    rcases hf.over hupd hrx with ⟨hpc, rx, hcp⟩ | ⟨hpc, ⟨rx, hcp⟩ | hcp⟩
    · rw [hpc, Child.reports, hcp]
      rfl
    · -- a child whose task is over has handled all that it was sent
      rw [hpc, Child.reports, hcp, hat.ended (by rw [hpc]; rfl)]
      rfl
    · exact absurd hcp (hcrash _)

/-- The results that a supervisor has accepted when it ends are the final actors of its children. -/
theorem results_perm (hO : Lts.Along Tree.step (Tree.Objects code start) [] ls)
    (hr : Lts.run Tree.step [] ls = some t) (hab : Lts.Along Tree.step (Tree.Locally i NoAbort) [] ls)
    (hm : t[i]? = some m) (hend : m.node.pc.stage = .ended)
    (hup : ∀ j ∈ t.children i, ∀ d, t[j]? = some d → d.node.pc.stage ≠ .failed) :
    (resultsOf m.node.mailbox.accepted).Perm ((t.children i).filterMap (t.final code start)) := by
  obtain ⟨cfg, a, lsi, -, hri⟩ := Tree.local_run hab hr hm
  have hslots : m.node.tasks.flatMap (fun s => s.task.reported) =
      (m.node.tasks.filterMap Slot.childId).filterMap (t.final code start) := by
    rw [List.filterMap_filterMap, List.filterMap_eq_flatMap_toList]
    exact List.flatMap_congr fun s hs => Tree.reported_final hO hr hab hm hend hup hs
  refine (resulting_run hri).results.trans ?_
  rw [hslots]
  exact ((Tree.linked_run hr).children hm).filterMap _

/-- **Fan-in**: when `on_end` of a supervisor is called it has handled the final actor of each of
its children once, if no child has panicked and it does not call `abort`. -/
theorem fan_in (hO : Lts.Along Tree.step (Tree.Objects code start) [] ls)
    (hr : Lts.run Tree.step [] ls = some t) (hab : Lts.Along Tree.step (Tree.Locally i NoAbort) [] ls)
    (hm : t[i]? = some m) (hend : m.node.pc.stage = .ended)
    (hup : ∀ j ∈ t.children i, ∀ d, t[j]? = some d → d.node.pc.stage ≠ .failed) :
    (resultsOf (handledOf m.node.trace)).Perm ((t.children i).filterMap (t.final code start)) := by
  obtain ⟨cfg, a, lsi, -, hri⟩ := Tree.local_run hab hr hm
  rw [(ended_handled (life_run hri) hend).2]
  exact results_perm hO hr hab hm hend hup

/-- A view of the actor that only results change. -/
theorem Object.value_view {O : Object A M} {V : Type} {view : A → V} {f : V → DeadActorResult A → V}
    (hdead : ∀ r a, view (O.dead r a) = f (view a) r)
    (hother : ∀ b a, b.result = none → view (O.apply a b).1 = view a) (ms : List (Mail A M)) (a : A) :
    view (O.value a ms) = (resultsOf ms).foldl f (view a) := by
  induction ms generalizing a with
  | nil => rfl
  | cons m ms ih =>
    have hcons : O.value a (m :: ms) = O.value (O.apply a m.body).1 ms := rfl
    rw [hcons, ih]
    rw [resultsOf_cons, List.foldl_append]
    congr 1
    cases hres : m.body.result with
    | none => exact hother _ _ hres
    | some r =>
      obtain ⟨src, body⟩ := m
      cases body with
      | dead r' =>
        cases hres
        exact hdead _ a
      | user | ask | asyncAsk | await | cancelled => cases hres

/-- **What a supervisor makes of its results does not depend on the order in which its children
end**: a view of it that only results change, in any order, is in the end that of the final
actors of its children. -/
theorem fan_in_total (hO : Lts.Along Tree.step (Tree.Objects code start) [] ls)
    (hr : Lts.run Tree.step [] ls = some t) (hab : Lts.Along Tree.step (Tree.Locally i NoAbort) [] ls)
    (hm : t[i]? = some m) (hend : m.node.pc.stage = .ended)
    (hup : ∀ j ∈ t.children i, ∀ d, t[j]? = some d → d.node.pc.stage ≠ .failed)
    {V : Type} {view : A → V} {f : V → DeadActorResult A → V} [RightCommutative f]
    (hdead : ∀ r a, view ((code i).dead r a) = f (view a) r)
    (hother : ∀ b a, b.result = none → view ((code i).apply a b).1 = view a) :
    view m.node.actor = ((t.children i).filterMap (t.final code start)).foldl f (view (start i)) := by
  obtain ⟨cfg, lsi, hal, hri⟩ := Tree.object_run hO hr hm
  have hat := Object.atomic_run hal hri (by rw [hend]; decide)
  rw [hat.ended hend, Object.value_view hdead hother]
  exact (results_perm hO hr hab hm hend hup).foldl_eq _

end

/-! ## Two children -/

namespace FanOut

/-- The parent, and the children it spawns. -/
def start : ℕ → Actor
  | 0 => .parent ⟨0, 0, 0⟩
  | index + 1 => .child ⟨index + 1⟩

/-- The total, and the number of children that it is of. -/
def sums : Actor → Option (ℕ × ℕ)
  | .parent p => some (p.total, p.dead)
  | .child _ => none

def add (s : Option (ℕ × ℕ)) : DeadActorResult Actor → Option (ℕ × ℕ)
  | .ok (.child c) => s.map fun p => (p.1 + c.index, p.2 + 1)
  | _ => s

instance : RightCommutative add where
  right_comm s r r' := by
    rcases r with e | ⟨p | c⟩ <;> rcases r' with e' | ⟨p' | c'⟩ <;> try rfl
    cases s with
    | none => rfl
    | some p => exact congrArg some (Prod.ext (Nat.add_right_comm _ _ _) rfl)

theorem sums_dead (r : DeadActorResult Actor) (a : Actor) : sums (actor.dead r a) = add (sums a) r := by
  rcases r with e | ⟨p | c⟩ <;> rcases a with q | d <;> rfl

theorem sums_other (b : Body Actor ℕ) (a : Actor) (h : b.result = none) : sums (actor.apply a b).1 = sums a := by
  cases b with
  | dead r => cases h
  | user m => cases a <;> rfl
  | asyncAsk m k s => cases s <;> rfl
  | ask | await | cancelled => rfl

/-- Actor `i` returns from a callback. -/
def ret (i : ℕ) (a : Actor) : TreeLabel Actor ℕ := .step i (.exec (.ret a))

/-- The parent is sent `Children { count: 2 }` and a request to end. It spawns the two, and tells
them to stop. -/
def spawnLabels : List (TreeLabel Actor ℕ) :=
  [.run ⟨4, 1, false, []⟩ (start 0), ret 0 (start 0), .step 0 (.send (.user 2)), .step 0 (.send (.await true)),
    .step 0 (.exec .recv), .step 0 (.exec .go), .step 0 (.exec .go), ret 0 (start 0),
    .spawn 0 ⟨4, 1, true, []⟩ (start 1), .spawn 0 ⟨4, 1, true, []⟩ (start 2), ret 0 (.parent ⟨2, 0, 0⟩),
    ret 0 (.parent ⟨2, 0, 0⟩), ret 1 (start 1), .step 1 (.exec .go), ret 2 (start 2), .step 2 (.exec .go),
    .step 0 (.exec .recv), .step 0 (.exec .go), .step 0 (.exec .go), ret 0 (.parent ⟨2, 0, 0⟩), .step 0 (.exec .go),
    ret 0 (.parent ⟨2, 0, 0⟩), ret 0 (.parent ⟨2, 0, 0⟩), .step 0 (.exec .go), .step 0 (.exec .go)]

/-- Child `i` stops. -/
def endLabels (i : ℕ) : List (TreeLabel Actor ℕ) :=
  [.step i (.exec .shutdown), ret i (start i), .step i (.exec .go), ret i (start i), .step i (.exec .go),
    .step i (.exec .none), ret i (start i), .step i (.exec .go)]

/-- The result of the child in slot `k` is handled, which makes `p'` of the parent `p`. -/
def hearLabels (k : ℕ) (p p' : ParentActor) : List (TreeLabel Actor ℕ) :=
  [.join 0 k, .step 0 (.task k (.child .send)), .step 0 (.task k (.child .drop)), .step 0 (.exec .recv),
    .step 0 (.exec .go), ret 0 (.parent p), ret 0 (.parent p'), ret 0 (.parent p'), .step 0 (.exec .go)]

/-- The children end in the other order than they were spawned. -/
def reversedRun : List (TreeLabel Actor ℕ) :=
  spawnLabels ++ endLabels 2 ++ hearLabels 1 ⟨2, 0, 0⟩ ⟨2, 2, 1⟩ ++ endLabels 1 ++ hearLabels 0 ⟨2, 2, 1⟩ ⟨2, 3, 2⟩ ++
    [ret 0 (.parent ⟨2, 3, 2⟩), .step 0 (.exec .go), .step 0 (.exec .none)]

theorem reversedRun_ends : ∃ t m, Lts.run Tree.step [] reversedRun = some t ∧ t[0]? = some m ∧ m.node.pc = .onEnd ∧
    t.children 0 = [1, 2] ∧ (t.children 0).filterMap (t.final (fun _ => actor) start) =
      [.ok (.child ⟨1⟩), .ok (.child ⟨2⟩)] ∧
    ∀ j ∈ t.children 0, ∀ d, t[j]? = some d → d.node.pc.stage ≠ .failed := by
  refine ⟨_, _, rfl, rfl, rfl, rfl, rfl, ?_⟩
  intro j hj d hd
  rcases List.mem_cons.1 hj with rfl | hj
  · cases hd
    decide
  · obtain rfl := List.mem_singleton.1 hj
    cases hd
    decide

set_option maxRecDepth 2000 in
theorem reversedRun_objects : Lts.Along Tree.step (Tree.Objects (fun _ => actor) start) [] reversedRun := by decide

set_option maxRecDepth 2000 in
theorem reversedRun_noAbort : Lts.Along Tree.step (Tree.Locally 0 NoAbort) [] reversedRun := by decide

end FanOut

theorem fan_in_reversedRun : ∃ (t : Tree FanOut.Actor ℕ) (m : Member FanOut.Actor ℕ),
    Lts.run Tree.step [] FanOut.reversedRun = some t ∧ t[0]? = some m ∧ m.node.pc = .onEnd ∧
      (resultsOf (handledOf m.node.trace)).Perm [.ok (.child ⟨1⟩), .ok (.child ⟨2⟩)] := by
  obtain ⟨t, m, hr, hm, hpc, hch, hfin, hup⟩ := FanOut.reversedRun_ends
  refine ⟨t, m, hr, hm, hpc, ?_⟩
  rw [← hfin]
  exact fan_in FanOut.reversedRun_objects hr FanOut.reversedRun_noAbort hm (by rw [hpc]; rfl) hup

theorem fan_in_total_reversedRun : ∃ (t : Tree FanOut.Actor ℕ) (m : Member FanOut.Actor ℕ),
    Lts.run Tree.step [] FanOut.reversedRun = some t ∧ t[0]? = some m ∧ m.node.pc = .onEnd ∧
      FanOut.sums m.node.actor = some (1 + 2, 2) := by
  obtain ⟨t, m, hr, hm, hpc, hch, hfin, hup⟩ := FanOut.reversedRun_ends
  refine ⟨t, m, hr, hm, hpc, ?_⟩
  rw [fan_in_total FanOut.reversedRun_objects hr FanOut.reversedRun_noAbort hm (by rw [hpc]; rfl) hup FanOut.sums_dead
    FanOut.sums_other, hfin]
  rfl

end Tokactor
