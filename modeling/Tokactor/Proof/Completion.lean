import Tokactor.Lib.Tally
import Tokactor.Proof.Asks
import Tokactor.Proof.Shutdown

/-!
# A tree that is told to stop ends

Trees of actors that start no work but children. A step is *inner* when the tree takes it by
itself: nobody sends, no callback uses its context, and no time passes but the second after which
`stopping` sees that no receiver is left.

* `Staffed`: what holds of an actor of such a tree.
* `Node.work`, `Tree.work`: what is left to do, until somebody sends more.
* `work_step`: every inner step lowers it.
* `tree_settles`: so the tree takes only so many inner steps, in any order, and then every actor
  waits for a message or has ended.
* `told_step`: an actor that was told to stop does not forget it.
* `shutdown_completes`: so it has ended when its tree is at rest, and so have all below it.
-/

namespace Tokactor

variable {A M : Type}

/-! ## Actors that start nothing but children -/

/-- The step starts nothing but a child, and no receiver is left when the tenth second of
`stopping` has passed. -/
def Node.staffs (n : Node A M) : Label A M → Bool
  | .exec (.op .anonymous) | .exec (.op .anonymousTask) | .exec (.op .anonymousHandle) | .exec (.task _ _) => false
  | .exec .tick => n.timeoutCounter < 9 || n.isClosed
  | _ => true

/-- The step is calm as well. -/
def Orderly (n : Node A M) (l : Label A M) : Prop := Calm n l ∧ n.staffs l = true

instance (n : Node A M) (l : Label A M) : Decidable (Orderly n l) := inferInstanceAs (Decidable (_ ∧ _))

/-- The loop of `stopping`. -/
def Pc.rounds : Pc A M → Bool
  | .wait | .recheck => true
  | .process p _ | .preRun p _ | .handle p _ | .future p _ _ | .cancelling p _ | .postRun p => p.stage = .stopping
  | _ => false

theorem Pc.rounds_stage {pc : Pc A M} (h : pc.rounds = true) : pc.stage = .stopping := by
  cases pc with
  | process p | preRun p | handle p | future p | cancelling p | postRun p => exact of_decide_eq_true h
  | wait | recheck => rfl
  | _ => cases h

/-- What holds of an actor that starts nothing but children. -/
structure Staffed (n : Node A M) : Prop where
  tasks : ∀ s ∈ n.tasks, ∃ c, s.task = .child c
  overflow : n.overflow = 0
  permitted : ∀ hand k rest, n.pc ≠ .acquire hand k rest
  room : 0 < n.mailbox.cap
  side : n.cfg.supervised = true → n.pc ≠ .recv ∧ n.pc ≠ .done
  /-- who holds a receiver in the loop of `stopping` was told to stop -/
  told : n.pc.rounds = true → n.shutdown = true ∨ n.isClosed = true
  inTime : n.pc.rounds = true → n.timeoutCounter ≤ 9 ∨ n.pc = .recheck ∧ n.isClosed = true

theorem staffed_init (cfg : Config) (a : A) (hf : cfg.forwarders = []) (hm : 0 < cfg.mailboxSize) :
    Staffed (Node.init cfg a : Node A M) where
  tasks s hs := by
    obtain ⟨kind, hkind, -⟩ := List.mem_map.1 hs
    rw [hf] at hkind
    cases hkind
  overflow := rfl
  permitted hand k rest h := by cases h
  room := hm
  side _ := ⟨fun h => (by cases h), fun h => (by cases h)⟩
  told h := by cases h
  inTime h := by cases h

section

variable {n n' : Node A M} {x : Act A M} {l : Label A M}

/-- The executor goes on, and leaves its tasks and its counters. -/
theorem Staffed.same (hs : Staffed n) (ht : n'.tasks = n.tasks) (hc : n'.cfg = n.cfg) (ho : n'.overflow = n.overflow)
    (hcap : n'.mailbox.cap = n.mailbox.cap) (hsh : n'.shutdown = n.shutdown) (htc : n'.timeoutCounter = n.timeoutCounter)
    (hp : ∀ hand k rest, n'.pc ≠ .acquire hand k rest) (hside : n.cfg.supervised = true → n'.pc ≠ .recv ∧ n'.pc ≠ .done)
    (hround : n'.pc.rounds = true → n.pc.rounds = true ∧ (n.pc = .recheck → n.isClosed = false)) : Staffed n' := by
  have hcl : n'.isClosed = n.isClosed := by unfold Node.isClosed; rw [ht]
  refine ⟨ht ▸ hs.tasks, ho.trans hs.overflow, hp, hcap ▸ hs.room, hc ▸ hside, fun h => ?_, fun h => ?_⟩
  · rw [hsh, hcl]
    exact hs.told (hround h).1
  · rw [htc]
    obtain ⟨hold, hre⟩ := hround h
    rcases hs.inTime hold with hle | ⟨hpc, hclosed⟩
    · exact .inl hle
    · rw [hre hpc] at hclosed
      cases hclosed

theorem Staffed.passCheck (hs : Staffed n) (hand : Option (Mail A M)) : Staffed (n.passCheck hand) := by
  cases hand <;> exact hs.same rfl rfl rfl rfl rfl rfl (by simp [Node.passCheck]) (fun _ => by simp [Node.passCheck])
    (fun h => (by cases h))

theorem Staffed.unchecked (hs : Staffed n) : checkAnonymousActors n.cfg.maxAnonymousActors n.permits n.overflow = none := by
  simp [checkAnonymousActors, hs.overflow]

theorem Staffed.mainLoop (hs : Staffed n) : Staffed n.mainLoop := by
  refine hs.same rfl rfl rfl rfl rfl rfl ?_ (fun hsup => ?_) fun h => ?_
  · intro hand k rest h
    unfold Node.mainLoop at h
    dsimp only at h
    split at h <;> cases h
  · simp [Node.mainLoop, hsup]
  · unfold Node.mainLoop at h
    dsimp only at h
    split at h <;> cases h

/-- Why the loop of `stopping` looks for receivers again: a second has passed, or the mailbox is
closed. -/
theorem Node.again_cases (hold : n.pc = .wait) (h : n.exec x = some n') (hpc : n'.pc = .recheck) :
    x = .tick ∧ n'.timeoutCounter = n.timeoutCounter + 1 ∨
      n'.timeoutCounter = n.timeoutCounter ∧ n.mailbox.closed = true := by
  simp only [Node.exec, hold, Node.stoppingLoop] at h
  split at h
  · split at h
    · cases h
      cases hpc
    · cases h
      exact .inl ⟨rfl, rfl⟩
  · unfold Node.receive at h
    split at h
    · obtain ⟨p, -, rfl⟩ := Option.map_eq_some_iff.1 h
      cases hpc
    · split at h
      · rename_i hq hc
        cases h
        exact .inr ⟨rfl, hc⟩
      · cases h
    · cases h

/-- **The executor of an actor that starts nothing but children.** -/
theorem Staffed.exec (hs : Staffed n) (hl : LifeOK n) (ho : Orderly n (.exec x)) (h : n.exec x = some n')
    (hf : n'.pc.stage ≠ .failed) : Staffed n' := by
  have hup : n.pc.stage ≠ .failed := fun hup => exec_failed (Node.exec_rule h) hup
  cases Node.exec_rule h with
  | op o hx' hu hop =>
    subst hx'
    have hkept := Node.ctxOp_kept hop
    have hre : n.pc ≠ .recheck := fun h => by rw [h] at hu; cases hu
    cases o with
    | stop =>
      obtain ⟨st, h, -⟩ := Node.stop_eq n
      rw [Node.ctxOp, h]
      exact hs.same rfl rfl rfl rfl rfl rfl hs.permitted hs.side fun h => ⟨h, fun h' => absurd h' hre⟩
    | abort => cases ho.1
    | anonymous | anonymousTask | anonymousHandle => cases ho.2
    | spawn id =>
      -- a child is started in a running context, so not in `stopping`
      have hrun : n.state = .running := hop
      have hmain : n.pc.rounds = false := by
        by_contra h
        obtain ⟨h', hlife⟩ := hl.resolve_left hup
        refine hlife.state ?_ hrun
        rw [Pc.rounds_stage (by simpa using h)]
        exact Stage.noConfusion
      rw [Node.ctxOp, if_pos hrun]
      refine ⟨fun s hs' => ?_, hs.overflow, hs.permitted, hs.room, hs.side, fun h => ?_, fun h => ?_⟩
      · rcases List.mem_append.1 hs' with hs' | hs'
        · exact hs.tasks s hs'
        · rw [List.mem_singleton.1 hs']
          exact ⟨_, rfl⟩
      · rw [show n.pc.rounds = true from h] at hmain
        cases hmain
      · rw [show n.pc.rounds = true from h] at hmain
        cases hmain
  | unwind c hc => exact absurd (unwind_stage n c) hf
  | onStart a hold =>
    have ha : Staffed { n with actor := a } := hs.same rfl rfl rfl rfl rfl rfl hs.permitted hs.side
      fun h => ⟨h, fun h' => by rw [hold] at h'; cases h'⟩
    exact ha.mainLoop
  | took m c pc hp htook =>
    obtain ⟨-, hcap, -⟩ := Chan.pop_cases hp
    have hold : pc.rounds = true → n.pc = .wait := by
      unfold Pc.took at htook
      split at htook <;> cases htook <;> simp_all [Pc.rounds, Phase.stage]
    have hnot : (∀ hand k rest, pc ≠ .acquire hand k rest) ∧ pc ≠ .recv ∧ pc ≠ .done := by
      unfold Pc.took at htook
      split at htook <;> cases htook <;> simp
    refine hs.same rfl rfl rfl hcap rfl rfl hnot.1 (fun _ => hnot.2) fun h => ?_
    rw [hold h]
    exact ⟨rfl, fun h' => (by cases h')⟩
  | leaveLoop hold =>
    exact hs.same rfl rfl rfl rfl rfl rfl (by simp [Node.shutdownStart, Node.call])
      (fun _ => by simp [Node.shutdownStart, Node.call]) fun h => (by cases h)
  | check hand hold =>
    unfold Node.checkStep
    rw [hs.unchecked]
    exact hs.passCheck hand
  | acquired hand k rest hold hk => exact absurd hold (hs.permitted hand k rest)
  | task p m a k h hx' hold hb =>
    subst hx'
    cases ho.2
  | await p m stopNow w hold hb =>
    obtain ⟨st, h, -⟩ := Node.subscribe_eq n stopNow w
    rw [h]
    refine hs.same rfl rfl rfl rfl rfl rfl (by simp [Node.handled, Node.call]) (fun _ => by simp [Node.handled, Node.call])
      fun h => ⟨by rw [hold]; exact h, fun h' => by rw [hold] at h'; cases h'⟩
  | cancelClosed p m hold hc =>
    obtain ⟨aw, ak, h⟩ := Node.dropMail_eq n m
    rw [h]
    exact hs.same rfl rfl rfl rfl rfl rfl (by simp [Node.handled, Node.call]) (fun _ => by simp [Node.handled, Node.call])
      fun h => ⟨by rw [hold]; exact h, fun h' => by rw [hold] at h'; cases h'⟩
  | cancelSent p m c hold hc =>
    obtain ⟨-, -, hcap, -⟩ := Chan.push_cases hc
    obtain ⟨aw, ak, h⟩ := Node.dropMail_eq { n with mailbox := c } m
    rw [h]
    exact hs.same rfl rfl rfl hcap rfl rfl (by simp [Node.handled, Node.call]) (fun _ => by simp [Node.handled, Node.call])
      fun h => ⟨by rw [hold]; exact h, fun h' => by rw [hold] at h'; cases h'⟩
  | postRun p a hold =>
    have ha : Staffed { n with actor := a } := hs.same rfl rfl rfl rfl rfl rfl hs.permitted hs.side
      fun h => ⟨h, fun h' => by rw [hold] at h'; cases h'⟩
    cases p with
    | main =>
      simp only [Node.processed]
      split
      · exact ha.mainLoop
      · exact ha.same rfl rfl rfl rfl rfl rfl (by simp [Node.shutdownStart, Node.call])
          (fun _ => by simp [Node.shutdownStart, Node.call]) fun h => (by cases h)
    | stopping | stopped =>
      refine hs.same rfl rfl rfl rfl rfl rfl (by simp [Node.processed]) (fun _ => by simp [Node.processed]) fun h => ?_
      rw [hold]
      first
        | exact ⟨rfl, fun h' => (by cases h')⟩
        | cases h
  | notify hold =>
    refine ⟨hs.tasks, hs.overflow, by simp, hs.room, fun _ => by simp, fun _ => ?_, fun _ => .inl (Nat.zero_le 9)⟩
    show (n.shutdown || !n.isClosed) = true ∨ n.isClosed = true
    cases n.isClosed <;> simp
  | again t hold =>
    refine ⟨hs.tasks, hs.overflow, by simp, hs.room, fun _ => by simp, fun _ => hs.told (by rw [hold]; rfl), fun _ => ?_⟩
    show t ≤ 9 ∨ Pc.recheck = .recheck ∧ n.isClosed = true
    have hle := hs.inTime (by rw [hold]; rfl)
    simp only [hold, reduceCtorEq, false_and, or_false] at hle
    rcases Node.again_cases hold h rfl with ⟨rfl, ht⟩ | ⟨ht, -⟩
    · -- the tenth second finds no receiver
      have ht : t = n.timeoutCounter + 1 := ht
      have hin := ho.2
      simp only [Node.staffs, Bool.or_eq_true, decide_eq_true_eq] at hin
      rcases hin with hlt | hclosed
      · left; omega
      · exact .inr ⟨rfl, hclosed⟩
    · have ht : t = n.timeoutCounter := ht
      left; omega
  | finish hold =>
    have hfinish : n.finish.tasks = n.tasks ∧ n.finish.cfg = n.cfg ∧ n.finish.overflow = n.overflow ∧
        n.finish.mailbox = n.mailbox ∧ n.finish.shutdown = n.shutdown ∧ n.finish.timeoutCounter = n.timeoutCounter ∧
        (n.finish.pc = .handed ∨ n.finish.pc = .reporting ∨ n.cfg.supervised = false ∧ n.finish.pc = .done) := by
      unfold Node.finish
      cases n.cfg.supervised with
      | false => simp
      | true =>
        simp only [if_true]
        cases n.sender with
        | none => simp
        | some w =>
          simp only
          split <;> simp
    obtain ⟨h1, h2, h3, h4, h5, h6, hpc⟩ := hfinish
    refine hs.same h1 h2 h3 (congrArg Chan.cap h4) h5 h6 (fun hand k rest h => ?_) (fun hsup => ?_) fun h => ?_
    · rcases hpc with hpc | hpc | ⟨-, hpc⟩ <;> rw [hpc] at h <;> cases h
    · rcases hpc with hpc | hpc | ⟨hsup', -⟩
      · rw [hpc]; simp
      · rw [hpc]; simp
      · rw [hsup] at hsup'; cases hsup'
    · rcases hpc with hpc | hpc | ⟨-, hpc⟩ <;> rw [hpc] at h <;> cases h
  | process p m hold | preRun p m a hold | handled p m a hold hb | future p m a k hold hb =>
    refine hs.same rfl rfl rfl rfl rfl rfl (by simp [Node.handled, Node.call]) (fun _ => by simp [Node.handled, Node.call])
      fun h => ⟨by rw [hold]; exact h, fun h' => by rw [hold] at h'; cases h'⟩
  | answered p m a k r hold hb hr =>
    refine hs.same rfl rfl rfl rfl rfl rfl (by simp [Node.handled, Node.call]) (fun _ => by simp [Node.handled, Node.call])
      fun h => ?_
    rcases hold with hold | ⟨seen, hold⟩ <;> rw [hold] <;> exact ⟨h, fun h' => (by cases h')⟩
  | changed p m seen hold hsh =>
    refine hs.same rfl rfl rfl rfl rfl rfl (by simp) (fun _ => by simp)
      fun h => ⟨by rw [hold]; exact h, fun h' => by rw [hold] at h'; cases h'⟩
  | stay hold hc =>
    refine hs.same rfl rfl rfl rfl rfl rfl (by simp) (fun _ => by simp) fun h => ⟨by rw [hold]; rfl, fun _ => hc⟩
  | onStopping a hold | children hold hc | onStopped a hold | assertClosed hold hc | drained hold hq | onEnd a hold =>
    exact hs.same rfl rfl rfl rfl rfl rfl (by simp [Node.call]) (fun _ => by simp [Node.call]) fun h => (by cases h)
  | stoppingDone hgo hold hc =>
    exact hs.same rfl rfl rfl (Chan.close_cap _) rfl rfl (by simp [Node.stoppingDone, Node.call])
      (fun _ => by simp [Node.stoppingDone, Node.call]) fun h => (by cases h)

/-- A receiver that is gone does not come back. -/
theorem Node.Tasked.isClosed {k : ℕ} {tl : TaskLabel A M} {s : Slot A M} {t : Task A M} {e : Eff A M}
    (h : Node.Tasked n k tl n' s t e) (hk : s.task.kin = true) (hc : n.isClosed = true) : n'.isClosed = true := by
  rw [isClosed_iff] at hc ⊢
  exact h.slots hc ((kin_step h.moves).2 hk (hc s (List.mem_of_getElem? h.slot)))

/-- **A step of such an actor.** -/
theorem staffed_step (hs : Staffed n) (hl : LifeOK n) (ho : Orderly n l) (h : n.step l = some n')
    (hf : n'.pc.stage ≠ .failed) : Staffed n' := by
  have outside : ∀ {n₁ n₂ : Node A M} {ms}, Staffed n₁ → Node.Outside ms n₁ n₂ → (∀ s ∈ n₂.tasks, ∃ c, s.task = .child c) →
      (n₁.isClosed = true → n₂.isClosed = true) → Staffed n₂ := by
    intro n₁ n₂ ms hs hout ht hcl
    refine ⟨ht, hout.overflow.trans hs.overflow, hout.pc ▸ hs.permitted, hout.mailbox.cap ▸ hs.room,
      fun hsup => hout.pc ▸ hs.side (hout.cfg ▸ hsup), fun h => ?_, fun h => ?_⟩
    · rw [hout.shutdown]
      exact (hs.told (hout.pc ▸ h)).imp_right hcl
    · rw [hout.timeoutCounter, hout.pc]
      exact (hs.inTime (hout.pc ▸ h)).imp_right fun h => ⟨h.1, hcl h.2⟩
  refine Node.step_keeps (I := Staffed) hs h ?_ ?_ ?_
  · rintro x rfl -
    exact hs.exec hl ho h hf
  · intro n₁ k tl n₂ s t e hs hn ht
    obtain ⟨c, hc⟩ := hs.tasks s (List.mem_of_getElem? ht.slot)
    refine outside hs ht.outside (ht.slots hs.tasks ?_) (ht.isClosed (by rw [hc]; rfl))
    have hm := ht.moves
    rw [hc] at hm
    cases hm
    exact ⟨_, rfl⟩
  · intro ms hr
    have hcl : n'.isClosed = n.isClosed := by unfold Node.isClosed; rw [hr.tasks]
    exact outside hs hr.outside (hr.tasks ▸ hs.tasks) fun hc => hcl.trans hc

end

/-! ## What is left to do -/

/-- A step that an actor takes by itself. -/
def Node.inner (n : Node A M) : Label A M → Bool
  | .exec (.op _) | .exec .panic | .exec .died | .exec (.task _ _) => false
  | .exec .tick => n.isClosed && n.timeoutCounter ≠ 10
  | .exec _ | .task _ (.child _) => true
  | _ => false

/-- What is left behind a message at hand. -/
def Phase.work : Phase → ℕ
  | .main => 14
  | .stopping => 8
  | .stopped => 4

def Pc.work : Pc A M → ℕ
  | .onStart => 16
  | .recv | .select => 13
  | .check none => 14
  | .check (some _) => 20
  | .process p _ => p.work + 5
  | .preRun p _ => p.work + 4
  | .handle p _ => p.work + 3
  | .future p _ _ => p.work + 2
  | .postRun p => p.work + 1
  | .onStopping => 12
  | .isClosed => 11
  | .notify => 10
  | .recheck => 8
  | .wait => 7
  | .onStopped => 6
  | .assertClosed => 5
  | .drain => 4
  | .onEnd => 3
  | .returned => 2
  | _ => 0

/-- The wrapper of a child, and the report that it sends. -/
def Child.work (c : Child A) : ℕ :=
  match c.pc with
  | .running => 15
  | .reporting _ => 14
  | .failing _ => 12
  | .handed true | .reported _ true => 3
  | _ => 0

def Task.work : Task A M → ℕ
  | .child c => c.work
  | _ => 0

namespace Node

/-- The next second ends the wait of `stopping`. -/
def ticks (n : Node A M) : ℕ :=
  match n.pc with
  | .wait => if n.isClosed then 2 else 0
  | _ => 0

/-- What is left to do for an actor, until somebody sends more. -/
def work (n : Node A M) : ℕ :=
  10 * n.mailbox.queue.length + n.pc.work + n.ticks + (n.tasks.map fun s => s.task.work).sum

theorem ticks_le (n : Node A M) : n.ticks ≤ 2 := by
  unfold ticks
  split
  · split <;> omega
  · omega

theorem ticks_of_ne {n : Node A M} (h : n.pc ≠ .wait) : n.ticks = 0 := by
  unfold ticks
  split
  · exact absurd ‹_› h
  · rfl

end Node

section

variable {n n' : Node A M} {x : Act A M} {l : Label A M}

/-- **Every inner step of the executor lowers it.** -/
theorem Staffed.work_exec {a₀ : A} {tr : List (Event A M)} (hs : Staffed n) (hserved : Served .any a₀ n tr)
    (hcl : ClosedLate n) (hin : n.inner (.exec x) = true) (h : n.exec x = some n') (hf : n'.pc.stage ≠ .failed) :
    n'.work < n.work := by
  -- most steps leave the queue
  have same : n'.tasks = n.tasks → n'.mailbox.queue = n.mailbox.queue → n'.pc.work + n'.ticks < n.pc.work + n.ticks →
      n'.work < n.work := by
    intro ht hq hlt
    rw [Node.work, Node.work, ht, hq]
    omega
  have plain : n'.tasks = n.tasks → n'.mailbox.queue = n.mailbox.queue → n'.pc ≠ .wait → n'.pc.work < n.pc.work →
      n'.work < n.work := by
    intro ht hq hpc hlt
    refine same ht hq ?_
    rw [Node.ticks_of_ne hpc]
    omega
  cases Node.exec_rule h with
  | op o hx hu ho =>
    subst hx
    cases hin
  | unwind c hc => exact absurd (unwind_stage n c) hf
  | onStart a hold =>
    refine plain rfl rfl ?_ ?_ <;> unfold Node.mainLoop <;> cases n.cfg.supervised <;> simp [hold, Pc.work]
  | took m c pc hp htook =>
    have hq := congrArg List.length (Chan.pop_cases hp).1
    rw [List.length_cons] at hq
    -- the message is at hand now
    have hle : pc.work < n.pc.work + 10 ∧ pc ≠ .wait := by
      cases hold : n.pc <;> rw [hold] at htook <;> cases htook <;> simp [Pc.work, Phase.work]
    have hticks : Node.ticks { n with mailbox := c, pc := pc } = 0 := Node.ticks_of_ne hle.2
    show 10 * c.queue.length + pc.work + Node.ticks { n with mailbox := c, pc := pc } +
      (n.tasks.map fun s => s.task.work).sum < n.work
    rw [hticks, Node.work]
    omega
  | leaveLoop hold =>
    refine plain rfl rfl (by simp [Node.shutdownStart, Node.call]) ?_
    rcases hold with hold | hold <;> rw [hold] <;> simp [Node.shutdownStart, Node.call, Pc.work]
  | check hand hold =>
    unfold Node.checkStep at plain ⊢
    rw [hs.unchecked] at plain ⊢
    cases hand <;> exact plain rfl rfl (by simp [Node.passCheck]) (by simp [hold, Node.passCheck, Pc.work, Phase.work])
  | acquired hand k rest hold hk => exact absurd hold (hs.permitted hand k rest)
  | task p m a k j hx' hold hb =>
    subst hx'
    cases hin
  | await p m stopNow w hold hb =>
    obtain ⟨st, heq, -⟩ := Node.subscribe_eq n stopNow w
    rw [heq] at plain ⊢
    exact plain rfl rfl (by simp [Node.handled, Node.call]) (by rw [hold]; simp [Node.handled, Node.call, Pc.work])
  | changed p m seen hold hsh => exact absurd (hserved.future hold).1.symm hsh
  | cancelClosed p m hold hc | cancelSent p m c hold hc => exact absurd hold (hserved.uncancelled p m)
  | postRun p a hold =>
    cases p with
    | main =>
      by_cases hrun : n.state = .running
      · simp only [Node.processed, if_pos hrun] at plain ⊢
        refine plain rfl rfl ?_ ?_ <;> unfold Node.mainLoop <;> cases n.cfg.supervised <;> simp [hold, Pc.work, Phase.work]
      · simp only [Node.processed, if_neg hrun] at plain ⊢
        exact plain rfl rfl (by simp [Node.shutdownStart, Node.call])
          (by simp [hold, Node.shutdownStart, Node.call, Pc.work, Phase.work])
    | stopping | stopped => exact plain rfl rfl (by simp [Node.processed]) (by simp [hold, Node.processed, Pc.work, Phase.work])
  | stoppingDone hx hold hc =>
    refine plain rfl rfl (by simp [Node.stoppingDone, Node.call]) ?_
    rcases hold with hold | hold <;> rw [hold] <;> simp [Node.stoppingDone, Node.call, Pc.work]
  | notify hold =>
    refine same rfl rfl ?_
    have hle := Node.ticks_le ({ n with shutdown := n.shutdown || !n.isClosed, timeoutCounter := 0, pc := .wait })
    rw [hold]
    simp only [Pc.work]
    omega
  | again t hold =>
    have hticks : Node.ticks { n with timeoutCounter := t, pc := Pc.recheck } = 0 := Node.ticks_of_ne (by simp)
    refine same rfl rfl ?_
    rcases Node.again_cases hold h rfl with ⟨rfl, -⟩ | ⟨-, hc⟩
    · -- the second that ends the wait
      simp only [Node.inner, Bool.and_eq_true] at hin
      rw [hticks]
      unfold Node.ticks
      rw [hold]
      simp [Pc.work, hin.1]
    · have hrank := hcl hc
      rw [hold] at hrank
      exact absurd hrank (Nat.not_succ_le_self 1)
  | stay hold hc =>
    refine same rfl rfl ?_
    have hticks : Node.ticks { n with pc := Pc.wait } = 0 := if_neg (by simpa [Node.isClosed] using hc)
    rw [hticks, hold]
    show 7 + 0 < 8 + n.ticks
    omega
  | finish hold =>
    have hfinish : n.finish.tasks = n.tasks ∧ n.finish.mailbox = n.mailbox ∧ n.finish.pc.work = 0 ∧ n.finish.pc ≠ .wait := by
      unfold Node.finish
      (repeat' split) <;> simp [Pc.work]
    refine plain hfinish.1 (congrArg Chan.queue hfinish.2.1) hfinish.2.2.2 ?_
    rw [hfinish.2.2.1, hold]
    exact Nat.succ_pos 1
  | answered p m a k r hold hb hr =>
    refine plain rfl rfl (by simp [Node.handled, Node.call]) ?_
    rcases hold with hold | ⟨seen, hold⟩ <;> rw [hold] <;> simp [Node.handled, Node.call, Pc.work]
  | process p m hold | preRun p m a hold | handled p m a hold hb | future p m a k hold hb | onStopping a hold
  | children hold hc | onStopped a hold | assertClosed hold hc | drained hold hq | onEnd a hold =>
    exact plain rfl rfl (by simp [Node.handled, Node.call]) (by rw [hold]; simp [Node.handled, Node.call, Pc.work])

/-- What a step of the wrapper of a child leaves. When it drops its receiver, the next second may
end a wait. -/
theorem Child.Moves.work_lt {v : View} {c c' : Child A} {cl : ChildLabel A} {e : Eff A M} (h : c.Moves v cl c' e) :
    c'.work + 10 * e.push.toList.length + (if c'.rx = c.rx then 0 else 2) < c.work := by
  cases h with
  | handed h | dead a h | fails e h | report a h | error e h | crash a h hc | lost e h hc | dropHanded h | dropReported a h =>
    simp [Child.work, Child.rx, h]

/-- A wrapper that keeps its receiver ends no wait. -/
theorem Node.Tasked.isClosed_of_eq {k : ℕ} {tl : TaskLabel A M} {s : Slot A M} {t : Task A M} {e : Eff A M}
    (h : Node.Tasked n k tl n' s t e) (hrx : t.rx = s.task.rx) (hc : n'.isClosed = true) : n.isClosed = true := by
  have hk : k < n.tasks.length := (List.getElem?_eq_some_iff.1 h.slot).1
  rw [isClosed_iff] at hc ⊢
  intro s₀ hs₀
  obtain ⟨j, hj⟩ := List.mem_iff_getElem?.1 hs₀
  by_cases hjk : k = j
  · subst hjk
    have hnew : n'.tasks[k]? = some ⟨t, s.out ++ e.push.toList⟩ := by rw [h.tasks, List.getElem?_set_self hk]
    rw [h.slot] at hj
    cases hj
    rw [← hrx]
    exact hc _ (List.mem_of_getElem? hnew)
  · refine hc s₀ (List.mem_of_getElem? (i := j) ?_)
    rw [h.tasks, List.getElem?_set_ne hjk, hj]

/-- And so does every step of such a wrapper. -/
theorem Node.Tasked.work_lt {k : ℕ} {cl : ChildLabel A} {s : Slot A M} {t : Task A M} {e : Eff A M}
    (h : Node.Tasked n k (.child cl) n' s t e) : n'.work < n.work := by
  have hsum := Tally.sum_set (fun s : Slot A M => s.task.work) h.slot ⟨t, s.out ++ e.push.toList⟩
  have hq := congrArg List.length h.outside.mailbox.queue
  have hpc : n'.pc = n.pc := h.outside.pc
  have hclosed := h.isClosed_of_eq
  have hm := h.moves
  rw [List.length_append, List.length_map] at hq
  rw [Node.work, Node.work, h.tasks, hpc, hq]
  obtain ⟨task, out⟩ := s
  cases hm with
  | @child c c' _ _ hm =>
    have hlt := hm.work_lt
    have hsum : _ + c.work = _ + c'.work := hsum
    have hticks : n'.ticks ≤ n.ticks + if c'.rx = c.rx then 0 else 2 := by
      split
      · rename_i hrx
        unfold Node.ticks
        rw [hpc]
        split
        · split
          · rename_i hc
            exact Nat.le_of_eq (if_pos (hclosed hrx hc)).symm
          · exact Nat.zero_le _
        · exact Nat.zero_le _
      · exact Nat.le_trans n'.ticks_le (Nat.le_add_left _ _)
    omega

/-! ## Where an actor waits -/

/-- It waits for a message. -/
def Node.Waits (n : Node A M) : Prop :=
  (n.pc = .recv ∨ n.pc = .select) ∧ n.mailbox.queue = [] ∧ n.mailbox.closed = false

/-- **Where such an actor waits**: for a message, for its children, or not any more. -/
theorem Staffed.goes_on {a₀ : A} {tr : List (Event A M)} (hs : Staffed n) (hserved : Served .any a₀ n tr)
    (hcl : ClosedLate n) (hf : n.pc.stage ≠ .failed) :
    (∃ x, n.inner (.exec x) = true ∧ x ≠ .shutdown ∧ (n.exec x).isSome = true) ∨ n.Waits ∨
      (n.pc = .wait ∧ n.mailbox.queue = [] ∧ n.mailbox.closed = false ∧ n.isClosed = false) ∨ n.pc.over = true := by
  cases hold : n.pc with
  | onStart | preRun p m | postRun p | onStopping | onStopped | onEnd =>
    refine .inl ⟨.ret n.actor, rfl, by simp, ?_⟩
    simp [Node.exec, hold, Node.callback]
  | check hand | process p m | isClosed | notify | recheck | assertClosed | returned =>
    refine .inl ⟨.go, rfl, by simp, ?_⟩
    simp [Node.exec, hold]
  | recv | select =>
    cases hq : n.mailbox.queue with
    | cons m q =>
      obtain ⟨y, hy⟩ := Chan.pop_of_cons hq
      refine .inl ⟨.recv, rfl, by simp, ?_⟩
      simp [Node.exec, hold, Node.handleSupervisedMessage, Node.receive, hy]
    | nil =>
      cases hc : n.mailbox.closed with
      | false => exact .inr (.inl ⟨by simp [hold], hq, hc⟩)
      | true =>
        refine .inl ⟨.none, rfl, by simp, ?_⟩
        simp [Node.exec, hold, Node.handleSupervisedMessage, Node.receive, hq, hc]
  | wait =>
    have hc : n.mailbox.closed = false := by
      by_contra hc
      have hrank := hcl (by simpa using hc)
      rw [hold] at hrank
      exact absurd hrank (Nat.not_succ_le_self 1)
    cases hq : n.mailbox.queue with
    | cons m q =>
      obtain ⟨y, hy⟩ := Chan.pop_of_cons hq
      refine .inl ⟨.recv, rfl, by simp, ?_⟩
      simp [Node.exec, hold, Node.stoppingLoop, Node.receive, hy]
    | nil =>
      cases hclosed : n.isClosed with
      | false => exact .inr (.inr (.inl ⟨rfl, rfl, hc, rfl⟩))
      | true =>
        -- the next second ends the wait
        have hle := hs.inTime (by rw [hold]; rfl)
        simp only [hold, reduceCtorEq, false_and, or_false] at hle
        have hne : n.timeoutCounter ≠ 10 := by omega
        refine .inl ⟨.tick, by simp [Node.inner, hclosed, hne], by simp, ?_⟩
        simp [Node.exec, hold, Node.stoppingLoop, hne]
  | drain =>
    cases hq : n.mailbox.queue with
    | cons m q =>
      obtain ⟨y, hy⟩ := Chan.pop_of_cons hq
      refine .inl ⟨.recv, rfl, by simp, ?_⟩
      simp [Node.exec, hold, Node.drainStep, hy]
    | nil =>
      refine .inl ⟨.none, rfl, by simp, ?_⟩
      simp [Node.exec, hold, Node.drainStep, hq]
  | handle p m =>
    cases hb : m.body with
    | user v | dead v | asyncAsk v j sch =>
      refine .inl ⟨.ret n.actor, rfl, by simp, ?_⟩
      simp [Node.exec, hold, Node.deliver, hb, Node.callback]
    | await stopNow w | cancelled c =>
      refine .inl ⟨.go, rfl, by simp, ?_⟩
      simp [Node.exec, hold, Node.deliver, hb]
    | ask q k =>
      refine .inl ⟨.reply n.actor q, rfl, by simp, ?_⟩
      simp [Node.exec, hold, Node.deliver, hb]
  | future p m seen =>
    obtain ⟨-, q, k, hb⟩ := hserved.future hold
    refine .inl ⟨.reply n.actor q, rfl, by simp, ?_⟩
    simp [Node.exec, hold, Node.resolve, hb]
  | acquire hand k rest => exact absurd hold (hs.permitted hand k rest)
  | cancelling p m => exact absurd hold (hserved.uncancelled p m)
  | handed | reporting | done => exact .inr (.inr (.inr rfl))
  | panicked c =>
    rw [hold] at hf
    exact absurd rfl hf

/-- A step of the wrapper of a child that its actor has room for. -/
theorem Node.child_can {k : ℕ} {c c' : Child A} {out : List (Body A M)} {cl : ChildLabel A} {e : Eff A M}
    (hslot : n.tasks[k]? = some ⟨.child c, out⟩) (hstep : c.step n.view cl = some (c', e))
    (hroom : n.mailbox.closed = false ∧ n.mailbox.queue.length < n.mailbox.cap) :
    (n.step (.task k (.child cl))).isSome = true := by
  have hemit : (n.emit k e.push).isSome = true := by
    cases e.push with
    | none => rfl
    | some b => simp [Node.emit, Chan.push, hroom]
  have hbound : n.bound k (.child cl) = false := rfl
  simp only [Node.step, hbound, Node.taskStep, hslot, Task.step, hstep, Option.map_some]
  rw [if_neg (by simp), Option.isSome_map]
  exact hemit

end

/-! ## The tree -/

namespace Tree

/-- Every step is one of an actor that starts nothing but children; it has no `CtxBuilder`
addresses, and room in its mailbox. -/
structure Orderly (t : Tree A M) (l : TreeLabel A M) : Prop where
  starts : ∀ d ∈ t.started l, d.node.tasks = [] ∧ 0 < d.node.mailbox.cap
  steps : Everywhere Tokactor.Orderly t l

/-- A step that the tree takes by itself. -/
def inner (t : Tree A M) : TreeLabel A M → Bool
  | .run _ _ | .spawn _ _ _ => false
  | .join _ _ => true
  | .step i l => t[i]?.any fun m => m.node.inner l

/-- What is left to do, until somebody sends more. -/
def work (t : Tree A M) : ℕ := (t.map fun m => m.node.work).sum

/-- The tree can do nothing by itself. -/
def AtRest (t : Tree A M) : Prop := ∀ l, t.inner l = true → t.step l = none

/-- A tree whose actors start nothing but children. -/
structure Ordered (t : Tree A M) : Prop where
  sound : Sound t
  staffed : ∀ (i : ℕ) (m : Member A M), t[i]? = some m → Staffed m.node
  sides : ∀ (i : ℕ) (m : Member A M), t[i]? = some m → m.node.cfg.supervised = m.parent.isSome
  lives : ∀ (i : ℕ) (m : Member A M), t[i]? = some m → Lives (fun _ _ => True) m.node

instance (t : Tree A M) (l : TreeLabel A M) : Decidable (Orderly t l) :=
  decidable_of_iff ((∀ d ∈ t.started l, d.node.tasks.isEmpty = true ∧ 0 < d.node.mailbox.cap) ∧ Everywhere Tokactor.Orderly t l)
    ⟨fun h => ⟨fun d hd => ⟨List.isEmpty_iff.1 (h.1 d hd).1, (h.1 d hd).2⟩, h.2⟩,
      fun h => ⟨fun d hd => ⟨List.isEmpty_iff.2 (h.starts d hd).1, (h.starts d hd).2⟩, h.steps⟩⟩

variable {t t' : Tree A M} {l : TreeLabel A M} {i : ℕ} {m : Member A M}

theorem ordered_nil : Ordered ([] : Tree A M) := by
  refine ⟨⟨⟨?_, ?_⟩, ?_, ?_⟩, ?_, ?_, ?_⟩ <;> intro i <;> intros <;> contradiction

theorem started_side (t : Tree A M) (l : TreeLabel A M) : ∀ d ∈ t.started l, d.node.cfg.supervised = d.parent.isSome := by
  intro d hd
  unfold started at hd
  split at hd
  · rw [List.mem_singleton.1 hd]
    rfl
  · split at hd
    · split at hd
      · rw [List.mem_singleton.1 hd]
        rfl
      · cases hd
    · cases hd
  · cases hd
  · cases hd

/-- In the drain of `stop` no child is left. -/
theorem Ordered.asserts (ho : Ordered t) (l : TreeLabel A M) : Everywhere AssertionHolds t l := by
  rintro ⟨i, m, nl⟩ ha - hpc
  obtain ⟨-, hm, -⟩ := acting_cases ha
  have hlate : m.node.Late := by
    left
    cases hold : m.node.pc <;> rw [hold] at hpc <;> first | rfl | cases hpc
  show m.node.isClosed = true
  rw [Node.isClosed_iff]
  intro s hs
  obtain ⟨c, hc⟩ := (ho.staffed i m hm).tasks s hs
  exact (ho.sound.doors i m hm).kin hlate s hs (by rw [hc]; rfl)

theorem ordered_step (ho : Ordered t) (hO : Orderly t l) (h : t.step l = some t') : Ordered t' := by
  have hsound := sound_step ho.sound (fun x hx => (hO.steps x hx).1) (ho.asserts l) h
  refine ⟨hsound, fun i m' hm' => ?_, fun i m' hm' => ?_, fun i => lives_step (ho.lives i) (fun _ _ _ => trivial) h⟩
  · cases stepped h hm' with
    | acts m nl ha hm hs hp hl =>
      exact staffed_step (ho.staffed i m hm) (ho.sound.doors i m hm).life (hO.steps _ ha) hs (hsound.upright i m' hm')
    | rests hm => exact ho.staffed i m' hm
    | starts k hj hk cfg a hn =>
      obtain ⟨htasks, hroom⟩ := hO.starts m' (List.mem_of_getElem? hk)
      rw [hn] at htasks hroom ⊢
      exact staffed_init cfg a (List.map_eq_nil_iff.1 htasks) hroom
  · cases stepped h hm' with
    | acts m nl ha hm hs hp hl =>
      have hcfg : m'.node.cfg = m.node.cfg := by
        rcases Node.step_outside hs with ⟨x, -, hx⟩ | ⟨ms, hout⟩
        · exact Node.exec_cfg hx
        · exact hout.cfg
      rw [hcfg, hp, ho.sides i m hm]
    | rests hm => exact ho.sides i m' hm
    | starts k hj hk cfg a hn => exact started_side t l m' (List.mem_of_getElem? hk)

theorem ordered_run {ls : List (TreeLabel A M)} (hO : Lts.Along Tree.step Orderly [] ls)
    (hr : Lts.run Tree.step [] ls = some t) : Ordered t :=
  Lts.run_along (fun _ _ _ ho hO h => ordered_step ho hO h) ordered_nil hO hr

theorem Ordered.served (ho : Ordered t) (hm : t[i]? = some m) : ∃ a tr, Served .any a m.node tr := by
  obtain ⟨cfg, a, ls, -, hr⟩ := ho.lives i m hm
  exact ⟨a, (served_any hr).resolve_left (ho.sound.upright i m hm)⟩

/-- An inner step is one of an actor that starts nothing. -/
theorem inner_orderly {n : Node A M} {nl : Label A M} (h : n.inner nl = true) : Tokactor.Orderly n nl := by
  cases nl with
  | exec x =>
    cases x with
    | op | panic | died | task => cases h
    | tick =>
      simp only [Node.inner, Bool.and_eq_true, decide_eq_true_eq] at h
      exact ⟨by simp [Calm, Node.calm, h.2], by simp [Node.staffs, h.1]⟩
    | ret | reply | recv | none | shutdown | changed | go => exact ⟨rfl, rfl⟩
  | task k tl => exact ⟨rfl, rfl⟩
  | send | refuse | poll | giveUp | join | dropCtx => cases h

theorem Ordered.work_acts (ho : Ordered t) (hm : t[i]? = some m) {nl : Label A M} {n : Node A M}
    (hin : m.node.inner nl = true) (hs : m.node.step nl = some n) (hf : n.pc.stage ≠ .failed) : n.work < m.node.work := by
  cases nl with
  | exec x =>
    obtain ⟨a₀, tr, hserved⟩ := ho.served hm
    exact (ho.staffed i m hm).work_exec hserved (ho.sound.doors i m hm).closed hin hs hf
  | task k tl =>
    cases tl with
    | child cl =>
      obtain ⟨s, t, e, ht⟩ := Node.taskStep_cases (show m.node.taskStep k (.child cl) = some n from hs)
      exact ht.work_lt
    | anon | fwd => cases hin
  | send | refuse | poll | giveUp | join | dropCtx => cases hin

/-- An inner step is an inner step of one actor. -/
theorem inner_acts (hin : t.inner l = true) (h : t.step l = some t') : ∃ i m nl n, t.acting l = some (i, m, nl) ∧
    t[i]? = some m ∧ m.node.inner nl = true ∧ m.node.step nl = some n ∧ t' = t.set i { m with node := n } ∧ t.started l = [] := by
  have hactor : ∃ i, actor l = some i := by
    cases l with
    | run | spawn => cases hin
    | join i k | step i nl => exact ⟨i, rfl⟩
  obtain ⟨i, hi⟩ := hactor
  obtain ⟨m, nl, n, ha, hm, hs, -, rfl⟩ := acted h hi
  obtain ⟨-, -, hact⟩ := acting_cases ha
  have hstarted : t.started l = [] := by
    cases l with
    | run | spawn => cases hin
    | join | step => rfl
  refine ⟨i, m, nl, n, ha, hm, ?_, hs, by rw [hstarted, List.append_nil], hstarted⟩
  cases l with
  | run | spawn => cases hin
  | join j k =>
    obtain ⟨o, -, rfl⟩ := Option.map_eq_some_iff.1 hact
    rfl
  | step j nl' =>
    cases hi
    have hact : (if t.allows m nl' then some nl' else none) = some nl := hact
    split at hact
    · cases hact
      simpa [inner, hm] using hin
    · cases hact

/-- **Every inner step lowers what is left**, and the tree stays one of such actors. -/
theorem work_step (ho : Ordered t) (hin : t.inner l = true) (h : t.step l = some t') : t'.work < t.work ∧ Ordered t' := by
  obtain ⟨i, m, nl, n, ha, hm, hnl, hs, rfl, hstarted⟩ := inner_acts hin h
  have hO : Orderly t l := by
    refine ⟨fun d hd => ?_, fun x hx => ?_⟩
    · rw [hstarted] at hd
      cases hd
    · rw [Option.mem_def, ha] at hx
      cases hx
      exact inner_orderly hnl
  have ho' := ordered_step ho hO h
  have hlt : i < t.length := (List.getElem?_eq_some_iff.1 hm).1
  have hup := ho'.sound.upright i { m with node := n } (by rw [List.getElem?_set_self hlt])
  have hwork := ho.work_acts hm hnl hs hup
  have hsum : ((t.set i { m with node := n }).map fun m => m.node.work).sum + m.node.work =
      (t.map fun m => m.node.work).sum + n.work := Tally.sum_set (fun m : Member A M => m.node.work) hm { m with node := n }
  refine ⟨?_, ho'⟩
  unfold work
  omega

/-! ## At rest -/

/-- A tree with nothing left to do is at rest. -/
theorem Ordered.atRest (ho : Ordered t) (h : t.work = 0) : t.AtRest := by
  intro l hin
  by_contra hne
  obtain ⟨t', hs⟩ := Option.ne_none_iff_exists'.1 hne
  have hlt := (work_step ho hin hs).1
  omega

/-- A step of an actor that the others allow is one of the tree. -/
theorem step_can (hm : t[i]? = some m) {nl : Label A M} (ha : t.allows m nl = true) (hs : (m.node.step nl).isSome = true) :
    (t.step (.step i nl)).isSome = true := by
  obtain ⟨n, hn⟩ := Option.isSome_iff_exists.1 hs
  simp [step, actor, acting, action, hm, ha, hn]

/-- So it is not at rest. -/
theorem AtRest.not_step (hrest : t.AtRest) (hm : t[i]? = some m) (nl : Label A M) (hin : m.node.inner nl = true)
    (ha : t.allows m nl = true) (hs : (m.node.step nl).isSome = true) : False := by
  have hnone := hrest (.step i nl) (by simp [inner, hm, hin])
  have hsome := step_can hm ha hs
  rw [hnone] at hsome
  cases hsome

theorem AtRest.not_exec (hrest : t.AtRest) (hm : t[i]? = some m) {x : Act A M} (hin : m.node.inner (.exec x) = true)
    (hx : x ≠ .shutdown) (hs : (m.node.exec x).isSome = true) : False := by
  refine hrest.not_step hm (.exec x) hin ?_ hs
  cases x with
  | shutdown => exact absurd rfl hx
  | op | died => cases hin
  | _ => rfl

/-- Nor is it while the wrapper of a child can go on, -/
theorem AtRest.not_child (hrest : t.AtRest) (hm : t[i]? = some m) (cl : ChildLabel A) {k : ℕ} {c c' : Child A}
    {out : List (Body A M)} {e : Eff A M} (hk : m.node.tasks[k]? = some ⟨.child c, out⟩)
    (hroom : m.node.mailbox.closed = false ∧ m.node.mailbox.queue.length < m.node.mailbox.cap)
    (hstep : c.step m.node.view cl = some (c', e)) (hne : ∀ o, cl ≠ .ended o) : False := by
  refine hrest.not_step hm (.task k (.child cl)) rfl ?_ (Node.child_can hk hstep hroom)
  cases cl with
  | ended o => exact absurd rfl (hne o)
  | send | refused | drop => rfl

/-- or while it waits for a child that has ended. -/
theorem AtRest.not_ended (hrest : t.AtRest) (hm : t[i]? = some m) {k : ℕ} {c : Child A} {out : List (Body A M)}
    (hk : m.node.tasks[k]? = some ⟨.child c, out⟩) (hpc : c.pc = .running)
    (hroom : m.node.mailbox.closed = false ∧ m.node.mailbox.queue.length < m.node.mailbox.cap) {d : Member A M}
    (hd : t[c.id]? = some d) : d.node.outcome = none := by
  by_contra hne
  obtain ⟨o, ho⟩ := Option.ne_none_iff_exists'.1 hne
  have hout : t.childOutcome m k = some o := by
    unfold childOutcome
    rw [hk]
    exact Option.bind_eq_some_iff.2 ⟨d, hd, ho⟩
  have hstep : ∃ p : Child A × Eff A M, c.step m.node.view (.ended o) = some p := by
    simp only [Child.step, hpc]
    exact ⟨_, rfl⟩
  obtain ⟨⟨c', e⟩, hstep⟩ := hstep
  obtain ⟨n, hn⟩ := Option.isSome_iff_exists.1 (Node.child_can hk hstep hroom)
  have hnone := hrest (.join i k) rfl
  simp [step, actor, acting, action, hm, hout, hn] at hnone

/-- **At rest no actor waits for its children**: one of them would go on. -/
theorem Ordered.not_wait (ho : Ordered t) (hrest : t.AtRest) (d : ℕ) :
    ∀ (i : ℕ) (m : Member A M), t.length - i ≤ d → t[i]? = some m → m.node.pc ≠ .wait := by
  induction d with
  | zero =>
    intro i m hd hm
    have hlt := (List.getElem?_eq_some_iff.1 hm).1
    omega
  | succ d ih =>
    intro i m hd hm hwait
    have hstaffed := ho.staffed i m hm
    obtain ⟨a₀, tr, hserved⟩ := ho.served hm
    rcases hstaffed.goes_on hserved (ho.sound.doors i m hm).closed (ho.sound.upright i m hm) with
      ⟨x, hin, hx, hs⟩ | hw | ⟨-, hq, hopen, hclosed⟩ | hover
    · exact hrest.not_exec hm hin hx hs
    · rcases hw.1 with h | h <;> rw [hwait] at h <;> cases h
    · -- the wrapper of some child holds a receiver
      have hex : ∃ s ∈ m.node.tasks, s.task.rx = true := by
        by_contra hno
        have hall : m.node.isClosed = true := by
          rw [Node.isClosed_iff]
          intro s hs
          by_contra hrx
          exact hno ⟨s, hs, by simpa using hrx⟩
        rw [hall] at hclosed
        cases hclosed
      obtain ⟨⟨task, out⟩, hs, hrx⟩ := hex
      obtain ⟨c, rfl⟩ := hstaffed.tasks _ hs
      obtain ⟨k, hk⟩ := List.mem_iff_getElem?.1 hs
      have hroom : m.node.mailbox.closed = false ∧ m.node.mailbox.queue.length < m.node.mailbox.cap := by
        rw [hq]
        exact ⟨hopen, hstaffed.room⟩
      cases hpc : c.pc with
      | handed rx | reported a rx =>
        obtain rfl : rx = true := by simpa [Task.rx, Child.rx, hpc] using hrx
        exact hrest.not_child hm .drop hk hroom (by rw [Child.step, hpc]) (by simp)
      | reporting a => exact hrest.not_child hm .send hk hroom (by rw [Child.step, hpc]) (by simp)
      | failing | failed | crashed =>
        simp only [Task.rx, Child.rx, hpc] at hrx
        cases hrx
      | running =>
        obtain ⟨e, he, hp, hlt, -⟩ := ho.sound.linked.child i m k c hm (Node.childAt_iff.2 ⟨out, hk⟩)
        have hrun := hrest.not_ended hm hk hpc hroom he
        have hside := (ho.staffed _ e he).side (by rw [ho.sides _ e he, hp]; rfl)
        obtain ⟨a₁, tr₁, hserved₁⟩ := ho.served he
        rcases (ho.staffed _ e he).goes_on hserved₁ (ho.sound.doors _ e he).closed (ho.sound.upright _ e he) with
          ⟨x, hin, hx, hs⟩ | hw | ⟨hw, -⟩ | hover
        · exact hrest.not_exec he hin hx hs
        · -- a child that waits for a message was told to stop
          have hsel := hw.1.resolve_left hside.1
          have htold := (hstaffed.told (by rw [hwait]; rfl)).resolve_right (by rw [hclosed]; exact Bool.false_ne_true)
          refine hrest.not_step he (.exec .shutdown) rfl ?_ ?_
          · simp [allows, supervisor, hp, hm, htold]
          · simp [Node.step, Node.exec, hsel, Node.handleSupervisedMessage]
        · exact ih _ e (by omega) he hw
        · cases hold : e.node.pc with
          | done => exact hside.2 hold
          | handed | reporting => simp [Node.outcome, hold] at hrun
          | _ =>
            rw [hold] at hover
            cases hover
    · rw [hwait] at hover
      cases hover

/-- Every actor waits for a message and was not told to stop, or has ended. -/
def Quiet (t : Tree A M) : Prop :=
  ∀ (i : ℕ) (m : Member A M), t[i]? = some m →
    m.node.pc.over = true ∨ m.node.Waits ∧ (t.supervisor m).any Node.shutdown = false

theorem Ordered.quiet (ho : Ordered t) (hrest : t.AtRest) : t.Quiet := by
  intro i m hm
  obtain ⟨a₀, tr, hserved⟩ := ho.served hm
  rcases (ho.staffed i m hm).goes_on hserved (ho.sound.doors i m hm).closed (ho.sound.upright i m hm) with
    ⟨x, hin, hx, hs⟩ | hw | ⟨hw, -⟩ | hover
  · exact (hrest.not_exec hm hin hx hs).elim
  · refine .inr ⟨hw, ?_⟩
    by_contra htold
    have htold : (t.supervisor m).any Node.shutdown = true := by simpa using htold
    have hsup : m.node.cfg.supervised = true := by
      rw [ho.sides i m hm]
      cases hp : m.parent with
      | none => simp [supervisor, hp] at htold
      | some p => rfl
    have hsel := hw.1.resolve_left ((ho.staffed i m hm).side hsup).1
    refine hrest.not_step hm (.exec .shutdown) rfl htold ?_
    simp [Node.step, Node.exec, hsel, Node.handleSupervisedMessage]
  · exact absurd hw (ho.not_wait hrest _ i m (Nat.le_refl _) hm)
  · exact .inl hover

end Tree

section

variable {ls ls' : List (TreeLabel A M)} {t t' : Tree A M}

/-- **A tree settles.** In any state of any run its actors take only a bounded number of steps by
themselves, in whatever order; and when they can take no more, every actor has ended, or waits
for a message and was not told to stop. -/
theorem tree_settles (hO : Lts.Along Tree.step Tree.Orderly [] ls) (hr : Lts.run Tree.step [] ls = some t)
    (hI : Lts.Along Tree.step (fun t l => t.inner l = true) t ls') (hr' : Lts.run Tree.step t ls' = some t') :
    ls'.length + t'.work ≤ t.work ∧ (t'.AtRest → t'.Quiet) := by
  have ho := Tree.ordered_run hO hr
  have hstep : ∀ (t : Tree A M) l t', t.Ordered → t.inner l = true → t.step l = some t' → t'.Ordered ∧ t'.work < t.work :=
    fun t l t' ho hin h => (Tree.work_step ho hin h).symm
  refine ⟨Lts.run_length hstep ho hI hr', fun hrest => Tree.Ordered.quiet ?_ hrest⟩
  exact Lts.run_along (fun t l t' ho hin h => (hstep t l t' ho hin h).1) ho hI hr'

/-- The request that stops actor 0 of a tree of three, and what follows it. -/
def askedLabels : List (TreeLabel Unit ℕ) := stopLabels.take 9

def doneLabels : List (TreeLabel Unit ℕ) :=
  stopLabels.drop 9 ++ endLabels 2 ++ hearLabels 1 ++ endLabels 1 ++ hearLabels 0 ++ endLabels 0

theorem tree_settles_threeLevelRun :
    ∃ t t' : Tree Unit ℕ, Lts.run Tree.step [] askedLabels = some t ∧ Lts.run Tree.step t doneLabels = some t' ∧
      t.work = 79 ∧ doneLabels.length = 49 ∧ (doneLabels.length + t'.work ≤ t.work ∧ (t'.AtRest → t'.Quiet)) := by
  have hr : ∃ t t' : Tree Unit ℕ, Lts.run Tree.step [] askedLabels = some t ∧
      Lts.run Tree.step t doneLabels = some t' ∧ t.work = 79 ∧
      Lts.Along Tree.step (fun t l => t.inner l = true) t doneLabels :=
    ⟨_, _, rfl, rfl, rfl, by decide⟩
  obtain ⟨t, t', hr, hr', hw, hI⟩ := hr
  exact ⟨t, t', hr, hr', hw, rfl, tree_settles (by decide) hr hI hr'⟩

end

/-! ## Told to stop -/

/-- The main loop is at a message. -/
def Pc.handling : Pc A M → Bool
  | .process p _ | .preRun p _ | .handle p _ | .future p _ _ | .cancelling p _ | .postRun p => p.stage = .main
  | _ => false

/-- The actor was told to stop: it has left its main loop, or a callback of the message at hand has
stopped it, or a request that stops it is ahead. -/
def Node.Told (n : Node A M) : Prop :=
  n.pc.stage ≠ .main ∨ n.pc.handling = true ∧ n.state ≠ .running ∨ ∃ m ∈ n.ahead, ∃ w, m.body = .await true w

section

variable {n n' : Node A M} {x : Act A M} {l : Label A M}

/-- The executor goes on, with the messages that are ahead. -/
theorem Node.Told.same (ht : n.Told) (hmain : n.pc.stage = .main) (hand : n'.pc.hand = n.pc.hand)
    (hq : n'.mailbox.queue = n.mailbox.queue)
    (hst : n.pc.handling = true → n.state ≠ .running → n'.pc.handling = true ∧ n'.state ≠ .running) : n'.Told := by
  rcases ht with h | ⟨hh, hs⟩ | h
  · exact absurd hmain h
  · exact .inr (.inl (hst hh hs))
  · right; right
    unfold Node.ahead at h ⊢
    rw [hand, hq]
    exact h

/-- It is done with the message at hand, which did not tell it to stop. -/
theorem Node.Told.done (ht : n.Told) (hmain : n.pc.stage = .main) {m : Mail A M} (hm : n.pc.hand = some m)
    (hne : ∀ w, m.body ≠ .await true w) (hpc : n'.pc = .postRun .main) (hq : n'.mailbox.queue = n.mailbox.queue)
    (hst : n.state ≠ .running → n'.state ≠ .running) : n'.Told := by
  rcases ht with h | ⟨-, hs⟩ | ⟨m', hm', w, hw⟩
  · exact absurd hmain h
  · exact .inr (.inl ⟨by rw [hpc]; rfl, hst hs⟩)
  · right; right
    unfold Node.ahead at hm' ⊢
    rw [hm] at hm'
    rcases List.mem_append.1 hm' with hm' | hm'
    · rw [Option.mem_toList] at hm'
      cases hm'
      exact absurd hw (hne w)
    · exact ⟨m', List.mem_append_right _ (hq ▸ hm'), w, hw⟩

theorem Node.Told.exec {a₀ : A} {tr : List (Event A M)} (ht : n.Told) (hserved : Served .any a₀ n tr)
    (hx : Node.Exec n x n') (hf : n'.pc.stage ≠ .failed) : n'.Told := by
  by_cases hmain : n.pc.stage = .main
  swap
  · -- the main loop does not come back
    left
    intro h
    have hrank := exec_rank hx
    rw [h] at hrank
    cases hold : n.pc.stage <;> rw [hold] at hrank hmain <;> first | exact hmain rfl | cases hrank
  have hphase : ∀ p : Phase, p.stage = .main → p = .main := by
    intro p hp
    cases p <;> first | rfl | cases hp
  cases hx with
  | op o hx hu hop =>
    have hkept := Node.ctxOp_kept hop
    exact ht.same hmain (by rw [hkept.pc]) hkept.queue fun h hs => ⟨by rw [hkept.pc]; exact h, hkept.state hs⟩
  | unwind c hc => exact absurd (unwind_stage n c) hf
  | onStart a hold =>
    refine ht.same hmain ?_ rfl fun h => by rw [hold] at h; cases h
    rw [hold]
    unfold Node.mainLoop
    cases n.cfg.supervised <;> rfl
  | took m c pc hp htook =>
    have hq := (Chan.pop_cases hp).1
    have hpc : pc.hand = some m ∧ n.pc.hand = none ∧ n.pc.handling = false := by
      unfold Pc.took at htook
      split at htook <;> cases htook <;> simp_all [Pc.hand, Pc.handling]
    rcases ht with h | ⟨h, -⟩ | h
    · exact absurd hmain h
    · rw [hpc.2.2] at h
      cases h
    · right; right
      unfold Node.ahead at h ⊢
      rw [hpc.2.1, hq] at h
      rw [hpc.1]
      exact h
  | leaveLoop hold => exact .inl Stage.noConfusion
  | check hand hold =>
    unfold Node.checkStep
    split
    · cases hand <;> exact ht.same hmain (by rw [hold]; rfl) rfl fun h => by rw [hold] at h; cases h
    · exact ht.same hmain (by rw [hold]; rfl) rfl fun h => by rw [hold] at h; cases h
  | acquired hand k rest hold hk =>
    cases hand <;> exact ht.same hmain (by rw [hold]; rfl) rfl fun h => by rw [hold] at h; cases h
  | process p m hold | preRun p m a hold | future p m a k hold hb | changed p m a hold hb =>
    exact ht.same hmain (by rw [hold]; rfl) rfl fun h hs => ⟨by rw [hold] at h; exact h, hs⟩
  | handled p m a hold hb =>
    rw [hold] at hmain
    obtain rfl := hphase p hmain
    exact ht.done (by rw [hold]; rfl) (by rw [hold]; rfl) (fun w => hb true w) rfl rfl id
  | answered p m a k r hold hb hr =>
    have hm : n.pc.hand = some m ∧ n.pc.stage = p.stage := by
      rcases hold with hold | ⟨seen, hold⟩ <;> rw [hold] <;> exact ⟨rfl, rfl⟩
    obtain rfl := hphase p (hm.2 ▸ hmain)
    exact ht.done hmain hm.1 (fun w hw => by rw [hw] at hb; cases hb) rfl rfl id
  | task p m a k j hx hold hb =>
    have hkept := Node.anonymous_kept { n with actor := a } (.reply k j)
    rw [hold] at hmain
    obtain rfl := hphase p hmain
    exact ht.done (by rw [hold]; rfl) (by rw [hold]; rfl) (fun w hw => by rw [hw] at hb; cases hb) rfl hkept.queue hkept.state
  | await p m stopNow w hold hb =>
    rw [hold] at hmain
    obtain rfl := hphase p hmain
    cases stopNow with
    | true =>
      -- this is the request
      refine .inr (.inl ⟨rfl, ?_⟩)
      show (n.storeSender w).stop.state ≠ .running
      unfold Node.stop
      split
      · exact ActorState.noConfusion
      · assumption
    | false => exact ht.done (by rw [hold]; rfl) (by rw [hold]; rfl) (fun w hw => by rw [hw] at hb; cases hb) rfl rfl id
  | cancelClosed p m hold hc | cancelSent p m c hold hc => exact absurd hold (hserved.uncancelled p m)
  | postRun p a hold =>
    rw [hold] at hmain
    obtain rfl := hphase p hmain
    simp only [Node.processed]
    split
    · rename_i hrun
      refine ht.same (by rw [hold]; rfl) ?_ rfl fun h hs => absurd hrun hs
      rw [hold]
      unfold Node.mainLoop
      cases n.cfg.supervised <;> rfl
    · exact .inl Stage.noConfusion
  | onStopping a hold | children hold hc | notify hold | again t hold | stay hold hc | onStopped a hold | assertClosed hold hc
  | drained hold hq | onEnd a hold | finish hold =>
    rw [hold] at hmain
    cases hmain
  | stoppingDone hx hold hc => rcases hold with hold | hold <;> rw [hold] at hmain <;> cases hmain

/-- **An actor that was told to stop does not forget it.** -/
theorem told_step {a₀ : A} {tr : List (Event A M)} (ht : n.Told) (hserved : Served .any a₀ n tr)
    (h : n.step l = some n') (hf : n'.pc.stage ≠ .failed) : n'.Told := by
  rcases Node.step_outside h with ⟨x, -, hx⟩ | ⟨ms, ho⟩
  · exact ht.exec hserved hx hf
  · rcases ht with h | ⟨hh, hs⟩ | ⟨m, hm, hw⟩
    · exact .inl (ho.pc ▸ h)
    · exact .inr (.inl ⟨ho.pc ▸ hh, ho.state ▸ hs⟩)
    · refine .inr (.inr ⟨m, ?_, hw⟩)
      unfold Node.ahead at hm ⊢
      rw [ho.pc, ho.mailbox.queue, ← List.append_assoc]
      exact List.mem_append_left _ hm

end

namespace Tree

variable {t t' : Tree A M} {l : TreeLabel A M} {i : ℕ} {m : Member A M}

/-- Actor `j` is over, and has completed its `on_end`. -/
def Over (t : Tree A M) (j : ℕ) : Prop := ∃ d, t[j]? = some d ∧ d.node.pc.over = true ∧ d.node.Ended

theorem Sound.over (hs : Sound t) (hm : t[i]? = some m) (hover : m.node.pc.over = true) : t.Over i := by
  refine ⟨m, hm, hover, ?_⟩
  obtain ⟨h, hl⟩ := (hs.doors i m hm).life.resolve_left (hs.upright i m hm)
  have hstage : m.node.pc.stage = .ended ∧ m.node.pc.part m.node.actor = [.ended m.node.actor] := by
    cases hold : m.node.pc <;> rw [hold] at hover <;> first | exact ⟨rfl, rfl⟩ | cases hover
  obtain ⟨tr, htr⟩ := hl.ended hstage.1 hstage.2
  exact ⟨m.node.actor, by rw [htr]; simp⟩

/-- An actor that was told to stop does not forget it, whatever the tree does. -/
theorem Ordered.told (ho : Ordered t) (hO : Orderly t l) (h : t.step l = some t') (hm : t[i]? = some m)
    (htold : m.node.Told) : ∃ m', t'[i]? = some m' ∧ m'.node.Told := by
  obtain ⟨m', hm', -, -⟩ := goes_on h hm
  refine ⟨m', hm', ?_⟩
  cases stepped h hm' with
  | acts m₁ nl ha hm₁ hs hp hl =>
    rw [hm] at hm₁
    cases hm₁
    obtain ⟨a₀, tr, hserved⟩ := ho.served hm
    exact told_step htold hserved hs ((ordered_step ho hO h).sound.upright i m' hm')
  | rests hm₁ =>
    rw [hm] at hm₁
    cases hm₁
    exact htold
  | starts k hj hk cfg a hn =>
    have hlt := (List.getElem?_eq_some_iff.1 hm).1
    omega

/-- An actor that was told to stop does not wait for messages. -/
theorem Quiet.over (hq : t.Quiet) (hm : t[i]? = some m) (htold : m.node.Told) : m.node.pc.over = true := by
  rcases hq i m hm with hover | ⟨⟨hpc, hqueue, -⟩, -⟩
  · exact hover
  · exfalso
    have hnone : m.node.pc.hand = none ∧ m.node.pc.stage = .main ∧ m.node.pc.handling = false := by
      rcases hpc with hpc | hpc <;> rw [hpc] <;> exact ⟨rfl, rfl, rfl⟩
    rcases htold with h | ⟨h, -⟩ | ⟨x, hx, -⟩
    · exact h hnone.2.1
    · rw [hnone.2.2] at h
      cases h
    · unfold Node.ahead at hx
      rw [hnone.1, hqueue] at hx
      cases hx

end Tree

section

variable {ls ls' : List (TreeLabel A M)} {t t' : Tree A M} {i : ℕ} {m : Member A M}

/-- **A shutdown completes.** When an actor was told to stop, in any state of any run, then whatever
is sent and started after that, and in whatever order the tree does it: as soon as the tree is at
rest, the actor and all that are below it are over, and have completed their `on_end`. -/
theorem shutdown_completes (hO : Lts.Along Tree.step Tree.Orderly [] ls) (hr : Lts.run Tree.step [] ls = some t)
    (hm : t[i]? = some m) (htold : m.node.Told) (hO' : Lts.Along Tree.step Tree.Orderly t ls')
    (hr' : Lts.run Tree.step t ls' = some t') (hrest : t'.AtRest) : t'.Over i ∧ ∀ j, t'.Below i j → t'.Over j := by
  have hinv : t'.Ordered ∧ ∃ m, t'[i]? = some m ∧ m.node.Told := by
    refine Lts.run_along (I := fun t : Tree A M => t.Ordered ∧ ∃ m, t[i]? = some m ∧ m.node.Told) ?_
      ⟨Tree.ordered_run hO hr, m, hm, htold⟩ hO' hr'
    rintro t l t' ⟨ho, m, hm, htold⟩ hO h
    exact ⟨Tree.ordered_step ho hO h, ho.told hO h hm htold⟩
  obtain ⟨ho, m', hm', htold'⟩ := hinv
  have hover := (ho.quiet hrest).over hm' htold'
  refine ⟨ho.sound.over hm' hover, fun j hb => ?_⟩
  -- past `stopping` all that are below it have ended
  have hlate : m'.node.Late := by
    right
    cases hold : m'.node.pc <;> rw [hold] at hover <;> first | rfl | cases hover
  obtain ⟨d, hd, hdover⟩ := ho.sound.below_over hm' hlate hb
  refine ho.sound.over hd ?_
  rcases hdover with hpc | hpc <;> rw [hpc] <;> rfl

theorem shutdown_completes_threeLevelRun :
    ∃ t : Tree Unit ℕ, Lts.run Tree.step [] (askedLabels ++ doneLabels) = some t ∧ t.AtRest ∧ t.Over 0 ∧ t.Below 0 2 ∧
      t.Over 2 := by
  have hr : ∃ (t t' : Tree Unit ℕ) (m : Member Unit ℕ), Lts.run Tree.step [] askedLabels = some t ∧ t[0]? = some m ∧
      m.node.Told ∧ Lts.Along Tree.step Tree.Orderly t doneLabels ∧ Lts.run Tree.step t doneLabels = some t' ∧
      t'.work = 0 ∧ t'.Below 0 2 :=
    ⟨_, _, _, rfl, rfl, .inr (.inr ⟨_, .head _, _, rfl⟩), by decide, rfl, rfl,
      .trans 1 2 _ 0 (.child 1 _ 0 rfl rfl) rfl rfl⟩
  obtain ⟨t, t', m, hr, hm, htold, hO', hr', hw, hb⟩ := hr
  have hO : Lts.Along Tree.step Tree.Orderly [] askedLabels := by decide
  have ho : t'.Ordered :=
    Lts.run_along (fun t l t' ho hO h => Tree.ordered_step ho hO h) (Tree.ordered_run hO hr) hO' hr'
  have hover := shutdown_completes hO hr hm htold hO' hr' (ho.atRest hw)
  exact ⟨t', Lts.run_append.2 ⟨t, hr, hr'⟩, ho.atRest hw, hover.1, hb, hover.2 2 hb⟩

end

end Tokactor
