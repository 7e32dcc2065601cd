import Tokactor.Proof.Step

/-!
# The life of an actor

`Life n h`: the callbacks called so far are those of a life in which the messages
`h .main`, `h .stopping` and `h .stopped` were handled in the three parts of it, and
what was taken out of the mailbox is these messages and the one at hand. It holds in
every reachable state of an actor that has not panicked (`life_run`).

* `life_end`: when `on_end` is called, the messages handled are the messages accepted.
-/

namespace Tokactor

variable {A M : Type}

/-- The parts of a life, and a panic. -/
inductive Stage
  | main
  | stopping
  | stopped
  | ended
  | failed
  deriving DecidableEq

def Phase.stage : Phase → Stage
  | .main => .main
  | .stopping => .stopping
  | .stopped => .stopped

def Pc.stage : Pc A M → Stage
  | .onStart | .recv | .check _ | .acquire _ _ _ | .select => .main
  | .process p _ | .preRun p _ | .handle p _ | .future p _ _ | .cancelling p _ | .postRun p => p.stage
  | .onStopping | .isClosed | .notify | .wait | .recheck => .stopping
  | .onStopped | .assertClosed | .drain => .stopped
  | .onEnd | .returned | .handed | .reporting | .done => .ended
  | .panicked _ => .failed

/-- The callbacks of the messages `h`, handled one after the other. -/
def segs (h : List (Mail A M)) : List (Event A M) := h.flatMap fun m => [.preRun, .handle m, .postRun]

/-- The callbacks of a life up to some stage, `h` handled in its parts. -/
def Stage.render (h : Phase → List (Mail A M)) : Stage → List (Event A M)
  | .main => .onStart :: segs (h .main)
  | .stopping => .onStart :: segs (h .main) ++ .onStopping :: segs (h .stopping)
  | .stopped => .onStart :: segs (h .main) ++ .onStopping :: segs (h .stopping) ++ .onStopped :: segs (h .stopped)
  | .ended =>
    .onStart :: segs (h .main) ++ .onStopping :: segs (h .stopping) ++ .onStopped :: segs (h .stopped) ++ [.onEnd]
  | .failed => []

/-- The callbacks of the message at hand so far, or that `on_end` left the actor as `a`. -/
def Pc.part (a : A) : Pc A M → List (Event A M)
  | .preRun _ _ => [.preRun]
  | .handle _ m | .future _ m _ | .cancelling _ m => [.preRun, .handle m]
  | .returned | .handed | .reporting | .done => [.ended a]
  | _ => []

structure Life (n : Node A M) (h : Phase → List (Mail A M)) : Prop where
  trace : n.trace = n.pc.stage.render h ++ n.pc.part n.actor
  taken : n.mailbox.taken = h .main ++ h .stopping ++ h .stopped ++ n.pc.hand.toList
  stopping : n.pc.stage = .main → h .stopping = []
  stopped : n.pc.stage = .main ∨ n.pc.stage = .stopping → h .stopped = []
  closed : n.pc.stage = .stopped ∨ n.pc.stage = .ended → n.mailbox.closed = true
  empty : n.pc.stage = .ended → n.mailbox.queue = []
  state : n.pc.stage ≠ .main → n.state ≠ .running

/-- Steps that leave the executor where it is keep the life. -/
theorem Life.same {n n' : Node A M} {h : Phase → List (Mail A M)} (hl : Life n h)
    (hpc : n'.pc = n.pc) (htr : n'.trace = n.trace) (hac : n'.actor = n.actor)
    (htk : n'.mailbox.taken = n.mailbox.taken)
    (hcl : n.mailbox.closed = true → n'.mailbox.closed = true ∧ n'.mailbox.queue = n.mailbox.queue)
    (hst : n.state ≠ .running → n'.state ≠ .running) : Life n' h where
  trace := by rw [htr, hpc, hac, hl.trace]
  taken := by rw [htk, hpc, hl.taken]
  stopping hs := hl.stopping (hpc ▸ hs)
  stopped hs := hl.stopped (hpc ▸ hs)
  closed hs := (hcl (hl.closed (hpc ▸ hs))).1
  empty hs := by
    rw [hpc] at hs
    rw [(hcl (hl.closed (.inr hs))).2, hl.empty hs]
  state hs := hst (hl.state (hpc ▸ hs))

theorem Life.outside {ms : List (Mail A M)} {n n' : Node A M} {h : Phase → List (Mail A M)}
    (hl : Life n h) (ho : Node.Outside ms n n') : Life n' h :=
  hl.same ho.pc ho.trace ho.actor ho.mailbox.taken
    (fun hc => ⟨ho.mailbox.closed.trans hc, ho.mailbox.queue_eq hc⟩) (by rw [ho.state]; exact id)

theorem Life.kept {n n' : Node A M} {h : Phase → List (Mail A M)} (hl : Life n h)
    (hk : Node.Kept n n') : Life n' h :=
  hl.same hk.pc hk.trace hk.actor hk.taken (fun hc => ⟨hk.closed hc, hk.queue⟩) hk.state

theorem life_init (cfg : Config) (a : A) : Life (Node.init cfg a : Node A M) fun _ => [] where
  trace := rfl
  taken := rfl
  stopping _ := rfl
  stopped _ := rfl
  closed h := by simp [Node.init, Pc.stage] at h
  empty h := by simp [Node.init, Pc.stage] at h
  state h := absurd rfl h

@[simp] theorem segs_nil : segs ([] : List (Mail A M)) = [] := rfl

@[simp] theorem segs_append (h h' : List (Mail A M)) : segs (h ++ h') = segs h ++ segs h' :=
  List.flatMap_append

@[simp] theorem segs_singleton (m : Mail A M) : segs [m] = [.preRun, .handle m, .postRun] := rfl

/-- A move inside one stage that takes nothing from the mailbox and calls `es`. -/
theorem Life.move {n n' : Node A M} {h : Phase → List (Mail A M)} (es : List (Event A M))
    (hl : Life n h) (hs : n'.pc.stage = n.pc.stage) (hh : n'.pc.hand = n.pc.hand)
    (htr : n'.trace = n.trace ++ es) (hpt : n'.pc.part n'.actor = n.pc.part n.actor ++ es) (hmb : n'.mailbox = n.mailbox)
    (hst : n'.state = n.state) : Life n' h where
  trace := by rw [htr, hl.trace, hs, hpt, List.append_assoc]
  taken := by rw [hmb, hh, hl.taken]
  stopping h' := hl.stopping (hs ▸ h')
  stopped h' := hl.stopped (hs ▸ h')
  closed h' := by rw [hmb]; exact hl.closed (hs ▸ h')
  empty h' := by rw [hmb]; exact hl.empty (hs ▸ h')
  state h' := by rw [hst]; exact hl.state (hs ▸ h')

theorem Pc.took_facts {m : Mail A M} {pc pc' : Pc A M} (h : pc.took m = some pc') (a : A) :
    pc'.stage = pc.stage ∧ pc.stage ≠ .ended ∧ pc.hand = none ∧ pc'.hand = some m ∧ pc.part a = [] ∧
      pc'.part a = [] := by
  unfold took at h
  split at h <;> cases h <;> exact ⟨rfl, by simp [stage], rfl, rfl, rfl, rfl⟩

/-- A message is taken out of the mailbox. -/
theorem Life.took {n : Node A M} {h : Phase → List (Mail A M)} {m : Mail A M} {c : Chan (Mail A M)}
    {pc : Pc A M} (hl : Life n h) (hp : n.mailbox.pop = some (m, c)) (hpc : n.pc.took m = some pc) :
    Life { n with mailbox := c, pc := pc } h := by
  obtain ⟨-, -, hcl, -, htk⟩ := Chan.pop_cases hp
  obtain ⟨hs, hne, hh, hh', hpt, hpt'⟩ := Pc.took_facts hpc n.actor
  refine ⟨?_, ?_, fun h' => hl.stopping (hs ▸ h'), fun h' => hl.stopped (hs ▸ h'),
    fun h' => hcl.trans (hl.closed (hs ▸ h')), fun h' => absurd (hs ▸ h') hne, fun h' => hl.state (hs ▸ h')⟩
  · simp only [hs, hpt', hl.trace, hpt]
  · simp only [htk, hl.taken, hh, hh', Option.toList_none, Option.toList_some, List.append_nil]

/-- The message at hand is handled, and `post_run` called. -/
theorem Life.handled {n n1 : Node A M} {h : Phase → List (Mail A M)} {p : Phase} {m : Mail A M}
    (hl : Life n h) (hpc : n.pc = .handle p m ∨ (∃ seen, n.pc = .future p m seen) ∨ n.pc = .cancelling p m)
    (htr : n1.trace = n.trace) (htk : n1.mailbox.taken = n.mailbox.taken)
    (hcl : n.mailbox.closed = true → n1.mailbox.closed = true)
    (hst : n.state ≠ .running → n1.state ≠ .running) :
    Life (n1.handled p) (Function.update h p (h p ++ [m])) := by
  have hs : n.pc.stage = p.stage := by rcases hpc with hpc | ⟨_, hpc⟩ | hpc <;> rw [hpc] <;> rfl
  have hh : n.pc.hand = some m := by rcases hpc with hpc | ⟨_, hpc⟩ | hpc <;> rw [hpc] <;> rfl
  have hpt : n.pc.part n.actor = [.preRun, .handle m] := by
    rcases hpc with hpc | ⟨_, hpc⟩ | hpc <;> rw [hpc] <;> rfl
  -- the trace, the mail taken and the phases that are over, at the handler of the phase `p`
  have htrace := hl.trace
  have htaken := hl.taken
  rw [hs, hpt] at htrace
  rw [hh] at htaken
  have hstopping := hl.stopping
  have hstopped := hl.stopped
  rw [hs] at hstopping hstopped
  refine ⟨?_, ?_, ?_, ?_, ?_, ?_, ?_⟩
  · show n1.trace ++ [.postRun] = _
    rw [htr, htrace]
    cases p <;> simp [Node.handled, Node.call, Pc.part, Pc.stage, Phase.stage, Stage.render]
  · show n1.mailbox.taken = _
    rw [htk, htaken]
    cases p with
    | main => simp [hstopping rfl, hstopped (.inl rfl), Node.handled, Node.call, Pc.hand]
    | stopping => simp [hstopped (.inr rfl), Node.handled, Node.call, Pc.hand]
    | stopped => simp [Node.handled, Node.call, Pc.hand]
  · intro h'
    cases p <;> simp_all [Node.handled, Node.call, Pc.stage, Phase.stage]
  · intro h'
    cases p <;> simp_all [Node.handled, Node.call, Pc.stage, Phase.stage]
  · intro h'
    exact hcl (hl.closed (by rw [hs]; exact h'))
  · intro h'
    cases p <;> cases h'
  · intro h'
    exact hst (hl.state (by rw [hs]; exact h'))

/-- The main loop is left, and `on_stopping` called. -/
theorem Life.shutdownStart {n : Node A M} {h : Phase → List (Mail A M)} (hl : Life n h)
    (hs : n.pc.stage = .main) (hh : n.pc.hand = none) (hpt : n.pc.part n.actor = []) : Life n.shutdownStart h := by
  have htrace := hl.trace
  have htaken := hl.taken
  rw [hs, hpt] at htrace
  rw [hh] at htaken
  refine ⟨?_, htaken, fun h' => (by cases h'), fun _ => hl.stopped (.inl hs),
    fun h' => (by rcases h' with h' | h' <;> cases h'), fun h' => (by cases h'),
    fun _ => (by simp [Node.shutdownStart, Node.call])⟩
  show n.trace ++ [.onStopping] = _
  rw [htrace]
  simp [Node.shutdownStart, Node.call, Pc.part, Pc.stage, Stage.render, hl.stopping hs]

/-- `stopping` returns, and `on_stopped` is called. -/
theorem Life.stoppingDone {n : Node A M} {h : Phase → List (Mail A M)} (hl : Life n h)
    (hpc : n.pc = .isClosed ∨ n.pc = .recheck) : Life n.stoppingDone h := by
  have hs : n.pc.stage = .stopping := by rcases hpc with hpc | hpc <;> rw [hpc] <;> rfl
  have hpt : n.pc.part n.actor = [] := by rcases hpc with hpc | hpc <;> rw [hpc] <;> rfl
  have hh : n.pc.hand = none := by rcases hpc with hpc | hpc <;> rw [hpc] <;> rfl
  have htrace := hl.trace
  have htaken := hl.taken
  rw [hs, hpt] at htrace
  rw [hh] at htaken
  refine ⟨?_, htaken, fun h' => (by cases h'), fun h' => (by rcases h' with h' | h' <;> cases h'),
    fun _ => rfl, fun h' => (by cases h'), fun _ => (by simp [Node.stoppingDone, Node.call])⟩
  show n.trace ++ [.onStopped] = _
  rw [htrace]
  simp [Node.stoppingDone, Node.call, Pc.part, Pc.stage, Stage.render, hl.stopped (.inr hs)]

/-- The mailbox is drained, and `on_end` called. -/
theorem Life.drained {n : Node A M} {h : Phase → List (Mail A M)} (hl : Life n h)
    (hpc : n.pc = .drain) (hq : n.mailbox.queue = []) : Life (n.call .onEnd .onEnd) h := by
  have htrace := hl.trace
  have htaken := hl.taken
  simp only [hpc, Pc.part, Pc.stage, Pc.hand] at htrace htaken
  refine ⟨?_, htaken, fun h' => (by cases h'), fun h' => (by rcases h' with h' | h' <;> cases h'),
    fun _ => hl.closed (.inl (by rw [hpc]; rfl)), fun _ => hq, fun _ => hl.state (by rw [hpc]; simp [Pc.stage])⟩
  show n.trace ++ [.onEnd] = _
  rw [htrace]
  simp [Node.call, Pc.part, Pc.stage, Stage.render]

/-- **A rule of the executor keeps the life**, unless it panics. -/
theorem life_exec {n n' : Node A M} {x : Act A M} {h : Phase → List (Mail A M)} (hl : Life n h)
    (hx : Node.Exec n x n') (hf : n'.pc.stage ≠ .failed) : ∃ h', Life n' h' := by
  cases hx with
  | op o ho' hu ho => exact ⟨h, hl.kept (Node.ctxOp_kept ho)⟩
  | unwind c hc => exact absurd rfl hf
  | onStart a hpc =>
    refine ⟨h, hl.move [] ?_ ?_ ?_ ?_ rfl rfl⟩ <;> unfold Node.mainLoop <;> split <;>
      simp [hpc, Pc.stage, Pc.hand, Pc.part]
  | took m c pc hp hpc => exact ⟨h, hl.took hp hpc⟩
  | leaveLoop hpc =>
    rcases hpc with hpc | hpc <;>
      exact ⟨h, hl.shutdownStart (by rw [hpc]; rfl) (by rw [hpc]; rfl) (by rw [hpc]; rfl)⟩
  | check hand hpc =>
    refine ⟨h, hl.move [] ?_ ?_ ?_ ?_ ?_ ?_⟩ <;> unfold Node.checkStep <;> split <;>
      cases hand <;> simp [hpc, Pc.stage, Phase.stage, Pc.hand, Pc.part, Node.passCheck]
  | acquired hand k rest hpc hk =>
    refine ⟨h, hl.move [] ?_ ?_ ?_ ?_ ?_ ?_⟩ <;> cases hand <;>
      simp [hpc, Pc.stage, Phase.stage, Pc.hand, Pc.part, Node.passCheck]
  | process p m hpc =>
    exact ⟨h, hl.move [.preRun] (by rw [hpc]; rfl) (by rw [hpc]; rfl) rfl (by rw [hpc]; rfl) rfl rfl⟩
  | preRun p m a hpc =>
    exact ⟨h, hl.move [.handle m] (by rw [hpc]; rfl) (by rw [hpc]; rfl) rfl (by rw [hpc]; rfl) rfl rfl⟩
  | handled p m a hpc hb => exact ⟨_, hl.handled (.inl hpc) rfl rfl id id⟩
  | answered p m a k r hpc hb hr =>
    exact ⟨_, hl.handled (hpc.imp_right .inl) rfl rfl id id⟩
  | task p m a k h' hx hpc hb =>
    have hk := Node.anonymous_kept { n with actor := a } (.reply k h')
    exact ⟨_, hl.handled (.inl hpc) hk.trace hk.taken hk.closed hk.state⟩
  | future p m a k hpc hb =>
    exact ⟨h, hl.move [] (by rw [hpc]; rfl) (by rw [hpc]; rfl) (by simp) (by rw [hpc]; rfl) rfl rfl⟩
  | await p m stopNow w hpc hb =>
    obtain ⟨st, h1, h2⟩ := Node.subscribe_eq n stopNow w
    rw [h1]
    exact ⟨_, hl.handled (.inl hpc) rfl rfl id fun h' => h2 h' ▸ h'⟩
  | changed p m seen hpc hs =>
    exact ⟨h, hl.move [] (by rw [hpc]; rfl) (by rw [hpc]; rfl) (by simp) (by rw [hpc]; rfl) rfl rfl⟩
  | cancelClosed p m hpc hc =>
    obtain ⟨aw, ak, h1⟩ := Node.dropMail_eq n m
    rw [h1]
    exact ⟨_, hl.handled (.inr (.inr hpc)) rfl rfl id id⟩
  | cancelSent p m c hpc hc =>
    obtain ⟨aw, ak, h1⟩ := Node.dropMail_eq { n with mailbox := c } m
    have hg := Chan.Grown.of_push hc
    rw [h1]
    exact ⟨_, hl.handled (.inr (.inr hpc)) rfl hg.taken (fun hc => hg.closed.trans hc) id⟩
  | postRun p a hpc =>
    -- a message of the main loop is followed by the next, or by the shutdown
    cases p with
    | main =>
      simp only [Node.processed]
      split
      · refine ⟨h, hl.move [] ?_ ?_ ?_ ?_ rfl rfl⟩ <;> unfold Node.mainLoop <;> split <;>
          simp [hpc, Pc.stage, Phase.stage, Pc.hand, Pc.part]
      · have hl' : Life { n with actor := a } h :=
          hl.move [] rfl rfl (by simp) (by rw [hpc]; rfl) rfl rfl
        exact ⟨h, hl'.shutdownStart (by rw [hpc]; rfl) (by rw [hpc]; rfl) (by rw [hpc]; rfl)⟩
    | stopping =>
      exact ⟨h, hl.move [] (by rw [hpc]; rfl) (by rw [hpc]; rfl) (by simp [Node.processed])
        (by rw [hpc]; rfl) rfl rfl⟩
    | stopped =>
      exact ⟨h, hl.move [] (by rw [hpc]; rfl) (by rw [hpc]; rfl) (by simp [Node.processed])
        (by rw [hpc]; rfl) rfl rfl⟩
  | stoppingDone hgo hpc hc => exact ⟨h, hl.stoppingDone hpc⟩
  | drained hpc hq => exact ⟨h, hl.drained hpc hq⟩
  | onEnd a hpc =>
    exact ⟨h, hl.move [.ended a] (by rw [hpc]; rfl) (by rw [hpc]; rfl) rfl (by rw [hpc]; rfl) rfl rfl⟩
  | finish hpc =>
    refine ⟨h, hl.move [] ?_ ?_ ?_ ?_ ?_ ?_⟩ <;> unfold Node.finish <;> (repeat' split) <;>
      simp [hpc, Pc.stage, Pc.hand, Pc.part]
  | onStopping a hpc | onStopped a hpc =>
    exact ⟨h, hl.move [] (by rw [hpc]; rfl) (by rw [hpc]; rfl) (by simp) (by rw [hpc]; rfl) rfl rfl⟩
  | notify hpc | again t hpc =>
    exact ⟨h, hl.move [] (by rw [hpc]; rfl) (by rw [hpc]; rfl) (by simp) (by rw [hpc]; rfl) rfl rfl⟩
  | children hpc hc | stay hpc hc | assertClosed hpc hc =>
    exact ⟨h, hl.move [] (by rw [hpc]; rfl) (by rw [hpc]; rfl) (by simp) (by rw [hpc]; rfl) rfl rfl⟩

theorem Pc.failed_iff {pc : Pc A M} : pc.stage = .failed ↔ ∃ c, pc = .panicked c := by
  constructor
  · intro h
    cases pc with
    | panicked c => exact ⟨c, rfl⟩
    | process p | preRun p | handle p | future p | cancelling p | postRun p => cases p <;> cases h
    | _ => cases h
  · rintro ⟨c, rfl⟩; rfl

/-- A panicked executor does not move. -/
theorem exec_failed {n n' : Node A M} {x : Act A M} (hx : Node.Exec n x n') (hf : n.pc.stage = .failed) : False := by
  obtain ⟨c, hc⟩ := Pc.failed_iff.1 hf
  cases hx
  case unwind c' h => cases c' <;> simp [Node.panics, hc, Pc.user] at h
  all_goals simp_all [Pc.user, Pc.took]

/-- The executor has panicked, or its life is in order. -/
def LifeOK (n : Node A M) : Prop := n.pc.stage = .failed ∨ ∃ h, Life n h

theorem lifeOK_step {n n' : Node A M} {l : Label A M} (hl : LifeOK n) (h : n.step l = some n') :
    LifeOK n' := by
  rcases Node.step_outside h with ⟨x, -, hx⟩ | ⟨ms, ho⟩
  · rcases hl with hf | ⟨h, hl⟩
    · exact (exec_failed hx hf).elim
    · by_cases hf : n'.pc.stage = .failed
      · exact .inl hf
      · exact .inr (life_exec hl hx hf)
  · rcases hl with hf | ⟨h, hl⟩
    · exact .inl (by rw [ho.pc]; exact hf)
    · exact .inr ⟨h, hl.outside ho⟩

/-- **In every reachable state the life is in order**, or the executor has panicked. -/
theorem life_run {cfg : Config} {a : A} {ls : List (Label A M)} {n : Node A M}
    (hr : Lts.run Node.step (Node.init cfg a) ls = some n) : LifeOK n :=
  Lts.run_inv (fun _ _ _ hl h => lifeOK_step hl h) (.inr ⟨_, life_init cfg a⟩) hr

/-- The message at hand was accepted. -/
theorem LifeOK.hand_accepted {n : Node A M} (hl : LifeOK n) (hf : n.pc.stage ≠ .failed) {m : Mail A M}
    (hm : n.pc.hand = some m) : m ∈ n.mailbox.accepted := by
  obtain ⟨_, hl⟩ := hl.resolve_left hf
  rw [n.mailbox.history, hl.taken, hm]
  simp

/-- The messages handled in a trace. -/
def handledOf (tr : List (Event A M)) : List (Mail A M) :=
  tr.filterMap fun e => match e with
    | .handle m => some m
    | _ => none

@[simp] theorem handledOf_append (tr tr' : List (Event A M)) :
    handledOf (tr ++ tr') = handledOf tr ++ handledOf tr' :=
  List.filterMap_append

@[simp] theorem handledOf_segs (h : List (Mail A M)) : handledOf (segs h) = h := by
  induction h with
  | nil => rfl
  | cons m h ih =>
    rw [show segs (m :: h) = segs [m] ++ segs h from rfl, handledOf_append, ih]
    rfl

/-- Once `on_end` is called, the mailbox is closed and everything it accepted was handled. -/
theorem ended_handled {n : Node A M} (hl : LifeOK n) (hend : n.pc.stage = .ended) :
    n.mailbox.closed = true ∧ handledOf n.trace = n.mailbox.accepted := by
  rcases hl with hf | ⟨h, hl⟩
  · rw [hend] at hf; cases hf
  refine ⟨hl.closed (.inr hend), ?_⟩
  have hh : n.pc.hand = none := by
    cases hpc : n.pc with
    | process p | preRun p | handle p | future p | cancelling p =>
      rw [hpc] at hend; cases p <;> cases hend
    | check | acquire => rw [hpc] at hend; cases hend
    | _ => rfl
  have hpart : handledOf (n.pc.part n.actor) = [] := by
    cases hpc : n.pc with
    | handle p | future p | cancelling p => rw [hpc] at hend; cases p <;> cases hend
    | _ => rfl
  have hev : ∀ e : Event A M, (∀ m, e ≠ .handle m) → ∀ tr, handledOf (e :: tr) = handledOf tr := by
    intro e he tr
    cases e with
    | handle m => exact absurd rfl (he m)
    | _ => rfl
  rw [hl.trace, hend, ← Chan.taken_eq (hl.empty hend), hl.taken, hh]
  simp [Stage.render, hev, hpart]

/-- Once `on_end` has returned, the actor is the one it left. -/
theorem Life.ended {n : Node A M} {h : Phase → List (Mail A M)} (hl : Life n h)
    (hs : n.pc.stage = .ended) (hp : n.pc.part n.actor = [.ended n.actor]) :
    ∃ tr, n.trace = tr ++ [.onEnd, .ended n.actor] := by
  refine ⟨Stage.render h .stopped, ?_⟩
  rw [hl.trace, hs, hp]
  simp [Stage.render]

/-- **No accepted message is lost, duplicated or reordered.** When `on_end` is called,
the callbacks called are those of a life, the mailbox is closed and empty, and the
messages handled in the three parts are those the mailbox accepted, in order. -/
theorem life_end {cfg : Config} {a : A} {ls : List (Label A M)} {n : Node A M}
    (hr : Lts.run Node.step (Node.init cfg a) ls = some n) (hpc : n.pc = .onEnd) :
    ∃ h₁ h₂ h₃ : List (Mail A M),
      n.trace = [.onStart] ++ segs h₁ ++ [.onStopping] ++ segs h₂ ++ [.onStopped] ++ segs h₃ ++ [.onEnd] ∧
      n.mailbox.closed = true ∧ n.mailbox.queue = [] ∧ h₁ ++ h₂ ++ h₃ = n.mailbox.accepted := by
  rcases life_run hr with hf | ⟨h, hl⟩
  · rw [hpc] at hf; cases hf
  have hend : n.pc.stage = .ended := by rw [hpc]; rfl
  have hq := hl.empty hend
  refine ⟨h .main, h .stopping, h .stopped, ?_, hl.closed (.inr hend), hq, ?_⟩
  · rw [hl.trace, hpc]
    simp [Pc.stage, Pc.part, Stage.render]
  · rw [← Chan.taken_eq hq, hl.taken, hpc]
    simp [Pc.hand]

/-- An actor stops in its first handler; a message and an await request that came
meanwhile are handled in the drain. -/
def drainedRun : List (Label Unit ℕ) :=
  [.exec (.ret ()), .send (.user 5), .exec .recv, .exec .go, .exec .go, .exec (.ret ()),
    .send (.user 6), .send (.await true), .exec (.op .stop), .exec (.ret ()), .exec (.ret ()),
    .exec (.ret ()), .exec .go, .exec (.ret ()), .exec .go,
    .exec .recv, .exec .go, .exec (.ret ()), .exec (.ret ()), .exec (.ret ()),
    .exec .recv, .exec .go, .exec (.ret ()), .exec .go, .exec (.ret ()), .exec .none]

theorem life_end_drainedRun :
    ∃ n : Node Unit ℕ, Lts.run Node.step (Node.init ⟨2, 1, false, []⟩ ()) drainedRun = some n ∧
      n.pc = .onEnd ∧ n.mailbox.accepted.length = 3 ∧
      ∃ h₁ h₂ h₃ : List (Mail Unit ℕ),
        n.trace = [.onStart] ++ segs h₁ ++ [.onStopping] ++ segs h₂ ++ [.onStopped] ++ segs h₃ ++ [.onEnd] ∧
        n.mailbox.closed = true ∧ n.mailbox.queue = [] ∧ h₁ ++ h₂ ++ h₃ = n.mailbox.accepted := by
  have hr : ∃ n : Node Unit ℕ, Lts.run Node.step (Node.init ⟨2, 1, false, []⟩ ()) drainedRun = some n ∧
      n.pc = .onEnd ∧ n.mailbox.accepted.length = 3 := ⟨_, rfl, rfl, rfl⟩
  obtain ⟨n, hr, hpc, hlen⟩ := hr
  exact ⟨n, hr, hpc, hlen, life_end hr hpc⟩

end Tokactor
