import Tokactor.Model.Executor

/-!
# A tree of actors

Actors started by `Ctx::run` and the supervised actors started below them with `spawn`
and `spawn_with`, each of them a `Node`. What an actor of the tree sees of another one is:

* a supervised actor sees the notifier of its supervisor;
* the wrapper task of a child sees how the child's task has ended.
-/

namespace Tokactor

variable {A M : Type}

/-- An actor of the tree. -/
structure Member (A M : Type) where
  node : Node A M
  /-- its supervisor, and the slot of its wrapper among the supervisor's tasks -/
  parent : Option (ℕ × ℕ)

/-- Actors are numbered in the order they were started. -/
abbrev Tree (A M : Type) := List (Member A M)

inductive TreeLabel (A M : Type)
  /-- `Ctx::run`: an actor without a supervisor is started -/
  | run (cfg : Config) (a : A)
  /-- actor `i` calls `spawn` or `spawn_with` for the actor `a` -/
  | spawn (i : ℕ) (cfg : Config) (a : A)
  /-- the task of the child in slot `k` of actor `i` is over, and its wrapper goes on -/
  | join (i k : ℕ)
  /-- any other step of actor `i` -/
  | step (i : ℕ) (l : Label A M)

/-- How the task of a supervised actor has ended. -/
def Node.outcome (n : Node A M) : Option (Outcome A) :=
  match n.pc with
  | .handed => some .handed
  | .reporting => some (.dead n.actor)
  | .panicked _ => some (.failed .panic)
  | _ => none

namespace Tree

/-- The actor that supervises `m`. -/
def supervisor (t : Tree A M) (m : Member A M) : Option (Node A M) :=
  m.parent.bind fun p => t[p.1]?.map Member.node

/-- The other actors of the tree allow the step. Spawning and the end of a child have labels
of their own. -/
def allows (t : Tree A M) (m : Member A M) : Label A M → Bool
  | .exec .shutdown => (t.supervisor m).any Node.shutdown
  | .exec .died => (t.supervisor m).any Node.dropped
  | .exec (.op (.spawn _)) | .task _ (.child (.ended _)) => false
  | _ => true

/-- How the child in slot `k` of `m` has ended. -/
def childOutcome (t : Tree A M) (m : Member A M) (k : ℕ) : Option (Outcome A) :=
  match m.node.tasks[k]?.map Slot.task with
  | some (.child c) => t[c.id]?.bind fun d => d.node.outcome
  | _ => none

/-- The step of `m`, which is actor `i`, that belongs to a label. -/
def action (t : Tree A M) (m : Member A M) : TreeLabel A M → Option (Label A M)
  | .run _ _ => none
  | .spawn _ _ _ => some (.exec (.op (.spawn t.length)))
  | .join _ k => (t.childOutcome m k).map fun o => .task k (.child (.ended o))
  | .step _ l => if t.allows m l then some l else none

/-- The actor that a label is about. -/
def actor : TreeLabel A M → Option ℕ
  | .run _ _ => none
  | .spawn i _ _ | .join i _ | .step i _ => some i

/-- The actor that acts in a step, with its number and its own step. -/
def acting (t : Tree A M) (l : TreeLabel A M) : Option (ℕ × Member A M × Label A M) :=
  (actor l).bind fun i => t[i]?.bind fun m => (t.action m l).map fun nl => (i, m, nl)

/-- The actors that are started: `spawn` panics in a context that is not running. -/
def started (t : Tree A M) : TreeLabel A M → Tree A M
  | .run cfg a => [⟨Node.init { cfg with supervised := false } a, none⟩]
  | .spawn i cfg a =>
    match t[i]? with
    | some m =>
      if m.node.state = .running then
        [⟨Node.init { cfg with supervised := true } a, some (i, m.node.tasks.length)⟩]
      else []
    | none => []
  | .join _ _ | .step _ _ => []

def step (t : Tree A M) (l : TreeLabel A M) : Option (Tree A M) :=
  match actor l with
  | none => some (t ++ t.started l)
  | some _ =>
    (t.acting l).bind fun (i, m, nl) =>
      (m.node.step nl).map fun n => t.set i { m with node := n } ++ t.started l

/-- `j` is a descendant of `i`. -/
inductive Below (t : Tree A M) (i : ℕ) : ℕ → Prop
  | child (j : ℕ) (d : Member A M) (k : ℕ) (hd : t[j]? = some d) (hp : d.parent = some (i, k)) : Below t i j
  | trans (h j : ℕ) (d : Member A M) (k : ℕ) (hb : Below t i h) (hd : t[j]? = some d)
      (hp : d.parent = some (h, k)) : Below t i j

end Tree

end Tokactor
