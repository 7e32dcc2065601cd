import Mathlib.Data.List.Basic

/-!
# Scripts

A script returns, crashes, or calls with a question and goes on with the response. What answers
is left open: a run of a script is a *path*, the calls it has made and what is left of it.

* `bind`: one script after another; `bind_assoc`.
* `Path.bind_done`: a path of two scripts to the end is one of each.
* `value`, `bind_value`, `Path.value`: where the responses are a function of the questions, so is the result.
-/

inductive Script (Q R α : Type*)
  | done (x : α)
  | call (q : Q) (next : R → Script Q R α)
  | crash

namespace Script

variable {Q R α β γ : Type*}

/-- `p`, and then `f` with what it returns. -/
def bind (p : Script Q R α) (f : α → Script Q R β) : Script Q R β :=
  match p with
  | .done x => f x
  | .call q next => .call q fun r => (next r).bind f
  | .crash => .crash

theorem bind_assoc (p : Script Q R α) (f : α → Script Q R β) (g : β → Script Q R γ) :
    (p.bind f).bind g = p.bind fun x => (f x).bind g := by
  induction p with
  | done x => rfl
  | call q next ih => exact congrArg (call q) (funext ih)
  | crash => rfl

/-- `Path p es p'`: the calls and responses `es` lead from `p` to `p'`. -/
inductive Path : Script Q R α → List (Q × R) → Script Q R α → Prop
  | nil (p : Script Q R α) : Path p [] p
  | cons {q : Q} {r : R} {next : R → Script Q R α} {es : List (Q × R)} {p : Script Q R α} (h : Path (next r) es p) :
    Path (.call q next) ((q, r) :: es) p

/-- The call at hand gets its response. -/
theorem Path.concat {p : Script Q R α} {es : List (Q × R)} {q : Q} {next : R → Script Q R α}
    (h : Path p es (.call q next)) (r : R) : Path p (es ++ [(q, r)]) (next r) := by
  generalize hp : Script.call q next = p' at h
  induction h with
  | nil p =>
    subst hp
    exact .cons (.nil _)
  | cons h ih => exact .cons (ih hp)

theorem Path.of_done {x : α} {es : List (Q × R)} {p : Script Q R α} (h : Path (.done x) es p) :
    es = [] ∧ p = .done x := by
  cases h
  exact ⟨rfl, rfl⟩

/-- **One script after another**: the calls of the first, up to what it returns, and those of the
second. -/
theorem Path.bind_done {p : Script Q R α} {f : α → Script Q R β} {es : List (Q × R)} {y : β}
    (h : Path (p.bind f) es (.done y)) : ∃ es₁ es₂ x, es = es₁ ++ es₂ ∧ Path p es₁ (.done x) ∧ Path (f x) es₂ (.done y) := by
  induction p generalizing es with
  | done x => exact ⟨[], es, x, rfl, .nil _, h⟩
  | crash => cases h
  | call q next ih =>
    generalize hp : (Script.call q next).bind f = p' at h
    cases h with
    | nil => cases hp
    | cons h =>
      cases hp
      obtain ⟨es₁, es₂, x, rfl, h₁, h₂⟩ := ih _ h
      exact ⟨_ :: es₁, es₂, x, rfl, .cons h₁, h₂⟩

/-- The calls of both, one after the other. -/
theorem Path.bind {p : Script Q R α} {f : α → Script Q R β} {es₁ es₂ : List (Q × R)} {x : α} {p' : Script Q R β}
    (h₁ : Path p es₁ (.done x)) (h₂ : Path (f x) es₂ p') : Path (p.bind f) (es₁ ++ es₂) p' := by
  generalize hp : Script.done x = q at h₁
  induction h₁ with
  | nil p =>
    subst hp
    exact h₂
  | cons h ih => exact .cons (ih hp)

/-- What a script returns when `f` answers; `none` if it crashes. -/
def value (f : Q → R) : Script Q R α → Option α
  | .done x => some x
  | .call q next => (next (f q)).value f
  | .crash => none

theorem bind_value (f : Q → R) (p : Script Q R α) (g : α → Script Q R β) :
    (p.bind g).value f = (p.value f).bind fun x => (g x).value f := by
  induction p with
  | done x => rfl
  | call q next ih => exact ih (f q)
  | crash => rfl

/-- **A path with the responses of `f`** leads to what `f` makes of the script. -/
theorem Path.value {f : Q → R} {p p' : Script Q R α} {es : List (Q × R)} (h : Path p es p') (hf : ∀ e ∈ es, e.2 = f e.1) :
    p.value f = p'.value f := by
  induction h with
  | nil p => rfl
  | cons h ih =>
    rename_i q r next es p'
    have hr : r = f q := hf (q, r) List.mem_cons_self
    rw [Script.value, ← hr]
    exact ih fun e he => hf e (List.mem_cons_of_mem _ he)

end Script
