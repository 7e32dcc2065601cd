import Mathlib.Algebra.Ring.Nat
import Mathlib.Data.List.Basic

/-!
# Counting in a list whose entries change one at a time

* `tally_set`: what the change of one entry does to a count.
* `tally_congr`: a count depends only on which entries count.
* `tally_split`: a count is the sum of the counts with and without a second property.
* `sum_set`: what the change of one entry does to a sum.
-/

namespace Tally

variable {α : Type*}

/-- One entry changes: what it counted before is exchanged for what it counts now. -/
theorem tally_set (p : α → Bool) {l : List α} {i : ℕ} {x : α} (h : l[i]? = some x) (y : α) :
    (l.set i y).countP p + (p x).toNat = l.countP p + (p y).toNat := by
  induction l generalizing i with
  | nil => cases h
  | cons a l ih =>
    cases i with
    | zero =>
      have ha : a = x := by simpa using h
      subst ha
      simp only [List.set_cons_zero, List.countP_cons]
      cases p a <;> cases p y <;> simp
    | succ i =>
      have := ih (i := i) (by simpa using h)
      simp only [List.set_cons_succ, List.countP_cons]
      omega

theorem tally_concat (p : α → Bool) (l : List α) (x : α) :
    (l ++ [x]).countP p = l.countP p + (p x).toNat := by
  rw [List.countP_append, List.countP_cons, List.countP_nil]
  cases p x <;> rfl

/-- A count depends only on which entries count. -/
theorem tally_congr (p : α → Bool) {l l' : List α} (h : ∀ i : ℕ, l'[i]?.map p = l[i]?.map p) :
    l'.countP p = l.countP p := by
  have hmap : l'.map p = l.map p := by
    refine List.ext_getElem? fun i => ?_
    rw [List.getElem?_map, List.getElem?_map, h]
  have hcount : ∀ m : List α, m.countP p = (m.map p).countP id := fun m => by
    rw [List.countP_map]
    rfl
  rw [hcount, hcount, hmap]

theorem tally_split (p q : α → Bool) (l : List α) :
    l.countP p = l.countP (fun x => p x && q x) + l.countP (fun x => p x && !q x) := by
  induction l with
  | nil => rfl
  | cons a l ih =>
    simp only [List.countP_cons, ih]
    cases p a <;> cases q a <;> simp <;> omega

/-- One entry changes: what it added before is exchanged for what it adds now. -/
theorem sum_set (f : α → ℕ) {l : List α} {i : ℕ} {x : α} (h : l[i]? = some x) (y : α) :
    ((l.set i y).map f).sum + f x = (l.map f).sum + f y := by
  induction l generalizing i with
  | nil => cases h
  | cons a l ih =>
    cases i with
    | zero =>
      have ha : a = x := by simpa using h
      subst ha
      simp only [List.set_cons_zero, List.map_cons, List.sum_cons]
      omega
    | succ i =>
      have := ih (i := i) (by simpa using h)
      simp only [List.set_cons_succ, List.map_cons, List.sum_cons]
      omega

end Tally
