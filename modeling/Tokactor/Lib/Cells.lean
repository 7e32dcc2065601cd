import Mathlib.Data.List.Forall2

/-!
# Numbered cells

A list used as a table of cells: cells are only added at the end, and one at a time is
overwritten. `At l i P` says that cell `i` is there and satisfies `P`.
-/

namespace Cells

variable {α : Type*} {P Q : α → Prop} {l : List α} {i j : ℕ}

/-- Cell `i` is there and satisfies `P`. -/
def At (l : List α) (i : ℕ) (P : α → Prop) : Prop := ∃ c, l[i]? = some c ∧ P c

theorem At.mono (h : At l i P) (hPQ : ∀ c, P c → Q c) : At l i Q := by
  obtain ⟨c, hc, hp⟩ := h
  exact ⟨c, hc, hPQ c hp⟩

theorem At.and (hP : At l i P) (hQ : At l i Q) : ∃ c, P c ∧ Q c := by
  obtain ⟨c, hc, hp⟩ := hP
  obtain ⟨c', hc', hq⟩ := hQ
  rw [hc] at hc'
  cases hc'
  exact ⟨c, hp, hq⟩

theorem At.lt (h : At l i P) : i < l.length := by
  obtain ⟨c, hc, -⟩ := h
  exact (List.getElem?_eq_some_iff.1 hc).1

/-- The new cells come after the old ones. -/
theorem At.append (h : At l i P) (l' : List α) : At (l ++ l') i P := by
  have hlt := h.lt
  obtain ⟨c, hc, hp⟩ := h
  exact ⟨c, by rw [List.getElem?_append_left hlt, hc], hp⟩

theorem At.concat {a : α} (h : P a) : At (l ++ [a]) l.length P :=
  ⟨a, List.getElem?_concat_length, h⟩

theorem At.modify_ne (h : At l i P) (f : α → α) (hij : j ≠ i) : At (l.modify j f) i P := by
  obtain ⟨c, hc, hp⟩ := h
  exact ⟨c, by rw [List.getElem?_modify_ne f l hij, hc], hp⟩

theorem At.modify_eq (h : At l i P) (f : α → α) (hf : ∀ c, P c → Q (f c)) : At (l.modify i f) i Q := by
  obtain ⟨c, hc, hp⟩ := h
  exact ⟨f c, by rw [List.getElem?_modify_eq, hc]; rfl, hf c hp⟩

/-- A cell keeps `P` when another one is overwritten, or when `P` is kept. -/
theorem At.set {a c : α} (h : At l i P) (hc : l[j]? = some c) (hP : P c → P a) : At (l.set j a) i P := by
  have hlt := h.lt
  obtain ⟨b, hb, hp⟩ := h
  by_cases hij : j = i
  · subst hij
    rw [hc] at hb
    cases hb
    exact ⟨a, List.getElem?_set_self hlt, hP hp⟩
  · exact ⟨b, by rw [List.getElem?_set_ne hij, hb], hp⟩

/-- Every cell that is overwritten gets `P`. -/
theorem At.set_of {a : α} (h : At l i P) (ha : P a) : At (l.set j a) i P := by
  rcases Nat.lt_or_ge j l.length with hj | hj
  · exact h.set (List.getElem?_eq_getElem hj) fun _ => ha
  · rwa [List.set_eq_of_length_le hj]

theorem At.set_self {a : α} (hi : i < l.length) (ha : P a) : At (l.set i a) i P :=
  ⟨a, List.getElem?_set_self hi, ha⟩

/-- A cell after one was changed. -/
theorem get_modify {f : α → α} {x : α} (h : (l.modify i f)[j]? = some x) :
    ∃ c, l[j]? = some c ∧ (j = i ∧ x = f c ∨ j ≠ i ∧ x = c) := by
  rw [List.getElem?_modify] at h
  obtain ⟨c, hc, rfl⟩ := Option.map_eq_some_iff.1 h
  refine ⟨c, hc, ?_⟩
  by_cases hij : i = j
  · exact .inl ⟨hij.symm, if_pos hij⟩
  · exact .inr ⟨fun hji => hij hji.symm, if_neg hij⟩

/-- The last cell is changed. -/
theorem modify_concat (f : α → α) (l : List α) (a : α) : (l ++ [a]).modify l.length f = l ++ [f a] := by
  induction l with
  | nil => rfl
  | cons b l ih => rw [List.cons_append, List.length_cons, List.modify_succ_cons, ih, List.cons_append]

/-- The cells of a list are changed, one after the other. -/
theorem get_foldl_modify {f : α → α} (hf : ∀ c, f (f c) = f c) (is : List ℕ) (l : List α) (k : ℕ) :
    (is.foldl (fun l i => l.modify i f) l)[k]? = l[k]?.map fun c => if k ∈ is then f c else c := by
  induction is generalizing l with
  | nil => simp
  | cons i is ih =>
    rw [List.foldl_cons, ih, List.getElem?_modify]
    cases l[k]? with
    | none => rfl
    | some c =>
      by_cases hi : i = k
      · by_cases hk : k ∈ is <;> simp [hi, hk, hf]
      · have hi' : k ≠ i := fun h => hi h.symm
        by_cases hk : k ∈ is <;> simp [hi, hi', hk]

theorem length_foldl_modify {f : α → α} (is : List ℕ) (l : List α) :
    (is.foldl (fun l i => l.modify i f) l).length = l.length := by
  induction is generalizing l with
  | nil => rfl
  | cons i is ih => rw [List.foldl_cons, ih, List.length_modify]

/-- A cell after a new one was added. -/
theorem get_concat {a x : α} (h : (l ++ [a])[j]? = some x) : l[j]? = some x ∨ j = l.length ∧ x = a := by
  rcases Nat.lt_or_ge j l.length with hj | hj
  · rw [List.getElem?_append_left hj] at h
    exact .inl h
  · rw [List.getElem?_append_right hj] at h
    have hlt := (List.getElem?_eq_some_iff.1 h).1
    have hmem := List.mem_of_getElem? h
    rw [List.length_singleton] at hlt
    exact .inr ⟨by omega, List.mem_singleton.1 hmem⟩

/-- A cell after one was overwritten and new ones were added. -/
theorem get_set_append {new : List α} {a x : α} (hi : i < l.length) (h : (l.set i a ++ new)[j]? = some x) :
    j = i ∧ x = a ∨ j ≠ i ∧ l[j]? = some x ∨ ∃ k, j = l.length + k ∧ new[k]? = some x := by
  rcases Nat.lt_or_ge j l.length with hj | hj
  · rw [List.getElem?_append_left (by rwa [List.length_set])] at h
    by_cases hij : i = j
    · subst hij
      rw [List.getElem?_set_self hi] at h
      exact .inl ⟨rfl, (Option.some.inj h).symm⟩
    · rw [List.getElem?_set_ne hij] at h
      exact .inr (.inl ⟨fun hji => hij hji.symm, h⟩)
  · rw [List.getElem?_append_right (by rwa [List.length_set]), List.length_set] at h
    exact .inr (.inr ⟨j - l.length, by omega, h⟩)

/-- The cells that were there and were not overwritten. -/
theorem get_old {new : List α} {a x : α} (hij : j ≠ i) (h : l[j]? = some x) :
    (l.set i a ++ new)[j]? = some x := by
  have hj : j < l.length := (List.getElem?_eq_some_iff.1 h).1
  rw [List.getElem?_append_left (by rwa [List.length_set]), List.getElem?_set_ne fun h => hij h.symm]
  exact h

theorem get_set {new : List α} {a : α} (hi : i < l.length) : (l.set i a ++ new)[i]? = some a := by
  rw [List.getElem?_append_left (by rwa [List.length_set]), List.getElem?_set_self hi]

theorem get_new {a b : α} : (l.set i a ++ [b])[l.length]? = some b := by
  rw [List.getElem?_append_right (Nat.le_of_eq List.length_set), List.length_set]
  simp

/-- Cells that are changed one by one. -/
theorem forall₂_of_get {β : Type*} {R : α → β → Prop} {f : ℕ → α → β} {l' : List β}
    (h : ∀ k, l'[k]? = l[k]?.map (f k)) (hf : ∀ k c, R c (f k c)) : List.Forall₂ R l l' := by
  have hl : l' = l.mapIdx f := by
    refine List.ext_getElem? fun k => ?_
    rw [h, List.getElem?_mapIdx]
  subst hl
  refine List.forall₂_iff_get.2 ⟨List.length_mapIdx.symm, fun k hk hk' => ?_⟩
  simp only [List.get_eq_getElem, List.getElem_mapIdx]
  exact hf k _

theorem forall₂_modify {R : α → α → Prop} {f : α → α} (hR : ∀ c, R c c) (hf : ∀ c, R c (f c)) (i : ℕ) (l : List α) :
    List.Forall₂ R l (l.modify i f) := by
  refine forall₂_of_get (f := fun k c => if i = k then f c else c) (fun k => List.getElem?_modify f i l k) fun k c => ?_
  split
  · exact hf c
  · exact hR c

theorem forall₂_set {R : α → α → Prop} {a c : α} (hR : ∀ c, R c c) (hc : l[i]? = some c) (ha : R c a) :
    List.Forall₂ R l (l.set i a) := by
  obtain ⟨hi, rfl⟩ := List.getElem?_eq_some_iff.1 hc
  refine List.forall₂_iff_get.2 ⟨List.length_set.symm, fun k hk hk' => ?_⟩
  simp only [List.get_eq_getElem, List.getElem_set]
  split
  · rename_i hik
    subst hik
    exact ha
  · exact hR _

/-- What the cells hold, when one of them gets more. -/
theorem perm_flatMap_set {β : Type*} {f : α → List β} {x y : α} {es : List β} (h : l[i]? = some x) (hf : f y = f x ++ es) :
    (l.flatMap f ++ es).Perm ((l.set i y).flatMap f) := by
  induction l generalizing i with
  | nil => cases h
  | cons c l ih =>
    cases i with
    | zero =>
      obtain rfl : c = x := Option.some.inj h
      rw [List.set_cons_zero, List.flatMap_cons, List.flatMap_cons, hf, List.append_assoc, List.append_assoc]
      exact List.Perm.append_left _ List.perm_append_comm
    | succ i =>
      rw [List.set_cons_succ, List.flatMap_cons, List.flatMap_cons, List.append_assoc]
      exact List.Perm.append_left _ (ih h)

end Cells
