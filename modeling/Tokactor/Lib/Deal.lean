import Mathlib.Data.Int.CardIntervalMod

/-!
# Dealing in turn

Things are dealt to the members of a list one after the other, over and over again.

* `Dealt`: the `k`-th thing goes to member `k` modulo the length of the list.
* `dealt_count`: how many things a member has got.
* `dealt_even`: any two members have got the same number of things, give or take one.
-/

namespace Deal

variable {α β : Type*}

/-- A count is one of positions. -/
theorem countP_positions {p : α → Bool} {P : ℕ → Prop} [DecidablePred P] {l : List α}
    (h : ∀ k x, l[k]? = some x → (p x = true ↔ P k)) : l.countP p = l.length.count P := by
  induction l using List.reverseRecOn with
  | nil => rfl
  | append_singleton l x ih =>
    have hlast := h l.length x List.getElem?_concat_length
    have hrest : l.countP p = l.length.count P := by
      refine ih fun k y hy => h k y ?_
      rw [List.getElem?_append_left (List.getElem?_eq_some_iff.1 hy).1, hy]
    rw [List.countP_append, List.length_append, List.length_singleton, Nat.count_succ, hrest, List.countP_singleton]
    by_cases hp : p x = true
    · rw [if_pos hp, if_pos (hlast.1 hp)]
    · rw [if_neg hp, if_neg fun hP => hp (hlast.2 hP)]

/-- The `k`-th of the things `l` has gone to member `k` of `who`, counted round. -/
def Dealt (who : List β) (f : α → β) (l : List α) : Prop :=
  ∀ k x, l[k]? = some x → who[k % who.length]? = some (f x)

theorem Dealt.nil (who : List β) (f : α → β) : Dealt who f [] := by
  intro k x hx
  cases hx

/-- The next thing goes to the next member. -/
theorem Dealt.concat {who : List β} {f : α → β} {l : List α} {x : α} (h : Dealt who f l)
    (hx : who[l.length % who.length]? = some (f x)) : Dealt who f (l ++ [x]) := by
  intro k y hy
  rcases Nat.lt_trichotomy k l.length with hk | rfl | hk
  · rw [List.getElem?_append_left hk] at hy
    exact h k y hy
  · rw [List.getElem?_concat_length] at hy
    cases hy
    exact hx
  · rw [List.getElem?_eq_none (by simp; omega)] at hy
    cases hy

variable [DecidableEq β] {who : List β} {f : α → β} {l : List α}

/-- **How many things a member has got**: one for each full round, and one more when its turn
in the last round is over. -/
theorem dealt_count (hd : who.Nodup) (h : Dealt who f l) {c : ℕ} {b : β} (hb : who[c]? = some b) :
    l.countP (f · = b) = l.length / who.length + if c < l.length % who.length then 1 else 0 := by
  have hc := (List.getElem?_eq_some_iff.1 hb).1
  have hpos : 0 < who.length := Nat.zero_lt_of_lt hc
  have hturn : ∀ k x, l[k]? = some x → (decide (f x = b) = true ↔ k ≡ c [MOD who.length]) := by
    intro k x hx
    have hto := h k x hx
    rw [decide_eq_true_eq, Nat.ModEq, Nat.mod_eq_of_lt hc]
    constructor
    · intro hxb
      rw [hxb, ← hb] at hto
      exact (List.getElem?_inj (Nat.mod_lt k hpos) hd).1 hto
    · intro hk
      rw [hk, hb] at hto
      exact (Option.some.inj hto).symm
  rw [countP_positions hturn, Nat.count_modEq_card _ hpos, Nat.mod_eq_of_lt hc]

/-- **Any two members have got the same number of things, give or take one.** -/
theorem dealt_even (hd : who.Nodup) (h : Dealt who f l) {b b' : β} (hb : b ∈ who) (hb' : b' ∈ who) :
    l.countP (f · = b) ≤ l.countP (f · = b') + 1 := by
  obtain ⟨c, hc⟩ := List.mem_iff_getElem?.1 hb
  obtain ⟨c', hc'⟩ := List.mem_iff_getElem?.1 hb'
  rw [dealt_count hd h hc, dealt_count hd h hc']
  split <;> split <;> omega

end Deal
