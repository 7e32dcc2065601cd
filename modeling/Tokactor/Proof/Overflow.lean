import Mathlib.Order.Lattice
import Tokactor.Proof.Limit

/-!
# The overflow counter

The branches of `check_anonymous_actors` come down to one formula (`check_eq`): it acquires
`min overflow (max - avaliable)` permits, cut to 32 bits, and lowers the counter by that
minimum before the cut.

* `check_exact`: the arithmetic is exact if and only if the cut takes nothing away.
* `debt_paid`: a check that runs when no anonymous actor is alive takes nothing off the
  counter, so it leaves no debt if and only if there was none.
-/

namespace Tokactor

variable {A M : Type}

/-! ## The formula -/

/-- **What `check_anonymous_actors` computes**, in one formula for its four branches. -/
theorem check_eq (max avaliable overflow : ℕ) :
    checkAnonymousActors max avaliable overflow =
      if overflow = 0 then none
      else some (min overflow (max - avaliable) % 2 ^ 32, overflow - min overflow (max - avaliable)) := by
  unfold checkAnonymousActors
  by_cases h0 : overflow = 0
  · rw [if_pos h0, if_neg (by omega), if_neg (by omega)]
  have hpos : overflow > 0 := by omega
  rw [if_neg h0]
  by_cases hav : avaliable = 0
  · rw [if_pos ⟨hav, hpos⟩, hav, Nat.sub_zero]
    by_cases hlt : overflow < max
    · rw [if_pos hlt, Nat.min_eq_left (by omega), Nat.sub_self]
    · rw [if_neg hlt, Nat.min_eq_right (by omega)]
  · rw [if_neg (by omega), if_pos hpos]
    by_cases hlt : overflow < max - avaliable
    · rw [if_pos hlt, Nat.min_eq_left (by omega), Nat.sub_self]
    · rw [if_neg hlt, Nat.min_eq_right (by omega)]

/-- Subtraction on `usize`; `none` when it underflows. -/
def usizeSub (a b : ℕ) : Option ℕ := if b ≤ a then some (a - b) else none

theorem usizeSub_of_le {a b : ℕ} (h : b ≤ a) : usizeSub a b = some (a - b) := if_pos h

/-- `check_anonymous_actors` with every subtraction checked. -/
def checkedAnonymousActors (max avaliable overflow : ℕ) : Option (Option (ℕ × ℕ)) :=
  if avaliable = 0 ∧ overflow > 0 then
    if overflow < max then some (some (overflow % 2 ^ 32, 0))
    else (usizeSub overflow max).map fun rest => some (max % 2 ^ 32, rest)
  else if overflow > 0 then
    (usizeSub max avaliable).bind fun running =>
      if overflow < running then some (some (overflow % 2 ^ 32, 0))
      else (usizeSub overflow running).map fun rest => some (running % 2 ^ 32, rest)
  else some none

/-- No subtraction underflows as long as no more permits are available than there are. -/
theorem checked_eq {max avaliable overflow : ℕ} (h : avaliable ≤ max) :
    checkedAnonymousActors max avaliable overflow = some (checkAnonymousActors max avaliable overflow) := by
  unfold checkedAnonymousActors checkAnonymousActors
  by_cases h1 : avaliable = 0 ∧ overflow > 0
  · rw [if_pos h1, if_pos h1]
    by_cases hlt : overflow < max
    · rw [if_pos hlt, if_pos hlt]
    · rw [if_neg hlt, if_neg hlt, usizeSub_of_le (by omega), Option.map_some]
  rw [if_neg h1, if_neg h1]
  by_cases h2 : overflow > 0
  · rw [if_pos h2, if_pos h2, usizeSub_of_le h, Option.bind_some]
    by_cases hlt : overflow < max - avaliable
    · rw [if_pos hlt, if_pos hlt]
    · rw [if_neg hlt, if_neg hlt, usizeSub_of_le (by omega), Option.map_some]
  · rw [if_neg h2, if_neg h2]

namespace Node

/-- The overflow counter when `check_anonymous_actors` returns. -/
def owed (n : Node A M) : ℕ :=
  match checkAnonymousActors n.cfg.maxAnonymousActors n.permits n.overflow with
  | none => n.overflow
  | some (_, rest) => rest

theorem demand_eq (n : Node A M) : n.demand = min n.overflow (n.cfg.maxAnonymousActors - n.permits) % 2 ^ 32 := by
  unfold demand
  rw [check_eq]
  by_cases h0 : n.overflow = 0
  · rw [if_pos h0, h0, Nat.zero_min, Nat.zero_mod]
  · rw [if_neg h0]

theorem owed_eq (n : Node A M) : n.owed = n.overflow - min n.overflow (n.cfg.maxAnonymousActors - n.permits) := by
  unfold owed
  rw [check_eq]
  by_cases h0 : n.overflow = 0
  · rw [if_pos h0, h0, Nat.zero_sub]
  · rw [if_neg h0]

/-! ## The arithmetic -/

/-- The permit arithmetic of `check_anonymous_actors` is exact in this state. -/
structure Exact (n : Node A M) : Prop where
  /-- no subtraction underflows -/
  total : checkedAnonymousActors n.cfg.maxAnonymousActors n.permits n.overflow =
    some (checkAnonymousActors n.cfg.maxAnonymousActors n.permits n.overflow)
  requested : n.demand = min n.overflow (n.cfg.maxAnonymousActors - n.permits)
  bounded : n.demand ≤ n.cfg.maxAnonymousActors
  /-- the wait is over at the latest when the tracked tasks have ended -/
  satisfied : n.tally Task.permit = 0 → n.demand ≤ n.permits
  paid : n.owed + n.demand = n.overflow

end Node

theorem Permits.avaliable_le {n : Node A M} (hp : Permits n) : n.permits ≤ n.cfg.maxAnonymousActors := by
  have := hp.sum
  omega

/-- **The arithmetic of `check_anonymous_actors` is exact in a reachable state if and only
if** the number of permits it wants fits into the `u32` that `acquire_many` takes. -/
theorem check_exact {cfg : Config} {a : A} {ls : List (Label A M)} {n : Node A M}
    (hr : Lts.run Node.step (Node.init cfg a) ls = some n) :
    n.Exact ↔ min n.overflow (n.cfg.maxAnonymousActors - n.permits) < 2 ^ 32 := by
  have hp := permits_run hr
  constructor
  · intro h
    rw [← h.requested, n.demand_eq]
    exact Nat.mod_lt _ (by decide)
  · intro hlt
    have hdemand : n.demand = min n.overflow (n.cfg.maxAnonymousActors - n.permits) := by
      rw [n.demand_eq, Nat.mod_eq_of_lt hlt]
    have hsum := hp.sum
    refine ⟨checked_eq hp.avaliable_le, hdemand, ?_, fun hzero => ?_, ?_⟩
    · omega
    · omega
    · rw [n.owed_eq, hdemand]
      omega

/-- An anonymous task takes a permit or raises the counter. -/
theorem Node.anonymous_counts (n : Node A M) (kind : AnonKind) :
    n.permits = (n.anonymous kind).permits + 1 ∧ (n.anonymous kind).overflow = n.overflow ∨
      n.permits = 0 ∧ (n.anonymous kind).permits = 0 ∧ (n.anonymous kind).overflow = n.overflow + 1 := by
  unfold Node.anonymous Node.acquireAnonymousPermit
  cases n.permits with
  | zero => exact .inr ⟨rfl, rfl, rfl⟩
  | succ k => exact .inl ⟨rfl, rfl⟩

/-- `on_start` starts `k` anonymous tasks. -/
def burst (k : ℕ) : List (Label Unit ℕ) := List.replicate k (.exec (.op .anonymous))

/-- The first `max` of them take the permits, the others are counted. -/
theorem burst_run (cfg : Config) (k : ℕ) :
    ∃ n : Node Unit ℕ, Lts.run Node.step (Node.init cfg ()) (burst k) = some n ∧ n.pc = .onStart ∧ n.cfg = cfg ∧
      n.permits = cfg.maxAnonymousActors - k ∧ n.overflow = k - cfg.maxAnonymousActors := by
  induction k with
  | zero => exact ⟨_, rfl, rfl, rfl, rfl, (Nat.zero_sub _).symm⟩
  | succ k ih =>
    obtain ⟨n, hr, hpc, hcfg, hperm, hover⟩ := ih
    have hstep : n.step (.exec (.op .anonymous)) = some (n.anonymous .anonymous) := by
      simp only [Node.step, Node.exec, hpc, Node.callback]
      rfl
    have hkept := Node.anonymous_kept n .anonymous
    refine ⟨_, by rw [burst, List.replicate_succ']; exact Lts.run_concat hr hstep, hkept.pc.trans hpc,
      hkept.cfg.trans hcfg, ?_⟩
    rcases n.anonymous_counts .anonymous with ⟨hp, ho⟩ | ⟨hp, hp', ho⟩
    · exact ⟨by omega, by omega⟩
    · exact ⟨by omega, by omega⟩

theorem check_exact_burst :
    ∃ n : Node Unit ℕ, Lts.run Node.step (Node.init ⟨4, 1, false, []⟩ ()) (burst 3) = some n ∧ n.overflow = 2 ∧ n.Exact := by
  have hr : ∃ n : Node Unit ℕ, Lts.run Node.step (Node.init ⟨4, 1, false, []⟩ ()) (burst 3) = some n ∧
      n.overflow = 2 ∧ n.cfg.maxAnonymousActors = 1 := ⟨_, rfl, rfl, rfl⟩
  obtain ⟨n, hr, hover, hmax⟩ := hr
  refine ⟨n, hr, hover, (check_exact hr).2 ?_⟩
  rw [hover, hmax]
  omega

/-- **With a limit of `2^32`**, half of what is started is not tracked, and the check asks
for no permit instead of `2^32`. -/
theorem check_truncates :
    ∃ n : Node Unit ℕ, Lts.run Node.step (Node.init ⟨4, 2 ^ 32, false, []⟩ ()) (burst (2 ^ 33)) = some n ∧
      n.permits = 0 ∧ n.overflow = 2 ^ 32 ∧ n.demand = 0 ∧ n.owed = 0 ∧ ¬ n.Exact := by
  obtain ⟨n, hr, -, hcfg, hperm, hover⟩ := burst_run ⟨4, 2 ^ 32, false, []⟩ (2 ^ 33)
  have hmax : n.cfg.maxAnonymousActors = 2 ^ 32 := by rw [hcfg]
  have hperm : n.permits = 0 := by rw [hperm]; decide
  have hover : n.overflow = 2 ^ 32 := by rw [hover]; decide
  have hdemand : n.demand = 0 := by rw [n.demand_eq, hover, hmax, hperm]; decide
  refine ⟨n, hr, hperm, hover, hdemand, ?_, fun h => ?_⟩
  · rw [n.owed_eq, hover, hmax, hperm]
    decide
  · have hpaid := h.requested
    rw [hdemand, hover, hmax, hperm] at hpaid
    exact absurd hpaid (by decide)

/-! ## The debt -/

/-- No part of the anonymous actor runs any more. (The output of a handle waits for the
owner of the handle, after its task has ended.) -/
def Anon.over (a : Anon A M) : Bool :=
  match a.kind, a.pc with
  | _, .done | .handle, .returned _ => true
  | _, _ => false

def Task.over : Task A M → Bool
  | .anon a => a.over
  | _ => true

def Task.isAnon : Task A M → Bool
  | .anon _ => true
  | _ => false

/-- The executor waits for permits. -/
def Pc.acquiring : Pc A M → Bool
  | .acquire _ _ _ => true
  | _ => false

namespace Node

/-- No anonymous actor is alive. -/
def quiet (n : Node A M) : Bool := n.tasks.all fun s => s.task.over

/-- The executor is at the call of `check_anonymous_actors`. -/
def checking (n : Node A M) : Bool :=
  match n.pc with
  | .check _ => true
  | _ => false

/-- `check_anonymous_actors` is called in `n` and returns in `n'`: at once, or after a wait
in which everybody else takes the steps `ls`. -/
inductive Returns (n : Node A M) : List (Label A M) → Node A M → Prop
  | atOnce (n' : Node A M) (hc : n.checking = true) (h : n.step (.exec .go) = some n')
      (hp : n'.pc.acquiring = false) : Returns n [.exec .go] n'
  | waited (ls : List (Label A M)) (n₁ n₂ n' : Node A M) (hc : n.checking = true)
      (h : n.step (.exec .go) = some n₁) (hp : n₁.pc.acquiring = true) (hr : Lts.run Node.step n₁ ls = some n₂)
      (hls : ∀ l ∈ ls, l.isExec = false) (h' : n₂.step (.exec .go) = some n') :
      Returns n (.exec .go :: (ls ++ [.exec .go])) n'

end Node

/-- A check that runs with no anonymous actor alive leaves no debt. -/
def PaysOff (n : Node A M) (l : Label A M) : Prop :=
  n.checking = true → l.isExec = true → n.quiet = true → ∀ ls n', n.Returns ls n' → n'.overflow = 0

/-- A check that runs with no anonymous actor alive finds no debt. -/
def DebtFree (n : Node A M) (l : Label A M) : Prop :=
  n.checking = true → l.isExec = true → n.quiet = true → n.overflow = 0

instance (n : Node A M) (l : Label A M) : Decidable (DebtFree n l) := inferInstanceAs (Decidable (_ → _))

/-- The overflow debt is paid off in the run of `ls`. -/
structure PaidOff (n₀ : Node A M) (ls : List (Label A M)) : Prop where
  paid : Lts.Along Node.step PaysOff n₀ ls
  /-- after a check with no anonymous actor alive, and as long as no more than
  `max_anonymous_actors` are started, no check makes the executor wait -/
  passes : ∀ ls₁ ls₂ ls₃ n₁ n₂, ls = ls₁ ++ (.exec .go :: ls₂ ++ ls₃) → Lts.run Node.step n₀ ls₁ = some n₁ →
    Lts.run Node.step n₁ (.exec .go :: ls₂) = some n₂ → n₁.checking = true → n₁.quiet = true →
    n₂.tally Task.isAnon ≤ n₁.tally Task.isAnon + n₁.cfg.maxAnonymousActors → n₂.checking = true →
    n₂.demand ≤ n₂.permits

theorem Task.over_permit {t : Task A M} (h : t.over = true) : t.permit = false := by
  cases t with
  | anon a => cases hk : a.kind <;> cases hpc : a.pc <;> simp_all [Task.over, Anon.over, Task.permit, Anon.permit]
  | child c | fwd f => rfl

/-- All permits are available when no anonymous actor is alive. -/
theorem Permits.quiet {n : Node A M} (hp : Permits n) (hq : n.quiet = true) : n.permits = n.cfg.maxAnonymousActors := by
  have hzero : n.tally Task.permit = 0 := by
    unfold Node.tally
    rw [List.countP_eq_zero]
    intro s hs
    rw [Task.over_permit (List.all_eq_true.1 hq s hs)]
    decide
  have hsum := hp.sum
  omega

namespace Node

theorem checking_iff {n : Node A M} : n.checking = true ↔ ∃ hand, n.pc = .check hand := by
  unfold checking
  constructor
  · intro h
    split at h
    · rename_i hand hpc
      exact ⟨hand, hpc⟩
    · cases h
  · rintro ⟨hand, hpc⟩
    rw [hpc]

theorem passCheck_overflow (n : Node A M) (hand : Option (Mail A M)) :
    (n.passCheck hand).overflow = n.overflow ∧ (n.passCheck hand).pc.acquiring = false := by
  cases hand <;> exact ⟨rfl, rfl⟩

/-- The check passes with nothing to pay, or starts to wait with what it will leave. -/
theorem checkStep_owed (n : Node A M) (hand : Option (Mail A M)) :
    (n.checkStep hand).pc.acquiring = false ∧ (n.checkStep hand).overflow = n.owed ∨
      (n.checkStep hand).pc = .acquire hand n.demand n.owed ∧ (n.checkStep hand).permits = n.permits := by
  unfold checkStep owed demand
  cases checkAnonymousActors n.cfg.maxAnonymousActors n.permits n.overflow with
  | none => exact .inl ⟨(n.passCheck_overflow hand).2, (n.passCheck_overflow hand).1⟩
  | some p => exact .inr ⟨rfl, rfl⟩

/-- Steps of everybody else leave the executor where it is. -/
theorem others_pc {n n' : Node A M} {ls : List (Label A M)} (hr : Lts.run Node.step n ls = some n')
    (hls : ∀ l ∈ ls, l.isExec = false) : n'.pc = n.pc := by
  induction ls generalizing n with
  | nil =>
    cases hr
    rfl
  | cons l ls ih =>
    obtain ⟨n₁, h, hr'⟩ := Lts.run_cons.1 hr
    rw [ih hr' fun l' hl' => hls l' (List.mem_cons_of_mem _ hl')]
    rcases step_outside h with ⟨x, rfl, -⟩ | ⟨ms, ho⟩
    · have := hls _ List.mem_cons_self
      cases this
    · exact ho.pc

/-- **The counter after a check** is what the check computed when it was called. -/
theorem Returns.overflow {n n' : Node A M} {ls : List (Label A M)} (h : n.Returns ls n') : n'.overflow = n.owed := by
  cases h with
  | atOnce _ hc h hp =>
    obtain ⟨hand, hpc⟩ := checking_iff.1 hc
    simp only [step, exec, hpc, Option.some.injEq] at h
    subst h
    rcases n.checkStep_owed hand with ⟨-, ho⟩ | ⟨hacq, -⟩
    · exact ho
    · rw [hacq] at hp
      cases hp
  | waited ls n₁ n₂ _ hc h hp hr hls h' =>
    obtain ⟨hand, hpc⟩ := checking_iff.1 hc
    simp only [step, exec, hpc, Option.some.injEq] at h
    subst h
    rcases n.checkStep_owed hand with ⟨hno, -⟩ | ⟨hacq, -⟩
    · rw [hno] at hp
      cases hp
    · have hpc₂ : n₂.pc = .acquire hand n.demand n.owed := (others_pc hr hls).trans hacq
      simp only [step, exec, hpc₂] at h'
      split at h'
      · cases h'
        exact (passCheck_overflow _ _).1
      · cases h'

/-- A check that wants no more permits than are available returns. -/
theorem returns_of_le {n : Node A M} (hc : n.checking = true) (hd : n.demand ≤ n.permits) :
    ∃ ls n', n.Returns ls n' := by
  obtain ⟨hand, hpc⟩ := checking_iff.1 hc
  have hstep : n.step (.exec .go) = some (n.checkStep hand) := by simp only [step, exec, hpc]
  rcases n.checkStep_owed hand with ⟨hno, -⟩ | ⟨hacq, hperm⟩
  · exact ⟨_, _, .atOnce _ hc hstep hno⟩
  · have hgo : (n.checkStep hand).step (.exec .go) = some (({ n.checkStep hand with overflow := n.owed }).passCheck hand) := by
      simp only [step, exec, hacq]
      rw [if_pos (by rw [hperm]; exact hd)]
    exact ⟨_, _, .waited [] _ _ _ hc hstep (by rw [hacq]; rfl) rfl (by simp) hgo⟩

/-- What the executor does to the counter. -/
theorem exec_overflow {n n' : Node A M} {x : Act A M} (hx : Exec n x n') :
    (∃ t, Starts n n' t) ∨ n'.tasks = n.tasks ∧ n'.permits = n.permits ∧
      (n'.overflow = n.overflow ∨ ∃ hand k, n.pc = .acquire hand k n'.overflow) := by
  rcases exec_split hx with ⟨o, -, ho, rfl⟩ | ⟨p, m, a, k, h, -, -, -, rfl⟩ | ⟨ht, hp, -, ho⟩
  · rcases ctxOp_tasks ho with ⟨h1, h2, h3⟩ | h
    · exact .inr ⟨h1, h2, .inl h3⟩
    · exact .inl h
  · exact .inl (anonymous_starts { n with actor := a } (.reply k h))
  · exact .inr ⟨ht, hp, ho⟩

end Node

/-- At most `max_anonymous_actors` tasks were started since there were `c` of them: all of
them have got a permit. -/
def Tracked (c : ℕ) (n : Node A M) : Prop :=
  n.tally Task.isAnon ≤ c + n.cfg.maxAnonymousActors →
    n.overflow = 0 ∧ n.pc.acquiring = false ∧ c + n.cfg.maxAnonymousActors ≤ n.permits + n.tally Task.isAnon

theorem tracked_exec {c : ℕ} {n n' : Node A M} {x : Act A M} (hi : Tracked c n) (hx : Node.Exec n x n') :
    Tracked c n' := by
  intro hle
  have hcfg := Node.exec_cfg hx
  rw [hcfg] at hle ⊢
  have hidle : n.tally Task.isAnon ≤ c + n.cfg.maxAnonymousActors → n'.pc.acquiring = false := by
    intro hle
    obtain ⟨h0, -, -⟩ := hi hle
    by_contra hacq
    unfold Pc.acquiring at hacq
    split at hacq
    · rename_i hand k rest hpc'
      -- with nothing to pay the check passes
      obtain ⟨-, rfl⟩ := exec_acquire hx hpc'
      unfold Node.checkStep at hpc'
      rw [check_eq, if_pos h0] at hpc'
      cases hand <;> cases hpc'
    · exact hacq rfl
  rcases Node.exec_overflow hx with ⟨t, hst⟩ | ⟨ht, hp, ho⟩
  · have hcount := hst.tally Task.isAnon
    obtain ⟨h0, -, hsum⟩ := hi (by omega)
    refine ⟨?_, hidle (by omega), ?_⟩
    all_goals
      cases hst.2 with
      | child id hs hp ho =>
        have hzero : (Task.isAnon (.child ⟨id, .running⟩ : Task A M)).toNat = 0 := rfl
        omega
      | tracked kind hp ho =>
        have hone : (Task.isAnon (.anon ⟨kind, true, false, kind.start⟩ : Task A M)).toNat = 1 := rfl
        omega
      | untracked kind hp hp' ho =>
        have hone : (Task.isAnon (.anon ⟨kind, false, false, kind.start⟩ : Task A M)).toNat = 1 := rfl
        omega
  · have hcount : n'.tally Task.isAnon = n.tally Task.isAnon := by unfold Node.tally; rw [ht]
    rw [hcount] at hle
    obtain ⟨h0, hacq, hsum⟩ := hi hle
    refine ⟨?_, hidle hle, by omega⟩
    rcases ho with ho | ⟨hand, k, hpc⟩
    · omega
    · rw [hpc] at hacq
      cases hacq

theorem Task.Moves.isAnon {v : View} {s t : Task A M} {l : TaskLabel A M} {e : Eff A M} (h : s.Moves v l t e) :
    t.isAnon = s.isAnon := by
  cases h <;> rfl

theorem tracked_step {c : ℕ} {n n' : Node A M} {l : Label A M} (hi : Tracked c n) (h : n.step l = some n') :
    Tracked c n' := by
  refine Node.step_keeps (I := Tracked c) hi h (fun x _ hx => tracked_exec hi hx) ?_ ?_
  · intro n₁ k tl n₂ s t e hi _ ht hle
    have hcount := ht.tally Task.isAnon
    have hperm := ht.permits
    rw [ht.moves.isAnon] at hcount
    rw [ht.outside.cfg] at hle ⊢
    obtain ⟨h0, hacq, hsum⟩ := hi (by omega)
    refine ⟨ht.outside.overflow.trans h0, by rw [ht.outside.pc]; exact hacq, ?_⟩
    omega
  · intro ms hr hle
    have hcount : n'.tally Task.isAnon = n.tally Task.isAnon := by unfold Node.tally; rw [hr.tasks]
    rw [hr.outside.cfg, hcount] at hle ⊢
    obtain ⟨h0, hacq, hsum⟩ := hi hle
    exact ⟨hr.outside.overflow.trans h0, by rw [hr.outside.pc]; exact hacq, by rw [hr.permits]; exact hsum⟩

/-- **The debt is paid off in a run if and only if** every check that runs with no anonymous
actor alive finds none. -/
theorem debt_paid (cfg : Config) (a : A) (ls : List (Label A M)) :
    PaidOff (Node.init cfg a) ls ↔ Lts.Along Node.step DebtFree (Node.init cfg a) ls := by
  -- with all permits available the check asks for none, and takes nothing off
  have hquiet : ∀ n : Node A M, Permits n → n.quiet = true → n.owed = n.overflow ∧ n.demand = 0 := by
    intro n hp hq
    rw [n.owed_eq, n.demand_eq, hp.quiet hq, Nat.sub_self, Nat.min_zero]
    exact ⟨rfl, rfl⟩
  constructor
  · intro h
    refine h.paid.of_inv (fun _ _ _ hp _ hs => permits_step hp hs) ?_ (permits_init cfg a)
    intro n l hp hpay hc hl hq
    obtain ⟨howed, hdemand⟩ := hquiet n hp hq
    obtain ⟨ls', n', hret⟩ := Node.returns_of_le hc (by omega)
    have hzero := hpay hc hl hq ls' n' hret
    rw [hret.overflow, howed] at hzero
    exact hzero
  · intro hfree
    constructor
    · refine hfree.of_inv (fun _ _ _ hp _ hs => permits_step hp hs) ?_ (permits_init cfg a)
      intro n l hp hdebt hc hl hq ls' n' hret
      rw [hret.overflow, (hquiet n hp hq).1]
      exact hdebt hc hl hq
    · intro ls₁ ls₂ ls₃ n₁ n₂ heq hr₁ hr₂ hc₁ hq₁ hle hc₂
      have hdebt : DebtFree n₁ (.exec .go) := by
        rw [heq] at hfree
        exact (hfree.drop hr₁).1
      have h0 := hdebt hc₁ rfl hq₁
      have hperm := (permits_run hr₁).quiet hq₁
      have hidle : n₁.pc.acquiring = false := by
        obtain ⟨hand, hpc⟩ := Node.checking_iff.1 hc₁
        rw [hpc]
        rfl
      have htracked : Tracked (n₁.tally Task.isAnon) n₂ := by
        apply Lts.run_inv (fun _ _ _ hi h => tracked_step hi h) _ hr₂
        exact fun _ => ⟨h0, hidle, by omega⟩
      have hcfg : n₂.cfg = n₁.cfg := by
        rw [Node.cfg_run hr₁, Node.cfg_run (Lts.run_append.2 ⟨n₁, hr₁, hr₂⟩)]
      obtain ⟨h0₂, -, -⟩ := htracked (by rw [hcfg]; exact hle)
      rw [n₂.demand_eq, h0₂, Nat.zero_min, Nat.zero_mod]
      exact Nat.zero_le _

/-- With a limit of one, three tasks are started, and all of them have ended when the first
message is handled. Its handler starts one task. -/
def debtRun : List (Label Unit ℕ) :=
  [.exec (.op .anonymousTask), .exec (.op .anonymousTask), .exec (.op .anonymousTask), .exec (.ret ()),
    .send (.user 0)] ++ endOf 0 ++ endOf 1 ++ endOf 2 ++ [.exec .recv]

def nextRun : List (Label Unit ℕ) :=
  [.exec .go, .exec .go, .exec .go, .exec (.ret ()), .exec (.op .anonymousTask), .exec (.ret ()), .exec (.ret ()),
    .exec .recv]

/-- **The debt of a burst is never paid**: the check that runs when all three tasks have
ended leaves two, and the next one waits although only one task was started since. -/
theorem debt_remains :
    ∃ n n' : Node Unit ℕ, Lts.run Node.step (Node.init ⟨4, 1, false, []⟩ ()) debtRun = some n ∧
      Lts.run Node.step n nextRun = some n' ∧ n.checking = true ∧ n.quiet = true ∧
      (∃ n₁, n.Returns [.exec .go, .exec .go] n₁ ∧ n₁.overflow = 2) ∧
      n'.checking = true ∧ n'.demand = 1 ∧ n'.permits = 0 ∧
      ¬ PaidOff (Node.init ⟨4, 1, false, []⟩ ()) (debtRun ++ nextRun) := by
  have hr : ∃ n n' : Node Unit ℕ, Lts.run Node.step (Node.init ⟨4, 1, false, []⟩ ()) debtRun = some n ∧
      Lts.run Node.step n nextRun = some n' ∧ n.checking = true ∧ n.quiet = true ∧
      (∃ n₁, n.Returns [.exec .go, .exec .go] n₁ ∧ n₁.overflow = 2) ∧
      n'.checking = true ∧ n'.demand = 1 ∧ n'.permits = 0 :=
    ⟨_, _, rfl, rfl, rfl, rfl, ⟨_, .waited [] _ _ _ rfl rfl rfl rfl (by simp) rfl, rfl⟩, rfl, rfl, rfl⟩
  obtain ⟨n, n', hr, hr', hc, hq, ⟨n₁, hret, hover⟩, hrest⟩ := hr
  refine ⟨n, n', hr, hr', hc, hq, ⟨n₁, hret, hover⟩, hrest.1, hrest.2.1, hrest.2.2, fun h => ?_⟩
  have hpay := (h.paid.drop hr).1 hc rfl hq _ n₁ hret
  rw [hover] at hpay
  cases hpay

end Tokactor
