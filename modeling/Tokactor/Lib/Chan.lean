import Mathlib.Data.List.Basic

/-!
# Bounded first-in first-out channels

A channel with a bounded queue, a flag that closes it for senders, and the history
of what it accepted and what was taken out of it. The two facts that make it a
channel are fields: the queue never exceeds the bound, and what was accepted is
what was taken followed by what is still queued, in that order.
-/

/-- A bounded channel carrying its history. -/
structure Chan (α : Type*) where
  cap : ℕ
  queue : List α
  closed : Bool
  accepted : List α
  taken : List α
  bound : queue.length ≤ cap
  history : accepted = taken ++ queue

namespace Chan

variable {α : Type*}

/-- An open, empty channel. -/
def new (cap : ℕ) : Chan α := ⟨cap, [], false, [], [], Nat.zero_le _, rfl⟩

/-- There is no slot left. -/
def full (c : Chan α) : Bool := c.cap ≤ c.queue.length

/-- Slots left. -/
def free (c : Chan α) : ℕ := c.cap - c.queue.length

/-- Put `a` at the end of the queue, when the channel is open and has a slot. -/
def push (c : Chan α) (a : α) : Option (Chan α) :=
  if h : c.closed = false ∧ c.queue.length < c.cap then
    some { c with
      queue := c.queue ++ [a]
      accepted := c.accepted ++ [a]
      bound := by rw [List.length_append]; exact h.2
      history := by rw [c.history, List.append_assoc] }
  else none

/-- Take the head of the queue, also after the channel was closed. -/
def pop (c : Chan α) : Option (α × Chan α) :=
  match h : c.queue with
  | [] => none
  | a :: q => some (a, { c with
      queue := q
      taken := c.taken ++ [a]
      bound := by have := c.bound; rw [h] at this; exact Nat.le_of_succ_le this
      history := by rw [c.history, h]; simp })

/-- Refuse every later `push`; the queue stays. -/
def close (c : Chan α) : Chan α := { c with closed := true }

@[simp] theorem new_accepted (n : ℕ) : (new n : Chan α).accepted = [] := rfl
@[simp] theorem new_taken (n : ℕ) : (new n : Chan α).taken = [] := rfl
@[simp] theorem new_queue (n : ℕ) : (new n : Chan α).queue = [] := rfl
@[simp] theorem new_closed (n : ℕ) : (new n : Chan α).closed = false := rfl
@[simp] theorem new_cap (n : ℕ) : (new n : Chan α).cap = n := rfl

@[simp] theorem close_accepted (c : Chan α) : c.close.accepted = c.accepted := rfl
@[simp] theorem close_taken (c : Chan α) : c.close.taken = c.taken := rfl
@[simp] theorem close_queue (c : Chan α) : c.close.queue = c.queue := rfl
@[simp] theorem close_closed (c : Chan α) : c.close.closed = true := rfl
@[simp] theorem close_cap (c : Chan α) : c.close.cap = c.cap := rfl
@[simp] theorem close_free (c : Chan α) : c.close.free = c.free := rfl

/-- All that a `push` does. -/
theorem push_cases {c c' : Chan α} {a : α} (h : c.push a = some c') :
    c.closed = false ∧ c.queue.length < c.cap ∧ c'.cap = c.cap ∧ c'.closed = false ∧
      c'.queue = c.queue ++ [a] ∧ c'.accepted = c.accepted ++ [a] ∧ c'.taken = c.taken := by
  unfold push at h
  split at h
  · rename_i hc
    cases h
    exact ⟨hc.1, hc.2, rfl, hc.1, rfl, rfl, rfl⟩
  · cases h

/-- All that a `pop` does. -/
theorem pop_cases {c c' : Chan α} {a : α} (h : c.pop = some (a, c')) :
    c.queue = a :: c'.queue ∧ c'.cap = c.cap ∧ c'.closed = c.closed ∧
      c'.accepted = c.accepted ∧ c'.taken = c.taken ++ [a] := by
  unfold pop at h
  split at h
  · cases h
  · rename_i b q hq
    cases h
    exact ⟨hq, rfl, rfl, rfl, rfl⟩

/-- A message that is queued can be taken. -/
theorem pop_of_cons {c : Chan α} {a : α} {q : List α} (h : c.queue = a :: q) : ∃ p, c.pop = some p := by
  unfold pop
  split
  · rename_i hq
    rw [h] at hq
    cases hq
  · exact ⟨_, rfl⟩

theorem pop_none {c : Chan α} (h : c.pop = none) : c.queue = [] := by
  unfold pop at h
  split at h
  · assumption
  · cases h

theorem full_free {c : Chan α} (h : c.full = true) : c.free = 0 := by
  unfold full at h; unfold free
  simp only [decide_eq_true_eq] at h
  omega

/-- Once the queue is empty, everything accepted has been taken, in order. -/
theorem taken_eq {c : Chan α} (h : c.queue = []) : c.taken = c.accepted := by
  rw [c.history, h, List.append_nil]

/-- `c'` is `c` with `ms` accepted on top. -/
structure Grown (ms : List α) (c c' : Chan α) : Prop where
  cap : c'.cap = c.cap
  closed : c'.closed = c.closed
  taken : c'.taken = c.taken
  queue : c'.queue = c.queue ++ ms
  accepted : c'.accepted = c.accepted ++ ms
  opened : c.closed = true → ms = []

theorem Grown.refl (c : Chan α) : Grown [] c c :=
  ⟨rfl, rfl, rfl, by simp, by simp, fun _ => rfl⟩

theorem Grown.of_push {c c' : Chan α} {a : α} (h : c.push a = some c') : Grown [a] c c' := by
  obtain ⟨hc, -, h1, h2, h3, h4, h5⟩ := push_cases h
  exact ⟨h1, by rw [h2, hc], h5, h3, h4, fun h => by rw [hc] at h; cases h⟩

theorem Grown.trans {ms ms' : List α} {c c' c'' : Chan α} (h : Grown ms c c') (h' : Grown ms' c' c'') :
    Grown (ms ++ ms') c c'' where
  cap := h'.cap.trans h.cap
  closed := h'.closed.trans h.closed
  taken := h'.taken.trans h.taken
  queue := by rw [h'.queue, h.queue, List.append_assoc]
  accepted := by rw [h'.accepted, h.accepted, List.append_assoc]
  opened hc := by rw [h.opened hc, h'.opened (h.closed.trans hc), List.append_nil]

theorem Grown.free {ms : List α} {c c' : Chan α} (h : Grown ms c c') : c'.free + ms.length = c.free := by
  have hb := c'.bound
  have hq := congrArg List.length h.queue
  rw [List.length_append] at hq
  unfold Chan.free
  rw [h.cap] at *
  omega

/-- A closed channel does not grow. -/
theorem Grown.queue_eq {ms : List α} {c c' : Chan α} (h : Grown ms c c') (hc : c.closed = true) :
    c'.queue = c.queue := by
  rw [h.queue, h.opened hc, List.append_nil]

end Chan
