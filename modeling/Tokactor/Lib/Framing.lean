import Mathlib.Data.List.Basic
import Mathlib.Data.List.Forall2
import Mathlib.Data.Nat.Find

/-!
# Words cut out of a stream that comes in chunks

A `Codec` recognises a word at the head of a buffer as soon as it is complete; many words may
stand for one object. `gather` fills a buffer chunk by chunk, and starts with an empty one after
each word it has recognised: what followed the word in its last chunk is lost.

* `ofParse`: the words of a parser that keeps to what it has recognised.
* `scan_eq`: what `gather` finds, chunk by chunk.
* `gather_iff`: what `gather` finds, told by the words that stand in the chunks.
* `Aligned.fits`, `Fits.aligned`: of a stream of words it finds all objects when every word is
  made of whole chunks, and only then if no object has words of different lengths.
* `Inside.concat`: nothing is lost as long as no chunk reaches behind the next word.
-/

/-- Of pieces that are not empty, more pieces are longer. -/
theorem flatten_take_le {α : Type*} {xs : List (List α)} {k n : ℕ} (hne : ∀ x ∈ xs, x ≠ []) (hk : k ≤ xs.length)
    (h : (xs.take k).flatten <+: (xs.take n).flatten) : k ≤ n := by
  by_contra hlt
  obtain ⟨rest, hrest⟩ := List.take_prefix_take_left (l := xs) (show n + 1 ≤ k by omega)
  have hlen := h.length_le
  rw [← hrest, List.flatten_append, List.take_succ_eq_append_getElem (by omega), List.flatten_append] at hlen
  have hpos := List.length_pos_of_ne_nil (hne xs[n] (List.getElem_mem _))
  simp only [List.length_append, List.flatten_cons, List.flatten_nil, List.length_nil] at hlen
  omega

theorem flatten_take_mono {α : Type*} {xs : List (List α)} {k n : ℕ} (h : k ≤ n) :
    (xs.take k).flatten <+: (xs.take n).flatten := by
  obtain ⟨rest, hrest⟩ := List.take_prefix_take_left (l := xs) h
  rw [← hrest, List.flatten_append]
  exact List.prefix_append _ _

/-- The words that stand for an object, none of which is the beginning of another one, and how
they are recognised at the head of a buffer. -/
structure Codec (α R : Type*) where
  /-- the word `w` stands for `r`, perhaps as one of many -/
  Encodes : List α → R → Prop
  parse : List α → Option R
  free : ∀ w w' r r', Encodes w r → Encodes w' r' → w <+: w' → w = w'
  spec : ∀ b r, parse b = some r ↔ ∃ w, Encodes w r ∧ w <+: b

namespace Codec

variable {α R : Type*}

/-- Every parser that keeps to what it has recognised, whatever comes behind it, has its words:
the buffers that are complete with their last letter. -/
def ofParse (parse : List α → Option R) (keeps : ∀ b b' r, parse b = some r → b <+: b' → parse b' = some r) :
    Codec α R where
  Encodes w r := parse w = some r ∧ ∀ k < w.length, parse (w.take k) = none
  parse := parse
  free := by
    rintro w w' r r' ⟨hw, -⟩ ⟨-, hpart⟩ hle
    by_contra hne
    have hlt : w.length < w'.length := Nat.lt_of_le_of_ne hle.length_le fun h => hne (hle.eq_of_length h)
    have hnone := hpart w.length hlt
    rw [← List.prefix_iff_eq_take.1 hle, hw] at hnone
    cases hnone
  spec := by
    intro b r
    constructor
    · intro h
      -- the first of its beginnings that is recognised
      have hex : ∃ k, ∃ r', parse (b.take k) = some r' := ⟨b.length, r, by rwa [List.take_length]⟩
      classical
      obtain ⟨r', hr'⟩ := Nat.find_spec hex
      have heq := keeps _ b r' hr' (List.take_prefix _ b)
      rw [h] at heq
      obtain rfl := Option.some.inj heq
      refine ⟨_, ⟨hr', fun k hk => ?_⟩, List.take_prefix _ b⟩
      rw [List.length_take] at hk
      rw [List.take_take, Nat.min_eq_left (by omega)]
      have hmin := Nat.find_min hex (show k < Nat.find hex by omega)
      exact Option.eq_none_iff_forall_ne_some.2 fun r' h => hmin ⟨r', h⟩
    · rintro ⟨w, ⟨hw, -⟩, hle⟩
      exact keeps w b r hw hle

variable (c : Codec α R)

/-- The objects found in the chunks, when `acc` is in the buffer. -/
def gather : List α → List (List α) → List R
  | _, [] => []
  | acc, ch :: cs =>
    match c.parse (acc ++ ch) with
    | some r => r :: gather [] cs
    | none => gather (acc ++ ch) cs

/-- The chunks `g` begin with a word for `r`, which comes to its end in the last one. -/
def Completes (g : List (List α)) (r : R) : Prop :=
  ∃ w, c.Encodes w r ∧ w <+: g.flatten ∧ g.dropLast.flatten.length < w.length

/-- The chunks fall into groups, one for each object, that begin with a word for it, and perhaps
some more that do not begin with a word. -/
def Fits (cs : List (List α)) (rs : List R) : Prop :=
  ∃ gs rest, cs = gs.flatten ++ rest ∧ List.Forall₂ c.Completes gs rs ∧
    ∀ w r, c.Encodes w r → w <+: rest.flatten → w = []

/-- Every word is made of whole chunks: the chunks fall into groups, one for each word. -/
def Aligned (cs ws : List (List α)) : Prop :=
  ∃ gs : List (List (List α)), gs.flatten = cs ∧ List.Forall₂ (fun g w => g ≠ [] ∧ g.flatten = w) gs ws

/-- The words for an object are all of one length. -/
def Uniform : Prop := ∀ w w' r, c.Encodes w r → c.Encodes w' r → w.length = w'.length

variable {c} {acc ch b b' w w' : List α} {cs ws : List (List α)} {r r' : R} {rs : List R}

/-- A buffer begins with one word at most. -/
theorem word_eq (hw : c.Encodes w r) (hw' : c.Encodes w' r') (h : w <+: b) (h' : w' <+: b) : w = w' := by
  rcases List.prefix_or_prefix_of_prefix h h' with hle | hle
  · exact c.free w w' r r' hw hw' hle
  · exact (c.free w' w r' r hw' hw hle).symm

theorem parse_word (hw : c.Encodes w r) (h : w <+: b) : c.parse b = some r := (c.spec b r).2 ⟨w, hw, h⟩

theorem parse_none : c.parse b = none ↔ ∀ w r, c.Encodes w r → ¬ w <+: b := by
  constructor
  · intro h w r hw hb
    rw [parse_word hw hb] at h
    cases h
  · intro h
    cases hp : c.parse b with
    | none => rfl
    | some r =>
      obtain ⟨w, hw, hb⟩ := (c.spec b r).1 hp
      exact absurd hb (h w r hw)

theorem parse_none_mono (h : b <+: b') (hb : c.parse b' = none) : c.parse b = none :=
  parse_none.2 fun w r hw hle => parse_none.1 hb w r hw (hle.trans h)

/-- No word is recognised before it is complete. -/
theorem parse_partial (hw : c.Encodes w r) (h : b <+: w) (hlt : b.length < w.length) : c.parse b = none := by
  refine parse_none.2 fun w' r' hw' hb => ?_
  have heq := c.free w' w r' r hw' hw (hb.trans h)
  have hle := hb.length_le
  rw [heq] at hle
  omega

/-! ## What is found -/

theorem gather_none (h : c.parse (acc ++ cs.flatten) = none) : c.gather acc cs = [] := by
  induction cs generalizing acc with
  | nil => rfl
  | cons ch cs ih =>
    rw [List.flatten_cons, ← List.append_assoc] at h
    rw [gather, parse_none_mono (List.prefix_append _ _) h]
    exact ih h

/-- The word that is complete with the chunk `ch` is found, and what is behind it there is lost. -/
theorem gather_word {g : List (List α)} (hacc : c.parse (acc ++ g.flatten) = none)
    (h : c.parse (acc ++ g.flatten ++ ch) = some r) (cs : List (List α)) :
    c.gather acc (g ++ ch :: cs) = r :: c.gather [] cs := by
  induction g generalizing acc with
  | nil =>
    rw [List.flatten_nil, List.append_nil] at h
    rw [List.nil_append, gather, h]
  | cons x g ih =>
    rw [List.flatten_cons, ← List.append_assoc] at hacc h
    rw [List.cons_append, gather, parse_none_mono (List.prefix_append _ _) hacc]
    exact ih hacc h

/-- Either the chunks do not begin with a word, or there is the one it is complete with. -/
theorem first_word (cs : List (List α)) (hacc : c.parse acc = none) :
    c.parse (acc ++ cs.flatten) = none ∨ ∃ g ch cs' r, cs = g ++ ch :: cs' ∧
      c.parse (acc ++ g.flatten) = none ∧ c.parse (acc ++ g.flatten ++ ch) = some r := by
  induction cs generalizing acc with
  | nil => exact .inl (by rwa [List.flatten_nil, List.append_nil])
  | cons ch cs ih =>
    cases hp : c.parse (acc ++ ch) with
    | some r => exact .inr ⟨[], ch, cs, r, rfl, by rwa [List.flatten_nil, List.append_nil], by simpa using hp⟩
    | none =>
      rw [List.flatten_cons, ← List.append_assoc]
      rcases ih hp with h | ⟨g, ch', cs', r, rfl, hg, hr⟩
      · exact .inl h
      · exact .inr ⟨ch :: g, ch', cs', r, rfl, by simpa using hg, by simpa using hr⟩

theorem completes_iff {g : List (List α)} :
    c.Completes (g ++ [ch]) r ↔ c.parse g.flatten = none ∧ c.parse (g.flatten ++ ch) = some r := by
  have hflat : (g ++ [ch]).flatten = g.flatten ++ ch := by simp
  unfold Completes
  rw [hflat, List.dropLast_concat]
  constructor
  · rintro ⟨w, hw, hle, hlt⟩
    refine ⟨parse_none.2 fun w' r' hw' hg => ?_, parse_word hw hle⟩
    have heq := word_eq hw hw' hle (hg.trans (List.prefix_append _ _))
    have hlen := hg.length_le
    rw [← heq] at hlen
    omega
  · rintro ⟨hnone, hsome⟩
    obtain ⟨w, hw, hle⟩ := (c.spec _ r).1 hsome
    refine ⟨w, hw, hle, Nat.lt_of_not_le fun hlen => parse_none.1 hnone w r hw ?_⟩
    exact List.prefix_of_prefix_length_le hle (List.prefix_append _ _) hlen

theorem Completes.concat {g : List (List α)} (h : c.Completes g r) : ∃ g' ch, g = g' ++ [ch] := by
  rcases List.eq_nil_or_concat g with rfl | ⟨g', ch, rfl⟩
  · obtain ⟨w, -, hle, hlt⟩ := h
    rw [List.prefix_nil.1 hle] at hlt
    cases hlt
  · exact ⟨g', ch, by simp⟩

theorem gather_groups {gs : List (List (List α))} (h : List.Forall₂ c.Completes gs rs) (rest : List (List α)) :
    c.gather [] (gs.flatten ++ rest) = rs ++ c.gather [] rest := by
  induction h with
  | nil => rfl
  | @cons g r gs rs hg hgs ih =>
    obtain ⟨g', ch, rfl⟩ := hg.concat
    obtain ⟨hnone, hsome⟩ := completes_iff.1 hg
    have hcons : (((g' ++ [ch]) :: gs).flatten ++ rest) = g' ++ ch :: (gs.flatten ++ rest) := by simp
    rw [hcons, gather_word (by rwa [List.nil_append]) (by rwa [List.nil_append]), ih]
    rfl

theorem gather_fits (hcs : cs = [] ∨ ∀ w r, c.Encodes w r → w ≠ []) : c.gather [] cs = rs ↔ c.Fits cs rs := by
  rcases hcs with rfl | hne
  · constructor
    · rintro rfl
      exact ⟨[], [], rfl, .nil, fun w r _ h => List.prefix_nil.1 h⟩
    · rintro ⟨gs, rest, hcs, hgs, -⟩
      obtain ⟨hnil, hrest⟩ := List.append_eq_nil_iff.1 hcs.symm
      have := gather_groups hgs rest
      rw [hnil, hrest] at this
      exact (List.append_nil rs) ▸ this
  constructor
  · have hstart : c.parse [] = none := parse_none.2 fun w r hw h => hne w r hw (List.prefix_nil.1 h)
    intro h
    induction rs generalizing cs with
    | nil =>
      refine ⟨[], cs, rfl, .nil, fun w r hw hle => ?_⟩
      rcases first_word cs hstart with hnone | ⟨g, ch, cs', r', rfl, hg, hr⟩
      · exact absurd hle (parse_none.1 hnone w r hw)
      · rw [gather_word hg hr] at h
        cases h
    | cons r rs ih =>
      rcases first_word cs hstart with hnone | ⟨g, ch, cs', r', rfl, hg, hr⟩
      · rw [gather_none hnone] at h
        cases h
      · rw [gather_word hg hr] at h
        obtain ⟨rfl, hrest⟩ := List.cons.inj h
        obtain ⟨gs, rest, rfl, hgs, hlast⟩ := ih hrest
        exact ⟨(g ++ [ch]) :: gs, rest, by simp, .cons (completes_iff.2 ⟨hg, hr⟩) hgs, hlast⟩
  · rintro ⟨gs, rest, rfl, hgs, hlast⟩
    have hnone : c.parse ([] ++ rest.flatten) = none :=
      parse_none.2 fun w r hw hle => hne w r hw (hlast w r hw hle)
    rw [gather_groups hgs, gather_none hnone, List.append_nil]

/-! ## A stream of words -/

/-- Beside the empty word there is no other one. -/
theorem stream_nil (hw : List.Forall₂ c.Encodes ws rs) (h : c.Encodes [] r) : ws.flatten = [] := by
  induction hw with
  | nil => rfl
  | cons hr hw ih => rw [List.flatten_cons, ih, ← c.free [] _ r _ h hr List.nil_prefix, List.append_nil]

/-- **What is found in a stream of words**: one object in each group of chunks that begins with a
word for it. -/
theorem gather_iff (hne : ∀ ch ∈ cs, ch ≠ []) (hw : List.Forall₂ c.Encodes ws rs) (h : cs.flatten = ws.flatten) :
    c.gather [] cs = rs ↔ c.Fits cs rs := by
  refine gather_fits (or_iff_not_imp_right.2 fun hempty => ?_)
  simp only [not_forall, not_not] at hempty
  obtain ⟨w, r, hr, rfl⟩ := hempty
  rw [stream_nil hw hr] at h
  exact List.eq_nil_iff_forall_not_mem.2 fun ch hch => hne ch hch (List.flatten_eq_nil_iff.1 h ch hch)

/-- **Words in whole chunks are found.** -/
theorem Aligned.fits (hne : ∀ ch ∈ cs, ch ≠ []) (hw : List.Forall₂ c.Encodes ws rs) (h : Aligned cs ws) :
    c.Fits cs rs := by
  obtain ⟨gs, rfl, hgs⟩ := h
  refine ⟨gs, [], (List.append_nil _).symm, ?_, fun w r _ h => List.prefix_nil.1 h⟩
  induction hgs generalizing rs with
  | nil =>
    cases hw
    exact .nil
  | @cons g w gs ws hg hgs ih =>
    rw [List.flatten_cons] at hne
    cases hw with
    | cons hr hw =>
      refine .cons ⟨w, hr, ⟨[], by rw [List.append_nil, hg.2]⟩, ?_⟩
        (ih hw fun ch h => hne ch (List.mem_append_right _ h))
      obtain ⟨g', ch, rfl⟩ := (List.eq_nil_or_concat g).resolve_left hg.1
      have hpos := List.length_pos_of_ne_nil (hne ch (by simp))
      rw [← hg.2]
      simp
      omega

theorem flatten_length_le {gs : List (List (List α))}
    (h : List.Forall₂ (fun g w => w.length ≤ g.flatten.length) gs ws) : ws.flatten.length ≤ gs.flatten.flatten.length := by
  induction h with
  | nil => exact Nat.le_refl _
  | cons hg hgs ih =>
    rw [List.flatten_cons, List.flatten_cons, List.flatten_append, List.length_append, List.length_append]
    omega

/-- Groups that are no shorter than their words, and no longer all together, are these words. -/
theorem groups_eq {gs : List (List (List α))} {rest : List α}
    (h : List.Forall₂ (fun g w => w.length ≤ g.flatten.length) gs ws) (heq : gs.flatten.flatten ++ rest = ws.flatten) :
    List.Forall₂ (fun g w => g.flatten = w) gs ws ∧ rest = [] := by
  induction h with
  | nil => exact ⟨.nil, by simpa using heq⟩
  | @cons g w gs ws hg hgs ih =>
    rw [List.flatten_cons, List.flatten_cons, List.flatten_append, List.append_assoc] at heq
    have hle := flatten_length_le hgs
    have hlen := congrArg List.length heq
    simp only [List.length_append] at hlen
    obtain ⟨hword, htail⟩ := List.append_inj heq (by omega)
    obtain ⟨hwords, hrest⟩ := ih htail
    exact ⟨.cons hword hwords, hrest⟩

/-- And only these, when the words for an object are all of one length. -/
theorem Fits.aligned (hu : c.Uniform) (hne : ∀ ch ∈ cs, ch ≠ []) (hw : List.Forall₂ c.Encodes ws rs)
    (hstream : cs.flatten = ws.flatten) (h : c.Fits cs rs) : Aligned cs ws := by
  obtain ⟨gs, rest, rfl, hgs, -⟩ := h
  have hlong : (∀ g ∈ gs, g ≠ []) ∧ List.Forall₂ (fun g w => w.length ≤ g.flatten.length) gs ws := by
    rw [← List.forall₂_and_left]
    clear hstream hne
    induction hgs generalizing ws with
    | nil =>
      cases hw
      exact .nil
    | @cons g r gs rs hg hgs ih =>
      cases hw with
      | cons hr hw =>
        obtain ⟨g', ch, rfl⟩ := hg.concat
        obtain ⟨w', hw', hle, -⟩ := hg
        exact .cons ⟨by simp, by rw [hu _ w' r hr hw']; exact hle.length_le⟩ (ih hw)
  rw [List.flatten_append] at hstream
  obtain ⟨hwords, hnil⟩ := groups_eq hlong.2 hstream
  have hrest : rest = [] := by
    refine List.eq_nil_iff_forall_not_mem.2 fun ch hch => hne ch (List.mem_append_right _ hch) ?_
    exact List.flatten_eq_nil_iff.1 hnil ch hch
  subst hrest
  refine ⟨gs, (List.append_nil _).symm, ?_⟩
  exact (List.forall₂_and_left gs ws).2 ⟨hlong.1, hwords⟩

/-! ## Chunk by chunk -/

variable (c) in
/-- The objects found so far and the buffer, after one more chunk. -/
def scanStep (st : List R × List α) (ch : List α) : List R × List α :=
  match c.parse (st.2 ++ ch) with
  | some r => (st.1 ++ [r], [])
  | none => (st.1, st.2 ++ ch)

variable (c) in
/-- The objects found in the chunks, and what is left in the buffer. -/
def scan (cs : List (List α)) : List R × List α := cs.foldl c.scanStep ([], [])

theorem scan_concat (cs : List (List α)) (ch : List α) : c.scan (cs ++ [ch]) = c.scanStep (c.scan cs) ch := by
  unfold scan
  rw [List.foldl_append]
  rfl

theorem scan_length_le (cs : List (List α)) (ch : List α) : (c.scan cs).1.length ≤ (c.scan (cs ++ [ch])).1.length := by
  rw [scan_concat, scanStep]
  split
  · rw [List.length_append]
    omega
  · exact Nat.le_refl _

theorem scan_eq (cs : List (List α)) : (c.scan cs).1 = c.gather [] cs := by
  have key : ∀ (cs : List (List α)) (st : List R × List α),
      (cs.foldl c.scanStep st).1 = st.1 ++ c.gather st.2 cs := by
    intro cs
    induction cs with
    | nil => intro st; simp [gather]
    | cons ch cs ih =>
      intro st
      rw [List.foldl_cons, ih, gather, scanStep]
      cases c.parse (st.2 ++ ch) <;> simp
  exact key cs ([], [])

/-! ## One word at a time -/

variable (c) in
/-- The objects found in the chunks are the first of `rs`, and nothing is lost: the buffer holds
what came behind their words, a part of the next word. -/
structure Inside (ws : List (List α)) (rs : List R) (cs : List (List α)) : Prop where
  found : (c.scan cs).1 <+: rs
  chunks : cs.flatten = (ws.take (c.scan cs).1.length).flatten ++ (c.scan cs).2
  buffer : (c.scan cs).2 = [] ∨
    ∃ w, ws[(c.scan cs).1.length]? = some w ∧ (c.scan cs).2 <+: w ∧ (c.scan cs).2 ≠ w

theorem inside_nil (ws : List (List α)) (rs : List R) : c.Inside ws rs [] :=
  ⟨List.nil_prefix, rfl, .inl rfl⟩

/-- **A chunk that does not reach behind the next word loses nothing.** -/
theorem Inside.concat (hw : List.Forall₂ c.Encodes ws rs) (h : c.Inside ws rs cs) (hne : ch ≠ [])
    (hch : cs.flatten ++ ch <+: (ws.take ((c.scan cs).1.length + 1)).flatten) : c.Inside ws rs (cs ++ [ch]) := by
  have hflat : (cs ++ [ch]).flatten = (ws.take (c.scan cs).1.length).flatten ++ ((c.scan cs).2 ++ ch) := by
    rw [List.flatten_append, h.chunks, List.append_assoc]
    simp
  have hfound := List.prefix_iff_eq_take.1 h.found
  have hbound := h.found.length_le
  rw [← hw.length_eq] at hbound
  generalize hm : (c.scan cs).1.length = m at *
  rcases Nat.lt_or_ge m ws.length with hlt | hge
  · have hlt' : m < rs.length := hw.length_eq ▸ hlt
    have henc : c.Encodes ws[m] rs[m] := hw.get hlt hlt'
    have hget : ws[m]? = some ws[m] := List.getElem?_eq_getElem hlt
    have hword : (c.scan cs).2 ++ ch <+: ws[m] := by
      rw [h.chunks, hm, List.take_succ_eq_append_getElem hlt, List.flatten_append, List.append_assoc,
        List.prefix_append_right_inj] at hch
      simpa using hch
    by_cases hfull : (c.scan cs).2 ++ ch = ws[m]
    · have hscan : c.scan (cs ++ [ch]) = (rs.take (m + 1), []) := by
        rw [scan_concat, scanStep, hfull, parse_word henc (List.prefix_refl _), hfound,
          List.take_succ_eq_append_getElem hlt']
      have hlen : (rs.take (m + 1)).length = m + 1 := by
        rw [List.length_take]
        omega
      refine ⟨by rw [hscan]; exact List.take_prefix _ _, ?_, .inl (by rw [hscan])⟩
      rw [hflat, hscan, hfull, hlen, List.take_succ_eq_append_getElem hlt, List.flatten_append]
      simp
    · have hshort : ((c.scan cs).2 ++ ch).length < ws[m].length :=
        Nat.lt_of_le_of_ne hword.length_le fun h => hfull (hword.eq_of_length h)
      have hscan : c.scan (cs ++ [ch]) = ((c.scan cs).1, (c.scan cs).2 ++ ch) := by
        rw [scan_concat, scanStep, parse_partial henc hword hshort]
      refine ⟨by rw [hscan]; exact h.found, ?_, .inr ⟨ws[m], ?_, ?_, ?_⟩⟩
      · rw [hflat, hscan, hm]
      · rw [hscan, hm, hget]
      · rw [hscan]
        exact hword
      · rw [hscan]
        exact hfull
  · -- there is no next word
    rw [h.chunks, hm, List.take_of_length_le (show ws.length ≤ m + 1 by omega), List.take_of_length_le hge,
      List.append_assoc] at hch
    have hle := hch.length_le
    have hpos := List.length_pos_of_ne_nil hne
    simp only [List.length_append] at hle
    omega

/-- When the chunks end where a word ends, all objects up to there were found. -/
theorem Inside.all {k : ℕ} (hw : List.Forall₂ c.Encodes ws rs) (h : c.Inside ws rs cs) (hk : k ≤ ws.length)
    (hne : ∀ w ∈ ws, w ≠ []) (hend : cs.flatten = (ws.take k).flatten) : (c.scan cs).1 = rs.take k := by
  have hfound := List.prefix_iff_eq_take.1 h.found
  have hbound := h.found.length_le
  have hchunks := h.chunks
  rw [← hw.length_eq] at hbound
  rw [hend] at hchunks
  generalize hn : (c.scan cs).1.length = n at *
  rcases Nat.lt_trichotomy n k with hlt | rfl | hgt
  · -- the buffer would hold a whole word
    have hget : ws[n]? = some ws[n] := List.getElem?_eq_getElem (by omega)
    obtain ⟨rest, hrest⟩ := List.take_prefix_take_left (l := ws) (show n + 1 ≤ k by omega)
    rw [← hrest, List.flatten_append, List.take_succ_eq_append_getElem (by omega), List.flatten_append,
      List.append_assoc, List.append_cancel_left_eq] at hchunks
    have hlen := congrArg List.length hchunks
    have hpos := List.length_pos_of_ne_nil (hne ws[n] (List.getElem_mem _))
    simp only [List.length_append, List.flatten_cons, List.flatten_nil, List.length_nil] at hlen
    rcases h.buffer with hnil | ⟨w, hnext, hpre, hneq⟩
    · rw [hnil, List.length_nil] at hlen
      omega
    · rw [hn, hget] at hnext
      cases hnext
      have hle := hpre.length_le
      exact absurd (hpre.eq_of_length (by omega)) hneq
  · exact hfound
  · -- and here more words than there are
    have hpre : (ws.take n).flatten <+: (ws.take k).flatten := by
      rw [hchunks]
      exact List.prefix_append _ _
    have := flatten_take_le hne hbound hpre
    omega

end Codec

/-! ## Cutting a stream -/

/-- The chunks of the given sizes. -/
def cut {α : Type*} : List ℕ → List α → List (List α)
  | [], _ => []
  | k :: ks, bs => bs.take k :: cut ks (bs.drop k)

theorem cut_lengths {α : Type*} (cs : List (List α)) (rest : List α) :
    cut (cs.map List.length) (cs.flatten ++ rest) = cs := by
  induction cs with
  | nil => rfl
  | cons ch cs ih =>
    rw [List.map_cons, List.flatten_cons, cut, List.append_assoc, List.take_left, List.drop_left, ih]
