import Tokactor.Proof.Reader

/-!
# Requests and chunks

A payload gathers the chunks of one request. The next request gets a fresh one: what the
last chunk held behind the first request is lost.

* `Gathers`: the receivers that recognise a request as soon as it is complete.
* `requests_decoded`: the calls of `Reader::read` return the requests of the stream if and
  only if the chunks that each of them needs begin with its word, as those do that make up
  whole requests.
-/

namespace Tokactor

variable {len : ℕ} {P R : Type}

/-- `recv` appends the frame to what is buffered, and returns the request that it starts with
as soon as that is complete. -/
structure Gathers (d : DataFrameReceiver len P R) (request : Codec UInt8 R) (buffer : P → List UInt8) : Prop where
  default : buffer d.default = []
  data : ∀ p f, buffer (d.recv p f).1 = buffer p ++ f.frame
  object : ∀ p f, (d.recv p f).2 = request.parse (buffer p ++ f.frame)

theorem data_gathers (len : ℕ) (request : Codec UInt8 R) : Gathers (Data len request) request id :=
  ⟨rfl, fun _ _ => rfl, fun _ _ => rfl⟩

/-- The request a call of `Reader::read` returned. -/
def ReadCall.object : ReadCall R → Option R
  | .response object => some object
  | _ => none

/-- The supervisor sends nothing, no caller goes away, and the socket does not fail. -/
def ReaderLabel.quiet : ReaderLabel → Bool
  | .notify _ | .died | .giveUp _ | .frame _ (.error _) => false
  | _ => true

namespace ReaderActor

/-- The requests returned by the calls of `Reader::read`, in their order. -/
def returned (n : ReaderActor len P R) : List R := n.calls.filterMap ReadCall.object

/-- The calls that wait for the task. -/
def waiting (n : ReaderActor len P R) : List ℕ :=
  (match n.pc with
    | .reading _ k _ => [k]
    | _ => []) ++ n.readerRx.queue.map Prod.snd

/-- What the payload at hand has buffered. -/
def buffered (buffer : P → List UInt8) (n : ReaderActor len P R) : List UInt8 :=
  match n.pc with
  | .reading _ _ payload => buffer payload
  | _ => []

/-- The calls that have returned got what `scan` finds in the chunks; the last ones wait. -/
structure Decoding (request : Codec UInt8 R) (buffer : P → List UInt8) (n : ReaderActor len P R) : Prop where
  calls : ∃ done, n.calls = done ++ List.replicate n.waiting.length .waiting ∧
    n.waiting = List.range' done.length n.waiting.length ∧ done.filterMap ReadCall.object = (request.scan n.frames).1
  quiet : ¬ n.Signalled
  closed : n.readerRx.closed = true → n.waiting = []
  buffer : n.Over ∨ n.buffered buffer = (request.scan n.frames).2

variable {d : DataFrameReceiver len P R} {request : Codec UInt8 R} {buffer : P → List UInt8}

/-- The first waiting call is resolved. -/
theorem resolve_first {calls done : List (ReadCall R)} {ws rest : List ℕ} {k : ℕ} (f : ReadCall R → ReadCall R)
    (hc : calls = done ++ List.replicate ws.length .waiting) (hw : ws = List.range' done.length ws.length)
    (hk : ws = k :: rest) :
    calls.modify k f = (done ++ [f .waiting]) ++ List.replicate rest.length .waiting ∧
      rest = List.range' (done ++ [f .waiting]).length rest.length := by
  subst hk
  rw [List.length_cons, List.range'_succ, List.cons.injEq] at hw
  obtain ⟨rfl, hrest⟩ := hw
  constructor
  · have hmod : ∀ (l : List (ReadCall R)) (rs : List (ReadCall R)),
        (l ++ .waiting :: rs).modify l.length f = (l ++ [f .waiting]) ++ rs := by
      intro l rs
      induction l with
      | nil => rfl
      | cons c l ih =>
        rw [List.cons_append, List.length_cons, List.modify_succ_cons, ih]
        rfl
    rw [hc, List.length_cons, List.replicate_succ, hmod]
  · rw [List.length_append]
    exact hrest

/-- A step that leaves the calls, the task and what it has read alone. -/
theorem Decoding.same {n n' : ReaderActor len P R} (hn : Decoding request buffer n) (hc : n'.calls = n.calls)
    (hx : n'.readerRx = n.readerRx) (hp : n'.pc = n.pc) (hf : n'.frames = n.frames) (hw : n'.parentRx = n.parentRx)
    (ho : n.Over → n'.Over) : Decoding request buffer n' := by
  have hwait : n'.waiting = n.waiting := by rw [waiting, waiting, hp, hx]
  have hbuf : n'.buffered buffer = n.buffered buffer := by rw [buffered, buffered, hp]
  refine ⟨?_, ?_, ?_, ?_⟩
  · rw [hc, hwait, hf]
    exact hn.calls
  · rw [Signalled, hw]
    exact hn.quiet
  · rw [hx, hwait]
    exact hn.closed
  · rw [hbuf, hf]
    exact hn.buffer.imp_left ho

/-- The call at hand is resolved by `f`, and the task goes back to its queue. -/
theorem Decoding.resolve {n n' : ReaderActor len P R} {frame : Read len} {k : ℕ} {payload : P}
    (hn : Decoding request buffer n) (hpc : n.pc = .reading frame k payload) (f : ReadCall R → ReadCall R)
    (hc : n'.calls = n.calls.modify k f) (hp : n'.pc = .request) (hx : n'.readerRx = n.readerRx)
    (hw : n'.parentRx = n.parentRx)
    (hf : (request.scan n'.frames).1 = (request.scan n.frames).1 ++ (f .waiting).object.toList)
    (hb : n'.Over ∨ (request.scan n'.frames).2 = []) : Decoding request buffer n' := by
  obtain ⟨done, hcalls, hwait, hdone⟩ := hn.calls
  have hfirst : n.waiting = k :: n.readerRx.queue.map Prod.snd := by simp [waiting, hpc]
  have hrest : n'.waiting = n.readerRx.queue.map Prod.snd := by simp [waiting, hp, hx]
  obtain ⟨hmod, hrange⟩ := resolve_first f hcalls hwait hfirst
  refine ⟨⟨done ++ [f .waiting], ?_, ?_, ?_⟩, ?_, ?_, ?_⟩
  · rw [hc, hmod, hrest]
  · rw [hrest]
    exact hrange
  · rw [List.filterMap_append, hdone, hf, List.filterMap_cons]
    cases (f .waiting).object <;> rfl
  · rw [Signalled, hw]
    exact hn.quiet
  · intro hclosed
    rw [hx] at hclosed
    have hnil := hn.closed hclosed
    rw [hfirst] at hnil
    cases hnil
  · refine hb.imp_right fun h => ?_
    rw [h, buffered, hp]

/-- A read that yields something is not at the end of the stream. -/
theorem poll_not_over {n : ReaderActor len P R} {frame frame' : Read len} {p : Peek} {source : Source}
    (h : ReadFut.poll frame n.source p = some (.ok (some ()), frame', source)) : ¬ n.Over := by
  obtain ⟨hne, -, hin, -, -, -⟩ := poll_some h
  have hpos := List.length_pos_of_ne_nil hne
  rintro (⟨hnil, -⟩ | hlen)
  · rw [hnil] at hin
    exact hne (List.append_eq_nil_iff.1 hin.symm).1
  · have hle := frame'.size
    unfold Read.frame at hpos
    rw [List.length_take] at hpos
    omega

/-- The request at hand was the first of the queue. -/
theorem Decoding.takes (hg : Gathers d request buffer) {n : ReaderActor len P R} {frame : Read len} {k : ℕ}
    {rx : Chan (Read len × ℕ)} (hn : Decoding request buffer n) (hpc : n.pc = .request)
    (hrx : n.readerRx.pop = some ((frame, k), rx)) :
    Decoding request buffer { n with readerRx := rx, pc := .reading frame k d.default } := by
  obtain ⟨done, hcalls, hwait, hdone⟩ := hn.calls
  obtain ⟨hqueue, -, hclosed, -, -⟩ := Chan.pop_cases hrx
  have hsame : waiting { n with readerRx := rx, pc := .reading frame k d.default } = n.waiting := by
    simp [waiting, hpc, hqueue]
  have hempty : n.buffered buffer = [] := by rw [buffered, hpc]
  refine ⟨?_, hn.quiet, ?_, ?_⟩
  · rw [hsame]
    exact ⟨done, hcalls, hwait, hdone⟩
  · rw [hsame]
    intro hc
    exact hn.closed (hclosed.symm.trans hc)
  · -- its payload is fresh, and there is nothing left of the one before
    refine hn.buffer.imp_right fun h => ?_
    rw [← h, hempty]
    exact hg.default

/-- The task ends, and no call waits for it. -/
theorem Decoding.ends {n : ReaderActor len P R} (hn : Decoding request buffer n) (hpc : n.pc = .request)
    (hnil : n.readerRx.queue = []) : Decoding request buffer n.finish := by
  obtain ⟨done, hcalls, hwait, hdone⟩ := hn.calls
  have hnone : n.waiting = [] := by simp [waiting, hpc, hnil]
  have hnone' : n.finish.waiting = [] := by simp [waiting, finish, hnil]
  have hkept : n.finish.calls = n.calls ∧ n.finish.frames = n.frames := by simp [finish, hnil]
  have hempty : n.buffered buffer = [] := by rw [buffered, hpc]
  have hsig : ¬ n.finish.Signalled := by simpa [finish, hnil, Signalled] using hn.quiet
  refine ⟨⟨done, ?_, ?_, ?_⟩, hsig, fun _ => hnone', ?_⟩
  · rw [hkept.1, hnone', hcalls, hnone]
  · rw [hnone']
    rfl
  · rw [hkept.2]
    exact hdone
  · rw [hkept.2]
    refine hn.buffer.imp (fun h => ?_) fun h => ?_
    · simpa [finish, hnil, Over] using h
    · rw [← h, hempty]
      rfl

/-- What is buffered when a chunk comes is what `scan` has left. -/
theorem Decoding.scanned {n : ReaderActor len P R} {p : Peek} {frame frame' : Read len} {k : ℕ} {payload : P}
    {source : Source} (hn : Decoding request buffer n) (hpc : n.pc = .reading frame k payload)
    (hpoll : ReadFut.poll frame n.source p = some (.ok (some ()), frame', source)) :
    (request.scan n.frames).2 = buffer payload := by
  rw [← hn.buffer.resolve_left (poll_not_over hpoll), buffered, hpc]

/-- One more chunk, and the request is not complete. -/
theorem Decoding.reads (hg : Gathers d request buffer) {n : ReaderActor len P R} {p : Peek} {frame frame' : Read len}
    {k : ℕ} {payload payload' : P} {source : Source} (hn : Decoding request buffer n)
    (hpc : n.pc = .reading frame k payload)
    (hpoll : ReadFut.poll frame n.source p = some (.ok (some ()), frame', source))
    (hrecv : d.recv payload frame' = (payload', none)) :
    Decoding request buffer { n with
      source := source, frames := n.frames ++ [frame'.frame], pc := .reading frame' k payload' } := by
  have hsame : waiting { n with
      source := source, frames := n.frames ++ [frame'.frame], pc := .reading frame' k payload' } = n.waiting := by
    simp [waiting, hpc]
  have hparse : request.parse (buffer payload ++ frame'.frame) = none := by rw [← hg.object, hrecv]
  have hstep : request.scan (n.frames ++ [frame'.frame]) =
      ((request.scan n.frames).1, buffer payload ++ frame'.frame) := by
    rw [Codec.scan_concat, Codec.scanStep, hn.scanned hpc hpoll, hparse]
  have hdata : buffer payload' = buffer payload ++ frame'.frame := by rw [← hg.data, hrecv]
  refine ⟨?_, hn.quiet, ?_, .inr ?_⟩
  · rw [hsame, hstep]
    exact hn.calls
  · rw [hsame]
    exact hn.closed
  · rw [hstep]
    exact hdata

/-- What a step of the reader task does to the calls. -/
theorem decoding_select (hg : Gathers d request buffer) {n n' : ReaderActor len P R} {l : ReaderLabel}
    (hn : Decoding request buffer n) (hq : l.quiet = true) (hs : Selects d n l n') : Decoding request buffer n' := by
  cases hs with
  | takes frame k rx w hw hpc hrx =>
    subst hw
    exact hn.takes hg hpc hrx
  | goesOn l b w hl hb hs => exact absurd hs hn.quiet
  | ends b w hpc hend =>
    rcases hend with hs | ⟨hnil, -, rfl⟩
    · exact absurd hs hn.quiet
    · exact hn.ends hpc hnil
  | completes p frame frame' k payload payload' object source w hw hpc hpoll hrecv =>
    have hparse : request.parse (buffer payload ++ frame'.frame) = some object := by rw [← hg.object, hrecv]
    have hstep : request.scan (n.frames ++ [frame'.frame]) = ((request.scan n.frames).1 ++ [object], []) := by
      rw [Codec.scan_concat, Codec.scanStep, hn.scanned hpc hpoll, hparse]
    subst hw
    refine hn.resolve hpc (ReadCall.send object) rfl rfl rfl rfl ?_ (.inr ?_)
    · rw [hstep]
      rfl
    · rw [hstep]
  | reads p frame frame' k payload payload' source w hw hpc hpoll hrecv =>
    subst hw
    exact hn.reads hg hpc hpoll hrecv
  | drops b p frame k payload w hpc hend =>
    rcases hend with ⟨hs, -⟩ | ⟨rfl, rfl, ⟨e, rfl⟩ | ⟨rfl, hover⟩⟩
    · exact absurd hs hn.quiet
    · cases hq
    · refine hn.resolve hpc ReadCall.dropSender rfl rfl rfl rfl ?_ (.inl hover)
      exact (List.append_nil _).symm

theorem decoding_step (hg : Gathers d request buffer) {n n' : ReaderActor len P R} {l : ReaderLabel}
    (hn : Decoding request buffer n) (hq : l.quiet = true) (h : n.step d l = some n') : Decoding request buffer n' := by
  cases l with
  | request b => exact decoding_select hg hn hq (takeRequest_rule h)
  | frame b p => exact decoding_select hg hn hq (readFrame_rule h)
  | read =>
    simp only [step] at h
    split at h
    · simp only [Option.map_eq_some_iff] at h
      obtain ⟨rx, hrx, rfl⟩ := h
      obtain ⟨done, hcalls, hwait, hdone⟩ := hn.calls
      obtain ⟨-, -, -, hclosed, hqueue, -, -⟩ := Chan.push_cases hrx
      -- the call goes to the end of those that wait
      have hlast : waiting { n with readerRx := rx, calls := n.calls ++ [.waiting] } = n.waiting ++ [n.calls.length] := by
        simp [waiting, hqueue]
      have hlen : n.calls.length = done.length + n.waiting.length := by
        rw [hcalls, List.length_append, List.length_replicate]
      refine ⟨⟨done, ?_, ?_, hdone⟩, hn.quiet, ?_, hn.buffer⟩
      · rw [hlast, List.length_append, List.length_singleton, List.replicate_succ', ← List.append_assoc, ← hcalls]
      · rw [hlast, List.length_append, List.length_singleton, List.range'_1_concat, ← hwait, hlen]
      · intro hc
        rw [hclosed] at hc
        cases hc
    · cases h
  | refused =>
    simp only [step] at h
    split at h
    · rename_i hr
      cases h
      obtain ⟨done, hcalls, hwait, hdone⟩ := hn.calls
      have hnone := hn.closed hr.2
      have hnone' : waiting { n with calls := n.calls ++ [.closed] } = [] := hnone
      refine ⟨⟨done ++ [.closed], ?_, ?_, ?_⟩, hn.quiet, fun _ => hnone', hn.buffer⟩
      · rw [hnone', hcalls, hnone]
        simp
      · rw [hnone']
        rfl
      · rw [List.filterMap_append, hdone]
        exact List.append_nil _
    · cases h
  | hangUp =>
    cases h
    exact hn.same rfl rfl rfl rfl rfl id
  | arrive bs =>
    simp only [step] at h
    split at h
    · cases h
    · rename_i hc
      cases h
      refine hn.same rfl rfl rfl rfl rfl fun ho => ho.imp_left fun hover => absurd hover.2 hc
  | close =>
    cases h
    exact hn.same rfl rfl rfl rfl rfl fun ho => ho.imp_left fun hover => ⟨hover.1, rfl⟩
  | giveUp k | notify m | died => cases hq

theorem decoding_run (hg : Gathers d request buffer) {m : Option SupervisorMessage} {ls : List ReaderLabel}
    {n : ReaderActor len P R} (hr : Lts.run (step d) (init len P R m) ls = some n) (hq : ∀ l ∈ ls, l.quiet = true) :
    Decoding request buffer n := by
  have h0 : Decoding request buffer (init len P R m) :=
    ⟨⟨[], rfl, rfl, rfl⟩, by simp [Signalled, init, Watch.subscribe], fun _ => rfl, .inr rfl⟩
  exact Lts.run_along (P := fun _ l => l.quiet = true) (fun _ _ _ hn hq h => decoding_step hg hn hq h) h0
    (Lts.Along.of_labels hq) hr

theorem Decoding.returned_eq {n : ReaderActor len P R} (hn : Decoding request buffer n) :
    n.returned = (request.scan n.frames).1 := by
  obtain ⟨done, hcalls, -, hdone⟩ := hn.calls
  have hnone : (List.replicate n.waiting.length (.waiting : ReadCall R)).filterMap ReadCall.object = [] := by
    refine List.filterMap_eq_nil_iff.2 fun c hc => ?_
    rw [List.eq_of_mem_replicate hc]
    rfl
  rw [returned, hcalls, List.filterMap_append, hdone, hnone, List.append_nil]

end ReaderActor

open ReaderActor in
/-- **Requests survive just the splits between them**: of a stream of requests, read to its
end, the calls of `Reader::read` return these requests if and only if the chunks fall into
groups, one for each request, that begin with a word for it. They do when every request is made
of whole chunks, and only then if no request has words of different lengths. -/
theorem requests_decoded {d : DataFrameReceiver len P R} {request : Codec UInt8 R} {buffer : P → List UInt8}
    (hg : Gathers d request buffer) {m : Option SupervisorMessage} {ls : List ReaderLabel} {n : ReaderActor len P R}
    {ws : List (List UInt8)} {rs : List R} (hr : Lts.run (step d) (init len P R m) ls = some n)
    (hq : ∀ l ∈ ls, l.quiet = true) (hw : List.Forall₂ request.Encodes ws rs) (harr : arrivals ls = ws.flatten)
    (hall : n.source.incoming = []) :
    (n.returned = rs ↔ request.Fits (cut (sizes ls) (arrivals ls)) rs) ∧
      (Codec.Aligned (cut (sizes ls) (arrivals ls)) ws → request.Fits (cut (sizes ls) (arrivals ls)) rs) ∧
      (request.Uniform → request.Fits (cut (sizes ls) (arrivals ls)) rs →
        Codec.Aligned (cut (sizes ls) (arrivals ls)) ws) := by
  have hstream : n.frames.flatten = ws.flatten := by
    obtain ⟨hf, hc⟩ := frames_consumed hr
    rw [hf, ← harr, ← hc, hall, List.append_nil]
  have hne := frames_nonempty hr
  rw [← frames_cut hr, (decoding_run hg hr hq).returned_eq, Codec.scan_eq, Codec.gather_iff hne hw hstream]
  exact ⟨Iff.rfl, Codec.Aligned.fits hne hw, fun hu => Codec.Fits.aligned hu hne hw hstream⟩

/-! ## Requests of HTTP -/

/-- A request of HTTP, as `Data` builds it. -/
structure HttpRequest where
  method : List UInt8
  path : List UInt8
  headers : List (List UInt8 × List UInt8)
deriving DecidableEq

namespace HttpRequest

/-- The lines up to an empty one. -/
def head : List UInt8 → Option (List UInt8)
  | [] => none
  | x :: b => if [13, 10, 13, 10] <+: x :: b then some [] else (head b).map (x :: ·)

/-- A header, with its name folded. -/
def header (line : List UInt8) : List UInt8 × List UInt8 :=
  ((line.takeWhile (· ≠ 58)).map fun x => if 65 ≤ x ∧ x ≤ 90 then x + 32 else x,
    ((line.dropWhile (· ≠ 58)).drop 1).dropWhile (· = 32))

/-- What `Data` finds in a buffer without errors whose lines end with CRLF: empty lines in front are
skipped, and the version is dropped. -/
def parse (b : List UInt8) : Option HttpRequest :=
  (head (b.dropWhile fun x => x = 13 ∨ x = 10)).bind fun lines =>
    match (lines.filter (· ≠ 13)).splitOn 10 with
    | line :: headers =>
      match line.splitOn 32 with
      | method :: path :: _ => some ⟨method, path, headers.map header⟩
      | _ => none
    | _ => none

theorem head_length {b l : List UInt8} (h : head b = some l) : 4 ≤ b.length := by
  induction b generalizing l with
  | nil => cases h
  | cons x b ih =>
    rw [head] at h
    split at h
    · rename_i hle
      exact hle.length_le
    · obtain ⟨l', hl', -⟩ := Option.map_eq_some_iff.1 h
      exact (ih hl').trans (Nat.le_succ _)

theorem head_append {b l : List UInt8} (h : head b = some l) (rest : List UInt8) : head (b ++ rest) = some l := by
  induction b generalizing l with
  | nil => cases h
  | cons x b ih =>
    rw [List.cons_append, head]
    rw [head] at h
    split at h
    · rename_i hle
      have hlonger : [13, 10, 13, 10] <+: x :: (b ++ rest) := hle.trans ⟨rest, rfl⟩
      rw [if_pos hlonger]
      exact h
    · rename_i hle
      obtain ⟨l', hl', rfl⟩ := Option.map_eq_some_iff.1 h
      have hlen := head_length hl'
      rw [if_neg fun hlonger => hle ?_, ih hl']
      · rfl
      · exact List.prefix_of_prefix_length_le hlonger ⟨rest, rfl⟩ (Nat.le_succ_of_le hlen)

theorem parse_append {b : List UInt8} {r : HttpRequest} (h : parse b = some r) (rest : List UInt8) :
    parse (b ++ rest) = some r := by
  obtain ⟨lines, hlines, hr⟩ := Option.bind_eq_some_iff.1 h
  unfold parse
  rw [List.dropWhile_append]
  split
  · rename_i hnil
    rw [List.isEmpty_iff.1 hnil] at hlines
    cases hlines
  · rw [head_append hlines]
    exact hr

/-- The code of requests that this parser has. -/
def code : Codec UInt8 HttpRequest :=
  .ofParse parse fun b b' r h hle => by
    obtain ⟨rest, rfl⟩ := hle
    exact parse_append h rest

end HttpRequest

/-- A request, and the next one, which has an empty line in front. -/
def rootWord : List UInt8 := "GET / HTTP/1.1\r\n\r\n".toUTF8.data.toList

def hostWord : List UInt8 := "\r\nGET /a HTTP/1.0\r\nHOST: b\r\n\r\n".toUTF8.data.toList

def rootRequest : HttpRequest := ⟨"GET".toUTF8.data.toList, "/".toUTF8.data.toList, []⟩

def hostRequest : HttpRequest :=
  ⟨"GET".toUTF8.data.toList, "/a".toUTF8.data.toList, [("host".toUTF8.data.toList, "b".toUTF8.data.toList)]⟩

theorem words_encode : List.Forall₂ HttpRequest.code.Encodes [rootWord, hostWord] [rootRequest, hostRequest] :=
  .cons ⟨by decide, by decide⟩ (.cons ⟨by decide, by decide⟩ .nil)

/-- The first request comes in two chunks, and the empty line is lost with the last of these. -/
def splitRun : List ReaderLabel :=
  [.read, .read, .arrive (rootWord.take 8), .request .fut, .frame .fut (.bytes 8), .arrive (rootWord.drop 8 ++ hostWord),
    .frame .fut (.bytes 12), .request .fut, .frame .fut (.bytes 28)]

theorem requests_decoded_splitRun :
    ∃ n : ReaderActor 32 (List UInt8) HttpRequest,
      Lts.run (ReaderActor.step (Data 32 HttpRequest.code)) (.init 32 _ _ none) splitRun = some n ∧
        n.returned = [rootRequest, hostRequest] ∧
        (n.returned = [rootRequest, hostRequest] ↔
          HttpRequest.code.Fits (cut (ReaderActor.sizes splitRun) (ReaderActor.arrivals splitRun))
            [rootRequest, hostRequest]) := by
  have hr : ∃ n : ReaderActor 32 (List UInt8) HttpRequest,
      Lts.run (ReaderActor.step (Data 32 HttpRequest.code)) (.init 32 _ _ none) splitRun = some n ∧
        n.source.incoming = [] ∧ n.returned = [rootRequest, hostRequest] := ⟨_, rfl, rfl, rfl⟩
  obtain ⟨n, hr, hall, hret⟩ := hr
  exact ⟨n, hr, hret,
    (requests_decoded (data_gathers 32 HttpRequest.code) hr (by decide) words_encode (by decide) hall).1⟩

/-- Both requests come in one chunk. -/
def joinedRun : List ReaderLabel :=
  [.read, .read, .arrive (rootWord ++ hostWord), .request .fut, .frame .fut (.bytes 48), .request .fut]

/-- The second request is lost with the payload of the first one. -/
theorem requests_joined :
    ∃ n : ReaderActor 64 (List UInt8) HttpRequest,
      Lts.run (ReaderActor.step (Data 64 HttpRequest.code)) (.init 64 _ _ none) joinedRun = some n ∧
        (∀ l ∈ joinedRun, l.quiet = true) ∧
        List.Forall₂ HttpRequest.code.Encodes [rootWord, hostWord] [rootRequest, hostRequest] ∧
        ReaderActor.arrivals joinedRun = [rootWord, hostWord].flatten ∧ n.source.incoming = [] ∧
        n.returned = [rootRequest] ∧ n.returned ≠ [rootRequest, hostRequest] :=
  ⟨_, rfl, by decide, words_encode, by decide, rfl, rfl, by decide⟩

end Tokactor
