import Tokactor.Proof.Settle

/-!
# A peer that waits for its responses

A reader task loses what its last chunk held behind a request (`requests_decoded`). No chunk
holds more than one request when the peer sends a request only after it has got the responses
to those before it, as a client of HTTP without pipelining does.

* `Server.Peer`: such a peer.
* `exchange_safe`: however the stream is cut, the requests are decoded as they were sent, and
  the peer gets nothing but the responses to them, in order.
* `exchange_goes_on`: when the peer has sent a request to its end, the tasks of the server do
  only so many steps before it has got the response; so neither waits for the other.
-/

namespace Tokactor

variable {len : ℕ} {P A M : Type}

/-! ## The reader task -/

namespace ReaderActor

variable {d : DataFrameReceiver len P M} {request : Codec UInt8 M} {ws : List (List UInt8)} {rs : List M}
variable {n n' : ReaderActor len P M} {l : ReaderLabel}

/-- What was read, and what has arrived, does not reach behind the word that comes after those of
the requests that were found. -/
structure Paced (request : Codec UInt8 M) (ws : List (List UInt8)) (rs : List M) (n : ReaderActor len P M) : Prop where
  inside : request.Inside ws rs n.frames
  arrived : n.source.arrived <+: (ws.take ((request.scan n.frames).1.length + 1)).flatten

theorem Paced.same (hn : Paced request ws rs n) (hf : n'.frames = n.frames) (ha : n'.source.arrived = n.source.arrived) :
    Paced request ws rs n' :=
  ⟨hf ▸ hn.inside, by rw [hf, ha]; exact hn.arrived⟩

/-- A chunk is read. -/
theorem Paced.reads {frame frame' : Read len} {p : Peek} {source : Source} (hcode : List.Forall₂ request.Encodes ws rs)
    (hn : Paced request ws rs n) (hconsumed : n.frames.flatten = n.source.consumed)
    (hpoll : ReadFut.poll frame n.source p = some (.ok (some ()), frame', source))
    (hf : n'.frames = n.frames ++ [frame'.frame]) (hs : n'.source = source) : Paced request ws rs n' := by
  obtain ⟨hne, -, hincoming, harrived, -, -⟩ := poll_some hpoll
  have hpart : n.frames.flatten ++ frame'.frame <+: n.source.arrived := by
    rw [hconsumed, n.source.history, hincoming, ← List.append_assoc]
    exact List.prefix_append _ _
  have hmore : (request.scan n.frames).1.length + 1 ≤ (request.scan n'.frames).1.length + 1 := by
    have hle := Codec.scan_length_le (c := request) n.frames frame'.frame
    rw [hf]
    omega
  refine ⟨?_, ?_⟩
  · rw [hf]
    exact hn.inside.concat hcode hne (hpart.trans hn.arrived)
  · rw [hs, harrived]
    exact hn.arrived.trans (flatten_take_mono hmore)

/-- Nothing arrives in this step. -/
theorem paced_step (hcode : List.Forall₂ request.Encodes ws rs) (hn : Paced request ws rs n)
    (hconsumed : n.frames.flatten = n.source.consumed) (hl : ∀ bs, l ≠ .arrive bs) (h : n.step d l = some n') :
    Paced request ws rs n' := by
  cases step_rule h with
  | task l n' hs =>
    cases hs with
    | takes | goesOn | drops => exact hn.same rfl rfl
    | ends b w hpc hend =>
      obtain ⟨calls, heq⟩ := finish_eq { n with parentRx := w }
      rw [heq]
      exact hn.same rfl rfl
    | completes p frame frame' k payload payload' object source w hw hpc hpoll hrecv =>
      exact hn.reads hcode hconsumed hpoll rfl rfl
    | reads p frame frame' k payload payload' source w hw hpc hpoll hrecv =>
      exact hn.reads hcode hconsumed hpoll rfl rfl
  | read | refused | giveUp | hangUp => exact hn.same rfl rfl
  | outside l source w hsame hout =>
    rcases hout with rfl | rfl | ⟨bs, rfl⟩ | ⟨m, rfl⟩
    · cases h
      exact hn.same rfl rfl
    · cases h
      exact hn.same rfl rfl
    · exact absurd rfl (hl bs)
    · cases h
      exact hn.same rfl rfl

end ReaderActor

/-! ## The server -/

namespace Server

variable {d : DataFrameReceiver len P M} {r : Responder M} {request : Codec UInt8 M} {buffer : P → List UInt8}
variable {ws : List (List UInt8)} {rs : List M}
variable {s s' : Server len P A M} {l : ServerLabel A M}

/-- The peer sends the words `ws` of the requests `rs`, each of them when it has got the responses
to those before it. -/
def Peer (ws : List (List UInt8)) (r : Responder M) (rs : List M) (s : Server len P A M) : ServerLabel A M → Prop
  | .other (.reader (.arrive bs)) => ∃ k < rs.length,
      ((rs.take k).map r.response).flatten <+: s.connection.writer.source ∧
        s.connection.reader.source.arrived ++ bs <+: (ws.take (k + 1)).flatten
  | _ => True

instance (ws : List (List UInt8)) (r : Responder M) (rs : List M) (s : Server len P A M) :
    (l : ServerLabel A M) → Decidable (Peer ws r rs s l)
  | .other (.reader (.arrive bs)) =>
    inferInstanceAs (Decidable (∃ k < rs.length, ((rs.take k).map r.response).flatten <+: s.connection.writer.source ∧
      s.connection.reader.source.arrived ++ bs <+: (ws.take (k + 1)).flatten))
  | .write | .reply | .shutdown | .died | .other .go | .other (.writer _) | .other (.write _ _) | .other (.actor _)
  | .other (.reader .read) | .other (.reader .refused) | .other (.reader (.giveUp _)) | .other (.reader .hangUp)
  | .other (.reader .close) | .other (.reader (.notify _)) | .other (.reader .died) | .other (.reader (.request _))
  | .other (.reader (.frame _ _)) => .isTrue trivial

/-- What the reader task, its socket and its calls do in a step of the server. -/
theorem reader_step (hl : l.undisturbed = true) (hstep : s.step d r l = some s') :
    s'.connection.reader = s.connection.reader ∨
      ∃ rl : ReaderLabel, rl.quiet = true ∧ (∀ bs, rl = .arrive bs → l = .other (.reader rl)) ∧
        s.connection.reader.step d rl = some s'.connection.reader := by
  cases step_rule hstep with
  | write | reply | writer | actor => exact .inl rfl
  | shutdown | died => cases hl
  | reader rl n ht h =>
    refine .inr ⟨rl, ?_, fun _ _ => rfl, h⟩
    cases rl with
    | frame b p => cases p <;> first | rfl | cases hl
    | arrive | close | request => rfl
    | _ => cases ht
  | go c h =>
    cases h with
    | read n hpc h => exact .inr ⟨.read, rfl, fun bs h => (by cases h), h⟩
    | refused n hpc h => exact .inr ⟨.refused, rfl, fun bs h => (by cases h), h⟩
    | asks | ends | answered | awaits => exact .inl rfl
    | panics | late | received | dropped => exact .inr ⟨.hangUp, rfl, fun bs h => (by cases h), rfl⟩

theorem arrived_step (hs : Serving d r s) (hl : l.inner = true) (hstep : s.step d r l = some s') :
    s'.connection.reader.source.arrived = s.connection.reader.source.arrived := by
  rcases reader_step (ServerLabel.undisturbed_of_inner hl) hstep with heq | ⟨rl, -, hlabel, h⟩
  · rw [heq]
  · obtain ⟨m, ls, hr⟩ := hs.reader
    have harrivals : ReaderActor.arrivals [rl] = [] := by
      cases rl with
      | arrive bs =>
        rw [hlabel bs rfl] at hl
        cases hl
      | _ => rfl
    rw [(ReaderActor.delivered_run (Lts.run_concat hr h)).arrived, (ReaderActor.delivered_run hr).arrived,
      show ReaderActor.arrivals (ls ++ [rl]) = _ from List.flatMap_append]
    exact (congrArg _ harrivals).trans (List.append_nil _)

/-- The responses that the peer has got are to requests that were found. -/
theorem Serving.answered_le (hs : Serving d r s) (hcalm : s.Calm) (hreturned : s.connection.reader.returned <+: rs)
    (hne : ∀ q ∈ rs, r.response q ≠ []) {k : ℕ} (hk : k < rs.length)
    (h : ((rs.take k).map r.response).flatten <+: s.connection.writer.source) : k ≤ s.connection.reader.returned.length := by
  obtain ⟨ws, ha⟩ := hs.answers
  have hpre := h.trans (ha.unbroken hcalm.2.results)
  rw [List.prefix_iff_eq_take.1 hreturned, List.map_take, List.map_take] at hpre
  exact flatten_take_le (List.forall_mem_map.2 hne) (by rw [List.length_map]; omega) hpre

/-- The requests of such a peer are found one by one. -/
structure Takes (request : Codec UInt8 M) (buffer : P → List UInt8) (ws : List (List UInt8)) (rs : List M)
    (s : Server len P A M) : Prop where
  calm : s.Calm
  decoding : s.connection.reader.Decoding request buffer
  paced : s.connection.reader.Paced request ws rs

theorem Takes.returned (ht : Takes request buffer ws rs s) : s.connection.reader.returned <+: rs := by
  rw [ht.decoding.returned_eq]
  exact ht.paced.inside.found

/-- **A step of the server, or of such a peer.** -/
theorem takes_step (hg : Gathers d request buffer) (hcode : List.Forall₂ request.Encodes ws rs)
    (hne : ∀ q ∈ rs, r.response q ≠ []) (hs : Serving d r s) (ht : Takes request buffer ws rs s)
    (hl : l.undisturbed = true) (hp : Peer ws r rs s l) (hstep : s.step d r l = some s') : Takes request buffer ws rs s' := by
  have hcalm := calm_step hs ht.calm hl hstep
  rcases reader_step hl hstep with heq | ⟨rl, hq, hlabel, h⟩
  · exact ⟨hcalm, heq ▸ ht.decoding, heq ▸ ht.paced⟩
  refine ⟨hcalm, ReaderActor.decoding_step hg ht.decoding hq h, ?_⟩
  obtain ⟨m, ls, hr⟩ := hs.reader
  by_cases harrive : ∃ bs, rl = .arrive bs
  · -- the peer sends a part of the next request
    obtain ⟨bs, rfl⟩ := harrive
    obtain rfl := hlabel bs rfl
    obtain ⟨k, hk, hgot, hsends⟩ := hp
    have hle := hs.answered_le ht.calm ht.returned hne hk hgot
    rw [ht.decoding.returned_eq] at hle
    have hmore : k + 1 ≤ (request.scan s.connection.reader.frames).1.length + 1 := by omega
    simp only [ReaderActor.step] at h
    split at h
    · cases h
    · have h := Option.some.inj h
      rw [← h]
      exact ⟨ht.paced.inside, hsends.trans (flatten_take_mono hmore)⟩
  · exact ReaderActor.paced_step hcode ht.paced (ReaderActor.delivered_run hr).frames (fun bs h => harrive ⟨bs, h⟩) h

theorem takes_run {parent : Option SupervisorMessage} {cfg : Config} {a : A} {ls : List (ServerLabel A M)}
    (hg : Gathers d request buffer) (hcode : List.Forall₂ request.Encodes ws rs) (hne : ∀ q ∈ rs, r.response q ≠ [])
    (hl : ∀ l ∈ ls, l.undisturbed = true) (hp : Lts.Along (step d r) (Peer ws r rs) (init len P parent cfg a) ls)
    (hr : Lts.run (step d r) (init len P parent cfg a) ls = some s) : Takes request buffer ws rs s := by
  have hinit : Takes request buffer ws rs (init len P parent cfg a : Server len P A M) :=
    ⟨⟨ReaderActor.calm_init parent, WriterActor.calm_init parent⟩,
      ReaderActor.decoding_run hg (m := parent) (Lts.run_nil _) (fun l h => by cases h),
      ⟨Codec.inside_nil ws rs, List.nil_prefix⟩⟩
  have hboth := hp.and (Lts.Along.of_labels (p := fun l => ServerLabel.undisturbed l = true) hl)
  exact (Lts.run_along (I := fun s => Serving d r s ∧ Takes request buffer ws rs s)
    (P := fun s l => Peer ws r rs s l ∧ l.undisturbed = true)
    (fun _ _ _ hi hp h => ⟨serving_step hi.1 h, takes_step hg hcode hne hi.1 hi.2 hp.2 hp.1 h⟩)
    ⟨serving_init parent cfg a, hinit⟩ hboth hr).2

/-- While the reader task waits for the peer, every object was answered. -/
theorem Serving.idle {k : ℕ} {frame : Read len} {payload : P} (hs : Serving d r s) (hpc : s.connection.pc = .reading k)
    (hreader : s.connection.reader.pc = .reading frame k payload) :
    s.writing = none ∧ s.connection.writer.data = s.connection.reader.returned.map r.response := by
  have hnone : s.writing = none := by
    cases hw : s.writing with
    | none => rfl
    | some k =>
      obtain ⟨j, hj⟩ := hs.asking hw
      rw [hj] at hpc
      cases hpc
  obtain ⟨m, ls, hr⟩ := hs.reader
  obtain ⟨es, ht⟩ := ReaderActor.tracks_run hr
  obtain ⟨-, -, hcalls⟩ := ConnectionPc.Fed.open hs.fed (ht.serving frame k payload hreader).1
  have hturn := hs.inTurn
  unfold Connection.InTurn at hturn
  rw [hpc] at hturn
  have hobjects : s.connection.reader.returned = payloads s.connection.actor.mailbox.accepted := by
    rw [ReaderActor.returned, hcalls, List.filterMap_append, List.filterMap_map]
    exact (List.append_nil _).trans List.filterMap_some
  have hwrote := hs.wrote
  rw [hnone] at hwrote
  refine ⟨hnone, ?_⟩
  rw [hobjects, hs.alone.accepted, hturn.1]
  exact hwrote.trans (by rw [show payloads [] = [] from rfl, List.append_nil])

/-- **A server at rest has served what was sent**: the requests that have come to their end. -/
theorem Takes.served {k : ℕ} (hcode : List.Forall₂ request.Encodes ws rs) (ht : Takes request buffer ws rs s)
    (hs : Serving d r s) (hlen : 0 < len) (hwords : ∀ w ∈ ws, w ≠ []) (hk : k ≤ rs.length)
    (hsent : s.connection.reader.source.arrived = (ws.take k).flatten) (hrest : s.AwaitsPeer ∨ s.Over) :
    s.connection.reader.returned = rs.take k ∧
      s.connection.writer.source = ((rs.take k).map r.response).flatten := by
  -- everything was read, and each object was answered
  obtain ⟨hread, hsource⟩ : s.connection.reader.source.incoming = [] ∧
      s.connection.writer.source = (s.connection.reader.returned.map r.response).flatten := by
    rcases hrest with ⟨j, frame, payload, hpc, hreader, hnil, -⟩ | hover
    · obtain ⟨hnone, hdata⟩ := hs.idle hpc hreader
      exact ⟨hnil, hs.written ht.calm hnone hdata⟩
    · obtain ⟨hsource, hend⟩ := hs.complete ht.calm (by rw [hover.1]; rfl)
      exact ⟨(hend.resolve_right (by omega)).1, hsource⟩
  obtain ⟨m, ls, hr⟩ := hs.reader
  have hchunks : s.connection.reader.frames.flatten = (ws.take k).flatten := by
    rw [(ReaderActor.delivered_run hr).frames, ← hsent, s.connection.reader.source.history, hread, List.append_nil]
  have hreturned := ht.decoding.returned_eq.trans (ht.paced.inside.all hcode (hcode.length_eq ▸ hk) hwords hchunks)
  exact ⟨hreturned, by rw [hsource, hreturned]⟩

end Server

variable {d : DataFrameReceiver len P M} {r : Responder M} {request : Codec UInt8 M} {buffer : P → List UInt8}
variable {ws : List (List UInt8)} {rs : List M}
variable {s : Server len P A M}

/-- **Nothing is lost when the peer waits for its responses**: in every undisturbed run, however
the stream is cut, the objects that were read are the first of its requests, and what it has got
is the first part of the responses to them, one after the other. -/
theorem exchange_safe {parent : Option SupervisorMessage} {cfg : Config} {a : A} {ls : List (ServerLabel A M)}
    (hg : Gathers d request buffer) (hcode : List.Forall₂ request.Encodes ws rs) (hne : ∀ q ∈ rs, r.response q ≠ [])
    (hl : ∀ l ∈ ls, l.undisturbed = true)
    (hp : Lts.Along (Server.step d r) (Server.Peer ws r rs) (.init len P parent cfg a) ls)
    (hr : Lts.run (Server.step d r) (.init len P parent cfg a) ls = some s) :
    s.connection.reader.returned <+: rs ∧
      s.connection.writer.source <+: (s.connection.reader.returned.map r.response).flatten := by
  have ht := Server.takes_run hg hcode hne hl hp hr
  obtain ⟨ws, ha⟩ := (Server.serving_run hr).answers
  exact ⟨ht.returned, ha.unbroken ht.calm.2.results⟩

theorem HttpWorld.response_ne (host : M → List UInt8) (output q : M) :
    (HttpWorld.Connection host output).response q ≠ [] := by
  have hhead : "HTTP/1.1 200 OK\r\nContent-Type:text/html\r\n\r\n<h1>".toUTF8.data.toList ≠ [] := by decide
  exact List.append_ne_nil_of_left_ne_nil (List.append_ne_nil_of_left_ne_nil hhead _) _

/-- A request comes in two chunks and is answered; then the next one comes. -/
def exchangeRun : List (ServerLabel Unit HttpRequest) :=
  [.other .go, .other (.actor (.exec (.ret ()))), .other (.reader (.arrive (rootWord.take 8))),
    .other (.reader (.request .fut)), .other (.reader (.frame .fut (.bytes 8))),
    .other (.reader (.arrive (rootWord.drop 8))), .other (.reader (.frame .fut (.bytes 10))), .other .go,
    .other (.actor (.exec .recv)), .other (.actor (.exec .go)), .other (.actor (.exec .go)),
    .other (.actor (.exec (.ret ()))), .other (.actor (.exec (.ret ()))), .write, .other (.writer (.send 0)),
    .other (.writer (.request .fut)), .other (.writer (.written .fut (.ok ()))), .reply,
    .other (.actor (.exec (.ret ()))), .other (.reader (.arrive hostWord))]

/-- How the header `Host` of a request is printed. -/
def HttpRequest.host (req : HttpRequest) : List UInt8 :=
  match req.headers.find? fun h => h.1 = "host".toUTF8.data.toList with
  | some (_, value) => "Some(\"".toUTF8.data.toList ++ value ++ "\")".toUTF8.data.toList
  | none => "None".toUTF8.data.toList

def exchangeConnection : Responder HttpRequest := HttpWorld.Connection HttpRequest.host ⟨[], [], []⟩

theorem exchange_safe_exchangeRun :
    ∃ s : Server 32 (List UInt8) Unit HttpRequest,
      Lts.run (Server.step (Data 32 HttpRequest.code) exchangeConnection)
        (.init 32 (List UInt8) none ⟨4, 1, true, []⟩ ()) exchangeRun = some s ∧
      s.connection.reader.returned = [rootRequest] ∧ s.connection.reader.returned <+: [rootRequest, hostRequest] ∧
      s.connection.writer.source <+: (s.connection.reader.returned.map exchangeConnection.response).flatten := by
  have hr : ∃ s : Server 32 (List UInt8) Unit HttpRequest,
      Lts.run (Server.step (Data 32 HttpRequest.code) exchangeConnection)
        (.init 32 (List UInt8) none ⟨4, 1, true, []⟩ ()) exchangeRun = some s ∧
      s.connection.reader.returned = [rootRequest] := ⟨_, rfl, rfl⟩
  obtain ⟨s, hr, hreturned⟩ := hr
  exact ⟨s, hr, hreturned, exchange_safe (data_gathers 32 HttpRequest.code) words_encode
    (fun q _ => HttpWorld.response_ne _ _ q) (by decide) (by decide) hr⟩

/-- **And the exchange goes on**: when the peer has sent its first `k` requests to their end, the
tasks of the server do only so many steps, in whatever order; and when they can do no more, these
requests were read, and the peer has got the responses to all of them. -/
theorem exchange_goes_on {parent : Option SupervisorMessage} {cfg : Config} {a : A} {ls : List (ServerLabel A M)} {k : ℕ}
    (hg : Gathers d request buffer) (hcode : List.Forall₂ request.Encodes ws rs) (hlen : 0 < len)
    (hc : 0 < cfg.mailboxSize) (hne : ∀ q ∈ rs, r.response q ≠ []) (hwords : ∀ w ∈ ws, w ≠ [])
    (hl : ∀ l ∈ ls, l.undisturbed = true)
    (hp : Lts.Along (Server.step d r) (Server.Peer ws r rs) (.init len P parent cfg a) ls)
    (hr : Lts.run (Server.step d r) (.init len P parent cfg a) ls = some s) (hk : k ≤ rs.length)
    (hsent : s.connection.reader.source.arrived = (ws.take k).flatten) :
    ∀ ls' s', (∀ l ∈ ls', l.inner = true) → Lts.run (Server.step d r) s ls' = some s' →
      ls'.length + s'.effort ≤ s.effort ∧ (s'.Can d r ∨ s'.connection.reader.returned = rs.take k ∧
        s'.connection.writer.source = ((rs.take k).map r.response).flatten) := by
  intro ls' s' hi hr'
  refine ⟨Server.effort_run (Server.serving_run hr) (Server.told_run hr) hi hr', or_iff_not_imp_left.2 fun hcan => ?_⟩
  have hpeer : ∀ (s : Server len P A M) (l : ServerLabel A M), l.inner = true → Server.Peer ws r rs s l := by
    intro s l hl
    unfold Server.Peer
    split
    · cases hl
    · trivial
  have hstep : ∀ (s₁ : Server len P A M) l s₂,
      (Server.Serving d r s₁ ∧ Server.Takes request buffer ws rs s₁ ∧
        s₁.connection.reader.source.arrived = s.connection.reader.source.arrived) → l.inner = true →
      s₁.step d r l = some s₂ → Server.Serving d r s₂ ∧ Server.Takes request buffer ws rs s₂ ∧
        s₂.connection.reader.source.arrived = s.connection.reader.source.arrived :=
    fun s₁ l s₂ ⟨hs, ht, ha⟩ hl h => ⟨Server.serving_step hs h,
      Server.takes_step hg hcode hne hs ht (ServerLabel.undisturbed_of_inner hl) (hpeer s₁ l hl) h,
      (Server.arrived_step hs hl h).trans ha⟩
  obtain ⟨hs, ht, ha⟩ := Lts.run_along (P := fun _ l => ServerLabel.inner l = true) hstep
    ⟨Server.serving_run hr, Server.takes_run hg hcode hne hl hp hr, rfl⟩ (Lts.Along.of_labels hi) hr'
  have hrest := (hs.progress (Server.held_run hc (Lts.run_append.2 ⟨s, hr, hr'⟩))).resolve_left hcan
  exact ht.served hcode hs hlen hwords hk (ha.trans hsent) hrest

/-- What follows, up to the second response. -/
def answerRun : List (ServerLabel Unit HttpRequest) :=
  [.other .go, .other .go, .other (.reader (.request .fut)), .other (.reader (.frame .fut (.bytes 30))), .other .go,
    .other (.actor (.exec .recv)), .other (.actor (.exec .go)), .other (.actor (.exec .go)),
    .other (.actor (.exec (.ret ()))), .other (.actor (.exec (.ret ()))), .write, .other (.writer (.send 1)),
    .other (.writer (.request .fut)), .other (.writer (.written .fut (.ok ()))), .reply,
    .other (.actor (.exec (.ret ()))), .other .go, .other .go, .other (.reader (.request .fut))]

theorem exchange_goes_on_exchangeRun :
    ∃ s s' : Server 32 (List UInt8) Unit HttpRequest,
      Lts.run (Server.step (Data 32 HttpRequest.code) exchangeConnection)
        (.init 32 (List UInt8) none ⟨4, 1, true, []⟩ ()) exchangeRun = some s ∧
      Lts.run (Server.step (Data 32 HttpRequest.code) exchangeConnection) s answerRun = some s' ∧
      answerRun.length + s'.effort ≤ s.effort ∧ (s'.Can (Data 32 HttpRequest.code) exchangeConnection ∨
        s'.connection.reader.returned = [rootRequest, hostRequest] ∧
          s'.connection.writer.source = ([rootRequest, hostRequest].map exchangeConnection.response).flatten) := by
  have hr : ∃ s s' : Server 32 (List UInt8) Unit HttpRequest,
      Lts.run (Server.step (Data 32 HttpRequest.code) exchangeConnection)
        (.init 32 (List UInt8) none ⟨4, 1, true, []⟩ ()) exchangeRun = some s ∧
      Lts.run (Server.step (Data 32 HttpRequest.code) exchangeConnection) s answerRun = some s' ∧
      s.connection.reader.source.arrived = ([rootWord, hostWord].take 2).flatten := ⟨_, _, rfl, rfl, rfl⟩
  obtain ⟨s, s', hr, hr', hsent⟩ := hr
  have hp : Lts.Along (Server.step (Data 32 HttpRequest.code) exchangeConnection)
      (Server.Peer [rootWord, hostWord] exchangeConnection [rootRequest, hostRequest])
      (.init 32 (List UInt8) none ⟨4, 1, true, []⟩ () : Server 32 (List UInt8) Unit HttpRequest) exchangeRun := by decide
  exact ⟨s, s', hr, hr', exchange_goes_on (k := 2) (data_gathers 32 HttpRequest.code) words_encode (by decide)
    (by decide) (fun q _ => HttpWorld.response_ne _ _ q) (by decide) (by decide) hp hr (by decide) hsent
    answerRun s' (by decide) hr'⟩

end Tokactor
