import LouisNet.Http.ServerConnection
import LouisNet.Net.EndpointCallbacks

set_option relaxedAutoImplicit false
set_option autoImplicit false

/-!
# The HTTP server over its socket

A connection of an `HttpServer`, from the bytes that arrive at its socket to those that the network
carries away. The loop thread, the loop of `HttpServer::onMessage` and the network go on in any
order: bytes arrive while requests are handled, responses are written in any pieces, and the
connection may be closed or reset at any time. The message callback of the server is invoked for
whatever bytes `readv` has returned. When the connection is closed the context of `onMessage` is
gone, and no more requests are handled.

## Main definitions

* `LouisNet.Http.HttpEndpoint` — an endpoint whose user is the server.
* `LouisNet.Http.HttpEndpoint.step` — one step of the loop thread, of the server or of the network.
* `LouisNet.Http.HttpEndpoint.Serving` — what the server has done with the bytes that were read.

## Main results

* `LouisNet.Http.HttpEndpoint.serving_step` — one step.
* `LouisNet.Http.HttpEndpoint.carried_prefix_responses` — what goes out is the beginning of the
  responses to what has come in.
* `LouisNet.Http.HttpEndpoint.carried_eq_responses` — when there is nothing left to do, all
  responses have gone out.
-/

namespace LouisNet.Http

open Lib Net

/-- A connection of the server, with its socket and the context that `onConnection` has created. -/
structure HttpEndpoint (σ : Type) where
  endpoint : Endpoint
  context : HttpServerContext := {}
  world : σ
  exchanges : List Exchange := []

namespace HttpEndpoint

variable {σ : Type}

/-- The connection as `onMessage` sees it. -/
def session (h : HttpEndpoint σ) : Session σ where
  context := h.context
  conn := h.endpoint.conn.state_
  buffer := h.endpoint.conn.inputBuffer_
  world := h.world
  exchanges := h.exchanges

/-- The calls of one iteration of the loop of `onMessage`, with what `write` returns in each of
them: the parser takes bytes from the buffer, the handler makes its calls, and the response is
sent. -/
def calls (x x' : Session σ) (results : ℕ → WriteResult) : List Call :=
  .consume (x.buffer.length - x'.buffer.length) ::
    (x'.exchanges.drop x.exchanges.length).flatMap fun e => HttpServer.replyCalls e results

/-- The steps. -/
inductive Step where
  /-- the loop thread, outside the message callback, or the network -/
  | endpoint (i : Endpoint.Input)
  /-- one iteration of the loop of `onMessage`, with what `write` returns in each call, and whether
  the socket has room behind it -/
  | iterate (results : ℕ → WriteResult) (room : ℕ → Bool)
  /-- the end of `onMessage` -/
  | ret

/-- One step. -/
def step (server : HttpServer σ) (h : HttpEndpoint σ) : Step → Option (HttpEndpoint σ)
  | .endpoint i =>
    assert (i.isCall = false ∧ (i = .ret → h.endpoint.messaging = false)) <|
    (h.endpoint.step i).map fun endpoint => { h with endpoint }
  | .iterate results room =>
    let x := server.onMessageIteration h.session
    assert (h.endpoint.messaging = true ∧ h.endpoint.conn.inputBuffer_ ≠ [] ∧
      h.endpoint.conn.state_ ≠ .kDisconnected) <|
    (run Endpoint.step h.endpoint
      ((calls h.session x results).mapIdx fun n k => .call k (room n))).map fun endpoint =>
        { endpoint, context := x.context, world := x.world, exchanges := x.exchanges }
  | .ret =>
    assert (h.endpoint.messaging = true ∧ h.endpoint.conn.inputBuffer_ = []) <|
    (h.endpoint.step .ret).map fun endpoint => { h with endpoint }

/-- A connection that `TcpServer` has just established. -/
def start (sockfd : ℕ) (world : σ) : HttpEndpoint σ where
  endpoint := Endpoint.established sockfd true true true true {}
  world

/-- The bytes that arrive at the socket, and those that the network carries away. -/
def traffic (r : Bytes × Bytes) (h : HttpEndpoint σ) : Step → Bytes × Bytes
  | .endpoint i => (r.1 ++ i.arriving, r.2 ++ h.endpoint.carrying i)
  | _ => r

/-! ## What an iteration leaves -/

/-- The calls for responses neither read from the socket nor take from the buffer. -/
theorem foldl_replyCalls_frame (exchanges : List Exchange) (results : ℕ → WriteResult)
    (c : TcpConnection) :
    let c' :=
      (exchanges.flatMap fun e => HttpServer.replyCalls e results).foldl TcpConnection.call c
    received c'.log = received c.log ∧ c'.messageCallback_ = c.messageCallback_ ∧
      c'.inputBuffer_ = c.inputBuffer_ := by
  have hcalls : ∀ k ∈ exchanges.flatMap fun e => HttpServer.replyCalls e results,
      ∀ len, k ≠ .consume len := by
    intro k hk len
    obtain ⟨e, -, hk⟩ := List.mem_flatMap.mp hk
    obtain ⟨n, hn, rfl⟩ := List.mem_mapIdx.mp hk
    cases (HttpServer.connCalls e)[n] with
    | send message => exact nofun
    | shutdown => exact nofun
  generalize exchanges.flatMap (fun e => HttpServer.replyCalls e results) = ks at hcalls
  induction ks generalizing c with
  | nil => exact ⟨rfl, rfl, rfl⟩
  | cons k ks ih =>
    obtain ⟨hreceived, hmessage, hinput⟩ := Endpoint.call_frame c k
    obtain ⟨hreceived', hmessage', hinput'⟩ :=
      ih (c.call k) fun k' hk' => hcalls k' (List.mem_cons_of_mem k hk')
    exact ⟨hreceived'.trans hreceived, hmessage'.trans hmessage,
      hinput'.trans (hinput (hcalls k List.mem_cons_self))⟩

/-- The parser takes bytes from the beginning of the buffer. -/
theorem drop_buffer (server : HttpServer σ) (x : Session σ) :
    x.buffer.drop (x.buffer.length - (server.onMessageIteration x).buffer.length) =
      (server.onMessageIteration x).buffer := by
  have hbuffer : (server.onMessageIteration x).buffer = (HttpServer.outcome x).rest := by
    by_cases hm : (HttpServer.outcome x).result = .kNeedMore
    · rw [HttpServer.onMessageIteration_needMore server hm]
    · rw [HttpServer.onMessageIteration_answer server hm]
      rfl
  rw [hbuffer]
  exact (List.suffix_iff_eq_drop.mp (HttpParser.suffix_parse _ _ _)).symm

/-- The connection of a session, behind the calls of an iteration. -/
theorem refines_calls (server : HttpServer σ) {c : TcpConnection} {x : Session σ}
    (h : HttpServer.Refines c x) (results : ℕ → WriteResult) :
    HttpServer.Refines ((calls x (server.onMessageIteration x) results).foldl TcpConnection.call c)
      (server.onMessageIteration x) := by
  unfold calls
  rw [List.foldl_cons]
  have hconsume : ∀ (len : ℕ) (y : Session σ), y.conn = x.conn → y.exchanges = x.exchanges →
      HttpServer.Refines (c.call (.consume len)) y := by
    intro len y hconn hexchanges
    refine ⟨h.state_eq.trans hconn.symm, ?_⟩
    rw [hexchanges]
    exact h.accepted_eq
  by_cases hm : (HttpServer.outcome x).result = .kNeedMore
  · rw [HttpServer.onMessageIteration_needMore server hm]
    rw [List.drop_length, List.flatMap_nil, List.foldl_nil]
    exact hconsume _ _ rfl rfl
  · rw [HttpServer.onMessageIteration_answer server hm]
    generalize server.answer x.context.ctx.response_ x.world (HttpServer.outcome x) = a
    simp only [HttpServer.reply, List.drop_left, List.flatMap_cons, List.flatMap_nil,
      List.append_nil]
    have hreply := HttpServer.refines_reply
      (hconsume (x.buffer.length - (HttpServer.outcome x).rest.length) x rfl rfl)
      a.1.handler a.1.calls a.1.response a.1.shutdown results rfl
    exact ⟨hreply.state_eq, hreply.accepted_eq⟩

/-- **An iteration of the loop of `onMessage` is its calls on the connection.** -/
theorem session_of_iterate (server : HttpServer σ) {h : HttpEndpoint σ} {w : Endpoint}
    {results : ℕ → WriteResult} {room : ℕ → Bool}
    (haccepted : accepted h.endpoint.conn.log = HttpServer.acceptedBytes h.exchanges)
    (hrun : run Endpoint.step h.endpoint
      ((calls h.session (server.onMessageIteration h.session) results).mapIdx
        fun n k => .call k (room n)) = some w) :
    HttpServer.Refines w.conn (server.onMessageIteration h.session) ∧
      w.conn.inputBuffer_ = (server.onMessageIteration h.session).buffer ∧
      received w.conn.log = received h.endpoint.conn.log ∧
      w.conn.messageCallback_ = h.endpoint.conn.messageCallback_ ∧
      w.messaging = h.endpoint.messaging ∧
      ∀ arrived carried, h.endpoint.Streams arrived carried → w.Streams arrived carried := by
  obtain ⟨hconn, hpoint, hcallback, hstreams⟩ := Endpoint.run_calls hrun
  obtain ⟨hreceived, hmessage, hinput⟩ := foldl_replyCalls_frame
    ((server.onMessageIteration h.session).exchanges.drop h.session.exchanges.length) results
    (h.endpoint.conn.call (.consume
      (h.session.buffer.length - (server.onMessageIteration h.session).buffer.length)))
  have hrefines : HttpServer.Refines h.endpoint.conn h.session := ⟨rfl, haccepted⟩
  rw [hconn]
  refine ⟨refines_calls server hrefines results, ?_, hreceived, hmessage, ?_, hstreams⟩
  · exact hinput.trans (drop_buffer server h.session)
  · unfold Endpoint.messaging
    rw [hpoint, hcallback]

/-! ## The bytes that were read, as the server saw them -/

/-- **A session that has read its bytes in chunks.** -/
def History (server : HttpServer σ) (world : σ) (chunks : List Bytes) (x : Session σ) : Prop :=
  ∃ n, ∀ pending, server.serve world (chunks ++ pending) n = (x, pending)

/-- The loop of `onMessage` goes around. -/
theorem History.iterate {server : HttpServer σ} {world : σ} {chunks : List Bytes} {x : Session σ}
    (h : History server world chunks x) (hne : x.buffer ≠ []) :
    History server world chunks (server.onMessageIteration x) := by
  obtain ⟨n, hn⟩ := h
  refine ⟨n + 1, fun pending => ?_⟩
  have hprevious := hn pending
  unfold HttpServer.serve at hprevious ⊢
  rw [Function.iterate_succ_apply', hprevious, HttpServer.serveStep_of_ne_nil server hne]

/-- One more chunk is read. -/
theorem History.receive {server : HttpServer σ} {world : σ} {chunks : List Bytes} {x : Session σ}
    (h : History server world chunks x) (hnil : x.buffer = []) (chunk : Bytes) :
    History server world (chunks ++ [chunk]) { x with buffer := chunk } := by
  obtain ⟨n, hn⟩ := h
  refine ⟨n + 1, fun pending => ?_⟩
  have hprevious := hn (chunk :: pending)
  rw [List.append_assoc, List.singleton_append]
  unfold HttpServer.serve at hprevious ⊢
  rw [Function.iterate_succ_apply', hprevious, HttpServer.serveStep_cons server hnil]

/-- **What the server has done with the bytes that were read.** As long as the connection is not
closed, its session has read all of them; behind that it has read the first of them. -/
structure Serving (server : HttpServer σ) (world : σ) (h : HttpEndpoint σ) : Prop where
  message : h.endpoint.conn.messageCallback_ = true
  accepted_eq : accepted h.endpoint.conn.log = HttpServer.acceptedBytes h.exchanges
  history : ∃ chunks x, History server world chunks x ∧ x.exchanges = h.exchanges ∧
    chunks.flatten <+: received h.endpoint.conn.log ∧
    (h.endpoint.conn.state_ ≠ .kDisconnected →
      x = h.session ∧ chunks.flatten = received h.endpoint.conn.log)
  empty : h.endpoint.conn.state_ ≠ .kDisconnected → h.endpoint.messaging = false →
    h.endpoint.conn.inputBuffer_ = []

/-- The loop thread, outside the message callback, or the network. -/
theorem Serving.endpoint {server : HttpServer σ} {world : σ} {h : HttpEndpoint σ}
    (hserving : Serving server world h) {i : Endpoint.Input} {w : Endpoint}
    (hs : h.endpoint.step i = some w) (hi : i.isCall = false)
    (hret : i = .ret → h.endpoint.messaging = false) :
    Serving server world { h with endpoint := w } := by
  obtain ⟨hmessage, haccepted, ⟨chunks, x, hhistory, hexchanges, hprefix, hup⟩, hempty⟩ := hserving
  rcases Endpoint.aside_or_data hs hi with haside | ⟨b, bytes, haside, hmessaging, hbefore⟩
  · have hstate : w.conn.state_ ≠ .kDisconnected →
        h.endpoint.conn.state_ ≠ .kDisconnected ∧ w.conn.state_ = h.endpoint.conn.state_ := by
      intro hne
      have hsame := haside.state.resolve_right hne
      exact ⟨hsame ▸ hne, hsame⟩
    refine ⟨haside.message.trans hmessage, haside.accepted.trans haccepted,
      ⟨chunks, x, hhistory, hexchanges, ?_, fun hne => ?_⟩, fun hne hmessaging => ?_⟩
    · show chunks.flatten <+: received w.conn.log
      rw [haside.received]
      exact hprefix
    · obtain ⟨hne', hsame⟩ := hstate hne
      obtain ⟨rfl, hwhole⟩ := hup hne'
      refine ⟨?_, hwhole.trans haside.received.symm⟩
      simp only [session, haside.input, hsame]
    · show w.conn.inputBuffer_ = []
      rw [haside.input]
      exact hempty (hstate hne).1 (Endpoint.messaging_of_step hs hi hret hmessaging)
  · have hreceived : received w.conn.log = received h.endpoint.conn.log ++ (b :: bytes) := by
      rw [haside.received]
      simp [Endpoint.afterData, TcpConnection.emit, received]
    have haccepted' : accepted w.conn.log = accepted h.endpoint.conn.log := by
      rw [haside.accepted]
      simp [Endpoint.afterData, TcpConnection.emit, accepted]
    have hinput : w.conn.inputBuffer_ = h.endpoint.conn.inputBuffer_ ++ (b :: bytes) := haside.input
    have hmessage' : w.conn.messageCallback_ = true := haside.message.trans hmessage
    by_cases hdisconnected : w.conn.state_ = .kDisconnected
    · refine ⟨hmessage', haccepted'.trans haccepted, ⟨chunks, x, hhistory, hexchanges, ?_,
        fun hne => absurd hdisconnected hne⟩, fun hne => absurd hdisconnected hne⟩
      show chunks.flatten <+: received w.conn.log
      rw [hreceived]
      exact hprefix.trans (List.prefix_append _ _)
    · have hsame : w.conn.state_ = h.endpoint.conn.state_ :=
        haside.state.resolve_right hdisconnected
      have hne' : h.endpoint.conn.state_ ≠ .kDisconnected := hsame ▸ hdisconnected
      obtain ⟨rfl, hwhole⟩ := hup hne'
      have hnil := hempty hne' hbefore
      have hread : (chunks ++ [b :: bytes]).flatten = received w.conn.log := by
        rw [List.flatten_append, hwhole, hreceived]
        simp
      refine ⟨hmessage', haccepted'.trans haccepted, ⟨chunks ++ [b :: bytes], _,
        hhistory.receive hnil (b :: bytes), rfl, ?_, fun _ => ⟨?_, hread⟩⟩, fun _ hidle => ?_⟩
      · show _ <+: received w.conn.log
        rw [hread]
      · simp only [session, hinput, hnil, hsame, List.nil_append]
      · have hidle' : w.messaging = false := hidle
        rw [hmessaging, hmessage] at hidle'
        cases hidle'

/-- **One step of the connection.** -/
theorem serving_step {server : HttpServer σ} {world : σ} {h h' : HttpEndpoint σ} {i : Step}
    (hs : step server h i = some h') (hserving : Serving server world h) :
    Serving server world h' := by
  cases i with
  | endpoint i =>
    obtain ⟨⟨hi, hret⟩, hs⟩ := assert_eq_some_iff.mp hs
    obtain ⟨w, hw, rfl⟩ := Option.map_eq_some_iff.mp hs
    exact hserving.endpoint hw hi hret
  | iterate results room =>
    obtain ⟨⟨hmessaging, hne, hup⟩, hs⟩ := assert_eq_some_iff.mp hs
    obtain ⟨w, hw, rfl⟩ := Option.map_eq_some_iff.mp hs
    obtain ⟨hrefines, hinput, hreceived, hmessage, hmessaging', -⟩ :=
      session_of_iterate server hserving.accepted_eq hw
    obtain ⟨chunks, x, hhistory, -, -, hwhole⟩ := hserving.history
    obtain ⟨rfl, hread⟩ := hwhole hup
    refine ⟨hmessage.trans hserving.message, hrefines.accepted_eq,
      ⟨chunks, _, hhistory.iterate hne, rfl, ?_, fun _ => ⟨?_, hread.trans hreceived.symm⟩⟩,
      fun _ hidle => ?_⟩
    · show _ <+: received w.conn.log
      rw [hread, hreceived]
    · simp only [session, hrefines.state_eq, hinput]
    · have hidle' : w.messaging = false := hidle
      rw [hmessaging', hmessaging] at hidle'
      cases hidle'
  | ret =>
    obtain ⟨⟨-, hnil⟩, hs⟩ := assert_eq_some_iff.mp hs
    obtain ⟨w, hw, rfl⟩ := Option.map_eq_some_iff.mp hs
    obtain ⟨-, hw⟩ := assert_eq_some_iff.mp hw
    obtain rfl := Option.some.inj hw
    obtain ⟨hmessage, haccepted, hhistory, hempty⟩ := hserving
    exact ⟨hmessage, haccepted, hhistory, fun _ _ => hnil⟩

/-! ## Runs -/

/-- The turns of a stream do not change when more of it arrives. -/
theorem exists_turns_append (server : HttpServer σ) (k : ℕ) :
    ∀ (response : HttpResponse) (world : σ) (s t : Bytes),
      ∃ j, (server.turns j response world (s ++ t)).map server.answerTurn =
        (server.turns k response world s).map server.answerTurn := by
  induction k with
  | zero => exact fun _ _ _ _ => ⟨0, rfl⟩
  | succ k ih =>
    intro response world s t
    by_cases hm : (HttpParser.parse {} {} s).result = .kNeedMore
    · refine ⟨0, ?_⟩
      simp [HttpServer.turns, hm]
    · have happend := HttpParser.parse_append_of_ne {} {} s t hm
      have hm' : (HttpParser.parse {} {} (s ++ t)).result ≠ .kNeedMore := by
        rw [happend]
        exact hm
      obtain ⟨j, hj⟩ := ih HttpServer.resetResponse
        (server.answer response world (HttpParser.parse {} {} s)).2
        (HttpParser.parse {} {} s).rest t
      refine ⟨j + 1, ?_⟩
      rw [server.turns_succ j response world hm', server.turns_succ k response world hm, happend]
      simp only [List.map_cons, HttpServer.answerTurn, HttpServer.answer_rest]
      exact congrArg _ hj

/-- What a step does to the bytes on their way. -/
theorem streams_step {server : HttpServer σ} {h h' : HttpEndpoint σ} {i : Step} {r : Bytes × Bytes}
    (hs : step server h i = some h')
    (haccepted : accepted h.endpoint.conn.log = HttpServer.acceptedBytes h.exchanges)
    (hstreams : h.endpoint.Streams r.1 r.2) :
    h'.endpoint.Streams (traffic r h i).1 (traffic r h i).2 := by
  cases i with
  | endpoint i =>
    obtain ⟨-, hs⟩ := assert_eq_some_iff.mp hs
    obtain ⟨w, hw, rfl⟩ := Option.map_eq_some_iff.mp hs
    exact Endpoint.streams_step hstreams hw
  | iterate results room =>
    obtain ⟨-, hs⟩ := assert_eq_some_iff.mp hs
    obtain ⟨w, hw, rfl⟩ := Option.map_eq_some_iff.mp hs
    obtain ⟨-, -, -, -, -, hkeep⟩ := session_of_iterate server haccepted hw
    exact hkeep r.1 r.2 hstreams
  | ret =>
    obtain ⟨-, hs⟩ := assert_eq_some_iff.mp hs
    obtain ⟨w, hw, rfl⟩ := Option.map_eq_some_iff.mp hs
    exact hstreams.local hw rfl

/-- The edge-triggered handlers miss nothing while the connection is up. -/
theorem attentive_step {server : HttpServer σ} {h h' : HttpEndpoint σ} {i : Step}
    (hs : step server h i = some h')
    (hattentive : h.endpoint.conn.state_ ≠ .kDisconnected → h.endpoint.Attentive) :
    h'.endpoint.conn.state_ ≠ .kDisconnected → h'.endpoint.Attentive := by
  cases i with
  | endpoint i | ret =>
    obtain ⟨-, hs⟩ := assert_eq_some_iff.mp hs
    obtain ⟨w, hw, rfl⟩ := Option.map_eq_some_iff.mp hs
    exact Endpoint.attentive_step hw hattentive
  | iterate results room =>
    obtain ⟨-, hs⟩ := assert_eq_some_iff.mp hs
    obtain ⟨w, hw, rfl⟩ := Option.map_eq_some_iff.mp hs
    exact run_invariant (I := fun w : Endpoint => w.conn.state_ ≠ .kDisconnected → w.Attentive)
      (fun hs h => Endpoint.attentive_step hs h) hw hattentive

/-- What holds of a connection and of its traffic. -/
structure Sound (server : HttpServer σ) (world : σ) (x : HttpEndpoint σ × Bytes × Bytes) :
    Prop where
  serving : Serving server world x.1
  streams : x.1.endpoint.Streams x.2.1 x.2.2
  attentive : x.1.endpoint.conn.state_ ≠ .kDisconnected → x.1.endpoint.Attentive

/-- It holds in every run. -/
theorem sound_run {server : HttpServer σ} {sockfd : ℕ} {world : σ} {steps : List Step}
    {x : HttpEndpoint σ × Bytes × Bytes}
    (hrun : run (observed (step server) traffic) (start sockfd world, ([], [])) steps = some x) :
    Sound server world x := by
  refine run_invariant (I := Sound server world) (fun hs hx => ?_) hrun ?_
  · obtain ⟨hs, hrecord⟩ := observed_eq_some_iff.mp hs
    refine ⟨serving_step hs hx.serving, ?_, attentive_step hs hx.attentive⟩
    rw [hrecord]
    exact streams_step hs hx.serving.accepted_eq hx.streams
  · refine ⟨⟨rfl, rfl, ⟨[], { world }, ⟨0, fun _ => rfl⟩, rfl, List.prefix_rfl, fun _ => ?_⟩,
      fun _ _ => rfl⟩, Endpoint.streams_established sockfd true true true true rfl,
      fun _ => Endpoint.attentive_established sockfd true true true true fun _ => rfl⟩
    exact ⟨rfl, rfl⟩

section Runs

variable (server : HttpServer σ) {sockfd : ℕ} {world : σ} {steps : List Step}
  {h : HttpEndpoint σ} {arrived carried : Bytes}

/-- **What goes out is the beginning of the responses to what has come in.** In every run of a
connection of the server, with any handlers, which may send on it and shut it down while they run,
whenever and in whatever pieces bytes arrive, are read, written and carried away, and whether or not
the connection is closed or reset: the bytes that the network has carried away are the beginning of
what the handlers and the server send, in this order, in the first turns of the stream of all bytes
that have arrived, as if it were read at once.

**Proof sketch.** What was carried away was written, what was written was accepted by `send`, and
what was accepted are the responses of the session. The session has read a beginning of the stream
in chunks, and its responses do not depend on the chunks. -/
theorem carried_prefix_responses
    (hrun : run (observed (step server) traffic) (start sockfd world, ([], [])) steps =
      some (h, (arrived, carried))) :
    ∃ k, carried <+: HttpServer.acceptedBytes (HttpServer.exchangesOf .kConnected
      ((server.turns k {} world arrived).map server.answerTurn)) := by
  obtain ⟨hserving, hstreams, -⟩ := sound_run hrun
  obtain ⟨chunks, x, ⟨n, hn⟩, hexchanges, hprefix, -⟩ := hserving.history
  obtain ⟨k, hk, -⟩ := server.exchanges_serve world chunks n
  have hsession : server.serve world chunks n = (x, []) := by
    simpa using hn []
  rw [hsession] at hk
  -- the chunks that were read are the beginning of what has arrived
  obtain ⟨rest, hrest⟩ : chunks.flatten <+: arrived :=
    hprefix.trans ⟨_, hstreams.received⟩
  obtain ⟨j, hj⟩ := exists_turns_append server k {} world chunks.flatten rest
  rw [hrest] at hj
  refine ⟨j, ?_⟩
  rw [hj, ← hk, hexchanges, ← hserving.accepted_eq]
  exact List.IsPrefix.trans ⟨_, hstreams.written.symm⟩ hstreams.inOrder

/-- A request arrives in two pieces, and a part of the response is carried away. -/
theorem carried_prefix_responses_partial : ∃ (h : HttpEndpoint Unit) (arrived carried : Bytes),
    run (observed (step {}) traffic) (start 5 (), ([], []))
      [.endpoint .ret, .endpoint (.kernel (.arrive (ascii "GET / HTTP/1.1\r\n") true)),
        .endpoint (.poll Reactor.EPOLLIN), .endpoint .go, .endpoint .go,
        .endpoint (.readv (.data (ascii "GET / HTTP/1.1\r\n"))),
        .iterate (fun _ => ⟨some 0, 0⟩) (fun _ => true), .ret,
        .endpoint (.kernel (.arrive (ascii "\r\n") true)),
        .endpoint (.readv (.data (ascii "\r\n"))),
        .iterate (fun _ => ⟨some 8, 0⟩) (fun _ => false),
        .endpoint (.kernel (.drain 8 true true))] =
      some (h, (arrived, carried)) ∧
    carried = ascii "HTTP/1.1" ∧
    ∃ k, carried <+: HttpServer.acceptedBytes (HttpServer.exchangesOf .kConnected
      ((HttpServer.turns {} k {} () arrived).map (HttpServer.answerTurn {}))) := by
  have hcheck : (run (observed (step ({} : HttpServer Unit)) traffic) (start 5 (), ([], []))
      [.endpoint .ret, .endpoint (.kernel (.arrive (ascii "GET / HTTP/1.1\r\n") true)),
        .endpoint (.poll Reactor.EPOLLIN), .endpoint .go, .endpoint .go,
        .endpoint (.readv (.data (ascii "GET / HTTP/1.1\r\n"))),
        .iterate (fun _ => ⟨some 0, 0⟩) (fun _ => true), .ret,
        .endpoint (.kernel (.arrive (ascii "\r\n") true)),
        .endpoint (.readv (.data (ascii "\r\n"))),
        .iterate (fun _ => ⟨some 8, 0⟩) (fun _ => false),
        .endpoint (.kernel (.drain 8 true true))]).map
      (fun x => x.2.2) = some (ascii "HTTP/1.1") := by
    decide +kernel
  obtain ⟨⟨h, arrived, carried⟩, hrun, hcarried⟩ := Option.map_eq_some_iff.mp hcheck
  exact ⟨h, arrived, carried, hrun, hcarried, carried_prefix_responses {} hrun⟩

/-- **Every response goes out.** In every run of a connection of the server: when the loop thread
waits in `epoll_wait` with nothing on the ready list, the network has carried away what was written,
and the connection is up, then exactly what the handlers and the server send in all turns of the
stream of the bytes that have arrived has gone out, up to where the connection is shut down. -/
theorem carried_eq_responses
    (hrun : run (observed (step server) traffic) (start sockfd world, ([], [])) steps =
      some (h, (arrived, carried)))
    (hup : h.endpoint.conn.state_ ≠ .kDisconnected) (hsettled : h.endpoint.Settled)
    (hsent : h.endpoint.kernel.sendQueue = []) :
    ∃ k, carried = HttpServer.acceptedBytes (HttpServer.exchangesOf .kConnected
        ((server.turns k {} world arrived).map server.answerTurn)) ∧
      ∀ j, server.turns (k + j) {} world arrived = server.turns k {} world arrived := by
  obtain ⟨hserving, hstreams, hattentive⟩ := sound_run hrun
  obtain ⟨hreadable, hwritable⟩ := (hattentive hup).not_ready hsettled
  simp only [Kernel.readable, Bool.or_eq_false_iff, Bool.not_eq_false', List.isEmpty_iff]
    at hreadable
  obtain ⟨⟨hread, -⟩, hbroken⟩ := hreadable
  have houtput : h.endpoint.conn.outputBuffer_ = [] := by
    by_contra hne
    have hfull := hwritable hne
    rw [Kernel.writable, (hattentive hup).room hsent] at hfull
    cases hfull
  have hidle : h.endpoint.messaging = false := Endpoint.messaging_of_not_inCallback hsettled.1
  obtain ⟨chunks, x, ⟨n, hn⟩, -, -, hwhole⟩ := hserving.history
  obtain ⟨rfl, hchunks⟩ := hwhole hup
  have hsession : server.serve world chunks n = (h.session, []) := by
    simpa using hn []
  have hreceived : received h.endpoint.conn.log ++ h.endpoint.kernel.recvQueue = arrived :=
    hstreams.received
  have harrived : chunks.flatten = arrived := by
    rw [hchunks, ← hreceived, hread, List.append_nil]
  obtain ⟨k, hk, hall⟩ := server.exchanges_serve world chunks n
  rw [hsession, harrived] at hk hall
  refine ⟨k, ?_, hall ⟨hserving.empty hup hidle, rfl⟩⟩
  calc carried
      = carried ++ h.endpoint.kernel.sendQueue := by rw [hsent, List.append_nil]
    _ = written h.endpoint.conn.log := hstreams.written.symm
    _ = written h.endpoint.conn.log ++ h.endpoint.conn.outputBuffer_ := by
      rw [houtput, List.append_nil]
    _ = accepted h.endpoint.conn.log := hstreams.whole hbroken
    _ = HttpServer.acceptedBytes h.exchanges := hserving.accepted_eq
    _ = _ := congrArg _ hk

/-- A server whose handler for `/` sends a byte itself. -/
def sendingServer : HttpServer Unit :=
  ({} : HttpServer Unit).registerHandler (ascii "/") fun ctx world =>
    ({ ctx with conn_ := ctx.conn_ ++ [.send (ascii "x")] }, world)

/-- A request is answered behind a byte that its handler sends, and the loop thread waits again. -/
theorem carried_eq_responses_sending : ∃ (h : HttpEndpoint Unit) (arrived carried : Bytes),
    run (observed (step sendingServer) traffic) (start 5 (), ([], []))
      [.endpoint .ret, .endpoint (.kernel (.arrive (ascii "GET / HTTP/1.1\r\n\r\n") true)),
        .endpoint (.poll Reactor.EPOLLIN), .endpoint .go, .endpoint .go,
        .endpoint (.readv (.data (ascii "GET / HTTP/1.1\r\n\r\n"))),
        .iterate (fun n => ⟨some (if n = 0 then 1 else 43), 0⟩) (fun _ => true), .ret,
        .endpoint (.kernel (.drain 44 true true)), .endpoint (.readv (.error EAGAIN)),
        .endpoint .go, .endpoint .task, .endpoint .ret, .endpoint .task, .endpoint .ret,
        .endpoint (.poll 0), .endpoint .go, .endpoint .go, .endpoint .go] =
      some (h, (arrived, carried)) ∧
    carried = ascii "xHTTP/1.1 200 OK\r\nConnection: keep-alive\r\n\r\n" ∧
    ∃ k, carried = HttpServer.acceptedBytes (HttpServer.exchangesOf .kConnected
        ((sendingServer.turns k {} () arrived).map sendingServer.answerTurn)) ∧
      ∀ j, sendingServer.turns (k + j) {} () arrived = sendingServer.turns k {} () arrived := by
  have hcheck : (run (observed (step sendingServer) traffic) (start 5 (), ([], []))
      [.endpoint .ret, .endpoint (.kernel (.arrive (ascii "GET / HTTP/1.1\r\n\r\n") true)),
        .endpoint (.poll Reactor.EPOLLIN), .endpoint .go, .endpoint .go,
        .endpoint (.readv (.data (ascii "GET / HTTP/1.1\r\n\r\n"))),
        .iterate (fun n => ⟨some (if n = 0 then 1 else 43), 0⟩) (fun _ => true), .ret,
        .endpoint (.kernel (.drain 44 true true)), .endpoint (.readv (.error EAGAIN)),
        .endpoint .go, .endpoint .task, .endpoint .ret, .endpoint .task, .endpoint .ret,
        .endpoint (.poll 0), .endpoint .go, .endpoint .go, .endpoint .go]).any
        (fun x => x.1.endpoint.conn.state_ = .kConnected ∧ x.1.endpoint.Settled ∧
          x.1.endpoint.kernel.sendQueue = [] ∧
          x.2.2 = ascii "xHTTP/1.1 200 OK\r\nConnection: keep-alive\r\n\r\n") = true := by
    decide +kernel
  obtain ⟨⟨h, arrived, carried⟩, hrun, hfields⟩ := (Option.any_eq_true _ _).mp hcheck
  obtain ⟨hconnected, hsettled, hsent, hcarried⟩ := of_decide_eq_true hfields
  dsimp only at hconnected hsettled hsent hcarried
  refine ⟨h, arrived, carried, hrun, hcarried, carried_eq_responses sendingServer hrun ?_ hsettled
    hsent⟩
  rw [hconnected]
  decide

end Runs

end HttpEndpoint

end LouisNet.Http
