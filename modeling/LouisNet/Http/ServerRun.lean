import LouisNet.Http.ParserGrammar
import LouisNet.Http.ParserStream
import LouisNet.Http.Server
import Mathlib.Logic.Function.Iterate

set_option relaxedAutoImplicit false
set_option autoImplicit false

/-!
# Runs of the server

Along a run the bytes of a connection arrive in chunks, and the server answers what the parser
reports. This file shows that a run does not depend on the chunks, except for how far it gets:
its responses are the responses to the first turns of the stream, where a turn is a request or
an error that the parser reports when it starts afresh behind the turn before. On a stream of
well-formed requests the turns are these requests.

## Main definitions

* `LouisNet.Http.HttpServer.serveStep`, `LouisNet.Http.HttpServer.serve` — a step and a run of
  the server on one connection.
* `LouisNet.Http.Turn`, `LouisNet.Http.HttpServer.turns` — the turns of a stream.
* `LouisNet.Http.WireRequest` — a well-formed request.
* `LouisNet.Http.HttpServer.answersTo` — the answers to a list of requests.

## Main results

* `LouisNet.Http.HttpServer.exchanges_serve` — the responses of a run are the responses to the
  first turns of the stream.
* `LouisNet.Http.HttpServer.exists_serve_singleton` — in one chunk, every turn is reached.
* `LouisNet.Http.HttpServer.map_turns_encodeAll` — the answers on a stream of requests.
-/

namespace LouisNet.Http

open Lib Net HttpParser

/-! ## Runs -/

/-- A turn of a connection: the response object and the state of the handlers that the server
starts with, and what the parser reports. -/
structure Turn (σ : Type) where
  response : HttpResponse
  world : σ
  outcome : HttpParser.Outcome

namespace HttpServer

variable {σ : Type}

/-- One step of a run: the loop of `onMessage` goes around, or the next chunk arrives behind
it. -/
def serveStep (server : HttpServer σ) (x : Session σ × List Bytes) : Session σ × List Bytes :=
  if x.1.buffer = [] then
    match x.2 with
    | [] => x
    | chunk :: pending => ({ x.1 with buffer := chunk }, pending)
  else (server.onMessageIteration x.1, x.2)

/-- A run of the server on a new connection on which the given chunks arrive. -/
def serve (server : HttpServer σ) (world : σ) (chunks : List Bytes) (n : ℕ) :
    Session σ × List Bytes :=
  server.serveStep^[n] ({ world }, chunks)

/-- With bytes in the buffer the loop goes around. -/
theorem serveStep_of_ne_nil (server : HttpServer σ) {x : Session σ} (h : x.buffer ≠ [])
    (pending : List Bytes) :
    server.serveStep (x, pending) = (server.onMessageIteration x, pending) := by
  simp [serveStep, h]

/-- Without bytes in the buffer the next chunk arrives. -/
theorem serveStep_cons (server : HttpServer σ) {x : Session σ} (h : x.buffer = [])
    (chunk : Bytes) (pending : List Bytes) :
    server.serveStep (x, chunk :: pending) = ({ x with buffer := chunk }, pending) := by
  simp [serveStep, h]

/-- What the parser reports when it starts afresh. -/
theorem outcome_of_fresh {x : Session σ} (hp : x.context.parser = {})
    (hr : x.context.ctx.request_ = {}) : outcome x = parse {} {} x.buffer := by
  unfold outcome
  rw [hp, hr]

/-- All chunks have arrived, and all their bytes have been taken from the buffer. -/
def Finished (x : Session σ × List Bytes) : Prop := x.1.buffer = [] ∧ x.2 = []

instance (x : Session σ × List Bytes) : Decidable (Finished x) :=
  inferInstanceAs (Decidable (_ ∧ _))

/-- The first turns of a stream. -/
def turns (server : HttpServer σ) : ℕ → HttpResponse → σ → Bytes → List (Turn σ)
  | 0, _, _, _ => []
  | n + 1, response, world, s =>
    let o := parse {} {} s
    if o.result = .kNeedMore then []
    else
      ⟨response, world, o⟩ ::
        server.turns n resetResponse (server.answer response world o).2 o.rest

/-- The answer of the server in a turn. -/
def answerTurn (server : HttpServer σ) (t : Turn σ) : Answer :=
  (server.answer t.response t.world t.outcome).1

/-- The responses to answers, on a connection in the given state. -/
def exchangesOf : StateE → List Answer → List Exchange
  | _, [] => []
  | conn, a :: answers =>
    let conn' := a.calls.foldl ConnCall.state conn
    ⟨a.handler, a.calls, ConnCall.taken conn a.calls, a.response, conn' = .kConnected,
        a.shutdown⟩ ::
      exchangesOf (if a.shutdown ∧ conn' = .kConnected then .kDisconnecting else conn') answers

/-- **The invariant of a run**: the connection is at the beginning of a turn on the stream `s`,
or it has read a part of it. -/
structure AtTurn (x : Session σ) (pending : List Bytes) (response : HttpResponse) (world : σ)
    (s : Bytes) : Prop where
  response_eq : x.context.ctx.response_ = response
  world_eq : x.world = world
  parse_eq : parse x.context.parser x.context.ctx.request_ (x.buffer ++ pending.flatten) =
    parse {} {} s

/-- A chunk that arrives belongs to the stream. -/
theorem AtTurn.receive {x : Session σ} {chunk : Bytes} {pending : List Bytes}
    {response : HttpResponse} {world : σ} {s : Bytes}
    (h : AtTurn x (chunk :: pending) response world s) (hb : x.buffer = []) :
    AtTurn { x with buffer := chunk } pending response world s := by
  refine ⟨h.response_eq, h.world_eq, ?_⟩
  have := h.parse_eq
  rwa [hb, List.nil_append, List.flatten_cons] at this

/-- When the parser asks for more, the turn goes on. -/
theorem AtTurn.needMore (server : HttpServer σ) {x : Session σ} {pending : List Bytes}
    {response : HttpResponse} {world : σ} {s : Bytes} (h : AtTurn x pending response world s)
    (hm : (outcome x).result = .kNeedMore) :
    AtTurn (server.onMessageIteration x) pending response world s := by
  rw [onMessageIteration_needMore server hm]
  refine ⟨h.response_eq, h.world_eq, ?_⟩
  rw [← h.parse_eq]
  exact (parse_append_needMore _ _ _ _ hm).symm

/-- What the parser reports from a part of the stream it reports from the stream. -/
theorem AtTurn.parse_stream {x : Session σ} {pending : List Bytes} {response : HttpResponse}
    {world : σ} {s : Bytes} (h : AtTurn x pending response world s)
    (hm : (outcome x).result ≠ .kNeedMore) :
    parse {} {} s = { outcome x with rest := (outcome x).rest ++ pending.flatten } := by
  rw [← h.parse_eq]
  exact parse_append_of_ne _ _ _ _ hm

/-- At the end of the stream there is no turn any more. -/
theorem AtTurn.turns_of_finished (server : HttpServer σ) {x : Session σ} {pending : List Bytes}
    {response : HttpResponse} {world : σ} {s : Bytes} (h : AtTurn x pending response world s)
    (hf : Finished (x, pending)) (j : ℕ) : server.turns j response world s = [] := by
  obtain ⟨hb, rfl⟩ : x.buffer = [] ∧ pending = [] := hf
  have hs := h.parse_eq
  rw [hb, List.flatten_nil, List.append_nil, parse_nil] at hs
  cases j with
  | zero => rfl
  | succ j =>
    unfold turns
    rw [← hs]
    rfl

/-- The turns behind a turn. -/
theorem turns_succ (server : HttpServer σ) (k : ℕ) (response : HttpResponse) (world : σ)
    {s : Bytes} (hs : (parse {} {} s).result ≠ .kNeedMore) :
    server.turns (k + 1) response world s = ⟨response, world, parse {} {} s⟩ ::
      server.turns k resetResponse (server.answer response world (parse {} {} s)).2
        (parse {} {} s).rest := by
  simp only [turns, if_neg hs]

/-- The answer does not depend on what is behind the turn. -/
theorem answer_rest (server : HttpServer σ) (response : HttpResponse) (world : σ)
    (o : HttpParser.Outcome) (rest : Bytes) :
    server.answer response world { o with rest := rest } = server.answer response world o := rfl

/-- **The responses of a run are the responses to the first turns of its stream**, and a run
that has finished has answered them all.

**Proof sketch.** Induction on the steps. A chunk that arrives and a parser that asks for more
leave the turn where it is; an answer is the answer to the turn, since the parser reports the
same from the part of the stream that is there, and the run goes on with the turn behind it. -/
theorem exchanges_iterate (server : HttpServer σ) (n : ℕ) :
    ∀ {x : Session σ} {pending : List Bytes} {response : HttpResponse} {world : σ} {s : Bytes},
      AtTurn x pending response world s →
      ∃ k, (server.serveStep^[n] (x, pending)).1.exchanges =
          x.exchanges ++ exchangesOf x.conn
            ((server.turns k response world s).map server.answerTurn) ∧
        (Finished (server.serveStep^[n] (x, pending)) →
          ∀ j, server.turns (k + j) response world s = server.turns k response world s) := by
  induction n with
  | zero =>
    intro x pending response world s h
    refine ⟨0, (List.append_nil _).symm, fun hf j => ?_⟩
    rw [h.turns_of_finished server hf, h.turns_of_finished server hf]
  | succ n ih =>
    intro x pending response world s h
    rw [Function.iterate_succ_apply]
    by_cases hb : x.buffer = []
    · cases pending with
      | nil =>
        have hstep : server.serveStep (x, []) = (x, []) := by simp [serveStep, hb]
        rw [hstep]
        exact ih h
      | cons chunk pending =>
        rw [server.serveStep_cons hb]
        exact ih (h.receive hb)
    · rw [server.serveStep_of_ne_nil hb]
      by_cases hm : (outcome x).result = .kNeedMore
      · obtain ⟨k, hk, hend⟩ := ih (h.needMore server hm)
        refine ⟨k, ?_, hend⟩
        rw [hk, onMessageIteration_needMore server hm]
      · have hs := h.parse_stream hm
        have hne : (parse {} {} s).result ≠ .kNeedMore := by
          rw [hs]
          exact hm
        have hnext : AtTurn (server.onMessageIteration x) pending resetResponse
            (server.answer response world (parse {} {} s)).2 (parse {} {} s).rest := by
          rw [onMessageIteration_answer server hm, hs, answer_rest, h.response_eq, h.world_eq]
          exact ⟨rfl, rfl, rfl⟩
        obtain ⟨k, hk, hend⟩ := ih hnext
        refine ⟨k + 1, ?_, fun hf j => ?_⟩
        · have ha : server.answerTurn ⟨response, world, parse {} {} s⟩ =
              (server.answer response world (outcome x)).1 := by
            unfold answerTurn
            rw [hs, answer_rest]
          rw [hk, server.turns_succ k response world hne, List.map_cons, exchangesOf, ha,
            onMessageIteration_answer server hm, h.response_eq, h.world_eq]
          simp only [reply, List.append_assoc, List.singleton_append]
        · rw [Nat.add_right_comm, server.turns_succ _ response world hne, hend hf j,
            server.turns_succ k response world hne]

/-- A run on a new connection. -/
theorem exchanges_serve (server : HttpServer σ) (world : σ) (chunks : List Bytes) (n : ℕ) :
    ∃ k, (server.serve world chunks n).1.exchanges = exchangesOf .kConnected
        ((server.turns k {} world chunks.flatten).map server.answerTurn) ∧
      (Finished (server.serve world chunks n) → ∀ j, server.turns (k + j) {} world chunks.flatten =
        server.turns k {} world chunks.flatten) := by
  have h₀ : AtTurn ({ world } : Session σ) chunks {} world chunks.flatten := ⟨rfl, rfl, rfl⟩
  obtain ⟨k, hk, hend⟩ := server.exchanges_iterate n h₀
  exact ⟨k, by simpa [serve] using hk, hend⟩

/-- **Every turn is reached when the stream arrives at once**, by induction on the turns. -/
theorem exists_iterate_turns (server : HttpServer σ) (k : ℕ) :
    ∀ x : Session σ, x.context.parser = {} → x.context.ctx.request_ = {} →
      ∃ n, (server.serveStep^[n] (x, [])).1.exchanges =
        x.exchanges ++ exchangesOf x.conn
          ((server.turns k x.context.ctx.response_ x.world x.buffer).map server.answerTurn) := by
  induction k with
  | zero => exact fun x _ _ => ⟨0, (List.append_nil _).symm⟩
  | succ k ih =>
    intro x hp hr
    have ho := outcome_of_fresh hp hr
    by_cases hm : (parse {} {} x.buffer).result = .kNeedMore
    · refine ⟨0, ?_⟩
      simp only [turns, if_pos hm]
      exact (List.append_nil _).symm
    · have hb : x.buffer ≠ [] := by
        intro hb
        rw [hb] at hm
        exact hm rfl
      have hm' : (outcome x).result ≠ .kNeedMore := by rwa [ho]
      have hit := onMessageIteration_answer server hm'
      obtain ⟨n, hn⟩ := ih (server.onMessageIteration x) (by rw [hit]; rfl) (by rw [hit]; rfl)
      refine ⟨n + 1, ?_⟩
      rw [Function.iterate_succ_apply, server.serveStep_of_ne_nil hb, hn, hit]
      simp only [turns, if_neg hm, List.map_cons, exchangesOf, answerTurn, ho, reply,
        List.append_assoc, List.singleton_append]

/-- A stream that arrives in one chunk. -/
theorem exists_serve_singleton (server : HttpServer σ) (world : σ) (s : Bytes) (k : ℕ) :
    ∃ n, (server.serve world [s] n).1.exchanges = exchangesOf .kConnected
      ((server.turns k {} world s).map server.answerTurn) := by
  obtain ⟨n, hn⟩ := server.exists_iterate_turns k { buffer := s, world } rfl rfl
  refine ⟨n + 1, ?_⟩
  rw [serve, Function.iterate_succ_apply, server.serveStep_cons rfl]
  exact hn

/-- The answer that a response was made from. -/
def answerOf (e : Exchange) : Answer := ⟨e.handler, e.calls, e.response, e.shutdown⟩

/-- The responses to answers are made from these answers. -/
theorem map_answerOf_exchangesOf (answers : List Answer) :
    ∀ conn : StateE, (exchangesOf conn answers).map answerOf = answers := by
  induction answers with
  | nil => exact fun _ => rfl
  | cons a answers ih =>
    intro conn
    rw [exchangesOf, List.map_cons, ih]
    rfl

/-- The responses to answers have the bytes of the answers. -/
theorem map_response_exchangesOf (answers : List Answer) (conn : StateE) :
    (exchangesOf conn answers).map (·.response) = answers.map (·.response) := by
  conv_rhs => rw [← map_answerOf_exchangesOf answers conn, List.map_map]
  rfl

/-- The handlers of the responses are those of the answers. -/
theorem map_handler_exchangesOf (answers : List Answer) (conn : StateE) :
    (exchangesOf conn answers).map (·.handler) = answers.map (·.handler) := by
  conv_rhs => rw [← map_answerOf_exchangesOf answers conn, List.map_map]
  rfl

end HttpServer

/-! ## Streams of well-formed requests -/

/-- A well-formed request. -/
structure WireRequest where
  line : Bytes
  headers : List Bytes
  body : Bytes
  form : RequestForm line headers body

namespace WireRequest

/-- The request that the parser reads. -/
def request (r : WireRequest) : HttpRequest :=
  { (parseRequestLine r.line {}).getD {} with
    headers_ := storeHeaders .empty r.headers
    body_ := r.body }

/-- The bytes of the request, and what follows. -/
def encode (r : WireRequest) (tail : Bytes) : Bytes := encodeRequest r.line r.headers r.body tail

/-- The bytes of requests in a row. -/
def encodeAll (rs : List WireRequest) : Bytes := rs.foldr encode []

/-- The parser reads the request and stops behind it. -/
theorem parse_encode (r : WireRequest) (tail : Bytes) :
    ∃ p, parse {} {} (r.encode tail) = ⟨.kSuccess, p, r.request, tail⟩ := by
  obtain ⟨p, method, path, version, hline, hm, hpath, hparse⟩ := HttpParser.parse_encode r.form tail
  refine ⟨p, ?_⟩
  have hreq : parseRequestLine r.line {} = some ⟨method, path, version, .empty, []⟩ :=
    parseRequestLine_eq_some_iff.mpr ⟨method, path, version, hline, hm, hpath, rfl⟩
  rw [encode, hparse, request, hreq]
  rfl

/-- The request `GET /`. -/
def getRoot : WireRequest where
  line := ascii "GET / HTTP/1.1"
  headers := []
  body := []
  form := ⟨by decide, by decide, by simp, rfl⟩

end WireRequest

namespace HttpServer

variable {σ : Type}

/-- A server with one handler has no other. -/
theorem eq_of_find?_registerHandler {path path' : Bytes} {cb cb' : RequestHandler σ}
    (h : (({} : HttpServer σ).registerHandler path cb).handlers_.find? path' = some cb') :
    cb = cb' := by
  unfold registerHandler at h
  rw [SortedMap.find?_insert] at h
  split_ifs at h
  · exact Option.some.inj h
  · cases h

/-- The answer to a request. -/
def answerRequest (server : HttpServer σ) (response : HttpResponse) (world : σ)
    (req : HttpRequest) : Answer × σ :=
  server.answer response world ⟨.kSuccess, {}, req, []⟩

/-- The bytes of the answer to a request. -/
theorem response_answerRequest (server : HttpServer σ) (response : HttpResponse) (world : σ)
    (req : HttpRequest) :
    (server.answerRequest response world req).1.response =
      ((server.onRequest ⟨req, response, []⟩ world).1.response_.setHeader (ascii "Connection")
        (if isKeepAlive (server.onRequest ⟨req, response, []⟩ world).1.request_ then
          ascii "keep-alive" else ascii "close")).toString := rfl

/-- The answer when no handler is registered. -/
theorem onRequest_of_none (server : HttpServer σ) {req : HttpRequest}
    (hcb : server.handlers_.find? req.path_ = none) (response : HttpResponse) (world : σ) :
    (server.onRequest ⟨req, response, []⟩ world).1 = ⟨req, (((response.setVersion
      req.version_).setStatusCode 404).setBody (ascii "Not Found")).setHeader
        (ascii "Content-Length") (ascii "10"), []⟩ := by
  simp only [onRequest, hcb]

/-- The answers to requests in a row, the first of them with the given response object. -/
def answersTo (server : HttpServer σ) : HttpResponse → σ → List HttpRequest → List Answer
  | _, _, [] => []
  | response, world, req :: reqs =>
    (server.answerRequest response world req).1 ::
      server.answersTo resetResponse (server.answerRequest response world req).2 reqs

/-- Every request is answered. -/
theorem length_answersTo (server : HttpServer σ) (reqs : List HttpRequest) :
    ∀ (response : HttpResponse) (world : σ),
      (server.answersTo response world reqs).length = reqs.length := by
  induction reqs with
  | nil => exact fun _ _ => rfl
  | cons req reqs ih => exact fun response world => congrArg (· + 1) (ih _ _)

/-- **The turns of a stream of well-formed requests are the requests**, by induction on them. -/
theorem map_turns_encodeAll (server : HttpServer σ) (rs : List WireRequest) :
    ∀ (k : ℕ) (response : HttpResponse) (world : σ),
      (server.turns k response world (WireRequest.encodeAll rs)).map server.answerTurn =
        (server.answersTo response world (rs.map (·.request))).take k := by
  induction rs with
  | nil =>
    intro k response world
    cases k <;> rfl
  | cons r rs ih =>
    intro k response world
    cases k with
    | zero => rfl
    | succ k =>
      obtain ⟨p, hp⟩ := r.parse_encode (WireRequest.encodeAll rs)
      have henc : WireRequest.encodeAll (r :: rs) = r.encode (WireRequest.encodeAll rs) := rfl
      have hne : (parse {} {} (WireRequest.encodeAll (r :: rs))).result ≠ .kNeedMore := by
        rw [henc, hp]
        exact fun h => by cases h
      rw [server.turns_succ k response world hne, List.map_cons, henc, hp, ih, List.map_cons,
        answersTo, List.take_succ_cons]
      rfl

/-- **The responses of a run on a stream of well-formed requests** are those to the first
requests, and to all of them once the run has finished. -/
theorem map_response_serve (server : HttpServer σ) (world : σ) (rs : List WireRequest)
    {chunks : List Bytes} (hc : chunks.flatten = WireRequest.encodeAll rs) (n : ℕ) :
    ∃ k, (server.serve world chunks n).1.exchanges = exchangesOf .kConnected
        ((server.answersTo {} world (rs.map (·.request))).take k) ∧
      (Finished (server.serve world chunks n) → rs.length ≤ k) := by
  obtain ⟨k, hk, hend⟩ := server.exchanges_serve world chunks n
  rw [hc] at hk hend
  rw [server.map_turns_encodeAll] at hk
  refine ⟨k, hk, fun hf => ?_⟩
  by_contra hlt
  have hlen : ∀ j, (server.turns j {} world (WireRequest.encodeAll rs)).length =
      min j rs.length := by
    intro j
    have := congrArg List.length (server.map_turns_encodeAll rs j {} world)
    rwa [List.length_map, List.length_take, length_answersTo, List.length_map] at this
  have := congrArg List.length (hend hf rs.length)
  rw [hlen, hlen] at this
  omega

/-- The loop ends on well-formed requests that have arrived, by induction on them. -/
theorem exists_finished_iterate (server : HttpServer σ) (rs : List WireRequest) :
    ∀ x : Session σ, x.context.parser = {} → x.context.ctx.request_ = {} →
      x.buffer = WireRequest.encodeAll rs → ∃ n, Finished (server.serveStep^[n] (x, [])) := by
  induction rs with
  | nil => exact fun x _ _ hb => ⟨0, hb, rfl⟩
  | cons r rs ih =>
    intro x hp hr hb
    obtain ⟨p, hparse⟩ := r.parse_encode (WireRequest.encodeAll rs)
    have ho : outcome x = ⟨.kSuccess, p, r.request, WireRequest.encodeAll rs⟩ := by
      rw [outcome_of_fresh hp hr, hb]
      exact hparse
    have hne : x.buffer ≠ [] := by
      intro hnil
      rw [outcome_of_fresh hp hr, hnil, parse_nil] at ho
      cases ho
    have hm : (outcome x).result ≠ .kNeedMore := by
      rw [ho]
      exact fun h => by cases h
    have hit := onMessageIteration_answer server hm
    obtain ⟨n, hn⟩ := ih (server.onMessageIteration x) (by rw [hit]; rfl) (by rw [hit]; rfl)
      (by rw [hit, ho]; rfl)
    refine ⟨n + 1, ?_⟩
    rwa [Function.iterate_succ_apply, server.serveStep_of_ne_nil hne]

/-- Some run on a stream of well-formed requests answers them all. -/
theorem exists_finished_encodeAll (server : HttpServer σ) (world : σ) (rs : List WireRequest) :
    ∃ n, Finished (server.serve world [WireRequest.encodeAll rs] n) := by
  obtain ⟨n, hn⟩ := server.exists_finished_iterate rs
    { buffer := WireRequest.encodeAll rs, world } rfl rfl rfl
  exact ⟨n + 1, hn⟩

end HttpServer

end LouisNet.Http
