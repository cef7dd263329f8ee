import LouisNet.Http.Parser
import LouisNet.Net.TcpConnection

set_option relaxedAutoImplicit false
set_option autoImplicit false

/-!
# The HTTP server

The class `HttpServer` of `src/net/http/HttpServer.h` and `src/net/http/HttpServer.cc`, with
`HttpContext`: how the server turns the bytes received on one connection into calls of the
registered handlers and into responses. A handler is a function of the request and the response
in its context and of a state of its own, of any type `σ`. Of the connection the server uses
`send`, which takes a message only in the state `kConnected`, and `shutdown`; a handler can call
both as well, through `HttpContext::conn()`, before the server sends its response. It does not look
at the state of the connection, nor replace its context or its callbacks.

## Main definitions

* `LouisNet.Http.ConnCall` — what a handler can call on its connection.
* `LouisNet.Http.HttpServer`, `LouisNet.Http.Session` — the server, and one connection of it.
* `LouisNet.Http.HttpServer.onMessageIteration` — one iteration of the loop of `onMessage`.
* `LouisNet.Http.HttpServer.onMessage` — the loop, within a number of iterations.

## Main results

* `LouisNet.Http.HttpServer.onMessageIteration_needMore`,
  `LouisNet.Http.HttpServer.onMessageIteration_answer` — an iteration, by what the parser
  reports.
-/

namespace LouisNet.Http

open Lib Net

/-- A call on the connection. -/
inductive ConnCall where
  | send (message : Bytes)
  | shutdown
  deriving DecidableEq

namespace ConnCall

/-- The state of the connection after a call. -/
def state (conn : StateE) : ConnCall → StateE
  | .send _ => conn
  | .shutdown => if conn = .kConnected then .kDisconnecting else conn

/-- The bytes that the connection takes in some calls. -/
def taken : StateE → List ConnCall → Bytes
  | _, [] => []
  | conn, .send message :: calls => (if conn = .kConnected then message else []) ++ taken conn calls
  | conn, .shutdown :: calls => taken (state conn .shutdown) calls

end ConnCall

/-- `HttpContext`. Of the connection that `conn()` returns it has the calls made on it in the
current request, oldest first. -/
structure HttpContext where
  request_ : HttpRequest := {}
  response_ : HttpResponse := {}
  conn_ : List ConnCall := []
  deriving DecidableEq

/-- `HttpServer::RequestHandler`, with the state that the handlers share. -/
abbrev RequestHandler (σ : Type) : Type := HttpContext → σ → HttpContext × σ

/-- `HttpServer::HttpServerContext`. -/
structure HttpServerContext where
  ctx : HttpContext := {}
  parser : HttpParser := {}
  deriving DecidableEq

/-- `HttpServer`. -/
structure HttpServer (σ : Type) where
  handlers_ : SortedMap Bytes (RequestHandler σ) := .empty

/-- A response of the server: the path under which a handler was invoked for it, the calls of the
handler on the connection and the bytes of them that `send` took; its own bytes, whether `send` took
them, and whether `shutdown` was called behind it. -/
structure Exchange where
  handler : Option Bytes
  calls : List ConnCall
  taken : Bytes
  response : Bytes
  accepted : Bool
  shutdown : Bool
  deriving DecidableEq

/-- A connection of the server: its context, its state, the readable bytes of its input buffer,
the state of the handlers, and the responses so far. -/
structure Session (σ : Type) where
  context : HttpServerContext := {}
  conn : StateE := .kConnected
  buffer : Bytes := []
  world : σ
  exchanges : List Exchange := []

namespace HttpServer

variable {σ : Type}

/-- `HttpServer::registerHandler`. -/
def registerHandler (server : HttpServer σ) (path : Bytes) (cb : RequestHandler σ) : HttpServer σ :=
  { server with handlers_ := server.handlers_.insert path cb }

/-- `HttpServer::onRequest`. -/
def onRequest (server : HttpServer σ) (ctx : HttpContext) (world : σ) : HttpContext × σ :=
  match server.handlers_.find? ctx.request_.path_ with
  | none =>
    let response := ctx.response_.setVersion ctx.request_.version_
    let response := response.setStatusCode 404
    let response := response.setBody (ascii "Not Found")
    let response := response.setHeader (ascii "Content-Length") (ascii "10")
    ({ ctx with response_ := response }, world)
  | some cb => cb ctx world

/-- `HttpServer::isKeepAlive`. -/
def isKeepAlive (req : HttpRequest) : Bool :=
  if req.version_ = ascii "HTTP/1.1" then
    match req.headers_.find? (ascii "connection") with
    | none => true
    | some value => if value = ascii "close" then false else true
  else
    match req.headers_.find? (ascii "connection") with
    | none => false
    | some value => if value = ascii "keep-alive" then true else false

/-- `HttpServer::resetContext`. -/
def resetContext (c : HttpServerContext) : HttpServerContext where
  parser := c.parser.reset
  ctx := { request_ := c.ctx.request_.reset, response_ := c.ctx.response_.reset }

/-- The calls of the handler, then `conn->send(response)` and, if asked for, `conn->shutdown()`. -/
def reply (x : Session σ) (handler : Option Bytes) (calls : List ConnCall) (response : Bytes)
    (shutdown : Bool) : Session σ :=
  let conn := calls.foldl ConnCall.state x.conn
  { x with
    conn := if shutdown ∧ conn = .kConnected then .kDisconnecting else conn
    exchanges := x.exchanges ++
      [⟨handler, calls, ConnCall.taken x.conn calls, response, conn = .kConnected, shutdown⟩] }

/-- The body of the loop of `HttpServer::onMessage`. -/
def onMessageIteration (server : HttpServer σ) (x : Session σ) : Session σ :=
  let (result, parser, buffer, request) :=
    x.context.parser.parseRequest x.buffer x.context.ctx.request_
  let ctx : HttpContext := { request_ := request, response_ := x.context.ctx.response_ }
  let x := { x with buffer }
  match result with
  | .kSuccess =>
    let handler := (server.handlers_.find? request.path_).map fun _ => request.path_
    let (ctx, world) := server.onRequest ctx x.world
    let keepAlive := isKeepAlive ctx.request_
    let response := ctx.response_.setHeader (ascii "Connection")
      (if keepAlive then ascii "keep-alive" else ascii "close")
    let responseStr := response.toString
    let context := resetContext ⟨{ ctx with response_ := response }, parser⟩
    reply { x with context, world } handler ctx.conn_ responseStr (!keepAlive)
  | .kError =>
    let response := ctx.response_.setStatusCode 400
    let response := response.setHeader (ascii "Connection") (ascii "close")
    let response := response.setBody (ascii "Bad Request")
    let responseStr := response.toString
    let context := resetContext ⟨{ ctx with response_ := response }, parser⟩
    reply { x with context } none [] responseStr true
  | .kNeedMore => { x with context := ⟨ctx, parser⟩ }

/-- `HttpServer::onMessage` within the given number of iterations of its loop; `none` when the
loop has not ended. -/
def onMessage (server : HttpServer σ) : ℕ → Session σ → Option (Session σ)
  | 0, x => if x.buffer = [] then some x else none
  | n + 1, x => if x.buffer = [] then some x else server.onMessage n (server.onMessageIteration x)

/-! ## An iteration, by what the parser reports -/

/-- What the next call of `parseRequest` leaves. -/
def outcome (x : Session σ) : HttpParser.Outcome :=
  HttpParser.parse x.context.parser x.context.ctx.request_ x.buffer

/-- An answer of the server: the path under which a handler is invoked, the calls of the handler on
the connection, the bytes of the response, and whether the connection is shut down behind it. -/
structure Answer where
  handler : Option Bytes
  calls : List ConnCall
  response : Bytes
  shutdown : Bool

/-- The answer to a request, or to an error. -/
def answer (server : HttpServer σ) (response : HttpResponse) (world : σ)
    (o : HttpParser.Outcome) : Answer × σ :=
  if o.result = .kSuccess then
    let (ctx, world) := server.onRequest ⟨o.request, response, []⟩ world
    let keepAlive := isKeepAlive ctx.request_
    (⟨(server.handlers_.find? o.request.path_).map fun _ => o.request.path_, ctx.conn_,
      (ctx.response_.setHeader (ascii "Connection")
        (if keepAlive then ascii "keep-alive" else ascii "close")).toString, !keepAlive⟩, world)
  else
    (⟨none, [], (((response.setStatusCode 400).setHeader (ascii "Connection")
      (ascii "close")).setBody (ascii "Bad Request")).toString, true⟩, world)

/-- The response behind the first answer: the one that `reset` leaves. -/
def resetResponse : HttpResponse := HttpResponse.reset {}

/-- When the parser asks for more, it has taken what it can from the buffer. -/
theorem onMessageIteration_needMore (server : HttpServer σ) {x : Session σ}
    (h : (outcome x).result = .kNeedMore) :
    server.onMessageIteration x = { x with
      buffer := (outcome x).rest
      context := ⟨⟨(outcome x).request, x.context.ctx.response_, []⟩, (outcome x).parser⟩ } := by
  unfold outcome at h ⊢
  simp only [onMessageIteration, HttpParser.parseRequest_eq, h]

/-- When the parser reports a request or an error, the server answers and starts afresh behind
it. -/
theorem onMessageIteration_answer (server : HttpServer σ) {x : Session σ}
    (h : (outcome x).result ≠ .kNeedMore) :
    server.onMessageIteration x =
      reply
        { x with
          buffer := (outcome x).rest
          context := ⟨⟨{}, resetResponse, []⟩, {}⟩
          world := (server.answer x.context.ctx.response_ x.world (outcome x)).2 }
        (server.answer x.context.ctx.response_ x.world (outcome x)).1.handler
        (server.answer x.context.ctx.response_ x.world (outcome x)).1.calls
        (server.answer x.context.ctx.response_ x.world (outcome x)).1.response
        (server.answer x.context.ctx.response_ x.world (outcome x)).1.shutdown := by
  unfold outcome at h ⊢
  cases hr : (HttpParser.parse x.context.parser x.context.ctx.request_ x.buffer).result with
  | kNeedMore => exact absurd hr h
  | kError =>
    simp only [onMessageIteration, HttpParser.parseRequest_eq, answer, hr, reduceCtorEq, if_false]
    rfl
  | kSuccess =>
    simp only [onMessageIteration, HttpParser.parseRequest_eq, answer, hr, if_true]
    rfl

end HttpServer

end LouisNet.Http
