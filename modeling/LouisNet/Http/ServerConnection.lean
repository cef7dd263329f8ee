import LouisNet.Http.ServerRun
import LouisNet.Net.TcpConnectionOutput

set_option relaxedAutoImplicit false
set_option autoImplicit false

/-!
# The server on a connection

A session says of its connection only the state, and of a response only whether `send` took it.
This file connects it to the model of the connection: when the handlers of a run make their calls,
the responses are sent and the connection is shut down behind those that ask for it, whatever
`write` returns, then the connection is in the state of the session, and the bytes it has accepted
are those that the session says were taken.

## Main definitions

* `LouisNet.Http.HttpServer.acceptedBytes` — the bytes that were taken.
* `LouisNet.Http.HttpServer.Refines` — a connection below a session.
* `LouisNet.Http.HttpServer.replyCalls` — the calls on the connection.

## Main results

* `LouisNet.Http.HttpServer.refines_reply`, `LouisNet.Http.HttpServer.refines_serve` — one reply,
  and a run.
-/

namespace LouisNet.Http.HttpServer

open Lib Net

variable {σ : Type}

/-- The bytes that `send` took: those of the handlers, and the responses. -/
def acceptedBytes (exchanges : List Exchange) : Bytes :=
  exchanges.flatMap fun e => e.taken ++ if e.accepted then e.response else []

/-- A connection below a session: it is in the state of the session, and it has accepted the
bytes that were taken. -/
structure Refines (c : TcpConnection) (x : Session σ) : Prop where
  state_eq : c.state_ = x.conn
  accepted_eq : Net.accepted c.log = acceptedBytes x.exchanges

/-- A call on the connection, with what `write` returns in it. -/
def issue (result : WriteResult) : ConnCall → Call
  | .send message => .send message result
  | .shutdown => .shutdown

/-- The calls on the connection for a response: those of the handler, `send`, and `shutdown` if it
is asked for. -/
def connCalls (e : Exchange) : List ConnCall :=
  e.calls ++ .send e.response :: if e.shutdown then [.shutdown] else []

/-- These calls, with what `write` returns in each of them. -/
def replyCalls (e : Exchange) (results : ℕ → WriteResult) : List Call :=
  (connCalls e).mapIdx fun n call => issue (results n) call

/-- **Calls leave the connection as the session says**, by induction on them. -/
theorem foldl_issue (calls : List ConnCall) : ∀ (results : ℕ → WriteResult) (c : TcpConnection),
    let c' := (calls.mapIdx fun n call => issue (results n) call).foldl TcpConnection.call c
    c'.state_ = calls.foldl ConnCall.state c.state_ ∧
      Net.accepted c'.log = Net.accepted c.log ++ ConnCall.taken c.state_ calls := by
  induction calls with
  | nil => exact fun _ c => ⟨rfl, (List.append_nil _).symm⟩
  | cons call calls ih =>
    intro results c
    rw [List.mapIdx_cons, List.foldl_cons, List.foldl_cons]
    obtain ⟨hstate, haccepted⟩ := ih (fun n => results (n + 1)) (c.call (issue (results 0) call))
    cases call with
    | send message =>
      obtain ⟨hstate', haccepted'⟩ := c.accepted_send message (results 0)
      refine ⟨hstate.trans (congrArg (calls.foldl ConnCall.state) hstate'), haccepted.trans ?_⟩
      show Net.accepted (c.send message (results 0)).log ++
        ConnCall.taken (c.send message (results 0)).state_ calls = _
      rw [haccepted', hstate', List.append_assoc, ConnCall.taken]
    | shutdown =>
      obtain ⟨hstate', haccepted'⟩ := c.accepted_shutdown
      refine ⟨hstate.trans (congrArg (calls.foldl ConnCall.state) hstate'), haccepted.trans ?_⟩
      show Net.accepted c.shutdown.log ++ ConnCall.taken c.shutdown.state_ calls = _
      rw [haccepted', hstate', ConnCall.taken, ConnCall.state]

/-- What is taken in calls one after another. -/
theorem taken_append (calls calls' : List ConnCall) : ∀ conn : StateE,
    ConnCall.taken conn (calls ++ calls') =
      ConnCall.taken conn calls ++ ConnCall.taken (calls.foldl ConnCall.state conn) calls' := by
  induction calls with
  | nil => exact fun _ => rfl
  | cons call calls ih =>
    intro conn
    cases call with
    | send message =>
      rw [List.cons_append, ConnCall.taken, ih, ConnCall.taken, List.append_assoc]
      rfl
    | shutdown => exact ih _

/-- **A reply of the server is its calls on the connection.** -/
theorem refines_reply {c : TcpConnection} {x : Session σ} (h : Refines c x)
    (handler : Option Bytes) (calls : List ConnCall) (response : Bytes) (shutdown : Bool)
    (results : ℕ → WriteResult) {e : Exchange}
    (he : (reply x handler calls response shutdown).exchanges = x.exchanges ++ [e]) :
    Refines ((replyCalls e results).foldl TcpConnection.call c)
      (reply x handler calls response shutdown) := by
  have hcalls : connCalls e =
      calls ++ .send response :: if shutdown then [.shutdown] else [] := by
    obtain rfl : _ = e := List.singleton_injective (List.append_cancel_left he)
    rfl
  obtain ⟨hstate, haccepted⟩ := foldl_issue (connCalls e) results c
  refine ⟨hstate.trans ?_, haccepted.trans ?_⟩
  · rw [h.state_eq, hcalls, List.foldl_append]
    cases shutdown with
    | false => simp [reply, ConnCall.state]
    | true => simp [reply, ConnCall.state]
  · rw [h.state_eq, h.accepted_eq, hcalls, taken_append]
    cases shutdown with
    | false => simp [acceptedBytes, reply, ConnCall.taken]
    | true => simp [acceptedBytes, reply, ConnCall.taken]

/-! ## Runs -/

/-- The calls on the connection for the responses of a run, with what `write` returns in each of
them. -/
def runCalls (results : ℕ → ℕ → WriteResult) (exchanges : List Exchange) : List Call :=
  exchanges.zipIdx.flatMap fun p => replyCalls p.1 (results p.2)

/-- The calls for one response more. -/
theorem runCalls_append_singleton (results : ℕ → ℕ → WriteResult) (exchanges : List Exchange)
    (e : Exchange) : runCalls results (exchanges ++ [e]) =
      runCalls results exchanges ++ replyCalls e (results exchanges.length) := by
  simp [runCalls, List.zipIdx_append]

/-- An iteration of the loop of `onMessage` makes no response, or one with its calls. -/
theorem refines_onMessageIteration (server : HttpServer σ) (results : ℕ → ℕ → WriteResult)
    {c : TcpConnection} {x : Session σ}
    (h : Refines ((runCalls results x.exchanges).foldl TcpConnection.call c) x) :
    Refines ((runCalls results (server.onMessageIteration x).exchanges).foldl TcpConnection.call c)
      (server.onMessageIteration x) := by
  by_cases hm : (outcome x).result = .kNeedMore
  · rw [onMessageIteration_needMore server hm]
    exact ⟨h.state_eq, h.accepted_eq⟩
  · rw [onMessageIteration_answer server hm]
    generalize server.answer x.context.ctx.response_ x.world (outcome x) = a
    simp only [reply, runCalls_append_singleton, List.foldl_append]
    have hreply := refines_reply h a.1.handler a.1.calls a.1.response a.1.shutdown
      (results x.exchanges.length) rfl
    exact ⟨hreply.state_eq, hreply.accepted_eq⟩

/-- **A run of the server is its calls on the connection.** On a new connection and whatever
`write` returns, the calls for the responses of a run leave the connection in the state of the
session, with the responses accepted that the session says were taken. -/
theorem refines_serve (server : HttpServer σ) (results : ℕ → ℕ → WriteResult) {c : TcpConnection}
    (hc : c.state_ = .kConnected) (hlog : Net.accepted c.log = []) (world : σ)
    (chunks : List Bytes) (n : ℕ) :
    Refines ((runCalls results (server.serve world chunks n).1.exchanges).foldl
      TcpConnection.call c) (server.serve world chunks n).1 := by
  induction n with
  | zero => exact ⟨hc, hlog⟩
  | succ n ih =>
    unfold serve at ih ⊢
    rw [Function.iterate_succ_apply']
    generalize server.serveStep^[n] ({ world }, chunks) = x at ih ⊢
    unfold serveStep
    split_ifs
    · split
      · exact ih
      · exact ⟨ih.state_eq, ih.accepted_eq⟩
    · exact server.refines_onMessageIteration results ih

end LouisNet.Http.HttpServer
