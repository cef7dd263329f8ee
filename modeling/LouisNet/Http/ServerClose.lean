import LouisNet.Http.ServerRun

set_option relaxedAutoImplicit false
set_option autoImplicit false

/-!
# Requests behind a close

The server does not look at its own decision to close. It answers the turns behind a response
with `Connection: close` as well, and calls their handlers, although `send` drops what they
produce. So no handler is invoked behind a close exactly when the stream has no request for one
there. A handler that shuts the connection down itself loses its own response in the same way.

## Main definitions

* `LouisNet.Http.NoHandlerAfterClose` — no handler is invoked behind a close.
* `LouisNet.Http.HttpServer.Invokes`, `LouisNet.Http.HttpServer.Closes`,
  `LouisNet.Http.HttpServer.HangsUp` — what a turn does.

## Main results

* `LouisNet.Http.HttpServer.noHandlerAfterClose_exchangesOf` — from the responses of a run to the
  answers in its turns.
-/

namespace LouisNet.Http

open Lib Net HttpParser

/-- **No handler is invoked behind a close**, and every response made by a handler is taken by
`send`. -/
def NoHandlerAfterClose (exchanges : List Exchange) : Prop :=
  (exchanges.Pairwise fun a b => a.shutdown = true → b.handler = none) ∧
    ∀ e ∈ exchanges, e.handler ≠ none → e.accepted = true

instance (exchanges : List Exchange) : Decidable (NoHandlerAfterClose exchanges) :=
  inferInstanceAs (Decidable (_ ∧ _))

namespace HttpServer

variable {σ : Type}

/-- In the turn a handler is invoked: the parser reports a request for a registered path. -/
def Invokes (server : HttpServer σ) (t : Turn σ) : Prop :=
  t.outcome.result = .kSuccess ∧ server.handlers_.find? t.outcome.request.path_ ≠ none

/-- The turn ends with a close: the parser does not report a request, or the request, as the
handler leaves it, does not keep the connection alive. -/
def Closes (server : HttpServer σ) (t : Turn σ) : Prop :=
  t.outcome.result = .kSuccess →
    isKeepAlive (server.onRequest ⟨t.outcome.request, t.response, []⟩ t.world).1.request_ = false

/-- In the turn a handler is invoked, and calls `shutdown` on the connection. -/
def HangsUp (server : HttpServer σ) (t : Turn σ) : Prop :=
  t.outcome.result = .kSuccess ∧
    .shutdown ∈ (server.onRequest ⟨t.outcome.request, t.response, []⟩ t.world).1.conn_

/-- The answer names a handler exactly when one is invoked. -/
theorem handler_answerTurn (server : HttpServer σ) (t : Turn σ) :
    (server.answerTurn t).handler ≠ none ↔ server.Invokes t := by
  unfold answerTurn answer Invokes
  by_cases h : t.outcome.result = .kSuccess
  · simp [h]
  · simp [h]

/-- The answer shuts the connection down exactly when the turn ends with a close. -/
theorem shutdown_answerTurn (server : HttpServer σ) (t : Turn σ) :
    (server.answerTurn t).shutdown = true ↔ server.Closes t := by
  unfold answerTurn answer Closes
  by_cases h : t.outcome.result = .kSuccess
  · simp [h]
  · simp [h]

/-- The answer calls `shutdown` exactly when the handler does. -/
theorem shutdown_mem_calls_answerTurn (server : HttpServer σ) (t : Turn σ) :
    .shutdown ∈ (server.answerTurn t).calls ↔ server.HangsUp t := by
  unfold answerTurn answer HangsUp
  by_cases h : t.outcome.result = .kSuccess
  · simp [h]
  · simp [h]

/-- Where no handler is invoked, nothing is called. -/
theorem calls_answerTurn_of_handler_eq_none (server : HttpServer σ) {t : Turn σ}
    (h : (server.answerTurn t).handler = none) : (server.answerTurn t).calls = [] := by
  unfold answerTurn answer at h ⊢
  by_cases hr : t.outcome.result = .kSuccess
  · simp only [hr, if_true, Option.map_eq_none_iff] at h ⊢
    rw [server.onRequest_of_none h]
  · simp only [hr, if_false]

/-- A connection stays up as long as nobody shuts it down. -/
theorem foldl_state_eq_kConnected_iff {calls : List ConnCall} :
    ∀ {conn : StateE}, calls.foldl ConnCall.state conn = .kConnected ↔
      conn = .kConnected ∧ .shutdown ∉ calls := by
  induction calls with
  | nil => simp
  | cons c calls ih =>
    intro conn
    rw [List.foldl_cons, ih]
    cases c with
    | send message => simp [ConnCall.state]
    | shutdown =>
      have hdown : ConnCall.state conn .shutdown ≠ .kConnected := by
        simp only [ConnCall.state]
        split_ifs with hup
        · decide
        · exact hup
      simp [hdown]

/-- A response behind a call of `shutdown` in its handler is dropped. -/
theorem accepted_of_mem_exchangesOf {answers : List Answer} :
    ∀ {conn : StateE}, ∀ e ∈ exchangesOf conn answers, .shutdown ∈ e.calls →
      e.accepted = false := by
  induction answers with
  | nil =>
    intro conn e he
    cases he
  | cons a answers ih =>
    intro conn e he hmem
    rcases List.mem_cons.mp he with rfl | he
    · exact decide_eq_false fun hup => (foldl_state_eq_kConnected_iff.mp hup).2 hmem
    · exact ih e he hmem

/-- When no handler calls `shutdown` and none is invoked behind a close, all their responses are
taken. -/
theorem accepted_of_pairwise {answers : List Answer} (hup : ∀ a ∈ answers, .shutdown ∉ a.calls)
    (h : answers.Pairwise fun a b => a.shutdown = true → b.handler = none) :
    ∀ e ∈ exchangesOf .kConnected answers, e.handler ≠ none → e.accepted = true := by
  induction answers with
  | nil =>
    intro e he
    cases he
  | cons a answers ih =>
    obtain ⟨ha, htail⟩ := List.pairwise_cons.mp h
    have hconn : a.calls.foldl ConnCall.state .kConnected = .kConnected :=
      foldl_state_eq_kConnected_iff.mpr ⟨rfl, hup a List.mem_cons_self⟩
    intro e he hne
    rcases List.mem_cons.mp he with rfl | he
    · exact decide_eq_true hconn
    · by_cases hs : a.shutdown = true
      · -- behind the close nothing names a handler
        have hmem : answerOf e ∈ (exchangesOf _ answers).map answerOf := List.mem_map_of_mem he
        rw [map_answerOf_exchangesOf] at hmem
        exact absurd (ha (answerOf e) hmem hs) hne
      · rw [if_neg (fun hc => hs hc.1), hconn] at he
        exact ih (fun b hb => hup b (List.mem_cons_of_mem a hb)) htail e he hne

/-- On a connected connection, no handler is invoked behind a close exactly when no handler calls
`shutdown` and no answer behind a close names one. -/
theorem noHandlerAfterClose_exchangesOf {answers : List Answer}
    (hcalls : ∀ a ∈ answers, a.handler = none → a.calls = []) :
    NoHandlerAfterClose (exchangesOf .kConnected answers) ↔
      (∀ a ∈ answers, .shutdown ∉ a.calls) ∧
        answers.Pairwise fun a b => a.shutdown = true → b.handler = none := by
  have hmap := map_answerOf_exchangesOf answers .kConnected
  have hpair : ((exchangesOf .kConnected answers).Pairwise fun a b => a.shutdown = true →
      b.handler = none) ↔ answers.Pairwise fun a b => a.shutdown = true → b.handler = none := by
    conv_rhs => rw [← hmap, List.pairwise_map]
    rfl
  constructor
  · rintro ⟨hclosed, haccepted⟩
    refine ⟨fun a ha hmem => ?_, hpair.mp hclosed⟩
    obtain ⟨e, he, rfl⟩ : ∃ e ∈ exchangesOf .kConnected answers, answerOf e = a :=
      List.mem_map.mp (by rwa [hmap])
    have hne : e.handler ≠ none := by
      intro hnone
      rw [hcalls (answerOf e) ha hnone] at hmem
      cases hmem
    -- the handler has shut down the connection for its own response
    have hdropped := accepted_of_mem_exchangesOf e he hmem
    rw [haccepted e he hne] at hdropped
    cases hdropped
  · rintro ⟨hup, hclosed⟩
    exact ⟨hpair.mpr hclosed, accepted_of_pairwise hup hclosed⟩

/-- **Requests behind a close.** However the bytes of a stream arrive and whatever the handlers
do, no handler is invoked behind a close and every response of a handler is taken by `send`, if
and only if no handler that is invoked shuts the connection down and no turn of the stream behind
one that closes invokes a handler. -/
theorem no_handler_after_close_iff (server : HttpServer σ) (world : σ) (s : Bytes) :
    (∀ chunks : List Bytes, chunks.flatten = s → ∀ n,
      NoHandlerAfterClose (server.serve world chunks n).1.exchanges) ↔
    ∀ k, (∀ t ∈ server.turns k {} world s, ¬ server.HangsUp t) ∧
      (server.turns k {} world s).Pairwise fun a b => server.Closes a → ¬ server.Invokes b := by
  have hturns : ∀ k, NoHandlerAfterClose (exchangesOf .kConnected
      ((server.turns k {} world s).map server.answerTurn)) ↔
        (∀ t ∈ server.turns k {} world s, ¬ server.HangsUp t) ∧
        (server.turns k {} world s).Pairwise fun a b => server.Closes a → ¬ server.Invokes b := by
    intro k
    rw [noHandlerAfterClose_exchangesOf, List.pairwise_map]
    · simp only [List.forall_mem_map, shutdown_mem_calls_answerTurn, shutdown_answerTurn,
        ← handler_answerTurn, not_not]
    · intro a ha hnone
      obtain ⟨t, -, rfl⟩ := List.mem_map.mp ha
      exact server.calls_answerTurn_of_handler_eq_none hnone
  constructor
  · intro h k
    obtain ⟨n, hn⟩ := server.exists_serve_singleton world s k
    have hall := h [s] (by simp) n
    rwa [hn, hturns] at hall
  · rintro h chunks rfl n
    obtain ⟨k, hk, -⟩ := server.exchanges_serve world chunks n
    rw [hk, hturns]
    exact h k

-- a single request on a connection that is kept alive, with a handler that hangs up
example : ¬ NoHandlerAfterClose
    (((({} : HttpServer Unit).registerHandler (ascii "/") fun ctx world =>
        ({ ctx with conn_ := ctx.conn_ ++ [.shutdown] }, world)).serve ()
      [ascii "GET / HTTP/1.1\r\n\r\n"] 3).1.exchanges) := by
  decide

/-- A request behind one that closes the connection still reaches its handler. -/
theorem handler_after_close_pipelined :
    ¬ NoHandlerAfterClose
      (((({} : HttpServer Unit).registerHandler (ascii "/") fun ctx world => (ctx, world)).serve ()
        [ascii "GET / HTTP/1.0\r\n\r\nGET / HTTP/1.0\r\n\r\n"] 3).1.exchanges) := by
  decide

end HttpServer

end LouisNet.Http
