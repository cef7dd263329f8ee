import LouisNet.Http.ServerRun

set_option relaxedAutoImplicit false
set_option autoImplicit false

/-!
# Requests on one connection

Between two requests `resetContext` resets the parser, the request and the response, so that a
request should be answered as if it were the first one. The version of the response is the
exception: `HttpResponse::reset` leaves it empty, whereas a new response has `HTTP/1.1`. A
handler that does not set the version is answered for with an empty one from the second request
on.

## Main definitions

* `LouisNet.Http.ResponseOp` — what a handler can do to a response.
* `LouisNet.Http.RequestDetermined` — a handler whose effect depends on the request only.

## Main results

* `LouisNet.Http.toString_foldl_apply_eq_iff` — when a new response and a reset one are written
  alike.
-/

namespace LouisNet.Http

open Lib Net HttpParser WireRequest

/-! ## What a handler does to a response -/

/-- What a handler can do to a response: the setters, and `HttpContext::setResponse`. -/
inductive ResponseOp where
  | setVersion (version : Bytes)
  | setStatusCode (statusCode : ℤ)
  | setHeader (key value : Bytes)
  | setBody (body : Bytes)
  | setResponse (response : HttpResponse)
  deriving DecidableEq

namespace ResponseOp

/-- The response after an operation. -/
def apply (r : HttpResponse) : ResponseOp → HttpResponse
  | .setVersion version => r.setVersion version
  | .setStatusCode statusCode => r.setStatusCode statusCode
  | .setHeader key value => r.setHeader key value
  | .setBody body => r.setBody body
  | .setResponse response => response

/-- The operation sets the version. -/
def SetsVersion : ResponseOp → Prop
  | .setVersion _ => True
  | .setResponse _ => True
  | _ => False

/-- An operation that does not set the version does the same to the other fields. -/
theorem apply_version_of_not {op : ResponseOp} (h : ¬ op.SetsVersion) (r : HttpResponse)
    (v : Bytes) : apply { r with version_ := v } op = { apply r op with version_ := v } := by
  cases op with
  | setVersion _ => exact absurd trivial h
  | setResponse _ => exact absurd trivial h
  | setStatusCode _ => rfl
  | setHeader _ _ => rfl
  | setBody _ => rfl

/-- An operation that sets the version does not depend on the version before. -/
theorem apply_version_of {op : ResponseOp} (h : op.SetsVersion) (r : HttpResponse) (v : Bytes) :
    apply { r with version_ := v } op = apply r op := by
  cases op with
  | setVersion _ => rfl
  | setResponse _ => rfl
  | setStatusCode _ => exact absurd h id
  | setHeader _ _ => exact absurd h id
  | setBody _ => exact absurd h id

/-- Operations that do not set the version do the same to the other fields. -/
theorem foldl_apply_of_not {ops : List ResponseOp} (v : Bytes) :
    ∀ r : HttpResponse, (∀ op ∈ ops, ¬ op.SetsVersion) →
      ops.foldl apply { r with version_ := v } = { ops.foldl apply r with version_ := v } := by
  induction ops with
  | nil => exact fun _ _ => rfl
  | cons op ops ih =>
    intro r h
    rw [List.foldl_cons, apply_version_of_not (h op List.mem_cons_self),
      ih _ fun op' hop => h op' (List.mem_cons_of_mem op hop), List.foldl_cons]

/-- Operations that set the version do not depend on the version before. -/
theorem foldl_apply_of_exists {ops : List ResponseOp} (v : Bytes) :
    ∀ r : HttpResponse, (∃ op ∈ ops, op.SetsVersion) →
      ops.foldl apply { r with version_ := v } = ops.foldl apply r := by
  induction ops with
  | nil =>
    rintro r ⟨op, hop, -⟩
    cases hop
  | cons op ops ih =>
    intro r h
    by_cases hop : op.SetsVersion
    · rw [List.foldl_cons, apply_version_of hop, List.foldl_cons]
    · have htail : ∃ op ∈ ops, op.SetsVersion := by
        obtain ⟨op', hmem, hset⟩ := h
        rcases List.mem_cons.mp hmem with rfl | hmem
        · exact absurd hset hop
        · exact ⟨op', hmem, hset⟩
      rw [List.foldl_cons, apply_version_of_not hop, ih _ htail, List.foldl_cons]

end ResponseOp

/-- The version is written first. -/
theorem toString_version (r : HttpResponse) (v : Bytes) :
    ({ r with version_ := v } : HttpResponse).toString =
      v ++ ({ r with version_ := [] } : HttpResponse).toString := by
  simp [HttpResponse.toString, HttpResponse.statusLine]

/-- Two responses that differ in the version only are written alike if the versions are of
the same length, and only then. -/
theorem length_version_of_toString_eq {r : HttpResponse} {v w : Bytes}
    (h : ({ r with version_ := v } : HttpResponse).toString =
      ({ r with version_ := w } : HttpResponse).toString) : v.length = w.length := by
  rw [toString_version r v, toString_version r w] at h
  have := congrArg List.length h
  simp only [List.length_append] at this
  omega

/-- **When a new response and a reset one are written alike**: when the handler sets the
version. -/
theorem toString_foldl_apply_eq_iff (ops : List ResponseOp) (key value : Bytes) :
    ((ops.foldl ResponseOp.apply HttpServer.resetResponse).setHeader key value).toString =
        ((ops.foldl ResponseOp.apply {}).setHeader key value).toString ↔
      ∃ op ∈ ops, op.SetsVersion := by
  have hreset : HttpServer.resetResponse = { ({} : HttpResponse) with version_ := [] } := rfl
  rw [hreset]
  constructor
  · intro h
    by_contra hnot
    push Not at hnot
    rw [ResponseOp.foldl_apply_of_not [] {} hnot] at h
    have hver : (ops.foldl ResponseOp.apply {}).setHeader key value =
        { (ops.foldl ResponseOp.apply {}).setHeader key value with
          version_ := ascii "HTTP/1.1" } :=
      congrArg (HttpResponse.setHeader · key value)
        (ResponseOp.foldl_apply_of_not (ascii "HTTP/1.1") {} hnot)
    rw [hver] at h
    have hlen := @length_version_of_toString_eq ((ops.foldl ResponseOp.apply {}).setHeader key
      value) [] (ascii "HTTP/1.1") h
    exact absurd hlen (by decide)
  · intro h
    rw [ResponseOp.foldl_apply_of_exists [] {} h]

/-- A handler whose effect on the request and the response depends on the request only: it leaves
the request as `rewrite` says and does to the response what `ops` says. -/
def RequestDetermined {σ : Type} (cb : RequestHandler σ) (rewrite : HttpRequest → HttpRequest)
    (ops : HttpRequest → List ResponseOp) : Prop :=
  ∀ ctx world, (cb ctx world).1.request_ = rewrite ctx.request_ ∧
    (cb ctx world).1.response_ = (ops ctx.request_).foldl ResponseOp.apply ctx.response_

/-! ## Two runs -/

namespace HttpServer

variable {σ : Type}

section Determined

variable (server : HttpServer σ) {rewrite : Bytes → HttpRequest → HttpRequest}
  {ops : Bytes → HttpRequest → List ResponseOp}
  (hdet : ∀ path cb, server.handlers_.find? path = some cb →
    RequestDetermined cb (rewrite path) (ops path))

include hdet

/-- The answer of a registered handler. -/
theorem onRequest_of_some {req : HttpRequest} {cb : RequestHandler σ}
    (hcb : server.handlers_.find? req.path_ = some cb) (response : HttpResponse) (world : σ) :
    (server.onRequest ⟨req, response, []⟩ world).1.request_ = rewrite req.path_ req ∧
      (server.onRequest ⟨req, response, []⟩ world).1.response_ =
        (ops req.path_ req).foldl ResponseOp.apply response := by
  simp only [onRequest, hcb]
  exact hdet _ cb hcb ⟨req, response, []⟩ world

/-- The answer does not depend on the state of the handlers. -/
theorem response_answerRequest_world (response : HttpResponse) (world₁ world₂ : σ)
    (req : HttpRequest) :
    (server.answerRequest response world₁ req).1.response =
      (server.answerRequest response world₂ req).1.response := by
  rw [response_answerRequest, response_answerRequest]
  cases hcb : server.handlers_.find? req.path_ with
  | none => rw [server.onRequest_of_none hcb, server.onRequest_of_none hcb]
  | some cb =>
    obtain ⟨hreq₁, hresp₁⟩ := server.onRequest_of_some hdet hcb response world₁
    obtain ⟨hreq₂, hresp₂⟩ := server.onRequest_of_some hdet hcb response world₂
    rw [hreq₁, hresp₁, hreq₂, hresp₂]

/-- **When a request is answered alike with a reset response and with a new one**: when no
handler is registered for it, or when its handler sets the version. -/
theorem response_answerRequest_eq_iff (world₁ world₂ : σ) (req : HttpRequest) :
    (server.answerRequest resetResponse world₁ req).1.response =
        (server.answerRequest {} world₂ req).1.response ↔
      server.handlers_.find? req.path_ = none ∨ ∃ op ∈ ops req.path_ req, op.SetsVersion := by
  rw [response_answerRequest, response_answerRequest]
  cases hcb : server.handlers_.find? req.path_ with
  | none =>
    rw [server.onRequest_of_none hcb, server.onRequest_of_none hcb]
    exact iff_of_true rfl (.inl rfl)
  | some cb =>
    obtain ⟨hreq₁, hresp₁⟩ := server.onRequest_of_some hdet hcb resetResponse world₁
    obtain ⟨hreq₂, hresp₂⟩ := server.onRequest_of_some hdet hcb {} world₂
    rw [hreq₁, hresp₁, hreq₂, hresp₂]
    simp only [reduceCtorEq, false_or]
    exact toString_foldl_apply_eq_iff _ _ _

end Determined

/-- The answer to the last request: with the response of a new connection if it is the only
one, and with a reset one otherwise. -/
theorem getElem?_answersTo (server : HttpServer σ) (req : HttpRequest)
    (reqs : List HttpRequest) : ∀ (response : HttpResponse) (world : σ),
      ∃ world', (server.answersTo response world (reqs ++ [req]))[reqs.length]? =
        some (server.answerRequest (if reqs = [] then response else resetResponse) world' req).1 := by
  induction reqs with
  | nil => exact fun response world => ⟨world, rfl⟩
  | cons q reqs ih =>
    intro response world
    obtain ⟨world', h⟩ := ih resetResponse (server.answerRequest response world q).2
    refine ⟨world', ?_⟩
    rw [ite_self] at h
    rw [if_neg (List.cons_ne_nil q reqs)]
    exact h

/-- The bytes sent for the last request of a stream. -/
theorem response_of_getElem? (server : HttpServer σ) (world : σ) (rs : List WireRequest)
    (r : WireRequest) {chunks : List Bytes}
    (hc : chunks.flatten = WireRequest.encodeAll (rs ++ [r])) {n : ℕ} {e : Exchange}
    (he : (server.serve world chunks n).1.exchanges[rs.length]? = some e) :
    ∃ world', e.response = (server.answerRequest (if rs = [] then {} else resetResponse) world'
      r.request).1.response := by
  obtain ⟨k, hk, -⟩ := server.map_response_serve world (rs ++ [r]) hc n
  obtain ⟨world', hlast⟩ := server.getElem?_answersTo r.request (rs.map (·.request)) {} world
  have hresp := map_response_exchangesOf
    ((server.answersTo {} world ((rs ++ [r]).map (·.request))).take k) .kConnected
  refine ⟨world', ?_⟩
  rw [← hk] at hresp
  have hi := congrArg (fun l => l[rs.length]?) hresp
  simp only [List.getElem?_map, he, Option.map_some, List.getElem?_take, List.map_append,
    List.map_singleton] at hi
  simp only [List.length_map, List.map_eq_nil_iff] at hlast
  by_cases hlt : rs.length < k
  · rw [if_pos hlt, hlast] at hi
    exact Option.some.inj hi
  · rw [if_neg hlt] at hi
    cases hi

/-- Some run answers the last request of a stream. -/
theorem exists_getElem?_exchanges (server : HttpServer σ) (world : σ) (rs : List WireRequest)
    (r : WireRequest) :
    ∃ n e, (server.serve world [WireRequest.encodeAll (rs ++ [r])] n).1.exchanges[rs.length]? =
      some e := by
  obtain ⟨n, hn⟩ := server.exists_serve_singleton world (WireRequest.encodeAll (rs ++ [r]))
    (rs.length + 1)
  rw [map_turns_encodeAll] at hn
  have hlen := congrArg List.length (map_response_exchangesOf
    ((server.answersTo {} world ((rs ++ [r]).map (·.request))).take (rs.length + 1)) .kConnected)
  rw [List.length_map, List.length_map, List.length_take, length_answersTo, List.length_map,
    List.length_append, List.length_singleton, Nat.min_self, ← hn] at hlen
  exact ⟨n, _, List.getElem?_eq_getElem (by omega)⟩

/-- **Requests on one connection.** Let the effect of every handler on the response depend on
the request only. Then the bytes sent for a request at the end of any history are the bytes
sent for it as the first request of a new connection, however the bytes arrive, if and only if
there is no history, or no handler is registered for the request, or its handler sets the
version. What `resetContext` leaves is new but for the version of the response. -/
theorem responses_isolated_iff (server : HttpServer σ)
    (rewrite : Bytes → HttpRequest → HttpRequest) (ops : Bytes → HttpRequest → List ResponseOp)
    (hdet : ∀ path cb, server.handlers_.find? path = some cb →
      RequestDetermined cb (rewrite path) (ops path))
    (world₁ world₂ : σ) (rs : List WireRequest) (r : WireRequest) :
    ((∀ chunks₁ chunks₂ n₁ n₂ e₁ e₂, chunks₁.flatten = WireRequest.encodeAll (rs ++ [r]) →
      chunks₂.flatten = WireRequest.encodeAll [r] →
      (server.serve world₁ chunks₁ n₁).1.exchanges[rs.length]? = some e₁ →
      (server.serve world₂ chunks₂ n₂).1.exchanges[0]? = some e₂ →
      e₁.response = e₂.response) ↔
    rs = [] ∨ server.handlers_.find? r.request.path_ = none ∨
      ∃ op ∈ ops r.request.path_ r.request, op.SetsVersion) ∧
    ∀ c, resetContext c = { ctx := { response_ := { version_ := [] } } } := by
  refine ⟨?_, fun _ => rfl⟩
  constructor
  · intro h
    obtain ⟨n₁, e₁, h₁⟩ := server.exists_getElem?_exchanges world₁ rs r
    obtain ⟨n₂, e₂, h₂⟩ := server.exists_getElem?_exchanges world₂ [] r
    have heq := h _ _ n₁ n₂ e₁ e₂ (by simp) (by simp) h₁ h₂
    obtain ⟨w₁, hw₁⟩ := server.response_of_getElem? world₁ rs r (by simp) h₁
    obtain ⟨w₂, hw₂⟩ := server.response_of_getElem? world₂ [] r (by simp) h₂
    by_cases hrs : rs = []
    · exact .inl hrs
    · rw [hw₁, hw₂, if_neg hrs, if_pos rfl] at heq
      exact .inr ((server.response_answerRequest_eq_iff hdet w₁ w₂ r.request).mp heq)
  · intro h chunks₁ chunks₂ n₁ n₂ e₁ e₂ hc₁ hc₂ h₁ h₂
    obtain ⟨w₁, hw₁⟩ := server.response_of_getElem? world₁ rs r hc₁ h₁
    obtain ⟨w₂, hw₂⟩ := server.response_of_getElem? world₂ [] r hc₂ h₂
    rw [hw₁, hw₂, if_pos (rfl : ([] : List WireRequest) = [])]
    rcases h with hrs | h
    · rw [if_pos hrs]
      exact server.response_answerRequest_world hdet {} w₁ w₂ r.request
    · by_cases hrs : rs = []
      · rw [if_pos hrs]
        exact server.response_answerRequest_world hdet {} w₁ w₂ r.request
      · rw [if_neg hrs]
        exact (server.response_answerRequest_eq_iff hdet w₁ w₂ r.request).mpr h

/-- A server with one handler for `/`, which does `ops` to the response. -/
def rootServer (ops : List ResponseOp) : HttpServer Unit :=
  ({} : HttpServer Unit).registerHandler (ascii "/") fun ctx world =>
    ({ ctx with response_ := ops.foldl ResponseOp.apply ctx.response_ }, world)

/-- A handler that sets the version answers a second request as it answers the first. -/
theorem responses_isolated_iff_version :
    ∃ e₁ e₂,
      ((rootServer [.setVersion (ascii "HTTP/1.1"), .setBody (ascii "hi")]).serve ()
        [encodeAll [getRoot, getRoot]] 3).1.exchanges[1]? = some e₁ ∧
      ((rootServer [.setVersion (ascii "HTTP/1.1"), .setBody (ascii "hi")]).serve ()
        [encodeAll [getRoot]] 2).1.exchanges[0]? = some e₂ ∧
      e₁.response = e₂.response := by
  have hdet : ∀ path cb,
      (rootServer [.setVersion (ascii "HTTP/1.1"), .setBody (ascii "hi")]).handlers_.find? path =
        some cb → RequestDetermined cb (fun req => req)
          (fun _ => [.setVersion (ascii "HTTP/1.1"), .setBody (ascii "hi")]) := by
    intro path cb hcb
    obtain rfl := eq_of_find?_registerHandler hcb
    exact fun _ _ => ⟨rfl, rfl⟩
  have h := (responses_isolated_iff _ _ _ hdet () () [getRoot] getRoot).1.mpr
    (.inr (.inr ⟨.setVersion (ascii "HTTP/1.1"), by simp, trivial⟩))
  have h₁ := List.getElem?_eq_getElem (i := 1) (l := ((rootServer [.setVersion (ascii "HTTP/1.1"),
    .setBody (ascii "hi")]).serve () [encodeAll [getRoot, getRoot]] 3).1.exchanges) (by decide)
  have h₂ := List.getElem?_eq_getElem (i := 0) (l := ((rootServer [.setVersion (ascii "HTTP/1.1"),
    .setBody (ascii "hi")]).serve () [encodeAll [getRoot]] 2).1.exchanges) (by decide)
  exact ⟨_, _, h₁, h₂, h _ _ 3 2 _ _ (by simp) (by simp) h₁ h₂⟩

/-- A handler that sets the body only: the second response has no version. -/
theorem responses_not_isolated_body :
    (((rootServer [.setBody (ascii "hi")]).serve ()
        [WireRequest.encodeAll [getRoot, getRoot]] 3).1.exchanges[1]?).map (·.response) =
      some (ascii " 200 OK\r\nConnection: keep-alive\r\n\r\nhi") ∧
    (((rootServer [.setBody (ascii "hi")]).serve ()
        [WireRequest.encodeAll [getRoot]] 2).1.exchanges[0]?).map (·.response) =
      some (ascii "HTTP/1.1 200 OK\r\nConnection: keep-alive\r\n\r\nhi") := by
  decide

end HttpServer

end LouisNet.Http
