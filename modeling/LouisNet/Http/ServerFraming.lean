import LouisNet.Http.ServerRun
import LouisNet.Lib.Framing

set_option relaxedAutoImplicit false
set_option autoImplicit false

/-!
# Response framing

A client finds the end of a response by its head: the header lines up to the blank line, and
behind it as many bytes of body as `Content-Length` says. The responses on a connection can be
told apart if every one of them is as long as it says. The response of the server itself to a
request without a handler is not: its body is `Not Found`, of nine bytes, and its length is
declared as ten.

## Main definitions

* `LouisNet.Http.readResponse` — the reader of one response.
* `LouisNet.Http.DeclaresLength` — a response with the length of its body in its head.

## Main results

* `LouisNet.Http.readResponse_toString` — the reader on a response and what follows it.
* `LouisNet.Http.framed_toString`, `LouisNet.Http.misframed_toString` — when a response is read
  back.
* `LouisNet.Http.HttpServer.framed_answerRequest` — which answers of the server are read back.
-/

namespace LouisNet.Http

open Lib Net HttpParser HttpResponse

/-! ## The reader of responses -/

/-- The lines up to the first blank one, at most the given number of them, and what is behind
it. -/
def readHeaders : ℕ → Bytes → Option (List Bytes × Bytes)
  | 0, _ => none
  | n + 1, s =>
    match cut crlf s with
    | none => none
    | some (line, rest) =>
      if line = [] then some ([], rest)
      else (readHeaders n rest).map fun p => (line :: p.1, p.2)

/-- The length that header lines declare. -/
def declaredLength (headers : List Bytes) : Option ℕ :=
  match lastValue (ascii "content-length") headers with
  | none => none
  | some v => if v ≠ [] ∧ v.all isdigit then some (ofDecimal v) else none

/-- The reader of one response: a status line, header lines up to a blank line, and as many
bytes as they declare. -/
def readResponse (s : Bytes) : Option (Bytes × Bytes) :=
  match cut crlf s with
  | none => none
  | some (_, rest) =>
    match readHeaders s.length rest with
    | none => none
    | some (headers, rest) =>
      match declaredLength headers with
      | none => none
      | some n =>
        if n ≤ rest.length then
          some (s.take (s.length - (rest.length - n)), s.drop (s.length - (rest.length - n)))
        else none

/-- The reader splits what it reads. -/
theorem eq_append_of_readResponse {s a b : Bytes} (h : readResponse s = some (a, b)) :
    s = a ++ b := by
  unfold readResponse at h
  split at h
  · cases h
  · split at h
    · cases h
    · split at h
      · cases h
      · split_ifs at h
        simp only [Option.some.injEq, Prod.mk.injEq] at h
        rw [← h.1, ← h.2, List.take_append_drop]

/-- There are more bytes in header lines than lines. -/
theorem length_lt_encodeHeaders (headers : List Bytes) (tail : Bytes) :
    headers.length < (encodeHeaders headers tail).length := by
  induction headers with
  | nil => simp [encodeHeaders, crlf]
  | cons h headers ih =>
    simp only [encodeHeaders, List.flatMap_cons, List.length_append, List.length_cons, crlf] at ih ⊢
    omega

/-- The header lines of a head are read back. -/
theorem readHeaders_encodeHeaders (tail : Bytes) :
    ∀ {headers : List Bytes} {n : ℕ}, (∀ h ∈ headers, h ≠ [] ∧ ¬ crlf <:+: h) →
      headers.length < n → readHeaders n (encodeHeaders headers tail) = some (headers, tail) := by
  intro headers
  induction headers with
  | nil =>
    intro n _ hn
    obtain ⟨m, rfl⟩ : ∃ m, n = m + 1 := ⟨n - 1, by simp at hn; omega⟩
    have henc : encodeHeaders [] tail = crlf ++ tail := rfl
    rw [readHeaders, henc, cut_blank]
    rfl
  | cons h headers ih =>
    intro n hform hn
    rw [List.length_cons] at hn
    obtain ⟨m, rfl⟩ : ∃ m, n = m + 1 := ⟨n - 1, by omega⟩
    obtain ⟨hne, hline⟩ := hform h List.mem_cons_self
    have henc : encodeHeaders (h :: headers) tail = h ++ (crlf ++ encodeHeaders headers tail) := by
      simp [encodeHeaders]
    rw [readHeaders, henc, cut_crlf hline]
    dsimp only
    rw [if_neg hne, ih (fun k hk => hform k (List.mem_cons_of_mem h hk)) (by omega)]
    rfl

/-! ## Responses that are read back -/

/-- The lines of the head of a response hold no line terminator. -/
structure HeadLines (r : HttpResponse) : Prop where
  status_not_infix : ¬ crlf <:+: r.statusLine
  header_not_infix : ∀ e ∈ r.headers_.entries, ¬ crlf <:+: headerLine e

/-- A response and what follows, by its lines. -/
theorem toString_append (r : HttpResponse) (tail : Bytes) :
    r.toString ++ tail =
      encodeRequest r.statusLine (r.headers_.entries.map headerLine) r.body_ tail := by
  simp [HttpResponse.toString, encodeRequest, encodeHeaders, List.flatMap_map]

/-- **The reader on a response and what follows it**: it takes as many bytes behind the head as
the head declares. -/
theorem readResponse_toString {r : HttpResponse} (hr : HeadLines r) {n : ℕ}
    (hn : declaredLength (r.headers_.entries.map headerLine) = some n) (tail : Bytes) :
    readResponse (r.toString ++ tail) =
      if n ≤ (r.body_ ++ tail).length then
        some ((r.toString ++ tail).take (r.toString.length - r.body_.length + n),
          (r.toString ++ tail).drop (r.toString.length - r.body_.length + n))
      else none := by
  have hlines : ∀ h ∈ r.headers_.entries.map headerLine, h ≠ [] ∧ ¬ crlf <:+: h := by
    intro h hh
    obtain ⟨e, he, rfl⟩ := List.mem_map.mp hh
    exact ⟨by simp [headerLine, ascii], hr.header_not_infix e he⟩
  have hbody : r.body_.length ≤ r.toString.length := by
    simp only [HttpResponse.toString, List.length_append]
    omega
  have hfuel : (r.headers_.entries.map headerLine).length < (r.toString ++ tail).length := by
    have := length_lt_encodeHeaders (r.headers_.entries.map headerLine) (r.body_ ++ tail)
    rw [toString_append, encodeRequest, List.length_append, List.length_append]
    omega
  have hcut : cut crlf (r.toString ++ tail) = some (r.statusLine,
      encodeHeaders (r.headers_.entries.map headerLine) (r.body_ ++ tail)) := by
    rw [toString_append, encodeRequest]
    exact cut_crlf hr.status_not_infix _
  simp only [readResponse, hcut, readHeaders_encodeHeaders _ hlines hfuel, hn]
  split_ifs with hle
  · have hm : (r.toString ++ tail).length - ((r.body_ ++ tail).length - n) =
        r.toString.length - r.body_.length + n := by
      simp only [List.length_append] at hle ⊢
      omega
    rw [hm]
  · rfl

/-- A response whose head declares the length of its body is read back. -/
theorem framed_toString {r : HttpResponse} (hr : HeadLines r)
    (hn : declaredLength (r.headers_.entries.map headerLine) = some r.body_.length) :
    Framed readResponse r.toString := by
  intro tail
  have hbody : r.toString.length - r.body_.length + r.body_.length = r.toString.length := by
    simp only [HttpResponse.toString, List.length_append]
    omega
  rw [readResponse_toString hr hn, if_pos (by simp), hbody, List.take_left, List.drop_left]

/-- A response whose head declares another length is not read back, whatever follows. -/
theorem misframed_toString {r : HttpResponse} (hr : HeadLines r) {n : ℕ}
    (hn : declaredLength (r.headers_.entries.map headerLine) = some n) (hne : n ≠ r.body_.length) :
    Misframed readResponse r.toString := by
  intro tail h
  rw [readResponse_toString hr hn] at h
  split_ifs at h with hle
  have hdrop := congrArg List.length (Prod.mk.inj (Option.some.inj h)).2
  rw [List.length_drop, List.length_append] at hdrop
  rw [List.length_append] at hle
  have hbody : r.body_.length ≤ r.toString.length := by
    simp only [HttpResponse.toString, List.length_append]
    omega
  omega

/-- The name in a header line is the key, in lower case. -/
theorem headerName_headerLine {e : Bytes × Bytes} (h : 58 ∉ e.1) :
    headerName (headerLine e) = e.1.map tolower := by
  have hkey : ∀ c ∈ e.1, decide (c ≠ 58) = true := by
    intro c hc
    simpa using ne_of_mem_of_not_mem hc h
  have hline : headerLine e = e.1 ++ 58 :: 32 :: e.2 := by simp [headerLine, ascii]
  rw [headerName, hline, List.takeWhile_append_of_pos hkey]
  simp

/-- Bytes without a carriage return hold no line terminator. -/
theorem not_crlf_infix_of_not_mem {l : Bytes} (h : 13 ∉ l) : ¬ crlf <:+: l := by
  intro hl
  exact h (hl.subset (by decide))

/-- The status line of a response with the version `HTTP/1.1`. -/
theorem not_crlf_infix_statusLine {r : HttpResponse} (hv : r.version_ = ascii "HTTP/1.1") :
    ¬ crlf <:+: r.statusLine := by
  have hcode : 13 ∉ Lib.toString r.statusCode_ := by
    intro h
    rcases mem_toString h with h | h
    · exact absurd h (by decide)
    · exact absurd h (by decide)
  have hmsg : 13 ∉ getStatusMessage r.statusCode_ := by
    unfold getStatusMessage
    split_ifs <;> decide
  have hver : 13 ∉ ascii "HTTP/1.1" := by decide
  have hsp : 13 ∉ ascii " " := by decide
  apply not_crlf_infix_of_not_mem
  simp only [statusLine, hv, List.mem_append, hcode, hmsg, hver, hsp, or_false, not_false_eq_true]

/-- A response with the version `HTTP/1.1` and the length of its body in its head, without line
terminators in the headers. -/
structure DeclaresLength (r : HttpResponse) : Prop where
  version_eq : r.version_ = ascii "HTTP/1.1"
  header_not_infix : ∀ e ∈ r.headers_.entries, ¬ crlf <:+: headerLine e
  length_mem : ∃ e ∈ r.headers_.entries, headerName (headerLine e) = ascii "content-length"
  length_eq : ∀ e ∈ r.headers_.entries, headerName (headerLine e) = ascii "content-length" →
    headerValue (headerLine e) = decimal r.body_.length

namespace DeclaresLength

/-- The last of the header lines that declare a length declares it. -/
theorem declaredLength_eq {r : HttpResponse} (hr : DeclaresLength r) :
    declaredLength (r.headers_.entries.map headerLine) = some r.body_.length := by
  obtain ⟨e, he, hname⟩ := hr.length_mem
  have hne : (r.headers_.entries.map headerLine).filter
      (fun line => headerName line = ascii "content-length") ≠ [] := by
    apply List.ne_nil_of_mem (a := headerLine e)
    exact List.mem_filter.mpr ⟨List.mem_map_of_mem he, by simpa using hname⟩
  have hlast := List.getLast_mem hne
  obtain ⟨hmem, hlast⟩ := List.mem_filter.mp hlast
  obtain ⟨e', he', heq⟩ := List.mem_map.mp hmem
  have hval : lastValue (ascii "content-length") (r.headers_.entries.map headerLine) =
      some (decimal r.body_.length) := by
    rw [lastValue, List.getLast?_eq_some_getLast hne, Option.map_some, ← heq,
      hr.length_eq e' he' (by rw [heq]; simpa using hlast)]
  have hdigits : (decimal r.body_.length).all isdigit = true :=
    List.all_eq_true.mpr (isdigit_of_mem_decimal _)
  simp only [declaredLength, hval]
  rw [if_pos ⟨decimal_ne_nil _, hdigits⟩, ofDecimal_decimal]

/-- The server adds its `Connection` header behind the handler. -/
theorem setConnection {r : HttpResponse} (hr : DeclaresLength r) (keepAlive : Bool) :
    DeclaresLength (r.setHeader (ascii "Connection")
      (if keepAlive then ascii "keep-alive" else ascii "close")) := by
  have hline : ¬ crlf <:+: headerLine (ascii "Connection",
      if keepAlive then ascii "keep-alive" else ascii "close") := by
    cases keepAlive <;> decide
  have hname : ∀ e : Bytes × Bytes, e.1 = ascii "Connection" →
      headerName (headerLine e) ≠ ascii "content-length" := by
    intro e he
    rw [headerName_headerLine (by rw [he]; decide), he]
    decide
  refine ⟨hr.version_eq, ?_, ?_, ?_⟩
  · intro e he
    rcases SortedMap.mem_entries_insert he with rfl | he
    · exact hline
    · exact hr.header_not_infix e he
  · obtain ⟨e, he, hlen⟩ := hr.length_mem
    exact ⟨e, SortedMap.mem_insertEntry_of_ne (fun hkey => hname e hkey hlen) he, hlen⟩
  · intro e he hlen
    rcases SortedMap.mem_entries_insert he with rfl | he
    · exact absurd hlen (hname _ rfl)
    · exact hr.length_eq e he hlen

/-- A response that declares its length is read back. -/
theorem framed {r : HttpResponse} (hr : DeclaresLength r) : Framed readResponse r.toString :=
  framed_toString ⟨not_crlf_infix_statusLine hr.version_eq, hr.header_not_infix⟩
    hr.declaredLength_eq

end DeclaresLength

/-! ## The responses on a connection -/

/-- The response of the server to a request without a handler. -/
def notFound (keepAlive : Bool) : HttpResponse :=
  (((((({} : HttpResponse).setVersion (ascii "HTTP/1.1")).setStatusCode 404).setBody
    (ascii "Not Found")).setHeader (ascii "Content-Length") (ascii "10")).setHeader
      (ascii "Connection") (if keepAlive then ascii "keep-alive" else ascii "close"))

/-- The response to a request without a handler is not read back: it declares one byte more than
it has. -/
theorem misframed_notFound (keepAlive : Bool) :
    Misframed readResponse (notFound keepAlive).toString := by
  have hlines : ∀ e ∈ (notFound keepAlive).headers_.entries, ¬ crlf <:+: headerLine e := by
    cases keepAlive <;> decide
  have hn : declaredLength ((notFound keepAlive).headers_.entries.map headerLine) = some 10 := by
    cases keepAlive <;> decide
  exact misframed_toString ⟨not_crlf_infix_statusLine rfl, hlines⟩ hn
    (show 10 ≠ (ascii "Not Found").length by decide)

/-- A response is not empty. -/
theorem toString_ne_nil (r : HttpResponse) : r.toString ≠ [] := by
  simp [HttpResponse.toString, crlf]

namespace HttpServer

variable {σ : Type}

/-- A handler that leaves a response which declares its length, on a new response or on a reset
one. -/
def FramesResponses (cb : RequestHandler σ) : Prop :=
  ∀ req response world, response = {} ∨ response = resetResponse →
    DeclaresLength (cb ⟨req, response, []⟩ world).1.response_

/-- The bytes of the responses that the server passes to `send`. -/
def sentBytes (x : Session σ) : Bytes := (x.exchanges.map (·.response)).flatten

/-- **The answer to a request is read back exactly when a handler is registered for it.** -/
theorem framed_answerRequest (server : HttpServer σ)
    (hcb : ∀ path cb, server.handlers_.find? path = some cb → FramesResponses cb)
    {response : HttpResponse} (hresp : response = {} ∨ response = resetResponse) (world : σ)
    {req : HttpRequest} (hver : req.version_ = ascii "HTTP/1.1") :
    (server.handlers_.find? req.path_ ≠ none ∧
      Framed readResponse (server.answerRequest response world req).1.response) ∨
    (server.handlers_.find? req.path_ = none ∧
      Misframed readResponse (server.answerRequest response world req).1.response) := by
  rw [response_answerRequest]
  cases hfind : server.handlers_.find? req.path_ with
  | none =>
    refine .inr ⟨rfl, ?_⟩
    rw [server.onRequest_of_none hfind, hver]
    rcases hresp with rfl | rfl
    · exact misframed_notFound _
    · exact misframed_notFound _
  | some cb =>
    refine .inl ⟨by simp, ?_⟩
    have hon : server.onRequest ⟨req, response, []⟩ world = cb ⟨req, response, []⟩ world := by
      simp only [onRequest, hfind]
    rw [hon]
    exact ((hcb _ cb hfind req response world hresp).setConnection _).framed

section Framing

variable (server : HttpServer σ)
  (hcb : ∀ path cb, server.handlers_.find? path = some cb → FramesResponses cb)

include hcb

/-- Every answer is read back whole, or never. -/
theorem framed_or_misframed_answersTo {reqs : List HttpRequest}
    (hver : ∀ req ∈ reqs, req.version_ = ascii "HTTP/1.1") :
    ∀ {response : HttpResponse} (world : σ), response = {} ∨ response = resetResponse →
      ∀ a ∈ server.answersTo response world reqs,
        a.response ≠ [] ∧ (Framed readResponse a.response ∨ Misframed readResponse a.response) := by
  induction reqs with
  | nil =>
    intro response world _ a ha
    cases ha
  | cons req reqs ih =>
    intro response world hresp a ha
    rcases List.mem_cons.mp ha with rfl | ha
    · refine ⟨toString_ne_nil _, ?_⟩
      exact (server.framed_answerRequest hcb hresp world (hver req List.mem_cons_self)).imp
        And.right And.right
    · exact ih (fun q hq => hver q (List.mem_cons_of_mem req hq)) _ (.inr rfl) a ha

/-- All answers are read back exactly when all requests have a handler. -/
theorem forall_framed_answersTo_iff {reqs : List HttpRequest}
    (hver : ∀ req ∈ reqs, req.version_ = ascii "HTTP/1.1") :
    ∀ {response : HttpResponse} (world : σ), response = {} ∨ response = resetResponse →
      ((∀ a ∈ server.answersTo response world reqs, Framed readResponse a.response) ↔
        ∀ req ∈ reqs, server.handlers_.find? req.path_ ≠ none) := by
  induction reqs with
  | nil =>
    intro response world _
    simp [answersTo]
  | cons req reqs ih =>
    intro response world hresp
    rw [answersTo, List.forall_mem_cons, List.forall_mem_cons,
      ih (fun q hq => hver q (List.mem_cons_of_mem req hq)) _ (.inr rfl)]
    refine and_congr_left fun _ => ?_
    rcases server.framed_answerRequest hcb hresp world (hver req List.mem_cons_self) with h | h
    · exact iff_of_true h.2 h.1
    · exact iff_of_false (fun hf => h.2 [] (hf [])) (not_not.mpr h.1)

end Framing

/-- The handlers of the answers to requests. -/
theorem map_handler_answersTo (server : HttpServer σ) (reqs : List HttpRequest) :
    ∀ (response : HttpResponse) (world : σ),
      (server.answersTo response world reqs).map (·.handler) =
        reqs.map fun req => (server.handlers_.find? req.path_).map fun _ => req.path_ := by
  induction reqs with
  | nil => exact fun _ _ => rfl
  | cons req reqs ih =>
    intro response world
    rw [answersTo, List.map_cons, List.map_cons, ih]
    rfl

/-- **Response framing.** Let every registered handler leave a response that declares its
length, and let well-formed requests of the version `HTTP/1.1` arrive in any chunks. Some run
answers them all; and the bytes sent in a run that has answered them split into one response
for each request, in the order of the requests, if and only if a handler is registered for
every one of them.

**Proof sketch.** The exchanges of the run are the answers to the requests. An answer of a
handler is read back whole, and a `Not Found` never is, so the stream of answers splits into
the answers exactly when there is no `Not Found` among them. -/
theorem responses_framed_iff (server : HttpServer σ) (world : σ) (rs : List WireRequest)
    (hcb : ∀ path cb, server.handlers_.find? path = some cb → FramesResponses cb)
    (hver : ∀ r ∈ rs, r.request.version_ = ascii "HTTP/1.1") :
    (∃ n, Finished (server.serve world [WireRequest.encodeAll rs] n)) ∧
    ∀ chunks n, chunks.flatten = WireRequest.encodeAll rs →
      Finished (server.serve world chunks n) →
      (((server.serve world chunks n).1.exchanges.map (·.handler) =
            rs.map (fun r => (server.handlers_.find? r.request.path_).map fun _ =>
              r.request.path_) ∧
          readAll readResponse (sentBytes (server.serve world chunks n).1).length
              (sentBytes (server.serve world chunks n).1) =
            some ((server.serve world chunks n).1.exchanges.map (·.response))) ↔
        ∀ r ∈ rs, server.handlers_.find? r.request.path_ ≠ none) := by
  have hver' : ∀ req ∈ rs.map (·.request), req.version_ = ascii "HTTP/1.1" := by
    intro req hreq
    obtain ⟨r, hr, rfl⟩ := List.mem_map.mp hreq
    exact hver r hr
  refine ⟨server.exists_finished_encodeAll world rs, fun chunks n hc hf => ?_⟩
  obtain ⟨k, hk, hend⟩ := server.map_response_serve world rs hc n
  have htake : (server.answersTo {} world (rs.map (·.request))).take k =
      server.answersTo {} world (rs.map (·.request)) := by
    apply List.take_of_length_le
    rw [length_answersTo, List.length_map]
    exact hend hf
  rw [htake] at hk
  have hresp := map_response_exchangesOf (server.answersTo {} world (rs.map (·.request)))
    .kConnected
  have hhandler : (server.serve world chunks n).1.exchanges.map (·.handler) =
      rs.map fun r => (server.handlers_.find? r.request.path_).map fun _ => r.request.path_ := by
    rw [hk, map_handler_exchangesOf, map_handler_answersTo, List.map_map]
    rfl
  rw [← hk] at hresp
  have hmem : ∀ w ∈ (server.answersTo {} world (rs.map (·.request))).map (·.response),
      w ≠ [] ∧ (Framed readResponse w ∨ Misframed readResponse w) := by
    intro w hw
    obtain ⟨a, ha, rfl⟩ := List.mem_map.mp hw
    exact server.framed_or_misframed_answersTo hcb hver' world (.inl rfl) a ha
  rw [and_iff_right hhandler, sentBytes, hresp,
    readAll_flatten_iff (fun _ _ _ => eq_append_of_readResponse) _ hmem le_rfl,
    List.forall_mem_map, server.forall_framed_answersTo_iff hcb hver' world (.inl rfl),
    List.forall_mem_map]

/-- A response that declares the length of its body. -/
def hello (r : HttpResponse) : HttpResponse :=
  ((r.setVersion (ascii "HTTP/1.1")).setHeader (ascii "Content-Length") (ascii "5")).setBody
    (ascii "hello")

/-- A server with one handler for `/`, which declares the length of its body. -/
def helloServer : HttpServer Unit :=
  ({} : HttpServer Unit).registerHandler (ascii "/") fun ctx world =>
    ({ ctx with response_ := hello ctx.response_ }, world)

/-- The handler declares the length of its body. -/
theorem framesResponses_helloServer {path : Bytes} {cb : RequestHandler Unit}
    (hcb : helloServer.handlers_.find? path = some cb) : FramesResponses cb := by
  have hnew : DeclaresLength (hello {}) :=
    ⟨rfl, by decide, ⟨(ascii "Content-Length", ascii "5"), by decide⟩, by decide⟩
  obtain rfl := eq_of_find?_registerHandler hcb
  rintro req response world (rfl | rfl)
  · exact hnew
  · exact hnew

/-- Two requests for a registered path. -/
theorem responses_framed_iff_hello :
    Finished (helloServer.serve () [WireRequest.encodeAll [.getRoot, .getRoot]] 3) ∧
    readAll readResponse
        (sentBytes (helloServer.serve () [WireRequest.encodeAll [.getRoot, .getRoot]] 3).1).length
        (sentBytes (helloServer.serve () [WireRequest.encodeAll [.getRoot, .getRoot]] 3).1) =
      some ((helloServer.serve () [WireRequest.encodeAll [.getRoot, .getRoot]] 3).1.exchanges.map
        (·.response)) := by
  have hf : Finished (helloServer.serve () [WireRequest.encodeAll [.getRoot, .getRoot]] 3) := by
    decide
  exact ⟨hf, (((responses_framed_iff helloServer () [.getRoot, .getRoot]
    (fun _ _ => framesResponses_helloServer) (by decide)).2 _ 3 (by simp) hf).mpr (by decide)).2⟩

/-- A request for a path without a handler: the response is one byte shorter than it declares. -/
theorem responses_not_framed_not_found :
    Finished (({} : HttpServer Unit).serve () [WireRequest.encodeAll [.getRoot]] 2) ∧
    sentBytes (({} : HttpServer Unit).serve () [WireRequest.encodeAll [.getRoot]] 2).1 =
      ascii "HTTP/1.1 404 Not Found\r\n" ++ ascii "Connection: keep-alive\r\n" ++
        ascii "Content-Length: 10\r\n\r\n" ++ ascii "Not Found" ∧
    readAll readResponse
        (sentBytes (({} : HttpServer Unit).serve () [WireRequest.encodeAll [.getRoot]] 2).1).length
        (sentBytes (({} : HttpServer Unit).serve () [WireRequest.encodeAll [.getRoot]] 2).1) =
      none := by
  decide

end HttpServer

end LouisNet.Http
