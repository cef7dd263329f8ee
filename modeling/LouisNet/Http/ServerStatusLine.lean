import LouisNet.Http.ResponseDecode
import LouisNet.Http.ServerFraming

set_option relaxedAutoImplicit false
set_option autoImplicit false

/-!
# The status line of the server

To a request without a handler the server answers with the version of the request in its status
line. The version is everything behind the second space of the request line. It holds no line
terminator, so no header line can be added to the response; but it can hold spaces, and what is
behind the first of them is read as the status code.

## Main definitions

* `LouisNet.Http.decodeHead` — the head of a response as a client reads it.
* `LouisNet.Http.field` — the texts between the spaces of a line.
* `LouisNet.Http.HttpServer.Unforged` — the answer to the first request, as the server means it.

## Main results

* `LouisNet.Http.HttpServer.decodeHead_answer` — the answer, as a client reads it.
* `LouisNet.Http.HttpServer.unforged_iff` — when it is as the server means it.
-/

namespace LouisNet.Http

open Lib Net HttpParser HttpResponse

/-! ## The head of a response -/

/-- The version and the code of the status line, and the header lines up to the first blank
line. -/
def decodeHead (s : Bytes) : Option (Bytes × Bytes × List Bytes) :=
  (cut crlf s).bind fun p => (readHeaders s.length p.2).bind fun q =>
    (decodeStatusLine p.1).map fun t => (t.1, t.2, q.1)

/-- The text between two spaces of a line, counted from zero. -/
def field : ℕ → Bytes → Option Bytes
  | 0, line => some (line.takeWhile (· ≠ 32))
  | n + 1, line => (cut [32] line).bind fun p => field n p.2

/-- The head of a response whose lines hold no line terminator. -/
theorem decodeHead_toString {r : HttpResponse} (hr : HeadLines r) :
    decodeHead r.toString =
      (decodeStatusLine r.statusLine).map fun t =>
        (t.1, t.2, r.headers_.entries.map headerLine) := by
  have hlines : ∀ h ∈ r.headers_.entries.map headerLine, h ≠ [] ∧ ¬ crlf <:+: h := by
    intro h hh
    obtain ⟨e, he, rfl⟩ := List.mem_map.mp hh
    exact ⟨by simp [headerLine, ascii], hr.header_not_infix e he⟩
  have happ := toString_append r []
  rw [List.append_nil, encodeRequest] at happ
  have hfuel : (r.headers_.entries.map headerLine).length < r.toString.length := by
    have := length_lt_encodeHeaders (r.headers_.entries.map headerLine) (r.body_ ++ [])
    rw [happ, List.length_append, List.length_append]
    omega
  have hcut : cut crlf r.toString = some (r.statusLine,
      encodeHeaders (r.headers_.entries.map headerLine) (r.body_ ++ [])) := by
    rw [happ]
    exact cut_crlf hr.status_not_infix _
  rw [decodeHead, hcut, Option.bind_some, readHeaders_encodeHeaders _ hlines hfuel,
    Option.bind_some]

/-- **The code of a status line as it is read**: the text behind the first space of the version, if
there is one, and the code that was set otherwise. -/
theorem decodeStatusLine_statusLine (r : HttpResponse) :
    ∃ version, decodeStatusLine r.statusLine =
      some (version, (field 1 r.version_).getD (Lib.toString r.statusCode_)) := by
  have hcode : 32 ∉ Lib.toString r.statusCode_ := not_mem_toString (.inl rfl) _
  cases hcut : cut [32] r.version_ with
  | none =>
    refine ⟨r.version_, ?_⟩
    rw [field, hcut]
    exact decodeStatusLine_eq (cut_singleton_eq_none_iff.mp hcut) hcode
  | some p =>
    obtain ⟨version, rest⟩ := p
    obtain ⟨hv, hspace⟩ := cut_singleton_eq_some_iff.mp hcut
    refine ⟨version, ?_⟩
    rw [field, hcut, Option.bind_some, field, Option.getD_some]
    have hsp : ascii " " = [32] := rfl
    have h₁ : cut [32] r.statusLine = some (version, rest ++ 32 :: (Lib.toString r.statusCode_ ++
        32 :: getStatusMessage r.statusCode_)) :=
      cut_singleton_eq_some_iff.mpr ⟨by simp [statusLine, hv, hsp], hspace⟩
    have h₂ := cut_singleton_of_mem (x := 32) (s := rest ++ 32 :: (Lib.toString r.statusCode_ ++
      32 :: getStatusMessage r.statusCode_)) (by simp)
    have h₃ : (rest ++ 32 :: (Lib.toString r.statusCode_ ++
        32 :: getStatusMessage r.statusCode_)).takeWhile (· ≠ 32) = rest.takeWhile (· ≠ 32) := by
      rw [List.takeWhile_append]
      split_ifs with hall
      · rw [List.takeWhile_cons_of_neg (by simp), List.append_nil,
          (List.takeWhile_prefix _).eq_of_length hall]
      · rfl
    rw [decodeStatusLine, hsp, h₁, Option.bind_some, h₂, Option.map_some, h₃]

namespace HttpServer

variable {σ : Type}

/-! ## The answer to the first request -/

/-- The response to a request without a handler, for any version. -/
def notFoundResponse (version : Bytes) (keepAlive : Bool) : HttpResponse :=
  (((((({} : HttpResponse).setVersion version).setStatusCode 404).setBody
    (ascii "Not Found")).setHeader (ascii "Content-Length") (ascii "10")).setHeader
      (ascii "Connection") (if keepAlive then ascii "keep-alive" else ascii "close"))

/-- The header lines that the server sets. -/
def notFoundHeaders (keepAlive : Bool) : List Bytes :=
  [ascii "Connection: " ++ (if keepAlive then ascii "keep-alive" else ascii "close"),
    ascii "Content-Length: 10"]

/-- The header lines of the response are those that the server sets. -/
theorem headers_notFoundResponse (version : Bytes) (keepAlive : Bool) :
    (notFoundResponse version keepAlive).headers_.entries.map headerLine =
      notFoundHeaders keepAlive := by
  have hversion : (notFoundResponse version keepAlive).headers_ =
      (notFoundResponse [] keepAlive).headers_ := rfl
  rw [hversion]
  cases keepAlive <;> decide

/-- The head of the response, as a client reads it. -/
theorem decodeHead_notFoundResponse {version : Bytes} (hv : ¬ crlf <:+: version)
    (keepAlive : Bool) :
    ∃ v, decodeHead (notFoundResponse version keepAlive).toString =
      some (v, (field 1 version).getD (ascii "404"), notFoundHeaders keepAlive) := by
  have hstatus : ¬ crlf <:+: (notFoundResponse version keepAlive).statusLine := by
    have : (notFoundResponse version keepAlive).statusLine =
        version ++ ascii " 404 Not Found" := by
      show version ++ ascii " " ++ Lib.toString 404 ++ ascii " " ++ getStatusMessage 404 = _
      simp only [List.append_assoc]
      congr 1
    have hcr : crlf = [13] ++ [10] := rfl
    rw [this, hcr]
    exact not_infix_append hv (by decide)
  have hlines : ∀ e ∈ (notFoundResponse version keepAlive).headers_.entries,
      ¬ crlf <:+: headerLine e := by
    intro e he
    have hmem := List.mem_map_of_mem (f := headerLine) he
    rw [headers_notFoundResponse] at hmem
    revert hmem
    generalize headerLine e = line
    cases keepAlive <;> simp only [notFoundHeaders, List.mem_cons, List.not_mem_nil, or_false] <;>
      rintro (rfl | rfl) <;> decide
  obtain ⟨v, hv'⟩ := decodeStatusLine_statusLine (notFoundResponse version keepAlive)
  refine ⟨v, ?_⟩
  have hcode : Lib.toString (notFoundResponse version keepAlive).statusCode_ = ascii "404" := by
    show Lib.toString 404 = ascii "404"
    decide
  rw [hcode] at hv'
  rw [decodeHead_toString ⟨hstatus, hlines⟩, hv', headers_notFoundResponse]
  rfl

/-- The only answer of a fresh connection to data that begins with a request without a handler. -/
theorem exchanges_notFound (server : HttpServer σ) (world : σ) {s : Bytes}
    (hs : (parse {} {} s).result = .kSuccess)
    (hcb : server.handlers_.find? (parse {} {} s).request.path_ = none) :
    ((server.onMessageIteration { buffer := s, world }).exchanges).map (·.response) =
      [(notFoundResponse (parse {} {} s).request.version_
        (isKeepAlive (parse {} {} s).request)).toString] := by
  have hout : outcome ({ buffer := s, world } : Session σ) = parse {} {} s := rfl
  rw [onMessageIteration_answer server (by rw [hout, hs]; decide), hout]
  have hreq := onRequest_of_none server hcb {} world
  simp only [reply, answer, hs, if_true, hreq, List.nil_append, List.map_cons, List.map_nil]
  rfl

/-- What a client reads from the response to the first request is what the server means: the code
404, and the header lines that it sets. -/
def Unforged (server : HttpServer σ) (world : σ) (s : Bytes) : Prop :=
  ∃ response version,
    (server.onMessageIteration { buffer := s, world }).exchanges.map (·.response) = [response] ∧
      decodeHead response =
        some (version, ascii "404", notFoundHeaders (isKeepAlive (parse {} {} s).request))

/-- The version that the parser reads is the end of the first line of the data. -/
theorem exists_line_of_success {s : Bytes} (hs : (parse {} {} s).result = .kSuccess) :
    ∃ line rest, cut crlf s = some (line, rest) ∧
      ¬ crlf <:+: (parse {} {} s).request.version_ ∧
      field 3 line = field 1 (parse {} {} s).request.version_ := by
  obtain ⟨line, headers, body, tail, hform, rfl⟩ := exists_form_of_success hs
  obtain ⟨p, method, path, version, hline, hm, hpath, hparse⟩ := HttpParser.parse_encode hform tail
  refine ⟨line, _, cut_crlf hform.line_not_infix _, ?_, ?_⟩
  · rw [hparse]
    intro h
    apply hform.line_not_infix
    rw [hline]
    exact h.trans ⟨method ++ 32 :: (path ++ [32]), [], by simp⟩
  · have h₁ : cut [32] line = some (method, path ++ 32 :: version) :=
      cut_singleton_eq_some_iff.mpr ⟨hline, hm⟩
    have h₂ : cut [32] (path ++ 32 :: version) = some (path, version) :=
      cut_singleton_eq_some_iff.mpr ⟨rfl, hpath⟩
    rw [hparse, field, h₁, Option.bind_some, field, h₂, Option.bind_some]

/-- **When the status line cannot be forged.** A client reads the code 404 and the header lines of
the server from the response to a first request without a handler exactly if the request line has
no text behind a third space, or that text, up to the next space, is 404. -/
theorem unforged_iff (server : HttpServer σ) (world : σ) {s : Bytes}
    (hs : (({} : HttpParser).parseRequest s {}).1 = .kSuccess)
    (hcb : server.handlers_.find? (({} : HttpParser).parseRequest s {}).2.2.2.path_ = none) :
    server.Unforged world s ↔
      ∀ line rest, cut crlf s = some (line, rest) →
        ∀ code ∈ field 3 line, code = ascii "404" := by
  rw [parseRequest_eq] at hs hcb
  have hresponse := server.exchanges_notFound world hs hcb
  obtain ⟨line, rest, hcut, hinfix, hfield⟩ := exists_line_of_success hs
  obtain ⟨version, hdecode⟩ :=
    decodeHead_notFoundResponse hinfix (isKeepAlive (parse {} {} s).request)
  rw [← hfield] at hdecode
  have hunforged : server.Unforged world s ↔ (field 3 line).getD (ascii "404") = ascii "404" := by
    unfold Unforged
    rw [hresponse]
    constructor
    · rintro ⟨response, version', heq, hread⟩
      obtain rfl := (List.cons.inj heq).1
      rw [hdecode] at hread
      exact (Prod.mk.inj (Prod.mk.inj (Option.some.inj hread)).2).1
    · intro hcode
      rw [hcode] at hdecode
      exact ⟨_, version, rfl, hdecode⟩
  rw [hunforged]
  constructor
  · intro hcode line' rest' hcut' code hmem
    rw [hcut] at hcut'
    obtain ⟨rfl, rfl⟩ := Prod.mk.inj (Option.some.inj hcut')
    rw [Option.mem_def] at hmem
    rwa [hmem] at hcode
  · intro hall
    cases hf : field 3 line with
    | none => rfl
    | some code => exact hall line rest hcut code hf

/-- A request of the version `HTTP/1.1`. -/
theorem unforged_iff_get :
    ({} : HttpServer Unit).Unforged () (ascii "GET /x HTTP/1.1\r\n\r\n") := by
  refine (unforged_iff ({} : HttpServer Unit) () (by decide) (by rfl)).mpr ?_
  intro line rest hcut code hcode
  have hline : cut crlf (ascii "GET /x HTTP/1.1\r\n\r\n") =
      some (ascii "GET /x HTTP/1.1", crlf) := by decide
  rw [hline] at hcut
  obtain ⟨rfl, -⟩ := Prod.mk.inj (Option.some.inj hcut)
  have hnone : field 3 (ascii "GET /x HTTP/1.1") = none := by decide
  rw [hnone] at hcode
  cases hcode

/-- With the text `200 OK` behind the version, the code 200 is read from the response. -/
theorem forged_status :
    ¬ ({} : HttpServer Unit).Unforged () (ascii "GET /x HTTP/1.1 200 OK\r\n\r\n") ∧
      ((({} : HttpServer Unit).onMessageIteration
        { buffer := ascii "GET /x HTTP/1.1 200 OK\r\n\r\n", world := () }).exchanges.map
          fun e => (decodeHead e.response).map fun t => (t.1, t.2.1)) =
        [some (ascii "HTTP/1.1", ascii "200")] := by
  have hdecoded : ((({} : HttpServer Unit).onMessageIteration
      { buffer := ascii "GET /x HTTP/1.1 200 OK\r\n\r\n", world := () }).exchanges.map
        fun e => (decodeHead e.response).map fun t => (t.1, t.2.1)) =
      [some (ascii "HTTP/1.1", ascii "200")] := by decide +kernel
  refine ⟨?_, hdecoded⟩
  rintro ⟨response, version, hresponse, hread⟩
  have hmap := congrArg (List.map fun r => (decodeHead r).map fun t => (t.1, t.2.1)) hresponse
  rw [List.map_map] at hmap
  have := hdecoded.symm.trans hmap
  rw [List.map_cons, List.map_nil, hread] at this
  exact absurd this (by simp [ascii])

end HttpServer

end LouisNet.Http
