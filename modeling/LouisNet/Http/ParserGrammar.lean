import LouisNet.Http.Parser

set_option relaxedAutoImplicit false
set_option autoImplicit false

/-!
# The grammar of requests

What the parser accepts, said without the parser: a request line with two spaces, header lines
with a colon, a blank line, and a body of the length that the last content-length header gives.
The parser accepts exactly the byte strings that begin with such a request. It consumes that
request and nothing behind it, and its fields are the fields of the grammar.

## Main definitions

* `LouisNet.Http.headerName`, `LouisNet.Http.headerValue` — the two parts of a header line.
* `LouisNet.Http.lastValue` — the value of the last header line with a name.
* `LouisNet.Http.RequestForm` — a request line, header lines and a body that fit together.

## Main results

* `LouisNet.Http.parseRequestLine_eq_some_iff`, `LouisNet.Http.parseHeaders_eq` — the two line
  parsers.
* `LouisNet.Http.HttpParser.parse_encode` — the parser on a request of the grammar.
* `LouisNet.Http.HttpParser.exists_form_of_success` — what the parser accepts is of the grammar.
-/

namespace LouisNet.Http

open Lib

/-! ## The two line parsers -/

/-- The request line is cut at its first two spaces. -/
theorem parseRequestLine_eq_some_iff {line : Bytes} {req req' : HttpRequest} :
    parseRequestLine line req = some req' ↔ ∃ method path version,
      line = method ++ 32 :: (path ++ 32 :: version) ∧ 32 ∉ method ∧ 32 ∉ path ∧
        req' = { req with method_ := method, path_ := path, version_ := version } := by
  have hsp : ascii " " = [32] := rfl
  unfold parseRequestLine
  rw [hsp]
  constructor
  · intro h
    split at h
    · cases h
    · rename_i method rest h₁
      split at h
      · cases h
      · rename_i path version h₂
        obtain ⟨rfl, hm⟩ := cut_singleton_eq_some_iff.mp h₁
        obtain ⟨rfl, hp⟩ := cut_singleton_eq_some_iff.mp h₂
        exact ⟨method, path, version, rfl, hm, hp, (Option.some.inj h).symm⟩
  · rintro ⟨method, path, version, hline, hm, hp, rfl⟩
    rw [cut_singleton_eq_some_iff.mpr ⟨hline, hm⟩]
    dsimp only
    rw [cut_singleton_eq_some_iff.mpr ⟨rfl, hp⟩]

/-- A request line is a line with at least two spaces. -/
theorem parseRequestLine_eq_none_iff {line : Bytes} (req : HttpRequest) :
    parseRequestLine line req = none ↔ line.count 32 < 2 := by
  have hsp : ascii " " = [32] := rfl
  unfold parseRequestLine
  rw [hsp]
  cases h₁ : cut [32] line with
  | none =>
    have := List.count_eq_zero.mpr (cut_singleton_eq_none_iff.mp h₁)
    simp [this]
  | some p =>
    obtain ⟨method, rest⟩ := p
    obtain ⟨rfl, hm⟩ := cut_singleton_eq_some_iff.mp h₁
    have hm' := List.count_eq_zero.mpr hm
    simp only [List.count_append, List.count_cons_self, hm']
    cases h₂ : cut [32] rest with
    | none =>
      have := List.count_eq_zero.mpr (cut_singleton_eq_none_iff.mp h₂)
      simp [this]
    | some q =>
      obtain ⟨path, version⟩ := q
      obtain ⟨rfl, -⟩ := cut_singleton_eq_some_iff.mp h₂
      simp only [List.count_append, List.count_cons_self, reduceCtorEq, false_iff, not_lt]
      omega

/-- A string without the spaces at its two ends. -/
def trim (s : Bytes) : Bytes := (s.dropWhile (· == 32)).rdropWhile (· == 32)

/-- The name of a header line: the text before the first colon, in lower case. -/
def headerName (line : Bytes) : Bytes := (line.takeWhile (· ≠ 58)).map tolower

/-- The value of a header line: the text behind the first colon, without the spaces around it. -/
def headerValue (line : Bytes) : Bytes := trim ((line.dropWhile (· ≠ 58)).drop 1)

/-- A request with the header of a header line. -/
def addHeader (req : HttpRequest) (line : Bytes) : HttpRequest :=
  { req with headers_ := req.headers_.insert (headerName line) (headerValue line) }

/-- A header line is a line with a colon, and its header is stored. -/
theorem parseHeaders_eq (line : Bytes) (req : HttpRequest) :
    parseHeaders line req = if 58 ∈ line then some (addHeader req line) else none := by
  have hcolon : ascii ":" = [58] := rfl
  unfold parseHeaders
  rw [hcolon]
  split_ifs with hnil hmem hmem
  · rw [hnil] at hmem
    cases hmem
  · rfl
  · rw [cut_singleton_of_mem hmem]
    rfl
  · rw [cut_singleton_eq_none_iff.mpr hmem]

/-! ## The grammar -/

/-- The value of the last header line with the given name. -/
def lastValue (name : Bytes) (headers : List Bytes) : Option Bytes :=
  ((headers.filter fun line => headerName line = name).getLast?).map headerValue

/-- The body has the length that a content-length value gives, and it is empty without one. -/
def BodyFits (value : Option Bytes) (body : Bytes) : Prop :=
  match value with
  | none => body = []
  | some v => stoul v = some body.length

/-- A header line of the grammar. -/
structure HeaderForm (line : Bytes) : Prop where
  not_infix : ¬ crlf <:+: line
  ne_nil : line ≠ []
  colon_mem : 58 ∈ line

/-- A request line, header lines and a body that make up a request. -/
structure RequestForm (line : Bytes) (headers : List Bytes) (body : Bytes) : Prop where
  line_not_infix : ¬ crlf <:+: line
  two_spaces : 2 ≤ line.count 32
  header_form : ∀ h ∈ headers, HeaderForm h
  body_fits : BodyFits (lastValue (ascii "content-length") headers) body

/-- Header lines, the blank line, and what follows. -/
def encodeHeaders (headers : List Bytes) (tail : Bytes) : Bytes :=
  headers.flatMap (· ++ crlf) ++ (crlf ++ tail)

/-- The bytes of a request, and what follows. -/
def encodeRequest (line : Bytes) (headers : List Bytes) (body tail : Bytes) : Bytes :=
  line ++ (crlf ++ encodeHeaders headers (body ++ tail))

/-- The headers of header lines, stored one after the other. -/
def storeHeaders (m : HeaderMap) (headers : List Bytes) : HeaderMap :=
  headers.foldl (fun m line => m.insert (headerName line) (headerValue line)) m

/-- The headers stored from header lines are the last ones of their names. -/
theorem find?_storeHeaders (name : Bytes) (m : HeaderMap) (headers : List Bytes) :
    (storeHeaders m headers).find? name = (lastValue name headers).or (m.find? name) := by
  induction headers using List.reverseRecOn with
  | nil => rfl
  | append_singleton headers h ih =>
    unfold storeHeaders at ih ⊢
    rw [List.foldl_append, List.foldl_cons, List.foldl_nil, SortedMap.find?_insert, ih]
    unfold lastValue
    rw [List.filter_append, List.filter_singleton]
    by_cases hn : headerName h = name
    · simp [hn]
    · simp [hn, Ne.symm hn]

namespace HttpParser

/-! ## The parser accepts the grammar -/

/-- The line terminator does not overlap with itself. -/
theorem unbordered_crlf : Unbordered crlf := unbordered_pair (by decide)

/-- The first line of data that begins with a line. -/
theorem cut_crlf {line : Bytes} (h : ¬ crlf <:+: line) (rest : Bytes) :
    cut crlf (line ++ (crlf ++ rest)) = some (line, rest) :=
  cut_append_of_not_infix unbordered_crlf (by decide) rest h

/-- The first line of data that begins with a blank line. -/
theorem cut_blank (rest : Bytes) : cut crlf (crlf ++ rest) = some ([], rest) :=
  @cut_crlf [] (by decide) rest

/-- Data that begins with a line is not empty. -/
theorem append_crlf_ne_nil (line rest : Bytes) : line ++ (crlf ++ rest) ≠ [] := by
  simp [crlf]

/-- The parser reads header lines one after the other. -/
theorem parse_encodeHeaders {p : HttpParser} (hp : p.state_ = .kHeaders) (headers : List Bytes) :
    ∀ (req : HttpRequest) (tail : Bytes), (∀ h ∈ headers, HeaderForm h) →
      parse p req (encodeHeaders headers tail) =
        parse p { req with headers_ := storeHeaders req.headers_ headers } (crlf ++ tail) := by
  induction headers with
  | nil =>
    intro req tail _
    rfl
  | cons h headers ih =>
    intro req tail hform
    have hh := hform h List.mem_cons_self
    have henc : encodeHeaders (h :: headers) tail =
        h ++ (crlf ++ encodeHeaders headers tail) := by
      simp [encodeHeaders]
    have hline : parseHeaders h req = some (addHeader req h) := by
      rw [parseHeaders_eq, if_pos hh.colon_mem]
    rw [henc, parse_of_next (append_crlf_ne_nil _ _)
        (Iterates.header hp (cut_crlf hh.not_infix _) hh.ne_nil hline).eq,
      ih _ _ fun k hk => hform k (List.mem_cons_of_mem h hk)]
    rfl

/-- The parser at the rest of a body. -/
theorem parse_body {p : HttpParser} (hp : p.state_ = .kBody) (req : HttpRequest)
    {body : Bytes} (tail : Bytes) (hn : subSize p.contentLength_ p.bodyReceived_ = body.length)
    (hne : body ≠ []) :
    parse p req (body ++ tail) =
      ⟨.kSuccess, p.reset, { req with body_ := req.body_ ++ body }, tail⟩ := by
  have hit : Iterates p req (body ++ tail) _ := Iterates.body hp (by
    rw [hn, List.length_append]
    omega)
  rw [hn, List.take_left, List.drop_left] at hit
  exact parse_of_done (by simp [hne]) hit.eq

/-- The parser at the blank line: it takes the body that fits the headers. -/
theorem parse_blank {p : HttpParser} (hp : p.state_ = .kHeaders) (hb : p.bodyReceived_ = 0)
    (req : HttpRequest) {body : Bytes} (tail : Bytes)
    (hfit : BodyFits (req.headers_.find? (ascii "content-length")) body) :
    ∃ p', parse p req (crlf ++ (body ++ tail)) =
      ⟨.kSuccess, p', { req with body_ := req.body_ ++ body }, tail⟩ := by
  have hcut := cut_blank (body ++ tail)
  have hne : crlf ++ (body ++ tail) ≠ [] := append_crlf_ne_nil [] (body ++ tail)
  cases hv : req.headers_.find? (ascii "content-length") with
  | none =>
    rw [hv] at hfit
    obtain rfl : body = [] := hfit
    refine ⟨p, ?_⟩
    rw [parse_of_done hne (Iterates.noBody hp hcut hv).eq, List.append_nil, List.nil_append]
  | some v =>
    rw [hv] at hfit
    have hn : stoul v = some body.length := hfit
    by_cases hnil : body = []
    · subst hnil
      refine ⟨{ p with state_ := .kBody, contentLength_ := 0 }, ?_⟩
      rw [parse_of_done hne (Iterates.emptyBody hp hcut hv hn).eq, List.append_nil,
        List.nil_append]
    · have hlen : body.length ≠ 0 := fun h => hnil (List.length_eq_zero_iff.mp h)
      have hneed : subSize body.length p.bodyReceived_ = body.length := by
        rw [hb, subSize_eq (Nat.zero_le _) (stoul_lt hn), Nat.sub_zero]
      refine ⟨reset { p with state_ := .kBody, contentLength_ := body.length }, ?_⟩
      rw [parse_of_next hne (Iterates.startBody hp hcut hv hn hlen).eq]
      exact parse_body rfl req tail hneed hnil

/-- **The parser accepts the grammar**, and reads from a request what the grammar says. -/
theorem parse_encode {line : Bytes} {headers : List Bytes} {body : Bytes}
    (h : RequestForm line headers body) (tail : Bytes) :
    ∃ p method path version, line = method ++ 32 :: (path ++ 32 :: version) ∧ 32 ∉ method ∧
      32 ∉ path ∧ parse {} {} (encodeRequest line headers body tail) =
        ⟨.kSuccess, p, ⟨method, path, version, storeHeaders .empty headers, body⟩, tail⟩ := by
  obtain ⟨req', hreq⟩ : ∃ req', parseRequestLine line {} = some req' := by
    rw [← Option.ne_none_iff_exists', Ne, parseRequestLine_eq_none_iff, not_lt]
    exact h.two_spaces
  obtain ⟨method, path, version, hline, hm, hpath, rfl⟩ := parseRequestLine_eq_some_iff.mp hreq
  have hfit : BodyFits ((storeHeaders .empty headers).find? (ascii "content-length")) body := by
    rw [find?_storeHeaders]
    simpa using h.body_fits
  obtain ⟨p', hp'⟩ := parse_blank (p := ⟨.kHeaders, 0, 0⟩) rfl rfl
    ⟨method, path, version, storeHeaders .empty headers, []⟩ tail hfit
  refine ⟨p', method, path, version, hline, hm, hpath, ?_⟩
  rw [encodeRequest, parse_of_next (append_crlf_ne_nil _ _)
      (Iterates.requestLine rfl (cut_crlf h.line_not_infix _) hreq).eq,
    parse_encodeHeaders rfl _ _ _ h.header_form]
  exact hp'

/-! ## The parser accepts nothing else -/

/-- The data at the first line is the line, its terminator, and the rest. -/
theorem cut_crlf_eq_some_iff {cur line rest : Bytes} :
    cut crlf cur = some (line, rest) ↔ cur = line ++ (crlf ++ rest) ∧ ¬ crlf <:+: line :=
  cut_eq_some_iff unbordered_crlf (by decide)

/-- A body that the parser has taken has the length it waited for. -/
theorem exists_body_of_success {p : HttpParser} (hp : p.state_ = .kBody) {req : HttpRequest}
    {cur : Bytes} (h : (parse p req cur).result = .kSuccess) :
    ∃ body tail, cur = body ++ tail ∧
      body.length = subSize p.contentLength_ p.bodyReceived_ := by
  by_cases hc : cur = []
  · subst hc
    cases h
  · rw [parse_eq, if_neg hc, parseIteration_body hp] at h
    split_ifs at h with hn
    exact ⟨_, _, (List.take_append_drop _ _).symm, List.length_take_of_le hn⟩

/-- **What the parser accepts behind a request line is of the grammar**: header lines, a blank
line, and a body that fits the headers.

**Proof sketch.** Induction along the loop: a header line is put in front of what the rest of
the run read, and at the blank line the body is empty or as long as the header says. -/
theorem exists_headers_of_success (p : HttpParser) (req : HttpRequest) (cur : Bytes)
    (hp : p.state_ = .kHeaders) (hb : p.bodyReceived_ = 0)
    (h : (parse p req cur).result = .kSuccess) :
    ∃ headers body tail, cur = encodeHeaders headers (body ++ tail) ∧
      (∀ k ∈ headers, HeaderForm k) ∧
      BodyFits ((storeHeaders req.headers_ headers).find? (ascii "content-length")) body := by
  induction p, req, cur using parse_induction with
  | nil => cases h
  | done p req cur r p' req' cur' hc hi =>
    rw [parse_of_done hc hi] at h
    obtain rfl : r = .kSuccess := h
    cases parseIteration_eq_iff.mp hi with
    | noBody _ hcut hv =>
      refine ⟨[], [], cur', (cut_crlf_eq_some_iff.mp hcut).1, by simp, ?_⟩
      show BodyFits (req.headers_.find? _) []
      rw [hv]
      rfl
    | emptyBody _ hcut hv hn =>
      refine ⟨[], [], cur', (cut_crlf_eq_some_iff.mp hcut).1, by simp, ?_⟩
      show BodyFits (req.headers_.find? _) []
      rw [hv]
      exact hn
    | body hp' => cases hp.symm.trans hp'
  | next p req cur p' req' cur' hc hi ih =>
    rw [parse_of_next hc hi] at h
    cases parseIteration_eq_iff.mp hi with
    | requestLine hp' => cases hp.symm.trans hp'
    | header _ hcut hne hl =>
      rename_i line _
      obtain ⟨rfl, hline⟩ := cut_crlf_eq_some_iff.mp hcut
      rw [parseHeaders_eq] at hl
      split_ifs at hl with hcolon
      obtain rfl := Option.some.inj hl
      obtain ⟨headers, body, tail, rfl, hform, hfit⟩ := ih hp hb h
      refine ⟨line :: headers, body, tail, by simp [encodeHeaders], ?_, hfit⟩
      intro k hk
      rcases List.mem_cons.mp hk with rfl | hk
      · exact ⟨hline, hne, hcolon⟩
      · exact hform k hk
    | startBody _ hcut hv hn _ =>
      obtain ⟨rfl, -⟩ := cut_crlf_eq_some_iff.mp hcut
      obtain ⟨body, tail, rfl, hlen⟩ := exists_body_of_success rfl h
      refine ⟨[], body, tail, rfl, by simp, ?_⟩
      show BodyFits (req.headers_.find? _) body
      rw [hv, BodyFits, hn, hlen, hb, subSize_eq (Nat.zero_le _) (stoul_lt hn), Nat.sub_zero]

/-- **What the parser accepts is of the grammar.** -/
theorem exists_form_of_success {s : Bytes} (h : (parse {} {} s).result = .kSuccess) :
    ∃ line headers body tail, RequestForm line headers body ∧
      s = encodeRequest line headers body tail := by
  by_cases hs : s = []
  · subst hs
    cases h
  · cases hc : cut crlf s with
    | none =>
      rw [parse_of_done hs (Iterates.incomplete (by decide) hc).eq] at h
      cases h
    | some q =>
      obtain ⟨line, rest⟩ := q
      cases hl : parseRequestLine line {} with
      | none =>
        rw [parse_of_done hs (Iterates.badRequestLine rfl hc hl).eq] at h
        cases h
      | some req =>
        rw [parse_of_next hs (Iterates.requestLine rfl hc hl).eq] at h
        obtain ⟨headers, body, tail, rfl, hform, hfit⟩ := exists_headers_of_success _ _ _ rfl rfl h
        obtain ⟨rfl, hline⟩ := cut_crlf_eq_some_iff.mp hc
        have hspaces : ¬ line.count 32 < 2 := by
          rw [← parseRequestLine_eq_none_iff {}, hl]
          simp
        obtain ⟨method, path, version, -, -, -, rfl⟩ := parseRequestLine_eq_some_iff.mp hl
        refine ⟨line, headers, body, tail, ⟨hline, not_lt.mp hspaces, hform, ?_⟩, rfl⟩
        rw [find?_storeHeaders] at hfit
        simpa using hfit

/-- **The parser accepts exactly its grammar.** A fresh parser reports a request exactly when
the data begins with one of the grammar; it consumes that request, cuts its first line at the
first two spaces, stores for every name the value of the last header line, and takes the body. -/
theorem parseRequest_success_iff_form (s : Bytes) :
    ((({} : HttpParser).parseRequest s {}).1 = .kSuccess ↔
      ∃ line headers body tail, RequestForm line headers body ∧
        s = encodeRequest line headers body tail) ∧
    ∀ line headers body tail, RequestForm line headers body →
      s = encodeRequest line headers body tail →
      ∃ p req method path version,
        ({} : HttpParser).parseRequest s {} = (.kSuccess, p, tail, req) ∧
        line = method ++ 32 :: (path ++ 32 :: version) ∧ 32 ∉ method ∧ 32 ∉ path ∧
        req.method_ = method ∧ req.path_ = path ∧ req.version_ = version ∧
        (∀ name, req.headers_.find? name = lastValue name headers) ∧ req.body_ = body := by
  rw [parseRequest_eq]
  refine ⟨⟨exists_form_of_success, ?_⟩, ?_⟩
  · rintro ⟨line, headers, body, tail, hform, rfl⟩
    obtain ⟨p, method, path, version, -, -, -, hparse⟩ := parse_encode hform tail
    rw [hparse]
  · rintro line headers body tail hform rfl
    obtain ⟨p, method, path, version, hline, hm, hpath, hparse⟩ := parse_encode hform tail
    refine ⟨p, _, method, path, version, by rw [hparse], hline, hm, hpath, rfl, rfl, rfl, ?_, rfl⟩
    intro name
    rw [find?_storeHeaders]
    simp

/-- A request with a repeated header and a body that holds a line terminator. -/
theorem parseRequest_success_iff_form_post :
    ∃ p req, ({} : HttpParser).parseRequest
        (ascii "POST /a HTTP/1.1\r\nContent-Length: 9\r\ncontent-LENGTH:  3 \r\n\r\nx\r\nGET") {} =
          (.kSuccess, p, ascii "GET", req) ∧
      req.headers_.find? (ascii "content-length") = some (ascii "3") ∧
      req.body_ = ascii "x\r\n" := by
  have hform : RequestForm (ascii "POST /a HTTP/1.1")
      [ascii "Content-Length: 9", ascii "content-LENGTH:  3 "] (ascii "x\r\n") := by
    refine ⟨by decide, by decide, ?_, ?_⟩
    · intro h hh
      simp only [List.mem_cons, List.not_mem_nil, or_false] at hh
      rcases hh with rfl | rfl <;> exact ⟨by decide, by decide, by decide⟩
    · show stoul (ascii "3") = some 3
      decide
  obtain ⟨p, req, method, path, version, hp, -, -, -, -, -, -, hh, hb⟩ :=
    (parseRequest_success_iff_form _).2 _ _ _ (ascii "GET") hform rfl
  exact ⟨p, req, hp, (hh _).trans (by decide), hb⟩

end HttpParser

end LouisNet.Http
