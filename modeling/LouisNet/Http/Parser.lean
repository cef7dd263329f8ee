import LouisNet.Lib.Cut
import LouisNet.Http.Message
import Mathlib.Data.List.DropRight

set_option relaxedAutoImplicit false
set_option autoImplicit false

/-!
# The request parser

The class `HttpParser` of `src/net/http/HttpParser.h` and `src/net/http/HttpParser.cc`: an
incremental parser with three states. It reads lines and body bytes from the front of the
buffered data, fills in the request, and keeps what it cannot use yet in the buffer.

A `std::string_view` into the data is the list of its bytes. The functions `parseRequestLine`
and `parseHeaders` leave the request alone when they return `false`, so they return an optional
request here. The body of the loop of `parseCString` is `parseIteration`; each of its ways out
is a `done`, and going around is a `next`.

## Main definitions

* `LouisNet.Http.HttpParser`, `LouisNet.Http.ParseResult` — the parser and its results.
* `LouisNet.Http.HttpParser.parseIteration` — one iteration of the loop.
* `LouisNet.Http.HttpParser.parseCString`, `LouisNet.Http.HttpParser.parseRequest` — the parser
  on a piece of data, and on a buffer.

## Main results

* `LouisNet.Http.HttpParser.parse_eq` — the loop, without the bound on its iterations.
-/

namespace LouisNet.Http

open Lib

/-- `HttpParser::ParseResult`. -/
inductive ParseResult where
  | kNeedMore
  | kSuccess
  | kError
  deriving DecidableEq, Repr

/-- `HttpParser::State`. -/
inductive State where
  | kStartLine
  | kHeaders
  | kBody
  deriving DecidableEq, Repr

/-- `HttpParser`. -/
structure HttpParser where
  state_ : State := .kStartLine
  contentLength_ : ℕ := 0
  bodyReceived_ : ℕ := 0
  deriving DecidableEq, Repr

/-! ## Lines -/

/-- The first line and the data behind it; without a line terminator, no line and all data. -/
def splitLine (data : Bytes) : Bytes × Bytes := (cut crlf data).getD ([], data)

/-- Parse a request line: method, path and version, cut at the first two spaces. -/
def parseRequestLine (line : Bytes) (request : HttpRequest) : Option HttpRequest :=
  match cut (ascii " ") line with
  | none => none
  | some (method, rest) =>
    match cut (ascii " ") rest with
    | none => none
    | some (path, version) =>
      some { request with method_ := method, path_ := path, version_ := version }

/-- Parse a header line: the name in lower case, and the value without the spaces around it. -/
def parseHeaders (line : Bytes) (request : HttpRequest) : Option HttpRequest :=
  if line = [] then none
  else
    match cut (ascii ":") line with
    | none => none
    | some (key, rest) =>
      let val := (rest.dropWhile (· == 32)).rdropWhile (· == 32)
      some { request with headers_ := request.headers_.insert (key.map tolower) val }

/-! ## The parser -/

namespace HttpParser

/-- `HttpParser::reset`. -/
def reset (p : HttpParser) : HttpParser :=
  { p with state_ := .kStartLine, contentLength_ := 0, bodyReceived_ := 0 }

/-- `bodyReceived_ += n`. -/
def receive (p : HttpParser) (n : ℕ) : HttpParser :=
  { p with bodyReceived_ := addSize p.bodyReceived_ n }

/-- The assertion behind the body. -/
def BodyComplete (p : HttpParser) : Prop := p.bodyReceived_ = p.contentLength_

/-- What one iteration of the loop of `parseCString` does. -/
inductive Iteration where
  /-- go around with the parser, the request and the data left -/
  | next (parser : HttpParser) (request : HttpRequest) (cur : Bytes)
  /-- leave the loop -/
  | done (result : ParseResult) (parser : HttpParser) (request : HttpRequest) (cur : Bytes)

/-- The body of the loop of `parseCString`, on data that is not empty. -/
def parseIteration (p : HttpParser) (outRequest : HttpRequest) (cur : Bytes) : Iteration :=
  match p.state_ with
  | .kStartLine =>
    let (line, rest) := splitLine cur
    if line = [] ∧ rest = cur then .done .kNeedMore p outRequest cur
    else
      match parseRequestLine line outRequest with
      | none => .done .kError p outRequest cur
      | some outRequest => .next { p with state_ := .kHeaders } outRequest rest
  | .kHeaders =>
    let (line, rest) := splitLine cur
    if line = [] then
      if rest = cur then .done .kNeedMore p outRequest cur
      else
        match outRequest.headers_.find? (ascii "content-length") with
        | some value =>
          let p := { p with state_ := .kBody }
          match stoul value with
          | none => .done .kError p outRequest rest
          | some n =>
            let p := { p with contentLength_ := n }
            if n = 0 then .done .kSuccess p outRequest rest else .next p outRequest rest
        | none => .done .kSuccess p outRequest rest
    else
      match parseHeaders line outRequest with
      | none => .done .kError p outRequest cur
      | some outRequest => .next p outRequest rest
  | .kBody =>
    let need := subSize p.contentLength_ p.bodyReceived_
    if need ≤ cur.length then
      let outRequest := { outRequest with body_ := outRequest.body_ ++ cur.take need }
      -- the assertion that the body is complete stands between the two
      let p := p.receive need
      .done .kSuccess p.reset outRequest (cur.drop need)
    else
      let outRequest := { outRequest with body_ := outRequest.body_ ++ cur }
      let p := p.receive cur.length
      .done .kNeedMore p outRequest []

/-- What the loop leaves: the result, the parser, the request, and the data not used. -/
structure Outcome where
  result : ParseResult
  parser : HttpParser
  request : HttpRequest
  rest : Bytes
  deriving DecidableEq

/-- The loop of `parseCString`, for at most the given number of iterations. -/
def parseLoop : ℕ → HttpParser → HttpRequest → Bytes → Outcome
  | 0, p, outRequest, cur => ⟨.kNeedMore, p, outRequest, cur⟩
  | fuel + 1, p, outRequest, cur =>
    if cur = [] then ⟨.kNeedMore, p, outRequest, cur⟩
    else
      match parseIteration p outRequest cur with
      | .next p outRequest cur => parseLoop fuel p outRequest cur
      | .done result p outRequest cur => ⟨result, p, outRequest, cur⟩

/-- The loop of `parseCString`. Every iteration that goes around uses up a line, so there are
not more iterations than bytes (`parse_eq`). -/
def parse (p : HttpParser) (outRequest : HttpRequest) (cur : Bytes) : Outcome :=
  parseLoop cur.length p outRequest cur

/-- `HttpParser::parseCString`: the result, the parser, the request and the number of bytes
parsed. -/
def parseCString (p : HttpParser) (data : Bytes) (outRequest : HttpRequest) :
    ParseResult × HttpParser × HttpRequest × ℕ :=
  let o := parse p outRequest data
  (o.result, o.parser, o.request, data.length - o.rest.length)

/-- `HttpParser::parseRequest` on a buffer with the given readable bytes: the result, the
parser, the readable bytes left, and the request. -/
def parseRequest (p : HttpParser) (buffer : Bytes) (outRequest : HttpRequest) :
    ParseResult × HttpParser × Bytes × HttpRequest :=
  let (result, p, outRequest, parsed) := p.parseCString buffer outRequest
  (result, p, buffer.drop parsed, outRequest)

/-! ## One iteration, by what the data holds -/

/-- Behind a line there is less than before it. -/
theorem length_lt_of_cut {cur line rest : Bytes} (h : cut crlf cur = some (line, rest)) :
    rest.length + 2 ≤ cur.length := by
  have := congrArg List.length (eq_of_cut_eq_some h)
  simp only [List.length_append, crlf, List.length_cons, List.length_nil] at this
  omega

/-- The test that the data holds no complete line. -/
theorem splitLine_incomplete_iff (cur : Bytes) :
    (splitLine cur).1 = [] ∧ (splitLine cur).2 = cur ↔ cut crlf cur = none := by
  unfold splitLine
  cases h : cut crlf cur with
  | none => simp
  | some p =>
    obtain ⟨line, rest⟩ := p
    simp only [Option.getD_some, reduceCtorEq, iff_false, not_and]
    rintro - rfl
    have := length_lt_of_cut h
    omega

/-- An iteration at a request line. -/
theorem parseIteration_startLine {p : HttpParser} (hp : p.state_ = .kStartLine)
    (req : HttpRequest) (cur : Bytes) :
    parseIteration p req cur =
      match cut crlf cur with
      | none => .done .kNeedMore p req cur
      | some (line, rest) =>
        match parseRequestLine line req with
        | none => .done .kError p req cur
        | some req => .next { p with state_ := .kHeaders } req rest := by
  have hinc := splitLine_incomplete_iff cur
  unfold parseIteration
  rw [hp]
  dsimp only
  cases h : cut crlf cur with
  | none => rw [if_pos (hinc.mpr h)]
  | some q =>
    rw [if_neg fun hc => by rw [hinc.mp hc] at h; cases h]
    simp only [splitLine, h, Option.getD_some]

/-- An iteration at a header line or at the blank line behind the headers. -/
theorem parseIteration_headers {p : HttpParser} (hp : p.state_ = .kHeaders)
    (req : HttpRequest) (cur : Bytes) :
    parseIteration p req cur =
      match cut crlf cur with
      | none => .done .kNeedMore p req cur
      | some (line, rest) =>
        if line = [] then
          match req.headers_.find? (ascii "content-length") with
          | some value =>
            match stoul value with
            | none => .done .kError { p with state_ := .kBody } req rest
            | some n =>
              if n = 0 then .done .kSuccess { p with state_ := .kBody, contentLength_ := n } req rest
              else .next { p with state_ := .kBody, contentLength_ := n } req rest
          | none => .done .kSuccess p req rest
        else
          match parseHeaders line req with
          | none => .done .kError p req cur
          | some req => .next p req rest := by
  have hinc := splitLine_incomplete_iff cur
  unfold parseIteration
  rw [hp]
  dsimp only
  cases h : cut crlf cur with
  | none => rw [if_pos (hinc.mpr h).1, if_pos (hinc.mpr h).2]
  | some q =>
    have hne : (splitLine cur).1 = [] → ¬ (splitLine cur).2 = cur := fun h₁ h₂ => by
      rw [hinc.mp ⟨h₁, h₂⟩] at h
      cases h
    have hq : splitLine cur = q := by simp only [splitLine, h, Option.getD_some]
    rw [hq] at hne ⊢
    by_cases h₁ : q.1 = []
    · rw [if_pos h₁, if_neg (hne h₁)]
      simp only [if_pos h₁]
    · rw [if_neg h₁]
      simp only [if_neg h₁]

/-- An iteration in the body. -/
theorem parseIteration_body {p : HttpParser} (hp : p.state_ = .kBody) (req : HttpRequest)
    (cur : Bytes) :
    parseIteration p req cur =
      if subSize p.contentLength_ p.bodyReceived_ ≤ cur.length then
        .done .kSuccess p.reset
          { req with body_ := req.body_ ++ cur.take (subSize p.contentLength_ p.bodyReceived_) }
          (cur.drop (subSize p.contentLength_ p.bodyReceived_))
      else
        .done .kNeedMore { p with bodyReceived_ := addSize p.bodyReceived_ cur.length }
          { req with body_ := req.body_ ++ cur } [] := by
  unfold parseIteration
  rw [hp]
  simp only [receive, reset, hp]

/-- Everything an iteration can do, one constructor for each way through the loop body. -/
inductive Iterates (p : HttpParser) (req : HttpRequest) (cur : Bytes) : Iteration → Prop
  /-- no complete line yet -/
  | incomplete (hp : p.state_ ≠ .kBody) (hc : cut crlf cur = none) :
      Iterates p req cur (.done .kNeedMore p req cur)
  /-- a line that is not a request line -/
  | badRequestLine {line rest : Bytes} (hp : p.state_ = .kStartLine)
      (hc : cut crlf cur = some (line, rest)) (hl : parseRequestLine line req = none) :
      Iterates p req cur (.done .kError p req cur)
  /-- a request line -/
  | requestLine {line rest : Bytes} {req' : HttpRequest} (hp : p.state_ = .kStartLine)
      (hc : cut crlf cur = some (line, rest)) (hl : parseRequestLine line req = some req') :
      Iterates p req cur (.next { p with state_ := .kHeaders } req' rest)
  /-- a line that is not a header line -/
  | badHeader {line rest : Bytes} (hp : p.state_ = .kHeaders)
      (hc : cut crlf cur = some (line, rest)) (hne : line ≠ [])
      (hl : parseHeaders line req = none) :
      Iterates p req cur (.done .kError p req cur)
  /-- a header line -/
  | header {line rest : Bytes} {req' : HttpRequest} (hp : p.state_ = .kHeaders)
      (hc : cut crlf cur = some (line, rest)) (hne : line ≠ [])
      (hl : parseHeaders line req = some req') :
      Iterates p req cur (.next p req' rest)
  /-- the blank line of a request without a body -/
  | noBody {rest : Bytes} (hp : p.state_ = .kHeaders) (hc : cut crlf cur = some ([], rest))
      (hv : req.headers_.find? (ascii "content-length") = none) :
      Iterates p req cur (.done .kSuccess p req rest)
  /-- the blank line, behind a content length that is not a number -/
  | badLength {rest value : Bytes} (hp : p.state_ = .kHeaders)
      (hc : cut crlf cur = some ([], rest))
      (hv : req.headers_.find? (ascii "content-length") = some value)
      (hn : stoul value = none) :
      Iterates p req cur (.done .kError { p with state_ := .kBody } req rest)
  /-- the blank line of a request with an empty body -/
  | emptyBody {rest value : Bytes} (hp : p.state_ = .kHeaders)
      (hc : cut crlf cur = some ([], rest))
      (hv : req.headers_.find? (ascii "content-length") = some value)
      (hn : stoul value = some 0) :
      Iterates p req cur (.done .kSuccess { p with state_ := .kBody, contentLength_ := 0 } req rest)
  /-- the blank line before a body -/
  | startBody {rest value : Bytes} {n : ℕ} (hp : p.state_ = .kHeaders)
      (hc : cut crlf cur = some ([], rest))
      (hv : req.headers_.find? (ascii "content-length") = some value)
      (hn : stoul value = some n) (h0 : n ≠ 0) :
      Iterates p req cur (.next { p with state_ := .kBody, contentLength_ := n } req rest)
  /-- the rest of the body -/
  | body (hp : p.state_ = .kBody)
      (hn : subSize p.contentLength_ p.bodyReceived_ ≤ cur.length) :
      Iterates p req cur (.done .kSuccess p.reset
        { req with body_ := req.body_ ++ cur.take (subSize p.contentLength_ p.bodyReceived_) }
        (cur.drop (subSize p.contentLength_ p.bodyReceived_)))
  /-- a part of the body -/
  | partialBody (hp : p.state_ = .kBody)
      (hn : cur.length < subSize p.contentLength_ p.bodyReceived_) :
      Iterates p req cur (.done .kNeedMore
        { p with bodyReceived_ := addSize p.bodyReceived_ cur.length }
        { req with body_ := req.body_ ++ cur } [])

/-- What an iteration does is among what iterations can do. -/
theorem iterates_parseIteration (p : HttpParser) (req : HttpRequest) (cur : Bytes) :
    Iterates p req cur (parseIteration p req cur) := by
  cases hp : p.state_ with
  | kStartLine =>
    rw [parseIteration_startLine hp]
    rcases hc : cut crlf cur with _ | ⟨line, rest⟩
    · exact .incomplete (by rw [hp]; decide) hc
    · cases hl : parseRequestLine line req with
      | none => simpa only [hl] using Iterates.badRequestLine hp hc hl
      | some req' => simpa only [hl] using Iterates.requestLine hp hc hl
  | kHeaders =>
    rw [parseIteration_headers hp]
    rcases hc : cut crlf cur with _ | ⟨line, rest⟩
    · exact .incomplete (by rw [hp]; decide) hc
    · dsimp only
      split_ifs with hne
      · subst hne
        cases hv : req.headers_.find? (ascii "content-length") with
        | none => exact .noBody hp hc hv
        | some value =>
          dsimp only
          cases hn : stoul value with
          | none => exact .badLength hp hc hv hn
          | some n =>
            dsimp only
            split_ifs with h0
            · subst h0
              exact .emptyBody hp hc hv hn
            · exact .startBody hp hc hv hn h0
      · cases hl : parseHeaders line req with
        | none => simpa only [hl] using Iterates.badHeader hp hc hne hl
        | some req' => simpa only [hl] using Iterates.header hp hc hne hl
  | kBody =>
    rw [parseIteration_body hp]
    split_ifs with hn
    · exact .body hp hn
    · exact .partialBody hp (Nat.lt_of_not_le hn)

/-- An iteration does what can be done with its data. -/
theorem Iterates.eq {p : HttpParser} {req : HttpRequest} {cur : Bytes} {it : Iteration}
    (h : Iterates p req cur it) : parseIteration p req cur = it := by
  cases h with
  | incomplete hp hc =>
    cases hs : p.state_ with
    | kStartLine => rw [parseIteration_startLine hs, hc]
    | kHeaders => rw [parseIteration_headers hs, hc]
    | kBody => exact absurd hs hp
  | badRequestLine hp hc hl => simp only [parseIteration_startLine hp, hc, hl]
  | requestLine hp hc hl => simp only [parseIteration_startLine hp, hc, hl]
  | badHeader hp hc hne hl => simp only [parseIteration_headers hp, hc, if_neg hne, hl]
  | header hp hc hne hl => simp only [parseIteration_headers hp, hc, if_neg hne, hl]
  | noBody hp hc hv => simp only [parseIteration_headers hp, hc, if_true, hv]
  | badLength hp hc hv hn => simp only [parseIteration_headers hp, hc, if_true, hv, hn]
  | emptyBody hp hc hv hn => simp only [parseIteration_headers hp, hc, if_true, hv, hn]
  | startBody hp hc hv hn h0 =>
    simp only [parseIteration_headers hp, hc, if_true, hv, hn, if_neg h0]
  | body hp hn => rw [parseIteration_body hp, if_pos hn]
  | partialBody hp hn => rw [parseIteration_body hp, if_neg (Nat.not_le_of_lt hn)]

/-- The function and the list of cases say the same. -/
theorem parseIteration_eq_iff {p : HttpParser} {req : HttpRequest} {cur : Bytes}
    {it : Iteration} : parseIteration p req cur = it ↔ Iterates p req cur it :=
  ⟨fun h => h ▸ iterates_parseIteration p req cur, Iterates.eq⟩

/-- Going around uses up a line. -/
theorem length_lt_of_next {p p' : HttpParser} {req req' : HttpRequest} {cur cur' : Bytes}
    (h : parseIteration p req cur = .next p' req' cur') : cur'.length + 2 ≤ cur.length := by
  cases parseIteration_eq_iff.mp h with
  | requestLine _ hc _ => exact length_lt_of_cut hc
  | header _ hc _ _ => exact length_lt_of_cut hc
  | startBody _ hc _ _ _ => exact length_lt_of_cut hc

/-- The data behind a line is the end of the data. -/
theorem suffix_of_cut {cur line rest : Bytes} (h : cut crlf cur = some (line, rest)) :
    rest <:+ cur := ⟨line ++ crlf, (eq_of_cut_eq_some h).symm⟩

/-- An iteration leaves the end of its data. -/
theorem suffix_of_next {p p' : HttpParser} {req req' : HttpRequest} {cur cur' : Bytes}
    (h : parseIteration p req cur = .next p' req' cur') : cur' <:+ cur := by
  cases parseIteration_eq_iff.mp h with
  | requestLine _ hc _ => exact suffix_of_cut hc
  | header _ hc _ _ => exact suffix_of_cut hc
  | startBody _ hc _ _ _ => exact suffix_of_cut hc

/-- An iteration that leaves the loop leaves the end of its data. -/
theorem suffix_of_done {p p' : HttpParser} {req req' : HttpRequest} {cur cur' : Bytes}
    {r : ParseResult} (h : parseIteration p req cur = .done r p' req' cur') : cur' <:+ cur := by
  cases parseIteration_eq_iff.mp h with
  | incomplete => exact List.suffix_refl cur
  | badRequestLine => exact List.suffix_refl cur
  | badHeader => exact List.suffix_refl cur
  | noBody _ hc _ => exact suffix_of_cut hc
  | badLength _ hc _ _ => exact suffix_of_cut hc
  | emptyBody _ hc _ _ => exact suffix_of_cut hc
  | body => exact List.drop_suffix _ _
  | partialBody => exact List.nil_suffix

/-! ## The loop -/

/-- Once there are as many iterations as bytes, more of them change nothing. -/
private theorem parseLoop_congr :
    ∀ {m n : ℕ} {p : HttpParser} {req : HttpRequest} {cur : Bytes}, cur.length ≤ m →
      cur.length ≤ n → parseLoop m p req cur = parseLoop n p req cur := by
  intro m
  induction m with
  | zero =>
    intro n p req cur hm _
    obtain rfl := List.length_eq_zero_iff.mp (Nat.le_zero.mp hm)
    cases n <;> rfl
  | succ m ih =>
    intro n p req cur hm hn
    cases n with
    | zero =>
      obtain rfl := List.length_eq_zero_iff.mp (Nat.le_zero.mp hn)
      rfl
    | succ n =>
      simp only [parseLoop]
      split_ifs with hc
      · rfl
      · cases hi : parseIteration p req cur with
        | done => rfl
        | next p' req' cur' =>
          have := length_lt_of_next hi
          exact ih (by omega) (by omega)

/-- **The loop of `parseCString`**, without a bound on its iterations. -/
theorem parse_eq (p : HttpParser) (req : HttpRequest) (cur : Bytes) :
    parse p req cur =
      if cur = [] then ⟨.kNeedMore, p, req, cur⟩
      else
        match parseIteration p req cur with
        | .next p req cur => parse p req cur
        | .done result p req cur => ⟨result, p, req, cur⟩ := by
  cases cur with
  | nil => rfl
  | cons c cur =>
    rw [if_neg (by simp)]
    show parseLoop (cur.length + 1) p req (c :: cur) = _
    simp only [parseLoop, reduceCtorEq, if_false]
    cases hi : parseIteration p req (c :: cur) with
    | done => rfl
    | next p' req' cur' =>
      have := length_lt_of_next hi
      simp only [List.length_cons] at this
      exact parseLoop_congr (by omega) (Nat.le_refl _)

/-- Without data the parser asks for more. -/
@[simp] theorem parse_nil (p : HttpParser) (req : HttpRequest) :
    parse p req [] = ⟨.kNeedMore, p, req, []⟩ := rfl

/-- The loop after an iteration that goes around. -/
theorem parse_of_next {p p' : HttpParser} {req req' : HttpRequest} {cur cur' : Bytes}
    (hc : cur ≠ []) (h : parseIteration p req cur = .next p' req' cur') :
    parse p req cur = parse p' req' cur' := by
  rw [parse_eq, if_neg hc, h]

/-- The loop after an iteration that leaves it. -/
theorem parse_of_done {p p' : HttpParser} {req req' : HttpRequest} {cur cur' : Bytes}
    {r : ParseResult} (hc : cur ≠ []) (h : parseIteration p req cur = .done r p' req' cur') :
    parse p req cur = ⟨r, p', req', cur'⟩ := by
  rw [parse_eq, if_neg hc, h]

/-- **Induction along the loop**: to show `P` of every run, show it where the loop ends and
carry it back over an iteration that goes around. -/
theorem parse_induction {P : HttpParser → HttpRequest → Bytes → Prop}
    (nil : ∀ p req, P p req [])
    (done : ∀ p req cur r p' req' cur', cur ≠ [] →
      parseIteration p req cur = .done r p' req' cur' → P p req cur)
    (next : ∀ p req cur p' req' cur', cur ≠ [] →
      parseIteration p req cur = .next p' req' cur' → P p' req' cur' → P p req cur)
    (p : HttpParser) (req : HttpRequest) (cur : Bytes) : P p req cur := by
  induction hn : cur.length using Nat.strong_induction_on generalizing p req cur with
  | _ n ih =>
    by_cases hc : cur = []
    · subst hc
      exact nil p req
    · cases hi : parseIteration p req cur with
      | done r p' req' cur' => exact done p req cur r p' req' cur' hc hi
      | next p' req' cur' =>
        have hlt := length_lt_of_next hi
        exact next p req cur p' req' cur' hc hi (ih cur'.length (by omega) p' req' cur' rfl)

/-- The loop leaves the end of its data. -/
theorem suffix_parse (p : HttpParser) (req : HttpRequest) (cur : Bytes) :
    (parse p req cur).rest <:+ cur := by
  induction p, req, cur using parse_induction with
  | nil => exact List.suffix_refl _
  | done p req cur r p' req' cur' hc h =>
    rw [parse_of_done hc h]
    exact suffix_of_done h
  | next p req cur p' req' cur' hc h ih =>
    rw [parse_of_next hc h]
    exact ih.trans (suffix_of_next h)

/-- Consuming the parsed bytes leaves in the buffer what the loop did not use. -/
theorem parseRequest_eq (p : HttpParser) (buffer : Bytes) (req : HttpRequest) :
    p.parseRequest buffer req =
      ((parse p req buffer).result, (parse p req buffer).parser, (parse p req buffer).rest,
        (parse p req buffer).request) := by
  obtain ⟨used, hused⟩ := suffix_parse p req buffer
  have hlen : buffer.length - (parse p req buffer).rest.length = used.length := by
    rw [← congrArg List.length hused, List.length_append]
    omega
  simp only [parseRequest, parseCString, hlen]
  have hdrop : buffer.drop used.length = (parse p req buffer).rest := by
    rw [← congrArg (List.drop used.length) hused, List.drop_left]
  rw [hdrop]

end HttpParser

end LouisNet.Http
