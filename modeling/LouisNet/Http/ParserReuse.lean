import LouisNet.Http.ParserAccounting
import LouisNet.Http.ServerRun

set_option relaxedAutoImplicit false
set_option autoImplicit false

/-!
# Using the parser again

A user of the parser appends data to a buffer, calls `parseRequest`, and starts afresh with the
request object behind a success. Of the three ways in which `parseCString` reports a success only
the one behind a body calls `reset`; behind the blank line of a request without a body the parser
stays in `kHeaders`, and behind an empty body in `kBody`. This file compares the user who resets
the parser behind a success with the one who relies on the parser.

## Main definitions

* `LouisNet.Http.Client`, `LouisNet.Http.Client.calls` — a user of the parser, and what the calls
  of `parseRequest` leave.
* `LouisNet.Http.Client.Reads` — a user reads a stream of well-formed requests.

## Main results

* `LouisNet.Http.HttpParser.Accounts.parser_of_success` — the parser behind a success.
* `LouisNet.Http.Client.Reads.parseRequest` — a call on a stream of well-formed requests.
* `LouisNet.Http.Client.ready_iff_bodies` — the two users see the same exactly if every request
  before another one has a body.
-/

namespace LouisNet.Http

open Lib

namespace HttpParser

/-! ## The parser behind a success -/

variable {p : HttpParser} {req : HttpRequest}

/-- **The parser behind a success**: as new behind a body, and in a later state otherwise. -/
theorem Accounts.parser_of_success (h : Accounts p req) (cur : Bytes)
    (hr : (HttpParser.parse p req cur).result = .kSuccess) :
    ((HttpParser.parse p req cur).request.body_ ≠ [] ∧ (HttpParser.parse p req cur).parser = {}) ∨
    ((HttpParser.parse p req cur).request.body_ = [] ∧
      ((HttpParser.parse p req cur).parser = ⟨.kHeaders, 0, 0⟩ ∨
        (HttpParser.parse p req cur).parser = ⟨.kBody, 0, 0⟩)) := by
  induction p, req, cur using parse_induction with
  | nil => cases hr
  | done p req cur r p' req' cur' hc hi =>
    rw [parse_of_done hc hi] at hr ⊢
    obtain rfl : r = .kSuccess := hr
    cases parseIteration_eq_iff.mp hi with
    | noBody hp =>
      obtain ⟨hreceived, hlength⟩ := h.idle (by rw [hp]; decide)
      have hbody : req.body_ = [] := by
        rw [← List.length_eq_zero_iff, h.length_body, hreceived]
      refine .inr ⟨hbody, .inl ?_⟩
      cases p
      simp_all
    | emptyBody hp =>
      obtain ⟨hreceived, -⟩ := h.idle (by rw [hp]; decide)
      have hbody : req.body_ = [] := by
        rw [← List.length_eq_zero_iff, h.length_body, hreceived]
      refine .inr ⟨hbody, .inr ?_⟩
      cases p
      simp_all
    | body hp hn =>
      have hlt := h.missing hp
      rw [h.subSize_eq hp] at hn ⊢
      refine .inl ⟨fun hnil => ?_, rfl⟩
      have hlen := congrArg List.length hnil
      simp only [List.length_append, List.length_take, List.length_nil] at hlen
      omega
  | next p req cur p' req' cur' hc hi ih =>
    rw [parse_of_next hc hi] at hr ⊢
    exact ih (h.next hi) hr

/-- Behind the request line, the method, the path and the version stay as they are. -/
theorem requestLine_fields_parse (p : HttpParser) (req : HttpRequest) (cur : Bytes)
    (hp : p.state_ ≠ .kStartLine) :
    (parse p req cur).request.method_ = req.method_ ∧
      (parse p req cur).request.path_ = req.path_ ∧
      (parse p req cur).request.version_ = req.version_ := by
  induction p, req, cur using parse_induction with
  | nil => exact ⟨rfl, rfl, rfl⟩
  | done p req cur r p' req' cur' hc hi =>
    rw [parse_of_done hc hi]
    cases parseIteration_eq_iff.mp hi <;> exact ⟨rfl, rfl, rfl⟩
  | next p req cur p' req' cur' hc hi ih =>
    rw [parse_of_next hc hi]
    cases parseIteration_eq_iff.mp hi with
    | requestLine hp' => exact absurd hp' hp
    | header _ _ _ hl =>
      obtain ⟨headers, rfl⟩ := eq_of_parseHeaders hl
      exact ih hp
    | startBody => exact ih (by simp)

end HttpParser

/-! ## Users of the parser -/

/-- A user of the parser: the parser, the request object, and the readable bytes of the buffer. -/
structure Client where
  parser : HttpParser := {}
  request : HttpRequest := {}
  buffer : Bytes := []

/-- What a user does. -/
inductive Use where
  /-- append a chunk to the buffer -/
  | append (chunk : Bytes)
  /-- call `parseRequest` -/
  | parseRequest

/-- The data that is appended. -/
def Use.data : Use → Bytes
  | .append chunk => chunk
  | .parseRequest => []

/-- The data that is appended in a list of uses. -/
def delivered (us : List Use) : Bytes := us.flatMap Use.data

namespace Client

open HttpParser WireRequest

/-- What the next call of `parseRequest` leaves. -/
def outcome (c : Client) : Outcome :=
  let (result, parser, buffer, request) := c.parser.parseRequest c.buffer c.request
  ⟨result, parser, request, buffer⟩

/-- The user behind a call: behind a success with a fresh request object, and with a parser that
was reset if the user does so. -/
def proceed (resets : Bool) (o : Outcome) : Client :=
  if o.result = .kSuccess then
    ⟨if resets then o.parser.reset else o.parser, o.request.reset, o.rest⟩
  else ⟨o.parser, o.request, o.rest⟩

/-- What the calls of `parseRequest` leave, one after the other. -/
def calls (resets : Bool) : Client → List Use → List Outcome
  | _, [] => []
  | c, .append chunk :: us => calls resets { c with buffer := c.buffer ++ chunk } us
  | c, .parseRequest :: us => c.outcome :: calls resets (proceed resets c.outcome) us

/-- The results and the requests that the user sees. -/
def results (resets : Bool) (c : Client) (us : List Use) : List (ParseResult × HttpRequest) :=
  (calls resets c us).map fun o => (o.result, o.request)

/-- A call is a run of the loop of `parseCString`. -/
theorem outcome_eq (c : Client) : c.outcome = parse c.parser c.request c.buffer := by
  simp only [outcome, parseRequest_eq]

/-- Behind a success both users have a parser that is as new, if the parser takes care of it. -/
theorem proceed_of_parser_eq (resets : Bool) {o : Outcome} (hr : o.result = .kSuccess)
    (hp : o.parser = {}) : proceed resets o = ⟨{}, {}, o.rest⟩ := by
  rw [proceed, if_pos hr, hp]
  cases resets <;> rfl

/-- A user who resets the parser starts afresh behind a success. -/
theorem proceed_true {o : Outcome} (hr : o.result = .kSuccess) :
    proceed true o = ⟨{}, {}, o.rest⟩ := by
  rw [proceed, if_pos hr]
  rfl

/-- Without data in the buffer and none to come, the parser does not matter. -/
theorem results_of_no_data {c d : Client} (hreq : c.request = d.request) (hc : c.buffer = [])
    (hd : d.buffer = []) {us : List Use} (hus : delivered us = []) :
    results false c us = results true d us := by
  induction us generalizing c d with
  | nil => rfl
  | cons u us ih =>
    obtain ⟨hu, hus⟩ : u.data = [] ∧ delivered us = [] := by
      simpa [delivered] using hus
    cases u with
    | append chunk =>
      obtain rfl : chunk = [] := hu
      exact ih hreq (by simp [hc]) (by simp [hd]) hus
    | parseRequest =>
      have hoc : c.outcome = ⟨.kNeedMore, c.parser, c.request, []⟩ := by
        rw [outcome_eq, hc, parse_nil]
      have hod : d.outcome = ⟨.kNeedMore, d.parser, d.request, []⟩ := by
        rw [outcome_eq, hd, parse_nil]
      have hrest := ih (c := proceed false c.outcome) (d := proceed true d.outcome)
        (by rw [hoc, hod]; exact hreq) (by rw [hoc]; rfl) (by rw [hod]; rfl) hus
      simp only [results, calls, List.map_cons] at hrest ⊢
      rw [hrest, hoc, hod]
      simp only [hreq]

/-! ## On a stream of well-formed requests -/

/-- The user is where a fresh one is who has been given the data `w` of the next request. -/
def Follows (c : Client) (w : Bytes) : Prop :=
  ∀ e, parse c.parser c.request (c.buffer ++ e) = parse {} {} (w ++ e)

/-- A fresh user has been given what is in the buffer. -/
theorem follows_fresh (w : Bytes) : Follows ⟨{}, {}, w⟩ w := fun _ => rfl

/-- The bytes of a request, and what follows. -/
theorem encode_eq (r : WireRequest) (tail : Bytes) : r.encode tail = r.encode [] ++ tail := by
  simp [encode, encodeRequest, encodeHeaders]

/-- The bytes of requests in a row, by the first of them. -/
theorem encodeAll_cons (r : WireRequest) (rs : List WireRequest) :
    encodeAll (r :: rs) = r.encode (encodeAll rs) := rfl

/-- The call of a user who follows a stream is the call of a fresh one. -/
theorem Follows.outcome_eq {c : Client} {w : Bytes} (h : Follows c w) :
    c.outcome = parse {} {} w := by
  have := h []
  rwa [List.append_nil, List.append_nil, ← Client.outcome_eq] at this

/-- More data arrives. -/
theorem Follows.append {c : Client} {w : Bytes} (h : Follows c w) (chunk : Bytes) :
    Follows { c with buffer := c.buffer ++ chunk } (w ++ chunk) := by
  intro e
  rw [List.append_assoc, List.append_assoc]
  exact h (chunk ++ e)

/-- A call that asks for more data. -/
theorem Follows.needMore {c : Client} {w : Bytes} (h : Follows c w)
    (hr : c.outcome.result = .kNeedMore) (resets : Bool) :
    Follows (proceed resets c.outcome) w := by
  intro e
  rw [← h e, proceed, if_neg (by rw [hr]; decide)]
  rw [Client.outcome_eq] at hr ⊢
  exact (parse_append_needMore _ _ _ e hr).symm

/-- **A call on a stream of well-formed requests**: it asks for more data, or it reports the next
request, with the rest of the stream behind it. -/
theorem step_of_follows {c : Client} {w x : Bytes} (h : Follows c w) {rs : List WireRequest}
    (hw : w ++ x = encodeAll rs) :
    c.outcome.result = .kNeedMore ∨
      ∃ r rs', rs = r :: rs' ∧ c.outcome.result = .kSuccess ∧ c.outcome.request = r.request ∧
        c.outcome.rest ++ x = encodeAll rs' := by
  rw [h.outcome_eq]
  by_cases hr : (parse {} {} w).result = .kNeedMore
  · exact .inl hr
  · cases rs with
    | nil =>
      obtain ⟨rfl, -⟩ := List.append_eq_nil_iff.mp hw
      exact absurd rfl hr
    | cons r rs' =>
      obtain ⟨p, hp⟩ := r.parse_encode (encodeAll rs')
      have happ := parse_append_of_ne {} {} w x hr
      rw [hw, encodeAll_cons, hp] at happ
      refine .inr ⟨r, rs', rfl, ?_, ?_, ?_⟩
      · exact (congrArg Outcome.result happ).symm
      · exact (congrArg Outcome.request happ).symm
      · exact (congrArg Outcome.rest happ).symm

/-- The parser behind a request of the stream is as new exactly if the request has a body. -/
theorem parser_eq_iff_of_follows {c : Client} {w : Bytes} (h : Follows c w)
    (hr : c.outcome.result = .kSuccess) :
    c.outcome.parser = {} ↔ c.outcome.request.body_ ≠ [] := by
  have hacc : Accounts {} {} := accounts_reset {}
  rw [h.outcome_eq] at hr ⊢
  rcases hacc.parser_of_success w hr with ⟨hb, hp⟩ | ⟨hb, hp | hp⟩ <;> rw [hp]
  · exact iff_of_true rfl hb
  · exact iff_of_false (by decide) (not_not.mpr hb)
  · exact iff_of_false (by decide) (not_not.mpr hb)

/-- The user follows a stream of requests, and the uses to come deliver more of it. -/
def Reads (c : Client) (us : List Use) (rs : List WireRequest) : Prop :=
  ∃ w, Follows c w ∧ w ++ delivered us <+: encodeAll rs

/-- A fresh user reads a stream whose beginning is in the buffer. -/
theorem reads_fresh {w : Bytes} {us : List Use} {rs : List WireRequest}
    (h : w ++ delivered us <+: encodeAll rs) : Reads ⟨{}, {}, w⟩ us rs :=
  ⟨w, follows_fresh w, h⟩

/-- More of the stream arrives. -/
theorem Reads.append {c : Client} {chunk : Bytes} {us : List Use} {rs : List WireRequest}
    (h : Reads c (.append chunk :: us) rs) :
    Reads { c with buffer := c.buffer ++ chunk } us rs := by
  obtain ⟨w, hfollows, hw⟩ := h
  have hdel : delivered (.append chunk :: us) = chunk ++ delivered us := rfl
  rw [hdel, ← List.append_assoc] at hw
  exact ⟨w ++ chunk, hfollows.append chunk, hw⟩

/-- A call asks for more of the stream, or it takes the next request from it, and then the parser
is as new exactly if the request has a body. -/
theorem Reads.parseRequest {c : Client} {us : List Use} {rs : List WireRequest}
    (h : Reads c (.parseRequest :: us) rs) :
    (c.outcome.result = .kNeedMore ∧ ∀ resets, Reads (proceed resets c.outcome) us rs) ∨
      ∃ r rs', rs = r :: rs' ∧ c.outcome.result = .kSuccess ∧
        (c.outcome.parser = {} ↔ r.body ≠ []) ∧
        c.outcome.rest ++ delivered us <+: encodeAll rs' := by
  obtain ⟨w, hfollows, hw⟩ := h
  have hdel : delivered (.parseRequest :: us) = delivered us := rfl
  rw [hdel] at hw
  obtain ⟨x, hx⟩ := hw
  have hx' := hx
  rw [List.append_assoc] at hx'
  rcases step_of_follows hfollows hx' with hr | ⟨r, rs', rfl, hr, hreq, hrest⟩
  · exact .inl ⟨hr, fun resets => ⟨w, hfollows.needMore hr resets, x, hx⟩⟩
  · have hparser := parser_eq_iff_of_follows hfollows hr
    rw [hreq] at hparser
    exact .inr ⟨r, rs', rfl, hr, hparser, x, by rw [List.append_assoc, hrest]⟩

/-- **If every request before another one has a body, the two users see the same.** -/
theorem results_eq_of_bodies {us : List Use} :
    ∀ {c : Client} {rs : List WireRequest}, Reads c us rs → (∀ r ∈ rs.dropLast, r.body ≠ []) →
      results false c us = results true c us := by
  induction us with
  | nil => exact fun _ _ => rfl
  | cons u us ih =>
    intro c rs h hbodies
    cases u with
    | append chunk => exact ih h.append hbodies
    | parseRequest =>
      simp only [results, calls, List.map_cons, List.cons.injEq, true_and]
      rcases h.parseRequest with ⟨hr, hreads⟩ | ⟨r, rs', rfl, hr, hparser, hrest⟩
      · have hsame : proceed false c.outcome = proceed true c.outcome := by
          simp only [proceed, hr, reduceCtorEq, if_false]
        rw [hsame]
        exact ih (hreads true) hbodies
      · cases rs' with
        | nil =>
          -- nothing follows the request, with a body or without one
          obtain ⟨hnil, hus⟩ := List.append_eq_nil_iff.mp (List.prefix_nil.mp hrest)
          rw [proceed_true hr]
          exact results_of_no_data (c := proceed false c.outcome)
            (by rw [proceed, if_pos hr]; rfl) (by rw [proceed, if_pos hr]; exact hnil) hnil hus
        | cons r' rs'' =>
          have hp := hparser.mpr (hbodies r (by simp))
          rw [proceed_of_parser_eq false hr hp, proceed_of_parser_eq true hr hp]
          refine ih (reads_fresh hrest) ?_
          intro k hk
          exact hbodies k (by rw [List.dropLast_cons_of_ne_nil (by simp)]; exact .tail _ hk)

/-- If every request has a body, the parser is as new behind every success. -/
theorem parser_eq_of_bodies {us : List Use} :
    ∀ {c : Client} {rs : List WireRequest}, Reads c us rs → (∀ r ∈ rs, r.body ≠ []) →
      ∀ o ∈ calls false c us, o.result = .kSuccess → o.parser = {} := by
  induction us with
  | nil =>
    intro c rs _ _ o ho
    simp [calls] at ho
  | cons u us ih =>
    intro c rs h hbodies
    cases u with
    | append chunk => exact ih h.append hbodies
    | parseRequest =>
      intro o ho hro
      rw [calls, List.mem_cons] at ho
      rcases h.parseRequest with ⟨hr, hreads⟩ | ⟨r, rs', rfl, hr, hparser, hrest⟩
      · rcases ho with rfl | ho
        · rw [hr] at hro
          cases hro
        · exact ih (hreads false) hbodies o ho hro
      · have hp := hparser.mpr (hbodies r (by simp))
        rcases ho with rfl | ho
        · exact hp
        · rw [proceed_of_parser_eq false hr hp] at ho
          exact ih (reads_fresh hrest) (fun k hk => hbodies k (.tail _ hk)) o ho hro

/-- In `kHeaders`, the beginning of a request is not read as the request it is: a request line
that leaves the method, the path and the version empty has no colon. -/
theorem parse_headers_ne (r : WireRequest) :
    ((parse ⟨.kHeaders, 0, 0⟩ {} (r.encode [])).result,
      (parse ⟨.kHeaders, 0, 0⟩ {} (r.encode [])).request) ≠ (.kSuccess, r.request) := by
  intro heq
  obtain ⟨hr, hreq⟩ := Prod.mk.inj heq
  obtain ⟨_, method, path, version, hline, -, -, hparse⟩ := HttpParser.parse_encode r.form []
  obtain ⟨_, hparse'⟩ := r.parse_encode []
  have hreq' : r.request = ⟨method, path, version, storeHeaders .empty r.headers, r.body⟩ :=
    congrArg Outcome.request (hparse'.symm.trans hparse)
  obtain ⟨hm, hpath, hv⟩ := requestLine_fields_parse ⟨.kHeaders, 0, 0⟩ {} (r.encode []) (by decide)
  rw [hreq, hreq'] at hm hpath hv
  dsimp only at hm hpath hv
  subst hm hpath hv
  have hcut : cut crlf (r.encode []) = some (r.line, encodeHeaders r.headers (r.body ++ [])) :=
    cut_crlf r.form.line_not_infix _
  have hl : parseHeaders r.line {} = none := by
    rw [hline, parseHeaders_eq]
    decide
  have hne : r.encode [] ≠ [] := append_crlf_ne_nil _ _
  rw [parse_of_done hne (Iterates.badHeader rfl hcut (by rw [hline]; decide) hl).eq] at hr
  cases hr

/-- The uses of a user who is given a request and parses it. -/
def useOf (r : WireRequest) : List Use := [.append (r.encode []), .parseRequest]

/-- A fresh user who is given a request and parses it. -/
theorem calls_useOf (resets : Bool) (r : WireRequest) (us : List Use) :
    ∃ p, (p = {} ↔ r.body ≠ []) ∧ (p ≠ {} → p = ⟨.kHeaders, 0, 0⟩ ∨ p = ⟨.kBody, 0, 0⟩) ∧
      calls resets {} (useOf r ++ us) = ⟨.kSuccess, p, r.request, []⟩ ::
        calls resets ⟨if resets then {} else p, {}, []⟩ us := by
  obtain ⟨p, hp⟩ := r.parse_encode []
  have hacc : Accounts {} {} := accounts_reset {}
  have ho : (⟨{}, {}, r.encode []⟩ : Client).outcome = ⟨.kSuccess, p, r.request, []⟩ := by
    rw [outcome_eq, hp]
  have hcases := hacc.parser_of_success (r.encode []) (by rw [hp])
  rw [hp] at hcases
  refine ⟨p, ?_, ?_, ?_⟩
  · have := parser_eq_iff_of_follows (follows_fresh (r.encode [])) (by rw [ho])
    rwa [ho] at this
  · intro hne
    rcases hcases with ⟨-, h⟩ | ⟨-, h⟩
    · exact absurd h hne
    · exact h
  · show Client.outcome ⟨{}, {}, [] ++ r.encode []⟩ :: calls resets _ us = _
    rw [List.nil_append, ho]
    cases resets <;> rfl

/-- A parser that waits for an empty body reports a request without using any data. -/
theorem parse_emptyBody {cur : Bytes} (hc : cur ≠ []) :
    parse ⟨.kBody, 0, 0⟩ {} cur = ⟨.kSuccess, {}, {}, cur⟩ := by
  have hi : parseIteration ⟨.kBody, 0, 0⟩ {} cur = .done .kSuccess {} {} cur := by
    rw [parseIteration_body rfl, if_pos (by simp [subSize])]
    rfl
  exact parse_of_done hc hi

/-- **With a parser that is not as new, the next request is not seen as it is.**

**Proof sketch.** In `kHeaders` its request line is read as a header line, so the request that
comes out, if any, has no method, path and version. In `kBody` an empty request comes out without
any data being used, and a further call finds a request where the user who resets the parser finds
no data. -/
theorem results_stale_ne {p : HttpParser} (hp : p = ⟨.kHeaders, 0, 0⟩ ∨ p = ⟨.kBody, 0, 0⟩)
    (r : WireRequest) :
    results false ⟨p, {}, []⟩ (useOf r ++ [.parseRequest]) ≠
      results true {} (useOf r ++ [.parseRequest]) := by
  obtain ⟨_, -, -, htrue⟩ := calls_useOf true r [.parseRequest]
  have hfalse : calls false ⟨p, {}, []⟩ (useOf r ++ [.parseRequest]) =
      [parse p {} (r.encode []), (proceed false (parse p {} (r.encode []))).outcome] := by
    rw [← outcome_eq ⟨p, {}, r.encode []⟩]
    rfl
  have hlast : calls true ⟨{}, {}, []⟩ [.parseRequest] = [⟨.kNeedMore, {}, {}, []⟩] := rfl
  rw [if_pos rfl, hlast] at htrue
  rw [results, results, hfalse, htrue]
  intro heq
  simp only [List.map_cons, List.map_nil, List.cons.injEq, and_true] at heq
  obtain ⟨hfirst, hsecond⟩ := heq
  rcases hp with rfl | rfl
  · exact parse_headers_ne r hfirst
  · have hne : r.encode [] ≠ [] := append_crlf_ne_nil _ _
    obtain ⟨p', hp'⟩ := r.parse_encode []
    rw [parse_emptyBody hne, proceed_of_parser_eq false rfl rfl, outcome_eq, hp'] at hsecond
    cases hsecond

/-- If the two users see the same of two requests, the first of them has a body. -/
theorem body_ne_nil_of_results_eq (r r' : WireRequest)
    (h : results false {} (useOf r ++ (useOf r' ++ [.parseRequest])) =
      results true {} (useOf r ++ (useOf r' ++ [.parseRequest]))) : r.body ≠ [] := by
  intro hbody
  obtain ⟨p, hp, hcases, hfalse⟩ := calls_useOf false r (useOf r' ++ [.parseRequest])
  obtain ⟨_, -, -, htrue⟩ := calls_useOf true r (useOf r' ++ [.parseRequest])
  have hne : p ≠ {} := fun h => hp.mp h hbody
  rw [results, results, hfalse, htrue] at h
  exact results_stale_ne (hcases hne) r' (List.cons.inj h).2

/-- Behind a request with a body, the two users see the same exactly if they do from there. -/
theorem results_useOf_eq_iff (r : WireRequest) (hbody : r.body ≠ []) (us : List Use) :
    results false {} (useOf r ++ us) = results true {} (useOf r ++ us) ↔
      results false {} us = results true {} us := by
  obtain ⟨p, hp, -, hfalse⟩ := calls_useOf false r us
  obtain ⟨_, -, -, htrue⟩ := calls_useOf true r us
  obtain rfl := hp.mpr hbody
  rw [results, results, hfalse, htrue]
  simp only [List.map_cons, List.cons.injEq, true_and]
  exact Iff.rfl

/-- The uses of a stream with a further request in front are those of the stream, behind the
request. -/
theorem delivered_prefix_useOf {r : WireRequest} {rs : List WireRequest} {us : List Use}
    (hus : delivered us <+: encodeAll rs) :
    delivered (useOf r ++ us) <+: encodeAll (r :: rs) := by
  rw [encodeAll_cons, encode_eq]
  have hdel : delivered (useOf r ++ us) = r.encode [] ++ delivered us := by
    simp [delivered, useOf, Use.data]
  rw [hdel]
  exact (List.prefix_append_right_inj _).mpr hus

/-- **If the two users see the same of a stream, every request before another one has a body.** -/
theorem bodies_of_results_eq (rs : List WireRequest)
    (h : ∀ us, delivered us <+: encodeAll rs → results false {} us = results true {} us) :
    ∀ r ∈ rs.dropLast, r.body ≠ [] := by
  induction rs with
  | nil => simp
  | cons r rs ih =>
    cases rs with
    | nil => simp
    | cons r' rs =>
      have hnil : delivered [.parseRequest] <+: encodeAll rs := List.nil_prefix
      have hbody := body_ne_nil_of_results_eq r r'
        (h _ (delivered_prefix_useOf (delivered_prefix_useOf hnil)))
      intro k hk
      rw [List.dropLast_cons_of_ne_nil (by simp), List.mem_cons] at hk
      rcases hk with rfl | hk
      · exact hbody
      · exact ih (fun us hus => (results_useOf_eq_iff r hbody us).mp
          (h _ (delivered_prefix_useOf hus))) k hk

/-- If the parser is as new behind every success, every request has a body. -/
theorem bodies_of_parser_eq (rs : List WireRequest)
    (h : ∀ us, delivered us <+: encodeAll rs →
      ∀ o ∈ calls false {} us, o.result = .kSuccess → o.parser = {}) :
    ∀ r ∈ rs, r.body ≠ [] := by
  induction rs with
  | nil => simp
  | cons r rs ih =>
    have huse : ∀ us, ∃ p, (p = {} ↔ r.body ≠ []) ∧ calls false {} (useOf r ++ us) =
        ⟨.kSuccess, p, r.request, []⟩ :: calls false ⟨p, {}, []⟩ us := by
      intro us
      obtain ⟨p, hp, -, hcalls⟩ := calls_useOf false r us
      exact ⟨p, hp, hcalls⟩
    obtain ⟨p, hp, hcalls⟩ := huse []
    have hmem : (⟨.kSuccess, p, r.request, []⟩ : Outcome) ∈ calls false {} (useOf r ++ []) := by
      rw [hcalls]
      exact List.mem_cons_self
    have hbody : r.body ≠ [] :=
      hp.mp (h (useOf r ++ []) (delivered_prefix_useOf List.nil_prefix) _ hmem rfl)
    intro k hk
    rcases List.mem_cons.mp hk with rfl | hk
    · exact hbody
    · refine ih (fun us hus o ho => h (useOf r ++ us) (delivered_prefix_useOf hus) o ?_) k hk
      obtain ⟨p', hp', hcalls'⟩ := huse us
      rw [hcalls', hp'.mpr hbody]
      exact .tail _ ho

/-- **When the parser can be used again without resetting it.** On a stream of well-formed
requests, a user who resets only the request object sees the same results and requests as one who
resets the parser as well, however the stream is cut and the calls are made, exactly if every
request before another one has a body; and the parser is as new behind every success exactly if
every request has one. -/
theorem ready_iff_bodies (rs : List WireRequest) :
    ((∀ us, delivered us <+: encodeAll rs → results false {} us = results true {} us) ↔
      ∀ r ∈ rs.dropLast, r.body ≠ []) ∧
    ((∀ us, delivered us <+: encodeAll rs →
        ∀ o ∈ calls false {} us, o.result = .kSuccess →
          o.parser.state_ = .kStartLine ∧ o.parser.contentLength_ = 0 ∧
            o.parser.bodyReceived_ = 0) ↔
      ∀ r ∈ rs, r.body ≠ []) := by
  have hnew : ∀ p : HttpParser, p.state_ = .kStartLine ∧ p.contentLength_ = 0 ∧
      p.bodyReceived_ = 0 ↔ p = {} := by
    rintro ⟨state, length, received⟩
    simp
  simp only [hnew]
  refine ⟨⟨bodies_of_results_eq rs, ?_⟩, ⟨bodies_of_parser_eq rs, ?_⟩⟩
  · intro hbodies us hus
    exact results_eq_of_bodies (reads_fresh hus) hbodies
  · intro hbodies us hus
    exact parser_eq_of_bodies (reads_fresh hus) hbodies

/-- Two requests without a body: the second of them is reported as an error, and the parser is in
`kHeaders` behind the first. -/
theorem stale_parser_misreads :
    results false {} [.append (encodeAll [getRoot, getRoot]), .parseRequest, .parseRequest] ≠
        results true {} [.append (encodeAll [getRoot, getRoot]), .parseRequest, .parseRequest] ∧
      (calls false {} [.append (encodeAll [getRoot]), .parseRequest]).map (·.parser) =
        [⟨.kHeaders, 0, 0⟩] := by
  decide

end Client

end LouisNet.Http
