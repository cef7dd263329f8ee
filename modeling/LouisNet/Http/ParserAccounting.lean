import LouisNet.Http.ParserStream
import LouisNet.Lib.Run

set_option relaxedAutoImplicit false
set_option autoImplicit false

/-!
# Accounting for the body

The parser counts the body with two numbers: `contentLength_` is set at the blank line behind the
headers, `bodyReceived_` grows with every part of the body, and both are read by a later call. The
invariant that joins them is shown for one iteration of the loop of `parseCString`, for one call,
and for any sequence of calls on chunks as they arrive.

## Main definitions

* `LouisNet.Http.HttpParser.Accounts` — the counters fit the state and the body.
* `LouisNet.Http.HttpParser.Visits` — the states in which the loop goes around.
* `LouisNet.Http.Feed`, `LouisNet.Http.Feed.call` — calls of `parseRequest` on arriving chunks.

## Main results

* `LouisNet.Http.HttpParser.Accounts.next`, `LouisNet.Http.HttpParser.Accounts.parse` — the
  invariant, along one iteration and along one call.
* `LouisNet.Http.Feed.accounts_run` — the invariant, along any number of calls.
-/

namespace LouisNet.Http

open Lib

namespace HttpParser

/-! ## The invariant -/

/-- The counters of the parser fit its state and the body stored so far. -/
structure Accounts (p : HttpParser) (req : HttpRequest) : Prop where
  /-- as many bytes have been counted as are stored -/
  length_body : req.body_.length = p.bodyReceived_
  /-- outside the body nothing is counted -/
  idle : p.state_ ≠ .kBody → p.bodyReceived_ = 0 ∧ p.contentLength_ = 0
  /-- inside the body something is missing -/
  missing : p.state_ = .kBody → p.bodyReceived_ < p.contentLength_
  /-- the length is a `size_t` -/
  length_lt : p.contentLength_ < 2 ^ 64

variable {p p' : HttpParser} {req req' : HttpRequest} {cur cur' : Bytes}

/-- A parser that was reset and an empty request. -/
theorem accounts_reset (p : HttpParser) : Accounts p.reset {} where
  length_body := rfl
  idle := fun _ => ⟨rfl, rfl⟩
  missing := by simp [reset]
  length_lt := by simp [reset]

namespace Accounts

/-- The bytes of the body still missing are counted without wrap-around. -/
theorem subSize_eq (h : Accounts p req) (hp : p.state_ = .kBody) :
    subSize p.contentLength_ p.bodyReceived_ = p.contentLength_ - p.bodyReceived_ :=
  Lib.subSize_eq (h.missing hp).le h.length_lt

/-- The assertion behind the body: with the missing bytes the body is complete. -/
theorem assertion (h : Accounts p req) (hp : p.state_ = .kBody) :
    (p.receive (subSize p.contentLength_ p.bodyReceived_)).BodyComplete := by
  have hlt := h.missing hp
  have hlen := h.length_lt
  show addSize p.bodyReceived_ (subSize p.contentLength_ p.bodyReceived_) = p.contentLength_
  rw [h.subSize_eq hp, addSize_eq (by omega)]
  omega

/-- A line keeps the accounts of a parser that is outside the body, if it leaves the body alone. -/
theorem of_body_eq (h : Accounts p req) (hp : p.state_ ≠ .kBody) (hb : req'.body_ = req.body_)
    {state : State} (hs : state ≠ .kBody) : Accounts { p with state_ := state } req' where
  length_body := by rw [hb, h.length_body]
  idle := fun _ => h.idle hp
  missing := fun hstate => absurd hstate hs
  length_lt := h.length_lt

end Accounts

/-- A request line leaves the body alone. -/
theorem body_of_parseRequestLine {line : Bytes} (h : parseRequestLine line req = some req') :
    req'.body_ = req.body_ := by
  unfold parseRequestLine at h
  split at h
  · cases h
  · split at h
    · cases h
    · cases h
      rfl

/-- A header line stores a header and leaves the rest of the request alone. -/
theorem eq_of_parseHeaders {line : Bytes} (h : parseHeaders line req = some req') :
    ∃ headers, req' = { req with headers_ := headers } := by
  unfold parseHeaders at h
  split_ifs at h
  split at h
  · cases h
  · exact ⟨_, (Option.some.inj h).symm⟩

namespace Accounts

/-! ## One iteration and one call -/

/-- **An iteration that goes around keeps the accounts.** -/
theorem next (h : Accounts p req) (hi : parseIteration p req cur = .next p' req' cur') :
    Accounts p' req' := by
  cases parseIteration_eq_iff.mp hi with
  | requestLine hp _ hl =>
    exact h.of_body_eq (by rw [hp]; decide) (body_of_parseRequestLine hl) (by decide)
  | header hp _ _ hl =>
    obtain ⟨headers, rfl⟩ := eq_of_parseHeaders hl
    exact ⟨h.length_body, h.idle, h.missing, h.length_lt⟩
  | startBody hp _ _ hn h0 =>
    obtain ⟨hreceived, -⟩ := h.idle (by rw [hp]; decide)
    refine ⟨h.length_body, fun hs => absurd rfl hs, fun _ => ?_, stoul_lt hn⟩
    show p.bodyReceived_ < _
    rw [hreceived]
    exact Nat.pos_of_ne_zero h0

/-- **An iteration that asks for more data keeps the accounts.** -/
theorem needMore (h : Accounts p req)
    (hi : parseIteration p req cur = .done .kNeedMore p' req' cur') : Accounts p' req' := by
  cases parseIteration_eq_iff.mp hi with
  | incomplete => exact h
  | partialBody hp hn =>
    have hlt := h.missing hp
    have hlen := h.length_lt
    rw [h.subSize_eq hp] at hn
    have hadd : addSize p.bodyReceived_ cur.length = p.bodyReceived_ + cur.length :=
      addSize_eq (by omega)
    refine ⟨?_, fun hs => absurd hp hs, fun _ => ?_, hlen⟩
    · simp only [hadd, List.length_append, h.length_body]
    · simp only [hadd]
      omega

/-- **A call that asks for more data keeps the accounts.** -/
theorem parse (h : Accounts p req) (hr : (HttpParser.parse p req cur).result = .kNeedMore) :
    Accounts (HttpParser.parse p req cur).parser (HttpParser.parse p req cur).request := by
  induction p, req, cur using parse_induction with
  | nil => exact h
  | done p req cur r p' req' cur' hc hi =>
    rw [parse_of_done hc hi] at hr ⊢
    obtain rfl : r = .kNeedMore := hr
    exact h.needMore hi
  | next p req cur p' req' cur' hc hi ih =>
    rw [parse_of_next hc hi] at hr ⊢
    exact ih (h.next hi) hr

end Accounts

/-- The states in which the loop of a call is at its head with data left. -/
inductive Visits : HttpParser → HttpRequest → Bytes → HttpParser → HttpRequest → Bytes → Prop
  /-- at the start -/
  | start {p : HttpParser} {req : HttpRequest} {cur : Bytes} (hc : cur ≠ []) :
      Visits p req cur p req cur
  /-- behind an iteration that goes around -/
  | next {p p₁ p' : HttpParser} {req req₁ req' : HttpRequest} {cur cur₁ cur' : Bytes}
      (hc : cur ≠ []) (hi : parseIteration p req cur = .next p₁ req₁ cur₁)
      (h : Visits p₁ req₁ cur₁ p' req' cur') : Visits p req cur p' req' cur'

/-- The accounts are right whenever the loop goes around. -/
theorem Visits.accounts (hv : Visits p req cur p' req' cur') (h : Accounts p req) :
    Accounts p' req' := by
  induction hv with
  | start => exact h
  | next hc hi _ ih => exact ih (h.next hi)

end HttpParser

/-! ## Calls on arriving chunks -/

/-- Calls of `parseRequest`: the parser, the request, the readable bytes of the buffer, and how
many bytes were appended to it and consumed from it so far. -/
structure Feed where
  parser : HttpParser := {}
  request : HttpRequest := {}
  buffer : Bytes := []
  delivered : ℕ := 0
  consumed : ℕ := 0

namespace Feed

open HttpParser

/-- Append a chunk to the buffer and call `parseRequest`. -/
def call (f : Feed) (chunk : Bytes) : ParseResult × Feed :=
  let data := f.buffer ++ chunk
  let (result, parser, request, parsed) := f.parser.parseCString data f.request
  (result,
    { parser, request
      buffer := data.drop parsed
      delivered := f.delivered + chunk.length
      consumed := f.consumed + parsed })

/-- A call that asks for more data. -/
def step (f : Feed) (chunk : Bytes) : Option Feed :=
  Lib.assert ((f.call chunk).1 = .kNeedMore) (some (f.call chunk).2)

/-- What was delivered has been consumed or waits in the buffer. -/
theorem consumed_add_buffer_call {f : Feed} (h : f.consumed + f.buffer.length = f.delivered)
    (chunk : Bytes) :
    (f.call chunk).2.consumed + (f.call chunk).2.buffer.length = (f.call chunk).2.delivered := by
  have hle := (suffix_parse f.parser f.request (f.buffer ++ chunk)).length_le
  simp only [call, parseCString, List.length_drop, List.length_append] at hle ⊢
  omega

/-- A run of calls has delivered its chunks. -/
theorem delivered_run {f g : Feed} {chunks : List Bytes} (h : run step f chunks = some g) :
    g.delivered = f.delivered + chunks.flatten.length := by
  induction chunks generalizing f with
  | nil =>
    obtain rfl : f = g := by simpa [run] using h
    simp
  | cons chunk chunks ih =>
    obtain ⟨f', hf', hrun⟩ := run_cons h
    rw [step, assert_eq_some_iff, Option.some.injEq] at hf'
    obtain ⟨-, rfl⟩ := hf'
    rw [ih hrun, List.flatten_cons, List.length_append]
    simp only [call]
    omega

/-- The accounts of a run of calls. -/
theorem accounts_run (p : HttpParser) {chunks : List Bytes} {f : Feed}
    (h : run step { parser := p.reset } chunks = some f) :
    Accounts f.parser f.request ∧ f.consumed + f.buffer.length = f.delivered := by
  apply run_invariant (I := fun f : Feed =>
    Accounts f.parser f.request ∧ f.consumed + f.buffer.length = f.delivered) ?_ h
    ⟨accounts_reset p, rfl⟩
  rintro f chunk f' hf' ⟨hacc, hlen⟩
  rw [step, assert_eq_some_iff, Option.some.injEq] at hf'
  obtain ⟨hr, rfl⟩ := hf'
  exact ⟨hacc.parse hr, consumed_add_buffer_call hlen chunk⟩

/-- **Body accounting.** After any calls on any chunks that all asked for more data, the counters
fit the state and the body, and no more bytes were consumed than delivered. In the next call,
whatever its result, the subtraction of the counters does not wrap, and the assertion behind the
body holds where it is reached. -/
theorem body_accounting (p : HttpParser) {chunks : List Bytes} {f : Feed}
    (h : run step { parser := p.reset } chunks = some f) :
    f.request.body_.length = f.parser.bodyReceived_ ∧
      (f.parser.state_ = .kStartLine ∨ f.parser.state_ = .kHeaders →
        f.parser.bodyReceived_ = 0 ∧ f.parser.contentLength_ = 0) ∧
      (f.parser.state_ = .kBody → f.parser.bodyReceived_ < f.parser.contentLength_) ∧
      f.consumed ≤ chunks.flatten.length ∧
      ∀ chunk, (f.call chunk).2.consumed ≤ (chunks ++ [chunk]).flatten.length ∧
        ∀ p' req' cur', Visits f.parser f.request (f.buffer ++ chunk) p' req' cur' →
          p'.state_ = .kBody →
            p'.bodyReceived_ < p'.contentLength_ ∧
            subSize p'.contentLength_ p'.bodyReceived_ = p'.contentLength_ - p'.bodyReceived_ ∧
            (subSize p'.contentLength_ p'.bodyReceived_ ≤ cur'.length →
              (p'.receive (subSize p'.contentLength_ p'.bodyReceived_)).BodyComplete) := by
  obtain ⟨hacc, hlen⟩ := accounts_run p h
  have hdel := delivered_run h
  rw [Nat.zero_add] at hdel
  refine ⟨hacc.length_body, fun hs => hacc.idle ?_, hacc.missing, by omega, fun chunk => ⟨?_, ?_⟩⟩
  · rcases hs with hs | hs <;> rw [hs] <;> decide
  · have hcall := consumed_add_buffer_call hlen chunk
    have hchunk : (f.call chunk).2.delivered = f.delivered + chunk.length := rfl
    rw [List.flatten_append, List.length_append, List.flatten_singleton]
    omega
  · intro p' req' cur' hv hp'
    have hacc' := hv.accounts hacc
    exact ⟨hacc'.missing hp', hacc'.subSize_eq hp', fun _ => hacc'.assertion hp'⟩

/-- A body in three parts, of which the last is still to come. -/
theorem body_accounting_parts : ∃ f : Feed,
    run step { parser := reset ⟨.kBody, 7, 1⟩ }
      [ascii "POST / V\r\nContent-Len", ascii "gth: 5\r\n\r\na", ascii "bc"] = some f ∧
    f.parser.contentLength_ = 5 ∧ f.request.body_.length = 3 ∧
    f.parser.bodyReceived_ < f.parser.contentLength_ := by
  have hrun : (run step { parser := reset ⟨.kBody, 7, 1⟩ }
      [ascii "POST / V\r\nContent-Len", ascii "gth: 5\r\n\r\na", ascii "bc"]).map
        (fun f => (f.parser.state_, f.parser.contentLength_, f.request.body_.length)) =
      some (.kBody, 5, 3) := by decide
  obtain ⟨f, hf, hobs⟩ := Option.map_eq_some_iff.mp hrun
  simp only [Prod.mk.injEq] at hobs
  obtain ⟨hstate, hlen, hbody⟩ := hobs
  exact ⟨f, hf, hlen, hbody, (body_accounting _ hf).2.2.1 hstate⟩

end Feed

end LouisNet.Http
