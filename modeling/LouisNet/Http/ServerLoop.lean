import LouisNet.Http.ParserGrammar
import LouisNet.Http.Server
import Mathlib.Logic.Function.Iterate

set_option relaxedAutoImplicit false
set_option autoImplicit false

/-!
# When the loop of `onMessage` ends

The loop of `HttpServer::onMessage` runs until the buffer is empty. It goes around after
`kNeedMore`, with the incomplete line still in the buffer, and after a request line that is not
one, with that line still in the buffer; in both cases it never ends. This file says exactly
when it ends, in terms of the bytes alone: every line that begins in the buffer ends in it, and
every line read as a request line has two spaces.

The loop depends on the parser, the request and the buffer only, not on the handlers. The
induction goes over the lines of the buffer, and what is shown along it is that a line leads
from one place in the grammar to another one.

## Main definitions

* `LouisNet.Http.Reading` — what the loop depends on.
* `LouisNet.Http.Position`, `LouisNet.Http.Drains` — the places in the grammar, and the byte
  strings that the loop uses up from a place.
* `LouisNet.Http.HttpServer.Reachable` — the states of a connection.

## Main results

* `LouisNet.Http.Reading.ends_iff_drains` — the loop ends exactly on these byte strings.
-/

namespace LouisNet.Http

open Lib HttpParser

/-! ## What the loop depends on -/

/-- The part of a connection that decides how the loop goes on. -/
structure Reading where
  parser : HttpParser := {}
  request : HttpRequest := {}
  buffer : Bytes := []

namespace Reading

/-- What an iteration of the loop does to it. -/
def next (c : Reading) : Reading :=
  let o := parse c.parser c.request c.buffer
  if o.result = .kNeedMore then ⟨o.parser, o.request, o.rest⟩ else ⟨{}, {}, o.rest⟩

/-- The loop ends: after some iterations the buffer is empty. -/
def Ends (c : Reading) : Prop := ∃ n, (next^[n] c).buffer = []

/-- Without data an iteration would change nothing. -/
theorem next_of_nil {c : Reading} (h : c.buffer = []) : c.next = c := by
  unfold next
  rw [h, parse_nil, if_pos rfl, ← h]

/-- The loop ends if it ends behind its next iteration. -/
theorem ends_next_iff {c : Reading} : c.next.Ends ↔ c.Ends := by
  constructor
  · rintro ⟨n, hn⟩
    exact ⟨n + 1, hn⟩
  · rintro ⟨n, hn⟩
    cases n with
    | zero =>
      have hnil : c.buffer = [] := hn
      refine ⟨0, ?_⟩
      show c.next.buffer = []
      rw [next_of_nil hnil]
      exact hnil
    | succ n => exact ⟨n, hn⟩

/-- The iteration of the parser decides the iteration of the loop. -/
theorem next_of_next {p p' : HttpParser} {req req' : HttpRequest} {cur cur' : Bytes}
    (hc : cur ≠ []) (h : parseIteration p req cur = .next p' req' cur') :
    next ⟨p, req, cur⟩ = next ⟨p', req', cur'⟩ := by
  unfold next
  dsimp only
  rw [parse_of_next hc h]

/-- The loop at an iteration of the parser that leaves its loop. -/
theorem next_of_done {p p' : HttpParser} {req req' : HttpRequest} {cur cur' : Bytes}
    {r : ParseResult} (hc : cur ≠ []) (h : parseIteration p req cur = .done r p' req' cur') :
    next ⟨p, req, cur⟩ = if r = .kNeedMore then ⟨p', req', cur'⟩ else ⟨{}, {}, cur'⟩ := by
  unfold next
  dsimp only
  rw [parse_of_done hc h]

end Reading

/-! ## The bytes that are used up -/

/-- Places in the grammar: before a request line, in the headers with the content length seen
so far, and in the body with the number of bytes it still needs. -/
inductive Position where
  | requestLine
  | headers (contentLength : Option Bytes)
  | body (need : ℕ)

/-- **The byte strings that the loop uses up from a place.** Every line is complete, and every
line read as a request line has two spaces. A header line without a colon is read again as a
request line; behind a blank line with no content length, a bad one or zero comes the next
request. -/
inductive Drains : Position → Bytes → Prop
  | nil (pos : Position) : Drains pos []
  | requestLine {line rest : Bytes} (hline : ¬ crlf <:+: line) (hspaces : 2 ≤ line.count 32)
      (h : Drains (.headers none) rest) : Drains .requestLine (line ++ (crlf ++ rest))
  | header {cl : Option Bytes} {line rest : Bytes} (hline : HeaderForm line)
      (h : Drains (.headers (if ascii "content-length" = headerName line then
        some (headerValue line) else cl)) rest) :
      Drains (.headers cl) (line ++ (crlf ++ rest))
  | badHeader {cl : Option Bytes} {line rest : Bytes} (hline : ¬ crlf <:+: line) (hne : line ≠ [])
      (hcolon : 58 ∉ line) (h : Drains .requestLine (line ++ (crlf ++ rest))) :
      Drains (.headers cl) (line ++ (crlf ++ rest))
  | blank {cl : Option Bytes} {rest : Bytes} (hn : cl.bind stoul = none ∨ cl.bind stoul = some 0)
      (h : Drains .requestLine rest) : Drains (.headers cl) (crlf ++ rest)
  | blankBody {cl : Option Bytes} {rest : Bytes} {n : ℕ} (hn : cl.bind stoul = some n)
      (h0 : n ≠ 0) (h : Drains (.body n) rest) : Drains (.headers cl) (crlf ++ rest)
  | body {body rest : Bytes} (h : Drains .requestLine rest) :
      Drains (.body body.length) (body ++ rest)
  | partialBody {need : ℕ} {rest : Bytes} (hn : rest.length < need) : Drains (.body need) rest

namespace Reading

/-- The place where the parser is. -/
def position (c : Reading) : Position :=
  match c.parser.state_ with
  | .kStartLine => .requestLine
  | .kHeaders => .headers (c.request.headers_.find? (ascii "content-length"))
  | .kBody => .body (subSize c.parser.contentLength_ c.parser.bodyReceived_)

/-- Before a request line no content length is known, and before the body nothing of it has
been received. -/
def WellPlaced (c : Reading) : Prop :=
  (c.parser.state_ = .kStartLine → c.request.headers_.find? (ascii "content-length") = none) ∧
    (c.parser.state_ ≠ .kBody → c.parser.bodyReceived_ = 0)

/-- A fresh parser is well placed. -/
theorem wellPlaced_fresh (buffer : Bytes) : WellPlaced ⟨{}, {}, buffer⟩ :=
  ⟨fun _ => rfl, fun _ => rfl⟩

/-- A parser that goes around is well placed. -/
theorem WellPlaced.of_next {p p' : HttpParser} {req req' : HttpRequest} {cur cur' : Bytes}
    (hw : WellPlaced ⟨p, req, cur⟩) (h : parseIteration p req cur = .next p' req' cur') :
    WellPlaced ⟨p', req', cur'⟩ := by
  cases parseIteration_eq_iff.mp h with
  | requestLine hp _ _ =>
    refine ⟨fun hs => ?_, fun _ => hw.2 ?_⟩
    · cases hs
    · dsimp only
      rw [hp]
      decide
  | header hp _ _ _ =>
    refine ⟨fun hs => ?_, hw.2⟩
    cases hp.symm.trans hs
  | startBody _ _ _ _ _ =>
    refine ⟨fun hs => ?_, fun hs => absurd rfl hs⟩
    cases hs

/-- A parser that asks for more is well placed. -/
theorem WellPlaced.of_needMore {p p' : HttpParser} {req req' : HttpRequest} {cur cur' : Bytes}
    (hw : WellPlaced ⟨p, req, cur⟩) (h : parseIteration p req cur = .done .kNeedMore p' req' cur') :
    WellPlaced ⟨p', req', cur'⟩ := by
  cases parseIteration_eq_iff.mp h with
  | incomplete _ _ => exact hw
  | partialBody hp _ =>
    refine ⟨fun hs => ?_, fun hs => absurd hp hs⟩
    cases hp.symm.trans hs

/-- The loop keeps the parser well placed. -/
theorem WellPlaced.next {c : Reading} (hw : c.WellPlaced) : c.next.WellPlaced := by
  obtain ⟨p, req, cur⟩ := c
  induction p, req, cur using parse_induction with
  | nil p req => rwa [next_of_nil rfl]
  | done p req cur r p' req' cur' hc hi =>
    rw [next_of_done hc hi]
    split_ifs with hr
    · subst hr
      exact hw.of_needMore hi
    · exact wellPlaced_fresh cur'
  | next p req cur p' req' cur' hc hi ih =>
    rw [next_of_next hc hi]
    exact ih (hw.of_next hi)

/-! ## The loop uses up these byte strings -/

/-- The place of a parser before a request line. -/
theorem position_startLine {c : Reading} (h : c.parser.state_ = .kStartLine) :
    c.position = .requestLine := by
  unfold position
  rw [h]

/-- The place of a parser in the headers. -/
theorem position_headers {c : Reading} (h : c.parser.state_ = .kHeaders) :
    c.position = .headers (c.request.headers_.find? (ascii "content-length")) := by
  unfold position
  rw [h]

/-- The place of a parser in the body. -/
theorem position_body {c : Reading} (h : c.parser.state_ = .kBody) :
    c.position = .body (subSize c.parser.contentLength_ c.parser.bodyReceived_) := by
  unfold position
  rw [h]

/-- The state of a parser before a request line. -/
theorem state_of_position_requestLine {c : Reading} (h : c.position = .requestLine) :
    c.parser.state_ = .kStartLine := by
  unfold position at h
  split at h
  · assumption
  · cases h
  · cases h

/-- The state of a parser in the headers. -/
theorem state_of_position_headers {c : Reading} {cl : Option Bytes} (h : c.position = .headers cl) :
    c.parser.state_ = .kHeaders ∧ c.request.headers_.find? (ascii "content-length") = cl := by
  unfold position at h
  split at h
  · cases h
  · rename_i hs
    exact ⟨hs, Position.headers.inj h⟩
  · cases h

/-- The state of a parser in the body. -/
theorem state_of_position_body {c : Reading} {need : ℕ} (h : c.position = .body need) :
    c.parser.state_ = .kBody ∧ subSize c.parser.contentLength_ c.parser.bodyReceived_ = need := by
  unfold position at h
  split at h
  · cases h
  · cases h
  · rename_i hs
    exact ⟨hs, Position.body.inj h⟩

/-- A header line leads to the place with the content length that it leaves. -/
theorem position_addHeader {p : HttpParser} (hp : p.state_ = .kHeaders) (req : HttpRequest)
    (line rest : Bytes) : position ⟨p, addHeader req line, rest⟩ =
      .headers (if ascii "content-length" = headerName line then some (headerValue line)
        else req.headers_.find? (ascii "content-length")) := by
  rw [position_headers hp, addHeader, SortedMap.find?_insert]
  congr

/-- The loop ends if it ends from where the parser goes around. -/
theorem ends_of_next {p p' : HttpParser} {req req' : HttpRequest} {cur cur' : Bytes}
    (hc : cur ≠ []) (hi : Iterates p req cur (.next p' req' cur'))
    (h : Ends ⟨p', req', cur'⟩) : Ends ⟨p, req, cur⟩ := by
  rw [← ends_next_iff, next_of_next hc hi.eq, ends_next_iff]
  exact h

/-- The loop ends if it ends behind an answer. -/
theorem ends_of_answer {p p' : HttpParser} {req req' : HttpRequest} {cur cur' : Bytes}
    {r : ParseResult} (hc : cur ≠ []) (hi : Iterates p req cur (.done r p' req' cur'))
    (hr : r ≠ .kNeedMore) (h : Ends ⟨{}, {}, cur'⟩) : Ends ⟨p, req, cur⟩ := by
  rw [← ends_next_iff, next_of_done hc hi.eq, if_neg hr]
  exact h

/-- **The loop ends on the byte strings that it uses up**, by induction on the lines. -/
theorem ends_of_drains {pos : Position} {s : Bytes} (h : Drains pos s) :
    ∀ {c : Reading}, c.WellPlaced → c.position = pos → c.buffer = s → c.Ends := by
  induction h with
  | nil pos => exact fun _ _ hb => ⟨0, hb⟩
  | @requestLine line rest hline hspaces h ih =>
    rintro ⟨p, req, _⟩ hw hpos rfl
    have hp := state_of_position_requestLine hpos
    obtain ⟨req', hreq⟩ := Option.ne_none_iff_exists'.mp
      (fun hn => absurd ((parseRequestLine_eq_none_iff req).mp hn) (not_lt.mpr hspaces))
    have hi := Iterates.requestLine hp (cut_crlf hline rest) hreq
    refine ends_of_next (append_crlf_ne_nil _ _) hi (ih (hw.of_next hi.eq) ?_ rfl)
    obtain ⟨method, path, version, -, -, -, rfl⟩ := parseRequestLine_eq_some_iff.mp hreq
    exact congrArg Position.headers (hw.1 hp)
  | @header cl line rest hline h ih =>
    rintro ⟨p, req, _⟩ hw hpos rfl
    obtain ⟨hp, hcl⟩ := state_of_position_headers hpos
    have hreq := (parseHeaders_eq line req).trans (if_pos hline.colon_mem)
    have hi := Iterates.header hp (cut_crlf hline.not_infix rest) hline.ne_nil hreq
    refine ends_of_next (append_crlf_ne_nil _ _) hi (ih (hw.of_next hi.eq) ?_ rfl)
    rw [position_addHeader hp, ← hcl]
  | @badHeader cl line rest hline hne hcolon h ih =>
    rintro ⟨p, req, _⟩ hw hpos rfl
    obtain ⟨hp, -⟩ := state_of_position_headers hpos
    have hreq := (parseHeaders_eq line req).trans (if_neg hcolon)
    exact ends_of_answer (append_crlf_ne_nil _ _) (.badHeader hp (cut_crlf hline _) hne hreq)
      (by decide) (ih (wellPlaced_fresh _) rfl rfl)
  | @blank cl rest hn h ih =>
    rintro ⟨p, req, _⟩ hw hpos rfl
    obtain ⟨hp, hcl⟩ := state_of_position_headers hpos
    have hrest := ih (wellPlaced_fresh _) rfl rfl
    rw [← hcl] at hn
    cases hv : req.headers_.find? (ascii "content-length") with
    | none =>
      exact ends_of_answer (append_crlf_ne_nil [] _) (.noBody hp (cut_blank _) hv) (by decide) hrest
    | some value =>
      simp only [hv, Option.bind_some] at hn
      rcases hn with hn | hn
      · exact ends_of_answer (append_crlf_ne_nil [] _) (.badLength hp (cut_blank _) hv hn)
          (by decide) hrest
      · exact ends_of_answer (append_crlf_ne_nil [] _) (.emptyBody hp (cut_blank _) hv hn)
          (by decide) hrest
  | @blankBody cl rest n hn h0 h ih =>
    rintro ⟨p, req, _⟩ hw hpos rfl
    obtain ⟨hp, rfl⟩ := state_of_position_headers hpos
    obtain ⟨value, hv, hn⟩ := Option.bind_eq_some_iff.mp hn
    have hi := Iterates.startBody hp (cut_blank rest) hv hn h0
    refine ends_of_next (append_crlf_ne_nil [] _) hi (ih (hw.of_next hi.eq) ?_ rfl)
    have hb : p.bodyReceived_ = 0 := hw.2 (by dsimp only; rw [hp]; decide)
    rw [position_body rfl, hb, subSize_eq (Nat.zero_le _) (stoul_lt hn), Nat.sub_zero]
  | @body body rest h ih =>
    rintro ⟨p, req, _⟩ hw hpos rfl
    obtain ⟨hp, hneed⟩ := state_of_position_body hpos
    by_cases hc : body ++ rest = []
    · exact ⟨0, hc⟩
    · have hi : Iterates p req (body ++ rest) _ := .body hp (by
        rw [hneed, List.length_append]
        omega)
      refine ends_of_answer hc hi (by decide) ?_
      rw [hneed, List.drop_left]
      exact ih (wellPlaced_fresh rest) rfl rfl
  | @partialBody need rest hn =>
    rintro ⟨p, req, cur⟩ hw hpos hb
    obtain ⟨hp, rfl⟩ := state_of_position_body hpos
    obtain rfl : cur = rest := hb
    by_cases hc : cur = []
    · exact ⟨0, hc⟩
    · refine ⟨1, ?_⟩
      show (next ⟨p, req, cur⟩).buffer = []
      rw [next_of_done hc (Iterates.partialBody hp hn).eq, if_pos rfl]

/-! ## The loop ends on no others -/

/-- What is used up behind an iteration of the parser that goes around is used up before it. -/
theorem drains_of_next {p p' : HttpParser} {req req' : HttpRequest} {cur cur' : Bytes}
    (hw : WellPlaced ⟨p, req, cur⟩) (hi : Iterates p req cur (.next p' req' cur'))
    (hd : Drains (position ⟨p', req', cur'⟩) cur') : Drains (position ⟨p, req, cur⟩) cur := by
  cases hi with
  | requestLine hp hc hl =>
    rename_i line
    obtain ⟨rfl, hline⟩ := cut_crlf_eq_some_iff.mp hc
    have hspaces : ¬ line.count 32 < 2 := by
      rw [← parseRequestLine_eq_none_iff req, hl]
      simp
    obtain ⟨method, path, version, -, -, -, rfl⟩ := parseRequestLine_eq_some_iff.mp hl
    rw [position_startLine hp]
    rw [position_headers rfl] at hd
    dsimp only at hd
    rw [hw.1 hp] at hd
    exact .requestLine hline (not_lt.mp hspaces) hd
  | header hp hc hne hl =>
    rename_i line
    obtain ⟨rfl, hline⟩ := cut_crlf_eq_some_iff.mp hc
    rw [parseHeaders_eq] at hl
    split_ifs at hl with hcolon
    obtain rfl := Option.some.inj hl
    rw [position_headers hp]
    rw [position_addHeader hp] at hd
    exact .header ⟨hline, hne, hcolon⟩ hd
  | startBody hp hc hv hn h0 =>
    obtain ⟨rfl, -⟩ := cut_crlf_eq_some_iff.mp hc
    have hb : p.bodyReceived_ = 0 := hw.2 (by dsimp only; rw [hp]; decide)
    rw [position_body rfl] at hd
    dsimp only at hd
    rw [hb, subSize_eq (Nat.zero_le _) (stoul_lt hn), Nat.sub_zero] at hd
    rw [position_headers hp]
    exact .blankBody (by rw [hv]; exact hn) h0 hd

/-- What is used up behind an iteration of the parser that leaves its loop is used up before. -/
theorem drains_of_done {p p' : HttpParser} {req req' : HttpRequest} {cur cur' : Bytes}
    {r : ParseResult} (hi : Iterates p req cur (.done r p' req' cur'))
    (hneed : r = .kNeedMore → Drains (position ⟨p', req', cur'⟩) cur')
    (hd : r ≠ .kNeedMore → Drains .requestLine cur') : Drains (position ⟨p, req, cur⟩) cur := by
  cases hi with
  | incomplete hp hc => exact hneed rfl
  | badRequestLine hp hc hl =>
    rw [position_startLine hp]
    exact hd (by decide)
  | badHeader hp hc hne hl =>
    rename_i line _
    obtain ⟨rfl, hline⟩ := cut_crlf_eq_some_iff.mp hc
    rw [parseHeaders_eq] at hl
    split_ifs at hl with hcolon
    rw [position_headers hp]
    exact .badHeader hline hne hcolon (hd (by decide))
  | noBody hp hc hv =>
    obtain ⟨rfl, -⟩ := cut_crlf_eq_some_iff.mp hc
    rw [position_headers hp]
    exact .blank (.inl (by rw [hv]; rfl)) (hd (by decide))
  | badLength hp hc hv hn =>
    obtain ⟨rfl, -⟩ := cut_crlf_eq_some_iff.mp hc
    rw [position_headers hp]
    exact .blank (.inl (by rw [hv]; exact hn)) (hd (by decide))
  | emptyBody hp hc hv hn =>
    obtain ⟨rfl, -⟩ := cut_crlf_eq_some_iff.mp hc
    rw [position_headers hp]
    exact .blank (.inr (by rw [hv]; exact hn)) (hd (by decide))
  | body hp hn =>
    rw [position_body hp]
    have hlen := List.length_take_of_le hn
    have hcat := List.take_append_drop (subSize p.contentLength_ p.bodyReceived_) cur
    have h := @Drains.body (cur.take (subSize p.contentLength_ p.bodyReceived_)) _
      (hd (by decide))
    rwa [hlen, hcat] at h
  | partialBody hp hn =>
    rw [position_body hp]
    exact .partialBody hn

/-- **Where the loop ends, it has used up the bytes.**

**Proof sketch.** Induction on the number of iterations, and inside it on the length of the
data: an iteration of the parser that goes around leaves less data to the same iteration of the
loop, and one that leaves its loop leaves the rest to fewer of them. -/
theorem drains_of_ends (n : ℕ) :
    ∀ {c : Reading}, c.WellPlaced → (next^[n] c).buffer = [] → Drains c.position c.buffer := by
  induction n with
  | zero =>
    intro c _ hn
    rw [show c.buffer = [] from hn]
    exact .nil _
  | succ n ihn =>
    rintro ⟨p, req, cur⟩ hw hn
    induction p, req, cur using parse_induction with
    | nil p req => exact .nil _
    | next p req cur p' req' cur' hc hi ih =>
      refine drains_of_next hw (parseIteration_eq_iff.mp hi) (ih (hw.of_next hi) ?_)
      rw [Function.iterate_succ_apply] at hn ⊢
      rwa [← next_of_next hc hi]
    | done p req cur r p' req' cur' hc hi =>
      have hd : Drains (next ⟨p, req, cur⟩).position (next ⟨p, req, cur⟩).buffer :=
        ihn hw.next (by rwa [Function.iterate_succ_apply] at hn)
      rw [next_of_done hc hi] at hd
      refine drains_of_done (parseIteration_eq_iff.mp hi) (fun hr => ?_) (fun hr => ?_)
      · rwa [if_pos hr] at hd
      · rwa [if_neg hr] at hd

/-- **The loop ends exactly on the byte strings that it uses up.** -/
theorem ends_iff_drains {c : Reading} (hw : c.WellPlaced) :
    c.Ends ↔ Drains c.position c.buffer :=
  ⟨fun ⟨n, hn⟩ => drains_of_ends n hw hn, fun h => ends_of_drains h hw rfl rfl⟩

end Reading

/-! ## The server -/

namespace HttpServer

variable {σ : Type}

/-- The part of a connection that decides how the loop goes on. -/
def reading (x : Session σ) : Reading := ⟨x.context.parser, x.context.ctx.request_, x.buffer⟩

/-- The handlers and the responses do not change how the loop goes on. -/
theorem reading_onMessageIteration (server : HttpServer σ) (x : Session σ) :
    reading (server.onMessageIteration x) = (reading x).next := by
  by_cases h : (outcome x).result = .kNeedMore
  · rw [onMessageIteration_needMore server h, Reading.next]
    exact (if_pos h).symm
  · rw [onMessageIteration_answer server h, Reading.next]
    exact (if_neg h).symm

/-- The loop of `onMessage` has ended within `n` iterations exactly when the buffer is empty
after them. -/
theorem isSome_onMessage_iff (server : HttpServer σ) (n : ℕ) :
    ∀ x : Session σ, (server.onMessage n x).isSome ↔ (Reading.next^[n] (reading x)).buffer = [] := by
  induction n with
  | zero =>
    intro x
    unfold onMessage
    split_ifs with h
    · simpa [reading] using h
    · simpa [reading] using h
  | succ n ih =>
    intro x
    unfold onMessage
    split_ifs with h
    · have hfix : (reading x).next = reading x := Reading.next_of_nil h
      rw [Function.iterate_fixed hfix]
      simpa [reading] using h
    · rw [ih, reading_onMessageIteration, Function.iterate_succ_apply]

/-- **The states of a connection**: a new one, one in the loop of `onMessage`, and one that has
received bytes behind the loop. -/
inductive Reachable (server : HttpServer σ) (world : σ) : Session σ → Prop
  | new : Reachable server world { world }
  | iterate {x : Session σ} (hx : Reachable server world x) (hb : x.buffer ≠ []) :
      Reachable server world (server.onMessageIteration x)
  | receive {x : Session σ} (hx : Reachable server world x) (hb : x.buffer = []) (chunk : Bytes) :
      Reachable server world { x with buffer := chunk }

/-- The parser of a connection is well placed. -/
theorem Reachable.wellPlaced {server : HttpServer σ} {world : σ} {x : Session σ}
    (hx : Reachable server world x) : (reading x).WellPlaced := by
  induction hx with
  | new => exact Reading.wellPlaced_fresh []
  | iterate _ _ ih =>
    rw [reading_onMessageIteration]
    exact ih.next
  | receive _ _ _ ih => exact ih

/-- **When `onMessage` ends.** In every state of a connection and for every set of handlers, the
loop of `onMessage` ends if and only if the bytes in the buffer can be used up: every line that
begins in it ends in it, and every line read as a request line has two spaces. -/
theorem onMessage_ends_iff_drains (server : HttpServer σ) (world : σ) {x : Session σ}
    (hx : Reachable server world x) :
    (∃ n, (server.onMessage n x).isSome) ↔ Drains (reading x).position x.buffer := by
  have h := Reading.ends_iff_drains hx.wellPlaced
  unfold Reading.Ends at h
  simp only [isSome_onMessage_iff]
  exact h

/-- A complete request is used up, and the loop ends. -/
theorem onMessage_ends_iff_drains_get :
    ∃ n, (({} : HttpServer Unit).onMessage n
      { buffer := ascii "GET / HTTP/1.1\r\n\r\n", world := () }).isSome := by
  refine (onMessage_ends_iff_drains {} () (.receive .new rfl _)).mpr ?_
  have hblank : Drains (.headers none) (crlf ++ []) := .blank (.inl rfl) (.nil _)
  have hline : Drains .requestLine (ascii "GET / HTTP/1.1" ++ (crlf ++ (crlf ++ []))) :=
    .requestLine (by decide) (by decide) hblank
  exact hline

/-- A request line that has not arrived completely keeps `onMessage` in its loop for ever. -/
theorem onMessage_never_ends_on_partial_line :
    Reachable ({} : HttpServer Unit) () { buffer := ascii "GET", world := () } ∧
      ¬ ∃ n, (({} : HttpServer Unit).onMessage n
        { buffer := ascii "GET", world := () }).isSome := by
  refine ⟨.receive .new rfl _, ?_⟩
  rintro ⟨n, hn⟩
  rw [isSome_onMessage_iff] at hn
  have hfix : Reading.next ⟨{}, {}, ascii "GET"⟩ = ⟨{}, {}, ascii "GET"⟩ :=
    Reading.next_of_done (by decide) (Iterates.incomplete (by decide) (by decide)).eq
  have hread : reading { buffer := ascii "GET", world := () } = ⟨{}, {}, ascii "GET"⟩ := rfl
  rw [hread, Function.iterate_fixed hfix] at hn
  cases hn

end HttpServer

end LouisNet.Http
