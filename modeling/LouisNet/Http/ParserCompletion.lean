import LouisNet.Http.ParserAccounting
import LouisNet.Http.ParserGrammar

set_option relaxedAutoImplicit false
set_option autoImplicit false

/-!
# Asking for more data is never a dead end

When the parser asks for more data, some data makes a request of what it has: two spaces end any
request line, a colon makes a header line of any line, a later `content-length` replaces an
earlier one, whatever its value, and the missing part of a body can be anything. So data from
which no request can come is an error, and the error is reported with the byte that completes the
line it is in.

## Main results

* `LouisNet.Http.HttpParser.pending_of_needMore` — where the parser waits.
* `LouisNet.Http.HttpParser.Accounts.exists_completion` — from there, a request can come.
* `LouisNet.Http.HttpParser.result_eq_error_iff` — an error is reported exactly when no request can
  come.
* `LouisNet.Http.HttpParser.crlf_suffix_of_error` — it is reported at the end of a line.
-/

namespace LouisNet.Http

open Lib

namespace HttpParser

variable {p : HttpParser} {req : HttpRequest} {cur : Bytes}

/-! ## Where the parser waits -/

/-- **Where the parser waits for more data**: outside the body at a line that is not complete, or
inside it, with everything consumed. -/
theorem pending_of_needMore (p : HttpParser) (req : HttpRequest) (cur : Bytes)
    (h : (parse p req cur).result = .kNeedMore) :
    ((parse p req cur).parser.state_ ≠ .kBody ∧ cut crlf (parse p req cur).rest = none) ∨
      ((parse p req cur).parser.state_ = .kBody ∧ (parse p req cur).rest = []) := by
  induction p, req, cur using parse_induction with
  | nil p req =>
    by_cases hp : p.state_ = .kBody
    · exact .inr ⟨hp, rfl⟩
    · exact .inl ⟨hp, by simp [cut, crlf]⟩
  | done p req cur r p' req' cur' hc hi =>
    rw [parse_of_done hc hi] at h ⊢
    obtain rfl : r = .kNeedMore := h
    cases parseIteration_eq_iff.mp hi with
    | incomplete hp hcut => exact .inl ⟨hp, hcut⟩
    | partialBody hp => exact .inr ⟨hp, rfl⟩
  | next p req cur p' req' cur' hc hi ih =>
    rw [parse_of_next hc hi] at h ⊢
    exact ih h

/-! ## Completions -/

/-- The last header line wins. -/
theorem lastValue_concat (headers : List Bytes) (line : Bytes) :
    lastValue (headerName line) (headers ++ [line]) = some (headerValue line) := by
  simp [lastValue, List.filter_append]

/-- The header line that replaces every earlier length. -/
def noLength : Bytes := ascii "content-length:0"

/-- The header line of a completion is one. -/
theorem headerForm_noLength : HeaderForm noLength := ⟨by decide, by decide, by decide⟩

/-- With a last header line that declares no body, the headers end the request. -/
theorem success_of_noLength (hp : p.state_ = .kHeaders) (hb : p.bodyReceived_ = 0)
    (req : HttpRequest) {headers : List Bytes} (hform : ∀ h ∈ headers, HeaderForm h) :
    (parse p req (encodeHeaders (headers ++ [noLength]) [])).result = .kSuccess := by
  have hform' : ∀ h ∈ headers ++ [noLength], HeaderForm h := by
    intro h hh
    rcases List.mem_append.mp hh with hh | hh
    · exact hform h hh
    · rw [List.mem_singleton.mp hh]
      exact headerForm_noLength
  have hname : headerName noLength = ascii "content-length" := by decide
  have hfit : BodyFits ((storeHeaders req.headers_ (headers ++ [noLength])).find?
      (ascii "content-length")) [] := by
    rw [find?_storeHeaders, ← hname, lastValue_concat]
    show stoul (headerValue noLength) = some 0
    decide
  obtain ⟨p', hp'⟩ := parse_blank hp hb
    { req with headers_ := storeHeaders req.headers_ (headers ++ [noLength]) } [] hfit
  rw [parse_encodeHeaders hp _ _ _ hform']
  exact congrArg Outcome.result hp'

/-- A line that is not complete does not become complete by a byte that is not a line feed. -/
theorem not_crlf_infix_concat {line : Bytes} (h : ¬ crlf <:+: line) {c : UInt8} (hc : c ≠ 10) :
    ¬ crlf <:+: line ++ [c] :=
  not_infix_concat (show ¬ [13] ++ [10] <:+: line from h) hc

/-- **From every place where the parser waits, a request can come.** -/
theorem Accounts.exists_completion (h : Accounts p req)
    (hwait : (p.state_ ≠ .kBody ∧ cut crlf cur = none) ∨ (p.state_ = .kBody ∧ cur = [])) :
    ∃ t, (HttpParser.parse p req (cur ++ t)).result = .kSuccess := by
  rcases hwait with ⟨hp, hcut⟩ | ⟨hp, rfl⟩
  · have hline : ¬ crlf <:+: cur := cut_eq_none_iff.mp hcut
    cases hs : p.state_ with
    | kStartLine =>
      -- two spaces make a request line of what is there
      have hline' : ¬ crlf <:+: cur ++ [32, 32] := by
        rw [show cur ++ [32, 32] = cur ++ [32] ++ [32] by simp]
        exact not_crlf_infix_concat (not_crlf_infix_concat hline (by decide)) (by decide)
      obtain ⟨req', hreq⟩ : ∃ req', parseRequestLine (cur ++ [32, 32]) req = some req' := by
        rw [← Option.ne_none_iff_exists', Ne, parseRequestLine_eq_none_iff]
        simp
      refine ⟨[32, 32] ++ (crlf ++ encodeHeaders ([] ++ [noLength]) []), ?_⟩
      rw [← List.append_assoc, parse_of_next (append_crlf_ne_nil _ _)
        (Iterates.requestLine hs (cut_crlf hline' _) hreq).eq]
      exact success_of_noLength (p := { p with state_ := .kHeaders }) rfl
        (h.idle (by rw [hs]; decide)).1 req' (by simp)
    | kHeaders =>
      -- a colon makes a header line of what is there
      have hform : ∀ k ∈ [cur ++ [58]], HeaderForm k := by
        intro k hk
        rw [List.mem_singleton.mp hk]
        exact ⟨not_crlf_infix_concat hline (by decide), by simp, by simp⟩
      refine ⟨[58] ++ (crlf ++ encodeHeaders [noLength] []), ?_⟩
      have henc : cur ++ ([58] ++ (crlf ++ encodeHeaders [noLength] [])) =
          encodeHeaders ([cur ++ [58]] ++ [noLength]) [] := by
        simp [encodeHeaders]
      rw [henc]
      exact success_of_noLength hs (h.idle hp).1 req hform
    | kBody => exact absurd hs hp
  · -- the missing bytes of the body
    have hlt := h.missing hp
    have hneed := h.subSize_eq hp
    set body : Bytes := List.replicate (p.contentLength_ - p.bodyReceived_) 0 with hdef
    have hlen : subSize p.contentLength_ p.bodyReceived_ = body.length := by
      rw [hneed, hdef, List.length_replicate]
    have hne : body ≠ [] := by
      rw [hdef, Ne, List.replicate_eq_nil_iff]
      omega
    refine ⟨body, ?_⟩
    have hbody := parse_body hp req [] hlen hne
    rw [List.append_nil] at hbody
    rw [List.nil_append, hbody]

/-! ## Errors -/

/-- In the body there are no errors. -/
theorem result_ne_error_of_body (hp : p.state_ = .kBody) (req : HttpRequest) (cur : Bytes) :
    (parse p req cur).result ≠ .kError := by
  rw [parse_eq]
  split_ifs
  · simp
  · rw [parseIteration_body hp]
    split_ifs <;> simp

/-- Outside the body, a line that is not complete is no error, and a line that is complete with
nothing behind it ends the data. -/
theorem crlf_suffix_of_cut_concat {c : UInt8} (hcut : cut crlf cur = none)
    (h : cut crlf (cur ++ [c]) ≠ none) : crlf <:+ cur ++ [c] := by
  obtain ⟨⟨line, rest⟩, hsome⟩ := Option.ne_none_iff_exists'.mp h
  obtain rfl := eq_nil_of_cut_concat hcut hsome
  exact ⟨line, by simpa using (eq_of_cut_eq_some hsome).symm⟩

/-- **An error is reported with the byte that completes the line it is in.** -/
theorem crlf_suffix_of_error {s : Bytes} {c : UInt8} (h : (parse p req (s ++ [c])).result = .kError)
    (hs : (parse p req s).result ≠ .kError) : crlf <:+ s ++ [c] := by
  cases hr : (parse p req s).result with
  | kError => exact absurd hr hs
  | kSuccess =>
    rw [parse_append_of_ne p req s [c] (by rw [hr]; decide), hr] at h
    cases h
  | kNeedMore =>
    rw [parse_append_needMore p req s [c] hr] at h
    rcases pending_of_needMore p req s hr with ⟨hp, hcut⟩ | ⟨hp, -⟩
    · have hne : cut crlf ((parse p req s).rest ++ [c]) ≠ none := by
        intro hnone
        rw [parse_of_done (by simp) (Iterates.incomplete hp hnone).eq] at h
        cases h
      obtain ⟨used, hused⟩ := suffix_parse p req s
      refine (crlf_suffix_of_cut_concat hcut hne).trans ⟨used, ?_⟩
      rw [← List.append_assoc, hused]
    · exact absurd h (result_ne_error_of_body hp _ _)

/-- From every call that asks for more data, a request can come. -/
theorem Accounts.exists_success (h : Accounts p req) (s : Bytes)
    (hr : (HttpParser.parse p req s).result = .kNeedMore) :
    ∃ t, (HttpParser.parse p req (s ++ t)).result = .kSuccess := by
  obtain ⟨t, ht⟩ := (h.parse hr).exists_completion (pending_of_needMore p req s hr)
  exact ⟨t, by rw [parse_append_needMore p req s t hr, ht]⟩

/-- **An error is reported exactly when no request can come.** -/
theorem Accounts.result_eq_error_iff (h : Accounts p req) (s : Bytes) :
    (HttpParser.parse p req s).result = .kError ↔
      ∀ t, (HttpParser.parse p req (s ++ t)).result ≠ .kSuccess := by
  constructor
  · intro hr t
    rw [parse_append_of_ne p req s t (by rw [hr]; decide), hr]
    decide
  · intro hno
    cases hr : (HttpParser.parse p req s).result with
    | kError => rfl
    | kSuccess => exact absurd (by rw [List.append_nil, hr]) (hno [])
    | kNeedMore =>
      obtain ⟨t, ht⟩ := h.exists_success s hr
      exact absurd ht (hno t)

/-- **Asking for more data is never a dead end.** When a fresh parser asks for more data, some data
delivered next makes it report a request; so data from which no request can come is an error, and
the error is there with the byte that completes its line. -/
theorem needMore_no_dead_end (s : Bytes) :
    (∀ p rest req, ({} : HttpParser).parseRequest s {} = (.kNeedMore, p, rest, req) →
      ∃ t, (p.parseRequest (rest ++ t) req).1 = .kSuccess) ∧
    ((∀ t, (({} : HttpParser).parseRequest (s ++ t) {}).1 ≠ .kSuccess) →
      (({} : HttpParser).parseRequest s {}).1 = .kError) ∧
    ∀ c, (({} : HttpParser).parseRequest (s ++ [c]) {}).1 = .kError →
      (({} : HttpParser).parseRequest s {}).1 ≠ .kError → crlf <:+ s ++ [c] := by
  have hacc : Accounts {} {} := accounts_reset {}
  simp only [parseRequest_eq]
  refine ⟨?_, (hacc.result_eq_error_iff s).mpr, fun c => crlf_suffix_of_error⟩
  intro p rest req h
  simp only [Prod.mk.injEq] at h
  obtain ⟨hr, rfl, rfl, rfl⟩ := h
  exact (hacc.parse hr).exists_completion (pending_of_needMore {} {} s hr)

/-- Header lines with a length that is not a number. -/
theorem needMore_no_dead_end_bad_length :
    ∃ p rest req t, ({} : HttpParser).parseRequest
        (ascii "GET / HTTP/1.1\r\nContent-Length: x\r\nHo") {} = (.kNeedMore, p, rest, req) ∧
      (p.parseRequest (rest ++ t) req).1 = .kSuccess := by
  have hr : (({} : HttpParser).parseRequest
      (ascii "GET / HTTP/1.1\r\nContent-Length: x\r\nHo") {}).1 = .kNeedMore := by decide
  obtain ⟨t, ht⟩ := (needMore_no_dead_end _).1 _ _ _ (Prod.ext hr rfl)
  exact ⟨_, _, _, t, Prod.ext hr rfl, ht⟩

end HttpParser

end LouisNet.Http
