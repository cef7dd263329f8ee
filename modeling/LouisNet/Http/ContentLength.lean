import LouisNet.Http.ParserCompletion

set_option relaxedAutoImplicit false
set_option autoImplicit false

/-!
# The length of a body

At the blank line behind the headers the parser gives the value of `content-length` to
`std::stoul`, and an exception makes an error of the request. `stoul` skips white space, takes a
sign, negates modulo `2 ^ 64` behind a minus, and stops at the first character that is not a
digit, so that more values than the numerals are read as a length.

## Main definitions

* `LouisNet.Http.HttpParser.TakesBody` — the body taken from what is behind the blank line.
* `LouisNet.Http.HttpParser.ReadsStrictly` — the value is a numeral or an error.

## Main results

* `LouisNet.Http.HttpParser.parse_head` — the parser at the blank line of a request.
* `LouisNet.Http.HttpParser.takesBody_parse` — the body that is taken there.
* `LouisNet.Http.HttpParser.readsStrictly_iff` — which values are read strictly.
-/

namespace LouisNet.Http

open Lib

namespace HttpParser

/-! ## Behind the blank line -/

/-- A body of the given length is taken from the data, as far as it is there. -/
def TakesBody (n : ℕ) (data : Bytes) (o : Outcome) : Prop :=
  if n ≤ data.length then
    o.result = .kSuccess ∧ o.request.body_ = data.take n ∧ o.rest = data.drop n
  else o.result = .kNeedMore ∧ o.request.body_ = data ∧ o.rest = []

/-- **The parser at the blank line of a request.** -/
theorem parse_head {line : Bytes} {headers : List Bytes} (hline : ¬ crlf <:+: line)
    (hspaces : 2 ≤ line.count 32) (hform : ∀ h ∈ headers, HeaderForm h) (tail : Bytes) :
    ∃ req : HttpRequest, req.body_ = [] ∧
      (∀ name, req.headers_.find? name = lastValue name headers) ∧
      parse {} {} (encodeRequest line headers [] tail) =
        parse ⟨.kHeaders, 0, 0⟩ req (crlf ++ tail) := by
  obtain ⟨req', hreq⟩ : ∃ req', parseRequestLine line {} = some req' := by
    rw [← Option.ne_none_iff_exists', Ne, parseRequestLine_eq_none_iff, not_lt]
    exact hspaces
  obtain ⟨method, path, version, -, -, -, rfl⟩ := parseRequestLine_eq_some_iff.mp hreq
  refine ⟨⟨method, path, version, storeHeaders .empty headers, []⟩, rfl, fun name => ?_, ?_⟩
  · rw [find?_storeHeaders]
    simp
  · rw [encodeRequest, parse_of_next (append_crlf_ne_nil _ _)
        (Iterates.requestLine rfl (cut_crlf hline _) hreq).eq,
      parse_encodeHeaders rfl _ _ _ hform]
    rfl

variable {p : HttpParser} {req : HttpRequest} {v : Bytes}

/-- A length that is not read is an error. -/
theorem error_of_badLength (hp : p.state_ = .kHeaders)
    (hv : req.headers_.find? (ascii "content-length") = some v) (hn : stoul v = none)
    (tail : Bytes) : (parse p req (crlf ++ tail)).result = .kError := by
  have hne : crlf ++ tail ≠ [] := append_crlf_ne_nil [] tail
  rw [parse_of_done hne (Iterates.badLength hp (cut_blank tail) hv hn).eq]

/-- **The body that is taken behind a length that is read.** -/
theorem takesBody_parse (hp : p.state_ = .kHeaders) (hb : p.bodyReceived_ = 0)
    (hbody : req.body_ = []) (hv : req.headers_.find? (ascii "content-length") = some v) {n : ℕ}
    (hn : stoul v = some n) (tail : Bytes) : TakesBody n tail (parse p req (crlf ++ tail)) := by
  have hne : crlf ++ tail ≠ [] := append_crlf_ne_nil [] tail
  have hcut := cut_blank tail
  unfold TakesBody
  by_cases h0 : n = 0
  · subst h0
    rw [if_pos (Nat.zero_le _), parse_of_done hne (Iterates.emptyBody hp hcut hv hn).eq]
    exact ⟨rfl, hbody, rfl⟩
  · have hneed : subSize n p.bodyReceived_ = n := by
      rw [hb, subSize_eq (Nat.zero_le _) (stoul_lt hn), Nat.sub_zero]
    rw [parse_of_next hne (Iterates.startBody hp hcut hv hn h0).eq, parse_eq]
    by_cases ht : tail = []
    · subst ht
      rw [if_pos rfl, if_neg (by simpa using h0)]
      exact ⟨rfl, hbody, rfl⟩
    · rw [if_neg ht, parseIteration_body rfl]
      simp only [hneed, hbody, List.nil_append]
      by_cases hle : n ≤ tail.length
      · rw [if_pos hle, if_pos hle]
        exact ⟨rfl, rfl, rfl⟩
      · rw [if_neg hle, if_neg hle]
        exact ⟨rfl, rfl, rfl⟩

/-- A request whose body is taken is no error. -/
theorem TakesBody.result_ne_error {n : ℕ} {data : Bytes} {o : Outcome} (h : TakesBody n data o) :
    o.result ≠ .kError := by
  unfold TakesBody at h
  split_ifs at h <;> rw [h.1] <;> decide

/-! ## Strict reading -/

/-- The value `v` of the length in a request is read strictly: behind the blank line there is no
error exactly if `v` is a numeral, and then as many bytes of body are taken as it says. -/
structure ReadsStrictly (line : Bytes) (headers : List Bytes) (v : Bytes) : Prop where
  no_error_iff : ∀ tail,
    (parse {} {} (encodeRequest line headers [] tail)).result ≠ .kError ↔ IsNumeral v
  takesBody : IsNumeral v → ∀ tail,
    TakesBody (ofDecimal v) tail (parse {} {} (encodeRequest line headers [] tail))

/-- **Which values are read strictly.** The value of the last `content-length` of a request that is
well formed otherwise is read strictly exactly if it is not the case that digits for an
`unsigned long` stand in it at the front, behind white space and a sign at most, with something
else around them. -/
theorem readsStrictly_iff {line : Bytes} {headers : List Bytes} {v : Bytes}
    (hline : ¬ crlf <:+: line) (hspaces : 2 ≤ line.count 32) (hform : ∀ h ∈ headers, HeaderForm h)
    (hv : lastValue (ascii "content-length") headers = some v) :
    ReadsStrictly line headers v ↔
      ¬ ∃ white sign digits rest, Readable v white sign digits rest ∧
        (white ≠ [] ∨ sign ≠ [] ∨ rest ≠ []) := by
  have herror : ∀ tail, (parse {} {} (encodeRequest line headers [] tail)).result ≠ .kError ↔
      stoul v ≠ none := by
    intro tail
    obtain ⟨req, hbody, hfind, hparse⟩ := parse_head hline hspaces hform tail
    rw [hparse]
    constructor
    · intro hr hn
      exact hr (error_of_badLength rfl ((hfind _).trans hv) hn tail)
    · intro hn
      obtain ⟨n, hn⟩ := Option.ne_none_iff_exists'.mp hn
      exact (takesBody_parse rfl rfl hbody ((hfind _).trans hv) hn tail).result_ne_error
  have hstoul : IsNumeral v → stoul v = some (ofDecimal v) := by
    intro hnum
    simp [hnum.readable.stoul_eq]
  have hbody : IsNumeral v → ∀ tail,
      TakesBody (ofDecimal v) tail (parse {} {} (encodeRequest line headers [] tail)) := by
    intro hnum tail
    obtain ⟨req, hbody, hfind, hparse⟩ := parse_head hline hspaces hform tail
    rw [hparse]
    exact takesBody_parse rfl rfl hbody ((hfind _).trans hv) (hstoul hnum) tail
  rw [← stoul_strict_iff]
  constructor
  · intro h hs
    exact (h.no_error_iff []).mp ((herror []).mpr hs)
  · intro h
    refine ⟨fun tail => (herror tail).trans ⟨h, fun hnum => ?_⟩, hbody⟩
    rw [hstoul hnum]
    simp

/-- A length with a zero in front. -/
theorem readsStrictly_iff_zeros : ReadsStrictly (ascii "POST / HTTP/1.1")
    [ascii "Content-Length:  007 "] (ascii "007") := by
  have hform : ∀ h ∈ [ascii "Content-Length:  007 "], HeaderForm h := by
    intro h hh
    rw [List.mem_singleton.mp hh]
    exact ⟨by decide, by decide, by decide⟩
  refine (readsStrictly_iff (by decide) (by decide) hform (by decide)).mpr ?_
  rw [← stoul_strict_iff]
  exact fun _ => ⟨by decide, by decide +kernel, by decide +kernel⟩

/-- A length with a minus sign is read as a number just below `2 ^ 64`, and the parser waits for as
many bytes of body. -/
theorem not_readsStrictly_minus :
    ¬ ReadsStrictly (ascii "POST / HTTP/1.1") [ascii "Content-Length: -1"] (ascii "-1") ∧
      (parse {} {} (encodeRequest (ascii "POST / HTTP/1.1") [ascii "Content-Length: -1"] []
        (ascii "x"))).parser = ⟨.kBody, 2 ^ 64 - 1, 1⟩ := by
  refine ⟨fun h => ?_, by decide⟩
  have hnum := (h.no_error_iff []).mp (by decide)
  exact absurd (hnum.isdigit 45 (by decide)) (by decide)

end HttpParser

end LouisNet.Http
