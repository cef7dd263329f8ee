import LouisNet.Http.Message
import LouisNet.Lib.Cut
import Mathlib.Data.Set.Function

set_option relaxedAutoImplicit false
set_option autoImplicit false

/-!
# Decoding a response

`HttpResponse::toString` lays a response out in lines, with a blank line before the body. A reader
that cuts at the first blank line, and cuts the lines at the first spaces and at the first colon,
gets the response back, as long as no part of the head holds what the reader cuts at. Line feeds
alone do no harm, and neither does anything in the body.

## Main definitions

* `LouisNet.Http.HttpResponse.decode` — the reader.
* `LouisNet.Http.HttpResponse.Plain` — the responses that can be read back.

## Main results

* `LouisNet.Http.HttpResponse.cut_blankLine` — the first blank line is the end of the head.
* `LouisNet.Http.HttpResponse.decode_toString` — the reader gets the response back.
-/

namespace LouisNet.Http

open Lib

namespace HttpResponse

/-! ## The reader -/

/-- The lines of a text, at most the given number of them besides the last. -/
def splitLines : ℕ → Bytes → List Bytes
  | 0, s => [s]
  | n + 1, s =>
    match cut crlf s with
    | none => [s]
    | some (line, rest) => line :: splitLines n rest

/-- The version and the code of a status line: the texts before the first and the second space. -/
def decodeStatusLine (line : Bytes) : Option (Bytes × Bytes) :=
  (cut (ascii " ") line).bind fun p => (cut (ascii " ") p.2).map fun q => (p.1, q.1)

/-- The reader of responses. -/
def decode (s : Bytes) : Option HttpResponse :=
  (cut (crlf ++ crlf) s).bind fun p =>
    match splitLines p.1.length p.1 with
    | [] => none
    | status :: headers =>
      (decodeStatusLine status).bind fun q =>
        (headers.mapM (cut (ascii ": "))).map fun entries =>
          { version_ := q.1
            statusCode_ := ofNumeral q.2
            headers_ := .ofEntries entries
            body_ := p.2 }

/-- No part of the head of the response holds what the reader cuts at. -/
structure Plain (r : HttpResponse) : Prop where
  version_space : 32 ∉ r.version_
  version_cr : 13 ∉ r.version_
  name_colon : ∀ e ∈ r.headers_.entries, 58 ∉ e.1
  name_cr : ∀ e ∈ r.headers_.entries, 13 ∉ e.1
  value_cr : ∀ e ∈ r.headers_.entries, 13 ∉ e.2

/-! ## Lines -/

/-- The lines of the head behind the status line. -/
def joinLines (lines : List Bytes) : Bytes := lines.flatMap (crlf ++ ·)

/-- **The first blank line is the end of the head**, by induction on the lines: none of them is
empty, so none of them makes a blank line with the terminators around it. -/
theorem cut_blankLine {lines : List Bytes} (hlines : ∀ l ∈ lines, l ≠ [] ∧ 13 ∉ l) (body : Bytes) :
    cut (crlf ++ crlf) (joinLines lines ++ (crlf ++ crlf ++ body)) =
      some (joinLines lines, body) := by
  induction lines with
  | nil => exact cut_sep_append (by decide) body
  | cons l lines ih =>
    obtain ⟨hne, hcr⟩ := hlines l List.mem_cons_self
    obtain ⟨c, l, rfl⟩ := List.exists_cons_of_ne_nil hne
    have hc : c ≠ 13 := fun h => hcr (by rw [h]; exact List.mem_cons_self)
    have hskip : (13 : UInt8) ∉ (10 : UInt8) :: c :: l := by simpa using hcr
    have hcut := cut_append_of_not_mem [10, 13, 10]
      (joinLines lines ++ (crlf ++ crlf ++ body)) hskip
    rw [show (13 :: [10, 13, 10] : Bytes) = crlf ++ crlf from rfl,
      ih fun k hk => hlines k (List.mem_cons_of_mem _ hk)] at hcut
    have hjoin : joinLines ((c :: l) :: lines) ++ (crlf ++ crlf ++ body) =
        13 :: (10 :: c :: l ++ (joinLines lines ++ (crlf ++ crlf ++ body))) := by
      simp [joinLines, crlf]
    have hnp : ¬ crlf ++ crlf <+:
        13 :: (10 :: c :: l ++ (joinLines lines ++ (crlf ++ crlf ++ body))) := by
      simp [crlf, Ne.symm hc]
    rw [hjoin, cut, if_neg hnp, hcut]
    simp [joinLines, crlf]

/-- The lines of a head are read back. -/
theorem splitLines_joinLines {lines : List Bytes} :
    ∀ {l : Bytes} {n : ℕ}, 13 ∉ l → (∀ k ∈ lines, 13 ∉ k) → lines.length ≤ n →
      splitLines n (l ++ joinLines lines) = l :: lines := by
  induction lines with
  | nil =>
    intro l n hl _ _
    have hcut : cut crlf l = none := by
      rw [cut_eq_none_iff]
      exact fun h => hl (h.subset (by decide))
    cases n <;> simp [splitLines, joinLines, hcut]
  | cons k lines ih =>
    intro l n hl hlines hn
    have hsep : Unbordered crlf := unbordered_pair (by decide)
    obtain ⟨m, rfl⟩ : ∃ m, n = m + 1 := ⟨n - 1, by simp at hn; omega⟩
    have hjoin : l ++ joinLines (k :: lines) = l ++ (crlf ++ (k ++ joinLines lines)) := by
      simp [joinLines]
    have hcut : cut crlf (l ++ joinLines (k :: lines)) = some (l, k ++ joinLines lines) := by
      rw [hjoin]
      exact cut_append_of_not_infix hsep (by decide) _ fun hi => hl (hi.subset (by decide))
    rw [splitLines, hcut]
    dsimp only
    rw [ih (hlines k List.mem_cons_self) (fun j hj => hlines j (List.mem_cons_of_mem k hj))
      (by simpa using hn)]

/-- There are no more lines than bytes. -/
theorem length_le_joinLines (lines : List Bytes) : lines.length ≤ (joinLines lines).length := by
  induction lines with
  | nil => simp
  | cons l lines ih =>
    simp only [joinLines, List.flatMap_cons, List.length_append, List.length_cons, crlf] at ih ⊢
    omega

/-! ## The parts of a line -/

/-- A header line is cut into the name and the value. -/
theorem cut_headerLine {e : Bytes × Bytes} (h : 58 ∉ e.1) :
    cut (ascii ": ") (headerLine e) = some e := by
  have hsep : Unbordered (ascii ": ") := unbordered_pair (by decide)
  rw [headerLine, List.append_assoc]
  exact cut_append_of_not_infix hsep (by decide) _ fun hi => h (hi.subset (by decide))

/-- The header lines of a head are cut into their names and values. -/
theorem mapM_cut_headerLine {entries : List (Bytes × Bytes)} (h : ∀ e ∈ entries, 58 ∉ e.1) :
    (entries.map headerLine).mapM (cut (ascii ": ")) = some entries := by
  induction entries with
  | nil => rfl
  | cons e entries ih =>
    rw [List.map_cons, List.mapM_cons, cut_headerLine (h e List.mem_cons_self),
      ih fun d hd => h d (List.mem_cons_of_mem e hd)]
    rfl

/-- The texts before the first and the second space of a status line. -/
theorem decodeStatusLine_eq {version code message : Bytes} (hv : 32 ∉ version) (hc : 32 ∉ code) :
    decodeStatusLine (version ++ ascii " " ++ code ++ ascii " " ++ message) =
      some (version, code) := by
  have hsp : ascii " " = [32] := rfl
  have h₁ : cut [32] (version ++ [32] ++ code ++ [32] ++ message) =
      some (version, code ++ 32 :: message) :=
    cut_singleton_eq_some_iff.mpr ⟨by simp, hv⟩
  have h₂ : cut [32] (code ++ 32 :: message) = some (code, message) :=
    cut_singleton_eq_some_iff.mpr ⟨rfl, hc⟩
  rw [decodeStatusLine, hsp, h₁, Option.bind_some, h₂]
  rfl

/-- The numeral of a status code has no space and no carriage return. -/
theorem not_mem_toString {c : UInt8} (hc : c = 32 ∨ c = 13) (n : ℤ) : c ∉ Lib.toString n := by
  intro h
  rcases mem_toString h with h | h <;> rcases hc with rfl | rfl <;> exact absurd h (by decide)

/-- The texts of status codes have no carriage return. -/
theorem not_mem_getStatusMessage (code : ℤ) : 13 ∉ getStatusMessage code := by
  unfold getStatusMessage
  split_ifs <;> decide

/-- The status line of a response is one line. -/
theorem statusLine_line {r : HttpResponse} (hv : 13 ∉ r.version_) : 13 ∉ r.statusLine := by
  have hsp : (13 : UInt8) ∉ ascii " " := by decide
  simp only [statusLine, List.mem_append, hv, hsp, not_mem_toString (.inr rfl) r.statusCode_,
    not_mem_getStatusMessage r.statusCode_, or_false, not_false_eq_true]

/-! ## Responses -/

/-- A response by the lines of its head. -/
theorem toString_eq (r : HttpResponse) :
    r.toString = r.statusLine ++ (joinLines (r.headers_.entries.map headerLine) ++
      (crlf ++ crlf ++ r.body_)) := by
  have hlines : ∀ l : List (Bytes × Bytes), crlf ++ (l.flatMap fun e => headerLine e ++ crlf) =
      joinLines (l.map headerLine) ++ crlf := by
    intro l
    induction l with
    | nil => simp [joinLines]
    | cons e l ih =>
      rw [List.flatMap_cons, ← List.append_assoc, ← List.append_assoc, List.append_assoc _ crlf, ih]
      simp [joinLines]
  rw [HttpResponse.toString, List.append_assoc, List.append_assoc, List.append_assoc,
    ← List.append_assoc crlf, hlines]
  simp

/-- **The reader gets a response back.**

**Proof sketch.** The status line has no carriage return, so a blank line begins behind it; the
header lines have none either and are not empty, so the first blank line is the one before the
body. The lines are cut at a space and at a colon that the parts before them do not hold. -/
theorem Plain.decode_toString {r : HttpResponse} (h : r.Plain) : decode r.toString = some r := by
  have hlines : ∀ l ∈ r.headers_.entries.map headerLine, l ≠ [] ∧ 13 ∉ l := by
    intro l hl
    obtain ⟨e, he, rfl⟩ := List.mem_map.mp hl
    have hsep : (13 : UInt8) ∉ ascii ": " := by decide
    refine ⟨by simp [headerLine, ascii], ?_⟩
    simp only [headerLine, List.mem_append, h.name_cr e he, hsep, h.value_cr e he, or_false,
      not_false_eq_true]
  have hstatus := statusLine_line h.version_cr
  have hcut : cut (crlf ++ crlf) r.toString =
      some (r.statusLine ++ joinLines (r.headers_.entries.map headerLine), r.body_) := by
    have := cut_append_of_not_mem [10, 13, 10]
      (joinLines (r.headers_.entries.map headerLine) ++ (crlf ++ crlf ++ r.body_)) hstatus
    rw [show (13 :: [10, 13, 10] : Bytes) = crlf ++ crlf from rfl, cut_blankLine hlines] at this
    rw [toString_eq, this]
    rfl
  have hsplit : splitLines
      (r.statusLine ++ joinLines (r.headers_.entries.map headerLine)).length
      (r.statusLine ++ joinLines (r.headers_.entries.map headerLine)) =
        r.statusLine :: r.headers_.entries.map headerLine := by
    apply splitLines_joinLines hstatus fun k hk => (hlines k hk).2
    have := length_le_joinLines (r.headers_.entries.map headerLine)
    rw [List.length_append]
    omega
  have hline : decodeStatusLine r.statusLine = some (r.version_, Lib.toString r.statusCode_) :=
    decodeStatusLine_eq h.version_space (not_mem_toString (.inl rfl) _)
  have hentries : (r.headers_.entries.map headerLine).mapM (cut (ascii ": ")) =
      some r.headers_.entries := mapM_cut_headerLine h.name_colon
  rw [decode, hcut, Option.bind_some]
  dsimp only
  rw [hsplit]
  dsimp only
  rw [hline, Option.bind_some, hentries, Option.map_some, ofNumeral_toString,
    SortedMap.ofEntries_entries]

/-- **`toString` is a faithful encoding**: one reader gets every plain response back, whatever its
status code and its body, so different plain responses have different bytes. -/
theorem decode_toString_injOn :
    (∀ r : HttpResponse, r.Plain → decode r.toString = some r) ∧
      Set.InjOn HttpResponse.toString {r | r.Plain} := by
  refine ⟨fun r h => h.decode_toString, ?_⟩
  intro r hr r' hr' heq
  have := hr.decode_toString
  rw [heq, hr'.decode_toString] at this
  exact (Option.some.inj this).symm

/-- A response whose body holds blank lines and null bytes. -/
theorem decode_toString_injOn_body :
    decode (({} : HttpResponse).setHeader (ascii "A") (ascii ": b") |>.setStatusCode (-7)
        |>.setBody (crlf ++ crlf ++ 0 :: crlf ++ crlf)).toString =
      some (({} : HttpResponse).setHeader (ascii "A") (ascii ": b") |>.setStatusCode (-7)
        |>.setBody (crlf ++ crlf ++ 0 :: crlf ++ crlf)) :=
  decode_toString_injOn.1 _ ⟨by decide, by decide, by decide, by decide, by decide⟩

end HttpResponse

end LouisNet.Http
