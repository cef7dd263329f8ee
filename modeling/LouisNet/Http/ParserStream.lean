import LouisNet.Http.Parser
import LouisNet.Base.BufferRefinement

set_option relaxedAutoImplicit false
set_option autoImplicit false

/-!
# Streaming: the parser does not see how its data is cut

Data reaches the parser in chunks. What it does with a chunk and then with another one is what
it does with the two together: lines that are not complete wait in the buffer, and what is
complete has been stored in the parser and the request. The law is shown for one iteration,
then along the loop of `parseCString`, and then for a driver that feeds chunks and collects the
requests.

## Main definitions

* `LouisNet.Http.HttpParser.parseRequestFrom` — `parseRequest` on a `base::Buffer`.
* `LouisNet.Http.Driver`, `LouisNet.Http.Driver.deliver` — the driver, and its step on a chunk.

## Main results

* `LouisNet.Http.HttpParser.parse_append_needMore`,
  `LouisNet.Http.HttpParser.parse_append_of_ne` — the parser on data that arrives in two parts.
* `LouisNet.Http.HttpParser.parseRequestFrom_represents` — on a buffer that holds a byte
  sequence, `parseRequest` does to the sequence what the model on byte sequences does.
* `LouisNet.Http.Driver.observe_foldl_deliver` — the driver does not depend on the cuts.
-/

namespace LouisNet.Http

open Lib

namespace HttpParser

/-! ## One iteration -/

variable {p p' : HttpParser} {req req' : HttpRequest} {cur cur' : Bytes} {r : ParseResult}

/-- An iteration that goes around does the same when more data is there. -/
theorem Iterates.append_next (h : Iterates p req cur (.next p' req' cur')) (e : Bytes) :
    Iterates p req (cur ++ e) (.next p' req' (cur' ++ e)) := by
  cases h with
  | requestLine hp hc hl => exact .requestLine hp (cut_append_right e hc) hl
  | header hp hc hne hl => exact .header hp (cut_append_right e hc) hne hl
  | startBody hp hc hv hn h0 => exact .startBody hp (cut_append_right e hc) hv hn h0

/-- An iteration that ends a request, well or badly, does the same when more data is there. -/
theorem Iterates.append_done (h : Iterates p req cur (.done r p' req' cur'))
    (hr : r ≠ .kNeedMore) (e : Bytes) :
    Iterates p req (cur ++ e) (.done r p' req' (cur' ++ e)) := by
  cases h with
  | incomplete => exact absurd rfl hr
  | badRequestLine hp hc hl => exact .badRequestLine hp (cut_append_right e hc) hl
  | badHeader hp hc hne hl => exact .badHeader hp (cut_append_right e hc) hne hl
  | noBody hp hc hv => exact .noBody hp (cut_append_right e hc) hv
  | badLength hp hc hv hn => exact .badLength hp (cut_append_right e hc) hv hn
  | emptyBody hp hc hv hn => exact .emptyBody hp (cut_append_right e hc) hv hn
  | body hp hn =>
    have : Iterates p req (cur ++ e) _ := Iterates.body hp (by
      rw [List.length_append]
      omega)
    rwa [List.take_append_of_le_length hn, List.drop_append_of_le_length hn] at this
  | partialBody => exact absurd rfl hr

/-- After a part of the body, the iteration on the next part is the iteration on both. -/
theorem parseIteration_body_append (hp : p.state_ = .kBody)
    (hn : cur.length < subSize p.contentLength_ p.bodyReceived_) (e : Bytes) :
    parseIteration p req (cur ++ e) =
      parseIteration { p with bodyReceived_ := addSize p.bodyReceived_ cur.length }
        { req with body_ := req.body_ ++ cur } e := by
  have hneed := subSize_addSize hn.le
  have hp' : ({ p with bodyReceived_ := addSize p.bodyReceived_ cur.length } :
      HttpParser).state_ = .kBody := hp
  rw [parseIteration_body hp, parseIteration_body hp']
  simp only [hneed, List.length_append]
  split_ifs with h₁ h₂ h₂
  · have htake : (cur ++ e).take (subSize p.contentLength_ p.bodyReceived_) =
        cur ++ e.take (subSize p.contentLength_ p.bodyReceived_ - cur.length) := by
      rw [List.take_append, List.take_of_length_le hn.le]
    have hdrop : (cur ++ e).drop (subSize p.contentLength_ p.bodyReceived_) =
        e.drop (subSize p.contentLength_ p.bodyReceived_ - cur.length) := by
      rw [List.drop_append, List.drop_of_length_le hn.le, List.nil_append]
    rw [htake, hdrop, List.append_assoc]
    rfl
  · omega
  · omega
  · have hadd : addSize (addSize p.bodyReceived_ cur.length) e.length =
        addSize p.bodyReceived_ (cur.length + e.length) := by
      unfold addSize
      omega
    rw [hadd, List.append_assoc]

/-! ## The loop -/

/-- **A request that has ended has ended**: when the parser reports a request or an error, data
behind it does not change the report and stays in the buffer. -/
theorem parse_append_of_ne (p : HttpParser) (req : HttpRequest) (cur e : Bytes)
    (h : (parse p req cur).result ≠ .kNeedMore) :
    parse p req (cur ++ e) = { parse p req cur with rest := (parse p req cur).rest ++ e } := by
  induction p, req, cur using parse_induction with
  | nil => exact absurd rfl h
  | done p req cur r p' req' cur' hc hi =>
    rw [parse_of_done hc hi] at h ⊢
    have := ((parseIteration_eq_iff.mp hi).append_done h e).eq
    rw [parse_of_done (by simp [hc]) this]
  | next p req cur p' req' cur' hc hi ih =>
    rw [parse_of_next hc hi] at h ⊢
    have := ((parseIteration_eq_iff.mp hi).append_next e).eq
    rw [parse_of_next (by simp [hc]) this, ih h]

/-- **A request that waits can wait in pieces**: when the parser asks for more, its run on more
data is its run from where it stopped. -/
theorem parse_append_needMore (p : HttpParser) (req : HttpRequest) (cur e : Bytes)
    (h : (parse p req cur).result = .kNeedMore) :
    parse p req (cur ++ e) =
      parse (parse p req cur).parser (parse p req cur).request ((parse p req cur).rest ++ e) := by
  induction p, req, cur using parse_induction with
  | nil => rfl
  | done p req cur r p' req' cur' hc hi =>
    rw [parse_of_done hc hi] at h ⊢
    subst h
    cases parseIteration_eq_iff.mp hi with
    | incomplete => rfl
    | partialBody hp hn =>
      have he : parseIteration p req (cur ++ e) = _ := parseIteration_body_append hp hn e
      by_cases hnil : e = []
      · subst hnil
        rw [List.append_nil, parse_of_done hc hi]
        rfl
      · rw [List.nil_append, parse_eq, parse_eq (_ : HttpParser) _ e, if_neg (by simp [hc]),
          if_neg hnil, he]
  | next p req cur p' req' cur' hc hi ih =>
    rw [parse_of_next hc hi] at h ⊢
    have := ((parseIteration_eq_iff.mp hi).append_next e).eq
    rw [parse_of_next (by simp [hc]) this, ih h]

/-! ## On a buffer -/

/-- `HttpParser::parseRequest` on a `base::Buffer`: parse the readable region, then consume the
bytes parsed. -/
def parseRequestFrom (p : HttpParser) (buffer : Base.Buffer) (outRequest : HttpRequest) :
    Except Base.BufferFault (ParseResult × HttpParser × Base.Buffer × HttpRequest) := do
  let data ← Base.slice buffer.buffer_ buffer.readerIndex_
    (addSize buffer.readerIndex_ buffer.readableBytes)
  let (result, p, outRequest, parsed) := p.parseCString data outRequest
  let buffer ← buffer.consume parsed
  return (result, p, buffer, outRequest)

/-- **Byte sequences are enough**: on a buffer whose readable region is `s`, `parseRequest` does
not fail, and it does to the buffer what `parseRequest` does to `s`. -/
theorem parseRequestFrom_represents (p : HttpParser) (req : HttpRequest) {b : Base.Buffer}
    {s : Bytes} (h : b.Represents s) :
    ∃ b', p.parseRequestFrom b req = .ok ((parse p req s).result, (parse p req s).parser, b',
        (parse p req s).request) ∧ b'.Represents (parse p req s).rest := by
  obtain ⟨used, hused⟩ := suffix_parse p req s
  have hlen : s.length - (parse p req s).rest.length = used.length := by
    rw [← congrArg List.length hused, List.length_append]
    omega
  have hle : used.length ≤ s.length := by
    rw [← congrArg List.length hused, List.length_append]
    omega
  obtain ⟨b', hb', hr⟩ := Base.Buffer.consume_represents h hle
  have hdrop : s.drop used.length = (parse p req s).rest := by
    rw [← congrArg (List.drop used.length) hused, List.drop_left]
  rw [hdrop] at hr
  refine ⟨b', ?_, hr⟩
  have hend : addSize b.readerIndex_ b.readableBytes = b.readerIndex_ + s.length := by
    rw [h.readableBytes_eq]
    exact addSize_eq (by
      have h₁ := h.writerIndex_eq
      have h₂ := h.index_le
      have h₃ := h.le_maxSize
      unfold Base.maxSize at h₃
      omega)
  have hslice := h.slice_eq (Nat.le_refl s.length)
  rw [List.take_length] at hslice
  simp only [parseRequestFrom, hend, hslice, parseCString, hlen, hb', bind, Except.bind, pure,
    Except.pure]

/-! ## Progress -/

/-- A request that starts at a request line uses up data. -/
theorem length_rest_lt (p : HttpParser) (req : HttpRequest) (cur : Bytes)
    (hp : p.state_ = .kStartLine) (h : (parse p req cur).result = .kSuccess) :
    (parse p req cur).rest.length < cur.length := by
  by_cases hc : cur = []
  · subst hc
    cases h
  · cases hi : parseIteration p req cur with
    | next p' req' cur' =>
      rw [parse_of_next hc hi]
      have h₁ := (suffix_parse p' req' cur').length_le
      have h₂ := length_lt_of_next hi
      omega
    | done r p' req' cur' =>
      rw [parse_of_done hc hi] at h
      have hr : r = .kSuccess := h
      subst hr
      cases parseIteration_eq_iff.mp hi with
      | noBody hp' => cases hp.symm.trans hp'
      | emptyBody hp' => cases hp.symm.trans hp'
      | body hp' => cases hp.symm.trans hp'

end HttpParser

/-! ## The driver -/

/-- A driver of the parser: the parser, the request being parsed, the readable bytes of the
buffer, the requests recorded, the last result, and the data that came after an error. -/
structure Driver where
  parser : HttpParser := {}
  request : HttpRequest := {}
  buffer : Bytes := []
  recorded : List HttpRequest := []
  last : Option ParseResult := none
  undelivered : Bytes := []

namespace Driver

open HttpParser

/-- Call `parseRequest` while bytes are readable: record a request and start afresh behind it,
wait when more is needed, and stop at an error. -/
def drive (d : Driver) : Driver :=
  if d.buffer = [] then d
  else
    match _h : d.parser.parseRequest d.buffer d.request with
    | (.kNeedMore, parser, buffer, request) =>
      { d with parser, request, buffer, last := some .kNeedMore }
    | (.kError, parser, buffer, request) =>
      { d with parser, request, buffer, last := some .kError }
    | (.kSuccess, parser, buffer, request) =>
      drive { d with
        parser := parser.reset
        request := request.reset
        buffer
        recorded := d.recorded ++ [request]
        last := some .kSuccess }
termination_by 2 * d.buffer.length + (if d.parser.state_ = .kStartLine then 0 else 1)
decreasing_by
  rw [parseRequest_eq] at _h
  simp only [Prod.mk.injEq] at _h
  obtain ⟨hr, -, rfl, -⟩ := _h
  have hle := (suffix_parse d.parser d.request d.buffer).length_le
  simp only [HttpParser.reset, if_true]
  split_ifs with hs
  · have := length_rest_lt _ _ _ hs hr
    omega
  · omega

/-- The driver has met an error. -/
def Stopped (d : Driver) : Prop := d.last = some .kError

instance (d : Driver) : Decidable d.Stopped := inferInstanceAs (Decidable (_ = _))

/-- The driver with more data in its buffer. -/
def extend (d : Driver) (e : Bytes) : Driver := { d with buffer := d.buffer ++ e }

/-- A chunk arrives: append it to the buffer and parse, unless the driver has stopped. -/
def deliver (d : Driver) (chunk : Bytes) : Driver :=
  if d.Stopped then { d with undelivered := d.undelivered ++ chunk }
  else (d.extend chunk).drive

/-- What the driver leaves: the requests recorded, the last result, the partial request, and
the data not consumed. -/
def observe (d : Driver) : List HttpRequest × Option ParseResult × HttpRequest × Bytes :=
  (d.recorded, d.last, d.request, d.buffer ++ d.undelivered)

/-- The outcome of the next call of `parseRequest`. -/
def outcome (d : Driver) : Outcome := parse d.parser d.request d.buffer

/-- The driver after a call that it does not go on from. -/
def halt (d : Driver) (o : Outcome) : Driver :=
  { d with parser := o.parser, request := o.request, buffer := o.rest, last := some o.result }

/-- The driver after a request. -/
def restart (d : Driver) (o : Outcome) : Driver :=
  { d with
    parser := o.parser.reset
    request := o.request.reset
    buffer := o.rest
    recorded := d.recorded ++ [o.request]
    last := some .kSuccess }

/-- The driver without data does nothing. -/
theorem drive_nil {d : Driver} (h : d.buffer = []) : d.drive = d := by
  rw [drive, if_pos h]

/-- The driver with data, by the outcome of the next call. -/
theorem drive_eq {d : Driver} (hb : d.buffer ≠ []) :
    d.drive = if d.outcome.result = .kSuccess then (d.restart d.outcome).drive
      else d.halt d.outcome := by
  rw [drive, if_neg hb]
  split <;> rename_i heq <;> rw [parseRequest_eq, Prod.mk.injEq] at heq <;>
    obtain ⟨hr, heq⟩ := heq <;> cases heq
  · rw [if_neg (by rw [outcome, hr]; decide), halt, outcome, hr]
  · rw [if_neg (by rw [outcome, hr]; decide), halt, outcome, hr]
  · rw [if_pos (by rw [outcome, hr])]
    rfl

/-- **Induction along the driver's loop.** -/
theorem drive_induction {P : Driver → Prop} (nil : ∀ d, d.buffer = [] → P d)
    (halt : ∀ d, d.buffer ≠ [] → d.outcome.result ≠ .kSuccess → P d)
    (restart : ∀ d, d.buffer ≠ [] → d.outcome.result = .kSuccess →
      P (d.restart d.outcome) → P d) (d : Driver) : P d := by
  induction d using drive.induct with
  | case1 d hb => exact nil d hb
  | case2 d hb _ _ _ h =>
    rw [parseRequest_eq, Prod.mk.injEq] at h
    exact halt d hb (by rw [outcome, h.1]; decide)
  | case3 d hb _ _ _ h =>
    rw [parseRequest_eq, Prod.mk.injEq] at h
    exact halt d hb (by rw [outcome, h.1]; decide)
  | case4 d hb _ _ _ h ih =>
    rw [parseRequest_eq, Prod.mk.injEq] at h
    obtain ⟨hr, h⟩ := h
    cases h
    exact restart d hb hr ih

/-- A call that ends a request does not look behind it. -/
theorem outcome_extend {d : Driver} (e : Bytes) (h : d.outcome.result ≠ .kNeedMore) :
    (d.extend e).outcome = { d.outcome with rest := d.outcome.rest ++ e } :=
  parse_append_of_ne d.parser d.request d.buffer e h

/-- A call that asks for more goes on where it was. -/
theorem outcome_halt_extend {d : Driver} (e : Bytes) (h : d.outcome.result = .kNeedMore) :
    ((d.halt d.outcome).extend e).outcome = (d.extend e).outcome :=
  (parse_append_needMore d.parser d.request d.buffer e h).symm

/-- **The driver does not see where the data was cut.** A driver that has not stopped goes on
as if all the data had been there from the start; one that has stopped keeps what is behind.

**Proof sketch.** Induction along the driver's loop. At a request and at an error the parser
does not look behind it (`outcome_extend`); when more is needed, it continues where it was
(`outcome_halt_extend`). -/
theorem drive_extend (d : Driver) (e : Bytes) (hd : ¬ d.Stopped) :
    (d.extend e).drive =
      if d.drive.Stopped then d.drive.extend e else (d.drive.extend e).drive := by
  induction d using drive_induction with
  | nil d hb => rw [drive_nil hb, if_neg hd]
  | restart d hb hr ih =>
    have happ := outcome_extend e (d := d) (by rw [hr]; decide)
    have hb' : (d.extend e).buffer ≠ [] := by simp [extend, hb]
    rw [drive_eq hb, if_pos hr, ← ih (by simp [Stopped, restart]), drive_eq hb', happ, if_pos hr]
    rfl
  | halt d hb hr =>
    have hb' : (d.extend e).buffer ≠ [] := by simp [extend, hb]
    rw [drive_eq hb, if_neg hr]
    by_cases hm : d.outcome.result = .kNeedMore
    · rw [if_neg (by simp [Stopped, halt, hm])]
      have happ := outcome_halt_extend e hm
      by_cases hnil : ((d.halt d.outcome).extend e).buffer = []
      · -- the whole buffer went into the body, and nothing follows
        obtain ⟨-, rfl⟩ := List.append_eq_nil_iff.mp hnil
        have hext : ∀ d : Driver, d.extend [] = d := fun d => by simp [extend]
        rw [drive_nil hnil, hext, hext, drive_eq hb, if_neg hr]
      · rw [drive_eq hb', drive_eq hnil, happ]
        rfl
    · have hs : d.outcome.result = .kError := by
        cases h : d.outcome.result <;> simp_all
      have happ := outcome_extend e hm
      rw [if_pos (by simp [Stopped, halt, hs]), drive_eq hb', happ, if_neg hr]
      rfl

/-- The driver's loop puts nothing aside. -/
theorem undelivered_drive (d : Driver) : d.drive.undelivered = d.undelivered := by
  induction d using drive_induction with
  | nil d hb => rw [drive_nil hb]
  | halt d hb hr =>
    rw [drive_eq hb, if_neg hr]
    rfl
  | restart d hb hr ih =>
    rw [drive_eq hb, if_pos hr, ih]
    rfl

/-- Data is put aside only once the driver has stopped. -/
def Consistent (d : Driver) : Prop := ¬ d.Stopped → d.undelivered = []

/-- A chunk keeps a driver consistent. -/
theorem Consistent.deliver {d : Driver} (h : d.Consistent) (chunk : Bytes) :
    (d.deliver chunk).Consistent := by
  intro hs
  unfold Driver.deliver at hs ⊢
  split_ifs at hs ⊢ with hd
  · exact absurd hd hs
  · rw [undelivered_drive]
    exact h hd

/-- Two chunks in a row leave what their concatenation leaves. -/
theorem observe_deliver_deliver {d : Driver} (h : d.Consistent) (a b : Bytes) :
    ((d.deliver a).deliver b).observe = (d.deliver (a ++ b)).observe := by
  by_cases hd : d.Stopped
  · have hd' : Stopped { d with undelivered := d.undelivered ++ a } := hd
    simp only [deliver, if_pos hd, if_pos hd', observe, List.append_assoc]
  · have hcat : d.extend (a ++ b) = (d.extend a).extend b := by simp [extend]
    have hund : (d.extend a).drive.undelivered = [] := by
      rw [undelivered_drive]
      exact h hd
    simp only [deliver, if_neg hd, hcat, drive_extend (d.extend a) b hd]
    generalize (d.extend a).drive = d₁ at hund ⊢
    split_ifs
    · simp only [observe, extend, hund, List.nil_append, List.append_nil]
    · rfl

/-- The chunks, one after the other, leave what their concatenation leaves. -/
theorem observe_foldl_deliver_of_consistent (chunks : List Bytes) :
    ∀ {d : Driver}, d.Consistent → (d.deliver []).observe = d.observe →
      (chunks.foldl deliver d).observe = (d.deliver chunks.flatten).observe := by
  induction chunks with
  | nil =>
    intro d _ hd
    exact hd.symm
  | cons c chunks ih =>
    intro d h _
    have hidle : ((d.deliver c).deliver []).observe = (d.deliver c).observe := by
      rw [observe_deliver_deliver h, List.append_nil]
    rw [List.foldl_cons, ih (h.deliver c) hidle, observe_deliver_deliver h, List.flatten_cons]

/-- **Streaming does not depend on the chunks.** However a byte string is cut, the driver
records the same requests, ends with the same result and the same partial request, and leaves
the same bytes. -/
theorem observe_foldl_deliver (chunks : List Bytes) :
    (chunks.foldl deliver {}).observe = (deliver {} chunks.flatten).observe := by
  refine observe_foldl_deliver_of_consistent chunks (fun _ => rfl) ?_
  rw [deliver, if_neg (by decide), drive_nil rfl]
  rfl

/-- A request that is cut within a line terminator is recorded, and the first bytes of the next one
are left. -/
theorem observe_foldl_deliver_cut :
    let chunks := [ascii "GET / V\r", ascii "\n\r\nPO"]
    (chunks.foldl deliver {}).observe = (deliver {} chunks.flatten).observe ∧
      (chunks.foldl deliver {}).observe =
        ([⟨ascii "GET", ascii "/", ascii "V", .empty, []⟩], some .kNeedMore, {}, ascii "PO") := by
  refine ⟨observe_foldl_deliver _, ?_⟩
  have hfirst : deliver {} (ascii "GET / V\r") =
      { buffer := ascii "GET / V\r", last := some .kNeedMore } := by
    rw [deliver, if_neg (by decide), drive_eq (by decide), if_neg (by decide)]
    rfl
  rw [List.foldl_cons, hfirst, List.foldl_cons, List.foldl_nil, deliver, if_neg (by decide),
    drive_eq (by decide), if_pos (by decide), drive_eq (by decide), if_neg (by decide)]
  rfl

end Driver

end LouisNet.Http
