import LouisNet.Net.TcpConnection

set_option relaxedAutoImplicit false
set_option autoImplicit false

/-!
# The callback protocol of a connection

The user of a connection expects one connection callback and one close callback at its end, and
no message behind them. The connection does not keep a record of having been closed: it turns
every report of the end by the kernel into a round of callbacks. So the protocol is kept exactly
along the runs in which the kernel reports nothing after it has reported the end once.

The log of a connection is compared with itself: the callbacks in it are those that the reports
in it call for. Every function of the connection keeps this, and the protocol is then a
statement about lists of reports.

## Main definitions

* `LouisNet.Net.Report`, `LouisNet.Net.Event.report` — what the kernel reports.
* `LouisNet.Net.CallbackProtocol` — the protocol.
* `LouisNet.Net.NothingAfterEnd` — the kernel reports nothing after the end.

## Main results

* `LouisNet.Net.TcpConnection.handleEvents_balanced`,
  `LouisNet.Net.TcpConnection.run_balanced` — an event, and a run, make the callbacks that the
  reports call for.
-/

namespace LouisNet.Net

open Lib Reactor

/-! ## Reports and callbacks -/

/-- What the kernel can report to a connection: data, or the end. -/
inductive Report where
  | data
  | final
  deriving DecidableEq, Repr

/-- What an event of the log reports. Data is read; the end is a hang-up, an error event, the
end of the stream, or an error of `readv` or of a `write` in `handleWrite` other than that the
call would block. -/
def Event.report : Event → Option Report
  | .hangUp => some .final
  | .errorEvent => some .final
  | .readv (.data []) => some .final
  | .readv (.data (_ :: _)) => some .data
  | .readv (.error errno) =>
    if errno = EAGAIN ∨ errno = EWOULDBLOCK then none else some .final
  | .write ⟨some (_ + 1), _⟩ => none
  | .write ⟨_, errno⟩ =>
    if errno = 0 ∨ errno = EAGAIN ∨ errno = EWOULDBLOCK then none else some .final
  | _ => none

/-- The callbacks of the protocol: the connection callback in the disconnected state, the close
callback, and the message callback. -/
def Event.isCallback (e : Event) : Bool :=
  e = .connectionCallback .kDisconnected ∨ e = .closeCallback ∨ e = .messageCallback

/-- **The protocol**: at most one connection callback in the disconnected state, at most one
close callback, and no message callback behind the former. -/
def CallbackProtocol (log : List Event) : Prop :=
  log.count (.connectionCallback .kDisconnected) ≤ 1 ∧ log.count .closeCallback ≤ 1 ∧
    log.Pairwise fun a b => a = .connectionCallback .kDisconnected → b ≠ .messageCallback

instance (log : List Event) : Decidable (CallbackProtocol log) :=
  inferInstanceAs (Decidable (_ ∧ _ ∧ _))

/-- Only the callbacks of the protocol matter to it. -/
theorem callbackProtocol_filter (log : List Event) :
    CallbackProtocol (log.filter Event.isCallback) ↔ CallbackProtocol log := by
  unfold CallbackProtocol
  rw [List.count_filter (by decide), List.count_filter (by decide), List.pairwise_filter]
  refine and_congr_right fun _ => and_congr_right fun _ => ?_
  constructor
  · intro h
    refine h.imp fun {a b} hab ha hb => ?_
    subst ha hb
    exact hab (by decide) (by decide) rfl rfl
  · intro h
    exact h.imp fun hab _ _ => hab

/-- A message before everything else does not break the protocol. -/
theorem CallbackProtocol.cons_messageCallback {log : List Event} (h : CallbackProtocol log) :
    CallbackProtocol (.messageCallback :: log) := by
  obtain ⟨h₁, h₂, h₃⟩ := h
  refine ⟨?_, ?_, List.pairwise_cons.mpr ⟨?_, h₃⟩⟩
  · rwa [List.count_cons_of_ne (by decide)]
  · rwa [List.count_cons_of_ne (by decide)]
  · intro b _ hc
    cases hc

/-- A protocol that is kept is kept behind the first callbacks. -/
theorem CallbackProtocol.of_append {l₁ l₂ : List Event} (h : CallbackProtocol (l₁ ++ l₂)) :
    CallbackProtocol l₂ := by
  obtain ⟨h₁, h₂, h₃⟩ := h
  rw [List.count_append] at h₁ h₂
  exact ⟨by omega, by omega, (List.pairwise_append.mp h₃).2.1⟩

/-- The kernel reports nothing after it has reported the end. -/
def NothingAfterEnd (log : List Event) : Prop :=
  (log.filterMap Event.report).Pairwise fun a _ => a ≠ .final

instance (log : List Event) : Decidable (NothingAfterEnd log) :=
  inferInstanceAs (Decidable (List.Pairwise _ _))

/-- Nothing after the end in a list of reports: an end can only be the last of them. -/
theorem pairwise_final_cons {r : Report} {reports : List Report} :
    (r :: reports).Pairwise (fun a _ => a ≠ .final) ↔
      (r = .final → reports = []) ∧ reports.Pairwise fun a _ => a ≠ .final := by
  rw [List.pairwise_cons]
  refine and_congr_left fun _ => ?_
  cases reports with
  | nil => simp
  | cons s reports =>
    simp only [reduceCtorEq, imp_false]
    exact ⟨fun h => h s List.mem_cons_self, fun h _ _ => h⟩

namespace TcpConnection

/-- The callbacks that a report calls for. -/
def reaction (c : TcpConnection) : Report → List Event
  | .data => if c.messageCallback_ then [.messageCallback] else []
  | .final =>
    (if c.connectionCallback_ then [.connectionCallback .kDisconnected] else []) ++
      (if c.closeCallback_ then [.closeCallback] else [])

/-! ## What the functions of the connection add to the log -/

/-- From `c` to `c'` the log has grown by events with the given callbacks and reports, and the
callbacks are set as before. -/
structure Adds (c c' : TcpConnection) (callbacks : List Event) (reports : List Report) : Prop where
  connectionCallback_eq : c'.connectionCallback_ = c.connectionCallback_
  messageCallback_eq : c'.messageCallback_ = c.messageCallback_
  closeCallback_eq : c'.closeCallback_ = c.closeCallback_
  log_eq : ∃ added, c'.log = c.log ++ added ∧ added.filter Event.isCallback = callbacks ∧
    added.filterMap Event.report = reports

namespace Adds

variable {c c' c'' c₀ : TcpConnection} {a b : List Event} {r s : List Report}

/-- Nothing has changed. -/
theorem refl (c : TcpConnection) : Adds c c [] [] :=
  ⟨rfl, rfl, rfl, [], (List.append_nil _).symm, rfl, rfl⟩

/-- Two changes in a row. -/
theorem trans (h : Adds c c' a r) (h' : Adds c' c'' b s) : Adds c c'' (a ++ b) (r ++ s) := by
  obtain ⟨p, hp, rfl, rfl⟩ := h.log_eq
  obtain ⟨q, hq, rfl, rfl⟩ := h'.log_eq
  refine ⟨h'.connectionCallback_eq.trans h.connectionCallback_eq,
    h'.messageCallback_eq.trans h.messageCallback_eq,
    h'.closeCallback_eq.trans h.closeCallback_eq, p ++ q, ?_, ?_, ?_⟩
  · rw [hq, hp, List.append_assoc]
  · rw [List.filter_append]
  · rw [List.filterMap_append]

/-- Before the change, other fields than the log and the callbacks do not matter. -/
theorem congr_left (h : Adds c c' a r) (h₁ : c.connectionCallback_ = c₀.connectionCallback_)
    (h₂ : c.messageCallback_ = c₀.messageCallback_) (h₃ : c.closeCallback_ = c₀.closeCallback_)
    (h₄ : c.log = c₀.log) : Adds c₀ c' a r :=
  ⟨h.connectionCallback_eq.trans h₁, h.messageCallback_eq.trans h₂, h.closeCallback_eq.trans h₃,
    h₄ ▸ h.log_eq⟩

/-- After the change, other fields than the log and the callbacks do not matter. -/
theorem congr_right (h : Adds c c' a r) (h₁ : c₀.connectionCallback_ = c'.connectionCallback_)
    (h₂ : c₀.messageCallback_ = c'.messageCallback_) (h₃ : c₀.closeCallback_ = c'.closeCallback_)
    (h₄ : c₀.log = c'.log) : Adds c c₀ a r :=
  ⟨h₁.trans h.connectionCallback_eq, h₂.trans h.messageCallback_eq, h₃.trans h.closeCallback_eq,
    h₄ ▸ h.log_eq⟩

/-- Reports call for the same callbacks after the change. -/
theorem reaction_eq (h : Adds c c' a r) : c'.reaction = c.reaction := by
  funext report
  cases report with
  | data => simp only [reaction, h.messageCallback_eq]
  | final => simp only [reaction, h.connectionCallback_eq, h.closeCallback_eq]

end Adds

/-- An event is added to the log. -/
theorem emit_adds (c : TcpConnection) (e : Event) :
    Adds c (c.emit e) (if e.isCallback then [e] else []) e.report.toList := by
  refine ⟨rfl, rfl, rfl, [e], rfl, ?_, ?_⟩
  · cases h : e.isCallback <;> simp [h]
  · cases h : e.report <;> simp [h]

/-- A change that neither reports nor calls back. -/
abbrev Quiet (c c' : TcpConnection) : Prop := Adds c c' [] []

theorem shutdownInLoop_quiet (c : TcpConnection) : Quiet c c.shutdownInLoop := by
  unfold shutdownInLoop
  split_ifs
  · exact c.emit_adds .shutdownWrite
  · exact .refl c

theorem shutdown_quiet (c : TcpConnection) : Quiet c c.shutdown := by
  unfold shutdown
  split_ifs
  · exact (shutdownInLoop_quiet _).congr_left rfl rfl rfl rfl
  · exact .refl c

theorem writeDirect_quiet (c : TcpConnection) (data : Bytes) (result : WriteResult) :
    Quiet c (c.writeDirect data result).1 := by
  unfold writeDirect
  split
  · dsimp only
    split_ifs
    · exact (c.emit_adds (.wrote _)).congr_right rfl rfl rfl rfl
    · exact c.emit_adds (.wrote _)
  · split_ifs <;> exact .refl c

theorem sendInLoop_quiet (c : TcpConnection) (data : Bytes) (result : WriteResult) :
    Quiet c (c.sendInLoop data result) := by
  have hwrite : Quiet c (if !c.channel_.isWriting ∧ c.outputBuffer_ = [] then
      c.writeDirect data result else (c, 0, 0)).1 := by
    split_ifs
    · exact c.writeDirect_quiet data result
    · exact .refl c
  unfold sendInLoop
  by_cases hs : c.state_ = .kDisconnected
  · rw [if_pos hs]
    exact .refl c
  · rw [if_neg hs]
    generalize (if !c.channel_.isWriting ∧ c.outputBuffer_ = [] then
      c.writeDirect data result else (c, 0, 0)) = p at hwrite ⊢
    dsimp only
    split_ifs
    · exact hwrite.congr_right rfl rfl rfl rfl
    · exact hwrite.congr_right rfl rfl rfl rfl
    · exact hwrite

theorem call_quiet (c : TcpConnection) (k : Call) : Quiet c (c.call k) := by
  cases k with
  | send message result =>
    unfold call send
    dsimp only
    split_ifs
    · exact Adds.trans (c.emit_adds (.accepted message)) (sendInLoop_quiet _ _ _)
    · exact .refl c
  | shutdown => exact c.shutdown_quiet
  | consume len => exact (Adds.refl c).congr_right rfl rfl rfl rfl

/-- The code of the user neither reports nor calls back. -/
theorem callback_quiet (c : TcpConnection) : Quiet c c.callback := by
  have hcalls : ∀ (calls : List Call) (c : TcpConnection), Quiet c (calls.foldl call c) := by
    intro calls
    induction calls with
    | nil => exact .refl
    | cons k calls ih => exact fun c => Adds.trans (c.call_quiet k) (ih (c.call k))
  unfold callback
  split
  · exact .refl c
  · exact (hcalls _ _).congr_left rfl rfl rfl rfl

/-- An invoked callback is added to the log. -/
theorem invoke_adds (c : TcpConnection) (isSet : Bool) {e : Event} (he : e.report = none) :
    Adds c (c.invoke isSet e) (if isSet ∧ e.isCallback then [e] else []) [] := by
  unfold invoke
  cases isSet with
  | false => exact .refl c
  | true =>
    have := Adds.trans (c.emit_adds e) (callback_quiet _)
    simpa [he] using this

/-- The write-complete callback is none of the protocol. -/
theorem writeCompleteCallback_quiet (c : TcpConnection) : Quiet c c.writeCompleteCallback := by
  have h : Adds c c.writeCompleteCallback _ [] :=
    c.invoke_adds c.writeCompleteCallback_ (e := .writeCompleteCallback) rfl
  simpa [Event.isCallback] using h

/-- Data makes the callback that it calls for. -/
theorem messageCallback_adds (c : TcpConnection) :
    Adds c c.messageCallback (c.reaction .data) [] := by
  have h : Adds c c.messageCallback _ [] :=
    c.invoke_adds c.messageCallback_ (e := .messageCallback) rfl
  simpa [Event.isCallback, reaction] using h

/-- The close callback is invoked if it is set. -/
theorem closeCallback_adds (c : TcpConnection) :
    Adds c c.closeCallback (if c.closeCallback_ then [.closeCallback] else []) [] := by
  have h : Adds c c.closeCallback _ [] :=
    c.invoke_adds c.closeCallback_ (e := .closeCallback) rfl
  simpa [Event.isCallback] using h

/-- Closing makes the callbacks that the end calls for. -/
theorem handleClose_adds (c : TcpConnection) :
    Adds c c.handleClose (c.reaction .final) [] := by
  have h₁ : Adds c (connectionCallback { c with state_ := .kDisconnected }) _ [] :=
    (invoke_adds { c with state_ := .kDisconnected } c.connectionCallback_
      (e := .connectionCallback .kDisconnected) rfl).congr_left rfl rfl rfl rfl
  have h₂ := closeCallback_adds (connectionCallback { c with state_ := .kDisconnected })
  rw [h₁.closeCallback_eq] at h₂
  have h : Adds c c.handleClose _ _ := h₁.trans h₂
  simpa [Event.isCallback, reaction] using h

theorem handleError_adds (c : TcpConnection) :
    Adds c c.handleError (c.reaction .final) [] :=
  (handleClose_adds _).congr_left rfl rfl rfl rfl

/-! ## The callbacks are those that the reports call for -/

/-- From `c` to `c'` the callbacks made are those that the reports call for. -/
def Balanced (c c' : TcpConnection) : Prop :=
  ∃ reports : List Report, Adds c c' (reports.flatMap c.reaction) reports

namespace Balanced

variable {c c' c'' : TcpConnection}

/-- A quiet change is balanced. -/
theorem of_quiet (h : Quiet c c') : Balanced c c' := ⟨[], h⟩

/-- Two balanced changes in a row. -/
theorem trans (h : Balanced c c') (h' : Balanced c' c'') : Balanced c c'' := by
  obtain ⟨r, hr⟩ := h
  obtain ⟨s, hs⟩ := h'
  refine ⟨r ++ s, ?_⟩
  rw [hr.reaction_eq] at hs
  rw [List.flatMap_append]
  exact hr.trans hs

/-- A report and the callbacks it calls for. -/
theorem of_report {e : Event} {r : Report} (he : e.report = some r) (hc : e.isCallback = false)
    (h : Adds (c.emit e) c' ((c.emit e).reaction r) []) : Balanced c c' := by
  have he' := c.emit_adds e
  rw [he, hc] at he'
  rw [he'.reaction_eq] at h
  refine ⟨[r], ?_⟩
  simpa using he'.trans h

end Balanced

/-- An event of the log that neither reports nor calls back. -/
theorem emit_quiet (c : TcpConnection) {e : Event} (he : e.report = none)
    (hc : e.isCallback = false) : Quiet c (c.emit e) := by
  simpa [he, hc] using c.emit_adds e

/-- The loop of `handleRead`: data is reported and handed on until `readv` reports the end or
would block. By induction on the results of `readv`. -/
theorem readLoop_balanced (reads : List ReadResult) :
    ∀ c : TcpConnection, Balanced c (readLoop reads c) := by
  induction reads with
  | nil => exact fun c => .of_quiet (.refl c)
  | cons r reads ih =>
    intro c
    rcases r with ⟨_ | ⟨x, bytes⟩⟩ | errno
    · exact .of_report rfl rfl (handleClose_adds _)
    · refine Balanced.trans (.of_report (e := .readv (.data (x :: bytes))) rfl rfl ?_) (ih _)
      exact (messageCallback_adds _).congr_left rfl rfl rfl rfl
    · simp only [readLoop]
      split_ifs with h₁ h₂
      · exact .of_quiet (c.emit_quiet (if_pos h₁) rfl)
      · exact .of_report (e := .readv (.error errno)) (if_neg h₁) rfl (handleClose_adds _)
      · exact .of_report (e := .readv (.error errno)) (if_neg h₁) rfl (handleError_adds _)

/-- The end of the loop of `handleWrite` neither reports nor calls back. -/
theorem drained_quiet (c : TcpConnection) : Quiet c c.drained := by
  have h : Quiet c (writeCompleteCallback { c with channel_ := c.channel_.disableWrite }) :=
    (writeCompleteCallback_quiet _).congr_left rfl rfl rfl rfl
  unfold drained
  dsimp only
  split_ifs
  · exact h.trans (shutdownInLoop_quiet _)
  · exact h

/-- A `write` that has not written, in `handleWrite`. -/
theorem writeFailed_balanced (c : TcpConnection) {r : WriteResult}
    (hr : ∀ n, r.ret ≠ some (n + 1)) : Balanced c ((c.emit (.write r)).writeFailed r.errno) := by
  have hrep : (Event.write r).report =
      if r.errno = 0 ∨ r.errno = EAGAIN ∨ r.errno = EWOULDBLOCK then none else some .final := by
    obtain ⟨_ | _ | n, errno⟩ := r
    · rfl
    · rfl
    · exact absurd rfl (hr n)
  unfold writeFailed
  split_ifs with h₁ h₂
  · exact .of_quiet (c.emit_quiet (by rw [hrep, if_pos (.inl h₁)]) rfl)
  · exact .of_quiet
      ((c.emit_quiet (by rw [hrep, if_pos (.inr h₂)]) rfl).congr_right rfl rfl rfl rfl)
  · exact .of_report (r := .final) (by rw [hrep, if_neg (by tauto)]) rfl (handleError_adds _)

/-- The loop of `handleWrite`. By induction on the results of `write`. -/
theorem writeLoop_balanced (writes : List WriteResult) :
    ∀ c : TcpConnection, Balanced c (writeLoop writes c) := by
  induction writes with
  | nil =>
    intro c
    unfold writeLoop
    split_ifs
    · exact .of_quiet c.drained_quiet
    · exact .of_quiet ((Adds.refl c).congr_right rfl rfl rfl rfl)
  | cons r writes ih =>
    intro c
    unfold writeLoop
    split_ifs
    · exact .of_quiet c.drained_quiet
    · obtain ⟨_ | _ | n, errno⟩ := r
      · exact c.writeFailed_balanced (by simp)
      · exact c.writeFailed_balanced (by simp)
      · refine Balanced.trans (.of_quiet ?_) (ih _)
        exact (Adds.trans (c.emit_quiet rfl rfl) (emit_quiet _ rfl rfl)).congr_right rfl rfl rfl rfl

theorem handleWrite_balanced (c : TcpConnection) : Balanced c c.handleWrite := by
  unfold handleWrite
  split_ifs
  · exact writeLoop_balanced _ c
  · exact .of_quiet (.refl c)

/-- **An event makes the callbacks that its reports call for.** -/
theorem handleEvents_balanced (c : TcpConnection) (revents : UInt32) :
    Balanced c (c.handleEvents revents) := by
  refine Channel.handler_rel (R := Balanced) (fun c => .of_quiet (.refl c)) Balanced.trans ?_ ?_
    (fun c => readLoop_balanced _ c) handleWrite_balanced revents c
  · exact fun c => .of_report rfl rfl (handleClose_adds _)
  · exact fun c => .of_report rfl rfl (handleError_adds _)

/-- One step of the loop thread. -/
theorem step_balanced (c : TcpConnection) (i : Input × Supply) : Balanced c (c.step i) := by
  have hsupply : Balanced c { c with supply := i.2 } :=
    .of_quiet ((Adds.refl c).congr_right rfl rfl rfl rfl)
  refine hsupply.trans ?_
  unfold step
  cases i.1 with
  | event revents => exact handleEvents_balanced _ revents
  | call k => exact .of_quiet (call_quiet _ k)
  | task =>
    dsimp only
    split
    · exact .of_quiet (.refl _)
    · exact .of_quiet ((writeCompleteCallback_quiet _).congr_left rfl rfl rfl rfl)

/-- **A run makes the callbacks that its reports call for.** By induction on the run. -/
theorem run_balanced (inputs : List (Input × Supply)) :
    ∀ c : TcpConnection, Balanced c (c.run inputs) := by
  induction inputs with
  | nil => exact fun c => .of_quiet (.refl c)
  | cons i inputs ih => exact fun c => (c.step_balanced i).trans (ih (c.step i))

/-! ## The connection callback after the first -/

/-- From `c` to `c'` the log has grown, and the connection callback was invoked in the disconnected
state only. -/
def OnlyDown (c c' : TcpConnection) : Prop :=
  ∃ added, c'.log = c.log ++ added ∧
    ∀ state, .connectionCallback state ∈ added → state = .kDisconnected

namespace OnlyDown

variable {c c' c'' : TcpConnection}

/-- The log is the same. -/
theorem of_log_eq (h : c'.log = c.log) : OnlyDown c c' := ⟨[], by simp [h], by simp⟩

/-- Two changes in a row. -/
theorem trans (h : OnlyDown c c') (h' : OnlyDown c' c'') : OnlyDown c c'' := by
  obtain ⟨l, hl, hdown⟩ := h
  obtain ⟨l', hl', hdown'⟩ := h'
  refine ⟨l ++ l', by rw [hl', hl, List.append_assoc], fun state hstate => ?_⟩
  exact (List.mem_append.mp hstate).elim (hdown state) (hdown' state)

/-- An event is added to the log. -/
theorem of_emit {e : Event} (he : ∀ state, e = .connectionCallback state → state = .kDisconnected) :
    OnlyDown c (c.emit e) :=
  ⟨[e], rfl, fun state hstate => he state (List.mem_singleton.mp hstate).symm⟩

end OnlyDown

theorem shutdownInLoop_onlyDown (c : TcpConnection) : OnlyDown c c.shutdownInLoop := by
  unfold shutdownInLoop
  split_ifs
  · exact .of_emit (by simp)
  · exact .of_log_eq rfl

theorem writeDirect_onlyDown (c : TcpConnection) (data : Bytes) (result : WriteResult) :
    OnlyDown c (c.writeDirect data result).1 := by
  unfold writeDirect
  split
  · dsimp only
    split_ifs
    · exact (OnlyDown.of_emit (by simp)).trans (.of_log_eq rfl)
    · exact .of_emit (by simp)
  · split_ifs <;> exact .of_log_eq rfl

theorem sendInLoop_onlyDown (c : TcpConnection) (data : Bytes) (result : WriteResult) :
    OnlyDown c (c.sendInLoop data result) := by
  have hwrite : OnlyDown c (if !c.channel_.isWriting ∧ c.outputBuffer_ = [] then
      c.writeDirect data result else (c, 0, 0)).1 := by
    split_ifs
    · exact c.writeDirect_onlyDown data result
    · exact .of_log_eq rfl
  unfold sendInLoop
  by_cases hs : c.state_ = .kDisconnected
  · rw [if_pos hs]
    exact .of_log_eq rfl
  · rw [if_neg hs]
    generalize (if !c.channel_.isWriting ∧ c.outputBuffer_ = [] then
      c.writeDirect data result else (c, 0, 0)) = p at hwrite ⊢
    dsimp only
    split_ifs
    · exact hwrite.trans (.of_log_eq rfl)
    · exact hwrite.trans (.of_log_eq rfl)
    · exact hwrite

theorem call_onlyDown (c : TcpConnection) (k : Call) : OnlyDown c (c.call k) := by
  cases k with
  | send message result =>
    unfold call send
    dsimp only
    split_ifs
    · exact (OnlyDown.of_emit (by simp)).trans (sendInLoop_onlyDown _ _ _)
    · exact .of_log_eq rfl
  | shutdown =>
    unfold call shutdown
    dsimp only
    split_ifs
    · exact OnlyDown.trans (.of_log_eq rfl) (shutdownInLoop_onlyDown _)
    · exact .of_log_eq rfl
  | consume len => exact .of_log_eq rfl

theorem callback_onlyDown (c : TcpConnection) : OnlyDown c c.callback := by
  have hcalls : ∀ (calls : List Call) (c : TcpConnection), OnlyDown c (calls.foldl call c) := by
    intro calls
    induction calls with
    | nil => exact fun c => .of_log_eq rfl
    | cons k calls ih => exact fun c => (c.call_onlyDown k).trans (ih (c.call k))
  unfold callback
  split
  · exact .of_log_eq rfl
  · exact OnlyDown.trans (.of_log_eq rfl) (hcalls _ _)

theorem invoke_onlyDown (c : TcpConnection) (isSet : Bool) {e : Event}
    (he : ∀ state, e = .connectionCallback state → state = .kDisconnected) :
    OnlyDown c (c.invoke isSet e) := by
  unfold invoke
  split_ifs
  · exact (OnlyDown.of_emit he).trans (callback_onlyDown _)
  · exact .of_log_eq rfl

theorem handleClose_onlyDown (c : TcpConnection) : OnlyDown c c.handleClose := by
  have hstate : OnlyDown c { c with state_ := .kDisconnected } := .of_log_eq rfl
  have hcallback : OnlyDown { c with state_ := .kDisconnected }
      (connectionCallback { c with state_ := .kDisconnected }) := invoke_onlyDown _ _ (by simp)
  exact (hstate.trans hcallback).trans (invoke_onlyDown _ _ (by simp))

theorem handleError_onlyDown (c : TcpConnection) : OnlyDown c c.handleError :=
  OnlyDown.trans (.of_log_eq rfl) (handleClose_onlyDown _)

/-- The loop of `handleRead`. By induction on the results of `readv`. -/
theorem readLoop_onlyDown (reads : List ReadResult) :
    ∀ c : TcpConnection, OnlyDown c (readLoop reads c) := by
  induction reads with
  | nil => exact fun c => .of_log_eq rfl
  | cons r reads ih =>
    intro c
    have he : OnlyDown c (c.emit (.readv r)) := .of_emit (by simp)
    refine he.trans ?_
    rcases r with ⟨_ | ⟨x, bytes⟩⟩ | errno
    · exact handleClose_onlyDown _
    · refine OnlyDown.trans ?_ (ih _)
      exact OnlyDown.trans (.of_log_eq rfl) (invoke_onlyDown _ _ (by simp))
    · simp only [readLoop]
      split_ifs
      · exact .of_log_eq rfl
      · exact handleClose_onlyDown _
      · exact handleError_onlyDown _

/-- The loop of `handleWrite`. By induction on the results of `write`. -/
theorem writeLoop_onlyDown (writes : List WriteResult) :
    ∀ c : TcpConnection, OnlyDown c (writeLoop writes c) := by
  have hdrained : ∀ c : TcpConnection, OnlyDown c c.drained := by
    intro c
    unfold drained
    dsimp only
    have hcallback : OnlyDown c
        (writeCompleteCallback { c with channel_ := c.channel_.disableWrite }) :=
      OnlyDown.trans (.of_log_eq rfl) (invoke_onlyDown _ _ (by simp))
    split_ifs
    · exact hcallback.trans (shutdownInLoop_onlyDown _)
    · exact hcallback
  have hfailed : ∀ (c : TcpConnection) (savedError : ℕ), OnlyDown c (c.writeFailed savedError) := by
    intro c savedError
    unfold writeFailed
    split_ifs
    · exact .of_log_eq rfl
    · exact .of_log_eq rfl
    · exact handleError_onlyDown c
  induction writes with
  | nil =>
    intro c
    unfold writeLoop
    split_ifs
    · exact hdrained c
    · exact hfailed c EAGAIN
  | cons r writes ih =>
    intro c
    unfold writeLoop
    split_ifs
    · exact hdrained c
    · refine OnlyDown.trans (.of_emit (e := .write r) (by simp)) ?_
      obtain ⟨_ | _ | n, errno⟩ := r
      · exact hfailed _ errno
      · exact hfailed _ errno
      · exact ((OnlyDown.of_emit (by simp)).trans (.of_log_eq rfl)).trans (ih _)

/-- One step of the loop thread. -/
theorem step_onlyDown (c : TcpConnection) (i : Input × Supply) : OnlyDown c (c.step i) := by
  have hsupply : OnlyDown c { c with supply := i.2 } := .of_log_eq rfl
  refine hsupply.trans ?_
  unfold step
  cases i.1 with
  | event revents =>
    refine Channel.handler_rel (R := OnlyDown) (fun c => .of_log_eq rfl) OnlyDown.trans ?_ ?_
      (fun c => readLoop_onlyDown _ c) ?_ revents _
    · exact fun c => (OnlyDown.of_emit (by simp)).trans (handleClose_onlyDown _)
    · exact fun c => (OnlyDown.of_emit (by simp)).trans (handleError_onlyDown _)
    · intro c
      unfold handleWrite
      split_ifs
      · exact writeLoop_onlyDown _ c
      · exact .of_log_eq rfl
  | call k => exact call_onlyDown _ k
  | task =>
    dsimp only
    split
    · exact .of_log_eq rfl
    · exact OnlyDown.trans (.of_log_eq rfl) (invoke_onlyDown _ _ (by simp))

/-- **In a run the connection callback is invoked in the disconnected state only.** By induction on
the run. -/
theorem run_onlyDown (inputs : List (Input × Supply)) :
    ∀ c : TcpConnection, OnlyDown c (c.run inputs) := by
  induction inputs with
  | nil => exact fun c => .of_log_eq rfl
  | cons i inputs ih => exact fun c => (c.step_onlyDown i).trans (ih (c.step i))

/-! ## The protocol -/

/-- The callbacks for reports with nothing after the end follow the protocol. -/
theorem callbackProtocol_of_pairwise (c : TcpConnection) {reports : List Report}
    (h : reports.Pairwise fun a _ => a ≠ .final) :
    CallbackProtocol (reports.flatMap c.reaction) := by
  induction reports with
  | nil => exact show CallbackProtocol [] by decide
  | cons r reports ih =>
    obtain ⟨hend, htail⟩ := pairwise_final_cons.mp h
    cases r with
    | final =>
      rw [hend rfl, List.flatMap_singleton]
      unfold reaction
      split_ifs <;> decide
    | data =>
      rw [List.flatMap_cons]
      by_cases hm : c.messageCallback_ = true
      · rw [show c.reaction .data = [.messageCallback] from if_pos hm]
        exact (ih htail).cons_messageCallback
      · rw [show c.reaction .data = [] from if_neg hm]
        exact ih htail

/-- When all callbacks are set, the callbacks for reports after the end break the protocol. -/
theorem pairwise_of_callbackProtocol (c : TcpConnection) (hc : c.connectionCallback_ = true)
    (hm : c.messageCallback_ = true) {reports : List Report}
    (h : CallbackProtocol (reports.flatMap c.reaction)) :
    reports.Pairwise fun a _ => a ≠ .final := by
  induction reports with
  | nil => exact List.Pairwise.nil
  | cons r reports ih =>
    refine pairwise_final_cons.mpr ⟨?_, ih (CallbackProtocol.of_append h)⟩
    rintro rfl
    by_contra hne
    obtain ⟨s, reports, rfl⟩ := List.exists_cons_of_ne_nil hne
    obtain ⟨h₁, -, h₃⟩ := h
    simp only [List.flatMap_cons, reaction, hc, if_true, List.cons_append, List.nil_append]
      at h₁ h₃
    cases s with
    | final =>
      rw [List.count_cons_self, List.count_append, List.count_append] at h₁
      simp at h₁
    | data =>
      have := (List.pairwise_cons.mp h₃).1 .messageCallback (by simp [hm]) rfl
      exact this rfl

/-- **The callback protocol**, from `connectionEstablished` to `connectionDestroyed`. Whatever
events occur and whatever the system calls return, the protocol is kept along the runs in which
the kernel reports nothing after the end; and when the callbacks are set, along no others. -/
theorem callback_protocol_iff_nothingAfterEnd (sockfd : ℕ)
    (connection message writeComplete close : Bool) (supply : Supply)
    (inputs : List (Input × Supply)) :
    let c := ((new sockfd connection message writeComplete close
      supply).connectionEstablished.run inputs)
    (NothingAfterEnd c.log → CallbackProtocol c.log ∧ CallbackProtocol c.connectionDestroyed.log) ∧
      (connection = true → message = true → CallbackProtocol c.log → NothingAfterEnd c.log) := by
  intro c
  set c₀ := new sockfd connection message writeComplete close supply
  have hest : Quiet c₀ c₀.connectionEstablished := by
    have h : Adds c₀ c₀.connectionEstablished _ [] :=
      (invoke_adds { c₀ with state_ := .kConnected, channel_ := c₀.channel_.enableRead }
        c₀.connectionCallback_ (e := .connectionCallback .kConnected) rfl).congr_left
        rfl rfl rfl rfl
    simpa [Event.isCallback] using h
  obtain ⟨reports, hrun⟩ := Balanced.trans (.of_quiet hest) (run_balanced inputs _)
  obtain ⟨added, hlog, hcall, hrep⟩ := hrun.log_eq
  have hlog' : c.log = added := hlog
  have hiff : CallbackProtocol c.log ↔ CallbackProtocol (reports.flatMap c₀.reaction) := by
    rw [hlog', ← callbackProtocol_filter, hcall]
  have hend : NothingAfterEnd c.log ↔ reports.Pairwise fun a _ => a ≠ .final := by
    rw [hlog', NothingAfterEnd, hrep]
  refine ⟨fun h => ?_, fun hc hm h => ?_⟩
  · have := hiff.mpr (c₀.callbackProtocol_of_pairwise (hend.mp h))
    exact ⟨this, this⟩
  · exact hend.mpr (c₀.pairwise_of_callbackProtocol hc hm (hiff.mp h))

/-- A connection that reads data and then the end of the stream. -/
theorem callback_protocol_iff_nothingAfterEnd_eof :
    CallbackProtocol ((new 5 true true true true {}).connectionEstablished.run
      [(.event EPOLLIN, { reads := [.data [104, 105], .data []] })]).log :=
  ((callback_protocol_iff_nothingAfterEnd 5 true true true true {} _).1 (by decide)).1

/-- One event with `EPOLLERR` and `EPOLLHUP` closes the connection twice. -/
theorem not_callbackProtocol_error_hangUp :
    ¬ CallbackProtocol ((new 5 true true true true {}).connectionEstablished.run
      [(.event (EPOLLERR ||| EPOLLHUP), {})]).log := by
  decide

end TcpConnection

end LouisNet.Net
