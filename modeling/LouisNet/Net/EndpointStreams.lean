import LouisNet.Net.Endpoint
import LouisNet.Net.TcpConnectionOvertaking

set_option relaxedAutoImplicit false
set_option autoImplicit false

/-!
# The streams of an endpoint

The bytes that go through an endpoint, in both directions. What the connection has read, followed
by what waits in the socket, is what has arrived. What it has written is what has been carried
away, followed by what waits in the socket; it is the beginning of what was accepted, and the rest
waits in the output buffer as long as the connection was not reset.

With the invariant of the edge-triggered handlers this says what an endpoint that has nothing more
to do has done: it has read everything, and has written everything for which there is room.

## Main definitions

* `LouisNet.Net.received` — the bytes read from the socket.
* `LouisNet.Net.Endpoint.Streams` — where the bytes of both directions are.
* `LouisNet.Net.Endpoint.Settled` — the loop thread has nothing to do.

## Main results

* `LouisNet.Net.Endpoint.streams_step` — one step moves bytes and loses none.
* `LouisNet.Net.Endpoint.received_of_settled` — all that has arrived has been read.
* `LouisNet.Net.Endpoint.written_of_settled` — all that was accepted has been written, or there is
  no room for it.
-/

namespace LouisNet.Net

open Lib Reactor

/-! ## The bytes of a log -/

/-- The bytes read from the socket. -/
def received (log : List Event) : Bytes :=
  log.flatMap fun
    | .readv (.data bytes) => bytes
    | _ => []

/-- The event moves no bytes. -/
def Event.Still (e : Event) : Prop :=
  received [e] = [] ∧ written [e] = [] ∧ Net.accepted [e] = []

/-- What was received in two logs. -/
@[simp] theorem received_append (log log' : List Event) :
    received (log ++ log') = received log ++ received log' := List.flatMap_append

/-- What was written in two logs. -/
@[simp] theorem written_append (log log' : List Event) :
    written (log ++ log') = written log ++ written log' := List.flatMap_append

/-- What was accepted in two logs. -/
@[simp] theorem accepted_append (log log' : List Event) :
    accepted (log ++ log') = accepted log ++ accepted log' := List.flatMap_append

namespace Endpoint

/-- What a connection has read, written and accepted, and what waits in it to be written. -/
def traffic (c : TcpConnection) : Bytes × Bytes × Bytes × Bytes :=
  (received c.log, written c.log, accepted c.log, c.outputBuffer_)

/-- An event that moves no bytes. -/
theorem traffic_emit (c : TcpConnection) {e : Event} (he : e.Still) :
    traffic (c.emit e) = traffic c := by
  obtain ⟨hreceived, hwritten, haccepted⟩ := he
  simp [traffic, TcpConnection.emit, hreceived, hwritten, haccepted]

/-- The end of the write side moves no bytes. -/
theorem traffic_shutdownInLoop (c : TcpConnection) : traffic c.shutdownInLoop = traffic c := by
  unfold TcpConnection.shutdownInLoop
  split_ifs
  · exact traffic_emit c ⟨rfl, rfl, rfl⟩
  · rfl

/-- `shutdown` moves no bytes. -/
theorem traffic_shutdown (c : TcpConnection) : traffic c.shutdown = traffic c := by
  unfold TcpConnection.shutdown
  split_ifs
  · exact traffic_shutdownInLoop { c with state_ := .kDisconnecting }
  · rfl

/-- A callback moves no bytes when it is invoked. -/
theorem traffic_invoke (w : Endpoint) (isSet : Bool) {e : Event} (he : e.Still) (next : Point) :
    traffic (w.invoke isSet e next).conn = traffic w.conn := by
  unfold invoke
  cases isSet
  · rfl
  · exact traffic_emit w.conn he

/-- Closing moves no bytes. -/
theorem traffic_handleClose (w : Endpoint) (next : Point) :
    traffic (w.handleClose next).conn = traffic w.conn :=
  traffic_invoke { w with conn := { w.conn with state_ := .kDisconnected } } _ ⟨rfl, rfl, rfl⟩ _

/-- An error moves no bytes. -/
theorem traffic_handleError (w : Endpoint) (next : Point) :
    traffic (w.handleError next).conn = traffic w.conn :=
  traffic_handleClose { w with conn := { w.conn with error_ := w.kernel.error } } next

/-! ## Sending -/

/-- The part of a message that a `write` with the given result has taken. -/
def takenBy (message : Bytes) (result : WriteResult) : Bytes :=
  match result.ret with
  | some n => message.take n
  | none => []

/-- The kernel appends what a `write` has taken. -/
theorem sendQueue_write {k k' : Kernel} {data : Bytes} {result : WriteResult} {room : Bool}
    (h : k.write data result room = some k') :
    k'.sendQueue = k.sendQueue ++ takenBy data result ∧ k'.recvQueue = k.recvQueue ∧
      k'.broken = k.broken ∧ (k.broken = true → takenBy data result = []) ∧
      (k.broken = false → result.ret = none → result.errno = EAGAIN) := by
  unfold Kernel.write at h
  unfold takenBy
  cases hret : result.ret with
  | some n =>
    rw [hret] at h
    simp only [assert_eq_some_iff, Option.some.injEq] at h
    obtain ⟨⟨hbroken, -⟩, rfl⟩ := h
    simp [hbroken]
  | none =>
    rw [hret] at h
    simp only [assert_eq_some_iff, Option.some.injEq] at h
    obtain ⟨hresult, rfl⟩ := h
    refine ⟨by simp, rfl, rfl, fun _ => rfl, fun hbroken _ => ?_⟩
    by_contra hne
    rw [if_neg hne, hbroken] at hresult
    exact Bool.false_ne_true hresult.1

/-- A message that is not written directly is not written. -/
theorem send_of_not_direct {c : TcpConnection} (hc : ¬ writesDirectly c = true) (message : Bytes)
    (result result' : WriteResult) : c.send message result = c.send message result' := by
  unfold TcpConnection.send
  split_ifs with hs
  · have hnot : ¬ (!(c.emit (.accepted message)).channel_.isWriting ∧
        (c.emit (.accepted message)).outputBuffer_ = []) := by
      rintro ⟨hw, hnil⟩
      refine hc ?_
      have hw' : c.channel_.isWriting = false := (Bool.not_eq_true' _).mp hw
      have hnil' : c.outputBuffer_ = [] := hnil
      simp [writesDirectly, hs, hw', hnil']
    unfold TcpConnection.sendInLoop
    rw [if_neg hnot, if_neg hnot]
  · rfl

/-- What a direct `write` adds to the log. -/
theorem log_writeDirect (c : TcpConnection) (message : Bytes) (result : WriteResult) :
    written (c.writeDirect message result).1.log = written c.log ++ takenBy message result ∧
      received (c.writeDirect message result).1.log = received c.log := by
  have htake : ∀ n, message.take (min n message.length) = message.take n := fun n => by
    rw [List.take_eq_take_iff]
    omega
  unfold TcpConnection.writeDirect takenBy
  cases hret : result.ret with
  | some n =>
    dsimp only
    split_ifs <;> simp [TcpConnection.emit, htake, written, received]
  | none =>
    dsimp only
    split_ifs <;> simp

/-- What a message adds to what is written. -/
theorem log_send (c : TcpConnection) (message : Bytes) (result : WriteResult) :
    written (c.send message result).log = written c.log ++
      (if writesDirectly c then takenBy message result else []) ∧
    received (c.send message result).log = received c.log := by
  have hemit : written (c.emit (.accepted message)).log = written c.log ∧
      received (c.emit (.accepted message)).log = received c.log := by
    simp [TcpConnection.emit, written, received]
  unfold TcpConnection.send
  by_cases hs : c.state_ = .kConnected
  · have hup : (c.emit (.accepted message)).state_ ≠ .kDisconnected := by
      show c.state_ ≠ _
      rw [hs]
      decide
    rw [if_pos hs]
    unfold TcpConnection.sendInLoop
    rw [if_neg hup]
    by_cases hdirect : writesDirectly c = true
    · have hifs : !(c.emit (.accepted message)).channel_.isWriting ∧
          (c.emit (.accepted message)).outputBuffer_ = [] := by
        simp only [writesDirectly, Bool.and_eq_true, decide_eq_true_eq] at hdirect
        exact ⟨hdirect.1.2, hdirect.2⟩
      obtain ⟨hwritten, hreceived⟩ := log_writeDirect (c.emit (.accepted message)) message result
      rw [if_pos hifs, if_pos hdirect, ← hemit.1, ← hemit.2, ← hwritten, ← hreceived]
      dsimp only
      split_ifs <;> exact ⟨rfl, rfl⟩
    · have hifs : ¬ (!(c.emit (.accepted message)).channel_.isWriting ∧
          (c.emit (.accepted message)).outputBuffer_ = []) := by
        rintro ⟨hw, hnil⟩
        have hw' : c.channel_.isWriting = false := (Bool.not_eq_true' _).mp hw
        have hnil' : c.outputBuffer_ = [] := hnil
        exact hdirect (by simp [writesDirectly, hs, hw', hnil'])
      rw [if_neg hifs, if_neg hdirect, List.append_nil, ← hemit.1, ← hemit.2]
      dsimp only
      split_ifs <;> exact ⟨rfl, rfl⟩
  · rw [if_neg hs, if_neg (by simp [writesDirectly, hs]), List.append_nil]
    exact ⟨rfl, rfl⟩

/-- A message that is not lost is written and buffered as a whole. -/
theorem stream_send {c : TcpConnection} (hs : c.state_ = .kConnected) (message : Bytes)
    {result : WriteResult}
    (hsound : result.ret = none → result.errno ≠ EPIPE ∧ result.errno ≠ ECONNRESET) :
    written (c.send message result).log ++ (c.send message result).outputBuffer_ =
      written c.log ++ c.outputBuffer_ ++ message := by
  have hup : (c.emit (.accepted message)).state_ ≠ .kDisconnected := by
    show c.state_ ≠ _
    rw [hs]
    decide
  have hsend : c.send message result = (c.emit (.accepted message)).sendInLoop message result :=
    if_pos hs
  have hwritten : written (c.emit (.accepted message)).log = written c.log := by
    simp [TcpConnection.emit, written]
  rw [hsend, ← hwritten]
  exact TcpConnection.stream_sendInLoop hup message hsound

/-! ## Where the bytes are -/

/-- The bytes that arrive in a step. -/
def Input.arriving : Input → Bytes
  | .kernel (.arrive bytes _) => bytes
  | _ => []

/-- The bytes that are carried away in a step. -/
def carrying (w : Endpoint) : Input → Bytes
  | .kernel (.drain n _ _) => w.kernel.sendQueue.take n
  | _ => []

/-- **Where the bytes are**, of those that have arrived and those that were accepted. -/
structure Streams (w : Endpoint) (arrived carried : Bytes) : Prop where
  received : received w.conn.log ++ w.kernel.recvQueue = arrived
  written : written w.conn.log = carried ++ w.kernel.sendQueue
  inOrder : Net.written w.conn.log <+: accepted w.conn.log
  whole : w.kernel.broken = false →
    Net.written w.conn.log ++ w.conn.outputBuffer_ = accepted w.conn.log

variable {w w' : Endpoint} {arrived carried : Bytes}

/-- A step that moves no bytes. -/
theorem Streams.still (h : w.Streams arrived carried) (htraffic : traffic w'.conn = traffic w.conn)
    (hrecv : w'.kernel.recvQueue = w.kernel.recvQueue)
    (hsend : w'.kernel.sendQueue = w.kernel.sendQueue)
    (hbroken : w'.kernel.broken = false → w.kernel.broken = false) :
    w'.Streams arrived carried := by
  simp only [traffic, Prod.mk.injEq] at htraffic
  obtain ⟨hreceived, hwritten, haccepted, houtput⟩ := htraffic
  refine ⟨?_, ?_, ?_, fun hb => ?_⟩
  · rw [hreceived, hrecv]
    exact h.received
  · rw [hwritten, hsend]
    exact h.written
  · rw [hwritten, haccepted]
    exact h.inOrder
  · rw [hwritten, haccepted, houtput]
    exact h.whole (hbroken hb)

/-- A step of the kernel keeps the streams together. -/
theorem Streams.kernelStep (h : w.Streams arrived carried) {i : Kernel.Input} {k : Kernel}
    (hk : w.kernel.step w.conn.channel_ i = some k) :
    Streams { w with kernel := k } (arrived ++ Input.arriving (.kernel i))
      (carried ++ w.carrying (.kernel i)) := by
  cases i with
  | arrive bytes edge =>
    simp only [Kernel.step, assert_eq_some_iff, Option.some.injEq] at hk
    obtain ⟨-, rfl⟩ := hk
    refine ⟨?_, by simpa [carrying] using h.written, h.inOrder, h.whole⟩
    rw [← h.received, List.append_assoc]
    rfl
  | close edge =>
    simp only [Kernel.step, assert_eq_some_iff, Option.some.injEq] at hk
    obtain ⟨-, rfl⟩ := hk
    simp only [Input.arriving, carrying, List.append_nil]
    exact h.still rfl rfl rfl id
  | reset errno =>
    simp only [Kernel.step, assert_eq_some_iff, Option.some.injEq] at hk
    obtain ⟨-, rfl⟩ := hk
    simp only [Input.arriving, carrying, List.append_nil]
    exact h.still rfl rfl rfl fun hb => absurd hb (by simp)
  | drain n room edge =>
    simp only [Kernel.step, assert_eq_some_iff, Option.some.injEq] at hk
    obtain ⟨-, rfl⟩ := hk
    refine ⟨by simpa [Input.arriving] using h.received, ?_, h.inOrder, h.whole⟩
    show Net.written w.conn.log =
      carried ++ w.kernel.sendQueue.take n ++ w.kernel.sendQueue.drop n
    rw [List.append_assoc, List.take_append_drop]
    exact h.written

/-- A message is accepted as a whole; a part of it may be written, and the rest waits, unless the
connection was reset. -/
theorem Streams.send (h : w.Streams arrived carried) {message : Bytes} {result : WriteResult}
    {room : Bool} (hw' : w.send message result room = some w') : w'.Streams arrived carried := by
  obtain ⟨hwritten, hreceived⟩ := log_send w.conn message result
  obtain ⟨-, haccepted⟩ := w.conn.accepted_send message result
  unfold Endpoint.send at hw'
  by_cases hdirect : writesDirectly w.conn = true
  · rw [if_pos hdirect] at hw' hwritten
    obtain ⟨k, hk, rfl⟩ := Option.map_eq_some_iff.mp hw'
    obtain ⟨hsend, hrecv, hbroken, hfailed, hagain⟩ := sendQueue_write hk
    have hs : w.conn.state_ = .kConnected := by
      simp only [writesDirectly, Bool.and_eq_true, decide_eq_true_eq] at hdirect
      exact hdirect.1.1
    have hkernel : ∀ k' : Kernel, k'.sendQueue = k.sendQueue → k'.recvQueue = k.recvQueue →
        k'.broken = k.broken →
        Streams ⟨w.conn.send message result, k', w.point, w.inCallback⟩ arrived carried := by
      intro k' hsend' hrecv' hbroken'
      have hwhole : w.kernel.broken = false → Net.written (w.conn.send message result).log ++
          (w.conn.send message result).outputBuffer_ =
            accepted (w.conn.send message result).log := by
        intro hb
        have hsound : result.ret = none → result.errno ≠ EPIPE ∧ result.errno ≠ ECONNRESET := by
          intro hret
          rw [hagain hb hret]
          decide
        rw [haccepted, if_pos hs, ← h.whole hb]
        exact stream_send hs message hsound
      refine ⟨?_, ?_, ?_, fun hb => hwhole (by rw [← hbroken, ← hbroken']; exact hb)⟩
      · rw [hreceived, hrecv', hrecv]
        exact h.received
      · rw [hwritten, h.written, hsend', hsend, List.append_assoc]
      · by_cases hb : w.kernel.broken = true
        · rw [hwritten, hfailed hb, List.append_nil, haccepted]
          exact h.inOrder.trans (List.prefix_append _ _)
        · rw [← hwhole (by simpa using hb)]
          exact List.prefix_append _ _
    split_ifs
    · exact hkernel _ rfl rfl rfl
    · exact hkernel _ rfl rfl rfl
  · rw [if_neg hdirect] at hw'
    obtain rfl := Option.some.inj hw'
    rw [if_neg hdirect, List.append_nil] at hwritten
    refine ⟨by rw [hreceived]; exact h.received, by rw [hwritten]; exact h.written, ?_, ?_⟩
    · rw [hwritten, haccepted]
      exact h.inOrder.trans (List.prefix_append _ _)
    · intro hb
      by_cases hs : w.conn.state_ = .kConnected
      · rw [haccepted, if_pos hs, ← h.whole hb,
          send_of_not_direct hdirect message result ⟨some 0, 0⟩]
        exact stream_send hs message (by simp)
      · rw [send_of_not_connected hs]
        exact h.whole hb

/-- The loop of `handleRead` moves what it has read. -/
theorem Streams.readv (h : w.Streams arrived carried) {revents : UInt32} {result : ReadResult}
    {k : Kernel} (hk : w.kernel.readv result = some k) :
    (afterRead { w with kernel := k } revents result).Streams arrived carried := by
  cases result with
  | data bytes =>
    cases bytes with
    | nil =>
      simp only [Kernel.readv, assert_eq_some_iff, Option.some.injEq] at hk
      obtain ⟨-, rfl⟩ := hk
      refine h.still ((traffic_handleClose _ _).trans ?_) rfl rfl id
      exact traffic_emit w.conn ⟨rfl, rfl, rfl⟩
    | cons x bytes =>
      simp only [Kernel.readv, assert_eq_some_iff, Option.some.injEq] at hk
      obtain ⟨⟨rest, hrest⟩, rfl⟩ := hk
      have hread : Streams { w with
          conn := { w.conn.emit (.readv (.data (x :: bytes))) with
            inputBuffer_ := w.conn.inputBuffer_ ++ (x :: bytes) }
          kernel := { w.kernel with
            recvQueue := w.kernel.recvQueue.drop (x :: bytes).length } } arrived carried := by
        refine ⟨?_, ?_, ?_, fun hb => ?_⟩
        · show Net.received (w.conn.log ++ [_]) ++ _ = _
          rw [received_append, List.append_assoc, ← h.received, ← hrest, List.drop_left]
          simp [Net.received]
        · show Net.written (w.conn.log ++ [_]) = _
          rw [written_append, h.written]
          simp [Net.written]
        · show Net.written (w.conn.log ++ [_]) <+: accepted (w.conn.log ++ [_])
          rw [written_append, accepted_append]
          simpa [Net.written, accepted] using h.inOrder
        · show Net.written (w.conn.log ++ [_]) ++ w.conn.outputBuffer_ = accepted (w.conn.log ++ [_])
          rw [written_append, accepted_append]
          simpa [Net.written, accepted] using h.whole hb
      exact hread.still (traffic_invoke { w with
          conn := { w.conn.emit (.readv (.data (x :: bytes))) with
            inputBuffer_ := w.conn.inputBuffer_ ++ (x :: bytes) }
          kernel := { w.kernel with
            recvQueue := w.kernel.recvQueue.drop (x :: bytes).length } } _ ⟨rfl, rfl, rfl⟩ _)
        rfl rfl id
  | error errno =>
    simp only [Kernel.readv, assert_eq_some_iff, Option.some.injEq] at hk
    obtain ⟨-, rfl⟩ := hk
    have hemit := traffic_emit w.conn (e := .readv (.error errno)) ⟨rfl, rfl, rfl⟩
    unfold afterRead
    dsimp only
    split_ifs
    · exact h.still hemit rfl rfl id
    · exact h.still ((traffic_handleClose _ _).trans hemit) rfl rfl id
    · exact h.still ((traffic_handleError _ _).trans hemit) rfl rfl id

/-- The loop thread goes on without moving bytes. -/
theorem Streams.go (h : w.Streams arrived carried) {point : Point} (hw' : w.go point = some w') :
    w'.Streams arrived carried := by
  cases point with
  | idle | readLoop revents => cases hw'
  | error revents =>
    simp only [Endpoint.go] at hw'
    split_ifs at hw'
    · obtain rfl := Option.some.inj hw'
      refine h.still ((traffic_handleError _ _).trans ?_) rfl rfl id
      exact traffic_emit w.conn ⟨rfl, rfl, rfl⟩
    · obtain rfl := Option.some.inj hw'
      exact h.still rfl rfl rfl id
  | read revents | write revents =>
    simp only [Endpoint.go] at hw'
    split_ifs at hw'
    · obtain rfl := Option.some.inj hw'
      exact h.still rfl rfl rfl id
    · obtain rfl := Option.some.inj hw'
      exact h.still rfl rfl rfl id
  | writeLoop =>
    simp only [Endpoint.go, assert_eq_some_iff, Option.some.injEq] at hw'
    obtain ⟨-, rfl⟩ := hw'
    exact h.still (traffic_invoke w.disableWrite _ ⟨rfl, rfl, rfl⟩ _) rfl rfl id
  | drained =>
    simp only [Endpoint.go, Option.some.injEq] at hw'
    subst hw'
    refine h.still ?_ rfl rfl id
    dsimp only
    split_ifs
    · exact traffic_shutdownInLoop w.conn
    · rfl
  | close next =>
    simp only [Endpoint.go, Option.some.injEq] at hw'
    subst hw'
    exact h.still (traffic_invoke w _ ⟨rfl, rfl, rfl⟩ _) rfl rfl id

/-- The loop of `handleWrite` moves what it has written. -/
theorem Streams.write_result (h : w.Streams arrived carried) (hne : w.conn.outputBuffer_ ≠ [])
    {result : WriteResult} {room : Bool} {k : Kernel}
    (hk : w.kernel.write w.conn.outputBuffer_ result room = some k) :
    (afterWrite { w with kernel := k } result).Streams arrived carried := by
  obtain ⟨hsend, hrecv, hbroken, hfailed, -⟩ := sendQueue_write hk
  have hemit := traffic_emit w.conn (e := .write result) ⟨rfl, rfl, rfl⟩
  have hb : k.broken = false → w.kernel.broken = false := fun hb => by rw [← hbroken, hb]
  obtain ⟨_ | _ | n, errno⟩ := result
  · have hsend' : k.sendQueue = w.kernel.sendQueue := by rw [hsend, takenBy, List.append_nil]
    unfold afterWrite
    dsimp only
    split_ifs
    · exact h.still hemit hrecv hsend' hb
    · exact h.still hemit hrecv hsend' hb
    · exact h.still ((traffic_handleError _ _).trans hemit) hrecv hsend' hb
  · simp only [Kernel.write, assert_eq_some_iff] at hk
    exact absurd (hk.1.2.2.1 hne) (lt_irrefl 0)
  · simp only [Kernel.write, assert_eq_some_iff] at hk
    obtain ⟨⟨hup, hlength, -⟩, -⟩ := hk
    have hmin : min (n + 1) w.conn.outputBuffer_.length = n + 1 := Nat.min_eq_left hlength
    have hstream : Net.written w.conn.log ++ w.conn.outputBuffer_.take (n + 1) ++
        w.conn.outputBuffer_.drop (n + 1) = accepted w.conn.log := by
      rw [List.append_assoc, List.take_append_drop]
      exact h.whole hup
    have hlog : ∀ e : Event, e = .write ⟨some (n + 1), errno⟩ →
        Net.written ((w.conn.log ++ [e]) ++ [.wrote (w.conn.outputBuffer_.take (n + 1))]) =
          Net.written w.conn.log ++ w.conn.outputBuffer_.take (n + 1) ∧
        Net.received ((w.conn.log ++ [e]) ++ [.wrote (w.conn.outputBuffer_.take (n + 1))]) =
          Net.received w.conn.log ∧
        accepted ((w.conn.log ++ [e]) ++ [.wrote (w.conn.outputBuffer_.take (n + 1))]) =
          accepted w.conn.log := by
      rintro e rfl
      simp [Net.written, Net.received, accepted]
    obtain ⟨hwritten, hreceived, haccepted⟩ := hlog _ rfl
    have hshow : afterWrite { w with kernel := k } ⟨some (n + 1), errno⟩ = { w with
        kernel := k
        conn := { w.conn with
          outputBuffer_ := w.conn.outputBuffer_.drop (n + 1)
          log := (w.conn.log ++ [.write ⟨some (n + 1), errno⟩]) ++
            [.wrote (w.conn.outputBuffer_.take (n + 1))] } } := by
      simp only [afterWrite, TcpConnection.emit, hmin]
    rw [hshow]
    refine ⟨?_, ?_, ?_, fun _ => ?_⟩
    · rw [hreceived, hrecv]
      exact h.received
    · rw [hwritten, hsend, h.written, List.append_assoc]
      rfl
    · rw [hwritten, haccepted, ← hstream]
      exact List.prefix_append _ _
    · rw [hwritten, haccepted]
      exact hstream

/-- **One step moves bytes and loses none.** -/
theorem streams_step (h : w.Streams arrived carried) {i : Input} (hs : step w i = some w') :
    w'.Streams (arrived ++ i.arriving) (carried ++ w.carrying i) := by
  cases i with
  | kernel i =>
    obtain ⟨k, hk, rfl⟩ := Option.map_eq_some_iff.mp hs
    exact h.kernelStep hk
  | poll revents =>
    simp only [Input.arriving, carrying, List.append_nil]
    obtain ⟨-, hw'⟩ := assert_eq_some_iff.mp hs
    obtain ⟨k, hk, rfl⟩ := Option.map_eq_some_iff.mp hw'
    simp only [Kernel.epollWait, assert_eq_some_iff, Option.some.injEq] at hk
    obtain ⟨-, rfl⟩ := hk
    unfold handleEvents
    split_ifs
    · refine h.still ((traffic_handleClose _ _).trans ?_) rfl rfl id
      exact traffic_emit w.conn ⟨rfl, rfl, rfl⟩
    · exact h.still rfl rfl rfl id
  | task =>
    simp only [Input.arriving, carrying, List.append_nil]
    obtain ⟨-, hw'⟩ := assert_eq_some_iff.mp hs
    obtain rfl := Option.some.inj hw'
    exact h.still (traffic_invoke { w with conn := { w.conn with tasks := w.conn.tasks - 1 } } _
      ⟨rfl, rfl, rfl⟩ _) rfl rfl id
  | call k room =>
    simp only [Input.arriving, carrying, List.append_nil]
    obtain ⟨-, hw'⟩ := assert_eq_some_iff.mp hs
    cases k with
    | send message result => exact h.send hw'
    | shutdown =>
      obtain rfl := Option.some.inj hw'
      exact h.still (traffic_shutdown w.conn) rfl rfl id
    | consume len =>
      obtain rfl := Option.some.inj hw'
      exact h.still rfl rfl rfl id
  | ret =>
    simp only [Input.arriving, carrying, List.append_nil]
    obtain ⟨-, hw'⟩ := assert_eq_some_iff.mp hs
    obtain rfl := Option.some.inj hw'
    exact h.still rfl rfl rfl id
  | go =>
    simp only [Input.arriving, carrying, List.append_nil]
    obtain ⟨-, hw'⟩ := assert_eq_some_iff.mp hs
    exact h.go hw'
  | readv result =>
    simp only [Input.arriving, carrying, List.append_nil]
    obtain ⟨-, hw'⟩ := assert_eq_some_iff.mp hs
    split at hw'
    · obtain ⟨k, hk, rfl⟩ := Option.map_eq_some_iff.mp hw'
      exact h.readv hk
    · cases hw'
  | write result room =>
    simp only [Input.arriving, carrying, List.append_nil]
    obtain ⟨⟨-, -, hne⟩, hw'⟩ := assert_eq_some_iff.mp hs
    obtain ⟨k, hk, rfl⟩ := Option.map_eq_some_iff.mp hw'
    exact h.write_result hne hk

/-- **A run moves bytes and loses none.** By induction on the run. -/
theorem streams_run {steps : List Input} (hrun : run step w steps = some w')
    (h : w.Streams arrived carried) :
    ∃ more, w'.Streams (arrived ++ steps.flatMap Input.arriving) (carried ++ more) := by
  induction steps generalizing w arrived carried with
  | nil =>
    obtain rfl : w = w' := by simpa [run] using hrun
    exact ⟨[], by simpa using h⟩
  | cons i steps ih =>
    obtain ⟨v, hv, hrun⟩ := run_cons hrun
    obtain ⟨more, hmore⟩ := ih hrun (streams_step h hv)
    refine ⟨w.carrying i ++ more, ?_⟩
    rw [List.flatMap_cons, ← List.append_assoc, ← List.append_assoc]
    exact hmore

/-- Nothing has moved through a connection that has just been established. -/
theorem streams_established (sockfd : ℕ) (connection message writeComplete close : Bool)
    {kernel : Kernel} (hfresh : kernel.sendQueue = []) :
    (established sockfd connection message writeComplete close kernel).Streams
      kernel.recvQueue [] := by
  have hstreams : ∀ c : TcpConnection, traffic c = ([], [], [], []) →
      Streams ⟨c, kernel.epollCtl (Channel.enableRead { fd_ := sockfd }), .idle, connection⟩
        kernel.recvQueue [] := by
    intro c htraffic
    simp only [traffic, Prod.mk.injEq] at htraffic
    obtain ⟨hreceived, hwritten, haccepted, houtput⟩ := htraffic
    refine ⟨by rw [hreceived]; rfl, ?_, ?_, fun _ => ?_⟩
    · rw [hwritten]
      exact hfresh.symm
    · rw [hwritten, haccepted]
    · rw [hwritten, haccepted, houtput]
      rfl
  cases connection
  · exact hstreams _ rfl
  · exact hstreams _ rfl

/-! ## Endpoints that have nothing more to do -/

/-- The loop thread waits in `epoll_wait`, and the descriptor is not on the ready list. -/
def Settled (w : Endpoint) : Prop :=
  w.inCallback = false ∧ w.point = .idle ∧ w.kernel.pending = false

instance (w : Endpoint) : Decidable w.Settled := inferInstanceAs (Decidable (_ ∧ _ ∧ _))

/-- A socket through which nothing has been written yet. -/
def Kernel.Fresh (k : Kernel) : Prop := k.sendQueue = [] ∧ k.room = true

section Settled

variable {sockfd : ℕ} {connection message writeComplete close : Bool} {kernel : Kernel}
  {steps : List Input}

/-- An endpoint that is settled is not ready. -/
theorem Attentive.not_ready (h : w.Attentive) (hsettled : w.Settled) :
    w.kernel.readable = false ∧
      (w.conn.outputBuffer_ ≠ [] → w.kernel.writable = false) := by
  obtain ⟨-, hpoint, hpending⟩ := hsettled
  have hnot : ¬ w.kernel.pending = true := by simp [hpending]
  constructor
  · exact Bool.eq_false_iff.mpr (h.read.low hnot (by rw [hpoint]; exact Bool.false_ne_true))
  · intro hne
    have hlow := h.write.low hnot (by rw [hpoint]; exact Bool.false_ne_true)
    exact Bool.eq_false_iff.mpr fun hwritable => hlow ⟨hne, hwritable⟩

/-- **No input is left behind.** Whatever arrives while the handlers and the code of the user run,
between any two of their system calls: when the loop thread waits in `epoll_wait`, with nothing on
the ready list, and the connection is up, then all the bytes that have arrived were read, in their
order, and the peer has not closed or reset the connection. -/
theorem received_of_settled (hfresh : Kernel.Fresh kernel)
    (h : run step (established sockfd connection message writeComplete close kernel) steps = some w)
    (hup : w.conn.state_ ≠ .kDisconnected) (hsettled : w.Settled) :
    received w.conn.log = kernel.recvQueue ++ steps.flatMap Input.arriving ∧
      w.kernel.fin = false ∧ w.kernel.broken = false := by
  obtain ⟨hreadable, -⟩ := (attentive_run (fun _ => hfresh.2) h hup).not_ready hsettled
  obtain ⟨more, hstreams⟩ := streams_run h
    (streams_established sockfd connection message writeComplete close hfresh.1)
  simp only [Kernel.readable, Bool.or_eq_false_iff, Bool.not_eq_false', List.isEmpty_iff]
    at hreadable
  obtain ⟨⟨hnil, hfin⟩, hbroken⟩ := hreadable
  refine ⟨?_, hfin, hbroken⟩
  rw [← hstreams.received, hnil, List.append_nil]

/-- Bytes arrive in the middle of `handleRead`, before its last `readv`. -/
theorem received_of_settled_interrupted : ∃ w : Endpoint,
    run step (established 5 true true true true { recvQueue := [1] })
      [.ret, .poll EPOLLIN, .go, .go, .readv (.data [1]), .kernel (.arrive [2, 3] true), .ret,
        .readv (.data [2]), .ret, .readv (.data [3]), .ret, .readv (.error EAGAIN), .go,
        .poll 0, .go, .go, .go] = some w ∧ received w.conn.log = [1, 2, 3] := by
  have hrun : (run step (established 5 true true true true { recvQueue := [1] })
      [.ret, .poll EPOLLIN, .go, .go, .readv (.data [1]), .kernel (.arrive [2, 3] true), .ret,
        .readv (.data [2]), .ret, .readv (.data [3]), .ret, .readv (.error EAGAIN), .go,
        .poll 0, .go, .go, .go]).any (fun w => w.conn.state_ = .kConnected ∧ w.Settled) = true := by
    decide +kernel
  obtain ⟨w, hw, hstate⟩ := (Option.any_eq_true _ _).mp hrun
  obtain ⟨hconnected, hsettled⟩ := of_decide_eq_true hstate
  refine ⟨w, hw, (received_of_settled ⟨rfl, rfl⟩ hw ?_ hsettled).1⟩
  rw [hconnected]
  decide

/-- **No output is left behind.** However little of a message the socket takes, and whenever the
network makes room: when the loop thread waits in `epoll_wait`, with nothing on the ready list, and
the connection is up, then what was written followed by what waits is what was accepted; if
something waits, there is no room for it; and a shutdown that was asked for has been made once
nothing waits. -/
theorem written_of_settled (hfresh : Kernel.Fresh kernel)
    (h : run step (established sockfd connection message writeComplete close kernel) steps = some w)
    (hup : w.conn.state_ ≠ .kDisconnected) (hsettled : w.Settled) :
    written w.conn.log ++ w.conn.outputBuffer_ = accepted w.conn.log ∧
      (w.conn.outputBuffer_ ≠ [] → w.kernel.room = false ∧ w.kernel.sendQueue ≠ []) ∧
      (w.conn.state_ = .kDisconnecting → w.conn.outputBuffer_ = [] →
        .shutdownWrite ∈ w.conn.log) := by
  have hattentive := attentive_run (fun _ => hfresh.2) h hup
  obtain ⟨hreadable, hwritable⟩ := hattentive.not_ready hsettled
  obtain ⟨more, hstreams⟩ := streams_run h
    (streams_established sockfd connection message writeComplete close hfresh.1)
  have hbroken : w.kernel.broken = false := by
    simp only [Kernel.readable, Bool.or_eq_false_iff] at hreadable
    exact hreadable.2
  refine ⟨hstreams.whole hbroken, fun hne => ?_, fun hs hnil => ?_⟩
  · have hroom := hwritable hne
    simp only [Kernel.writable, Bool.or_eq_false_iff] at hroom
    refine ⟨hroom.1, fun hempty => ?_⟩
    have hfull := hattentive.room hempty
    rw [hroom.1] at hfull
    exact Bool.false_ne_true hfull
  · have hpoint : w.point = .idle := hsettled.2.1
    refine (hattentive.shutdown hs (by simp [hpoint])).resolve_right fun hw => ?_
    exact (hattentive.interest (by simp [hpoint])).mp hw hnil

/-- A message is written in part, the user shuts down, and room for the rest comes in the middle of
`handleWrite`. -/
theorem written_of_settled_partial : ∃ w : Endpoint,
    run step (established 5 false true true true {})
      [.call (.send [1, 2, 3] ⟨some 1, 0⟩) false, .call .shutdown false,
        .kernel (.drain 1 true true), .poll EPOLLOUT, .go, .go, .go, .write ⟨some 1, 0⟩ false,
        .write ⟨none, EAGAIN⟩ false, .kernel (.drain 1 true true), .poll EPOLLOUT, .go, .go, .go,
        .write ⟨some 1, 0⟩ true, .go, .ret, .go] = some w ∧
      written w.conn.log = [1, 2, 3] ∧ .shutdownWrite ∈ w.conn.log := by
  have hrun : (run step (established 5 false true true true {})
      [.call (.send [1, 2, 3] ⟨some 1, 0⟩) false, .call .shutdown false,
        .kernel (.drain 1 true true), .poll EPOLLOUT, .go, .go, .go, .write ⟨some 1, 0⟩ false,
        .write ⟨none, EAGAIN⟩ false, .kernel (.drain 1 true true), .poll EPOLLOUT, .go, .go, .go,
        .write ⟨some 1, 0⟩ true, .go, .ret, .go]).any (fun w =>
          w.conn.state_ = .kDisconnecting ∧ w.conn.outputBuffer_ = [] ∧
          accepted w.conn.log = [1, 2, 3] ∧ w.Settled) = true := by
    decide +kernel
  obtain ⟨w, hw, hstate⟩ := (Option.any_eq_true _ _).mp hrun
  obtain ⟨hs, hnil, haccepted, hsettled⟩ := of_decide_eq_true hstate
  obtain ⟨hwritten, -, hshutdown⟩ :=
    written_of_settled ⟨rfl, rfl⟩ hw (by rw [hs]; decide) hsettled
  exact ⟨w, hw, by rw [← haccepted, ← hwritten, hnil, List.append_nil], hshutdown hs hnil⟩

end Settled

end Endpoint

end LouisNet.Net
