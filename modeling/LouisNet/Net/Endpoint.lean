import LouisNet.Lib.EdgeTrigger
import LouisNet.Lib.Run
import LouisNet.Net.TcpConnectionShutdown

set_option relaxedAutoImplicit false
set_option autoImplicit false

/-!
# A connection and its socket

A `TcpConnection` over a socket that an edge-triggered `epoll` instance watches. The steps are
small enough for the network to come between any two system calls of a handler: bytes arrive and
are carried away, the peer closes or resets, while the loop thread is inside `handleRead`,
`handleWrite` or the code of the user. The handlers are cut at their system calls and at their
callbacks; a point says what the loop thread does next.

Of the kernel only its documented behaviour is modelled. A descriptor that becomes ready for
something it is registered for is put on the ready list; it may be put there at any other time
as well. A registration looks at the readiness as it is. `epoll_wait` takes a descriptor off the
list and reports what it is ready for. `readv` and `write` fail with `EAGAIN` only when there is
nothing to read, or no room; they may read and write any part otherwise.

## Main definitions

* `LouisNet.Net.Kernel` — the socket in the kernel.
* `LouisNet.Net.Endpoint` — a connection, its socket, and where the loop thread is.
* `LouisNet.Net.Endpoint.step` — one step of the loop thread or of the kernel.
* `LouisNet.Net.Endpoint.Attentive` — nothing that has happened is missed.

## Main results

* `LouisNet.Net.Endpoint.attentive_step` — one step misses nothing.
* `LouisNet.Net.Endpoint.attentive_run` — nothing is missed, in any run.
-/

namespace LouisNet.Net

open Lib Reactor

/-! ## The kernel -/

/-- A socket in the kernel, and its place in the ready list of the `epoll` instance. -/
structure Kernel where
  /-- The bytes that have arrived and have not been read. -/
  recvQueue : Bytes := []
  /-- The peer has closed its end, behind these bytes. -/
  fin : Bool := false
  /-- The connection was reset. -/
  broken : Bool := false
  /-- `SO_ERROR`. -/
  error : ℕ := 0
  /-- The bytes that have been written and have not been carried away. -/
  sendQueue : Bytes := []
  /-- There is room for more of them. -/
  room : Bool := true
  /-- The descriptor is on the ready list. -/
  pending : Bool := false
  deriving DecidableEq, Repr

namespace Kernel

/-- A call of `readv` would not block. -/
def readable (k : Kernel) : Bool := !k.recvQueue.isEmpty || k.fin || k.broken

/-- A call of `write` would not block. -/
def writable (k : Kernel) : Bool := k.room || k.broken

/-- The descriptor of the channel is registered for an event. -/
def watches (ch : Channel) (flags : UInt32) : Bool := ch.index_ = .kAdded && has ch.events_ flags

/-- The descriptor is ready for something that it is registered for. -/
def ready (k : Kernel) (ch : Channel) : Bool :=
  watches ch EPOLLIN && k.readable || watches ch EPOLLOUT && k.writable || k.broken

/-- `epoll_ctl`, after the channel has been updated. -/
def epollCtl (k : Kernel) (ch : Channel) : Kernel :=
  { k with pending := ch.index_ = .kAdded && (k.pending || k.ready ch) }

/-- `epoll_wait` takes the descriptor off the ready list and reports what it is ready for, which
may be nothing any more. -/
def epollWait (k : Kernel) (ch : Channel) (revents : UInt32) : Option Kernel :=
  assert (k.pending = true ∧
    has revents EPOLLIN = (watches ch EPOLLIN && k.readable) ∧
    has revents EPOLLOUT = (watches ch EPOLLOUT && k.writable) ∧
    (has revents EPOLLERR = true → k.broken = true) ∧
    (has revents EPOLLHUP = true → k.fin = true ∨ k.broken = true)) <|
  some { k with pending := false }

/-- `readv`. -/
def readv (k : Kernel) : ReadResult → Option Kernel
  | .data [] => assert (k.recvQueue = [] ∧ (k.fin = true ∨ k.broken = true)) <| some k
  | .data bytes =>
    assert (bytes <+: k.recvQueue) <|
    some { k with recvQueue := k.recvQueue.drop bytes.length }
  | .error errno =>
    assert (if errno = EAGAIN then k.readable = false else k.broken = true) <| some k

/-- `write`. A socket that was reset fails; `room` is left only if the queue is empty or there was
room before. -/
def write (k : Kernel) (data : Bytes) (result : WriteResult) (room : Bool) : Option Kernel :=
  match result.ret with
  | some n =>
    let sendQueue := k.sendQueue ++ data.take n
    assert (k.broken = false ∧ n ≤ data.length ∧ (data ≠ [] → 0 < n) ∧
      (room = true → k.room = true) ∧ (sendQueue = [] → room = true)) <|
    some { k with sendQueue, room }
  | none =>
    assert (if result.errno = EAGAIN then k.writable = false
      else k.broken = true ∧ result.errno ≠ 0) <|
    some k

/-- What happens in the kernel by itself. `edge` says whether the descriptor is put on the ready
list. -/
inductive Input where
  /-- bytes arrive -/
  | arrive (bytes : Bytes) (edge : Bool)
  /-- the peer closes its end -/
  | close (edge : Bool)
  /-- the connection is reset -/
  | reset (errno : ℕ)
  /-- bytes are carried away, and there may be room after that -/
  | drain (n : ℕ) (room edge : Bool)
  deriving DecidableEq, Repr

/-- A step of the kernel. A descriptor that becomes ready is put on the ready list. -/
def step (k : Kernel) (ch : Channel) : Input → Option Kernel
  | .arrive bytes edge =>
    assert (k.fin = false ∧ k.broken = false ∧ bytes ≠ [] ∧
      (watches ch EPOLLIN = true → k.readable = false → edge = true)) <|
    some { k with recvQueue := k.recvQueue ++ bytes, pending := k.pending || edge }
  | .close edge =>
    assert (k.fin = false ∧ k.broken = false ∧
      (watches ch EPOLLIN = true → k.readable = false → edge = true)) <|
    some { k with fin := true, pending := k.pending || edge }
  | .reset errno =>
    assert (k.broken = false) <|
    some { k with broken := true, error := errno, pending := true }
  | .drain n room edge =>
    assert (k.broken = false ∧ 0 < n ∧ n ≤ k.sendQueue.length ∧ (k.room = true → room = true) ∧
      (k.sendQueue.drop n = [] → room = true) ∧
      (watches ch EPOLLOUT = true → k.room = false → room = true → edge = true)) <|
    some { k with sendQueue := k.sendQueue.drop n, room, pending := k.pending || edge }

end Kernel

/-! ## The loop thread -/

/-- What the loop thread does next, behind the callback that it is in. -/
inductive Point where
  /-- call `epoll_wait`, or run a functor -/
  | idle
  /-- in `Channel::handler`, before the test of `EPOLLERR` -/
  | error (revents : UInt32)
  /-- in `Channel::handler`, before the test of `EPOLLIN` -/
  | read (revents : UInt32)
  /-- in `Channel::handler`, before the test of `EPOLLOUT` -/
  | write (revents : UInt32)
  /-- in the loop of `handleRead` -/
  | readLoop (revents : UInt32)
  /-- in the loop of `handleWrite` -/
  | writeLoop
  /-- in `handleWrite`, before its last test of the state -/
  | drained
  /-- in `handleClose`, before the close callback -/
  | close (next : Point)
  deriving DecidableEq, Repr

/-- A connection, its socket, and where the loop thread is. -/
structure Endpoint where
  conn : TcpConnection
  kernel : Kernel
  point : Point := .idle
  inCallback : Bool := false
  deriving DecidableEq, Repr

namespace Endpoint

/-- The steps of the kernel, and those of the loop thread. -/
inductive Input where
  | kernel (i : Kernel.Input)
  /-- `epoll_wait` reports the descriptor -/
  | poll (revents : UInt32)
  /-- a queued write-complete callback runs -/
  | task
  /-- the code of the user makes a call; `room` is what a direct `write` leaves -/
  | call (k : Call) (room : Bool)
  /-- a callback returns -/
  | ret
  /-- the loop thread goes on to its next system call or callback -/
  | go
  | readv (result : ReadResult)
  | write (result : WriteResult) (room : Bool)
  deriving DecidableEq, Repr

/-- A callback is invoked if it is set, and the loop thread goes on behind it. -/
def invoke (w : Endpoint) (isSet : Bool) (e : Event) (next : Point) : Endpoint :=
  { w with
    conn := if isSet then w.conn.emit e else w.conn
    point := next
    inCallback := isSet }

/-- `TcpConnection::handleClose`, up to the close callback. -/
def handleClose (w : Endpoint) (next : Point) : Endpoint :=
  invoke { w with conn := { w.conn with state_ := .kDisconnected } } w.conn.connectionCallback_
    (.connectionCallback .kDisconnected) (.close next)

/-- `TcpConnection::handleError`, up to the close callback. -/
def handleError (w : Endpoint) (next : Point) : Endpoint :=
  handleClose { w with conn := { w.conn with error_ := w.kernel.error } } next

/-- `channel_->disableWrite()`. -/
def disableWrite (w : Endpoint) : Endpoint :=
  { w with
    conn := { w.conn with channel_ := w.conn.channel_.disableWrite }
    kernel := w.kernel.epollCtl w.conn.channel_.disableWrite }

/-- `channel_->enableWrite()`. -/
def enableWrite (w : Endpoint) : Endpoint :=
  { w with
    conn := { w.conn with channel_ := w.conn.channel_.enableWrite }
    kernel := w.kernel.epollCtl w.conn.channel_.enableWrite }

/-- `send` writes its message to the socket itself. -/
def writesDirectly (c : TcpConnection) : Bool :=
  c.state_ = .kConnected && !c.channel_.isWriting && c.outputBuffer_ = []

/-- `TcpConnection::send`, on the loop thread. -/
def send (w : Endpoint) (message : Bytes) (result : WriteResult) (room : Bool) :
    Option Endpoint :=
  let conn := w.conn.send message result
  if writesDirectly w.conn then
    (w.kernel.write message result room).map fun kernel =>
      { w with
        conn
        kernel := if conn.channel_.isWriting then kernel.epollCtl conn.channel_ else kernel }
  else some { w with conn }

/-- `Channel::handler`, up to the test of `EPOLLERR`. -/
def handleEvents (w : Endpoint) (revents : UInt32) : Endpoint :=
  if has revents EPOLLHUP && !has revents EPOLLIN then
    handleClose { w with conn := w.conn.emit .hangUp } (.error revents)
  else { w with point := .error revents }

/-- The loop thread goes on to its next system call or callback. -/
def go (w : Endpoint) : Point → Option Endpoint
  | .idle => none
  | .error revents =>
    if has revents EPOLLERR then
      some (handleError { w with conn := w.conn.emit .errorEvent } (.read revents))
    else some { w with point := .read revents }
  | .read revents =>
    if has revents (EPOLLIN ||| EPOLLPRI ||| EPOLLRDHUP) then
      some { w with point := .readLoop revents }
    else some { w with point := .write revents }
  | .write revents =>
    if has revents EPOLLOUT && w.conn.channel_.isWriting then some { w with point := .writeLoop }
    else some { w with point := .idle }
  | .readLoop _ => none
  | .writeLoop =>
    assert (w.conn.outputBuffer_ = []) <|
    some (w.disableWrite.invoke w.conn.writeCompleteCallback_ .writeCompleteCallback .drained)
  | .drained =>
    some { w with
      conn := if w.conn.state_ = .kDisconnecting then w.conn.shutdownInLoop else w.conn
      point := .idle }
  | .close next => some (w.invoke w.conn.closeCallback_ .closeCallback next)

/-- The loop of `handleRead`, behind a call of `readv`. -/
def afterRead (w : Endpoint) (revents : UInt32) (result : ReadResult) : Endpoint :=
  let w := { w with conn := w.conn.emit (.readv result) }
  match result with
  | .data [] => w.handleClose (.write revents)
  | .data bytes =>
    invoke { w with conn := { w.conn with inputBuffer_ := w.conn.inputBuffer_ ++ bytes } }
      w.conn.messageCallback_ .messageCallback (.readLoop revents)
  | .error errno =>
    if errno = EAGAIN ∨ errno = EWOULDBLOCK then { w with point := .write revents }
    else if errno = ECONNRESET ∨ errno = EPIPE then w.handleClose (.write revents)
    else w.handleError (.write revents)

/-- The loop of `handleWrite`, behind a call of `write`. -/
def afterWrite (w : Endpoint) (result : WriteResult) : Endpoint :=
  let w := { w with conn := w.conn.emit (.write result) }
  match result.ret with
  | some (n + 1) =>
    let n := min (n + 1) w.conn.outputBuffer_.length
    let conn := w.conn.emit (.wrote (w.conn.outputBuffer_.take n))
    { w with conn := { conn with outputBuffer_ := conn.outputBuffer_.drop n } }
  | _ =>
    if result.errno = 0 then { w with point := .idle }
    else if result.errno = EAGAIN ∨ result.errno = EWOULDBLOCK then
      { w.disableWrite.enableWrite with point := .idle }
    else w.handleError .idle

/-- One step. -/
def step (w : Endpoint) : Input → Option Endpoint
  | .kernel i => (w.kernel.step w.conn.channel_ i).map fun kernel => { w with kernel }
  | .poll revents =>
    assert (w.inCallback = false ∧ w.point = .idle) <|
    (w.kernel.epollWait w.conn.channel_ revents).map fun kernel =>
      handleEvents { w with kernel } revents
  | .task =>
    assert (w.inCallback = false ∧ w.point = .idle ∧ 0 < w.conn.tasks) <|
    some (invoke { w with conn := { w.conn with tasks := w.conn.tasks - 1 } }
      w.conn.writeCompleteCallback_ .writeCompleteCallback .idle)
  | .call k room =>
    assert (w.inCallback = true ∨ w.point = .idle) <|
    match k with
    | .send message result => w.send message result room
    | .shutdown => some { w with conn := w.conn.shutdown }
    | .consume len => some { w with conn := w.conn.call (.consume len) }
  | .ret => assert (w.inCallback = true) <| some { w with inCallback := false }
  | .go => assert (w.inCallback = false) <| w.go w.point
  | .readv result =>
    assert (w.inCallback = false) <|
    match w.point with
    | .readLoop revents =>
      (w.kernel.readv result).map fun kernel => afterRead { w with kernel } revents result
    | _ => none
  | .write result room =>
    assert (w.inCallback = false ∧ w.point = .writeLoop ∧ w.conn.outputBuffer_ ≠ []) <|
    (w.kernel.write w.conn.outputBuffer_ result room).map fun kernel =>
      afterWrite { w with kernel } result

/-- `TcpConnection::connectionEstablished` on a new connection, up to the connection callback. The
socket has been connected for a while, and something may have happened on it. -/
def established (sockfd : ℕ) (connection message writeComplete close : Bool) (kernel : Kernel) :
    Endpoint :=
  let conn := TcpConnection.new sockfd connection message writeComplete close {}
  let channel_ := conn.channel_.enableRead
  invoke { conn := { conn with state_ := .kConnected, channel_ },
           kernel := kernel.epollCtl channel_ }
    connection (.connectionCallback .kConnected) .idle

/-! ## Registration -/

/-- A channel that is registered for reading, and perhaps for writing. -/
def Registered (ch : Channel) : Prop :=
  ch.index_ = .kAdded ∧
    (ch.events_ = Channel.kReadEvent ∨ ch.events_ = Channel.kReadEvent ||| Channel.kWriteEvent)

/-- A new channel is registered when it is enabled for reading. -/
theorem registered_enableRead (fd : ℕ) : Registered (Channel.enableRead { fd_ := fd }) :=
  ⟨rfl, .inl ((Channel.events_update _).trans (UInt32.zero_or))⟩

/-- A channel that is added and keeps some events stays added. -/
private theorem index_update {ch : Channel} (hindex : ch.index_ = .kAdded)
    (hevents : ch.events_ ≠ Channel.kNoneEvent) : ch.update.index_ = .kAdded := by
  unfold Channel.update
  simp only [hindex]
  rw [if_neg hevents]

/-- A registered channel stays registered when it is enabled for writing. -/
theorem Registered.enableWrite {ch : Channel} (h : Registered ch) :
    Registered ch.enableWrite := by
  obtain ⟨hindex, hevents⟩ := h
  have hnew : ch.events_ ||| Channel.kWriteEvent = Channel.kReadEvent ||| Channel.kWriteEvent := by
    rcases hevents with hevents | hevents
    · rw [hevents]
    · rw [hevents]
      decide
  have hne : ch.events_ ||| Channel.kWriteEvent ≠ Channel.kNoneEvent := by
    rw [hnew]
    decide
  exact ⟨index_update hindex hne, .inr ((Channel.events_update _).trans hnew)⟩

/-- A registered channel stays registered when it is disabled for writing. -/
theorem Registered.disableWrite {ch : Channel} (h : Registered ch) :
    Registered ch.disableWrite := by
  obtain ⟨hindex, hevents⟩ := h
  have hnew : ch.events_ &&& ~~~ Channel.kWriteEvent = Channel.kReadEvent := by
    rcases hevents with hevents | hevents <;> rw [hevents] <;> decide
  have hne : ch.events_ &&& ~~~ Channel.kWriteEvent ≠ Channel.kNoneEvent := by
    rw [hnew]
    decide
  exact ⟨index_update hindex hne, .inl ((Channel.events_update _).trans hnew)⟩

/-- The kernel watches a registered channel for bytes to read. -/
theorem Registered.watches_in {ch : Channel} (h : Registered ch) :
    Kernel.watches ch EPOLLIN = true := by
  obtain ⟨hindex, hevents⟩ := h
  unfold Kernel.watches
  rw [hindex]
  rcases hevents with hevents | hevents <;> rw [hevents] <;> decide

/-- The kernel watches a registered channel for room to write while it is interested in it. -/
theorem Registered.watches_out {ch : Channel} (h : Registered ch) :
    Kernel.watches ch EPOLLOUT = ch.isWriting := by
  obtain ⟨hindex, hevents⟩ := h
  unfold Kernel.watches Channel.isWriting
  rw [hindex]
  rcases hevents with hevents | hevents <;> rw [hevents] <;> decide

/-! ## The invariant -/

/-- The loop thread will call `readv` until there is nothing to read. -/
def willRead : Point → Bool
  | .error revents => has revents EPOLLIN
  | .read revents => has revents EPOLLIN
  | .readLoop _ => true
  | _ => false

/-- The loop thread will call `write` until there is no room, if something waits. -/
def willWrite : Point → Bool
  | .error revents => has revents EPOLLOUT
  | .read revents => has revents EPOLLOUT
  | .write revents => has revents EPOLLOUT
  | .readLoop revents => has revents EPOLLOUT
  | .writeLoop => true
  | _ => false

/-- The points behind the callbacks of a connection that is up. -/
def behindCallback : Point → Bool
  | .idle => true
  | .readLoop _ => true
  | .drained => true
  | _ => false

/-- The points of a connection that is up. -/
def Open : Point → Prop
  | .close _ => False
  | _ => True

/-- **Nothing is missed.** What there is to read will be heard of; so will the room for what waits
to be written; and a shutdown that was asked for has been made, or waits for that. -/
structure Attentive (w : Endpoint) : Prop where
  registered : Registered w.conn.channel_
  isOpen : Open w.point
  behind : w.inCallback = true → behindCallback w.point = true
  writing : w.point = .writeLoop → w.conn.channel_.isWriting = true
  interest : w.point ≠ .writeLoop → (w.conn.channel_.isWriting = true ↔ w.conn.outputBuffer_ ≠ [])
  room : w.kernel.sendQueue = [] → w.kernel.room = true
  read : Heard (w.kernel.readable = true) (w.kernel.pending = true) (willRead w.point = true)
  write : Heard (w.conn.outputBuffer_ ≠ [] ∧ w.kernel.writable = true) (w.kernel.pending = true)
    (willWrite w.point = true)
  shutdown : w.conn.state_ = .kDisconnecting → w.point ≠ .drained →
    .shutdownWrite ∈ w.conn.log ∨ w.conn.channel_.isWriting = true

/-! ## The kernel -/

variable {w : Endpoint}

/-- A step of the kernel. -/
theorem Attentive.kernel (h : w.Attentive) {k : Kernel} (hroom : k.sendQueue = [] → k.room = true)
    (hread : Heard (k.readable = true) (k.pending = true) (willRead w.point = true))
    (hwrite : Heard (w.conn.outputBuffer_ ≠ [] ∧ k.writable = true) (k.pending = true)
      (willWrite w.point = true)) : Attentive { w with kernel := k } :=
  ⟨h.registered, h.isOpen, h.behind, h.writing, h.interest, hroom, hread, hwrite, h.shutdown⟩

/-- There may be more to read, with an edge if there was nothing before. -/
theorem Attentive.receive (h : w.Attentive) {recvQueue : Bytes} {fin edge : Bool}
    (hedge : Kernel.watches w.conn.channel_ EPOLLIN = true → w.kernel.readable = false →
      edge = true) :
    Attentive { w with kernel := { w.kernel with
      recvQueue, fin, pending := w.kernel.pending || edge } } := by
  refine h.kernel h.room ?_ (h.write.mono id ?_ id)
  · simp only [Bool.or_eq_true]
    refine h.read.rise fun _ => ?_
    by_cases hlevel : w.kernel.readable = true
    · exact .inl hlevel
    · exact .inr (hedge h.registered.watches_in (by simpa using hlevel))
  · simp only [Bool.or_eq_true]
    exact Or.inl

/-- **A step of the kernel misses nothing.** -/
theorem Attentive.kernelStep (h : w.Attentive) {i : Kernel.Input} {k : Kernel}
    (hk : w.kernel.step w.conn.channel_ i = some k) : Attentive { w with kernel := k } := by
  cases i with
  | arrive bytes edge =>
    simp only [Kernel.step, assert_eq_some_iff, Option.some.injEq] at hk
    obtain ⟨⟨-, -, -, hedge⟩, rfl⟩ := hk
    exact h.receive hedge
  | close edge =>
    simp only [Kernel.step, assert_eq_some_iff, Option.some.injEq] at hk
    obtain ⟨⟨-, -, hedge⟩, rfl⟩ := hk
    exact h.receive hedge
  | reset errno =>
    simp only [Kernel.step, assert_eq_some_iff, Option.some.injEq] at hk
    obtain ⟨-, rfl⟩ := hk
    exact h.kernel h.room (.rearm fun _ => rfl) (.rearm fun _ => rfl)
  | drain n room edge =>
    simp only [Kernel.step, assert_eq_some_iff, Option.some.injEq] at hk
    obtain ⟨⟨-, -, -, -, hroom, hedge⟩, rfl⟩ := hk
    refine h.kernel hroom (h.read.mono id ?_ id) ?_
    · simp only [Bool.or_eq_true]
      exact Or.inl
    by_cases hpoint : w.point = .writeLoop
    · exact .taken fun _ => by rw [hpoint]; rfl
    simp only [Bool.or_eq_true]
    refine h.write.rise fun hnow => ?_
    obtain ⟨houtput, hlevel⟩ := hnow
    by_cases hbefore : w.kernel.writable = true
    · exact .inl ⟨houtput, hbefore⟩
    · have hwatches := h.registered.watches_out.trans ((h.interest hpoint).mpr houtput)
      simp only [Kernel.writable, Bool.or_eq_true, not_or, Bool.not_eq_true] at hbefore hlevel
      exact .inr (hedge hwatches hbefore.1 (hlevel.resolve_right (by simp [hbefore.2])))

/-! ## The calls of the user -/

/-- A message is not accepted unless the connection is connected. -/
theorem send_of_not_connected {c : TcpConnection} (hs : c.state_ ≠ .kConnected) (message : Bytes)
    (result : WriteResult) : c.send message result = c :=
  if_neg hs

/-- What a message leaves when nothing waits: nothing, or a rest for which the channel waits. -/
theorem send_direct {c : TcpConnection} (hc : writesDirectly c = true) (message : Bytes)
    (result : WriteResult) :
    let c' := c.send message result
    c'.state_ = .kConnected ∧
      (c'.channel_ = c.channel_ ∧ c'.outputBuffer_ = [] ∨
        c'.channel_ = c.channel_.enableWrite ∧ c'.outputBuffer_ ≠ []) := by
  simp only [writesDirectly, Bool.and_eq_true, decide_eq_true_eq, Bool.not_eq_true'] at hc
  obtain ⟨⟨hs, hw⟩, hnil⟩ := hc
  have hdirect : ∀ (d : TcpConnection), ((d.writeDirect message result).1.state_ = d.state_ ∧
      (d.writeDirect message result).1.channel_ = d.channel_ ∧
      (d.writeDirect message result).1.outputBuffer_ = d.outputBuffer_) := by
    intro d
    unfold TcpConnection.writeDirect
    split
    · dsimp only
      split_ifs <;> exact ⟨rfl, rfl, rfl⟩
    · split_ifs <;> exact ⟨rfl, rfl, rfl⟩
  obtain ⟨hstate, hchannel, houtput⟩ := hdirect (c.emit (.accepted message))
  have hup : (c.emit (.accepted message)).state_ ≠ .kDisconnected := by
    show c.state_ ≠ _
    rw [hs]
    decide
  have hifs : !(c.emit (.accepted message)).channel_.isWriting ∧
      (c.emit (.accepted message)).outputBuffer_ = [] := ⟨(Bool.not_eq_true' _).mpr hw, hnil⟩
  simp only [TcpConnection.send, if_pos hs, TcpConnection.sendInLoop, if_neg hup, if_pos hifs]
  generalize (c.emit (.accepted message)).writeDirect message result = p at hstate hchannel houtput
  have hwriting : (!p.1.channel_.isWriting) = true := by
    rw [hchannel]
    exact (Bool.not_eq_true' _).mpr hw
  by_cases hrest : p.2.2 = 0 ∧ 0 < message.length - p.2.1
  · rw [if_pos hrest, if_pos hwriting]
    refine ⟨hstate.trans hs, .inr ⟨congrArg Channel.enableWrite hchannel, fun h => ?_⟩⟩
    have hall := List.drop_eq_nil_iff.mp (List.append_eq_nil_iff.mp h).2
    exact absurd hrest.2 (by simpa using hall)
  · rw [if_neg hrest]
    exact ⟨hstate.trans hs, .inl ⟨hchannel, houtput.trans hnil⟩⟩

/-- What a message leaves when something waits: it waits behind it. -/
theorem send_behind {c : TcpConnection} (hs : c.state_ = .kConnected)
    (hw : c.channel_.isWriting = true) (message : Bytes) (result : WriteResult) :
    let c' := c.send message result
    c'.state_ = .kConnected ∧ c'.channel_ = c.channel_ ∧
      c'.outputBuffer_ = c.outputBuffer_ ++ message := by
  have hup : (c.emit (.accepted message)).state_ ≠ .kDisconnected := by
    show c.state_ ≠ _
    rw [hs]
    decide
  have hifs : ¬ (!(c.emit (.accepted message)).channel_.isWriting ∧
      (c.emit (.accepted message)).outputBuffer_ = []) := by
    rintro ⟨h, -⟩
    exact Bool.false_ne_true (((Bool.not_eq_true' _).mp h).symm.trans hw)
  simp only [TcpConnection.send, if_pos hs, TcpConnection.sendInLoop, if_neg hup, if_neg hifs]
  have hwriting : ¬ (!(c.emit (.accepted message)).channel_.isWriting) = true :=
    fun h => Bool.false_ne_true (((Bool.not_eq_true' _).mp h).symm.trans hw)
  by_cases hrest : 0 < message.length
  · rw [if_pos ⟨trivial, hrest⟩, if_neg hwriting]
    exact ⟨hs, rfl, rfl⟩
  · have hnil : message = [] := List.length_eq_zero_iff.mp (Nat.eq_zero_of_not_pos hrest)
    rw [if_neg fun h => hrest h.2, hnil, List.append_nil]
    exact ⟨hs, rfl, rfl⟩

/-- A successful `write` leaves what there is to read. -/
theorem write_eq_some {k k' : Kernel} {data : Bytes} {result : WriteResult} {room : Bool}
    (h : k.write data result room = some k') (hroom : k.sendQueue = [] → k.room = true) :
    k'.readable = k.readable ∧ k'.pending = k.pending ∧ k'.fin = k.fin ∧ k'.broken = k.broken ∧
      (k'.writable = true → k.writable = true) ∧ (k'.sendQueue = [] → k'.room = true) := by
  unfold Kernel.write at h
  split at h
  · simp only [assert_eq_some_iff, Option.some.injEq] at h
    obtain ⟨⟨-, -, -, hless, hempty⟩, rfl⟩ := h
    refine ⟨rfl, rfl, rfl, rfl, ?_, hempty⟩
    simp only [Kernel.writable, Bool.or_eq_true]
    exact Or.imp_left hless
  · simp only [assert_eq_some_iff, Option.some.injEq] at h
    obtain ⟨-, rfl⟩ := h
    exact ⟨rfl, rfl, rfl, rfl, id, hroom⟩

/-- A point in which the code of the user runs is not in the loop of `handleWrite`. -/
theorem Attentive.interest_of_call (h : w.Attentive)
    (hcall : w.inCallback = true ∨ w.point = .idle) : w.point ≠ .writeLoop := by
  intro hpoint
  rcases hcall with hcall | hcall
  · have hbehind := h.behind hcall
    rw [hpoint] at hbehind
    cases hbehind
  · rw [hpoint] at hcall
    cases hcall

/-- A registration looks at the readiness as it is. -/
theorem Registered.pending_epollCtl {ch : Channel} (h : Registered ch) (k : Kernel) :
    (k.epollCtl ch).pending = true ↔
      k.pending = true ∨ k.readable = true ∨ ch.isWriting = true ∧ k.writable = true := by
  have hbroken : k.broken = true → k.readable = true := fun h => by simp [Kernel.readable, h]
  simp only [Kernel.epollCtl, Kernel.ready, h.watches_in, h.watches_out, h.1, decide_true,
    Bool.true_and, Bool.or_eq_true, Bool.and_eq_true]
  tauto

/-- After a registration nothing is missed at any point. -/
theorem Registered.heard_epollCtl {ch : Channel} (h : Registered ch) (k : Kernel) (atWork : Prop) :
    Heard ((k.epollCtl ch).readable = true) ((k.epollCtl ch).pending = true) atWork ∧
      Heard (ch.isWriting = true ∧ (k.epollCtl ch).writable = true)
        ((k.epollCtl ch).pending = true) atWork :=
  ⟨.rearm fun hlevel => (h.pending_epollCtl k).mpr (.inr (.inl hlevel)),
    .rearm fun hlevel => (h.pending_epollCtl k).mpr (.inr (.inr hlevel))⟩

/-- **A message misses nothing**: what is left of it makes the channel wait for room, and the room
that there is already is reported. -/
theorem Attentive.send (h : w.Attentive) (hpoint : w.point ≠ .writeLoop) {message : Bytes}
    {result : WriteResult} {room : Bool} {w' : Endpoint}
    (hw' : w.send message result room = some w') : w'.Attentive := by
  unfold Endpoint.send at hw'
  have hinterest := h.interest hpoint
  by_cases hdirect : writesDirectly w.conn = true
  · rw [if_pos hdirect] at hw'
    obtain ⟨k, hk, rfl⟩ := Option.map_eq_some_iff.mp hw'
    obtain ⟨hreadable, hpending, -, -, hwritable, hroom⟩ := write_eq_some hk h.room
    obtain ⟨hstate, hrest⟩ := send_direct hdirect message result
    have hidle : w.conn.channel_.isWriting = false := by
      simp only [writesDirectly, Bool.and_eq_true, Bool.not_eq_true'] at hdirect
      exact hdirect.1.2
    rcases hrest with ⟨hchannel, houtput⟩ | ⟨hchannel, houtput⟩
    · rw [hchannel, hidle]
      refine ⟨?_, h.isOpen, h.behind, fun hp => absurd hp hpoint, ?_, hroom, ?_, ?_, ?_⟩
      · rw [hchannel]
        exact h.registered
      · simp [hchannel, hidle, houtput]
      · rw [if_neg Bool.false_ne_true, hreadable, hpending]
        exact h.read
      · exact .stop fun hlevel => hlevel.1 houtput
      · simp [hstate]
    · have hregistered := h.registered.enableWrite
      rw [hchannel, Channel.isWriting_enableWrite, if_pos rfl]
      obtain ⟨hread, hwrite⟩ := hregistered.heard_epollCtl k (willWrite w.point = true)
      refine ⟨?_, h.isOpen, h.behind, fun hp => absurd hp hpoint, ?_, hroom, ?_, ?_, ?_⟩
      · rw [hchannel]
        exact hregistered
      · simp [hchannel, houtput]
      · exact (hregistered.heard_epollCtl k (willRead w.point = true)).1
      · exact hwrite.mono (fun hlevel => ⟨Channel.isWriting_enableWrite _, hlevel.2⟩) id id
      · simp [hstate]
  · rw [if_neg hdirect] at hw'
    obtain rfl := Option.some.inj hw'
    by_cases hs : w.conn.state_ = .kConnected
    · have hw : w.conn.channel_.isWriting = true := by
        by_contra hw
        refine hdirect ?_
        have hnil : w.conn.outputBuffer_ = [] := by
          by_contra hne
          exact hw (hinterest.mpr hne)
        simpa [writesDirectly, hs, hnil] using hw
      obtain ⟨hstate, hchannel, houtput⟩ := send_behind hs hw message result
      have hne := hinterest.mp hw
      refine ⟨?_, h.isOpen, h.behind, fun hp => absurd hp hpoint, ?_, h.room, h.read, ?_, ?_⟩
      · rw [hchannel]
        exact h.registered
      · simp [hchannel, hw, houtput, hne]
      · exact h.write.mono (fun hlevel => ⟨hne, hlevel.2⟩) id id
      · simp [hstate]
    · rw [send_of_not_connected hs]
      exact h

/-- A connection whose output and channel are the same, in a state in which it is not forgotten
that it has to be shut down. -/
theorem Attentive.congr (h : w.Attentive) {c : TcpConnection}
    (hchannel : c.channel_ = w.conn.channel_) (houtput : c.outputBuffer_ = w.conn.outputBuffer_)
    (hshutdown : c.state_ = .kDisconnecting → w.point ≠ .drained →
      .shutdownWrite ∈ c.log ∨ c.channel_.isWriting = true) : Attentive { w with conn := c } := by
  refine ⟨?_, h.isOpen, h.behind, ?_, ?_, h.room, h.read, ?_, hshutdown⟩
  · rw [hchannel]
    exact h.registered
  · rw [hchannel]
    exact h.writing
  · rw [hchannel, houtput]
    exact h.interest
  · rw [houtput]
    exact h.write

/-- `shutdownInLoop` changes nothing but the log. -/
theorem shutdownInLoop_eq (c : TcpConnection) :
    c.shutdownInLoop.channel_ = c.channel_ ∧ c.shutdownInLoop.outputBuffer_ = c.outputBuffer_ ∧
      c.shutdownInLoop.state_ = c.state_ := by
  unfold TcpConnection.shutdownInLoop
  split_ifs <;> exact ⟨rfl, rfl, rfl⟩

/-- `shutdown` misses nothing. -/
theorem Attentive.call_shutdown (h : w.Attentive) :
    Attentive { w with conn := w.conn.shutdown } := by
  unfold TcpConnection.shutdown
  split_ifs with hs
  · obtain ⟨hchannel, houtput, -⟩ := shutdownInLoop_eq { w.conn with state_ := .kDisconnecting }
    exact h.congr hchannel houtput fun _ _ => TcpConnection.shutdownWrite_or_isWriting _
  · exact h

/-! ## The handlers -/

/-- The loop thread goes on with the same channel and output. -/
theorem Attentive.goOn (h : w.Attentive) (hnow : w.point ≠ .writeLoop) {c : TcpConnection}
    {k : Kernel} {point : Point} {inCallback : Bool} (hchannel : c.channel_ = w.conn.channel_)
    (houtput : c.outputBuffer_ = w.conn.outputBuffer_)
    (hshutdown : c.state_ = .kDisconnecting → point ≠ .drained →
      .shutdownWrite ∈ c.log ∨ c.channel_.isWriting = true)
    (hroom : k.sendQueue = [] → k.room = true) (hopen : Open point)
    (hbehind : inCallback = true → behindCallback point = true)
    (hwriting : point = .writeLoop → w.conn.channel_.isWriting = true)
    (hread : k.readable = true → k.pending = true ∨ willRead point = true)
    (hwrite : w.conn.channel_.isWriting = true → w.conn.outputBuffer_ ≠ [] →
      k.writable = true → k.pending = true ∨ willWrite point = true) :
    Attentive ⟨c, k, point, inCallback⟩ := by
  have hinterest := h.interest hnow
  refine ⟨?_, hopen, hbehind, ?_, ?_, hroom, hread, ?_, hshutdown⟩
  · rw [hchannel]
    exact h.registered
  · rw [hchannel]
    exact hwriting
  · rw [hchannel, houtput]
    exact fun _ => hinterest
  · rw [houtput]
    exact fun hlevel => hwrite (hinterest.mpr hlevel.1) hlevel.1 hlevel.2

/-- `handleClose` disconnects. -/
theorem state_handleClose (w : Endpoint) (next : Point) :
    (w.handleClose next).conn.state_ = .kDisconnected := by
  unfold handleClose invoke
  dsimp only
  split_ifs <;> rfl

/-- A callback that is invoked does not change the state. -/
theorem state_invoke (w : Endpoint) (isSet : Bool) (e : Event) (next : Point) :
    (w.invoke isSet e next).conn.state_ = w.conn.state_ := by
  unfold invoke
  cases isSet <;> rfl

/-- A disconnected connection stays disconnected. -/
theorem disconnected_step {i : Input} {w' : Endpoint} (hs : step w i = some w')
    (h : w.conn.state_ = .kDisconnected) : w'.conn.state_ = .kDisconnected := by
  have hne : w.conn.state_ ≠ .kConnected := by
    rw [h]
    decide
  cases i with
  | kernel i =>
    obtain ⟨k, -, rfl⟩ := Option.map_eq_some_iff.mp hs
    exact h
  | poll revents =>
    obtain ⟨-, hk⟩ := assert_eq_some_iff.mp hs
    obtain ⟨k, -, rfl⟩ := Option.map_eq_some_iff.mp hk
    unfold handleEvents
    split_ifs
    · exact state_handleClose _ _
    · exact h
  | task =>
    obtain ⟨-, hw'⟩ := assert_eq_some_iff.mp hs
    obtain rfl := Option.some.inj hw'
    exact (state_invoke _ _ _ _).trans h
  | call k room =>
    obtain ⟨-, hw'⟩ := assert_eq_some_iff.mp hs
    cases k with
    | send message result =>
      have hdirect : writesDirectly w.conn = false := by simp [writesDirectly, hne]
      simp only [Endpoint.send, hdirect, send_of_not_connected hne] at hw'
      obtain rfl := Option.some.inj hw'
      exact h
    | shutdown =>
      obtain rfl := Option.some.inj hw'
      exact (congrArg TcpConnection.state_ (if_neg hne)).trans h
    | consume len =>
      obtain rfl := Option.some.inj hw'
      exact h
  | ret =>
    obtain ⟨-, hw'⟩ := assert_eq_some_iff.mp hs
    obtain rfl := Option.some.inj hw'
    exact h
  | go =>
    obtain ⟨-, hw'⟩ := assert_eq_some_iff.mp hs
    cases hpoint : w.point with
    | idle | readLoop revents => simp [hpoint, go] at hw'
    | error revents =>
      simp only [hpoint, go] at hw'
      split_ifs at hw' <;> obtain rfl := Option.some.inj hw'
      · exact state_handleClose _ _
      · exact h
    | read revents | write revents =>
      simp only [hpoint, go] at hw'
      split_ifs at hw' <;> obtain rfl := Option.some.inj hw' <;> exact h
    | writeLoop =>
      simp only [hpoint, go, assert_eq_some_iff, Option.some.injEq] at hw'
      obtain ⟨-, rfl⟩ := hw'
      exact (state_invoke _ _ _ _).trans h
    | drained =>
      simp only [hpoint, go, Option.some.injEq] at hw'
      subst hw'
      have hne' : w.conn.state_ ≠ .kDisconnecting := by
        rw [h]
        decide
      exact (congrArg TcpConnection.state_ (if_neg hne')).trans h
    | close next =>
      simp only [hpoint, go, Option.some.injEq] at hw'
      subst hw'
      exact (state_invoke _ _ _ _).trans h
  | readv result =>
    obtain ⟨-, hw'⟩ := assert_eq_some_iff.mp hs
    split at hw'
    · obtain ⟨k, -, rfl⟩ := Option.map_eq_some_iff.mp hw'
      unfold afterRead
      dsimp only
      split
      · exact state_handleClose _ _
      · exact (state_invoke _ _ _ _).trans h
      · split_ifs
        · exact h
        · exact state_handleClose _ _
        · exact state_handleClose _ _
    · cases hw'
  | write result room =>
    obtain ⟨-, hw'⟩ := assert_eq_some_iff.mp hs
    obtain ⟨k, -, rfl⟩ := Option.map_eq_some_iff.mp hw'
    unfold afterWrite
    dsimp only
    split
    · exact h
    · split_ifs
      · exact h
      · exact h
      · exact state_handleClose _ _

/-- `epoll_wait` reports what there is to do. -/
theorem Attentive.poll (h : w.Attentive) (hidle : w.point = .idle) {revents : UInt32} {k : Kernel}
    (hk : w.kernel.epollWait w.conn.channel_ revents = some k) :
    Attentive { w with kernel := k, point := .error revents, inCallback := false } := by
  simp only [Kernel.epollWait, assert_eq_some_iff, Option.some.injEq] at hk
  obtain ⟨⟨-, hin, hout, -, -⟩, rfl⟩ := hk
  rw [h.registered.watches_in, Bool.true_and] at hin
  rw [h.registered.watches_out] at hout
  refine h.goOn (by simp [hidle]) rfl rfl ?_ h.room trivial (by simp) (by simp) ?_ ?_
  · exact fun hs _ => h.shutdown hs (by simp [hidle])
  · exact fun hlevel => .inr (hin.trans hlevel)
  · exact fun hw _ hlevel => .inr (hout.trans (by rw [hw]; exact hlevel))

/-- An event with `EPOLLIN` is read. -/
private theorem has_read {revents : UInt32} (h : has revents EPOLLIN = true) :
    has revents (EPOLLIN ||| EPOLLPRI ||| EPOLLRDHUP) = true := by
  simp only [has, bne_iff_ne, ne_eq] at h ⊢
  intro hnone
  have hin : EPOLLIN = (EPOLLIN ||| EPOLLPRI ||| EPOLLRDHUP) &&& EPOLLIN := by decide
  rw [hin, ← UInt32.and_assoc, hnone] at h
  exact h (by decide)

/-- The loop thread goes on inside `Channel::handler`. -/
theorem Attentive.moveTo (h : w.Attentive) (hcallback : w.inCallback = false) {now point : Point}
    (hpoint : w.point = now) (hnow : now ≠ .writeLoop) (hnow' : now ≠ .drained)
    (hopen : Open point) (hwriting : point = .writeLoop → w.conn.channel_.isWriting = true)
    (hread : willRead now = true → willRead point = true)
    (hwrite : willWrite now = true → w.conn.channel_.isWriting = true →
      willWrite point = true) : Attentive { w with point } := by
  subst hpoint
  refine h.goOn hnow rfl rfl (fun hs _ => h.shutdown hs hnow') h.room hopen ?_ hwriting ?_ ?_
  · simp [hcallback]
  · exact fun hlevel => (h.read hlevel).imp_right hread
  · exact fun hw hne hlevel => (h.write ⟨hne, hlevel⟩).imp_right fun hwork => hwrite hwork hw

/-- Everything is written, and the channel stops waiting for room. -/
theorem Attentive.drained (h : w.Attentive) (hnil : w.conn.outputBuffer_ = []) (e : Event)
    (isSet : Bool) : (w.disableWrite.invoke isSet e .drained).Attentive := by
  have hregistered := h.registered.disableWrite
  have hread := (hregistered.heard_epollCtl w.kernel (willRead .drained = true)).1
  have hattentive : ∀ c : TcpConnection, c.channel_ = w.conn.channel_.disableWrite →
      c.outputBuffer_ = [] →
      Attentive ⟨c, w.kernel.epollCtl w.conn.channel_.disableWrite, .drained, isSet⟩ := by
    intro c hchannel houtput
    refine ⟨?_, trivial, fun _ => rfl, by simp, ?_, h.room, hread,
      .stop fun hlevel => hlevel.1 houtput, fun _ hne => absurd rfl hne⟩
    · rw [hchannel]
      exact hregistered
    · simp [hchannel, houtput]
  cases isSet
  · exact hattentive _ rfl hnil
  · exact hattentive _ rfl hnil

/-- The loop thread goes on to its next system call or callback. -/
theorem Attentive.go (h : w.Attentive) (hcallback : w.inCallback = false) {w' : Endpoint}
    (hw' : w.go w.point = some w') (hup : w'.conn.state_ ≠ .kDisconnected) : w'.Attentive := by
  cases hpoint : w.point with
  | idle | readLoop revents => simp [hpoint, Endpoint.go] at hw'
  | close next =>
    have hopen := h.isOpen
    rw [hpoint] at hopen
    exact hopen.elim
  | error revents =>
    simp only [hpoint, Endpoint.go] at hw'
    split_ifs at hw'
    · obtain rfl := Option.some.inj hw'
      exact absurd (state_handleClose _ _) hup
    · obtain rfl := Option.some.inj hw'
      exact h.moveTo hcallback hpoint (by simp) (by simp) trivial (by simp) id
        fun hout _ => hout
  | read revents =>
    simp only [hpoint, Endpoint.go] at hw'
    split_ifs at hw' with hevents
    · obtain rfl := Option.some.inj hw'
      exact h.moveTo hcallback hpoint (by simp) (by simp) trivial (by simp) (fun _ => rfl)
        fun hout _ => hout
    · obtain rfl := Option.some.inj hw'
      exact h.moveTo hcallback hpoint (by simp) (by simp) trivial (by simp)
        (fun hin => absurd (has_read hin) hevents) fun hout _ => hout
  | write revents =>
    simp only [hpoint, Endpoint.go] at hw'
    split_ifs at hw' with hevents
    · obtain rfl := Option.some.inj hw'
      exact h.moveTo hcallback hpoint (by simp) (by simp) trivial
        (fun _ => (Bool.and_eq_true_iff.mp hevents).2) (by simp [willRead]) fun _ _ => rfl
    · obtain rfl := Option.some.inj hw'
      exact h.moveTo hcallback hpoint (by simp) (by simp) trivial (by simp) (by simp [willRead])
        fun hout hw => absurd (Bool.and_eq_true_iff.mpr ⟨hout, hw⟩) hevents
  | writeLoop =>
    simp only [hpoint, Endpoint.go, assert_eq_some_iff, Option.some.injEq] at hw'
    obtain ⟨hnil, rfl⟩ := hw'
    exact h.drained hnil _ _
  | drained =>
    simp only [hpoint, Endpoint.go, Option.some.injEq] at hw'
    subst hw'
    have hread := h.read
    have hwrite := h.write
    rw [hpoint] at hread hwrite
    obtain ⟨hchannel, houtput, -⟩ := shutdownInLoop_eq w.conn
    refine h.goOn (by simp [hpoint]) ?_ ?_ ?_ h.room trivial (fun _ => rfl) (by simp) hread
      fun _ hne hlevel => hwrite ⟨hne, hlevel⟩
    · split_ifs
      · exact hchannel
      · rfl
    · split_ifs
      · exact houtput
      · rfl
    · split_ifs with hs
      · exact fun _ _ => TcpConnection.shutdownWrite_or_isWriting _
      · exact fun hs' _ => absurd hs' hs

/-- The loop of `handleRead` looks again, or has seen that there is nothing. -/
theorem Attentive.readv (h : w.Attentive) (hcallback : w.inCallback = false) {revents : UInt32}
    (hpoint : w.point = .readLoop revents) {result : ReadResult} {k : Kernel}
    (hk : w.kernel.readv result = some k)
    (hup : (afterRead { w with kernel := k } revents result).conn.state_ ≠ .kDisconnected) :
    (afterRead { w with kernel := k } revents result).Attentive := by
  have hnow : w.point ≠ .writeLoop := by simp [hpoint]
  have hshutdown : w.conn.state_ = .kDisconnecting →
      .shutdownWrite ∈ w.conn.log ++ [.readv result] ∨ w.conn.channel_.isWriting = true := fun hs =>
    (h.shutdown hs (by simp [hpoint])).imp_left (List.mem_append_left _)
  have hwrite := h.write
  rw [hpoint] at hwrite
  cases result with
  | data bytes =>
    cases bytes with
    | nil => exact absurd (state_handleClose _ _) hup
    | cons x bytes =>
      simp only [Kernel.readv, assert_eq_some_iff, Option.some.injEq] at hk
      obtain ⟨-, rfl⟩ := hk
      refine h.goOn hnow ?_ ?_ ?_ h.room trivial (fun _ => rfl) (by simp) (fun _ => .inr rfl)
        fun _ hne hlevel => hwrite ⟨hne, hlevel⟩
      · split_ifs <;> rfl
      · split_ifs <;> rfl
      · intro hs _
        split_ifs at hs ⊢
        · exact (hshutdown hs).imp_left (List.mem_append_left _)
        · exact hshutdown hs
  | error errno =>
    simp only [Kernel.readv, assert_eq_some_iff, Option.some.injEq] at hk
    obtain ⟨hk, rfl⟩ := hk
    unfold afterRead at hup ⊢
    dsimp only at hup ⊢
    split_ifs at hup ⊢ with hagain
    · have hlow : w.kernel.readable = false := by
        simpa [show errno = EAGAIN from hagain.elim id id] using hk
      exact h.goOn hnow rfl rfl (fun hs _ => hshutdown hs) h.room trivial
        (by simp [hcallback]) (by simp) (fun hlevel => absurd hlevel (by simp [hlow]))
        fun _ hne hlevel => hwrite ⟨hne, hlevel⟩
    · exact absurd (state_handleClose _ _) hup
    · exact absurd (state_handleClose _ _) hup

/-- The loop of `handleWrite` goes on, or has seen that there is no room. -/
theorem Attentive.write_result (h : w.Attentive) (hcallback : w.inCallback = false)
    (hpoint : w.point = .writeLoop) (hne : w.conn.outputBuffer_ ≠ []) {result : WriteResult}
    {room : Bool} {k : Kernel} (hk : w.kernel.write w.conn.outputBuffer_ result room = some k)
    (hup : (afterWrite { w with kernel := k } result).conn.state_ ≠ .kDisconnected) :
    (afterWrite { w with kernel := k } result).Attentive := by
  obtain ⟨hreadable, hpending, -, -, -, hroom⟩ := write_eq_some hk h.room
  have hwriting := h.writing hpoint
  have hread : Heard (k.readable = true) (k.pending = true) (willRead .writeLoop = true) := by
    rw [hreadable, hpending, ← hpoint]
    exact h.read
  obtain ⟨_ | _ | n, errno⟩ := result
  · simp only [Kernel.write, assert_eq_some_iff] at hk
    obtain ⟨herrno, -⟩ := hk
    unfold afterWrite at hup ⊢
    dsimp only at hup ⊢
    split_ifs at hup ⊢ with hzero hagain
    · subst hzero
      simp [EAGAIN] at herrno
    · -- the channel is registered again
      have hregistered := h.registered.disableWrite.enableWrite
      obtain ⟨hread', hwrite'⟩ := hregistered.heard_epollCtl
        (k.epollCtl w.conn.channel_.disableWrite) (willRead .idle = true)
      refine ⟨hregistered, trivial, by simp [hcallback, disableWrite, enableWrite], by simp,
        fun _ => ?_, hroom, hread', ?_, fun _ _ => .inr (Channel.isWriting_enableWrite _)⟩
      · exact ⟨fun _ => hne, fun _ => Channel.isWriting_enableWrite _⟩
      · exact hwrite'.mono (fun hlevel => ⟨Channel.isWriting_enableWrite _, hlevel.2⟩) id id
    · exact absurd (state_handleClose _ _) hup
  · simp only [Kernel.write, assert_eq_some_iff] at hk
    exact absurd (hk.1.2.2.1 hne) (lt_irrefl 0)
  · exact ⟨h.registered, h.isOpen, h.behind, fun _ => hwriting, fun hnow => absurd hpoint hnow,
      hroom, by rw [← hpoint] at hread; exact hread, .taken fun _ => by rw [hpoint]; rfl,
      fun _ _ => .inr hwriting⟩

/-! ## Runs -/

/-- **One step misses nothing**, as long as the connection is up. -/
theorem attentive_step {i : Input} {w' : Endpoint} (hs : step w i = some w')
    (h : w.conn.state_ ≠ .kDisconnected → w.Attentive) (hup : w'.conn.state_ ≠ .kDisconnected) :
    w'.Attentive := by
  replace h := h fun hdown => hup (disconnected_step hs hdown)
  cases i with
  | kernel i =>
    obtain ⟨k, hk, rfl⟩ := Option.map_eq_some_iff.mp hs
    exact h.kernelStep hk
  | poll revents =>
    obtain ⟨⟨hcallback, hidle⟩, hw'⟩ := assert_eq_some_iff.mp hs
    obtain ⟨k, hk, rfl⟩ := Option.map_eq_some_iff.mp hw'
    unfold handleEvents at hup ⊢
    split_ifs at hup ⊢
    · exact absurd (state_handleClose _ _) hup
    · have hpoll := h.poll hidle hk
      rwa [← hcallback] at hpoll
  | task =>
    obtain ⟨⟨hcallback, hidle, -⟩, hw'⟩ := assert_eq_some_iff.mp hs
    obtain rfl := Option.some.inj hw'
    have hread := h.read
    have hwrite := h.write
    rw [hidle] at hread hwrite
    have hshutdown := fun hs => h.shutdown hs (by simp [hidle])
    refine h.goOn (by simp [hidle]) ?_ ?_ ?_ h.room trivial (fun _ => rfl) (by simp) hread
      fun _ hne hlevel => hwrite ⟨hne, hlevel⟩
    · split_ifs <;> rfl
    · split_ifs <;> rfl
    · intro hs _
      split_ifs at hs ⊢
      · exact (hshutdown hs).imp_left (List.mem_append_left _)
      · exact hshutdown hs
  | call k room =>
    obtain ⟨hcall, hw'⟩ := assert_eq_some_iff.mp hs
    have hpoint := h.interest_of_call hcall
    cases k with
    | send message result => exact h.send hpoint hw'
    | shutdown =>
      obtain rfl := Option.some.inj hw'
      exact h.call_shutdown
    | consume len =>
      obtain rfl := Option.some.inj hw'
      exact h.congr rfl rfl h.shutdown
  | ret =>
    obtain ⟨-, hw'⟩ := assert_eq_some_iff.mp hs
    obtain rfl := Option.some.inj hw'
    exact ⟨h.registered, h.isOpen, by simp, h.writing, h.interest, h.room, h.read, h.write,
      h.shutdown⟩
  | go =>
    obtain ⟨hcallback, hw'⟩ := assert_eq_some_iff.mp hs
    exact h.go hcallback hw' hup
  | readv result =>
    obtain ⟨hcallback, hw'⟩ := assert_eq_some_iff.mp hs
    split at hw'
    · rename_i revents hpoint
      obtain ⟨k, hk, rfl⟩ := Option.map_eq_some_iff.mp hw'
      exact h.readv hcallback hpoint hk hup
    · cases hw'
  | write result room =>
    obtain ⟨⟨hcallback, hpoint, hne⟩, hw'⟩ := assert_eq_some_iff.mp hs
    obtain ⟨k, hk, rfl⟩ := Option.map_eq_some_iff.mp hw'
    exact h.write_result hcallback hpoint hne hk hup

/-- A connection that has just been established misses nothing. -/
theorem attentive_established (sockfd : ℕ) (connection message writeComplete close : Bool)
    {kernel : Kernel} (hroom : kernel.sendQueue = [] → kernel.room = true) :
    (established sockfd connection message writeComplete close kernel).Attentive := by
  have hregistered := registered_enableRead sockfd
  have hwriting : (Channel.enableRead { fd_ := sockfd }).isWriting = false := by
    rw [Channel.isWriting_enableRead]
    exact show has 0 Channel.kWriteEvent = false by decide
  have hread := (hregistered.heard_epollCtl kernel (willRead .idle = true)).1
  have hattentive : ∀ c : TcpConnection, c.channel_ = Channel.enableRead { fd_ := sockfd } →
      c.outputBuffer_ = [] → c.state_ = .kConnected →
      Attentive ⟨c, kernel.epollCtl (Channel.enableRead { fd_ := sockfd }), .idle, connection⟩ := by
    intro c hchannel houtput hstate
    refine ⟨?_, trivial, fun _ => rfl, by simp, ?_, hroom, hread,
      .stop fun hlevel => hlevel.1 houtput, ?_⟩
    · rw [hchannel]
      exact hregistered
    · simp [hchannel, houtput, hwriting]
    · simp [hstate]
  cases connection
  · exact hattentive _ rfl rfl rfl
  · exact hattentive _ rfl rfl rfl

/-- **Nothing is missed in any run.** By induction on the run. -/
theorem attentive_run {sockfd : ℕ} {connection message writeComplete close : Bool}
    {kernel : Kernel} (hroom : kernel.sendQueue = [] → kernel.room = true) {steps : List Input}
    (h : run step (established sockfd connection message writeComplete close kernel) steps = some w)
    (hup : w.conn.state_ ≠ .kDisconnected) : w.Attentive :=
  run_invariant (I := fun w => w.conn.state_ ≠ .kDisconnected → w.Attentive)
    (fun hs h => attentive_step hs h) h
    (fun _ => attentive_established sockfd connection message writeComplete close hroom) hup

end Endpoint

end LouisNet.Net
