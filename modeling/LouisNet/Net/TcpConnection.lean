import LouisNet.Lib.CLib
import LouisNet.Reactor.Channel

set_option relaxedAutoImplicit false
set_option autoImplicit false

/-!
# Connections

The class `TcpConnection` of `src/net/TcpConnection.h` and `src/net/TcpConnection.cc`, on its
loop thread. The two buffers are given by their readable bytes. What the code does not decide
is supplied to it step by step: the results of `readv`, `write` and `getsockopt`, and what the
code of the user does in a callback, a list of calls of `send` and `shutdown` and of reads from
the input buffer. The connection keeps a log of the callbacks it has made, of what the kernel
has reported, and of the bytes it has accepted and written.

## Main definitions

* `LouisNet.Net.TcpConnection` — the connection, with its log.
* `LouisNet.Net.TcpConnection.handleRead`, `LouisNet.Net.TcpConnection.handleWrite`,
  `LouisNet.Net.TcpConnection.handleClose`, `LouisNet.Net.TcpConnection.handleError` — the four
  handlers.
* `LouisNet.Net.TcpConnection.send`, `LouisNet.Net.TcpConnection.shutdown` — the calls.
* `LouisNet.Net.TcpConnection.step`, `LouisNet.Net.TcpConnection.run` — one step of the loop
  thread, and a run.
-/

namespace LouisNet.Net

open Lib Reactor

/-! ## The system calls -/

/-- `EAGAIN`. -/
def EAGAIN : ℕ := 11

/-- `EWOULDBLOCK`. -/
def EWOULDBLOCK : ℕ := 11

/-- `EPIPE`. -/
def EPIPE : ℕ := 32

/-- `ECONNRESET`. -/
def ECONNRESET : ℕ := 104

/-- What `readv` returns: the bytes read, none of them at the end of the stream, or an error. -/
inductive ReadResult where
  | data (bytes : Bytes)
  | error (errno : ℕ)
  deriving DecidableEq, Repr

/-- What `write` returns, a number of bytes or `-1`, and the value of `errno` behind it. -/
structure WriteResult where
  ret : Option ℕ
  errno : ℕ := 0
  deriving DecidableEq, Repr

/-! ## The connection -/

/-- `TcpConnection::StateE`. -/
inductive StateE where
  | kDisconnected
  | kConnecting
  | kConnected
  | kDisconnecting
  deriving DecidableEq, Repr

/-- What the code of the user does with a connection. A message comes with the result of the
`write` that sending it may make. -/
inductive Call where
  | send (message : Bytes) (result : WriteResult)
  | shutdown
  | consume (len : ℕ)
  deriving DecidableEq, Repr

/-- What a step is supplied with: the results of `readv` and of the calls of `write` in
`handleWrite`, after the last of which the call would block; the values of `SO_ERROR`; and the
calls that each callback makes. -/
structure Supply where
  reads : List ReadResult := []
  writes : List WriteResult := []
  errors : List ℕ := []
  callbacks : List (List Call) := []
  deriving DecidableEq, Repr

/-- What happens on a connection. -/
inductive Event where
  /-- the connection callback is invoked in the given state -/
  | connectionCallback (state : StateE)
  | messageCallback
  | writeCompleteCallback
  | closeCallback
  /-- an event without `EPOLLIN` reports `EPOLLHUP` -/
  | hangUp
  /-- an event reports `EPOLLERR` -/
  | errorEvent
  /-- `readv` returns in `handleRead` -/
  | readv (result : ReadResult)
  /-- `write` returns in `handleWrite` -/
  | write (result : WriteResult)
  /-- a message is sent in the state `kConnected` -/
  | accepted (message : Bytes)
  /-- bytes are written to the socket -/
  | wrote (bytes : Bytes)
  /-- the write end of the socket is shut down -/
  | shutdownWrite
  deriving DecidableEq, Repr

/-- `TcpConnection`. The four callbacks are set or not, `tasks` is the number of write-complete
callbacks queued in the loop, and `log` lists what has happened. -/
structure TcpConnection where
  channel_ : Channel
  state_ : StateE := .kConnecting
  error_ : ℕ := 0
  connectionCallback_ : Bool
  messageCallback_ : Bool
  writeCompleteCallback_ : Bool
  closeCallback_ : Bool
  outputBuffer_ : Bytes := []
  inputBuffer_ : Bytes := []
  tasks : ℕ := 0
  supply : Supply := {}
  log : List Event := []
  deriving DecidableEq, Repr

namespace TcpConnection

/-- The constructor, with the callbacks that are set on the new connection. -/
def new (sockfd : ℕ) (connection message writeComplete close : Bool) (supply : Supply) :
    TcpConnection where
  channel_ := { fd_ := sockfd }
  connectionCallback_ := connection
  messageCallback_ := message
  writeCompleteCallback_ := writeComplete
  closeCallback_ := close
  supply

/-- The connection after an event. -/
def emit (c : TcpConnection) (e : Event) : TcpConnection := { c with log := c.log ++ [e] }

/-! ## Sending and shutting down -/

/-- `TcpConnection::shutdownInLoop`. -/
def shutdownInLoop (c : TcpConnection) : TcpConnection :=
  if !c.channel_.isWriting then c.emit .shutdownWrite else c

/-- `TcpConnection::shutdown`. -/
def shutdown (c : TcpConnection) : TcpConnection :=
  if c.state_ = .kConnected then shutdownInLoop { c with state_ := .kDisconnecting } else c

/-- The direct write of `TcpConnection::sendInLoop`: the connection, the bytes written, and
`savedError`. -/
def writeDirect (c : TcpConnection) (data : Bytes) (result : WriteResult) :
    TcpConnection × ℕ × ℕ :=
  match result.ret with
  | some n =>
    let nwrote := min n data.length
    let c := c.emit (.wrote (data.take nwrote))
    if data.length - nwrote = 0 ∧ c.writeCompleteCallback_ then
      ({ c with tasks := c.tasks + 1 }, nwrote, 0)
    else (c, nwrote, 0)
  | none =>
    if result.errno ≠ EAGAIN ∧ result.errno ≠ EWOULDBLOCK then
      if result.errno = EPIPE ∨ result.errno = ECONNRESET then (c, 0, result.errno) else (c, 0, 0)
    else (c, 0, 0)

/-- `TcpConnection::sendInLoop`: write directly if nothing waits to be written, and put what is
left into the output buffer. -/
def sendInLoop (c : TcpConnection) (data : Bytes) (result : WriteResult) : TcpConnection :=
  if c.state_ = .kDisconnected then c
  else
    let (c, nwrote, savedError) :=
      if !c.channel_.isWriting ∧ c.outputBuffer_ = [] then c.writeDirect data result else (c, 0, 0)
    if savedError = 0 ∧ 0 < data.length - nwrote then
      let c := { c with outputBuffer_ := c.outputBuffer_ ++ data.drop nwrote }
      if !c.channel_.isWriting then { c with channel_ := c.channel_.enableWrite } else c
    else c

/-- `TcpConnection::send`, on the loop thread. -/
def send (c : TcpConnection) (message : Bytes) (result : WriteResult) : TcpConnection :=
  if c.state_ = .kConnected then (c.emit (.accepted message)).sendInLoop message result else c

/-- A call by the code of the user. -/
def call (c : TcpConnection) : Call → TcpConnection
  | .send message result => c.send message result
  | .shutdown => c.shutdown
  | .consume len => { c with inputBuffer_ := c.inputBuffer_.drop len }

/-! ## The callbacks -/

/-- The code of the user runs in a callback. -/
def callback (c : TcpConnection) : TcpConnection :=
  match c.supply.callbacks with
  | [] => c
  | calls :: rest => calls.foldl call { c with supply := { c.supply with callbacks := rest } }

/-- Invoke a callback, if it is set. -/
def invoke (c : TcpConnection) (isSet : Bool) (e : Event) : TcpConnection :=
  if isSet then (c.emit e).callback else c

/-- Invoke `connectionCallback_`. -/
def connectionCallback (c : TcpConnection) : TcpConnection :=
  c.invoke c.connectionCallback_ (.connectionCallback c.state_)

/-- Invoke `messageCallback_`. -/
def messageCallback (c : TcpConnection) : TcpConnection :=
  c.invoke c.messageCallback_ .messageCallback

/-- Invoke `writeCompleteCallback_`. -/
def writeCompleteCallback (c : TcpConnection) : TcpConnection :=
  c.invoke c.writeCompleteCallback_ .writeCompleteCallback

/-- Invoke `closeCallback_`. -/
def closeCallback (c : TcpConnection) : TcpConnection :=
  c.invoke c.closeCallback_ .closeCallback

/-! ## The handlers -/

/-- `TcpConnection::connectionEstablished`; its assertion is on the state before. -/
def connectionEstablished (c : TcpConnection) : TcpConnection :=
  connectionCallback { c with state_ := .kConnected, channel_ := c.channel_.enableRead }

/-- `TcpConnection::connectionDestroyed`. -/
def connectionDestroyed (c : TcpConnection) : TcpConnection :=
  { c with state_ := .kDisconnected, channel_ := c.channel_.disableAll.remove }

/-- `TcpConnection::handleClose`. -/
def handleClose (c : TcpConnection) : TcpConnection :=
  (connectionCallback { c with state_ := .kDisconnected }).closeCallback

/-- `TcpConnection::handleError`. -/
def handleError (c : TcpConnection) : TcpConnection :=
  handleClose { c with
    error_ := c.supply.errors.headD 0
    supply := { c.supply with errors := c.supply.errors.tail } }

/-- The loop of `TcpConnection::handleRead` on the results of `readv`. -/
def readLoop : List ReadResult → TcpConnection → TcpConnection
  | [], c => c
  | r :: reads, c =>
    let c := c.emit (.readv r)
    match r with
    | .data [] => c.handleClose
    | .data bytes =>
      readLoop reads (messageCallback { c with inputBuffer_ := c.inputBuffer_ ++ bytes })
    | .error errno =>
      if errno = EAGAIN ∨ errno = EWOULDBLOCK then c
      else if errno = ECONNRESET ∨ errno = EPIPE then c.handleClose
      else c.handleError

/-- `TcpConnection::handleRead`. -/
def handleRead (c : TcpConnection) : TcpConnection := readLoop c.supply.reads c

/-- The end of the loop of `TcpConnection::handleWrite`: everything is written. -/
def drained (c : TcpConnection) : TcpConnection :=
  let c := writeCompleteCallback { c with channel_ := c.channel_.disableWrite }
  if c.state_ = .kDisconnecting then c.shutdownInLoop else c

/-- What `TcpConnection::handleWrite` does behind its loop when `write` has not written. -/
def writeFailed (c : TcpConnection) (savedError : ℕ) : TcpConnection :=
  if savedError = 0 then c
  else if savedError = EAGAIN ∨ savedError = EWOULDBLOCK then
    { c with channel_ := c.channel_.disableWrite.enableWrite }
  else c.handleError

/-- The loop of `TcpConnection::handleWrite` on the results of `write`. -/
def writeLoop : List WriteResult → TcpConnection → TcpConnection
  | [], c => if c.outputBuffer_ = [] then c.drained else c.writeFailed EAGAIN
  | r :: writes, c =>
    if c.outputBuffer_ = [] then c.drained
    else
      let c := c.emit (.write r)
      match r.ret with
      | some (n + 1) =>
        let n := min (n + 1) c.outputBuffer_.length
        let c := c.emit (.wrote (c.outputBuffer_.take n))
        writeLoop writes { c with outputBuffer_ := c.outputBuffer_.drop n }
      | _ => c.writeFailed r.errno

/-- `TcpConnection::handleWrite`. -/
def handleWrite (c : TcpConnection) : TcpConnection :=
  if c.channel_.isWriting then writeLoop c.supply.writes c else c

/-- The channel of the connection handles an event. -/
def handleEvents (c : TcpConnection) (revents : UInt32) : TcpConnection :=
  Channel.handler revents (fun c => (c.emit .hangUp).handleClose)
    (fun c => (c.emit .errorEvent).handleError) handleRead handleWrite c

/-! ## Runs -/

/-- What happens next on the loop thread: an event, a call outside the callbacks, or a queued
write-complete callback. -/
inductive Input where
  | event (revents : UInt32)
  | call (c : Call)
  | task
  deriving DecidableEq, Repr

/-- One step of the loop thread. -/
def step (c : TcpConnection) (i : Input × Supply) : TcpConnection :=
  let c := { c with supply := i.2 }
  match i.1 with
  | .event revents => c.handleEvents revents
  | .call k => c.call k
  | .task =>
    match c.tasks with
    | 0 => c
    | n + 1 => writeCompleteCallback { c with tasks := n }

/-- A run of the loop thread. -/
def run (c : TcpConnection) (inputs : List (Input × Supply)) : TcpConnection :=
  inputs.foldl step c

end TcpConnection

end LouisNet.Net
