import LouisNet.Reactor.Channel

set_option relaxedAutoImplicit false
set_option autoImplicit false

/-!
# The connector

The class `Connector` of `src/net/Connector.h` and `src/net/Connector.cc`: it makes sockets,
connects them, and hands those that are connected to its owner. The functors it queues in its
event loop are part of its state and run in the order in which they were queued. What the kernel
answers, the events on the channel, and the calls that the owner makes in the new connection
callback are inputs. Sockets are numbered in the order of their creation, and what happens to
them is recorded.

A failed assertion, and a null channel that is used, end the program, which is `none`. With
`NDEBUG` assertions are not checked.

## Main definitions

* `LouisNet.Net.Connector` — the connector and its queued functors.
* `LouisNet.Net.Connector.Input`, `LouisNet.Net.Connector.step`, `LouisNet.Net.Connector.run` —
  what a connector is given, one step, and a run.
-/

namespace LouisNet.Net

open Reactor

namespace Connector

/-- `Connector::State`. -/
inductive State where
  | kDisconnected
  | kConnecting
  | kConnected
  deriving DecidableEq, Repr

/-- The functors that a connector queues in its event loop. -/
inductive Task where
  | startInLoop
  | stopInLoop
  | resetChannel
  deriving DecidableEq, Repr

/-- What the kernel answers in `connect`: there is no socket, or `connect` succeeds, goes on in
the background, or fails. -/
inductive ConnectResult where
  | noSocket
  | ok
  | EINPROGRESS
  | failed
  deriving DecidableEq, Repr

/-- What happens to a socket: it is created, the poller reports an error on it, it is closed, and
it is handed to `newConnectionCallback_`. -/
inductive Action where
  | create (fd : ℕ)
  | error (fd : ℕ)
  | close (fd : ℕ)
  | handOver (fd : ℕ)
  deriving DecidableEq, Repr

/-- A call of a public function in the loop thread. -/
inductive Call where
  | start (result : ConnectResult)
  | stop
  | restart (result : ConnectResult)
  deriving DecidableEq, Repr

/-- What a connector is given: a call in the loop thread, a call of `start` in another thread,
the next queued functor, or an event on its channel, with the calls that `newConnectionCallback_`
makes if it is called. -/
inductive Input where
  | call (call : Call)
  | startRemote
  | runTask (result : ConnectResult)
  | event (revents : UInt32) (calls : List Call)
  deriving DecidableEq, Repr

end Connector

/-- `Connector`, with the functors that wait in the event loop, the number of sockets created,
and what has happened to them. -/
structure Connector where
  connected_ : Bool := false
  state_ : Connector.State := .kDisconnected
  channel_ : Option Channel := none
  tasks_ : List Connector.Task := []
  sockets : ℕ := 0
  log : List Connector.Action := []
  deriving DecidableEq, Repr

namespace Connector

/-! ## Sockets and assertions -/

/-- `assert`. -/
def assert (NDEBUG : Bool) (p : Prop) [Decidable p] : Option Unit :=
  if NDEBUG = true ∨ p then some () else none

/-- Record what happens to a socket. -/
def record (c : Connector) (a : Action) : Connector := { c with log := c.log ++ [a] }

/-- `sockets::createNonblockingSocket`, when there is a socket. -/
def createNonblockingSocket (c : Connector) : Connector × ℕ :=
  (({ c with sockets := c.sockets + 1 } : Connector).record (.create c.sockets), c.sockets)

/-- `::close`. -/
def close (c : Connector) (sockfd : ℕ) : Connector := c.record (.close sockfd)

/-- `EventLoop::queueInLoop`. -/
def queueInLoop (c : Connector) (task : Task) : Connector := { c with tasks_ := c.tasks_ ++ [task] }

/-- The socket whose channel is registered in the poller. -/
def waiting (c : Connector) : Option ℕ :=
  match c.channel_ with
  | none => none
  | some ch => if ch.isInLoop_ then some ch.fd_ else none

/-! ## The functions of the class -/

/-- `Connector::connecting`. The channel that is replaced must not be registered: its destructor
asserts it. -/
def connecting (NDEBUG : Bool) (c : Connector) (sockfd : ℕ) : Option Connector := do
  assert NDEBUG (c.waiting = none)
  return { c with
    state_ := .kConnecting
    channel_ := some ({ fd_ := sockfd } : Channel).enableWrite }

/-- `Connector::connect`. Without a socket, `connect` and `close` on the descriptor `-1` fail and
do nothing. -/
def connect (NDEBUG : Bool) (c : Connector) (result : ConnectResult) : Option Connector :=
  match result with
  | .noSocket => some c
  | .ok =>
    let (c, sockfd) := c.createNonblockingSocket
    c.connecting NDEBUG sockfd
  | .EINPROGRESS =>
    let (c, sockfd) := c.createNonblockingSocket
    c.connecting NDEBUG sockfd
  | .failed =>
    let (c, sockfd) := c.createNonblockingSocket
    some (c.close sockfd)

/-- `Connector::startInLoop`. -/
def startInLoop (NDEBUG : Bool) (c : Connector) (result : ConnectResult) : Option Connector := do
  assert NDEBUG (c.state_ = .kDisconnected)
  if c.connected_ then c.connect NDEBUG result else some c

/-- `Connector::getSocket`. -/
def getSocket (c : Connector) : Option (Connector × ℕ) :=
  match c.channel_ with
  | none => none
  | some ch =>
    let ch := ch.disableAll.remove
    some (({ c with channel_ := some ch } : Connector).queueInLoop .resetChannel, ch.fd_)

/-- `Connector::stopInLoop`. -/
def stopInLoop (c : Connector) : Option Connector :=
  if c.state_ = .kConnecting then do
    let (c, sockfd) ← getSocket { c with state_ := .kDisconnected }
    return c.close sockfd
  else some c

/-- `Connector::resetChannel`. The channel must not be registered: its destructor asserts it. -/
def resetChannel (NDEBUG : Bool) (c : Connector) : Option Connector := do
  assert NDEBUG (c.waiting = none)
  return { c with channel_ := none }

/-- `Connector::start`, called in the loop thread. -/
def start (NDEBUG : Bool) (c : Connector) (result : ConnectResult) : Option Connector :=
  ({ c with connected_ := true } : Connector).startInLoop NDEBUG result

/-- `Connector::start`, called in another thread. -/
def startRemote (c : Connector) : Connector :=
  ({ c with connected_ := true } : Connector).queueInLoop .startInLoop

/-- `Connector::stop`. -/
def stop (c : Connector) : Connector :=
  ({ c with connected_ := false } : Connector).queueInLoop .stopInLoop

/-- `Connector::restart`. -/
def restart (NDEBUG : Bool) (c : Connector) (result : ConnectResult) : Option Connector :=
  ({ c with state_ := .kDisconnected, connected_ := true } : Connector).startInLoop NDEBUG result

/-- A call in the loop thread. -/
def runCall (NDEBUG : Bool) (c : Connector) : Call → Option Connector
  | .start result => c.start NDEBUG result
  | .stop => some c.stop
  | .restart result => c.restart NDEBUG result

/-- `Connector::handleWrite`, with the calls that `newConnectionCallback_` makes. -/
def handleWrite (NDEBUG : Bool) (calls : List Call) (c : Connector) : Option Connector :=
  if c.state_ = .kConnecting then do
    let (c, sockfd) ← getSocket { c with state_ := .kConnected }
    calls.foldlM (runCall NDEBUG) (c.record (.handOver sockfd))
  else do
    assert NDEBUG (c.state_ = .kDisconnected)
    return c

/-- `Connector::handleError`. -/
def handleError (NDEBUG : Bool) (c : Connector) : Option Connector := do
  assert NDEBUG (c.state_ = .kConnecting)
  let (c, sockfd) ← c.getSocket
  return c.close sockfd

/-- An event on the channel. The poller reports events on registered channels only; the channel
has a write callback and an error callback. -/
def handleEvents (NDEBUG : Bool) (revents : UInt32) (calls : List Call) (c : Connector) :
    Option Connector :=
  match c.waiting with
  | none => some c
  | some sockfd =>
    let c := if has revents EPOLLERR then c.record (.error sockfd) else c
    Channel.handler revents id (·.bind (handleError NDEBUG)) id (·.bind (handleWrite NDEBUG calls))
      (some c)

/-! ## Runs -/

/-- A functor that runs. -/
def runFunctor (NDEBUG : Bool) (c : Connector) (result : ConnectResult) : Task → Option Connector
  | .startInLoop => c.startInLoop NDEBUG result
  | .stopInLoop => c.stopInLoop
  | .resetChannel => c.resetChannel NDEBUG

/-- One step of a connector. -/
def step (NDEBUG : Bool) (c : Connector) : Input → Option Connector
  | .call call => c.runCall NDEBUG call
  | .startRemote => some c.startRemote
  | .runTask result =>
    match c.tasks_ with
    | [] => some c
    | task :: tasks => ({ c with tasks_ := tasks } : Connector).runFunctor NDEBUG result task
  | .event revents calls => c.handleEvents NDEBUG revents calls

/-- A run of a connector. -/
def run (NDEBUG : Bool) (c : Connector) (inputs : List Input) : Option Connector :=
  inputs.foldlM (step NDEBUG) c

end Connector

end LouisNet.Net
