import LouisNet.Lib.Run
import LouisNet.Lib.SortedMap

set_option relaxedAutoImplicit false
set_option autoImplicit false

/-!
# The connections of a server

The class `TcpServer` of `src/net/TcpServer.cc` as far as it owns its connections: the map
`connections_`, keyed by descriptors, and the tasks that establish, remove and destroy a connection
and hop between the main loop and the loop of the connection. A connection is an object that is
referenced by the map, by the tasks that wait, and by `onNewConnection` while it runs; it is freed,
and its descriptor closed, some time after the last reference is gone. The kernel does not return a
descriptor from `accept` that is still open.

Loops are elements of an arbitrary finite type; a server without sub-loops has its connections in
the main loop, where they are established and removed at once. A loop runs its tasks in the order
in which they were queued.

## Main definitions

* `LouisNet.Net.TcpServer` — the server, its connections and the tasks in its loops.
* `LouisNet.Net.TcpServer.Referenced` — the references to a connection.
* `LouisNet.Net.TcpServer.step` — one step of one loop.
-/

namespace LouisNet.Net

open Lib

/-- A `TcpConnection`, as its server sees it. -/
structure Conn (Λ : Type*) where
  fd : ℕ
  ioLoop : Λ
  /-- The channel is registered with the poller of the loop. -/
  registered : Bool := false
  /-- `connectionDestroyed` has run. -/
  destroyed : Bool := false
  /-- The destructor has run, and the descriptor is closed. -/
  freed : Bool := false
  deriving DecidableEq, Repr

/-- What waits in a loop; every task refers to its connection. -/
inductive Task where
  | connectionEstablished (c : ℕ)
  | removeConnectionInLoop (c : ℕ)
  | connectionDestroyed (c : ℕ)
  deriving DecidableEq, Repr

/-- The connection of a task. -/
def Task.conn : Task → ℕ
  | .connectionEstablished c => c
  | .removeConnectionInLoop c => c
  | .connectionDestroyed c => c

/-- A change of the map, with the entry that was there before. -/
inductive Change where
  | inserted (c : ℕ) (old : Option ℕ)
  | erased (c : ℕ) (old : Option ℕ)
  deriving DecidableEq, Repr

/-- The change does not touch the entry of another connection. -/
def Change.Proper : Change → Prop
  | .inserted _ old => old = none
  | .erased c old => old = none ∨ old = some c

/-- `TcpServer`. Connections are numbered in the order in which they are accepted. -/
structure TcpServer (Λ : Type*) where
  mainLoop_ : Λ
  /-- The loops of `threadPool_`. -/
  subLoops_ : List Λ
  next_ : ℕ := 0
  connections_ : SortedMap ℕ ℕ := .empty
  /-- All connections so far. -/
  objects : List (Conn Λ) := []
  /-- The connection that `onNewConnection` has still to store. -/
  accepting : Option ℕ := none
  tasks_ : Λ → List Task := fun _ => []
  /-- The changes of the map, oldest first. -/
  changes : List Change := []

namespace TcpServer

variable {Λ : Type*} [DecidableEq Λ]

/-! ## The functions of the class -/

omit [DecidableEq Λ] in
/-- Change a connection. -/
def modify (s : TcpServer Λ) (c : ℕ) (f : Conn Λ → Conn Λ) : TcpServer Λ :=
  { s with objects := s.objects.modify c f }

/-- `EventLoop::queueInLoop`. -/
def queueInLoop (s : TcpServer Λ) (loop : Λ) (task : Task) : TcpServer Λ :=
  { s with tasks_ := Function.update s.tasks_ loop (s.tasks_ loop ++ [task]) }

omit [DecidableEq Λ] in
/-- `EventLoopThreadPool::getNextLoop`: the loop, and the new value of `next_`. -/
def getNextLoop (s : TcpServer Λ) : Λ × ℕ :=
  if s.subLoops_ = [] then (s.mainLoop_, s.next_)
  else
    (s.subLoops_.getD s.next_ s.mainLoop_,
      if s.next_ + 1 ≥ s.subLoops_.length then 0 else s.next_ + 1)

omit [DecidableEq Λ] in
/-- `TcpConnection::connectionEstablished`. -/
def connectionEstablished (s : TcpServer Λ) (c : ℕ) : TcpServer Λ :=
  s.modify c fun o => { o with registered := true }

omit [DecidableEq Λ] in
/-- `TcpConnection::connectionDestroyed`. -/
def connectionDestroyed (s : TcpServer Λ) (c : ℕ) : TcpServer Λ :=
  s.modify c fun o => { o with registered := false, destroyed := true }

/-- `TcpServer::onNewConnection` up to the store into `connections_`. It runs on the main loop, so
a connection of the main loop is established at once. -/
def onNewConnection (s : TcpServer Λ) (sockfd : ℕ) : TcpServer Λ :=
  let (ioLoop, next_) := s.getNextLoop
  let conn := s.objects.length
  let s : TcpServer Λ := { s with
    next_
    objects := s.objects ++ [{ fd := sockfd, ioLoop }]
    accepting := some conn }
  if ioLoop = s.mainLoop_ then s.connectionEstablished conn
  else s.queueInLoop ioLoop (.connectionEstablished conn)

omit [DecidableEq Λ] in
/-- The end of `TcpServer::onNewConnection`. -/
def store (s : TcpServer Λ) (sockfd conn : ℕ) : TcpServer Λ :=
  { s with
    connections_ := s.connections_.insert sockfd conn
    accepting := none
    changes := s.changes ++ [.inserted conn (s.connections_.find? sockfd)] }

/-- `TcpServer::removeConnectionInLoop`. -/
def removeConnectionInLoop (s : TcpServer Λ) (conn : ℕ) (o : Conn Λ) : TcpServer Λ :=
  ({ s with
      connections_ := s.connections_.erase o.fd
      changes := s.changes ++ [.erased conn (s.connections_.find? o.fd)] } :
    TcpServer Λ).queueInLoop o.ioLoop (.connectionDestroyed conn)

/-- `TcpServer::removeConnection`, called in the loop of the connection. -/
def removeConnection (s : TcpServer Λ) (conn : ℕ) (o : Conn Λ) : TcpServer Λ :=
  if o.ioLoop = s.mainLoop_ then s.removeConnectionInLoop conn o
  else s.queueInLoop s.mainLoop_ (.removeConnectionInLoop conn)

/-! ## Steps -/

omit [DecidableEq Λ] in
/-- The descriptor is open. -/
def isOpen (s : TcpServer Λ) (fd : ℕ) : Bool := s.objects.any fun o => !o.freed && o.fd == fd

omit [DecidableEq Λ] in
/-- Something refers to the connection. -/
def Referenced (s : TcpServer Λ) (c : ℕ) : Prop :=
  s.accepting = some c ∨ (∃ e ∈ s.connections_.entries, e.2 = c) ∨
    ∃ loop, ∃ task ∈ s.tasks_ loop, task.conn = c

instance [Fintype Λ] (s : TcpServer Λ) (c : ℕ) : Decidable (s.Referenced c) :=
  inferInstanceAs (Decidable (_ ∨ _ ∨ _))

/-- The steps of the loops. -/
inductive Step (Λ : Type*) where
  /-- `accept` returns a descriptor, and `onNewConnection` is called -/
  | accept (sockfd : ℕ)
  /-- `onNewConnection` stores the connection and returns -/
  | store
  /-- the loop of a connection invokes its close callback -/
  | close (c : ℕ)
  /-- a loop runs its next task -/
  | runTask (loop : Λ)
  /-- a connection without references is freed -/
  | free (c : ℕ)
  deriving DecidableEq, Repr

/-- A task runs. -/
def perform (s : TcpServer Λ) : Task → TcpServer Λ
  | .connectionEstablished c => s.connectionEstablished c
  | .connectionDestroyed c => s.connectionDestroyed c
  | .removeConnectionInLoop c =>
    match s.objects[c]? with
    | some o => s.removeConnectionInLoop c o
    | none => s

/-- One step of one loop. While `onNewConnection` runs, the main loop does nothing else. The close
callback is invoked for events, which only a registered channel has. -/
def step [Fintype Λ] (s : TcpServer Λ) : Step Λ → Option (TcpServer Λ)
  | .accept sockfd =>
    assert (s.accepting = none ∧ s.isOpen sockfd = false) <| some (s.onNewConnection sockfd)
  | .store =>
    match s.accepting with
    | none => none
    | some c =>
      match s.objects[c]? with
      | none => none
      | some o => some (s.store o.fd c)
  | .close c =>
    match s.objects[c]? with
    | none => none
    | some o =>
      assert (o.registered = true ∧ (o.ioLoop = s.mainLoop_ → s.accepting = none)) <|
      some (s.removeConnection c o)
  | .runTask loop =>
    assert (loop = s.mainLoop_ → s.accepting = none) <|
    match s.tasks_ loop with
    | [] => none
    | task :: tasks =>
      some (({ s with tasks_ := Function.update s.tasks_ loop tasks } : TcpServer Λ).perform task)
  | .free c =>
    assert (¬ s.Referenced c) <| some (s.modify c fun o => { o with freed := true })

end TcpServer

end LouisNet.Net
