import LouisNet.Net.ConnectorChannel
import LouisNet.Net.TcpConnection

set_option relaxedAutoImplicit false
set_option autoImplicit false

/-!
# The client

The class `TcpClient` of `src/net/TcpClient.h` and `src/net/TcpClient.cc`, over its connector. The
client has at most one connection; the connector hands it a socket, and the close callback of the
connection takes it away again. The state of the connector is not told about the end of the
connection, nor about an error of the attempt.

## Main definitions

* `LouisNet.Net.TcpClient` — the client, its connector and its connection.
* `LouisNet.Net.TcpClient.onNewConnection`, `LouisNet.Net.TcpClient.onRemoveConnection` — the
  beginning and the end of the connection.
* `LouisNet.Net.TcpClient.step` — one step of the loop thread.
* `LouisNet.Net.TcpClient.CanRetry` — the next call of `connect` makes a new attempt.

## Main results

* `LouisNet.Net.TcpClient.canRetry_of_orderly` — a client can try again in every run without an
  error of an attempt and without the end of a connection.
-/

namespace LouisNet.Net

open Lib Reactor

namespace TcpClient

/-- The connection of a client, as far as the client looks at it. -/
structure Connection where
  id : ℕ
  sockfd : ℕ
  state_ : StateE := .kConnected
  deriving DecidableEq, Repr

/-- `TcpConnection::shutdown`. -/
def Connection.shutdown (conn : Connection) : Connection :=
  if conn.state_ = .kConnected then { conn with state_ := .kDisconnecting } else conn

/-- What the code of the user calls in the loop thread. -/
inductive Call where
  | connect (result : Connector.ConnectResult)
  | stop
  | disconnect
  deriving DecidableEq, Repr

/-- What a client is given: a call in the loop thread, a call of `connect` in another thread, the
next functor of its connector, the next functor that destroys a connection, an event on the channel
of the connector, and the end of its connection, the latter two with the calls that the connection
callback makes. -/
inductive Input where
  | call (call : Call)
  | connectRemote
  | runTask (result : Connector.ConnectResult)
  | destroyTask
  | event (revents : UInt32) (calls : List Call)
  | close (calls : List Call)
  deriving DecidableEq, Repr

end TcpClient

/-- `TcpClient`, with the connections whose `connectionDestroyed` is queued in the loop. -/
structure TcpClient where
  connector_ : Connector := {}
  connection_ : Option TcpClient.Connection := none
  nextConnId_ : ℕ := 1
  destroyTasks_ : List ℕ := []
  deriving DecidableEq, Repr

namespace TcpClient

/-! ## The functions of the class -/

/-- `TcpClient::connect`, called in the loop thread. -/
def connect (NDEBUG : Bool) (t : TcpClient) (result : Connector.ConnectResult) :
    Option TcpClient := do
  let connector ← t.connector_.start NDEBUG result
  return { t with connector_ := connector }

/-- `TcpClient::connect`, called in another thread. -/
def connectRemote (t : TcpClient) : TcpClient := { t with connector_ := t.connector_.startRemote }

/-- `TcpClient::disconnect`. -/
def disconnect (t : TcpClient) : TcpClient :=
  { t with connection_ := t.connection_.map Connection.shutdown }

/-- `TcpClient::stop`. -/
def stop (t : TcpClient) : TcpClient := { t with connector_ := t.connector_.stop }

/-- A call in the loop thread. -/
def runCall (NDEBUG : Bool) (t : TcpClient) : Call → Option TcpClient
  | .connect result => t.connect NDEBUG result
  | .stop => some t.stop
  | .disconnect => some t.disconnect

/-- The call that a call of the client makes on its connector. -/
def Call.onConnector : Call → Option Connector.Call
  | .connect result => some (.start result)
  | .stop => some .stop
  | .disconnect => none

/-- `TcpClient::onNewConnection` without the calls that the connection callback makes on the
connector, which the connector makes itself. -/
def onNewConnection (t : TcpClient) (sockfd : ℕ) (calls : List Call) : TcpClient :=
  let t := { t with
    connection_ := some { id := t.nextConnId_, sockfd }
    nextConnId_ := t.nextConnId_ + 1 }
  calls.foldl (fun t call => if call = .disconnect then t.disconnect else t) t

/-- `TcpClient::onRemoveConnection`. -/
def onRemoveConnection (NDEBUG : Bool) (t : TcpClient) (id : ℕ) : Option TcpClient := do
  Connector.assert NDEBUG (t.connection_.map Connection.id = some id)
  return { t with connection_ := none, destroyTasks_ := t.destroyTasks_ ++ [id] }

/-- The socket that the connector has handed over between two states. -/
def handedOver (c c' : Connector) : Option ℕ :=
  (c'.log.drop c.log.length).findSome? fun
    | .handOver fd => some fd
    | _ => none

/-- An event on the channel of the connector. -/
def handleEvents (NDEBUG : Bool) (t : TcpClient) (revents : UInt32) (calls : List Call) :
    Option TcpClient := do
  let connector ← t.connector_.handleEvents NDEBUG revents (calls.filterMap Call.onConnector)
  let t' := { t with connector_ := connector }
  match handedOver t.connector_ connector with
  | some sockfd => return t'.onNewConnection sockfd calls
  | none => return t'

/-- `TcpConnection::handleClose` of the connection of the client: the connection callback makes its
calls, and the close callback is `onRemoveConnection`. -/
def handleClose (NDEBUG : Bool) (t : TcpClient) (calls : List Call) : Option TcpClient :=
  match t.connection_ with
  | none => some t
  | some conn => do
    let t := { t with connection_ := some { conn with state_ := .kDisconnected } }
    let t ← calls.foldlM (runCall NDEBUG) t
    t.onRemoveConnection NDEBUG conn.id

/-- One step of the loop thread. -/
def step (NDEBUG : Bool) (t : TcpClient) : Input → Option TcpClient
  | .call call => t.runCall NDEBUG call
  | .connectRemote => some t.connectRemote
  | .runTask result => do
    let connector ← t.connector_.step NDEBUG (.runTask result)
    return { t with connector_ := connector }
  | .destroyTask => some { t with destroyTasks_ := t.destroyTasks_.tail }
  | .event revents calls => t.handleEvents NDEBUG revents calls
  | .close calls => t.handleClose NDEBUG calls

/-! ## Trying again -/

/-- **The client can try again**: if no attempt is under way and there is no connection, the
connector is disconnected, and the next call of `connect` passes its assertion and calls
`Connector::connect`, which returns. -/
def CanRetry (t : TcpClient) : Prop :=
  t.connector_.waiting = none → t.connection_ = none →
    t.connector_.state_ = .kDisconnected ∧ ∀ result, ∃ connector,
      t.connector_.start false result = some connector ∧
      Connector.connect false { t.connector_ with connected_ := true } result = some connector

/-- **The steps after which a client can try again.** The connector is steady, and no connection
ends. -/
def Orderly (t : TcpClient) : Input → Prop
  | .call (.connect result) => t.connector_.MayConnect result
  | .call _ => True
  | .connectRemote => True
  | .runTask result => t.connector_.Steady (.runTask result)
  | .destroyTask => True
  | .event revents calls => t.connector_.Steady (.event revents (calls.filterMap Call.onConnector))
  | .close _ => t.connection_ = none

/-- **The invariant of the client**: its connector has its channel in place, and while the connector
is connected there is a connection. -/
structure Invariant (t : TcpClient) : Prop where
  connecting : t.connector_.Connecting
  placed : t.connector_.Placed
  connected : t.connector_.state_ = .kConnected → t.connection_ ≠ none

/-- An attempt begins where no channel is registered. -/
theorem isSome_connecting {NDEBUG : Bool} {c : Connector} (hw : c.waiting = none) (sockfd : ℕ) :
    (c.connecting NDEBUG sockfd).isSome = true := by
  rw [Connector.connecting, Connector.assert_eq_some_iff.mpr (.inr hw)]
  rfl

/-- A client with the invariant can try again. -/
theorem Invariant.canRetry {t : TcpClient} (h : Invariant t) : CanRetry t := by
  intro hw hnone
  have hstate : t.connector_.state_ = .kDisconnected := by
    cases hs : t.connector_.state_ with
    | kDisconnected => rfl
    | kConnecting => exact absurd hw (h.connecting.waiting_ne_none hs)
    | kConnected => exact absurd hnone (h.connected hs)
  refine ⟨hstate, fun result => ?_⟩
  have hstart : t.connector_.start false result =
      Connector.connect false { t.connector_ with connected_ := true } result := by
    rw [Connector.start, Connector.startInLoop,
      Connector.assert_eq_some_iff.mpr (.inr hstate)]
    rfl
  have hconnect : (Connector.connect false { t.connector_ with connected_ := true }
      result).isSome = true := by
    have hbegin : ((Connector.createNonblockingSocket
        { t.connector_ with connected_ := true }).1.connecting false
          t.connector_.sockets).isSome = true :=
      isSome_connecting (c := (Connector.createNonblockingSocket
        { t.connector_ with connected_ := true }).1) hw t.connector_.sockets
    cases result with
    | noSocket => rfl
    | ok => exact hbegin
    | EINPROGRESS => exact hbegin
    | failed => rfl
  obtain ⟨connector, hconnector⟩ := Option.isSome_iff_exists.mp hconnect
  exact ⟨connector, hstart.trans hconnector, hconnector⟩

/-! ## What the connector says about the state -/

section Connector

open Connector

variable {NDEBUG : Bool} {c c' : Connector}

/-- An attempt does not end where it begins. -/
theorem connected_of_startInLoop {result : ConnectResult}
    (h : c.startInLoop NDEBUG result = some c') (hs : c'.state_ = .kConnected) :
    c.state_ = .kConnected := by
  by_cases hb : result.Begins
  · obtain ⟨-, -, h⟩ := Option.bind_eq_some_iff.mp h
    split_ifs at h
    · have hconnecting : c'.state_ = .kConnecting := by
        rcases hb with rfl | rfl
        · obtain ⟨-, -, h⟩ := Option.bind_eq_some_iff.mp h
          obtain rfl := Option.some.inj h
          rfl
        · obtain ⟨-, -, h⟩ := Option.bind_eq_some_iff.mp h
          obtain rfl := Option.some.inj h
          rfl
      rw [hconnecting] at hs
      cases hs
    · obtain rfl := Option.some.inj h
      exact hs
  · rw [← state_startInLoop h hb, hs]

/-- No functor ends an attempt with a connection. -/
theorem connected_of_runTask {result : ConnectResult}
    (h : c.step NDEBUG (.runTask result) = some c') (hs : c'.state_ = .kConnected) :
    c.state_ = .kConnected := by
  unfold Connector.step at h
  cases htasks : c.tasks_ with
  | nil =>
    simp only [htasks] at h
    obtain rfl := Option.some.inj h
    exact hs
  | cons task tasks =>
    simp only [htasks] at h
    cases task with
    | startInLoop =>
      exact connected_of_startInLoop (c := { c with tasks_ := tasks }) h hs
    | stopInLoop =>
      change Connector.stopInLoop _ = _ at h
      unfold Connector.stopInLoop at h
      split_ifs at h
      · obtain ⟨⟨c₁, fd⟩, hget, h⟩ := Option.bind_eq_some_iff.mp h
        obtain rfl := Option.some.inj h
        rw [close, record, state_getSocket hget] at hs
        cases hs
      · obtain rfl := Option.some.inj h
        exact hs
    | resetChannel =>
      obtain ⟨-, -, h⟩ := Option.bind_eq_some_iff.mp h
      obtain rfl := Option.some.inj h
      exact hs

/-- The log of a ledger only grows. -/
theorem log_prefix_of_steps {l l' : Ledger} (h : Relation.ReflTransGen Ledger.Step l l') :
    l.log <+: l'.log := by
  induction h with
  | refl => exact List.prefix_rfl
  | tail _ hstep ih =>
    refine ih.trans ?_
    cases hstep <;> exact List.prefix_append _ _

/-- An event that ends an attempt with a connection hands the socket over. -/
theorem handedOver_of_handleEvents {revents : UInt32} {calls : List Connector.Call}
    (h : c.handleEvents NDEBUG revents calls = some c') (hp : Placed c)
    (hok : c.Steady (.event revents calls)) (hs : c'.state_ = .kConnected) :
    c.state_ = .kConnected ∨ ∃ fd, handedOver c c' = some fd := by
  unfold Connector.handleEvents at h
  cases hw : c.waiting with
  | none =>
    simp only [hw] at h
    obtain rfl := Option.some.inj h
    exact .inl hs
  | some fd =>
    have hstate : c.state_ = .kConnecting := (hp (by rw [hw]; simp)).1
    have herr : has revents EPOLLERR = false := by simpa [hw] using hok.1
    simp only [hw, Channel.handler, id_eq, ite_self, herr] at h
    by_cases hout : has revents EPOLLOUT = true
    · simp only [hout, if_true] at h
      change Connector.handleWrite NDEBUG calls c = some c' at h
      rw [Connector.handleWrite, if_pos hstate] at h
      obtain ⟨c₁, hget, hl⟩ := @getSocket_of_waiting { c with state_ := .kConnected } fd hw
      rw [hget] at h
      obtain ⟨-, hsteps⟩ := simulates_callback (c := c₁.record (.handOver fd)) h
        (congrArg Ledger.waiting hl) hok.2
      have hlog : c₁.log = c.log := congrArg Ledger.log hl
      obtain ⟨acts, hacts⟩ := log_prefix_of_steps hsteps
      refine .inr ⟨fd, ?_⟩
      change c₁.log ++ [.handOver fd] ++ acts = c'.log at hacts
      rw [handedOver, ← hacts, hlog, List.append_assoc, List.drop_left]
      rfl
    · simp only [hout] at h
      obtain rfl := Option.some.inj h
      exact .inl hs

end Connector

/-! ## Steps and runs -/

variable {NDEBUG : Bool} {t t' : TcpClient}

/-- A connection stays when the client disconnects it. -/
theorem onNewConnection_ne_none (t : TcpClient) (sockfd : ℕ) (calls : List Call) :
    (t.onNewConnection sockfd calls).connector_ = t.connector_ ∧
      (t.onNewConnection sockfd calls).connection_ ≠ none := by
  have hcalls : ∀ (calls : List Call) (t : TcpClient), t.connection_ ≠ none →
      (calls.foldl (fun t call => if call = .disconnect then t.disconnect else t) t).connector_ =
        t.connector_ ∧
      (calls.foldl (fun t call => if call = .disconnect then t.disconnect else t) t).connection_ ≠
        none := by
    intro calls
    induction calls with
    | nil => exact fun t ht => ⟨rfl, ht⟩
    | cons call calls ih =>
      intro t ht
      rw [List.foldl_cons]
      split_ifs
      · exact ih t.disconnect (by simpa [disconnect] using ht)
      · exact ih t ht
  exact hcalls calls _ (by simp)

/-- The connector makes a steady step that ends no attempt with a connection. -/
theorem Invariant.setConnector {connector : Connector} (h : Invariant t) (NDEBUG : Bool)
    (input : Connector.Input)
    (hstep : t.connector_.step NDEBUG input = some connector) (hok : t.connector_.Steady input)
    (hconnected : connector.state_ = .kConnected → t.connector_.state_ = .kConnected) :
    Invariant { t with connector_ := connector } := by
  obtain ⟨hconnecting, hplaced⟩ := Connector.connecting_step hstep h.connecting h.placed hok
  exact ⟨hconnecting, hplaced, fun hs => h.connected (hconnected hs)⟩

/-- An event without an error keeps the invariant: the connector is connected only when it has
handed a socket over, and then there is a connection. -/
theorem Invariant.handleEvents {revents : UInt32} {calls : List Call} (h : Invariant t)
    (hevents : t.handleEvents NDEBUG revents calls = some t')
    (hok : t.connector_.Steady (.event revents (calls.filterMap Call.onConnector))) :
    Invariant t' := by
  obtain ⟨connector, hevent, hs'⟩ := Option.bind_eq_some_iff.mp hevents
  have hconnector : t.connector_.step NDEBUG (.event revents (calls.filterMap Call.onConnector)) =
      some connector := hevent
  obtain ⟨hconnecting, hplaced⟩ := Connector.connecting_step hconnector h.connecting h.placed hok
  have hover := handedOver_of_handleEvents hevent h.placed hok
  split at hs'
  · rename_i sockfd hfd
    obtain rfl := Option.some.inj hs'
    obtain ⟨hsame, hne⟩ := onNewConnection_ne_none { t with connector_ := connector } sockfd calls
    exact ⟨by rwa [hsame], by rwa [hsame], fun _ => hne⟩
  · rename_i hnone
    obtain rfl := Option.some.inj hs'
    refine ⟨hconnecting, hplaced, fun hs => ?_⟩
    rcases hover hs with hs | ⟨fd, hfd⟩
    · exact h.connected hs
    · rw [hnone] at hfd
      cases hfd

/-- **An orderly step keeps the invariant.** -/
theorem Invariant.step {input : Input} (h : Invariant t) (hstep : t.step NDEBUG input = some t')
    (hok : t.Orderly input) : Invariant t' := by
  cases input with
  | call call =>
    cases call with
    | connect result =>
      obtain ⟨connector, hstart, hs'⟩ := Option.bind_eq_some_iff.mp hstep
      obtain rfl := Option.some.inj hs'
      refine h.setConnector NDEBUG (.call (.start result)) hstart hok fun hs => ?_
      exact connected_of_startInLoop (c := { t.connector_ with connected_ := true }) hstart hs
    | stop =>
      obtain rfl := Option.some.inj hstep
      exact h.setConnector NDEBUG (.call .stop) rfl trivial fun hs => hs
    | disconnect =>
      obtain rfl := Option.some.inj hstep
      exact { h with connected := fun hs => by simpa [disconnect] using h.connected hs }
  | connectRemote =>
    obtain rfl := Option.some.inj hstep
    exact h.setConnector NDEBUG .startRemote rfl trivial fun hs => hs
  | runTask result =>
    obtain ⟨connector, hstart, hs'⟩ := Option.bind_eq_some_iff.mp hstep
    obtain rfl := Option.some.inj hs'
    exact h.setConnector NDEBUG (.runTask result) hstart hok fun hs =>
      connected_of_runTask hstart hs
  | destroyTask =>
    obtain rfl := Option.some.inj hstep
    exact { h with }
  | event revents calls => exact h.handleEvents hstep hok
  | close calls =>
    change t.connection_ = none at hok
    change t.handleClose NDEBUG calls = some t' at hstep
    rw [handleClose, hok] at hstep
    obtain rfl := Option.some.inj hstep
    exact h

/-- **A client can try again** in every state that a run of orderly steps reaches: if no attempt is
under way and there is no connection, the connector is disconnected, and the next call of `connect`
makes a new attempt.

**Proof sketch.** The connector leaves the state `kConnecting` whenever the channel is removed,
except behind an error, and it enters the state `kConnected` only when it hands a socket to the
client, which has a connection from then on. -/
theorem canRetry_of_orderly {inputs : List Input} (hrun : run (step NDEBUG) {} inputs = some t)
    (hok : Along (step NDEBUG) Orderly {} inputs) : CanRetry t := by
  have hinv : Invariant t :=
    Along.invariant (fun hstep hok h => Invariant.step h hstep hok) hok hrun
      ⟨by simp [Connector.Connecting], Connector.placed_of_waiting_eq_none rfl, by simp⟩
  exact hinv.canRetry

instance (t : TcpClient) : (input : Input) → Decidable (t.Orderly input)
  | .call (.connect result) => inferInstanceAs (Decidable (t.connector_.MayConnect result))
  | .call .stop => inferInstanceAs (Decidable True)
  | .call .disconnect => inferInstanceAs (Decidable True)
  | .connectRemote => inferInstanceAs (Decidable True)
  | .runTask result => inferInstanceAs (Decidable (t.connector_.Steady (.runTask result)))
  | .destroyTask => inferInstanceAs (Decidable True)
  | .event revents calls =>
    inferInstanceAs (Decidable (t.connector_.Steady
      (.event revents (calls.filterMap Call.onConnector))))
  | .close _ => inferInstanceAs (Decidable (t.connection_ = none))

/-- An attempt that fails at once, and one that is stopped. -/
def retriedRun : List Input :=
  [.call (.connect .failed), .call (.connect .EINPROGRESS), .call .stop, .runTask .ok, .runTask .ok]

/-- The client can try again. -/
theorem canRetry_of_orderly_retried : ∃ t, run (step false) {} retriedRun = some t ∧
    t.connector_.waiting = none ∧ t.connection_ = none ∧ CanRetry t := by
  have hrun : (run (step false) {} retriedRun).map
      (fun t => (t.connector_.waiting, t.connection_)) = some (none, none) := by decide
  obtain ⟨t, ht, hfields⟩ := Option.map_eq_some_iff.mp hrun
  obtain ⟨hwaiting, hconnection⟩ := Prod.mk.inj hfields
  exact ⟨t, ht, hwaiting, hconnection, canRetry_of_orderly ht (by decide)⟩

/-- A client whose connector is not disconnected cannot try again. -/
theorem not_canRetry (hwaiting : t.connector_.waiting = none) (hconnection : t.connection_ = none)
    (hstate : t.connector_.state_ ≠ .kDisconnected) : ¬ CanRetry t :=
  fun h => hstate (h hwaiting hconnection).1

/-- After the end of a connection the connector is still connected, and after an error of an attempt
it is still connecting; the next call of `connect` does not pass its assertion. -/
theorem not_canRetry_closed :
    (∃ t, run (step false) {} [.call (.connect .EINPROGRESS), .event EPOLLOUT [], .runTask .ok,
        .close [], .destroyTask] = some t ∧
      t.connector_.state_ = .kConnected ∧ t.connector_.start false .EINPROGRESS = none ∧
      ¬ CanRetry t) ∧
    (∃ t, run (step false) {} [.call (.connect .EINPROGRESS), .event EPOLLERR [],
        .runTask .ok] = some t ∧
      t.connector_.state_ = .kConnecting ∧ t.connector_.start false .EINPROGRESS = none ∧
      ¬ CanRetry t) := by
  constructor
  · have hrun : (run (step false) {} [.call (.connect .EINPROGRESS), .event EPOLLOUT [],
        .runTask .ok, .close [], .destroyTask]).map (fun t => (t.connector_.waiting, t.connection_,
          t.connector_.state_, t.connector_.start false .EINPROGRESS)) =
        some (none, none, .kConnected, none) := by decide
    obtain ⟨t, ht, hfields⟩ := Option.map_eq_some_iff.mp hrun
    simp only [Prod.mk.injEq] at hfields
    obtain ⟨hwaiting, hconnection, hstate, hstart⟩ := hfields
    exact ⟨t, ht, hstate, hstart, not_canRetry hwaiting hconnection (by simp [hstate])⟩
  · have hrun : (run (step false) {} [.call (.connect .EINPROGRESS), .event EPOLLERR [],
        .runTask .ok]).map (fun t => (t.connector_.waiting, t.connection_, t.connector_.state_,
          t.connector_.start false .EINPROGRESS)) = some (none, none, .kConnecting, none) := by
      decide
    obtain ⟨t, ht, hfields⟩ := Option.map_eq_some_iff.mp hrun
    simp only [Prod.mk.injEq] at hfields
    obtain ⟨hwaiting, hconnection, hstate, hstart⟩ := hfields
    exact ⟨t, ht, hstate, hstart, not_canRetry hwaiting hconnection (by simp [hstate])⟩

end TcpClient

end LouisNet.Net
