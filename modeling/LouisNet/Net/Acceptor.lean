import LouisNet.Lib.Run
import LouisNet.Net.TcpConnection

set_option relaxedAutoImplicit false
set_option autoImplicit false

/-!
# The acceptor

The class `Acceptor` of `src/net/Acceptor.cc` and the way of an accepted descriptor: from `accept4`
through `handleRead` into `TcpServer::onNewConnection`, where a `Socket` takes it over, whose
destructor closes it. The `catch` block of `onNewConnection` closes it too. So an exception that is
thrown when the `Socket` exists closes the descriptor a second time, or closes it under a connection
that lives on; and `handleRead` takes the descriptor `0` for an error, looks at an old `errno`, and
forgets the descriptor.

## Main definitions

* `LouisNet.Net.onNewConnection` — the way of a descriptor into a connection, with an exception.
* `LouisNet.Net.Acceptor.handleRead` — the loop over `accept4`.
* `LouisNet.Net.Acceptor.Good` — every accepted descriptor is owned or closed once, and the loop was
  left in order.
* `LouisNet.Net.Acceptor.Clean` — what `accept4` and `onNewConnection` have to do for it.

## Main results

* `LouisNet.Net.Acceptor.good_iff_clean` — it is so in exactly the runs in which they do it.
-/

namespace LouisNet.Net

open Lib Reactor

/-! ## New connections -/

/-- The statements of `TcpServer::onNewConnection`, with the steps of the constructor of
`TcpConnection` in the place of its call: memory for the connection, the member `socket_`, and the
members and statements behind it. -/
inductive Statement where
  | getNextLoop
  | makeShared
  | makeSocket
  | initMembers
  | setConnectionCallback
  | setMessageCallback
  | setWriteCompleteCallback
  | setCloseCallback
  | runInLoop
  | store
  deriving DecidableEq, Repr

/-- The loop of a new connection: the main loop, whose thread calls `onNewConnection`, or another
one, which may have run the functor before `onNewConnection` goes on. -/
inductive IoLoop where
  | main
  | other (ran : Bool)
  deriving DecidableEq, Repr

/-- A descriptor on its way into a connection. -/
structure Handover where
  /-- There is a `Socket` with the descriptor. -/
  socket_ : Bool := false
  /-- The local variable `conn` refers to the connection. -/
  conn : Bool := false
  state_ : StateE := .kConnecting
  /-- A functor that waits in the loop of the connection refers to it. -/
  functor : Bool := false
  /-- `connections_` refers to it. -/
  stored : Bool := false
  /-- How often the descriptor was closed. -/
  closes : ℕ := 0
  deriving DecidableEq, Repr

namespace Handover

/-- `::close`. -/
def close (h : Handover) : Handover := { h with closes := h.closes + 1 }

/-- `Socket::~Socket`. -/
def destroySocket (h : Handover) : Handover := { h.close with socket_ := false }

/-- A statement that completes. A functor that has run refers to nothing. -/
def perform (ioLoop : IoLoop) (h : Handover) : Statement → Handover
  | .makeSocket => { h with socket_ := true }
  | .initMembers => { h with conn := true }
  | .runInLoop =>
    match ioLoop with
    | .main => { h with state_ := .kConnected }
    | .other true => { h with state_ := .kConnected }
    | .other false => { h with functor := true }
  | .store => { h with stored := true }
  | .getNextLoop | .makeShared | .setConnectionCallback | .setMessageCallback
  | .setWriteCompleteCallback | .setCloseCallback => h

/-- The statements one after another, up to the one that throws; and whether one does. -/
def performAll (ioLoop : IoLoop) (throws : Option Statement) :
    List Statement → Handover → Handover × Bool
  | [], h => (h, false)
  | statement :: statements, h =>
    if throws = some statement then (h, true)
    else performAll ioLoop throws statements (h.perform ioLoop statement)

/-- The end of the scope of `conn`. A connection without references is destroyed, which its
destructor asserts to be disconnected; members of a connection whose constructor has thrown are
destroyed without it. -/
def leaveScope (NDEBUG : Bool) (h : Handover) : Option Handover :=
  if h.conn then
    if h.functor || h.stored then some { h with conn := false }
    else
      assert (NDEBUG = true ∨ h.state_ = .kDisconnected) <|
      some { h.destroySocket with conn := false }
  else if h.socket_ then some h.destroySocket
  else some h

end Handover

/-- The body of `TcpServer::onNewConnection`. -/
def statements : List Statement :=
  [.getNextLoop, .makeShared, .makeSocket, .initMembers, .setConnectionCallback,
    .setMessageCallback, .setWriteCompleteCallback, .setCloseCallback, .runInLoop, .store]

/-- `TcpServer::onNewConnection`: an exception leaves the scope of `conn`, and the `catch` block
closes the descriptor. -/
def onNewConnection (NDEBUG : Bool) (ioLoop : IoLoop) (throws : Option Statement) :
    Option Handover := do
  let (h, thrown) := Handover.performAll ioLoop throws statements {}
  let h ← h.leaveScope NDEBUG
  return if thrown then h.close else h

/-! ## The acceptor -/

namespace Acceptor

/-- What `accept4` returns: a descriptor, or `-1` and the value of `errno`. -/
inductive Accept4 where
  | accepted (connfd : ℕ)
  | failed (errno : ℕ)
  deriving DecidableEq, Repr

/-- A pass through the loop: what `accept4` returns; the value of `errno` behind the log line of a
failure; and for a new connection its loop, the statement that throws, and the value of `errno` in
the end. -/
structure Pass where
  accept4 : Accept4
  logged : ℕ := 0
  ioLoop : IoLoop := .main
  throws : Option Statement := none
  errno : ℕ := 0
  deriving DecidableEq, Repr

/-- An accepted descriptor. -/
structure Accepted where
  fd : ℕ
  /-- There is a live connection that owns it. -/
  owned : Bool := false
  /-- How often it was closed. -/
  closes : ℕ := 0
  deriving DecidableEq, Repr

/-- How the loop was left: the last result of `accept4`, and the updates of the channel after it. -/
structure Exit where
  accept4 : Accept4
  updates : List Channel
  deriving DecidableEq, Repr

/-- `errno == EAGAIN || errno == EWOULDBLOCK`. -/
def WouldBlock (errno : ℕ) : Prop := errno = EAGAIN ∨ errno = EWOULDBLOCK

instance (errno : ℕ) : Decidable (WouldBlock errno) := inferInstanceAs (Decidable (_ ∨ _))

/-- What an acceptor is given: a read event, with the passes through the loop, and the end of a
connection that owns an accepted descriptor. -/
inductive Input where
  | handleRead (passes : List Pass)
  | free (k : ℕ)
  deriving DecidableEq, Repr

end Acceptor

/-- `Acceptor`, with `errno`, the descriptors that were accepted, and the ends of its loop. -/
structure Acceptor where
  acceptChannel_ : Channel
  /-- `newConnectionCallback_` is set. -/
  newConnectionCallback_ : Bool
  errno : ℕ := 0
  sockets : List Acceptor.Accepted := []
  exits : List Acceptor.Exit := []
  deriving DecidableEq, Repr

namespace Acceptor

/-- `Acceptor::listen`, of a new acceptor. -/
def listen (listenFd : ℕ) (newConnectionCallback_ : Bool) (errno : ℕ) : Acceptor where
  acceptChannel_ := ({ fd_ := listenFd } : Channel).enableRead
  newConnectionCallback_
  errno

/-- A descriptor above `0`: `newConnectionCallback_` is called, or the descriptor is closed. -/
def newConnection (NDEBUG : Bool) (a : Acceptor) (connfd : ℕ) (pass : Pass) : Option Acceptor := do
  if a.newConnectionCallback_ then
    let h ← onNewConnection NDEBUG pass.ioLoop pass.throws
    return { a with
      sockets := a.sockets ++ [{ fd := connfd, owned := h.socket_, closes := h.closes }]
      errno := pass.errno }
  else
    return { a with sockets := a.sockets ++ [{ fd := connfd, closes := 1 }], errno := pass.errno }

/-- The end of the loop: behind an error the read interest is removed and added again. -/
def leave (a : Acceptor) (accept4 : Accept4) : Acceptor :=
  if WouldBlock a.errno then { a with exits := a.exits ++ [{ accept4, updates := [] }] }
  else
    let disabled := a.acceptChannel_.disableRead
    let enabled := disabled.enableRead
    { a with
      acceptChannel_ := enabled
      exits := a.exits ++ [{ accept4, updates := [disabled, enabled] }] }

/-- `Acceptor::handleRead`, with `Socket::accept`, which logs an error. Behind the last pass the
loop goes on. -/
def handleRead (NDEBUG : Bool) : Acceptor → List Pass → Option Acceptor
  | a, [] => some a
  | a, pass :: passes =>
    match pass.accept4 with
    | .accepted connfd =>
      if connfd > 0 then do
        let a ← a.newConnection NDEBUG connfd pass
        handleRead NDEBUG a passes
      else
        some (leave { a with sockets := a.sockets ++ [{ fd := connfd }] } pass.accept4)
    | .failed errno =>
      some (leave { a with errno := if WouldBlock errno then errno else pass.logged } pass.accept4)

/-- The last reference to the connection of a descriptor is gone: `TcpConnection::~TcpConnection`
destroys the `Socket`. -/
def free (a : Acceptor) (k : ℕ) : Acceptor :=
  { a with sockets := a.sockets.modify k fun s =>
      if s.owned then { s with owned := false, closes := s.closes + 1 } else s }

/-- One step of an acceptor. -/
def step (NDEBUG : Bool) (a : Acceptor) : Input → Option Acceptor
  | .handleRead passes => a.handleRead NDEBUG passes
  | .free k => some (a.free k)

/-! ## Descriptors and edges -/

/-- **A descriptor is neither leaked nor closed twice**: a live connection owns it, or it was closed
once. -/
def Accepted.Settled (s : Accepted) : Prop :=
  s.owned = true ∧ s.closes = 0 ∨ s.owned = false ∧ s.closes = 1

instance (s : Accepted) : Decidable s.Settled := inferInstanceAs (Decidable (_ ∨ _))

/-- `accept4` has said that there are no more connections. -/
def Accept4.Drained (result : Accept4) : Prop := ∃ errno, result = .failed errno ∧ WouldBlock errno

/-- **The loop was left in order**: there are no more connections, or the channel was taken out of
the interest set and put into it again. -/
def Exit.Proper (e : Exit) : Prop :=
  e.accept4.Drained ∨
    ∃ disabled enabled, e.updates = [disabled, enabled] ∧
      disabled.isReading = false ∧ disabled.index_ = .kDeleted ∧
      enabled.isReading = true ∧ enabled.index_ = .kAdded

/-- Every descriptor is settled, and the loop was always left in order. -/
structure Good (a : Acceptor) : Prop where
  settled : ∀ s ∈ a.sockets, s.Settled
  proper : ∀ e ∈ a.exits, e.Proper

/-- A statement that comes before the descriptor has a `Socket`. -/
def beforeSocket : Statement → Bool
  | .getNextLoop | .makeShared | .makeSocket => true
  | _ => false

/-- **A pass that is in order**: a descriptor above `0`, with no exception once it has a `Socket`,
or an error that logging does not turn into `EAGAIN`. -/
def Pass.Clean (callback : Bool) (pass : Pass) : Prop :=
  match pass.accept4 with
  | .accepted connfd =>
    connfd > 0 ∧ (callback = true → ∀ statement ∈ pass.throws, beforeSocket statement = true)
  | .failed errno => WouldBlock errno ∨ ¬ WouldBlock pass.logged

/-- The passes up to the end of the loop are in order. -/
def CleanPasses (callback : Bool) : List Pass → Prop
  | [] => True
  | pass :: passes =>
    pass.Clean callback ∧
      ((∃ connfd, pass.accept4 = .accepted connfd) → CleanPasses callback passes)

/-- A read event whose passes are in order; a connection may end at any time. -/
def Clean (callback : Bool) : Input → Prop
  | .handleRead passes => CleanPasses callback passes
  | .free _ => True

/-! ## One descriptor -/

section Handover

variable {NDEBUG : Bool} {ioLoop : IoLoop} {statement : Statement} {h : Handover}

/-- A connection that is stored owns its descriptor. -/
theorem onNewConnection_none (NDEBUG : Bool) (ioLoop : IoLoop) :
    ∃ h, onNewConnection NDEBUG ioLoop none = some h ∧ h.socket_ = true ∧ h.closes = 0 := by
  rcases ioLoop with _ | _ | _
  · exact ⟨_, rfl, rfl, rfl⟩
  · exact ⟨_, rfl, rfl, rfl⟩
  · exact ⟨_, rfl, rfl, rfl⟩

/-- Without a `Socket` only the `catch` block closes the descriptor. -/
theorem onNewConnection_beforeSocket (NDEBUG : Bool) (ioLoop : IoLoop)
    (hbefore : beforeSocket statement = true) :
    ∃ h, onNewConnection NDEBUG ioLoop (some statement) = some h ∧
      h.socket_ = false ∧ h.closes = 1 := by
  cases statement with
  | getNextLoop => exact ⟨_, rfl, rfl, rfl⟩
  | makeShared => exact ⟨_, rfl, rfl, rfl⟩
  | makeSocket => exact ⟨_, rfl, rfl, rfl⟩
  | _ => cases hbefore

/-- With a `Socket` the `catch` block closes a descriptor that is closed already, or that a
connection owns. -/
theorem closes_of_not_beforeSocket (hbefore : beforeSocket statement = false)
    (hnew : onNewConnection NDEBUG ioLoop (some statement) = some h) :
    h.socket_ = false ∧ h.closes = 2 ∨ h.socket_ = true ∧ h.closes = 1 := by
  have hcheck : (onNewConnection NDEBUG ioLoop (some statement)).all
      (fun h => !h.socket_ && h.closes == 2 || h.socket_ && h.closes == 1) = true := by
    rcases ioLoop with _ | _ | _ <;> cases NDEBUG <;> cases statement <;>
      first | rfl | cases hbefore
  rw [hnew, Option.all_some] at hcheck
  simpa using hcheck

/-- **A new connection settles its descriptor** exactly if there is no exception once it has a
`Socket`. -/
theorem settled_onNewConnection_iff (NDEBUG : Bool) (pass : Pass) (fd : ℕ) :
    (∃ h, onNewConnection NDEBUG pass.ioLoop pass.throws = some h ∧
      Accepted.Settled { fd, owned := h.socket_, closes := h.closes }) ↔
    ∀ statement ∈ pass.throws, beforeSocket statement = true := by
  cases hthrows : pass.throws with
  | none =>
    obtain ⟨h, hnew, howned, hcloses⟩ := onNewConnection_none NDEBUG pass.ioLoop
    exact ⟨fun _ => by simp, fun _ => ⟨h, hnew, .inl ⟨howned, hcloses⟩⟩⟩
  | some statement =>
    constructor
    · rintro ⟨h, hnew, hsettled⟩ statement' hstatement
      obtain rfl : statement = statement' := Option.some.inj hstatement
      by_contra hbefore
      have hcloses := closes_of_not_beforeSocket (Bool.eq_false_iff.mpr hbefore) hnew
      rcases hsettled with ⟨howned, hzero⟩ | ⟨howned, hone⟩ <;>
        rcases hcloses with ⟨howned', hcloses⟩ | ⟨howned', hcloses⟩ <;> simp_all
    · intro hbefore
      obtain ⟨h, hnew, howned, hcloses⟩ :=
        onNewConnection_beforeSocket NDEBUG pass.ioLoop (hbefore statement rfl)
      exact ⟨h, hnew, .inr ⟨howned, hcloses⟩⟩

end Handover

/-! ## One call -/

variable {NDEBUG : Bool} {a a' : Acceptor}

/-- The channel is registered for reading, and for nothing else. -/
def Listening (callback : Bool) (a : Acceptor) : Prop :=
  a.acceptChannel_.events_ = Channel.kReadEvent ∧ a.acceptChannel_.index_ = .kAdded ∧
    a.newConnectionCallback_ = callback

/-- Without its read interest the channel is taken out of the interest set, and with it the channel
is put into it again. -/
theorem rearm {ch : Channel} (hevents : ch.events_ = Channel.kReadEvent)
    (hindex : ch.index_ = .kAdded) :
    (ch.disableRead.isReading = false ∧ ch.disableRead.index_ = .kDeleted) ∧
      ch.disableRead.enableRead.events_ = Channel.kReadEvent ∧
      ch.disableRead.enableRead.index_ = .kAdded := by
  have hdisabled : ch.disableRead = { fd_ := ch.fd_, index_ := .kDeleted, isInLoop_ := true } := by
    simp [Channel.disableRead, Channel.update, Channel.kNoneEvent, hevents, hindex]
  rw [hdisabled]
  exact ⟨⟨by simp [Channel.isReading, has], rfl⟩, by simp [Channel.enableRead], rfl⟩

/-- One more descriptor. -/
theorem good_append_iff {ch : Channel} {callback : Bool} {errno : ℕ} {s : Accepted} :
    Good ⟨ch, callback, errno, a.sockets ++ [s], a.exits⟩ ↔ Good a ∧ s.Settled := by
  constructor
  · rintro ⟨hsettled, hproper⟩
    rw [List.forall_mem_append, List.forall_mem_singleton] at hsettled
    exact ⟨⟨hsettled.1, hproper⟩, hsettled.2⟩
  · rintro ⟨hgood, hs⟩
    refine ⟨?_, hgood.proper⟩
    rw [List.forall_mem_append, List.forall_mem_singleton]
    exact ⟨hgood.settled, hs⟩

/-- The loop is left in order if there are no more connections, or if `errno` does not say so. -/
theorem good_leave_iff {callback : Bool} {result : Accept4} (ha : Listening callback a) :
    Good (a.leave result) ↔ Good a ∧ (result.Drained ∨ ¬ WouldBlock a.errno) := by
  have hexit : ∀ {ch : Channel} {e : Exit},
      Good { a with acceptChannel_ := ch, exits := a.exits ++ [e] } ↔ Good a ∧ e.Proper := by
    intro ch e
    constructor
    · rintro ⟨hsettled, hproper⟩
      rw [List.forall_mem_append, List.forall_mem_singleton] at hproper
      exact ⟨⟨hsettled, hproper.1⟩, hproper.2⟩
    · rintro ⟨hgood, he⟩
      refine ⟨hgood.settled, ?_⟩
      rw [List.forall_mem_append, List.forall_mem_singleton]
      exact ⟨hgood.proper, he⟩
  obtain ⟨⟨hdisabled, hdeleted⟩, henabled, hadded⟩ := rearm ha.1 ha.2.1
  unfold leave
  split_ifs with herrno
  · rw [hexit]
    refine and_congr_right fun _ => ⟨?_, fun hdrained => .inl (hdrained.resolve_right (by simpa))⟩
    rintro (hdrained | ⟨disabled, enabled, hupdates, -⟩)
    · exact .inl hdrained
    · cases hupdates
  · rw [hexit]
    refine and_congr_right fun _ => ⟨fun _ => .inr herrno, fun _ => .inr ?_⟩
    refine ⟨_, _, rfl, hdisabled, hdeleted, ?_, hadded⟩
    rw [Channel.isReading, henabled]
    rfl

/-- A descriptor above `0` is settled exactly if there is no exception once it has a `Socket`. -/
theorem good_newConnection_iff {callback : Bool} {pass : Pass} {connfd : ℕ}
    (ha : Listening callback a) :
    (∃ a', a.newConnection NDEBUG connfd pass = some a' ∧ Good a') ↔
      Good a ∧ (callback = true → ∀ statement ∈ pass.throws, beforeSocket statement = true) := by
  unfold newConnection
  rw [ha.2.2]
  cases callback with
  | true =>
    rw [← settled_onNewConnection_iff NDEBUG pass connfd]
    simp only [if_true, forall_const]
    constructor
    · rintro ⟨a', hnew, hgood⟩
      obtain ⟨h, hh, hnew⟩ := Option.bind_eq_some_iff.mp hnew
      obtain rfl := Option.some.inj hnew
      obtain ⟨hgood, hsettled⟩ := good_append_iff.mp hgood
      exact ⟨hgood, h, hh, hsettled⟩
    · rintro ⟨hgood, h, hh, hsettled⟩
      rw [hh]
      exact ⟨_, rfl, good_append_iff.mpr ⟨hgood, hsettled⟩⟩
  | false =>
    constructor
    · rintro ⟨a', hnew, hgood⟩
      obtain rfl := Option.some.inj hnew
      exact ⟨(good_append_iff.mp hgood).1, by simp⟩
    · rintro ⟨hgood, -⟩
      exact ⟨_, rfl, good_append_iff.mpr ⟨hgood, .inr ⟨rfl, rfl⟩⟩⟩

/-- The channel is registered for reading again when the loop is left. -/
theorem Listening.leave {callback : Bool} (ha : Listening callback a) (result : Accept4) :
    Listening callback (a.leave result) := by
  unfold Acceptor.leave
  split_ifs
  · exact ha
  · obtain ⟨-, henabled, hadded⟩ := rearm ha.1 ha.2.1
    exact ⟨henabled, hadded, ha.2.2⟩

/-- A new connection does not change the channel. -/
theorem Listening.newConnection {callback : Bool} {connfd : ℕ} {pass : Pass}
    (ha : Listening callback a) (hnew : a.newConnection NDEBUG connfd pass = some a') :
    Listening callback a' := by
  unfold Acceptor.newConnection at hnew
  split_ifs at hnew
  · obtain ⟨h, -, hnew⟩ := Option.bind_eq_some_iff.mp hnew
    obtain rfl := Option.some.inj hnew
    exact ha
  · obtain rfl := Option.some.inj hnew
    exact ha

/-- The channel is registered for reading throughout the loop, by induction on the passes. -/
theorem Listening.handleRead {callback : Bool} {passes : List Pass} (ha : Listening callback a)
    (hread : a.handleRead NDEBUG passes = some a') : Listening callback a' := by
  induction passes generalizing a with
  | nil =>
    obtain rfl := Option.some.inj hread
    exact ha
  | cons pass passes ih =>
    unfold Acceptor.handleRead at hread
    split at hread
    · split_ifs at hread
      · obtain ⟨a₁, hnew, hread⟩ := Option.bind_eq_some_iff.mp hread
        exact ih (ha.newConnection hnew) hread
      · obtain rfl := Option.some.inj hread
        refine Listening.leave ?_ _
        exact ha
    · obtain rfl := Option.some.inj hread
      refine Listening.leave ?_ _
      exact ha

/-- **A call of `handleRead` is in order exactly if its passes are**, by induction on the passes. -/
theorem good_handleRead_iff {callback : Bool} {passes : List Pass} (ha : Listening callback a) :
    (∃ a', a.handleRead NDEBUG passes = some a' ∧ Good a') ↔
      Good a ∧ CleanPasses callback passes := by
  induction passes generalizing a with
  | nil => simp [handleRead, CleanPasses]
  | cons pass passes ih =>
    unfold handleRead CleanPasses Pass.Clean
    cases hpass : pass.accept4 with
    | accepted connfd =>
      by_cases hfd : connfd > 0
      · have hnew : (∃ a', a.newConnection NDEBUG connfd pass = some a' ∧ Good a') ↔ _ :=
          good_newConnection_iff ha
        simp only [hfd, if_true, true_and, Accept4.accepted.injEq, exists_eq', forall_const]
        rw [← and_assoc, ← hnew]
        constructor
        · rintro ⟨a', hread, hgood⟩
          obtain ⟨a₁, hnew, hread⟩ := Option.bind_eq_some_iff.mp hread
          obtain ⟨hgood₁, hclean⟩ := (ih (ha.newConnection hnew)).mp ⟨a', hread, hgood⟩
          exact ⟨⟨a₁, hnew, hgood₁⟩, hclean⟩
        · rintro ⟨⟨a₁, hnew, hgood₁⟩, hclean⟩
          obtain ⟨a', hread, hgood⟩ := (ih (ha.newConnection hnew)).mpr ⟨hgood₁, hclean⟩
          exact ⟨a', Option.bind_eq_some_iff.mpr ⟨a₁, hnew, hread⟩, hgood⟩
      · simp only [hfd, if_false, false_and, and_false, iff_false]
        rintro ⟨a', hread, hgood⟩
        obtain rfl := Option.some.inj hread
        -- the descriptor `0` is neither owned nor closed
        have ha' : Listening callback { a with sockets := a.sockets ++ [{ fd := connfd }] } := ha
        have hsettled := ((good_leave_iff ha').mp hgood).1.settled { fd := connfd } (by simp)
        simp [Accepted.Settled] at hsettled
    | failed errno =>
      simp only [reduceCtorEq, exists_false, false_implies, and_true, Option.some.injEq,
        exists_eq_left']
      have ha' : Listening callback
          { a with errno := if WouldBlock errno then errno else pass.logged } := ha
      rw [good_leave_iff ha']
      refine and_congr ⟨fun h => ⟨h.settled, h.proper⟩, fun h => ⟨h.settled, h.proper⟩⟩ ?_
      have hdrained : (Accept4.failed errno).Drained ↔ WouldBlock errno := by simp [Accept4.Drained]
      rw [hdrained]
      by_cases hblock : WouldBlock errno <;> simp [hblock]

/-! ## Runs -/

/-- The destructor of a connection closes a descriptor that it owns, and no other. -/
theorem settled_free_iff (s : Accepted) :
    Accepted.Settled (if s.owned then { s with owned := false, closes := s.closes + 1 } else s) ↔
      s.Settled := by
  obtain ⟨fd, owned, closes⟩ := s
  cases owned <;> simp [Accepted.Settled]

/-- The end of a connection leaves its descriptor settled if it was, and touches no other. -/
theorem good_free_iff (a : Acceptor) (k : ℕ) : Good (a.free k) ↔ Good a := by
  have hmodify : ∀ (sockets : List Accepted) (k : ℕ), (∀ s ∈ sockets.modify k (fun s =>
      if s.owned then { s with owned := false, closes := s.closes + 1 } else s), s.Settled) ↔
        ∀ s ∈ sockets, s.Settled := by
    intro sockets
    induction sockets with
    | nil => simp
    | cons s sockets ih =>
      intro k
      cases k with
      | zero => rw [List.modify_zero_cons, List.forall_mem_cons, List.forall_mem_cons,
          settled_free_iff]
      | succ k => rw [List.modify_succ_cons, List.forall_mem_cons, List.forall_mem_cons, ih k]
  exact ⟨fun h => ⟨(hmodify a.sockets k).mp h.settled, h.proper⟩,
    fun h => ⟨(hmodify a.sockets k).mpr h.settled, h.proper⟩⟩

/-- **A step is in order exactly if its passes are.** -/
theorem good_step_iff {callback : Bool} (input : Input) (ha : Listening callback a) :
    (∃ a', a.step NDEBUG input = some a' ∧ Good a') ↔ Good a ∧ Clean callback input := by
  cases input with
  | handleRead passes => exact good_handleRead_iff ha
  | free k =>
    simp only [step, Clean, Option.some.injEq, exists_eq_left', and_true]
    exact good_free_iff a k

/-- The channel is registered for reading throughout a run. -/
theorem Listening.step {callback : Bool} {input : Input} (ha : Listening callback a)
    (hstep : a.step NDEBUG input = some a') : Listening callback a' := by
  cases input with
  | handleRead passes => exact ha.handleRead hstep
  | free k =>
    obtain rfl := Option.some.inj hstep
    exact ha

/-- **Accepted descriptors are neither leaked nor closed twice, and the loop is left in order, in
exactly the runs** in which every descriptor is above `0`, no exception is thrown in
`onNewConnection` once the descriptor has a `Socket`, and logging a failure does not turn `errno`
into `EAGAIN`; with assertions or without.

**Proof sketch.** By induction on the steps and on the passes of each call. An exception before the
`Socket` leaves the closing to the `catch` block; one behind it destroys the `Socket` or leaves it
to a functor that waits, and the `catch` block closes the descriptor all the same. The descriptor
`0` is recorded nowhere. The channel is registered for reading only, so without its read interest it
is taken out of the interest set. -/
theorem good_iff_clean (NDEBUG : Bool) (listenFd errno : ℕ) (callback : Bool)
    (inputs : List Input) :
    (∃ a, run (step NDEBUG) (listen listenFd callback errno) inputs = some a ∧ Good a) ↔
      ∀ input ∈ inputs, Clean callback input := by
  have hlisten : Listening callback (listen listenFd callback errno) :=
    ⟨by simp [listen, Channel.enableRead], rfl, rfl⟩
  have hgood : Good (listen listenFd callback errno) := ⟨by simp [listen], by simp [listen]⟩
  rw [exists_run_iff (C := Clean callback) (fun hstep ha => Listening.step ha hstep)
    (fun input ha => good_step_iff input ha) hlisten]
  simp [hgood]

/-- The descriptor `0` is leaked, and with an old `errno` of `EAGAIN` the loop is left with the read
interest as it was; a descriptor whose connection cannot be constructed is closed twice; and one
whose connection cannot be stored is closed under it. -/
theorem not_good_exception :
    (∃ a, run (step false) (listen 3 true EAGAIN) [.handleRead [{ accept4 := .accepted 0 }]] =
        some a ∧ a.sockets = [{ fd := 0, owned := false, closes := 0 }] ∧
      a.exits = [{ accept4 := .accepted 0, updates := [] }] ∧ ¬ Good a) ∧
    (∃ a, run (step false) (listen 3 true 0) [.handleRead
        [{ accept4 := .accepted 7, throws := some .initMembers }]] = some a ∧
      a.sockets = [{ fd := 7, owned := false, closes := 2 }] ∧ ¬ Good a) ∧
    ∃ a, run (step false) (listen 3 true 0) [.handleRead
        [{ accept4 := .accepted 7, ioLoop := .other false, throws := some .store }]] = some a ∧
      a.sockets = [{ fd := 7, owned := true, closes := 1 }] ∧ ¬ Good a := by
  have hbad : ∀ {a : Acceptor} {s : Accepted}, a.sockets = [s] → ¬ s.Settled → ¬ Good a :=
    fun hs hbad h => hbad (h.settled _ (by simp [hs]))
  refine ⟨⟨_, rfl, rfl, rfl, hbad rfl ?_⟩, ⟨_, rfl, rfl, hbad rfl ?_⟩, _, rfl, rfl, hbad rfl ?_⟩
  · decide
  · decide
  · decide

end Acceptor

end LouisNet.Net
