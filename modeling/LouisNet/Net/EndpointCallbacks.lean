import LouisNet.Net.EndpointStreams

set_option relaxedAutoImplicit false
set_option autoImplicit false

/-!
# An endpoint and the code of its user

What the loop thread does that the code of the user can see. Outside the calls of that code, and
while the connection is up, it does a single thing: it reads some bytes, behind those that are in
the buffer, and invokes the message callback.

## Main definitions

* `LouisNet.Net.Endpoint.messaging` — the message callback runs.
* `LouisNet.Net.Endpoint.Aside` — the connection may be closed, and nothing else is to be seen.

## Main results

* `LouisNet.Net.Endpoint.aside_or_data` — one step of the loop thread or of the network.
* `LouisNet.Net.Endpoint.send_eq_some`, `LouisNet.Net.Endpoint.send_frame` — what a message does.
* `LouisNet.Net.Endpoint.run_calls`, `LouisNet.Net.Endpoint.call_frame` — what calls do.
-/

namespace LouisNet.Net

open Lib Reactor

namespace Endpoint

variable {w w' : Endpoint}

/-! ## Steps of the user, and of the others -/

/-- The step is not one that the network makes with the other side. -/
def Input.isLocal : Input → Bool
  | .kernel (.reset _) => true
  | .kernel _ => false
  | _ => true

/-- The code of the user makes a call. -/
def Input.isCall : Input → Bool
  | .call _ _ => true
  | _ => false

/-- The message callback runs. -/
def messaging (w : Endpoint) : Bool :=
  match w.point with
  | .readLoop _ => w.inCallback
  | _ => false

/-- Outside a callback the message callback does not run. -/
theorem messaging_of_not_inCallback (h : w.inCallback = false) : w.messaging = false := by
  unfold messaging
  split
  · exact h
  · rfl

/-! ## What the loop thread does -/

/-- The connection may be closed, and does nothing else that the code of the user sees. -/
structure Aside (c c' : TcpConnection) : Prop where
  received : received c'.log = received c.log
  accepted : accepted c'.log = accepted c.log
  input : c'.inputBuffer_ = c.inputBuffer_
  message : c'.messageCallback_ = c.messageCallback_
  state : c'.state_ = c.state_ ∨ c'.state_ = .kDisconnected

/-- Nothing has happened. -/
theorem Aside.refl (c : TcpConnection) : Aside c c := ⟨rfl, rfl, rfl, rfl, .inl rfl⟩

/-- One thing after another. -/
theorem Aside.trans {c c' c'' : TcpConnection} (h : Aside c c') (h' : Aside c' c'') :
    Aside c c'' where
  received := h'.received.trans h.received
  accepted := h'.accepted.trans h.accepted
  input := h'.input.trans h.input
  message := h'.message.trans h.message
  state := by
    rcases h'.state with hstate | hstate
    · rw [hstate]
      exact h.state
    · exact .inr hstate

/-- An event is recorded. -/
theorem Aside.emit (c : TcpConnection) {e : Event} (hreceived : Net.received [e] = [])
    (haccepted : Net.accepted [e] = []) : Aside c (c.emit e) := by
  refine ⟨?_, ?_, rfl, rfl, .inl rfl⟩
  · simp [TcpConnection.emit, hreceived]
  · simp [TcpConnection.emit, haccepted]

/-- A callback is invoked. -/
theorem Aside.invoke (w : Endpoint) (isSet : Bool) {e : Event} (he : e.Still) (next : Point) :
    Aside w.conn (w.invoke isSet e next).conn := by
  unfold Endpoint.invoke
  cases isSet
  · exact .refl w.conn
  · exact .emit w.conn he.1 he.2.2

/-- The connection is closed. -/
theorem Aside.handleClose (w : Endpoint) (next : Point) :
    Aside w.conn (w.handleClose next).conn := by
  have hclosed : Aside w.conn { w.conn with state_ := .kDisconnected } :=
    ⟨rfl, rfl, rfl, rfl, .inr rfl⟩
  exact hclosed.trans
    (.invoke { w with conn := { w.conn with state_ := .kDisconnected } } _ ⟨rfl, rfl, rfl⟩ _)

/-- An error is handled. -/
theorem Aside.handleError (w : Endpoint) (next : Point) :
    Aside w.conn (w.handleError next).conn := by
  have herror : Aside w.conn { w.conn with error_ := w.kernel.error } :=
    ⟨rfl, rfl, rfl, rfl, .inl rfl⟩
  exact herror.trans (.handleClose { w with conn := { w.conn with error_ := w.kernel.error } } next)

/-- The loop thread goes on to its next system call or callback. -/
theorem Aside.go {point : Point} (hs : w.go point = some w') : Aside w.conn w'.conn := by
  cases point with
  | idle | readLoop revents => cases hs
  | error revents =>
    simp only [Endpoint.go] at hs
    split_ifs at hs
    · obtain rfl := Option.some.inj hs
      exact (Aside.emit w.conn rfl rfl).trans
        (.handleError { w with conn := w.conn.emit .errorEvent } _)
    · obtain rfl := Option.some.inj hs
      exact .refl w.conn
  | read revents | write revents =>
    simp only [Endpoint.go] at hs
    split_ifs at hs
    · obtain rfl := Option.some.inj hs
      exact .refl w.conn
    · obtain rfl := Option.some.inj hs
      exact .refl w.conn
  | writeLoop =>
    simp only [Endpoint.go, assert_eq_some_iff, Option.some.injEq] at hs
    obtain ⟨-, rfl⟩ := hs
    have hdisabled : Aside w.conn w.disableWrite.conn := ⟨rfl, rfl, rfl, rfl, .inl rfl⟩
    exact hdisabled.trans (.invoke w.disableWrite _ ⟨rfl, rfl, rfl⟩ _)
  | drained =>
    simp only [Endpoint.go, Option.some.injEq] at hs
    subst hs
    dsimp only
    unfold TcpConnection.shutdownInLoop
    split_ifs
    · exact .emit w.conn rfl rfl
    · exact .refl w.conn
    · exact .refl w.conn
  | close next =>
    simp only [Endpoint.go, Option.some.injEq] at hs
    subst hs
    exact .invoke w _ ⟨rfl, rfl, rfl⟩ _

/-- The connection has read some bytes. -/
def afterData (w : Endpoint) (bytes : Bytes) : TcpConnection :=
  { w.conn.emit (.readv (.data bytes)) with inputBuffer_ := w.conn.inputBuffer_ ++ bytes }

/-- **What a step does that the code of the user sees**, unless it is a call: nothing, or it reads
some bytes and invokes the message callback, which did not run before. -/
theorem aside_or_data {i : Input} (hs : step w i = some w') (hi : i.isCall = false) :
    Aside w.conn w'.conn ∨ ∃ x bytes, Aside (w.afterData (x :: bytes)) w'.conn ∧
      w'.messaging = w.conn.messageCallback_ ∧ w.messaging = false := by
  cases i with
  | call k room => cases hi
  | kernel i =>
    obtain ⟨k, -, rfl⟩ := Option.map_eq_some_iff.mp hs
    exact .inl (.refl w.conn)
  | poll revents =>
    obtain ⟨-, hw'⟩ := assert_eq_some_iff.mp hs
    obtain ⟨k, -, rfl⟩ := Option.map_eq_some_iff.mp hw'
    refine .inl ?_
    unfold handleEvents
    split_ifs
    · exact (Aside.emit w.conn rfl rfl).trans
        (.handleClose { w with kernel := k, conn := w.conn.emit .hangUp } _)
    · exact .refl w.conn
  | task =>
    obtain ⟨-, hw'⟩ := assert_eq_some_iff.mp hs
    obtain rfl := Option.some.inj hw'
    have htask : Aside w.conn { w.conn with tasks := w.conn.tasks - 1 } :=
      ⟨rfl, rfl, rfl, rfl, .inl rfl⟩
    exact .inl (htask.trans
      (.invoke { w with conn := { w.conn with tasks := w.conn.tasks - 1 } } _ ⟨rfl, rfl, rfl⟩ _))
  | ret =>
    obtain ⟨-, hw'⟩ := assert_eq_some_iff.mp hs
    obtain rfl := Option.some.inj hw'
    exact .inl (.refl w.conn)
  | go =>
    obtain ⟨-, hw'⟩ := assert_eq_some_iff.mp hs
    exact .inl (.go hw')
  | readv result =>
    obtain ⟨hcallback, hw'⟩ := assert_eq_some_iff.mp hs
    split at hw'
    · obtain ⟨k, -, rfl⟩ := Option.map_eq_some_iff.mp hw'
      rcases result with ⟨_ | ⟨x, bytes⟩⟩ | errno
      · exact .inl ((Aside.emit w.conn rfl rfl).trans
          (.handleClose { w with kernel := k, conn := w.conn.emit (.readv (.data [])) } _))
      · refine .inr ⟨x, bytes, ?_, rfl, messaging_of_not_inCallback hcallback⟩
        exact .invoke { w with kernel := k, conn := w.afterData (x :: bytes) }
          w.conn.messageCallback_ ⟨rfl, rfl, rfl⟩ _
      · refine .inl ((Aside.emit w.conn (e := .readv (.error errno)) rfl rfl).trans ?_)
        unfold afterRead
        dsimp only
        split_ifs
        · exact .refl _
        · exact .handleClose { w with kernel := k, conn := w.conn.emit (.readv (.error errno)) } _
        · exact .handleError { w with kernel := k, conn := w.conn.emit (.readv (.error errno)) } _
    · cases hw'
  | write result room =>
    obtain ⟨-, hw'⟩ := assert_eq_some_iff.mp hs
    obtain ⟨k, -, rfl⟩ := Option.map_eq_some_iff.mp hw'
    refine .inl ((Aside.emit w.conn (e := .write result) rfl rfl).trans ?_)
    unfold afterWrite
    dsimp only
    split
    · exact (Aside.emit _ rfl rfl).trans ⟨rfl, rfl, rfl, rfl, .inl rfl⟩
    · split_ifs
      · exact .refl _
      · exact ⟨rfl, rfl, rfl, rfl, .inl rfl⟩
      · exact .handleError { w with kernel := k, conn := w.conn.emit (.write result) } _

/-- The message callback is left only when it returns. -/
theorem messaging_of_step {i : Input} (hs : step w i = some w') (hi : i.isCall = false)
    (hret : i = .ret → w.messaging = false) (h : w'.messaging = false) : w.messaging = false := by
  cases i with
  | call k room => cases hi
  | ret => exact hret rfl
  | kernel i =>
    obtain ⟨k, -, rfl⟩ := Option.map_eq_some_iff.mp hs
    exact h
  | poll revents => exact messaging_of_not_inCallback (assert_eq_some_iff.mp hs).1.1
  | task => exact messaging_of_not_inCallback (assert_eq_some_iff.mp hs).1.1
  | go => exact messaging_of_not_inCallback (assert_eq_some_iff.mp hs).1
  | readv result => exact messaging_of_not_inCallback (assert_eq_some_iff.mp hs).1
  | write result room => exact messaging_of_not_inCallback (assert_eq_some_iff.mp hs).1.1

/-- A step that moves no bytes between the socket and the network. -/
theorem Streams.apart {arrived carried : Bytes} (h : w.Streams arrived carried) {i : Input}
    (hs : step w i = some w') (harriving : i.arriving = []) (hcarrying : w.carrying i = []) :
    w'.Streams arrived carried := by
  have hstep := streams_step h hs
  rwa [harriving, hcarrying, List.append_nil, List.append_nil] at hstep

/-- A local step moves none. -/
theorem Streams.local {arrived carried : Bytes} (h : w.Streams arrived carried) {i : Input}
    (hs : step w i = some w') (hi : i.isLocal = true) : w'.Streams arrived carried := by
  refine h.apart hs ?_ ?_
  · cases i with
    | kernel i => cases i <;> first | rfl | cases hi
    | _ => rfl
  · cases i with
    | kernel i => cases i <;> first | rfl | cases hi
    | _ => rfl

/-- What a message does to the two sides of the socket. -/
theorem send_eq_some {message : Bytes} {result : WriteResult} {room : Bool}
    (hs : w.send message result room = some w') :
    w'.conn = w.conn.send message result ∧ w'.point = w.point ∧
      w'.kernel.recvQueue = w.kernel.recvQueue ∧ w'.kernel.broken = w.kernel.broken ∧
      w.kernel.sendQueue <+: w'.kernel.sendQueue := by
  unfold Endpoint.send at hs
  split_ifs at hs
  · obtain ⟨k, hk, rfl⟩ := Option.map_eq_some_iff.mp hs
    obtain ⟨hsend, hrecv, hbroken, -, -⟩ := sendQueue_write hk
    have hprefix : w.kernel.sendQueue <+: k.sendQueue := hsend ▸ List.prefix_append _ _
    dsimp only
    split_ifs <;> exact ⟨rfl, rfl, hrecv, hbroken, hprefix⟩
  · obtain rfl := Option.some.inj hs
    exact ⟨rfl, rfl, rfl, rfl, List.prefix_rfl⟩

/-- What a message leaves as it is. -/
theorem send_frame (c : TcpConnection) (message : Bytes) (result : WriteResult) :
    (c.send message result).inputBuffer_ = c.inputBuffer_ ∧
      (c.send message result).messageCallback_ = c.messageCallback_ ∧
      (c.send message result).tasks ≤ c.tasks + 1 := by
  have hdirect : ∀ d : TcpConnection,
      (d.writeDirect message result).1.inputBuffer_ = d.inputBuffer_ ∧
        (d.writeDirect message result).1.messageCallback_ = d.messageCallback_ ∧
        (d.writeDirect message result).1.tasks ≤ d.tasks + 1 := by
    intro d
    unfold TcpConnection.writeDirect
    split
    · dsimp only
      split_ifs
      · exact ⟨rfl, rfl, le_rfl⟩
      · exact ⟨rfl, rfl, Nat.le_succ _⟩
    · split_ifs <;> exact ⟨rfl, rfl, Nat.le_succ _⟩
  have hloop : ∀ d : TcpConnection,
      (d.sendInLoop message result).inputBuffer_ = d.inputBuffer_ ∧
        (d.sendInLoop message result).messageCallback_ = d.messageCallback_ ∧
        (d.sendInLoop message result).tasks ≤ d.tasks + 1 := by
    intro d
    have hpair : (if !d.channel_.isWriting ∧ d.outputBuffer_ = [] then d.writeDirect message result
          else (d, 0, 0)).1.inputBuffer_ = d.inputBuffer_ ∧
        (if !d.channel_.isWriting ∧ d.outputBuffer_ = [] then d.writeDirect message result
          else (d, 0, 0)).1.messageCallback_ = d.messageCallback_ ∧
        (if !d.channel_.isWriting ∧ d.outputBuffer_ = [] then d.writeDirect message result
          else (d, 0, 0)).1.tasks ≤ d.tasks + 1 := by
      split_ifs
      · exact hdirect d
      · exact ⟨rfl, rfl, Nat.le_succ _⟩
    unfold TcpConnection.sendInLoop
    by_cases hs : d.state_ = .kDisconnected
    · rw [if_pos hs]
      exact ⟨rfl, rfl, Nat.le_succ _⟩
    · rw [if_neg hs]
      generalize (if !d.channel_.isWriting ∧ d.outputBuffer_ = [] then d.writeDirect message result
        else (d, 0, 0)) = p at hpair ⊢
      dsimp only
      split_ifs <;> exact hpair
  unfold TcpConnection.send
  split_ifs
  · exact hloop (c.emit (.accepted message))
  · exact ⟨rfl, rfl, Nat.le_succ _⟩

/-! ## Calls -/

/-- A call of the user is one of the connection. -/
theorem call_eq_some {k : Call} {room : Bool} (hs : w.step (.call k room) = some w') :
    w'.conn = w.conn.call k ∧ w'.point = w.point ∧ w'.inCallback = w.inCallback := by
  obtain ⟨-, hw⟩ := assert_eq_some_iff.mp hs
  cases k with
  | shutdown | consume len =>
    obtain rfl := Option.some.inj hw
    exact ⟨rfl, rfl, rfl⟩
  | send message result =>
    obtain ⟨hconn, hpoint, -⟩ := send_eq_some hw
    refine ⟨hconn, hpoint, ?_⟩
    unfold Endpoint.send at hw
    split_ifs at hw
    · obtain ⟨k, -, rfl⟩ := Option.map_eq_some_iff.mp hw
      rfl
    · obtain rfl := Option.some.inj hw
      rfl

/-- Calls of the user, one after another. -/
theorem run_calls {ks : List Call} {room : ℕ → Bool}
    (hs : run step w (ks.mapIdx fun n k => .call k (room n)) = some w') :
    w'.conn = ks.foldl TcpConnection.call w.conn ∧ w'.point = w.point ∧
      w'.inCallback = w.inCallback ∧
      ∀ arrived carried, w.Streams arrived carried → w'.Streams arrived carried := by
  induction ks generalizing w room with
  | nil =>
    obtain rfl : w = w' := by simpa [run] using hs
    exact ⟨rfl, rfl, rfl, fun _ _ h => h⟩
  | cons k ks ih =>
    rw [List.mapIdx_cons] at hs
    obtain ⟨v, hv, hrun⟩ := run_cons hs
    obtain ⟨hconn, hpoint, hcallback⟩ := call_eq_some hv
    obtain ⟨hconn', hpoint', hcallback', hstreams⟩ := ih hrun
    refine ⟨?_, hpoint'.trans hpoint, hcallback'.trans hcallback, fun arrived carried h => ?_⟩
    · rw [hconn', hconn, List.foldl_cons]
    · exact hstreams _ _ (h.local hv rfl)

/-- What a call leaves as it is: the bytes that were read, and the message callback; and only
`consume` takes bytes from the buffer. -/
theorem call_frame (c : TcpConnection) (k : Call) :
    received (c.call k).log = received c.log ∧
      (c.call k).messageCallback_ = c.messageCallback_ ∧
      ((∀ len, k ≠ .consume len) → (c.call k).inputBuffer_ = c.inputBuffer_) := by
  cases k with
  | send message result =>
    obtain ⟨hinput, hmessage, -⟩ := send_frame c message result
    exact ⟨(log_send c message result).2, hmessage, fun _ => hinput⟩
  | shutdown =>
    show received c.shutdown.log = _ ∧ c.shutdown.messageCallback_ = _ ∧
      (_ → c.shutdown.inputBuffer_ = _)
    unfold TcpConnection.shutdown TcpConnection.shutdownInLoop
    split_ifs
    · exact ⟨by simp [TcpConnection.emit, received], rfl, fun _ => rfl⟩
    · exact ⟨rfl, rfl, fun _ => rfl⟩
    · exact ⟨rfl, rfl, fun _ => rfl⟩
  | consume len => exact ⟨rfl, rfl, fun h => absurd rfl (h len)⟩

end Endpoint

end LouisNet.Net
