import LouisNet.Net.EndpointCallbacks

set_option relaxedAutoImplicit false
set_option autoImplicit false

/-!
# The echo service

The example of `example/echo`: a client and a server, each a connection over its socket, and a
network that carries bytes from one socket to the other, in order, in pieces of any size. The code
of the user in the server is `EchoServer::onMessage`, which sends back all that it finds in its
buffer; the client may make any calls at all. Either side may be reset at any time, and the network
tells a side that the other one has closed.

## Main definitions

* `LouisNet.Net.Echo` — the two endpoints.
* `LouisNet.Net.Echo.onMessage` — the code of the user in the server.
* `LouisNet.Net.Echo.step` — one step of a loop thread, of the code of the user, or of the network.
* `LouisNet.Net.Echo.InOrder` — where the bytes are.

## Main results

* `LouisNet.Net.Echo.inOrder_run` — the bytes stay in order, in any run.
* `LouisNet.Net.Echo.echoed_prefix_sent` — what comes back is the beginning of what was sent.
-/

namespace LouisNet.Net

open Lib Reactor

/-! ## The system -/

/-- A client and a server that echoes. -/
structure Echo where
  client : Endpoint
  server : Endpoint
  deriving DecidableEq, Repr

namespace Endpoint

/-- This side sends nothing any more. -/
def hasClosed (w : Endpoint) : Bool :=
  w.kernel.sendQueue = [] && (w.conn.log.contains .shutdownWrite || w.conn.state_ = .kDisconnected)

end Endpoint

namespace Echo

/-- `EchoServer::onMessage`: all that is in the buffer is taken out and sent back. -/
def onMessage (w : Endpoint) (result : WriteResult) (room : Bool) : Option Endpoint :=
  let message := w.conn.inputBuffer_
  run Endpoint.step w
    [.call (.consume message.length) true, .call (.send message result) room, .ret]

/-- The steps. -/
inductive Step where
  /-- the loop thread of the client, or the code of its user -/
  | client (i : Endpoint.Input)
  /-- the loop thread of the server -/
  | server (i : Endpoint.Input)
  /-- the message callback of the server -/
  | onMessage (result : WriteResult) (room : Bool)
  /-- the network carries bytes to the server -/
  | up (n : ℕ) (room edge edge' : Bool)
  /-- the network carries bytes to the client -/
  | down (n : ℕ) (room edge edge' : Bool)
  /-- the network tells the server that the client has closed -/
  | closeUp (edge : Bool)
  /-- the network tells the client that the server has closed -/
  | closeDown (edge : Bool)
  deriving DecidableEq, Repr

/-- The network carries bytes from one endpoint to the other. -/
def carry (source target : Endpoint) (n : ℕ) (room edge edge' : Bool) :
    Option (Endpoint × Endpoint) :=
  (source.step (.kernel (.drain n room edge))).bind fun source' =>
    (target.step (.kernel (.arrive (source.kernel.sendQueue.take n) edge'))).map fun target' =>
      (source', target')

/-- One step. -/
def step (e : Echo) : Step → Option Echo
  | .client i =>
    assert (i.isLocal = true) <| (e.client.step i).map fun client => { e with client }
  | .server i =>
    assert (i.isLocal = true ∧ i.isCall = false ∧ (i = .ret → e.server.messaging = false)) <|
    (e.server.step i).map fun server => { e with server }
  | .onMessage result room =>
    assert (e.server.messaging = true) <|
    (onMessage e.server result room).map fun server => { e with server }
  | .up n room edge edge' =>
    (carry e.client e.server n room edge edge').map fun (client, server) => ⟨client, server⟩
  | .down n room edge edge' =>
    (carry e.server e.client n room edge edge').map fun (server, client) => ⟨client, server⟩
  | .closeUp edge =>
    assert (e.client.hasClosed = true) <|
    (e.server.step (.kernel (.close edge))).map fun server => { e with server }
  | .closeDown edge =>
    assert (e.server.hasClosed = true) <|
    (e.client.step (.kernel (.close edge))).map fun client => { e with client }

/-- The two connections have just been established. `TcpServer` sets all callbacks. -/
def start (clientFd serverFd : ℕ) (connection message writeComplete close : Bool) : Echo where
  client := Endpoint.established clientFd connection message writeComplete close {}
  server := Endpoint.established serverFd true true true true {}

end Echo

/-! ## The code of the user in the server -/

namespace Echo

variable {w w' : Endpoint}

/-- The server while a message is sent: the buffer is empty. -/
def emptied (w : Endpoint) : Endpoint :=
  { w with conn :=
      { w.conn with inputBuffer_ := w.conn.inputBuffer_.drop w.conn.inputBuffer_.length } }

/-- The message callback takes everything out, sends it, and returns. -/
theorem onMessage_eq {result : WriteResult} {room : Bool}
    (hs : onMessage w result room = some w') :
    ∃ v, (emptied w).send w.conn.inputBuffer_ result room = some v ∧
      v.inCallback = true ∧ w' = { v with inCallback := false } := by
  obtain ⟨v₁, hv₁, hrun⟩ := run_cons hs
  obtain ⟨v₂, hv₂, hrun⟩ := run_cons hrun
  obtain ⟨v₃, hv₃, hrun⟩ := run_cons hrun
  obtain ⟨-, hv₁⟩ := assert_eq_some_iff.mp hv₁
  obtain rfl := Option.some.inj hv₁
  obtain ⟨-, hv₂⟩ := assert_eq_some_iff.mp hv₂
  obtain ⟨hcallback₂, hv₃⟩ := assert_eq_some_iff.mp hv₃
  obtain rfl := Option.some.inj hv₃
  exact ⟨v₂, hv₂, hcallback₂, (Option.some.inj hrun).symm⟩

/-- **The server between its callbacks**: what it has read, it has accepted for sending. -/
structure Echoing (w : Endpoint) : Prop where
  message : w.conn.messageCallback_ = true
  state : w.conn.state_ = .kConnected ∨ w.conn.state_ = .kDisconnected
  inOrder : accepted w.conn.log <+: received w.conn.log
  whole : w.conn.state_ = .kConnected →
    received w.conn.log = accepted w.conn.log ++ w.conn.inputBuffer_
  empty : w.conn.state_ = .kConnected → w.messaging = false → w.conn.inputBuffer_ = []

/-- The loop thread of the server, outside the message callback. -/
theorem Echoing.step (h : Echoing w) {i : Endpoint.Input} (hs : w.step i = some w')
    (hi : i.isCall = false) (hret : i = .ret → w.messaging = false) : Echoing w' := by
  rcases Endpoint.aside_or_data hs hi with haside | ⟨x, bytes, haside, hmessaging, -⟩
  · have hup : w'.conn.state_ = .kConnected → w.conn.state_ = .kConnected := by
      intro hs'
      rcases haside.state with hstate | hstate
      · exact hstate.symm.trans hs'
      · rw [hstate] at hs'
        cases hs'
    refine ⟨haside.message.trans h.message, ?_, ?_, ?_, ?_⟩
    · rcases haside.state with hstate | hstate
      · rw [hstate]
        exact h.state
      · exact .inr hstate
    · rw [haside.accepted, haside.received]
      exact h.inOrder
    · rw [haside.accepted, haside.received, haside.input]
      exact fun hs' => h.whole (hup hs')
    · rw [haside.input]
      exact fun hs' hm => h.empty (hup hs') (Endpoint.messaging_of_step hs hi hret hm)
  · have hreceived : received (w.afterData (x :: bytes)).log =
        received w.conn.log ++ (x :: bytes) := by
      simp [Endpoint.afterData, TcpConnection.emit, received]
    have haccepted : accepted (w.afterData (x :: bytes)).log = accepted w.conn.log := by
      simp [Endpoint.afterData, TcpConnection.emit, accepted]
    have hup : w'.conn.state_ = .kConnected → w.conn.state_ = .kConnected := by
      intro hs'
      rcases haside.state with hstate | hstate
      · exact hstate.symm.trans hs'
      · rw [hstate] at hs'
        cases hs'
    refine ⟨haside.message.trans h.message, ?_, ?_, ?_, ?_⟩
    · rcases haside.state with hstate | hstate
      · rw [hstate]
        exact h.state
      · exact .inr hstate
    · rw [haside.accepted, haside.received, haccepted, hreceived]
      exact h.inOrder.trans (List.prefix_append _ _)
    · intro hs'
      rw [haside.accepted, haside.received, haside.input, haccepted, hreceived, h.whole (hup hs'),
        List.append_assoc]
      rfl
    · intro _ hm
      rw [hmessaging, h.message] at hm
      cases hm

/-- The message callback of the server. -/
theorem Echoing.onMessage (h : Echoing w) {result : WriteResult} {room : Bool}
    (hs : onMessage w result room = some w') : Echoing w' := by
  obtain ⟨v, hv, -, rfl⟩ := onMessage_eq hs
  obtain ⟨hconn, -⟩ := Endpoint.send_eq_some hv
  have hnil : (emptied w).conn.inputBuffer_ = [] := List.drop_length
  obtain ⟨hstate, haccepted⟩ := (emptied w).conn.accepted_send w.conn.inputBuffer_ result
  obtain ⟨-, hreceived⟩ := Endpoint.log_send (emptied w).conn w.conn.inputBuffer_ result
  obtain ⟨hinput, hmessage, -⟩ := Endpoint.send_frame (emptied w).conn w.conn.inputBuffer_ result
  rw [← hconn] at hstate haccepted hreceived hinput hmessage
  rw [hnil] at hinput
  refine ⟨hmessage.trans h.message, hstate ▸ h.state, ?_, ?_, fun _ _ => hinput⟩
  · show accepted v.conn.log <+: received v.conn.log
    rw [haccepted, hreceived]
    split_ifs with hs'
    · have hwhole : accepted (emptied w).conn.log ++ w.conn.inputBuffer_ =
          received (emptied w).conn.log := (h.whole hs').symm
      rw [hwhole]
    · rw [List.append_nil]
      exact h.inOrder
  · intro hs'
    have hs'' : (emptied w).conn.state_ = .kConnected := hstate.symm.trans hs'
    show received v.conn.log = accepted v.conn.log ++ v.conn.inputBuffer_
    rw [haccepted, hreceived, hinput, if_pos hs'', List.append_nil]
    exact h.whole hs''

/-! ## Runs -/

/-- **Where the bytes are**: what has arrived on one side was carried away on the other, and the
server sends what it reads. -/
def InOrder (e : Echo) : Prop :=
  ∃ up down, e.client.Streams down up ∧ e.server.Streams up down ∧ Echoing e.server

/-- What the network does to the two sides. -/
theorem carry_eq_some {source target source' target' : Endpoint} {n : ℕ} {room edge edge' : Bool}
    (hs : carry source target n room edge edge' = some (source', target')) :
    source.step (.kernel (.drain n room edge)) = some source' ∧
      target.step (.kernel (.arrive (source.kernel.sendQueue.take n) edge')) = some target' := by
  obtain ⟨s', hs', hrest⟩ := Option.bind_eq_some_iff.mp hs
  obtain ⟨t', ht', heq⟩ := Option.map_eq_some_iff.mp hrest
  obtain ⟨rfl, rfl⟩ := Prod.mk.inj heq
  exact ⟨hs', ht'⟩

/-- The network carries bytes from one stream to the other. -/
theorem streams_carry {source target source' target' : Endpoint} {n : ℕ} {room edge edge' : Bool}
    (hs : carry source target n room edge edge' = some (source', target')) {a b c d : Bytes}
    (hsource : source.Streams a b) (htarget : target.Streams c d) :
    ∃ bytes, source'.Streams a (b ++ bytes) ∧ target'.Streams (c ++ bytes) d ∧
      source.step (.kernel (.drain n room edge)) = some source' ∧
      target.step (.kernel (.arrive bytes edge')) = some target' := by
  obtain ⟨hs', ht'⟩ := carry_eq_some hs
  refine ⟨source.kernel.sendQueue.take n, ?_, ?_, hs', ht'⟩
  · have hstep := Endpoint.streams_step hsource hs'
    simp only [Endpoint.Input.arriving, Endpoint.carrying, List.append_nil] at hstep
    exact hstep
  · have hstep := Endpoint.streams_step htarget ht'
    simp only [Endpoint.Input.arriving, Endpoint.carrying, List.append_nil] at hstep
    exact hstep

/-- **One step keeps the bytes in order.** -/
theorem inOrder_step {e e' : Echo} {i : Step} (hs : e.step i = some e') (h : e.InOrder) :
    e'.InOrder := by
  obtain ⟨up, down, hclient, hserver, hechoing⟩ := h
  cases i with
  | client i =>
    obtain ⟨hlocal, hw⟩ := assert_eq_some_iff.mp hs
    obtain ⟨client, hclient', rfl⟩ := Option.map_eq_some_iff.mp hw
    exact ⟨up, down, hclient.local hclient' hlocal, hserver, hechoing⟩
  | server i =>
    obtain ⟨⟨hlocal, hcall, hret⟩, hw⟩ := assert_eq_some_iff.mp hs
    obtain ⟨server, hserver', rfl⟩ := Option.map_eq_some_iff.mp hw
    exact ⟨up, down, hclient, hserver.local hserver' hlocal, hechoing.step hserver' hcall hret⟩
  | onMessage result room =>
    obtain ⟨-, hw⟩ := assert_eq_some_iff.mp hs
    obtain ⟨server, hserver', rfl⟩ := Option.map_eq_some_iff.mp hw
    obtain ⟨v, hv, -, rfl⟩ := onMessage_eq hserver'
    refine ⟨up, down, hclient, ?_, hechoing.onMessage hserver'⟩
    have hemptied : (emptied e.server).Streams up down := hserver.still rfl rfl rfl id
    exact (hemptied.send hv).still rfl rfl rfl id
  | up n room edge edge' =>
    obtain ⟨⟨client, server⟩, hcarry, rfl⟩ := Option.map_eq_some_iff.mp hs
    obtain ⟨bytes, hclient', hserver', -, hstep⟩ := streams_carry hcarry hclient hserver
    exact ⟨up ++ bytes, down, hclient', hserver', hechoing.step hstep rfl (by simp)⟩
  | down n room edge edge' =>
    obtain ⟨⟨server, client⟩, hcarry, rfl⟩ := Option.map_eq_some_iff.mp hs
    obtain ⟨bytes, hserver', hclient', hstep, -⟩ := streams_carry hcarry hserver hclient
    exact ⟨up, down ++ bytes, hclient', hserver', hechoing.step hstep rfl (by simp)⟩
  | closeUp edge =>
    obtain ⟨-, hw⟩ := assert_eq_some_iff.mp hs
    obtain ⟨server, hserver', rfl⟩ := Option.map_eq_some_iff.mp hw
    exact ⟨up, down, hclient, hserver.apart hserver' rfl rfl,
      hechoing.step hserver' rfl (by simp)⟩
  | closeDown edge =>
    obtain ⟨-, hw⟩ := assert_eq_some_iff.mp hs
    obtain ⟨client, hclient', rfl⟩ := Option.map_eq_some_iff.mp hw
    exact ⟨up, down, hclient.apart hclient' rfl rfl, hserver, hechoing⟩

/-- **A run keeps the bytes in order.** -/
theorem inOrder_run {clientFd serverFd : ℕ} {connection message writeComplete close : Bool}
    {steps : List Step} {e : Echo}
    (h : run step (start clientFd serverFd connection message writeComplete close) steps = some e) :
    e.InOrder := by
  refine run_invariant (I := InOrder) inOrder_step h ⟨[], [], ?_, ?_, ?_⟩
  · exact Endpoint.streams_established _ _ _ _ _ rfl
  · exact Endpoint.streams_established _ _ _ _ _ rfl
  · exact ⟨rfl, .inl rfl, List.prefix_rfl, fun _ => rfl, fun _ _ => rfl⟩

/-- **What comes back is the beginning of what was sent**, byte for byte, in every run: whatever
pieces the sockets take and the network carries, whenever the loop threads run, and whether or not
either side is closed or reset.

**Proof sketch.** Each of the streams from the calls of the client to its message callback is the
beginning of the one before it. -/
theorem echoed_prefix_sent {clientFd serverFd : ℕ} {connection message writeComplete close : Bool}
    {steps : List Step} {e : Echo}
    (h : run step (start clientFd serverFd connection message writeComplete close) steps = some e) :
    received e.client.conn.log <+: accepted e.client.conn.log := by
  obtain ⟨up, down, hclient, hserver, hechoing⟩ := inOrder_run h
  calc received e.client.conn.log
      <+: down := ⟨_, hclient.received⟩
    _ <+: written e.server.conn.log := ⟨_, hserver.written.symm⟩
    _ <+: accepted e.server.conn.log := hserver.inOrder
    _ <+: received e.server.conn.log := hechoing.inOrder
    _ <+: up := ⟨_, hserver.received⟩
    _ <+: written e.client.conn.log := ⟨_, hclient.written.symm⟩
    _ <+: accepted e.client.conn.log := hclient.inOrder

/-- The client sends two bytes; the network carries them one at a time, and a part of the answer is
on its way. -/
theorem echoed_prefix_sent_partial : ∃ e : Echo,
    run step (start 5 6 false true true true)
      [.client (.call (.send [7, 8] ⟨some 2, 0⟩) true), .up 1 true true true, .server .ret,
        .server (.poll EPOLLIN), .server .go, .server .go, .server (.readv (.data [7])),
        .up 1 true true true, .onMessage ⟨some 1, 0⟩ true, .down 1 true true true,
        .client (.poll EPOLLIN), .client .go, .client .go, .client (.readv (.data [7]))] = some e ∧
      received e.client.conn.log <+: accepted e.client.conn.log ∧
      received e.client.conn.log = [7] := by
  have hrun : (run step (start 5 6 false true true true)
      [.client (.call (.send [7, 8] ⟨some 2, 0⟩) true), .up 1 true true true, .server .ret,
        .server (.poll EPOLLIN), .server .go, .server .go, .server (.readv (.data [7])),
        .up 1 true true true, .onMessage ⟨some 1, 0⟩ true, .down 1 true true true,
        .client (.poll EPOLLIN), .client .go, .client .go, .client (.readv (.data [7]))]).any
      (fun e => received e.client.conn.log = [7]) = true := by
    decide +kernel
  obtain ⟨e, he, hreceived⟩ := (Option.any_eq_true _ _).mp hrun
  exact ⟨e, he, echoed_prefix_sent he, of_decide_eq_true hreceived⟩

end Echo

end LouisNet.Net
