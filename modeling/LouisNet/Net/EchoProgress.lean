import LouisNet.Net.Echo
import LouisNet.Net.EndpointProgress

set_option relaxedAutoImplicit false
set_option autoImplicit false

/-!
# The echo service comes to an end

As long as neither side is closed or reset, the echo service works off what the client has sent.
Every step that a loop thread or the network takes by itself moves bytes on, or brings a loop thread
nearer to waiting, so that there are only so many such steps; and when none can be taken any more,
everything that the client has sent has come back. No event is lost on the way, although every
descriptor is reported only once for each edge.

## Main definitions

* `LouisNet.Net.Echo.Step.Internal` — the steps that are taken without the client.
* `LouisNet.Net.Echo.work` — what is left to do.

## Main results

* `LouisNet.Net.Echo.work_step` — every internal step does some of the work.
* `LouisNet.Net.Echo.echoed_of_stuck` — when there is nothing left to do, everything has come back.
* `LouisNet.Net.Echo.echo_completes` — both, for every run.
-/

namespace LouisNet.Net

open Lib Reactor

namespace Endpoint

variable {w w' : Endpoint}

/-- Behind steps that do not end the connection, it is up. -/
theorem healthy_run {steps : List Input} (h : run step w steps = some w')
    (hsteps : ∀ i ∈ steps, i.Peaceful) (hw : w.Healthy) : w'.Healthy :=
  (Along.of_forall hsteps).invariant (fun hs hi h => healthy_step hs hi h) h hw

/-- The message callback is entered only with some bytes. -/
theorem messaging_step {i : Input} (hs : step w i = some w') (hi : i.isCall = false)
    (h : w.Healthy) (hm : w'.messaging = true) :
    w.messaging = true ∨ ∃ x bytes, Aside (w.afterData (x :: bytes)) w'.conn := by
  have hin : w'.inCallback = true ∧ ∃ revents, w'.point = .readLoop revents := by
    unfold messaging at hm
    split at hm
    · rename_i revents hpoint
      exact ⟨hm, revents, hpoint⟩
    · cases hm
  obtain ⟨hcallback', revents, hpoint'⟩ := hin
  have hopen := h.attentive.isOpen
  cases i with
  | call k room => cases hi
  | kernel i =>
    obtain ⟨k, -, rfl⟩ := Option.map_eq_some_iff.mp hs
    exact .inl hm
  | poll revents' =>
    obtain ⟨-, hw'⟩ := assert_eq_some_iff.mp hs
    obtain ⟨k, hk, rfl⟩ := Option.map_eq_some_iff.mp hw'
    obtain ⟨rfl, -, hhangUp, -⟩ := epollWait_up h.fin h.broken hk
    unfold handleEvents at hpoint'
    rw [if_neg (by simp [hhangUp])] at hpoint'
    cases hpoint'
  | task =>
    obtain ⟨-, hw'⟩ := assert_eq_some_iff.mp hs
    obtain rfl := Option.some.inj hw'
    cases hpoint'
  | ret =>
    obtain ⟨-, hw'⟩ := assert_eq_some_iff.mp hs
    obtain rfl := Option.some.inj hw'
    cases hcallback'
  | go =>
    obtain ⟨hcallback, hw'⟩ := assert_eq_some_iff.mp hs
    have hsame : w'.inCallback ≠ w.inCallback := by
      rw [hcallback', hcallback]
      decide
    cases hpoint : w.point with
    | idle | readLoop revents' => simp [hpoint, go] at hw'
    | close next =>
      rw [hpoint] at hopen
      exact hopen.elim
    | error revents' =>
      simp only [hpoint, go, h.noError revents' hpoint] at hw'
      obtain rfl := Option.some.inj hw'
      exact absurd rfl hsame
    | read revents' | write revents' =>
      simp only [hpoint, go] at hw'
      split_ifs at hw'
      · obtain rfl := Option.some.inj hw'
        exact absurd rfl hsame
      · obtain rfl := Option.some.inj hw'
        exact absurd rfl hsame
    | writeLoop =>
      simp only [hpoint, go, assert_eq_some_iff, Option.some.injEq] at hw'
      obtain ⟨-, rfl⟩ := hw'
      cases hpoint'
    | drained =>
      simp only [hpoint, go, Option.some.injEq] at hw'
      subst hw'
      cases hpoint'
  | readv result =>
    obtain ⟨-, hw'⟩ := assert_eq_some_iff.mp hs
    split at hw'
    · obtain ⟨k, hk, rfl⟩ := Option.map_eq_some_iff.mp hw'
      obtain ⟨x, bytes, rfl, -, -⟩ | ⟨rfl, -, rfl⟩ := readv_up h.fin h.broken hk
      · exact .inr ⟨x, bytes, .invoke { w with kernel := k, conn := w.afterData (x :: bytes) }
          w.conn.messageCallback_ ⟨rfl, rfl, rfl⟩ _⟩
      · cases hpoint'
    · cases hw'
  | write result room =>
    obtain ⟨⟨hcallback, hpoint, hne⟩, hw'⟩ := assert_eq_some_iff.mp hs
    obtain ⟨k, hk, rfl⟩ := Option.map_eq_some_iff.mp hw'
    obtain ⟨n, hret, -, rfl⟩ | ⟨hret, hagain, -, rfl⟩ := write_up h.broken hne hk
    · unfold afterWrite at hpoint'
      rw [hret] at hpoint'
      rw [hpoint] at hpoint'
      cases hpoint'
    · unfold afterWrite at hpoint'
      rw [hret, hagain] at hpoint'
      cases hpoint'

end Endpoint

namespace Echo

variable {e e' : Echo}

/-! ## Live systems -/

/-- A step that ends neither connection. -/
def Step.Calm : Step → Prop
  | .client i => i.Peaceful
  | .server i => i.Peaceful
  | .closeUp _ => False
  | .closeDown _ => False
  | _ => True

/-- A system in which nothing has gone wrong. -/
structure Live (e : Echo) : Prop where
  inOrder : e.InOrder
  client : e.client.Healthy
  server : e.server.Healthy
  message : e.server.messaging = true → e.server.conn.inputBuffer_ ≠ []

/-- The loop thread of the server, or the network, outside the message callback. -/
theorem message_step {w w' : Endpoint} {i : Endpoint.Input} (hs : w.step i = some w')
    (hi : i.isCall = false) (h : w.Healthy)
    (hmessage : w.messaging = true → w.conn.inputBuffer_ ≠ []) (hm : w'.messaging = true) :
    w'.conn.inputBuffer_ ≠ [] := by
  rcases Endpoint.messaging_step hs hi h hm with hmessaging | ⟨x, bytes, haside⟩
  · rcases Endpoint.aside_or_data hs hi with haside | ⟨x, bytes, haside, -⟩
    · rw [haside.input]
      exact hmessage hmessaging
    · rw [haside.input]
      exact List.append_ne_nil_of_right_ne_nil _ (List.cons_ne_nil x bytes)
  · rw [haside.input]
    exact List.append_ne_nil_of_right_ne_nil _ (List.cons_ne_nil x bytes)

/-- **A step that ends neither connection keeps the system live.** -/
theorem live_step {i : Step} (hs : e.step i = some e') (hi : i.Calm) (h : e.Live) : e'.Live := by
  have horder := inOrder_step hs h.inOrder
  cases i with
  | client i =>
    obtain ⟨-, hw⟩ := assert_eq_some_iff.mp hs
    obtain ⟨client, hclient, rfl⟩ := Option.map_eq_some_iff.mp hw
    exact ⟨horder, Endpoint.healthy_step hclient hi h.client, h.server, h.message⟩
  | server i =>
    obtain ⟨⟨-, hcall, hret⟩, hw⟩ := assert_eq_some_iff.mp hs
    obtain ⟨server, hserver, rfl⟩ := Option.map_eq_some_iff.mp hw
    exact ⟨horder, h.client, Endpoint.healthy_step hserver hi h.server,
      message_step hserver hcall h.server h.message⟩
  | onMessage result room =>
    obtain ⟨-, hw⟩ := assert_eq_some_iff.mp hs
    obtain ⟨server, hserver, rfl⟩ := Option.map_eq_some_iff.mp hw
    refine ⟨horder, h.client, Endpoint.healthy_run hserver ?_ h.server, fun hm => ?_⟩
    · simp [Endpoint.Input.Peaceful]
    · obtain ⟨v, -, -, rfl⟩ := onMessage_eq hserver
      unfold Endpoint.messaging at hm
      split at hm <;> cases hm
  | up n room edge edge' =>
    obtain ⟨⟨client, server⟩, hcarry, rfl⟩ := Option.map_eq_some_iff.mp hs
    obtain ⟨hclient, hserver⟩ := carry_eq_some hcarry
    exact ⟨horder, Endpoint.healthy_step hclient trivial h.client,
      Endpoint.healthy_step hserver trivial h.server,
      message_step hserver rfl h.server h.message⟩
  | down n room edge edge' =>
    obtain ⟨⟨server, client⟩, hcarry, rfl⟩ := Option.map_eq_some_iff.mp hs
    obtain ⟨hserver, hclient⟩ := carry_eq_some hcarry
    exact ⟨horder, Endpoint.healthy_step hclient trivial h.client,
      Endpoint.healthy_step hserver trivial h.server,
      message_step hserver rfl h.server h.message⟩
  | closeUp edge => exact hi.elim
  | closeDown edge => exact hi.elim

/-! ## Systems with nothing left to do -/

/-- A step that is taken without the client: by a loop thread, by the message callback of the
server, or by the network. -/
def Step.Internal : Step → Prop
  | .client i => i.Own
  | .server i => i.Own
  | .onMessage _ _ => True
  | .up _ _ _ _ => True
  | .down _ _ _ _ => True
  | _ => False

/-- A step of the loop thread is local, and no call. -/
theorem isLocal_of_own {i : Endpoint.Input} (hi : i.Own) : i.isLocal = true ∧ i.isCall = false := by
  cases i <;> first | exact ⟨rfl, rfl⟩ | exact hi.elim

/-- The message callback of the server can run. -/
theorem exists_onMessage {w : Endpoint} (h : w.Healthy) (hm : w.messaging = true) :
    ∃ result room w', onMessage w result room = some w' := by
  have hcallback : w.inCallback = true := by
    unfold Endpoint.messaging at hm
    split at hm
    · exact hm
    · cases hm
  let result : WriteResult := ⟨some w.conn.inputBuffer_.length, 0⟩
  obtain ⟨k, hk⟩ := Endpoint.exists_write h.broken h.attentive.room w.conn.inputBuffer_
  have hsend : ∃ v, (emptied w).send w.conn.inputBuffer_ result w.kernel.room = some v ∧
      v.inCallback = true := by
    unfold Endpoint.send
    split_ifs
    · exact ⟨_, Option.map_eq_some_iff.mpr ⟨k, hk, rfl⟩, hcallback⟩
    · exact ⟨_, rfl, hcallback⟩
  obtain ⟨v, hv, hcallback'⟩ := hsend
  refine ⟨result, w.kernel.room, { v with inCallback := false }, ?_⟩
  have hconsume : w.step (.call (.consume w.conn.inputBuffer_.length) true) = some (emptied w) :=
    if_pos (.inl hcallback)
  have hcall : (emptied w).step (.call (.send w.conn.inputBuffer_ result) w.kernel.room) = some v :=
    assert_eq_some_iff.mpr ⟨.inl hcallback, hv⟩
  have hret : v.step .ret = some { v with inCallback := false } :=
    assert_eq_some_iff.mpr ⟨hcallback', rfl⟩
  simp only [onMessage, run, hconsume, hcall, hret, Option.bind_some]

/-- The network can carry what waits in a socket. -/
theorem exists_carry {source target : Endpoint} (hsource : source.Healthy)
    (htarget : target.Healthy) (hne : source.kernel.sendQueue ≠ []) :
    ∃ n room edge edge' pair, carry source target n room edge edge' = some pair := by
  have hdrain : ∃ source', source.step (.kernel (.drain source.kernel.sendQueue.length true true)) =
      some source' := by
    refine ⟨_, Option.map_eq_some_iff.mpr ⟨_, assert_eq_some_iff.mpr ⟨⟨hsource.broken, ?_⟩, rfl⟩,
      rfl⟩⟩
    exact ⟨List.length_pos_of_ne_nil hne, le_rfl, fun _ => rfl, fun _ => rfl, fun _ _ _ => rfl⟩
  have harrive : ∃ target', target.step (.kernel (.arrive
      (source.kernel.sendQueue.take source.kernel.sendQueue.length) true)) = some target' := by
    refine ⟨_, Option.map_eq_some_iff.mpr ⟨_, assert_eq_some_iff.mpr ⟨⟨htarget.fin, htarget.broken,
      ?_, fun _ _ => rfl⟩, rfl⟩, rfl⟩⟩
    rwa [List.take_length]
  obtain ⟨source', hsource'⟩ := hdrain
  obtain ⟨target', htarget'⟩ := harrive
  refine ⟨source.kernel.sendQueue.length, true, true, true, (source', target'), ?_⟩
  rw [carry, hsource', Option.bind_some, htarget', Option.map_some]

/-- An endpoint that can only wait for the network waits, and has written all it can. -/
theorem drained_of_settled {w : Endpoint} (h : w.Healthy) (hsettled : w.Settled)
    (hempty : w.kernel.sendQueue = []) :
    w.conn.outputBuffer_ = [] ∧ w.kernel.recvQueue = [] := by
  obtain ⟨hreadable, hwritable⟩ := h.attentive.not_ready hsettled
  constructor
  · by_contra hne
    have hfull := hwritable hne
    rw [Kernel.writable, h.attentive.room hempty] at hfull
    cases hfull
  · simp only [Kernel.readable, Bool.or_eq_false_iff, Bool.not_eq_false', List.isEmpty_iff]
      at hreadable
    exact hreadable.1.1

/-- **When there is nothing left to do, everything has come back.**

**Proof sketch.** Both loop threads wait, since a loop thread that does not wait can go on, and both
sockets are empty, since the network could carry what is in them. So there is room, and by the
invariant of the edge-triggered handlers nothing waits in the output buffers and nothing is left
unread. The streams of both directions then end where the next one begins. -/
theorem echoed_of_stuck (h : e.Live) (hstuck : ∀ i : Step, i.Internal → e.step i = none) :
    received e.client.conn.log = accepted e.client.conn.log := by
  have hclient : e.client.Settled := by
    have hown : ∀ i w', i.Own → e.client.step i = some w' → False := by
      intro i w' hi hw'
      have hnone := hstuck (.client i) hi
      simp [step, assert, (isLocal_of_own hi).1, hw'] at hnone
    rcases Endpoint.exists_step h.client with hcallback | ⟨i, w', hi, -, hw'⟩ | ⟨hsettled, -⟩
    · exact (hown .ret _ trivial (assert_eq_some_iff.mpr ⟨hcallback, rfl⟩)).elim
    · exact (hown i w' hi hw').elim
    · exact hsettled
  have hserver : e.server.Settled := by
    have hown : ∀ i w', i.Own → (i = .ret → e.server.messaging = false) →
        e.server.step i = some w' → False := by
      intro i w' hi hret hw'
      have hnone := hstuck (.server i) hi
      obtain ⟨hlocal, hcall⟩ := isLocal_of_own hi
      rw [step, assert, if_pos ⟨hlocal, hcall, hret⟩, hw'] at hnone
      cases hnone
    rcases Endpoint.exists_step h.server with hcallback | ⟨i, w', hi, hne, hw'⟩ | ⟨hsettled, -⟩
    · cases hm : e.server.messaging with
      | true =>
        obtain ⟨result, room, w', hw'⟩ := exists_onMessage h.server hm
        have hnone := hstuck (.onMessage result room) trivial
        rw [step, assert, if_pos hm, hw'] at hnone
        cases hnone
      | false =>
        exact (hown .ret _ trivial (fun _ => hm) (assert_eq_some_iff.mpr ⟨hcallback, rfl⟩)).elim
    · exact (hown i w' hi (fun h => absurd h hne) hw').elim
    · exact hsettled
  have hup : e.client.kernel.sendQueue = [] := by
    by_contra hne
    obtain ⟨n, room, edge, edge', pair, hcarry⟩ := exists_carry h.client h.server hne
    have hnone := hstuck (.up n room edge edge') trivial
    rw [step, hcarry] at hnone
    cases hnone
  have hdown : e.server.kernel.sendQueue = [] := by
    by_contra hne
    obtain ⟨n, room, edge, edge', pair, hcarry⟩ := exists_carry h.server h.client hne
    have hnone := hstuck (.down n room edge edge') trivial
    rw [step, hcarry] at hnone
    cases hnone
  obtain ⟨houtput, hrecv⟩ := drained_of_settled h.client hclient hup
  obtain ⟨houtput', hrecv'⟩ := drained_of_settled h.server hserver hdown
  obtain ⟨up, down, hstreams, hstreams', hechoing⟩ := h.inOrder
  have hstate : e.server.conn.state_ = .kConnected := hechoing.state.resolve_right h.server.up
  have hmessaging : e.server.messaging = false := by
    unfold Endpoint.messaging
    rw [hserver.2.1]
  calc received e.client.conn.log
      = received e.client.conn.log ++ e.client.kernel.recvQueue := by rw [hrecv, List.append_nil]
    _ = down := hstreams.received
    _ = down ++ e.server.kernel.sendQueue := by rw [hdown, List.append_nil]
    _ = written e.server.conn.log := hstreams'.written.symm
    _ = written e.server.conn.log ++ e.server.conn.outputBuffer_ := by
      rw [houtput', List.append_nil]
    _ = accepted e.server.conn.log := hstreams'.whole h.server.broken
    _ = accepted e.server.conn.log ++ e.server.conn.inputBuffer_ := by
      rw [hechoing.empty hstate hmessaging, List.append_nil]
    _ = received e.server.conn.log := (hechoing.whole hstate).symm
    _ = received e.server.conn.log ++ e.server.kernel.recvQueue := by rw [hrecv', List.append_nil]
    _ = up := hstreams'.received
    _ = up ++ e.client.kernel.sendQueue := by rw [hup, List.append_nil]
    _ = written e.client.conn.log := hstreams.written.symm
    _ = written e.client.conn.log ++ e.client.conn.outputBuffer_ := by rw [houtput, List.append_nil]
    _ = accepted e.client.conn.log := hstreams.whole h.client.broken

/-! ## The work that is left -/

/-- **What is left to do**: for every byte the number of stations that it still has to pass on its
way through the server and back, and the effort of the two loop threads. -/
def work (e : Echo) : ℕ :=
  60 * (7 * e.client.conn.outputBuffer_.length + 6 * e.client.kernel.sendQueue.length +
    5 * e.server.kernel.recvQueue.length + 4 * e.server.conn.inputBuffer_.length +
    3 * e.server.conn.outputBuffer_.length + 2 * e.server.kernel.sendQueue.length +
    e.client.kernel.recvQueue.length) + e.client.effort + e.server.effort

/-- The loop thread of the client does some of the work. -/
theorem work_client {client : Endpoint} (h : e.client.Progress client) :
    work { e with client } < e.work := by
  unfold work
  cases h with
  | still h heffort =>
    simp only [Endpoint.amounts, Prod.mk.injEq] at h
    obtain ⟨hout, hsend, hrecv, -⟩ := h
    rw [hout, hsend, hrecv]
    dsimp only
    omega
  | read n hn hout hsend hrecv hin heffort =>
    dsimp only
    omega
  | wrote n hn hout hsend hrecv hin heffort =>
    dsimp only
    omega

/-- The loop thread of the server does some of the work. -/
theorem work_server {server : Endpoint} (h : e.server.Progress server) :
    work { e with server } < e.work := by
  unfold work
  cases h with
  | still h heffort =>
    simp only [Endpoint.amounts, Prod.mk.injEq] at h
    obtain ⟨hout, hsend, hrecv, hin⟩ := h
    rw [hout, hsend, hrecv, hin]
    dsimp only
    omega
  | read n hn hout hsend hrecv hin heffort =>
    dsimp only
    omega
  | wrote n hn hout hsend hrecv hin heffort =>
    dsimp only
    omega

/-- What the network moves, and the edges that it causes. -/
theorem effort_carry {source target source' target' : Endpoint} {n : ℕ} {room edge edge' : Bool}
    (hs : carry source target n room edge edge' = some (source', target')) :
    ∃ m, 0 < m ∧ source'.kernel.sendQueue.length + m = source.kernel.sendQueue.length ∧
      target'.kernel.recvQueue.length = target.kernel.recvQueue.length + m ∧
      source'.kernel.recvQueue = source.kernel.recvQueue ∧
      target'.kernel.sendQueue = target.kernel.sendQueue ∧
      source'.conn = source.conn ∧ target'.conn = target.conn ∧
      source'.effort ≤ source.effort + 9 ∧ target'.effort ≤ target.effort + 9 := by
  obtain ⟨hsource, htarget⟩ := carry_eq_some hs
  obtain ⟨k, hk, rfl⟩ := Option.map_eq_some_iff.mp hsource
  obtain ⟨k', hk', rfl⟩ := Option.map_eq_some_iff.mp htarget
  simp only [Kernel.step, assert_eq_some_iff, Option.some.injEq] at hk hk'
  obtain ⟨⟨-, hpos, hle, -⟩, rfl⟩ := hk
  obtain ⟨-, rfl⟩ := hk'
  have hpending : ∀ b b' : Bool, (b || b').toNat ≤ b.toNat + 1 := by decide
  refine ⟨n, hpos, ?_, ?_, rfl, rfl, rfl, rfl, ?_, ?_⟩
  · rw [List.length_drop]
    omega
  · rw [List.length_append, List.length_take, Nat.min_eq_left hle]
  · have hb := hpending source.kernel.pending edge
    simp only [Endpoint.effort]
    omega
  · have hb := hpending target.kernel.pending edge'
    simp only [Endpoint.effort]
    omega

/-- What the message callback of the server moves, and the effort that it causes. -/
theorem effort_onMessage {w w' : Endpoint} {result : WriteResult} {room : Bool} (h : w.Healthy)
    {up down : Bytes} (hstreams : w.Streams up down) (hechoing : Echoing w)
    (hs : onMessage w result room = some w') :
    w'.conn.inputBuffer_ = [] ∧ w'.kernel.recvQueue = w.kernel.recvQueue ∧
      w.kernel.sendQueue.length ≤ w'.kernel.sendQueue.length ∧
      w'.conn.outputBuffer_.length + w'.kernel.sendQueue.length =
        w.conn.outputBuffer_.length + w.kernel.sendQueue.length + w.conn.inputBuffer_.length ∧
      w'.effort ≤ w.effort + 20 := by
  obtain ⟨v, hv, -, rfl⟩ := onMessage_eq hs
  obtain ⟨hconn, hpoint, hrecv, hbroken, hprefix⟩ := Endpoint.send_eq_some hv
  obtain ⟨hinput, -, htasks⟩ := Endpoint.send_frame (emptied w).conn w.conn.inputBuffer_ result
  have haccepted := ((emptied w).conn.accepted_send w.conn.inputBuffer_ result).2
  have hs : (emptied w).conn.state_ = .kConnected := hechoing.state.resolve_right h.up
  have hemptied : (emptied w).Streams up down := hstreams.still rfl rfl rfl id
  have hsent : v.Streams up down := hemptied.send hv
  rw [← hconn] at hinput htasks haccepted
  rw [if_pos hs] at haccepted
  refine ⟨hinput.trans List.drop_length, hrecv, hprefix.length_le, ?_, ?_⟩
  · have hbefore := congrArg List.length (hstreams.whole h.broken)
    have hafter := congrArg List.length (hsent.whole (hbroken.trans h.broken))
    rw [haccepted] at hafter
    have hwritten := congrArg List.length hstreams.written
    have hwritten' := congrArg List.length hsent.written
    simp only [List.length_append] at hbefore hafter hwritten hwritten'
    have hemptied : accepted (emptied w).conn.log = accepted w.conn.log := rfl
    rw [hemptied] at hafter
    show v.conn.outputBuffer_.length + v.kernel.sendQueue.length = _
    omega
  · have hpending := Bool.toNat_le v.kernel.pending
    have hwriting := Bool.toNat_le v.conn.channel_.isWriting
    have hrank : Endpoint.rank v.point = Endpoint.rank w.point := congrArg _ hpoint
    have htasks' : v.conn.tasks ≤ w.conn.tasks + 1 := htasks
    simp only [Endpoint.effort, Bool.toNat_false, hrank]
    omega

/-- **Every internal step does some of the work.** -/
theorem work_step {i : Step} (hs : e.step i = some e') (hi : i.Internal) (h : e.Live) :
    e'.work < e.work := by
  cases i with
  | client i =>
    obtain ⟨-, hw⟩ := assert_eq_some_iff.mp hs
    obtain ⟨client, hclient, rfl⟩ := Option.map_eq_some_iff.mp hw
    exact work_client (Endpoint.progress hclient hi h.client)
  | server i =>
    obtain ⟨-, hw⟩ := assert_eq_some_iff.mp hs
    obtain ⟨server, hserver, rfl⟩ := Option.map_eq_some_iff.mp hw
    exact work_server (Endpoint.progress hserver hi h.server)
  | onMessage result room =>
    obtain ⟨hm, hw⟩ := assert_eq_some_iff.mp hs
    obtain ⟨server, hserver, rfl⟩ := Option.map_eq_some_iff.mp hw
    obtain ⟨up, down, -, hstreams, hechoing⟩ := h.inOrder
    obtain ⟨hnil, hrecv, hsend, htotal, heffort⟩ :=
      effort_onMessage h.server hstreams hechoing hserver
    have hpos := List.length_pos_of_ne_nil (h.message hm)
    unfold work
    dsimp only
    rw [hnil, hrecv, List.length_nil]
    omega
  | up n room edge edge' =>
    obtain ⟨⟨client, server⟩, hcarry, rfl⟩ := Option.map_eq_some_iff.mp hs
    obtain ⟨m, hm, hsend, hrecv, hrecv', hsend', hconn, hconn', heffort, heffort'⟩ :=
      effort_carry hcarry
    unfold work
    dsimp only
    rw [hrecv', hsend', hconn, hconn']
    omega
  | down n room edge edge' =>
    obtain ⟨⟨server, client⟩, hcarry, rfl⟩ := Option.map_eq_some_iff.mp hs
    obtain ⟨m, hm, hsend, hrecv, hrecv', hsend', hconn, hconn', heffort, heffort'⟩ :=
      effort_carry hcarry
    unfold work
    dsimp only
    rw [hrecv', hsend', hconn, hconn']
    omega
  | closeUp edge => exact hi.elim
  | closeDown edge => exact hi.elim

/-! ## Runs -/

/-- An internal step ends neither connection. -/
theorem Step.Internal.calm {i : Step} (hi : i.Internal) : i.Calm := by
  cases i with
  | client i | server i => cases i <;> trivial
  | onMessage result room => trivial
  | up n room edge edge' => trivial
  | down n room edge edge' => trivial
  | closeUp edge => exact hi.elim
  | closeDown edge => exact hi.elim

/-- An endpoint whose connection has just been established is up. -/
theorem healthy_established (fd : ℕ) (connection message writeComplete close : Bool) :
    (Endpoint.established fd connection message writeComplete close {}).Healthy := by
  refine ⟨Endpoint.attentive_established _ _ _ _ _ fun _ => rfl, ?_, rfl, rfl, fun _ h => ?_⟩
  · rw [Endpoint.established, Endpoint.state_invoke]
    simp
  · cases h

/-- A system that has just been started is live. -/
theorem live_start (clientFd serverFd : ℕ) (connection message writeComplete close : Bool) :
    (start clientFd serverFd connection message writeComplete close).Live := by
  have hrun : run step (start clientFd serverFd connection message writeComplete close) [] =
      some (start clientFd serverFd connection message writeComplete close) := rfl
  refine ⟨inOrder_run hrun, healthy_established _ _ _ _ _, healthy_established _ _ _ _ _, ?_⟩
  intro h
  cases h

/-- **The echo service delivers everything.** From every state to which a run leads that ends
neither connection, whatever the client has sent, in whatever pieces the sockets and the network
have moved it: the loop threads and the network can take only so many steps by themselves, at most
as many as there is work left, and wherever they cannot go on, the client has received all that it
has sent. -/
theorem echo_completes {clientFd serverFd : ℕ} {connection message writeComplete close : Bool}
    {steps more : List Step}
    (h : run step (start clientFd serverFd connection message writeComplete close) steps = some e)
    (hsteps : ∀ i ∈ steps, i.Calm) (h' : run step e more = some e')
    (hmore : ∀ i ∈ more, i.Internal) :
    more.length + e'.work ≤ e.work ∧
      ((∀ i : Step, i.Internal → e'.step i = none) →
        received e'.client.conn.log = accepted e'.client.conn.log) := by
  have hlive : e.Live := (Along.of_forall hsteps).invariant (fun hs hi h => live_step hs hi h) h
    (live_start clientFd serverFd connection message writeComplete close)
  have hstep : ∀ {e i e'}, step e i = some e' → i.Internal → e.Live →
      e'.Live ∧ e'.work < e.work :=
    fun hs hi h => ⟨live_step hs hi.calm h, work_step hs hi h⟩
  obtain ⟨hlive', hlength⟩ := run_length_le hstep h' hmore hlive
  exact ⟨hlength, echoed_of_stuck hlive'⟩

/-- The client sends one byte. When it has come back, and both loop threads wait, nothing is left to
do. -/
theorem echo_completes_one : ∃ e e' : Echo,
    run step (start 5 6 false true false true) [.client (.call (.send [7] ⟨some 1, 0⟩) true)] =
      some e ∧
    run step e
      [.up 1 true true true, .server .ret, .server (.poll EPOLLIN), .server .go, .server .go,
        .server (.readv (.data [7])), .onMessage ⟨some 1, 0⟩ true, .down 1 true true true,
        .server (.readv (.error EAGAIN)), .server .go, .server .task, .server .ret,
        .server (.poll 0), .server .go, .server .go, .server .go,
        .client (.poll EPOLLIN), .client .go, .client .go,
        .client (.readv (.data [7])), .client .ret, .client (.readv (.error EAGAIN)),
        .client .go] = some e' ∧
    (∀ i : Step, i.Internal → e'.step i = none) ∧
    received e'.client.conn.log = accepted e'.client.conn.log := by
  set steps : List Step := [.client (.call (.send [7] ⟨some 1, 0⟩) true)]
  set more : List Step :=
      [.up 1 true true true, .server .ret, .server (.poll EPOLLIN), .server .go, .server .go,
        .server (.readv (.data [7])), .onMessage ⟨some 1, 0⟩ true, .down 1 true true true,
        .server (.readv (.error EAGAIN)), .server .go, .server .task, .server .ret,
        .server (.poll 0), .server .go, .server .go, .server .go,
        .client (.poll EPOLLIN), .client .go, .client .go,
        .client (.readv (.data [7])), .client .ret, .client (.readv (.error EAGAIN)),
        .client .go]
  have hrun : ((run step (start 5 6 false true false true) steps).bind fun e =>
      run step e more).any (fun e' => e'.work = 0) = true := by
    decide +kernel
  obtain ⟨e', hboth, hwork⟩ := (Option.any_eq_true _ _).mp hrun
  obtain ⟨e, he, he'⟩ := Option.bind_eq_some_iff.mp hboth
  have hcalm : ∀ i ∈ steps, i.Calm := by simp [steps, Step.Calm, Endpoint.Input.Peaceful]
  have hinternal : ∀ i ∈ more, i.Internal := by simp [more, Step.Internal, Endpoint.Input.Own]
  have hstuck : ∀ i : Step, i.Internal → e'.step i = none := by
    intro i hi
    cases hs : e'.step i with
    | none => rfl
    | some e'' =>
      have hlonger : run step e' [i] = some e'' := by simp [run, hs]
      have hbound := (echo_completes (run_append.mpr ⟨e, he, he'⟩)
        (List.forall_mem_append.mpr ⟨hcalm, fun i hi => (hinternal i hi).calm⟩) hlonger
        (by simpa using hi)).1
      rw [of_decide_eq_true hwork] at hbound
      simp at hbound
  exact ⟨e, e', he, he', hstuck, (echo_completes he hcalm he' hinternal).2 hstuck⟩

end Echo

end LouisNet.Net
