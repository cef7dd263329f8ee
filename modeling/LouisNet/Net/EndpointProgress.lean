import LouisNet.Net.EndpointStreams

set_option relaxedAutoImplicit false
set_option autoImplicit false

/-!
# Progress of an endpoint

While the peer neither closes nor resets the connection, the connection stays up, and the loop
thread comes to an end of what it has to do: each of its steps moves bytes on, or brings it nearer
to `epoll_wait` with nothing on the ready list. The edges that a registration causes are counted
with the interest in writing, which is taken back once for every time that bytes are left to wait.

## Main definitions

* `LouisNet.Net.Endpoint.Healthy` — a connection that nothing has happened to.
* `LouisNet.Net.Endpoint.effort` — how far the loop thread is from waiting.
* `LouisNet.Net.Endpoint.Progress` — bytes move on, or the effort gets smaller.

## Main results

* `LouisNet.Net.Endpoint.healthy_step` — a connection that nothing happens to stays up.
* `LouisNet.Net.Endpoint.progress` — every step of the loop thread is progress.
* `LouisNet.Net.Endpoint.exists_step` — the loop thread can go on, or waits with nothing to do.
-/

namespace LouisNet.Net

open Lib Reactor

namespace Endpoint

variable {w w' : Endpoint}

/-! ## Connections that nothing happens to -/

/-- A connection that was neither closed nor reset, and is up. -/
structure Healthy (w : Endpoint) : Prop where
  attentive : w.Attentive
  up : w.conn.state_ ≠ .kDisconnected
  fin : w.kernel.fin = false
  broken : w.kernel.broken = false
  noError : ∀ revents, w.point = .error revents → has revents EPOLLERR = false

/-- The peer does nothing that ends the connection. -/
def Input.Peaceful : Input → Prop
  | .kernel (.close _) => False
  | .kernel (.reset _) => False
  | _ => True

instance (i : Input) : Decidable i.Peaceful := by
  unfold Input.Peaceful
  split <;> infer_instance

/-- The loop thread goes on, behind an event without an error. -/
theorem go_up (h : w.Healthy) (hs : w.go w.point = some w') :
    w'.conn.state_ = w.conn.state_ ∧ w'.kernel.fin = w.kernel.fin ∧
      w'.kernel.broken = w.kernel.broken ∧ ∀ revents, w'.point ≠ .error revents := by
  have hopen := h.attentive.isOpen
  cases hpoint : w.point with
  | idle | readLoop revents => simp [hpoint, go] at hs
  | close next =>
    rw [hpoint] at hopen
    exact hopen.elim
  | error revents =>
    simp only [hpoint, go, h.noError revents hpoint] at hs
    obtain rfl := Option.some.inj hs
    exact ⟨rfl, rfl, rfl, fun _ h => by cases h⟩
  | read revents | write revents =>
    simp only [hpoint, go] at hs
    split_ifs at hs
    · obtain rfl := Option.some.inj hs
      exact ⟨rfl, rfl, rfl, fun _ h => by cases h⟩
    · obtain rfl := Option.some.inj hs
      exact ⟨rfl, rfl, rfl, fun _ h => by cases h⟩
  | writeLoop =>
    simp only [hpoint, go, assert_eq_some_iff, Option.some.injEq] at hs
    obtain ⟨-, rfl⟩ := hs
    exact ⟨state_invoke w.disableWrite _ _ _, rfl, rfl, fun _ h => by cases h⟩
  | drained =>
    simp only [hpoint, go, Option.some.injEq] at hs
    subst hs
    refine ⟨?_, rfl, rfl, fun _ h => by cases h⟩
    dsimp only
    split_ifs
    · exact (shutdownInLoop_eq w.conn).2.2
    · rfl

/-- `readv` in a connection that nothing has happened to: bytes, or nothing to read. -/
theorem readv_up {k k' : Kernel} (hfin : k.fin = false) (hbroken : k.broken = false)
    {result : ReadResult} (hk : k.readv result = some k') :
    (∃ x bytes, result = .data (x :: bytes) ∧ (x :: bytes) <+: k.recvQueue ∧
      k' = { k with recvQueue := k.recvQueue.drop (x :: bytes).length }) ∨
    (result = .error EAGAIN ∧ k.readable = false ∧ k' = k) := by
  rcases result with ⟨_ | ⟨x, bytes⟩⟩ | errno
  · simp [Kernel.readv, hfin, hbroken] at hk
  · simp only [Kernel.readv, assert_eq_some_iff, Option.some.injEq] at hk
    exact .inl ⟨x, bytes, rfl, hk.1, hk.2.symm⟩
  · simp only [Kernel.readv, assert_eq_some_iff, Option.some.injEq] at hk
    obtain ⟨hk, rfl⟩ := hk
    by_cases hagain : errno = EAGAIN
    · subst hagain
      exact .inr ⟨rfl, by simpa using hk, rfl⟩
    · rw [if_neg hagain, hbroken] at hk
      exact absurd hk Bool.false_ne_true

/-- `write` in a connection that was not reset: some bytes, or no room. -/
theorem write_up {k k' : Kernel} (hbroken : k.broken = false) {data : Bytes} (hne : data ≠ [])
    {result : WriteResult} {room : Bool} (hk : k.write data result room = some k') :
    (∃ n, result.ret = some (n + 1) ∧ n + 1 ≤ data.length ∧
      k' = { k with sendQueue := k.sendQueue ++ data.take (n + 1), room }) ∨
    (result.ret = none ∧ result.errno = EAGAIN ∧ k.writable = false ∧ k' = k) := by
  unfold Kernel.write at hk
  rcases hret : result.ret with _ | _ | n
  · simp only [hret, assert_eq_some_iff, Option.some.injEq, hbroken] at hk
    obtain ⟨hk, rfl⟩ := hk
    split_ifs at hk with hagain
    · exact .inr ⟨rfl, hagain, hk, rfl⟩
    · exact hk.1.elim
  · simp only [hret, assert_eq_some_iff] at hk
    exact absurd (hk.1.2.2.1 hne) (lt_irrefl 0)
  · simp only [hret, assert_eq_some_iff, Option.some.injEq] at hk
    exact .inl ⟨n, rfl, hk.1.2.1, hk.2.symm⟩

/-- `epoll_wait` in a connection that nothing has happened to reports no end and no error. -/
theorem epollWait_up {k k' : Kernel} {ch : Channel} {revents : UInt32} (hfin : k.fin = false)
    (hbroken : k.broken = false) (hk : k.epollWait ch revents = some k') :
    k' = { k with pending := false } ∧ k.pending = true ∧ has revents EPOLLHUP = false ∧
      has revents EPOLLERR = false := by
  simp only [Kernel.epollWait, assert_eq_some_iff, Option.some.injEq] at hk
  obtain ⟨⟨hpending, -, -, herror, hhangUp⟩, rfl⟩ := hk
  simp only [hfin, hbroken, Bool.false_eq_true, or_self, imp_false, Bool.not_eq_true]
    at herror hhangUp
  exact ⟨rfl, hpending, hhangUp, herror⟩

/-- **A connection that nothing happens to stays up.** -/
theorem healthy_step {i : Input} (hs : step w i = some w') (hi : i.Peaceful) (h : w.Healthy) :
    w'.Healthy := by
  suffices hsame : w'.conn.state_ ≠ .kDisconnected ∧ w'.kernel.fin = false ∧
      w'.kernel.broken = false ∧
      ∀ revents, w'.point = .error revents → has revents EPOLLERR = false from
    ⟨attentive_step hs (fun _ => h.attentive) hsame.1, hsame.1, hsame.2.1, hsame.2.2.1,
      hsame.2.2.2⟩
  cases i with
  | kernel i =>
    obtain ⟨k, hk, rfl⟩ := Option.map_eq_some_iff.mp hs
    cases i with
    | arrive bytes edge =>
      simp only [Kernel.step, assert_eq_some_iff, Option.some.injEq] at hk
      obtain ⟨-, rfl⟩ := hk
      exact ⟨h.up, h.fin, h.broken, h.noError⟩
    | close edge => exact hi.elim
    | reset errno => exact hi.elim
    | drain n room edge =>
      simp only [Kernel.step, assert_eq_some_iff, Option.some.injEq] at hk
      obtain ⟨-, rfl⟩ := hk
      exact ⟨h.up, h.fin, h.broken, h.noError⟩
  | poll revents =>
    obtain ⟨-, hw'⟩ := assert_eq_some_iff.mp hs
    obtain ⟨k, hk, rfl⟩ := Option.map_eq_some_iff.mp hw'
    obtain ⟨rfl, -, hhangUp, herror⟩ := epollWait_up h.fin h.broken hk
    unfold handleEvents
    rw [if_neg (by simp [hhangUp])]
    refine ⟨h.up, h.fin, h.broken, fun revents' hpoint => ?_⟩
    obtain rfl : revents = revents' := Point.error.inj hpoint
    exact herror
  | task =>
    obtain ⟨-, hw'⟩ := assert_eq_some_iff.mp hs
    obtain rfl := Option.some.inj hw'
    exact ⟨(state_invoke _ _ _ _).trans_ne h.up, h.fin, h.broken, fun _ h => by cases h⟩
  | call k room =>
    obtain ⟨-, hw'⟩ := assert_eq_some_iff.mp hs
    cases k with
    | send message result =>
      have hstate := (w.conn.accepted_send message result).1
      change w.send message result room = some w' at hw'
      unfold Endpoint.send at hw'
      split_ifs at hw'
      · obtain ⟨k, hk, rfl⟩ := Option.map_eq_some_iff.mp hw'
        obtain ⟨-, -, hfin, hbroken, -, -⟩ := write_eq_some hk h.attentive.room
        refine ⟨by rw [hstate]; exact h.up, ?_, ?_, h.noError⟩
        · dsimp only
          split_ifs <;> exact hfin.trans h.fin
        · dsimp only
          split_ifs <;> exact hbroken.trans h.broken
      · obtain rfl := Option.some.inj hw'
        exact ⟨by rw [hstate]; exact h.up, h.fin, h.broken, h.noError⟩
    | shutdown =>
      obtain rfl := Option.some.inj hw'
      refine ⟨?_, h.fin, h.broken, h.noError⟩
      rw [(w.conn.accepted_shutdown).1]
      split_ifs
      · decide
      · exact h.up
    | consume len =>
      obtain rfl := Option.some.inj hw'
      exact ⟨h.up, h.fin, h.broken, h.noError⟩
  | ret =>
    obtain ⟨-, hw'⟩ := assert_eq_some_iff.mp hs
    obtain rfl := Option.some.inj hw'
    exact ⟨h.up, h.fin, h.broken, h.noError⟩
  | go =>
    obtain ⟨-, hw'⟩ := assert_eq_some_iff.mp hs
    obtain ⟨hstate, hfin, hbroken, herror⟩ := go_up h hw'
    exact ⟨by rw [hstate]; exact h.up, hfin.trans h.fin, hbroken.trans h.broken,
      fun revents hpoint => absurd hpoint (herror revents)⟩
  | readv result =>
    obtain ⟨-, hw'⟩ := assert_eq_some_iff.mp hs
    split at hw'
    · obtain ⟨k, hk, rfl⟩ := Option.map_eq_some_iff.mp hw'
      obtain ⟨x, bytes, rfl, -, rfl⟩ | ⟨rfl, -, rfl⟩ := readv_up h.fin h.broken hk
      · exact ⟨(state_invoke _ _ _ _).trans_ne h.up, h.fin, h.broken, fun _ h => by cases h⟩
      · exact ⟨h.up, h.fin, h.broken, fun _ h => by cases h⟩
    · cases hw'
  | write result room =>
    obtain ⟨⟨-, hpoint, hne⟩, hw'⟩ := assert_eq_some_iff.mp hs
    obtain ⟨k, hk, rfl⟩ := Option.map_eq_some_iff.mp hw'
    obtain ⟨n, hret, -, rfl⟩ | ⟨hret, hagain, -, rfl⟩ := write_up h.broken hne hk
    · unfold afterWrite
      rw [hret]
      exact ⟨h.up, h.fin, h.broken, fun revents he => by rw [hpoint] at he; cases he⟩
    · unfold afterWrite
      rw [hret, hagain]
      exact ⟨h.up, h.fin, h.broken, fun _ h => by cases h⟩

/-! ## Progress -/

/-- How far a point is from waiting. -/
def rank : Point → ℕ
  | .idle => 0
  | .drained => 1
  | .writeLoop => 3
  | .write _ => 4
  | .readLoop _ => 5
  | .read _ => 7
  | .error _ => 8
  | .close _ => 0

/-- How far the loop thread is from waiting with nothing to do: an edge is worth a round of
`Channel::handler`, and interest in writing an edge. -/
def effort (w : Endpoint) : ℕ :=
  9 * w.kernel.pending.toNat + 9 * w.conn.channel_.isWriting.toNat + rank w.point +
    w.inCallback.toNat + 2 * w.conn.tasks

/-- The numbers of bytes on their way through an endpoint: in the output buffer, in the socket in
both directions, and in the input buffer. -/
def amounts (w : Endpoint) : ℕ × ℕ × ℕ × ℕ :=
  (w.conn.outputBuffer_.length, w.kernel.sendQueue.length, w.kernel.recvQueue.length,
    w.conn.inputBuffer_.length)

/-- Bytes move on, or the loop thread comes nearer to waiting. -/
inductive Progress (w w' : Endpoint) : Prop where
  | still (h : w'.amounts = w.amounts) (heffort : w'.effort < w.effort)
  | read (n : ℕ) (hn : 0 < n) (hout : w'.conn.outputBuffer_.length = w.conn.outputBuffer_.length)
      (hsend : w'.kernel.sendQueue.length = w.kernel.sendQueue.length)
      (hrecv : w'.kernel.recvQueue.length + n = w.kernel.recvQueue.length)
      (hin : w'.conn.inputBuffer_.length = w.conn.inputBuffer_.length + n)
      (heffort : w'.effort ≤ w.effort + 1)
  | wrote (n : ℕ) (hn : 0 < n)
      (hout : w'.conn.outputBuffer_.length + n = w.conn.outputBuffer_.length)
      (hsend : w'.kernel.sendQueue.length = w.kernel.sendQueue.length + n)
      (hrecv : w'.kernel.recvQueue.length = w.kernel.recvQueue.length)
      (hin : w'.conn.inputBuffer_.length = w.conn.inputBuffer_.length)
      (heffort : w'.effort ≤ w.effort)

/-- The steps that the loop thread takes by itself. -/
def Input.Own : Input → Prop
  | .kernel _ => False
  | .call _ _ => False
  | _ => True

/-- The loop thread goes on, and is nearer to waiting. -/
theorem progress_go (h : w.Healthy) (hcallback : w.inCallback = false)
    (hs : w.go w.point = some w') : w.Progress w' := by
  have hopen := h.attentive.isOpen
  cases hpoint : w.point with
  | idle | readLoop revents => simp [hpoint, go] at hs
  | close next =>
    rw [hpoint] at hopen
    exact hopen.elim
  | error revents =>
    simp only [hpoint, go, h.noError revents hpoint] at hs
    obtain rfl := Option.some.inj hs
    refine .still rfl ?_
    simp [effort, hpoint, rank]
  | read revents | write revents =>
    simp only [hpoint, go] at hs
    split_ifs at hs
    · obtain rfl := Option.some.inj hs
      refine .still rfl ?_
      simp [effort, hpoint, rank]
    · obtain rfl := Option.some.inj hs
      refine .still rfl ?_
      simp [effort, hpoint, rank]
  | writeLoop =>
    simp only [hpoint, go, assert_eq_some_iff, Option.some.injEq] at hs
    obtain ⟨-, rfl⟩ := hs
    have hwriting := h.attentive.writing hpoint
    have hpending := Bool.toNat_le (w.disableWrite.kernel.pending)
    cases hset : w.conn.writeCompleteCallback_ with
    | true | false =>
      refine .still rfl ?_
      have heffort : w.effort = 9 * w.kernel.pending.toNat + 9 + 3 + 2 * w.conn.tasks := by
        simp [effort, hpoint, rank, hwriting, hcallback]
      rw [heffort]
      simp [effort, invoke, rank, disableWrite, TcpConnection.emit] at hpending ⊢
      omega
  | drained =>
    simp only [hpoint, go, Option.some.injEq] at hs
    subst hs
    have hsame : ∀ c : TcpConnection, c.channel_ = w.conn.channel_ →
        c.outputBuffer_ = w.conn.outputBuffer_ → c.inputBuffer_ = w.conn.inputBuffer_ →
        c.tasks = w.conn.tasks → w.Progress { w with conn := c, point := .idle } := by
      intro c hchannel houtput hinput htasks
      refine .still ?_ ?_
      · simp [amounts, houtput, hinput]
      · simp [effort, hpoint, rank, hchannel, htasks]
    split_ifs
    · unfold TcpConnection.shutdownInLoop
      split_ifs <;> exact hsame _ rfl rfl rfl rfl
    · exact hsame _ rfl rfl rfl rfl

/-- What is the same behind a `readv` that has read some bytes. -/
theorem afterRead_data (w : Endpoint) (revents : UInt32) (x : UInt8) (bytes : Bytes) :
    ∃ c : TcpConnection, w.afterRead revents (.data (x :: bytes)) =
        ⟨c, w.kernel, .readLoop revents, w.conn.messageCallback_⟩ ∧
      c.outputBuffer_ = w.conn.outputBuffer_ ∧
      c.inputBuffer_ = w.conn.inputBuffer_ ++ (x :: bytes) ∧
      c.channel_ = w.conn.channel_ ∧ c.tasks = w.conn.tasks := by
  refine ⟨_, rfl, ?_⟩
  split_ifs <;> exact ⟨rfl, rfl, rfl, rfl⟩

/-- **Every step of the loop thread is progress.** -/
theorem progress {i : Input} (hs : step w i = some w') (hi : i.Own) (h : w.Healthy) :
    w.Progress w' := by
  cases i with
  | kernel i => exact hi.elim
  | call k room => exact hi.elim
  | poll revents =>
    obtain ⟨⟨hcallback, hidle⟩, hw'⟩ := assert_eq_some_iff.mp hs
    obtain ⟨k, hk, rfl⟩ := Option.map_eq_some_iff.mp hw'
    obtain ⟨rfl, hpending, hhangUp, -⟩ := epollWait_up h.fin h.broken hk
    unfold handleEvents
    rw [if_neg (by simp [hhangUp])]
    refine .still rfl ?_
    simp [effort, rank, hpending, hidle]
    omega
  | task =>
    obtain ⟨⟨hcallback, hidle, htasks⟩, hw'⟩ := assert_eq_some_iff.mp hs
    obtain rfl := Option.some.inj hw'
    cases hset : w.conn.writeCompleteCallback_ with
    | true | false =>
      refine .still rfl ?_
      simp [effort, invoke, rank, hidle, hcallback, TcpConnection.emit]
      omega
  | ret =>
    obtain ⟨hcallback, hw'⟩ := assert_eq_some_iff.mp hs
    obtain rfl := Option.some.inj hw'
    refine .still rfl ?_
    simp [effort, hcallback]
  | go =>
    obtain ⟨hcallback, hw'⟩ := assert_eq_some_iff.mp hs
    exact progress_go h hcallback hw'
  | readv result =>
    obtain ⟨hcallback, hw'⟩ := assert_eq_some_iff.mp hs
    split at hw'
    · rename_i revents hpoint
      obtain ⟨k, hk, rfl⟩ := Option.map_eq_some_iff.mp hw'
      obtain ⟨x, bytes, rfl, hbytes, rfl⟩ | ⟨rfl, -, rfl⟩ := readv_up h.fin h.broken hk
      · have hlength := hbytes.length_le
        obtain ⟨c, hc, houtput, hinput, hchannel, htasks⟩ := afterRead_data { w with
          kernel := { w.kernel with recvQueue := w.kernel.recvQueue.drop (x :: bytes).length } }
          revents x bytes
        rw [hc]
        refine .read (x :: bytes).length (Nat.succ_pos _) (congrArg _ houtput) rfl ?_ ?_ ?_
        · rw [List.length_drop]
          omega
        · rw [hinput, List.length_append]
        · have hset := Bool.toNat_le w.conn.messageCallback_
          simp only [effort, hchannel, htasks, hpoint, hcallback, Bool.toNat_false]
          omega
      · refine .still rfl ?_
        simp [effort, rank, hpoint, afterRead, TcpConnection.emit]
    · cases hw'
  | write result room =>
    obtain ⟨⟨hcallback, hpoint, hne⟩, hw'⟩ := assert_eq_some_iff.mp hs
    obtain ⟨k, hk, rfl⟩ := Option.map_eq_some_iff.mp hw'
    obtain ⟨n, hret, hlength, rfl⟩ | ⟨hret, hagain, hfull, rfl⟩ := write_up h.broken hne hk
    · have hmin : min (n + 1) w.conn.outputBuffer_.length = n + 1 := Nat.min_eq_left hlength
      unfold afterWrite
      rw [hret]
      refine .wrote (n + 1) n.succ_pos ?_ ?_ rfl rfl ?_
      · simp [TcpConnection.emit, hmin]
        omega
      · simp [Nat.min_eq_left hlength]
      · exact le_rfl
    · -- the registration finds nothing that was not known
      have hwriting := h.attentive.writing hpoint
      have hdisabled := h.attentive.registered.disableWrite
      have hread := h.attentive.read
      rw [hpoint] at hread
      have hsame : ((w.kernel.epollCtl w.conn.channel_.disableWrite).epollCtl
          w.conn.channel_.disableWrite.enableWrite).pending = w.kernel.pending := by
        refine Bool.eq_iff_iff.mpr ?_
        rw [hdisabled.enableWrite.pending_epollCtl, hdisabled.pending_epollCtl]
        have hfull' : (w.kernel.epollCtl w.conn.channel_.disableWrite).writable = false := hfull
        have hknown : w.kernel.readable = true → w.kernel.pending = true := fun hlevel =>
          (hread hlevel).resolve_right (by simp [willRead])
        have hreadable : (w.kernel.epollCtl w.conn.channel_.disableWrite).readable =
          w.kernel.readable := rfl
        simp only [hfull, hfull', hreadable, Bool.false_eq_true, and_false, or_false]
        tauto
      unfold afterWrite
      rw [hret, hagain]
      dsimp only
      rw [if_neg (by decide : ¬ EAGAIN = 0), if_pos (.inl rfl)]
      refine .still rfl ?_
      have heffort : w.effort = 9 * w.kernel.pending.toNat + 9 + 3 + 2 * w.conn.tasks := by
        simp [effort, hpoint, rank, hwriting, hcallback]
      rw [heffort]
      simp [effort, rank, disableWrite, enableWrite, hsame, hcallback, TcpConnection.emit]

/-! ## The loop thread is never stuck -/

/-- A mask with which `epoll_wait` may report what there is. -/
theorem exists_revents (isIn isOut : Bool) : ∃ revents : UInt32,
    has revents EPOLLIN = isIn ∧ has revents EPOLLOUT = isOut ∧ has revents EPOLLERR = false ∧
      has revents EPOLLHUP = false := by
  cases isIn <;> cases isOut
  · exact ⟨0, by decide⟩
  · exact ⟨EPOLLOUT, by decide⟩
  · exact ⟨EPOLLIN, by decide⟩
  · exact ⟨EPOLLIN ||| EPOLLOUT, by decide⟩

/-- A `write` of everything is possible on a connection that was not reset. -/
theorem exists_write {k : Kernel} (hbroken : k.broken = false)
    (hroom : k.sendQueue = [] → k.room = true) (data : Bytes) :
    ∃ k', k.write data ⟨some data.length, 0⟩ k.room = some k' := by
  refine ⟨{ k with sendQueue := k.sendQueue ++ data.take data.length }, ?_⟩
  refine assert_eq_some_iff.mpr ⟨⟨hbroken, le_rfl, List.length_pos_of_ne_nil, id,
    fun hempty => ?_⟩, rfl⟩
  exact hroom (List.append_eq_nil_iff.mp hempty).1

/-- **The loop thread is never stuck**: it can go on, or the code of the user runs, or it waits with
nothing on the ready list and no functor in the queue. -/
theorem exists_step (h : w.Healthy) :
    w.inCallback = true ∨ (∃ i w', i.Own ∧ i ≠ .ret ∧ step w i = some w') ∨
      w.Settled ∧ w.conn.tasks = 0 := by
  cases hcallback : w.inCallback with
  | true => exact .inl rfl
  | false =>
    refine .inr ?_
    have hgo : ∀ w', w.go w.point = some w' →
        ∃ i w', i.Own ∧ i ≠ .ret ∧ step w i = some w' := by
      intro w' hw'
      exact ⟨.go, w', trivial, by simp, by simp [step, hcallback, hw']⟩
    have hopen := h.attentive.isOpen
    cases hpoint : w.point with
    | close next =>
      rw [hpoint] at hopen
      exact hopen.elim
    | error revents | read revents | write revents =>
      refine .inl ?_
      cases hw' : w.go w.point with
      | some w' => exact hgo w' hw'
      | none =>
        simp only [hpoint, go] at hw'
        split_ifs at hw'
    | drained => exact .inl (hgo _ (by rw [hpoint]; rfl))
    | readLoop revents =>
      refine .inl ?_
      have hreadv : ∀ result k, w.kernel.readv result = some k →
          ∃ i w', i.Own ∧ i ≠ .ret ∧ step w i = some w' := by
        intro result k hk
        refine ⟨.readv result, afterRead { w with kernel := k } revents result, trivial,
          by simp, ?_⟩
        simp [step, hcallback, hpoint, hk]
      cases hqueue : w.kernel.recvQueue with
      | nil =>
        refine hreadv (.error EAGAIN) w.kernel ?_
        simp [Kernel.readv, Kernel.readable, hqueue, h.fin, h.broken]
      | cons x bytes =>
        exact hreadv (.data (x :: bytes)) _ (by simp [Kernel.readv, hqueue]; rfl)
    | writeLoop =>
      refine .inl ?_
      by_cases hnil : w.conn.outputBuffer_ = []
      · exact hgo _ (by rw [hpoint, go, assert, if_pos hnil])
      · obtain ⟨k, hk⟩ := exists_write h.broken h.attentive.room w.conn.outputBuffer_
        refine ⟨.write ⟨some w.conn.outputBuffer_.length, 0⟩ w.kernel.room,
          afterWrite { w with kernel := k } ⟨some w.conn.outputBuffer_.length, 0⟩, trivial,
          by simp, ?_⟩
        simp [step, hcallback, hpoint, hnil, hk]
    | idle =>
      by_cases hpending : w.kernel.pending = true
      · refine .inl ?_
        obtain ⟨revents, hin, hout, herror, hhangUp⟩ := exists_revents
          (Kernel.watches w.conn.channel_ EPOLLIN && w.kernel.readable)
          (Kernel.watches w.conn.channel_ EPOLLOUT && w.kernel.writable)
        have hk : w.kernel.epollWait w.conn.channel_ revents =
            some { w.kernel with pending := false } := by
          simp [Kernel.epollWait, hpending, hin, hout, herror, hhangUp]
        refine ⟨.poll revents, handleEvents { w with kernel := { w.kernel with pending := false } }
          revents, trivial, by simp, ?_⟩
        simp [step, hcallback, hpoint, hk]
      · by_cases htasks : w.conn.tasks = 0
        · exact .inr ⟨⟨hcallback, hpoint, by simpa using hpending⟩, htasks⟩
        · have hpos := Nat.pos_of_ne_zero htasks
          refine .inl ⟨.task, invoke { w with conn := { w.conn with tasks := w.conn.tasks - 1 } }
            w.conn.writeCompleteCallback_ .writeCompleteCallback .idle, trivial, by simp, ?_⟩
          simp [step, hcallback, hpoint, hpos]

end Endpoint

end LouisNet.Net
