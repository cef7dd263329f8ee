import LouisNet.Net.TcpConnectionOutput
import LouisNet.Net.TcpConnectionRules

set_option relaxedAutoImplicit false
set_option autoImplicit false

/-!
# The half-close of a connection

`shutdown` does not close anything while bytes wait to be written: it leaves the state
`kDisconnecting` behind, and the write end is shut down when the last byte has left the output
buffer. The decision is made on the interest of the channel in writing, in two places. Along every
run on the loop thread everything accepted is written before the half-close, nothing is written
behind it, and a connection that waits for its half-close waits for room to write.

## Main definitions

* `LouisNet.Net.ClosedInOrder` — nothing is lost before the half-close and nothing follows it.
* `LouisNet.Net.TcpConnection.ShutdownInvariant` — the invariant, also inside the callbacks.
* `LouisNet.Net.TcpConnection.LoopStep` — the steps of the loop thread, with the destruction of the
  connection.

## Main results

* `LouisNet.Net.TcpConnection.keeps_shutdownInvariant`,
  `LouisNet.Net.TcpConnection.keeps_graceful` — the parts of the handlers keep the invariants.
* `LouisNet.Net.TcpConnection.graceful_handleWrite` — so does `handleWrite`.
* `LouisNet.Net.TcpConnection.graceful_shutdown` — runs.
-/

namespace LouisNet.Net

open Lib Reactor

/-! ## The log -/

/-- Whenever the write end is shut down, everything accepted before is written, and nothing is
accepted or written afterwards. -/
def ClosedInOrder (log : List Event) : Prop :=
  ∀ before after, log = before ++ .shutdownWrite :: after →
    written before = accepted before ∧ ∀ e ∈ after, e.Neutral ∨ e = .shutdownWrite

/-- A neutral event accepts nothing. -/
theorem accepted_append_of_neutral {e : Event} (he : e.Neutral) (log : List Event) :
    accepted (log ++ [e]) = accepted log := by
  cases e <;> simp_all [accepted, Event.Neutral]

/-- A neutral event writes nothing. -/
theorem written_append_of_neutral {e : Event} (he : e.Neutral) (log : List Event) :
    written (log ++ [e]) = written log := by
  cases e <;> simp_all [written, Event.Neutral]

/-- A neutral event is no half-close. -/
theorem mem_append_iff_of_neutral {e : Event} (he : e.Neutral) (log : List Event) :
    .shutdownWrite ∈ log ++ [e] ↔ .shutdownWrite ∈ log := by
  cases e <;> simp_all [Event.Neutral]

/-- Without a half-close there is nothing to show. -/
theorem closedInOrder_of_not_mem {log : List Event} (h : .shutdownWrite ∉ log) :
    ClosedInOrder log := by
  rintro before after rfl
  simp at h

/-- One more event. -/
theorem ClosedInOrder.append {log : List Event} (h : ClosedInOrder log) {e : Event}
    (he : e.Neutral ∨ e = .shutdownWrite) (hw : e = .shutdownWrite → written log = accepted log) :
    ClosedInOrder (log ++ [e]) := by
  intro before after hlog
  rcases after.eq_nil_or_concat with rfl | ⟨after', e', rfl⟩
  · obtain ⟨rfl, hlast⟩ := List.append_inj' hlog rfl
    obtain rfl : e = .shutdownWrite := by simpa using hlast
    exact ⟨hw rfl, by simp⟩
  · rw [List.concat_eq_append] at hlog ⊢
    rw [← List.cons_append, ← List.append_assoc] at hlog
    obtain ⟨rfl, hlast⟩ := List.append_inj' hlog rfl
    obtain rfl : e = e' := by simpa using hlast
    obtain ⟨hbefore, hafter⟩ := h before after' rfl
    refine ⟨hbefore, fun e' he' => ?_⟩
    rcases List.mem_append.mp he' with hold | hnew
    · exact hafter e' hold
    · obtain rfl := List.mem_singleton.mp hnew
      exact he

namespace TcpConnection

/-! ## The invariant -/

/-- **The invariant**, which holds inside the callbacks too. Once the write end is shut down the
connection is not connected any more, nothing waits, and the channel does not wait for room. -/
structure ShutdownInvariant (c : TcpConnection) : Prop where
  stream : written c.log ++ c.outputBuffer_ = accepted c.log
  interest : c.state_ ≠ .kDisconnected → (c.channel_.isWriting = true ↔ c.outputBuffer_ ≠ [])
  sound : c.supply.Sound
  closed : .shutdownWrite ∈ c.log →
    c.state_ ≠ .kConnected ∧ c.outputBuffer_ = [] ∧ c.channel_.isWriting = false
  inOrder : ClosedInOrder c.log

/-- The direct write does not shut down. -/
theorem mem_log_writeDirect {c : TcpConnection} {data : Bytes} {result : WriteResult}
    (h : .shutdownWrite ∈ (c.writeDirect data result).1.log) : .shutdownWrite ∈ c.log := by
  unfold writeDirect at h
  split at h
  · dsimp only at h
    split_ifs at h <;> simpa [emit] using h
  · split_ifs at h <;> exact h

/-- Sending does not shut down. -/
theorem mem_log_sendInLoop {c : TcpConnection} {data : Bytes} {result : WriteResult}
    (h : .shutdownWrite ∈ (c.sendInLoop data result).log) : .shutdownWrite ∈ c.log := by
  have hdirect : .shutdownWrite ∈ (if !c.channel_.isWriting ∧ c.outputBuffer_ = [] then
      c.writeDirect data result else (c, 0, 0)).1.log → .shutdownWrite ∈ c.log := by
    intro hmem
    split_ifs at hmem
    · exact mem_log_writeDirect hmem
    · exact hmem
  unfold sendInLoop at h
  by_cases hs : c.state_ = .kDisconnected
  · rw [if_pos hs] at h
    exact h
  · rw [if_neg hs] at h
    generalize (if !c.channel_.isWriting ∧ c.outputBuffer_ = [] then
      c.writeDirect data result else (c, 0, 0)) = p at hdirect h
    dsimp only at h
    split_ifs at h <;> exact hdirect h

/-- A connected connection has not been shut down. -/
theorem ShutdownInvariant.not_mem_of_connected {c : TcpConnection} (h : c.ShutdownInvariant)
    (hs : c.state_ = .kConnected) : .shutdownWrite ∉ c.log :=
  fun hmem => (h.closed hmem).1 hs

/-- A connection that waits for room has not been shut down. -/
theorem ShutdownInvariant.not_mem_of_isWriting {c : TcpConnection} (h : c.ShutdownInvariant)
    (hw : c.channel_.isWriting = true) : .shutdownWrite ∉ c.log := by
  intro hmem
  rw [(h.closed hmem).2.2] at hw
  exact Bool.false_ne_true hw

theorem ShutdownInvariant.send {c : TcpConnection} (h : c.ShutdownInvariant) (message : Bytes)
    {result : WriteResult}
    (hr : result.ret = none → result.errno ≠ EPIPE ∧ result.errno ≠ ECONNRESET) :
    (c.send message result).ShutdownInvariant := by
  unfold TcpConnection.send
  split_ifs with hs
  · have hne : (c.emit (.accepted message)).state_ ≠ .kDisconnected := by
      show c.state_ ≠ _
      rw [hs]
      decide
    obtain ⟨h₁, h₂, h₃, h₄⟩ := sendInLoop_spec hne (h.interest hne) message hr
    have hmem : .shutdownWrite ∉ ((c.emit (.accepted message)).sendInLoop message result).log := by
      intro hmem
      have hmem' := mem_log_sendInLoop hmem
      exact h.not_mem_of_connected hs (by simpa [emit] using hmem')
    refine ⟨?_, fun _ => h₃, h₄ ▸ h.sound, fun hm => absurd hm hmem,
      closedInOrder_of_not_mem hmem⟩
    rw [h₁, h₂]
    have hw : written (c.emit (.accepted message)).log = written c.log := by
      simp [written, emit]
    have ha : accepted (c.emit (.accepted message)).log = accepted c.log ++ message := by
      simp [accepted, emit]
    rw [hw, ha, ← h.stream]
    rfl
  · exact h

/-- The write end is shut down only when nothing waits. -/
theorem ShutdownInvariant.shutdownInLoop {c : TcpConnection} (h : c.ShutdownInvariant)
    (hs : c.state_ = .kDisconnecting) : c.shutdownInLoop.ShutdownInvariant := by
  unfold TcpConnection.shutdownInLoop
  split_ifs with hw
  · have hw : c.channel_.isWriting = false := by simpa using hw
    have hnil : c.outputBuffer_ = [] := by
      by_contra hne
      have hwriting := (h.interest (by simp [hs])).mpr hne
      simp [hw] at hwriting
    have hwritten : written c.log = accepted c.log := by
      have hstream := h.stream
      rwa [hnil, List.append_nil] at hstream
    refine ⟨?_, h.interest, h.sound, fun _ => ⟨by simp [emit, hs], hnil, hw⟩,
      h.inOrder.append (.inr rfl) fun _ => hwritten⟩
    simpa [emit, written, accepted] using h.stream
  · exact h

theorem ShutdownInvariant.shutdown {c : TcpConnection} (h : c.ShutdownInvariant) :
    c.shutdown.ShutdownInvariant := by
  unfold TcpConnection.shutdown
  split_ifs with hs
  · have hmem := h.not_mem_of_connected hs
    refine ShutdownInvariant.shutdownInLoop ⟨h.stream, fun _ => h.interest (by simp [hs]), h.sound,
      fun hm => absurd hm hmem, h.inOrder⟩ rfl
  · exact h

/-- **The parts of the handlers keep the invariant.** -/
theorem keeps_shutdownInvariant : Keeps Call.Sound ShutdownInvariant where
  congr := by
    intro c c' h hlog hstate hchannel houtput hcallbacks
    refine ⟨?_, ?_, ?_, ?_, ?_⟩
    · rw [hlog, houtput, h.stream]
    · rw [hstate, hchannel, houtput]
      exact h.interest
    · unfold Supply.Sound
      rw [hcallbacks]
      exact h.sound
    · rw [hlog, hstate, houtput, hchannel]
      exact h.closed
    · rw [hlog]
      exact h.inOrder
  emit := by
    intro c e h he
    refine ⟨?_, h.interest, h.sound, ?_, h.inOrder.append (.inl he) ?_⟩
    · show written (c.log ++ [e]) ++ c.outputBuffer_ = accepted (c.log ++ [e])
      rw [accepted_append_of_neutral he, written_append_of_neutral he, h.stream]
    · intro hmem
      exact h.closed ((mem_append_iff_of_neutral he c.log).mp hmem)
    · rintro rfl
      exact he.elim
  call := by
    intro c k h hk
    cases k with
    | send message result => exact h.send message hk
    | shutdown => exact h.shutdown
    | consume len => exact ⟨h.stream, h.interest, h.sound, h.closed, h.inOrder⟩
  disconnect := by
    intro c h
    refine ⟨h.stream, fun hs => absurd rfl hs, h.sound, fun hmem => ?_, h.inOrder⟩
    exact ⟨by simp, (h.closed hmem).2⟩
  pop := by
    intro c calls rest h hcallbacks
    have hsound := h.sound
    unfold Supply.Sound at hsound
    rw [hcallbacks] at hsound
    refine ⟨⟨h.stream, h.interest, ?_, h.closed, h.inOrder⟩, hsound calls List.mem_cons_self⟩
    exact fun calls' hcalls' => hsound calls' (List.mem_cons_of_mem calls hcalls')

/-! ## The half-close is not forgotten -/

/-- **The invariant between steps**: a connection that is to be shut down has been shut down, or
waits for room. -/
def Graceful (c : TcpConnection) : Prop :=
  c.ShutdownInvariant ∧
    (c.state_ = .kDisconnecting → .shutdownWrite ∈ c.log ∨ c.channel_.isWriting = true)

/-- After `shutdownInLoop` the write end is shut down, or the channel waits for room. -/
theorem shutdownWrite_or_isWriting (c : TcpConnection) :
    .shutdownWrite ∈ c.shutdownInLoop.log ∨ c.shutdownInLoop.channel_.isWriting = true := by
  unfold shutdownInLoop
  split_ifs with hw
  · left
    simp [emit]
  · right
    simpa using hw

/-- **The parts of the handlers keep the invariant between steps.** -/
theorem keeps_graceful : Keeps Call.Sound Graceful where
  congr := by
    rintro c c' ⟨h, hpending⟩ hlog hstate hchannel houtput hcallbacks
    refine ⟨keeps_shutdownInvariant.congr h hlog hstate hchannel houtput hcallbacks, ?_⟩
    rw [hstate, hlog, hchannel]
    exact hpending
  emit := by
    rintro c e ⟨h, hpending⟩ he
    refine ⟨keeps_shutdownInvariant.emit h he, fun hs => ?_⟩
    exact (hpending hs).imp_left (mem_append_iff_of_neutral he c.log).mpr
  call := by
    rintro c k ⟨h, hpending⟩ hk
    refine ⟨keeps_shutdownInvariant.call h hk, fun hs => ?_⟩
    cases k with
    | send message result =>
      have hs' : c.state_ = .kDisconnecting := (c.accepted_send message result).1 ▸ hs
      have hsend : c.send message result = c := if_neg (by simp [hs'])
      rw [call, hsend]
      exact hpending hs'
    | shutdown =>
      unfold call TcpConnection.shutdown at hs ⊢
      dsimp only at hs ⊢
      split_ifs with hc
      · exact shutdownWrite_or_isWriting _
      · rw [if_neg hc] at hs
        exact hpending hs
    | consume len => exact hpending hs
  disconnect := by
    rintro c ⟨h, -⟩
    exact ⟨keeps_shutdownInvariant.disconnect h, nofun⟩
  pop := by
    rintro c calls rest ⟨h, hpending⟩ hcallbacks
    obtain ⟨h', hcalls⟩ := keeps_shutdownInvariant.pop h hcallbacks
    exact ⟨⟨h', hpending⟩, hcalls⟩

/-- When everything is written, the half-close that was asked for is made, also when it was asked
for by the code of the user between the last byte and the test of the state. -/
theorem graceful_drained {c : TcpConnection} (hs : written c.log ++ c.outputBuffer_ = accepted c.log)
    (hnil : c.outputBuffer_ = []) (hsound : c.supply.Sound) (hmem : .shutdownWrite ∉ c.log) :
    c.drained.Graceful := by
  have h : ShutdownInvariant { c with channel_ := c.channel_.disableWrite } :=
    ⟨hs, fun _ => by simp [hnil], hsound, fun hm => absurd hm hmem, closedInOrder_of_not_mem hmem⟩
  have h' := keeps_shutdownInvariant.writeCompleteCallback h
  unfold drained
  dsimp only
  split_ifs with hstate
  · exact ⟨h'.shutdownInLoop hstate, fun _ => shutdownWrite_or_isWriting _⟩
  · exact ⟨h', fun hs => absurd hs hstate⟩

/-- A `write` that fails leaves the channel waiting for room, or closes the connection. -/
theorem graceful_writeFailed {c : TcpConnection} (h : c.ShutdownInvariant)
    (hw : c.channel_.isWriting = true) (hne : c.outputBuffer_ ≠ []) (savedError : ℕ) :
    (c.writeFailed savedError).Graceful := by
  have hmem := h.not_mem_of_isWriting hw
  unfold writeFailed
  split_ifs
  · exact ⟨h, fun _ => .inr hw⟩
  · have hre : c.channel_.disableWrite.enableWrite.isWriting = true := by simp
    refine ⟨⟨h.stream, fun _ => by simp [hne], h.sound, fun hm => absurd hm hmem, h.inOrder⟩, ?_⟩
    exact fun _ => .inr hre
  · exact keeps_graceful.handleError ⟨h, fun _ => .inr hw⟩

/-- The loop of `handleWrite`, while the channel waits for room. By induction on the results of
`write`. -/
theorem graceful_writeLoop (writes : List WriteResult) {c : TcpConnection}
    (hs : written c.log ++ c.outputBuffer_ = accepted c.log) (hw : c.channel_.isWriting = true)
    (hsound : c.supply.Sound) (hmem : .shutdownWrite ∉ c.log) : (writeLoop writes c).Graceful := by
  induction writes generalizing c with
  | nil =>
    unfold writeLoop
    split_ifs with hnil
    · exact graceful_drained hs hnil hsound hmem
    · exact graceful_writeFailed ⟨hs, fun _ => by simp [hw, hnil], hsound,
        fun hm => absurd hm hmem, closedInOrder_of_not_mem hmem⟩ hw hnil EAGAIN
  | cons r writes ih =>
    have hmem' : .shutdownWrite ∉ (c.emit (.write r)).log := by simpa [emit] using hmem
    have hstream : written (c.emit (.write r)).log ++ c.outputBuffer_ =
        accepted (c.emit (.write r)).log := by
      simpa [emit, written, accepted] using hs
    unfold writeLoop
    split_ifs with hnil
    · exact graceful_drained hs hnil hsound hmem
    · have he : (c.emit (.write r)).ShutdownInvariant :=
        ⟨hstream, fun _ => by simp [emit, hw, hnil], hsound, fun hm => absurd hm hmem',
          closedInOrder_of_not_mem hmem'⟩
      obtain ⟨_ | _ | n, errno⟩ := r
      · exact graceful_writeFailed he hw hnil errno
      · exact graceful_writeFailed he hw hnil errno
      · refine ih ?_ hw hsound (by simpa [emit] using hmem)
        simp only [emit, written, accepted, List.flatMap_append, List.flatMap_cons,
          List.flatMap_nil, List.append_nil] at hstream ⊢
        rw [List.append_assoc, List.take_append_drop]
        exact hstream

/-- `handleWrite` keeps the invariant between steps. -/
theorem graceful_handleWrite {c : TcpConnection} (h : c.Graceful) : c.handleWrite.Graceful := by
  unfold handleWrite
  split_ifs with hw
  · exact graceful_writeLoop _ h.1.stream hw h.1.sound (h.1.not_mem_of_isWriting hw)
  · exact h

/-! ## Runs -/

/-- What the loop thread does with a connection: an event, a call, a queued callback, or
`connectionDestroyed`, which the owner of the connection queues. -/
inductive LoopStep where
  | input (i : Input × Supply)
  | connectionDestroyed
  deriving DecidableEq, Repr

/-- Every message is sent with a `write` that does not fail with `EPIPE` or `ECONNRESET`. -/
def LoopStep.Sound : LoopStep → Prop
  | .input i => Input.Sound i
  | .connectionDestroyed => True

/-- One step of the loop thread. -/
def loopStep (c : TcpConnection) : LoopStep → TcpConnection
  | .input i => c.step i
  | .connectionDestroyed => c.connectionDestroyed

/-- A run of the loop thread. -/
def loopRun (c : TcpConnection) (steps : List LoopStep) : TcpConnection := steps.foldl loopStep c

/-- A channel without events is not interested in writing. -/
theorem isWriting_disableAll_remove (ch : Channel) : ch.disableAll.remove.isWriting = false := by
  show has ch.disableAll.events_ Channel.kWriteEvent = false
  unfold Channel.disableAll
  rw [Channel.events_update]
  show has Channel.kNoneEvent Channel.kWriteEvent = false
  decide

/-- **One step keeps the invariant.** -/
theorem graceful_loopStep {c : TcpConnection} (h : c.Graceful) {s : LoopStep} (hs : s.Sound) :
    (c.loopStep s).Graceful := by
  cases s with
  | input i =>
    refine keeps_graceful.step graceful_handleWrite (i := i) ?_ hs.1
    exact ⟨⟨h.1.stream, h.1.interest, hs.2, h.1.closed, h.1.inOrder⟩, h.2⟩
  | connectionDestroyed =>
    refine ⟨⟨h.1.stream, fun hs => absurd rfl hs, h.1.sound, fun hmem => ?_, h.1.inOrder⟩, nofun⟩
    exact ⟨by simp [loopStep, connectionDestroyed], (h.1.closed hmem).2.1,
      isWriting_disableAll_remove _⟩

/-- **A run keeps the invariant.** By induction on the run. -/
theorem graceful_loopRun {c : TcpConnection} (h : c.Graceful) {steps : List LoopStep}
    (hsteps : ∀ s ∈ steps, s.Sound) : (c.loopRun steps).Graceful := by
  induction steps generalizing c with
  | nil => exact h
  | cons s steps ih =>
    exact ih (graceful_loopStep h (hsteps s List.mem_cons_self))
      fun s' hs' => hsteps s' (List.mem_cons_of_mem s hs')

/-- **Graceful shutdown on the loop thread.** Along every run, with `write` results other than
`EPIPE` and `ECONNRESET` in `sendInLoop`: when the write end is shut down every byte accepted has
been written, and nothing is accepted or written afterwards; once it is shut down the output
buffer is empty, and has been since, as nothing was accepted or written; and a connection in the
state `kDisconnecting` has been shut down or waits for room to write. -/
theorem graceful_shutdown (sockfd : ℕ) (connection message writeComplete close : Bool)
    (supply : Supply) (hsupply : supply.Sound) (steps : List LoopStep)
    (hsteps : ∀ s ∈ steps, s.Sound) :
    let c := (new sockfd connection message writeComplete close
      supply).connectionEstablished.loopRun steps
    (∀ before after, c.log = before ++ .shutdownWrite :: after →
      written before = accepted before ∧ ∀ e ∈ after, e.Neutral ∨ e = .shutdownWrite) ∧
    (.shutdownWrite ∈ c.log → c.outputBuffer_ = []) ∧
    (c.state_ = .kDisconnecting → .shutdownWrite ∈ c.log ∨ c.channel_.isWriting = true) := by
  have h₀ : (new sockfd connection message writeComplete close
      supply).connectionEstablished.Graceful := by
    refine keeps_graceful.connectionCallback ⟨⟨rfl, fun _ => ?_, hsupply, nofun, ?_⟩, nofun⟩
    · rw [Channel.isWriting_enableRead]
      have hw : Channel.isWriting { fd_ := sockfd } = false :=
        show has 0 Channel.kWriteEvent = false by decide
      simp [new, hw]
    · exact closedInOrder_of_not_mem nofun
  have h := graceful_loopRun h₀ hsteps
  exact ⟨h.1.inOrder, fun hmem => (h.1.closed hmem).2.1, h.2⟩

/-- A message written in part, a call of `shutdown` while the rest waits, and an event that finds
room for it. -/
theorem graceful_shutdown_partial :
    let c := (new 5 true true true true {}).connectionEstablished.loopRun
      [.input (.call (.send [1, 2, 3] ⟨some 1, 0⟩), {}), .input (.call .shutdown, {}),
        .input (.event EPOLLOUT, { writes := [⟨some 2, 0⟩] })]
    .shutdownWrite ∈ c.log ∧ c.outputBuffer_ = [] ∧ written c.log = [1, 2, 3] ∧
      ClosedInOrder c.log := by
  have hsupply : ∀ s : Supply, s.callbacks = [] → s.Sound := by
    intro s hs calls hc
    rw [hs] at hc
    cases hc
  have h := graceful_shutdown 5 true true true true {} (hsupply _ rfl)
    [.input (.call (.send [1, 2, 3] ⟨some 1, 0⟩), {}), .input (.call .shutdown, {}),
      .input (.event EPOLLOUT, { writes := [⟨some 2, 0⟩] })] (by
    intro s hs
    simp only [List.mem_cons, List.not_mem_nil, or_false] at hs
    rcases hs with rfl | rfl | rfl
    · refine ⟨fun k hk => ?_, hsupply _ rfl⟩
      cases hk
      exact nofun
    · refine ⟨fun k hk => ?_, hsupply _ rfl⟩
      cases hk
      exact trivial
    · refine ⟨fun k hk => ?_, hsupply _ rfl⟩
      cases hk)
  have hmem : Event.shutdownWrite ∈ ((new 5 true true true true {}).connectionEstablished.loopRun
      [.input (.call (.send [1, 2, 3] ⟨some 1, 0⟩), {}), .input (.call .shutdown, {}),
        .input (.event EPOLLOUT, { writes := [⟨some 2, 0⟩] })]).log := by
    decide
  exact ⟨hmem, h.2.1 hmem, by decide, h.1⟩

end TcpConnection

end LouisNet.Net
