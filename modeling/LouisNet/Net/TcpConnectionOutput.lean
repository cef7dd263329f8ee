import LouisNet.Net.TcpConnectionRules

set_option relaxedAutoImplicit false
set_option autoImplicit false

/-!
# The output stream of a connection

What a connection has written to its socket, followed by what waits in its output buffer, is
what it has accepted, in the order of the calls; and the channel is interested in writing
exactly while something waits. A message is written directly only when nothing waits, so no
byte overtakes another one. The invariant is shown for the parts of the handlers and for
`handleWrite`, with the code of the user running inside the callbacks, and then along a run.

The one way to lose bytes is excluded by hypothesis: a direct `write` that fails with `EPIPE` or
`ECONNRESET` drops its message.

## Main definitions

* `LouisNet.Net.accepted`, `LouisNet.Net.written` — the bytes accepted and written so far.
* `LouisNet.Net.TcpConnection.OutputInvariant` — the invariant between steps.
* `LouisNet.Net.TcpConnection.Input.Sound` — inputs without the excluded failures.

## Main results

* `LouisNet.Net.TcpConnection.sendInLoop_spec` — what sending does to the stream.
* `LouisNet.Net.TcpConnection.step_outputInvariant` — one step of the loop thread.
* `LouisNet.Net.TcpConnection.accepted_send`, `LouisNet.Net.TcpConnection.accepted_shutdown` —
  what a call accepts, whatever `write` returns.
-/

namespace LouisNet.Net

open Lib Reactor

/-! ## The bytes of a log -/

/-- The bytes of the messages accepted, in the order of the calls. -/
def accepted (log : List Event) : Bytes :=
  log.flatMap fun
    | .accepted message => message
    | _ => []

/-- The bytes written to the socket. -/
def written (log : List Event) : Bytes :=
  log.flatMap fun
    | .wrote bytes => bytes
    | _ => []

/-- A `write` outside `handleWrite` does not fail with `EPIPE` or `ECONNRESET`. -/
def Call.Sound : Call → Prop
  | .send _ result => result.ret = none → result.errno ≠ EPIPE ∧ result.errno ≠ ECONNRESET
  | _ => True

/-- The code of the user makes sound calls. -/
def Supply.Sound (s : Supply) : Prop := ∀ calls ∈ s.callbacks, ∀ k ∈ calls, k.Sound

namespace TcpConnection

/-- The input is supplied with sound calls. -/
def Input.Sound (i : Input × Supply) : Prop := (∀ k, i.1 = .call k → k.Sound) ∧ i.2.Sound

/-- **The invariant between steps**: the stream is complete and in order, the channel waits for
room exactly while bytes wait, and the calls to come are sound. -/
structure OutputInvariant (c : TcpConnection) : Prop where
  stream : written c.log ++ c.outputBuffer_ = accepted c.log
  interest : c.channel_.isWriting = true ↔ c.outputBuffer_ ≠ []
  sound : c.supply.Sound

/-! ## Sending -/

/-- An event that neither accepts nor writes does not change the stream. -/
theorem OutputInvariant.emit {c : TcpConnection} (h : c.OutputInvariant) {e : Event}
    (ha : accepted [e] = []) (hw : written [e] = []) : (c.emit e).OutputInvariant := by
  refine ⟨?_, h.interest, h.sound⟩
  have ha' : accepted (c.log ++ [e]) = accepted c.log := by
    rw [accepted, List.flatMap_append]
    exact (congrArg _ ha).trans (List.append_nil _)
  have hw' : written (c.log ++ [e]) = written c.log := by
    rw [written, List.flatMap_append]
    exact (congrArg _ hw).trans (List.append_nil _)
  show written (c.log ++ [e]) ++ c.outputBuffer_ = accepted (c.log ++ [e])
  rw [ha', hw', h.stream]

/-- The direct write: what it has written comes first, and it reports no error. -/
theorem writeDirect_spec (c : TcpConnection) (data : Bytes) {result : WriteResult}
    (hr : result.ret = none → result.errno ≠ EPIPE ∧ result.errno ≠ ECONNRESET) :
    ∃ c' n, c.writeDirect data result = (c', n, 0) ∧
      written c'.log = written c.log ++ data.take n ∧ accepted c'.log = accepted c.log ∧
      c'.outputBuffer_ = c.outputBuffer_ ∧ c'.channel_ = c.channel_ ∧ c'.supply = c.supply := by
  unfold writeDirect
  cases hret : result.ret with
  | none =>
    obtain ⟨h₁, h₂⟩ := hr hret
    refine ⟨c, 0, ?_, by simp, rfl, rfl, rfl, rfl⟩
    dsimp only
    rw [if_neg (not_or.mpr ⟨h₁, h₂⟩), ite_self]
  | some n =>
    dsimp only
    split_ifs
    · refine ⟨_, _, rfl, ?_, ?_, rfl, rfl, rfl⟩
      · simp [written, TcpConnection.emit]
      · simp [accepted, TcpConnection.emit]
    · refine ⟨_, _, rfl, ?_, ?_, rfl, rfl, rfl⟩
      · simp [written, TcpConnection.emit]
      · simp [accepted, TcpConnection.emit]

/-- **Sending puts a message behind everything that waits**: it is written and buffered in this
order, and what is buffered makes the channel wait for room.

**Proof sketch.** If the channel waits for room, the message goes to the buffer as a whole.
Otherwise the buffer is empty, a part of the message is written, and the rest is all the buffer
holds. -/
theorem sendInLoop_spec {c : TcpConnection} (hstate : c.state_ ≠ .kDisconnected)
    (hint : c.channel_.isWriting = true ↔ c.outputBuffer_ ≠ []) (data : Bytes)
    {result : WriteResult}
    (hr : result.ret = none → result.errno ≠ EPIPE ∧ result.errno ≠ ECONNRESET) :
    let c' := c.sendInLoop data result
    written c'.log ++ c'.outputBuffer_ = written c.log ++ c.outputBuffer_ ++ data ∧
      accepted c'.log = accepted c.log ∧
      (c'.channel_.isWriting = true ↔ c'.outputBuffer_ ≠ []) ∧ c'.supply = c.supply := by
  unfold sendInLoop
  rw [if_neg hstate]
  by_cases hw : c.channel_.isWriting = true
  · -- the message goes to the buffer
    have hne := hint.mp hw
    rw [if_neg (by simp [hw])]
    dsimp only
    split_ifs with h₁ h₂
    · simp [hw] at h₂
    · simp [hw, hne]
    · have hnil : data = [] := List.length_eq_zero_iff.mp (by
        simp only [true_and, Nat.sub_zero, not_lt, Nat.le_zero] at h₁
        exact h₁)
      simp [hnil, hw, hne]
  · -- a part of the message is written
    have hnil : c.outputBuffer_ = [] := by
      by_contra hne
      exact hw (hint.mpr hne)
    rw [if_pos ⟨by simpa using hw, hnil⟩]
    obtain ⟨c', n, hdirect, hwritten, hacc, hbuf, hchan, hsup⟩ := c.writeDirect_spec data hr
    rw [hdirect]
    dsimp only
    have hw' : c'.channel_.isWriting = false := by
      rw [hchan]
      simpa using hw
    have htake := List.take_append_drop n data
    split_ifs with h₁ h₂
    · have hdrop : data.drop n ≠ [] := by
        intro h
        have := List.drop_eq_nil_iff.mp h
        omega
      simp [hwritten, hacc, hbuf, hnil, hdrop, hsup]
    · simp [hw'] at h₂
    · have hdrop : data.drop n = [] := by
        apply List.drop_eq_nil_iff.mpr
        simp only [true_and, not_lt] at h₁
        omega
      rw [hdrop, List.append_nil] at htake
      simp [hwritten, hacc, hbuf, hnil, htake, hw', hsup]

theorem OutputInvariant.send {c : TcpConnection} (h : c.OutputInvariant) (message : Bytes)
    {result : WriteResult}
    (hr : result.ret = none → result.errno ≠ EPIPE ∧ result.errno ≠ ECONNRESET) :
    (c.send message result).OutputInvariant := by
  unfold TcpConnection.send
  split_ifs with hs
  · have hne : (c.emit (.accepted message)).state_ ≠ .kDisconnected := by
      show c.state_ ≠ _
      rw [hs]
      decide
    obtain ⟨h₁, h₂, h₃, h₄⟩ := sendInLoop_spec hne h.interest message hr
    refine ⟨?_, h₃, h₄ ▸ h.sound⟩
    rw [h₁, h₂]
    have hw : written (c.emit (.accepted message)).log = written c.log := by
      simp [written, TcpConnection.emit]
    have ha : accepted (c.emit (.accepted message)).log = accepted c.log ++ message := by
      simp [accepted, TcpConnection.emit]
    rw [hw, ha, ← h.stream]
    rfl
  · exact h

theorem OutputInvariant.shutdownInLoop {c : TcpConnection} (h : c.OutputInvariant) :
    c.shutdownInLoop.OutputInvariant := by
  unfold TcpConnection.shutdownInLoop
  split_ifs
  · exact h.emit rfl rfl
  · exact h

/-- Other fields do not matter. -/
theorem OutputInvariant.congr {c c' : TcpConnection} (h : c.OutputInvariant)
    (h₁ : c'.log = c.log) (h₂ : c'.outputBuffer_ = c.outputBuffer_)
    (h₃ : c'.channel_.isWriting = c.channel_.isWriting) (h₄ : c'.supply.Sound) :
    c'.OutputInvariant :=
  ⟨by rw [h₁, h₂, h.stream], by rw [h₂, h₃, h.interest], h₄⟩

theorem OutputInvariant.call {c : TcpConnection} (h : c.OutputInvariant) {k : Call}
    (hk : k.Sound) : (c.call k).OutputInvariant := by
  cases k with
  | send message result => exact h.send message hk
  | shutdown =>
    unfold TcpConnection.call TcpConnection.shutdown
    dsimp only
    split_ifs
    · exact (h.congr rfl rfl rfl h.sound : OutputInvariant { c with
        state_ := .kDisconnecting }).shutdownInLoop
    · exact h
  | consume len => exact h.congr rfl rfl rfl h.sound

/-! ## The handlers -/

/-- **The parts of the handlers keep the invariant**, so reading and closing do, apart from what the
code of the user does. -/
theorem keeps_outputInvariant : Keeps Call.Sound OutputInvariant where
  congr := by
    intro c c' h hlog _ hchannel houtput hcallbacks
    refine h.congr hlog houtput (by rw [hchannel]) ?_
    unfold Supply.Sound
    rw [hcallbacks]
    exact h.sound
  emit := by
    intro c e h he
    refine h.emit ?_ ?_
    · cases e <;> first | rfl | exact he.elim
    · cases e <;> first | rfl | exact he.elim
  call := fun h hk => h.call hk
  disconnect := fun h => h.congr rfl rfl rfl h.sound
  pop := by
    intro c calls rest h hcallbacks
    have hsound := h.sound
    unfold Supply.Sound at hsound
    rw [hcallbacks] at hsound
    refine ⟨h.congr rfl rfl rfl ?_, hsound calls List.mem_cons_self⟩
    exact fun calls' hcalls' => hsound calls' (List.mem_cons_of_mem calls hcalls')

/-- When everything is written the channel stops waiting, before the code of the user runs. -/
theorem OutputInvariant.drained {c : TcpConnection}
    (hs : written c.log ++ c.outputBuffer_ = accepted c.log) (hnil : c.outputBuffer_ = [])
    (hsound : c.supply.Sound) : c.drained.OutputInvariant := by
  have h : OutputInvariant { c with channel_ := c.channel_.disableWrite } :=
    ⟨hs, by simp [hnil], hsound⟩
  have h' := keeps_outputInvariant.writeCompleteCallback h
  unfold TcpConnection.drained
  dsimp only
  split_ifs
  · exact h'.shutdownInLoop
  · exact h'

theorem OutputInvariant.writeFailed {c : TcpConnection} (h : c.OutputInvariant)
    (hne : c.outputBuffer_ ≠ []) (savedError : ℕ) : (c.writeFailed savedError).OutputInvariant := by
  unfold TcpConnection.writeFailed
  split_ifs
  · exact h
  · exact ⟨h.stream, by simp [hne], h.sound⟩
  · exact keeps_outputInvariant.handleError h

/-- The loop of `handleWrite`: while the channel waits for room, what is written leaves the
buffer at its front. By induction on the results of `write`. -/
theorem OutputInvariant.writeLoop (writes : List WriteResult) :
    ∀ {c : TcpConnection}, written c.log ++ c.outputBuffer_ = accepted c.log →
      c.channel_.isWriting = true → c.supply.Sound → (writeLoop writes c).OutputInvariant := by
  induction writes with
  | nil =>
    intro c hs hw hsound
    unfold TcpConnection.writeLoop
    split_ifs with hnil
    · exact drained hs hnil hsound
    · exact writeFailed ⟨hs, by simp [hw, hnil], hsound⟩ hnil EAGAIN
  | cons r writes ih =>
    intro c hs hw hsound
    unfold TcpConnection.writeLoop
    split_ifs with hnil
    · exact drained hs hnil hsound
    · have he : (c.emit (.write r)).OutputInvariant :=
        emit ⟨hs, by simp [hw, hnil], hsound⟩ rfl rfl
      obtain ⟨_ | _ | n, errno⟩ := r
      · exact he.writeFailed hnil errno
      · exact he.writeFailed hnil errno
      · refine ih ?_ hw hsound
        have hstream := he.stream
        simp only [TcpConnection.emit, written, accepted, List.flatMap_append, List.flatMap_cons,
          List.flatMap_nil, List.append_nil] at hstream ⊢
        rw [List.append_assoc, List.take_append_drop]
        exact hstream

theorem OutputInvariant.handleWrite {c : TcpConnection} (h : c.OutputInvariant) :
    c.handleWrite.OutputInvariant := by
  unfold TcpConnection.handleWrite
  split_ifs with hw
  · exact writeLoop _ h.stream hw h.sound
  · exact h

/-! ## Runs -/

/-- **One step keeps the invariant.** -/
theorem step_outputInvariant {c : TcpConnection} (h : c.OutputInvariant) {i : Input × Supply}
    (hi : Input.Sound i) : (c.step i).OutputInvariant := by
  have h' : OutputInvariant { c with supply := i.2 } := h.congr rfl rfl rfl hi.2
  exact keeps_outputInvariant.step OutputInvariant.handleWrite h' hi.1

/-- **A run keeps the invariant.** By induction on the run. -/
theorem run_outputInvariant (inputs : List (Input × Supply)) :
    ∀ {c : TcpConnection}, c.OutputInvariant → (∀ i ∈ inputs, Input.Sound i) →
      (c.run inputs).OutputInvariant := by
  induction inputs with
  | nil => exact fun h _ => h
  | cons i inputs ih =>
    intro c h hi
    exact ih (step_outputInvariant h (hi i List.mem_cons_self)) fun j hj =>
      hi j (List.mem_cons_of_mem i hj)

/-- **The output stream is complete and in order.** Along every run on the loop thread, with
any partial writes and any errors other than `EPIPE` and `ECONNRESET` in `sendInLoop`, the bytes
written followed by the bytes that wait are the bytes accepted, and the channel is interested
in writing exactly while bytes wait. -/
theorem written_append_output_eq_accepted (sockfd : ℕ)
    (connection message writeComplete close : Bool) (supply : Supply) (hsupply : supply.Sound)
    (inputs : List (Input × Supply)) (hinputs : ∀ i ∈ inputs, Input.Sound i) :
    let c := (new sockfd connection message writeComplete close
      supply).connectionEstablished.run inputs
    written c.log ++ c.outputBuffer_ = accepted c.log ∧
      (c.channel_.isWriting = true ↔ c.outputBuffer_ ≠ []) := by
  have h₀ : (new sockfd connection message writeComplete close
      supply).connectionEstablished.OutputInvariant := by
    refine keeps_outputInvariant.connectionCallback ⟨rfl, ?_, hsupply⟩
    rw [Channel.isWriting_enableRead]
    have hw : Channel.isWriting { fd_ := sockfd } = false :=
      show has 0 Channel.kWriteEvent = false by decide
    simp [new, hw]
  have h := run_outputInvariant inputs h₀ hinputs
  exact ⟨h.stream, h.interest⟩

/-- A message written in part, one that waits behind it, and an event that finds room for some
of the bytes. -/
theorem written_append_output_eq_accepted_partial :
    let c := (new 5 true true true true {}).connectionEstablished.run
      [(.call (.send [1, 2, 3] ⟨some 1, 0⟩), {}), (.call (.send [4] ⟨some 1, 0⟩), {}),
        (.event EPOLLOUT, { writes := [⟨some 2, 0⟩, ⟨none, EAGAIN⟩] })]
    written c.log = [1, 2, 3] ∧ c.outputBuffer_ = [4] ∧
      written c.log ++ c.outputBuffer_ = accepted c.log := by
  have hsupply : ∀ s : Supply, s.callbacks = [] → s.Sound := by
    intro s hs calls hc
    rw [hs] at hc
    cases hc
  refine ⟨by decide, by decide, ?_⟩
  refine (written_append_output_eq_accepted 5 true true true true {} (hsupply _ rfl) _ ?_).1
  intro i hi
  simp only [List.mem_cons, List.not_mem_nil, or_false] at hi
  rcases hi with rfl | rfl | rfl
  · refine ⟨fun k hk => ?_, hsupply _ rfl⟩
    cases hk
    exact fun h => by cases h
  · refine ⟨fun k hk => ?_, hsupply _ rfl⟩
    cases hk
    exact fun h => by cases h
  · refine ⟨fun k hk => ?_, hsupply _ rfl⟩
    cases hk

/-! ## What a call accepts -/

/-- The direct write keeps the state and accepts nothing. -/
theorem accepted_writeDirect (c : TcpConnection) (data : Bytes) (result : WriteResult) :
    (c.writeDirect data result).1.state_ = c.state_ ∧
      accepted (c.writeDirect data result).1.log = accepted c.log := by
  have hwrote : ∀ bytes, accepted (c.emit (.wrote bytes)).log = accepted c.log := by
    intro bytes
    simp [accepted, TcpConnection.emit]
  unfold writeDirect
  split
  · dsimp only
    split_ifs
    · exact ⟨rfl, hwrote _⟩
    · exact ⟨rfl, hwrote _⟩
  · split_ifs <;> exact ⟨rfl, rfl⟩

/-- `sendInLoop` keeps the state and accepts nothing. -/
theorem accepted_sendInLoop (c : TcpConnection) (data : Bytes) (result : WriteResult) :
    (c.sendInLoop data result).state_ = c.state_ ∧
      accepted (c.sendInLoop data result).log = accepted c.log := by
  have hdirect : (if !c.channel_.isWriting ∧ c.outputBuffer_ = [] then c.writeDirect data result
        else (c, 0, 0)).1.state_ = c.state_ ∧
      accepted (if !c.channel_.isWriting ∧ c.outputBuffer_ = [] then c.writeDirect data result
        else (c, 0, 0)).1.log = accepted c.log := by
    split_ifs
    · exact c.accepted_writeDirect data result
    · exact ⟨rfl, rfl⟩
  unfold sendInLoop
  by_cases hs : c.state_ = .kDisconnected
  · rw [if_pos hs]
    exact ⟨rfl, rfl⟩
  · rw [if_neg hs]
    generalize (if !c.channel_.isWriting ∧ c.outputBuffer_ = [] then
      c.writeDirect data result else (c, 0, 0)) = p at hdirect ⊢
    dsimp only
    split_ifs <;> exact hdirect

/-- `send` takes a message in the state `kConnected`, and keeps the state. -/
theorem accepted_send (c : TcpConnection) (message : Bytes) (result : WriteResult) :
    (c.send message result).state_ = c.state_ ∧
      accepted (c.send message result).log =
        accepted c.log ++ if c.state_ = .kConnected then message else [] := by
  unfold send
  split_ifs with hs
  · obtain ⟨hstate, hacc⟩ := (c.emit (.accepted message)).accepted_sendInLoop message result
    refine ⟨hstate, hacc.trans ?_⟩
    simp [accepted, TcpConnection.emit]
  · exact ⟨rfl, (List.append_nil _).symm⟩

/-- `shutdown` leads from `kConnected` to `kDisconnecting`, and accepts nothing. -/
theorem accepted_shutdown (c : TcpConnection) :
    c.shutdown.state_ = (if c.state_ = .kConnected then .kDisconnecting else c.state_) ∧
      accepted c.shutdown.log = accepted c.log := by
  unfold shutdown shutdownInLoop
  split_ifs
  · exact ⟨rfl, by simp [accepted, TcpConnection.emit]⟩
  · exact ⟨rfl, rfl⟩
  · exact ⟨rfl, rfl⟩

end TcpConnection

end LouisNet.Net
