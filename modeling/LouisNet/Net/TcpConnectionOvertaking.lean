import LouisNet.Net.TcpConnectionShutdown
import LouisNet.Net.TcpConnectionThreads

set_option relaxedAutoImplicit false
set_option autoImplicit false

/-!
# Shutdown and accepted messages

A message that another thread sends is accepted when the state is tested, and reaches the output
when its functor runs. `shutdownInLoop` looks at the interest of the channel in writing and not at
the functors that wait, so the half-close can overtake an accepted message: when the loop thread
shuts down by itself, when a second thread pushes its functor first, when `handleWrite` drains the
output in the state `kDisconnecting`, and when the connection is closed in between, so that the
message is given up and the half-close is not. In every other interleaving the half-close comes
behind the messages accepted before `shutdown` was called.

## Main definitions

* `LouisNet.Net.Threads.Owed` — a message accepted before `shutdown` has not reached the output.
* `LouisNet.Net.Threads.Ordered` — the steps that do not let the half-close overtake.
* `LouisNet.Net.Threads.InOrder` — the invariant.

## Main results

* `LouisNet.Net.Threads.InOrder.step` — one step.
* `LouisNet.Net.Threads.messages_before_shutdownWrite` — runs.
-/

namespace LouisNet.Net

open Lib Reactor

/-- **Sending reaches the output**: unless the connection is closed, a message is written and
buffered as a whole, whatever the channel waits for. -/
theorem TcpConnection.stream_sendInLoop {c : TcpConnection} (hstate : c.state_ ≠ .kDisconnected)
    (data : Bytes) {result : WriteResult}
    (hr : result.ret = none → result.errno ≠ EPIPE ∧ result.errno ≠ ECONNRESET) :
    let c' := c.sendInLoop data result
    written c'.log ++ c'.outputBuffer_ = written c.log ++ c.outputBuffer_ ++ data := by
  unfold TcpConnection.sendInLoop
  rw [if_neg hstate]
  by_cases hdirect : (!c.channel_.isWriting) = true ∧ c.outputBuffer_ = []
  · rw [if_pos hdirect]
    obtain ⟨c', n, heq, hwritten, -, hbuf, -, -⟩ := c.writeDirect_spec data hr
    rw [heq]
    dsimp only
    have hnil := hdirect.2
    split_ifs with h₁ h₂
    · simp [hwritten, hbuf, hnil]
    · simp [hwritten, hbuf, hnil]
    · have hlength : data.length ≤ n := by
        simp only [true_and, not_lt] at h₁
        omega
      simp [hwritten, hbuf, hnil, List.take_of_length_le hlength]
  · rw [if_neg hdirect]
    dsimp only
    split_ifs with h₁ h₂
    · simp
    · simp
    · have hnil : data = [] := by
        simpa using h₁
      simp [hnil]

namespace Threads

variable {τ : Type*}

/-! ## The condition -/

/-- A message accepted before `shutdown` was called has not reached the output. -/
def Owed (s : Threads τ) : Prop := ∃ call, s.Points call ∧ call.beforeShutdown = true

/-- A call of `shutdown` on another thread has tested the state, and its functor has not run. -/
def InProgress (s : Threads τ) : Prop :=
  .shutdownInLoop ∈ s.tasks_ ∨ ∃ t, s.other t = .tested ∨ s.other t = .stored

/-- The step does not let the half-close overtake a message. -/
def Ordered (s : Threads τ) : Step τ → Prop
  | .call .shutdown =>
    s.conn.state_ = .kConnected → s.conn.channel_.isWriting = false → ¬ s.Owed
  | .drainEnd =>
    s.conn.state_ = .kDisconnecting → s.conn.channel_.isWriting = false → ¬ s.Owed
  | .pushShutdown _ => ∀ t call, s.other t = .sending call → call.beforeShutdown = false
  | .disconnect => s.Owed → ¬ s.InProgress
  | .connectionDestroyed => s.Owed → ¬ s.InProgress
  | _ => True

/-- The `write` of a functor does not fail with `EPIPE` or `ECONNRESET`. -/
def Step.Sound : Step τ → Prop
  | .runTask result _ => result.ret = none → result.errno ≠ EPIPE ∧ result.errno ≠ ECONNRESET
  | _ => True

/-! ## The invariant -/

/-- **The invariant**: behind the half-close no message is owed; behind a functor that shuts down
no functor sends a message accepted before it; and once the connection is closed with messages
owed, no half-close is on its way. -/
structure InOrder (s : Threads τ) : Prop where
  closed : .shutdownWrite ∈ s.conn.log → ¬ s.Owed ∧ s.dropped = false ∧ s.shutdownCalled = true
  called : s.InProgress ∨ s.conn.state_ = .kDisconnecting → s.shutdownCalled = true
  gone : s.conn.state_ = .kDisconnected → s.Owed → ¬ s.InProgress
  dropped : s.dropped = true → s.conn.state_ = .kDisconnected ∧ ¬ s.InProgress
  queue : ∀ before after, s.tasks_ = before ++ .shutdownInLoop :: after →
    (∀ call, .sendInLoop call ∈ after → call.beforeShutdown = false) ∧
      ∀ t call, s.other t = .sending call → call.beforeShutdown = false

/-- The connection changes, and nothing else does but `shutdownCalled`. -/
theorem InOrder.conn {s s' : Threads τ} (h : s.InOrder) (htasks : s'.tasks_ = s.tasks_)
    (hother : s'.other = s.other) (hdropped : s'.dropped = s.dropped)
    (hcalled : s.shutdownCalled = true → s'.shutdownCalled = true)
    (hlog : .shutdownWrite ∈ s'.conn.log → .shutdownWrite ∈ s.conn.log ∨
      ¬ s.Owed ∧ s.dropped = false ∧ s'.shutdownCalled = true)
    (hstate : s'.conn.state_ = s.conn.state_ ∨
      s'.conn.state_ = .kDisconnecting ∧ s.conn.state_ ≠ .kDisconnected ∧
        s'.shutdownCalled = true ∨
      s'.conn.state_ = .kDisconnected ∧ (s.Owed → ¬ s.InProgress)) : s'.InOrder := by
  have howed : s'.Owed ↔ s.Owed := by unfold Owed Points; rw [htasks, hother]
  have hprogress : s'.InProgress ↔ s.InProgress := by unfold InProgress; rw [htasks, hother]
  refine ⟨?_, ?_, ?_, ?_, ?_⟩
  · intro hmem
    rw [howed, hdropped]
    rcases hlog hmem with hold | hnew
    · obtain ⟨h₁, h₂, h₃⟩ := h.closed hold
      exact ⟨h₁, h₂, hcalled h₃⟩
    · exact hnew
  · rw [hprogress]
    rintro (hp | hs)
    · exact hcalled (h.called (.inl hp))
    · rcases hstate with heq | ⟨-, -, hc⟩ | ⟨hd, -⟩
      · exact hcalled (h.called (.inr (heq ▸ hs)))
      · exact hc
      · rw [hd] at hs
        cases hs
  · rw [howed, hprogress]
    intro hs
    rcases hstate with heq | ⟨hd, -, -⟩ | ⟨-, hd⟩
    · exact h.gone (heq ▸ hs)
    · rw [hd] at hs
      cases hs
    · exact hd
  · rw [hdropped, hprogress]
    intro hdrop
    obtain ⟨hs, hp⟩ := h.dropped hdrop
    refine ⟨?_, hp⟩
    rcases hstate with heq | ⟨-, hne, -⟩ | ⟨hd, -⟩
    · rw [heq, hs]
    · exact absurd hs hne
    · exact hd
  · rw [htasks, hother]
    exact h.queue

/-! ## Steps of the loop thread -/

/-- `shutdownInLoop` shuts down when the channel does not wait for room. -/
theorem mem_log_shutdownInLoop {c : TcpConnection} (h : .shutdownWrite ∈ c.shutdownInLoop.log) :
    .shutdownWrite ∈ c.log ∨ c.channel_.isWriting = false := by
  unfold TcpConnection.shutdownInLoop at h
  split_ifs at h with hw
  · right
    simpa using hw
  · exact .inl h

/-- `shutdownInLoop` does not change the state. -/
theorem state_shutdownInLoop (c : TcpConnection) : c.shutdownInLoop.state_ = c.state_ := by
  unfold TcpConnection.shutdownInLoop
  split_ifs <;> rfl

/-- A `write` of `handleWrite` neither shuts down nor changes the state. -/
theorem writeOutput_spec (c : TcpConnection) (result : WriteResult) :
    (writeOutput c result).state_ = c.state_ ∧
      (.shutdownWrite ∈ (writeOutput c result).log → .shutdownWrite ∈ c.log) := by
  unfold writeOutput
  dsimp only
  split
  · exact ⟨rfl, fun h => by simpa [TcpConnection.emit] using h⟩
  · exact ⟨rfl, fun h => by simpa [TcpConnection.emit] using h⟩

/-- The code of the user makes a call on the loop thread. -/
theorem InOrder.call {s : Threads τ} (h : s.InOrder) {k : Call} (hk : s.Ordered (.call k)) :
    ({ s with conn := s.conn.call k, shutdownCalled := s.shutdownCalled ||
      (k = .shutdown && s.conn.state_ = .kConnected) } : Threads τ).InOrder := by
  cases k with
  | send message result =>
    refine h.conn rfl rfl rfl (fun hc => by simp [hc]) (fun hmem => .inl ?_)
      (.inl (s.conn.accepted_send message result).1)
    simp only [TcpConnection.call, TcpConnection.send] at hmem
    split_ifs at hmem
    · simpa [TcpConnection.emit] using TcpConnection.mem_log_sendInLoop hmem
    · exact hmem
  | shutdown =>
    by_cases hs : s.conn.state_ = .kConnected
    · have hconn : s.conn.call .shutdown =
          TcpConnection.shutdownInLoop { s.conn with state_ := .kDisconnecting } := if_pos hs
      refine h.conn rfl rfl rfl (fun hc => by simp [hc]) (fun hmem => ?_) (.inr (.inl ?_))
      · rw [hconn] at hmem
        refine (mem_log_shutdownInLoop hmem).imp_right fun hw => ⟨hk hs hw, ?_, by simp [hs]⟩
        by_contra hd
        have hgone := (h.dropped (by simpa using hd)).1
        simp [hs] at hgone
      · refine ⟨?_, by simp [hs], by simp [hs]⟩
        rw [hconn, state_shutdownInLoop]
    · have hconn : s.conn.call .shutdown = s.conn := if_neg hs
      rw [hconn]
      exact h.conn rfl rfl rfl (fun hc => by simp [hc]) .inl (.inl rfl)
  | consume len => exact h.conn rfl rfl rfl (fun hc => by simp [hc]) .inl (.inl rfl)

/-- The end of `handleWrite`. -/
theorem InOrder.drainEnd {s : Threads τ} (h : s.InOrder) (hs : s.Ordered .drainEnd) :
    ({ s with
      conn := if s.conn.state_ = .kDisconnecting then s.conn.shutdownInLoop else s.conn
      draining := false } : Threads τ).InOrder := by
  split_ifs with hd
  · refine h.conn rfl rfl rfl id (fun hmem => ?_) (.inl (state_shutdownInLoop _))
    refine (mem_log_shutdownInLoop hmem).imp_right fun hw => ⟨hs hd hw, ?_, h.called (.inr hd)⟩
    by_contra hdropped
    have hgone := (h.dropped (by simpa using hdropped)).1
    simp [hd] at hgone
  · exact h.conn rfl rfl rfl id .inl (.inl rfl)

/-- The first functor has left the queue. -/
theorem InOrder.queue_tail {s : Threads τ} (h : s.InOrder) {f : Functor} {tasks : List Functor}
    (htasks : s.tasks_ = f :: tasks) : ∀ before after,
    tasks = before ++ .shutdownInLoop :: after →
    (∀ call, .sendInLoop call ∈ after → call.beforeShutdown = false) ∧
      ∀ t call, s.other t = .sending call → call.beforeShutdown = false := by
  rintro before after rfl
  exact h.queue (f :: before) after htasks

/-- A functor of a send runs: what it sends is owed no longer. -/
theorem InOrder.runSend {s : Threads τ} (h : s.InOrder) {call : SendCall} {tasks : List Functor}
    (htasks : s.tasks_ = .sendInLoop call :: tasks) {result : WriteResult} {garbage : Bytes}
    (hr : result.ret = none → result.errno ≠ EPIPE ∧ result.errno ≠ ECONNRESET) :
    (({ s with tasks_ := tasks } : Threads τ).runSend call result garbage).InOrder := by
  obtain ⟨s', hs'⟩ : ∃ s', s' = ({ s with tasks_ := tasks } : Threads τ).runSend call result
    garbage := ⟨_, rfl⟩
  rw [← hs']
  have htasks' : s'.tasks_ = tasks := by rw [hs']; rfl
  have hother : s'.other = s.other := by rw [hs']; rfl
  have hcalled : s'.shutdownCalled = s.shutdownCalled := by rw [hs']; rfl
  have hstate : s'.conn.state_ = s.conn.state_ := by
    rw [hs']
    exact (s.conn.accepted_sendInLoop _ result).1
  have hlog : .shutdownWrite ∈ s'.conn.log → .shutdownWrite ∈ s.conn.log := by
    rw [hs']
    exact TcpConnection.mem_log_sendInLoop
  have howed : s'.Owed → s.Owed := by
    rintro ⟨call', hpoints, hbefore⟩
    refine ⟨call', ?_, hbefore⟩
    unfold Points at hpoints ⊢
    rw [htasks', hother] at hpoints
    rw [htasks]
    exact hpoints.imp_left (List.mem_cons_of_mem _)
  have hprogress : s'.InProgress → s.InProgress := by
    unfold InProgress
    rw [htasks', hother, htasks]
    exact Or.imp_left (List.mem_cons_of_mem _)
  -- a message is dropped only if it was owed, and the connection is closed
  have hdropped : s'.dropped = true →
      s.dropped = true ∨ s.Owed ∧ s.conn.state_ = .kDisconnected := by
    intro hd
    rw [hs'] at hd
    simp only [Threads.runSend, Bool.or_eq_true, Bool.and_eq_true, bne_iff_ne, ne_eq] at hd
    rcases hd with hd | ⟨hbefore, hne⟩
    · exact .inl hd
    · right
      refine ⟨⟨call, .inl (htasks ▸ List.mem_cons_self), hbefore⟩, ?_⟩
      by_contra hs
      exact hne (TcpConnection.stream_sendInLoop hs _ hr)
  refine ⟨?_, ?_, ?_, ?_, ?_⟩
  · intro hmem
    obtain ⟨h₁, h₂, h₃⟩ := h.closed (hlog hmem)
    refine ⟨fun ho => h₁ (howed ho), ?_, hcalled.trans h₃⟩
    by_contra hd
    rcases hdropped (by simpa using hd) with hold | ⟨ho, -⟩
    · simp [h₂] at hold
    · exact h₁ ho
  · rw [hcalled, hstate]
    exact fun hc => h.called (hc.imp_left hprogress)
  · intro hs ho hp
    exact h.gone (hstate ▸ hs) (howed ho) (hprogress hp)
  · intro hd
    rw [hstate]
    rcases hdropped hd with hold | ⟨ho, hs⟩
    · obtain ⟨h₁, h₂⟩ := h.dropped hold
      exact ⟨h₁, fun hp => h₂ (hprogress hp)⟩
    · exact ⟨hs, fun hp => h.gone hs ho (hprogress hp)⟩
  · rw [htasks', hother]
    exact h.queue_tail htasks

/-- A functor that shuts down runs: nothing is owed any longer. -/
theorem InOrder.runShutdown {s : Threads τ} (h : s.InOrder) {tasks : List Functor}
    (htasks : s.tasks_ = .shutdownInLoop :: tasks) :
    ({ s with tasks_ := tasks, conn := s.conn.shutdownInLoop } : Threads τ).InOrder := by
  obtain ⟨hafter, hsending⟩ := h.queue [] tasks htasks
  have hprogress : s.InProgress := .inl (htasks ▸ List.mem_cons_self)
  have hcalled := h.called (.inl hprogress)
  have hnotDropped : s.dropped = false := by
    by_contra hd
    exact (h.dropped (by simpa using hd)).2 hprogress
  have howed : ¬ ({ s with tasks_ := tasks, conn := s.conn.shutdownInLoop } : Threads τ).Owed := by
    rintro ⟨call, hmem | ⟨t, ht⟩, hbefore⟩
    · simp [hafter call hmem] at hbefore
    · simp [hsending t call ht] at hbefore
  refine ⟨fun _ => ⟨howed, hnotDropped, hcalled⟩, fun _ => hcalled, fun _ ho => absurd ho howed,
    fun hd => ?_, h.queue_tail htasks⟩
  simp [hnotDropped] at hd

/-- **A step of the loop thread keeps the invariant.** -/
theorem InOrder.loopStep {s s' : Threads τ} {a : Step τ} (h : s.InOrder)
    (hs' : s.loopStep a = some s') (hsound : a.Sound) (ha : s.Ordered a) : s'.InOrder := by
  cases a with
  | runTask result garbage =>
    simp only [Threads.loopStep, assert_eq_some_iff] at hs'
    obtain ⟨-, hs'⟩ := hs'
    split at hs'
    · cases hs'
    · rename_i call tasks htasks
      exact Option.some.inj hs' ▸ h.runSend htasks hsound
    · rename_i tasks htasks
      exact Option.some.inj hs' ▸ h.runShutdown htasks
  | call k => exact Option.some.inj hs' ▸ h.call ha
  | write result =>
    simp only [Threads.loopStep, assert_eq_some_iff, Option.some.injEq] at hs'
    obtain ⟨-, rfl⟩ := hs'
    obtain ⟨hstate, hlog⟩ := writeOutput_spec s.conn result
    exact h.conn rfl rfl rfl id (fun hmem => .inl (hlog hmem)) (.inl hstate)
  | rearm =>
    simp only [Threads.loopStep, assert_eq_some_iff, Option.some.injEq] at hs'
    obtain ⟨-, rfl⟩ := hs'
    exact h.conn rfl rfl rfl id .inl (.inl rfl)
  | drain =>
    simp only [Threads.loopStep, assert_eq_some_iff, Option.some.injEq] at hs'
    obtain ⟨-, rfl⟩ := hs'
    exact h.conn rfl rfl rfl id .inl (.inl rfl)
  | drainEnd =>
    simp only [Threads.loopStep, assert_eq_some_iff, Option.some.injEq] at hs'
    obtain ⟨-, rfl⟩ := hs'
    exact h.drainEnd ha
  | disconnect =>
    obtain rfl := Option.some.inj hs'
    exact h.conn rfl rfl rfl id .inl (.inr (.inr ⟨rfl, ha⟩))
  | connectionDestroyed =>
    simp only [Threads.loopStep, assert_eq_some_iff, Option.some.injEq] at hs'
    obtain ⟨-, rfl⟩ := hs'
    exact h.conn rfl rfl rfl id .inl (.inr (.inr ⟨rfl, ha⟩))
  | emit e =>
    simp only [Threads.loopStep, assert_eq_some_iff, Option.some.injEq] at hs'
    obtain ⟨he, rfl⟩ := hs'
    refine h.conn rfl rfl rfl id (fun hmem => .inl ?_) (.inl rfl)
    exact (mem_append_iff_of_neutral he s.conn.log).mp hmem
  | frame conn =>
    simp only [Threads.loopStep, assert_eq_some_iff, Option.some.injEq] at hs'
    obtain ⟨⟨hlog, hstate, -, -⟩, rfl⟩ := hs'
    exact h.conn rfl rfl rfl id (fun hmem => .inl (hlog ▸ hmem)) (.inl hstate)
  | _ => cases hs'

/-! ## Steps of other threads -/

/-- A call on another thread goes on, and the connection stays as it is. -/
theorem InOrder.other {s s' : Threads τ} (h : s.InOrder) (hconn : s'.conn = s.conn)
    (hdropped : s'.dropped = s.dropped) (hcalled : s.shutdownCalled = true → s'.shutdownCalled = true)
    (howed : s'.Owed → s.Owed ∨ s.conn.state_ = .kConnected ∧ s.shutdownCalled = false)
    (hprogress : s'.InProgress →
      s.InProgress ∨ s.conn.state_ = .kConnected ∧ s'.shutdownCalled = true)
    (hqueue : ∀ before after, s'.tasks_ = before ++ .shutdownInLoop :: after →
      (∀ call, .sendInLoop call ∈ after → call.beforeShutdown = false) ∧
        ∀ t call, s'.other t = .sending call → call.beforeShutdown = false) : s'.InOrder := by
  refine ⟨?_, ?_, ?_, ?_, hqueue⟩
  · rw [hconn, hdropped]
    intro hmem
    obtain ⟨h₁, h₂, h₃⟩ := h.closed hmem
    refine ⟨fun ho => ?_, h₂, hcalled h₃⟩
    rcases howed ho with hold | ⟨-, hnot⟩
    · exact h₁ hold
    · simp [h₃] at hnot
  · rw [hconn]
    rintro (hp | hs)
    · rcases hprogress hp with hold | ⟨-, hc⟩
      · exact hcalled (h.called (.inl hold))
      · exact hc
    · exact hcalled (h.called (.inr hs))
  · rw [hconn]
    intro hs ho hp
    rcases howed ho with hold | ⟨hconnected, -⟩
    · rcases hprogress hp with hp | ⟨hconnected, -⟩
      · exact h.gone hs hold hp
      · simp [hs] at hconnected
    · simp [hs] at hconnected
  · rw [hconn, hdropped]
    intro hd
    obtain ⟨hs, hnp⟩ := h.dropped hd
    refine ⟨hs, fun hp => ?_⟩
    rcases hprogress hp with hp | ⟨hconnected, -⟩
    · exact hnp hp
    · simp [hs] at hconnected

/-- A functor joins the queue. -/
theorem InOrder.queue_append {s : Threads τ} (h : s.InOrder) {f : Functor}
    (hf : f = .shutdownInLoop ∨ ∃ t call, f = .sendInLoop call ∧ s.other t = .sending call)
    (hsending : f = .shutdownInLoop →
      ∀ t call, s.other t = .sending call → call.beforeShutdown = false) :
    ∀ before after, s.tasks_ ++ [f] = before ++ .shutdownInLoop :: after →
      (∀ call, .sendInLoop call ∈ after → call.beforeShutdown = false) ∧
        ∀ t call, s.other t = .sending call → call.beforeShutdown = false := by
  intro before after heq
  rcases after.eq_nil_or_concat with rfl | ⟨after', f', rfl⟩
  · obtain ⟨-, hlast⟩ := List.append_inj' heq rfl
    exact ⟨nofun, hsending (by simpa using hlast)⟩
  · rw [List.concat_eq_append] at heq ⊢
    rw [← List.cons_append, ← List.append_assoc] at heq
    obtain ⟨htasks, hlast⟩ := List.append_inj' heq rfl
    obtain rfl : f = f' := by simpa using hlast
    obtain ⟨hafter, hother⟩ := h.queue before after' htasks
    refine ⟨fun call hmem => ?_, hother⟩
    rcases List.mem_append.mp hmem with hold | hnew
    · exact hafter call hold
    · obtain rfl := List.mem_singleton.mp hnew
      rcases hf with hshut | ⟨t, call', hcall', ht⟩
      · cases hshut
      · cases hcall'
        exact hother t call ht

variable [DecidableEq τ]

/-- What another thread does when one thread goes on. -/
theorem sending_of_update {s : Threads τ} {t u : τ} {l : Local} {call : SendCall}
    (h : Function.update s.other t l u = .sending call) :
    s.other u = .sending call ∨ l = .sending call := by
  by_cases hu : u = t
  · subst hu
    rw [Function.update_self] at h
    exact .inr h
  · rw [Function.update_of_ne hu] at h
    exact .inl h

/-- Messages accepted behind `shutdown`, after one thread has gone on. -/
theorem sending_update {s : Threads τ} {t : τ} {l : Local}
    (hl : ∀ call, l = .sending call → call.beforeShutdown = false)
    (h : ∀ t call, s.other t = .sending call → call.beforeShutdown = false) :
    ∀ u call, Function.update s.other t l u = .sending call → call.beforeShutdown = false := by
  intro u call hu
  rcases sending_of_update hu with hold | hnew
  · exact h u call hold
  · exact hl call hnew

/-- A call of `shutdown` is in progress after one thread has gone on. -/
theorem inProgress_of_update {s s' : Threads τ} {t : τ} {l : Local}
    (hother : s'.other = Function.update s.other t l) (h : s'.InProgress)
    (htasks : .shutdownInLoop ∈ s'.tasks_ → s.InProgress) :
    s.InProgress ∨ l = .tested ∨ l = .stored := by
  rcases h with hmem | ⟨u, hu⟩
  · exact .inl (htasks hmem)
  · rw [hother] at hu
    by_cases htu : u = t
    · subst htu
      rw [Function.update_self] at hu
      exact .inr hu
    · rw [Function.update_of_ne htu] at hu
      exact .inl (.inr ⟨u, hu⟩)

/-- `send` on another thread tests the state. -/
theorem InOrder.send {s : Threads τ} (h : s.InOrder) (hs : s.conn.state_ = .kConnected) (t : τ)
    (data len : ℕ) (message : Bytes) :
    ({ s with
      other := Function.update s.other t (.sending ⟨data, len, message, !s.shutdownCalled⟩) } :
      Threads τ).InOrder := by
  refine h.other rfl rfl id ?_ ?_ ?_
  · rintro ⟨call, hmem | ⟨u, hu⟩, hbefore⟩
    · exact .inl ⟨call, .inl hmem, hbefore⟩
    · rcases sending_of_update hu with hold | hnew
      · exact .inl ⟨call, .inr ⟨u, hold⟩, hbefore⟩
      · cases hnew
        exact .inr ⟨hs, by simpa using hbefore⟩
  · intro hp
    left
    rcases inProgress_of_update (s := s) rfl hp .inl with hold | hnew | hnew
    · exact hold
    · cases hnew
    · cases hnew
  · intro before after heq
    obtain ⟨hafter, hother⟩ := h.queue before after heq
    have hcalled : s.shutdownCalled = true := by
      refine h.called (.inl (.inl ?_))
      rw [heq]
      simp
    refine ⟨hafter, sending_update (fun call hnew => ?_) hother⟩
    cases hnew
    simp [hcalled]

/-- `send` on another thread pushes its functor. -/
theorem InOrder.pushSend {s : Threads τ} (h : s.InOrder) {t : τ} {call : SendCall}
    (ht : s.other t = .sending call) :
    ({ s with tasks_ := s.tasks_ ++ [.sendInLoop call], other := Function.update s.other t .idle } :
      Threads τ).InOrder := by
  refine h.other rfl rfl id ?_ ?_ ?_
  · rintro ⟨call', hpoints, hbefore⟩
    refine .inl ⟨call', points_update hpoints rfl nofun fun hmem => ?_, hbefore⟩
    rcases List.mem_append.mp hmem with hold | hnew
    · exact .inl hold
    · obtain rfl : call' = call := by simpa using hnew
      exact .inr ⟨t, ht⟩
  · intro hp
    left
    have htasks : .shutdownInLoop ∈ s.tasks_ ++ [.sendInLoop call] → s.InProgress :=
      fun hmem => .inl (by simpa using hmem)
    rcases inProgress_of_update (s := s) rfl hp htasks with hold | hnew | hnew
    · exact hold
    · cases hnew
    · cases hnew
  · intro before after heq
    obtain ⟨hafter, hother⟩ := h.queue_append (.inr ⟨t, call, rfl, ht⟩) nofun before after heq
    exact ⟨hafter, sending_update nofun hother⟩

/-- `shutdown` on another thread tests the state. -/
theorem InOrder.shutdown {s : Threads τ} (h : s.InOrder) (hs : s.conn.state_ = .kConnected)
    (t : τ) : ({ s with shutdownCalled := true, other := Function.update s.other t .tested } :
      Threads τ).InOrder := by
  refine h.other rfl rfl (fun _ => rfl) ?_ ?_ ?_
  · rintro ⟨call, hpoints, hbefore⟩
    exact .inl ⟨call, points_update hpoints rfl nofun .inl, hbefore⟩
  · exact fun _ => .inr ⟨hs, rfl⟩
  · intro before after heq
    obtain ⟨hafter, hother⟩ := h.queue before after heq
    exact ⟨hafter, sending_update nofun hother⟩

/-- `shutdown` on another thread stores `kDisconnecting`, even behind `kDisconnected`. -/
theorem InOrder.setState {s : Threads τ} (h : s.InOrder) {t : τ} (ht : s.other t = .tested) :
    ({ s with
      conn := { s.conn with state_ := .kDisconnecting }
      other := Function.update s.other t .stored } : Threads τ).InOrder := by
  have hprogress : s.InProgress := .inr ⟨t, .inl ht⟩
  have hcalled := h.called (.inl hprogress)
  have hmoved : ({ s with other := Function.update s.other t .stored } : Threads τ).InOrder := by
    refine h.other rfl rfl id ?_ (fun _ => .inl hprogress) ?_
    · rintro ⟨call, hpoints, hbefore⟩
      exact .inl ⟨call, points_update hpoints rfl nofun .inl, hbefore⟩
    · intro before after heq
      obtain ⟨hafter, hother⟩ := h.queue before after heq
      exact ⟨hafter, sending_update nofun hother⟩
  refine ⟨hmoved.closed, fun _ => hcalled, nofun, fun hd => ?_, hmoved.queue⟩
  exact absurd hprogress (h.dropped hd).2

/-- `shutdown` on another thread pushes its functor, behind the messages accepted before. -/
theorem InOrder.pushShutdown {s : Threads τ} (h : s.InOrder) {t : τ} (ht : s.other t = .stored)
    (hsending : ∀ t call, s.other t = .sending call → call.beforeShutdown = false) :
    ({ s with tasks_ := s.tasks_ ++ [.shutdownInLoop], other := Function.update s.other t .idle } :
      Threads τ).InOrder := by
  refine h.other rfl rfl id ?_ (fun _ => .inl (.inr ⟨t, .inr ht⟩)) ?_
  · rintro ⟨call, hpoints, hbefore⟩
    refine .inl ⟨call, points_update hpoints rfl nofun fun hmem => .inl ?_, hbefore⟩
    simpa using hmem
  · intro before after heq
    obtain ⟨hafter, hother⟩ := h.queue_append (.inl rfl) (fun _ => hsending) before after heq
    exact ⟨hafter, sending_update nofun hother⟩

/-- **A step of another thread keeps the invariant.** -/
theorem InOrder.otherStep {s s' : Threads τ} {a : Step τ} (h : s.InOrder)
    (hs' : s.otherStep a = some s') (ha : s.Ordered a) : s'.InOrder := by
  cases a with
  | overwrite data bytes =>
    exact Option.some.inj hs' ▸ h.conn rfl rfl rfl id .inl (.inl rfl)
  | release data => exact Option.some.inj hs' ▸ h.conn rfl rfl rfl id .inl (.inl rfl)
  | send t data len =>
    simp only [Threads.otherStep, assert_eq_some_iff] at hs'
    obtain ⟨-, hs'⟩ := hs'
    split at hs'
    · cases hs'
    · split_ifs at hs' with hs
      · exact Option.some.inj hs' ▸ h.send hs t data len _
      · exact Option.some.inj hs' ▸ h
  | pushSend t =>
    simp only [Threads.otherStep] at hs'
    split at hs'
    · rename_i call ht
      exact Option.some.inj hs' ▸ h.pushSend ht
    · cases hs'
  | shutdown t =>
    simp only [Threads.otherStep, assert_eq_some_iff] at hs'
    obtain ⟨-, hs'⟩ := hs'
    split_ifs at hs' with hs
    · exact Option.some.inj hs' ▸ h.shutdown hs t
    · exact Option.some.inj hs' ▸ h
  | setState t =>
    simp only [Threads.otherStep, assert_eq_some_iff, Option.some.injEq] at hs'
    obtain ⟨ht, rfl⟩ := hs'
    exact h.setState ht
  | pushShutdown t =>
    simp only [Threads.otherStep, assert_eq_some_iff, Option.some.injEq] at hs'
    obtain ⟨ht, rfl⟩ := hs'
    exact h.pushShutdown ht ha
  | _ => cases hs'

/-! ## Runs -/

/-- **One step keeps the invariant.** -/
theorem InOrder.step {s s' : Threads τ} {a : Step τ} (hs' : s.step a = some s')
    (ha : a.Sound ∧ s.Ordered a) (h : s.InOrder) : s'.InOrder := by
  rcases Option.or_eq_some_iff.mp hs' with hother | ⟨-, hloop⟩
  · exact h.otherStep hother ha.2
  · exact h.loopStep hloop ha.1 ha.2

/-- **The half-close does not overtake accepted messages.** In every interleaving in which no
`write` of a functor fails with `EPIPE` or `ECONNRESET` and the steps are ordered: once the write
end is shut down, every message that was accepted before `shutdown` was called has been written or
buffered. -/
theorem messages_before_shutdownWrite (sockfd : ℕ)
    (connection message writeComplete close : Bool) (supply : Supply) {steps : List (Step τ)}
    {s : Threads τ}
    (hrun : run Threads.step
      (start (TcpConnection.new sockfd connection message writeComplete close supply)) steps = some s)
    (hsteps : Along Threads.step (fun s a => a.Sound ∧ s.Ordered a)
      (start (TcpConnection.new sockfd connection message writeComplete close supply)) steps) :
    .shutdownWrite ∈ s.conn.log → ¬ s.Owed ∧ s.dropped = false := by
  have hstart : (start (TcpConnection.new sockfd connection message writeComplete close supply) :
      Threads τ).InOrder := by
    refine ⟨nofun, ?_, nofun, nofun, ?_⟩
    · rintro ((hmem | ⟨t, ht⟩) | hs)
      · cases hmem
      · simp [start] at ht
      · cases hs
    · intro before after heq
      simp [start] at heq
  intro hmem
  obtain ⟨howed, hdropped, -⟩ := (hsteps.invariant InOrder.step hrun hstart).closed hmem
  exact ⟨howed, hdropped⟩

/-- A message and a `shutdown` of one thread, in this order: the message is sent first. -/
theorem messages_before_shutdownWrite_queued : ∃ s : Threads Unit,
    run Threads.step (start (TcpConnection.new 5 true true true true {})) [.overwrite 0 [1, 2],
      .send () 0 2, .pushSend (), .shutdown (), .setState (), .pushShutdown (),
      .runTask ⟨some 2, 0⟩ [], .runTask ⟨none, 0⟩ []] = some s ∧
    .shutdownWrite ∈ s.conn.log ∧ ¬ s.Owed ∧ s.dropped = false := by
  have hrun : (run Threads.step (start (TcpConnection.new 5 true true true true {}) : Threads Unit)
      [.overwrite 0 [1, 2], .send () 0 2, .pushSend (), .shutdown (), .setState (),
        .pushShutdown (), .runTask ⟨some 2, 0⟩ [], .runTask ⟨none, 0⟩ []]).map
      (fun s => s.conn.log) = some [.wrote [1, 2], .shutdownWrite] := by
    decide
  obtain ⟨s, hs, hlog⟩ := Option.map_eq_some_iff.mp hrun
  have hmem : .shutdownWrite ∈ s.conn.log := by simp [hlog]
  refine ⟨s, hs, hmem, messages_before_shutdownWrite 5 true true true true {} hs ?_ hmem⟩
  refine ⟨⟨trivial, trivial⟩, fun s₁ h₁ => ⟨⟨trivial, trivial⟩, fun s₂ h₂ => ⟨⟨trivial, trivial⟩,
    fun s₃ h₃ => ⟨⟨trivial, trivial⟩, fun s₄ h₄ => ⟨⟨trivial, trivial⟩, fun s₅ h₅ =>
    ⟨⟨trivial, ?_⟩, fun s₆ h₆ => ⟨⟨nofun, trivial⟩, fun s₇ h₇ => ⟨⟨?_, trivial⟩,
    fun _ _ => trivial⟩⟩⟩⟩⟩⟩⟩⟩
  · obtain rfl := Option.some.inj h₁
    obtain rfl := Option.some.inj h₂
    obtain rfl := Option.some.inj h₃
    obtain rfl := Option.some.inj h₄
    obtain rfl := Option.some.inj h₅
    intro t call ht
    cases ht
  · exact fun _ => ⟨by decide, by decide⟩

/-- A message of another thread waits in the queue when the loop thread shuts down. -/
theorem message_after_shutdownWrite : ∃ s : Threads Unit,
    run Threads.step (start (TcpConnection.new 5 true true true true {})) [.overwrite 0 [1, 2],
      .send () 0 2, .pushSend (), .call .shutdown] = some s ∧
    ¬ (.shutdownWrite ∈ s.conn.log → ¬ s.Owed ∧ s.dropped = false) := by
  refine ⟨_, rfl, fun h => ?_⟩
  obtain ⟨howed, -⟩ := h (by decide)
  exact howed ⟨⟨0, 2, [1, 2], true⟩, .inl (by decide), rfl⟩

end Threads

end LouisNet.Net
