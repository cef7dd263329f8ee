import LouisNet.Lib.Run
import LouisNet.Net.TcpConnectionOutput
import LouisNet.Net.TcpConnectionRules

set_option relaxedAutoImplicit false
set_option autoImplicit false

/-!
# A connection and several threads

`TcpConnection::send` and `TcpConnection::shutdown` may be called on any thread. On the loop
thread they act at once; on another thread they test the state, and then push a functor that the
loop thread runs later, in the order of the pushes. The steps of this model are small enough for
every thread to come between: a test, a store to `state_`, a push, the run of a functor, and the
parts of the handlers of the loop thread.

The functor of a send holds the pointer it was given, and the bytes are read when it runs. The
storage of the callers is therefore part of the model: cells that may be overwritten and released.

## Main definitions

* `LouisNet.Net.Threads` — a connection, the storage of its callers, the queue of functors, and the
  calls in progress on other threads.
* `LouisNet.Net.Threads.step` — one step of one thread.
* `LouisNet.Net.Threads.Undisturbed` — storage is left alone while a functor points to it.

## Main results

* `LouisNet.Net.Threads.exists_run_step` — what the loop thread does by itself is a run.
* `LouisNet.Net.Threads.sent_eq_message` — what is sent is what the message was.
-/

namespace LouisNet.Net

open Lib Reactor

/-! ## Calls on other threads -/

/-- A call of `send` on another thread: the pointer and the length it passes on. The bytes that
the pointer led to and whether the call came before every `shutdown` are recorded. -/
structure SendCall where
  data : ℕ
  len : ℕ
  message : Bytes
  beforeShutdown : Bool
  deriving DecidableEq, Repr

/-- What a connection queues in its loop. -/
inductive Functor where
  | sendInLoop (call : SendCall)
  | shutdownInLoop
  deriving DecidableEq, Repr

/-- Where another thread is. -/
inductive Local where
  | idle
  /-- in `send`, behind the test of the state -/
  | sending (call : SendCall)
  /-- in `shutdown`, behind the test of the state -/
  | tested
  /-- in `shutdown`, behind the store to `state_` -/
  | stored
  deriving DecidableEq, Repr

/-- A connection and the threads that use it. -/
structure Threads (τ : Type*) where
  conn : TcpConnection
  /-- The storage of the callers. -/
  memory : ℕ → Option Bytes := fun _ => none
  /-- The functors of the connection in its loop. -/
  tasks_ : List Functor := []
  other : τ → Local := fun _ => .idle
  /-- The loop thread is in `handleWrite`, before its last test of the state. -/
  draining : Bool := false
  /-- A call of `shutdown` has found the state `kConnected`. -/
  shutdownCalled : Bool := false
  /-- For each functor of a send that has run, the message and the bytes sent. -/
  sent : List (Bytes × Bytes) := []
  /-- A message accepted before every `shutdown` was neither written nor buffered. -/
  dropped : Bool := false

instance (e : Event) : Decidable e.Neutral :=
  match e with
  | .connectionCallback _ => isTrue trivial
  | .messageCallback => isTrue trivial
  | .writeCompleteCallback => isTrue trivial
  | .closeCallback => isTrue trivial
  | .hangUp => isTrue trivial
  | .errorEvent => isTrue trivial
  | .readv _ => isTrue trivial
  | .write _ => isFalse id
  | .accepted _ => isFalse id
  | .wrote _ => isFalse id
  | .shutdownWrite => isFalse id

namespace Threads

variable {τ : Type*} [DecidableEq τ]

/-- The bytes that a pointer leads to, if there are so many. -/
def read (memory : ℕ → Option Bytes) (data len : ℕ) : Option Bytes :=
  match memory data with
  | some bytes => if len ≤ bytes.length then some (bytes.take len) else none
  | none => none

/-- The steps of the threads. -/
inductive Step (τ : Type*) where
  /-- a caller writes to a cell, or gets one -/
  | overwrite (data : ℕ) (bytes : Bytes)
  | release (data : ℕ)
  /-- `send` on another thread tests the state -/
  | send (t : τ) (data len : ℕ)
  /-- `send` on another thread pushes its functor and returns -/
  | pushSend (t : τ)
  /-- `shutdown` on another thread tests the state -/
  | shutdown (t : τ)
  /-- `shutdown` on another thread stores `kDisconnecting` -/
  | setState (t : τ)
  /-- `shutdown` on another thread pushes its functor and returns -/
  | pushShutdown (t : τ)
  /-- the loop thread runs the next functor; a pointer that leads nowhere gives some bytes -/
  | runTask (result : WriteResult) (garbage : Bytes)
  /-- the code of the user makes a call on the loop thread -/
  | call (k : Call)
  /-- `write` returns in `handleWrite` -/
  | write (result : WriteResult)
  /-- `handleWrite` registers again for writing -/
  | rearm
  /-- `handleWrite` finds everything written -/
  | drain
  /-- `handleWrite` tests the state at its end -/
  | drainEnd
  /-- `handleClose` stores `kDisconnected` -/
  | disconnect
  | connectionDestroyed
  /-- the loop thread does something else -/
  | emit (e : Event)
  | frame (conn : TcpConnection)
  deriving DecidableEq, Repr

/-- The functor of a send runs. -/
def runSend (s : Threads τ) (call : SendCall) (result : WriteResult) (garbage : Bytes) :
    Threads τ :=
  let data := (read s.memory call.data call.len).getD garbage
  let conn := s.conn.sendInLoop data result
  { s with
    conn
    sent := s.sent ++ [(call.message, data)]
    dropped := s.dropped || (call.beforeShutdown && written conn.log ++ conn.outputBuffer_ !=
      written s.conn.log ++ s.conn.outputBuffer_ ++ data) }

/-- `write` returns in the loop of `handleWrite`. -/
def writeOutput (c : TcpConnection) (result : WriteResult) : TcpConnection :=
  let c := c.emit (.write result)
  match result.ret with
  | some (n + 1) =>
    let n := min (n + 1) c.outputBuffer_.length
    let c := c.emit (.wrote (c.outputBuffer_.take n))
    { c with outputBuffer_ := c.outputBuffer_.drop n }
  | _ => c

/-- A step of another thread. -/
def otherStep (s : Threads τ) : Step τ → Option (Threads τ)
  | .overwrite data bytes =>
    some { s with memory := Function.update s.memory data (some bytes) }
  | .release data => some { s with memory := Function.update s.memory data none }
  | .send t data len =>
    assert (s.other t = .idle) <|
    match read s.memory data len with
    | none => none
    | some message =>
      if s.conn.state_ = .kConnected then
        some { s with other := Function.update s.other t
                        (.sending ⟨data, len, message, !s.shutdownCalled⟩) }
      else some s
  | .pushSend t =>
    match s.other t with
    | .sending call =>
      some { s with
        tasks_ := s.tasks_ ++ [.sendInLoop call]
        other := Function.update s.other t .idle }
    | _ => none
  | .shutdown t =>
    assert (s.other t = .idle) <|
    if s.conn.state_ = .kConnected then
      some { s with shutdownCalled := true, other := Function.update s.other t .tested }
    else some s
  | .setState t =>
    assert (s.other t = .tested) <|
    some { s with
      conn := { s.conn with state_ := .kDisconnecting }
      other := Function.update s.other t .stored }
  | .pushShutdown t =>
    assert (s.other t = .stored) <|
    some { s with
      tasks_ := s.tasks_ ++ [.shutdownInLoop]
      other := Function.update s.other t .idle }
  | _ => none

/-- A step of the loop thread. -/
def loopStep (s : Threads τ) : Step τ → Option (Threads τ)
  | .runTask result garbage =>
    assert (s.draining = false) <|
    match s.tasks_ with
    | [] => none
    | .sendInLoop call :: tasks =>
      some (({ s with tasks_ := tasks } : Threads τ).runSend call result garbage)
    | .shutdownInLoop :: tasks => some { s with tasks_ := tasks, conn := s.conn.shutdownInLoop }
  | .call k =>
    some { s with
      conn := s.conn.call k
      shutdownCalled := s.shutdownCalled || (k = .shutdown && s.conn.state_ = .kConnected) }
  | .write result =>
    assert (s.draining = false ∧ s.conn.channel_.isWriting = true ∧ s.conn.outputBuffer_ ≠ []) <|
    some { s with conn := writeOutput s.conn result }
  | .rearm =>
    assert (s.draining = false ∧ s.conn.channel_.isWriting = true) <|
    some { s with conn := { s.conn with channel_ := s.conn.channel_.disableWrite.enableWrite } }
  | .drain =>
    assert (s.draining = false ∧ s.conn.channel_.isWriting = true ∧ s.conn.outputBuffer_ = []) <|
    some { s with
      conn := { s.conn with channel_ := s.conn.channel_.disableWrite }
      draining := true }
  | .drainEnd =>
    assert (s.draining = true) <|
    some { s with
      conn := if s.conn.state_ = .kDisconnecting then s.conn.shutdownInLoop else s.conn
      draining := false }
  | .disconnect => some { s with conn := { s.conn with state_ := .kDisconnected } }
  | .connectionDestroyed =>
    assert (s.draining = false) <| some { s with conn := s.conn.connectionDestroyed }
  | .emit e => assert e.Neutral <| some { s with conn := s.conn.emit e }
  | .frame conn =>
    assert (conn.log = s.conn.log ∧ conn.state_ = s.conn.state_ ∧
      conn.channel_ = s.conn.channel_ ∧ conn.outputBuffer_ = s.conn.outputBuffer_) <|
    some { s with conn }
  | _ => none

/-- One step of one thread. -/
def step (s : Threads τ) (a : Step τ) : Option (Threads τ) := (s.otherStep a).or (s.loopStep a)

/-! ## The loop thread by itself -/

/-- A run of the loop thread leads from `s` to the connection `c`. -/
def Leads (s : Threads τ) (draining : Bool) (c : TcpConnection) : Prop :=
  ∃ steps called, run step s steps =
    some { s with conn := c, draining, shutdownCalled := called }

/-- One more step of the loop thread. -/
theorem Leads.next {s : Threads τ} {draining : Bool} {c : TcpConnection} (h : s.Leads draining c)
    {a : Step τ} {draining' : Bool} {c' : TcpConnection}
    (ha : ∀ called, ∃ called', step { s with conn := c, draining, shutdownCalled := called } a =
      some { s with conn := c', draining := draining', shutdownCalled := called' }) :
    s.Leads draining' c' := by
  obtain ⟨steps, called, hrun⟩ := h
  obtain ⟨called', hstep⟩ := ha called
  exact ⟨steps ++ [a], called', run_concat hrun hstep⟩

/-- The parts of the handlers are steps. -/
theorem keeps_leads (s : Threads τ) (draining : Bool) :
    TcpConnection.Keeps (fun _ => True) (s.Leads draining) where
  congr := by
    intro c c' h hlog hstate hchannel houtput _
    refine h.next (a := .frame c') fun called => ⟨called, ?_⟩
    simp [step, otherStep, loopStep, assert, hlog, hstate, hchannel, houtput]
  emit := by
    intro c e h he
    refine h.next (a := .emit e) fun called => ⟨called, ?_⟩
    simp [step, otherStep, loopStep, assert, he]
  call := by
    intro c k h _
    refine h.next (a := .call k) fun called =>
      ⟨called || (k = .shutdown && c.state_ = .kConnected), ?_⟩
    simp [step, otherStep, loopStep]
  disconnect := by
    intro c h
    refine h.next (a := .disconnect) fun called => ⟨called, ?_⟩
    simp [step, otherStep, loopStep]
  pop := by
    intro c calls rest h _
    refine ⟨h.next (a := .frame { c with supply := { c.supply with callbacks := rest } })
      fun called => ⟨called, ?_⟩, fun _ _ => trivial⟩
    simp [step, otherStep, loopStep, assert]

/-- The end of the loop of `handleWrite` is a run. -/
theorem Leads.drained {s : Threads τ} {c : TcpConnection} (h : s.Leads false c)
    (hw : c.channel_.isWriting = true) (hnil : c.outputBuffer_ = []) :
    s.Leads false c.drained := by
  have hdrain : s.Leads true { c with channel_ := c.channel_.disableWrite } := by
    refine h.next (a := .drain) fun called => ⟨called, ?_⟩
    simp [step, otherStep, loopStep, assert, hw, hnil]
  refine ((keeps_leads s true).writeCompleteCallback hdrain).next (a := .drainEnd) fun called =>
    ⟨called, ?_⟩
  simp [step, otherStep, loopStep, assert, TcpConnection.drained]

/-- What `handleWrite` does when `write` has not written is a run. -/
theorem Leads.writeFailed {s : Threads τ} {c : TcpConnection} (h : s.Leads false c)
    (hw : c.channel_.isWriting = true) (savedError : ℕ) :
    s.Leads false (c.writeFailed savedError) := by
  unfold TcpConnection.writeFailed
  split_ifs
  · exact h
  · refine h.next (a := .rearm) fun called => ⟨called, ?_⟩
    simp [step, otherStep, loopStep, assert, hw]
  · exact (keeps_leads s false).handleError h

/-- The loop of `handleWrite` is a run. By induction on the results of `write`. -/
theorem Leads.writeLoop {s : Threads τ} (writes : List WriteResult) {c : TcpConnection}
    (h : s.Leads false c) (hw : c.channel_.isWriting = true) :
    s.Leads false (TcpConnection.writeLoop writes c) := by
  induction writes generalizing c with
  | nil =>
    unfold TcpConnection.writeLoop
    split_ifs with hnil
    · exact h.drained hw hnil
    · exact h.writeFailed hw EAGAIN
  | cons r writes ih =>
    unfold TcpConnection.writeLoop
    split_ifs with hnil
    · exact h.drained hw hnil
    · have hwrite : s.Leads false (writeOutput c r) := by
        refine h.next (a := .write r) fun called => ⟨called, ?_⟩
        simp [step, otherStep, loopStep, assert, hw, hnil]
      obtain ⟨_ | _ | n, errno⟩ := r
      · exact Leads.writeFailed hwrite hw errno
      · exact Leads.writeFailed hwrite hw errno
      · exact ih hwrite hw

/-- **What the loop thread does by itself is a run**: every step of the connection on its loop
thread is made of steps of this model. -/
theorem exists_run_step (s : Threads τ) (hs : s.draining = false) (i : TcpConnection.Input × Supply) :
    s.Leads false (s.conn.step i) := by
  refine (keeps_leads s false).step ?_ ?_ (fun _ _ => trivial)
  · intro c h
    unfold TcpConnection.handleWrite
    split_ifs with hw
    · exact h.writeLoop _ hw
    · exact h
  · have hstart : s.Leads false s.conn := ⟨[], s.shutdownCalled, by rw [← hs]; rfl⟩
    refine hstart.next (a := .frame { s.conn with supply := i.2 }) fun called => ⟨called, ?_⟩
    simp [step, otherStep, loopStep, assert]

/-! ## What is sent -/

/-- A call of `send` whose functor waits, or is about to be pushed. -/
def Points (s : Threads τ) (call : SendCall) : Prop :=
  .sendInLoop call ∈ s.tasks_ ∨ ∃ t, s.other t = .sending call

/-- The step leaves the bytes alone that the functor of a send points to. -/
def Undisturbed (s : Threads τ) : Step τ → Prop
  | .overwrite data bytes => ∀ call, s.Points call →
    read (Function.update s.memory data (some bytes)) call.data call.len =
      read s.memory call.data call.len
  | .release data => ∀ call, s.Points call →
    read (Function.update s.memory data none) call.data call.len =
      read s.memory call.data call.len
  | _ => True

/-- The pointers lead to the messages, and what was sent are the messages. -/
structure Intact (s : Threads τ) : Prop where
  points : ∀ call, s.Points call → read s.memory call.data call.len = some call.message
  sent : ∀ p ∈ s.sent, p.2 = p.1

omit [DecidableEq τ] in
/-- The memory and what was sent do not change, and no pointer is new. -/
theorem Intact.of_points {s s' : Threads τ} (h : s.Intact) (hmemory : s'.memory = s.memory)
    (hsent : s'.sent = s.sent) (hpoints : ∀ call, s'.Points call → s.Points call) : s'.Intact := by
  refine ⟨fun call hcall => ?_, ?_⟩
  · rw [hmemory]
    exact h.points call (hpoints call hcall)
  · rw [hsent]
    exact h.sent

/-- A call of `send` on another thread goes on. -/
theorem points_update {s s' : Threads τ} {t : τ} {l : Local} {call : SendCall}
    (h : s'.Points call) (hother : s'.other = Function.update s.other t l)
    (hl : l ≠ .sending call) (htasks : .sendInLoop call ∈ s'.tasks_ → s.Points call) :
    s.Points call := by
  rcases h with hmem | ⟨u, hu⟩
  · exact htasks hmem
  · rw [hother] at hu
    by_cases htu : u = t
    · subst htu
      rw [Function.update_self] at hu
      exact absurd hu hl
    · rw [Function.update_of_ne htu] at hu
      exact .inr ⟨u, hu⟩

/-- A step of another thread keeps the messages, if it leaves them alone. -/
theorem Intact.otherStep {s s' : Threads τ} {a : Step τ} (h : s.Intact)
    (hs' : s.otherStep a = some s') (ha : s.Undisturbed a) : s'.Intact := by
  cases a with
  | overwrite data bytes =>
    obtain rfl := Option.some.inj hs'
    exact ⟨fun call hcall => (ha call hcall).trans (h.points call hcall), h.sent⟩
  | release data =>
    obtain rfl := Option.some.inj hs'
    exact ⟨fun call hcall => (ha call hcall).trans (h.points call hcall), h.sent⟩
  | send t data len =>
    simp only [Threads.otherStep, assert_eq_some_iff] at hs'
    obtain ⟨-, hs'⟩ := hs'
    cases hread : read s.memory data len with
    | none => simp [hread] at hs'
    | some message =>
      simp only [hread] at hs'
      split_ifs at hs'
      · obtain rfl := Option.some.inj hs'
        refine ⟨fun call hcall => ?_, h.sent⟩
        by_cases hnew : (⟨data, len, message, !s.shutdownCalled⟩ : SendCall) = call
        · subst hnew
          exact hread
        · refine h.points call (points_update hcall rfl ?_ .inl)
          simpa using hnew
      · exact Option.some.inj hs' ▸ h
  | pushSend t =>
    simp only [Threads.otherStep] at hs'
    split at hs'
    · rename_i call hlocal
      obtain rfl := Option.some.inj hs'
      refine h.of_points rfl rfl fun call' hcall' => points_update hcall' rfl (by simp)
        fun hmem => ?_
      rcases List.mem_append.mp hmem with hold | hnew
      · exact .inl hold
      · obtain rfl : call' = call := by simpa using hnew
        exact .inr ⟨t, hlocal⟩
    · cases hs'
  | shutdown t =>
    simp only [Threads.otherStep, assert_eq_some_iff] at hs'
    obtain ⟨-, hs'⟩ := hs'
    split_ifs at hs'
    · obtain rfl := Option.some.inj hs'
      exact h.of_points rfl rfl fun call hcall => points_update hcall rfl (by simp) .inl
    · exact Option.some.inj hs' ▸ h
  | setState t =>
    simp only [Threads.otherStep, assert_eq_some_iff, Option.some.injEq] at hs'
    obtain ⟨-, rfl⟩ := hs'
    exact h.of_points rfl rfl fun call hcall => points_update hcall rfl (by simp) .inl
  | pushShutdown t =>
    simp only [Threads.otherStep, assert_eq_some_iff, Option.some.injEq] at hs'
    obtain ⟨-, rfl⟩ := hs'
    refine h.of_points rfl rfl fun call hcall => points_update hcall rfl (by simp)
      fun hmem => .inl ?_
    simpa using hmem
  | _ => cases hs'

omit [DecidableEq τ] in
/-- A step of the loop thread keeps the messages. -/
theorem Intact.loopStep {s s' : Threads τ} {a : Step τ} (h : s.Intact)
    (hs' : s.loopStep a = some s') : s'.Intact := by
  cases a with
  | runTask result garbage =>
    simp only [Threads.loopStep, assert_eq_some_iff] at hs'
    obtain ⟨-, hs'⟩ := hs'
    split at hs'
    · cases hs'
    · rename_i call tasks htasks
      obtain rfl := Option.some.inj hs'
      have hread := h.points call (.inl (htasks ▸ List.mem_cons_self))
      refine ⟨fun call' hcall' => h.points call' (hcall'.imp_left fun hmem => ?_), ?_⟩
      · rw [htasks]
        exact List.mem_cons_of_mem _ hmem
      · intro p hp
        rcases List.mem_append.mp hp with hold | hnew
        · exact h.sent p hold
        · obtain rfl := List.mem_singleton.mp hnew
          show (read s.memory call.data call.len).getD garbage = call.message
          rw [hread, Option.getD_some]
    · rename_i tasks htasks
      obtain rfl := Option.some.inj hs'
      refine h.of_points rfl rfl fun call hcall => hcall.imp_left fun hmem => ?_
      rw [htasks]
      exact List.mem_cons_of_mem _ hmem
  | call k => exact Option.some.inj hs' ▸ h.of_points rfl rfl fun _ hcall => hcall
  | disconnect => exact Option.some.inj hs' ▸ h.of_points rfl rfl fun _ hcall => hcall
  | overwrite data bytes => cases hs'
  | release data => cases hs'
  | send t data len => cases hs'
  | pushSend t => cases hs'
  | shutdown t => cases hs'
  | setState t => cases hs'
  | pushShutdown t => cases hs'
  | _ =>
    simp only [Threads.loopStep, assert_eq_some_iff] at hs'
    obtain ⟨-, hs'⟩ := hs'
    exact Option.some.inj hs' ▸ h.of_points rfl rfl fun _ hcall => hcall

/-- **One step keeps the messages**, if it leaves them alone. -/
theorem Intact.step {s s' : Threads τ} {a : Step τ} (hs' : s.step a = some s')
    (ha : s.Undisturbed a) (h : s.Intact) : s'.Intact := by
  rcases Option.or_eq_some_iff.mp hs' with hother | ⟨-, hloop⟩
  · exact h.otherStep hother ha
  · exact h.loopStep hloop

/-- The connection when `connectionEstablished` invokes its callback, with nobody else around. -/
def start (c : TcpConnection) : Threads τ where
  conn := { c with state_ := .kConnected, channel_ := c.channel_.enableRead }

/-- **A message is sent as it was at the call.** In every interleaving in which no thread changes or
releases the bytes that the functor of a send on another thread points to, until it has run: what
`sendInLoop` gets, to write or to buffer, are the bytes that the pointer led to at the call. -/
theorem sent_eq_message {c : TcpConnection} {steps : List (Step τ)} {s : Threads τ}
    (hrun : run step (start c) steps = some s) (hsteps : Along step Undisturbed (start c) steps) :
    ∀ p ∈ s.sent, p.2 = p.1 := by
  have hstart : (start c : Threads τ).Intact := by
    refine ⟨?_, nofun⟩
    rintro call (hmem | ⟨t, ht⟩)
    · cases hmem
    · cases ht
  exact (hsteps.invariant Intact.step hrun hstart).sent

/-- A message of another thread that is overwritten only after it was sent. -/
theorem sent_eq_message_overwritten :
    ∃ s : Threads Unit, run step (start (TcpConnection.new 5 true true true true {}))
      [.overwrite 0 [1, 2], .send () 0 2, .pushSend (), .runTask ⟨some 2, 0⟩ [], .overwrite 0 [3]] =
        some s ∧ written s.conn.log = [1, 2] ∧ ∀ p ∈ s.sent, p.2 = p.1 := by
  have hrun : (run step (start (TcpConnection.new 5 true true true true {}) : Threads Unit)
      [.overwrite 0 [1, 2], .send () 0 2, .pushSend (), .runTask ⟨some 2, 0⟩ [],
        .overwrite 0 [3]]).map (fun s => written s.conn.log) = some [1, 2] := by
    decide
  obtain ⟨s, hs, hwritten⟩ := Option.map_eq_some_iff.mp hrun
  refine ⟨s, hs, hwritten, sent_eq_message hs ⟨?_, fun s₁ h₁ => ⟨trivial, fun s₂ h₂ => ⟨trivial,
    fun s₃ h₃ => ⟨trivial, fun s₄ h₄ => ⟨?_, fun _ _ => trivial⟩⟩⟩⟩⟩⟩
  · rintro call (hmem | ⟨t, ht⟩)
    · cases hmem
    · cases ht
  · obtain rfl := Option.some.inj h₁
    obtain rfl := Option.some.inj h₂
    obtain rfl := Option.some.inj h₃
    obtain rfl := Option.some.inj h₄
    rintro call (hmem | ⟨t, ht⟩)
    · cases hmem
    · cases ht

/-- A message of another thread that is overwritten before its functor runs. -/
theorem sent_ne_message :
    ∃ s : Threads Unit, run step (start (TcpConnection.new 5 true true true true {}))
      [.overwrite 0 [1, 2], .send () 0 2, .pushSend (), .overwrite 0 [3, 4],
        .runTask ⟨some 2, 0⟩ []] = some s ∧ written s.conn.log = [3, 4] ∧
      ¬ ∀ p ∈ s.sent, p.2 = p.1 := by
  have hrun : (run step (start (TcpConnection.new 5 true true true true {}) : Threads Unit)
      [.overwrite 0 [1, 2], .send () 0 2, .pushSend (), .overwrite 0 [3, 4],
        .runTask ⟨some 2, 0⟩ []]).map (fun s => (written s.conn.log, s.sent)) =
      some ([3, 4], [([1, 2], [3, 4])]) := by
    decide
  obtain ⟨s, hs, heq⟩ := Option.map_eq_some_iff.mp hrun
  obtain ⟨hwritten, hsent⟩ := Prod.mk.inj heq
  refine ⟨s, hs, hwritten, ?_⟩
  rw [hsent]
  decide

end Threads

end LouisNet.Net
