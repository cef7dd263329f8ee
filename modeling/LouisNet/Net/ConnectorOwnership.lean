import LouisNet.Net.Connector
import Mathlib.Logic.Relation

set_option relaxedAutoImplicit false
set_option autoImplicit false

/-!
# Who owns a socket of the connector

A socket that `Connector::connect` creates belongs to the connector as long as its channel waits
in the poller, and then it is closed or handed over, once. The ledger says this without the
connector: at most one socket is waited for, and a socket is settled when the waiting ends. The
connector keeps to the ledger in every run without three situations: an event with both
`EPOLLERR` and `EPOLLOUT`, a `stopInLoop` between an error event and the `resetChannel` behind
it, and an attempt that begins while a channel is registered or still to be reset.

## Main definitions

* `LouisNet.Net.Connector.Ledger`, `LouisNet.Net.Connector.Ledger.Step` — the sockets, and what
  may happen to them.
* `LouisNet.Net.Connector.Allowed` — the inputs that keep to the ledger.
* `LouisNet.Net.Connector.Ownership` — every socket is closed or handed over, once.

## Main results

* `LouisNet.Net.Connector.Ledger.Balanced.step` — the invariant of the ledger.
* `LouisNet.Net.Connector.simulates_step` — an allowed step of the connector is steps of the
  ledger.
-/

namespace LouisNet.Net.Connector

open Reactor

/-! ## The ledger -/

/-- How often a socket has been closed or handed over. -/
def settled (log : List Action) (fd : ℕ) : ℕ := log.count (.close fd) + log.count (.handOver fd)

/-- What is appended to a log settles what it settles. -/
theorem settled_append (log log' : List Action) (fd : ℕ) :
    settled (log ++ log') fd = settled log fd + settled log' fd := by
  simp only [settled, List.count_append]
  omega

/-- The sockets of a connector: the one that is waited for, how many there are, and what has
happened to them. -/
structure Ledger where
  waiting : Option ℕ := none
  sockets : ℕ := 0
  log : List Action := []

namespace Ledger

/-- What may happen to the sockets: an attempt fails at once or begins, and the socket that is
waited for is closed, closed behind an error, or handed over. -/
inductive Step : Ledger → Ledger → Prop where
  | refuse (n : ℕ) (log : List Action) :
      Step ⟨none, n, log⟩ ⟨none, n + 1, log ++ [.create n, .close n]⟩
  | begin (n : ℕ) (log : List Action) :
      Step ⟨none, n, log⟩ ⟨some n, n + 1, log ++ [.create n]⟩
  | close (fd n : ℕ) (log : List Action) :
      Step ⟨some fd, n, log⟩ ⟨none, n, log ++ [.close fd]⟩
  | fail (fd n : ℕ) (log : List Action) :
      Step ⟨some fd, n, log⟩ ⟨none, n, log ++ [.error fd, .close fd]⟩
  | handOver (fd n : ℕ) (log : List Action) :
      Step ⟨some fd, n, log⟩ ⟨none, n, log ++ [.handOver fd]⟩

/-- **The invariant of the ledger**: the sockets created are the first ones, each of them is
either waited for or settled once, and those with an error have been closed. -/
structure Balanced (l : Ledger) : Prop where
  create_mem_iff : ∀ fd, .create fd ∈ l.log ↔ fd < l.sockets
  balance : ∀ fd, settled l.log fd + (if l.waiting = some fd then 1 else 0) =
    if fd < l.sockets then 1 else 0
  close_mem : ∀ fd, .error fd ∈ l.log → .close fd ∈ l.log

/-- The ledger at the beginning. -/
theorem balanced_empty : Balanced {} := ⟨by simp, by simp [settled], by simp⟩

/-- The ledger stays balanced when what is appended to the log creates the new sockets, settles
those that are no longer waited for, and closes those with an error. -/
theorem Balanced.append {w w' : Option ℕ} {n n' : ℕ} {log acts : List Action}
    (h : Balanced ⟨w, n, log⟩) (hn : n ≤ n')
    (hcreate : ∀ fd, .create fd ∈ acts ↔ n ≤ fd ∧ fd < n')
    (hsettled : ∀ fd, settled acts fd + (if w' = some fd then 1 else 0) =
      (if w = some fd then 1 else 0) + (if n ≤ fd ∧ fd < n' then 1 else 0))
    (hclose : ∀ fd, .error fd ∈ acts → .close fd ∈ acts) : Balanced ⟨w', n', log ++ acts⟩ := by
  refine ⟨?_, ?_, ?_⟩
  · intro fd
    have := h.create_mem_iff fd
    rw [List.mem_append, hcreate fd, this]
    show fd < n ∨ n ≤ fd ∧ fd < n' ↔ fd < n'
    omega
  · intro fd
    have hold := h.balance fd
    have hnew := hsettled fd
    simp only [settled_append] at hold ⊢
    split_ifs at hold hnew ⊢ <;> omega
  · intro fd hfd
    rw [List.mem_append] at hfd ⊢
    exact hfd.imp (h.close_mem fd) (hclose fd)

/-- **Each step keeps the ledger balanced.** -/
theorem Balanced.step {l l' : Ledger} (h : Balanced l) (hs : Step l l') : Balanced l' := by
  cases hs with
  | refuse n log =>
    refine h.append (Nat.le_succ n) (fun fd => ?_) (fun fd => ?_) (by simp)
    · simp only [List.mem_cons, Action.create.injEq, reduceCtorEq, List.not_mem_nil, or_false]
      omega
    · simp only [settled, List.count_cons, List.count_nil, beq_iff_eq, Action.close.injEq,
        reduceCtorEq, if_false]
      split_ifs <;> omega
  | begin n log =>
    refine h.append (Nat.le_succ n) (fun fd => ?_) (fun fd => ?_) (by simp)
    · simp only [List.mem_singleton, Action.create.injEq]
      omega
    · simp only [settled, List.count_cons, List.count_nil, beq_iff_eq, reduceCtorEq, if_false,
        Option.some.injEq]
      split_ifs <;> omega
  | close fd n log =>
    refine h.append le_rfl (fun k => ?_) (fun k => ?_) (by simp)
    · simp only [List.mem_singleton, reduceCtorEq, false_iff]
      omega
    · simp only [settled, List.count_cons, List.count_nil, beq_iff_eq, Action.close.injEq,
        reduceCtorEq, if_false, Option.some.injEq]
      split_ifs <;> omega
  | fail fd n log =>
    refine h.append le_rfl (fun k => ?_) (fun k => ?_) (by simp)
    · simp only [List.mem_cons, reduceCtorEq, List.not_mem_nil, or_self, false_iff]
      omega
    · simp only [settled, List.count_cons, List.count_nil, beq_iff_eq, Action.close.injEq,
        reduceCtorEq, if_false, Option.some.injEq]
      split_ifs <;> omega
  | handOver fd n log =>
    refine h.append le_rfl (fun k => ?_) (fun k => ?_) (by simp)
    · simp only [List.mem_singleton, reduceCtorEq, false_iff]
      omega
    · simp only [settled, List.count_cons, List.count_nil, beq_iff_eq, Action.handOver.injEq,
        reduceCtorEq, if_false, Option.some.injEq]
      split_ifs <;> omega

/-- Any number of steps keeps the ledger balanced. -/
theorem Balanced.steps {l l' : Ledger} (h : Balanced l) (hs : Relation.ReflTransGen Step l l') :
    Balanced l' := by
  induction hs with
  | refl => exact h
  | tail _ hstep ih => exact ih.step hstep

end Ledger

/-! ## The connector keeps to the ledger -/

/-- The ledger of a connector. -/
def ledger (c : Connector) : Ledger := ⟨c.waiting, c.sockets, c.log⟩

/-- **The invariant of the connector**: while a channel is registered, an attempt is under way and
no channel is to be reset. -/
def Placed (c : Connector) : Prop :=
  c.waiting ≠ none → c.state_ = .kConnecting ∧ .resetChannel ∉ c.tasks_

/-- The steps from one connector to another keep the invariant and are steps of the ledger. -/
def Simulates (c c' : Connector) : Prop :=
  Placed c' ∧ Relation.ReflTransGen Ledger.Step c.ledger c'.ledger

/-- An attempt begins. -/
def ConnectResult.Begins (result : ConnectResult) : Prop := result = .ok ∨ result = .EINPROGRESS

/-- A new attempt may be made: no channel is registered, and if the attempt begins, no channel is
to be reset. -/
def MayConnect (c : Connector) (result : ConnectResult) : Prop :=
  c.waiting = none ∧ (result.Begins → .resetChannel ∉ c.tasks_)

/-- Whether a call is allowed. -/
def CallAllowed (c : Connector) : Call → Prop
  | .start result => c.MayConnect result
  | .stop => True
  | .restart result => c.MayConnect result

/-- Whether a functor is allowed to run. -/
def TaskAllowed (c : Connector) (result : ConnectResult) : Task → Prop
  | .startInLoop => c.connected_ = true → c.MayConnect result
  | .stopInLoop => c.state_ = .kConnecting → c.channel_ = none ∨ c.waiting ≠ none
  | .resetChannel => True

/-- A call in `newConnectionCallback_` that does not begin an attempt. -/
def CallbackAllowed : Call → Prop
  | .start result => ¬ result.Begins
  | .stop => True
  | .restart result => ¬ result.Begins

/-- **The inputs that keep to the ledger.** A new attempt is made only while no channel is
registered, and it begins only when no channel is to be reset, so not in the callback either;
`stopInLoop` does not run between an error event and the `resetChannel` behind it; and no event
has both `EPOLLERR` and `EPOLLOUT`. -/
def Allowed (c : Connector) : Input → Prop
  | .call call => c.CallAllowed call
  | .startRemote => True
  | .runTask result => ∀ task ∈ c.tasks_.head?, c.TaskAllowed result task
  | .event revents calls =>
    ¬ (has revents EPOLLERR ∧ has revents EPOLLOUT) ∧ ∀ call ∈ calls, CallbackAllowed call

/-- An assertion that is passed. -/
theorem assert_eq_some_iff {NDEBUG : Bool} {p : Prop} [Decidable p] :
    assert NDEBUG p = some () ↔ NDEBUG = true ∨ p := by
  unfold assert
  split_ifs with h <;> simp [h]

/-- Without a registered channel the invariant says nothing. -/
theorem placed_of_waiting_eq_none {c : Connector} (h : c.waiting = none) : Placed c :=
  fun hne => absurd h hne

/-- Recording an action appends it to the ledger. -/
theorem ledger_record (c : Connector) (a : Action) :
    (c.record a).ledger = ⟨c.waiting, c.sockets, c.log ++ [a]⟩ := rfl

/-- The socket of a registered channel is taken, and its channel is removed from the poller. -/
theorem getSocket_of_waiting {c : Connector} {fd : ℕ} (h : c.waiting = some fd) :
    ∃ c', c.getSocket = some (c', fd) ∧ c'.ledger = ⟨none, c.sockets, c.log⟩ := by
  unfold waiting at h
  cases hch : c.channel_ with
  | none =>
    rw [hch] at h
    cases h
  | some ch =>
    simp only [hch] at h
    split_ifs at h
    have hfd : ch.disableAll.remove.fd_ = fd := by
      rw [← Option.some.inj h]
      exact Channel.fd_disableAll ch
    refine ⟨({ c with channel_ := some ch.disableAll.remove } : Connector).queueInLoop
      .resetChannel, ?_, rfl⟩
    simp only [getSocket, hch, hfd]

/-- A socket that has been taken is settled by an action: a step of the ledger. -/
theorem simulates_settle {c c' : Connector} {a : Action} {n : ℕ} {log : List Action}
    (hc : c.ledger = ⟨none, n, log⟩) (hstep : Ledger.Step c'.ledger ⟨none, n, log ++ [a]⟩) :
    Simulates c' (c.record a) := by
  obtain ⟨hw, rfl, rfl⟩ := Ledger.mk.inj hc
  refine ⟨placed_of_waiting_eq_none hw, .single ?_⟩
  rwa [ledger_record, hw]

/-- `connect` keeps to the ledger when a new attempt may be made. -/
theorem simulates_connect {NDEBUG : Bool} {c c' : Connector} {result : ConnectResult}
    (h : c.connect NDEBUG result = some c') (hmay : c.MayConnect result) : Simulates c c' := by
  obtain ⟨hw, hreset⟩ := hmay
  have hl : c.ledger = ⟨none, c.sockets, c.log⟩ := by rw [ledger, hw]
  have hbegin : ∀ {r : Option Connector}, r = c.createNonblockingSocket.1.connecting NDEBUG
      c.createNonblockingSocket.2 → r = some c' → .resetChannel ∉ c.tasks_ → Simulates c c' := by
    rintro r rfl h hreset
    have hassert : assert NDEBUG (c.createNonblockingSocket.1.waiting = none) = some () :=
      assert_eq_some_iff.mpr (.inr hw)
    rw [connecting, hassert] at h
    obtain rfl := Option.some.inj h
    refine ⟨fun _ => ⟨rfl, hreset⟩, .single ?_⟩
    rw [hl]
    exact .begin c.sockets c.log
  cases result with
  | noSocket =>
    obtain rfl := Option.some.inj h
    exact ⟨placed_of_waiting_eq_none hw, .refl⟩
  | ok => exact hbegin rfl h (hreset (.inl rfl))
  | EINPROGRESS => exact hbegin rfl h (hreset (.inr rfl))
  | failed =>
    obtain rfl := Option.some.inj h
    refine ⟨placed_of_waiting_eq_none hw, .single ?_⟩
    have hl' : (c.createNonblockingSocket.1.close c.createNonblockingSocket.2).ledger =
        ⟨none, c.sockets + 1, c.log ++ [.create c.sockets, .close c.sockets]⟩ := by
      have hlog : c.log ++ [.create c.sockets, .close c.sockets] =
          c.log ++ [.create c.sockets] ++ [.close c.sockets] := by simp
      rw [hlog, ← hw]
      rfl
    show Ledger.Step c.ledger
      (c.createNonblockingSocket.1.close c.createNonblockingSocket.2).ledger
    rw [hl, hl']
    exact .refuse c.sockets c.log

/-- `startInLoop` keeps to the ledger. -/
theorem simulates_startInLoop {NDEBUG : Bool} {c c' : Connector} {result : ConnectResult}
    (h : c.startInLoop NDEBUG result = some c') (hp : Placed c)
    (hmay : c.connected_ = true → c.MayConnect result) : Simulates c c' := by
  obtain ⟨-, -, h⟩ := Option.bind_eq_some_iff.mp h
  split_ifs at h with hc
  · exact simulates_connect h (hmay hc)
  · obtain rfl := Option.some.inj h
    exact ⟨hp, .refl⟩

/-- `stop` keeps to the ledger. -/
theorem simulates_stop {c : Connector} (hp : Placed c) : Simulates c c.stop := by
  refine ⟨fun hne => ⟨(hp hne).1, ?_⟩, .refl⟩
  have := (hp hne).2
  simp only [stop, queueInLoop, List.mem_append, List.mem_singleton, this, reduceCtorEq, or_self,
    not_false_eq_true]

/-- A call keeps to the ledger. -/
theorem simulates_runCall {NDEBUG : Bool} {c c' : Connector} {call : Call}
    (h : c.runCall NDEBUG call = some c') (hp : Placed c) (hok : c.CallAllowed call) :
    Simulates c c' := by
  cases call with
  | start result =>
    have h' : ({ c with connected_ := true } : Connector).startInLoop NDEBUG result = some c' := h
    have hsim := simulates_startInLoop h' hp fun _ => hok
    exact hsim
  | stop =>
    obtain rfl := Option.some.inj h
    exact simulates_stop hp
  | restart result =>
    have h' : ({ c with state_ := .kDisconnected, connected_ := true } : Connector).startInLoop
        NDEBUG result = some c' := h
    have hsim := simulates_startInLoop h' (placed_of_waiting_eq_none hok.1) fun _ => hok
    exact hsim

/-- `stopInLoop` keeps to the ledger: it closes the socket that is waited for. -/
theorem simulates_stopInLoop {c c' : Connector} (h : c.stopInLoop = some c') (hp : Placed c)
    (hok : c.state_ = .kConnecting → c.channel_ = none ∨ c.waiting ≠ none) : Simulates c c' := by
  unfold stopInLoop at h
  split_ifs at h with hs
  · rcases hok hs with hnone | hw
    · -- the null channel is used
      simp only [getSocket, hnone] at h
      cases h
    · obtain ⟨fd, hfd⟩ := Option.ne_none_iff_exists'.mp hw
      obtain ⟨c₁, hget, hl⟩ := @getSocket_of_waiting { c with state_ := .kDisconnected } fd hfd
      rw [hget] at h
      obtain rfl := Option.some.inj h
      refine simulates_settle hl ?_
      rw [ledger, hfd]
      exact .close fd c.sockets c.log
  · obtain rfl := Option.some.inj h
    exact ⟨hp, .refl⟩

/-- `resetChannel` keeps to the ledger when no channel is registered. -/
theorem simulates_resetChannel {NDEBUG : Bool} {c c' : Connector}
    (h : c.resetChannel NDEBUG = some c') (hw : c.waiting = none) : Simulates c c' := by
  obtain ⟨-, -, h⟩ := Option.bind_eq_some_iff.mp h
  obtain rfl := Option.some.inj h
  refine ⟨placed_of_waiting_eq_none rfl, ?_⟩
  rw [ledger, hw]
  exact .refl

/-- A functor keeps to the ledger. -/
theorem simulates_runFunctor {NDEBUG : Bool} {c c' : Connector} {result : ConnectResult}
    {task : Task} {tasks : List Task} (htasks : c.tasks_ = task :: tasks)
    (h : ({ c with tasks_ := tasks } : Connector).runFunctor NDEBUG result task = some c')
    (hp : Placed c) (hok : c.TaskAllowed result task) : Simulates c c' := by
  have hp' : Placed { c with tasks_ := tasks } := by
    intro hne
    refine ⟨(hp hne).1, fun hmem => (hp hne).2 ?_⟩
    rw [htasks]
    exact List.mem_cons_of_mem task hmem
  cases task with
  | startInLoop =>
    have hmay : c.connected_ = true → MayConnect { c with tasks_ := tasks } result := by
      intro hc
      refine ⟨(hok hc).1, fun hb hmem => (hok hc).2 hb ?_⟩
      rw [htasks]
      exact List.mem_cons_of_mem _ hmem
    have hsim := simulates_startInLoop h hp' hmay
    exact hsim
  | stopInLoop =>
    have hsim := simulates_stopInLoop h hp' hok
    exact hsim
  | resetChannel =>
    have hw : c.waiting = none := by
      by_contra hne
      refine (hp hne).2 ?_
      rw [htasks]
      exact List.mem_cons_self
    have hsim := simulates_resetChannel h hw
    exact hsim

/-- An attempt that does not begin registers no channel. -/
theorem waiting_startInLoop {NDEBUG : Bool} {c c' : Connector} {result : ConnectResult}
    (h : c.startInLoop NDEBUG result = some c') (hb : ¬ result.Begins) :
    c'.waiting = c.waiting := by
  obtain ⟨-, -, h⟩ := Option.bind_eq_some_iff.mp h
  split_ifs at h
  · cases result with
    | noSocket =>
      obtain rfl := Option.some.inj h
      rfl
    | ok => exact absurd (.inl rfl) hb
    | EINPROGRESS => exact absurd (.inr rfl) hb
    | failed =>
      obtain rfl := Option.some.inj h
      rfl
  · obtain rfl := Option.some.inj h
    rfl

/-- A call in the callback registers no channel and keeps to the ledger. -/
theorem simulates_runCall_callback {NDEBUG : Bool} {c c' : Connector} {call : Call}
    (h : c.runCall NDEBUG call = some c') (hw : c.waiting = none) (hok : CallbackAllowed call) :
    c'.waiting = none ∧ Relation.ReflTransGen Ledger.Step c.ledger c'.ledger := by
  have hallowed : c.CallAllowed call := by
    cases call with
    | start result => exact ⟨hw, fun hb => absurd hb hok⟩
    | stop => trivial
    | restart result => exact ⟨hw, fun hb => absurd hb hok⟩
  refine ⟨?_, (simulates_runCall h (placed_of_waiting_eq_none hw) hallowed).2⟩
  cases call with
  | start result =>
    have hwait := waiting_startInLoop h hok
    exact hwait.trans hw
  | stop =>
    obtain rfl := Option.some.inj h
    exact hw
  | restart result =>
    have hwait := waiting_startInLoop h hok
    exact hwait.trans hw

/-- The calls in the callback keep to the ledger, by induction on them. -/
theorem simulates_callback {NDEBUG : Bool} {calls : List Call} :
    ∀ {c c' : Connector}, calls.foldlM (runCall NDEBUG) c = some c' → c.waiting = none →
      (∀ call ∈ calls, CallbackAllowed call) →
      c'.waiting = none ∧ Relation.ReflTransGen Ledger.Step c.ledger c'.ledger := by
  induction calls with
  | nil =>
    intro c c' h hw _
    obtain rfl := Option.some.inj h
    exact ⟨hw, .refl⟩
  | cons call calls ih =>
    intro c c' h hw hok
    rw [List.foldlM_cons] at h
    obtain ⟨c₁, h₁, h₂⟩ := Option.bind_eq_some_iff.mp h
    obtain ⟨hw₁, hsteps₁⟩ := simulates_runCall_callback h₁ hw (hok call List.mem_cons_self)
    obtain ⟨hw₂, hsteps₂⟩ := ih h₂ hw₁ fun k hk => hok k (List.mem_cons_of_mem call hk)
    exact ⟨hw₂, hsteps₁.trans hsteps₂⟩

/-- `handleWrite` on the socket that is waited for hands it over. -/
theorem simulates_handleWrite {NDEBUG : Bool} {calls : List Call} {c c' : Connector} {fd : ℕ}
    (h : c.handleWrite NDEBUG calls = some c') (hw : c.waiting = some fd)
    (hs : c.state_ = .kConnecting) (hok : ∀ call ∈ calls, CallbackAllowed call) :
    Simulates c c' := by
  rw [handleWrite, if_pos hs] at h
  obtain ⟨c₁, hget, hl⟩ := @getSocket_of_waiting { c with state_ := .kConnected } fd hw
  rw [hget] at h
  have hstep : Ledger.Step c.ledger ⟨none, c.sockets, c.log ++ [.handOver fd]⟩ := by
    rw [ledger, hw]
    exact .handOver fd c.sockets c.log
  obtain ⟨-, hsteps₁⟩ := simulates_settle hl hstep
  obtain ⟨hw₂, hsteps₂⟩ := simulates_callback (c := c₁.record (.handOver fd)) h
    (congrArg Ledger.waiting hl) hok
  exact ⟨placed_of_waiting_eq_none hw₂, hsteps₁.trans hsteps₂⟩

/-- `handleError` on the socket that is waited for closes it. -/
theorem simulates_handleError {NDEBUG : Bool} {c c' : Connector} {fd : ℕ}
    (h : (c.record (.error fd)).handleError NDEBUG = some c') (hw : c.waiting = some fd) :
    Simulates c c' := by
  obtain ⟨-, -, h⟩ := Option.bind_eq_some_iff.mp h
  obtain ⟨c₁, hget, hl⟩ := @getSocket_of_waiting (c.record (.error fd)) fd hw
  rw [hget] at h
  obtain rfl := Option.some.inj h
  refine simulates_settle hl ?_
  have hlog : (c.record (.error fd)).log ++ [.close fd] = c.log ++ [.error fd, .close fd] := by
    simp [record]
  rw [ledger, hw, hlog]
  exact .fail fd c.sockets c.log

/-- An event keeps to the ledger when it does not have both `EPOLLERR` and `EPOLLOUT`. -/
theorem simulates_handleEvents {NDEBUG : Bool} {revents : UInt32} {calls : List Call}
    {c c' : Connector} (h : c.handleEvents NDEBUG revents calls = some c') (hp : Placed c)
    (hmask : ¬ (has revents EPOLLERR ∧ has revents EPOLLOUT))
    (hok : ∀ call ∈ calls, CallbackAllowed call) : Simulates c c' := by
  unfold handleEvents at h
  cases hw : c.waiting with
  | none =>
    simp only [hw] at h
    obtain rfl := Option.some.inj h
    exact ⟨hp, .refl⟩
  | some fd =>
    have hs : c.state_ = .kConnecting := (hp (by rw [hw]; simp)).1
    simp only [hw, Channel.handler, id_eq, ite_self] at h
    by_cases herr : has revents EPOLLERR = true
    · have hout : has revents EPOLLOUT = false := by
        simpa using fun hout => hmask ⟨herr, hout⟩
      simp only [herr, hout, if_true] at h
      exact simulates_handleError h hw
    · by_cases hout : has revents EPOLLOUT = true
      · simp only [herr, hout, if_true] at h
        exact simulates_handleWrite h hw hs hok
      · simp only [herr, hout] at h
        obtain rfl := Option.some.inj h
        exact ⟨hp, .refl⟩

/-- **An allowed step of the connector is steps of the ledger**, and keeps the invariant. -/
theorem simulates_step {NDEBUG : Bool} {c c' : Connector} {input : Input}
    (h : c.step NDEBUG input = some c') (hp : Placed c) (hok : c.Allowed input) :
    Simulates c c' := by
  cases input with
  | call call => exact simulates_runCall h hp hok
  | startRemote =>
    obtain rfl := Option.some.inj h
    refine ⟨fun hne => ⟨(hp hne).1, ?_⟩, .refl⟩
    have := (hp hne).2
    simp only [startRemote, queueInLoop, List.mem_append, List.mem_singleton, this, reduceCtorEq,
      or_self, not_false_eq_true]
  | runTask result =>
    unfold step at h
    cases htasks : c.tasks_ with
    | nil =>
      simp only [htasks] at h
      obtain rfl := Option.some.inj h
      exact ⟨hp, .refl⟩
    | cons task tasks =>
      simp only [htasks] at h
      refine simulates_runFunctor htasks h hp (hok task ?_)
      rw [htasks]
      rfl
  | event revents calls => exact simulates_handleEvents h hp hok.1 hok.2

/-! ## Runs -/

/-- All steps of a run are allowed. -/
def AllowedRun (NDEBUG : Bool) : Connector → List Input → Prop
  | _, [] => True
  | c, input :: inputs =>
    c.Allowed input ∧ ∀ c' ∈ c.step NDEBUG input, AllowedRun NDEBUG c' inputs

instance (result : ConnectResult) : Decidable result.Begins :=
  inferInstanceAs (Decidable (_ ∨ _))

instance (c : Connector) (result : ConnectResult) : Decidable (c.MayConnect result) :=
  inferInstanceAs (Decidable (_ ∧ (_ → _)))

instance (c : Connector) : (call : Call) → Decidable (c.CallAllowed call)
  | .start result => inferInstanceAs (Decidable (c.MayConnect result))
  | .stop => inferInstanceAs (Decidable True)
  | .restart result => inferInstanceAs (Decidable (c.MayConnect result))

instance (c : Connector) (result : ConnectResult) :
    (task : Task) → Decidable (c.TaskAllowed result task)
  | .startInLoop => inferInstanceAs (Decidable (_ → _))
  | .stopInLoop => inferInstanceAs (Decidable (_ → _ ∨ _))
  | .resetChannel => inferInstanceAs (Decidable True)

instance : (call : Call) → Decidable (CallbackAllowed call)
  | .start result => inferInstanceAs (Decidable (¬ result.Begins))
  | .stop => inferInstanceAs (Decidable True)
  | .restart result => inferInstanceAs (Decidable (¬ result.Begins))

instance (c : Connector) : (input : Input) → Decidable (c.Allowed input)
  | .call call => inferInstanceAs (Decidable (c.CallAllowed call))
  | .startRemote => inferInstanceAs (Decidable True)
  | .runTask _ => inferInstanceAs (Decidable (∀ _ ∈ _, _))
  | .event _ _ => inferInstanceAs (Decidable (_ ∧ ∀ _ ∈ _, _))

/-- Whether all steps of a run are allowed can be computed. -/
def decidableAllowedRun (NDEBUG : Bool) :
    (c : Connector) → (inputs : List Input) → Decidable (AllowedRun NDEBUG c inputs)
  | _, [] => inferInstanceAs (Decidable True)
  | c, input :: inputs =>
    haveI : DecidablePred fun c' => AllowedRun NDEBUG c' inputs := fun c' =>
      decidableAllowedRun NDEBUG c' inputs
    inferInstanceAs (Decidable (c.Allowed input ∧ ∀ c' ∈ c.step NDEBUG input,
      AllowedRun NDEBUG c' inputs))

instance (NDEBUG : Bool) (c : Connector) (inputs : List Input) :
    Decidable (AllowedRun NDEBUG c inputs) := decidableAllowedRun NDEBUG c inputs

/-- **A run of allowed steps is a run of the ledger**, by induction on the steps. -/
theorem simulates_run {NDEBUG : Bool} {inputs : List Input} :
    ∀ {c c' : Connector}, run NDEBUG c inputs = some c' → Placed c → AllowedRun NDEBUG c inputs →
      Simulates c c' := by
  induction inputs with
  | nil =>
    intro c c' h hp _
    obtain rfl := Option.some.inj h
    exact ⟨hp, .refl⟩
  | cons input inputs ih =>
    intro c c' h hp hok
    rw [run, List.foldlM_cons] at h
    obtain ⟨c₁, h₁, h₂⟩ := Option.bind_eq_some_iff.mp h
    obtain ⟨hp₁, hsteps₁⟩ := simulates_step h₁ hp hok.1
    obtain ⟨hp₂, hsteps₂⟩ := ih h₂ hp₁ (hok.2 c₁ h₁)
    exact ⟨hp₂, hsteps₁.trans hsteps₂⟩

/-- **Every socket is closed or handed over, once.** A socket that has been created has been
closed or handed over exactly once, not both, unless its channel is registered and it has been
neither; no other socket is closed or handed over; and a socket on which an error was reported
is not handed over. -/
structure Ownership (c : Connector) : Prop where
  settled_once : ∀ fd, .create fd ∈ c.log →
    settled c.log fd = 1 ∨ (c.waiting = some fd ∧ settled c.log fd = 0)
  create_mem : ∀ fd, settled c.log fd ≠ 0 → .create fd ∈ c.log
  not_handed_over : ∀ fd, .error fd ∈ c.log → .handOver fd ∉ c.log

/-- A balanced ledger says who owns the sockets. -/
theorem Ledger.Balanced.ownership {c : Connector} (h : c.ledger.Balanced) : Ownership c := by
  have hbalance : ∀ fd, settled c.log fd + (if c.waiting = some fd then 1 else 0) =
      if fd < c.sockets then 1 else 0 := h.balance
  refine ⟨?_, ?_, ?_⟩
  · intro fd hfd
    have hlt : fd < c.sockets := (h.create_mem_iff fd).mp hfd
    have hb := hbalance fd
    rw [if_pos hlt] at hb
    by_cases hw : c.waiting = some fd
    · rw [if_pos hw] at hb
      exact .inr ⟨hw, by omega⟩
    · rw [if_neg hw] at hb
      exact .inl hb
  · intro fd hne
    have hb := hbalance fd
    refine (h.create_mem_iff fd).mpr ?_
    show fd < c.sockets
    by_contra hge
    rw [if_neg hge] at hb
    omega
  · intro fd herr hover
    have hclose : 0 < c.log.count (.close fd) := List.count_pos_iff.mpr (h.close_mem fd herr)
    have hhand : 0 < c.log.count (.handOver fd) := List.count_pos_iff.mpr hover
    have hb := hbalance fd
    unfold settled at hb
    split_ifs at hb <;> omega

/-- **Socket ownership.** In every run of allowed steps, with assertions or without, and in every
state that it reaches, every socket of the connector has been closed or handed over exactly once,
or its channel is registered; and none is handed over behind an error.

**Proof sketch.** The connector simulates the ledger, which stays balanced. -/
theorem socket_ownership_of_allowed {NDEBUG : Bool} {inputs : List Input} {c : Connector}
    (hrun : run NDEBUG {} inputs = some c) (hok : AllowedRun NDEBUG {} inputs) : Ownership c := by
  obtain ⟨-, hsteps⟩ := simulates_run hrun (placed_of_waiting_eq_none rfl) hok
  exact (Ledger.balanced_empty.steps hsteps).ownership

/-- An attempt that fails behind an error event, and another one that is handed over. -/
theorem socket_ownership_of_allowed_restart :
    ∃ c, run false {} [.call (.start .EINPROGRESS), .event EPOLLERR [], .runTask .ok,
        .call (.restart .EINPROGRESS), .event EPOLLOUT [.stop], .runTask .ok] = some c ∧
      c.log = [.create 0, .error 0, .close 0, .create 1, .handOver 1] ∧ Ownership c := by
  have hrun : run false {} [.call (.start .EINPROGRESS), .event EPOLLERR [], .runTask .ok,
      .call (.restart .EINPROGRESS), .event EPOLLOUT [.stop], .runTask .ok] =
      some ⟨false, .kConnected, none, [.stopInLoop], 2,
        [.create 0, .error 0, .close 0, .create 1, .handOver 1]⟩ := by decide
  exact ⟨_, hrun, rfl, socket_ownership_of_allowed hrun (by decide)⟩

/-- An event with `EPOLLERR` and `EPOLLOUT`: the socket is closed, and then handed over. -/
theorem not_ownership_error_write :
    ∃ c, run false {} [.call (.start .EINPROGRESS), .event (EPOLLERR ||| EPOLLOUT) []] = some c ∧
      c.log = [.create 0, .error 0, .close 0, .handOver 0] ∧ ¬ Ownership c := by
  have hrun : run false {} [.call (.start .EINPROGRESS), .event (EPOLLERR ||| EPOLLOUT) []] =
      some ⟨true, .kConnected, some { fd_ := 0 }, [.resetChannel, .resetChannel], 1,
        [.create 0, .error 0, .close 0, .handOver 0]⟩ := by decide
  exact ⟨_, hrun, rfl, fun h => h.not_handed_over 0 (by decide) (by decide)⟩

-- `stopInLoop` between an error event and the `resetChannel` behind it closes a second time
example : (run false {} [.call (.start .EINPROGRESS), .call .stop, .event EPOLLERR [],
    .runTask .ok]).map (·.log) = some [.create 0, .error 0, .close 0, .close 0] := by decide

-- without assertions, a `resetChannel` behind the beginning of an attempt loses its socket
example : (run true {} [.call (.start .EINPROGRESS), .call .stop, .runTask .ok,
    .call (.start .ok), .runTask .ok]).map (fun c => (c.waiting, c.log)) =
      some (none, [.create 0, .close 0, .create 1]) := by decide

end LouisNet.Net.Connector
