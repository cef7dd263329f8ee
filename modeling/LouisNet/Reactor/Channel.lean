import Mathlib.Tactic

set_option relaxedAutoImplicit false
set_option autoImplicit false

/-!
# Channels

The class `Channel` of `src/net/reactor/Channel.h` and `src/net/reactor/Channel.cc`: the events a
descriptor is registered for, and the dispatch of the events that have occurred to four
callbacks. What `Poller::updateChannel` and `Poller::removeChannel` do to the channel itself, the
change of its `index_`, is part of the model; a callback is a function on the state of the
object that owns the channel.

## Main definitions

* `LouisNet.Reactor.Channel` — the registration of a descriptor.
* `LouisNet.Reactor.Channel.handler` — the dispatch of an event mask.

## Main results

* `LouisNet.Reactor.Channel.handler_rel` — from the four callbacks to the dispatch.
* `LouisNet.Reactor.Channel.isWriting_enableWrite`,
  `LouisNet.Reactor.Channel.isWriting_disableWrite` — interest in writing.
-/

namespace LouisNet.Reactor

/-! ## Event masks -/

/-- `EPOLLIN`. -/
def EPOLLIN : UInt32 := 0x001

/-- `EPOLLPRI`. -/
def EPOLLPRI : UInt32 := 0x002

/-- `EPOLLOUT`. -/
def EPOLLOUT : UInt32 := 0x004

/-- `EPOLLERR`. -/
def EPOLLERR : UInt32 := 0x008

/-- `EPOLLHUP`. -/
def EPOLLHUP : UInt32 := 0x010

/-- `EPOLLRDHUP`. -/
def EPOLLRDHUP : UInt32 := 0x2000

/-- `EPOLLET`. -/
def EPOLLET : UInt32 := 0x80000000

/-- Some bit of `flags` is set in `mask`. -/
def has (mask flags : UInt32) : Bool := mask &&& flags != 0

/-! ## The class -/

/-- The state of a channel in the poller: `kNew`, `kAdded` or `kDeleted`. -/
inductive Index where
  | kNew
  | kAdded
  | kDeleted
  deriving DecidableEq, Repr

/-- `Channel`. -/
structure Channel where
  fd_ : ℕ
  events_ : UInt32 := 0
  index_ : Index := .kNew
  isInLoop_ : Bool := false
  deriving DecidableEq, Repr

namespace Channel

/-- No events. -/
def kNoneEvent : UInt32 := 0

/-- Data and urgent data to read. -/
def kReadEvent : UInt32 := EPOLLIN ||| EPOLLPRI

/-- Room to write. -/
def kWriteEvent : UInt32 := EPOLLOUT

/-- `Channel::isNoneEvent`. -/
def isNoneEvent (ch : Channel) : Bool := ch.events_ == kNoneEvent

/-- `Channel::isReading`. -/
def isReading (ch : Channel) : Bool := has ch.events_ kReadEvent

/-- `Channel::isWriting`. -/
def isWriting (ch : Channel) : Bool := has ch.events_ kWriteEvent

/-- `Channel::update`, with the change of `index_` that `Poller::updateChannel` makes: a channel
that is not registered is added, and one without events is taken out again. -/
def update (ch : Channel) : Channel :=
  let ch := { ch with isInLoop_ := true }
  match ch.index_ with
  | .kNew => { ch with index_ := .kAdded }
  | .kDeleted => { ch with index_ := .kAdded }
  | .kAdded => if ch.events_ = kNoneEvent then { ch with index_ := .kDeleted } else ch

/-- `Channel::remove`, with the change of `index_` that `Poller::removeChannel` makes. -/
def remove (ch : Channel) : Channel := { ch with isInLoop_ := false, index_ := .kNew }

/-- `Channel::enableRead`. -/
def enableRead (ch : Channel) : Channel := update { ch with events_ := ch.events_ ||| kReadEvent }

/-- `Channel::disableRead`. -/
def disableRead (ch : Channel) : Channel :=
  update { ch with events_ := ch.events_ &&& ~~~ kReadEvent }

/-- `Channel::enableWrite`. -/
def enableWrite (ch : Channel) : Channel := update { ch with events_ := ch.events_ ||| kWriteEvent }

/-- `Channel::disableWrite`. -/
def disableWrite (ch : Channel) : Channel :=
  update { ch with events_ := ch.events_ &&& ~~~ kWriteEvent }

/-- `Channel::disableAll`. -/
def disableAll (ch : Channel) : Channel := update { ch with events_ := kNoneEvent }

/-- `Channel::handler`: the callbacks that a mask of occurred events calls, in this order. -/
def handler {α : Type*} (revents_ : UInt32)
    (closeCallback_ errorCallback_ readCallback_ writeCallback_ : α → α) (a : α) : α :=
  let a := if has revents_ EPOLLHUP && !has revents_ EPOLLIN then closeCallback_ a else a
  let a := if has revents_ EPOLLERR then errorCallback_ a else a
  let a := if has revents_ (EPOLLIN ||| EPOLLPRI ||| EPOLLRDHUP) then readCallback_ a else a
  if has revents_ EPOLLOUT then writeCallback_ a else a

/-- What each callback does, in the sense of a reflexive and transitive relation, an event
does. -/
theorem handler_rel {α : Type*} {R : α → α → Prop} (hrefl : ∀ a, R a a)
    (htrans : ∀ {a b c}, R a b → R b c → R a c) {close error read write : α → α}
    (hclose : ∀ a, R a (close a)) (herror : ∀ a, R a (error a)) (hread : ∀ a, R a (read a))
    (hwrite : ∀ a, R a (write a)) (revents : UInt32) (a : α) :
    R a (handler revents close error read write a) := by
  have hif : ∀ (b : Bool) {f : α → α}, (∀ a, R a (f a)) → ∀ a, R a (if b then f a else a) := by
    intro b f hf a
    cases b
    · exact hrefl a
    · exact hf a
  unfold handler
  dsimp only
  refine htrans ?_ (hif (has revents EPOLLOUT) hwrite _)
  refine htrans ?_ (hif (has revents (EPOLLIN ||| EPOLLPRI ||| EPOLLRDHUP)) hread _)
  refine htrans ?_ (hif (has revents EPOLLERR) herror _)
  exact hif (has revents EPOLLHUP && !has revents EPOLLIN) hclose a

/-! ## Interest in writing -/

/-- The poller does not change the events. -/
@[simp] theorem events_update (ch : Channel) : ch.update.events_ = ch.events_ := by
  unfold update
  dsimp only
  split
  · rfl
  · rfl
  · split_ifs <;> rfl

/-- The poller does not change the descriptor. -/
theorem fd_disableAll (ch : Channel) : ch.disableAll.fd_ = ch.fd_ := by
  unfold disableAll update
  dsimp only
  split
  · rfl
  · rfl
  · split_ifs <;> rfl

/-- A set flag is found. -/
private theorem has_or_self (mask flags : UInt32) (h : flags ≠ 0) : has (mask ||| flags) flags := by
  have : (mask ||| flags) &&& flags = flags := by
    apply UInt32.toBitVec_inj.mp
    ext i
    simpa using Or.inr
  simp [has, this, h]

/-- A flag that has been cleared is not found. -/
private theorem has_and_not (mask flags : UInt32) : has (mask &&& ~~~ flags) flags = false := by
  have : (mask &&& ~~~ flags) &&& flags = 0 := by
    apply UInt32.toBitVec_inj.mp
    ext i
    simp
  simp [has, this]

/-- Setting other flags does not change whether a flag is found. -/
private theorem has_or_of_and_eq_zero (mask other flags : UInt32) (h : other &&& flags = 0) :
    has (mask ||| other) flags = has mask flags := by
  have : (mask ||| other) &&& flags = mask &&& flags := by
    have hd : (mask ||| other) &&& flags = (mask &&& flags) ||| (other &&& flags) :=
      UInt32.toBitVec_inj.mp BitVec.and_or_distrib_right
    rw [hd, h, UInt32.or_zero]
  simp [has, this]

/-- A channel that has been enabled for writing is interested in it. -/
@[simp] theorem isWriting_enableWrite (ch : Channel) : ch.enableWrite.isWriting = true := by
  unfold isWriting enableWrite
  rw [events_update]
  exact has_or_self _ _ (by decide)

/-- A channel that has been disabled for writing is not interested in it. -/
@[simp] theorem isWriting_disableWrite (ch : Channel) : ch.disableWrite.isWriting = false := by
  unfold isWriting disableWrite
  rw [events_update]
  exact has_and_not _ _

/-- Interest in reading does not change the interest in writing. -/
@[simp] theorem isWriting_enableRead (ch : Channel) : ch.enableRead.isWriting = ch.isWriting := by
  unfold isWriting enableRead
  rw [events_update]
  exact has_or_of_and_eq_zero _ _ _ (by decide)

end Channel

end LouisNet.Reactor
