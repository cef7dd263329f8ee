import LouisNet.Lib.Run
import LouisNet.Reactor.Channel

set_option relaxedAutoImplicit false
set_option autoImplicit false

/-!
# The poller

The class `Poller` of `src/net/reactor/Poller.cc`, with the channels of its loop and the interest
set of its `epoll` instance. A channel is known by its address, an element of an arbitrary type
`ι`. An operation whose assertion fails does not return. An `epoll_ctl` that the kernel refuses
leaves the interest set as it is, and the poller goes on; every call is recorded, together with
whether the descriptor was in the set.

## Main definitions

* `LouisNet.Reactor.Poller` — the poller, its channels and the interest set of the kernel.
* `LouisNet.Reactor.Poller.updateChannel`, `LouisNet.Reactor.Poller.removeChannel` — registration.
* `LouisNet.Reactor.Poller.Coherent` — the channels, `fdMap_` and the kernel agree.

## Main results

* `LouisNet.Reactor.Poller.coherent_run` — they agree after every sequence of operations.
* `LouisNet.Reactor.Poller.step_eq_none_iff` — which operations are refused.
* `LouisNet.Reactor.Poller.channel_step` — a channel changes as its own model says.
* `LouisNet.Reactor.Poller.disable_silences_iff` — what a call that takes the last interest does.
-/

namespace LouisNet.Reactor

open Lib

/-- The operations of `epoll_ctl`. -/
inductive Operation where
  | EPOLL_CTL_ADD
  | EPOLL_CTL_MOD
  | EPOLL_CTL_DEL
  deriving DecidableEq, Repr

/-- The entry that a successful operation leaves for its descriptor. -/
def Operation.entry {α : Type*} (event : α) : Operation → Option α
  | .EPOLL_CTL_ADD => some event
  | .EPOLL_CTL_MOD => some event
  | .EPOLL_CTL_DEL => none

/-- A call of `epoll_ctl`. -/
structure EpollCtl where
  operation : Operation
  fd : ℕ
  /-- The descriptor is in the interest set when the call is made. -/
  present : Bool
  deriving DecidableEq, Repr

/-- A call that the kernel does not refuse: only an absent descriptor is added, and only a present
one is modified or deleted. -/
def EpollCtl.Legal (call : EpollCtl) : Prop :=
  call.present = match call.operation with
    | .EPOLL_CTL_ADD => false
    | .EPOLL_CTL_MOD => true
    | .EPOLL_CTL_DEL => true

instance (call : EpollCtl) : Decidable call.Legal := inferInstanceAs (Decidable (_ = _))

/-- A poller, the channels of its loop, and the interest set of its `epoll` instance. -/
structure Poller (ι : Type*) where
  /-- The channels, by their addresses. -/
  channel : ι → Channel
  fdMap_ : ℕ → Option ι := fun _ => none
  /-- The mask and the `data.ptr` with which a descriptor is in the interest set. -/
  interest : ℕ → Option (UInt32 × ι) := fun _ => none
  /-- The calls of `epoll_ctl`, oldest first. -/
  calls : List EpollCtl := []

namespace Poller

variable {ι : Type*} [DecidableEq ι]

/-! ## Registration -/

/-- Write to a channel. -/
def setChannel (p : Poller ι) (c : ι) (ch : Channel) : Poller ι :=
  { p with channel := Function.update p.channel c ch }

/-- `Channel::setIndex`. -/
def setIndex (p : Poller ι) (c : ι) (index : Index) : Poller ι :=
  p.setChannel c { p.channel c with index_ := index }

omit [DecidableEq ι] in
/-- `epoll_ctl`. -/
def epollCtl (p : Poller ι) (operation : Operation) (fd : ℕ) (event : UInt32 × ι) : Poller ι :=
  let call : EpollCtl := ⟨operation, fd, (p.interest fd).isSome⟩
  { p with
    interest :=
      if call.Legal then Function.update p.interest fd (operation.entry event) else p.interest
    calls := p.calls ++ [call] }

/-- `Poller::update`. -/
def update (p : Poller ι) (operation : Operation) (c : ι) : Poller ι :=
  p.epollCtl operation (p.channel c).fd_ ((p.channel c).events_ ||| EPOLLET, c)

/-- `Poller::updateChannel`. -/
def updateChannel (p : Poller ι) (c : ι) : Option (Poller ι) :=
  let fd := (p.channel c).fd_
  match (p.channel c).index_ with
  | .kNew =>
    assert (p.fdMap_ fd = none) <|
    let p := { p with fdMap_ := Function.update p.fdMap_ fd (some c) }
    some ((p.update .EPOLL_CTL_ADD c).setIndex c .kAdded)
  | .kDeleted =>
    assert (p.fdMap_ fd = some c) <|
    some ((p.update .EPOLL_CTL_ADD c).setIndex c .kAdded)
  | .kAdded =>
    assert (p.fdMap_ fd = some c) <|
    if (p.channel c).events_ = Channel.kNoneEvent then
      some ((p.update .EPOLL_CTL_DEL c).setIndex c .kDeleted)
    else
      some (p.update .EPOLL_CTL_MOD c)

/-- `Poller::removeChannel`. -/
def removeChannel (p : Poller ι) (c : ι) : Option (Poller ι) :=
  let fd := (p.channel c).fd_
  assert (p.fdMap_ fd = some c) <|
  assert (p.channel c).isNoneEvent <|
  let index := (p.channel c).index_
  assert (index = .kDeleted ∨ index = .kAdded) <|
  let p := { p with fdMap_ := Function.update p.fdMap_ fd none }
  let p := if index = .kAdded then p.update .EPOLL_CTL_DEL c else p
  some (p.setIndex c .kNew)

/-! ## The operations of a channel -/

/-- The operations of `Channel` that change its registration. -/
inductive Op where
  | enableRead
  | disableRead
  | enableWrite
  | disableWrite
  | disableAll
  | remove
  deriving DecidableEq, Repr

/-- `Channel::update`, after the events of the channel have been set. -/
def channelUpdate (p : Poller ι) (c : ι) (events : UInt32) : Option (Poller ι) :=
  (p.setChannel c { p.channel c with events_ := events, isInLoop_ := true }).updateChannel c

/-- `Channel::remove`. -/
def channelRemove (p : Poller ι) (c : ι) : Option (Poller ι) :=
  (p.setChannel c { p.channel c with isInLoop_ := false }).removeChannel c

/-- One operation on one of the channels. -/
def step (p : Poller ι) : ι × Op → Option (Poller ι)
  | (c, .enableRead) => p.channelUpdate c ((p.channel c).events_ ||| Channel.kReadEvent)
  | (c, .disableRead) => p.channelUpdate c ((p.channel c).events_ &&& ~~~ Channel.kReadEvent)
  | (c, .enableWrite) => p.channelUpdate c ((p.channel c).events_ ||| Channel.kWriteEvent)
  | (c, .disableWrite) => p.channelUpdate c ((p.channel c).events_ &&& ~~~ Channel.kWriteEvent)
  | (c, .disableAll) => p.channelUpdate c Channel.kNoneEvent
  | (c, .remove) => p.channelRemove c

/-- A new poller: its channels have their descriptors and nothing else, and more than one channel
may have the same descriptor. -/
def ofFds (fd : ι → ℕ) : Poller ι where
  channel := fun c => { fd_ := fd c }

/-! ## Coherence -/

/-- The three views of a registration agree, and no call of `epoll_ctl` was refused. -/
structure Coherent (p : Poller ι) : Prop where
  /-- `fdMap_` has the channels that are not new. -/
  fdMap_iff : ∀ fd c, p.fdMap_ fd = some c ↔
    (p.channel c).fd_ = fd ∧ (p.channel c).index_ ≠ .kNew
  /-- The kernel has the channels that are added, with their events. -/
  interest_iff : ∀ fd event, p.interest fd = some event ↔
    ∃ c, (p.channel c).fd_ = fd ∧ (p.channel c).index_ = .kAdded ∧
      event = ((p.channel c).events_ ||| EPOLLET, c)
  /-- A deleted channel has no events. -/
  events_of_deleted : ∀ c, (p.channel c).index_ = .kDeleted →
    (p.channel c).events_ = Channel.kNoneEvent
  /-- A channel knows whether it is registered. -/
  isInLoop_iff : ∀ c, (p.channel c).isInLoop_ = true ↔ (p.channel c).index_ ≠ .kNew
  /-- The kernel refused nothing. -/
  legal : ∀ call ∈ p.calls, call.Legal

omit [DecidableEq ι] in
/-- A new poller is coherent. -/
theorem coherent_ofFds (fd : ι → ℕ) : (ofFds fd).Coherent where
  fdMap_iff := by simp [ofFds]
  interest_iff := by simp [ofFds]
  events_of_deleted := by simp [ofFds]
  isInLoop_iff := by simp [ofFds]
  legal := by simp [ofFds]

omit [DecidableEq ι] in
/-- Two registered channels with one descriptor are the same. -/
theorem Coherent.index_of_ne {p : Poller ι} (h : p.Coherent) {c d : ι} {fd : ℕ}
    (hc : p.fdMap_ fd = none ∨ p.fdMap_ fd = some c) (hne : d ≠ c)
    (hd : (p.channel d).fd_ = fd) : (p.channel d).index_ = .kNew := by
  by_contra hindex
  have hmap := (h.fdMap_iff fd d).mpr ⟨hd, hindex⟩
  rcases hc with hc | hc
  · simp [hc] at hmap
  · rw [hc] at hmap
    exact hne (Option.some.inj hmap).symm

omit [DecidableEq ι] in
/-- A descriptor is in the interest set if and only if its channel is added. -/
theorem Coherent.isSome_interest {p : Poller ι} (h : p.Coherent) {c : ι} {fd : ℕ}
    (hc : p.fdMap_ fd = some c) :
    (p.interest fd).isSome = true ↔ (p.channel c).index_ = .kAdded := by
  have hfd := ((h.fdMap_iff fd c).mp hc).1
  constructor
  · intro hsome
    obtain ⟨event, hevent⟩ := Option.isSome_iff_exists.mp hsome
    obtain ⟨d, hd, hindex, -⟩ := (h.interest_iff fd event).mp hevent
    obtain rfl : d = c := by
      by_contra hne
      simp [h.index_of_ne (.inr hc) hne hd] at hindex
    exact hindex
  · intro hindex
    rw [(h.interest_iff fd _).mpr ⟨c, hfd, hindex, rfl⟩]
    rfl

omit [DecidableEq ι] in
/-- A descriptor without a channel is not in the interest set. -/
theorem Coherent.interest_eq_none {p : Poller ι} (h : p.Coherent) {fd : ℕ}
    (hc : p.fdMap_ fd = none) : p.interest fd = none := by
  by_contra hne
  obtain ⟨event, hevent⟩ := Option.ne_none_iff_exists'.mp hne
  obtain ⟨d, hd, hindex, -⟩ := (h.interest_iff fd event).mp hevent
  have hmap := (h.fdMap_iff fd d).mpr ⟨hd, by simp [hindex]⟩
  simp [hc] at hmap

/-- The registration of one channel changes, in all three views.

**Proof sketch.** No other channel with the same descriptor is registered, so the entries for that
descriptor belong to `c`; the entries for other descriptors belong to channels that have not
changed. -/
theorem Coherent.register {p p' : Poller ι} {c : ι} (h : p.Coherent) (ch : Channel)
    (hfd : (p.channel c).fd_ = ch.fd_)
    (hc : p.fdMap_ ch.fd_ = none ∨ p.fdMap_ ch.fd_ = some c)
    (hchannel : p'.channel = Function.update p.channel c ch)
    (hfdMap : p'.fdMap_ = Function.update p.fdMap_ ch.fd_
      (if ch.index_ = .kNew then none else some c))
    (hinterest : p'.interest = Function.update p.interest ch.fd_
      (if ch.index_ = .kAdded then some (ch.events_ ||| EPOLLET, c) else none))
    (hdeleted : ch.index_ = .kDeleted → ch.events_ = Channel.kNoneEvent)
    (hloop : ch.isInLoop_ = true ↔ ch.index_ ≠ .kNew)
    (hlegal : ∀ call ∈ p'.calls, call.Legal) : p'.Coherent := by
  have hother : ∀ {d}, d ≠ c → (p.channel d).fd_ = ch.fd_ → (p.channel d).index_ = .kNew :=
    fun hne hd => h.index_of_ne hc hne hd
  refine ⟨?_, ?_, ?_, ?_, hlegal⟩
  · intro fd d
    rw [hfdMap, hchannel]
    by_cases hd : d = c
    · subst hd
      by_cases hf : fd = ch.fd_
      · subst hf
        by_cases hnew : ch.index_ = .kNew <;> simp [hnew]
      · rw [Function.update_of_ne hf, h.fdMap_iff fd d, hfd]
        simp [Ne.symm hf]
    · rw [Function.update_of_ne hd]
      by_cases hf : fd = ch.fd_
      · subst hf
        by_cases hnew : ch.index_ = .kNew
        · simpa [hnew] using hother hd
        · simpa [hnew, Ne.symm hd] using hother hd
      · rw [Function.update_of_ne hf, h.fdMap_iff fd d]
  · intro fd event
    rw [hinterest, hchannel]
    by_cases hf : fd = ch.fd_
    · subst hf
      rw [Function.update_self]
      constructor
      · intro hevent
        split_ifs at hevent with hadded
        exact ⟨c, by simp, by simpa using hadded, by simpa using (Option.some.inj hevent).symm⟩
      · rintro ⟨d, hd, hindex, rfl⟩
        obtain rfl : d = c := by
          by_contra hne
          rw [Function.update_of_ne hne] at hd hindex
          simp [hother hne hd] at hindex
        rw [Function.update_self] at hindex ⊢
        rw [if_pos hindex]
    · rw [Function.update_of_ne hf, h.interest_iff fd event]
      refine exists_congr fun d => ?_
      by_cases hd : d = c
      · subst hd
        simp [hfd, Ne.symm hf]
      · rw [Function.update_of_ne hd]
  · intro d
    rw [hchannel]
    by_cases hd : d = c
    · subst hd
      simpa using hdeleted
    · rw [Function.update_of_ne hd]
      exact h.events_of_deleted d
  · intro d
    rw [hchannel]
    by_cases hd : d = c
    · subst hd
      simpa using hloop
    · rw [Function.update_of_ne hd]
      exact h.isInLoop_iff d

omit [DecidableEq ι] in
/-- An operation that the kernel does not refuse. -/
theorem interest_update {p : Poller ι} {operation : Operation} {c : ι}
    (h : EpollCtl.Legal ⟨operation, (p.channel c).fd_, (p.interest (p.channel c).fd_).isSome⟩) :
    (p.update operation c).interest = Function.update p.interest (p.channel c).fd_
      (operation.entry ((p.channel c).events_ ||| EPOLLET, c)) := by
  unfold update epollCtl
  exact if_pos h

omit [DecidableEq ι] in
/-- An operation that the kernel does not refuse leaves a record of legal calls. -/
theorem legal_update {p : Poller ι} {operation : Operation} {c : ι}
    (hp : ∀ call ∈ p.calls, call.Legal)
    (h : EpollCtl.Legal ⟨operation, (p.channel c).fd_, (p.interest (p.channel c).fd_).isSome⟩) :
    ∀ call ∈ (p.update operation c).calls, call.Legal := by
  intro call hcall
  rcases List.mem_append.mp hcall with hold | hnew
  · exact hp call hold
  · obtain rfl := List.mem_singleton.mp hnew
    exact h

/-- A channel is written to, a legal `epoll_ctl` is made for it, and its index is set. -/
theorem Coherent.control {p : Poller ι} {c : ι} {fdMap : ℕ → Option ι} (h : p.Coherent)
    (ch : Channel) (operation : Operation) (index : Index) (hfd : (p.channel c).fd_ = ch.fd_)
    (hc : p.fdMap_ ch.fd_ = none ∨ p.fdMap_ ch.fd_ = some c)
    (hfdMap : fdMap = Function.update p.fdMap_ ch.fd_ (if index = .kNew then none else some c))
    (hlegal : EpollCtl.Legal ⟨operation, ch.fd_, (p.interest ch.fd_).isSome⟩)
    (hentry : ∀ event : UInt32 × ι,
      operation.entry event = if index = .kAdded then some event else none)
    (hdeleted : index = .kDeleted → ch.events_ = Channel.kNoneEvent)
    (hloop : ch.isInLoop_ = true ↔ index ≠ .kNew) :
    ((({ p with fdMap_ := fdMap }.setChannel c ch).update operation c).setIndex c index).Coherent
    := by
  have hch : ({ p with fdMap_ := fdMap }.setChannel c ch).channel c = ch := Function.update_self ..
  have hlegal' : EpollCtl.Legal ⟨operation,
      (({ p with fdMap_ := fdMap }.setChannel c ch).channel c).fd_,
      (p.interest (({ p with fdMap_ := fdMap }.setChannel c ch).channel c).fd_).isSome⟩ := by
    rwa [hch]
  refine h.register { ch with index_ := index } hfd hc ?_ hfdMap ?_ hdeleted hloop ?_
  · simp [setIndex, setChannel, update, epollCtl]
  · refine (interest_update hlegal').trans ?_
    rw [hch, hentry]
    rfl
  · exact legal_update h.legal hlegal'

/-- An index that is set to what it is. -/
theorem setIndex_self {p : Poller ι} {c : ι} {index : Index} (h : (p.channel c).index_ = index) :
    p.setIndex c index = p := by
  subst h
  simp [setIndex, setChannel]

/-- `Channel::update` keeps the three views together. -/
theorem Coherent.channelUpdate {p p' : Poller ι} {c : ι} {events : UInt32} (h : p.Coherent)
    (hp' : p.channelUpdate c events = some p') : p'.Coherent := by
  unfold Poller.channelUpdate updateChannel at hp'
  dsimp only at hp'
  obtain ⟨ch, hch⟩ : ∃ ch, ch = { p.channel c with events_ := events, isInLoop_ := true } :=
    ⟨_, rfl⟩
  have hself : (p.setChannel c ch).channel c = ch := Function.update_self ..
  have hfd : (p.channel c).fd_ = ch.fd_ := by rw [hch]
  have hold : (p.channel c).index_ = ch.index_ := by rw [hch]
  have hloop : ch.isInLoop_ = true := by rw [hch]
  rw [← hch, hself] at hp'
  have hsame : p.fdMap_ ch.fd_ = some c →
      p.fdMap_ = Function.update p.fdMap_ ch.fd_ (some c) := by
    intro hmap
    rw [← hmap, Function.update_eq_self]
  cases hindex : ch.index_ with
  | kNew =>
    simp only [hindex, assert_eq_some_iff, Option.some.injEq] at hp'
    obtain ⟨hmap, rfl⟩ := hp'
    have hmap : p.fdMap_ ch.fd_ = none := hmap
    refine h.control ch .EPOLL_CTL_ADD .kAdded hfd (.inl hmap) rfl ?_ (fun _ => rfl)
      (by simp) (by simp [hloop])
    simp [EpollCtl.Legal, h.interest_eq_none hmap]
  | kDeleted =>
    simp only [hindex, assert_eq_some_iff, Option.some.injEq] at hp'
    obtain ⟨hmap, rfl⟩ := hp'
    have hmap : p.fdMap_ ch.fd_ = some c := hmap
    refine h.control ch .EPOLL_CTL_ADD .kAdded hfd (.inr hmap) (hsame hmap) ?_ (fun _ => rfl)
      (by simp) (by simp [hloop])
    have hnone := (h.isSome_interest hmap).not.mpr (by simp [hold, hindex])
    simpa [EpollCtl.Legal] using hnone
  | kAdded =>
    simp only [hindex, assert_eq_some_iff] at hp'
    obtain ⟨hmap, hp'⟩ := hp'
    have hmap : p.fdMap_ ch.fd_ = some c := hmap
    have hsome := (h.isSome_interest hmap).mpr (hold.trans hindex)
    split_ifs at hp' with hnone
    · obtain rfl := Option.some.inj hp'
      refine h.control ch .EPOLL_CTL_DEL .kDeleted hfd (.inr hmap) (hsame hmap) ?_ (fun _ => rfl)
        (fun _ => hnone) (by simp [hloop])
      simpa [EpollCtl.Legal] using hsome
    · obtain rfl := Option.some.inj hp'
      have hcontrol := h.control ch .EPOLL_CTL_MOD .kAdded hfd (.inr hmap) (hsame hmap)
        (by simpa [EpollCtl.Legal] using hsome) (fun _ => rfl) (by simp) (by simp [hloop])
      rwa [setIndex_self] at hcontrol
      exact (congrArg Channel.index_ hself).trans hindex

/-- `Channel::remove` keeps the three views together. -/
theorem Coherent.channelRemove {p p' : Poller ι} {c : ι} (h : p.Coherent)
    (hp' : p.channelRemove c = some p') : p'.Coherent := by
  unfold Poller.channelRemove removeChannel at hp'
  dsimp only at hp'
  obtain ⟨ch, hch⟩ : ∃ ch, ch = { p.channel c with isInLoop_ := false } := ⟨_, rfl⟩
  have hself : (p.setChannel c ch).channel c = ch := Function.update_self ..
  have hfd : (p.channel c).fd_ = ch.fd_ := by rw [hch]
  have hindex : (p.channel c).index_ = ch.index_ := by rw [hch]
  have hloop : ch.isInLoop_ = false := by rw [hch]
  rw [← hch, hself] at hp'
  simp only [assert_eq_some_iff, Option.some.injEq] at hp'
  obtain ⟨hmap, -, hregistered, rfl⟩ := hp'
  have hmap : p.fdMap_ ch.fd_ = some c := hmap
  split_ifs with hadded
  · refine h.control ch .EPOLL_CTL_DEL .kNew hfd (.inr hmap) rfl ?_ (fun _ => rfl)
      (by simp) (by simp [hloop])
    simpa [EpollCtl.Legal] using (h.isSome_interest hmap).mpr (hindex.trans hadded)
  · have hnone : p.interest ch.fd_ = none := by
      simpa using (h.isSome_interest hmap).not.mpr (by rwa [hindex])
    refine h.register { ch with index_ := .kNew } hfd (.inr hmap) ?_ rfl ?_ (by simp)
      (by simp [hloop]) h.legal
    · simp [setIndex, setChannel]
    · exact (Function.update_eq_self_iff.mpr hnone.symm).symm

/-- One operation keeps the three views together. -/
theorem coherent_step {p p' : Poller ι} {op : ι × Op} (hp' : p.step op = some p')
    (h : p.Coherent) : p'.Coherent := by
  obtain ⟨c, op⟩ := op
  cases op with
  | enableRead => exact h.channelUpdate hp'
  | disableRead => exact h.channelUpdate hp'
  | enableWrite => exact h.channelUpdate hp'
  | disableWrite => exact h.channelUpdate hp'
  | disableAll => exact h.channelUpdate hp'
  | remove => exact h.channelRemove hp'

/-- **Registration is coherent.** After any sequence of `enableRead`, `disableRead`, `enableWrite`,
`disableWrite`, `disableAll` and `remove` on the channels of a loop that the assertions of the
poller let through, `fdMap_` has exactly the channels whose index is not `kNew`, the kernel has
exactly those whose index is `kAdded`, each with its events and `EPOLLET`, deleted channels have
no events, `isInLoop_` tells whether a channel is registered, and `epoll_ctl` was never called to
add a present descriptor or to change an absent one. -/
theorem coherent_run {fd : ι → ℕ} {ops : List (ι × Op)} {p : Poller ι}
    (h : run step (ofFds fd) ops = some p) : p.Coherent :=
  run_invariant coherent_step h (coherent_ofFds fd)

/-- Two channels of one descriptor, one after the other: the second one is registered. -/
theorem coherent_run_reused : ∃ p : Poller Bool,
    run step (ofFds fun _ => 7) [(true, .enableRead), (true, .enableWrite), (true, .disableAll),
      (true, .enableWrite), (true, .disableWrite), (true, .remove), (false, .enableRead)] = some p ∧
    (p.channel true).index_ = .kNew ∧ (p.channel false).index_ = .kAdded ∧
    p.fdMap_ 7 = some false ∧
    p.interest 7 = some (Channel.kReadEvent ||| EPOLLET, false) ∧
    p.Coherent := by
  have hrun : (run step (ofFds fun _ : Bool => 7) [(true, .enableRead), (true, .enableWrite),
      (true, .disableAll), (true, .enableWrite), (true, .disableWrite), (true, .remove),
      (false, .enableRead)]).map (fun p => ((p.channel true).index_, (p.channel false).index_,
        p.fdMap_ 7, p.interest 7)) = some (.kNew, .kAdded, some false,
          some (Channel.kReadEvent ||| EPOLLET, false)) := by
    decide +kernel
  obtain ⟨p, hp, hfields⟩ := Option.map_eq_some_iff.mp hrun
  simp only [Prod.mk.injEq] at hfields
  obtain ⟨hfirst, hsecond, hfdMap, hinterest⟩ := hfields
  exact ⟨p, hp, hfirst, hsecond, hfdMap, hinterest, coherent_run hp⟩

/-- The assertions refuse no more than a new channel whose descriptor is taken, and the removal of
a channel that is not registered or has events. -/
theorem step_eq_none_iff {p : Poller ι} {c : ι} {op : Op} (h : p.Coherent) :
    p.step (c, op) = none ↔ if op = .remove then
      (p.channel c).index_ = .kNew ∨ (p.channel c).events_ ≠ Channel.kNoneEvent
    else (p.channel c).index_ = .kNew ∧ p.fdMap_ (p.channel c).fd_ ≠ none := by
  have hmap := h.fdMap_iff (p.channel c).fd_ c
  have hupdate : ∀ events, p.channelUpdate c events = none ↔
      (p.channel c).index_ = .kNew ∧ p.fdMap_ (p.channel c).fd_ ≠ none := by
    intro events
    unfold Poller.channelUpdate updateChannel
    simp only [setChannel, Function.update_self]
    cases hindex : (p.channel c).index_ with
    | kNew => simp [assert]
    | kDeleted => simp [assert, hmap, hindex]
    | kAdded =>
      have hfdMap : p.fdMap_ (p.channel c).fd_ = some c := hmap.mpr ⟨rfl, by simp [hindex]⟩
      by_cases hevents : events = Channel.kNoneEvent <;> simp [assert, hfdMap, hevents]
  cases op with
  | enableRead => exact hupdate _
  | disableRead => exact hupdate _
  | enableWrite => exact hupdate _
  | disableWrite => exact hupdate _
  | disableAll => exact hupdate _
  | remove =>
    simp only [step, Poller.channelRemove, removeChannel, setChannel, Function.update_self, hmap,
      assert, Channel.isNoneEvent]
    cases hindex : (p.channel c).index_ <;> simp

/-! ## The channel by itself -/

/-- The operation, as the model of a channel without its poller has it. -/
def Op.onChannel : Op → Channel → Channel
  | .enableRead => Channel.enableRead
  | .disableRead => Channel.disableRead
  | .enableWrite => Channel.enableWrite
  | .disableWrite => Channel.disableWrite
  | .disableAll => Channel.disableAll
  | .remove => Channel.remove

/-- `Channel::update` and the poller change the channel as `Channel.update` does. -/
theorem channel_channelUpdate {p p' : Poller ι} {c : ι} {events : UInt32}
    (h : p.channelUpdate c events = some p') :
    p'.channel = Function.update p.channel c
      (Channel.update { p.channel c with events_ := events }) := by
  unfold Poller.channelUpdate updateChannel at h
  simp only [setChannel, Function.update_self] at h
  unfold Channel.update
  cases hindex : (p.channel c).index_ with
  | kNew =>
    simp only [hindex, assert_eq_some_iff, Option.some.injEq] at h
    obtain ⟨-, rfl⟩ := h
    simp [setIndex, setChannel, update, epollCtl]
  | kDeleted =>
    simp only [hindex, assert_eq_some_iff, Option.some.injEq] at h
    obtain ⟨-, rfl⟩ := h
    simp [setIndex, setChannel, update, epollCtl]
  | kAdded =>
    simp only [hindex, assert_eq_some_iff] at h
    obtain ⟨-, h⟩ := h
    split_ifs at h with hnone
    · obtain rfl := Option.some.inj h
      simp [setIndex, setChannel, update, epollCtl, hnone]
    · obtain rfl := Option.some.inj h
      simp [update, epollCtl, hnone]

/-- `Channel::remove` and the poller change the channel as `Channel.remove` does. -/
theorem channel_channelRemove {p p' : Poller ι} {c : ι} (h : p.channelRemove c = some p') :
    p'.channel = Function.update p.channel c (Channel.remove (p.channel c)) := by
  unfold Poller.channelRemove removeChannel at h
  simp only [setChannel, Function.update_self, assert_eq_some_iff, Option.some.injEq] at h
  obtain ⟨-, -, -, rfl⟩ := h
  split_ifs <;> simp [setIndex, setChannel, update, epollCtl, Channel.remove]

/-- The poller changes the channel it is asked about as the model of the channel says, and no other
channel. -/
theorem channel_step {p p' : Poller ι} {c : ι} {op : Op} (h : p.step (c, op) = some p') :
    p'.channel = Function.update p.channel c (op.onChannel (p.channel c)) := by
  cases op with
  | enableRead => exact channel_channelUpdate h
  | disableRead => exact channel_channelUpdate h
  | enableWrite => exact channel_channelUpdate h
  | disableWrite => exact channel_channelUpdate h
  | disableAll => exact channel_channelUpdate h
  | remove => exact channel_channelRemove h

/-! ## Disabling -/

/-- The operation takes the last interest from the channel. -/
def Op.LeavesNone (ch : Channel) : Op → Prop
  | .disableAll => True
  | .disableRead => ch.events_ &&& ~~~ Channel.kReadEvent = Channel.kNoneEvent
  | .disableWrite => ch.events_ &&& ~~~ Channel.kWriteEvent = Channel.kNoneEvent
  | _ => False

/-- An operation that takes the last interest sets the events to none. -/
theorem step_of_leavesNone {p : Poller ι} {c : ι} {op : Op} (h : op.LeavesNone (p.channel c)) :
    p.step (c, op) = p.channelUpdate c Channel.kNoneEvent := by
  cases op with
  | disableAll => rfl
  | disableRead => exact congrArg (p.channelUpdate c) h
  | disableWrite => exact congrArg (p.channelUpdate c) h
  | _ => exact absurd h (by simp [Op.LeavesNone])

omit [DecidableEq ι] in
/-- It takes the last interest again when it is repeated. -/
theorem Op.LeavesNone.repeat {ch ch' : Channel} {op : Op} (h : op.LeavesNone ch)
    (hevents : ch'.events_ = Channel.kNoneEvent) : op.LeavesNone ch' := by
  cases op with
  | disableAll => trivial
  | disableRead => simp [LeavesNone, hevents, Channel.kNoneEvent]
  | disableWrite => simp [LeavesNone, hevents, Channel.kNoneEvent]
  | _ => exact absurd h (by simp [LeavesNone])

/-- Without events the poller deletes a channel that is added, and adds every other one. -/
theorem channel_of_leavesNone {p p' : Poller ι} {c : ι} {op : Op}
    (hop : op.LeavesNone (p.channel c)) (h : p.step (c, op) = some p') :
    (p'.channel c).fd_ = (p.channel c).fd_ ∧ (p'.channel c).events_ = Channel.kNoneEvent ∧
      (p'.channel c).index_ = if (p.channel c).index_ = .kAdded then .kDeleted else .kAdded := by
  rw [step_of_leavesNone hop] at h
  rw [channel_channelUpdate h, Function.update_self, Channel.update]
  cases (p.channel c).index_ <;> simp

/-- The channels, `fdMap_` and the interest set are the same. -/
def SameState (p q : Poller ι) : Prop :=
  p.channel = q.channel ∧ p.fdMap_ = q.fdMap_ ∧ p.interest = q.interest

/-- The operation returns, takes the descriptor out of the interest set, and changes nothing when it
is repeated any number of times. -/
def Silences (p : Poller ι) (c : ι) (op : Op) : Prop :=
  ∃ p', p.step (c, op) = some p' ∧ p'.interest (p.channel c).fd_ = none ∧
    ∀ n, ∃ q, run step p' (List.replicate n (c, op)) = some q ∧ SameState q p'

/-- **Disabling never settles.** In every state that is reached, an operation that leaves a channel
without interest takes its descriptor out of the interest set if and only if the channel was added,
and puts it there with no events otherwise; so a repetition undoes it, in every state.

**Proof sketch.** The poller looks at the events only of channels that are added. After the
operation the channel is deleted if it was added and added if it was not, which the coherence of
the registration turns into a statement about the interest set. -/
theorem disable_silences_iff {fd : ι → ℕ} {ops : List (ι × Op)} {p : Poller ι}
    (h : run step (ofFds fd) ops = some p) {c : ι} {op : Op} (hop : op.LeavesNone (p.channel c)) :
    (∀ p', p.step (c, op) = some p' →
      (p'.interest (p.channel c).fd_ = none ↔ (p.channel c).index_ = .kAdded)) ∧
    ¬ Silences p c op := by
  have hcoherent := coherent_run h
  refine ⟨fun p' hp' => ?_, ?_⟩
  · obtain ⟨hfd, -, hindex⟩ := channel_of_leavesNone hop hp'
    have hcoherent' := coherent_step hp' hcoherent
    have hmap : p'.fdMap_ (p.channel c).fd_ = some c := by
      refine (hcoherent'.fdMap_iff _ c).mpr ⟨hfd, ?_⟩
      rw [hindex]
      split_ifs <;> simp
    rw [← Option.not_isSome_iff_eq_none, hcoherent'.isSome_interest hmap, hindex]
    split_ifs with hadded <;> simp [hadded]
  · rintro ⟨p', hp', -, hrepeat⟩
    obtain ⟨q, hq, hsame, -, -⟩ := hrepeat 1
    obtain ⟨p'', hp'', hq⟩ := run_cons hq
    obtain rfl := Option.some.inj hq
    obtain ⟨-, hevents, -⟩ := channel_of_leavesNone hop hp'
    obtain ⟨-, -, hindex⟩ := channel_of_leavesNone (hop.repeat hevents) hp''
    rw [hsame] at hindex
    split_ifs at hindex with hadded
    · simp [hadded] at hindex
    · exact hadded hindex

/-- A channel that was enabled is silenced by the first call, and not by the second. -/
theorem disable_silences_iff_enabled : ∃ p p' : Poller Bool,
    run step (ofFds fun _ => 7) [(true, .enableRead)] = some p ∧
    p.step (true, .disableRead) = some p' ∧ p'.interest 7 = none ∧
    ¬ Silences p true .disableRead := by
  have hrun : (run step (ofFds fun _ : Bool => 7) [(true, .enableRead)]).map (fun p =>
      ((p.channel true).fd_, (p.channel true).events_, (p.channel true).index_,
        (p.step (true, .disableRead)).isSome)) =
      some (7, Channel.kReadEvent, .kAdded, true) := by decide +kernel
  obtain ⟨p, hp, hfields⟩ := Option.map_eq_some_iff.mp hrun
  simp only [Prod.mk.injEq] at hfields
  obtain ⟨hfd, hevents, hindex, hsome⟩ := hfields
  obtain ⟨p', hp'⟩ := Option.isSome_iff_exists.mp hsome
  have hop : Op.LeavesNone (p.channel true) .disableRead := by
    simp [Op.LeavesNone, hevents, Channel.kNoneEvent]
  obtain ⟨hsilent, hnever⟩ := disable_silences_iff hp hop
  exact ⟨p, p', hp, hp', hfd ▸ (hsilent p' hp').mpr hindex, hnever⟩

/-- `disableAll` on a channel that was never registered, and a second `disableAll` on one that was
enabled, put the descriptor into the interest set. -/
theorem not_silences_disableAll :
    (∃ p' : Poller Bool, (ofFds fun _ => 7).step (true, .disableAll) = some p' ∧
      p'.interest 7 = some (EPOLLET, true)) ∧
    (∃ p p' : Poller Bool,
      run step (ofFds fun _ => 7) [(true, .enableRead), (true, .disableAll)] = some p ∧
      p.interest 7 = none ∧ p.step (true, .disableAll) = some p' ∧
      p'.interest 7 = some (EPOLLET, true) ∧ ¬ SameState p' p) := by
  constructor
  · have hrun : ((ofFds fun _ : Bool => 7).step (true, .disableAll)).map (fun p => p.interest 7) =
        some (some (EPOLLET, true)) := by decide +kernel
    exact Option.map_eq_some_iff.mp hrun
  · have hrun : (run step (ofFds fun _ : Bool => 7) [(true, .enableRead), (true, .disableAll)]).map
        (fun p => (p.interest 7, (p.step (true, .disableAll)).map fun p' => p'.interest 7)) =
        some (none, some (some (EPOLLET, true))) := by decide +kernel
    obtain ⟨p, hp, hfields⟩ := Option.map_eq_some_iff.mp hrun
    simp only [Prod.mk.injEq] at hfields
    obtain ⟨hnone, hmap⟩ := hfields
    obtain ⟨p', hp', hsome⟩ := Option.map_eq_some_iff.mp hmap
    refine ⟨p, p', hp, hnone, hp', hsome, fun hsame => ?_⟩
    have hinterest := congrFun hsame.2.2 7
    rw [hsome, hnone] at hinterest
    cases hinterest

end Poller

end LouisNet.Reactor
