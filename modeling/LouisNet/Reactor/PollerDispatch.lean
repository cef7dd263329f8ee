import LouisNet.Reactor.Poller

set_option relaxedAutoImplicit false
set_option autoImplicit false

/-!
# From the ready list to the handlers

One round of `EventLoop::loop`: `Poller::poll` asks the kernel for as many events as `events_` has
room for, `fillActiveChannels` writes each of them into its channel and appends the channel to
`activeChannels_`, `events_` is doubled when it was full, and the loop handles the channels one
after another. While the channels are handled, and between the rounds, channels are enabled,
disabled and removed.

The kernel keeps the descriptors that are ready in a list, in the order in which they became ready,
and reports them from its front. A descriptor that is taken out of the interest set leaves the list,
and so does one that `epoll_wait` finds no longer ready.

## Main definitions

* `LouisNet.Reactor.Dispatch` — a poller, its ready list, and the round of its loop.
* `LouisNet.Reactor.Dispatch.fillActiveChannels`, `LouisNet.Reactor.Dispatch.poll` — the functions
  of the poller.
* `LouisNet.Reactor.Dispatch.Sound` — who is on the lists.

## Main results

* `LouisNet.Reactor.Dispatch.dispatched_in_order` — each report is handled once, with its events, in
  a channel that is registered.
* `LouisNet.Reactor.Dispatch.reported_within` — how long a descriptor that is ready can wait.
-/

namespace LouisNet.Reactor

open Lib

/-- What `epoll_wait` returns: some events with their `data.ptr`, or `0`, or `-1`. -/
inductive EpollWait (ι : Type*) where
  | events (events : List (ι × UInt32))
  | timedOut
  | failed

/-- A poller, the ready list of its `epoll` instance, and the round of its loop. -/
structure Dispatch (ι : Type*) where
  poller : Poller ι
  /-- The channels whose descriptors are ready, the first to be reported first. -/
  ready : List ι := []
  /-- `events_.size()` -/
  eventsSize : ℕ := 16
  /-- The channels of `activeChannels_` that are still to be handled. -/
  activeChannels_ : List ι := []
  /-- `revents_` of each channel -/
  revents_ : ι → UInt32 := fun _ => 0

namespace Dispatch

variable {ι : Type*} [DecidableEq ι]

/-- `Poller::fillActiveChannels`. -/
def fillActiveChannels (s : Dispatch ι) : List (ι × UInt32) → Dispatch ι
  | [] => s
  | (channel, events) :: rest =>
    fillActiveChannels { s with
      revents_ := Function.update s.revents_ channel events
      activeChannels_ := s.activeChannels_ ++ [channel] } rest

/-- `Poller::poll`. -/
def poll (s : Dispatch ι) : EpollWait ι → Dispatch ι
  | .events events =>
    let s := s.fillActiveChannels events
    if events.length = s.eventsSize then { s with eventsSize := s.eventsSize * 2 } else s
  | .timedOut | .failed => s

/-- What happens in a loop. -/
inductive Input (ι : Type*) where
  /-- a descriptor of the interest set becomes ready -/
  | notify (c : ι)
  /-- a descriptor on the list is no longer ready, and `epoll_wait` will drop it -/
  | lapse (c : ι)
  /-- a channel is enabled, disabled or removed -/
  | update (c : ι) (op : Poller.Op)
  /-- `epoll_wait` returns -/
  | poll (result : EpollWait ι)
  /-- the next active channel handles its events -/
  | handle

/-- One step. The interest set has exactly the channels whose index is `kAdded`. -/
def step (s : Dispatch ι) : Input ι → Option (Dispatch ι)
  | .notify c =>
    assert ((s.poller.channel c).index_ = .kAdded) <|
    some { s with ready := if c ∈ s.ready then s.ready else s.ready ++ [c] }
  | .lapse c => assert (c ∈ s.ready) <| some { s with ready := s.ready.erase c }
  | .update c op =>
    (s.poller.step (c, op)).map fun poller =>
      { s with
        poller
        ready := if (poller.channel c).index_ = .kAdded then s.ready else s.ready.erase c }
  | .poll (.events events) =>
    assert (s.activeChannels_ = [] ∧ events ≠ [] ∧
      events.map Prod.fst = s.ready.take s.eventsSize) <|
    some (poll { s with ready := s.ready.drop s.eventsSize } (.events events))
  | .poll .timedOut => assert (s.activeChannels_ = [] ∧ s.ready = []) <| some (s.poll .timedOut)
  | .poll .failed => assert (s.activeChannels_ = []) <| some (s.poll .failed)
  | .handle =>
    match s.activeChannels_ with
    | [] => none
    | _ :: rest => some { s with activeChannels_ := rest }

/-- What was reported by `epoll_wait` and handled by the channels, and which descriptors became
ready. -/
structure Record (ι : Type*) where
  notified : List ι := []
  reported : List (ι × UInt32) := []
  handled : List (ι × UInt32) := []

/-- What a step adds to the record. -/
def note (r : Record ι) (s : Dispatch ι) : Input ι → Record ι
  | .notify c => if c ∈ s.ready then r else { r with notified := r.notified ++ [c] }
  | .poll (.events events) => { r with reported := r.reported ++ events }
  | .handle =>
    { r with handled := r.handled ++ s.activeChannels_.head?.toList.map fun c => (c, s.revents_ c) }
  | _ => r

variable {s s' : Dispatch ι} {r r' : Record ι} {i : Input ι} {c : ι}

/-! ## Filling the active channels -/

/-- The channels reported are appended, and everything else stays. -/
theorem fillActiveChannels_eq (s : Dispatch ι) (events : List (ι × UInt32)) :
    s.fillActiveChannels events = { s with
      activeChannels_ := s.activeChannels_ ++ events.map Prod.fst
      revents_ := (s.fillActiveChannels events).revents_ } := by
  induction events generalizing s with
  | nil => simp [fillActiveChannels]
  | cons event events ih =>
    obtain ⟨channel, mask⟩ := event
    rw [fillActiveChannels, ih]
    simp [List.append_assoc]

/-- When events are reported, the channels are filled in, and a full `events_` is doubled. -/
theorem poll_events_eq (s : Dispatch ι) (events : List (ι × UInt32)) :
    s.poll (.events events) = { s with
      activeChannels_ := s.activeChannels_ ++ events.map Prod.fst
      revents_ := (s.fillActiveChannels events).revents_
      eventsSize := if events.length = s.eventsSize then s.eventsSize * 2 else s.eventsSize } := by
  simp only [poll]
  rw [fillActiveChannels_eq]
  dsimp only
  split_ifs
  · rfl
  · rfl

/-- A channel that is not reported keeps its events. -/
theorem revents_fillActiveChannels_of_not_mem {events : List (ι × UInt32)}
    (hc : c ∉ events.map Prod.fst) : (s.fillActiveChannels events).revents_ c = s.revents_ c := by
  induction events generalizing s with
  | nil => rfl
  | cons event events ih =>
    obtain ⟨channel, mask⟩ := event
    rw [List.map_cons, List.mem_cons, not_or] at hc
    rw [fillActiveChannels, ih hc.2]
    exact Function.update_of_ne hc.1 _ _

/-- **Each channel has the events that were reported for it**, if none is reported twice. -/
theorem map_revents_fillActiveChannels {events : List (ι × UInt32)}
    (hnodup : (events.map Prod.fst).Nodup) :
    (events.map Prod.fst).map (fun c => (c, (s.fillActiveChannels events).revents_ c)) =
      events := by
  induction events generalizing s with
  | nil => rfl
  | cons event events ih =>
    obtain ⟨channel, mask⟩ := event
    rw [List.map_cons, List.nodup_cons] at hnodup
    rw [List.map_cons, List.map_cons, fillActiveChannels, ih hnodup.2,
      revents_fillActiveChannels_of_not_mem hnodup.1]
    simp

/-! ## Who is on the lists -/

/-- The channels of the ready list are in the interest set, those that are to be handled are
registered, and none is on a list twice. -/
structure Sound (s : Dispatch ι) : Prop where
  coherent : s.poller.Coherent
  added : ∀ c ∈ s.ready, (s.poller.channel c).index_ = .kAdded
  nodup : s.ready.Nodup
  registered : ∀ c ∈ s.activeChannels_, (s.poller.channel c).index_ ≠ .kNew

/-- A channel is not removed while it is to be handled. -/
def Kept (s : Dispatch ι) (i : Input ι) : Prop := ∀ c ∈ s.activeChannels_, i ≠ .update c .remove

omit [DecidableEq ι] in
/-- An operation that does not remove a channel leaves it registered. -/
theorem index_onChannel_ne_kNew {op : Poller.Op} (hop : op ≠ .remove) (ch : Channel) :
    (op.onChannel ch).index_ ≠ .kNew := by
  have hupdate : ∀ ch : Channel, ch.update.index_ ≠ .kNew := by
    intro ch
    unfold Channel.update
    dsimp only
    split
    · simp
    · simp
    · split_ifs <;> simp_all
  cases op with
  | remove => exact absurd rfl hop
  | _ => exact hupdate _

/-- An operation on a channel. -/
theorem Sound.update (h : s.Sound) {op : Poller.Op} {poller : Poller ι}
    (hp : s.poller.step (c, op) = some poller) (hkept : s.Kept (.update c op)) :
    Sound { s with
      poller
      ready := if (poller.channel c).index_ = .kAdded then s.ready else s.ready.erase c } := by
  have hchannel := Poller.channel_step hp
  have hother : ∀ {d}, d ≠ c → poller.channel d = s.poller.channel d := by
    intro d hd
    rw [hchannel, Function.update_of_ne hd]
  refine ⟨Poller.coherent_step hp h.coherent, ?_, ?_, ?_⟩
  · intro d hd
    dsimp only at hd ⊢
    by_cases hdc : d = c
    · subst hdc
      by_contra hindex
      rw [if_neg hindex] at hd
      exact h.nodup.not_mem_erase hd
    · rw [hother hdc]
      split_ifs at hd
      · exact h.added d hd
      · exact h.added d (List.mem_of_mem_erase hd)
  · dsimp only
    split_ifs
    · exact h.nodup
    · exact h.nodup.erase c
  · intro d hd
    dsimp only at hd ⊢
    by_cases hdc : d = c
    · subst hdc
      have hop : op ≠ .remove := by
        rintro rfl
        exact hkept d hd rfl
      rw [hchannel, Function.update_self]
      exact index_onChannel_ne_kNew hop _
    · rw [hother hdc]
      exact h.registered d hd

/-- **A step keeps the lists in order.** -/
theorem Sound.step (h : s.Sound) (hkept : s.Kept i) (hs : s.step i = some s') : s'.Sound := by
  cases i with
  | notify c =>
    simp only [Dispatch.step, assert_eq_some_iff, Option.some.injEq] at hs
    obtain ⟨hadded, rfl⟩ := hs
    refine ⟨h.coherent, ?_, ?_, h.registered⟩
    · intro d hd
      dsimp only at hd
      split_ifs at hd with hc
      · exact h.added d hd
      · rcases List.mem_append.mp hd with hd | hd
        · exact h.added d hd
        · rw [List.mem_singleton.mp hd]
          exact hadded
    · dsimp only
      split_ifs with hc
      · exact h.nodup
      · rw [← List.concat_eq_append]
        exact h.nodup.concat hc
  | lapse c =>
    simp only [Dispatch.step, assert_eq_some_iff, Option.some.injEq] at hs
    obtain ⟨-, rfl⟩ := hs
    exact ⟨h.coherent, fun d hd => h.added d (List.mem_of_mem_erase hd), h.nodup.erase c,
      h.registered⟩
  | update c op =>
    obtain ⟨poller, hp, rfl⟩ := Option.map_eq_some_iff.mp hs
    exact h.update hp hkept
  | poll result =>
    cases result with
    | events events =>
      simp only [Dispatch.step, assert_eq_some_iff, Option.some.injEq] at hs
      obtain ⟨⟨hnil, -, hevents⟩, rfl⟩ := hs
      have hready : ∀ c ∈ s.ready.drop s.eventsSize, (s.poller.channel c).index_ = .kAdded :=
        fun c hc => h.added c (List.mem_of_mem_drop hc)
      have hactive : ∀ c ∈ s.activeChannels_ ++ events.map Prod.fst,
          (s.poller.channel c).index_ ≠ .kNew := by
        intro c hc
        rw [hnil, List.nil_append, hevents] at hc
        rw [h.added c (List.mem_of_mem_take hc)]
        decide
      rw [poll_events_eq]
      exact ⟨h.coherent, hready, h.nodup.sublist (List.drop_sublist _ _), hactive⟩
    | timedOut =>
      simp only [Dispatch.step, assert_eq_some_iff, Option.some.injEq] at hs
      obtain ⟨-, rfl⟩ := hs
      exact h
    | failed =>
      simp only [Dispatch.step, assert_eq_some_iff, Option.some.injEq] at hs
      obtain ⟨-, rfl⟩ := hs
      exact h
  | handle =>
    simp only [Dispatch.step] at hs
    split at hs
    · cases hs
    · rename_i c rest hactive
      obtain rfl := Option.some.inj hs
      refine ⟨h.coherent, h.added, h.nodup, fun d hd => h.registered d ?_⟩
      rw [hactive]
      exact List.mem_cons_of_mem c hd

/-! ## The account of the reports -/

/-- What was reported was handled or is still to be handled, each report with its events; and the
descriptors were reported, and will be, in the order in which they became ready. -/
structure Accounted (x : Dispatch ι × Record ι) : Prop where
  reports : x.2.reported =
    x.2.handled ++ x.1.activeChannels_.map fun c => (c, x.1.revents_ c)
  order : (x.2.reported.map Prod.fst ++ x.1.ready).Sublist x.2.notified

/-- **A step keeps the account.** -/
theorem Accounted.step (h : Accounted (s, r)) (hsound : s.Sound) (hs : s.step i = some s') :
    Accounted (s', note r s i) := by
  have hreports := h.reports
  have horder := h.order
  cases i with
  | notify c =>
    simp only [Dispatch.step, assert_eq_some_iff, Option.some.injEq] at hs
    obtain ⟨-, rfl⟩ := hs
    by_cases hc : c ∈ s.ready
    · refine ⟨?_, ?_⟩
      · simpa only [note, if_pos hc] using hreports
      · simpa only [note, if_pos hc] using horder
    · refine ⟨?_, ?_⟩
      · simpa only [note, if_neg hc] using hreports
      · have hlater := horder.append (List.Sublist.refl [c])
        simpa only [note, if_neg hc, List.append_assoc] using hlater
  | lapse c =>
    simp only [Dispatch.step, assert_eq_some_iff, Option.some.injEq] at hs
    obtain ⟨-, rfl⟩ := hs
    exact ⟨hreports, ((List.Sublist.refl _).append List.erase_sublist).trans horder⟩
  | update c op =>
    obtain ⟨poller, -, rfl⟩ := Option.map_eq_some_iff.mp hs
    refine ⟨hreports, List.Sublist.trans ?_ horder⟩
    refine (List.Sublist.refl _).append ?_
    dsimp only
    split_ifs
    · exact List.Sublist.refl _
    · exact List.erase_sublist
  | poll result =>
    cases result with
    | events events =>
      simp only [Dispatch.step, assert_eq_some_iff, Option.some.injEq] at hs
      obtain ⟨⟨hnil, -, hevents⟩, rfl⟩ := hs
      have hnodup : (events.map Prod.fst).Nodup := by
        rw [hevents]
        exact hsound.nodup.sublist (List.take_sublist _ _)
      have hsame := map_revents_fillActiveChannels
        (s := { s with ready := s.ready.drop s.eventsSize }) hnodup
      have hall : r.reported = r.handled := by simpa [hnil] using hreports
      have happend : s.activeChannels_ ++ events.map Prod.fst = events.map Prod.fst := by
        rw [hnil, List.nil_append]
      have hreports' : r.reported ++ events = r.handled ++ (s.activeChannels_ ++
          events.map Prod.fst).map (fun c => (c, ({ s with
            ready := s.ready.drop s.eventsSize }.fillActiveChannels events).revents_ c)) := by
        rw [hall, happend, hsame]
      have horder' : ((r.reported ++ events).map Prod.fst ++ s.ready.drop s.eventsSize).Sublist
          r.notified := by
        rw [List.map_append, hevents, List.append_assoc, List.take_append_drop]
        exact horder
      rw [poll_events_eq]
      exact ⟨hreports', horder'⟩
    | timedOut =>
      simp only [Dispatch.step, assert_eq_some_iff, Option.some.injEq] at hs
      obtain ⟨-, rfl⟩ := hs
      exact ⟨hreports, horder⟩
    | failed =>
      simp only [Dispatch.step, assert_eq_some_iff, Option.some.injEq] at hs
      obtain ⟨-, rfl⟩ := hs
      exact ⟨hreports, horder⟩
  | handle =>
    simp only [Dispatch.step] at hs
    split at hs
    · cases hs
    · rename_i c rest hactive
      obtain rfl := Option.some.inj hs
      refine ⟨?_, horder⟩
      simpa [note, hactive] using hreports

/-! ## How long a descriptor waits -/

/-- `epoll_wait` returns events. -/
def Input.reports : Input ι → Bool
  | .poll (.events _) => true
  | _ => false

/-- The descriptor of the channel stays ready, and in the interest set. -/
def Stays (c : ι) (s : Dispatch ι) (i : Input ι) : Prop :=
  i ≠ .lapse c ∧ ∀ op, i = .update c op → (op.onChannel (s.poller.channel c)).index_ = .kAdded

/-- Without another element, an element is not further behind. -/
theorem exists_getElem?_erase {ready : List ι} {k : ℕ} {d : ι} (hd : d ≠ c)
    (hk : ready[k]? = some c) : ∃ k' ≤ k, (ready.erase d)[k']? = some c := by
  induction ready generalizing k with
  | nil => simp at hk
  | cons b ready ih =>
    by_cases hb : b = d
    · subst hb
      rw [List.erase_cons_head]
      cases k with
      | zero => exact absurd (by simpa using hk) hd
      | succ k => exact ⟨k, Nat.le_succ k, by simpa using hk⟩
    · rw [List.erase_cons_tail (by simpa using hb)]
      cases k with
      | zero => exact ⟨0, Nat.le_refl 0, by simpa using hk⟩
      | succ k =>
        obtain ⟨k', hle, hk'⟩ := ih (by simpa using hk)
        exact ⟨k' + 1, Nat.succ_le_succ hle, by simpa using hk'⟩

/-- The room of one round and that of `m` rounds which begin with twice as much make up the room of
`m + 1` rounds. -/
theorem sub_lt_of_doubled {k size m : ℕ} (hbehind : size ≤ k)
    (hk : k < size * (2 ^ (m + 1) - 1)) : k - size < size * 2 * (2 ^ m - 1) := by
  obtain ⟨q, hq⟩ := Nat.exists_eq_add_of_le' (Nat.one_le_two_pow (n := m))
  have hroom : size * (2 ^ (m + 1) - 1) = size * 2 * q + size := by
    rw [pow_succ, hq, show (q + 1) * 2 - 1 = 2 * q + 1 by omega]
    ring
  rw [hq, Nat.add_sub_cancel]
  omega

/-- **One step**: a descriptor that is ready is reported, or it is not further behind, measured
against the room of `events_` in the rounds to come. -/
theorem waits_step {k m : ℕ} (hk : s.ready[k]? = some c)
    (hm : k < s.eventsSize * (2 ^ (m + i.reports.toNat) - 1)) (hstays : s.Stays c i)
    (hs : s.step i = some s') :
    (∃ e, (c, e) ∈ (note r s i).reported) ∨
      ∃ k', s'.ready[k']? = some c ∧ k' < s'.eventsSize * (2 ^ m - 1) := by
  cases i with
  | notify d =>
    simp only [Dispatch.step, assert_eq_some_iff, Option.some.injEq] at hs
    obtain ⟨-, rfl⟩ := hs
    refine .inr ⟨k, ?_, hm⟩
    dsimp only
    split_ifs
    · exact hk
    · obtain ⟨hlt, -⟩ := List.getElem?_eq_some_iff.mp hk
      rw [List.getElem?_append_left hlt, hk]
  | lapse d =>
    simp only [Dispatch.step, assert_eq_some_iff, Option.some.injEq] at hs
    obtain ⟨-, rfl⟩ := hs
    have hdc : d ≠ c := by
      rintro rfl
      exact hstays.1 rfl
    obtain ⟨k', hle, hk'⟩ := exists_getElem?_erase hdc hk
    exact .inr ⟨k', hk', hle.trans_lt hm⟩
  | update d op =>
    obtain ⟨poller, hp, rfl⟩ := Option.map_eq_some_iff.mp hs
    have hchannel := Poller.channel_step hp
    by_cases hdc : d = c
    · subst hdc
      have hindex : (poller.channel d).index_ = .kAdded := by
        rw [hchannel, Function.update_self]
        exact hstays.2 op rfl
      refine .inr ⟨k, ?_, hm⟩
      dsimp only
      rw [if_pos hindex, hk]
    · dsimp only
      split_ifs
      · exact .inr ⟨k, hk, hm⟩
      · obtain ⟨k', hle, hk'⟩ := exists_getElem?_erase hdc hk
        exact .inr ⟨k', hk', hle.trans_lt hm⟩
  | poll result =>
    cases result with
    | events events =>
      simp only [Dispatch.step, assert_eq_some_iff, Option.some.injEq] at hs
      obtain ⟨⟨-, -, hevents⟩, rfl⟩ := hs
      obtain ⟨hlt, hget⟩ := List.getElem?_eq_some_iff.mp hk
      rcases Nat.lt_or_ge k s.eventsSize with hfront | hbehind
      · -- it is among those that are reported
        left
        have hmem : c ∈ events.map Prod.fst := by
          rw [hevents]
          exact List.mem_take_iff_getElem.mpr ⟨k, by omega, hget⟩
        obtain ⟨⟨d, e⟩, hevent, rfl⟩ := List.mem_map.mp hmem
        exact ⟨e, List.mem_append_right _ hevent⟩
      · -- `events_` was full, and has twice the room in the next round
        right
        have hfull : events.length = s.eventsSize := by
          rw [← List.length_map Prod.fst, hevents, List.length_take]
          omega
        rw [poll_events_eq]
        dsimp only
        rw [if_pos hfull]
        refine ⟨k - s.eventsSize, ?_, sub_lt_of_doubled hbehind hm⟩
        rw [List.getElem?_drop, Nat.add_sub_cancel' hbehind, hk]
    | timedOut =>
      simp only [Dispatch.step, assert_eq_some_iff, Option.some.injEq] at hs
      obtain ⟨-, rfl⟩ := hs
      exact .inr ⟨k, hk, hm⟩
    | failed =>
      simp only [Dispatch.step, assert_eq_some_iff, Option.some.injEq] at hs
      obtain ⟨-, rfl⟩ := hs
      exact .inr ⟨k, hk, hm⟩
  | handle =>
    simp only [Dispatch.step] at hs
    split at hs
    · cases hs
    · obtain rfl := Option.some.inj hs
      exact .inr ⟨k, hk, hm⟩

/-- A step forgets no report. -/
theorem mem_reported_note {x : ι × UInt32} (hx : x ∈ r.reported) (s : Dispatch ι) (i : Input ι) :
    x ∈ (note r s i).reported := by
  cases i with
  | poll result =>
    cases result with
    | events events => exact List.mem_append_left _ hx
    | timedOut => exact hx
    | failed => exact hx
  | notify d =>
    simp only [note]
    split_ifs <;> exact hx
  | lapse d => exact hx
  | update d op => exact hx
  | handle => exact hx

/-! ## Runs -/

section Runs

variable {fd : ι → ℕ} {inputs : List (Input ι)}

/-- **Each report is handled once, with its events, in a channel that is registered.** In every run
of a loop in which no channel is removed while it is to be handled: what `epoll_wait` has reported
was handled in the same order, each report once and with its own events, or is still to be handled,
when its channel has these events and is in `fdMap_` under its descriptor; the descriptors that are
ready belong to channels of the interest set; and they were reported, and will be, in the order in
which they became ready.

**Proof sketch.** A descriptor that leaves the interest set leaves the ready list, so what is
reported belongs to a channel that is added; and none is reported twice in one round, so that the
events of one report do not replace those of another. -/
theorem dispatched_in_order
    (hrun : run (observed step note) ({ poller := Poller.ofFds fd }, {}) inputs = some (s, r))
    (hkept : Along (observed step note) (fun x i => x.1.Kept i)
      ({ poller := Poller.ofFds fd }, {}) inputs) :
    r.reported = r.handled ++ s.activeChannels_.map (fun c => (c, s.revents_ c)) ∧
      (∀ c ∈ s.activeChannels_, s.poller.fdMap_ (s.poller.channel c).fd_ = some c) ∧
      (∀ c ∈ s.ready, s.poller.interest (s.poller.channel c).fd_ =
        some ((s.poller.channel c).events_ ||| EPOLLET, c)) ∧
      (r.reported.map Prod.fst ++ s.ready).Sublist r.notified := by
  have hinit : Sound ({ poller := Poller.ofFds fd } : Dispatch ι) :=
    ⟨Poller.coherent_ofFds fd, by simp, List.nodup_nil, by simp⟩
  have haccounted : Accounted (({ poller := Poller.ofFds fd }, {}) : Dispatch ι × Record ι) :=
    ⟨rfl, List.Sublist.refl _⟩
  obtain ⟨hsound, hacc⟩ := hkept.invariant
    (I := fun x : Dispatch ι × Record ι => x.1.Sound ∧ Accounted x)
    (by
      rintro ⟨s, r⟩ i ⟨s', r'⟩ hs hi ⟨hsound, hacc⟩
      obtain ⟨hs, hr⟩ := observed_eq_some_iff.mp hs
      obtain rfl : r' = note r s i := hr
      exact ⟨hsound.step hi hs, hacc.step hsound hs⟩) hrun ⟨hinit, haccounted⟩
  refine ⟨hacc.reports, fun c hc => ?_, fun c hc => ?_, hacc.order⟩
  · exact (hsound.coherent.fdMap_iff _ c).mpr ⟨rfl, hsound.registered c hc⟩
  · exact (hsound.coherent.interest_iff _ _).mpr ⟨c, rfl, hsound.added c hc, rfl⟩

/-- Two channels are reported in one round, and the first one has handled its events. -/
theorem dispatched_in_order_two : ∃ (s : Dispatch Bool) (r : Record Bool),
    run (observed step note) ({ poller := Poller.ofFds fun c => if c then 7 else 8 }, {})
      [.update true .enableRead, .update false .enableRead, .notify true, .notify false,
        .poll (.events [(true, EPOLLIN), (false, EPOLLHUP)]), .handle] = some (s, r) ∧
      r.handled = [(true, EPOLLIN)] ∧ s.activeChannels_ = [false] ∧
      r.reported = r.handled ++ s.activeChannels_.map (fun c => (c, s.revents_ c)) ∧
      (∀ c ∈ s.activeChannels_, s.poller.fdMap_ (s.poller.channel c).fd_ = some c) ∧
      (r.reported.map Prod.fst ++ s.ready).Sublist r.notified := by
  set inputs : List (Input Bool) := [.update true .enableRead, .update false .enableRead,
    .notify true, .notify false, .poll (.events [(true, EPOLLIN), (false, EPOLLHUP)]),
    .handle] with hinputs
  have hrun : (run (observed step note)
      ({ poller := Poller.ofFds fun c : Bool => if c then 7 else 8 }, {}) inputs).map
        (fun x => (x.2.handled, x.1.activeChannels_)) = some ([(true, EPOLLIN)], [false]) := by
    decide +kernel
  obtain ⟨⟨s, r⟩, hs, hfields⟩ := Option.map_eq_some_iff.mp hrun
  obtain ⟨hhandled, hactive⟩ := Prod.mk.inj hfields
  have hnone : ∀ i ∈ inputs, ∀ c, i ≠ .update c .remove := by simp [hinputs]
  obtain ⟨hreports, hregistered, -, horder⟩ := dispatched_in_order hs
    ((Along.of_forall hnone).mono fun hi c _ => hi c)
  exact ⟨s, r, hs, hhandled, hactive, hreports, hregistered, horder⟩

/-- **How long a descriptor that is ready can wait.** In every run from any state, whatever becomes
ready or is ready no more, is handled and is updated meanwhile: with `k` others before it, and room
for `n` events, a descriptor that stays ready and in the interest set is reported within `m` rounds
that report something, as soon as `k < n * (2 ^ m - 1)`.

**Proof sketch.** A round reports it, or reports `n` others and doubles the room. -/
theorem reported_within {k : ℕ} (hk : s.ready[k]? = some c)
    (hrun : run (observed step note) (s, r) inputs = some (s', r'))
    (hstays : Along (observed step note) (fun x i => x.1.Stays c i) (s, r) inputs)
    (hpolls : k < s.eventsSize * (2 ^ inputs.countP Input.reports - 1)) :
    ∃ e, (c, e) ∈ r'.reported := by
  induction inputs generalizing s r k with
  | nil => simp at hpolls
  | cons i inputs ih =>
    obtain ⟨⟨s₁, r₁⟩, hs, hrest⟩ := run_cons hrun
    have hstays₁ := hstays.2 _ hs
    obtain ⟨hs, hr⟩ := observed_eq_some_iff.mp hs
    obtain rfl : r₁ = note r s i := hr
    have hcount : (i :: inputs).countP Input.reports =
        inputs.countP Input.reports + i.reports.toNat := by
      rw [List.countP_cons]
      cases i.reports <;> rfl
    rw [hcount] at hpolls
    rcases waits_step hk hpolls hstays.1 hs with ⟨e, he⟩ | ⟨k', hk', hm⟩
    · refine ⟨e, run_invariant (I := fun x : Dispatch ι × Record ι => (c, e) ∈ x.2.reported)
        (fun {x j y} hs hx => ?_) hrest he⟩
      obtain ⟨-, hy⟩ := observed_eq_some_iff.mp hs
      rw [hy]
      exact mem_reported_note hx x.1 j
    · exact ih hk' hrest hstays₁ hm

/-- With sixteen others before it, a descriptor is reported in the second round. -/
theorem reported_within_two : ∃ (s' : Dispatch ℕ) (r' : Record ℕ),
    run (observed step note) ({ poller := Poller.ofFds id, ready := List.range 17 }, {})
      (.poll (.events ((List.range 16).map fun c => (c, EPOLLIN))) ::
        (List.replicate 16 .handle ++ [.poll (.events [(16, EPOLLIN)])])) = some (s', r') ∧
      ∃ e, (16, e) ∈ r'.reported := by
  set inputs : List (Input ℕ) := .poll (.events ((List.range 16).map fun c => (c, EPOLLIN))) ::
    (List.replicate 16 .handle ++ [.poll (.events [(16, EPOLLIN)])]) with hinputs
  obtain ⟨⟨s', r'⟩, hs⟩ := Option.isSome_iff_exists.mp (show (run (observed step note)
    ({ poller := Poller.ofFds id, ready := List.range 17 }, {}) inputs).isSome = true by
    decide +kernel)
  have hnone : ∀ i ∈ inputs, i ≠ .lapse 16 ∧ ∀ op, i ≠ .update 16 op := by
    simp [hinputs]
  refine ⟨s', r', hs, reported_within (k := 16) rfl hs
    ((Along.of_forall hnone).mono fun hi => ⟨hi.1, fun op heq => absurd heq (hi.2 op)⟩) ?_⟩
  decide +kernel

end Runs

end Dispatch

end LouisNet.Reactor
