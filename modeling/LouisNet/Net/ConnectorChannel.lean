import LouisNet.Lib.Run
import LouisNet.Net.ConnectorOwnership

set_option relaxedAutoImplicit false
set_option autoImplicit false

/-!
# The channel of the connector

While an attempt is under way the connector has a channel, that of the attempt, and the channel is
registered in the poller. The tear-down of an attempt is split: `getSocket` removes the channel and
queues `resetChannel`, which destroys whatever channel it finds. So a channel is destroyed while
it is registered when an attempt begins before the `resetChannel` of the last one has run; and
`handleError` removes the channel without leaving the state `kConnecting`. Apart from these the
channel is where it should be.

## Main definitions

* `LouisNet.Net.Connector.ChannelInvariant` — the channel is that of the attempt.
* `LouisNet.Net.Connector.Steady` — the inputs that keep it so.

## Main results

* `LouisNet.Net.Connector.channel_invariant_of_steady` — it is so in every run of such inputs.
-/

namespace LouisNet.Net.Connector

open Lib Reactor

/-- In the state `kConnecting` the channel is that of the socket created last, and is registered. -/
def Connecting (c : Connector) : Prop :=
  c.state_ = .kConnecting → ∃ ch, c.channel_ = some ch ∧ ch.fd_ + 1 = c.sockets ∧
    ch.isInLoop_ = true ∧ ch.index_ = .kAdded

/-- **The channel of the connector**: in the state `kConnecting` it is that of the attempt, and is
registered; no channel that is registered is to be destroyed by a queued `resetChannel`; and
`getSocket`, which is called in the state `kConnecting` only, finds a channel. -/
structure ChannelInvariant (c : Connector) : Prop where
  connecting : c.Connecting
  reset : .resetChannel ∈ c.tasks_ → c.waiting = none
  getSocket : c.state_ = .kConnecting → c.getSocket ≠ none

/-- **The inputs that keep the channel in place.** A new attempt is made only while no channel is
registered, and it begins only when no channel is to be reset, so not in the callback either; and
no error is reported on the channel. -/
def Steady (c : Connector) : Input → Prop
  | .call call => c.CallAllowed call
  | .startRemote => True
  | .runTask result => c.tasks_.head? = some .startInLoop → c.connected_ = true → c.MayConnect result
  | .event revents calls =>
    (c.waiting = none ∨ ¬ has revents EPOLLERR) ∧ ∀ call ∈ calls, CallbackAllowed call

variable {NDEBUG : Bool} {c c' : Connector}

/-- In the state `kConnecting` a channel is registered. -/
theorem Connecting.waiting_ne_none (h : Connecting c) (hs : c.state_ = .kConnecting) :
    c.waiting ≠ none := by
  obtain ⟨ch, hch, -, hloop, -⟩ := h hs
  simp [waiting, hch, hloop]

/-- The two invariants say where the channel is. -/
theorem channelInvariant_of_connecting (h : Connecting c) (hp : Placed c) : ChannelInvariant c where
  connecting := h
  reset := fun hmem => by
    by_contra hne
    exact (hp hne).2 hmem
  getSocket := fun hs => by
    obtain ⟨ch, hch, -⟩ := h hs
    simp [Connector.getSocket, hch]

/-! ## The functions of the class -/

/-- An attempt puts its channel into place. -/
theorem connecting_connect {result : ConnectResult} (h : c.connect NDEBUG result = some c')
    (hs : c.state_ ≠ .kConnecting) : Connecting c' := by
  have hbegin : ∀ {r : Option Connector}, r = c.createNonblockingSocket.1.connecting NDEBUG
      c.createNonblockingSocket.2 → r = some c' → Connecting c' := by
    rintro r rfl h _
    obtain ⟨-, -, h⟩ := Option.bind_eq_some_iff.mp h
    obtain rfl := Option.some.inj h
    exact ⟨_, rfl, rfl, rfl, rfl⟩
  cases result with
  | noSocket =>
    obtain rfl := Option.some.inj h
    exact fun hs' => absurd hs' hs
  | ok => exact hbegin rfl h
  | EINPROGRESS => exact hbegin rfl h
  | failed =>
    obtain rfl := Option.some.inj h
    exact fun hs' => absurd hs' hs

theorem connecting_startInLoop {result : ConnectResult}
    (h : c.startInLoop NDEBUG result = some c') (hs : c.state_ ≠ .kConnecting) : Connecting c' := by
  obtain ⟨-, -, h⟩ := Option.bind_eq_some_iff.mp h
  split_ifs at h
  · exact connecting_connect h hs
  · obtain rfl := Option.some.inj h
    exact fun hs' => absurd hs' hs

/-- A call keeps the channel in place. -/
theorem connecting_runCall {call : Call} (h : c.runCall NDEBUG call = some c') (hI : Connecting c)
    (hok : c.CallAllowed call) : Connecting c' := by
  cases call with
  | start result =>
    exact connecting_startInLoop h fun hs => hI.waiting_ne_none hs hok.1
  | stop =>
    obtain rfl := Option.some.inj h
    exact hI
  | restart result => exact connecting_startInLoop h (by simp)

/-- An attempt that does not begin leaves the state. -/
theorem state_startInLoop {result : ConnectResult} (h : c.startInLoop NDEBUG result = some c')
    (hb : ¬ result.Begins) : c'.state_ = c.state_ := by
  obtain ⟨-, -, h⟩ := Option.bind_eq_some_iff.mp h
  split_ifs at h
  · cases result with
    | noSocket =>
      obtain rfl := Option.some.inj h
      rfl
    | ok => exact absurd (.inl rfl) hb
    | EINPROGRESS => exact absurd (.inr rfl) hb
    | failed =>
      obtain rfl := Option.some.inj h
      rfl
  · obtain rfl := Option.some.inj h
    rfl

/-- The calls in the callback begin no attempt, by induction on them. -/
theorem state_callback {calls : List Call} :
    ∀ {c c' : Connector}, calls.foldlM (runCall NDEBUG) c = some c' → c.state_ ≠ .kConnecting →
      (∀ call ∈ calls, CallbackAllowed call) → c'.state_ ≠ .kConnecting := by
  induction calls with
  | nil =>
    intro c c' h hs _
    obtain rfl := Option.some.inj h
    exact hs
  | cons call calls ih =>
    intro c c' h hs hok
    rw [List.foldlM_cons] at h
    obtain ⟨c₁, h₁, h₂⟩ := Option.bind_eq_some_iff.mp h
    have hcall := hok call List.mem_cons_self
    refine ih h₂ ?_ fun k hk => hok k (List.mem_cons_of_mem call hk)
    cases call with
    | start result => rwa [state_startInLoop h₁ hcall]
    | stop =>
      obtain rfl := Option.some.inj h₁
      exact hs
    | restart result =>
      rw [state_startInLoop h₁ hcall]
      simp

/-- `getSocket` leaves the state. -/
theorem state_getSocket {fd : ℕ} (h : c.getSocket = some (c', fd)) : c'.state_ = c.state_ := by
  unfold getSocket at h
  split at h
  · cases h
  · obtain ⟨rfl, -⟩ := Prod.mk.inj (Option.some.inj h)
    rfl

/-- `handleWrite` ends the attempt. -/
theorem state_handleWrite {calls : List Call} (h : c.handleWrite NDEBUG calls = some c')
    (hok : ∀ call ∈ calls, CallbackAllowed call) : c'.state_ ≠ .kConnecting := by
  unfold handleWrite at h
  split_ifs at h with hs
  · obtain ⟨⟨c₁, fd⟩, hget, h⟩ := Option.bind_eq_some_iff.mp h
    refine state_callback h ?_ hok
    rw [record, state_getSocket hget]
    simp
  · obtain ⟨-, -, h⟩ := Option.bind_eq_some_iff.mp h
    obtain rfl := Option.some.inj h
    exact hs

/-- `stopInLoop` ends the attempt. -/
theorem state_stopInLoop (h : c.stopInLoop = some c') : c'.state_ ≠ .kConnecting := by
  unfold stopInLoop at h
  split_ifs at h with hs
  · obtain ⟨⟨c₁, fd⟩, hget, h⟩ := Option.bind_eq_some_iff.mp h
    obtain rfl := Option.some.inj h
    rw [close, record, state_getSocket hget]
    simp
  · obtain rfl := Option.some.inj h
    exact hs

/-! ## Steps and runs -/

/-- An event without an error ends the attempt or leaves it as it is. -/
theorem connecting_handleEvents {revents : UInt32} {calls : List Call}
    (h : c.handleEvents NDEBUG revents calls = some c') (hI : Connecting c)
    (herr : c.waiting = none ∨ ¬ has revents EPOLLERR)
    (hok : ∀ call ∈ calls, CallbackAllowed call) : Connecting c' := by
  unfold handleEvents at h
  cases hw : c.waiting with
  | none =>
    simp only [hw] at h
    obtain rfl := Option.some.inj h
    exact hI
  | some fd =>
    have herr' : has revents EPOLLERR = false := by simpa [hw] using herr
    simp only [hw, Channel.handler, id_eq, ite_self, herr'] at h
    by_cases hout : has revents EPOLLOUT = true
    · simp only [hout, if_true] at h
      exact fun hs => absurd hs (state_handleWrite h hok)
    · simp only [hout] at h
      obtain rfl := Option.some.inj h
      exact hI

/-- A functor keeps the channel in place: `resetChannel` runs only when no attempt is under way. -/
theorem connecting_runFunctor {result : ConnectResult} {task : Task} {tasks : List Task}
    (htasks : c.tasks_ = task :: tasks)
    (h : ({ c with tasks_ := tasks } : Connector).runFunctor NDEBUG result task = some c')
    (hI : Connecting c) (hp : Placed c)
    (hok : task = .startInLoop → c.connected_ = true → c.MayConnect result) : Connecting c' := by
  cases task with
  | startInLoop =>
    obtain ⟨hassert, -, h⟩ := Option.bind_eq_some_iff.mp h
    split_ifs at h with hconnected
    · exact connecting_connect h fun hs => hI.waiting_ne_none hs (hok rfl hconnected).1
    · obtain rfl := Option.some.inj h
      exact hI
  | stopInLoop => exact fun hs => absurd hs (state_stopInLoop h)
  | resetChannel =>
    obtain ⟨-, -, h⟩ := Option.bind_eq_some_iff.mp h
    obtain rfl := Option.some.inj h
    intro hs
    -- the channel that is registered would be destroyed
    exact absurd (htasks ▸ List.mem_cons_self) (hp (hI.waiting_ne_none hs)).2

/-- A steady step is an allowed one. -/
theorem allowed_of_steady {input : Input} (hI : Connecting c) (hok : c.Steady input)
    (hevent : ∀ revents calls, input = .event revents calls → c.waiting ≠ none) :
    c.Allowed input := by
  cases input with
  | call call => exact hok
  | startRemote => trivial
  | runTask result =>
    intro task htask
    cases task with
    | startInLoop => exact hok (Option.mem_def.mp htask)
    | stopInLoop => exact fun hs => .inr (hI.waiting_ne_none hs)
    | resetChannel => trivial
  | event revents calls =>
    have herr := hok.1.resolve_left (hevent revents calls rfl)
    exact ⟨fun hboth => herr hboth.1, hok.2⟩

/-- **A steady step keeps the channel in place.** -/
theorem connecting_step {input : Input} (h : c.step NDEBUG input = some c') (hI : Connecting c)
    (hp : Placed c) (hok : c.Steady input) : Connecting c' ∧ Placed c' := by
  have hplaced : (∀ revents calls, input = .event revents calls → c.waiting ≠ none) → Placed c' :=
    fun hevent => (simulates_step h hp (allowed_of_steady hI hok hevent)).1
  cases input with
  | call call => exact ⟨connecting_runCall h hI hok, hplaced (by simp)⟩
  | startRemote =>
    refine ⟨?_, hplaced (by simp)⟩
    obtain rfl := Option.some.inj h
    exact hI
  | runTask result =>
    refine ⟨?_, hplaced (by simp)⟩
    unfold step at h
    cases htasks : c.tasks_ with
    | nil =>
      simp only [htasks] at h
      obtain rfl := Option.some.inj h
      exact hI
    | cons task tasks =>
      simp only [htasks] at h
      refine connecting_runFunctor htasks h hI hp fun htask => hok ?_
      rw [htasks, htask]
      rfl
  | event revents calls =>
    refine ⟨connecting_handleEvents h hI hok.1 hok.2, ?_⟩
    by_cases hw : c.waiting = none
    · have hsame : c.handleEvents NDEBUG revents calls = some c := by
        unfold handleEvents
        rw [hw]
      obtain rfl := Option.some.inj (hsame.symm.trans h)
      exact hp
    · exact hplaced fun _ _ _ => hw

/-- A run of a connector is a run of its step function. -/
theorem run_eq_run (inputs : List Input) :
    ∀ c : Connector, run NDEBUG c inputs = Lib.run (step NDEBUG) c inputs := by
  induction inputs with
  | nil => exact fun c => rfl
  | cons input inputs ih =>
    intro c
    rw [run, List.foldlM_cons, Lib.run]
    exact congrArg (Option.bind (c.step NDEBUG input)) (funext ih)

/-- **The channel of the connector is that of the attempt**, and registered, in every state that a
run of steady steps reaches, with assertions or without; no channel is destroyed while it is
registered, and `getSocket` always finds one.

**Proof sketch.** By induction on the steps. In the state `kConnecting` a channel is registered, so
no `resetChannel` is queued; all other states say nothing about the channel, and the state is left
whenever `getSocket` removes the channel, except in `handleError`. -/
theorem channel_invariant_of_steady {inputs : List Input} (hrun : run NDEBUG {} inputs = some c)
    (hok : Along (step NDEBUG) Steady {} inputs) : ChannelInvariant c := by
  rw [run_eq_run] at hrun
  have hinv : Connecting c ∧ Placed c :=
    Along.invariant (I := fun c => Connecting c ∧ Placed c)
      (fun hstep hok hI => connecting_step hstep hI.1 hI.2 hok) hok hrun
      ⟨by simp [Connecting], placed_of_waiting_eq_none rfl⟩
  exact channelInvariant_of_connecting hinv.1 hinv.2

instance (c : Connector) : (input : Input) → Decidable (c.Steady input)
  | .call call => inferInstanceAs (Decidable (c.CallAllowed call))
  | .startRemote => inferInstanceAs (Decidable True)
  | .runTask _ => inferInstanceAs (Decidable (_ → _ → _))
  | .event _ _ => inferInstanceAs (Decidable ((_ ∨ _) ∧ ∀ _ ∈ _, _))

/-- An attempt is stopped, its channel is reset, and another one is under way. -/
def stoppedRun : List Input :=
  [.call (.start .EINPROGRESS), .call .stop, .runTask .ok, .runTask .ok, .call (.start .EINPROGRESS)]

/-- The channel is that of the second attempt. -/
theorem channel_invariant_of_steady_stopped : ∃ c, run false {} stoppedRun = some c ∧
    c.state_ = .kConnecting ∧ c.waiting = some 1 ∧ ChannelInvariant c := by
  have hrun : (run false {} stoppedRun).map (fun c => (c.state_, c.waiting)) =
      some (.kConnecting, some 1) := by decide
  obtain ⟨c, hc, hfields⟩ := Option.map_eq_some_iff.mp hrun
  obtain ⟨hstate, hwaiting⟩ := Prod.mk.inj hfields
  exact ⟨c, hc, hstate, hwaiting, channel_invariant_of_steady hc (by decide)⟩

/-- After an error event the state is `kConnecting` and the channel is not registered; behind the
queued `resetChannel` there is none, and `stopInLoop` uses it. An attempt that begins behind a
`stopInLoop` is destroyed by its `resetChannel` while it is registered. -/
theorem not_channelInvariant_error :
    (∃ c, run false {} [.call (.start .EINPROGRESS), .event EPOLLERR []] = some c ∧
      c.state_ = .kConnecting ∧ c.waiting = none ∧ ¬ ChannelInvariant c) ∧
    run false {} [.call (.start .EINPROGRESS), .event EPOLLERR [], .runTask .ok, .call .stop,
      .runTask .ok] = none ∧
    (∃ c, run false {} [.call (.start .EINPROGRESS), .call .stop, .runTask .ok,
      .call (.start .EINPROGRESS)] = some c ∧ c.tasks_ = [.resetChannel] ∧ c.waiting = some 1 ∧
      ¬ ChannelInvariant c) := by
  refine ⟨?_, by decide, ?_⟩
  · have hrun : (run false {} [.call (.start .EINPROGRESS), .event EPOLLERR []]).map
        (fun c => (c.state_, c.waiting)) = some (.kConnecting, none) := by decide
    obtain ⟨c, hc, hfields⟩ := Option.map_eq_some_iff.mp hrun
    obtain ⟨hstate, hwaiting⟩ := Prod.mk.inj hfields
    exact ⟨c, hc, hstate, hwaiting, fun h => h.connecting.waiting_ne_none hstate hwaiting⟩
  · have hrun : (run false {} [.call (.start .EINPROGRESS), .call .stop, .runTask .ok,
        .call (.start .EINPROGRESS)]).map (fun c => (c.tasks_, c.waiting)) =
        some ([.resetChannel], some 1) := by decide
    obtain ⟨c, hc, hfields⟩ := Option.map_eq_some_iff.mp hrun
    obtain ⟨htasks, hwaiting⟩ := Prod.mk.inj hfields
    refine ⟨c, hc, htasks, hwaiting, fun h => ?_⟩
    have hnone := h.reset (by simp [htasks])
    rw [hwaiting] at hnone
    cases hnone

end LouisNet.Net.Connector
