import LouisNet.Net.Acceptor
import LouisNet.Net.Endpoint

set_option relaxedAutoImplicit false
set_option autoImplicit false

/-!
# The acceptor and its listening socket

An `Acceptor` over a listening socket that an edge-triggered `epoll` instance watches. Connections
arrive at any time, also between two calls of `accept4` in the loop of `handleRead`, and a
connection that waits may be withdrawn by its peer. The loop is left when there are no more
connections, or with an error such as `EMFILE`, behind which the read interest is removed and added
again. So a connection that waits is always seen again: whenever the loop thread waits with nothing
on the ready list, no connection waits, and those that arrived were accepted in their order.

As for the other sockets, a descriptor that becomes ready for something it is registered for is put
on the ready list, it may be put there at any other time as well, and a registration looks at the
readiness as it is.

## Main definitions

* `LouisNet.Net.Acceptor.pass` — one pass through the loop of `handleRead`.
* `LouisNet.Net.Listener` — an acceptor, its socket, and whether its loop runs.
* `LouisNet.Net.Listener.Attentive` — no connection is missed.
* `LouisNet.Net.Listener.Accounted` — where the connections are that have arrived.

## Main results

* `LouisNet.Net.Listener.accepted_in_order` — who was accepted, in every run.
* `LouisNet.Net.Listener.accepted_of_stuck` — everybody is accepted.
-/

namespace LouisNet.Net

open Lib Reactor

namespace Acceptor

variable {NDEBUG callback more : Bool} {a a' : Acceptor} {p : Pass}

/-! ## One pass -/

/-- One pass through the loop of `handleRead`, and whether the loop goes on. -/
def pass (NDEBUG : Bool) (a : Acceptor) (p : Pass) : Option (Acceptor × Bool) :=
  match p.accept4 with
  | .accepted connfd =>
    if connfd > 0 then (a.newConnection NDEBUG connfd p).map fun a => (a, true)
    else some (leave { a with sockets := a.sockets ++ [{ fd := connfd }] } p.accept4, false)
  | .failed errno =>
    some (leave { a with errno := if WouldBlock errno then errno else p.logged } p.accept4, false)

/-- The loop of `handleRead` consists of its passes. -/
theorem handleRead_cons (NDEBUG : Bool) (a : Acceptor) (p : Pass) (passes : List Pass) :
    a.handleRead NDEBUG (p :: passes) =
      (a.pass NDEBUG p).bind fun x => if x.2 then x.1.handleRead NDEBUG passes else some x.1 := by
  unfold pass
  rw [handleRead]
  cases p.accept4 with
  | accepted connfd =>
    dsimp only
    split_ifs
    · cases a.newConnection NDEBUG connfd p <;> rfl
    · rfl
  | failed errno => rfl

/-- The updates of the channel when the loop was left for the last time. -/
def lastUpdates (a : Acceptor) : List Channel := a.exits.getLast?.elim [] Exit.updates

/-- A channel that is registered for reading is watched. -/
theorem Listening.watches (ha : Listening callback a) :
    Kernel.watches a.acceptChannel_ EPOLLIN = true := by
  obtain ⟨hevents, hindex, -⟩ := ha
  rw [Kernel.watches, hevents, hindex]
  rfl

/-- A pass that accepts a connection has one more socket, and the loop goes on. -/
theorem pass_accepted {connfd : ℕ} (ha : Listening callback a) (hp : p.accept4 = .accepted connfd)
    (hfd : connfd > 0) (hpass : a.pass NDEBUG p = some (a', more)) :
    more = true ∧ Listening callback a' ∧ a'.sockets.length = a.sockets.length + 1 := by
  unfold pass at hpass
  rw [hp] at hpass
  dsimp only at hpass
  rw [if_pos hfd] at hpass
  obtain ⟨a₁, hnew, heq⟩ := Option.map_eq_some_iff.mp hpass
  obtain ⟨rfl, rfl⟩ := Prod.mk.inj heq
  refine ⟨rfl, ha.newConnection hnew, ?_⟩
  unfold newConnection at hnew
  split_ifs at hnew
  · obtain ⟨h, -, hnew⟩ := Option.bind_eq_some_iff.mp hnew
    obtain rfl := Option.some.inj hnew
    simp
  · obtain rfl := Option.some.inj hnew
    simp

/-- A pass whose `accept4` fails leaves the loop: with the channel as it is if there are no more
connections, and otherwise behind removing and adding its read interest. -/
theorem pass_failed {errno : ℕ} (ha : Listening callback a) (hp : p.accept4 = .failed errno)
    (hlogged : WouldBlock errno ∨ ¬ WouldBlock p.logged)
    (hpass : a.pass NDEBUG p = some (a', more)) :
    more = false ∧ Listening callback a' ∧ a'.sockets = a.sockets ∧
      (WouldBlock errno ∧ a'.lastUpdates = [] ∨
        ¬ WouldBlock errno ∧ ∃ disabled enabled, a'.lastUpdates = [disabled, enabled] ∧
          Kernel.watches enabled EPOLLIN = true) := by
  unfold pass at hpass
  rw [hp] at hpass
  obtain ⟨rfl, rfl⟩ := Prod.mk.inj (Option.some.inj hpass)
  have ha' : Listening callback
      { a with errno := if WouldBlock errno then errno else p.logged } := ha
  refine ⟨rfl, ha'.leave _, ?_⟩
  unfold leave lastUpdates
  by_cases herrno : WouldBlock errno
  · simp [herrno]
  · have hlog := hlogged.resolve_left herrno
    simp only [if_neg herrno, if_neg hlog, List.getLast?_append, List.getLast?_singleton]
    refine ⟨trivial, .inr ⟨herrno, _, _, rfl, ?_⟩⟩
    obtain ⟨-, henabled, hadded⟩ := rearm ha.1 ha.2.1
    rw [Kernel.watches, henabled, hadded]
    rfl

end Acceptor

/-! ## The listening socket -/

/-- An acceptor and its listening socket. -/
structure Listener where
  acceptor : Acceptor
  /-- The connections that wait to be accepted, the oldest first. -/
  backlog : List ℕ := []
  /-- The descriptor is on the ready list. -/
  pending : Bool := false
  /-- The loop of `handleRead` runs, and calls `accept4` next. -/
  reading : Bool := false
  deriving DecidableEq, Repr

namespace Listener

/-- What happens at a listening socket. -/
inductive Input where
  /-- a connection arrives; `edge` says whether the descriptor is put on the ready list -/
  | arrive (c : ℕ) (edge : Bool)
  /-- the `k`th connection that waits is withdrawn -/
  | withdraw (k : ℕ)
  /-- `epoll_wait` reports the descriptor -/
  | poll (revents : UInt32)
  /-- a pass through the loop of `handleRead` -/
  | accept (p : Acceptor.Pass)
  /-- an accepted connection ends -/
  | free (k : ℕ)
  deriving DecidableEq, Repr

/-- `epoll_ctl`, after an update of the channel. -/
def epollCtl (backlog : List ℕ) (pending : Bool) (ch : Channel) : Bool :=
  Kernel.watches ch EPOLLIN && (pending || !backlog.isEmpty)

/-- `accept4` returns a connection only if one waits, and `EAGAIN` only if none does. -/
def Returns (l : Listener) : Acceptor.Accept4 → Prop
  | .accepted _ => l.backlog ≠ []
  | .failed errno => Acceptor.WouldBlock errno → l.backlog = []

instance (l : Listener) : ∀ result, Decidable (l.Returns result)
  | .accepted _ => inferInstanceAs (Decidable (_ ≠ _))
  | .failed _ => inferInstanceAs (Decidable (_ → _))

/-- The connections that wait behind a call of `accept4`. -/
def rest (l : Listener) : Acceptor.Accept4 → List ℕ
  | .accepted _ => l.backlog.tail
  | .failed _ => l.backlog

/-- One step. The acceptor has set the read callback of its channel, and no other. -/
def step (NDEBUG : Bool) (l : Listener) : Input → Option Listener
  | .arrive c edge =>
    assert (Kernel.watches l.acceptor.acceptChannel_ EPOLLIN = true → l.backlog = [] →
      edge = true) <|
    some { l with backlog := l.backlog ++ [c], pending := l.pending || edge }
  | .withdraw k =>
    assert (k < l.backlog.length) <| some { l with backlog := l.backlog.eraseIdx k }
  | .poll revents =>
    assert (l.reading = false ∧ l.pending = true ∧ has revents EPOLLIN =
      (Kernel.watches l.acceptor.acceptChannel_ EPOLLIN && !l.backlog.isEmpty)) <|
    some { l with
      pending := false
      reading := Channel.handler revents id id (fun _ => true) id l.reading }
  | .accept p =>
    assert (l.reading = true ∧ l.Returns p.accept4) <|
    (l.acceptor.pass NDEBUG p).map fun x =>
      { acceptor := x.1
        backlog := l.rest p.accept4
        pending := if x.2 then l.pending
          else x.1.lastUpdates.foldl (epollCtl (l.rest p.accept4)) l.pending
        reading := x.2 }
  | .free k => some { l with acceptor := l.acceptor.free k }

/-- `Acceptor::listen`, when some connections have arrived before the channel is registered. -/
def start (listenFd : ℕ) (callback : Bool) (errno : ℕ) (backlog : List ℕ) : Listener :=
  let acceptor := Acceptor.listen listenFd callback errno
  { acceptor, backlog, pending := epollCtl backlog false acceptor.acceptChannel_ }

/-- A descriptor above `0`, or an error that logging does not turn into `EAGAIN`. -/
def Input.Regular : Input → Prop
  | .accept p => match p.accept4 with
    | .accepted connfd => connfd > 0
    | .failed errno => Acceptor.WouldBlock errno ∨ ¬ Acceptor.WouldBlock p.logged
  | _ => True

/-- The loop thread goes on by itself, and `accept4` has no other error than `EAGAIN`. -/
def Input.Internal : Input → Prop
  | .poll _ => True
  | .accept p => match p.accept4 with
    | .accepted connfd => connfd > 0
    | .failed errno => Acceptor.WouldBlock errno
  | _ => False

/-- What becomes of the connections. -/
structure Record where
  arrived : List ℕ := []
  accepted : List ℕ := []
  withdrawn : List ℕ := []

/-- What a step adds to the record. -/
def note (r : Record) (l : Listener) : Input → Record
  | .arrive c _ => { r with arrived := r.arrived ++ [c] }
  | .withdraw k => { r with withdrawn := r.withdrawn ++ l.backlog[k]?.toList }
  | .accept p => match p.accept4 with
    | .accepted _ => { r with accepted := r.accepted ++ l.backlog.head?.toList }
    | .failed _ => r
  | _ => r

variable {NDEBUG callback : Bool} {l l' : Listener} {i : Input} {r r' : Record}

/-- An internal step is regular. -/
theorem Input.Internal.regular (hi : i.Internal) : i.Regular := by
  cases i with
  | accept p =>
    unfold Input.Internal at hi
    unfold Input.Regular
    cases hp : p.accept4 with
    | accepted connfd => simpa only [hp] using hi
    | failed errno =>
      simp only [hp] at hi ⊢
      exact .inl hi
  | _ => trivial

/-! ## No connection is missed -/

/-- The channel is registered for reading, and a connection that waits is on its way to the loop of
`handleRead`. -/
structure Attentive (callback : Bool) (l : Listener) : Prop where
  listening : Acceptor.Listening callback l.acceptor
  heard : Heard (l.backlog ≠ []) (l.pending = true) (l.reading = true)

/-- In the beginning. -/
theorem attentive_start (listenFd errno : ℕ) (callback : Bool) (backlog : List ℕ) :
    Attentive callback (start listenFd callback errno backlog) := by
  have hlistening : Acceptor.Listening callback (Acceptor.listen listenFd callback errno) :=
    ⟨by simp [Acceptor.listen, Channel.enableRead], rfl, rfl⟩
  refine ⟨hlistening, .rearm fun hne => ?_⟩
  have hbacklog : backlog ≠ [] := hne
  have hwatches := hlistening.watches
  show epollCtl backlog false (Acceptor.listen listenFd callback errno).acceptChannel_ = true
  simp [epollCtl, hwatches, hbacklog]

/-- A pass through the loop misses no connection. -/
theorem Attentive.accept (h : Attentive callback l) {p : Acceptor.Pass}
    (hreg : (Input.accept p).Regular) (hs : l.step NDEBUG (.accept p) = some l') :
    Attentive callback l' := by
  simp only [step, assert_eq_some_iff] at hs
  obtain ⟨⟨hreading, hreturns⟩, hs⟩ := hs
  obtain ⟨⟨a, more⟩, hpass, rfl⟩ := Option.map_eq_some_iff.mp hs
  unfold Input.Regular at hreg
  cases hp : p.accept4 with
  | accepted connfd =>
    simp only [hp] at hreg
    obtain ⟨rfl, hlistening, -⟩ := Acceptor.pass_accepted h.listening hp hreg hpass
    exact ⟨hlistening, .taken fun _ => rfl⟩
  | failed errno =>
    simp only [hp] at hreg
    obtain ⟨rfl, hlistening, -, hlast⟩ := Acceptor.pass_failed h.listening hp hreg hpass
    refine ⟨hlistening, ?_⟩
    rcases hlast with ⟨hblock, -⟩ | ⟨-, disabled, enabled, hupdates, hwatches⟩
    · -- `EAGAIN` says that no connection waits
      rw [hp] at hreturns
      exact .stop (not_not.mpr (hreturns hblock))
    · -- the channel was added again, and its registration sees those that wait
      refine .rearm fun hne => ?_
      have hbacklog : l.backlog ≠ [] := hne
      simp [hupdates, epollCtl, rest, hwatches, hbacklog]

/-- **A step misses no connection.** -/
theorem Attentive.step (h : Attentive callback l) (hreg : i.Regular)
    (hs : l.step NDEBUG i = some l') : Attentive callback l' := by
  cases i with
  | arrive c edge =>
    simp only [Listener.step, assert_eq_some_iff, Option.some.injEq] at hs
    obtain ⟨hedge, rfl⟩ := hs
    refine ⟨h.listening, ?_⟩
    simp only [Bool.or_eq_true]
    refine h.heard.rise fun _ => ?_
    by_cases hnil : l.backlog = []
    · exact .inr (hedge h.listening.watches hnil)
    · exact .inl hnil
  | withdraw k =>
    simp only [Listener.step, assert_eq_some_iff, Option.some.injEq] at hs
    obtain ⟨-, rfl⟩ := hs
    refine ⟨h.listening, h.heard.mono (fun hne hnil => hne ?_) id id⟩
    show l.backlog.eraseIdx k = []
    rw [hnil]
    rfl
  | poll revents =>
    simp only [Listener.step, assert_eq_some_iff, Option.some.injEq] at hs
    obtain ⟨⟨-, -, hrevents⟩, rfl⟩ := hs
    refine ⟨h.listening, .taken fun hne => ?_⟩
    have hbacklog : l.backlog ≠ [] := hne
    have hin : has revents EPOLLIN = true := by
      rw [hrevents, h.listening.watches]
      simp [hbacklog]
    have hread : has revents (EPOLLIN ||| EPOLLPRI ||| EPOLLRDHUP) = true := by
      by_contra hnot
      simp only [has, bne_iff_ne, ne_eq, not_not] at hin hnot
      refine hin ?_
      have hsub : EPOLLIN = (EPOLLIN ||| EPOLLPRI ||| EPOLLRDHUP) &&& EPOLLIN := by decide
      rw [hsub, ← UInt32.and_assoc, hnot]
      rfl
    simp [Channel.handler, hread]
  | accept p => exact h.accept hreg hs
  | free k =>
    obtain rfl := Option.some.inj hs
    exact ⟨h.listening, h.heard⟩

/-! ## Where the connections are -/

/-- The connections that were accepted and those that wait have arrived in this order, the others
were withdrawn, and each that was accepted has a socket. -/
structure Accounted (x : Listener × Record) : Prop where
  order : (x.2.accepted ++ x.1.backlog).Sublist x.2.arrived
  all : x.2.arrived.Perm (x.2.accepted ++ x.1.backlog ++ x.2.withdrawn)
  sockets : x.1.acceptor.sockets.length = x.2.accepted.length

/-- A pass through the loop keeps the account. -/
theorem Accounted.accept (h : Accounted (l, r)) (hatt : Attentive callback l) {p : Acceptor.Pass}
    (hreg : (Input.accept p).Regular) (hs : l.step NDEBUG (.accept p) = some l') :
    Accounted (l', note r l (.accept p)) := by
  simp only [step, assert_eq_some_iff] at hs
  obtain ⟨⟨-, hreturns⟩, hs⟩ := hs
  obtain ⟨⟨a, more⟩, hpass, rfl⟩ := Option.map_eq_some_iff.mp hs
  unfold Input.Regular at hreg
  have horder := h.order
  have hall := h.all
  have hsockets := h.sockets
  cases hp : p.accept4 with
  | accepted connfd =>
    simp only [hp] at hreg
    rw [hp] at hreturns
    obtain ⟨-, -, hlength⟩ := Acceptor.pass_accepted hatt.listening hp hreg hpass
    -- the oldest connection goes from those that wait to those that were accepted
    obtain ⟨c, backlog, hbacklog⟩ := List.exists_cons_of_ne_nil hreturns
    have hsame : (r.accepted ++ l.backlog.head?.toList) ++ l.backlog.tail =
        r.accepted ++ l.backlog := by
      rw [hbacklog]
      simp
    refine ⟨?_, ?_, ?_⟩
    · simpa only [note, hp, rest, hsame] using horder
    · simpa only [note, hp, rest, hsame] using hall
    · simp only [note, hp, hbacklog]
      simpa [hlength] using hsockets
  | failed errno =>
    simp only [hp] at hreg
    obtain ⟨-, -, hsame, -⟩ := Acceptor.pass_failed hatt.listening hp hreg hpass
    refine ⟨?_, ?_, ?_⟩
    · simpa only [note, hp, rest] using horder
    · simpa only [note, hp, rest] using hall
    · simpa only [note, hp, hsame] using hsockets

/-- **A step keeps the account.** -/
theorem Accounted.step (h : Accounted (l, r)) (hatt : Attentive callback l) (hreg : i.Regular)
    (hs : l.step NDEBUG i = some l') : Accounted (l', note r l i) := by
  have horder := h.order
  have hall := h.all
  have hsockets := h.sockets
  cases i with
  | arrive c edge =>
    simp only [Listener.step, assert_eq_some_iff, Option.some.injEq] at hs
    obtain ⟨-, rfl⟩ := hs
    refine ⟨?_, ?_, hsockets⟩
    · have hlater := horder.append (List.Sublist.refl [c])
      rwa [List.append_assoc] at hlater
    · have hlater : (r.accepted ++ (l.backlog ++ (r.withdrawn ++ [c]))).Perm
          (r.accepted ++ (l.backlog ++ ([c] ++ r.withdrawn))) :=
        .append_left _ (.append_left _ List.perm_append_comm)
      refine (hall.append_right [c]).trans ?_
      simpa only [note, List.append_assoc] using hlater
  | withdraw k =>
    simp only [Listener.step, assert_eq_some_iff, Option.some.injEq] at hs
    obtain ⟨hk, rfl⟩ := hs
    have hget : l.backlog[k]?.toList = [l.backlog[k]] := by
      rw [List.getElem?_eq_getElem hk]
      rfl
    refine ⟨?_, ?_, hsockets⟩
    · exact ((List.Sublist.refl _).append (List.eraseIdx_sublist l.backlog k)).trans horder
    · have hperm : l.backlog.Perm (l.backlog.eraseIdx k ++ [l.backlog[k]]) :=
        (List.getElem_cons_eraseIdx_perm hk).symm.trans (List.perm_append_singleton _ _).symm
      have hlater : (r.accepted ++ (l.backlog ++ r.withdrawn)).Perm
          (r.accepted ++ (l.backlog.eraseIdx k ++ ([l.backlog[k]] ++ r.withdrawn))) := by
        refine .append_left _ ?_
        rw [← List.append_assoc (l.backlog.eraseIdx k)]
        exact hperm.append_right _
      have hlast : (r.accepted ++ (l.backlog.eraseIdx k ++ ([l.backlog[k]] ++ r.withdrawn))).Perm
          (r.accepted ++ (l.backlog.eraseIdx k ++ (r.withdrawn ++ [l.backlog[k]]))) :=
        .append_left _ (.append_left _ List.perm_append_comm)
      refine hall.trans ?_
      simpa only [note, hget, List.append_assoc] using hlater.trans hlast
  | poll revents =>
    simp only [Listener.step, assert_eq_some_iff, Option.some.injEq] at hs
    obtain ⟨-, rfl⟩ := hs
    exact ⟨horder, hall, hsockets⟩
  | accept p => exact h.accept hatt hreg hs
  | free k =>
    obtain rfl := Option.some.inj hs
    refine ⟨horder, hall, ?_⟩
    simpa [Acceptor.free, note] using hsockets

/-! ## Progress -/

/-- How many steps the loop thread can take by itself. -/
def work (l : Listener) : ℕ := l.backlog.length + 2 * l.pending.toNat + l.reading.toNat

/-- Each step that the loop thread takes by itself leaves less to do. -/
theorem work_step (h : Attentive callback l) (hi : i.Internal) (hs : l.step NDEBUG i = some l') :
    l'.work < l.work := by
  cases i with
  | poll revents =>
    simp only [step, assert_eq_some_iff, Option.some.injEq] at hs
    obtain ⟨⟨hreading, hpending, -⟩, rfl⟩ := hs
    have hle : ∀ b : Bool, b.toNat ≤ 1 := Bool.toNat_le
    have hone := hle (Channel.handler revents id id (fun _ => true) id l.reading)
    simp only [work, hreading, hpending, Bool.toNat_true, Bool.toNat_false] at hone ⊢
    omega
  | accept p =>
    have hreg := hi.regular
    simp only [step, assert_eq_some_iff] at hs
    obtain ⟨⟨hreading, hreturns⟩, hs⟩ := hs
    obtain ⟨⟨a, more⟩, hpass, rfl⟩ := Option.map_eq_some_iff.mp hs
    unfold Input.Internal at hi
    unfold Input.Regular at hreg
    cases hp : p.accept4 with
    | accepted connfd =>
      simp only [hp] at hreg
      rw [hp] at hreturns
      obtain ⟨rfl, -, -⟩ := Acceptor.pass_accepted h.listening hp hreg hpass
      obtain ⟨c, backlog, hbacklog⟩ := List.exists_cons_of_ne_nil hreturns
      simp only [work, rest, hreading, hbacklog, List.tail_cons, List.length_cons, if_true]
      omega
    | failed errno =>
      simp only [hp] at hi hreg
      obtain ⟨rfl, -, -, hlast⟩ := Acceptor.pass_failed h.listening hp hreg hpass
      obtain ⟨-, hupdates⟩ := hlast.resolve_right fun hother => hother.1 hi
      simp [work, rest, hreading, hupdates]
  | arrive c edge => cases hi
  | withdraw k => cases hi
  | free k => cases hi

/-- A new connection can be accepted. -/
theorem exists_pass_accepted (NDEBUG : Bool) (a : Acceptor) :
    ∃ x, a.pass NDEBUG { accept4 := .accepted 1 } = some x := by
  unfold Acceptor.pass Acceptor.newConnection
  cases a.newConnectionCallback_ with
  | true =>
    obtain ⟨h, hnew, -⟩ := Acceptor.onNewConnection_none NDEBUG .main
    simp [hnew]
  | false => exact ⟨_, rfl⟩

/-- **When the loop thread cannot go on, it waits with nothing on the ready list.** -/
theorem quiet_of_stuck (hstuck : ∀ i : Input, i.Internal → l.step NDEBUG i = none) :
    l.reading = false ∧ l.pending = false := by
  have hreading : l.reading = false := by
    by_contra hreading
    have hreading : l.reading = true := by simpa using hreading
    by_cases hnil : l.backlog = []
    · have hnone := hstuck (.accept { accept4 := .failed EAGAIN }) (.inl rfl)
      simp [step, hreading, Returns, hnil, Acceptor.pass, assert] at hnone
    · have hnone := hstuck (.accept { accept4 := .accepted 1 }) Nat.one_pos
      obtain ⟨x, hx⟩ := exists_pass_accepted NDEBUG l.acceptor
      simp [step, hreading, Returns, hnil, hx, assert] at hnone
  refine ⟨hreading, ?_⟩
  by_contra hpending
  have hpending : l.pending = true := by simpa using hpending
  cases hlevel : Kernel.watches l.acceptor.acceptChannel_ EPOLLIN && !l.backlog.isEmpty with
  | true =>
    have hnone := hstuck (.poll EPOLLIN) trivial
    simp only [step, hreading, hpending, hlevel] at hnone
    simp [assert, has, EPOLLIN] at hnone
  | false =>
    have hnone := hstuck (.poll 0) trivial
    simp only [step, hreading, hpending, hlevel] at hnone
    simp [assert, has, EPOLLIN] at hnone

/-! ## Runs -/

section Runs

variable {listenFd errno : ℕ} {backlog : List ℕ} {inputs more : List Input}

/-- What every run keeps. -/
theorem accounted_run (hrun : run (observed (step NDEBUG) note)
      (start listenFd callback errno backlog, { arrived := backlog }) inputs = some (l, r))
    (hreg : ∀ i ∈ inputs, i.Regular) : Attentive callback l ∧ Accounted (l, r) := by
  have hstart : Accounted (start listenFd callback errno backlog, { arrived := backlog }) :=
    ⟨List.Sublist.refl _, by simp [start], rfl⟩
  refine (Along.of_forall hreg).invariant
    (I := fun x : Listener × Record => Attentive callback x.1 ∧ Accounted x) ?_ hrun
    ⟨attentive_start listenFd errno callback backlog, hstart⟩
  rintro ⟨l, r⟩ i ⟨l', r'⟩ hs hi ⟨hatt, hacc⟩
  obtain ⟨hs, hr⟩ := observed_eq_some_iff.mp hs
  obtain rfl : r' = note r l i := hr
  exact ⟨hatt.step hi hs, hacc.step hatt hi hs⟩

/-- **Connections are accepted in the order in which they arrive, and none is forgotten.** In every
run of the acceptor and its socket, with connections that arrive and are withdrawn at any time, and
whatever errors `accept4` returns, as long as every descriptor is above `0` and logging turns no
error into `EAGAIN`: the connections that were accepted and those that wait arrived in this order,
all others were withdrawn, and there are as many sockets as connections accepted; and whenever the
loop thread waits with nothing on the ready list, no connection waits.

**Proof sketch.** The loop of `handleRead` ends with `EAGAIN`, when no connection waits, or after
the read interest was added again, which puts the descriptor on the ready list if one waits. -/
theorem accepted_in_order (hrun : run (observed (step NDEBUG) note)
      (start listenFd callback errno backlog, { arrived := backlog }) inputs = some (l, r))
    (hreg : ∀ i ∈ inputs, i.Regular) :
    (r.accepted ++ l.backlog).Sublist r.arrived ∧
      r.arrived.Perm (r.accepted ++ l.backlog ++ r.withdrawn) ∧
      l.acceptor.sockets.length = r.accepted.length ∧
      (l.reading = false → l.pending = false → l.backlog = []) := by
  obtain ⟨hatt, hacc⟩ := accounted_run hrun hreg
  refine ⟨hacc.order, hacc.all, hacc.sockets, fun hreading hpending => ?_⟩
  exact not_not.mp (hatt.heard.low (by simp [hpending]) (by simp [hreading]))

/-- A second connection arrives while the first one is accepted, without putting the descriptor on
the ready list. The next call of `accept4` fails with `EMFILE`, and it is accepted all the same. -/
theorem accepted_in_order_emfile : ∃ (l : Listener) (r : Record),
    run (observed (step false) note) (start 3 true 0 [], {})
      [.arrive 7 true, .poll EPOLLIN, .arrive 8 false, .accept { accept4 := .accepted 5 },
        .accept { accept4 := .failed 24 }, .poll EPOLLIN, .accept { accept4 := .accepted 6 },
        .accept { accept4 := .failed EAGAIN }] = some (l, r) ∧
      r.accepted = [7, 8] ∧ (r.accepted ++ l.backlog).Sublist r.arrived ∧
      r.arrived.Perm (r.accepted ++ l.backlog ++ r.withdrawn) ∧
      l.acceptor.sockets.length = r.accepted.length ∧ l.backlog = [] := by
  have hrun : (run (observed (step false) note) (start 3 true 0 [], {})
      [.arrive 7 true, .poll EPOLLIN, .arrive 8 false, .accept { accept4 := .accepted 5 },
        .accept { accept4 := .failed 24 }, .poll EPOLLIN, .accept { accept4 := .accepted 6 },
        .accept { accept4 := .failed EAGAIN }]).map
          (fun x => (x.2.accepted, x.1.reading, x.1.pending)) = some ([7, 8], false, false) := by
    decide
  obtain ⟨⟨l, r⟩, hl, hfields⟩ := Option.map_eq_some_iff.mp hrun
  simp only [Prod.mk.injEq] at hfields
  obtain ⟨haccepted, hreading, hpending⟩ := hfields
  obtain ⟨horder, hall, hsockets, hquiet⟩ := accepted_in_order hl (by
    simp [Input.Regular, Acceptor.WouldBlock, EAGAIN, EWOULDBLOCK])
  exact ⟨l, r, hl, haccepted, horder, hall, hsockets, hquiet hreading hpending⟩

/-- **Every connection is accepted.** From every state to which such a run leads: as long as
`accept4` has no other error than `EAGAIN`, the loop thread can take only so many steps by itself,
and when it cannot go on, every connection that has arrived was accepted or withdrawn. -/
theorem accepted_of_stuck (hrun : run (observed (step NDEBUG) note)
      (start listenFd callback errno backlog, { arrived := backlog }) inputs = some (l, r))
    (hreg : ∀ i ∈ inputs, i.Regular)
    (hmore : run (observed (step NDEBUG) note) (l, r) more = some (l', r'))
    (hinternal : ∀ i ∈ more, i.Internal) :
    more.length ≤ l.backlog.length + 3 ∧
      ((∀ i : Input, i.Internal → l'.step NDEBUG i = none) →
        r'.arrived.Perm (r'.accepted ++ r'.withdrawn)) := by
  obtain ⟨hatt, -⟩ := accounted_run hrun hreg
  have hstep : ∀ {x : Listener × Record} {i y}, observed (step NDEBUG) note x i = some y →
      i.Internal → Attentive callback x.1 → Attentive callback y.1 ∧ y.1.work < x.1.work := by
    intro x i y hs hi hx
    obtain ⟨hs, -⟩ := observed_eq_some_iff.mp hs
    exact ⟨hx.step hi.regular hs, work_step hx hi hs⟩
  obtain ⟨-, hlength⟩ := run_length_le hstep hmore hinternal hatt
  constructor
  · have hpending := Bool.toNat_le l.pending
    have hreading := Bool.toNat_le l.reading
    simp only [work] at hlength
    omega
  · intro hstuck
    have hboth := run_append.mpr ⟨(l, r), hrun, hmore⟩
    obtain ⟨hatt', hacc'⟩ := accounted_run hboth (by
      intro i hi
      rcases List.mem_append.mp hi with hi | hi
      · exact hreg i hi
      · exact (hinternal i hi).regular)
    obtain ⟨hreading, hpending⟩ := quiet_of_stuck hstuck
    have hnil : l'.backlog = [] :=
      not_not.mp (hatt'.heard.low (by simp [hpending]) (by simp [hreading]))
    have hall := hacc'.all
    rwa [hnil, List.append_nil] at hall

/-- Two connections have arrived before the channel is registered, and are accepted. -/
theorem accepted_of_stuck_two : ∃ (l' : Listener) (r' : Record),
    run (observed (step false) note) (start 3 true 0 [7, 8], { arrived := [7, 8] })
      [.poll EPOLLIN, .accept { accept4 := .accepted 5 }, .accept { accept4 := .accepted 6 },
        .accept { accept4 := .failed EAGAIN }] = some (l', r') ∧
      r'.arrived.Perm (r'.accepted ++ r'.withdrawn) := by
  set more : List Input := [.poll EPOLLIN, .accept { accept4 := .accepted 5 },
    .accept { accept4 := .accepted 6 }, .accept { accept4 := .failed EAGAIN }] with hmore
  have hrun : (run (observed (step false) note)
      (start 3 true 0 [7, 8], { arrived := [7, 8] }) more).map
        (fun x => x.1.work) = some 0 := by
    decide
  obtain ⟨⟨l', r'⟩, hl', hwork⟩ := Option.map_eq_some_iff.mp hrun
  have hatt : Attentive true l' := (accounted_run hl' (by
    simp [hmore, Input.Regular, Acceptor.WouldBlock])).1
  have hinit : run (observed (step false) note)
      (start 3 true 0 [7, 8], ({ arrived := [7, 8] } : Record)) [] =
        some (start 3 true 0 [7, 8], { arrived := [7, 8] }) := rfl
  refine ⟨l', r', hl', (accepted_of_stuck hinit (by simp) hl' ?_).2 ?_⟩
  · simp [hmore, Input.Internal, Acceptor.WouldBlock]
  · -- a step would leave less than nothing to do
    intro i hi
    by_contra hsome
    obtain ⟨l'', hs⟩ := Option.ne_none_iff_exists'.mp hsome
    have hless := work_step hatt hi hs
    have hzero : l'.work = 0 := hwork
    omega

end Runs

end Listener

end LouisNet.Net
