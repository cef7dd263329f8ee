import LouisNet.Http.Server
import LouisNet.Net.TcpConnectionCallbacks

set_option relaxedAutoImplicit false
set_option autoImplicit false

/-!
# The context that the server finds on a connection

The server keeps its `HttpServerContext` in the `std::any` of a connection. When the connection is
up it stores a shared pointer there, and when the connection is down it stores `nullptr`, which is
not a null shared pointer but a value of type `std::nullptr_t`. A message for which the context is
gone is meant to be dropped, but the cast in front of the check throws. So the server survives
exactly the runs in which no data is read after the end of the connection was reported.

## Main definitions

* `LouisNet.Http.Any`, `LouisNet.Http.anyCast` — `std::any` and `std::any_cast`.
* `LouisNet.Http.HttpServer.onConnection` — the callback of the server.
* `LouisNet.Http.HttpServer.serveCallbacks` — the callbacks of the server along a log.
* `LouisNet.Http.NoDataAfterEnd` — no data after the end.

## Main results

* `LouisNet.Http.HttpServer.onMessage_never_throws_iff` — when no message throws.
-/

namespace LouisNet.Http

open Lib Net Reactor

/-- What a `std::any` holds. -/
inductive Any (α : Type) where
  | empty
  | nullptr_t
  | shared_ptr (pointer : Option α)
  deriving DecidableEq

/-- `std::bad_any_cast`. -/
inductive BadAnyCast where
  | bad_any_cast
  deriving DecidableEq, Repr

/-- `std::any_cast<std::shared_ptr<...>>`: the type held must be the type asked for. -/
def anyCast {α : Type} : Any α → Except BadAnyCast (Option α)
  | .shared_ptr pointer => .ok pointer
  | _ => .error .bad_any_cast

/-- The kernel reports no data after it has reported the end. -/
def NoDataAfterEnd (log : List Event) : Prop :=
  (log.filterMap Event.report).Pairwise fun a b => a = .final → b ≠ .data

instance (log : List Event) : Decidable (NoDataAfterEnd log) :=
  inferInstanceAs (Decidable (List.Pairwise _ _))

namespace HttpServer

/-- `HttpServer::onConnection`: what it stores in the connection. -/
def onConnection (connected : Bool) : Any HttpServerContext :=
  if connected then .shared_ptr (some {}) else .nullptr_t

/-- The callbacks of the server along the log of a connection, as far as the `std::any` of the
connection is concerned. `HttpServer::onMessage` begins with the cast, and returns or goes on
when it is successful. -/
def serveCallbacks (context : Any HttpServerContext) :
    List Event → Except BadAnyCast (Any HttpServerContext)
  | [] => .ok context
  | .connectionCallback state :: log => serveCallbacks (onConnection (state == .kConnected)) log
  | .messageCallback :: log => do
    let _ ← anyCast context
    serveCallbacks context log
  | _ :: log => serveCallbacks context log

/-- No message throws. -/
def Survives (context : Any HttpServerContext) (log : List Event) : Prop :=
  ∃ context', serveCallbacks context log = .ok context'

/-- Only the callbacks of the connection and of messages concern the context. -/
theorem survives_cons {context : Any HttpServerContext} {e : Event} {log : List Event} :
    Survives context (e :: log) ↔ match e with
      | .connectionCallback state => Survives (onConnection (state == .kConnected)) log
      | .messageCallback => (∃ pointer, context = .shared_ptr pointer) ∧ Survives context log
      | _ => Survives context log := by
  cases e with
  | messageCallback =>
    cases context with
    | shared_ptr pointer => simp [Survives, serveCallbacks, anyCast, bind, Except.bind]
    | _ => simp [Survives, serveCallbacks, anyCast, bind, Except.bind]
  | _ => simp [Survives, serveCallbacks]

/-- After the end every message throws. -/
theorem survives_nullptr_iff {log : List Event}
    (hdown : ∀ state, .connectionCallback state ∈ log → state = .kDisconnected) :
    Survives .nullptr_t log ↔ .messageCallback ∉ log := by
  induction log with
  | nil => simp [Survives, serveCallbacks]
  | cons e log ih =>
    have hlog := ih fun state hstate => hdown state (List.mem_cons_of_mem e hstate)
    rw [survives_cons]
    cases e with
    | connectionCallback state =>
      obtain rfl := hdown state List.mem_cons_self
      simpa [onConnection] using hlog
    | messageCallback => simp
    | _ => simpa using hlog

/-- With a context the server survives if no message comes after the end. -/
theorem survives_shared_iff {context : HttpServerContext} {log : List Event}
    (hdown : ∀ state, .connectionCallback state ∈ log → state = .kDisconnected) :
    Survives (.shared_ptr (some context)) log ↔
      log.Pairwise fun a b => a = .connectionCallback .kDisconnected → b ≠ .messageCallback := by
  induction log with
  | nil => simp [Survives, serveCallbacks]
  | cons e log ih =>
    have htail := fun state hstate => hdown state (List.mem_cons_of_mem e hstate)
    have hlog := ih htail
    rw [survives_cons, List.pairwise_cons]
    cases e with
    | connectionCallback state =>
      obtain rfl := hdown state List.mem_cons_self
      have hnone := survives_nullptr_iff htail
      constructor
      · intro h
        have hmessage := hnone.mp h
        refine ⟨fun b hb _ heq => hmessage (heq ▸ hb), ?_⟩
        refine List.pairwise_of_forall_mem_list fun a _ b hb _ heq => ?_
        exact hmessage (heq ▸ hb)
      · intro h
        exact hnone.mpr fun hmessage => h.1 _ hmessage rfl rfl
    | _ => simpa using hlog

/-- The callbacks for the reports of a run have a message after the end if the reports have data
after the end. -/
theorem pairwise_reaction_iff {c : TcpConnection} (hc : c.connectionCallback_ = true)
    (hm : c.messageCallback_ = true) (reports : List Report) :
    ((reports.flatMap c.reaction).Pairwise fun a b =>
      a = .connectionCallback .kDisconnected → b ≠ .messageCallback) ↔
    reports.Pairwise fun a b => a = .final → b ≠ .data := by
  have hmem : ∀ reports : List Report,
      .messageCallback ∈ reports.flatMap c.reaction ↔ .data ∈ reports := by
    intro reports
    rw [List.mem_flatMap]
    constructor
    · rintro ⟨r, hr, hmessage⟩
      cases r with
      | data => exact hr
      | final => simp [TcpConnection.reaction, hc] at hmessage
    · exact fun hdata => ⟨.data, hdata, by simp [TcpConnection.reaction, hm]⟩
  induction reports with
  | nil => simp
  | cons r reports ih =>
    rw [List.flatMap_cons, List.pairwise_append, List.pairwise_cons]
    simp only [ih]
    cases r with
    | data => simp [TcpConnection.reaction, hm]
    | final =>
      have hafter : (∀ b ∈ reports.flatMap c.reaction, b ≠ .messageCallback) ↔
          ∀ b ∈ reports, b ≠ .data := by
        constructor
        · exact fun h b hb heq => h _ ((hmem reports).mpr (heq ▸ hb)) rfl
        · exact fun h b hb heq => h _ ((hmem reports).mp (heq ▸ hb)) rfl
      generalize reports.flatMap c.reaction = callbacks at hafter ⊢
      simp only [ne_eq] at hafter
      by_cases hclose : c.closeCallback_ = true
      · simp [TcpConnection.reaction, hc, hclose, hafter, and_comm]
      · simp [TcpConnection.reaction, hc, hclose, hafter, and_comm]

/-- **The server survives the runs without data after the end**, and no others: whatever events
occur on a connection of the server and whatever the system calls return, no message throws if and
only if no data is read after a hang-up, an error or the end of the stream was reported.

**Proof sketch.** The log begins with the callback that stores the context, and every later
connection callback is one in the disconnected state, which replaces the context. The callbacks
after the first are those that the reports call for. -/
theorem onMessage_never_throws_iff (sockfd : ℕ) (writeComplete close : Bool) (supply : Supply)
    (inputs : List (TcpConnection.Input × Supply)) :
    let c := (TcpConnection.new sockfd true true writeComplete close
      supply).connectionEstablished.run inputs
    Survives .empty c.log ↔ NoDataAfterEnd c.log := by
  intro c
  -- the connection when the first callback is invoked
  let c₀ : TcpConnection := TcpConnection.emit
    { TcpConnection.new sockfd true true writeComplete close supply with
      state_ := .kConnected
      channel_ := Channel.enableRead { fd_ := sockfd } } (.connectionCallback .kConnected)
  have hc : c = c₀.callback.run inputs := rfl
  obtain ⟨added, hlog, hdown⟩ := c₀.callback_onlyDown.trans (TcpConnection.run_onlyDown inputs _)
  obtain ⟨reports, hbalanced⟩ := TcpConnection.Balanced.trans
    (.of_quiet c₀.callback_quiet) (TcpConnection.run_balanced inputs _)
  obtain ⟨added', hlog', hcallbacks, hreports⟩ := hbalanced.log_eq
  obtain rfl : added = added' := List.append_cancel_left (hlog.symm.trans hlog')
  have hfirst : c.log = .connectionCallback .kConnected :: added := hlog
  have hprotocol : (added.Pairwise fun a b =>
      a = .connectionCallback .kDisconnected → b ≠ .messageCallback) ↔
      (added.filter Event.isCallback).Pairwise fun a b =>
        a = .connectionCallback .kDisconnected → b ≠ .messageCallback := by
    rw [List.pairwise_filter]
    constructor
    · exact fun h => h.imp fun hab _ _ => hab
    · refine fun h => h.imp fun {a b} hab ha hb => ?_
      subst ha hb
      exact hab (by decide) (by decide) rfl rfl
  rw [hfirst, survives_cons, NoDataAfterEnd]
  change Survives (.shared_ptr (some {})) added ↔ _
  rw [survives_shared_iff hdown, hprotocol, hcallbacks, pairwise_reaction_iff rfl rfl, ← hreports]
  rfl

/-- Data that is read in an event which reports an error throws. -/
theorem onMessage_throws_error_data :
    ¬ Survives .empty ((TcpConnection.new 5 true true true true {}).connectionEstablished.run
      [(.event (EPOLLERR ||| EPOLLIN), { reads := [.data [71], .error EAGAIN] })]).log := by
  have hthrows : serveCallbacks .empty
      ((TcpConnection.new 5 true true true true {}).connectionEstablished.run
        [(.event (EPOLLERR ||| EPOLLIN), { reads := [.data [71], .error EAGAIN] })]).log =
      .error .bad_any_cast := by rfl
  rintro ⟨context, hok⟩
  rw [hthrows] at hok
  cases hok

end HttpServer

end LouisNet.Http
