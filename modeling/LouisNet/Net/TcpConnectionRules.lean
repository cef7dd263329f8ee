import LouisNet.Net.TcpConnection

set_option relaxedAutoImplicit false
set_option autoImplicit false

/-!
# Invariants of a connection

The handlers of a connection are made of few parts: an event is recorded, the code of the user
calls the connection, the state becomes `kDisconnected`. What these parts keep, the handlers keep,
with the code of the user running inside the callbacks; only `handleWrite` has to be looked at for
each invariant by itself.

## Main definitions

* `LouisNet.Net.Event.Neutral` — an event that says nothing about the output.
* `LouisNet.Net.TcpConnection.Keeps` — an invariant that the parts of the handlers keep.

## Main results

* `LouisNet.Net.TcpConnection.Keeps.callback` — the code of the user.
* `LouisNet.Net.TcpConnection.Keeps.handleEvents`, `LouisNet.Net.TcpConnection.Keeps.step` — from
  the parts and `handleWrite` to a step of the loop thread.
-/

namespace LouisNet.Net

open Lib Reactor

/-- The event neither accepts nor writes nor shuts down. -/
def Event.Neutral : Event → Prop
  | .write _ => False
  | .accepted _ => False
  | .wrote _ => False
  | .shutdownWrite => False
  | _ => True

namespace TcpConnection

/-- An invariant that the parts of the handlers keep, when the code of the user makes the calls
that `P` admits. -/
structure Keeps (P : Call → Prop) (I : TcpConnection → Prop) : Prop where
  /-- It reads the log, the state, the channel, the output buffer and the calls to come. -/
  congr : ∀ {c c' : TcpConnection}, I c → c'.log = c.log → c'.state_ = c.state_ →
    c'.channel_ = c.channel_ → c'.outputBuffer_ = c.outputBuffer_ →
    c'.supply.callbacks = c.supply.callbacks → I c'
  emit : ∀ {c : TcpConnection} {e : Event}, I c → e.Neutral → I (c.emit e)
  call : ∀ {c : TcpConnection} {k : Call}, I c → P k → I (c.call k)
  disconnect : ∀ {c : TcpConnection}, I c → I { c with state_ := .kDisconnected }
  /-- The code of the user runs in the next callback. -/
  pop : ∀ {c : TcpConnection} {calls : List Call} {rest : List (List Call)}, I c →
    c.supply.callbacks = calls :: rest →
    I { c with supply := { c.supply with callbacks := rest } } ∧ ∀ k ∈ calls, P k

namespace Keeps

variable {P : Call → Prop} {I : TcpConnection → Prop} {c : TcpConnection}

/-- The calls that the code of the user makes, one after another. -/
theorem calls (hI : Keeps P I) {calls : List Call} (hP : ∀ k ∈ calls, P k) (h : I c) :
    I (calls.foldl TcpConnection.call c) := by
  induction calls generalizing c with
  | nil => exact h
  | cons k calls ih =>
    exact ih (fun k' hk' => hP k' (List.mem_cons_of_mem k hk'))
      (hI.call h (hP k List.mem_cons_self))

/-- The code of the user runs in a callback. -/
theorem callback (hI : Keeps P I) (h : I c) : I c.callback := by
  unfold TcpConnection.callback
  split
  · exact h
  · rename_i calls rest hcallbacks
    obtain ⟨h', hP⟩ := hI.pop h hcallbacks
    exact hI.calls hP h'

/-- A callback is invoked. -/
theorem invoke (hI : Keeps P I) (h : I c) (isSet : Bool) {e : Event} (he : e.Neutral) :
    I (c.invoke isSet e) := by
  unfold TcpConnection.invoke
  split_ifs
  · exact hI.callback (hI.emit h he)
  · exact h

theorem writeCompleteCallback (hI : Keeps P I) (h : I c) : I c.writeCompleteCallback := by
  unfold TcpConnection.writeCompleteCallback
  exact hI.invoke h _ trivial

theorem connectionCallback (hI : Keeps P I) (h : I c) : I c.connectionCallback := by
  unfold TcpConnection.connectionCallback
  exact hI.invoke h _ trivial

theorem handleClose (hI : Keeps P I) (h : I c) : I c.handleClose := by
  unfold TcpConnection.handleClose TcpConnection.closeCallback
  exact hI.invoke (hI.connectionCallback (hI.disconnect h)) _ trivial

theorem handleError (hI : Keeps P I) (h : I c) : I c.handleError :=
  hI.handleClose (hI.congr h rfl rfl rfl rfl rfl)

/-- The loop of `handleRead`. By induction on the results of `readv`. -/
theorem readLoop (hI : Keeps P I) (reads : List ReadResult) (h : I c) : I (readLoop reads c) := by
  induction reads generalizing c with
  | nil => exact h
  | cons r reads ih =>
    have he : I (c.emit (.readv r)) := hI.emit h trivial
    rcases r with ⟨_ | ⟨x, bytes⟩⟩ | errno
    · exact hI.handleClose he
    · refine ih (hI.invoke ?_ _ trivial)
      exact hI.congr he rfl rfl rfl rfl rfl
    · simp only [TcpConnection.readLoop]
      split_ifs
      · exact he
      · exact hI.handleClose he
      · exact hI.handleError he

theorem handleEvents (hI : Keeps P I) (hwrite : ∀ {c : TcpConnection}, I c → I c.handleWrite)
    (h : I c) (revents : UInt32) : I (c.handleEvents revents) := by
  refine Channel.handler_rel (R := fun c c' => I c → I c') (fun _ h => h)
    (fun h₁ h₂ h => h₂ (h₁ h)) ?_ ?_ (fun c h => hI.readLoop _ h) (fun c h => hwrite h) revents c h
  · exact fun c h => hI.handleClose (hI.emit h trivial)
  · exact fun c h => hI.handleError (hI.emit h trivial)

/-- **One step of the loop thread keeps the invariant.** -/
theorem step (hI : Keeps P I) (hwrite : ∀ {c : TcpConnection}, I c → I c.handleWrite)
    {i : Input × Supply} (h : I { c with supply := i.2 }) (hcall : ∀ k, i.1 = .call k → P k) :
    I (c.step i) := by
  unfold TcpConnection.step
  dsimp only
  split
  · exact hI.handleEvents hwrite h _
  · rename_i k hk
    exact hI.call h (hcall k hk)
  · split
    · exact h
    · exact hI.writeCompleteCallback (hI.congr h rfl rfl rfl rfl rfl)

end Keeps

end TcpConnection

end LouisNet.Net
