import LouisNet.Net.EndpointStreams

set_option relaxedAutoImplicit false
set_option autoImplicit false

/-!
# Handlers that are not interrupted

An endpoint lets the network come between any two system calls of a handler, and lets the code of
the user make its calls one at a time. The connection of `TcpConnection.step` runs its handlers
without interruption, on results that are given beforehand. Both do the same: from every run of an
endpoint the results can be read off with which the uninterrupted handlers lead to the same
connection.

## Main definitions

* `LouisNet.Net.Endpoint.resume` — what is left of a handler, without interruption.

## Main results

* `LouisNet.Net.Endpoint.exists_rest` — one step is taken off what is left.
* `LouisNet.Net.Endpoint.exists_run_of_idle` — an idle endpoint is reached without interruption.
-/

namespace LouisNet.Net

open Lib Reactor

namespace TcpConnection

/-! ## Supplies -/

/-- The connection with other results of `readv` and `write` to come. -/
def load (c : TcpConnection) (reads : List ReadResult) (writes : List WriteResult) :
    TcpConnection :=
  { c with supply := { c.supply with reads, writes } }

/-- The connection without what is to come. -/
def bare (c : TcpConnection) : TcpConnection := { c with supply := {} }

/-- The results that are loaded do not show. -/
@[simp] theorem bare_load (c : TcpConnection) (reads : List ReadResult)
    (writes : List WriteResult) : (c.load reads writes).bare = c.bare := rfl

/-- A call does not look at what is to come. -/
theorem call_supply (c : TcpConnection) (k : Call) (s : Supply) :
    ({ c with supply := s } : TcpConnection).call k = { c.call k with supply := s } := by
  cases k with
  | consume len => rfl
  | shutdown =>
    unfold call shutdown shutdownInLoop
    dsimp only
    split_ifs <;> rfl
  | send message result =>
    have hdirect : ∀ d : TcpConnection,
        ({ d with supply := s } : TcpConnection).writeDirect message result =
          ({ (d.writeDirect message result).1 with supply := s },
            (d.writeDirect message result).2) := by
      intro d
      unfold writeDirect emit
      split
      · dsimp only
        split_ifs <;> rfl
      · split_ifs <;> rfl
    have hloop : ∀ d : TcpConnection,
        ({ d with supply := s } : TcpConnection).sendInLoop message result =
          { d.sendInLoop message result with supply := s } := by
      intro d
      unfold sendInLoop
      dsimp only
      rw [hdirect]
      split_ifs <;> rfl
    unfold call send
    dsimp only
    split_ifs
    · exact hloop (c.emit (.accepted message))
    · rfl

/-- A callback does not look at the results of `readv` and `write` to come. -/
theorem callback_load (c : TcpConnection) (reads : List ReadResult) (writes : List WriteResult) :
    (c.load reads writes).callback = c.callback.load reads writes := by
  have hcalls : ∀ (calls : List Call) (d : TcpConnection),
      calls.foldl call (d.load reads writes) = (calls.foldl call d).load reads writes ∧
        (calls.foldl call d).supply = d.supply := by
    intro calls
    induction calls with
    | nil => exact fun d => ⟨rfl, rfl⟩
    | cons k calls ih =>
      intro d
      have hsupply : (d.call k).supply = d.supply := by
        have := congrArg supply (d.call_supply k d.supply)
        exact this
      have hload : (d.load reads writes).call k = (d.call k).load reads writes := by
        unfold load
        rw [call_supply, hsupply]
      obtain ⟨h₁, h₂⟩ := ih (d.call k)
      exact ⟨by rw [List.foldl_cons, hload, h₁]; rfl, h₂.trans hsupply⟩
  unfold callback
  cases hcallbacks : c.supply.callbacks with
  | nil =>
    have hload : (c.load reads writes).supply.callbacks = [] := hcallbacks
    rw [hload]
  | cons calls rest =>
    have hload : (c.load reads writes).supply.callbacks = calls :: rest := hcallbacks
    rw [hload]
    exact (hcalls calls { c with supply := { c.supply with callbacks := rest } }).1

/-- A callback is invoked before or after the results are loaded. -/
theorem invoke_load (c : TcpConnection) (reads : List ReadResult) (writes : List WriteResult)
    (isSet : Bool) (e : Event) :
    (c.load reads writes).invoke isSet e = (c.invoke isSet e).load reads writes := by
  unfold invoke
  cases isSet
  · rfl
  · exact callback_load (c.emit e) reads writes

/-- A connection is closed before or after the results are loaded. -/
theorem handleClose_load (c : TcpConnection) (reads : List ReadResult)
    (writes : List WriteResult) :
    (c.load reads writes).handleClose = c.handleClose.load reads writes := by
  unfold handleClose connectionCallback closeCallback
  have hconnection := invoke_load { c with state_ := .kDisconnected } reads writes
    c.connectionCallback_ (.connectionCallback .kDisconnected)
  rw [← invoke_load]
  exact congrArg (fun d : TcpConnection => d.invoke d.closeCallback_ .closeCallback) hconnection

/-- An error is handled before or after the results are loaded. -/
theorem handleError_load (c : TcpConnection) (reads : List ReadResult)
    (writes : List WriteResult) :
    (c.load reads writes).handleError = c.handleError.load reads writes :=
  handleClose_load { c with
    error_ := c.supply.errors.headD 0
    supply := { c.supply with errors := c.supply.errors.tail } } reads writes

/-- The loop of `handleRead` looks at no other results than its own. By induction on these. -/
theorem readLoop_load (results : List ReadResult) (c : TcpConnection) (reads : List ReadResult)
    (writes : List WriteResult) :
    readLoop results (c.load reads writes) = (readLoop results c).load reads writes := by
  induction results generalizing c with
  | nil => rfl
  | cons r results ih =>
    rcases r with ⟨_ | ⟨x, bytes⟩⟩ | errno
    · exact handleClose_load (c.emit (.readv (.data []))) reads writes
    · have hmessage := invoke_load { c.emit (.readv (.data (x :: bytes))) with
        inputBuffer_ := c.inputBuffer_ ++ (x :: bytes) } reads writes c.messageCallback_
        .messageCallback
      exact (congrArg (readLoop results) hmessage).trans (ih _)
    · unfold readLoop
      dsimp only
      split_ifs
      · rfl
      · exact handleClose_load (c.emit (.readv (.error errno))) reads writes
      · exact handleError_load (c.emit (.readv (.error errno))) reads writes

/-- The end of `handleWrite` comes before or after the results are loaded. -/
theorem drained_load (c : TcpConnection) (reads : List ReadResult) (writes : List WriteResult) :
    (c.load reads writes).drained = c.drained.load reads writes := by
  have hcomplete := invoke_load { c with channel_ := c.channel_.disableWrite } reads writes
    c.writeCompleteCallback_ .writeCompleteCallback
  have hshutdown : ∀ d : TcpConnection,
      (if (d.load reads writes).state_ = .kDisconnecting then (d.load reads writes).shutdownInLoop
        else d.load reads writes) =
      (if d.state_ = .kDisconnecting then d.shutdownInLoop else d).load reads writes := by
    intro d
    unfold shutdownInLoop load
    dsimp only
    split_ifs <;> rfl
  unfold drained
  exact (congrArg (fun d : TcpConnection =>
    if d.state_ = .kDisconnecting then d.shutdownInLoop else d) hcomplete).trans (hshutdown _)

/-- A failed `write` is handled before or after the results are loaded. -/
theorem writeFailed_load (c : TcpConnection) (savedError : ℕ) (reads : List ReadResult)
    (writes : List WriteResult) :
    (c.load reads writes).writeFailed savedError =
      (c.writeFailed savedError).load reads writes := by
  unfold writeFailed
  split_ifs
  · rfl
  · rfl
  · exact handleError_load c reads writes

/-- The loop of `handleWrite` looks at no other results than its own. By induction on these. -/
theorem writeLoop_load (results : List WriteResult) (c : TcpConnection) (reads : List ReadResult)
    (writes : List WriteResult) :
    writeLoop results (c.load reads writes) = (writeLoop results c).load reads writes := by
  have houtput : (c.load reads writes).outputBuffer_ = c.outputBuffer_ := rfl
  induction results generalizing c with
  | nil =>
    unfold writeLoop
    rw [houtput]
    by_cases hnil : c.outputBuffer_ = []
    · rw [if_pos hnil, if_pos hnil]
      exact drained_load c reads writes
    · rw [if_neg hnil, if_neg hnil]
      exact writeFailed_load c EAGAIN reads writes
  | cons r results ih =>
    unfold writeLoop
    rw [houtput]
    by_cases hnil : c.outputBuffer_ = []
    · rw [if_pos hnil, if_pos hnil]
      exact drained_load c reads writes
    · rw [if_neg hnil, if_neg hnil]
      obtain ⟨_ | _ | n, errno⟩ := r
      · exact writeFailed_load (c.emit _) errno reads writes
      · exact writeFailed_load (c.emit _) errno reads writes
      · let written := min (n + 1) c.outputBuffer_.length
        exact ih { (c.emit (.write ⟨some (n + 1), errno⟩)).emit
          (.wrote (c.outputBuffer_.take written)) with
            outputBuffer_ := c.outputBuffer_.drop written } rfl

/-- A run does not look at what its first connection was supplied with. -/
theorem bare_run (c : TcpConnection) (inputs : List (Input × Supply)) :
    (c.bare.run inputs).bare = (c.run inputs).bare := by
  cases inputs with
  | nil => rfl
  | cons i inputs => rfl

end TcpConnection

namespace Endpoint

open TcpConnection (bare load)

/-! ## What is left of a handler -/

/-- What is left of `Channel::handler` from the test of `EPOLLOUT` on. -/
def resumeWrite (revents : UInt32) (c : TcpConnection) : TcpConnection :=
  if has revents EPOLLOUT then c.handleWrite else c

/-- What is left of `Channel::handler` from the test of `EPOLLIN` on. -/
def resumeRead (revents : UInt32) (c : TcpConnection) : TcpConnection :=
  resumeWrite revents
    (if has revents (EPOLLIN ||| EPOLLPRI ||| EPOLLRDHUP) then c.handleRead else c)

/-- What is left of `Channel::handler` from the test of `EPOLLERR` on. -/
def resumeError (revents : UInt32) (c : TcpConnection) : TcpConnection :=
  resumeRead revents (if has revents EPOLLERR then (c.emit .errorEvent).handleError else c)

/-- What is left of a handler at a point, without interruption. -/
def resume : Point → TcpConnection → TcpConnection
  | .idle, c => c
  | .error revents, c => resumeError revents c
  | .read revents, c => resumeRead revents c
  | .write revents, c => resumeWrite revents c
  | .readLoop revents, c => resumeWrite revents (c.readLoop c.supply.reads)
  | .writeLoop, c => c.writeLoop c.supply.writes
  | .drained, c => if c.state_ = .kDisconnecting then c.shutdownInLoop else c
  | .close next, c => resume next c.closeCallback

/-- What is left of the callback and of the handler, when this is to come. -/
def rest (w : Endpoint) (s : Supply) : TcpConnection :=
  let c := { w.conn with supply := s }
  resume w.point (if w.inCallback then c.callback else c)

variable {w w' : Endpoint}

/-- A callback that is invoked is what is left of it. -/
theorem rest_invoke (w : Endpoint) (isSet : Bool) (e : Event) (next : Point) (s : Supply) :
    (w.invoke isSet e next).rest s =
      resume next (TcpConnection.invoke { w.conn with supply := s } isSet e) := by
  unfold rest Endpoint.invoke TcpConnection.invoke
  cases isSet <;> rfl

/-- What is left of `handleClose`. -/
theorem rest_handleClose (w : Endpoint) (next : Point) (s : Supply) :
    (w.handleClose next).rest s =
      resume next (TcpConnection.handleClose { w.conn with supply := s }) :=
  rest_invoke { w with conn := { w.conn with state_ := .kDisconnected } } _ _ (.close next) s

/-- What is left of `handleError`, when `getsockopt` gives the error of the socket. -/
theorem rest_handleError (w : Endpoint) (next : Point) (s : Supply) :
    (w.handleError next).rest s =
      resume next (TcpConnection.handleError { w.conn with
        supply := { s with errors := w.kernel.error :: s.errors } }) :=
  rest_handleClose { w with conn := { w.conn with error_ := w.kernel.error } } next s

/-- A part of a handler that does not look at the results of `readv` and `write` to come. -/
def Blind (f : TcpConnection → TcpConnection) : Prop :=
  ∀ c reads writes, f (c.load reads writes) = (f c).load reads writes

/-- It keeps them. -/
theorem Blind.supply {f : TcpConnection → TcpConnection} (hf : Blind f) (c : TcpConnection) :
    (f c).supply.reads = c.supply.reads ∧ (f c).supply.writes = c.supply.writes := by
  have hload : f c = (f c).load c.supply.reads c.supply.writes :=
    hf c c.supply.reads c.supply.writes
  constructor
  · rw [hload]
    rfl
  · rw [hload]
    rfl

/-- Behind such a part, the results of `readv` that it was given do not matter. -/
theorem Blind.bare_resumeWrite {f : TcpConnection → TcpConnection} (hf : Blind f)
    (revents : UInt32) (c : TcpConnection) (reads : List ReadResult) :
    (resumeWrite revents (f (c.load reads c.supply.writes))).bare =
      (resumeWrite revents (f c)).bare := by
  rw [hf]
  have hwrites : c.supply.writes = (f c).supply.writes := (hf.supply c).2.symm
  rw [hwrites]
  generalize f c = d
  have hwriting : (d.load reads d.supply.writes).channel_.isWriting = d.channel_.isWriting := rfl
  unfold resumeWrite TcpConnection.handleWrite
  rw [hwriting]
  split_ifs
  · have hload := TcpConnection.writeLoop_load d.supply.writes d reads d.supply.writes
    exact (congrArg bare hload :)
  · rfl
  · rfl

/-- What is left in the loop of `handleRead`. -/
theorem rest_readLoop {revents : UInt32} (hcallback : w.inCallback = false)
    (hpoint : w.point = .readLoop revents) (s : Supply) :
    w.rest s =
      resumeWrite revents (TcpConnection.readLoop s.reads { w.conn with supply := s }) := by
  unfold rest
  rw [hcallback, hpoint]
  rfl

/-- The connection has read some bytes. -/
def reading (c : TcpConnection) (bytes : Bytes) (s : Supply) : TcpConnection :=
  { c.emit (.readv (.data bytes)) with inputBuffer_ := c.inputBuffer_ ++ bytes, supply := s }

/-- The loop of `handleRead` is left with some bytes more. -/
theorem rest_data {revents : UInt32} (hcallback : w.inCallback = false)
    (hpoint : w.point = .readLoop revents) (x : UInt8) (bytes : Bytes) (k : Kernel) (s : Supply) :
    (w.rest { s with reads := .data (x :: bytes) :: s.reads }).bare =
      ((afterRead { w with kernel := k } revents (.data (x :: bytes))).rest s).bare := by
  have hinvoke : Blind fun c => c.invoke w.conn.messageCallback_ .messageCallback :=
    fun c reads writes => c.invoke_load reads writes _ _
  have hblind : Blind fun c => TcpConnection.readLoop s.reads
      (c.invoke w.conn.messageCallback_ .messageCallback) := by
    intro c reads writes
    dsimp only
    rw [TcpConnection.invoke_load, TcpConnection.readLoop_load]
  have hread := (hinvoke.supply (reading w.conn (x :: bytes) s)).1
  have hloop : TcpConnection.readLoop (.data (x :: bytes) :: s.reads)
      { w.conn with supply := { s with reads := .data (x :: bytes) :: s.reads } } =
      TcpConnection.readLoop s.reads (((reading w.conn (x :: bytes) s).load
        (.data (x :: bytes) :: s.reads) s.writes).invoke w.conn.messageCallback_
          .messageCallback) := by
    rw [TcpConnection.readLoop]
    · rfl
    · intro h
      cases h
  have hafter : (afterRead { w with kernel := k } revents (.data (x :: bytes))).rest s =
      resume (.readLoop revents)
        ((reading w.conn (x :: bytes) s).invoke w.conn.messageCallback_ .messageCallback) :=
    rest_invoke _ _ _ _ _
  rw [rest_readLoop hcallback hpoint, hafter]
  dsimp only
  rw [hloop]
  refine (hblind.bare_resumeWrite revents (reading w.conn (x :: bytes) s) _).trans ?_
  rw [resume, hread]
  rfl

/-- The loop of `handleRead` is left with the end of the stream. -/
theorem rest_end {revents : UInt32} (hcallback : w.inCallback = false)
    (hpoint : w.point = .readLoop revents) (k : Kernel) (s : Supply) :
    (w.rest { s with reads := [.data []] }).bare =
      ((afterRead { w with kernel := k } revents (.data [])).rest s).bare := by
  have hloop : TcpConnection.readLoop [.data []] { w.conn with
      supply := { s with reads := [.data []] } } =
      TcpConnection.handleClose
        (TcpConnection.load { w.conn.emit (.readv (.data [])) with supply := s }
          [.data []] s.writes) := by
    rw [TcpConnection.readLoop]
    rfl
  have hafter : (afterRead { w with kernel := k } revents (.data [])).rest s =
      resumeWrite revents
        (TcpConnection.handleClose { w.conn.emit (.readv (.data [])) with supply := s }) :=
    rest_handleClose _ _ _
  rw [rest_readLoop hcallback hpoint, hafter]
  dsimp only
  rw [hloop]
  exact Blind.bare_resumeWrite TcpConnection.handleClose_load revents
    { w.conn.emit (.readv (.data [])) with supply := s } _

/-- The loop of `handleRead` is left with an error. -/
theorem rest_error {revents : UInt32} (hcallback : w.inCallback = false)
    (hpoint : w.point = .readLoop revents) (errno : ℕ) (k : Kernel) (s : Supply) :
    ∃ s₀, (w.rest s₀).bare =
      ((afterRead { w with kernel := k } revents (.error errno)).rest s).bare := by
  let c : Supply → TcpConnection := fun s =>
    { w.conn.emit (.readv (.error errno)) with supply := s }
  have hloop : ∀ s₀ : Supply, TcpConnection.readLoop [.error errno] { w.conn with
      supply := { s₀ with reads := [.error errno] } } =
        (if errno = EAGAIN ∨ errno = EWOULDBLOCK then (c s₀).load [.error errno] s₀.writes
        else if errno = ECONNRESET ∨ errno = EPIPE then
          TcpConnection.handleClose ((c s₀).load [.error errno] s₀.writes)
        else TcpConnection.handleError ((c s₀).load [.error errno] s₀.writes)) := by
    intro s₀
    rw [TcpConnection.readLoop]
    rfl
  unfold afterRead
  dsimp only
  by_cases hagain : errno = EAGAIN ∨ errno = EWOULDBLOCK
  · refine ⟨{ s with reads := [.error errno] }, ?_⟩
    rw [rest_readLoop hcallback hpoint, hloop, if_pos hagain, if_pos hagain]
    refine (Blind.bare_resumeWrite (f := id) (fun _ _ _ => rfl) revents (c s) _).trans ?_
    unfold rest
    rw [hcallback]
    rfl
  by_cases hreset : errno = ECONNRESET ∨ errno = EPIPE
  · refine ⟨{ s with reads := [.error errno] }, ?_⟩
    rw [rest_readLoop hcallback hpoint, hloop, if_neg hagain, if_neg hagain, if_pos hreset,
      if_pos hreset, rest_handleClose]
    exact Blind.bare_resumeWrite TcpConnection.handleClose_load revents (c s) _
  · refine ⟨{ s with reads := [.error errno], errors := k.error :: s.errors }, ?_⟩
    rw [rest_readLoop hcallback hpoint, hloop { s with errors := k.error :: s.errors },
      if_neg hagain, if_neg hagain, if_neg hreset, if_neg hreset, rest_handleError]
    exact Blind.bare_resumeWrite TcpConnection.handleError_load revents
      (c { s with errors := k.error :: s.errors }) _

/-- The loop of `handleWrite` is left with one result more. -/
theorem exists_rest_write (hcallback : w.inCallback = false) (hpoint : w.point = .writeLoop)
    (hne : w.conn.outputBuffer_ ≠ []) (result : WriteResult) (k : Kernel) (s : Supply) :
    ∃ s₀, (w.rest s₀).bare = ((afterWrite { w with kernel := k } result).rest s).bare := by
  have hrest : ∀ s₀ : Supply, w.rest s₀ =
      TcpConnection.writeLoop s₀.writes { w.conn with supply := s₀ } := by
    intro s₀
    unfold rest
    rw [hcallback, hpoint]
    rfl
  let c : Supply → TcpConnection := fun s => { w.conn.emit (.write result) with supply := s }
  by_cases hn : ∃ n, result.ret = some (n + 1)
  · obtain ⟨n, hn⟩ := hn
    let taken := min (n + 1) w.conn.outputBuffer_.length
    let c' : TcpConnection := { (c s).emit (.wrote (w.conn.outputBuffer_.take taken)) with
      outputBuffer_ := w.conn.outputBuffer_.drop taken }
    have hloop : TcpConnection.writeLoop (result :: s.writes) { w.conn with
        supply := { s with writes := result :: s.writes } } =
        TcpConnection.writeLoop s.writes (c'.load s.reads (result :: s.writes)) := by
      rw [TcpConnection.writeLoop, if_neg hne]
      dsimp only
      rw [hn]
      rfl
    have hafter : (afterWrite { w with kernel := k } result).rest s =
        TcpConnection.writeLoop s.writes c' := by
      simp only [afterWrite, hn, rest, hcallback, hpoint]
      rfl
    refine ⟨{ s with writes := result :: s.writes }, ?_⟩
    rw [hrest, hafter, hloop, TcpConnection.writeLoop_load]
    rfl
  · have hloop : ∀ s₀ : Supply, TcpConnection.writeLoop [result] { w.conn with
        supply := { s₀ with writes := [result] } } =
        ((c s₀).load s₀.reads [result]).writeFailed result.errno := by
      intro s₀
      rw [TcpConnection.writeLoop, if_neg hne]
      dsimp only
      rcases hret : result.ret with _ | _ | n
      · rfl
      · rfl
      · exact absurd ⟨n, hret⟩ hn
    have hafter : afterWrite { w with kernel := k } result =
        (let v : Endpoint := { w with kernel := k, conn := w.conn.emit (.write result) }
        if result.errno = 0 then { v with point := .idle }
        else if result.errno = EAGAIN ∨ result.errno = EWOULDBLOCK then
          { v.disableWrite.enableWrite with point := .idle }
        else v.handleError .idle) := by
      unfold afterWrite
      rcases hret : result.ret with _ | _ | n
      · rfl
      · rfl
      · exact absurd ⟨n, hret⟩ hn
    rw [hafter]
    dsimp only
    by_cases hzero : result.errno = 0
    · refine ⟨{ s with writes := [result] }, ?_⟩
      rw [hrest, hloop, TcpConnection.writeFailed_load, TcpConnection.writeFailed, if_pos hzero,
        if_pos hzero]
      simp only [rest, hcallback]
      rfl
    by_cases hagain : result.errno = EAGAIN ∨ result.errno = EWOULDBLOCK
    · refine ⟨{ s with writes := [result] }, ?_⟩
      rw [hrest, hloop, TcpConnection.writeFailed_load, TcpConnection.writeFailed, if_neg hzero,
        if_neg hzero, if_pos hagain, if_pos hagain]
      simp only [rest, disableWrite, enableWrite, hcallback]
      rfl
    · refine ⟨{ s with writes := [result], errors := k.error :: s.errors }, ?_⟩
      rw [hrest, hloop { s with errors := k.error :: s.errors }, TcpConnection.writeFailed_load,
        TcpConnection.writeFailed, if_neg hzero, if_neg hzero, if_neg hagain, if_neg hagain,
        rest_handleError]
      rfl

/-- The loop thread goes on without a result. -/
theorem exists_rest_go (hcallback : w.inCallback = false) (hw' : w.go w.point = some w')
    (s : Supply) : ∃ s₀, (w.rest s₀).bare = (w'.rest s).bare := by
  have hrest : ∀ s₀ : Supply, w.rest s₀ = resume w.point { w.conn with supply := s₀ } := by
    intro s₀
    unfold rest
    rw [hcallback]
    rfl
  cases hpoint : w.point with
  | idle | readLoop revents => simp [hpoint, go] at hw'
  | error revents =>
    simp only [hpoint, go] at hw'
    split_ifs at hw' with hevents
    · obtain rfl := Option.some.inj hw'
      refine ⟨{ s with errors := w.kernel.error :: s.errors }, ?_⟩
      rw [hrest, hpoint, rest_handleError, resume, resumeError, if_pos hevents]
      rfl
    · obtain rfl := Option.some.inj hw'
      refine ⟨s, ?_⟩
      rw [hrest, hpoint, resume, resumeError, if_neg hevents, rest, hcallback]
      rfl
  | read revents =>
    simp only [hpoint, go] at hw'
    split_ifs at hw' with hevents
    · obtain rfl := Option.some.inj hw'
      refine ⟨s, ?_⟩
      rw [hrest, hpoint, resume, resumeRead, if_pos hevents, rest, hcallback]
      rfl
    · obtain rfl := Option.some.inj hw'
      refine ⟨s, ?_⟩
      rw [hrest, hpoint, resume, resumeRead, if_neg hevents, rest, hcallback]
      rfl
  | write revents =>
    simp only [hpoint, go] at hw'
    split_ifs at hw' with hevents
    · obtain rfl := Option.some.inj hw'
      obtain ⟨hout, hwriting⟩ := Bool.and_eq_true_iff.mp hevents
      refine ⟨s, ?_⟩
      rw [hrest, hpoint, resume, resumeWrite, if_pos hout, TcpConnection.handleWrite,
        if_pos hwriting, rest, hcallback]
      rfl
    · obtain rfl := Option.some.inj hw'
      refine ⟨s, ?_⟩
      have hskip : resumeWrite revents { w.conn with supply := s } =
          { w.conn with supply := s } := by
        unfold resumeWrite TcpConnection.handleWrite
        split_ifs with hout hwriting
        · exact absurd (Bool.and_eq_true_iff.mpr ⟨hout, hwriting⟩) hevents
        · rfl
        · rfl
      rw [hrest, hpoint, resume, hskip, rest, hcallback]
      rfl
  | writeLoop =>
    simp only [hpoint, go, assert_eq_some_iff, Option.some.injEq] at hw'
    obtain ⟨hnil, rfl⟩ := hw'
    refine ⟨s, ?_⟩
    rw [hrest, hpoint, rest_invoke, resume]
    have hdrained : ∀ results, TcpConnection.writeLoop results { w.conn with supply := s } =
        TcpConnection.drained { w.conn with supply := s } := by
      intro results
      cases results with
      | nil => exact if_pos hnil
      | cons r results => exact if_pos hnil
    rw [hdrained]
    rfl
  | drained =>
    simp only [hpoint, go, Option.some.injEq] at hw'
    subst hw'
    refine ⟨s, ?_⟩
    have hshutdown : ∀ c : TcpConnection, ({ c with supply := s } : TcpConnection).shutdownInLoop =
        { c.shutdownInLoop with supply := s } := by
      intro c
      unfold TcpConnection.shutdownInLoop
      dsimp only
      split_ifs <;> rfl
    rw [hrest, hpoint, resume]
    by_cases hs : w.conn.state_ = .kDisconnecting
    · rw [if_pos hs, if_pos hs, hshutdown, rest, hcallback]
      rfl
    · rw [if_neg hs, if_neg hs, rest, hcallback]
      rfl
  | close next =>
    simp only [hpoint, go, Option.some.injEq] at hw'
    subst hw'
    refine ⟨s, ?_⟩
    rw [hrest, hpoint, rest_invoke]
    rfl

/-- What the code of the user is left with is one call more. -/
theorem exists_rest_call (hcallback : w.inCallback = true) (k : Call) (kernel : Kernel)
    (s : Supply) : ∃ s₀, w.rest s₀ = rest { w with conn := w.conn.call k, kernel } s := by
  have hcall : ∀ s' : Supply, ({ w.conn with supply := s' } : TcpConnection).call k =
      { w.conn.call k with supply := s' } := fun s' => w.conn.call_supply k s'
  cases hcalls : s.callbacks with
  | nil =>
    refine ⟨{ s with callbacks := [[k]] }, ?_⟩
    have hleft : TcpConnection.callback { w.conn with supply := { s with callbacks := [[k]] } } =
        { w.conn.call k with supply := { s with callbacks := [] } } := hcall _
    have hright : TcpConnection.callback { w.conn.call k with supply := s } =
        { w.conn.call k with supply := s } := by
      unfold TcpConnection.callback
      dsimp only
      rw [hcalls]
    have hsupply : ({ s with callbacks := [] } : Supply) = s := by rw [← hcalls]
    unfold rest
    dsimp only
    rw [hcallback, if_pos rfl, if_pos rfl, hleft, hright, hsupply]
  | cons calls more =>
    refine ⟨{ s with callbacks := (k :: calls) :: more }, ?_⟩
    have hleft : TcpConnection.callback { w.conn with
          supply := { s with callbacks := (k :: calls) :: more } } =
        calls.foldl TcpConnection.call
          { w.conn.call k with supply := { s with callbacks := more } } :=
      congrArg (calls.foldl TcpConnection.call) (hcall { s with callbacks := more })
    have hright : TcpConnection.callback { w.conn.call k with supply := s } =
        calls.foldl TcpConnection.call
          { w.conn.call k with supply := { s with callbacks := more } } := by
      unfold TcpConnection.callback
      dsimp only
      rw [hcalls]
    unfold rest
    dsimp only
    rw [hcallback, if_pos rfl, if_pos rfl, hleft, hright]

/-- What a call does to the connection. -/
theorem conn_call {k : Call} {room : Bool} (hs : step w (.call k room) = some w') :
    ∃ kernel, w' = { w with conn := w.conn.call k, kernel } := by
  obtain ⟨-, hw'⟩ := assert_eq_some_iff.mp hs
  cases k with
  | send message result =>
    change w.send message result room = some w' at hw'
    unfold send at hw'
    split_ifs at hw'
    · obtain ⟨kernel, -, rfl⟩ := Option.map_eq_some_iff.mp hw'
      exact ⟨_, rfl⟩
    · obtain rfl := Option.some.inj hw'
      exact ⟨w.kernel, rfl⟩
  | shutdown =>
    obtain rfl := Option.some.inj hw'
    exact ⟨w.kernel, rfl⟩
  | consume len =>
    obtain rfl := Option.some.inj hw'
    exact ⟨w.kernel, rfl⟩

/-! ## Runs -/

/-- **One step is taken off what is left**, or it begins a step of the connection. -/
theorem exists_rest {i : Input} (hs : step w i = some w') (s : Supply) :
    (∃ s₀, (w.rest s₀).bare = (w'.rest s).bare) ∨
      (w.inCallback = false ∧ w.point = .idle ∧
        ∃ input, (w.conn.step (input, s)).bare = (w'.rest s).bare) := by
  cases i with
  | kernel i =>
    obtain ⟨k, -, rfl⟩ := Option.map_eq_some_iff.mp hs
    exact .inl ⟨s, rfl⟩
  | poll revents =>
    obtain ⟨⟨hcallback, hidle⟩, hw'⟩ := assert_eq_some_iff.mp hs
    obtain ⟨k, -, rfl⟩ := Option.map_eq_some_iff.mp hw'
    refine .inr ⟨hcallback, hidle, .event revents, ?_⟩
    unfold handleEvents
    split_ifs with hhangUp
    · rw [rest_handleClose, TcpConnection.step]
      dsimp only
      rw [TcpConnection.handleEvents, Channel.handler, if_pos hhangUp]
      rfl
    · rw [TcpConnection.step]
      dsimp only
      rw [TcpConnection.handleEvents, Channel.handler, if_neg hhangUp, rest]
      dsimp only
      rw [hcallback]
      rfl
  | task =>
    obtain ⟨⟨hcallback, hidle, htasks⟩, hw'⟩ := assert_eq_some_iff.mp hs
    obtain rfl := Option.some.inj hw'
    refine .inr ⟨hcallback, hidle, .task, ?_⟩
    obtain ⟨n, hn⟩ := Nat.exists_eq_succ_of_ne_zero htasks.ne'
    rw [rest_invoke, TcpConnection.step]
    dsimp only
    rw [hn]
    rfl
  | call k room =>
    obtain ⟨kernel, rfl⟩ := conn_call hs
    cases hcallback : w.inCallback with
    | true =>
      obtain ⟨s₀, hs₀⟩ := exists_rest_call hcallback k kernel s
      exact .inl ⟨s₀, congrArg bare (by rw [hs₀, hcallback])⟩
    | false =>
      obtain ⟨hcall, -⟩ := assert_eq_some_iff.mp hs
      have hidle : w.point = .idle := by simpa [hcallback] using hcall
      refine .inr ⟨rfl, hidle, .call k, congrArg bare ?_⟩
      unfold rest
      rw [hidle]
      exact w.conn.call_supply k s
  | ret =>
    obtain ⟨hcallback, hw'⟩ := assert_eq_some_iff.mp hs
    obtain rfl := Option.some.inj hw'
    refine .inl ⟨{ s with callbacks := [] :: s.callbacks }, ?_⟩
    unfold rest
    dsimp only
    rw [hcallback]
    rfl
  | go =>
    obtain ⟨hcallback, hw'⟩ := assert_eq_some_iff.mp hs
    exact .inl (exists_rest_go hcallback hw' s)
  | readv result =>
    obtain ⟨hcallback, hw'⟩ := assert_eq_some_iff.mp hs
    split at hw'
    · rename_i revents hpoint
      obtain ⟨k, -, rfl⟩ := Option.map_eq_some_iff.mp hw'
      rcases result with ⟨_ | ⟨x, bytes⟩⟩ | errno
      · exact .inl ⟨_, rest_end hcallback hpoint k s⟩
      · exact .inl ⟨_, rest_data hcallback hpoint x bytes k s⟩
      · exact .inl (rest_error hcallback hpoint errno k s)
    · cases hw'
  | write result room =>
    obtain ⟨⟨hcallback, hpoint, hne⟩, hw'⟩ := assert_eq_some_iff.mp hs
    obtain ⟨k, -, rfl⟩ := Option.map_eq_some_iff.mp hw'
    exact .inl (exists_rest_write hcallback hpoint hne result k s)

/-- What is left of a run that ends in an idle endpoint, without interruption. By induction on the
run, which is taken off at its head. -/
theorem exists_run_rest {steps : List Input} (h : run step w steps = some w')
    (hcallback : w'.inCallback = false) (hidle : w'.point = .idle) :
    ∃ s inputs, ((w.rest s).run inputs).bare = w'.conn.bare := by
  induction steps generalizing w with
  | nil =>
    obtain rfl : w = w' := by simpa [run] using h
    refine ⟨{}, [], ?_⟩
    unfold rest
    rw [hcallback, hidle]
    rfl
  | cons i steps ih =>
    obtain ⟨v, hv, hrun⟩ := run_cons h
    obtain ⟨s, inputs, hinputs⟩ := ih hrun
    have hsame : ∀ c : TcpConnection, c.bare = (v.rest s).bare →
        (c.run inputs).bare = w'.conn.bare := by
      intro c hc
      rw [← TcpConnection.bare_run, hc, TcpConnection.bare_run, hinputs]
    rcases exists_rest hv s with ⟨s₀, hs₀⟩ | ⟨hcallback', hidle', input, hinput⟩
    · exact ⟨s₀, inputs, hsame _ hs₀⟩
    · refine ⟨{}, (input, s) :: inputs, ?_⟩
      unfold rest
      rw [hcallback', hidle']
      exact hsame (w.conn.step (input, s)) hinput

/-- **Interruption does not matter.** Whatever the network does between the system calls of the
handlers and while the code of the user runs, an idle endpoint has a connection to which the
uninterrupted handlers lead, with suitable results of their system calls and calls of the user.

**Proof sketch.** From the end of the run to its beginning, each step is put in front of what is
left: a result in front of the results to come, a call in front of the calls of its callback. A
step from an idle endpoint begins a new step of the connection. -/
theorem exists_run_of_idle {sockfd : ℕ} {connection message writeComplete close : Bool}
    {kernel : Kernel} {steps : List Input}
    (h : run step (established sockfd connection message writeComplete close kernel) steps = some w)
    (hcallback : w.inCallback = false) (hidle : w.point = .idle) :
    ∃ supply inputs, w.conn.bare = ((TcpConnection.new sockfd connection message writeComplete
      close supply).connectionEstablished.run inputs).bare := by
  obtain ⟨s, inputs, hinputs⟩ := exists_run_rest h hcallback hidle
  refine ⟨s, inputs, hinputs.symm.trans ?_⟩
  have hrest : (established sockfd connection message writeComplete close kernel).rest s =
      (TcpConnection.new sockfd connection message writeComplete close s).connectionEstablished :=
    rest_invoke _ _ _ _ _
  rw [hrest]

/-- The peer sends and closes while `handleRead` runs. -/
theorem exists_run_of_idle_interrupted : ∃ w : Endpoint,
    run step (established 5 true true true true { recvQueue := [1] })
      [.ret, .poll EPOLLIN, .go, .go, .readv (.data [1]), .kernel (.arrive [2] true),
        .call (.consume 1) true, .ret, .kernel (.close true), .readv (.data [2]), .ret,
        .readv (.data []), .ret, .go, .ret, .go] = some w ∧
      ∃ supply inputs, w.conn.bare =
        ((TcpConnection.new 5 true true true true supply).connectionEstablished.run inputs).bare := by
  have hrun : (run step (established 5 true true true true { recvQueue := [1] })
      [.ret, .poll EPOLLIN, .go, .go, .readv (.data [1]), .kernel (.arrive [2] true),
        .call (.consume 1) true, .ret, .kernel (.close true), .readv (.data [2]), .ret,
        .readv (.data []), .ret, .go, .ret, .go]).any
        (fun w => w.inCallback = false ∧ w.point = .idle) = true := by
    decide +kernel
  obtain ⟨w, hw, hstate⟩ := (Option.any_eq_true _ _).mp hrun
  obtain ⟨hcallback, hidle⟩ := of_decide_eq_true hstate
  exact ⟨w, hw, exists_run_of_idle hw hcallback hidle⟩

end Endpoint

end LouisNet.Net
