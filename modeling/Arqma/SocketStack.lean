import Mathlib.Data.List.AList
import Mathlib.Tactic

/-!
# The ArqMQ socket stack

One worker thread owns the sockets. Other threads hand it work as pointers to objects on
their own stacks, over two queues: requests to dispatch and messages to send. They wait for
the worker to finish, for five seconds at most. The worker takes a pointer without a way to
know whether its owner still waits, and a handler that sends from the worker thread waits for
the thread it runs on.

The model interleaves single steps of the callers and of the worker. Every call pushes over a
socket of its own, so the order of the queues says nothing about the order of arrival: the
worker takes any element.
-/
namespace Arqma.ArqMq
open List

variable {call : ℕ} {e : Event} {msg : CtrlMsg}

inductive CategoryAcl
  | denied
  | basic
  | serviceNode
  | admin
deriving DecidableEq, Repr

structure InboundRequest where
  command : String
  peerAcl : CategoryAcl := .denied
  payload : List UInt8 := []
  peerPubkey : List UInt8 := []
deriving DecidableEq

section Authorize

def maxMessageBytes : ℕ := 1024 * 1024
def maxCommandNameBytes : ℕ := 64
def maxPayloadFrames : ℕ := 16

def acceptRequest (command : String) (payloadBytes payloadFrames : ℕ) : Bool :=
  command ≠ "" && command.utf8ByteSize ≤ maxCommandNameBytes &&
    payloadBytes ≤ maxMessageBytes && payloadFrames ≤ maxPayloadFrames

def builtinCommands : List (String × CategoryAcl) :=
  [("ping", .basic), ("pong", .basic), ("vote_ob", .serviceNode), ("pulse_rnd", .serviceNode),
    ("blink_tx", .serviceNode), ("arqnet_status", .basic), ("admin_shutdown", .admin)]

def requiredAclFor (command : String) : CategoryAcl :=
  ((builtinCommands.find? fun entry => entry.1 = command).map Prod.snd).getD .denied

/-- `acl_rank`. -/
def CategoryAcl.rank : CategoryAcl → ℕ
  | .denied => 0
  | .basic => 1
  | .serviceNode => 2
  | .admin => 3

/-- Unknown commands are denied to everybody. -/
def authorize (command : String) (granted : CategoryAcl) : Bool :=
  requiredAclFor command ≠ .denied && (requiredAclFor command).rank ≤ granted.rank

def authorizeRequest (command : String) (granted : CategoryAcl)
    (payloadBytes payloadFrames : ℕ) : Bool :=
  acceptRequest command payloadBytes payloadFrames && authorize command granted

end Authorize

inductive ErrorCode
  | ok
  | invalidArgument
  | noSuchFileOrDirectory
  | ioError
  | timedOut
  | notConnected
  | permissionDenied
  | operationNotSupported
deriving DecidableEq, Repr

structure SendJob where
  pubkey : List UInt8
  command : String
  payload : List UInt8
  hint : String
deriving DecidableEq

/-- What a caller leaves on its stack for the worker. -/
inductive Job
  | dispatch (request : InboundRequest)
  | send (job : SendJob)
deriving DecidableEq

/-- The frame of a call that has pushed the pointer to its job. The worker writes `done`,
`ec` and `reply`; the frame is gone once the call has returned. -/
structure Call where
  job : Job
  /-- When the wait of the call ends. -/
  deadline : ℕ
  done : Bool := false
  ec : ErrorCode := .ok
  reply : String := ""
  returned : Option ErrorCode := none
deriving DecidableEq

/-- A message on the control socket. Only a send carries a pointer, given as the number of
its call. -/
inductive CtrlMsg
  | quit
  | bind (endpoint : String) (curve : Bool)
  | send (call : ℕ)
deriving DecidableEq

def CtrlMsg.call? : CtrlMsg → Option ℕ
  | .send call => some call
  | _ => none

/-- The sockets an iteration of the worker loop looks at, in its order. -/
inductive Phase
  | listeners
  | dealers
  | ctrl
  | jobs
deriving DecidableEq, Repr

/-- What the poll of an iteration said about the two queues. -/
structure Ready where
  ctrl : Bool
  jobs : Bool
deriving DecidableEq, Repr

/-- What a handler runs for: a message of a peer or a dispatched job. -/
inductive Task
  | message (phase : Phase) (request : InboundRequest)
  | job (call : ℕ)
deriving DecidableEq

inductive Worker
  | polling
  | at (phase : Phase) (ready : Ready)
  | handling (ready : Ready) (task : Task)
  /-- A handler waits in `send_to_peer`, on the worker thread. -/
  | waiting (ready : Ready) (task : Task) (call : ℕ)
  | sending (call : ℕ)
  | stopped
deriving DecidableEq

/-- A started stack. -/
structure SocketStack where
  clock : ℕ := 0
  stopRequested : Bool := false
  curvePublicKey : List UInt8
  curveSecretKey : List UInt8
  /-- The hints of the peer table. -/
  peers : AList (fun _ : List UInt8 => String) := ∅
  /-- The commands that have a handler. -/
  handlers : List String
  calls : List Call := []
  jobs : List ℕ := []
  ctrl : List CtrlMsg := []
  worker : Worker := .polling

inductive Event
  | dispatch (request : InboundRequest) (connects : Bool)
  | sendToPeer (job : SendJob) (connects : Bool)
  | bind (endpoint : String) (curve : Bool)
  | stop
  | elapse (seconds : ℕ)
  | wake (call : ℕ)
  | timeout (call : ℕ)
  | poll
  | receive (request : InboundRequest)
  | proceed
  | takeCtrl (msg : CtrlMsg)
  | sent (succeeds : Bool)
  | takeJob (call : ℕ)
  | handlerSends (job : SendJob) (connects : Bool)
  | handlerReturns (reply : Option String)
deriving DecidableEq

namespace SocketStack

/-- The checks of `send_to_peer`, with the hint it resolves. -/
def sendChecks (s : SocketStack) (job : SendJob) : Except ErrorCode SendJob :=
  if s.worker = .stopped ∨ job.pubkey.length ≠ 32 ∨ job.command = "" then .error .invalidArgument
  else
    let hint := if job.hint = "" then (s.peers.lookup job.pubkey).getD "" else job.hint
    if hint = "" then .error .noSuchFileOrDirectory
    else if s.curvePublicKey.length ≠ 32 ∨ s.curveSecretKey.length ≠ 32 then
      .error .invalidArgument
    else .ok { job with hint }

/-- A call that starts to wait. -/
def newCall (s : SocketStack) (job : Job) : Call := { job, deadline := s.clock + 5 }

def pushJob (s : SocketStack) (request : InboundRequest) : SocketStack :=
  { s with
    calls := s.calls ++ [s.newCall (.dispatch request)]
    jobs := s.jobs ++ [s.calls.length] }

def pushSend (s : SocketStack) (job : SendJob) : SocketStack :=
  { s with
    calls := s.calls ++ [s.newCall (.send job)]
    ctrl := s.ctrl ++ [.send s.calls.length] }

/-- The end of `send_to_peer` before its wait: no pointer is pushed after an error. -/
def trySend (s : SocketStack) (job : SendJob) (connects : Bool) : Option SocketStack :=
  match s.sendChecks job with
  | .error _ => none
  | .ok resolved => if connects then some (s.pushSend resolved) else none

/-- A waiting call returns. On the worker thread its handler goes on. -/
def returnCall (s : SocketStack) (call : ℕ) (ec : ErrorCode) : SocketStack :=
  { s with
    calls := s.calls.modify call fun c => { c with returned := some ec }
    worker :=
      match s.worker with
      | .waiting ready task own => if own = call then .handling ready task else s.worker
      | worker => worker }

/-- The worker writes the result into a call and wakes it. -/
def complete (s : SocketStack) (call : ℕ) (ec : ErrorCode) (reply : String) : SocketStack :=
  { s with calls := s.calls.modify call fun c => { c with done := true, ec, reply } }

/-- `handle_job` before the handler runs. -/
def admission (s : SocketStack) (request : InboundRequest) : ErrorCode :=
  if !authorizeRequest request.command request.peerAcl request.payload.length 1 then
    .permissionDenied
  else if request.command ∉ s.handlers then .operationNotSupported
  else .ok

/-- The worker after a handler that ran for a message or a job. -/
def finish (s : SocketStack) (ready : Ready) (reply : Option String) : Task → SocketStack
  | .message phase _ => { s with worker := .at phase ready }
  | .job call =>
    match reply with
    | some reply => { s.complete call .ok reply with worker := .polling }
    | none => { s.complete call .ioError "" with worker := .polling }

/-- The worker has sent a message or failed to. -/
def finishSend (s : SocketStack) (call : ℕ) (job : SendJob) (succeeds : Bool) : SocketStack :=
  if s.curvePublicKey.length ≠ 32 ∨ s.curveSecretKey.length ≠ 32 then
    { s.complete call .invalidArgument "" with worker := .polling }
  else if succeeds then
    { s.complete call .ok "" with
      peers := if job.hint = "" then s.peers else s.peers.insert job.pubkey job.hint
      worker := .polling }
  else { s.complete call .ioError "" with worker := .polling }

/-- One step of a caller or of the worker, where it is possible. -/
def step (s : SocketStack) : Event → Option SocketStack
  | .dispatch request connects =>
    some (if s.worker ≠ .stopped ∧ connects = true then s.pushJob request else s)
  | .sendToPeer job connects => some ((s.trySend job connects).getD s)
  | .bind endpoint curve => some { s with ctrl := s.ctrl ++ [.bind endpoint curve] }
  | .stop => some { s with stopRequested := true, ctrl := s.ctrl ++ [.quit] }
  | .elapse seconds => some { s with clock := s.clock + seconds }
  | .wake call =>
    match s.calls[call]? with
    | none => none
    | some c => if c.returned = none ∧ c.done = true then some (s.returnCall call c.ec) else none
  | .timeout call =>
    match s.calls[call]? with
    | none => none
    | some c =>
      if c.returned = none ∧ c.done = false ∧ c.deadline ≤ s.clock then
        some (s.returnCall call .timedOut)
      else none
  | .poll =>
    match s.worker with
    | .polling =>
      if s.stopRequested then some { s with worker := .stopped }
      else some { s with worker := .at .listeners ⟨s.ctrl ≠ [], s.jobs ≠ []⟩ }
    | _ => none
  | .receive request =>
    match s.worker with
    | .at phase ready =>
      if phase = .listeners ∨ phase = .dealers then
        -- a message that is not admitted is dropped, and the loop reads the next one
        if s.admission request = .ok then
          some { s with worker := .handling ready (.message phase request) }
        else some s
      else none
    | _ => none
  | .proceed =>
    match s.worker with
    | .at .listeners ready => some { s with worker := .at .dealers ready }
    | .at .dealers ready => some { s with worker := .at .ctrl ready }
    | .at .ctrl ready => if ready.ctrl then none else some { s with worker := .at .jobs ready }
    | .at .jobs ready => if ready.jobs then none else some { s with worker := .polling }
    | _ => none
  | .takeCtrl msg =>
    match s.worker with
    | .at .ctrl ready =>
      if ready.ctrl = true ∧ msg ∈ s.ctrl then
        let taken := { s with ctrl := s.ctrl.erase msg }
        match msg with
        | .quit => some { taken with worker := .stopped }
        | .bind _ _ => some { taken with worker := .at .jobs ready }
        | .send call => some { taken with worker := .sending call }
      else none
    | _ => none
  | .sent succeeds =>
    match s.worker with
    | .sending call =>
      match s.calls[call]? with
      | some { job := .send job, .. } => some (s.finishSend call job succeeds)
      | _ => none
    | _ => none
  | .takeJob call =>
    match s.worker with
    | .at .jobs ready =>
      if ready.jobs = true ∧ call ∈ s.jobs then
        let taken := { s with jobs := s.jobs.erase call }
        match s.calls[call]? with
        | some { job := .dispatch request, .. } =>
          if s.admission request = .ok then
            some { taken with worker := .handling ready (.job call) }
          else some { taken.complete call (s.admission request) "" with worker := .polling }
        | _ => none
      else none
    | _ => none
  | .handlerSends job connects =>
    match s.worker with
    | .handling ready task =>
      match s.trySend job connects with
      | none => some s
      | some pushed => some { pushed with worker := .waiting ready task s.calls.length }
    | _ => none
  | .handlerReturns reply =>
    match s.worker with
    | .handling ready task => some (s.finish ready reply task)
    | _ => none

/-- The calls whose frame the worker reads or writes in a step. -/
def touched (s : SocketStack) : Event → List ℕ
  | .takeCtrl msg => msg.call?.toList
  | .takeJob call => [call]
  | .sent _ =>
    match s.worker with
    | .sending call => [call]
    | _ => []
  | .handlerReturns _ =>
    match s.worker with
    | .handling _ (.job call) => [call]
    | _ => []
  | _ => []

/-- The stack after a sequence of steps, if all of them are possible. -/
def after (s : SocketStack) : List Event → Option SocketStack
  | [] => some s
  | e :: events => (s.step e).bind fun s' => s'.after events

end SocketStack

/-! ## Jobs in the hands of the worker -/

def Worker.inHand : Worker → List ℕ
  | .handling _ (.job call) => [call]
  | .waiting _ (.job call) _ => [call]
  | .sending call => [call]
  | _ => []

namespace SocketStack

/-- The calls that the worker will still touch: those in the queues and the one it works on. -/
def held (s : SocketStack) : List ℕ :=
  s.jobs ++ (s.ctrl.filterMap CtrlMsg.call? ++ s.worker.inHand)

/-- While the worker runs, every call it will touch still waits for it and is pending once,
and no handler waits on the worker thread. -/
structure Sound (s : SocketStack) : Prop where
  live : s.worker ≠ .stopped → ∀ call ∈ s.held,
    ∃ c, s.calls[call]? = some c ∧ c.returned = none ∧ c.done = false
  nodup : s.worker ≠ .stopped → s.held.Nodup
  free : ∀ ready task call, s.worker ≠ .waiting ready task call

variable {s s' : SocketStack}

theorem sound_of_stopped (h : s.worker = .stopped) : Sound s :=
  ⟨fun hrun => absurd h hrun, fun hrun => absurd h hrun, fun _ _ _ => by rw [h]; exact nofun⟩

/-- Soundness carries over to a state with no more pending calls and the same frames. -/
theorem Sound.of_subperm (h : Sound s) (hrun : s.worker ≠ .stopped) (hheld : s'.held.Subperm s.held)
    (hcalls : ∀ call ∈ s'.held, s'.calls[call]? = s.calls[call]?)
    (hfree : ∀ ready task call, s'.worker ≠ .waiting ready task call) : Sound s' where
  live _ call hcall := by
    obtain ⟨c, hc, hlive⟩ := h.live hrun call (hheld.subset hcall)
    exact ⟨c, (hcalls call hcall).trans hc, hlive⟩
  nodup _ := by
    obtain ⟨l, hperm, hsub⟩ := hheld
    exact hperm.nodup_iff.mp ((h.nodup hrun).sublist hsub)
  free := hfree

theorem Sound.lt_length (h : Sound s) (hrun : s.worker ≠ .stopped) (hcall : call ∈ s.held) :
    call < s.calls.length := by
  obtain ⟨c, hc, -⟩ := h.live hrun call hcall
  exact (List.getElem?_eq_some_iff.mp hc).1

/-- A new call is pending once. -/
theorem Sound.push (h : Sound s) (hrun : s.worker ≠ .stopped) {job : Job}
    (hcalls : s'.calls = s.calls ++ [s.newCall job])
    (hheld : s'.held.Perm (s.calls.length :: s.held)) (hworker : s'.worker = s.worker) :
    Sound s' where
  live _ call hcall := by
    rw [hcalls]
    obtain rfl | hold := mem_cons.mp (hheld.mem_iff.mp hcall)
    · exact ⟨s.newCall job, by simp, rfl, rfl⟩
    · obtain ⟨c, hc, hlive⟩ := h.live hrun call hold
      exact ⟨c, by rw [getElem?_append_left (h.lt_length hrun hold)]; exact hc, hlive⟩
  nodup _ := by
    rw [hheld.nodup_iff, nodup_cons]
    exact ⟨fun hmem => (h.lt_length hrun hmem).false, h.nodup hrun⟩
  free := by
    rw [hworker]
    exact h.free

theorem held_pushJob (s : SocketStack) (request : InboundRequest) :
    (s.pushJob request).held.Perm (s.calls.length :: s.held) := by
  simp only [held, pushJob, append_assoc, singleton_append]
  exact perm_middle

theorem held_pushSend (s : SocketStack) (job : SendJob) :
    (s.pushSend job).held.Perm (s.calls.length :: s.held) := by
  grind [held, pushSend, CtrlMsg.call?]

theorem trySend_some {job : SendJob} {connects : Bool} (h : s.trySend job connects = some s') :
    s.worker ≠ .stopped ∧ connects = true ∧ ∃ resolved, s' = s.pushSend resolved := by
  unfold trySend at h
  grind [sendChecks]

theorem calls_complete_of_ne {call other : ℕ} (hne : other ≠ call) (ec : ErrorCode)
    (reply : String) :
    (s.complete call ec reply).calls[other]? = s.calls[other]? :=
  getElem?_modify_ne _ _ hne.symm

/-- A finished call leaves the pending ones, and the worker polls again. -/
theorem Sound.complete (h : Sound s) (hrun : s.worker ≠ .stopped) {ec : ErrorCode} {reply : String}
    (hheld : s.held.Perm (call :: (s'.jobs ++ s'.ctrl.filterMap CtrlMsg.call?)))
    (hcalls : s'.calls = (s.complete call ec reply).calls) (hidle : s'.worker = .polling) :
    Sound s' := by
  have hrest : s'.held = s'.jobs ++ s'.ctrl.filterMap CtrlMsg.call? := by
    simp [held, hidle, Worker.inHand]
  rw [← hrest] at hheld
  have hnodup : (call :: s'.held).Nodup := hheld.nodup_iff.mp (h.nodup hrun)
  refine h.of_subperm hrun ((sublist_cons_self call s'.held).subperm.trans
    hheld.symm.subperm) (fun other hother => ?_) (fun _ _ _ => by rw [hidle]; exact nofun)
  rw [hcalls]
  refine calls_complete_of_ne ?_ ec reply
  rintro rfl
  exact (nodup_cons.mp hnodup).1 hother

/-- The call the worker works on is pending beside those in the queues. -/
theorem held_of_inHand (hhand : s.worker.inHand = [call]) :
    s.held.Perm (call :: (s.jobs ++ s.ctrl.filterMap CtrlMsg.call?)) := by
  rw [held, hhand, ← append_assoc]
  exact perm_append_singleton _ _

/-! ## Steps and runs -/

/-- The steps that go wrong: a call gives up while the worker runs, and a handler that gets
past the checks of `send_to_peer`. -/
def Heeds (s : SocketStack) : Event → Prop
  | .timeout _ => s.worker = .stopped
  | .handlerSends job connects => (s.trySend job connects).isNone = true
  | _ => True

/-- A worker that has stopped takes nothing any more. -/
theorem stopped_step (hstopped : s.worker = .stopped) (hstep : s.step e = some s') :
    s'.worker = .stopped := by
  cases e with
  | dispatch request connects =>
    simp only [step, Option.some.injEq] at hstep
    rw [← hstep, if_neg fun h => h.1 hstopped]
    exact hstopped
  | sendToPeer job connects =>
    simp only [step, Option.some.injEq] at hstep
    grind [trySend, trySend_some]
  | bind endpoint curve | stop | elapse seconds =>
    simp only [step, Option.some.injEq] at hstep
    rw [← hstep]
    exact hstopped
  | wake call | timeout call =>
    simp only [step] at hstep
    split at hstep
    · cases hstep
    · split_ifs at hstep
      cases hstep
      simp [returnCall, hstopped]
  | _ => simp [step, hstopped] at hstep

theorem Sound.wake (h : Sound s) (hrun : s.worker ≠ .stopped) {c : Call}
    (hc : s.calls[call]? = some c) (hdone : c.done = true) :
    Sound (s.returnCall call c.ec) := by
  grind [returnCall, held, h.of_subperm, List.Subperm.refl, h.free, h.live]

/-- A worker step that changes neither the frames nor the pending calls. -/
theorem Sound.move (h : Sound s) (hrun : s.worker ≠ .stopped) {worker : Worker}
    (hhand : worker.inHand = s.worker.inHand)
    (hfree : ∀ ready task call, worker ≠ .waiting ready task call) :
    Sound { s with worker } := by
  have hheld : SocketStack.held { s with worker } = s.held := by
    simp only [held, hhand]
  exact h.of_subperm hrun (hheld ▸ List.Subperm.refl _) (fun _ _ => rfl) hfree

theorem held_takeCtrl (hmsg : msg ∈ s.ctrl) (hhand : s.worker.inHand = []) :
    s.held.Perm (s.jobs ++ (msg.call?.toList ++ (s.ctrl.erase msg).filterMap CtrlMsg.call?)) := by
  grind [held, perm_cons_erase]

theorem held_takeJob (hcall : call ∈ s.jobs) (hhand : s.worker.inHand = []) :
    s.held.Perm (call :: (s.jobs.erase call ++ s.ctrl.filterMap CtrlMsg.call?)) := by
  rw [held, hhand, append_nil]
  exact (perm_cons_erase hcall).append_right _

theorem Sound.takeCtrl (h : Sound s) (hstep : s.step (.takeCtrl msg) = some s') : Sound s' := by
  simp only [step] at hstep
  split at hstep
  next ready hworker =>
    have hrun : s.worker ≠ .stopped := by rw [hworker]; exact nofun
    have hhand : s.worker.inHand = [] := by rw [hworker]; rfl
    split_ifs at hstep with htake
    have hperm := held_takeCtrl htake.2 hhand
    cases msg with
    | quit =>
      cases hstep
      exact sound_of_stopped rfl
    | bind endpoint curve =>
      grind [held, Worker.inHand, CtrlMsg.call?, h.of_subperm, List.Perm.subperm]
    | send call =>
      cases hstep
      refine h.of_subperm hrun (List.Perm.subperm ?_) (fun _ _ => rfl) (fun _ _ _ => nofun)
      refine List.Perm.trans ?_ hperm.symm
      exact List.Perm.append_left _ perm_append_comm
  next => cases hstep

theorem Sound.sent (h : Sound s) {succeeds : Bool} (hstep : s.step (.sent succeeds) = some s') :
    Sound s' := by
  simp only [step] at hstep
  split at hstep
  next call hworker =>
    have hrun : s.worker ≠ .stopped := by rw [hworker]; exact nofun
    have hhand : s.worker.inHand = [call] := by rw [hworker]; rfl
    have hheld := held_of_inHand hhand
    split at hstep
    · cases hstep
      unfold finishSend
      split_ifs <;> exact h.complete hrun hheld rfl rfl
    · cases hstep
  next => cases hstep

theorem Sound.takeJob (h : Sound s) (hstep : s.step (.takeJob call) = some s') : Sound s' := by
  simp only [step] at hstep
  split at hstep
  next ready hworker =>
    have hrun : s.worker ≠ .stopped := by rw [hworker]; exact nofun
    have hhand : s.worker.inHand = [] := by rw [hworker]; rfl
    split_ifs at hstep with htake
    have hperm := held_takeJob htake.2 hhand
    split at hstep
    · split_ifs at hstep
      · grind [held, Worker.inHand, h.of_subperm, List.Perm.subperm]
      · cases hstep
        exact h.complete hrun hperm rfl rfl
    · cases hstep
  next => cases hstep

theorem Sound.handlerReturns (h : Sound s) {reply : Option String}
    (hstep : s.step (.handlerReturns reply) = some s') : Sound s' := by
  simp only [step] at hstep
  split at hstep
  next ready task hworker =>
    cases hstep
    have hrun : s.worker ≠ .stopped := by rw [hworker]; exact nofun
    cases task with
    | message phase request => exact h.move hrun (by rw [hworker]; rfl) (fun _ _ _ => nofun)
    | job call =>
      have hhand : s.worker.inHand = [call] := by rw [hworker]; rfl
      cases reply with
      | none => exact h.complete hrun (held_of_inHand hhand) rfl rfl
      | some reply => exact h.complete hrun (held_of_inHand hhand) rfl rfl
  next => cases hstep

theorem Sound.step (h : Sound s) (hheeds : s.Heeds e) (hstep : s.step e = some s') : Sound s' := by
  by_cases hrun : s.worker = .stopped
  · exact sound_of_stopped (stopped_step hrun hstep)
  cases e with
  | dispatch request connects =>
    simp only [SocketStack.step, Option.some.injEq] at hstep
    rw [← hstep]
    split_ifs
    · exact h.push hrun rfl (held_pushJob s request) rfl
    · exact h
  | sendToPeer job connects =>
    simp only [SocketStack.step, Option.some.injEq] at hstep
    rw [← hstep]
    cases hsend : s.trySend job connects with
    | none => exact h
    | some pushed =>
      obtain ⟨-, -, resolved, rfl⟩ := trySend_some hsend
      exact h.push hrun rfl (held_pushSend s resolved) rfl
  | bind endpoint curve | stop =>
    cases hstep
    refine h.of_subperm hrun (List.Perm.of_eq ?_).subperm (fun _ _ => rfl) h.free
    simp [held, CtrlMsg.call?]
  | elapse seconds =>
    cases hstep
    exact h.of_subperm hrun (List.Subperm.refl _) (fun _ _ => rfl) h.free
  | wake call =>
    grind [SocketStack.step, h.wake]
  | timeout call => exact absurd hheeds hrun
  | poll =>
    simp only [SocketStack.step] at hstep
    split at hstep
    · next hworker =>
      split_ifs at hstep
      · cases hstep
        exact sound_of_stopped rfl
      · cases hstep
        exact h.move hrun (by rw [hworker]; rfl) (fun _ _ _ => nofun)
    · cases hstep
  | receive request =>
    simp only [SocketStack.step] at hstep
    split at hstep
    · next phase ready hworker =>
      split_ifs at hstep
      · cases hstep
        exact h.move hrun (by rw [hworker]; rfl) (fun _ _ _ => nofun)
      · exact Option.some.inj hstep ▸ h
    · cases hstep
  | proceed =>
    simp only [SocketStack.step] at hstep
    split at hstep
    · next ready hworker =>
      cases hstep
      exact h.move hrun (by rw [hworker]; rfl) (fun _ _ _ => nofun)
    · next ready hworker =>
      cases hstep
      exact h.move hrun (by rw [hworker]; rfl) (fun _ _ _ => nofun)
    · next ready hworker =>
      split_ifs at hstep
      cases hstep
      exact h.move hrun (by rw [hworker]; rfl) (fun _ _ _ => nofun)
    · next ready hworker =>
      split_ifs at hstep
      cases hstep
      exact h.move hrun (by rw [hworker]; rfl) (fun _ _ _ => nofun)
    · cases hstep
  | takeCtrl msg => exact h.takeCtrl hstep
  | sent succeeds => exact h.sent hstep
  | takeJob call => exact h.takeJob hstep
  | handlerSends job connects =>
    grind [Heeds, SocketStack.step]
  | handlerReturns reply => exact h.handlerReturns hstep

/-- Every frame that a step of the worker touches belongs to a call that has not returned. -/
def TouchesLive (s : SocketStack) (e : Event) : Prop :=
  ∀ call ∈ s.touched e, ∃ c, s.calls[call]? = some c ∧ c.returned = none

/-- A handler on the worker thread waits for the worker. -/
def WaitsForItself (s : SocketStack) : Prop :=
  ∃ ready task call, s.worker = .waiting ready task call

/-- What a possible step touches is pending. -/
theorem touched_subset_held (hstep : (s.step e).isSome = true)
    (hcall : call ∈ s.touched e) : s.worker ≠ .stopped ∧ call ∈ s.held := by
  cases e with
  | takeCtrl msg =>
    grind [SocketStack.step, touched, held]
  | takeJob job =>
    grind [held, touched, SocketStack.step]
  | sent succeeds =>
    grind [touched, held, Worker.inHand]
  | handlerReturns reply =>
    grind [touched, held, Worker.inHand]
  | _ => simp [touched] at hcall

theorem Sound.touchesLive (h : Sound s) (hstep : (s.step e).isSome = true) : TouchesLive s e := by
  intro call hcall
  obtain ⟨hrun, hheld⟩ := touched_subset_held hstep hcall
  obtain ⟨c, hc, hreturned, -⟩ := h.live hrun call hheld
  exact ⟨c, hc, hreturned⟩

/-- A run none of whose steps goes wrong. -/
def HeedfulRun : SocketStack → List Event → Prop
  | _, [] => True
  | s, e :: events =>
    s.Heeds e ∧
      match s.step e with
      | none => True
      | some s' => HeedfulRun s' events

theorem Sound.after (h : Sound s) {earlier later : List Event}
    (hrun : HeedfulRun s (earlier ++ later)) (hafter : s.after earlier = some s') : Sound s' := by
  induction earlier generalizing s with
  | nil =>
    cases hafter
    exact h
  | cons e earlier ih =>
    grind [HeedfulRun, SocketStack.after, h.step]

/-- A stack whose worker has just started. -/
structure Started (s : SocketStack) : Prop where
  jobs : s.jobs = []
  ctrl : s.ctrl = []
  worker : s.worker = .polling

theorem Started.sound (h : Started s) : Sound s := by
  have hheld : s.held = [] := by
    simp [held, h.jobs, h.ctrl, h.worker, Worker.inHand]
  refine ⟨fun _ call hcall => ?_, fun _ => ?_, fun _ _ _ => ?_⟩ <;> grind [h.worker]

/-- As long as no call gives up while the worker runs and no handler gets past the checks of
`send_to_peer`, the worker never waits for itself and touches only frames of calls that have
not returned. -/
theorem worker_touches_live_calls (s : SocketStack) (hstart : Started s) (events : List Event)
    (hrun : HeedfulRun s events) :
    ∀ earlier later s', events = earlier ++ later → s.after earlier = some s' →
      ¬WaitsForItself s' ∧ ∀ e, (s'.step e).isSome = true → TouchesLive s' e := by
  rintro earlier later s' rfl hafter
  have hsound := hstart.sound.after hrun hafter
  refine ⟨?_, fun e hstep => hsound.touchesLive hstep⟩
  rintro ⟨ready, task, call, hwaiting⟩
  exact hsound.free ready task call hwaiting

section Sample

instance (s : SocketStack) : DecidablePred s.Heeds
  | .timeout _ => inferInstanceAs (Decidable (s.worker = .stopped))
  | .handlerSends job connects =>
    inferInstanceAs (Decidable ((s.trySend job connects).isNone = true))
  | .dispatch _ _ | .sendToPeer _ _ | .bind _ _ | .stop | .elapse _ | .wake _ | .poll
  | .receive _ | .proceed | .takeCtrl _ | .sent _ | .takeJob _ | .handlerReturns _ =>
    inferInstanceAs (Decidable True)

instance decidableHeedfulRun :
    ∀ (events : List Event) (s : SocketStack), Decidable (HeedfulRun s events)
  | [], _ => inferInstanceAs (Decidable True)
  | e :: events, s =>
    match hstep : s.step e with
    | none => decidable_of_iff (s.Heeds e) (by simp [HeedfulRun, hstep])
    | some s' =>
      have := decidableHeedfulRun events s'
      decidable_of_iff (s.Heeds e ∧ HeedfulRun s' events) (by simp [HeedfulRun, hstep])

/-- A stack with keys and the handlers of the native mesh. -/
def sampleStack : SocketStack where
  curvePublicKey := List.replicate 32 1
  curveSecretKey := List.replicate 32 2
  handlers := ["ping", "pong", "vote_ob", "pulse_rnd", "blink_tx"]

theorem sampleStack_started : Started sampleStack := ⟨rfl, rfl, rfl⟩

/-- A vote from a service node. -/
def voteMessage : InboundRequest := { command := "vote_ob", peerAcl := .serviceNode }

/-- The relay of a vote to a peer, given its address. -/
def relayTo (hint : String) : SendJob := ⟨List.replicate 32 3, "vote_ob", [7], hint⟩

/-- A ping and a message that the worker finishes in time, and the handler of a vote that
knows no address to relay it to. -/
def promptRun : List Event :=
  [.dispatch { command := "ping", peerAcl := .basic } true, .sendToPeer (relayTo "tcp://a") true,
    .poll, .receive voteMessage, .handlerSends ⟨[], "vote_ob", [7], ""⟩ true,
    .handlerReturns (some ""), .proceed, .proceed, .takeCtrl (.send 1), .sent true, .wake 1,
    .poll, .proceed, .proceed, .proceed, .takeJob 0, .handlerReturns (some "pong"), .wake 0]

theorem promptRun_touches_live :
    ((sampleStack.after promptRun).map fun s => s.calls.map Call.returned) =
        some [some .ok, some .ok] ∧
      ∀ earlier later s', promptRun = earlier ++ later → sampleStack.after earlier = some s' →
        ¬WaitsForItself s' ∧ ∀ e, (s'.step e).isSome = true → TouchesLive s' e :=
  ⟨by decide,
    worker_touches_live_calls sampleStack sampleStack_started promptRun (by decide)⟩

/-- The handler of a vote relays it from the worker thread. -/
def relayingHandler : List Event :=
  [.poll, .receive voteMessage, .handlerSends (relayTo "tcp://a") true]

/-- The relay times out, the handler ends, and the worker comes to its control queue. -/
def relayTimedOut : List Event :=
  relayingHandler ++
    [.elapse 5, .timeout 0, .handlerReturns (some ""), .proceed, .proceed, .proceed, .proceed,
      .poll, .proceed, .proceed]

/-- A handler that relays a vote waits for its own thread, and once its call has given up the
worker takes the pointer to the frame that is gone. -/
theorem relay_from_handler_dangles :
    (∃ s, sampleStack.after relayingHandler = some s ∧ WaitsForItself s) ∧
      ∃ s, sampleStack.after relayTimedOut = some s ∧
        (s.step (.takeCtrl (.send 0))).isSome = true ∧ ¬TouchesLive s (.takeCtrl (.send 0)) := by
  refine ⟨⟨_, rfl, _, _, _, rfl⟩, _, rfl, rfl, ?_⟩
  intro hlive
  obtain ⟨c, hc, hreturned⟩ := hlive 0 (mem_singleton_self 0)
  cases hc
  cases hreturned

end Sample

end SocketStack
end Arqma.ArqMq
