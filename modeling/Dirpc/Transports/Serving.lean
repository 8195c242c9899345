import Dirpc.Transports.Protocol

namespace Dirpc

open Base

def WsNext.endsLoop : WsNext → Bool
  | .close | .ended | .error => true
  | .text _ | .ping | .other => false

def WsNext.isPing : WsNext → Bool
  | .ping => true
  | _ => false

def WsNext.message (serde : Serde) : WsNext → Option RpcMessage
  | .text bytes => serde.rpcMessage bytes
  | _ => none

/-- A frame that the IPC loop treats as the WebSocket loop treats the message. -/
def WsNext.frame : WsNext → Frame
  | .text bytes => (IpcOpcode.frame.toI32, bytes)
  | .ping => (IpcOpcode.ping.toI32, [])
  | .close | .ended | .error => (IpcOpcode.close.toI32, [])
  | .other => (IpcOpcode.pong.toI32, [])

def Serde.greeting (serde : Serde) (clientId : String) : Serde :=
  { serde with handshake := fun _ => some ⟨1, clientId⟩ }

structure Answered (serde : Serde) (clientId : String) (id : Nat) (items : List WsNext)
    (effects : List Effect) : Prop where
  calls : effects.filterMap Effect.call =
    (items.filterMap (WsNext.message serde)).map fun msg => (id, clientId, msg)
  pongs : effects.countP Effect.isPong = items.countP WsNext.isPing
  inLoop : ∀ effect ∈ effects, effect.inLoop

variable {target : Target} {serde : Serde} {clientId : String} {c id : Nat}

theorem endsLoop_frame (item : WsNext) : endsLoop item.frame = item.endsLoop := by
  cases item <;> rfl

theorem frameMessage_frame (item : WsNext) :
    frameMessage (serde.greeting clientId) item.frame = item.message serde := by
  cases item <;> rfl

theorem isPing_frame (item : WsNext) : isPing item.frame = item.isPing := by cases item <;> rfl

theorem outcome_frame (item : WsNext) :
    ipcOutcome (serde.greeting clientId) (some item.frame) = wsOutcome serde item := by
  cases item <;> rfl

theorem untilEnd_frames (items : List WsNext) : untilEnd (items.map WsNext.frame) =
    (items.takeWhile fun item => !item.endsLoop).map WsNext.frame := by
  rw [untilEnd, List.takeWhile_map]
  congr 2
  funext item
  exact congrArg not (endsLoop_frame item)

theorem Served.answered {items : List WsNext} {effects : List Effect}
    (served : Served (serde.greeting clientId) clientId id (items.map WsNext.frame) effects) :
    Answered serde clientId id items effects := by
  refine ⟨?_, ?_, served.inLoop⟩
  · rw [served.calls, List.filterMap_map]
    congr 2
    funext item
    exact frameMessage_frame item
  · rw [served.pongs, List.countP_map]
    congr 1
    funext item
    exact isPing_frame item

namespace Session

/-- The session on an IPC connection whose client has still to shake hands. -/
def asIpc (s : Session WsNext) : Session Frame where
  server := s.server
  queues := s.queues
  input := match s.phase with
    | .opening => (IpcOpcode.handshake.toI32, []) :: s.input.map WsNext.frame
    | _ => s.input.map WsNext.frame
  phase := s.phase
  effects := s.effects

theorem asIpc_leave (s : Session WsNext) (looping : ∃ name id, s.phase = .looping name id) :
    s.asIpc.leave c id = (s.leave c id).asIpc := by
  obtain ⟨name, own, phase⟩ := looping
  simp [asIpc, leave, phase]

theorem asIpc_receive (s : Session WsNext) (looping : ∃ name id, s.phase = .looping name id)
    (now : Nat → Int) (pongOk : Bool) (outcome : Outcome) :
    s.asIpc.receive c clientId id now pongOk outcome =
      (s.receive c clientId id now pongOk outcome).asIpc := by
  cases outcome with
  | message msg =>
    rw [receive, receive, answer_eq, answer_eq]
    rfl
  | pong => cases pongOk <;> rfl
  | skip => rfl
  | stop => exact asIpc_leave s looping

theorem asIpc_outbound (s : Session WsNext) (looping : ∃ name id, s.phase = .looping name id)
    (ok : Bool) : s.asIpc.outbound c id ok = (s.outbound c id ok).map asIpc := by
  have queues : s.asIpc.queues = s.queues := rfl
  have server : s.asIpc.server = s.server := rfl
  unfold outbound
  rw [queues, server]
  cases (s.queues c).recv with
  | none =>
    dsimp only
    split
    · rfl
    · exact congrArg some (asIpc_leave s looping)
  | some received =>
    obtain ⟨json, rest⟩ := received
    cases ok with
    | true => rfl
    | false =>
      have left : ∃ name id, ({ s with queues := Function.update s.queues c rest } :
          Session WsNext).phase = .looping name id := looping
      exact congrArg some (asIpc_leave _ left)

theorem asIpc_inbound (s : Session WsNext) {name : String} (phase : s.phase = .looping name id)
    (now : Nat → Int) (pongOk : Bool) :
    s.asIpc.ipcInbound (serde.greeting clientId) c name id now pongOk =
      (s.wsInbound serde c name id now pongOk).asIpc := by
  have input : s.asIpc.input = s.input.map WsNext.frame := by simp only [asIpc, phase]
  rw [ipcInbound_eq, wsInbound_eq, input]
  cases s.input with
  | nil => exact asIpc_leave s ⟨name, id, phase⟩
  | cons item rest =>
    have moved : ({ s.asIpc with input := rest.map WsNext.frame } : Session Frame) =
        asIpc { s with input := rest } := by simp only [asIpc, phase]
    rw [List.map_cons]
    dsimp only
    rw [moved, outcome_frame]
    exact asIpc_receive { s with input := rest } ⟨name, id, phase⟩ now pongOk _

theorem asIpc_opening (s : Session WsNext) (phase : s.phase = .opening) (readyOk : Bool) :
    s.asIpc.ipcOpening target (serde.greeting clientId) c readyOk =
      (s.wsOpening target c clientId readyOk).asIpc := by
  have input : s.asIpc.input =
      (IpcOpcode.handshake.toI32, []) :: s.input.map WsNext.frame := by simp only [asIpc, phase]
  have greeted : handshakeClient (serde.greeting clientId) s.asIpc.input = some clientId := by
    rw [input]
    rfl
  rw [ipcOpening_eq, greeted, input]
  cases readyOk <;> rfl

theorem asIpc_turn (s : Session WsNext) (turn : Turn) :
    handleIpcIo target (serde.greeting clientId) c s.asIpc turn =
      (handleConnection target serde c clientId s turn).map asIpc := by
  have same : s.asIpc.phase = s.phase := rfl
  unfold handleIpcIo handleConnection step
  rw [same]
  cases turn with
  | opening readyOk =>
    cases phase : s.phase with
    | opening => exact congrArg some (asIpc_opening s phase readyOk)
    | looping name id => rfl
    | finished => rfl
  | outbound ok =>
    cases phase : s.phase with
    | looping name id => exact asIpc_outbound s ⟨name, id, phase⟩ ok
    | opening => rfl
    | finished => rfl
  | inbound now pongOk =>
    cases phase : s.phase with
    | looping name id => exact congrArg some (asIpc_inbound s phase now pongOk)
    | opening => rfl
    | finished => rfl

theorem asIpc_among (s : Session WsNext) (e : SessionEvent) :
    among (handleIpcIo target (serde.greeting clientId) c) s.asIpc e =
      (among (handleConnection target serde c clientId) s e).map asIpc := by
  cases e with
  | own turn => exact asIpc_turn s turn
  | others server queues =>
    have same : s.asIpc.phase = s.phase := rfl
    have kept : s.asIpc.server = s.server := rfl
    simp only [among, same, kept]
    cases phase : s.phase with
    | looping name id =>
      dsimp only
      split
      · simp [asIpc, phase]
      · rfl
    | opening | finished => simp [asIpc, phase]

theorem asIpc_run (s : Session WsNext) (events : List SessionEvent) :
    run (among (handleIpcIo target (serde.greeting clientId) c)) s.asIpc events =
      (run (among (handleConnection target serde c clientId)) s events).map asIpc :=
  run_image asIpc_among s events

theorem ended_of_run {server : ServerState} {queues : Nat → Mpsc Json} {items : List WsNext}
    {events : List SessionEvent} {s : Session WsNext}
    (reached : run (among (handleConnection target serde c clientId)) (new server queues items)
      events = some s) (healthy : ∀ e ∈ events, e.writerOk) (finished : s.phase = .finished) :
    ∃ id effects, s.effects = opened id ++ effects ++ [.unregisterSocket id] ∧
      Answered serde clientId id (items.takeWhile fun item => !item.endsLoop) effects := by
  have ipc := (asIpc_run (new server queues items) events).trans (congrArg _ reached)
  have initial : (asIpc (new server queues items)).Follows (serde.greeting clientId) c clientId
      (items.map WsNext.frame) := ⟨rfl, rfl, rfl⟩
  have meets : Meets (among (handleIpcIo target (serde.greeting clientId) c))
      (fun _ e => e.writerOk = true) (asIpc (new server queues items)) events :=
    meets_of_forall fun _ => healthy
  have follows := run_invariant_of_meets (fun _ _ _ => follows_step) meets initial ipc
  have ended : s.asIpc.phase = .finished := finished
  simp only [Follows, ended] at follows
  obtain ⟨id, effects, whole, served⟩ := follows
  rw [untilEnd_frames] at served
  exact ⟨id, effects, whole, served.answered⟩

end Session

open Session in
/-- In every run among other tasks, with a writer that does not fail: a WebSocket connection writes
    READY first, has exactly the messages handled that come before the end, each once and in order,
    sends one pong for each ping before it, and ends with its entry and its activity cleared; and it
    can always be ended. -/
theorem ws_session {server : ServerState} {queues : Nat → Mpsc Json} {items : List WsNext}
    {events : List SessionEvent} {s : Session WsNext}
    (reached : run (among (handleConnection target serde c clientId)) (new server queues items)
      events = some s) (healthy : ∀ e ∈ events, e.writerOk) :
    (s.phase = .finished →
      ∃ id effects, s.effects = opened id ++ effects ++ [.unregisterSocket id] ∧
        Answered serde clientId id (items.takeWhile fun item => !item.endsLoop) effects ∧
        (s.effects.filterMap Effect.event).getLast? = some ⟨none, none, id⟩) ∧
      events.countP SessionEvent.isInbound ≤ items.length + 1 ∧
      (∃ more t, run (among (handleConnection target serde c clientId)) s more = some t ∧
        t.phase = .finished ∧ ∀ e ∈ more, e.isOwn ∧ e.writerOk) ∧
      ((∀ e ∈ events, e.isOwn) → events.length ≤ 2 * items.length + 4) := by
  have ipc := (asIpc_run (new server queues items) events).trans (congrArg _ reached)
  refine ⟨?_, ?_, ?_, ?_⟩
  · intro finished
    obtain ⟨id, effects, whole, answered⟩ := ended_of_run reached healthy finished
    refine ⟨id, effects, whole, answered, ?_⟩
    rw [whole, List.filterMap_append]
    exact List.getLast?_concat
  · have bound := run_measure (fun _ _ _ taken => step_remaining taken) ipc
    have whole : (asIpc (new server queues items)).remaining = items.length + 1 := by
      simp [remaining, asIpc, new]
    exact Nat.le_trans (Nat.le_add_left ..) (whole ▸ bound)
  · obtain ⟨more, t, ran, ended, own⟩ :=
      completes target (serde.greeting clientId) c s.asIpc
    rw [asIpc_run] at ran
    obtain ⟨u, arrived, rfl⟩ := Option.map_eq_some_iff.mp ran
    exact ⟨more, u, arrived, ended, own⟩
  · intro own
    have bound := run_budget own ipc
    have whole : (asIpc (new server queues items)).budget c = 2 * items.length + 4 := by
      simp [budget, asIpc, new]
      omega
    omega

def servedItems : List WsNext :=
  [.text [], .ping, .text callbackText, .close, .text callbackText]

def servedEvents : List SessionEvent :=
  [.own (.opening true), .own (.inbound (fun _ => 0) true), .own (.inbound (fun _ => 0) true),
    .own (.inbound (fun _ => 0) true), .own (.outbound true), .own (.inbound (fun _ => 0) true)]

open Session in
theorem ws_session_closed :
    ∃ s, run (among (handleConnection .ptr64 sessionSerde 0 "1"))
        (new .new (fun _ => .channel socketQueueCapacity) servedItems) servedEvents = some s ∧
      (∀ e ∈ servedEvents, e.writerOk) ∧ s.phase = .finished ∧
      ∃ id effects, s.effects = opened id ++ effects ++ [.unregisterSocket id] ∧
        effects.filterMap Effect.call = [(id, "1", callback)] ∧
        effects.countP Effect.isPong = 1 := by
  have reached : run (among (handleConnection .ptr64 sessionSerde 0 "1"))
      (new .new (fun _ => .channel socketQueueCapacity) servedItems) servedEvents = some _ := rfl
  have healthy : ∀ e ∈ servedEvents, e.writerOk := by decide
  obtain ⟨id, effects, whole, answered, _⟩ := (ws_session reached healthy).1 rfl
  exact ⟨_, reached, healthy, rfl, id, effects, whole, answered.calls, answered.pongs⟩

end Dirpc
