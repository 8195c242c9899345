import Dirpc.Transports.Protocol

namespace Dirpc

open Base

def ActivityEvent.unnamed (event : ActivityEvent) : ActivityEvent := { event with socketId := 0 }

def Effect.unnamed : Effect → Effect
  | .nextId _ => .nextId 0
  | .write out => .write out
  | .registerSocket _ => .registerSocket 0
  | .handleMessage _ clientId msg now => .handleMessage 0 clientId msg now
  | .sendToSocket _ resp => .sendToSocket 0 resp
  | .unregisterSocket _ => .unregisterSocket 0

def ipcInput (payloads : List (List UInt8)) (closing : List UInt8) : List Frame :=
  payloads.map (fun payload => (IpcOpcode.frame.toI32, payload)) ++
    [(IpcOpcode.close.toI32, closing)]

def wsInput (payloads : List (List UInt8)) : List WsNext := payloads.map .text ++ [.close]

theorem setActivity_unnamed (now : Nat → Int) (id : Nat) (clientId : String) (msg : RpcMessage) :
    setActivity now 0 clientId msg =
      ((setActivity now id clientId msg).1.unnamed, (setActivity now id clientId msg).2) := by
  unfold setActivity
  dsimp only
  split <;> rfl

theorem messageEffect_unnamed (now : Nat → Int) (id : Nat) (clientId : String) (msg : RpcMessage) :
    messageEffect now 0 clientId msg =
      ((messageEffect now id clientId msg).1.map ActivityEvent.unnamed,
        (messageEffect now id clientId msg).2) := by
  unfold messageEffect
  split
  · rw [setActivity_unnamed now id]
    rfl
  · split <;> rfl

theorem response_alike (now : Nat → Int) (id id' : Nat) (clientId : String) (msg : RpcMessage) :
    (messageEffect now id clientId msg).2 = (messageEffect now id' clientId msg).2 := by
  have left := congrArg Prod.snd (messageEffect_unnamed now id clientId msg)
  have right := congrArg Prod.snd (messageEffect_unnamed now id' clientId msg)
  exact left.symm.trans right

theorem Effect.event_unnamed (effect : Effect) :
    effect.unnamed.event = effect.event.map ActivityEvent.unnamed := by
  cases effect with
  | handleMessage id clientId msg now =>
    exact congrArg Prod.fst (messageEffect_unnamed now id clientId msg)
  | _ => rfl

theorem filterMap_unnamed {β : Type} {f : Effect → Option β} (blind : ∀ e, f e.unnamed = f e)
    (effects : List Effect) : (effects.map Effect.unnamed).filterMap f = effects.filterMap f := by
  rw [List.filterMap_map]
  exact List.filterMap_congr fun effect _ => blind effect

theorem events_unnamed (effects : List Effect) :
    (effects.map Effect.unnamed).filterMap Effect.event =
      (effects.filterMap Effect.event).map ActivityEvent.unnamed := by
  rw [List.filterMap_map, List.map_filterMap]
  exact List.filterMap_congr fun effect _ => effect.event_unnamed

namespace Session

variable {ι κ : Type} {target : Target} {serde : Serde} {clientId : String} {c c' id : Nat}
variable {server server' : ServerState}

structure Registered (c : Nat) (clientId : String) (start : ServerState) (s : Session ι) : Prop where
  phase : s.phase = .looping clientId start.nextSocketId
  sockets : s.server.sockets = Function.update start.sockets start.nextSocketId (some c)

structure Left (start : ServerState) (s : Session ι) : Prop where
  phase : s.phase = .finished
  sockets : s.server.sockets = Function.update start.sockets start.nextSocketId none

theorem Registered.leave {s : Session ι} (registered : s.Registered c clientId server) :
    (s.leave c server.nextSocketId).Left server := by
  refine ⟨rfl, ?_⟩
  rw [Session.leave, ServerState.unregisterSocket_sockets, registered.sockets,
    Function.update_idem]

theorem Registered.write {s : Session ι} (registered : s.Registered c clientId server)
    (out : Outgoing) : (s.write out).Registered c clientId server :=
  ⟨registered.phase, registered.sockets⟩

theorem Registered.answer {s : Session ι} (registered : s.Registered c clientId server)
    (now : Nat → Int) (msg : RpcMessage) :
    (s.answer now server.nextSocketId clientId msg).Registered c clientId server := by
  rw [answer_eq]
  exact ⟨registered.phase, (ServerState.handleMessage_sockets ..).trans registered.sockets⟩

theorem Registered.own {s : Session ι} (registered : s.Registered c clientId server) :
    s.server.sockets server.nextSocketId = some c := by
  rw [registered.sockets, Function.update_self]

/-- The two sessions have done the same but for the ids, and stand at the same place. -/
structure Linked (c c' : Nat) (clientId : String) (server server' : ServerState)
    (s : Session Frame) (t : Session WsNext) : Prop where
  effects : s.effects.map Effect.unnamed = t.effects.map Effect.unnamed
  place : (s.Registered c clientId server ∧ t.Registered c' clientId server' ∧
      s.queues c = t.queues c' ∧ ∃ payloads closing,
        s.input = ipcInput payloads closing ∧ t.input = wsInput payloads) ∨
    (s.Left server ∧ t.Left server')

variable {s : Session Frame} {t : Session WsNext}

structure Abreast (c c' : Nat) (clientId : String) (server server' : ServerState)
    (payloads : List (List UInt8)) (closing : List UInt8) (s : Session Frame)
    (t : Session WsNext) : Prop where
  effects : s.effects.map Effect.unnamed = t.effects.map Effect.unnamed
  left : s.Registered c clientId server
  right : t.Registered c' clientId server'
  queue : s.queues c = t.queues c'
  frames : s.input = ipcInput payloads closing
  texts : t.input = wsInput payloads

variable {payloads : List (List UInt8)} {closing : List UInt8}

theorem Abreast.linked (abreast : Abreast c c' clientId server server' payloads closing s t) :
    Linked c c' clientId server server' s t :=
  ⟨abreast.effects, .inl ⟨abreast.left, abreast.right, abreast.queue, payloads, closing,
    abreast.frames, abreast.texts⟩⟩

theorem linked_leave (effects : s.effects.map Effect.unnamed = t.effects.map Effect.unnamed)
    (left : s.Registered c clientId server) (right : t.Registered c' clientId server') :
    Linked c c' clientId server server' (s.leave c server.nextSocketId)
      (t.leave c' server'.nextSocketId) := by
  refine ⟨?_, .inr ⟨left.leave, right.leave⟩⟩
  rw [leave, leave, List.map_append, List.map_append, effects]
  rfl

theorem Abreast.write (abreast : Abreast c c' clientId server server' payloads closing s t)
    (out : Outgoing) :
    Abreast c c' clientId server server' payloads closing (s.write out) (t.write out) := by
  refine ⟨?_, abreast.left.write out, abreast.right.write out, abreast.queue, abreast.frames,
    abreast.texts⟩
  rw [Session.write, Session.write, List.map_append, List.map_append, abreast.effects]

theorem Abreast.answer (abreast : Abreast c c' clientId server server' payloads closing s t)
    (now : Nat → Int) (msg : RpcMessage) :
    Abreast c c' clientId server server' payloads closing
      (s.answer now server.nextSocketId clientId msg)
      (t.answer now server'.nextSocketId clientId msg) := by
  have response := response_alike now server.nextSocketId server'.nextSocketId clientId msg
  have place := And.intro (abreast.left.answer now msg) (abreast.right.answer now msg)
  rw [answer_eq, answer_eq, ← response] at place ⊢
  refine ⟨?_, place.1, place.2, ?_, abreast.frames, abreast.texts⟩
  · simp only [List.map_append, List.map_cons, List.map_map, abreast.effects, Effect.unnamed]
    rfl
  · cases (messageEffect now server.nextSocketId clientId msg).2 with
    | none => exact abreast.queue
    | some resp =>
      simp only [Option.elim_some, ServerState.sendToSocket_registered abreast.left.own,
        ServerState.sendToSocket_registered abreast.right.own, Function.update_self, abreast.queue]

theorem Abreast.inbound (abreast : Abreast c c' clientId server server' payloads closing s t)
    (now : Nat → Int) (pongOk : Bool) :
    Linked c c' clientId server server'
      (s.ipcInbound serde c clientId server.nextSocketId now pongOk)
      (t.wsInbound serde c' clientId server'.nextSocketId now pongOk) := by
  obtain ⟨effects, left, right, queue, frames, texts⟩ := abreast
  rw [ipcInbound_eq, wsInbound_eq, frames, texts]
  cases payloads with
  | nil =>
    have stops : ipcOutcome serde (some (IpcOpcode.close.toI32, closing)) = .stop := by
      rw [ipcOutcome, IpcOpcode.fromI32_toI32]
    simp only [ipcInput, wsInput, List.map_nil, List.nil_append, stops, wsOutcome, receive]
    exact linked_leave effects ⟨left.phase, left.sockets⟩ ⟨right.phase, right.sockets⟩
  | cons payload payloads =>
    have parses : ipcOutcome serde (some (IpcOpcode.frame.toI32, payload)) =
        wsOutcome serde (.text payload) := by
      rw [ipcOutcome, IpcOpcode.fromI32_toI32, wsOutcome]
    have moved : Abreast c c' clientId server server' payloads closing
        { s with input := ipcInput payloads closing } { t with input := wsInput payloads } :=
      ⟨effects, ⟨left.phase, left.sockets⟩, ⟨right.phase, right.sockets⟩, queue, rfl, rfl⟩
    simp only [ipcInput, wsInput, List.map_cons, List.cons_append, parses]
    rw [wsOutcome]
    cases serde.rpcMessage payload with
    | none => exact moved.linked
    | some msg => exact (moved.answer now msg).linked

theorem Abreast.outbound (abreast : Abreast c c' clientId server server' payloads closing s t)
    (ok : Bool) :
    Option.Rel (Linked c c' clientId server server') (s.outbound c server.nextSocketId ok)
      (t.outbound c' server'.nextSocketId ok) := by
  unfold Session.outbound
  rw [abreast.queue]
  cases (t.queues c').recv with
  | none =>
    simp only [abreast.left.own, abreast.right.own, if_true]
    exact .none
  | some received =>
    obtain ⟨json, rest⟩ := received
    have moved : Abreast c c' clientId server server' payloads closing
        { s with queues := Function.update s.queues c rest }
        { t with queues := Function.update t.queues c' rest } := by
      refine ⟨abreast.effects, ⟨abreast.left.phase, abreast.left.sockets⟩,
        ⟨abreast.right.phase, abreast.right.sockets⟩, ?_, abreast.frames, abreast.texts⟩
      simp only [Function.update_self]
    refine .some ?_
    cases ok with
    | true => exact (moved.write (.response json)).linked
    | false => exact linked_leave moved.effects moved.left moved.right

theorem linked_step (target : Target) (serde : Serde) (s : Session Frame) (t : Session WsNext)
    (turn : Turn) (linked : Linked c c' clientId server server' s t) :
    Option.Rel (Linked c c' clientId server server') (s.handleIpcIo target serde c turn)
      (t.handleConnection target serde c' clientId turn) := by
  obtain ⟨effects, place⟩ := linked
  rcases place with ⟨left, right, queue, payloads, closing, frames, texts⟩ | ⟨left, right⟩
  · have abreast : Abreast c c' clientId server server' payloads closing s t :=
      ⟨effects, left, right, queue, frames, texts⟩
    unfold handleIpcIo handleConnection step
    rw [left.phase, right.phase]
    cases turn with
    | opening readyOk => exact .none
    | outbound ok => exact abreast.outbound ok
    | inbound now pongOk => exact .some (abreast.inbound now pongOk)
  · unfold handleIpcIo handleConnection step
    rw [left.phase, right.phase]
    cases turn <;> exact .none

/-- What the two sessions have in common: `server` and `server'` are the shared states they started
    from. -/
structure Agree (server server' : ServerState) (s : Session Frame) (t : Session WsNext) : Prop where
  ended : s.phase = .finished ↔ t.phase = .finished
  events : ∃ events events', s.server.activityTx.log = server.activityTx.log ++ events ∧
    t.server.activityTx.log = server'.activityTx.log ++ events' ∧
    events.map ActivityEvent.unnamed = events'.map ActivityEvent.unnamed
  messages : s.messages = t.messages
  offered : s.offered = t.offered
  written : s.written = t.written
  sockets : s.phase = .finished →
    s.server.sockets = Function.update server.sockets server.nextSocketId none ∧
      t.server.sockets = Function.update server'.sockets server'.nextSocketId none

theorem messages_unnamed (effects : List Effect) :
    ((effects.map Effect.unnamed).filterMap Effect.call).map (fun call => call.2.2) =
      (effects.filterMap Effect.call).map fun call => call.2.2 := by
  rw [List.map_filterMap, List.map_filterMap]
  exact filterMap_unnamed (fun effect => by cases effect <;> rfl) effects

theorem Linked.agree (linked : Linked c c' clientId server server' s t)
    (logged : s.Logged server.activityTx.log) (logged' : t.Logged server'.activityTx.log) :
    Agree server server' s t := by
  obtain ⟨effects, place⟩ := linked
  have alike {β : Type} {f : Effect → Option β} (blind : ∀ e, f e.unnamed = f e) :
      s.effects.filterMap f = t.effects.filterMap f := by
    rw [← filterMap_unnamed blind, effects, filterMap_unnamed blind]
  refine ⟨?_, ⟨_, _, logged, logged', ?_⟩, ?_, ?_, ?_, ?_⟩
  · rcases place with ⟨left, right, _⟩ | ⟨left, right⟩
    · simp [left.phase, right.phase]
    · simp [left.phase, right.phase]
  · rw [← events_unnamed, effects, events_unnamed]
  · rw [messages, messages, ← messages_unnamed, effects, messages_unnamed]
  · exact alike fun effect => by cases effect <;> rfl
  · exact alike fun effect => by cases effect <;> rfl
  · intro finished
    rcases place with ⟨left, _⟩ | ⟨left, right⟩
    · rw [left.phase] at finished
      cases finished
    · exact ⟨left.sockets, right.sockets⟩

theorem logged_message {base : List ActivityEvent} {turn : Turn} {t t' : Session WsNext}
    (logged : t.Logged base) (taken : t.handleConnection target serde c clientId turn = some t') :
    t'.Logged base := by
  rcases step_cases taken with ⟨readyOk, _, _, rfl⟩ | ⟨name, id, _, loop⟩
  · exact logged.opening target c clientId readyOk
  · rcases loop with ⟨ok, _, sent⟩ | ⟨now, pongOk, _, rfl⟩
    · exact logged.outbound sent
    · rw [wsInbound_eq]
      cases t.input with
      | nil => exact logged.leave c id
      | cons next rest =>
        have moved : Logged base { t with input := rest } := logged
        exact moved.receive c name id now pongOk _

theorem untilEnd_ipcInput (payloads : List (List UInt8)) (closing : List UInt8) :
    (untilEnd (ipcInput payloads closing)).filterMap (frameMessage serde) =
      payloads.filterMap serde.rpcMessage := by
  have goesOn : ∀ frame ∈ payloads.map (fun payload => (IpcOpcode.frame.toI32, payload)),
      endsLoop frame = false := by
    intro frame member
    obtain ⟨payload, _, rfl⟩ := List.mem_map.mp member
    rfl
  have closes : untilEnd [(IpcOpcode.close.toI32, closing)] = [] := rfl
  rw [ipcInput, untilEnd_append goesOn, closes, List.append_nil, List.filterMap_map]
  rfl

def ipcStart (server : ServerState) (queues : Nat → Mpsc Json) (handshake : List UInt8)
    (payloads : List (List UInt8)) (closing : List UInt8) : Session Frame :=
  new server queues ((IpcOpcode.handshake.toI32, handshake) :: ipcInput payloads closing)

def wsStart (server : ServerState) (queues : Nat → Mpsc Json) (payloads : List (List UInt8)) :
    Session WsNext :=
  new server queues (wsInput payloads)

theorem handshakeClient_ipcStart {handshake : List UInt8}
    (valid : serde.handshake handshake = some ⟨1, clientId⟩) (server : ServerState)
    (queues : Nat → Mpsc Json) (payloads : List (List UInt8)) (closing : List UInt8) :
    handshakeClient serde (ipcStart server queues handshake payloads closing).input =
      some clientId := by
  simp [ipcStart, new, handshakeClient, IpcOpcode.fromI32_toI32, valid]

/-- A session whose writer never fails handles all payloads that are messages. -/
theorem messages_complete {handshake closing : List UInt8} {payloads : List (List UInt8)}
    {queues : Nat → Mpsc Json} {turns : List Turn}
    (valid : serde.handshake handshake = some ⟨1, clientId⟩)
    (reached : run (handleIpcIo target serde c)
      (ipcStart server queues handshake payloads closing) turns = some s)
    (healthy : ∀ turn ∈ turns, (SessionEvent.own turn).writerOk) (finished : s.phase = .finished) :
    s.messages = payloads.filterMap serde.rpcMessage := by
  have initial : (ipcStart server queues handshake payloads closing).Follows serde c clientId
      (ipcInput payloads closing) :=
    ⟨handshakeClient_ipcStart valid server queues payloads closing, rfl, rfl⟩
  have meets : Meets (handleIpcIo target serde c)
      (fun _ turn => (SessionEvent.own turn).writerOk = true)
      (ipcStart server queues handshake payloads closing) turns :=
    meets_of_forall fun _ => healthy
  have follows := run_invariant_of_meets
    (fun _ turn _ kept ok taken => follows_step (e := .own turn) kept ok taken) meets initial reached
  simp only [Follows, finished] at follows
  obtain ⟨id, effects, whole, served⟩ := follows
  have calls := served.calls
  rw [untilEnd_ipcInput] at calls
  have before : (opened id).filterMap Effect.call = [] := rfl
  have after : [Effect.unregisterSocket id].filterMap Effect.call = [] := rfl
  rw [messages, whole, List.filterMap_append, List.filterMap_append, before, after, calls,
    List.nil_append, List.append_nil, List.map_map]
  exact List.map_id _

theorem linked_opening {handshake : List UInt8}
    (valid : serde.handshake handshake = some ⟨1, clientId⟩) (target : Target) (c c' : Nat)
    (server server' : ServerState) (queues queues' : Nat → Mpsc Json)
    (payloads : List (List UInt8)) (closing : List UInt8) :
    Linked c c' clientId server server'
      ((ipcStart server queues handshake payloads closing).ipcOpening target serde c true)
      ((wsStart server' queues' payloads).wsOpening target c' clientId true) := by
  rw [ipcOpening_eq, handshakeClient_ipcStart valid]
  refine ⟨rfl, .inl ⟨⟨rfl, rfl⟩, ⟨rfl, rfl⟩, ?_, payloads, closing, rfl, rfl⟩⟩
  simp only [if_true, wsOpening, register, write, nextId, Function.update_self]

theorem transports_agree {handshake : List UInt8}
    (valid : serde.handshake handshake = some ⟨1, clientId⟩) (target : Target) (c c' : Nat)
    (server server' : ServerState) (queues queues' : Nat → Mpsc Json)
    (payloads : List (List UInt8)) (closing : List UInt8) (turns : List Turn) :
    Option.Rel (Agree server server')
        (run (handleIpcIo target serde c) (ipcStart server queues handshake payloads closing)
          (.opening true :: turns))
        (run (handleConnection target serde c' clientId) (wsStart server' queues' payloads)
          (.opening true :: turns)) ∧
      ∀ s, run (handleIpcIo target serde c) (ipcStart server queues handshake payloads closing)
          (.opening true :: turns) = some s →
        (∀ turn ∈ turns, (SessionEvent.own turn).writerOk) → s.phase = .finished →
        s.messages = payloads.filterMap serde.rpcMessage := by
  refine ⟨?_, ?_⟩
  · have linked := run_lockstep (linked_step target serde)
      (linked_opening valid target c c' server server' queues queues' payloads closing) turns
    have ipc : run (handleIpcIo target serde c) (ipcStart server queues handshake payloads closing)
        (.opening true :: turns) = run (handleIpcIo target serde c)
          ((ipcStart server queues handshake payloads closing).ipcOpening target serde c true)
          turns := rfl
    have ws : run (handleConnection target serde c' clientId) (wsStart server' queues' payloads)
        (.opening true :: turns) = run (handleConnection target serde c' clientId)
          ((wsStart server' queues' payloads).wsOpening target c' clientId true) turns := rfl
    have logged : (ipcStart server queues handshake payloads closing).Logged
        server.activityTx.log := (List.append_nil _).symm
    have logged' : (wsStart server' queues' payloads).Logged server'.activityTx.log :=
      (List.append_nil _).symm
    rw [← ipc, ← ws] at linked
    generalize reached : run (handleIpcIo target serde c)
      (ipcStart server queues handshake payloads closing) (.opening true :: turns) = left at linked ⊢
    generalize matched : run (handleConnection target serde c' clientId)
      (wsStart server' queues' payloads) (.opening true :: turns) = right at linked ⊢
    cases linked with
    | none => exact .none
    | some related =>
      exact .some (related.agree (run_invariant (fun _ _ _ => logged_turn) logged reached)
        (run_invariant (fun _ _ _ => logged_message) logged' matched))
  · intro s reached healthy finished
    refine messages_complete valid reached ?_ finished
    intro turn member
    rcases List.mem_cons.mp member with rfl | later
    · rfl
    · exact healthy turn later

def sessionTurns : List Turn :=
  [.inbound (fun _ => 0) true, .inbound (fun _ => 0) true, .outbound true,
    .inbound (fun _ => 0) true, .inbound (fun _ => 0) true]

theorem transports_agree_callbacks :
    Option.Rel (Agree .new .new)
        (run (handleIpcIo .ptr64 sessionSerde 0) (ipcStart .new (fun _ => .channel socketQueueCapacity)
          handshakeText [callbackText, [], callbackText] []) (.opening true :: sessionTurns))
        (run (handleConnection .ptr64 sessionSerde 0 "1") (wsStart .new
          (fun _ => .channel socketQueueCapacity) [callbackText, [], callbackText])
          (.opening true :: sessionTurns)) ∧
      ∃ s, run (handleIpcIo .ptr64 sessionSerde 0) (ipcStart .new
          (fun _ => .channel socketQueueCapacity) handshakeText [callbackText, [], callbackText] [])
          (.opening true :: sessionTurns) = some s ∧
        s.phase = .finished ∧ s.messages = [callback, callback] := by
  have valid : sessionSerde.handshake handshakeText = some ⟨1, "1"⟩ := rfl
  have agree := transports_agree valid .ptr64 0 0 .new .new (fun _ => .channel socketQueueCapacity)
    (fun _ => .channel socketQueueCapacity) [callbackText, [], callbackText] [] sessionTurns
  exact ⟨agree.1, _, rfl, rfl, agree.2 _ rfl (by decide) rfl⟩

end Session

end Dirpc
