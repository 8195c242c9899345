import Dirpc.Server.Message

namespace Dirpc

open Base

inductive WsNext where
  | text (bytes : List UInt8)
  | ping
  | close
  | other
  | error
  | ended

/-- The result of a connection's inbound branch: `read_frame` on IPC, where `none` is an error, or
    `reader.next()` on WebSocket. -/
inductive Inbound where
  | ipc (result : Option (Int × List UInt8))
  | webSocket (next : WsNext)

inductive Outcome where
  | message (msg : RpcMessage)
  | pong
  | skip
  | stop

def ipcOutcome (serde : Serde) : Option (Int × List UInt8) → Outcome
  | none => .stop
  | some (op, body) => match IpcOpcode.fromI32 op with
    | some .ping => .pong
    | some .frame => (serde.rpcMessage body).elim .skip .message
    | some .close | none => .stop
    | some .handshake | some .pong => .skip

def wsOutcome (serde : Serde) : WsNext → Outcome
  | .text bytes => (serde.rpcMessage bytes).elim .skip .message
  | .ping => .pong
  | .close | .ended => .stop
  | .other => .skip
  | .error => .stop

inductive Transport where
  | ipc
  | webSocket
  deriving DecidableEq

def Inbound.outcome (serde : Serde) : Transport → Inbound → Option Outcome
  | .ipc, .ipc result => some (ipcOutcome serde result)
  | .webSocket, .webSocket next => some (wsOutcome serde next)
  | _, _ => none

inductive Pc where
  | connected
  | allocated
  | ready
  | looping
  | handling (msg : RpcMessage)
  | replying (resp : Json)
  | leaving
  | closed

def Pc.isOpening : Pc → Bool
  | .connected | .allocated | .ready => true
  | _ => false

def Pc.isOpen : Pc → Bool
  | .looping | .handling _ | .replying _ => true
  | _ => false

def Pc.isRegistered : Pc → Bool
  | .looping | .handling _ | .replying _ | .leaving => true
  | _ => false

def Pc.unhandled : Pc → List RpcMessage
  | .handling msg => [msg]
  | _ => []

def Pc.unsent : Pc → List Json
  | .replying resp => [resp]
  | _ => []

inductive Outgoing where
  | ready
  | pong
  | response (json : Json)

def Outgoing.json? : Outgoing → Option Json
  | .response json => some json
  | _ => none

structure Offer where
  resp : Json
  queued : Nat

/-- A connection's task and, from `received` on, what has passed through it. -/
structure Conn where
  transport : Transport
  clientId : String
  pc : Pc
  socketId : Option Nat
  received : List RpcMessage
  handled : List (RpcMessage × (Nat → Int))
  offers : List Offer
  taken : List Json
  written : List Outgoing

inductive Act where
  | nextId
  | sendReady (ok : Bool)
  | registerSocket
  | receive (item : Inbound) (pongOk : Bool)
  | handleMessage (now : Nat → Int)
  | sendToSocket
  | flush (ok : Bool)
  | unregisterSocket

namespace Conn

def new (transport : Transport) (clientId : String) : Conn :=
  ⟨transport, clientId, .connected, none, [], [], [], [], []⟩

def receive (k : Conn) (pongOk : Bool) : Outcome → Conn
  | .message msg => { k with pc := .handling msg, received := k.received ++ [msg] }
  | .pong => { k with written := k.written ++ if pongOk then [.pong] else [] }
  | .skip => k
  | .stop => { k with pc := .leaving }

def write (k : Conn) (json : Json) (ok : Bool) : Conn :=
  if ok then { k with taken := k.taken ++ [json], written := k.written ++ [.response json] }
  else { k with taken := k.taken ++ [json], pc := .leaving }

/-- One step of connection `c`. Its queue ends for the outbound branch when it is empty and the
    registered sender, the only one there is, has been dropped. -/
def step (target : Target) (serde : Serde) (server : ServerState) (queues : Nat → Mpsc Json)
    (c : Nat) (k : Conn) : Act → Option (ServerState × (Nat → Mpsc Json) × Conn)
  | .nextId => match k.pc with
    | .connected =>
      let (id, server) := server.nextId target
      some (server, queues, { k with pc := .allocated, socketId := some id })
    | _ => none
  | .sendReady ok => match k.pc with
    | .allocated =>
      some (server, queues, if ok then { k with pc := .ready, written := k.written ++ [.ready] }
        else { k with pc := .closed })
    | _ => none
  | .registerSocket => match k.pc, k.socketId with
    | .ready, some id =>
      some (server.registerSocket id c, Function.update queues c (.channel socketQueueCapacity),
        { k with pc := .looping })
    | _, _ => none
  | .receive item pongOk => match k.pc with
    | .looping => (item.outcome serde k.transport).map fun outcome =>
      (server, queues, k.receive pongOk outcome)
    | _ => none
  | .handleMessage now => match k.pc, k.socketId with
    | .handling msg, some id =>
      let (server, resp) := server.handleMessage now id k.clientId msg
      some (server, queues,
        { k with pc := resp.elim .looping .replying, handled := k.handled ++ [(msg, now)] })
    | _, _ => none
  | .sendToSocket => match k.pc, k.socketId with
    | .replying resp, some id =>
      some (server, server.sendToSocket queues id resp,
        { k with pc := .looping, offers := k.offers ++ [⟨resp, (queues c).queue.length⟩] })
    | _, _ => none
  | .flush ok => match k.pc, k.socketId with
    | .looping, some id => match (queues c).recv with
      | some (json, rest) => some (server, Function.update queues c rest, k.write json ok)
      | none =>
        if server.sockets id = some c then none
        else some (server, queues, { k with pc := .leaving })
    | _, _ => none
  | .unregisterSocket => match k.pc, k.socketId with
    | .leaving, some id =>
      some (server.unregisterSocket id, Function.update queues c (queues c).close,
        { k with pc := .closed })
    | _, _ => none

def responses (k : Conn) (id : Nat) : List Json :=
  k.handled.filterMap fun (msg, now) => (messageEffect now id k.clientId msg).2

def accepted (k : Conn) : List Json :=
  (k.offers.filter fun offer => offer.queued < socketQueueCapacity).map Offer.resp

def writtenResponses (k : Conn) : List Json := k.written.filterMap Outgoing.json?

variable {target : Target} {serde : Serde} {server server' : ServerState}
variable {queues queues' : Nat → Mpsc Json} {c : Nat} {k k' : Conn}

theorem nextId_cases (taken : k.step target serde server queues c .nextId =
    some (server', queues', k')) :
    k.pc = .connected ∧ server' = (server.nextId target).2 ∧ queues' = queues ∧
      k' = { k with pc := .allocated, socketId := some server.nextSocketId } := by
  simp only [step] at taken
  split at taken
  · rename_i phase
    cases taken
    exact ⟨phase, rfl, rfl, rfl⟩
  · cases taken

theorem sendReady_cases {ok : Bool} (taken : k.step target serde server queues c (.sendReady ok) =
    some (server', queues', k')) :
    k.pc = .allocated ∧ server' = server ∧ queues' = queues ∧
      k' = if ok then { k with pc := .ready, written := k.written ++ [.ready] }
        else { k with pc := .closed } := by
  simp only [step] at taken
  split at taken
  · rename_i phase
    cases taken
    exact ⟨phase, rfl, rfl, rfl⟩
  · cases taken

theorem registerSocket_cases (taken : k.step target serde server queues c .registerSocket =
    some (server', queues', k')) :
    ∃ id, k.pc = .ready ∧ k.socketId = some id ∧ server' = server.registerSocket id c ∧
      queues' = Function.update queues c (.channel socketQueueCapacity) ∧
      k' = { k with pc := .looping } := by
  simp only [step] at taken
  split at taken
  · rename_i id phase allocated
    cases taken
    exact ⟨id, phase, allocated, rfl, rfl, rfl⟩
  · cases taken

theorem receive_cases {item : Inbound} {pongOk : Bool}
    (taken : k.step target serde server queues c (.receive item pongOk) =
      some (server', queues', k')) :
    ∃ outcome, k.pc = .looping ∧ item.outcome serde k.transport = some outcome ∧
      server' = server ∧ queues' = queues ∧ k' = k.receive pongOk outcome := by
  simp only [step] at taken
  split at taken
  · rename_i phase
    obtain ⟨outcome, found, same⟩ := Option.map_eq_some_iff.mp taken
    cases same
    exact ⟨outcome, phase, found, rfl, rfl, rfl⟩
  · cases taken

theorem handleMessage_cases {now : Nat → Int}
    (taken : k.step target serde server queues c (.handleMessage now) =
      some (server', queues', k')) :
    ∃ msg id, k.pc = .handling msg ∧ k.socketId = some id ∧
      server' = (server.handleMessage now id k.clientId msg).1 ∧ queues' = queues ∧
      k' = { k with
        pc := (messageEffect now id k.clientId msg).2.elim .looping .replying
        handled := k.handled ++ [(msg, now)] } := by
  simp only [step] at taken
  split at taken
  · rename_i msg id phase allocated
    cases taken
    exact ⟨msg, id, phase, allocated, rfl, rfl, rfl⟩
  · cases taken

theorem sendToSocket_cases (taken : k.step target serde server queues c .sendToSocket =
    some (server', queues', k')) :
    ∃ resp id, k.pc = .replying resp ∧ k.socketId = some id ∧ server' = server ∧
      queues' = server.sendToSocket queues id resp ∧
      k' = { k with
        pc := .looping, offers := k.offers ++ [⟨resp, (queues c).queue.length⟩] } := by
  simp only [step] at taken
  split at taken
  · rename_i resp id phase allocated
    cases taken
    exact ⟨resp, id, phase, allocated, rfl, rfl, rfl⟩
  · cases taken

theorem flush_cases {ok : Bool} (taken : k.step target serde server queues c (.flush ok) =
    some (server', queues', k')) :
    ∃ id, k.pc = .looping ∧ k.socketId = some id ∧ server' = server ∧
      ((∃ json rest, (queues c).recv = some (json, rest) ∧
          queues' = Function.update queues c rest ∧ k' = k.write json ok) ∨
        ((queues c).recv = none ∧ server.sockets id ≠ some c ∧ queues' = queues ∧
          k' = { k with pc := .leaving })) := by
  simp only [step] at taken
  split at taken
  · rename_i id phase allocated
    refine ⟨id, phase, allocated, ?_⟩
    split at taken
    · rename_i json rest received
      cases taken
      exact ⟨rfl, .inl ⟨json, rest, received, rfl, rfl⟩⟩
    · rename_i received
      split at taken
      · cases taken
      · rename_i dropped
        cases taken
        exact ⟨rfl, .inr ⟨received, dropped, rfl, rfl⟩⟩
  · cases taken

theorem unregisterSocket_cases (taken : k.step target serde server queues c .unregisterSocket =
    some (server', queues', k')) :
    ∃ id, k.pc = .leaving ∧ k.socketId = some id ∧ server' = server.unregisterSocket id ∧
      queues' = Function.update queues c (queues c).close ∧ k' = { k with pc := .closed } := by
  simp only [step] at taken
  split at taken
  · rename_i id phase allocated
    cases taken
    exact ⟨id, phase, allocated, rfl, rfl, rfl⟩
  · cases taken

end Conn

end Dirpc
