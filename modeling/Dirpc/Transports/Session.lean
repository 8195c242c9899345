import Dirpc.Base.Runs
import Dirpc.Transports.Connection
import Dirpc.Transports.Frame

namespace Dirpc

open Base

inductive Effect where
  | nextId (id : Nat)
  | write (out : Outgoing)
  | registerSocket (id : Nat)
  | handleMessage (id : Nat) (clientId : String) (msg : RpcMessage) (now : Nat → Int)
  | sendToSocket (id : Nat) (resp : Json)
  | unregisterSocket (id : Nat)

def Effect.event : Effect → Option ActivityEvent
  | .handleMessage id clientId msg now => (messageEffect now id clientId msg).1
  | .unregisterSocket id => some ⟨none, none, id⟩
  | _ => none

def Effect.call : Effect → Option (Nat × String × RpcMessage)
  | .handleMessage id clientId msg _ => some (id, clientId, msg)
  | _ => none

def Effect.out : Effect → Option Outgoing
  | .write out => some out
  | _ => none

def Effect.offer : Effect → Option Json
  | .sendToSocket _ resp => some resp
  | _ => none

inductive Phase where
  | opening
  | looping (clientId : String) (id : Nat)
  | finished

/-- The task of a connection: the state it shares, what its reader will yield, and what it has done
    so far. -/
structure Session (ι : Type) where
  server : ServerState
  queues : Nat → Mpsc Json
  input : List ι
  phase : Phase
  effects : List Effect

/-- The code up to the loop, or one `select!` of the loop with the handler it runs. -/
inductive Turn where
  | opening (readyOk : Bool)
  | outbound (ok : Bool)
  | inbound (now : Nat → Int) (pongOk : Bool)

namespace Session

variable {ι : Type}

def new (server : ServerState) (queues : Nat → Mpsc Json) (input : List ι) : Session ι :=
  ⟨server, queues, input, .opening, []⟩

def messages (s : Session ι) : List RpcMessage :=
  (s.effects.filterMap Effect.call).map fun call => call.2.2

def offered (s : Session ι) : List Json := s.effects.filterMap Effect.offer

def written (s : Session ι) : List Outgoing := s.effects.filterMap Effect.out

def finish (s : Session ι) : Session ι := { s with phase := .finished }

def write (out : Outgoing) (s : Session ι) : Session ι :=
  { s with effects := s.effects ++ [.write out] }

def nextId (target : Target) (s : Session ι) : Nat × Session ι :=
  let (id, server) := s.server.nextId target
  (id, { s with server := server, effects := s.effects ++ [.nextId id] })

def register (c : Nat) (clientId : String) (id : Nat) (s : Session ι) : Session ι :=
  { s with
    server := s.server.registerSocket id c
    queues := Function.update s.queues c (.channel socketQueueCapacity)
    phase := .looping clientId id
    effects := s.effects ++ [.registerSocket id] }

def leave (c id : Nat) (s : Session ι) : Session ι :=
  { s with
    server := s.server.unregisterSocket id
    queues := Function.update s.queues c (s.queues c).close
    phase := .finished
    effects := s.effects ++ [.unregisterSocket id] }

def answer (now : Nat → Int) (id : Nat) (clientId : String) (msg : RpcMessage) (s : Session ι) :
    Session ι :=
  let (server, resp) := s.server.handleMessage now id clientId msg
  let effects := s.effects ++ [.handleMessage id clientId msg now]
  match resp with
  | some resp => { s with
      server := server
      queues := server.sendToSocket s.queues id resp
      effects := effects ++ [.sendToSocket id resp] }
  | none => { s with server := server, effects := effects }

/-- The outbound branch. It is not ready while the queue is empty and the sender registered. -/
def outbound (c id : Nat) (ok : Bool) (s : Session ι) : Option (Session ι) :=
  match (s.queues c).recv with
  | some (json, rest) =>
    let s := { s with queues := Function.update s.queues c rest }
    some (if ok then s.write (.response json) else s.leave c id)
  | none => if s.server.sockets id = some c then none else some (s.leave c id)

def ipcOpening (target : Target) (serde : Serde) (c : Nat) (readyOk : Bool) (s : Session Frame) :
    Session Frame :=
  match s.input with
  | [] => s.finish
  | (opcode, body) :: rest =>
    let s := { s with input := rest }
    if IpcOpcode.fromI32 opcode ≠ some .handshake then s.finish
    else match serde.handshake body with
    | none => s.finish
    | some handshake =>
      if handshake.v ≠ 1 then s.finish
      else
        let (id, s) := s.nextId target
        if readyOk then (s.write .ready).register c handshake.clientId id else s.finish

/-- The inbound branch of `handle_ipc_io`. At the end of its input the reader fails. -/
def ipcInbound (serde : Serde) (c : Nat) (clientId : String) (id : Nat) (now : Nat → Int)
    (pongOk : Bool) (s : Session Frame) : Session Frame :=
  match s.input with
  | [] => s.leave c id
  | (op, body) :: rest =>
    let s := { s with input := rest }
    match IpcOpcode.fromI32 op with
    | some .ping => if pongOk then s.write .pong else s
    | some .frame => match serde.rpcMessage body with
      | some msg => s.answer now id clientId msg
      | none => s
    | some .close | none => s.leave c id
    | some .handshake | some .pong => s

def wsOpening (target : Target) (c : Nat) (clientId : String) (readyOk : Bool)
    (s : Session WsNext) : Session WsNext :=
  let (id, s) := s.nextId target
  if readyOk then (s.write .ready).register c clientId id else s.finish

/-- The inbound branch of `handle_connection`. At the end of its input the stream ends. -/
def wsInbound (serde : Serde) (c : Nat) (clientId : String) (id : Nat) (now : Nat → Int)
    (pongOk : Bool) (s : Session WsNext) : Session WsNext :=
  match s.input with
  | [] => s.leave c id
  | next :: rest =>
    let s := { s with input := rest }
    match next with
    | .text text => match serde.rpcMessage text with
      | some msg => s.answer now id clientId msg
      | none => s
    -- the loop ignores a ping, which the library has answered
    | .ping => if pongOk then s.write .pong else s
    | .close | .ended => s.leave c id
    | .other => s
    | .error => s.leave c id

def step (opening : Bool → Session ι → Session ι)
    (inbound : String → Nat → (Nat → Int) → Bool → Session ι → Session ι) (c : Nat)
    (s : Session ι) (turn : Turn) : Option (Session ι) :=
  match turn, s.phase with
  | .opening readyOk, .opening => some (opening readyOk s)
  | .outbound ok, .looping _ id => s.outbound c id ok
  | .inbound now pongOk, .looping clientId id => some (inbound clientId id now pongOk s)
  | _, _ => none

def receive (c : Nat) (clientId : String) (id : Nat) (now : Nat → Int) (pongOk : Bool)
    (s : Session ι) : Outcome → Session ι
  | .message msg => s.answer now id clientId msg
  | .pong => if pongOk then s.write .pong else s
  | .skip => s
  | .stop => s.leave c id

def handleIpcIo (target : Target) (serde : Serde) (c : Nat) : Session Frame → Turn →
    Option (Session Frame) :=
  step (ipcOpening target serde c) (ipcInbound serde c) c

def handleConnection (target : Target) (serde : Serde) (c : Nat) (clientId : String) :
    Session WsNext → Turn → Option (Session WsNext) :=
  step (wsOpening target c clientId) (wsInbound serde c) c

variable {c id : Nat} {clientId : String} {now : Nat → Int} {pongOk : Bool} {s t : Session ι}

theorem step_cases {opening : Bool → Session ι → Session ι}
    {inbound : String → Nat → (Nat → Int) → Bool → Session ι → Session ι} {turn : Turn}
    (taken : s.step opening inbound c turn = some t) :
    (∃ readyOk, turn = .opening readyOk ∧ s.phase = .opening ∧ t = opening readyOk s) ∨
      ∃ clientId id, s.phase = .looping clientId id ∧
        ((∃ ok, turn = .outbound ok ∧ s.outbound c id ok = some t) ∨
          ∃ now pongOk, turn = .inbound now pongOk ∧ t = inbound clientId id now pongOk s) := by
  unfold step at taken
  split at taken
  · rename_i readyOk phase
    cases taken
    exact .inl ⟨readyOk, rfl, phase, rfl⟩
  · rename_i ok clientId id phase
    exact .inr ⟨clientId, id, phase, .inl ⟨ok, rfl, taken⟩⟩
  · rename_i now pongOk clientId id phase
    cases taken
    exact .inr ⟨clientId, id, phase, .inr ⟨now, pongOk, rfl, rfl⟩⟩
  · cases taken

theorem outbound_cases {ok : Bool} (taken : s.outbound c id ok = some t) :
    (∃ json rest, (s.queues c).recv = some (json, rest) ∧
      t = if ok then ({ s with queues := Function.update s.queues c rest }).write (.response json)
        else ({ s with queues := Function.update s.queues c rest }).leave c id) ∨
      ((s.queues c).recv = none ∧ s.server.sockets id ≠ some c ∧ t = s.leave c id) := by
  unfold outbound at taken
  split at taken
  · rename_i json rest received
    cases taken
    exact .inl ⟨json, rest, received, rfl⟩
  · rename_i empty
    split at taken
    · cases taken
    · rename_i dropped
      cases taken
      exact .inr ⟨empty, dropped, rfl⟩

theorem answer_eq (now : Nat → Int) (id : Nat) (clientId : String) (msg : RpcMessage)
    (s : Session ι) : s.answer now id clientId msg =
      { s with
        server := (s.server.handleMessage now id clientId msg).1
        queues := (messageEffect now id clientId msg).2.elim s.queues
          (s.server.sendToSocket s.queues id)
        effects := s.effects ++ .handleMessage id clientId msg now ::
          (messageEffect now id clientId msg).2.toList.map (.sendToSocket id) } := by
  have sent (resp : Json) : (s.server.handleMessage now id clientId msg).1.sendToSocket s.queues id
      resp = s.server.sendToSocket s.queues id resp := by
    rw [ServerState.sendToSocket, ServerState.handleMessage_sockets, ServerState.sendToSocket]
  have response : (s.server.handleMessage now id clientId msg).2 =
      (messageEffect now id clientId msg).2 := rfl
  rw [answer]
  dsimp only
  rw [response]
  cases (messageEffect now id clientId msg).2 with
  | none => rfl
  | some resp => simp [sent]

theorem ipcInbound_eq {serde : Serde} {s : Session Frame} :
    s.ipcInbound serde c clientId id now pongOk = match s.input with
      | [] => s.leave c id
      | frame :: rest =>
        ({ s with input := rest }).receive c clientId id now pongOk (ipcOutcome serde (some frame)) := by
  unfold ipcInbound
  cases s.input with
  | nil => rfl
  | cons frame rest =>
    obtain ⟨op, body⟩ := frame
    simp only [ipcOutcome]
    cases IpcOpcode.fromI32 op with
    | none => rfl
    | some opcode =>
      cases opcode with
      | frame => cases serde.rpcMessage body <;> rfl
      | _ => rfl

theorem wsInbound_eq {serde : Serde} {s : Session WsNext} :
    s.wsInbound serde c clientId id now pongOk = match s.input with
      | [] => s.leave c id
      | next :: rest =>
        ({ s with input := rest }).receive c clientId id now pongOk (wsOutcome serde next) := by
  unfold wsInbound
  cases s.input with
  | nil => rfl
  | cons next rest =>
    cases next with
    | text text =>
      simp only [wsOutcome]
      cases serde.rpcMessage text <;> rfl
    | _ => rfl

theorem receive_cases (c : Nat) (clientId : String) (id : Nat) (now : Nat → Int) (pongOk : Bool)
    (s : Session ι) (outcome : Outcome) :
    (s.receive c clientId id now pongOk outcome).input = s.input ∧
      ((s.receive c clientId id now pongOk outcome).phase = s.phase ∨
        (s.receive c clientId id now pongOk outcome).phase = .finished) := by
  cases outcome with
  | message msg =>
    rw [receive, answer_eq]
    exact ⟨rfl, .inl rfl⟩
  | pong => cases pongOk <;> exact ⟨rfl, .inl rfl⟩
  | skip => exact ⟨rfl, .inl rfl⟩
  | stop => exact ⟨rfl, .inr rfl⟩

/-- The activity channel holds what it held at first and the events of the effects. -/
def Logged (base : List ActivityEvent) (s : Session ι) : Prop :=
  s.server.activityTx.log = base ++ s.effects.filterMap Effect.event

variable {base : List ActivityEvent}

theorem Logged.silent {effect : Effect} (logged : s.Logged base)
    (log : t.server.activityTx = s.server.activityTx) (done : t.effects = s.effects ++ [effect])
    (quiet : effect.event = none) : t.Logged base := by
  have none : [effect].filterMap Effect.event = [] := by simp [quiet]
  rw [Logged, log, done, List.filterMap_append, none, List.append_nil]
  exact logged

theorem Logged.write (logged : s.Logged base) (out : Outgoing) : (s.write out).Logged base :=
  logged.silent rfl rfl rfl

theorem Logged.nextId (logged : s.Logged base) (target : Target) :
    (s.nextId target).2.Logged base := logged.silent rfl rfl rfl

theorem Logged.register (logged : s.Logged base) (c : Nat) (clientId : String) (id : Nat) :
    (s.register c clientId id).Logged base := logged.silent rfl rfl rfl

theorem Logged.opening (logged : s.Logged base) (target : Target) (c : Nat) (clientId : String)
    (readyOk : Bool) :
    (if readyOk then ((s.nextId target).2.write .ready).register c clientId (s.nextId target).1
      else (s.nextId target).2.finish).Logged base := by
  have allocated := logged.nextId target
  cases readyOk with
  | false => exact allocated
  | true => exact (allocated.write .ready).register c clientId _

theorem Logged.leave (logged : s.Logged base) (c id : Nat) : (s.leave c id).Logged base := by
  rw [Logged, Session.leave, List.filterMap_append, ← List.append_assoc, ← logged]
  rfl

theorem Logged.answer (logged : s.Logged base) (now : Nat → Int) (id : Nat) (clientId : String)
    (msg : RpcMessage) : (s.answer now id clientId msg).Logged base := by
  have silent (resp : Option Json) :
      (resp.toList.map (Effect.sendToSocket id)).filterMap Effect.event = [] := by
    cases resp <;> rfl
  rw [answer_eq, Logged, List.filterMap_append, List.filterMap_cons, silent, ← List.append_assoc,
    ← logged, ServerState.handleMessage_activityTx, Effect.event]
  cases (messageEffect now id clientId msg).1 with
  | none => exact (List.append_nil _).symm
  | some event => rfl

theorem Logged.receive (logged : s.Logged base) (c : Nat) (clientId : String) (id : Nat)
    (now : Nat → Int) (pongOk : Bool) (outcome : Outcome) :
    (s.receive c clientId id now pongOk outcome).Logged base := by
  cases outcome with
  | message msg => exact logged.answer now id clientId msg
  | pong =>
    cases pongOk with
    | true => exact logged.write .pong
    | false => exact logged
  | skip => exact logged
  | stop => exact logged.leave c id

theorem Logged.outbound {ok : Bool} (logged : s.Logged base) (taken : s.outbound c id ok = some t) :
    t.Logged base := by
  rcases outbound_cases taken with ⟨json, rest, _, rfl⟩ | ⟨_, _, rfl⟩
  · cases ok with
    | true => exact Logged.write logged (.response json)
    | false => exact Logged.leave logged c id
  · exact logged.leave c id

end Session

end Dirpc
