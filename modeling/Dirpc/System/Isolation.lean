import Dirpc.System.Deliveries

namespace Dirpc

open Base

/-- Connections do not interfere: their ids differ from each other's and from the scanner's, what
    a connection takes from its queue are responses to its own messages, in their order and each
    at most once, and only its own steps change its registration. -/
structure World.Isolated (target : Target) (serde : Serde) (w : World) : Prop where
  distinct : ∀ c d k l id, w.conns c = some k → w.conns d = some l → k.socketId = some id →
    l.socketId = some id → c = d
  nonzero : ∀ c k id, w.conns c = some k → k.socketId = some id → id ≠ 0
  replies : ∀ c k, w.conns c = some k → (k.socketId = none ∧ k.taken = []) ∨
    ∃ id, k.socketId = some id ∧ k.taken.Sublist (k.responses id) ∧
      k.handled.map Prod.fst <+: k.received
  registration : ∀ c k id e t, w.conns c = some k → k.socketId = some id →
    (∀ act, e ≠ .conn c act) → w.step target serde e = some t →
    t.server.sockets id = w.server.sockets id

theorem Conn.Flow.taken_sublist {k : Conn} {q : Mpsc Json} (flow : k.Flow q) {id : Nat}
    (allocated : k.socketId = some id) : k.taken.Sublist (k.responses id) := by
  have queued : k.accepted.Sublist (k.offers.map Offer.resp) := List.filter_sublist.map Offer.resp
  have offered : (k.offers.map Offer.resp).Sublist (k.responses id) := by
    rw [← flow.offered id allocated]
    exact List.sublist_append_left ..
  exact (flow.delivered.sublist.trans queued).trans offered

namespace World

variable {target : Target} {serde : Serde} {w t : World}

theorem Inv.registration (inv : Inv target w) {c id : Nat} {k : Conn} {e : WorldEvent}
    (found : w.conns c = some k) (allocated : k.socketId = some id)
    (foreign : ∀ act, e ≠ .conn c act) (taken : w.step target serde e = some t) :
    t.server.sockets id = w.server.sockets id := by
  cases e with
  | accept =>
    obtain ⟨_, rfl⟩ := accept_cases taken
    rfl
  | scan clientId now msg =>
    cases taken
    rw [ServerState.handleMessage_sockets]
  | feedRecv =>
    obtain ⟨_, _, rfl⟩ := Option.map_eq_some_iff.mp taken
    rfl
  | feedSend =>
    obtain ⟨_, _, rfl⟩ := Option.map_eq_some_iff.mp taken
    rfl
  | conn d act =>
    obtain ⟨l, server, queues, l', present, stepped, rfl⟩ := conn_cases taken
    have other : ∀ id', l.socketId = some id' → id ≠ id' := by
      rintro id' allocated' rfl
      exact foreign act (congrArg (WorldEvent.conn · act)
        (inv.identities.distinct d c l k id present found allocated' allocated))
    cases act with
    | nextId =>
      obtain ⟨_, rfl, _⟩ := Conn.nextId_cases stepped
      rfl
    | sendReady ok =>
      obtain ⟨_, rfl, _⟩ := Conn.sendReady_cases stepped
      rfl
    | registerSocket =>
      obtain ⟨id', _, allocated', rfl, _⟩ := Conn.registerSocket_cases stepped
      exact Function.update_of_ne (other id' allocated') ..
    | receive item pongOk =>
      obtain ⟨_, _, _, rfl, _⟩ := Conn.receive_cases stepped
      rfl
    | handleMessage now =>
      obtain ⟨_, _, _, _, rfl, _⟩ := Conn.handleMessage_cases stepped
      exact congrFun (ServerState.handleMessage_sockets ..) id
    | sendToSocket =>
      obtain ⟨_, _, _, _, rfl, _⟩ := Conn.sendToSocket_cases stepped
      rfl
    | flush ok =>
      obtain ⟨_, _, _, rfl, _⟩ := Conn.flush_cases stepped
      rfl
    | unregisterSocket =>
      obtain ⟨id', _, allocated', rfl, _⟩ := Conn.unregisterSocket_cases stepped
      exact Function.update_of_ne (other id' allocated') ..

theorem connections_isolated {es : List WorldEvent} (reached : run (step target serde) new es = some w)
    (bound : w.allocated < target.idRange) : Isolated target serde w := by
  have inv := inv_of_run reached bound
  refine ⟨inv.identities.distinct, ?_, ?_, ?_⟩
  · intro c k id found allocated
    have := inv.identities.range c k id found allocated
    omega
  · intro c k found
    have flow := inv.flow c k found
    cases allocated : k.socketId with
    | none => exact .inl ⟨rfl, flow.unassigned allocated⟩
    | some id => exact .inr ⟨id, rfl, flow.taken_sublist allocated, k.pc.unhandled, flow.received⟩
  · intro c k id e t found allocated foreign taken
    exact inv.registration found allocated foreign taken

end World

def callbackText : List UInt8 := utf8 "\x7b\"cmd\":\"CONNECTIONS_CALLBACK\"\x7d"

def callback : RpcMessage := { cmd := "CONNECTIONS_CALLBACK" }

def callbackSerde : Serde := .table [] [(callbackText, callback)]

def opening (c : Nat) (transport : Transport) : List WorldEvent :=
  [.accept c transport "1", .conn c .nextId, .conn c (.sendReady true), .conn c .registerSocket]

def twoConnections : List WorldEvent :=
  opening 7 .ipc ++ opening 3 .webSocket ++
    [.conn 3 (.receive (.webSocket (.text callbackText)) true), .conn 3 (.handleMessage fun _ => 0),
      .conn 7 (.receive (.ipc none) true), .conn 3 .sendToSocket, .conn 7 .unregisterSocket,
      .conn 3 (.flush true)]

theorem World.connections_isolated_two :
    ∃ w, run (step .ptr64 callbackSerde) new twoConnections = some w ∧
      w.allocated < Target.idRange .ptr64 ∧ w.Isolated .ptr64 callbackSerde := by
  have reached : run (step .ptr64 callbackSerde) new twoConnections = some _ := rfl
  exact ⟨_, reached, by decide, connections_isolated reached (by decide)⟩

end Dirpc
