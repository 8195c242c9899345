import Dirpc.Base.Runs
import Dirpc.Bridge.Feed
import Dirpc.Transports.Connection

namespace Dirpc

open Base

/-- The server, its connections and the bridge's feed. Connection `c` owns queue `c`; `allocated`
    counts the socket ids handed out. -/
structure World where
  server : ServerState
  queues : Nat → Mpsc Json
  conns : Nat → Option Conn
  bridge : BridgeState
  allocated : Nat

inductive WorldEvent where
  | accept (c : Nat) (transport : Transport) (clientId : String)
  | conn (c : Nat) (act : Act)
  | scan (clientId : String) (now : Nat → Int) (msg : RpcMessage)
  | feedRecv
  | feedSend

def Act.allocates : Act → Nat
  | .nextId => 1
  | _ => 0

namespace World

def new : World := ⟨.new, fun _ => .channel socketQueueCapacity, fun _ => none, .new, 0⟩

def setConn (w : World) (c : Nat) (act : Act) (out : ServerState × (Nat → Mpsc Json) × Conn) :
    World :=
  { w with
    server := out.1
    queues := out.2.1
    conns := Function.update w.conns c (some out.2.2)
    allocated := w.allocated + act.allocates }

def step (target : Target) (serde : Serde) (w : World) : WorldEvent → Option World
  | .accept c transport clientId => match w.conns c with
    | none => some { w with conns := Function.update w.conns c (some (.new transport clientId)) }
    | some _ => none
  | .conn c act => (w.conns c).bind fun k =>
    (k.step target serde w.server w.queues c act).map (w.setConn c act)
  | .scan clientId now msg =>
    -- The scanner handles its own messages under socket id 0 and ignores the responses.
    some { w with server := (w.server.handleMessage now 0 clientId msg).1 }
  | .feedRecv => (w.bridge.feedRecv w.server.activityTx).map fun b => { w with bridge := b }
  | .feedSend => w.bridge.feedSend.map fun b => { w with bridge := b }

def emitted (w : World) : WorldEvent → Option ActivityEvent
  | .conn c (.handleMessage now) => (w.conns c).bind fun k => match k.pc, k.socketId with
    | .handling msg, some id => (messageEffect now id k.clientId msg).1
    | _, _ => none
  | .conn c .unregisterSocket => (w.conns c).bind fun k => k.socketId.map fun id => ⟨none, none, id⟩
  | .scan clientId now msg => (messageEffect now 0 clientId msg).1
  | _ => none

variable {target : Target} {serde : Serde} {w t : World}

theorem conn_cases {c : Nat} {act : Act} (taken : w.step target serde (.conn c act) = some t) :
    ∃ k server queues k', w.conns c = some k ∧
      k.step target serde w.server w.queues c act = some (server, queues, k') ∧
      t = w.setConn c act (server, queues, k') := by
  obtain ⟨k, found, rest⟩ := Option.bind_eq_some_iff.mp taken
  obtain ⟨⟨server, queues, k'⟩, stepped, rfl⟩ := Option.map_eq_some_iff.mp rest
  exact ⟨k, server, queues, k', found, stepped, rfl⟩

theorem conn_step {c : Nat} {act : Act} {k : Conn}
    {out : ServerState × (Nat → Mpsc Json) × Conn} (found : w.conns c = some k)
    (stepped : k.step target serde w.server w.queues c act = some out) :
    w.step target serde (.conn c act) = some (w.setConn c act out) := by
  rw [step, found, Option.bind_some, stepped, Option.map_some]

theorem accept_cases {c : Nat} {transport : Transport} {clientId : String}
    (taken : w.step target serde (.accept c transport clientId) = some t) :
    w.conns c = none ∧
      t = { w with conns := Function.update w.conns c (some (.new transport clientId)) } := by
  simp only [step] at taken
  split at taken
  · rename_i vacant
    cases taken
    exact ⟨vacant, rfl⟩
  · cases taken

theorem allocated_mono {e : WorldEvent} (taken : w.step target serde e = some t) :
    w.allocated ≤ t.allocated := by
  cases e with
  | accept =>
    obtain ⟨_, rfl⟩ := accept_cases taken
    exact Nat.le_refl _
  | conn =>
    obtain ⟨_, _, _, _, _, _, rfl⟩ := conn_cases taken
    exact Nat.le_add_right ..
  | scan =>
    cases taken
    exact Nat.le_refl _
  | feedRecv =>
    obtain ⟨_, _, rfl⟩ := Option.map_eq_some_iff.mp taken
    exact Nat.le_refl _
  | feedSend =>
    obtain ⟨_, _, rfl⟩ := Option.map_eq_some_iff.mp taken
    exact Nat.le_refl _

theorem step_activityTx {e : WorldEvent} (taken : w.step target serde e = some t) :
    t.server.activityTx =
      (w.emitted e).elim w.server.activityTx w.server.activityTx.send := by
  cases e with
  | accept =>
    obtain ⟨_, rfl⟩ := accept_cases taken
    rfl
  | scan clientId now msg =>
    cases taken
    exact ServerState.handleMessage_activityTx ..
  | feedRecv =>
    obtain ⟨_, _, rfl⟩ := Option.map_eq_some_iff.mp taken
    rfl
  | feedSend =>
    obtain ⟨_, _, rfl⟩ := Option.map_eq_some_iff.mp taken
    rfl
  | conn c act =>
    obtain ⟨k, server, queues, k', found, stepped, rfl⟩ := conn_cases taken
    cases act with
    | nextId =>
      obtain ⟨_, rfl, _⟩ := Conn.nextId_cases stepped
      rfl
    | sendReady ok =>
      obtain ⟨_, rfl, _⟩ := Conn.sendReady_cases stepped
      rfl
    | registerSocket =>
      obtain ⟨_, _, _, rfl, _⟩ := Conn.registerSocket_cases stepped
      rfl
    | receive item pongOk =>
      obtain ⟨_, _, _, rfl, _⟩ := Conn.receive_cases stepped
      rfl
    | sendToSocket =>
      obtain ⟨_, _, _, _, rfl, _⟩ := Conn.sendToSocket_cases stepped
      rfl
    | flush ok =>
      obtain ⟨_, _, _, rfl, _⟩ := Conn.flush_cases stepped
      rfl
    | unregisterSocket =>
      obtain ⟨id, _, allocated, rfl, _⟩ := Conn.unregisterSocket_cases stepped
      simp [emitted, found, allocated, setConn]
    | handleMessage now =>
      obtain ⟨msg, id, phase, allocated, rfl, _⟩ := Conn.handleMessage_cases stepped
      simp only [emitted, found, Option.bind_some, phase, allocated, setConn]
      exact ServerState.handleMessage_activityTx ..

theorem step_log {e : WorldEvent} (taken : w.step target serde e = some t) :
    t.server.activityTx.log = w.server.activityTx.log ++ (w.emitted e).toList := by
  rw [step_activityTx taken]
  cases w.emitted e with
  | none => exact (List.append_nil _).symm
  | some event => rfl

theorem emitted_cases {e : WorldEvent} {event : ActivityEvent} (sent : w.emitted e = some event) :
    event.socketId = 0 ∨ ∃ c act k, e = .conn c act ∧ w.conns c = some k ∧
      k.socketId = some event.socketId := by
  cases e with
  | scan clientId now msg => exact .inl (messageEffect_socketId sent)
  | conn c act =>
    cases act with
    | handleMessage now =>
      obtain ⟨k, found, rest⟩ := Option.bind_eq_some_iff.mp sent
      split at rest
      · rename_i msg id _ allocated
        have own := messageEffect_socketId rest
        exact .inr ⟨c, _, k, rfl, found, own ▸ allocated⟩
      · cases rest
    | unregisterSocket =>
      obtain ⟨k, found, rest⟩ := Option.bind_eq_some_iff.mp sent
      obtain ⟨id, allocated, rfl⟩ := Option.map_eq_some_iff.mp rest
      exact .inr ⟨c, _, k, rfl, found, allocated⟩
    | _ => cases sent
  | _ => cases sent

theorem update_eq_some {conns : Nat → Option Conn} {c d : Nat} {k l : Conn}
    (found : Function.update conns c (some k) d = some l) :
    (d = c ∧ l = k) ∨ (d ≠ c ∧ conns d = some l) := by
  by_cases same : d = c
  · subst same
    rw [Function.update_self] at found
    exact .inl ⟨rfl, (Option.some.inj found).symm⟩
  · rw [Function.update_of_ne same] at found
    exact .inr ⟨same, found⟩

theorem conns_cases {e : WorldEvent} {d : Nat} {l : Conn}
    (taken : w.step target serde e = some t) (present : t.conns d = some l) :
    l.socketId = none ∨
      (∃ act k server queues, e = .conn d act ∧ w.conns d = some k ∧
        k.step target serde w.server w.queues d act = some (server, queues, l)) ∨
      (w.conns d = some l ∧ ∀ act, e ≠ .conn d act) := by
  cases e with
  | accept c transport clientId =>
    obtain ⟨_, rfl⟩ := accept_cases taken
    rcases update_eq_some present with ⟨_, rfl⟩ | ⟨_, before⟩
    · exact .inl rfl
    · exact .inr (.inr ⟨before, nofun⟩)
  | scan =>
    cases taken
    exact .inr (.inr ⟨present, nofun⟩)
  | feedRecv =>
    obtain ⟨_, _, rfl⟩ := Option.map_eq_some_iff.mp taken
    exact .inr (.inr ⟨present, nofun⟩)
  | feedSend =>
    obtain ⟨_, _, rfl⟩ := Option.map_eq_some_iff.mp taken
    exact .inr (.inr ⟨present, nofun⟩)
  | conn c act =>
    obtain ⟨k, server, queues, k', found, stepped, rfl⟩ := conn_cases taken
    rcases update_eq_some present with ⟨rfl, rfl⟩ | ⟨other, before⟩
    · exact .inr (.inl ⟨act, k, server, queues, rfl, found, stepped⟩)
    · refine .inr (.inr ⟨before, ?_⟩)
      rintro act' same
      cases same
      exact other rfl

end World

end Dirpc
