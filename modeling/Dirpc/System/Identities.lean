import Dirpc.System.World

namespace Dirpc

open Base

/-- The id counter, the socket map and the connections agree. -/
structure World.Identities (target : Target) (w : World) : Prop where
  counter : w.server.nextSocketId = (w.allocated + 1) % target.idRange
  fresh : ∀ id, w.allocated < id → w.server.sockets id = none
  range : ∀ c k id, w.conns c = some k → k.socketId = some id → 1 ≤ id ∧ id ≤ w.allocated
  distinct : ∀ c d k l id, w.conns c = some k → w.conns d = some l → k.socketId = some id →
    l.socketId = some id → c = d
  registered : ∀ c k id, w.conns c = some k → k.socketId = some id →
    w.server.sockets id = if k.pc.isRegistered then some c else none

namespace World

variable {target : Target} {w : World}

theorem identities_new (target : Target) : Identities target new := by
  refine ⟨?_, ?_, ?_, ?_, ?_⟩
  · cases target <;> rfl
  · intro id _
    rfl
  · intro c k id found
    cases found
  · intro c d k l id found
    cases found
  · intro c k id found
    cases found

theorem Identities.conns {c : Nat} {k k' : Conn} {server : ServerState}
    {queues : Nat → Mpsc Json} {act : Act} (ids : Identities target w) (found : w.conns c = some k)
    (counter : server.nextSocketId = w.server.nextSocketId) (idle : act.allocates = 0)
    (socketId : k'.socketId = k.socketId)
    (own : ∀ id, k.socketId = some id →
      server.sockets id = if k'.pc.isRegistered then some c else none)
    (others : ∀ id, k.socketId ≠ some id → server.sockets id = w.server.sockets id) :
    Identities target (w.setConn c act (server, queues, k')) := by
  have count : (w.setConn c act (server, queues, k')).allocated = w.allocated := by
    rw [setConn, idle, Nat.add_zero]
  have known : ∀ d l, (w.setConn c act (server, queues, k')).conns d = some l →
      ∃ j, w.conns d = some j ∧ l.socketId = j.socketId := by
    intro d l present
    rcases update_eq_some present with ⟨rfl, rfl⟩ | ⟨_, present⟩
    · exact ⟨k, found, socketId⟩
    · exact ⟨l, present, rfl⟩
  refine ⟨?_, ?_, ?_, ?_, ?_⟩
  · rw [count]
    exact counter.trans ids.counter
  · intro id ahead
    rw [count] at ahead
    have foreign : k.socketId ≠ some id := by
      intro allocated
      have := ids.range c k id found allocated
      omega
    exact (others id foreign).trans (ids.fresh id ahead)
  · intro d l id present allocated
    obtain ⟨j, before, same⟩ := known d l present
    rw [count]
    exact ids.range d j id before (same ▸ allocated)
  · intro d e l m id left right allocated allocated'
    obtain ⟨j, before, same⟩ := known d l left
    obtain ⟨j', before', same'⟩ := known e m right
    exact ids.distinct d e j j' id before before' (same ▸ allocated) (same' ▸ allocated')
  · intro d l id present allocated
    rcases update_eq_some present with ⟨rfl, rfl⟩ | ⟨other, present⟩
    · exact own id (socketId ▸ allocated)
    · have foreign : k.socketId ≠ some id :=
        fun shared => other (ids.distinct d c l k id present found allocated shared)
      exact (others id foreign).trans (ids.registered d l id present allocated)

theorem Identities.stay {c : Nat} {k k' : Conn} {server : ServerState} {queues : Nat → Mpsc Json}
    {act : Act} (ids : Identities target w) (found : w.conns c = some k)
    (counter : server.nextSocketId = w.server.nextSocketId)
    (sockets : server.sockets = w.server.sockets) (idle : act.allocates = 0)
    (socketId : k'.socketId = k.socketId) (phase : k'.pc.isRegistered = k.pc.isRegistered) :
    Identities target (w.setConn c act (server, queues, k')) := by
  apply ids.conns found counter idle socketId
  · intro id allocated
    rw [sockets, phase]
    exact ids.registered c k id found allocated
  · intro id _
    rw [sockets]

theorem Identities.nextId {c : Nat} {k : Conn} {queues : Nat → Mpsc Json}
    (ids : Identities target w) (found : w.conns c = some k)
    (bound : w.allocated + 1 < target.idRange) :
    Identities target (w.setConn c .nextId ((w.server.nextId target).2, queues,
      { k with pc := .allocated, socketId := some w.server.nextSocketId })) := by
  have next : w.server.nextSocketId = w.allocated + 1 := by
    rw [ids.counter, Nat.mod_eq_of_lt bound]
  have old : ∀ d l id, w.conns d = some l → l.socketId = some id → id ≠ w.allocated + 1 := by
    intro d l id present allocated
    have := ids.range d l id present allocated
    omega
  refine ⟨?_, ?_, ?_, ?_, ?_⟩
  · change (w.server.nextSocketId + 1) % target.idRange = (w.allocated + 1 + 1) % target.idRange
    rw [next]
  · intro id ahead
    change w.allocated + 1 < id at ahead
    exact ids.fresh id (by omega)
  · intro d l id present allocated
    change 1 ≤ id ∧ id ≤ w.allocated + 1
    rcases update_eq_some present with ⟨rfl, rfl⟩ | ⟨_, present⟩
    · have : w.server.nextSocketId = id := Option.some.inj allocated
      omega
    · have := ids.range d l id present allocated
      omega
  · intro d e l m id left right allocated allocated'
    rcases update_eq_some left with ⟨rfl, rfl⟩ | ⟨_, before⟩
    · rcases update_eq_some right with ⟨rfl, rfl⟩ | ⟨_, before'⟩
      · rfl
      · have same : w.server.nextSocketId = id := Option.some.inj allocated
        exact absurd (same.symm.trans next) (old e m id before' allocated')
    · rcases update_eq_some right with ⟨rfl, rfl⟩ | ⟨_, before'⟩
      · have same : w.server.nextSocketId = id := Option.some.inj allocated'
        exact absurd (same.symm.trans next) (old d l id before allocated)
      · exact ids.distinct d e l m id before before' allocated allocated'
  · intro d l id present allocated
    rcases update_eq_some present with ⟨rfl, rfl⟩ | ⟨_, present⟩
    · have : w.server.nextSocketId = id := Option.some.inj allocated
      exact ids.fresh id (by omega)
    · exact ids.registered d l id present allocated

theorem Identities.conn {t : World} {c : Nat} {act : Act} {serde : Serde}
    (ids : Identities target w) (bound : t.allocated < target.idRange)
    (taken : w.step target serde (.conn c act) = some t) : Identities target t := by
  obtain ⟨k, server, queues, k', found, stepped, rfl⟩ := conn_cases taken
  cases act with
  | nextId =>
    obtain ⟨_, rfl, _, rfl⟩ := Conn.nextId_cases stepped
    exact ids.nextId found bound
  | sendReady ok =>
    obtain ⟨phase, rfl, _, rfl⟩ := Conn.sendReady_cases stepped
    apply ids.stay found
    · rfl
    · rfl
    · rfl
    · cases ok <;> rfl
    · cases ok <;> simp [phase, Pc.isRegistered]
  | registerSocket =>
    obtain ⟨id, phase, allocated, rfl, _, rfl⟩ := Conn.registerSocket_cases stepped
    apply ids.conns found
    · rfl
    · rfl
    · rfl
    · intro id' allocated'
      have same : id = id' := Option.some.inj (allocated.symm.trans allocated')
      simp [same, ServerState.registerSocket_sockets, Pc.isRegistered]
    · intro id' foreign
      have other : id' ≠ id := fun same => foreign (same ▸ allocated)
      rw [ServerState.registerSocket_sockets, Function.update_of_ne other]
  | receive item pongOk =>
    obtain ⟨outcome, phase, _, rfl, _, rfl⟩ := Conn.receive_cases stepped
    apply ids.stay found
    · rfl
    · rfl
    · rfl
    · cases outcome <;> rfl
    · cases outcome <;> simp [Conn.receive, phase, Pc.isRegistered]
  | handleMessage now =>
    obtain ⟨msg, id, phase, _, rfl, _, rfl⟩ := Conn.handleMessage_cases stepped
    apply ids.stay found
    · exact ServerState.handleMessage_nextSocketId ..
    · exact ServerState.handleMessage_sockets ..
    · rfl
    · rfl
    · cases (messageEffect now id k.clientId msg).2 <;> simp [phase, Pc.isRegistered]
  | sendToSocket =>
    obtain ⟨resp, id, phase, _, rfl, _, rfl⟩ := Conn.sendToSocket_cases stepped
    apply ids.stay found
    all_goals try rfl
    simp [phase, Pc.isRegistered]
  | flush ok =>
    obtain ⟨id, phase, _, rfl, ⟨_, _, _, _, rfl⟩ | ⟨_, _, _, rfl⟩⟩ := Conn.flush_cases stepped
    · apply ids.stay found
      · rfl
      · rfl
      · rfl
      · cases ok <;> rfl
      · cases ok <;> simp [Conn.write, phase, Pc.isRegistered]
    · apply ids.stay found
      all_goals try rfl
      simp [phase, Pc.isRegistered]
  | unregisterSocket =>
    obtain ⟨id, phase, allocated, rfl, _, rfl⟩ := Conn.unregisterSocket_cases stepped
    apply ids.conns found
    · rfl
    · rfl
    · rfl
    · intro id' allocated'
      have same : id = id' := Option.some.inj (allocated.symm.trans allocated')
      simp [same, ServerState.unregisterSocket_sockets, Pc.isRegistered]
    · intro id' foreign
      have other : id' ≠ id := fun same => foreign (same ▸ allocated)
      rw [ServerState.unregisterSocket_sockets, Function.update_of_ne other]

theorem Identities.step {t : World} {e : WorldEvent} {serde : Serde} (ids : Identities target w)
    (bound : t.allocated < target.idRange) (taken : w.step target serde e = some t) :
    Identities target t := by
  cases e with
  | conn c act => exact ids.conn bound taken
  | accept c transport clientId =>
    obtain ⟨vacant, rfl⟩ := accept_cases taken
    have known : ∀ d l id, Function.update w.conns c (some (.new transport clientId)) d = some l →
        l.socketId = some id → w.conns d = some l := by
      intro d l id present allocated
      rcases update_eq_some present with ⟨_, rfl⟩ | ⟨_, present⟩
      · cases allocated
      · exact present
    refine ⟨ids.counter, ids.fresh, ?_, ?_, ?_⟩
    · intro d l id present allocated
      exact ids.range d l id (known d l id present allocated) allocated
    · intro d e l m id left right allocated allocated'
      exact ids.distinct d e l m id (known d l id left allocated)
        (known e m id right allocated') allocated allocated'
    · intro d l id present allocated
      exact ids.registered d l id (known d l id present allocated) allocated
  | scan clientId now msg =>
    cases taken
    refine ⟨?_, ?_, ids.range, ids.distinct, ?_⟩
    · rw [ServerState.handleMessage_nextSocketId]
      exact ids.counter
    · rw [ServerState.handleMessage_sockets]
      exact ids.fresh
    · rw [ServerState.handleMessage_sockets]
      exact ids.registered
  | feedRecv =>
    obtain ⟨_, _, rfl⟩ := Option.map_eq_some_iff.mp taken
    exact ⟨ids.counter, ids.fresh, ids.range, ids.distinct, ids.registered⟩
  | feedSend =>
    obtain ⟨_, _, rfl⟩ := Option.map_eq_some_iff.mp taken
    exact ⟨ids.counter, ids.fresh, ids.range, ids.distinct, ids.registered⟩

end World

end Dirpc
