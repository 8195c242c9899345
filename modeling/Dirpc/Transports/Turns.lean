import Dirpc.Transports.Protocol

namespace Dirpc

open Base

def Conn.act (target : Target) (serde : Serde) (c : Nat)
    (x : ServerState × (Nat → Mpsc Json) × Conn) (a : Act) :
    Option (ServerState × (Nat → Mpsc Json) × Conn) :=
  x.2.2.step target serde x.1 x.2.1 c a

namespace Session

variable {ι : Type}

def Stage (k : Conn) : Phase → Prop
  | .opening => k.pc = .connected
  | .looping name id => k.pc = .looping ∧ k.socketId = some id ∧ k.clientId = name
  | .finished => k.pc = .closed

structure Record (s : Session ι) (k : Conn) : Prop where
  written : k.written = s.effects.filterMap Effect.out
  handled : k.handled.map Prod.fst = (s.effects.filterMap Effect.call).map fun call => call.2.2
  offers : k.offers.map Offer.resp = s.effects.filterMap Effect.offer

/-- The session and the connection have come equally far. -/
structure Stands (transport : Transport) (clientId : String) (s : Session ι)
    (x : ServerState × (Nat → Mpsc Json) × Conn) : Prop where
  server : x.1 = s.server
  queues : x.2.1 = s.queues
  transport : x.2.2.transport = transport
  clientId : x.2.2.clientId = clientId
  stage : Stage x.2.2 s.phase
  record : s.Record x.2.2

variable {target : Target} {serde : Serde} {transport : Transport} {clientId name : String}
variable {c id : Nat} {s t : Session ι} {x : ServerState × (Nat → Mpsc Json) × Conn}

theorem Record.append {k l : Conn} {added : List Effect} (record : s.Record k)
    (done : t.effects = s.effects ++ added)
    (written : l.written = k.written ++ added.filterMap Effect.out)
    (handled : l.handled.map Prod.fst =
      k.handled.map Prod.fst ++ (added.filterMap Effect.call).map fun call => call.2.2)
    (offers : l.offers.map Offer.resp = k.offers.map Offer.resp ++ added.filterMap Effect.offer) :
    t.Record l := by
  refine ⟨?_, ?_, ?_⟩
  · rw [written, record.written, done, List.filterMap_append]
  · rw [handled, record.handled, done, List.filterMap_append, List.map_append]
  · rw [offers, record.offers, done, List.filterMap_append]

theorem Record.silent {k : Conn} {effect : Effect} (record : s.Record k)
    (done : t.effects = s.effects ++ [effect])
    (quiet : effect.out = none ∧ effect.call = none ∧ effect.offer = none) : t.Record k := by
  obtain ⟨out, call, offer⟩ := quiet
  refine record.append done ?_ ?_ ?_
  · simp [out]
  · simp [call]
  · simp [offer]

theorem Stands.shared (stands : s.Stands transport clientId x) :
    ∃ k : Conn, x = (s.server, s.queues, k) ∧ k.transport = transport ∧ k.clientId = clientId ∧
      Stage k s.phase ∧ s.Record k := by
  obtain ⟨server, queues, k⟩ := x
  obtain ⟨sameServer, sameQueues, transports, named, stage, record⟩ := stands
  cases sameServer
  cases sameQueues
  exact ⟨k, rfl, transports, named, stage, record⟩

theorem leave_refines (target : Target) (serde : Serde) (c : Nat) {k : Conn}
    (pc : k.pc = .leaving) (allocated : k.socketId = some id) (transports : k.transport = transport)
    (named : k.clientId = clientId) (record : s.Record k) :
    ∃ y, Conn.act target serde c (s.server, s.queues, k) .unregisterSocket = some y ∧
      (s.leave c id).Stands transport clientId y := by
  refine ⟨(s.server.unregisterSocket id, Function.update s.queues c (s.queues c).close,
    { k with pc := .closed }), ?_, rfl, rfl, transports, named, rfl, ?_⟩
  · simp [Conn.act, Conn.step, pc, allocated]
  · have kept : Record s { k with pc := .closed } := ⟨record.written, record.handled, record.offers⟩
    exact kept.silent rfl ⟨rfl, rfl, rfl⟩

theorem answer_refines (target : Target) (serde : Serde) (c : Nat) {k : Conn} {msg : RpcMessage}
    (now : Nat → Int) (phase : s.phase = .looping k.clientId id) (pc : k.pc = .handling msg)
    (allocated : k.socketId = some id) (transports : k.transport = transport)
    (record : s.Record k) :
    ∃ acts y, run (Conn.act target serde c) (s.server, s.queues, k) acts = some y ∧
      (s.answer now id k.clientId msg).Stands transport k.clientId y := by
  let handled : Conn := { k with
    pc := (messageEffect now id k.clientId msg).2.elim .looping .replying
    handled := k.handled ++ [(msg, now)] }
  have handles : Conn.act target serde c (s.server, s.queues, k) (.handleMessage now) =
      some ((s.server.handleMessage now id k.clientId msg).1, s.queues, handled) := by
    simp only [Conn.act, Conn.step, pc, allocated]
    rw [← allocated]
    rfl
  rw [answer_eq]
  cases returned : (messageEffect now id k.clientId msg).2 with
  | none =>
    refine ⟨[.handleMessage now], _, run_cons_eq_some.mpr ⟨_, handles, rfl⟩, rfl, rfl, transports, rfl,
      ?_, ?_⟩
    · simp only [phase]
      refine ⟨?_, allocated, rfl⟩
      simp only [handled, returned, Option.elim_none]
    · exact record.append rfl (List.append_nil _).symm List.map_append (List.append_nil _).symm
  | some resp =>
    let replied : Conn := { handled with
      pc := .looping
      offers := k.offers ++ [⟨resp, (s.queues c).queue.length⟩] }
    have replies : Conn.act target serde c ((s.server.handleMessage now id k.clientId msg).1,
        s.queues, handled) .sendToSocket =
        some ((s.server.handleMessage now id k.clientId msg).1,
          s.server.sendToSocket s.queues id resp, replied) := by
      simp [Conn.act, Conn.step, handled, replied, returned, allocated, ServerState.sendToSocket]
    refine ⟨[.handleMessage now, .sendToSocket], _, run_cons_eq_some.mpr ⟨_, handles,
      run_cons_eq_some.mpr ⟨_, replies, rfl⟩⟩, rfl, rfl, transports, rfl, ?_, ?_⟩
    · simp only [phase]
      exact ⟨rfl, allocated, rfl⟩
    · exact record.append rfl (List.append_nil _).symm List.map_append List.map_append

theorem receive_refines (item : Inbound) {outcome : Outcome} (now : Nat → Int) (pongOk : Bool)
    (stands : s.Stands transport clientId x) (phase : s.phase = .looping name id)
    (means : item.outcome serde transport = some outcome) :
    ∃ acts y, run (Conn.act target serde c) x acts = some y ∧
      (s.receive c name id now pongOk outcome).Stands transport clientId y := by
  obtain ⟨k, rfl, transports, named, stage, record⟩ := stands.shared
  rw [phase] at stage
  obtain ⟨pc, allocated, rfl⟩ := stage
  subst named
  have read : Conn.act target serde c (s.server, s.queues, k) (.receive item pongOk) =
      some (s.server, s.queues, k.receive pongOk outcome) := by
    simp [Conn.act, Conn.step, pc, transports, means]
  cases outcome with
  | skip =>
    refine ⟨[.receive item pongOk], _, run_cons_eq_some.mpr ⟨_, read, rfl⟩, rfl, rfl, transports, rfl,
      ?_, record⟩
    rw [receive, phase]
    exact ⟨pc, allocated, rfl⟩
  | pong =>
    refine ⟨[.receive item pongOk], _, run_cons_eq_some.mpr ⟨_, read, rfl⟩, ?_⟩
    cases pongOk with
    | false =>
      refine ⟨rfl, rfl, transports, rfl, ?_, ?_⟩
      · simp only [receive, Bool.false_eq_true, if_false, phase]
        exact ⟨pc, allocated, rfl⟩
      · exact record.append (List.append_nil _).symm rfl (List.append_nil _).symm
          (List.append_nil _).symm
    | true =>
      refine ⟨rfl, rfl, transports, rfl, ?_, ?_⟩
      · simp only [receive, write, if_true, phase]
        exact ⟨pc, allocated, rfl⟩
      · exact record.append rfl rfl (List.append_nil _).symm (List.append_nil _).symm
  | stop =>
    obtain ⟨y, left, stands⟩ := leave_refines target serde c (k := k.receive pongOk .stop) rfl
      allocated transports rfl ⟨record.written, record.handled, record.offers⟩
    exact ⟨[.receive item pongOk, .unregisterSocket], y,
      run_cons_eq_some.mpr ⟨_, read, run_cons_eq_some.mpr ⟨y, left, rfl⟩⟩, stands⟩
  | message msg =>
    obtain ⟨acts, y, ran, stands⟩ := answer_refines target serde c (k := k.receive pongOk (.message msg))
      now phase rfl allocated transports ⟨record.written, record.handled, record.offers⟩
    exact ⟨.receive item pongOk :: acts, y, run_cons_eq_some.mpr ⟨_, read, ran⟩, stands⟩

theorem outbound_refines {ok : Bool} (stands : s.Stands transport clientId x)
    (phase : s.phase = .looping name id) (taken : s.outbound c id ok = some t) :
    ∃ acts y, run (Conn.act target serde c) x acts = some y ∧ t.Stands transport clientId y := by
  obtain ⟨k, rfl, transports, named, stage, record⟩ := stands.shared
  rw [phase] at stage
  obtain ⟨pc, allocated, rfl⟩ := stage
  rcases outbound_cases taken with ⟨json, rest, received, rfl⟩ | ⟨empty, dropped, rfl⟩
  · have flushes : Conn.act target serde c (s.server, s.queues, k) (.flush ok) =
        some (s.server, Function.update s.queues c rest, k.write json ok) := by
      simp [Conn.act, Conn.step, pc, allocated, received]
    cases ok with
    | true =>
      refine ⟨[.flush true], _, run_cons_eq_some.mpr ⟨_, flushes, rfl⟩, rfl, rfl, transports, named,
        ?_, ?_⟩
      · simp only [if_true, write, phase]
        exact ⟨pc, allocated, rfl⟩
      · exact record.append rfl rfl (List.append_nil _).symm (List.append_nil _).symm
    | false =>
      obtain ⟨y, left, stands⟩ := leave_refines target serde c
        (s := { s with queues := Function.update s.queues c rest }) (k := k.write json false) rfl
        allocated transports named ⟨record.written, record.handled, record.offers⟩
      exact ⟨[.flush false, .unregisterSocket], y,
        run_cons_eq_some.mpr ⟨_, flushes, run_cons_eq_some.mpr ⟨y, left, rfl⟩⟩, stands⟩
  · have flushes : Conn.act target serde c (s.server, s.queues, k) (.flush ok) =
        some (s.server, s.queues, { k with pc := .leaving }) := by
      simp [Conn.act, Conn.step, pc, allocated, empty, dropped]
    obtain ⟨y, left, stands⟩ := leave_refines target serde c (s := s) (k := { k with pc := .leaving })
      rfl allocated transports named ⟨record.written, record.handled, record.offers⟩
    exact ⟨[.flush ok, .unregisterSocket], y,
      run_cons_eq_some.mpr ⟨_, flushes, run_cons_eq_some.mpr ⟨y, left, rfl⟩⟩, stands⟩

theorem opening_refines {readyOk : Bool} (stands : s.Stands transport clientId x)
    (phase : s.phase = .opening) :
    ∃ acts y, run (Conn.act target serde c) x acts = some y ∧
      (if readyOk then ((s.nextId target).2.write .ready).register c clientId s.server.nextSocketId
        else (s.nextId target).2.finish).Stands transport clientId y := by
  obtain ⟨k, rfl, transports, named, stage, record⟩ := stands.shared
  rw [phase] at stage
  have pc : k.pc = .connected := stage
  let allocated : Conn := { k with pc := .allocated, socketId := some s.server.nextSocketId }
  have allocates : Conn.act target serde c (s.server, s.queues, k) .nextId =
      some ((s.server.nextId target).2, s.queues, allocated) := by
    simp only [Conn.act, Conn.step, pc]
    rfl
  have fresh : (s.nextId target).2.Record allocated :=
    Record.silent ⟨record.written, record.handled, record.offers⟩ rfl ⟨rfl, rfl, rfl⟩
  cases readyOk with
  | false =>
    refine ⟨[.nextId, .sendReady false], _, run_cons_eq_some.mpr ⟨_, allocates,
      run_cons_eq_some.mpr ⟨_, rfl, rfl⟩⟩, rfl, rfl, transports, named, rfl, ?_⟩
    exact ⟨fresh.written, fresh.handled, fresh.offers⟩
  | true =>
    refine ⟨[.nextId, .sendReady true, .registerSocket], _, run_cons_eq_some.mpr ⟨_, allocates,
      run_cons_eq_some.mpr ⟨_, rfl, run_cons_eq_some.mpr ⟨_, rfl, rfl⟩⟩⟩, rfl, rfl, transports, named,
      ⟨rfl, rfl, named⟩, ?_⟩
    have done : (((s.nextId target).2.write .ready).register c clientId s.server.nextSocketId).effects =
        (s.nextId target).2.effects ++ [.write .ready, .registerSocket s.server.nextSocketId] :=
      List.append_assoc ..
    exact fresh.append done rfl (List.append_nil _).symm (List.append_nil _).symm

theorem Stands.moved {rest : List ι} (stands : s.Stands transport clientId x) :
    Stands transport clientId { s with input := rest } x :=
  ⟨stands.server, stands.queues, stands.transport, stands.clientId, stands.stage,
    ⟨stands.record.written, stands.record.handled, stands.record.offers⟩⟩

theorem handleConnection_refines {s t : Session WsNext} {turn : Turn}
    (stands : s.Stands .webSocket clientId x)
    (taken : s.handleConnection target serde c clientId turn = some t) :
    ∃ acts y, run (Conn.act target serde c) x acts = some y ∧ t.Stands .webSocket clientId y := by
  rcases step_cases taken with ⟨readyOk, _, phase, rfl⟩ | ⟨name, id, phase, loop⟩
  · exact opening_refines stands phase
  · rcases loop with ⟨ok, _, sent⟩ | ⟨now, pongOk, _, rfl⟩
    · exact outbound_refines stands phase sent
    · rw [wsInbound_eq]
      cases s.input with
      | nil => exact receive_refines (.webSocket .ended) now pongOk stands phase rfl
      | cons next rest =>
        exact receive_refines (.webSocket next) now pongOk stands.moved phase rfl

/-- `handle_ipc_io` reads the handshake itself; the connection starts when it is valid. -/
structure StandsIpc (serde : Serde) (clientId : String) (s : Session Frame)
    (x : ServerState × (Nat → Mpsc Json) × Conn) : Prop where
  stands : s.Stands .ipc clientId x
  valid : s.phase = .opening → handshakeClient serde s.input = some clientId

theorem leave_started (s : Session ι) {c id : Nat} : (leave c id s).phase ≠ .opening := by
  simp [leave]

theorem Stands.past {s : Session Frame} (stands : s.Stands .ipc clientId x)
    (opened : s.phase ≠ .opening) : s.StandsIpc serde clientId x :=
  ⟨stands, fun phase => absurd phase opened⟩

theorem handleIpcIo_refines {s t : Session Frame} {turn : Turn}
    (stands : s.StandsIpc serde clientId x) (taken : s.handleIpcIo target serde c turn = some t) :
    ∃ acts y, run (Conn.act target serde c) x acts = some y ∧ t.StandsIpc serde clientId y := by
  obtain ⟨stands, valid⟩ := stands
  have started : t.phase ≠ .opening ∧
      ∃ acts y, run (Conn.act target serde c) x acts = some y ∧ t.Stands .ipc clientId y := by
    rcases step_cases taken with ⟨readyOk, _, phase, rfl⟩ | ⟨name, id, phase, loop⟩
    · rw [ipcOpening_eq, valid phase]
      refine ⟨?_, opening_refines stands.moved phase⟩
      cases readyOk <;> simp [register, finish]
    · rcases loop with ⟨ok, _, sent⟩ | ⟨now, pongOk, _, rfl⟩
      · refine ⟨?_, outbound_refines stands phase sent⟩
        rcases outbound_cases sent with ⟨_, _, _, rfl⟩ | ⟨_, _, rfl⟩
        · cases ok with
          | true => simp [write, phase]
          | false => exact leave_started _
        · exact leave_started s
      · rw [ipcInbound_eq]
        cases s.input with
        | nil => exact ⟨leave_started s, receive_refines (.ipc none) now pongOk stands phase rfl⟩
        | cons frame rest =>
          refine ⟨?_, receive_refines (.ipc (some frame)) now pongOk stands.moved phase rfl⟩
          rcases (receive_cases c name id now pongOk { s with input := rest }
            (ipcOutcome serde (some frame))).2 with same | finished
          · rw [same.trans phase]
            simp
          · rw [finished]
            simp
  obtain ⟨opened, acts, y, ran, after⟩ := started
  exact ⟨acts, y, ran, after.past opened⟩

/-- What a connection's code does, uninterrupted by other tasks, it does in the steps by which the
    connection takes part in the whole system. -/
theorem connection_refines {server : ServerState} {queues : Nat → Mpsc Json} :
    (∀ input turns t, run (handleConnection target serde c clientId) (new server queues input) turns =
        some t →
      ∃ acts y, run (Conn.act target serde c) (server, queues, .new .webSocket clientId) acts = some y ∧
        t.Stands .webSocket clientId y) ∧
      ∀ frames turns s, handshakeClient serde frames = some clientId →
        run (handleIpcIo target serde c) (new server queues frames) turns = some s →
        ∃ acts y, run (Conn.act target serde c) (server, queues, .new .ipc clientId) acts = some y ∧
          s.Stands .ipc clientId y := by
  refine ⟨?_, ?_⟩
  · intro input turns t reached
    have initial : (new server queues input).Stands .webSocket clientId
        (server, queues, .new .webSocket clientId) := ⟨rfl, rfl, rfl, rfl, rfl, ⟨rfl, rfl, rfl⟩⟩
    exact run_simulated (fun _ _ _ _ stands taken => handleConnection_refines stands taken) initial
      reached
  · intro frames turns s valid reached
    have initial : (new server queues frames).Stands .ipc clientId
        (server, queues, .new .ipc clientId) := ⟨rfl, rfl, rfl, rfl, rfl, ⟨rfl, rfl, rfl⟩⟩
    obtain ⟨acts, y, ran, stands⟩ := run_simulated
      (fun _ _ _ _ stands taken => handleIpcIo_refines stands taken)
      (⟨initial, fun _ => valid⟩ : StandsIpc serde clientId _ _) reached
    exact ⟨acts, y, ran, stands.stands⟩

end Session

end Dirpc
