import Dirpc.System.Identities

namespace Dirpc

open Base

/-- What has passed through a connection: messages received are handled in order, their responses
    offered in order, the accepted offers queued in order, and what was taken from the queue is
    written as long as the connection is open. -/
structure Conn.Flow (k : Conn) (q : Mpsc Json) : Prop where
  received : k.handled.map Prod.fst ++ k.pc.unhandled = k.received
  offered : ∀ id, k.socketId = some id → k.offers.map Offer.resp ++ k.pc.unsent = k.responses id
  opening : k.pc.isOpening → k.handled = [] ∧ k.offers = [] ∧ k.taken = [] ∧
    k.writtenResponses = []
  queue : k.pc.isRegistered → k.taken ++ q.queue = k.accepted ∧
    q.capacity = socketQueueCapacity ∧ q.closed = false
  delivered : k.taken <+: k.accepted
  written : k.pc.isOpen → k.writtenResponses = k.taken
  unassigned : k.socketId = none → k.taken = []
  counted : ∀ offer ∈ k.offers, offer.queued ≤ socketQueueCapacity

section

variable (resp : Option Json)

theorem Pc.unhandled_elim : (resp.elim Pc.looping Pc.replying).unhandled = [] := by
  cases resp <;> rfl

theorem Pc.unsent_elim : (resp.elim Pc.looping Pc.replying).unsent = resp.toList := by
  cases resp <;> rfl

theorem Pc.isOpening_elim : (resp.elim Pc.looping Pc.replying).isOpening = false := by
  cases resp <;> rfl

end

namespace Conn

variable {target : Target} {serde : Serde} {server server' : ServerState}
variable {queues queues' : Nat → Mpsc Json} {c : Nat} {k k' : Conn} {q : Mpsc Json}

theorem flow_new (transport : Transport) (clientId : String) : (new transport clientId).Flow q := by
  refine ⟨rfl, ?_, ?_, ?_, List.prefix_rfl, ?_, fun _ => rfl, ?_⟩
  · intro id allocated
    cases allocated
  · intro _
    exact ⟨rfl, rfl, rfl, rfl⟩
  · intro registered
    cases registered
  · intro isOpen
    cases isOpen
  · intro offer member
    cases member

theorem Flow.nextId (flow : k.Flow q) (phase : k.pc = .connected) (socketId : Nat) :
    Flow { k with pc := .allocated, socketId := some socketId } q := by
  obtain ⟨handled, offers, taken, written⟩ := flow.opening (by rw [phase]; rfl)
  refine ⟨?_, ?_, ?_, ?_, flow.delivered, ?_, nofun, flow.counted⟩
  · have received := flow.received
    rwa [phase] at received
  · intro id _
    simp [responses, handled, offers, Pc.unsent]
  · intro _
    exact ⟨handled, offers, taken, written⟩
  · intro registered
    cases registered
  · intro isOpen
    cases isOpen

theorem Flow.close (flow : k.Flow q) (unhandled : k.pc.unhandled = []) (unsent : k.pc.unsent = [])
    (last : Mpsc Json) : Flow { k with pc := .closed } last := by
  have received := flow.received
  have offered := flow.offered
  rw [unhandled] at received
  rw [unsent] at offered
  refine ⟨received, offered, ?_, ?_, flow.delivered, ?_, flow.unassigned, flow.counted⟩
  · intro opening
    cases opening
  · intro registered
    cases registered
  · intro isOpen
    cases isOpen

theorem Flow.sendReady (flow : k.Flow q) (phase : k.pc = .allocated) (ok : Bool) :
    Flow (if ok then { k with pc := .ready, written := k.written ++ [.ready] }
      else { k with pc := .closed }) q := by
  cases ok with
  | true =>
    obtain ⟨handled, offers, taken, written⟩ := flow.opening (by rw [phase]; rfl)
    have received := flow.received
    have offered := flow.offered
    rw [phase] at received offered
    refine ⟨received, offered, ?_, ?_, flow.delivered, ?_, flow.unassigned, flow.counted⟩
    · intro _
      refine ⟨handled, offers, taken, ?_⟩
      change (k.written ++ [Outgoing.ready]).filterMap Outgoing.json? = []
      rw [List.filterMap_append]
      exact List.append_eq_nil_iff.mpr ⟨written, rfl⟩
    · intro registered
      cases registered
    · intro isOpen
      cases isOpen
  | false => exact flow.close (by rw [phase]; rfl) (by rw [phase]; rfl) q

theorem Flow.registerSocket (flow : k.Flow q) (phase : k.pc = .ready) :
    Flow { k with pc := .looping } (.channel socketQueueCapacity) := by
  obtain ⟨handled, offers, taken, written⟩ := flow.opening (by rw [phase]; rfl)
  have received := flow.received
  have offered := flow.offered
  rw [phase] at received offered
  refine ⟨received, offered, ?_, ?_, flow.delivered, ?_, flow.unassigned, flow.counted⟩
  · intro opening
    cases opening
  · intro _
    refine ⟨?_, rfl, rfl⟩
    simp [accepted, offers, taken]
  · intro _
    exact written.trans taken.symm

theorem Flow.receive (flow : k.Flow q) (phase : k.pc = .looping) (pongOk : Bool)
    (outcome : Outcome) : Flow (k.receive pongOk outcome) q := by
  have received := flow.received
  have offered := flow.offered
  have queue := flow.queue (by rw [phase]; rfl)
  have written := flow.written (by rw [phase]; rfl)
  rw [phase] at received offered
  cases outcome with
  | message msg =>
    refine ⟨?_, offered, ?_, fun _ => queue, flow.delivered, fun _ => written,
      flow.unassigned, flow.counted⟩
    · have all : k.handled.map Prod.fst = k.received := by
        simpa only [Pc.unhandled, List.append_nil] using received
      exact congrArg (· ++ [msg]) all
    · intro opening
      cases opening
  | pong =>
    have same : (k.receive pongOk .pong).writtenResponses = k.writtenResponses := by
      cases pongOk <;> simp [Conn.receive, writtenResponses, Outgoing.json?]
    refine ⟨?_, ?_, ?_, fun _ => queue, flow.delivered, fun _ => same.trans written,
      flow.unassigned, flow.counted⟩
    · change k.handled.map Prod.fst ++ k.pc.unhandled = k.received
      rwa [phase]
    · change ∀ id, k.socketId = some id → k.offers.map Offer.resp ++ k.pc.unsent = k.responses id
      rwa [phase]
    · intro opening
      change k.pc.isOpening = true at opening
      rw [phase] at opening
      cases opening
  | skip => exact flow
  | stop =>
    refine ⟨received, offered, ?_, fun _ => queue, flow.delivered, ?_, flow.unassigned,
      flow.counted⟩
    · intro opening
      cases opening
    · intro isOpen
      cases isOpen

theorem Flow.handleMessage (flow : k.Flow q) {msg : RpcMessage} {socketId : Nat}
    (phase : k.pc = .handling msg) (allocated : k.socketId = some socketId) (now : Nat → Int) :
    Flow { k with
      pc := (messageEffect now socketId k.clientId msg).2.elim .looping .replying
      handled := k.handled ++ [(msg, now)] } q := by
  have received := flow.received
  have offered := flow.offered
  have queue := flow.queue (by rw [phase]; rfl)
  have written := flow.written (by rw [phase]; rfl)
  rw [phase] at received offered
  have more : Conn.responses { k with handled := k.handled ++ [(msg, now)] } socketId =
      k.responses socketId ++ (messageEffect now socketId k.clientId msg).2.toList := by
    unfold responses
    rw [List.filterMap_append]
    cases effect : (messageEffect now socketId k.clientId msg).2 <;> simp [effect]
  have before : k.offers.map Offer.resp = k.responses socketId := by
    simpa only [Pc.unsent, List.append_nil] using offered socketId allocated
  refine ⟨?_, ?_, ?_, fun _ => queue, flow.delivered, fun _ => written, flow.unassigned,
    flow.counted⟩
  · change (k.handled ++ [(msg, now)]).map Prod.fst ++ Pc.unhandled _ = k.received
    rw [Pc.unhandled_elim, List.append_nil, List.map_append]
    exact received
  · intro id allocated'
    cases Option.some.inj (allocated.symm.trans allocated')
    change k.offers.map Offer.resp ++ Pc.unsent _ = _
    rw [Pc.unsent_elim, before]
    exact more.symm
  · intro opening
    change Pc.isOpening _ = true at opening
    rw [Pc.isOpening_elim] at opening
    cases opening

theorem Flow.sendToSocket (flow : k.Flow q) {resp : Json} (phase : k.pc = .replying resp) :
    Flow { k with pc := .looping, offers := k.offers ++ [⟨resp, q.queue.length⟩] }
      (q.trySend resp).2 := by
  have received := flow.received
  have offered := flow.offered
  have written := flow.written (by rw [phase]; rfl)
  obtain ⟨queue, capacity, live⟩ := flow.queue (by rw [phase]; rfl)
  rw [phase] at received offered
  have more : Conn.accepted { k with offers := k.offers ++ [⟨resp, q.queue.length⟩] } =
      k.accepted ++ if q.queue.length < socketQueueCapacity then [resp] else [] := by
    unfold accepted
    rw [List.filter_append, List.map_append]
    by_cases room : q.queue.length < socketQueueCapacity <;> simp [room]
  refine ⟨received, ?_, ?_, ?_, ?_, fun _ => written, flow.unassigned, ?_⟩
  · intro id allocated
    refine Eq.trans ?_ (offered id allocated)
    simp [Pc.unsent]
  · intro opening
    cases opening
  · intro _
    refine ⟨?_, by simp [capacity], by simp [live]⟩
    refine Eq.trans ?_ more.symm
    rw [Mpsc.trySend_queue, capacity, live, ← queue, List.append_assoc]
    simp
  · exact flow.delivered.trans (more ▸ List.prefix_append ..)
  · intro offer member
    have fits := q.fits
    rcases List.mem_append.mp member with before | last
    · exact flow.counted offer before
    · rw [List.mem_singleton.mp last, ← capacity]
      exact fits

theorem Flow.write (flow : k.Flow q) (phase : k.pc = .looping) {socketId : Nat}
    (allocated : k.socketId = some socketId) {json : Json} {rest : Mpsc Json}
    (taken : q.recv = some (json, rest)) (ok : Bool) : Flow (k.write json ok) rest := by
  have received := flow.received
  have offered := flow.offered
  have written := flow.written (by rw [phase]; rfl)
  obtain ⟨queue, capacity, live⟩ := flow.queue (by rw [phase]; rfl)
  obtain ⟨head, capacity', live'⟩ := Mpsc.recv_eq_some taken
  have after : (k.taken ++ [json]) ++ rest.queue = k.accepted := by
    rw [← queue, head, List.append_assoc]
    rfl
  have prefixed : k.taken ++ [json] <+: k.accepted := ⟨rest.queue, after⟩
  cases ok with
  | true =>
    refine ⟨received, offered, ?_, ?_, prefixed, ?_, ?_, flow.counted⟩
    · intro opening
      change k.pc.isOpening = true at opening
      rw [phase] at opening
      cases opening
    · intro _
      exact ⟨after, capacity'.trans capacity, live'.trans live⟩
    · intro _
      change (k.written ++ [Outgoing.response json]).filterMap Outgoing.json? = k.taken ++ [json]
      rw [List.filterMap_append, ← written]
      rfl
    · intro unassigned
      change k.socketId = none at unassigned
      rw [allocated] at unassigned
      cases unassigned
  | false =>
    rw [phase] at received offered
    refine ⟨received, offered, ?_, ?_, prefixed, ?_, ?_, flow.counted⟩
    · intro opening
      cases opening
    · intro _
      exact ⟨after, capacity'.trans capacity, live'.trans live⟩
    · intro isOpen
      cases isOpen
    · intro unassigned
      change k.socketId = none at unassigned
      rw [allocated] at unassigned
      cases unassigned

theorem Flow.leave (flow : k.Flow q) (phase : k.pc = .looping) :
    Flow { k with pc := .leaving } q := flow.receive phase false .stop

theorem Flow.unregisterSocket (flow : k.Flow q) (phase : k.pc = .leaving) :
    Flow { k with pc := .closed } q.close :=
  flow.close (by rw [phase]; rfl) (by rw [phase]; rfl) q.close

theorem Flow.step {act : Act} (flow : k.Flow (queues c))
    (registered : ∀ id, k.pc.isRegistered → k.socketId = some id → server.sockets id = some c)
    (taken : k.step target serde server queues c act = some (server', queues', k')) :
    k'.Flow (queues' c) ∧ ∀ d, d ≠ c → queues' d = queues d := by
  cases act with
  | nextId =>
    obtain ⟨phase, _, rfl, rfl⟩ := nextId_cases taken
    exact ⟨flow.nextId phase _, fun _ _ => rfl⟩
  | sendReady ok =>
    obtain ⟨phase, _, rfl, rfl⟩ := sendReady_cases taken
    exact ⟨flow.sendReady phase ok, fun _ _ => rfl⟩
  | registerSocket =>
    obtain ⟨_, phase, _, _, rfl, rfl⟩ := registerSocket_cases taken
    refine ⟨?_, fun d other => Function.update_of_ne other ..⟩
    rw [Function.update_self]
    exact flow.registerSocket phase
  | receive item pongOk =>
    obtain ⟨outcome, phase, _, _, rfl, rfl⟩ := receive_cases taken
    exact ⟨flow.receive phase pongOk outcome, fun _ _ => rfl⟩
  | handleMessage now =>
    obtain ⟨_, _, phase, allocated, _, rfl, rfl⟩ := handleMessage_cases taken
    exact ⟨flow.handleMessage phase allocated now, fun _ _ => rfl⟩
  | sendToSocket =>
    obtain ⟨resp, id, phase, allocated, _, rfl, rfl⟩ := sendToSocket_cases taken
    have own := registered id (by rw [phase]; rfl) allocated
    rw [ServerState.sendToSocket_registered own]
    refine ⟨?_, fun d other => Function.update_of_ne other ..⟩
    rw [Function.update_self]
    exact flow.sendToSocket phase
  | flush ok =>
    obtain ⟨_, phase, allocated, _, ⟨json, rest, received, rfl, rfl⟩ | ⟨_, _, rfl, rfl⟩⟩ :=
      flush_cases taken
    · refine ⟨?_, fun d other => Function.update_of_ne other ..⟩
      rw [Function.update_self]
      exact flow.write phase allocated received ok
    · exact ⟨flow.leave phase, fun _ _ => rfl⟩
  | unregisterSocket =>
    obtain ⟨_, phase, _, _, rfl, rfl⟩ := unregisterSocket_cases taken
    refine ⟨?_, fun d other => Function.update_of_ne other ..⟩
    rw [Function.update_self]
    exact flow.unregisterSocket phase

end Conn

namespace World

structure Inv (target : Target) (w : World) : Prop where
  identities : w.Identities target
  flow : ∀ c k, w.conns c = some k → k.Flow (w.queues c)

variable {target : Target} {serde : Serde} {w t : World}

theorem inv_new (target : Target) : Inv target new :=
  ⟨identities_new target, fun _ _ found => nomatch found⟩

theorem Inv.step {e : WorldEvent} (inv : Inv target w) (bound : t.allocated < target.idRange)
    (taken : w.step target serde e = some t) : Inv target t := by
  refine ⟨inv.identities.step bound taken, ?_⟩
  intro d l present
  cases e with
  | accept c transport clientId =>
    obtain ⟨_, rfl⟩ := accept_cases taken
    rcases update_eq_some present with ⟨rfl, rfl⟩ | ⟨_, before⟩
    · exact Conn.flow_new transport clientId
    · exact inv.flow d l before
  | scan =>
    cases taken
    exact inv.flow d l present
  | feedRecv =>
    obtain ⟨_, _, rfl⟩ := Option.map_eq_some_iff.mp taken
    exact inv.flow d l present
  | feedSend =>
    obtain ⟨_, _, rfl⟩ := Option.map_eq_some_iff.mp taken
    exact inv.flow d l present
  | conn c act =>
    obtain ⟨k, server, queues, k', found, stepped, rfl⟩ := conn_cases taken
    have registered : ∀ id, k.pc.isRegistered → k.socketId = some id →
        w.server.sockets id = some c := by
      intro id phase allocated
      rw [inv.identities.registered c k id found allocated, phase]
      rfl
    obtain ⟨own, others⟩ := (inv.flow c k found).step registered stepped
    rcases update_eq_some present with ⟨rfl, rfl⟩ | ⟨other, before⟩
    · exact own
    · change l.Flow (queues d)
      rw [others d other]
      exact inv.flow d l before

theorem inv_of_run {es : List WorldEvent} (reached : run (step target serde) new es = some w)
    (bound : w.allocated < target.idRange) : Inv target w := by
  have keeps : ∀ u e v, (u.allocated < target.idRange → Inv target u) →
      step target serde u e = some v → v.allocated < target.idRange → Inv target v := by
    intro u e v kept taken later
    have := allocated_mono taken
    exact (kept (by omega)).step later taken
  exact run_invariant keeps (fun _ => inv_new target) reached bound

end World

end Dirpc
