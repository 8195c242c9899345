import Dirpc.System.Ghosts

namespace Dirpc

open Base

theorem Conn.step_named {target : Target} {serde : Serde} {server server' : ServerState}
    {queues queues' : Nat → Mpsc Json} {c : Nat} {k k' : Conn} {act : Act}
    (taken : k.step target serde server queues c act = some (server', queues', k')) :
    k'.pc ≠ .connected ∧ (k.pc ≠ .connected → k'.socketId = k.socketId) := by
  cases act with
  | nextId =>
    obtain ⟨phase, _, _, rfl⟩ := nextId_cases taken
    exact ⟨Pc.noConfusion, fun later => absurd phase later⟩
  | sendReady ok =>
    obtain ⟨_, _, _, rfl⟩ := sendReady_cases taken
    cases ok <;> exact ⟨Pc.noConfusion, fun _ => rfl⟩
  | registerSocket =>
    obtain ⟨_, _, _, _, _, rfl⟩ := registerSocket_cases taken
    exact ⟨Pc.noConfusion, fun _ => rfl⟩
  | receive item pongOk =>
    obtain ⟨outcome, phase, _, _, _, rfl⟩ := receive_cases taken
    cases outcome <;> simp [receive, phase]
  | handleMessage now =>
    obtain ⟨msg, id, _, _, _, _, rfl⟩ := handleMessage_cases taken
    cases (messageEffect now id k.clientId msg).2 <;> exact ⟨Pc.noConfusion, fun _ => rfl⟩
  | sendToSocket =>
    obtain ⟨_, _, _, _, _, _, rfl⟩ := sendToSocket_cases taken
    exact ⟨Pc.noConfusion, fun _ => rfl⟩
  | flush ok =>
    obtain ⟨_, phase, _, _, ⟨_, _, _, _, rfl⟩ | ⟨_, _, _, rfl⟩⟩ := flush_cases taken
    · cases ok <;> simp [write, phase]
    · exact ⟨Pc.noConfusion, fun _ => rfl⟩
  | unregisterSocket =>
    obtain ⟨_, _, _, _, _, rfl⟩ := unregisterSocket_cases taken
    exact ⟨Pc.noConfusion, fun _ => rfl⟩

namespace World

variable {target : Target} {serde : Serde} {w t : World}

def HasId (w : World) (c id : Nat) : Prop := ∃ k, w.conns c = some k ∧ k.socketId = some id

/-- What is kept under an id is kept for a connection that has it. -/
structure Owned (w : World) : Prop where
  unnamed : ∀ c k, w.conns c = some k → k.pc = .connected → k.socketId = none
  sockets : ∀ id c, w.server.sockets id = some c → w.HasId c id
  events : ∀ event ∈ w.server.activityTx.log, event.socketId ≠ 0 → ∃ c, w.HasId c event.socketId

theorem owned_new : Owned new := by
  refine ⟨?_, ?_, ?_⟩
  · intro c k found
    cases found
  · intro id c found
    cases found
  · intro event member
    cases member

theorem Owned.hasId {e : WorldEvent} {c id : Nat} (owned : Owned w)
    (taken : w.step target serde e = some t) (has : w.HasId c id) : t.HasId c id := by
  obtain ⟨k, found, named⟩ := has
  cases e with
  | accept d transport clientId =>
    obtain ⟨vacant, rfl⟩ := accept_cases taken
    have other : c ≠ d := by
      rintro rfl
      rw [vacant] at found
      cases found
    exact ⟨k, (Function.update_of_ne other ..).trans found, named⟩
  | scan =>
    cases taken
    exact ⟨k, found, named⟩
  | feedRecv =>
    obtain ⟨_, _, rfl⟩ := Option.map_eq_some_iff.mp taken
    exact ⟨k, found, named⟩
  | feedSend =>
    obtain ⟨_, _, rfl⟩ := Option.map_eq_some_iff.mp taken
    exact ⟨k, found, named⟩
  | conn d act =>
    obtain ⟨l, server, queues, l', present, stepped, rfl⟩ := conn_cases taken
    by_cases same : c = d
    · subst same
      obtain rfl := Option.some.inj (found.symm.trans present)
      have later : k.pc ≠ .connected := by
        intro first
        rw [owned.unnamed c k found first] at named
        cases named
      exact ⟨l', Function.update_self .., ((Conn.step_named stepped).2 later).trans named⟩
    · exact ⟨k, (Function.update_of_ne same ..).trans found, named⟩

theorem sockets_cases {e : WorldEvent} {id c : Nat} (taken : w.step target serde e = some t)
    (entry : t.server.sockets id = some c) : w.server.sockets id = some c ∨ t.HasId c id := by
  cases e with
  | accept =>
    obtain ⟨_, rfl⟩ := accept_cases taken
    exact .inl entry
  | scan =>
    cases taken
    rw [ServerState.handleMessage_sockets] at entry
    exact .inl entry
  | feedRecv =>
    obtain ⟨_, _, rfl⟩ := Option.map_eq_some_iff.mp taken
    exact .inl entry
  | feedSend =>
    obtain ⟨_, _, rfl⟩ := Option.map_eq_some_iff.mp taken
    exact .inl entry
  | conn d act =>
    obtain ⟨k, server, queues, k', found, stepped, rfl⟩ := conn_cases taken
    change server.sockets id = some c at entry
    cases act with
    | nextId =>
      obtain ⟨_, rfl, _⟩ := Conn.nextId_cases stepped
      exact .inl entry
    | sendReady =>
      obtain ⟨_, rfl, _⟩ := Conn.sendReady_cases stepped
      exact .inl entry
    | registerSocket =>
      obtain ⟨own, _, named, rfl, _, rfl⟩ := Conn.registerSocket_cases stepped
      rw [ServerState.registerSocket_sockets] at entry
      by_cases same : id = own
      · subst same
        rw [Function.update_self] at entry
        obtain rfl := Option.some.inj entry
        exact .inr ⟨_, Function.update_self .., named⟩
      · rw [Function.update_of_ne same] at entry
        exact .inl entry
    | receive =>
      obtain ⟨_, _, _, rfl, _⟩ := Conn.receive_cases stepped
      exact .inl entry
    | handleMessage =>
      obtain ⟨_, _, _, _, rfl, _⟩ := Conn.handleMessage_cases stepped
      rw [ServerState.handleMessage_sockets] at entry
      exact .inl entry
    | sendToSocket =>
      obtain ⟨_, _, _, _, rfl, _⟩ := Conn.sendToSocket_cases stepped
      exact .inl entry
    | flush =>
      obtain ⟨_, _, _, rfl, _⟩ := Conn.flush_cases stepped
      exact .inl entry
    | unregisterSocket =>
      obtain ⟨own, _, _, rfl, _⟩ := Conn.unregisterSocket_cases stepped
      rw [ServerState.unregisterSocket_sockets] at entry
      by_cases same : id = own
      · subst same
        rw [Function.update_self] at entry
        cases entry
      · rw [Function.update_of_ne same] at entry
        exact .inl entry

theorem Owned.step {e : WorldEvent} (owned : Owned w) (taken : w.step target serde e = some t) :
    Owned t := by
  refine ⟨?_, ?_, ?_⟩
  · intro d l present first
    rcases conns_cases taken present with fresh | ⟨_, _, _, _, _, _, stepped⟩ | ⟨before, _⟩
    · exact fresh
    · exact absurd first (Conn.step_named stepped).1
    · exact owned.unnamed d l before first
  · intro id c entry
    rcases sockets_cases taken entry with before | registered
    · exact owned.hasId taken (owned.sockets id c before)
    · exact registered
  · intro event member foreign
    rw [step_log taken, List.mem_append, Option.mem_toList] at member
    rcases member with before | sent
    · obtain ⟨c, has⟩ := owned.events event before foreign
      exact ⟨c, owned.hasId taken has⟩
    · rcases emitted_cases sent with scanner | ⟨c, _, k, _, found, own⟩
      · exact absurd scanner foreign
      · exact ⟨c, owned.hasId taken ⟨k, found, own⟩⟩

theorem identities_of_run {es : List WorldEvent} (reached : run (step target serde) new es = some w)
    (bound : w.allocated < target.idRange) : Identities target w := by
  have keeps : ∀ u e v, (u.allocated < target.idRange → Identities target u) →
      step target serde u e = some v → v.allocated < target.idRange → Identities target v := by
    intro u e v kept taken later
    have := allocated_mono taken
    exact (kept (by omega)).step later taken
  exact run_invariant keeps (fun _ => identities_new target) reached bound

theorem registered_of_shown (owned : Owned w) (ids : Identities target w) (traces : Traces w)
    {id : Nat} (foreign : id ≠ 0)
    (shown : replay (fun _ => none) (w.server.activityTx.log.map eventUpdate) id ≠ none) :
    ∃ c, w.server.sockets id = some c := by
  obtain ⟨event, member, rfl⟩ : ∃ event ∈ w.server.activityTx.log, event.socketId = id := by
    by_contra absent
    push Not at absent
    apply shown
    apply replay_of_untouched
    intro update member
    obtain ⟨event, sent, rfl⟩ := List.mem_map.mp member
    exact absent event sent
  obtain ⟨c, k, found, named⟩ := owned.events event member foreign
  have entry := ids.registered c k event.socketId found named
  have opened : ¬k.pc.isOpening := fun opening =>
    traces.silent c k event.socketId found named opening event member rfl
  have unclosed : k.pc ≠ .closed := fun closed =>
    shown (traces.cleared c k event.socketId found named closed)
  refine ⟨c, entry.trans (if_pos ?_)⟩
  cases phase : k.pc with
  | closed => exact absurd phase unclosed
  | connected | allocated | ready => simp [phase, Pc.isOpening] at opened
  | _ => rfl

/-- In every run, the socket map holds exactly the connections between their registration and their
    end, each under its own id; and once the feed, which nothing was lost for, has read everything,
    the bridge keeps messages of such connections and of the scanner only. -/
theorem nothing_left_behind {es : List WorldEvent} (reached : run (step target serde) new es = some w)
    (bound : w.allocated < target.idRange) :
    (∀ id c, w.server.sockets id = some c ↔
        ∃ k, w.conns c = some k ∧ k.socketId = some id ∧ k.pc.isRegistered) ∧
      (Meets (step target serde) NoLoss new es →
        w.bridge.feedNext = w.server.activityTx.log.length → ∀ id, w.bridge.lastMsgs id ≠ none →
          id = 0 ∨ ∃ c, w.server.sockets id = some c) := by
  have owned : Owned w := run_invariant (fun _ _ _ owned taken => owned.step taken) owned_new reached
  have ids := identities_of_run reached bound
  refine ⟨?_, ?_⟩
  · intro id c
    constructor
    · intro entry
      obtain ⟨k, found, named⟩ := owned.sockets id c entry
      refine ⟨k, found, named, ?_⟩
      by_contra unregistered
      rw [ids.registered c k id found named, if_neg unregistered] at entry
      cases entry
    · intro assumed
      obtain ⟨k, found, named, registered⟩ := assumed
      exact (ids.registered c k id found named).trans (if_pos registered)
  · intro noLoss drained id kept
    have follows : w.bridge.Follows w.server.activityTx :=
      run_invariant_of_meets (fun _ _ _ => follows_step) noLoss (BridgeState.follows_new rfl) reached
    rw [follows.drained drained] at kept
    by_cases scanner : id = 0
    · exact .inl scanner
    · exact .inr (registered_of_shown owned ids (traces_of_run reached bound) scanner kept)

theorem nothing_left_behind_closed : ∃ w,
    run (step .ptr64 activitySerde) new (shownThenClosed ++ drain 1) = some w ∧
      (∀ id c, w.server.sockets id = some c ↔
        ∃ k, w.conns c = some k ∧ k.socketId = some id ∧ k.pc.isRegistered) ∧
      w.server.sockets 2 = some 1 ∧
      ∀ id, w.bridge.lastMsgs id ≠ none → id = 0 ∨ ∃ c, w.server.sockets id = some c := by
  have reached : run (step .ptr64 activitySerde) new (shownThenClosed ++ drain 1) = some _ := rfl
  have noLoss : Meets (step .ptr64 activitySerde) NoLoss new (shownThenClosed ++ drain 1) :=
    meets_noLoss_of_short (by decide)
  obtain ⟨entries, kept⟩ := nothing_left_behind reached (by decide)
  exact ⟨_, reached, entries, rfl, kept noLoss rfl⟩

end World

end Dirpc
