import Dirpc.System.Replies

namespace Dirpc

open Base Base.Json

/-- The reply belongs to the request: it is one of a command that is answered, and carries the
    request's own command and nonce. -/
inductive Echoes (msg : RpcMessage) : Json → Prop
  | setActivity (command : msg.cmd = "SET_ACTIVITY") (data : Json) :
      Echoes msg (response msg data .null)
  | callback (command : msg.cmd = "CONNECTIONS_CALLBACK") :
      Echoes msg (response msg (.obj [("code", .int 1000)]) (.str "ERROR"))

theorem Echoes.fields {msg : RpcMessage} {resp : Json} (echoes : Echoes msg resp) :
    resp.get "cmd" = some (.str msg.cmd) ∧ resp.get "nonce" = some (ofOptStr msg.nonce) := by
  cases echoes <;> exact ⟨rfl, rfl⟩

theorem setActivity_echoes {msg : RpcMessage} (command : msg.cmd = "SET_ACTIVITY") (now : Nat → Int)
    (socketId : Nat) (clientId : String) : Echoes msg (setActivity now socketId clientId msg).2 := by
  unfold setActivity
  dsimp only
  split
  · exact .setActivity command _
  · exact .setActivity command _
  · exact .setActivity command _

theorem messageEffect_echoes {now : Nat → Int} {socketId : Nat} {clientId : String}
    {msg : RpcMessage} {resp : Json}
    (answered : (messageEffect now socketId clientId msg).2 = some resp) : Echoes msg resp := by
  unfold messageEffect at answered
  split at answered
  · rename_i command
    cases answered
    exact setActivity_echoes command now socketId clientId
  · split at answered
    · rename_i command
      cases answered
      exact .callback command
    · cases answered

theorem forall₂_filterMap {α β γ : Type*} {f : α → Option β} {g : α → γ} {R : γ → β → Prop}
    (related : ∀ x y, f x = some y → R (g x) y) (xs : List α) :
    ∃ zs, zs.Sublist (xs.map g) ∧ List.Forall₂ R zs (xs.filterMap f) := by
  induction xs with
  | nil => exact ⟨[], List.Sublist.refl _, .nil⟩
  | cons x xs ih =>
    obtain ⟨zs, inside, beside⟩ := ih
    cases value : f x with
    | none =>
      rw [List.filterMap_cons_none value]
      exact ⟨zs, inside.cons _, beside⟩
    | some y =>
      rw [List.filterMap_cons_some value]
      exact ⟨g x :: zs, inside.cons_cons _, .cons (related x y value) beside⟩

namespace Conn

variable {target : Target} {serde : Serde} {server server' : ServerState}
variable {queues queues' : Nat → Mpsc Json} {c : Nat} {k k' : Conn}

theorem step_written {act : Act} (flow : k.Flow (queues c))
    (before : k.writtenResponses <+: k.taken)
    (taken : k.step target serde server queues c act = some (server', queues', k')) :
    k'.writtenResponses <+: k'.taken := by
  cases act with
  | nextId =>
    obtain ⟨_, _, _, rfl⟩ := nextId_cases taken
    exact before
  | sendReady ok =>
    obtain ⟨_, _, _, rfl⟩ := sendReady_cases taken
    cases ok with
    | false => exact before
    | true =>
      have same : (k.written ++ [Outgoing.ready]).filterMap Outgoing.json? = k.writtenResponses := by
        rw [List.filterMap_append]
        exact List.append_nil _
      change (k.written ++ [Outgoing.ready]).filterMap Outgoing.json? <+: k.taken
      rwa [same]
  | registerSocket =>
    obtain ⟨_, _, _, _, _, rfl⟩ := registerSocket_cases taken
    exact before
  | receive item pongOk =>
    obtain ⟨outcome, _, _, _, _, rfl⟩ := receive_cases taken
    cases outcome with
    | pong =>
      have same : (k.written ++ if pongOk then [Outgoing.pong] else []).filterMap Outgoing.json? =
          k.writtenResponses := by
        rw [List.filterMap_append]
        cases pongOk <;> exact List.append_nil _
      change (k.written ++ if pongOk then [Outgoing.pong] else []).filterMap Outgoing.json? <+: k.taken
      rwa [same]
    | _ => exact before
  | handleMessage now =>
    obtain ⟨_, _, _, _, _, _, rfl⟩ := handleMessage_cases taken
    exact before
  | sendToSocket =>
    obtain ⟨_, _, _, _, _, _, rfl⟩ := sendToSocket_cases taken
    exact before
  | flush ok =>
    obtain ⟨_, phase, _, _, ⟨json, _, _, _, rfl⟩ | ⟨_, _, _, rfl⟩⟩ := flush_cases taken
    · cases ok with
      | false => exact before.trans (List.prefix_append ..)
      | true =>
        have all : k.writtenResponses = k.taken := flow.written (by rw [phase]; rfl)
        have more : (k.write json true).writtenResponses = (k.write json true).taken := by
          change (k.written ++ [Outgoing.response json]).filterMap Outgoing.json? = k.taken ++ [json]
          rw [List.filterMap_append, ← all]
          rfl
        exact ⟨[], (List.append_nil _).trans more⟩
    · exact before
  | unregisterSocket =>
    obtain ⟨_, _, _, _, _, rfl⟩ := unregisterSocket_cases taken
    exact before

theorem Flow.written_sublist {q : Mpsc Json} {id : Nat} (flow : k.Flow q)
    (before : k.writtenResponses <+: k.taken) (allocated : k.socketId = some id) :
    k.writtenResponses.Sublist (k.responses id) := by
  have kept : k.accepted.Sublist (k.offers.map Offer.resp) := List.filter_sublist.map _
  have offered : (k.offers.map Offer.resp).Sublist (k.responses id) :=
    (List.prefix_append _ _).sublist.trans (by rw [flow.offered id allocated])
  exact ((before.trans flow.delivered).sublist.trans kept).trans offered

end Conn

namespace World

variable {target : Target} {serde : Serde} {w t : World}

theorem written_step {e : WorldEvent} (inv : Inv target w)
    (before : ∀ c k, w.conns c = some k → k.writtenResponses <+: k.taken)
    (taken : w.step target serde e = some t) :
    ∀ c k, t.conns c = some k → k.writtenResponses <+: k.taken := by
  intro c k present
  cases e with
  | accept d transport clientId =>
    obtain ⟨_, rfl⟩ := accept_cases taken
    rcases update_eq_some present with ⟨_, rfl⟩ | ⟨_, old⟩
    · exact List.prefix_rfl
    · exact before c k old
  | scan =>
    cases taken
    exact before c k present
  | feedRecv =>
    obtain ⟨_, _, rfl⟩ := Option.map_eq_some_iff.mp taken
    exact before c k present
  | feedSend =>
    obtain ⟨_, _, rfl⟩ := Option.map_eq_some_iff.mp taken
    exact before c k present
  | conn d act =>
    obtain ⟨l, _, _, _, found, stepped, rfl⟩ := conn_cases taken
    rcases update_eq_some present with ⟨rfl, rfl⟩ | ⟨_, old⟩
    · exact Conn.step_written (inv.flow c l found) (before c l found) stepped
    · exact before c k old

theorem written_of_run {es : List WorldEvent} (reached : run (step target serde) new es = some w)
    (bound : w.allocated < target.idRange) :
    ∀ c k, w.conns c = some k → k.writtenResponses <+: k.taken := by
  have keeps : ∀ u e v, (u.allocated < target.idRange → Inv target u ∧
        ∀ c k, u.conns c = some k → k.writtenResponses <+: k.taken) →
      step target serde u e = some v → v.allocated < target.idRange → Inv target v ∧
        ∀ c k, v.conns c = some k → k.writtenResponses <+: k.taken := by
    intro u e v kept taken later
    have := allocated_mono taken
    obtain ⟨inv, written⟩ := kept (by omega)
    exact ⟨inv.step later taken, written_step inv written taken⟩
  have fresh : ∀ c k, new.conns c = some k → k.writtenResponses <+: k.taken := by
    intro c k found
    cases found
  exact (run_invariant keeps (fun _ => ⟨inv_new target, fresh⟩) reached bound).2

/-- In every run, whatever is dropped and whichever write fails: the replies that a connection has
    been written belong to requests of its own, one to each, in the order of the requests. -/
theorem replies_answer_requests {es : List WorldEvent} {c : Nat} {k : Conn}
    (reached : run (step target serde) new es = some w) (bound : w.allocated < target.idRange)
    (found : w.conns c = some k) :
    ∃ answered : List RpcMessage, answered.Sublist k.received ∧
      List.Forall₂ Echoes answered k.writtenResponses := by
  have flow := (inv_of_run reached bound).flow c k found
  have before := written_of_run reached bound c k found
  cases allocated : k.socketId with
  | none =>
    rw [flow.unassigned allocated, List.prefix_nil] at before
    exact ⟨[], List.nil_sublist _, before ▸ .nil⟩
  | some id =>
    obtain ⟨handled, inside, split⟩ :=
      List.sublist_filterMap_iff.mp (flow.written_sublist before allocated)
    have echoes : ∀ (x : RpcMessage × (Nat → Int)) resp,
        (messageEffect x.2 id k.clientId x.1).2 = some resp → Echoes x.1 resp :=
      fun _ _ answered => messageEffect_echoes answered
    obtain ⟨answered, among, beside⟩ := forall₂_filterMap echoes handled
    have received : (k.handled.map Prod.fst).Sublist k.received := by
      rw [← flow.received]
      exact List.sublist_append_left ..
    refine ⟨answered, (among.trans (inside.map _)).trans received, ?_⟩
    rw [split]
    exact beside

def halfAnswered : List WorldEvent :=
  opening 4 .ipc ++ answer 4 (.ipc (some (1, callbackText))) (fun _ => 0) ++ [.conn 4 (.flush true)] ++
    answer 4 (.ipc (some (1, callbackText))) (fun _ => 0)

theorem replies_answer_requests_once : ∃ w k,
    run (step .ptr64 callbackSerde) new halfAnswered = some w ∧ w.conns 4 = some k ∧
      k.received.length = 2 ∧ k.writtenResponses.length = 1 ∧
      ∃ answered : List RpcMessage, answered.Sublist k.received ∧
        List.Forall₂ Echoes answered k.writtenResponses := by
  let w := (run (step .ptr64 callbackSerde) new halfAnswered).getD new
  let k := (w.conns 4).getD (.new .ipc "")
  have reached : run (step .ptr64 callbackSerde) new halfAnswered = some w := rfl
  have found : w.conns 4 = some k := rfl
  exact ⟨w, k, reached, found, rfl, rfl, replies_answer_requests reached (by decide) found⟩

end World

end Dirpc
