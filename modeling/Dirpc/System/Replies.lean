import Dirpc.System.Isolation

namespace Dirpc

open Base

namespace World

variable {target : Target} {serde : Serde} {w : World} {c id : Nat} {k : Conn}

structure Serving (w : World) (c : Nat) (k : Conn) (id : Nat) : Prop where
  found : w.conns c = some k
  phase : k.pc = .looping
  allocated : k.socketId = some id
  registered : w.server.sockets id = some c
  capacity : (w.queues c).capacity = socketQueueCapacity
  live : (w.queues c).closed = false

def answer (c : Nat) (item : Inbound) (now : Nat → Int) : List WorldEvent :=
  [.conn c (.receive item true), .conn c (.handleMessage now), .conn c .sendToSocket]

theorem Serving.answer (target : Target) (now : Nat → Int) {serde : Serde} {item : Inbound}
    {msg : RpcMessage} {event : Option ActivityEvent} {resp : Json} (serving : Serving w c k id)
    (decoded : item.outcome serde k.transport = some (.message msg))
    (effect : messageEffect now id k.clientId msg = (event, some resp)) :
    ∃ t k', run (step target serde) w (answer c item now) = some t ∧ Serving t c k' id ∧
      k'.transport = k.transport ∧ k'.clientId = k.clientId ∧ k'.written = k.written ∧
      k'.responses id = k.responses id ++ [resp] ∧
      (t.queues c).queue = (w.queues c).queue ++
        (if (w.queues c).queue.length < socketQueueCapacity then [resp] else []) ∧
      t.server = event.elim w.server w.server.sendActivity ∧ t.bridge = w.bridge ∧
      ∀ d, d ≠ c → t.conns d = w.conns d := by
  obtain ⟨found, phase, allocated, registered, capacity, live⟩ := serving
  let server := event.elim w.server w.server.sendActivity
  let k₁ : Conn := { k with pc := .handling msg, received := k.received ++ [msg] }
  let k₂ : Conn := { k₁ with pc := .replying resp, handled := k.handled ++ [(msg, now)] }
  let k₃ : Conn := { k₂ with
    pc := .looping, offers := k.offers ++ [⟨resp, (w.queues c).queue.length⟩] }
  have effective : w.server.handleMessage now id k.clientId msg = (server, some resp) := by
    rw [ServerState.handleMessage, effect]
  have registered' : server.sockets id = some c := by
    cases event <;> exact registered
  have read : k.step target serde w.server w.queues c (.receive item true) =
      some (w.server, w.queues, k₁) := by
    simp [Conn.step, phase, decoded, Conn.receive, k₁]
  have handled : k₁.step target serde w.server w.queues c (.handleMessage now) =
      some (server, w.queues, k₂) := by
    simp [Conn.step, k₁, k₂, allocated, effective]
  have sent : k₂.step target serde server w.queues c .sendToSocket =
      some (server, Function.update w.queues c ((w.queues c).trySend resp).2, k₃) := by
    simp [Conn.step, k₁, k₂, k₃, allocated, ServerState.sendToSocket_registered registered']
  let w₁ := w.setConn c (.receive item true) (w.server, w.queues, k₁)
  let w₂ := w₁.setConn c (.handleMessage now) (server, w.queues, k₂)
  let w₃ := w₂.setConn c .sendToSocket
    (server, Function.update w.queues c ((w.queues c).trySend resp).2, k₃)
  have first : w.step target serde (.conn c (.receive item true)) = some w₁ := conn_step found read
  have second : w₁.step target serde (.conn c (.handleMessage now)) = some w₂ :=
    conn_step (Function.update_self ..) handled
  have third : w₂.step target serde (.conn c .sendToSocket) = some w₃ :=
    conn_step (Function.update_self ..) sent
  have queue : w₃.queues c = ((w.queues c).trySend resp).2 := Function.update_self ..
  refine ⟨w₃, k₃, ?_, ⟨Function.update_self .., rfl, allocated, registered', ?_, ?_⟩,
    rfl, rfl, rfl, ?_, ?_, rfl, rfl, ?_⟩
  · simp only [World.answer, run, first, second, third, Option.bind_some]
  · rw [queue, Mpsc.trySend_capacity, capacity]
  · rw [queue, Mpsc.trySend_closed, live]
  · simp [Conn.responses, k₁, k₂, k₃, effect]
  · simp [queue, Mpsc.trySend_queue, live, capacity]
  · intro d other
    simp only [w₃, w₂, w₁, setConn, Function.update_of_ne other]

def answers (c : Nat) (item : Inbound) (now : Nat → Int) : Nat → List WorldEvent
  | 0 => []
  | n + 1 => answer c item now ++ answers c item now n

theorem Serving.answers (target : Target) (now : Nat → Int) {serde : Serde} {item : Inbound}
    {msg : RpcMessage} {resp : Json} {n : Nat} (serving : Serving w c k id)
    (decoded : item.outcome serde k.transport = some (.message msg))
    (effect : (messageEffect now id k.clientId msg).2 = some resp)
    (room : (w.queues c).queue.length + n ≤ socketQueueCapacity) :
    ∃ t k', run (step target serde) w (answers c item now n) = some t ∧ Serving t c k' id ∧
      k'.transport = k.transport ∧ k'.clientId = k.clientId ∧ k'.written = k.written ∧
      k'.responses id = k.responses id ++ List.replicate n resp ∧
      (t.queues c).queue = (w.queues c).queue ++ List.replicate n resp := by
  induction n generalizing w k with
  | zero => exact ⟨w, k, rfl, serving, rfl, rfl, rfl, by simp, by simp⟩
  | succ n ih =>
    obtain ⟨t, k₁, taken, serving₁, transport, clientId, written, responses, queue, _⟩ :=
      serving.answer target now decoded (Prod.ext rfl effect)
    rw [if_pos (by omega)] at queue
    have length := congrArg List.length queue
    rw [List.length_append, List.length_singleton] at length
    obtain ⟨u, k₂, rest, serving₂, transport', clientId', written', responses', queue'⟩ :=
      ih serving₁ (transport ▸ decoded) (clientId ▸ effect) (by omega)
    refine ⟨u, k₂, run_append_eq_some.mpr ⟨t, taken, rest⟩, serving₂,
      transport'.trans transport, clientId'.trans clientId, written'.trans written, ?_, ?_⟩
    · rw [responses', responses, List.append_assoc, List.singleton_append, ← List.replicate_succ]
    · rw [queue', queue, List.append_assoc, List.singleton_append, ← List.replicate_succ]

theorem mem_answers {item : Inbound} {now : Nat → Int} {n : Nat} {e : WorldEvent}
    (member : e ∈ answers c item now n) : e ∈ answer c item now := by
  induction n with
  | zero => cases member
  | succ n ih =>
    rcases List.mem_append.mp member with first | rest
    · exact first
    · exact ih rest

/-- On an open connection a response is about to be given to `send_to_socket` or has been. Of
    those, the ones that found the queue full were dropped and the others were written or are
    still queued. -/
theorem replies_kept_unless_full {es : List WorldEvent}
    (reached : run (step target serde) new es = some w) (bound : w.allocated < target.idRange)
    (found : w.conns c = some k) (allocated : k.socketId = some id) (isOpen : k.pc.isOpen) :
    k.offers.map Offer.resp ++ k.pc.unsent = k.responses id ∧
      (∀ offer ∈ k.offers, offer.queued ≤ socketQueueCapacity) ∧
      k.writtenResponses ++ (w.queues c).queue =
        (k.offers.filter fun offer => offer.queued ≠ socketQueueCapacity).map Offer.resp := by
  have flow := (inv_of_run reached bound).flow c k found
  refine ⟨flow.offered id allocated, flow.counted, ?_⟩
  have registered : k.pc.isRegistered := by
    cases phase : k.pc <;> simp_all [Pc.isOpen, Pc.isRegistered]
  rw [flow.written isOpen, (flow.queue registered).1, Conn.accepted]
  congr 1
  apply List.filter_congr
  intro offer member
  have := flow.counted offer member
  simp only [decide_eq_decide]
  omega

theorem replies_kept_unless_full_once :
    ∃ w k, run (step .ptr64 callbackSerde) new (opening 4 .ipc ++
        answer 4 (.ipc (some (1, callbackText))) (fun _ => 0) ++ [.conn 4 (.flush true)] ++
        answer 4 (.ipc (some (1, callbackText))) (fun _ => 0)) = some w ∧
      w.allocated < Target.idRange .ptr64 ∧ w.conns 4 = some k ∧ k.socketId = some 1 ∧
      k.pc.isOpen ∧ k.writtenResponses ++ (w.queues 4).queue =
        (k.offers.filter fun offer => offer.queued ≠ socketQueueCapacity).map Offer.resp := by
  have reached : run (step .ptr64 callbackSerde) new (opening 4 .ipc ++
      answer 4 (.ipc (some (1, callbackText))) (fun _ => 0) ++ [.conn 4 (.flush true)] ++
      answer 4 (.ipc (some (1, callbackText))) (fun _ => 0)) = some _ := rfl
  exact ⟨_, _, reached, by decide, rfl, rfl, rfl,
    (replies_kept_unless_full reached (by decide) rfl rfl rfl).2.2⟩

end World

def numberedText : List UInt8 := utf8 "\x7b\"cmd\":\"CONNECTIONS_CALLBACK\",\"nonce\":\"129\"\x7d"

def numbered : RpcMessage := { cmd := "CONNECTIONS_CALLBACK", nonce := some "129" }

def pipelineSerde : Serde := .table [] [(callbackText, callback), (numberedText, numbered)]

namespace World

theorem opening_serving : ∃ w k, run (step .ptr64 pipelineSerde) new (opening 0 .webSocket) = some w ∧
    Serving w 0 k 1 ∧ (w.queues 0).queue = [] ∧ k.transport = .webSocket ∧ k.written = [.ready] := by
  have reached : run (step .ptr64 pipelineSerde) new (opening 0 .webSocket) = some _ := rfl
  exact ⟨_, _, reached, ⟨rfl, rfl, rfl, rfl, rfl, rfl⟩, rfl, rfl, rfl⟩

/-- A client pipelines 129 requests and the inbound branch is taken every time: the last response
    is neither written nor queued. -/
theorem pipelined_reply_dropped :
    ∃ es w k resp, run (step .ptr64 pipelineSerde) new es = some w ∧
      (∀ c, .conn c (.flush false) ∉ es) ∧ w.conns 0 = some k ∧ k.socketId = some 1 ∧
      k.pc.isOpen ∧ resp ∈ k.responses 1 ∧
      resp ∉ k.writtenResponses ++ (w.queues 0).queue := by
  have decoded : Inbound.outcome pipelineSerde .webSocket (.webSocket (.text callbackText)) =
      some (.message callback) := rfl
  have decoded' : Inbound.outcome pipelineSerde .webSocket (.webSocket (.text numberedText)) =
      some (.message numbered) := rfl
  let now : Nat → Int := fun _ => 0
  obtain ⟨w, k, opened, serving, empty, transport, written⟩ := opening_serving
  obtain ⟨w₁, k₁, filled, serving₁, transport₁, _, written₁, _, queue₁⟩ :=
    serving.answers .ptr64 now (n := 128) (transport ▸ decoded) rfl
      (by rw [empty]; exact Nat.le_refl _)
  obtain ⟨w₂, k₂, last, serving₂, _, _, written₂, responses₂, queue₂, _⟩ :=
    serving₁.answer .ptr64 now (transport₁ ▸ transport ▸ decoded') rfl
  refine ⟨_, w₂, k₂, response numbered (.obj [("code", .int 1000)]) (.str "ERROR"),
    run_append_eq_some.mpr ⟨w, opened, run_append_eq_some.mpr ⟨w₁, filled, last⟩⟩, ?_,
    serving₂.found, serving₂.allocated, ?_, ?_, ?_⟩
  · intro c member
    simp only [List.mem_append] at member
    rcases member with member | member | member
    · simp [opening] at member
    · simpa [answer] using mem_answers member
    · simp [answer] at member
  · rw [serving₂.phase]
    rfl
  · simp [responses₂]
  · have full : (w₁.queues 0).queue.length = socketQueueCapacity := by
      rw [queue₁, empty, List.nil_append, List.length_replicate]
      rfl
    have quiet : k₂.writtenResponses = [] := by
      rw [Conn.writtenResponses, written₂, written₁, written]
      rfl
    rw [quiet, queue₂, full, queue₁, empty]
    simp [response, numbered, callback, Json.ofOptStr]

end World

end Dirpc
