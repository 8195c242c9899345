import Dirpc.System.Isolation
import Dirpc.Transports.Frame

namespace Dirpc

open Base

/-- The task of IPC connection `c` in its main loop, over the world it shares: the bytes waiting in
    the socket and whether the client has closed it, the `read_frame` future of the current
    `select!`, the frames read so far, and all bytes that have arrived since the handshake. -/
structure IpcTask where
  world : World
  arrived : List UInt8
  eof : Bool
  fut : ReadFrame
  results : List Frame
  received : List UInt8

inductive IpcEvent where
  | arrive (bytes : List UInt8)
  | hangUp
  | offer (msg : Json)
  | select (readFirst ok : Bool)
  | own (act : Act)
  | other (e : WorldEvent)

def Act.isHandler : Act → Bool
  | .handleMessage _ | .sendToSocket | .unregisterSocket => true
  | _ => false

namespace IpcTask

def start (w : World) : IpcTask := ⟨w, [], false, .inHeader [], [], []⟩

def outboundReady (c id : Nat) (w : World) : Bool :=
  !(w.queues c).queue.isEmpty || w.server.sockets id != some c

variable (target : Target) (serde : Serde) (c : Nat)

/-- The outbound branch completes: its handler runs, and the read future is dropped with whatever
    it has taken from the socket. -/
def outbound (ok : Bool) (s : IpcTask) : Option IpcTask :=
  (s.world.step target serde (.conn c (.flush ok))).map fun w =>
    { s with world := w, fut := .inHeader [] }

def inbound (ok : Bool) (result : Option Frame) (s : IpcTask) : Option IpcTask :=
  (s.world.step target serde (.conn c (.receive (.ipc result) ok))).map fun w =>
    { s with world := w, results := s.results ++ result.toList }

/-- One poll of the `select!`, which polls its branches in either order and runs the handler of the
    first one that is ready. -/
def select (id : Nat) (readFirst ok : Bool) (s : IpcTask) : Option IpcTask :=
  if !readFirst && outboundReady c id s.world then s.outbound target serde c ok
  else
    let (result, fut, rest) := s.fut.poll s.arrived s.eof
    let s := { s with fut := fut, arrived := rest }
    match result with
    | .ok frame => s.inbound target serde c ok (some frame)
    | .err => s.inbound target serde c ok none
    | .pending => if outboundReady c id s.world then s.outbound target serde c ok else some s

def step (s : IpcTask) : IpcEvent → Option IpcTask
  | .arrive bytes =>
    if s.eof then none
    else some { s with arrived := s.arrived ++ bytes, received := s.received ++ bytes }
  | .hangUp => some { s with eof := true }
  | .offer msg => (s.world.conns c).bind fun k => k.socketId.map fun id =>
    { s with world := { s.world with
      queues := s.world.server.sendToSocket s.world.queues id msg } }
  | .select readFirst ok => (s.world.conns c).bind fun k => match k.pc, k.socketId with
    | .looping, some id => s.select target serde c id readFirst ok
    | _, _ => none
  | .own act =>
    if act.isHandler then
      (s.world.step target serde (.conn c act)).map fun w => { s with world := w }
    else none
  | .other e => match e with
    | .conn d _ =>
      if d = c then none else (s.world.step target serde e).map fun w => { s with world := w }
    | _ => (s.world.step target serde e).map fun w => { s with world := w }

/-- The read future may be dropped: when the outbound branch is ready, the future holds no bytes,
    and a poll that reads first finds no bytes, a whole frame, or the end of the stream. -/
def DropsNothing (s : IpcTask) : IpcEvent → Prop
  | .select readFirst _ => ∀ k id, s.world.conns c = some k → k.socketId = some id →
    outboundReady c id s.world →
      if readFirst then
        s.fut.taken ++ s.arrived = [] ∨ HasFrame (s.fut.taken ++ s.arrived) ∨ s.eof
      else s.fut.taken = []
  | _ => True

structure Intact (s : IpcTask) : Prop where
  partialRead : s.fut.Partial
  valid : ∀ frame ∈ s.results, frame.Valid
  conserved : wire s.results ++ (s.fut.taken ++ s.arrived) = s.received

variable {target serde c} {s t : IpcTask}

theorem intact_start (w : World) : (start w).Intact := by
  refine ⟨ReadFrame.partial_fresh, ?_, rfl⟩
  intro frame member
  cases member

theorem outbound_cases {ok : Bool} (taken : s.outbound target serde c ok = some t) :
    ∃ w, t = { s with world := w, fut := .inHeader [] } := by
  obtain ⟨w, _, rfl⟩ := Option.map_eq_some_iff.mp taken
  exact ⟨w, rfl⟩

theorem inbound_cases {ok : Bool} {result : Option Frame}
    (taken : s.inbound target serde c ok result = some t) :
    ∃ w, t = { s with world := w, results := s.results ++ result.toList } := by
  obtain ⟨w, _, rfl⟩ := Option.map_eq_some_iff.mp taken
  exact ⟨w, rfl⟩

theorem Intact.outbound {ok : Bool} (intact : s.Intact) (empty : s.fut.taken = [])
    (taken : s.outbound target serde c ok = some t) : t.Intact := by
  obtain ⟨w, rfl⟩ := outbound_cases taken
  refine ⟨ReadFrame.partial_fresh, intact.valid, ?_⟩
  have conserved := intact.conserved
  rwa [empty] at conserved

theorem Intact.poll (intact : s.Intact) {result : PollRead} {fut : ReadFrame} {rest : List UInt8}
    (polled : s.fut.poll s.arrived s.eof = (result, fut, rest)) :
    (∃ frame, result = .ok frame ∧ HasFrame (s.fut.taken ++ s.arrived) ∧
        Intact { s with fut := fut, arrived := rest, results := s.results ++ [frame] }) ∨
      (¬HasFrame (s.fut.taken ++ s.arrived) ∧ result = (if s.eof then .err else .pending) ∧
        fut.taken = s.fut.taken ++ s.arrived ∧ Intact { s with fut := fut, arrived := rest }) := by
  rw [ReadFrame.poll_eq intact.partialRead] at polled
  have conserved := intact.conserved
  by_cases found : HasFrame (s.fut.taken ++ s.arrived)
  · obtain ⟨frame, more, read, valid, split⟩ := readAll_frame found s.eof
    cases read.symm.trans polled
    refine .inl ⟨frame, rfl, found, ReadFrame.partial_fresh, ?_, ?_⟩
    · intro other member
      rcases List.mem_append.mp member with before | last
      · exact intact.valid other before
      · rw [List.mem_singleton.mp last]
        exact valid
    · rw [← conserved, ← split]
      simp only [wire_concat, ReadFrame.taken, List.nil_append, List.append_assoc]
  · obtain ⟨left, read, partialRead, holds⟩ := readAll_partial found s.eof
    cases read.symm.trans polled
    refine .inr ⟨found, rfl, holds, partialRead, intact.valid, ?_⟩
    rw [← conserved, holds, List.append_nil]

theorem Intact.select {id : Nat} {readFirst ok : Bool} (intact : s.Intact)
    (safe : outboundReady c id s.world → if readFirst then
        s.fut.taken ++ s.arrived = [] ∨ HasFrame (s.fut.taken ++ s.arrived) ∨ s.eof
      else s.fut.taken = [])
    (taken : s.select target serde c id readFirst ok = some t) : t.Intact := by
  unfold IpcTask.select at taken
  split at taken
  · rename_i dropped
    simp only [Bool.and_eq_true, Bool.not_eq_true'] at dropped
    have empty := safe dropped.2
    rw [dropped.1] at empty
    exact intact.outbound empty taken
  · rename_i reads
    cases polled : s.fut.poll s.arrived s.eof with
    | mk result left =>
      obtain ⟨fut, rest⟩ := left
      rw [polled] at taken
      rcases intact.poll polled with ⟨frame, rfl, _, next⟩ | ⟨none, rfl, holds, next⟩
      · obtain ⟨w, rfl⟩ := inbound_cases taken
        exact ⟨next.partialRead, next.valid, next.conserved⟩
      · by_cases closed : s.eof
        · rw [if_pos closed] at taken
          obtain ⟨w, rfl⟩ := inbound_cases taken
          refine ⟨next.partialRead, ?_, ?_⟩
          · simpa using next.valid
          · simpa using next.conserved
        · rw [if_neg closed] at taken
          dsimp only at taken
          split at taken
          · rename_i ready
            refine next.outbound ?_ taken
            have safe := safe ready
            cases readFirst with
            | true =>
              rcases safe with empty | found | ended
              · exact holds.trans empty
              · exact absurd found none
              · exact absurd ended closed
            | false => exact absurd ready (by simpa using reads)
          · cases taken
            exact next

theorem Intact.step {e : IpcEvent} (intact : s.Intact) (safe : DropsNothing c s e)
    (taken : s.step target serde c e = some t) : t.Intact := by
  cases e with
  | arrive bytes =>
    simp only [IpcTask.step, Option.ite_none_left_eq_some, Option.some.injEq] at taken
    obtain ⟨_, rfl⟩ := taken
    refine ⟨intact.partialRead, intact.valid, ?_⟩
    have conserved := intact.conserved
    simp only [← conserved, List.append_assoc]
  | hangUp =>
    cases taken
    exact ⟨intact.partialRead, intact.valid, intact.conserved⟩
  | offer msg =>
    obtain ⟨k, _, rest⟩ := Option.bind_eq_some_iff.mp taken
    obtain ⟨id, _, rfl⟩ := Option.map_eq_some_iff.mp rest
    exact ⟨intact.partialRead, intact.valid, intact.conserved⟩
  | select readFirst ok =>
    obtain ⟨k, found, rest⟩ := Option.bind_eq_some_iff.mp taken
    split at rest
    · rename_i id _ allocated
      exact intact.select (safe k id found allocated) rest
    · cases rest
  | own act =>
    simp only [IpcTask.step, Option.ite_none_right_eq_some, Option.map_eq_some_iff] at taken
    obtain ⟨_, w, _, rfl⟩ := taken
    exact ⟨intact.partialRead, intact.valid, intact.conserved⟩
  | other e =>
    have kept : ∃ w, t = { s with world := w } := by
      simp only [IpcTask.step] at taken
      split at taken
      · obtain ⟨_, rest⟩ := Option.ite_none_left_eq_some.mp taken
        obtain ⟨w, _, rfl⟩ := Option.map_eq_some_iff.mp rest
        exact ⟨w, rfl⟩
      · obtain ⟨w, _, rfl⟩ := Option.map_eq_some_iff.mp taken
        exact ⟨w, rfl⟩
    obtain ⟨w, rfl⟩ := kept
    exact ⟨intact.partialRead, intact.valid, intact.conserved⟩

/-- When no read future with bytes in it is dropped, the frames read are the client's, in order,
    and the bytes that have arrived are those of these frames, of the read in progress, and those
    still waiting. -/
theorem results_in_order {w : World} {es : List IpcEvent} {frames : List Frame}
    (reached : run (step target serde c) (start w) es = some s)
    (safe : Meets (step target serde c) (DropsNothing c) (start w) es)
    (valid : ∀ frame ∈ frames, frame.Valid) (sent : s.received <+: wire frames) :
    s.results <+: frames ∧ wire s.results ++ (s.fut.taken ++ s.arrived) = s.received := by
  have intact : s.Intact :=
    run_invariant_of_meets (fun _ _ _ => Intact.step) safe (intact_start w) reached
  have prefixed := sent
  rw [← intact.conserved] at prefixed
  exact ⟨prefix_wire intact.valid valid prefixed, intact.conserved⟩

def answered : List IpcEvent :=
  [.arrive (encode 1 callbackText), .select true true, .own (.handleMessage fun _ => 0),
    .own .sendToSocket]

def looping : World := (run (World.step .ptr64 callbackSerde) .new (opening 0 .ipc)).getD .new

theorem results_in_order_answered :
    run (World.step .ptr64 callbackSerde) .new (opening 0 .ipc) = some looping ∧
      ∃ s, run (step .ptr64 callbackSerde 0) (start looping)
          (answered ++ [.select false true]) = some s ∧
        Meets (step .ptr64 callbackSerde 0) (DropsNothing 0) (start looping)
          (answered ++ [.select false true]) ∧
        s.received <+: wire [(1, callbackText), (3, [])] ∧
        s.results <+: [(1, callbackText), (3, [])] := by
  have reached : run (step .ptr64 callbackSerde 0) (start looping)
      (answered ++ [.select false true]) = some _ := rfl
  have safe : Meets (step .ptr64 callbackSerde 0) (DropsNothing 0) (start looping)
      (answered ++ [.select false true]) :=
    meets_cons rfl trivial (meets_cons rfl (fun _ _ _ _ _ => .inr (.inl (by decide)))
      (meets_cons rfl trivial (meets_cons rfl trivial (meets_cons rfl (fun _ _ _ _ _ => rfl)
        trivial))))
  have valid : ∀ frame ∈ ([(1, callbackText), (3, [])] : List Frame), frame.Valid := by
    intro frame member
    simp only [List.mem_cons, List.not_mem_nil, or_false] at member
    rcases member with rfl | rfl
    · exact ⟨by decide, by decide, by decide⟩
    · exact ⟨by decide, by decide, by decide⟩
  have sent : encode 1 callbackText <+: wire [(1, callbackText), (3, [])] := by
    rw [wire_cons]
    exact List.prefix_append ..
  exact ⟨rfl, _, reached, safe, sent, (results_in_order reached safe valid sent).1⟩

theorem partial_header_dropped :
    run (World.step .ptr64 callbackSerde) .new (opening 0 .ipc) = some looping ∧
      ∃ es s frames, run (step .ptr64 callbackSerde 0) (start looping) es = some s ∧
        (∀ frame ∈ frames, frame.Valid) ∧ s.received <+: wire frames ∧
        ¬s.results <+: frames := by
  have reached : run (step .ptr64 callbackSerde 0) (start looping)
      (answered ++ [.arrive ((encode 3 []).take 4), .select true true,
        .arrive ((encode 3 []).drop 4 ++ encode 3 []), .select true true]) = some _ := rfl
  refine ⟨rfl, _, _, [(1, callbackText), (3, []), (3, [])], reached, ?_, ?_, ?_⟩
  · intro frame member
    simp only [List.mem_cons, List.not_mem_nil, or_false] at member
    rcases member with rfl | rfl | rfl
    · exact ⟨by decide, by decide, by decide⟩
    · exact ⟨by decide, by decide, by decide⟩
    · exact ⟨by decide, by decide, by decide⟩
  · exact ⟨[], rfl⟩
  · decide

end IpcTask

end Dirpc
