import Dirpc.System.Isolation
import Dirpc.Transports.Session

namespace Dirpc

open Base

/-- A turn of the task, or a change that other tasks make to the shared state between two turns.
    No other task removes or replaces the sender of a registered connection. -/
inductive SessionEvent where
  | own (turn : Turn)
  | others (server : ServerState) (queues : Nat → Mpsc Json)

def SessionEvent.isOwn : SessionEvent → Bool
  | .own _ => true
  | .others .. => false

def SessionEvent.isInbound : SessionEvent → Bool
  | .own (.inbound ..) => true
  | _ => false

def SessionEvent.writerOk : SessionEvent → Bool
  | .own (.opening ok) | .own (.outbound ok) | .own (.inbound _ ok) => ok
  | .others .. => true

def Session.among {ι : Type} (turns : Session ι → Turn → Option (Session ι)) (s : Session ι) :
    SessionEvent → Option (Session ι)
  | .own turn => turns s turn
  | .others server queues => match s.phase with
    | .looping _ id =>
      if server.sockets id = s.server.sockets id then
        some { s with server := server, queues := queues }
      else none
    | _ => some { s with server := server, queues := queues }

def handshakeClient (serde : Serde) : List Frame → Option String
  | [] => none
  | frame :: _ =>
    if IpcOpcode.fromI32 frame.1 = some .handshake then
      (serde.handshake frame.2).bind fun handshake =>
        if handshake.v = 1 then some handshake.clientId else none
    else none

def endsLoop (frame : Frame) : Bool :=
  IpcOpcode.fromI32 frame.1 == some .close || IpcOpcode.fromI32 frame.1 == none

def isPing (frame : Frame) : Bool := IpcOpcode.fromI32 frame.1 == some .ping

def frameMessage (serde : Serde) (frame : Frame) : Option RpcMessage :=
  if IpcOpcode.fromI32 frame.1 = some .frame then serde.rpcMessage frame.2 else none

def untilEnd (frames : List Frame) : List Frame := frames.takeWhile fun frame => !endsLoop frame

namespace Effect

def isPong : Effect → Bool
  | .write .pong => true
  | _ => false

def inLoop : Effect → Bool
  | .write .pong | .write (.response _) | .handleMessage .. | .sendToSocket .. => true
  | _ => false

end Effect

/-- The effects of a loop that has read the frames. -/
structure Served (serde : Serde) (clientId : String) (id : Nat) (frames : List Frame)
    (effects : List Effect) : Prop where
  calls : effects.filterMap Effect.call =
    (frames.filterMap (frameMessage serde)).map fun msg => (id, clientId, msg)
  pongs : effects.countP Effect.isPong = frames.countP isPing
  inLoop : ∀ effect ∈ effects, effect.inLoop

def opened (id : Nat) : List Effect := [.nextId id, .write .ready, .registerSocket id]

variable {target : Target} {serde : Serde} {clientId : String} {c id : Nat}

namespace Served

variable {frames : List Frame} {effects : List Effect} {frame : Frame}

theorem nil : Served serde clientId id [] [] := ⟨rfl, rfl, nofun⟩

theorem append {more : List Frame} {added : List Effect}
    (served : Served serde clientId id frames effects)
    (next : Served serde clientId id more added) :
    Served serde clientId id (frames ++ more) (effects ++ added) := by
  refine ⟨?_, ?_, ?_⟩
  · rw [List.filterMap_append, List.filterMap_append, List.map_append, served.calls, next.calls]
  · rw [List.countP_append, List.countP_append, served.pongs, next.pongs]
  · intro effect member
    rcases List.mem_append.mp member with before | after
    · exact served.inLoop effect before
    · exact next.inLoop effect after

theorem response (json : Json) : Served serde clientId id [] [.write (.response json)] := by
  refine ⟨rfl, rfl, ?_⟩
  intro effect member
  rw [List.mem_singleton.mp member]
  rfl

theorem ping (op : IpcOpcode.fromI32 frame.1 = some .ping) :
    Served serde clientId id [frame] [.write .pong] := by
  refine ⟨?_, ?_, ?_⟩
  · simp [frameMessage, op, Effect.call]
  · simp [isPing, op, Effect.isPong]
  · intro effect member
    rw [List.mem_singleton.mp member]
    rfl

theorem message {msg : RpcMessage} (op : IpcOpcode.fromI32 frame.1 = some .frame)
    (parsed : serde.rpcMessage frame.2 = some msg) (now : Nat → Int) (resp : Option Json) :
    Served serde clientId id [frame]
      (.handleMessage id clientId msg now :: resp.toList.map (.sendToSocket id)) := by
  refine ⟨?_, ?_, ?_⟩
  · cases resp <;> simp [frameMessage, op, parsed, Effect.call]
  · cases resp <;> simp [isPing, op, Effect.isPong]
  · intro effect member
    cases resp <;> simp at member
    · rw [member]
      rfl
    · rcases member with rfl | rfl <;> rfl

theorem skipped (plain : frameMessage serde frame = none) (quiet : isPing frame = false) :
    Served serde clientId id [frame] [] := by
  refine ⟨?_, ?_, nofun⟩
  · simp [plain]
  · simp [quiet]

end Served

theorem untilEnd_append {read : List Frame} (open_ : ∀ frame ∈ read, endsLoop frame = false)
    (more : List Frame) : untilEnd (read ++ more) = read ++ untilEnd more := by
  apply List.takeWhile_append_of_pos
  intro frame member
  rw [open_ frame member]
  rfl

namespace Session

variable {server : ServerState} {queues : Nat → Mpsc Json} {s t : Session Frame}

theorem others_cases {ι : Type} {turns : Session ι → Turn → Option (Session ι)} {s t : Session ι}
    (taken : s.among turns (.others server queues) = some t) :
    t = { s with server := server, queues := queues } ∧
      ∀ {name id}, s.phase = .looping name id → server.sockets id = s.server.sockets id := by
  simp only [among] at taken
  split at taken
  · rename_i name id phase
    obtain ⟨kept, same⟩ := Option.ite_none_right_eq_some.mp taken
    cases same
    refine ⟨rfl, ?_⟩
    intro name' id' other
    cases phase.symm.trans other
    exact kept
  · rename_i outside
    cases taken
    exact ⟨rfl, fun inside => absurd inside (outside _ _)⟩

/-- How far a session has come whose first frame was the client's handshake. -/
def Follows (serde : Serde) (c : Nat) (clientId : String) (rest : List Frame) (s : Session Frame) :
    Prop :=
  match s.phase with
  | .opening => handshakeClient serde s.input = some clientId ∧ s.input.tail = rest ∧ s.effects = []
  | .looping name id => name = clientId ∧ s.server.sockets id = some c ∧
      ∃ read effects, rest = read ++ s.input ∧ (∀ frame ∈ read, endsLoop frame = false) ∧
        s.effects = opened id ++ effects ∧ Served serde clientId id read effects
  | .finished => ∃ id effects, s.effects = opened id ++ effects ++ [.unregisterSocket id] ∧
      Served serde clientId id (untilEnd rest) effects

variable {rest : List Frame}

theorem ipcOpening_eq (s : Session Frame) (readyOk : Bool) :
    s.ipcOpening target serde c readyOk = match handshakeClient serde s.input with
      | none => { s with input := s.input.tail, phase := .finished }
      | some clientId =>
        let (id, s) := ({ s with input := s.input.tail }).nextId target
        if readyOk then (s.write .ready).register c clientId id else s.finish := by
  obtain ⟨server, queues, input, phase, effects⟩ := s
  cases input with
  | nil => rfl
  | cons frame rest =>
    obtain ⟨opcode, body⟩ := frame
    simp only [ipcOpening, handshakeClient]
    by_cases first : IpcOpcode.fromI32 opcode = some .handshake
    · simp only [first, ne_eq, not_true_eq_false, if_false, if_true]
      cases serde.handshake body with
      | none => rfl
      | some handshake =>
        by_cases version : handshake.v = 1
        · simp [version]
        · simp [version, finish]
    · simp [first, finish]

theorem follows_opening {readyOk : Bool} (follows : s.Follows serde c clientId rest)
    (phase : s.phase = .opening) (healthy : readyOk = true) :
    (s.ipcOpening target serde c readyOk).Follows serde c clientId rest := by
  simp only [Follows, phase] at follows
  obtain ⟨valid, rfl, none⟩ := follows
  rw [ipcOpening_eq, valid, healthy]
  refine ⟨rfl, Function.update_self .., [], [], rfl, nofun, ?_, .nil⟩
  simp only [register, write, nextId, none, opened]
  rfl

theorem follows_leave {read : List Frame} {effects : List Effect} (id : Nat)
    (ended : untilEnd rest = read) (done : s.effects = opened id ++ effects)
    (served : Served serde clientId id read effects) :
    (s.leave c id).Follows serde c clientId rest := by
  refine ⟨id, effects, ?_, ended.symm ▸ served⟩
  rw [leave, done]

theorem follows_read {frame : Frame} {read : List Frame} {effects added : List Effect}
    (phase : t.phase = .looping clientId id) (registered : t.server.sockets id = some c)
    (split : rest = read ++ frame :: t.input)
    (earlier : ∀ frame ∈ read, endsLoop frame = false) (goesOn : endsLoop frame = false)
    (served : Served serde clientId id read effects)
    (next : Served serde clientId id [frame] added)
    (done : t.effects = opened id ++ effects ++ added) : t.Follows serde c clientId rest := by
  simp only [Follows, phase]
  refine ⟨trivial, registered, read ++ [frame], effects ++ added, ?_, ?_, ?_, served.append next⟩
  · rw [split, List.append_assoc, List.singleton_append]
  · intro other member
    rcases List.mem_append.mp member with before | last
    · exact earlier other before
    · rwa [List.mem_singleton.mp last]
  · rw [done, List.append_assoc]

theorem follows_inbound {name : String} {now : Nat → Int} (follows : s.Follows serde c clientId rest)
    (phase : s.phase = .looping name id) :
    (s.ipcInbound serde c name id now true).Follows serde c clientId rest := by
  simp only [Follows, phase] at follows
  obtain ⟨rfl, registered, read, effects, split, earlier, done, served⟩ := follows
  rw [ipcInbound_eq]
  cases shape : s.input with
  | nil =>
    refine follows_leave id ?_ done served
    rw [split, shape, untilEnd_append earlier]
    exact List.append_nil read
  | cons frame more =>
    rw [shape] at split
    obtain ⟨op, body⟩ := frame
    have stopped (ends : endsLoop (op, body) = true) : untilEnd rest = read := by
      rw [split, untilEnd_append earlier, untilEnd, List.takeWhile_cons_of_neg (by simp [ends]),
        List.append_nil]
    simp only [ipcOutcome]
    cases opcode : IpcOpcode.fromI32 op with
    | none => exact follows_leave id (stopped (by simp [endsLoop, opcode])) done served
    | some code =>
      cases code with
      | close => exact follows_leave id (stopped (by simp [endsLoop, opcode])) done served
      | ping =>
        exact follows_read phase registered split earlier (by simp [endsLoop, opcode]) served
          (.ping opcode) (by simp [receive, write, done])
      | handshake | pong =>
        exact follows_read phase registered split earlier (by simp [endsLoop, opcode]) served
          (.skipped (by simp [frameMessage, opcode]) (by simp [isPing, opcode]))
          (by simp [receive, done])
      | frame =>
        cases parsed : serde.rpcMessage body with
        | none =>
          exact follows_read phase registered split earlier (by simp [endsLoop, opcode]) served
            (.skipped (by simp [frameMessage, opcode, parsed]) (by simp [isPing, opcode]))
            (by simp [receive, done])
        | some msg =>
          simp only [Option.elim_some, receive, answer_eq]
          refine follows_read phase ?_ split earlier (by simp [endsLoop, opcode]) served
            (.message opcode parsed now (messageEffect now id name msg).2) ?_
          · exact (congrFun (ServerState.handleMessage_sockets ..) id).trans registered
          · rw [done]

theorem follows_outbound {name : String} {ok : Bool} (follows : s.Follows serde c clientId rest)
    (phase : s.phase = .looping name id) (healthy : ok = true)
    (taken : s.outbound c id ok = some t) : t.Follows serde c clientId rest := by
  simp only [Follows, phase] at follows
  obtain ⟨rfl, registered, read, effects, split, earlier, done, served⟩ := follows
  rcases outbound_cases taken with ⟨json, left, _, rfl⟩ | ⟨_, dropped, _⟩
  · rw [if_pos healthy]
    simp only [Follows, write, phase]
    refine ⟨trivial, registered, read, effects ++ [.write (.response json)], split, earlier, ?_, ?_⟩
    · rw [done, List.append_assoc]
    · rw [← List.append_nil read]
      exact served.append (.response json)
  · exact absurd registered dropped

theorem follows_step {e : SessionEvent} (follows : s.Follows serde c clientId rest)
    (healthy : e.writerOk) (taken : s.among (handleIpcIo target serde c) e = some t) :
    t.Follows serde c clientId rest := by
  cases e with
  | own turn =>
    rcases step_cases taken with ⟨_, rfl, phase, rfl⟩ | ⟨name, id, phase, loop⟩
    · exact follows_opening follows phase healthy
    · rcases loop with ⟨ok, rfl, sent⟩ | ⟨now, pongOk, rfl, rfl⟩
      · exact follows_outbound follows phase healthy sent
      · obtain rfl : pongOk = true := healthy
        exact follows_inbound follows phase
  | others server queues =>
    obtain ⟨rfl, kept⟩ := others_cases taken
    cases phase : s.phase with
    | looping name id =>
      simp only [Follows, phase] at follows ⊢
      exact ⟨follows.1, (kept phase).trans follows.2.1, follows.2.2⟩
    | opening | finished =>
      simp only [Follows, phase] at follows ⊢
      exact follows

def Refused (serde : Serde) (s : Session Frame) : Prop :=
  s.effects = [] ∧ ((s.phase = .opening ∧ handshakeClient serde s.input = none) ∨ s.phase = .finished)

theorem refused_turn {turn : Turn} (refused : s.Refused serde)
    (taken : s.handleIpcIo target serde c turn = some t) :
    t.Refused serde ∧ t.server = s.server ∧ t.queues = s.queues := by
  obtain ⟨none, state⟩ := refused
  rcases step_cases taken with ⟨readyOk, _, phase, rfl⟩ | ⟨name, id, phase, _⟩
  · rcases state with ⟨_, invalid⟩ | finished
    · rw [ipcOpening_eq, invalid]
      exact ⟨⟨none, .inr rfl⟩, rfl, rfl⟩
    · rw [phase] at finished
      cases finished
  · rcases state with ⟨other, _⟩ | other
    · rw [phase] at other
      cases other
    · rw [phase] at other
      cases other

theorem refused_step {e : SessionEvent} (refused : s.Refused serde)
    (taken : s.among (handleIpcIo target serde c) e = some t) : t.Refused serde := by
  cases e with
  | own turn => exact (refused_turn refused taken).1
  | others server queues =>
    obtain ⟨rfl, _⟩ := others_cases taken
    exact refused

def remaining (s : Session Frame) : Nat :=
  match s.phase with
  | .opening => s.input.length
  | .looping .. => s.input.length + 1
  | .finished => 0

/-- A bound on the turns to come while no other task acts. -/
def budget (c : Nat) (s : Session Frame) : Nat :=
  match s.phase with
  | .opening => 2 * s.input.length + 2
  | .looping .. => 2 * s.input.length + 1 + (s.queues c).queue.length
  | .finished => 0

theorem remaining_looping {name : String} (phase : s.phase = .looping name id) :
    s.remaining = s.input.length + 1 := by
  rw [remaining, phase]

theorem remaining_finished (phase : s.phase = .finished) : s.remaining = 0 := by
  rw [remaining, phase]

theorem ipcInbound_remaining {name : String} {now : Nat → Int} {pongOk : Bool}
    (phase : s.phase = .looping name id) :
    (s.ipcInbound serde c name id now pongOk).remaining < s.remaining := by
  rw [ipcInbound_eq, remaining_looping phase]
  cases shape : s.input with
  | nil => exact Nat.succ_pos _
  | cons frame rest =>
    obtain ⟨input, phases⟩ := receive_cases c name id now pongOk { s with input := rest }
      (ipcOutcome serde (some frame))
    rcases phases with same | finished
    · rw [remaining_looping (same.trans phase), input]
      exact Nat.lt_succ_self _
    · rw [remaining_finished finished]
      exact Nat.succ_pos _

theorem ipcOpening_remaining {readyOk : Bool} (phase : s.phase = .opening) :
    (s.ipcOpening target serde c readyOk).remaining ≤ s.remaining := by
  rw [ipcOpening_eq]
  cases valid : handshakeClient serde s.input with
  | none =>
    simp only [remaining]
    omega
  | some clientId =>
    have filled : 0 < s.input.length := by
      cases shape : s.input with
      | nil =>
        rw [shape] at valid
        cases valid
      | cons => exact Nat.succ_pos _
    cases readyOk with
    | false =>
      simp only [remaining, finish, Bool.false_eq_true, if_false]
      omega
    | true =>
      simp only [remaining, register, write, nextId, if_true, phase, List.length_tail]
      omega

theorem outbound_remaining {name : String} {ok : Bool} (phase : s.phase = .looping name id)
    (taken : s.outbound c id ok = some t) : t.remaining ≤ s.remaining := by
  rcases outbound_cases taken with ⟨json, rest, _, rfl⟩ | ⟨_, _, rfl⟩
  · cases ok <;> simp [remaining, write, leave, phase]
  · simp [remaining, leave]

theorem step_remaining {e : SessionEvent} (taken : s.among (handleIpcIo target serde c) e = some t) :
    t.remaining + (if e.isInbound then 1 else 0) ≤ s.remaining := by
  cases e with
  | own turn =>
    rcases step_cases taken with ⟨readyOk, rfl, phase, rfl⟩ | ⟨name, id, phase, loop⟩
    · exact ipcOpening_remaining phase
    · rcases loop with ⟨ok, rfl, sent⟩ | ⟨now, pongOk, rfl, rfl⟩
      · exact outbound_remaining phase sent
      · exact ipcInbound_remaining phase
  | others server queues =>
    obtain ⟨rfl, _⟩ := others_cases taken
    exact Nat.le_refl _

theorem sendToSocket_length (server : ServerState) (queues : Nat → Mpsc Json) (id c : Nat)
    (msg : Json) :
    (server.sendToSocket queues id msg c).queue.length ≤ (queues c).queue.length + 1 := by
  cases registered : server.sockets id with
  | none =>
    rw [ServerState.sendToSocket, registered]
    exact Nat.le_succ _
  | some tx =>
    rw [ServerState.sendToSocket_registered registered]
    by_cases own : c = tx
    · subst own
      rw [Function.update_self, Mpsc.trySend_queue, List.length_append]
      split <;> simp
    · rw [Function.update_of_ne own]
      exact Nat.le_succ _

theorem receive_length (c : Nat) (clientId : String) (id : Nat) (now : Nat → Int) (pongOk : Bool)
    (s : Session Frame) (outcome : Outcome) :
    ((s.receive c clientId id now pongOk outcome).queues c).queue.length ≤
      (s.queues c).queue.length + 1 := by
  cases outcome with
  | message msg =>
    rw [receive, answer_eq]
    cases (messageEffect now id clientId msg).2 with
    | none => exact Nat.le_succ _
    | some resp => exact sendToSocket_length ..
  | pong => cases pongOk <;> exact Nat.le_succ _
  | skip => exact Nat.le_succ _
  | stop =>
    simp only [receive, leave, Function.update_self, Mpsc.close_queue]
    exact Nat.zero_le _

theorem budget_looping {name : String} (phase : s.phase = .looping name id) :
    s.budget c = 2 * s.input.length + 1 + (s.queues c).queue.length := by
  rw [budget, phase]

theorem budget_finished (phase : s.phase = .finished) : s.budget c = 0 := by
  rw [budget, phase]

theorem turn_budget {turn : Turn} (taken : s.handleIpcIo target serde c turn = some t) :
    t.budget c < s.budget c := by
  rcases step_cases taken with ⟨readyOk, _, phase, rfl⟩ | ⟨name, id, phase, loop⟩
  · have whole : s.budget c = 2 * s.input.length + 2 := by rw [budget, phase]
    rw [ipcOpening_eq, whole]
    cases handshakeClient serde s.input with
    | none => exact Nat.succ_pos _
    | some clientId =>
      cases readyOk with
      | false => exact Nat.succ_pos _
      | true =>
        simp only [budget, register, write, nextId, if_true, Function.update_self,
          Mpsc.channel_queue, List.length_tail, List.length_nil]
        omega
  · rw [budget_looping phase]
    rcases loop with ⟨ok, _, sent⟩ | ⟨now, pongOk, _, rfl⟩
    · rcases outbound_cases sent with ⟨json, rest, received, rfl⟩ | ⟨_, _, rfl⟩
      · cases ok with
        | false =>
          simp only [Bool.false_eq_true, if_false, budget, leave]
          omega
        | true =>
          have shape := congrArg List.length (Mpsc.recv_eq_some received).1
          rw [List.length_cons] at shape
          simp only [if_true, budget, write, phase, Function.update_self]
          omega
      · rw [budget_finished rfl]
        omega
    · rw [ipcInbound_eq]
      cases shape : s.input with
      | nil =>
        simp only [budget, leave]
        omega
      | cons frame rest =>
        obtain ⟨input, phases⟩ := receive_cases c name id now pongOk { s with input := rest }
          (ipcOutcome serde (some frame))
        have length := receive_length c name id now pongOk { s with input := rest }
          (ipcOutcome serde (some frame))
        rcases phases with same | finished
        · rw [budget_looping (same.trans phase), input, List.length_cons]
          dsimp only at length ⊢
          omega
        · rw [budget_finished finished]
          omega

theorem run_budget {events : List SessionEvent} (own : ∀ e ∈ events, e.isOwn)
    (reached : run (among (handleIpcIo target serde c)) s events = some t) :
    t.budget c + events.length ≤ s.budget c := by
  have meets : Meets (among (handleIpcIo target serde c)) (fun _ e => e.isOwn = true) s events :=
    meets_of_forall fun _ => own
  rw [← List.countP_eq_length.mpr own]
  refine run_measure_of_meets (fun s e t isOwn taken => ?_) meets reached
  cases e with
  | own turn => exact turn_budget taken
  | others => cases isOwn

theorem turn_enabled (target : Target) (serde : Serde) (c : Nat) (going : s.phase ≠ .finished) :
    ∃ turn t, s.handleIpcIo target serde c turn = some t ∧ (SessionEvent.own turn).writerOk := by
  cases phase : s.phase with
  | opening =>
    exact ⟨.opening true, s.ipcOpening target serde c true, by simp only [handleIpcIo, step, phase],
      rfl⟩
  | looping name id =>
    exact ⟨.inbound (fun _ => 0) true, s.ipcInbound serde c name id (fun _ => 0) true,
      by simp only [handleIpcIo, step, phase], rfl⟩
  | finished => exact absurd phase going

theorem completes (target : Target) (serde : Serde) (c : Nat) (s : Session Frame) :
    ∃ more t, run (among (handleIpcIo target serde c)) s more = some t ∧ t.phase = .finished ∧
      ∀ e ∈ more, e.isOwn ∧ e.writerOk := by
  induction bound : s.budget c using Nat.strong_induction_on generalizing s with
  | _ n ih =>
    by_cases finished : s.phase = .finished
    · exact ⟨[], s, rfl, finished, nofun⟩
    · obtain ⟨turn, u, taken, healthy⟩ := turn_enabled target serde c finished
      obtain ⟨more, t, reached, ended, own⟩ := ih _ (bound ▸ turn_budget taken) u rfl
      refine ⟨.own turn :: more, t, run_cons_eq_some.mpr ⟨u, taken, reached⟩, ended, ?_⟩
      intro e member
      rcases List.mem_cons.mp member with rfl | later
      · exact ⟨rfl, healthy⟩
      · exact own e later

theorem logged_turn {base : List ActivityEvent} {turn : Turn} (logged : s.Logged base)
    (taken : s.handleIpcIo target serde c turn = some t) : t.Logged base := by
  rcases step_cases taken with ⟨readyOk, _, _, rfl⟩ | ⟨name, id, _, loop⟩
  · rw [ipcOpening_eq]
    cases handshakeClient serde s.input with
    | none => exact logged
    | some clientId =>
      have moved : Logged base { s with input := s.input.tail } := logged
      exact moved.opening target c clientId readyOk
  · rcases loop with ⟨ok, _, sent⟩ | ⟨now, pongOk, _, rfl⟩
    · exact logged.outbound sent
    · rw [ipcInbound_eq]
      cases s.input with
      | nil => exact logged.leave c id
      | cons frame rest =>
        have moved : Logged base { s with input := rest } := logged
        exact moved.receive c name id now pongOk _

theorem run_own (inv : Session Frame → Prop)
    (keeps : ∀ s turn t, inv s → s.handleIpcIo target serde c turn = some t → inv t)
    {events : List SessionEvent} (own : ∀ e ∈ events, e.isOwn) (initial : inv s)
    (reached : run (among (handleIpcIo target serde c)) s events = some t) : inv t := by
  have meets : Meets (among (handleIpcIo target serde c)) (fun _ e => e.isOwn = true) s events :=
    meets_of_forall fun _ => own
  refine run_invariant_of_meets (fun s e t kept isOwn taken => ?_) meets initial reached
  cases e with
  | own turn => exact keeps s turn t kept taken
  | others => cases isOwn

end Session

open Session in
theorem ipc_session {server : ServerState} {queues : Nat → Mpsc Json} {frames : List Frame}
    {events : List SessionEvent} {s : Session Frame}
    (reached : run (among (handleIpcIo target serde c)) (new server queues frames) events = some s)
    (healthy : ∀ e ∈ events, e.writerOk) :
    (handshakeClient serde frames = none → s.effects = []) ∧
      (∀ clientId, handshakeClient serde frames = some clientId → s.phase = .finished →
        ∃ id effects, s.effects = opened id ++ effects ++ [.unregisterSocket id] ∧
          Served serde clientId id (untilEnd frames.tail) effects ∧
          (s.effects.filterMap Effect.event).getLast? = some ⟨none, none, id⟩) ∧
      events.countP SessionEvent.isInbound ≤ frames.length ∧
      (∃ more t, run (among (handleIpcIo target serde c)) s more = some t ∧ t.phase = .finished ∧
        ∀ e ∈ more, e.isOwn ∧ e.writerOk) ∧
      ((∀ e ∈ events, e.isOwn) → events.length ≤ 2 * frames.length + 2 ∧
        s.server.activityTx.log = server.activityTx.log ++ s.effects.filterMap Effect.event ∧
        (handshakeClient serde frames = none → s.server = server ∧ s.queues = queues)) := by
  refine ⟨?_, ?_, ?_, completes target serde c s, fun own => ⟨?_, ?_, ?_⟩⟩
  · intro invalid
    have initial : (new server queues frames).Refused serde := ⟨rfl, .inl ⟨rfl, invalid⟩⟩
    exact (run_invariant (fun _ _ _ => refused_step) initial reached).1
  · intro clientId valid finished
    have initial : (new server queues frames).Follows serde c clientId frames.tail :=
      ⟨valid, rfl, rfl⟩
    have meets : Meets (among (handleIpcIo target serde c)) (fun _ e => e.writerOk = true)
        (new server queues frames) events := meets_of_forall fun _ => healthy
    have follows := run_invariant_of_meets (fun _ _ _ => follows_step) meets initial reached
    simp only [Follows, finished] at follows
    obtain ⟨id, effects, whole, served⟩ := follows
    refine ⟨id, effects, whole, served, ?_⟩
    rw [whole, List.filterMap_append]
    exact List.getLast?_concat
  · have bound := run_measure (fun _ _ _ taken => step_remaining taken) reached
    exact Nat.le_trans (Nat.le_add_left ..) bound
  · have bound := run_budget own reached
    exact Nat.le_trans (Nat.le_add_left ..) bound
  · refine run_own (Logged server.activityTx.log) (fun _ _ _ => logged_turn) own ?_ reached
    exact (List.append_nil _).symm
  · intro invalid
    have kept : s.Refused serde ∧ s.server = server ∧ s.queues = queues := by
      refine run_own (fun s => s.Refused serde ∧ s.server = server ∧ s.queues = queues)
        (fun s turn t kept taken => ?_) own ⟨⟨rfl, .inl ⟨rfl, invalid⟩⟩, rfl, rfl⟩ reached
      obtain ⟨refused, sameServer, sameQueues⟩ := refused_turn kept.1 taken
      exact ⟨refused, sameServer.trans kept.2.1, sameQueues.trans kept.2.2⟩
    exact kept.2

def handshakeText : List UInt8 := utf8 "\x7b\"v\":1,\"client_id\":\"1\"\x7d"

def sessionSerde : Serde := .table [(handshakeText, ⟨1, "1"⟩)] [(callbackText, callback)]

def sessionFrames : List Frame :=
  [(0, handshakeText), (3, []), (1, callbackText), (1, []), (2, []), (3, [])]

def sessionEvents : List SessionEvent :=
  [.own (.opening true), .own (.inbound (fun _ => 0) true), .own (.inbound (fun _ => 0) true),
    .own (.inbound (fun _ => 0) true), .own (.outbound true), .own (.inbound (fun _ => 0) true)]

open Session in
theorem ipc_session_closed :
    ∃ s, run (among (handleIpcIo .ptr64 sessionSerde 0))
        (new .new (fun _ => .channel socketQueueCapacity) sessionFrames) sessionEvents = some s ∧
      (∀ e ∈ sessionEvents, e.writerOk) ∧ s.phase = .finished ∧
      ∃ id effects, s.effects = opened id ++ effects ++ [.unregisterSocket id] ∧
        effects.filterMap Effect.call = [(id, "1", callback)] := by
  have reached : run (among (handleIpcIo .ptr64 sessionSerde 0))
      (new .new (fun _ => .channel socketQueueCapacity) sessionFrames) sessionEvents = some _ := rfl
  have healthy : ∀ e ∈ sessionEvents, e.writerOk := by decide
  obtain ⟨id, effects, whole, served, _⟩ := (ipc_session reached healthy).2.1 "1" rfl rfl
  exact ⟨_, reached, healthy, rfl, id, effects, whole, served.calls⟩

end Dirpc
