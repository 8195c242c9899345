import Dirpc.System.Pipeline
import Mathlib.Algebra.Order.BigOperators.Group.List
import Mathlib.Algebra.Order.Ring.Nat
import Mathlib.Data.Finset.Card

namespace Dirpc

open Base Bridge

/-- The steps of the task that its client has no part in: it looks at each key of the map once, and what
    it writes is taken or not. -/
def ClientAct.Own (log : List ActivityEvent) (k : ClientTask) : ClientAct → Prop
  | .readKey key => (∃ event ∈ log, event.socketId = key) ∧ key ∉ k.read
  | .incoming _ => False
  | _ => True

namespace ClientTask

def unpassed (log : List ActivityEvent) (k : ClientTask) : Finset Nat :=
  (log.map (·.socketId)).toFinset.filter (· ∉ k.read)

def behind (b : BridgeState) (k : ClientTask) : Nat := b.tx.log.length - k.rx

/-- An upper bound of the task's own steps: a key costs a look and a write. -/
def work (log : List ActivityEvent) (b : BridgeState) (k : ClientTask) : Nat :=
  let snapshot := 2 * (k.unpassed log).card + k.snapshot.length
  match k.pc with
  | .handshaking => snapshot + 3
  | .upgraded => snapshot + 2
  | .iterating => snapshot + 1 + k.behind b
  | .serving rest => rest.length + k.behind b
  | .gone => 0

variable {log : List ActivityEvent} {b b' : BridgeState} {k k' : ClientTask}

theorem unpassed_look {key : Nat} (listed : ∃ event ∈ log, event.socketId = key)
    (fresh : key ∉ k.read) : ((k.look b key).unpassed log).card + 1 ≤ (k.unpassed log).card := by
  apply Finset.card_lt_card
  refine Finset.ssubset_iff_of_subset ?_ |>.mpr ⟨key, ?_, ?_⟩
  · intro id member
    simp only [unpassed, look, Finset.mem_filter, List.mem_cons, not_or] at member ⊢
    exact ⟨member.1, member.2.2⟩
  · simpa [unpassed, fresh] using listed
  · simp [unpassed, look]

theorem recv_advances {ok : Bool} (taken : k.step log b (.recv ok) = some k') :
    k.rx < k'.rx ∧ k'.rx ≤ b.tx.log.length := by
  obtain ⟨_, ⟨payload, next, got, rfl⟩ | ⟨missed, next, got, rfl⟩⟩ := recv_cases taken
  · obtain ⟨_, found, rfl⟩ := Broadcast.recv_ok got
    have inside := (List.getElem?_eq_some_iff.mp found).1
    cases ok <;> exact ⟨Nat.lt_succ_self _, inside⟩
  · obtain ⟨late, rfl⟩ := Broadcast.recv_lagged got
    exact ⟨late, b.tx.oldest_le⟩

theorem work_recv {ok : Bool} (taken : k.step log b (.recv ok) = some k') :
    k'.work log b + 1 ≤ k.work log b := by
  obtain ⟨advanced, inside⟩ := recv_advances taken
  obtain ⟨phase, rest⟩ := recv_cases taken
  have next : k'.pc = .serving [] ∨ k'.pc = .gone := by
    rcases rest with ⟨_, _, _, rfl⟩ | ⟨_, _, _, rfl⟩
    · cases ok with
      | true => exact .inl phase
      | false => exact .inr rfl
    · exact .inl phase
  rcases next with serving | gone
  · simp only [work, phase, serving, behind, List.length_nil]
    omega
  · simp only [work, phase, gone, behind, List.length_nil]
    omega

theorem work_lowers {act : ClientAct} (own : act.Own log k) (taken : k.step log b act = some k') :
    k'.work log b + 1 ≤ k.work log b := by
  cases act with
  | handshake ok =>
    obtain ⟨phase, rfl⟩ := handshake_cases taken
    cases ok with
    | true => simp [work, phase, unpassed]
    | false => simp [work, phase]
  | subscribe =>
    obtain ⟨phase, rfl⟩ := subscribe_cases taken
    simp [work, phase, behind, unpassed]
  | readKey key =>
    obtain ⟨phase, rfl⟩ := readKey_cases taken
    have fewer := unpassed_look (b := b) own.1 own.2
    have one : (b.lastMsgs key).toList.length ≤ 1 := by
      rw [Option.length_toList]
      split <;> omega
    have phase' : (k.look b key).pc = .iterating := phase
    have same : (k.look b key).behind b = k.behind b := rfl
    have longer : (k.look b key).snapshot.length =
        k.snapshot.length + (b.lastMsgs key).toList.length := List.length_append
    simp only [work, phase, phase', same, longer]
    omega
  | collect =>
    obtain ⟨phase, _, rfl⟩ := collect_cases taken
    simp only [work, phase, behind]
    omega
  | sendItem ok =>
    obtain ⟨item, rest, phase, rfl⟩ := sendItem_cases taken
    cases ok with
    | true =>
      simp only [work, phase, behind, if_true, List.length_cons]
      omega
    | false =>
      simp only [work, phase, Bool.false_eq_true, if_false, List.length_cons]
      omega
  | recv ok => exact work_recv taken
  | incoming next => exact own.elim

theorem work_send (log : List ActivityEvent) {json : Json} (sent : b'.tx.log = b.tx.log ++ [json]) :
    k.work log b' ≤ k.work log b + 1 := by
  have length : b'.tx.log.length = b.tx.log.length + 1 := by rw [sent]; simp
  have later : k.behind b' ≤ k.behind b + 1 := by
    unfold behind
    omega
  unfold work
  dsimp only
  split <;> omega

/-- The channel takes `due` more broadcasts without overwriting anything that the task has not read, or
    will have to read once it has subscribed. -/
def Fits (due : Nat) (b : BridgeState) (k : ClientTask) : Prop :=
  match k.pc with
  | .handshaking | .upgraded => due ≤ b.tx.capacity
  | .iterating | .serving _ => b.tx.log.length + due ≤ k.rx + b.tx.capacity
  | .gone => True

theorem Fits.step {due : Nat} {act : ClientAct} (fits : k.Fits due b)
    (taken : k.step log b act = some k') : k'.Fits due b := by
  cases act with
  | handshake ok =>
    obtain ⟨phase, rfl⟩ := handshake_cases taken
    rw [Fits, phase] at fits
    cases ok with
    | true => exact fits
    | false => trivial
  | subscribe =>
    obtain ⟨phase, rfl⟩ := subscribe_cases taken
    rw [Fits, phase] at fits
    exact Nat.add_le_add_left fits _
  | readKey key =>
    obtain ⟨phase, rfl⟩ := readKey_cases taken
    exact fits
  | collect =>
    obtain ⟨phase, _, rfl⟩ := collect_cases taken
    rw [Fits, phase] at fits
    exact fits
  | sendItem ok =>
    obtain ⟨item, rest, phase, rfl⟩ := sendItem_cases taken
    rw [Fits, phase] at fits
    cases ok with
    | true => exact fits
    | false => trivial
  | recv ok =>
    have advanced := (recv_advances taken).1
    obtain ⟨phase, next⟩ := recv_cases taken
    rw [Fits, phase] at fits
    have room : b.tx.log.length + due ≤ k'.rx + b.tx.capacity := by
      dsimp only at fits
      omega
    rcases next with ⟨_, _, _, rfl⟩ | ⟨_, _, _, rfl⟩
    · cases ok with
      | true =>
        simp only [Fits, if_true, phase]
        exact room
      | false => trivial
    · rw [Fits, phase]
      exact room
  | incoming next =>
    obtain ⟨_, rfl⟩ := incoming_cases taken
    split
    · trivial
    · exact fits

theorem Fits.feed {due later : Nat} (fits : k.Fits due b)
    (fewer : later + b'.tx.log.length ≤ due + b.tx.log.length)
    (grown : b.tx.log.length ≤ b'.tx.log.length) (same : b'.tx.capacity = b.tx.capacity) :
    k.Fits later b' := by
  unfold Fits at fits ⊢
  split at fits
  · omega
  · omega
  · omega
  · omega
  · trivial

theorem Fits.spared (fits : k.Fits 1 b) : k.Spared b := by
  intro json _ key learnt
  apply SparesKey.of_room
  unfold Fits at fits
  unfold Learnt at learnt
  split at fits
  · rename_i phase
    rw [phase] at learnt
    exact learnt.elim
  · rename_i phase
    rw [phase] at learnt
    exact learnt.elim
  · omega
  · omega
  · rename_i phase
    rw [phase] at learnt
    exact learnt.elim

theorem at_rest {k : ClientTask} (bound : k.rx ≤ b.tx.log.length)
    (stuck : ∀ act : ClientAct, act.Own log k → k.step log b act = none) :
    k.pc = .gone ∨ (k.pc = .serving [] ∧ k.rx = b.tx.log.length) := by
  cases phase : k.pc with
  | handshaking =>
    have next := stuck (.handshake true) trivial
    simp [step, phase] at next
  | upgraded =>
    have next := stuck .subscribe trivial
    simp [step, phase] at next
  | iterating =>
    by_cases passed : ∀ event ∈ log, (b.lastMsgs event.socketId).isSome → event.socketId ∈ k.read
    · have next := stuck .collect trivial
      simp only [step, phase, if_pos passed] at next
      cases next
    · push Not at passed
      obtain ⟨event, member, _, fresh⟩ := passed
      have next := stuck (.readKey event.socketId) ⟨⟨event, member, rfl⟩, fresh⟩
      simp [step, phase] at next
  | serving rest =>
    cases rest with
    | cons item rest =>
      have next := stuck (.sendItem true) trivial
      simp [step, phase] at next
    | nil =>
      refine .inr ⟨rfl, ?_⟩
      by_contra different
      have inside : k.rx < b.tx.log.length := by omega
      have next := stuck (.recv true) trivial
      by_cases late : k.rx < b.tx.oldest
      · simp [step, phase, Broadcast.recv, late] at next
      · simp [step, phase, Broadcast.recv, late, List.getElem?_eq_getElem inside] at next
  | gone => exact .inl rfl

end ClientTask

namespace Pipeline

/-- The steps that take what was broadcast before: the feed's, and those of the clients in `cs`. -/
def Quiet (cs : List Nat) (p : Pipeline) : PipelineEvent → Prop
  | .world .feedRecv | .world .feedSend => True
  | .client c act => c ∈ cs ∧ ∀ k, p.clients c = some k → act.Own p.log k
  | _ => False

def unread (p : Pipeline) : Nat := p.log.length - p.world.bridge.feedNext

def waiting (p : Pipeline) : Nat := p.world.bridge.outgoing.toList.length

def backlog (p : Pipeline) (c : Nat) : Nat :=
  (p.clients c).elim 0 fun k => k.work p.log p.world.bridge

/-- An event still costs a read, a broadcast and one read for each client. -/
def remaining (cs : List Nat) (p : Pipeline) : Nat :=
  (cs.length + 2) * p.unread + (cs.length + 1) * p.waiting + (cs.map p.backlog).sum

def setBridge (p : Pipeline) (b : BridgeState) : Pipeline :=
  { p with world := { p.world with bridge := b } }

variable {target : Target} {serde : Serde} {p q : Pipeline} {cs : List Nat}

theorem quiet_cases {e : PipelineEvent} (quiet : Quiet cs p e)
    (taken : p.step target serde e = some q) :
    (∃ b, p.world.bridge.feedRecv p.world.server.activityTx = some b ∧ q = p.setBridge b) ∨
      (∃ b, p.world.bridge.feedSend = some b ∧ q = p.setBridge b) ∨
      ∃ c act k k', c ∈ cs ∧ p.clients c = some k ∧ act.Own p.log k ∧
        k.step p.log p.world.bridge act = some k' ∧ q = p.setClient c k' := by
  cases e with
  | world e =>
    obtain ⟨w, stepped, rfl⟩ := world_cases taken
    rcases World.step_bridge stepped with ⟨_, other⟩ | ⟨b, received, _, rfl⟩ | ⟨b, sent, _, rfl⟩
    · cases e with
      | feedRecv =>
        obtain ⟨b, received, rfl⟩ := Option.map_eq_some_iff.mp stepped
        exact .inl ⟨b, received, rfl⟩
      | feedSend => exact absurd rfl other
      | _ => exact quiet.elim
    · exact .inl ⟨b, received, rfl⟩
    · exact .inr (.inl ⟨b, sent, rfl⟩)
  | connect c => exact quiet.elim
  | client c act =>
    obtain ⟨k, k', found, stepped, rfl⟩ := client_cases taken
    obtain ⟨member, own⟩ := quiet
    exact .inr (.inr ⟨c, act, k, k', member, found, own k found, stepped, rfl⟩)

theorem quiet_server {e : PipelineEvent} (quiet : Quiet cs p e)
    (taken : p.step target serde e = some q) : q.world.server = p.world.server := by
  rcases quiet_cases quiet taken with ⟨_, _, rfl⟩ | ⟨_, _, rfl⟩ | ⟨_, _, _, _, _, _, _, _, rfl⟩ <;> rfl

theorem feedRecv_counts {b : BridgeState}
    (received : p.world.bridge.feedRecv p.world.server.activityTx = some b) :
    (p.setBridge b).unread + 1 ≤ p.unread ∧ p.waiting = 0 ∧ (p.setBridge b).waiting ≤ 1 ∧
      b.tx = p.world.bridge.tx := by
  unfold unread waiting
  change p.log.length - b.feedNext + 1 ≤ p.log.length - p.world.bridge.feedNext ∧ _
  obtain ⟨idle, ⟨event, next, got, rfl⟩ | ⟨missed, next, got, rfl⟩⟩ :=
    BridgeState.feedRecv_cases received
  · obtain ⟨_, found, rfl⟩ := Broadcast.recv_ok got
    have inside : p.world.bridge.feedNext < p.log.length :=
      (List.getElem?_eq_some_iff.mp found).1
    refine ⟨?_, by rw [idle]; rfl, Nat.le_refl _, rfl⟩
    change p.log.length - (p.world.bridge.feedNext + 1) + 1 ≤ _
    omega
  · obtain ⟨late, rfl⟩ := Broadcast.recv_lagged got
    have inside : p.world.server.activityTx.oldest ≤ p.log.length := Broadcast.oldest_le _
    refine ⟨?_, by rw [idle]; rfl, ?_, rfl⟩
    · change p.log.length - p.world.server.activityTx.oldest + 1 ≤ _
      omega
    · change p.world.bridge.outgoing.toList.length ≤ 1
      rw [idle]
      exact Nat.zero_le _

theorem feedSend_counts {b : BridgeState} (sent : p.world.bridge.feedSend = some b) :
    (p.setBridge b).unread = p.unread ∧ p.waiting = 1 ∧ (p.setBridge b).waiting = 0 ∧
      b.tx.log.length = p.world.bridge.tx.log.length + 1 ∧
      b.tx.capacity = p.world.bridge.tx.capacity := by
  obtain ⟨json, waiting, rfl⟩ := Option.map_eq_some_iff.mp sent
  refine ⟨rfl, ?_, rfl, by simp, rfl⟩
  rw [Pipeline.waiting, waiting]
  rfl

theorem backlog_feedSend {b : BridgeState} (sent : p.world.bridge.feedSend = some b) (c : Nat) :
    (p.setBridge b).backlog c ≤ p.backlog c + 1 := by
  obtain ⟨json, _, rfl⟩ := Option.map_eq_some_iff.mp sent
  unfold backlog
  change (p.clients c).elim 0 _ ≤ _
  cases p.clients c with
  | none => exact Nat.zero_le _
  | some k => exact ClientTask.work_send (k := k) p.log (show _ = _ ++ [json] from rfl)

theorem backlog_client {c : Nat} {act : ClientAct} {k k' : ClientTask}
    (found : p.clients c = some k) (own : act.Own p.log k)
    (taken : k.step p.log p.world.bridge act = some k') :
    (p.setClient c k').backlog c < p.backlog c ∧
      ∀ d, (p.setClient c k').backlog d ≤ p.backlog d := by
  have less : (p.setClient c k').backlog c < p.backlog c := by
    unfold backlog
    rw [found]
    simp only [setClient, Function.update_self]
    exact ClientTask.work_lowers own taken
  refine ⟨less, ?_⟩
  intro d
  by_cases same : d = c
  · subst same
    exact Nat.le_of_lt less
  · unfold backlog
    simp only [setClient, Function.update_of_ne same]
    exact Nat.le_refl _

theorem sum_map_le_add {f g : Nat → Nat} (bound : ∀ c, g c ≤ f c + 1) (cs : List Nat) :
    (cs.map g).sum ≤ (cs.map f).sum + cs.length := by
  induction cs with
  | nil => exact Nat.le_refl _
  | cons c cs ih =>
    have := bound c
    simp only [List.map_cons, List.sum_cons, List.length_cons]
    omega

theorem quiet_lowers {e : PipelineEvent} (quiet : Quiet cs p e)
    (taken : p.step target serde e = some q) : q.remaining cs + 1 ≤ p.remaining cs := by
  unfold remaining
  rcases quiet_cases quiet taken with ⟨b, received, rfl⟩ | ⟨b, sent, rfl⟩ |
      ⟨c, act, k, k', member, found, own, stepped, rfl⟩
  · obtain ⟨fewer, idle, one, tx⟩ := feedRecv_counts received
    have same : (p.setBridge b).backlog = p.backlog := by
      funext c
      unfold backlog ClientTask.work ClientTask.behind
      change (p.clients c).elim 0 _ = _
      simp only [setBridge, Pipeline.log, tx]
    rw [same, idle]
    have reads := Nat.mul_le_mul_left (cs.length + 2) fewer
    have sends := Nat.mul_le_mul_left (cs.length + 1) one
    rw [Nat.mul_add] at reads
    omega
  · obtain ⟨same, one, none, _⟩ := feedSend_counts sent
    have more := sum_map_le_add (backlog_feedSend sent) cs
    rw [same, one, none]
    omega
  · obtain ⟨less, others⟩ := backlog_client found own stepped
    have sum : (cs.map (p.setClient c k').backlog).sum < (cs.map p.backlog).sum :=
      List.sum_lt_sum _ _ (fun d _ => others d) ⟨c, member, less⟩
    change (cs.length + 2) * p.unread + (cs.length + 1) * p.waiting + _ + 1 ≤ _
    omega

/-- The broadcasts that are due overwrite nothing that client `c` has not read. -/
def Room (c : Nat) (p : Pipeline) : Prop :=
  ∀ k, p.clients c = some k → k.Fits (p.unread + p.waiting) p.world.bridge

theorem Room.step {c : Nat} {e : PipelineEvent} (room : p.Room c) (quiet : Quiet cs p e)
    (taken : p.step target serde e = some q) : q.Room c := by
  rcases quiet_cases quiet taken with ⟨b, received, rfl⟩ | ⟨b, sent, rfl⟩ |
      ⟨d, act, l, l', _, found, _, stepped, rfl⟩
  · obtain ⟨fewer, idle, one, tx⟩ := feedRecv_counts received
    intro k client
    have tx' : (p.setBridge b).world.bridge.tx = p.world.bridge.tx := tx
    apply (room k client).feed
    · rw [tx']
      omega
    · rw [tx']
    · rw [tx']
  · obtain ⟨same, one, none, length, capacity⟩ := feedSend_counts sent
    have length' : (p.setBridge b).world.bridge.tx.log.length =
        p.world.bridge.tx.log.length + 1 := length
    intro k client
    apply (room k client).feed
    · omega
    · omega
    · exact capacity
  · intro k client
    rcases setClient_eq_some client with ⟨rfl, rfl⟩ | ⟨_, before⟩
    · exact (room l found).step stepped
    · exact room k before

theorem Room.noLoss {c : Nat} {e : PipelineEvent} (room : p.Room c) (quiet : Quiet cs p e) :
    p.NoLoss c e := by
  cases e with
  | world e =>
    cases e with
    | feedRecv => exact ⟨nofun, nofun⟩
    | feedSend =>
      refine ⟨nofun, ?_⟩
      intro _ k client json pending
      have one : p.waiting = 1 := by
        rw [waiting, pending]
        rfl
      have fits : k.Fits 1 p.world.bridge :=
        (room k client).feed (by omega) (Nat.le_refl _) rfl
      exact fits.spared json pending
    | _ => exact quiet.elim
  | _ => trivial

theorem quiet_meets_noLoss {c : Nat} {fs : List PipelineEvent} (room : p.Room c)
    (quiet : Meets (step target serde) (Quiet cs) p fs) :
    Meets (step target serde) (NoLoss c) p fs := by
  induction fs generalizing p with
  | nil => trivial
  | cons e fs ih =>
    refine ⟨room.noLoss quiet.1, ?_⟩
    intro q taken
    exact ih (room.step quiet.1 taken) (quiet.2 q taken)

theorem quiet_run_server {fs : List PipelineEvent}
    (quiet : Meets (step target serde) (Quiet cs) p fs)
    (reached : run (step target serde) p fs = some q) : q.world.server = p.world.server := by
  have keeps : ∀ (r : Pipeline) e s, r.world.server = p.world.server → Quiet cs r e →
      r.step target serde e = some s → s.world.server = p.world.server := by
    intro r e s same quiet taken
    rw [quiet_server quiet taken, same]
  exact run_invariant_of_meets keeps quiet rfl reached

def AtRest (target : Target) (serde : Serde) (cs : List Nat) (p : Pipeline) : Prop :=
  ∀ e, Quiet cs p e → p.step target serde e = none

theorem AtRest.idle (rest : AtRest target serde cs p) : p.world.bridge.outgoing = none := by
  cases waiting : p.world.bridge.outgoing with
  | none => rfl
  | some json =>
    have stuck := rest (.world .feedSend) trivial
    simp [step, World.step, BridgeState.feedSend, waiting] at stuck

theorem AtRest.processed (rest : AtRest target serde cs p)
    (bound : p.world.bridge.feedNext ≤ p.log.length) :
    p.world.bridge.feedNext = p.log.length := by
  by_contra different
  have inside : p.world.bridge.feedNext < p.log.length := by omega
  have stuck := rest (.world .feedRecv) trivial
  have received : ∃ b, p.world.bridge.feedRecv p.world.server.activityTx = some b := by
    by_cases late : p.world.bridge.feedNext < p.world.server.activityTx.oldest
    · exact ⟨_, BridgeState.feedRecv_behind rest.idle late⟩
    · exact ⟨_, BridgeState.feedRecv_next rest.idle (by omega) (List.getElem?_eq_getElem inside)⟩
  obtain ⟨b, received⟩ := received
  simp [step, World.step, received] at stuck

theorem AtRest.drained {c : Nat} {k : ClientTask} (rest : AtRest target serde cs p)
    (member : c ∈ cs) (client : p.clients c = some k)
    (bound : k.rx ≤ p.world.bridge.tx.log.length) :
    k.pc = .gone ∨ (k.pc = .serving [] ∧ k.rx = p.world.bridge.tx.log.length) := by
  have stuck : ∀ act : ClientAct, act.Own p.log k → k.step p.log p.world.bridge act = none := by
    intro act own
    have quiet : Quiet cs p (.client c act) := by
      refine ⟨member, ?_⟩
      intro l found
      rw [client] at found
      exact Option.some.inj found ▸ own
    simpa [step, client] using rest _ quiet
  exact ClientTask.at_rest bound stuck

/-- When nothing new is broadcast, the feed and the clients come to rest in whatever order they take
    their steps. Then a client is gone, or it has read everything; and if nothing was lost for it
    before and the channel has room for what was due, it shows the last activity of every socket. -/
theorem settles {es fs : List PipelineEvent} (reached : run (step target serde) new es = some p)
    (quiet : Meets (step target serde) (Quiet cs) p fs)
    (later : run (step target serde) p fs = some q) :
    fs.length ≤ p.remaining cs ∧ (AtRest target serde cs q → ∀ c ∈ cs, ∀ k,
      q.clients c = some k → k.pc = .gone ∨
        (k.pc = .serving [] ∧ k.rx = q.world.bridge.tx.log.length ∧
          (Meets (step target serde) (NoLoss c) new es → p.Room c → Shows k p.log))) := by
  have steps : q.remaining cs + fs.countP (fun _ => true) ≤ p.remaining cs :=
    run_measure_of_meets (fun _ _ _ quiet taken => quiet_lowers quiet taken) quiet later
  rw [List.countP_true] at steps
  refine ⟨by omega, ?_⟩
  intro rest c member k client
  have whole : run (step target serde) new (es ++ fs) = some q :=
    run_append_eq_some.mpr ⟨p, reached, later⟩
  have sound := sound_of_run whole
  rcases rest.drained member client (sound.written c k client).range.2 with gone | ⟨phase, drained⟩
  · exact .inl gone
  · refine .inr ⟨phase, drained, ?_⟩
    intro noLoss room
    have spared : Meets (step target serde) (NoLoss c) new (es ++ fs) := by
      refine meets_append.mpr ⟨noLoss, ?_⟩
      intro t same
      rw [reached] at same
      exact Option.some.inj same ▸ quiet_meets_noLoss room quiet
    have kept := kept_of_run whole spared
    have log : q.log = p.log := by rw [Pipeline.log, quiet_run_server quiet later, Pipeline.log]
    rw [← log]
    exact kept.shows sound ⟨rest.processed kept.feed.1, rest.idle⟩ client ⟨phase, drained⟩

def arriving : List PipelineEvent := .connect 5 :: World.shownThenClosed.map .world

def settling : List PipelineEvent :=
  [.client 5 (.handshake true), .client 5 .subscribe, .client 5 (.readKey 1), .client 5 .collect,
    .world .feedRecv, .client 5 (.sendItem true), .world .feedSend, .client 5 (.recv true)]

def arrived : Pipeline := (run (step .ptr64 activitySerde) new arriving).getD new

def settled : Pipeline := (run (step .ptr64 activitySerde) arrived settling).getD new

def settledClient : ClientTask := (settled.clients 5).getD .new

theorem settling_quiet : Meets (step .ptr64 activitySerde) (Quiet [5]) arrived settling := by
  have mine : 5 ∈ [5] := by decide
  apply meets_cons rfl ⟨mine, fun _ _ => trivial⟩
  apply meets_cons rfl ⟨mine, fun _ _ => trivial⟩
  refine meets_cons rfl ⟨mine, ?_⟩ ?_
  · rintro k ⟨⟩
    exact ⟨⟨_, List.mem_cons_self, rfl⟩, nofun⟩
  apply meets_cons rfl ⟨mine, fun _ _ => trivial⟩
  apply meets_cons rfl trivial
  apply meets_cons rfl ⟨mine, fun _ _ => trivial⟩
  apply meets_cons rfl trivial
  apply meets_cons rfl ⟨mine, fun _ _ => trivial⟩
  trivial

theorem settled_atRest : AtRest .ptr64 activitySerde [5] settled := by
  intro e quiet
  cases e with
  | world e =>
    cases e with
    | feedRecv => rfl
    | feedSend => rfl
    | _ => exact quiet.elim
  | connect c => exact quiet.elim
  | client c act =>
    obtain ⟨member, own⟩ := quiet
    obtain rfl := List.mem_singleton.mp member
    cases act with
    | incoming next => exact (own settledClient rfl).elim
    | _ => rfl

theorem settles_arriving : settling.length ≤ arrived.remaining [5] ∧
    settled.clients 5 = some settledClient ∧ settledClient.pc = .serving [] ∧
    settledClient.delivered.length = 2 ∧ Shows settledClient arrived.log := by
  have reached : run (step .ptr64 activitySerde) new arriving = some arrived := rfl
  have later : run (step .ptr64 activitySerde) arrived settling = some settled := rfl
  have noLoss : Meets (step .ptr64 activitySerde) (NoLoss 5) new arriving :=
    meets_noLoss_of_short (by decide) (by decide)
  have room : arrived.Room 5 := by
    rintro k ⟨⟩
    change arrived.unread + arrived.waiting ≤ arrived.world.bridge.tx.capacity
    decide
  have client : settled.clients 5 = some settledClient := rfl
  obtain ⟨bound, resting⟩ := settles reached settling_quiet later
  refine ⟨bound, client, rfl, rfl, ?_⟩
  rcases resting settled_atRest 5 (by decide) settledClient client with gone | ⟨_, _, shows⟩
  · cases gone
  · exact shows noLoss room

end Pipeline

end Dirpc
