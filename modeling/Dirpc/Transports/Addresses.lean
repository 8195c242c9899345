import Dirpc.Base.Runs
import Dirpc.Base.Str
import Mathlib.Logic.Function.Basic

namespace Dirpc

open Base

structure IpcEnv where
  xdgRuntimeDir : Option String
  tmpdir : Option String
  tmp : Option String
  temp : Option String

def ipcPath (env : IpcEnv) (n : Nat) : String :=
  let base := (((env.xdgRuntimeDir.or env.tmpdir).or env.tmp).or env.temp).getD "/tmp"
  base ++ "/discord-ipc-" ++ toString n

def ipcPathCount : Nat := 10

/-- What stands at a directory entry. The socket file of an instance stays when that is gone. -/
inductive Node (Entry : Type*) where
  | absent
  | file
  | link (target : Entry)
  | socket (i : Nat)

inductive StartPhase where
  | idle
  | probing (n : Nat)
  | clearing (n : Nat)
  | binding (n : Nat)
  | listening (n : Nat)
  | failed
  | stopped

/-- The instances of the program, each in its environment, and what stands at the directory entries.
    A path leads an instance to an entry; several spellings may lead to one. -/
structure Sockets (Entry : Type*) where
  env : Nat → IpcEnv
  resolve : Nat → String → Entry
  links : Nat
  node : Entry → Node Entry
  task : Nat → StartPhase

inductive StartEvent where
  | launch (i : Nat)
  | probe (i : Nat) (answered : Bool)
  | remove (i : Nat) (ok : Bool)
  | bind (i : Nat) (ok : Bool)
  | stop (i : Nat)

def StartEvent.starter : StartEvent → Nat
  | .launch i | .probe i _ | .remove i _ | .bind i _ | .stop i => i

def StartEvent.searches : StartEvent → Bool
  | .stop _ => false
  | _ => true

def StartPhase.next (n : Nat) : StartPhase :=
  if n + 1 < ipcPathCount then .probing (n + 1) else .failed

def StartPhase.toGo : StartPhase → Nat
  | .idle => 3 * ipcPathCount + 4
  | .probing n => 3 * (ipcPathCount - n) + 3
  | .clearing n => 3 * (ipcPathCount - n) + 2
  | .binding n => 3 * (ipcPathCount - n) + 1
  | .listening _ | .failed | .stopped => 0

namespace Sockets

variable {Entry : Type*} [DecidableEq Entry]

def entry (s : Sockets Entry) (i n : Nat) : Entry := s.resolve i (ipcPath (s.env i) n)

def listens (s : Sockets Entry) (entry : Entry) : Bool :=
  match s.node entry with
  | .socket i => match s.task i with
    | .listening n => s.entry i n == entry
    | _ => false
  | _ => false

def reaches (s : Sockets Entry) : Nat → Entry → Bool
  | 0, entry => s.listens entry
  | links + 1, entry => match s.node entry with
    | .link target => s.reaches links target
    | _ => s.listens entry

def live (s : Sockets Entry) (entry : Entry) : Bool := s.reaches s.links entry

def setTask (s : Sockets Entry) (i : Nat) (phase : StartPhase) : Sockets Entry :=
  { s with task := Function.update s.task i phase }

def setNode (s : Sockets Entry) (entry : Entry) (node : Node Entry) : Sockets Entry :=
  { s with node := Function.update s.node entry node }

/-- One step of an instance. A probe is answered only where someone listens; it may go without an
    answer there too, when the time is up. A bind needs a vacant entry and may fail on one. -/
def step (s : Sockets Entry) : StartEvent → Option (Sockets Entry)
  | .launch i => match s.task i with
    | .idle => some (s.setTask i (.probing 0))
    | _ => none
  | .probe i answered => match s.task i with
    | .probing n =>
      if answered then
        if s.live (s.entry i n) then some (s.setTask i (.next n)) else none
      else some (s.setTask i (.clearing n))
    | _ => none
  | .remove i ok => match s.task i with
    | .clearing n =>
      if ok then match s.node (s.entry i n) with
        | .absent => none
        | _ => some ((s.setTask i (.binding n)).setNode (s.entry i n) .absent)
      else some (s.setTask i (.binding n))
    | _ => none
  | .bind i ok => match s.task i with
    | .binding n =>
      if ok then match s.node (s.entry i n) with
        | .absent => some ((s.setNode (s.entry i n) (.socket i)).setTask i (.listening n))
        | _ => none
      else some (s.setTask i (.next n))
    | _ => none
  | .stop i => some (s.setTask i .stopped)

/-- A listening instance answers probes in time, and none starts to listen at an entry that another
    is about to clear. -/
def Orderly (s : Sockets Entry) : StartEvent → Prop
  | .probe i answered => ∀ n, s.task i = .probing n → s.live (s.entry i n) = true → answered = true
  | .bind i ok => ok = true → ∀ n, s.task i = .binding n →
      ∀ j m, s.task j = .clearing m → s.entry j m ≠ s.entry i n
  | _ => True

section Cases

variable {s t : Sockets Entry} {i : Nat}

theorem launch_cases (taken : s.step (.launch i) = some t) :
    s.task i = .idle ∧ t = s.setTask i (.probing 0) := by
  simp only [step] at taken
  split at taken
  · rename_i phase
    cases taken
    exact ⟨phase, rfl⟩
  · cases taken

theorem probe_cases {answered : Bool} (taken : s.step (.probe i answered) = some t) :
    ∃ n, s.task i = .probing n ∧
      ((answered = true ∧ s.live (s.entry i n) = true ∧ t = s.setTask i (.next n)) ∨
        (answered = false ∧ t = s.setTask i (.clearing n))) := by
  simp only [step] at taken
  split at taken
  · rename_i n phase
    refine ⟨n, phase, ?_⟩
    cases answered with
    | true =>
      rw [if_pos rfl] at taken
      obtain ⟨live, same⟩ := Option.ite_none_right_eq_some.mp taken
      exact .inl ⟨rfl, live, (Option.some.inj same).symm⟩
    | false => exact .inr ⟨rfl, (Option.some.inj taken).symm⟩
  · cases taken

theorem remove_cases {ok : Bool} (taken : s.step (.remove i ok) = some t) :
    ∃ n, s.task i = .clearing n ∧
      t = if ok then (s.setTask i (.binding n)).setNode (s.entry i n) .absent
        else s.setTask i (.binding n) := by
  simp only [step] at taken
  split at taken
  · rename_i n phase
    refine ⟨n, phase, ?_⟩
    cases ok with
    | true =>
      rw [if_pos rfl] at taken
      split at taken
      · cases taken
      · exact (Option.some.inj taken).symm
    | false => exact (Option.some.inj taken).symm
  · cases taken

theorem bind_cases {ok : Bool} (taken : s.step (.bind i ok) = some t) :
    ∃ n, s.task i = .binding n ∧
      ((ok = true ∧ s.node (s.entry i n) = .absent ∧
          t = (s.setNode (s.entry i n) (.socket i)).setTask i (.listening n)) ∨
        (ok = false ∧ t = s.setTask i (.next n))) := by
  simp only [step] at taken
  split at taken
  · rename_i n phase
    refine ⟨n, phase, ?_⟩
    cases ok with
    | true =>
      rw [if_pos rfl] at taken
      split at taken
      · rename_i free
        exact .inl ⟨rfl, free, (Option.some.inj taken).symm⟩
      · cases taken
    | false => exact .inr ⟨rfl, (Option.some.inj taken).symm⟩
  · cases taken

omit [DecidableEq Entry] in
theorem setTask_cases {j : Nat} {phase found : StartPhase} (task : (s.setTask i phase).task j = found) :
    (j = i ∧ phase = found) ∨ (j ≠ i ∧ s.task j = found) := by
  by_cases same : j = i
  · subst same
    exact .inl ⟨rfl, by simpa [setTask] using task⟩
  · exact .inr ⟨same, by simpa [setTask, Function.update_of_ne same] using task⟩

end Cases

structure Reachable (s : Sockets Entry) : Prop where
  index : ∀ i n, s.task i = .probing n ∨ s.task i = .clearing n ∨ s.task i = .binding n ∨
    s.task i = .listening n → n < ipcPathCount
  leads : ∀ i n, s.task i = .listening n → s.node (s.entry i n) = .socket i
  safe : ∀ i n j m, s.task i = .listening n → s.task j = .clearing m → s.entry j m ≠ s.entry i n

theorem live_of_listening {s : Sockets Entry} (reachable : s.Reachable) {i n : Nat}
    (listening : s.task i = .listening n) : s.live (s.entry i n) = true := by
  have node := reachable.leads i n listening
  have listens : s.listens (s.entry i n) = true := by simp [Sockets.listens, node, listening]
  unfold live
  cases s.links with
  | zero => exact listens
  | succ links =>
    rw [reaches, node]
    exact listens

omit [DecidableEq Entry] in
theorem Reachable.setTask {s : Sockets Entry} {i : Nat} {phase : StartPhase} (reachable : s.Reachable)
    (index : ∀ n, phase = .probing n ∨ phase = .clearing n ∨ phase = .binding n ∨
      phase = .listening n → n < ipcPathCount)
    (quiet : ∀ n, phase ≠ .listening n)
    (clear : ∀ m, phase = .clearing m → ∀ j n, s.task j = .listening n → s.entry i m ≠ s.entry j n) :
    (s.setTask i phase).Reachable := by
  refine ⟨?_, ?_, ?_⟩
  · intro j n found
    by_cases same : j = i
    · subst same
      exact index n (by simpa [Sockets.setTask] using found)
    · exact reachable.index j n (by simpa [Sockets.setTask, Function.update_of_ne same] using found)
  · intro j n listening
    rcases setTask_cases listening with ⟨_, own⟩ | ⟨_, before⟩
    · exact absurd own (quiet n)
    · exact reachable.leads j n before
  · intro j n k m listening clearing
    rcases setTask_cases listening with ⟨_, own⟩ | ⟨_, before⟩
    · exact absurd own (quiet n)
    · rcases setTask_cases clearing with ⟨rfl, own⟩ | ⟨_, before'⟩
      · exact clear m own j n before
      · exact reachable.safe j n k m before before'

theorem next_cases (n : Nat) :
    StartPhase.next n = .failed ∨
      (StartPhase.next n = .probing (n + 1) ∧ n + 1 < ipcPathCount) := by
  unfold StartPhase.next
  split
  · rename_i more
    exact .inr ⟨rfl, more⟩
  · exact .inl rfl

omit [DecidableEq Entry] in
theorem Reachable.next {s : Sockets Entry} {i : Nat} (reachable : s.Reachable) (n : Nat) :
    (s.setTask i (.next n)).Reachable := by
  rcases next_cases n with ended | ⟨more, bound⟩
  · rw [ended]
    exact reachable.setTask (by simp) (by simp) (by simp)
  · rw [more]
    exact reachable.setTask (by simp; omega) (by simp) (by simp)

theorem Reachable.setNode {s : Sockets Entry} {entry : Entry} {node : Node Entry}
    (reachable : s.Reachable) (unused : ∀ i n, s.task i = .listening n → s.entry i n ≠ entry) :
    (s.setNode entry node).Reachable := by
  refine ⟨reachable.index, ?_, reachable.safe⟩
  intro i n listening
  change Function.update s.node entry node (s.entry i n) = _
  rw [Function.update_of_ne (unused i n listening)]
  exact reachable.leads i n listening

theorem Reachable.listen {s : Sockets Entry} {i n : Nat} (reachable : s.Reachable)
    (phase : s.task i = .binding n) (free : s.node (s.entry i n) = .absent)
    (calm : ∀ j m, s.task j = .clearing m → s.entry j m ≠ s.entry i n) :
    ((s.setNode (s.entry i n) (.socket i)).setTask i (.listening n)).Reachable := by
  have others : ∀ j k, s.task j = .listening k → s.entry j k ≠ s.entry i n := by
    intro j k listening same
    have leads := reachable.leads j k listening
    rw [same, free] at leads
    cases leads
  refine ⟨?_, ?_, ?_⟩
  · intro j k found
    by_cases same : j = i
    · subst same
      have own : k = n := by simpa [Sockets.setTask, eq_comm] using found
      exact own ▸ reachable.index j n (.inr (.inr (.inl phase)))
    · apply reachable.index j k
      simpa [Sockets.setTask, Sockets.setNode, Function.update_of_ne same] using found
  · intro j k listening
    change Function.update s.node (s.entry i n) (.socket i) (s.entry j k) = _
    rcases setTask_cases listening with ⟨rfl, own⟩ | ⟨_, before⟩
    · cases own
      exact Function.update_self ..
    · rw [Function.update_of_ne (others j k before)]
      exact reachable.leads j k before
  · intro j k l m listening clearing
    rcases setTask_cases clearing with ⟨_, own⟩ | ⟨_, clears⟩
    · cases own
    · rcases setTask_cases listening with ⟨rfl, own⟩ | ⟨_, before⟩
      · cases own
        exact calm l m clears
      · exact reachable.safe j k l m before clears

theorem Reachable.step {s t : Sockets Entry} {e : StartEvent} (reachable : s.Reachable)
    (orderly : s.Orderly e) (taken : s.step e = some t) : t.Reachable := by
  cases e with
  | launch i =>
    obtain ⟨_, rfl⟩ := launch_cases taken
    exact reachable.setTask (by simp [ipcPathCount]) (by simp) (by simp)
  | probe i answered =>
    obtain ⟨n, phase, ⟨_, _, rfl⟩ | ⟨silent, rfl⟩⟩ := probe_cases taken
    · exact reachable.next n
    · have bound := reachable.index i n (.inl phase)
      refine reachable.setTask (by simp; omega) (by simp) ?_
      intro m own j k listening same
      cases own
      have live := live_of_listening reachable listening
      rw [← same] at live
      rw [orderly n phase live] at silent
      cases silent
  | remove i ok =>
    obtain ⟨n, phase, rfl⟩ := remove_cases taken
    have bound := reachable.index i n (.inr (.inl phase))
    have binding : (s.setTask i (.binding n)).Reachable :=
      reachable.setTask (by simp; omega) (by simp) (by simp)
    cases ok with
    | false => exact binding
    | true =>
      apply binding.setNode
      intro j m listening same
      rcases setTask_cases listening with ⟨_, own⟩ | ⟨_, before⟩
      · cases own
      · exact reachable.safe j m i n before phase same.symm
  | bind i ok =>
    obtain ⟨n, phase, ⟨done, free, rfl⟩ | ⟨_, rfl⟩⟩ := bind_cases taken
    · exact reachable.listen phase free (orderly done n phase)
    · exact reachable.next n
  | stop i =>
    cases taken
    exact reachable.setTask (by simp) (by simp) (by simp)

variable {env : Nat → IpcEnv} {resolve : Nat → String → Entry} {links : Nat}
  {node : Entry → Node Entry}

def fresh (env : Nat → IpcEnv) (resolve : Nat → String → Entry) (links : Nat)
    (node : Entry → Node Entry) : Sockets Entry := ⟨env, resolve, links, node, fun _ => .idle⟩

omit [DecidableEq Entry] in
theorem reachable_fresh : (fresh env resolve links node).Reachable :=
  ⟨by simp [fresh], by simp [fresh], by simp [fresh]⟩

/-- Whatever stands at the entries, however the paths are spelled and whoever starts and stops: an
    instance that listens is the one that its path leads to, so no two listen at one entry. -/
theorem listeners_keep_paths {es : List StartEvent} {s : Sockets Entry}
    (reached : run step (fresh env resolve links node) es = some s)
    (orderly : Meets step Orderly (fresh env resolve links node) es) :
    (∀ i n, s.task i = .listening n → n < ipcPathCount ∧ s.node (s.entry i n) = .socket i) ∧
      ∀ i n j m, s.task i = .listening n → s.task j = .listening m →
        s.entry i n = s.entry j m → i = j := by
  have reachable := run_invariant_of_meets (fun _ _ _ kept => kept.step) orderly
    reachable_fresh reached
  refine ⟨?_, ?_⟩
  · intro i n listening
    exact ⟨reachable.index i n (.inr (.inr (.inr listening))), reachable.leads i n listening⟩
  · intro i n j m first second same
    have leads := reachable.leads i n first
    rw [same, reachable.leads j m second] at leads
    cases leads
    rfl

def spelled (i : Nat) : IpcEnv :=
  ⟨some (if i = 0 then "/r" else "/r/"), none, none, none⟩

def named (_ : Nat) (path : String) : List (List Char) :=
  (path.toList.splitOnP (· == '/')).filter (· ≠ [])

def vacant : Sockets (List (List Char)) := fresh spelled named 40 fun _ => .absent

def firstStart : List StartEvent := [.launch 0, .probe 0 false, .remove 0 false, .bind 0 true]

def secondStart : List StartEvent :=
  [.launch 1, .probe 1 true, .probe 1 false, .remove 1 false, .bind 1 true]

def firstListens : Sockets (List (List Char)) := (run step vacant firstStart).getD vacant

def bothListen : Sockets (List (List Char)) := (run step firstListens secondStart).getD vacant

theorem orderly_bind {s : Sockets Entry} {i : Nat} {ok : Bool}
    (calm : ∀ j m, s.task j ≠ .clearing m) : s.Orderly (.bind i ok) :=
  fun _ _ _ j m clearing => absurd clearing (calm j m)

theorem orderly_firstStart : Meets step Orderly vacant firstStart := by
  refine meets_cons rfl trivial (meets_cons rfl ?_ (meets_cons rfl trivial (meets_cons rfl ?_ trivial)))
  · intro n phase live
    cases phase
    cases live
  · apply orderly_bind
    rintro (_ | j) m clearing
    · cases clearing
    · cases clearing

theorem orderly_secondStart : Meets step Orderly firstListens secondStart := by
  refine meets_cons rfl trivial (meets_cons rfl (fun _ _ _ => rfl) (meets_cons rfl ?_ ?_))
  · intro n phase live
    cases phase
    cases live
  · refine meets_cons rfl trivial (meets_cons rfl ?_ trivial)
    apply orderly_bind
    rintro (_ | _ | j) m clearing
    · cases clearing
    · cases clearing
    · cases clearing

theorem listeners_keep_paths_spelled :
    ipcPath (spelled 0) 0 ≠ ipcPath (spelled 1) 0 ∧
      bothListen.entry 0 0 = bothListen.entry 1 0 ∧
      bothListen.task 0 = .listening 0 ∧ bothListen.task 1 = .listening 1 ∧
      bothListen.node (bothListen.entry 0 0) = .socket 0 ∧
      bothListen.node (bothListen.entry 1 1) = .socket 1 := by
  have reached : run step vacant (firstStart ++ secondStart) = some bothListen := rfl
  have orderly : Meets step Orderly vacant (firstStart ++ secondStart) := by
    refine meets_append.mpr ⟨orderly_firstStart, ?_⟩
    intro t reached
    cases reached
    exact orderly_secondStart
  obtain ⟨leads, _⟩ := listeners_keep_paths reached orderly
  exact ⟨by decide, rfl, rfl, rfl, (leads 0 0 rfl).2, (leads 1 1 rfl).2⟩

/-- Without that order two listen at one entry, where the second has cleared the first away. -/
example : (run step vacant [.launch 0, .launch 1, .probe 0 false, .probe 1 false, .remove 0 false,
    .bind 0 true, .remove 1 true, .bind 1 true]).map (fun s => (s.task 0, s.task 1)) =
      some (.listening 0, .listening 0) := rfl

def TakenBelow (s : Sockets Entry) (i n : Nat) : Prop := ∀ m < n, s.live (s.entry i m) = true

structure Found (s : Sockets Entry) (i : Nat) (t : Sockets Entry) : Prop where
  env : t.env = s.env
  resolve : t.resolve = s.resolve
  links : t.links = s.links
  others : ∀ j, j ≠ i → t.task j = s.task j
  phase : match t.task i with
    | .idle => t.node = s.node
    | .probing n => n < ipcPathCount ∧ t.node = s.node ∧ s.TakenBelow i n
    | .clearing n | .listening n =>
      n < ipcPathCount ∧ s.live (s.entry i n) = false ∧ s.TakenBelow i n
    | .binding n => (n < ipcPathCount ∧ s.live (s.entry i n) = false ∧ s.TakenBelow i n) ∧
      t.node (t.entry i n) = .absent
    | .failed => s.TakenBelow i ipcPathCount
    | .stopped => True

/-- A file is removed where there is one, and a vacant entry can be bound. -/
def Works (s : Sockets Entry) : StartEvent → Prop
  | .remove i ok => ok = false → ∀ n, s.task i = .clearing n → s.node (s.entry i n) = .absent
  | .bind _ ok => ok = true
  | _ => True

structure Undisturbed (i : Nat) (s : Sockets Entry) (e : StartEvent) : Prop where
  own : e.starter = i
  works : s.Works e
  orderly : s.Orderly e

theorem Found.entry {s t : Sockets Entry} {i : Nat} (found : Found s i t) : t.entry = s.entry := by
  funext j n
  unfold Sockets.entry
  rw [found.env, found.resolve]

theorem Found.live {s t : Sockets Entry} {i : Nat} (found : Found s i t) (node : t.node = s.node)
    (idle : s.task i = .idle) (quiet : ∀ n, t.task i ≠ .listening n) (entry : Entry) :
    t.live entry = s.live entry := by
  have listens : ∀ entry, t.listens entry = s.listens entry := by
    intro entry
    unfold Sockets.listens
    rw [node, found.entry]
    cases s.node entry with
    | socket j =>
      by_cases same : j = i
      · subst same
        cases phase : t.task j with
        | listening n => exact absurd phase (quiet n)
        | _ => simp only [idle]
      · simp only [found.others j same]
    | _ => rfl
  unfold Sockets.live
  rw [found.links]
  induction s.links generalizing entry with
  | zero => exact listens entry
  | succ links ih =>
    rw [reaches, reaches, node]
    cases s.node entry with
    | link target => exact ih target
    | _ => exact listens entry

theorem Found.step {s t u : Sockets Entry} {i : Nat} {e : StartEvent} (found : Found s i t)
    (idle : s.task i = .idle) (undisturbed : Undisturbed i t e) (taken : t.step e = some u) :
    Found s i u := by
  obtain ⟨own, works, orderly⟩ := undisturbed
  have others : ∀ {phase : StartPhase} (j : Nat), j ≠ i →
      Function.update t.task i phase j = s.task j := by
    intro phase j other
    rw [Function.update_of_ne other, found.others j other]
  have entry := found.entry
  have now := found.phase
  cases e with
  | launch j =>
    obtain rfl : j = i := own
    obtain ⟨phase, rfl⟩ := launch_cases taken
    rw [phase] at now
    refine ⟨found.env, found.resolve, found.links, fun j other => others j other, ?_⟩
    simp only [setTask, Function.update_self]
    exact ⟨by decide, now, nofun⟩
  | probe j answered =>
    obtain rfl : j = i := own
    obtain ⟨n, phase, rest⟩ := probe_cases taken
    rw [phase] at now
    obtain ⟨bound, node, below⟩ := now
    have live := found.live node idle (by simp [phase]) (t.entry j n)
    rw [entry] at live
    rcases rest with ⟨_, answers, rfl⟩ | ⟨silent, rfl⟩
    · rw [entry, live] at answers
      have further : s.TakenBelow j (n + 1) := by
        intro m less
        rcases Nat.lt_succ_iff_lt_or_eq.mp less with before | rfl
        · exact below m before
        · exact answers
      refine ⟨found.env, found.resolve, found.links, fun j other => others j other, ?_⟩
      simp only [setTask, Function.update_self]
      rcases next_cases n with ended | ⟨more, bound'⟩
      · have last : n + 1 = ipcPathCount := by
          unfold StartPhase.next at ended
          split at ended
          · cases ended
          · omega
        rw [ended, ← last]
        exact further
      · rw [more]
        exact ⟨bound', node, further⟩
    · refine ⟨found.env, found.resolve, found.links, fun j other => others j other, ?_⟩
      simp only [setTask, Function.update_self]
      refine ⟨bound, ?_, below⟩
      rw [← live]
      apply Bool.eq_false_iff.mpr
      intro answers
      rw [orderly n phase (entry ▸ answers)] at silent
      cases silent
  | remove j ok =>
    obtain rfl : j = i := own
    obtain ⟨n, phase, rfl⟩ := remove_cases taken
    rw [phase] at now
    cases ok with
    | true =>
      refine ⟨found.env, found.resolve, found.links, fun j other => others j other, ?_⟩
      simpa [setNode, setTask, Sockets.entry] using now
    | false =>
      have absent := works rfl n phase
      refine ⟨found.env, found.resolve, found.links, fun j other => others j other, ?_⟩
      simpa [setTask, Sockets.entry] using And.intro now absent
  | bind j ok =>
    obtain rfl : j = i := own
    obtain ⟨n, phase, ⟨_, _, rfl⟩ | ⟨failed, _⟩⟩ := bind_cases taken
    · rw [phase] at now
      refine ⟨found.env, found.resolve, found.links, fun j other => others j other, ?_⟩
      simp only [setNode, setTask, Function.update_self]
      exact now.1
    · obtain rfl : ok = true := works
      cases failed
  | stop j =>
    obtain rfl : j = i := own
    cases taken
    refine ⟨found.env, found.resolve, found.links, fun j other => others j other, ?_⟩
    simp only [setTask, Function.update_self]

theorem next_toGo (n : Nat) : (StartPhase.next n).toGo ≤ 3 * (ipcPathCount - n) := by
  unfold StartPhase.next
  split
  · simp only [StartPhase.toGo]
    omega
  · exact Nat.zero_le _

theorem step_toGo {s t : Sockets Entry} {i : Nat} {e : StartEvent} (own : e.starter = i)
    (taken : s.step e = some t) :
    (t.task i).toGo + (if e.searches then 1 else 0) ≤ (s.task i).toGo := by
  cases e with
  | launch j =>
    obtain rfl : j = i := own
    obtain ⟨phase, rfl⟩ := launch_cases taken
    rw [phase]
    simp [setTask, StartPhase.toGo, StartEvent.searches]
  | probe j answered =>
    obtain rfl : j = i := own
    obtain ⟨n, phase, ⟨_, _, rfl⟩ | ⟨_, rfl⟩⟩ := probe_cases taken
    · have less := next_toGo n
      have after : (s.setTask j (.next n)).task j = .next n := Function.update_self ..
      rw [phase, after]
      change (StartPhase.next n).toGo + 1 ≤ 3 * (ipcPathCount - n) + 3
      omega
    · rw [phase]
      simp [setTask, StartPhase.toGo, StartEvent.searches]
  | remove j ok =>
    obtain rfl : j = i := own
    obtain ⟨n, phase, rfl⟩ := remove_cases taken
    rw [phase]
    cases ok <;> simp [setTask, setNode, StartPhase.toGo, StartEvent.searches]
  | bind j ok =>
    obtain rfl : j = i := own
    obtain ⟨n, phase, ⟨_, _, rfl⟩ | ⟨_, rfl⟩⟩ := bind_cases taken
    · rw [phase]
      simp [setTask, StartPhase.toGo, StartEvent.searches]
    · have less := next_toGo n
      have after : (s.setTask j (.next n)).task j = .next n := Function.update_self ..
      rw [phase, after]
      change (StartPhase.next n).toGo + 1 ≤ 3 * (ipcPathCount - n) + 1
      omega
  | stop j =>
    obtain rfl : j = i := own
    cases taken
    simp [setTask, StartPhase.toGo, StartEvent.searches]

theorem Found.goes_on {s t : Sockets Entry} {i : Nat} (found : Found s i t)
    (calm : ∀ j m, s.task j ≠ .clearing m) :
    (∃ n, t.task i = .listening n) ∨ t.task i = .failed ∨ t.task i = .stopped ∨
      ∃ e, e.searches = true ∧ Undisturbed i t e ∧ (t.step e).isSome := by
  have now := found.phase
  cases phase : t.task i with
  | listening n => exact .inl ⟨n, rfl⟩
  | failed => exact .inr (.inl rfl)
  | stopped => exact .inr (.inr (.inl rfl))
  | idle =>
    refine .inr (.inr (.inr ⟨.launch i, rfl, ⟨rfl, trivial, trivial⟩, ?_⟩))
    simp [Sockets.step, phase]
  | probing n =>
    -- the probe is answered exactly where someone listens
    refine .inr (.inr (.inr ⟨.probe i (t.live (t.entry i n)), rfl, ⟨rfl, trivial, ?_⟩, ?_⟩))
    · intro m probing live
      rw [phase] at probing
      cases probing
      exact live
    · cases live : t.live (t.entry i n) <;> simp [Sockets.step, phase, live]
  | clearing n =>
    cases node : t.node (t.entry i n) with
    | absent =>
      refine .inr (.inr (.inr ⟨.remove i false, rfl, ⟨rfl, ?_, trivial⟩, ?_⟩))
      · intro _ m clearing
        rw [phase] at clearing
        cases clearing
        exact node
      · simp [Sockets.step, phase]
    | _ =>
      refine .inr (.inr (.inr ⟨.remove i true, rfl, ⟨rfl, nofun, trivial⟩, ?_⟩))
      simp [Sockets.step, phase, node]
  | binding n =>
    rw [phase] at now
    refine .inr (.inr (.inr ⟨.bind i true, rfl, ⟨rfl, rfl, ?_⟩, ?_⟩))
    · apply orderly_bind
      intro j m clearing
      by_cases same : j = i
      · rw [same, phase] at clearing
        cases clearing
      · rw [found.others j same] at clearing
        exact calm j m clearing
    · simp [Sockets.step, phase, now.2]

/-- An instance that starts undisturbed ends its search, takes the first path at which nobody listens,
    and fails only when somebody listens at each. -/
theorem start_takes_first_free {s t : Sockets Entry} {i : Nat} {es : List StartEvent}
    (idle : s.task i = .idle) (calm : ∀ j m, s.task j ≠ .clearing m)
    (undisturbed : Meets step (Undisturbed i) s es) (reached : run step s es = some t) :
    (∀ n, t.task i = .listening n →
        n < ipcPathCount ∧ s.live (s.entry i n) = false ∧ s.TakenBelow i n) ∧
      (t.task i = .failed → s.TakenBelow i ipcPathCount) ∧
      es.countP StartEvent.searches ≤ 3 * ipcPathCount + 4 ∧
      ((∃ n, t.task i = .listening n) ∨ t.task i = .failed ∨ t.task i = .stopped ∨
        ∃ e, e.searches = true ∧ Undisturbed i t e ∧ (t.step e).isSome) := by
  have start : Found s i s := ⟨rfl, rfl, rfl, fun _ _ => rfl, by rw [idle]⟩
  have keeps : ∀ u e v, Found s i u → Undisturbed i u e → u.step e = some v → Found s i v :=
    fun _ _ _ found undisturbed taken => found.step idle undisturbed taken
  have found := run_invariant_of_meets keeps undisturbed start reached
  have lowers : ∀ (u : Sockets Entry) e v, Undisturbed i u e → u.step e = some v →
      (v.task i).toGo + (if e.searches then 1 else 0) ≤ (u.task i).toGo :=
    fun _ _ _ undisturbed taken => step_toGo undisturbed.own taken
  have steps := run_measure_of_meets lowers undisturbed reached
  have now := found.phase
  refine ⟨?_, ?_, ?_, found.goes_on calm⟩
  · intro n listening
    rw [listening] at now
    exact now
  · intro failed
    rw [failed] at now
    exact now
  · have whole : (s.task i).toGo = 3 * ipcPathCount + 4 := by rw [idle]; rfl
    omega

theorem undisturbed_secondStart : Meets step (Undisturbed 1) firstListens secondStart := by
  have own : Meets step (fun _ e => e.starter = 1) firstListens secondStart :=
    meets_of_forall fun _ => by decide
  have works : Meets step Works firstListens secondStart := by
    refine meets_cons rfl trivial (meets_cons rfl trivial (meets_cons rfl trivial ?_))
    refine meets_cons rfl ?_ (meets_cons rfl rfl trivial)
    intro _ n clearing
    cases clearing
    rfl
  exact (own.and (works.and orderly_secondStart)).imp fun _ _ ⟨own, works, orderly⟩ =>
    ⟨own, works, orderly⟩

theorem start_takes_first_free_spelled :
    bothListen.task 1 = .listening 1 ∧ firstListens.live (firstListens.entry 1 1) = false ∧
      firstListens.TakenBelow 1 1 ∧ secondStart.countP StartEvent.searches ≤ 3 * ipcPathCount + 4 := by
  have reached : run step firstListens secondStart = some bothListen := rfl
  have calm : ∀ j m, firstListens.task j ≠ .clearing m := by
    rintro (_ | j) m clearing
    · cases clearing
    · cases clearing
  obtain ⟨takes, _, bound, _⟩ := start_takes_first_free rfl calm undisturbed_secondStart reached
  have taken := takes 1 rfl
  exact ⟨rfl, taken.2.1, taken.2.2, bound⟩

end Sockets

end Dirpc
