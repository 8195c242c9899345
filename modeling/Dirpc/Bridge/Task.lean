import Dirpc.Base.Joiner
import Dirpc.Bridge.Client
import Dirpc.Transports.Connection

namespace Dirpc

open Base Bridge

/-- Where `handle_client` is; in `serving` the rest of the snapshot is still to be written. -/
inductive ClientPc where
  | handshaking
  | upgraded
  | iterating
  | serving (rest : List Json)
  | gone

/-- The task of a bridge client: its positions in the broadcast channel at the subscription and now,
    the keys its map iteration has passed, what that has collected, and what was written. -/
structure ClientTask where
  pc : ClientPc
  start : Nat
  rx : Nat
  read : List Nat
  snapshot : List Json
  delivered : List Json

inductive ClientAct where
  | handshake (ok : Bool)
  | subscribe
  | readKey (key : Nat)
  | collect
  | sendItem (ok : Bool)
  | recv (ok : Bool)
  | incoming (next : WsNext)

def WsNext.stops : WsNext → Bool
  | .close | .ended | .error => true
  | .text _ | .ping | .other => false

namespace ClientTask

def new : ClientTask := ⟨.handshaking, 0, 0, [], [], []⟩

def look (b : BridgeState) (k : ClientTask) (key : Nat) : ClientTask :=
  { k with read := key :: k.read, snapshot := k.snapshot ++ (b.lastMsgs key).toList }

/-- One step of the task. The iteration looks at keys in any order, at a key again when it was
    removed and inserted behind, and ends after every key of the map; only ids of `log` can be
    keys. `recv` never sees the channel closed: the task holds the state that owns the sender. -/
def step (log : List ActivityEvent) (b : BridgeState) (k : ClientTask) :
    ClientAct → Option ClientTask
  | .handshake ok => match k.pc with
    | .handshaking => some { k with pc := if ok then .upgraded else .gone }
    | _ => none
  | .subscribe => match k.pc with
    | .upgraded =>
      some { k with pc := .iterating, start := b.tx.log.length, rx := b.tx.log.length }
    | _ => none
  | .readKey key => match k.pc with
    | .iterating => some (k.look b key)
    | _ => none
  | .collect => match k.pc with
    | .iterating =>
      if ∀ event ∈ log, (b.lastMsgs event.socketId).isSome → event.socketId ∈ k.read then
        some { k with pc := .serving k.snapshot }
      else none
    | _ => none
  | .sendItem ok => match k.pc with
    | .serving (item :: rest) =>
      some (if ok then { k with pc := .serving rest, delivered := k.delivered ++ [item] }
        else { k with pc := .gone })
    | _ => none
  | .recv ok => match k.pc with
    | .serving [] => match b.tx.recv k.rx with
      | (.ok payload, next) =>
        some (if ok then { k with rx := next, delivered := k.delivered ++ [payload] }
          else { k with pc := .gone, rx := next })
      | (.lagged _, next) => some { k with rx := next }
      | (.empty, _) => none
    | _ => none
  | .incoming next => match k.pc with
    | .serving [] => some (if next.stops then { k with pc := .gone } else k)
    | _ => none

/-- The keys whose value at some moment since the subscription the task has taken up. -/
def Learnt (k : ClientTask) (key : String) : Prop :=
  match k.pc with
  | .iterating => ∃ id ∈ k.read, key = toString id
  | .serving _ => True
  | _ => False

def store (k : ClientTask) : String → Option Json :=
  match k.pc with
  | .serving rest => view (k.delivered ++ rest)
  | _ => view k.snapshot

theorem learnt_iterating {k : ClientTask} (phase : k.pc = .iterating) {key : String} :
    k.Learnt key ↔ ∃ id ∈ k.read, key = toString id := by rw [Learnt, phase]

theorem learnt_serving {k : ClientTask} {rest : List Json} (phase : k.pc = .serving rest)
    (key : String) : k.Learnt key := by
  rw [Learnt, phase]
  trivial

theorem store_iterating {k : ClientTask} (phase : k.pc = .iterating) :
    k.store = view k.snapshot := by rw [store, phase]

theorem store_serving {k : ClientTask} {rest : List Json} (phase : k.pc = .serving rest) :
    k.store = view (k.delivered ++ rest) := by rw [store, phase]

section Cases

variable {log : List ActivityEvent} {b : BridgeState} {k k' : ClientTask}

theorem handshake_cases {ok : Bool} (taken : k.step log b (.handshake ok) = some k') :
    k.pc = .handshaking ∧ k' = { k with pc := if ok then .upgraded else .gone } := by
  simp only [step] at taken
  split at taken
  · rename_i phase
    cases taken
    exact ⟨phase, rfl⟩
  · cases taken

theorem subscribe_cases (taken : k.step log b .subscribe = some k') :
    k.pc = .upgraded ∧
      k' = { k with pc := .iterating, start := b.tx.log.length, rx := b.tx.log.length } := by
  simp only [step] at taken
  split at taken
  · rename_i phase
    cases taken
    exact ⟨phase, rfl⟩
  · cases taken

theorem readKey_cases {key : Nat} (taken : k.step log b (.readKey key) = some k') :
    k.pc = .iterating ∧ k' = k.look b key := by
  simp only [step] at taken
  split at taken
  · rename_i phase
    cases taken
    exact ⟨phase, rfl⟩
  · cases taken

theorem collect_cases (taken : k.step log b .collect = some k') :
    k.pc = .iterating ∧
      (∀ event ∈ log, (b.lastMsgs event.socketId).isSome → event.socketId ∈ k.read) ∧
      k' = { k with pc := .serving k.snapshot } := by
  simp only [step] at taken
  split at taken
  · rename_i phase
    split at taken
    · rename_i passed
      cases taken
      exact ⟨phase, passed, rfl⟩
    · cases taken
  · cases taken

theorem sendItem_cases {ok : Bool} (taken : k.step log b (.sendItem ok) = some k') :
    ∃ item rest, k.pc = .serving (item :: rest) ∧
      k' = if ok then { k with pc := .serving rest, delivered := k.delivered ++ [item] }
        else { k with pc := .gone } := by
  simp only [step] at taken
  split at taken
  · rename_i item rest phase
    cases taken
    exact ⟨item, rest, phase, rfl⟩
  · cases taken

theorem recv_cases {ok : Bool} (taken : k.step log b (.recv ok) = some k') :
    k.pc = .serving [] ∧
      ((∃ payload next, b.tx.recv k.rx = (.ok payload, next) ∧
          k' = if ok then { k with rx := next, delivered := k.delivered ++ [payload] }
            else { k with pc := .gone, rx := next }) ∨
        ∃ missed next, b.tx.recv k.rx = (.lagged missed, next) ∧ k' = { k with rx := next }) := by
  simp only [step] at taken
  split at taken
  · rename_i phase
    refine ⟨phase, ?_⟩
    split at taken
    · rename_i payload next received
      cases taken
      exact .inl ⟨payload, next, received, rfl⟩
    · rename_i missed next received
      cases taken
      exact .inr ⟨missed, next, received, rfl⟩
    · cases taken
  · cases taken

theorem incoming_cases {next : WsNext} (taken : k.step log b (.incoming next) = some k') :
    k.pc = .serving [] ∧ k' = if next.stops then { k with pc := .gone } else k := by
  simp only [step] at taken
  split at taken
  · rename_i phase
    cases taken
    exact ⟨phase, rfl⟩
  · cases taken

theorem step_snapshot {act : ClientAct} (taken : k.step log b act = some k') :
    k'.snapshot = k.snapshot ∨
      ∃ id, k'.snapshot = k.snapshot ++ (b.lastMsgs id).toList := by
  cases act with
  | handshake ok =>
    obtain ⟨_, rfl⟩ := handshake_cases taken
    exact .inl rfl
  | subscribe =>
    obtain ⟨_, rfl⟩ := subscribe_cases taken
    exact .inl rfl
  | readKey id =>
    obtain ⟨_, rfl⟩ := readKey_cases taken
    exact .inr ⟨id, rfl⟩
  | collect =>
    obtain ⟨_, _, rfl⟩ := collect_cases taken
    exact .inl rfl
  | sendItem ok =>
    obtain ⟨_, _, _, rfl⟩ := sendItem_cases taken
    cases ok <;> exact .inl rfl
  | recv ok =>
    obtain ⟨_, ⟨_, _, _, rfl⟩ | ⟨_, _, _, rfl⟩⟩ := recv_cases taken
    · cases ok <;> exact .inl rfl
    · exact .inl rfl
  | incoming next =>
    obtain ⟨_, rfl⟩ := incoming_cases taken
    cases next.stops <;> exact .inl rfl

end Cases

end ClientTask

end Dirpc
