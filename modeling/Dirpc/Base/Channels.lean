import Mathlib.Data.List.Basic

namespace Base

variable {α : Type*}

/-- A bounded broadcast channel as its whole history: the last `capacity` messages of `log` are
    the ones still retained. -/
structure Broadcast (α : Type*) where
  capacity : Nat
  log : List α
  positive : 0 < capacity

inductive Recv (α : Type*) where
  | ok (x : α)
  | lagged (missed : Nat)
  | empty

def Broadcast.send (b : Broadcast α) (x : α) : Broadcast α := { b with log := b.log ++ [x] }

def Broadcast.oldest (b : Broadcast α) : Nat := b.log.length - b.capacity

/-- Receive at position `next`; the second component is the receiver's position afterwards. A
    receiver whose message has been overwritten is moved to the oldest retained one. -/
def Broadcast.recv (b : Broadcast α) (next : Nat) : Recv α × Nat :=
  if next < b.oldest then (.lagged (b.oldest - next), b.oldest)
  else match b.log[next]? with
    | some x => (.ok x, next + 1)
    | none => (.empty, next)

@[simp] theorem Broadcast.send_log (b : Broadcast α) (x : α) : (b.send x).log = b.log ++ [x] := rfl

@[simp] theorem Broadcast.send_capacity (b : Broadcast α) (x : α) :
    (b.send x).capacity = b.capacity := rfl

theorem Broadcast.oldest_le (b : Broadcast α) : b.oldest ≤ b.log.length := Nat.sub_le ..

theorem Broadcast.recv_ok {b : Broadcast α} {next after : Nat} {x : α}
    (received : b.recv next = (.ok x, after)) :
    b.oldest ≤ next ∧ b.log[next]? = some x ∧ after = next + 1 := by
  unfold Broadcast.recv at received
  split at received
  · cases received
  · rename_i fresh
    split at received
    · rename_i found
      cases received
      exact ⟨Nat.le_of_not_lt fresh, found, rfl⟩
    · cases received

theorem Broadcast.recv_lagged {b : Broadcast α} {next after missed : Nat}
    (received : b.recv next = (.lagged missed, after)) : next < b.oldest ∧ after = b.oldest := by
  unfold Broadcast.recv at received
  split at received
  · rename_i behind
    cases received
    exact ⟨behind, rfl⟩
  · split at received <;> cases received

structure Mpsc (α : Type*) where
  capacity : Nat
  queue : List α
  closed : Bool
  fits : queue.length ≤ capacity

inductive TrySend where
  | sent
  | full
  | closed
  deriving DecidableEq

def Mpsc.channel (capacity : Nat) : Mpsc α := ⟨capacity, [], false, Nat.zero_le _⟩

theorem Mpsc.fits_push (q : Mpsc α) (x : α) (room : q.queue.length < q.capacity) :
    (q.queue ++ [x]).length ≤ q.capacity := by
  rw [List.length_append, List.length_singleton]
  omega

def Mpsc.trySend (q : Mpsc α) (x : α) : TrySend × Mpsc α :=
  if q.closed then (.closed, q)
  else if room : q.queue.length < q.capacity then
    (.sent, { q with queue := q.queue ++ [x], fits := q.fits_push x room })
  else (.full, q)

def Mpsc.recv (q : Mpsc α) : Option (α × Mpsc α) :=
  match taken : q.queue with
  | [] => none
  | x :: rest =>
    some (x, { q with queue := rest, fits := by have := q.fits; simp [taken] at this; omega })

def Mpsc.close (q : Mpsc α) : Mpsc α := ⟨q.capacity, [], true, Nat.zero_le _⟩

@[simp] theorem Mpsc.channel_queue (capacity : Nat) : (channel capacity : Mpsc α).queue = [] := rfl

@[simp] theorem Mpsc.close_queue (q : Mpsc α) : q.close.queue = [] := rfl

theorem Mpsc.trySend_queue (q : Mpsc α) (x : α) :
    (q.trySend x).2.queue =
      q.queue ++ if q.closed = false ∧ q.queue.length < q.capacity then [x] else [] := by
  unfold Mpsc.trySend
  cases q.closed
  · by_cases room : q.queue.length < q.capacity <;> simp [room]
  · simp

@[simp] theorem Mpsc.trySend_capacity (q : Mpsc α) (x : α) :
    (q.trySend x).2.capacity = q.capacity := by
  unfold Mpsc.trySend
  repeat' split
  all_goals rfl

@[simp] theorem Mpsc.trySend_closed (q : Mpsc α) (x : α) :
    (q.trySend x).2.closed = q.closed := by
  unfold Mpsc.trySend
  repeat' split
  all_goals rfl

theorem Mpsc.recv_eq_some {q rest : Mpsc α} {x : α} (taken : q.recv = some (x, rest)) :
    q.queue = x :: rest.queue ∧ rest.capacity = q.capacity ∧ rest.closed = q.closed := by
  unfold Mpsc.recv at taken
  split at taken
  · cases taken
  · rename_i shape
    cases taken
    exact ⟨shape, rfl, rfl⟩

end Base
