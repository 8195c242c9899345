import Dirpc.Base.Channels
import Dirpc.Base.Replay

namespace Base

variable {α κ ν : Type*} [DecidableEq κ]

/-- A consumer at position `next` holds the store `m` and will, from what the channel still
    retains, arrive at the store of everything ever sent. -/
def Tracks (update : α → Update κ ν) (b : Broadcast α) (next : Nat) (m : κ → Option ν) : Prop :=
  replay m ((b.log.drop (max next b.oldest)).map update) =
    replay (fun _ => none) (b.log.map update)

/-- Sending `x` now costs the consumer nothing: the message that falls out of the channel was
    read, or another one for its key is still to come, or it changes nothing. -/
def Spares (update : α → Update κ ν) (b : Broadcast α) (next : Nat) (m : κ → Option ν)
    (x : α) : Prop :=
  ∀ lost, b.capacity ≤ b.log.length → next ≤ b.oldest → b.log[b.oldest]? = some lost →
    (∃ later ∈ b.log.drop (b.oldest + 1) ++ [x], (update later).1 = (update lost).1) ∨
      m (update lost).1 = (update lost).2

theorem Tracks.initial (update : α → Update κ ν) {b : Broadcast α} (fresh : b.log = []) :
    Tracks update b 0 (fun _ => none) := by
  simp [Tracks, fresh]

theorem drop_eq_cons {xs : List α} {n : Nat} {x : α} (found : xs[n]? = some x) :
    xs.drop n = x :: xs.drop (n + 1) := by
  obtain ⟨bound, value⟩ := List.getElem?_eq_some_iff.mp found
  rw [List.drop_eq_getElem_cons bound, value]

theorem Tracks.recv_ok {update : α → Update κ ν} {b : Broadcast α} {next after : Nat} {x : α}
    {m : κ → Option ν} (tracks : Tracks update b next m)
    (received : b.recv next = (.ok x, after)) :
    Tracks update b after (applyUpdate m (update x)) := by
  obtain ⟨fresh, found, rfl⟩ := Broadcast.recv_ok received
  unfold Tracks at tracks ⊢
  rw [Nat.max_eq_left fresh, drop_eq_cons found, List.map_cons, replay_cons] at tracks
  rwa [Nat.max_eq_left (by omega)]

theorem Tracks.recv_lagged {update : α → Update κ ν} {b : Broadcast α} {next after missed : Nat}
    {m : κ → Option ν} (tracks : Tracks update b next m)
    (received : b.recv next = (.lagged missed, after)) : Tracks update b after m := by
  obtain ⟨behind, rfl⟩ := Broadcast.recv_lagged received
  unfold Tracks at tracks ⊢
  rw [Nat.max_eq_right (by omega)] at tracks
  rwa [Nat.max_self]

theorem Tracks.send {update : α → Update κ ν} {b : Broadcast α} {next : Nat} {m : κ → Option ν}
    {x : α} (tracks : Tracks update b next m) (bound : next ≤ b.log.length)
    (spares : Spares update b next m x) : Tracks update (b.send x) next m := by
  have known := congrArg (fun store => replay store [update x]) tracks
  unfold Tracks
  simp only [Broadcast.send_log, List.map_append, List.map_cons, List.map_nil, replay_append]
  rw [← known]
  by_cases kept : b.log.length < b.capacity ∨ b.oldest < next
  · -- nothing unread falls out
    have same : max next (b.send x).oldest = max next b.oldest := by
      simp only [Broadcast.oldest, Broadcast.send_log, Broadcast.send_capacity,
        List.length_append, List.length_singleton] at kept ⊢
      omega
    have within : max next b.oldest ≤ b.log.length := Nat.max_le.mpr ⟨bound, b.oldest_le⟩
    rw [same, List.drop_append_of_le_length within, List.map_append, replay_append]
    rfl
  · have full : b.capacity ≤ b.log.length := by omega
    have unread : next ≤ b.oldest := by omega
    have moved : max next (b.send x).oldest = b.oldest + 1 := by
      simp only [Broadcast.oldest, Broadcast.send_log, Broadcast.send_capacity,
        List.length_append, List.length_singleton] at unread ⊢
      omega
    rw [moved, Nat.max_eq_right unread]
    have inside : b.oldest < b.log.length := by
      have := b.positive
      unfold Broadcast.oldest
      omega
    have found := List.getElem?_eq_getElem inside
    rw [List.drop_append_of_le_length inside, drop_eq_cons found]
    simp only [List.map_cons, List.map_append, List.map_nil, ← replay_append]
    rcases spares _ full unread found with ⟨later, member, key⟩ | idle
    · have later' : ∃ v ∈ (b.log.drop (b.oldest + 1)).map update ++ [update x],
          v.1 = (update b.log[b.oldest]).1 := by
        have mapped := List.mem_map_of_mem (f := update) member
        rw [List.map_append] at mapped
        exact ⟨update later, mapped, key⟩
      exact (replay_superseded m [] _ _ later').symm
    · exact (replay_redundant m [] _ _ idle).symm

theorem Tracks.drained {update : α → Update κ ν} {b : Broadcast α} {next : Nat}
    {m : κ → Option ν} (tracks : Tracks update b next m) (drained : next = b.log.length) :
    m = replay (fun _ => none) (b.log.map update) := by
  subst drained
  unfold Tracks at tracks
  rwa [Nat.max_eq_left b.oldest_le, List.drop_length] at tracks

end Base
