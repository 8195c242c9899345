import Dirpc.Base.Follower

namespace Base

variable {α κ ν : Type*} [DecidableEq κ]

def Broadcast.unread (b : Broadcast α) (next : Nat) : List α := b.log.drop (max next b.oldest)

/-- A consumer that joined late holds `m`: for the key `k` it will arrive, from what it can still
    read and what is about to be sent, at what the whole history gives the key. -/
def Joined (update : α → Option (Update κ ν)) (b : Broadcast α) (pending : List α) (next : Nat)
    (m : κ → Option ν) (k : κ) : Prop :=
  replay m ((b.unread next ++ pending).filterMap update) k =
    replay (fun _ => none) ((b.log ++ pending).filterMap update) k

def SparesKey (update : α → Option (Update κ ν)) (b : Broadcast α) (next : Nat)
    (m : κ → Option ν) (k : κ) (x : α) : Prop :=
  ∀ lost u, b.capacity ≤ b.log.length → next ≤ b.oldest → b.log[b.oldest]? = some lost →
    update lost = some u → u.1 = k →
      (∃ later ∈ b.log.drop (b.oldest + 1) ++ [x], ∃ v, update later = some v ∧ v.1 = k) ∨
        m k = u.2

theorem Broadcast.unread_suffix (b : Broadcast α) (next : Nat) :
    ∃ read, b.log = read ++ b.unread next :=
  ⟨b.log.take (max next b.oldest), (List.take_append_drop ..).symm⟩

theorem Broadcast.unread_end (b : Broadcast α) : b.unread b.log.length = [] := by
  rw [unread, Nat.max_eq_left b.oldest_le, List.drop_length]

theorem Broadcast.unread_recv_ok {b : Broadcast α} {next after : Nat} {x : α}
    (received : b.recv next = (.ok x, after)) : b.unread next = x :: b.unread after := by
  obtain ⟨fresh, found, rfl⟩ := Broadcast.recv_ok received
  rw [unread, unread, Nat.max_eq_left fresh, Nat.max_eq_left (by omega), drop_eq_cons found]

theorem Broadcast.unread_recv_lagged {b : Broadcast α} {next after missed : Nat}
    (received : b.recv next = (.lagged missed, after)) : b.unread after = b.unread next := by
  obtain ⟨behind, rfl⟩ := Broadcast.recv_lagged received
  rw [unread, unread, Nat.max_self, Nat.max_eq_right (Nat.le_of_lt behind)]

theorem Broadcast.unread_send {b : Broadcast α} {next : Nat} (bound : next ≤ b.log.length)
    (x : α) : (b.send x).unread next = b.unread next ++ [x] ∨
      ∃ lost, b.capacity ≤ b.log.length ∧ next ≤ b.oldest ∧ b.log[b.oldest]? = some lost ∧
        b.unread next = lost :: b.log.drop (b.oldest + 1) ∧
        (b.send x).unread next = b.log.drop (b.oldest + 1) ++ [x] := by
  unfold unread
  by_cases kept : b.log.length < b.capacity ∨ b.oldest < next
  · left
    have same : max next (b.send x).oldest = max next b.oldest := by
      simp only [oldest, send_log, send_capacity, List.length_append,
        List.length_singleton] at kept ⊢
      omega
    rw [same, send_log, List.drop_append_of_le_length (Nat.max_le.mpr ⟨bound, b.oldest_le⟩)]
  · right
    have full : b.capacity ≤ b.log.length := by omega
    have unread : next ≤ b.oldest := by omega
    have inside : b.oldest < b.log.length := by
      have := b.positive
      unfold oldest
      omega
    have moved : max next (b.send x).oldest = b.oldest + 1 := by
      simp only [oldest, send_log, send_capacity, List.length_append,
        List.length_singleton] at unread ⊢
      omega
    have found := List.getElem?_eq_getElem inside
    refine ⟨b.log[b.oldest], full, unread, found, ?_, ?_⟩
    · rw [Nat.max_eq_right unread, drop_eq_cons found]
    · rw [moved, send_log, List.drop_append_of_le_length inside]

section Joined

variable {update : α → Option (Update κ ν)} {b : Broadcast α} {pending : List α} {next : Nat}
variable {m : κ → Option ν} {k : κ}

theorem Joined.learn (current : m k =
    replay (fun _ => none) ((b.log ++ pending).filterMap update) k) :
    Joined update b pending next m k := by
  obtain ⟨read, split⟩ := b.unread_suffix next
  have whole : (b.log ++ pending).filterMap update =
      read.filterMap update ++ (b.unread next ++ pending).filterMap update := by
    conv_lhs => rw [split, List.append_assoc, List.filterMap_append]
  unfold Joined
  rw [whole] at current ⊢
  exact replay_suffix current

theorem Joined.congr {m' : κ → Option ν} (joined : Joined update b pending next m k)
    (same : m' k = m k) : Joined update b pending next m' k := by
  unfold Joined at joined ⊢
  rw [replay_congr same, joined]

theorem Joined.recv_ok {x : α} {after : Nat} (joined : Joined update b pending next m k)
    (received : b.recv next = (.ok x, after)) :
    Joined update b pending after (replay m ([x].filterMap update)) k := by
  unfold Joined at joined ⊢
  rw [Broadcast.unread_recv_ok received] at joined
  rw [← replay_append, ← List.filterMap_append]
  exact joined

theorem Joined.recv_lagged {after missed : Nat} (joined : Joined update b pending next m k)
    (received : b.recv next = (.lagged missed, after)) : Joined update b pending after m k := by
  unfold Joined at joined ⊢
  rwa [Broadcast.unread_recv_lagged received]

theorem Joined.record (joined : Joined update b [] next m k) (x : α) :
    Joined update b [x] next m k := by
  unfold Joined at joined ⊢
  rw [List.append_nil, List.append_nil] at joined
  simp only [List.filterMap_append, replay_append]
  exact replay_congr joined _

theorem Joined.send {x : α} (joined : Joined update b [x] next m k)
    (bound : next ≤ b.log.length) (spares : SparesKey update b next m k x) :
    Joined update (b.send x) [] next m k := by
  unfold Joined at joined ⊢
  rw [List.append_nil, List.append_nil, Broadcast.send_log, ← joined]
  rcases b.unread_send bound x with kept | ⟨lost, full, behind, found, before, after⟩
  · rw [kept]
  · rw [after, before, List.cons_append]
    cases known : update lost with
    | none => rw [List.filterMap_cons_none known]
    | some u =>
      rw [List.filterMap_cons_some known, replay_cons]
      by_cases same : u.1 = k
      · subst same
        rcases spares lost u full behind found known rfl with ⟨later, member, v, own, key⟩ | idle
        · have told : ∃ w ∈ (b.log.drop (b.oldest + 1) ++ [x]).filterMap update, w.1 = u.1 :=
            ⟨v, List.mem_filterMap.mpr ⟨later, member, own⟩, key⟩
          exact congrFun (replay_superseded m [] _ u told).symm u.1
        · rw [applyUpdate_idle m idle]
      · exact replay_congr (applyUpdate_of_ne m (Ne.symm same)).symm _

omit [DecidableEq κ] in
theorem SparesKey.of_room {x : α} (room : b.log.length < next + b.capacity) :
    SparesKey update b next m k x := by
  intro lost u full behind
  unfold Broadcast.oldest at behind
  omega

theorem Joined.drained (joined : Joined update b [] next m k) (drained : next = b.log.length) :
    m k = replay (fun _ => none) (b.log.filterMap update) k := by
  subst drained
  unfold Joined at joined
  rwa [b.unread_end, List.append_nil, List.append_nil] at joined

end Joined

end Base
