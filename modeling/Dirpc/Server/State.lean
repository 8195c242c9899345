import Dirpc.Base.Channels
import Dirpc.Types
import Mathlib.Logic.Function.Basic

namespace Dirpc

open Base

/-- The socket-id counter is an `AtomicU64` on 64-bit targets and an `AtomicU32` elsewhere. -/
inductive Target where
  | ptr64
  | other

def Target.idRange : Target → Nat
  | .ptr64 => 2 ^ 64
  | .other => 2 ^ 32

def socketQueueCapacity : Nat := 128

/-- `sockets` maps a socket id to the queue its registered sender feeds. -/
structure ServerState where
  nextSocketId : Nat
  activityTx : Broadcast ActivityEvent
  sockets : Nat → Option Nat

namespace ServerState

theorem slots_pos : 0 < 64 := by decide

def new : ServerState := ⟨1, ⟨64, [], slots_pos⟩, fun _ => none⟩

def nextId (target : Target) (st : ServerState) : Nat × ServerState :=
  (st.nextSocketId, { st with nextSocketId := (st.nextSocketId + 1) % target.idRange })

def registerSocket (st : ServerState) (socketId tx : Nat) : ServerState :=
  { st with sockets := Function.update st.sockets socketId (some tx) }

def sendActivity (st : ServerState) (event : ActivityEvent) : ServerState :=
  { st with activityTx := st.activityTx.send event }

def unregisterSocket (st : ServerState) (socketId : Nat) : ServerState :=
  ({ st with sockets := Function.update st.sockets socketId none } : ServerState).sendActivity
    ⟨none, none, socketId⟩

def sendToSocket (st : ServerState) (queues : Nat → Mpsc Json) (socketId : Nat) (msg : Json) :
    Nat → Mpsc Json :=
  match st.sockets socketId with
  | none => queues
  | some tx => Function.update queues tx ((queues tx).trySend msg).2

@[simp] theorem sendActivity_sockets (st : ServerState) (event : ActivityEvent) :
    (st.sendActivity event).sockets = st.sockets := rfl

@[simp] theorem sendActivity_nextSocketId (st : ServerState) (event : ActivityEvent) :
    (st.sendActivity event).nextSocketId = st.nextSocketId := rfl

@[simp] theorem sendActivity_activityTx (st : ServerState) (event : ActivityEvent) :
    (st.sendActivity event).activityTx = st.activityTx.send event := rfl

@[simp] theorem registerSocket_activityTx (st : ServerState) (socketId tx : Nat) :
    (st.registerSocket socketId tx).activityTx = st.activityTx := rfl

@[simp] theorem registerSocket_nextSocketId (st : ServerState) (socketId tx : Nat) :
    (st.registerSocket socketId tx).nextSocketId = st.nextSocketId := rfl

theorem registerSocket_sockets (st : ServerState) (socketId tx : Nat) :
    (st.registerSocket socketId tx).sockets =
      Function.update st.sockets socketId (some tx) := rfl

@[simp] theorem unregisterSocket_activityTx (st : ServerState) (socketId : Nat) :
    (st.unregisterSocket socketId).activityTx = st.activityTx.send ⟨none, none, socketId⟩ := rfl

@[simp] theorem unregisterSocket_nextSocketId (st : ServerState) (socketId : Nat) :
    (st.unregisterSocket socketId).nextSocketId = st.nextSocketId := rfl

theorem unregisterSocket_sockets (st : ServerState) (socketId : Nat) :
    (st.unregisterSocket socketId).sockets = Function.update st.sockets socketId none := rfl

theorem sendToSocket_registered {st : ServerState} {socketId tx : Nat}
    (registered : st.sockets socketId = some tx) (queues : Nat → Mpsc Json) (msg : Json) :
    st.sendToSocket queues socketId msg =
      Function.update queues tx ((queues tx).trySend msg).2 := by
  rw [sendToSocket, registered]

end ServerState

end Dirpc
