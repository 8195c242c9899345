import Dirpc.Base.Json
import Dirpc.Base.Str

namespace Dirpc

open Base

/-- The result of code that may panic. -/
abbrev MayPanic := Option

structure RpcMessage where
  cmd : String := ""
  data : Json := .null
  evt : Option String := none
  nonce : Option String := none
  args : Option Json := none

structure ActivityEvent where
  activity : Option Json
  pid : Option Nat
  socketId : Nat

structure Handshake where
  v : Nat
  clientId : String

inductive IpcOpcode where
  | handshake
  | frame
  | close
  | ping
  | pong
  deriving DecidableEq

def IpcOpcode.toI32 : IpcOpcode → Int
  | .handshake => 0
  | .frame => 1
  | .close => 2
  | .ping => 3
  | .pong => 4

def IpcOpcode.fromI32 (v : Int) : Option IpcOpcode :=
  if v = 0 then some .handshake
  else if v = 1 then some .frame
  else if v = 2 then some .close
  else if v = 3 then some .ping
  else if v = 4 then some .pong
  else none

theorem IpcOpcode.fromI32_toI32 (op : IpcOpcode) : fromI32 op.toI32 = some op := by
  cases op <;> decide

/-- What the program takes from the JSON library when it decodes bytes of a client. -/
structure Serde where
  handshake : List UInt8 → Option Handshake
  rpcMessage : List UInt8 → Option RpcMessage

def Serde.table (handshakes : List (List UInt8 × Handshake))
    (messages : List (List UInt8 × RpcMessage)) : Serde :=
  ⟨fun bytes => (handshakes.find? fun entry => entry.1 == bytes).map Prod.snd,
    fun bytes => (messages.find? fun entry => entry.1 == bytes).map Prod.snd⟩

def utf8 (s : String) : List UInt8 := bytes s.toList

theorem utf8_injective : Function.Injective utf8 := by
  intro s t same
  exact String.toList_inj.mp (bytes_injective same)

end Dirpc
