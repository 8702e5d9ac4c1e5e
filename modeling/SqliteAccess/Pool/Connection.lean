/-!
Connections: the engine's handle under an id that no other connection ever has.
-/

namespace SqliteAccess.Pool

/-- What the engine calls an open connection. -/
inductive Handle where
  | numbered (n : Nat)
  /-- A handle that no engine gave out. -/
  | stray
deriving DecidableEq, Repr

def Handle.text : Handle → String
  | numbered n => "h" ++ toString n
  | stray => "stray"

/-- A connection as its user holds it. -/
structure Lease where
  id : Nat
  handle : Handle
deriving DecidableEq, Repr

def connectionName (id : Nat) : String := "__cid" ++ toString id

structure Connection where
  id : Nat
  handle : Handle
  inUse : Bool := false
  /-- Whether the connection belongs to its pool, that is, it has not been destroyed. -/
  live : Bool := true
  releasedAt : Float

namespace Connection

def lease (c : Connection) : Lease := ⟨c.id, c.handle⟩

def idleFor (c : Connection) (now : Float) : Float := now - c.releasedAt

end Connection

end SqliteAccess.Pool
