import SqliteAccess.Access.Database
import SqliteAccess.Access.Lock
import SqliteAccess.Config.PoolSettings

/-!
A connection manager between two moments: disabled, or with a database that it reaches through a
pool or through one connection under a lock.
-/

namespace SqliteAccess.Access

structure Manager where
  database : Option Database := none
  pool : Option Nat := none
  /-- The id of the one connection. -/
  single : Option Nat := none
  lock : Lock := {}

namespace Manager

def enabled (m : Manager) : Bool := m.database.isSome

def pooled (m : Manager) : Bool := m.pool.isSome

end Manager

/-- How a manager reaches its database: by default through a pool. -/
inductive Reach where
  | standard
  | single
  | pooled (settings : Config.PoolSettings)

/-- Settings that disable pooling ask for the one connection. -/
def Reach.settings? : Reach → Option Config.PoolSettings
  | standard => some {}
  | single => none
  | pooled s => if s.enabled.truthy then some s else none

end SqliteAccess.Access
