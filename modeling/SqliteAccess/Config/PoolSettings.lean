import SqliteAccess.Decimal.Reader
import SqliteAccess.Failure
import SqliteAccess.Keyed
import SqliteAccess.Text.Lowercase

/-!
Pool settings: how many connections a pool keeps, and how long they wait, rest and idle, in
thousandths of a second. Settings given as text are read by the kind of their key.
-/

namespace SqliteAccess.Config

structure PoolSettings where
  maxConnections : Number := .int 10
  minConnections : Number := .int 2
  idleTimeoutMs : Value := .int 30000
  acquireTimeoutMs : Value := .null
  reapIntervalMs : Value := .int 1000
  enabled : Value := .bool true

/-- The six settings as they are given, before their sizes are known to be numbers. -/
structure Draft where
  maxConnections : Value := .int 10
  minConnections : Value := .int 2
  idleTimeoutMs : Value := .int 30000
  acquireTimeoutMs : Value := .null
  reapIntervalMs : Value := .int 1000
  enabled : Value := .bool true

inductive Setting where
  | maxConnections
  | minConnections
  | idleTimeoutMs
  | acquireTimeoutMs
  | reapIntervalMs
  | enabled
deriving DecidableEq, Repr

namespace Setting

def all : List Setting :=
  [maxConnections, minConnections, idleTimeoutMs, acquireTimeoutMs, reapIntervalMs, enabled]

def key : Setting → String
  | maxConnections => "max_connections"
  | minConnections => "min_connections"
  | idleTimeoutMs => "idle_timeout_ms"
  | acquireTimeoutMs => "acquire_timeout_ms"
  | reapIntervalMs => "reap_interval_ms"
  | enabled => "enabled"

def ofKey? (k : String) : Option Setting := all.find? (·.key = k)

def kind : Setting → SettingKind
  | maxConnections | minConnections => .integer
  | idleTimeoutMs | acquireTimeoutMs | reapIntervalMs => .float
  | enabled => .boolean

end Setting

def trueWords : List String := ["1", "true", "yes", "on"]

def falseWords : List String := ["0", "false", "no", "off"]

def readBoolean? (s : String) : Option Bool :=
  let word := Text.lowercase (String.ofList (Text.trimWith Text.isBlank s.toList))
  if trueWords.contains word then some true
  else if falseWords.contains word then some false
  else none

def readKind? : SettingKind → String → Option Value
  | .integer, s => (Decimal.readInteger? s).map .int
  | .float, s => (Decimal.readFloat? s).map .float
  | .boolean, s => (readBoolean? s).map .bool

def Setting.read (s : Setting) (v : Value) : Except Failure Value :=
  match v with
  | .text t =>
    match readKind? s.kind t with
    | some v => .ok v
    | none => .error (.unreadableSetting s.kind s.key t)
  | v => .ok v

namespace Draft

def set (d : Draft) (s : Setting) (v : Value) : Draft :=
  match s with
  | .maxConnections => { d with maxConnections := v }
  | .minConnections => { d with minConnections := v }
  | .idleTimeoutMs => { d with idleTimeoutMs := v }
  | .acquireTimeoutMs => { d with acquireTimeoutMs := v }
  | .reapIntervalMs => { d with reapIntervalMs := v }
  | .enabled => { d with enabled := v }

def numberOf (v : Value) : Except Failure Number :=
  match v.number? with
  | some n => .ok n
  | none => .error .wrongType

/-- There must be room for a connection, and the minimum must be a count that fits the maximum. -/
def check (d : Draft) : Except Failure PoolSettings := do
  let largest ← numberOf d.maxConnections
  if largest.lt (.int 1) then throw .noConnectionsAllowed
  let least ← numberOf d.minConnections
  if least.lt (.int 0) then throw .negativeMinimum
  if largest.lt least then throw .minimumAboveMaximum
  return ⟨largest, least, d.idleTimeoutMs, d.acquireTimeoutMs, d.reapIntervalMs, d.enabled⟩

end Draft

/-- Settings in order, each read by the kind of its key. The first that fails decides. -/
def readSettings : List (String × Value) → Draft → Except Failure Draft
  | [], d => .ok d
  | (k, v) :: r, d =>
    match Setting.ofKey? k with
    | none => .error (.unknownSetting k)
    | some s => do
      let v ← s.read v
      readSettings r (d.set s v)

namespace PoolSettings

def ofSettings (r : List (String × Value)) : Except Failure PoolSettings := do
  (← readSettings (Keyed.ofPairs r) {}).check

def ofArguments (r : List (String × Value)) : Except Failure PoolSettings :=
  match r.mapM fun p => (Setting.ofKey? p.1).map fun s => (s, p.2) with
  | none => .error .wrongType
  | some given => (given.foldl (fun d p => Draft.set d p.1 p.2) ({} : Draft)).check

end PoolSettings

end SqliteAccess.Config
