import SqliteAccess.Demo.Library
import SqliteAccess.Loop.Building

/-!
The steps of the demonstration: a manager of its own, tables where they are missing, rows, a read, and
shutting down.
-/

namespace SqliteAccess.Loop.State

open Access (Answer)

def bootstrap (l : State) (url : String) : State × Next .manager :=
  let m := l.managers.length
  match Config.Location.ofUrl url [] with
  | .error e => (l, .give (.error e))
  | .ok location =>
    ({ l with managers := l.managers ++ [{}] },
      .call (.setUp m (some location) (.pooled Demo.settings)) (.started m))

def started (l : State) (m : Nat) (o : Outcome .manager) : State × Next .manager :=
  match o with
  | .error e => (l, .give (.error e))
  | .ok _ => (l, .call (.hasTable m Demo.writersTable.table) (.tableKnown m))

def tableKnown (l : State) (m : Nat) (o : Outcome .flag) : State × Next .manager :=
  match o with
  | .error e => (l, .give (.error e))
  | .ok found =>
    if found then (l, .give (.ok m))
    else (l, .call (.build m schemaWriter Demo.writersTable.create Demo.writersColumns) (.writersMade m))

def writersMade (l : State) (m : Nat) (o : Outcome .statements) : State × Next .manager :=
  match o with
  | .error e => (l, .give (.error e))
  | .ok _ => (l, .call (.build m schemaWriter Demo.booksTable.create Demo.booksColumns) (.booksMade m))

def booksMade (l : State) (m : Nat) (o : Outcome .statements) : State × Next .manager :=
  (l, .give (o.map fun _ => m))

def seed (l : State) (m : Nat) : State × Next .tally :=
  match Demo.insertWriters with
  | .error e => (l, .give (.error e))
  | .ok s => (l, .call (.execute m s insertMode) (.writersWritten m))

def writersWritten (l : State) (m : Nat) (o : Outcome .reply) : State × Next .tally :=
  match o with
  | .error e => (l, .give (.error e))
  | .ok writers => (l, .call (.execute m Demo.selectWriters readMode) (.writersRead m writers))

def writersRead (l : State) (m : Nat) (writers : Option Answer) (o : Outcome .reply) :
    State × Next .tally :=
  match o with
  | .error e => (l, .give (.error e))
  | .ok (some (.rows rs)) =>
    match Demo.insertBooks rs with
    | .error e => (l, .give (.error e))
    | .ok s => (l, .call (.execute m s insertMode) (.booksWritten writers))
  | .ok _ => (l, .give (.error .wrongType))

def changesOf : Option Answer → Except Failure Value
  | some (.written _ changes) => .ok changes
  | _ => .error .missingPart

def booksWritten (l : State) (writers : Option Answer) (o : Outcome .reply) :
    State × Next .tally :=
  match o with
  | .error e => (l, .give (.error e))
  | .ok books =>
    match changesOf writers, changesOf books with
    | .ok w, .ok b => (l, .give (.ok ⟨w, b⟩))
    | .error e, _ | _, .error e => (l, .give (.error e))

def fetch (l : State) (m : Nat) : State × Next .reply :=
  (l, .jump (.execute m Demo.selectBooks readMode))

def reset (l : State) (m : Nat) : State × Next .unit :=
  (l, .call (.executeAll m Demo.empty readMode) .emptied)

def emptied (l : State) (o : Outcome .answers) : State × Next .unit :=
  (l, .give (o.map fun _ => ()))

def demonstrate (l : State) (url : String) : State × Next .reply :=
  (l, .call (.bootstrap url) .demoStarted)

def demoStarted (l : State) (o : Outcome .manager) : State × Next .reply :=
  match o with
  | .error e => (l, .give (.error e))
  | .ok m => (l, .call (.reset m) (.demoEmptied m))

/-- Once it has a manager, the demonstration shuts it down however it ends. -/
def endDemo (l : State) (m : Nat) (o : Outcome .reply) : State × Next .reply :=
  (l, .call (.shutDown m) (.demoEnded o))

def demoEmptied (l : State) (m : Nat) (o : Outcome .unit) : State × Next .reply :=
  match o with
  | .error e => l.endDemo m (.error e)
  | .ok _ => (l, .call (.seed m) (.demoSeeded m))

def demoSeeded (l : State) (m : Nat) (o : Outcome .tally) : State × Next .reply :=
  match o with
  | .error e => l.endDemo m (.error e)
  | .ok _ => (l, .call (.fetch m) (.demoFetched m))

def demoEnded (l : State) (result : Outcome .reply) (o : Outcome .unit) : State × Next .reply :=
  match o with
  | .error e => (l, .give (.error e))
  | .ok _ => (l, .give result)

end SqliteAccess.Loop.State
