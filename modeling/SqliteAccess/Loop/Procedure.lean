import SqliteAccess.Access.Manager
import SqliteAccess.Engine.Opener
import SqliteAccess.Engine.Scripted
import SqliteAccess.Pool.State
import SqliteAccess.Schema.Call

/-!
Procedures that may pause, as data: what can be called, what is left to do when a call comes back, and
what a paused procedure waits for. A task is a stack of such remainders.
-/

namespace SqliteAccess.Loop

open Pool (Handle Lease)
open Access (Database Cursor Answer Mode Reach)
open Sql (Statement Writer)
open Schema (Blueprint Revision)

/-- What kind of thing a procedure results in. -/
inductive Shape where
  | unit
  | handle
  | lease
  | borrowed
  | count
  | cursor
  | answer
  | reply
  | answers
  | statements
  | flag
  | sighting
  | tally
  | manager
deriving DecidableEq, Repr

/-- Rows that the demonstration has written: of writers and of books. -/
structure Tally where
  writers : Value
  books : Value

/-- A connection seen from inside a block, and whether it is in use there. -/
structure Sighting where
  id : Nat
  inUse : Bool

@[reducible] def Shape.Content : Shape → Type
  | unit => Unit
  | handle => Handle
  | lease => Lease
  | borrowed => Option Lease
  | count => Nat
  | cursor => Cursor
  | answer => Answer
  | reply => Option Answer
  | answers => List Answer
  | statements => List Statement
  | flag => Bool
  | sighting => Option Sighting
  | tally => Tally
  | manager => Nat

abbrev Outcome (s : Shape) : Type := Except Failure s.Content

/-- Procedures with their arguments. Pools and managers are given by number. -/
inductive Call : Shape → Type where
  | askOpen : Call .handle
  | askClose (h : Handle) : Call .unit
  | dial (d : Database) : Call .handle
  | send (h : Handle) (s : Statement) : Call .cursor
  | hangUp (h : Handle) : Call .unit
  | connect (d : Database) (wal : Bool) : Call .handle
  | run (d : Database) (h : Handle) (s : Statement) (m : Mode) : Call .answer
  | acquire (p : Nat) : Call .lease
  | openSlot (p : Nat) : Call .lease
  | openBackground (p : Nat) : Call .unit
  | destroy (p id : Nat) : Call .unit
  | evict (p : Nat) : Call .count
  | reap (p : Nat) : Call .unit
  | closePool (p : Nat) : Call .unit
  | lock (m : Nat) : Call .unit
  | setUp (m : Nat) (location : Option Config.Location) (reach : Reach) : Call .manager
  | shutDown (m : Nat) : Call .unit
  | borrow (m : Nat) : Call .borrowed
  | execute (m : Nat) (s : Statement) (mode : Value) : Call .reply
  | executeAll (m : Nat) (ss : List Statement) (mode : Value) : Call .answers
  | block (m : Nat) (hold fail : Bool) : Call .sighting
  | within (m : Nat) (fail : Bool) : Call .flag
  | build (m : Nat) (w : Writer) (b : Blueprint) (changes : List Revision) : Call .statements
  | hasTable (m : Nat) (table : String) : Call .flag
  | bootstrap (url : String) : Call .manager
  | seed (m : Nat) : Call .tally
  | fetch (m : Nat) : Call .reply
  | reset (m : Nat) : Call .unit
  | demonstrate (url : String) : Call .reply

/-- What is left to do, from the outcome of one shape to that of another. -/
inductive Frame : Shape → Shape → Type where
  | start {s : Shape} (c : Call s) : Frame .unit s
  | askedOpen (n : Nat) : Frame .unit .handle
  | askedClose (fault : Option Fault) : Frame .unit .unit
  | dialled (fault : Option Fault) : Frame .unit .handle
  | sent (r : Engine.Rule) : Frame .unit .cursor
  | connected (d : Database) (wal : Bool) : Frame .handle .handle
  | foreignKeysSet (d : Database) (h : Handle) (wal : Bool) : Frame .cursor .handle
  | journalSet (d : Database) (h : Handle) : Frame .cursor .handle
  | ran (d : Database) (sql : String) (m : Mode) (start : Float) : Frame .cursor .answer
  | opened (p : Nat) : Frame .lease .lease
  | registering (p : Nat) : Frame .handle .lease
  | inLine (p : Nat) : Frame .unit .lease
  | openedBackground (p : Nat) : Frame .lease .unit
  | destroyed (p id : Nat) : Frame .unit .unit
  | evicting (p : Nat) (rest : List Nat) (evicted : Nat) : Frame .unit .count
  | rested (p : Nat) (interval : Float) : Frame .unit .unit
  | swept (p : Nat) (interval : Float) : Frame .count .unit
  | reaperEnded (p : Nat) : Frame .unit .unit
  | draining (p : Nat) (rest : List Nat) : Frame .unit .unit
  | backgroundEnded (p : Nat) : Frame .unit .unit
  | letIn (m : Nat) : Frame .unit .unit
  | singleOpened (m : Nat) (d : Database) : Frame .handle .manager
  | poolShut (m : Nat) : Frame .unit .unit
  | lockedToClose (m : Nat) : Frame .unit .unit
  | singleClosed (m : Nat) : Frame .unit .unit
  | leased : Frame .lease .borrowed
  | lockedToUse (m : Nat) : Frame .unit .borrowed
  | executing (m : Nat) (s : Statement) (mode : Mode) (restores : Bool) : Frame .borrowed .reply
  | executed (m : Nat) (lease : Option Lease) (restores : Bool) : Frame .answer .reply
  | batching (m : Nat) (ss : List Statement) (mode : Mode) (restores : Bool) :
      Frame .borrowed .answers
  | batched (m : Nat) (lease : Option Lease) (rest : List Statement) (mode : Mode)
      (done : List Answer) (restores : Bool) : Frame .answer .answers
  | blockEntered (m : Nat) (hold fail : Bool) : Frame .borrowed .sighting
  | blockHeld (m : Nat) (lease : Option Lease) (fail : Bool) : Frame .unit .sighting
  | withinLeft (fail : Bool) : Frame .unit .flag
  | built (ss : List Statement) : Frame .answers .statements
  | sought : Frame .reply .flag
  | started (m : Nat) : Frame .manager .manager
  | tableKnown (m : Nat) : Frame .flag .manager
  | writersMade (m : Nat) : Frame .statements .manager
  | booksMade (m : Nat) : Frame .statements .manager
  | writersWritten (m : Nat) : Frame .reply .tally
  | writersRead (m : Nat) (writers : Option Answer) : Frame .reply .tally
  | booksWritten (writers : Option Answer) : Frame .reply .tally
  | emptied : Frame .answers .unit
  | demoStarted : Frame .manager .reply
  | demoEmptied (m : Nat) : Frame .unit .reply
  | demoSeeded (m : Nat) : Frame .tally .reply
  | demoFetched (m : Nat) : Frame .reply .reply
  | demoEnded (o : Outcome .reply) : Frame .unit .reply

inductive Stack : Shape → Type where
  | done (s : Shape) : Stack s
  | push {s t : Shape} (f : Frame s t) (k : Stack t) : Stack s

/-- What a paused task waits for. Whatever it is, it comes back without content or as a failure. -/
inductive Wait where
  /-- A connection, in the line of a pool, perhaps not for ever. -/
  | turn (p : Nat) (timer : Option Nat)
  /-- The wait in line has been given up at once; the caller has yet to notice. -/
  | givenUp (p : Nat)
  | opening (n : Nat)
  | closing (h : Handle)
  | held
  | sleep (timer : Nat)
  | lock (m : Nat)
  | task (t : Nat)
  | tasks (remaining : List Nat) (cancelled : Bool)

/-- What a procedure does next: end, call another one, become it, or pause. -/
inductive Next (s : Shape) where
  | give (o : Outcome s)
  | call {t : Shape} (c : Call t) (f : Frame t s)
  | jump (c : Call s)
  | pause (w : Wait) (f : Frame .unit s)
  /-- Go on in the next turn. -/
  | again (f : Frame .unit s)

end SqliteAccess.Loop
