import SqliteAccess.Failure
import SqliteAccess.Pool.Connection

/-!
An opener of numbered handles. It answers at once or when it is told to, and fails when that has been
arranged beforehand.
-/

namespace SqliteAccess.Engine

open Pool (Handle)

inductive Opener.Request where
  | open (n : Nat)
  | close (handle : Handle)
deriving DecidableEq, Repr

structure Opener where
  manualOpen : Bool := false
  manualClose : Bool := false
  /-- How many handles have been asked for. -/
  asked : Nat := 0
  /-- Opens that wait, by number, with the tasks that asked for them. -/
  opening : List (Nat × Nat) := []
  closing : List (Handle × Nat) := []
  failOpens : List Fault := []
  failCloses : List Fault := []
  requests : List Opener.Request := []

namespace Opener

def record (o : Opener) (r : Request) : Opener := { o with requests := o.requests ++ [r] }

def ask (o : Opener) : Nat × Opener :=
  let n := o.asked + 1
  (n, { o with asked := n }.record (.open n))

def nextOpenFault (o : Opener) : Option Fault × Opener :=
  (o.failOpens.head?, { o with failOpens := o.failOpens.tail })

def nextCloseFault (o : Opener) : Option Fault × Opener :=
  (o.failCloses.head?, { o with failCloses := o.failCloses.tail })

def awaitOpen (o : Opener) (n task : Nat) : Opener := { o with opening := o.opening ++ [(n, task)] }

def awaitClose (o : Opener) (h : Handle) (task : Nat) : Opener :=
  { o with closing := o.closing ++ [(h, task)] }

def dropOpen (o : Opener) (n : Nat) : Opener :=
  { o with opening := o.opening.eraseP fun p => p.1 = n }

def dropClose (o : Opener) (h : Handle) : Opener :=
  { o with closing := o.closing.eraseP fun p => p.1 = h }

end Opener

end SqliteAccess.Engine
