import SqliteAccess.Keyed
import SqliteAccess.Schema.Blueprint

/-!
Calls that build up a blueprint, given by the name of a method with positional and named arguments.
A call whose arguments do not fit its method, or that is refused, leaves the blueprint as it is.
-/

namespace SqliteAccess.Schema

inductive Method where
  | create
  | drop
  | dropIfExists
  | rename
  | dropColumn
  | primary
  | unique
  | index
  | foreign
  | dropUnique
  | dropIndex
  | addColumn
  | increments
  | string
  | decimal
  | enum
  /-- A column whose type has no arguments of its own. -/
  | plain (type : ColumnType)
  | timestamps
deriving DecidableEq, Repr

def Method.ofName? (s : String) : Option Method :=
  match s with
  | "create" => some create
  | "drop" => some drop
  | "drop_if_exists" => some dropIfExists
  | "rename" => some rename
  | "drop_column" => some dropColumn
  | "primary" => some primary
  | "unique" => some unique
  | "index" => some index
  | "foreign" => some foreign
  | "drop_unique" => some dropUnique
  | "drop_index" => some dropIndex
  | "add_column" => some addColumn
  | "increments" => some increments
  | "string" => some string
  | "decimal" => some decimal
  | "enum" => some enum
  | "text" => some (plain .text)
  | "integer" => some (plain .integer)
  | "float" => some (plain .float)
  | "boolean" => some (plain .boolean)
  | "date" => some (plain .date)
  | "datetime" => some (plain .datetime)
  | "time" => some (plain .time)
  | "timestamp" => some (plain .timestamp)
  | "binary" => some (plain .binary)
  | "timestamps" => some timestamps
  | _ => none

structure Call where
  method : Method
  positional : List Value := []
  named : List (String × Value) := []

inductive Reply where
  | self
  | column (c : Column)
  | columns (cs : List Column)

/-- The parameters of a method. Those by position may also be given by name. -/
structure Parameters where
  byPosition : List String
  byName : List String := []
  required : List String := []
  /-- Whether further named arguments describe a column. -/
  open? : Bool := false

structure Bound where
  given : List (String × Value)
  options : List (String × Value)

namespace Bound

def get? (b : Bound) (k : String) : Option Value := Keyed.get? b.given k

def get (b : Bound) (k : String) : Value := (b.get? k).getD .null

end Bound

/-- Every argument must have a parameter, no parameter two arguments, and every required one has
one. -/
def Parameters.bind (p : Parameters) (positional : List Value) (named : List (String × Value)) :
    Except Failure Bound :=
  let placed := p.byPosition.zip positional
  let known := named.filter fun a => (p.byPosition ++ p.byName).contains a.1
  let others := named.filter fun a => !(p.byPosition ++ p.byName).contains a.1
  let given := placed ++ known
  if p.byPosition.length < positional.length then .error .wrongType
  else if known.any fun a => placed.any fun b => a.1 = b.1 then .error .wrongType
  else if !p.open? && !others.isEmpty then .error .wrongType
  else if p.required.any fun k => !given.any fun a => a.1 = k then .error .wrongType
  else .ok ⟨given, others⟩

def Method.parameters : Method → Parameters
  | create | drop | dropIfExists | timestamps => { byPosition := [] }
  | rename => { byPosition := ["to"], required := ["to"] }
  | dropColumn => { byPosition := ["columns"], required := ["columns"] }
  | primary | unique | index => { byPosition := ["columns", "name"], required := ["columns"] }
  | foreign =>
    { byPosition := ["columns"], byName := ["on", "references", "name"],
      required := ["columns", "on"] }
  | dropUnique | dropIndex => { byPosition := ["name"], required := ["name"] }
  | addColumn =>
    { byPosition := ["name", "column_type"], required := ["name", "column_type"], open? := true }
  | increments => { byPosition := ["name"] }
  | string => { byPosition := ["name", "length"], required := ["name"], open? := true }
  | decimal => { byPosition := ["name", "precision", "scale"], required := ["name"], open? := true }
  | enum => { byPosition := ["name", "allowed"], required := ["name", "allowed"], open? := true }
  | plain _ => { byPosition := ["name"], required := ["name"], open? := true }

def textOf : Value → Except Failure String
  | .text s => .ok s
  | _ => .error .wrongType

def textsOf : Value → Except Failure (List String)
  | .list vs => vs.mapM textOf
  | _ => .error .wrongType

def namesOf : Value → Except Failure (List String)
  | .text s => .ok [s]
  | v => textsOf v

def choicesOf : Value → Except Failure (List String)
  | .text s => .ok (s.toList.map fun c => String.ofList [c])
  | v => textsOf v

def countOf : Value → Except Failure (Option Int)
  | .null => .ok none
  | .int n => .ok (some n)
  | _ => .error .wrongType

def nameOf : Option Value → Except Failure (Option String)
  | none | some .null => .ok none
  | some v => (textOf v).map some

def withOption (c : Column) (o : String × Value) : Except Failure Column :=
  match o.1 with
  | "nullable" => .ok { c with nullable := o.2.truthy }
  | "default" => .ok { c with default := o.2 }
  | "auto_increment" => .ok { c with autoIncrement := o.2.truthy }
  | "length" => (countOf o.2).map fun n => { c with length := n }
  | "precision" => (countOf o.2).map fun n => { c with precision := n }
  | "scale" => (countOf o.2).map fun n => { c with scale := n }
  | "allowed" => (choicesOf o.2).map fun vs => { c with allowed := vs }
  | _ => .error .wrongType

def withOptions (c : Column) (os : List (String × Value)) : Except Failure Column :=
  os.foldlM withOption c

namespace Blueprint

def added (b : Blueprint) (c : Except Failure Column) : Except Failure (Blueprint × Reply) :=
  c.map fun c => (b.addColumn c, .column c)

def fluent (b : Except Failure Blueprint) : Except Failure (Blueprint × Reply) :=
  b.map fun b => (b, .self)

def countOr (v : Option Value) (n : Int) : Except Failure (Option Int) :=
  match v with
  | none => .ok (some n)
  | some v => countOf v

def perform (b : Blueprint) (m : Method) (a : Bound) : Except Failure (Blueprint × Reply) :=
  match m with
  | .create => .ok (b.create, .self)
  | .drop => .ok (b.push .dropTable, .self)
  | .dropIfExists => .ok (b.push .dropTableIfExists, .self)
  | .rename => fluent ((textOf (a.get "to")).map fun name => b.push (.rename name))
  | .dropColumn => fluent ((namesOf (a.get "columns")).map fun cs => b.push (.dropColumn cs))
  | .primary => fluent do
    b.checkNoKey
    b.primary (← namesOf (a.get "columns")) (← nameOf (a.get? "name"))
  | .unique => fluent do
    return b.unique (← namesOf (a.get "columns")) (← nameOf (a.get? "name"))
  | .index => fluent do
    return b.index (← namesOf (a.get "columns")) (← nameOf (a.get? "name"))
  | .foreign => fluent do
    return b.foreign (← namesOf (a.get "columns")) (← textOf (a.get "on"))
      (← namesOf ((a.get? "references").getD (.text "id"))) (← nameOf (a.get? "name"))
  | .dropUnique => fluent ((textOf (a.get "name")).map fun n => b.push (.dropUnique n))
  | .dropIndex => fluent ((textOf (a.get "name")).map fun n => b.push (.dropIndex n))
  | .addColumn => b.added do
    let type ← ColumnType.ofValue (a.get "column_type")
    let name ← textOf (a.get "name")
    withOptions { name, type } a.options
  | .increments => do
    b.checkNoPrimary
    let name ← textOf ((a.get? "name").getD (.text "id"))
    let (b, c) ← b.increments name
    return (b, .column c)
  | .string => b.added do
    let name ← textOf (a.get "name")
    let length ← countOr (a.get? "length") 255
    withOptions { name, type := .string, length } a.options
  | .decimal => b.added do
    let name ← textOf (a.get "name")
    let precision ← countOr (a.get? "precision") 8
    let scale ← countOr (a.get? "scale") 2
    withOptions { name, type := .decimal, precision, scale } a.options
  | .enum => b.added do
    let name ← textOf (a.get "name")
    let allowed ← choicesOf (a.get "allowed")
    withOptions { name, type := .enum, allowed } a.options
  | .plain type => b.added do
    let name ← textOf (a.get "name")
    withOptions { name, type } a.options
  | .timestamps =>
    let created : Column := { name := "created_at", type := .timestamp }
    let updated : Column := { name := "updated_at", type := .timestamp }
    .ok ((b.addColumn created).addColumn updated, .columns [created, updated])

def call (b : Blueprint) (c : Call) : Except Failure (Blueprint × Reply) := do
  b.perform c.method (← c.method.parameters.bind c.positional c.named)

end Blueprint

/-- A change to a blueprint: a call, or a command or column listed as it is. -/
inductive Revision where
  | call (c : Call)
  | pushCommand (c : Command)
  | pushColumn (c : Column)

namespace Blueprint

def revise (b : Blueprint) : Revision → Except Failure Blueprint
  | .call c => (b.call c).map (·.1)
  | .pushCommand c => .ok (b.push c)
  | .pushColumn c => .ok (b.pushColumn c)

def reviseAll (b : Blueprint) : List Revision → Except Failure Blueprint
  | [] => .ok b
  | r :: rs => do (← b.revise r).reviseAll rs

end Blueprint

end SqliteAccess.Schema
