/-!
Lists of keys with their values. A key set again keeps its place and takes the new value.
-/

namespace SqliteAccess.Keyed

variable {α : Type}

def put : List (String × α) → String → α → List (String × α)
  | [], k, v => [(k, v)]
  | (k', v') :: r, k, v => if k' = k then (k', v) :: r else (k', v') :: put r k v

def ofPairs (ps : List (String × α)) : List (String × α) :=
  ps.foldl (fun r p => put r p.1 p.2) []

def get? (r : List (String × α)) (k : String) : Option α := (r.find? (·.1 = k)).map (·.2)

end SqliteAccess.Keyed
