import SqliteAccess.Schema.Call

/-!
Sequences of calls on the description of a table. A call that is refused changes nothing; one that is
accepted does one of few things.
-/

namespace SqliteAccess.Schema

def Reply.made : Reply → List Column
  | .self => []
  | .column c => [c]
  | .columns cs => cs

namespace Blueprint

def after (b : Blueprint) (c : Call) : Blueprint :=
  match b.call c with
  | .ok (b', _) => b'
  | .error _ => b

def afterAll (b : Blueprint) (cs : List Call) : Blueprint := cs.foldl after b

/-- The description that calls build up from nothing. -/
def ofCalls (table : String) (cs : List Call) : Blueprint := ({ table } : Blueprint).afterAll cs

def makes (b : Blueprint) (c : Call) : List Column :=
  match b.call c with
  | .ok (_, r) => r.made
  | .error _ => []

end Blueprint

/-- A call that lets the table be created, and that is never refused. -/
def Call.creates (c : Call) : Bool := c.method = .create && c.positional.isEmpty && c.named.isEmpty

inductive Effect (b : Blueprint) : Method → Blueprint → Reply → Prop
  | creates : Effect b .create b.create .self
  | lists {m : Method} {c : Command} : m ≠ .create → c.isCreateTable = false → c.isAddColumns = false →
      c.isPrimary = false → Effect b m (b.push c) .self
  | keys {index : String} {columns : List String} : b.checkNoKey = .ok () →
      Effect b .primary (b.push (.primary index columns)) .self
  | adds {m : Method} {c : Column} : m ≠ .create → Effect b m (b.addColumn c) (.column c)
  | stamps {c d : Column} : c.increments = false → d.increments = false →
      Effect b .timestamps ((b.addColumn c).addColumn d) (.columns [c, d])

variable {α β : Type} {b b' : Blueprint} {m : Method} {r : Reply} {c : Call}

theorem of_bind_eq_ok {x : Except Failure α} {f : α → Except Failure β} {y : β} (h : (x >>= f) = .ok y) :
    ∃ a, x = .ok a ∧ f a = .ok y := by
  cases x with
  | error => cases h
  | ok a => exact ⟨a, rfl, h⟩

theorem of_map_eq_ok {x : Except Failure α} {f : α → β} {y : β} (h : x.map f = .ok y) :
    ∃ a, x = .ok a ∧ f a = y := by
  cases x with
  | error => cases h
  | ok a =>
    cases h
    exact ⟨a, rfl, rfl⟩

namespace Blueprint

theorem of_fluent {x : Except Failure Blueprint} (h : fluent x = .ok (b', r)) : x = .ok b' ∧ r = .self := by
  obtain ⟨a, rfl, he⟩ := of_map_eq_ok h
  cases he
  exact ⟨rfl, rfl⟩

theorem effect_of_added {x : Except Failure Column} (hm : m ≠ .create) (h : b.added x = .ok (b', r)) :
    Effect b m b' r := by
  obtain ⟨c, _, he⟩ := of_map_eq_ok h
  cases he
  exact .adds hm

theorem effect_of_push {x : Except Failure α} {f : α → Command} (hm : m ≠ .create)
    (hc : ∀ a, (f a).isCreateTable = false ∧ (f a).isAddColumns = false ∧ (f a).isPrimary = false)
    (h : fluent (x.map fun a => b.push (f a)) = .ok (b', r)) : Effect b m b' r := by
  obtain ⟨hx, rfl⟩ := of_fluent h
  obtain ⟨a, _, rfl⟩ := of_map_eq_ok hx
  exact .lists hm (hc a).1 (hc a).2.1 (hc a).2.2

theorem effect_of_perform {a : Bound} (h : b.perform m a = .ok (b', r)) : Effect b m b' r := by
  cases m with
  | create =>
    cases h
    exact .creates
  | drop | dropIfExists =>
    cases h
    exact .lists nofun rfl rfl rfl
  | rename | dropColumn | dropUnique | dropIndex =>
    exact effect_of_push nofun (fun _ => ⟨rfl, rfl, rfl⟩) h
  | unique | index =>
    obtain ⟨hx, rfl⟩ := of_fluent h
    obtain ⟨columns, _, hx⟩ := of_bind_eq_ok hx
    obtain ⟨name, _, hx⟩ := of_bind_eq_ok hx
    cases hx
    exact .lists nofun rfl rfl rfl
  | foreign =>
    obtain ⟨hx, rfl⟩ := of_fluent h
    obtain ⟨columns, _, hx⟩ := of_bind_eq_ok hx
    obtain ⟨on, _, hx⟩ := of_bind_eq_ok hx
    obtain ⟨references, _, hx⟩ := of_bind_eq_ok hx
    obtain ⟨name, _, hx⟩ := of_bind_eq_ok hx
    cases hx
    exact .lists nofun rfl rfl rfl
  | primary =>
    obtain ⟨hx, rfl⟩ := of_fluent h
    obtain ⟨_, hkey, hx⟩ := of_bind_eq_ok hx
    obtain ⟨columns, _, hx⟩ := of_bind_eq_ok hx
    obtain ⟨name, _, hx⟩ := of_bind_eq_ok hx
    obtain ⟨_, _, rfl⟩ := of_map_eq_ok hx
    exact .keys hkey
  | increments =>
    obtain ⟨_, _, h⟩ := of_bind_eq_ok h
    obtain ⟨name, _, h⟩ := of_bind_eq_ok h
    obtain ⟨x, hx, h⟩ := of_bind_eq_ok h
    obtain ⟨_, _, rfl⟩ := of_map_eq_ok hx
    cases h
    exact .adds nofun
  | addColumn | string | decimal | enum | plain => exact effect_of_added nofun h
  | timestamps =>
    cases h
    exact .stamps rfl rfl

theorem effect_of_call (h : b.call c = .ok (b', r)) : Effect b c.method b' r := by
  obtain ⟨a, _, h⟩ := of_bind_eq_ok h
  exact effect_of_perform h

theorem after_cases (b : Blueprint) (c : Call) :
    (∃ e, b.call c = .error e ∧ b.after c = b ∧ b.makes c = []) ∨
      ∃ r, b.call c = .ok (b.after c, r) ∧ b.makes c = r.made ∧ Effect b c.method (b.after c) r := by
  cases h : b.call c with
  | error e => exact .inl ⟨e, rfl, by rw [after, h], by rw [makes, h]⟩
  | ok x =>
    obtain ⟨b', r⟩ := x
    have ha : b.after c = b' := by rw [after, h]
    exact .inr ⟨r, by rw [ha], by rw [makes, h], ha ▸ effect_of_call h⟩

theorem afterAll_induction {P : Blueprint → Prop} (hstep : ∀ b c, P b → P (b.after c)) (cs : List Call) (h : P b) :
    P (b.afterAll cs) := by
  induction cs generalizing b with
  | nil => exact h
  | cons c cs ih => exact ih (hstep b c h)

@[simp] theorem addColumn_columns (b : Blueprint) (c : Column) : (b.addColumn c).columns = b.columns ++ [c] := by
  unfold addColumn
  dsimp only
  split <;> rfl

@[simp] theorem addColumn_table (b : Blueprint) (c : Column) : (b.addColumn c).table = b.table := by
  unfold addColumn
  dsimp only
  split <;> rfl

theorem after_table (b : Blueprint) (c : Call) : (b.after c).table = b.table := by
  rcases b.after_cases c with ⟨_, _, ha, _⟩ | ⟨r, _, _, he⟩
  · rw [ha]
  · generalize b.after c = b', c.method = m at he
    cases he with
    | creates | lists | keys => rfl
    | adds => simp
    | stamps => simp

theorem after_columns (b : Blueprint) (c : Call) : (b.after c).columns = b.columns ++ b.makes c := by
  rcases b.after_cases c with ⟨_, _, ha, hm⟩ | ⟨r, _, hm, he⟩
  · rw [ha, hm, List.append_nil]
  · rw [hm]
    generalize b.after c = b', c.method = m at he
    cases he with
    | creates | lists | keys => exact (List.append_nil _).symm
    | adds => simp [Reply.made]
    | stamps => simp [Reply.made]

theorem afterAll_table (b : Blueprint) (cs : List Call) : (b.afterAll cs).table = b.table :=
  afterAll_induction (P := fun b' => b'.table = b.table) (fun b' c h => (b'.after_table c).trans h) cs rfl

theorem ofCalls_table (table : String) (cs : List Call) : (ofCalls table cs).table = table :=
  afterAll_table _ cs

end Blueprint

end SqliteAccess.Schema
