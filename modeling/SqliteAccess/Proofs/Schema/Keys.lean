import SqliteAccess.Proofs.Schema.Calling
import SqliteAccess.Proofs.Schema.Creation

/-!
The primary keys of a table: what its description declares is what the statement that creates it declares.
A call for a key is refused beside another key, but a column that counts up is added beside any.
-/

namespace SqliteAccess.Schema

open Sql (Writer)
open Sql.Identifier (Parts)

namespace Blueprint

/-- How many primary keys are declared. -/
def keys (b : Blueprint) : Nat := b.commands.countP Command.isPrimary + b.columns.countP Column.increments

/-- The call adds a column that counts up although there is a key. -/
def Doubles (b : Blueprint) (c : Call) : Prop := b.keys ≠ 0 ∧ ∃ column ∈ b.makes c, column.increments = true

/-- The call is refused, for the sake of a key that there is. -/
inductive KeepsKey (b : Blueprint) (c : Call) : Prop
  | primary : b.hasPrimary = true → b.call c = .error (.primaryDeclared b.table) → KeepsKey b c
  | column {column : Column} : column ∈ b.columns → column.increments = true →
      b.call c = .error (.primaryIncrements column.name b.table) → KeepsKey b c

end Blueprint

def Clause.declaresKey : Clause → Bool
  | column _ _ _ _ increments => increments
  | foreign _ _ _ => false
  | primary _ => true

variable {b : Blueprint} {c : Call} {a : Bound}

namespace Blueprint

theorem hasPrimary_iff : b.hasPrimary = true ↔ b.commands.countP Command.isPrimary ≠ 0 := by
  simp [hasPrimary, List.countP_eq_zero]

theorem incrementing?_eq_none_iff : b.incrementing? = none ↔ b.columns.countP Column.increments = 0 := by
  simp [incrementing?, List.countP_eq_zero]

theorem checkNoKey_ok (h : b.checkNoKey = .ok ()) : b.keys = 0 := by
  obtain ⟨_, hp, hc⟩ := of_bind_eq_ok h
  unfold checkNoPrimary at hp
  unfold checkNoIncrements at hc
  split at hp
  next => cases hp
  next hno =>
    split at hc
    next => cases hc
    next hnone =>
      have hcolumns := incrementing?_eq_none_iff.mp hnone
      have hcommands : b.commands.countP Command.isPrimary = 0 := by
        by_contra hne
        exact hno (hasPrimary_iff.mpr hne)
      rw [keys, hcommands, hcolumns]

@[simp] theorem addColumn_primaries (b : Blueprint) (c : Column) :
    (b.addColumn c).commands.countP Command.isPrimary = b.commands.countP Command.isPrimary := by
  unfold addColumn
  dsimp only
  split
  · rfl
  · simp [pushColumn, Command.isPrimary]

theorem create_primaries (b : Blueprint) :
    b.create.commands.countP Command.isPrimary = b.commands.countP Command.isPrimary := by
  have hkeep : ∀ c : Command, (c.isPrimary && !c.isAddColumns) = c.isPrimary := by
    intro c
    cases c <;> rfl
  simp only [create, List.countP_cons, List.countP_filter, hkeep]
  rfl

theorem after_primaries (b : Blueprint) (c : Call) :
    (b.after c).commands.countP Command.isPrimary = b.commands.countP Command.isPrimary ∨
      b.keys = 0 ∧ b.makes c = [] ∧ (b.after c).commands.countP Command.isPrimary = 1 := by
  rcases b.after_cases c with ⟨_, _, ha, _⟩ | ⟨r, _, hm, he⟩
  · exact .inl (by rw [ha])
  · rw [hm]
    generalize b.after c = b', c.method = m at he
    cases he with
    | creates => exact .inl b.create_primaries
    | lists _ _ _ hp => exact .inl (by simp [push, hp])
    | keys hkey =>
      have hnone := checkNoKey_ok hkey
      refine .inr ⟨hnone, rfl, ?_⟩
      simp only [Blueprint.keys, Nat.add_eq_zero_iff] at hnone
      simp [push, hnone.1, Command.isPrimary]
    | adds => exact .inl (by simp)
    | stamps => exact .inl (by simp)

theorem makes_increments_le (b : Blueprint) (c : Call) : (b.makes c).countP Column.increments ≤ 1 := by
  rcases b.after_cases c with ⟨_, _, _, hm⟩ | ⟨r, _, hm, he⟩
  · simp [hm]
  · rw [hm]
    generalize b.after c = b', c.method = m at he
    cases he with
    | creates | lists | keys => simp [Reply.made]
    | adds => exact List.countP_le_length
    | stamps hc hd => simp [Reply.made, hc, hd]

theorem after_keys_ge (b : Blueprint) (c : Call) : b.keys ≤ (b.after c).keys := by
  simp only [keys, b.after_columns c, List.countP_append]
  rcases b.after_primaries c with h | ⟨hz, _, _⟩
  · omega
  · simp only [keys] at hz
    omega

theorem after_keys_le_iff (hb : b.keys ≤ 1) : (b.after c).keys ≤ 1 ↔ ¬ b.Doubles c := by
  have hmade := b.makes_increments_le c
  have hsome : (∃ column ∈ b.makes c, column.increments = true) ↔ 0 < (b.makes c).countP Column.increments :=
    List.countP_pos_iff.symm
  rw [Doubles, hsome]
  simp only [keys, b.after_columns c, List.countP_append] at hb ⊢
  rcases b.after_primaries c with h | ⟨hz, hnone, hone⟩
  · omega
  · simp only [keys] at hz
    rw [hnone, hone]
    simp only [List.countP_nil]
    omega

theorem afterAll_keys_ge (b : Blueprint) (cs : List Call) : b.keys ≤ (b.afterAll cs).keys :=
  afterAll_induction (P := fun b' => b.keys ≤ b'.keys) (fun b' c h => Nat.le_trans h (b'.after_keys_ge c)) cs
    (Nat.le_refl _)

theorem afterAll_primaries_le (hb : b.commands.countP Command.isPrimary ≤ 1) (cs : List Call) :
    (b.afterAll cs).commands.countP Command.isPrimary ≤ 1 :=
  afterAll_induction (P := fun b => b.commands.countP Command.isPrimary ≤ 1) (fun b c h => by
    rcases b.after_primaries c with he | ⟨_, _, hone⟩
    · exact he ▸ h
    · exact Nat.le_of_eq hone) cs hb

theorem afterAll_keys_le_iff (hb : b.keys ≤ 1) (cs : List Call) :
    (b.afterAll cs).keys ≤ 1 ↔ ∀ before c behind, cs = before ++ c :: behind → ¬ (b.afterAll before).Doubles c := by
  induction cs generalizing b with
  | nil => simp [afterAll, hb]
  | cons d ds ih =>
    by_cases hd : (b.after d).keys ≤ 1
    · refine (ih hd).trans ⟨fun h before c behind he => ?_, fun h before c behind he => ?_⟩
      · cases before with
        | nil =>
          cases he
          exact (after_keys_le_iff hb).mp hd
        | cons d' before =>
          cases he
          exact h before c behind rfl
      · exact h (d :: before) c behind (congrArg _ he)
    · have hgrown := (b.after d).afterAll_keys_ge ds
      have hmany : ¬ (b.afterAll (d :: ds)).keys ≤ 1 := fun hle => hd (Nat.le_trans hgrown hle)
      refine iff_of_false hmany fun h => h [] d ds rfl ?_
      by_contra hno
      exact hd ((after_keys_le_iff hb).mpr hno)

theorem checkNoKey_error (h : b.keys ≠ 0) : ∃ e, b.checkNoKey = .error e ∧
    (b.hasPrimary = true ∧ e = .primaryDeclared b.table ∨
      ∃ column ∈ b.columns, column.increments = true ∧ e = .primaryIncrements column.name b.table) := by
  cases hp : b.hasPrimary with
  | true => exact ⟨_, by simp [checkNoKey, checkNoPrimary, hp, bind, Except.bind], .inl ⟨rfl, rfl⟩⟩
  | false =>
    have hcommands : b.commands.countP Command.isPrimary = 0 := by
      by_contra hne
      simp [hasPrimary_iff.mpr hne] at hp
    obtain ⟨column, hc⟩ : ∃ column, b.incrementing? = some column := by
      refine Option.ne_none_iff_exists'.mp fun hnone => h ?_
      rw [keys, hcommands, incrementing?_eq_none_iff.mp hnone]
    refine ⟨.primaryIncrements column.name b.table, ?_, .inr ⟨column, ?_, ?_, rfl⟩⟩
    · simp [checkNoKey, checkNoPrimary, checkNoIncrements, hp, hc, bind, Except.bind]
    · exact List.mem_of_find?_eq_some hc
    · exact List.find?_some hc

theorem call_of_bind (hbind : c.method.parameters.bind c.positional c.named = .ok a) :
    b.call c = b.perform c.method a := by
  simp only [call, hbind]
  rfl

theorem keepsKey_of_primary (hbind : c.method.parameters.bind c.positional c.named = .ok a)
    (hm : c.method = .primary) (h : b.keys ≠ 0) : b.KeepsKey c := by
  obtain ⟨e, hcheck, he⟩ := checkNoKey_error h
  have hcall : b.call c = .error e := by
    rw [call_of_bind hbind, hm]
    simp only [perform, hcheck]
    rfl
  rcases he with ⟨hp, rfl⟩ | ⟨column, hin, hinc, rfl⟩
  · exact .primary hp hcall
  · exact .column hin hinc hcall

theorem keepsKey_of_increments (hbind : c.method.parameters.bind c.positional c.named = .ok a)
    (hm : c.method = .increments) (h : b.hasPrimary = true) : b.KeepsKey c := by
  refine .primary h ?_
  rw [call_of_bind hbind, hm]
  simp [perform, checkNoPrimary, h, bind, Except.bind]

end Blueprint

theorem Clause.countP_ofForeign (cs : List Command) :
    (cs.filterMap (Clause.ofForeign? partsOf)).countP Clause.declaresKey = 0 := by
  refine List.countP_eq_zero.mpr fun x hx => ?_
  obtain ⟨c, _, hc⟩ := List.mem_filterMap.mp hx
  cases c <;> cases hc
  exact Bool.false_ne_true

theorem Clause.countP_ofPrimary {cs : List Command} (h : cs.countP Command.isPrimary ≤ 1) :
    (cs.findSome? (Clause.ofPrimary? partsOf)).toList.countP Clause.declaresKey = cs.countP Command.isPrimary := by
  induction cs with
  | nil => rfl
  | cons c cs ih =>
    cases c with
    | primary index columns =>
      simp only [List.countP_cons, Command.isPrimary, if_true] at h ⊢
      have hrest : cs.countP Command.isPrimary = 0 := by omega
      rw [hrest]
      rfl
    | _ => exact ih h

theorem Clause.countP_ofBlueprint (h : b.commands.countP Command.isPrimary ≤ 1) :
    (Clause.ofBlueprint partsOf b).countP Clause.declaresKey = b.keys := by
  have hcolumns : (b.columns.map (Clause.ofColumn partsOf)).countP Clause.declaresKey =
      b.columns.countP Column.increments := List.countP_map
  rw [Clause.ofBlueprint, List.countP_append, List.countP_append, hcolumns, Clause.countP_ofForeign,
    Clause.countP_ofPrimary h, Blueprint.keys]
  omega

/-- However a table has been described, there is one command for a key at most, and one key at most unless
a call has added a column that counts up beside a key. The statement that creates the table declares the
keys of the description. Where there is a key, a call for one is refused, and where there is a command for
one, a call for a column that counts up. -/
theorem one_key_iff (w : Writer) (table : String) (cs : List Call) :
    (Blueprint.ofCalls table cs).commands.countP Command.isPrimary ≤ 1 ∧
    ((Blueprint.ofCalls table cs).keys ≤ 1 ↔ ∀ before c behind, cs = before ++ c :: behind →
      ¬ (Blueprint.ofCalls table before).Doubles c) ∧
    ((Blueprint.ofCalls table cs).columns ≠ [] → ∃ clauses,
      readTable (createTable w (Blueprint.ofCalls table cs)) = some (partsOf table, clauses) ∧
        clauses.countP Clause.declaresKey = (Blueprint.ofCalls table cs).keys) ∧
    ∀ c a, c.method.parameters.bind c.positional c.named = .ok a →
      (c.method = .primary → (Blueprint.ofCalls table cs).keys ≠ 0 →
        (Blueprint.ofCalls table cs).KeepsKey c) ∧
      (c.method = .increments → (Blueprint.ofCalls table cs).hasPrimary = true →
        (Blueprint.ofCalls table cs).KeepsKey c) := by
  have hone : (Blueprint.ofCalls table cs).commands.countP Command.isPrimary ≤ 1 :=
    Blueprint.afterAll_primaries_le (b := { table }) (Nat.zero_le 1) cs
  have hnone : ({ table } : Blueprint).keys ≤ 1 := Nat.zero_le 1
  refine ⟨hone, Blueprint.afterAll_keys_le_iff hnone cs, fun hne => ?_, fun c a hbind => ?_⟩
  · have hread := readTable_createTable w hne
    rw [Blueprint.ofCalls_table] at hread
    exact ⟨_, hread, Clause.countP_ofBlueprint hone⟩
  · exact ⟨Blueprint.keepsKey_of_primary hbind, Blueprint.keepsKey_of_increments hbind⟩

def oneKey : List Call :=
  [{ method := .create }, { method := .plain .integer, positional := [.text "a"] },
    { method := .primary, positional := [.text "a"] }]

def counting : Call := { method := .increments }

theorem one_key_iff_refused : (Blueprint.ofCalls "t" oneKey).keys ≤ 1 ∧
    (Blueprint.ofCalls "t" oneKey).hasPrimary = true ∧ (Blueprint.ofCalls "t" oneKey).KeepsKey counting := by
  have hprimary : (Blueprint.ofCalls "t" oneKey).hasPrimary = true := by decide +kernel
  obtain ⟨-, -, -, hrefused⟩ := one_key_iff {} "t" oneKey
  exact ⟨by decide +kernel, hprimary, (hrefused counting ⟨[], []⟩ rfl).2 rfl hprimary⟩

def countingByOption : Call :=
  { method := .plain .integer, positional := [.text "id"], named := [("auto_increment", .bool true)] }

/-- It is added beside the key, and the table is created with two keys. -/
theorem key_beside_key : (Blueprint.ofCalls "t" (oneKey ++ [countingByOption])).keys = 2 ∧
    readTable (createTable {} (Blueprint.ofCalls "t" (oneKey ++ [countingByOption]))) =
      some (partsOf "t", [.column (partsOf "a") "integer" false none false,
        .column (partsOf "id") "integer" false none true, .primary [partsOf "a"]]) := by
  have hcolumns : (Blueprint.ofCalls "t" (oneKey ++ [countingByOption])).columns ≠ [] := by decide +kernel
  exact ⟨by decide +kernel, (readTable_createTable {} hcolumns).trans (by decide +kernel)⟩

end SqliteAccess.Schema
