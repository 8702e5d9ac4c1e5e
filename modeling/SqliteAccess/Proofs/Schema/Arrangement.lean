import SqliteAccess.Proofs.Schema.Calling

/-!
How calls arrange the commands of a description: those that define the columns come before the rest, and
they either create the table or add the columns to one that exists.
-/

namespace SqliteAccess.Schema

def Command.defines (c : Command) : Bool := c.isCreateTable || c.isAddColumns

namespace Blueprint

inductive Laid (b : Blueprint) (rest : List Command) : Prop
  | bare : b.columns = [] → b.commands = rest → Laid b rest
  | adding : b.commands = .addColumns :: rest → Laid b rest
  | creating (n : Nat) : b.commands = List.replicate (n + 1) .createTable ++ rest → Laid b rest

def LaidOut (b : Blueprint) : Prop := ∃ rest, (∀ c ∈ rest, c.defines = false) ∧ b.Laid rest

end Blueprint

variable {b b' : Blueprint} {c : Call} {m : Method} {r : Reply} {rest : List Command} {d : Command}

theorem Command.defines_eq_false : d.defines = false ↔ d.isCreateTable = false ∧ d.isAddColumns = false := by
  rw [Command.defines, Bool.or_eq_false_iff]

theorem Command.none_creates (h : ∀ c ∈ rest, c.defines = false) : rest.any Command.isCreateTable = false :=
  List.any_eq_false.mpr fun c hc => by simp [(Command.defines_eq_false.mp (h c hc)).1]

theorem Command.none_adds (h : ∀ c ∈ rest, c.defines = false) : rest.any Command.isAddColumns = false :=
  List.any_eq_false.mpr fun c hc => by simp [(Command.defines_eq_false.mp (h c hc)).2]

theorem Command.filter_adds (h : ∀ c ∈ rest, c.defines = false) :
    rest.filter (fun c => !c.isAddColumns) = rest := by
  refine List.filter_eq_self.mpr fun c hc => ?_
  rw [(Command.defines_eq_false.mp (h c hc)).2]
  rfl

namespace Blueprint

theorem Laid.push (h : b.Laid rest) (d : Command) : (b.push d).Laid (rest ++ [d]) := by
  cases h with
  | bare hc he => exact .bare hc (by rw [Blueprint.push, he])
  | adding he => exact .adding (by rw [Blueprint.push, he]; rfl)
  | creating n he => exact .creating n (by rw [Blueprint.push, he, List.append_assoc])

theorem LaidOut.push (h : b.LaidOut) (hd : d.defines = false) : (b.push d).LaidOut := by
  obtain ⟨rest, hrest, hl⟩ := h
  refine ⟨rest ++ [d], fun c hc => ?_, hl.push d⟩
  rcases List.mem_append.mp hc with hc | hc
  · exact hrest c hc
  · rw [List.mem_singleton.mp hc, hd]

theorem LaidOut.create (h : b.LaidOut) : b.create.LaidOut := by
  obtain ⟨rest, hrest, hl⟩ := h
  have hkeep := Command.filter_adds hrest
  refine ⟨rest, hrest, ?_⟩
  cases hl with
  | bare _ he => exact .creating 0 (by rw [Blueprint.create, he, hkeep]; rfl)
  | adding he =>
    refine .creating 0 ?_
    rw [Blueprint.create, he, List.filter_cons_of_neg (by decide), hkeep]
    rfl
  | creating n he =>
    refine .creating (n + 1) ?_
    rw [Blueprint.create, he, List.filter_append, hkeep, List.filter_replicate]
    rfl

theorem LaidOut.addColumn (h : b.LaidOut) (c : Column) : (b.addColumn c).LaidOut := by
  obtain ⟨rest, hrest, hl⟩ := h
  refine ⟨rest, hrest, ?_⟩
  unfold Blueprint.addColumn
  dsimp only
  cases hl with
  | bare _ he =>
    have hcreates : (b.pushColumn c).creating = false := by
      rw [Blueprint.creating, Blueprint.pushColumn, he]
      exact Command.none_creates hrest
    have hadds : (b.pushColumn c).commands.any Command.isAddColumns = false := by
      rw [Blueprint.pushColumn, he]
      exact Command.none_adds hrest
    rw [if_neg (by rw [hcreates, hadds]; exact Bool.false_ne_true)]
    exact .adding (by rw [Blueprint.pushColumn, he])
  | adding he =>
    rw [if_pos (by simp [pushColumn, he, Command.isAddColumns])]
    exact .adding he
  | creating n he =>
    rw [if_pos (by simp [pushColumn, Blueprint.creating, he, Command.isCreateTable, List.replicate_succ])]
    exact .creating n he

theorem LaidOut.after (h : b.LaidOut) (c : Call) : (b.after c).LaidOut := by
  rcases b.after_cases c with ⟨_, _, ha, _⟩ | ⟨r, _, _, he⟩
  · rwa [ha]
  · generalize b.after c = b', c.method = m at he
    cases he with
    | creates => exact h.create
    | lists _ hc hd _ => exact h.push (Command.defines_eq_false.mpr ⟨hc, hd⟩)
    | keys => exact h.push rfl
    | adds => exact h.addColumn _
    | stamps => exact (h.addColumn _).addColumn _

end Blueprint

end SqliteAccess.Schema
