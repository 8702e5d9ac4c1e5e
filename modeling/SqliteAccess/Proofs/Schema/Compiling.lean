import SqliteAccess.Proofs.Batch.Standing
import SqliteAccess.Proofs.Life.Prepared

/-!
The first step of a call that applies the description of a table, by which all of it is compiled or the call is
refused. Until then nobody has anything to tell the task that the call is made for.
-/

namespace SqliteAccess.Schema

open Sql (Statement Writer)

variable {w : Writer} {b b' : Blueprint} {changes : List Revision} {cs before after : List Command} {c : Command}
  {e : Failure} {xs : List Compiled} {ss : List Statement}

def written (xs : List Compiled) : List Statement := xs.flatMap fun x => x.toList.map (⟨·, []⟩)

/-- The table does not get as far as its statements: a change to its description fails, or a command cannot
be compiled, of which the first one tells why. -/
inductive Blueprint.Refused (b : Blueprint) (w : Writer) (changes : List Revision) (e : Failure) : Prop
  | revised : b.reviseAll changes = .error e → Blueprint.Refused b w changes e
  | compiled {b' : Blueprint} {before after : List Command} {c : Command} : b.reviseAll changes = .ok b' →
      b'.commands = before ++ c :: after → (∀ d ∈ before, ∃ x, compile w b' d = .ok x) →
      compile w b' c = .error e → Blueprint.Refused b w changes e

/-- The statements of all commands, in their order. -/
inductive Blueprint.Compiles (b : Blueprint) (w : Writer) (changes : List Revision) : List Statement → Prop
  | intro {b' : Blueprint} {xs : List Compiled} : b.reviseAll changes = .ok b' →
      List.Forall₂ (fun c x => compile w b' c = .ok x) b'.commands xs →
      Blueprint.Compiles b w changes (written xs)

theorem statementsOf_error (hbefore : ∀ d ∈ before, ∃ x, compile w b d = .ok x) (hc : compile w b c = .error e) :
    statementsOf w b (before ++ c :: after) = .error e := by
  induction before with
  | nil =>
    rw [List.nil_append, statementsOf, hc]
    rfl
  | cons d before ih =>
    obtain ⟨⟨x, hx⟩, hbefore⟩ := List.forall_mem_cons.mp hbefore
    rw [List.cons_append, statementsOf, hx, ih hbefore]
    rfl

theorem statementsOf_ok (h : List.Forall₂ (fun c x => compile w b c = .ok x) cs xs) :
    statementsOf w b cs = .ok (written xs) := by
  induction h with
  | nil => rfl
  | cons hx _ ih =>
    rw [statementsOf, hx, ih]
    rfl

theorem first_refused (w : Writer) (b : Blueprint) (cs : List Command) :
    (∃ xs, List.Forall₂ (fun c x => compile w b c = .ok x) cs xs) ∨
      ∃ before c after e, cs = before ++ c :: after ∧ (∀ d ∈ before, ∃ x, compile w b d = .ok x) ∧
        compile w b c = .error e := by
  induction cs with
  | nil => exact .inl ⟨[], .nil⟩
  | cons c cs ih =>
    cases hc : compile w b c with
    | error e => exact .inr ⟨[], c, cs, e, rfl, List.forall_mem_nil _, hc⟩
    | ok x =>
      rcases ih with ⟨xs, hxs⟩ | ⟨before, d, after, e, rfl, hbefore, hd⟩
      · exact .inl ⟨x :: xs, .cons hc hxs⟩
      · exact .inr ⟨c :: before, d, after, e, rfl, List.forall_mem_cons.mpr ⟨⟨x, hc⟩, hbefore⟩, hd⟩

theorem Blueprint.refused_or_compiles (b : Blueprint) (w : Writer) (changes : List Revision) :
    (∃ e, b.Refused w changes e) ∨ ∃ ss, b.Compiles w changes ss := by
  cases hb : b.reviseAll changes with
  | error e => exact .inl ⟨e, .revised hb⟩
  | ok b' =>
    rcases first_refused w b' b'.commands with ⟨xs, hxs⟩ | ⟨before, c, after, e, he, hbefore, hc⟩
    · exact .inr ⟨_, .intro hb hxs⟩
    · exact .inl ⟨e, .compiled hb he hbefore hc⟩

end SqliteAccess.Schema

namespace SqliteAccess.Loop

open Access (Database)
open Schema (Blueprint Revision)
open Sql (Statement Writer)
open SqliteAccess.Pool (Lease)

variable {l l' m x : State} {M t : Nat} {b : Blueprint} {w : Writer} {changes : List Revision} {e : Failure}
  {ss : List Statement}

theorem State.report_logs (l : State) (r : Log.Record) : ∃ log, l.report r = { l with log } := by
  unfold State.report
  split
  · exact ⟨_, rfl⟩
  · exact ⟨l.log, rfl⟩

theorem State.reportAll_logs (l : State) (rs : List Log.Record) : ∃ log, l.reportAll rs = { l with log } := by
  unfold State.reportAll
  induction rs generalizing l with
  | nil => exact ⟨l.log, rfl⟩
  | cons r rs ih =>
    obtain ⟨log, hlog⟩ := l.report_logs r
    rw [List.foldl_cons, hlog]
    exact ih _

theorem State.build_refused (h : b.Refused w changes e) (l : State) (M : Nat) :
    ∃ log, l.build M w b changes = ({ l with log }, .give (.error e)) := by
  cases h with
  | revised hb =>
    rw [State.build, hb]
    exact ⟨l.log, rfl⟩
  | @compiled b' before after c hb he hbefore hc =>
    obtain ⟨log, hlog⟩ := l.reportAll_logs (Schema.toSqlRecords w b')
    rw [State.build, hb]
    dsimp only
    rw [hlog, Schema.toSql, he, Schema.statementsOf_error hbefore hc]
    exact ⟨log, rfl⟩

theorem State.build_compiles (h : b.Compiles w changes ss) (l : State) (M : Nat) :
    ∃ log, l.build M w b changes = ({ l with log }, .call (.executeAll M ss State.readMode) (.built ss)) := by
  cases h with
  | @intro b' xs hb hxs =>
    obtain ⟨log, hlog⟩ := l.reportAll_logs (Schema.toSqlRecords w b')
    rw [State.build, hb]
    dsimp only
    rw [hlog, Schema.toSql, Schema.statementsOf_ok hxs]
    dsimp only
    generalize Log.Record.mk .. = r
    obtain ⟨log', hlog'⟩ := State.report_logs { l with log } r
    rw [hlog']
    exact ⟨log', rfl⟩

inductive Point.Due : Point → Prop
  | waits (c : Call .statements) : Point.Due (.waits (.push (.start c) (.done .statements)))
  | told (c : Call .statements) (o : Outcome .unit) :
      Point.Due (.works (.give o) (.push (.start c) (.done .statements)))
  | begins (c : Call .statements) : Point.Due (.works (.call c) (.done .statements))

inductive Stack.Builds : {u : Shape} → Stack u → Prop
  | base (ss : List Statement) : Stack.Builds (.push (.built ss) (.done .statements))
  | push {u v : Shape} (f : Frame u v) {k : Stack v} : k.Builds → Stack.Builds (.push f k)

inductive Point.Late : Point → Prop
  | waits {k : Stack .unit} : k.Builds → Point.Late (.waits k)
  | works {u : Shape} (x : Control u) {k : Stack u} : k.Builds → Point.Late (.works x k)
  | gives (o : Outcome .statements) : Point.Late (.works (.give o) (.done .statements))
  | ended (o : Outcome .statements) : Point.Late (.ended o)

theorem Next.point_late {u : Shape} {k : Stack u} (n : Next u) (hk : k.Builds) : (n.point k).Late := by
  cases n with
  | give | jump => exact .works _ hk
  | call c f => exact .works _ (.push f hk)
  | pause b f | again f => exact .waits (.push f hk)

variable {p p' : Point} {may : {s : Shape} → State → Call s → Prop} {past : List State}

theorem Gets.late (hg : Gets t l l' p p') (hp : p.Late) : p'.Late := by
  cases hg with
  | stays => exact hp
  | @works u w k =>
    cases w with
    | call c =>
      cases hp with
      | works _ hk => exact Next.point_late _ hk
    | back f o =>
      cases hp with
      | works _ hk =>
        cases hk with
        | base ss => exact .gives _
        | push _ hk => exact Next.point_late _ hk
  | ends =>
    cases hp with
    | works _ hk => cases hk
    | gives o => exact .ended o
  | goesOn =>
    cases hp with
    | waits hk => exact .works _ hk

theorem Begun.due (hb : Begun may l p) (hp : p.root = .statements) : p.Due := by
  cases hb with
  | @calls s c =>
    cases (hp : s = .statements)
    exact .begins c
  | @makes s c =>
    cases (hp : s = .statements)
    exact .waits c
  | forPool => cases hp

theorem Point.Due.step (hp : p.Due) (hc : l.Clear t) (hs : l.Happens may l') (hat : l.AtWork)
    (hl : l.point? t = some p) (hl' : l'.point? t = some p') (hg : Gets t l l' p p') :
    p'.Late ∨ p'.Due ∧ l'.Clear t := by
  cases hg with
  | stays hne => exact .inr ⟨hp, (hs.apart hat hc.2 hne hl hl').clear hc⟩
  | ends => cases hp
  | goesOn hr hr' =>
    cases hp with
    | waits c =>
      obtain ⟨signal, y, hres, rfl⟩ := hs.resumed hr hr'
      exact .inr ⟨.told c _, hres.clear hc⟩
  | @works u w k hr he =>
    cases w with
    | call c =>
      cases hp with
      | begins c =>
        cases c with
        | build M w b changes =>
          refine .inl ?_
          rcases b.refused_or_compiles w changes with ⟨e, h⟩ | ⟨ss, h⟩
          · obtain ⟨log, hlog⟩ := State.build_refused h l M
            simp only [Work.perform, begin, hlog]
            exact .gives _
          · obtain ⟨log, hlog⟩ := State.build_compiles h l M
            simp only [Work.perform, begin, hlog]
            exact .works _ (.base ss)
    | back f o =>
      cases hp with
      | told c o =>
        cases o with
        | error e => exact .inl (.gives _)
        | ok =>
          refine .inr ⟨.begins c, ?_⟩
          rw [he]
          exact hc.carryOn _ _

theorem Course.due (hc : Course may l past m) (hl : l.Blank) (hp : m.point? t = some p)
    (hroot : p.root = .statements) : p.Late ∨ p.Due ∧ m.Clear t := by
  refine hc.induct (P := fun _ m => ∀ t p, m.point? t = some p → p.root = .statements → p.Late ∨ p.Due ∧ m.Clear t)
    (fun t p hp _ => ?_) (fun past m m' hc ih hs t p' hp' hroot => ?_) t p hp hroot
  · simp [State.point?, hl.tasks, hl.running] at hp
  · -- A task has got where it is by a step of its own, has stayed there, or has just been made.
    have hat := hc.atWork (.of_none hl.running)
    rcases hs.came hat hp' with ⟨p, hp, hg⟩ | ⟨hle, hbegun⟩
    · rcases ih t p hp (hg.root.symm.trans hroot) with hlate | ⟨hdue, hclear⟩
      · exact .inl (hg.late hlate)
      · exact hdue.step hclear hs hat hp hp' hg
    · have hclear : m.Clear t := hc.clear hl.tasks hl.running hl.pools hle
      exact .inr ⟨hbegun.due hroot, hs.clear_of_le hat hle hclear⟩

theorem Course.clear_of_call {c : Call .statements} (hc : Course may l past m) (hl : l.Blank)
    (hr : m.running = some ⟨t, .statements, .call c, .done .statements⟩) : m.Clear t := by
  have hp : m.point? t = some (.works (.call c) (.done .statements)) :=
    State.point?_at hr (hc.atWork (.of_none hl.running) _ hr)
  rcases hc.due hl hp rfl with hlate | ⟨_, hclear⟩
  · cases hlate with
    | works _ hk => cases hk
  · exact hclear

end SqliteAccess.Loop
