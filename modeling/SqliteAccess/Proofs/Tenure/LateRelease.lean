import SqliteAccess.Proofs.Tenure.Releasing

/-!
A connection that is given back after its manager has been shut down is closed then, as long as the manager has not
been set up with another pool.
-/

namespace SqliteAccess.Loop

open SqliteAccess.Pool (Handle Lease)

variable {l m : State} {past : List State}

/-- Whatever happens, a connection that is out of its pool can be given back to a manager just if that has still this
pool, also when the pool has been closed. In a closed pool its handle is closed then, once and for all, unless the
task that is to do so is cut off before it begins. No handle of a pool is ever closed twice, however closes end; nor is
that of a single connection, as long as closes come back at once. -/
theorem late_release (hl : l.Blank) (hc : Course State.Serves l past m) :
    ((∀ p c, m.Has p c → m.engine.closes.count c.handle ≤ 1) ∧
      ((∀ x ∈ past, x.engine.closings = []) → m.engine.closes.Nodup)) ∧ ∀ p c, m.Has p c → m.Out p c.id → ∀ M,
      (m.poolOf M ≠ some p → (m.giveBack M (some c)).1 = m ∧ ∃ e, (m.giveBack M (some c)).2 = .error e) ∧
      (m.poolOf M = some p → (m.giveBack M (some c)).2 = .ok () ∧
        (m.running = none → m.Shuts p → ∀ past' m', Course State.Serves (m.giveBack M (some c)).1 past' m' →
          m'.isFinished m.tasks.length →
            c.handle ∈ m'.engine.closes ∨ ∃ x ∈ past', x.Forgoes m.tasks.length p c.id)) := by
  have hp := hc.primed hl
  refine ⟨⟨fun p c hin => hp.accounts.closed_once (hc.closesOnce hl) hin, (hc.closesOnce hl).nodup⟩,
    fun p c hin hout M => ⟨(hc.numbered hl).refuses hp.accounts hin, fun hM => ?_⟩⟩
  refine ⟨hout.accepted hM, fun hr hshut past' m' hc' hfin => ?_⟩
  have hgave : Primed (past ++ [m]) (m.giveBack M (some c)).1 := hp.happens (.giveBack M c hr)
  have hstart : Parting m.tasks.length p c [] (m.giveBack M (some c)).1 := .waits (hout.destroys hM hr hshut)
  have hhas : (m.giveBack M (some c)).1.Has p c := (hp.gains (.giveBack M c hr)).has p c hin
  have hparts := hc'.induct (P := fun past' m' => Primed (past ++ [m] ++ past') m' ∧ m'.Has p c ∧
      Parting m.tasks.length p c past' m') ⟨(List.append_nil _).symm ▸ hgave, hhas, hstart⟩ fun past' x x' _ ih hs =>
    ⟨List.append_assoc _ past' [x] ▸ ih.1.happens hs, (ih.1.gains hs).has p c ih.2.1,
      ih.2.2.happens ih.1.accounts ih.2.1 hs⟩
  exact hparts.2.2.ended hfin

def withPool : Call .manager := .setUp 0 (some { filename := "f" }) (.pooled { minConnections := .int 0 })

def outlived : List State × State :=
  let x := State.calling ([], newManager) withPool 2
  let x := State.calling x (.borrow 0) 14
  State.calling x (.shutDown 0) 9

def setUpAnew : List State × State := State.calling outlived withPool 2

def shutAnew : List State × State := State.calling setUpAnew (.shutDown 0) 5

theorem newManager_blank : newManager.Blank := .of_new rfl rfl

theorem outlived_course : Course State.Serves newManager outlived.1 outlived.2 := by
  have hstart : Course State.Serves newManager [] newManager := .start
  have hsetUp := hstart.calling rfl (c := withPool) trivial 2
  have hborrow := hsetUp.calling (by decide +kernel) (c := .borrow 0) trivial 14
  exact hborrow.calling (by decide +kernel) (c := .shutDown 0) trivial 9

theorem setUpAnew_course : Course State.Serves newManager setUpAnew.1 setUpAnew.2 :=
  outlived_course.calling (by decide +kernel) (c := withPool) trivial 2

def broughtBack : List State × State :=
  State.track [] (outlived.2.giveBack 0 (some ⟨1, .numbered 1⟩)).1 7

def Control.rejects {v : Shape} : Control v → Bool
  | .give (.error _) => true
  | _ => false

theorem broughtBack_kept {x : State} (hx : x ∈ broughtBack.1) (t p id : Nat) : ¬ x.Forgoes t p id := by
  have hok : (broughtBack.1.all fun z => (z.running.map fun r => !r.control.rejects).getD true) = true := by
    decide +kernel
  rintro ⟨e, hr⟩
  have hok := List.all_eq_true.mp hok x hx
  simp [hr, Control.rejects] at hok

/-- Then it is closed. -/
theorem late_release_outlived :
    (newManager.Blank ∧ Course State.Serves newManager outlived.1 outlived.2) ∧
      (outlived.2.Has 0 ⟨1, .numbered 1⟩ ∧ outlived.2.Out 0 1 ∧ outlived.2.poolOf 0 = some 0 ∧ outlived.2.Shuts 0) ∧
      (outlived.2.giveBack 0 (some ⟨1, .numbered 1⟩)).2 = .ok () ∧ broughtBack.2.engine.closes = [.numbered 1] := by
  have hidle : outlived.2.running = none := Option.isNone_iff_eq_none.mp (by decide +kernel)
  have hhas : outlived.2.Has 0 ⟨1, .numbered 1⟩ := ⟨_, rfl, by decide +kernel⟩
  have hout : outlived.2.Out 0 1 := ⟨_, rfl, _, rfl, rfl⟩
  have hshuts : outlived.2.Shuts 0 := ⟨_, rfl, rfl⟩
  have hpool : outlived.2.poolOf 0 = some 0 := rfl
  obtain ⟨_, hall⟩ := late_release newManager_blank outlived_course
  obtain ⟨hok, hcloses⟩ := (hall 0 ⟨1, .numbered 1⟩ hhas hout 0).2 hpool
  have hcourse : Course State.Serves (outlived.2.giveBack 0 (some ⟨1, .numbered 1⟩)).1 broughtBack.1 broughtBack.2 :=
    Course.start.track 7
  refine ⟨⟨newManager_blank, outlived_course⟩, ⟨hhas, hout, hpool, hshuts⟩, hok, ?_⟩
  rcases hcloses hidle hshuts _ _ hcourse (by decide +kernel) with hin | ⟨x, hx, hf⟩
  · have hall : ∀ h ∈ broughtBack.2.engine.closes, h = .numbered 1 := by decide +kernel
    have hone : broughtBack.2.engine.closes.length = 1 := by decide +kernel
    obtain ⟨h, he⟩ := List.length_eq_one_iff.mp hone
    rw [he, hall h (he ▸ List.mem_singleton_self h)]
  · exact absurd hf (broughtBack_kept hx _ _ _)

/-- The manager is set up again before the client gives its connection back. Then this is refused, and the connection
is never closed. -/
theorem late_release_refused :
    (newManager.Blank ∧ Course State.Serves newManager shutAnew.1 shutAnew.2) ∧
      setUpAnew.2.point? 1 = some (.ended (u := .borrowed) (.ok (some ⟨1, .numbered 1⟩))) ∧
      setUpAnew.2.giveBack 0 (some ⟨1, .numbered 1⟩) =
        (setUpAnew.2, .error (.foreignConnection (Pool.connectionName 1))) ∧
      shutAnew.2.point? 5 = some (.ended (u := .unit) (.ok ())) ∧
      (∀ t < shutAnew.2.tasks.length, shutAnew.2.isFinished t = true) ∧
      shutAnew.2.engine.opened = 1 ∧ shutAnew.2.engine.closes = [] := by
  refine ⟨⟨newManager_blank, setUpAnew_course.calling (by decide +kernel) (c := .shutDown 0) trivial 5⟩, rfl, rfl, rfl,
    by decide +kernel, by decide +kernel, by decide +kernel⟩

end SqliteAccess.Loop
