import SqliteAccess.Proofs.Access.Desk
import SqliteAccess.Proofs.Life.SettingUp

/-!
Borrowing a connection. Until it has the connection a call sends nothing to the engine but the statements
that prepare a connection.
-/

namespace SqliteAccess.Loop

def Call.Borrows : {s : Shape} → Call s → Prop
  | _, .borrow _ | _, .lock _ | _, .acquire _ | _, .openSlot _ | _, .askOpen => True
  | _, c => c.Connects

def Frame.Borrows : {s t : Shape} → Frame s t → Prop
  | _, _, .leased | _, _, .lockedToUse _ | _, _, .letIn _ | _, _, .opened _ | _, _, .inLine _
  | _, _, .registering _ | _, _, .askedOpen _ => True
  | _, _, f => f.Connects

def borrowing : Circle where
  call := Call.Borrows
  frame := Frame.Borrows

variable {u v : Shape} {w : Work u} {n : Next u} {base : Stack v} {l : State} {t : Nat}

theorem Call.Connects.borrows {c : Call u} (h : c.Connects) : c.Borrows := by
  cases c <;> first | exact h | cases h

theorem Frame.Connects.borrows {f : Frame v u} (h : f.Connects) : f.Borrows := by
  cases f <;> first | exact h | cases h

theorem Circle.next_borrows (h : connecting.next n) : borrowing.next n := by
  cases n with
  | give => trivial
  | call => exact ⟨Call.Connects.borrows h.1, Frame.Connects.borrows h.2⟩
  | jump => exact Call.Connects.borrows h
  | pause | again => exact Frame.Connects.borrows h

theorem State.acquire_borrows (l : State) (p : Nat) : borrowing.next (l.acquire p).2 := by
  unfold State.acquire
  split
  · trivial
  · split
    · trivial
    · dsimp only
      split
      · trivial
      · split
        · exact ⟨trivial, trivial⟩
        · unfold State.standInLine
          dsimp only
          split
          · trivial
          · split
            · trivial
            · trivial
            · split <;> trivial

theorem borrowing_next (w : Work u) (l : State) (hw : borrowing.work w) : borrowing.next (w.perform l).2 := by
  cases w with
  | call c =>
    cases c with
    | borrow m =>
      simp only [Work.perform, begin, State.borrow]
      split
      · exact ⟨trivial, trivial⟩
      · exact ⟨trivial, trivial⟩
      · trivial
    | lock m =>
      simp only [Work.perform, begin, State.lock]
      split
      · trivial
      · split <;> trivial
    | acquire p => exact l.acquire_borrows p
    | openSlot p =>
      simp only [Work.perform, begin, State.openSlot]
      split
      · trivial
      · split <;> exact ⟨trivial, trivial⟩
    | askOpen =>
      simp only [Work.perform, begin, State.askOpen]
      split <;> trivial
    | connect | dial | send => exact Circle.next_borrows (connecting_next _ l trivial)
    | _ => cases hw
  | back f o =>
    cases f with
    | leased | askedOpen => trivial
    | lockedToUse m =>
      cases o with
      | error => trivial
      | ok =>
        simp only [Work.perform, resume, State.lockedToUse]
        split <;> trivial
    | letIn m => cases o <;> trivial
    | opened p =>
      cases o with
      | error e =>
        obtain ⟨o', ho⟩ := l.growThen_gives p (.error e : Outcome .lease)
        rw [show ((Work.back (.opened p) (.error e)).perform l).2 = .give o' from ho]
        trivial
      | ok c =>
        simp only [Work.perform, resume, State.opened]
        split <;> trivial
    | inLine p =>
      simp only [Work.perform, resume, State.inLine]
      split
      · trivial
      · trivial
      · split <;> trivial
    | registering p =>
      cases o with
      | error => trivial
      | ok h =>
        simp only [Work.perform, resume, State.registering]
        split <;> trivial
    | dialled | connected | foreignKeysSet | journalSet | sent =>
      exact Circle.next_borrows (connecting_next _ l trivial)
    | _ => cases hw

theorem borrowing_sends {p : Point} {k : Stack .cursor} {h : Pool.Handle} {s : Sql.Statement} (hv : v ≠ .cursor)
    (hp : borrowing.Within base p) (he : p = .works (.call (.send h s)) k) : k.Prepares = true := by
  subst he
  obtain ⟨_, hk⟩ := hp
  cases hk with
  | base => exact absurd rfl hv
  | @push _ _ f _ hf _ => cases f <;> first | rfl | cases hf

end SqliteAccess.Loop
