import SqliteAccess.Proofs.Life.SettingUp

/-!
The tasks that pools make for themselves. They make no calls of clients, whatever happens, and so they never open
a scope.
-/

namespace SqliteAccess.Loop

def Call.Tends : {s : Shape} → Call s → Prop
  | _, .reap _ | _, .evict _ | _, .openBackground _ | _, .destroy _ _ | _, .openSlot _ | _, .askOpen
  | _, .askClose _ | _, .hangUp _ => True
  | _, c => c.Connects

def Frame.Tends : {s t : Shape} → Frame s t → Prop
  | _, _, .start c => c.Tends
  | _, _, .rested _ _ | _, _, .swept _ _ | _, _, .evicting _ _ _ | _, _, .openedBackground _
  | _, _, .destroyed _ _ | _, _, .registering _ | _, _, .askedOpen _ | _, _, .askedClose _ => True
  | _, _, f => f.Connects

def tending : Circle where
  call := Call.Tends
  frame := Frame.Tends

variable {u : Shape} {w : Work u} {n : Next u}

theorem Call.Housekeeps.tends {c : Call .unit} (h : c.Housekeeps) : c.Tends := by
  cases h <;> trivial

theorem Circle.next_tends (h : connecting.next n) : tending.next n := by
  refine Circle.next_mono (fun c h => ?_) (fun f h => ?_) h
  · cases c <;> first | exact h | exact h.elim
  · cases f <;> first | exact h | exact h.elim

theorem State.growThen_tends (l : State) (p : Nat) (o : Outcome u) : tending.next (l.growThen p o).2 := by
  obtain ⟨o', ho⟩ := l.growThen_gives p o
  rw [ho]
  trivial

theorem State.evictFrom_tends (l : State) (p : Nat) (s : Pool.State) (k : Nat) (ids : List Nat) :
    tending.next (l.evictFrom p s k ids).2 := by
  have ends : tending.next (l.endEviction k).2 := by
    unfold State.endEviction
    split <;> trivial
  induction ids with
  | nil => exact ends
  | cons id ids ih =>
    unfold State.evictFrom
    split
    · split
      · exact ⟨trivial, trivial⟩
      · exact ends
    · exact ih

theorem State.sleep_tends (l : State) (d : Float) (p : Nat) (i : Float) :
    tending.next (l.sleep d (.rested p i)).2 := by
  unfold State.sleep
  split <;> trivial

theorem State.swept_tends (l : State) (p : Nat) (i : Float) (o : Outcome .count) :
    tending.next (l.swept p i o).2 := by
  have goOn : ∀ m : State, tending.next (m.swept p i (.ok 0)).2 := by
    intro m
    unfold State.swept
    dsimp only
    split
    · trivial
    · exact State.sleep_tends _ i p i
  unfold State.swept
  dsimp only
  split
  · trivial
  · exact goOn _
  · exact goOn _

theorem tending_works (w : Work u) (l : State) (hw : tending.work w) : tending.next (w.perform l).2 := by
  cases w with
  | call c =>
    cases c with
    | reap p =>
      simp only [Work.perform, begin, State.reap]
      split
      · trivial
      · split
        · trivial
        · exact l.sleep_tends _ p _
    | evict p =>
      simp only [Work.perform, begin, State.evict]
      split
      · trivial
      · split
        · trivial
        · exact l.evictFrom_tends p _ _ _
    | openBackground p => exact ⟨trivial, trivial⟩
    | destroy p id =>
      simp only [Work.perform, begin, State.destroy]
      split
      · trivial
      · split
        · trivial
        · refine ⟨?_, trivial⟩
          unfold State.closeHandle
          split <;> trivial
    | openSlot p =>
      simp only [Work.perform, begin, State.openSlot]
      split
      · trivial
      · split <;> exact ⟨trivial, trivial⟩
    | askOpen =>
      simp only [Work.perform, begin, State.askOpen]
      split <;> trivial
    | askClose h =>
      simp only [Work.perform, begin, State.askClose]
      split <;> trivial
    | hangUp h =>
      simp only [Work.perform, begin]
      rcases l.hangUp_snd h with ⟨_, he⟩ | ⟨_, he⟩ <;> rw [he] <;> trivial
    | _ => exact Circle.next_tends (connecting_next _ l hw)
  | back f o =>
    cases f with
    | start c =>
      cases o with
      | error => trivial
      | ok => exact hw
    | rested p i =>
      cases o with
      | error => trivial
      | ok => exact ⟨trivial, trivial⟩
    | swept p i => exact l.swept_tends p i o
    | evicting p rest k =>
      simp only [Work.perform, resume, State.evicting]
      split
      · trivial
      · trivial
      · exact l.evictFrom_tends p _ _ _
    | openedBackground p =>
      simp only [Work.perform, resume, State.openedBackground]
      split
      · split
        · exact State.growThen_tends _ p _
        · trivial
      · split
        · split <;> trivial
        · trivial
    | destroyed p id => exact State.growThen_tends _ p _
    | registering p =>
      simp only [Work.perform, resume, State.registering]
      split
      · trivial
      · split <;> trivial
    | askedOpen => trivial
    | askedClose fault => cases o <;> trivial
    | _ => exact Circle.next_tends (connecting_next _ l hw)

end SqliteAccess.Loop
