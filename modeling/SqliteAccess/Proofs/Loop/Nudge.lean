import SqliteAccess.Proofs.Loop.Act

/-!
What steps do to tasks other than their own: a task that waits may be woken, a task may be asked to
cancel, and tasks may be made. No stack changes by this.
-/

namespace SqliteAccess.Loop

inductive Status.Nudge (D : Failure → Prop) : Status → Status → Prop
  | same (x : Status) : Status.Nudge D x x
  | woken (w : Wait) {signal : Option Failure} (k : Stack .unit) : (∀ e, signal = some e → D e) →
      Status.Nudge D (.paused w k) (.ready signal k)
  | recounted (ts ts' : List Nat) (b b' : Bool) (k : Stack .unit) :
      Status.Nudge D (.paused (.tasks ts b) k) (.paused (.tasks ts' b') k)

structure Task.Nudge (C : Prop) (D : Failure → Prop) (E : Follower → Prop) (k k' : Task) : Prop where
  status : k.status.Nudge D k'.status
  flag : k'.cancelRequested = k.cancelRequested ∨ C
  followers : ∀ f ∈ k'.followers, f ∈ k.followers ∨ E f

structure Nudged (C : Nat → Prop) (D : Nat → Failure → Prop) (E : Nat → Follower → Prop)
    (ts ts' : List Task) : Prop where
  length : ts'.length = ts.length
  task : ∀ (i : Nat) (k : Task), ts[i]? = some k → ∃ k', ts'[i]? = some k' ∧
    k.Nudge (C i) (D i) (E i) k'

structure Made (p : Nat) {s : Shape} (c : Call s) (k : Task) : Prop where
  status : k.status = .ready none (.push (.start c) (.done s))
  flag : k.cancelRequested = false
  followers : ∀ f ∈ k.followers, f = .dropBackground p

def Wait.Alone : Wait → Prop
  | .turn _ _ | .task _ | .tasks _ _ => False
  | _ => True

def Task.Alone (k : Task) : Prop := ∀ w st, k.status = .paused w st → w.Alone

def Wait.Passes : Wait → Prop
  | .task _ | .tasks _ _ => True
  | _ => False

def Task.Passes (k : Task) : Prop := ∃ w st, k.status = .paused w st ∧ w.Passes

section Nudging

variable {C : Nat → Prop} {D : Nat → Failure → Prop} {E : Nat → Follower → Prop} {ts ts' ts'' : List Task}

theorem Status.Nudge.trans {D : Failure → Prop} {x y z : Status} (h : x.Nudge D y) (h' : y.Nudge D z) :
    x.Nudge D z := by
  cases h with
  | same _ => exact h'
  | woken w k hd =>
    cases h' with
    | same _ => exact .woken w k hd
  | recounted as bs a b k =>
    cases h' with
    | same _ => exact .recounted as bs a b k
    | woken w _ hd => exact .woken _ k hd
    | recounted _ cs _ c _ => exact .recounted as cs a c k

theorem Status.Nudge.mono {D D' : Failure → Prop} {x y : Status} (h : x.Nudge D y)
    (hd : ∀ e, D e → D' e) :
    x.Nudge D' y := by
  cases h with
  | same _ => exact .same _
  | woken w k hx => exact .woken w k fun e he => hd e (hx e he)
  | recounted as bs a b k => exact .recounted as bs a b k

theorem Task.Nudge.refl (C : Prop) (D : Failure → Prop) (E : Follower → Prop) (k : Task) :
    k.Nudge C D E k :=
  ⟨.same _, .inl rfl, fun _ h => .inl h⟩

theorem Task.Nudge.trans {C : Prop} {D : Failure → Prop} {E : Follower → Prop} {k k' k'' : Task}
    (h : k.Nudge C D E k') (h' : k'.Nudge C D E k'') : k.Nudge C D E k'' := by
  refine ⟨h.status.trans h'.status, ?_, ?_⟩
  · rcases h'.flag with hf | hc
    · exact hf ▸ h.flag
    · exact .inr hc
  · intro f hf
    rcases h'.followers f hf with hf | he
    · exact h.followers f hf
    · exact .inr he

theorem Task.Nudge.running {C : Prop} {D : Failure → Prop} {E : Follower → Prop} {k k' : Task}
    (h : k.Nudge C D E k') (hs : k.status = .running) : k'.status = .running := by
  have hn := h.status
  rw [hs] at hn
  generalize k'.status = y at hn ⊢
  cases hn
  rfl

theorem Nudged.refl (C : Nat → Prop) (D : Nat → Failure → Prop) (E : Nat → Follower → Prop)
    (ts : List Task) : Nudged C D E ts ts :=
  ⟨rfl, fun _ k h => ⟨k, h, .refl _ _ _ k⟩⟩

theorem Nudged.trans (h : Nudged C D E ts ts') (h' : Nudged C D E ts' ts'') :
    Nudged C D E ts ts'' := by
  refine ⟨h'.length.trans h.length, ?_⟩
  intro i k hk
  obtain ⟨k', hk', hn⟩ := h.task i k hk
  obtain ⟨k'', hk'', hn'⟩ := h'.task i k' hk'
  exact ⟨k'', hk'', hn.trans hn'⟩

theorem Nudged.modify {t : Nat} {f : Task → Task}
    (h : ∀ k, ts[t]? = some k → k.Nudge (C t) (D t) (E t) (f k)) : Nudged C D E ts (ts.modify t f) := by
  refine ⟨by simp, ?_⟩
  intro i k hk
  by_cases hi : t = i
  · subst hi
    exact ⟨f k, by simp [hk], h k hk⟩
  · exact ⟨k, by simp [hi, hk], .refl _ _ _ k⟩

theorem Nudged.mono {C' : Nat → Prop} {D' : Nat → Failure → Prop} {E' : Nat → Follower → Prop}
    (h : Nudged C D E ts ts') (hc : ∀ i, C i → C' i) (hd : ∀ i e, D i e → D' i e)
    (he : ∀ i f, E i f → E' i f) : Nudged C' D' E' ts ts' := by
  refine ⟨h.length, ?_⟩
  intro i k hk
  obtain ⟨k', hk', hs, hf, hw⟩ := h.task i k hk
  exact ⟨k', hk', hs.mono (hd i), hf.imp_right (hc i), fun f hm => (hw f hm).imp_right (he i f)⟩

end Nudging

namespace State

variable {C : Nat → Prop} {D : Nat → Failure → Prop} {E : Nat → Follower → Prop}

theorem wake_nudged (l : State) (t : Nat) {signal : Option Failure}
    (h : ∀ e, signal = some e → D t e) : Nudged C D E l.tasks (l.wake t signal).tasks := by
  unfold wake
  split
  next w k c b fs hk =>
    apply Nudged.modify
    intro k' hk'
    cases hk.symm.trans hk'
    exact ⟨.woken w k h, .inl rfl, fun _ hf => .inl hf⟩
  next => exact .refl _ _ _ _

end State

end SqliteAccess.Loop
