import SqliteAccess.Proofs.Life.Governing

/-!
Calls that keep to themselves: what such a call makes next is one of them, until it comes back to whoever made
the first one.
-/

namespace SqliteAccess.Loop

structure Circle where
  call : {s : Shape} → Call s → Prop
  frame : {s t : Shape} → Frame s t → Prop

namespace Circle

def work (C : Circle) : {u : Shape} → Work u → Prop
  | _, .call c => C.call c
  | _, .back f _ => C.frame f

def next (C : Circle) : {u : Shape} → Next u → Prop
  | _, .give _ => True
  | _, .call c f => C.call c ∧ C.frame f
  | _, .jump c => C.call c
  | _, .pause _ f | _, .again f => C.frame f

inductive Above (C : Circle) {v : Shape} (base : Stack v) : {u : Shape} → Stack u → Prop
  | base : C.Above base base
  | push {s u : Shape} {f : Frame s u} {k : Stack u} : C.frame f → C.Above base k → C.Above base (.push f k)

def Within (C : Circle) {v : Shape} (base : Stack v) : Point → Prop
  | .waits k => C.Above base k
  | .works (.call c) k => C.call c ∧ C.Above base k
  | .works (.give _) k => C.Above base k
  | .ended _ => False

structure Closed (C : Circle) : Prop where
  works : ∀ {u : Shape} (w : Work u) (l : State), C.work w → C.next (w.perform l).2
  governs : ∀ {u : Shape} (w : Work u) (M : Nat), C.work w → ¬ w.Governs M

variable {C : Circle} {may : {s : Shape} → State → Call s → Prop} {l l' : State} {M t : Nat} {u v : Shape}
  {w : Work u} {k : Stack u} {base : Stack v} {p : Point} {n : Next u}

theorem next_mono {D : Circle} (hc : ∀ {s : Shape} (c : Call s), C.call c → D.call c)
    (hf : ∀ {s t : Shape} (f : Frame s t), C.frame f → D.frame f) (h : C.next n) : D.next n := by
  cases n with
  | give => trivial
  | call c f => exact ⟨hc c h.1, hf f h.2⟩
  | jump c => exact hc c h
  | pause _ f | again f => exact hf f h

theorem Above.size (h : C.Above base k) : sizeOf base ≤ sizeOf k := by
  induction h with
  | base => exact Nat.le_refl _
  | push _ _ ih =>
    simp only [Stack.push.sizeOf_spec]
    omega

theorem Within.of_next (hn : C.next n) (hk : C.Above base k) : C.Within base (n.point k) := by
  cases n with
  | give => exact hk
  | call => exact ⟨hn.1, hk.push hn.2⟩
  | jump => exact ⟨hn, hk⟩
  | pause | again => exact hk.push hn

theorem Within.work (hp : C.Within base (w.on t k).point) :
    C.work w ∧ C.Above base k ∨ ∃ o : Outcome v, w.on t k = ⟨t, v, .give o, base⟩ := by
  cases w with
  | call c => exact .inl hp
  | back f o =>
    change C.Above base (.push f k) at hp
    cases hp with
    | base => exact .inr ⟨o, rfl⟩
    | push hf hk => exact .inl ⟨hf, hk⟩

theorem Closed.happens (hC : C.Closed) (hs : l.Happens may l') (hl : l.AtWork) (hat : l.point? t = some p)
    (hp : C.Within base p) :
    (∃ p', l'.point? t = some p' ∧ C.Within base p' ∧
        ∀ (M : Nat) (u : Shape) (w : Work u) (k : Stack u), l.running = some (w.on t k) → ¬ w.Governs M) ∨
      ∃ o : Outcome v, l.running = some ⟨t, v, .give o, base⟩ := by
  obtain ⟨p', hp', hgets⟩ := hs.gets hl hat
  cases hgets with
  | stays hne => exact .inl ⟨p, hp', hp, fun M u w k hr => absurd (w.on_task t k) (hne _ hr)⟩
  | @works u w k hr he =>
    rcases hp.work with ⟨hw, hk⟩ | ⟨o, heq⟩
    · refine .inl ⟨_, hp', .of_next (hC.works w l hw) hk, fun M v w₂ k₂ hr₂ hgov => ?_⟩
      exact hC.governs w M hw (Work.governs_of_eq (Option.some.inj (hr.symm.trans hr₂)) hgov)
    · exact .inr ⟨o, heq ▸ hr⟩
  | ends hr =>
    cases hp with
    | base => exact .inr ⟨_, hr⟩
  | goesOn hr => exact .inl ⟨_, hp', hp, fun M u w k h => nomatch hr.symm.trans h⟩

end Circle

end SqliteAccess.Loop
