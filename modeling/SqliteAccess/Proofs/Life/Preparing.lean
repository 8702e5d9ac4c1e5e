import SqliteAccess.Proofs.Life.Adrift
import SqliteAccess.Proofs.Life.Routine

/-!
How a handle is prepared. The connect that opens it sends it one statement, and another one for a pool, and
waits for each; only then is the handle made that of a connection. What has become of a handle by then is kept
here as a list of marks.
-/

namespace SqliteAccess.Loop

open SqliteAccess.Pool (Handle Lease)
open Sql (Statement)

/-- What becomes of a handle: a statement is sent on it, or one of those that prepare it has been completed. -/
inductive Mark where
  | sent (s : Statement)
  | done (s : Statement)

def foreignKeys : Statement := ⟨Sql.foreignKeysPragma, []⟩

def journal : Statement := ⟨Sql.journalPragma, []⟩

def preparation (pooled : Bool) : List Mark :=
  [.sent foreignKeys, .done foreignKeys] ++ if pooled then [.sent journal, .done journal] else []

def Work.marks (h : Handle) : {u : Shape} → Work u → List Mark
  | _, .call (.send g s) => if g = h then [.sent s] else []
  | _, .back (.foreignKeysSet _ g _) (.ok _) => if g = h then [.done foreignKeys] else []
  | _, .back (.journalSet _ g) (.ok _) => if g = h then [.done journal] else []
  | _, _ => []

namespace State

def marks (l : State) (h : Handle) : List Mark :=
  match l.running with
  | some ⟨_, _, .call (.send g s), _⟩ => if g = h then [.sent s] else []
  | some ⟨_, _, .give (.ok _), .push (.foreignKeysSet _ g _) _⟩ => if g = h then [.done foreignKeys] else []
  | some ⟨_, _, .give (.ok _), .push (.journalSet _ g) _⟩ => if g = h then [.done journal] else []
  | _ => []

def Connects (l : State) (c : Lease) : Prop := c ∈ l.pooled ∨ c ∈ l.alone

/-- Clients call what they like, but leave handles to those who open and close them, and run statements on
connections only. -/
def Serves : {s : Shape} → State → Call s → Prop
  | _, _, .askOpen | _, _, .askClose _ | _, _, .dial _ | _, _, .send _ _ | _, _, .hangUp _ | _, _, .connect _ _
  | _, _, .openSlot _ => False
  | _, l, .run _ h _ _ => h ∈ l.registered
  | _, _, _ => True

end State

def history (past : List State) (h : Handle) : List Mark := past.flatMap (·.marks h)

def Stack.Dials : Stack .handle → Prop
  | .push (.connected _ _) _ => True
  | _ => False

def Stack.Wants (pooled : Bool) : Stack .handle → Prop
  | .push (.registering _) _ => pooled = true
  | .push (.singleOpened _ _) _ => pooled = false
  | _ => False

def Stack.Fills (p : Nat) : Stack .lease → Prop
  | .push (.opened q) _ | .push (.openedBackground q) _ => q = p
  | _ => False

def Stack.Open : Stack .lease → Prop
  | .push (.opened _) _ | .push (.openedBackground _) _ => False
  | _ => True

def Stack.Sends (l : State) (h : Handle) : Stack .cursor → Prop
  | .push (.foreignKeysSet _ g _) _ | .push (.journalSet _ g) _ => g = h
  | _ => h ∈ l.registered

def Stack.Receives (H : Handle → List Mark) (h : Handle) : Stack .handle → Prop
  | .push (.connected _ _) _ => H h = []
  | .push (.registering _) _ => H h = preparation true
  | .push (.singleOpened _ _) _ => H h = preparation false
  | _ => False

def Stack.Takes (l : State) (c : Lease) : Stack .lease → Prop
  | .push (.opened q) _ | .push (.openedBackground q) _ => l.Has q c
  | _ => c ∈ l.pooled

def Call.Primed (l : State) : {s : Shape} → Call s → Stack s → Prop
  | _, .askOpen, _ => False
  | _, .dial _, k => k.Dials
  | _, .send h _, k => k.Sends l h
  | _, .connect _ pooled, k => k.Wants pooled
  | _, .run _ h _ _, _ => h ∈ l.registered
  | _, .acquire _, k => k.Open
  | _, .openSlot p, k => k.Fills p
  | _, _, _ => True

def Frame.Primed (H : Handle → List Mark) (l : State) : {s t : Shape} → Frame s t → Stack t → Prop
  | _, t, .start c, k => c.Primed l k ∧ k = .done t
  | _, _, .askedOpen _, _ => False
  | _, _, .dialled _, k => k.Dials
  | _, _, .connected _ pooled, k => k.Wants pooled
  | _, _, .foreignKeysSet _ h pooled, k => k.Wants pooled ∧ H h = [.sent foreignKeys]
  | _, _, .journalSet _ h, k => k.Wants true ∧ H h = [.sent foreignKeys, .done foreignKeys, .sent journal]
  | _, _, .registering p, k => k.Fills p
  | _, _, .opened _, k | _, _, .inLine _, k => k.Open
  | _, _, .executed _ lease _, _ | _, _, .batched _ lease _ _ _ _, _ | _, _, .blockHeld _ lease _, _ =>
    ∀ c ∈ lease, l.Connects c
  | _, _, _, _ => True

def Stack.Primed (H : Handle → List Mark) (l : State) : {s : Shape} → Stack s → Prop
  | _, .done _ => True
  | _, .push f k => f.Primed H l k ∧ Primed H l k

def Stack.Gets (H : Handle → List Mark) (l : State) : {s : Shape} → Outcome s → Stack s → Prop
  | .handle, .ok h, k => k.Receives H h
  | .lease, .ok c, k => k.Takes l c
  | .borrowed, .ok lease, _ => ∀ c ∈ lease, l.Connects c
  | _, _, _ => True

def Work.mark {u : Shape} (w : Work u) (H : Handle → List Mark) (h : Handle) : List Mark := H h ++ w.marks h

def Point.Primed (H : Handle → List Mark) (l : State) : Point → Prop
  | .waits k => k.Primed H l
  | .works (.call c) k => c.Primed l k ∧ k.Primed ((Work.call c).mark H) l
  | .works (.give o) k => k.Gets H l o ∧ k.Primed H l
  | .ended (u := u) o => (Stack.done u).Gets H l o

def Work.Primed (H : Handle → List Mark) (l : State) {u : Shape} (k : Stack u) : Work u → Prop
  | .call c => c.Primed l k
  | .back f o => (Stack.push f k).Gets H l o ∧ f.Primed H l k

def Next.Primed (H : Handle → List Mark) (l : State) {u : Shape} (k : Stack u) : Next u → Prop
  | .give o => k.Gets H l o
  | .call c f => c.Primed l (.push f k) ∧ f.Primed ((Work.call c).mark H) l k
  | .jump c => c.Primed l k ∧ ∀ h, (Work.call c).marks h ≠ [] → k.holds h = 0
  | .pause _ f | .again f => f.Primed H l k

def Next.marks (h : Handle) {u : Shape} : Next u → List Mark
  | .call c _ => (Work.call c).marks h
  | _ => []

structure Remembers (l m : State) : Prop where
  has : ∀ p c, l.Has p c → m.Has p c
  alone : l.alone ⊆ m.alone

structure Gains (H : Handle → List Mark) (l m : State) : Prop extends Remembers l m where
  pooled : ∀ c ∈ m.pooled, c ∈ l.pooled ∨ H c.handle = preparation true
  single : ∀ c ∈ m.alone, c ∈ l.alone ∨ H c.handle = preparation false
  stocked : l.Stocked → m.Stocked

variable {H H' : Handle → List Mark} {l l' m : State} {h g : Handle} {c : Lease} {u : Shape} {w : Work u} {n : Next u}
  {k : Stack u} {t p : Nat} {past : List State} {o : Outcome u}

theorem history_snoc (past : List State) (l : State) (h : Handle) :
    history (past ++ [l]) h = history past h ++ l.marks h := by
  simp [history]

theorem Work.marks_on (hr : l.running = some (w.on t k)) (h : Handle) : l.marks h = w.marks h := by
  rw [State.marks, hr]
  cases w with
  | call c => cases c <;> rfl
  | back f o => cases f <;> cases o <;> rfl

theorem State.mem_registered : h ∈ l.registered ↔ ∃ c, l.Connects c ∧ c.handle = h := by
  simp only [State.registered, State.Connects, State.pooled, State.alone, List.mem_append, List.mem_flatMap,
    List.mem_map]
  constructor
  · rintro (⟨s, hs, c, hc, rfl⟩ | ⟨x, hx, rfl⟩)
    · exact ⟨c, .inl ⟨s, hs, hc⟩, rfl⟩
    · exact ⟨x.lease, .inr ⟨x, hx, rfl⟩, rfl⟩
  · rintro ⟨c, ⟨s, hs, hc⟩ | ⟨x, hx, rfl⟩, rfl⟩
    · exact .inl ⟨s, hs, c, hc, rfl⟩
    · exact .inr ⟨x, hx, rfl⟩

namespace Remembers

theorem refl (l : State) : Remembers l l := ⟨fun _ _ => id, List.Subset.refl _⟩

variable (hg : Remembers l m)

include hg in
theorem pooled (hc : c ∈ l.pooled) : c ∈ m.pooled := by
  obtain ⟨p, hp⟩ := State.mem_pooled.mp hc
  exact (hg.has p c hp).pooled

include hg in
theorem connects (hc : l.Connects c) : m.Connects c := hc.imp hg.pooled fun h => hg.alone h

include hg in
theorem registered (hh : h ∈ l.registered) : h ∈ m.registered := by
  obtain ⟨c, hc, rfl⟩ := State.mem_registered.mp hh
  exact State.mem_registered.mpr ⟨c, hg.connects hc, rfl⟩

include hg in
theorem sends {k : Stack .cursor} (hk : k.Sends l h) : k.Sends m h := by
  cases k with
  | done => exact hg.registered hk
  | push f k =>
    cases f with
    | foreignKeysSet | journalSet => exact hk
    | _ => exact hg.registered hk

include hg in
theorem call {s : Shape} {c : Call s} {k : Stack s} (hc : c.Primed l k) : c.Primed m k := by
  cases c with
  | send h s => exact hg.sends hc
  | run d h s mode => exact hg.registered hc
  | _ => exact hc

include hg in
theorem takes {k : Stack .lease} (hk : k.Takes l c) : k.Takes m c := by
  cases k with
  | done => exact hg.pooled hk
  | push f k =>
    cases f with
    | opened q | openedBackground q => exact hg.has q c hk
    | _ => exact hg.pooled hk

include hg in
theorem frame {s t : Shape} {f : Frame s t} {k : Stack t} (hf : f.Primed H l k)
    (hH : ∀ g, f.holds g ≠ 0 → H' g = H g) : f.Primed H' m k := by
  cases f with
  | start c => exact ⟨hg.call hf.1, hf.2⟩
  | foreignKeysSet d h pooled => exact ⟨hf.1, (hH h (by simp [Frame.holds])).trans hf.2⟩
  | journalSet d h => exact ⟨hf.1, (hH h (by simp [Frame.holds])).trans hf.2⟩
  | executed | batched | blockHeld => exact fun c hc => hg.connects (hf c hc)
  | _ => exact hf

include hg in
theorem stack {s : Shape} {k : Stack s} (hk : k.Primed H l) (hH : ∀ g, k.holds g ≠ 0 → H' g = H g) :
    k.Primed H' m := by
  induction k with
  | done => trivial
  | push f k ih =>
    refine ⟨hg.frame hk.1 fun g hh => hH g ?_, ih hk.2 fun g hh => hH g ?_⟩ <;> rw [Stack.holds] <;> omega

include hg in
theorem gets {s : Shape} {k : Stack s} {o : Outcome s} (hk : k.Gets H l o)
    (hH : ∀ g, (arrived o).count g ≠ 0 → H' g = H g) : k.Gets H' m o := by
  cases o with
  | error e => cases s <;> trivial
  | ok x =>
    cases s with
    | handle =>
      have hx : H' x = H x := hH x (by simp [arrived])
      cases k with
      | done => exact hk
      | push f k => cases f <;> exact hx.trans hk
    | lease => exact hg.takes hk
    | borrowed => exact fun c hc => hg.connects (hk c hc)
    | _ => trivial

include hg in
theorem point {q : Point} (hq : q.Primed H l) (hH : ∀ g, q.holds g ≠ 0 → H' g = H g) : q.Primed H' m := by
  have hstack : ∀ {v : Shape} {k : Stack v} {H H' : Handle → List Mark}, k.Primed H l →
      (∀ g, k.holds g ≠ 0 → H' g = H g) → k.Primed H' m := hg.stack
  cases q with
  | waits k => exact hstack hq hH
  | works x k =>
    cases x with
    | call c =>
      refine ⟨hg.call hq.1, hstack hq.2 fun g hh => ?_⟩
      rw [Work.mark, Work.mark, hH g (by rw [Point.holds]; omega)]
    | give o =>
      exact ⟨hg.gets hq.1 fun g hh => hH g (by rw [Point.holds, Control.holds]; omega),
        hstack hq.2 fun g hh => hH g (by rw [Point.holds]; omega)⟩
  | ended o => exact hg.gets hq hH

include hg in
theorem next (hn : n.Primed H l k) : n.Primed H m k := by
  cases n with
  | give o => exact hg.gets hn fun _ _ => rfl
  | call c f => exact ⟨hg.call hn.1, hg.frame hn.2 fun _ _ => rfl⟩
  | jump c => exact ⟨hg.call hn.1, hn.2⟩
  | pause | again => exact hg.frame hn fun _ _ => rfl

end Remembers

theorem Restocks.gains (hr : Restocks l m) (ha : m.alone = l.alone) : Gains H l m := by
  refine ⟨⟨fun p c => (hr.has p c).mpr, fun c hc => ha ▸ hc⟩, fun c hc => .inl ?_, fun c hc => .inl (ha ▸ hc),
    hr.stocked⟩
  obtain ⟨p, hp⟩ := State.mem_pooled.mp hc
  exact ((hr.has p c).mp hp).pooled

theorem Work.primed_point (w : Work u) (t : Nat) (k : Stack u) (hp : (w.on t k).point.Primed H l)
    (hh : ∀ g, w.holds g + k.holds g ≤ 1) : w.Primed H l k ∧ k.Primed (w.mark H) l := by
  cases w with
  | call c => exact hp
  | back f o =>
    refine ⟨⟨hp.1, hp.2.1⟩, (Remembers.refl l).stack hp.2.2 fun g hg => ?_⟩
    have hnot : (Work.back f o).holds g = 0 := by
      have := hh g
      omega
    have hm : (Work.back f o).marks g = [] := by
      cases f with
      | foreignKeysSet d h pooled =>
        have hne : h ≠ g := fun he => by simp [Work.holds, Frame.holds, he] at hnot
        cases o <;> simp [Work.marks, hne]
      | journalSet d h =>
        have hne : h ≠ g := fun he => by simp [Work.holds, Frame.holds, he] at hnot
        cases o <;> simp [Work.marks, hne]
      | _ => cases o <;> rfl
    rw [Work.mark, hm, List.append_nil]

theorem Next.primed_point (hn : n.Primed H l k) (hk : k.Primed H l)
    (hm : ∀ g, n.marks g ≠ [] → k.holds g = 0) : (n.point k).Primed H l := by
  have hmark : ∀ {v : Shape} (c : Call v), (∀ g, (Work.call c).marks g ≠ [] → k.holds g = 0) →
      k.Primed ((Work.call c).mark H) l := fun c hc =>
    (Remembers.refl l).stack hk fun g hg => by
      rw [Work.mark, not_not.mp fun hne => hg (hc g hne), List.append_nil]
  cases n with
  | give o => exact ⟨hn, hk⟩
  | call c f => exact ⟨hn.1, hn.2, hmark c hm⟩
  | jump c => exact ⟨hn.1, hmark c hn.2⟩
  | pause | again => exact ⟨hn, hk⟩

end SqliteAccess.Loop
