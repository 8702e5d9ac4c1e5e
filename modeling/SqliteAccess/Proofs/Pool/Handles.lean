import SqliteAccess.Proofs.Pool.Connections

/-!
What becomes of the handles that the driver opens. Each is the handle of one connection, and the driver
is asked to close it in the step in which the connection leaves the pool, and in no other.
-/

namespace SqliteAccess.Pool.State

variable {s s' : State} {id : Nat} {now : Float}

def leases (s : State) : List Lease := s.connections.map (·.lease)

/-- The connections that have left the pool. -/
def departed (s : State) : List Lease := (s.connections.filter fun c => !c.live).map (·.lease)

def roll (s : State) : List (Lease × Bool) := s.connections.map fun c => (c.lease, c.live)

theorem leases_eq (s : State) : s.leases = s.roll.map (·.1) := by
  simp [leases, roll, Function.comp_def]

theorem departed_eq (s : State) : s.departed = (s.roll.filter fun r => !r.2).map (·.1) := by
  simp [departed, roll, List.filter_map, Function.comp_def]

theorem leases_perm (s : State) : s.leases.Perm (s.live.map (·.lease) ++ s.departed) := by
  unfold leases live departed
  rw [← List.map_append]
  exact (List.filter_append_perm _ s.connections).symm.map _

theorem roll_update (s : State) (id : Nat) {f : Connection → Connection}
    (hf : ∀ c, (f c).lease = c.lease ∧ (f c).live = c.live) : (s.update id f).roll = s.roll := by
  unfold roll update
  rw [List.map_map]
  apply List.map_congr_left
  intro c _
  by_cases hc : c.id = id <;> simp [hc, hf]

theorem Checkin.roll (h : s.Checkin id now s') : s'.roll = s.roll := by
  cases h with
  | serves => exact s.roll_update id fun _ => ⟨rfl, rfl⟩
  | rests => exact s.roll_update id fun _ => ⟨rfl, rfl⟩

theorem roll_register (s : State) (n : Nat) (h : Handle) (now : Float) :
    (s.register n h now).roll = s.roll ++ [(⟨n, h⟩, true)] := by
  simp [roll, register, Connection.lease]

theorem leases_without (s : State) (id : Nat) : (s.without id).leases = s.leases := by
  unfold leases without update
  rw [List.map_map]
  apply List.map_congr_left
  intro c _
  by_cases hc : c.id = id <;> simp [hc, Connection.lease]

theorem departed_without (hn : (s.connections.map (·.id)).Nodup) {c : Connection}
    (hc : s.find? id = some c) : (s.without id).departed.Perm (c.lease :: s.departed) := by
  obtain ⟨before, after, hs⟩ := List.append_of_mem (find?_mem hc)
  have hid := find?_id hc
  have hlive : c.live = true := by
    have hf := List.find?_some hc
    rw [Bool.and_eq_true] at hf
    exact hf.1
  rw [hs, List.map_append, List.map_cons] at hn
  obtain ⟨_, hafter, hboth⟩ := List.nodup_append.mp hn
  have others : ∀ {cs : List Connection}, (∀ x ∈ cs, x.id ≠ id) →
      (cs.map fun x => if x.id = id then { x with inUse := false, live := false } else x) = cs := by
    intro cs hcs
    rw [List.map_congr_left fun x hx => if_neg (hcs x hx), List.map_id']
  have hbefore : ∀ x ∈ before, x.id ≠ id := fun x hx =>
    hid ▸ hboth x.id (List.mem_map_of_mem hx) c.id List.mem_cons_self
  have hafter' : ∀ x ∈ after, x.id ≠ id := fun x hx he =>
    (List.nodup_cons.mp hafter).1 (hid ▸ he ▸ List.mem_map_of_mem hx)
  have hw : (s.without id).connections =
      before ++ { c with inUse := false, live := false } :: after := by
    unfold without update
    dsimp only
    rw [hs, List.map_append, List.map_cons, others hbefore, others hafter', if_pos hid]
  simp only [departed, hw, hs, List.filter_append, List.filter_cons, hlive, List.map_append]
  exact List.perm_middle

theorem remove?_find {h : Handle} (hr : s.remove? id = some (s', h)) :
    ∃ c, s.find? id = some c ∧ c.handle = h ∧ s' = s.without id := by
  simp only [remove?, Option.map_eq_some_iff, Prod.mk.injEq] at hr
  obtain ⟨c, hc, rfl, rfl⟩ := hr
  exact ⟨c, hc, rfl, rfl⟩

end SqliteAccess.Pool.State

namespace SqliteAccess.Loop

def arrived : {s : Shape} → Outcome s → List Pool.Handle
  | .handle, .ok h => [h]
  | _, _ => []

def asked : {s : Shape} → Call s → List Pool.Handle
  | _, .askClose h => [h]
  | _, _ => []

def Work.opens {u : Shape} : Work u → List Pool.Handle
  | .call _ => []
  | .back _ o => arrived o

def Next.opens {u : Shape} : Next u → List Pool.Handle
  | .give o => arrived o
  | _ => []

def Next.closes {u : Shape} : Next u → List Pool.Handle
  | .call c _ => asked c
  | .jump c => asked c
  | _ => []

namespace State

/-- The handle that an open of the driver has just come back with. -/
def opening (l : State) : List Pool.Handle :=
  match l.running with
  | some ⟨_, _, .give o, _⟩ => arrived o
  | _ => []

/-- The handle that the driver is asked to close. -/
def closing (l : State) : List Pool.Handle :=
  match l.running with
  | some ⟨_, _, .call c, _⟩ => asked c
  | _ => []

def Heeded (l : State) : Prop := ∀ t o, l.running ≠ some ⟨t, .handle, .give o, .done .handle⟩

end State

/-- What the driver has seen: the handles that it has opened and those that it was asked to close. -/
structure Ledger where
  opened : List Pool.Handle := []
  closed : List Pool.Handle := []

def Ledger.note (b : Ledger) (l : State) : Ledger := ⟨b.opened ++ l.opening, b.closed ++ l.closing⟩

inductive Recorded (settings : Config.PoolSettings) (allowed : State → Event → Prop) :
    State → Ledger → Prop
  | start : Recorded settings allowed (.ofPool settings) {}
  | step {l l' : State} {b : Ledger} : Recorded settings allowed l b →
      Step Session.Pooling.number allowed l l' → Recorded settings allowed l' (b.note l')

section Acts

variable {p t T N N' : Nat} {s s' : Pool.State} {u : Shape} {w : Work u} {cs : List (Call .unit)}
  {n : Next u} {d : Call u}

theorem arrived_of_ne (hu : u ≠ .handle) (o : Outcome u) : arrived o = [] := by
  cases u with
  | handle => exact absurd rfl hu
  | _ => rfl

theorem Call.Root.asked {c : Call u} (h : c.Root p) : asked c = [] := by
  cases h <;> rfl

theorem Call.Root.shape {c : Call u} (h : c.Root p) : u ≠ .handle := by
  cases h <;> decide

inductive Turnover (s s' : Pool.State) : List Pool.Handle → List Pool.Handle → Prop
  | same : s'.roll = s.roll → Turnover s s' [] []
  | joins (n : Nat) (h : Pool.Handle) : s'.roll = s.roll ++ [(⟨n, h⟩, true)] → Turnover s s' [h] []
  | leaves {id : Nat} {c : Pool.Connection} : s.find? id = some c → s' = s.without id →
      Turnover s s' [] [c.handle]

theorem Act.turnover (h : Act p t T N s w s' N' cs n) (hd : w.Of p d) :
    Turnover s s' w.opens n.closes := by
  have drains : ∀ {s : Pool.State} {rest : List Nat} {n : Next .unit}, Drains p s rest n →
      n.closes = [] := by
    intro s rest n hn
    cases hn <;> rfl
  cases h
  case started =>
    cases hd with
    | back _ hf =>
      cases hf with
      | start hr =>
        rw [show (Next.jump d).closes = [] from hr.asked]
        exact .same rfl
  case takes id _ ht =>
    rw [(Pool.State.takeIdle?_eq ht).2]
    exact .same (Pool.State.roll_update _ id fun _ => ⟨rfl, rfl⟩)
  case lines h₁ hl =>
    subst h₁
    cases hl <;> exact .same rfl
  case openDone c _ => exact .same (Pool.State.roll_update _ c.id fun _ => ⟨rfl, rfl⟩)
  case passesOn id e now _ => exact .same (Pool.State.checkin_spec _ id now).roll
  case registers c now =>
    exact .joins N c (Pool.State.roll_register _ N c now)
  case backgroundFailed h₁ =>
    subst h₁
    exact .same rfl
  case backgroundDone c now _ => exact .same (Pool.State.checkin_spec _ c.id now).roll
  case removes hr =>
    obtain ⟨c, hc, rfl, rfl⟩ := Pool.State.remove?_find hr
    exact .leaves hc rfl
  case evicts hn => cases hn <;> exact .same rfl
  case evictsOn hn => cases hn <;> exact .same rfl
  case reaps hn => cases hn <;> exact .same rfl
  case sweptOver hn => cases hn <;> exact .same rfl
  case shutsAtOnce hn => rw [drains hn]; exact .same rfl
  case clears hn => rw [drains hn]; exact .same rfl
  case drains hn => rw [drains hn]; exact .same rfl
  all_goals exact .same rfl

end Acts

structure Accounted (b : Ledger) (l : State) (s : Pool.State) : Prop where
  opened : b.opened = s.leases.map (·.handle) ++ l.opening
  closed : b.closed.Perm (s.departed.map (·.handle))
  heeded : l.Heeded

section Moves

variable {p : Nat} {X Y : Prop} {v : Option Event} {l l' : State} {s s' : Pool.State} {b : Ledger}
  {settings : Config.PoolSettings} {allowed : State → Event → Prop}

theorem Turnover.keeps {os cs : List Pool.Handle} (h : Turnover s s' os cs) :
    s'.leases.map (·.handle) = s.leases.map (·.handle) ++ os ∧ s.leases <+: s'.leases := by
  cases h with
  | same hr => simp [Pool.State.leases_eq, hr]
  | joins n c hr => simp [Pool.State.leases_eq, hr]
  | leaves _ hs => simp [hs, Pool.State.leases_without]

theorem Turnover.departed {os cs : List Pool.Handle} (h : Turnover s s' os cs)
    (hn : (s.connections.map (·.id)).Nodup) : cs = [] ∧ s'.departed = s.departed ∨
      ∃ c ∈ s.live, cs = [c.handle] ∧ s'.departed.Perm (c.lease :: s.departed) := by
  cases h with
  | same hr => exact .inl ⟨rfl, by rw [Pool.State.departed_eq, hr, ← Pool.State.departed_eq]⟩
  | joins n c hr => exact .inl ⟨rfl, by simp [Pool.State.departed_eq, hr]⟩
  | @leaves id c hc hs =>
    subst hs
    have hlive := List.find?_some hc
    rw [Bool.and_eq_true] at hlive
    refine .inr ⟨c, List.mem_filter.mpr ⟨Pool.State.find?_mem hc, hlive.1⟩, rfl, ?_⟩
    exact Pool.State.departed_without hn hc

theorem Aside.roll (ha : Aside p X Y v l l' s s') : s'.roll = s.roll := by
  cases ha with
  | ends | goesOn | enters | spawns => rfl
  | lull _ hl => rw [hl.same]; rfl
  | @releases id now => exact (s.checkin_spec id now).roll
  | @discards id => exact s.roll_update id fun _ => ⟨rfl, rfl⟩

theorem Move.leases (hm : Move p X Y v l l' s s') : s.leases <+: s'.leases := by
  cases hm with
  | work _ hd _ ha => exact (ha.turnover hd).keeps.2
  | aside _ _ ha => simp [Pool.State.leases_eq, ha.roll]

theorem State.heeded_of_none (hr : l.running = none) : l.Heeded := by
  simp [State.Heeded, hr]

theorem State.opening_of_none (hr : l.running = none) : l.opening = [] := by
  simp [State.opening, hr]

theorem State.closing_of_none (hr : l.running = none) : l.closing = [] := by
  simp [State.closing, hr]

theorem Aside.opening (ha : Aside p X Y v l l' s s') (hh : l.Heeded) : l.opening = [] := by
  cases ha with
  | @ends t u o hr _ =>
    have hu : u ≠ .handle := by
      rintro rfl
      exact hh t o hr
    simp [State.opening, hr, arrived_of_ne hu]
  | goesOn hr => exact State.opening_of_none hr
  | lull hr => exact State.opening_of_none hr
  | enters _ hr => exact State.opening_of_none hr
  | spawns _ hr => exact State.opening_of_none hr
  | releases _ hr => exact State.opening_of_none hr
  | discards hr => exact State.opening_of_none hr

theorem Aside.closing (ha : Aside p X Y v l l' s s') : l'.closing = [] ∧ l'.Heeded := by
  have still : l'.running = none → l'.closing = [] ∧ l'.Heeded := fun hr =>
    ⟨State.closing_of_none hr, State.heeded_of_none hr⟩
  cases ha with
  | ends o hr hc => exact still hc.running
  | goesOn _ _ _ hr' => simp [State.closing, State.Heeded, hr']
  | lull hr _ hc => exact still (hc.running.trans hr)
  | enters hc _ hr' =>
    refine ⟨by simp [State.closing, hr', hc.root.asked], fun t o h => ?_⟩
    cases hr'.symm.trans h
  | spawns _ _ hr' => exact still hr'
  | releases _ hr _ _ hc => exact still (hc.running.trans hr)
  | discards hr _ _ hc => exact still (hc.running.trans hr)

theorem Move.turnover (hm : Move p X Y v l l' s s') (hh : l.Heeded) :
    Turnover s s' l.opening l'.closing ∧ l'.Heeded := by
  cases hm with
  | @work u w d t k n cs m hr hd hk ha hc heq =>
    subst heq
    have ho : l.opening = w.opens := by
      cases w <;> simp [State.opening, hr, Work.on, Work.opens]
    have hcl : (m.carryOn t n k).closing = n.closes := by
      cases n <;> rfl
    rw [ho, hcl]
    refine ⟨ha.turnover hd, fun t' o hr' => ?_⟩
    cases n with
    | give o =>
      cases hr'
      -- Only a call that a user starts stands alone on its stack, and none of these yields a handle.
      cases hk with
      | done hroot => exact hroot.shape rfl
    | call | jump | pause | again => cases hr'
  | aside _ _ ha =>
    obtain ⟨hcl, hh'⟩ := ha.closing
    rw [ha.opening hh, hcl]
    exact ⟨.same ha.roll, hh'⟩

theorem Accounted.move (ha : Accounted b l s) (hl : Listed l s) (hm : Move p X Y v l l' s s') :
    Accounted (b.note l') l' s' := by
  obtain ⟨ht, hn⟩ := hm.turnover ha.heeded
  refine ⟨?_, ?_, hn⟩
  · rw [Ledger.note, ha.opened, ht.keeps.1]
  · rcases ht.departed hl.once with ⟨hc, hd⟩ | ⟨c, _, hc, hd⟩
    · rw [Ledger.note, hc, hd, List.append_nil]
      exact ha.closed
    · have hp := hd.map (·.handle)
      rw [Ledger.note, hc]
      exact ((List.perm_append_singleton _ _).trans (ha.closed.cons c.handle)).trans hp.symm

theorem Recorded.kept (h : Recorded settings allowed l b) : ∃ s,
    Sound Session.Pooling.number l s ∧ Listed l s ∧ Accounted b l s := by
  induction h with
  | start => exact ⟨_, .ofPool settings, .ofPool settings, rfl, .refl _, nofun⟩
  | step _ hst ih =>
    obtain ⟨s, hs, hl, ha⟩ := ih
    obtain ⟨v, s', hm⟩ := hst.freely hs
    exact ⟨s', hm.sound hs, hl.move hs hm, ha.move hl hm⟩

end Moves

/-- Each handle that the driver has opened is that of one connection, under an id of its own, and the
driver is asked to close it once, in the step in which the connection leaves the pool. So the handles
opened are those of the connections in the pool and those that were to be closed, but for one that has
just been opened and that the step under way is about to take in. -/
theorem handles_accounted {settings : Config.PoolSettings} {allowed : State → Event → Prop} {l : State}
    {b : Ledger} (h : Recorded settings allowed l b) :
    ∃ s, l.pool? Session.Pooling.number = some s ∧
      b.opened = s.leases.map (·.handle) ++ l.opening ∧ (s.leases.map (·.id)).Nodup ∧
      b.closed.Perm (s.departed.map (·.handle)) ∧
      b.opened.Perm (s.live.map (·.handle) ++ b.closed ++ l.opening) ∧
      (b.opened.Nodup → (s.live.map (·.handle) ++ b.closed).Nodup) ∧
      (l.running = none → l.opening = []) ∧
      ∀ l', Step Session.Pooling.number allowed l l' → ∃ s',
        l'.pool? Session.Pooling.number = some s' ∧ s.leases <+: s'.leases ∧
        (l'.closing = [] ∧ s'.departed = s.departed ∨
          ∃ c ∈ s.live, l'.closing = [c.handle] ∧ s'.departed.Perm (c.lease :: s.departed)) := by
  obtain ⟨s, hs, hl, ha⟩ := h.kept
  have hsplit : (s.leases.map (·.handle)).Perm (s.live.map (·.handle) ++ b.closed) := by
    have hp := s.leases_perm.map (·.handle)
    rw [List.map_append, List.map_map] at hp
    exact hp.trans (ha.closed.symm.append_left _)
  have hperm : b.opened.Perm (s.live.map (·.handle) ++ b.closed ++ l.opening) := by
    rw [ha.opened]
    exact hsplit.append_right _
  refine ⟨s, hs.pool, ha.opened, ?_, ha.closed, hperm, fun hn => ?_, State.opening_of_none,
    fun l' hst => ?_⟩
  · rw [Pool.State.leases, List.map_map]
    exact hl.once
  · exact (List.nodup_append.mp (hperm.nodup_iff.mp hn)).1
  · obtain ⟨v, s', hm⟩ := hst.freely hs
    obtain ⟨ht, _⟩ := hm.turnover ha.heeded
    exact ⟨s', (hm.sound hs).pool, ht.keeps.2, ht.departed hl.once⟩

def Ledger.settleWithin (b : Ledger) (l : State) : Nat → State × Ledger
  | 0 => (l, b)
  | n + 1 =>
    match l.step? with
    | none => (l, b)
    | some l' => (b.note l').settleWithin l' n

theorem Recorded.settleWithin {settings : Config.PoolSettings} {allowed : State → Event → Prop}
    {l : State} {b : Ledger} (h : Recorded settings allowed l b) (n : Nat) :
    Recorded settings allowed (b.settleWithin l n).1 (b.settleWithin l n).2 := by
  induction n generalizing l b with
  | zero => exact h
  | succ n ih =>
    rw [Ledger.settleWithin]
    cases hl : l.step? with
    | none => exact h
    | some l' => exact ih (h.step (.loop hl))

def Ledger.after (r : State × Ledger) (e : Event) (n : Nat) : State × Ledger :=
  (r.2.note (r.1.after e)).settleWithin (r.1.after e) n

theorem Recorded.after {settings : Config.PoolSettings} {r : State × Ledger}
    (h : Recorded settings Freely r.1 r.2) (e : Event) (hr : r.1.running = none)
    (he : e.Offered Session.Pooling.number) (n : Nat) :
    Recorded settings Freely (Ledger.after r e n).1 (Ledger.after r e n).2 :=
  (h.step (.event e hr he trivial)).settleWithin n

def oneHolds : State × Ledger :=
  Ledger.after (.ofPool tight, {}) (.enter (.acquire Session.Pooling.number)) 6

def oneHoldsOneWaits : State × Ledger :=
  Ledger.after oneHolds (.enter (.acquire Session.Pooling.number)) 1

def replaced : State × Ledger :=
  Ledger.after oneHoldsOneWaits (.enter (.destroy Session.Pooling.number 1)) 20

theorem replaced_recorded : Recorded tight Freely replaced.1 replaced.2 := by
  have h₁ : Recorded tight Freely oneHolds.1 oneHolds.2 :=
    Recorded.after (r := (.ofPool tight, {})) .start (.enter (.acquire _)) rfl Call.Offered.acquire 6
  have h₂ : Recorded tight Freely oneHoldsOneWaits.1 oneHoldsOneWaits.2 :=
    h₁.after (.enter (.acquire _)) rfl Call.Offered.acquire 1
  exact h₂.after (.enter (.destroy _ 1)) rfl (Call.Offered.destroy 1) 20

theorem handles_accounted_replaced : Recorded tight Freely replaced.1 replaced.2 ∧
    replaced.2.opened = [.numbered 1, .numbered 2] ∧ replaced.2.closed = [.numbered 1] ∧
    ∃ s, replaced.1.pool? Session.Pooling.number = some s ∧ s.live.map (·.handle) = [.numbered 2] := by
  have hopened : replaced.2.opened = [.numbered 1, .numbered 2] := rfl
  have hclosed : replaced.2.closed = [.numbered 1] := rfl
  obtain ⟨s, hs, _, _, _, hperm, _⟩ := handles_accounted replaced_recorded
  refine ⟨replaced_recorded, hopened, hclosed, s, hs, ?_⟩
  rw [hopened, hclosed, show replaced.1.opening = [] from rfl, List.append_nil] at hperm
  exact List.perm_singleton.mp
    ((List.perm_append_right_iff _).mp (hperm.symm.trans (.swap _ _ _)))

end SqliteAccess.Loop
