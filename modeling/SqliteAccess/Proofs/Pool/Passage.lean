import SqliteAccess.Proofs.Pool.Custody

/-!
How the steps of tasks take connections from place to place, and which of them are about to be
destroyed.
-/

namespace SqliteAccess.Loop

def brought : {s : Shape} → Outcome s → List Nat
  | .lease, .ok c => [c.id]
  | _, _ => []

def Work.brings {u : Shape} : Work u → List Nat
  | .call _ => []
  | .back _ o => brought o

def Next.brings {u : Shape} : Next u → List Nat
  | .give o => brought o
  | _ => []

def Work.Razes (id : Nat) : {u : Shape} → Work u → Prop
  | _, .call (.destroy _ i) => i = id
  | _, _ => False

def Weight.dooms (id : Nat) : Weight where
  call
    | .destroy _ i => if i = id then 1 else 0
    | _ => 0
  rest
    | .draining _ rest => if id ∈ rest then 1 else 0
    | _ => 0

@[simp] theorem Weight.dooms_destroy {p id i : Nat} :
    0 < (Weight.dooms i).call (.destroy p id) ↔ id = i := by
  simp only [Weight.dooms]
  split <;> simp [*]

@[simp] theorem Weight.dooms_draining {p i : Nat} {rest : List Nat} :
    0 < (Weight.dooms i).frame (.draining p rest) ↔ i ∈ rest := by
  simp only [Weight.dooms, Weight.frame]
  split <;> simp [*]

def Weight.front (W : Weight) {u : Shape} : Next u → Nat
  | .call c _ => W.call c
  | .jump c => W.call c
  | _ => 0

section Acts

variable {p t T N N' : Nat} {s s' : Pool.State} {u : Shape} {w : Work u} {cs : List (Call .unit)}
  {n : Next u} {k : Stack u} {d : Call u} {due due' : Nat → Prop} {held : List Nat}

@[simp] theorem Next.brings_lease (c : Pool.Lease) :
    (Next.give (s := .lease) (.ok c)).brings = [c.id] := rfl

theorem brought_error (e : Failure) : brought (.error e : Outcome u) = [] := by
  cases u <;> rfl

theorem brought_of_ne (hu : u ≠ .lease) (o : Outcome u) : brought o = [] := by
  cases u with
  | lease => exact absurd rfl hu
  | _ => rfl

theorem Next.brings_of_ne (hu : u ≠ .lease) (n : Next u) : n.brings = [] := by
  cases n with
  | give o => exact brought_of_ne hu o
  | call | jump | pause | again => rfl

theorem Act.sole (h : Act p t T N s w s' N' cs n) (hz : ∀ e, s.shortfall = .error e → ∀ i, due' i)
    (hN : ∀ i ∈ s.connections.map (·.id), i < N) (hid : ∀ i, w.Razes i → i ∉ s.given ++ held)
    (hd : ∀ i, due i → due' i ∨ w.Razes i) (hlate : s.closed = true → ∀ i, due' i)
    (hs : s.Sole due held w.brings) : s'.Sole due' held n.brings := by
  -- But for a destroy that begins, what was due before the step is due after it.
  have calm : (∀ i, ¬ w.Razes i) → s.Sole due' held w.brings := fun hr =>
    hs.congr rfl rfl rfl fun i hi => (hd i hi).resolve_right (hr i)
  cases h
  case takes i _ ht =>
    obtain ⟨hi, hs'⟩ := Pool.State.takeIdle?_eq ht
    have ha : (s.awake T).Sole due' held [] := (calm fun _ => id).congr rfl rfl rfl fun _ => id
    rw [Next.brings_lease, Pool.State.leaseOf_id]
    exact ha.takes hi hs'
  case lines h₁ hl =>
    subst h₁
    have ha := calm fun _ => id
    cases hl <;> exact ha.congr rfl rfl rfl fun _ => id
  case openFailed e =>
    have ha := calm fun _ => id
    rw [show (Next.give (orFailure s.growth (.error e : Outcome .lease))).brings = [] by
      unfold orFailure; split <;> rfl]
    exact ha.congr rfl rfl rfl fun _ => id
  case openDone j c _ =>
    have ha : (s.expand T j).Sole due' held [c.id] :=
      (calm fun _ => id).congr rfl rfl rfl fun _ => id
    exact ha.checkout
  case openSpoilt c he => exact (calm fun _ => id).drop fun i _ => hz _ he i
  case served ht =>
    rw [Next.brings_lease, Pool.State.leaseOf_id]
    exact Pool.State.Sole.takeUp (calm fun _ => id) ht
  case misled ht =>
    rw [Pool.State.takeUp_of_none ht]
    exact calm fun _ => id
  case leaves ht =>
    rw [Pool.State.takeUp_of_none ht]
    exact (calm fun _ => id).congr rfl rfl rfl fun _ => id
  case passesOn i e now ht =>
    have ha : ((s.takeUp t).leaveLine t).Sole due' held [i] :=
      (Pool.State.Sole.takeUp (calm fun _ => id) ht).congr rfl rfl rfl fun _ => id
    exact ha.checkin (Pool.State.checkin_spec _ i now)
  case registers c now =>
    have ha : s.freeSlot.Sole due' held [] := (calm fun _ => id).congr rfl rfl rfl fun _ => id
    refine ha.register (List.find?_eq_none.mpr fun c hc => ?_) c
    have := hN c.id (List.mem_map_of_mem hc)
    simp
    omega
  case backgroundFailed h₁ =>
    subst h₁
    exact (calm fun _ => id).congr rfl rfl rfl fun _ => id
  case backgroundLate c hc =>
    have ha : s.endBackground.Sole due' held [c.id] :=
      (calm fun _ => id).congr rfl rfl rfl fun _ => id
    exact ha.drop fun i _ => hlate hc i
  case backgroundDone c now _ =>
    have ha : s.endBackground.Sole due' held [c.id] :=
      (calm fun _ => id).congr rfl rfl rfl fun _ => id
    exact ha.checkin (Pool.State.checkin_spec _ c.id now)
  case gone id hr =>
    have hf := Pool.State.remove?_none hr
    refine ⟨hs.once, hs.free, hs.used, hs.live, fun i c hi => ?_⟩
    apply (hs.covered i c hi).imp_right
    intro hm
    refine (hd i hm).resolve_right ?_
    rintro rfl
    cases hf.symm.trans hi
  case removes id _ hr =>
    obtain ⟨_, rfl⟩ := Pool.State.remove?_eq hr
    exact Pool.State.Sole.without hs (hid id rfl) fun i hi => (hd i hi).imp_right Eq.symm
  case neverStarted e _ =>
    rw [show (Next.give (.error e : Outcome u)).brings = [] from brought_error e]
    exact calm fun _ => id
  all_goals first
    | exact (calm fun _ => id).congr rfl rfl rfl fun _ => id
    | rw [Next.brings_of_ne (by decide)]
      exact (calm fun _ => id).congr rfl rfl rfl fun _ => id

theorem Act.returning {w : Work .lease} {n : Next .lease} {d : Call .lease}
    (h : Act p t T N s w s' N' cs n) (hs : s.Sole due held w.brings) (hd : w.Of p d)
    (hr : d.Root p) {c : Pool.Lease} (hn : n = .give (.ok c)) : s'.UsedAs true c.id := by
  have marked : ∀ {q : Pool.State} {i : Nat}, (∃ b, q.UsedAs b i) → (q.checkout i).UsedAs true i :=
    fun ⟨_, hb⟩ => Pool.State.usedAs_update (fun _ => ⟨rfl, rfl⟩) (fun _ => rfl) hb
  cases h
  case takes i _ ht =>
    cases hn
    obtain ⟨hi, hs'⟩ := Pool.State.takeIdle?_eq ht
    have hfree := hs.free i (by rw [show s.idle = _ from hi]; simp)
    rw [Pool.State.leaseOf_id, hs']
    exact marked ⟨false, hfree⟩
  case lines hl =>
    subst hn
    cases hl
  case openFailed e =>
    unfold orFailure at hn
    split at hn <;> cases hn
  case openDone c' _ =>
    cases hn
    exact marked (hs.live c.id List.mem_cons_self)
  case served ht =>
    cases hn
    rw [Pool.State.leaseOf_id]
    exact hs.used _ (List.mem_append_left _
      ((Pool.State.given_takeUp ht).mem_iff.mpr List.mem_cons_self))
  case registers =>
    cases hd with
    | back _ hf => cases hf; cases hr
  all_goals cases hn

theorem Act.comes_by (h : Act p t T N s w s' N' cs n) {i : Nat} (hi : i ∈ s'.given ++ n.brings) :
    i ∈ s.given ++ w.brings ∨ s.closed = false ∧ (Weight.dooms i).work w = 0 ∨ i = N := by
  have still : s'.given = s.given → n.brings = [] → i ∈ s.given ++ w.brings := by
    intro hg hb
    rw [hg, hb, List.append_nil] at hi
    exact List.mem_append_left _ hi
  have comes : ∀ {q q' : Pool.State} {j : Nat} {now : Float}, q.Checkin j now q' →
      i ∈ q'.given ++ [] → i ∈ q.given ∨ i = j := by
    intro q q' j now hc hm
    rw [List.append_nil] at hm
    rcases hc.places with ⟨_, hg, _⟩ | ⟨_, hg, _⟩
    · simpa [hg] using hm
    · exact .inl (hg ▸ hm)
  cases h
  case takes j hopen ht =>
    rw [Next.brings_lease, Pool.State.leaseOf_id] at hi
    rcases List.mem_append.mp hi with hi | hi
    · rw [(Pool.State.takeIdle?_eq ht).2] at hi
      exact .inl (List.mem_append_left _ hi)
    · exact .inr (.inl ⟨hopen, rfl⟩)
  case lines h₁ hl =>
    subst h₁
    cases hl <;> exact .inl (still rfl rfl)
  case openFailed e =>
    refine .inl (still rfl ?_)
    unfold orFailure
    split <;> rfl
  case openDone => exact .inl hi
  case served ht =>
    rw [Next.brings_lease, Pool.State.leaseOf_id] at hi
    refine .inl (List.mem_append_left _ ((Pool.State.given_takeUp ht).mem_iff.mpr ?_))
    exact List.perm_append_singleton _ _ |>.mem_iff.mp hi
  case misled ht =>
    rw [Pool.State.takeUp_of_none ht] at still
    exact .inl (still rfl rfl)
  case leaves ht =>
    rw [Pool.State.takeUp_of_none ht] at still
    exact .inl (still rfl rfl)
  case passesOn j e now ht =>
    refine .inl (List.mem_append_left _ ((Pool.State.given_takeUp ht).mem_iff.mpr ?_))
    rcases comes (Pool.State.checkin_spec _ j now) hi with hi | rfl
    · exact List.mem_cons_of_mem _ hi
    · exact List.mem_cons_self
  case registers c now =>
    rcases List.mem_append.mp hi with hi | hi
    · exact .inl (List.mem_append_left _ hi)
    · exact .inr (.inr (List.mem_singleton.mp hi))
  case backgroundFailed h₁ =>
    subst h₁
    exact .inl (still rfl rfl)
  case backgroundDone c now _ =>
    rcases comes (Pool.State.checkin_spec _ c.id now) hi with hi | rfl
    · exact .inl (List.mem_append_left _ hi)
    · exact .inl (List.mem_append_right _ List.mem_cons_self)
  case removes hr =>
    rw [(Pool.State.remove?_eq hr).2] at still
    exact .inl (still rfl rfl)
  case neverStarted e _ => exact .inl (still rfl (brought_error e))
  all_goals first
    | exact .inl (still rfl rfl)
    | exact .inl (still rfl (Next.brings_of_ne (by decide) _))

theorem Act.dooms (h : Act p t T N s w s' N' cs n) {i : Nat} (hi : 0 < (Weight.dooms i).next n) :
    0 < (Weight.dooms i).work w ∨ i ∈ s'.idle ∨
      i ∈ w.brings ∧ s'.given = s.given ∧ n.brings = [] := by
  have evicts : ∀ {n : Next .count}, Sweeps p s n → 0 < (Weight.dooms i).next n → i ∈ s.idle := by
    intro n hn hi
    cases hn with
    | @evicts j rest k hj _ =>
      have hi : 0 < (Weight.dooms i).call (.destroy p j) := hi
      exact Weight.dooms_destroy.mp hi ▸ hj
    | ends => exact absurd hi (Nat.lt_irrefl 0)
  have drains : ∀ {s : Pool.State} {rest : List Nat} {n : Next .unit}, Drains p s rest n →
      0 < (Weight.dooms i).next n → i ∈ rest := by
    intro s rest n hn hi
    cases hn with
    | destroys j rest =>
      rcases Nat.add_pos_iff_pos_or_pos.mp hi with hi | hi
      · exact Weight.dooms_destroy.mp hi ▸ List.mem_cons_self
      · exact List.mem_cons_of_mem j (Weight.dooms_draining.mp hi)
    | waits | ends => exact absurd hi (Nat.lt_irrefl 0)
  cases h
  case started c => exact .inl hi
  case lines hl => cases hl <;> exact absurd hi (Nat.lt_irrefl 0)
  case backgroundLate c _ =>
    have he : c.id = i := Weight.dooms_destroy.mp hi
    exact .inr (.inr ⟨he ▸ List.mem_cons_self, rfl, rfl⟩)
  case evicts hn => exact .inr (.inl (evicts hn hi))
  case evictsOn hn => exact .inr (.inl (evicts hn hi))
  case reaps hn => cases hn <;> exact absurd hi (Nat.lt_irrefl 0)
  case sweptOver hn => cases hn <;> exact absurd hi (Nat.lt_irrefl 0)
  case shutsAtOnce hn => exact .inr (.inl (drains hn hi))
  case clears hn => exact .inr (.inl (drains hn hi))
  case drains rest hn =>
    exact .inl ((Weight.dooms_draining (p := p)).mpr (drains hn hi))
  all_goals exact absurd hi (Nat.lt_irrefl 0)

theorem Act.front (h : Act p t T N s w s' N' cs n) (hc : s'.closed = false)
    (hw : Weight.shutting.work w = 0) (i : Nat) :
    (Weight.dooms i).next n = (Weight.dooms i).front n := by
  cases h
  case lines hl => cases hl <;> rfl
  case evicts hn => cases hn <;> rfl
  case evictsOn hn => cases hn <;> rfl
  case reaps hn => cases hn <;> rfl
  case sweptOver hn => cases hn <;> rfl
  case shutsAtOnce => cases hc
  case clears => cases hw
  case drains => cases hw
  all_goals rfl

end Acts

end SqliteAccess.Loop
