import SqliteAccess.Proofs.Pool.Kept
import SqliteAccess.Proofs.Pool.Sizes

/-!
The counters of a pool are exact: a slot is taken for each open that is under way, and never more
slots than there may be.
-/

namespace SqliteAccess.Loop

def Weight.slots : Weight where
  call
    | .openSlot _ | .openBackground _ => 1
    | _ => 0
  rest
    | .registering _ => 1
    | _ => 0

section Acts

variable {p t T N N' m M : Nat} {s s' : Pool.State} {u : Shape} {w : Work u} {cs : List (Call .unit)}
  {n : Next u}

theorem sum_openers {W : Weight} (hW : W.call (.openBackground p) = 1) (r : Except Failure Nat) :
    ((openers p r).map fun c => W.call c).sum = opens r := by
  rw [openers, List.map_replicate, List.sum_replicate_nat, hW, Nat.mul_one]

theorem sum_starters {W : Weight} (hW : W.call (.reap p) = 0) :
    ((starters p s).map fun c => W.call c).sum = 0 := by
  unfold starters
  split <;> simp [hW]

def Work.Spoils {u : Shape} : Work u → Prop
  | .back (.start c) (.error _) => 0 < Weight.background.call c
  | _ => False

theorem Act.counters (h : Act p t T N s w s' N' cs n) {d : Call u} (hd : w.Of p d) (hs : ¬ w.Spoils)
    (hp : Weight.slots.work w ≤ s.pending) (hb : Weight.background.work w ≤ s.spawned) :
    s'.pending + Weight.slots.work w =
        s.pending + Weight.slots.next n + (cs.map fun c => Weight.slots.call c).sum ∧
      s'.spawned + Weight.background.work w =
        s.spawned + Weight.background.next n + (cs.map fun c => Weight.background.call c).sum := by
  have drains : ∀ {s rest n}, Drains p s rest n →
      Weight.slots.next n = 0 ∧ Weight.background.next n = 0 := by
    intro s rest n hn
    cases hn <;> exact ⟨rfl, rfl⟩
  cases h
  case neverStarted e c =>
    have hc : Weight.slots.call c = 0 ∧ Weight.background.call c = 0 := by
      cases hd with
      | back _ hf =>
        cases hf with
        | start hr =>
          cases hr with
          | openBackground => exact absurd Nat.one_pos hs
          | acquire | destroy | evict | reap | closePool => exact ⟨rfl, rfl⟩
    simp [Weight.work, Weight.next, Weight.frame, hc]
  case takes ht =>
    rw [(Pool.State.takeIdle?_eq ht).2, sum_starters rfl, sum_starters rfl]
    exact ⟨rfl, rfl⟩
  case opens =>
    rw [sum_starters rfl, sum_starters rfl]
    exact ⟨rfl, rfl⟩
  case lines h₁ hl =>
    subst h₁
    rw [List.map_append, List.sum_append, sum_starters rfl, sum_openers rfl, Nat.zero_add,
      List.map_append, List.sum_append, sum_starters rfl, sum_openers rfl, Nat.zero_add]
    cases hl <;> exact ⟨rfl, rfl⟩
  case openFailed =>
    rw [sum_openers rfl, sum_openers rfl]
    exact ⟨rfl, rfl⟩
  case openDone hsf =>
    rw [sum_openers rfl, sum_openers rfl, hsf]
    exact ⟨rfl, rfl⟩
  case passesOn id e now _ =>
    have hc := ((s.takeUp t).leaveLine t).checkin_spec id now
    exact ⟨hc.counts.1, hc.counts.2⟩
  case registers => exact ⟨Nat.sub_add_cancel hp, rfl⟩
  case frees => exact ⟨Nat.sub_add_cancel hp, rfl⟩
  case backgroundFailed h₁ =>
    rw [sum_openers rfl, sum_openers rfl, h₁]
    exact ⟨rfl, (Nat.add_right_comm _ _ _).trans (congrArg (· + _) (Nat.sub_add_cancel hb))⟩
  case backgroundCut => exact ⟨rfl, Nat.sub_add_cancel hb⟩
  case backgroundLate => exact ⟨rfl, Nat.sub_add_cancel hb⟩
  case backgroundDone c now _ =>
    have hc := s.endBackground.checkin_spec c.id now
    exact ⟨hc.counts.1, (congrArg (· + 1) hc.counts.2).trans (Nat.sub_add_cancel hb)⟩
  case removes hr =>
    rw [(Pool.State.remove?_eq hr).2]
    exact ⟨rfl, rfl⟩
  case destroyed =>
    rw [sum_openers rfl, sum_openers rfl]
    exact ⟨rfl, rfl⟩
  case evicts hn => cases hn <;> exact ⟨rfl, rfl⟩
  case evictsOn hn => cases hn <;> exact ⟨rfl, rfl⟩
  case reaps hn => cases hn <;> exact ⟨rfl, rfl⟩
  case sweptOver hsf hn =>
    rw [sum_openers rfl, sum_openers rfl, hsf]
    cases hn <;> exact ⟨rfl, rfl⟩
  case shutsAtOnce hn => rw [(drains hn).1, (drains hn).2]; exact ⟨rfl, rfl⟩
  case clears hn => rw [(drains hn).1, (drains hn).2]; exact ⟨rfl, rfl⟩
  case drains hn => rw [(drains hn).1, (drains hn).2]; exact ⟨rfl, rfl⟩
  all_goals exact ⟨rfl, rfl⟩

theorem Act.counters_le (h : Act p t T N s w s' N' cs n) {d : Call u} (hd : w.Of p d)
    (hp : Weight.slots.work w ≤ s.pending) (hb : Weight.background.work w ≤ s.spawned) :
    s.pending + Weight.slots.next n + (cs.map fun c => Weight.slots.call c).sum ≤
        s'.pending + Weight.slots.work w ∧
      s.spawned + Weight.background.next n + (cs.map fun c => Weight.background.call c).sum ≤
        s'.spawned + Weight.background.work w := by
  by_cases hs : w.Spoils
  · cases h
    case neverStarted => exact ⟨Nat.le_add_right _ _, Nat.le_add_right _ _⟩
    all_goals exact hs.elim
  · obtain ⟨h1, h2⟩ := h.counters hd hs hp hb
    exact ⟨h1.ge, h2.ge⟩

structure Capped (M : Nat) (s : Pool.State) : Prop where
  grown : ∀ (q : Pool.State) (T : Nat), q.settings = s.settings → q.closed = s.closed → q.size ≤ M →
    (q.expand T (Loop.opens q.growth)).size ≤ M
  topped : ∀ (q : Pool.State) (T k : Nat), q.settings = s.settings → q.closed = s.closed →
    q.size ≤ M → q.shortfall = .ok k → (q.expand T k).size ≤ M
  free : s.closed = false → s.mayOpen = true → s.size < M

theorem Capped.of_sized (hz : s.settings.Sized m M) : Capped M s := by
  refine ⟨fun q T hs _ hM => ?_, fun q T k hs _ hM hk => ?_, fun _ => Pool.State.size_lt_of_mayOpen hz⟩
  · rw [Pool.State.size_expand, Pool.State.growth_eq (hs ▸ hz)]
    dsimp only [Loop.opens]
    split <;> omega
  · have ho := hz.ordered
    rw [Pool.State.shortfall_eq (hs ▸ hz)] at hk
    cases hk
    rw [Pool.State.size_expand]
    split <;> omega

theorem Capped.of_closed (hc : s.closed = true) : Capped M s := by
  refine ⟨fun q T _ hq hM => ?_, fun q T k _ hq hM hk => ?_, fun ho => by cases hc.symm.trans ho⟩
  · rw [Pool.State.size_expand, Pool.State.growth, if_pos (hq.trans hc)]
    exact hM
  · rw [Pool.State.shortfall, if_pos (hq.trans hc)] at hk
    cases hk
    rwa [Pool.State.expand_zero]

theorem Act.size_le (h : Act p t T N s w s' N' cs n) (hz : Capped M s)
    (hp : Weight.slots.work w ≤ s.pending) (hM : s.size ≤ M) : s'.size ≤ M := by
  have freed : ∀ {s : Pool.State}, 1 ≤ s.pending → s.freeSlot.size + 1 = s.size := by
    intro s hs
    exact (Nat.add_assoc _ _ _).trans (congrArg (s.live.length + ·) (Nat.sub_add_cancel hs))
  cases h
  case takes ht =>
    rw [(Pool.State.takeIdle?_eq ht).2, Pool.State.size_checkout]
    exact hM
  case opens hc _ hm => exact hz.free hc hm
  case lines h₁ hl =>
    subst h₁
    have hg := hz.grown ((s.awake T).enqueue t) (T + (starters p s).length) rfl rfl hM
    cases hl <;> exact hg
  case openFailed => exact hz.grown s T rfl rfl hM
  case openDone hs =>
    rw [Pool.State.size_checkout]
    exact hz.topped s T _ rfl rfl hM hs
  case passesOn id e now _ =>
    rw [(((s.takeUp t).leaveLine t).checkin_spec id now).size]
    exact hM
  case registers =>
    rw [Pool.State.size_register, freed hp]
    exact hM
  case frees =>
    have := freed hp
    omega
  case backgroundFailed h₁ =>
    subst h₁
    exact hz.grown s.endBackground.failFirst.1 T rfl rfl hM
  case backgroundDone c now _ =>
    rw [(s.endBackground.checkin_spec c.id now).size]
    exact hM
  case removes id _ hr =>
    rw [(Pool.State.remove?_eq hr).2]
    exact (Nat.add_le_add_right (s.live_without_le id) _).trans hM
  case destroyed => exact hz.grown s T rfl rfl hM
  case sweptOver hs _ => exact hz.topped s T _ rfl rfl hM hs
  all_goals exact hM

end Acts

structure Counted (m M : Nat) (l : State) (s : Pool.State) : Prop where
  sized : s.settings.Sized m M
  pending : s.pending = Weight.slots.total l
  spawned : s.spawned = Weight.background.total l
  size : s.size ≤ M

structure Calm (l : State) : Prop where
  flag : ∀ (i : Nat) (k : Task), l.tasks[i]? = some k → 0 < Weight.background.of l i →
    k.cancelRequested = false
  begun : ∀ {u : Shape} (w : Work u) (t : Nat) (k : Stack u), l.running = some (w.on t k) → ¬ w.Spoils

structure Reserved (l : State) (s : Pool.State) : Prop where
  slots : Weight.slots.total l ≤ s.pending
  background : Weight.background.total l ≤ s.spawned

section Moves

variable {p m M : Nat} {X Y : Prop} {v : Option Event} {l l' : State} {s s' : Pool.State}

theorem Weight.work_le_total {W : Weight} (h : Sound p l s) {u : Shape} {w : Work u} {t : Nat}
    {k : Stack u} (hr : l.running = some (w.on t k)) : W.work w ≤ W.total l := by
  have ht : t ∈ Finset.range l.tasks.length :=
    Finset.mem_range.mpr (Work.on_task w t k ▸ h.running_lt hr)
  rw [Weight.total, ← Finset.add_sum_erase _ _ ht, h.of_on hr, Nat.add_assoc]
  exact Nat.le_add_right _ _

theorem Aside.counts (ha : Aside p X Y v l l' s s') :
    s'.pending = s.pending ∧ s'.spawned = s.spawned ∧ s'.size = s.size := by
  cases ha with
  | ends | goesOn | enters | spawns => exact ⟨rfl, rfl, rfl⟩
  | lull _ hl =>
    rw [hl.same]
    exact ⟨rfl, rfl, rfl⟩
  | @releases id now =>
    have hc := s.checkin_spec id now
    exact ⟨hc.counts.1, hc.counts.2, hc.size⟩
  | @discards id => exact ⟨rfl, rfl, s.size_setFree id⟩

theorem Counted.move (h : Sound p l s) (hc : Counted m M l s) (hl : Calm l)
    (hm : Move p X Y v l l' s s') : Counted m M l' s' := by
  cases hm with
  | @work u w d t k n cs l₁ hr hd hk ha hch heq =>
    subst heq
    have hp := Weight.work_le_total (W := .slots) h hr
    have hb := Weight.work_le_total (W := .background) h hr
    rw [← hc.pending] at hp
    rw [← hc.spawned] at hb
    obtain ⟨hpend, hspawn⟩ := ha.counters hd (hl.begun w t k hr) hp hb
    have hts := h.work_total (W := .slots) (n := n) hr hch
    have htb := h.work_total (W := .background) (n := n) hr hch
    have hsz := hc.pending
    have hbg := hc.spawned
    exact ⟨ha.constant.2.1 ▸ hc.sized, by omega, by omega, ha.size_le (.of_sized hc.sized) hp hc.size⟩
  | aside _ _ ha =>
    obtain ⟨h1, h2, h3⟩ := ha.counts
    refine ⟨ha.constant.2.1 ▸ hc.sized, ?_, ?_, h3 ▸ hc.size⟩
    · rw [h1, hc.pending, ha.total h]
      intro u c ho
      cases ho <;> rfl
    · rw [h2, hc.spawned, ha.total h]
      intro u c ho
      cases ho <;> rfl

theorem Reserved.move (h : Sound p l s) (hc : Reserved l s) (hm : Move p X Y v l l' s s') :
    Reserved l' s' := by
  cases hm with
  | @work u w d t k n cs l₁ hr hd hk ha hch heq =>
    subst heq
    have hp := (Weight.work_le_total (W := .slots) h hr).trans hc.slots
    have hb := (Weight.work_le_total (W := .background) h hr).trans hc.background
    obtain ⟨hpend, hspawn⟩ := ha.counters_le hd hp hb
    have hts := h.work_total (W := .slots) (n := n) hr hch
    have htb := h.work_total (W := .background) (n := n) hr hch
    have hsz := hc.slots
    have hbg := hc.background
    exact ⟨by omega, by omega⟩
  | aside _ _ ha =>
    obtain ⟨h1, h2, _⟩ := ha.counts
    refine ⟨?_, ?_⟩
    · rw [h1, ha.total h]
      · exact hc.slots
      · intro u c ho
        cases ho <;> rfl
    · rw [h2, ha.total h]
      · exact hc.background
      · intro u c ho
        cases ho <;> rfl

theorem Move.capped (h : Sound p l s) (hc : Reserved l s) (hz : Capped M s) (hM : s.size ≤ M)
    (hm : Move p X Y v l l' s s') : s'.size ≤ M := by
  cases hm with
  | work hr _ _ ha =>
    exact ha.size_le hz ((Weight.work_le_total (W := .slots) h hr).trans hc.slots) hM
  | aside _ _ ha =>
    rw [ha.counts.2.2]
    exact hM

theorem Move.size_le (h : Sound p l s) (hc : Reserved l s) (hcl : s.closed = true)
    (hm : Move p X Y v l l' s s') : s'.size ≤ s.size :=
  hm.capped h hc (.of_closed hcl) (Nat.le_refl _)

theorem Aside.flag (ha : Aside p X Y v l l' s s') {i : Nat} {y : Task} (hy : l'.tasks[i]? = some y) :
    y.cancelRequested = false ∨ ∃ x, l.tasks[i]? = some x ∧
      (y.cancelRequested = x.cancelRequested ∨ Weight.background.of l i = 0 ∨ X) := by
  have old : ∀ {l₀ : State} {D : Nat → Failure → Prop} {s₁ : Pool.State} {N : Nat}
      {cs : List (Call .unit)}, Changed p (fun _ => False) D (fun _ _ => False) l₀ l' s₁ N cs →
      y.cancelRequested = false ∨ ∃ x, l₀.tasks[i]? = some x ∧
        y.cancelRequested = x.cancelRequested := by
    intro l₀ D s₁ N cs hc
    rcases hc.task_cases hy with ⟨x, hx, hn⟩ | ⟨c, _, _, hm⟩
    · exact .inr ⟨x, hx, hn.flag.resolve_right id⟩
    · exact .inl hm.flag
  cases ha with
  | ends o _ hc =>
    rcases old hc with hf | ⟨x, hx, hf⟩
    · exact .inl hf
    · rcases modify_cases hx with ⟨_, hx⟩ | ⟨rfl, x₀, hx₀, rfl⟩
      · exact .inr ⟨x, hx, .inl hf⟩
      · exact .inr ⟨x₀, hx₀, .inl hf⟩
  | goesOn _ _ _ _ ht =>
    rw [ht] at hy
    rcases modify_cases hy with ⟨_, hy⟩ | ⟨_, x, _, rfl⟩
    · exact .inr ⟨y, hy, .inl rfl⟩
    · exact .inl rfl
  | lull _ _ hc hC =>
    rcases hc.task_cases hy with ⟨x, hx, hn⟩ | ⟨c, hmem, _⟩
    · exact .inr ⟨x, hx, hn.flag.imp_right (hC i)⟩
    · cases hmem
  | enters _ _ _ ht _ hf =>
    rw [ht] at hy
    rcases append_cases hy with hy | ⟨_, rfl⟩
    · exact .inr ⟨y, hy, .inl rfl⟩
    · exact .inl hf
  | spawns _ _ _ ht hm =>
    rw [ht] at hy
    rcases append_cases hy with hy | ⟨_, rfl⟩
    · exact .inr ⟨y, hy, .inl rfl⟩
    · exact .inl hm.flag
  | releases _ _ _ _ hc => exact (old hc).imp_right fun ⟨x, hx, hf⟩ => ⟨x, hx, .inl hf⟩
  | discards _ _ _ hc => exact (old hc).imp_right fun ⟨x, hx, hf⟩ => ⟨x, hx, .inl hf⟩

theorem Calm.flag_move (h : Sound p l s) (hl : Calm l) (hx : ¬ X) (hm : Move p X Y v l l' s s') :
    ∀ (i : Nat) (k : Task), l'.tasks[i]? = some k → 0 < Weight.background.of l' i →
      k.cancelRequested = false := by
  intro i y hy hpos
  cases hm with
  | @work u w d t k n cs l₁ hr hd hk ha hch heq =>
    subst heq
    have hf : ∃ (y₀ : Task), l₁.tasks[i]? = some y₀ ∧ y.cancelRequested = y₀.cancelRequested := by
      rw [State.carryOn_tasks] at hy
      rcases modify_cases hy with ⟨_, hy⟩ | ⟨rfl, y₀, hy₀, rfl⟩
      · exact ⟨y, hy, rfl⟩
      · exact ⟨y₀, hy₀, rfl⟩
    obtain ⟨y₀, hy₀, hyf⟩ := hf
    rw [hyf]
    rcases hch.task_cases hy₀ with ⟨z, hz, hn⟩ | ⟨c, _, _, hm⟩
    · have hi := (List.getElem?_eq_some_iff.mp hz).1
      have hle := h.rooted_le hr hd (ha.keeps hd) hch (Weight.background_rooted p) hi
      rcases hn.flag with hf | hreap
      · rw [hf]
        exact hl.flag i z hz (Nat.lt_of_lt_of_le hpos hle)
      · have hb := (h.reaper i hreap).2.2.1
        omega
    · exact hm.flag
  | aside _ _ ha =>
    rcases ha.flag hy with hf | ⟨x, hx', hf⟩
    · exact hf
    · rw [ha.weight_of h (List.getElem?_eq_some_iff.mp hx').1] at hpos
      rcases hf with hf | hf | hf
      · rw [hf]
        exact hl.flag i x hx' hpos
      · omega
      · exact absurd hf hx

theorem Calm.begun_move (h : Sound p l s) (hl : Calm l) (hm : Move p X Y v l l' s s') :
    ∀ {u : Shape} (w : Work u) (t : Nat) (k : Stack u), l'.running = some (w.on t k) →
      ¬ w.Spoils := by
  intro u' w' t' k' hr' hs
  unfold Work.Spoils at hs
  split at hs
  next c e =>
    cases hm with
    | @work u w d t k n cs l₁ hr hd hk ha hch heq =>
      subst heq
      have hn := ha.keeps hd
      cases hn with
      | give o =>
        cases hr'
        cases hk with
        | push hf _ _ => cases hf
      | call => cases hr'
      | jump => cases hr'
      | late => cases hr'
      | pause => cases hr'
      | again => cases hr'
    | aside _ _ ha =>
      cases ha with
      | ends _ _ hc => cases hc.running.symm.trans hr'
      | @goesOn t signal k x hn hk hst hr'' ht =>
        generalize ho : x.answer signal = o at hr''
        cases hr''.symm.trans hr'
        have hf := h.tasks t' x hk
        rw [hst] at hf
        cases hf with
        | made =>
          have hpos : 0 < Weight.background.of l t' := by
            rw [Weight.of, hk, Option.map_some, Option.getD_some, hst]
            exact Nat.lt_of_lt_of_le hs (Nat.le_add_right_of_le (Nat.le_add_right _ _))
          simp [Task.answer, hl.flag t' x hk hpos] at ho
        | ready _ hp => cases hp
      | lull hn _ hc => cases hn.symm.trans (hc.running.symm.trans hr')
      | enters _ _ hr'' => cases hr''.symm.trans hr'
      | spawns _ _ hr'' => cases hr''.symm.trans hr'
      | releases _ hn _ _ hc => cases hn.symm.trans (hc.running.symm.trans hr')
      | discards hn _ _ hc => cases hn.symm.trans (hc.running.symm.trans hr')
  next => exact hs

theorem Calm.move (h : Sound p l s) (hl : Calm l) (hx : ¬ X) (hm : Move p X Y v l l' s s') : Calm l' :=
  ⟨hl.flag_move h hx hm, hl.begun_move h hm⟩

end Moves

/-- Opens of callers in `acquire` of their own. -/
def Weight.ownOpens : Weight where
  call _ := 0
  rest
    | .opened _ => 1
    | _ => 0

def Weight.openSlots : Weight where
  call
    | .openSlot _ => 1
    | _ => 0
  rest _ := 0

section Resting

variable {p : Nat} {l : State} {s : Pool.State}

theorem Frame.Awaits.slots {u v : Shape} {f : Frame u v} {c : Call u} {d : Call v} (ha : f.Awaits p c)
    (hf : f.RestOf p d) : Weight.slots.frame f + Weight.openSlots.call c =
      Weight.ownOpens.frame f + Weight.background.frame f + Weight.openSlots.call d := by
  cases ha <;> cases hf <;> rfl

theorem Frame.Pauses.slots {v : Shape} {f : Frame .unit v} {w : Wait} {d : Call v} (hp : f.Pauses w)
    (hf : f.RestOf p d) : Weight.slots.frame f =
      Weight.ownOpens.frame f + Weight.background.frame f + Weight.openSlots.call d := by
  cases hp <;> cases hf <;> rfl

theorem Stack.Holds.slots {u : Shape} {k : Stack u} {c : Call u} (h : k.Holds p c) :
    Weight.slots.stack k + Weight.openSlots.call c =
      Weight.ownOpens.stack k + Weight.background.stack k := by
  induction h with
  | done hc => cases hc <;> rfl
  | push ha hf hk ih =>
    have hframe := ha.slots hf
    simp only [Weight.stack]
    omega

theorem Status.Fits.slots {x : Status} (h : x.Fits p) :
    Weight.slots.status x = Weight.ownOpens.status x + Weight.background.status x := by
  have top : ∀ {u : Shape} {f : Frame .unit u} {k : Stack u} {w : Wait}, f.Pauses w →
      (Stack.push f k).Fits p → Weight.slots.stack (.push f k) =
        Weight.ownOpens.stack (.push f k) + Weight.background.stack (.push f k) := by
    intro u f k w hp hk
    cases hk with
    | push hf hk =>
      have hframe := hp.slots hf
      have hs := hk.slots
      simp only [Weight.stack]
      omega
  cases h with
  | made hc => cases hc <;> rfl
  | ready _ hp hk => exact top hp hk
  | paused hp hk => exact top hp hk
  | running => rfl
  | finished => rfl

theorem Sound.slots_total (h : Sound p l s) (hr : l.running = none) :
    Weight.slots.total l = Weight.ownOpens.total l + Weight.background.total l := by
  rw [Weight.total, Weight.total, Weight.total, ← Finset.sum_add_distrib]
  apply Finset.sum_congr rfl
  intro i hi
  have hk := List.getElem?_eq_getElem (Finset.mem_range.mp hi)
  have hs := (h.tasks i _ hk).slots
  simpa [Weight.of, hr, hk] using hs

end Resting

/-- No task is cancelled that opens in the background or closes the pool. -/
def CancelsCallers (l : State) : Event → Prop
  | .cancel t => Weight.background.of l t = 0 ∧ Weight.closing.of l t = 0
  | _ => True

theorem shutting_below_closing : Weight.shutting.Below .closing :=
  ⟨fun _ => Nat.zero_le _, fun f => by
    cases f <;> first | exact Nat.zero_le _ | exact Nat.le_refl _⟩

theorem CancelsCallers.spares {l : State} {e : Event} (h : CancelsCallers l e) :
    e.Spares False True l := by
  cases e with
  | cancel t =>
    have := shutting_below_closing.of l t
    have := h.2
    exact .inr ⟨h.1, by omega⟩
  | answerOpen t signal => exact fun _ => .inr trivial
  | enter | spawn | release | answerClose | driver | tick => trivial

theorem Counted.ofPool {settings : Config.PoolSettings} {m M : Nat} (hz : settings.Sized m M) :
    Counted m M (.ofPool settings) (Pool.fresh settings) := by
  have ht : (State.ofPool settings).tasks = [] := rfl
  refine ⟨hz, ?_, ?_, Nat.zero_le _⟩
  · rw [Weight.total, ht]
    rfl
  · rw [Weight.total, ht]
    rfl

theorem Calm.ofPool (settings : Config.PoolSettings) : Calm (.ofPool settings) := by
  have ht : (State.ofPool settings).tasks = [] := rfl
  have hr : (State.ofPool settings).running = none := rfl
  exact ⟨by simp [ht], by simp [hr]⟩

theorem tight_sized : tight.Sized 0 1 := ⟨rfl, rfl, rfl, rfl, by decide, by decide⟩

/-- At all times no more slots are taken than there may be. Between the steps of tasks a slot is
reserved just for each open under way, and the spawned ones are those in the background. -/
theorem counters_exact {settings : Config.PoolSettings} {m M : Nat} {l : State}
    (hz : settings.Sized m M) (h : Reachable settings CancelsCallers l) :
    ∃ s, l.pool? Session.Pooling.number = some s ∧ s.size ≤ M ∧
      (l.running = none → s.pending = Weight.ownOpens.total l + Weight.background.total l ∧
        s.spawned = Weight.background.total l ∧ s.spawned ≤ s.pending) := by
  have h0 : Counted m M (.ofPool settings) (Pool.fresh settings) ∧ Calm (.ofPool settings) :=
    ⟨.ofPool hz, .ofPool settings⟩
  obtain ⟨s, hs, hc, _⟩ := Reachable.induction (I := fun l s => Counted m M l s ∧ Calm l) h0 (by
    rintro l l' s hs ⟨hc, hl⟩ hst
    obtain ⟨v, s', hm⟩ := hst.move (X := False) (Y := True) hs nofun fun e he => he.spares
    exact ⟨s', hm.sound hs, hc.move hs hl hm, hl.move hs id hm⟩) h
  refine ⟨s, hs.pool, hc.size, fun hr => ?_⟩
  have ht := hs.slots_total hr
  rw [hc.pending, hc.spawned]
  exact ⟨ht, rfl, by omega⟩

theorem counters_exact_secondWaits : tight.Sized 0 1 ∧ Reachable tight CancelsCallers secondWaits ∧
    ∃ s, secondWaits.pool? Session.Pooling.number = some s ∧ s.size ≤ 1 ∧
      (secondWaits.running = none → s.pending =
          Weight.ownOpens.total secondWaits + Weight.background.total secondWaits ∧
        s.spawned = Weight.background.total secondWaits ∧ s.spawned ≤ s.pending) := by
  have h : Reachable tight CancelsCallers secondWaits :=
    secondWaits_reachable (fun _ _ => trivial) fun _ => trivial
  exact ⟨tight_sized, h, counters_exact tight_sized h⟩

end SqliteAccess.Loop
