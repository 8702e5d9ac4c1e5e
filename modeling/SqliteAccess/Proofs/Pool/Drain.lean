import SqliteAccess.Proofs.Pool.Handles
import SqliteAccess.Proofs.Pool.Ownership

/-!
Closing. The call that closes the pool destroys the connections that rest there one after the other.
Nothing comes to rest in a closed pool but what had been handed over before, and no later call closes
what an earlier one has left behind.
-/

namespace SqliteAccess.Loop

def Weight.owes (i : Nat) : Weight where
  call _ := 0
  rest
    | .draining _ rest => if i ∈ rest then 1 else 0
    | _ => 0

def Weight.sweeping : Weight where
  call _ := 0
  rest
    | .reaperEnded _ => 1
    | _ => 0

def Next.Razes (i : Nat) : {u : Shape} → Next u → Prop
  | _, .call (.destroy _ j) _ => j = i
  | _, .jump (.destroy _ j) => j = i
  | _, _ => False

def Next.Fails {u : Shape} : Next u → Prop
  | .give (.error _) => True
  | _ => False

def Running.Razes (i : Nat) : Running → Prop
  | ⟨_, _, .call (.destroy _ j), _⟩ => j = i
  | _ => False

def Running.Fails : Running → Prop
  | ⟨_, _, .give (.error _), .done _⟩ => True
  | _ => False

def Status.Failed : Status → Prop
  | .finished _ (.error _) => True
  | _ => False

namespace State

def Razes (l : State) (t i : Nat) : Prop := ∃ r, l.running = some r ∧ r.task = t ∧ r.Razes i

def Failed (l : State) (t : Nat) : Prop := ∃ k, l.tasks[t]? = some k ∧ k.status.Failed

def Fails (l : State) (t : Nat) : Prop :=
  (∃ r, l.running = some r ∧ r.task = t ∧ r.Fails) ∨ l.Failed t

end State

structure Ebbs (N : Nat) (s s' : Pool.State) : Prop where
  closed : s'.closed = true
  given : ∀ i ∈ s'.given, i ∈ s.given
  idle : ∀ i ∈ s'.idle, i ∈ s.idle ∨ i ∈ s.given
  stays : ∀ i ∈ s.idle, i < N → i ∈ s'.idle ∨ s'.find? i = none
  gone : ∀ i < N, s.find? i = none → s'.find? i = none
  leases : s.leases <+: s'.leases

section Acts

variable {p t T N N' i : Nat} {s s' : Pool.State} {u : Shape} {w : Work u} {cs : List (Call .unit)}
  {n : Next u} {k : Stack u} {d : Call u}

@[simp] theorem Weight.owes_draining {rest : List Nat} :
    0 < (Weight.owes i).frame (.draining p rest) ↔ i ∈ rest := by
  simp only [Weight.owes, Weight.frame]
  split <;> simp [*]

theorem Act.resting (h : Act p t T N s w s' N' cs n) (hc : s.closed = true) :
    (∀ i ∈ s'.given, i ∈ s.given) ∧ (∀ i ∈ s'.idle, i ∈ s.idle ∨ i ∈ s.given) ∧
      ∀ i ∈ s.idle, i ∈ s'.idle ∨ s'.find? i = none := by
  have still : s'.given = s.given → s'.idle = s.idle →
      (∀ i ∈ s'.given, i ∈ s.given) ∧ (∀ i ∈ s'.idle, i ∈ s.idle ∨ i ∈ s.given) ∧
        ∀ i ∈ s.idle, i ∈ s'.idle ∨ s'.find? i = none := by
    intro hg hi
    rw [hg, hi]
    exact ⟨fun _ => id, fun _ => .inl, fun _ => .inl⟩
  have opened : s.closed ≠ false := by simp [hc]
  cases h
  case takes ho _ => exact absurd ho opened
  case opens ho _ _ => exact absurd ho opened
  case lines ho _ _ _ _ => exact absurd ho opened
  case served ht =>
    have hg := Pool.State.given_takeUp ht
    exact ⟨fun i hi => hg.mem_iff.mpr (List.mem_cons_of_mem _ hi), fun _ => .inl, fun _ => .inl⟩
  case misled ht =>
    rw [Pool.State.takeUp_of_none ht] at still ⊢
    exact still rfl rfl
  case leaves ht =>
    rw [Pool.State.takeUp_of_none ht] at still ⊢
    exact still rfl rfl
  case passesOn j e now ht =>
    have hg := Pool.State.given_takeUp ht
    have hj : j ∈ s.given := hg.mem_iff.mpr List.mem_cons_self
    -- What is given up comes back although the pool is closed, but it had been handed over.
    have hold : ∀ i ∈ (s.takeUp t).given, i ∈ s.given := fun i hi =>
      hg.mem_iff.mpr (List.mem_cons_of_mem _ hi)
    rcases (Pool.State.checkin_spec ((s.takeUp t).leaveLine t) j now).places with
      ⟨hi, hgiven, _⟩ | ⟨hi, hgiven, _⟩
    · rw [hi, hgiven]
      refine ⟨fun i hm => ?_, fun _ => .inl, fun _ => .inl⟩
      rcases List.mem_append.mp hm with hm | hm
      · exact hold i hm
      · exact List.mem_singleton.mp hm ▸ hj
    · rw [hi, hgiven]
      refine ⟨hold, fun i hm => ?_, fun i hm => .inl (List.mem_append_left _ hm)⟩
      rcases List.mem_append.mp hm with hm | hm
      · exact .inl hm
      · exact .inr (List.mem_singleton.mp hm ▸ hj)
  case backgroundFailed h₁ =>
    subst h₁
    exact still rfl rfl
  case backgroundDone ho => exact absurd ho opened
  case removes j _ hr =>
    obtain ⟨_, rfl⟩ := Pool.State.remove?_eq hr
    refine ⟨fun _ => id, fun i hm => .inl (List.mem_of_mem_erase hm), fun i hm => ?_⟩
    by_cases hij : i = j
    · exact .inr (by rw [Pool.State.find?_without, if_pos hij])
    · exact .inl ((List.mem_erase_of_ne hij).mpr hm)
  case shuts ho _ => exact absurd ho opened
  case shutsAtOnce ho _ => exact absurd ho opened
  case shutFails ho => exact absurd ho opened
  all_goals exact still rfl rfl

theorem Drains.owes {s : Pool.State} {rest : List Nat} {n : Next .unit} (h : Drains p s rest n)
    (hi : i ∈ rest) : 0 < (Weight.owes i).next n ∨ n.Razes i := by
  cases h with
  | destroys j rest =>
    rcases List.mem_cons.mp hi with rfl | hi
    · exact .inr rfl
    · refine .inl ?_
      have := (Weight.owes_draining (p := p)).mpr hi
      simp only [Weight.next]
      omega
  | waits | ends => cases hi

inductive Shuts (p : Nat) (s : Pool.State) : {u : Shape} → Work u → Pool.State → Next u → Prop
  | waits (r : Nat) : Shuts p s (.call (.closePool p)) s.shut (.pause (.task r) (.reaperEnded p))
  | atOnce {n : Next .unit} : Drains p s.shut.cleared s.idle n →
      Shuts p s (.call (.closePool p)) s.shut.cleared n
  | fails (e : Failure) : Shuts p s (.call (.closePool p)) s.shut (.give (.error e))

theorem Act.shuts_of (h : Act p t T N s w s' N' cs n) (ho : s.closed = false) (hc : s'.closed = true) :
    Shuts p s w s' n := by
  have open' : ∀ {q : Pool.State}, q.closed = s.closed → q.closed ≠ true := fun hq => by simp [hq, ho]
  cases h
  case shuts r _ _ => exact .waits r
  case shutsAtOnce hd => exact .atOnce hd
  case shutFails e _ => exact .fails e
  case passesOn j e now _ =>
    have hs := ((s.takeUp t).leaveLine t).checkin_spec j now
    generalize (((s.takeUp t).leaveLine t).checkin j now).1 = s' at hs hc
    cases hs <;> exact absurd hc (open' rfl)
  case backgroundDone c now _ =>
    have hs := s.endBackground.checkin_spec c.id now
    generalize (s.endBackground.checkin c.id now).1 = s' at hs hc
    cases hs <;> exact absurd hc (open' rfl)
  case takes ht =>
    rw [(Pool.State.takeIdle?_eq ht).2] at hc
    exact absurd hc (open' rfl)
  case lines h₁ hl =>
    subst h₁
    cases hl <;> exact absurd hc (open' rfl)
  case backgroundFailed h₁ =>
    subst h₁
    exact absurd hc (open' rfl)
  case removes hr =>
    rw [(Pool.State.remove?_eq hr).2] at hc
    exact absurd hc (open' rfl)
  all_goals exact absurd hc (open' rfl)

theorem Act.sets_out (h : Act p t T N s w s' N' cs n)
    (hw : 0 < Weight.sweeping.work w ∨ s.closed = false ∧ s'.closed = true) :
    0 < Weight.closing.work w ∧ (0 < Weight.sweeping.next n ∨
      (∀ i ∈ s'.idle, 0 < (Weight.owes i).next n ∨ n.Razes i) ∨ n.Fails) := by
  rcases hw with hw | ⟨ho, hc⟩
  · cases h
    case clears hd => exact ⟨Nat.one_pos, .inr (.inl fun i hi => hd.owes hi)⟩
    case clearFails => exact ⟨Nat.one_pos, .inr (.inr trivial)⟩
    all_goals exact absurd hw (Nat.lt_irrefl 0)
  · cases h.shuts_of ho hc with
    | waits => exact ⟨Nat.one_pos, .inl Nat.one_pos⟩
    | atOnce hd => exact ⟨Nat.one_pos, .inr (.inl fun i hi => hd.owes hi)⟩
    | fails => exact ⟨Nat.one_pos, .inr (.inr trivial)⟩

theorem Act.still_owes (h : Act p t T N s w s' N' cs n) (hl : s'.find? i ≠ none)
    (hw : 0 < (Weight.owes i).work w ∨ w.Razes i) :
    0 < (Weight.owes i).next n ∨ n.Razes i ∨ 0 < Weight.closing.work w ∧ n.Fails := by
  cases h
  case gone hr =>
    obtain rfl := hw.resolve_left (Nat.lt_irrefl 0)
    exact absurd (Pool.State.remove?_none hr) hl
  case removes hr =>
    obtain rfl := hw.resolve_left (Nat.lt_irrefl 0)
    obtain ⟨_, rfl⟩ := Pool.State.remove?_eq hr
    exact absurd (by rw [Pool.State.find?_without, if_pos rfl]) hl
  case drains rest _ hd =>
    have hpos : 0 < (Weight.owes i).frame (.draining p rest) := hw.resolve_right id
    exact (hd.owes (Weight.owes_draining.mp hpos)).imp_right .inl
  case drainFails => exact .inr (.inr ⟨Nat.one_pos, trivial⟩)
  all_goals exact absurd hw (not_or.mpr ⟨Nat.lt_irrefl 0, id⟩)

end Acts

inductive Emptying (G : Nat → Prop) (t : Nat) (l : State) (s : Pool.State) : Prop
  | waits : 0 < Weight.sweeping.of l t → Emptying G t l s
  | drains : (∀ i ∈ s.idle, s.find? i ≠ none → G i ∨ 0 < (Weight.owes i).of l t ∨ l.Razes t i) →
      Emptying G t l s
  | fails : l.Fails t → Emptying G t l s

section Moves

variable {p t : Nat} {X Y : Prop} {v : Option Event} {l l' m : State} {s s' s'' : Pool.State}
  {G : Nat → Prop} {N N' : Nat}

theorem Ebbs.refl (hc : s.closed = true) : Ebbs N s s :=
  ⟨hc, fun _ => id, fun _ => .inl, fun _ hi _ => .inl hi, fun _ _ => id, List.prefix_refl _⟩

theorem Ebbs.trans (h : Ebbs N s s') (h' : Ebbs N' s' s'') (hN : N ≤ N') : Ebbs N s s'' := by
  refine ⟨h'.closed, fun i hi => h.given i (h'.given i hi), fun i hi => ?_, fun i hi hlt => ?_,
    fun i hlt hi => h'.gone i (by omega) (h.gone i hlt hi), h.leases.trans h'.leases⟩
  · rcases h'.idle i hi with hi | hi
    · exact h.idle i hi
    · exact .inr (h.given i hi)
  · rcases h.stays i hi hlt with hi | hi
    · exact h'.stays i hi (by omega)
    · exact .inr (h'.gone i (by omega) hi)

theorem Aside.resting (ha : Aside p X Y v l l' s s') (hc : s.closed = true) :
    s'.idle = s.idle ∧ s'.given = s.given := by
  cases ha with
  | ends | goesOn | enters | spawns | discards => exact ⟨rfl, rfl⟩
  | lull _ hl =>
    rw [hl.same]
    exact ⟨rfl, rfl⟩
  | releases _ _ _ ho => exact absurd (hc.symm.trans ho) (by decide)

theorem Move.ebbs (hl : Listed l s) (hm : Move p X Y v l l' s s') (hc : s.closed = true) :
    Ebbs l.nextConnection s s' := by
  have hle := hm.leases
  cases hm with
  | work _ _ _ ha =>
    obtain ⟨hg, hi, hs⟩ := ha.resting hc
    exact ⟨ha.closed hc, hg, hi, fun i hm _ => hs i hm,
      fun i hlt hi => (ha.stays_gone hl.known ⟨hlt, hi⟩).2, hle⟩
  | aside _ _ ha =>
    obtain ⟨hi, hg⟩ := ha.resting hc
    refine ⟨ha.constant.2.2.2.trans hc, fun i hm => hg ▸ hm, fun i hm => .inl (hi ▸ hm),
      fun i hm _ => .inl (hi ▸ hm), fun i _ hm => ha.stays_gone hm, hle⟩

theorem Work.not_fails {u : Shape} {w : Work u} {k : Stack u} : ¬ (w.on t k).Fails := by
  cases w with
  | call => exact id
  | back _ o => cases o <;> exact id

theorem State.failed_iff : l.Failed t ↔ ∃ (u : Shape) (e : Failure), l.Ended t (u := u) (.error e) := by
  constructor
  · rintro ⟨k, hk, hf⟩
    cases hs : k.status with
    | finished u o =>
      rw [hs] at hf
      cases o with
      | error e => exact ⟨u, e, k, hk, hs⟩
      | ok => exact hf.elim
    | ready | paused | running =>
      rw [hs] at hf
      exact hf.elim
  · rintro ⟨u, e, k, hk, hs⟩
    exact ⟨k, hk, by rw [hs]; trivial⟩

theorem Sound.failed_ne (h : Sound p l s) {r : Running} (hr : l.running = some r) (hf : l.Failed t) :
    t ≠ r.task := by
  obtain ⟨_, _, hf⟩ := State.failed_iff.mp hf
  exact h.ended_ne hr hf

theorem Move.failed (h : Sound p l s) (hm : Move p X Y v l l' s s') (hf : l.Failed t) :
    l'.Failed t := by
  obtain ⟨u, e, hf⟩ := State.failed_iff.mp hf
  exact State.failed_iff.mpr ⟨u, e, hm.ended h hf⟩

theorem Move.fails (h : Sound p l s) (hm : Move p X Y v l l' s s') (hf : l.Fails t) : l'.Fails t := by
  rcases hf with ⟨r, hr, rfl, hf⟩ | hf
  · cases hm with
    | work hr' =>
      cases hr.symm.trans hr'
      exact absurd hf Work.not_fails
    | aside _ _ ha =>
      refine .inr (State.failed_iff.mpr ?_)
      obtain ⟨t, u, control, k⟩ := r
      cases control with
      | call => exact hf.elim
      | give o =>
        cases k with
        | push => cases o <;> exact hf.elim
        | done =>
          cases o with
          | ok => exact hf.elim
          | error e => exact ⟨u, e, ha.ends_ended h hr⟩
  · exact .inr (hm.failed h hf)

theorem State.carryOn_razes {u : Shape} {n : Next u} {i : Nat} (k : Stack u) (h : n.Razes i) :
    (m.carryOn t n k).Razes t i := by
  cases n with
  | call c f =>
    refine ⟨_, rfl, rfl, ?_⟩
    cases c <;> exact h
  | jump c =>
    refine ⟨_, rfl, rfl, ?_⟩
    cases c <;> exact h
  | give | pause | again => cases h

theorem State.carryOn_fails {u : Shape} {n : Next u} (h : n.Fails) :
    (m.carryOn t n (.done u)).Fails t := by
  cases n with
  | give o =>
    refine .inl ⟨_, rfl, rfl, ?_⟩
    cases o with
    | error => trivial
    | ok => exact h
  | call | jump | pause | again => cases h

section Work

variable {u : Shape} {w : Work u} {d : Call u} {k : Stack u} {n : Next u} {cs : List (Call .unit)}

theorem Sound.carryOn_pos (h : Sound p l s) {C : Nat → Prop} {D : Nat → Failure → Prop}
    {E : Nat → Follower → Prop} {W : Weight} (hr : l.running = some (w.on t k))
    (hc : Changed p C D E l m s' N cs) (hw : 0 < W.next n ∨ W.work w = 0 ∧ 0 < W.of l t) :
    0 < W.of (m.carryOn t n k) t := by
  obtain ⟨ht, _⟩ := h.work_weight (W := W) (n := n) hr hc
  have hl := h.of_on (W := W) hr
  omega

theorem Emptying.sets_out (h : Sound p l s) (hr : l.running = some (w.on t k)) (hd : w.Of p d)
    (hk : k.Holds p d)
    (ha : Act p t l.tasks.length l.nextConnection s w s' m.nextConnection cs n)
    (hc : Changed p (fun i => s.reaper = some i) (Tells s s') (Follows w t s s') l m s'
      m.nextConnection cs)
    (hw : 0 < Weight.sweeping.work w ∨ s.closed = false ∧ s'.closed = true) :
    Emptying G t (m.carryOn t n k) s' := by
  obtain ⟨hclosing, hsweeping | howes | hfails⟩ := ha.sets_out hw
  · exact .waits (h.carryOn_pos hr hc (.inl hsweeping))
  · refine .drains fun i hi _ => .inr ?_
    exact (howes i hi).imp (fun ho => h.carryOn_pos hr hc (.inl ho)) (State.carryOn_razes k)
  · obtain rfl := (Weight.closing_rooted p).alone hk hd hclosing
    exact .fails (State.carryOn_fails hfails)

theorem Emptying.work (h : Sound p l s) (hlive : ∀ i ∈ s.idle, s'.find? i ≠ none → s.find? i ≠ none)
    (hcl : s.closed = true) (hG : ∀ i ∈ s.given, G i) (he : Emptying G t l s)
    (hr : l.running = some (w.on t k)) (hd : w.Of p d) (hk : k.Holds p d)
    (ha : Act p t l.tasks.length l.nextConnection s w s' m.nextConnection cs n)
    (hc : Changed p (fun i => s.reaper = some i) (Tells s s') (Follows w t s s') l m s'
      m.nextConnection cs) : Emptying G t (m.carryOn t n k) s' := by
  cases he with
  | waits hw =>
    by_cases h0 : Weight.sweeping.work w = 0
    · exact .waits (h.carryOn_pos hr hc (.inr ⟨h0, hw⟩))
    · exact .sets_out h hr hd hk ha hc (.inl (by omega))
  | drains hi =>
    by_cases hf : (m.carryOn t n k).Fails t
    · exact .fails hf
    refine .drains fun i hm hl => ?_
    rcases (ha.resting hcl).2.1 i hm with hidle | hgiven
    · rcases hi i hidle (hlive i hidle hl) with hg | howes
      · exact .inl hg
      · refine .inr ?_
        by_cases hw : 0 < (Weight.owes i).work w ∨ w.Razes i
        · rcases ha.still_owes hl hw with ho | hz | ⟨hclosing, hfails⟩
          · exact .inl (h.carryOn_pos hr hc (.inl ho))
          · exact .inr (State.carryOn_razes k hz)
          · obtain rfl := (Weight.closing_rooted p).alone hk hd hclosing
            exact absurd (State.carryOn_fails hfails) hf
        -- The step is that of a call below closing, which leaves alone what closing owes.
        · rw [not_or] at hw
          rcases howes with ho | ⟨r, hr', _, hz⟩
          · exact .inl (h.carryOn_pos hr hc (.inr ⟨by omega, ho⟩))
          · cases hr.symm.trans hr'
            refine absurd ?_ hw.2
            cases w with
            | call c => cases c <;> exact hz
            | back => exact hz
    · exact .inl (hG i hgiven)
  | fails hf =>
    refine absurd hf ?_
    rintro (⟨r, hr', _, hf⟩ | hf)
    · cases hr.symm.trans hr'
      exact Work.not_fails hf
    · exact h.failed_ne hr hf (Work.on_task w t k).symm

end Work

theorem Aside.razes (ha : Aside p X Y v l l' s s') {i : Nat} : ¬ l.Razes t i := by
  rintro ⟨r, hr, _, hz⟩
  cases ha with
  | ends o hr' => cases hr.symm.trans hr'; exact hz
  | goesOn hr' => cases hr.symm.trans hr'
  | lull hr' => cases hr.symm.trans hr'
  | enters _ hr' => cases hr.symm.trans hr'
  | spawns _ hr' => cases hr.symm.trans hr'
  | releases _ hr' => cases hr.symm.trans hr'
  | discards hr' => cases hr.symm.trans hr'

theorem Emptying.move (h : Sound p l s) (hlive : ∀ i ∈ s.idle, s'.find? i ≠ none → s.find? i ≠ none)
    (hcl : s.closed = true) (hG : ∀ i ∈ s.given, G i) (ht : t < l.tasks.length)
    (he : Emptying G t l s) (hm : Move p X Y v l l' s s') : Emptying G t l' s' := by
  have hfails : l.Fails t → Emptying G t l' s' := fun hf => .fails (hm.fails h hf)
  cases hm with
  | @work u w d t' k n cs m hr hd hk ha hc heq =>
    subst heq
    by_cases htt : t = t'
    · subst htt
      exact he.work h hlive hcl hG hr hd hk ha hc
    have hof : ∀ W : Weight, W.of (m.carryOn t' n k) t = W.of l t := fun W =>
      (h.work_weight (W := W) hr hc).2.1 t ht htt
    cases he with
    | waits hw => exact .waits (hof _ ▸ hw)
    | drains hi =>
      refine .drains fun i hm hl => ?_
      rcases (ha.resting hcl).2.1 i hm with hidle | hgiven
      · rcases hi i hidle (hlive i hidle hl) with hg | ho | ⟨r, hr', hrt, _⟩
        · exact .inl hg
        · exact .inr (.inl (hof _ ▸ ho))
        · cases hr.symm.trans hr'
          rw [Work.on_task] at hrt
          exact absurd hrt.symm htt
      · exact .inl (hG i hgiven)
    | fails hf => exact hfails hf
  | aside _ _ ha =>
    have hof : ∀ W : Weight, W.of l' t = W.of l t := fun W => ha.weight_of h ht
    cases he with
    | waits hw => exact .waits (hof _ ▸ hw)
    | drains hi =>
      refine .drains fun i hm hl => ?_
      rw [(ha.resting hcl).1] at hm
      refine (hi i hm (hlive i hm hl)).imp_right fun ho => .inl (hof _ ▸ ho.resolve_right ha.razes)
    | fails hf => exact hfails hf

theorem Emptying.ended (h : Sound p l s) (he : Emptying G t l s) (hend : l.Ended t (u := .unit) (.ok ())) {i : Nat}
    (hi : i ∈ s.idle) (hl : s.find? i ≠ none) : G i := by
  cases he with
  | waits hw => exact absurd (h.ended_weight hend) (Nat.ne_of_gt hw)
  | drains howes =>
    rcases howes i hi hl with hg | ho | ⟨r, hr, hrt, _⟩
    · exact hg
    · exact absurd (h.ended_weight hend) (Nat.ne_of_gt ho)
    · exact absurd hrt.symm (h.ended_ne hr hend)
  | fails hf =>
    rcases hf with ⟨r, hr, hrt, _⟩ | hf
    · exact absurd hrt.symm (h.ended_ne hr hend)
    · obtain ⟨_, hk, hs⟩ := hend
      obtain ⟨_, e, _, hk', hs'⟩ := State.failed_iff.mp hf
      cases hk.symm.trans hk'
      cases hs.symm.trans hs'

theorem Move.shuts (h : Sound p l s) (hm : Move p X Y v l l' s s') (ho : s.closed = false)
    (hcl : s'.closed = true) : l.currentTask < l.tasks.length ∧ Emptying G l.currentTask l' s' := by
  cases hm with
  | @work u w d t k n cs m hr hd hk ha hc heq =>
    subst heq
    have ht : l.currentTask = t := by simp [State.currentTask, State.current?, hr]
    rw [ht]
    exact ⟨Work.on_task w t k ▸ h.running_lt hr, .sets_out h hr hd hk ha hc (.inr ⟨ho, hcl⟩)⟩
  | aside _ _ ha => exact absurd (hcl.symm.trans (ha.constant.2.2.2.trans ho)) (by decide)

theorem Move.grows (hm : Move p X Y v l l' s s') :
    l.tasks.length ≤ l'.tasks.length ∧ l.nextConnection ≤ l'.nextConnection := by
  cases hm with
  | @work u w d t k n cs m hr hd hk ha hc heq =>
    have hn : (m.carryOn t n k).nextConnection = m.nextConnection := by cases n <;> rfl
    have hle := ha.next_le
    have hlen := hc.length
    rw [heq, State.carryOn_length, hn]
    omega
  | aside _ hn ha => exact ⟨ha.length_le, hn.ge⟩

end Moves

section Scenes

variable {p t : Nat} {settings : Config.PoolSettings} {x y z : Scene} {s sx sy sz : Pool.State}
  {G : Nat → Prop}

theorem Scene.Step.step (hst : Scene.Step p x y) : Loop.Step p Freely x.loop y.loop := by
  cases hst with
  | loop hl => exact .loop hl
  | event e hr he _ => exact .event e hr he trivial
  | @release t i hr _ => exact .event (.release p i) hr rfl trivial
  | @destroy t i hr _ => exact .event (.enter (.destroy p i)) hr (Call.Offered.destroy i) trivial

theorem Scene.Step.move (hz : settings.minConnections.isInteger = true) (h : Scene.Kept p settings x s)
    (hst : Scene.Step p x y) : ∃ v s', Move p True True v x.loop y.loop s s' ∧
      Scene.Kept p settings y s' := by
  obtain ⟨s', hy⟩ := hst.kept hz h
  obtain ⟨v, s'', hm⟩ := hst.step.freely h.sound
  have hs := (hm.sound h.sound).pool
  rw [hy.sound.pool] at hs
  cases hs
  exact ⟨v, s', hm, hy⟩

theorem Scene.Kept.idle_live (h : Scene.Kept p settings x s) : s.idle.Nodup ∧
    ∀ i ∈ s.idle, s.find? i ≠ none := by
  refine ⟨(List.nodup_append.mp h.owned.sole.once).1, fun i hi => ?_⟩
  obtain ⟨c, hc, _⟩ := h.owned.sole.free i hi
  simp [hc]

theorem Scene.Kept.ebbs (hz : settings.minConnections.isInteger = true) (hy : Scene.Kept p settings y s)
    (hcl : s.closed = true) (hG : ∀ i ∈ s.given, G i) (ht : t < y.loop.tasks.length)
    (he : Emptying G t y.loop s) (hyz : Relation.ReflTransGen (Scene.Step p) y z) :
    ∃ s', Scene.Kept p settings z s' ∧ Ebbs y.loop.nextConnection s s' ∧ Emptying G t z.loop s' := by
  suffices ∃ s', Scene.Kept p settings z s' ∧ Ebbs y.loop.nextConnection s s' ∧
      Emptying G t z.loop s' ∧ t < z.loop.tasks.length ∧
      y.loop.nextConnection ≤ z.loop.nextConnection by
    obtain ⟨s', hk, heb, he, _⟩ := this
    exact ⟨s', hk, heb, he⟩
  induction hyz with
  | refl => exact ⟨s, hy, .refl hcl, he, ht, Nat.le_refl _⟩
  | tail _ hst ih =>
    obtain ⟨s', hk, heb, he, ht, hN⟩ := ih
    obtain ⟨v, s'', hm, hk'⟩ := hst.move hz hk
    obtain ⟨hlen, hN'⟩ := hm.grows
    refine ⟨s'', hk', heb.trans (hm.ebbs hk.listed heb.closed) hN, ?_, by omega, by omega⟩
    exact he.move hk.sound (fun i hi _ => hk.idle_live.2 i hi) heb.closed (fun i hi => hG i (heb.given i hi)) ht hm

theorem Pool.State.mem_departed {c : Pool.Connection} (hle : sy.leases <+: sz.leases)
    (hc : c ∈ sy.connections) (hf : sz.find? c.id = none) : c.lease ∈ sz.departed := by
  obtain ⟨c', hc', he⟩ := List.mem_map.mp (hle.subset (List.mem_map_of_mem hc))
  have hlive : c'.live = false := by
    have hid : c'.id = c.id := congrArg Pool.Lease.id he
    have hn := List.find?_eq_none.mp hf c' hc'
    simpa [hid] using hn
  exact List.mem_map.mpr ⟨c', List.mem_filter.mpr ⟨hc', by simp [hlive]⟩, he⟩

end Scenes

/-- Once the call that has shut the pool has come back without a failure, whatever rested has left the
pool and the driver has been asked to close it, and nothing rests but what had been handed to callers in
line by then. If the call fails or is cancelled this need not be so, and no other call makes up for it:
the pool is shut, so that it returns at once. -/
theorem drained_unless_close_fails {settings : Config.PoolSettings}
    (hz : settings.minConnections.isInteger = true) {x y z : Scene} {sx sy sz : Pool.State}
    (hx : Disciplined settings x) (hsx : x.loop.pool? Session.Pooling.number = some sx)
    (hopen : sx.closed = false) (hxy : Scene.Step Session.Pooling.number x y)
    (hsy : y.loop.pool? Session.Pooling.number = some sy) (hshut : sy.closed = true)
    (hyz : Relation.ReflTransGen (Scene.Step Session.Pooling.number) y z)
    (hsz : z.loop.pool? Session.Pooling.number = some sz) :
    ((z.loop.tasks[x.loop.currentTask]?).map (·.status) = some (.finished .unit (.ok ())) →
      (∀ i ∈ sz.idle, i ∈ sy.given) ∧ ∀ c ∈ sy.live, c.id ∈ sy.idle → sz.find? c.id = none ∧
        ∀ b, Recorded settings Freely z.loop b → c.handle ∈ b.closed) ∧
      z.loop.closePool Session.Pooling.number = (z.loop, .give (.ok ())) := by
  obtain ⟨s, hk⟩ := hx.kept hz
  cases hk.sound.pool.symm.trans hsx
  obtain ⟨v, s', hm, hky⟩ := hxy.move hz hk
  cases hky.sound.pool.symm.trans hsy
  obtain ⟨ht, he⟩ := hm.shuts (G := (· ∈ sy.given)) hk.sound hopen hshut
  obtain ⟨s'', hkz, heb, he⟩ :=
    hky.ebbs hz hshut (fun _ => id) (ht.trans_le hm.grows.1) he hyz
  cases hkz.sound.pool.symm.trans hsz
  refine ⟨fun hend => ?_, by simp [State.closePool, hsz, heb.closed]⟩
  obtain ⟨k, hk, hs⟩ := Option.map_eq_some_iff.mp hend
  have hgiven : ∀ i ∈ sz.idle, i ∈ sy.given := fun i hi => he.ended hkz.sound ⟨k, hk, hs⟩ hi (hkz.idle_live.2 i hi)
  refine ⟨hgiven, fun c hc hidle => ?_⟩
  have hmem := (List.mem_filter.mp hc).1
  have hgone : sz.find? c.id = none := by
    have hlt := hky.listed.known c.id (List.mem_map_of_mem hmem)
    -- What still rests had been handed over, and then it did not rest when the pool was shut.
    apply (heb.stays c.id hidle hlt).resolve_left
    intro hi
    exact hky.owned.sole.idle_apart hidle (List.mem_append_left _ (hgiven c.id hi))
  refine ⟨hgone, fun b hb => ?_⟩
  obtain ⟨s, hs, _, ha⟩ := hb.kept
  cases hs.pool.symm.trans hsz
  exact ha.closed.mem_iff.mpr (List.mem_map_of_mem (Pool.State.mem_departed heb.leases hmem hgone))

theorem Scene.settles (p : Nat) (l : State) (r : List Nat) (n : Nat) :
    Relation.ReflTransGen (Scene.Step p) ⟨l, r⟩ ⟨l.settleWithin n, r⟩ := by
  induction n generalizing l with
  | zero => exact .refl
  | succ n ih =>
    rw [State.settleWithin]
    cases hl : l.step? with
    | none => exact .refl
    | some l' => exact (ih l').head (.loop hl)

def roomy : Config.PoolSettings := { maxConnections := .int 2, minConnections := .int 0 }

def bothHold : State :=
  (((State.ofPool roomy).after (.enter (.acquire Session.Pooling.number))).settleWithin 6 |>.after
    (.enter (.acquire Session.Pooling.number))).settleWithin 6

def bothGave : Scene :=
  ⟨(bothHold.after (.release Session.Pooling.number 1)).after (.release Session.Pooling.number 2), [2, 0]⟩

def bothRest (faults : List Fault) : Scene :=
  ⟨(bothGave.loop.after (.driver { bothGave.loop.opener with failCloses := faults })).after
    (.enter (.closePool Session.Pooling.number)), bothGave.returned⟩

theorem bothGave_disciplined : Disciplined roomy bothGave := by
  have h₀ : Disciplined roomy ⟨.ofPool roomy, []⟩ := .refl
  have h₁ := Disciplined.settleWithin (h₀.tail (.event (.enter (.acquire _)) rfl .acquire rfl)) 6
  have h₂ := Disciplined.settleWithin (h₁.tail (.event (.enter (.acquire _)) rfl .acquire rfl)) 6
  have h₃ : Disciplined roomy ⟨bothHold.after (.release Session.Pooling.number 1), [0]⟩ :=
    h₂.tail (.release (t := 0) rfl rfl)
  exact h₃.tail (.release (t := 2) rfl rfl)

theorem bothRest_disciplined (faults : List Fault) : Disciplined roomy (bothRest faults) := by
  have h₁ : Disciplined roomy ⟨bothGave.loop.after (.driver { bothGave.loop.opener with
      failCloses := faults }), bothGave.returned⟩ :=
    bothGave_disciplined.tail (.event (.driver _) rfl trivial rfl)
  exact h₁.tail (.event (.enter (.closePool _)) rfl .closePool rfl)

def justShut : Scene := ⟨(bothRest []).loop.settleWithin 1, (bothRest []).returned⟩

def emptied : Scene := ⟨justShut.loop.settleWithin 14, justShut.returned⟩

theorem drained_unless_close_fails_emptied : roomy.minConnections.isInteger = true ∧
    Disciplined roomy (bothRest []) ∧ ∃ sx sy sz,
      (bothRest []).loop.pool? Session.Pooling.number = some sx ∧ sx.closed = false ∧
      Scene.Step Session.Pooling.number (bothRest []) justShut ∧
      justShut.loop.pool? Session.Pooling.number = some sy ∧ sy.closed = true ∧
      Relation.ReflTransGen (Scene.Step Session.Pooling.number) justShut emptied ∧
      emptied.loop.pool? Session.Pooling.number = some sz ∧ sy.idle = [1, 2] ∧ sz.idle = [] := by
  have hx := bothRest_disciplined []
  have hxy : Scene.Step Session.Pooling.number (bothRest []) justShut := .loop rfl
  have hyz : Relation.ReflTransGen (Scene.Step Session.Pooling.number) justShut emptied :=
    Scene.settles _ _ _ 14
  obtain ⟨sx, hsx, hopen⟩ : ∃ s, (bothRest []).loop.pool? Session.Pooling.number = some s ∧
      s.closed = false := ⟨_, rfl, rfl⟩
  obtain ⟨sy, hsy, hshut, hidle, hgiven⟩ : ∃ s, justShut.loop.pool? Session.Pooling.number = some s ∧
      s.closed = true ∧ s.idle = [1, 2] ∧ s.given = [] := ⟨_, rfl, rfl, rfl, rfl⟩
  obtain ⟨sz, hsz⟩ : ∃ s, emptied.loop.pool? Session.Pooling.number = some s := ⟨_, rfl⟩
  have hend : (emptied.loop.tasks[(bothRest []).loop.currentTask]?).map (·.status) =
      some (.finished .unit (.ok ())) := rfl
  obtain ⟨hleft, _⟩ := (drained_unless_close_fails rfl hx hsx hopen hxy hsy hshut hyz hsz).1 hend
  rw [hgiven] at hleft
  exact ⟨rfl, hx, sx, sy, sz, hsx, hopen, hxy, hsy, hshut, hyz, hsz, hidle,
    List.eq_nil_iff_forall_not_mem.mpr fun i hi => List.not_mem_nil (hleft i hi)⟩

def diskFault : Fault := ⟨"OSError", "disk"⟩

def closedTwice : Scene :=
  ⟨(((bothRest [diskFault]).loop.settleWithin 15).after
    (.enter (.closePool Session.Pooling.number))).settleWithin 2, (bothRest [diskFault]).returned⟩

theorem closedTwice_undrained : Disciplined roomy closedTwice ∧
    ∃ s, closedTwice.loop.pool? Session.Pooling.number = some s ∧ s.closed = true ∧
      (closedTwice.loop.tasks[3]?).map (·.status) =
        some (.finished .unit (.error (.raised diskFault))) ∧
      (closedTwice.loop.tasks[4]?).map (·.status) = some (.finished .unit (.ok ())) ∧
      s.idle = [2] ∧ ∀ b, Recorded roomy Freely closedTwice.loop b → b.closed = [.numbered 1] := by
  have h₁ := (bothRest_disciplined [diskFault]).settleWithin 15
  have h₂ := Disciplined.settleWithin (h₁.tail (.event (.enter (.closePool _)) rfl .closePool rfl)) 2
  refine ⟨h₂, _, rfl, rfl, rfl, rfl, rfl, fun b hb => ?_⟩
  obtain ⟨s, hs, _, ha⟩ := hb.kept
  have hd : (closedTwice.loop.pool? Session.Pooling.number).map (·.departed) =
      some [⟨1, .numbered 1⟩] := rfl
  rw [hs.pool, Option.map_some, Option.some.injEq] at hd
  have hp := ha.closed
  rw [hd] at hp
  exact List.perm_singleton.mp hp

end SqliteAccess.Loop
