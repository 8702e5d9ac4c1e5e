import SqliteAccess.Proofs.Pool.Connections
import SqliteAccess.Proofs.Pool.Counters
import SqliteAccess.Proofs.Pool.Line

/-!
No caller in line is left asleep beside a free slot or an idle connection: for each of them a
connection is on the way, unless there can be no more or one that has left is still being closed.
-/

namespace SqliteAccess.Pool.State

variable {s s' : State} {m M T : Nat}

def Provided (M : Nat) (s : State) : Prop := s.waiting = 0 ∨ s.size = M ∨ s.waiting ≤ s.spawned

theorem Provided.of_le (h : s.Provided M) (hw : s'.waiting ≤ s.waiting) (hz : s'.size = s.size)
    (hs : s.spawned = s'.spawned) : s'.Provided M := by
  unfold Provided at *
  omega

theorem Provided.grown (hz : s.settings.Sized m M) (hM : s.size ≤ M) (hc : s.closed = false) :
    (s.expand T (Loop.opens s.growth)).Provided M := by
  unfold Provided
  rw [size_expand, growth_eq hz, hc]
  simp only [Loop.opens, expand, waiting, Bool.false_eq_true, if_false]
  omega

theorem Provided.topped {k : Nat} (hz : s.settings.Sized m M) (h : s.Provided M)
    (hk : s.shortfall = .ok k) : (s.expand T k).Provided M := by
  have ho := hz.ordered
  rw [shortfall_eq hz] at hk
  cases hk
  unfold Provided at *
  rw [size_expand]
  simp only [expand, waiting] at *
  split <;> omega

theorem leaveLine_waiting_le (s : State) (t : Nat) : (s.leaveLine t).waiting ≤ s.waiting :=
  (List.Sublist.filter _ List.eraseP_sublist).length_le

end SqliteAccess.Pool.State

namespace SqliteAccess.Loop

def Weight.destroying : Weight where
  call _ := 0
  rest
    | .destroyed _ _ => 1
    | _ => 0

def Stack.Opens : {s : Shape} → Stack s → Prop
  | _, .push (.opened _) _ => True
  | _, .push (.openedBackground _) _ => True
  | _, _ => False

def Running.Repairs (r : Running) : Prop := r.stack.Opens ∧ ∃ e, r.control = .give (.error e)

def Running.Clean (r : Running) : Prop :=
  ∀ e, r.control = .give (.error e) → 0 < Weight.background.stack r.stack →
    e ≠ .cancelled ∧ (r.stack.Opens → e.isConnection = true)

section Acts

variable {p t T N N' m M : Nat} {s s' : Pool.State} {u : Shape} {w : Work u} {cs : List (Call .unit)}
  {n : Next u} {k : Stack u} {d : Call u}

theorem Stack.Holds.opens (hk : k.Holds p d) (hd : Weight.openSlots.call d = 1) : k.Opens := by
  cases hk with
  | done hd' => cases hd' <;> cases hd
  | push ha _ _ =>
    cases ha with
    | opened | openedBackground => trivial
    | registering | destroyed | evicting | swept | draining => cases hd

theorem Act.provided (h : Act p t T N s w s' N' cs n) (hd : w.Of p d) (hz : s.settings.Sized m M)
    (hM : s.size ≤ M) (hp : Weight.slots.work w ≤ s.pending) (hc : s'.closed = false)
    (hcl : (w.on t k).Clean)
    (h0 : s.Provided M ∨ 0 < Weight.destroying.work w ∨ (w.on t k).Repairs) :
    s'.Provided M ∨ 0 < Weight.destroying.next n ∨
      Weight.openSlots.call d = 1 ∧ ∃ e, n = .give (.error e) := by
  have plain : Weight.destroying.work w = 0 → ¬ (w.on t k).Repairs → s.Provided M := by
    intro hw hr
    rcases h0 with h0 | h0 | h0
    · exact h0
    · omega
    · exact absurd h0 hr
  have idle : ∀ {v : Shape} {f : Frame v u} {o : Outcome v}, w = .back f o →
      ¬ (Stack.push f k).Opens → ¬ (w.on t k).Repairs := by
    rintro v f o rfl hf ⟨ho, _⟩
    exact hf ho
  have begins : ∀ {c : Call u}, w = .call c → ¬ (w.on t k).Repairs := by
    rintro c rfl ⟨_, e, he⟩
    cases he
  have done : ∀ {v : Shape} {f : Frame v u} {o : v.Content}, w = .back f (.ok o) →
      ¬ (w.on t k).Repairs := by
    rintro v f o rfl ⟨_, e, he⟩
    cases he
  cases h
  case openFailed e => exact .inl (.grown hz hM hc)
  case backgroundFailed h₁ =>
    subst h₁
    exact .inl (.grown hz hM hc)
  case backgroundCut e he =>
    have hb : 0 < Weight.background.stack (.push (.openedBackground p) k) :=
      Nat.lt_of_lt_of_le Nat.one_pos (Nat.le_add_right _ _)
    have := (hcl e rfl hb).2 trivial
    simp [he] at this
  case destroyed => exact .inl (.grown hz hM hc)
  case frees e =>
    refine .inr (.inr ⟨?_, _, rfl⟩)
    cases hd with
    | back _ hf => cases hf; rfl
  case removes => exact .inr (.inl Nat.one_pos)
  case takes ht =>
    rw [(Pool.State.takeIdle?_eq ht).2]
    exact .inl ((plain rfl (begins rfl)).of_le (Nat.le_refl _) (Pool.State.size_checkout _ _) rfl)
  case opens hm =>
    refine .inl (.inl ?_)
    simp only [Pool.State.mayOpen, Bool.and_eq_true, decide_eq_true_iff] at hm
    exact hm.1
  case lines hopen _ _ h₁ hl =>
    subst h₁
    have hg : (((s.awake T).enqueue t).expand (T + (starters p s).length)
        (Loop.opens ((s.awake T).enqueue t).growth)).Provided M := .grown hz hM hopen
    left
    cases hl with
    | waits | fails => exact hg
    | givesUp => exact hg.of_le (Pool.State.Lull.giveUp _ t).waiting_le rfl rfl
  case openDone c hs =>
    have hg := Pool.State.Provided.topped (T := T) hz (plain rfl (done rfl)) hs
    exact .inl (hg.of_le (Nat.le_refl _) (Pool.State.size_checkout _ _) rfl)
  case leaves e _ =>
    exact .inl ((plain rfl (idle rfl id)).of_le ((s.takeUp t).leaveLine_waiting_le t) rfl rfl)
  case passesOn i e now _ =>
    have hk := ((s.takeUp t).leaveLine t).checkin_spec i now
    have hw := (s.takeUp t).leaveLine_waiting_le t
    refine .inl ((plain rfl (idle rfl id)).of_le ?_ hk.size hk.counts.2.symm)
    rw [hk.waiting]
    exact (Nat.sub_le _ _).trans hw
  case registers c now =>
    refine .inl ((plain rfl (idle rfl id)).of_le (Nat.le_refl _) ?_ rfl)
    rw [Pool.State.size_register]
    exact (Nat.add_assoc _ _ _).trans (congrArg (s.live.length + ·) (Nat.sub_add_cancel hp))
  case backgroundLate hlate =>
    exact absurd hc (by simpa [Pool.State.endBackground] using hlate)
  case backgroundDone c now _ =>
    have hk := s.endBackground.checkin_spec c.id now
    have hw : _ = s.waiting - 1 := hk.waiting
    have hs : _ = s.size := hk.size
    have hb : _ = s.spawned - 1 := hk.counts.2
    have h1 := plain rfl (done rfl)
    unfold Pool.State.Provided at *
    omega
  case sweptOver hs hn =>
    exact .inl (.topped hz (plain rfl (idle rfl id)) hs)
  case shuts => cases hc
  case shutsAtOnce => cases hc
  case shutFails => cases hc
  case clears => exact .inl (.inl rfl)
  all_goals first
    | exact .inl (plain rfl (begins rfl))
    | exact .inl (plain rfl (done rfl))
    | exact .inl (plain rfl (idle rfl id))

theorem creationFailure_connection {e : Failure} (h : e ≠ .cancelled) :
    (State.creationFailure e).isConnection = true := by
  unfold State.creationFailure
  split
  next hc => simpa [h] using hc
  next => rfl

theorem ne_cancelled {e : Failure} (h : e.isConnection = true) : e ≠ .cancelled := by
  rintro rfl
  cases h

theorem Act.clean (h : Act p t T N s w s' N' cs n) (hd : w.Of p d) (hk : k.Holds p d)
    (hcl : (w.on t k).Clean) {e : Failure} (hn : n = .give (.error e))
    (hb : 0 < Weight.background.stack k) : e ≠ .cancelled ∧ (k.Opens → e.isConnection = true) := by
  have ho : 0 < Weight.opening.call d := Nat.lt_of_lt_of_le hb hk.background_le
  have asked : ∀ {v : Stack .handle}, v.Holds p .askOpen → ¬ v.Opens := by
    intro v hv
    cases hv with
    | done hr => cases hr
    | push ha => cases ha; exact id
  cases hd with
  | call =>
    cases h
    case askEnds o hne =>
      cases hn
      exact ⟨fun he => hne (he ▸ rfl), fun hopens => absurd hopens (asked hk)⟩
    case asks => cases hn
    case askWaits => cases hn
    all_goals exact absurd ho (Nat.lt_irrefl 0)
  | back o hf =>
    cases hf with
    | askedOpen i =>
      cases h with
      | answered =>
        cases o with
        | ok x => cases hn
        | error e' =>
          cases hn
          have hle : Weight.background.stack k ≤
              Weight.background.stack (.push (.askedOpen i) k) := Nat.le_add_left _ _
          exact ⟨(hcl _ rfl (Nat.lt_of_lt_of_le hb hle)).1, fun hopens => absurd hopens (asked hk)⟩
    | registering =>
      cases h with
      | registers => cases hn
      | frees e' =>
        cases hn
        have hle : Weight.background.stack k ≤
            Weight.background.stack (.push (.registering p) k) := Nat.le_add_left _ _
        have hc := creationFailure_connection (hcl e' rfl (Nat.lt_of_lt_of_le hb hle)).1
        exact ⟨ne_cancelled hc, fun _ => hc⟩
    | start hr => cases hr <;> exact absurd ho (Nat.lt_irrefl 0)
    | _ => exact absurd ho (Nat.lt_irrefl 0)

end Acts

structure Steady (l : State) : Prop where
  signal : ∀ (i : Nat) (k : Task) (st : Stack .unit), l.tasks[i]? = some k →
    0 < Weight.background.of l i → k.status ≠ .ready (some .cancelled) st
  clean : ∀ r, l.running = some r → r.Clean

section Moves

variable {p m M : Nat} {v : Option Event} {l l' : State} {s s' : Pool.State}

theorem Changed.cancelled {C : Nat → Prop} {D : Nat → Failure → Prop} {E : Nat → Follower → Prop} {N : Nat}
    {cs : List (Call .unit)} {i : Nat} {y : Task} {st : Stack .unit}
    (hc : Changed p C D E l l' s N cs) (hy : l'.tasks[i]? = some y)
    (hs : y.status = .ready (some .cancelled) st)
    (h : ∀ x : Task, l.tasks[i]? = some x → x.status ≠ .ready (some .cancelled) st) :
    D i .cancelled := by
  obtain ⟨x, hx, ht⟩ := hc.told hy hs
  exact (ht.resolve_left (h x hx)).1

theorem Steady.signal_work {u : Shape} {w : Work u} {d : Call u} {t : Nat} {k : Stack u} {n : Next u}
    {cs : List (Call .unit)} {a : State} (h : Sound p l s) (hs : Steady l)
    (hr : l.running = some (w.on t k)) (hd : w.Of p d)
    (ha : Act p t l.tasks.length l.nextConnection s w s' a.nextConnection cs n)
    (hc : Changed p (fun i => s.reaper = some i) (Tells s s') (Follows w t s s') l a s'
      a.nextConnection cs) (i : Nat) (y : Task) (st : Stack .unit)
    (hy : (a.carryOn t n k).tasks[i]? = some y)
    (hb : 0 < Weight.background.of (a.carryOn t n k) i) : y.status ≠ .ready (some .cancelled) st := by
  have old : ∀ z : Task, a.tasks[i]? = some z → z.status ≠ .ready (some .cancelled) st := by
    intro z hz hst
    have hle : i < l.tasks.length →
        Weight.background.of (a.carryOn t n k) i ≤ Weight.background.of l i :=
      h.rooted_le hr hd (ha.keeps hd) hc (Weight.background_rooted p)
    have hd := hc.cancelled hz hst fun x hx => by
      have := hle (List.getElem?_eq_some_iff.mp hx).1
      exact hs.signal i x st hx (by omega)
    -- The step of a call cancels only the sweep, and that opens nothing.
    obtain ⟨hlt, _, h0, _⟩ := h.reaper i (hd.1 rfl)
    have := hle hlt
    omega
  rw [State.carryOn_tasks] at hy
  rcases modify_cases hy with ⟨_, hy⟩ | ⟨rfl, z, hz, rfl⟩
  · exact old y hy
  · cases n with
    | give | call | jump => exact old z hz
    | pause | again => exact nofun

theorem Steady.signal_aside (h : Sound p l s) (hs : Steady l) (hopen : s.closed = false)
    (ha : Aside p (s.closed = true) False v l l' s s') (i : Nat) (y : Task) (st : Stack .unit)
    (hy : l'.tasks[i]? = some y) (hb : 0 < Weight.background.of l' i) :
    y.status ≠ .ready (some .cancelled) st := by
  intro hst
  have old : ∀ x : Task, l.tasks[i]? = some x → x.status ≠ .ready (some .cancelled) st := by
    intro x hx
    rw [ha.weight_of h (List.getElem?_eq_some_iff.mp hx).1] at hb
    exact hs.signal i x st hx hb
  have closed : ¬ s.closed = true := by simp [hopen]
  cases ha with
  | ends o _ hc =>
    have hd := hc.cancelled hy hst fun x hx => by
      rcases modify_cases hx with ⟨_, hx⟩ | ⟨_, x, _, rfl⟩
      · exact old x hx
      · simp
    exact closed (hd.1 rfl)
  | goesOn _ _ _ _ ht =>
    rw [ht] at hy
    rcases modify_cases hy with ⟨_, hy⟩ | ⟨_, x, _, rfl⟩
    · exact old y hy hst
    · cases hst
  | lull _ _ hc _ hD =>
    rcases hD i (hc.cancelled hy hst old) with h0 | hcl | hf
    · have hi := (List.getElem?_eq_some_iff.mp hy).1
      rw [hc.length, List.length_nil, Nat.add_zero] at hi
      rw [hc.weight_of hi, h0] at hb
      exact Nat.lt_irrefl 0 hb
    · exact closed hcl
    · exact hf
  | enters _ _ _ ht hr =>
    rw [ht] at hy
    rcases append_cases hy with hy | ⟨_, rfl⟩
    · exact old y hy hst
    · cases hr.symm.trans hst
  | spawns _ _ _ ht hm =>
    rw [ht] at hy
    rcases append_cases hy with hy | ⟨_, rfl⟩
    · exact old y hy hst
    · cases hm.status.symm.trans hst
  | releases _ _ _ _ hc => exact hc.cancelled hy hst old
  | discards _ _ _ hc => exact hc.cancelled hy hst old

theorem Steady.clean_move (h : Sound p l s) (hl : Calm l) (hs : Steady l)
    (hm : Move p (s.closed = true) False v l l' s s') (r : Running) (hr : l'.running = some r) :
    r.Clean := by
  intro e he hb
  cases hm with
  | @work u w d t k n cs m hr' hd hk ha hc heq =>
    subst heq
    cases n with
    | give o =>
      cases hr
      exact ha.clean hd hk (hs.clean _ hr') (congrArg _ (Control.give.inj he)) hb
    | call | jump =>
      cases hr
      cases he
    | pause | again => cases hr
  | aside _ _ ha =>
    cases ha with
    | ends _ _ hc => cases hc.running.symm.trans hr
    | @goesOn t signal st x hn hk hst hr' ht =>
      cases hr'.symm.trans hr
      have hof : Weight.background.of l t = Weight.background.stack st := by
        simp [Weight.of, hk, hst, hn, Weight.status]
      have hpos : 0 < Weight.background.of l t := hof ▸ hb
      have hsig : signal = some e := by
        have ha : x.answer signal = .error e := Control.give.inj he
        rw [Task.answer, hl.flag t x hk hpos] at ha
        cases signal with
        | none => cases ha
        | some e' =>
          cases ha
          rfl
      refine ⟨?_, fun ho => ?_⟩
      · rintro rfl
        exact hs.signal t x st hk hpos (hsig ▸ hst)
      · have hf := h.tasks t x hk
        rw [hst] at hf
        cases hf with
        | made => exact ho.elim
        | ready _ hp => cases hp <;> exact ho.elim
    | lull hn _ hc => cases hn.symm.trans (hc.running.symm.trans hr)
    | enters _ _ hr' =>
      cases hr'.symm.trans hr
      cases he
    | spawns _ _ hr' => cases hr'.symm.trans hr
    | releases _ hn _ _ hc => cases hn.symm.trans (hc.running.symm.trans hr)
    | discards hn _ _ hc => cases hn.symm.trans (hc.running.symm.trans hr)

theorem Steady.move (h : Sound p l s) (hl : Calm l) (hs : Steady l) (hopen : s.closed = false)
    (hm : Move p (s.closed = true) False v l l' s s') : Steady l' := by
  refine ⟨?_, hs.clean_move h hl hm⟩
  cases hm with
  | work hr hd _ ha hc heq =>
    subst heq
    exact hs.signal_work h hr hd ha hc
  | aside _ _ ha => exact hs.signal_aside h hopen ha

theorem Steady.ofPool (settings : Config.PoolSettings) : Steady (.ofPool settings) := by
  have ht : (State.ofPool settings).tasks = [] := rfl
  have hr : (State.ofPool settings).running = none := rfl
  exact ⟨by simp [ht], by simp [hr]⟩

def Attended (M : Nat) (l : State) (s : Pool.State) : Prop :=
  s.Provided M ∨ 0 < Weight.destroying.total l ∨ ∃ r, l.running = some r ∧ r.Repairs

theorem Aside.waiting_le {X Y : Prop} (ha : Aside p X Y v l l' s s') : s'.waiting ≤ s.waiting := by
  cases ha with
  | ends | goesOn | enters | spawns | discards => exact Nat.le_refl _
  | lull _ hl => exact hl.waiting_le
  | @releases id now =>
    rw [(s.checkin_spec id now).waiting]
    exact Nat.sub_le _ _

theorem Aside.attended {X Y : Prop} (h : Sound p l s) (ha : Aside p X Y v l l' s s')
    (hat : Attended M l s) : Attended M l' s' := by
  rcases hat with hp | hd | ⟨r, hr, ho, _⟩
  · obtain ⟨_, hs, hz⟩ := ha.counts
    exact .inl (hp.of_le ha.waiting_le hz hs.symm)
  · refine .inr (.inl ?_)
    rwa [ha.total h fun _ => rfl]
  · cases ha with
    | ends _ hr' =>
      cases hr.symm.trans hr'
      exact ho.elim
    | goesOn hn | lull hn | enters _ hn | spawns _ hn | releases _ hn | discards hn =>
      cases hr.symm.trans hn

theorem Attended.work {u : Shape} {w : Work u} {d : Call u} {t : Nat} {k : Stack u} {n : Next u}
    {cs : List (Call .unit)} {l₁ : State} (h : Sound p l s) (hc : Counted m M l s) (hs : Steady l)
    (hat : Attended M l s) (hr : l.running = some (w.on t k)) (hd : w.Of p d) (hk : k.Holds p d)
    (ha : Act p t l.tasks.length l.nextConnection s w s' l₁.nextConnection cs n)
    (hch : Changed p (fun i => s.reaper = some i) (Tells s s') (Follows w t s s') l l₁ s'
      l₁.nextConnection cs) (hopen : s'.closed = false) : Attended M (l₁.carryOn t n k) s' := by
  have htotal := h.work_total (W := .destroying) (n := n) hr hch
  have hle := Weight.work_le_total (W := .destroying) h hr
  have hp := Weight.work_le_total (W := .slots) h hr
  rw [← hc.pending] at hp
  have acts := ha.provided hd hc.sized hc.size hp hopen (hs.clean _ hr)
  have after : s.Provided M ∨ 0 < Weight.destroying.work w ∨ (w.on t k).Repairs →
      Attended M (l₁.carryOn t n k) s' := by
    intro h0
    rcases acts h0 with hp | hn | ⟨ho, e, rfl⟩
    · exact .inl hp
    · exact .inr (.inl (by omega))
    · exact .inr (.inr ⟨_, rfl, hk.opens ho, e, rfl⟩)
  rcases hat with hp | hpos | ⟨r, hr', hrep⟩
  · exact after (.inl hp)
  · by_cases hw : Weight.destroying.work w = 0
    · exact .inr (.inl (by omega))
    · exact after (.inr (.inl (Nat.pos_of_ne_zero hw)))
  · cases hr.symm.trans hr'
    exact after (.inr (.inr hrep))

structure Watched (m M : Nat) (l : State) (s : Pool.State) : Prop where
  counted : Counted m M l s
  calm : Calm l
  steady : Steady l
  attended : Attended M l s

theorem Watched.move (h : Sound p l s) (hw : Watched m M l s) (hopen : s'.closed = false)
    (hm : Move p (s.closed = true) False v l l' s s') : Watched m M l' s' := by
  have hopen₀ : s.closed = false := hm.was_open hopen
  refine ⟨hw.counted.move h hw.calm hm, hw.calm.move h (by simp [hopen₀]) hm,
    hw.steady.move h hw.calm hopen₀ hm, ?_⟩
  cases hm with
  | work hr hd hk ha hc heq =>
    subst heq
    exact hw.attended.work h hw.counted hw.steady hr hd hk ha hc hopen
  | aside _ _ ha => exact ha.attended h hw.attended

theorem Watched.ofPool {settings : Config.PoolSettings} (hz : settings.Sized m M) :
    Watched m M (.ofPool settings) (Pool.fresh settings) :=
  ⟨.ofPool hz, .ofPool settings, .ofPool settings, .inl (.inl rfl)⟩

end Moves

/-- No open in the background is cancelled from outside, and none of the driver's ends so. -/
def SparesOpens (l : State) : Event → Prop
  | .cancel t => Weight.background.of l t = 0
  | .answerOpen _ signal => signal ≠ some .cancelled
  | _ => True

theorem SparesOpens.spares {p : Nat} {l : State} {s : Pool.State} (hs : Sound p l s) {e : Event}
    (h : SparesOpens l e) : e.Spares (s.closed = true) False l := by
  cases e with
  | cancel t =>
    cases hc : s.closed with
    | true => exact .inl rfl
    | false => exact .inr ⟨h, hs.shutting hc t⟩
  | answerOpen t signal => exact fun hc => absurd hc h
  | enter | spawn | release | answerClose | driver | tick => trivial

/-- The task waits for the driver to close the connection that it has taken out of the pool. -/
inductive Status.Closes (p id : Nat) : Status → Prop
  | waits (w : Wait) (fault : Option Fault) (k : Stack .unit) :
      Status.Closes p id (.paused w (.push (.askedClose fault) (.push (.destroyed p id) k)))
  | ready (signal : Option Failure) (fault : Option Fault) (k : Stack .unit) :
      Status.Closes p id (.ready signal (.push (.askedClose fault) (.push (.destroyed p id) k)))

section Closing

variable {p : Nat} {l : State} {s : Pool.State}

def Weight.askingClose : Weight where
  call
    | .askClose _ => 1
    | _ => 0
  rest _ := 0

theorem Stack.Holds.destroying_le {u : Shape} {k : Stack u} {c : Call u} (h : k.Holds p c) :
    Weight.destroying.stack k ≤ Weight.askingClose.call c := by
  induction h with
  | done _ => exact Nat.zero_le _
  | push ha hf hk ih =>
    refine (Nat.add_le_add_left ih _).trans ?_
    cases ha with
    | destroyed => cases hf; exact Nat.le_refl _
    | opened | registering | openedBackground | evicting | swept | draining =>
      cases hf; exact Nat.zero_le _

theorem Stack.Fits.closes {u : Shape} {f : Frame .unit u} {k : Stack u} {w : Wait}
    (h : (Stack.push f k).Fits p) (hp : f.Pauses w) (hd : 0 < Weight.destroying.stack (.push f k)) :
    ∃ fault id k', Stack.push f k = .push (.askedClose fault) (.push (.destroyed p id) k') := by
  cases h with
  | push hf hk =>
    have hle := hk.destroying_le
    cases hp with
    | closing fault c =>
      cases hf
      cases hk with
      | done hr => cases hr
      | push ha _ _ =>
        cases ha with
        | destroyed id => exact ⟨fault, id, _, rfl⟩
    | turn | givenUp | opening | sleep | task | tasks =>
      cases hf
      have h0 : Weight.destroying.stack k = 0 := Nat.le_zero.mp hle
      rw [Weight.stack, h0] at hd
      exact absurd hd (Nat.lt_irrefl 0)

theorem Status.Fits.closes {x : Status} (h : x.Fits p) (hd : 0 < Weight.destroying.status x) :
    ∃ id, x.Closes p id := by
  cases h with
  | made => exact absurd hd (Nat.lt_irrefl 0)
  | ready signal hp hk =>
    obtain ⟨fault, id, k, he⟩ := hk.closes hp hd
    exact ⟨id, he ▸ .ready signal fault k⟩
  | paused hp hk =>
    obtain ⟨fault, id, k, he⟩ := hk.closes hp hd
    exact ⟨id, he ▸ .waits _ fault k⟩
  | running | finished => exact absurd hd (Nat.lt_irrefl 0)

theorem Status.Closes.premature {x : Status} {id N : Nat} (h : x.Closes p id)
    (hw : (Weight.premature s N).status x = 0) : s.find? id = none := by
  have hid : (Weight.premature s N).rest (Frame.destroyed p id) = 0 := by
    cases h with
    | waits w fault k =>
      have hs : _ + (_ + _) = 0 := hw
      exact (Nat.add_eq_zero_iff.mp (Nat.add_eq_zero_iff.mp hs).2).1
    | ready signal fault k =>
      have hs : _ + (_ + _) = 0 := hw
      exact (Nat.add_eq_zero_iff.mp (Nat.add_eq_zero_iff.mp hs).2).1
  simp only [Weight.premature] at hid
  split at hid
  next hg => exact Option.isNone_iff_eq_none.mp hg.2
  next => cases hid

theorem Sound.closes (h : Sound p l s) (hl : Listed l s) (hr : l.running = none)
    (hd : 0 < Weight.destroying.total l) :
    ∃ (t id : Nat) (k : Task), l.tasks[t]? = some k ∧ k.status.Closes p id ∧ s.find? id = none := by
  obtain ⟨t, ht, hpos⟩ := Finset.exists_ne_zero_of_sum_ne_zero (Nat.ne_of_gt hd)
  obtain ⟨k, hk⟩ : ∃ k, l.tasks[t]? = some k := ⟨_, List.getElem?_eq_getElem (Finset.mem_range.mp ht)⟩
  have status : ∀ W : Weight, W.of l t = W.status k.status := by
    intro W
    simp [Weight.of, hr, hk]
  rw [status] at hpos
  obtain ⟨id, hc⟩ := (h.tasks t _ hk).closes (Nat.pos_of_ne_zero hpos)
  have h0 := Finset.sum_eq_zero_iff.mp hl.removed t ht
  rw [status] at h0
  exact ⟨t, id, _, hk, hc, hc.premature h0⟩

end Closing

theorem Lined.idle {p : Nat} {l : State} {s : Pool.State} (hl : Lined p l s) (hw : 0 < s.waiting) :
    s.idle = [] := by
  apply hl.settled.resolve_right
  intro hn
  obtain ⟨w, hw⟩ := List.exists_mem_of_length_pos hw
  rw [List.mem_filter] at hw
  exact hn w.task ⟨w, hw.1, rfl, hw.2⟩

/-- While callers are pending in line of an open pool nothing is idle, and either the pool is full, or
a background open is under way for each of them, or a connection that has left the pool is still
being closed. -/
theorem callers_attended {settings : Config.PoolSettings} {m M : Nat} {l : State}
    (hz : settings.Sized m M) (h : Reachable settings SparesOpens l) (hr : l.running = none) :
    ∃ s, l.pool? Session.Pooling.number = some s ∧
      (s.closed = false → 0 < s.waiting → s.idle = [] ∧
        (s.size = M ∨ s.waiting ≤ s.spawned ∧ s.spawned = Weight.background.total l ∨
          ∃ (t id : Nat) (k : Task), l.tasks[t]? = some k ∧
            k.status.Closes Session.Pooling.number id ∧ s.find? id = none)) := by
  have h0 : Lined Session.Pooling.number (.ofPool settings) (Pool.fresh settings) ∧
      Listed (.ofPool settings) (Pool.fresh settings) ∧
      ((Pool.fresh settings).closed = false → Watched m M (.ofPool settings) (Pool.fresh settings)) :=
    ⟨.ofPool settings, .ofPool settings, fun _ => .ofPool hz⟩
  obtain ⟨s, hs, hline, hlist, hwatch⟩ := Reachable.induction
    (I := fun l s => Lined Session.Pooling.number l s ∧ Listed l s ∧
      (s.closed = false → Watched m M l s)) h0 (by
    rintro l l' s hs ⟨hline, hlist, hwatch⟩ hst
    obtain ⟨v, s', hm⟩ := hst.move (X := s.closed = true) (Y := False) hs .inl
      fun e he => he.spares hs
    exact ⟨s', hm.sound hs, hline.move hs hm, hlist.move hs hm,
      fun hopen => (hwatch (hm.was_open hopen)).move hs hopen hm⟩) h
  refine ⟨s, hs.pool, fun hopen hw => ⟨hline.idle hw, ?_⟩⟩
  obtain ⟨hc, _, _, hat⟩ := hwatch hopen
  rcases hat with (h0 | hfull | hle) | hd | ⟨r, hr', _⟩
  · omega
  · exact .inl hfull
  · exact .inr (.inl ⟨hle, hc.spawned⟩)
  · exact .inr (.inr (hs.closes hlist hr hd))
  · cases hr.symm.trans hr'

theorem callers_attended_secondWaits : tight.Sized 0 1 ∧ Reachable tight SparesOpens secondWaits ∧
    secondWaits.running = none ∧ ∃ s, secondWaits.pool? Session.Pooling.number = some s ∧
      s.closed = false ∧ 0 < s.waiting ∧ s.idle = [] ∧
      (s.size = 1 ∨ s.waiting ≤ s.spawned ∧ s.spawned = Weight.background.total secondWaits ∨
        ∃ (t id : Nat) (k : Task), secondWaits.tasks[t]? = some k ∧
          k.status.Closes Session.Pooling.number id ∧ s.find? id = none) := by
  have h : Reachable tight SparesOpens secondWaits :=
    secondWaits_reachable (fun _ _ => trivial) fun _ => trivial
  have hw : (secondWaits.pool? Session.Pooling.number).map (fun s => (s.closed, s.waiting)) =
      some (false, 1) := rfl
  obtain ⟨s, hs, hat⟩ := callers_attended tight_sized h rfl
  rw [hs, Option.map_some, Option.some.injEq, Prod.mk.injEq] at hw
  have hpos : 0 < s.waiting := by omega
  obtain ⟨hidle, hserved⟩ := hat hw.1 hpos
  exact ⟨tight_sized, h, rfl, s, hs, hw.1, hpos, hidle, hserved⟩

end SqliteAccess.Loop
