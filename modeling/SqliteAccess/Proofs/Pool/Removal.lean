import SqliteAccess.Proofs.Pool.Rounds

/-!
Connections that anyone destroys at any time. One that leaves the pool from where it rests, or from
where a caller has it, is out of reach from then on. But a destroy does not see one that has been
handed to a caller in line: that caller still gets it, or lets it rest again.
-/

namespace SqliteAccess.Pool.State

variable {s s' : State} {held held' : List Nat} {id i : Nat} {now : Float}

theorem Checkin.perm (h : s.Checkin id now s') (held : List Nat) :
    (s'.places held []).Perm (s.places held [id]) := by
  refine List.perm_iff_count.mpr fun a => ?_
  rcases h.places with ⟨hi, hg, _⟩ | ⟨hi, hg, _⟩
  all_goals
    simp only [State.places, hi, hg, List.count_append, List.count_nil]
    omega

theorem places_perm (h : held.Perm (id :: held')) : (s.places held []).Perm (s.places held' [id]) := by
  refine List.perm_iff_count.mpr fun a => ?_
  have hcount := h.count_eq a
  simp only [State.places, List.count_append, List.count_cons, List.count_nil] at hcount ⊢
  omega

theorem find?_ne_none : s.find? i ≠ none ↔ ∃ h, (⟨i, h⟩, true) ∈ s.roll := by
  constructor
  · intro hf
    obtain ⟨c, hc⟩ := Option.ne_none_iff_exists'.mp hf
    have hlive := List.find?_some hc
    simp only [Bool.and_eq_true, decide_eq_true_iff] at hlive
    refine ⟨c.handle, List.mem_map.mpr ⟨c, find?_mem hc, ?_⟩⟩
    rw [Connection.lease, hlive.1, hlive.2]
  · rintro ⟨h, hm⟩ hf
    obtain ⟨c, hc, he⟩ := List.mem_map.mp hm
    have hno := List.find?_eq_none.mp hf c hc
    simp only [Connection.lease, Prod.mk.injEq, Lease.mk.injEq] at he
    simp [he.1.1, he.2] at hno

end SqliteAccess.Pool.State

namespace SqliteAccess.Loop

section Acts

variable {p t T N N' : Nat} {s s' : Pool.State} {u : Shape} {w : Work u} {cs : List (Call .unit)}
  {n : Next u} {d : Call u}

theorem Act.places (h : Act p t T N s w s' N' cs n) (held : List Nat) (i : Nat) :
    (s'.places held n.brings).count i ≤
      (s.places held w.brings).count i + if i = N then N' - N else 0 := by
  have still : s'.idle = s.idle → s'.given = s.given → n.brings = [] →
      (s'.places held n.brings).count i ≤
        (s.places held w.brings).count i + if i = N then N' - N else 0 := by
    intro hi hg hb
    simp only [Pool.State.places, hi, hg, hb, List.count_append, List.count_nil]
    omega
  have moved : (s'.places held n.brings).Perm (s.places held w.brings) →
      (s'.places held n.brings).count i ≤
        (s.places held w.brings).count i + if i = N then N' - N else 0 := fun hp =>
    (hp.count_eq i).le.trans (Nat.le_add_right _ _)
  cases h
  case takes j _ ht =>
    obtain ⟨hi, hs⟩ := Pool.State.takeIdle?_eq ht
    have hi : s.idle = s'.idle ++ [j] := hi
    have hg : s'.given = s.given := by rw [hs]; rfl
    have hb : (Work.call (.acquire p)).brings = [] := rfl
    rw [Next.brings_lease, Pool.State.leaseOf_id, hb]
    simp only [Pool.State.places, hi, hg, List.count_append, List.count_nil]
    omega
  case lines h₁ hl =>
    subst h₁
    cases hl <;> exact still rfl rfl rfl
  case openFailed e =>
    refine still rfl rfl ?_
    unfold orFailure
    split <;> rfl
  case openDone => exact moved (.refl _)
  case served ht =>
    refine moved (List.perm_iff_count.mpr fun a => ?_)
    have hcount := (Pool.State.given_takeUp ht).count_eq a
    have hidle : (s.takeUp t).idle = s.idle := rfl
    have hb : (Work.back (.inLine p) (.ok ()) : Work .lease).brings = [] := rfl
    rw [Next.brings_lease, Pool.State.leaseOf_id, hb]
    simp only [Pool.State.places, hidle, List.count_append, List.count_cons, List.count_nil] at hcount ⊢
    omega
  case misled ht =>
    rw [Pool.State.takeUp_of_none ht] at still ⊢
    exact still rfl rfl rfl
  case leaves ht =>
    rw [Pool.State.takeUp_of_none ht] at still ⊢
    exact still rfl rfl rfl
  case passesOn j e now ht =>
    have hcheck := (Pool.State.checkin_spec ((s.takeUp t).leaveLine t) j now).perm held
    refine moved (hcheck.trans (List.perm_iff_count.mpr fun a => ?_))
    have hcount := (Pool.State.given_takeUp ht).count_eq a
    have hidle : ((s.takeUp t).leaveLine t).idle = s.idle := rfl
    have hgiven : ((s.takeUp t).leaveLine t).given = (s.takeUp t).given := rfl
    have hb : (Work.back (.inLine p) (.error e) : Work .lease).brings = [] := rfl
    rw [hb]
    simp only [Pool.State.places, hidle, hgiven, List.count_append, List.count_cons,
      List.count_nil] at hcount ⊢
    omega
  case registers c now =>
    have hidle : (s.freeSlot.register N c now).idle = s.idle := rfl
    have hgiven : (s.freeSlot.register N c now).given = s.given := rfl
    have hb : (Work.back (.registering p) (.ok c)).brings = [] := rfl
    rw [Next.brings_lease, hb]
    simp only [Pool.State.places, hidle, hgiven, List.count_append, List.count_cons, List.count_nil,
      beq_iff_eq, Nat.add_sub_cancel_left, eq_comm (a := i)]
    omega
  case backgroundFailed h₁ =>
    subst h₁
    exact still rfl rfl (Next.brings_of_ne (by decide) _)
  case backgroundDone c now _ =>
    exact moved ((Pool.State.checkin_spec s.endBackground c.id now).perm held)
  case removes j _ hr =>
    rw [(Pool.State.remove?_eq hr).2]
    have hsub : ((s.without j).places held []).Sublist (s.places held []) :=
      List.erase_sublist.append_right _
    exact (hsub.count_le i).trans (Nat.le_add_right _ _)
  case neverStarted e _ => exact still rfl rfl (brought_error e)
  all_goals first
    | exact still rfl rfl rfl
    | exact still rfl rfl (Next.brings_of_ne (by decide) _)

theorem Next.closes_brings (h : n.closes ≠ []) : n.brings = [] := by
  cases n with
  | give => exact absurd rfl h
  | call | jump | pause | again => rfl

end Acts

section Moves

variable {p t i : Nat} {X Y : Prop} {v : Option Event} {l l' : State} {s s' : Pool.State} {r : List Nat}

structure Removed (i : Nat) (l : State) (s : Pool.State) : Prop where
  listed : Listed l s
  gone : s.Gone l.nextConnection i
  nowhere : i ∉ s.places [] l.brings

theorem Aside.nowhere (ha : Aside p X Y v l l' s s') (hf : s.find? i = none)
    (hi : i ∉ s.places [] l.brings) : i ∉ s'.places [] l'.brings := by
  have still : s'.idle = s.idle → s'.given = s.given → i ∉ s'.places [] l'.brings := by
    intro hidle hgiven hm
    rw [ha.brings, Pool.State.places, hidle, hgiven] at hm
    refine hi (List.Sublist.mem hm ?_)
    exact (List.Sublist.refl _).append ((List.Sublist.refl _).append (List.nil_sublist _))
  cases ha with
  | ends | goesOn | enters | spawns | discards => exact still rfl rfl
  | lull _ hl =>
    rw [hl.same] at still ⊢
    exact still rfl rfl
  | @releases j now hr hq _ hc =>
    rw [State.brings_of_none (hc.running.trans hr), ((s.checkin_spec j now).perm []).mem_iff]
    rw [State.brings_of_none hr] at hi
    have hne : i ≠ j := by
      rintro rfl
      simp [Pool.State.checkRelease, hf] at hq
    simpa [Pool.State.places, hne] using hi

theorem Removed.move (h : Sound p l s) (hx : Removed i l s) (hm : Move p X Y v l l' s s') :
    Removed i l' s' := by
  refine ⟨hx.listed.move h hm, hm.stays_gone hx.listed hx.gone, ?_⟩
  cases hm with
  | @work u w d t k n cs m hr hd hk ha hch heq =>
    have h0 := hx.nowhere
    rw [State.brings_on hr, ← List.count_eq_zero] at h0
    have hle := ha.places [] i
    rw [if_neg (Nat.ne_of_lt hx.gone.1), h0] at hle
    rw [heq, State.carryOn_brings, ← List.count_eq_zero]
    exact Nat.le_zero.mp hle
  | aside _ _ ha => exact ha.nowhere hx.gone.2 hx.nowhere

theorem Removed.run {allowed : State → Event → Prop} (h : Sound p l s) (hx : Removed i l s)
    (hl : Steps p allowed l l') : ∃ s', Sound p l' s' ∧ Removed i l' s' ∧
      ∀ t, l'.got? t = some i → l.got? t = some i := by
  refine Steps.induction (I := fun m s => Removed i m s ∧ ∀ t, m.got? t = some i → l.got? t = some i)
    h ⟨hx, fun _ => id⟩ (fun {m m' s} hm ⟨hx, hgot⟩ hst => ?_) hl
  obtain ⟨v, s', hmove⟩ := hst.freely hm
  refine ⟨s', hmove.sound hm, hx.move hm hmove, fun t ht => hgot t ?_⟩
  refine (hmove.got hm ht).resolve_right fun hb => hx.nowhere ?_
  exact List.mem_append_right _ (List.mem_append_right _ hb)

end Moves

/-- One step of a pool whose users give back only what they have got, and once, but destroy whatever
they like. -/
inductive Scene.Rough (p : Nat) (x : Scene) : Scene → Prop
  | loop {l' : State} : x.loop.step? = some l' → Scene.Rough p x ⟨l', x.returned⟩
  | event (e : Event) : x.loop.running = none → e.Offered p → (∀ i, e ≠ .release p i) →
      Scene.Rough p x ⟨x.loop.after e, x.returned⟩
  | release {t i : Nat} : x.loop.running = none → x.loop.holds? x.returned t = some i →
      Scene.Rough p x ⟨x.loop.after (.release p i), t :: x.returned⟩

def Roughly (settings : Config.PoolSettings) (x : Scene) : Prop :=
  Relation.ReflTransGen (Scene.Rough Session.Pooling.number) ⟨.ofPool settings, []⟩ x

structure Spread (r : List Nat) (l : State) (s : Pool.State) : Prop where
  once : (s.places (l.held r) l.brings).Nodup
  known : ∀ i ∈ s.places (l.held r) l.brings, i < l.nextConnection
  returned : ∀ t ∈ r, (l.got? t).isSome

section Rough

variable {p t i : Nat} {X Y : Prop} {v : Option Event} {l l' : State} {s s' : Pool.State}
  {r r' : List Nat}

theorem Spread.of_le (hx : Spread r l s) (hN : l'.nextConnection = l.nextConnection)
    (hle : ∀ i, (s'.places (l'.held r') l'.brings).count i ≤ (s.places (l.held r) l.brings).count i)
    (hret : ∀ t ∈ r', (l'.got? t).isSome) : Spread r' l' s' := by
  refine ⟨List.nodup_iff_count_le_one.mpr fun i => ?_, fun i hi => ?_, hret⟩
  · exact (hle i).trans (List.nodup_iff_count_le_one.mp hx.once i)
  · rw [hN]
    exact hx.known i (List.count_pos_iff.mp ((List.count_pos_iff.mpr hi).trans_le (hle i)))

theorem Spread.work {u : Shape} {w : Work u} {k : Stack u} {n : Next u} {cs : List (Call .unit)}
    {m : State} (h : Sound p l s) (hx : Spread r l s) (hr : l.running = some (w.on t k))
    (ha : Act p t l.tasks.length l.nextConnection s w s' m.nextConnection cs n)
    (hch : Changed p (fun i => s.reaper = some i) (Tells s s') (Follows w t s s') l m s'
      m.nextConnection cs) : Spread r (m.carryOn t n k) s' := by
  have hrun : l.got? t = none := Work.on_task w t k ▸ h.got?_running hr
  have hgot : ∀ i, (m.carryOn t n k).got? i = l.got? i := fun i =>
    (State.carryOn_got? n ((hch.got? t).trans hrun) i).trans (hch.got? i)
  have hlen : l.tasks.length ≤ (m.carryOn t n k).tasks.length := by
    rw [State.carryOn_length, hch.length]
    exact Nat.le_add_right _ _
  have hnext : (m.carryOn t n k).nextConnection = m.nextConnection := by cases n <;> rfl
  have hnew : l.nextConnection ≤ m.nextConnection ∧ m.nextConnection ≤ l.nextConnection + 1 := by
    rcases ha.ids with ⟨_, hN⟩ | ⟨_, hN⟩ <;> omega
  have honce := List.nodup_iff_count_le_one.mp hx.once
  have hknown : ∀ i, 0 < (s.places (l.held r) l.brings).count i → i < l.nextConnection :=
    fun i hi => hx.known i (List.count_pos_iff.mp hi)
  have hplaces := ha.places (l.held r)
  rw [State.brings_on hr] at honce hknown
  refine ⟨List.nodup_iff_count_le_one.mpr fun i => ?_, fun i hi => ?_, fun j hj => ?_⟩
  -- A new connection has been in no place before.
  · rw [State.held_congr hlen hgot, State.carryOn_brings]
    have hle := hplaces i
    have hi := hknown i
    have h1 := honce i
    split at hle <;> omega
  · rw [State.held_congr hlen hgot, State.carryOn_brings, ← List.count_pos_iff] at hi
    have hle := hplaces i
    have hi' := hknown i
    rw [hnext]
    split at hle <;> omega
  · rw [hgot]
    exact hx.returned j hj

theorem Spread.aside (h : Sound p l s) (hx : Spread r l s) (hN : l'.nextConnection = l.nextConnection)
    (ha : Aside p X Y v l l' s s') (hv : ∀ i, v ≠ some (.release p i)) : Spread r l' s' := by
  have calm : l.running = none → s'.idle = s.idle → s'.given = s.given → Spread r l' s' := by
    intro hr hi hg
    refine hx.of_le hN (fun i => ?_) fun j hj => ?_
    · rw [State.held_congr ha.length_le (ha.got? hr), ha.brings, Pool.State.places, hi, hg,
        State.brings_of_none hr]
      exact Nat.le_refl _
    · rw [ha.got? hr]
      exact hx.returned j hj
  cases ha with
  | @ends t u o hr hc =>
    have hheld := State.held_ends h hx.returned hr hc
    refine hx.of_le hN (fun i => ?_) fun j hj => ?_
    · have hcount := hheld.count_eq i
      simp only [Pool.State.places, State.brings_of_none hc.running, List.count_append,
        List.count_nil] at hcount ⊢
      omega
    · rw [hc.got?, State.lay_got?_of_ne (State.returned_ne h hx.returned hr j hj)]
      exact hx.returned j hj
  | goesOn hr | enters _ hr | spawns _ hr => exact calm hr rfl rfl
  | lull hr hl =>
    rw [hl.same] at calm ⊢
    exact calm hr rfl rfl
  | releases _ _ _ _ _ he | discards _ _ _ _ he => exact absurd he (hv _)

theorem Spread.move (h : Sound p l s) (hx : Spread r l s) (hm : Move p X Y v l l' s s')
    (hv : ∀ i, v ≠ some (.release p i)) : Spread r l' s' := by
  cases hm with
  | work hr _ _ ha hch heq => exact heq ▸ hx.work h hr ha hch
  | aside _ hN ha => exact hx.aside h hN ha hv

theorem Spread.releases (hx : Spread r l s) (hh : l.holds? r t = some i)
    (hr : l.running = none) (hm : Move p X Y (some (.release p i)) l l' s s') :
    Spread (t :: r) l' s' := by
  cases hm with
  | work hr' => cases hr.symm.trans hr'
  | aside _ hN ha =>
    have hheld : (l'.held (t :: r)) = l.held (t :: r) := State.held_congr ha.length_le (ha.got? hr)
    have hgives := Pool.State.places_perm (s := s) (State.held_cons hh)
    have hret : ∀ j ∈ t :: r, (l'.got? j).isSome := by
      intro j hj
      rw [ha.got? hr]
      rcases List.mem_cons.mp hj with rfl | hj
      · simp [(State.holds?_eq.mp hh).2]
      · exact hx.returned j hj
    have lets : s'.idle = s.idle → s'.given = s.given → Spread (t :: r) l' s' := by
      intro hi hg
      refine hx.of_le hN (fun j => ?_) hret
      have hcount := hgives.count_eq j
      rw [hheld, ha.brings, State.brings_of_none hr, hcount]
      simp only [Pool.State.places, hi, hg, List.count_append, List.count_nil]
      omega
    cases ha with
    | ends _ _ _ hv | goesOn _ _ _ _ _ hv | enters _ _ _ _ _ _ _ hv | spawns _ _ _ _ _ hv => cases hv
    | lull _ hl =>
      rw [hl.same] at lets ⊢
      exact lets rfl rfl
    | discards _ _ _ _ hv =>
      cases hv
      exact lets rfl rfl
    | releases now _ _ _ hc hv =>
      cases hv
      have hcheck := (s.checkin_spec i now).perm (l.held (t :: r))
      refine hx.of_le hN (fun j => ?_) hret
      rw [hheld, State.brings_of_none (hc.running.trans hr), State.brings_of_none hr]
      exact ((hcheck.trans hgives.symm).count_eq j).le

theorem Spread.ofPool (settings : Config.PoolSettings) :
    Spread [] (.ofPool settings) (Pool.fresh settings) :=
  ⟨.nil, nofun, nofun⟩

theorem Roughly.spread {settings : Config.PoolSettings} {x : Scene} (h : Roughly settings x) :
    ∃ s, Sound Session.Pooling.number x.loop s ∧ Spread x.returned x.loop s := by
  induction h with
  | refl => exact ⟨_, .ofPool settings, .ofPool settings⟩
  | @tail x y _ hst ih =>
    obtain ⟨s, h, hx⟩ := ih
    cases hst with
    | loop hl =>
      obtain ⟨s', hm⟩ := State.step_move (X := True) (Y := True) h hl
      exact ⟨s', hm.sound h, hx.move h hm fun _ he => by cases he⟩
    | event e hr he hret =>
      obtain ⟨s', hm⟩ := State.after_move (X := True) (Y := True) h hr (fun _ => .inr trivial) he
        (freely_spares trivial trivial _ _)
      exact ⟨s', hm.sound h, hx.move h hm fun i hi => hret i (Option.some.inj hi)⟩
    | @release t i hr hh =>
      obtain ⟨s', hm⟩ := State.after_move (X := True) (Y := True) (e := .release _ i) h hr
        (fun _ => .inr trivial) rfl (freely_spares trivial trivial _ _)
      exact ⟨s', hm.sound h, hx.releases hh hr hm⟩

end Rough

/-- Whatever the users of the pool do, nobody gets the connection, and it does not rest. -/
def State.OutOfReach (p i : Nat) (l : State) : Prop :=
  ∀ z, Steps p Freely l z → ∃ s, z.pool? p = some s ∧ s.find? i = none ∧ i ∉ s.idle ∧ i ∉ s.given ∧
    ∀ t, z.got? t = some i → l.got? t = some i

def State.Spares (p : Nat) (l l' : State) : Prop :=
  ∀ s s' i, l.pool? p = some s → l'.pool? p = some s' → s.find? i ≠ none → s'.find? i = none →
    i ∉ s.given ∧ i ∉ s.idle.erase i

def Sparing (settings : Config.PoolSettings) (l : State) : Prop :=
  Relation.ReflTransGen (fun a b => Step Session.Pooling.number Freely a b ∧
    a.Spares Session.Pooling.number b) (.ofPool settings) l

section Destroys

variable {p t i : Nat} {X Y : Prop} {v : Option Event} {l l' : State} {s s' : Pool.State}
  {settings : Config.PoolSettings}

theorem Reachable.listed {allowed : State → Event → Prop} (h : Reachable settings allowed l) :
    ∃ s, Sound Session.Pooling.number l s ∧ Listed l s := by
  refine h.induction (.ofPool settings) fun {l l' s} hs hl hst => ?_
  obtain ⟨v, s', hm⟩ := hst.freely hs
  exact ⟨s', hm.sound hs, hl.move hs hm⟩

theorem Removed.outOfReach (h : Sound p l s) (hx : Removed i l s) : l.OutOfReach p i := by
  intro z hz
  obtain ⟨sz, hsound, hxz, hgot⟩ := hx.run h hz
  have hout := hxz.nowhere
  simp only [Pool.State.places, List.mem_append, not_or] at hout
  exact ⟨sz, hsound.pool, hxz.gone.2, hout.1, hout.2.1, hgot⟩

def Housed (l : State) (s : Pool.State) : Prop := ∀ i ∈ s.places [] l.brings, s.find? i ≠ none

theorem Act.registered {T N N' : Nat} {u : Shape} {w : Work u} {cs : List (Call .unit)} {n : Next u}
    (h : Act p t T N s w s' N' cs n) (hN : N' ≠ N) : ∃ c now, s' = s.freeSlot.register N c now := by
  cases h
  case registers c now => exact ⟨c, now, rfl⟩
  all_goals exact absurd rfl hN

theorem Housed.aside (hx : Housed l s) (ha : Aside p X Y v l l' s s') : Housed l' s' := by
  intro i hi
  have hf : s.find? i ≠ none := fun hf => ha.nowhere hf (fun hm => hx i hm hf) hi
  rw [Pool.State.find?_ne_none, ha.roll, ← Pool.State.find?_ne_none]
  exact hf

theorem Housed.work {T N N' : Nat} {u : Shape} {w : Work u} {d : Call u} {cs : List (Call .unit)}
    {n : Next u} (h : Act p t T N s w s' N' cs n) (hd : w.Of p d)
    (hx : ∀ i ∈ s.places [] w.brings, s.find? i ≠ none)
    (hsp : ∀ i, s.find? i ≠ none → s'.find? i = none → i ∉ s.given ∧ i ∉ s.idle.erase i) :
    ∀ i ∈ s'.places [] n.brings, s'.find? i ≠ none := by
  intro i hi
  have hle := h.places [] i
  rw [← List.count_pos_iff] at hi
  by_cases hold : i ∈ s.places [] w.brings
  · have hf := hx i hold
    have hb := n.closes_brings
    have hturn := h.turnover hd
    generalize w.opens = os, n.closes = asks at hturn hb
    rw [Pool.State.find?_ne_none]
    cases hturn with
    | same hr =>
      rw [hr]
      exact Pool.State.find?_ne_none.mp hf
    | joins _ _ hr =>
      obtain ⟨c, hc⟩ := Pool.State.find?_ne_none.mp hf
      exact ⟨c, hr ▸ List.mem_append_left _ hc⟩
    | @leaves id c hc hs =>
      -- The one that leaves was neither handed to anybody nor left behind among those that rest.
      rw [← Pool.State.find?_ne_none]
      intro hn
      obtain ⟨hgiven, hidle⟩ := hsp i hf hn
      rw [hs, Pool.State.find?_without] at hn
      split at hn
      · next he =>
        rw [List.count_pos_iff, hb nofun, hs, ← he, Pool.State.places, List.mem_append] at hi
        have hgiven : i ∉ (s.without i).given := hgiven
        exact hi.elim hidle (by simpa using hgiven)
      · exact hf hn
  · rw [← List.count_eq_zero] at hold
    split at hle
    · next he =>
      obtain ⟨c, now, hs⟩ := h.registered (by omega)
      rw [Pool.State.find?_ne_none, hs, Pool.State.roll_register, he]
      exact ⟨c, List.mem_append_right _ List.mem_cons_self⟩
    · omega

theorem Housed.move (h : Sound p l s) (hx : Housed l s) (hm : Move p X Y v l l' s s')
    (hsp : l.Spares p l') : Housed l' s' := by
  have hsp := fun i => hsp s s' i h.pool (hm.sound h).pool
  cases hm with
  | work hr hd _ ha _ heq =>
    rw [heq, Housed, State.carryOn_brings]
    rw [Housed, State.brings_on hr] at hx
    exact Housed.work ha hd hx hsp
  | aside _ _ ha => exact hx.aside ha

theorem Sparing.housed (h : Sparing settings l) :
    ∃ s, Sound Session.Pooling.number l s ∧ Housed l s := by
  induction h with
  | refl => exact ⟨_, .ofPool settings, nofun⟩
  | tail _ hst ih =>
    obtain ⟨s, hs, hx⟩ := ih
    obtain ⟨v, s', hm⟩ := hst.1.freely hs
    exact ⟨s', hm.sound hs, hx.move hs hm hst.2⟩

theorem State.inLine_step {k : Stack .lease} {o : Outcome .unit} (h : l.pool? p = some s)
    (hr : l.running = some ⟨t, .unit, .give o, .push (.inLine p) k⟩) (hi : s.handedTo? t = some i) :
    ∃ l' s', l.step? = some l' ∧ l'.pool? p = some s' ∧
      (o = .ok () → ∃ c, l'.running = some ⟨t, .lease, .give (.ok c), k⟩ ∧ c.id = i) ∧
      ∀ e, o = .error e → i ∈ s'.idle ∨ i ∈ s'.given := by
  have ht : l.currentTask = t := by simp [State.currentTask, State.current?, hr]
  obtain ⟨s', N, cs, ha, hch⟩ := l.inLine_acts h o
  refine ⟨_, s', State.step?_of_running hr, ?_⟩
  rw [State.advance]
  dsimp only [resume]
  rw [ht] at ha
  generalize l.inLine p o = m at ha hch
  obtain ⟨m, n⟩ := m
  refine ⟨(State.carryOn_pool ..).trans hch.pool, fun he => ?_, fun e he => ?_⟩
  · subst he
    cases ha with
    | served hi' =>
      cases hi.symm.trans hi'
      exact ⟨_, rfl, Pool.State.leaseOf_id _ _⟩
    | misled hi' => cases hi.symm.trans hi'
  · subst he
    cases ha with
    | leaves _ hi' => cases hi.symm.trans hi'
    | passesOn _ now hi' =>
      cases hi.symm.trans hi'
      rcases (Pool.State.checkin_spec ((s.takeUp t).leaveLine t) i now).places with
        ⟨_, hg, _⟩ | ⟨hidle, _⟩
      · right
        rw [hg]
        exact List.mem_append_right _ List.mem_cons_self
      · left
        rw [hidle]
        exact List.mem_append_right _ List.mem_cons_self

theorem State.destroys_step {k : Stack .unit} (h : Sound p l s) (hl : Listed l s)
    (hr : l.running = some ⟨t, .unit, .call (.destroy p i), k⟩) (hf : s.find? i ≠ none) :
    ∃ l', l.step? = some l' ∧ l'.pool? p = some (s.without i) ∧
      (i ∉ s.given → i ∉ s.idle.erase i → l'.OutOfReach p i) := by
  have hst := State.step?_of_running hr
  obtain ⟨s', hm⟩ := State.step_move (X := True) (Y := True) h hst
  have hs := (hm.destroys hr).resolve_left fun hn => hf hn.1
  have h' := hm.sound h
  obtain ⟨⟨c, hc⟩, rfl⟩ := hs
  refine ⟨_, hst, h'.pool, fun hgiven hidle => Removed.outOfReach h' ⟨hl.move h hm,
    hm.destroys_gone hl hr hc, ?_⟩⟩
  -- The task at work brings nothing on its way to the driver.
  have hb : (l.advance ⟨t, .unit, .call (.destroy p i), k⟩).brings = [] :=
    (State.carryOn_brings _ t _ k).trans (Next.brings_of_ne (by decide) _)
  have hgiven : i ∉ (s.without i).given := hgiven
  rw [hb, Pool.State.places, List.mem_append]
  exact fun hm => hm.elim hidle (by simpa using hgiven)

end Destroys

/-- A destroy of a connection puts it out of reach, now and for good, unless a caller in line has been
handed it and has not taken it up, or it rests in two places. -/
theorem destroyed_out_unless_handed {settings : Config.PoolSettings} {l : State}
    (h : Reachable settings Freely l) : ∃ s, l.pool? Session.Pooling.number = some s ∧
      (∀ t i k, l.running = some ⟨t, .unit, .call (.destroy Session.Pooling.number i), k⟩ →
        s.find? i ≠ none → ∃ l' s', l.step? = some l' ∧
          l'.pool? Session.Pooling.number = some s' ∧ s'.find? i = none ∧
          s'.waiters = s.waiters ∧ s'.handed = s.handed ∧
          (i ∉ s.given → i ∉ s.idle.erase i → l'.OutOfReach Session.Pooling.number i)) ∧
      (∀ i, s.find? i = none → l.after (.release Session.Pooling.number i) = l) ∧
      -- What a caller has been handed it gets all the same, or lets it rest again.
      (∀ t o k i, l.running = some ⟨t, .unit, .give o, .push (.inLine Session.Pooling.number) k⟩ →
        s.handedTo? t = some i → ∃ l' s', l.step? = some l' ∧
          l'.pool? Session.Pooling.number = some s' ∧
          (o = .ok () → ∃ c, l'.running = some ⟨t, .lease, .give (.ok c), k⟩ ∧ c.id = i) ∧
          ∀ e, o = .error e → i ∈ s'.idle ∨ i ∈ s'.given) ∧
      (Sparing settings l → (∀ i ∈ s.idle, s.find? i ≠ none) ∧
        ∀ t c k, l.running = some ⟨t, .lease, .give (.ok c), k⟩ → s.find? c.id ≠ none) ∧
      ∀ r, Roughly settings ⟨l, r⟩ → s.idle.Nodup := by
  obtain ⟨s, hs, hl⟩ := h.listed
  refine ⟨s, hs.pool, fun t i k hr hf => ?_, fun i hf => ?_, fun t o k i hr hi =>
    l.inLine_step hs.pool hr hi, fun hsp => ?_, fun r hr => ?_⟩
  · obtain ⟨l', hst, hp, hout⟩ := State.destroys_step hs hl hr hf
    refine ⟨l', _, hst, hp, ?_, rfl, rfl, hout⟩
    rw [Pool.State.find?_without, if_pos rfl]
  · simp [State.after, State.release, hs.pool, Pool.State.checkRelease, hf]
  · obtain ⟨s', hs', hx⟩ := hsp.housed
    cases hs.pool.symm.trans hs'.pool
    refine ⟨fun i hi => hx i (List.mem_append_left _ hi), fun t c k hr => hx c.id ?_⟩
    have hb : l.brings = [c.id] := by simp [State.brings, hr, brought]
    rw [hb]
    exact List.mem_append_right _ (List.mem_append_right _ List.mem_cons_self)
  · obtain ⟨s', hs', hx⟩ := hr.spread
    cases hs.pool.symm.trans hs'.pool
    exact (List.nodup_append.mp hx.once).1

theorem firstHolds_reachable : Reachable tight Freely firstHolds := by
  have h : Reachable tight Freely (.ofPool tight) := .refl
  have h₁ := (h.after (e := .enter (.acquire _)) rfl Call.Offered.acquire trivial).settleWithin 6
  exact (h₁.after (e := .enter (.acquire _)) rfl Call.Offered.acquire trivial).settleWithin 1

def destroyBegins : State := firstHolds.after (.enter (.destroy Session.Pooling.number 1))

theorem destroyed_out_unless_handed_held : Reachable tight Freely destroyBegins ∧
    ∃ l', destroyBegins.step? = some l' ∧ l'.OutOfReach Session.Pooling.number 1 := by
  have h : Reachable tight Freely destroyBegins :=
    firstHolds_reachable.after (e := .enter (.destroy _ 1)) rfl (.destroy 1) trivial
  obtain ⟨s, hs, hdestroys, _⟩ := destroyed_out_unless_handed h
  have hw : (destroyBegins.pool? Session.Pooling.number).map (fun s => (s.idle, s.given, (s.find? 1).isSome)) =
    some ([], [], true) := rfl
  rw [hs, Option.map_some, Option.some.injEq, Prod.mk.injEq, Prod.mk.injEq] at hw
  obtain ⟨hidle, hgiven, hf⟩ := hw
  obtain ⟨l', _, hst, _, _, _, _, hout⟩ := hdestroys 3 1 _ rfl (Option.isSome_iff_ne_none.mp hf)
  exact ⟨h, l', hst, hout (by simp [hgiven]) (by simp [hidle])⟩

def handedMeanwhile : Scene :=
  ⟨(firstHolds.after (.spawn (.destroy Session.Pooling.number 1))).after
    (.release Session.Pooling.number 1), [0]⟩

def givenUpMeanwhile : Scene := ⟨handedMeanwhile.loop.after (.cancel 2), [0]⟩

theorem Roughly.settleWithin {settings : Config.PoolSettings} {l : State} {r : List Nat}
    (h : Roughly settings ⟨l, r⟩) (n : Nat) : Roughly settings ⟨l.settleWithin n, r⟩ := by
  induction n generalizing l with
  | zero => exact h
  | succ n ih =>
    rw [State.settleWithin]
    cases hl : l.step? with
    | none => exact h
    | some l' => exact ih (h.tail (.loop hl))

theorem handedMeanwhile_roughly : Roughly tight handedMeanwhile := by
  have h₀ : Roughly tight ⟨.ofPool tight, []⟩ := .refl
  have h₁ := Roughly.settleWithin (h₀.tail (.event (.enter (.acquire _)) rfl .acquire nofun)) 6
  have h₂ := Roughly.settleWithin (h₁.tail (.event (.enter (.acquire _)) rfl .acquire nofun)) 1
  have h₃ : Roughly tight ⟨firstHolds.after (.spawn (.destroy Session.Pooling.number 1)), []⟩ :=
    h₂.tail (.event (.spawn (.destroy _ 1)) rfl (.destroy 1) nofun)
  exact h₃.tail (.release (t := 0) rfl rfl)

/-- The connection has left the pool, and then the second caller gets it, or it rests. -/
theorem destroyed_connection_acquired :
    Roughly tight ⟨handedMeanwhile.loop.settleWithin 6, [0]⟩ ∧
    Roughly tight ⟨givenUpMeanwhile.loop.settleWithin 11, [0]⟩ ∧
    (∃ s, (handedMeanwhile.loop.settleWithin 6).pool? Session.Pooling.number = some s ∧
      s.find? 1 = none ∧ (handedMeanwhile.loop.settleWithin 6).got? 2 = none ∧
      (handedMeanwhile.loop.settleWithin 12).got? 2 = some 1) ∧
    ∃ s, (givenUpMeanwhile.loop.settleWithin 11).pool? Session.Pooling.number = some s ∧
      s.find? 1 = none ∧ s.idle = [1] := by
  have h : Roughly tight givenUpMeanwhile :=
    handedMeanwhile_roughly.tail (.event (.cancel 2) rfl trivial nofun)
  exact ⟨handedMeanwhile_roughly.settleWithin 6, h.settleWithin 11, ⟨_, rfl, rfl, rfl, rfl⟩,
    _, rfl, rfl, rfl⟩

end SqliteAccess.Loop
