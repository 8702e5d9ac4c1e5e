import SqliteAccess.Proofs.Pool.Kept

/-!
The line of a pool: callers are served in the order in which they came, whoever gives up meanwhile,
and no connection rests while a caller is pending.
-/

theorem List.mem_of_pair_sublist_append {α : Type} {xs ys : List α} {a b : α}
    (hn : (xs ++ ys).Nodup) (h : [a, b].Sublist (xs ++ ys)) (ha : a ∈ ys) : b ∈ ys := by
  have hd := (List.nodup_append.mp hn).2.2
  obtain ⟨us, vs, hab, hu, hv⟩ := List.sublist_append_iff.mp h
  cases us with
  | nil =>
    rw [List.nil_append] at hab
    exact hv.subset (by simp [← hab])
  | cons x us =>
    obtain ⟨rfl, _⟩ := List.cons.inj hab
    exact absurd rfl (hd a (hu.subset List.mem_cons_self) a ha)

theorem List.pair_sublist_of_mem {α : Type} {xs ys : List α} {a b : α} (hn : ys.Nodup)
    (h : xs.Sublist ys) (hab : [a, b].Sublist ys) (ha : a ∈ xs) (hb : b ∈ xs) :
    [a, b].Sublist xs := by
  induction h with
  | slnil => cases ha
  | @cons xs ys y hs ih =>
    have hy := (List.nodup_cons.mp hn).1
    refine ih (List.nodup_cons.mp hn).2 ?_ ha hb
    cases hab with
    | cons _ hab => exact hab
    | cons_cons _ hab => exact absurd (hs.subset ha) hy
  | @cons_cons xs ys y hs ih =>
    have hy := (List.nodup_cons.mp hn).1
    cases hab with
    | cons _ hab =>
      have ha' : a ≠ y := fun he => hy (he ▸ hab.subset (by simp))
      have hb' : b ≠ y := fun he => hy (he ▸ hab.subset (by simp))
      exact (ih (List.nodup_cons.mp hn).2 hab (List.mem_of_ne_of_mem ha' ha)
        (List.mem_of_ne_of_mem hb' hb)).cons y
    | cons_cons _ hab =>
      have hb' : b ≠ a := fun he => hy (he ▸ hab.subset (by simp))
      exact (List.singleton_sublist.mpr (List.mem_of_ne_of_mem hb' hb)).cons_cons a

namespace SqliteAccess.Pool.State

variable {s s' s'' : State} {t id : Nat} {now : Float}

def line (s : State) : List Nat := s.waiters.map (·.task)

def served (s : State) : List Nat := s.handed.map (·.1)

def queue (s : State) : List Nat := s.line ++ s.served

def Awaits (s : State) (t : Nat) : Prop := ∃ w ∈ s.waiters, w.task = t ∧ w.pending = true

theorem handedTo?_served (h : s.handedTo? t = some id) : t ∈ s.served := by
  obtain ⟨x, hx, _⟩ := Option.map_eq_some_iff.mp h
  exact List.mem_map.mpr ⟨x, List.mem_of_find?_eq_some hx, by simpa using List.find?_some hx⟩

theorem queue_takeUp (s : State) (t : Nat) : (s.takeUp t).queue = s.line ++ s.served.erase t := by
  have hserved : (s.takeUp t).served = s.served.erase t := by
    rw [served, List.erase_eq_eraseP, served, List.eraseP_map]
    simp [takeUp, Function.comp_def, eq_comm, beq_eq_decide]
  rw [queue, hserved]
  rfl

theorem count_takeUp_queue (ht : t ∈ s.served) : (s.takeUp t).queue.count t + 1 = s.queue.count t := by
  have hpos := List.count_pos_iff.mpr ht
  rw [queue_takeUp, queue, List.count_append, List.count_append, List.count_erase_self]
  omega

theorem not_mem_takeUp_queue (hn : s.queue.Nodup) (ht : t ∈ s.served) : t ∉ (s.takeUp t).queue := by
  have hcount := count_takeUp_queue ht
  rw [List.count_eq_one_of_mem hn (List.mem_append_right _ ht)] at hcount
  exact List.count_eq_zero.mp (Nat.succ.inj hcount)

theorem leaveLine_line (h : s.line.Nodup) : t ∉ (s.leaveLine t).line := by
  unfold line leaveLine at *
  generalize s.waiters = ws at h
  induction ws with
  | nil => simp
  | cons w ws ih =>
    rw [List.map_cons, List.nodup_cons] at h
    by_cases hw : w.task = t
    · rw [List.eraseP_cons_of_pos (by simpa using hw), ← hw]
      exact h.1
    · rw [List.eraseP_cons_of_neg (by simpa using hw), List.map_cons, List.mem_cons]
      rintro (ht | ht)
      · exact hw ht.symm
      · exact ih h.2 ht

theorem wanted_error {n : Number} {e : Failure} (h : wanted n = .error e) :
    e.isConnection = false := by
  unfold wanted at h
  split at h
  · cases h
  · split at h
    · cases h
    · cases h
      rfl

theorem growth_error {e : Failure} (h : s.growth = .error e) : e.isConnection = false := by
  unfold growth at h
  split at h
  · cases h
  · exact wanted_error h

theorem Awaits.mem_line (h : s.Awaits t) : t ∈ s.line := by
  obtain ⟨w, hw, rfl, _⟩ := h
  exact List.mem_map_of_mem hw

theorem Lull.line_eq (h : s.Lull s') : s'.line = s.line := by
  have hline := h.line
  unfold State.line
  generalize s.waiters = ws at hline
  generalize s'.waiters = ws' at hline
  induction hline with
  | nil => rfl
  | cons hw _ ih => rw [List.map_cons, List.map_cons, hw.1, ih]

theorem line_enqueue (s : State) (t : Nat) : (s.enqueue t).line = s.line ++ [t] := by
  simp [line, enqueue]

theorem queue_enqueue (s : State) (t : Nat) : (s.enqueue t).queue.Perm (t :: s.queue) := by
  rw [queue, line_enqueue, List.append_assoc]
  exact List.perm_middle

theorem Awaits.of_enqueue {a : Nat} (h : (s.enqueue t).Awaits a) (ha : a ≠ t) : s.Awaits a := by
  obtain ⟨w, hw, rfl, hp⟩ := h
  rcases List.mem_append.mp hw with hw | hw
  · exact ⟨w, hw, rfl, hp⟩
  · rw [List.mem_singleton.mp hw] at ha
    exact absurd rfl ha

structure Orderly (own : Nat → Prop) (s s' : State) : Prop where
  line : s'.line.Sublist s.line
  queue : s'.queue.Subperm s.queue
  pending : ∀ a, s'.Awaits a → s.Awaits a
  fair : s.line.Nodup → ∀ a b, ¬ own b → [a, b].Sublist s.line → s'.Awaits a → b ∈ s'.line
  idle : s.idle = [] → s'.idle = [] ∨ ∀ a, ¬ s'.Awaits a

namespace Orderly

variable {own own' : Nat → Prop}

theorem of_eq (hw : s'.waiters = s.waiters) (hh : s'.served.Sublist s.served)
    (hi : s.idle = [] → s'.idle = []) : s.Orderly own s' := by
  have hl : s'.line = s.line := by rw [State.line, State.line, hw]
  refine ⟨by rw [hl], ?_, fun a ha => ?_, fun _ a b _ hab _ => ?_, fun h => .inl (hi h)⟩
  · rw [State.queue, State.queue, hl]
    exact (hh.append_left _).subperm
  · rwa [Awaits, hw] at ha
  · rw [hl]
    exact hab.subset (by simp)

theorem trans (h : s.Orderly own s') (h' : s'.Orderly own s'') : s.Orderly own s'' := by
  refine ⟨h'.line.trans h.line, h'.queue.trans h.queue, fun a ha => h.pending a (h'.pending a ha),
    ?_, fun hi => ?_⟩
  · intro hn a b hb hab ha
    have ha' := h'.pending a ha
    have hb' := h.fair hn a b hb hab ha'
    have hab' := List.pair_sublist_of_mem hn h.line hab ha'.mem_line hb'
    exact h'.fair (hn.sublist h.line) a b hb hab' ha
  · rcases h.idle hi with hi | hn
    · exact h'.idle hi
    · exact .inr fun a ha => hn a (h'.pending a ha)

theorem turn (h : nextWaiter s.waiters = (s'.waiters, some t))
    (hh : s'.served = s.served ∨ s'.served = s.served ++ [t]) (hi : s'.idle = s.idle) :
    s.Orderly own s' := by
  have ht := nextWaiter_turn s.waiters
  rw [h] at ht
  generalize hr : s'.waiters = rest at ht
  cases ht with
  | next before w _ hs hb hw =>
    have hl : s.line = (before.map (·.task) ++ [w.task]) ++ s'.line := by
      simp [State.line, hs, hr]
    have hsub : s'.line.Sublist s.line := by
      rw [hl]
      exact List.sublist_append_right _ _
    refine ⟨hsub, ?_, ?_, ?_, fun h => .inl (hi.trans h)⟩
    · rw [State.queue, State.queue]
      rcases hh with hh | hh
      · rw [hh]
        exact (hsub.append_right _).subperm
      · rw [hh, hl]
        have hp : (s'.line ++ (s.served ++ [w.task])).Perm (w.task :: (s'.line ++ s.served)) := by
          rw [← List.append_assoc]
          exact List.perm_append_singleton _ _
        apply hp.subperm.trans
        simpa using (List.sublist_append_right (before.map (·.task))
          (w.task :: (s'.line ++ s.served))).subperm
    · rintro a ⟨x, hx, hxa⟩
      exact ⟨x, by rw [hs]; simp [hr ▸ hx], hxa⟩
    · intro hn a b _ hab ha
      rw [hl] at hn hab
      exact List.mem_of_pair_sublist_append hn hab ha.mem_line

theorem clear (hw : s'.waiters = []) (hh : s'.handed = s.handed) : s.Orderly own s' := by
  have hl : s'.line = [] := by rw [State.line, hw]; rfl
  have hn : ∀ a, ¬ s'.Awaits a := by simp [Awaits, hw]
  refine ⟨by simp [hl], ?_, fun a ha => absurd ha (hn a), fun _ a _ _ _ ha => absurd ha (hn a),
    fun _ => .inr hn⟩
  rw [State.queue, State.queue, hl, State.served, hh]
  exact (List.sublist_append_right _ _).subperm

theorem lull (h : s.Lull s') : s.Orderly own s' := by
  have hl := h.line_eq
  have hs : s'.handed = s.handed ∧ s'.idle = s.idle := by
    rw [h.same]
    exact ⟨rfl, rfl⟩
  refine ⟨by rw [hl], ?_, ?_, fun _ a b _ hab _ => ?_, fun hi => .inl (hs.2.trans hi)⟩
  · rw [State.queue, State.queue, hl, State.served, hs.1, State.served]
  · rintro a ⟨w, hw, rfl, hp⟩
    obtain ⟨hlen, hget⟩ := List.forall₂_iff_get.mp h.line
    obtain ⟨i, hi, rfl⟩ := List.getElem_of_mem hw
    obtain ⟨ht, hpend⟩ := hget i (hlen ▸ hi) hi
    exact ⟨_, List.getElem_mem _, ht.symm, hpend hp⟩
  · rw [hl]
    exact hab.subset (by simp)

theorem checkin (h : Checkin s id now s') : s.Orderly own s' := by
  cases h with
  | serves before w rest hs hb hw =>
    have hn : nextWaiter s.waiters = (rest, some w.task) := by
      rw [hs]
      clear hs
      induction before with
      | nil => simp [nextWaiter, hw]
      | cons x before ih =>
        rw [List.cons_append, nextWaiter, if_neg (by simp [hb x]), ih fun x hx => hb x (.tail _ hx)]
    exact turn hn (.inr (by simp [State.served])) rfl
  | rests => exact clear rfl rfl

theorem failFirst (s : State) : s.Orderly own s.failFirst.1 := by
  have ht := nextWaiter_turn s.waiters
  cases hn : nextWaiter s.waiters with
  | mk ws o =>
    have hf : s.failFirst.1 = { s with waiters := ws } := by simp [State.failFirst, hn]
    rw [hf]
    cases o with
    | some t => exact turn hn (.inl rfl) rfl
    | none =>
      rw [hn] at ht
      cases ht
      exact clear rfl rfl

theorem takeUp (s : State) (t : Nat) : s.Orderly own (s.takeUp t) :=
  of_eq rfl (List.Sublist.map _ List.eraseP_sublist) id

theorem leaveLine (s : State) (t : Nat) : s.Orderly (· = t) (s.leaveLine t) := by
  have hl : (s.leaveLine t).line.Sublist s.line := List.Sublist.map _ List.eraseP_sublist
  refine ⟨hl, (hl.append_right _).subperm, ?_, ?_, .inl⟩
  · rintro a ⟨w, hw, hwa⟩
    exact ⟨w, List.eraseP_sublist.subset hw, hwa⟩
  · intro _ a b hb hab _
    obtain ⟨w, hw, rfl⟩ := List.mem_map.mp (hab.subset (by simp : b ∈ [a, b]))
    exact List.mem_map_of_mem ((List.mem_eraseP_of_neg (by simpa using hb)).mpr hw)

end Orderly

end SqliteAccess.Pool.State

namespace SqliteAccess.Loop

open Pool.State (Orderly)

def Weight.entering : Weight where
  call
    | .acquire _ => 1
    | _ => 0
  rest _ := 0

/-- A caller in line, or after that, that has not been told of a failure to connect. -/
inductive Status.Unserved (p : Nat) : Status → Prop
  | waits (w : Wait) : Status.Unserved p (.paused w (.push (.inLine p) (.done .lease)))
  | told {signal : Option Failure} : (∀ e, signal = some e → e.isConnection = false) →
      Status.Unserved p (.ready signal (.push (.inLine p) (.done .lease)))
  | failed {e : Failure} : e.isConnection = false → Status.Unserved p (.finished .lease (.error e))

inductive Running.Unserved (p : Nat) : Running → Prop
  | wakes {t : Nat} {o : Outcome .unit} : (∀ e, o = .error e → e.isConnection = false) →
      Running.Unserved p ⟨t, .unit, .give o, .push (.inLine p) (.done .lease)⟩
  | fails {t : Nat} {e : Failure} : e.isConnection = false →
      Running.Unserved p ⟨t, .lease, .give (.error e), .done .lease⟩

inductive Next.Stood (p : Nat) : {u : Shape} → Next u → Prop
  | waits (w : Wait) : Next.Stood p (.pause w (.inLine p))
  | fails {e : Failure} : e.isConnection = false → Next.Stood p (.give (s := .lease) (.error e))

/-- A caller that has stood in line and got no connection and no failure to connect. -/
structure Unserved (p : Nat) (l : State) (t : Nat) : Prop where
  status : ∀ k, l.tasks[t]? = some k → k.status = .running ∨ k.status.Unserved p
  running : ∀ r, l.running = some r → r.task = t → r.Unserved p

section Acts

variable {p t T N N' : Nat} {s s' : Pool.State} {u : Shape} {w : Work u} {cs : List (Call .unit)}
  {n : Next u}

theorem Stands.stood {r : Except Failure Nat} {n : Next .lease} (h : Stands p t s r s' n)
    (hr : ∀ e, r = .error e → e.isConnection = false) : n.Stood p := by
  cases h with
  | waits | givesUp => exact .waits _
  | fails e he =>
    rcases he with he | he
    · exact .fails (hr e he)
    · refine .fails ?_
      unfold Config.optionalSeconds at he
      split at he
      · cases he
      · generalize hv : Config.seconds _ = v at he
        cases v with
        | ok x => cases he
        | error e' =>
          cases he
          unfold Config.seconds at hv
          split at hv
          · cases hv
          · dsimp only at hv
            split at hv
            · cases hv
              rfl
            · cases hv
          · cases hv
          · cases hv
            rfl

theorem Act.orderly (h : Act p t T N s w s' N' cs n) : s.Orderly (· = t) s' ∨
    Weight.entering.work w = 1 ∧ s.idle = [] ∧ n.Stood p ∧ (s.enqueue t).Orderly (· = t) s' := by
  have same : ∀ {s s' : Pool.State}, s'.waiters = s.waiters → s'.handed = s.handed →
      (s.idle = [] → s'.idle = []) → s.Orderly (· = t) s' :=
    fun hw hh hi => .of_eq hw (by rw [Pool.State.served, hh]; exact .refl _) hi
  cases h
  case takes id hcl ht =>
    obtain ⟨hid, he⟩ := Pool.State.takeIdle?_eq ht
    refine .inl (same (by rw [he]; rfl) (by rw [he]; rfl) fun hi => ?_)
    have hid : s.idle = s'.idle ++ [id] := hid
    simp [hi] at hid
  case lines hi _ h₁ hl =>
    subst h₁
    refine .inr ⟨rfl, hi, hl.stood fun e he => Pool.State.growth_error he, ?_⟩
    have hs : (s.enqueue t).Orderly (· = t) (((s.awake T).enqueue t).expand
        (T + (starters p s).length) (Loop.opens ((s.awake T).enqueue t).growth)) := same rfl rfl id
    cases hl with
    | waits => exact hs
    | fails => exact hs
    | givesUp => exact hs.trans (.lull (.giveUp _ t))
  case served => exact .inl (.takeUp s t)
  case misled => exact .inl (.takeUp s t)
  case leaves => exact .inl (.trans (.takeUp s t) (.leaveLine _ t))
  case passesOn id e now _ =>
    exact .inl (.trans (.trans (.takeUp s t) (.leaveLine _ t))
      (.checkin (Pool.State.checkin_spec _ id now)))
  case backgroundFailed h₁ =>
    subst h₁
    have hb : s.Orderly (· = t) s.endBackground := same rfl rfl id
    exact .inl (.trans (hb.trans (.failFirst _)) (same rfl rfl id))
  case backgroundDone c now _ =>
    have hb : s.Orderly (· = t) s.endBackground := same rfl rfl id
    exact .inl (hb.trans (.checkin (s.endBackground.checkin_spec c.id now)))
  case removes id _ hr =>
    rw [(Pool.State.remove?_eq hr).2]
    refine .inl (same rfl rfl fun hi => ?_)
    rw [Pool.State.without, hi]
    rfl
  case shutsAtOnce => exact .inl (.clear rfl rfl)
  case clears => exact .inl (.clear rfl rfl)
  all_goals exact .inl (same rfl rfl id)

theorem Act.entering (h : Act p t T N s w s' N' cs n) :
    Weight.entering.next n ≤ Weight.entering.work w := by
  have drains : ∀ {s rest n}, Drains p s rest n → Weight.entering.next n = 0 := by
    intro s rest n hd
    cases hd <;> rfl
  cases h
  case started => exact Nat.le_refl _
  case lines hl => cases hl <;> exact Nat.zero_le _
  case evicts hn => cases hn <;> exact Nat.zero_le _
  case evictsOn hn => cases hn <;> exact Nat.zero_le _
  case reaps hr => cases hr <;> exact Nat.zero_le _
  case sweptOver hr => cases hr <;> exact Nat.zero_le _
  case shutsAtOnce hd => exact (drains hd).le
  case clears hd => exact (drains hd).le
  case drains hd => exact (drains hd).le
  all_goals exact Nat.zero_le _

end Acts

section Moves

variable {p t i N : Nat} {X Y : Prop} {v : Option Event} {l l' m : State} {s s' : Pool.State}
  {u : Shape} {w : Work u}
  {d : Call u} {k : Stack u} {n : Next u} {cs : List (Call .unit)}

theorem Aside.orderly (ha : Aside p X Y v l l' s s') : s.Orderly (fun _ => False) s' := by
  have same : ∀ {s s' : Pool.State}, s'.waiters = s.waiters → s'.handed = s.handed →
      s'.idle = s.idle → s.Orderly (fun _ => False) s' :=
    fun hw hh hi => .of_eq hw (by rw [Pool.State.served, hh]; exact .refl _) hi.trans
  cases ha with
  | ends | goesOn | enters | spawns => exact same rfl rfl rfl
  | lull _ hl => exact .lull hl
  | @releases id now => exact .checkin (s.checkin_spec id now)
  | discards => exact same rfl rfl rfl

theorem Status.Nudge.unserved {D : Failure → Prop} {x y : Status} (h : x.Nudge D y)
    (hx : x = .running ∨ x.Unserved p)
    (hd : ∀ w st, x = .paused w st → ∀ e, D e → e.isConnection = false) :
    y = .running ∨ y.Unserved p := by
  rcases hx with rfl | hx
  · cases h
    exact .inl rfl
  · cases h with
    | same => exact .inr hx
    | woken w st hw =>
      cases hx
      exact .inr (.told fun e he => hd _ _ rfl e (hw e he))
    | recounted ts ts' b b' st =>
      cases hx
      exact .inr (.waits _)

theorem Unserved.work (hr : l.running = some (w.on t k))
    (ha : Act p t l.tasks.length l.nextConnection s w s' N cs n)
    (hc : Changed p (fun i => s.reaper = some i) (Tells s s') (Follows w t s s') l m s' N cs)
    (hu : Unserved p l i) (hi : i < l.tasks.length) (hs : i ∉ s.served)
    (ht : Pool.nextWaiter s.waiters ≠ (s'.waiters, some i)) : Unserved p (m.carryOn t n k) i := by
  have htold : ∀ e, Tells s s' i e → e.isConnection = false := by
    intro e he
    cases hcon : e.isConnection with
    | false => rfl
    | true => exact absurd (he.2.1 hcon) ht
  have hstatus : ∀ y, m.tasks[i]? = some y → y.status = .running ∨ y.status.Unserved p := by
    intro y hy
    rcases hc.task_cases hy with ⟨x, hx, hn⟩ | ⟨c, _, hle, _⟩
    · exact hn.status.unserved (hu.status x hx) fun _ _ _ => htold
    · omega
  by_cases hit : i = t
  · subst hit
    have hru := hu.running _ hr (Work.on_task w i k)
    cases w with
    | call c => cases hru
    | back f o =>
      cases hru with
      | wakes ho =>
        cases ha with
        | served hg => exact absurd (Pool.State.handedTo?_served hg) hs
        | passesOn e now hg => exact absurd (Pool.State.handedTo?_served hg) hs
        | misled =>
          refine ⟨hstatus, fun r hr' _ => ?_⟩
          cases hr'
          exact .fails rfl
        | leaves e hg =>
          refine ⟨hstatus, fun r hr' _ => ?_⟩
          cases hr'
          exact .fails (ho e rfl)
  · refine ⟨fun y hy => ?_, fun r hr' hrt => absurd (hrt.symm.trans (State.carryOn_running hr')) hit⟩
    rw [State.carryOn_tasks] at hy
    rcases modify_cases hy with ⟨_, hy⟩ | ⟨he, _⟩
    · exact hstatus y hy
    · exact absurd he hit

theorem Unserved.standing (hu : Unserved p l i) {x : Task} {w : Wait} {st : Stack .unit}
    (hx : l.tasks[i]? = some x) (hs : x.status = .paused w st) : Weight.standing.of l i ≠ 0 := by
  rcases hu.status x hx with hs' | hs'
  · cases hs.symm.trans hs'
  · rw [hs] at hs'
    cases hs' with
    | waits =>
      have hle := Sound.paused_weight (W := .standing) hx hs
      exact Nat.ne_of_gt hle

theorem Changed.unserved {C : Nat → Prop} {D : Nat → Failure → Prop} {N : Nat}
    {cs : List (Call .unit)} (hc : Changed p C D (fun _ _ => False) l l' s N cs)
    (hi : i < l.tasks.length)
    (h : ∀ x, l.tasks[i]? = some x → (x.status = .running ∨ x.status.Unserved p) ∧
      ∀ w st, x.status = .paused w st → ∀ e, D i e → e.isConnection = false) {y : Task}
    (hy : l'.tasks[i]? = some y) : y.status = .running ∨ y.status.Unserved p := by
  rcases hc.task_cases hy with ⟨x, hx, hn⟩ | ⟨c, _, hle, _⟩
  · exact hn.status.unserved (h x hx).1 (h x hx).2
  · omega

theorem Status.Unserved.answer {x : Task} {signal : Option Failure} {st : Stack .unit}
    (hx : x.status.Unserved p) (hs : x.status = .ready signal st) {r : Running}
    (hr : r = ⟨i, .unit, .give (x.answer signal), st⟩) : r.Unserved p := by
  subst hr
  rw [hs] at hx
  cases hx with
  | told hsig =>
    refine .wakes fun e he => ?_
    unfold Task.answer at he
    split at he
    next e' heq =>
      cases he
      split at heq
      · cases heq
        rfl
      · exact hsig e heq
    next => cases he

theorem Unserved.aside (ha : Aside p X Y v l l' s s') (hu : Unserved p l i)
    (hi : i < l.tasks.length) : Unserved p l' i := by
  cases ha with
  | @ends t v o hr hc =>
    refine ⟨fun y => hc.unserved (by simpa [State.lay, State.modifyTask] using hi) fun x hx => ?_,
      fun r hr' => by cases hc.running.symm.trans hr'⟩
    rcases modify_cases hx with ⟨_, hx⟩ | ⟨rfl, x₀, _, rfl⟩
    · refine ⟨hu.status x hx, fun w st hs e he => ?_⟩
      exact Bool.eq_false_iff.mpr fun hcon => hu.standing hx hs (he.2.1 hcon)
    · refine ⟨?_, fun w st hs => by cases hs⟩
      cases hu.running _ hr rfl with
      | fails he => exact .inr (.failed he)
  | @goesOn t signal st x hn hk hs hr' ht =>
    refine ⟨fun y hy => ?_, fun r hr hrt => ?_⟩
    · rw [ht] at hy
      rcases modify_cases hy with ⟨_, hy⟩ | ⟨_, x₀, _, rfl⟩
      · exact hu.status y hy
      · exact .inl rfl
    · cases hr'.symm.trans hr
      obtain rfl : t = i := hrt
      exact ((hu.status x hk).resolve_left (by simp [hs])).answer hs rfl
  | lull hn _ hc _ _ hD =>
    refine ⟨fun y => hc.unserved hi fun x hx => ⟨hu.status x hx, fun w st hs e he => ?_⟩,
      fun r hr => by cases hn.symm.trans (hc.running.symm.trans hr)⟩
    exact Bool.eq_false_iff.mpr fun hcon => hu.standing hx hs (hD i e he hcon)
  | enters _ _ hr' ht =>
    refine ⟨fun y hy => ?_, fun r hr hrt => ?_⟩
    · rw [ht, List.getElem?_append_left hi] at hy
      exact hu.status y hy
    · cases hr'.symm.trans hr
      exact absurd hrt (Nat.ne_of_gt hi)
  | spawns _ _ hr' ht =>
    refine ⟨fun y hy => ?_, fun r hr => by cases hr'.symm.trans hr⟩
    rw [ht, List.getElem?_append_left hi] at hy
    exact hu.status y hy
  | releases _ hn _ _ hc | discards hn _ _ hc =>
    exact ⟨fun y => hc.unserved hi fun x hx => ⟨hu.status x hx, fun _ _ _ _ he => he.elim⟩,
      fun r hr => by cases hn.symm.trans (hc.running.symm.trans hr)⟩

theorem nextWaiter_line {ws : List Pool.Waiter} (h : Pool.nextWaiter s.waiters = (ws, some i)) :
    ∃ xs, s.line = xs ++ i :: ws.map (·.task) := by
  have ht := Pool.nextWaiter_turn s.waiters
  rw [h] at ht
  cases ht with
  | next before w _ hs => exact ⟨before.map (·.task), by simp [Pool.State.line, hs]⟩

structure Lined (p : Nat) (l : State) (s : Pool.State) : Prop where
  once : s.queue.Nodup
  begun : ∀ i ∈ s.queue, i < l.tasks.length ∧ Weight.entering.of l i = 0
  unserved : ∀ i ∈ s.line, Unserved p l i
  settled : s.idle = [] ∨ ∀ a, ¬ s.Awaits a

theorem Lined.orderly {own : Nat → Prop} {q : Pool.State} (hq : q.queue.Nodup)
    (hi : q.idle = [] ∨ ∀ a, ¬ q.Awaits a) (ho : q.Orderly own s') :
    s'.queue.Nodup ∧ (s'.idle = [] ∨ ∀ a, ¬ s'.Awaits a) := by
  refine ⟨?_, ?_⟩
  · obtain ⟨ls, hp, hs⟩ := ho.queue
    exact hp.nodup_iff.mp (hq.sublist hs)
  · rcases hi with hi | hn
    · exact ho.idle hi
    · exact .inr fun a ha => hn a (ho.pending a ha)

theorem Lined.not_taken (hn : s.line.Nodup) (hi : i ∈ s'.line) :
    Pool.nextWaiter s.waiters ≠ (s'.waiters, some i) := by
  intro ht
  obtain ⟨xs, hl⟩ := nextWaiter_line ht
  rw [hl] at hn
  exact (List.nodup_cons.mp (List.nodup_append.mp hn).2.1).1 hi

theorem Work.Of.entering (hd : w.Of p d) (hk : k.Holds p d) (hw : Weight.entering.work w = 1) :
    k = .done u := by
  have hcall : Weight.entering.call d = 1 := by
    cases hd with
    | call => exact hw
    | back o hf => cases hf <;> first | exact hw | cases hw
  cases hk with
  | done => rfl
  | push ha _ _ => cases ha <;> cases hcall

theorem Next.Stood.unserved {x : Task} (hn : n.Stood p) (hk : k = .done u) (hx : m.tasks[t]? = some x)
    (hs : x.status = .running) : Unserved p (m.carryOn t n k) t := by
  subst hk
  cases hn with
  | waits w =>
    refine ⟨fun y hy => ?_, fun r hr => by cases hr⟩
    rw [State.carryOn_tasks] at hy
    rcases modify_cases hy with ⟨hne, _⟩ | ⟨_, x, _, rfl⟩
    · exact absurd rfl hne
    · exact .inr (.waits w)
  | fails he =>
    refine ⟨fun y hy => ?_, fun r hr _ => ?_⟩
    · cases hx.symm.trans hy
      exact .inl hs
    · cases hr
      exact .fails he

theorem Next.Stood.entering (hn : n.Stood p) : Weight.entering.next n = 0 := by
  cases hn <;> rfl

theorem Lined.work (h : Sound p l s) (hl : Lined p l s) (hr : l.running = some (w.on t k))
    (hd : w.Of p d) (hk : k.Holds p d)
    (ha : Act p t l.tasks.length l.nextConnection s w s' m.nextConnection cs n)
    (hc : Changed p (fun i => s.reaper = some i) (Tells s s') (Follows w t s s') l m s' m.nextConnection cs) :
    Lined p (m.carryOn t n k) s' := by
  have hlen : l.tasks.length ≤ (m.carryOn t n k).tasks.length := by
    rw [State.carryOn_length, hc.length]
    exact Nat.le_add_right _ _
  obtain ⟨hwt, hwi, _⟩ := h.work_weight (W := .entering) (n := n) hr hc
  have hle := ha.entering
  have old : ∀ i ∈ s.queue, i < (m.carryOn t n k).tasks.length ∧
      Weight.entering.of (m.carryOn t n k) i = 0 := by
    intro i hi
    obtain ⟨hlt, h0⟩ := hl.begun i hi
    refine ⟨hlt.trans_le hlen, ?_⟩
    by_cases hit : i = t
    · subst hit
      omega
    · rw [hwi i hlt hit, h0]
  obtain ⟨hline, hserved, hboth⟩ := List.nodup_append.mp hl.once
  have stays : ∀ i ∈ s'.line, i ∈ s.line → Unserved p (m.carryOn t n k) i := by
    intro i hi' hi
    exact (hl.unserved i hi).work hr ha hc (hl.begun i (List.mem_append_left _ hi)).1
      (fun hs => hboth i hi i hs rfl) (Lined.not_taken hline hi')
  rcases ha.orderly with ho | ⟨hwork, hidle, hstood, ho⟩
  · obtain ⟨h1, h2⟩ := Lined.orderly hl.once hl.settled ho
    exact ⟨h1, fun i hi => old i (ho.queue.subset hi), fun i hi => stays i hi (ho.line.subset hi), h2⟩
  · have hdone := hd.entering hk hwork
    obtain ⟨_, x, hx, hs⟩ := h.running _ hr
    rw [Work.on_task] at hx
    have hof := h.of_on (W := .entering) hr
    have hstack : Weight.entering.stack k = 0 := by rw [hdone]; rfl
    have ht : t ∉ s.queue := fun hq => by
      have := (hl.begun t hq).2
      omega
    have hq : (s.enqueue t).queue.Nodup :=
      (s.queue_enqueue t).nodup_iff.mpr (List.nodup_cons.mpr ⟨ht, hl.once⟩)
    obtain ⟨h1, h2⟩ := Lined.orderly hq (.inl hidle) ho
    refine ⟨h1, fun i hi => ?_, fun i hi => ?_, h2⟩
    · have hi' := (s.queue_enqueue t).subset (ho.queue.subset hi)
      rcases List.mem_cons.mp hi' with rfl | hi'
      · refine ⟨((List.getElem?_eq_some_iff.mp hx).1).trans_le hlen, ?_⟩
        have := hstood.entering
        omega
      · exact old i hi'
    · have hi' := ho.line.subset hi
      rw [s.line_enqueue] at hi'
      rcases List.mem_append.mp hi' with hi' | hi'
      · exact stays i hi hi'
      · obtain rfl := List.mem_singleton.mp hi'
        obtain ⟨y, hy, hny⟩ := hc.task hx
        exact hstood.unserved hdone hy (hny.running hs)

theorem Lined.move (h : Sound p l s) (hl : Lined p l s) (hm : Move p X Y v l l' s s') :
    Lined p l' s' := by
  cases hm with
  | work hr hd hk ha hc heq =>
    subst heq
    exact hl.work h hr hd hk ha hc
  | aside _ _ ha =>
    have ho := ha.orderly
    obtain ⟨h1, h2⟩ := Lined.orderly hl.once hl.settled ho
    refine ⟨h1, fun i hi => ?_, fun i hi => ?_, h2⟩
    · obtain ⟨hlt, h0⟩ := hl.begun i (ho.queue.subset hi)
      exact ⟨hlt.trans_le ha.length_le, (ha.weight_of h hlt).trans h0⟩
    · have hi' := ho.line.subset hi
      exact (hl.unserved i hi').aside ha (hl.begun i (List.mem_append_left _ hi')).1

theorem Lined.ofPool (settings : Config.PoolSettings) :
    Lined p (.ofPool settings) (Pool.fresh settings) :=
  ⟨.nil, nofun, nofun, .inl rfl⟩

structure Behind (p a b : Nat) (l : State) (s : Pool.State) : Prop where
  begun : ∀ i, i = a ∨ i = b → i < l.tasks.length ∧ Weight.entering.of l i = 0
  place : s.Awaits a → [a, b].Sublist s.line ∨ b ∉ s.queue
  unserved : s.Awaits a → Unserved p l b

theorem Behind.place_orderly {a b : Nat} {own : Nat → Prop} {q : Pool.State} (hq : q.line.Nodup)
    (ho : q.Orderly own s') (hb : ¬ own b) (hp : [a, b].Sublist q.line ∨ b ∉ q.queue)
    (ha : s'.Awaits a) : [a, b].Sublist s'.line ∨ b ∉ s'.queue := by
  rcases hp with hab | hb'
  · exact .inl (List.pair_sublist_of_mem hq ho.line hab ha.mem_line (ho.fair hq a b hb hab ha))
  · exact .inr fun hb => hb' (ho.queue.subset hb)

theorem Behind.own {a : Nat} (hl : Lined p l s) (hr : l.running = some (w.on t k))
    (ha : Act p t l.tasks.length l.nextConnection s w s' N cs n)
    (hab : [a, t].Sublist s.line) : [a, t].Sublist s'.line ∨ t ∉ s'.queue := by
  have ht : t ∈ s.line := hab.subset (by simp)
  obtain ⟨hline, _, hboth⟩ := List.nodup_append.mp hl.once
  have hserved : t ∉ s.served := fun hs => hboth t ht t hs rfl
  have hru := (hl.unserved t ht).running _ hr (Work.on_task w t k)
  cases w with
  | call c => cases hru
  | back f o =>
    cases hru with
    | wakes ho =>
      cases ha with
      | served hg => exact absurd (Pool.State.handedTo?_served hg) hserved
      | passesOn e now hg => exact absurd (Pool.State.handedTo?_served hg) hserved
      | misled => exact .inl hab
      | leaves e hg =>
        refine .inr fun hq => ?_
        rcases List.mem_append.mp hq with hq | hq
        · exact Pool.State.leaveLine_line hline hq
        · exact hserved ((List.Sublist.map _ List.eraseP_sublist).subset hq)

theorem Behind.work_place {a b : Nat} (h : Sound p l s) (hl : Lined p l s) (hb : Behind p a b l s)
    (hr : l.running = some (w.on t k))
    (ha : Act p t l.tasks.length l.nextConnection s w s' N cs n) (haw : s'.Awaits a) :
    s.Awaits a ∧ ([a, b].Sublist s'.line ∨ b ∉ s'.queue) := by
  have hline := (List.nodup_append.mp hl.once).1
  rcases ha.orderly with ho | ⟨hwork, hidle, hstood, ho⟩
  · refine ⟨ho.pending a haw, ?_⟩
    by_cases hbt : b = t
    · subst hbt
      rcases hb.place (ho.pending a haw) with hab | hq
      · exact Behind.own hl hr ha hab
      · exact .inr fun hq' => hq (ho.queue.subset hq')
    · exact Behind.place_orderly hline ho hbt (hb.place (ho.pending a haw)) haw
  · have hof : 0 < Weight.entering.of l t := by
      rw [h.of_on hr]
      omega
    have hne : ∀ i, i = a ∨ i = b → i ≠ t := by
      rintro i hi rfl
      have := (hb.begun i hi).2
      omega
    have ht : t ∉ s.queue := fun hq => by
      have := (hl.begun t hq).2
      omega
    have hq : (s.enqueue t).queue.Nodup :=
      (s.queue_enqueue t).nodup_iff.mpr (List.nodup_cons.mpr ⟨ht, hl.once⟩)
    have haw' := (ho.pending a haw).of_enqueue (hne a (.inl rfl))
    refine ⟨haw', Behind.place_orderly (List.nodup_append.mp hq).1 ho (hne b (.inr rfl)) ?_ haw⟩
    rcases hb.place haw' with hab | hbq
    · rw [s.line_enqueue]
      exact .inl (hab.trans (List.sublist_append_left _ _))
    · refine .inr fun hq' => ?_
      rcases List.mem_cons.mp ((s.queue_enqueue t).subset hq') with hbt | hbq'
      · exact hne b (.inr rfl) hbt
      · exact hbq hbq'

theorem Behind.work {a b : Nat} (h : Sound p l s) (hl : Lined p l s) (hb : Behind p a b l s)
    (hr : l.running = some (w.on t k))
    (ha : Act p t l.tasks.length l.nextConnection s w s' m.nextConnection cs n)
    (hc : Changed p (fun i => s.reaper = some i) (Tells s s') (Follows w t s s') l m s'
      m.nextConnection cs) : Behind p a b (m.carryOn t n k) s' := by
  obtain ⟨hline, _, hboth⟩ := List.nodup_append.mp hl.once
  refine ⟨fun i hi => ?_, fun haw => (hb.work_place h hl hr ha haw).2, fun haw => ?_⟩
  · obtain ⟨hlt, h0⟩ := hb.begun i hi
    obtain ⟨hwt, hwi, _⟩ := h.work_weight (W := .entering) (n := n) hr hc
    have hle := ha.entering
    rw [State.carryOn_length, hc.length]
    refine ⟨Nat.lt_add_right _ hlt, ?_⟩
    by_cases hit : i = t
    · subst hit
      omega
    · rw [hwi i hlt hit, h0]
  · obtain ⟨haw', hplace⟩ := hb.work_place h hl hr ha haw
    refine (hb.unserved haw').work hr ha hc (hb.begun b (.inr rfl)).1 (fun hs => ?_) fun ht => ?_
    · rcases hb.place haw' with hab | hbq
      · exact hboth b (hab.subset (by simp)) b hs rfl
      · exact hbq (List.mem_append_right _ hs)
    · -- Whoever is taken out of the line is the first to be pending in it, and that is not the later one.
      obtain ⟨xs, hxs⟩ := nextWaiter_line ht
      have hmem : b ∈ s.line := by
        rw [hxs]
        simp
      rcases hb.place haw' with hab | hbq
      · have hb' : b ∈ s'.line := by
          rw [hxs, List.append_cons] at hab hline
          exact List.mem_of_pair_sublist_append hline hab haw.mem_line
        exact Lined.not_taken hline hb' ht
      · exact hbq (List.mem_append_left _ hmem)

theorem Behind.move {a b : Nat} (h : Sound p l s) (hl : Lined p l s) (hb : Behind p a b l s)
    (hm : Move p X Y v l l' s s') : Behind p a b l' s' := by
  cases hm with
  | work hr _ _ ha hc heq =>
    subst heq
    exact hb.work h hl hr ha hc
  | aside _ _ ha =>
    have hline := (List.nodup_append.mp hl.once).1
    have ho := ha.orderly
    refine ⟨fun i hi => ?_, fun haw => ?_, fun haw => ?_⟩
    · obtain ⟨hlt, h0⟩ := hb.begun i hi
      exact ⟨hlt.trans_le ha.length_le, (ha.weight_of h hlt).trans h0⟩
    · exact Behind.place_orderly hline ho id (hb.place (ho.pending a haw)) haw
    · exact (hb.unserved (ho.pending a haw)).aside ha (hb.begun b (.inr rfl)).1

theorem Act.newcomer {t T N N' : Nat} {cs : List (Call .unit)} {n : Next .lease}
    (h : Act p t T N s (.call (.acquire p)) s' N' cs n) (hi : s.idle = []) {a : Nat} (ha : s.Awaits a) :
    s.closed = true ∧ s' = s ∧ n = .give (.error .poolClosed) ∨
      s'.idle = [] ∧ s'.line = s.line ++ [t] ∧ s'.served = s.served ∧ n.Stood p := by
  cases h with
  | refused hc => exact .inl ⟨hc, rfl, rfl⟩
  | @takes _ id _ ht =>
    have hid : s.idle = s'.idle ++ [id] := (Pool.State.takeIdle?_eq ht).1
    simp [hi] at hid
  | opens _ _ hm =>
    obtain ⟨w, hw, _, hp⟩ := ha
    have hz : s.waiting = 0 := by
      simp only [Pool.State.mayOpen, Bool.and_eq_true, decide_eq_true_iff] at hm
      exact hm.1
    exact absurd (List.length_eq_zero_iff.mp hz) (List.ne_nil_of_mem (List.mem_filter.mpr ⟨hw, hp⟩))
  | lines _ _ _ h₁ hl =>
    subst h₁
    have hn := hl.stood fun e he => Pool.State.growth_error he
    right
    cases hl with
    | waits => exact ⟨hi, s.line_enqueue t, rfl, hn⟩
    | fails => exact ⟨hi, s.line_enqueue t, rfl, hn⟩
    | givesUp =>
      refine ⟨hi, Eq.trans ?_ (s.line_enqueue t), rfl, hn⟩
      exact (Pool.State.Lull.giveUp ((s.awake T).enqueue t) t).line_eq

def Waits (p : Nat) (l : State) (t : Nat) : Prop :=
  (∃ w, (l.tasks[t]?).map (·.status) = some (.paused w (.push (.inLine p) (.done .lease)))) ∨
    ∃ e, l.running = some ⟨t, .lease, .give (.error e), .done .lease⟩

theorem Next.Stood.waits_in {x : Task} (hn : n.Stood p) (hk : k = .done u) (hx : m.tasks[t]? = some x) :
    Waits p (m.carryOn t n k) t := by
  subst hk
  cases hn with
  | waits w =>
    refine .inl ⟨w, ?_⟩
    rw [State.carryOn_tasks]
    simp [hx, Next.lays]
  | fails => exact .inr ⟨_, rfl⟩

theorem Move.newcomer {a : Nat} {st : Stack .lease} (h : Sound p l s) (hi : s.idle = []) (ha : s.Awaits a)
    (hr : l.running = some ⟨t, .lease, .call (.acquire p), st⟩) (hm : Move p X Y v l l' s s') :
    s.closed = true ∧ s' = s ∧ l'.running = some ⟨t, .lease, .give (.error .poolClosed), st⟩ ∨
      s'.idle = [] ∧ s'.line = s.line ++ [t] ∧ s'.served = s.served ∧ Waits p l' t := by
  cases hm with
  | @work u w d t k n cs m hr' hd hk hact hc heq =>
    subst heq
    obtain ⟨_, x, hx, _⟩ := h.running _ hr'
    rw [Work.on_task] at hx
    obtain ⟨y, hy, _⟩ := hc.task hx
    cases w with
    | back f o => cases hr.symm.trans hr'
    | call c =>
      cases hr.symm.trans hr'
      rcases hact.newcomer hi ha with ⟨hcl, hs, rfl⟩ | ⟨h1, h2, h3, hn⟩
      · exact .inl ⟨hcl, hs, rfl⟩
      · exact .inr ⟨h1, h2, h3, hn.waits_in (hd.entering hk rfl) hy⟩
  | aside _ _ ha =>
    cases ha with
    | ends _ hr' => cases hr.symm.trans hr'
    | goesOn hn | lull hn | enters _ hn | spawns _ hn | releases _ hn | discards hn =>
      cases hr.symm.trans hn

end Moves

/-- Callers are served in the order in which they came: the later one of two in line is given no
connection and told of no failure to connect while the earlier one is pending, and a newcomer goes to
the end of the line without a look at what is idle or free. -/
theorem served_in_turn {settings : Config.PoolSettings} {l : State} (h : Reachable settings Freely l) :
    ∃ s, l.pool? Session.Pooling.number = some s ∧
      (∀ a b, [a, b].Sublist s.line → ∀ l', Steps Session.Pooling.number Freely l l' →
        ∃ s', l'.pool? Session.Pooling.number = some s' ∧
          (s'.Awaits a → b ∉ s'.served ∧ Unserved Session.Pooling.number l' b)) ∧
      ∀ t st l', l.running = some ⟨t, .lease, .call (.acquire Session.Pooling.number), st⟩ →
        l.step? = some l' → (∃ a, s.Awaits a) → s.idle = [] ∧
          ∃ s', l'.pool? Session.Pooling.number = some s' ∧
            (s.closed = true ∧ s' = s ∧
                l'.running = some ⟨t, .lease, .give (.error .poolClosed), st⟩ ∨
              s'.idle = [] ∧ s'.line = s.line ++ [t] ∧ s'.served = s.served ∧
                Waits Session.Pooling.number l' t) := by
  obtain ⟨s, hs, hl⟩ := Reachable.induction (I := Lined Session.Pooling.number) (.ofPool settings) (by
    intro l l' s hs hl hst
    obtain ⟨v, s', hm⟩ := hst.freely hs
    exact ⟨s', hm.sound hs, hl.move hs hm⟩) h
  refine ⟨s, hs.pool, fun a b hab l' hst => ?_, fun t st l' hr hl' ⟨a, ha⟩ => ?_⟩
  · have hmem : ∀ i, i = a ∨ i = b → i ∈ s.queue := fun i hi =>
      List.mem_append_left _ (hab.subset (by simpa using hi))
    have hb : Behind Session.Pooling.number a b l s :=
      ⟨fun i hi => hl.begun i (hmem i hi), fun _ => .inl hab,
        fun _ => hl.unserved b (hab.subset (by simp))⟩
    obtain ⟨s', hs', hl', hb'⟩ := Steps.induction
      (I := fun l s => Lined Session.Pooling.number l s ∧ Behind Session.Pooling.number a b l s) hs
      ⟨hl, hb⟩ (by
        rintro l l' s hs ⟨hl, hb⟩ hst
        obtain ⟨v, s', hm⟩ := hst.freely hs
        exact ⟨s', hm.sound hs, hl.move hs hm, hb.move hs hl hm⟩) hst
    refine ⟨s', hs'.pool, fun ha => ⟨fun hserved => ?_, hb'.unserved ha⟩⟩
    rcases hb'.place ha with hab | hq
    · exact (List.nodup_append.mp hl'.once).2.2 b (hab.subset (by simp)) b hserved rfl
    · exact hq (List.mem_append_right _ hserved)
  · have hi : s.idle = [] := hl.settled.resolve_right fun hn => hn a ha
    obtain ⟨s', hm⟩ := State.step_move (X := True) (Y := True) hs hl'
    exact ⟨hi, s', (hm.sound hs).pool, hm.newcomer hs hi ha hr⟩

theorem served_in_turn_thirdWaits : Reachable tight Freely thirdWaits ∧
    ∃ s, thirdWaits.pool? Session.Pooling.number = some s ∧ s.line = [2, 3] ∧ s.Awaits 2 ∧
      ∀ l', Steps Session.Pooling.number Freely thirdWaits l' →
        ∃ s', l'.pool? Session.Pooling.number = some s' ∧
          (s'.Awaits 2 → 3 ∉ s'.served ∧ Unserved Session.Pooling.number l' 3) := by
  have h : Reachable tight Freely thirdWaits :=
    thirdWaits_reachable (fun _ _ => trivial) fun _ => trivial
  have hw : (thirdWaits.pool? Session.Pooling.number).map (·.waiters) =
      some [⟨2, true⟩, ⟨3, true⟩] := rfl
  obtain ⟨s, hs, hl, _⟩ := served_in_turn h
  rw [hs, Option.map_some, Option.some.injEq] at hw
  have hline : s.line = [2, 3] := by rw [Pool.State.line, hw]; rfl
  exact ⟨h, s, hs, hline, ⟨⟨2, true⟩, by simp [hw], rfl, rfl⟩, hl 2 3 (by rw [hline])⟩

end SqliteAccess.Loop
