import SqliteAccess.Proofs.Pool.Kept

/-!
What becomes of single connections: an id is used for one connection only, and a connection that has
left the pool does not come back.
-/

namespace SqliteAccess.Pool.State

variable {s s' : State} {id i : Nat} {now : Float}

theorem find?_update (s : State) (id i : Nat) {f : Connection → Connection}
    (hf : ∀ c, (f c).live = c.live ∧ (f c).id = c.id) :
    (s.update id f).find? i = (s.find? i).map fun c => if c.id = id then f c else c := by
  unfold find? update
  rw [List.find?_map]
  congr 2
  funext c
  by_cases hc : c.id = id <;> simp [hc, hf]

theorem find?_id {c : Connection} (h : s.find? id = some c) : c.id = id := by
  have hc := List.find?_some h
  simp only [Bool.and_eq_true, decide_eq_true_iff] at hc
  exact hc.2

theorem find?_mem {c : Connection} (h : s.find? id = some c) : c ∈ s.connections :=
  List.mem_of_find?_eq_some h

theorem find?_of_mem (hn : (s.connections.map (·.id)).Nodup) {c : Connection} (hc : c ∈ s.live) :
    s.find? c.id = some c := by
  obtain ⟨hm, hl⟩ := List.mem_filter.mp hc
  cases hf : s.find? c.id with
  | none => exact absurd (List.find?_eq_none.mp hf c hm) (by simp [hl])
  | some c' =>
    exact congrArg some (List.inj_on_of_nodup_map hn (find?_mem hf) hm (find?_id hf))

theorem find?_without (s : State) (id i : Nat) :
    (s.without id).find? i = if i = id then none else s.find? i := by
  unfold find? without update
  dsimp only
  rw [List.find?_map]
  split
  next hi =>
    subst hi
    have hn : s.connections.find? ((fun c => c.live && decide (c.id = i)) ∘ fun c =>
        if c.id = i then { c with inUse := false, live := false } else c) = none := by
      rw [List.find?_eq_none]
      intro c _
      by_cases hc : c.id = i <;> simp [hc]
    rw [hn]
    rfl
  next hi =>
    have hp : ((fun c => c.live && decide (c.id = i)) ∘ fun c =>
        if c.id = id then { c with inUse := false, live := false } else c) =
          fun c : Connection => c.live && decide (c.id = i) := by
      funext c
      by_cases hc : c.id = id
      · simp [hc, Ne.symm hi]
      · simp [hc]
    rw [hp]
    cases hf : s.connections.find? fun c => c.live && decide (c.id = i) with
    | none => rfl
    | some c =>
      have hc := find?_id (s := s) hf
      have hne : c.id ≠ id := by rw [hc]; exact hi
      simp [hne]

theorem find?_register {s : State} {n : Nat} (hn : s.find? n = none) (h : Handle) (now : Float)
    (i : Nat) :
    (s.register n h now).find? i =
      if i = n then some { id := n, handle := h, releasedAt := now } else s.find? i := by
  unfold find? register
  rw [List.find?_append]
  split
  next hi =>
    subst hi
    rw [show s.connections.find? _ = none from hn]
    simp
  next hi =>
    have hl : [({ id := n, handle := h, releasedAt := now } : Connection)].find?
        (fun c => c.live && decide (c.id = i)) = none := by
      simp [Ne.symm hi]
    rw [hl, Option.or_none]

end SqliteAccess.Pool.State

namespace SqliteAccess.Pool.State

variable {s s' : State} {id i : Nat} {now : Float}

theorem find?_checkout (s : State) (id i : Nat) : (s.checkout id).find? i =
    (s.find? i).map fun c => if c.id = id then { c with inUse := true } else c :=
  s.find?_update id i fun _ => ⟨rfl, rfl⟩

theorem find?_rest (s : State) (id i : Nat) (now : Float) : (s.rest id now).find? i =
    (s.find? i).map fun c => if c.id = id then { c with inUse := false, releasedAt := now } else c :=
  s.find?_update id i fun _ => ⟨rfl, rfl⟩

theorem find?_setFree (s : State) (id i : Nat) : (s.setFree id).find? i =
    (s.find? i).map fun c => if c.id = id then { c with inUse := false } else c :=
  s.find?_update id i fun _ => ⟨rfl, rfl⟩

theorem update_ids (s : State) (id : Nat) {f : Connection → Connection} (hf : ∀ c, (f c).id = c.id) :
    (s.update id f).connections.map (·.id) = s.connections.map (·.id) := by
  unfold update
  rw [List.map_map]
  apply List.map_congr_left
  intro c _
  by_cases hc : c.id = id <;> simp [hc, hf]

def Gone (s : State) (N id : Nat) : Prop := id < N ∧ s.find? id = none

end SqliteAccess.Pool.State

namespace SqliteAccess.Loop

section Acts

variable {p t T N N' : Nat} {s s' : Pool.State} {u : Shape} {w : Work u} {cs : List (Call .unit)}
  {n : Next u}

theorem Act.next_le (h : Act p t T N s w s' N' cs n) : N ≤ N' := by
  cases h
  case registers => exact Nat.le_succ _
  all_goals exact Nat.le_refl _

theorem Act.ids (h : Act p t T N s w s' N' cs n) :
    s'.connections.map (·.id) = s.connections.map (·.id) ∧ N' = N ∨
      s'.connections.map (·.id) = s.connections.map (·.id) ++ [N] ∧ N' = N + 1 := by
  have checkin : ∀ {s s' : Pool.State} {id : Nat} {now : Float}, Pool.State.Checkin s id now s' →
      s'.connections.map (·.id) = s.connections.map (·.id) := by
    intro s s' id now hc
    cases hc with
    | serves => exact s.update_ids id fun _ => rfl
    | rests => exact s.update_ids id fun _ => rfl
  cases h
  case takes id _ ht =>
    rw [(Pool.State.takeIdle?_eq ht).2]
    exact .inl ⟨Pool.State.update_ids _ id fun _ => rfl, rfl⟩
  case lines h₁ hl =>
    subst h₁
    cases hl <;> exact .inl ⟨rfl, rfl⟩
  case openDone c _ => exact .inl ⟨Pool.State.update_ids _ c.id fun _ => rfl, rfl⟩
  case passesOn id e now _ =>
    exact .inl ⟨checkin (s := (s.takeUp t).leaveLine t) (((s.takeUp t).leaveLine t).checkin_spec id now), rfl⟩
  case registers =>
    refine .inr ⟨?_, rfl⟩
    simp [Pool.State.register, Pool.State.freeSlot]
  case backgroundFailed h₁ =>
    subst h₁
    exact .inl ⟨rfl, rfl⟩
  case backgroundDone c now _ =>
    exact .inl ⟨checkin (s := s.endBackground) (s.endBackground.checkin_spec c.id now), rfl⟩
  case removes id _ hr =>
    rw [(Pool.State.remove?_eq hr).2]
    exact .inl ⟨s.update_ids id fun _ => rfl, rfl⟩
  all_goals exact .inl ⟨rfl, rfl⟩

theorem Act.known (h : Act p t T N s w s' N' cs n) (hk : ∀ i ∈ s.connections.map (·.id), i < N) :
    ∀ i ∈ s'.connections.map (·.id), i < N' := by
  intro i hi
  rcases h.ids with ⟨he, hN⟩ | ⟨he, hN⟩
  · rw [he] at hi
    exact hN ▸ hk i hi
  · rw [he, List.mem_append, List.mem_singleton] at hi
    rcases hi with hi | rfl
    · have := hk i hi
      omega
    · omega

theorem Act.ids_once (h : Act p t T N s w s' N' cs n) (hk : ∀ i ∈ s.connections.map (·.id), i < N)
    (ho : (s.connections.map (·.id)).Nodup) : (s'.connections.map (·.id)).Nodup := by
  rcases h.ids with ⟨he, _⟩ | ⟨he, _⟩
  · exact he ▸ ho
  · rw [he]
    refine List.nodup_append.mpr ⟨ho, List.nodup_singleton _, fun i hi j hj hij => ?_⟩
    have := hk i hi
    rw [List.mem_singleton] at hj
    omega

theorem Act.stays_gone (h : Act p t T N s w s' N' cs n) (hk : ∀ i ∈ s.connections.map (·.id), i < N)
    {i : Nat} (hi : s.Gone N i) : s'.Gone N' i := by
  refine ⟨hi.1.trans_le h.next_le, ?_⟩
  obtain ⟨hlt, hf⟩ := hi
  have checkin : ∀ {s s' : Pool.State} {id : Nat} {now : Float}, Pool.State.Checkin s id now s' →
      s.find? i = none → s'.find? i = none := by
    intro s s' id now hc hf
    cases hc with
    | serves =>
      refine (s.find?_checkout id i).trans ?_
      rw [hf]
      rfl
    | rests =>
      refine (s.find?_rest id i now).trans ?_
      rw [hf]
      rfl
  cases h
  case takes ht =>
    rw [(Pool.State.takeIdle?_eq ht).2, Pool.State.find?_checkout]
    exact (congrArg _ hf).trans rfl
  case lines h₁ hl =>
    subst h₁
    cases hl <;> exact hf
  case openDone c _ =>
    rw [Pool.State.find?_checkout]
    exact (congrArg _ hf).trans rfl
  case passesOn id e now _ =>
    exact checkin (s := (s.takeUp t).leaveLine t) (((s.takeUp t).leaveLine t).checkin_spec id now) hf
  case registers c now =>
    have hN : s.freeSlot.find? N = none := by
      refine List.find?_eq_none.mpr fun c hc => ?_
      have := hk c.id (List.mem_map_of_mem hc)
      simp
      omega
    rw [Pool.State.find?_register hN, if_neg (by omega)]
    exact hf
  case backgroundFailed h₁ =>
    subst h₁
    exact hf
  case backgroundDone c now _ =>
    exact checkin (s := s.endBackground) (s.endBackground.checkin_spec c.id now) hf
  case removes id _ hr =>
    rw [(Pool.State.remove?_eq hr).2, Pool.State.find?_without]
    split
    · rfl
    · exact hf
  all_goals exact hf

end Acts

section Moves

variable {p : Nat} {X Y : Prop} {v : Option Event} {l l' : State} {s s' : Pool.State}

theorem Aside.ids (ha : Aside p X Y v l l' s s') :
    s'.connections.map (·.id) = s.connections.map (·.id) := by
  cases ha with
  | ends | goesOn | enters | spawns => rfl
  | lull _ hl => rw [hl.same]
  | @releases id now =>
    have hc := s.checkin_spec id now
    generalize (s.checkin id now).1 = s' at hc
    cases hc with
    | serves => exact s.update_ids id fun _ => rfl
    | rests => exact s.update_ids id fun _ => rfl
  | @discards id => exact s.update_ids id fun _ => rfl

theorem Aside.stays_gone (ha : Aside p X Y v l l' s s') {i : Nat} (hi : s.find? i = none) :
    s'.find? i = none := by
  cases ha with
  | ends | goesOn | enters | spawns => exact hi
  | lull _ hl =>
    rw [hl.same]
    exact hi
  | @releases id now =>
    have hc := s.checkin_spec id now
    generalize (s.checkin id now).1 = s' at hc
    cases hc with
    | serves =>
      refine (s.find?_checkout id i).trans ?_
      rw [hi]
      rfl
    | rests =>
      refine (s.find?_rest id i now).trans ?_
      rw [hi]
      rfl
  | @discards id =>
    refine (s.find?_setFree id i).trans ?_
    rw [hi]
    rfl

def Weight.premature (s : Pool.State) (N : Nat) : Weight where
  call _ := 0
  rest
    | .destroyed _ id => if id < N ∧ (s.find? id).isNone then 0 else 1
    | _ => 0

structure Listed (l : State) (s : Pool.State) : Prop where
  known : ∀ i ∈ s.connections.map (·.id), i < l.nextConnection
  once : (s.connections.map (·.id)).Nodup
  removed : (Weight.premature s l.nextConnection).total l = 0

theorem Weight.premature_below {s s' : Pool.State} {N N' : Nat}
    (h : ∀ i, s.Gone N i → s'.Gone N' i) : (premature s' N').Below (premature s N) := by
  refine ⟨fun _ => Nat.le_refl _, fun f => ?_⟩
  cases f with
  | destroyed q id =>
    by_cases hg : id < N ∧ (s.find? id).isNone
    · have hs := h id ⟨hg.1, Option.isNone_iff_eq_none.mp hg.2⟩
      simp [premature, hs.1, hs.2]
    · simp only [premature, if_neg hg]
      split <;> omega
  | _ => exact Nat.le_refl _

theorem Act.premature {t T N N' : Nat} {u : Shape} {w : Work u} {cs : List (Call .unit)} {n : Next u}
    (h : Act p t T N s w s' N' cs n) (hk : ∀ i ∈ s.connections.map (·.id), i < N) :
    (Weight.premature s' N').next n = 0 := by
  have drains : ∀ {s rest n}, Drains p s rest n → (Weight.premature s' N').next n = 0 := by
    intro s rest n hn
    cases hn <;> rfl
  cases h
  case lines hl => cases hl <;> rfl
  case removes id c hr =>
    obtain ⟨⟨c, hc⟩, rfl⟩ := Pool.State.remove?_eq hr
    have hlt : id < N := by
      rw [← Pool.State.find?_id hc]
      exact hk c.id (List.mem_map_of_mem (Pool.State.find?_mem hc))
    simp [Weight.next, Weight.frame, Weight.premature, Pool.State.find?_without, hlt]
  case evicts hn => cases hn <;> rfl
  case evictsOn hn => cases hn <;> rfl
  case reaps hn => cases hn <;> rfl
  case sweptOver hn => cases hn <;> rfl
  case shutsAtOnce hn => exact drains hn
  case clears hn => exact drains hn
  case drains hn => exact drains hn
  all_goals rfl

theorem Listed.move (h : Sound p l s) (hl : Listed l s) (hm : Move p X Y v l l' s s') :
    Listed l' s' := by
  cases hm with
  | @work u w d t k n cs m hr hd hk ha hch heq =>
    subst heq
    have hn : (m.carryOn t n k).nextConnection = m.nextConnection := by cases n <;> rfl
    have hids := ha.known hl.known
    have honce := ha.ids_once hl.known hl.once
    rw [← hn] at hids
    refine ⟨hids, honce, ?_⟩
    rw [hn]
    have ht := h.work_total (W := .premature s' m.nextConnection) (n := n) hr hch
    have hb := (Weight.premature_below fun i => ha.stays_gone hl.known (i := i)).total l
    have hcs : ∀ cs : List (Call .unit),
        (cs.map fun c => (Weight.premature s' m.nextConnection).call c).sum = 0 := by
      intro cs
      induction cs with
      | nil => rfl
      | cons c cs ih => exact (Nat.zero_add _).trans ih
    rw [hl.removed] at hb
    rw [ha.premature hl.known, hcs] at ht
    omega
  | aside _ hn ha =>
    refine ⟨by rw [ha.ids, hn]; exact hl.known, by rw [ha.ids]; exact hl.once, ?_⟩
    have hg : ∀ i, s.Gone l.nextConnection i → s'.Gone l.nextConnection i :=
      fun i hi => ⟨hi.1, ha.stays_gone hi.2⟩
    have hb := (Weight.premature_below hg).total l
    rw [hn, ha.total h fun _ => rfl]
    rw [hl.removed] at hb
    omega

theorem Listed.ofPool (settings : Config.PoolSettings) :
    Listed (.ofPool settings) (Pool.fresh settings) := by
  have ht : (State.ofPool settings).tasks = [] := rfl
  refine ⟨by simp [Pool.fresh], by simp [Pool.fresh], ?_⟩
  rw [Weight.total, ht]
  rfl

end Moves

end SqliteAccess.Loop
