import SqliteAccess.Proofs.Pool.Drain

/-!
The tasks that work for a pool in the background open or destroy one connection each, and wait for nothing but the
driver.
-/

namespace SqliteAccess.Loop

def Weight.lingering : Weight where
  call
    | .acquire _ | .reap _ | .closePool _ => 1
    | _ => 0
  rest
    | .opened _ | .inLine _ | .rested _ _ | .swept _ _ | .reaperEnded _ | .draining _ _ | .backgroundEnded _ => 1
    | _ => 0

theorem Weight.lingering_rooted (p : Nat) : lingering.Rooted p :=
  ⟨fun h => by cases h <;> rfl, fun h => by cases h <;> rfl, fun _ => rfl⟩

def Staffed (l : State) (s : Pool.State) : Prop :=
  ∀ j ∈ s.background, j < l.tasks.length ∧ Weight.lingering.of l j = 0

theorem Staffed.ofPool (settings : Config.PoolSettings) : Staffed (.ofPool settings) (Pool.fresh settings) := by
  have hb : (Pool.fresh settings).background = [] := rfl
  simp [Staffed, hb]

section Acts

variable {p t T N N' j : Nat} {s s' : Pool.State} {u : Shape} {w : Work u} {cs : List (Call .unit)} {n : Next u}

theorem Pool.State.mem_expand {s : Pool.State} {T n : Nat} (h : j ∈ (s.expand T n).background) :
    j ∈ s.background ∨ ∃ i < n, j = T + i := by
  rcases List.mem_append.mp h with h | h
  · exact .inl h
  · obtain ⟨i, hi, rfl⟩ := List.mem_range'.mp h
    exact .inr ⟨i, hi, by omega⟩

theorem getElem_openers {r : Except Failure Nat} {cs : List (Call .unit)} {i : Nat} (hi : i < opens r) :
    ∃ h : cs.length + i < (cs ++ openers p r).length, (cs ++ openers p r)[cs.length + i] = .openBackground p := by
  have hlt : cs.length + i < (cs ++ openers p r).length := by simpa [openers] using hi
  exact ⟨hlt, by simp [openers]⟩

theorem Act.staff (h : Act p t T N s w s' N' cs n) (hj : j ∈ s'.background) :
    j ∈ s.background ∨ ∃ i, j = T + i ∧ ∃ hi : i < cs.length, cs[i] = .openBackground p := by
  have grown : ∀ {q : Pool.State} {r : Except Failure Nat} (cs' : List (Call .unit)), q.background = s.background →
      cs = cs' ++ openers p r → j ∈ (q.expand (T + cs'.length) (Loop.opens r)).background →
      j ∈ s.background ∨ ∃ i, j = T + i ∧ ∃ hi : i < cs.length, cs[i] = .openBackground p := by
    rintro q r cs' hq rfl hm
    rcases Pool.State.mem_expand hm with hm | ⟨i, hi, rfl⟩
    · exact .inl (hq ▸ hm)
    · exact .inr ⟨cs'.length + i, Nat.add_assoc .., getElem_openers hi⟩
  cases h
  case takes ht =>
    rw [(Pool.State.takeIdle?_eq ht).2] at hj
    exact .inl hj
  case lines h₁ hst =>
    subst h₁
    refine grown (q := (s.awake T).enqueue t) (starters p s) rfl rfl ?_
    cases hst <;> exact hj
  case openFailed => exact grown [] rfl rfl hj
  case openDone n _ hs => exact grown (r := s.shortfall) [] rfl rfl (by rw [hs]; exact hj)
  case passesOn id _ now _ =>
    have hs := ((s.takeUp t).leaveLine t).checkin_spec id now
    generalize (((s.takeUp t).leaveLine t).checkin id now).1 = s' at hs hj
    cases hs <;> exact .inl hj
  case backgroundFailed h₁ => exact grown (q := s.endBackground.failFirst.1) [] rfl rfl (h₁ ▸ hj)
  case backgroundDone c now _ =>
    have hs := s.endBackground.checkin_spec c.id now
    generalize (s.endBackground.checkin c.id now).1 = s' at hs hj
    cases hs <;> exact .inl hj
  case removes hr =>
    rw [(Pool.State.remove?_eq hr).2] at hj
    exact .inl hj
  case destroyed => exact grown [] rfl rfl hj
  case sweptOver hs _ => exact grown (r := s.shortfall) [] rfl rfl (by rw [hs]; exact hj)
  all_goals exact .inl hj

end Acts

theorem Move.rooted_le {p : Nat} {X Y : Prop} {v : Option Event} {l l' : State} {s s' : Pool.State} (h : Sound p l s)
    (hm : Move p X Y v l l' s s') {W : Weight} (hW : W.Rooted p) {i : Nat} (hi : i < l.tasks.length) :
    W.of l' i ≤ W.of l i := by
  cases hm with
  | work hr hd _ ha hc heq => exact heq ▸ h.rooted_le hr hd (ha.keeps hd) hc hW hi
  | aside _ _ ha => exact (ha.weight_of h hi).le

theorem Staffed.move {p : Nat} {X Y : Prop} {v : Option Event} {l l' : State} {s s' : Pool.State} (h : Sound p l s)
    (hs : Staffed l s) (hm : Move p X Y v l l' s s') : Staffed l' s' := by
  intro j hj
  have old : j ∈ s.background → j < l'.tasks.length ∧ Weight.lingering.of l' j = 0 := by
    intro hj
    obtain ⟨hlt, h0⟩ := hs j hj
    exact ⟨hlt.trans_le hm.grows.1, Nat.le_zero.mp (h0 ▸ hm.rooted_le h (Weight.lingering_rooted p) hlt)⟩
  cases hm with
  | @work u w d t k n cs m hr hd hk ha hc heq =>
    subst heq
    rcases ha.staff hj with hj | ⟨i, rfl, hi, hcall⟩
    · exact old hj
    · refine ⟨?_, ?_⟩
      · rw [State.carryOn_length, hc.length]
        exact Nat.add_lt_add_left hi _
      · rw [(h.work_weight hr hc).2.2 i hi, hcall]
        rfl
  | aside _ _ ha =>
    cases ha with
    | ends | goesOn | enters | spawns => exact old hj
    | lull _ hl => exact old (hl.staff hj)
    | @releases id now =>
      have hc := s.checkin_spec id now
      generalize (s.checkin id now).1 = s' at hc hj
      cases hc <;> exact old hj
    | @discards id hr _ _ hc =>
      rcases List.mem_append.mp hj with hj | hj
      · exact old hj
      · obtain rfl := List.mem_singleton.mp hj
        refine ⟨by simp [hc.length], ?_⟩
        exact (hc.weight_new (by simp [hr]) 0 (by simp)).trans rfl

end SqliteAccess.Loop
