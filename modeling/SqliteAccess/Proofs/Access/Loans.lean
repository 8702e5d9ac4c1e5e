import SqliteAccess.Proofs.Access.Ground

/-!
What callers have borrowed from the pool under a manager, and where it goes when it is given back.
-/

namespace SqliteAccess.Loop

open Access (Database)
open SqliteAccess.Pool (Lease)

def holdings (f : Nat → Option Lease) (n : Nat) : List Nat :=
  (List.range n).filterMap fun t => (f t).map (·.id)

section Holdings

variable {f : Nat → Option Lease} {n m i : Nat} {c : Lease}

theorem mem_holdings {j : Nat} : j ∈ holdings f n ↔ ∃ t < n, ∃ c, f t = some c ∧ c.id = j := by
  simp [holdings, List.mem_filterMap]

theorem holdings_of_le (hn : n ≤ m) (hf : ∀ t, n ≤ t → f t = none) : holdings f m = holdings f n := by
  obtain ⟨d, rfl⟩ := Nat.exists_eq_add_of_le hn
  have hnew : (List.range d).filterMap ((fun t => (f t).map (·.id)) ∘ (n + ·)) = [] := by
    refine List.filterMap_eq_nil_iff.mpr fun j _ => ?_
    simp [hf (n + j) (Nat.le_add_right n j)]
  rw [holdings, holdings, List.range_add, List.filterMap_append, List.filterMap_map, hnew, List.append_nil]

theorem holdings_gains (hi : i < n) (hf : f i = none) (c : Lease) :
    (holdings (Function.update f i (some c)) n).Perm (c.id :: holdings f n) := by
  refine filterMap_perm_cons List.nodup_range (List.mem_range.mpr hi) ?_ ?_ fun j hj => ?_
  · simp [hf]
  · simp
  · simp [Function.update_of_ne hj]

theorem holdings_loses (hi : i < n) (hf : f i = some c) :
    (holdings f n).Perm (c.id :: holdings (Function.update f i none) n) := by
  have h := holdings_gains (f := Function.update f i none) hi (Function.update_self ..) c
  rwa [Function.update_idem, Function.update_eq_self_iff.mpr hf.symm] at h

theorem eq_of_holdings {j : Nat} {a b : Lease} (hn : (holdings f n).Nodup) (hi : i < n) (hj : j < n)
    (ha : f i = some a) (hb : f j = some b) (hid : a.id = b.id) : i = j := by
  by_contra hne
  have hout := (List.nodup_cons.mp ((holdings_loses hi ha).nodup_iff.mp hn)).1
  refine hout (mem_holdings.mpr ⟨j, hj, b, ?_, hid.symm⟩)
  rw [Function.update_of_ne (Ne.symm hne), hb]

end Holdings

variable {M p t i : Nat} {d : Database} {l l' m : State} {s s' : Pool.State} {u : Shape} {w : Work u}
  {k : Stack u} {n : Next u} {c : Call u} {cs : List (Call .unit)} {held held' : List Nat}

abbrev Stowed (held : List Nat) (l : State) (s : Pool.State) : Prop := Placed (fun _ => True) held l s

namespace Stowed

variable (ho : Stowed held l s)

include ho in
theorem drops (hi : s'.idle = s.idle) (hg : s'.handed = s.handed) (hc : s'.connections = s.connections)
    (hcl : s'.closed = s.closed) (hN : l'.nextConnection = l.nextConnection)
    (hb : l'.brings = [] ∨ l'.brings = l.brings)
    (hof : ∀ i j, (Weight.dooms i).of l' j ≤ (Weight.dooms i).of l j)
    (hfront : ∀ i j, l.front (.dooms i) j = 0) : Stowed held l' s' := by
  rcases hb with hb | hb
  · have hgiven : s'.given = s.given := by rw [Pool.State.given, hg]; rfl
    refine ⟨?_, fun i hdoomed => ?_, fun hopen i j => ?_⟩
    · rw [hb]
      exact (ho.sole.drop fun _ _ => trivial).congr hi hg hc fun _ => id
    · obtain ⟨j, hj⟩ := hdoomed
      obtain ⟨hlt, hout⟩ := ho.doomed i ⟨j, hj.trans_le (hof i j)⟩
      rw [hgiven, hb, hN, List.append_nil]
      simp only [List.mem_append, not_or] at hout ⊢
      exact ⟨hlt, hout.1, hout.2.1⟩
    · have hle := ho.early (hcl ▸ hopen) i j
      rw [hfront] at hle
      have := hof i j
      omega
  · exact ho.still hi hg hc hcl hN hb hof hfront fun _ => id

include ho in
theorem loses (hb : l.brings = []) (hp : held.Perm (i :: held')) :
    Stowed held' l s ∧ s.Sole (fun _ => True) held' [i] ∧ ¬ l.Doomed i := by
  have hs := ho.sole
  rw [hb] at hs
  have hmem : i ∈ held := hp.mem_iff.mpr List.mem_cons_self
  refine ⟨⟨?_, fun j hj => ?_, ho.early⟩, hs.gives hp, fun hd => ?_⟩
  · rw [hb]
    exact (hs.gives hp).drop fun _ _ => trivial
  · obtain ⟨hlt, hout⟩ := ho.doomed j hj
    rw [hb, List.append_nil] at hout ⊢
    simp only [List.mem_append, hp.mem_iff, List.mem_cons, not_or] at hout ⊢
    exact ⟨hlt, hout.1, hout.2.2⟩
  · exact (ho.doomed i hd).2 (List.mem_append_right _ (List.mem_append_left _ hmem))

end Stowed

theorem Released.dooms (hrel : Released p i l m s s' cs)
    (hlt : ∀ r, l.running = some r → r.task < l.tasks.length) (j a : Nat) :
    (Weight.dooms j).of m a ≤ (Weight.dooms j).of l a ∨ s.closed = true ∧ i = j := by
  have hc := hrel.changed
  by_cases ha : a < l.tasks.length
  · exact .inl (hc.weight_of ha).le
  by_cases ha' : a < l.tasks.length + cs.length
  · obtain ⟨e, rfl⟩ := Nat.exists_eq_add_of_le (Nat.le_of_not_lt ha)
    have he : e < cs.length := by omega
    rw [hc.weight_new hlt e he]
    cases hrel with
    | rests => exact absurd he (Nat.not_lt_zero e)
    | leaves hcl =>
      obtain rfl : e = 0 := by simpa using he
      by_cases hij : i = j
      · exact .inr ⟨hcl, hij⟩
      · exact .inl (by simp [Weight.dooms, hij])
  · refine .inl ?_
    rw [Weight.of_eq_zero (fun r hr => ?_) (by rw [hc.length]; omega)]
    · exact Nat.zero_le _
    · rw [hc.length]
      have := hlt r (hc.running ▸ hr)
      omega

theorem Stowed.released (ho : Stowed held l s) (hg : Grounded M p d l s)
    (hs : s.Sole (fun _ => True) held [i]) (hd : s.closed = false → ¬ l.Doomed i)
    (hrel : Released p i l m s s' cs) (hb : l.brings = []) (hb' : l'.brings = [])
    (hN : l'.nextConnection = l.nextConnection) (hfront : ∀ i j, l.front (.dooms i) j = 0)
    (hof : ∀ j a, (Weight.dooms j).of l' a ≤ (Weight.dooms j).of m a) : Stowed held l' s' := by
  have hw : ∀ j a, (Weight.dooms j).of l' a ≤ (Weight.dooms j).of l a ∨ s.closed = true ∧ i = j :=
    fun j a => (hrel.dooms (fun _ => hg.running_lt) j a).imp_left (hof j a).trans
  have hdoom : ∀ j, l'.Doomed j → l.Doomed j ∨ s.closed = true ∧ i = j := by
    rintro j ⟨a, ha⟩
    exact (hw j a).imp_left fun hle => ⟨a, ha.trans_le hle⟩
  obtain ⟨_, hout⟩ := hs.borne_apart List.mem_cons_self
  have hlt : i < l.nextConnection := hs.borne_live.elim fun _ hu => hu.lt hg.known
  have old : ∀ {j}, l.Doomed j → j < l.nextConnection ∧ j ∉ s.given ++ held := fun hj => by
    obtain ⟨hlt, hj⟩ := ho.doomed _ hj
    rw [hb, List.append_nil] at hj
    exact ⟨hlt, hj⟩
  refine ⟨?_, fun j hj => ?_, fun hopen j a => ?_⟩
  · rw [hb']
    cases hrel with
    | rests now => exact hs.checkin (s.checkin_spec i now)
    | leaves => exact (hs.setFree.drop fun _ _ => trivial).congr rfl rfl rfl fun _ => id
  · rw [hb', hN, List.append_nil]
    rcases hdoom j hj with hj | ⟨hcl, rfl⟩
    · obtain ⟨hlt, hj'⟩ := old hj
      refine ⟨hlt, ?_⟩
      cases hrel with
      | rests now hopen =>
        have hne : j ≠ i := fun he => hd hopen (he ▸ hj)
        rcases (s.checkin_spec i now).places with ⟨_, hgiven, _⟩ | ⟨_, hgiven, _⟩
        · simpa [hgiven, hne] using hj'
        · rwa [hgiven]
      | leaves => exact hj'
    · refine ⟨hlt, ?_⟩
      cases hrel with
      | rests _ hopen => cases hcl.symm.trans hopen
      | leaves => exact hout
  · have hcl : s.closed = false := hrel.constant.2.1 ▸ hopen
    have hle := ho.early hcl j a
    rw [hfront] at hle
    rcases hw j a with hw | ⟨hcl', _⟩
    · omega
    · cases hcl.symm.trans hcl'

end SqliteAccess.Loop
