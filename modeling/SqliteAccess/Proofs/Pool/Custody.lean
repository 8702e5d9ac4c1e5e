import SqliteAccess.Proofs.Pool.Connections
import SqliteAccess.Proofs.Pool.Sizes

/-!
Where the connections of a pool are: each rests, has been handed to a caller in line, is held by a
caller or is on its way through the task at work, and is in one such place only.
-/

namespace SqliteAccess.Pool.State

variable {s s' : State} {due due' : Nat → Prop} {held borne : List Nat} {id t : Nat} {now : Float}

def given (s : State) : List Nat := s.handed.map (·.2)

def UsedAs (s : State) (b : Bool) (id : Nat) : Prop := ∃ c, s.find? id = some c ∧ c.inUse = b

def places (s : State) (held borne : List Nat) : List Nat := s.idle ++ (s.given ++ (held ++ borne))

structure Sole (due : Nat → Prop) (held borne : List Nat) (s : State) : Prop where
  once : (s.places held borne).Nodup
  free : ∀ id ∈ s.idle, s.UsedAs false id
  used : ∀ id ∈ s.given ++ held, s.UsedAs true id
  live : ∀ id ∈ borne, ∃ b, s.UsedAs b id
  covered : ∀ id c, s.find? id = some c → id ∈ s.places held borne ∨ due id

theorem UsedAs.of_find (hf : s'.find? id = s.find? id) {b : Bool} (h : s.UsedAs b id) :
    s'.UsedAs b id := by
  obtain ⟨c, hc, hb⟩ := h
  exact ⟨c, hf.trans hc, hb⟩

theorem UsedAs.update {b : Bool} {i : Nat} {f : Connection → Connection}
    (hf : ∀ c, (f c).live = c.live ∧ (f c).id = c.id) (h : s.UsedAs b id) (hi : id ≠ i) :
    (s.update i f).UsedAs b id := by
  obtain ⟨c, hc, hb⟩ := h
  refine ⟨c, ?_, hb⟩
  rw [s.find?_update i id hf, hc, Option.map_some, find?_id hc, if_neg hi]

theorem usedAs_update {b b' : Bool} {f : Connection → Connection}
    (hf : ∀ c, (f c).live = c.live ∧ (f c).id = c.id) (hb : ∀ c, (f c).inUse = b')
    (h : s.UsedAs b id) : (s.update id f).UsedAs b' id := by
  obtain ⟨c, hc, _⟩ := h
  refine ⟨f c, ?_, hb c⟩
  rw [s.find?_update id id hf, hc, Option.map_some, find?_id hc, if_pos rfl]

theorem UsedAs.lt {N : Nat} (hk : ∀ i ∈ s.connections.map (·.id), i < N) {b : Bool}
    (hu : s.UsedAs b id) : id < N := by
  obtain ⟨c, hc, _⟩ := hu
  rw [← find?_id hc]
  exact hk c.id (List.mem_map_of_mem (find?_mem hc))

theorem UsedAs.check (hu : s.UsedAs true id) : s.checkRelease id = .ok () := by
  obtain ⟨c, hc, hb⟩ := hu
  simp [checkRelease, hc, hb]

theorem find?_of_update {i : Nat} {f : Connection → Connection} {c : Connection}
    (hf : ∀ c, (f c).live = c.live ∧ (f c).id = c.id) (h : (s.update i f).find? id = some c) :
    ∃ c', s.find? id = some c' := by
  rw [s.find?_update i id hf, Option.map_eq_some_iff] at h
  obtain ⟨c', hc, _⟩ := h
  exact ⟨c', hc⟩

theorem Checkin.places (h : s.Checkin id now s') :
    s'.idle = s.idle ∧ s'.given = s.given ++ [id] ∧
        s'.connections = (s.checkout id).connections ∨
      s'.idle = s.idle ++ [id] ∧ s'.given = s.given ∧
        s'.connections = (s.rest id now).connections := by
  cases h with
  | serves => exact .inl ⟨rfl, by simp [given], rfl⟩
  | rests => exact .inr ⟨rfl, rfl, rfl⟩

theorem given_takeUp (h : s.handedTo? t = some id) : s.given.Perm (id :: (s.takeUp t).given) := by
  unfold handedTo? at h
  unfold given takeUp
  dsimp only
  generalize s.handed = hs at h
  induction hs with
  | nil => cases h
  | cons x xs ih =>
    by_cases hx : x.1 = t
    · have hid : x.2 = id := by simpa [hx] using h
      simp [hx, hid]
    · have hp := ih (by simpa [hx] using h)
      simpa [hx] using (hp.cons x.2).trans (.swap _ _ _)

theorem takeUp_of_none (h : s.handedTo? t = none) : s.takeUp t = s := by
  have hn : ∀ x ∈ s.handed, x.1 ≠ t := by simpa [handedTo?] using h
  have he : s.handed.eraseP (fun p => p.1 = t) = s.handed :=
    List.eraseP_of_forall_not (by simpa using hn)
  rw [takeUp, he]

@[simp] theorem leaseOf_id (s : State) (id : Nat) : (s.leaseOf id).id = id := by
  unfold leaseOf
  cases hf : s.everFind? id with
  | none => rfl
  | some c =>
    have hc := List.find?_some hf
    exact of_decide_eq_true hc

namespace Sole

theorem congr (h : s.Sole due held borne) (hi : s'.idle = s.idle) (hg : s'.handed = s.handed)
    (hc : s'.connections = s.connections) (hd : ∀ id, due id → due' id) :
    s'.Sole due' held borne := by
  have hp : s'.places held borne = s.places held borne := by rw [places, given, hi, hg]; rfl
  have hf : ∀ id, s'.find? id = s.find? id := fun id => by rw [find?, hc]; rfl
  refine ⟨hp ▸ h.once, fun id hid => ?_, fun id hid => ?_, fun id hid => ?_, fun id c hid => ?_⟩
  · exact (h.free id (hi ▸ hid)).of_find (hf id)
  · rw [given, hg] at hid
    exact (h.used id hid).of_find (hf id)
  · exact (h.live id hid).imp fun _ hb => hb.of_find (hf id)
  · rw [hp]
    exact (h.covered id c (hf id ▸ hid)).imp_right (hd id)

-- The places may be listed in any order, so operations are told by permutations.
theorem moved {held' borne' : List Nat} (h : s.Sole due held borne)
    (hp : (s'.places held' borne').Perm (s.places held borne))
    (free : ∀ id ∈ s'.idle, s'.UsedAs false id) (used : ∀ id ∈ s'.given ++ held', s'.UsedAs true id)
    (live : ∀ id ∈ borne', ∃ b, s'.UsedAs b id)
    (hf : ∀ id c, s'.find? id = some c → ∃ c', s.find? id = some c') : s'.Sole due held' borne' := by
  refine ⟨hp.nodup_iff.mpr h.once, free, used, live, fun id c hc => ?_⟩
  obtain ⟨c', hc'⟩ := hf id c hc
  exact (h.covered id c' hc').imp_left hp.mem_iff.mpr

theorem idle_apart (h : s.Sole due held borne) (hid : id ∈ s.idle) :
    id ∉ s.given ++ (held ++ borne) :=
  fun hg => (List.nodup_append.mp h.once).2.2 id hid id hg rfl

theorem borne_apart (h : s.Sole due held borne) (hid : id ∈ borne) :
    id ∉ s.idle ∧ id ∉ s.given ++ held := by
  obtain ⟨_, hn, hd⟩ := List.nodup_append.mp h.once
  refine ⟨fun hi => hd id hi id (by simp [hid]) rfl, fun hg => ?_⟩
  rw [← List.append_assoc] at hn
  exact (List.nodup_append.mp hn).2.2 id hg id hid rfl

theorem borne_live (h : s.Sole due held [id]) : ∃ b, s.UsedAs b id :=
  h.live id (List.mem_singleton.mpr rfl)

theorem updated {held' borne' : List Nat} {b : Bool} {f : Connection → Connection}
    (h : s.Sole due held borne) (hf : ∀ c, (f c).live = c.live ∧ (f c).id = c.id)
    (hb : ∀ c, (f c).inUse = b) (hc : s'.connections = (s.update id f).connections)
    (hp : (s'.places held' borne').Perm (s.places held borne)) (hu : ∃ b, s.UsedAs b id)
    (free : ∀ i ∈ s'.idle, i ∈ s.idle ∧ i ≠ id ∨ i = id ∧ b = false)
    (used : ∀ i ∈ s'.given ++ held', i ∈ s.given ++ held ∧ i ≠ id ∨ i = id ∧ b = true)
    (live : ∀ i ∈ borne', i = id) : s'.Sole due held' borne' := by
  have hfind : ∀ i, s'.find? i = (s.update id f).find? i := fun i => by rw [find?, hc]; rfl
  obtain ⟨b', hu⟩ := hu
  have hid : s'.UsedAs b id := (usedAs_update hf hb hu).of_find (hfind id)
  refine h.moved hp (fun i hi => ?_) (fun i hi => ?_) (fun i hi => ?_) fun i c hi => ?_
  · rcases free i hi with ⟨hi, hne⟩ | ⟨rfl, rfl⟩
    · exact ((h.free i hi).update hf hne).of_find (hfind i)
    · exact hid
  · rcases used i hi with ⟨hi, hne⟩ | ⟨rfl, rfl⟩
    · exact ((h.used i hi).update hf hne).of_find (hfind i)
    · exact hid
  · rw [live i hi]
    exact ⟨b, hid⟩
  · rw [hfind] at hi
    exact find?_of_update hf hi

theorem takes (h : s.Sole due held []) (hi : s.idle = s'.idle ++ [id])
    (hs : s' = ({ s with idle := s'.idle } : State).checkout id) : s'.Sole due held [id] := by
  have hmem : id ∈ s.idle := by simp [hi]
  have hidle : id ∉ s'.idle := fun hm => by
    have hn := (List.nodup_append.mp h.once).1
    rw [hi] at hn
    exact (List.nodup_append.mp hn).2.2 id hm id (by simp) rfl
  have hout := h.idle_apart hmem
  have hgiven : s'.given = s.given := by rw [hs]; rfl
  refine h.updated (f := fun c => { c with inUse := true }) (fun _ => ⟨rfl, rfl⟩) (fun _ => rfl)
    (by rw [hs]; rfl) (List.perm_iff_count.mpr fun a => ?_) ⟨false, h.free id hmem⟩ ?_ ?_ ?_
  · simp only [places, hgiven, hi, List.count_append, List.count_nil]
    omega
  · exact fun i hm => .inl ⟨by simp [hi, hm], fun he => hidle (he ▸ hm)⟩
  · intro i hm
    rw [hgiven] at hm
    refine .inl ⟨hm, fun he => hout ?_⟩
    rw [← List.append_assoc]
    exact List.mem_append_left _ (he ▸ hm)
  · exact fun i hm => List.mem_singleton.mp hm

theorem checkout (h : s.Sole due held [id]) : (s.checkout id).Sole due held [id] := by
  obtain ⟨hidle, hout⟩ := h.borne_apart List.mem_cons_self
  refine h.updated (f := fun c => { c with inUse := true }) (fun _ => ⟨rfl, rfl⟩) (fun _ => rfl) rfl
    (.refl _) h.borne_live ?_ ?_ ?_
  · exact fun i hi => .inl ⟨hi, fun he => hidle (he ▸ hi)⟩
  · exact fun i hi => .inl ⟨hi, fun he => hout (he ▸ hi)⟩
  · exact fun i hi => List.mem_singleton.mp hi

theorem setFree (h : s.Sole due held [id]) : (s.setFree id).Sole due held [id] := by
  obtain ⟨hidle, hout⟩ := h.borne_apart List.mem_cons_self
  refine h.updated (f := fun c => { c with inUse := false }) (fun _ => ⟨rfl, rfl⟩) (fun _ => rfl) rfl
    (.refl _) h.borne_live ?_ ?_ ?_
  · exact fun i hi => .inl ⟨hi, fun he => hidle (he ▸ hi)⟩
  · exact fun i hi => .inl ⟨hi, fun he => hout (he ▸ hi)⟩
  · exact fun i hi => List.mem_singleton.mp hi

theorem checkin (h : s.Sole due held [id]) (hc : s.Checkin id now s') : s'.Sole due held [] := by
  obtain ⟨hidle, hout⟩ := h.borne_apart List.mem_cons_self
  rcases hc.places with ⟨hi, hg, hs⟩ | ⟨hi, hg, hs⟩
  · refine h.updated (f := fun c => { c with inUse := true }) (fun _ => ⟨rfl, rfl⟩) (fun _ => rfl) hs
      (List.perm_iff_count.mpr fun a => ?_) h.borne_live ?_ ?_ (by simp)
    · simp only [State.places, hi, hg, List.count_append, List.count_nil]
      omega
    · rw [hi]
      exact fun i hm => .inl ⟨hm, fun he => hidle (he ▸ hm)⟩
    · intro i hm
      by_cases he : i = id
      · exact .inr ⟨he, rfl⟩
      · exact .inl ⟨by simpa [hg, he] using hm, he⟩
  · refine h.updated (f := fun c => { c with inUse := false, releasedAt := now }) (fun _ => ⟨rfl, rfl⟩)
      (fun _ => rfl) hs (List.perm_iff_count.mpr fun a => ?_) h.borne_live ?_ ?_ (by simp)
    · simp only [State.places, hi, hg, List.count_append, List.count_nil]
      omega
    · intro i hm
      by_cases he : i = id
      · exact .inr ⟨he, rfl⟩
      · exact .inl ⟨by simpa [hi, he] using hm, he⟩
    · rw [hg]
      exact fun i hm => .inl ⟨hm, fun he => hout (he ▸ hm)⟩

theorem takeUp (h : s.Sole due held []) (ht : s.handedTo? t = some id) :
    (s.takeUp t).Sole due held [id] := by
  have hg := given_takeUp ht
  refine h.moved (List.perm_iff_count.mpr fun a => ?_) h.free (fun i hi => ?_) (fun i hi => ?_)
    fun i c hc => ⟨c, hc⟩
  · have hcount := hg.count_eq a
    have hidle : (s.takeUp t).idle = s.idle := rfl
    simp only [State.places, hidle, List.count_append, List.count_cons, List.count_nil] at hcount ⊢
    omega
  · apply h.used i
    rcases List.mem_append.mp hi with hi | hi
    · exact List.mem_append_left _ (hg.mem_iff.mpr (List.mem_cons_of_mem _ hi))
    · exact List.mem_append_right _ hi
  · rw [List.mem_singleton.mp hi]
    exact ⟨true, h.used id (List.mem_append_left _ (hg.mem_iff.mpr List.mem_cons_self))⟩

theorem register (h : s.Sole due held []) {n : Nat} (hn : s.find? n = none) (c : Handle) :
    (s.register n c now).Sole due held [n] := by
  have hne : ∀ {i b}, s.UsedAs b i → i ≠ n := by
    rintro i b ⟨c, hc, _⟩ rfl
    exact absurd hc (by simp [hn])
  have keep : ∀ {i b}, s.UsedAs b i → (s.register n c now).UsedAs b i := by
    intro i b hu
    exact hu.of_find (by rw [find?_register hn, if_neg (hne hu)])
  have hnew : (s.register n c now).find? n = some { id := n, handle := c, releasedAt := now } := by
    rw [find?_register hn, if_pos rfl]
  have hout : n ∉ s.places held [] := by
    intro hm
    rcases List.mem_append.mp hm with hm | hm
    · exact hne (h.free n hm) rfl
    · exact hne (h.used n (by simpa using hm)) rfl
  have hp : ((s.register n c now).places held [n]).Perm (n :: s.places held []) := by
    apply List.perm_iff_count.mpr
    intro a
    have hidle : (s.register n c now).idle = s.idle := rfl
    have hgiven : (s.register n c now).given = s.given := rfl
    simp only [places, hidle, hgiven, List.count_append, List.count_cons, List.count_nil]
    omega
  refine ⟨hp.nodup_iff.mpr (List.nodup_cons.mpr ⟨hout, h.once⟩), fun i hi => keep (h.free i hi),
    fun i hi => keep (h.used i hi), fun i hi => ?_, fun i x hi => ?_⟩
  · rw [List.mem_singleton.mp hi]
    exact ⟨_, _, hnew, rfl⟩
  · rw [hp.mem_iff]
    rw [find?_register hn] at hi
    split at hi
    next he => exact .inl (he ▸ List.mem_cons_self)
    next => exact (h.covered i x hi).imp_left (List.mem_cons_of_mem n)

theorem without (h : s.Sole due held []) (hid : id ∉ s.given ++ held)
    (hd : ∀ i, due i → due' i ∨ i = id) : (s.without id).Sole due' held [] := by
  obtain ⟨hidle, hout, hboth⟩ := List.nodup_append.mp h.once
  have keep : ∀ {i b}, i ≠ id → s.UsedAs b i → (s.without id).UsedAs b i := by
    intro i b hne hu
    exact hu.of_find (by rw [find?_without, if_neg hne])
  refine ⟨h.once.sublist (List.erase_sublist.append_right _), fun i hi => ?_, fun i hi => ?_,
    by simp, fun i c hi => ?_⟩
  · obtain ⟨hne, hi⟩ := hidle.mem_erase_iff.mp hi
    exact keep hne (h.free i hi)
  · exact keep (fun he => hid (he ▸ hi)) (h.used i hi)
  · rw [find?_without] at hi
    split at hi
    next => cases hi
    next hne =>
      rcases h.covered i c hi with hm | hm
      · left
        rcases List.mem_append.mp hm with hm | hm
        · exact List.mem_append_left _ ((List.mem_erase_of_ne hne).mpr hm)
        · exact List.mem_append_right _ hm
      · exact .inr ((hd i hm).resolve_right hne)

theorem drop (h : s.Sole due held borne) (hd : ∀ i, due i ∨ i ∈ borne → due' i) :
    s.Sole due' held [] := by
  have hp : (s.places held borne).Perm (borne ++ s.places held []) := by
    apply List.perm_iff_count.mpr
    intro a
    simp only [places, List.count_append, List.count_nil]
    omega
  refine ⟨(List.nodup_append.mp (hp.nodup_iff.mp h.once)).2.1, h.free, h.used, by simp,
    fun i c hi => ?_⟩
  rcases h.covered i c hi with hm | hm
  · rcases List.mem_append.mp (hp.mem_iff.mp hm) with hm | hm
    · exact .inr (hd i (.inr hm))
    · exact .inl hm
  · exact .inr (hd i (.inl hm))

theorem gets {held' : List Nat} (h : s.Sole due held [id]) (hu : s.UsedAs true id)
    (hp : held'.Perm (id :: held)) : s.Sole due held' [] := by
  refine h.moved (List.perm_iff_count.mpr fun a => ?_) h.free (fun i hi => ?_) (by simp)
    fun i c hc => ⟨c, hc⟩
  · have hcount := hp.count_eq a
    simp only [places, List.count_append, List.count_cons, List.count_nil] at hcount ⊢
    omega
  · rcases List.mem_append.mp hi with hi | hi
    · exact h.used i (List.mem_append_left _ hi)
    · rcases List.mem_cons.mp (hp.mem_iff.mp hi) with rfl | hi
      · exact hu
      · exact h.used i (List.mem_append_right _ hi)

theorem gives {held' : List Nat} (h : s.Sole due held []) (hp : held.Perm (id :: held')) :
    s.Sole due held' [id] := by
  refine h.moved (List.perm_iff_count.mpr fun a => ?_) h.free (fun i hi => ?_) (fun i hi => ?_)
    fun i c hc => ⟨c, hc⟩
  · have hcount := hp.count_eq a
    simp only [places, List.count_append, List.count_cons, List.count_nil] at hcount ⊢
    omega
  · apply h.used i
    rcases List.mem_append.mp hi with hi | hi
    · exact List.mem_append_left _ hi
    · exact List.mem_append_right _ (hp.mem_iff.mpr (List.mem_cons_of_mem _ hi))
  · rw [List.mem_singleton.mp hi]
    exact ⟨true, h.used id (List.mem_append_right _ (hp.mem_iff.mpr List.mem_cons_self))⟩

theorem finds (h : s.Sole due held []) (hu : s.UsedAs true id) (hid : id ∉ s.given ++ held) :
    s.Sole due held [id] := by
  have hout : id ∉ s.places held [] := by
    intro hm
    rcases List.mem_append.mp hm with hm | hm
    · obtain ⟨c, hc, hb⟩ := h.free id hm
      obtain ⟨c', hc', hb'⟩ := hu
      cases hc.symm.trans hc'
      cases hb.symm.trans hb'
    · rw [List.append_nil] at hm
      exact hid hm
  have hp : (s.places held [id]).Perm (id :: s.places held []) := by
    apply List.perm_iff_count.mpr
    intro a
    simp only [places, List.count_append, List.count_cons, List.count_nil]
    omega
  refine ⟨hp.nodup_iff.mpr (List.nodup_cons.mpr ⟨hout, h.once⟩), h.free, h.used, fun i hi => ?_,
    fun i c hc => ?_⟩
  · rw [List.mem_singleton.mp hi]
    exact ⟨true, hu⟩
  · exact (h.covered i c hc).imp_left fun hm => hp.mem_iff.mpr (List.mem_cons_of_mem id hm)

end Sole

end SqliteAccess.Pool.State
