import SqliteAccess.Proofs.Life.Prepared

/-!
A connection keeps the number that it has got, and no other one ever has that number: none that is another pool's,
and none that is a manager's single connection.
-/

namespace SqliteAccess.Loop

open SqliteAccess.Pool (Handle Lease)

structure State.Numbered (l : State) : Prop where
  pools : ∀ p q c c', l.Has p c → l.Has q c' → c.id = c'.id → p = q
  alone : ∀ p c, l.Has p c → ∀ a ∈ l.alone, c.id ≠ a.id

variable {l l' m : State} {p q t : Nat} {h : Handle} {c : Lease} {past : List State}

theorem Accounts.has_lt (ha : Accounts past l) (hc : l.Has p c) : c.id < l.nextConnection := by
  obtain ⟨s, hs, hc⟩ := hc
  obtain ⟨x, hx, rfl⟩ := List.mem_map.mp hc
  exact (ha.sourced s (List.mem_of_getElem? hs)).2.2 x.id (List.mem_map_of_mem hx)

namespace State.Numbered

variable (hn : l.Numbered)

include hn in
theorem restocks (hr : Restocks l m) (ha : m.alone = l.alone) : m.Numbered := by
  refine ⟨fun p q c c' hc hc' => hn.pools p q c c' ((hr.has p c).mp hc) ((hr.has q c').mp hc'), fun p c hc a hin => ?_⟩
  exact hn.alone p c ((hr.has p c).mp hc) a (ha ▸ hin)

include hn in
theorem joins (ha : Accounts past l) (hm : ∀ q c, m.Has q c ↔ l.Has q c ∨ q = p ∧ c = ⟨l.nextConnection, h⟩)
    (hal : m.alone = l.alone) : m.Numbered := by
  have hne : ∀ {q c}, l.Has q c → c.id ≠ l.nextConnection := fun hc => Nat.ne_of_lt (ha.has_lt hc)
  refine ⟨fun q q' c c' hc hc' he => ?_, fun q c hc a hin => ?_⟩
  · rcases (hm q c).mp hc with hc | ⟨rfl, rfl⟩ <;> rcases (hm q' c').mp hc' with hc' | ⟨rfl, rfl⟩
    · exact hn.pools q q' c c' hc hc' he
    · exact absurd he (hne hc)
    · exact absurd he.symm (hne hc')
    · rfl
  · rw [hal] at hin
    rcases (hm q c).mp hc with hc | ⟨rfl, rfl⟩
    · exact hn.alone q c hc a hin
    · exact (Nat.ne_of_lt (ha.singled.fresh a hin)).symm

include hn in
theorem gets (ha : Accounts past l) (hr : Restocks l m) (hal : m.alone = l.alone ++ [⟨l.nextConnection, h⟩]) :
    m.Numbered := by
  refine ⟨fun p q c c' hc hc' => hn.pools p q c c' ((hr.has p c).mp hc) ((hr.has q c').mp hc'), fun p c hc a hin => ?_⟩
  have hc := (hr.has p c).mp hc
  rw [hal] at hin
  rcases List.mem_append.mp hin with hin | hin
  · exact hn.alone p c hc a hin
  · rw [List.mem_singleton.mp hin]
    exact Nat.ne_of_lt (ha.has_lt hc)

include hn in
theorem happens (hp : Primed past l) (hs : l.Happens State.Serves l') : l'.Numbered := by
  have ha := hp.accounts
  rcases hs.pauses with ⟨t, u, w, k, hr⟩ | ⟨_, hr, hu⟩
  · have hapt := ha.apt_or_hangs hr
    have hprimed := (hp.works hr).1
    have carried : ∀ {x : State} {n : Next u}, x.Numbered → (x.carryOn t n k).Numbered := fun {_ n} hx => by
      cases n <;> exact ⟨hx.pools, hx.alone⟩
    rw [hs.works hr]
    refine carried ?_
    by_cases hreg : w.Registers
    · cases w with
      | call => cases hreg
      | back f o =>
        cases f with
        | registering p =>
          cases o with
          | error => cases hreg
          | ok h =>
            have hlt : p < l.pools.length := hapt.resolve_right id
            exact hn.joins ha (fun q c => State.registering_has hlt h q c)
              ((Work.back (.registering p) (.ok h)).faithful id l).alone
        | _ => cases hreg
    · have hrest := w.restocks hreg hp.stocked hprimed
      by_cases hb : w.Binds
      · cases w with
        | call => cases hb
        | back f o =>
          cases f with
          | singleOpened M d =>
            cases o with
            | error => cases hb
            | ok h => exact hn.gets ha hrest (State.singleOpened_joined (hapt.resolve_right id) d h).alone
          | singleClosed M =>
            refine hn.restocks hrest ?_
            have hu := ((Tame.refl l).setLock M Access.Lock.release).toUnmoved.faithful.alone
            cases o <;> exact hu
          | start c => cases u <;> cases o <;> cases hb
          | _ => cases hb
      · exact hn.restocks hrest (w.faithful hb l).alone
  · exact hn.restocks hr hu.faithful.alone

end State.Numbered

theorem Course.numbered (hc : Course State.Serves l past m) (hl : l.Blank) : m.Numbered := by
  have none : ∀ {p c}, ¬ l.Has p c := fun ⟨_, hs, _⟩ => by
    rw [State.pool?, hl.pools] at hs
    cases hs
  refine (hc.induct (P := fun past m => Primed past m ∧ m.Numbered)
    ⟨hl.primed, fun _ _ _ _ hc => (none hc).elim, fun _ _ hc => (none hc).elim⟩
    fun _ _ _ _ ih hs => ⟨ih.1.happens hs, ih.2.happens ih.1 hs⟩).2

end SqliteAccess.Loop
