import SqliteAccess.Proofs.Access.Mutex

/-!
A manager with one connection: nobody has it with somebody else, and whoever waits for it has it in
turn, until the manager is shut down. The lock survives that unless somebody is in line.
-/

namespace SqliteAccess.Loop

open SqliteAccess.Pool (Lease)

variable {careless : Prop} {M : Nat} {c : Lease} {l : State} {x y : Desk}

/-- One connection, one holder: `c` is what the clients of the manager share. -/
structure Desk.Shares (M : Nat) (c : Lease) (x : Desk) : Prop where
  one : ∀ i j a b, x.lease? i = some a → x.lease? j = some b → i = j
  holder : ∀ i a, x.lease? i = some a → a = c ∧ x.loop.inUse c.id = true ∧ x.loop.singleOf M = some c.id
  locked : x.loop.inUse c.id = true → (x.loop.lockOf M).locked = true
  /-- Who has obtained the lock, and who still stands in line, has asked for it in this order. -/
  order : (x.obtained M ++ (x.loop.lockOf M).standing).Sublist (x.asked M)
  /-- None of the others that have asked is left out, but for those cancelled in line. -/
  counted : (x.asked M).Perm (x.obtained M ++ (x.quit M ++ (x.loop.lockOf M).line.map (·.1)))
  used : (x.used M).Sublist (x.obtained M)
  closing : ∀ t h k, x.loop.running = some ⟨t, .unit, .call (.hangUp h), k⟩ →
    (x.loop.lockOf M).locked = true ∧ ∀ i, x.lease? i = none
  /-- The lock stays taken as long as the close that has been asked for waits, though the connection is not
  in use. -/
  awaiting : ∀ t, x.loop.hangingUp t = true →
    (x.loop.lockOf M).locked = true ∧ x.loop.inUse c.id = false ∧ ∀ i, x.lease? i = none
  /-- Whoever gives back what is not in use is refused, and nothing changes. -/
  refused : ∀ a : Lease, (a.id = c.id → x.loop.inUse c.id = false) →
    x.loop.giveBack M (some a) = (x.loop, .error (.notCheckedOut (Pool.connectionName a.id)))

namespace Desk.Guarded

variable (h : x.Guarded careless M c)

include h in
theorem bearer_of_hangUp {t : Nat} {hd : Pool.Handle} {k : Stack .unit}
    (hr : x.loop.running = some ⟨t, .unit, .call (.hangUp hd), k⟩) : (x.guard M c).bears t = true := by
  have hk : k.Bears M .single (.hangUp hd) := (h.tended.running _ hr).1
  cases hk with
  | done hs => cases hs
  | push hf _ =>
    cases hf
    simp [Desk.guard, State.bears, hr, Running.bears, Stack.bars]

include h in
theorem giveBack_refused {a : Lease} (hu : a.id = c.id → x.loop.inUse c.id = false) :
    x.loop.giveBack M (some a) = (x.loop, .error (.notCheckedOut (Pool.connectionName a.id))) := by
  obtain ⟨k, hk, hpool⟩ := h.manager
  have hgive : x.loop.giveBack M (some a) = x.loop.releaseSingle M a.id := by
    simp [State.giveBack, hk, hpool]
  rw [hgive]
  refine h.releaseSingle_refused a.id fun hs => ?_
  rcases h.sound.single with hn | hc
  · cases hs.symm.trans hn
  · have he : a.id = c.id := Option.some.inj (hs.symm.trans hc)
    rw [he]
    exact hu he

include h in
theorem shares : x.Shares M c := by
  have hheld := h.sound.held
  refine ⟨fun i j a b hi hj => ?_, fun i a hi => ?_, fun hu => ?_, h.sound.line.fifo, h.sound.line.all,
    h.sound.line.turns, fun t hd k hr => ?_, fun t ht => ?_, fun a hu => h.giveBack_refused hu⟩
  · obtain ⟨_, _, _, ho, _⟩ := hheld.has hi
    by_contra hne
    cases hj.symm.trans (ho j (Ne.symm hne))
  · obtain ⟨_, _, ha, _, hu, hs, _⟩ := hheld.has hi
    exact ⟨ha, hu, hs⟩
  · cases hheld with
    | free _ _ _ h | passing _ _ _ _ h | stuck _ _ _ h => cases h.symm.trans hu
    | lent hk | lost _ hk => exact hk
  · obtain ⟨hk, _, hl, _⟩ := hheld.bears (h.bearer_of_hangUp hr)
    exact ⟨hk, hl⟩
  · obtain ⟨hk, _, hl, hu, _⟩ := hheld.bears (t := t) (Bool.or_eq_true_iff.mpr (.inl ht))
    exact ⟨hk, hu, hl⟩

end Desk.Guarded

theorem State.Reaches.guarded (h : l.Reaches M .single careless x) (hc : l.shared? M = some c) :
    x.Guarded careless M c :=
  Desk.Steps.guarded h.steps (h.setUp.guarded h.idle hc)

/-- Whatever its clients do, the one connection of a manager is shared in order. -/
theorem shared_in_turn (h : l.Reaches M .single careless x) (hc : l.shared? M = some c) :
    x.Shares M c :=
  (h.guarded hc).shares

def sharing : State :=
  (({ managers := [{}] } : State).spawn (.setUp 0 (some { filename := "f" }) .single) []).1.settleWithin 20

theorem sharing_ready :
    sharing.Idle ∧ sharing.SetUp 0 .single ∧ sharing.shared? 0 = some ⟨1, .numbered 1⟩ := by
  refine ⟨⟨rfl, fun i k hk => ?_⟩, ⟨_, _, _, rfl, rfl, rfl, rfl, rfl, rfl, rfl⟩, rfl⟩
  match i with
  | 0 =>
    cases hk
    exact ⟨⟨_, _, rfl⟩, rfl, nofun⟩
  | n + 1 => cases hk

def inLine : Desk :=
  let x := (({ loop := sharing } : Desk).called (.borrow 0)).called (.shutDown 0)
  let x := (x.called (.borrow 0)).called (.borrow 0)
  ({ x with loop := x.loop.cancel 3 } : Desk).settle 20

def closesLate (l : State) : State :=
  l.modifyEngine fun e => { e with
    rules := [], openings := [], closings := [{ hold := true, fault := some ⟨"OperationalError", "disk I/O error"⟩ }] }

def closeAwaited : Desk :=
  ({ inLine with
      loop := ((closesLate inLine.loop).giveBack 0 (some ⟨1, .numbered 1⟩)).1, returned := [1] } : Desk).settle 20

def closeFailed : Desk :=
  ({ closeAwaited with loop := closeAwaited.loop.answerHeld 2 } : Desk).settle 20

theorem closeAwaited_reached : sharing.Reaches 0 .single False closeAwaited := by
  obtain ⟨hi, hs, _⟩ := sharing_ready
  have hline : Desk.Steps 0 .single False ⟨sharing, [], []⟩ inLine :=
    (Desk.called_steps rfl (.borrow _)).trans <| (Desk.called_steps rfl (.shutDown _)).trans <|
      (Desk.called_steps rfl (.borrow _)).trans <| (Desk.called_steps rfl (.borrow _)).trans <|
      .head (.cancel 3 rfl) (Desk.settle_steps ..)
  refine ⟨hi, hs, hline.trans (.head (.engine _ _ _ rfl)
    (.head (.giveBack (t := 1) rfl ⟨List.not_mem_nil, _, rfl, rfl⟩ (.inr ?_)) (Desk.settle_steps ..)))⟩
  intro i k signal d s m hk hs
  match i with
  | 0 | 1 | 2 | 3 | 4 => cases hk; cases hs
  | n + 5 => cases hk

theorem closeFailed_reached : sharing.Reaches 0 .single False closeFailed :=
  ⟨sharing_ready.1, sharing_ready.2.1,
    closeAwaited_reached.steps.trans (.head (.answer rfl rfl rfl) (Desk.settle_steps ..))⟩

theorem shared_in_turn_closeFailed :
    (sharing.Reaches 0 .single False closeFailed ∧ sharing.shared? 0 = some ⟨1, .numbered 1⟩) ∧
      (closeAwaited.loop.hangingUp 2 = true ∧ (closeAwaited.loop.lockOf 0).locked = true ∧
        closeAwaited.loop.inUse 1 = false ∧ ∀ i, closeAwaited.lease? i = none) ∧
      closeFailed.Shares 0 ⟨1, .numbered 1⟩ ∧ closeFailed.lease? 4 = some ⟨1, .numbered 1⟩ ∧
      (closeFailed.asked 0, closeFailed.obtained 0, closeFailed.used 0, closeFailed.quit 0) =
        ([1, 2, 3, 4], [1, 2, 4], [1, 4], [3]) :=
  ⟨⟨closeFailed_reached, sharing_ready.2.2⟩,
    ⟨rfl, (shared_in_turn closeAwaited_reached sharing_ready.2.2).awaiting 2 rfl⟩,
    shared_in_turn closeFailed_reached sharing_ready.2.2, rfl, rfl⟩

namespace Guard

variable {g g' : Guard}

theorem Held.locked_iff (h : g.Held careless c) :
    g.lock.locked = true ↔ g.inUse = true ∨ (∃ t, g.bears t = true) ∨ g.missed ≠ [] := by
  cases h with
  | free hk hb _ hu hm => simp [hk, hb, hu, hm]
  | passing hk hb => exact ⟨fun _ => .inr (.inl ⟨_, hb⟩), fun _ => hk⟩
  | lent hk _ _ _ hu | lost _ hk _ _ hu => exact ⟨fun _ => .inl hu, fun _ => hk⟩
  | stuck hk _ _ _ _ hm => exact ⟨fun _ => .inr (.inr (by simp [hm])), fun _ => hk⟩

theorem Held.of_missed (h : g.Held careless c) (hm : g.missed ≠ []) :
    g.lock.locked = true ∧ (∀ t, g.bears t = false) ∧ (∀ t, g.lease t = none) ∧ g.inUse = false := by
  cases h with
  | stuck hk hb hl hu => exact ⟨hk, hb, hl, hu⟩
  | free _ _ _ _ h | passing _ _ _ _ _ h => exact absurd h hm
  | lent _ _ _ _ _ _ h | lost _ _ _ _ _ _ h => exact absurd h hm

theorem Held.missed_le (h : g.Held careless c) : g.missed.length ≤ 1 := by
  cases h with
  | stuck _ _ _ _ _ hm => simp [hm]
  | free _ _ _ _ hm | passing _ _ _ _ _ hm => simp [hm]
  | lent _ _ _ _ _ _ hm | lost _ _ _ _ _ _ hm => simp [hm]

theorem Step.kept (hs : g.Step careless c g') (h : g.Sound careless c) (hm : g.missed ≠ []) :
    g'.missed = g.missed ∧ g'.obtained = g.obtained := by
  obtain ⟨hk, hb, hl, hu⟩ := h.held.of_missed hm
  cases hs with
  | takes _ hf => cases hk.symm.trans (Access.Lock.isFree_iff.mp hf).1
  | enters hp => cases hk.symm.trans (h.line.first _ (h.line.of_granted hp)).1
  | uses hb' | misses hb' | opens hb' => cases (hb _).symm.trans hb'
  | returns ht => cases (hl _).symm.trans ht
  | forgets _ ht => cases (hl _).symm.trans ht
  | finds _ _ _ hu' => cases hu.symm.trans hu'
  | quits =>
    split
    · exact ⟨rfl, rfl⟩
    · exact ⟨rfl, rfl⟩
  | rests | falters | marks | waits => exact ⟨rfl, rfl⟩

end Guard

theorem Desk.Steps.kept (hs : Desk.Steps M .single careless x y) (h : x.Guarded careless M c)
    (hm : x.missed M ≠ []) : y.missed M = x.missed M ∧ y.obtained M = x.obtained M := by
  induction hs with
  | refl => exact ⟨rfl, rfl⟩
  | @tail z w hz hw ih =>
    obtain ⟨hmissed, hobtained⟩ := ih
    have hg := Desk.Steps.guarded hz h
    obtain ⟨hm', ho'⟩ := (hw.moves hg).step.kept hg.sound (hmissed.trans_ne hm)
    exact ⟨hm'.trans hmissed, ho'.trans hobtained⟩

theorem State.misses_fails {t : Nat} (h : t ∈ l.misses M) :
    ∃ l' k, l.step? = some l' ∧ l'.running = some ⟨t, .borrowed, .give (.error .missingPart), k⟩ := by
  obtain ⟨r, hr, rfl, hm⟩ : ∃ r, l.running = some r ∧ r.task = t ∧
      r.misses M (l.singleOf M).isSome = true := by
    rw [State.misses, State.whoever] at h
    split at h
    next r hr =>
      split at h
      next hm => exact ⟨r, hr, (List.mem_singleton.mp h).symm, hm⟩
      next => cases h
    next => cases h
  obtain ⟨t, u, control, k⟩ := r
  unfold Running.misses at hm
  split at hm
  next _ _ y m k' he =>
    cases he
    rw [Bool.and_eq_true, decide_eq_true_eq, Bool.not_eq_true'] at hm
    obtain ⟨rfl, hm⟩ := hm
    have hs : (l.manager? m).bind (·.single) = none := by
      simpa [State.singleOf] using hm
    refine ⟨_, k', by rw [State.step?, hr], ?_⟩
    show (l.advance ((Work.back (.lockedToUse m) (.ok y)).on t k')).running = _
    rw [State.advance_on]
    simp [Work.perform, resume, State.lockedToUse, hs, State.carryOn]
  next => cases hm

/-- The lock is taken as long as the connection is in use, a task has the lock on its way to the connection or
is closing it, or a caller has found the connection gone. That caller has kept the lock, and nobody obtains it
any more. -/
theorem lock_kept_iff (h : l.Reaches M .single careless x) (hc : l.shared? M = some c) :
    ((x.loop.lockOf M).locked = true ↔
      x.loop.inUse c.id = true ∨ (∃ t, x.loop.bears t = true) ∨ x.missed M ≠ []) ∧
    (x.missed M).length ≤ 1 ∧
    (x.missed M ≠ [] → ∀ y, Desk.Steps M .single careless x y →
      (y.loop.lockOf M).locked = true ∧ y.obtained M = x.obtained M ∧ ∀ i, y.lease? i = none) ∧
    ∀ m ∈ x.past, ∀ t ∈ m.misses M, ∃ m' k, m.step? = some m' ∧
      m'.running = some ⟨t, .borrowed, .give (.error .missingPart), k⟩ := by
  have hg := h.guarded hc
  refine ⟨hg.sound.held.locked_iff, hg.sound.held.missed_le, fun hm y hy => ?_,
    fun m _ t ht => State.misses_fails ht⟩
  obtain ⟨hmissed, hobtained⟩ := Desk.Steps.kept hy hg hm
  have hy' := (Desk.Steps.guarded hy hg).sound.held
  obtain ⟨hk, _, hl, _⟩ := hy'.of_missed (hmissed.symm ▸ hm : y.missed M ≠ [])
  exact ⟨hk, hobtained, hl⟩

def shutLater : Desk :=
  ((({ loop := sharing } : Desk).called (.borrow 0)).called (.shutDown 0)).called (.borrow 0)

def shutInLine : Desk :=
  ({ shutLater with
      loop := (shutLater.loop.giveBack 0 (some ⟨1, .numbered 1⟩)).1, returned := [1] } : Desk).settle 30

theorem shutInLine_reached : sharing.Reaches 0 .single False shutInLine := by
  obtain ⟨hi, hs, _⟩ := sharing_ready
  have hlater : Desk.Steps 0 .single False ⟨sharing, [], []⟩ shutLater :=
    (Desk.called_steps rfl (.borrow _)).trans <| (Desk.called_steps rfl (.shutDown _)).trans <|
      Desk.called_steps rfl (.borrow _)
  refine ⟨hi, hs, hlater.trans (.head (.giveBack (t := 1) rfl ⟨List.not_mem_nil, _, rfl, rfl⟩ (.inr ?_))
    (Desk.settle_steps ..))⟩
  intro i k signal d s m hk hs
  match i with
  | 0 | 1 | 2 | 3 => cases hk; cases hs
  | n + 4 => cases hk

theorem lock_kept_iff_shutInLine :
    (sharing.Reaches 0 .single False shutInLine ∧ sharing.shared? 0 = some ⟨1, .numbered 1⟩) ∧
      (shutInLine.loop.inUse 1 = false ∧ shutInLine.loop.running = none ∧ (∀ i, shutInLine.loop.hangingUp i = false) ∧
        shutInLine.missed 0 = [3]) ∧ (shutInLine.loop.lockOf 0).locked = true := by
  refine ⟨⟨shutInLine_reached, sharing_ready.2.2⟩, ⟨rfl, rfl, fun i => ?_, rfl⟩,
    (lock_kept_iff shutInLine_reached sharing_ready.2.2).1.mpr (.inr (.inr (List.cons_ne_nil 3 [])))⟩
  match i with
  | 0 | 1 | 2 | 3 => rfl
  | n + 4 => rfl

/-- The manager has been shut down and nobody has the connection. The caller that has waited for it
has failed with an internal error, and the lock stays taken: after the manager has been set up anew,
the next caller waits in vain. -/
theorem caller_in_line_fails :
    sharing.Reaches 0 .single False shutInLine ∧
      (shutInLine.loop.tasks.map (·.status)).drop 2 =
        [.finished .unit (.ok ()), .finished .borrowed (.error .missingPart)] ∧
      shutInLine.loop.step? = none ∧ (∀ i, shutInLine.lease? i = none) ∧
      (shutInLine.loop.lockOf 0).isFree = false ∧
      ((((shutInLine.loop.spawn (.setUp 0 (some { filename := "f" }) .single) []).1.settleWithin
        20).spawn (.borrow 0) []).1.settleWithin 20).tasks[5]?.map (·.status) =
          some (.paused (.lock 0) (.push (.letIn 0) (.push (.lockedToUse 0) (.done .borrowed)))) := by
  refine ⟨shutInLine_reached, rfl, rfl, fun i => ?_, rfl, rfl⟩
  match i with
  | 0 | 1 | 2 | 3 => rfl
  | n + 4 => rfl

end SqliteAccess.Loop
