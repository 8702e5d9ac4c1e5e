import SqliteAccess.Proofs.Access.Manage
import SqliteAccess.Proofs.Pool.Run

/-!
Tasks stay chains of callers: through the steps of their own calls, and through whatever else happens
in the loop, which leaves stacks as they are.
-/

namespace SqliteAccess.Loop

open Pool (Handle Lease)
open Access (Database)

variable {M : Nat} {way : Route} {l l' m : State} {O O' : Nat}

theorem Stack.Bears.chained {u : Shape} {k : Stack u} {c : Call u} (h : k.Bears M way c) :
    k.Chained M way := by
  cases h with
  | done _ => exact .done _
  | push hf hk => exact .push (.called hf) hk

theorem Deed.continues {u : Shape} {w : Work u} {n : Next u} {d : Call u} (h : Deed M O way w O' n)
    (hw : w.PartOf M way d) : n.Continues M way d := by
  cases h
  case starts c =>
    cases hw with
    | back _ hf =>
      cases hf with
      | start => exact .jump _
      | called hf => cases hf
      | paused hf => cases hf
  case connects p d => cases hw; exact .call (.connected p d)
  case dialWaits p d fault => cases hw; exact .pause (.dialled p d fault)
  case setsForeignKeys p d c =>
    cases hw with
    | back _ hf =>
      cases hf with
      | called hf => cases hf; exact .call (.foreignKeysSet p d c)
  case setsJournal p d c _ =>
    cases hw with
    | back _ hf =>
      cases hf with
      | called hf => cases hf; exact .call (.journalSet p d c)
  case runs d c s m start => cases hw; exact .call (.ran way d c s m start)
  case hangUpWaits c fault => cases hw; exact .pause (.asked way fault c)
  case sendWaits c s r => cases hw; exact .pause (.sent way r c s)
  case executes s m mode restores => cases hw; exact .call (.executing way s m mode restores)
  case batches ss m mode restores => cases hw; exact .call (.batching way ss m mode restores)
  case blocks hold fail => cases hw; exact .call (.blockEntered way hold fail)
  case leaves fail => cases hw; exact .call (.withinLeft way fail)
  case borrowsPooled p d => cases hw; exact .call (.leased p d)
  case borrowsSingle => cases hw; exact .call .lockedToUse
  case executingRuns c d s m restores =>
    cases hw with
    | back _ hf =>
      cases hf with
      | called hf => cases hf; exact .call (.executed way c d s s m _ restores)
  case batchingRuns c d s rest m restores =>
    cases hw with
    | back _ hf =>
      cases hf with
      | called hf => cases hf; exact .call (.batched way c d s rest _ m _ [] restores)
  case batchedRuns c d s rest m done a restores =>
    cases hw with
    | back _ hf =>
      cases hf with
      | called hf => cases hf; exact .call (.batched way c d s rest _ m _ (done ++ [a]) restores)
  case blockHolds lease hold fail =>
    cases hw with
    | back _ hf =>
      cases hf with
      | called hf => cases hf; exact .pause (.blockHeld way lease hold fail)
  case shutsPool p d => cases hw; exact .call (.poolShut p d)
  case shutsSingle => cases hw; exact .call .lockedToClose
  all_goals exact .give _ _

theorem Status.Chained.nudge {D : Failure → Prop} {x y : Status} (h : x.Chained M way)
    (hn : x.Nudge D y) : y.Chained M way := by
  cases hn with
  | same => exact h
  | woken w k hd =>
    cases h with
    | paused hf hk => exact .ready _ hf hk
  | recounted ts ts' b b' k =>
    cases h with
    | paused hf hk =>
      cases hf with
      | tasks p d => exact .paused (.tasks p d ts' b') hk

variable {C : Nat → Prop} {D : Nat → Failure → Prop} {E : Nat → Follower → Prop} {ts ts' new : List Task}

def AllChained (M : Nat) (way : Route) (ts : List Task) : Prop :=
  ∀ (i : Nat) (k : Task), ts[i]? = some k → k.status.Chained M way

theorem AllChained.nudged (h : AllChained M way ts) (hn : Nudged C D E ts ts') :
    AllChained M way ts' := by
  intro i k hk
  have hi : i < ts.length := by
    rw [← hn.length]
    exact (List.getElem?_eq_some_iff.mp hk).1
  obtain ⟨k', hk', hx⟩ := hn.task i _ (List.getElem?_eq_getElem hi)
  cases hk.symm.trans hk'
  exact (h i _ (List.getElem?_eq_getElem hi)).nudge hx.status

theorem AllChained.append (h : AllChained M way ts) (hn : ∀ k ∈ new, k.status.Chained M way) :
    AllChained M way (ts ++ new) := by
  intro i k hk
  by_cases hi : i < ts.length
  · rw [List.getElem?_append_left hi] at hk
    exact h i k hk
  · rw [List.getElem?_append_right (Nat.le_of_not_lt hi)] at hk
    exact hn k (List.mem_of_getElem? hk)

theorem AllChained.modify {t : Nat} {f : Task → Task} (h : AllChained M way ts)
    (hf : ∀ k, ts[t]? = some k → (f k).status.Chained M way) : AllChained M way (ts.modify t f) := by
  intro i k hk
  by_cases hi : t = i
  · subst hi
    rw [List.getElem?_modify_eq] at hk
    obtain ⟨k', hk', rfl⟩ := Option.map_eq_some_iff.mp hk
    exact hf k' hk'
  · rw [List.getElem?_modify_ne _ _ hi] at hk
    exact h i k hk

theorem Still.nudged (h : Still M l m) : Nudged C D E l.tasks m.tasks := by
  refine ⟨h.tasks.length_eq.symm, fun i k hk => ?_⟩
  obtain ⟨hi, rfl⟩ := List.getElem?_eq_some_iff.mp hk
  have hi' : i < m.tasks.length := h.tasks.length_eq ▸ hi
  obtain ⟨hs, hf, hfo⟩ := h.tasks.get hi hi'
  simp only [List.get_eq_getElem] at hs hf hfo
  refine ⟨m.tasks[i], List.getElem?_eq_getElem hi', ?_, .inl hf, fun f hm => .inl (hfo ▸ hm)⟩
  rw [hs]
  exact .same _

theorem Tended.carryOn {t : Nat} {u : Shape} {n : Next u} {k : Stack u} {d : Call u}
    (h : AllChained M way m.tasks) (ht : ∃ x, m.tasks[t]? = some x ∧ x.status = .running)
    (hk : k.Bears M way d) (hn : n.Continues M way d) : Tended M way (m.carryOn t n k) := by
  cases hn with
  | give o =>
    refine ⟨fun r hr => ?_, h⟩
    cases hr
    exact ⟨hk.chained, ht⟩
  | call hf =>
    refine ⟨fun r hr => ?_, h⟩
    cases hr
    exact ⟨.push hf hk, ht⟩
  | jump =>
    refine ⟨fun r hr => ?_, h⟩
    cases hr
    exact ⟨hk, ht⟩
  | late p id =>
    refine ⟨fun r hr => ?_, h⟩
    cases hr
    refine ⟨?_, ht⟩
    cases hk with
    | done hs => cases hs with | openBackground p d => exact .done (.destroy p d id)
    | push hf _ => cases hf
  | pause hf =>
    refine ⟨fun r hr => ?_, h.modify fun _ _ => .paused hf hk⟩
    cases hr
  | again hf =>
    refine ⟨fun r hr => ?_, h.modify fun _ _ => .ready none hf hk⟩
    cases hr

theorem Tended.goesOn {t : Nat} {signal : Option Failure} {k : Stack .unit} {x : Task} {o : Outcome .unit}
    (h : Tended M way l) (hx : l.tasks[t]? = some x) (hs : x.status = .ready signal k)
    (hr : l'.running = some ⟨t, .unit, .give o, k⟩)
    (ht : l'.tasks = l.tasks.modify t fun x => { x with status := .running, cancelRequested := false }) :
    Tended M way l' := by
  refine ⟨fun r hr' => ?_, ?_⟩
  · cases hr.symm.trans hr'
    refine ⟨?_, { x with status := .running, cancelRequested := false }, by rw [ht]; simp [hx], rfl⟩
    have hc := h.tasks t x hx
    rw [hs] at hc
    cases hc with
    | made hc => exact .push (.start hc) (.done hc)
    | ready _ hf hk => exact .push (.paused hf) hk
  · rw [ht]
    exact AllChained.modify h.tasks fun _ _ => .running

theorem Tended.enter (h : Tended M way l) {u : Shape} {c : Call u} (hc : c.Served M way) :
    Tended M way (l.enter c) := by
  refine ⟨fun r hr => ?_, AllChained.append h.tasks fun k hk => ?_⟩
  · cases hr
    exact ⟨.done hc, _, by simp [State.enter]; rfl, rfl⟩
  · rw [List.mem_singleton.mp hk]
    exact .running

theorem Tended.spawn (h : Tended M way l) {u : Shape} {c : Call u} (hc : c.Served M way) :
    Tended M way (l.spawn c []).1 := by
  refine ⟨fun r hr => ?_, AllChained.append h.tasks fun k hk => ?_⟩
  · obtain ⟨hr', k, hk, hs⟩ := h.running r hr
    refine ⟨hr', k, ?_, hs⟩
    simp only [State.spawn, State.enqueue]
    rw [List.getElem?_append_left (List.getElem?_eq_some_iff.mp hk).1]
    exact hk
  · rw [List.mem_singleton.mp hk]
    exact .made hc

theorem Tended.running_of_nudged (h : Tended M way l) (hn : Nudged C D E l.tasks ts) {r : Running}
    (hr : l.running = some r) : ∃ k, ts[r.task]? = some k ∧ k.status = .running := by
  obtain ⟨_, k, hk, hs⟩ := h.running r hr
  obtain ⟨k', hk', hx⟩ := hn.task _ k hk
  exact ⟨k', hk', hx.running hs⟩

theorem Tended.nudged (h : Tended M way l) (hr : l'.running = l.running)
    (hn : Nudged C D E l.tasks l'.tasks) : Tended M way l' :=
  ⟨fun r hr' => ⟨(h.running r (hr ▸ hr')).1, h.running_of_nudged hn (hr ▸ hr')⟩,
    AllChained.nudged h.tasks hn⟩

theorem Tended.work (h : Tended M way l) {t : Nat} {u : Shape} {w : Work u} {k : Stack u}
    (hr : l.running = some (w.on t k)) : ∃ d, w.PartOf M way d ∧ k.Bears M way d := by
  have hc := (h.running _ hr).1
  cases w with
  | call c => exact ⟨c, .call c, hc⟩
  | back f o =>
    have hc : (Stack.push f k).Chained M way := hc
    cases hc with
    | push hf hk => exact ⟨_, .back o hf, hk⟩

theorem Running.cases_on (r : Running) : (∃ u, ∃ w : Work u, ∃ k, r = w.on r.task k) ∨
    ∃ u, ∃ o : Outcome u, r = ⟨r.task, u, .give o, .done u⟩ := by
  obtain ⟨t, u, control, k⟩ := r
  cases control with
  | call c => exact .inl ⟨u, .call c, k, rfl⟩
  | give o =>
    cases k with
    | done => exact .inr ⟨u, o, rfl⟩
    | push f k => exact .inl ⟨_, .back f o, k, rfl⟩

end SqliteAccess.Loop
