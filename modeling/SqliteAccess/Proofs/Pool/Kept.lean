import SqliteAccess.Proofs.Pool.Move

/-!
Every step of a run keeps the tasks of the pool sound.
-/

namespace SqliteAccess.Loop

section Weights

variable {p : Nat} {X Y : Prop} {v : Option Event} {l l' m : State} {s s' : Pool.State} {W : Weight}

theorem Weight.of_eq_zero (h : ∀ r, l.running = some r → r.task < l.tasks.length) {i : Nat}
    (hi : l.tasks.length ≤ i) : W.of l i = 0 := by
  have hn : l.tasks[i]? = none := List.getElem?_eq_none hi
  cases hr : l.running with
  | none => simp [Weight.of, hn, hr]
  | some r =>
    have := h r hr
    simp [Weight.of, hn, hr, show r.task ≠ i by omega]

theorem Sound.running_lt (h : Sound p l s) {r : Running} (hr : l.running = some r) :
    r.task < l.tasks.length := by
  obtain ⟨_, k, hk, _⟩ := h.running r hr
  exact (List.getElem?_eq_some_iff.mp hk).1

theorem State.lay_weight {t : Nat} {u : Shape} (o : Outcome u) (h : Sound p l s)
    (hr : l.running = some ⟨t, u, .give o, .done u⟩) (i : Nat) : W.of (l.lay t o) i = W.of l i := by
  obtain ⟨_, k, hk, hs⟩ := h.running _ hr
  dsimp only at hk
  by_cases hi : t = i
  · subst hi
    simp [Weight.of, State.lay, State.modifyTask, hk, hr, hs, Weight.status, Weight.running,
      Weight.control, Weight.stack]
  · simp [Weight.of, State.lay, State.modifyTask, hr, hi]

theorem Aside.weight_of (h : Sound p l s) (ha : Aside p X Y v l l' s s') {i : Nat}
    (hi : i < l.tasks.length) : W.of l' i = W.of l i := by
  cases ha with
  | @ends t _ o hr hc =>
    have hi' : i < (l.lay t o).tasks.length := by simpa [State.lay, State.modifyTask] using hi
    rw [hc.weight_of hi', State.lay_weight o h hr]
  | @goesOn t signal k x hr hk hs hr' ht =>
    by_cases hit : t = i
    · subst hit
      simp [Weight.of, hr, hr', hk, hs, ht, Weight.status, Weight.running, Weight.control]
    · simp [Weight.of, hr, hr', ht, hit]
  | lull _ _ hc => exact hc.weight_of hi
  | enters _ hr hr' ht hs =>
    have hne : l.tasks.length ≠ i := by omega
    simp [Weight.of, hr, hr', ht, List.getElem?_append_left hi, hne]
  | spawns _ hr hr' ht => simp [Weight.of, hr, hr', ht, List.getElem?_append_left hi]
  | releases _ _ _ _ hc => exact hc.weight_of hi
  | discards _ _ _ hc => exact hc.weight_of hi

inductive Event.Makes (p : Nat) (s : Pool.State) : Event → {u : Shape} → Call u → Prop
  | enter {u : Shape} (c : Call u) : Event.Makes p s (.enter c) c
  | spawn {u : Shape} (c : Call u) : Event.Makes p s (.spawn c) c
  | discard (id : Nat) : s.closed = true → Event.Makes p s (.release p id) (.destroy p id)

theorem Aside.weight_new (ha : Aside p X Y v l l' s s') {i : Nat}
    (hi : l.tasks.length ≤ i) (hi' : i < l'.tasks.length) :
    ∃ (e : Event) (u : Shape) (c : Call u), v = some e ∧ e.Makes p s c ∧ c.Offered p ∧
      W.of l' i = W.call c := by
  cases ha with
  | ends o hr hc =>
    have hl := hc.length
    simp [State.lay, State.modifyTask] at hl
    omega
  | goesOn _ _ _ _ ht =>
    simp [ht] at hi'
    omega
  | lull _ _ hc =>
    have hl := hc.length
    simp at hl
    omega
  | releases _ _ _ _ hc =>
    have hl := hc.length
    simp at hl
    omega
  | @enters u c x hoff hr hr' ht hs _ _ hv =>
    have hlen : i = l.tasks.length := by
      simp [ht] at hi'
      omega
    subst hlen
    refine ⟨_, u, c, hv, .enter c, hoff, ?_⟩
    simp [Weight.of, hr', ht, hs, Weight.status, Weight.running, Weight.control, Weight.stack]
  | @spawns u c x hoff hr hr' ht hm hv =>
    have hlen : i = l.tasks.length := by
      simp [ht] at hi'
      omega
    subst hlen
    refine ⟨_, u, c, hv, .spawn c, hoff, ?_⟩
    simp [Weight.of, hr', ht, hm.weight]
  | @discards id hr _ hcl hc hv =>
    have hl := hc.length
    have hlen : i = l.tasks.length + 0 := by
      simp at hl
      omega
    rw [hlen]
    exact ⟨_, _, _, hv, .discard id hcl, .destroy _, hc.weight_new (by simp [hr]) 0 (by simp)⟩

theorem Changed.task {C : Nat → Prop} {D : Nat → Failure → Prop} {E : Nat → Follower → Prop} {N : Nat}
    {cs : List (Call .unit)} (h : Changed p C D E l l' s N cs) {i : Nat} {x : Task} (hx : l.tasks[i]? = some x) :
    ∃ y, l'.tasks[i]? = some y ∧ x.Nudge (C i) (D i) (E i) y := by
  obtain ⟨ts, new, ht, hn, _⟩ := h.tasks
  obtain ⟨y, hy, hny⟩ := hn.task i x hx
  refine ⟨y, ?_, hny⟩
  rw [ht, List.getElem?_append_left (List.getElem?_eq_some_iff.mp hy).1]
  exact hy

section Work

variable {u : Shape} {w : Work u} {d : Call u} {t : Nat} {k : Stack u} {n : Next u} {N : Nat}
  {cs : List (Call .unit)}

theorem State.carryOn_length (l : State) (t : Nat) (n : Next u) (k : Stack u) :
    (l.carryOn t n k).tasks.length = l.tasks.length := by
  cases n <;> simp [State.carryOn, State.modifyTask, State.enqueue]

theorem State.advance_on {u : Shape} (l : State) (w : Work u) (t : Nat) (k : Stack u) :
    l.advance (w.on t k) = (w.perform l).1.carryOn t (w.perform l).2 k := by
  cases w <;> rfl

theorem State.carryOn_running {r : Running} (hr : (l.carryOn t n k).running = some r) :
    r.task = t := by
  cases n with
  | give | call | jump =>
    cases hr
    rfl
  | pause | again => cases hr

theorem Changed.work_weight {C : Nat → Prop} {D : Nat → Failure → Prop} {E : Nat → Follower → Prop}
    (hr : l.running = some (w.on t k)) (hx : ∃ x, l.tasks[t]? = some x ∧ x.status = .running)
    (hc : Changed p C D E l m s' N cs) :
    W.of (m.carryOn t n k) t + W.work w = W.of l t + W.next n ∧
      (∀ i < l.tasks.length, i ≠ t → W.of (m.carryOn t n k) i = W.of l i) ∧
      ∀ (j : Nat) (hj : j < cs.length),
        W.of (m.carryOn t n k) (l.tasks.length + j) = W.call cs[j] := by
  obtain ⟨x, hx, hs⟩ := hx
  have ht : t < l.tasks.length := (List.getElem?_eq_some_iff.mp hx).1
  have hr' : m.running = some (w.on t k) := hc.running.trans hr
  obtain ⟨y, hy, hny⟩ := hc.task hx
  refine ⟨?_, ?_, ?_⟩
  · rw [State.carryOn_weight_of n hr' hy (hny.running hs), hc.weight_of ht]
  · intro i hi hne
    rw [State.carryOn_weight_of_ne n hr' hne, hc.weight_of hi]
  · intro j hj
    rw [State.carryOn_weight_of_ne n hr' (by omega)]
    refine hc.weight_new (fun r hr₂ => ?_) j hj
    cases hr.symm.trans hr₂
    rwa [Work.on_task]

theorem Sound.at_work (h : Sound p l s) (hr : l.running = some (w.on t k)) :
    ∃ x, l.tasks[t]? = some x ∧ x.status = .running := by
  have hx := (h.running _ hr).2
  rwa [Work.on_task] at hx

theorem Sound.status_running (h : Sound p l s) {r : Running} {x : Task} (hr : l.running = some r)
    (hx : l.tasks[r.task]? = some x) : x.status = .running := by
  obtain ⟨_, y, hy, hs⟩ := h.running r hr
  cases hx.symm.trans hy
  exact hs

theorem Sound.work_weight (h : Sound p l s) {C : Nat → Prop} {D : Nat → Failure → Prop} {E : Nat → Follower → Prop}
    (hr : l.running = some (w.on t k)) (hc : Changed p C D E l m s' N cs) :
    W.of (m.carryOn t n k) t + W.work w = W.of l t + W.next n ∧
      (∀ i < l.tasks.length, i ≠ t → W.of (m.carryOn t n k) i = W.of l i) ∧
      ∀ (j : Nat) (hj : j < cs.length),
        W.of (m.carryOn t n k) (l.tasks.length + j) = W.call cs[j] :=
  hc.work_weight hr (h.at_work hr)

theorem Weight.sum_getElem (f : Nat → Nat) (n : Nat) (cs : List (Call .unit))
    (h : ∀ (j : Nat) (hj : j < cs.length), f (n + j) = W.call cs[j]) :
    ∑ j ∈ Finset.range cs.length, f (n + j) = (cs.map fun c => W.call c).sum := by
  induction cs generalizing n with
  | nil => rfl
  | cons c cs ih =>
    have h0 : f (n + 0) = W.call c := h 0 (by simp)
    have hs := ih (n + 1) fun j hj => by
      have := h (j + 1) (by simpa using hj)
      simpa [Nat.add_assoc, Nat.add_comm 1 j] using this
    rw [List.length_cons, Finset.sum_range_succ', h0, List.map_cons, List.sum_cons, ← hs]
    simp [Nat.add_assoc, Nat.add_comm 1, Nat.add_comm (W.call c)]

theorem Changed.work_total {C : Nat → Prop} {D : Nat → Failure → Prop} {E : Nat → Follower → Prop}
    (hr : l.running = some (w.on t k)) (hx : ∃ x, l.tasks[t]? = some x ∧ x.status = .running)
    (hc : Changed p C D E l m s' N cs) :
    W.total (m.carryOn t n k) + W.work w =
      W.total l + W.next n + (cs.map fun c => W.call c).sum := by
  obtain ⟨ht, hi, hj⟩ := hc.work_weight (W := W) (n := n) hr hx
  have hlt : t ∈ Finset.range l.tasks.length := by
    obtain ⟨x, hx, _⟩ := hx
    exact Finset.mem_range.mpr (List.getElem?_eq_some_iff.mp hx).1
  have hrest : ∑ i ∈ (Finset.range l.tasks.length).erase t, W.of (m.carryOn t n k) i =
      ∑ i ∈ (Finset.range l.tasks.length).erase t, W.of l i := by
    apply Finset.sum_congr rfl
    intro i hmem
    rw [Finset.mem_erase, Finset.mem_range] at hmem
    exact hi i hmem.2 hmem.1
  have hnew := Weight.sum_getElem (W.of (m.carryOn t n k)) _ cs hj
  rw [Weight.total, State.carryOn_length, hc.length, Finset.sum_range_add, hnew, Weight.total,
    ← Finset.add_sum_erase _ _ hlt, ← Finset.add_sum_erase _ (W.of l) hlt, hrest]
  omega

theorem Sound.work_total (h : Sound p l s) {C : Nat → Prop} {D : Nat → Failure → Prop} {E : Nat → Follower → Prop}
    (hr : l.running = some (w.on t k)) (hc : Changed p C D E l m s' N cs) :
    W.total (m.carryOn t n k) + W.work w =
      W.total l + W.next n + (cs.map fun c => W.call c).sum :=
  hc.work_total hr (h.at_work hr)

end Work

theorem Aside.length_le (ha : Aside p X Y v l l' s s') : l.tasks.length ≤ l'.tasks.length := by
  cases ha with
  | ends o _ hc => simpa [State.lay, State.modifyTask] using hc.length.ge
  | goesOn _ _ _ _ ht => simp [ht]
  | enters _ _ _ ht => simp [ht]
  | spawns _ _ _ ht => simp [ht]
  | lull _ _ hc | releases _ _ _ _ hc | discards _ _ _ hc =>
    rw [hc.length]
    exact Nat.le_add_right _ _

theorem Aside.total (h : Sound p l s) (ha : Aside p X Y v l l' s s')
    (hW : ∀ {u : Shape} {c : Call u}, c.Offered p → W.call c = 0) : W.total l' = W.total l := by
  obtain ⟨d, hd⟩ := Nat.exists_eq_add_of_le ha.length_le
  have hold : ∑ i ∈ Finset.range l.tasks.length, W.of l' i =
      ∑ i ∈ Finset.range l.tasks.length, W.of l i :=
    Finset.sum_congr rfl fun i hi => ha.weight_of h (Finset.mem_range.mp hi)
  have hnew : ∑ j ∈ Finset.range d, W.of l' (l.tasks.length + j) = 0 := by
    apply Finset.sum_eq_zero
    intro j hj
    rw [Finset.mem_range] at hj
    obtain ⟨_, u, c, _, _, hc, hw⟩ :=
      ha.weight_new (W := W) (Nat.le_add_right l.tasks.length j) (by omega)
    rw [hw, hW hc]
  rw [Weight.total, hd, Finset.sum_range_add, hold, hnew, Weight.total, Nat.add_zero]

end Weights

/-- The task has come to its end with the outcome. -/
def State.Ended (l : State) (t : Nat) {u : Shape} (o : Outcome u) : Prop :=
  ∃ k, l.tasks[t]? = some k ∧ k.status = .finished u o

theorem State.ended_of_isFinished {l : State} {t : Nat} (h : l.isFinished t = true) :
    ∃ (u : Shape) (o : Outcome u), l.Ended t o := by
  unfold State.isFinished at h
  split at h
  next u o _ _ _ hk => exact ⟨u, o, _, hk, rfl⟩
  next => cases h

section Kept

variable {p : Nat} {X Y : Prop} {v : Option Event} {l l' m : State} {s s' : Pool.State} {u : Shape}
  {w : Work u}
  {d : Call u} {t : Nat} {k : Stack u} {n : Next u} {N : Nat} {cs : List (Call .unit)}

theorem Status.Nudge.fits {D : Failure → Prop} {x y : Status} (h : x.Nudge D y) (hx : x.Fits p) :
    y.Fits p := by
  cases h with
  | same => exact hx
  | woken w k hd =>
    cases hx with
    | paused hp hk => exact .ready _ hp hk
  | recounted ts ts' b b' k =>
    cases hx with
    | paused hp hk =>
      cases hp
      exact .paused (.tasks _ ts' b') hk

theorem Changed.task_cases {C : Nat → Prop} {D : Nat → Failure → Prop} {E : Nat → Follower → Prop}
    (h : Changed p C D E l l' s N cs) {i : Nat} {k' : Task} (hk : l'.tasks[i]? = some k') :
    (∃ k, l.tasks[i]? = some k ∧ k.Nudge (C i) (D i) (E i) k') ∨
      ∃ c ∈ cs, l.tasks.length ≤ i ∧ Made p c k' := by
  obtain ⟨ts, new, ht, hn, hm⟩ := h.tasks
  rw [ht] at hk
  by_cases hi : i < l.tasks.length
  · rw [List.getElem?_append_left (by rwa [hn.length])] at hk
    obtain ⟨k₁, hk₁, hnk⟩ := hn.task i _ (List.getElem?_eq_getElem hi)
    cases hk.symm.trans hk₁
    exact .inl ⟨_, List.getElem?_eq_getElem hi, hnk⟩
  · rw [List.getElem?_append_right (by rw [hn.length]; omega), hn.length] at hk
    obtain ⟨hj, rfl⟩ := List.getElem?_eq_some_iff.mp hk
    have hj' : i - l.tasks.length < cs.length := by rwa [hm.length_eq]
    exact .inr ⟨cs[i - l.tasks.length], List.getElem_mem _, by omega, hm.get hj' hj⟩

theorem Status.Nudge.told {D : Failure → Prop} {x : Status} {e : Failure} {st : Stack .unit}
    (h : x.Nudge D (.ready (some e) st)) :
    x = .ready (some e) st ∨ D e ∧ ∃ w, x = .paused w st := by
  cases h with
  | same => exact .inl rfl
  | woken w k hd => exact .inr ⟨hd e rfl, w, rfl⟩

theorem Changed.told {C : Nat → Prop} {D : Nat → Failure → Prop} {E : Nat → Follower → Prop} {i : Nat}
    {e : Failure} {y : Task} {st : Stack .unit} (hc : Changed p C D E l l' s N cs)
    (hy : l'.tasks[i]? = some y) (hs : y.status = .ready (some e) st) :
    ∃ x, l.tasks[i]? = some x ∧
      (x.status = .ready (some e) st ∨ D i e ∧ ∃ w, x.status = .paused w st) := by
  rcases hc.task_cases hy with ⟨x, hx, hn⟩ | ⟨c, _, _, hm⟩
  · have hn := hn.status
    rw [hs] at hn
    exact ⟨x, hx, hn.told⟩
  · cases hm.status.symm.trans hs

def Next.lays (n : Next u) (k : Stack u) (x : Status) : Status :=
  match n with
  | .pause w f => .paused w (.push f k)
  | .again f => .ready none (.push f k)
  | _ => x

theorem State.carryOn_tasks (l : State) (t : Nat) (n : Next u) (k : Stack u) :
    (l.carryOn t n k).tasks = l.tasks.modify t fun x => { x with status := n.lays k x.status } := by
  have hid : l.tasks = l.tasks.modify t fun x => { x with status := x.status } :=
    (List.modify_id t l.tasks).symm
  cases n with
  | give | call | jump => exact hid
  | pause | again => rfl

theorem State.carryOn_pool (l : State) (t : Nat) (n : Next u) (k : Stack u) (q : Nat) :
    (l.carryOn t n k).pool? q = l.pool? q := by
  cases n <;> rfl

theorem modify_cases {ts : List Task} {f : Task → Task} {i : Nat} {y : Task}
    (h : (ts.modify t f)[i]? = some y) :
    i ≠ t ∧ ts[i]? = some y ∨ i = t ∧ ∃ x, ts[t]? = some x ∧ y = f x := by
  by_cases hi : t = i
  · subst hi
    simp only [List.getElem?_modify_eq, Option.map_eq_map, Option.map_eq_some_iff] at h
    obtain ⟨x, hx, rfl⟩ := h
    exact .inr ⟨rfl, x, hx, rfl⟩
  · rw [List.getElem?_modify_ne _ _ hi] at h
    exact .inl ⟨Ne.symm hi, h⟩

theorem append_cases {ts : List Task} {x y : Task} {i : Nat} (h : (ts ++ [x])[i]? = some y) :
    ts[i]? = some y ∨ i = ts.length ∧ y = x := by
  by_cases hi : i < ts.length
  · rw [List.getElem?_append_left hi] at h
    exact .inl h
  · rw [List.getElem?_append_right (by omega), List.getElem?_singleton] at h
    split at h
    · cases h
      exact .inr ⟨by omega, rfl⟩
    · cases h

theorem Call.Offered.root {c : Call u} (h : c.Offered p) : c.Root p := by
  cases h with
  | acquire => exact .acquire
  | destroy id => exact .destroy id
  | evict => exact .evict
  | closePool => exact .closePool

theorem Next.Keeps.fits (h : n.Keeps p d) (hk : k.Holds p d) (x : Status) (hx : x.Fits p) :
    (n.lays k x).Fits p := by
  cases h with
  | give | call | jump | late => exact hx
  | pause hp hf => exact .paused hp (.push hf hk)
  | again hp hf => exact .ready none hp (.push hf hk)

theorem Next.Keeps.running (h : n.Keeps p d) (hk : k.Holds p d) {r : Running}
    (hr : (l.carryOn t n k).running = some r) :
    r.task = t ∧ r.Fits p ∧ (l.carryOn t n k).tasks = l.tasks := by
  cases h with
  | give =>
    cases hr
    exact ⟨rfl, hk.fits, rfl⟩
  | call ha hf =>
    cases hr
    exact ⟨rfl, .push ha hf hk, rfl⟩
  | jump hc =>
    cases hr
    exact ⟨rfl, hk, rfl⟩
  | late id =>
    cases hr
    refine ⟨rfl, ?_, rfl⟩
    cases hk with
    | done _ => exact .done (.destroy id)
    | push ha _ _ => cases ha
  | pause => cases hr
  | again => cases hr

theorem Sound.rooted_le (h : Sound p l s) (hr : l.running = some (w.on t k)) (hd : w.Of p d)
    (hn : n.Keeps p d) {C : Nat → Prop} {D : Nat → Failure → Prop} {E : Nat → Follower → Prop}
    (hc : Changed p C D E l m s' N cs) {W : Weight} (hW : W.Rooted p) {i : Nat} (hi : i < l.tasks.length) :
    W.of (m.carryOn t n k) i ≤ W.of l i := by
  obtain ⟨hwt, hwi, _⟩ := h.work_weight (W := W) (n := n) hr hc
  by_cases hit : i = t
  · subst hit
    have hle := hW.next_le hn
    rw [← hW.work hd] at hle
    omega
  · exact (hwi i hi hit).le

theorem Sound.closing_alone (h : Sound p l s) (hr : l.running = some (w.on t k)) (hd : w.Of p d)
    (hk : k.Holds p d) (hc : w.Closing) : Weight.acquiring.of l t = 0 := by
  have hof := h.of_on (W := .acquiring) hr
  have hclose : Weight.acquiring.work w = 0 ∧ 0 < Weight.closing.call d := by
    cases hd with
    | call => cases d <;> first | exact ⟨rfl, Nat.one_pos⟩ | cases hc
    | back o hf => cases hf <;> first | exact ⟨rfl, Nat.one_pos⟩ | cases hc
  have hstack : Weight.acquiring.stack k = 0 := by
    cases hk with
    | done => rfl
    | push ha _ _ => cases ha <;> exact absurd hclose.2 (Nat.lt_irrefl 0)
  omega

theorem Sound.work_reaper (h : Sound p l s) (hr : l.running = some (w.on t k)) (hd : w.Of p d)
    (ha : Act p t l.tasks.length l.nextConnection s w s' N cs n) {C : Nat → Prop}
    {D : Nat → Failure → Prop} {E : Nat → Follower → Prop} (hc : Changed p C D E l m s' N cs) {r : Nat}
    (hs : s'.reaper = some r) : r < (m.carryOn t n k).tasks.length ∧
      Weight.acquiring.of (m.carryOn t n k) r = 0 ∧ Weight.background.of (m.carryOn t n k) r = 0 ∧
      Weight.closing.of (m.carryOn t n k) r = 0 := by
  have hn := ha.keeps hd
  rw [State.carryOn_length, hc.length]
  rcases ha.reaper hs with hs | ⟨rfl, cs', hcs⟩
  · obtain ⟨hlt, ha', hb, hcl⟩ := h.reaper r hs
    have h1 := h.rooted_le hr hd hn hc (Weight.acquiring_rooted p) hlt
    have h2 := h.rooted_le hr hd hn hc (Weight.background_rooted p) hlt
    have h3 := h.rooted_le hr hd hn hc (Weight.closing_rooted p) hlt
    omega
  · -- A sweep that has just been made is the first of the new tasks.
    have hnew : ∀ W : Weight, W.of (m.carryOn t n k) l.tasks.length = W.call (.reap p) := by
      intro W
      have hj := (h.work_weight (W := W) (n := n) hr hc).2.2 0 (by simp [hcs])
      simpa [hcs] using hj
    exact ⟨by simp [hcs], hnew _, hnew _, hnew _⟩

theorem Sound.work_shutting (h : Sound p l s) (hr : l.running = some (w.on t k)) (hd : w.Of p d)
    (hk : k.Holds p d) (ha : Act p t l.tasks.length l.nextConnection s w s' N cs n) {C : Nat → Prop}
    {D : Nat → Failure → Prop} {E : Nat → Follower → Prop} (hc : Changed p C D E l m s' N cs)
    (hopen : s'.closed = false) (i : Nat) : Weight.shutting.of (m.carryOn t n k) i = 0 := by
  obtain ⟨hwt, hwi, hwj⟩ := h.work_weight (W := .shutting) (n := n) hr hc
  have h0 := h.shutting (ha.was_open hopen)
  by_cases hi : i < l.tasks.length
  · by_cases hit : i = t
    · subst hit
      have := ha.shutting (.inr hopen)
      have := h0 i
      omega
    · rw [hwi i hi hit, h0]
  · by_cases hj : i < l.tasks.length + cs.length
    · obtain ⟨j, rfl⟩ := Nat.exists_eq_add_of_le (Nat.le_of_not_lt hi)
      exact hwj j (by omega)
    · refine Weight.of_eq_zero (fun r hr' => ?_) (by rw [State.carryOn_length, hc.length]; omega)
      have ht := Work.on_task w t k ▸ h.running_lt hr
      rw [((ha.keeps hd).running hk hr').1, State.carryOn_length, hc.length]
      omega

theorem Sound.work_followers (h : Sound p l s) (hr : l.running = some (w.on t k)) (hd : w.Of p d)
    (hk : k.Holds p d) (ha : Act p t l.tasks.length l.nextConnection s w s' N cs n) {C : Nat → Prop}
    {D : Nat → Failure → Prop} (hc : Changed p C D (Follows w t s s') l m s' N cs) {i r : Nat} {y : Task}
    (hy : (m.carryOn t n k).tasks[i]? = some y) (hm : .resume r ∈ y.followers) :
    s'.closed = true ∧ r < (m.carryOn t n k).tasks.length ∧
      Weight.acquiring.of (m.carryOn t n k) r = 0 := by
  have hn := ha.keeps hd
  rw [State.carryOn_tasks] at hy
  have hf : ∃ z : Task, m.tasks[i]? = some z ∧ y.followers = z.followers := by
    rcases modify_cases hy with ⟨_, hy⟩ | ⟨rfl, z, hz, rfl⟩
    · exact ⟨y, hy, rfl⟩
    · exact ⟨z, hz, rfl⟩
  obtain ⟨z, hz, hy'⟩ := hf
  rw [hy'] at hm
  rw [State.carryOn_length, hc.length]
  rcases hc.task_cases hz with ⟨x, hx, hnx⟩ | ⟨c, _, _, hmade⟩
  · rcases hnx.followers _ hm with hold | ⟨hcl, hclosing, hrt⟩
    · obtain ⟨hcl, hlt, hacq⟩ := h.followers i x hx r hold
      have hle := h.rooted_le hr hd hn hc (Weight.acquiring_rooted p) hlt
      exact ⟨ha.closed hcl, by omega, by omega⟩
    · obtain rfl : r = t := by simpa using hrt.imp_left And.left
      have ht : r < l.tasks.length := Work.on_task w r k ▸ h.running_lt hr
      have hle := h.rooted_le hr hd hn hc (Weight.acquiring_rooted p) ht
      have hacq : Weight.acquiring.of l r = 0 := h.closing_alone hr hd hk hclosing
      exact ⟨hcl, by omega, by omega⟩
  · exact absurd (hmade.followers _ hm) (by simp)

theorem Sound.work (h : Sound p l s) (hr : l.running = some (w.on t k)) (hd : w.Of p d)
    (hk : k.Holds p d) (ha : Act p t l.tasks.length l.nextConnection s w s' m.nextConnection cs n)
    (hc : Changed p (fun i => s.reaper = some i) (Tells s s') (Follows w t s s') l m s'
      m.nextConnection cs) : Sound p (m.carryOn t n k) s' := by
  obtain ⟨_, x, hx, hs⟩ := h.running _ hr
  rw [Work.on_task] at hx
  have hn := ha.keeps hd
  have htask : ∀ (i : Nat) (y : Task), m.tasks[i]? = some y → y.status.Fits p := by
    intro i y hy
    rcases hc.task_cases hy with ⟨z, hz, hnz⟩ | ⟨c, hmem, _, hm⟩
    · exact hnz.status.fits (h.tasks i z hz)
    · rw [hm.status]
      rcases ha.calls c hmem with rfl | rfl
      · exact .made .reap
      · exact .made .openBackground
  refine ⟨?_, ha.constant.1.trans h.source, ?_, ?_, fun r hr' => h.work_reaper hr hd ha hc hr',
    h.work_shutting hr hd hk ha hc, fun i y hy r hm => h.work_followers hr hd hk ha hc hy hm⟩
  · rw [State.carryOn_pool]
    exact hc.pool
  · intro r hr'
    obtain ⟨hrt, hf, htasks⟩ := hn.running hk hr'
    obtain ⟨y, hy, hny⟩ := hc.task hx
    exact ⟨hf, y, by rw [hrt, htasks, hy], hny.running hs⟩
  · intro i y hy
    rw [State.carryOn_tasks] at hy
    rcases modify_cases hy with ⟨_, hy⟩ | ⟨_, z, hz, rfl⟩
    · exact htask i y hy
    · exact hn.fits hk _ (htask t z hz)

theorem Aside.constant (h : Aside p X Y v l l' s s') : s'.source = s.source ∧
    s'.settings = s.settings ∧ s'.reaper = s.reaper ∧ s'.closed = s.closed := by
  cases h with
  | ends | goesOn | enters | spawns => exact ⟨rfl, rfl, rfl, rfl⟩
  | lull _ hl =>
    rw [hl.same]
    exact ⟨rfl, rfl, rfl, rfl⟩
  | @releases id now =>
    have hc := s.checkin_spec id now
    generalize (s.checkin id now).1 = s' at hc
    cases hc <;> exact ⟨rfl, rfl, rfl, rfl⟩
  | discards => exact ⟨rfl, rfl, rfl, rfl⟩

theorem Changed.kept {C : Nat → Prop} {D : Nat → Failure → Prop}
    (hc : Changed p C D (fun _ _ => False) l l' s' N cs)
    (hcs : ∀ c ∈ cs, c.Root p) (ht : ∀ (i : Nat) (x : Task), l.tasks[i]? = some x → x.status.Fits p)
    {i : Nat} {y : Task} (hy : l'.tasks[i]? = some y) : y.status.Fits p ∧
      ∀ r, .resume r ∈ y.followers → ∃ x, l.tasks[i]? = some x ∧ .resume r ∈ x.followers := by
  rcases hc.task_cases hy with ⟨x, hx, hn⟩ | ⟨c, hmem, _, hm⟩
  · refine ⟨hn.status.fits (ht i x hx), fun r hr => ⟨x, hx, ?_⟩⟩
    exact (hn.followers _ hr).resolve_right id
  · refine ⟨?_, fun r hr => absurd (hm.followers _ hr) (by simp)⟩
    rw [hm.status]
    exact .made (hcs c hmem)

theorem Aside.tasks (h : Sound p l s) (ha : Aside p X Y v l l' s s') {i : Nat} {y : Task}
    (hy : l'.tasks[i]? = some y) : y.status.Fits p ∧
      ∀ r, .resume r ∈ y.followers → ∃ x, l.tasks[i]? = some x ∧ .resume r ∈ x.followers := by
  have old : ∀ {x : Task}, l.tasks[i]? = some x → x.status.Fits p ∧
      ∀ r, .resume r ∈ x.followers → ∃ x, l.tasks[i]? = some x ∧ .resume r ∈ x.followers :=
    fun hx => ⟨h.tasks i _ hx, fun r hr => ⟨_, hx, hr⟩⟩
  cases ha with
  | @ends t u o hr hc =>
    have hlay : ∀ (j : Nat) (x : Task), (l.lay t o).tasks[j]? = some x → x.status.Fits p ∧
        ∀ r, .resume r ∈ x.followers → ∃ x, l.tasks[j]? = some x ∧ .resume r ∈ x.followers := by
      intro j x hx
      rcases modify_cases hx with ⟨_, hx⟩ | ⟨_, x₀, _, rfl⟩
      · exact ⟨h.tasks j x hx, fun r hr => ⟨x, hx, hr⟩⟩
      · exact ⟨.finished o, by simp⟩
    obtain ⟨hf, hfo⟩ := hc.kept (by simp) (fun j x hx => (hlay j x hx).1) hy
    refine ⟨hf, fun r hr => ?_⟩
    obtain ⟨x, hx, hm⟩ := hfo r hr
    exact (hlay i x hx).2 r hm
  | goesOn _ _ _ _ ht =>
    rw [ht] at hy
    rcases modify_cases hy with ⟨_, hy⟩ | ⟨rfl, x, hx, rfl⟩
    · exact old hy
    · exact ⟨.running, fun r hr => ⟨x, hx, hr⟩⟩
  | lull _ _ hc => exact hc.kept (by simp) h.tasks hy
  | enters _ _ _ ht hs _ hf =>
    rw [ht] at hy
    rcases append_cases hy with hy | ⟨_, rfl⟩
    · exact old hy
    · rw [hs, hf]
      exact ⟨.running, by simp⟩
  | spawns hoff _ _ ht hm =>
    rw [ht] at hy
    rcases append_cases hy with hy | ⟨_, rfl⟩
    · exact old hy
    · refine ⟨?_, fun r hr => absurd (hm.followers _ hr) (by simp)⟩
      rw [hm.status]
      exact .made hoff.root
  | releases _ _ _ _ hc => exact hc.kept (by simp) h.tasks hy
  | discards _ _ _ hc => exact hc.kept (by simpa using .destroy _) h.tasks hy

theorem Status.Fits.ready_stack {signal : Option Failure} {st : Stack .unit}
    (h : (Status.ready signal st).Fits p) : st.Fits p := by
  cases h with
  | made hc => exact .push (.start hc) (.done hc)
  | ready _ _ hk => exact hk

theorem Aside.running (h : Sound p l s) (ha : Aside p X Y v l l' s s') {r : Running}
    (hr : l'.running = some r) :
    r.Fits p ∧ ∃ k, l'.tasks[r.task]? = some k ∧ k.status = .running := by
  cases ha with
  | ends _ _ hc => cases hc.running.symm.trans hr
  | @goesOn t signal k x hn hk hs hr' ht =>
    cases hr.symm.trans hr'
    have hf := h.tasks t x hk
    rw [hs] at hf
    exact ⟨hf.ready_stack, { x with status := .running, cancelRequested := false },
      by simp [ht, hk], rfl⟩
  | lull hn _ hc => cases hn.symm.trans (hc.running.symm.trans hr)
  | enters hoff hn hr' ht hs =>
    cases hr.symm.trans hr'
    exact ⟨.done hoff.root, _, by rw [ht]; simp, hs⟩
  | spawns _ _ hr' => cases hr.symm.trans hr'
  | releases _ hn _ _ hc => cases hn.symm.trans (hc.running.symm.trans hr)
  | discards hn _ _ hc => cases hn.symm.trans (hc.running.symm.trans hr)

theorem Sound.aside (h : Sound p l s) (hp : l'.pool? p = some s') (ha : Aside p X Y v l l' s s') :
    Sound p l' s' := by
  obtain ⟨hsrc, _, hreap, hcl⟩ := ha.constant
  refine ⟨hp, hsrc.trans h.source, fun r hr => ha.running h hr, fun i y hy => (ha.tasks h hy).1,
    ?_, ?_, ?_⟩
  · intro r hr
    rw [hreap] at hr
    obtain ⟨hlt, h1, h2, h3⟩ := h.reaper r hr
    refine ⟨lt_of_lt_of_le hlt ha.length_le, ?_, ?_, ?_⟩
    · rw [ha.weight_of h hlt, h1]
    · rw [ha.weight_of h hlt, h2]
    · rw [ha.weight_of h hlt, h3]
  · intro hopen i
    rw [hcl] at hopen
    by_cases hi : i < l.tasks.length
    · rw [ha.weight_of h hi, h.shutting hopen]
    · by_cases hi' : i < l'.tasks.length
      · obtain ⟨_, u, c, _, _, _, hw⟩ :=
          ha.weight_new (W := .shutting) (Nat.le_of_not_lt hi) hi'
        exact hw
      · refine Weight.of_eq_zero (fun r hr => ?_) (Nat.le_of_not_lt hi')
        obtain ⟨_, k, hk, _⟩ := ha.running h hr
        exact (List.getElem?_eq_some_iff.mp hk).1
  · intro i y hy r hr
    obtain ⟨x, hx, hm⟩ := (ha.tasks h hy).2 r hr
    obtain ⟨hclosed, hlt, hacq⟩ := h.followers i x hx r hm
    exact ⟨hcl.trans hclosed, lt_of_lt_of_le hlt ha.length_le, (ha.weight_of h hlt).trans hacq⟩

theorem Move.sound (h : Sound p l s) (hm : Move p X Y v l l' s s') : Sound p l' s' := by
  cases hm with
  | work hr hd hk ha hc hl =>
    rw [hl]
    exact h.work hr hd hk ha hc
  | aside hp _ ha => exact h.aside hp ha

theorem Move.was_open (hm : Move p X Y v l l' s s') (hc : s'.closed = false) : s.closed = false := by
  cases hm with
  | work _ _ _ ha => exact ha.was_open hc
  | aside _ _ ha => exact ha.constant.2.2.2.symm.trans hc

theorem Move.settings (hm : Move p X Y v l l' s s') : s'.settings = s.settings := by
  cases hm with
  | work _ _ _ ha => exact ha.constant.2.1
  | aside _ _ ha => exact ha.constant.2.1

section Ended

variable {e : Option Event} {v : Shape} {i : Nat} {o : Outcome v}

theorem Changed.ended {C : Nat → Prop} {D : Nat → Failure → Prop} {E : Nat → Follower → Prop}
    (hc : Changed p C D E l l' s N cs) (he : l.Ended i o) : l'.Ended i o := by
  obtain ⟨x, hx, hs⟩ := he
  obtain ⟨y, hy, hn⟩ := hc.task hx
  exact ⟨y, hy, hn.status.end_eq hs⟩

theorem State.ended_modify {f : Task → Task} (ht : l'.tasks = l.tasks.modify t f) (hi : i ≠ t)
    (he : l.Ended i o) : l'.Ended i o := by
  obtain ⟨x, hx, hs⟩ := he
  refine ⟨x, ?_, hs⟩
  rw [ht, List.getElem?_modify_ne _ _ (Ne.symm hi)]
  exact hx

theorem State.ended_append {x : Task} (ht : l'.tasks = l.tasks ++ [x]) (he : l.Ended i o) :
    l'.Ended i o := by
  obtain ⟨y, hy, hs⟩ := he
  refine ⟨y, ?_, hs⟩
  rw [ht, List.getElem?_append_left (List.getElem?_eq_some_iff.mp hy).1]
  exact hy

theorem Sound.ended_ne (h : Sound p l s) {r : Running} (hr : l.running = some r) (he : l.Ended i o) :
    i ≠ r.task := by
  rintro rfl
  obtain ⟨x, hx, hs⟩ := he
  obtain ⟨_, y, hy, hs'⟩ := h.running r hr
  cases hx.symm.trans hy
  cases hs.symm.trans hs'

theorem Sound.ended_weight (h : Sound p l s) (he : l.Ended i o) {W : Weight} : W.of l i = 0 := by
  obtain ⟨x, hx, hs⟩ := id he
  cases hr : l.running with
  | none => simp [Weight.of, hx, hs, hr, Weight.status]
  | some r => simp [Weight.of, hx, hs, hr, Weight.status, Ne.symm (h.ended_ne hr he)]

theorem State.ended_of_endOf {f : Failure} (he : l.endOf i = .error f) :
    ∃ v : Shape, l.Ended i (u := v) (.error f) := by
  cases hx : l.tasks[i]? with
  | none => simp [State.endOf, hx] at he
  | some x =>
    rw [State.endOf_eq hx] at he
    cases hs : x.status with
    | finished v o =>
      rw [hs] at he
      cases o with
      | ok => cases he
      | error =>
        cases he
        exact ⟨v, x, hx, hs⟩
    | ready | paused | running =>
      rw [hs] at he
      cases he

theorem Move.ended (h : Sound p l s) (hm : Move p X Y e l l' s s') (he : l.Ended i o) :
    l'.Ended i o := by
  cases hm with
  | @work _ w _ t k n _ m hr _ _ _ hc heq =>
    subst heq
    have hne := h.ended_ne hr he
    rw [Work.on_task] at hne
    exact State.ended_modify (m.carryOn_tasks t n k) hne (hc.ended he)
  | aside _ _ ha =>
    cases ha with
    | ends _ hr hc => exact hc.ended (State.ended_modify rfl (h.ended_ne hr he) he)
    | @goesOn t _ _ x hr hx hs _ ht =>
      refine State.ended_modify ht ?_ he
      rintro rfl
      obtain ⟨y, hy, hs'⟩ := he
      cases hx.symm.trans hy
      cases hs.symm.trans hs'
    | lull _ _ hc => exact hc.ended he
    | enters _ _ _ ht => exact State.ended_append ht he
    | spawns _ _ _ ht => exact State.ended_append ht he
    | releases _ _ _ _ hc => exact hc.ended he
    | discards _ _ _ hc => exact hc.ended he

theorem Aside.ends_ended (h : Sound p l s) (ha : Aside p X Y e l l' s s')
    (hr : l.running = some ⟨i, v, .give o, .done v⟩) : l'.Ended i o := by
  cases ha with
  | ends o' hr' hc =>
    cases hr.symm.trans hr'
    obtain ⟨_, x, hx, _⟩ := h.running _ hr
    exact hc.ended ⟨{ x with status := .finished v o, followers := [] },
      by simp [State.lay, State.modifyTask, hx], rfl⟩
  | goesOn hr' | lull hr' | enters _ hr' | spawns _ hr' | releases _ hr' | discards hr' =>
    cases hr.symm.trans hr'

end Ended

end Kept

theorem Step.move {p : Nat} {X Y : Prop} {allowed : State → Event → Prop} {l l' : State}
    {s : Pool.State} (h : Sound p l s) (hxy : X → s.closed = true ∨ Y)
    (ha : ∀ e, allowed l e → e.Spares X Y l) (hst : Step p allowed l l') :
    ∃ v s', Move p X Y v l l' s s' := by
  cases hst with
  | loop hl => exact ⟨none, State.step_move h hl⟩
  | event e hr he hal => exact ⟨some e, State.after_move h hr hxy he (ha e hal)⟩

theorem Step.freely {p : Nat} {allowed : State → Event → Prop} {l l' : State} {s : Pool.State}
    (h : Sound p l s) (hst : Step p allowed l l') : ∃ v s', Move p True True v l l' s s' :=
  hst.move h (fun _ => .inr trivial) fun e _ => freely_spares trivial trivial l e

def Pool.fresh (settings : Config.PoolSettings) : Pool.State := { settings, source := .opener }

theorem Sound.ofPool (settings : Config.PoolSettings) :
    Sound Session.Pooling.number (.ofPool settings) (Pool.fresh settings) := by
  have hr : (State.ofPool settings).running = none := rfl
  have ht : (State.ofPool settings).tasks = [] := rfl
  have hs : (Pool.fresh settings).reaper = none := rfl
  refine ⟨rfl, rfl, ?_, ?_, ?_, ?_, ?_⟩
  · simp [hr]
  · simp [ht]
  · simp [hs]
  · simp [Weight.of, hr, ht]
  · simp [ht]

theorem Steps.induction {p : Nat} {allowed : State → Event → Prop} {I : State → Pool.State → Prop}
    {l l' : State} {s : Pool.State} (h0 : Sound p l s) (hi : I l s)
    (hstep : ∀ {l l' s}, Sound p l s → I l s → Step p allowed l l' → ∃ s', Sound p l' s' ∧ I l' s')
    (h : Steps p allowed l l') : ∃ s', Sound p l' s' ∧ I l' s' := by
  induction h with
  | refl => exact ⟨s, h0, hi⟩
  | tail _ hst ih =>
    obtain ⟨s', hs, hi⟩ := ih
    exact hstep hs hi hst

theorem Reachable.induction {settings : Config.PoolSettings} {allowed : State → Event → Prop}
    {I : State → Pool.State → Prop} {l : State}
    (h0 : I (.ofPool settings) (Pool.fresh settings))
    (hstep : ∀ {l l' s}, Sound Session.Pooling.number l s → I l s →
      Step Session.Pooling.number allowed l l' → ∃ s', Sound Session.Pooling.number l' s' ∧ I l' s')
    (h : Reachable settings allowed l) : ∃ s, Sound Session.Pooling.number l s ∧ I l s :=
  Steps.induction (.ofPool settings) h0 hstep h

end SqliteAccess.Loop
