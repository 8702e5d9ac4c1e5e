import SqliteAccess.Proofs.Pool.Passage

/-!
Connections have one owner at a time, and while the pool is open none of them is lost, as long as
callers give back only what they have got, and once.
-/

namespace SqliteAccess.Loop

theorem filterMap_perm_cons {α β : Type} {xs : List α} {f g : α → Option β} {a : α} {b : β}
    (hn : xs.Nodup) (ha : a ∈ xs) (hf : f a = none) (hg : g a = some b)
    (h : ∀ x, x ≠ a → g x = f x) : (xs.filterMap g).Perm (b :: xs.filterMap f) := by
  obtain ⟨ys, zs, rfl⟩ := List.append_of_mem ha
  obtain ⟨_, hzs, hboth⟩ := List.nodup_append.mp hn
  have hys : ys.filterMap g = ys.filterMap f := List.filterMap_congr fun x hx =>
    h x (hboth x hx a List.mem_cons_self)
  have hzs' : zs.filterMap g = zs.filterMap f := List.filterMap_congr fun x hx =>
    h x fun he => (List.nodup_cons.mp hzs).1 (he ▸ hx)
  simp only [List.filterMap_append, List.filterMap_cons, hf, hg, hys, hzs']
  exact List.perm_middle

def Status.got : Status → Option Nat
  | .finished .lease (.ok c) => some c.id
  | _ => none

namespace State

def got? (l : State) (t : Nat) : Option Nat := (l.tasks[t]?).bind fun k => k.status.got

def holds? (l : State) (r : List Nat) (t : Nat) : Option Nat := if t ∈ r then none else l.got? t

def held (l : State) (r : List Nat) : List Nat := (List.range l.tasks.length).filterMap (l.holds? r)

def brings (l : State) : List Nat :=
  match l.running with
  | some ⟨_, _, .give o, _⟩ => brought o
  | _ => []

def Doomed (l : State) (i : Nat) : Prop := ∃ t, 0 < (Weight.dooms i).of l t

def front (W : Weight) (l : State) (t : Nat) : Nat :=
  match l.running with
  | some r => if r.task = t then W.control r.control else 0
  | none => 0

end State

structure Placed (due : Nat → Prop) (held : List Nat) (l : State) (s : Pool.State) : Prop where
  sole : s.Sole due held l.brings
  doomed : ∀ i, l.Doomed i → i < l.nextConnection ∧ i ∉ s.given ++ (held ++ l.brings)
  early : s.closed = false → ∀ i t, (Weight.dooms i).of l t ≤ l.front (Weight.dooms i) t

structure Owned (r : List Nat) (l : State) (s : Pool.State) : Prop
    extends Placed (fun i => s.closed = true ∨ l.Doomed i) (l.held r) l s where
  returning : ∀ t c, l.running = some ⟨t, .lease, .give (.ok c), .done .lease⟩ → s.UsedAs true c.id
  returned : ∀ t ∈ r, (l.got? t).isSome

def Event.returns? : Event → Option Nat
  | .release _ i | .enter (.destroy _ i) | .spawn (.destroy _ i) => some i
  | _ => none

section Moves

variable {p : Nat} {X Y : Prop} {v : Option Event} {l l' : State} {s s' : Pool.State}
  {r r' : List Nat} {t i : Nat}

namespace State

theorem got?_of_le (h : l.tasks.length ≤ t) : l.got? t = none := by
  rw [got?, List.getElem?_eq_none h]
  rfl

theorem lt_of_got? (h : l.got? t = some i) : t < l.tasks.length := by
  by_contra hn
  rw [got?_of_le (Nat.le_of_not_lt hn)] at h
  cases h

theorem held_congr (hl : l.tasks.length ≤ l'.tasks.length) (h : ∀ t, l'.got? t = l.got? t) :
    l'.held r = l.held r := by
  obtain ⟨d, hd⟩ := Nat.exists_eq_add_of_le hl
  have hf : l'.holds? r = l.holds? r := funext fun t => by rw [holds?, h]; rfl
  have hnew : (List.range d).filterMap (l.holds? r ∘ (l.tasks.length + ·)) = [] := by
    apply List.filterMap_eq_nil_iff.mpr
    intro j _
    simp [holds?, got?_of_le (l := l) (Nat.le_add_right l.tasks.length j)]
  rw [held, held, hf, hd, List.range_add, List.filterMap_append, List.filterMap_map, hnew,
    List.append_nil]

theorem held_cons (h : l.holds? r t = some i) : (l.held r).Perm (i :: l.held (t :: r)) := by
  have hr : t ∉ r ∧ l.got? t = some i := by simpa [holds?] using h
  refine filterMap_perm_cons List.nodup_range (List.mem_range.mpr (lt_of_got? hr.2)) ?_ h ?_
  · simp [holds?]
  · intro j hj
    simp [holds?, hj]

end State

theorem Status.Nudge.got {D : Failure → Prop} {x y : Status} (h : x.Nudge D y) : y.got = x.got := by
  cases h <;> rfl

theorem Changed.got? {C : Nat → Prop} {D : Nat → Failure → Prop} {E : Nat → Follower → Prop} {N : Nat}
    {cs : List (Call .unit)} (h : Changed p C D E l l' s' N cs) (t : Nat) : l'.got? t = l.got? t := by
  cases hy : l'.tasks[t]? with
  | none =>
    have hl := h.length
    rw [List.getElem?_eq_none_iff] at hy
    rw [State.got?_of_le hy, State.got?_of_le (by omega)]
  | some y =>
    rcases h.task_cases hy with ⟨x, hx, hn⟩ | ⟨c, _, hle, hm⟩
    · rw [State.got?, State.got?, hy, hx]
      exact hn.status.got
    · rw [State.got?_of_le hle, State.got?, hy]
      exact congrArg Status.got hm.status

theorem Sound.got?_running (h : Sound p l s) {x : Running} (hr : l.running = some x) :
    l.got? x.task = none := by
  obtain ⟨_, k, hk, hs⟩ := h.running x hr
  rw [State.got?, hk]
  exact congrArg Status.got hs

theorem State.got?_modify {f : Task → Task} (ht : l'.tasks = l.tasks.modify t f)
    (hf : ∀ x, l.tasks[t]? = some x → (f x).status.got = x.status.got) (j : Nat) :
    l'.got? j = l.got? j := by
  rw [got?, got?, ht]
  by_cases hj : t = j
  · subst hj
    rw [List.getElem?_modify_eq]
    cases hx : l.tasks[t]? with
    | none => rfl
    | some x => exact hf x hx
  · rw [List.getElem?_modify_ne _ _ hj]

theorem State.got?_append {x : Task} (ht : l'.tasks = l.tasks ++ [x]) (hx : x.status.got = none)
    (j : Nat) : l'.got? j = l.got? j := by
  by_cases hj : j < l.tasks.length
  · rw [got?, got?, ht, List.getElem?_append_left hj]
  · rw [got?_of_le (Nat.le_of_not_lt hj), got?, ht, List.getElem?_append_right (Nat.le_of_not_lt hj),
      List.getElem?_singleton]
    split
    · exact hx
    · rfl

theorem State.carryOn_got? {u : Shape} {k : Stack u} (n : Next u) (h : l.got? t = none) (j : Nat) :
    (l.carryOn t n k).got? j = l.got? j := by
  refine State.got?_modify (l.carryOn_tasks t n k) (fun x hx => ?_) j
  rw [State.got?, hx] at h
  cases n with
  | give | call | jump => rfl
  | pause | again => exact h.symm

theorem State.brings_of_none (hr : l.running = none) : l.brings = [] := by
  simp [State.brings, hr]

theorem State.carryOn_brings {u : Shape} (l : State) (t : Nat) (n : Next u) (k : Stack u) :
    (l.carryOn t n k).brings = n.brings := by
  cases n <;> rfl

theorem State.brings_on {u : Shape} {w : Work u} {k : Stack u} (h : l.running = some (w.on t k)) :
    l.brings = w.brings := by
  cases w <;> simp [State.brings, h, Work.on, Work.brings]

theorem State.carryOn_front {W : Weight} {u : Shape} (l : State) (t : Nat) (n : Next u) (k : Stack u) :
    (l.carryOn t n k).front W t = W.front n := by
  cases n <;> simp [State.carryOn, State.front, Weight.front, Weight.control]

section Work

variable {u : Shape} {w : Work u} {d : Call u} {k : Stack u} {n m : Next u} {a : State}
  {cs : List (Call .unit)} {due due' : Nat → Prop} {held held' : List Nat}

theorem Work.Razes.work (h : w.Razes i) : 0 < (Weight.dooms i).work w := by
  cases w with
  | call c =>
    cases c with
    | destroy => exact Weight.dooms_destroy.mpr h
    | _ => cases h
  | back f o => cases h

theorem State.front_on {W : Weight} (hr : l.running = some (w.on t k)) (j : Nat) :
    l.front W j ≤ if j = t then W.work w else 0 := by
  simp only [State.front, hr, Work.on_task]
  by_cases hj : t = j
  · rw [if_pos hj, if_pos hj.symm]
    cases w with
    | call => exact Nat.le_refl _
    | back => exact Nat.zero_le _
  · rw [if_neg hj]
    exact Nat.zero_le _

theorem State.of_on {W : Weight} (hr : l.running = some (w.on t k))
    (hx : ∃ x, l.tasks[t]? = some x ∧ x.status = .running) : W.of l t = W.work w + W.stack k := by
  obtain ⟨x, hx, hs⟩ := hx
  simp [Weight.of, hx, hs, Weight.status, hr, Weight.running_on]

structure Next.Alike (n m : Next u) : Prop where
  brings : m.brings = n.brings
  next : ∀ i, (Weight.dooms i).next m = (Weight.dooms i).next n
  front : ∀ i, (Weight.dooms i).front m = (Weight.dooms i).front n

theorem Next.Alike.refl (n : Next u) : n.Alike n := ⟨rfl, fun _ => rfl, fun _ => rfl⟩

-- What a step of the task at work does to the destroys that have not begun.
section Doomed

variable (hr : l.running = some (w.on t k))
  (hx : ∃ x, l.tasks[t]? = some x ∧ x.status = .running)
  (ha : Act p t l.tasks.length l.nextConnection s w s' a.nextConnection cs n)
  (hc : Changed p (fun i => s.reaper = some i) (Tells s s') (Follows w t s s') l a s'
    a.nextConnection cs)

include hr hx ha hc in
theorem Act.work_dooms (hm : n.Alike m) (i j : Nat) :
    (Weight.dooms i).of (a.carryOn t m k) j + (if j = t then (Weight.dooms i).work w else 0) ≤
      (Weight.dooms i).of l j + if j = t then (Weight.dooms i).next n else 0 := by
  obtain ⟨hwt, hwi, hwj⟩ := hc.work_weight (W := .dooms i) (n := m) hr hx
  rw [hm.next i] at hwt
  have ht : t < l.tasks.length := by
    obtain ⟨x, hx, _⟩ := hx
    exact (List.getElem?_eq_some_iff.mp hx).1
  by_cases hj : j < l.tasks.length
  · by_cases hjt : j = t
    · subst hjt
      simp only [if_true]
      omega
    · simp only [if_neg hjt, hwi j hj hjt]
      exact Nat.le_refl _
  · have hjt : j ≠ t := by omega
    simp only [if_neg hjt]
    have h0 : (Weight.dooms i).of (a.carryOn t m k) j = 0 := by
      by_cases hlen : j < l.tasks.length + cs.length
      · obtain ⟨e, rfl⟩ := Nat.exists_eq_add_of_le (Nat.le_of_not_lt hj)
        rw [hwj e (by omega)]
        rcases ha.calls _ (List.getElem_mem (by omega : e < cs.length)) with he | he <;> rw [he] <;> rfl
      · refine Weight.of_eq_zero (fun r hr' => ?_) (by rw [State.carryOn_length, hc.length]; omega)
        rw [State.carryOn_running hr', State.carryOn_length, hc.length]
        omega
    omega

include hr in
theorem Placed.razes (ho : Placed due held l s) (hcl : s.closed = false)
    {j : Nat} (hj : 0 < (Weight.dooms i).of l j) : j = t ∧ w.Razes i := by
  have hf := ho.early hcl i j
  simp only [State.front, hr, Work.on_task] at hf
  split at hf
  next he =>
    refine ⟨he.symm, ?_⟩
    cases w with
    | call c =>
      have hpos : 0 < (Weight.dooms i).call c := hj.trans_le hf
      cases c with
      | destroy => exact Weight.dooms_destroy.mp hpos
      | _ => exact absurd hpos (Nat.lt_irrefl 0)
    | back f o => exact absurd (hj.trans_le hf) (Nat.lt_irrefl 0)
  next => omega

include hr hx in
theorem Weight.doomed_work (hw : 0 < (Weight.dooms i).work w) : l.Doomed i := by
  refine ⟨t, hw.trans_le ?_⟩
  rw [State.of_on hr hx]
  exact Nat.le_add_right _ _

include hr hx ha in
theorem Placed.work_sole (ho : Placed due held l s)
    (hk : ∀ i ∈ s.connections.map (·.id), i < l.nextConnection)
    (hz : ∀ e, s.shortfall = .error e → ∀ i, due' i) (hd : ∀ i, due i → due' i ∨ w.Razes i)
    (hlate : s.closed = true → ∀ i, due' i) : s'.Sole due' held n.brings := by
  have hs := ho.sole
  rw [State.brings_on hr] at hs
  refine ha.sole hz hk (fun i hi hm => ?_) hd hlate hs
  apply (ho.doomed i (Weight.doomed_work hr hx hi.work)).2
  rw [← List.append_assoc]
  exact List.mem_append_left _ hm

include hr ha in
theorem Placed.work_apart (ho : Placed due held l s) (hi : l.Doomed i) :
    i ∉ s'.given ++ (held ++ n.brings) := by
  obtain ⟨hlt, hout⟩ := ho.doomed i hi
  rw [State.brings_on hr] at hout
  simp only [List.mem_append, not_or] at hout ⊢
  have hown : i ∉ s'.given ++ n.brings := by
    intro hm
    rcases ha.comes_by hm with hold | ⟨hc, hw⟩ | rfl
    · rcases List.mem_append.mp hold with hold | hold
      · exact hout.1 hold
      · exact hout.2.2 hold
    · obtain ⟨j, hj⟩ := hi
      have := (ho.razes hr hc hj).2.work
      omega
    · exact Nat.lt_irrefl _ hlt
  rw [List.mem_append, not_or] at hown
  exact ⟨hown.1, hout.2.1, hown.2⟩

include hr hx ha hc in
theorem Placed.work_doomed (ho : Placed due held l s)
    (hk : ∀ i ∈ s.connections.map (·.id), i < l.nextConnection) (hm : n.Alike m)
    (hs : s'.Sole due' held n.brings) (hi : (a.carryOn t m k).Doomed i) :
    i < a.nextConnection ∧ i ∉ s'.given ++ (held ++ n.brings) := by
  obtain ⟨j, hj⟩ := hi
  have hw := ha.work_dooms hr hx hc hm i j
  have hcases : l.Doomed i ∨ i ∈ s'.idle ∨ i ∈ w.brings ∧ s'.given = s.given ∧ n.brings = [] := by
    by_cases h0 : 0 < (Weight.dooms i).of l j
    · exact .inl ⟨j, h0⟩
    · by_cases hjt : j = t
      · simp only [if_pos hjt] at hw
        exact (ha.dooms (by omega)).imp_left (Weight.doomed_work hr hx)
      · simp only [if_neg hjt] at hw
        omega
  rcases hcases with hdoom | hidle | ⟨hborne, hg, hb⟩
  · exact ⟨(ho.doomed i hdoom).1.trans_le ha.next_le, ho.work_apart hr ha hdoom⟩
  · exact ⟨(hs.free i hidle).lt (ha.known hk), hs.idle_apart hidle⟩
  · have hsole := ho.sole
    rw [State.brings_on hr] at hsole
    obtain ⟨b, hu⟩ := hsole.live i hborne
    refine ⟨(hu.lt hk).trans_le ha.next_le, ?_⟩
    rw [hg, hb, List.append_nil]
    exact (hsole.borne_apart hborne).2

include hr hx ha hc in
theorem Placed.work_early (ho : Placed due held l s)
    (hsh : s.closed = false → ∀ i, Weight.shutting.of l i = 0) (hm : n.Alike m)
    (hopen : s'.closed = false) (i j : Nat) :
    (Weight.dooms i).of (a.carryOn t m k) j ≤ (a.carryOn t m k).front (.dooms i) j := by
  have hcl := ha.was_open hopen
  have hshut := hsh hcl t
  rw [State.of_on hr hx] at hshut
  -- Nobody but the task at work had anything to destroy, and that has begun with this step.
  have hfront := ha.front hopen (by omega) i
  have hw := ha.work_dooms hr hx hc hm i j
  have hle := (ho.early hcl i j).trans (State.front_on hr j)
  by_cases hjt : j = t
  · subst hjt
    rw [State.carryOn_front, hm.front]
    simp only [if_true] at hw hle
    omega
  · simp only [if_neg hjt] at hw hle
    omega

include hr hx ha hc in
theorem Placed.work (ho : Placed due held l s)
    (hk : ∀ i ∈ s.connections.map (·.id), i < l.nextConnection)
    (hsh : s.closed = false → ∀ i, Weight.shutting.of l i = 0)
    (hz : ∀ e, s.shortfall = .error e → ∀ i, due' i) (hd : ∀ i, due i → due' i ∨ w.Razes i)
    (hlate : s.closed = true → ∀ i, due' i) (hm : n.Alike m) :
    Placed due' held (a.carryOn t m k) s' := by
  have hs := ho.work_sole hr hx ha hk hz hd hlate
  have hnext : (a.carryOn t m k).nextConnection = a.nextConnection := by cases m <;> rfl
  refine ⟨?_, fun i hi => ?_, ho.work_early hr hx ha hc hsh hm⟩
  · rw [State.carryOn_brings, hm.brings]
    exact hs
  · rw [State.carryOn_brings, hm.brings, hnext]
    exact ho.work_doomed hr hx ha hc hk hm hs hi

end Doomed

theorem Owned.work (h : Sound p l s) (hl : Listed l s)
    (hz : s.settings.minConnections.isInteger = true) (ho : Owned r l s)
    (hr : l.running = some (w.on t k)) (hd : w.Of p d) (hk : k.Holds p d)
    (ha : Act p t l.tasks.length l.nextConnection s w s' a.nextConnection cs n)
    (hc : Changed p (fun i => s.reaper = some i) (Tells s s') (Follows w t s s') l a s'
      a.nextConnection cs) : Owned r (a.carryOn t n k) s' := by
  have hrun : l.got? t = none := Work.on_task w t k ▸ h.got?_running hr
  have hgot : ∀ i, (a.carryOn t n k).got? i = l.got? i := fun i =>
    (State.carryOn_got? n ((hc.got? t).trans hrun) i).trans (hc.got? i)
  have hheld : (a.carryOn t n k).held r = l.held r := by
    refine State.held_congr ?_ hgot
    rw [State.carryOn_length, hc.length]
    exact Nat.le_add_right _ _
  have hdue : ∀ i, s.closed = true ∨ l.Doomed i →
      (s'.closed = true ∨ (a.carryOn t n k).Doomed i) ∨ w.Razes i := by
    intro i hi
    cases hcl : s.closed with
    | true => exact .inl (.inl (ha.closed hcl))
    | false =>
      obtain ⟨j, hj⟩ := hi.resolve_left (by simp [hcl])
      exact .inr (ho.razes hr hcl hj).2
  have hp := ho.toPlaced.work hr (h.at_work hr) ha hc hl.known h.shutting
    (fun e he => absurd he (Pool.State.shortfall_ne_error hz _)) hdue
    (fun hcl _ => .inl (ha.closed hcl)) (.refl n)
  refine ⟨by rw [hheld]; exact hp, fun t' c hr' => ?_, fun i hi => ?_⟩
  · cases n with
    | give o =>
      cases hr'
      have hsole := ho.sole
      rw [State.brings_on hr] at hsole
      cases hk with
      | done hroot => exact ha.returning hsole hd hroot rfl
    | call | jump | pause | again => cases hr'
  · rw [hgot]
    exact ho.returned i hi

end Work

theorem Event.Makes.spares {e : Event} {u : Shape} {c : Call u} (h : e.Makes p s c)
    (he : e.returns? = none) : (Weight.dooms i).call c = 0 := by
  cases h with
  | enter c | spawn c =>
    cases c with
    | destroy => cases he
    | _ => rfl
  | discard => cases he

theorem Aside.dooms (h : Sound p l s) (h' : Sound p l' s') (ha : Aside p X Y v l l' s s')
    (hv : ∀ e, v = some e → e.returns? = none) (i j : Nat) :
    (Weight.dooms i).of l' j = (Weight.dooms i).of l j := by
  by_cases hj : j < l.tasks.length
  · exact ha.weight_of h hj
  · rw [Weight.of_eq_zero (fun _ hr => h.running_lt hr) (Nat.le_of_not_lt hj)]
    by_cases hj' : j < l'.tasks.length
    · obtain ⟨e, u, c, he, hm, _, hw⟩ := ha.weight_new (W := .dooms i) (Nat.le_of_not_lt hj) hj'
      rw [hw, hm.spares (hv e he)]
    · exact Weight.of_eq_zero (fun _ hr => h'.running_lt hr) (Nat.le_of_not_lt hj')

theorem Placed.still {due due' : Nat → Prop} {held : List Nat} (ho : Placed due held l s)
    (hi : s'.idle = s.idle) (hg : s'.handed = s.handed) (hc : s'.connections = s.connections)
    (hcl : s'.closed = s.closed) (hN : l'.nextConnection = l.nextConnection) (hb : l'.brings = l.brings)
    (hof : ∀ i j, (Weight.dooms i).of l' j ≤ (Weight.dooms i).of l j)
    (hfront : ∀ i j, l.front (.dooms i) j = 0) (hd : ∀ i, due i → due' i) : Placed due' held l' s' := by
  have hgiven : s'.given = s.given := by rw [Pool.State.given, hg]; rfl
  refine ⟨?_, fun i hdoomed => ?_, fun hopen i j => ?_⟩
  · rw [hb]
    exact ho.sole.congr hi hg hc hd
  · obtain ⟨j, hj⟩ := hdoomed
    rw [hgiven, hb, hN]
    exact ho.doomed i ⟨j, hj.trans_le (hof i j)⟩
  · have hle := ho.early (hcl ▸ hopen) i j
    rw [hfront] at hle
    have := hof i j
    omega

theorem Owned.still (ho : Owned r l s) (hi : s'.idle = s.idle) (hg : s'.handed = s.handed)
    (hc : s'.connections = s.connections) (hcl : s'.closed = s.closed)
    (hN : l'.nextConnection = l.nextConnection) (hlen : l.tasks.length ≤ l'.tasks.length)
    (hgot : ∀ t, l'.got? t = l.got? t) (hb : l.brings = []) (hb' : l'.brings = [])
    (hof : ∀ i j, (Weight.dooms i).of l' j = (Weight.dooms i).of l j)
    (hfront : ∀ i j, l.front (.dooms i) j = 0) : Owned r l' s' := by
  have hheld := State.held_congr (r := r) hlen hgot
  have hdue : ∀ i, s.closed = true ∨ l.Doomed i → s'.closed = true ∨ l'.Doomed i := fun i =>
    Or.imp (hcl ▸ id) fun ⟨j, hj⟩ => ⟨j, (hof i j).symm ▸ hj⟩
  have hp := ho.toPlaced.still hi hg hc hcl hN (hb'.trans hb.symm) (fun i j => (hof i j).le) hfront hdue
  refine ⟨by rw [hheld]; exact hp, fun t c hr => ?_, fun t ht => ?_⟩
  · simp [State.brings, hr, brought] at hb'
  · rw [hgot]
    exact ho.returned t ht

theorem State.lay_got? {u : Shape} {o : Outcome u} (ht : t < l.tasks.length) :
    (l.lay t o).got? t = (Status.finished u o).got := by
  rw [got?, lay, modifyTask, List.getElem?_modify_eq, List.getElem?_eq_getElem ht]
  rfl

theorem State.lay_got?_of_ne {u : Shape} {o : Outcome u} {j : Nat} (hj : j ≠ t) :
    (l.lay t o).got? j = l.got? j := by
  rw [got?, lay, modifyTask, List.getElem?_modify_ne _ _ (Ne.symm hj)]
  rfl

theorem Placed.gets {due due' : Nat → Prop} {held held' : List Nat} (ho : Placed due held l s)
    (hb : l.brings = [i]) (hb' : l'.brings = []) (hu : s.UsedAs true i)
    (hheld : held'.Perm (i :: held)) (hN : l'.nextConnection = l.nextConnection)
    (hof : ∀ i j, (Weight.dooms i).of l' j = (Weight.dooms i).of l j)
    (hfront : ∀ i j, l.front (.dooms i) j = 0) (hd : ∀ i, due i → due' i) : Placed due' held' l' s := by
  have hdoom : ∀ i, l'.Doomed i ↔ l.Doomed i := fun i => by simp only [State.Doomed, hof]
  have hs := ho.sole
  rw [hb] at hs
  refine ⟨?_, fun j hj => ?_, fun hopen j k => ?_⟩
  · rw [hb']
    exact (hs.gets hu hheld).congr rfl rfl rfl hd
  · obtain ⟨hlt, hm⟩ := ho.doomed j ((hdoom j).mp hj)
    rw [hb] at hm
    rw [hN, hb', List.append_nil, List.mem_append, hheld.mem_iff, List.mem_cons]
    simp only [List.mem_append, List.mem_singleton, not_or] at hm ⊢
    exact ⟨hlt, hm.1, hm.2.2, hm.2.1⟩
  · have hle := ho.early hopen j k
    rw [hfront] at hle
    rw [hof]
    omega

theorem Status.got_brought {u : Shape} (o : Outcome u) :
    (Status.finished u o).got.toList = brought o := by
  cases u <;> cases o <;> rfl

theorem State.returned_ne (h : Sound p l s) (hret : ∀ j ∈ r, (l.got? j).isSome) {x : Running}
    (hr : l.running = some x) : ∀ j ∈ r, j ≠ x.task := by
  rintro j hj rfl
  simpa [h.got?_running hr] using hret _ hj

theorem State.held_ends (h : Sound p l s) (hret : ∀ j ∈ r, (l.got? j).isSome) {u : Shape} {o : Outcome u}
    (hr : l.running = some ⟨t, u, .give o, .done u⟩) {C : Nat → Prop} {D : Nat → Failure → Prop}
    {E : Nat → Follower → Prop} {N : Nat} (hc : Changed p C D E (l.lay t o) l' s' N []) :
    (l'.held r).Perm (l.brings ++ l.held r) := by
  have hrun : l.got? t = none := h.got?_running hr
  have hout : t ∉ r := fun ht => State.returned_ne h hret hr t ht rfl
  have hlen : l'.tasks.length = l.tasks.length := by
    rw [hc.length]
    simp [State.lay, State.modifyTask]
  have hgot : l'.got? t = (Status.finished u o).got :=
    (hc.got? t).trans (State.lay_got? (h.running_lt hr))
  have hothers : ∀ j, j ≠ t → l'.got? j = l.got? j := fun j hj =>
    (hc.got? j).trans (State.lay_got?_of_ne hj)
  have hb : l.brings = (Status.finished u o).got.toList := by
    simp only [State.brings, hr, Status.got_brought]
  cases hg : (Status.finished u o).got with
  | none =>
    rw [hb, hg, State.held_congr hlen.ge fun j => ?_]
    · exact .refl _
    · by_cases hj : j = t
      · rw [hj, hgot, hg, hrun]
      · exact hothers j hj
  | some i =>
    rw [hb, hg, State.held, State.held, hlen]
    refine filterMap_perm_cons List.nodup_range (List.mem_range.mpr (h.running_lt hr)) ?_ ?_ ?_
    · simp [State.holds?, hrun]
    · simp [State.holds?, hgot, hg, hout]
    · intro j hj
      simp [State.holds?, hothers j hj]

theorem Aside.got? (ha : Aside p X Y v l l' s s') (hr : l.running = none) (j : Nat) :
    l'.got? j = l.got? j := by
  cases ha with
  | ends _ hr' => cases hr.symm.trans hr'
  | goesOn _ hk hs _ ht =>
    refine State.got?_modify ht (fun y hy => ?_) j
    cases hk.symm.trans hy
    rw [hs]
    rfl
  | lull _ _ hc => exact hc.got? j
  | enters _ _ _ ht hs =>
    refine State.got?_append ht ?_ j
    rw [hs]
    rfl
  | spawns _ _ _ ht hm =>
    refine State.got?_append ht ?_ j
    rw [hm.status]
    rfl
  | releases _ _ _ _ hc => exact hc.got? j
  | discards _ _ _ hc => exact hc.got? j

theorem Owned.gets {c : Pool.Lease} (ho : Owned r l s)
    (hr : l.running = some ⟨t, .lease, .give (.ok c), .done .lease⟩) (hr' : l'.running = none)
    (hN : l'.nextConnection = l.nextConnection) (hheld : (l'.held r).Perm (l.brings ++ l.held r))
    (hgot : ∀ j ∈ r, l'.got? j = l.got? j)
    (hof : ∀ i j, (Weight.dooms i).of l' j = (Weight.dooms i).of l j) : Owned r l' s := by
  have hb : l.brings = [c.id] := by simp [State.brings, hr, brought]
  have hfront : ∀ i j, l.front (.dooms i) j = 0 := by simp [State.front, hr, Weight.control]
  rw [hb] at hheld
  refine ⟨ho.toPlaced.gets hb (State.brings_of_none hr') (ho.returning t c hr) hheld hN hof hfront
    fun i => Or.imp_right (Exists.imp fun j hj => (hof i j).symm ▸ hj), fun _ _ hg => ?_, fun j hj => ?_⟩
  · cases hr'.symm.trans hg
  · rw [hgot j hj]
    exact ho.returned j hj

theorem Owned.ends (h : Sound p l s) (ho : Owned r l s) {u : Shape} {o : Outcome u}
    (hr : l.running = some ⟨t, u, .give o, .done u⟩) {C : Nat → Prop} {D : Nat → Failure → Prop}
    {E : Nat → Follower → Prop} (hc : Changed p C D E (l.lay t o) l' s l.nextConnection [])
    (hof : ∀ i j, (Weight.dooms i).of l' j = (Weight.dooms i).of l j) : Owned r l' s := by
  have hlen : l'.tasks.length = l.tasks.length := by
    rw [hc.length]
    simp [State.lay, State.modifyTask]
  have hothers : ∀ j, j ≠ t → l'.got? j = l.got? j := fun j hj =>
    (hc.got? j).trans (State.lay_got?_of_ne hj)
  have hr' : l'.running = none := hc.running
  have still : (Status.finished u o).got = none → brought o = [] → Owned r l' s := by
    intro ho' hb
    refine ho.still rfl rfl rfl rfl hc.next hlen.ge (fun j => ?_) ?_ (State.brings_of_none hr') hof
      fun i j => ?_
    · by_cases hj : j = t
      · subst hj
        rw [hc.got?, State.lay_got? (h.running_lt hr), ho', h.got?_running hr]
      · exact hothers j hj
    · simp [State.brings, hr, hb]
    · simp [State.front, hr, Weight.control]
  by_cases hu : u = .lease
  · subst hu
    cases o with
    | error e => exact still rfl rfl
    | ok c =>
      refine ho.gets hr hr' hc.next (State.held_ends h ho.returned hr hc) (fun j hj => ?_) hof
      exact hothers j (State.returned_ne h ho.returned hr j hj)
  · apply still _ (brought_of_ne hu o)
    cases u <;> first | rfl | exact absurd rfl hu

theorem Aside.brings (ha : Aside p X Y v l l' s s') : l'.brings = [] := by
  cases ha with
  | ends _ _ hc => exact State.brings_of_none hc.running
  | goesOn _ _ _ hr => simp [State.brings, hr, brought]
  | lull hn _ hc => exact State.brings_of_none (hc.running.trans hn)
  | enters _ _ hr => simp [State.brings, hr]
  | spawns _ _ hr => exact State.brings_of_none hr
  | releases _ hn _ _ hc => exact State.brings_of_none (hc.running.trans hn)
  | discards hn _ _ hc => exact State.brings_of_none (hc.running.trans hn)

theorem Owned.aside (h : Sound p l s) (h' : Sound p l' s') (ho : Owned r l s)
    (hN : l'.nextConnection = l.nextConnection) (ha : Aside p X Y v l l' s s')
    (hv : ∀ e, v = some e → e.returns? = none) : Owned r l' s' := by
  have hof := ha.dooms h h' hv
  have calm : l.running = none → s'.idle = s.idle → s'.handed = s.handed →
      s'.connections = s.connections → Owned r l' s' := by
    intro hr hi hg hc
    have hfront : ∀ i j, l.front (.dooms i) j = 0 := by simp [State.front, hr]
    exact ho.still hi hg hc ha.constant.2.2.2 hN ha.length_le (ha.got? hr) (State.brings_of_none hr)
      ha.brings hof hfront
  cases ha with
  | ends o hr hc => exact ho.ends h hr hc hof
  | goesOn hn | enters _ hn | spawns _ hn => exact calm hn rfl rfl rfl
  | lull hn hl =>
    rw [hl.same] at calm ⊢
    exact calm hn rfl rfl rfl
  | releases _ _ _ _ _ he | discards _ _ _ _ he => cases hv _ he

theorem Owned.checkRelease (ho : Owned r l s) (hh : l.holds? r t = some i) :
    s.checkRelease i = .ok () := by
  have hm : i ∈ s.given ++ l.held r :=
    List.mem_append_right _ ((State.held_cons hh).mem_iff.mpr List.mem_cons_self)
  exact (ho.sole.used i hm).check

theorem Placed.returns {due due' : Nat → Prop} {held held' : List Nat} (ho : Placed due held l s)
    (hk : ∀ i ∈ s.connections.map (·.id), i < l.nextConnection) (hheld : held.Perm (i :: held'))
    (hb : l.brings = []) (hb' : l'.brings = []) (hN : l'.nextConnection = l.nextConnection)
    (hs : s'.Sole due' held' []) (hgiven : ∀ j ∈ s'.given, j ∈ s.given ∨ j = i)
    (hdoom : ∀ j, l'.Doomed j → l.Doomed j ∨ j = i ∧ s'.given = s.given)
    (hearly : s'.closed = false → ∀ i j, (Weight.dooms i).of l' j ≤ l'.front (.dooms i) j) :
    Placed due' held' l' s' := by
  have hsole := ho.sole
  rw [hb] at hsole
  refine ⟨hb'.symm ▸ hs, fun j hd => ?_, hearly⟩
  rw [hb', hN, List.append_nil]
  -- The caller had the connection, so no destroy of it was under way before.
  rcases hdoom j hd with hd | ⟨rfl, hg⟩
  · obtain ⟨hlt, hm⟩ := ho.doomed j hd
    refine ⟨hlt, fun hm' => hm ?_⟩
    rw [hb, List.append_nil, List.mem_append, hheld.mem_iff]
    rcases List.mem_append.mp hm' with hj | hj
    · refine (hgiven j hj).imp_right fun he => ?_
      rw [he]
      exact List.mem_cons_self
    · exact .inr (List.mem_cons_of_mem i hj)
  · have hgives := hsole.gives hheld
    obtain ⟨b, hu⟩ := hgives.borne_live
    rw [hg]
    exact ⟨hu.lt hk, (hgives.borne_apart List.mem_cons_self).2⟩

theorem Owned.returns (hl : Listed l s) (ho : Owned r l s) (hh : l.holds? r t = some i)
    (hb : l.brings = []) (hb' : l'.brings = []) (hN : l'.nextConnection = l.nextConnection)
    (hlen : l.tasks.length ≤ l'.tasks.length) (hgot : ∀ t, l'.got? t = l.got? t)
    (hs : s'.Sole (fun j => s'.closed = true ∨ l'.Doomed j) (l.held (t :: r)) [])
    (hgiven : ∀ j ∈ s'.given, j ∈ s.given ∨ j = i)
    (hdoom : ∀ j, l'.Doomed j → l.Doomed j ∨ j = i ∧ s'.given = s.given)
    (hearly : s'.closed = false → ∀ i j, (Weight.dooms i).of l' j ≤ l'.front (.dooms i) j) :
    Owned (t :: r) l' s' := by
  have hheld := State.held_congr (r := t :: r) hlen hgot
  have hp := ho.toPlaced.returns hl.known (State.held_cons hh) hb hb' hN hs hgiven hdoom hearly
  refine ⟨by rw [hheld]; exact hp, fun _ c hr => ?_, fun j hj => ?_⟩
  · simp [State.brings, hr, brought] at hb'
  · rw [hgot]
    rcases List.mem_cons.mp hj with rfl | hj
    · have hi : j ∉ r ∧ l.got? j = some i := by simpa [State.holds?] using hh
      simp [hi.2]
    · exact ho.returned j hj

theorem Owned.gives (ho : Owned r l s) (hr : l.running = none) (hh : l.holds? r t = some i) :
    s.Sole (fun j => s.closed = true ∨ l.Doomed j) (l.held (t :: r)) [i] := by
  have hs := ho.sole
  rw [State.brings_of_none hr] at hs
  exact hs.gives (State.held_cons hh)

theorem Aside.dooms_new {e : Event} (h : Sound p l s) (h' : Sound p l' s')
    (ha : Aside p X Y (some e) l l' s s') (he : e = .release p i ∨ e = .enter (.destroy p i)) {j : Nat}
    (hj : l'.Doomed j) : l.Doomed j ∨ j = i := by
  obtain ⟨k, hk⟩ := hj
  by_cases hlt : k < l.tasks.length
  · rw [ha.weight_of h hlt] at hk
    exact .inl ⟨k, hk⟩
  · have hlt' : k < l'.tasks.length := by
      by_contra hn
      rw [Weight.of_eq_zero (fun _ hr => h'.running_lt hr) (Nat.le_of_not_lt hn)] at hk
      exact Nat.lt_irrefl 0 hk
    obtain ⟨_, u, c, hv, hm, _, hw⟩ := ha.weight_new (W := .dooms j) (Nat.le_of_not_lt hlt) hlt'
    cases hv
    rw [hw] at hk
    rcases he with rfl | rfl
    · cases hm
      exact .inr (Weight.dooms_destroy.mp hk).symm
    · cases hm
      exact .inr (Weight.dooms_destroy.mp hk).symm

theorem Owned.releases (h : Sound p l s) (h' : Sound p l' s') (hl : Listed l s) (ho : Owned r l s)
    (hh : l.holds? r t = some i) (hN : l'.nextConnection = l.nextConnection)
    (ha : Aside p X Y (some (.release p i)) l l' s s') : Owned (t :: r) l' s' := by
  have hlen := ha.length_le
  have hclosed := ha.constant.2.2.2
  have hnew : ∀ j, l'.Doomed j → l.Doomed j ∨ j = i := fun j => ha.dooms_new h h' (.inl rfl)
  have hold : ∀ j k, k < l.tasks.length → (Weight.dooms j).of l' k = (Weight.dooms j).of l k :=
    fun _ _ hk => ha.weight_of h hk
  cases ha with
  | ends _ _ _ hv => cases hv
  | goesOn _ _ _ _ _ hv => cases hv
  | lull _ _ _ _ _ _ hq => exact absurd (ho.checkRelease hh) hq
  | enters _ _ _ _ _ _ _ hv => cases hv
  | spawns _ _ _ _ _ hv => cases hv
  | releases now hr _ hopen hc hv =>
    cases hv
    have hci := s.checkin_spec i now
    generalize (s.checkin i now).1 = s' at *
    have hof : ∀ j k, (Weight.dooms j).of l' k = (Weight.dooms j).of l k := by
      intro j k
      by_cases hk : k < l.tasks.length
      · exact hold j k hk
      · rw [Weight.of_eq_zero (fun _ hr => h.running_lt hr) (Nat.le_of_not_lt hk),
          Weight.of_eq_zero (fun _ hr => h'.running_lt hr) (by rw [hc.length]; simpa using hk)]
    have hdoom : ∀ j, l'.Doomed j ↔ l.Doomed j := fun j => by simp only [State.Doomed, hof]
    refine ho.returns hl hh (State.brings_of_none hr) (State.brings_of_none (hc.running.trans hr)) hN
      hlen hc.got? ?_ (fun j hj => ?_) (fun j hj => .inl ((hdoom j).mp hj)) fun hopen' j k => ?_
    · refine ((ho.gives hr hh).checkin hci).congr rfl rfl rfl fun j => ?_
      exact Or.imp hclosed.trans (hdoom j).mpr
    · rcases hci.places with ⟨_, hg, _⟩ | ⟨_, hg, _⟩
      · simpa [hg] using hj
      · exact .inl (hg ▸ hj)
    · have hle := ho.early hopen j k
      simp only [State.front, hr] at hle
      rw [hof]
      omega
  | discards hr _ hcl hc hv =>
    cases hv
    refine ho.returns hl hh (State.brings_of_none hr) (State.brings_of_none (hc.running.trans hr)) hN
      hlen hc.got? ?_ (fun j hj => .inl hj) (fun j hj => (hnew j hj).imp_right fun he => ⟨he, rfl⟩) ?_
    · have hs := (ho.gives hr hh).setFree
      exact (hs.drop fun _ _ => .inl hcl).congr rfl rfl rfl fun _ => id
    · intro hopen
      cases (hclosed.trans hcl).symm.trans hopen

theorem Owned.destroys (h : Sound p l s) (h' : Sound p l' s') (hl : Listed l s) (ho : Owned r l s)
    (hh : l.holds? r t = some i) (hN : l'.nextConnection = l.nextConnection)
    (ha : Aside p X Y (some (.enter (.destroy p i))) l l' s s') : Owned (t :: r) l' s' := by
  have hlen := ha.length_le
  have hnew : ∀ j, l'.Doomed j → l.Doomed j ∨ j = i := fun j => ha.dooms_new h h' (.inr rfl)
  have hold : ∀ j k, k < l.tasks.length → (Weight.dooms j).of l' k = (Weight.dooms j).of l k :=
    fun _ _ hk => ha.weight_of h hk
  cases ha with
  | ends _ _ _ hv => cases hv
  | goesOn _ _ _ _ _ hv => cases hv
  | lull _ _ _ _ _ _ hq => exact hq.elim
  | spawns _ _ _ _ _ hv => cases hv
  | releases _ _ _ _ _ hv => cases hv
  | discards _ _ _ _ hv => cases hv
  | @enters u c x _ hr hr' ht hs _ _ hv =>
    cases hv
    have hgot := State.got?_append ht (by rw [hs]; rfl)
    have hbegun : ∀ j, (Weight.dooms j).of l' l.tasks.length =
        (Weight.dooms j).call (.destroy p i) := by
      intro j
      simp [Weight.of, hr', ht, hs, Weight.status, Weight.running, Weight.control, Weight.stack]
    refine ho.returns hl hh (State.brings_of_none hr) (by simp [State.brings, hr']) hN hlen hgot ?_
      (fun j hj => .inl hj) (fun j hj => (hnew j hj).imp_right fun he => ⟨he, rfl⟩) ?_
    · refine (ho.gives hr hh).drop fun j hj => ?_
      rcases hj with (hcl | ⟨k, hk⟩) | hj
      · exact .inl hcl
      · have hlt : k < l.tasks.length := by
          by_contra hn
          rw [Weight.of_eq_zero (fun _ hr => h.running_lt hr) (Nat.le_of_not_lt hn)] at hk
          exact Nat.lt_irrefl 0 hk
        exact .inr ⟨k, (hold j k hlt).symm ▸ hk⟩
      · refine .inr ⟨l.tasks.length, ?_⟩
        rw [hbegun]
        exact Weight.dooms_destroy.mpr (List.mem_singleton.mp hj).symm
    · intro hopen j k
      rcases Nat.lt_trichotomy k l.tasks.length with hk | rfl | hk
      · have hle := ho.early hopen j k
        simp only [State.front, hr] at hle
        rw [hold j k hk]
        omega
      · rw [hbegun]
        simp [State.front, hr', Weight.control]
      · rw [Weight.of_eq_zero (fun _ hr => h'.running_lt hr) (by simp [ht]; omega)]
        exact Nat.zero_le _

end Moves

/-- A pool in use, with the callers that have given back what they got. -/
structure Scene where
  loop : State
  returned : List Nat

/-- One step of the loop, an event that gives nothing back, or a caller gives back what it has. A
destroy gives back once it begins, so a task that is made for one comes in when it begins. -/
inductive Scene.Step (p : Nat) (x : Scene) : Scene → Prop
  | loop {l' : State} : x.loop.step? = some l' → Scene.Step p x ⟨l', x.returned⟩
  | event (e : Event) : x.loop.running = none → e.Offered p → e.returns? = none →
      Scene.Step p x ⟨x.loop.after e, x.returned⟩
  | release {t i : Nat} : x.loop.running = none → x.loop.holds? x.returned t = some i →
      Scene.Step p x ⟨x.loop.after (.release p i), t :: x.returned⟩
  | destroy {t i : Nat} : x.loop.running = none → x.loop.holds? x.returned t = some i →
      Scene.Step p x ⟨x.loop.after (.enter (.destroy p i)), t :: x.returned⟩

def Disciplined (settings : Config.PoolSettings) (x : Scene) : Prop :=
  Relation.ReflTransGen (Scene.Step Session.Pooling.number) ⟨.ofPool settings, []⟩ x

/-- The connection has been handed to the caller in line, or the caller has got it and has not given
it back. -/
def Scene.Owns (x : Scene) (s : Pool.State) (t i : Nat) : Prop :=
  (t, i) ∈ s.handed ∨ x.loop.holds? x.returned t = some i

structure Scene.Kept (p : Nat) (settings : Config.PoolSettings) (x : Scene) (s : Pool.State) :
    Prop where
  sound : Sound p x.loop s
  settings : s.settings = settings
  listed : Listed x.loop s
  owned : Owned x.returned x.loop s

section Scenes

variable {p : Nat} {settings : Config.PoolSettings} {x y : Scene} {s s' : Pool.State} {t t' i : Nat}

theorem Owned.ofPool (settings : Config.PoolSettings) :
    Owned [] (.ofPool settings) (Pool.fresh settings) := by
  have ht : (State.ofPool settings).tasks = [] := rfl
  have hr : (State.ofPool settings).running = none := rfl
  have hw : ∀ i t, (Weight.dooms i).of (.ofPool settings) t = 0 := by simp [Weight.of, ht, hr]
  have hsole : ∀ due, (Pool.fresh settings).Sole due [] [] := by
    intro due
    constructor
    · exact .nil
    all_goals
      intros
      contradiction
  refine ⟨⟨hsole _, ?_, ?_⟩, by simp [hr], by simp⟩
  · rintro i ⟨t, hi⟩
    rw [hw] at hi
    exact absurd hi (Nat.lt_irrefl 0)
  · intro _ i t
    rw [hw]
    exact Nat.zero_le _

theorem Owned.move {X Y : Prop} {v : Option Event} {l l' : State} {r : List Nat} (h : Sound p l s)
    (hz : s.settings.minConnections.isInteger = true) (hl : Listed l s) (ho : Owned r l s)
    (hm : Move p X Y v l l' s s') (hv : ∀ e, v = some e → e.returns? = none) : Owned r l' s' := by
  have h' := hm.sound h
  cases hm with
  | work hr hd hk ha hc heq =>
    subst heq
    exact ho.work h hl hz hr hd hk ha hc
  | aside _ hN ha => exact ho.aside h h' hN ha hv

theorem Scene.Step.kept (hz : settings.minConnections.isInteger = true) (h : Scene.Kept p settings x s)
    (hst : Scene.Step p x y) : ∃ s', Scene.Kept p settings y s' := by
  have kept : ∀ {v l' s'}, Move p True True v x.loop l' s s' → ∀ {r}, Owned r l' s' →
      ∃ s', Scene.Kept p settings ⟨l', r⟩ s' := fun hm _ ho =>
    ⟨_, hm.sound h.sound, hm.settings.trans h.settings, h.listed.move h.sound hm, ho⟩
  have moves : ∀ {e : Event}, x.loop.running = none → e.Offered p →
      ∃ s', Move p True True (some e) x.loop (x.loop.after e) s s' := fun hr he =>
    State.after_move h.sound hr (fun _ => .inr trivial) he (freely_spares trivial trivial _ _)
  have hz' : s.settings.minConnections.isInteger = true := h.settings ▸ hz
  cases hst with
  | loop hl =>
    obtain ⟨s', hm⟩ := State.step_move (X := True) (Y := True) h.sound hl
    exact kept hm (h.owned.move h.sound hz' h.listed hm fun _ he => by cases he)
  | event e hr he hret =>
    obtain ⟨s', hm⟩ := moves hr he
    refine kept hm (h.owned.move h.sound hz' h.listed hm fun e' he' => ?_)
    cases he'
    exact hret
  | @release t i hr hh =>
    obtain ⟨s', hm⟩ := moves (e := .release p i) hr rfl
    apply kept hm
    have h' := hm.sound h.sound
    cases hm with
    | work _ _ _ _ _ _ hv => cases hv
    | aside _ hN ha => exact h.owned.releases h.sound h' h.listed hh hN ha
  | @destroy t i hr hh =>
    obtain ⟨s', hm⟩ := moves (e := .enter (.destroy p i)) hr (.destroy i)
    apply kept hm
    have h' := hm.sound h.sound
    cases hm with
    | work _ _ _ _ _ _ hv => cases hv
    | aside _ hN ha => exact h.owned.destroys h.sound h' h.listed hh hN ha

theorem Disciplined.kept (hz : settings.minConnections.isInteger = true) (h : Disciplined settings x) :
    ∃ s, Scene.Kept Session.Pooling.number settings x s := by
  induction h with
  | refl => exact ⟨_, .ofPool settings, rfl, .ofPool settings, .ofPool settings⟩
  | tail _ hst ih =>
    obtain ⟨s, h⟩ := ih
    exact hst.kept hz h

theorem Scene.owned_iff : i ∈ s.given ++ x.loop.held x.returned ↔ ∃ t, x.Owns s t i := by
  rw [List.mem_append, Pool.State.given, State.held, List.mem_map, List.mem_filterMap]
  constructor
  · rintro (⟨⟨t, _⟩, ht, rfl⟩ | ⟨t, _, ht⟩)
    · exact ⟨t, .inl ht⟩
    · exact ⟨t, .inr ht⟩
  · rintro ⟨t, ht | ht⟩
    · exact .inl ⟨_, ht, rfl⟩
    · have hg : t ∉ x.returned ∧ x.loop.got? t = some i := by simpa [State.holds?] using ht
      exact .inr ⟨t, List.mem_range.mpr (State.lt_of_got? hg.2), ht⟩

theorem Scene.Owns.unique (hn : (s.given ++ x.loop.held x.returned).Nodup) (h : x.Owns s t i)
    (h' : x.Owns s t' i) : t = t' := by
  obtain ⟨hgiven, hheld, hboth⟩ := List.nodup_append.mp hn
  have handed : ∀ {t}, (t, i) ∈ s.handed → i ∈ s.given := fun ht => List.mem_map_of_mem ht
  have holds : ∀ {t}, x.loop.holds? x.returned t = some i → i ∈ x.loop.held x.returned := fun ht =>
    (State.held_cons ht).mem_iff.mpr List.mem_cons_self
  rcases h with h | h <;> rcases h' with h' | h'
  · exact congrArg Prod.fst (List.inj_on_of_nodup_map hgiven h h' rfl)
  · exact absurd rfl (hboth i (handed h) i (holds h'))
  · exact absurd rfl (hboth i (handed h') i (holds h))
  · by_contra hne
    have hout := (List.nodup_cons.mp ((State.held_cons h).nodup_iff.mp hheld)).1
    refine hout (List.mem_filterMap.mpr ⟨t', ?_, ?_⟩)
    · have hg : t' ∉ x.returned ∧ x.loop.got? t' = some i := by simpa [State.holds?] using h'
      exact List.mem_range.mpr (State.lt_of_got? hg.2)
    · rw [← h']
      simp [State.holds?, Ne.symm hne]

end Scenes

/-- No connection has two owners, every one that is owned is in use and does not rest, and while the
pool is open every connection rests, in one place and not in use, or is owned. -/
theorem owned_exclusively {settings : Config.PoolSettings}
    (hz : settings.minConnections.isInteger = true) {x : Scene} (h : Disciplined settings x) :
    ∃ s, x.loop.pool? Session.Pooling.number = some s ∧
      (∀ i t t', x.Owns s t i → x.Owns s t' i → t = t') ∧
      (∀ i t, x.Owns s t i → i ∉ s.idle ∧ ∃ c ∈ s.live, c.id = i ∧ c.inUse = true) ∧
      (x.loop.running = none → s.closed = false → ∀ c ∈ s.live,
        s.idle.count c.id = 1 ∧ c.inUse = false ∨ ∃ t, x.Owns s t c.id) := by
  obtain ⟨s, hs, _, hl, ho⟩ := h.kept hz
  obtain ⟨hidle, hn, _⟩ := List.nodup_append.mp ho.sole.once
  have hout : (s.given ++ x.loop.held x.returned).Nodup := by
    rw [← List.append_assoc] at hn
    exact (List.nodup_append.mp hn).1
  refine ⟨s, hs.pool, fun i t t' => Scene.Owns.unique hout, fun i t ht => ?_, fun hr hc c hlive => ?_⟩
  · have hm := Scene.owned_iff.mpr ⟨t, ht⟩
    obtain ⟨c, hf, hu⟩ := ho.sole.used i hm
    refine ⟨fun hi => ho.sole.idle_apart hi ?_, c, ?_, Pool.State.find?_id hf, hu⟩
    · rw [← List.append_assoc]
      exact List.mem_append_left _ hm
    · have hlive := List.find?_some hf
      rw [Bool.and_eq_true] at hlive
      exact List.mem_filter.mpr ⟨Pool.State.find?_mem hf, hlive.1⟩
  · have hf := Pool.State.find?_of_mem hl.once hlive
    rcases ho.sole.covered c.id c hf with hm | hcl | ⟨t, hd⟩
    · rcases List.mem_append.mp hm with hm | hm
      · obtain ⟨c', hf', hu⟩ := ho.sole.free c.id hm
        cases hf.symm.trans hf'
        exact .inl ⟨List.count_eq_one_of_mem hidle hm, hu⟩
      · rw [State.brings_of_none hr, List.append_nil] at hm
        exact .inr (Scene.owned_iff.mp hm)
    · cases hc.symm.trans hcl
    · have hle := ho.early hc c.id t
      simp only [State.front, hr] at hle
      omega

def firstHolds : State :=
  (((State.ofPool tight).after (.enter (.acquire Session.Pooling.number))).settleWithin 6 |>.after
    (.enter (.acquire Session.Pooling.number))).settleWithin 1

def handedOver : Scene := ⟨firstHolds.after (.release Session.Pooling.number 1), [0]⟩

theorem Disciplined.settleWithin {settings : Config.PoolSettings} {l : State} {r : List Nat}
    (h : Disciplined settings ⟨l, r⟩) (n : Nat) : Disciplined settings ⟨l.settleWithin n, r⟩ := by
  induction n generalizing l with
  | zero => exact h
  | succ n ih =>
    rw [State.settleWithin]
    cases hl : l.step? with
    | none => exact h
    | some l' => exact ih (h.tail (.loop hl))

theorem handedOver_disciplined : Disciplined tight handedOver := by
  have h₀ : Disciplined tight ⟨.ofPool tight, []⟩ := .refl
  have h₁ := Disciplined.settleWithin (h₀.tail (.event (.enter (.acquire _)) rfl .acquire rfl)) 6
  have h₂ := Disciplined.settleWithin (h₁.tail (.event (.enter (.acquire _)) rfl .acquire rfl)) 1
  exact h₂.tail (.release (t := 0) rfl rfl)

theorem owned_exclusively_handedOver : tight.minConnections.isInteger = true ∧
    Disciplined tight handedOver ∧ ∃ s, handedOver.loop.pool? Session.Pooling.number = some s ∧
      handedOver.Owns s 2 1 ∧ (∀ t, handedOver.Owns s t 1 → t = 2) ∧ 1 ∉ s.idle := by
  have hw : (handedOver.loop.pool? Session.Pooling.number).map (·.handed) = some [(2, 1)] := rfl
  obtain ⟨s, hs, hone, hused, _⟩ := owned_exclusively (x := handedOver) rfl handedOver_disciplined
  rw [hs, Option.map_some, Option.some.injEq] at hw
  have h2 : handedOver.Owns s 2 1 := .inl (by simp [hw])
  exact ⟨rfl, handedOver_disciplined, s, hs, h2, fun t ht => hone 1 t 2 ht h2, (hused 1 2 h2).1⟩

end SqliteAccess.Loop
