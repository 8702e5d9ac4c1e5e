import SqliteAccess.Proofs.Pool.Run

/-!
What holds of the tasks of one pool in every state of a run: their stacks are chains of callers, the
sweep does nothing but sweep, and tasks wait for one another only once the pool is closed.
-/

namespace SqliteAccess.Loop

inductive Status.Fits (p : Nat) : Status → Prop
  | made {s : Shape} {c : Call s} :
      c.Root p → Status.Fits p (.ready none (.push (.start c) (.done s)))
  | ready {u : Shape} (signal : Option Failure) {f : Frame .unit u} {k : Stack u} {w : Wait} :
      f.Pauses w → (Stack.push f k).Fits p → Status.Fits p (.ready signal (.push f k))
  | paused {u : Shape} {f : Frame .unit u} {k : Stack u} {w : Wait} :
      f.Pauses w → (Stack.push f k).Fits p → Status.Fits p (.paused w (.push f k))
  | running : Status.Fits p .running
  | finished {s : Shape} (o : Outcome s) : Status.Fits p (.finished s o)

def Running.Fits (p : Nat) (r : Running) : Prop :=
  match r.control with
  | .call c => r.stack.Holds p c
  | .give _ => r.stack.Fits p

namespace Weight

def acquiring : Weight where
  call
    | .acquire _ => 1
    | _ => 0
  rest
    | .opened _ | .inLine _ => 1
    | _ => 0

def standing : Weight where
  call _ := 0
  rest
    | .inLine _ => 1
    | _ => 0

theorem standing_below_acquiring : standing.Below acquiring :=
  ⟨fun _ => Nat.zero_le _, fun f => by
    cases f <;> first | exact Nat.zero_le _ | exact Nat.le_refl _⟩

def background : Weight where
  call
    | .openBackground _ => 1
    | _ => 0
  rest
    | .openedBackground _ => 1
    | _ => 0

def closing : Weight where
  call
    | .closePool _ => 1
    | _ => 0
  rest
    | .reaperEnded _ | .draining _ _ | .backgroundEnded _ => 1
    | _ => 0

def shutting : Weight where
  call _ := 0
  rest
    | .reaperEnded _ | .draining _ _ | .backgroundEnded _ => 1
    | _ => 0

def resting : Weight where
  call
    | .reap _ => 1
    | _ => 0
  rest
    | .rested _ _ | .reaperEnded _ => 1
    | _ => 0

structure Rooted (W : Weight) (p : Nat) : Prop where
  frame : ∀ {s t : Shape} {f : Frame s t} {d : Call t}, f.RestOf p d → W.frame f = W.call d
  awaited : ∀ {s t : Shape} {f : Frame s t} {c : Call s}, f.Awaits p c → W.call c = 0
  destroy : ∀ id, W.call (.destroy p id) = 0

theorem acquiring_rooted (p : Nat) : acquiring.Rooted p :=
  ⟨fun h => by cases h <;> rfl, fun h => by cases h <;> rfl, fun _ => rfl⟩

theorem background_rooted (p : Nat) : background.Rooted p :=
  ⟨fun h => by cases h <;> rfl, fun h => by cases h <;> rfl, fun _ => rfl⟩

theorem closing_rooted (p : Nat) : closing.Rooted p :=
  ⟨fun h => by cases h <;> rfl, fun h => by cases h <;> rfl, fun _ => rfl⟩

variable {W : Weight} {p : Nat} {u : Shape}

theorem Rooted.work (hW : W.Rooted p) {w : Work u} {d : Call u} (h : w.Of p d) :
    W.work w = W.call d := by
  cases h with
  | call => rfl
  | back o hf => exact hW.frame hf

theorem Rooted.next_le (hW : W.Rooted p) {n : Next u} {d : Call u} (h : n.Keeps p d) :
    W.next n ≤ W.call d := by
  cases h with
  | give => exact Nat.zero_le _
  | call ha hf => simp [Weight.next, hW.frame hf, hW.awaited ha]
  | jump _ => exact Nat.le_refl _
  | late id => simp [Weight.next, hW.destroy id]
  | pause _ hf => simp [Weight.next, hW.frame hf]
  | again _ hf => simp [Weight.next, hW.frame hf]

theorem Rooted.alone (hW : W.Rooted p) {w : Work u} {d : Call u} {k : Stack u} (hk : k.Holds p d)
    (hd : w.Of p d) (hw : 0 < W.work w) : k = .done u := by
  rw [hW.work hd] at hw
  cases hk with
  | done _ => rfl
  | push ha _ _ =>
    rw [hW.awaited ha] at hw
    exact absurd hw (Nat.lt_irrefl 0)

end Weight

structure Sound (p : Nat) (l : State) (s : Pool.State) : Prop where
  pool : l.pool? p = some s
  source : s.source = .opener
  running : ∀ r, l.running = some r →
    r.Fits p ∧ ∃ k, l.tasks[r.task]? = some k ∧ k.status = .running
  tasks : ∀ (i : Nat) (k : Task), l.tasks[i]? = some k → k.status.Fits p
  reaper : ∀ r, s.reaper = some r → r < l.tasks.length ∧ Weight.acquiring.of l r = 0 ∧
    Weight.background.of l r = 0 ∧ Weight.closing.of l r = 0
  shutting : s.closed = false → ∀ i, Weight.shutting.of l i = 0
  followers : ∀ (i : Nat) (k : Task), l.tasks[i]? = some k → ∀ t, .resume t ∈ k.followers →
    s.closed = true ∧ t < l.tasks.length ∧ Weight.acquiring.of l t = 0

namespace Sound

variable {p : Nat} {l : State} {s : Pool.State} {i : Nat} {k : Task}

theorem paused_weight {W : Weight} {u : Shape} {f : Frame .unit u} {st : Stack u} {w : Wait}
    (hk : l.tasks[i]? = some k) (hs : k.status = .paused w (.push f st)) : W.frame f ≤ W.of l i := by
  simp [Weight.of, hk, hs, Weight.status, Weight.stack]
  omega

theorem of_on {W : Weight} {u : Shape} {w : Work u} {t : Nat} {st : Stack u} (h : Sound p l s)
    (hr : l.running = some (w.on t st)) : W.of l t = W.work w + W.stack st := by
  obtain ⟨_, k, hk, hs⟩ := h.running _ hr
  rw [Work.on_task] at hk
  simp [Weight.of, hk, hs, Weight.status, hr, Weight.running_on]

theorem reaper_alone (h : Sound p l s) {r : Nat} (hr : s.reaper = some r) :
    ∃ k, l.tasks[r]? = some k ∧ k.Alone := by
  obtain ⟨hl, ha, _, hc⟩ := h.reaper r hr
  refine ⟨l.tasks[r], List.getElem?_eq_getElem hl, ?_⟩
  intro w st hs
  have hk := List.getElem?_eq_getElem hl
  have hf := h.tasks r _ hk
  rw [hs] at hf
  cases hf with
  | paused hp _ =>
    have hwa := paused_weight (W := .acquiring) hk hs
    have hwc := paused_weight (W := .closing) hk hs
    rw [ha] at hwa
    rw [hc] at hwc
    cases hp with
    | turn | givenUp => exact absurd hwa (Nat.not_succ_le_zero 0)
    | task | tasks => exact absurd hwc (Nat.not_succ_le_zero 0)
    | opening | closing | sleep => trivial

theorem passes_shutting (h : Sound p l s) (hk : l.tasks[i]? = some k) (hp : k.Passes) :
    0 < Weight.shutting.of l i := by
  obtain ⟨w, st, hs, hw⟩ := hp
  have hf := h.tasks i k hk
  rw [hs] at hf
  cases hf with
  | paused hp _ =>
    have hle := paused_weight (W := .shutting) hk hs
    cases hp with
    | turn | givenUp | opening | closing | sleep => cases hw
    | task | tasks => exact hle

theorem closed_of_shutting (h : Sound p l s) (hi : 0 < Weight.shutting.of l i) : s.closed = true := by
  cases hc : s.closed with
  | true => rfl
  | false =>
    have := h.shutting hc i
    omega

end Sound

section Acts

variable {p t T N N' : Nat} {s s' : Pool.State} {u : Shape} {w : Work u} {cs : List (Call .unit)}
  {n : Next u}

theorem Act.constant (h : Act p t T N s w s' N' cs n) : s'.source = s.source ∧
    s'.settings = s.settings ∧ (s.closed = true → s'.closed = true) := by
  cases h
  case takes ht =>
    rw [(Pool.State.takeIdle?_eq ht).2]
    exact ⟨rfl, rfl, id⟩
  case removes hr =>
    rw [(Pool.State.remove?_eq hr).2]
    exact ⟨rfl, rfl, id⟩
  case lines h₁ hs =>
    subst h₁
    cases hs <;> exact ⟨rfl, rfl, id⟩
  case passesOn i e now _ =>
    have hc := ((s.takeUp t).leaveLine t).checkin_spec i now
    generalize (((s.takeUp t).leaveLine t).checkin i now).1 = s' at hc
    cases hc <;> exact ⟨rfl, rfl, id⟩
  case backgroundDone c now _ =>
    have hc := s.endBackground.checkin_spec c.id now
    generalize (s.endBackground.checkin c.id now).1 = s' at hc
    cases hc <;> exact ⟨rfl, rfl, id⟩
  case backgroundFailed h₁ =>
    subst h₁
    exact ⟨rfl, rfl, id⟩
  case shuts | shutsAtOnce | shutFails => exact ⟨rfl, rfl, fun _ => rfl⟩
  all_goals exact ⟨rfl, rfl, id⟩

theorem Act.closed (h : Act p t T N s w s' N' cs n) (hc : s.closed = true) : s'.closed = true :=
  h.constant.2.2 hc

theorem Act.was_open (h : Act p t T N s w s' N' cs n) (hc : s'.closed = false) :
    s.closed = false := by
  cases hs : s.closed with
  | false => rfl
  | true => exact absurd (h.closed hs) (by simp [hc])

theorem Act.reaper (h : Act p t T N s w s' N' cs n) {r : Nat} (hr : s'.reaper = some r) :
    s.reaper = some r ∨ r = T ∧ ∃ cs', cs = .reap p :: cs' := by
  have awake : ∀ cs', (s.awake T).reaper = some r →
      s.reaper = some r ∨ r = T ∧ ∃ cs'', starters p s ++ cs' = .reap p :: cs'' := by
    intro cs' ha
    simp only [Pool.State.awake] at ha
    unfold starters
    split at ha
    · exact .inl ha
    next hs =>
      cases ha
      exact .inr ⟨rfl, cs', by simp [hs]⟩
  cases h
  case takes ht =>
    rw [(Pool.State.takeIdle?_eq ht).2] at hr
    simpa using awake [] hr
  case opens => simpa using awake [] hr
  case lines h₁ hs =>
    subst h₁
    cases hs <;> exact awake _ hr
  case removes hm =>
    rw [(Pool.State.remove?_eq hm).2] at hr
    exact .inl hr
  case passesOn id e now _ =>
    have hs := ((s.takeUp t).leaveLine t).checkin_spec id now
    generalize (((s.takeUp t).leaveLine t).checkin id now).1 = s' at hs hr
    cases hs <;> exact .inl hr
  case backgroundDone c now _ =>
    have hs := s.endBackground.checkin_spec c.id now
    generalize (s.endBackground.checkin c.id now).1 = s' at hs hr
    cases hs <;> exact .inl hr
  case backgroundFailed h₁ =>
    rw [h₁] at hr
    exact .inl hr
  case shutsAtOnce => cases hr
  case clears => cases hr
  all_goals exact .inl hr

theorem Act.calls (h : Act p t T N s w s' N' cs n) : ∀ c ∈ cs, c = .reap p ∨ c = .openBackground p := by
  have hr : ∀ c ∈ starters p s, c = .reap p := by
    unfold starters
    split <;> simp
  have ho : ∀ r, ∀ c ∈ openers p r, c = .openBackground p := by simp [openers]
  cases h
  case takes => exact fun c hc => .inl (hr c hc)
  case opens => exact fun c hc => .inl (hr c hc)
  case lines =>
    intro c hc
    rcases List.mem_append.mp hc with hc | hc
    · exact .inl (hr c hc)
    · exact .inr (ho _ c hc)
  case openFailed => exact fun c hc => .inr (ho _ c hc)
  case openDone => exact fun c hc => .inr (ho _ c hc)
  case backgroundFailed => exact fun c hc => .inr (ho _ c hc)
  case destroyed => exact fun c hc => .inr (ho _ c hc)
  case sweptOver => exact fun c hc => .inr (ho _ c hc)
  all_goals simp

theorem Act.shutting (h : Act p t T N s w s' N' cs n) (hs : s.closed = true ∨ s'.closed = false) :
    Weight.shutting.next n ≤ Weight.shutting.work w := by
  have drains : ∀ {s rest n}, Drains p s rest n → Weight.shutting.next n ≤ 1 := by
    intro s rest n hd
    cases hd <;> simp [Weight.next, Weight.shutting, Weight.frame]
  cases h
  case started => exact Nat.le_refl _
  case lines hl => cases hl <;> exact Nat.zero_le _
  case evicts hn => cases hn <;> exact Nat.zero_le _
  case evictsOn hn => cases hn <;> exact Nat.zero_le _
  case reaps hr => cases hr <;> exact Nat.zero_le _
  case sweptOver hr => cases hr <;> exact Nat.zero_le _
  case shuts ho _ => exact absurd hs (by simp [ho, Pool.State.shut])
  case shutsAtOnce ho _ => exact absurd hs (by simp [ho, Pool.State.shut, Pool.State.cleared])
  case clears hd => exact drains hd
  case drains hd => exact drains hd
  all_goals exact Nat.zero_le _

end Acts

end SqliteAccess.Loop
