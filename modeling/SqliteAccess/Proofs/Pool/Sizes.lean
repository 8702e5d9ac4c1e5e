import SqliteAccess.Proofs.Pool.Operations

/-!
Pools whose sizes are whole numbers: how many connections they open, and what their operations do to
the number of slots that are taken and of callers that are pending in line.
-/

namespace SqliteAccess

theorem Number.exact_of_isInteger {a : Number} (ha : a.isInteger = true) :
    a.exact = .fraction a.toInt 1 := by
  cases a with
  | bool b => rfl
  | int n => rfl
  | float x => cases ha

theorem Number.lt_of_isInteger {a b : Number} (ha : a.isInteger = true) (hb : b.isInteger = true) :
    a.lt b = decide (a.toInt < b.toInt) := by
  rw [Number.lt, Number.exact_of_isInteger ha, Number.exact_of_isInteger hb]
  simp [Number.Exact.lt]

theorem Number.subCount_of_isInteger {a : Number} (ha : a.isInteger = true) (n : Nat) :
    a.subCount n = .int (a.toInt - n) := by
  cases a with
  | bool b => rfl
  | int k => rfl
  | float x => cases ha

/-- The sizes are whole numbers, the smaller one not above the larger, with room for a connection. -/
structure Config.PoolSettings.Sized (c : Config.PoolSettings) (least most : Nat) : Prop where
  leastInteger : c.minConnections.isInteger = true
  least_eq : c.minConnections.toInt = least
  mostInteger : c.maxConnections.isInteger = true
  most_eq : c.maxConnections.toInt = most
  ordered : least ≤ most
  positive : 1 ≤ most

namespace Pool

theorem wanted_int (z : Int) : wanted (.int z) = .ok z.toNat := by
  unfold wanted
  rw [Number.lt_int]
  by_cases hz : z < 0
  · simp [hz]
    omega
  · simp [hz, Number.isInteger, Number.toInt]

namespace State

variable {s s' : State} {m M id : Nat} {now : Float}

theorem hasRoom_eq (h : s.settings.Sized m M) : s.hasRoom = decide (s.size < M) := by
  rw [hasRoom, Number.lt_of_isInteger rfl h.mostInteger, h.most_eq]
  simp [Number.toInt]

theorem growth_eq (h : s.settings.Sized m M) :
    s.growth = .ok (if s.closed then 0 else min (s.waiting - s.spawned) (M - s.size)) := by
  unfold growth
  split
  · rfl
  · rw [Number.subCount_of_isInteger h.mostInteger, h.most_eq]
    dsimp only
    rw [Number.lt_int]
    split
    next hlt =>
      rw [decide_eq_true_iff] at hlt
      rw [wanted_int]
      congr 1
      omega
    next hlt =>
      rw [decide_eq_true_iff] at hlt
      rw [wanted_int]
      congr 1
      omega

theorem shortfall_eq (h : s.settings.Sized m M) :
    s.shortfall = .ok (if s.closed then 0 else m - s.size) := by
  unfold shortfall
  split
  · rfl
  · rw [Number.subCount_of_isInteger h.leastInteger, h.least_eq, wanted_int]
    congr 1
    omega

theorem shortfall_ne_error (h : s.settings.minConnections.isInteger = true) (e : Failure) :
    s.shortfall ≠ .error e := by
  unfold shortfall
  split
  · exact nofun
  · rw [Number.subCount_of_isInteger h, wanted_int]
    exact nofun

theorem size_lt_of_mayOpen (h : s.settings.Sized m M) (hs : s.mayOpen = true) : s.size < M := by
  simp only [mayOpen, hasRoom_eq h, Bool.and_eq_true, decide_eq_true_iff] at hs
  exact hs.2

theorem live_update (s : State) (id : Nat) {f : Connection → Connection}
    (hf : ∀ c, (f c).live = c.live) : (s.update id f).live.length = s.live.length := by
  unfold live update
  rw [← List.countP_eq_length_filter, ← List.countP_eq_length_filter, List.countP_map]
  apply List.countP_congr
  intro c _
  by_cases hc : c.id = id <;> simp [hc, hf]

theorem live_without_le (s : State) (id : Nat) : (s.without id).live.length ≤ s.live.length := by
  unfold live without update
  rw [← List.countP_eq_length_filter, ← List.countP_eq_length_filter, List.countP_map]
  apply List.countP_mono_left
  intro c _
  by_cases hc : c.id = id <;> simp [hc]

theorem size_update (s : State) (id : Nat) {f : Connection → Connection}
    (hf : ∀ c, (f c).live = c.live) : (s.update id f).size = s.size :=
  congrArg (· + s.pending) (s.live_update id hf)

@[simp] theorem size_checkout (s : State) (id : Nat) : (s.checkout id).size = s.size :=
  s.size_update id fun _ => rfl

@[simp] theorem size_setFree (s : State) (id : Nat) : (s.setFree id).size = s.size :=
  s.size_update id fun _ => rfl

@[simp] theorem size_rest (s : State) (id : Nat) (now : Float) : (s.rest id now).size = s.size :=
  s.size_update id fun _ => rfl

@[simp] theorem size_expand (s : State) (T n : Nat) : (s.expand T n).size = s.size + n :=
  (Nat.add_assoc _ _ _).symm

@[simp] theorem size_register (s : State) (id : Nat) (h : Handle) (now : Float) :
    (s.register id h now).size = s.size + 1 := by
  simp [size, register, live, Nat.add_right_comm]

theorem Checkin.size (h : Checkin s id now s') : s'.size = s.size := by
  cases h with
  | serves before w rest => exact size_checkout s id
  | rests => exact size_rest { s with waiters := [] } id now

theorem Checkin.waiting (h : Checkin s id now s') : s'.waiting = s.waiting - 1 := by
  cases h with
  | serves before w rest hs hb hw =>
    have hb' : before.filter (·.pending) = [] := by simpa using hb
    simp [State.waiting, hs, hb', hw]
  | rests hn =>
    have hn' : s.waiters.filter (·.pending) = [] := by simpa using hn
    simp [State.waiting, hn', State.rest, update]

theorem Checkin.counts (h : Checkin s id now s') : s'.pending = s.pending ∧ s'.spawned = s.spawned := by
  cases h <;> exact ⟨rfl, rfl⟩

theorem Lull.waiting_le (h : s.Lull s') : s'.waiting ≤ s.waiting := by
  have hl := h.line
  unfold waiting
  generalize s.waiters = a at hl
  generalize s'.waiters = b at hl
  induction hl with
  | nil => exact Nat.le_refl _
  | @cons w w' _ _ hw _ ih =>
    cases hp' : w'.pending with
    | true => simpa [hp', hw.2 hp'] using ih
    | false =>
      cases hp : w.pending with
      | true => simpa [hp, hp'] using Nat.le_succ_of_le ih
      | false => simpa [hp, hp'] using ih

end State

end Pool

end SqliteAccess
