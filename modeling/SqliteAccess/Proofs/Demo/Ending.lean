import SqliteAccess.Proofs.Demo.Playing
import SqliteAccess.Proofs.Life.Adrift

/-!
How the demonstration ends: it shuts down the manager that its bootstrap comes back with, whatever fails
afterwards. When the bootstrap fails, nobody shuts the manager down that it has made.
-/

namespace SqliteAccess.Loop

open SqliteAccess.Pool (Handle)

/-- The manager is shut down, and each handle that the engine has opened has been closed once. -/
structure State.PutAway (l : State) : Prop where
  manager : ∃ k, l.managers = [k] ∧ k.enabled = false
  pool : ∃ s, l.pools = [s] ∧ s.closed = true ∧ s.live = []
  handles : ∀ n, 1 ≤ n → n ≤ l.engine.opened → l.engine.closes.count (.numbered n) = 1

/-- Managers are set up and pools are open, and the engine has not been asked to close any of the handles, all
of which still belong to pools. -/
structure State.LeftOpen (l : State) : Prop where
  managers : ∀ k ∈ l.managers, k.enabled = true
  pools : ∀ s ∈ l.pools, s.closed = false
  handles : ∀ n, 1 ≤ n → n ≤ l.engine.opened → l.Pooled (.numbered n)
  closes : l.engine.closes = []

variable {l : State} {φ : Phase} {url : String} {past : List State} {o : Outcome .reply}

theorem State.Stands.putAway {d : Access.Database} {id : Nat} {since : Float} (h : l.Stands (.down d id since)) :
    l.PutAway := by
  refine ⟨⟨_, h.managers, rfl⟩, ⟨_, h.pools, rfl, rfl⟩, fun n h₁ hn => ?_⟩
  have ho : l.engine.opened = 1 := h.opened
  have hc : l.engine.closes = [onlyHandle] := h.closes
  obtain rfl : n = 1 := by omega
  rw [hc]
  rfl

theorem State.Stands.leftOpen (h : l.Stands φ) (hφ : φ.Forsaken) : l.LeftOpen := by
  have ho := h.opened
  have hp := h.pools
  cases hφ with
  | blank =>
    refine ⟨fun k hk => ?_, fun s hs => ?_, fun n h₁ hn => ?_, h.closes⟩
    · rw [h.managers] at hk; cases hk
    · rw [hp] at hs; cases hs
    · rw [ho] at hn; exact absurd (Nat.le_trans h₁ hn) (Nat.not_succ_le_zero 0)
  | rests d id since =>
    refine ⟨fun k hk => ?_, fun s hs => ?_, fun n h₁ hn => ?_, h.closes⟩
    · rw [h.managers] at hk; cases List.mem_singleton.mp hk; rfl
    · rw [hp] at hs; cases List.mem_singleton.mp hs; rfl
    · rw [ho] at hn
      obtain rfl : n = 1 := Nat.le_antisymm hn h₁
      exact ⟨(Stock.rests id since).pool d, by rw [hp]; exact List.mem_singleton_self _,
        { id, handle := onlyHandle, releasedAt := since }, List.mem_singleton_self _, rfl⟩
  | lost d =>
    refine ⟨fun k hk => ?_, fun s hs => ?_, fun n h₁ hn => ?_, h.closes⟩
    · rw [h.managers] at hk; cases List.mem_singleton.mp hk; rfl
    · rw [hp] at hs; cases List.mem_singleton.mp hs; rfl
    · rw [ho] at hn; exact absurd (Nat.le_trans h₁ hn) (Nat.not_succ_le_zero 0)

theorem State.GoesOn.happens {l' : State} (h : l.GoesOn l') : l.Happens State.Offers l' := by
  cases h with
  | loop hs => exact .loop hs
  | answer hr hk hs => exact .answer hr hk hs
  | engine rules openings closings hr => exact .engine rules openings closings hr
  | tick now hr => exact .tick now hr

theorem Demonstration.atWork (h : Demonstration url past l) : l.AtWork := by
  induction h with
  | start => exact .of_none rfl
  | step _ _ hp ih => exact ih.happens hp.happens

theorem Demonstration.ends (h : Demonstration url past l) (hfin : l.isFinished 0 = true) :
    ∃ (φ : Phase) (o : Outcome .reply), l.Stands φ ∧ l.Ended 0 o ∧ Terms.ends (∃ m ∈ past, m.ComesUp) o φ := by
  obtain ⟨u, o, k, hk, hs⟩ := State.ended_of_isFinished hfin
  have notAtWork : ∀ r, l.running = some r → r.task ≠ 0 := by
    intro r hr ht
    obtain ⟨k', hk', hs'⟩ := h.atWork _ hr
    rw [ht, hk] at hk'
    cases hk'
    cases hs.symm.trans hs'
  have expects : ∀ {φ : Phase} {a : Task} {ts : List Task}, l.Stands φ → l.tasks = a :: ts →
      a.Expects (∃ m ∈ past, m.ComesUp) φ → ∃ (φ : Phase) (o : Outcome .reply), l.Stands φ ∧ l.Ended 0 o ∧
        Terms.ends (∃ m ∈ past, m.ComesUp) o φ := by
    intro φ a ts hl ht ha
    rw [ht] at hk
    cases hk
    cases ha with
    | begins _ he | told _ he | held _ he | waits _ he | notified _ he => cases hs.symm.trans he
    | ended he ho => exact ⟨_, _, hl, ⟨k, by rw [ht]; rfl, he⟩, ho⟩
  cases h.tableau with
  | starts _ _ _ hr | calls _ _ _ hr | gives _ _ _ hr => exact absurd rfl (notAtWork _ hr)
  | between _ _ _ h => exact expects h.stands h.tasks h.expects
  | sweeps hl _ ht ha => exact expects hl ht ha
  | dies hl ht ha => exact expects hl ht ha

theorem State.LeftOpen.not_putAway (h : l.LeftOpen) : ¬ l.PutAway := by
  rintro ⟨_, ⟨s, hs, hc, _⟩, _⟩
  have ho := h.pools s (by rw [hs]; exact List.mem_singleton_self s)
  cases hc.symm.trans ho

/-- Whatever the engine does, a demonstration that has ended has put everything away if and only if its bootstrap
had come back with a manager. If not, it has failed, and everything that the bootstrap opened has been left open. -/
theorem demonstration_put_away_iff (h : Demonstration url past l) (hfin : l.isFinished 0 = true) :
    (l.PutAway ↔ ∃ m ∈ past, m.ComesUp) ∧ (¬ l.PutAway → (∃ e, l.endOf 0 = .error e) ∧ l.LeftOpen) := by
  obtain ⟨φ, o, hl, ⟨k, hk, hs⟩, ⟨hc, d, id, since, rfl⟩ | ⟨hc, ⟨e, rfl⟩, hφ⟩⟩ := h.ends hfin
  · exact ⟨⟨fun _ => hc, fun _ => hl.putAway⟩, fun hn => absurd hl.putAway hn⟩
  · have hleft := hl.leftOpen hφ
    have hend : l.endOf 0 = .error e := by rw [State.endOf_eq hk, hs]; rfl
    exact ⟨⟨fun hp => absurd hp hleft.not_putAway, fun hcame => absurd hcame hc⟩, fun _ => ⟨⟨e, hend⟩, hleft⟩⟩

def State.trackUntil (past : List State) (l : State) : Nat → List State × State
  | 0 => (past, l)
  | n + 1 =>
    if l.isFinished 0 then (past, l)
    else
      match l.step? with
      | none => (past, l)
      | some l' => State.trackUntil (past ++ [l]) l' n

theorem Demonstration.trackUntil (h : Demonstration url past l) (n : Nat) :
    Demonstration url (State.trackUntil past l n).1 (State.trackUntil past l n).2 := by
  induction n generalizing past l with
  | zero => exact h
  | succ n ih =>
    rw [State.trackUntil]
    split
    · exact h
    next hfin =>
      split
      · exact h
      next l' hs => exact ih (h.step (by simpa using hfin) (.loop hs))

def keepsRows : List Engine.Rule :=
  [{ start := "select", cursor := { columns := ["name"], rows := [[.text "writers"]] } },
   { start := "delete", fault := some ⟨"OperationalError", "database is locked"⟩ }]

def readsNothing : List Engine.Rule :=
  [{ start := "select", fault := some ⟨"OperationalError", "disk I/O error"⟩ }]

def State.demonstrated (rules : List Engine.Rule) : List State × State :=
  State.trackUntil [] (State.demonstrating "sqlite:///library.db" rules [] []) 200

theorem State.demonstrated_runs (rules : List Engine.Rule) (h : SparesSetup rules) :
    Demonstration "sqlite:///library.db" (State.demonstrated rules).1 (State.demonstrated rules).2 :=
  (Demonstration.start [] h (fun _ hc => absurd hc List.not_mem_nil)).trackUntil 200

/-- The rows cannot be removed, and yet all is put away in the end. -/
theorem demonstration_put_away_iff_keepsRows :
    (Demonstration "sqlite:///library.db" (State.demonstrated keepsRows).1 (State.demonstrated keepsRows).2 ∧
      (State.demonstrated keepsRows).2.isFinished 0 = true) ∧
      (State.demonstrated keepsRows).2.endOf 0 =
        .error (.rejected "database is locked" "delete from sqlite_sequence where name = ?") ∧
      (State.demonstrated keepsRows).2.PutAway := by
  have hrun := State.demonstrated_runs keepsRows (by unfold SparesSetup; decide +kernel)
  have hfin : (State.demonstrated keepsRows).2.isFinished 0 = true := by decide +kernel
  have hcloses : (State.demonstrated keepsRows).2.engine.closes = [.numbered 1] := by decide +kernel
  refine ⟨⟨hrun, hfin⟩, by decide +kernel, ?_⟩
  by_contra hn
  have hc := ((demonstration_put_away_iff hrun hfin).2 hn).2.closes
  rw [hcloses] at hc
  cases hc

/-- The table check fails: the demonstration has ended, and the one handle is open for good. -/
theorem demonstration_leaves_handle_open :
    Demonstration "sqlite:///library.db" (State.demonstrated readsNothing).1 (State.demonstrated readsNothing).2 ∧
      (State.demonstrated readsNothing).2.isFinished 0 = true ∧
      (State.demonstrated readsNothing).2.engine.opened = 1 ∧
      .numbered 1 ∉ (State.demonstrated readsNothing).2.engine.closes ∧
      ¬ (State.demonstrated readsNothing).2.PutAway := by
  have hrun := State.demonstrated_runs readsNothing (by unfold SparesSetup; decide +kernel)
  have hopened : (State.demonstrated readsNothing).2.engine.opened = 1 := by decide +kernel
  have hcloses : (State.demonstrated readsNothing).2.engine.closes = [] := by decide +kernel
  have hno : .numbered 1 ∉ (State.demonstrated readsNothing).2.engine.closes := by
    rw [hcloses]
    exact List.not_mem_nil
  refine ⟨hrun, by decide +kernel, hopened, hno, fun hp => ?_⟩
  have hone := hp.handles 1 (Nat.le_refl 1) hopened.ge
  rw [List.count_eq_zero_of_not_mem hno] at hone
  cases hone

end SqliteAccess.Loop
