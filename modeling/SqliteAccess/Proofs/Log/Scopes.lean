import SqliteAccess.Log.Program

/-!
Scopes nest and restore. A scope that has an id of its own leaves behind the id that it found, however
it ends; and what is shown in a scope in which no id is set goes under the one id of the scope, but for
what is shown in the scopes inside it that are given an id.
-/

namespace SqliteAccess.Log

/-- The id that a scope runs under: the one that it is given, or else the one that it finds, or else a
new one. -/
def Scope.idOf (given : Option String) (s : State) : CorrelationId :=
  match given with
  | some text => if text.isEmpty then .generated s.fresh else .named text
  | none => s.current.getD (.generated s.fresh)

/-- What is shown goes under an id. Failures go under none. -/
def Output.Under (c : CorrelationId) : Output → Prop
  | .id d => d = c
  | .entry e => e.id = some c
  | .failure _ => True

def State.news (s s' : State) : List Output := s'.output.drop s.output.length

namespace Program

/-- No id is set anywhere in the program. -/
def Unset : Program → Prop
  | done | fail _ _ => True
  | set _ _ => False
  | get next | emit _ _ _ next | wait _ next => next.Unset
  | scope _ body next | time _ body next | recover body next => body.Unset ∧ next.Unset

/-- All that a program shows, each with whether it is shown in an inner scope that is given an id. -/
@[simp] def shown (apart : Bool) : Program → State → List (Bool × Output)
  | done, _ | fail _ _, _ => []
  | set given next, s =>
    let s' := (s.set given).reveal
    (s.news s').map (apart, ·) ++ next.shown apart s'
  | get next, s =>
    let s' := s.get.reveal
    (s.news s').map (apart, ·) ++ next.shown apart s'
  | scope given body next, s =>
    let inside := (s.enter given).1.reveal
    let r := (scope given body done).run s
    (s.news inside).map (apart || given.isSome, ·) ++ body.shown (apart || given.isSome) inside ++
      if r.2.isSome then [] else next.shown apart r.1
  | emit logger level message next, s =>
    let s' := s.log { level, logger, message }
    (s.news s').map (apart, ·) ++ next.shown apart s'
  | wait ms next, s => next.shown apart { s with clock := s.clock + ms / 1000.0 }
  | time t body next, s =>
    let b := (body.run s).1
    let r := (time t body done).run s
    body.shown apart s ++ (b.news r.1).map (apart, ·) ++
      if r.2.isSome then [] else next.shown apart r.1
  | recover body next, s =>
    let b := (body.run s).1
    let r := (recover body done).run s
    body.shown apart s ++ (b.news r.1).map (apart, ·) ++ next.shown apart r.1

end Program

variable {s s' s'' : State} {c : CorrelationId} {apart : Bool}

namespace State

def Grows (s s' : State) : Prop := s'.output = s.output ++ s.news s'

theorem Grows.of_append {os : List Output} (h : s'.output = s.output ++ os) : s.Grows s' := by
  rw [Grows, news, h, List.drop_left]

theorem Grows.of_eq (h : s'.output = s.output) : s.Grows s' :=
  .of_append (h.trans (List.append_nil _).symm)

theorem Grows.news_trans (h : s.Grows s') (h' : s'.Grows s'') : s.news s'' = s.news s' ++ s'.news s'' := by
  rw [Grows] at h h'
  rw [news, h', h, List.append_assoc, List.drop_left]

theorem Grows.trans (h : s.Grows s') (h' : s'.Grows s'') : s.Grows s'' := by
  rw [Grows, h.news_trans h', ← List.append_assoc, ← h, ← h']

theorem log_grows (s : State) (r : Record) : s.Grows (s.log r) := by
  unfold log
  split
  · exact .of_append rfl
  · exact .of_eq rfl

theorem reveal_grows (s : State) : s.Grows s.reveal := by
  unfold reveal
  split
  · exact .of_append rfl
  · exact .of_eq rfl

theorem append_grows (s : State) (o : Output) : s.Grows (s.append o) := .of_append rfl

theorem set_grows (s : State) (given : Option String) : s.Grows (s.set given).reveal := by
  have hs : s.Grows (s.set given) := .of_eq rfl
  exact hs.trans (reveal_grows _)

theorem get_grows (s : State) : s.Grows s.get.reveal := by
  have hs : s.Grows s.get := by
    unfold get
    split
    · exact .of_eq rfl
    · exact .of_eq rfl
  exact hs.trans (reveal_grows _)

theorem enter_grows (s : State) (given : Option String) : s.Grows (s.enter given).1.reveal := by
  have hs : s.Grows (s.enter given).1 := .of_eq rfl
  exact hs.trans (reveal_grows _)

@[simp] theorem log_current (s : State) (r : Record) : (s.log r).current = s.current := by
  unfold log
  split <;> rfl

@[simp] theorem reveal_current (s : State) : s.reveal.current = s.current := by
  unfold reveal
  split <;> rfl

theorem get_of_some (h : s.current = some c) : s.get = s := by
  rw [get, h]

theorem mem_news_log {r : Record} {o : Output} (h : s.current = some c) (ho : o ∈ s.news (s.log r)) :
    o.Under c := by
  unfold news log at ho
  split at ho
  · simp only [append, List.drop_left, List.mem_singleton] at ho
    rw [ho]
    exact h
  · simp at ho

theorem mem_news_reveal {o : Output} (h : s.current = some c) (ho : o ∈ s.news s.reveal) : o.Under c := by
  simp only [news, reveal, h, append, List.drop_left, List.mem_singleton] at ho
  rw [ho]
  rfl

end State

theorem State.enter_eq (s : State) (given : Option String) :
    (s.enter given).1.current = some (Scope.idOf given s) ∧
      ((s.enter given).2 = false ↔ given = none ∧ s.current ≠ none) := by
  cases hc : s.current with
  | none =>
    cases given with
    | none => simp [State.enter, Scope.enter, hc, CorrelationId.ofText, Scope.idOf]
    | some text =>
      cases ht : text.isEmpty <;>
        simp [State.enter, Scope.enter, hc, CorrelationId.ofText, Scope.idOf, ht]
  | some c =>
    cases given with
    | none => simp [State.enter, Scope.enter, hc, Scope.idOf]
    | some text =>
      cases ht : text.isEmpty <;>
        simp [State.enter, Scope.enter, hc, CorrelationId.ofText, Scope.idOf, ht]

namespace Program

attribute [local simp] run

variable {given : Option String} {body next : Program}

theorem run_scope (given : Option String) (body : Program) (s : State) :
    (scope given body done).run s =
      (if (s.enter given).2 then { (body.run (s.enter given).1.reveal).1 with current := s.current }
        else (body.run (s.enter given).1.reveal).1, (body.run (s.enter given).1.reveal).2) := by
  simp only [run]
  cases (body.run (s.enter given).1.reveal).2 <;> rfl

theorem run_time (t : Timing) (body : Program) (s : State) :
    (time t body done).run s =
      ((body.run s).1.log (t.record s.clock (body.run s).1.clock (body.run s).2.isNone), (body.run s).2) := by
  simp only [run]
  cases (body.run s).2 <;> rfl

theorem run_recover (body : Program) (s : State) :
    (recover body done).run s =
      (match (body.run s).2 with
        | some f => (body.run s).1.append (.failure f)
        | none => (body.run s).1, none) := by
  simp only [run]
  cases (body.run s).2 <;> rfl

theorem run_scope_next (given : Option String) (body next : Program) (s : State) :
    (scope given body next).run s =
      if ((scope given body done).run s).2.isSome then (scope given body done).run s
        else next.run ((scope given body done).run s).1 := by
  rcases h : (body.run (s.enter given).1.reveal).2 with _ | f <;> simp [h]

theorem run_time_next (t : Timing) (body next : Program) (s : State) :
    (time t body next).run s =
      if ((time t body done).run s).2.isSome then (time t body done).run s
        else next.run ((time t body done).run s).1 := by
  rcases h : (body.run s).2 with _ | f <;> simp [h]

theorem run_recover_next (body next : Program) (s : State) :
    (recover body next).run s = next.run ((recover body done).run s).1 := by
  rcases h : (body.run s).2 with _ | f <;> simp [h]

theorem run_shown (p : Program) (apart : Bool) (s : State) :
    (p.run s).1.output = s.output ++ (p.shown apart s).map Prod.snd := by
  induction p generalizing apart s with
  | done | fail => simp
  | set given next ih =>
    rw [run, shown, ih apart, s.set_grows given]
    simp [Function.comp_def]
  | get next ih =>
    rw [run, shown, ih apart, s.get_grows]
    simp [Function.comp_def]
  | emit logger level message next ih =>
    rw [run, shown, ih apart, s.log_grows]
    simp [Function.comp_def]
  | wait ms next ih => exact ih apart { s with clock := s.clock + ms / 1000.0 }
  | scope given body next ihb ihn =>
    have hleft : ((scope given body done).run s).1.output = (body.run (s.enter given).1.reveal).1.output := by
      rw [run_scope]
      dsimp only
      split <;> rfl
    rw [ihb (apart || given.isSome), s.enter_grows given] at hleft
    rw [run_scope_next, shown]
    split
    · rw [hleft]
      simp [Function.comp_def]
    · rw [ihn apart, hleft]
      simp [Function.comp_def]
  | time t body next ihb ihn =>
    have hs : (body.run s).1.Grows ((time t body done).run s).1 := by
      rw [run_time]
      exact State.log_grows _ _
    rw [run_time_next, shown]
    split
    · rw [hs, ihb apart s]
      simp [Function.comp_def]
    · rw [ihn apart, hs, ihb apart s]
      simp [Function.comp_def]
  | recover body next ihb ihn =>
    have hs : (body.run s).1.Grows ((recover body done).run s).1 := by
      rw [run_recover]
      dsimp only
      split
      · exact State.append_grows _ _
      · exact .of_eq rfl
    rw [run_recover_next, shown, ihn apart, hs, ihb apart s]
    simp [Function.comp_def]

theorem shown_apart (p : Program) (s : State) {x : Bool × Output} (hx : x ∈ p.shown true s) : x.1 = true := by
  have tagged : ∀ {os : List Output}, x ∈ os.map (true, ·) → x.1 = true := by
    intro os h
    obtain ⟨o, _, rfl⟩ := List.mem_map.mp h
    rfl
  induction p generalizing s with
  | done | fail => cases hx
  | set given next ih | get next ih | emit logger level message next ih =>
    exact (List.mem_append.mp hx).elim tagged (ih _)
  | wait ms next ih => exact ih _ hx
  | scope given body next ihb ihn =>
    simp only [shown, Bool.true_or, List.mem_append] at hx
    rcases hx with (hx | hx) | hx
    · exact tagged hx
    · exact ihb _ hx
    · split at hx
      · cases hx
      · exact ihn _ hx
  | time t body next ihb ihn =>
    simp only [shown, List.mem_append] at hx
    rcases hx with (hx | hx) | hx
    · exact ihb _ hx
    · exact tagged hx
    · split at hx
      · cases hx
      · exact ihn _ hx
  | recover body next ihb ihn =>
    simp only [shown, List.mem_append] at hx
    rcases hx with (hx | hx) | hx
    · exact ihb _ hx
    · exact tagged hx
    · exact ihn _ hx

def OwnUnder (c : CorrelationId) (os : List (Bool × Output)) : Prop := ∀ o, (false, o) ∈ os → o.Under c

theorem OwnUnder.append {os os' : List (Bool × Output)} (h : OwnUnder c os) (h' : OwnUnder c os') :
    OwnUnder c (os ++ os') := fun o ho => (List.mem_append.mp ho).elim (h o) (h' o)

theorem OwnUnder.tagged {os : List Output} (h : ∀ o ∈ os, o.Under c) :
    OwnUnder c (os.map (apart, ·)) := by
  intro o ho
  obtain ⟨o', ho', he⟩ := List.mem_map.mp ho
  cases he
  exact h o ho'

theorem OwnUnder.of_apart {os : List (Bool × Output)} (h : ∀ x ∈ os, x.1 = true) : OwnUnder c os :=
  fun _ ho => nomatch h _ ho

theorem Unset.keeps {p : Program} (hp : p.Unset) (hs : s.current = some c) :
    (p.run s).1.current = some c ∧ OwnUnder c (p.shown false s) := by
  induction p generalizing s c with
  | done | fail => exact ⟨hs, fun _ ho => nomatch ho⟩
  | set => exact hp.elim
  | get next ih =>
    rw [run, shown, State.get_of_some hs]
    obtain ⟨hc, hown⟩ := ih hp (s := s.reveal) ((s.reveal_current).trans hs)
    exact ⟨hc, .append (.tagged fun o ho => State.mem_news_reveal hs ho) hown⟩
  | emit logger level message next ih =>
    rw [run, shown]
    obtain ⟨hc, hown⟩ := ih hp (s := s.log { level, logger, message }) ((s.log_current _).trans hs)
    exact ⟨hc, .append (.tagged fun o ho => State.mem_news_log hs ho) hown⟩
  | wait ms next ih => exact ih hp (s := { s with clock := s.clock + ms / 1000.0 }) hs
  | scope given body next ihb ihn =>
    obtain ⟨hin, hrest⟩ := s.enter_eq given
    have hin' := (State.reveal_current _).trans hin
    obtain ⟨hc, hown⟩ := ihb hp.1 hin'
    -- An inner scope either has an id of its own, which it takes back, or goes on under the one there is.
    have hleft : ((scope given body done).run s).1.current = some c := by
      rw [run_scope]
      dsimp only
      split
      · exact hs
      next hr =>
        have hg := (hrest.mp (Bool.eq_false_iff.mpr hr)).1
        rw [hc, hg, Scope.idOf, hs]
        rfl
    have hshown : OwnUnder c ((s.news (s.enter given).1.reveal).map (false || given.isSome, ·) ++
        body.shown (false || given.isSome) (s.enter given).1.reveal) := by
      cases given with
      | none =>
        have he : Scope.idOf none s = c := by rw [Scope.idOf, hs]; rfl
        rw [he] at hin hown
        exact .append (.tagged fun o ho => State.mem_news_reveal hin ho) hown
      | some text =>
        refine .append (.of_apart fun x hx => ?_) (.of_apart fun x hx => shown_apart body _ hx)
        obtain ⟨_, _, rfl⟩ := List.mem_map.mp hx
        rfl
    rw [run_scope_next, shown]
    split
    · exact ⟨hleft, .append hshown fun _ ho => nomatch ho⟩
    · obtain ⟨hc', hown'⟩ := ihn hp.2 hleft
      exact ⟨hc', .append hshown hown'⟩
  | time t body next ihb ihn =>
    obtain ⟨hc, hown⟩ := ihb hp.1 hs
    have hleft : ((time t body done).run s).1.current = some c := by
      rw [run_time]
      exact (State.log_current _ _).trans hc
    have hnews : ∀ o ∈ (body.run s).1.news ((time t body done).run s).1, o.Under c := by
      rw [run_time]
      exact fun o ho => State.mem_news_log hc ho
    rw [run_time_next, shown]
    split
    · exact ⟨hleft, .append (.append hown (.tagged hnews)) fun _ ho => nomatch ho⟩
    · obtain ⟨hc', hown'⟩ := ihn hp.2 hleft
      exact ⟨hc', .append (.append hown (.tagged hnews)) hown'⟩
  | recover body next ihb ihn =>
    obtain ⟨hc, hown⟩ := ihb hp.1 hs
    have hleft : ((recover body done).run s).1.current = some c ∧
        ∀ o ∈ (body.run s).1.news ((recover body done).run s).1, o.Under c := by
      rw [run_recover]
      dsimp only
      split
      next f _ =>
        refine ⟨hc, fun o ho => ?_⟩
        simp only [State.news, State.append, List.drop_left, List.mem_singleton] at ho
        rw [ho]
        trivial
      next => exact ⟨hc, fun o ho => by simp [State.news] at ho⟩
    obtain ⟨hc', hown'⟩ := ihn hp.2 hleft.1
    rw [run_recover_next, shown]
    exact ⟨hc', .append (.append hown (.tagged hleft.2)) hown'⟩

end Program

/-- A scope that is given a value, or that finds no id, leaves behind what it found, however it ends, and what
comes after it starts with that. All that is shown inside a scope is told apart into what is shown in inner
scopes that are given a value, and the rest; where no id is set, the rest goes under one id. -/
theorem scope_restores_and_shares (given : Option String) (body : Program) (s : State) :
    let inside := (s.enter given).1.reveal
    let left := ((Program.scope given body .done).run s).1
    (given.isSome ∨ s.current = none → left.current = s.current) ∧
      (∀ next, (Program.scope given body next).run s =
        if (body.run inside).2.isSome then (left, (body.run inside).2) else next.run left) ∧
      left.output = inside.output ++ (body.shown false inside).map Prod.snd ∧
      (body.Unset → ∀ o, (false, o) ∈ body.shown false inside → o.Under (Scope.idOf given s)) := by
  obtain ⟨hin, hrest⟩ := s.enter_eq given
  refine ⟨fun h => ?_, fun next => ?_, ?_, fun hb => (hb.keeps ((State.reveal_current _).trans hin)).2⟩
  · rw [Program.run_scope]
    dsimp only
    split
    · rfl
    next hr =>
      obtain ⟨hg, hc⟩ := hrest.mp (Bool.eq_false_iff.mpr hr)
      rcases h with h | h
      · simp [hg] at h
      · exact absurd h hc
  · rw [Program.run_scope_next, Program.run_scope]
  · rw [← body.run_shown false, Program.run_scope]
    dsimp only
    split <;> rfl

def failingInside : Program :=
  .emit "library" info "first"
    (.scope none (.emit "library" info "second" .done)
      (.scope (some "other") (.emit "library" info "third" (.fail "boom" .done)) .done))

theorem scope_restores_and_shares_failing :
    let s : State := { current := some (.named "caller") }
    let inside := (s.enter (some "request")).1.reveal
    ((Program.scope (some "request") failingInside .done).run s).1.current = some (.named "caller") ∧
      failingInside.Unset ∧
      (failingInside.shown false inside).map Prod.fst = [false, false, false, true, true] ∧
      ∀ o, (false, o) ∈ failingInside.shown false inside → o.Under (.named "request") := by
  have h := scope_restores_and_shares (some "request") failingInside { current := some (.named "caller") }
  have hu : failingInside.Unset := ⟨trivial, trivial, trivial⟩
  exact ⟨h.1 (.inl rfl), hu, rfl, h.2.2.2 hu⟩

end SqliteAccess.Log
