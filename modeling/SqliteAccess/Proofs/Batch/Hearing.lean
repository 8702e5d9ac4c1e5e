import SqliteAccess.Proofs.Access.Flight
import SqliteAccess.Proofs.Access.Sharing
import SqliteAccess.Proofs.Life.Governing
import SqliteAccess.Proofs.Life.Openings
import SqliteAccess.Proofs.Pool.Line

/-!
What a call is told while it waits for the engine to answer a statement: that it goes on, or that it is
cancelled. The failures that a pool tells of are for callers in line, and those of other tasks are for
whoever closes the pool.
-/

namespace SqliteAccess.Loop

open Access (Database)
open SqliteAccess.Pool.State (Orderly)

def Stack.root : {s : Shape} → Stack s → Shape
  | _, .done s => s
  | _, .push _ k => root k

def Point.root : Point → Shape
  | .waits k | .works _ k => k.root
  | @Point.ended u _ => u

def Stack.Falls : {s : Shape} → Stack s → Prop
  | _, .done _ => True
  | _, .push .leased k | _, .push (.executing _ _ _ _) k | _, .push (.batching _ _ _ _) k
  | _, .push (.blockEntered _ _ _) k => Falls k
  | _, .push _ _ => False

inductive Point.Queues (p : Nat) : Point → Prop
  | waits {k : Stack .lease} : k.Falls → Point.Queues p (.waits (.push (.inLine p) k))
  | told (o : Outcome .unit) {k : Stack .lease} : k.Falls →
      Point.Queues p (.works (.give o) (.push (.inLine p) k))
  | falls {u : Shape} (e : Failure) {k : Stack u} : k.Falls → Point.Queues p (.works (.give (.error e)) k)
  | ended {u : Shape} (o : Outcome u) : Point.Queues p (.ended o)

def Shape.Shuts (u : Shape) : Prop := u = .unit ∨ u = .flag

def State.Awaited (l : State) (i : Nat) : Prop :=
  ∃ (j : Nat) (x : Task), l.tasks[j]? = some x ∧ .resume i ∈ x.followers

structure Lines (p : Nat) (l : State) (s : Pool.State) : Prop where
  once : s.queue.Nodup
  queues : ∀ i ∈ s.queue, ∃ q, l.point? i = some q ∧ q.Queues p
  shuts : ∀ i, l.Awaited i → ∃ q, l.point? i = some q ∧ q.root.Shuts

def State.Attentive (l : State) : Prop :=
  ∀ (i : Nat) (y : Task) (e : Failure) (r : Engine.Rule) (d : Database) (sql : String) (m : Access.Mode)
    (start : Float) (k : Stack .answer), l.tasks[i]? = some y →
    y.status = .ready (some e) (.push (.sent r) (.push (.ran d sql m start) k)) → e = .cancelled

variable {M p t i j : Nat} {d : Database} {l l' m : State} {s s' : Pool.State} {u : Shape} {w : Work u}
  {k : Stack u} {n : Next u} {c : Call u} {cs : List (Call .unit)} {v : Option Nat} {e : Failure}
  {st : Stack .unit} {x y : Desk} {way : Route} {q q' : Point} {may : {s : Shape} → State → Call s → Prop}

theorem Next.point_root (n : Next u) (k : Stack u) : (n.point k).root = k.root := by
  cases n <;> rfl

theorem Work.point_root (w : Work u) (t : Nat) (k : Stack u) : (w.on t k).point.root = k.root := by
  cases w <;> rfl

theorem Gets.root (hg : Gets t l l' q q') : q'.root = q.root := by
  cases hg with
  | stays | ends | goesOn => rfl
  | works => rw [Next.point_root, Work.point_root]

theorem Stack.Bears.closePool_root {k : Stack .unit} (hk : k.Bears M way (.closePool p)) : k.root.Shuts := by
  cases hk with
  | done hs => cases hs
  | push hf hk =>
    cases hf
    cases hk with
    | done => exact .inl rfl
    | push hf hk =>
      cases hf
      cases hk with
      | done => exact .inr rfl
      | push hf _ => cases hf

theorem Work.PartOf.closing_root (hw : w.PartOf M way c) (hk : k.Bears M way c) (hc : w.Closing) :
    k.root.Shuts := by
  cases hw with
  | call =>
    cases c with
    | closePool => exact hk.closePool_root
    | _ => cases hc
  | back o hf =>
    cases hf with
    | start => cases hc
    | called hf =>
      cases hf with
      | draining => exact hk.closePool_root
      | _ => cases hc
    | paused hf =>
      cases hf with
      | task | tasks => exact hk.closePool_root
      | _ => cases hc

theorem Stack.Bears.run_root {k : Stack .answer} {h : Pool.Handle} {z : Sql.Statement} {b : Access.Mode}
    (hk : k.Bears M way (.run d h z b)) : ¬ k.root.Shuts := by
  cases hk with
  | done => simp [Stack.root, Shape.Shuts]
  | push hf hk =>
    cases hf with
    | executed | batched =>
      cases hk with
      | done => simp [Stack.root, Shape.Shuts]
      | push hf _ => cases hf

theorem Stack.Bears.falls {k : Stack .lease} (hk : k.Bears M way (.acquire p)) : k.Falls := by
  cases hk with
  | done hs => cases hs
  | push hf hk =>
    cases hf
    cases hk with
    | done => trivial
    | push hf hk =>
      cases hf with
      | executing | batching | blockEntered =>
        cases hk with
        | done => trivial
        | push hf _ => cases hf

theorem Stack.Falls.falls {b : Shape} {f : Frame b u} (hk : (Stack.push f k).Falls) (l : State) (e : Failure) :
    k.Falls ∧ ∃ e', (resume l f (.error e)).2 = .give (.error e') := by
  cases f <;> first
    | exact ⟨hk, _, rfl⟩
    | cases hk

theorem Shift.tells (hs : Shift M p d l s v l' s') {z : Task} (hz : l'.tasks[i]? = some z)
    (hst : z.status = .ready (some e) st) :
    (∃ x, l.tasks[i]? = some x ∧ x.status = .ready (some e) st) ∨
      ∃ x b, l.tasks[i]? = some x ∧ x.status = .paused b st ∧ (e = .cancelled ∨ ¬ b.Outside ∨ i ∈ s.line ∨
        l.Awaited i) := by
  have changed : ∀ {C : Nat → Prop} {D : Nat → Failure → Prop} {E : Nat → Follower → Prop} {l₀ m : State}
      {s₀ : Pool.State} {N : Nat} {cs : List (Call .unit)} {z : Task}, Changed p C D E l₀ m s₀ N cs →
      m.tasks[i]? = some z → z.status = .ready (some e) st →
      (∃ x, l₀.tasks[i]? = some x ∧ x.status = .ready (some e) st) ∨
        ∃ x b, l₀.tasks[i]? = some x ∧ x.status = .paused b st ∧ D i e := by
    intro C D E l₀ m s₀ N cs z hc hz hst
    rcases hc.task_cases hz with ⟨x, hx, hn⟩ | ⟨c, _, _, hm⟩
    · have hn := hn.status
      rw [hst] at hn
      generalize hxs : x.status = b at hn
      cases hn with
      | same => exact .inl ⟨x, hx, hxs⟩
      | woken b _ hd => exact .inr ⟨x, b, hx, hxs, hd e rfl⟩
    · cases hm.status.symm.trans hst
  cases hs with
  | @works t u w k _ m _ _ n hr _ _ _ hp =>
    have hcarry : ∃ y, m.tasks[i]? = some y ∧ y.status = .ready (some e) st := by
      rw [State.carryOn_tasks] at hz
      rcases modify_cases hz with ⟨_, hz⟩ | ⟨_, y, hy, rfl⟩
      · exact ⟨z, hz, hst⟩
      · cases n with
        | give | call | jump => exact ⟨y, by simpa using ‹_ = t› ▸ hy, hst⟩
        | pause | again => cases hst
    obtain ⟨y, hy, hys⟩ := hcarry
    cases hp with
    | acts _ _ hc =>
      rcases changed hc hy hys with hx | ⟨x, b, hx, hb, ht⟩
      · exact .inl hx
      · refine .inr ⟨x, b, hx, hb, ?_⟩
        by_cases he : e = .cancelled
        · exact .inl he
        · obtain ⟨a, ha, rfl⟩ := ht.2.2 he
          exact .inr (.inr (.inl (List.mem_map_of_mem ha)))
    | passes _ hc | lends _ hc | frees _ _ hc =>
      exact .inl ((changed hc hy hys).resolve_right fun ⟨_, _, _, _, hd⟩ => hd)
    | returns _ _ hrel =>
      exact .inl ((changed hrel.changed hy hys).resolve_right fun ⟨_, _, _, _, hd⟩ => hd)
  | beside hb =>
    cases hb with
    | @ends t _ o _ _ _ hr _ hc hd =>
      have lay : ∀ {x : Task}, (l.lay t o).tasks[i]? = some x → (∀ u (o : Outcome u), x.status ≠ .finished u o) →
          l.tasks[i]? = some x := by
        intro x hx hne
        rcases modify_cases hx with ⟨_, hx⟩ | ⟨_, y, _, rfl⟩
        · exact hx
        · exact absurd rfl (hne _ _)
      rcases changed hc hz hst with ⟨x, hx, hxs⟩ | ⟨x, b, hx, hxs, hde⟩
      · exact .inl ⟨x, lay hx fun _ _ h => (nomatch hxs.symm.trans h), hxs⟩
      · exact .inr ⟨x, b, lay hx fun _ _ h => (nomatch hxs.symm.trans h), hxs,
          .inr (.inr (.inr ⟨t, hd i e hde⟩))⟩
    | goesOn hr hres =>
      rw [hres.tasks] at hz
      rcases modify_cases hz with ⟨_, hz⟩ | ⟨_, y, _, rfl⟩
      · exact .inl ⟨z, hz, hst⟩
      · cases hst
    | lull hr _ hc hd =>
      rcases changed hc hz hst with hx | ⟨x, b, hx, hxs, hde⟩
      · exact .inl hx
      · refine .inr ⟨x, b, hx, hxs, (hd i e hde).imp_right fun ⟨y, b', st', hy, hys, ho⟩ => .inl ?_⟩
        cases hx.symm.trans hy
        cases hxs.symm.trans hys
        exact ho
    | enters | spawns =>
      by_cases hi : i < l.tasks.length
      · simp only [State.enter, State.spawn, State.enqueue, List.getElem?_append_left hi] at hz
        exact .inl ⟨z, hz, hst⟩
      · simp only [State.enter, State.spawn, State.enqueue,
          List.getElem?_append_right (Nat.le_of_not_lt hi)] at hz
        rw [List.mem_singleton.mp (List.mem_of_getElem? hz)] at hst
        cases hst
    | gives _ hrel =>
      exact .inl ((changed hrel.changed hz hst).resolve_right fun ⟨_, _, _, _, hd⟩ => hd)

theorem Shift.awaited (hs : Shift M p d l s v l' s') (ha : l'.Awaited i) :
    l.Awaited i ∨ ∃ (u : Shape) (w : Work u) (k : Stack u), l.running = some (w.on i k) ∧ k.root.Shuts := by
  obtain ⟨j, z, hz, hf⟩ := ha
  have changed : ∀ {C : Nat → Prop} {D : Nat → Failure → Prop} {E : Nat → Follower → Prop} {l₀ m : State}
      {s₀ : Pool.State} {N : Nat} {cs : List (Call .unit)} {z : Task}, Changed p C D E l₀ m s₀ N cs →
      m.tasks[j]? = some z → .resume i ∈ z.followers → l₀.Awaited i ∨ E j (.resume i) := by
    intro C D E l₀ m s₀ N cs z hc hz hf
    rcases hc.task_cases hz with ⟨x, hx, hn⟩ | ⟨c, _, _, hm⟩
    · exact (hn.followers _ hf).imp_left fun hf => ⟨j, x, hx, hf⟩
    · cases hm.followers _ hf
  cases hs with
  | @works t u w k c m _ _ n hr hw hk _ hp =>
    have hcarry : ∃ y, m.tasks[j]? = some y ∧ .resume i ∈ y.followers := by
      rw [State.carryOn_tasks] at hz
      rcases modify_cases hz with ⟨_, hz⟩ | ⟨rfl, y, hy, rfl⟩
      · exact ⟨z, hz, hf⟩
      · exact ⟨y, hy, hf⟩
    obtain ⟨y, hy, hyf⟩ := hcarry
    cases hp with
    | acts _ _ hc =>
      refine (changed hc hy hyf).imp_right fun ⟨_, hcl, hfo⟩ => ?_
      rcases hfo with ⟨he, _⟩ | he
      · cases he
        exact ⟨u, w, k, hr, hw.closing_root hk hcl⟩
      · cases he
    | passes _ hc | lends _ hc | frees _ _ hc => exact .inl ((changed hc hy hyf).resolve_right id)
    | returns _ _ hrel => exact .inl ((changed hrel.changed hy hyf).resolve_right id)
  | beside hb =>
    refine .inl ?_
    cases hb with
    | @ends t _ o _ _ _ hr _ hc _ =>
      obtain ⟨j', x, hx, hf⟩ := (changed hc hz hf).resolve_right id
      rcases modify_cases hx with ⟨_, hx⟩ | ⟨_, y, _, rfl⟩
      · exact ⟨j', x, hx, hf⟩
      · exact (List.not_mem_nil hf).elim
    | goesOn hr hres =>
      rw [hres.tasks] at hz
      rcases modify_cases hz with ⟨_, hz⟩ | ⟨_, y, hy, rfl⟩
      · exact ⟨j, z, hz, hf⟩
      · exact ⟨_, y, hy, hf⟩
    | lull hr _ hc => exact (changed hc hz hf).resolve_right id
    | enters | spawns =>
      by_cases hj : j < l.tasks.length
      · simp only [State.enter, State.spawn, State.enqueue, List.getElem?_append_left hj] at hz
        exact ⟨j, z, hz, hf⟩
      · simp only [State.enter, State.spawn, State.enqueue,
          List.getElem?_append_right (Nat.le_of_not_lt hj)] at hz
        rw [List.mem_singleton.mp (List.mem_of_getElem? hz)] at hf
        exact (List.not_mem_nil hf).elim
    | gives _ hrel => exact (changed hrel.changed hz hf).resolve_right id

theorem Released.orderly {id : Nat} (h : Released p id l m s s' cs) : s.Orderly (fun _ => False) s' := by
  cases h with
  | rests now _ _ => exact .checkin (s.checkin_spec id now)
  | leaves => exact .of_eq rfl (.refl _) fun hi => hi

theorem Shift.queue (h : Grounded M p d l s) (hs : Shift M p d l s v l' s') : s'.queue.Subperm s.queue ∨
    ∃ (t : Nat) (k : Stack .lease) (q : Point), l.running = some ((Work.call (.acquire p)).on t k) ∧
      l'.point? t = some q ∧ q.Queues p ∧ s'.queue.Subperm (t :: s.queue) := by
  cases hs with
  | @works t u w k c m _ _ n hr hw hk _ hp =>
    have hpoint : (m.carryOn t n k).point? t = some (n.point k) := by
      obtain ⟨_, _, _, hc⟩ := hp.changed
      obtain ⟨x, hx, hst⟩ := h.at_work hr
      obtain ⟨z, hz, hn⟩ := hc.task hx
      exact State.carryOn_point ⟨z, hz, hn.running hst⟩ n k
    cases hp with
    | acts hpool ha hc =>
      rcases ha.orderly with ho | ⟨hent, _, hn, ho⟩
      · exact .inl ho.queue
      · refine .inr ?_
        cases w with
        | back f o =>
          cases f with
          | start => cases hpool
          | _ => cases hent
        | call =>
          cases hw
          cases c with
          | acquire q =>
            cases hk with
            | done hserved => cases hserved
            | push hf hk =>
              cases hf with
              | leased =>
                have hfalls := (Stack.Bears.push (.leased p d) hk).falls
                refine ⟨t, _, _, hr, hpoint, ?_, ho.queue.trans (Pool.State.queue_enqueue s t).subperm⟩
                cases hn with
                | waits => exact .waits hfalls
                | fails => exact .falls _ hfalls
          | _ => cases hent
    | passes | lends | frees => exact .inl (List.Subperm.refl _)
    | returns _ _ hrel => exact .inl hrel.orderly.queue
  | beside hb =>
    refine .inl ?_
    cases hb with
    | ends _ hlull | lull _ hlull =>
      have horderly : s.Orderly (fun _ => False) s' := .lull hlull
      exact horderly.queue
    | goesOn | enters | spawns => exact List.Subperm.refl _
    | gives _ hrel => exact hrel.orderly.queue

theorem Shift.served (h : Grounded M p d l s) (hs : Shift M p d l s v l' s') {k : Stack .lease}
    {o : Outcome .unit} (hr : l.running = some ((Work.back (.inLine p) o).on i k)) (hk : k.Falls)
    (hn : s.queue.Nodup) : i ∉ s'.queue ∨ ∃ q, l'.point? i = some q ∧ q.Queues p := by
  cases hs with
  | beside hb =>
    cases hb with
    | ends hr' => cases hr.symm.trans hr'
    | goesOn hr' | lull hr' | enters hr' | spawns hr' | gives hr' => cases hr.symm.trans hr'
  | @works t u w k' c m _ _ n hr' hw hk' _ hp =>
    have hpoint : (m.carryOn t n k').point? t = some (n.point k') := by
      obtain ⟨_, _, _, hc⟩ := hp.changed
      obtain ⟨x, hx, hst⟩ := h.at_work hr'
      obtain ⟨z, hz, hn⟩ := hc.task hx
      exact State.carryOn_point ⟨z, hz, hn.running hst⟩ n k'
    have failed : ∀ e, n = .give (.error e) → k'.Falls → ∃ q, (m.carryOn t n k').point? t = some q ∧ q.Queues p := by
      rintro e rfl hf
      exact ⟨_, hpoint, .falls e hf⟩
    cases w with
    | call => cases hr.symm.trans hr'
    | back f o' =>
      cases hr.symm.trans hr'
      cases hp with
      | acts _ ha =>
        generalize m.nextConnection = N at ha
        cases ha with
        | served hs => exact .inl (Pool.State.not_mem_takeUp_queue hn (Pool.State.handedTo?_served hs))
        | misled | leaves | passesOn => exact .inr (failed _ rfl hk)
      | passes hd => cases hd
      | frees _ hret | returns _ hret => cases hret

theorem Point.Queues.gets (hg : Gets i l l' q q') (hq : q.Queues p) : q'.Queues p ∨
    ∃ (o : Outcome .unit) (k : Stack .lease), k.Falls ∧ l.running = some ((Work.back (.inLine p) o).on i k) := by
  cases hg with
  | stays => exact .inl hq
  | ends => exact .inl (.ended _)
  | goesOn => cases hq with | waits hk => exact .inl (.told _ hk)
  | @works u w k hr _ =>
    cases w with
    | call c => cases hq
    | back f o =>
      change Point.Queues p (.works (.give o) (.push f k)) at hq
      cases hq with
      | told o hk => exact .inr ⟨o, _, hk, hr⟩
      | falls e hk =>
        obtain ⟨hk', e', he⟩ := hk.falls l e
        refine .inl ?_
        rw [Work.perform, he]
        exact .falls e' hk'

theorem Lines.shift (hl : Lines p l s) (h : Grounded M p d l s) (hs : Shift M p d l s v l' s')
    (hh : l.Happens may l') : Lines p l' s' := by
  have gets := fun {i : Nat} {q : Point} => hh.gets (t := i) (p := q) h.tended.atWork
  have stays : ∀ i ∈ s.queue, i ∈ s'.queue → ∃ q, l'.point? i = some q ∧ q.Queues p := by
    intro i hi hi'
    obtain ⟨q, hat, hq⟩ := hl.queues i hi
    obtain ⟨q', hat', hg⟩ := gets hat
    rcases hq.gets hg with hq' | ⟨o, k, hk, hr⟩
    · exact ⟨q', hat', hq'⟩
    · exact (hs.served h hr hk hl.once).resolve_left fun hn => hn hi'
  have once : ∀ {ts : List Nat}, ts.Nodup → s'.queue.Subperm ts → s'.queue.Nodup := fun hn ⟨_, hp, hsub⟩ =>
    hp.nodup_iff.mp (hn.sublist hsub)
  have shuts : ∀ i, l'.Awaited i → ∃ q, l'.point? i = some q ∧ q.root.Shuts := by
    intro i hi
    obtain ⟨q, hat, hq⟩ : ∃ q, l.point? i = some q ∧ q.root.Shuts := by
      rcases hs.awaited hi with hi | ⟨u, w, k, hr, hk⟩
      · exact hl.shuts i hi
      · have hat := State.point?_at hr (h.tended.atWork _ hr)
        rw [Work.on_task] at hat
        exact ⟨_, hat, by rwa [Work.point_root]⟩
    obtain ⟨q', hat', hg⟩ := gets hat
    exact ⟨q', hat', by rwa [hg.root]⟩
  rcases hs.queue h with hsub | ⟨t, k, q, hr, hat, hq, hsub⟩
  · exact ⟨once hl.once hsub, fun i hi => stays i (hsub.subset hi) hi, shuts⟩
  · have ht : t ∉ s.queue := by
      intro hin
      obtain ⟨q', hat', hq'⟩ := hl.queues t hin
      have hnow := State.point?_at hr (h.tended.atWork _ hr)
      cases hat'.symm.trans hnow
      cases hq'
    refine ⟨once (List.nodup_cons.mpr ⟨ht, hl.once⟩) hsub, fun i hi => ?_, shuts⟩
    rcases List.mem_cons.mp (hsub.subset hi) with rfl | hi'
    · exact ⟨q, hat, hq⟩
    · exact stays i hi' hi

theorem State.Attentive.shift (ha : l.Attentive) (hl : Lines p l s) (h : Grounded M p d l s)
    (hs : Shift M p d l s v l' s') : l'.Attentive := by
  intro i z e r b sql g start k hz hst
  rcases hs.tells hz hst with ⟨x, hx, hxs⟩ | ⟨x, b', hx, hxs, hcase⟩
  · exact ha i x e r b sql g start k hx hxs
  · have hat : l.point? i = some (.waits (.push (.sent r) (.push (.ran b sql g start) k))) := by
      simp [State.point?, hx, hxs, Status.point?]
    have hchained := h.tended.tasks i x hx
    rw [hxs] at hchained
    cases hchained with
    | paused hf hk =>
      cases hf
      rcases hcase with he | ho | hin | haw
      · exact he
      · exact absurd trivial ho
      · obtain ⟨q, hat', hq⟩ := hl.queues i (List.mem_append_left _ hin)
        cases hat.symm.trans hat'
        cases hq
      · obtain ⟨q, hat', hq⟩ := hl.shuts i haw
        cases hat.symm.trans hat'
        cases hk with
        | push hf hk =>
          cases hf
          exact absurd hq hk.run_root

theorem Desk.Step.happens (hs : x.Step M way False y) : x.loop.Happens State.Offers y.loop := by
  have offers : ∀ {u : Shape} {c : Call u}, c.Asked M way → State.Offers x.loop c := by
    intro u c hc
    cases hc <;> trivial
  cases hs with
  | loop hl => exact .loop hl
  | enter hr hc => exact .enter hr (offers hc)
  | spawn hr hc => exact .spawn hr (offers hc)
  | runs _ _ _ hr => exact .enter hr trivial
  | plans _ _ _ hr => exact .spawn hr trivial
  | giveBack hr => exact .giveBack M _ hr
  | cancel t hr => exact .cancel t hr
  | answer hr hk hst => exact .answer hr hk hst
  | engine rules openings closings hr => exact .engine rules openings closings hr
  | tick now hr => exact .tick now hr
  | forget hc | release _ hc | destroy _ hc => exact hc.elim

theorem State.Idle.attentive (h : l.Idle) : l.Attentive := by
  intro i y _ _ _ _ _ _ _ hy hst
  obtain ⟨⟨_, _, hs⟩, _⟩ := h.2 i y hy
  cases hs.symm.trans hst

theorem State.Reaches.lines (h : l.Reaches M (.pool p d) False x) :
    ∃ s, x.Lent M p d s ∧ Lines p x.loop s ∧ x.loop.Attentive := by
  obtain ⟨hi, hset, hsteps⟩ := h
  induction hsteps with
  | refl =>
    obtain ⟨s, hs⟩ := hset.lent hi
    obtain ⟨_, settings, hp⟩ := hset
    cases hs.pool.symm.trans hp
    refine ⟨_, hs, ⟨.nil, List.forall_mem_nil _, fun i ⟨j, z, hz, hf⟩ => ?_⟩, hi.attentive⟩
    exact absurd hf ((hi.2 j z hz).2.2 i)
  | tail _ hst ih =>
    obtain ⟨s, hs, hl, ha⟩ := ih
    obtain ⟨s', hs'⟩ := hst.lent hs
    rcases hst.shift hs with he | ⟨v, s'', hsh⟩
    · have hp := hs'.pool
      rw [he] at hp ⊢
      cases hs.pool.symm.trans hp
      exact ⟨s, hs', hl, ha⟩
    · have hp := (hs.toGrounded.shifts hsh).pool
      cases hs'.pool.symm.trans hp
      exact ⟨s', hs', hl.shift hs.toGrounded hsh hst.happens, ha.shift hl hs.toGrounded hsh⟩

theorem State.Reaches.attentive (h : l.Reaches M way False x) : x.loop.Attentive := by
  cases way with
  | pool p d =>
    obtain ⟨_, _, _, ha⟩ := h.lines
    exact ha
  | single =>
    obtain ⟨c, hc⟩ := h.setUp.shared
    exact fun i y e _ _ _ _ _ _ hy hst => ((h.guarded hc).plain i y hy).signal e _ hst

theorem State.Happens.resumed {o : Outcome .unit} (hs : l.Happens may l') (hr : l.running = none)
    (hr' : l'.running = some ⟨t, .unit, .give o, st⟩) :
    ∃ signal x, Resumed l l' t signal st x ∧ o = x.answer signal := by
  rcases hs.cases with hl | ⟨_, ⟨b, c, _, rfl | rfl⟩ | ht⟩
  · cases State.step_turn hl with
    | works hr₁ | ends hr₁ => cases hr.symm.trans hr₁
    | goesOn _ hres =>
      cases hres.running.symm.trans hr'
      exact ⟨_, _, hres, rfl⟩
    | rests _ ht => cases (ht.undisturbed.running.trans hr).symm.trans hr'
  · cases hr'
  · cases hr.symm.trans hr'
  · cases (ht.undisturbed.running.trans hr).symm.trans hr'

theorem State.Attentive.resumes {o : Outcome .unit} {r : Engine.Rule} {sql : String} {b : Access.Mode}
    {start : Float} {k : Stack .answer} (ha : l.Attentive) (hs : l.Happens may l') (hr : l.running = none)
    (hr' : l'.running = some ⟨t, .unit, .give o, .push (.sent r) (.push (.ran d sql b start) k)⟩) :
    o = .ok () ∨ o = .error .cancelled := by
  obtain ⟨signal, x, hres, rfl⟩ := hs.resumed hr hr'
  unfold Task.answer
  cases x.cancelRequested with
  | true => exact .inr rfl
  | false =>
    cases signal with
    | none => exact .inl rfl
    | some e =>
      rw [ha t x e r d sql b start k hres.task hres.ready]
      exact .inr rfl

end SqliteAccess.Loop
