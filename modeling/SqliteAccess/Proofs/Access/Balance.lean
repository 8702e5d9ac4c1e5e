import SqliteAccess.Proofs.Access.Managed

/-!
What tasks come by and give back. Whatever a task has borrowed, it has given back or still has.
-/

namespace SqliteAccess.Loop

open Access (Database)
open SqliteAccess.Pool (Lease)

def Running.gain? (l : State) : Running → Option Lease
  | ⟨_, _, .give (.ok c), .push .leased _⟩ => some c
  | ⟨_, _, .give (.ok _), .push (.lockedToUse m) _⟩ => l.shared? m
  | _ => none

def Running.yield? (l : State) : Running → Option Lease
  | ⟨_, _, .give (.ok lease), .push (.executing m _ _ _) _⟩ =>
    if (l.target? m lease).isNone then lease else none
  | ⟨_, _, .give _, .push (.executed _ lease _) _⟩ => lease
  | ⟨_, _, .give (.ok lease), .push (.batching m ss _ _) _⟩ =>
    if ss.isEmpty || (l.target? m lease).isNone then lease else none
  | ⟨_, _, .give (.ok _), .push (.batched m lease rest _ _ _) _⟩ =>
    if rest.isEmpty || (l.target? m lease).isNone then lease else none
  | ⟨_, _, .give (.error _), .push (.batched _ lease _ _ _ _) _⟩ => lease
  | ⟨_, _, .give (.ok lease), .push (.blockEntered _ hold _) _⟩ => if hold then none else lease
  | ⟨_, _, .give _, .push (.blockHeld _ lease _) _⟩ => lease
  | _ => none

namespace State

def gain? (l : State) (t : Nat) : Option Lease :=
  l.running.bind fun r => if r.task = t then r.gain? l else none

def yield? (l : State) (t : Nat) : Option Lease :=
  l.running.bind fun r => if r.task = t then r.yield? l else none

end State

def Desk.gained (x : Desk) (t : Nat) : List Lease := x.past.filterMap fun l => l.gain? t

def Desk.yielded (x : Desk) (t : Nat) : List Lease := x.past.filterMap fun l => l.yield? t

def Work.MayReturn : {u : Shape} → Work u → Prop
  | _, .back (.executing _ _ _ _) _ | _, .back (.executed _ _ _) _ | _, .back (.batching _ _ _ _) _
  | _, .back (.batched _ _ _ _ _ _) _ | _, .back (.blockEntered _ _ _) _
  | _, .back (.blockHeld _ _ _) _ => True
  | _, _ => False

inductive Trades (M : Nat) (l : State) {u : Shape} (w : Work u) (k : Stack u) (x : State × Next u) :
    Option Lease → Option Lease → Prop
  | keeps : x.2.lease? = w.lease? → Trades M l w k x none none
  | gains : w.lease? = none → k.lease? = none → Trades M l w k x x.2.lease? none
  | yields {lease : Option Lease} : GivesBack M l w lease x → Trades M l w k x none lease

variable {careless : Prop} {M t i : Nat} {way : Route} {l l' : State} {u : Shape} {w : Work u}
  {k : Stack u} {d : Call u} {x y : Desk} {n : Next u} {a b : Option Lease} {c : Lease}

theorem Work.MayReturn.of {lease : Option Lease} (h : w.Returns M lease) : w.MayReturn := by
  cases h <;> trivial

theorem State.trades_nothing (hx : ¬ w.Exchanges) (hm : ¬ w.MayReturn) :
    (w.on t k).gain? l = none ∧ (w.on t k).yield? l = none := by
  cases w with
  | call => exact ⟨rfl, rfl⟩
  | back f o =>
    cases f with
    | leased | lockedToUse => exact absurd trivial hx
    | executing | executed | batching | batched | blockEntered | blockHeld => exact absurd trivial hm
    | _ => cases o <;> simp [Work.on, Running.gain?, Running.yield?]

theorem Work.Exchanges.trades (hx : w.Exchanges) (hw : w.PartOf M way d) (hk : k.Bears M way d) :
    Trades M l w k (w.perform l) ((w.on t k).gain? l) ((w.on t k).yield? l) := by
  cases hw with
  | call =>
    cases d with
    | lock m =>
      refine .keeps ?_
      simp only [Work.perform, begin, State.lock]
      split
      · rfl
      · split <;> rfl
    | _ => cases hx
  | back o hf =>
    cases hf with
    | start => cases hx
    | called hf =>
      cases hf with
      | leased =>
        cases o with
        | error e => exact .keeps rfl
        | ok a =>
          have hnone : (Work.back .leased (.ok a)).lease? = none := rfl
          exact .gains (x := (l, .give (.ok (some a)))) hnone hk.lease_none
      | lockedToUse =>
        cases o with
        | error e => exact .keeps rfl
        | ok b =>
          have hg : ((Work.back (.lockedToUse M) (.ok b)).on t k).gain? l =
              ((Work.back (.lockedToUse M) (.ok b)).perform l).2.lease? := by
            simp only [Work.on, Running.gain?, Work.perform, resume, State.lockedToUse, State.shared?,
              State.singleOf]
            cases (l.manager? M).bind (·.single) with
            | none => rfl
            | some id =>
              simp [l.standalone?_setUse, Next.lease?, borrowed, Function.comp_def, Pool.Connection.lease]
          rw [hg]
          exact .gains rfl hk.lease_none
      | lockedToClose =>
        cases o with
        | error e => exact .keeps rfl
        | ok b =>
          refine .keeps ?_
          simp only [Work.perform, resume, State.lockedToClose]
          split <;> rfl
      | singleClosed => cases o <;> exact .keeps rfl
      | _ => cases hx
    | paused hf =>
      cases hf with
      | letIn => cases o <;> exact .keeps rfl
      | _ => cases hx

theorem Work.MayReturn.trades (hm : w.MayReturn) (hw : w.PartOf M way d) :
    Trades M l w k (w.perform l) ((w.on t k).gain? l) ((w.on t k).yield? l) := by
  cases hw with
  | call => cases hm
  | back o hf =>
    cases hf with
    | start => cases hm
    | called hf =>
      cases hf with
      | executing _ s m _ restores =>
        cases o with
        | error e => exact .keeps rfl
        | ok lease =>
          simp only [Running.yield?, Work.on, Work.perform, resume, State.executing]
          cases ht : l.target? M lease with
          | none => exact .yields (State.endCall_gives restores _ (.executing s m restores lease))
          | some x =>
            obtain rfl := State.target?_some ht
            exact .keeps rfl
      | executed _ c _ _ _ _ _ restores =>
        cases o <;> exact .yields (State.endCall_gives restores _ (.executed (some c) restores _))
      | batching _ ss m _ restores =>
        cases o with
        | error e => exact .keeps rfl
        | ok lease =>
          cases ss with
          | nil => exact .yields (State.endCall_gives restores _ (.batching [] m restores lease))
          | cons s rest =>
            simp only [Running.yield?, Work.on, Work.perform, resume, State.batching, State.batchFrom]
            cases ht : l.target? M lease with
            | none => exact .yields (State.endCall_gives restores _ (.batching (s :: rest) m restores lease))
            | some x =>
              obtain rfl := State.target?_some ht
              exact .keeps rfl
      | batched _ c _ _ rest _ m _ done restores =>
        cases o with
        | error e => exact .yields (State.endCall_gives restores _ (.batched (some c) rest m done restores _))
        | ok a =>
          cases rest with
          | nil => exact .yields (State.endCall_gives restores _ (.batched (some c) [] m done restores _))
          | cons s rest =>
            simp only [Running.yield?, Work.on, Work.perform, resume, State.batched, State.batchFrom]
            cases ht : l.target? M (some c) with
            | none =>
              exact .yields (State.endCall_gives restores _ (.batched (some c) (s :: rest) m done restores _))
            | some x =>
              obtain rfl := Option.some.inj (State.target?_some ht)
              exact .keeps rfl
      | blockEntered _ hold fail =>
        cases o with
        | error e => exact .keeps rfl
        | ok lease =>
          simp only [Running.yield?, Work.on, Work.perform, resume, State.blockEntered]
          split
          · exact .keeps (Option.or_none ..).symm
          · exact .yields (State.endBlock_gives _ (.blockEntered hold fail lease))
      | _ => cases hm
    | paused hf =>
      cases hf with
      | blockHeld _ lease hold fail => cases o <;> exact .yields (State.blockHeld_gives lease fail _)
      | _ => cases hm

theorem Work.perform_trades (hw : w.PartOf M way d) (hk : k.Bears M way d) (h : l.Takes M way)
    (hp : ¬ w.Pooled) : Trades M l w k (w.perform l) ((w.on t k).gain? l) ((w.on t k).yield? l) := by
  by_cases hx : w.Exchanges
  · exact hx.trades hw hk
  by_cases hm : w.MayReturn
  · exact hm.trades hw
  obtain ⟨hg, hy⟩ := State.trades_nothing (t := t) (k := k) (l := l) hx hm
  rw [hg, hy]
  rcases Work.perform_does hw hk h hp hx with hd | ⟨lease, hr⟩
  · exact .keeps hd.deed.lease
  · exact absurd (.of hr.returns) hm

theorem Work.Pooled.apart (hp : w.Pooled) : ¬ w.Exchanges ∧ ¬ w.MayReturn := by
  cases w with
  | call c => cases c <;> first | exact ⟨id, id⟩ | cases hp
  | back f o => cases f <;> first | exact ⟨id, id⟩ | cases hp

theorem Performs.lease_eq {p : Nat} {base : Database} {m : State} {s s' : Pool.State}
    {cs : List (Call .unit)} (h : Performs M p base l m t s w s' cs n) (hp : w.Pooled) : n.lease? = w.lease? := by
  cases h with
  | acts _ ha =>
    obtain ⟨hw, hn⟩ := ha.lease hp
    rw [Next.over_lease, hw, hn]
  | passes hd => exact hd.lease
  | lends => cases hp
  | frees _ hret | returns _ hret => exact absurd (.of hret) hp.apart.2

theorem Desk.Managed.trades (h : x.Managed careless M way) (hr : x.loop.running = some (w.on t k)) :
    Trades M x.loop w k (w.perform x.loop) ((w.on t k).gain? x.loop) ((w.on t k).yield? x.loop) := by
  obtain ⟨d, hw, hk⟩ := h.tended.work hr
  by_cases hp : w.Pooled
  · cases h with
    | single => exact absurd hp (hw.unpooled hk)
    | pool h =>
      obtain ⟨hx, hm⟩ := hp.apart
      obtain ⟨hg, hy⟩ := State.trades_nothing (t := t) (k := k) (l := x.loop) hx hm
      rw [hg, hy]
      obtain ⟨s', cs, hperf, _⟩ := h.toGrounded.performs hr hw hk fun a hret => absurd (.of hret) hm
      exact .keeps (hperf.lease_eq hp)
  · exact Work.perform_trades hw hk h.takes hp

theorem Trades.balance {z : State × Next u} (h : Trades M l w k z a b) (hk : k.Bears M way d) :
    (w.lease?.or k.lease?).toList ++ a.toList = b.toList ++ (z.2.lease?.or k.lease?).toList := by
  cases h with
  | keeps he => rw [he, Option.toList_none, List.append_nil, List.nil_append]
  | gains hw hk => simp [hw, hk]
  | yields hg =>
    obtain ⟨o, ho⟩ := hg.next
    have hu := hg.returns.ends
    obtain rfl := hk.alone hu
    have hb : borrowed o = none := borrowed_of_ne (by rintro rfl; simp at hu) o
    simp [hg.returns.lease, ho, Next.lease?, hb, Stack.lease?]

theorem Desk.Managed.balance (h : x.Managed careless M way) (hl : x.loop.step? = some l')
    (h' : Tended M way l') (i : Nat) :
    (x.loop.lease? i).toList ++ (x.loop.gain? i).toList =
      (x.loop.yield? i).toList ++ (l'.lease? i).toList := by
  have still : l'.lease? i = x.loop.lease? i → x.loop.gain? i = none → x.loop.yield? i = none →
      (x.loop.lease? i).toList ++ (x.loop.gain? i).toList =
        (x.loop.yield? i).toList ++ (l'.lease? i).toList := by
    intro hi hg hy
    rw [hi, hg, hy]
    exact List.append_nil _
  have apart : ∀ r, x.loop.running = some r → r.task ≠ i → x.loop.gain? i = none ∧ x.loop.yield? i = none := by
    intro r hr hi
    simp [State.gain?, State.yield?, hr, hi]
  have idle : x.loop.running = none → x.loop.gain? i = none ∧ x.loop.yield? i = none := by
    intro hr
    simp [State.gain?, State.yield?, hr]
  cases h.stride hl with
  | @works t u w k _ hr _ hp hs =>
    by_cases hi : i = t
    · subst hi
      obtain ⟨d, hw, hk⟩ := h.tended.work hr
      have hb := (h.trades hr).balance hk
      have hx := (h.tended.running _ hr).2
      rw [Work.on_task] at hx
      rw [← State.lease?_at hr hx, ← Next.point_lease] at hb
      have hlease : l'.lease? i = ((w.perform x.loop).2.point k).lease? := by
        rw [h'.lease?_eq, hp, Option.bind_some]
      rw [hlease]
      simpa [State.gain?, State.yield?, hr] using hb
    · obtain ⟨hg, hy⟩ := apart _ hr (by rw [Work.on_task]; exact Ne.symm hi)
      exact still (hs.lease? h.tended h' hi) hg hy
  | @ends t u o _ hr _ hp hs =>
    by_cases hi : i = t
    · subst hi
      refine still ?_ ?_ ?_
      · rw [h'.lease?_eq, hp, h.tended.lease?_eq, State.point?_at hr (h.tended.running _ hr).2]
        exact (Option.or_none ..).symm
      · cases o <;> simp [State.gain?, hr, Running.gain?]
      · cases o <;> simp [State.yield?, hr, Running.yield?]
    · obtain ⟨hg, hy⟩ := apart _ hr (Ne.symm hi)
      exact still (hs.lease? h.tended h' hi) hg hy
  | @goesOn t o k _ hr hx _ hp hs =>
    obtain ⟨hg, hy⟩ := idle hr
    refine still ?_ hg hy
    by_cases hi : i = t
    · subst hi
      rw [h'.lease?_eq, hp, h.tended.lease?_eq, hx]
      rfl
    · exact hs.lease? h.tended h' hi
  | rests hr _ hs =>
    obtain ⟨hg, hy⟩ := idle hr
    exact still (hs.lease? h.tended h' id) hg hy

theorem State.Reaches.balance (h : l.Reaches M way careless x) (i : Nat) :
    x.gained i = x.yielded i ++ (x.loop.lease? i).toList := by
  refine h.induct (P := fun x => x.gained i = x.yielded i ++ (x.loop.lease? i).toList) ?_
    fun x y hx ih hst => ?_
  · simp [Desk.gained, Desk.yielded, h.idle.lease i]
  · have hy := (hst.managed hx).tended
    rcases hst.arrival with ⟨hl, hp⟩ | ⟨hr, hp, ha⟩
    · have hb := hx.balance hl hy i
      have one : ∀ f : State → Option Lease, [x.loop].filterMap f = (f x.loop).toList := fun f => by
        cases hf : f x.loop <;> simp [hf]
      have hg : y.gained i = x.gained i ++ (x.loop.gain? i).toList := by
        rw [Desk.gained, hp, List.filterMap_append, one, Desk.gained]
      have hgave : y.yielded i = x.yielded i ++ (x.loop.yield? i).toList := by
        rw [Desk.yielded, hp, List.filterMap_append, one, Desk.yielded]
      rw [hg, hgave, ih, List.append_assoc, List.append_assoc, hb]
    · rw [ha.lease? hx.tended hy hr i, Desk.gained, Desk.yielded, hp]
      exact ih

end SqliteAccess.Loop
