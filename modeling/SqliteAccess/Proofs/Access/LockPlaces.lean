import SqliteAccess.Proofs.Access.Guard
import SqliteAccess.Proofs.Access.Leases
import SqliteAccess.Proofs.Access.LoopSteps

/-!
Where the tasks of a manager stand with respect to its lock, read off their stacks, and how the steps of
calls move them.
-/

namespace SqliteAccess.Loop

open Access (Lock Place)
open SqliteAccess.Pool (Lease)

def Stack.Waits : {s : Shape} → Stack s → Bool
  | _, .push (.letIn _) _ => true
  | _, _ => false

def Status.place? : Status → Option Place
  | .paused _ k => if k.Waits then some .waiting else none
  | .ready none k => if k.Waits then some .granted else none
  | .ready (some _) k => if k.Waits then some .cancelled else none
  | .running | .finished _ _ => none

def Work.place? : {u : Shape} → Work u → Option Place
  | _, .back (.letIn _) (.ok _) => some .granted
  | _, .back (.letIn _) (.error _) => some .cancelled
  | _, _ => none

def Next.place? : {u : Shape} → Next u → Option Place
  | _, .pause _ (.letIn _) => some .waiting
  | _, .again (.letIn _) => some .granted
  | _, _ => none

def Stack.closes : {s : Shape} → Stack s → Bool
  | _, .push (.askedClose _) (.push (.singleClosed _) _) => true
  | _, _ => false

def Stack.bars : {s : Shape} → Stack s → Control s → Bool
  | _, .push (.lockedToUse _) _, .give (.ok _) => true
  | _, .push (.lockedToClose _) _, .give (.ok _) => true
  | _, .push (.singleClosed _) _, _ => true
  | _, k, _ => k.closes

def Status.bars : Status → Bool
  | .paused _ k | .ready _ k => k.closes
  | .running | .finished _ _ => false

def Next.bars {u : Shape} (n : Next u) (k : Stack u) : Bool :=
  match n with
  | .give o => k.bars (.give o)
  | .call c f => (Stack.push f k).bars (.call c)
  | .jump c => k.bars (.call c)
  | .pause _ f | .again f => (Stack.push f k).closes

namespace Running

def place? : Running → Option Place
  | ⟨_, _, .give (.ok _), .push (.letIn _) _⟩ => some .granted
  | ⟨_, _, .give (.error _), .push (.letIn _) _⟩ => some .cancelled
  | _ => none

def bears (r : Running) : Bool := r.stack.bars r.control

def asks (M : Nat) : Running → Bool
  | ⟨_, _, .call (.lock m), _⟩ => m = M
  | _ => false

def obtains (M : Nat) (free : Bool) : Running → Bool
  | ⟨_, _, .call (.lock m), _⟩ => m = M && free
  | ⟨_, _, .give (.ok _), .push (.letIn m) _⟩ => m = M
  | _ => false

def quits (M : Nat) : Running → Bool
  | ⟨_, _, .give (.error .cancelled), .push (.letIn m) _⟩ => m = M
  | _ => false

def uses (M : Nat) (there : Bool) : Running → Bool
  | ⟨_, _, .give (.ok _), .push (.lockedToUse m) _⟩ => m = M && there
  | _ => false

def misses (M : Nat) (there : Bool) : Running → Bool
  | ⟨_, _, .give (.ok _), .push (.lockedToUse m) _⟩ => m = M && !there
  | _ => false

end Running

namespace State

def lockOf (l : State) (M : Nat) : Lock := ((l.manager? M).map (·.lock)).getD {}

def singleOf (l : State) (M : Nat) : Option Nat := (l.manager? M).bind (·.single)

/-- The one connection of the manager. -/
def shared? (l : State) (M : Nat) : Option Lease := ((l.singleOf M).bind l.standalone?).map (·.lease)

def inUse (l : State) (id : Nat) : Bool := ((l.standalone? id).map (·.inUse)).getD false

def place? (l : State) (i : Nat) : Option Place :=
  ((l.tasks[i]?).bind fun k => k.status.place?).or
    (l.running.bind fun r => if r.task = i then r.place? else none)

def bears (l : State) (i : Nat) : Bool :=
  ((l.tasks[i]?).any fun k => k.status.bars) || l.running.any fun r => r.task = i && r.bears

def whoever (l : State) (f : Running → Bool) : List Nat :=
  match l.running with
  | some r => if f r then [r.task] else []
  | none => []

def asks (M : Nat) (l : State) : List Nat := l.whoever (Running.asks M)

def obtains (M : Nat) (l : State) : List Nat := l.whoever (Running.obtains M (l.lockOf M).isFree)

def quits (M : Nat) (l : State) : List Nat := l.whoever (Running.quits M)

def uses (M : Nat) (l : State) : List Nat := l.whoever (Running.uses M (l.singleOf M).isSome)

def misses (M : Nat) (l : State) : List Nat := l.whoever (Running.misses M (l.singleOf M).isSome)

structure Quiet (M : Nat) (l : State) : Prop where
  asks : l.asks M = []
  obtains : l.obtains M = []
  quits : l.quits M = []
  uses : l.uses M = []
  misses : l.misses M = []

end State

namespace Desk

variable (M : Nat)

def asked (x : Desk) : List Nat := x.past.flatMap (State.asks M)

/-- Who has obtained the lock, in order. -/
def obtained (x : Desk) : List Nat := x.past.flatMap (State.obtains M)

def quit (x : Desk) : List Nat := x.past.flatMap (State.quits M)

def used (x : Desk) : List Nat := x.past.flatMap (State.uses M)

/-- Who has obtained the lock to use the connection, and has found it gone. -/
def missed (x : Desk) : List Nat := x.past.flatMap (State.misses M)

def guard (c : Lease) (x : Desk) : Guard where
  lock := x.loop.lockOf M
  single := x.loop.singleOf M
  place := x.loop.place?
  lease := x.lease?
  bears := x.loop.bears
  inUse := x.loop.inUse c.id
  asked := x.asked M
  obtained := x.obtained M
  quit := x.quit M
  used := x.used M
  missed := x.missed M

end Desk

variable {M t i : Nat} {way : Route} {l m : State} {u : Shape} {w : Work u} {k : Stack u} {n : Next u}
  {d : Call u} {O O' : Nat}

def Call.Locks : {s : Shape} → Call s → Bool
  | _, .lock _ | _, .hangUp _ => true
  | _, _ => false

theorem Stack.Bears.idle (hk : k.Bears M way d) (hd : d.Locks = false) (x : Control u) :
    k.bars x = false := by
  cases hk with
  | done => cases x with
    | call => rfl
    | give o => cases o <;> rfl
  | push hf _ =>
    cases hf with
    | lockedToUse | lockedToClose | singleClosed => cases hd
    | _ => cases x with
      | call => rfl
      | give o => cases o <;> rfl

theorem Stack.Bears.apart (hk : k.Bears M way d) : k.Waits = false := by
  cases hk with
  | done => rfl
  | push hf _ => cases hf <;> rfl

theorem Stack.Bears.locks {k : Stack .unit} (hk : k.Bears M way (.lock M)) :
    k.bars (.give (.ok ())) = true ∧ ∀ e, k.bars (.give (.error e)) = false := by
  cases hk with
  | done hs => cases hs
  | push hf _ => cases hf <;> exact ⟨rfl, fun _ => rfl⟩

theorem Work.on_place (w : Work u) (t : Nat) (k : Stack u) : (w.on t k).place? = w.place? := by
  cases w with
  | call => rfl
  | back f o => cases f <;> cases o <;> simp [Work.on, Running.place?, Work.place?]

def Work.ComesBack : {u : Shape} → Work u → Prop
  | _, .back (.askedClose _) _ => True
  | _, _ => False

theorem Work.PartOf.unlocked (hw : w.PartOf M way d) (hx : ¬ w.Exchanges) (hd : d.Locks = true) :
    w = .call d ∨ w.ComesBack := by
  cases hw with
  | call => exact .inl rfl
  | back o hf =>
    cases hf with
    | start hs => cases hs <;> cases hd
    | called hf => cases hf <;> first | exact absurd trivial hx | cases hd
    | paused hf => cases hf <;> first | exact absurd trivial hx | exact .inr trivial | cases hd

theorem Work.quiet (hx : ¬ w.Exchanges) (hr : l.running = some (w.on t k)) : l.Quiet M := by
  have quiet : ∀ b, Running.asks M (w.on t k) = false ∧ Running.obtains M b (w.on t k) = false ∧
      Running.quits M (w.on t k) = false ∧ Running.uses M b (w.on t k) = false ∧
      Running.misses M b (w.on t k) = false := by
    intro b
    cases w with
    | call c =>
      cases c with
      | lock => exact absurd trivial hx
      | _ => exact ⟨rfl, rfl, rfl, rfl, rfl⟩
    | back f o =>
      cases f with
      | letIn | lockedToUse => exact absurd trivial hx
      | _ => cases o <;> simp [Work.on, Running.asks, Running.obtains, Running.quits, Running.uses,
          Running.misses]
  constructor
  · simp [State.asks, State.whoever, hr, quiet true]
  · simp [State.obtains, State.whoever, hr, quiet]
  · simp [State.quits, State.whoever, hr, quiet true]
  · simp [State.uses, State.whoever, hr, quiet]
  · simp [State.misses, State.whoever, hr, quiet]

theorem Work.place_of (hx : ¬ w.Exchanges) : w.place? = none := by
  cases w with
  | call => rfl
  | back f o =>
    cases f with
    | letIn => exact absurd trivial hx
    | _ => cases o <;> simp [Work.place?]

theorem Stack.push_closes {k : Stack .unit} {fault : Option Fault} (hk : ∀ x, k.bars x = false) :
    (Stack.push (.askedClose fault) k).closes = false := by
  cases k with
  | done => rfl
  | push f k =>
    cases f with
    | singleClosed => cases hk (.give (.ok ()))
    | _ => simp [closes]

theorem Work.bears_of (hx : ¬ w.Exchanges) (hk : ∀ x, k.bars x = false) : (w.on t k).bears = false := by
  cases w with
  | call c => exact hk (.call c)
  | back f o =>
    cases f with
    | lockedToUse | lockedToClose | singleClosed => exact absurd trivial hx
    | askedClose => exact Stack.push_closes hk
    | _ => cases o <;> simp [Work.on, Running.bears, Stack.bars, Stack.closes]

theorem Deed.unplaced (h : Deed M O way w O' n) : n.place? = none := by
  cases h <;> simp [Next.place?]

theorem Deed.unlocked (h : Deed M O way w O' n) : ¬ w.Exchanges := by
  cases h <;> exact id

theorem Deed.bars (h : Deed M O way w O' n) (hw : w.PartOf M way d) (hk : k.Bears M way d) :
    n.bars k = (w.on t k).bears := by
  cases hd : d.Locks with
  | true =>
    -- Of what concerns the lock only the closing of the connection passes control on.
    rcases hw.unlocked h.unlocked hd with rfl | hc
    · cases h <;> cases hd
      all_goals
        cases hk with
        | done hs => cases hs
        | push hf _ => cases hf <;> rfl
    · cases h <;> cases hc
      cases hw with
      | back _ hf =>
        cases hf with
        | called hf => cases hf
        | paused hf =>
          cases hf
          cases hk with
          | done hs => cases hs
          | push hf _ => cases hf <;> rfl
  | false =>
    have hidle := hk.idle hd
    rw [Work.bears_of h.unlocked hidle]
    cases h
    case hangUpWaits =>
      cases hw
      cases hd
    all_goals first | exact hidle _ | rfl

end SqliteAccess.Loop
