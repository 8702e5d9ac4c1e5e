import SqliteAccess.Proofs.Demo.Stages

/-!
What each call of the demonstration comes back with, and what each frame makes of that: in which phase it
may be called, and in which phase it comes back with an answer or with a failure.
-/

namespace SqliteAccess.Loop

open Access (Database Mode)
open SqliteAccess.Pool (Handle Lease)
open Sql (Statement)

abbrev Terms (u : Shape) := Outcome u → Phase → Prop

namespace Terms

variable {u : Shape}

def stays (φ : Phase) : Terms u := fun _ ψ => ψ = φ

def succeeds (φ : Phase) : Terms u := fun o ψ => (∃ x, o = .ok x) ∧ ψ = φ

def dials (d : Database) : Terms .handle
  | .ok h, ψ => h = onlyHandle ∧ ψ = .up d .opened
  | .error _, ψ => ψ = .up d .asked

def fills (d : Database) : Terms .lease
  | .ok c, ψ => ∃ id since, c = onlyLease id ∧ ψ = .up d (.made id since)
  | .error _, ψ => ψ = .up d .lost

def leases (d : Database) (first : Prop) : Terms .lease
  | .ok c, ψ => ∃ id since, c = onlyLease id ∧ ψ = .up d (.lent id since)
  | .error _, ψ => first ∧ ψ = .up d .lost

def borrows (d : Database) (first : Prop) : Terms .borrowed
  | .ok (some c), ψ => ∃ id since, c = onlyLease id ∧ ψ = .up d (.lent id since)
  | .ok none, _ => False
  | .error _, ψ => first ∧ ψ = .up d .lost

def settles (d : Database) (first : Prop) : Terms u
  | .ok _, ψ => ∃ id since, ψ = .up d (.rests id since)
  | .error _, ψ => (∃ id since, ψ = .up d (.rests id since)) ∨ first ∧ ψ = .up d .lost

def boots : Terms .manager
  | .ok M, ψ => M = 0 ∧ ∃ d id since, ψ = .up d (.rests id since)
  | .error _, ψ => ψ.Forsaken

def sweepOver (d : Database) (id : Nat) (since : Float) : Terms .unit := fun o ψ =>
  o = .error .cancelled ∧ ψ = .up d (.swept id since)

theorem settles_of_rests (d : Database) (first : Prop) (o : Outcome u) (id : Nat) (since : Float) :
    settles d first o (.up d (.rests id since)) := by
  cases o with
  | error => exact .inl ⟨id, since, rfl⟩
  | ok => exact ⟨id, since, rfl⟩

end Terms

/-- In this phase the call may begin, and on these terms it comes back. -/
inductive Call.Promises : {u : Shape} → Call u → Phase → Terms u → Prop
  | dial (d : Database) : Promises (.dial d) (.up d .asked) (.dials d)
  | pragma (d : Database) {sql : String} : sql ∈ setupPragmas →
      Promises (.send onlyHandle ⟨sql, []⟩) (.up d .opened) (.succeeds (.up d .opened))
  | send (d : Database) (id : Nat) (since : Float) (h : Handle) (s : Statement) :
      Promises (.send h s) (.up d (.lent id since)) (.stays (.up d (.lent id since)))
  | run (d : Database) (id : Nat) (since : Float) (b : Database) (h : Handle) (s : Statement) (m : Mode) :
      Promises (.run b h s m) (.up d (.lent id since)) (.stays (.up d (.lent id since)))
  | connect (d : Database) : Promises (.connect d true) (.up d .asked) (.dials d)
  | openSlot (d : Database) : Promises (.openSlot 0) (.up d .asked) (.fills d)
  | acquire (d : Database) {first : Prop} {x : Stock} : x.Ready first →
      Promises (.acquire 0) (.up d x) (.leases d first)
  | borrow (d : Database) {first : Prop} {x : Stock} : x.Ready first →
      Promises (.borrow 0) (.up d x) (.borrows d first)
  | execute (d : Database) {first : Prop} {x : Stock} (s : Statement) (mode : Value) : x.Ready first →
      (∃ m, Mode.ofValue mode = .ok m) → Promises (.execute 0 s mode) (.up d x) (.settles d first)
  | executeAll (d : Database) {first : Prop} {x : Stock} (ss : List Statement) (mode : Value) : x.Ready first →
      (∃ m, Mode.ofValue mode = .ok m) → Promises (.executeAll 0 ss mode) (.up d x) (.settles d first)
  | hasTable (d : Database) {first : Prop} {x : Stock} (table : String) : x.Ready first →
      Promises (.hasTable 0 table) (.up d x) (.settles d first)
  | build (d : Database) {first : Prop} (id : Nat) (since : Float) (w : Sql.Writer) (b : Schema.Blueprint)
      (changes : List Schema.Revision) :
      Promises (.build 0 w b changes) (.up d (.rests id since)) (.settles d first)
  | setUp (location : Config.Location) : Promises (.setUp 0 (some location) (.pooled Demo.settings)) .bare
      (fun o ψ => o = .ok 0 ∧ ψ = .up { location } .untouched)
  | bootstrap (url : String) : Promises (.bootstrap url) .blank .boots
  | reset (d : Database) (id : Nat) (since : Float) :
      Promises (.reset 0) (.up d (.rests id since)) (.settles d False)
  | seed (d : Database) (id : Nat) (since : Float) :
      Promises (.seed 0) (.up d (.rests id since)) (.settles d False)
  | fetch (d : Database) (id : Nat) (since : Float) :
      Promises (.fetch 0) (.up d (.rests id since)) (.settles d False)
  | hangUp (d : Database) (id : Nat) (since : Float) :
      Promises (.hangUp onlyHandle) (.up d (.parted id since)) (.succeeds (.up d (.closed id since)))
  | destroy (d : Database) (id : Nat) (since : Float) :
      Promises (.destroy 0 id) (.up d (.leaving id since)) (.succeeds (.up d (.closed id since)))
  | closePool (d : Database) (id : Nat) (since : Float) :
      Promises (.closePool 0) (.up d (.rests id since)) (.succeeds (.up d (.closed id since)))
  | shutDown (d : Database) (id : Nat) (since : Float) :
      Promises (.shutDown 0) (.up d (.rests id since)) (.succeeds (.down d id since))

/-- What comes back to the frame on the one terms goes on from it on the others. -/
inductive Frame.Relays : {s u : Shape} → Frame s u → Terms s → Terms u → Prop
  | dialled (d : Database) (fault : Option Fault) :
      Relays (.dialled fault) (.succeeds (.up d .asked)) (.dials d)
  | sent (φ : Phase) (r : Engine.Rule) : Relays (.sent r) (.succeeds φ) (.stays φ)
  | pragmaSent (φ : Phase) {r : Engine.Rule} : r.fault = none → Relays (.sent r) (.succeeds φ) (.succeeds φ)
  | ran (φ : Phase) (d : Database) (sql : String) (m : Mode) (start : Float) :
      Relays (.ran d sql m start) (.stays φ) (.stays φ)
  | connected (d : Database) : Relays (.connected d true) (.dials d) (.dials d)
  | foreignKeysSet (d : Database) :
      Relays (.foreignKeysSet d onlyHandle true) (.succeeds (.up d .opened)) (.dials d)
  | journalSet (d : Database) : Relays (.journalSet d onlyHandle) (.succeeds (.up d .opened)) (.dials d)
  | registering (d : Database) : Relays (.registering 0) (.dials d) (.fills d)
  | opened (d : Database) {first : Prop} : first → Relays (.opened 0) (.fills d) (.leases d first)
  | leased (d : Database) (first : Prop) : Relays .leased (.leases d first) (.borrows d first)
  | executing (d : Database) (first : Prop) (s : Statement) (m : Mode) (restores : Bool) :
      Relays (.executing 0 s m restores) (.borrows d first) (.settles d first)
  | executed (d : Database) (first : Prop) (id : Nat) (since : Float) (restores : Bool) :
      Relays (.executed 0 (some (onlyLease id)) restores) (.stays (.up d (.lent id since))) (.settles d first)
  | batching (d : Database) (first : Prop) (ss : List Statement) (m : Mode) (restores : Bool) :
      Relays (.batching 0 ss m restores) (.borrows d first) (.settles d first)
  | batched (d : Database) (first : Prop) (id : Nat) (since : Float) (rest : List Statement) (m : Mode)
      (done : List Access.Answer) (restores : Bool) :
      Relays (.batched 0 (some (onlyLease id)) rest m done restores) (.stays (.up d (.lent id since)))
        (.settles d first)
  | sought (d : Database) (first : Prop) : Relays .sought (.settles d first) (.settles d first)
  | built (d : Database) (first : Prop) (ss : List Statement) :
      Relays (.built ss) (.settles d first) (.settles d first)
  | emptied (d : Database) (first : Prop) : Relays .emptied (.settles d first) (.settles d first)
  | started (d : Database) : Relays (.started 0) (fun o ψ => o = .ok 0 ∧ ψ = .up d .untouched) .boots
  | tableKnown (d : Database) (first : Prop) : Relays (.tableKnown 0) (.settles d first) .boots
  | writersMade (d : Database) (first : Prop) : Relays (.writersMade 0) (.settles d first) .boots
  | booksMade (d : Database) (first : Prop) : Relays (.booksMade 0) (.settles d first) .boots
  | writersWritten (d : Database) : Relays (.writersWritten 0) (.settles d False) (.settles d False)
  | writersRead (d : Database) (writers : Option Access.Answer) :
      Relays (.writersRead 0 writers) (.settles d False) (.settles d False)
  | booksWritten (d : Database) (writers : Option Access.Answer) :
      Relays (.booksWritten writers) (.settles d False) (.settles d False)
  | destroyed (d : Database) (id : Nat) (since : Float) :
      Relays (.destroyed 0 id) (.succeeds (.up d (.closed id since))) (.succeeds (.up d (.closed id since)))
  | draining (d : Database) (id : Nat) (since : Float) :
      Relays (.draining 0 []) (.succeeds (.up d (.closed id since))) (.succeeds (.up d (.closed id since)))
  | reaperEnded (d : Database) (id : Nat) (since : Float) :
      Relays (.reaperEnded 0) (.sweepOver d id since) (.succeeds (.up d (.closed id since)))
  | askedClose (d : Database) (id : Nat) (since : Float) :
      Relays (.askedClose none) (.succeeds (.up d (.closed id since))) (.succeeds (.up d (.closed id since)))
  | poolShut (d : Database) (id : Nat) (since : Float) :
      Relays (.poolShut 0) (.succeeds (.up d (.closed id since))) (.succeeds (.down d id since))

inductive Wait.Heeds : Wait → Phase → Terms .unit → Prop
  | held (d : Database) {x : Stock} : x.Held → Heeds .held (.up d x) (.succeeds (.up d x))
  | task (d : Database) (id : Nat) (since : Float) :
      Heeds (.task 1) (.up d (.closing id since)) (.sweepOver d id since)

def Next.Honours {u : Shape} (Q : Terms u) (m : State) : Next u → Prop
  | .give o => ∃ φ, m.Plays φ ∧ Q o φ
  | .call c f => ∃ φ Q', m.Plays φ ∧ c.Promises φ Q' ∧ f.Relays Q' Q
  | .jump c => ∃ φ, m.Plays φ ∧ c.Promises φ Q
  | .pause w f => ∃ φ Q', m.Plays φ ∧ w.Heeds φ Q' ∧ f.Relays Q' Q
  | .again _ => False

variable {l m : State} {φ ψ : Phase} {d : Database} {x y : Stock} {u v : Shape} {Q : Terms u} {Q' : Terms v}

theorem State.endDial_honours (h : l.Plays (.up d .asked)) (fault : Option Fault) :
    (l.endDial fault).2.Honours (.dials d) (l.endDial fault).1 := by
  cases fault with
  | some f => exact ⟨_, h, rfl⟩
  | none =>
    have ho : l.engine.opened = 0 := h.opened
    refine ⟨.up d .opened,
      ⟨⟨h.managers, h.pools, ?_, h.closes, h.spares.rules, h.spares.closings⟩, h.current, h.tasks⟩, ?_, rfl⟩
    · exact congrArg (· + 1) ho
    · rw [ho, onlyHandle]

theorem State.dial_honours (h : l.Plays (.up d .asked)) (b : Database) :
    (l.dial b).2.Honours (.dials d) (l.dial b).1 := by
  obtain ⟨_, ho, hr, _, hcl⟩ := (l.engine.record (.open b.location.filename b.timeout)).nextOpening_spec
  have hc : (l.engine.record (.open b.location.filename b.timeout)).nextOpening.2.closes = l.engine.closes := by
    simp
  have he : ∀ held, ({ l with engine :=
      { (l.engine.record (.open b.location.filename b.timeout)).nextOpening.2 with held } } : State).Plays
        (.up d .asked) := fun _ => h.modifyEngine _ ho hc ⟨hr ▸ h.spares.rules, hcl ▸ h.spares.closings⟩
  unfold State.dial
  dsimp only
  split
  · exact ⟨_, _, he _, .held d (.busy .asked), .dialled d _⟩
  · exact State.endDial_honours (he _) _

theorem State.send_plays (h : l.Plays (.up d x)) (g : Handle) (s : Statement) :
    (l.send g s).1.Plays (.up d x) ∧ ∃ r : Engine.Rule, (s.sql ∈ setupPragmas → r.fault = none) ∧
      ((l.send g s).2 = .pause .held (.sent r) ∨ (l.send g s).2 = .give (State.orFault r.fault r.cursor)) := by
  obtain ⟨hrules, hfault⟩ := h.spares.rules.choose s.sql
  have hrec : ∀ held, ({ l with engine := { l.engine.record (.execute g s.sql s.params) with
      rules := (Engine.Rule.choose s.sql l.engine.rules).2, held } } : State).Plays (.up d x) := fun held =>
    h.modifyEngine _ rfl (l.engine.closes_record_execute _ _ _) ⟨hrules, h.spares.closings⟩
  unfold State.send
  dsimp only [Engine.State.nextRule]
  split
  · exact ⟨hrec _, _, hfault, .inl rfl⟩
  · exact ⟨(hrec _).quiet rfl rfl rfl rfl rfl, _, hfault, .inr rfl⟩

theorem State.send_honours (h : l.Plays (.up d x)) (hx : x.Busy) (g : Handle) (s : Statement) :
    (l.send g s).2.Honours (.stays (.up d x)) (l.send g s).1 := by
  obtain ⟨hp, r, _, hn | hn⟩ := State.send_plays h g s
  · rw [hn]
    exact ⟨_, _, hp, .held d (.busy hx), .sent _ r⟩
  · rw [hn]
    exact ⟨_, hp, rfl⟩

theorem State.pragma_honours (h : l.Plays (.up d .opened)) {sql : String} (hs : sql ∈ setupPragmas) :
    (l.send onlyHandle ⟨sql, []⟩).2.Honours (.succeeds (.up d .opened)) (l.send onlyHandle ⟨sql, []⟩).1 := by
  obtain ⟨hp, r, hr, hn | hn⟩ := State.send_plays h onlyHandle ⟨sql, []⟩
  · rw [hn]
    exact ⟨_, _, hp, .held d (.busy .opened), .pragmaSent _ (hr hs)⟩
  · rw [hn]
    exact ⟨_, hp, ⟨r.cursor, by rw [hr hs]; rfl⟩, rfl⟩

end SqliteAccess.Loop
