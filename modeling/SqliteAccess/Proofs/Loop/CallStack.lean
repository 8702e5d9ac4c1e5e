import Mathlib.Data.List.Forall2
import SqliteAccess.Loop.Machine

/-!
The stacks of the tasks of a pool are chains of callers: each frame is what is left of one call and
waits for the call above it.
-/

namespace SqliteAccess.Loop

/-- What a task does in one step: it begins a call, or a call comes back to a frame. -/
inductive Work (u : Shape) where
  | call (c : Call u)
  | back {s : Shape} (f : Frame s u) (o : Outcome s)

def Work.perform (l : State) {u : Shape} : Work u → State × Next u
  | .call c => begin l c
  | .back f o => resume l f o

inductive Call.Root (p : Nat) : {s : Shape} → Call s → Prop
  | acquire : Call.Root p (.acquire p)
  | openBackground : Call.Root p (.openBackground p)
  | destroy (id : Nat) : Call.Root p (.destroy p id)
  | evict : Call.Root p (.evict p)
  | reap : Call.Root p (.reap p)
  | closePool : Call.Root p (.closePool p)

/-- The frame is what is left of the call. -/
inductive Frame.RestOf (p : Nat) : {s t : Shape} → Frame s t → Call t → Prop
  | start {t : Shape} {c : Call t} : c.Root p → Frame.RestOf p (.start c) c
  | askedOpen (n : Nat) : Frame.RestOf p (.askedOpen n) .askOpen
  | askedClose (fault : Option Fault) (h : Pool.Handle) :
      Frame.RestOf p (.askedClose fault) (.askClose h)
  | opened : Frame.RestOf p (.opened p) (.acquire p)
  | inLine : Frame.RestOf p (.inLine p) (.acquire p)
  | registering : Frame.RestOf p (.registering p) (.openSlot p)
  | openedBackground : Frame.RestOf p (.openedBackground p) (.openBackground p)
  | destroyed (id : Nat) : Frame.RestOf p (.destroyed p id) (.destroy p id)
  | evicting (rest : List Nat) (n : Nat) : Frame.RestOf p (.evicting p rest n) (.evict p)
  | rested (i : Float) : Frame.RestOf p (.rested p i) (.reap p)
  | swept (i : Float) : Frame.RestOf p (.swept p i) (.reap p)
  | reaperEnded : Frame.RestOf p (.reaperEnded p) (.closePool p)
  | draining (rest : List Nat) : Frame.RestOf p (.draining p rest) (.closePool p)
  | backgroundEnded : Frame.RestOf p (.backgroundEnded p) (.closePool p)

inductive Frame.Awaits (p : Nat) : {s t : Shape} → Frame s t → Call s → Prop
  | opened : Frame.Awaits p (.opened p) (.openSlot p)
  | registering : Frame.Awaits p (.registering p) .askOpen
  | openedBackground : Frame.Awaits p (.openedBackground p) (.openSlot p)
  | destroyed (id : Nat) (h : Pool.Handle) : Frame.Awaits p (.destroyed p id) (.askClose h)
  | evicting (id : Nat) (rest : List Nat) (n : Nat) :
      Frame.Awaits p (.evicting p rest n) (.destroy p id)
  | swept (i : Float) : Frame.Awaits p (.swept p i) (.evict p)
  | draining (id : Nat) (rest : List Nat) : Frame.Awaits p (.draining p rest) (.destroy p id)

inductive Frame.Pauses : {t : Shape} → Frame .unit t → Wait → Prop
  | turn (p : Nat) (timer : Option Nat) : Frame.Pauses (.inLine p) (.turn p timer)
  | givenUp (p : Nat) : Frame.Pauses (.inLine p) (.givenUp p)
  | opening (n : Nat) : Frame.Pauses (.askedOpen n) (.opening n)
  | closing (fault : Option Fault) (h : Pool.Handle) : Frame.Pauses (.askedClose fault) (.closing h)
  | sleep (p : Nat) (i : Float) (timer : Nat) : Frame.Pauses (.rested p i) (.sleep timer)
  | task (p r : Nat) : Frame.Pauses (.reaperEnded p) (.task r)
  | tasks (p : Nat) (ts : List Nat) (b : Bool) : Frame.Pauses (.backgroundEnded p) (.tasks ts b)

inductive Stack.Holds (p : Nat) : {s : Shape} → Stack s → Call s → Prop
  | done {s : Shape} {c : Call s} : c.Root p → Stack.Holds p (.done s) c
  | push {s t : Shape} {f : Frame s t} {k : Stack t} {c : Call s} {d : Call t} :
      f.Awaits p c → f.RestOf p d → k.Holds p d → Stack.Holds p (.push f k) c

inductive Stack.Fits (p : Nat) : {s : Shape} → Stack s → Prop
  | done (s : Shape) : Stack.Fits p (.done s)
  | push {s t : Shape} {f : Frame s t} {k : Stack t} {d : Call t} :
      f.RestOf p d → k.Holds p d → Stack.Fits p (.push f k)

inductive Work.Of (p : Nat) {u : Shape} : Work u → Call u → Prop
  | call (c : Call u) : Work.Of p (.call c) c
  | back {s : Shape} {f : Frame s u} {d : Call u} (o : Outcome s) :
      f.RestOf p d → Work.Of p (.back f o) d

inductive Next.Keeps (p : Nat) : {u : Shape} → Next u → Call u → Prop
  | give {u : Shape} (o : Outcome u) (d : Call u) : Next.Keeps p (.give o) d
  | call {t u : Shape} {c : Call t} {f : Frame t u} {d : Call u} :
      f.Awaits p c → f.RestOf p d → Next.Keeps p (.call c f) d
  | jump {u : Shape} {c : Call u} : c.Root p → Next.Keeps p (.jump c) c
  | late (id : Nat) : Next.Keeps p (.jump (.destroy p id)) (.openBackground p)
  | pause {u : Shape} {f : Frame .unit u} {d : Call u} {w : Wait} :
      f.Pauses w → f.RestOf p d → Next.Keeps p (.pause w f) d
  | again {u : Shape} {f : Frame .unit u} {d : Call u} {w : Wait} :
      f.Pauses w → f.RestOf p d → Next.Keeps p (.again f) d

namespace Stack

variable {p : Nat} {s : Shape}

theorem Holds.fits {k : Stack s} {c : Call s} (h : k.Holds p c) : k.Fits p := by
  cases h with
  | done _ => exact .done _
  | push _ hf hk => exact .push hf hk

end Stack

end SqliteAccess.Loop
