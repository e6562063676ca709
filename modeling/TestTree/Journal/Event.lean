/-
What happens during a run, as a list of events, and what of it becomes visible.

* `Notice` : what a listener is told about a test;
* `Trace` : a diagnostic record with a level;
* `Event` : one thing that happened, visible or not;
* `Listener` : who is told, and whether being told makes it panic;
* `Event.line?` : the line of an event, for a listener and a threshold of diagnostics.

## Design notes

Builders entered, bodies run, callbacks registered and closed are events too.  They have no line;
statements about how often and in which order such things happen are statements about them.
-/
import TestTree.Outcome

namespace TestTree

/-- How severe a diagnostic record is. -/
inductive Level where
  | error
  | warn
  | info
  | debug
  | trace
  deriving DecidableEq, Inhabited

namespace Level

/-- The more severe, the smaller. -/
def rank : Level → Nat
  | error => 0
  | warn => 1
  | info => 2
  | debug => 3
  | trace => 4

/-- The level in words. -/
def display : Level → String
  | error => "ERROR"
  | warn => "WARN"
  | info => "INFO"
  | debug => "DEBUG"
  | trace => "TRACE"

end Level

/-- A diagnostic record: a message with named values. -/
structure Trace where
  level : Level
  message : String
  fields : List (String × String)
  deriving DecidableEq, Inhabited

/-- The record as one line. -/
def Trace.display (t : Trace) : String :=
  "trace " ++ t.level.display ++ " " ++ t.message
    ++ String.join (t.fields.map fun f => " " ++ f.1 ++ "=" ++ f.2)

/-- The line of a record that is at least as severe as the threshold; without one nothing shows. -/
def Trace.line? (threshold : Option Level) (t : Trace) : Option String :=
  match threshold with
  | some level => if t.level.rank ≤ level.rank then some t.display else none
  | none => none

/-- What a listener is told about a test. -/
inductive Notice where
  | started (test : Description)
  | finished (outcome : Outcome)
  | event (test : Description) (kind payload : String)
  deriving Inhabited

/-- The three kinds of notices. -/
inductive Notice.Kind where
  | started
  | finished
  | event
  deriving DecidableEq, Inhabited

namespace Notice

/-- The kind of a notice. -/
def kind : Notice → Notice.Kind
  | started _ => .started
  | finished _ => .finished
  | event .. => .event

/-- The test that a notice is about. -/
def test : Notice → Description
  | started d => d
  | finished o => o.test
  | event d _ _ => d

/-- How a result is noted down. -/
def verdict : TestResult → String
  | .success _ => "ok"
  | .failed _ => "failed"
  | .pending => "pending"

/-- The line of a listener that notes everything down. -/
def display : Notice → String
  | started d => "started " ++ d.display
  | finished o => "finished " ++ o.test.display ++ " " ++ verdict o.result
  | event d kind payload => "event " ++ d.display ++ " " ++ kind ++ " " ++ payload

/-- The diagnostic record of a listener that forwards its notices.  Durations are left out. -/
def toTrace : Notice → Trace
  | started d => ⟨.debug, "test started", [("test", d.display)]⟩
  | finished ⟨d, .success _⟩ => ⟨.info, "test passed", [("test", d.display)]⟩
  | finished ⟨d, .failed f⟩ =>
    ⟨.info, "test failed: " ++ f.message, [("test", d.display), ("origin", f.origin.display)]⟩
  | finished ⟨d, .pending⟩ => ⟨.info, "test pending", [("test", d.display)]⟩
  | event d kind payload => ⟨.trace, payload, [("test", d.display), ("kind", kind)]⟩

end Notice

/-- A listener panics at one kind of notice about tests of one name. -/
structure PanicRule where
  kind : Notice.Kind
  name : String
  payload : Payload
  deriving Inhabited

/-- Who is told about tests. -/
inductive Listener where
  /-- Notes every notice down; it may panic after doing so. -/
  | recorder (rule : Option PanicRule)
  | silent
  /-- Turns notices into diagnostic records. -/
  | tracing
  deriving Inhabited

/-- The panic of a listener that is told `n`. -/
def Listener.panic? (l : Listener) (n : Notice) : Option Payload :=
  match l with
  | .recorder (some r) =>
    if r.kind = n.kind && r.name == n.test.name then some r.payload else none
  | _ => none

/-- One thing that happened during a run. -/
inductive Event where
  /-- A script of a root logged a line. -/
  | said (root : Nat) (line : String)
  | notified (notice : Notice)
  | traced (trace : Trace)
  /-- The builder of a context was entered, in a discovery pass or in a replay. -/
  | entered (root : Nat) (path : NamePath)
  /-- The body of a test was run. -/
  | ran (root : Nat) (path : NamePath)
  /-- A close callback was registered. -/
  | registered (serial : Nat)
  /-- A close callback was run. -/
  | closed (serial : Nat)
  deriving Inhabited

namespace Event

/-- The line that a listener or the diagnostics make of an event; script lines are not among them. -/
def report? (l : Listener) (threshold : Option Level) : Event → Option String
  | notified n =>
    match l with
    | .recorder _ => some n.display
    | .silent => none
    | .tracing => n.toTrace.line? threshold
  | traced t => t.line? threshold
  | _ => none

/-- The line of an event in the log of a run. -/
def line? (l : Listener) (threshold : Option Level) : Event → Option String
  | said _ line => some line
  | e => e.report? l threshold

end Event

end TestTree
