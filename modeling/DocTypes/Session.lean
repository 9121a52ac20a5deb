/-
# Resolving with a registry

A session is a registry in use, with the trace of what has happened so far. It
answers whether a name is known (`Session.ask`), where the failure of a probe
counts as unknown when the session is open to failures, and is handed on
otherwise. Carrying out a plan asks at most one name (`Session.carryOut`).

An expander is a scope with a session; it resolves one type after another
(`Expander.expand`).

Key definitions: `Session`, `Session.ask`, `Session.carryOut`, `Expander`,
`Expander.expand`.
-/
import DocTypes.Scope
import DocTypes.Registry

namespace DocTypes

/-- A registry in use. -/
structure Session where
  registry : Registry
  /-- Whether the failure of a probe counts as an unknown name. -/
  failOpen : Bool := true
  /-- What has happened so far, in order. -/
  trace : List Event := []

namespace Session

/-- The session after some events. -/
def record (s : Session) (events : List Event) : Session :=
  { s with trace := s.trace ++ events }

/-- Asks whether a name is known. -/
def ask (s : Session) (name : Text) : Except Fault Bool × Session :=
  let (answer, registry) := s.registry.knows name
  let s' := { s with registry := registry }.record [.asked name]
  match answer with
  | .ok known => (.ok known, s')
  | .error fault =>
    if s.failOpen then (.ok false, s'.record [.probeFailed name fault]) else (.error fault, s')

/-- Carries out a plan. -/
def carryOut (s : Session) : Plan → Except Fault Text × Session
  | .settled result => (.ok result, s)
  | .ask name known unknown note =>
    match s.ask name with
    | (.ok true, s') => (.ok known, s')
    | (.ok false, s') => (.ok unknown, s'.record [note])
    | (.error fault, s') => (.error fault, s')

/-- Adds a source text to the registry, and answers the number of its
declarations. -/
def addText (s : Session) (source : Text) : Nat × Session :=
  let ((count, events), registry) := s.registry.addText source
  (count, { s with registry := registry }.record events)

/-- Adds a file to the registry, and answers the number of its declarations. -/
def addFile (s : Session) (tree : Tree) (path : Path) : Except ScanFault Nat × Session :=
  let ((count, events), registry) := s.registry.addFile tree path
  (count, { s with registry := registry }.record events)

end Session

/-- A scope with a session. -/
structure Expander where
  scope : Scope
  session : Session

namespace Expander

/-- The expander for a context and a registry. The generic parameters are those
of the context unless others are given; a cache is put in front of the registry
when answers are to be kept and it has none. -/
def create (context : Context) (generics? : Option (List Text)) (registry : Registry)
    (failOpen cacheAnswers : Bool) : Expander where
  scope := ⟨context, generics?.getD context.generics⟩
  session :=
    { registry := if cacheAnswers && !registry.isCached then registry.withCache else registry
      failOpen := failOpen }

/-- Resolves a single type. -/
def expand (e : Expander) (t : Text) : Except Fault Text × Expander :=
  let (result, session) := e.session.carryOut (e.scope.plan t)
  (result, { e with session := session })

/-- Asks the registry whether a name is known. -/
def exists? (e : Expander) (name : Text) : Except Fault Bool × Expander :=
  let (answer, session) := e.session.ask name
  (answer, { e with session := session })

/-- Resolves types in turn, up to the first that fails. -/
def expandAll (e : Expander) : List Text → Except Fault (List Text) × Expander
  | [] => (.ok [], e)
  | t :: ts =>
    match e.expand t with
    | (.error fault, e') => (.error fault, e')
    | (.ok result, e') =>
      match e'.expandAll ts with
      | (.error fault, e'') => (.error fault, e'')
      | (.ok results, e'') => (.ok (result :: results), e'')

end Expander
end DocTypes
