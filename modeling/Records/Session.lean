import Records.Filter.Compile
import Records.Listing.Params
import Records.Problem
import Records.Record.Attribute
import Records.Staging.Flush

/-!
Sessions on a store. A session holds the records it has read, with the relations loaded on them, and
the changes it has staged; a commit writes them all or none. An action runs in a session and leaves
one behind, also when it fails.
-/
namespace Records

open Records.Calendar (Moment)
open Records.Filter (CompileError Predicate)
open Records.Listing (ParamsError)

/-- Why an action fails. -/
inductive Failure
  | problem (p : Problem)
  | params (e : ParamsError)
  | compile (e : CompileError)
  | write (e : WriteError)
  | missing (e : MissingAttribute)
  /-- Entries are wanted, and this has none. -/
  | noEntries (v : Value)
  | notMapping (v : Value)
  | notIterable (v : Value)
  | notPath (v : Value)
  | noModel
  | nothingToRestore
  /-- A record was written and cannot be read back. -/
  | notRefreshed (model : String)
  /-- A write failed and the session was not rolled back since. -/
  | inactive

def Failure.store (e : StoreError) : Failure := .write (.store e)

/-- The texts of the failures that arise in a session itself. -/
def Failure.message : Failure → String
  | .problem p => p.detail.display
  | .params e => e.message
  | .compile e => e.message
  | .write (.store (.codec e)) => e.message
  | .write (.store (.bind .integerTooLarge)) => "Python int too large to convert to SQLite INTEGER"
  | .write (.store (.bind .unsupported)) => "type is not supported"
  | .write (.constraint e) => e.message
  | .write (.unhashableId typeName) => "unhashable type: '" ++ typeName ++ "'"
  | .missing e => e.message
  | .noEntries v => "'" ++ v.typeName ++ "' object has no attribute 'items'"
  | .notMapping v => "'" ++ v.typeName ++ "' object is not a mapping"
  | .notIterable v => "'" ++ v.typeName ++ "' object is not iterable"
  | .notPath v => "'" ++ v.typeName ++ "' object has no attribute 'startswith'"
  | .noModel => "ResourceService must define a model"
  | .nothingToRestore => "Cannot restore None entity"
  | .notRefreshed model => "Could not refresh instance '<" ++ model ++ ">'"
  | .inactive => "the session has to be rolled back first"

/-- Failures of a write that are passed on: an integer that the store cannot take, and an id that
cannot be a key. -/
def Failure.escapes : Failure → Bool
  | .write (.store (.bind .integerTooLarge)) => true
  | .write (.unhashableId _) => true
  | _ => false

structure Session where
  store : Store
  now : Moment
  /-- The records that were read since the last commit or rollback. -/
  records : Graph := .empty
  staged : Staging := .empty
  inactive : Bool := false

namespace Session

/-- Nothing is staged, and nothing keeps the session from being used. -/
def isClean (se : Session) : Bool := se.staged == .empty && !se.inactive

/-- The session with what it staged and held forgotten. -/
def rolledBack (se : Session) : Session := { store := se.store, now := se.now }

/-- The session after a commit of a store. -/
def committed (se : Session) (st : Store) : Session := { store := st, now := se.now }

/-- The session without the records that nobody refers to any more. -/
def released (se : Session) : Session := { se with records := .empty }

end Session

/-- What an action logs, its result or failure, and the session it leaves. -/
structure Outcome (α : Type) where
  log : List LogEntry
  result : Except Failure α
  session : Session

/-- Something done in a session. -/
def Action (α : Type) : Type := Session → Outcome α

namespace Action

variable {α β : Type}

def pure (a : α) : Action α := fun se => ⟨[], .ok a, se⟩

def bind (x : Action α) (f : α → Action β) : Action β := fun se =>
  match (x se).result with
  | .ok a =>
    let next := f a (x se).session
    ⟨(x se).log ++ next.log, next.result, next.session⟩
  | .error e => ⟨(x se).log, .error e, (x se).session⟩

instance : Monad Action where
  pure := pure
  bind := bind

theorem bind_apply_of_ok {x : Action α} {se : Session} {a : α} (h : (x se).result = .ok a)
    (f : α → Action β) :
    (x >>= f) se = ⟨(x se).log ++ (f a (x se).session).log, (f a (x se).session).result,
      (f a (x se).session).session⟩ := by
  change x.bind f se = _
  simp only [bind, h]

theorem bind_apply_of_error {x : Action α} {se : Session} {e : Failure}
    (h : (x se).result = .error e) (f : α → Action β) :
    (x >>= f) se = ⟨(x se).log, .error e, (x se).session⟩ := by
  change x.bind f se = _
  simp only [bind, h]

def fail (e : Failure) : Action α := fun se => ⟨[], .error e, se⟩

def current : Action Session := fun se => ⟨[], .ok se, se⟩

def replace (se : Session) : Action Unit := fun _ => ⟨[], .ok (), se⟩

def modify (f : Session → Session) : Action Unit := fun se => ⟨[], .ok (), f se⟩

def entry (e : LogEntry) : Action Unit := fun se => ⟨[e], .ok (), se⟩

def ofExcept (x : Except Failure α) : Action α := fun se => ⟨[], x, se⟩

/-- Something that reports and needs no session. -/
def ofReported {ε : Type} (f : ε → Failure) (x : Reported ε α) : Action α := fun se =>
  ⟨x.log, x.outcome.mapError f, se⟩

def raise (p : Problem × LogEntry) : Action α := fun se => ⟨[p.2], .error (.problem p.1), se⟩

def rollback : Action Unit := modify Session.rolledBack

/-- Changes what is staged. -/
def stage (f : Staging → Staging) : Action Unit :=
  modify fun se => { se with staged := f se.staged }

/-- A new record, by which it is known until it is written. -/
def stageDraft (m : Model) (values : List (String × Value)) : Action Ref := fun se =>
  let (staged, ref) := se.staged.addDraft m values
  ⟨[], .ok ref, { se with staged := staged }⟩

/-- The rows of a query. What is staged is not seen. -/
def query (q : Query) : Action (List Row) := fun se =>
  if se.inactive then ⟨[], .error .inactive, se⟩
  else ⟨[], (q.run se.store).mapError .store, se⟩

def count (q : Query) : Action Nat := fun se =>
  if se.inactive then ⟨[], .error .inactive, se⟩
  else ⟨[], (q.count se.store).mapError .store, se⟩

/-- Holds the records of rows, with the changes that are staged for them. -/
def hold (s : Schema) (m : Model) (deferred : List String) (rows : List Row) : Action (List Ref) :=
  fun se =>
    let records := rows.foldl (Graph.hold s se.store m deferred) se.records
    let refs := rows.map fun r => Ref.stored m.name r.id
    let edited := refs.foldl (fun g ref =>
      match ref with
      | .stored name id => g.modify ref fun n =>
        { n with values := Value.merge n.values (se.staged.valuesOf name id) }
      | .draft _ => g) records
    ⟨[], .ok refs, { se with records := edited }⟩

/-- Loads chains of relations from some records. -/
def load (s : Schema) (chains : List (List Handle)) (refs : List Ref) : Action Unit :=
  modify fun se => { se with records := se.records.loadChains s se.store chains refs }

/-- Writes what is staged. The session is left as it was when that fails. -/
def flush (s : Schema) : Action Written := fun se =>
  if se.inactive then ⟨[], .error .inactive, se⟩
  else match se.staged.flush s se.now se.store se.records with
    | .ok w => ⟨[], .ok w, se.committed w.store⟩
    | .error e => ⟨[], .error (.write e), se⟩

/-- Writes what is staged, and rolls back when that fails. -/
def commit (s : Schema) : Action Written := fun se =>
  let x := flush s se
  match x.result with
  | .ok _ => x
  | .error e => ⟨x.log, .error e, x.session.rolledBack⟩

/-- Commits a store that was changed directly, together with what is staged. -/
def commitOn (s : Schema) (st : Store) : Action Written := fun se =>
  let x := commit s { se with store := st }
  match x.result with
  | .ok _ => x
  | .error _ => { x with session := se.rolledBack }

/-- Writes what is staged; tells whether that went well, and logs when it did not. A failure that
escapes is passed on, and the session has to be rolled back. -/
def save (s : Schema) (m : Model) : Action (Option Written) := fun se =>
  let x := flush s se
  match x.result with
  | .ok w => ⟨x.log, .ok (some w), x.session⟩
  | .error e =>
    if e.escapes then ⟨x.log, .error e, { x.session.rolledBack with inactive := true }⟩
    else ⟨x.log ++ [⟨.error, .repository, "Cascade save failed", [("model", .text m.name)]⟩],
      .ok none, x.session.rolledBack⟩

end Action

end Records
