import Records.Filter.Compile
import Records.Staging.Removal
import Records.Store.Constraint
import Records.Value.Equality

/-!
Writing staged changes to a store. Models are written in the order of the schema, in each the
records that others wait for first, updates before new rows; removals come last. An update writes
only the columns whose values differ, and none at all when none does.
-/
namespace Records

open Records.Calendar (Moment)
open Records.Filter (unhashableType?)

inductive WriteError
  | store (e : StoreError)
  | constraint (e : ConstraintError)
  /-- A new row is given a collection for its id, which cannot be a key. -/
  | unhashableId (typeName : String)
deriving DecidableEq

/-- Values for columns, in table order. -/
abbrev Assigned := List (Column × Value)

namespace Assigned

def parameters (as : Assigned) : List Parameter := as.map fun (c, v) => ⟨c.kind.codec, v⟩

/-- Cells as the columns keep them. -/
def kept (as : Assigned) (cells : List Cell) : List (String × Cell) :=
  List.zipWith (fun (c, _) cell => (c.name, cell.kept c.kind.affinity)) as cells

def encode (as : Assigned) : Except WriteError Assigned := do
  let forms ← (encodeAll as.parameters).mapError .store
  return (as.map (·.1)).zip forms

/-- The cells of encoded values. -/
def cells (forms : Assigned) : Except WriteError (List (String × Cell)) := do
  return forms.kept (← (bindForms (forms.map (·.2))).mapError .store)

end Assigned

/-- What a new row is given in a column: nothing stands for the default. -/
def Column.initial (c : Column) (now : Moment) (given : Option Value) : Value :=
  match given.getD .null, c.default with
  | .null, some (.value v) => v
  | .null, some .now => .moment now
  | v, _ => v

namespace Model

/-- The values of a new row. Without an id it is given the next one. -/
def initialValues (m : Model) (now : Moment) (values : List (String × Value)) : Assigned :=
  let given (c : Column) := Value.lookup? c.name values
  (m.columns.filter fun c => c.name != idColumn.name || (given c).getD .null != .null).map
    fun c => (c, c.initial now (given c))

/-- The columns of a row whose values differ from the given ones. -/
def changedValues (m : Model) (r : Row) (values : List (String × Value)) : Assigned :=
  m.columns.filterMap fun c =>
    match Value.lookup? c.name values with
    | some v => if (r.value c).same v then none else some (c, v)
    | none => none

/-- What an update writes: the columns that change, and the refreshed ones that do not. -/
def updateValues (m : Model) (now : Moment) (changed : Assigned) : Assigned :=
  m.columns.filterMap fun c =>
    match changed.find? (·.1.name == c.name) with
    | some a => some a
    | none => if c.refreshed then some (c, .moment now) else none

/-- The default columns that the values leave to their defaults. -/
def omitted (m : Model) (values : List (String × Value)) : List String :=
  (m.columns.filter fun c =>
    (c.default.isSome || c.name == idColumn.name) &&
      (Value.lookup? c.name values).getD .null == .null).map (·.name)

end Model

/-- A store in the course of being written, with the ids of the drafts that are in it. -/
structure Written where
  store : Store
  ids : List (Nat × Int) := []

namespace Written

def id? (w : Written) : Ref → Option Int
  | .stored _ id => some id
  | .draft n => (w.ids.find? (·.1 == n)).map (·.2)

/-- The values that foreign keys take once the ids of their targets are known. -/
def bondValues (w : Written) (bonds : List Bond) (ref : Ref) : List (String × Value) :=
  (bonds.filter (·.record == ref)).map fun b =>
    (b.column, ((w.id? b.target).map Value.int).getD .null)

/-- Writes to rows of one model that all change the same columns. -/
def update (s : Schema) (m : Model) (w : Written) (group : List (Int × Assigned)) :
    Except WriteError Written := do
  let encoded ← group.mapM fun (id, as) => do return (id, ← as.encode)
  encoded.foldlM (fun w (id, forms) => do
    let cells ← forms.cells
    match (w.store.table m.table).find? id with
    | some row => return { w with store := ← (w.store.change s m [row] cells).mapError .constraint }
    | none => return w) w

/-- Adds rows of one model that all leave the same columns to their defaults. A row whose given id
is bound as a null gets the next one, but is not known by it. -/
def add (m : Model) (w : Written) (group : List (Nat × Assigned)) : Except WriteError Written := do
  let encoded ← group.mapM fun (n, as) => do return (n, ← as.encode)
  encoded.foldlM (fun w (n, forms) => do
    let cells ← forms.cells
    let given := (cells.find? (·.1 == idColumn.name)).map (·.2)
    let (store, id) ←
      (w.store.addRow m (given.getD .null) (cells.filter (·.1 != idColumn.name))).mapError
        .constraint
    return ⟨store, if given = some .null then w.ids else w.ids ++ [(n, id)]⟩) w

def remove (s : Schema) (w : Written) (ref : Ref) : Except WriteError Written :=
  match s.modelOf? ref, ref with
  | some m, .stored _ id => do
    return { w with store := ← (w.store.remove s m id).mapError .constraint }
  | _, _ => return w

end Written

namespace Staging

/-- The attachments that count: no later record took the place of theirs. -/
def standing (g : Staging) : List Attachment := (g.attachments.filter (!g.isSuperseded ·)).eraseDups

/-- Drafts that lost their place under a record that is new itself or would have owned them. -/
def dropped (g : Staging) : List Ref :=
  (g.attachments.filter fun a => g.isSuperseded a && match a.holder with
    | .draft _ => true
    | .stored .. => a.handle.relation.link.isOwned).map (·.member)

/-- The foreign keys that the attachments set. -/
def bonds (g : Staging) (st : Store) (held : Graph) : List Bond :=
  g.standing.filterMap fun a => a.bond? (held.members st a.handle a.holder)

/-- Records that lose their place under a singular relation, and the relation. -/
def displaced (g : Staging) (st : Store) (held : Graph) : List (Handle × Ref) :=
  g.standing.flatMap fun a =>
    if (held.members st a.handle a.holder).contains a.member then []
    else match a.displacing? with
      | some (h, holder, kept) =>
        ((held.members st h holder).filter (· != kept)).map fun ref => (h, ref)
      | none => []

/-- All records that go: those removed, those displaced from an owner, and what they own. -/
def removals (s : Schema) (g : Staging) (st : Store) (held : Graph) : List Ref :=
  s.withOwned st held (g.removed ++
    ((g.displaced st held).filter fun e => e.1.relation.link.isOwned).map (·.2))

/-- Foreign keys that are to be cleared. -/
def cleared (s : Schema) (g : Staging) (st : Store) (held : Graph) : List (Ref × String) :=
  (((g.displaced st held).filter fun e => !e.1.relation.link.isOwned).map fun e =>
    (e.2, e.1.relation.link.foreignKey)) ++
    (g.removals s st held).flatMap (s.borrowed st held)

end Staging

namespace Attachment

/-- The one of the two records that has to be written first. -/
def leader (a : Attachment) : Ref :=
  match a.handle.relation.link with
  | .parent _ => a.member
  | _ => a.holder

def follower (a : Attachment) : Ref :=
  match a.handle.relation.link with
  | .parent _ => a.holder
  | _ => a.member

/-- How many records have to be written before this one, one after another. -/
def rank (as : List Attachment) : Nat → Ref → Nat
  | 0, _ => 0
  | fuel + 1, ref =>
    ((as.filter fun a => a.follower == ref).map fun a => rank as fuel a.leader + 1).foldl max 0

end Attachment

/-- All that is to be written, with every link settled but for the ids of drafts. -/
structure Plan where
  drafts : List (Nat × Draft)
  edits : List Edit
  bonds : List Bond
  removals : List Ref
  attachments : List Attachment

namespace Staging

/-- Edits with the foreign keys that are cleared, and an edit for every stored record that gets a
foreign key. -/
def settledEdits (s : Schema) (g : Staging) (st : Store) (held : Graph) : List Edit :=
  let touched := (g.cleared s st held).map (fun (ref, fk) => (ref, [(fk, Value.null)])) ++
    (g.bonds st held).map (fun b => (b.record, []))
  (touched.foldl (fun g (ref, values) =>
    match s.modelOf? ref, ref with
    | some m, .stored _ id => g.edit m id values
    | _, _ => g) g).edits

def plan (s : Schema) (g : Staging) (st : Store) (held : Graph) : Plan :=
  let removals := g.removals s st held
  let dropped := g.dropped
  let numbered := g.drafts.zipIdx.map fun (d, n) => (n, d)
  { drafts := numbered.filter fun e => !dropped.contains (.draft e.1)
    edits := (g.settledEdits s st held).filter fun e =>
      !removals.contains (.stored e.model.name e.id)
    bonds := g.bonds st held
    removals := removals
    attachments := g.standing.filter fun a => a.handle.parent.name == a.handle.target.name }

end Staging

namespace Plan

def rank (p : Plan) (ref : Ref) : Nat := Attachment.rank p.attachments p.attachments.length ref

/-- How many rounds it takes to write the records of the plan. -/
def rounds (p : Plan) : Nat :=
  ((p.attachments.map fun a => p.rank a.follower).foldl max 0) + 1

def draftsAt (p : Plan) (m : Model) (level : Nat) : List (Nat × Draft) :=
  p.drafts.filter fun e => e.2.model.name == m.name && p.rank (.draft e.1) == level

def editsAt (p : Plan) (m : Model) (level : Nat) : List Edit :=
  let here := p.edits.filter fun e =>
    e.model.name == m.name && p.rank (.stored m.name e.id) == level
  here.mergeSort fun a b => a.id ≤ b.id

/-- The ids that new rows are given can be keys. -/
def checkIds (drafts : List (Nat × Draft)) : Except WriteError Unit :=
  let givenId (d : Draft) : Value := (Value.lookup? idColumn.name d.values).getD .null
  match drafts.findSome? fun e => unhashableType? (givenId e.2) with
  | some typeName => .error (.unhashableId typeName)
  | none => .ok ()

/-- Writes the records of a model that wait for equally many others. -/
def writeLevel (s : Schema) (now : Moment) (p : Plan) (m : Model) (w : Written) (level : Nat) :
    Except WriteError Written := do
  checkIds (p.draftsAt m level)
  let updates := (p.editsAt m level).filterMap fun e =>
    match (w.store.table m.table).find? e.id with
    | some row =>
      let values := Value.merge e.values (w.bondValues p.bonds (.stored m.name e.id))
      let changed := m.changedValues row values
      if changed.isEmpty then none else some (e.id, m.updateValues now changed)
    | none => none
  let adds := (p.draftsAt m level).map fun (n, d) =>
    let values := Value.merge d.values (w.bondValues p.bonds (.draft n))
    (m.omitted values, n, m.initialValues now values)
  let w ← (updates.splitBy fun a b => a.2.map (·.1.name) == b.2.map (·.1.name)).foldlM
    (Written.update s m) w
  (adds.splitBy fun a b => a.1 == b.1).foldlM (fun w group => w.add m (group.map (·.2))) w

def writeModel (s : Schema) (now : Moment) (p : Plan) (w : Written) (m : Model) :
    Except WriteError Written :=
  (List.range p.rounds).foldlM (p.writeLevel s now m) w

def write (s : Schema) (now : Moment) (p : Plan) (st : Store) : Except WriteError Written := do
  let w ← s.models.foldlM (p.writeModel s now) ⟨st, []⟩
  p.removals.reverse.foldlM (Written.remove s) w

end Plan

/-- The store with all staged changes written. -/
def Staging.flush (s : Schema) (now : Moment) (g : Staging) (st : Store) (held : Graph) :
    Except WriteError Written :=
  (g.plan s st held).write s now st

end Records
