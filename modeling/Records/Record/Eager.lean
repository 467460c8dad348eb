import Records.Log
import Records.Query
import Records.Record.Graph

/-!
Loading relations along with records. A path names a relation of a record, then one of the records
found there, and so on; a path that does not resolve is left out with a warning. Trashed records are
not loaded through a relation.
-/
namespace Records

/-- The paths to follow: each once, and none that another path passes through. -/
def leadingPaths (paths : List String) : List String :=
  let paths := paths.eraseDups
  paths.filter fun p => !paths.any fun q => (p ++ ".").toList.isPrefixOf q.toList

/-- The names between the dots of a path. -/
def segments (path : String) : List String := (path.toList.splitOn '.').map String.ofList

/-- The relations along the segments of a path, or the model at which a segment leads nowhere. -/
def Schema.chain (s : Schema) (m : Model) : List String → Except Model (List Handle)
  | [] => .ok []
  | name :: names =>
    match s.resolve? m name with
    | some h => (s.chain h.target names).map (h :: ·)
    | none => .error m

/-- The chains of relations of the paths that resolve. -/
def Schema.chains {ε : Type} (s : Schema) (m : Model) :
    List String → Reported ε (List (List Handle))
  | [] => pure []
  | path :: paths => do
    match s.chain m (segments path) with
    | .ok hs => return hs :: (← s.chains m paths)
    | .error last =>
      Reported.entry ⟨.warning, .repository, "Unknown eager relation skipped",
        [("model", .text last.name), ("relation", .text path)]⟩
      s.chains m paths

/-- The chains to load for some paths. -/
def Schema.eagerChains {ε : Type} (s : Schema) (m : Model) (paths : List String) :
    Reported ε (List (List Handle)) :=
  s.chains m (leadingPaths paths)

/-- The columns that are not loaded when only some are asked for. The id is always loaded, and all
are when none of the names is a column. -/
def Model.deferredColumns (m : Model) (names : List String) : List String :=
  if names.any m.hasColumn then
    m.columnNames.filter fun c => c != idColumn.name && !names.contains c
  else []

/-- The rows a relation leads to, in its order. -/
def memberRows (st : Store) (h : Handle) (r : Row) : List Row :=
  let rows := Filter.relatedRows st h r
  match h.relation.link with
  | .many _ orderedBy _ =>
    Query.sorted rows ((h.target.column? orderedBy).map fun c => (c, .ascending))
  | _ => rows

/-- The rows that a relation loads. -/
def loadedRows (st : Store) (h : Handle) (r : Row) : List Row :=
  (memberRows st h r).filter fun t => !h.target.softDeletes || t.cell deletedAt.name == .null

/-- The records that rows stand for, as a relation holds them. -/
def Handle.relatedOf (h : Handle) (rows : List Row) : Related :=
  .ofRefs h.relation.link.isMany (rows.map fun t => .stored h.target.name t.id)

/-- The record of a row, with nothing loaded but its columns. -/
def Node.ofStored (s : Schema) (st : Store) (m : Model) (deferred : List String) (r : Row) : Node :=
  { Node.ofRow m deferred r with
    within := (s.handles m).map fun h => (h.relation.name, h.relatedOf (memberRows st h r)) }

namespace Graph

/-- The graph with a row among its records. A record that is already there keeps what it holds, and
has all columns that either load brings. -/
def hold (s : Schema) (st : Store) (m : Model) (deferred : List String) (g : Graph) (r : Row) :
    Graph :=
  let ref := Ref.stored m.name r.id
  if g.contains ref then
    g.modify ref fun n => { n with deferred := n.deferred.filter deferred.contains }
  else g.add ref (Node.ofStored s st m deferred r)

/-- Loads a relation of a record, unless it is loaded. -/
def loadRelation (s : Schema) (st : Store) (h : Handle) (g : Graph) (ref : Ref) : Graph :=
  match ref, g.related? ref h.relation.name with
  | .stored _ id, none =>
    match (st.table h.parent.table).find? id with
    | some r =>
      let rows := loadedRows st h r
      (rows.foldl (hold s st h.target []) g).setRelated ref h.relation.name (h.relatedOf rows)
    | none => g
  | _, _ => g

/-- Loads the relations of a chain, each from the records the one before it leads to. -/
def loadChain (s : Schema) (st : Store) : List Handle → List Ref → Graph → Graph
  | [], _, g => g
  | h :: hs, refs, g =>
    let g := refs.foldl (loadRelation s st h) g
    let next := refs.flatMap fun ref => ((g.related? ref h.relation.name).map Related.refs).getD []
    loadChain s st hs next g

def loadChains (s : Schema) (st : Store) (chains : List (List Handle)) (refs : List Ref)
    (g : Graph) : Graph :=
  chains.foldl (fun g chain => loadChain s st chain refs g) g

end Graph

end Records
