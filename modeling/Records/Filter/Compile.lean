import Records.Filter.Coercion
import Records.Filter.Operator
import Records.Filter.Predicate
import Records.Value.Presence

/-!
Compiling a filter into conditions on a model. Entries whose values are absent, whose columns or
relations are unknown, or whose texts cannot be read contribute nothing; each entry that does
contributes one condition.
-/
namespace Records.Filter

inductive CompileError
  /-- Booleans have no order to compare by. -/
  | orderedBoolean
  /-- A collection beside a null in a membership. -/
  | unhashable (typeName : String)
deriving DecidableEq

def CompileError.message : CompileError → String
  | .orderedBoolean =>
    "Only '=', '!=', 'is_()', 'is_not()', 'is_distinct_from()', 'is_not_distinct_from()' " ++
      "operators can be used with None/True/False"
  | .unhashable typeName => "unhashable type: '" ++ typeName ++ "'"

/-- The conditions an entry contributes. -/
abbrev Compiled := Reported CompileError (List Predicate)

/-- The columns a range may bound. -/
def timestampFields : List String := ["created_at", "updated_at", "deleted_at"]

/-- The column a field names, none with a warning when it names none. -/
def fieldColumn {ε : Type} (m : Model) (field : Value) : Reported ε (Option Column) :=
  let found := match field with
    | .text name => m.column? name
    | _ => none
  match found with
  | some c => pure (some c)
  | none => do
    Reported.entry ⟨.warning, .filters, "Unknown filter column skipped",
      [("model", .text m.name), ("field", field)]⟩
    return none

/-- The relation a name stands for, none with a warning when it stands for none. -/
def fieldRelation {ε : Type} (s : Schema) (m : Model) (name : Value) : Reported ε (Option Handle) :=
  match s.resolveValue? m name with
  | some h => pure (some h)
  | none => do
    Reported.entry ⟨.warning, .filters, "Unknown filter relation skipped",
      [("model", .text m.name), ("relation", name)]⟩
    return none

def Comparison.isOrdered : Comparison → Bool
  | .le => true
  | .ge => true
  | _ => false

def isBoolean : Value → Bool
  | .bool _ => true
  | _ => false

mutual

/-- The type that keeps a value from being a key, if one does. -/
def unhashableType? : Value → Option String
  | .list _ => some "list"
  | .object _ => some "dict"
  | .tuple xs => firstUnhashable? xs
  | _ => none

def firstUnhashable? : List Value → Option String
  | [] => none
  | x :: xs => (unhashableType? x).or (firstUnhashable? xs)

end

def membershipPredicate (f : Field) (vs : List Value) : Compiled :=
  match (if vs.contains .null then firstUnhashable? vs else none) with
  | some typeName => .fail (.unhashable typeName)
  | none => pure [.among f vs]

/-- A field that is one of some values; an empty list is kept only where it was asked for. -/
def membership (m : Model) (field : Value) (vs : List Value) : Compiled := do
  match ← fieldColumn m field with
  | some c => membershipPredicate ⟨m.table, c⟩ vs
  | none => return []

/-- A column named without an operator and a collection: membership, unless nothing is listed. -/
def anyOf (m : Model) (field : Value) (vs : List Value) : Compiled :=
  if vs.isEmpty then pure [] else membership m field vs

def comparison (op : Comparison) (m : Model) (field v : Value) : Compiled := do
  if !v.isPresent then return []
  match ← fieldColumn m field with
  | none => return []
  | some c =>
    match ← coerce c v with
    | none => return []
    | some w =>
      if op.isOrdered && isBoolean w then .fail .orderedBoolean
      else return [.compare ⟨m.table, c⟩ op w]

/-- A field whose text holds a value somewhere. -/
def containing (m : Model) (field v : Value) : Compiled := do
  if !v.isPresent then return []
  match ← fieldColumn m field with
  | some c => return [.like ⟨m.table, c⟩ ("%" ++ v.display ++ "%")]
  | none => return []

def isTimestampField : Value → Bool
  | .text name => timestampFields.contains name
  | _ => false

/-- The two bounds of a range on a timestamp. -/
def bounds? (field v : Value) : Option (Value × Value) :=
  match isTimestampField field, v.items? with
  | true, some [low, high] => some (low, high)
  | _, _ => none

def range (m : Model) (field v : Value) : Compiled := do
  if !v.isPresent then return []
  match bounds? field v with
  | none =>
    Reported.entry ⟨.debug, .filters, "Range filter ignored",
      [("field", field), ("value", v.truncated)]⟩
    return []
  | some (low, high) =>
    if !(low.isPresent && high.isPresent) then return []
    match ← fieldColumn m field with
    | none => return []
    | some c =>
      let low ← coerce c low
      let high ← coerce c high
      match low, high with
      | some low, some high => return [.between ⟨m.table, c⟩ low high]
      | _, _ => return []

def within (m : Model) (field v : Value) : Compiled :=
  match v.items? with
  | some vs => membership m field vs
  | none => pure []

/-- One entry of an operator that does not nest. -/
def leaf (m : Model) (op : Operator) (field v : Value) : Compiled :=
  match op with
  | .equal => comparison .eq m field v
  | .notEqual => comparison .ne m field v
  | .less => comparison .le m field v
  | .greater => comparison .ge m field v
  | .like => containing m field v
  | .range => range m field v
  | .within => within m field v
  | .or => pure []
  | .relation => pure []

/-- The alternatives of a group as one condition, none when there are none. -/
def alternatives (ps : List Predicate) : List Predicate :=
  if ps.isEmpty then [] else [Predicate.group .any ps]

/-- Which operator and field a pair inside an alternative names, in either order. -/
def branchTarget (outer key : Value) : Option (Operator × Value) :=
  match Operator.ofValue? outer with
  | some op => some (op, key)
  | none => (Operator.ofValue? key).map fun op => (op, outer)

/-- Live related rows that satisfy the conditions; no condition when there are none. -/
def relatedPredicate (h : Handle) (ps : List Predicate) : List Predicate :=
  if ps.isEmpty then []
  else
    let live := if h.target.softDeletes then [Predicate.isNull ⟨h.target.table, deletedAt⟩] else []
    [.related h (Predicate.group .all (ps ++ live))]

/-- The conditions on the records of a named relation, once the name is resolved. An empty payload
names nothing. -/
def throughRelation (s : Schema) (m : Model) (name : Value) (isEmpty : Bool)
    (conditions : Handle → Compiled) : Compiled := do
  if isEmpty then return []
  match ← fieldRelation s m name with
  | some h => conditions h
  | none => return []

/-- The entries of an operator that does not nest. -/
def leafEntries (m : Model) (op : Operator) : List (String × Value) → Compiled
  | [] => pure []
  | (field, v) :: es => do return (← leaf m op (.text field) v) ++ (← leafEntries m op es)

mutual

/-- One entry of a filter: an operator and its payload, or a column and the values it may have. -/
def compile (s : Schema) (m : Model) (key : Value) : Value → Compiled
  | .object es =>
    match Operator.ofValue? key with
    | none => anyOf m key (es.map (·.2))
    | some .or => do return alternatives (← groupEntries s m es)
    | some .relation => relationEntries s m es
    | some op => leafEntries m op es
  | .list xs =>
    match Operator.ofValue? key with
    | none => anyOf m key xs
    | some _ => pure []
  | .tuple xs =>
    match Operator.ofValue? key with
    | none => anyOf m key xs
    | some _ => pure []
  | v => containing m key v
termination_by structural v => v

/-- One entry of an operator, with a field that need not be a text. -/
def entry (s : Schema) (m : Model) (op : Operator) (field : Value) : Value → Compiled
  | .object es =>
    match op with
    | .or => do return alternatives (← branchEntries s m field es)
    | .relation => throughRelation s m field es.isEmpty fun h => scopedEntries s h es
    | op => leaf m op field (.object es)
  | .list xs =>
    match op with
    | .or => do return alternatives (← branchItems s m field 0 xs)
    | op => leaf m op field (.list xs)
  | .tuple xs =>
    match op with
    | .or => do return alternatives (← branchItems s m field 0 xs)
    | op => leaf m op field (.tuple xs)
  | v => leaf m op field v
termination_by structural v => v

/-- The alternatives of every entry of a group. -/
def groupEntries (s : Schema) (m : Model) : List (String × Value) → Compiled
  | [] => pure []
  | (outer, inner) :: es => do
    let here ← match inner with
      | .object pairs => branchEntries s m (.text outer) pairs
      | .list xs => branchItems s m (.text outer) 0 xs
      | .tuple xs => branchItems s m (.text outer) 0 xs
      | _ => pure []
    return here ++ (← groupEntries s m es)
termination_by structural es => es

/-- The alternatives under one key of a group, from the pairs of an object. -/
def branchEntries (s : Schema) (m : Model) (outer : Value) : List (String × Value) → Compiled
  | [] => pure []
  | (key, v) :: es => do
    let here ←
      if v.isPresent then
        match branchTarget outer (.text key) with
        | some (op, field) => entry s m op field v
        | none => anyOf m outer [v]
      else pure []
    return (Predicate.conjunction? here).toList ++ (← branchEntries s m outer es)
termination_by structural es => es

/-- The alternatives under one key of a group, from the items of a list, which are keyed by their
place. -/
def branchItems (s : Schema) (m : Model) (outer : Value) (place : Nat) : List Value → Compiled
  | [] => pure []
  | v :: vs => do
    let here ←
      if v.isPresent then
        match branchTarget outer (.int place) with
        | some (op, field) => entry s m op field v
        | none => anyOf m outer [v]
      else pure []
    return (Predicate.conjunction? here).toList ++ (← branchItems s m outer (place + 1) vs)
termination_by structural vs => vs

def relationEntries (s : Schema) (m : Model) : List (String × Value) → Compiled
  | [] => pure []
  | (name, v) :: es => do
    let here ← match v with
      | .object inner =>
        throughRelation s m (.text name) inner.isEmpty fun h => scopedEntries s h inner
      | _ => pure []
    return here ++ (← relationEntries s m es)
termination_by structural es => es

/-- Each entry on related records asks for a record of its own. -/
def scopedEntries (s : Schema) (h : Handle) : List (String × Value) → Compiled
  | [] => pure []
  | (key, v) :: es => do
    let here ←
      if v.isPresent && v.hasLeaf then compile s h.target (.text key) v else pure []
    return relatedPredicate h here ++ (← scopedEntries s h es)
termination_by structural es => es

end

/-- The conditions of a whole filter. -/
def compileAll (s : Schema) (m : Model) : List (String × Value) → Compiled
  | [] => pure []
  | (key, v) :: es => do return (← compile s m (.text key) v) ++ (← compileAll s m es)

end Records.Filter
