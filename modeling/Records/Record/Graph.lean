import Records.Schema.Resolve
import Records.Store.Table

/-!
Records with the relations that are loaded between them. A graph holds each record once; relations
are references, so records may lead back to each other.
-/
namespace Records

/-- A record of a store by its model's name and id, or one not yet stored by a number. -/
inductive Ref
  | stored (model : String) (id : Int)
  | draft (number : Nat)
deriving DecidableEq

/-- The records a loaded relation holds. -/
inductive Related
  | many (refs : List Ref)
  | one (ref : Option Ref)
deriving DecidableEq

def Related.refs : Related → List Ref
  | many refs => refs
  | one ref => ref.toList

/-- Several records, or the first of them. -/
def Related.ofRefs (isMany : Bool) (refs : List Ref) : Related :=
  if isMany then many refs else one refs.head?

theorem Related.mem_of_mem_ofRefs {isMany : Bool} {refs : List Ref} {ref : Ref}
    (h : ref ∈ (ofRefs isMany refs).refs) : ref ∈ refs := by
  cases isMany with
  | true => exact h
  | false => exact List.mem_of_head? (Option.mem_toList.1 h)

structure Node where
  model : Model
  /-- Columns and their values; a column that is missing reads as null. -/
  values : List (String × Value)
  /-- Columns that were not loaded, or never set. -/
  deferred : List String
  related : List (String × Related) := []
  /-- What the relations that are not loaded hold in a store. -/
  within : List (String × Related) := []
deriving DecidableEq

namespace Node

def value (n : Node) (column : String) : Value := (Value.lookup? column n.values).getD .null

def related? (n : Node) (relation : String) : Option Related :=
  (n.related.find? (·.1 == relation)).map (·.2)

def within? (n : Node) (relation : String) : Option Related :=
  (n.within.find? (·.1 == relation)).map (·.2)

def putRelated (name : String) (r : Related) : List (String × Related) → List (String × Related)
  | [] => [(name, r)]
  | (k, old) :: rest => if k = name then (name, r) :: rest else (k, old) :: putRelated name r rest

def setRelated (n : Node) (name : String) (r : Related) : Node :=
  { n with related := putRelated name r n.related }

theorem related?_setRelated (n : Node) (name : String) (r : Related) (other : String) :
    (n.setRelated name r).related? other = if other = name then some r else n.related? other := by
  unfold setRelated related?
  dsimp only
  induction n.related with
  | nil =>
    by_cases h : other = name
    · simp [putRelated, h]
    · simp [putRelated, h, Ne.symm h]
  | cons e rest ih =>
    obtain ⟨k, old⟩ := e
    by_cases hk : k = name
    · subst hk
      by_cases h : other = k
      · simp [putRelated, h]
      · simp [putRelated, h, Ne.symm h]
    · by_cases ho : k = other
      · subst ho
        simp [putRelated, hk]
      · simpa [putRelated, hk, ho] using ih

/-- The node of a row, all of its columns loaded but the deferred ones. -/
def ofRow (m : Model) (deferred : List String) (r : Row) : Node :=
  { model := m, values := m.columns.map fun c => (c.name, r.value c), deferred := deferred }

end Node

structure Graph where
  nodes : List (Ref × Node)
deriving DecidableEq

namespace Graph

def empty : Graph := ⟨[]⟩

def node? (g : Graph) (ref : Ref) : Option Node := (g.nodes.find? (·.1 == ref)).map (·.2)

def refs (g : Graph) : List Ref := g.nodes.map (·.1)

theorem node?_eq_none {g : Graph} {ref : Ref} : g.node? ref = none ↔ ref ∉ g.refs := by
  unfold node? refs
  rw [Option.map_eq_none_iff, List.find?_eq_none, List.mem_map]
  constructor
  · rintro h ⟨e, he, rfl⟩
    exact h e he (beq_self_eq_true _)
  · intro h e he hkey
    exact h ⟨e, he, eq_of_beq hkey⟩

def contains (g : Graph) (ref : Ref) : Bool := g.refs.contains ref

def add (g : Graph) (ref : Ref) (n : Node) : Graph := ⟨g.nodes ++ [(ref, n)]⟩

def modify (g : Graph) (ref : Ref) (f : Node → Node) : Graph :=
  ⟨g.nodes.map fun (r, n) => (r, if r = ref then f n else n)⟩

/-- A relation of a record, if it is loaded. -/
def related? (g : Graph) (ref : Ref) (relation : String) : Option Related :=
  (g.node? ref).bind (·.related? relation)

def setRelated (g : Graph) (ref : Ref) (relation : String) (r : Related) : Graph :=
  g.modify ref (·.setRelated relation r)

/-- The relation with a record taken out, where it is loaded. -/
def detach (g : Graph) (ref : Ref) (relation : String) (child : Ref) : Graph :=
  match g.related? ref relation with
  | some (.many refs) => g.setRelated ref relation (.many (refs.filter (· != child)))
  | some (.one (some r)) => if r = child then g.setRelated ref relation (.one none) else g
  | _ => g

/-- The relation with a record put in: at the end of a list, or in place of the one there. -/
def place (g : Graph) (ref : Ref) (r : Relation) (child : Ref) : Graph :=
  if r.link.isMany then
    let refs := ((g.related? ref r.name).map Related.refs).getD []
    if refs.contains child then g.setRelated ref r.name (.many refs)
    else g.setRelated ref r.name (.many (refs ++ [child]))
  else g.setRelated ref r.name (.one (some child))

/-- The record that a singular relation holds, if it is loaded and holds one. -/
def single? (g : Graph) (ref : Ref) (relation : String) : Option Ref :=
  match g.related? ref relation with
  | some (.one r) => r
  | _ => none

/-- Puts a record under a relation of another and keeps the relation back in step: the child leaves
its former parent, and a singular parent lets go of its former child. -/
def attach (g : Graph) (h : Handle) (parent child : Ref) : Graph :=
  let name := h.relation.name
  match h.inverse? with
  | none => g.place parent h.relation child
  | some back =>
    let g := match h.relation.link with
      | .many .. => match g.single? child back.name with
        | some former => if former = parent then g else g.detach former name child
        | none => g
      | _ => match g.single? parent name with
        | some former => if former = child then g else g.detach former back.name parent
        | none => g
    (g.place parent h.relation child).place child back parent

end Graph

end Records
