import Records.Schema.Resolve
import Records.Store.Match
import Records.Store.Table

/-!
Conditions on the rows of a table, and the rows for which they hold. A condition that meets a null
does not hold.
-/
namespace Records.Filter

/-- A column of a table. -/
structure Field where
  table : String
  column : Column
deriving DecidableEq

inductive Comparison
  | eq
  | ne
  | le
  | ge
deriving DecidableEq

inductive Predicate
  | compare (f : Field) (op : Comparison) (v : Value)
  | like (f : Field) (pattern : String)
  | between (f : Field) (low high : Value)
  | among (f : Field) (vs : List Value)
  | isNull (f : Field)
  | all (ps : List Predicate)
  | any (ps : List Predicate)
  /-- Some record that the relation leads to satisfies the condition. -/
  | related (h : Handle) (p : Predicate)

def Comparison.accepts : Comparison → Ordering → Bool
  | .eq, o => o == .eq
  | .ne, o => o != .eq
  | .le, o => o != .gt
  | .ge, o => o != .lt

/-- The parameter of a comparison. Equality with a boolean compares with the constant one or
zero. -/
def comparisonParameter (f : Field) : Value → Parameter
  | .bool b => ⟨.raw, .bool b⟩
  | v => ⟨Codec.ofValue f.column.kind v, v⟩

/-- The parameters of a membership. A list that holds a null binds each item by its own type;
otherwise the first item tells the type of all. -/
def membershipParameters (f : Field) (vs : List Value) : List Parameter :=
  let codec (v : Value) : Codec :=
    if vs.contains .null then Codec.ofValue f.column.kind v
    else Codec.ofValue f.column.kind (vs.headD .null)
  vs.map fun v => ⟨codec v, v⟩

/-- The cell a parameter is bound as, as a column compares it. -/
def comparedCell (f : Field) (p : Parameter) : Cell :=
  (p.cell.toOption.getD .null).compared f.column.kind.affinity

/-- The rows a relation leads to. -/
def relatedRows (s : Store) (h : Handle) (r : Row) : List Row :=
  let link := h.relation.link
  match link with
  | .parent fk => (s.rows h.target).filter fun t => Cell.equals (r.cell fk) (.integer t.id)
  | _ => (s.rows h.target).filter fun t => Cell.equals (.integer r.id) (t.cell link.foreignKey)

namespace Predicate

mutual

/-- The parameters of a condition in the order of its text. -/
def parameters : Predicate → List Parameter
  | compare f _ v => [comparisonParameter f v]
  | like _ pattern => [⟨.raw, .text pattern⟩]
  | between f low high =>
    [⟨Codec.ofValue f.column.kind low, low⟩, ⟨Codec.ofValue f.column.kind high, high⟩]
  | among f vs => membershipParameters f vs
  | isNull _ => []
  | all ps => allParameters ps
  | any ps => allParameters ps
  | related _ p => parameters p

def allParameters : List Predicate → List Parameter
  | [] => []
  | p :: ps => parameters p ++ allParameters ps

end

def compareHolds (f : Field) (op : Comparison) (p : Parameter) (r : Row) : Bool :=
  match Cell.compare? (r.cell f.column.name) (comparedCell f p) with
  | some o => op.accepts o
  | none => false

mutual

/-- Whether a condition holds for a row. -/
def holds (s : Store) (r : Row) : Predicate → Bool
  | compare f op v => compareHolds f op (comparisonParameter f v) r
  | like f pattern => ((r.cell f.column.name).asText?.map (Match.likes pattern)).getD false
  | between f low high =>
    compareHolds f .ge ⟨Codec.ofValue f.column.kind low, low⟩ r &&
      compareHolds f .le ⟨Codec.ofValue f.column.kind high, high⟩ r
  | among f vs => (membershipParameters f vs).any fun p => compareHolds f .eq p r
  | isNull f => r.cell f.column.name == .null
  | all ps => allHold s r ps
  | any ps => anyHolds s r ps
  | related h p => (relatedRows s h r).any fun t => holds s t p

def allHold (s : Store) (r : Row) : List Predicate → Bool
  | [] => true
  | p :: ps => holds s r p && allHold s r ps

def anyHolds (s : Store) (r : Row) : List Predicate → Bool
  | [] => false
  | p :: ps => holds s r p || anyHolds s r ps

end

theorem allHold_eq_all (s : Store) (r : Row) (ps : List Predicate) :
    allHold s r ps = ps.all (holds s r) := by
  induction ps with
  | nil => rfl
  | cons p ps ih => simp only [allHold, List.all_cons, ih]

theorem allHold_append (s : Store) (r : Row) (ps qs : List Predicate) :
    allHold s r (ps ++ qs) = (allHold s r ps && allHold s r qs) := by
  simp only [allHold_eq_all, List.all_append]

theorem anyHolds_eq_any (s : Store) (r : Row) (ps : List Predicate) :
    anyHolds s r ps = ps.any (holds s r) := by
  induction ps with
  | nil => rfl
  | cons p ps ih => simp only [anyHolds, List.any_cons, ih]

theorem allParameters_eq_flatMap (ps : List Predicate) :
    allParameters ps = ps.flatMap parameters := by
  induction ps with
  | nil => rfl
  | cons p ps ih => simp only [allParameters, List.flatMap_cons, ih]

/-- The members of a conjunction, or the condition itself. -/
def conjuncts : Predicate → List Predicate
  | all ps => ps
  | p => [p]

def disjuncts : Predicate → List Predicate
  | any ps => ps
  | p => [p]

/-- A group of one is that one. -/
def group (make : List Predicate → Predicate) : List Predicate → Predicate
  | [p] => p
  | ps => make ps

mutual

/-- The same condition with nested groups of one kind joined and groups of one opened. -/
def flat : Predicate → Predicate
  | all ps => group all ((flats ps).flatMap conjuncts)
  | any ps => group any ((flats ps).flatMap disjuncts)
  | related h p => related h (flat p)
  | p => p

def flats : List Predicate → List Predicate
  | [] => []
  | p :: ps => flat p :: flats ps

end

/-- The conjunction of several conditions, none of none. -/
def conjunction? : List Predicate → Option Predicate
  | [] => none
  | ps => some (group all ps)

end Predicate

end Records.Filter
