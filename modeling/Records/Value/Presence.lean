import Records.Value

/-!
Which values of a filter count. Nulls, empty texts and empty collections are absent; zero and false
are real values. A nested filter counts when some leaf of it does.
-/
namespace Records.Value

def isPresent : Value → Bool
  | null => false
  | text s => s != ""
  | list xs => !xs.isEmpty
  | tuple xs => !xs.isEmpty
  | object es => !es.isEmpty
  | _ => true

mutual

/-- Whether some leaf below a value is present. -/
def hasLeaf : Value → Bool
  | list xs => anyLeaf xs
  | tuple xs => anyLeaf xs
  | object es => anyLeafEntry es
  | v => isPresent v

def anyLeaf : List Value → Bool
  | [] => false
  | x :: xs => hasLeaf x || anyLeaf xs

def anyLeafEntry : List (String × Value) → Bool
  | [] => false
  | (_, x) :: es => hasLeaf x || anyLeafEntry es

end

theorem anyLeaf_eq_any (xs : List Value) : anyLeaf xs = xs.any hasLeaf := by
  induction xs with
  | nil => rfl
  | cons x xs ih => simp only [anyLeaf, List.any_cons, ih]

theorem anyLeafEntry_eq_any (es : List (String × Value)) :
    anyLeafEntry es = es.any fun e => hasLeaf e.2 := by
  induction es with
  | nil => rfl
  | cons e es ih => simp only [anyLeafEntry, List.any_cons, ih]

end Records.Value
