import Records.Json.Token

/-!
Reading a JSON text. One pass over the tokens with the enclosing collections on a stack; a key that
occurs again replaces the value and keeps its first place.
-/
namespace Records.Json

inductive ReadError
  | malformed
  /-- The collections nest deeper than a reader follows; the innermost is an object or a list. -/
  | tooDeep (object : Bool)
deriving DecidableEq

def ReadError.message : ReadError → String
  | .malformed => "malformed document"
  | .tooDeep object =>
    "maximum recursion depth exceeded while decoding a JSON " ++
      (if object then "object" else "array") ++ " from a unicode string"

/-- How deep collections may nest. -/
def maxDepth : Nat := 990

/-- The limits of the interpreter. -/
def Limits.standard : Limits := ⟨some Number.maxIntegerDigits, some maxDepth⟩

/-- An enclosing collection: the items so far, last first, or the entries and the key whose value
is being read. -/
inductive Frame
  | list (items : List Value)
  | object (entries : List (String × Value)) (key : String)

inductive Expecting
  | value
  /-- Just inside a list: an item or the end. -/
  | firstItem
  /-- Just inside an object: a key or the end. -/
  | firstKey
  | nextKey (entries : List (String × Value))
  | colon (entries : List (String × Value)) (key : String)
  /-- After a value inside a collection. -/
  | separator
  | finished (v : Value)

/-- Where a complete value leads. -/
def complete (v : Value) : List Frame → Expecting × List Frame
  | [] => (.finished v, [])
  | .list items :: stack => (.separator, .list (v :: items) :: stack)
  | .object entries key :: stack => (.separator, .object (Value.put key v entries) key :: stack)

/-- The start of a value. -/
def begin (limits : Limits) (stack : List Frame) : Token → Except ReadError (Expecting × List Frame)
  | .scalar v => .ok (complete v stack)
  | .text s => .ok (complete (.text s) stack)
  | .openList =>
    if limits.allowInside stack.length then .ok (.firstItem, .list [] :: stack)
    else .error (.tooDeep false)
  | .openObject =>
    if limits.allowInside stack.length then .ok (.firstKey, stack) else .error (.tooDeep true)
  | _ => .error .malformed

def step (limits : Limits) (expecting : Expecting) (stack : List Frame) (t : Token) :
    Except ReadError (Expecting × List Frame) :=
  match expecting, stack, t with
  | .firstItem, .list items :: stack, .closeList => .ok (complete (.list items.reverse) stack)
  | .firstItem, stack, t => begin limits stack t
  | .value, stack, t => begin limits stack t
  | .firstKey, stack, .closeObject => .ok (complete (.object []) stack)
  | .firstKey, stack, .text key => .ok (.colon [] key, stack)
  | .nextKey entries, stack, .text key => .ok (.colon entries key, stack)
  | .colon entries key, stack, .colon => .ok (.value, .object entries key :: stack)
  | .separator, .list items :: stack, .closeList => .ok (complete (.list items.reverse) stack)
  | .separator, .list items :: stack, .comma => .ok (.value, .list items :: stack)
  | .separator, .object entries _ :: stack, .closeObject =>
    .ok (complete (.object entries) stack)
  | .separator, .object entries _ :: stack, .comma => .ok (.nextKey entries, stack)
  | _, _, _ => .error .malformed

def run (limits : Limits) (expecting : Expecting) (stack : List Frame) :
    List Token → Except ReadError Value
  | [] =>
    match expecting with
    | .finished v => .ok v
    | _ => .error .malformed
  | t :: ts => do
    let (expecting, stack) ← step limits expecting stack t
    run limits expecting stack ts

/-- The value a text is, within limits. -/
def readWithin (limits : Limits) (s : String) : Except ReadError Value :=
  run limits .value [] (tokens limits s.toList)

def read (s : String) : Except ReadError Value := readWithin .standard s

/-- The value a run of octets is, in the encoding it shows. -/
def readBytes (bytes : List UInt8) : Except ReadError Value :=
  match Text.decodeDocument? bytes with
  | some s => read s
  | none => .error .malformed

end Records.Json
