/-!
Matching a text against a pattern in which `%` stands for any run of characters and `_` for any
single one. Letters of ASCII match in either case.
-/
namespace Records.Match

def sameLetter (a b : Char) : Bool :=
  a == b || (a.toNat < 0x80 && b.toNat < 0x80 && a.toLower == b.toLower)

/-- For each tail, whether some tail of it is marked. -/
def someLater : List Bool → List Bool
  | [] => []
  | b :: bs =>
    let later := someLater bs
    (b || later.headD false) :: later

/-- For each tail of the text, the text itself first, whether the pattern matches it. -/
def tailMatches : List Char → List Char → List Bool
  | [], text => List.replicate text.length false ++ [true]
  | p :: ps, text =>
    let later := tailMatches ps text
    if p = '%' then someLater later
    else
      List.zipWith (fun c matched => (p == '_' || sameLetter p c) && matched) text later.tail ++
        [false]

/-- What a matcher sees of a text: all before the first null character. -/
def visible (s : String) : List Char := s.toList.takeWhile (· != '\x00')

def likes (pattern text : String) : Bool :=
  (tailMatches (visible pattern) (visible text)).headD false

end Records.Match
