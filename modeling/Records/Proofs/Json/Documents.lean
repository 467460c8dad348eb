import Records.Json.Reader
import Records.Proofs.Json.Numerals
import Records.Proofs.Json.Texts

/-!
What is written as a document is read back. The characters of a value are the tokens of its shape,
and a reader that meets these tokens has the value when it has met the last. No character is past
plain text, so a document stands on one line.
-/
namespace Records

namespace Value

mutual

/-- Whether a value is one that documents hold: no octets, no dates, no tuples, and no key twice. -/
def isDocument : Value → Bool
  | bytes _ => false
  | date _ => false
  | moment _ => false
  | tuple _ => false
  | list xs => areDocuments xs
  | object es => decide (es.map (·.1)).Nodup && haveDocuments es
  | _ => true

def areDocuments : List Value → Bool
  | [] => true
  | x :: xs => isDocument x && areDocuments xs

def haveDocuments : List (String × Value) → Bool
  | [] => true
  | (_, x) :: es => isDocument x && haveDocuments es

end

mutual

/-- Whether a value is within the limits of a reader, inside a number of collections. -/
def fits (limits : Json.Limits) (depth : Nat) : Value → Bool
  | int n => limits.allowDigits (Nat.toDigits 10 n.natAbs).length
  | list xs => limits.allowInside depth && allFit limits (depth + 1) xs
  | object es => limits.allowInside depth && entriesFit limits (depth + 1) es
  | _ => true

def allFit (limits : Json.Limits) (depth : Nat) : List Value → Bool
  | [] => true
  | x :: xs => fits limits depth x && allFit limits depth xs

def entriesFit (limits : Json.Limits) (depth : Nat) : List (String × Value) → Bool
  | [] => true
  | (_, x) :: es => fits limits depth x && entriesFit limits depth es

end

mutual

theorem fits_unbounded (depth : Nat) (v : Value) : v.fits .unbounded depth = true := by
  match v with
  | list xs => rw [fits, allFit_unbounded (depth + 1) xs]; rfl
  | object es => rw [fits, entriesFit_unbounded (depth + 1) es]; rfl
  | int n => rfl
  | null | bool _ | float _ | text _ | bytes _ | date _ | moment _ | tuple _ => rfl
termination_by structural v

theorem allFit_unbounded (depth : Nat) (xs : List Value) : allFit .unbounded depth xs = true := by
  match xs with
  | [] => rfl
  | x :: xs => rw [allFit, fits_unbounded depth x, allFit_unbounded depth xs]; rfl
termination_by structural xs

theorem entriesFit_unbounded (depth : Nat) (es : List (String × Value)) :
    entriesFit .unbounded depth es = true := by
  match es with
  | [] => rfl
  | (_, x) :: es => rw [entriesFit, fits_unbounded depth x, entriesFit_unbounded depth es]; rfl
termination_by structural es

end

theorem put_of_not_mem {key : String} {v : Value} {es : List (String × Value)}
    (h : key ∉ es.map (·.1)) : put key v es = es ++ [(key, v)] := by
  induction es with
  | nil => rfl
  | cons e es ih =>
    simp only [List.map_cons, List.mem_cons, not_or] at h
    rw [put, if_neg (Ne.symm h.1), ih h.2]
    rfl

end Value

namespace Json

mutual

/-- The tokens of a value. -/
def valueTokens : Value → List Token
  | .text s => [.text s]
  | .list [] => [.openList, .closeList]
  | .list (x :: xs) => .openList :: (valueTokens x ++ (laterItemTokens xs ++ [.closeList]))
  | .object [] => [.openObject, .closeObject]
  | .object ((k, x) :: es) =>
    .openObject :: .text k :: .colon ::
      (valueTokens x ++ (laterEntryTokens es ++ [.closeObject]))
  | v => [.scalar v]

/-- The tokens of the items after the first. -/
def laterItemTokens : List Value → List Token
  | [] => []
  | x :: xs => .comma :: (valueTokens x ++ laterItemTokens xs)

def laterEntryTokens : List (String × Value) → List Token
  | [] => []
  | (k, x) :: es => .comma :: .text k :: .colon :: (valueTokens x ++ laterEntryTokens es)

end

section Written
variable (limits : Limits)

theorem separated_cons (piece : List Char) (pieces : List (List Char)) :
    separated (piece :: pieces) = piece ++ pieces.flatMap fun p => ',' :: ' ' :: p := by
  induction pieces generalizing piece with
  | nil => exact (List.append_nil piece).symm
  | cons next pieces ih =>
    rw [separated, ih, List.flatMap_cons]
    · rfl
    · exact List.cons_ne_nil _ _

theorem endsNumber_cons {c : Char} (hc : c = ',' ∨ c = ']' ∨ c = '\x7d') (rest : List Char) :
    EndsNumber (c :: rest) := by
  rintro _ ⟨⟩
  obtain rfl | rfl | rfl := hc <;> decide

/-- Before the pieces that follow the first, and before what is behind them. -/
theorem endsNumber_later (pieces : List (List Char)) {rest : List Char} (hrest : EndsNumber rest) :
    EndsNumber (pieces.flatMap (fun p => ',' :: ' ' :: p) ++ rest) := by
  cases pieces with
  | nil => exact hrest
  | cons p pieces => exact endsNumber_cons (.inl rfl) _

theorem tokens_space (cs : List Char) : tokens limits (' ' :: cs) = tokens limits cs := by
  rw [tokens]
  exact if_pos rfl

/-- A mark is a token of one character. -/
theorem tokens_mark (c : Char) (t : Token) (hspace : isSpace c = false)
    (hread : ∀ cs, readToken limits c cs = (t, cs)) (ht : t ≠ .bad) (cs : List Char) :
    tokens limits (c :: cs) = t :: tokens limits cs :=
  tokens_cons limits hspace (hread cs) ht

theorem tokens_comma (cs : List Char) :
    tokens limits (',' :: ' ' :: cs) = .comma :: tokens limits cs := by
  rw [tokens_mark limits ',' .comma rfl (fun _ => rfl) (by decide), tokens_space]

theorem tokens_colon (cs : List Char) :
    tokens limits (':' :: ' ' :: cs) = .colon :: tokens limits cs := by
  rw [tokens_mark limits ':' .colon rfl (fun _ => rfl) (by decide), tokens_space]

theorem tokens_word {v : Value} {c : Char} {cs rest : List Char} (hspace : isSpace c = false)
    (hread : readToken limits c (cs ++ rest) = (.scalar v, rest)) :
    tokens limits (c :: cs ++ rest) = .scalar v :: tokens limits rest :=
  tokens_cons limits hspace hread (fun h => nomatch h)

theorem tokens_text (s : String) (rest : List Char) :
    tokens limits (textChars s ++ rest) = .text s :: tokens limits rest := by
  have hchars : textChars s ++ rest = '"' :: (s.toList.flatMap escapeChar ++ '"' :: rest) := by
    simp [textChars]
  rw [hchars]
  exact tokens_cons limits rfl (readToken_text limits s rest) (fun h => nomatch h)

-- The characters of a value are read as its tokens, and what is behind them is left.
mutual

theorem tokens_chars (v : Value) (hv : v.isDocument = true) {depth : Nat}
    (hfits : v.fits limits depth = true) {rest : List Char} (hrest : EndsNumber rest) :
    tokens limits (chars v ++ rest) = valueTokens v ++ tokens limits rest := by
  match v with
  | .null => exact tokens_word limits rfl rfl
  | .bool true => exact tokens_word limits rfl rfl
  | .bool false => exact tokens_word limits rfl rfl
  | .int n => exact tokens_int limits n hfits hrest
  | .float x => exact tokens_float limits x hrest
  | .text s => exact tokens_text limits s rest
  | .bytes _ | .date _ | .moment _ | .tuple _ => exact Bool.noConfusion hv
  | .list xs =>
    have hclose := tokens_mark limits ']' .closeList rfl (fun _ => rfl) (by decide) rest
    have hopen := tokens_mark limits '[' .openList rfl (fun _ => rfl) (by decide)
    match xs with
    | [] => exact (hopen _).trans (congrArg _ hclose)
    | x :: xs =>
      rw [Value.isDocument, Value.areDocuments, Bool.and_eq_true] at hv
      rw [Value.fits, Value.allFit, Bool.and_eq_true, Bool.and_eq_true] at hfits
      have hend := endsNumber_cons (.inr (.inl rfl) : ']' = ',' ∨ _) rest
      have hchars : chars (.list (x :: xs)) ++ rest = '[' :: (chars x ++
          ((itemChars xs).flatMap (fun p => ',' :: ' ' :: p) ++ ']' :: rest)) := by
        simp [chars, itemChars, separated_cons]
      rw [hchars, hopen, tokens_chars x hv.1 hfits.2.1 (endsNumber_later _ hend),
        tokens_laterItems xs hv.2 hfits.2.2 hend, hclose, valueTokens]
      simp
  | .object es =>
    have hclose := tokens_mark limits '\x7d' .closeObject rfl (fun _ => rfl) (by decide) rest
    have hopen := tokens_mark limits '\x7b' .openObject rfl (fun _ => rfl) (by decide)
    match es with
    | [] => exact (hopen _).trans (congrArg _ hclose)
    | (k, x) :: es =>
      rw [Value.isDocument, Value.haveDocuments, Bool.and_eq_true, Bool.and_eq_true] at hv
      rw [Value.fits, Value.entriesFit, Bool.and_eq_true, Bool.and_eq_true] at hfits
      have hend := endsNumber_cons (.inr (.inr rfl) : '\x7d' = ',' ∨ _) rest
      have hchars : chars (.object ((k, x) :: es)) ++ rest = '\x7b' :: (textChars k ++ ':' :: ' ' ::
          (chars x ++ ((entryChars es).flatMap (fun p => ',' :: ' ' :: p) ++ '\x7d' :: rest))) := by
        simp [chars, entryChars, separated_cons]
      rw [hchars, hopen, tokens_text, tokens_colon,
        tokens_chars x hv.2.1 hfits.2.1 (endsNumber_later _ hend),
        tokens_laterEntries es hv.2.2 hfits.2.2 hend, hclose, valueTokens]
      simp
termination_by structural v

theorem tokens_laterItems (xs : List Value) (hxs : Value.areDocuments xs = true) {depth : Nat}
    (hfits : Value.allFit limits depth xs = true) {rest : List Char} (hrest : EndsNumber rest) :
    tokens limits ((itemChars xs).flatMap (fun p => ',' :: ' ' :: p) ++ rest) =
      laterItemTokens xs ++ tokens limits rest := by
  match xs with
  | [] => rfl
  | x :: xs =>
    rw [Value.areDocuments, Bool.and_eq_true] at hxs
    rw [Value.allFit, Bool.and_eq_true] at hfits
    have hlater := endsNumber_later (itemChars xs) hrest
    rw [itemChars, List.flatMap_cons, List.append_assoc, List.cons_append, List.cons_append,
      tokens_comma, tokens_chars x hxs.1 hfits.1 hlater, tokens_laterItems xs hxs.2 hfits.2 hrest,
      laterItemTokens, List.cons_append, List.append_assoc]
termination_by structural xs

theorem tokens_laterEntries (es : List (String × Value)) (hes : Value.haveDocuments es = true)
    {depth : Nat} (hfits : Value.entriesFit limits depth es = true) {rest : List Char}
    (hrest : EndsNumber rest) :
    tokens limits ((entryChars es).flatMap (fun p => ',' :: ' ' :: p) ++ rest) =
      laterEntryTokens es ++ tokens limits rest := by
  match es with
  | [] => rfl
  | (k, x) :: es =>
    rw [Value.haveDocuments, Bool.and_eq_true] at hes
    rw [Value.entriesFit, Bool.and_eq_true] at hfits
    have hlater := endsNumber_later (entryChars es) hrest
    rw [entryChars, List.flatMap_cons, List.append_assoc, List.cons_append, List.cons_append,
      tokens_comma, List.append_assoc, tokens_text, List.cons_append, List.cons_append,
      tokens_colon, tokens_chars x hes.1 hfits.1 hlater,
      tokens_laterEntries es hes.2 hfits.2 hrest, laterEntryTokens]
    simp only [List.cons_append, List.append_assoc]
termination_by structural es

end

end Written

section Read
variable (limits : Limits) {stack : List Frame}

/-- A token that no value begins with apart, a list's first item is met as any value is. -/
theorem run_firstItem (v : Value) (ts : List Token) (stack : List Frame) :
    run limits .firstItem stack (valueTokens v ++ ts) =
      run limits .value stack (valueTokens v ++ ts) := by
  have hbegin : ∃ t later, valueTokens v = t :: later ∧ t ≠ .closeList := by
    match v with
    | .null | .bool _ | .int _ | .float _ | .bytes _ | .date _ | .moment _ | .tuple _ =>
      exact ⟨_, _, rfl, fun h => nomatch h⟩
    | .text s => exact ⟨_, _, rfl, fun h => nomatch h⟩
    | .list [] | .list (x :: xs) => exact ⟨_, _, rfl, fun h => nomatch h⟩
    | .object [] | .object ((k, x) :: es) => exact ⟨_, _, rfl, fun h => nomatch h⟩
  obtain ⟨t, later, htokens, ht⟩ := hbegin
  have hstep : step limits .firstItem stack t = step limits .value stack t := by
    cases t <;> first | exact absurd rfl ht | (cases stack with
      | nil => rfl
      | cons frame stack => cases frame <;> rfl)
  rw [htokens, List.cons_append, run, run, hstep]

-- A reader that meets the tokens of a value has the value, wherever it stands.
mutual

theorem run_valueTokens (v : Value) (hv : v.isDocument = true) (stack : List Frame)
    (hfits : v.fits limits stack.length = true) (ts : List Token) :
    run limits .value stack (valueTokens v ++ ts) =
      run limits (complete v stack).1 (complete v stack).2 ts := by
  match v with
  | .null | .bool _ | .int _ | .float _ | .text _ => rfl
  | .bytes _ | .date _ | .moment _ | .tuple _ => exact Bool.noConfusion hv
  | .list xs =>
    rw [Value.isDocument] at hv
    rw [Value.fits, Bool.and_eq_true] at hfits
    have hopen (later : List Token) : run limits .value stack (.openList :: later) =
        run limits .firstItem (.list [] :: stack) later := by
      have hstep : step limits .value stack .openList = .ok (.firstItem, .list [] :: stack) :=
        if_pos hfits.1
      rw [run, hstep]
      rfl
    match xs with
    | [] =>
      exact hopen _
    | x :: xs =>
      rw [Value.areDocuments, Bool.and_eq_true] at hv
      rw [Value.allFit, Bool.and_eq_true] at hfits
      rw [valueTokens, List.cons_append, List.append_assoc, hopen, run_firstItem,
        run_valueTokens x hv.1 (.list [] :: stack) hfits.2.1, List.append_assoc]
      exact run_laterItems xs hv.2 stack hfits.2.2 [x] ts
  | .object es =>
    rw [Value.isDocument, Bool.and_eq_true] at hv
    rw [Value.fits, Bool.and_eq_true] at hfits
    have hopen (later : List Token) : run limits .value stack (.openObject :: later) =
        run limits .firstKey stack later := by
      have hstep : step limits .value stack .openObject = .ok (.firstKey, stack) := if_pos hfits.1
      rw [run, hstep]
      rfl
    match es with
    | [] => exact hopen _
    | (k, x) :: es =>
      rw [Value.haveDocuments, Bool.and_eq_true] at hv
      rw [Value.entriesFit, Bool.and_eq_true] at hfits
      have hkey (later : List Token) : run limits .firstKey stack (.text k :: .colon :: later) =
          run limits .value (.object [] k :: stack) later := rfl
      have hnodup : (([(k, x)] : List (String × Value)) ++ es |>.map (·.1)).Nodup :=
        of_decide_eq_true hv.1
      rw [valueTokens, List.cons_append, List.cons_append, List.cons_append, List.append_assoc,
        hopen, hkey, run_valueTokens x hv.2.1 (.object [] k :: stack) hfits.2.1, List.append_assoc]
      exact run_laterEntries es hv.2.2 stack hfits.2.2 [(k, x)] hnodup k ts
termination_by structural v

theorem run_laterItems (xs : List Value) (hxs : Value.areDocuments xs = true)
    (stack : List Frame) (hfits : Value.allFit limits (stack.length + 1) xs = true)
    (items : List Value) (ts : List Token) :
    run limits .separator (.list items :: stack) (laterItemTokens xs ++ ([.closeList] ++ ts)) =
      run limits (complete (.list (items.reverse ++ xs)) stack).1
        (complete (.list (items.reverse ++ xs)) stack).2 ts := by
  match xs with
  | [] =>
    rw [List.append_nil]
    rfl
  | x :: xs =>
    rw [Value.areDocuments, Bool.and_eq_true] at hxs
    rw [Value.allFit, Bool.and_eq_true] at hfits
    have hcomma (later : List Token) :
        run limits .separator (.list items :: stack) (.comma :: later) =
          run limits .value (.list items :: stack) later := rfl
    have hlater := run_laterItems xs hxs.2 stack hfits.2 (x :: items) ts
    rw [List.reverse_cons, List.append_assoc] at hlater
    rw [laterItemTokens, List.cons_append, List.append_assoc, hcomma,
      run_valueTokens x hxs.1 (.list items :: stack) hfits.1]
    exact hlater
termination_by structural xs

theorem run_laterEntries (es : List (String × Value)) (hes : Value.haveDocuments es = true)
    (stack : List Frame) (hfits : Value.entriesFit limits (stack.length + 1) es = true)
    (entries : List (String × Value)) (hnodup : ((entries ++ es).map (·.1)).Nodup) (key : String)
    (ts : List Token) :
    run limits .separator (.object entries key :: stack)
        (laterEntryTokens es ++ ([.closeObject] ++ ts)) =
      run limits (complete (.object (entries ++ es)) stack).1
        (complete (.object (entries ++ es)) stack).2 ts := by
  match es with
  | [] =>
    rw [List.append_nil]
    rfl
  | (k, x) :: es =>
    rw [Value.haveDocuments, Bool.and_eq_true] at hes
    rw [Value.entriesFit, Bool.and_eq_true] at hfits
    have hcomma (later : List Token) :
        run limits .separator (.object entries key :: stack)
            (.comma :: .text k :: .colon :: later) =
          run limits .value (.object entries k :: stack) later := rfl
    have hnew : k ∉ entries.map (·.1) := by
      rw [List.map_append, List.nodup_append] at hnodup
      intro hmem
      exact hnodup.2.2 k hmem k (List.mem_cons_self ..) rfl
    have hplace := Value.put_of_not_mem (v := x) hnew
    rw [List.append_cons] at hnodup
    have hlater := run_laterEntries es hes.2 stack hfits.2 (entries ++ [(k, x)]) hnodup k ts
    rw [List.append_assoc] at hlater
    rw [laterEntryTokens, List.cons_append, List.cons_append, List.cons_append, List.append_assoc,
      hcomma, run_valueTokens x hes.1 (.object entries k :: stack) hfits.1]
    change run limits .separator (.object (Value.put k x entries) k :: stack) _ = _
    rw [hplace]
    exact hlater
termination_by structural es

end

/-- What is written as a document is read back, within the limits of the reader. -/
theorem readWithin_write {v : Value} (hv : v.isDocument = true) (hfits : v.fits limits 0 = true) :
    readWithin limits (write v) = .ok v := by
  have hends : EndsNumber [] := fun c hc => nomatch hc
  have htokens := tokens_chars limits v hv hfits hends
  have hempty : tokens limits [] = [] := by rw [tokens]
  rw [List.append_nil, hempty] at htokens
  unfold readWithin write
  rw [String.toList_ofList, htokens, run_valueTokens limits v hv [] hfits]
  rfl

end Read

end Json

end Records
