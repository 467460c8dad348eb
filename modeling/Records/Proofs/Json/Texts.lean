import Records.Json.Token
import Records.Json.Writer

/-!
Texts are read back from a document. A character is escaped in the sixteen-bit units that it has,
and two units that belong together are joined again.
-/
namespace Records.Json

open Records.Text (charsOfUnits charOrReplacement hexDigit hexDigits hexValue?)

/-- The sixteen-bit units of a character. -/
def unitsOf (c : Char) : List Nat :=
  if c.toNat < 0x10000 then [c.toNat]
  else [0xD800 + (c.toNat - 0x10000) / 1024, 0xDC00 + (c.toNat - 0x10000) % 1024]

section Units

theorem charOrReplacement_toNat (c : Char) : charOrReplacement c.toNat = c := by
  have hvalid : c.toNat.isValidChar := c.valid
  unfold charOrReplacement
  rw [if_pos hvalid, Char.ofNat_toNat]

/-- No character is a surrogate. -/
theorem toNat_not_surrogate (c : Char) : c.toNat < 0xD800 ∨ 0xDFFF < c.toNat := by
  have hvalid : c.toNat.isValidChar := c.valid
  unfold Nat.isValidChar at hvalid
  omega

theorem toNat_lt (c : Char) : c.toNat < 0x110000 := by
  have hvalid : c.toNat.isValidChar := c.valid
  unfold Nat.isValidChar at hvalid
  omega

theorem charsOfUnits_unitsOf (c : Char) (us : List Nat) :
    charsOfUnits (unitsOf c ++ us) = c :: charsOfUnits us := by
  have hlone := toNat_not_surrogate c
  unfold unitsOf
  split
  case isTrue =>
    rw [List.singleton_append]
    cases us with
    | nil => exact congrArg (· :: []) (charOrReplacement_toNat c)
    | cons n us => rw [charsOfUnits, if_neg (by omega), charOrReplacement_toNat]
  case isFalse hlarge =>
    have hlt := toNat_lt c
    have hjoined : 0x10000 + (0xD800 + (c.toNat - 0x10000) / 1024 - 0xD800) * 1024 +
        (0xDC00 + (c.toNat - 0x10000) % 1024 - 0xDC00) = c.toNat := by omega
    rw [List.cons_append, List.singleton_append, charsOfUnits, if_pos (by omega), hjoined,
      charOrReplacement_toNat]

theorem charsOfUnits_flatMap (cs : List Char) : charsOfUnits (cs.flatMap unitsOf) = cs := by
  induction cs with
  | nil => rfl
  | cons c cs ih => rw [List.flatMap_cons, charsOfUnits_unitsOf, ih]

end Units

section Escapes
variable {cs : List Char}

theorem hexValue?_hexDigit (n : Nat) : hexValue? (hexDigit n) = some (n % 16) := by
  have hdigits : ∀ k < 16, hexValue? (Nat.digitChar k) = some k := by decide
  exact hdigits (n % 16) (Nat.mod_lt n (by decide))

theorem hex4?_hexDigits {n : Nat} (hn : n < 0x10000) :
    hex4? (hexDigit (n / 16 / 16 / 16)) (hexDigit (n / 16 / 16)) (hexDigit (n / 16))
      (hexDigit n) = some n := by
  have hvalue : ((n / 16 / 16 / 16 % 16) * 16 + n / 16 / 16 % 16) * 256 + n / 16 % 16 * 16 +
      n % 16 = n := by omega
  unfold hex4?
  simp only [hexValue?_hexDigit]
  exact congrArg some hvalue

theorem readUnits_escapeUnit {n : Nat} (hn : n < 0x10000) (cs : List Char) :
    readUnits (escapeUnit n ++ cs) = (readUnits cs).map fun x => (n :: x.1, x.2) := by
  have hchars : escapeUnit n ++ cs = '\\' :: 'u' :: hexDigit (n / 16 / 16 / 16) ::
      hexDigit (n / 16 / 16) :: hexDigit (n / 16) :: hexDigit n :: cs := rfl
  rw [hchars, readUnits, hex4?_hexDigits hn]
  cases readUnits cs <;> rfl

theorem readUnits_short {c : Char} {n : Nat} (hu : c ≠ 'u') (hc : shortEscape? c = some n)
    (cs : List Char) :
    readUnits ('\\' :: c :: cs) = (readUnits cs).map fun x => (n :: x.1, x.2) := by
  rw [readUnits, hc]
  · cases readUnits cs <;> rfl
  · intro a b d e rest hcu
    exact absurd hcu hu

theorem readUnits_plain {c : Char} (hquote : c ≠ '"') (hslash : c ≠ '\\') (hc : 0x20 ≤ c.toNat)
    (cs : List Char) :
    readUnits (c :: cs) = (readUnits cs).map fun x => (c.toNat :: x.1, x.2) := by
  rw [readUnits, if_neg (by simp [hslash, hc])]
  · cases readUnits cs <;> rfl
  · exact hquote
  · intro a b d e rest h
    exact absurd h hslash
  · intro d rest h
    exact absurd h hslash

theorem unitsOf_of_lt {c : Char} (hc : c.toNat < 0x10000) : unitsOf c = [c.toNat] := if_pos hc

theorem unitsOf_lt (c : Char) : ∀ n ∈ unitsOf c, n < 0x10000 := by
  have hlt := toNat_lt c
  unfold unitsOf
  split
  · simpa
  · simp only [List.forall_mem_cons]
    exact ⟨by omega, by omega, fun n hn => nomatch hn⟩

theorem readUnits_escapeUnits {us : List Nat} (hus : ∀ n ∈ us, n < 0x10000) (cs : List Char) :
    readUnits (us.flatMap escapeUnit ++ cs) = (readUnits cs).map fun x => (us ++ x.1, x.2) := by
  induction us with
  | nil => exact Option.map_id'.symm
  | cons n us ih =>
    obtain ⟨hn, hus⟩ := List.forall_mem_cons.1 hus
    rw [List.flatMap_cons, List.append_assoc, readUnits_escapeUnit hn, ih hus, Option.map_map]
    rfl

/-- A character stands for itself, for a letter behind a backslash, or for its units. -/
theorem escapeChar_cases (c : Char) :
    (escapeChar c = [c] ∧ c ≠ '"' ∧ c ≠ '\\' ∧ ' ' ≤ c ∧ c ≤ '~') ∨
      (∃ d, escapeChar c = ['\\', d] ∧ d ≠ 'u' ∧ shortEscape? d = some c.toNat) ∨
        escapeChar c = (unitsOf c).flatMap escapeUnit := by
  unfold escapeChar
  by_cases hquote : c = '"'
  · subst hquote
    exact .inr (.inl ⟨_, rfl, by decide, rfl⟩)
  by_cases hslash : c = '\\'
  · subst hslash
    exact .inr (.inl ⟨_, rfl, by decide, rfl⟩)
  rw [if_neg hquote, if_neg hslash]
  -- The letters of the controls that have one.
  split
  case isTrue h => subst h; exact .inr (.inl ⟨_, rfl, by decide, rfl⟩)
  split
  case isTrue h => subst h; exact .inr (.inl ⟨_, rfl, by decide, rfl⟩)
  split
  case isTrue h => subst h; exact .inr (.inl ⟨_, rfl, by decide, rfl⟩)
  split
  case isTrue h => subst h; exact .inr (.inl ⟨_, rfl, by decide, rfl⟩)
  split
  case isTrue h => subst h; exact .inr (.inl ⟨_, rfl, by decide, rfl⟩)
  split
  case isTrue h => exact .inl ⟨rfl, hquote, hslash, h⟩
  refine .inr (.inr ?_)
  unfold unitsOf
  split
  · exact (List.append_nil _).symm
  · simp

theorem shortEscape?_lt {d : Char} {n : Nat} (h : shortEscape? d = some n) :
    ' ' ≤ d ∧ d ≤ '~' ∧ n < 0x80 := by
  unfold shortEscape? at h
  split at h
  case isTrue hself =>
    obtain rfl | rfl | rfl := hself <;> cases h <;> decide
  repeat
    split at h
    case isTrue hletter => subst hletter; cases h; decide
  cases h

/-- A character is read back from its escape. -/
theorem readUnits_escapeChar (c : Char) (cs : List Char) :
    readUnits (escapeChar c ++ cs) = (readUnits cs).map fun x => (unitsOf c ++ x.1, x.2) := by
  obtain ⟨hplain, hquote, hslash, hlow, hhigh⟩ | ⟨d, hshort, hu, hd⟩ | hunits := escapeChar_cases c
  · have hspace : 0x20 ≤ c.toNat := hlow
    have htilde : c.toNat ≤ 0x7e := hhigh
    rw [hplain, unitsOf_of_lt (by omega)]
    exact readUnits_plain hquote hslash hspace cs
  · obtain ⟨-, -, hlt⟩ := shortEscape?_lt hd
    rw [hshort, unitsOf_of_lt (by omega)]
    exact readUnits_short hu hd cs
  · rw [hunits]
    exact readUnits_escapeUnits (unitsOf_lt c) cs

theorem readUnits_escaped (text rest : List Char) :
    readUnits (text.flatMap escapeChar ++ '"' :: rest) = some (text.flatMap unitsOf, rest) := by
  induction text with
  | nil => rfl
  | cons c text ih =>
    rw [List.flatMap_cons, List.append_assoc, readUnits_escapeChar, ih]
    rfl

/-- A text is read back from its escapes. -/
theorem readToken_text (limits : Limits) (s : String) (rest : List Char) :
    readToken limits '"' (s.toList.flatMap escapeChar ++ '"' :: rest) = (.text s, rest) := by
  have hjoined : String.ofList (charsOfUnits (s.toList.flatMap unitsOf)) = s := by
    rw [charsOfUnits_flatMap, String.ofList_toList]
  unfold readToken
  rw [readUnits_escaped]
  exact congrArg (fun s => (Token.text s, rest)) hjoined

end Escapes

end Records.Json
