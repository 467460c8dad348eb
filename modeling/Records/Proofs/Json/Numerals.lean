import Records.Json.Token
import Records.Number.Written
import Records.Proofs.Calendar.ReadBack
import Records.Proofs.Number.Shortest

/-!
Numbers are read back from the text of a document: integers from their digits, and every other
number from the shortest decimal that is read as it, wherever the point and the exponent are put.
-/
namespace Records.Json

open Records.Number (Double Decimal Canonical Style zeros leftZeros ofDigits)
open Records.Text (asciiDigit?)
open Records.Calendar (toList_zeros padded_eq)

section Digits
variable {cs ds : List Char}

def AllDigits (cs : List Char) : Prop := ∀ c ∈ cs, c.isDigit = true

theorem AllDigits.append (hc : AllDigits cs) (hd : AllDigits ds) : AllDigits (cs ++ ds) :=
  List.forall_mem_append.2 ⟨hc, hd⟩

theorem allDigits_zeros (n : Nat) : AllDigits (List.replicate n '0') := by
  intro c hc
  rw [List.eq_of_mem_replicate hc]
  rfl

theorem allDigits_toDigits (n : Nat) : AllDigits (Nat.toDigits 10 n) :=
  fun _ hc => Nat.isDigit_of_mem_toDigits (by decide) (by decide) hc

theorem naturalOf_eq (h : AllDigits cs) : naturalOf cs = Nat.ofDigitChars 10 cs 0 := by
  have hvalues : cs.filterMap asciiDigit? = cs.map fun c => c.toNat - 48 := by
    induction cs with
    | nil => rfl
    | cons c cs ih =>
      obtain ⟨hc, hcs⟩ := List.forall_mem_cons.1 h
      have hvalue : asciiDigit? c = some (c.toNat - 48) := if_pos hc
      rw [List.filterMap_cons, hvalue, List.map_cons, ih hcs]
  unfold naturalOf ofDigits
  rw [hvalues, List.foldl_map, Nat.ofDigitChars_eq_foldl]
  rfl

theorem naturalOf_toDigits (n : Nat) : naturalOf (Nat.toDigits 10 n) = n := by
  rw [naturalOf_eq (allDigits_toDigits n), Nat.ofDigitChars_ten_toDigits]

/-- Zeros in front of a number count for nothing. -/
theorem naturalOf_zeros_append (n : Nat) (hd : AllDigits ds) :
    naturalOf (List.replicate n '0' ++ ds) = naturalOf ds := by
  rw [naturalOf_eq ((allDigits_zeros n).append hd), naturalOf_eq hd, Nat.ofDigitChars_append,
    Nat.ofDigitChars_replicate_zero, Nat.mul_zero]

theorem naturalOf_append_zeros (hd : AllDigits ds) (n : Nat) :
    naturalOf (ds ++ List.replicate n '0') = naturalOf ds * 10 ^ n := by
  rw [naturalOf_eq (hd.append (allDigits_zeros n)), naturalOf_eq hd, Nat.ofDigitChars_append,
    Nat.ofDigitChars_replicate_zero, Nat.mul_comm]

/-- The digits of a number that is not zero begin with no zero. -/
theorem exists_toDigits {n : Nat} (hn : 0 < n) :
    ∃ c cs, Nat.toDigits 10 n = c :: cs ∧ c ≠ '0' := by
  induction n using Nat.strongRecOn with
  | ind n ih =>
    by_cases hlt : n < 10
    · refine ⟨n.digitChar, [], Nat.toDigits_of_lt_base hlt, ?_⟩
      have hchars : ∀ k < 10, 0 < k → Nat.digitChar k ≠ '0' := by decide
      exact hchars n hlt hn
    · obtain ⟨c, cs, hdigits, hc⟩ := ih (n / 10) (by omega) (by omega)
      refine ⟨c, cs ++ [(n % 10).digitChar], ?_, hc⟩
      rw [Nat.toDigits_of_base_le (by decide) (by omega), hdigits, List.cons_append]

/-- Whether a run of digits may stop before some characters. -/
def StopsDigits (rest : List Char) : Prop := ∀ c ∈ rest.head?, c.isDigit = false

theorem stopsDigits_cons {c : Char} (hc : c.isDigit = false) (rest : List Char) :
    StopsDigits (c :: rest) := by
  rintro _ ⟨⟩
  exact hc

theorem takeWhile_digits (hd : AllDigits ds) {rest : List Char} (hrest : StopsDigits rest) :
    (ds ++ rest).takeWhile Char.isDigit = ds := by
  rw [List.takeWhile_append_of_pos hd]
  cases rest with
  | nil => exact List.append_nil ds
  | cons c rest => rw [List.takeWhile_cons_of_neg (by simp [hrest c rfl]), List.append_nil]

theorem dropWhile_digits (hd : AllDigits ds) {rest : List Char} (hrest : StopsDigits rest) :
    (ds ++ rest).dropWhile Char.isDigit = rest := by
  rw [List.dropWhile_append_of_pos hd]
  cases rest with
  | nil => rfl
  | cons c rest => exact List.dropWhile_cons_of_neg (by simp [hrest c rfl])

end Digits

/-- Whether a number may end before some characters. -/
def EndsNumber (rest : List Char) : Prop :=
  ∀ c ∈ rest.head?, c.isDigit = false ∧ c ≠ '.' ∧ c ≠ 'e' ∧ c ≠ 'E'

/-- A number as it is spelled: digits, a fraction behind a point, and an exponent. -/
structure Spelling where
  whole : List Char
  fraction : List Char
  exponent : Option (Bool × List Char)

namespace Spelling
variable (sp : Spelling)

def fractionChars : List Char := if sp.fraction.isEmpty then [] else '.' :: sp.fraction

def exponentChars : List Char :=
  match sp.exponent with
  | none => []
  | some (negative, ds) => 'e' :: (if negative then '-' else '+') :: ds

def chars : List Char := sp.whole ++ sp.fractionChars ++ sp.exponentChars

/-- A spelling that a document may hold. -/
structure Proper : Prop where
  whole : AllDigits sp.whole
  leading : sp.whole = ['0'] ∨ ∃ c cs, sp.whole = c :: cs ∧ c ≠ '0'
  fraction : AllDigits sp.fraction
  exponent : ∀ x ∈ sp.exponent, x.2 ≠ [] ∧ AllDigits x.2

/-- The decimal that is spelled. -/
def decimal : Decimal where
  digits := naturalOf (sp.whole ++ sp.fraction)
  power := (match sp.exponent with
    | some (true, ds) => -(naturalOf ds : Int)
    | some (false, ds) => naturalOf ds
    | none => 0) - (sp.fraction.length : Int)

variable {sp} {rest : List Char}

theorem stopsDigits_exponentChars (hrest : EndsNumber rest) :
    StopsDigits (sp.exponentChars ++ rest) := by
  unfold exponentChars
  split
  · exact fun c hc => (hrest c hc).1
  · exact stopsDigits_cons rfl _

theorem stopsDigits_fractionChars (hrest : EndsNumber rest) :
    StopsDigits (sp.fractionChars ++ (sp.exponentChars ++ rest)) := by
  unfold fractionChars
  split
  · exact stopsDigits_exponentChars hrest
  · exact stopsDigits_cons rfl _

theorem readWhole_chars (hsp : sp.Proper) (hrest : EndsNumber rest) :
    readWhole (sp.whole ++ (sp.fractionChars ++ (sp.exponentChars ++ rest))) =
      (sp.whole, sp.fractionChars ++ (sp.exponentChars ++ rest)) := by
  have hstops : StopsDigits (sp.fractionChars ++ (sp.exponentChars ++ rest)) :=
    stopsDigits_fractionChars hrest
  rcases hsp.leading with hzero | ⟨c, cs, hcons, hc⟩
  · rw [hzero]
    rfl
  · have hplain (after : List Char) :
        readWhole (c :: after) = ((c :: after).takeWhile Char.isDigit,
          (c :: after).dropWhile Char.isDigit) := by
      rw [readWhole.eq_def]
      split
      · next heq => exact absurd (List.cons.inj heq).1 hc
      · rfl
    have htake := takeWhile_digits hsp.whole hstops
    have hdrop := dropWhile_digits hsp.whole hstops
    rw [hcons, List.cons_append] at htake hdrop ⊢
    rw [hplain, htake, hdrop]

theorem readFraction_chars (hsp : sp.Proper) (hrest : EndsNumber rest) :
    readFraction (sp.fractionChars ++ (sp.exponentChars ++ rest)) =
      (sp.fraction, sp.exponentChars ++ rest) := by
  have hstops : StopsDigits (sp.exponentChars ++ rest) := stopsDigits_exponentChars hrest
  unfold fractionChars
  cases hfraction : sp.fraction with
  | nil =>
    rw [List.isEmpty_nil, if_pos rfl, List.nil_append]
    cases hafter : sp.exponentChars ++ rest with
    | nil => rfl
    | cons c after =>
      have hpoint : c ≠ '.' := by
        unfold exponentChars at hafter
        split at hafter
        · exact (hrest c (by rw [List.nil_append] at hafter; rw [hafter]; rfl)).2.1
        · rw [List.cons_append, List.cons.injEq] at hafter
          rw [← hafter.1]
          decide
      rw [readFraction.eq_def]
      split
      · next heq => exact absurd (List.cons.inj heq).1 hpoint
      · rfl
  | cons c cs =>
    have htake := takeWhile_digits hsp.fraction hstops
    have hdrop := dropWhile_digits hsp.fraction hstops
    rw [hfraction] at htake hdrop
    rw [List.isEmpty_cons, if_neg (by decide), List.cons_append, readFraction, htake, hdrop,
      List.isEmpty_cons, if_neg (by decide)]

theorem readExponent_chars (hsp : sp.Proper) (hrest : EndsNumber rest) :
    readExponent (sp.exponentChars ++ rest) = (sp.exponent, rest) := by
  unfold exponentChars
  cases hexponent : sp.exponent with
  | none =>
    rw [List.nil_append]
    cases rest with
    | nil => rfl
    | cons c after =>
      obtain ⟨-, -, he, hE⟩ := hrest c rfl
      exact if_neg (by simp [he, hE])
  | some x =>
    obtain ⟨negative, ds⟩ := x
    obtain ⟨hne, hds⟩ := hsp.exponent (negative, ds) (by rw [hexponent]; rfl)
    have hstops : StopsDigits rest := fun c hc => (hrest c hc).1
    have htake := takeWhile_digits hds hstops
    have hdrop := dropWhile_digits hds hstops
    cases negative with
    | true => simp [readExponent, htake, hdrop, hne]
    | false => simp [readExponent, htake, hdrop, hne]

/-- A spelling is read whole, with what is behind it left. -/
theorem readNumber_chars (limits : Limits) (negative : Bool) (hsp : sp.Proper)
    (hrest : EndsNumber rest) {v : Value}
    (hvalue : numberValue? limits negative sp.whole sp.fraction sp.exponent = some v) :
    readNumber limits negative (sp.chars ++ rest) = (.scalar v, rest) := by
  have hwhole : sp.whole ≠ [] := by
    rcases hsp.leading with h | ⟨c, cs, h, -⟩
    · simp [h]
    · simp [h]
  unfold chars readNumber
  rw [List.append_assoc, List.append_assoc, readWhole_chars hsp hrest]
  dsimp only
  rw [readFraction_chars hsp hrest]
  dsimp only
  rw [readExponent_chars hsp hrest]
  dsimp only
  rw [if_neg (by simpa using hwhole), hvalue]

/-- A spelling with a fraction or an exponent is the number its decimal is rounded to. -/
theorem numberValue?_of_pointed (limits : Limits) (negative : Bool)
    (hpointed : sp.fraction ≠ [] ∨ sp.exponent ≠ none) :
    numberValue? limits negative sp.whole sp.fraction sp.exponent =
      some (.float (Double.ofDecimal negative sp.decimal.digits sp.decimal.power)) := by
  unfold numberValue?
  rw [if_neg (by simp; tauto)]
  rfl

end Spelling

section Decimals
variable {ds : List Char}

/-- The spelling of a number below one: the zeros behind the point come first. -/
def belowOne (ds : List Char) (places : Nat) : Spelling where
  whole := ['0']
  fraction := List.replicate places '0' ++ ds
  exponent := none

/-- The spelling with the point behind a number of digits. -/
def pointed (ds : List Char) (width : Nat) : Spelling where
  whole := ds.take width ++ List.replicate (width - ds.length) '0'
  fraction := if (ds.drop width).isEmpty then ['0'] else ds.drop width
  exponent := none

/-- The spelling with the point behind the first digit and an exponent. -/
def scientific (ds : List Char) (k : Int) : Spelling where
  whole := ds.take 1
  fraction := ds.drop 1
  exponent := some (k < 0, List.replicate (2 - (Nat.toDigits 10 k.natAbs).length) '0' ++
    Nat.toDigits 10 k.natAbs)

theorem positionalText_below (hne : ds ≠ []) {k : Int} (hk : k < 0) :
    (Number.positionalText (String.ofList ds) k).toList = (belowOne ds (k.natAbs - 1)).chars := by
  unfold Number.positionalText
  rw [if_pos hk]
  simp [Spelling.chars, Spelling.fractionChars, Spelling.exponentChars, belowOne, hne,
    toList_zeros]

theorem positionalText_above {k : Int} (hk : ¬k < 0) :
    (Number.positionalText (String.ofList ds) k).toList = (pointed ds (k.toNat + 1)).chars := by
  have hcount : k.toNat + 1 - min (k.toNat + 1) ds.length = k.toNat + 1 - ds.length := by omega
  unfold Number.positionalText Number.takeText Number.dropText
  rw [if_neg hk]
  cases hrest : ds.drop (k.toNat + 1) <;>
    simp [Spelling.chars, Spelling.fractionChars, Spelling.exponentChars, pointed, hrest, hcount,
      toList_zeros, -List.drop_eq_nil_iff]

theorem exponentText_eq (k : Int) : (Number.exponentText k).toList =
    (if k < 0 then '-' else '+') ::
      (List.replicate (2 - (Nat.toDigits 10 k.natAbs).length) '0' ++ Nat.toDigits 10 k.natAbs) := by
  have hpadded : (Number.leftZeros 2 (toString k.natAbs)).toList = _ := padded_eq 2 k.natAbs
  unfold Number.exponentText
  rw [String.toList_append, hpadded]
  split <;> rfl

theorem scientificText_eq (k : Int) :
    (Number.scientificText false (String.ofList ds) k).toList = (scientific ds k).chars := by
  unfold Number.scientificText
  dsimp only
  rw [String.toList_append, exponentText_eq]
  unfold Number.takeText Number.dropText
  cases hrest : ds.drop 1 <;>
    simp [Spelling.chars, Spelling.fractionChars, Spelling.exponentChars, scientific, hrest,
      -List.drop_one]

variable {n : Nat} {k power : Int}

/-- What a spelling must be for the digits of a decimal to be read back from it. -/
structure Spells (sp : Spelling) (d : Decimal) : Prop where
  proper : sp.Proper
  pointed : sp.fraction ≠ [] ∨ sp.exponent ≠ none
  short : sp.decimal.digits < 10 ^ 18
  value : sp.decimal.value = d.value

theorem spells_belowOne (hshort : n < 10 ^ 18) {places : Nat}
    (hpower : power = -((places + (Nat.toDigits 10 n).length : Nat) : Int)) :
    Spells (belowOne (Nat.toDigits 10 n) places) ⟨n, power⟩ := by
  have hdigits := allDigits_toDigits n
  have hfraction := (allDigits_zeros places).append hdigits
  have hnatural : naturalOf (['0'] ++ (List.replicate places '0' ++ Nat.toDigits 10 n)) = n := by
    have hzero : ['0'] = List.replicate 1 '0' := rfl
    rw [hzero, naturalOf_zeros_append 1 hfraction, naturalOf_zeros_append places hdigits,
      naturalOf_toDigits]
  have hdecimal : (belowOne (Nat.toDigits 10 n) places).decimal = ⟨n, power⟩ := by
    unfold Spelling.decimal belowOne
    dsimp only
    rw [hnatural, hpower, List.length_append, List.length_replicate, Int.zero_sub]
  refine ⟨⟨allDigits_zeros 1, .inl rfl, hfraction, fun x hx => nomatch hx⟩, .inl ?_, ?_, ?_⟩
  · simp [belowOne]
  · rw [hdecimal]
    exact hshort
  · rw [hdecimal]

/-- The digits of a number fill the places up to the point, and zeros fill the rest. -/
theorem spells_pointed_whole (hn : 0 < n) {width : Nat} (hfew : width ≤ 16)
    (hfits : (Nat.toDigits 10 n).length ≤ width)
    (hpower : power = (width : Int) - (Nat.toDigits 10 n).length) :
    Spells (pointed (Nat.toDigits 10 n) width) ⟨n, power⟩ := by
  have hdigits := allDigits_toDigits n
  obtain ⟨c, cs, hcons, hc⟩ := exists_toDigits hn
  obtain ⟨extra, hextra⟩ := Nat.exists_eq_add_of_le hfits
  have hwhole : (pointed (Nat.toDigits 10 n) width).whole =
      Nat.toDigits 10 n ++ List.replicate extra '0' := by
    unfold pointed
    rw [List.take_of_length_le hfits, hextra, Nat.add_sub_cancel_left]
  have hfraction : (pointed (Nat.toDigits 10 n) width).fraction = ['0'] := by
    unfold pointed
    rw [List.drop_of_length_le hfits]
    rfl
  have hdecimal : (pointed (Nat.toDigits 10 n) width).decimal = ⟨n * 10 ^ (extra + 1), -1⟩ := by
    unfold Spelling.decimal
    rw [hwhole, hfraction, List.append_assoc, ← List.replicate_succ',
      naturalOf_append_zeros hdigits, naturalOf_toDigits]
    rfl
  refine ⟨⟨?_, .inr ⟨c, cs ++ List.replicate extra '0', ?_, hc⟩, ?_, fun x hx => nomatch hx⟩,
    .inl ?_, ?_, ?_⟩
  · rw [hwhole]
    exact hdigits.append (allDigits_zeros extra)
  · rw [hwhole, hcons, List.cons_append]
  · rw [hfraction]
    exact allDigits_zeros 1
  · rw [hfraction]
    exact List.cons_ne_nil _ _
  · rw [hdecimal]
    have hbound : n < 10 ^ (Nat.toDigits 10 n).length :=
      (Nat.length_toDigits_le_iff (by decide) Nat.length_toDigits_pos).1 (Nat.le_refl _)
    calc n * 10 ^ (extra + 1)
        < 10 ^ (Nat.toDigits 10 n).length * 10 ^ (extra + 1) :=
          Nat.mul_lt_mul_of_pos_right hbound (Nat.pow_pos (by decide))
      _ = 10 ^ (width + 1) := by rw [← Nat.pow_add, hextra, Nat.add_assoc]
      _ ≤ 10 ^ 18 := Nat.pow_le_pow_right (by decide) (by omega)
  · have hplaces : power = (extra : Int) := by omega
    rw [hdecimal, hplaces]
    unfold Decimal.value
    dsimp only
    rw [zpow_natCast, zpow_neg_one]
    push_cast
    ring

/-- Digits behind the point too. -/
theorem spells_pointed_split (hn : 0 < n) (hshort : n < 10 ^ 18) {width : Nat} (hwidth : 0 < width)
    (hsplit : width < (Nat.toDigits 10 n).length)
    (hpower : power = (width : Int) - (Nat.toDigits 10 n).length) :
    Spells (pointed (Nat.toDigits 10 n) width) ⟨n, power⟩ := by
  have hdigits := allDigits_toDigits n
  obtain ⟨c, cs, hcons, hc⟩ := exists_toDigits hn
  have hwhole : (pointed (Nat.toDigits 10 n) width).whole = (Nat.toDigits 10 n).take width := by
    unfold pointed
    rw [Nat.sub_eq_zero_of_le hsplit.le, List.replicate_zero, List.append_nil]
  have hrest : (Nat.toDigits 10 n).drop width ≠ [] := by
    rw [ne_eq, List.drop_eq_nil_iff]
    omega
  have hfraction : (pointed (Nat.toDigits 10 n) width).fraction = (Nat.toDigits 10 n).drop width :=
    if_neg (by simpa using hrest)
  have hdecimal : (pointed (Nat.toDigits 10 n) width).decimal = ⟨n, power⟩ := by
    unfold Spelling.decimal
    rw [hwhole, hfraction, List.take_append_drop, naturalOf_toDigits, List.length_drop, hpower]
    congr 1
    change 0 - (((Nat.toDigits 10 n).length - width : Nat) : Int) = _
    omega
  refine ⟨⟨?_, .inr ⟨c, cs.take (width - 1), ?_, hc⟩, ?_, fun x hx => nomatch hx⟩, .inl ?_, ?_, ?_⟩
  · rw [hwhole]
    exact fun c hc => hdigits c (List.mem_of_mem_take hc)
  · obtain ⟨w, rfl⟩ : ∃ w, width = w + 1 := ⟨width - 1, by omega⟩
    rw [hwhole, hcons, List.take_succ_cons, Nat.add_sub_cancel]
  · rw [hfraction]
    exact fun c hc => hdigits c (List.mem_of_mem_drop hc)
  · rw [hfraction]
    exact hrest
  · rw [hdecimal]
    exact hshort
  · rw [hdecimal]

theorem spells_scientific (hn : 0 < n) (hshort : n < 10 ^ 18)
    (hpower : power = k + 1 - (Nat.toDigits 10 n).length) :
    Spells (scientific (Nat.toDigits 10 n) k) ⟨n, power⟩ := by
  have hdigits := allDigits_toDigits n
  have hexponent := (allDigits_zeros (2 - (Nat.toDigits 10 k.natAbs).length)).append
    (allDigits_toDigits k.natAbs)
  obtain ⟨c, cs, hcons, hc⟩ := exists_toDigits hn
  have hsize : naturalOf (List.replicate (2 - (Nat.toDigits 10 k.natAbs).length) '0' ++
      Nat.toDigits 10 k.natAbs) = k.natAbs := by
    rw [naturalOf_zeros_append _ (allDigits_toDigits _), naturalOf_toDigits]
  have hlength : (Nat.toDigits 10 n).length = cs.length + 1 := by rw [hcons, List.length_cons]
  have hdecimal : (scientific (Nat.toDigits 10 n) k).decimal = ⟨n, power⟩ := by
    unfold Spelling.decimal scientific
    dsimp only
    rw [List.take_append_drop, naturalOf_toDigits, hcons, List.drop_one, List.tail_cons]
    congr 1
    by_cases hk : k < 0
    · simp only [hk, decide_true, hsize]
      omega
    · simp only [hk, decide_false, hsize]
      omega
  refine ⟨⟨?_, .inr ⟨c, [], ?_, hc⟩, ?_, ?_⟩, .inr ?_, ?_, ?_⟩
  · exact fun c hc => hdigits c (List.mem_of_mem_take hc)
  · exact congrArg (List.take 1) hcons
  · exact fun c hc => hdigits c (List.mem_of_mem_drop hc)
  · rintro x ⟨⟩
    exact ⟨by simp, hexponent⟩
  · exact Option.some_ne_none _
  · rw [hdecimal]
    exact hshort
  · rw [hdecimal]

/-- The text of a decimal spells it, wherever the point is put. -/
theorem exists_spelling {d : Decimal} (hpos : 0 < d.digits) (hshort : d.digits < 10 ^ 18) :
    ∃ sp, Spells sp d ∧ (d.text .document).toList = sp.chars := by
  obtain ⟨n, power⟩ := d
  dsimp only at hpos hshort
  have htext : toString n = String.ofList (Nat.toDigits 10 n) := Nat.toString_eq_ofList_toDigits
  have hlength : 0 < (Nat.toDigits 10 n).length := Nat.length_toDigits_pos
  unfold Decimal.text
  dsimp only
  rw [htext, String.length_ofList]
  generalize hk : power + ((Nat.toDigits 10 n).length : Int) - 1 = k
  split
  case isTrue hpositional =>
    obtain ⟨-, hhigh⟩ := hpositional
    have hhigh' : k ≤ 15 := hhigh
    by_cases hneg : k < 0
    · exact ⟨_, spells_belowOne hshort (by omega),
        positionalText_below Nat.toDigits_ne_nil hneg⟩
    · refine ⟨_, ?_, positionalText_above hneg⟩
      by_cases hfits : (Nat.toDigits 10 n).length ≤ k.toNat + 1
      · exact spells_pointed_whole hpos (by omega) hfits (by omega)
      · exact spells_pointed_split hpos hshort (Nat.succ_pos _) (by omega) (by omega)
  case isFalse =>
    exact ⟨_, spells_scientific hpos hshort (by omega), scientificText_eq k⟩

end Decimals

section Numbers
variable (limits : Limits) {rest : List Char}

/-- The characters of a number behind its sign, and whether it has one. -/
theorem exists_spelling_number {m : Nat} {e : Int} (h : Canonical m e) (s : Bool) :
    ∃ sp : Spelling, sp.Proper ∧
      (Double.finite s m e h).document.toList = (if s then '-' :: sp.chars else sp.chars) ∧
      numberValue? limits s sp.whole sp.fraction sp.exponent = some (.float (.finite s m e h)) := by
  have hsigned (text : String) :
      (Number.signed s text).toList = if s then '-' :: text.toList else text.toList := by
    cases s <;> simp [Number.signed]
  change ∃ sp : Spelling, sp.Proper ∧ (Number.signed s (if m = 0 then "0.0" else
    (Decimal.shortest m e).text .document)).toList = _ ∧ _
  rw [hsigned]
  by_cases hm : m = 0
  · subst hm
    obtain rfl : e = -1074 := h.2.2.2.resolve_left (by decide)
    refine ⟨⟨['0'], ['0'], none⟩, ⟨allDigits_zeros 1, .inl rfl, allDigits_zeros 1,
      fun x hx => nomatch hx⟩, ?_, ?_⟩
    · cases s <;> rfl
    · rfl
  · rw [if_neg hm]
    have hpos := Nat.pos_of_ne_zero hm
    obtain ⟨hdigits, hshort⟩ := Decimal.shortest_digits h hpos
    obtain ⟨sp, hspells, htext⟩ := exists_spelling hdigits hshort
    refine ⟨sp, hspells.proper, by rw [htext], ?_⟩
    rw [Spelling.numberValue?_of_pointed limits s hspells.pointed,
      Decimal.ofDecimal_of_value_eq h hpos hspells.short hspells.value]

theorem exists_spelling_int (n : Int)
    (hlimit : limits.allowDigits (Nat.toDigits 10 n.natAbs).length) :
    ∃ sp : Spelling, sp.Proper ∧
      (toString n).toList = (if n < 0 then '-' :: sp.chars else sp.chars) ∧
      numberValue? limits (n < 0) sp.whole sp.fraction sp.exponent = some (.int n) := by
  have hdigits := allDigits_toDigits n.natAbs
  refine ⟨⟨Nat.toDigits 10 n.natAbs, [], none⟩, ⟨hdigits, ?_, (fun c hc => nomatch hc),
    (fun x hx => nomatch hx)⟩, ?_, ?_⟩
  · by_cases hn : n.natAbs = 0
    · exact .inl (by rw [hn]; rfl)
    · exact .inr (exists_toDigits (Nat.pos_of_ne_zero hn))
  · have hchars : (⟨Nat.toDigits 10 n.natAbs, [], none⟩ : Spelling).chars =
        (toString n.natAbs).toList := by
      rw [Nat.toString_eq_ofList_toDigits, String.toList_ofList]
      simp [Spelling.chars, Spelling.fractionChars, Spelling.exponentChars]
    rw [hchars, Int.toString_eq_repr, Int.repr_eq_if]
    by_cases hn : n < 0
    · have habs : (-n).toNat = n.natAbs := by omega
      rw [if_neg (by omega), if_pos hn, habs, String.toList_append]
      rfl
    · have habs : n.toNat = n.natAbs := by omega
      rw [if_pos (by omega), if_neg hn, habs]
      rfl
  · have hvalue : (if decide (n < 0) = true then -(n.natAbs : Int) else n.natAbs) = n := by
      split
      case isTrue h =>
        have hn := of_decide_eq_true h
        omega
      case isFalse h =>
        have hn := of_decide_eq_false (Bool.eq_false_of_not_eq_true h)
        omega
    unfold numberValue?
    rw [if_pos ⟨rfl, rfl⟩, if_pos hlimit, naturalOf_toDigits, hvalue]

theorem isSpace_digit {c : Char} (hc : c.isDigit = true) : isSpace c = false := by
  simp only [isSpace, Bool.or_eq_false_iff, beq_eq_false_iff_ne]
  refine ⟨⟨⟨?_, ?_⟩, ?_⟩, ?_⟩ <;> rintro rfl <;> cases hc

theorem readToken_digit {c : Char} (hc : c.isDigit = true) (cs : List Char) :
    readToken limits c cs = readNumber limits false (c :: cs) := by
  unfold readToken
  split
  all_goals first
    | exact absurd hc (by decide)
    | exact if_pos hc

theorem Spelling.Proper.exists_digit {sp : Spelling} (hsp : sp.Proper) :
    ∃ c cs, sp.chars = c :: cs ∧ c.isDigit = true := by
  have hwhole : ∃ c cs, sp.whole = c :: cs := by
    rcases hsp.leading with h | ⟨c, cs, h, -⟩
    · exact ⟨_, _, h⟩
    · exact ⟨_, _, h⟩
  obtain ⟨c, cs, hcons⟩ := hwhole
  refine ⟨c, cs ++ sp.fractionChars ++ sp.exponentChars, ?_, ?_⟩
  · rw [Spelling.chars, hcons]
    rfl
  · exact hsp.whole c (by rw [hcons]; exact List.mem_cons_self ..)

/-- What a token is read from ends where the token does. -/
theorem tokens_cons {c : Char} {cs : List Char} {t : Token} (hspace : isSpace c = false)
    (hread : readToken limits c cs = (t, rest)) (ht : t ≠ .bad) :
    tokens limits (c :: cs) = t :: tokens limits rest := by
  rw [tokens, if_neg (by rw [hspace]; decide)]
  split
  case h_1 heq =>
    rw [hread] at heq
    exact absurd (congrArg Prod.fst heq) ht
  case h_2 heq =>
    rw [hread] at heq
    obtain ⟨rfl, rfl⟩ := Prod.mk.inj heq
    rfl

/-- A number that is spelled is one token. -/
theorem tokens_spelled {s : Bool} {sp : Spelling} (hsp : sp.Proper) {v : Value}
    (hvalue : numberValue? limits s sp.whole sp.fraction sp.exponent = some v)
    (hrest : EndsNumber rest) :
    tokens limits ((if s then '-' :: sp.chars else sp.chars) ++ rest) =
      .scalar v :: tokens limits rest := by
  have hread := Spelling.readNumber_chars limits s hsp hrest hvalue
  obtain ⟨c, cs, hchars, hc⟩ := hsp.exists_digit
  have hscalar : Token.scalar v ≠ .bad := fun h => nomatch h
  cases s with
  | false =>
    rw [if_neg (by decide)]
    rw [hchars] at hread ⊢
    exact tokens_cons limits (isSpace_digit hc) ((readToken_digit limits hc _).trans hread) hscalar
  | true =>
    rw [if_pos rfl]
    rw [hchars] at hread ⊢
    refine tokens_cons limits rfl (Eq.trans (if_neg ?_) hread) hscalar
    rintro ⟨⟩
    cases hc

end Numbers

theorem tokens_int (limits : Limits) (n : Int)
    (hlimit : limits.allowDigits (Nat.toDigits 10 n.natAbs).length) {rest : List Char}
    (hrest : EndsNumber rest) :
    tokens limits ((toString n).toList ++ rest) = .scalar (.int n) :: tokens limits rest := by
  obtain ⟨sp, hsp, hchars, hvalue⟩ := exists_spelling_int limits n hlimit
  have htokens := tokens_spelled limits hsp hvalue hrest
  simp only [decide_eq_true_eq] at htokens
  rw [hchars, htokens]

/-- Every number is read back, the infinite ones and what is not a number included. -/
theorem tokens_float (limits : Limits) (x : Double) {rest : List Char} (hrest : EndsNumber rest) :
    tokens limits (x.document.toList ++ rest) = .scalar (.float x) :: tokens limits rest := by
  have hscalar (v : Value) : Token.scalar v ≠ .bad := fun h => nomatch h
  cases x with
  | nan => exact tokens_cons limits rfl rfl (hscalar _)
  | infinite s =>
    cases s with
    | false => exact tokens_cons limits rfl rfl (hscalar _)
    | true => exact tokens_cons limits rfl rfl (hscalar _)
  | finite s m e h =>
    obtain ⟨sp, hsp, hchars, hvalue⟩ := exists_spelling_number limits h s
    rw [hchars, tokens_spelled limits hsp hvalue hrest]

end Records.Json
