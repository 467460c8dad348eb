import Records.Proofs.Calendar.ReadBack
import Records.Proofs.Log.Structured

/-!
Development lines. Text in the data of a record stands for itself, so it can break the line; every
other value is written in its literal form, which escapes line ends.
-/
namespace Records

open Records.Calendar (Date Moment)
open Records.Json (ArePlain)

/-- Whether a text has no line end in it. -/
def IsLine (s : String) : Prop := '\n' ∉ s.toList

instance (s : String) : Decidable (IsLine s) := inferInstanceAs (Decidable (¬_))

section Lines
variable {s t sep : String} {cs : List Char}

theorem isLine_append : IsLine (s ++ t) ↔ IsLine s ∧ IsLine t := by
  unfold IsLine
  rw [String.toList_append, List.mem_append, not_or]

theorem IsLine.append (hs : IsLine s) (ht : IsLine t) : IsLine (s ++ t) := isLine_append.2 ⟨hs, ht⟩

theorem isLine_ofList : IsLine (String.ofList cs) ↔ '\n' ∉ cs := by
  unfold IsLine
  rw [String.toList_ofList]

theorem not_mem_of_arePlain (h : ArePlain cs) : '\n' ∉ cs :=
  fun hmem => absurd (h _ hmem) (by decide)

theorem isLine_intercalate (hsep : IsLine sep) (ts : List String) :
    IsLine (sep.intercalate ts) ↔ ∀ t ∈ ts, IsLine t := by
  induction ts with
  | nil =>
    rw [String.intercalate_nil]
    exact iff_of_true (by decide) fun _ ht => nomatch ht
  | cons t ts ih =>
    cases ts with
    | nil => rw [String.intercalate_singleton, List.forall_mem_singleton]
    | cons u ts =>
      rw [String.intercalate_cons_cons, isLine_append, isLine_append, ih, and_iff_left hsep]
      exact List.forall_mem_cons.symm

theorem isLine_ite {p : Prop} [Decidable p] (hs : IsLine s) (ht : IsLine t) :
    IsLine (if p then s else t) := by
  split
  · exact hs
  · exact ht

/-- A part of a literal that may be left out. -/
theorem areLines_optional {p : Prop} [Decidable p] (ht : IsLine t) :
    ∀ u ∈ if p then [] else [t], IsLine u := by
  split
  · exact fun _ hu => nomatch hu
  · exact List.forall_mem_singleton.2 ht

theorem isLine_int (n : Int) : IsLine (toString n) := not_mem_of_arePlain (Json.arePlain_int n)

theorem isLine_nat (n : Nat) : IsLine (toString n) := isLine_int n

theorem isLine_leftZeros (width n : Nat) : IsLine (Number.leftZeros width (toString n)) := by
  intro hmem
  have hdigit : ('\n' : Char).isDigit = true := Calendar.isDigit_of_mem_padded hmem
  exact absurd hdigit (by decide)

end Lines

namespace Text
variable {mark : Char}

theorem not_mem_hexDigits (width n : Nat) : '\n' ∉ hexDigits width n :=
  not_mem_of_arePlain (Json.arePlain_hexDigits width n)

theorem not_mem_quoteChar (hmark : mark ≠ '\n') (c : Char) : '\n' ∉ quoteChar mark c := by
  unfold quoteChar
  split
  case isTrue h =>
    have hc : '\n' ≠ c := by
      rintro rfl
      rcases h with h | h
      · exact hmark h.symm
      · exact absurd h (by decide)
    simp [hc]
  case isFalse =>
    split
    · decide
    · rename_i hc
      split
      · decide
      · split
        · decide
        · split
          · simpa using Ne.symm hc
          · unfold escapeUnprintable
            dsimp only
            split
            · simp [not_mem_hexDigits]
            · split <;> simp [not_mem_hexDigits]

theorem quotationMark_ne (cs : List Char) : quotationMark cs ≠ '\n' := by
  unfold quotationMark
  split <;> decide

theorem isLine_quoted (s : String) : IsLine (quoted s) := by
  unfold quoted quotedChars
  rw [isLine_ofList]
  have hmark := quotationMark_ne s.toList
  simp only [List.cons_append, List.mem_cons, List.mem_append, List.mem_flatMap, List.not_mem_nil,
    or_false, not_or, not_exists, not_and]
  exact ⟨hmark.symm, fun c _ => not_mem_quoteChar hmark c, hmark.symm⟩

theorem isLine_quotedBytes (b : List UInt8) : IsLine (quotedBytes b) := by
  unfold quotedBytes
  dsimp only
  have hmark := quotationMark_ne (b.map fun x => Char.ofNat x.toNat)
  have hbyte (x : UInt8) :
      '\n' ∉ quoteByte (quotationMark (b.map fun x => Char.ofNat x.toNat)) x := by
    unfold quoteByte
    dsimp only
    split
    · exact not_mem_quoteChar hmark _
    · simp [not_mem_hexDigits]
  refine IsLine.append (by decide) (isLine_ofList.2 ?_)
  simp only [List.cons_append, List.mem_cons, List.mem_append, List.mem_flatMap, List.not_mem_nil,
    or_false, not_or, not_exists, not_and]
  exact ⟨hmark.symm, fun x _ => hbyte x, hmark.symm⟩

end Text

namespace Value

theorem isLine_dateLiteral (d : Date) : IsLine (dateLiteral d) := by
  unfold dateLiteral
  simp only [isLine_append, isLine_nat, and_true]
  decide

theorem isLine_spanLiteral (micros : Int) : IsLine (spanLiteral micros) := by
  have hpart (name : String) (hname : IsLine name) (n : Int) :
      ∀ t ∈ if n = 0 then [] else [name ++ "=" ++ toString n], IsLine t :=
    areLines_optional ((hname.append (by decide)).append (isLine_int n))
  refine (IsLine.append (by decide) ?_).append (by decide)
  refine isLine_ite (by decide) ((isLine_intercalate (by decide) _).2 ?_)
  rw [List.forall_mem_append, List.forall_mem_append]
  exact ⟨⟨hpart _ (by decide) _, hpart _ (by decide) _⟩, hpart _ (by decide) _⟩

theorem isLine_zoneLiteral (micros : Int) : IsLine (zoneLiteral micros) :=
  isLine_ite (by decide) ((IsLine.append (by decide) (isLine_spanLiteral _)).append (by decide))

theorem isLine_momentLiteral (m : Moment) : IsLine (momentLiteral m) := by
  refine (IsLine.append (by decide) ?_).append (by decide)
  rw [isLine_intercalate (by decide)]
  simp only [List.forall_mem_append, List.forall_mem_cons, isLine_nat, List.not_mem_nil,
    false_implies, implies_true, true_and]
  refine ⟨⟨areLines_optional (isLine_nat _), areLines_optional (isLine_nat _)⟩, ?_⟩
  cases m.offset with
  | none => exact fun _ ht => nomatch ht
  | some o => exact List.forall_mem_singleton.2 (IsLine.append (by decide) (isLine_zoneLiteral _))

theorem isLine_floatLiteral (x : Number.Double) : IsLine x.literal := by
  cases x with
  | nan => decide
  | infinite s => cases s <;> decide
  | finite s m e h => exact not_mem_of_arePlain (Json.arePlain_float (.finite s m e h))

theorem isLine_tupleText {ts : List String} (h : ∀ t ∈ ts, IsLine t) : IsLine (tupleText ts) := by
  unfold tupleText
  split
  · rw [List.forall_mem_singleton] at h
    exact (IsLine.append (by decide) h).append (by decide)
  · exact (IsLine.append (by decide) ((isLine_intercalate (by decide) ts).2 h)).append (by decide)

mutual

/-- The literal form of any value is on one line. -/
theorem isLine_literal (v : Value) : IsLine v.literal := by
  match v with
  | .null | .bool true | .bool false => decide
  | .int n => exact isLine_int n
  | .float x => exact isLine_floatLiteral x
  | .text s => exact Text.isLine_quoted s
  | .bytes b => exact Text.isLine_quotedBytes b
  | .date d => exact isLine_dateLiteral d
  | .moment m => exact isLine_momentLiteral m
  | .list xs =>
    exact (IsLine.append (by decide)
      ((isLine_intercalate (by decide) _).2 (isLine_literals xs))).append (by decide)
  | .tuple xs => exact isLine_tupleText (isLine_literals xs)
  | .object es =>
    exact (IsLine.append (by decide)
      ((isLine_intercalate (by decide) _).2 (isLine_entryLiterals es))).append (by decide)
termination_by structural v

theorem isLine_literals (xs : List Value) : ∀ t ∈ literals xs, IsLine t := by
  match xs with
  | [] => exact fun _ ht => nomatch ht
  | x :: xs => exact List.forall_mem_cons.2 ⟨isLine_literal x, isLine_literals xs⟩
termination_by structural xs

theorem isLine_entryLiterals (es : List (String × Value)) : ∀ t ∈ entryLiterals es, IsLine t := by
  match es with
  | [] => exact fun _ ht => nomatch ht
  | (k, x) :: es =>
    refine List.forall_mem_cons.2 ⟨?_, isLine_entryLiterals es⟩
    exact ((Text.isLine_quoted k).append (by decide)).append (isLine_literal x)
termination_by structural es

end

end Value

namespace LogRecord

theorem isLine_padded {s : String} (hs : IsLine s) (width : Nat) : IsLine (padded width s) := by
  have hblank (n : Nat) : IsLine ("".pushn ' ' n) := by
    induction n with
    | zero => decide
    | succ n ih =>
      have hpush : "".pushn ' ' (n + 1) = ("".pushn ' ' n).push ' ' := rfl
      unfold IsLine at ih ⊢
      rw [hpush, String.toList_push, List.mem_append, not_or]
      exact ⟨ih, by decide⟩
  exact hs.append (hblank _)

theorem isLine_nameOf (n : Int) : IsLine (Level.nameOf n) := by
  unfold Level.nameOf
  split
  · rename_i level _
    cases level <;> decide
  · split
    · decide
    · exact IsLine.append (by decide) (isLine_int n)

theorem isLine_colour (n : Int) : IsLine (Level.colour n) := by
  unfold Level.colour
  refine (IsLine.append (by decide) ?_).append (by decide)
  split <;> decide

/-- A development line is one line exactly if the logger, the message, and the keys and values of
the data as they are displayed are. -/
theorem isLine_development {r : LogRecord} (hexception : r.exception = none) :
    IsLine r.development ↔ IsLine r.logger ∧ IsLine r.message ∧
      ∀ d ∈ r.data, IsLine d.1 ∧ IsLine d.2.display := by
  have hclock : IsLine r.time.time.seconds := by
    have htwo (n : Nat) : IsLine (Calendar.two n) := isLine_leftZeros 2 n
    exact ((((htwo _).append (by decide)).append (htwo _)).append (by decide)).append (htwo _)
  have hends : IsLine " " ∧ IsLine "\x1b[0m " ∧ IsLine ": " ∧ IsLine "" := by decide
  have hdatum (d : String × Value) :
      IsLine (d.1 ++ "=" ++ d.2.display) ↔ IsLine d.1 ∧ IsLine d.2.display := by
    have hequals : IsLine "=" := by decide
    rw [isLine_append, isLine_append, and_iff_left hequals]
  unfold development
  dsimp only
  simp only [hexception, isLine_append, isLine_colour, hclock,
    isLine_padded (isLine_nameOf r.level), hends, Option.map_none, Option.getD_none, true_and,
    and_true, and_assoc]
  refine and_congr_right fun _ => and_congr_right fun _ => ?_
  split
  · rename_i hempty
    rw [List.isEmpty_iff.1 hempty]
    exact iff_of_true (by decide) (List.forall_mem_nil _)
  · have hblanks : IsLine "  " := by decide
    rw [isLine_append, and_iff_right hblanks, isLine_intercalate hends.1, List.forall_mem_map]
    exact forall₂_congr fun d _ => hdatum d

end LogRecord

end Records
