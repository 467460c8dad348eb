import Records.Value.Presence
import Records.Value.Written

/-!
A value that is present has a text: neither form writes it as the empty one.
-/
namespace Records

namespace Number

theorem Decimal.text_ne_empty (style : Style) (d : Decimal) : d.text style ≠ "" := by
  unfold Decimal.text
  dsimp only
  split
  · unfold positionalText
    split <;> simp [String.append_eq_empty_iff]
  · simp [scientificText, String.append_eq_empty_iff]

theorem signed_ne_empty {negative : Bool} {s : String} (h : s ≠ "") : signed negative s ≠ "" := by
  unfold signed
  split
  · simp [String.append_eq_empty_iff]
  · exact h

theorem Double.literal_ne_empty (x : Double) : x.literal ≠ "" := by
  cases x with
  | nan => decide
  | infinite s => exact signed_ne_empty (by decide)
  | finite s m e _ =>
    refine signed_ne_empty ?_
    split
    · decide
    · exact Decimal.text_ne_empty _ _

end Number

theorem Text.quoted_ne_empty (s : String) : Text.quoted s ≠ "" := by
  rw [ne_eq, ← String.toList_eq_nil_iff, Text.quoted, String.toList_ofList]
  exact List.cons_ne_nil _ _

namespace Value

theorem literal_ne_empty (v : Value) : v.literal ≠ "" := by
  -- Every form but those of numbers opens with a fixed text.
  cases v with
  | null => simp [literal]
  | bool b => cases b <;> simp [literal, boolLiteral]
  | int n =>
    rw [literal]
    cases n <;> simp [toString, Int.repr, String.append_eq_empty_iff]
  | float x => simpa [literal] using x.literal_ne_empty
  | text s => exact Text.quoted_ne_empty s
  | bytes b =>
    unfold literal Text.quotedBytes
    simp only [ne_eq, String.append_eq_empty_iff, String.reduceEq, false_and, not_false_eq_true]
  | date d =>
    unfold literal dateLiteral
    simp only [ne_eq, String.append_eq_empty_iff, String.reduceEq, false_and, not_false_eq_true]
  | moment t =>
    unfold literal momentLiteral
    simp only [ne_eq, String.append_eq_empty_iff, String.reduceEq, false_and, not_false_eq_true]
  | list xs => simp [literal, String.append_eq_empty_iff]
  | tuple xs =>
    rw [literal]
    unfold tupleText
    split <;> simp [String.append_eq_empty_iff]
  | object es => simp [literal, String.append_eq_empty_iff]

theorem display_ne_empty {v : Value} (h : v.isPresent) : v.display ≠ "" := by
  cases v with
  | text s => simpa [isPresent, display] using h
  | date d => simp [display, Calendar.Date.text, String.append_eq_empty_iff]
  | moment t =>
    simp [display, Calendar.Moment.spaced, Calendar.Moment.textWith, String.append_eq_empty_iff]
  | _ => exact literal_ne_empty _

end Value

end Records
