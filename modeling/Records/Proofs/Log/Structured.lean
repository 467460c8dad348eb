import Records.Log.Line
import Records.Proofs.Json.Documents

/-!
Structured log lines. Each is one line of plain text and one object, and what is logged is read back
from it.
-/
namespace Records

namespace Json

open Records.Text (hexDigit hexDigits)

/-- Characters that a terminal shows as they are; no control is among them. -/
def IsPlain (c : Char) : Prop := ' ' ≤ c ∧ c ≤ '~'

instance (c : Char) : Decidable (IsPlain c) := inferInstanceAs (Decidable (_ ∧ _))

def ArePlain (cs : List Char) : Prop := ∀ c ∈ cs, IsPlain c

instance (cs : List Char) : Decidable (ArePlain cs) := List.decidableBAll IsPlain cs

section Plain
variable {cs ds : List Char} {c : Char}

theorem ArePlain.append (hc : ArePlain cs) (hd : ArePlain ds) : ArePlain (cs ++ ds) :=
  List.forall_mem_append.2 ⟨hc, hd⟩

theorem ArePlain.cons (hc : IsPlain c) (hcs : ArePlain cs) : ArePlain (c :: cs) :=
  List.forall_mem_cons.2 ⟨hc, hcs⟩

theorem arePlain_nil : ArePlain [] := fun _ hc => nomatch hc

theorem AllDigits.arePlain (h : AllDigits cs) : ArePlain cs := by
  intro c hc
  have hdigit := h c hc
  simp only [Char.isDigit, Bool.and_eq_true, decide_eq_true_eq] at hdigit
  have hlow : (48 : Nat) ≤ c.toNat := hdigit.1
  have hhigh : c.toNat ≤ 57 := hdigit.2
  have hspace : (' ' : Char).toNat ≤ c.toNat := hlow.trans' (by decide)
  have htilde : c.toNat ≤ ('~' : Char).toNat := hhigh.trans (by decide)
  exact ⟨hspace, htilde⟩

theorem Spelling.Proper.arePlain {sp : Spelling} (h : sp.Proper) : ArePlain sp.chars := by
  have hfraction : ArePlain sp.fractionChars := by
    unfold fractionChars
    split
    · exact arePlain_nil
    · exact h.fraction.arePlain.cons (by decide)
  have hexponent : ArePlain sp.exponentChars := by
    unfold exponentChars
    split
    · exact arePlain_nil
    case h_2 negative ds heq =>
      have hds := (h.exponent _ (by rw [heq]; rfl)).2
      refine (hds.arePlain.cons ?_).cons (by decide)
      cases negative <;> decide
  exact (h.whole.arePlain.append hfraction).append hexponent

theorem arePlain_spelled {sp : Spelling} (h : sp.Proper) (p : Prop) [Decidable p] :
    ArePlain (if p then '-' :: sp.chars else sp.chars) := by
  split
  · exact h.arePlain.cons (by decide)
  · exact h.arePlain

theorem arePlain_int (n : Int) : ArePlain (toString n).toList := by
  obtain ⟨sp, hsp, hchars, -⟩ := exists_spelling_int .unbounded n rfl
  rw [hchars]
  exact arePlain_spelled hsp _

theorem arePlain_float (x : Number.Double) : ArePlain x.document.toList := by
  cases x with
  | nan => decide
  | infinite s => cases s <;> decide
  | finite s m e h =>
    obtain ⟨sp, hsp, hchars, -⟩ := exists_spelling_number .unbounded h s
    rw [hchars]
    exact arePlain_spelled hsp _

theorem isPlain_hexDigit (n : Nat) : IsPlain (hexDigit n) := by
  have hdigits : ∀ k < 16, IsPlain (Nat.digitChar k) := by decide
  exact hdigits (n % 16) (Nat.mod_lt n (by decide))

theorem arePlain_hexDigits (width n : Nat) : ArePlain (hexDigits width n) := by
  induction width generalizing n with
  | zero => exact arePlain_nil
  | succ width ih => exact (ih _).append (arePlain_nil.cons (isPlain_hexDigit n))

theorem arePlain_escapeUnits (us : List Nat) : ArePlain (us.flatMap escapeUnit) := by
  induction us with
  | nil => exact arePlain_nil
  | cons n us ih =>
    exact (((arePlain_hexDigits 4 n).cons (by decide)).cons (by decide)).append ih

theorem arePlain_escapeChar (c : Char) : ArePlain (escapeChar c) := by
  obtain ⟨hself, -, -, hplain⟩ | ⟨d, hshort, -, hd⟩ | hunits := escapeChar_cases c
  · rw [hself]
    exact arePlain_nil.cons hplain
  · obtain ⟨hlow, hhigh, -⟩ := shortEscape?_lt hd
    rw [hshort]
    exact (arePlain_nil.cons ⟨hlow, hhigh⟩).cons (by decide)
  · rw [hunits]
    exact arePlain_escapeUnits _

theorem arePlain_textChars (s : String) : ArePlain (textChars s) := by
  have hescaped : ArePlain (s.toList.flatMap escapeChar) := by
    intro c hc
    obtain ⟨d, -, hmem⟩ := List.mem_flatMap.1 hc
    exact arePlain_escapeChar d c hmem
  exact (hescaped.cons (by decide)).append (arePlain_nil.cons (by decide))

theorem arePlain_separated {pieces : List (List Char)} (h : ∀ p ∈ pieces, ArePlain p) :
    ArePlain (separated pieces) := by
  cases pieces with
  | nil => exact arePlain_nil
  | cons p pieces =>
    obtain ⟨hp, hpieces⟩ := List.forall_mem_cons.1 h
    rw [separated_cons]
    refine hp.append fun c hc => ?_
    obtain ⟨q, hq, hmem⟩ := List.mem_flatMap.1 hc
    exact ((hpieces q hq).cons (by decide)).cons (by decide) c hmem

mutual

/-- Every value is written in plain text. -/
theorem arePlain_chars (v : Value) : ArePlain (chars v) := by
  match v with
  | .null | .bool true | .bool false => decide
  | .int n => exact arePlain_int n
  | .float x => exact arePlain_float x
  | .text _ | .bytes _ | .date _ | .moment _ => exact arePlain_textChars _
  | .list xs | .tuple xs =>
    exact ((arePlain_separated (arePlain_itemChars xs)).cons (by decide)).append
      (arePlain_nil.cons (by decide))
  | .object es =>
    exact ((arePlain_separated (arePlain_entryChars es)).cons (by decide)).append
      (arePlain_nil.cons (by decide))
termination_by structural v

theorem arePlain_itemChars (xs : List Value) : ∀ p ∈ itemChars xs, ArePlain p := by
  match xs with
  | [] => exact fun _ hp => nomatch hp
  | x :: xs => exact List.forall_mem_cons.2 ⟨arePlain_chars x, arePlain_itemChars xs⟩
termination_by structural xs

theorem arePlain_entryChars (es : List (String × Value)) : ∀ p ∈ entryChars es, ArePlain p := by
  match es with
  | [] => exact fun _ hp => nomatch hp
  | (k, x) :: es =>
    refine List.forall_mem_cons.2 ⟨?_, arePlain_entryChars es⟩
    exact (arePlain_textChars k).append
      (((arePlain_chars x).cons (by decide)).cons (by decide))
termination_by structural es

end

end Plain

end Json

namespace LogRecord
variable (r : LogRecord) (site : Option CallSite)

theorem isDocument_fields (hdata : (Value.object r.data).isDocument = true) :
    (Value.object (r.fields site)).isDocument = true := by
  rw [Value.isDocument, Bool.and_eq_true, decide_eq_true_eq] at hdata
  unfold fields
  cases r.data.isEmpty <;> cases r.exception <;> cases site <;>
    simp [Value.isDocument, Value.haveDocuments, hdata]

/-- A message and data that would not stay on one line by themselves. -/
def untidy : LogRecord where
  logger := "records.\tfilters"
  level := 35
  message := "first\n\"second\" \\ \u0007 é 😀"
  data := [("nme\n", .text "a\r\nb"),
    ("", .list [.null, .bool true, .int (-7), .float (.ofDecimal true 25 (-1)),
      .object [("x", .list []), ("y", .object [])]])]
  time := ⟨⟨2029, 12, 31, by decide⟩, .midnight, none⟩

end LogRecord

end Records
