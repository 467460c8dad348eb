import Mathlib.Algebra.Group.Nat.Defs
import Mathlib.Data.List.GetD
import Mathlib.Data.List.TakeWhile
import Records.Calendar.Iso

/-!
Dates and moments are read back from the texts that a table keeps of them. Every number in these
texts is padded to a width of its own, so the reader knows where it ends.
-/
namespace Records.Calendar

open Records.Number (leftZeros zeros)
open Records.Text (utf8 utf8Char)

/-- The digits of a number, padded with zeros at the front. -/
def padded (width n : Nat) : List Char := (leftZeros width (toString n)).toList

section Padded
variable {width n : Nat}

theorem toList_zeros (n : Nat) : (zeros n).toList = List.replicate n '0' := by
  induction n with
  | zero => rfl
  | succ n ih =>
    have hpush : zeros (n + 1) = (zeros n).push '0' := rfl
    rw [hpush, String.toList_push, ih, List.replicate_succ']

theorem padded_eq (width n : Nat) :
    padded width n =
      List.replicate (width - (Nat.toDigits 10 n).length) '0' ++ Nat.toDigits 10 n := by
  unfold padded leftZeros
  rw [String.toList_append, toList_zeros, Nat.toString_eq_ofList_toDigits, String.toList_ofList,
    String.length_ofList]

theorem isDigit_of_mem_padded {c : Char} (hc : c ∈ padded width n) : c.isDigit = true := by
  rw [padded_eq] at hc
  rcases List.mem_append.1 hc with hc | hc
  · rw [List.eq_of_mem_replicate hc]
    rfl
  · exact Nat.isDigit_of_mem_toDigits (by decide) (by decide) hc

theorem length_padded (hwidth : 0 < width) (hn : n < 10 ^ width) :
    (padded width n).length = width := by
  have hfits : (Nat.toDigits 10 n).length ≤ width :=
    (Nat.length_toDigits_le_iff (by decide) hwidth).2 hn
  rw [padded_eq, List.length_append, List.length_replicate]
  omega

theorem padded_ne_nil (hwidth : 0 < width) (hn : n < 10 ^ width) : padded width n ≠ [] := by
  rw [← List.length_pos_iff, length_padded hwidth hn]
  exact hwidth

theorem headOrEnd_cons (c : Char) (cs : List Char) : headOrEnd (c :: cs) = c := rfl

/-- What a padded number begins with is no mark. -/
theorem headOrEnd_padded (hwidth : 0 < width) (hn : n < 10 ^ width) (rest : List Char) :
    (headOrEnd (padded width n ++ rest)).isDigit = true := by
  have hmem (c : Char) (hc : c ∈ padded width n) := isDigit_of_mem_padded hc
  cases hp : padded width n with
  | nil => exact absurd hp (padded_ne_nil hwidth hn)
  | cons c cs =>
    rw [hp] at hmem
    exact hmem c (List.mem_cons_self ..)

theorem takeDigits_padded (hwidth : 0 < width) (hn : n < 10 ^ width) (rest : List Char) :
    takeDigits width (padded width n ++ rest) = some (n, rest) := by
  have hlength := length_padded hwidth hn
  have htake : (padded width n ++ rest).take width = padded width n := List.take_left' hlength
  have hdrop : (padded width n ++ rest).drop width = rest := List.drop_left' hlength
  have hvalue : (padded width n).foldl (fun v c => v * 10 + (c.toNat - 48)) 0 = n := by
    have hsame : (padded width n).foldl (fun v c => v * 10 + (c.toNat - 48)) 0 =
        Nat.ofDigitChars 10 (padded width n) 0 := by
      rw [Nat.ofDigitChars_eq_foldl]
      refine congrArg (fun step => List.foldl step 0 (padded width n)) (funext₂ fun v c => ?_)
      rw [Nat.mul_comm]
      rfl
    rw [hsame, padded_eq, Nat.ofDigitChars_append, Nat.ofDigitChars_replicate_zero, Nat.mul_zero,
      Nat.ofDigitChars_ten_toDigits]
  unfold takeDigits
  dsimp only
  rw [htake, hdrop, hvalue, if_pos ⟨hlength, List.all_eq_true.2 fun c => isDigit_of_mem_padded⟩]

end Padded

/-- The octets of an ASCII text are its characters. -/
theorem octets_of_ascii {s : String} (h : ∀ c ∈ s.toList, c.toNat < 128) :
    octets s = s.toList := by
  unfold octets utf8
  generalize s.toList = cs at h
  induction cs with
  | nil => rfl
  | cons c cs ih =>
    obtain ⟨hc, hcs⟩ := List.forall_mem_cons.1 h
    have hutf8 : utf8Char c = [UInt8.ofNat c.toNat] := if_pos hc
    have hback : Char.ofNat (UInt8.ofNat c.toNat).toNat = c := by
      rw [UInt8.toNat_ofNat', Nat.mod_eq_of_lt (by omega), Char.ofNat_toNat]
    rw [List.flatMap_cons, hutf8, List.map_append, ih hcs, List.map_singleton, hback]
    rfl

theorem toNat_lt_of_isDigit {c : Char} (h : c.isDigit = true) : c.toNat < 128 := by
  simp only [Char.isDigit, Bool.and_eq_true, decide_eq_true_eq] at h
  have hnine : c.toNat ≤ 57 := h.2
  omega

namespace Date
variable (d : Date)

theorem toList_text : d.text.toList =
    padded 4 d.year ++ '-' :: (padded 2 d.month ++ '-' :: padded 2 d.day) := by
  unfold text padded
  simp

theorem year_lt : d.year < 10 ^ 4 := by
  obtain ⟨-, h, -⟩ := d.valid
  omega

theorem month_lt : d.month < 10 ^ 2 := by
  obtain ⟨-, -, -, h, -⟩ := d.valid
  omega

theorem day_lt : d.day < 10 ^ 2 := by
  obtain ⟨-, -, -, -, -, h⟩ := d.valid
  have hmonth : daysInMonth d.year d.month ≤ 31 := by
    unfold daysInMonth
    split
    · split <;> decide
    · split <;> decide
  omega

theorem length_text : d.text.toList.length = 10 := by
  rw [toList_text, List.length_append, List.length_cons, List.length_append, List.length_cons,
    length_padded (by decide) d.year_lt, length_padded (by decide) d.month_lt,
    length_padded (by decide) d.day_lt]

theorem readDateIn_text (length : Int) (rest : List Char) :
    readDateIn length (d.text.toList ++ rest) = some d := by
  have hmark : headOrEnd (padded 2 d.month ++ '-' :: (padded 2 d.day ++ rest)) ≠ 'W' := by
    intro hmark
    have hdigit := headOrEnd_padded (by decide) d.month_lt ('-' :: (padded 2 d.day ++ rest))
    rw [hmark] at hdigit
    cases hdigit
  have hmake : make? d.year d.month d.day = some d := dif_pos d.valid
  rw [toList_text, List.append_assoc, List.cons_append, List.append_assoc, List.cons_append]
  unfold readDateIn
  rw [takeDigits_padded (by decide) d.year_lt]
  simp only [Option.bind_eq_bind, Option.bind_some, headOrEnd_cons, beq_self_eq_true, if_true,
    List.tail_cons]
  rw [if_neg hmark, takeDigits_padded (by decide) d.month_lt]
  simp only [Option.bind_some, takeHyphen, if_true, List.head?_cons, List.tail_cons,
    takeDigits_padded (by decide) d.day_lt, hmake]

/-- The hyphen after the year tells how many octets the date of a moment takes. -/
theorem dateLength_text (rest : List Char) : dateLength (d.text.toList ++ rest) = 10 := by
  have hyear := length_padded (by decide) d.year_lt
  have hfour : (d.text.toList ++ rest).getD 4 pastEnd = '-' := by
    rw [toList_text, List.append_assoc, List.getD_append_right _ _ _ _ hyear.le, hyear]
    rfl
  have hfive : (d.text.toList ++ rest).getD 5 pastEnd ≠ 'W' := by
    intro hmark
    have hdigit := headOrEnd_padded (by decide) d.month_lt ('-' :: (padded 2 d.day ++ rest))
    rw [toList_text, List.append_assoc, List.getD_append_right _ _ _ _ (by omega), hyear] at hmark
    simp only [List.cons_append, List.append_assoc] at hmark
    have hfirst (cs : List Char) : ('-' :: cs).getD 1 pastEnd = headOrEnd cs := by
      cases cs <;> rfl
    rw [hfirst] at hmark
    rw [hmark] at hdigit
    cases hdigit
  have hlength : (d.text.toList ++ rest).length ≠ 7 := by
    rw [List.length_append, length_text]
    omega
  unfold dateLength
  dsimp only
  rw [if_neg (by exact_mod_cast hlength), if_pos hfour, if_neg hfive]

/-- A date is read back from its text. -/
theorem readDate?_text : readDate? d.text = some d := by
  have hascii : ∀ c ∈ d.text.toList, c.toNat < 128 := by
    intro c hc
    simp only [toList_text, List.mem_append, List.mem_cons] at hc
    rcases hc with hc | rfl | hc | rfl | hc
    · exact toNat_lt_of_isDigit (isDigit_of_mem_padded hc)
    · decide
    · exact toNat_lt_of_isDigit (isDigit_of_mem_padded hc)
    · decide
    · exact toNat_lt_of_isDigit (isDigit_of_mem_padded hc)
  have hread := d.readDateIn_text d.text.toList.length []
  rw [List.append_nil] at hread
  unfold readDate?
  dsimp only
  rw [octets_of_ascii hascii, if_pos (by rw [length_text]; decide), hread]

end Date

section Clock
variable {n v : Nat} {after cs : List Char}

/-- A part of a time that a colon follows. -/
theorem readClock_colon (hv : v < 10 ^ 2) {colons : Option Bool} (hcolons : colons.getD true = true)
    (hcs : cs ≠ []) : readClock after (n + 1) colons (padded 2 v ++ ':' :: cs) =
      (readClock after n (some true) cs).map fun c => { c with fields := v :: c.fields } := by
  have hsome : colons.getD true = colons.getD (':' == ':') := rfl
  cases cs with
  | nil => exact absurd rfl hcs
  | cons c cs =>
    rw [readClock, takeDigits_padded (by decide) hv]
    simp only [Option.bind_eq_bind, Option.bind_some, List.cons_append, headOrEnd_cons, ← hsome,
      hcolons, and_self, if_true]
    cases readClock after n (some true) (c :: cs) <;> rfl

/-- The seconds of a time, with six places of a fraction after them. -/
theorem readClock_fraction (hv : v < 10 ^ 2) {micro : Nat} (hmicro : micro < 10 ^ 6) :
    readClock [] 1 (some true) (padded 2 v ++ '.' :: padded 6 micro) =
      some ⟨[v], micro, false⟩ := by
  have hlength := length_padded (by decide) hmicro
  have htaken := takeDigits_padded (by decide) hmicro []
  rw [List.append_nil] at htaken
  have hread : readFraction [] (padded 6 micro) = some ⟨[], micro, false⟩ := by
    unfold readFraction
    simp only [hlength, Nat.min_self, htaken, Option.bind_eq_bind, Option.bind_some, Nat.sub_self]
    simp [headOrEnd]
  rw [readClock, takeDigits_padded (by decide) hv]
  cases hcs : padded 6 micro with
  | nil => exact absurd hcs (padded_ne_nil (by decide) hmicro)
  | cons c cs =>
    rw [hcs] at hread
    simp [headOrEnd, hread]

end Clock

namespace TimeOfDay
variable (t : TimeOfDay)

/-- The characters of a time to the microsecond. -/
def chars : List Char := padded 2 t.hour ++ ':' :: (padded 2 t.minute ++ ':' ::
  (padded 2 t.second ++ '.' :: padded 6 t.micro))

theorem toList_seconds : t.seconds.toList =
    padded 2 t.hour ++ ':' :: (padded 2 t.minute ++ ':' :: padded 2 t.second) := by
  unfold seconds two padded
  simp

theorem mem_chars {c : Char} (hc : c ∈ t.chars) : c.isDigit = true ∨ c = ':' ∨ c = '.' := by
  simp only [chars, List.mem_append, List.mem_cons] at hc
  rcases hc with hc | rfl | hc | rfl | hc | rfl | hc
  · exact .inl (isDigit_of_mem_padded hc)
  · exact .inr (.inl rfl)
  · exact .inl (isDigit_of_mem_padded hc)
  · exact .inr (.inl rfl)
  · exact .inl (isDigit_of_mem_padded hc)
  · exact .inr (.inr rfl)
  · exact .inl (isDigit_of_mem_padded hc)

theorem readClock_chars : readClock [] 3 none t.chars =
    some ⟨[t.hour, t.minute, t.second], t.micro, false⟩ := by
  have hhour : t.hour.val < 10 ^ 2 := Nat.lt_trans t.hour.isLt (by decide)
  have hminute : t.minute.val < 10 ^ 2 := Nat.lt_trans t.minute.isLt (by decide)
  have hsecond : t.second.val < 10 ^ 2 := Nat.lt_trans t.second.isLt (by decide)
  have hmicro : t.micro.val < 10 ^ 6 := t.micro.isLt
  unfold chars
  rw [readClock_colon hhour rfl (by simp), readClock_colon hminute rfl (by simp),
    readClock_fraction hsecond hmicro]
  rfl

/-- A time without an offset is read back from its characters. -/
theorem readTime_chars : readTime t.chars = some (t, none) := by
  have hplain : ∀ c ∈ t.chars, (!startsOffset c) = true := by
    intro c hc
    rcases t.mem_chars hc with hc | rfl | rfl
    · simp only [startsOffset, Bool.not_eq_true', Bool.or_eq_false_iff, beq_eq_false_iff_ne]
      refine ⟨⟨?_, ?_⟩, ?_⟩ <;> rintro rfl <;> cases hc
    · rfl
    · rfl
  have htime : make? t.hour t.minute t.second t.micro = some t :=
    dif_pos ⟨t.hour.isLt, t.minute.isLt, t.second.isLt, t.micro.isLt⟩
  unfold readTime
  rw [List.takeWhile_eq_self_iff.2 hplain, List.dropWhile_eq_nil_iff.2 hplain]
  dsimp only
  rw [t.readClock_chars]
  simp only [Option.bind_eq_bind, Option.bind_some, Clock.time?, Clock.hour, Clock.minute,
    Clock.second, List.getD_cons_zero, List.getD_cons_succ, htime]
  rfl

end TimeOfDay

/-- A moment without an offset is read back from the form that a table keeps. -/
theorem Moment.readMoment?_stored {m : Moment} (hnaive : m.offset = none) :
    readMoment? m.stored = some m := by
  have hchars : m.stored.toList = m.date.text.toList ++ ' ' :: m.time.chars := by
    have hmicro : (leftZeros 6 (toString m.time.micro)).toList = padded 6 m.time.micro := rfl
    unfold stored TimeOfDay.chars
    simp only [String.toList_append, hmicro, TimeOfDay.toList_seconds]
    simp
  have hascii : ∀ c ∈ m.stored.toList, c.toNat < 128 := by
    intro c hc
    rw [hchars, Date.toList_text] at hc
    simp only [List.mem_append, List.mem_cons] at hc
    rcases hc with (hc | rfl | hc | rfl | hc) | rfl | hc
    · exact toNat_lt_of_isDigit (isDigit_of_mem_padded hc)
    · decide
    · exact toNat_lt_of_isDigit (isDigit_of_mem_padded hc)
    · decide
    · exact toNat_lt_of_isDigit (isDigit_of_mem_padded hc)
    · decide
    · rcases m.time.mem_chars hc with hc | rfl | rfl
      · exact toNat_lt_of_isDigit hc
      · decide
      · decide
  have hlong : ¬m.stored.toList.length < 7 := by
    rw [hchars, List.length_append, Date.length_text]
    omega
  have hrest : (m.date.text.toList ++ ' ' :: m.time.chars).drop (10 : Int).toNat =
      ' ' :: m.time.chars := List.drop_left' m.date.length_text
  unfold readMoment?
  dsimp only
  rw [octets_of_ascii hascii, if_neg hlong, hchars, Date.dateLength_text, Date.readDateIn_text]
  simp only [Option.bind_eq_bind, Option.bind_some]
  rw [if_neg (by decide), hrest]
  dsimp only
  rw [if_pos (by decide), List.drop_zero, m.time.readTime_chars, ← hnaive]
  rfl

end Records.Calendar
