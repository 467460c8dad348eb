import Records.Calendar.Moment

/-!
Days are numbered one after another, so two days with one number are the same day, and two moments
without an offset at one instant are the same moment.
-/
namespace Records.Calendar

section Days
variable {year month : Nat}

theorem daysBeforeMonth_succ (h : 1 ≤ month) :
    daysBeforeMonth year (month + 1) = daysBeforeMonth year month + daysInMonth year month := by
  unfold daysBeforeMonth
  rw [List.range_succ, List.filter_append, List.foldl_append]
  simp [h]

/-- A month is over before a later one begins. -/
theorem daysBeforeMonth_lt (year : Nat) {later : Nat} (h : 1 ≤ month) (hlt : month < later) :
    daysBeforeMonth year month + daysInMonth year month ≤ daysBeforeMonth year later := by
  induction later with
  | zero => omega
  | succ k ih =>
    rw [daysBeforeMonth_succ (by omega)]
    rcases Nat.lt_succ_iff_lt_or_eq.1 hlt with hlt | rfl
    · have := ih hlt
      omega
    · exact Nat.le_refl _

theorem isLeap_iff :
    isLeap year = true ↔ year % 4 = 0 ∧ (year % 100 ≠ 0 ∨ year % 400 = 0) := by
  simp [isLeap]

/-- The days of a whole year. -/
theorem daysBeforeMonth_end : daysBeforeMonth year 13 = if isLeap year then 366 else 365 := by
  have hmonths : (List.range 13).filter (1 ≤ ·) = [1, 2, 3, 4, 5, 6, 7, 8, 9, 10, 11, 12] := by
    decide
  unfold daysBeforeMonth
  rw [hmonths]
  cases hleap : isLeap year <;> simp [daysInMonth, hleap]

theorem daysBeforeYear_succ (h : 1 ≤ year) :
    daysBeforeYear (year + 1) = daysBeforeYear year + daysBeforeMonth year 13 := by
  -- Each quotient grows by one in the years that it counts.
  have hquotient (k : Nat) (hk : 0 < k) :
      year / k = (year - 1) / k + if year % k = 0 then 1 else 0 := by
    obtain ⟨y, rfl⟩ : ∃ y, year = y + 1 := ⟨year - 1, by omega⟩
    rw [Nat.add_sub_cancel, Nat.succ_div]
    simp only [Nat.dvd_iff_mod_eq_zero]
  have hfewer : (year - 1) / 100 ≤ (year - 1) / 4 := Nat.div_le_div_left (by decide) (by decide)
  have hhundred : year % 100 = 0 → year % 4 = 0 := by omega
  have hcycle : year % 400 = 0 → year % 100 = 0 := by omega
  rw [daysBeforeMonth_end]
  unfold daysBeforeYear
  dsimp only
  rw [Nat.add_sub_cancel, hquotient 4 (by decide), hquotient 100 (by decide),
    hquotient 400 (by decide)]
  generalize (year - 1) / 4 = four, (year - 1) / 100 = hundred, (year - 1) / 400 = cycle at *
  by_cases hleap : isLeap year = true
  · rw [if_pos hleap]
    rw [isLeap_iff] at hleap
    split <;> split <;> split <;> omega
  · rw [if_neg hleap]
    rw [isLeap_iff] at hleap
    split <;> split <;> split <;> omega

/-- A year is over before a later one begins. -/
theorem daysBeforeYear_lt {later : Nat} (h : 1 ≤ year) (hlt : year < later) :
    daysBeforeYear year + daysBeforeMonth year 13 ≤ daysBeforeYear later := by
  induction later with
  | zero => omega
  | succ k ih =>
    rw [daysBeforeYear_succ (by omega)]
    rcases Nat.lt_succ_iff_lt_or_eq.1 hlt with hlt | rfl
    · have := ih hlt
      omega
    · exact Nat.le_refl _

/-- A day that comes later has a greater number. -/
theorem Date.number_lt {a b : Date} (h : a.year < b.year ∨
    a.year = b.year ∧ (a.month < b.month ∨ a.month = b.month ∧ a.day < b.day)) :
    a.number < b.number := by
  obtain ⟨hyear, -, hmonth, htwelve, -, hday⟩ := a.valid
  obtain ⟨-, -, -, -, hday', -⟩ := b.valid
  unfold Date.number dayNumber
  rcases h with h | ⟨hsame, h | ⟨hsame', h⟩⟩
  · have hmonths := daysBeforeMonth_lt a.year hmonth (by omega : a.month < 13)
    have hyears := daysBeforeYear_lt hyear h
    omega
  · have hmonths := daysBeforeMonth_lt a.year hmonth h
    rw [← hsame]
    omega
  · rw [← hsame, ← hsame']
    omega

theorem Date.eq_of_number {a b : Date} (h : a.number = b.number) : a = b := by
  have hnot {a b : Date} (h : a.number = b.number) :=
    mt (Date.number_lt (a := a) (b := b)) (by omega)
  have hbefore := hnot h
  have hafter := hnot h.symm
  have hyear : a.year = b.year := by omega
  have hmonth : a.month = b.month := by omega
  have hday : a.day = b.day := by omega
  cases a
  cases b
  simp_all

theorem TimeOfDay.eq_of_micros {a b : TimeOfDay} (h : a.micros = b.micros) : a = b := by
  obtain ⟨⟨hour, _⟩, ⟨minute, _⟩, ⟨second, _⟩, ⟨micro, _⟩⟩ := a
  obtain ⟨⟨hour', _⟩, ⟨minute', _⟩, ⟨second', _⟩, ⟨micro', _⟩⟩ := b
  unfold micros at h
  dsimp only at h
  simp only [TimeOfDay.mk.injEq, Fin.mk.injEq]
  omega

theorem TimeOfDay.micros_lt (t : TimeOfDay) : (t.micros : Int) < microsPerDay := by
  obtain ⟨⟨hour, _⟩, ⟨minute, _⟩, ⟨second, _⟩, ⟨micro, _⟩⟩ := t
  unfold micros microsPerDay
  dsimp only
  omega

/-- Without an offset, a moment is told by its instant. -/
theorem Moment.eq_of_same {a b : Moment} (ha : a.offset = none) (h : a.same b = true) : a = b := by
  obtain ⟨hoffset, hinstant⟩ := Bool.and_eq_true_iff.1 h
  have hb : b.offset = none := by
    rw [ha] at hoffset
    cases hb : b.offset with
    | none => rfl
    | some o =>
      rw [hb] at hoffset
      cases hoffset
  have hinstant : a.instant = b.instant := eq_of_beq hinstant
  unfold instant at hinstant
  rw [ha, hb] at hinstant
  have hlt := a.time.micros_lt
  have hlt' := b.time.micros_lt
  unfold microsPerDay at hinstant hlt hlt'
  have hdate : a.date = b.date := Date.eq_of_number (by simp at hinstant; omega)
  have htime : a.time = b.time := TimeOfDay.eq_of_micros (by rw [hdate] at hinstant; omega)
  obtain ⟨date, time, offset⟩ := a
  obtain ⟨date', time', offset'⟩ := b
  simp_all

end Days

end Records.Calendar
