import Hymenium.Foundations.Calendar
import Mathlib.Data.String.Basic

/-!
# Timestamps as text

The RFC 3339 text of a time in UTC, with as many groups of three decimals of the second as it
needs. Texts in the order of their characters are times in the order of time, as long as the years
have four digits (`rfc3339_lt`). A time before year 0 has a text with a sign, which comes before all
of these.
-/

namespace Timestamp

open Calendar

/-! ## Digits -/

/-- The last `w` decimal digits of a number. -/
def digits : ℕ → ℕ → List Char
  | 0, _ => []
  | w + 1, n => digits w (n / 10) ++ [Nat.digitChar (n % 10)]

@[simp] theorem length_digits (w n : ℕ) : (digits w n).length = w := by
  induction w generalizing n with
  | zero => rfl
  | succ w ih => simp [digits, ih]

theorem digitChar_lt {a b : ℕ} (hb : b < 10) (h : a < b) : a.digitChar < b.digitChar := by
  interval_cases b <;> interval_cases a <;> decide

/-- Texts of one length, in order, stay in order whatever follows. -/
theorem append_lt_append {a b : List Char} (hlen : a.length = b.length) (h : a < b)
    (c d : List Char) : a ++ c < b ++ d := by
  induction a generalizing b with
  | nil => exact absurd h (by rw [List.eq_nil_of_length_eq_zero hlen.symm]; exact List.not_lt_nil _)
  | cons x a ih =>
    cases b with
    | nil => cases hlen
    | cons y b =>
      rw [List.cons_append, List.cons_append, List.cons_lt_cons_iff]
      rcases List.cons_lt_cons_iff.mp h with hxy | ⟨hxy, hab⟩
      · exact .inl hxy
      · exact .inr ⟨hxy, ih (Nat.succ.inj hlen) hab⟩

/-- Digits of numbers in order are in order. -/
theorem digits_lt {w n m : ℕ} (hm : m < 10 ^ w) (h : n < m) : digits w n < digits w m := by
  induction w generalizing n m with
  | zero => omega
  | succ w ih =>
    unfold digits
    rcases Nat.lt_or_ge (n / 10) (m / 10) with hlt | hge
    · exact append_lt_append (by simp) (ih (by omega) hlt) _ _
    · have heq : n / 10 = m / 10 := by omega
      rw [heq]
      refine List.append_left_lt (List.cons_lt_cons_iff.mpr (.inl (digitChar_lt ?_ ?_)))
      · omega
      · omega

/-- A text that goes on with a digit comes after one that goes on with a sign. -/
theorem lt_digits {x : Char} (hx : x < '0') (w n : ℕ) (c d : List Char) :
    x :: c < digits (w + 1) n ++ d := by
  induction w generalizing n d with
  | zero =>
    have hdigit : '0' ≤ Nat.digitChar (n % 10) := by
      have hlt := Nat.mod_lt n (Nat.succ_pos 9)
      generalize n % 10 = k at hlt
      interval_cases k <;> decide
    exact List.cons_lt_cons_iff.mpr (.inl (hx.trans_le hdigit))
  | succ w ih =>
    rw [digits, List.append_assoc]
    exact ih _ _

/-! ## Fractions of a second -/

/-- The offset of UTC. -/
def offset : List Char := ['+', '0', '0', ':', '0', '0']

/-- `k` groups of three decimals, but for the groups of zeros at the end, and the offset. -/
def groups : ℕ → ℕ → List Char
  | 0, _ => offset
  | k + 1, n => if n = 0 then offset else digits 3 (n / 1000 ^ k) ++ groups k (n % 1000 ^ k)

/-- The nanoseconds of a second and the offset. -/
def fraction (ns : ℕ) : List Char := if ns = 0 then offset else '.' :: groups 3 ns

theorem groups_lt {k n m : ℕ} (hm : m < 1000 ^ k) (h : n < m) : groups k n < groups k m := by
  induction k generalizing n m with
  | zero => omega
  | succ k ih =>
    have hpos : 0 < 1000 ^ k := Nat.pow_pos (by omega)
    unfold groups
    rw [if_neg (Nat.ne_of_gt (Nat.zero_lt_of_lt h))]
    split_ifs
    · exact lt_digits (by decide) 2 _ _ _
    · rcases (Nat.div_le_div_right (c := 1000 ^ k) h.le).lt_or_eq with hlt | heq
      · refine append_lt_append (by simp) (digits_lt ?_ hlt) _ _
        exact Nat.div_lt_of_lt_mul (by rwa [pow_succ] at hm)
      · rw [heq]
        refine List.append_left_lt (ih (Nat.mod_lt _ hpos) ?_)
        have hn := Nat.div_add_mod n (1000 ^ k)
        have hm' := Nat.div_add_mod m (1000 ^ k)
        rw [heq] at hn
        omega

theorem fraction_lt {n m : ℕ} (hm : m < 10 ^ 9) (h : n < m) : fraction n < fraction m := by
  unfold fraction
  rw [if_neg (Nat.ne_of_gt (Nat.zero_lt_of_lt h))]
  split_ifs
  · exact List.cons_lt_cons_iff.mpr (.inl (by decide))
  · exact List.cons_lt_cons_iff.mpr (.inr ⟨rfl, groups_lt hm h⟩)

/-! ## Times -/

/-- The nanoseconds of a day. -/
def nanosPerDay : ℕ := 86400 * 10 ^ 9

/-- The days of 400 years, after which the calendar repeats. -/
def daysPerEra : ℕ := 146097

/-- The text of a year: four digits, or a sign and at least four digits. -/
def yearText (y : ℤ) : List Char :=
  if 0 ≤ y ∧ y < 10 ^ 4 then digits 4 y.toNat
  else (if y < 0 then '-' else '+') :: List.leftpad 4 '0' (Nat.toDigits 10 y.natAbs)

/-- The text of a date in a year, followed by `rest`. -/
def dateText (y : ℤ) (d : Date) (rest : List Char) : List Char :=
  yearText y ++ '-' :: (digits 2 d.month ++ '-' :: (digits 2 d.day ++ rest))

/-- The text of the `s`-th second of a day, followed by `rest`. -/
def clockText (s : ℕ) (rest : List Char) : List Char :=
  digits 2 (s / 3600) ++ ':' :: (digits 2 (s % 3600 / 60) ++ ':' :: (digits 2 (s % 60) ++ rest))

/-- The text of the `r`-th nanosecond of an era. Era 0 begins with year 0. -/
def eraText (era : ℤ) (r : ℕ) : List Char :=
  let d := date (r / nanosPerDay)
  dateText (400 * era + d.year) d
    ('T' :: clockText (r % nanosPerDay / 10 ^ 9) (fraction (r % 10 ^ 9)))

/-- Two fields of fixed width, in the order of their numbers or followed by texts in order. -/
theorem field_lt {w a b : ℕ} {c d : List Char} (hb : b < 10 ^ w) (h : a < b ∨ a = b ∧ c < d) :
    digits w a ++ c < digits w b ++ d := by
  rcases h with hlt | ⟨rfl, hcd⟩
  · exact append_lt_append (by simp) (digits_lt hb hlt) c d
  · exact List.append_left_lt hcd

theorem separated_lt {x : Char} {c d : List Char} (h : c < d) : x :: c < x :: d :=
  List.cons_lt_cons_iff.mpr (.inr ⟨rfl, h⟩)

/-- Years of four digits are written as numbers. -/
theorem yearText_of_nonneg {y : ℤ} (hy : 0 ≤ y) (hlt : y < 10 ^ 4) :
    yearText y = digits 4 y.toNat := if_pos ⟨hy, hlt⟩

theorem yearText_of_neg {y : ℤ} (hy : y < 0) :
    yearText y = '-' :: List.leftpad 4 '0' (Nat.toDigits 10 y.natAbs) := by
  rw [yearText, if_neg (by omega), if_pos hy]

theorem dateText_lt {y y' : ℤ} {a b : Date} {c d : List Char} (hy : 0 ≤ y) (hy' : y' < 10 ^ 4)
    (hmonth : b.month < 10 ^ 2) (hday : b.day < 10 ^ 2) (h : y < y' ∨ y = y' ∧
      (a.month < b.month ∨ a.month = b.month ∧ (a.day < b.day ∨ a.day = b.day ∧ c < d))) :
    dateText y a c < dateText y' b d := by
  unfold dateText
  rw [yearText_of_nonneg hy (by omega), yearText_of_nonneg (by omega) hy']
  refine field_lt (by omega) ?_
  rcases h with hlt | ⟨rfl, hm | ⟨hm, hd⟩⟩
  · exact .inl (by omega)
  · exact .inr ⟨rfl, separated_lt (field_lt hmonth (.inl hm))⟩
  · exact .inr ⟨rfl, separated_lt (field_lt hmonth (.inr ⟨hm, separated_lt (field_lt hday hd)⟩))⟩

theorem clockText_lt {s s' : ℕ} {c d : List Char} (hs' : s' < 86400)
    (h : s < s' ∨ s = s' ∧ c < d) : clockText s c < clockText s' d := by
  unfold clockText
  have hhour : s' / 3600 < 10 ^ 2 := by omega
  have hminute : s' % 3600 / 60 < 10 ^ 2 := by omega
  have hsecond : s' % 60 < 10 ^ 2 := by omega
  refine field_lt hhour ?_
  rcases h with hlt | ⟨rfl, hcd⟩
  · rcases Nat.lt_or_ge (s / 3600) (s' / 3600) with hh | hh
    · exact .inl hh
    · refine .inr ⟨by omega, separated_lt (field_lt hminute ?_)⟩
      rcases Nat.lt_or_ge (s % 3600 / 60) (s' % 3600 / 60) with hm | hm
      · exact .inl hm
      · exact .inr ⟨by omega, separated_lt (field_lt hsecond (.inl (by omega)))⟩
  · exact .inr ⟨rfl, separated_lt (field_lt hminute (.inr ⟨rfl, separated_lt
      (field_lt hsecond (.inr ⟨rfl, hcd⟩))⟩))⟩

/-- The place of a day in its era bounds its year. -/
theorem year_lt {n : ℕ} (h : n < daysPerEra) : (date n).year < 400 := by
  have hday : daysBeforeYear (yearOf n) < daysBeforeYear 400 := (yearOf_spec n).1.trans_lt h
  exact daysBeforeYear_strictMono.lt_iff_lt.mp hday

/-- Later times of an era have later texts. -/
theorem eraText_lt {era : ℤ} (hera : 0 ≤ era) (hlt : era < 25) {r r' : ℕ}
    (hr' : r' < daysPerEra * nanosPerDay) (h : r < r') : eraText era r < eraText era r' := by
  unfold eraText
  dsimp only
  have hyear := year_lt (n := r' / nanosPerDay) (Nat.div_lt_of_lt_mul (by rwa [Nat.mul_comm]))
  obtain ⟨hmonth, hday⟩ := date_bounds (r' / nanosPerDay)
  refine dateText_lt (by omega) (by omega) hmonth hday ?_
  rcases (Nat.div_le_div_right (c := nanosPerDay) h.le).lt_or_eq with hlt | heq
  · rcases date_lt hlt with hy | ⟨hy, hm | ⟨hm, hd⟩⟩
    · exact .inl (by omega)
    · exact .inr ⟨by omega, .inl hm⟩
    · exact .inr ⟨by omega, .inr ⟨hm, .inl hd⟩⟩
  · rw [heq]
    refine .inr ⟨rfl, .inr ⟨rfl, .inr ⟨rfl, separated_lt (clockText_lt ?_ ?_)⟩⟩⟩
    · unfold nanosPerDay
      omega
    · have hrest : r % nanosPerDay < r' % nanosPerDay := by
        unfold nanosPerDay at heq ⊢
        omega
      rcases Nat.lt_or_ge (r % nanosPerDay / 10 ^ 9) (r' % nanosPerDay / 10 ^ 9) with hs | hs
      · exact .inl hs
      · refine .inr ⟨?_, fraction_lt (Nat.mod_lt _ (by decide)) ?_⟩
        · unfold nanosPerDay at hs hrest ⊢
          omega
        · unfold nanosPerDay at hs hrest heq
          omega

/-- Times of a later era have later texts. -/
theorem eraText_lt_of_era_lt {era era' : ℤ} (hera : 0 ≤ era) (hlt : era' < 25) {r r' : ℕ}
    (hr : r < daysPerEra * nanosPerDay) (hr' : r' < daysPerEra * nanosPerDay) (h : era < era') :
    eraText era r < eraText era' r' := by
  unfold eraText
  dsimp only
  have hyear := year_lt (n := r / nanosPerDay) (Nat.div_lt_of_lt_mul (by rwa [Nat.mul_comm]))
  have hyear' := year_lt (n := r' / nanosPerDay) (Nat.div_lt_of_lt_mul (by rwa [Nat.mul_comm]))
  obtain ⟨hmonth, hday⟩ := date_bounds (r' / nanosPerDay)
  exact dateText_lt (by omega) (by omega) hmonth hday (.inl (by omega))

/-! ## Times before and after 1970 -/

/-- The nanoseconds from the beginning of year 0 to the beginning of 1970. -/
def epoch : ℕ := daysBeforeYear 1970 * nanosPerDay

/-- The year of the time has four digits. -/
def InRange (t : ℤ) : Prop := 0 ≤ t + epoch ∧ t + epoch < daysBeforeYear 10000 * nanosPerDay

instance (t : ℤ) : Decidable (InRange t) := inferInstanceAs (Decidable (_ ∧ _))

/-- The text of a time, in nanoseconds from 1970. -/
def rfc3339 (t : ℤ) : String :=
  let n := t + epoch
  let era := (daysPerEra * nanosPerDay : ℕ)
  String.ofList (eraText (n / era) (n % era).toNat)

/-- Where the year has four digits, the era is one of the first 25. -/
theorem InRange.era {t : ℤ} (h : InRange t) : 0 ≤ (t + epoch) / (daysPerEra * nanosPerDay : ℕ) ∧
    (t + epoch) / (daysPerEra * nanosPerDay : ℕ) < 25 := by
  obtain ⟨hpos, hlt⟩ := h
  have hend : daysBeforeYear 10000 * nanosPerDay = 25 * (daysPerEra * nanosPerDay) := by decide
  refine ⟨Int.ediv_nonneg hpos (Int.natCast_nonneg _), Int.ediv_lt_of_lt_mul (by decide) ?_⟩
  have hlt : t + epoch < (daysBeforeYear 10000 * nanosPerDay : ℕ) := by exact_mod_cast hlt
  rw [hend] at hlt
  exact_mod_cast hlt

/-- The place of a time in its era. -/
theorem place_lt (n : ℤ) :
    (n % (daysPerEra * nanosPerDay : ℕ)).toNat < daysPerEra * nanosPerDay := by
  have hlt := Int.emod_lt_of_pos n (b := (daysPerEra * nanosPerDay : ℕ)) (by decide)
  have hpos := Int.emod_nonneg n (b := (daysPerEra * nanosPerDay : ℕ)) (by decide)
  omega

/-- Later times have later texts, until the year 10000. -/
theorem rfc3339_lt {t t' : ℤ} (ht : InRange t) (ht' : InRange t') (h : t < t') :
    rfc3339 t < rfc3339 t' := by
  unfold rfc3339
  dsimp only
  rw [String.lt_iff_toList_lt, String.toList_ofList, String.toList_ofList]
  have hle : (t + epoch) / (daysPerEra * nanosPerDay : ℕ) ≤
      (t' + epoch) / (daysPerEra * nanosPerDay : ℕ) :=
    Int.ediv_le_ediv (by decide) (by omega)
  rcases hle.lt_or_eq with hlt | heq
  · exact eraText_lt_of_era_lt ht.era.1 ht'.era.2 (place_lt _) (place_lt _) hlt
  · rw [heq]
    refine eraText_lt ht'.era.1 ht'.era.2 (place_lt _) ?_
    have hn := Int.mul_ediv_add_emod (t + epoch) (daysPerEra * nanosPerDay : ℕ)
    have hn' := Int.mul_ediv_add_emod (t' + epoch) (daysPerEra * nanosPerDay : ℕ)
    have hpos := Int.emod_nonneg (t + epoch) (b := (daysPerEra * nanosPerDay : ℕ)) (by decide)
    rw [heq] at hn
    refine (Int.toNat_lt_toNat ?_).mpr ?_
    · omega
    · omega

/-- Times before year 0 have texts with a sign, which come before all digits. -/
theorem rfc3339_lt_of_neg {t t' : ℤ} (ht : t + epoch < 0) (ht' : InRange t') :
    rfc3339 t < rfc3339 t' := by
  unfold rfc3339
  dsimp only
  rw [String.lt_iff_toList_lt, String.toList_ofList, String.toList_ofList]
  have hera : (t + epoch) / (daysPerEra * nanosPerDay : ℕ) < 0 :=
    Int.ediv_neg_of_neg_of_pos ht (by decide)
  have hyear := year_lt (n := ((t + epoch) % (daysPerEra * nanosPerDay : ℕ)).toNat / nanosPerDay)
    (Nat.div_lt_of_lt_mul (by rw [Nat.mul_comm]; exact place_lt _))
  have hyear' := year_lt (n := ((t' + epoch) % (daysPerEra * nanosPerDay : ℕ)).toNat / nanosPerDay)
    (Nat.div_lt_of_lt_mul (by rw [Nat.mul_comm]; exact place_lt _))
  obtain ⟨hpos, hlt⟩ := ht'.era
  unfold eraText dateText
  dsimp only
  rw [yearText_of_neg (by omega), yearText_of_nonneg (by omega) (by omega)]
  exact lt_digits (by decide) 3 _ _ _

/-- **Timestamps.** Texts are in the order of their times, where the first year has four digits and
the second one is not after 9999. -/
theorem rfc3339_lt_iff {t t' : ℤ} (ht : InRange t)
    (ht' : t' + epoch < daysBeforeYear 10000 * nanosPerDay) :
    rfc3339 t < rfc3339 t' ↔ t < t' := by
  rcases lt_or_ge (t' + epoch) 0 with hneg | hpos
  · have := ht.1
    exact iff_of_false (rfc3339_lt_of_neg hneg ht).asymm (by omega)
  · refine ⟨fun h => ?_, rfc3339_lt ht ⟨hpos, ht'⟩⟩
    rcases lt_trichotomy t t' with hlt | rfl | hgt
    · exact hlt
    · exact absurd h (lt_irrefl _)
    · exact absurd h (rfc3339_lt ⟨hpos, ht'⟩ ht hgt).asymm

example : rfc3339 0 = "1970-01-01T00:00:00+00:00" := by decide +kernel

example : rfc3339 1709210096789000000 = "2024-02-29T12:34:56.789+00:00" := by decide +kernel

end Timestamp
