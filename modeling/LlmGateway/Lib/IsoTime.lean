import Mathlib.Tactic.Common
import Mathlib.Tactic.Ring
import Mathlib.Data.String.Basic
import Mathlib.Data.Rat.Floor

/-!
# ISO timestamps and their order as texts

Time values are integers, milliseconds since 1970-01-01T00:00:00.000Z.

* `isoText` — the text `Date.prototype.toISOString` gives, `toISOString` its partial form (`none`: RangeError);
* `isoText_lt_iff` — on two texts of the same shape the order of the texts is the order of the instants;
* `readIso`, `readIso_of_toISOString` — the format read back;
* `DateParse` — an engine's `Date.parse`: implementation-defined beyond this format, which it has to read back.
-/

namespace LlmGateway.Lib.IsoTime

/-! ## The calendar -/

/-- A day in the March-based calendar: the year, and the day of that year counted from 1 March. -/
structure MarchDay where
  year : ℤ
  day : ℤ

/-- The day `z` days after 0000-03-01. -/
def marchDay (z : ℤ) : MarchDay :=
  let r := z % 146097
  let n100 := min 3 (r / 36524)
  let r1 := r - 36524 * n100
  let r2 := r1 % 1461
  let n1 := min 3 (r2 / 365)
  ⟨400 * (z / 146097) + 100 * n100 + 4 * (r1 / 1461) + n1, r2 - 365 * n1⟩

/-- A date of the proleptic Gregorian calendar. -/
structure Civil where
  year : ℤ
  month : ℤ
  day : ℤ

/-- The months since March of a day of the March-based year. -/
def marchMonth (doy : ℤ) : ℤ := (5 * doy + 2) / 153

/-- The date `d` days after 1970-01-01. -/
def civil (d : ℤ) : Civil :=
  let m := marchDay (d + 719468)
  let mp := marchMonth m.day
  { year := if mp < 10 then m.year else m.year + 1
    month := if mp < 10 then mp + 3 else mp - 9
    day := m.day - (153 * mp + 2) / 5 + 1 }

theorem marchDay_bounds (z : ℤ) : 0 ≤ (marchDay z).day ∧ (marchDay z).day ≤ 365 := by
  simp only [marchDay]
  omega

/-- The cycles add up to the day number. -/
theorem marchDay_spec (z : ℤ) :
    365 * (marchDay z).year + (marchDay z).year / 4 - (marchDay z).year / 100 + (marchDay z).year / 400 +
      (marchDay z).day = z := by
  simp only [marchDay]
  generalize hr : z % 146097 = r
  generalize hb : min 3 (r / 36524) = b
  generalize hr1 : r - 36524 * b = r1
  generalize hr2 : r1 % 1461 = r2
  generalize he : min 3 (r2 / 365) = e
  generalize hc : r1 / 1461 = c
  generalize ha : z / 146097 = a
  have hb' : 0 ≤ b ∧ b ≤ 3 ∧ 0 ≤ r1 ∧ r1 ≤ 36524 := by omega
  have hc' : 0 ≤ c ∧ c ≤ 24 := by omega
  have he' : 0 ≤ e ∧ e ≤ 3 := by omega
  have h4 : (400 * a + 100 * b + 4 * c + e) / 4 = 100 * a + 25 * b + c := by omega
  have h100 : (400 * a + 100 * b + 4 * c + e) / 100 = 4 * a + b := by omega
  have h400 : (400 * a + 100 * b + 4 * c + e) / 400 = a := by omega
  rw [h4, h100, h400]
  omega

/-- A later day has a later March-based year, or the same one and a later day in it. -/
theorem marchDay_lt {z w : ℤ} (h : z < w) :
    (marchDay z).year < (marchDay w).year ∨
      (marchDay z).year = (marchDay w).year ∧ (marchDay z).day < (marchDay w).day := by
  have hz := marchDay_spec z
  have hw := marchDay_spec w
  have bz := marchDay_bounds z
  have bw := marchDay_bounds w
  rcases lt_trichotomy (marchDay z).year (marchDay w).year with hy | hy | hy
  · exact Or.inl hy
  · refine Or.inr ⟨hy, ?_⟩
    rw [hy] at hz
    omega
  · exfalso
    omega

/-- The months since year 0, which orders the dates of different months. -/
def Civil.monthIndex (c : Civil) : ℤ := 12 * c.year + c.month

theorem civil_bounds (d : ℤ) :
    1 ≤ (civil d).month ∧ (civil d).month ≤ 12 ∧ 1 ≤ (civil d).day ∧ (civil d).day ≤ 31 := by
  have h := marchDay_bounds (d + 719468)
  simp only [civil, marchMonth]
  omega

/-- **Dates are ordered as their days are.** -/
theorem civil_lt {d e : ℤ} (h : d < e) :
    (civil d).monthIndex < (civil e).monthIndex ∨
      (civil d).monthIndex = (civil e).monthIndex ∧ (civil d).day < (civil e).day := by
  have hlt := marchDay_lt (show d + 719468 < e + 719468 by omega)
  have bd := marchDay_bounds (d + 719468)
  have be := marchDay_bounds (e + 719468)
  simp only [civil, marchMonth, Civil.monthIndex]
  generalize marchDay (d + 719468) = m at *
  generalize marchDay (e + 719468) = n at *
  omega

/-- The day number of a date. -/
def dayOfCivil (c : Civil) : ℤ :=
  let y := if 2 < c.month then c.year else c.year - 1
  let mp := if 2 < c.month then c.month - 3 else c.month + 9
  365 * y + y / 4 - y / 100 + y / 400 + ((153 * mp + 2) / 5 + c.day - 1) - 719468

theorem dayOfCivil_civil (d : ℤ) : dayOfCivil (civil d) = d := by
  have hs := marchDay_spec (d + 719468)
  have hb := marchDay_bounds (d + 719468)
  have hmp : 0 ≤ marchMonth (marchDay (d + 719468)).day ∧ marchMonth (marchDay (d + 719468)).day ≤ 11 := by
    simp only [marchMonth]
    omega
  have hy : (if 2 < (civil d).month then (civil d).year else (civil d).year - 1) =
      (marchDay (d + 719468)).year := by
    by_cases h : marchMonth (marchDay (d + 719468)).day < 10 <;> simp only [civil, h, if_true, if_false]
    · rw [if_pos (by omega)]
    · rw [if_neg (by omega)]
      omega
  have hm : (if 2 < (civil d).month then (civil d).month - 3 else (civil d).month + 9) =
      marchMonth (marchDay (d + 719468)).day := by
    by_cases h : marchMonth (marchDay (d + 719468)).day < 10 <;> simp only [civil, h, if_true, if_false]
    · rw [if_pos (by omega)]
      omega
    · rw [if_neg (by omega)]
      omega
  have hd : (153 * marchMonth (marchDay (d + 719468)).day + 2) / 5 + (civil d).day - 1 =
      (marchDay (d + 719468)).day := by
    simp only [civil]
    omega
  simp only [dayOfCivil, hy, hm, hd]
  omega

/-! ## Digits of fixed width -/

/-- The character of a digit. -/
def digitChar (n : ℕ) : Char := Char.ofNat (48 + n)

/-- The last `w` decimal digits of `n`, the most significant first. -/
def digits : ℕ → ℕ → List Char
  | 0, _ => []
  | w + 1, n => digitChar (n / 10 ^ w) :: digits w (n % 10 ^ w)

theorem digitChar_lt : ∀ a < 10, ∀ b < 10, (digitChar a < digitChar b ↔ a < b) := by decide

theorem digitChar_inj : ∀ a < 10, ∀ b < 10, (digitChar a = digitChar b ↔ a = b) := by decide

/-- Numbers are ordered by their quotients, then by their remainders. -/
theorem lt_iff_div_mod (p n m : ℕ) : n < m ↔ n / p < m / p ∨ n / p = m / p ∧ n % p < m % p := by
  rcases Nat.eq_zero_or_pos p with rfl | hp
  · simp
  have en := Nat.div_add_mod n p
  have em := Nat.div_add_mod m p
  have ln := Nat.mod_lt n hp
  have lm := Nat.mod_lt m hp
  rcases lt_trichotomy (n / p) (m / p) with hlt | heq | hgt
  · have := Nat.mul_le_mul_left p (Nat.succ_le_of_lt hlt)
    rw [Nat.mul_succ] at this
    omega
  · rw [heq] at en ⊢
    omega
  · have := Nat.mul_le_mul_left p (Nat.succ_le_of_lt hgt)
    rw [Nat.mul_succ] at this
    omega

theorem eq_iff_div_mod (p n m : ℕ) : n = m ↔ n / p = m / p ∧ n % p = m % p := by
  constructor
  · rintro rfl
    exact ⟨rfl, rfl⟩
  · rintro ⟨hd, hm⟩
    rw [← Nat.div_add_mod n p, hd, hm, Nat.div_add_mod]

/-- Two texts that begin with a number of the same width: the numbers decide, then the rest. -/
theorem digits_append_lt_iff {w n m : ℕ} (hn : n < 10 ^ w) (hm : m < 10 ^ w) (x y : List Char) :
    digits w n ++ x < digits w m ++ y ↔ n < m ∨ n = m ∧ x < y := by
  induction w generalizing n m with
  | zero =>
    obtain rfl : n = 0 := by simpa using hn
    obtain rfl : m = 0 := by simpa using hm
    simp [digits]
  | succ w ih =>
    rw [pow_succ] at hn hm
    have hp : 0 < 10 ^ w := by positivity
    have hn' : n / 10 ^ w < 10 := Nat.div_lt_of_lt_mul hn
    have hm' : m / 10 ^ w < 10 := Nat.div_lt_of_lt_mul hm
    simp only [digits, List.cons_append, List.cons_lt_cons_iff, digitChar_lt _ hn' _ hm',
      digitChar_inj _ hn' _ hm', ih (Nat.mod_lt n hp) (Nat.mod_lt m hp)]
    rw [lt_iff_div_mod (10 ^ w) n m, eq_iff_div_mod (10 ^ w) n m]
    tauto

/-! ## The text of an instant -/

/-- The year of an ISO text: four digits, or a sign and six. -/
def yearText (y : ℤ) : List Char :=
  if 0 ≤ y ∧ y ≤ 9999 then digits 4 y.toNat else (if y < 0 then '-' else '+') :: digits 6 y.natAbs

/-- `YYYY-MM-DD` followed by `rest`. -/
def dateText (c : Civil) (rest : List Char) : List Char :=
  yearText c.year ++ '-' :: (digits 2 c.month.toNat ++ '-' :: (digits 2 c.day.toNat ++ rest))

/-- `THH:mm:ss.sssZ`, of the milliseconds since midnight. -/
def clockText (ms : ℕ) : List Char :=
  'T' :: (digits 2 (ms / 3600000) ++ ':' :: (digits 2 (ms / 60000 % 60) ++ ':' ::
    (digits 2 (ms / 1000 % 60) ++ '.' :: (digits 3 (ms % 1000) ++ ['Z']))))

def isoChars (t : ℤ) : List Char := dateText (civil (t / 86400000)) (clockText (t % 86400000).toNat)

/-- The text `toISOString` gives a valid time value. -/
def isoText (t : ℤ) : String := String.ofList (isoChars t)

/-- The largest magnitude of a valid time value. -/
def maxTime : ℤ := 8640000000000000

/-- `new Date(t).toISOString()`; `none` is the RangeError of an invalid date. -/
def toISOString (t : ℤ) : Option String := if |t| ≤ maxTime then some (isoText t) else none

theorem clockText_lt {m n : ℕ} (h : m < n) (hn : n < 86400000) : clockText m < clockText n := by
  simp only [clockText, List.cons_lt_cons_self]
  rw [digits_append_lt_iff (by omega) (by omega), List.cons_lt_cons_self,
    digits_append_lt_iff (by omega) (by omega), List.cons_lt_cons_self,
    digits_append_lt_iff (by omega) (by omega), List.cons_lt_cons_self,
    digits_append_lt_iff (by omega) (by omega)]
  simp only [lt_self_iff_false, and_false, or_false]
  omega

/-! ## The order of the texts -/

/-- 0000-01-01T00:00:00.000Z. -/
def yearZero : ℤ := -62167219200000

/-- +010000-01-01T00:00:00.000Z. -/
def year10000 : ℤ := 253402300800000

/-- The years written with four digits. -/
def Narrow (t : ℤ) : Prop := yearZero ≤ t ∧ t < year10000

instance (t : ℤ) : Decidable (Narrow t) := inferInstanceAs (Decidable (_ ∧ _))

theorem civil_year_mono {d e : ℤ} (h : d ≤ e) : (civil d).year ≤ (civil e).year := by
  rcases h.lt_or_eq with hlt | rfl
  · have := civil_lt hlt
    have hd := civil_bounds d
    have he := civil_bounds e
    simp only [Civil.monthIndex] at this
    omega
  · exact le_rfl

theorem civil_year_nonneg_iff (d : ℤ) : 0 ≤ (civil d).year ↔ -719528 ≤ d := by
  have h0 : (civil (-719528)).year = 0 := by decide
  have h1 : (civil (-719529)).year = -1 := by decide
  constructor
  · intro h
    by_contra hc
    have := civil_year_mono (show d ≤ -719529 by omega)
    omega
  · intro h
    have := civil_year_mono h
    omega

theorem civil_year_le_iff (d : ℤ) : (civil d).year ≤ 9999 ↔ d < 2932897 := by
  have h0 : (civil 2932896).year = 9999 := by decide
  have h1 : (civil 2932897).year = 10000 := by decide
  constructor
  · intro h
    by_contra hc
    have := civil_year_mono (show 2932897 ≤ d by omega)
    omega
  · intro h
    have := civil_year_mono (show d ≤ 2932896 by omega)
    omega

theorem civil_year_lt (d : ℤ) (h : d ≤ 100000000) : (civil d).year < 1000000 := by
  have h0 : (civil 100000000).year = 275760 := by decide
  have := civil_year_mono h
  omega

theorem narrow_iff (t : ℤ) : Narrow t ↔ 0 ≤ (civil (t / 86400000)).year ∧ (civil (t / 86400000)).year ≤ 9999 := by
  rw [civil_year_nonneg_iff, civil_year_le_iff]
  simp only [Narrow, yearZero, year10000]
  omega

/-- After equal years, the month, the day and the clock decide. -/
theorem isoChars_tail_lt {t u : ℤ} (h : t < u) (hy : (civil (t / 86400000)).year = (civil (u / 86400000)).year)
    (p : List Char) :
    p ++ '-' :: (digits 2 (civil (t / 86400000)).month.toNat ++ '-' ::
        (digits 2 (civil (t / 86400000)).day.toNat ++ clockText (t % 86400000).toNat)) <
      p ++ '-' :: (digits 2 (civil (u / 86400000)).month.toNat ++ '-' ::
        (digits 2 (civil (u / 86400000)).day.toNat ++ clockText (u % 86400000).toNat)) := by
  have bt := civil_bounds (t / 86400000)
  have bu := civil_bounds (u / 86400000)
  refine List.append_left_lt ?_
  rw [List.cons_lt_cons_self, digits_append_lt_iff (by omega) (by omega), List.cons_lt_cons_self,
    digits_append_lt_iff (by omega) (by omega)]
  rcases (show t / 86400000 ≤ u / 86400000 by omega).lt_or_eq with hd | hd
  · have := civil_lt hd
    simp only [Civil.monthIndex, hy] at this
    omega
  · rw [hd]
    exact Or.inr ⟨rfl, Or.inr ⟨rfl, clockText_lt (by omega) (by omega)⟩⟩

/-- A later instant of the four-digit years has a greater text. -/
theorem isoChars_lt {t u : ℤ} (ht : Narrow t) (hu : Narrow u) (h : t < u) : isoChars t < isoChars u := by
  have nt := (narrow_iff t).1 ht
  have nu := (narrow_iff u).1 hu
  have hmono := civil_year_mono (show t / 86400000 ≤ u / 86400000 by omega)
  simp only [isoChars, dateText, yearText, if_pos nt, if_pos nu]
  rcases hmono.lt_or_eq with hy | hy
  · rw [digits_append_lt_iff (by omega) (by omega)]
    exact Or.inl (by omega)
  · rw [hy]
    exact isoChars_tail_lt h hy _

/-- **Within the four-digit years the texts are ordered as the instants are.** -/
theorem isoText_lt_iff {t u : ℤ} (ht : Narrow t) (hu : Narrow u) : isoText t < isoText u ↔ t < u := by
  have key : ∀ {t u : ℤ}, Narrow t → Narrow u → t < u → isoText t < isoText u := by
    intro t u ht hu h
    rw [isoText, isoText, String.lt_iff_toList_lt, String.toList_ofList, String.toList_ofList]
    exact isoChars_lt ht hu h
  refine ⟨fun h => ?_, key ht hu⟩
  by_contra hc
  rcases (not_lt.1 hc).lt_or_eq with hlt | rfl
  · exact lt_asymm h (key hu ht hlt)
  · exact lt_irrefl _ h

theorem isoText_inj {t u : ℤ} (ht : Narrow t) (hu : Narrow u) (h : isoText t = isoText u) : t = u := by
  rcases lt_trichotomy t u with hlt | rfl | hlt
  · exact absurd h ((isoText_lt_iff ht hu).2 hlt).ne
  · rfl
  · exact absurd h ((isoText_lt_iff hu ht).2 hlt).ne'

theorem head_digits_append (w n : ℕ) (x : List Char) (hn : n < 10 ^ (w + 1)) :
    ∃ a < 10, ∃ y, digits (w + 1) n ++ x = digitChar a :: y :=
  ⟨n / 10 ^ w, Nat.div_lt_of_lt_mul (by rwa [pow_succ] at hn), _, rfl⟩

theorem sign_lt_digitChar : ∀ a < 10, '+' < digitChar a ∧ '-' < digitChar a := by decide

/-- **A text with a signed year is before every text with a four-digit one**: the sign comes first. -/
theorem isoText_signed_lt {t u : ℤ} (ht : ¬Narrow t) (hu : Narrow u) : isoText t < isoText u := by
  have nu := (narrow_iff u).1 hu
  rw [narrow_iff] at ht
  rw [isoText, isoText, String.lt_iff_toList_lt, String.toList_ofList, String.toList_ofList]
  simp only [isoChars, dateText, yearText, if_pos nu, if_neg ht]
  obtain ⟨a, ha, y, hy⟩ := head_digits_append 3 (civil (u / 86400000)).year.toNat
    ('-' :: (digits 2 (civil (u / 86400000)).month.toNat ++ '-' ::
      (digits 2 (civil (u / 86400000)).day.toNat ++ clockText (u % 86400000).toNat))) (by omega)
  rw [hy, List.cons_append, List.cons_lt_cons_iff]
  split
  · exact Or.inl (sign_lt_digitChar a ha).2
  · exact Or.inl (sign_lt_digitChar a ha).1

/-- A later instant from year 10000 on has a greater text. -/
theorem isoText_lt_of_wide {t u : ℤ} (ht : year10000 ≤ t) (hu : u ≤ maxTime) (h : t < u) :
    isoText t < isoText u := by
  have yt : ¬(civil (t / 86400000)).year ≤ 9999 := by
    rw [civil_year_le_iff]
    simp only [year10000] at ht
    omega
  have yu := civil_year_lt (u / 86400000) (by simp only [maxTime] at hu; omega)
  have hmono := civil_year_mono (show t / 86400000 ≤ u / 86400000 by omega)
  rw [isoText, isoText, String.lt_iff_toList_lt, String.toList_ofList, String.toList_ofList]
  simp only [isoChars, dateText, yearText]
  rw [if_neg (by omega), if_neg (by omega), if_neg (by omega), if_neg (by omega), List.cons_append,
    List.cons_append, List.cons_lt_cons_self]
  rcases hmono.lt_or_eq with hy | hy
  · rw [digits_append_lt_iff (by omega) (by omega)]
    exact Or.inl (by omega)
  · rw [hy]
    exact isoChars_tail_lt h hy _

theorem isoText_lt_iff_of_wide {t u : ℤ} (ht : year10000 ≤ t) (hu : year10000 ≤ u) (mt : t ≤ maxTime)
    (mu : u ≤ maxTime) : isoText t < isoText u ↔ t < u := by
  refine ⟨fun h => ?_, isoText_lt_of_wide ht mu⟩
  by_contra hc
  rcases (not_lt.1 hc).lt_or_eq with hlt | rfl
  · exact lt_asymm h (isoText_lt_of_wide hu mt hlt)
  · exact lt_irrefl _ h

/-! ## Reading the format back -/

/-- The value of a digit. -/
def digitValue (c : Char) : Option ℕ := if '0' ≤ c ∧ c ≤ '9' then some (c.toNat - 48) else none

/-- Read `w` digits off the front. -/
def readDigits : ℕ → List Char → Option (ℕ × List Char)
  | 0, cs => some (0, cs)
  | _ + 1, [] => none
  | w + 1, c :: cs => do
    let d ← digitValue c
    let (n, rest) ← readDigits w cs
    return (d * 10 ^ w + n, rest)

/-- Read the character `c` off the front. -/
def readChar (c : Char) : List Char → Option (List Char)
  | [] => none
  | d :: cs => if d = c then some cs else none

/-- Read a year of four digits, or of a sign and six. -/
def readYear : List Char → Option (ℤ × List Char)
  | '+' :: cs => (readDigits 6 cs).map fun (n, rest) => ((n : ℤ), rest)
  | '-' :: cs => (readDigits 6 cs).map fun (n, rest) => (-(n : ℤ), rest)
  | cs => (readDigits 4 cs).map fun (n, rest) => ((n : ℤ), rest)

/-- Read `YYYY-MM-DD` off the front. -/
def readDate (cs : List Char) : Option (Civil × List Char) := do
  let (year, cs) ← readYear cs
  let cs ← readChar '-' cs
  let (month, cs) ← readDigits 2 cs
  let cs ← readChar '-' cs
  let (day, cs) ← readDigits 2 cs
  return (⟨year, month, day⟩, cs)

/-- Read all of `THH:mm:ss.sssZ`. -/
def readClock (cs : List Char) : Option ℕ := do
  let cs ← readChar 'T' cs
  let (hours, cs) ← readDigits 2 cs
  let cs ← readChar ':' cs
  let (minutes, cs) ← readDigits 2 cs
  let cs ← readChar ':' cs
  let (seconds, cs) ← readDigits 2 cs
  let cs ← readChar '.' cs
  let (millis, cs) ← readDigits 3 cs
  guard (cs = ['Z'])
  return 3600000 * hours + 60000 * minutes + 1000 * seconds + millis

/-- Read a whole text, as milliseconds since 1970. -/
def readFields (cs : List Char) : Option ℤ := do
  let (date, cs) ← readDate cs
  let ms ← readClock cs
  return 86400000 * dayOfCivil date + ms

/-- The instant whose `toISOString` is the text. -/
def readIso (s : String) : Option ℤ := (readFields s.toList).filter fun t => toISOString t == some s

theorem digitValue_digitChar : ∀ a < 10, digitValue (digitChar a) = some a := by decide

@[simp] theorem readDigits_digits {w n : ℕ} (hn : n < 10 ^ w) (x : List Char) :
    readDigits w (digits w n ++ x) = some (n, x) := by
  induction w generalizing n with
  | zero =>
    obtain rfl : n = 0 := by simpa using hn
    rfl
  | succ w ih =>
    rw [pow_succ] at hn
    have hp : 0 < 10 ^ w := by positivity
    have hd := digitValue_digitChar _ (Nat.div_lt_of_lt_mul hn : n / 10 ^ w < 10)
    simp only [digits, List.cons_append, readDigits, hd, ih (Nat.mod_lt n hp), Option.bind_eq_bind,
      Option.bind_some]
    rw [mul_comm, Nat.div_add_mod]
    rfl

@[simp] theorem readChar_cons (c : Char) (cs : List Char) : readChar c (c :: cs) = some cs := by simp [readChar]

theorem readYear_yearText {y : ℤ} (hy : y.natAbs < 1000000) (x : List Char) :
    readYear (yearText y ++ x) = some (y, x) := by
  unfold yearText
  split
  · rename_i h
    have hn : y.toNat < 10 ^ 4 := by omega
    obtain ⟨a, ha, z, hz⟩ := head_digits_append 3 y.toNat x hn
    have hne : ∀ a < 10, digitChar a ≠ '+' ∧ digitChar a ≠ '-' := by decide
    have hread := readDigits_digits hn x
    rw [hz] at hread ⊢
    rw [readYear, hread]
    · simp only [Option.map_some, Int.toNat_of_nonneg h.1]
    · intro cs h; exact (hne a ha).1 (List.cons.inj h).1
    · intro cs h; exact (hne a ha).2 (List.cons.inj h).1
  · have hread := readDigits_digits (w := 6) (show y.natAbs < 10 ^ 6 by omega) x
    split
    · have hneg : -(y.natAbs : ℤ) = y := by omega
      rw [List.cons_append, readYear, hread]
      simp only [Option.map_some, hneg]
    · have hpos : (y.natAbs : ℤ) = y := by omega
      rw [List.cons_append, readYear, hread]
      simp only [Option.map_some, hpos]

theorem civil_year_gt (d : ℤ) (h : -100000000 ≤ d) : -1000000 < (civil d).year := by
  have h0 : (civil (-100000000)).year = -271821 := by decide
  have := civil_year_mono h
  omega

theorem readDate_dateText {c : Civil} (hy : c.year.natAbs < 1000000) (hm : 1 ≤ c.month ∧ c.month ≤ 12)
    (hd : 1 ≤ c.day ∧ c.day ≤ 31) (x : List Char) : readDate (dateText c x) = some (c, x) := by
  have h1 : c.month.toNat < 10 ^ 2 := by omega
  have h2 : c.day.toNat < 10 ^ 2 := by omega
  simp only [readDate, dateText, readYear_yearText hy, readDigits_digits h1, readDigits_digits h2, readChar_cons,
    Option.bind_eq_bind, Option.bind_some, Option.pure_def, Int.toNat_of_nonneg (show 0 ≤ c.month by omega),
    Int.toNat_of_nonneg (show 0 ≤ c.day by omega)]

theorem readClock_clockText {ms : ℕ} (h : ms < 86400000) : readClock (clockText ms) = some ms := by
  have h1 : ms / 3600000 < 10 ^ 2 := by omega
  have h2 : ms / 60000 % 60 < 10 ^ 2 := by omega
  have h3 : ms / 1000 % 60 < 10 ^ 2 := by omega
  have h4 : ms % 1000 < 10 ^ 3 := by omega
  simp only [readClock, clockText, readDigits_digits h1, readDigits_digits h2, readDigits_digits h3,
    readDigits_digits h4, readChar_cons, Option.bind_eq_bind, Option.bind_some, guard_true, Option.pure_def]
  congr 1
  omega

theorem readFields_isoChars {t : ℤ} (ht : |t| ≤ maxTime) : readFields (isoChars t) = some t := by
  have hb := abs_le.1 ht
  simp only [maxTime] at hb
  have hc := civil_bounds (t / 86400000)
  have y1 := civil_year_lt (t / 86400000) (by omega)
  have y2 := civil_year_gt (t / 86400000) (by omega)
  have hms : (t % 86400000).toNat < 86400000 := by omega
  rw [isoChars, readFields, readDate_dateText (by omega) ⟨hc.1, hc.2.1⟩ hc.2.2]
  simp only [Option.bind_eq_bind, Option.bind_some, readClock_clockText hms, dayOfCivil_civil, Option.pure_def]
  congr 1
  omega

/-- **Round trip.** What `toISOString` writes is read back. -/
theorem readIso_of_toISOString {t : ℤ} {s : String} (h : toISOString t = some s) : readIso s = some t := by
  have ht : |t| ≤ maxTime := by
    by_contra hc
    simp [toISOString, hc] at h
  have hs : isoText t = s := by simpa [toISOString, ht] using h
  have hread := readFields_isoChars ht
  rw [readIso, ← hs, isoText, String.toList_ofList, hread]
  simp [Option.filter, toISOString, ht, isoText]

/-! ## `Date.parse` -/

/-- An engine's `Date.parse`.  Which other texts it reads is up to the engine; it reads the ISO format back. -/
structure DateParse where
  parse : String → Option ℤ
  parse_toISOString : ∀ t s, toISOString t = some s → parse s = some t

/-- The engine that reads nothing but the ISO format. -/
def isoDateParse : DateParse := ⟨readIso, fun _ _ => readIso_of_toISOString⟩

/-- The integral part, rounded toward zero: what `new Date` keeps of a number. -/
def trunc (q : ℚ) : ℤ := if 0 ≤ q then ⌊q⌋ else ⌈q⌉

@[simp] theorem trunc_intCast (n : ℤ) : trunc n = n := by simp [trunc]

end LlmGateway.Lib.IsoTime
