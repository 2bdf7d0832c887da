import Hplsp.TimeUtil

/-! The text of a time: it decodes to the time's fields, and texts are ordered as the times are. -/

namespace Hplsp

open Outcome Printf

/-- The year is one of those that `YEAR` has a text for. -/
def Tm.Covered (t : Tm) : Prop := 2015 ≤ t.tm_year + 1900 ∧ t.tm_year + 1900 ≤ 2049

instance (t : Tm) : Decidable t.Covered := inferInstanceAs (Decidable (_ ∧ _))

/-- The ranges of the fields, without leap seconds. -/
structure Tm.InRange (t : Tm) : Prop where
  mon : t.tm_mon ≤ 11
  mday : 1 ≤ t.tm_mday ∧ t.tm_mday ≤ 31
  hour : t.tm_hour ≤ 23
  min : t.tm_min ≤ 59
  sec : t.tm_sec ≤ 59

/-- The fields in the order in which they are compared. -/
def Tm.key (t : Tm) : List Nat :=
  [t.tm_year, t.tm_mon, t.tm_mday, t.tm_hour, t.tm_min, t.tm_sec]

/-- What a zone with a fixed offset makes of the seconds. -/
structure FixedOffset (localtime : Nat → Tm) : Prop where
  inRange : ∀ sec, (localtime sec).Covered → (localtime sec).InRange
  ordered : ∀ a b, (localtime a).Covered → (localtime b).Covered →
    compare (localtime a).key (localtime b).key = compare a b

namespace Time

/-- The number in the first `n` characters, and what follows the separator behind them. -/
def field (n : Nat) (text : List UInt8) : Nat × List UInt8 :=
  (ofDecimal (text.take n), text.drop (n + 1))

/-- The fields that a text shows, and the microseconds. -/
def parse (text : List UInt8) : Tm × Nat :=
  let year := field 4 text
  let mon := field 2 year.2
  let mday := field 2 mon.2
  let hour := field 2 mday.2
  let min := field 2 hour.2
  let sec := field 2 min.2
  let usec := field 6 sec.2
  (⟨year.1 - 1900, mon.1 - 1, mday.1, hour.1, min.1, sec.1⟩, usec.1)

variable {t t' : Tm} {i usec : Nat}

/-- The text of a number in two digits. -/
def twoDigits (i : Nat) : List UInt8 := padded 2 (decimal i)

/-- The 27 characters for the fields and the microseconds. -/
def text (t : Tm) (usec : Nat) : List UInt8 :=
  padded 4 (decimal (t.tm_year + 1900)) ++ chr '-' :: (twoDigits (t.tm_mon + 1) ++
    chr '-' :: (twoDigits t.tm_mday ++ chr '[' :: (twoDigits t.tm_hour ++
    chr ':' :: (twoDigits t.tm_min ++ chr ':' :: (twoDigits t.tm_sec ++
    chr '.' :: (micros usec ++ [chr ']']))))))

theorem number_eq (h : i < 60) : number i = .ok (twoDigits i) := by
  simp [number, NUMBER, h, twoDigits]

theorem year_eq (h : t.Covered) : year t = .ok (padded 4 (decimal (t.tm_year + 1900))) := by
  have hyears : ∀ i < 35, YEAR[i]? = some (padded 4 (decimal (2015 + i))) := by decide
  obtain ⟨hge, hle⟩ := h
  have hyear := hyears (t.tm_year + 1900 - 2015) (by omega)
  rw [Nat.add_sub_cancel' hge] at hyear
  rw [year, if_neg (by omega), hyear]

/-- `FormatTime` on fields in range. -/
theorem formatTime_text {localtime : Nat → Tm} {t : Time}
    (hcovered : (localtime t.seconds).Covered) (hrange : (localtime t.seconds).InRange) :
    formatTime localtime t = .ok (text (localtime t.seconds) t.microSeconds ++ [0]) := by
  have hmon := hrange.mon
  have hmday := hrange.mday
  have hhour := hrange.hour
  have hmin := hrange.min
  have hsec := hrange.sec
  rw [formatTime_eq, formatDate, year_eq hcovered, ok_bind, number_eq (by omega), ok_bind,
    number_eq (by omega), ok_bind, number_eq (by omega), ok_bind, number_eq (by omega), ok_bind,
    number_eq (by omega), ok_bind]
  simp [Except.map, text]

theorem length_year (h : t.Covered) : (padded 4 (decimal (t.tm_year + 1900))).length = 4 := by
  obtain ⟨-, hle⟩ := h
  exact length_padded (length_decimal_le (by decide) (by omega))

theorem length_twoDigits (h : i < 100) : (twoDigits i).length = 2 :=
  length_padded (length_decimal_le (by decide) h)

/-- Two digits are enough for every field behind the year. -/
theorem length_fields (h : t.InRange) :
    (twoDigits (t.tm_mon + 1)).length = 2 ∧ (twoDigits t.tm_mday).length = 2 ∧
    (twoDigits t.tm_hour).length = 2 ∧ (twoDigits t.tm_min).length = 2 ∧
    (twoDigits t.tm_sec).length = 2 := by
  obtain ⟨hmon, ⟨-, hmday⟩, hhour, hmin, hsec⟩ := h
  refine ⟨length_twoDigits ?_, length_twoDigits ?_, length_twoDigits ?_, length_twoDigits ?_,
    length_twoDigits ?_⟩ <;> omega

theorem field_append {n : Nat} {c : UInt8} {digits rest : List UInt8} (h : digits.length = n) :
    field n (digits ++ c :: rest) = (ofDecimal digits, rest) := by
  subst h
  simp [field]

theorem length_text (hcovered : t.Covered) (hrange : t.InRange) : (text t usec).length = 27 := by
  have hyear := length_year hcovered
  obtain ⟨hmon, hmday, hhour, hmin, hsec⟩ := length_fields hrange
  have husec : (micros usec).length = 6 := length_micros
  simp only [text, List.length_append, List.length_cons, List.length_nil, hyear, hmon, hmday,
    hhour, hmin, hsec, husec]

/-- The text decodes to the fields and to the microsecond within the second. -/
theorem parse_text (hcovered : t.Covered) (hrange : t.InRange) :
    parse (text t usec) = (t, usec % 1000000) := by
  have hyear := length_year hcovered
  obtain ⟨hmon, hmday, hhour, hmin, hsec⟩ := length_fields hrange
  have husec : (micros usec).length = 6 := length_micros
  have hvalue (i : Nat) : ofDecimal (twoDigits i) = i :=
    ofDecimal_padded.trans (ofDecimal_decimal i)
  have hyears : ofDecimal (padded 4 (decimal (t.tm_year + 1900))) = t.tm_year + 1900 :=
    ofDecimal_padded.trans (ofDecimal_decimal _)
  have husecs : ofDecimal (micros usec) = usec % 1000000 :=
    ofDecimal_padded.trans (ofDecimal_decimal _)
  unfold parse text
  rw [field_append hyear]
  simp only [field_append hmon, field_append hmday, field_append hhour, field_append hmin,
    field_append hsec, field_append husec, hvalue, hyears, husecs, Nat.add_sub_cancel]

/-- A separator of both texts decides nothing. -/
theorem compare_field {digits digits' rest rest' : List UInt8} {o : Ordering} (c : UInt8)
    (hlen : digits.length = digits'.length) (ho : compare digits digits' = o) :
    compare (digits ++ c :: rest) (digits' ++ c :: rest') = o.then (compare rest rest') := by
  rw [Memcmp.compare_append hlen, ho, List.compare_cons_cons, Std.compare_self]
  rfl

theorem compare_micros (usec usec' : Nat) :
    compare (micros usec) (micros usec') = compare (usec % 1000000) (usec' % 1000000) :=
  compare_padded (Nat.mod_lt _ (by decide)) (Nat.mod_lt _ (by decide))

theorem compare_field_twoDigits {j : Nat} {rest rest' : List UInt8} (c : UInt8) (hi : i < 100)
    (hj : j < 100) : compare (twoDigits i ++ c :: rest) (twoDigits j ++ c :: rest') =
      (compare i j).then (compare rest rest') :=
  compare_field c ((length_twoDigits hi).trans (length_twoDigits hj).symm) (compare_padded hi hj)

theorem compare_add_right {i j : Nat} (k : Nat) : compare (i + k) (j + k) = compare i j := by
  simp only [Nat.compare_eq_ite_lt, Nat.add_lt_add_iff_right]

/-- The seconds and the microseconds are cut from one clock. -/
theorem seconds_eq (t : Time) : t.seconds = t.microSeconds / 1000000 := by
  rw [seconds, milliSeconds, microSeconds, Nat.div_div_eq_div_mul, Nat.div_div_eq_div_mul]

/-- Two texts are compared as the fields are, and by the microseconds at last. -/
theorem compare_text (hcovered : t.Covered) (hrange : t.InRange) (hcovered' : t'.Covered)
    (hrange' : t'.InRange) (usec usec' : Nat) : compare (text t usec) (text t' usec') =
      (compare t.key t'.key).then (compare (usec % 1000000) (usec' % 1000000)) := by
  have hyear : compare (padded 4 (decimal (t.tm_year + 1900)))
      (padded 4 (decimal (t'.tm_year + 1900))) = compare t.tm_year t'.tm_year := by
    obtain ⟨-, hle⟩ := hcovered
    obtain ⟨-, hle'⟩ := hcovered'
    rw [compare_padded (by omega) (by omega)]
    exact compare_add_right _
  obtain ⟨hmon, ⟨-, hmday⟩, hhour, hmin, hsec⟩ := hrange
  obtain ⟨hmon', ⟨-, hmday'⟩, hhour', hmin', hsec'⟩ := hrange'
  rw [text, text, compare_field _ ((length_year hcovered).trans (length_year hcovered').symm) hyear,
    compare_field_twoDigits _ (by omega) (by omega), compare_add_right,
    compare_field_twoDigits _ (by omega) (by omega),
    compare_field_twoDigits _ (by omega) (by omega),
    compare_field_twoDigits _ (by omega) (by omega),
    compare_field_twoDigits _ (by omega) (by omega),
    compare_field _ (length_micros.trans length_micros.symm) (compare_micros usec usec')]
  simp only [Tm.key, List.compare_cons_cons, Ordering.then_assoc]
  simp

/-- `FormatTime` writes 27 characters that decode to the time, and orders texts as times. -/
theorem formatTime_faithful {localtime : Nat → Tm} (hzone : FixedOffset localtime) :
    (∀ t : Time, (localtime t.seconds).Covered → ∃ text,
      formatTime localtime t = .ok (text ++ [0]) ∧ text.length = 27 ∧
      parse text = (localtime t.seconds, t.microSeconds % 1000000)) ∧
    ∀ t t' : Time, (localtime t.seconds).Covered → (localtime t'.seconds).Covered →
      ∀ text text', formatTime localtime t = .ok (text ++ [0]) →
        formatTime localtime t' = .ok (text' ++ [0]) →
        compare text text' = compare t.microSeconds t'.microSeconds := by
  constructor
  · intro t hcovered
    have hrange := hzone.inRange _ hcovered
    exact ⟨_, formatTime_text hcovered hrange, length_text hcovered hrange,
      parse_text hcovered hrange⟩
  · intro t t' hcovered hcovered' out out' hout hout'
    have hrange := hzone.inRange _ hcovered
    have hrange' := hzone.inRange _ hcovered'
    rw [formatTime_text hcovered hrange, Except.ok.injEq, List.append_cancel_right_eq] at hout
    rw [formatTime_text hcovered' hrange', Except.ok.injEq, List.append_cancel_right_eq] at hout'
    subst hout hout'
    rw [compare_text hcovered hrange hcovered' hrange', hzone.ordered _ _ hcovered hcovered',
      seconds_eq, seconds_eq, compare_div_mod]

/-- A calendar of equal months, which is that of UTC in January 2025. -/
def equalMonths (sec : Nat) : Tm :=
  let day := sec / 86400 + 371
  ⟨day / 372 + 70, day % 372 / 31, day % 31 + 1, sec % 86400 / 3600, sec % 3600 / 60, sec % 60⟩

theorem fixedOffset_equalMonths : FixedOffset equalMonths where
  inRange sec _ := by
    constructor <;> simp only [equalMonths] <;> omega
  ordered a b _ _ := by
    have hday : ∀ d, d % 372 % 31 = d % 31 := fun d => Nat.mod_mod_of_dvd d (by decide)
    have hhour : ∀ s, s % 86400 % 3600 = s % 3600 := fun s => Nat.mod_mod_of_dvd s (by decide)
    have hmin : ∀ s, s % 3600 % 60 = s % 60 := fun s => Nat.mod_mod_of_dvd s (by decide)
    rw [← compare_div_mod 86400 a b, ← compare_add_right (i := a / 86400) 371,
      ← compare_div_mod 372 (a / 86400 + 371), ← compare_div_mod 31 ((a / 86400 + 371) % 372),
      ← compare_div_mod 3600 (a % 86400), ← compare_div_mod 60 (a % 86400 % 3600)]
    simp only [equalMonths, Tm.key, List.compare_cons_cons, compare_add_right, hday, hhour, hmin,
      Ordering.then_assoc]
    simp

/-- Noon of the first of January 2025, a quarter of a second later, and a second later. -/
theorem formatTime_faithful_noon :
    let noon : Time := ⟨1735732800000000000⟩
    let quarter : Time := ⟨1735732800250000000⟩
    (∃ text, formatTime equalMonths quarter = .ok (text ++ [0]) ∧ text.length = 27 ∧
      parse text = (⟨125, 0, 1, 12, 0, 0⟩, 250000)) ∧
    ∀ text text', formatTime equalMonths noon = .ok (text ++ [0]) →
      formatTime equalMonths quarter = .ok (text' ++ [0]) → compare text text' = .lt := by
  obtain ⟨hparse, hcompare⟩ := formatTime_faithful fixedOffset_equalMonths
  exact ⟨hparse _ (by decide), fun text text' hok hok' =>
    hcompare _ _ (by decide) (by decide) text text' hok hok'⟩

end Time

end Hplsp
