import Hplsp.Fault
import Hplsp.Lib.Printf

/-! Points in time and their text. -/

namespace Hplsp

open Outcome Printf

/-- The fields of `struct tm` that `FormatTime` reads. -/
structure Tm where
  tm_year : Nat
  tm_mon : Nat
  tm_mday : Nat
  tm_hour : Nat
  tm_min : Nat
  tm_sec : Nat
  deriving DecidableEq, Repr

/-- Nanoseconds since the epoch. -/
structure Time where
  now : Nat
  deriving DecidableEq, Repr

namespace Time

def milliSeconds (t : Time) : Nat := t.now / 1000000

def microSeconds (t : Time) : Nat := t.now / 1000

/-- The second that `localtime_r` gets. -/
def seconds (t : Time) : Nat := t.milliSeconds / 1000

/-- The texts of `YEAR`, without the null pointer at its end. -/
def YEAR : List (List UInt8) := (List.range 35).map fun i => decimal (2015 + i)

/-- `NUMBER`, as `Init` fills it. -/
def NUMBER : List (List UInt8) := (List.range 60).map fun i => padded 2 (decimal i)

/-- `YEAR[tm_year + 1900 - 2015]`. -/
def year (t : Tm) : Except Fault (List UInt8) :=
  if t.tm_year + 1900 < 2015 then .error (.overrun .yearTable)
  else match YEAR[t.tm_year + 1900 - 2015]? with
    | some text => .ok text
    | none => .error (.overrun .yearTable)

/-- `NUMBER[i]`. -/
def number (i : Nat) : Except Fault (List UInt8) :=
  match NUMBER[i]? with
  | some text => .ok text
  | none => .error (.overrun .numberTable)

/-- The text in front of the microseconds. -/
def formatDate (t : Tm) : Except Fault (List UInt8) := do
  let year ← year t
  let mon ← number (t.tm_mon + 1)
  let mday ← number t.tm_mday
  let hour ← number t.tm_hour
  let min ← number t.tm_min
  let sec ← number t.tm_sec
  .ok (year ++ [chr '-'] ++ mon ++ [chr '-'] ++ mday ++ [chr '['] ++ hour ++ [chr ':'] ++ min ++
    [chr ':'] ++ sec ++ [chr '.'])

/-- `%06d` of the microseconds within the second. -/
def micros (usec : Nat) : List UInt8 := padded 6 (decimal (usec % 1000000))

/-- All that `FormatTime` writes from the start of its buffer on: 27 characters and a NUL. -/
def formatTime (localtime : Nat → Tm) (t : Time) : Except Fault (List UInt8) := do
  let date ← formatDate (localtime t.seconds)
  .ok (date ++ stored 8 (micros t.microSeconds ++ [chr ']']))

section Length

variable {t : Tm} {text date : List UInt8} {i usec : Nat}

theorem length_YEAR : ∀ text ∈ YEAR, text.length = 4 ∧ NoNul text := by decide

theorem length_NUMBER : ∀ text ∈ NUMBER, text.length = 2 ∧ NoNul text := by decide

theorem year_ok (hok : year t = .ok text) : text.length = 4 ∧ NoNul text := by
  rw [year] at hok
  split at hok
  · cases hok
  · split at hok
    · rename_i htext
      cases hok
      exact length_YEAR _ (List.mem_of_getElem? htext)
    · cases hok

theorem number_ok (hok : number i = .ok text) : text.length = 2 ∧ NoNul text := by
  rw [number] at hok
  split at hok
  · rename_i htext
    cases hok
    exact length_NUMBER _ (List.mem_of_getElem? htext)
  · cases hok

theorem formatDate_ok (hok : formatDate t = .ok date) : date.length = 20 ∧ NoNul date := by
  obtain ⟨year, hyear, hok⟩ := bind_eq_ok.mp hok
  obtain ⟨mon, hmon, hok⟩ := bind_eq_ok.mp hok
  obtain ⟨mday, hmday, hok⟩ := bind_eq_ok.mp hok
  obtain ⟨hour, hhour, hok⟩ := bind_eq_ok.mp hok
  obtain ⟨min, hmin, hok⟩ := bind_eq_ok.mp hok
  obtain ⟨sec, hsec, hok⟩ := bind_eq_ok.mp hok
  cases hok
  obtain ⟨lyear, nyear⟩ := year_ok hyear
  obtain ⟨lmon, nmon⟩ := number_ok hmon
  obtain ⟨lmday, nmday⟩ := number_ok hmday
  obtain ⟨lhour, nhour⟩ := number_ok hhour
  obtain ⟨lmin, nmin⟩ := number_ok hmin
  obtain ⟨lsec, nsec⟩ := number_ok hsec
  have hchars : NoNul [chr '-'] ∧ NoNul [chr '['] ∧ NoNul [chr ':'] ∧ NoNul [chr '.'] := by decide
  refine ⟨by simp [*], ?_⟩
  simp only [noNul_append]
  simp only [*, and_self]

theorem year_error {e : Fault} (herr : year t = .error e) : e = .overrun .yearTable := by
  rw [year] at herr
  split at herr
  · cases herr
    rfl
  · split at herr
    · cases herr
    · cases herr
      rfl

theorem number_error {e : Fault} (herr : number i = .error e) : e = .overrun .numberTable := by
  rw [number] at herr
  split at herr
  · cases herr
  · cases herr
    rfl

/-- Only the two tables can fail. -/
theorem formatDate_error {e : Fault} (herr : formatDate t = .error e) :
    e = .overrun .yearTable ∨ e = .overrun .numberTable := by
  rcases bind_eq_error.mp herr with herr | ⟨year, -, herr⟩
  · exact Or.inl (year_error herr)
  refine Or.inr ?_
  rcases bind_eq_error.mp herr with herr | ⟨mon, -, herr⟩
  · exact number_error herr
  rcases bind_eq_error.mp herr with herr | ⟨mday, -, herr⟩
  · exact number_error herr
  rcases bind_eq_error.mp herr with herr | ⟨hour, -, herr⟩
  · exact number_error herr
  rcases bind_eq_error.mp herr with herr | ⟨min, -, herr⟩
  · exact number_error herr
  rcases bind_eq_error.mp herr with herr | ⟨sec, -, herr⟩
  · exact number_error herr
  cases herr

theorem length_micros : (micros usec).length = 6 :=
  length_padded (length_decimal_le (by decide) (Nat.mod_lt _ (by decide)))

theorem noNul_micros : NoNul (micros usec) := noNul_padded (noNul_decimal _)

/-- `FormatTime` fills 27 characters, and the NUL behind them is the 28th byte. -/
theorem formatTime_eq (localtime : Nat → Tm) (t : Time) : formatTime localtime t =
    (formatDate (localtime t.seconds)).map fun date =>
      date ++ micros t.microSeconds ++ [chr ']'] ++ [0] := by
  have hstored : stored 8 (micros t.microSeconds ++ [chr ']']) =
      micros t.microSeconds ++ [chr ']'] ++ [0] :=
    stored_eq (by rw [List.length_append, length_micros]; decide)
  rw [formatTime, hstored]
  cases formatDate (localtime t.seconds) with
  | error e => rfl
  | ok date => simp [Except.map]

end Length

end Time

end Hplsp
