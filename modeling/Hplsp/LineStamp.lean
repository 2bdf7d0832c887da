import Hplsp.LineBounds

/-!
# The cached time

In the second of the line before, `Flush` writes no more than the microseconds, and these only if
they differ from those stored last; the whole time stores none.
-/

namespace Hplsp

open Outcome Printf

/-- The microseconds within the second. -/
def Time.msec (t : Time) : Nat := t.microSeconds % 1000000

theorem Time.micros_inj {a b : Nat} (h : micros a = micros b) : a % 1000000 = b % 1000000 := by
  have hparse := congrArg ofDecimal h
  simpa only [micros, ofDecimal_padded, ofDecimal_decimal] using hparse

namespace Platform

variable {p : Platform} {now prev : Time} {text : List UInt8}

theorem isTime_iff : p.IsTime now text ↔ Time.formatTime p.localtime now = .ok (text ++ [0]) := by
  rw [Time.formatTime_eq, IsTime]
  cases Time.formatDate (p.localtime now.seconds) with
  | error e => simp [Except.map]
  | ok date =>
    constructor
    · rintro ⟨date', hdate, rfl⟩
      cases hdate
      rfl
    · intro htext
      exact ⟨date, rfl, (List.append_cancel_right (Except.ok.inj htext)).symm⟩

/-- Within a second, the text of one time is that of another with the same microseconds only. -/
theorem IsTime.iff_msec (h : p.IsTime prev text) (hsec : now.seconds = prev.seconds) :
    p.IsTime now text ↔ now.msec = prev.msec := by
  obtain ⟨date, hdate, rfl⟩ := h
  constructor
  · rintro ⟨date', hdate', htext⟩
    rw [hsec, hdate] at hdate'
    cases hdate'
    rw [List.append_assoc, List.append_assoc, List.append_cancel_left_eq,
      List.append_cancel_right_eq] at htext
    exact (Time.micros_inj htext).symm
  · intro hmsec
    have hmicros : Time.micros now.microSeconds = Time.micros prev.microSeconds :=
      congrArg (fun n => padded 6 (decimal n)) hmsec
    exact ⟨date, hsec ▸ hdate, by rw [hmicros]⟩

end Platform

section Readings

/-- The microseconds that the latest reading stored, of those in the second of the one before.
The latest reading comes first. -/
def storedMSec : List Time → Option Nat
  | t :: prev :: ts => if t.seconds = prev.seconds then some t.msec else storedMSec (prev :: ts)
  | _ => none

/-- A cached value, which is -1 until it is set. -/
def cached : Option Nat → Int
  | some n => n
  | none => -1

theorem cached_eq_iff {value : Option Nat} {n : Nat} : cached value = n ↔ value = some n := by
  cases value with
  | none => simp [cached]
  | some m =>
    rw [cached, Option.some_inj]
    exact Int.ofNat_inj

/-- A reading in the second of the one before, which has other microseconds, but those stored. -/
def Stale : List Time → Time → Prop
  | [], _ => False
  | prev :: ts, now => now.seconds = prev.seconds ∧ now.msec ≠ prev.msec ∧
      storedMSec (prev :: ts) = some now.msec

instance : ∀ (ts : List Time) (now : Time), Decidable (Stale ts now)
  | [], _ => inferInstanceAs (Decidable False)
  | prev :: ts, now => inferInstanceAs (Decidable (now.seconds = prev.seconds ∧
      now.msec ≠ prev.msec ∧ storedMSec (prev :: ts) = some now.msec))

end Readings

namespace Line

variable {p : Platform} {l l' l₁ : Line} {fl : LoggerFlags} {level : UInt32} {now : Time}
  {f : Fragment} {ts : List Time}

instance (l : Line) (fl : LoggerFlags) (level : UInt32) : Decidable (l.Ends fl level) :=
  inferInstanceAs (Decidable (level = l.curLevel ∧ fl.isLevelForbid level = false ∧
    kPrefixLen < l.pos))

/-- The two cached values, and the stamp in the buffer, after the given readings. -/
structure Cached (p : Platform) (ts : List Time) (l : Line) : Prop where
  valid : l.Valid p
  second : l.lastLogSecond = cached (ts.head?.map Time.seconds)
  msec : l.lastLogMSecond = cached (storedMSec ts)
  stamp : ∀ prev ∈ ts.head?, p.IsTime prev (l.tmpBuffer.take kPrefixTimeLen)

theorem cached_init (p : Platform) : Cached p [] init :=
  ⟨valid_init p, rfl, rfl, fun _ h => by cases h⟩

/-- The stamp of a reading is right, unless the reading is stale. -/
theorem Cached.stamp_spec (h : Cached p ts l) (hformats : p.Formats now.seconds) :
    ∃ l₁, l.stamp p now = .ok l₁ ∧ Prefixed p l l₁ now.seconds ∧
      (p.IsTime now (l₁.tmpBuffer.take kPrefixTimeLen) ↔ ¬ Stale ts now) ∧
      l₁.lastLogMSecond = cached (storedMSec (now :: ts)) := by
  by_cases hsec : (now.seconds : Int) = l.lastLogSecond
  · obtain ⟨l₁, hok, hprefixed, hmsec, hwritten⟩ := stamp_of_eq h.valid hsec
    have hlast : ts.head?.map Time.seconds = some now.seconds :=
      cached_eq_iff.mp (h.second.symm.trans hsec.symm)
    cases ts with
    | nil => cases hlast
    | cons prev ts =>
      have hsecond : now.seconds = prev.seconds := (Option.some_inj.mp hlast).symm
      have hstored : storedMSec (now :: prev :: ts) = some now.msec := if_pos hsecond
      refine ⟨l₁, hok, hprefixed, ?_, by rw [hmsec, hstored]; rfl⟩
      rcases hwritten with ⟨hne, htime⟩ | ⟨heq, rfl⟩
      · refine iff_of_true htime fun hstale => hne ?_
        rw [h.msec, hstale.2.2]
        rfl
      · rw [h.msec] at heq
        rw [(h.stamp prev rfl).iff_msec hsecond, Stale]
        simp [hsecond, cached_eq_iff.mp heq, Time.msec]
  · obtain ⟨date, hdate⟩ := hformats
    obtain ⟨l₁, hok, hprefixed, htime, hmsec⟩ := (stamp_of_ne h.valid hsec).mono
      (fun _ h => h) (fun e herr => by rw [hdate] at herr; cases herr) |>.returns
    refine ⟨l₁, hok, hprefixed, iff_of_true htime ?_, ?_⟩
    · cases ts with
      | nil => exact id
      | cons prev ts =>
        rintro ⟨hsecond, -⟩
        exact hsec (by rw [h.second, hsecond]; rfl)
    · rw [hmsec, h.msec]
      cases ts with
      | nil => rfl
      | cons prev ts =>
        rw [storedMSec, if_neg fun hsecond => hsec (by rw [h.second, hsecond]; rfl)]

/-- `l'` has the cached values of `l`, and its stamp. -/
structure SameTime (l l' : Line) : Prop where
  second : l'.lastLogSecond = l.lastLogSecond
  msec : l'.lastLogMSecond = l.lastLogMSecond
  stamp : l'.tmpBuffer.take kPrefixTimeLen = l.tmpBuffer.take kPrefixTimeLen

theorem Cached.of_sameTime (h : Cached p ts l) (hsame : SameTime l l') (hvalid : l'.Valid p) :
    Cached p ts l' := by
  refine ⟨hvalid, hsame.second.trans h.second, hsame.msec.trans h.msec, fun prev hprev => ?_⟩
  rw [hsame.stamp]
  exact h.stamp prev hprev

theorem sameTime_append (h : l.Valid p) (hok : l.append fl f = .ok l') : SameTime l l' := by
  have hsame : SameTime l l := ⟨rfl, rfl, rfl⟩
  cases hforbid : fl.isLevelForbid l.curLevel with
  | true =>
    obtain rfl : l = l' := ok_unique (append_of_forbid hforbid) hok
    exact hsame
  | false =>
    by_cases hfits : l.pos + f.width < kMaxCharPerLog
    · obtain ⟨bytes, hok', hbytes, -⟩ := append_eq h.length_tmpBuffer hforbid hfits
      obtain rfl : _ = l' := ok_unique hok' hok
      have hpos : kPrefixTimeLen ≤ l.pos := Nat.le_trans (by decide) h.pos_ge
      exact ⟨rfl, rfl, Cells.take_splice_of_le (h.room hbytes) hpos⟩
    · obtain rfl : l = l' := ok_unique (append_of_not_fits (by omega)) hok
      exact hsame

theorem sameTime_flush {r : Line × Option Emission} (h : l.Valid p) (hends : ¬ l.Ends fl level)
    (hok : l.flush p fl level now = .ok r) : SameTime l r.1 := by
  by_cases hlevel : level = l.curLevel
  · cases hforbid : fl.isLevelForbid level with
    | true =>
      obtain rfl : _ = r := ok_unique (flush_of_forbid hlevel hforbid) hok
      exact ⟨rfl, rfl, rfl⟩
    | false =>
      have hge := h.pos_ge
      have hle : ¬ kPrefixLen < l.pos := fun hpos => hends ⟨hlevel, hforbid, hpos⟩
      obtain rfl : _ = r := ok_unique (flush_of_empty h hlevel hforbid (by omega)) hok
      exact ⟨rfl, rfl, rfl⟩
  · rw [flush, if_pos hlevel] at hok
    cases hok

/-- The level, the tag and the end of the line stand behind the stamp. -/
theorem sameTime_finish (hpos : kPrefixTimeLen ≤ l₁.pos) (hstamp : l.stamp p now = .ok l₁)
    (hok : l.finish p level now = .ok l') : SameTime l₁ l' := by
  rw [finish, hstamp, ok_bind] at hok
  obtain ⟨l₂, hlevel, hok⟩ := bind_eq_ok.mp hok
  obtain ⟨l₃, htid, hend⟩ := bind_eq_ok.mp hok
  obtain ⟨tmp₂, hwrite₂, hl₂⟩ := bind_eq_ok.mp hlevel
  cases hl₂
  have hl₃ : SameTime l₁ l₃ ∧ l₃.pos = l₁.pos := by
    have htake := Cells.take_writeAt hwrite₂ (Nat.le_refl _)
    rw [fillTid] at htid
    split at htid
    · obtain ⟨tid, -, htid⟩ := bind_eq_ok.mp htid
      obtain ⟨tid', -, htid⟩ := bind_eq_ok.mp htid
      cases htid
      exact ⟨⟨rfl, rfl, htake⟩, rfl⟩
    · cases htid
      exact ⟨⟨rfl, rfl, htake⟩, rfl⟩
  obtain ⟨hsame, hpos₃⟩ := hl₃
  obtain ⟨tag, -, hend⟩ := bind_eq_ok.mp hend
  obtain ⟨tmp₄, hwrite₄, hend⟩ := bind_eq_ok.mp hend
  obtain ⟨tmp₅, hwrite₅, hend⟩ := bind_eq_ok.mp hend
  obtain ⟨tmp₆, hwrite₆, hend⟩ := bind_eq_ok.mp hend
  cases hend
  refine ⟨hsame.second, hsame.msec, ?_⟩
  calc
    tmp₆.take kPrefixTimeLen = tmp₅.take kPrefixTimeLen := Cells.take_writeAt hwrite₆ (by omega)
    _ = tmp₄.take kPrefixTimeLen := Cells.take_writeAt hwrite₅ (by omega)
    _ = l₃.tmpBuffer.take kPrefixTimeLen := Cells.take_writeAt hwrite₄ (by omega)
    _ = l₁.tmpBuffer.take kPrefixTimeLen := hsame.stamp

end Line

namespace ThreadLog

variable {p : Platform} {s s' : ThreadLog} {event : Event} {ts : List Time}

/-- After the time step of a `Flush` that ends a line, the line begins with what `FormatTime` makes
of the time. -/
def StampsRight (p : Platform) (s : ThreadLog) : Event → Prop
  | .flush l level now => s.line.Ends (s.loggers l) level →
    ∃ line, s.line.stamp p now = .ok line ∧ Time.formatTime p.localtime now =
      .ok (line.tmpBuffer.take kPrefixTimeLen ++ [0])
  | _ => True

/-- The tables have the texts for the event's second: its year is one of 2015 to 2049. -/
def Dated (p : Platform) : Event → Prop
  | .flush _ _ now => p.Formats now.seconds
  | _ => True

instance (p : Platform) : ∀ event, Decidable (Dated p event)
  | .flush _ _ now => inferInstanceAs (Decidable (p.Formats now.seconds))
  | .setCurLevel _ | .append _ _ | .shutdown _ => isTrue trivial

/-- The clock readings of an event: one for a `Flush` that ends a line. -/
def clock (s : ThreadLog) : Event → List Time
  | .flush l level now => if s.line.Ends (s.loggers l) level then [now] else []
  | _ => []

end ThreadLog

/-- A thread's log with the readings of its clock so far. -/
structure ClockedLog where
  log : ThreadLog
  readings : List Time

namespace ClockedLog

variable {p : Platform} {s s' : ClockedLog} {event : Event}

def init (loggers : LoggerId → LoggerFlags) : ClockedLog := ⟨ThreadLog.init loggers, []⟩

def step (p : Platform) (s : ClockedLog) (event : Event) : Except Fault ClockedLog :=
  (ThreadLog.step p s.log event).map fun log => ⟨log, s.log.clock event ++ s.readings⟩

/-- None of the event's readings is stale. -/
def Fresh (s : ClockedLog) (event : Event) : Prop :=
  ∀ now ∈ s.log.clock event, ¬ Stale s.readings now

instance (s : ClockedLog) (event : Event) : Decidable (s.Fresh event) :=
  inferInstanceAs (Decidable (∀ now ∈ s.log.clock event, ¬ Stale s.readings now))

theorem stampsRight_iff_fresh (h : s.log.line.Cached p s.readings)
    (hdated : ThreadLog.Dated p event) : ThreadLog.StampsRight p s.log event ↔ s.Fresh event := by
  cases event with
  | flush l level now =>
    by_cases hends : s.log.line.Ends (s.log.loggers l) level
    · obtain ⟨line, hok, -, htime, -⟩ := h.stamp_spec hdated
      rw [ThreadLog.StampsRight, Fresh, ThreadLog.clock, if_pos hends, List.forall_mem_singleton,
        ← htime, Platform.isTime_iff]
      constructor
      · intro hright
        obtain ⟨line', hok', htext⟩ := hright hends
        obtain rfl : line = line' := ok_unique hok hok'
        exact htext
      · exact fun htext _ => ⟨line, hok, htext⟩
    · rw [Fresh, ThreadLog.clock, if_neg hends]
      exact iff_of_true (fun hends' => absurd hends' hends) (fun _ hnow => by cases hnow)
  | _ => exact iff_of_true trivial fun _ hnow => by cases hnow

/-- A line that ends with a fresh reading has the cached values, and the stamp, of that reading. -/
theorem cached_finish {l l' : Line} {level : UInt32} {now : Time} {ts : List Time}
    (h : l.Cached p ts) (hformats : p.Formats now.seconds) (hfresh : ¬ Stale ts now)
    (hok : l.finish p level now = .ok l') : l'.Cached p (now :: ts) := by
  obtain ⟨l₁, hstamp, hprefixed, htime, hmsec⟩ := h.stamp_spec hformats
  have hpos : kPrefixTimeLen ≤ l₁.pos := by
    rw [hprefixed.pos]
    exact Nat.le_trans (by decide) h.valid.pos_ge
  have hsame := Line.sameTime_finish hpos hstamp hok
  refine ⟨((Line.finish_sat h.valid level now).of_ok hok).valid,
    hsame.second.trans hprefixed.second, hsame.msec.trans hmsec, fun prev hprev => ?_⟩
  cases hprev
  rw [hsame.stamp]
  exact htime.mpr hfresh

theorem cached_step (h : s.log.line.Cached p s.readings) (hdated : ThreadLog.Dated p event)
    (hok : step p s event = .ok s') (hfresh : s.Fresh event) :
    s'.log.line.Cached p s'.readings := by
  obtain ⟨log, hlog, rfl⟩ := map_eq_ok.mp hok
  cases event with
  | setCurLevel level =>
    cases hlog
    exact h.of_sameTime ⟨rfl, rfl, rfl⟩ (h.valid.setCurLevel level)
  | shutdown l =>
    cases hlog
    exact h
  | append l f =>
    obtain ⟨line, hline, hlog⟩ := bind_eq_ok.mp hlog
    cases hlog
    obtain ⟨line', hline', hvalid⟩ := h.valid.append (s.log.loggers l) f
    obtain rfl : line = line' := ok_unique hline hline'
    exact h.of_sameTime (Line.sameTime_append h.valid hline) hvalid
  | flush l level now =>
    obtain ⟨⟨line, emission⟩, hline, hlog⟩ := bind_eq_ok.mp hlog
    cases hlog
    by_cases hends : s.log.line.Ends (s.log.loggers l) level
    · rw [Fresh, ThreadLog.clock, if_pos hends, List.forall_mem_singleton] at hfresh
      rw [Line.flush_of_ends h.valid hends] at hline
      obtain ⟨line', hfinish, hexit⟩ := bind_eq_ok.mp hline
      have hcached := cached_finish h hdated hfresh hfinish
      rw [ThreadLog.clock, if_pos hends]
      split at hexit
      · cases hexit
        exact hcached
      · cases hexit
        exact hcached.of_sameTime ⟨rfl, rfl, rfl⟩ hcached.valid.reset
    · rw [ThreadLog.clock, if_neg hends]
      have hvalid := ((Line.flush_of_not_ends h.valid hends now).of_ok hline).1
      exact h.of_sameTime (Line.sameTime_flush h.valid hends hline) hvalid

/-- Every line begins with its own time, exactly when no reading is stale. -/
theorem stamps_right_iff (p : Platform) (loggers : LoggerId → LoggerFlags) (events : List Event)
    (hdated : ∀ event ∈ events, ThreadLog.Dated p event) :
    Lts.StepsMeet (ThreadLog.step p) (ThreadLog.StampsRight p) (ThreadLog.init loggers) events ↔
      Lts.StepsMeet (step p) Fresh (init loggers) events := by
  have herase : ∀ s event, ThreadLog.step p (log s) event = (step p s event).map log := by
    intro s event
    rw [step]
    cases ThreadLog.step p s.log event with
    | ok t => rfl
    | error e => rfl
  refine Iff.trans (Lts.stepsMeet_map (s := init loggers) herase) ?_
  refine Lts.stepsMeet_congr (I := fun s => s.log.line.Cached p s.readings) ?_ ?_
    (Line.cached_init p)
  · exact fun s event hevent h => stampsRight_iff_fresh h (hdated event hevent)
  · exact fun s t event hevent h hok hfresh => cached_step h (hdated event hevent) hok hfresh

/-- A line with one character, at the given time. -/
def lineAt (now : Time) : List Event :=
  [.setCurLevel 1, .append 0 (.cstr (ascii "a")), .flush 0 1 now]

/-- The first seconds of 2025. -/
def firstMinute : Platform := ⟨fun sec => ⟨125, 0, 1, 0, 0, sec % 60⟩, ascii "1"⟩

def newYear : Nat := 1735689600000000000

-- Both caches are used: a second is kept four times, and a millisecond once.
theorem stamps_right_iff_second : Lts.StepsMeet (ThreadLog.step firstMinute)
    (ThreadLog.StampsRight firstMinute) (ThreadLog.init fun _ => ⟨15, false⟩)
    (([0, 500, 700, 1300, 1900, 1900].map fun msec => Time.mk (newYear + msec * 1000000)).flatMap
      lineAt) :=
  (stamps_right_iff _ _ _ (by decide +kernel)).mpr (by decide +kernel)

/-- Lines at .0 and .5 of a second, and at .3 and .5 of the next: the last one is stamped .3. -/
theorem stamp_repeats : ∃ times : List Time, times.Pairwise (fun t t' => t.now ≤ t'.now) ∧
    (∀ event ∈ times.flatMap lineAt, ThreadLog.Dated firstMinute event) ∧
    ¬ Lts.StepsMeet (ThreadLog.step firstMinute) (ThreadLog.StampsRight firstMinute)
      (ThreadLog.init fun _ => ⟨15, false⟩) (times.flatMap lineAt) := by
  obtain ⟨before, now, hpairwise, hdated, s, hrun, hends, hstamp, htime⟩ :
      ∃ (before : List Time) (now : Time),
        (before ++ [now]).Pairwise (fun t t' => t.now ≤ t'.now) ∧
        (∀ event ∈ (before ++ [now]).flatMap lineAt, ThreadLog.Dated firstMinute event) ∧
        ∃ s, Lts.execute (ThreadLog.step firstMinute) (ThreadLog.init fun _ => ⟨15, false⟩)
          (before.flatMap lineAt ++ (lineAt now).take 2) = .ok s ∧
          s.line.Ends (s.loggers 0) 1 ∧
          Sat (s.line.stamp firstMinute now) (fun line =>
            line.tmpBuffer.take kPrefixTimeLen = ascii "2025-01-01[00:00:01.300000]")
            (fun _ => True) ∧
          Time.formatTime firstMinute.localtime now =
            .ok (ascii "2025-01-01[00:00:01.500000]" ++ [0]) :=
    ⟨[⟨newYear⟩, ⟨newYear + 500000000⟩, ⟨newYear + 1300000000⟩], ⟨newYear + 1500000000⟩,
      by decide +kernel, by decide +kernel, Sat.returns (by decide +kernel)⟩
  refine ⟨before ++ [now], hpairwise, hdated, fun hmeet => ?_⟩
  have hsplit : (before ++ [now]).flatMap lineAt =
      (before.flatMap lineAt ++ (lineAt now).take 2) ++ .flush 0 1 now :: [] := by
    simp [lineAt]
  obtain ⟨line, hok, hright⟩ :=
    Lts.stepsMeet_iff.mp hmeet _ (.flush 0 1 now) [] s hsplit hrun hends
  rw [hstamp.of_ok hok, htime] at hright
  revert hright
  decide

end ClockedLog

end Hplsp
