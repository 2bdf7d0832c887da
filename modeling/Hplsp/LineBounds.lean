import Hplsp.LineFlush

/-!
# The bounds of the line buffer

`operator<<` keeps to the buffer, and leaves `pos_` anywhere in it; `Flush` puts the tag, the
newline and the NUL behind `pos_` without looking.
-/

namespace Hplsp

open Outcome Printf

namespace Line

variable {p : Platform} {l l' : Line} {fl : LoggerFlags} {level : UInt32} {now : Time}
  {f : Fragment}

/-- `operator<<` returns on a whole line, and leaves a whole line. -/
theorem Valid.append (h : l.Valid p) (fl : LoggerFlags) (f : Fragment) :
    ∃ l', l.append fl f = .ok l' ∧ l'.Valid p := by
  cases hforbid : fl.isLevelForbid l.curLevel with
  | true => exact ⟨l, append_of_forbid hforbid, h⟩
  | false =>
    by_cases hfits : l.pos + f.width < kMaxCharPerLog
    · obtain ⟨l', hok, happend⟩ := append_of_fits h hforbid hfits
      exact ⟨l', hok, happend.valid⟩
    · exact ⟨l, append_of_not_fits (by omega), h⟩

/-- `Flush` gets as far as the end of the line. -/
def Ends (l : Line) (fl : LoggerFlags) (level : UInt32) : Prop :=
  level = l.curLevel ∧ fl.isLevelForbid level = false ∧ kPrefixLen < l.pos

theorem flush_of_forbid (hlevel : level = l.curLevel) (hforbid : fl.isLevelForbid level = true) :
    l.flush p fl level now = .ok (l.reset, none) := by
  rw [flush, if_neg (not_not.mpr hlevel), if_pos (hlevel ▸ hforbid)]

/-- The second assertion of `Flush` never fails: a level that is not forbidden is not zero. -/
theorem state_holds (h : l.Valid p) (hlevel : level = l.curLevel)
    (hforbid : fl.isLevelForbid level = false) :
    ¬ (level &&& l.curLevel = 0 ∨ l.pos < kPrefixLen) := by
  rintro (hzero | hlt)
  · rw [← hlevel, UInt32.and_self] at hzero
    simp [LoggerFlags.isLevelForbid, hzero] at hforbid
  · exact absurd h.pos_ge (Nat.not_le.mpr hlt)

theorem flush_of_empty (h : l.Valid p) (hlevel : level = l.curLevel)
    (hforbid : fl.isLevelForbid level = false) (hempty : l.pos = kPrefixLen) :
    l.flush p fl level now = .ok (l, none) := by
  rw [flush, if_neg (not_not.mpr hlevel), if_neg (by simp [← hlevel, hforbid]),
    if_neg (state_holds h hlevel hforbid), if_pos hempty]

theorem flush_of_ends (h : l.Valid p) (hends : l.Ends fl level) :
    l.flush p fl level now = l.finish p level now >>= fun l' =>
      if fl.shutdown then .ok (l', some (.printed (l'.tmpBuffer.takeWhile (· ≠ 0))))
      else .ok (l'.reset, some (.queued level (l'.tmpBuffer.take l'.pos))) := by
  obtain ⟨hlevel, hforbid, hpos⟩ := hends
  rw [flush, if_neg (not_not.mpr hlevel), if_neg (by simp [← hlevel, hforbid]),
    if_neg (state_holds h hlevel hforbid), if_neg (by omega)]

/-- The exits before the end of the line leave it empty. -/
theorem flush_of_not_ends (h : l.Valid p) (hends : ¬ l.Ends fl level) (now : Time) :
    Sat (l.flush p fl level now)
      (fun r => r.1.Valid p ∧ r.1.pos = kPrefixLen ∧ r.2 = none)
      fun e => level ≠ l.curLevel ∧ e = .assertion .flushLevel := by
  by_cases hlevel : level = l.curLevel
  · cases hforbid : fl.isLevelForbid level with
    | true =>
      rw [flush_of_forbid hlevel hforbid]
      exact ⟨h.reset, rfl, rfl⟩
    | false =>
      have hge := h.pos_ge
      have hle : ¬ kPrefixLen < l.pos := fun hpos => hends ⟨hlevel, hforbid, hpos⟩
      have hempty : l.pos = kPrefixLen := by omega
      rw [flush_of_empty h hlevel hforbid hempty]
      exact ⟨h, hempty, rfl⟩
  · rw [flush, if_pos hlevel]
    exact ⟨hlevel, rfl⟩

end Line

/-- A platform on which it is always the first second of 2025. -/
def Platform.stopped (threadId : List UInt8) : Platform := ⟨fun _ => ⟨125, 0, 1, 0, 0, 0⟩, threadId⟩

namespace ThreadLog

variable {p : Platform} {s : ThreadLog} {event : Event}

/-- A write outside one of the two arrays. -/
def Overruns (e : Fault) : Prop := e = .overrun .tmpBuffer ∨ e = .overrun .tid

/-- A `Flush` that ends a line finds room for what it puts there. -/
def HasRoom (p : Platform) (s : ThreadLog) : Event → Prop
  | .flush l level now =>
    s.line.Ends (s.loggers l) level → p.Formats now.seconds → s.line.TagFits p
  | _ => True

theorem flush_sat (h : s.line.Valid p) (l : LoggerId) (level : UInt32) (now : Time) :
    Sat (step p s (.flush l level now))
      (fun s' => s'.line.Valid p ∧ HasRoom p s (.flush l level now))
      fun e => ¬ Overruns e ↔ HasRoom p s (.flush l level now) := by
  by_cases hends : s.line.Ends (s.loggers l) level
  · refine Sat.bind (P := fun r => r.1.Valid p ∧ s.line.TagFits p) ?_ fun r hr =>
      ⟨hr.1, fun _ _ => hr.2⟩
    rw [Line.flush_of_ends h hends]
    refine ((Line.finish_sat h level now).mono (fun _ h => h) ?_).bind fun l' hl' => ?_
    · intro e herr
      rcases herr with ⟨hformats, he⟩ | ⟨hformats, hfits, he⟩
      · have havoids : ¬ Overruns e := by
          rintro (rfl | rfl) <;> simp at he
        exact ⟨fun _ _ hformats' => absurd hformats' hformats, fun _ => havoids⟩
      · exact ⟨fun havoids => absurd he.symm havoids,
          fun hroom => absurd (hroom hends hformats) hfits⟩
    · split
      · exact ⟨hl'.valid, hl'.fits⟩
      · exact ⟨hl'.valid.reset, hl'.fits⟩
  · have hroom : HasRoom p s (.flush l level now) := fun hends' => absurd hends' hends
    refine Sat.bind ((Line.flush_of_not_ends h hends now).mono (fun _ hr => hr.1) ?_) fun r hr =>
      ⟨hr, hroom⟩
    rintro e ⟨-, rfl⟩
    exact ⟨fun _ => hroom, fun _ => by rintro (h | h) <;> cases h⟩

/-- One step keeps the invariant, and overruns exactly when there is no room. -/
theorem step_sat (h : s.line.Valid p) : Sat (step p s event)
    (fun s' => s'.line.Valid p ∧ HasRoom p s event) fun e => ¬ Overruns e ↔ HasRoom p s event := by
  cases event with
  | setCurLevel level => exact ⟨h.setCurLevel level, trivial⟩
  | append l f =>
    obtain ⟨line, hok, hline⟩ := h.append (s.loggers l) f
    rw [step, hok, ok_bind]
    exact ⟨hline, trivial⟩
  | flush l level now => exact flush_sat h l level now
  | shutdown l => exact ⟨h, trivial⟩

/-- Logging stays inside `tmpBuffer_` and `tid_` exactly when every `Flush` finds the room. -/
theorem stays_inside_iff (p : Platform) (loggers : LoggerId → LoggerFlags) (events : List Event) :
    (∀ e, Lts.execute (step p) (init loggers) events = .error e →
        e ≠ .overrun .tmpBuffer ∧ e ≠ .overrun .tid) ↔
      Lts.StepsMeet (step p) (HasRoom p) (init loggers) events := by
  have h := @Lts.execute_avoids_iff _ _ _ (step p) (init loggers) events (fun s => s.line.Valid p)
    Overruns (HasRoom p) (fun s event t hs hok => (step_sat hs).of_ok hok)
    (fun s event e hs herr => (step_sat hs).of_error herr) (Line.valid_init p)
  simpa only [Overruns, not_or] using h

/-- A message of 2014 characters is accepted, and leaves one byte for the tag; a thread id of 16
characters does not go into `tid_`. -/
theorem flush_overruns :
    ∃ p p' : Platform, ∃ loggers : LoggerId → LoggerFlags, ∃ events events' : List Event,
      Lts.execute (step p) (init loggers) events = .error (.overrun .tmpBuffer) ∧
        Lts.execute (step p') (init loggers) events' = .error (.overrun .tid) := by
  have error_of : ∀ {x : Except Fault ThreadLog} {e : Fault},
      Sat x (fun _ => False) (· = e) → x = .error e := by
    intro x e hx
    obtain ⟨e', rfl, rfl⟩ := hx.throws
    rfl
  refine ⟨.stopped (ascii "140737348"), .stopped (ascii "0x00007ffff7d8a7"), fun _ => ⟨15, false⟩,
    [.setCurLevel 1, .append 0 (.cstr (List.replicate 2014 (chr 'a'))), .flush 0 1 ⟨0⟩],
    [.setCurLevel 1, .append 0 (.int 7), .flush 0 1 ⟨0⟩], error_of ?_, error_of ?_⟩
  · decide +kernel
  · decide +kernel

end ThreadLog

end Hplsp
