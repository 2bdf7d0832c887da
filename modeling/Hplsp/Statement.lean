import Hplsp.LineBounds

/-!
# Log statements

A statement is `SetCurLevel`, some `operator<<`, and `Flush`. Only the exit of `Flush` that prints
the line of a logger already shut down leaves `pos_` where it is.
-/

namespace Hplsp

open Outcome Printf

/-- What happens between `SetCurLevel` and `Flush`, or before the statement. -/
inductive Item where
  | append (f : Fragment)
  | shutdown (l : LoggerId)

structure Statement where
  logger : LoggerId
  level : UInt32
  items : List Item
  now : Time

namespace Item

def event (l : LoggerId) : Item → Event
  | .append f => .append l f
  | .shutdown l' => .shutdown l'

/-- The text that has been accepted once the item is done. -/
def accept (allowed : Bool) (text : List UInt8) : Item → List UInt8
  | .append f =>
    if allowed ∧ kPrefixLen + text.length + f.width < kMaxCharPerLog then text ++ f.text else text
  | .shutdown _ => text

def shut (loggers : LoggerId → LoggerFlags) : Item → LoggerId → LoggerFlags
  | .append _ => loggers
  | .shutdown l => ThreadLog.setShutdown loggers l

end Item

namespace Statement

variable {p : Platform} {s s' : ThreadLog} {st : Statement} {items : List Item}
  {text : List UInt8} {loggers : LoggerId → LoggerFlags} {l l' : LoggerId}

def events (st : Statement) : List Event :=
  .setCurLevel st.level :: st.items.map (Item.event st.logger) ++
    [.flush st.logger st.level st.now]

def exec (p : Platform) (s : ThreadLog) (st : Statement) : Except Fault ThreadLog :=
  Lts.execute (ThreadLog.step p) s st.events

/-- The logger's level lets the statement through. -/
def allowed (s : ThreadLog) (st : Statement) : Bool :=
  !(s.loggers st.logger).isLevelForbid st.level

/-- The fragments accepted from the statement. -/
def accepted (s : ThreadLog) (st : Statement) : List UInt8 :=
  st.items.foldl (Item.accept (st.allowed s)) []

/-- The loggers as `Flush` finds them. -/
def loggersAt (s : ThreadLog) (st : Statement) : LoggerId → LoggerFlags :=
  st.items.foldl Item.shut s.loggers

/-- `Flush` finds its logger shut down. -/
def IsShut (s : ThreadLog) (st : Statement) : Prop :=
  (st.loggersAt s st.logger).shutdown = true

/-- The statement has nothing to emit. -/
def Silent (s : ThreadLog) (st : Statement) : Prop := st.allowed s = false ∨ st.accepted s = []

/-- What the statement emits: one line of its own time, level and fragments, or nothing. -/
def Emitted (p : Platform) (s : ThreadLog) (st : Statement) (s' : ThreadLog) : Prop :=
  (st.Silent s ∧ s'.out = s.out) ∨
    ¬ st.Silent s ∧ ∃ line, p.IsLine st.now.seconds st.level (st.accepted s) line ∧
      (st.IsShut s ∧ s'.out = s.out ++ [(st.logger, .printed line)] ∨
        ¬ st.IsShut s ∧ s'.out = s.out ++ [(st.logger, .queued st.level line)])

/-- The statement starts at the beginning of the text, and emits what is its own. -/
def Isolated (p : Platform) (s : ThreadLog) (st : Statement) : Prop :=
  s.line.pos = kPrefixLen ∧ ∀ s', st.exec p s = .ok s' → st.Emitted p s s'

/-- The statement has a line to emit, room and a date for it, and its logger is shut down. -/
def Prints (p : Platform) (s : ThreadLog) (st : Statement) : Prop :=
  ¬ st.Silent s ∧ st.IsShut s ∧ p.Formats st.now.seconds ∧ p.threadId.length ≤ 15 ∧
    kPrefixLen + (st.accepted s).length + p.threadId.length + 3 ≤ kMaxCharPerLog

/-- Between `SetCurLevel` and `Flush` of a statement that started with an empty line. -/
structure Building (p : Platform) (st : Statement) (s₀ s : ThreadLog) (text : List UInt8) :
    Prop where
  valid : s.line.Valid p
  level : s.line.curLevel = st.level
  pos : s.line.pos = kPrefixLen + text.length
  body : s.line.pos < kMaxCharPerLog → s.line.body = text
  forbid : (s.loggers st.logger).isLevelForbid st.level = !st.allowed s₀
  out : s.out = s₀.out

theorem setShutdown_level : (ThreadLog.setShutdown loggers l l').level = (loggers l').level := by
  by_cases h : l' = l
  · subst h
    simp [ThreadLog.setShutdown]
  · simp [ThreadLog.setShutdown, h]

theorem Building.step_item (h : Building p st s' s text) (item : Item) :
    ∃ t, ThreadLog.step p s (item.event st.logger) = .ok t ∧ t.loggers = item.shut s.loggers ∧
      Building p st s' t (item.accept (st.allowed s') text) := by
  cases item with
  | shutdown l =>
    refine ⟨_, rfl, rfl, { h with forbid := ?_ }⟩
    rw [← h.forbid]
    simp only [LoggerFlags.isLevelForbid, setShutdown_level]
  | append f =>
    have hforbid := h.forbid
    by_cases hfits : st.allowed s' = true ∧ kPrefixLen + text.length + f.width < kMaxCharPerLog
    · rw [hfits.1, ← h.level] at hforbid
      obtain ⟨line, hok, happend⟩ := Line.append_of_fits h.valid hforbid (h.pos ▸ hfits.2)
      have hpos : line.pos = kPrefixLen + (text ++ f.text).length := by
        rw [happend.pos, h.pos, List.length_append, Nat.add_assoc]
      refine ⟨{ s with line := line }, by simp [ThreadLog.step, Item.event, hok], rfl, ?_⟩
      rw [Item.accept, if_pos hfits]
      refine { h with
        valid := happend.valid, level := happend.curLevel.trans h.level, pos := hpos, body := ?_ }
      intro hlt
      have hlt : line.pos < kMaxCharPerLog := hlt
      have hbefore : s.line.pos < kMaxCharPerLog := by
        rw [happend.pos] at hlt
        omega
      rw [happend.body hlt, h.body hbefore]
    · have hok : s.line.append (s.loggers st.logger) f = .ok s.line := by
        cases hallowed : st.allowed s' with
        | false =>
          rw [hallowed, ← h.level] at hforbid
          exact Line.append_of_forbid hforbid
        | true =>
          refine Line.append_of_not_fits ?_
          rw [h.pos]
          by_contra hlt
          exact hfits ⟨hallowed, by omega⟩
      refine ⟨s, by simp [ThreadLog.step, Item.event, hok], rfl, ?_⟩
      rw [Item.accept, if_neg hfits]
      exact h

theorem Building.execute_items (h : Building p st s' s text) (items : List Item) :
    ∃ t, Lts.execute (ThreadLog.step p) s (items.map (Item.event st.logger)) = .ok t ∧
      t.loggers = items.foldl Item.shut s.loggers ∧
      Building p st s' t (items.foldl (Item.accept (st.allowed s')) text) := by
  induction items generalizing s text with
  | nil => exact ⟨s, rfl, rfl, h⟩
  | cons item items ih =>
    obtain ⟨t, hok, hloggers, ht⟩ := h.step_item item
    obtain ⟨t', hok', hloggers', ht'⟩ := ih ht
    refine ⟨t', ?_, ?_, ht'⟩
    · simp only [List.map_cons, Lts.execute, hok, hok']
    · rw [hloggers', hloggers]
      rfl

theorem noNul_accept {allowed : Bool} (h : NoNul text) :
    NoNul (items.foldl (Item.accept allowed) text) := by
  induction items generalizing text with
  | nil => exact h
  | cons item items ih =>
    refine ih ?_
    cases item with
    | shutdown l => exact h
    | append f =>
      rw [Item.accept]
      split
      · exact noNul_append.mpr ⟨h, Line.noNul_text f⟩
      · exact h

/-- A statement that starts with an empty line comes to its `Flush` with what it accepted. -/
theorem exec_eq_flush (h : s.line.Valid p) (hpos : s.line.pos = kPrefixLen) (st : Statement) :
    ∃ t, Building p st s t (st.accepted s) ∧ t.loggers = st.loggersAt s ∧
      st.exec p s = ThreadLog.step p t (.flush st.logger st.level st.now) := by
  have hstart : Building p st s { s with line := { s.line with curLevel := st.level } } [] := by
    refine ⟨h.setCurLevel st.level, rfl, hpos, fun _ => ?_, by simp [allowed], rfl⟩
    rw [Line.body, hpos, Nat.sub_self, Cells.slice_zero]
  obtain ⟨t, hok, hloggers, ht⟩ := hstart.execute_items st.items
  refine ⟨t, ht, hloggers, ?_⟩
  have hitems : Lts.execute (ThreadLog.step p) s
      (.setCurLevel st.level :: st.items.map (Item.event st.logger)) = .ok t := hok
  rw [exec, events, Lts.execute_append, hitems, ok_bind, Lts.execute_singleton]

/-- The body of the line at its `Flush` is what has been accepted, if the tag fits. -/
theorem Building.body_eq (h : Building p st s' s text) (hfits : s.line.TagFits p) :
    s.line.body = text := by
  have hroom := hfits.2
  exact h.body (by omega)

theorem Building.ends_iff (h : Building p st s s' (st.accepted s)) :
    s'.line.Ends (s'.loggers st.logger) st.level ↔ ¬ st.Silent s := by
  have hlength : kPrefixLen < s'.line.pos ↔ st.accepted s ≠ [] := by
    rw [h.pos, ← List.length_pos_iff]
    omega
  rw [Line.Ends, h.level, h.forbid, hlength, Silent]
  simp

theorem Building.tagFits_iff (h : Building p st s s' (st.accepted s)) :
    s'.line.TagFits p ↔ p.threadId.length ≤ 15 ∧
      kPrefixLen + (st.accepted s).length + p.threadId.length + 3 ≤ kMaxCharPerLog := by
  rw [Line.TagFits, h.pos]

/-- `Flush` of a statement with nothing to emit. -/
theorem Building.flush_silent (h : Building p st s s' (st.accepted s)) (hsilent : st.Silent s) :
    ∃ t, ThreadLog.step p s' (.flush st.logger st.level st.now) = .ok t ∧
      t.line.Valid p ∧ t.line.pos = kPrefixLen ∧ t.out = s.out := by
  have hends : ¬ s'.line.Ends (s'.loggers st.logger) st.level := by
    rw [h.ends_iff]
    exact not_not.mpr hsilent
  have hreturns : Sat (s'.line.flush p (s'.loggers st.logger) st.level st.now)
      (fun r => r.1.Valid p ∧ r.1.pos = kPrefixLen ∧ r.2 = none) fun _ => False :=
    (Line.flush_of_not_ends h.valid hends st.now).mono (fun _ hr => hr)
      fun e he => he.1 h.level.symm
  obtain ⟨⟨line, emission⟩, hok, hvalid, hpos, hnone⟩ := hreturns.returns
  obtain rfl : emission = none := hnone
  refine ⟨_, by rw [ThreadLog.step, hok]; rfl, hvalid, hpos, ?_⟩
  simpa using h.out

/-- `Flush` of a statement with a line to emit. -/
theorem Building.flush_line (h : Building p st s s' (st.accepted s))
    (hloggers : s'.loggers = st.loggersAt s) (htid : NoNul p.threadId) (hsilent : ¬ st.Silent s) :
    Sat (ThreadLog.step p s' (.flush st.logger st.level st.now))
      (fun t => t.line.Valid p ∧ st.Emitted p s t ∧ (t.line.pos = kPrefixLen ↔ ¬ st.Prints p s))
      fun _ => ¬ st.Prints p s := by
  rw [ThreadLog.step, Line.flush_of_ends h.valid (h.ends_iff.mpr hsilent)]
  cases hfinish : s'.line.finish p st.level st.now with
  | error e =>
    have herr := (Line.finish_sat h.valid st.level st.now).of_error hfinish
    rintro ⟨-, -, hformats, hroom⟩
    rcases herr with ⟨hnot, -⟩ | ⟨-, hnot, -⟩
    · exact hnot hformats
    · exact hnot (h.tagFits_iff.mpr hroom)
  | ok line =>
    have hline := (Line.finish_sat h.valid st.level st.now).of_ok hfinish
    obtain ⟨text, htext, hlen, hbuffer⟩ := hline.text
    rw [h.body_eq hline.fits] at htext
    have hformats : p.Formats st.now.seconds := htext.stamp.formats
    rw [ok_bind]
    cases hshut : (s'.loggers st.logger).shutdown with
    | true =>
      have hshut : st.IsShut s := by rwa [IsShut, ← hloggers]
      have hprints : st.Prints p s :=
        ⟨hsilent, hshut, hformats, h.tagFits_iff.mp hline.fits⟩
      have hnul : line.tmpBuffer.takeWhile (· ≠ 0) = text := by
        rw [← List.take_append_drop (line.pos + 1) line.tmpBuffer, hbuffer, List.append_assoc]
        exact takeWhile_nul (htext.noNul (noNul_accept (by decide)) htid) _
      refine ⟨hline.valid, Or.inr ⟨hsilent, text, htext, Or.inl ⟨hshut, ?_⟩⟩, ?_⟩
      · show s'.out ++ [(st.logger, Emission.printed (line.tmpBuffer.takeWhile (· ≠ 0)))] = _
        rw [hnul, h.out]
      · have hpos : line.pos ≠ kPrefixLen := by
          have := hline.pos
          have := h.valid.pos_ge
          omega
        exact iff_of_false hpos (not_not.mpr hprints)
    | false =>
      have hshut : ¬ st.IsShut s := by
        rw [IsShut, ← hloggers, hshut]
        decide
      have htake : line.tmpBuffer.take line.pos = text := by
        have := congrArg (List.take line.pos) hbuffer
        rwa [List.take_take, Nat.min_eq_left (Nat.le_succ _), List.take_left' hlen] at this
      refine ⟨hline.valid.reset, Or.inr ⟨hsilent, text, htext, Or.inr ⟨hshut, ?_⟩⟩, ?_⟩
      · show s'.out ++ [(st.logger, Emission.queued st.level (line.tmpBuffer.take line.pos))] = _
        rw [htake, h.out]
      · exact iff_of_true rfl fun hprints => hshut hprints.2.1

/-- A statement that starts with an empty line emits what is its own; only printing the line
leaves it. -/
theorem exec_sat (h : s.line.Valid p) (hpos : s.line.pos = kPrefixLen) (htid : NoNul p.threadId) :
    Sat (st.exec p s)
      (fun t => t.line.Valid p ∧ st.Emitted p s t ∧ (t.line.pos = kPrefixLen ↔ ¬ st.Prints p s))
      fun _ => ¬ st.Prints p s := by
  obtain ⟨s', hs', hloggers, hexec⟩ := exec_eq_flush h hpos st
  rw [hexec]
  by_cases hsilent : st.Silent s
  · obtain ⟨t, hok, hvalid, hpos, hout⟩ := hs'.flush_silent hsilent
    rw [hok]
    exact ⟨hvalid, Or.inl ⟨hsilent, hout⟩, iff_of_true hpos fun hprints => hprints.1 hsilent⟩
  · exact hs'.flush_line hloggers htid hsilent

/-- From a state between statements: isolation holds as long as only the last one prints. -/
theorem isolated_from (hs : s.line.Valid p) (hpos : s.line.pos = kPrefixLen)
    (htid : NoNul p.threadId) (stmts : List Statement) :
    Lts.StepsMeet (exec p) (Isolated p) s stmts ↔
      Lts.StepsMeet (exec p) (fun s st => ¬ st.Prints p s) s stmts.dropLast := by
  induction stmts generalizing s with
  | nil => simp [Lts.StepsMeet]
  | cons st stmts ih =>
    have hst : st.Isolated p s := ⟨hpos, fun t ht => ((exec_sat hs hpos htid).of_ok ht).2.1⟩
    cases stmts with
    | nil => simp [Lts.StepsMeet, hst]
    | cons next rest =>
      rw [List.dropLast_cons_cons, Lts.StepsMeet, Lts.StepsMeet]
      constructor
      · rintro ⟨-, hrest⟩
        have hprints : ¬ st.Prints p s := by
          intro hprints
          cases hexec : st.exec p s with
          | error e => exact (exec_sat hs hpos htid).of_error hexec hprints
          | ok t =>
            have hnext : t.line.pos = kPrefixLen := (hrest t hexec).1.1
            exact ((exec_sat hs hpos htid).of_ok hexec).2.2.mp hnext hprints
        refine ⟨hprints, fun t ht => ?_⟩
        obtain ⟨hvalid, -, hnext⟩ := (exec_sat hs hpos htid).of_ok ht
        exact (ih hvalid (hnext.mpr hprints)).mp (hrest t ht)
      · rintro ⟨hprints, hrest⟩
        refine ⟨hst, fun t ht => ?_⟩
        obtain ⟨hvalid, -, hnext⟩ := (exec_sat hs hpos htid).of_ok ht
        exact (ih hvalid (hnext.mpr hprints)).mpr (hrest t ht)

/-- Each statement emits its own text and no other's, exactly when none but the last prints. -/
theorem isolated_iff (p : Platform) (htid : NoNul p.threadId) (loggers : LoggerId → LoggerFlags)
    (stmts : List Statement) :
    Lts.StepsMeet (exec p) (Isolated p) (ThreadLog.init loggers) stmts ↔
      Lts.StepsMeet (exec p) (fun s st => ¬ st.Prints p s) (ThreadLog.init loggers)
        stmts.dropLast :=
  isolated_from (Line.valid_init p) rfl htid stmts

/-- One statement whose only fragment is the given message. -/
def say (l : LoggerId) (msg : String) : Statement := ⟨l, 1, [.append (.cstr (ascii msg))], ⟨0⟩⟩

theorem isolated_iff_running :
    Lts.StepsMeet (exec (.stopped (ascii "1"))) (Isolated (.stopped (ascii "1")))
      (ThreadLog.init fun _ => ⟨15, false⟩) [say 0 "A", say 1 "B"] :=
  (isolated_iff (.stopped (ascii "1")) (by decide) (fun _ => ⟨15, false⟩)
    [say 0 "A", say 1 "B"]).mpr ⟨fun h => Bool.false_ne_true h.2.1, fun _ _ => trivial⟩

/-- Two statements on a logger that is shut down: the second starts behind the first one's line,
and prints it again in front of its own text. -/
theorem second_line_repeats_first :
    (∃ s, Lts.execute (exec (.stopped (ascii "1"))) (ThreadLog.init fun _ => ⟨15, true⟩)
        [say 0 "A", say 0 "B"] = .ok s ∧
      s.out = [(0, .printed (ascii "2025-01-01[00:00:00.000000][INFO]A|1\n")),
        (0, .printed (ascii "2025-01-01[00:00:00.000000][INFO]A|1\nB|1\n"))]) ∧
      ¬ Lts.StepsMeet (exec (.stopped (ascii "1"))) (Isolated (.stopped (ascii "1")))
        (ThreadLog.init fun _ => ⟨15, true⟩) [say 0 "A", say 0 "B"] := by
  refine ⟨Sat.returns ?_, fun hmeet => ?_⟩
  · decide +kernel
  · obtain ⟨s, hok, hpos⟩ : ∃ s, exec (.stopped (ascii "1")) (ThreadLog.init fun _ => ⟨15, true⟩)
        (say 0 "A") = .ok s ∧ s.line.pos = 37 := Sat.returns (by decide +kernel)
    have hstart : s.line.pos = kPrefixLen := (hmeet.2 s hok).1.1
    rw [hpos] at hstart
    cases hstart

end Statement

end Hplsp
