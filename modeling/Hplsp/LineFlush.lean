import Hplsp.LineInv

/-! The line that `Flush` finishes, stage by stage. -/

namespace Hplsp

open Outcome Printf

/-- A finished line of the second `sec`, without its NUL. -/
def Platform.IsLine (p : Platform) (sec : Nat) (level : UInt32) (body text : List UInt8) : Prop :=
  ∃ stamp, p.Stamp sec stamp ∧
    text = stamp ++ Line.levelPrefix level ++ body ++ p.tag ++ [chr '\n']

theorem Platform.IsLine.length {p : Platform} {sec : Nat} {level : UInt32} {body text : List UInt8}
    (h : p.IsLine sec level body text) :
    text.length = kPrefixLen + body.length + p.threadId.length + 2 := by
  obtain ⟨stamp, hstamp, rfl⟩ := h
  simp only [List.length_append, hstamp.length, (Line.levelPrefix_spec level).1, tag,
    List.length_cons, List.length_nil, kPrefixLen]
  omega

theorem Platform.IsLine.stamp {p : Platform} {sec : Nat} {level : UInt32} {body text : List UInt8}
    (h : p.IsLine sec level body text) : p.Stamp sec (text.take kPrefixTimeLen) := by
  obtain ⟨stamp, hstamp, rfl⟩ := h
  simp only [List.append_assoc]
  rw [List.take_left' hstamp.length]
  exact hstamp

theorem Platform.IsLine.noNul {p : Platform} {sec : Nat} {level : UInt32} {body text : List UInt8}
    (h : p.IsLine sec level body text) (hbody : NoNul body) (htid : NoNul p.threadId) :
    NoNul text := by
  obtain ⟨stamp, hstamp, rfl⟩ := h
  have htag : NoNul p.tag := noNul_append.mpr ⟨show NoNul [chr '|'] by decide, htid⟩
  simp only [noNul_append]
  exact ⟨⟨⟨⟨hstamp.noNul, (Line.levelPrefix_spec level).2⟩, hbody⟩, htag⟩, by decide⟩

namespace Line

variable {p : Platform} {l l' : Line} {fl : LoggerFlags} {level : UInt32} {now : Time}

/-- What `stamp` and `writeLevel` leave of a line: nothing behind the prefix changes. -/
structure Prefixed (p : Platform) (l l' : Line) (sec : Nat) : Prop where
  pos : l'.pos = l.pos
  curLevel : l'.curLevel = l.curLevel
  tid : l'.tid = l.tid
  tidLen : l'.tidLen = l.tidLen
  second : l'.lastLogSecond = sec
  length_tmpBuffer : l'.tmpBuffer.length = kMaxCharPerLog
  stamp : p.Stamp sec (l'.tmpBuffer.take kPrefixTimeLen)
  behind : l'.tmpBuffer.drop kPrefixLen = l.tmpBuffer.drop kPrefixLen

/-- The whole time, in a second other than that of the line before. -/
theorem stamp_of_ne (h : l.Valid p) (hsec : (now.seconds : Int) ≠ l.lastLogSecond) :
    Sat (l.stamp p now) (fun l' => Prefixed p l l' now.seconds ∧
        p.IsTime now (l'.tmpBuffer.take kPrefixTimeLen) ∧ l'.lastLogMSecond = l.lastLogMSecond)
      fun e => Time.formatDate (p.localtime now.seconds) = .error e := by
  rw [stamp, if_pos hsec, Time.formatTime_eq]
  cases hdate : Time.formatDate (p.localtime now.seconds) with
  | error e => rfl
  | ok date =>
    have htime : p.IsTime now (date ++ Time.micros now.microSeconds ++ [chr ']']) :=
      ⟨date, hdate, rfl⟩
    have hstamp := htime.stamp
    have htext : (date ++ Time.micros now.microSeconds ++ [chr ']'] ++ [0]).length = 28 := by
      rw [List.length_append, hstamp.length]
      rfl
    have hroom : 0 + (date ++ Time.micros now.microSeconds ++ [chr ']'] ++ [0]).length ≤
        l.tmpBuffer.length := by
      rw [htext, h.length_tmpBuffer]
      decide
    have htake := congrArg (List.take kPrefixTimeLen) (Cells.take_splice hroom)
    rw [List.take_take, htext, show min kPrefixTimeLen (0 + 28) = kPrefixTimeLen from rfl,
      List.take_zero, List.nil_append, List.take_left' hstamp.length] at htake
    simp only [Except.map, ok_bind, Cells.writeAt_eq _ hroom, sat_ok, and_true]
    refine ⟨⟨rfl, rfl, rfl, rfl, rfl, (Cells.length_splice hroom).trans h.length_tmpBuffer, ?_, ?_⟩,
      ?_⟩
    · rw [htake]
      exact hstamp
    · exact Cells.drop_splice hroom (by rw [htext]; decide)
    · rw [htake]
      exact htime

/-- The six digits and the bracket behind the date that stands there already, unless they are of
the microseconds stored last. -/
theorem stamp_of_eq (h : l.Valid p) (hsec : (now.seconds : Int) = l.lastLogSecond) :
    ∃ l', l.stamp p now = .ok l' ∧ Prefixed p l l' now.seconds ∧
      l'.lastLogMSecond = (now.microSeconds % 1000000 : Nat) ∧
      (l.lastLogMSecond ≠ (now.microSeconds % 1000000 : Nat) ∧
          p.IsTime now (l'.tmpBuffer.take kPrefixTimeLen) ∨
        l.lastLogMSecond = (now.microSeconds % 1000000 : Nat) ∧ l' = l) := by
  have hold := h.stamp now.seconds hsec.symm
  rw [stamp, if_neg (not_not.mpr hsec)]
  dsimp only
  split
  next husec =>
    have hdigits : stored 7 (padded 6 (decimal (now.microSeconds % 1000000))) =
        Time.micros now.microSeconds ++ [0] :=
      stored_eq (by rw [← Time.micros, Time.length_micros]; decide)
    have hlen : (Time.micros now.microSeconds ++ [0]).length = 7 := by
      rw [List.length_append, Time.length_micros]
      rfl
    have hroom : 20 + (Time.micros now.microSeconds ++ [0]).length ≤ l.tmpBuffer.length := by
      rw [hlen, h.length_tmpBuffer]
      decide
    have hlen' := (Cells.length_splice hroom).trans h.length_tmpBuffer
    have hroom' : 26 + [chr ']'].length ≤
        (Cells.splice l.tmpBuffer 20 (Time.micros now.microSeconds ++ [0])).length := by
      rw [hlen']
      decide
    rw [hdigits, Cells.writeAt_eq _ hroom, ok_bind, Cells.writeAt_eq _ hroom', ok_bind]
    have htime : p.IsTime now ((Cells.splice (Cells.splice l.tmpBuffer 20
        (Time.micros now.microSeconds ++ [0])) 26 [chr ']']).take kPrefixTimeLen) := by
      obtain ⟨date, usec, hdate, htext⟩ := hold
      refine ⟨date, hdate, ?_⟩
      have hdate20 : l.tmpBuffer.take 20 = date := by
        have := congrArg (List.take 20) htext
        rw [List.take_take, List.append_assoc, List.take_left' (Time.formatDate_ok hdate).1] at this
        exact this
      have hdigits26 := congrArg (List.take 26) (Cells.take_splice hroom)
      rw [List.take_take, hlen, hdate20, ← List.append_assoc, List.take_left' (by
        rw [List.length_append, Time.length_micros, (Time.formatDate_ok hdate).1])] at hdigits26
      calc
        _ = (Cells.splice l.tmpBuffer 20 (Time.micros now.microSeconds ++ [0])).take 26 ++
            [chr ']'] := Cells.take_splice hroom'
        _ = _ := congrArg (· ++ [chr ']']) hdigits26
    refine ⟨_, rfl, ⟨rfl, rfl, rfl, rfl, hsec.symm, (Cells.length_splice hroom').trans hlen',
      htime.stamp, ?_⟩, rfl, Or.inl ⟨Ne.symm husec, htime⟩⟩
    refine (Cells.drop_splice hroom' (by decide)).trans ?_
    exact Cells.drop_splice hroom (by rw [hlen]; decide)
  next husec =>
    have husec := (not_not.mp husec).symm
    exact ⟨l, rfl, ⟨rfl, rfl, rfl, rfl, hsec.symm, h.length_tmpBuffer, hold, rfl⟩, husec,
      Or.inr ⟨husec, rfl⟩⟩

/-- The stamp is written unless the tables lack its date. -/
theorem stamp_sat (h : l.Valid p) : Sat (l.stamp p now) (fun l' => Prefixed p l l' now.seconds)
    fun e => Time.formatDate (p.localtime now.seconds) = .error e := by
  by_cases hsec : (now.seconds : Int) = l.lastLogSecond
  · obtain ⟨l', hok, hl', -⟩ := stamp_of_eq h hsec
    rw [hok]
    exact hl'
  · exact (stamp_of_ne h hsec).mono (fun _ hl' => hl'.1) fun _ => id

theorem writeLevel_eq (hlen : l.tmpBuffer.length = kMaxCharPerLog) :
    l.writeLevel level = .ok { l with
      tmpBuffer := Cells.splice l.tmpBuffer kPrefixTimeLen (levelPrefix level) } := by
  have hroom : kPrefixTimeLen + (levelPrefix level).length ≤ l.tmpBuffer.length := by
    rw [(levelPrefix_spec level).1, hlen]
    decide
  rw [writeLevel, ← levelPrefix, Cells.writeAt_eq _ hroom, ok_bind]

/-- `tid_` has room for 15 characters and the bar. -/
theorem fillTid_sat (htid : l.tid.length = 16)
    (htag : l.tidLen = 0 ∨ p.threadId.length ≤ 15 ∧ l.tidLen = p.threadId.length + 1 ∧
      l.tid.take l.tidLen = p.tag) :
    Sat (l.fillTid p) (fun l' => p.threadId.length ≤ 15 ∧
        ∃ tid, l' = { l with tid := tid, tidLen := p.threadId.length + 1 } ∧ tid.length = 16 ∧
          tid.take (p.threadId.length + 1) = p.tag)
      fun e => 15 < p.threadId.length ∧ e = .overrun .tid := by
  rw [fillTid]
  split
  next =>
    dsimp only
    rw [show (1 : Nat) = 0 + [chr '|'].length from rfl, Cells.writeAt_writeAt]
    by_cases hfits : p.threadId.length ≤ 15
    · have hall : p.threadId.take (min p.threadId.length 16) = p.threadId :=
        List.take_of_length_le (by omega)
      have hroom : 0 + p.tag.length ≤ l.tid.length := by
        rw [htid, Platform.tag, List.length_cons]
        omega
      rw [hall, show [chr '|'] ++ p.threadId = p.tag from rfl, Cells.writeAt_eq _ hroom, ok_bind]
      refine ⟨hfits, _, by rw [Nat.min_eq_left (by omega)],
        (Cells.length_splice hroom).trans htid, ?_⟩
      have htake := Cells.take_splice hroom
      rwa [Nat.zero_add, List.take_zero, List.nil_append] at htake
    · have hover : ¬ 0 + ([chr '|'] ++ p.threadId.take (min p.threadId.length 16)).length ≤
          l.tid.length := by
        rw [List.length_append, List.length_take, List.length_singleton]
        omega
      rw [Cells.writeAt, if_neg hover]
      exact ⟨by omega, rfl⟩
  next hset =>
    rcases htag with hzero | ⟨hfits, hlen, htag⟩
    · exact absurd hzero hset
    · rw [hlen] at htag
      exact ⟨hfits, l.tid, by rw [← hlen], htid, htag⟩

/-- Tag, newline and NUL: nothing but the end of the buffer stops them. -/
theorem terminate_sat (hlen : l.tmpBuffer.length = kMaxCharPerLog)
    (htid : l.tidLen ≤ l.tid.length) :
    Sat l.terminate (fun l' => l.pos + l.tidLen + 2 ≤ kMaxCharPerLog ∧
        ∃ tmpBuffer, l' = { l with tmpBuffer := tmpBuffer, pos := l.pos + l.tidLen + 1 } ∧
          tmpBuffer.length = kMaxCharPerLog ∧ tmpBuffer.take (l.pos + l.tidLen + 2) =
            l.tmpBuffer.take l.pos ++ l.tid.take l.tidLen ++ [chr '\n'] ++ [0])
      fun e => kMaxCharPerLog < l.pos + l.tidLen + 2 ∧ e = .overrun .tmpBuffer := by
  have htag : (l.tid.take l.tidLen).length = l.tidLen := List.length_take_of_le htid
  have hlen' : (l.tid.take l.tidLen ++ [chr '\n'] ++ [0]).length = l.tidLen + 2 := by
    simp only [List.length_append, htag, List.length_singleton]
  have hwrites : l.terminate = Cells.writeAt (.overrun .tmpBuffer) l.tmpBuffer l.pos
      (l.tid.take l.tidLen ++ [chr '\n'] ++ [0]) >>= fun tmpBuffer =>
        .ok { l with tmpBuffer := tmpBuffer, pos := l.pos + l.tidLen + 1 } := by
    rw [← Cells.writeAt_writeAt, ← Cells.writeAt_writeAt, List.length_append, htag, terminate,
      Cells.readAt_eq _ (by omega)]
    rfl
  rw [hwrites]
  by_cases hroom : l.pos + l.tidLen + 2 ≤ kMaxCharPerLog
  · have hroom' : l.pos + (l.tid.take l.tidLen ++ [chr '\n'] ++ [0]).length ≤
        l.tmpBuffer.length := by omega
    rw [Cells.writeAt_eq _ hroom', ok_bind]
    refine ⟨hroom, _, rfl, (Cells.length_splice hroom').trans hlen, ?_⟩
    have htake := Cells.take_splice hroom'
    rwa [hlen', ← Nat.add_assoc, ← List.append_assoc, ← List.append_assoc] at htake
  · rw [Cells.writeAt, if_neg (by omega)]
    exact ⟨by omega, rfl⟩

/-- What `Flush` has made of `l` when it takes the lock. -/
structure Finished (p : Platform) (l l' : Line) (level : UInt32) (sec : Nat) : Prop where
  fits : l.TagFits p
  valid : l'.Valid p
  pos : l'.pos = l.pos + p.threadId.length + 2
  text : ∃ text, p.IsLine sec level l.body text ∧ text.length = l'.pos ∧
    l'.tmpBuffer.take (l'.pos + 1) = text ++ [0]

/-- The ways in which `Flush` can leave a buffer: the tables lack the date, or the tag has no
room. -/
def FinishFails (p : Platform) (l : Line) (sec : Nat) (e : Fault) : Prop :=
  ¬ p.Formats sec ∧ (e = .overrun .yearTable ∨ e = .overrun .numberTable) ∨
    p.Formats sec ∧ ¬ l.TagFits p ∧ (e = .overrun .tid ∨ e = .overrun .tmpBuffer)

/-- The prefix in front of the text, once the level stands behind the stamp. -/
theorem Prefixed.take_splice {sec : Nat} (h : Prefixed p l l' sec) (hl : l.Valid p)
    (level : UInt32) :
    ∃ stamp, p.Stamp sec stamp ∧
      (Cells.splice l'.tmpBuffer kPrefixTimeLen (levelPrefix level)).take l.pos =
        stamp ++ levelPrefix level ++ l.body := by
  have hlevel := (levelPrefix_spec level).1
  have hroom : kPrefixTimeLen + (levelPrefix level).length ≤ l'.tmpBuffer.length := by
    rw [hlevel, h.length_tmpBuffer]
    decide
  have hsum : kPrefixTimeLen + (levelPrefix level).length = kPrefixLen := by
    rw [hlevel]
    rfl
  refine ⟨_, h.stamp, ?_⟩
  calc
    _ = (Cells.splice l'.tmpBuffer kPrefixTimeLen (levelPrefix level)).take
          (kPrefixLen + (l.pos - kPrefixLen)) := by rw [Nat.add_sub_cancel' hl.pos_ge]
    _ = (Cells.splice l'.tmpBuffer kPrefixTimeLen (levelPrefix level)).take kPrefixLen ++
          Cells.slice (Cells.splice l'.tmpBuffer kPrefixTimeLen (levelPrefix level)) kPrefixLen
            (l.pos - kPrefixLen) := List.take_add
    _ = _ := by
      rw [← hsum, Cells.take_splice hroom, hsum, Cells.slice,
        Cells.drop_splice hroom (Nat.le_of_eq hsum), h.behind]
      rfl

/-- A buffer that begins with a line, and the NUL behind it, is a finished one. -/
theorem finished_of_text (h : l.Valid p) (hfits : l.TagFits p) {text : List UInt8}
    (hline : p.IsLine now.seconds level l.body text)
    (htext : l'.tmpBuffer.take (l'.pos + 1) = text ++ [0])
    (hpos : l'.pos = l.pos + p.threadId.length + 2) (hlen : l'.tmpBuffer.length = kMaxCharPerLog)
    (hsec : l'.lastLogSecond = now.seconds) (hlentid : l'.tid.length = 16)
    (htidLen : l'.tidLen = p.threadId.length + 1) (htid : l'.tid.take l'.tidLen = p.tag) :
    Finished p l l' level now.seconds := by
  have hge := h.pos_ge
  have hroom := hfits.2
  have hlength : text.length = l'.pos := by
    rw [hline.length, h.length_body, hpos]
    omega
  have hprefix : kPrefixTimeLen ≤ l'.pos := by
    rw [hpos]
    exact Nat.le_trans (show kPrefixTimeLen ≤ kPrefixLen by decide) (by omega)
  refine ⟨hfits, ⟨hlen, by omega, by omega, ?_, hlentid, Or.inr ⟨hfits.1, htidLen, htid⟩⟩, hpos,
    text, hline, hlength, htext⟩
  intro sec heq
  obtain rfl : now.seconds = sec := Int.ofNat_inj.mp (hsec.symm.trans heq)
  have htake := congrArg (List.take kPrefixTimeLen) htext
  rw [List.take_take, Nat.min_eq_left (by omega),
    List.take_append_of_le_length (by omega)] at htake
  rw [htake]
  exact hline.stamp

theorem finish_sat (h : l.Valid p) (level : UInt32) (now : Time) : Sat (l.finish p level now)
    (fun l' => Finished p l l' level now.seconds) (FinishFails p l now.seconds) := by
  refine ((stamp_sat h).mono (fun _ h => h) ?_).bind fun l₁ h₁ => ?_
  · intro e herr
    refine Or.inl ⟨?_, Time.formatDate_error herr⟩
    rintro ⟨date, hdate⟩
    rw [hdate] at herr
    cases herr
  have hformats := h₁.stamp.formats
  obtain ⟨stamp, hstamp, htext⟩ := h₁.take_splice h level
  have hlen : (Cells.splice l₁.tmpBuffer kPrefixTimeLen (levelPrefix level)).length =
      kMaxCharPerLog := by
    rw [Cells.length_splice, h₁.length_tmpBuffer]
    rw [(levelPrefix_spec level).1, h₁.length_tmpBuffer]
    decide
  rw [writeLevel_eq h₁.length_tmpBuffer, ok_bind]
  refine ((fillTid_sat (h₁.tid ▸ h.length_tid) ?_).mono (fun _ h => h) ?_).bind ?_
  · dsimp only
    rw [h₁.tid, h₁.tidLen]
    exact h.tag
  · rintro e ⟨hlong, rfl⟩
    exact Or.inr ⟨hformats, fun hfits => absurd hfits.1 (by omega), Or.inl rfl⟩
  rintro l₂ ⟨hshort, tid, rfl, hlentid, htid⟩
  refine (terminate_sat hlen (by dsimp only; omega)).mono ?_ ?_
  · rintro l' ⟨hroom, final, rfl, hlenfinal, hfinal⟩
    dsimp only at hroom hfinal
    rw [h₁.pos] at hroom hfinal
    rw [htid, htext] at hfinal
    refine finished_of_text h ⟨hshort, by omega⟩ ⟨stamp, hstamp, rfl⟩ ?_ ?_ hlenfinal h₁.second
      hlentid rfl htid
    · dsimp only
      rw [h₁.pos, ← hfinal]
    · dsimp only
      rw [h₁.pos]
      omega
  · rintro e ⟨hlong, rfl⟩
    refine Or.inr ⟨hformats, fun hfits => ?_, Or.inr rfl⟩
    have hfits := hfits.2
    dsimp only at hlong
    rw [h₁.pos] at hlong
    omega

end Line

end Hplsp
