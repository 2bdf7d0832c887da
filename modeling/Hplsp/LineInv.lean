import Hplsp.Line

/-! What the stages of `Flush` and the overloads of `operator<<` do to a whole line buffer. -/

namespace Hplsp

open Outcome Printf

namespace Platform

variable {p : Platform} {sec : Nat} {text : List UInt8}

/-- The tables have the texts for that second. -/
def Formats (p : Platform) (sec : Nat) : Prop :=
  ∃ date, Time.formatDate (p.localtime sec) = .ok date

instance (p : Platform) (sec : Nat) : Decidable (p.Formats sec) :=
  match h : Time.formatDate (p.localtime sec) with
  | .ok date => isTrue ⟨date, h⟩
  | .error _ => isFalse (by simp [Formats, h])

/-- A time in front of a line of that second, with any microseconds. -/
def Stamp (p : Platform) (sec : Nat) (text : List UInt8) : Prop :=
  ∃ date usec, Time.formatDate (p.localtime sec) = .ok date ∧
    text = date ++ Time.micros usec ++ [chr ']']

/-- The text that `FormatTime` makes of a time. -/
def IsTime (p : Platform) (now : Time) (text : List UInt8) : Prop :=
  ∃ date, Time.formatDate (p.localtime now.seconds) = .ok date ∧
    text = date ++ Time.micros now.microSeconds ++ [chr ']']

/-- The tag behind the text of a line. -/
def tag (p : Platform) : List UInt8 := chr '|' :: p.threadId

theorem IsTime.stamp {now : Time} (h : p.IsTime now text) : p.Stamp now.seconds text := by
  obtain ⟨date, hdate, htext⟩ := h
  exact ⟨date, _, hdate, htext⟩

theorem Stamp.formats (h : p.Stamp sec text) : p.Formats sec := by
  obtain ⟨date, usec, hdate, -⟩ := h
  exact ⟨date, hdate⟩

theorem Stamp.length (h : p.Stamp sec text) : text.length = kPrefixTimeLen := by
  obtain ⟨date, usec, hdate, rfl⟩ := h
  have hlen := (Time.formatDate_ok hdate).1
  simp [hlen, Time.length_micros, kPrefixTimeLen]

theorem Stamp.noNul (h : p.Stamp sec text) : NoNul text := by
  obtain ⟨date, usec, hdate, rfl⟩ := h
  simp only [noNul_append]
  exact ⟨⟨(Time.formatDate_ok hdate).2, Time.noNul_micros⟩, by decide⟩

end Platform

namespace Fragment

/-- The values whose text is one character longer than the room that the overload asks for. -/
def Long : Fragment → Prop
  | .uchar a => 128 ≤ a.toNat ∧ a.toNat ≤ 156
  | .short a => a.toInt ≤ -10000
  | .int a => a.toInt ≤ -1000000000
  | _ => False

/-- The same byte as a `signed char`. -/
theorem toInt_toInt8 (a : UInt8) :
    a.toInt8.toInt = if a.toNat < 128 then (a.toNat : Int) else a.toNat - 256 := by
  have hlt := a.toNat_lt
  show a.toBitVec.toInt = _
  rw [BitVec.toInt_eq_toNat_cond, UInt8.toNat_toBitVec]
  split <;> split <;> omega

theorem length_text_of_short {f : Fragment} (h : f.text.length ≤ f.width) (hlong : ¬ f.Long) :
    (f.text.length ≤ f.width ↔ ¬ f.Long) ∧ f.text.length ≤ f.width + 1 :=
  ⟨iff_of_true h hlong, Nat.le_succ_of_le h⟩

/-- The room that an overload asks for is enough, except that the sign of a `char`, a `short` or
an `int` can make one character more. -/
theorem length_text (f : Fragment) :
    (f.text.length ≤ f.width ↔ ¬ f.Long) ∧ f.text.length ≤ f.width + 1 := by
  cases f with
  | cstr msg => exact length_text_of_short (Nat.le_refl _) id
  | ucstr msg => exact length_text_of_short (Nat.le_refl _) id
  | string msg => exact length_text_of_short (Nat.le_refl _) id
  | ptr a =>
    exact length_text_of_short (length_hexPadded (k := 16) a.toNat_lt (by decide) rfl).le id
  | uchar a =>
    have hlen := length_signed_le_iff (z := a.toInt8.toInt) (show 0 < 2 by decide)
    have htoInt := toInt_toInt8 a
    have := a.toNat_lt
    refine ⟨?_, length_signed_le (k := 3) (by decide) (by split at htoInt <;> omega)⟩
    rw [text, width, Long, hlen, htoInt]
    split <;> omega
  | char a =>
    have := a.toUInt8.toNat_lt
    exact length_text_of_short (length_decimal_le (k := 3) (by decide) (by omega)) id
  | ushort a =>
    have := a.toNat_lt
    exact length_text_of_short (length_decimal_le (k := 5) (by decide) (by omega)) id
  | short a =>
    have hlen := length_signed_le_iff (z := a.toInt) (show 0 < 4 by decide)
    have := a.toInt_lt
    have := a.le_toInt
    refine ⟨?_, length_signed_le (k := 5) (by decide) (by omega)⟩
    rw [text, width, Long, hlen]
    omega
  | uint a =>
    have := a.toNat_lt
    exact length_text_of_short (length_decimal_le (k := 10) (by decide) (by omega)) id
  | int a =>
    have hlen := length_signed_le_iff (z := a.toInt) (show 0 < 9 by decide)
    have := a.toInt_lt
    have := a.le_toInt
    refine ⟨?_, length_signed_le (k := 10) (by decide) (by omega)⟩
    rw [text, width, Long, hlen]
    omega
  | ulong a =>
    have := a.toNat_lt
    exact length_text_of_short (length_decimal_le (k := 20) (by decide) (by omega)) id
  | long a =>
    have := a.toInt_lt
    have := a.le_toInt
    exact length_text_of_short (length_signed_le (k := 19) (by decide) (by omega)) id
  | ulonglong a =>
    have := a.toNat_lt
    exact length_text_of_short (length_decimal_le (k := 20) (by decide) (by omega)) id
  | longlong a =>
    have := a.toInt_lt
    have := a.le_toInt
    exact length_text_of_short (length_signed_le (k := 19) (by decide) (by omega)) id
  | double a => exact length_text_of_short (Nat.le_trans a.length_le (show 13 ≤ 20 by decide)) id

end Fragment

namespace Line

variable {p : Platform} {l : Line} {fl : LoggerFlags} {level : UInt32} {now : Time}
  {f : Fragment} {msg text : List UInt8} {width n : Nat}

/-- The invariant of a thread's statics: the stamp in the buffer is of `lastLogSecond_`, and a
filled `tid_` is the thread's tag. -/
structure Valid (p : Platform) (l : Line) : Prop where
  length_tmpBuffer : l.tmpBuffer.length = kMaxCharPerLog
  pos_ge : kPrefixLen ≤ l.pos
  pos_le : l.pos ≤ kMaxCharPerLog
  stamp : ∀ sec : Nat, l.lastLogSecond = sec → p.Stamp sec (l.tmpBuffer.take kPrefixTimeLen)
  length_tid : l.tid.length = 16
  tag : l.tidLen = 0 ∨ p.threadId.length ≤ 15 ∧ l.tidLen = p.threadId.length + 1 ∧
    l.tid.take l.tidLen = p.tag

/-- The text of the line so far. -/
def body (l : Line) : List UInt8 := Cells.slice l.tmpBuffer kPrefixLen (l.pos - kPrefixLen)

/-- There is room in `tid_` for the thread's id, and in `tmpBuffer_` for tag, newline and NUL. -/
def TagFits (p : Platform) (l : Line) : Prop :=
  p.threadId.length ≤ 15 ∧ l.pos + p.threadId.length + 3 ≤ kMaxCharPerLog

/-- `kPrefixLevelLen` bytes of the level's text. -/
def levelPrefix (level : UInt32) : List UInt8 := (levelText level).take kPrefixLevelLen

theorem levelPrefix_spec (level : UInt32) :
    (levelPrefix level).length = kPrefixLevelLen ∧ NoNul (levelPrefix level) := by
  unfold levelPrefix levelText
  split_ifs <;> decide

theorem valid_init (p : Platform) : init.Valid p where
  length_tmpBuffer := by simp [init]
  pos_ge := Nat.le_refl _
  pos_le := by decide
  stamp := by
    intro sec h
    have : (-1 : Int) = sec := h
    omega
  length_tid := by simp [init]
  tag := Or.inl rfl

theorem Valid.reset (h : l.Valid p) : l.reset.Valid p :=
  { h with pos_ge := Nat.le_refl _, pos_le := show kPrefixLen ≤ kMaxCharPerLog by decide }

theorem Valid.setCurLevel (h : l.Valid p) (level : UInt32) :
    ({ l with curLevel := level } : Line).Valid p :=
  { h with }

section Append

/-- `msg` stored at `pos_`, which moves by `n`. -/
def written (l : Line) (msg : List UInt8) (n : Nat) : Line :=
  { l with tmpBuffer := Cells.splice l.tmpBuffer l.pos msg, pos := l.pos + n }

theorem Valid.room (h : l.Valid p) (hmsg : l.pos + msg.length ≤ kMaxCharPerLog) :
    l.pos + msg.length ≤ l.tmpBuffer.length := by
  rw [h.length_tmpBuffer]
  exact hmsg

theorem Valid.written (h : l.Valid p) (hmsg : l.pos + msg.length ≤ kMaxCharPerLog)
    (hle : l.pos + n ≤ kMaxCharPerLog) : (l.written msg n).Valid p := by
  have hstamp : kPrefixTimeLen ≤ l.pos := Nat.le_trans (by decide) h.pos_ge
  refine { h with
    length_tmpBuffer := ?_, pos_ge := Nat.le_add_right_of_le h.pos_ge, pos_le := hle, stamp := ?_ }
  · exact (Cells.length_splice (h.room hmsg)).trans h.length_tmpBuffer
  · intro sec hsec
    show p.Stamp sec ((Cells.splice l.tmpBuffer l.pos msg).take kPrefixTimeLen)
    rw [Cells.take_splice_of_le (h.room hmsg) hstamp]
    exact h.stamp sec hsec

theorem Valid.length_body (h : l.Valid p) : l.body.length = l.pos - kPrefixLen := by
  have hge := h.pos_ge
  have hle := h.pos_le
  exact Cells.length_slice (by rw [h.length_tmpBuffer]; omega)

theorem Valid.body_written (h : l.Valid p) (hmsg : l.pos + msg.length ≤ kMaxCharPerLog)
    (hn : n ≤ msg.length) : (l.written msg n).body = l.body ++ msg.take n := by
  have hge := h.pos_ge
  have happend := congrArg (List.take (l.pos - kPrefixLen + n))
    (Cells.slice_splice_append hge (h.room hmsg))
  have hpos : l.pos + n - kPrefixLen = l.pos - kPrefixLen + n := by omega
  rw [Cells.take_slice (by omega)] at happend
  show Cells.slice (Cells.splice l.tmpBuffer l.pos msg) kPrefixLen (l.pos + n - kPrefixLen) = _
  rw [hpos, happend, ← body, ← h.length_body, List.take_length_add_append]

/-- What an overload that accepts its argument leaves; the last byte of a text that ends at the
end of the buffer is the NUL's. -/
structure Appended (p : Platform) (l l' : Line) (text : List UInt8) : Prop where
  valid : l'.Valid p
  pos : l'.pos = l.pos + text.length
  curLevel : l'.curLevel = l.curLevel
  body : l'.pos < kMaxCharPerLog → l'.body = l.body ++ text

theorem appendText_eq (hlen : l.tmpBuffer.length = kMaxCharPerLog)
    (hroom : l.pos + msg.length < kMaxCharPerLog) :
    l.appendText msg = .ok (l.written msg msg.length) := by
  rw [appendText, if_neg (by omega), Cells.writeAt_eq _ (by omega), ok_bind, written]

theorem appendNumber_eq (hlen : l.tmpBuffer.length = kMaxCharPerLog)
    (hroom : l.pos + width < kMaxCharPerLog) : l.appendNumber width text =
      .ok (l.written (stored (kMaxCharPerLog - l.pos) text) text.length) := by
  have hstored : (stored (kMaxCharPerLog - l.pos) text).length ≤ _ := length_stored_le
  rw [appendNumber, if_pos hroom, Cells.writeAt_eq _ (by omega), ok_bind, written]

/-- An overload that accepts its argument stores all of the text that leaves room for the NUL. -/
theorem append_eq (hlen : l.tmpBuffer.length = kMaxCharPerLog)
    (hforbid : fl.isLevelForbid l.curLevel = false) (hfits : l.pos + f.width < kMaxCharPerLog) :
    ∃ bytes, l.append fl f = .ok (l.written bytes f.text.length) ∧
      l.pos + bytes.length ≤ kMaxCharPerLog ∧
      (l.pos + f.text.length < kMaxCharPerLog → f.text <+: bytes) := by
  have hstored : (stored (kMaxCharPerLog - l.pos) f.text).length ≤ _ := length_stored_le
  have hwhole : l.pos + f.text.length < kMaxCharPerLog →
      f.text <+: stored (kMaxCharPerLog - l.pos) f.text := fun hlt =>
    ⟨[0], (stored_eq (by omega)).symm⟩
  unfold append
  rw [if_neg (by simp [hforbid])]
  cases f with
  | cstr msg => exact ⟨_, appendText_eq hlen hfits, hfits.le, fun _ => List.prefix_rfl⟩
  | ucstr msg => exact ⟨_, appendText_eq hlen hfits, hfits.le, fun _ => List.prefix_rfl⟩
  | string msg => exact ⟨_, appendText_eq hlen hfits, hfits.le, fun _ => List.prefix_rfl⟩
  | _ => exact ⟨_, appendNumber_eq hlen hfits, by omega, hwhole⟩

theorem length_text_le (f : Fragment) : f.text.length ≤ f.width + 1 := f.length_text.2

theorem noNul_text (f : Fragment) : NoNul f.text := by
  cases f with
  | cstr msg => exact noNul_takeWhile msg
  | ucstr msg => exact noNul_takeWhile msg
  | string msg => exact noNul_takeWhile msg
  | ptr a => exact noNul_hexPadded 18 _
  | double a => exact a.noNul
  | uchar a => exact noNul_signed _
  | short a => exact noNul_signed _
  | int a => exact noNul_signed _
  | long a => exact noNul_signed _
  | longlong a => exact noNul_signed _
  | _ => exact noNul_decimal _

theorem append_of_forbid (hforbid : fl.isLevelForbid l.curLevel = true) : l.append fl f = .ok l :=
  if_pos hforbid

theorem append_of_not_fits (hfits : kMaxCharPerLog ≤ l.pos + f.width) : l.append fl f = .ok l := by
  cases hforbid : fl.isLevelForbid l.curLevel with
  | true => exact append_of_forbid hforbid
  | false =>
    unfold append
    rw [if_neg (by simp [hforbid])]
    cases f with
    | cstr msg => exact if_pos hfits
    | ucstr msg => exact if_pos hfits
    | string msg => exact if_pos hfits
    | _ => exact if_neg (Nat.not_lt.mpr hfits)

theorem append_of_fits (h : l.Valid p) (hforbid : fl.isLevelForbid l.curLevel = false)
    (hfits : l.pos + f.width < kMaxCharPerLog) :
    ∃ l', l.append fl f = .ok l' ∧ Appended p l l' f.text := by
  have htext := length_text_le f
  obtain ⟨bytes, hok, hbytes, hwhole⟩ := append_eq h.length_tmpBuffer hforbid hfits
  refine ⟨_, hok, h.written hbytes (by omega), rfl, rfl, fun hlt => ?_⟩
  obtain ⟨rest, rfl⟩ := hwhole hlt
  rw [h.body_written hbytes (by simp), List.take_left]

end Append

end Line

end Hplsp
