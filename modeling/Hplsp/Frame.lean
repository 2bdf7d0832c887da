import Hplsp.BufferLimits
import Hplsp.Lib.LittleEndian

/-! The framing of queued records: what `Flush` appends and what `_Log` reads back. -/

namespace Hplsp

open Outcome

def kMaxCharPerLog : Nat := 2048

namespace LogLevel

def logINFO : UInt32 := 0x01
def logDEBUG : UInt32 := 0x02
def logWARN : UInt32 := 0x04
def logERROR : UInt32 := 0x08

end LogLevel

/-- A finished log line with its level: `pos_` bytes of `tmpBuffer_`, never empty. -/
structure Record where
  level : UInt32
  text : List UInt8
  text_ne : text ≠ []
  length_lt : text.length < 2 ^ 64
  deriving DecidableEq

namespace Record

/-- Level, length and text, as the three pushes of `Flush` lay them out. -/
def frame (r : Record) : List UInt8 :=
  LittleEndian.encode 4 r.level.toNat ++ LittleEndian.encode 8 r.text.length ++ r.text

def frames (rs : List Record) : List UInt8 := rs.flatMap frame

end Record

/-- The three pushes of `Flush`, one after the other. -/
def Buffer.pushRecord (b : Buffer) (r : Record) : Except Fault Buffer := do
  let (b, _) ← b.pushData (.block (LittleEndian.encode 4 r.level.toNat))
  let (b, _) ← b.pushData (.block (LittleEndian.encode 8 r.text.length))
  let (b, _) ← b.pushData (.block r.text)
  .ok b

def Buffer.pushRecords (b : Buffer) (rs : List Record) : Except Fault Buffer :=
  rs.foldlM pushRecord b

/-- `sizeof(int) + sizeof(size_t)`. -/
def minLogSize : Nat := 4 + 8

/-- A call `_WriteLog(level, len, data + pos)`. -/
structure WriteCall where
  level : UInt32
  len : Nat
  pos : Nat
  deriving DecidableEq, Repr

/-- Level, length and bytes of the call, read from the data it points into. -/
def WriteCall.resolve (data : List UInt8) (c : WriteCall) : UInt32 × Nat × List UInt8 :=
  (c.level, c.len, Cells.slice data c.pos c.len)

/-- One round of the loop of `_Log`. -/
inductive LogRound where
  | done
  | skip
  | write (c : WriteCall) (nOffset : Nat)
  deriving DecidableEq, Repr

def logRound (data : List UInt8) (nOffset : Nat) : Except Fault LogRound :=
  if Word64.add nOffset minLogSize < data.length then do
    let level ← Cells.readAt (.overrun .logData) data nOffset 4
    let len ← Cells.readAt (.overrun .logData) data (Word64.add nOffset 4) 8
    let len := LittleEndian.decode len
    if data.length < Word64.add (Word64.add nOffset minLogSize) len then .ok .skip
    else
      .ok (.write ⟨UInt32.ofNat (LittleEndian.decode level), len, Word64.add nOffset minLogSize⟩
        (Word64.add nOffset (Word64.add minLogSize len)))
  else .ok .done

/-- What `_Log` did: its calls of `_WriteLog`, the offset it returned, and whether it broke off. -/
structure LogResult where
  calls : List WriteCall
  nOffset : Nat
  skipped : Bool
  deriving DecidableEq, Repr

def logLoop (data : List UInt8) : Nat → Nat → Except Fault LogResult
  | 0, _ => .error .diverges
  | fuel + 1, nOffset => do
    match ← logRound data nOffset with
    | .done => .ok ⟨[], nOffset, false⟩
    | .skip => .ok ⟨[], nOffset, true⟩
    | .write c nOffset =>
      let r ← logLoop data fuel nOffset
      .ok ⟨c :: r.calls, r.nOffset, r.skipped⟩

/-- `_Log` on all of `data`. The offsets it tests are below `data.length`, so a run that takes
more rounds than that visits one of them twice and never ends. -/
def log (data : List UInt8) : Except Fault LogResult := logLoop data (data.length + 2) 0

section Decoding

variable {pre post data : List UInt8} {r : Record} {rs : List Record}

theorem length_frame (r : Record) : r.frame.length = minLogSize + r.text.length := by
  simp [Record.frame, minLogSize]
  omega

/-- At a record boundary the round reads the whole frame. -/
theorem logRound_frame (hlt : (pre ++ r.frame ++ post).length < 2 ^ 64) :
    logRound (pre ++ r.frame ++ post) pre.length =
      .ok (.write ⟨r.level, r.text.length, pre.length + minLogSize⟩
        (pre.length + r.frame.length)) := by
  have hframe := length_frame r
  have hpos : 0 < r.text.length := List.length_pos_iff.mpr r.text_ne
  have hlen : (pre ++ r.frame ++ post).length =
      pre.length + (minLogSize + r.text.length) + post.length := by
    simp only [List.length_append, hframe]
  have hmin : minLogSize = 12 := rfl
  have hlevel : Cells.slice (pre ++ r.frame ++ post) pre.length 4 =
      LittleEndian.encode 4 r.level.toNat := by
    simp [Cells.slice, Record.frame]
  have hsize : Cells.slice (pre ++ r.frame ++ post) (pre.length + 4) 8 =
      LittleEndian.encode 8 r.text.length := by
    simp [Cells.slice, Record.frame]
  rw [logRound, Word64.add_of_lt (by omega), Word64.add_of_lt (b := 4) (by omega),
    if_pos (by omega), Cells.readAt_eq _ (by omega), ok_bind, Cells.readAt_eq _ (by omega),
    ok_bind, hlevel, hsize, LittleEndian.decode_encode (n := r.text.length) r.length_lt,
    LittleEndian.decode_encode (n := r.level.toNat) r.level.toNat_lt]
  dsimp only
  rw [Word64.add_of_lt (b := r.text.length) (by omega), if_neg (by omega),
    Word64.add_of_lt (a := minLogSize) (by omega), Word64.add_of_lt (by omega),
    UInt32.ofNat_toNat, hframe]

/-- Twelve bytes or fewer are left: the strict guard ends the loop. -/
theorem logRound_tail (hlt : (pre ++ post).length < 2 ^ 63) (hpost : post.length ≤ minLogSize) :
    logRound (pre ++ post) pre.length = .ok .done := by
  simp only [List.length_append] at hlt
  have hmin : minLogSize = 12 := rfl
  rw [logRound, Word64.add_of_lt (by omega), if_neg (by simp only [List.length_append]; omega)]

/-- From any record boundary on, `_Log` hands over the remaining records and stops behind them. -/
theorem logLoop_frames (hpost : post.length ≤ minLogSize) :
    ∀ (rs : List Record) (fuel : Nat) (pre : List UInt8), rs.length < fuel →
      (pre ++ Record.frames rs ++ post).length < 2 ^ 63 →
      ∃ result, logLoop (pre ++ Record.frames rs ++ post) fuel pre.length = .ok result ∧
        result.skipped = false ∧ result.nOffset = (pre ++ Record.frames rs).length ∧
        result.calls.map (WriteCall.resolve (pre ++ Record.frames rs ++ post)) =
          rs.map fun r => (r.level, r.text.length, r.text) := by
  intro rs
  induction rs with
  | nil =>
    intro fuel pre hfuel hlt
    obtain ⟨fuel, rfl⟩ := Nat.exists_eq_succ_of_ne_zero (Nat.ne_of_gt hfuel)
    simp only [Record.frames, List.flatMap_nil, List.append_nil] at hlt ⊢
    rw [logLoop, logRound_tail hlt hpost, ok_bind]
    exact ⟨_, rfl, rfl, rfl, rfl⟩
  | cons r rs ih =>
    intro fuel pre hfuel hlt
    obtain ⟨fuel, rfl⟩ := Nat.exists_eq_succ_of_ne_zero (Nat.ne_of_gt (Nat.zero_lt_of_lt hfuel))
    have hsplit : pre ++ Record.frames (r :: rs) ++ post =
        pre ++ r.frame ++ (Record.frames rs ++ post) := by
      simp [Record.frames]
    have hshift : pre ++ r.frame ++ Record.frames rs ++ post =
        pre ++ Record.frames (r :: rs) ++ post := by
      simp [Record.frames]
    obtain ⟨result, hok, hskip, hoff, hcalls⟩ := ih fuel (pre ++ r.frame)
      (by simpa using hfuel) (by rw [hshift]; exact hlt)
    rw [hshift] at hok hcalls
    have hlt' : (pre ++ r.frame ++ (Record.frames rs ++ post)).length < 2 ^ 64 := by
      rw [← hsplit]
      omega
    have hround := logRound_frame hlt'
    rw [← hsplit] at hround
    rw [List.length_append] at hok
    refine ⟨⟨⟨r.level, r.text.length, pre.length + minLogSize⟩ :: result.calls, result.nOffset,
      result.skipped⟩, ?_, hskip, ?_, ?_⟩
    · rw [logLoop, hround, ok_bind]
      simp only [hok, ok_bind]
    · rw [hoff]
      simp [Record.frames]
    · have htext : Cells.slice (pre ++ Record.frames (r :: rs) ++ post)
          (pre.length + minLogSize) r.text.length = r.text := by
        rw [hsplit, Record.frame, ← List.append_assoc pre]
        exact Cells.slice_middle (by simp [minLogSize]) rfl
      rw [List.map_cons, List.map_cons, hcalls, WriteCall.resolve, htext]

theorem length_le_frames (rs : List Record) : rs.length ≤ (Record.frames rs).length := by
  induction rs with
  | nil => simp
  | cons r rs ih =>
    have := length_frame r
    simp only [Record.frames, List.flatMap_cons, List.length_append, List.length_cons] at ih ⊢
    simp only [minLogSize] at this
    omega

/-- `_Log` reads back every complete record in front of an unfinished one. -/
theorem log_frames (hpost : post.length ≤ minLogSize)
    (hlt : (Record.frames rs ++ post).length < 2 ^ 63) :
    ∃ result, log (Record.frames rs ++ post) = .ok result ∧ result.skipped = false ∧
      result.nOffset = (Record.frames rs).length ∧
      result.calls.map (WriteCall.resolve (Record.frames rs ++ post)) =
        rs.map fun r => (r.level, r.text.length, r.text) := by
  have hle := length_le_frames rs
  simpa [log] using logLoop_frames hpost rs ((Record.frames rs ++ post).length + 2) []
    (by simp only [List.length_append]; omega) (by simpa using hlt)

end Decoding

section Encoding

variable {b b' : Buffer} {r : Record} {rs : List Record}

/-- The three pushes append exactly one frame. -/
theorem Buffer.pushRecord_ok (h : b.Valid) (hok : b.pushRecord r = .ok b') :
    b'.Valid ∧ b'.contents = b.contents ++ r.frame := by
  obtain ⟨⟨b₁, n₁⟩, hlevel, hok⟩ := bind_eq_ok.mp hok
  obtain ⟨⟨b₂, n₂⟩, hlen, hok⟩ := bind_eq_ok.mp hok
  obtain ⟨⟨b₃, n₃⟩, htext, hok⟩ := bind_eq_ok.mp hok
  cases hok
  obtain ⟨hv₁, hc₁, -⟩ := pushData_ok h hlevel
  obtain ⟨hv₂, hc₂, -⟩ := pushData_ok hv₁ hlen
  obtain ⟨hv₃, hc₃, -⟩ := pushData_ok hv₂ htext
  refine ⟨hv₃, ?_⟩
  rw [hc₃, hc₂, hc₁]
  simp [Record.frame]

theorem Buffer.pushRecord_returns (h : b.Valid)
    (hsmall : b.readableSize + r.frame.length ≤ 2 ^ 62) :
    ∃ b', b.pushRecord r = .ok b' ∧ b'.Valid ∧ b'.contents = b.contents ++ r.frame := by
  have hframe := length_frame r
  have hmin : minLogSize = 12 := rfl
  rw [← h.length_contents] at hsmall
  obtain ⟨b₁, hlevel, hv₁, hc₁⟩ := pushData_returns h
    (show b.readableSize + (LittleEndian.encode 4 r.level.toNat).length ≤ 2 ^ 62 by
      rw [← h.length_contents, LittleEndian.length_encode]; omega)
  obtain ⟨b₂, hlen, hv₂, hc₂⟩ := pushData_returns hv₁
    (show b₁.readableSize + (LittleEndian.encode 8 r.text.length).length ≤ 2 ^ 62 by
      rw [← hv₁.length_contents, hc₁, List.length_append, LittleEndian.length_encode,
        LittleEndian.length_encode]; omega)
  obtain ⟨b₃, htext, hv₃, hc₃⟩ := pushData_returns hv₂
    (show b₂.readableSize + r.text.length ≤ 2 ^ 62 by
      rw [← hv₂.length_contents, hc₂, hc₁]
      simp only [List.length_append, LittleEndian.length_encode]; omega)
  have hok : b.pushRecord r = .ok b₃ := by
    simp only [pushRecord, hlevel, ok_bind, hlen, htext]
  exact ⟨b₃, hok, pushRecord_ok h hok⟩

theorem Buffer.pushRecords_ok (h : b.Valid) (hok : b.pushRecords rs = .ok b') :
    b'.Valid ∧ b'.contents = b.contents ++ Record.frames rs := by
  induction rs generalizing b with
  | nil =>
    cases hok
    simpa [Record.frames] using h
  | cons r rs ih =>
    obtain ⟨b₁, hpush, hrest⟩ := bind_eq_ok.mp hok
    obtain ⟨hv, hc⟩ := pushRecord_ok h hpush
    obtain ⟨hv', hc'⟩ := ih hv hrest
    exact ⟨hv', by rw [hc', hc]; simp [Record.frames]⟩

theorem Buffer.pushRecords_returns (h : b.Valid)
    (hsmall : b.readableSize + (Record.frames rs).length ≤ 2 ^ 62) :
    ∃ b', b.pushRecords rs = .ok b' := by
  induction rs generalizing b with
  | nil => exact ⟨b, rfl⟩
  | cons r rs ih =>
    simp only [Record.frames, List.flatMap_cons, List.length_append] at hsmall
    obtain ⟨b₁, hpush, hv, hc⟩ :=
      pushRecord_returns h (show b.readableSize + r.frame.length ≤ 2 ^ 62 by omega)
    obtain ⟨b', hrest⟩ := ih hv (by
      rw [← hv.length_contents, hc, List.length_append, h.length_contents, Record.frames]
      omega)
    exact ⟨b', bind_eq_ok.mpr ⟨b₁, hpush, hrest⟩⟩

/-- Framing round trip: `_Log` gives back every appended record, in order and unchanged, breaks
off nowhere and returns the whole size; and only memory can stop the appending. -/
theorem log_roundtrip (rs : List Record) :
    (∀ b, Buffer.new.pushRecords rs = .ok b →
      ∃ result, log b.contents = .ok result ∧ result.skipped = false ∧
        result.nOffset = b.readableSize ∧
        result.calls.map (WriteCall.resolve b.contents) =
          rs.map fun r => (r.level, r.text.length, r.text)) ∧
    ((Record.frames rs).length ≤ 2 ^ 62 → ∃ b, Buffer.new.pushRecords rs = .ok b) := by
  refine ⟨fun b hok => ?_, fun hsmall => ?_⟩
  · obtain ⟨hv, hc⟩ := Buffer.pushRecords_ok Buffer.valid_new hok
    have hread := hv.readableSize_eq
    have hwle := hv.write_le
    have hcap := hv.capacity_lt
    have hlen := hv.length_contents
    rw [Buffer.contents_new, List.nil_append] at hc
    rw [hc] at hlen ⊢
    have hlt : (Record.frames rs ++ []).length < 2 ^ 63 := by
      rw [List.append_nil]
      omega
    obtain ⟨result, hlog, hskip, hoff, hcalls⟩ := log_frames (Nat.zero_le _) hlt
    rw [List.append_nil] at hlog hcalls
    exact ⟨result, hlog, hskip, hoff.trans hlen, hcalls⟩
  · exact Buffer.pushRecords_returns Buffer.valid_new
      (by rw [← Buffer.valid_new.length_contents]; simpa using hsmall)

end Encoding

end Hplsp
