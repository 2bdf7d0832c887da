import Hplsp.LoggerStep

/-! A thread that flushes to a logger which nobody updates fills its buffer. -/

namespace Hplsp

open Outcome

namespace Logger

variable {Tid : Type} [LinearOrder Tid] {s s' : Logger Tid} {t : Tid} {a fresh : Addr}
  {r : Record} {flushed : List (Tid × Entry)} {size : Nat}

/-- A push to the buffer that a thread is filling, with room in it. -/
theorem touched_push (info : BufferInfo Tid) (hvalid : info.buffer.Valid) (bytes : List UInt8)
    (hsmall : info.buffer.readableSize + bytes.length ≤ 2 ^ 62) :
    ∃ b : Buffer, b.Valid ∧ b.readableSize = info.buffer.readableSize + bytes.length ∧
      ∀ (s : Logger Tid) t a pc next flushed, (s.touched t a info pc flushed).push t a bytes next =
        s.touched t a { info with buffer := b } next flushed := by
  obtain ⟨b, hok, hb, hcontents⟩ := Buffer.pushData_returns hvalid hsmall
  have hlength := congrArg List.length hcontents
  rw [List.length_append, hb.length_contents, hvalid.length_contents] at hlength
  refine ⟨b, hb, hlength, fun s t a pc next flushed => ?_⟩
  simp only [push, touched_heap, hok]
  simp [touched, setPc]

/-- The bytes of a record in a buffer. -/
def frameSize (r : Record) : Nat := 4 + 8 + r.text.length

/-- Where a thread goes on when its `Flush` has left a buffer. -/
def released (b : Buffer) : FlushPc :=
  if kFlushThreshold < b.readableSize then .addBusyLog else .idle

/-- The three pushes and the release, on a buffer with room. -/
theorem fill_run (info : BufferInfo Tid) (hlive : s.fault = none) (hvalid : info.buffer.Valid)
    (hsmall : info.buffer.readableSize + frameSize r ≤ 2 ^ 62) :
    ∃ b : Buffer, b.Valid ∧ b.readableSize = info.buffer.readableSize + frameSize r ∧
      Lts.Run Step (s.touched t a info (.pushLevel r a) flushed)
        [.push t, .push t, .push t, .release t]
        (s.touched t a ⟨false, b, info.owner⟩ (released b) (flushed ++ [(t, r.entry)])) := by
  rw [frameSize] at hsmall ⊢
  obtain ⟨b₁, hvalid₁, hsize₁, hpush₁⟩ :=
    touched_push info hvalid (LittleEndian.encode 4 r.level.toNat) (by simp; omega)
  obtain ⟨b₂, hvalid₂, hsize₂, hpush₂⟩ :=
    touched_push { info with buffer := b₁ } hvalid₁ (LittleEndian.encode 8 r.text.length)
      (by simp at hsize₁ ⊢; omega)
  obtain ⟨b₃, hvalid₃, hsize₃, hpush₃⟩ :=
    touched_push { info with buffer := b₂ } hvalid₂ r.text (by simp at hsize₁ hsize₂ ⊢; omega)
  refine ⟨b₃, hvalid₃, by simp at hsize₁ hsize₂ hsize₃; omega, ?_⟩
  have hlevel : Step (s.touched t a info (.pushLevel r a) flushed) (.push t)
      (s.touched t a { info with buffer := b₁ } (.pushLength r a) flushed) := by
    rw [← hpush₁ s t a (.pushLevel r a)]
    exact .pushLevel hlive touched_pc
  have hlength : Step (s.touched t a { info with buffer := b₁ } (.pushLength r a) flushed) (.push t)
      (s.touched t a { info with buffer := b₂ } (.pushText r a) flushed) := by
    rw [← hpush₂ s t a (.pushLength r a)]
    exact .pushLength hlive touched_pc
  have htext : Step (s.touched t a { info with buffer := b₂ } (.pushText r a) flushed) (.push t)
      (s.touched t a { info with buffer := b₃ } (.release r a) flushed) := by
    rw [← hpush₃ s t a (.pushText r a)]
    exact .pushText hlive touched_pc
  have hrelease : (s.touched t a { info with buffer := b₃ } (.release r a) flushed).release t r a =
      s.touched t a ⟨false, b₃, info.owner⟩ (released b₃) (flushed ++ [(t, r.entry)]) := by
    simp [release, released, touched, setPc]
  rw [← hrelease]
  exact .cons hlevel (.cons hlength (.cons htext (.cons (.release hlive touched_pc) (.refl _))))

/-- The steps of a `Flush` that do not wait for `mutex_` of the manager. -/
def Act.ofFlush : Act Tid → Bool
  | .flush _ _ | .lockFlush _ _ | .push _ | .release _ => true
  | _ => false

/-- `t` has left a buffer of the given size on a logger that still runs. -/
structure Left (s : Logger Tid) (t : Tid) (r : Record) (size : Nat) : Prop where
  fault : s.fault = none
  shut : s.shutdown = false
  level : s.isLevelForbid r.level = false
  entry : ∃ a b, s.buffers.lookup t = some a ∧ s.heap a = some ⟨false, b, t⟩ ∧ b.Valid ∧
    b.readableSize = size ∧ s.pc t = released b
  /-- There is memory for one more object. -/
  fresh : ∃ a, s.heap a = none

/-- The whole `Flush` of a record. -/
def flushActs (t : Tid) (r : Record) (fresh : Addr) : List (Act Tid) :=
  [.flush t r, .lockFlush t fresh, .push t, .push t, .push t, .release t]

omit [LinearOrder Tid] in
theorem ofFlush_flushActs : ∀ act ∈ flushActs t r fresh, act.ofFlush = true := by
  simp [flushActs, Act.ofFlush]

omit [LinearOrder Tid] in
theorem ofFlush_append {acts acts' : List (Act Tid)} (h : ∀ act ∈ acts, act.ofFlush = true)
    (h' : ∀ act ∈ acts', act.ofFlush = true) : ∀ act ∈ acts ++ acts', act.ofFlush = true :=
  fun act hact => (List.mem_append.mp hact).elim (h act) (h' act)

/-- What is left when a thread has filled the buffer that it has acquired. -/
theorem left_of_acquired {s₀ : Logger Tid} {b : Buffer} (hlive : s.fault = none)
    (hshut : s.shutdown = false) (hlevel : s.isLevelForbid r.level = false)
    (hlookup : s.buffers.lookup t = some a) (hfresh : s.heap fresh = none) (hne : fresh ≠ a)
    (hvalid : b.Valid) (hsmall : b.readableSize + frameSize r ≤ 2 ^ 62)
    {addr : Addr} (hacquired : Lts.Run Step s₀ [.flush t r, .lockFlush t addr]
      (s.touched t a ⟨true, b, t⟩ (.pushLevel r a) flushed)) :
    ∃ s', Lts.Run Step s₀ (flushActs t r addr) s' ∧ s'.Left t r (b.readableSize + frameSize r) := by
  obtain ⟨b', hvalid', hsize, hrun⟩ :=
    fill_run ⟨true, b, t⟩ (s := s) (t := t) (a := a) (r := r) hlive hvalid hsmall
  refine ⟨_, Lts.run_append.mpr ⟨_, hacquired, hrun⟩, hlive, hshut, hlevel,
    ⟨a, b', hlookup, touched_heap, hvalid', hsize, touched_pc⟩, fresh, ?_⟩
  rw [touched_heap_ne hne]
  exact hfresh

/-- One more `Flush` adds one more frame. -/
theorem Left.flush (h : s.Left t r size) (hsize : size ≤ kFlushThreshold)
    (hsmall : kFlushThreshold + frameSize r ≤ 2 ^ 62) :
    ∃ fresh s', Lts.Run Step s (flushActs t r fresh) s' ∧ s'.Left t r (size + frameSize r) := by
  obtain ⟨a, b, hlookup, hheap, hvalid, rfl, hpc⟩ := h.entry
  obtain ⟨fresh, hfresh⟩ := h.fresh
  have hidle : s.pc t = .idle := hpc.trans (if_neg (Nat.not_lt.mpr hsize))
  have hne : fresh ≠ a := by
    rintro rfl
    rw [hfresh] at hheap
    cases hheap
  have hacquire : (s.setPc t (.ready r)).lockFlush t r fresh =
      s.touched t a ⟨true, b, t⟩ (.pushLevel r a) s.flushed := by
    simp [lockFlush, acquire, touched, setPc, h.shut, hlookup, hheap]
  have hrun : Lts.Run Step s [.flush t r, .lockFlush t fresh]
      (s.touched t a ⟨true, b, t⟩ (.pushLevel r a) s.flushed) := by
    rw [← hacquire]
    exact .cons (.flush h.fault hidle h.level)
      (.cons (.lockFlush h.fault (by simp [setPc]) hfresh) (.refl _))
  exact ⟨fresh, left_of_acquired h.fault h.shut h.level hlookup hfresh hne hvalid (by omega) hrun⟩

theorem init_flush (level : UInt32) (t : Tid) (hlevel : r.level &&& level ≠ 0)
    (hsmall : kFlushThreshold + frameSize r ≤ 2 ^ 62) :
    ∃ s', Lts.Run Step (init level) (flushActs t r 0) s' ∧ s'.Left t r (frameSize r) := by
  have hforbid : (init level : Logger Tid).isLevelForbid r.level = false := by
    simpa [isLevelForbid, init] using hlevel
  have hacquire : ((init level : Logger Tid).setPc t (.ready r)).lockFlush t r 0 =
      ((init level).inserted t 0).touched t 0 ⟨true, Buffer.new, t⟩ (.pushLevel r 0) [] := by
    simp [lockFlush, acquire, touched, inserted, setPc, init]
  have hnew : Buffer.new.readableSize + frameSize r = frameSize r := by
    rw [show Buffer.new.readableSize = 0 by decide, Nat.zero_add]
  have hrun : Lts.Run Step (init level : Logger Tid) [.flush t r, .lockFlush t 0]
      (((init level).inserted t 0).touched t 0 ⟨true, Buffer.new, t⟩ (.pushLevel r 0) []) := by
    rw [← hacquire]
    exact .cons (.flush rfl rfl hforbid) (.cons (.lockFlush rfl (by simp [setPc]) rfl) (.refl _))
  have hfresh : ((init level : Logger Tid).inserted t 0).heap 1 = none :=
    inserted_heap_ne (Nat.succ_ne_zero 0)
  rw [← hnew]
  refine left_of_acquired (s := (init level).inserted t 0) rfl rfl hforbid ?_ hfresh
    (Nat.succ_ne_zero 0) Buffer.valid_new (by omega) hrun
  simp [inserted, init]

theorem Left.fill (h : s.Left t r size) (hsmall : kFlushThreshold + frameSize r ≤ 2 ^ 62) (n : Nat)
    (hsize : ∀ k < n, size + k * frameSize r ≤ kFlushThreshold) :
    ∃ acts s', Lts.Run Step s acts s' ∧ (∀ act ∈ acts, act.ofFlush = true) ∧
      s'.Left t r (size + n * frameSize r) := by
  induction n with
  | zero => exact ⟨[], s, .refl s, by simp, by simpa using h⟩
  | succ n ih =>
    obtain ⟨acts, s₁, hrun, hacts, hleft⟩ := ih fun k hk => hsize k (by omega)
    obtain ⟨fresh, s', hflush, hleft'⟩ := hleft.flush (hsize n (by omega)) hsmall
    refine ⟨acts ++ flushActs t r fresh, s', Lts.run_append.mpr ⟨s₁, hrun, hflush⟩,
      ofFlush_append hacts ofFlush_flushActs, ?_⟩
    rwa [Nat.succ_mul, ← Nat.add_assoc]

/-- A thread that goes on flushing, with nobody to update the logger, comes to `AddBusyLog`. -/
theorem comes_to_addBusyLog (level : UInt32) (t : Tid) (hlevel : r.level &&& level ≠ 0)
    (hsmall : kFlushThreshold + frameSize r ≤ 2 ^ 62) :
    ∃ acts s', Lts.Run Step (init level) acts s' ∧ (∀ act ∈ acts, act.ofFlush = true) ∧
      s'.fault = none ∧ s'.pc t = .addBusyLog := by
  obtain ⟨s₁, hfirst, hleft₁⟩ := init_flush level t hlevel hsmall
  have hpos : 0 < frameSize r := by rw [frameSize]; omega
  have hbelow : ∀ k < kFlushThreshold / frameSize r,
      frameSize r + k * frameSize r ≤ kFlushThreshold := by
    intro k hk
    have hle := Nat.mul_le_of_le_div (frameSize r) (k + 1) kFlushThreshold hk
    rwa [Nat.succ_mul, Nat.add_comm] at hle
  obtain ⟨acts, s', hrun, hacts, hleft⟩ := hleft₁.fill hsmall _ hbelow
  have habove := Nat.lt_mul_div_succ kFlushThreshold hpos
  obtain ⟨a, b, -, -, -, hsize, hpc⟩ := hleft.entry
  refine ⟨flushActs t r 0 ++ acts, s', Lts.run_append.mpr ⟨s₁, hfirst, hrun⟩,
    ofFlush_append ofFlush_flushActs hacts, hleft.fault, ?_⟩
  rw [Nat.mul_add, Nat.mul_one, Nat.add_comm, Nat.mul_comm, ← hsize] at habove
  exact hpc.trans (if_pos habove)

end Logger

end Hplsp
