import Hplsp.BufferSized
import Hplsp.Lib.Fifo
import Hplsp.Lib.Run

/-! Any number of buffers, under any calls in any order, are FIFO byte queues. -/

namespace Hplsp

open Outcome

/-- `AssureSpace`, then `bytes` written at `WriteAddr()` and `Produce(bytes.length)`. -/
def Buffer.stage (b : Buffer) (needsize : Nat) (bytes : List UInt8) : Except Fault Buffer := do
  let b ← b.assureSpace needsize
  let buffer ← Cells.writeAt (.overrun .array) b.buffer b.writePos bytes
  .ok ({ b with buffer := buffer }.produce bytes.length)

/-- One call on a family of buffers, with non-null data. -/
inductive Call (ι : Type) where
  | pushData (i : ι) (bytes : List UInt8)
  | stage (i : ι) (needsize : Nat) (bytes : List UInt8)
  | popData (i : ι) (size : Nat)
  | peekDataAt (i : ι) (size offset : Nat)
  | consume (i : ι) (size : Nat)
  | shrink (i : ι)
  | clear (i : ι)
  | swap (i j : ι)

namespace Call

variable {ι : Type} [DecidableEq ι] {bs bs' : ι → Buffer} {qs : ι → List UInt8} {c : Call ι}
  {calls : List (Call ι)}

/-- The buffers after the call, and the bytes it delivers. -/
def exec (bs : ι → Buffer) : Call ι → Except Fault ((ι → Buffer) × List UInt8)
  | .pushData i bytes => do
    let (b, _) ← (bs i).pushData (.block bytes)
    .ok (Function.update bs i b, [])
  | .stage i needsize bytes => do
    let b ← (bs i).stage needsize bytes
    .ok (Function.update bs i b, [])
  | .popData i size => do
    let (b, bytes) ← (bs i).popData false size
    .ok (Function.update bs i b, bytes)
  | .peekDataAt i size offset => do
    let bytes ← (bs i).peekDataAt false size offset
    .ok (bs, bytes)
  | .consume i size => do
    let b ← (bs i).consume size
    .ok (Function.update bs i b, [])
  | .shrink i => do
    let b ← (bs i).shrink
    .ok (Function.update bs i b, [])
  | .clear i => .ok (Function.update bs i (bs i).clear, [])
  | .swap i j => .ok (Function.update (Function.update bs i (bs j)) j (bs i), [])

/-- The requests stay below the limit, and `Produce` and `Consume` inside their bounds. -/
def Admissible (bs : ι → Buffer) : Call ι → Prop
  | .pushData i bytes => (bs i).Fits bytes.length
  | .stage i needsize bytes => (bs i).Fits needsize ∧
      ∀ b, (bs i).assureSpace needsize = .ok b → bytes.length ≤ b.writableSize
  | .popData i size => (bs i).Fits size
  | .peekDataAt i size offset => (bs i).Fits (size + offset)
  | .consume i size => size ≤ (bs i).readableSize
  | .shrink _ | .clear _ | .swap _ _ => True

/-- The bytes the buffer of the call has to hold for it. -/
def demand (bs : ι → Buffer) : Call ι → Nat
  | .pushData i bytes => (bs i).readableSize + bytes.length
  | .stage i needsize _ => (bs i).readableSize + needsize
  | _ => 0

def queueOp : Call ι → Fifo.Op ι UInt8
  | .pushData i bytes => .push i bytes
  | .stage i _ bytes => .push i bytes
  | .popData i size => .pop i size
  | .peekDataAt i size offset => .peek i size offset
  | .consume i size => .drop i size
  | .shrink _ => .keep
  | .clear i => .clear i
  | .swap i j => .swap i j

def Step (bs : ι → Buffer) (c : Call ι) (bs' : ι → Buffer) : Prop :=
  c.Admissible bs ∧ ∃ out, c.exec bs = .ok (bs', out)

/-- Every buffer is valid and holds its queue. -/
def Represents (bs : ι → Buffer) (qs : ι → List UInt8) : Prop :=
  ∀ i, (bs i).Valid ∧ (bs i).contents = qs i

omit [DecidableEq ι] in
theorem represents_new : Represents (fun _ : ι => Buffer.new) fun _ => [] :=
  fun _ => ⟨Buffer.valid_new, Buffer.contents_new⟩

theorem Represents.update (h : Represents bs qs) {i : ι} {b : Buffer} {q : List UInt8}
    (hb : b.Valid ∧ b.contents = q) :
    Represents (Function.update bs i b) (Function.update qs i q) := by
  intro j
  by_cases hj : j = i
  · subst hj
    simpa using hb
  · simpa [hj] using h j

/-- A change of one representation that keeps the bytes leaves the queues alone. -/
theorem Represents.update_same (h : Represents bs qs) {i : ι} {b : Buffer}
    (hb : b.Valid ∧ b.contents = (bs i).contents) : Represents (Function.update bs i b) qs := by
  have hq := h.update (i := i) (q := qs i) ⟨hb.1, hb.2.trans (h i).2⟩
  rwa [Function.update_eq_self] at hq

theorem stage_sat {b : Buffer} (hb : b.Valid) {needsize : Nat} {bytes : List UInt8}
    (hfit : b.Fits needsize)
    (hroom : ∀ b', b.assureSpace needsize = .ok b' → bytes.length ≤ b'.writableSize) :
    Sat (b.stage needsize bytes) (fun b' => b'.Valid ∧ b'.contents = b.contents ++ bytes)
      (Buffer.OutOfMemory b needsize) := by
  have hassure := Buffer.assureSpace_sat hb hfit
  cases hok : b.assureSpace needsize with
  | error e => simpa [Buffer.stage, hok] using hassure.of_error hok
  | ok b' =>
    obtain ⟨hvalid, hcontents, -⟩ := hassure.of_ok hok
    have hbytes := hroom b' hok
    have hspace := hbytes
    rw [hvalid.writableSize_eq] at hspace
    have hwle := hvalid.write_le
    have hlen := hvalid.capacity_eq
    obtain ⟨hahead, hkeep⟩ := hvalid.writeAhead (show 0 + bytes.length ≤ b'.writableSize by omega)
    simp only [Nat.add_zero] at hahead hkeep
    obtain ⟨hprod, happend⟩ := hahead.produce hbytes
    rw [Buffer.stage, hok, ok_bind, Cells.writeAt_eq _ (by omega), ok_bind]
    refine ⟨hprod, ?_⟩
    rw [happend, hkeep, hcontents]
    exact congrArg _ (Cells.slice_splice_self (by omega))

/-- One call is one step of the queues, and `new` is all that can stop it. -/
theorem exec_sat (h : Represents bs qs) (hc : c.Admissible bs) :
    Sat (c.exec bs)
      (fun r => Represents r.1 (Fifo.step qs c.queueOp).1 ∧ r.2 = (Fifo.step qs c.queueOp).2)
      (fun e => e = .badAlloc ∧ 2 ^ 62 < c.demand bs) := by
  cases c with
  | pushData i bytes =>
    refine (Buffer.pushData_sat (h i).1 hc).bind ?_
    rintro ⟨b, n⟩ ⟨hvalid, hcontents, -⟩
    exact ⟨h.update ⟨hvalid, by rw [hcontents, (h i).2]⟩, rfl⟩
  | stage i needsize bytes =>
    refine (stage_sat (h i).1 hc.1 hc.2).bind ?_
    rintro b ⟨hvalid, hcontents⟩
    exact ⟨h.update ⟨hvalid, by rw [hcontents, (h i).2]⟩, rfl⟩
  | popData i size =>
    have hsize : size < 2 ^ 64 := by
      simp only [Admissible, Buffer.Fits, Buffer.kMaxBufferSize] at hc
      omega
    obtain ⟨b, hok, hvalid, hcontents⟩ := Buffer.popData_eq (h i).1 hsize
    rw [exec, hok, ok_bind]
    exact ⟨h.update ⟨hvalid, by rw [hcontents, (h i).2]⟩, by rw [(h i).2]; rfl⟩
  | peekDataAt i size offset =>
    rw [exec, Buffer.peekDataAt_eq (h i).1
      (by simp only [Admissible, Buffer.Fits, Buffer.kMaxBufferSize] at hc; omega), ok_bind]
    exact ⟨h, by rw [(h i).2]; rfl⟩
  | consume i size =>
    obtain ⟨b, hok, hvalid, hcontents⟩ := Buffer.consume_eq (h i).1 hc
    rw [exec, hok, ok_bind]
    exact ⟨h.update ⟨hvalid, by rw [hcontents, (h i).2]⟩, rfl⟩
  | shrink i =>
    obtain ⟨b, hok, hvalid, hcontents⟩ := Buffer.shrink_eq (h i).1
    rw [exec, hok, ok_bind]
    exact ⟨h.update_same ⟨hvalid, hcontents⟩, rfl⟩
  | clear i => exact ⟨h.update ⟨Buffer.valid_clear (h i).1, Buffer.contents_clear⟩, rfl⟩
  | swap i j => exact ⟨(h.update (h j)).update (h i), rfl⟩

section Sized

variable (h : ∀ i, (bs i).Sized)
include h

theorem update_sized {i : ι} {b : Buffer} (hb : b.Sized) :
    ∀ j, (Function.update bs i b j).Sized :=
  (Function.forall_update_iff bs fun _ b => b.Sized).mpr ⟨hb, fun j _ => h j⟩

/-- No call makes another kind of capacity. -/
theorem exec_sized {out : List UInt8} (hc : c.Admissible bs) (hok : c.exec bs = .ok (bs', out)) :
    ∀ i, (bs' i).Sized := by
  cases c with
  | pushData i bytes =>
    obtain ⟨⟨b, n⟩, hpush, hok⟩ := bind_eq_ok.mp hok
    cases hok
    exact update_sized h (Buffer.pushData_sized (h i) hpush)
  | stage i needsize bytes =>
    obtain ⟨b, hstage, hok⟩ := bind_eq_ok.mp hok
    obtain ⟨b₁, hassure, hstage⟩ := bind_eq_ok.mp hstage
    obtain ⟨array, hwrite, hstage⟩ := bind_eq_ok.mp hstage
    cases hok
    cases hstage
    have hsized := Buffer.assureSpace_sized (h i) hassure
    obtain ⟨hspace, rfl⟩ := Cells.writeAt_eq_ok.mp hwrite
    have hroom := hc.2 b₁ hassure
    obtain ⟨hahead, -⟩ := hsized.writeAhead (show 0 + bytes.length ≤ b₁.writableSize by omega)
    exact update_sized h (Buffer.produce_sized ⟨hahead, hsized.isCapacity⟩ hroom)
  | popData i size =>
    obtain ⟨⟨b, bytes⟩, hpop, hok⟩ := bind_eq_ok.mp hok
    cases hok
    refine update_sized h (Buffer.popData_sized (h i) ?_ hpop)
    simp only [Admissible, Buffer.Fits, Buffer.kMaxBufferSize] at hc
    omega
  | peekDataAt i size offset =>
    obtain ⟨bytes, -, hok⟩ := bind_eq_ok.mp hok
    cases hok
    exact h
  | consume i size =>
    obtain ⟨b, hconsume, hok⟩ := bind_eq_ok.mp hok
    cases hok
    exact update_sized h (Buffer.consume_sized (h i) hc hconsume)
  | shrink i =>
    obtain ⟨b, hshrink, hok⟩ := bind_eq_ok.mp hok
    cases hok
    exact update_sized h (Buffer.shrink_sized (h i) hshrink)
  | clear i =>
    cases hok
    exact update_sized h ⟨Buffer.valid_clear (h i).toValid, (h i).isCapacity⟩
  | swap i j =>
    cases hok
    exact update_sized (update_sized h (h j)) (h i)

end Sized

theorem sized_run (h : Lts.Run Step (fun _ => Buffer.new) calls bs) : ∀ i, (bs i).Sized :=
  h.invariant (I := fun bs => ∀ i, (bs i).Sized)
    (fun _ _ _ hstep hs => exec_sized hs hstep.1 hstep.2.choose_spec) fun _ => Buffer.sized_new

end Call

end Hplsp
