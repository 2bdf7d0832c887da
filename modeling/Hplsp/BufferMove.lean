import Hplsp.BufferThrow
import Hplsp.BufferVector

/-! What moving a buffer leaves behind: exactly when the source stays usable. -/

namespace Hplsp

open Outcome

namespace Buffer

variable {b b' : Buffer} {bytes : List UInt8} {needsize size offset : Nat}

/-- The buffers that pushes, pops, `Consume`, `Shrink` and `Clear` make from `Buffer()`. -/
def Reachable (b : Buffer) : Prop :=
  ∃ calls bs, Lts.Run Call.Step (fun _ : Unit => Buffer.new) calls bs ∧ bs () = b

theorem Reachable.sized (h : b.Reachable) : b.Sized := by
  obtain ⟨calls, bs, hrun, rfl⟩ := h
  exact Call.sized_run hrun ()

end Buffer

namespace Call

/-- The calls a client makes to put bytes in and get them out. -/
def IsTransfer {ι : Type} : Call ι → Prop
  | .pushData _ _ | .popData _ _ | .peekDataAt _ _ _ => True
  | _ => False

/-- What each of a sequence of calls on one buffer delivers. -/
def outputs (bs : Unit → Buffer) : List (Call Unit) → Except Fault (List (List UInt8))
  | [] => .ok []
  | c :: calls => do
    let (bs, out) ← c.exec bs
    let outs ← outputs bs calls
    .ok (out :: outs)

/-- Two families of the class's own buffers with the same readable bytes. -/
def Twins (bs fs : Unit → Buffer) : Prop :=
  ∀ i, (bs i).Sized ∧ (fs i).Sized ∧ (bs i).contents = (fs i).contents

variable {bs fs fs' : Unit → Buffer} {c : Call Unit} {out : List UInt8}

theorem twins_update {i : Unit} {b f : Buffer} (hb : b.Sized) (hf : f.Sized)
    (hcontents : b.contents = f.contents) :
    Twins (Function.update bs i b) (Function.update fs i f) := by
  intro j
  obtain rfl : j = i := rfl
  simpa using ⟨hb, hf, hcontents⟩

/-- A push that finds an array on one buffer finds one on the other. -/
theorem pushData_twin {b f f' : Buffer} (hb : b.Sized) (hf : f.Sized)
    (hcontents : b.contents = f.contents) {bytes : List UInt8} {n : Nat}
    (hok : f.pushData (.block bytes) = .ok (f', n)) :
    ∃ b', b.pushData (.block bytes) = .ok (b', n) ∧ b'.contents = f'.contents := by
  have hread : b.readableSize = f.readableSize := by
    rw [← hb.length_contents, ← hf.length_contents, hcontents]
  by_cases hzero : bytes.length = 0
  · -- nothing is copied, so the limit does not matter
    obtain rfl := List.length_eq_zero_iff.mp hzero
    have hprod : ∀ b : Buffer, b.pushData (.block []) = .ok (b.produce 0, 0) := fun b => by
      simp [Buffer.pushData, Buffer.pushDataAt, Data.size]
    have hkeep : ∀ b : Buffer, b.Valid → (b.produce 0).contents = b.contents := fun b h => by
      simpa using (h.produce (Nat.zero_le b.writableSize)).2
    rw [hprod] at hok
    cases hok
    exact ⟨b.produce 0, hprod b, by rw [hkeep b hb.toValid, hkeep f hf.toValid, hcontents]⟩
  · have hfit := Buffer.fits_of_pushData hf.toValid hzero hok
    obtain ⟨hvalid, happend, rfl⟩ := Buffer.pushData_ok hf.toValid hok
    have hlen := hvalid.length_contents
    rw [happend, List.length_append, hf.length_contents] at hlen
    have hlast := (Buffer.pushData_sized hf hok).capacity_le_last
    have hreadf := hvalid.readableSize_eq
    have hwle := hvalid.write_le
    have hserved : b.Served true bytes.length :=
      hb.ordered.served_iff.mpr fun _ => ⟨rfl, by omega⟩
    obtain ⟨b', hrun⟩ := Buffer.run_pushData_served hb.toValid
      (by rwa [Buffer.Fits, hread]) hserved
    have hpush := Buffer.run_pushData_ok hrun
    obtain ⟨-, happend', -⟩ := Buffer.pushData_ok hb.toValid hpush
    exact ⟨b', hpush, by rw [happend', happend, hcontents]⟩

theorem exec_twin (h : Twins bs fs) (hc : c.IsTransfer) (hok : c.exec fs = .ok (fs', out)) :
    ∃ bs', c.exec bs = .ok (bs', out) ∧ Twins bs' fs' := by
  cases c with
  | pushData i bytes =>
    obtain ⟨hb, hf, hcontents⟩ := h i
    obtain ⟨⟨f', n⟩, hpush, hupd⟩ := bind_eq_ok.mp hok
    cases hupd
    obtain ⟨b', hpush', hsame⟩ := pushData_twin hb hf hcontents hpush
    exact ⟨_, by rw [exec, hpush', ok_bind],
      twins_update (Buffer.pushData_sized hb hpush') (Buffer.pushData_sized hf hpush) hsame⟩
  | popData i size =>
    obtain ⟨hb, hf, hcontents⟩ := h i
    obtain ⟨⟨f', bytes⟩, hpop, hupd⟩ := bind_eq_ok.mp hok
    cases hupd
    obtain ⟨bytes', hpeek, hrest⟩ := bind_eq_ok.mp hpop
    obtain ⟨f'', hconsume, heq⟩ := bind_eq_ok.mp hrest
    cases heq
    obtain ⟨hpeek', n, hbytes⟩ := Buffer.peekDataAt_congr hf.toValid hb.toValid hcontents hpeek
    have hle : out.length ≤ (fs i).readableSize := by
      rw [hbytes, ← hf.length_contents, List.length_take, List.length_drop]
      omega
    have hle' : out.length ≤ (bs i).readableSize := by
      rwa [← hb.length_contents, hcontents, hf.length_contents]
    obtain ⟨g, hg, -, hgdrop⟩ := Buffer.consume_eq hf.toValid hle
    obtain rfl := ok_unique hg hconsume
    obtain ⟨b, hcb, -, hbdrop⟩ := Buffer.consume_eq hb.toValid hle'
    refine ⟨Function.update bs i b, ?_, twins_update (Buffer.consume_sized hb hle' hcb)
      (Buffer.consume_sized hf hle hconsume) (by rw [hbdrop, hgdrop, hcontents])⟩
    rw [exec, Buffer.popData, hpeek', ok_bind, hcb, ok_bind]
    rfl
  | peekDataAt i size offset =>
    obtain ⟨hb, hf, hcontents⟩ := h i
    obtain ⟨bytes, hpeek, heq⟩ := bind_eq_ok.mp hok
    cases heq
    obtain ⟨hpeek', -⟩ := Buffer.peekDataAt_congr hf.toValid hb.toValid hcontents hpeek
    exact ⟨bs, by rw [exec, hpeek', ok_bind], h⟩
  | _ => exact hc.elim

/-- What a fresh buffer delivers, any empty buffer of the class's own delivers. -/
theorem outputs_twin (calls : List (Call Unit)) (hc : ∀ c ∈ calls, c.IsTransfer)
    (h : Twins bs fs) {outs : List (List UInt8)} (hok : outputs fs calls = .ok outs) :
    outputs bs calls = .ok outs := by
  induction calls generalizing bs fs outs with
  | nil => exact hok
  | cons c calls ih =>
    obtain ⟨⟨fs', out⟩, hexec, hok⟩ := bind_eq_ok.mp hok
    obtain ⟨rest, hrest, heq⟩ := bind_eq_ok.mp hok
    cases heq
    obtain ⟨bs', hexec', h'⟩ := exec_twin h (hc c List.mem_cons_self) hexec
    have hsame := ih (fun c' hc' => hc c' (List.mem_cons_of_mem c hc')) h' hrest
    simp only [outputs, hexec', ok_bind, hsame]

end Call

namespace Buffer

/-- Later transfers deliver what they deliver on `Buffer()`. -/
def BehavesAsFresh (b : Buffer) : Prop :=
  ∀ calls outs, (∀ c ∈ calls, Call.IsTransfer c) →
    Call.outputs (fun _ => Buffer.new) calls = .ok outs →
    Call.outputs (fun _ => b) calls = .ok outs

variable {b : Buffer}

theorem Sized.behavesAsFresh (h : b.Sized) (hempty : b.contents = []) : b.BehavesAsFresh := by
  intro calls outs hc hok
  exact Call.outputs_twin calls hc (fun _ => ⟨h, sized_new, hempty⟩) hok

/-- The operations that take a buffer as an rvalue. -/
inductive MoveOp where
  | construct
  | assign (dst : Buffer)
  | push (v : BufferVector)

namespace MoveOp

/-- The bytes that the destination holds afterwards, and what is left of the source. -/
def exec (b : Buffer) : MoveOp → Except Fault (List UInt8 × Buffer)
  | .construct | .assign _ => do
    let (dest, source) ← b.moveFrom
    .ok (dest.contents, source)
  | .push v => do
    let (v, source) ← v.pushBuffer b
    .ok (v.contents, source)

/-- The destination's bytes that the operation keeps. -/
def kept : MoveOp → List UInt8
  | .construct | .assign _ => []
  | .push v => v.contents

/-- `Push` copies into the last node instead of moving the buffer. -/
def copies : MoveOp → Bool
  | .construct | .assign _ => false
  | .push v => v.shouldMerge

def Valid : MoveOp → Prop
  | .construct => True
  | .assign dst => dst.Valid
  | .push v => ∀ node ∈ v.buffers, node.Valid

end MoveOp

/-- The destination gets exactly the readable bytes, and the source is a valid empty buffer. -/
def MovesCleanly (op : MoveOp) (b : Buffer) : Prop :=
  ∃ bytes source, op.exec b = .ok (bytes, source) ∧ bytes = op.kept ++ b.contents ∧
    source.readableSize = 0 ∧ source.capacity = source.buffer.length ∧ source.BehavesAsFresh

/-- What a move leaves of the source: `Clear` and `Shrink` drop `capacity_` only above
`Shrink`'s threshold of 8 KiB. -/
def leftover (b : Buffer) : Buffer :=
  if 8 * 1024 < b.capacity then new else ⟨0, 0, b.capacity, []⟩

theorem moveFrom_eq : b.moveFrom = .ok (b, b.leftover) := by
  have hempty : ({ b with buffer := [] } : Buffer).clear.isEmpty = true := by
    simp [isEmpty, readableSize, clear, Word64.sub, Word64.size]
  rw [moveFrom, shrink, if_pos hempty]
  rfl

theorem leftover_capacity_iff :
    b.leftover.capacity = b.leftover.buffer.length ↔ b.capacity = 0 ∨ 8 * 1024 < b.capacity := by
  unfold leftover
  split
  · simp [*, new]
  · simp [*]

theorem leftover_eq_new (h : b.capacity = 0 ∨ 8 * 1024 < b.capacity) : b.leftover = new := by
  unfold leftover
  split
  · rfl
  · rcases h with h | h
    · rw [h]
      rfl
    · contradiction

theorem contents_updateLast {f : Buffer → Except Fault (Buffer × Nat)} {g : Buffer → List UInt8} :
    ∀ {nodes : List Buffer} {last : Buffer}, nodes.getLast? = some last →
      (∃ b n, f last = .ok (b, n) ∧ b.contents = last.contents ++ g last) →
      ∃ nodes', BufferVector.updateLast f nodes = .ok nodes' ∧
        nodes'.flatMap contents = nodes.flatMap contents ++ g last := by
  intro nodes
  induction nodes with
  | nil => intro last h; simp at h
  | cons node nodes ih =>
    intro last hlast hf
    cases nodes with
    | nil =>
      obtain rfl : node = last := by simpa using hlast
      obtain ⟨b, n, hok, hb⟩ := hf
      exact ⟨[b], by rw [BufferVector.updateLast, hok, ok_bind], by simp [hb]⟩
    | cons node' nodes =>
      obtain ⟨nodes', hok, hcontents⟩ := ih (by simpa using hlast) hf
      exact ⟨node :: nodes', by rw [BufferVector.updateLast, hok, ok_bind]; simp,
        by rw [List.flatMap_cons, hcontents, List.flatMap_cons (x := node), List.append_assoc]⟩

/-- A vector that merges has a last node. -/
theorem getLast_of_shouldMerge {v : BufferVector} (h : v.shouldMerge = true) :
    ∃ last ∈ v.buffers, v.buffers.getLast? = some last := by
  cases hlast : v.buffers.getLast? with
  | none => simp [BufferVector.shouldMerge, hlast] at h
  | some last => exact ⟨last, List.mem_of_getLast? hlast, rfl⟩

/-- Copying an empty buffer changes nothing. -/
theorem pushBuffer_empty {v : BufferVector} (hb : b.Valid) (hv : ∀ node ∈ v.buffers, node.Valid)
    (hmerge : v.shouldMerge = true) (hempty : b.readableSize = 0) :
    ∃ v', v.pushBuffer b = .ok (v', b) ∧ v'.contents = v.contents := by
  obtain ⟨last, hmem, hlast⟩ := getLast_of_shouldMerge hmerge
  have hdata : ∃ data, b.readData = .ok data ∧ last.pushData data = .ok (last.produce 0, 0) := by
    rw [readData]
    split
    · exact ⟨.null b.readableSize, rfl, by simp [pushData, pushDataAt, Data.size, hempty]⟩
    · have hnil : b.contents = [] := by
        rw [← List.length_eq_zero_iff, hb.length_contents, hempty]
      refine ⟨.block [], by rw [hb.readAt_contents, ok_bind, hnil], ?_⟩
      simp [pushData, pushDataAt, Data.size]
  obtain ⟨data, hread, hpush⟩ := hdata
  have hkeep := (hv last hmem).produce (Nat.zero_le last.writableSize)
  obtain ⟨nodes, hok, hcontents⟩ := contents_updateLast (f := fun last => last.pushData data)
    (g := fun _ => []) hlast
    ⟨last.produce 0, 0, hpush, by simpa using hkeep.2⟩
  refine ⟨⟨nodes, Word64.add v.totalBytes b.readableSize⟩, ?_,
    by simpa [BufferVector.contents] using hcontents⟩
  rw [BufferVector.pushBuffer, if_pos hmerge, hread, ok_bind, hok, ok_bind]

/-- Copying leaves the source as it was. -/
theorem pushBuffer_source {v : BufferVector} (hmerge : v.shouldMerge = true) {bytes : List UInt8}
    {source : Buffer} (hok : MoveOp.exec b (.push v) = .ok (bytes, source)) : source = b := by
  obtain ⟨⟨v', source'⟩, hpush, heq⟩ := bind_eq_ok.mp hok
  cases heq
  rw [BufferVector.pushBuffer, if_pos hmerge] at hpush
  obtain ⟨data, -, hpush⟩ := bind_eq_ok.mp hpush
  obtain ⟨nodes, -, hpush⟩ := bind_eq_ok.mp hpush
  cases hpush
  rfl

theorem exec_of_not_copies {op : MoveOp} (hop : op.copies = false) :
    op.exec b = .ok (op.kept ++ b.contents, b.leftover) := by
  cases op with
  | construct => simp [MoveOp.exec, moveFrom_eq, MoveOp.kept]
  | assign dst => simp [MoveOp.exec, moveFrom_eq, MoveOp.kept]
  | push v =>
    have hmerge : v.shouldMerge = false := hop
    simp [MoveOp.exec, BufferVector.pushBuffer, hmerge, moveFrom_eq, MoveOp.kept,
      BufferVector.contents]

/-- Moving is clean exactly when `Shrink` has something to reset, and copying exactly when there
is nothing to copy. -/
theorem movesCleanly_iff {op : MoveOp} (hb : b.Reachable) (hop : op.Valid) :
    MovesCleanly op b ↔
      if op.copies then b.readableSize = 0 else b.capacity = 0 ∨ 8 * 1024 < b.capacity := by
  have hsized := hb.sized
  have hvalid := hsized.toValid
  split
  next hcopy =>
    obtain ⟨v, rfl⟩ : ∃ v, op = .push v := by
      cases op with
      | push v => exact ⟨v, rfl⟩
      | _ => cases hcopy
    constructor
    · rintro ⟨bytes, source, hok, -, hread, -⟩
      rwa [pushBuffer_source hcopy hok] at hread
    · intro hempty
      have hnil : b.contents = [] := by
        rw [← List.length_eq_zero_iff, hvalid.length_contents, hempty]
      obtain ⟨v', hok, hcontents⟩ := pushBuffer_empty hvalid hop hcopy hempty
      refine ⟨v'.contents, b, ?_, ?_, hempty, hvalid.capacity_eq, hsized.behavesAsFresh hnil⟩
      · rw [MoveOp.exec, hok, ok_bind]
      · rw [hcontents, hnil, List.append_nil]
        rfl
  next hmove =>
    have hexec := exec_of_not_copies (b := b) (Bool.eq_false_iff.mpr hmove)
    constructor
    · rintro ⟨bytes, source, hok, -, -, hcap, -⟩
      rw [hexec] at hok
      cases hok
      exact leftover_capacity_iff.mp hcap
    · intro hcap
      rw [leftover_eq_new hcap] at hexec
      exact ⟨_, _, hexec, rfl, rfl, rfl, sized_new.behavesAsFresh contents_new⟩

set_option maxRecDepth 4000 in
/-- A buffer that never grew past 8 KiB hands over its array and keeps its capacity: the move is
not clean, and the next push writes through the null `buffer_`. -/
theorem moved_from_keeps_capacity :
    ∃ b source : Buffer, b.Reachable ∧ MoveOp.construct.exec b = .ok ([7], source) ∧
      ¬ MovesCleanly .construct b ∧ source.capacity = 256 ∧ source.buffer = [] ∧
      source.pushData (.block [9]) = .error (.overrun .array) := by
  have hreach : Reachable ⟨0, 1, 256, 7 :: List.replicate 255 0⟩ :=
    ⟨[.pushData () [7]], _, .cons ⟨show Fits _ _ by decide, _, rfl⟩ (.refl _), rfl⟩
  have hexec : MoveOp.construct.exec ⟨0, 1, 256, 7 :: List.replicate 255 0⟩ =
      .ok ([7], ⟨0, 0, 256, []⟩) := exec_of_not_copies rfl
  refine ⟨_, ⟨0, 0, 256, []⟩, hreach, hexec, ?_, rfl, rfl, by decide⟩
  rintro ⟨bytes, source, hok, -, -, hcap, -⟩
  rw [hexec] at hok
  cases hok
  cases hcap

/-- Nine thousand bytes, assigned to another buffer or moved into a vector. -/
theorem movesCleanly_iff_filled : ∃ b : Buffer, b.contents = List.replicate 9000 7 ∧
    MovesCleanly (.assign ⟨0, 1, 1, [5]⟩) b ∧ MovesCleanly (.push BufferVector.new) b := by
  have hsmall : new.readableSize + (List.replicate 9000 (7 : UInt8)).length ≤ 2 ^ 62 := by
    rw [List.length_replicate]
    decide
  obtain ⟨b, hpush, hvalid, hcontents⟩ := pushData_returns valid_new hsmall
  have hfit : new.Fits (List.replicate 9000 (7 : UInt8)).length := by
    rw [List.length_replicate]
    decide
  have hreach : b.Reachable :=
    ⟨[.pushData () (List.replicate 9000 7)], _, .cons ⟨hfit, _, by rw [Call.exec, hpush]; rfl⟩
      (.refl _), by rw [Function.update_self]⟩
  have hread : b.readableSize = 9000 := by
    rw [← hvalid.length_contents, hcontents, contents_new, List.nil_append, List.length_replicate]
  have hlarge : 8 * 1024 < b.capacity := by
    have hreadable := hvalid.readableSize_eq
    have hwle := hvalid.write_le
    omega
  have hassign : (MoveOp.assign ⟨0, 1, 1, [5]⟩).Valid := show Buffer.Valid _ by decide
  have hpushed : (MoveOp.push BufferVector.new).Valid := fun _ h => absurd h List.not_mem_nil
  exact ⟨b, hcontents, (movesCleanly_iff hreach hassign).mpr (Or.inr hlarge),
    (movesCleanly_iff hreach hpushed).mpr (Or.inr hlarge)⟩

end Buffer

end Hplsp
