import Hplsp.Logger

/-!
# Ownership of the queued lines

The invariant that ties `inuse_`, the map entry and `tmpBufs` together, and its step lemma.
-/

namespace Hplsp

open Outcome

/-- The entries that `_Log` reads from the bytes. -/
def entriesOf (data : List UInt8) : List Entry :=
  match log data with
  | .ok result => result.calls.map fun c => (c.level, Cells.slice data c.pos c.len)
  | .error _ => []

theorem entriesOf_frames {rs : List Record} {post : List UInt8} (hpost : post.length ≤ minLogSize)
    (hlt : (Record.frames rs ++ post).length < 2 ^ 63) :
    entriesOf (Record.frames rs ++ post) = rs.map Record.entry := by
  obtain ⟨result, hlog, -, -, hcalls⟩ := log_frames hpost hlt
  have hentries := congrArg (List.map fun c => (c.1, c.2.2)) hcalls
  simp only [List.map_map] at hentries
  rw [entriesOf, hlog]
  exact hentries

namespace FlushPc

/-- The `BufferInfo` that the thread is filling, between its two stores to `inuse_`. -/
def info : FlushPc → Option Addr
  | .pushLevel _ a | .pushLength _ a | .pushText _ a | .release _ a => some a
  | _ => none

/-- The bytes of the frame that the thread has begun and not completed. -/
def unfinished : FlushPc → List UInt8
  | .pushLength r _ => LittleEndian.encode 4 r.level.toNat
  | .pushText r _ => LittleEndian.encode 4 r.level.toNat ++ LittleEndian.encode 8 r.text.length
  | _ => []

/-- The record that is queued in full while its `Flush` is not over. -/
def pending : FlushPc → List Record
  | .release r _ => [r]
  | _ => []

theorem length_unfinished (pc : FlushPc) : pc.unfinished.length ≤ minLogSize := by
  cases pc <;> simp [unfinished, minLogSize]

theorem unfinished_of_info {pc : FlushPc} (h : pc.info.isSome = false) : pc.unfinished = [] := by
  cases pc <;> simp_all [info, unfinished]

theorem pending_of_info {pc : FlushPc} (h : pc.info.isSome = false) : pc.pending = [] := by
  cases pc <;> simp_all [info, pending]

end FlushPc

namespace UpdatePc

/-- The buffers moved out of the map. -/
def tmpBufs : UpdatePc → List Addr
  | .idle => []
  | .log _ done rest _ => done ++ rest

/-- The moved-out buffers with bytes that `_Log` has not passed, and where it stands in each. -/
def places : UpdatePc → List (Addr × Nat)
  | .log _ _ (a :: rest) nOffset => (a, nOffset) :: rest.map fun a => (a, 0)
  | _ => []

@[simp] theorem places_zero (todo : Bool) (done rest : List Addr) :
    (log todo done rest 0).places = rest.map fun a => (a, 0) := by
  cases rest <;> rfl

theorem mem_tmpBufs_of_mem_places {io : UpdatePc} {p : Addr × Nat} (h : p ∈ io.places) :
    p.1 ∈ io.tmpBufs := by
  cases io with
  | idle => simp [places] at h
  | log todo done rest nOffset =>
    cases rest with
    | nil => simp [places] at h
    | cons a rest =>
      simp only [places, List.mem_cons, List.mem_map] at h
      rcases h with rfl | ⟨a', ha', rfl⟩ <;> simp_all [tmpBufs]

end UpdatePc

namespace Logger

variable {Tid : Type}

/-- The entries waiting at an address, from an offset on, with the owner of the buffer. -/
def heldAt (s : Logger Tid) (p : Addr × Nat) : List (Tid × Entry) :=
  match s.heap p.1 with
  | some info => (entriesOf (info.buffer.contents.drop p.2)).map fun e => (info.owner, e)
  | none => []

/-- The entries waiting in `tmpBufs`. -/
def waitingTmp (s : Logger Tid) : List (Tid × Entry) := s.io.places.flatMap s.heldAt

/-- The entries waiting in `buffers_`. -/
def waitingBuffers (s : Logger Tid) : List (Tid × Entry) :=
  s.buffers.flatMap fun p => s.heldAt (p.2, 0)

/-- A live, valid `BufferInfo` of `t` whose bytes behind `nOffset` are the frames of `rs` and then
the beginning `post` of one more. -/
structure Holds (s : Logger Tid) (a : Addr) (nOffset : Nat) (t : Tid) (inuse : Bool)
    (rs : List Record) (post : List UInt8) (info : BufferInfo Tid) : Prop where
  heap : s.heap a = some info
  owner : info.owner = t
  inuse : info.inuse = inuse
  valid : info.buffer.Valid
  contents : ∃ pre, nOffset = pre.length ∧ info.buffer.contents = pre ++ Record.frames rs ++ post

section Held

variable {s s' : Logger Tid} {t t' : Tid} {a : Addr} {nOffset : Nat} {inuse : Bool}
  {info : BufferInfo Tid} {rs : List Record} {post : List UInt8}

/-- The bytes behind a record boundary fit in `size_t` with room to spare. -/
theorem Holds.length_lt (h : s.Holds a nOffset t inuse rs post info) :
    info.buffer.contents.length < 2 ^ 63 := by
  have hlen := h.valid.length_contents
  have hread := h.valid.readableSize_eq
  have hwle := h.valid.write_le
  have hcap := h.valid.capacity_lt
  omega

theorem Holds.heldAt_eq (h : s.Holds a nOffset t inuse rs post info)
    (hpost : post.length ≤ minLogSize) :
    s.heldAt (a, nOffset) = rs.map fun r => (t, r.entry) := by
  have hlen := h.length_lt
  obtain ⟨pre, rfl, hcontents⟩ := h.contents
  have hdrop : info.buffer.contents.drop pre.length = Record.frames rs ++ post := by
    rw [hcontents, List.append_assoc, List.drop_left]
  have hlt : (Record.frames rs ++ post).length < 2 ^ 63 := by
    rw [← hdrop, List.length_drop]
    omega
  simp only [heldAt, h.heap, hdrop, entriesOf_frames hpost hlt, h.owner, List.map_map]
  rfl

theorem Holds.of_heap (h : s.Holds a nOffset t inuse rs post info) (hheap : s'.heap a = s.heap a) :
    s'.Holds a nOffset t inuse rs post info :=
  ⟨hheap.trans h.heap, h.owner, h.inuse, h.valid, h.contents⟩

theorem heldAt_congr {p : Addr × Nat} (hheap : s'.heap p.1 = s.heap p.1) :
    s'.heldAt p = s.heldAt p := by
  rw [heldAt, heldAt, hheap]

theorem waitingTmp_congr (hio : s'.io = s.io)
    (hheap : ∀ p ∈ s.io.places, s'.heap p.1 = s.heap p.1) :
    s'.waitingTmp = s.waitingTmp := by
  rw [waitingTmp, waitingTmp, hio]
  exact List.flatMap_congr fun p hp => heldAt_congr (hheap p hp)

variable [DecidableEq Tid]

theorem Holds.of_heldAt_self (h : s.Holds a nOffset t inuse rs post info)
    (hpost : post.length ≤ minLogSize) :
    Tagged.of t (s.heldAt (a, nOffset)) = rs.map Record.entry := by
  have htags : (rs.map fun r => (t, r.entry)) = (rs.map Record.entry).map fun e => (t, e) := by
    rw [List.map_map]
    rfl
  rw [h.heldAt_eq hpost, htags, Tagged.of_map_self]

theorem Holds.of_heldAt_ne (h : s.Holds a nOffset t inuse rs post info)
    (hpost : post.length ≤ minLogSize) (hne : t ≠ t') :
    Tagged.of t' (s.heldAt (a, nOffset)) = [] := by
  have htags : (rs.map fun r => (t, r.entry)) = (rs.map Record.entry).map fun e => (t, e) := by
    rw [List.map_map]
    rfl
  rw [h.heldAt_eq hpost, htags, Tagged.of_map_ne hne]

end Held

/-- What holds between any two steps. -/
structure Inv [DecidableEq Tid] (s : Logger Tid) : Prop where
  /-- Every `BufferInfo` is at one place. -/
  addrs : (s.io.tmpBufs ++ s.buffers.map Prod.snd).Nodup
  keys : (s.buffers.map Prod.fst).Nodup
  /-- A thread fills only the buffer of its own map entry. -/
  filling : ∀ t a, (s.pc t).info = some a → (t, a) ∈ s.buffers
  entry : ∀ t a, (t, a) ∈ s.buffers → ∃ info rs,
    s.Holds a 0 t (s.pc t).info.isSome (rs ++ (s.pc t).pending) (s.pc t).unfinished info
  live : ∀ a ∈ s.io.tmpBufs, s.heap a ≠ none
  moved : ∀ p ∈ s.io.places, ∃ info rs, s.Holds p.1 p.2 info.owner false rs [] info
  printed : s.printed ≠ [] → s.shutdown = true
  printedLast : ∀ t, (s.pc t).info.isSome = true → Tagged.of t s.printed = []
  history : ∀ t, Tagged.of t s.written ++ Tagged.of t s.waitingTmp ++
    Tagged.of t s.waitingBuffers ++ Tagged.of t s.printed =
      Tagged.of t s.flushed ++ (s.pc t).pending.map Record.entry
  fault : ∀ e, s.fault = some e → e.ofPushData = true

end Logger

end Hplsp
