import Mathlib.Algebra.Order.BigOperators.Group.List
import Mathlib.Algebra.Order.Ring.Nat
import Hplsp.BufferMove
import Hplsp.BufferThrow

/-! Any pushes, pops and clears on a `BufferVector`: its bytes, its counter and its length. -/

namespace Hplsp

open Outcome Throwing

/-- A call on a vector; the pushed block is not null, and the pushed buffer in no list. -/
inductive VectorOp where
  | pushBuffer (buf : Buffer)
  | pushBytes (bytes : List UInt8)
  | pop
  | clear

namespace BufferVector

variable {v v' : BufferVector} {op : VectorOp} {init : List Buffer}
  {last last' node : Buffer} {bytes : List UInt8} {data : Data}

/-- The call with the environment's answers to its requests for memory. -/
def attempt (memory : Memory) : VectorOp → EStateM Fault BufferVector PUnit
  | .pushBuffer buf => do
    let _ ← Member.pushBuffer memory buf
    pure ()
  | .pushBytes bytes => Member.pushBytes memory (.block bytes)
  | .pop => modify pop
  | .clear => modify clear

/-- The buffer that a push of bytes appends to: the last node, or a new one. -/
def target (v : BufferVector) : Buffer :=
  if v.shouldMerge then v.buffers.getLast?.getD .new else .new

/-- Valid arguments, and what is copied stays below `PushDataAt`'s limit. -/
def Admissible (v : BufferVector) : VectorOp → Prop
  | .pushBuffer buf => buf.Valid ∧ (v.shouldMerge = true → v.target.Fits buf.readableSize)
  | .pushBytes bytes => v.target.Fits bytes.length
  | .pop => v.buffers ≠ []
  | .clear => True

instance (v : BufferVector) (op : VectorOp) : Decidable (v.Admissible op) :=
  match op with
  | .pushBuffer _ => inferInstanceAs (Decidable (_ ∧ _))
  | .pushBytes _ => inferInstanceAs (Decidable (Buffer.Fits _ _))
  | .pop => inferInstanceAs (Decidable (_ ≠ _))
  | .clear => inferInstanceAs (Decidable True)

/-- The bytes that the call adds. -/
def pushed : VectorOp → List UInt8
  | .pushBuffer buf => buf.contents
  | .pushBytes bytes => bytes
  | _ => []

/-- The bytes of the buffers that the call takes out of the list. -/
def removed (v : BufferVector) : VectorOp → List UInt8
  | .pop => (v.buffers.take 1).flatMap Buffer.contents
  | .clear => v.contents
  | _ => []

/-- The sum of `ReadableSize()` over the list. -/
def sizes (v : BufferVector) : Nat := (v.buffers.map Buffer.readableSize).sum

/-- The arrays of the list are disjoint blocks of one 64-bit address space. -/
def InMemory (v : BufferVector) : Prop := (v.buffers.map Buffer.capacity).sum < 2 ^ 64

/-- The vector, and beside it the bytes pushed to it and the bytes taken out of it so far. -/
structure Ledger where
  vector : BufferVector
  pushed : List UInt8
  removed : List UInt8

/-- A call that returns, or one that throws `std::bad_alloc`: its caller goes on after either. -/
inductive Attempt : Ledger → VectorOp × Memory → Ledger → Prop
  | returns {s : Ledger} {op : VectorOp} {memory : Memory} {v : BufferVector}
      (hop : s.vector.Admissible op) (hok : (attempt memory op).run s.vector = .ok ⟨⟩ v) :
      Attempt s (op, memory) ⟨v, s.pushed ++ pushed op, s.removed ++ s.vector.removed op⟩
  | throws {s : Ledger} {op : VectorOp} {memory : Memory} {v : BufferVector}
      (hop : s.vector.Admissible op)
      (herr : (attempt memory op).run s.vector = .error .badAlloc v) :
      Attempt s (op, memory) ⟨v, s.pushed, s.removed⟩

/-- The counter, the bytes in order, the full nodes and their number. -/
structure Accounts (s : Ledger) : Prop where
  total : s.vector.totalBytes = s.vector.sizes % 2 ^ 64
  total_eq : s.vector.InMemory → s.vector.totalBytes = s.vector.sizes
  bytes : s.pushed = s.removed ++ s.vector.contents
  full : ∀ node ∈ s.vector.buffers.dropLast, kMinSize ≤ node.readableSize
  length_le : s.vector.InMemory →
    s.vector.buffers.length ≤ s.vector.totalBytes / kMinSize + 1
  /-- No assertion fails and nothing is overrun. -/
  ends : ∀ op memory, s.vector.Admissible op →
    (∃ v, (attempt memory op).run s.vector = .ok ⟨⟩ v) ∨
      ∃ v, (attempt memory op).run s.vector = .error .badAlloc v

/-- A push of any bytes gets the memory that it asks for: the array that `AssureSpace` has to grow
into, and the list node when it does not merge. -/
def Stored (s : Ledger) : VectorOp × Memory → Prop
  | (.pushBuffer buf, memory) => buf.readableSize ≠ 0 →
      if s.vector.shouldMerge then s.vector.target.Served memory.array buf.readableSize
      else memory.node = true
  | (.pushBytes bytes, memory) => bytes.length ≠ 0 →
      s.vector.target.Served memory.array bytes.length ∧
        (s.vector.shouldMerge = false → memory.node = true)
  | _ => True

/-- Valid nodes, all but the last at least `kMinSize` bytes long, and the counter, which is a
64-bit number. -/
structure Inv (v : BufferVector) : Prop where
  valid : ∀ node ∈ v.buffers, node.Valid
  total : v.totalBytes = v.sizes % 2 ^ 64
  full : ∀ node ∈ v.buffers.dropLast, kMinSize ≤ node.readableSize

theorem inv_new : new.Inv := by
  refine ⟨?_, rfl, ?_⟩ <;> simp [new]

/-- Every node but the last accounts for `kMinSize` bytes. -/
theorem Inv.length_le (h : v.Inv) : v.buffers.length ≤ v.sizes / kMinSize + 1 := by
  have hdrop : v.buffers.dropLast.length * kMinSize ≤
      (v.buffers.dropLast.map Buffer.readableSize).sum := by
    have hcard := List.card_nsmul_le_sum (v.buffers.dropLast.map Buffer.readableSize) kMinSize ?_
    · simpa using hcard
    · intro n hn
      obtain ⟨node, hnode, rfl⟩ := List.mem_map.mp hn
      exact h.full node hnode
  have hsub : (v.buffers.dropLast.map Buffer.readableSize).sum ≤ v.sizes :=
    List.Sublist.sum_le_sum ((List.dropLast_sublist _).map _) fun _ _ => Nat.zero_le _
  have hlen : v.buffers.dropLast.length ≤ v.sizes / kMinSize :=
    (Nat.le_div_iff_mul_le (by decide)).mpr (Nat.le_trans hdrop hsub)
  rw [List.length_dropLast] at hlen
  omega

/-- In memory the counter does not wrap. -/
theorem Inv.totalBytes_eq (h : v.Inv) (hmem : v.InMemory) : v.totalBytes = v.sizes := by
  have hle : v.sizes ≤ (v.buffers.map Buffer.capacity).sum := by
    refine List.sum_le_sum fun node hnode => ?_
    have hread := (h.valid node hnode).readableSize_eq
    have hwle := (h.valid node hnode).write_le
    omega
  simp only [InMemory] at hmem
  rw [h.total, Nat.mod_eq_of_lt (by omega)]

/-- A vector that merges ends in the node that the bytes go to. -/
theorem split_of_shouldMerge (h : v.shouldMerge = true) :
    ∃ init last, v.buffers = init ++ [last] ∧ v.target = last := by
  obtain ⟨last, -, hlast⟩ := Buffer.getLast_of_shouldMerge h
  obtain ⟨init, hinit⟩ := List.getLast?_eq_some_iff.mp hlast
  exact ⟨init, last, hinit, by rw [target, if_pos h, hlast, Option.getD_some]⟩

/-- Bytes appended to the last node are appended to the vector. -/
theorem Inv.extend (h : v.Inv) (hsplit : v.buffers = init ++ [last]) (hvalid : last'.Valid)
    (hlast : last'.contents = last.contents ++ bytes) :
    Inv ⟨init ++ [last'], Word64.add v.totalBytes bytes.length⟩ ∧
      contents ⟨init ++ [last'], Word64.add v.totalBytes bytes.length⟩ = v.contents ++ bytes := by
  have hold : last.Valid := h.valid last (by simp [hsplit])
  have hread : last'.readableSize = last.readableSize + bytes.length := by
    rw [← hvalid.length_contents, hlast, List.length_append, hold.length_contents]
  refine ⟨⟨?_, ?_, ?_⟩, ?_⟩
  · intro node hnode
    rcases List.mem_append.mp hnode with hinit | hlast
    · exact h.valid node (by simp [hsplit, hinit])
    · rwa [List.mem_singleton.mp hlast]
  · have htotal := h.total
    simp only [sizes, hsplit, List.map_append, List.map_cons, List.map_nil, List.sum_append,
      List.sum_cons, List.sum_nil, Word64.add, Word64.size] at htotal ⊢
    omega
  · intro node hnode
    exact h.full node (by simpa [hsplit] using hnode)
  · simp [contents, hsplit, hlast]

/-- A vector whose last node is full, or which has none, takes any valid node. -/
theorem Inv.append (h : v.Inv) (hmerge : v.shouldMerge = false) (hvalid : node.Valid) :
    Inv ⟨v.buffers ++ [node], Word64.add v.totalBytes node.readableSize⟩ ∧
      contents ⟨v.buffers ++ [node], Word64.add v.totalBytes node.readableSize⟩ =
        v.contents ++ node.contents := by
  refine ⟨⟨?_, ?_, ?_⟩, by simp [contents]⟩
  · intro node' hnode
    rcases List.mem_append.mp hnode with hold | hnew
    · exact h.valid node' hold
    · rwa [List.mem_singleton.mp hnew]
  · have htotal := h.total
    simp only [sizes, List.map_append, List.map_cons, List.map_nil, List.sum_append,
      List.sum_cons, List.sum_nil, Word64.add, Word64.size] at htotal ⊢
    omega
  · intro node' hnode
    rw [List.dropLast_concat] at hnode
    cases hlast : v.buffers.getLast? with
    | none => simp [List.getLast?_eq_none_iff.mp hlast] at hnode
    | some last =>
      obtain ⟨init, hinit⟩ := List.getLast?_eq_some_iff.mp hlast
      rw [hinit] at hnode
      rcases List.mem_append.mp hnode with hfront | hback
      · exact h.full node' (by simpa [hinit] using hfront)
      · rw [List.mem_singleton.mp hback]
        simpa [shouldMerge, hlast] using hmerge

theorem Inv.pop (h : v.Inv) :
    v.pop.Inv ∧ v.contents = (v.buffers.take 1).flatMap Buffer.contents ++ v.pop.contents := by
  unfold BufferVector.pop
  split
  next hnil => exact ⟨h, by simp [contents, hnil]⟩
  next front rest hcons =>
    refine ⟨⟨fun node hnode => h.valid node (by simp [hcons, hnode]), ?_, fun node hnode => ?_⟩,
      by simp [contents, hcons]⟩
    · have htotal := h.total
      simp only [sizes, hcons, List.map_cons, List.sum_cons, Word64.sub, Word64.size]
        at htotal ⊢
      omega
    · refine h.full node ?_
      rw [hcons]
      cases rest with
      | nil => simp at hnode
      | cons second rest => simp [hnode]

/-- `(ReadAddr(), ReadableSize())` denotes the readable bytes, also when the pointer is null. -/
theorem pushData_readData {buf : Buffer} (hbuf : buf.Valid) :
    ∃ data, buf.readData = .ok data ∧ ∀ memory,
      Buffer.Member.pushData memory data = Buffer.Member.pushData memory (.block buf.contents) := by
  rw [Buffer.readData]
  split
  next hnull =>
    have hread := hbuf.readableSize_eq
    have hwle := hbuf.write_le
    have hlen := hbuf.capacity_eq
    rw [hnull, List.length_nil] at hlen
    have hzero : buf.readableSize = 0 := by omega
    have hnil : buf.contents = [] := by
      rw [← List.length_eq_zero_iff, hbuf.length_contents, hzero]
    refine ⟨_, rfl, fun memory => funext fun b => ?_⟩
    rw [hnil, hzero]
    rfl
  next => exact ⟨_, by rw [hbuf.readAt_contents, ok_bind], fun _ => rfl⟩

section Merge

variable {array : Bool} {total : Nat}

theorem onLast_ok {m : EStateM Fault Buffer Nat} {n : Nat} (hsplit : v.buffers = init ++ [last])
    (hok : m.run last = .ok n last') :
    (onLast m).run v = .ok ⟨⟩ ⟨init ++ [last'], v.totalBytes⟩ := by
  simp only [EStateM.run] at hok
  simp [onLast, EStateM.run, hsplit, hok]

theorem onLast_error {m : EStateM Fault Buffer Nat} {e : Fault}
    (hsplit : v.buffers = init ++ [last]) (herr : m.run last = .error e last') :
    (onLast m).run v = .error e ⟨init ++ [last'], v.totalBytes⟩ := by
  simp only [EStateM.run] at herr
  simp [onLast, EStateM.run, hsplit, herr]

variable (h : v.Inv) (hmerge : v.shouldMerge = true) (hfit : v.target.Fits bytes.length)
include h hmerge hfit

/-- A push that merges, and gets the array that it asks for. -/
theorem Inv.merge_served (hserved : v.target.Served array bytes.length) :
    ∃ nodes, (onLast (Buffer.Member.pushData array (.block bytes))).run ⟨v.buffers, total⟩ =
        .ok ⟨⟩ ⟨nodes, total⟩ ∧
      Inv ⟨nodes, Word64.add v.totalBytes bytes.length⟩ ∧
      nodes.flatMap Buffer.contents = v.contents ++ bytes := by
  obtain ⟨init, last, hsplit, htarget⟩ := split_of_shouldMerge hmerge
  have hlast : last.Valid := h.valid last (by simp [hsplit])
  rw [htarget] at hfit hserved
  obtain ⟨last', hrun⟩ := Buffer.run_pushData_served hlast hfit hserved
  obtain ⟨hvalid, hcontents, -⟩ := Buffer.pushData_ok hlast (Buffer.run_pushData_ok hrun)
  obtain ⟨hinv, happend⟩ := h.extend hsplit hvalid hcontents
  have hsplit' : (⟨v.buffers, total⟩ : BufferVector).buffers = init ++ [last] := hsplit
  exact ⟨init ++ [last'], onLast_ok hsplit' hrun, hinv, happend⟩

/-- One that is refused its array leaves all bytes as they were. -/
theorem Inv.merge_unserved (hserved : ¬ v.target.Served array bytes.length) :
    ∃ nodes, (onLast (Buffer.Member.pushData array (.block bytes))).run ⟨v.buffers, total⟩ =
        .error .badAlloc ⟨nodes, total⟩ ∧ sizes ⟨nodes, total⟩ = v.sizes := by
  obtain ⟨init, last, hsplit, htarget⟩ := split_of_shouldMerge hmerge
  have hlast : last.Valid := h.valid last (by simp [hsplit])
  rw [htarget] at hfit hserved
  obtain ⟨capacity, -, hrun⟩ := Buffer.run_pushData_unserved hlast hfit hserved
  have hsplit' : (⟨v.buffers, total⟩ : BufferVector).buffers = init ++ [last] := hsplit
  refine ⟨_, onLast_error hsplit' hrun, ?_⟩
  simp only [sizes, hsplit, List.map_append]
  rfl

end Merge

variable {memory : Memory}

/-- `Push(Buffer&&)` and `Push(data, size)` of the same bytes do the same when they merge. -/
theorem run_pushBuffer_merge {buf : Buffer} (hbuf : buf.Valid) (hmerge : v.shouldMerge = true) :
    (attempt memory (.pushBuffer buf)).run v =
      (onLast (Buffer.Member.pushData memory.array (.block buf.contents))).run
        ⟨v.buffers, Word64.add v.totalBytes buf.readableSize⟩ := by
  obtain ⟨data, hread, hdata⟩ := pushData_readData hbuf
  have hmerge' : shouldMerge ⟨v.buffers, Word64.add v.totalBytes buf.readableSize⟩ = true := hmerge
  simp only [attempt, Member.pushBuffer, EStateM.run_bind, EStateM.run_modify, EStateM.run_get,
    hmerge', if_true, hread, run_liftExcept_ok, hdata]
  cases (onLast (Buffer.Member.pushData memory.array (.block buf.contents))).run
    ⟨v.buffers, Word64.add v.totalBytes buf.readableSize⟩ <;> rfl

theorem run_pushBuffer_move {buf : Buffer} (hmerge : v.shouldMerge = false) :
    (attempt memory (.pushBuffer buf)).run v =
      if memory.node then
        .ok ⟨⟩ ⟨v.buffers ++ [buf], Word64.add v.totalBytes buf.readableSize⟩
      else .error .badAlloc ⟨v.buffers, Word64.add v.totalBytes buf.readableSize⟩ := by
  have hmerge' : shouldMerge ⟨v.buffers, Word64.add v.totalBytes buf.readableSize⟩ = false := hmerge
  cases hnode : memory.node <;>
    simp [attempt, Member.pushBuffer, newNode, hmerge', hnode, Buffer.moveFrom_eq]

theorem run_pushBytes_merge (hmerge : v.shouldMerge = true) :
    (attempt memory (.pushBytes bytes)).run v =
      (onLast (Buffer.Member.pushData memory.array (.block bytes))).run
        ⟨v.buffers, Word64.add v.totalBytes bytes.length⟩ := by
  have hmerge' : shouldMerge ⟨v.buffers, Word64.add v.totalBytes bytes.length⟩ = true := hmerge
  simp only [attempt, Member.pushBytes, EStateM.run_bind, EStateM.run_modify, EStateM.run_get,
    hmerge', if_true, Data.size]

theorem run_pushBytes_new (hmerge : v.shouldMerge = false) :
    (attempt memory (.pushBytes bytes)).run v =
      match construct memory (.block bytes) with
      | .ok node => if memory.node then
          .ok ⟨⟩ ⟨v.buffers ++ [node], Word64.add v.totalBytes bytes.length⟩
        else .error .badAlloc ⟨v.buffers, Word64.add v.totalBytes bytes.length⟩
      | .error e => .error e ⟨v.buffers, Word64.add v.totalBytes bytes.length⟩ := by
  have hmerge' : shouldMerge ⟨v.buffers, Word64.add v.totalBytes bytes.length⟩ = false := hmerge
  cases hnode : memory.node <;> cases hnew : construct memory (.block bytes) <;>
    simp [attempt, Member.pushBytes, newNode, hmerge', hnode, hnew, Data.size]

theorem construct_served (hfit : Buffer.new.Fits bytes.length)
    (hserved : Buffer.new.Served memory.array bytes.length) :
    ∃ node, construct memory (.block bytes) = .ok node ∧ node.Valid ∧ node.contents = bytes := by
  obtain ⟨node, hrun⟩ := Buffer.run_pushData_served Buffer.valid_new hfit hserved
  obtain ⟨hvalid, hcontents, -⟩ := Buffer.pushData_ok Buffer.valid_new (Buffer.run_pushData_ok hrun)
  rw [Buffer.contents_new, List.nil_append] at hcontents
  exact ⟨node, by rw [construct, hrun], hvalid, hcontents⟩

theorem construct_unserved (hfit : Buffer.new.Fits bytes.length)
    (hserved : ¬ Buffer.new.Served memory.array bytes.length) :
    construct memory (.block bytes) = .error .badAlloc := by
  obtain ⟨capacity, -, hrun⟩ := Buffer.run_pushData_unserved Buffer.valid_new hfit hserved
  rw [construct, hrun]

/-- A request for no bytes is served. -/
theorem served_of_ne {b : Buffer} {array : Bool} {n : Nat} (h : n ≠ 0 → b.Served array n) :
    b.Served array n := by
  intro hgrows
  have hne : n ≠ 0 := fun hzero => by
    rw [hzero] at hgrows
    exact Nat.not_lt_zero _ hgrows
  exact h hne hgrows

/-- What a push with its memory does to the vector; one of no bytes may be refused a list node. -/
def Kept (v : BufferVector) (op : VectorOp) (memory : Memory) : Prop :=
  (∃ v', (attempt memory op).run v = .ok ⟨⟩ v' ∧ v'.Inv ∧
    v.contents ++ pushed op = v.removed op ++ v'.contents) ∨
  (attempt memory op).run v = .error .badAlloc v

/-- What one without does: it throws when the counter already has the bytes. -/
def Miscounted (v : BufferVector) (op : VectorOp) (memory : Memory) : Prop :=
  ∃ v', (attempt memory op).run v = .error .badAlloc v' ∧ v'.totalBytes ≠ v'.sizes % 2 ^ 64

section Push

variable (h : v.Inv)
include h

theorem Inv.totalBytes_add_zero : Word64.add v.totalBytes 0 = v.totalBytes := by
  have htotal := h.total
  simp only [Word64.add, Word64.size]
  omega

/-- The counter is raised, and the bytes are not there. -/
theorem Inv.miscounted {n : Nat} {nodes : List Buffer} (hne : n ≠ 0) (hlt : n < 2 ^ 63)
    (hsame : sizes ⟨nodes, Word64.add v.totalBytes n⟩ = v.sizes) :
    Word64.add v.totalBytes n ≠ sizes ⟨nodes, Word64.add v.totalBytes n⟩ % 2 ^ 64 := by
  rw [hsame, h.total]
  simp only [Word64.add, Word64.size]
  omega

theorem Inv.pushBuffer_stored {buf : Buffer} (hop : v.Admissible (.pushBuffer buf))
    (hstored : buf.readableSize ≠ 0 →
      if v.shouldMerge then v.target.Served memory.array buf.readableSize
      else memory.node = true) : v.Kept (.pushBuffer buf) memory := by
  obtain ⟨hbuf, hfit⟩ := hop
  have hlen := hbuf.length_contents
  cases hmerge : v.shouldMerge with
  | true =>
    rw [if_pos hmerge] at hstored
    have hserved := served_of_ne hstored
    rw [← hlen] at hserved
    obtain ⟨nodes, hrun, hinv, hcontents⟩ := h.merge_served hmerge
      (by rw [hlen]; exact hfit hmerge) hserved
    rw [hlen] at hinv
    exact .inl ⟨_, (run_pushBuffer_merge hbuf hmerge).trans hrun, hinv, hcontents.symm⟩
  | false =>
    rw [Kept, run_pushBuffer_move hmerge]
    cases hnode : memory.node with
    | true =>
      obtain ⟨hinv, hcontents⟩ := h.append hmerge hbuf
      exact .inl ⟨_, rfl, hinv, hcontents.symm⟩
    | false =>
      have hzero : buf.readableSize = 0 := by
        by_contra hne
        have hserved := hstored hne
        rw [if_neg (by simp [hmerge]), hnode] at hserved
        cases hserved
      rw [hzero, h.totalBytes_add_zero]
      exact .inr rfl

theorem Inv.pushBytes_stored (hop : v.Admissible (.pushBytes bytes))
    (hstored : bytes.length ≠ 0 → v.target.Served memory.array bytes.length ∧
      (v.shouldMerge = false → memory.node = true)) : v.Kept (.pushBytes bytes) memory := by
  have hserved := served_of_ne fun hne => (hstored hne).1
  cases hmerge : v.shouldMerge with
  | true =>
    obtain ⟨nodes, hrun, hinv, hcontents⟩ := h.merge_served hmerge hop hserved
    exact .inl ⟨_, (run_pushBytes_merge hmerge).trans hrun, hinv, hcontents.symm⟩
  | false =>
    have htarget : v.target = .new := by simp [target, hmerge]
    rw [Admissible, htarget] at hop
    rw [htarget] at hserved
    obtain ⟨node, hnew, hvalid, hcontents⟩ := construct_served hop hserved
    rw [Kept, run_pushBytes_new hmerge, hnew]
    cases hnode : memory.node with
    | true =>
      obtain ⟨hinv, happend⟩ := h.append hmerge hvalid
      rw [← hvalid.length_contents, hcontents] at hinv happend
      exact .inl ⟨_, rfl, hinv, happend.symm⟩
    | false =>
      have hzero : bytes.length = 0 := by
        by_contra hne
        have := (hstored hne).2 hmerge
        rw [hnode] at this
        cases this
      rw [hzero, h.totalBytes_add_zero]
      exact .inr rfl

theorem Inv.pushBuffer_unstored {buf : Buffer} (hop : v.Admissible (.pushBuffer buf))
    (hne : buf.readableSize ≠ 0)
    (hrefused : ¬ if v.shouldMerge then v.target.Served memory.array buf.readableSize
      else memory.node = true) : v.Miscounted (.pushBuffer buf) memory := by
  obtain ⟨hbuf, hfit⟩ := hop
  have hlen := hbuf.length_contents
  have hlt : buf.readableSize < 2 ^ 63 := by
    have hread := hbuf.readableSize_eq
    have hwle := hbuf.write_le
    have hcap := hbuf.capacity_lt
    omega
  cases hmerge : v.shouldMerge with
  | true =>
    rw [if_pos hmerge] at hrefused
    obtain ⟨nodes, hrun, hsame⟩ := h.merge_unserved hmerge
      (by rw [hlen]; exact hfit hmerge) (by rwa [hlen])
    exact ⟨_, (run_pushBuffer_merge hbuf hmerge).trans hrun, h.miscounted hne hlt hsame⟩
  | false =>
    rw [if_neg (by simp [hmerge])] at hrefused
    rw [Miscounted, run_pushBuffer_move hmerge, if_neg hrefused]
    exact ⟨_, rfl, h.miscounted hne hlt rfl⟩

theorem Inv.pushBytes_unstored (hop : v.Admissible (.pushBytes bytes)) (hne : bytes.length ≠ 0)
    (hrefused : ¬ (v.target.Served memory.array bytes.length ∧
      (v.shouldMerge = false → memory.node = true))) : v.Miscounted (.pushBytes bytes) memory := by
  have hlt : bytes.length < 2 ^ 63 := by
    simp only [Admissible, Buffer.Fits, Buffer.kMaxBufferSize] at hop
    omega
  cases hmerge : v.shouldMerge with
  | true =>
    have hserved : ¬ v.target.Served memory.array bytes.length :=
      fun hserved => hrefused ⟨hserved, fun hfalse => by rw [hmerge] at hfalse; cases hfalse⟩
    obtain ⟨nodes, hrun, hsame⟩ := h.merge_unserved hmerge hop hserved
    exact ⟨_, (run_pushBytes_merge hmerge).trans hrun, h.miscounted hne hlt hsame⟩
  | false =>
    have htarget : v.target = .new := by simp [target, hmerge]
    rw [Admissible, htarget] at hop
    rw [htarget] at hrefused
    refine ⟨⟨v.buffers, Word64.add v.totalBytes bytes.length⟩, ?_, h.miscounted hne hlt rfl⟩
    rw [run_pushBytes_new hmerge]
    by_cases hserved : Buffer.new.Served memory.array bytes.length
    · obtain ⟨node, hnew, -⟩ := construct_served hop hserved
      have hnode : ¬ memory.node = true := fun hnode => hrefused ⟨hserved, fun _ => hnode⟩
      rw [hnew]
      exact if_neg hnode
    · rw [construct_unserved hop hserved]

end Push

theorem attempt_stored {s : Ledger} (h : s.vector.Inv) (hop : s.vector.Admissible op)
    (hstored : Stored s (op, memory)) : s.vector.Kept op memory := by
  cases op with
  | pushBuffer buf => exact h.pushBuffer_stored hop hstored
  | pushBytes bytes => exact h.pushBytes_stored hop hstored
  | pop => exact .inl ⟨_, rfl, h.pop.1, by simpa [pushed, removed] using h.pop.2⟩
  | clear => exact .inl ⟨_, rfl, inv_new, by simp [pushed, removed, contents, clear]⟩

theorem attempt_unstored {s : Ledger} (h : s.vector.Inv) (hop : s.vector.Admissible op)
    (hstored : ¬ Stored s (op, memory)) : s.vector.Miscounted op memory := by
  cases op with
  | pushBuffer buf =>
    obtain ⟨hne, hrefused⟩ := Classical.not_imp.mp hstored
    exact h.pushBuffer_unstored hop hne hrefused
  | pushBytes bytes =>
    obtain ⟨hne, hrefused⟩ := Classical.not_imp.mp hstored
    exact h.pushBytes_unstored hop hne hrefused
  | pop => exact (hstored trivial).elim
  | clear => exact (hstored trivial).elim

/-- A vector that keeps its invariant, and the bytes that went through it. -/
def Balanced (s : Ledger) : Prop := s.vector.Inv ∧ s.pushed = s.removed ++ s.vector.contents

theorem Balanced.accounts {s : Ledger} (h : Balanced s) : Accounts s := by
  obtain ⟨hinv, hbytes⟩ := h
  refine ⟨hinv.total, hinv.totalBytes_eq, hbytes, hinv.full, fun hmem => ?_,
    fun op memory hop => ?_⟩
  · rw [hinv.totalBytes_eq hmem]
    exact hinv.length_le
  · by_cases hstored : Stored s (op, memory)
    · rcases attempt_stored hinv hop hstored with ⟨v, hrun, -⟩ | hrun
      · exact Or.inl ⟨v, hrun⟩
      · exact Or.inr ⟨_, hrun⟩
    · obtain ⟨v, hrun, -⟩ := attempt_unstored hinv hop hstored
      exact Or.inr ⟨v, hrun⟩

theorem Balanced.step {s s' : Ledger} {a : VectorOp × Memory} (h : Balanced s)
    (hstep : Attempt s a s') (hstored : Stored s a) : Balanced s' := by
  obtain ⟨hinv, hbytes⟩ := h
  cases hstep with
  | returns hop hok =>
    rcases attempt_stored hinv hop hstored with ⟨v, hrun, hv, hmoved⟩ | hrun
    · rw [hrun] at hok
      cases hok
      exact ⟨hv, by rw [hbytes, List.append_assoc, hmoved, List.append_assoc]⟩
    · rw [hrun] at hok
      cases hok
  | throws hop herr =>
    rcases attempt_stored hinv hop hstored with ⟨v, hrun, -⟩ | hrun
    · rw [hrun] at herr
      cases herr
    · rw [hrun] at herr
      cases herr
      exact ⟨hinv, hbytes⟩

/-- After a push that was not stored the counter is wrong. -/
theorem Balanced.miscounts {s s' : Ledger} {a : VectorOp × Memory} (h : Balanced s)
    (hstep : Attempt s a s') (hstored : ¬ Stored s a) : ¬ Accounts s' := by
  intro haccounts
  cases hstep with
  | returns hop hok =>
    obtain ⟨v, hrun, -⟩ := attempt_unstored h.1 hop hstored
    rw [hrun] at hok
    cases hok
  | throws hop herr =>
    obtain ⟨v, hrun, hwrong⟩ := attempt_unstored h.1 hop hstored
    rw [hrun] at herr
    cases herr
    exact hwrong haccounts.total

/-- An empty vector, and nothing pushed. -/
def Ledger.new : Ledger := ⟨BufferVector.new, [], []⟩

/-- From an empty vector, with calls that return or throw as memory allows: the counter, the bytes,
the full nodes and their number are right exactly as long as every push of bytes gets its memory. -/
theorem vector_accounts_iff (ops : List (VectorOp × Memory)) :
    Lts.StatesAlong Attempt Accounts Ledger.new ops ↔
      Lts.StepsAlong Attempt Stored Ledger.new ops := by
  refine Lts.statesAlong_iff_stepsAlong (I := Balanced) ?_ ?_ ?_ ⟨inv_new, rfl⟩
  · exact fun s h => h.accounts
  · exact fun s a t h hstep hstored => h.step hstep hstored
  · intro s a t h hstep haccounts
    by_contra hstored
    exact h.miscounts hstep hstored haccounts

/-- The second push merges into the moved node, and one pop takes both. -/
theorem vector_accounts_iff_merged : Lts.StatesAlong Attempt Accounts Ledger.new
    [(.pushBuffer ⟨0, 1, 1, [7]⟩, ⟨false, true⟩), (.pushBytes [8], ⟨true, false⟩),
      (.pop, ⟨false, false⟩)] := by
  refine (vector_accounts_iff _).mpr fun s hmoved => ⟨fun _ => rfl, ?_⟩
  have hvector : s.vector = ⟨[⟨0, 1, 1, [7]⟩], 1⟩ := by
    cases hmoved with
    | returns hop hok =>
      cases hok
      rfl
    | throws hop herr => cases herr
  have hserved : Buffer.Served ⟨0, 1, 1, [7]⟩ true 1 := by decide
  refine fun t _ => ⟨fun _ => ?_, fun _ _ => ⟨trivial, trivial⟩⟩
  rw [hvector]
  exact ⟨hserved, fun hmerge => by cases hmerge⟩

/-- A byte whose array is refused is counted, and in no buffer. -/
theorem counted_before_stored : ∃ s : Ledger,
    Lts.Run Attempt Ledger.new [(.pushBytes [7], ⟨false, true⟩)] s ∧
      s.vector.totalBytes = 1 ∧ s.vector.buffers = [] ∧ ¬ Accounts s ∧
      ¬ Lts.StatesAlong Attempt Accounts Ledger.new [(.pushBytes [7], ⟨false, true⟩)] := by
  have hstep : Attempt Ledger.new (.pushBytes [7], ⟨false, true⟩) ⟨⟨[], 1⟩, [], []⟩ :=
    .throws (by decide) rfl
  have hwrong : ¬ Accounts ⟨⟨[], 1⟩, [], []⟩ := fun h => absurd h.total (by decide)
  exact ⟨_, .cons hstep (.refl _), rfl, rfl, hwrong, fun h => hwrong (h.2 _ hstep)⟩

end BufferVector

end Hplsp
