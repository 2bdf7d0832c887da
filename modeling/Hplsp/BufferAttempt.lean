import Hplsp.BufferQueue
import Hplsp.BufferThrow

/-! Any number of buffers in a process that can run out of memory: exactly when they stay queues. -/

namespace Hplsp

open Outcome Throwing

/-- `AssureSpace`, then `bytes` written at `WriteAddr()` and `Produce(bytes.length)`. -/
def Buffer.Member.stage (memory : Bool) (needsize : Nat) (bytes : List UInt8) :
    EStateM Fault Buffer PUnit := do
  assureSpace memory needsize
  let b ← get
  let buffer ← liftExcept (Cells.writeAt (Fault.overrun .array) b.buffer b.writePos bytes)
  set ({ b with buffer := buffer }.produce bytes.length)

/-- The buffers, and beside them the bytes produced in each and not yet consumed. -/
structure Queued (ι : Type) where
  buffers : ι → Buffer
  queues : ι → List UInt8

/-- `Buffer()` everywhere, and nothing produced. -/
def Queued.new {ι : Type} : Queued ι := ⟨fun _ => Buffer.new, fun _ => []⟩

namespace Call

variable {ι : Type} [DecidableEq ι]

/-- The call with the environment's answer to its `operator new[]`, if it comes to one. -/
def attempt (memory : Bool) : Call ι → EStateM Fault (ι → Buffer) (List UInt8)
  | .pushData i bytes => onMember i do
    let _ ← Buffer.Member.pushData memory (.block bytes)
    pure []
  | .stage i needsize bytes => onMember i do
    Buffer.Member.stage memory needsize bytes
    pure []
  | .shrink i => onMember i do
    Buffer.Member.shrink memory
    pure []
  | .popData i size => ofExcept fun bs => exec bs (.popData i size)
  | .peekDataAt i size offset => ofExcept fun bs => exec bs (.peekDataAt i size offset)
  | .consume i size => ofExcept fun bs => exec bs (.consume i size)
  | .clear i => ofExcept fun bs => exec bs (.clear i)
  | .swap i j => ofExcept fun bs => exec bs (.swap i j)

/-- A call that returns, or one that throws `std::bad_alloc`: its caller goes on after either. -/
inductive Attempt : Queued ι → Call ι × Bool → Queued ι → Prop
  | returns {s : Queued ι} {c : Call ι} {memory : Bool} {bs' : ι → Buffer} {out : List UInt8}
      (hc : c.Admissible s.buffers)
      (hok : (c.attempt memory).run s.buffers = .ok out bs') :
      Attempt s (c, memory) ⟨bs', (Fifo.step s.queues c.queueOp).1⟩
  | throws {s : Queued ι} {c : Call ι} {memory : Bool} {bs' : ι → Buffer}
      (hc : c.Admissible s.buffers)
      (herr : (c.attempt memory).run s.buffers = .error .badAlloc bs') :
      Attempt s (c, memory) ⟨bs', s.queues⟩

/-- What a user of the buffers sees of them. -/
structure RefinesQueue (s : Queued ι) : Prop where
  cursors : ∀ i, (s.buffers i).readPos ≤ (s.buffers i).writePos ∧
    (s.buffers i).writePos ≤ (s.buffers i).capacity ∧
    (s.buffers i).capacity = (s.buffers i).buffer.length
  contents : ∀ i, (s.buffers i).contents = s.queues i
  peek : ∀ i size offset, (s.buffers i).Fits (size + offset) →
    ∃ bytes, exec s.buffers (.peekDataAt i size offset) = .ok (s.buffers, bytes) ∧
      bytes = ((s.queues i).drop offset).take size ∧
      bytes.length = min size ((s.buffers i).readableSize - offset)
  /-- No assertion fails and nothing is overrun. -/
  ends : ∀ c memory, Admissible s.buffers c →
    (∃ bs, (c.attempt memory).run s.buffers = .ok (Fifo.step s.queues c.queueOp).2 bs) ∨
      ∃ bs, (c.attempt memory).run s.buffers = .error .badAlloc bs

/-- The `AssureSpace` of the call, if it has to grow, gets its array: there is memory, and no more
than `3 * 2 ^ 61` bytes are asked for in all. -/
def Served (s : Queued ι) : Call ι × Bool → Prop
  | (.pushData i bytes, memory) => (s.buffers i).Grows bytes.length →
      memory = true ∧ (s.buffers i).readableSize + bytes.length ≤ 3 * 2 ^ 61
  | (.stage i needsize _, memory) => (s.buffers i).Grows needsize →
      memory = true ∧ (s.buffers i).readableSize + needsize ≤ 3 * 2 ^ 61
  | _ => True

variable {bs bs' : ι → Buffer} {c : Call ι} {memory : Bool} {s s' : Queued ι}

theorem run_stage_ok {b b' : Buffer} {needsize : Nat} {bytes : List UInt8}
    (hok : (Buffer.Member.stage memory needsize bytes).run b = .ok () b') :
    b.stage needsize bytes = .ok b' := by
  obtain ⟨_, b₁, hassure, hok⟩ := run_bind_ok.mp hok
  rw [run_get_bind] at hok
  obtain ⟨buffer, hwrite, hok⟩ := run_liftExcept_bind_ok.mp hok
  cases hok
  rw [Buffer.stage, Buffer.run_assureSpace_ok hassure, ok_bind, hwrite, ok_bind]

theorem run_stage_served {b : Buffer} (h : b.Valid) {needsize : Nat} {bytes : List UInt8}
    (hfit : b.Fits needsize)
    (hroom : ∀ b', b.assureSpace needsize = .ok b' → bytes.length ≤ b'.writableSize)
    (hserved : b.Served memory needsize) :
    ∃ b', (Buffer.Member.stage memory needsize bytes).run b = .ok () b' := by
  obtain ⟨b₁, hassure⟩ := Buffer.run_assureSpace_served h hfit hserved
  have hok := Buffer.run_assureSpace_ok hassure
  obtain ⟨hvalid, -, -⟩ := (Buffer.assureSpace_sat h hfit).of_ok hok
  have hspace := hroom b₁ hok
  rw [hvalid.writableSize_eq] at hspace
  have hwle := hvalid.write_le
  have hlen := hvalid.capacity_eq
  refine ⟨({ b₁ with buffer := Cells.splice b₁.buffer b₁.writePos bytes } : Buffer).produce
    bytes.length, run_bind_ok.mpr ⟨_, _, hassure, ?_⟩⟩
  rw [run_get_bind, Cells.writeAt_eq _ (by omega), run_liftExcept_ok_bind]
  rfl

/-- A call that returns does what it does with memory there. -/
theorem exec_of_attempt {out : List UInt8} (hok : (c.attempt memory).run bs = .ok out bs') :
    c.exec bs = .ok (bs', out) := by
  cases c with
  | pushData i bytes =>
    obtain ⟨b, hmember, rfl⟩ := run_onMember_ok.mp hok
    obtain ⟨n, b₁, hpush, hmember⟩ := run_bind_ok.mp hmember
    cases hmember
    rw [exec, Buffer.run_pushData_ok hpush, ok_bind]
  | stage i needsize bytes =>
    obtain ⟨b, hmember, rfl⟩ := run_onMember_ok.mp hok
    obtain ⟨_, b₁, hstage, hmember⟩ := run_bind_ok.mp hmember
    cases hmember
    rw [exec, run_stage_ok hstage, ok_bind]
  | shrink i =>
    obtain ⟨b, hmember, rfl⟩ := run_onMember_ok.mp hok
    obtain ⟨_, b₁, hshrink, hmember⟩ := run_bind_ok.mp hmember
    cases hmember
    rw [exec, Buffer.run_shrink_ok hshrink, ok_bind]
  | clear i => exact (run_ofExcept_ok (g := fun bs => exec bs (.clear i))).mp hok
  | swap i j => exact (run_ofExcept_ok (g := fun bs => exec bs (.swap i j))).mp hok
  | _ => exact run_ofExcept_ok.mp hok

/-- Served, a call returns; only `Shrink` may still be refused, and then leaves all as it was. -/
theorem attempt_served (h : ∀ i, (s.buffers i).Sized) (hc : c.Admissible s.buffers)
    (hserved : Served s (c, memory)) :
    (∃ bs out, (c.attempt memory).run s.buffers = .ok out bs) ∨
      (c.attempt memory).run s.buffers = .error .badAlloc s.buffers := by
  have hrepresents : Represents s.buffers fun i => (s.buffers i).contents :=
    fun i => ⟨(h i).toValid, rfl⟩
  have hreturns : ∀ c : Call ι, c.Admissible s.buffers → c.demand s.buffers = 0 →
      ∃ r, c.exec s.buffers = .ok r := by
    intro c hc hdemand
    obtain ⟨r, hok, -⟩ := ((exec_sat hrepresents hc).mono (fun _ h => h)
      fun e he => by rw [hdemand] at he; omega).returns
    exact ⟨r, hok⟩
  cases c with
  | pushData i bytes =>
    obtain ⟨b, hpush⟩ := Buffer.run_pushData_served (h i).toValid hc
      ((h i).ordered.served_iff.mpr hserved)
    exact Or.inl ⟨_, _, run_onMember_ok.mpr ⟨b, run_bind_ok.mpr ⟨_, _, hpush, rfl⟩, rfl⟩⟩
  | stage i needsize bytes =>
    obtain ⟨b, hstage⟩ := run_stage_served (h i).toValid hc.1 hc.2
      ((h i).ordered.served_iff.mpr hserved)
    exact Or.inl ⟨_, _, run_onMember_ok.mpr ⟨b, run_bind_ok.mpr ⟨_, _, hstage, rfl⟩, rfl⟩⟩
  | shrink i =>
    have hshrink : _ ∨ memory = false ∧ _ := Buffer.run_shrink (h i).toValid
    rcases hshrink with ⟨b, hshrink⟩ | ⟨-, hshrink⟩
    · exact Or.inl ⟨_, _, run_onMember_ok.mpr ⟨b, run_bind_ok.mpr ⟨_, _, hshrink, rfl⟩, rfl⟩⟩
    · refine Or.inr (run_onMember_error.mpr ⟨s.buffers i, run_bind_error.mpr (Or.inl hshrink), ?_⟩)
      exact (Function.update_eq_self i s.buffers).symm
  | popData i size =>
    obtain ⟨⟨bs, out⟩, hok⟩ := hreturns (.popData i size) hc rfl
    exact Or.inl ⟨bs, out, run_ofExcept_ok.mpr hok⟩
  | peekDataAt i size offset =>
    obtain ⟨⟨bs, out⟩, hok⟩ := hreturns (.peekDataAt i size offset) hc rfl
    exact Or.inl ⟨bs, out, run_ofExcept_ok.mpr hok⟩
  | consume i size =>
    obtain ⟨⟨bs, out⟩, hok⟩ := hreturns (.consume i size) hc rfl
    exact Or.inl ⟨bs, out, run_ofExcept_ok.mpr hok⟩
  | clear i =>
    exact Or.inl ⟨_, _, (run_ofExcept_ok (g := fun bs => exec bs (.clear i))).mpr rfl⟩
  | swap i j =>
    exact Or.inl ⟨_, _, (run_ofExcept_ok (g := fun bs => exec bs (.swap i j))).mpr rfl⟩

/-- Unserved, it throws and leaves a buffer whose `capacity_` is not the length of its array. -/
theorem attempt_unserved (h : ∀ i, (s.buffers i).Sized) (hc : c.Admissible s.buffers)
    (hserved : ¬ Served s (c, memory)) :
    ∃ i capacity, (s.buffers i).capacity < capacity ∧
      (c.attempt memory).run s.buffers = .error .badAlloc
        (Function.update s.buffers i { s.buffers i with capacity := capacity }) := by
  cases c with
  | pushData i bytes =>
    obtain ⟨capacity, hmore, hpush⟩ := Buffer.run_pushData_unserved (h i).toValid hc
      (mt (h i).ordered.served_iff.mp hserved)
    exact ⟨i, capacity, hmore,
      run_onMember_error.mpr ⟨_, run_bind_error.mpr (Or.inl hpush), rfl⟩⟩
  | stage i needsize bytes =>
    obtain ⟨capacity, hmore, hassure⟩ := Buffer.run_assureSpace_unserved (h i).toValid hc.1
      (mt (h i).ordered.served_iff.mp hserved)
    refine ⟨i, capacity, hmore, run_onMember_error.mpr ⟨_, ?_, rfl⟩⟩
    exact run_bind_error.mpr (Or.inl (run_bind_error.mpr (Or.inl hassure)))
  | _ => exact (hserved trivial).elim

/-- Valid buffers that hold their queues. -/
def Holds (s : Queued ι) : Prop :=
  (∀ i, (s.buffers i).Sized) ∧ Represents s.buffers s.queues

theorem Holds.refinesQueue (h : Holds s) : RefinesQueue s := by
  obtain ⟨hsized, hr⟩ := h
  refine ⟨fun i => ?_, fun i => (hr i).2, fun i size offset hfit => ?_, fun c memory hc => ?_⟩
  · exact ⟨(hr i).1.read_le, (hr i).1.write_le, (hr i).1.capacity_eq⟩
  · refine ⟨_, ?_, rfl, ?_⟩
    · rw [exec, Buffer.peekDataAt_eq (h := (hr i).1)
        (by simp only [Buffer.Fits, Buffer.kMaxBufferSize] at hfit; omega), ok_bind, (hr i).2]
    · rw [List.length_take, List.length_drop, ← (hr i).2, (hr i).1.length_contents]
  · by_cases hserved : Served s (c, memory)
    · rcases attempt_served hsized hc hserved with ⟨bs, out, hok⟩ | herr
      · obtain ⟨-, rfl⟩ := (exec_sat hr hc).of_ok (exec_of_attempt hok)
        exact Or.inl ⟨bs, hok⟩
      · exact Or.inr ⟨_, herr⟩
    · obtain ⟨i, capacity, -, herr⟩ := attempt_unserved hsized hc hserved
      exact Or.inr ⟨_, herr⟩

theorem Holds.step {a : Call ι × Bool} (h : Holds s) (hstep : Attempt s a s')
    (hserved : Served s a) : Holds s' := by
  obtain ⟨hsized, hr⟩ := h
  cases hstep with
  | returns hc hok =>
    have hexec := exec_of_attempt hok
    exact ⟨exec_sized hsized hc hexec, ((exec_sat hr hc).of_ok hexec).1⟩
  | throws hc herr =>
    rcases attempt_served hsized hc hserved with ⟨bs, out, hok⟩ | hsame
    · rw [hok] at herr
      cases herr
    · rw [hsame] at herr
      cases herr
      exact ⟨hsized, hr⟩

/-- A throw of `AssureSpace` breaks the buffer. -/
theorem Holds.broken {a : Call ι × Bool} (h : Holds s) (hstep : Attempt s a s')
    (hserved : ¬ Served s a) : ¬ RefinesQueue s' := by
  obtain ⟨hsized, -⟩ := h
  intro hrefines
  cases hstep with
  | returns hc hok =>
    obtain ⟨i, capacity, -, herr⟩ := attempt_unserved hsized hc hserved
    rw [hok] at herr
    cases herr
  | throws hc herr =>
    obtain ⟨i, capacity, hmore, herr'⟩ := attempt_unserved hsized hc hserved
    rw [herr'] at herr
    cases herr
    obtain ⟨-, -, hcap⟩ := hrefines.cursors i
    simp only [Function.update_self] at hcap
    have := (hsized i).capacity_eq
    omega

omit [DecidableEq ι] in
theorem holds_new : Holds (Queued.new : Queued ι) := ⟨fun _ => Buffer.sized_new, represents_new⟩

/-- Along the calls, each returning or throwing as memory allows, the buffers stay FIFO byte queues
exactly as long as no `AssureSpace` is refused its array. -/
theorem buffer_refines_queue_iff (calls : List (Call ι × Bool)) :
    Lts.StatesAlong Attempt RefinesQueue Queued.new calls ↔
      Lts.StepsAlong Attempt Served Queued.new calls := by
  refine Lts.statesAlong_iff_stepsAlong (I := Holds) ?_ ?_ ?_ holds_new
  · exact fun s h => h.refinesQueue
  · exact fun s a t h hstep hserved => h.step hstep hserved
  · intro s a t h hstep hrefines
    by_contra hserved
    exact h.broken hstep hserved hrefines

/-- Pushed, swapped and popped: with memory for the first call nothing else can go wrong. -/
theorem buffer_refines_queue_iff_swapped : Lts.StatesAlong Attempt RefinesQueue Queued.new
    [(.pushData true [1, 2, 3], true), (.swap true false, false), (.popData false 2, false)] :=
  (buffer_refines_queue_iff _).mpr fun _ _ => ⟨fun _ => ⟨rfl, by decide⟩,
    fun _ _ => ⟨trivial, fun _ _ => ⟨trivial, trivial⟩⟩⟩

set_option maxRecDepth 4000 in
/-- A request that the limit admits, for which `AssureSpace` comes to a capacity that no array has:
`new` throws whatever memory there is, and the next byte is written through the null `buffer_`. -/
theorem refused_array_breaks_buffer : ∃ s : Queued Unit,
    Lts.Run Attempt Queued.new [(.stage () (2 ^ 63 - 2) [], true)] s ∧
      (s.buffers ()).capacity = 2 ^ 63 ∧ (s.buffers ()).buffer = [] ∧ ¬ RefinesQueue s ∧
      (attempt true (.pushData () [7])).run s.buffers = .error (.overrun .array) s.buffers ∧
      ¬ Lts.StatesAlong Attempt RefinesQueue Queued.new [(.stage () (2 ^ 63 - 2) [], true)] := by
  obtain ⟨hfit, hassure⟩ := Buffer.run_assureSpace_last true
  have hadmissible : Admissible (fun _ : Unit => Buffer.new) (.stage () (2 ^ 63 - 2) []) :=
    ⟨hfit, fun _ _ => Nat.zero_le _⟩
  have hstep : Attempt Queued.new (.stage () (2 ^ 63 - 2) [], true)
      ⟨fun _ : Unit => ⟨0, 0, 2 ^ 63, []⟩, fun _ => []⟩ :=
    .throws hadmissible (run_onMember_error.mpr
      ⟨_, run_bind_error.mpr (Or.inl (run_bind_error.mpr (Or.inl hassure))), rfl⟩)
  have hbroken : ¬ RefinesQueue (⟨fun _ : Unit => ⟨0, 0, 2 ^ 63, []⟩, fun _ => []⟩ : Queued Unit) :=
    fun h => absurd (h.cursors ()).2.2 (by decide)
  exact ⟨_, .cons hstep (.refl _), rfl, rfl, hbroken, rfl, fun h => hbroken (h.2 _ hstep)⟩

end Call

end Hplsp
