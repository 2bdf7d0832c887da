import Hplsp.BufferCapacity
import Hplsp.BufferThrow

/-! Growth from any buffer, also one that a refused `new[]` has left: what always holds of the loop,
and exactly when `AssureSpace` makes room. -/

namespace Hplsp

open Outcome Throwing

namespace BufferCall

variable {ι : Type} [DecidableEq ι]

/-- The call with the environment's answer to its `operator new[]`, if it comes to one. -/
def attempt (memory : Bool) : BufferCall ι → EStateM Fault (ι → Buffer) PUnit
  | .pushData i data => onMember i do
    let _ ← Buffer.Member.pushData memory data
    pure ()
  | .assureSpace i needsize => onMember i (Buffer.Member.assureSpace memory needsize)
  | .shrink i => onMember i (Buffer.Member.shrink memory)
  | .produce i bytes => onMember i (modify fun b => b.produce bytes)
  | .popData i isNull size => onMember i (ofExcept fun b => do
    let (b, _) ← b.popData isNull size
    .ok (b, ⟨⟩))
  | .consume i bytes => onMember i (ofExcept fun b => do
    let b ← b.consume bytes
    .ok (b, ⟨⟩))
  | .clear i => onMember i (modify Buffer.clear)
  | .swap i j => modify fun bs => Function.update (Function.update bs i (bs j)) j (bs i)

/-- A call that returns, or one that throws `std::bad_alloc`: its caller goes on after either. -/
inductive Attempt : (ι → Buffer) → BufferCall ι × Bool → (ι → Buffer) → Prop
  | returns {bs bs' : ι → Buffer} {c : BufferCall ι} {memory : Bool} (hc : c.Admissible bs)
      (hok : (c.attempt memory).run bs = .ok ⟨⟩ bs') : Attempt bs (c, memory) bs'
  | throws {bs bs' : ι → Buffer} {c : BufferCall ι} {memory : Bool} (hc : c.Admissible bs)
      (herr : (c.attempt memory).run bs = .error .badAlloc bs') : Attempt bs (c, memory) bs'

end BufferCall

namespace Buffer

variable {b b' : Buffer} {needsize : Nat} {memory : Bool}

/-- `AssureSpace` as it should be: the loop ends without a wrapped product or a failed assertion,
compacts only what has been read from, and makes room without growing too far. -/
def GrowsTight (b : Buffer) (needsize : Nat) (memory : Bool) : Prop :=
  ∃ capacity, growChecked b needsize 128 b.capacity = some capacity ∧
    growCapacity b needsize 128 b.capacity = .ok capacity ∧
    (b.writableSize < needsize → capacity = b.capacity → 0 < b.readPos) ∧
    (capacity = b.capacity ∨ b.readableSize + needsize ≤ capacity ∧
      (capacity ≤ kDefaultSize ∨ 2 * capacity ≤ 3 * (b.readableSize + needsize))) ∧
    ∃ b', (Member.assureSpace memory needsize).run b = .ok ⟨⟩ b' ∧ b'.capacity = capacity ∧
      needsize ≤ b'.writableSize

/-- There is room, or `AssureSpace` gets the array that it has to grow into, if it has to, and finds
the readable bytes in the array that there is. -/
def Assurable (b : Buffer) (needsize : Nat) (memory : Bool) : Prop :=
  needsize ≤ b.writableSize ∨
    if b.Grows needsize then
      memory = true ∧ b.readableSize + needsize ≤ 3 * 2 ^ 61 ∧
        (b.readableSize = 0 ∨ b.writePos ≤ b.buffer.length)
    else b.writePos ≤ b.buffer.length

theorem run_pushData_badAlloc {data : Data}
    (herr : (Member.pushData memory data).run b = .error .badAlloc b') :
    b' = b ∨ ∃ capacity size, growCapacity b size 128 b.capacity = .ok capacity ∧
      b' = { b with capacity := capacity } := by
  rcases run_bind_error.mp herr with hat | ⟨n, b₁, -, herr⟩
  · cases data with
    | null size => cases hat
    | block bytes =>
      rw [Member.pushDataAt, run_get_bind] at hat
      split at hat
      · cases hat
      · split at hat
        · cases hat
        · rcases run_bind_error.mp hat with hassure | ⟨_, b₁, -, hat⟩
          · rcases run_assureSpace_error hassure with rfl | ⟨capacity, hgrow, rfl⟩
            · exact Or.inl rfl
            · exact Or.inr ⟨capacity, _, hgrow, rfl⟩
          · rw [run_get_bind] at hat
            split at hat
            · rcases run_liftExcept_bind_error.mp hat with ⟨hwrite, -⟩ | ⟨array, -, hat⟩
              · simp only [Cells.writeAt] at hwrite
                split at hwrite <;> cases hwrite
              · cases hat
            · cases hat
  · obtain h | ⟨_, b₂, -, herr⟩ := run_bind_error.mp herr
    · cases h
    · split at herr <;> cases herr

section Ordered

variable (h : b.Ordered) (hfit : b.Fits needsize)
include h hfit

/-- The loop ends, also from the capacity that only a refused array leaves. -/
theorem Ordered.growChecked_spec : ∃ capacity,
    growChecked b needsize 128 b.capacity = some capacity ∧
      Tight b.capacity (b.readableSize + needsize) capacity := by
  have hlimit := hfit
  simp only [Fits, kMaxBufferSize] at hlimit
  rw [h.readableSize_eq] at hlimit ⊢
  rcases Nat.lt_or_ge b.capacity (2 ^ 63) with hcap | hcap
  · exact Buffer.growChecked_spec h.read_le (by omega) h.write_le hcap
  · have hle := h.capacity_le
    exact ⟨b.capacity, growChecked_done h.read_le h.write_le (by omega) (by omega)⟩

theorem Ordered.growth_ends : ∃ capacity, growChecked b needsize 128 b.capacity = some capacity ∧
    growCapacity b needsize 128 b.capacity = .ok capacity ∧
    (b.writableSize < needsize → capacity = b.capacity → 0 < b.readPos) ∧
    (capacity = b.capacity ∨ b.readableSize + needsize ≤ capacity ∧
      (capacity ≤ kDefaultSize ∨ 2 * capacity ≤ 3 * (b.readableSize + needsize))) := by
  have hread := h.readableSize_eq
  have hwrite := h.writableSize_eq
  have hle := h.read_le
  have hwle := h.write_le
  obtain ⟨capacity, hchecked, htight⟩ := h.growChecked_spec hfit
  have hreached := htight.reached
  have hbound := htight.tight h.isCapacity
  exact ⟨capacity, hchecked, growCapacity_of_checked _ _ hchecked, fun _ _ => by omega, by omega⟩

/-- Where a new array is needed, it has to be had, and the bytes to be found in the old one. -/
theorem Ordered.grown_returns_iff (hroom : ¬ needsize ≤ b.writableSize)
    (hgrows : b.Grows needsize) :
    (∃ b', (Member.assureSpace memory needsize).run b = .ok ⟨⟩ b') ↔
      memory = true ∧ b.readableSize + needsize ≤ 3 * 2 ^ 61 ∧
        (b.readableSize = 0 ∨ b.writePos ≤ b.buffer.length) := by
  have hread := h.readableSize_eq
  have hle := h.read_le
  have hwle := h.write_le
  obtain ⟨capacity, hchecked, htight⟩ := h.growChecked_spec hfit
  have hgrow := growCapacity_of_checked _ _ hchecked
  have hlimit := hfit
  simp only [Fits, kMaxBufferSize] at hlimit
  have hreached := htight.reached
  have hless := h.grows_iff.mp hgrows
  have hmax := growCapacity_le_iff hle rfl (by omega) _ _ hwle (by omega) hgrow
  have hsmall : b.readableSize + needsize ≤ 3 * 2 ^ 61 → b.capacity ≤ 2 ^ 62 :=
    fun hfew => capacity_le_of_lt h.isCapacity (by omega)
  have hfound : b.readPos + b.readableSize ≤ b.buffer.length ↔ b.writePos ≤ b.buffer.length := by
    omega
  rw [Member.assureSpace, run_get_bind]
  simp only [hroom, if_false, hgrow, run_liftExcept_ok_bind, run_set_bind]
  rw [if_pos (show b.capacity < capacity by omega)]
  constructor
  · rintro ⟨b', hok⟩
    obtain ⟨tmp, hnew, hok⟩ := run_liftExcept_bind_ok.mp hok
    rw [operatorNew_eq] at hnew
    split at hnew
    · rename_i hmem
      refine ⟨hmem.1, by have := (hmax.mp hmem.2).2; omega, ?_⟩
      split at hok
      · exact Or.inl ‹_›
      · obtain ⟨data, hdata, -⟩ := run_liftExcept_bind_ok.mp hok
        exact Or.inr (hfound.mp (Cells.readAt_eq_ok.mp hdata).1)
    · cases hnew
  · rintro ⟨rfl, hfew, hfind⟩
    have hnew : operatorNew true capacity = .ok (List.replicate capacity 0) := by
      rw [operatorNew_eq, if_pos ⟨rfl, hmax.mpr ⟨hsmall hfew, by omega⟩⟩]
    rw [hnew, run_liftExcept_ok_bind]
    split
    · exact ⟨_, rfl⟩
    · rename_i hne
      have hspace := hfound.mpr (hfind.resolve_left hne)
      rw [Cells.readAt_eq _ hspace, run_liftExcept_ok_bind,
        Cells.writeAt_eq _ (by rw [Cells.length_slice hspace, List.length_replicate]; omega),
        run_liftExcept_ok_bind]
      exact ⟨_, rfl⟩

omit hfit in
/-- Where none is needed, the bytes go to the front of the one there is. -/
theorem Ordered.compacted_returns_iff (hroom : ¬ needsize ≤ b.writableSize)
    (hgrows : ¬ b.Grows needsize) :
    (∃ b', (Member.assureSpace memory needsize).run b = .ok ⟨⟩ b') ↔
      b.writePos ≤ b.buffer.length := by
  have hread := h.readableSize_eq
  have hwrite := h.writableSize_eq
  have hle := h.read_le
  have hwle := h.write_le
  have hfew := mt h.grows_iff.mpr hgrows
  have hchecked : growChecked b needsize 128 b.capacity = some b.capacity :=
    (growChecked_done hle hwle (by have := h.capacity_le; omega) (by omega)).1
  have hgrow := growCapacity_of_checked _ _ hchecked
  have hpos : 0 < b.readPos := by omega
  have hfound : b.readPos + b.readableSize ≤ b.buffer.length ↔ b.writePos ≤ b.buffer.length := by
    omega
  rw [Member.assureSpace, run_get_bind]
  simp only [hroom, if_false, hgrow, run_liftExcept_ok_bind, run_set_bind]
  rw [if_neg (Nat.lt_irrefl _), if_pos hpos]
  constructor
  · rintro ⟨b', hok⟩
    obtain ⟨data, hdata, -⟩ := run_liftExcept_bind_ok.mp hok
    exact hfound.mp (Cells.readAt_eq_ok.mp hdata).1
  · intro hfind
    have hspace := hfound.mpr hfind
    rw [Cells.readAt_eq _ hspace, run_liftExcept_ok_bind,
      Cells.writeAt_eq _ (by rw [Cells.length_slice hspace]; omega), run_liftExcept_ok_bind]
    exact ⟨_, rfl⟩

/-- `AssureSpace` returns exactly under this condition. -/
theorem Ordered.assureSpace_returns_iff :
    (∃ b', (Member.assureSpace memory needsize).run b = .ok ⟨⟩ b') ↔
      b.Assurable needsize memory := by
  rw [Assurable]
  by_cases hroom : needsize ≤ b.writableSize
  · refine iff_of_true ⟨b, ?_⟩ (Or.inl hroom)
    rw [Member.assureSpace, run_get_bind, if_pos hroom]
    rfl
  · rw [or_iff_right hroom]
    by_cases hgrows : b.Grows needsize
    · rw [if_pos hgrows]
      exact h.grown_returns_iff hfit hroom hgrows
    · rw [if_neg hgrows]
      exact h.compacted_returns_iff hroom hgrows

/-- The loop does all that is asked of it, so that only the array decides. -/
theorem Ordered.growsTight_iff :
    b.GrowsTight needsize memory ↔ b.Assurable needsize memory := by
  rw [← h.assureSpace_returns_iff hfit]
  refine ⟨fun ⟨_, _, _, _, _, b', hok, _⟩ => ⟨b', hok⟩, fun ⟨b', hok⟩ => ?_⟩
  obtain ⟨capacity, hchecked, hgrow, hcompacts, hbound⟩ := h.growth_ends hfit
  have hread := h.readableSize_eq
  have hwrite := h.writableSize_eq
  have hle := h.read_le
  have hwle := h.write_le
  refine ⟨capacity, hchecked, hgrow, hcompacts, hbound, b', hok, ?_⟩
  obtain ⟨_, hchecked', htight⟩ := h.growChecked_spec hfit
  obtain rfl := Option.some.inj (hchecked.symm.trans hchecked')
  have hreached := htight.reached
  rcases assureSpace_cases (run_assureSpace_ok hok) with ⟨rfl, hroom⟩ | ⟨c, buffer, hgrow', rfl⟩
  · have hdone : growChecked b' needsize 128 b'.capacity = some b'.capacity :=
      (growChecked_done hle hwle (by have := h.capacity_le; omega) (by omega)).1
    exact ⟨Option.some.inj (hdone.symm.trans hchecked), hroom⟩
  · obtain rfl := ok_unique hgrow hgrow'
    have hafter := assureSpace_ordered h (run_assureSpace_ok hok)
    exact ⟨rfl, by rw [hafter.writableSize_eq]; simp only; omega⟩

end Ordered

end Buffer

namespace BufferCall

open Buffer

variable {ι : Type} [DecidableEq ι] {bs bs' : ι → Buffer} {a : BufferCall ι × Bool}
  {calls : List (BufferCall ι × Bool)} {memory : Bool} {needsize : Nat}

theorem update_ordered (h : ∀ i, (bs i).Ordered) {i : ι} {b : Buffer} (hb : b.Ordered) :
    ∀ j, (Function.update bs i b j).Ordered :=
  (Function.forall_update_iff bs fun _ b => b.Ordered).mpr ⟨hb, fun j _ => h j⟩

theorem ordered_of_returns {c : BufferCall ι} (h : ∀ i, (bs i).Ordered) (hc : c.Admissible bs)
    (hok : (c.attempt memory).run bs = .ok ⟨⟩ bs') : ∀ i, (bs' i).Ordered := by
  cases c with
  | pushData i data =>
    obtain ⟨b, hmember, rfl⟩ := run_onMember_ok.mp hok
    obtain ⟨n, b₁, hpush, hmember⟩ := run_bind_ok.mp hmember
    cases hmember
    exact update_ordered h (pushData_ordered (h i) (run_pushData_ok hpush))
  | assureSpace i needsize =>
    obtain ⟨b, hassure, rfl⟩ := run_onMember_ok.mp hok
    exact update_ordered h (assureSpace_ordered (h i) (run_assureSpace_ok hassure))
  | shrink i =>
    obtain ⟨b, hshrink, rfl⟩ := run_onMember_ok.mp hok
    exact update_ordered h (shrink_ordered (h i) (run_shrink_ok hshrink))
  | produce i bytes =>
    cases hok
    exact update_ordered h (produce_ordered (h i) ((Nat.mod_le _ _).trans hc))
  | popData i isNull size =>
    obtain ⟨b, hmember, rfl⟩ := run_onMember_ok.mp hok
    obtain ⟨⟨b₁, bytes⟩, hpop, hret⟩ := bind_eq_ok.mp (run_ofExcept_ok.mp hmember)
    cases hret
    exact update_ordered h (popData_ordered (h i) hpop)
  | consume i bytes =>
    obtain ⟨b, hmember, rfl⟩ := run_onMember_ok.mp hok
    obtain ⟨b₁, hconsume, hret⟩ := bind_eq_ok.mp (run_ofExcept_ok.mp hmember)
    cases hret
    exact update_ordered h (consume_ordered (h i) hconsume)
  | clear i =>
    cases hok
    exact update_ordered h (clear_ordered (h i))
  | swap i j =>
    cases hok
    exact update_ordered (update_ordered h (h j)) (h i)

theorem ordered_of_throws {c : BufferCall ι} (h : ∀ i, (bs i).Ordered)
    (herr : (c.attempt memory).run bs = .error .badAlloc bs') : ∀ i, (bs' i).Ordered := by
  cases c with
  | pushData i data =>
    obtain ⟨b, hmember, rfl⟩ := run_onMember_error.mp herr
    rcases run_bind_error.mp hmember with hpush | ⟨n, b₁, -, hmember⟩
    · rcases run_pushData_badAlloc hpush with rfl | ⟨capacity, size, hgrow, rfl⟩
      · exact update_ordered h (h i)
      · exact update_ordered h (ordered_of_grown (h i) hgrow)
    · cases hmember
  | assureSpace i needsize =>
    obtain ⟨b, hassure, rfl⟩ := run_onMember_error.mp herr
    rcases run_assureSpace_error hassure with rfl | ⟨capacity, hgrow, rfl⟩
    · exact update_ordered h (h i)
    · exact update_ordered h (ordered_of_grown (h i) hgrow)
  | shrink i =>
    obtain ⟨b, hshrink, rfl⟩ := run_onMember_error.mp herr
    rw [run_shrink_error hshrink]
    exact update_ordered h (h i)
  | popData i isNull size =>
    obtain ⟨b, hmember, rfl⟩ := run_onMember_error.mp herr
    obtain ⟨-, rfl⟩ := run_ofExcept_error.mp hmember
    exact update_ordered h (h i)
  | consume i bytes =>
    obtain ⟨b, hmember, rfl⟩ := run_onMember_error.mp herr
    obtain ⟨-, rfl⟩ := run_ofExcept_error.mp hmember
    exact update_ordered h (h i)
  | produce i bytes => cases herr
  | clear i => cases herr
  | swap i j => cases herr

/-- Whether it returns or throws, no call puts the cursors out of order. -/
theorem attempt_ordered (hstep : Attempt bs a bs') (h : ∀ i, (bs i).Ordered) :
    ∀ i, (bs' i).Ordered := by
  cases hstep with
  | returns hc hok => exact ordered_of_returns h hc hok
  | throws hc herr => exact ordered_of_throws h herr

theorem run_ordered (h : Lts.Run Attempt (fun _ => Buffer.new) calls bs) : ∀ i, (bs i).Ordered :=
  h.invariant (I := fun bs => ∀ i, (bs i).Ordered) (fun _ _ _ hstep hs => attempt_ordered hstep hs)
    fun _ => sized_new.ordered

/-- From any buffer that calls can lead to, returning or throwing, and for any request below the
limit: the loop always ends as it should, and `AssureSpace` makes room exactly when it has it, or
gets its array and finds the readable bytes. -/
theorem growth_terminates_tight_iff (h : Lts.Run Attempt (fun _ => Buffer.new) calls bs) (i : ι)
    (hfit : (bs i).Fits needsize) (memory : Bool) :
    (∃ capacity, growChecked (bs i) needsize 128 (bs i).capacity = some capacity ∧
      growCapacity (bs i) needsize 128 (bs i).capacity = .ok capacity ∧
      ((bs i).writableSize < needsize → capacity = (bs i).capacity → 0 < (bs i).readPos) ∧
      (capacity = (bs i).capacity ∨ (bs i).readableSize + needsize ≤ capacity ∧
        (capacity ≤ kDefaultSize ∨ 2 * capacity ≤ 3 * ((bs i).readableSize + needsize)))) ∧
    ((bs i).GrowsTight needsize memory ↔ (bs i).Assurable needsize memory) :=
  ⟨(run_ordered h i).growth_ends hfit, (run_ordered h i).growsTight_iff hfit⟩

set_option maxRecDepth 4000 in
/-- A refused array has raised `capacity_` to 384, over an array of 256 bytes. -/
theorem run_refused : ∃ bs, Lts.Run Attempt (fun _ : Unit => Buffer.new)
    [(.pushData () (.block [1, 2, 3]), true), (.assureSpace () 300, false)] bs ∧
      (bs ()).readPos = 0 ∧ (bs ()).writePos = 3 ∧ (bs ()).capacity = 384 ∧
      (bs ()).buffer.length = 256 :=
  ⟨_, .cons (.returns trivial rfl) (.cons (.throws trivial rfl) (.refl _)), rfl, rfl, rfl, rfl⟩

/-- Such a buffer grows once there is memory. -/
theorem growth_terminates_tight_iff_refused : ∃ bs : Unit → Buffer, (bs ()).capacity = 384 ∧
    (bs ()).buffer.length = 256 ∧ (bs ()).GrowsTight 400 true := by
  obtain ⟨bs, hrun, hr, hw, hcap, hlen⟩ := run_refused
  have hread : (bs ()).readableSize = 3 := by rw [readableSize, hr, hw]; rfl
  have hfit : (bs ()).Fits 400 := by
    rw [Fits, hread]
    decide
  obtain ⟨-, hiff⟩ := growth_terminates_tight_iff hrun () hfit true
  have hgrows : (bs ()).Grows 400 := by
    rw [Grows, writableSize, hcap, hw, hr]
    decide
  refine ⟨bs, hcap, hlen, hiff.mpr (Or.inr ?_)⟩
  rw [if_pos hgrows, hread, hw, hlen]
  decide

/-- On a fresh buffer the limit admits a request that no `AssureSpace` can make room for. -/
theorem no_room_past_last_capacity : Buffer.new.Fits (2 ^ 63 - 2) ∧
    ∀ memory, (Member.assureSpace memory (2 ^ 63 - 2)).run Buffer.new =
      .error .badAlloc ⟨0, 0, 2 ^ 63, []⟩ ∧ ¬ Buffer.new.GrowsTight (2 ^ 63 - 2) memory := by
  refine ⟨(run_assureSpace_last true).1, fun memory => ⟨(run_assureSpace_last memory).2, ?_⟩⟩
  rintro ⟨_, -, -, -, -, b', hok, -⟩
  rw [(run_assureSpace_last memory).2] at hok
  cases hok

end BufferCall

end Hplsp
