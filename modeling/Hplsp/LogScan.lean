import Hplsp.Frame

/-! `_Log` on any bytes: exactly when its loop ends and its calls stay inside them. -/

namespace Hplsp

open Outcome

/-- The calls that the loop of `_Log` makes, and the offset that it returns: none if the last of
the calls does not come back. -/
structure LogScan where
  calls : List WriteCall
  returned : Option Nat
  deriving DecidableEq, Repr

/-- The loop of `_Log`. A call of `_WriteLog` may stop the process, as its assertion does for an
empty record: `returns` are the calls that come back. -/
def logScan (returns : WriteCall → Bool) (data : List UInt8) : Nat → Nat → Except Fault LogScan
  | 0, _ => .error .diverges
  | fuel + 1, nOffset => do
    match ← logRound data nOffset with
    | .done | .skip => .ok ⟨[], some nOffset⟩
    | .write c nOffset =>
      if returns c then do
        let r ← logScan returns data fuel nOffset
        .ok ⟨c :: r.calls, r.returned⟩
      else .ok ⟨[c], none⟩

/-- The calls point into the data, each behind the one before, and so does the returned offset. -/
structure LogScan.Inside (data : List UInt8) (r : LogScan) : Prop where
  inside : ∀ c ∈ r.calls, c.pos + c.len ≤ data.length
  increasing : r.calls.Pairwise fun c d => c.pos + c.len ≤ d.pos
  returned_le : ∀ nOffset, r.returned = some nOffset → nOffset ≤ data.length

/-- The call for the frame at an offset, as its level and length fields have it. -/
def callAt (data : List UInt8) (nOffset : Nat) : WriteCall :=
  ⟨UInt32.ofNat (LittleEndian.decode (Cells.slice data nOffset 4)),
    LittleEndian.decode (Cells.slice data (nOffset + 4) 8), nOffset + minLogSize⟩

/-- The offsets between complete frames, counted from the start without wrapping. -/
inductive Boundary (returns : WriteCall → Bool) (data : List UInt8) : Nat → Prop
  | zero : Boundary returns data 0
  | next {n : Nat} : Boundary returns data n → n + minLogSize < data.length →
      (callAt data n).pos + (callAt data n).len ≤ data.length → returns (callAt data n) = true →
      Boundary returns data ((callAt data n).pos + (callAt data n).len)

/-- A sum that the loop compares with the length at this offset wraps, and gets by. -/
def SumWraps (data : List UInt8) (n : Nat) : Prop :=
  2 ^ 64 ≤ n + minLogSize ∨
    n + minLogSize < data.length ∧ 2 ^ 64 ≤ (callAt data n).pos + (callAt data n).len ∧
      (callAt data n).pos + (callAt data n).len ≤ data.length + 2 ^ 64

instance (data : List UInt8) (n : Nat) : Decidable (SumWraps data n) :=
  inferInstanceAs (Decidable (_ ∨ _ ∧ _ ∧ _))

section Rounds

variable {returns : WriteCall → Bool} {data : List UInt8} {n fuel : Nat} {r : LogScan}

/-- Where every call comes back, this is the loop of `log`. -/
theorem logScan_true : logScan (fun _ => true) data fuel n =
    (logLoop data fuel n).map fun r => ⟨r.calls, some r.nOffset⟩ := by
  induction fuel generalizing n with
  | zero => rfl
  | succ fuel ih =>
    rw [logScan, logLoop]
    cases logRound data n with
    | error e => rfl
    | ok round =>
      cases round with
      | done => rfl
      | skip => rfl
      | write c m =>
        simp only [ok_bind, if_true, ih]
        cases logLoop data fuel m with
        | error e => rfl
        | ok r => rfl

theorem callAt_pos : (callAt data n).pos = n + 12 := rfl

theorem callAt_len_lt (h : n + minLogSize < data.length) : (callAt data n).len < 2 ^ 64 := by
  have hfield : (Cells.slice data (n + 4) 8).length = 8 :=
    Cells.length_slice (by simp only [minLogSize] at h; omega)
  have hlt := LittleEndian.decode_lt (Cells.slice data (n + 4) 8)
  rwa [hfield] at hlt

/-- A round that gets past the guard of the loop reads the fields of the frame. -/
theorem logRound_eq (hn : n + minLogSize < 2 ^ 64) (h : n + minLogSize < data.length) :
    logRound data n =
      .ok (if data.length < Word64.add (callAt data n).pos (callAt data n).len then .skip
        else .write (callAt data n)
          (Word64.add n (Word64.add minLogSize (callAt data n).len))) := by
  have hmin : minLogSize = 12 := rfl
  rw [logRound, Word64.add_of_lt hn, if_pos h, Cells.readAt_eq _ (by omega), ok_bind,
    Word64.add_of_lt (b := 4) (by omega), Cells.readAt_eq _ (by omega), ok_bind]
  exact (apply_ite Except.ok _ _ _).symm

/-- The round at an offset where no sum wraps. -/
theorem logRound_exact (hlen : data.length < 2 ^ 64) (hexact : ¬ SumWraps data n) :
    logRound data n = .ok (if n + minLogSize < data.length then
      if data.length < (callAt data n).pos + (callAt data n).len then .skip
      else .write (callAt data n) ((callAt data n).pos + (callAt data n).len) else .done) := by
  have hmin : minLogSize = 12 := rfl
  obtain ⟨hn, hsum⟩ := not_or.mp hexact
  rw [Nat.not_le] at hn
  by_cases h : n + minLogSize < data.length
  · have hlt := callAt_len_lt h
    have hpos : (callAt data n).pos = n + 12 := callAt_pos
    rw [logRound_eq hn h, if_pos h]
    by_cases hfits : (callAt data n).pos + (callAt data n).len < 2 ^ 64
    · rw [Word64.add_of_lt hfits, Word64.add_of_lt (a := minLogSize) (by omega),
        Word64.add_of_lt (by omega), hmin, ← Nat.add_assoc n, hpos]
    · have hover : data.length < Word64.add (callAt data n).pos (callAt data n).len := by
        simp only [Word64.add, Word64.size]
        omega
      rw [if_pos hover, if_pos (by omega)]
  · rw [if_neg h, logRound, Word64.add_of_lt hn, if_neg h]

/-- A sum that wraps: the round reads outside of the data, or makes a call that does. -/
theorem logRound_wraps (hlen : data.length < 2 ^ 64) (hn : n ≤ data.length)
    (hwraps : SumWraps data n) :
    Sat (logRound data n) (fun round => ∃ c m, round = .write c m ∧ data.length < c.pos + c.len)
      fun _ => True := by
  have hmin : minLogSize = 12 := rfl
  rcases hwraps with hend | ⟨h, hsum, hle⟩
  · refine sat_ite (fun _ => ?_) fun hguard => ?_
    · -- the level may still lie in the data, the length behind it does not
      have hlevel : Sat (Cells.readAt (Fault.overrun .logData) data n 4)
          (fun _ => n + 4 ≤ data.length) fun _ => True := sat_ite id fun _ => trivial
      refine hlevel.bind fun _ hread => ?_
      have hfield : Sat (Cells.readAt (Fault.overrun .logData) data (Word64.add n 4) 8)
          (fun _ => False) fun _ => True := by
        refine sat_ite (fun hinside => ?_) fun _ => trivial
        rw [Word64.add_of_lt (by omega)] at hinside
        omega
      exact hfield.bind fun _ hfalse => hfalse.elim
    · simp only [Word64.add, Word64.size] at hguard
      omega
  · have hlt := callAt_len_lt h
    have hpos : (callAt data n).pos = n + 12 := callAt_pos
    have hpass : ¬ data.length < Word64.add (callAt data n).pos (callAt data n).len := by
      simp only [Word64.add, Word64.size]
      omega
    rw [logRound_eq (by omega) h, if_neg hpass]
    exact ⟨_, _, rfl, by omega⟩

theorem Boundary.le (h : Boundary returns data n) : n ≤ data.length := by
  cases h with
  | zero => exact Nat.zero_le _
  | next _ _ hle _ => exact hle

/-- The loop from this offset on ends, and stays inside the data. -/
def Ends (returns : WriteCall → Bool) (data : List UInt8) (n : Nat) : Prop :=
  ∃ fuel r, logScan returns data fuel n = .ok r ∧ r.Inside data ∧ ∀ c ∈ r.calls, n ≤ c.pos

theorem ends_of_next (hlen : data.length < 2 ^ 64) (hn : n ≤ data.length)
    (hexact : ¬ SumWraps data n)
    (hnext : n + minLogSize < data.length →
      (callAt data n).pos + (callAt data n).len ≤ data.length → returns (callAt data n) = true →
      Ends returns data ((callAt data n).pos + (callAt data n).len)) : Ends returns data n := by
  have hround := logRound_exact hlen hexact
  have hpos : (callAt data n).pos = n + 12 := callAt_pos
  have hstop : logRound data n = .ok .done ∨ logRound data n = .ok .skip →
      Ends returns data n := by
    intro hround
    refine ⟨1, ⟨[], some n⟩, ?_, ⟨by simp, .nil, by simpa using hn⟩, by simp⟩
    rcases hround with hround | hround <;> rw [logScan, hround, ok_bind]
  by_cases hguard : n + minLogSize < data.length
  · rw [if_pos hguard] at hround
    by_cases hfits : data.length < (callAt data n).pos + (callAt data n).len
    · exact hstop (.inr (by rw [hround, if_pos hfits]))
    · rw [if_neg hfits] at hround
      cases hreturns : returns (callAt data n) with
      | false =>
        refine ⟨1, ⟨[callAt data n], none⟩, ?_, ⟨?_, List.pairwise_singleton _ _, by simp⟩, ?_⟩
        · rw [logScan, hround, ok_bind]
          simp [hreturns]
        · simpa using hfits
        · simp [hpos]
      | true =>
        obtain ⟨fuel, r, hok, hinside, hbehind⟩ := hnext hguard (by omega) hreturns
        refine ⟨fuel + 1, ⟨callAt data n :: r.calls, r.returned⟩, ?_, ⟨?_, ?_, ?_⟩, ?_⟩
        · rw [logScan, hround, ok_bind]
          simp [hreturns, hok]
        · exact List.forall_mem_cons.mpr ⟨by omega, hinside.inside⟩
        · exact List.pairwise_cons.mpr ⟨hbehind, hinside.increasing⟩
        · exact hinside.returned_le
        · refine List.forall_mem_cons.mpr ⟨by omega, fun c hc => ?_⟩
          have := hbehind c hc
          omega
  · exact hstop (.inl (by rw [hround, if_neg hguard]))

/-- Behind a frame whose call comes back, the loop ends as well. -/
theorem Ends.next (h : Ends returns data n) (hlen : data.length < 2 ^ 64)
    (hexact : ¬ SumWraps data n) (hguard : n + minLogSize < data.length)
    (hfits : (callAt data n).pos + (callAt data n).len ≤ data.length)
    (hreturns : returns (callAt data n) = true) :
    Ends returns data ((callAt data n).pos + (callAt data n).len) := by
  obtain ⟨fuel, r, hok, hinside, -⟩ := h
  have hround := logRound_exact hlen hexact
  rw [if_pos hguard, if_neg (by omega)] at hround
  cases fuel with
  | zero => cases hok
  | succ fuel =>
    rw [logScan, hround, ok_bind] at hok
    simp only [hreturns, if_true] at hok
    obtain ⟨r', hrest, hr⟩ := bind_eq_ok.mp hok
    cases hr
    obtain ⟨hbehind, hincreasing⟩ := List.pairwise_cons.mp hinside.increasing
    exact ⟨fuel, r', hrest,
      ⟨(List.forall_mem_cons.mp hinside.inside).2, hincreasing, hinside.returned_le⟩, hbehind⟩

/-- No sum wraps where the loop ends inside the data. -/
theorem Ends.not_sumWraps (h : Ends returns data n) (hlen : data.length < 2 ^ 64)
    (hn : n ≤ data.length) : ¬ SumWraps data n := by
  intro hwraps
  obtain ⟨fuel, r, hok, hinside, -⟩ := h
  cases fuel with
  | zero => cases hok
  | succ fuel =>
    obtain ⟨round, hround, hok⟩ := bind_eq_ok.mp hok
    obtain ⟨c, m, rfl, hover⟩ := (logRound_wraps hlen hn hwraps).of_ok hround
    have hmade : c ∈ r.calls := by
      dsimp only at hok
      split at hok
      · obtain ⟨r', -, hr⟩ := bind_eq_ok.mp hok
        cases hr
        exact List.mem_cons_self
      · cases hok
        exact List.mem_cons_self
    have := hinside.inside c hmade
    omega

theorem Ends.boundary (h : Ends returns data 0) (hlen : data.length < 2 ^ 64)
    (hn : Boundary returns data n) : Ends returns data n := by
  induction hn with
  | zero => exact h
  | next hn hguard hfits hreturns ih =>
    exact ih.next hlen (ih.not_sumWraps hlen hn.le) hguard hfits hreturns

theorem ends_of_exact (hlen : data.length < 2 ^ 64)
    (hexact : ∀ m, Boundary returns data m → ¬ SumWraps data m) (hn : Boundary returns data n) :
    Ends returns data n := by
  induction hk : data.length - n using Nat.strongRecOn generalizing n with
  | ind k ih =>
    refine ends_of_next hlen hn.le (hexact n hn) fun hguard hfits hreturns => ?_
    refine ih _ ?_ (.next hn hguard hfits hreturns) rfl
    have hpos : (callAt data n).pos = n + 12 := callAt_pos
    omega

end Rounds

/-- The loop ends, and never leaves the data, exactly when no sum wraps at a frame it gets to. -/
theorem log_stays_inside_iff (returns : WriteCall → Bool) (data : List UInt8)
    (hlen : data.length < 2 ^ 64) :
    (∃ fuel r, logScan returns data fuel 0 = .ok r ∧ r.Inside data) ↔
      ∀ n, Boundary returns data n → ¬ SumWraps data n := by
  have hends : (∃ fuel r, logScan returns data fuel 0 = .ok r ∧ r.Inside data) ↔
      Ends returns data 0 := by
    simp [Ends]
  rw [hends]
  constructor
  · exact fun h n hn => (h.boundary hlen hn).not_sumWraps hlen hn.le
  · exact fun hexact => ends_of_exact hlen hexact .zero

/-- Two frames, and one whose length is beyond the end. -/
def threeFrames : List UInt8 :=
  [1, 0, 0, 0, 1, 0, 0, 0, 0, 0, 0, 0, 97,
    2, 0, 0, 0, 2, 0, 0, 0, 0, 0, 0, 0, 98, 99,
    1, 0, 0, 0, 200, 0, 0, 0, 0, 0, 0, 0, 100]

theorem log_stays_inside_iff_frames :
    ∃ fuel r, logScan (fun c => 0 < c.len) threeFrames fuel 0 = .ok r ∧ r.Inside threeFrames := by
  refine (log_stays_inside_iff _ threeFrames (by decide)).mpr fun n hn => ?_
  have hcases : n = 0 ∨ n = 13 ∨ n = 27 := by
    induction hn with
    | zero => exact .inl rfl
    | next _ _ hfits _ ih =>
      rcases ih with rfl | rfl | rfl
      · exact .inr (.inl (by decide))
      · exact .inr (.inr (by decide))
      · exact absurd hfits (by decide)
  rcases hcases with rfl | rfl | rfl <;> decide

/-- A length of `2 ^ 64 - 12`: the first call runs past the data, and the loop stays where it is. -/
theorem log_wraps : ∃ data : List UInt8, data.length = 13 ∧
    (∀ returns, ¬ ∃ fuel r, logScan returns data fuel 0 = .ok r ∧ r.Inside data) ∧
    ∀ fuel, logScan (fun c => 0 < c.len) data fuel 0 = .error .diverges := by
  refine ⟨[1, 0, 0, 0, 244, 255, 255, 255, 255, 255, 255, 255, 97], rfl, ?_, fun fuel => ?_⟩
  · rintro returns ⟨fuel, r, hok, hinside⟩
    have hends : Ends returns _ 0 := ⟨fuel, r, hok, hinside, fun _ _ => Nat.zero_le _⟩
    exact hends.not_sumWraps (by decide) (by decide) (by decide)
  · have hround : logRound [1, 0, 0, 0, 244, 255, 255, 255, 255, 255, 255, 255, 97] 0 =
        .ok (.write ⟨1, 2 ^ 64 - 12, 12⟩ 0) := by decide
    induction fuel with
    | zero => rfl
    | succ fuel ih =>
      rw [logScan, hround, ok_bind]
      simp [ih]

end Hplsp
