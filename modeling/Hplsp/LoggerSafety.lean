import Hplsp.LoggerStep

/-! Every flushed line is in exactly one place, and the lines of a thread stay in order. -/

namespace Hplsp

/-- The record of a `Flush` that has begun and is not over. -/
def FlushPc.current : FlushPc → List Record
  | .ready r | .pushLevel r _ | .pushLength r _ | .pushText r _ | .release r _ => [r]
  | _ => []

namespace Logger

variable {Tid : Type} [LinearOrder Tid] {s s' : Logger Tid} {t : Tid} {act : Act Tid}
  {acts : List (Act Tid)} {level : UInt32}

/-- The records that a thread passes to `Flush` and that are not turned away. -/
def Act.submitted (t : Tid) : Act Tid → List Record
  | .flush t' r => if t' = t then [r] else []
  | _ => []

/-- The lines of a thread whose `Flush` is over, and the one on its way. -/
def submittedTo (s : Logger Tid) (t : Tid) : List Entry :=
  Tagged.of t s.flushed ++ (s.pc t).current.map Record.entry

theorem submittedTo_setPc (s : Logger Tid) (t t' : Tid) (pc : FlushPc)
    (hcurrent : pc.current = (s.pc t').current) :
    (s.setPc t' pc).submittedTo t = s.submittedTo t := by
  by_cases heq : t = t'
  · subst heq
    simp [submittedTo, setPc, hcurrent]
  · simp [submittedTo, setPc, heq]

/-- A `Flush` ends: the line on its way is over. -/
theorem submittedTo_finish {r : Record} {t' : Tid} {pc : FlushPc} (hpc : (s.pc t').current = [r])
    (hnext : pc.current = []) :
    ({ s with flushed := s.flushed ++ [(t', r.entry)] }.setPc t' pc : Logger Tid).submittedTo t =
      s.submittedTo t := by
  by_cases heq : t = t'
  · subst heq
    simp [submittedTo, setPc, hpc, hnext, Tagged.of_cons]
  · simp [submittedTo, setPc, heq, Tagged.of_cons, Ne.symm heq]

theorem submittedTo_acquire {r : Record} {t' : Tid} {a : Addr} {info : BufferInfo Tid}
    (hpc : (s.pc t').current = [r]) : (s.acquire t' r a info).submittedTo t = s.submittedTo t :=
  submittedTo_setPc _ t t' _ hpc.symm

theorem submittedTo_lockFlush {r : Record} {t' : Tid} {fresh : Addr}
    (hpc : (s.pc t').current = [r]) : (s.lockFlush t' r fresh).submittedTo t = s.submittedTo t := by
  rw [lockFlush]
  split
  · exact submittedTo_finish (s := { s with printed := _ }) hpc rfl
  · split
    · split
      · split
        · rfl
        · exact submittedTo_acquire hpc
      · rfl
    · exact submittedTo_acquire (s := { s with buffers := _ }) hpc

theorem submittedTo_push {t' : Tid} {a : Addr} {bytes : List UInt8} {next : FlushPc}
    (hnext : next.current = (s.pc t').current) :
    (s.push t' a bytes next).submittedTo t = s.submittedTo t := by
  rw [push]
  split
  · rfl
  · split
    · rfl
    · exact submittedTo_setPc { s with heap := _ } t t' next hnext

theorem submittedTo_release {r : Record} {t' : Tid} {a : Addr} (hpc : (s.pc t').current = [r]) :
    (s.release t' r a).submittedTo t = s.submittedTo t := by
  rw [release]
  split
  · rfl
  · refine submittedTo_finish (s := { s with heap := _ }) hpc ?_
    split <;> rfl

theorem submittedTo_roundUpdate {todo : Bool} {done rest : List Addr} {a : Addr} {nOffset : Nat} :
    (s.roundUpdate todo done a rest nOffset).submittedTo t = s.submittedTo t := by
  rw [roundUpdate]
  split
  · rfl
  · split
    · rfl
    · split <;> rfl
    · split <;> rfl

theorem submittedTo_step (h : Step s act s') :
    s'.submittedTo t = s.submittedTo t ++ (act.submitted t).map Record.entry := by
  cases h with
  | @flush t' r hlive hpc hlevel =>
    by_cases heq : t' = t
    · subst heq
      simp [submittedTo, setPc, hpc, Act.submitted, FlushPc.current]
    · simp [submittedTo, setPc, Act.submitted, heq, Ne.symm heq]
  | skip => exact (List.append_nil _).symm
  | lockFlush hlive hpc hfresh =>
    exact (submittedTo_lockFlush (by rw [hpc]; rfl)).trans (List.append_nil _).symm
  | pushLevel hlive hpc =>
    exact (submittedTo_push (by rw [hpc]; rfl)).trans (List.append_nil _).symm
  | pushLength hlive hpc =>
    exact (submittedTo_push (by rw [hpc]; rfl)).trans (List.append_nil _).symm
  | pushText hlive hpc =>
    exact (submittedTo_push (by rw [hpc]; rfl)).trans (List.append_nil _).symm
  | release hlive hpc =>
    exact (submittedTo_release (by rw [hpc]; rfl)).trans (List.append_nil _).symm
  | addBusyLog hlive hpc =>
    exact (submittedTo_setPc _ _ _ _ (by rw [hpc]; rfl)).trans (List.append_nil _).symm
  | lockUpdate => exact (List.append_nil _).symm
  | roundUpdate => exact submittedTo_roundUpdate.trans (List.append_nil _).symm
  | returnUpdate => exact (List.append_nil _).symm
  | shutdown => exact (List.append_nil _).symm

/-- Over a whole run, the lines that are over or on their way are the submitted ones. -/
theorem submittedTo_run (h : Lts.Run Step s acts s') :
    s'.submittedTo t = s.submittedTo t ++ (acts.flatMap (Act.submitted t)).map Record.entry := by
  induction h with
  | refl => simp
  | cons hstep _ ih => simp [ih, submittedTo_step hstep]

/-- What is written of a thread is where its finished lines begin. -/
theorem Inv.written_prefix (h : s.Inv) :
    Tagged.of t s.written <+: Tagged.of t s.flushed := by
  have hhistory := h.history t
  by_cases hpending : (s.pc t).pending = []
  · rw [hpending, List.map_nil, List.append_nil, List.append_assoc, List.append_assoc] at hhistory
    exact ⟨_, hhistory⟩
  · -- the pending line stands last in the thread's own buffer, and none of its lines was printed
    have hfilling : (s.pc t).info.isSome = true := by
      by_contra hne
      exact hpending (FlushPc.pending_of_info (by simpa using hne))
    obtain ⟨a, ha⟩ := Option.isSome_iff_exists.mp hfilling
    have hmem := h.filling t a ha
    obtain ⟨info, rs, hold⟩ := h.entry t a hmem
    rw [h.printedLast t hfilling, List.append_nil] at hhistory
    rw [h.of_waitingBuffers hmem, hold.of_heldAt_self (FlushPc.length_unfinished _),
      List.map_append, ← List.append_assoc] at hhistory
    have hsame := List.append_cancel_right hhistory
    rw [List.append_assoc] at hsame
    exact ⟨_, hsame⟩

/-- In every state that producers and `Update` reach without a `Shutdown`: nobody moves out a
buffer that is being filled, and every flushed line was written once or waits once, in the order
in which its thread flushed. -/
theorem flushed_exactly_once (hrun : Lts.Run Step (init level) acts s)
    (hshut : s.shutdown = false) :
    (∀ t a, (s.pc t).info = some a → a ∉ s.io.tmpBufs ∧
      ∃ info, s.heap a = some info ∧ info.inuse = true) ∧
    s.fault ≠ some (.assertion .flushInuse) ∧
    (s.io.tmpBufs ++ s.buffers.map Prod.snd).Nodup ∧
    (∀ t, Tagged.of t s.flushed ++ (s.pc t).current.map Record.entry =
      (acts.flatMap (Act.submitted t)).map Record.entry) ∧
    (∀ t, Tagged.of t s.written ++ Tagged.of t s.waitingTmp ++ Tagged.of t s.waitingBuffers =
      Tagged.of t s.flushed ++ (s.pc t).pending.map Record.entry) ∧
    (∀ t, Tagged.of t s.written <+: Tagged.of t s.flushed) := by
  have hinv : s.Inv := Reachable.inv ⟨level, acts, hrun⟩
  have hprinted : s.printed = [] := by
    by_contra hne
    exact absurd (hinv.printed hne) (by simp [hshut])
  refine ⟨?_, ?_, hinv.addrs, ?_, ?_, fun t => hinv.written_prefix⟩
  · intro t a ha
    have hmem := hinv.filling t a ha
    obtain ⟨info, rs, hold⟩ := hinv.entry t a hmem
    exact ⟨hinv.notMem_tmpBufs hmem, info, hold.heap, hold.inuse.trans (by rw [ha]; rfl)⟩
  · intro hfault
    exact absurd (hinv.fault _ hfault) (by decide)
  · intro t
    exact submittedTo_run hrun
  · intro t
    have hhistory := hinv.history t
    rwa [hprinted, Tagged.of_nil, List.append_nil] at hhistory

/-- While thread 0 fills its buffer, `Update` passes it by. -/
theorem flushed_exactly_once_filling : ∃ s : Logger Nat, (s.pc 0).info = some 0 ∧
    s.io = .log true [] [] 0 ∧ 0 ∉ s.io.tmpBufs ∧
      Tagged.of 0 s.written <+: Tagged.of 0 s.flushed := by
  let r : Record := ⟨1, [10], by decide, by decide⟩
  let s : Logger Nat := (((init 1).setPc 0 (.ready r)).lockFlush 0 r 0).lockUpdate
  have hrun : Lts.Run Step (init 1) [.flush 0 r, .lockFlush 0 0, .lockUpdate] s :=
    .cons (.flush rfl rfl (by decide)) (.cons (.lockFlush rfl rfl rfl) (.cons (.lockUpdate rfl rfl)
      (.refl _)))
  obtain ⟨hfilling, -, -, -, -, hprefix⟩ := flushed_exactly_once hrun rfl
  exact ⟨s, rfl, rfl, (hfilling 0 0 rfl).1, hprefix 0⟩

end Logger

end Hplsp
