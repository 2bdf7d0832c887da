import Hplsp.MsgqueueStep

/-! The message queue seen from its callers: every call takes effect at one instant. -/

namespace Hplsp.Msgqueue

open Linked

variable {τ μ : Type} [DecidableEq τ] [DecidableEq μ] {s s' : State τ μ} {t t' : τ}
  {G P : List μ} {pc old new : Pc μ} {a : μ} {woken : Option τ}

/-- Two points of a thread with the same messages at hand. -/
structure Pc.Alike (old new : Pc μ) : Prop where
  putPhase : new.putPhase = old.putPhase
  own : ∀ a, new.own = some a → old.own = some a
  fresh : ∀ a, new.fresh = some a → old.fresh = some a

/-- What the thread knows of the list to take from does not change, or is what there is now. -/
def Pc.Learns (s : State τ μ) (G P : List μ) (old new : Pc μ) : Prop :=
  new.getPhase = old.getPhase ∨ new.holdsGet = true ∧ s.GetOk G P new.getPhase

namespace Inv

variable (h : Inv s G P)
include h

omit [DecidableEq τ] [DecidableEq μ] in
/-- The threads that wait and the mode have no part in the lists. -/
theorem modes (getCond putCond : List τ) (nonblock : Bool) :
    Inv { s with getCond := getCond, putCond := putCond, nonblock := nonblock } G P where
  putPath := h.putPath
  put := h.put
  get := h.get
  nodup := h.nodup
  sent := h.sent
  getMutex := h.getMutex
  putMutex := h.putMutex
  own := h.own
  ownUnique := h.ownUnique
  fresh := h.fresh

omit [DecidableEq μ] in
theorem goto (hpc : s.pc t = old) (halike : old.Alike new) (hphase : old.Learns s G P new)
    (hget : new.holdsGet = old.holdsGet) (hput : new.holdsPut = old.holdsPut) :
    Inv (s.goto t new) G P :=
  h.control hpc ⟨rfl, rfl, rfl, rfl, rfl, rfl, rfl⟩ rfl (h.getMutex.goto (hpc ▸ hget))
    (h.putMutex.goto (hpc ▸ hput)) halike.putPhase hphase halike.own halike.fresh

omit [DecidableEq μ] in
theorem lockPut (hrun : s.lockPut t new = some s') (hpc : s.pc t = old) (halike : old.Alike new)
    (hphase : old.Learns s G P new) (hget : new.holdsGet = old.holdsGet)
    (hput : new.holdsPut = true) (hstatus : new.status = old.status) : Advances s t G P s' := by
  obtain ⟨owner, hlock, hrun⟩ := Option.bind_eq_some_iff.mp hrun
  cases hrun
  exact advances_silent (h.control hpc ⟨rfl, rfl, rfl, rfl, rfl, rfl, rfl⟩ rfl
    (h.getMutex.goto (hpc ▸ hget)) (h.putMutex.lock hlock hput) halike.putPhase hphase halike.own
    halike.fresh) hpc rfl hstatus rfl

omit [DecidableEq μ] in
theorem unlockPut (hrun : s.unlockPut t new = some s') (hpc : s.pc t = old)
    (halike : old.Alike new) (hphase : old.Learns s G P new) (hget : new.holdsGet = old.holdsGet)
    (hput : new.holdsPut = false) (hstatus : new.status = old.status) : Advances s t G P s' := by
  obtain ⟨owner, hunlock, hrun⟩ := Option.bind_eq_some_iff.mp hrun
  cases hrun
  exact advances_silent (h.control hpc ⟨rfl, rfl, rfl, rfl, rfl, rfl, rfl⟩ rfl
    (h.getMutex.goto (hpc ▸ hget)) (h.putMutex.unlock hunlock hput) halike.putPhase hphase
    halike.own halike.fresh) hpc rfl hstatus rfl

omit [DecidableEq μ] in
theorem lockGet (hrun : s.lockGet t new = some s') (hpc : s.pc t = old) (halike : old.Alike new)
    (hphase : old.Learns s G P new) (hget : new.holdsGet = true)
    (hput : new.holdsPut = old.holdsPut) (hstatus : new.status = old.status) :
    Advances s t G P s' := by
  obtain ⟨owner, hlock, hrun⟩ := Option.bind_eq_some_iff.mp hrun
  cases hrun
  exact advances_silent (h.control hpc ⟨rfl, rfl, rfl, rfl, rfl, rfl, rfl⟩ rfl
    (h.getMutex.lock hlock hget) (h.putMutex.goto (hpc ▸ hput)) halike.putPhase hphase halike.own
    halike.fresh) hpc rfl hstatus rfl

omit [DecidableEq μ] in
theorem unlockGet (hrun : s.unlockGet t new = some s') (hpc : s.pc t = old)
    (halike : old.Alike new) (hphase : old.Learns s G P new) (hget : new.holdsGet = false)
    (hput : new.holdsPut = old.holdsPut) (hstatus : new.status = old.status) :
    Advances s t G P s' := by
  obtain ⟨owner, hunlock, hrun⟩ := Option.bind_eq_some_iff.mp hrun
  cases hrun
  exact advances_silent (h.control hpc ⟨rfl, rfl, rfl, rfl, rfl, rfl, rfl⟩ rfl
    (h.getMutex.unlock hunlock hget) (h.putMutex.goto (hpc ▸ hput)) halike.putPhase hphase
    halike.own halike.fresh) hpc rfl hstatus rfl

omit [DecidableEq μ] in
theorem signalGet (hrun : s.signalGet t woken new = some s') (hpc : s.pc t = old)
    (halike : old.Alike new) (hphase : old.Learns s G P new) (hget : new.holdsGet = old.holdsGet)
    (hput : new.holdsPut = old.holdsPut) (hstatus : new.status = old.status) :
    Advances s t G P s' := by
  obtain ⟨getCond, -, hrun⟩ := Option.bind_eq_some_iff.mp hrun
  cases hrun
  exact advances_silent ((h.modes getCond s.putCond s.nonblock).goto hpc halike hphase hget hput)
    hpc rfl hstatus rfl

omit [DecidableEq μ] in
/-- What `msgqueue_get` finds behind `get_head`. -/
theorem getTest (hpc : s.pc t = .getTest) : Advances s t G P
    (s.goto t (if (s.mem (.head s.getHead)).isSome then .getTake else .swapHead)) := by
  have hget := h.get
  rw [h.getPhase_eq hpc rfl] at hget
  have hpath : Path (s.succ s.getHead) .head G := hget.2
  cases hhead : s.mem (.head s.getHead) with
  | none =>
    have hnil : G = [] := hpath.eq_nil hhead
    exact advances_silent (h.goto hpc ⟨rfl, fun _ => id, fun _ => id⟩ (.inr ⟨rfl, hget, hnil⟩) rfl
      rfl) hpc rfl rfl rfl
  | some a =>
    have hcons : G ≠ [] := by
      obtain ⟨_, rfl⟩ := hpath.eq_cons hhead
      exact List.cons_ne_nil _ _
    exact advances_silent (h.goto hpc ⟨rfl, fun _ => id, fun _ => id⟩ (.inr ⟨rfl, hget, hcons⟩) rfl
      rfl) hpc rfl rfl rfl

omit [DecidableEq μ] in
/-- Past the test of `__msgqueue_swap`: with nothing to take, the call is decided. -/
theorem swapPass {head : Bool} (hpc : s.pc t = .swapTest head)
    (hpass : ¬(s.msgCnt = 0 ∧ s.nonblock = false)) :
    Advances s t G P (s.goto t (.swapBroadcast head s.msgCnt)) := by
  have hput := h.put
  rw [h.putPhase_eq hpc rfl] at hput
  have hget := h.get
  rw [h.getPhase_eq hpc rfl] at hget
  have hs' : Inv (s.goto t (.swapBroadcast head s.msgCnt)) G P :=
    h.goto hpc ⟨rfl, fun _ => id, fun _ => id⟩ (.inr ⟨rfl, hget, hput.2⟩) rfl rfl
  by_cases hcnt : s.msgCnt = 0
  · have hnonblock : s.nonblock = true := by simpa [hcnt] using hpass
    have hmessages : G ++ P = [] := by
      have hP : P = [] := List.length_eq_zero_iff.mp (hput.2.symm.trans hcnt)
      rw [hget.2.2.2, hP, List.append_nil]
    refine hs'.advances hpc rfl .same ?_
    rw [show (Pc.swapBroadcast head s.msgCnt : Pc μ).status = .done (.got none) from if_pos hcnt]
    exact .effect (.getNone hmessages hnonblock)
  · exact advances_silent hs' hpc rfl (if_neg hcnt) rfl

omit [DecidableEq μ] in
/-- What the swap has found is behind `get_head` now. -/
theorem swapUnlock {cnt : Nat} (hpc : s.pc t = .swapUnlock cnt)
    (hrun : s.unlockPut t (if 0 < cnt then .getTake else .getUnlock none) = some s') :
    Advances s t G P s' := by
  have hget := h.get
  rw [h.getPhase_eq hpc rfl] at hget
  obtain ⟨hapart, rfl⟩ := hget
  split at hrun
  · rename_i hcnt
    exact h.unlockPut hrun hpc ⟨rfl, fun _ => id, fun _ => id⟩
      (.inr ⟨rfl, hapart, List.length_pos_iff.mp hcnt⟩) rfl rfl (if_neg (Nat.ne_of_gt hcnt)).symm
  · rename_i hcnt
    exact h.unlockPut hrun hpc ⟨rfl, fun _ => id, fun _ => id⟩ (.inr ⟨rfl, hapart⟩) rfl rfl
      (if_pos (Nat.eq_zero_of_not_pos hcnt)).symm

omit [DecidableEq μ] in
theorem swapBroadcast {head : Bool} {cnt : Nat} (hpc : s.pc t = .swapBroadcast head cnt)
    (putCond : List τ) :
    Advances s t G P ({ s with putCond := putCond }.goto t (.swapPut head cnt)) :=
  advances_silent ((h.modes s.getCond putCond s.nonblock).goto hpc
    ⟨rfl, fun _ => id, fun _ => id⟩ (.inl rfl) rfl rfl) hpc rfl rfl rfl

/-- Every step of a thread keeps the lists, and does for its caller nothing or all. -/
theorem run (hrun : s.run t woken = some s') : Advances s t G P s' := by
  cases hpc : s.pc t with simp only [State.run, hpc] at hrun
  | idle => cases hrun
  | putNull msg => cases hrun; exact h.putNull hpc
  | putLock msg =>
    exact h.lockPut hrun hpc ⟨rfl, fun _ => id, fun _ => id⟩ (.inl rfl) rfl rfl rfl
  | putTest msg =>
    split at hrun
    · exact (h.modes s.getCond (t :: s.putCond) s.nonblock).unlockPut hrun hpc
        ⟨rfl, fun _ => id, fun _ => id⟩ (.inl rfl) rfl rfl rfl
    · cases hrun
      exact advances_silent (h.goto hpc ⟨rfl, fun _ => id, fun _ => id⟩ (.inl rfl) rfl rfl) hpc rfl
        rfl rfl
  | putWait msg =>
    split at hrun
    · cases hrun
    · exact h.lockPut hrun hpc ⟨rfl, fun _ => id, fun _ => id⟩ (.inl rfl) rfl rfl rfl
  | putLink msg => cases hrun; exact h.putLink hpc
  | putTail msg => cases hrun; exact h.putTail hpc
  | putCount => cases hrun; exact h.putCount hpc
  | putUnlock => exact h.unlockPut hrun hpc ⟨rfl, fun _ => id, fun _ => id⟩ (.inl rfl) rfl rfl rfl
  | putSignal =>
    exact h.signalGet hrun hpc ⟨rfl, fun _ => id, fun _ => id⟩ (.inl rfl) rfl rfl rfl
  | getLock =>
    exact h.lockGet hrun hpc ⟨rfl, fun _ => id, fun _ => id⟩ (.inl rfl) rfl rfl rfl
  | getTest => cases hrun; exact h.getTest hpc
  | swapHead => cases hrun; exact h.swapHead hpc
  | swapLock head =>
    exact h.lockPut hrun hpc ⟨rfl, fun _ => id, fun _ => id⟩ (.inl rfl) rfl rfl rfl
  | swapTest head =>
    split at hrun
    · exact (h.modes (t :: s.getCond) s.putCond s.nonblock).unlockPut hrun hpc
        ⟨rfl, fun _ => id, fun _ => id⟩ (.inl rfl) rfl rfl rfl
    · rename_i hpass
      cases hrun
      exact h.swapPass hpc hpass
  | swapWait head =>
    split at hrun
    · cases hrun
    · exact h.lockPut hrun hpc ⟨rfl, fun _ => id, fun _ => id⟩ (.inl rfl) rfl rfl rfl
  | swapBroadcast head cnt =>
    obtain rfl := Option.some_inj.mp hrun
    exact h.swapBroadcast hpc _
  | swapPut head cnt => cases hrun; exact h.swapPut hpc
  | swapTail head cnt => cases hrun; exact h.swapTail hpc
  | swapZero cnt => cases hrun; exact h.swapZero hpc
  | swapUnlock cnt => exact h.swapUnlock hpc hrun
  | getTake =>
    obtain ⟨a, ha, rfl⟩ := Option.map_eq_some_iff.mp hrun
    exact h.getTake hpc ha
  | getUnlock msg =>
    exact h.unlockGet hrun hpc ⟨rfl, fun _ => id, fun _ => id⟩ (.inl rfl) rfl rfl rfl
  | nonblockSet =>
    cases hrun
    exact Inv.advances ((h.modes s.getCond s.putCond true).goto hpc
      ⟨rfl, fun _ => id, fun _ => id⟩ (.inl rfl) rfl rfl) hpc rfl .same (.effect .setNonblock)
  | nonblockLock =>
    exact h.lockPut hrun hpc ⟨rfl, fun _ => id, fun _ => id⟩ (.inl rfl) rfl rfl rfl
  | nonblockSignal =>
    exact h.signalGet hrun hpc ⟨rfl, fun _ => id, fun _ => id⟩ (.inl rfl) rfl rfl rfl
  | nonblockBroadcast =>
    cases hrun
    exact advances_silent ((h.modes s.getCond [] s.nonblock).goto hpc
      ⟨rfl, fun _ => id, fun _ => id⟩ (.inl rfl) rfl rfl) hpc rfl rfl rfl
  | nonblockUnlock =>
    exact h.unlockPut hrun hpc ⟨rfl, fun _ => id, fun _ => id⟩ (.inl rfl) rfl rfl rfl
  | blockSet =>
    cases hrun
    exact Inv.advances ((h.modes s.getCond s.putCond false).goto hpc
      ⟨rfl, fun _ => id, fun _ => id⟩ (.inl rfl) rfl rfl) hpc rfl .same (.effect .setBlock)
  | returning result => cases hrun

omit [DecidableEq μ] in
/-- A call, with a message of the caller's own if it is a put. -/
theorem call {op : Op μ} (hpc : s.pc t = .idle) (hmsg : ∀ msg, op = .put msg → s.Outside msg) :
    Inv (s.goto t op.start) G P := by
  obtain ⟨hgetMutex, hputMutex⟩ := h.stays t op.start (by rw [hpc]; cases op <;> rfl)
    (by rw [hpc]; cases op <;> rfl)
  have hputPhase := h.putMutex.phase_congr hputMutex Pc.putPhase_of_not_holds
    (by rw [hpc]; cases op <;> rfl)
  have hgetPhase := h.getMutex.phase_congr hgetMutex Pc.getPhase_of_not_holds
    (by rw [hpc]; cases op <;> rfl)
  refine h.step _ _ rfl hgetMutex hputMutex h.putPath hputPhase h.put hgetPhase h.get h.nodup h.sent
    (fun a => Or.inl) (fun a ha => ?_) (fun a => Or.inl rfl) fun a ha => ?_
  · cases op with
    | put msg =>
      obtain rfl := Option.some_inj.mp ha
      obtain ⟨hpending, hown⟩ := hmsg _ rfl
      exact ⟨h.pending_eq ▸ hpending, fun t' _ => hown t'⟩
    | _ => cases ha
  · cases op <;> cases ha

omit [DecidableEq μ] in
theorem ret {result : Result μ} (hpc : s.pc t = .returning result) : Inv (s.goto t .idle) G P :=
  h.goto hpc ⟨rfl, by simp [Pc.own], by simp [Pc.fresh]⟩ (.inl rfl) rfl rfl

end Inv

omit [DecidableEq μ] in
theorem Op.status_start (op : Op μ) : op.start.status = .called op := by cases op <;> rfl

/-- The callers see the same of the queue and of the atomic one. -/
def Matches (s : State τ μ) (o : Atomic.Object τ (Fifo μ) (Op μ) (Result μ)) : Prop :=
  ∃ G P, Inv s G P ∧ o.state = ⟨G ++ P, s.nonblock⟩ ∧ ∀ t, o.status t = (s.pc t).status

omit [DecidableEq τ] [DecidableEq μ] in
theorem matches_create (maxlen : Nat) :
    Matches (State.create maxlen : State τ μ) (Atomic.init ⟨[], false⟩) :=
  ⟨[], [], inv_create maxlen, rfl, fun _ => rfl⟩

/-- Each step of the queue is nothing to the callers, or one step of the atomic queue. -/
theorem matches_step {a : Action τ μ} {o : Atomic.Object τ (Fifo μ) (Op μ) (Result μ)}
    (h : Step s a s') (hs : Matches s o) : ∃ acts o', Lts.Run (Atomic.Step Effect) o acts o' ∧
      acts.filterMap Atomic.Act.visible = a.visible.toList ∧ Matches s' o' := by
  obtain ⟨G, P, hinv, hstate, hstatus⟩ := hs
  have hgoto : ∀ {t : τ} {pc : Pc μ} {status}, pc.status = status → ∀ t',
      Function.update o.status t status t' = (Function.update s.pc t pc t').status := by
    intro t pc status hpc t'
    by_cases ht : t' = t
    · rw [ht, Function.update_self, Function.update_self, hpc]
    · rw [Function.update_of_ne ht, Function.update_of_ne ht, hstatus t']
  cases h with
  | @call t op hpc hmsg =>
    refine ⟨[.event (.call t op)], _, .cons (.call ?_) (.refl _), rfl, G, P,
      hinv.call hpc hmsg, hstate, hgoto op.status_start⟩
    rw [hstatus t, hpc]
    rfl
  | @ret t result hpc =>
    refine ⟨[.event (.ret t result)], _, .cons (.ret ?_) (.refl _), rfl, G, P, hinv.ret hpc, hstate,
      hgoto rfl⟩
    rw [hstatus t, hpc]
    rfl
  | @run _ t woken hrun =>
    obtain ⟨G', P', hinv', -, htook, hothers⟩ := hinv.run hrun
    rw [← hstatus t, ← hstate] at htook
    obtain ⟨acts, hacts, hvisible⟩ := htook.run
    refine ⟨acts, _, hacts, hvisible, G', P', hinv', rfl, fun t' => ?_⟩
    by_cases ht : t' = t
    · rw [ht]
      exact Function.update_self ..
    · exact (Function.update_of_ne ht ..).trans (by rw [hstatus t', hothers t' ht])
  | @wake t =>
    exact ⟨[], o, .refl o, rfl, G, P, hinv.modes _ _ s.nonblock, hstate, hstatus⟩

/-- What the callers of a queue see, however the steps of the threads are mixed, is what they would
see of a queue whose operations are each done at one instant between the call and the return. -/
theorem calls_linearizable {maxlen : Nat} {as : List (Action τ μ)}
    (h : Lts.Run Step (State.create maxlen) as s) :
    Atomic.Linearizable Effect ⟨[], false⟩ (as.filterMap Action.visible) := by
  obtain ⟨acts, o, hacts, hvisible, -⟩ := Atomic.run_of_simulation
    (fun _ _ _ _ hstep hs => matches_step hstep hs) h (matches_create maxlen)
  exact ⟨acts, o, hacts, hvisible⟩

/-- With room in the queue the test of `msgqueue_put` lets the message in. -/
theorem run_putTest (hpc : s.pc t = .putTest a) (hfull : s.full = false) :
    s.run t woken = some (s.goto t (.putLink a)) := by
  simp [State.run, hpc, hfull]

/-- One thread puts a message while another one waits for it. -/
theorem calls_linearizable_handover : Atomic.Linearizable Effect ⟨[], false⟩
    [.call true .get, .call false (.put 7), .ret false .done, .ret true (.got (some 7))] := by
  have hrun : Lts.Run Step (State.create 1 : State Bool Nat)
      ([.event (.call true .get)] ++ List.replicate 5 (.run true none) ++
        [.event (.call false (.put 7))] ++ List.replicate 7 (.run false none) ++
        [.run false (some true), .event (.ret false .done)] ++ List.replicate 9 (.run true none) ++
        [.event (.ret true (.got (some 7)))]) _ :=
    .cons (.call rfl (by simp)) <| .cons (.run rfl) <| .cons (.run rfl) <| .cons (.run rfl) <|
      .cons (.run rfl) <| .cons (.run rfl) <|
      .cons (.call rfl (by rintro _ ⟨⟩; exact ⟨by decide, by rintro (_ | _) <;> decide⟩)) <|
      .cons (.run rfl) <| .cons (.run rfl) <| .cons (.run (run_putTest rfl (by decide +kernel))) <|
      .cons (.run rfl) <| .cons (.run rfl) <| .cons (.run rfl) <| .cons (.run rfl) <|
      .cons (.run rfl) <| .cons (.ret rfl) <| .cons (.run rfl) <| .cons (.run rfl) <|
      .cons (.run rfl) <| .cons (.run rfl) <| .cons (.run rfl) <| .cons (.run rfl) <|
      .cons (.run rfl) <| .cons (.run rfl) <| .cons (.run rfl) <| .cons (.ret rfl) <| .refl _
  exact calls_linearizable hrun

end Hplsp.Msgqueue
