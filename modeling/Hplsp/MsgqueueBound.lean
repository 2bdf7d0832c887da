import Hplsp.MsgqueueProgress

/-! How many messages a queue of `msg_max` holds: as many again as it lets in, while those wait to
be taken that `__msgqueue_swap` has passed on. -/

namespace Hplsp.Msgqueue

variable {τ μ : Type} [DecidableEq τ] {s s' : State τ μ} {t t' : τ}
  {G P : List μ} {pc old : Pc μ} {maxlen : Nat} {as : List (Action τ μ)} {woken : Option τ}

/-- The queue is not set to return by this, and the thread is at `pc`. -/
def Leads (s : State τ μ) (t : τ) (pc : Pc μ) (s' : State τ μ) : Prop :=
  s'.msgMax = s.msgMax ∧ (s'.nonblock = true → s.nonblock = true) ∧ s'.pc t = pc

theorem leads_goto {u : State τ μ} (hmax : u.msgMax = s.msgMax)
    (hmode : u.nonblock = true → s.nonblock = true) : Leads s t pc (u.goto t pc) :=
  ⟨hmax, hmode, Function.update_self ..⟩

theorem leads_bind {α : Type} {o : Option α} {f : α → State τ μ}
    (hrun : (o.bind fun x => some ((f x).goto t pc)) = some s')
    (hmax : ∀ x, (f x).msgMax = s.msgMax) (hmode : ∀ x, (f x).nonblock = true → s.nonblock = true) :
    Leads s t pc s' := by
  obtain ⟨x, -, hrun⟩ := Option.bind_eq_some_iff.mp hrun
  cases hrun
  exact leads_goto (hmax x) (hmode x)

/-- The thread is not about to set the queue to return, and links no message in without the test. -/
def Pc.Careful (s : State τ μ) (t : τ) (pc : Pc μ) : Prop :=
  pc ≠ .nonblockSet ∧
    ∀ msg, pc = .putLink msg → s.pc t = .putTest msg ∧ (s.full && !s.nonblock) = false

theorem run_leads [DecidableEq μ] (hrun : s.run t woken = some s') (hmode : s.pc t ≠ .nonblockSet) :
    ∃ pc, Leads s t pc s' ∧ Pc.Careful s t pc := by
  cases hpc : s.pc t with simp only [State.run, hpc] at hrun
  | idle | returning result => cases hrun
  | nonblockSet => exact absurd hpc hmode
  | blockSet =>
    cases hrun
    exact ⟨_, leads_goto rfl (by simp), by simp [Pc.Careful]⟩
  | putTest msg =>
    split at hrun
    · exact ⟨_, leads_bind hrun (fun _ => rfl) fun _ => id, by simp [Pc.Careful]⟩
    · rename_i htest
      cases hrun
      refine ⟨_, leads_goto rfl id, by simp, ?_⟩
      rintro _ ⟨⟩
      exact ⟨hpc, by simpa using htest⟩
  | swapTest head =>
    split at hrun
    · exact ⟨_, leads_bind hrun (fun _ => rfl) fun _ => id, by simp [Pc.Careful]⟩
    · cases hrun
      exact ⟨_, leads_goto rfl id, by simp [Pc.Careful]⟩
  | putWait msg | swapWait head =>
    split at hrun
    · cases hrun
    · exact ⟨_, leads_bind hrun (fun _ => rfl) fun _ => id, by simp [Pc.Careful]⟩
  | swapUnlock cnt =>
    split at hrun <;>
    exact ⟨_, leads_bind hrun (fun _ => rfl) fun _ => id, by simp [Pc.Careful]⟩
  | getTest =>
    cases hrun
    exact ⟨_, leads_goto rfl id, by split <;> simp [Pc.Careful]⟩
  | getTake =>
    obtain ⟨a, -, rfl⟩ := Option.map_eq_some_iff.mp hrun
    exact ⟨_, leads_goto rfl id, by simp [Pc.Careful]⟩
  | putLock msg | putUnlock | putSignal | getLock | swapLock head | getUnlock msg | nonblockLock
  | nonblockSignal | nonblockUnlock =>
    exact ⟨_, leads_bind hrun (fun _ => rfl) fun _ => id, by simp [Pc.Careful]⟩
  | swapBroadcast head cnt =>
    obtain rfl := Option.some_inj.mp hrun
    exact ⟨_, leads_goto rfl id, by simp [Pc.Careful]⟩
  | putNull msg | putLink msg | putTail msg | putCount | swapHead | swapPut head cnt
  | swapTail head cnt | swapZero cnt | nonblockBroadcast =>
    cases hrun
    exact ⟨_, leads_goto rfl id, by simp [Pc.Careful]⟩

/-- The queue has not been set to return, and lets no more than `maxlen` messages in. -/
structure Bounded (maxlen : Nat) (s : State τ μ) (G P : List μ) : Prop where
  inv : Inv s G P
  msgMax : s.msgMax = maxlen
  block : s.nonblock = false
  mode : ∀ t, s.pc t ≠ .nonblockSet
  room : ∀ t msg, s.pc t = .putLink msg → P.length < maxlen
  get : G.length ≤ maxlen
  put : P.length ≤ maxlen

omit [DecidableEq τ] in
theorem bounded_create : Bounded maxlen (State.create maxlen : State τ μ) [] [] where
  inv := inv_create maxlen
  msgMax := rfl
  block := rfl
  mode := by simp [State.create]
  room := by simp [State.create]
  get := Nat.zero_le _
  put := Nat.zero_le _

namespace Bounded

variable (h : Bounded maxlen s G P)
include h

omit [DecidableEq τ] in
/-- The test of `msgqueue_put` lets a message in only where there is room for it. -/
theorem room_of_test {msg : μ} (hpos : 1 ≤ maxlen) (hlt : maxlen < 2 ^ 64)
    (hpc : s.pc t = .putTest msg) (htest : (s.full && !s.nonblock) = false) :
    P.length < maxlen := by
  have hput := h.inv.put
  rw [h.inv.putPhase_eq hpc rfl] at hput
  have hfull : s.full = false := by simpa [h.block] using htest
  have hle : ¬Word64.sub s.msgMax 1 < s.msgCnt := of_decide_eq_false hfull
  rw [h.msgMax, Word64.sub_of_le hpos hlt, hput.2] at hle
  omega

theorem run [DecidableEq μ] (hpos : 1 ≤ maxlen) (hlt : maxlen < 2 ^ 64)
    (hrun : s.run t woken = some s') : ∃ G' P', Bounded maxlen s' G' P' := by
  obtain ⟨pc, ⟨hmax, hmode, hpc⟩, hcareful⟩ := run_leads hrun (h.mode t)
  obtain ⟨G', P', hinv, hmoved, -, hothers⟩ := h.inv.run hrun
  have hblock : s'.nonblock = false := by
    cases hnonblock : s'.nonblock with
    | false => rfl
    | true => exact absurd (hmode hnonblock) (by simp [h.block])
  have hmode' : ∀ t', s'.pc t' ≠ .nonblockSet := by
    intro t'
    by_cases ht : t' = t
    · rw [ht, hpc]
      exact hcareful.1
    · rw [hothers t' ht]
      exact h.mode t'
  generalize hbefore : s.pc t = before at hmoved
  -- While the list grows or is passed on, this thread has `put_mutex`: no other is linking in.
  have halone : before.holdsPut = true → (∀ msg, before ≠ .putTest msg) →
      ∀ t' msg, s'.pc t' ≠ .putLink msg := by
    intro hholds hnot t' msg hlink
    by_cases ht : t' = t
    · rw [ht, hpc] at hlink
      exact hnot msg (hbefore.symm.trans (hcareful.2 msg hlink).1)
    · rw [hothers t' ht] at hlink
      exact ht (h.inv.putMutex.unique (by rw [hlink]; rfl) (by rwa [hbefore]))
  have hroom : ∀ t' msg, s'.pc t' = .putLink msg → P.length < maxlen := by
    intro t' msg hlink
    by_cases ht : t' = t
    · rw [ht, hpc] at hlink
      obtain ⟨htest, hroom⟩ := hcareful.2 msg hlink
      exact h.room_of_test hpos hlt htest hroom
    · rw [hothers t' ht] at hlink
      exact h.room t' msg hlink
  refine ⟨G', P', hinv, hmax.trans h.msgMax, hblock, hmode', ?_, ?_, ?_⟩
  · cases hmoved with
    | same | take => exact hroom
    | put => exact fun t' msg hlink => absurd hlink (halone rfl (by simp) t' msg)
    | swap => exact fun t' msg hlink => absurd hlink (halone rfl (by simp) t' msg)
  · cases hmoved with
    | same | put => exact h.get
    | swap => exact h.put
    | take => exact Nat.le_of_succ_le h.get
  · cases hmoved with
    | same | take => exact h.put
    | swap => exact Nat.zero_le _
    | put =>
      rw [List.length_append]
      exact h.room t _ hbefore

omit [DecidableEq τ] in
theorem pending_le : s.pending.length ≤ 2 * maxlen := by
  have hget := h.get
  have hput := h.put
  rw [h.inv.pending_eq, List.length_append]
  omega

end Bounded

/-- Every step, but for a call of `msgqueue_set_nonblock`. -/
theorem bounded_step [DecidableEq μ] (hpos : 1 ≤ maxlen) (hlt : maxlen < 2 ^ 64) {a : Action τ μ}
    (hstep : Step s a s') (ha : ∀ t, a ≠ .event (.call t .setNonblock))
    (h : Bounded maxlen s G P) : ∃ G' P', Bounded maxlen s' G' P' := by
  have hgoto : ∀ {t : τ} {pc : Pc μ}, pc ≠ .nonblockSet → (∀ msg, pc ≠ .putLink msg) →
      Inv (s.goto t pc) G P → Bounded maxlen (s.goto t pc) G P := by
    intro t pc hset hlink hinv
    refine ⟨hinv, h.msgMax, h.block, fun t' => ?_, fun t' msg => ?_, h.get, h.put⟩
    · by_cases ht : t' = t
      · rw [ht]
        simpa [State.goto] using hset
      · simpa [State.goto, ht] using h.mode t'
    · by_cases ht : t' = t
      · rw [ht]
        simpa [State.goto] using fun heq => absurd heq (hlink msg)
      · simpa [State.goto, ht] using h.room t' msg
  cases hstep with
  | @call t op hpc hmsg =>
    have hset : op.start ≠ .nonblockSet := by
      cases op with
      | setNonblock => exact absurd rfl (ha t)
      | _ => simp [Op.start]
    exact ⟨G, P, hgoto hset (by cases op <;> simp [Op.start]) (h.inv.call hpc hmsg)⟩
  | ret hpc => exact ⟨G, P, hgoto (by simp) (by simp) (h.inv.ret hpc)⟩
  | run hrun => exact h.run hpos hlt hrun
  | wake =>
    exact ⟨G, P, h.inv.modes _ _ s.nonblock, h.msgMax, h.block, h.mode, h.room, h.get, h.put⟩

/-- Unless the queue is set to return, it never holds more than twice `maxlen` messages. -/
theorem pending_bounded [DecidableEq μ] (hpos : 1 ≤ maxlen) (hlt : maxlen < 2 ^ 64)
    (h : Lts.Run Step (State.create maxlen) as s)
    (hmode : ∀ t, Action.event (.call t .setNonblock) ∉ as) : s.pending.length ≤ 2 * maxlen := by
  have hcond : ∀ a ∈ as, ∀ t, a ≠ .event (.call t .setNonblock) :=
    fun a ha t heq => hmode t (heq ▸ ha)
  have hguarded := h.guarded hcond
  have hbounded := hguarded.invariant (I := fun s => ∃ G P, Bounded maxlen s G P)
    (fun _ _ _ hstep ⟨_, _, hs⟩ => bounded_step hpos hlt hstep.2 hstep.1 hs)
    ⟨[], [], bounded_create⟩
  obtain ⟨G, P, hs⟩ := hbounded
  exact hs.pending_le

/-- Two messages in a queue of one: the first is about to be taken. -/
theorem pending_bounded_twice : ∃ as s, Lts.Run Step (State.create 1 : State Bool Nat) as s ∧
    s.pending.length = 2 ∧ s.pending.length ≤ 2 * 1 := by
  have hrun : Lts.Run Step (State.create 1 : State Bool Nat)
      ([.event (.call false (.put 7))] ++ List.replicate 8 (.run false none) ++
        [.event (.ret false .done), .event (.call true .get)] ++
        List.replicate 10 (.run true none) ++ [.event (.call false (.put 8))] ++
        List.replicate 4 (.run false none)) _ :=
    .cons (.call rfl (by rintro _ ⟨⟩; exact ⟨by decide, by rintro (_ | _) <;> decide⟩)) <|
      .cons (.run rfl) <| .cons (.run rfl) <| .cons (.run (run_putTest rfl (by decide +kernel))) <|
      .cons (.run rfl) <| .cons (.run rfl) <| .cons (.run rfl) <| .cons (.run rfl) <|
      .cons (.run rfl) <| .cons (.ret rfl) <| .cons (.call rfl (by simp)) <|
      .cons (.run rfl) <| .cons (.run rfl) <| .cons (.run rfl) <| .cons (.run rfl) <|
      .cons (.run rfl) <| .cons (.run rfl) <| .cons (.run rfl) <| .cons (.run rfl) <|
      .cons (.run rfl) <| .cons (.run rfl) <|
      .cons (.call rfl (by rintro _ ⟨⟩; exact ⟨by decide, by rintro (_ | _) <;> decide⟩)) <|
      .cons (.run rfl) <| .cons (.run rfl) <| .cons (.run (run_putTest rfl (by decide +kernel))) <|
      .cons (.run rfl) <| .refl _
  refine ⟨_, _, hrun, by decide +kernel, pending_bounded (by decide) (by decide) hrun ?_⟩
  simp

end Hplsp.Msgqueue
