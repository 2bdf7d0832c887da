import Hplsp.MsgqueueInv

/-! The invariant along every step of the message queue, and what each step does to the messages. -/

namespace Hplsp.Msgqueue

open Linked

/-- What the next step of a thread does to the two lists. -/
inductive Moved {μ : Type} : Pc μ → List μ → List μ → List μ → List μ → Prop
  | same {pc G P} : Moved pc G P G P
  | put {G P msg} : Moved (.putLink msg) G P G (P ++ [msg])
  | swap {P head cnt} : Moved (.swapPut head cnt) [] P P []
  | take {G P msg} : Moved .getTake (msg :: G) P G P

variable {τ μ : Type} [DecidableEq τ] [DecidableEq μ] {s s' : State τ μ} {t t' : τ}
  {G G' P P' : List μ} {pc old new : Pc μ} {a b : μ} {slot : Slot μ} {second : Bool}
  {woken : Option τ}

/-- What a step leaves of the invariant and of the messages. -/
def Advances (s : State τ μ) (t : τ) (G P : List μ) (s' : State τ μ) : Prop :=
  ∃ G' P', Inv s' G' P' ∧ Moved (s.pc t) G P G' P' ∧ Atomic.Took Effect (s.pc t).status
    ⟨G ++ P, s.nonblock⟩ (s'.pc t).status ⟨G' ++ P', s'.nonblock⟩ ∧
      ∀ t', t' ≠ t → s'.pc t' = s.pc t'

/-- The two lists are as they were. -/
structure SameLists (s s' : State τ μ) : Prop where
  mem : s'.mem = s.mem
  getHead : s'.getHead = s.getHead
  putHead : s'.putHead = s.putHead
  putTail : s'.putTail = s.putTail
  msgCnt : s'.msgCnt = s.msgCnt
  sent : s'.sent = s.sent
  received : s'.received = s.received

omit [DecidableEq τ] [DecidableEq μ] in
theorem SameLists.putOk (h : SameLists s s') {phase : PutPhase μ} (hput : s.PutOk P phase) :
    s'.PutOk P phase := by
  cases phase <;> simpa only [State.PutOk, h.putTail, h.putHead, h.msgCnt] using hput

omit [DecidableEq τ] [DecidableEq μ] in
theorem SameLists.getOk (h : SameLists s s') {phase : GetPhase} (hget : s.GetOk G P phase) :
    s'.GetOk G P phase := by
  cases phase <;> simpa only [State.GetOk, State.Apart, State.Joined, h.getHead, h.putHead, h.mem,
    State.succ_of_mem h.mem] using hget

namespace Inv

variable (h : Inv s G P)
include h

omit [DecidableEq τ] [DecidableEq μ] in
theorem putPhase_eq (hpc : s.pc t = old) (hholds : old.holdsPut = true) :
    s.putPhase = old.putPhase :=
  hpc ▸ h.putMutex.phase_eq (hpc ▸ hholds)

omit [DecidableEq τ] [DecidableEq μ] in
theorem getPhase_eq (hpc : s.pc t = old) (hholds : old.holdsGet = true) :
    s.getPhase = old.getPhase :=
  hpc ▸ h.getMutex.phase_eq (hpc ▸ hholds)

omit [DecidableEq μ] in
/-- A step that leaves the lists alone. -/
theorem control (hpc : s.pc t = old) (hlists : SameLists s s')
    (hpc' : s'.pc = Function.update s.pc t new)
    (hgetMutex : Pthread.Owned Pc.holdsGet (Function.update s.pc t new) s'.getMutex)
    (hputMutex : Pthread.Owned Pc.holdsPut (Function.update s.pc t new) s'.putMutex)
    (hput : new.putPhase = old.putPhase)
    (hget : new.getPhase = old.getPhase ∨ new.holdsGet = true ∧ s.GetOk G P new.getPhase)
    (hown : ∀ a, new.own = some a → old.own = some a)
    (hfresh : ∀ a, new.fresh = some a → old.fresh = some a) : Inv s' G P := by
  have hputPhase : s'.putPhase = s.putPhase := by
    rw [State.putPhase, hpc']
    exact h.putMutex.phase_congr hputMutex Pc.putPhase_of_not_holds (hpc ▸ hput)
  have hgetOk : s.GetOk G P s'.getPhase := by
    rw [State.getPhase, hpc']
    rcases hget with hsame | ⟨hholds, hget⟩
    · rw [h.getMutex.phase_congr hgetMutex Pc.getPhase_of_not_holds (hpc ▸ hsame)]
      exact h.get
    · rwa [hgetMutex.phase_self hholds]
  refine h.step _ _ hpc' hgetMutex hputMutex ?_ hputPhase (hlists.putOk h.put) rfl
    (hlists.getOk hgetOk) h.nodup (by rw [hlists.sent, hlists.received, h.sent])
    (fun a => Or.inl) (fun a ha => ?_) (fun a => Or.inl (by rw [hlists.mem])) fun a ha => ?_
  · rw [State.succ_of_mem hlists.mem, hlists.putHead]
    exact h.putPath
  · have hold : (s.pc t).own = some a := hpc ▸ hown a ha
    exact ⟨h.own t a hold, fun t' ht ha' => ht (h.ownUnique t' t a ha' hold)⟩
  · rw [hlists.mem]
    exact h.fresh t a (hpc ▸ hfresh a ha)

end Inv

omit [DecidableEq μ] in
theorem Inv.advances (h : Inv s' G' P') (hpc : s.pc t = old)
    (hpc' : s'.pc = Function.update s.pc t new) (hmoved : Moved old G P G' P')
    (htook : Atomic.Took Effect old.status ⟨G ++ P, s.nonblock⟩ new.status
      ⟨G' ++ P', s'.nonblock⟩) : Advances s t G P s' := by
  refine ⟨G', P', h, hpc ▸ hmoved, ?_, fun t' ht => ?_⟩
  · rwa [hpc', Function.update_self, hpc]
  · rw [hpc', Function.update_of_ne ht]

omit [DecidableEq μ] in
theorem advances_silent (h : Inv s' G P) (hpc : s.pc t = old)
    (hpc' : s'.pc = Function.update s.pc t new) (hstatus : new.status = old.status)
    (hnonblock : s'.nonblock = s.nonblock) : Advances s t G P s' := by
  refine h.advances hpc hpc' .same ?_
  rw [hstatus, hnonblock]
  exact .silent

omit [DecidableEq τ] in
theorem succ_store {msg : Option μ} {p : Place μ} :
    (s.store slot msg).succ second p = if Slot.at second p = slot then msg else s.succ second p :=
  Function.update_apply ..

omit [DecidableEq τ] in
theorem path_store {msg : Option μ} (hpath : Path (s.succ second) .head P)
    (hslot : ∀ p ∈ places .head P, Slot.at second p ≠ slot) :
    Path ((s.store slot msg).succ second) .head P :=
  hpath.congr fun p hp => by rw [succ_store, if_neg (hslot p hp)]

omit [DecidableEq τ] [DecidableEq μ] in
theorem putOk_congr (htail : s'.putTail = s.putTail) (hhead : s'.putHead = s.putHead)
    (hcnt : s'.msgCnt = s.msgCnt) {phase : PutPhase μ} (hput : s.PutOk P phase) :
    s'.PutOk P phase := by
  cases phase <;> simpa only [State.PutOk, htail, hhead, hcnt] using hput

omit [DecidableEq τ] in
/-- A store to the list that messages are put into, or to a message that is in neither list. -/
theorem getOk_store {msg : Option μ} {phase : GetPhase} (hget : s.GetOk G P phase)
    (hlink : ∀ a ∈ G, slot ≠ .link a) (hhead : ∀ b, slot = .head b → b = s.putHead) :
    (s.store slot msg).GetOk G P phase := by
  have hapart : s.Apart G → (s.store slot msg).Apart G := by
    rintro ⟨hne, hpath⟩
    refine ⟨hne, path_store hpath fun p hp => ?_⟩
    cases p with
    | head => exact fun heq => hne (hhead _ heq.symm)
    | node a => exact (hlink a (node_mem_places.mp hp)).symm
  have hjoined : ∀ {old}, s.Joined G old → (s.store slot msg).Joined G old := by
    rintro old ⟨heq, hne, hnull, hnil⟩
    refine ⟨heq, hne, ?_, hnil⟩
    have hslot : Slot.head old ≠ slot := fun heq => hne (hhead _ heq.symm)
    exact (Function.update_of_ne hslot ..).trans hnull
  cases phase with
  | whole => exact hapart hget
  | taking => exact ⟨hapart hget.1, hget.2⟩
  | empty => exact ⟨hapart hget.1, hget.2⟩
  | waiting old => exact hjoined hget
  | passing old cnt => exact ⟨hjoined hget.1, hget.2⟩
  | counted cnt => exact ⟨hapart hget.1, hget.2⟩

namespace Inv

variable (h : Inv s G P)
include h

/-- `*link = NULL`. -/
theorem putNull (hpc : s.pc t = .putNull a) :
    Advances s t G P ((s.store (.link a) none).goto t (.putLock a)) := by
  have hown : (s.pc t).own = some a := by rw [hpc]; rfl
  have hmem := h.own t a hown
  rw [List.mem_append, not_or] at hmem
  obtain ⟨hgetMutex, hputMutex⟩ := h.stays t (.putLock a) (by rw [hpc]; rfl) (by rw [hpc]; rfl)
  have hputPhase := h.putMutex.phase_congr hputMutex Pc.putPhase_of_not_holds (by rw [hpc]; rfl)
  have hgetPhase := h.getMutex.phase_congr hgetMutex Pc.getPhase_of_not_holds (by rw [hpc]; rfl)
  refine advances_silent (h.step _ _ rfl hgetMutex hputMutex ?_ hputPhase
    (putOk_congr rfl rfl rfl h.put) hgetPhase ?_ h.nodup h.sent (fun b => Or.inl) (fun b hb => ?_)
    (fun b => ?_) fun b hb => ?_) hpc rfl rfl rfl
  · refine path_store h.putPath fun p hp => ?_
    rintro heq
    obtain rfl := Slot.at_eq_link.mp heq
    exact hmem.2 (node_mem_places.mp hp)
  · refine getOk_store h.get (fun b hb heq => ?_) fun b heq => by cases heq
    cases heq
    exact hmem.1 hb
  · obtain rfl := Option.some_inj.mp hb
    exact ⟨h.own t _ hown, fun t' ht ha' => ht (h.ownUnique t' t _ ha' hown)⟩
  · by_cases hb : b = a
    · subst hb
      exact Or.inr (Or.inl (Function.update_self ..))
    · exact Or.inl (Function.update_of_ne (by simpa using hb) ..)
  · obtain rfl := Option.some_inj.mp hb
    exact Function.update_self ..

omit [DecidableEq τ] [DecidableEq μ] in
/-- While another thread has `put_mutex`, no one is past the test of `__msgqueue_swap`. -/
theorem not_passing (hput : (s.pc t).holdsPut = true) (hget : (s.pc t).holdsGet = false)
    {second : Bool} {cnt : Nat} : s.getPhase ≠ .passing second cnt := by
  intro hphase
  rw [State.getPhase, Pthread.phase] at hphase
  cases howner : s.getMutex with
  | none =>
    rw [howner] at hphase
    cases hphase
  | some t' =>
    rw [howner] at hphase
    obtain ⟨hput', hget'⟩ := Pc.holds_of_passing hphase
    obtain rfl := h.putMutex.unique hput hput'
    rw [hget] at hget'
    cases hget'

/-- `*queue->put_tail = link`: the message is at the end of the list. -/
theorem putLink (hpc : s.pc t = .putLink a) : Advances s t G P
    ({ s.store s.putTail (some a) with sent := s.sent ++ [a] }.goto t (.putTail a)) := by
  have hown : (s.pc t).own = some a := by rw [hpc]; rfl
  have hmem := h.own t a hown
  have hnotP : a ∉ P := fun ha => hmem (List.mem_append_right _ ha)
  obtain ⟨hgetMutex, hputMutex⟩ := h.stays t (.putTail a) (by rw [hpc]; rfl) (by rw [hpc]; rfl)
  have hgetPhase := h.getMutex.phase_congr hgetMutex Pc.getPhase_of_not_holds (by rw [hpc]; rfl)
  have hput := h.put
  rw [h.putPhase_eq hpc rfl] at hput
  obtain ⟨htail, hcnt⟩ := hput
  have hlast : last .head P ≠ .node a := fun heq => hnotP (mem_of_last heq)
  refine Inv.advances (h.step G (P ++ [a]) rfl hgetMutex hputMutex ?_
    (hputMutex.phase_self rfl) ⟨P, rfl, htail, hcnt⟩ hgetPhase ?_ ?_ ?_ (fun b hb => ?_)
    (fun b hb => by cases hb) (fun b => ?_) fun b hb => by cases hb) hpc rfl .put (.effect ?_)
  · refine h.putPath.concat hnotP ?_ ?_ fun q _ hq => ?_
    · rw [htail]
      exact (succ_store (s := s)).trans (if_pos rfl)
    · rw [htail]
      refine (succ_store (s := s)).trans ((if_neg fun heq => ?_).trans (h.fresh t a (by
        rw [hpc]; rfl)))
      exact hlast (Slot.at_inj.mp heq).symm
    · rw [htail]
      exact (succ_store (s := s)).trans (if_neg fun heq => hq (Slot.at_inj.mp heq))
  · have hget : s.GetOk G (P ++ [a]) s.getPhase := by
      have hold := h.get
      cases hphase : s.getPhase with
      | passing old cnt => exact absurd hphase (h.not_passing (by rw [hpc]; rfl) (by rw [hpc]; rfl))
      | _ =>
        rw [hphase] at hold
        exact hold
    rw [htail]
    refine getOk_store hget (fun b hb heq => ?_) fun b heq => (Slot.at_eq_head.mp heq).2.symm
    have hbP := mem_of_last (Slot.at_eq_link.mp heq)
    exact (List.nodup_append.mp h.nodup).2.2 b hb b hbP rfl
  · rw [← List.append_assoc]
    refine List.nodup_append.mpr ⟨h.nodup, List.nodup_singleton a, fun b hb c hc => ?_⟩
    rintro rfl
    exact hmem (List.mem_singleton.mp hc ▸ hb)
  · simp [State.goto, State.store, h.sent]
  · rw [← List.append_assoc] at hb
    refine (List.mem_append.mp hb).imp_right fun hb => ?_
    rw [hown, List.mem_singleton.mp hb]
  · by_cases heq : Slot.link b = s.putTail
    · have hlast := Slot.at_eq_link.mp (htail.symm.trans heq.symm)
      exact Or.inr (Or.inr (List.mem_append_right _ (mem_of_last hlast)))
    · exact Or.inl (Function.update_of_ne heq ..)
  · rw [← List.append_assoc]
    exact .put

omit [DecidableEq μ] in
/-- `queue->put_tail = link`. -/
theorem putTail (hpc : s.pc t = .putTail a) :
    Advances s t G P ({ s with putTail := .link a }.goto t .putCount) := by
  obtain ⟨hgetMutex, hputMutex⟩ := h.stays t .putCount (by rw [hpc]; rfl) (by rw [hpc]; rfl)
  have hgetPhase := h.getMutex.phase_congr hgetMutex Pc.getPhase_of_not_holds (by rw [hpc]; rfl)
  have hput := h.put
  rw [h.putPhase_eq hpc rfl] at hput
  obtain ⟨P₀, rfl, -, hcnt⟩ := hput
  refine advances_silent (h.step _ _ rfl hgetMutex hputMutex h.putPath (hputMutex.phase_self rfl)
    ⟨?_, ?_⟩ hgetPhase h.get h.nodup h.sent (fun b => Or.inl) (fun b hb => by cases hb)
    (fun b => Or.inl rfl) fun b hb => by cases hb) hpc rfl rfl rfl
  · simp [State.goto, last, Slot.at]
  · simpa [State.goto] using hcnt

omit [DecidableEq μ] in
/-- `queue->msg_cnt++`. -/
theorem putCount (hpc : s.pc t = .putCount) :
    Advances s t G P ({ s with msgCnt := s.msgCnt + 1 }.goto t .putUnlock) := by
  obtain ⟨hgetMutex, hputMutex⟩ := h.stays t .putUnlock (by rw [hpc]; rfl) (by rw [hpc]; rfl)
  have hgetPhase := h.getMutex.phase_congr hgetMutex Pc.getPhase_of_not_holds (by rw [hpc]; rfl)
  have hput := h.put
  rw [h.putPhase_eq hpc rfl] at hput
  exact advances_silent (h.step _ _ rfl hgetMutex hputMutex h.putPath (hputMutex.phase_self rfl)
    hput hgetPhase h.get h.nodup h.sent (fun b => Or.inl) (fun b hb => by cases hb)
    (fun b => Or.inl rfl) fun b hb => by cases hb) hpc rfl rfl rfl

omit [DecidableEq μ] in
/-- `queue->get_head = queue->put_head`, the list to take from being empty. -/
theorem swapHead (hpc : s.pc t = .swapHead) :
    Advances s t G P ({ s with getHead := s.putHead }.goto t (.swapLock s.getHead)) := by
  obtain ⟨hgetMutex, hputMutex⟩ := h.stays t (.swapLock s.getHead) (by rw [hpc]; rfl)
    (by rw [hpc]; rfl)
  have hputPhase := h.putMutex.phase_congr hputMutex Pc.putPhase_of_not_holds (by rw [hpc]; rfl)
  have hget := h.get
  rw [h.getPhase_eq hpc rfl] at hget
  obtain ⟨⟨hne, hpath⟩, rfl⟩ := hget
  exact advances_silent (h.step _ _ rfl hgetMutex hputMutex h.putPath hputPhase
    (putOk_congr rfl rfl rfl h.put) (hgetMutex.phase_self rfl)
    ⟨rfl, hne, path_nil.mp hpath, rfl⟩ h.nodup h.sent (fun b => Or.inl) (fun b hb => by cases hb)
    (fun b => Or.inl rfl) fun b hb => by cases hb) hpc rfl rfl rfl

omit [DecidableEq μ] in
/-- `queue->put_head = get_head`: all that has been put is now what will be taken. -/
theorem swapPut {head : Bool} {cnt : Nat} (hpc : s.pc t = .swapPut head cnt) :
    Advances s t G P ({ s with putHead := head }.goto t (.swapTail head cnt)) := by
  obtain ⟨hgetMutex, hputMutex⟩ := h.stays t (.swapTail head cnt) (by rw [hpc]; rfl)
    (by rw [hpc]; rfl)
  have hget := h.get
  rw [h.getPhase_eq hpc rfl] at hget
  obtain ⟨⟨heq, hne, hnull, rfl⟩, rfl⟩ := hget
  have hpath := h.putPath
  rw [← heq] at hpath
  refine Inv.advances (h.step P [] rfl hgetMutex hputMutex (path_nil.mpr hnull)
    (hputMutex.phase_self rfl) ⟨rfl, rfl⟩ (hgetMutex.phase_self rfl)
    ⟨⟨heq ▸ hne.symm, hpath⟩, rfl⟩ (by simpa using h.nodup) (h.sent.trans (by simp [State.goto]))
    (fun b hb => Or.inl (by simpa using hb)) (fun b hb => by cases hb)
    (fun b => Or.inl rfl) fun b hb => by cases hb) hpc rfl .swap ?_
  rw [List.append_nil]
  exact .silent

omit [DecidableEq μ] in
/-- `queue->put_tail = get_head`. -/
theorem swapTail {head : Bool} {cnt : Nat} (hpc : s.pc t = .swapTail head cnt) :
    Advances s t G P ({ s with putTail := .head head }.goto t (.swapZero cnt)) := by
  obtain ⟨hgetMutex, hputMutex⟩ := h.stays t (.swapZero cnt) (by rw [hpc]; rfl) (by rw [hpc]; rfl)
  have hgetPhase := h.getMutex.phase_congr hgetMutex Pc.getPhase_of_not_holds (by rw [hpc]; rfl)
  have hput := h.put
  rw [h.putPhase_eq hpc rfl] at hput
  obtain ⟨rfl, rfl⟩ := hput
  exact advances_silent (h.step _ _ rfl hgetMutex hputMutex h.putPath (hputMutex.phase_self rfl)
    ⟨rfl, rfl⟩ hgetPhase h.get h.nodup h.sent (fun b => Or.inl) (fun b hb => by cases hb)
    (fun b => Or.inl rfl) fun b hb => by cases hb) hpc rfl rfl rfl

omit [DecidableEq μ] in
/-- `queue->msg_cnt = 0`. -/
theorem swapZero {cnt : Nat} (hpc : s.pc t = .swapZero cnt) :
    Advances s t G P ({ s with msgCnt := 0 }.goto t (.swapUnlock cnt)) := by
  obtain ⟨hgetMutex, hputMutex⟩ := h.stays t (.swapUnlock cnt) (by rw [hpc]; rfl) (by rw [hpc]; rfl)
  have hgetPhase := h.getMutex.phase_congr hgetMutex Pc.getPhase_of_not_holds (by rw [hpc]; rfl)
  have hput := h.put
  rw [h.putPhase_eq hpc rfl] at hput
  obtain ⟨rfl, htail⟩ := hput
  exact advances_silent (h.step _ _ rfl hgetMutex hputMutex h.putPath (hputMutex.phase_self rfl)
    ⟨htail, rfl⟩ hgetPhase h.get h.nodup h.sent (fun b => Or.inl) (fun b hb => by cases hb)
    (fun b => Or.inl rfl) fun b hb => by cases hb) hpc rfl rfl rfl

/-- The first message is taken out. -/
theorem getTake (hpc : s.pc t = .getTake) (ha : s.mem (.head s.getHead) = some a) :
    Advances s t G P ({ s.store (.head s.getHead) (s.mem (.link a)) with
      received := s.received ++ [a] }.goto t (.getUnlock (some a))) := by
  obtain ⟨hgetMutex, hputMutex⟩ := h.stays t (.getUnlock (some a)) (by rw [hpc]; rfl)
    (by rw [hpc]; rfl)
  have hputPhase := h.putMutex.phase_congr hputMutex Pc.putPhase_of_not_holds (by rw [hpc]; rfl)
  have hget := h.get
  rw [h.getPhase_eq hpc rfl] at hget
  obtain ⟨⟨hne, hpath⟩, -⟩ := hget
  obtain ⟨G, rfl⟩ := hpath.eq_cons ha
  have hnodup := List.nodup_cons.mp h.nodup
  refine Inv.advances (h.step G P rfl hgetMutex hputMutex ?_ hputPhase
    (putOk_congr rfl rfl rfl h.put) (hgetMutex.phase_self rfl) ⟨hne, ?_⟩ hnodup.2 ?_
    (fun b hb => Or.inl (List.mem_cons_of_mem a hb)) (fun b hb => ?_)
    (fun b => Or.inl (by simp [State.goto, State.store])) fun b hb => by cases hb)
    hpc rfl .take (.effect (.get rfl))
  · exact path_store h.putPath fun p _ heq => hne (Slot.at_eq_head.mp heq).2.symm
  · refine (path_cons.mp hpath).2.redirect ?_ fun b hb => ?_
    · exact (succ_store (s := s)).trans (if_pos rfl)
    · have hnode : (s.store (.head s.getHead) (s.mem (.link a))).succ s.getHead (.node b) =
          s.succ s.getHead (.node b) := by
        rw [succ_store, if_neg (by simp)]
      exact hnode
  · simp [State.goto, State.store, h.sent]
  · obtain rfl := Option.some_inj.mp hb
    refine ⟨hnodup.1, fun t' _ ha' => h.own t' _ ha' List.mem_cons_self⟩

end Inv

end Hplsp.Msgqueue
