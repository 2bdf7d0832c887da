import Hplsp.LoggerInv

/-! Every step of a producer, of the I/O thread and of `Shutdown` keeps the invariant. -/

namespace Hplsp

open Outcome

namespace Logger

variable {Tid : Type} [LinearOrder Tid] {s s' : Logger Tid} {t t' : Tid} {a fresh : Addr}
  {r : Record} {info info' : BufferInfo Tid} {act : Act Tid}

section Waiting

/-- Only its owner's entries wait in a buffer of the map. -/
theorem Inv.of_heldAt_ne (h : s.Inv) {p : Tid × Addr} (hp : p ∈ s.buffers) (hne : p.1 ≠ t) :
    Tagged.of t (s.heldAt (p.2, 0)) = [] := by
  obtain ⟨info, rs, hholds⟩ := h.entry p.1 p.2 hp
  exact hholds.of_heldAt_ne (FlushPc.length_unfinished _) hne

theorem Inv.of_waitingBuffers (h : s.Inv) (hmem : (t, a) ∈ s.buffers) :
    Tagged.of t s.waitingBuffers = Tagged.of t (s.heldAt (a, 0)) := by
  rw [waitingBuffers, Tagged.of_flatMap]
  exact Tagged.flatMap_of_mem hmem h.keys fun p hp hne => h.of_heldAt_ne hp hne

theorem Inv.notMem_tmpBufs (h : s.Inv) (hmem : (t, a) ∈ s.buffers) : a ∉ s.io.tmpBufs := by
  intro ha
  exact (List.nodup_append.mp h.addrs).2.2 a ha a (List.mem_map.mpr ⟨(t, a), hmem, rfl⟩) rfl

/-- An address has one key. -/
theorem Inv.key_unique (h : s.Inv) (hmem : (t, a) ∈ s.buffers) (hmem' : (t', a) ∈ s.buffers) :
    t' = t :=
  congrArg Prod.fst
    (List.inj_on_of_nodup_map (List.nodup_append.mp h.addrs).2.1 hmem' hmem rfl)

/-- A key has one address. -/
theorem Inv.addr_unique (h : s.Inv) {a' : Addr} (hmem : (t, a) ∈ s.buffers)
    (hmem' : (t, a') ∈ s.buffers) : a' = a :=
  congrArg Prod.snd (List.inj_on_of_nodup_map h.keys hmem' hmem rfl)

end Waiting

section Producer

/-- A step that moves a thread without touching what it owns. -/
theorem Inv.setPc_quiet (h : s.Inv) {pc : FlushPc} (hinfo : pc.info = (s.pc t).info)
    (hunfinished : pc.unfinished = (s.pc t).unfinished)
    (hpending : pc.pending = (s.pc t).pending) : (s.setPc t pc).Inv := by
  have hpc : ∀ t', ((s.setPc t pc).pc t').info = (s.pc t').info ∧
      ((s.setPc t pc).pc t').unfinished = (s.pc t').unfinished ∧
      ((s.setPc t pc).pc t').pending = (s.pc t').pending := by
    intro t'
    by_cases heq : t' = t
    · subst heq
      simp [setPc, hinfo, hunfinished, hpending]
    · simp [setPc, heq]
  refine ⟨h.addrs, h.keys, ?_, ?_, h.live, ?_, h.printed, ?_, ?_, h.fault⟩
  · intro t' a ha
    rw [(hpc t').1] at ha
    exact h.filling t' a ha
  · intro t' a ha
    rw [(hpc t').1, (hpc t').2.1, (hpc t').2.2]
    obtain ⟨info, rs, hold⟩ := h.entry t' a ha
    exact ⟨info, rs, hold.of_heap rfl⟩
  · intro p hp
    obtain ⟨info, rs, hold⟩ := h.moved p hp
    exact ⟨info, rs, hold.of_heap rfl⟩
  · intro t' ht'
    rw [(hpc t').1] at ht'
    exact h.printedLast t' ht'
  · intro t'
    rw [(hpc t').2.2]
    exact h.history t'

section Touch

variable {pc : FlushPc} {flushed : List (Tid × Entry)} {rs : List Record}

/-- `t` has gone on to `pc`, and left `info` at `a`. -/
def touched (s : Logger Tid) (t : Tid) (a : Addr) (info : BufferInfo Tid) (pc : FlushPc)
    (flushed : List (Tid × Entry)) : Logger Tid :=
  ({ s with heap := Function.update s.heap a (some info), flushed := flushed } : Logger Tid).setPc
    t pc

@[simp] theorem touched_buffers : (s.touched t a info pc flushed).buffers = s.buffers := rfl

@[simp] theorem touched_heap : (s.touched t a info pc flushed).heap a = some info := by
  simp [touched, setPc]

theorem touched_heap_ne {a' : Addr} (hne : a' ≠ a) :
    (s.touched t a info pc flushed).heap a' = s.heap a' := by
  simp [touched, setPc, hne]

@[simp] theorem touched_pc : (s.touched t a info pc flushed).pc t = pc := by
  simp [touched, setPc]

theorem touched_pc_ne (hne : t' ≠ t) : (s.touched t a info pc flushed).pc t' = s.pc t' := by
  simp [touched, setPc, hne]

/-- What a step on a buffer of the map leaves of those moved out. -/
theorem Inv.touched_tmpBufs (h : s.Inv) (hmem : (t, a) ∈ s.buffers) {a' : Addr}
    (ha' : a' ∈ s.io.tmpBufs) : (s.touched t a info pc flushed).heap a' = s.heap a' := by
  refine touched_heap_ne fun heq => h.notMem_tmpBufs hmem ?_
  rwa [← heq]

theorem Inv.touched_places (h : s.Inv) (hmem : (t, a) ∈ s.buffers) :
    ∀ p ∈ s.io.places, (s.touched t a info pc flushed).heap p.1 = s.heap p.1 :=
  fun _ hp => h.touched_tmpBufs hmem (UpdatePc.mem_tmpBufs_of_mem_places hp)

theorem Inv.touched_entry (h : s.Inv) (hmem : (t, a) ∈ s.buffers)
    (hholds : (s.touched t a info pc flushed).Holds a 0 t pc.info.isSome (rs ++ pc.pending)
      pc.unfinished info) {a' : Addr} (hmem' : (t', a') ∈ s.buffers) :
    ∃ info' rs', (s.touched t a info pc flushed).Holds a' 0 t'
      ((s.touched t a info pc flushed).pc t').info.isSome
      (rs' ++ ((s.touched t a info pc flushed).pc t').pending)
      ((s.touched t a info pc flushed).pc t').unfinished info' := by
  by_cases heq : a' = a
  · obtain rfl := h.key_unique hmem (heq ▸ hmem')
    subst heq
    rw [touched_pc]
    exact ⟨info, rs, hholds⟩
  · have hne : t' ≠ t := by
      rintro rfl
      exact heq (h.addr_unique hmem hmem')
    obtain ⟨info', rs', hold⟩ := h.entry t' a' hmem'
    rw [touched_pc_ne hne]
    exact ⟨info', rs', hold.of_heap (touched_heap_ne heq)⟩

theorem Inv.touched_heldAt_ne (h : s.Inv) (hmem : (t, a) ∈ s.buffers)
    (hholds : (s.touched t a info pc flushed).Holds a 0 t pc.info.isSome (rs ++ pc.pending)
      pc.unfinished info) {p : Tid × Addr} (hp : p ∈ s.buffers) (hne : p.1 ≠ t') :
    Tagged.of t' ((s.touched t a info pc flushed).heldAt (p.2, 0)) = [] := by
  obtain ⟨info', rs', hold⟩ := h.touched_entry hmem hholds hp
  exact hold.of_heldAt_ne (FlushPc.length_unfinished _) hne

theorem Inv.touched_waiting_self (h : s.Inv) (hmem : (t, a) ∈ s.buffers)
    (hholds : (s.touched t a info pc flushed).Holds a 0 t pc.info.isSome (rs ++ pc.pending)
      pc.unfinished info) :
    Tagged.of t (s.touched t a info pc flushed).waitingBuffers =
      (rs ++ pc.pending).map Record.entry := by
  rw [waitingBuffers, touched_buffers, Tagged.of_flatMap, Tagged.flatMap_of_mem hmem h.keys
    fun p hp hne => h.touched_heldAt_ne hmem hholds hp hne]
  exact hholds.of_heldAt_self (FlushPc.length_unfinished _)

theorem Inv.touched_waiting_ne (h : s.Inv) (hmem : (t, a) ∈ s.buffers)
    (hholds : (s.touched t a info pc flushed).Holds a 0 t pc.info.isSome (rs ++ pc.pending)
      pc.unfinished info) (hne : t' ≠ t) :
    Tagged.of t' (s.touched t a info pc flushed).waitingBuffers =
      Tagged.of t' s.waitingBuffers := by
  rw [waitingBuffers, waitingBuffers, Tagged.of_flatMap, Tagged.of_flatMap]
  refine List.flatMap_congr fun p hp => ?_
  by_cases hpa : p.2 = a
  · -- the buffer of `t` holds nothing of `t'`, before and after
    have hkey : p.1 = t := h.key_unique hmem (hpa ▸ hp)
    have hpt : p.1 ≠ t' := by
      rw [hkey]
      exact Ne.symm hne
    rw [h.touched_heldAt_ne hmem hholds hp hpt, h.of_heldAt_ne hp hpt]
  · rw [heldAt_congr (touched_heap_ne hpa)]

/-- A step of the thread `t` on the buffer under its own key. -/
theorem Inv.touch (h : s.Inv) (hmem : (t, a) ∈ s.buffers) (pc : FlushPc)
    (flushed : List (Tid × Entry)) (rs : List Record)
    (hinfo : ∀ a', pc.info = some a' → a' = a) (howner : info'.owner = t)
    (hinuse : info'.inuse = pc.info.isSome) (hvalid : info'.buffer.Valid)
    (hcontents : info'.buffer.contents = Record.frames (rs ++ pc.pending) ++ pc.unfinished)
    (hprinted : pc.info.isSome = true → Tagged.of t s.printed = [])
    (hothers : ∀ t', t' ≠ t → Tagged.of t' flushed = Tagged.of t' s.flushed)
    (hhistory : Tagged.of t s.written ++ Tagged.of t s.waitingTmp ++
      (rs ++ pc.pending).map Record.entry ++ Tagged.of t s.printed =
        Tagged.of t flushed ++ pc.pending.map Record.entry) :
    (s.touched t a info' pc flushed).Inv := by
  have hholds : (s.touched t a info' pc flushed).Holds a 0 t pc.info.isSome (rs ++ pc.pending)
      pc.unfinished info' := ⟨touched_heap, howner, hinuse, hvalid, [], rfl, hcontents⟩
  refine ⟨h.addrs, h.keys, ?_, fun t' a' hmem' => h.touched_entry hmem hholds hmem', ?_, ?_,
    h.printed, ?_, ?_, h.fault⟩
  · intro t' a' ha'
    by_cases heq : t' = t
    · subst heq
      rw [touched_pc] at ha'
      rwa [hinfo a' ha']
    · rw [touched_pc_ne heq] at ha'
      exact h.filling t' a' ha'
  · intro a' ha'
    rw [h.touched_tmpBufs hmem ha']
    exact h.live a' ha'
  · intro p hp
    obtain ⟨info, rs, hold⟩ := h.moved p hp
    exact ⟨info, rs, hold.of_heap (h.touched_places hmem p hp)⟩
  · intro t' ht'
    by_cases heq : t' = t
    · subst heq
      rw [touched_pc] at ht'
      exact hprinted ht'
    · rw [touched_pc_ne heq] at ht'
      exact h.printedLast t' ht'
  · intro t'
    have htmp : (s.touched t a info' pc flushed).waitingTmp = s.waitingTmp :=
      waitingTmp_congr rfl (h.touched_places hmem)
    rw [htmp]
    by_cases heq : t' = t
    · subst heq
      rw [h.touched_waiting_self hmem hholds, touched_pc]
      exact hhistory
    · rw [h.touched_waiting_ne hmem hholds heq, touched_pc_ne heq]
      exact (h.history t').trans (congrArg (· ++ _) (hothers t' heq).symm)

end Touch

section Insert

/-- `buffers_` has got a new, empty `BufferInfo` for `t`. -/
def inserted (s : Logger Tid) (t : Tid) (fresh : Addr) : Logger Tid :=
  { s with
    heap := Function.update s.heap fresh (some ⟨false, Buffer.new, t⟩)
    buffers := s.buffers.orderedInsert (fun p q => p.1 ≤ q.1) (t, fresh) }

@[simp] theorem inserted_heap :
    (s.inserted t fresh).heap fresh = some ⟨false, Buffer.new, t⟩ := by
  simp [inserted]

theorem inserted_heap_ne (hne : a ≠ fresh) : (s.inserted t fresh).heap a = s.heap a := by
  simp [inserted, hne]

theorem inserted_perm : (s.inserted t fresh).buffers.Perm ((t, fresh) :: s.buffers) :=
  List.perm_orderedInsert _ _ _

/-- A fresh address is in use nowhere, since everything in use is allocated. -/
theorem Inv.ne_fresh_of_tmpBufs (h : s.Inv) (hfresh : s.heap fresh = none)
    (ha : a ∈ s.io.tmpBufs) : a ≠ fresh := by
  rintro rfl
  exact h.live a ha hfresh

theorem Inv.ne_fresh_of_buffers (h : s.Inv) (hfresh : s.heap fresh = none) {p : Tid × Addr}
    (hp : p ∈ s.buffers) : p.2 ≠ fresh := by
  intro heq
  obtain ⟨info, rs, hold⟩ := h.entry p.1 p.2 hp
  rw [heq] at hold
  exact absurd (hfresh.symm.trans hold.heap) (by simp)

theorem Inv.inserted_places (h : s.Inv) (hfresh : s.heap fresh = none) :
    ∀ p ∈ s.io.places, (s.inserted t fresh).heap p.1 = s.heap p.1 :=
  fun _ hp => inserted_heap_ne
    (h.ne_fresh_of_tmpBufs hfresh (UpdatePc.mem_tmpBufs_of_mem_places hp))

/-- The new `BufferInfo` holds nothing. -/
theorem inserted_holds (hidle : (s.pc t).info.isSome = false) :
    (s.inserted t fresh).Holds fresh 0 t (s.pc t).info.isSome ([] ++ (s.pc t).pending)
      (s.pc t).unfinished ⟨false, Buffer.new, t⟩ := by
  rw [hidle, FlushPc.pending_of_info hidle, FlushPc.unfinished_of_info hidle]
  exact ⟨inserted_heap, rfl, rfl, Buffer.valid_new, [], rfl, Buffer.contents_new⟩

theorem Inv.inserted_waiting (h : s.Inv) (hfresh : s.heap fresh = none)
    (hidle : (s.pc t).info.isSome = false) :
    (s.inserted t fresh).waitingBuffers = s.waitingBuffers := by
  have hempty : (s.inserted t fresh).heldAt (fresh, 0) = [] := by
    rw [(inserted_holds hidle).heldAt_eq (FlushPc.length_unfinished _),
      FlushPc.pending_of_info hidle]
    rfl
  have hsame : ∀ p ∈ s.buffers, (s.inserted t fresh).heldAt (p.2, 0) = s.heldAt (p.2, 0) :=
    fun p hp => heldAt_congr (inserted_heap_ne (h.ne_fresh_of_buffers hfresh hp))
  have hbuffers : (s.inserted t fresh).buffers =
      s.buffers.orderedInsert (fun p q => p.1 ≤ q.1) (t, fresh) := rfl
  have hsplit := List.takeWhile_append_dropWhile
    (p := fun b : Tid × Addr => decide ¬ (t, fresh).1 ≤ b.1) (l := s.buffers)
  rw [waitingBuffers, waitingBuffers, hbuffers, List.orderedInsert_eq_take_drop,
    List.flatMap_append, List.flatMap_cons, hempty, List.nil_append, ← List.flatMap_append, hsplit]
  exact List.flatMap_congr hsame

/-- A new, empty `BufferInfo` under a key that the map does not have. -/
theorem Inv.insert (h : s.Inv) (hkey : ∀ a, (t, a) ∉ s.buffers) (hfresh : s.heap fresh = none)
    (hidle : (s.pc t).info.isSome = false) : (s.inserted t fresh).Inv := by
  have hperm : (s.inserted t fresh).buffers.Perm ((t, fresh) :: s.buffers) := inserted_perm
  have htmp : (s.inserted t fresh).waitingTmp = s.waitingTmp :=
    waitingTmp_congr rfl (h.inserted_places hfresh)
  refine ⟨?_, ?_, ?_, ?_, ?_, ?_, h.printed, h.printedLast, ?_, h.fault⟩
  · rw [((hperm.map Prod.snd).append_left _).nodup_iff, List.map_cons,
      List.perm_middle.nodup_iff, List.nodup_cons]
    refine ⟨?_, h.addrs⟩
    rw [List.mem_append, List.mem_map]
    rintro (hmem | ⟨p, hp, hpa⟩)
    · exact h.ne_fresh_of_tmpBufs hfresh hmem rfl
    · exact h.ne_fresh_of_buffers hfresh hp hpa
  · rw [(hperm.map Prod.fst).nodup_iff, List.map_cons, List.nodup_cons]
    refine ⟨?_, h.keys⟩
    rw [List.mem_map]
    rintro ⟨⟨t', a⟩, hp, rfl⟩
    exact hkey a hp
  · intro t' a ha
    exact hperm.mem_iff.mpr (List.mem_cons_of_mem _ (h.filling t' a ha))
  · intro t' a hmem
    rcases List.mem_cons.mp (hperm.mem_iff.mp hmem) with heq | hold
    · cases heq
      exact ⟨_, [], inserted_holds hidle⟩
    · obtain ⟨info, rs, hold'⟩ := h.entry t' a hold
      exact ⟨info, rs, hold'.of_heap (inserted_heap_ne (h.ne_fresh_of_buffers hfresh hold))⟩
  · intro a ha
    rw [inserted_heap_ne (h.ne_fresh_of_tmpBufs hfresh ha)]
    exact h.live a ha
  · intro p hp
    obtain ⟨info, rs, hold⟩ := h.moved p hp
    exact ⟨info, rs, hold.of_heap (h.inserted_places hfresh p hp)⟩
  · intro t'
    rw [h.inserted_waiting hfresh hidle, htmp]
    exact h.history t'

end Insert

theorem Inv.crash (h : s.Inv) {e : Fault} (he : e.ofPushData = true) : (s.crash e).Inv := by
  refine ⟨h.addrs, h.keys, h.filling, ?_, h.live, ?_, h.printed, h.printedLast, h.history, ?_⟩
  · intro t a hmem
    obtain ⟨info, rs, hold⟩ := h.entry t a hmem
    exact ⟨info, rs, hold.of_heap rfl⟩
  · intro p hp
    obtain ⟨info, rs, hold⟩ := h.moved p hp
    exact ⟨info, rs, hold.of_heap rfl⟩
  · intro e' he'
    cases he'
    exact he

theorem Inv.acquire (h : s.Inv) (hidle : (s.pc t).info.isSome = false) (hshut : s.shutdown = false)
    (hmem : (t, a) ∈ s.buffers) (hheap : s.heap a = some info) : (s.acquire t r a info).Inv := by
  obtain ⟨info', rs, hold⟩ := h.entry t a hmem
  obtain rfl : info = info' := Option.some_inj.mp (hheap.symm.trans hold.heap)
  have hself := hold.of_heldAt_self (FlushPc.length_unfinished _)
  have hprinted : s.printed = [] := by
    by_contra hne
    exact absurd (h.printed hne) (by simp [hshut])
  obtain ⟨pre, hpre, hcontents⟩ := hold.contents
  obtain rfl := List.length_eq_zero_iff.mp hpre.symm
  rw [FlushPc.pending_of_info hidle, List.append_nil] at hself
  rw [FlushPc.pending_of_info hidle, FlushPc.unfinished_of_info hidle, List.append_nil,
    List.append_nil, List.nil_append] at hcontents
  refine h.touch hmem _ s.flushed rs ?_ hold.owner rfl hold.valid ?_ (fun _ => by simp [hprinted])
    (fun _ _ => rfl) ?_
  · rintro a' ⟨⟩
    rfl
  · simpa [FlushPc.pending, FlushPc.unfinished] using hcontents
  · have hhistory := h.history t
    rw [h.of_waitingBuffers hmem, hself, FlushPc.pending_of_info hidle] at hhistory
    simpa [FlushPc.pending] using hhistory

/-- `Flush` on a logger that is shut down prints the line itself. -/
theorem Inv.print (h : s.Inv) (hshut : s.shutdown = true) (hpc : s.pc t = .ready r) :
    ({ s with
      printed := s.printed ++ [(t, r.entry)]
      flushed := s.flushed ++ [(t, r.entry)] }.setPc t .idle : Logger Tid).Inv := by
  have hquiet : (s.setPc t .idle).Inv :=
    h.setPc_quiet (by rw [hpc]; rfl) (by rw [hpc]; rfl) (by rw [hpc]; rfl)
  refine ⟨hquiet.addrs, hquiet.keys, hquiet.filling, ?_, hquiet.live, ?_, fun _ => hshut, ?_, ?_,
    hquiet.fault⟩
  · intro t' a hmem
    obtain ⟨info, rs, hold⟩ := hquiet.entry t' a hmem
    exact ⟨info, rs, hold.of_heap rfl⟩
  · intro p hp
    obtain ⟨info, rs, hold⟩ := hquiet.moved p hp
    exact ⟨info, rs, hold.of_heap rfl⟩
  · intro t' ht'
    have hne : t ≠ t' := by
      rintro rfl
      simp [setPc, FlushPc.info] at ht'
    have hlast := hquiet.printedLast t' ht'
    have hsame : Tagged.of t' (s.printed ++ [(t, r.entry)]) = Tagged.of t' s.printed := by
      simp [Tagged.of_cons, hne]
    exact hsame.trans hlast
  · intro t'
    have hhistory : Tagged.of t' s.written ++ Tagged.of t' s.waitingTmp ++
        Tagged.of t' s.waitingBuffers ++ Tagged.of t' s.printed =
          Tagged.of t' s.flushed ++ ((s.setPc t .idle).pc t').pending.map Record.entry :=
      hquiet.history t'
    change Tagged.of t' s.written ++ Tagged.of t' s.waitingTmp ++ Tagged.of t' s.waitingBuffers ++
      Tagged.of t' (s.printed ++ [(t, r.entry)]) = Tagged.of t' (s.flushed ++ [(t, r.entry)]) ++
        ((s.setPc t .idle).pc t').pending.map Record.entry
    rw [Tagged.of_append, Tagged.of_append, ← List.append_assoc, hhistory]
    by_cases heq : t = t'
    · subst heq
      simp [setPc, FlushPc.pending]
    · simp [Tagged.of_cons, heq]

theorem Inv.lockFlush (h : s.Inv) (hpc : s.pc t = .ready r) (hfresh : s.heap fresh = none) :
    (s.lockFlush t r fresh).Inv := by
  have hidle : (s.pc t).info.isSome = false := by rw [hpc]; rfl
  rw [Logger.lockFlush]
  split
  · rename_i hshut
    exact h.print hshut hpc
  · rename_i hshut
    rw [Bool.not_eq_true] at hshut
    split
    · rename_i a hlookup
      have hmem : (t, a) ∈ s.buffers := by
        obtain ⟨before, after, hsplit, -⟩ := List.lookup_eq_some_iff.mp hlookup
        simp [hsplit]
      obtain ⟨info, rs, hold⟩ := h.entry t a hmem
      have hinuse : info.inuse = false := hold.inuse.trans hidle
      rw [hold.heap]
      simp only [hinuse, Bool.false_eq_true, if_false]
      exact h.acquire hidle hshut hmem hold.heap
    · rename_i hlookup
      have hkey : ∀ a, (t, a) ∉ s.buffers := by
        intro a hmem
        have hne := List.lookup_eq_none_iff.mp hlookup (t, a) hmem
        simp at hne
      have hmem : (t, fresh) ∈ (s.inserted t fresh).buffers :=
        inserted_perm.mem_iff.mpr List.mem_cons_self
      have hacquire : ((s.inserted t fresh).acquire t r fresh ⟨false, Buffer.new, t⟩).Inv :=
        (h.insert hkey hfresh hidle).acquire hidle hshut hmem inserted_heap
      simpa only [Logger.acquire, inserted, Function.update_idem] using hacquire

/-- One push: the bytes go behind what the thread has queued so far. -/
theorem Inv.push (h : s.Inv) {bytes : List UInt8} {next : FlushPc}
    (hinfo : (s.pc t).info = some a) (hnext : next.info = some a)
    (hpending : (s.pc t).pending = [])
    (hframe : (s.pc t).unfinished ++ bytes = Record.frames next.pending ++ next.unfinished) :
    (s.push t a bytes next).Inv := by
  have hmem := h.filling t a hinfo
  obtain ⟨info, rs, hold⟩ := h.entry t a hmem
  have hself := hold.of_heldAt_self (FlushPc.length_unfinished _)
  have hprinted := h.printedLast t (by rw [hinfo]; rfl)
  obtain ⟨pre, hpre, hcontents⟩ := hold.contents
  obtain rfl := List.length_eq_zero_iff.mp hpre.symm
  have hhistory := h.history t
  rw [h.of_waitingBuffers hmem, hself, hpending, hprinted, List.map_nil, List.append_nil,
    List.append_nil, List.append_nil] at hhistory
  rw [hpending, List.append_nil, List.nil_append] at hcontents
  rw [Logger.push, hold.heap]
  dsimp only
  split
  · rename_i e hpush
    exact h.crash (Buffer.pushData_fault.of_error hpush)
  · rename_i b n hpush
    obtain ⟨hvalid, hcontents', -⟩ := Buffer.pushData_ok hold.valid hpush
    refine h.touch hmem next s.flushed rs ?_ hold.owner ?_ hvalid ?_ (fun _ => hprinted)
      (fun _ _ => rfl) ?_
    · intro a' ha'
      exact (Option.some_inj.mp (hnext.symm.trans ha')).symm
    · rw [hnext]
      rw [hinfo] at hold
      exact hold.inuse
    · change b.contents = _
      rw [hcontents', hcontents, List.append_assoc, hframe]
      simp [Record.frames]
    · rw [hprinted, List.append_nil, List.map_append, ← List.append_assoc, hhistory]

/-- `inuse_ = false`: the line is queued and its `Flush` over. -/
theorem Inv.release (h : s.Inv) (hpc : s.pc t = .release r a) : (s.release t r a).Inv := by
  have hmem := h.filling t a (by rw [hpc]; rfl)
  obtain ⟨info, rs, hold⟩ := h.entry t a hmem
  have hself := hold.of_heldAt_self (FlushPc.length_unfinished _)
  have hprinted := h.printedLast t (by rw [hpc]; rfl)
  obtain ⟨pre, hpre, hcontents⟩ := hold.contents
  obtain rfl := List.length_eq_zero_iff.mp hpre.symm
  have hhistory := h.history t
  rw [h.of_waitingBuffers hmem, hself, hprinted, List.append_nil, hpc] at hhistory
  rw [hpc, List.nil_append] at hcontents
  rw [Logger.release, hold.heap]
  dsimp only
  generalize hnext : (if kFlushThreshold < info.buffer.readableSize then FlushPc.addBusyLog
    else FlushPc.idle) = next
  obtain ⟨hinfo, hunfinished, hpending⟩ :
      next.info = none ∧ next.unfinished = [] ∧ next.pending = [] := by
    rw [← hnext]
    split <;> exact ⟨rfl, rfl, rfl⟩
  refine h.touch hmem next _ (rs ++ [r]) ?_ hold.owner ?_ hold.valid ?_ (fun _ => hprinted) ?_ ?_
  · intro a' ha'
    rw [hinfo] at ha'
    cases ha'
  · rw [hinfo]
    rfl
  · rw [hpending, hunfinished]
    simpa [FlushPc.pending, FlushPc.unfinished] using hcontents
  · intro t' hne
    simp [Tagged.of_cons, Ne.symm hne]
  · rw [hprinted, hpending, List.append_nil, List.append_nil, List.map_nil, List.append_nil,
      Tagged.of_append]
    exact hhistory.trans (by simp [Tagged.of_cons, FlushPc.pending])

end Producer

section IoThread

/-- The critical section of `Update`: the idle buffers leave the map, with all that is in them. -/
theorem Inv.lockUpdate (h : s.Inv) (hio : s.io = .idle) : s.lockUpdate.Inv := by
  have hsplit := List.filter_append_perm (fun p : Tid × Addr => s.inuseAt p.2) s.buffers
  have hinuse : ∀ t a, (t, a) ∈ s.buffers → s.inuseAt a = (s.pc t).info.isSome := by
    intro t a hmem
    obtain ⟨info, rs, hold⟩ := h.entry t a hmem
    rw [inuseAt, hold.heap]
    exact hold.inuse
  have hmoved : ∀ p ∈ s.buffers.filter (fun p => !s.inuseAt p.2), ∃ info rs,
      s.Holds p.2 0 p.1 false rs [] info := by
    intro p hp
    obtain ⟨hmem, hidle⟩ := List.mem_filter.mp hp
    obtain ⟨info, rs, hold⟩ := h.entry p.1 p.2 hmem
    rw [hinuse p.1 p.2 hmem, Bool.not_eq_true'] at hidle
    rw [hidle, FlushPc.pending_of_info hidle, FlushPc.unfinished_of_info hidle,
      List.append_nil] at hold
    exact ⟨info, rs, hold⟩
  refine ⟨?_, ?_, ?_, ?_, ?_, ?_, h.printed, h.printedLast, ?_, h.fault⟩
  · have haddrs := h.addrs
    rw [hio] at haddrs
    refine (List.Perm.nodup_iff ?_).mp haddrs
    refine (hsplit.symm.trans List.perm_append_comm).map Prod.snd |>.trans ?_
    rw [List.map_append]
    exact List.Perm.refl _
  · exact h.keys.sublist (List.filter_sublist.map Prod.fst)
  · intro t a ha
    have hmem := h.filling t a ha
    refine List.mem_filter.mpr ⟨hmem, ?_⟩
    exact (hinuse t a hmem).trans (Option.isSome_iff_exists.mpr ⟨a, ha⟩)
  · intro t a hmem
    obtain ⟨info, rs, hold⟩ := h.entry t a (List.mem_of_mem_filter hmem)
    exact ⟨info, rs, hold.of_heap rfl⟩
  · intro a ha
    obtain ⟨p, hp, rfl⟩ := List.mem_map.mp ha
    obtain ⟨info, rs, hold⟩ := hmoved p hp
    intro hnone
    exact absurd (hnone.symm.trans hold.heap) (by simp)
  · intro p hp
    rw [Logger.lockUpdate, UpdatePc.places_zero, List.map_map] at hp
    obtain ⟨q, hq, rfl⟩ := List.mem_map.mp hp
    obtain ⟨info, rs, hold⟩ := hmoved q hq
    refine ⟨info, rs, hold.heap, rfl, hold.inuse, hold.valid, hold.contents⟩
  · intro t
    have htmp : s.waitingTmp = [] := by rw [waitingTmp, hio]; rfl
    have hhistory := h.history t
    have hparts : Tagged.of t s.lockUpdate.waitingTmp ++ Tagged.of t s.lockUpdate.waitingBuffers =
        Tagged.of t s.waitingBuffers := by
      have hplaces : s.lockUpdate.waitingTmp =
          (s.buffers.filter fun p => !s.inuseAt p.2).flatMap fun p => s.heldAt (p.2, 0) := by
        rw [waitingTmp, Logger.lockUpdate, UpdatePc.places_zero, List.map_map, List.flatMap_map]
        rfl
      rw [hplaces, waitingBuffers, waitingBuffers, Tagged.of_flatMap, Tagged.of_flatMap,
        Tagged.of_flatMap]
      exact Tagged.flatMap_partition (fun p => s.inuseAt p.2) h.keys
        fun p hp hne => h.of_heldAt_ne hp hne
    rw [htmp, Tagged.of_nil, List.append_nil, ← hparts] at hhistory
    rw [← List.append_assoc] at hhistory
    exact hhistory

/-- A step of the I/O thread that leaves the heap and the map alone. -/
theorem Inv.advance (h : s.Inv) {io : UpdatePc} {written : List (Tid × Entry)}
    (htmp : io.tmpBufs = s.io.tmpBufs)
    (hmoved : ∀ p ∈ io.places, ∃ info rs, s.Holds p.1 p.2 info.owner false rs [] info)
    (hwritten : written ++ io.places.flatMap s.heldAt = s.written ++ s.waitingTmp) :
    ({ s with io := io, written := written } : Logger Tid).Inv := by
  refine ⟨by rw [htmp]; exact h.addrs, h.keys, h.filling, ?_, by rw [htmp]; exact h.live, ?_,
    h.printed, h.printedLast, ?_, h.fault⟩
  · intro t a hmem
    obtain ⟨info, rs, hold⟩ := h.entry t a hmem
    exact ⟨info, rs, hold.of_heap rfl⟩
  · intro p hp
    obtain ⟨info, rs, hold⟩ := hmoved p hp
    exact ⟨info, rs, hold.of_heap rfl⟩
  · intro t
    have hparts := congrArg (Tagged.of t) hwritten
    rw [Tagged.of_append, Tagged.of_append] at hparts
    have hhistory := h.history t
    rw [← hparts] at hhistory
    exact hhistory

/-- One round of `_Log`: the next entry of the buffer is written, or the buffer is finished. -/
theorem Inv.roundUpdate (h : s.Inv) {todo : Bool} {done rest : List Addr} {nOffset : Nat}
    (hio : s.io = .log todo done (a :: rest) nOffset) :
    (s.roundUpdate todo done a rest nOffset).Inv := by
  have hplaces : s.io.places = (a, nOffset) :: rest.map fun a => (a, 0) := by rw [hio]; rfl
  have hrest : ∀ p ∈ rest.map fun a => (a, 0), ∃ info rs,
      s.Holds p.1 p.2 info.owner false rs [] info :=
    fun p hp => h.moved p (by rw [hplaces]; exact List.mem_cons_of_mem _ hp)
  obtain ⟨info, rs, hold⟩ := h.moved (a, nOffset) (by rw [hplaces]; exact List.mem_cons_self)
  have hwaiting : s.waitingTmp = rs.map (fun r => (info.owner, r.entry)) ++
      (rest.map fun a => (a, 0)).flatMap s.heldAt := by
    rw [waitingTmp, hplaces, List.flatMap_cons, hold.heldAt_eq (Nat.zero_le _)]
  have hlt := hold.length_lt
  have hread := hold.valid.length_contents
  obtain ⟨pre, rfl, hcontents⟩ := hold.contents
  rw [Logger.roundUpdate, hold.heap]
  dsimp only
  cases rs with
  | nil =>
    simp only [Record.frames, List.flatMap_nil, List.append_nil] at hcontents
    have hround : logRound (pre ++ []) pre.length = .ok .done :=
      logRound_tail (by simpa [← hcontents] using hlt) (Nat.zero_le _)
    rw [List.append_nil] at hround
    rw [hcontents, hround]
    dsimp only
    rw [if_pos (by rw [← hread, hcontents])]
    refine h.advance ?_ ?_ ?_
    · rw [hio]
      simp [UpdatePc.tmpBufs]
    · rw [UpdatePc.places_zero]
      exact hrest
    · rw [UpdatePc.places_zero, hwaiting]
      rfl
  | cons r rs =>
    have hframes : info.buffer.contents = pre ++ r.frame ++ Record.frames rs := by
      simpa [Record.frames] using hcontents
    have hround := @logRound_frame pre (Record.frames rs) r (by rw [← hframes]; omega)
    have htext : Cells.slice (pre ++ r.frame ++ Record.frames rs) (pre.length + minLogSize)
        r.text.length = r.text := by
      rw [Record.frame, ← List.append_assoc pre]
      exact Cells.slice_middle (by simp [minLogSize]) rfl
    have hnext : s.Holds a (pre.length + r.frame.length) info.owner false rs [] info :=
      ⟨hold.heap, rfl, hold.inuse, hold.valid, pre ++ r.frame, by simp, by simpa using hframes⟩
    rw [hframes, hround]
    dsimp only
    rw [if_neg (by simpa using r.text_ne), htext]
    refine h.advance ?_ ?_ ?_
    · rw [hio]
      rfl
    · intro p hp
      rcases List.mem_cons.mp hp with rfl | hp
      · exact ⟨info, rs, hnext⟩
      · exact hrest p hp
    · rw [hwaiting, UpdatePc.places, List.flatMap_cons, hnext.heldAt_eq (Nat.zero_le _)]
      simp [Record.entry]

/-- `tmpBufs` goes out of scope: every line in it is written, and nothing else goes with it. -/
theorem Inv.returnUpdate (h : s.Inv) {todo : Bool} {done : List Addr} {nOffset : Nat}
    (hio : s.io = .log todo done [] nOffset) : (s.returnUpdate done).Inv := by
  have haddrs := h.addrs
  rw [hio, UpdatePc.tmpBufs, List.append_nil, List.nodup_append] at haddrs
  have hheap : ∀ p ∈ s.buffers, (s.returnUpdate done).heap p.2 = s.heap p.2 := by
    intro p hp
    refine if_neg fun hmem => ?_
    exact haddrs.2.2 p.2 hmem p.2 (List.mem_map.mpr ⟨p, hp, rfl⟩) rfl
  refine ⟨haddrs.2.1, h.keys, h.filling, ?_, ?_, ?_, h.printed, h.printedLast, ?_, h.fault⟩
  · intro t a hmem
    obtain ⟨info, rs, hold⟩ := h.entry t a hmem
    exact ⟨info, rs, hold.of_heap (hheap _ hmem)⟩
  · intro a ha
    cases ha
  · intro p hp
    cases hp
  · intro t
    have hhistory := h.history t
    have htmp : s.waitingTmp = [] := by rw [waitingTmp, hio]; rfl
    have hbuffers : (s.returnUpdate done).waitingBuffers = s.waitingBuffers :=
      List.flatMap_congr fun p hp => heldAt_congr (hheap p hp)
    rw [hbuffers]
    rw [htmp] at hhistory
    exact hhistory

theorem Inv.doShutdown (h : s.Inv) : s.doShutdown.Inv := by
  refine ⟨h.addrs, h.keys, h.filling, ?_, h.live, ?_, fun _ => rfl, h.printedLast, h.history,
    h.fault⟩
  · intro t a hmem
    obtain ⟨info, rs, hold⟩ := h.entry t a hmem
    exact ⟨info, rs, hold.of_heap rfl⟩
  · intro p hp
    obtain ⟨info, rs, hold⟩ := h.moved p hp
    exact ⟨info, rs, hold.of_heap rfl⟩

end IoThread

/-- The step lemma, one case for each kind of step. -/
theorem inv_step (hstep : Step s act s') (h : s.Inv) : s'.Inv := by
  cases hstep with
  | flush hlive hpc hlevel =>
    exact h.setPc_quiet (by rw [hpc]; rfl) (by rw [hpc]; rfl) (by rw [hpc]; rfl)
  | skip hlive hpc => exact h
  | lockFlush hlive hpc hfresh => exact h.lockFlush hpc hfresh
  | pushLevel hlive hpc =>
    exact h.push (by rw [hpc]; rfl) rfl (by rw [hpc]; rfl) (by rw [hpc]; rfl)
  | pushLength hlive hpc =>
    exact h.push (by rw [hpc]; rfl) rfl (by rw [hpc]; rfl) (by rw [hpc]; rfl)
  | pushText hlive hpc =>
    refine h.push (by rw [hpc]; rfl) rfl (by rw [hpc]; rfl) ?_
    rw [hpc]
    simp [FlushPc.unfinished, FlushPc.pending, Record.frames, Record.frame]
  | release hlive hpc => exact h.release hpc
  | addBusyLog hlive hpc =>
    exact h.setPc_quiet (by rw [hpc]; rfl) (by rw [hpc]; rfl) (by rw [hpc]; rfl)
  | lockUpdate hlive hio => exact h.lockUpdate hio
  | roundUpdate hlive hio => exact h.roundUpdate hio
  | returnUpdate hlive hio => exact h.returnUpdate hio
  | shutdown hlive => exact h.doShutdown

theorem inv_init (level : UInt32) : (init level : Logger Tid).Inv := by
  refine ⟨List.nodup_nil, List.nodup_nil, ?_, ?_, ?_, ?_, fun hne => absurd rfl hne, ?_,
    fun t => rfl, ?_⟩
  · intro t a ha
    cases ha
  · intro t a hmem
    cases hmem
  · intro a ha
    cases ha
  · intro p hp
    cases hp
  · intro t ht
    rfl
  · intro e he
    cases he

theorem Reachable.inv (h : s.Reachable) : s.Inv := by
  obtain ⟨level, acts, hrun⟩ := h
  exact hrun.invariant (fun _ _ _ => inv_step) (inv_init level)

section Frame

theorem push_frame {bytes : List UInt8} {next : FlushPc} :
    (s.push t a bytes next).shutdown = s.shutdown ∧ (s.push t a bytes next).io = s.io ∧
      (s.push t a bytes next).buffers = s.buffers := by
  rw [push]
  split
  · exact ⟨rfl, rfl, rfl⟩
  · split <;> exact ⟨rfl, rfl, rfl⟩

theorem release_frame : (s.release t r a).shutdown = s.shutdown ∧ (s.release t r a).io = s.io ∧
    (s.release t r a).buffers = s.buffers := by
  rw [release]
  split <;> exact ⟨rfl, rfl, rfl⟩

/-- Only a logger that is not shut down gets a new map entry. -/
theorem lockFlush_frame : (s.lockFlush t r fresh).shutdown = s.shutdown ∧
    (s.lockFlush t r fresh).io = s.io ∧
      (s.shutdown = true → (s.lockFlush t r fresh).buffers = s.buffers) := by
  rw [lockFlush]
  split
  · exact ⟨rfl, rfl, fun _ => rfl⟩
  · rename_i hshut
    split
    · split
      · split <;> exact ⟨rfl, rfl, fun _ => rfl⟩
      · exact ⟨rfl, rfl, fun _ => rfl⟩
    · exact ⟨rfl, rfl, fun h => absurd h hshut⟩

omit [LinearOrder Tid] in
theorem roundUpdate_frame {todo : Bool} {done rest : List Addr} {nOffset : Nat} :
    (s.roundUpdate todo done a rest nOffset).shutdown = s.shutdown ∧
      (s.roundUpdate todo done a rest nOffset).buffers = s.buffers ∧
      (s.roundUpdate todo done a rest nOffset).pc = s.pc := by
  rw [roundUpdate]
  split
  · exact ⟨rfl, rfl, rfl⟩
  · split
    · exact ⟨rfl, rfl, rfl⟩
    · split <;> exact ⟨rfl, rfl, rfl⟩
    · split <;> exact ⟨rfl, rfl, rfl⟩

theorem Step.live (h : Step s act s') : s.fault = none := by
  cases h <;> assumption

/-- `shutdown_` is never taken back, and behind it an empty map stays empty. -/
theorem Step.shut (h : Step s act s') (hshut : s.shutdown = true) :
    s'.shutdown = true ∧ (s.buffers = [] → s'.buffers = []) := by
  cases h with
  | lockFlush =>
    obtain ⟨hs, -, hb⟩ := lockFlush_frame (s := s)
    exact ⟨hs.trans hshut, fun h => (hb hshut).trans h⟩
  | pushLevel | pushLength | pushText =>
    obtain ⟨hs, -, hb⟩ := push_frame (s := s)
    exact ⟨hs.trans hshut, hb.trans⟩
  | release =>
    obtain ⟨hs, -, hb⟩ := release_frame (s := s)
    exact ⟨hs.trans hshut, hb.trans⟩
  | roundUpdate =>
    obtain ⟨hs, hb, -⟩ := roundUpdate_frame (s := s)
    exact ⟨hs.trans hshut, hb.trans⟩
  | lockUpdate =>
    refine ⟨hshut, fun hnil => ?_⟩
    rw [Logger.lockUpdate, hnil, List.filter_nil]
  | shutdown => exact ⟨rfl, id⟩
  | flush | skip | addBusyLog | returnUpdate => exact ⟨hshut, id⟩

/-- The steps of the I/O thread. -/
def Act.ofUpdate : Act Tid → Bool
  | .lockUpdate | .roundUpdate | .returnUpdate _ => true
  | _ => false

theorem Step.io_eq (h : Step s act s') (hact : act.ofUpdate = false) : s'.io = s.io := by
  cases h with
  | lockFlush =>
    obtain ⟨-, hio, -⟩ := lockFlush_frame (s := s)
    exact hio
  | pushLevel | pushLength | pushText =>
    obtain ⟨-, hio, -⟩ := push_frame (s := s)
    exact hio
  | release =>
    obtain ⟨-, hio, -⟩ := release_frame (s := s)
    exact hio
  | lockUpdate | roundUpdate | returnUpdate => cases hact
  | flush | skip | addBusyLog | shutdown => rfl

/-- An `Update` that will report no work to do has taken every buffer out of the map. -/
def Clean (s : Logger Tid) : Prop :=
  ∀ done rest nOffset, s.io = .log false done rest nOffset → s.buffers = []

omit [LinearOrder Tid] in
theorem Clean.of_idle (h : s.io = .idle) : s.Clean := by
  intro done rest nOffset hio
  rw [h] at hio
  cases hio

/-- Behind `shutdown_` no producer can spoil that. -/
theorem Step.clean (h : Step s act s') (hshut : s.shutdown = true) (hclean : s.Clean) :
    s'.Clean := by
  have hempty := (h.shut hshut).2
  intro done rest nOffset hio
  by_cases hact : act.ofUpdate = false
  · rw [h.io_eq hact] at hio
    exact hempty (hclean _ _ _ hio)
  · cases h with
    | lockUpdate =>
      simp only [Logger.lockUpdate, UpdatePc.log.injEq, List.any_eq_false] at hio
      exact List.filter_eq_nil_iff.mpr fun p hp => hio.1 p hp
    | @roundUpdate todo done' a rest' nOffset' hlive hpc =>
      have htodo : todo = false := by
        rw [Logger.roundUpdate] at hio
        split at hio
        · exact (UpdatePc.log.inj (hpc.symm.trans hio)).1
        · split at hio
          · exact (UpdatePc.log.inj (hpc.symm.trans hio)).1
          · split at hio
            · exact (UpdatePc.log.inj (hpc.symm.trans hio)).1
            · exact (UpdatePc.log.inj hio).1
          · split at hio
            · exact (UpdatePc.log.inj hio).1
            · exact (UpdatePc.log.inj (hpc.symm.trans hio)).1
      exact hempty (hclean _ _ _ (htodo ▸ hpc))
    | returnUpdate => cases hio
    | flush | skip | lockFlush | pushLevel | pushLength | pushText | release | addBusyLog
    | shutdown => exact absurd rfl hact

end Frame

end Logger

end Hplsp
