import Hplsp.Lib.Tagged
import Hplsp.LogFrame

/-! Any number of loggers that write to one disk: the numbers of `Logger::seq_` keep their files
apart. -/

namespace Hplsp

open Outcome

namespace LogFile

variable {w : LogFile} {files : List Opened}

/-- The files of a logger are its own: nothing else on the disk matters to it. -/
theorem Wrote.of_disk (h : w.Wrote files) {seq : Nat} {disk : FileName → Option SparseFile}
    (hdisk : ∀ name ∈ w.created, disk name = w.file.disk name) :
    ({ w with seq := seq, file := { w.file with disk := disk } } : LogFile).Wrote files := by
  cases h with
  | none hfile hcreated => exact .none hfile hcreated
  | @some closed name g hready hne =>
    have hmem : ∀ name' ∈ closed.map Prod.fst ++ [name], name' ∈ w.created := by
      intro name' hname
      rw [hready.created]
      exact hname
    refine .some ⟨hready.created, hready.nodup, ?_, fun p hp => ?_, hready.full⟩ hne
    · have hlast := hdisk name (hmem name (List.mem_append_right _ List.mem_cons_self))
      obtain ⟨f, hf, hrest⟩ := hready.holds.disk
      exact ⟨hready.holds.file, hready.holds.mapped, hready.holds.offset, hready.holds.offset_le,
        hready.holds.size_pos, hready.holds.size_lt, f, hlast.trans hf, hrest⟩
    · exact (hready.stored p hp).of_disk
        (hdisk p.1 (hmem p.1 (List.mem_append_left _ (List.mem_map_of_mem hp))))

/-- `Sync` changes no file. -/
theorem Wrote.sync (h : w.Wrote files) :
    ({ w with file := w.file.sync.1 } : LogFile).Wrote files := by
  cases h with
  | none hfile hcreated =>
    refine .none ?_ hcreated
    rw [OMmapFile.sync, if_pos (by rw [hfile])]
    exact hfile
  | some hready hne =>
    refine .some ⟨hready.created, hready.nodup, hready.holds.sync, fun p hp => ?_, hready.full⟩ hne
    exact (hready.stored p hp).of_disk (by rw [OMmapFile.disk_sync])

end LogFile

/-- What happens to a logger's file: a line, or the `Sync` at the end of `Update`. -/
inductive LogOp where
  | writeLog (call : LogCall)
  | sync

namespace LogOp

def exec (env : Nat → OpenAnswers) (fuel : Nat) (w : LogFile) : LogOp → Except Fault LogFile
  | .writeLog call => w.writeLog env fuel call
  | .sync => .ok { w with file := w.file.sync.1 }

/-- The text that is to be in the files afterwards. -/
def text : LogOp → List (List UInt8)
  | .writeLog call => [call.text]
  | .sync => []

/-- The calls of the system succeed, and `Flush` has made the text. -/
def Sane : LogOp → Prop
  | .writeLog call => call.ans.Succeed ∧ call.text ≠ [] ∧ call.text.length ≤ kMaxCharPerLog
  | .sync => True

end LogOp

/-- The loggers of a process, with what they share: `Logger::seq_` and the disk. How many names
`_MakeFileName` has made is a ghost. -/
structure LogStore (ι : Type) where
  seq : Nat
  disk : FileName → Option SparseFile
  loggers : ι → LogFile
  made : Nat

namespace LogStore

open LogFile

variable {ι : Type} [DecidableEq ι] {s s' : LogStore ι} {env : ι → Nat → OpenAnswers} {fuel : Nat}
  {l : ι} {op : LogOp} {ops : List (ι × LogOp)} {files : ι → List Opened} {w : LogFile}

/-- Loggers after `Init`, before the first line. -/
def init (dest : ι → UInt32) (directory : ι → String) (pid : Nat)
    (disk : FileName → Option SparseFile) : LogStore ι :=
  ⟨0, disk, fun l => .new (dest l) (directory l) pid 0 disk, 0⟩

/-- A logger with what it shares as it is now. -/
def view (s : LogStore ι) (l : ι) : LogFile :=
  { s.loggers l with seq := s.seq, file := { (s.loggers l).file with disk := s.disk } }

/-- The store after an operation of `l` that leaves that logger as `w`. -/
def put (s : LogStore ι) (l : ι) (w : LogFile) : LogStore ι where
  seq := w.seq
  disk := w.file.disk
  loggers := Function.update s.loggers l w
  made := s.made + (w.created.length - (s.loggers l).created.length)

/-- The I/O thread takes the loggers one at a time. -/
def exec (env : ι → Nat → OpenAnswers) (fuel : Nat) (s : LogStore ι) (e : ι × LogOp) :
    Except Fault (LogStore ι) := do
  let w ← e.2.exec (env e.1) fuel (s.view e.1)
  .ok (s.put e.1 w)

/-- A name with one of the first `made` numbers. -/
def Named (made : Nat) (name : FileName) : Prop :=
  ∃ directory now pid n, 0 < n ∧ n ≤ made ∧ name = logName directory now pid (n % 2 ^ 32)

theorem Named.mono {made made' : Nat} {name : FileName} (h : Named made name)
    (hle : made ≤ made') : Named made' name := by
  obtain ⟨directory, now, pid, n, hpos, hn, hname⟩ := h
  exact ⟨directory, now, pid, n, hpos, Nat.le_trans hn hle, hname⟩

/-- Up to 2^32 names the numbers differ. -/
theorem Named.ne {made n pid : Nat} {name directory now : String} (h : Named made name)
    (hlt : made < n) (hle : n ≤ 2 ^ 32) : name ≠ logName directory now pid (n % 2 ^ 32) := by
  obtain ⟨directory', now', pid', n', hpos, hn, rfl⟩ := h
  intro heq
  have hseq := logName_seq heq
  omega

/-- Each logger has files of its own; the names made so far have the numbers up to `made`, and no
file has a name with a number that comes later. -/
structure Inv (env : ι → Nat → OpenAnswers) (s : LogStore ι) (files : ι → List Opened) : Prop where
  wrote : ∀ l, (s.view l).Wrote (files l)
  dest : ∀ l, (s.loggers l).dest &&& LogDest.logFile ≠ 0
  seq : s.seq = s.made % 2 ^ 32
  named : ∀ l, ∀ name ∈ (s.loggers l).created, Named s.made name
  apart : ∀ l l', l ≠ l' → ∀ name ∈ (s.loggers l).created, name ∉ (s.loggers l').created
  fresh : ∀ l i n, s.made < n → n ≤ 2 ^ 32 →
    s.disk (logName (s.loggers l).directory (env l i).now (s.loggers l).pid (n % 2 ^ 32)) = none

omit [DecidableEq ι] in
theorem inv_init {dest : ι → UInt32} {directory : ι → String} {pid : Nat}
    {disk : FileName → Option SparseFile} (hdest : ∀ l, dest l &&& LogDest.logFile ≠ 0)
    (hnew : ∀ l i seq, seq < 2 ^ 32 →
      disk (logName (directory l) (env l i).now pid seq) = none) :
    Inv env (init dest directory pid disk) fun _ => [] where
  wrote _ := .none rfl rfl
  dest := hdest
  seq := rfl
  named _ _ hname := by cases hname
  apart _ _ _ _ hname := by cases hname
  fresh l i n _ _ := hnew l i _ (Nat.mod_lt n (by decide))

@[simp] theorem loggers_put_self : (s.put l w).loggers l = w := by simp [put]

theorem loggers_put_ne {l' : ι} (hne : l' ≠ l) : (s.put l w).loggers l' = s.loggers l' := by
  simp [put, hne]

@[simp] theorem view_put_self : (s.put l w).view l = w := by simp [view, put]

theorem view_put_ne {l' : ι} (hne : l' ≠ l) : (s.put l w).view l' =
    { s.view l' with seq := w.seq, file := { (s.view l').file with disk := w.file.disk } } := by
  simp [view, put, hne]

theorem made_le_put : s.made ≤ (s.put l w).made := Nat.le_add_right ..

namespace Inv

omit [DecidableEq ι] in
/-- The next name that a logger makes is new. -/
theorem opensFresh (h : Inv env s files) (hmade : s.made < 2 ^ 32) (l : ι) (call : LogCall) :
    OpensFresh (env l) (s.view l) call := by
  refine (h.wrote l).opensFresh ?_
  have hseq : (s.seq + 1) % 2 ^ 32 = (s.made + 1) % 2 ^ 32 := by
    have := h.seq
    omega
  have hfresh := h.fresh l (s.loggers l).created.length (s.made + 1) (Nat.lt_succ_self _) hmade
  rw [← hseq] at hfresh
  exact hfresh

/-- An operation makes no name, or one with the next number. -/
theorem made_cases (h : Inv env s files) (hframed : Framed (env l) (s.view l) w) :
    w.created = (s.loggers l).created ∧ (s.put l w).made = s.made ∧ w.seq = s.made % 2 ^ 32 ∨
      (s.put l w).made = s.made + 1 ∧ w.seq = (s.made + 1) % 2 ^ 32 ∧
        ∃ directory now pid, w.created = (s.loggers l).created ++
          [logName directory now pid ((s.made + 1) % 2 ^ 32)] := by
  have hseq := h.seq
  rcases hframed.names with ⟨hcreated, hw⟩ | ⟨hcreated, hw⟩
  · have hcount : (s.put l w).made = s.made := by simp [LogStore.put, hcreated, view]
    exact .inl ⟨hcreated, hcount, hw.trans hseq⟩
  · have hcount : (s.put l w).made = s.made + 1 := by simp [LogStore.put, hcreated, view]
    have hnext : (s.seq + 1) % 2 ^ 32 = (s.made + 1) % 2 ^ 32 := by omega
    rw [nextName_eq, show (s.view l).seq = s.seq from rfl, hnext] at hcreated
    exact .inr ⟨hcount, hw.trans hnext, _, _, _, hcreated⟩

theorem made_put (h : Inv env s files) (hframed : Framed (env l) (s.view l) w) :
    (s.put l w).made ≤ s.made + 1 := by
  rcases h.made_cases hframed with ⟨-, hcount, -⟩ | ⟨hcount, -⟩
  · rw [hcount]
    exact Nat.le_succ _
  · exact hcount.le

theorem named_put (h : Inv env s files) (hframed : Framed (env l) (s.view l) w) {name : FileName}
    (hname : name ∈ w.created) : Named (s.put l w).made name := by
  rcases h.made_cases hframed with ⟨hcreated, -⟩ | ⟨hcount, -, directory, now, pid, hcreated⟩
  · rw [hcreated] at hname
    exact (h.named l name hname).mono made_le_put
  · rw [hcreated] at hname
    rcases List.mem_append.mp hname with hold | hnew
    · exact (h.named l name hold).mono made_le_put
    · rw [hcount]
      exact ⟨directory, now, pid, s.made + 1, Nat.succ_pos _, le_rfl, List.mem_singleton.mp hnew⟩

/-- No logger makes a name that another one has made. -/
theorem foreign (h : Inv env s files) (hmade : s.made < 2 ^ 32)
    (hframed : Framed (env l) (s.view l) w) {l' : ι} (hne : l' ≠ l) {name : FileName}
    (hname : name ∈ (s.loggers l').created) : name ∉ w.created := by
  intro hmem
  rcases h.made_cases hframed with ⟨hcreated, -⟩ | ⟨-, -, directory, now, pid, hcreated⟩
  · rw [hcreated] at hmem
    exact h.apart l' l hne name hname hmem
  · rw [hcreated] at hmem
    rcases List.mem_append.mp hmem with hold | hnew
    · exact h.apart l' l hne name hname hold
    · exact (h.named l' name hname).ne (Nat.lt_succ_self _) hmade (List.mem_singleton.mp hnew)

/-- An operation of one logger leaves the others their files. -/
theorem put (h : Inv env s files) (hmade : s.made < 2 ^ 32) {files' : List Opened}
    (hwrote : w.Wrote files') (hdest : w.dest = (s.loggers l).dest)
    (hframed : Framed (env l) (s.view l) w) :
    Inv env (s.put l w) (Function.update files l files') where
  wrote l' := by
    by_cases hl : l' = l
    · subst hl
      rw [view_put_self, Function.update_self]
      exact hwrote
    · rw [view_put_ne hl, Function.update_of_ne hl]
      exact (h.wrote l').of_disk fun name hname =>
        hframed.disk name (h.foreign hmade hframed hl hname)
  dest l' := by
    by_cases hl : l' = l
    · subst hl
      rw [loggers_put_self, hdest]
      exact h.dest l'
    · rw [loggers_put_ne hl]
      exact h.dest l'
  seq := by
    rcases h.made_cases hframed with ⟨-, hcount, hseq⟩ | ⟨hcount, hseq, -⟩
    · rw [hcount]
      exact hseq
    · rw [hcount]
      exact hseq
  named l' name hname := by
    by_cases hl : l' = l
    · subst hl
      rw [loggers_put_self] at hname
      exact h.named_put hframed hname
    · rw [loggers_put_ne hl] at hname
      exact (h.named l' name hname).mono made_le_put
  apart l₁ l₂ hne name hname := by
    by_cases h₁ : l₁ = l
    · subst h₁
      rw [loggers_put_self] at hname
      rw [loggers_put_ne hne.symm]
      exact fun hmem => h.foreign hmade hframed hne.symm hmem hname
    · rw [loggers_put_ne h₁] at hname
      by_cases h₂ : l₂ = l
      · subst h₂
        rw [loggers_put_self]
        exact h.foreign hmade hframed h₁ hname
      · rw [loggers_put_ne h₂]
        exact h.apart l₁ l₂ hne name hname
  fresh l' i n hlt hle := by
    have hsame : ((s.put l w).loggers l').directory = (s.loggers l').directory ∧
        ((s.put l w).loggers l').pid = (s.loggers l').pid := by
      by_cases hl : l' = l
      · subst hl
        rw [loggers_put_self]
        exact ⟨hframed.directory, hframed.pid⟩
      · rw [loggers_put_ne hl]
        exact ⟨rfl, rfl⟩
    rw [hsame.1, hsame.2]
    have hold := h.fresh l' i n (Nat.lt_of_le_of_lt made_le_put hlt) hle
    exact (hframed.disk _ fun hmem => (h.named_put hframed hmem).ne hlt hle rfl).trans hold

/-- One operation: its line, if any, is in the files of its logger, which grow by no more than it
makes them. -/
theorem exec (h : Inv env s files) (henv : ∀ l i, (env l i).ans.Succeed) (hsane : op.Sane)
    (hmade : s.made < 2 ^ 32) (hok : LogStore.exec env (fuel + 2) s (l, op) = .ok s') :
    ∃ files', Inv env s' (Function.update files l files') ∧
      (files'.map Prod.snd).flatten = ((files l).map Prod.snd).flatten ++ op.text ∧
      (Short kDefaultLogSize (files l) → Short kDefaultLogSize files') ∧ s'.made ≤ s.made + 1 := by
  obtain ⟨w, hexec, hok⟩ := bind_eq_ok.mp hok
  cases hok
  cases op with
  | writeLog call =>
    obtain ⟨hans, -, hlen⟩ := hsane
    have hfresh := h.opensFresh hmade l call
    obtain ⟨files', hwrote, hdest, hlines, -, hshort⟩ :=
      (h.wrote l).writeLog (h.dest l) (henv l) hans hfresh hexec
    have hframed := (h.wrote l).writeLog_framed (h.dest l) (henv l) hans hfresh hexec
    exact ⟨files', h.put hmade hwrote hdest hframed, hlines,
      hshort kDefaultLogSize (by decide) (Nat.add_le_add_left hlen _), h.made_put hframed⟩
  | sync =>
    cases hexec
    have hframed : Framed (env l) (s.view l) { s.view l with file := (s.view l).file.sync.1 } :=
      ⟨rfl, rfl, .inl ⟨rfl, rfl⟩, fun name _ => by rw [OMmapFile.disk_sync]⟩
    exact ⟨files l, h.put hmade (h.wrote l).sync rfl hframed, by simp [LogOp.text], id,
      h.made_put hframed⟩

/-- No operation fails as long as the numbers last. -/
theorem exec_returns (h : Inv env s files) (henv : ∀ l i, (env l i).ans.Succeed) (hsane : op.Sane)
    (hmade : s.made < 2 ^ 32) (hshort : Short kDefaultLogSize (files l)) :
    ∃ s', LogStore.exec env (fuel + 2) s (l, op) = .ok s' := by
  cases op with
  | writeLog call =>
    obtain ⟨hans, hne, hlen⟩ := hsane
    have hmax : kMaxCharPerLog + kDefaultLogSize < 2 ^ 31 := by decide
    obtain ⟨w, hw⟩ : ∃ w, LogFile.writeLog (env l) (fuel + 2) (s.view l) call = .ok w :=
      (h.wrote l).writeLog_returns (h.dest l) (henv l) hans (h.opensFresh hmade l call) hne
        (.inr (by omega)) (fun p hp => Nat.le_trans (hshort p hp) (by decide)) (by omega)
    exact ⟨_, bind_eq_ok.mpr ⟨w, hw, rfl⟩⟩
  | sync => exact ⟨_, rfl⟩

omit [DecidableEq ι] in
theorem names_ne (h : Inv env s files) {l l' : ι} (hne : l ≠ l') :
    ∀ p ∈ files l, ∀ p' ∈ files l', p.1 ≠ p'.1 := by
  intro p hp p' hp' heq
  have hcreated : ∀ l, (s.loggers l).created = (files l).map Prod.fst :=
    fun l => (h.wrote l).stored.1
  have hmem : p.1 ∈ (s.loggers l).created := by
    rw [hcreated]
    exact List.mem_map_of_mem hp
  have hmem' : p.1 ∈ (s.loggers l').created := by
    rw [hcreated, heq]
    exact List.mem_map_of_mem hp'
  exact h.apart l l' hne p.1 hmem hmem'

end Inv

theorem made_le_exec {e : ι × LogOp} (hok : exec env fuel s e = .ok s') : s.made ≤ s'.made := by
  obtain ⟨w, -, hok⟩ := bind_eq_ok.mp hok
  cases hok
  exact made_le_put

theorem made_le_execute (hrun : Lts.execute (exec env fuel) s ops = .ok s') :
    s.made ≤ s'.made := by
  induction ops generalizing s with
  | nil =>
    cases hrun
    exact le_rfl
  | cons e ops ih =>
    cases hexec : exec env fuel s e with
    | error err => simp [Lts.execute, hexec] at hrun
    | ok s₁ =>
      simp only [Lts.execute, hexec] at hrun
      exact Nat.le_trans (made_le_exec hexec) (ih hrun)

/-- A run of operations of any loggers, in any order. -/
theorem Inv.execute (h : Inv env s files) (henv : ∀ l i, (env l i).ans.Succeed)
    (hsane : ∀ e ∈ ops, e.2.Sane) (hrun : Lts.execute (LogStore.exec env (fuel + 2)) s ops = .ok s')
    (hmade : s'.made < 2 ^ 32) (hshort : ∀ l, Short kDefaultLogSize (files l)) :
    ∃ files', Inv env s' files' ∧ (∀ l, Short kDefaultLogSize (files' l)) ∧
      ∀ l, ((files' l).map Prod.snd).flatten = ((files l).map Prod.snd).flatten ++
        (Tagged.of l ops).flatMap LogOp.text := by
  induction ops generalizing s files with
  | nil =>
    cases hrun
    exact ⟨files, h, hshort, fun l => by simp⟩
  | cons e ops ih =>
    obtain ⟨l₀, op⟩ := e
    cases hexec : LogStore.exec env (fuel + 2) s (l₀, op) with
    | error err => simp [Lts.execute, hexec] at hrun
    | ok s₁ =>
      simp only [Lts.execute, hexec] at hrun
      have hlt : s.made < 2 ^ 32 := Nat.lt_of_le_of_lt
        (Nat.le_trans (made_le_exec hexec) (made_le_execute hrun)) hmade
      obtain ⟨files₁, h₁, hlines₁, hshort₁, -⟩ :=
        h.exec henv (hsane _ List.mem_cons_self) hlt hexec
      obtain ⟨files', h', hshort', hlines'⟩ := ih h₁
        (fun e he => hsane e (List.mem_cons_of_mem _ he)) hrun (fun l => by
          by_cases hl : l = l₀
          · subst hl
            rw [Function.update_self]
            exact hshort₁ (hshort l)
          · rw [Function.update_of_ne hl]
            exact hshort l)
      refine ⟨files', h', hshort', fun l => ?_⟩
      rw [hlines', Tagged.of_cons]
      by_cases hl : l = l₀
      · subst hl
        rw [Function.update_self, if_pos rfl, hlines₁, List.flatMap_cons, List.append_assoc]
      · rw [Function.update_of_ne hl, if_neg (Ne.symm hl)]

/-- Until `seq_` wraps around, whatever the loggers write in whatever order: no call fails, the
lines of a logger lie whole and in their order in files that only it writes to, and none of these
is larger than `kDefaultLogSize`. -/
theorem loggers_keep_apart {dest : ι → UInt32} {directory : ι → String} {pid : Nat}
    {disk : FileName → Option SparseFile} (hdest : ∀ l, dest l &&& LogDest.logFile ≠ 0)
    (hnew : ∀ l i seq, seq < 2 ^ 32 → disk (logName (directory l) (env l i).now pid seq) = none)
    (henv : ∀ l i, (env l i).ans.Succeed) (hsane : ∀ e ∈ ops, e.2.Sane)
    (hrun : Lts.execute (exec env (fuel + 2)) (init dest directory pid disk) ops = .ok s')
    (hmade : s'.made < 2 ^ 32) :
    (∃ files : ι → List Opened,
      (∀ l, (s'.loggers l).created = (files l).map Prod.fst ∧ (s'.loggers l).created.Nodup ∧
        ((files l).map Prod.snd).flatten = (Tagged.of l ops).flatMap LogOp.text ∧
        ∀ p ∈ files l, (s'.view l).finalContent p.1 = p.2.flatten ∧
          p.2.flatten.length ≤ kDefaultLogSize) ∧
      ∀ l l', l ≠ l' → ∀ p ∈ files l, ∀ p' ∈ files l', p.1 ≠ p'.1) ∧
    ∀ l (op : LogOp), op.Sane → ∃ s'', exec env (fuel + 2) s' (l, op) = .ok s'' := by
  obtain ⟨files, h, hshort, hlines⟩ := (inv_init hdest hnew).execute henv hsane hrun hmade
    fun _ p hp => by cases hp
  refine ⟨⟨files, fun l => ⟨(h.wrote l).stored.1, (h.wrote l).stored.2.1, hlines l, fun p hp => ?_⟩,
    fun l l' hne => h.names_ne hne⟩, fun l op hsane => h.exec_returns henv hsane hmade (hshort l)⟩
  exact ⟨((h.wrote l).finalContent_eq p hp).1, hshort l p hp⟩

/-- Two loggers take turns, and one syncs its file. -/
theorem loggers_keep_apart_turns : ∃ (s' : LogStore Bool) (files : Bool → List Opened),
    Lts.execute (exec (fun _ _ => ⟨"[now]", ⟨true, true, some 4096⟩⟩) 2)
      (init (fun _ => LogDest.logFile) (fun _ => ".") 1 fun _ => none)
      [(false, .writeLog ⟨LogLevel.logINFO, [65, 10], ⟨true, true, some 4096⟩⟩),
        (true, .writeLog ⟨LogLevel.logWARN, [66, 10], ⟨true, true, some 4096⟩⟩), (false, .sync),
        (false, .writeLog ⟨LogLevel.logINFO, [67, 10], ⟨true, true, some 4096⟩⟩)] = .ok s' ∧
      ((files false).map Prod.snd).flatten = [[65, 10], [67, 10]] ∧
      ∀ p ∈ files false, ∀ p' ∈ files true, p.1 ≠ p'.1 := by
  have hrun : Lts.execute (exec (fun _ _ => ⟨"[now]", ⟨true, true, some 4096⟩⟩) 2)
      (init (fun _ => LogDest.logFile) (fun _ => ".") 1 fun _ => none)
      [(false, .writeLog ⟨LogLevel.logINFO, [65, 10], ⟨true, true, some 4096⟩⟩),
        (true, .writeLog ⟨LogLevel.logWARN, [66, 10], ⟨true, true, some 4096⟩⟩), (false, .sync),
        (false, .writeLog ⟨LogLevel.logINFO, [67, 10], ⟨true, true, some 4096⟩⟩)] = .ok _ := rfl
  obtain ⟨⟨files, hfiles, hapart⟩, -⟩ := loggers_keep_apart (fun _ => by decide)
    (fun _ _ _ _ => by rfl) (fun _ _ => ⟨by rfl, by rfl, by rfl⟩)
    (by simp [LogOp.Sane, Answers.Succeed, kMaxCharPerLog]) hrun (by decide +kernel)
  exact ⟨_, files, hrun, (hfiles false).2.2.1, hapart false true (by decide)⟩

end LogStore

end Hplsp
