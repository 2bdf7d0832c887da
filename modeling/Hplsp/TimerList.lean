import Hplsp.Lib.Linked
import Hplsp.Lib.Run

/-!
# The sorted timer list

`add_timer` hands every timer that does not go to the front to a private `add_timer`, which does
nothing with it.
-/

namespace Hplsp

open Linked

/-- The fields of `util_timer` that the list works on; a null pointer is `none`. -/
structure UtilTimer (τ : Type) where
  expire : Int
  prev : Option τ
  next : Option τ
  deriving DecidableEq, Repr

/-- A `sort_timer_lst` with the timers that its pointers lead to. -/
structure SortTimerLst (τ : Type) where
  timers : τ → UtilTimer τ
  head : Option τ
  tail : Option τ

namespace SortTimerLst

variable {τ : Type} {s : SortTimerLst τ} {timer next : τ} {fields : UtilTimer τ} {l : List τ}
  {p : Option τ} {e : Int}

/-- `sort_timer_lst()`. -/
def new (timers : τ → UtilTimer τ) : SortTimerLst τ := ⟨timers, none, none⟩

def expire (s : SortTimerLst τ) (timer : τ) : Int := (s.timers timer).expire

/-- The private `add_timer(timer, last_head)`: its body is empty. -/
def addTimerFrom (s : SortTimerLst τ) (_timer _lastHead : τ) : SortTimerLst τ := s

/-- The links that following `next` from `head` takes. -/
def forward (s : SortTimerLst τ) : Place τ → Option τ
  | .head => s.head
  | .node timer => (s.timers timer).next

/-- The links that following `prev` from `tail` takes. -/
def backward (s : SortTimerLst τ) : Place τ → Option τ
  | .head => s.tail
  | .node timer => (s.timers timer).prev

/-- Following `next` from `head` visits `l`, whose `expire` values do not decrease, and following
`prev` from `tail` visits it in reverse. -/
structure Arranged (s : SortTimerLst τ) (l : List τ) : Prop where
  forward : Path s.forward .head l
  backward : Path s.backward .head l.reverse
  sorted : l.Pairwise fun timer timer' => s.expire timer ≤ s.expire timer'
  head_prev : ∀ head, s.head = some head → (s.timers head).prev = none
  tail_next : ∀ tail, s.tail = some tail → (s.timers tail).next = none

/-- The list visits exactly the timers `added`, each once. -/
def InOrder (s : SortTimerLst τ) (added : List τ) : Prop :=
  ∃ l, s.Arranged l ∧ l.Nodup ∧ ∀ timer, timer ∈ l ↔ timer ∈ added

/-- The ends of the two paths are the ends of the list. -/
theorem arranged_of_paths (hforward : Path s.forward .head l)
    (hbackward : Path s.backward .head l.reverse)
    (hsorted : l.Pairwise fun timer timer' => s.expire timer ≤ s.expire timer') :
    s.Arranged l := by
  refine ⟨hforward, hbackward, hsorted, fun head hhead => ?_, fun tail htail => ?_⟩
  · obtain ⟨l, rfl⟩ := hforward.eq_cons hhead
    rw [List.reverse_cons, path_append, path_cons, path_nil] at hbackward
    exact hbackward.2.2
  · obtain ⟨l', hl⟩ := hbackward.eq_cons htail
    obtain rfl : l = l'.reverse ++ [tail] := by
      rw [← List.reverse_reverse l, hl, List.reverse_cons]
    rw [path_append, path_cons, path_nil] at hforward
    exact hforward.2.2

theorem Arranged.nodup (h : s.Arranged l) : l.Nodup := h.forward.nodup

@[simp] theorem expire_setHead : ({ s with head := p } : SortTimerLst τ).expire = s.expire := rfl

@[simp] theorem backward_setHead :
    ({ s with head := p } : SortTimerLst τ).backward = s.backward := by
  funext q
  cases q <;> rfl

variable [DecidableEq τ]

def setTimer (s : SortTimerLst τ) (timer : τ) (fields : UtilTimer τ) : SortTimerLst τ :=
  { s with timers := Function.update s.timers timer fields }

def setExpire (s : SortTimerLst τ) (timer : τ) (expire : Int) : SortTimerLst τ :=
  s.setTimer timer { s.timers timer with expire := expire }

def setPrev (s : SortTimerLst τ) (timer : τ) (prev : Option τ) : SortTimerLst τ :=
  s.setTimer timer { s.timers timer with prev := prev }

def setNext (s : SortTimerLst τ) (timer : τ) (next : Option τ) : SortTimerLst τ :=
  s.setTimer timer { s.timers timer with next := next }

/-- `add_timer(timer)`. -/
def addTimer (s : SortTimerLst τ) : Option τ → SortTimerLst τ
  | none => s
  | some timer =>
    match s.head with
    | none => { s with head := some timer, tail := some timer }
    | some head =>
      if s.expire timer < s.expire head then
        { (s.setNext timer (some head)).setPrev head (some timer) with head := some timer }
      else s.addTimerFrom timer head

/-- `ajust_timer(timer)`; it is `none` where the code follows a null pointer. -/
def ajustTimer (s : SortTimerLst τ) : Option τ → Option (SortTimerLst τ)
  | none => some s
  | some timer =>
    match (s.timers timer).next with
    | none => some s
    | some tmp =>
      if s.expire timer < s.expire tmp then some s
      else if s.head = some timer then do
        let head ← (s.timers timer).next
        some (((({ s with head := some head }).setPrev head none).setNext timer none).addTimer
          (some timer))
      else do
        let prev ← (s.timers timer).prev
        let s := s.setNext prev (s.timers timer).next
        let next ← (s.timers timer).next
        let s := s.setPrev next (s.timers timer).prev
        some (s.addTimerFrom timer next)

section Fields

@[simp] theorem head_setTimer : (s.setTimer timer fields).head = s.head := rfl

@[simp] theorem forward_setTimer :
    (s.setTimer timer fields).forward = Function.update s.forward (.node timer) fields.next := by
  funext q
  cases q with
  | head => rfl
  | node timer' => by_cases h : timer' = timer <;> simp [forward, setTimer, h]

@[simp] theorem backward_setTimer :
    (s.setTimer timer fields).backward = Function.update s.backward (.node timer) fields.prev := by
  funext q
  cases q with
  | head => rfl
  | node timer' => by_cases h : timer' = timer <;> simp [backward, setTimer, h]

@[simp] theorem expire_setTimer :
    (s.setTimer timer fields).expire = Function.update s.expire timer fields.expire := by
  funext timer'
  by_cases h : timer' = timer <;> simp [expire, setTimer, h]

@[simp] theorem forward_setHead :
    ({ s with head := p } : SortTimerLst τ).forward = Function.update s.forward .head p := by
  funext q
  cases q <;> simp [forward]

@[simp] theorem forward_setPrev : (s.setPrev timer p).forward = s.forward :=
  forward_setTimer.trans (Function.update_eq_self _ _)

@[simp] theorem forward_setNext :
    (s.setNext timer p).forward = Function.update s.forward (.node timer) p := forward_setTimer

@[simp] theorem forward_setExpire : (s.setExpire timer e).forward = s.forward :=
  forward_setTimer.trans (Function.update_eq_self _ _)

@[simp] theorem backward_setPrev :
    (s.setPrev timer p).backward = Function.update s.backward (.node timer) p := backward_setTimer

@[simp] theorem backward_setNext : (s.setNext timer p).backward = s.backward :=
  backward_setTimer.trans (Function.update_eq_self _ _)

@[simp] theorem backward_setExpire : (s.setExpire timer e).backward = s.backward :=
  backward_setTimer.trans (Function.update_eq_self _ _)

@[simp] theorem expire_setPrev : (s.setPrev timer p).expire = s.expire :=
  expire_setTimer.trans (Function.update_eq_self _ _)

@[simp] theorem expire_setNext : (s.setNext timer p).expire = s.expire :=
  expire_setTimer.trans (Function.update_eq_self _ _)

@[simp] theorem expire_setExpire :
    (s.setExpire timer e).expire = Function.update s.expire timer e := expire_setTimer

end Fields

/-- A timer that expires before the head goes to the front. -/
theorem Arranged.addFirst (h : s.Arranged l) (hfresh : timer ∉ l)
    (hfirst : ∀ head, s.head = some head → e < s.expire head) :
    ((s.setTimer timer ⟨e, none, none⟩).addTimer (some timer)).Arranged (timer :: l) := by
  cases hhead : s.head with
  | none =>
    obtain rfl : l = [] := h.forward.unique (path_nil.mpr hhead)
    simp only [addTimer, head_setTimer, hhead]
    exact arranged_of_paths (by simp [path_cons, path_nil, SortTimerLst.forward, setTimer])
      (by simp [path_cons, path_nil, SortTimerLst.backward, setTimer]) (List.pairwise_singleton _ _)
  | some head =>
    obtain ⟨l, rfl⟩ := h.forward.eq_cons hhead
    have hother : ∀ b ∈ head :: l, b ≠ timer := by
      rintro b hb rfl
      exact hfresh hb
    have hne := hother head List.mem_cons_self
    have hlt := hfirst head hhead
    simp only [addTimer, head_setTimer, hhead, expire_setTimer, Function.update_self,
      Function.update_of_ne hne, if_pos hlt]
    refine arranged_of_paths ?_ ?_ ?_
    · refine h.forward.push ?_ ?_ fun b hb => ?_
      · simp
      · rw [show s.forward .head = some head from hhead]
        simp
      · simp [hother b hb]
    · have hlast : last .head (head :: l).reverse = .node head := by simp [last]
      rw [List.reverse_cons]
      refine h.backward.concat (fun hmem => hfresh (List.mem_reverse.mp hmem)) ?_ ?_
        fun q hq hq' => ?_
      · rw [hlast]
        simp
      · simp [hne.symm]
      · rw [hlast] at hq'
        rcases List.mem_cons.mp hq with rfl | hq
        · simp
        · obtain ⟨b, hb, rfl⟩ := List.mem_map.mp hq
          have hbt := hother b (List.mem_reverse.mp hb)
          simp only [ne_eq, Place.node.injEq] at hq'
          simp [hbt, hq']
    · obtain ⟨hhead', hrest⟩ := List.pairwise_cons.mp h.sorted
      simp only [expire_setHead, expire_setPrev, expire_setNext, expire_setTimer]
      refine List.pairwise_cons.mpr ⟨fun b hb => ?_, h.sorted.imp_of_mem fun ha hb hab => ?_⟩
      · rw [Function.update_self, Function.update_of_ne (hother b hb)]
        rcases List.mem_cons.mp hb with rfl | hb
        · exact Int.le_of_lt hlt
        · exact Int.le_trans (Int.le_of_lt hlt) (hhead' b hb)
      · rwa [Function.update_of_ne (hother _ ha), Function.update_of_ne (hother _ hb)]

/-- A timer that still expires before its successor keeps its place. -/
theorem Arranged.raise (h : s.Arranged l) (hmem : timer ∈ l) (hle : s.expire timer ≤ e)
    (hnext : ∀ next, (s.timers timer).next = some next → e < s.expire next) :
    (s.setExpire timer e).Arranged l := by
  refine arranged_of_paths (by simpa using h.forward) (by simpa using h.backward) ?_
  obtain ⟨l₁, l₂, rfl⟩ := List.append_of_mem hmem
  obtain ⟨hsorted₁, hsorted₂, hacross⟩ := List.pairwise_append.mp h.sorted
  obtain ⟨hfirst, hsorted₂⟩ := List.pairwise_cons.mp hsorted₂
  obtain ⟨-, hnodup₂, hdisjoint⟩ := List.nodup_append.mp h.nodup
  have hne₁ : ∀ b ∈ l₁, b ≠ timer := fun b hb => hdisjoint b hb timer List.mem_cons_self
  have hne₂ : ∀ b ∈ l₂, b ≠ timer := by
    rintro b hb rfl
    exact (List.nodup_cons.mp hnodup₂).1 hb
  have hlater : ∀ b ∈ l₂, e ≤ s.expire b := by
    cases l₂ with
    | nil => simp
    | cons next l₂ =>
      have hlink : (s.timers timer).next = some next :=
        (path_cons.mp (path_cons.mp (path_append.mp h.forward).2).2).1
      have hlt := hnext next hlink
      intro b hb
      rcases List.mem_cons.mp hb with rfl | hb
      · exact Int.le_of_lt hlt
      · exact Int.le_trans (Int.le_of_lt hlt) ((List.pairwise_cons.mp hsorted₂).1 b hb)
  simp only [expire_setExpire]
  refine List.pairwise_append.mpr ⟨hsorted₁.imp_of_mem fun ha hb hab => ?_,
    List.pairwise_cons.mpr ⟨fun b hb => ?_, hsorted₂.imp_of_mem fun ha hb hab => ?_⟩,
    fun a ha b hb => ?_⟩
  · rwa [Function.update_of_ne (hne₁ _ ha), Function.update_of_ne (hne₁ _ hb)]
  · rw [Function.update_self, Function.update_of_ne (hne₂ b hb)]
    exact hlater b hb
  · rwa [Function.update_of_ne (hne₂ _ ha), Function.update_of_ne (hne₂ _ hb)]
  · rw [Function.update_of_ne (hne₁ a ha)]
    rcases List.mem_cons.mp hb with rfl | hb'
    · rw [Function.update_self]
      exact Int.le_trans (hacross a ha b hb) hle
    · rw [Function.update_of_ne (hne₂ b hb')]
      exact hacross a ha b hb

/-- A timer that no longer expires before its successor drops out of the list. -/
theorem ajustTimer_drops (hforward : Path s.forward .head l)
    (hbackward : Path s.backward .head l.reverse) (hmem : timer ∈ l)
    (hnext : (s.timers timer).next = some next) (hlate : ¬ s.expire timer < s.expire next) :
    ∃ s' l', s.ajustTimer (some timer) = some s' ∧ Path s'.forward .head l' ∧ timer ∉ l' := by
  obtain ⟨l₁, l₂, rfl⟩ := List.append_of_mem hmem
  have hnodup := hforward.nodup
  have htail := (path_append.mp hforward).2
  obtain ⟨hlink, hrest⟩ := path_cons.mp htail
  obtain ⟨l₂, rfl⟩ := hrest.eq_cons hnext
  obtain ⟨-, hnodup₂, hdisjoint⟩ := List.nodup_append.mp hnodup
  have hfresh := (List.nodup_cons.mp hnodup₂).1
  have hne : next ≠ timer := fun heq => hfresh (heq ▸ List.mem_cons_self)
  rcases List.eq_nil_or_concat l₁ with rfl | ⟨l₀, prev, rfl⟩
  · -- the head moves on to the successor
    have hhead : s.head = some timer := hlink
    let s₁ := (({ s with head := some next } : SortTimerLst τ).setPrev next none).setNext timer none
    have hadd : s₁.addTimer (some timer) = s₁ := by
      have hhead₁ : s₁.head = some next := rfl
      have hexpire : s₁.expire = s.expire := by simp [s₁]
      simp only [addTimer, hhead₁, hexpire, if_neg hlate, addTimerFrom]
    have hok : s.ajustTimer (some timer) = some (s₁.addTimer (some timer)) := by
      simp only [ajustTimer, hnext, if_neg hlate, if_pos hhead, Option.bind_eq_bind,
        Option.bind_some, s₁]
    refine ⟨s₁, next :: l₂, hok.trans (congrArg some hadd), ?_, hfresh⟩
    refine hrest.redirect ?_ fun b hb => ?_
    · rw [show s.forward (.node timer) = some next from hnext]
      simp [s₁]
    · have hbt : b ≠ timer := fun heq => hfresh (heq ▸ hb)
      simp [s₁, hbt]
  · -- the predecessor and the successor are linked to each other
    rw [List.concat_eq_append] at *
    have hprev_ne : prev ≠ timer := hdisjoint prev (by simp) timer List.mem_cons_self
    have hhead : s.head ≠ some timer := by
      intro hhead
      obtain ⟨l', hl⟩ := hforward.eq_cons hhead
      refine hdisjoint timer ?_ timer List.mem_cons_self rfl
      cases l₀ <;> simp_all
    have hprev : (s.timers timer).prev = some prev := by
      rw [List.reverse_append, List.reverse_append, path_append] at hbackward
      have hlast : last .head (timer :: next :: l₂).reverse = .node timer := by simp [last]
      rw [hlast] at hbackward
      exact (path_cons.mp hbackward.2).1
    refine ⟨(s.setNext prev (some next)).setPrev next (some prev), (l₀ ++ [prev]) ++ next :: l₂,
      ?_, hforward.remove ?_ fun q hq _ => ?_, ?_⟩
    · have hnext₁ : ((s.setNext prev (some next)).timers timer).next = some next := by
        simp [setNext, setTimer, hprev_ne.symm, hnext]
      have hprev₁ : ((s.setNext prev (some next)).timers timer).prev = some prev := by
        simp [setNext, setTimer, hprev_ne.symm, hprev]
      simp only [ajustTimer, hnext, if_neg hlate, if_neg hhead, hprev, Option.bind_eq_bind,
        Option.bind_some, hnext₁, hprev₁, addTimerFrom]
    · rw [show s.forward (.node timer) = some next from hnext]
      simp [last]
    · have hlast : last .head (l₀ ++ [prev]) = Place.node prev := by simp [last]
      rw [hlast] at hq
      simp [hq]
    · rw [List.mem_append]
      rintro (hmem | hmem)
      · exact hdisjoint timer hmem timer List.mem_cons_self rfl
      · exact hfresh hmem

/-- Raising the `expire` of a timer and adjusting it keeps its place, as long as it expires before
its successor. -/
theorem Arranged.ajust_keeps (h : s.Arranged l) (hmem : timer ∈ l)
    (hnext : ∀ next, (s.timers timer).next = some next → e < s.expire next) :
    (s.setExpire timer e).ajustTimer (some timer) = some (s.setExpire timer e) := by
  have hsame : ((s.setExpire timer e).timers timer).next = (s.timers timer).next := by
    simp [setExpire, setTimer]
  simp only [ajustTimer, hsame]
  cases hlink : (s.timers timer).next with
  | none => rfl
  | some next =>
    have hne : next ≠ timer := h.forward.succ_ne hmem hlink
    have hlt : (s.setExpire timer e).expire timer < (s.setExpire timer e).expire next := by
      rw [expire_setExpire, Function.update_self, Function.update_of_ne hne]
      exact hnext next hlink
    simp only [if_pos hlt]

/-- Otherwise the adjusted timer is lost. -/
theorem Arranged.ajust_drops (h : s.Arranged l) (hmem : timer ∈ l)
    (hlink : (s.timers timer).next = some next) (hlate : ¬ e < s.expire next) :
    ∃ s' l', (s.setExpire timer e).ajustTimer (some timer) = some s' ∧
      Path s'.forward .head l' ∧ timer ∉ l' := by
  have hne : next ≠ timer := h.forward.succ_ne hmem hlink
  have hsame : ((s.setExpire timer e).timers timer).next = some next := by
    simp [setExpire, setTimer, hlink]
  refine ajustTimer_drops (by simpa using h.forward) (by simpa using h.backward) hmem hsame ?_
  rwa [expire_setExpire, Function.update_self, Function.update_of_ne hne]

/-- A timer that does not expire before the head does not get into the list. -/
theorem Arranged.add_drops (h : s.Arranged l) (hfresh : timer ∉ l) {head : τ}
    (hhead : s.head = some head) (hlate : ¬ e < s.expire head) :
    Path ((s.setTimer timer ⟨e, none, none⟩).addTimer (some timer)).forward .head l := by
  obtain ⟨l, rfl⟩ := h.forward.eq_cons hhead
  have hother : ∀ b ∈ head :: l, b ≠ timer := by
    rintro b hb rfl
    exact hfresh hb
  simp only [addTimer, head_setTimer, hhead, expire_setTimer, Function.update_self,
    Function.update_of_ne (hother head List.mem_cons_self), if_neg hlate, addTimerFrom]
  refine h.forward.redirect ?_ fun b hb => ?_
  · simp
  · simp [hother b hb]

end SortTimerLst

/-- What a client does: it adds a fresh timer, or raises the `expire` of a timer of the list and
has the list adjusted. -/
inductive TimerOp (τ : Type) where
  | add (timer : τ) (expire : Int)
  | ajust (timer : τ) (expire : Int)
  deriving DecidableEq, Repr

/-- The list, and the timers added so far. -/
structure TimerRun (τ : Type) where
  lst : SortTimerLst τ
  added : List τ

namespace TimerRun

variable {τ : Type} [DecidableEq τ]

def init (timers : τ → UtilTimer τ) : TimerRun τ := ⟨.new timers, []⟩

def Admissible (s : TimerRun τ) : TimerOp τ → Prop
  | .add timer _ => timer ∉ s.added
  | .ajust timer expire => timer ∈ s.added ∧ s.lst.expire timer < expire

/-- A fresh timer comes from `util_timer()`, with its `expire` set. -/
def exec (s : TimerRun τ) : TimerOp τ → Option (TimerRun τ)
  | .add timer expire =>
    some ⟨(s.lst.setTimer timer ⟨expire, none, none⟩).addTimer (some timer), timer :: s.added⟩
  | .ajust timer expire => do
    let lst ← (s.lst.setExpire timer expire).ajustTimer (some timer)
    some ⟨lst, s.added⟩

def Step (s : TimerRun τ) (op : TimerOp τ) (t : TimerRun τ) : Prop :=
  s.Admissible op ∧ s.exec op = some t

def Ordered (s : TimerRun τ) : Prop := s.lst.InOrder s.added

/-- The operation gets by without the private `add_timer`: a new timer expires before the head, or
there is none, and an adjusted one before its successor, or it has none. -/
def Direct (s : TimerRun τ) : TimerOp τ → Prop
  | .add _ expire => ∀ head, s.lst.head = some head → expire < s.lst.expire head
  | .ajust timer expire =>
    ∀ next, (s.lst.timers timer).next = some next → expire < s.lst.expire next

variable {s t : TimerRun τ} {op : TimerOp τ}

omit [DecidableEq τ] in
theorem ordered_init (timers : τ → UtilTimer τ) : (init timers).Ordered :=
  ⟨[], SortTimerLst.arranged_of_paths (path_nil.mpr rfl) (path_nil.mpr rfl) .nil, .nil, by
    simp [init]⟩

/-- An operation on an ordered list follows no null pointer. -/
theorem Ordered.exec_returns (h : s.Ordered) (hadm : s.Admissible op) :
    ∃ t, s.exec op = some t := by
  cases op with
  | add timer e => exact ⟨_, rfl⟩
  | ajust timer e =>
    obtain ⟨l, harr, -, hmem⟩ := h
    have hin : timer ∈ l := (hmem timer).mpr hadm.1
    by_cases hdirect : s.Direct (.ajust timer e)
    · exact ⟨_, by rw [exec, harr.ajust_keeps hin hdirect]; rfl⟩
    · simp only [Direct, not_forall] at hdirect
      obtain ⟨next, hlink, hlate⟩ := hdirect
      obtain ⟨s', l', hok, -⟩ := harr.ajust_drops hin hlink hlate
      exact ⟨_, by rw [exec, hok]; rfl⟩

/-- An operation that gets by without the private `add_timer` keeps the list in order. -/
theorem Ordered.step (h : s.Ordered) (hstep : Step s op t) (hdirect : s.Direct op) :
    t.Ordered := by
  obtain ⟨hadm, hok⟩ := hstep
  obtain ⟨l, harr, -, hmem⟩ := h
  cases op with
  | add timer e =>
    cases hok
    have hfresh : timer ∉ l := fun hl => hadm ((hmem timer).mp hl)
    have harr' := harr.addFirst hfresh hdirect
    refine ⟨timer :: l, harr', harr'.nodup, fun timer' => ?_⟩
    rw [List.mem_cons, List.mem_cons, hmem]
  | ajust timer e =>
    have hin : timer ∈ l := (hmem timer).mpr hadm.1
    rw [exec, harr.ajust_keeps hin hdirect] at hok
    cases hok
    have harr' := harr.raise hin (Int.le_of_lt hadm.2) hdirect
    exact ⟨l, harr', harr'.nodup, hmem⟩

/-- The private `add_timer` loses the timer. -/
theorem Ordered.direct (h : s.Ordered) (hstep : Step s op t) (h' : t.Ordered) : s.Direct op := by
  obtain ⟨hadm, hok⟩ := hstep
  obtain ⟨l, harr, -, hmem⟩ := h
  obtain ⟨l', harr', -, hmem'⟩ := h'
  cases op with
  | add timer e =>
    cases hok
    have hfresh : timer ∉ l := fun hl => hadm ((hmem timer).mp hl)
    intro head hhead
    by_contra hlate
    have hsame := (harr.add_drops hfresh hhead hlate).unique harr'.forward
    exact hfresh (hsame ▸ (hmem' timer).mpr List.mem_cons_self)
  | ajust timer e =>
    have hin : timer ∈ l := (hmem timer).mpr hadm.1
    intro next hlink
    by_contra hlate
    obtain ⟨s', l'', hdrop, hpath, hlost⟩ := harr.ajust_drops hin hlink hlate
    rw [exec, hdrop] at hok
    cases hok
    have hsame := hpath.unique harr'.forward
    exact hlost (hsame ▸ (hmem' timer).mpr hadm.1)

/-- Over runs: the list is in order in every state exactly when no operation leaves its timer to
the private `add_timer`. -/
theorem timers_ordered_iff (timers : τ → UtilTimer τ) (ops : List (TimerOp τ)) :
    Lts.StatesAlong Step Ordered (init timers) ops ↔
      Lts.StepsAlong Step Direct (init timers) ops :=
  Lts.statesAlong_iff_stepsAlong (I := Ordered) (fun _ h => h)
    (fun _ _ _ h hstep hdirect => h.step hstep hdirect)
    (fun _ _ _ h hstep h' => h.direct hstep h') (ordered_init timers)

/-- The second of two timers in the order of their `expire` is lost. -/
theorem later_timer_lost : ∃ (timers : Bool → UtilTimer Bool) (ops : List (TimerOp Bool)),
    ¬ Lts.StatesAlong Step Ordered (init timers) ops := by
  refine ⟨fun _ => ⟨0, none, none⟩, [.add false 1, .add true 2], fun hordered => ?_⟩
  obtain ⟨-, hordered⟩ := hordered
  obtain ⟨-, hordered⟩ := hordered _ ⟨by simp [Admissible, init], rfl⟩
  obtain ⟨l, harr, -, hmem⟩ := hordered _ ⟨by simp [Admissible, init], rfl⟩
  obtain rfl : l = [false] :=
    harr.forward.unique (show Path _ .head [false] from path_cons.mpr ⟨rfl, path_nil.mpr rfl⟩)
  exact absurd ((hmem true).mpr (by decide)) (by decide)

end TimerRun

end Hplsp
