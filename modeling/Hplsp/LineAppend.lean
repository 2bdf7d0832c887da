import Hplsp.LineBounds
import Mathlib.Data.List.TakeWhile

/-!
# What a fragment leaves in the line

Exactly which arguments of `operator<<` are stored in part, and which are printed as another value.
-/

namespace Hplsp

open Outcome Printf

namespace Fragment

variable {f : Fragment} {pos : Nat}

/-- The complete text of an argument: all characters of a `std::string`, else what the overload
copies or its format denotes. -/
def whole : Fragment → List UInt8
  | .string msg => msg
  | f => f.text

/-- A `std::string` with a NUL behind other characters. -/
def CutByNul : Fragment → Prop
  | .string msg => 0 ∈ msg ∧ msg.head? ≠ some 0
  | _ => False

/-- Where the overload stores the text in part: its last byte is the NUL's, or it ends at a NUL. -/
def Splits (f : Fragment) (pos : Nat) : Prop :=
  (f.Long ∧ pos + f.width + 1 = kMaxCharPerLog) ∨ (f.CutByNul ∧ pos + f.width < kMaxCharPerLog)

/-- A cut string is stored in part: neither nothing of it nor all. -/
theorem CutByNul.partial_text (h : f.CutByNul) :
    0 < f.text.length ∧ f.text.length < f.whole.length := by
  cases f with
  | string msg =>
    obtain ⟨hmem, hhead⟩ := h
    constructor
    · cases msg with
      | nil => cases hmem
      | cons b msg =>
        have hb : b ≠ 0 := fun hb => hhead (congrArg some hb)
        simp [text, hb]
    · have hle : (msg.takeWhile (· ≠ 0)).length ≤ msg.length :=
        (List.takeWhile_prefix _).length_le
      refine Nat.lt_of_le_of_ne hle fun heq => ?_
      have hwhole := (List.takeWhile_prefix (l := msg) (p := fun b => b ≠ 0)).eq_of_length heq
      exact noNul_takeWhile msg (hwhole.symm ▸ hmem)
  | _ => exact h.elim

/-- Any other argument is stored whole, or has nothing to store. -/
theorem text_eq_whole (h : ¬ f.CutByNul) : f.text = f.whole ∨ f.text = [] := by
  cases f with
  | string msg =>
    by_cases hmem : 0 ∈ msg
    · have hhead : msg.head? = some 0 := by
        by_contra hhead
        exact h ⟨hmem, hhead⟩
      cases msg with
      | nil => cases hmem
      | cons b msg =>
        obtain rfl : b = 0 := Option.some_inj.mp hhead
        exact Or.inr rfl
    · refine Or.inl (List.takeWhile_eq_self_iff.mpr fun b hb => ?_)
      exact decide_eq_true fun heq => hmem (heq ▸ hb)
  | _ => exact Or.inl rfl

theorem not_splits_of_not_fits (h : kMaxCharPerLog ≤ pos + f.width) : ¬ f.Splits pos := by
  rintro (⟨-, hend⟩ | ⟨-, hlt⟩)
  · omega
  · omega

end Fragment

namespace Line

variable {l : Line} {fl : LoggerFlags} {f : Fragment} {bytes : List UInt8}

/-- The fragment stands whole at the old `pos_`, or nothing of it counts. -/
structure AllOrNothing (l l' : Line) (f : Fragment) : Prop where
  before : l'.tmpBuffer.take l.pos = l.tmpBuffer.take l.pos
  pos_lt : l'.pos < kMaxCharPerLog
  whole : l'.pos = l.pos ∨ l'.pos = l.pos + f.whole.length ∧
    Cells.slice l'.tmpBuffer l.pos f.whole.length = f.whole

theorem written_allOrNothing_iff (hlen : l.tmpBuffer.length = kMaxCharPerLog)
    (hfits : l.pos + f.width < kMaxCharPerLog) (hbytes : l.pos + bytes.length ≤ kMaxCharPerLog)
    (htext : l.pos + f.text.length < kMaxCharPerLog → f.text <+: bytes) :
    AllOrNothing l (l.written bytes f.text.length) f ↔ ¬ f.Splits l.pos := by
  obtain ⟨hlong, hle⟩ := f.length_text
  constructor
  · rintro hall (⟨hf, hend⟩ | ⟨hcut, -⟩)
    · have hlt : l.pos + f.text.length < kMaxCharPerLog := hall.pos_lt
      have hnot : ¬ f.text.length ≤ f.width := fun h => hlong.mp h hf
      omega
    · obtain ⟨hpos, hlt⟩ := hcut.partial_text
      have hpos' : l.pos + f.text.length = l.pos ∨
          l.pos + f.text.length = l.pos + f.whole.length := hall.whole.imp id And.left
      omega
  · intro hsplits
    have hlt : l.pos + f.text.length < kMaxCharPerLog := by
      by_cases hf : f.Long
      · have hend : ¬ l.pos + f.width + 1 = kMaxCharPerLog := fun h => hsplits (Or.inl ⟨hf, h⟩)
        omega
      · have := hlong.mpr hf
        omega
    have hroom : l.pos + bytes.length ≤ l.tmpBuffer.length := by omega
    refine ⟨Cells.take_splice_of_le hroom (Nat.le_refl _), hlt, ?_⟩
    rcases Fragment.text_eq_whole fun h => hsplits (Or.inr ⟨h, hfits⟩) with hwhole | hempty
    · obtain ⟨rest, rfl⟩ := htext hlt
      have hself := congrArg (List.take f.text.length) (Cells.slice_splice_self hroom)
      rw [Cells.take_slice (by simp), List.take_left] at hself
      rw [← hwhole]
      exact Or.inr ⟨rfl, hself⟩
    · have hlength : f.text.length = 0 := by rw [hempty, List.length_nil]
      rw [hlength]
      exact Or.inl rfl

/-- A fragment is appended whole or not at all, exactly when it is not one that splits. -/
theorem append_allOrNothing_iff (hlen : l.tmpBuffer.length = kMaxCharPerLog)
    (hpos : l.pos < kMaxCharPerLog) :
    (∃ l', l.append fl f = .ok l' ∧ AllOrNothing l l' f) ↔
      fl.isLevelForbid l.curLevel = true ∨ ¬ f.Splits l.pos := by
  have hsame : AllOrNothing l l f := ⟨rfl, hpos, Or.inl rfl⟩
  cases hforbid : fl.isLevelForbid l.curLevel with
  | true => exact iff_of_true ⟨l, append_of_forbid hforbid, hsame⟩ (Or.inl rfl)
  | false =>
    by_cases hfits : l.pos + f.width < kMaxCharPerLog
    · obtain ⟨bytes, hok, hbytes, htext⟩ := append_eq hlen hforbid hfits
      have hiff := written_allOrNothing_iff hlen hfits hbytes htext
      constructor
      · rintro ⟨l', hok', hall⟩
        obtain rfl : _ = l' := ok_unique hok hok'
        exact Or.inr (hiff.mp hall)
      · rintro (hforbid' | hsplits)
        · cases hforbid'
        · exact ⟨_, hok, hiff.mpr hsplits⟩
    · have hfits : kMaxCharPerLog ≤ l.pos + f.width := by omega
      exact iff_of_true ⟨l, append_of_not_fits hfits, hsame⟩
        (Or.inr (Fragment.not_splits_of_not_fits hfits))

/-- A line on which nothing has been written, at a level. -/
def started (level : UInt32) : Line := { init with curLevel := level }

theorem append_allOrNothing_iff_small :
    ∃ l', (started 1).append ⟨15, false⟩ (.int (-7)) = .ok l' ∧
      AllOrNothing (started 1) l' (.int (-7)) := by
  refine (append_allOrNothing_iff List.length_replicate (by decide)).mpr (Or.inr ?_)
  rintro (⟨hlong, -⟩ | ⟨hcut, -⟩)
  · exact absurd hlong (by decide : ¬ (-7 : Int32).toInt ≤ -1000000000)
  · exact hcut

/-- The last digit of an `int` gives way to the NUL, and is counted; a string ends at its NUL. -/
theorem append_stores_part :
    ∃ fl : LoggerFlags, ∃ msg : List UInt8, ∃ l : Line,
      (started 1).append fl (.cstr msg) = .ok l ∧ l.tmpBuffer.length = kMaxCharPerLog ∧
        kPrefixLen ≤ l.pos ∧ l.pos < kMaxCharPerLog ∧
        (¬ ∃ l', l.append fl (.int (-1000000000)) = .ok l' ∧
          AllOrNothing l l' (.int (-1000000000))) ∧
        ¬ ∃ l', (started 1).append fl (.string [chr 'a', 0, chr 'b']) = .ok l' ∧
          AllOrNothing (started 1) l' (.string [chr 'a', 0, chr 'b']) := by
  obtain ⟨msg, l, hok, hlen, hge, hlt, hend⟩ : ∃ msg, ∃ l : Line,
      (started 1).append ⟨15, false⟩ (.cstr msg) = .ok l ∧
        l.tmpBuffer.length = kMaxCharPerLog ∧ kPrefixLen ≤ l.pos ∧ l.pos < kMaxCharPerLog ∧
        Sat (l.append ⟨15, false⟩ (.int (-1000000000))) (fun l' => l'.pos = kMaxCharPerLog)
          fun _ => False :=
    ⟨List.replicate 2004 (chr 'a'), Sat.returns (by decide +kernel)⟩
  obtain ⟨l₂, hok₂, hpos₂⟩ : ∃ l₂, (started 1).append ⟨15, false⟩
      (.string [chr 'a', 0, chr 'b']) = .ok l₂ ∧ l₂.pos = 34 := Sat.returns (by decide +kernel)
  refine ⟨⟨15, false⟩, msg, l, hok, hlen, hge, hlt, ?_, ?_⟩
  · rintro ⟨l', hok', hall⟩
    have hpos := hall.pos_lt
    rw [hend.of_ok hok'] at hpos
    exact Nat.lt_irrefl _ hpos
  · rintro ⟨l', hok', hall⟩
    obtain rfl : l₂ = l' := ok_unique hok₂ hok'
    have hpos : l₂.pos = (started 1).pos ∨ _ := hall.whole.imp id And.left
    rw [hpos₂] at hpos
    revert hpos
    decide

end Line

namespace Fragment

variable {f : Fragment} {fs : List Fragment} {v : Int}

/-- The integer that an argument is. -/
def value : Fragment → Option Int
  | .uchar a => some a.toNat
  | .char a => some a.toInt
  | .ushort a => some a.toNat
  | .short a => some a.toInt
  | .uint a => some a.toNat
  | .int a => some a.toInt
  | .ulong a => some a.toNat
  | .long a => some a.toInt
  | .ulonglong a => some a.toNat
  | .longlong a => some a.toInt
  | _ => none

/-- What an argument should look like: an integer as its decimal numeral, a string as it is. -/
def rendering (f : Fragment) : List UInt8 :=
  match f.value with
  | some v => signed v
  | none => f.whole

/-- The values that the overload prints as they are. -/
def Faithful : Fragment → Prop
  | .uchar a => a.toNat < 128
  | .char a => 0 ≤ a.toInt
  | .string msg => NoNul msg
  | _ => True

theorem ofSigned_rendering (h : f.value = some v) : ofSigned f.rendering = v := by
  rw [rendering, h, ofSigned_signed]

theorem Faithful.text_eq (h : f.Faithful) : f.text = f.rendering := by
  cases f with
  | uchar a =>
    have hlt : a.toNat < 128 := h
    show signed a.toInt8.toInt = signed a.toNat
    rw [toInt_toInt8, if_pos hlt]
  | char a =>
    have hge : 0 ≤ a.toInt := h
    have htoInt := toInt_toInt8 a.toUInt8
    rw [Int8.toInt8_toUInt8] at htoInt
    have hnat : a.toInt = a.toUInt8.toNat := by
      have := a.toUInt8.toNat_lt
      split at htoInt <;> omega
    show decimal a.toUInt8.toNat = signed a.toInt
    rw [hnat]
    rfl
  | string msg =>
    refine List.takeWhile_eq_self_iff.mpr fun b hb => ?_
    exact decide_eq_true fun heq => h (heq ▸ hb)
  | _ => rfl

/-- Another text stands for the values that are not printed as they are, whatever follows. -/
theorem text_append_ne (h : ¬ f.Faithful) {xs : List UInt8} (hxs : NoNul xs) (ys : List UInt8) :
    f.text ++ xs ≠ f.rendering ++ ys := by
  cases f with
  | uchar a =>
    have hge : ¬ a.toNat < 128 := h
    have hneg : a.toInt8.toInt < 0 := by
      have := a.toNat_lt
      rw [toInt_toInt8, if_neg hge]
      omega
    exact (decimal_append_ne_signed hneg ys xs).symm
  | char a =>
    have hneg : ¬ 0 ≤ a.toInt := h
    exact decimal_append_ne_signed (by omega) xs ys
  | string msg =>
    have hmem : 0 ∈ msg := by
      by_contra hmem
      exact h hmem
    intro heq
    have htext : NoNul (Fragment.text (.string msg) ++ xs) :=
      noNul_append.mpr ⟨Line.noNul_text _, hxs⟩
    rw [heq] at htext
    exact htext (List.mem_append_left _ hmem)
  | _ => exact absurd trivial h

theorem noNul_flatMap_text (fs : List Fragment) : NoNul (fs.flatMap text) := by
  induction fs with
  | nil => exact List.not_mem_nil
  | cons f fs ih => exact noNul_append.mpr ⟨Line.noNul_text f, ih⟩

theorem flatMap_text_eq_iff (fs : List Fragment) :
    fs.flatMap text = fs.flatMap rendering ↔ ∀ f ∈ fs, f.Faithful := by
  induction fs with
  | nil => simp
  | cons f fs ih =>
    rw [List.forall_mem_cons, ← ih, List.flatMap_cons, List.flatMap_cons]
    by_cases hf : f.Faithful
    · rw [hf.text_eq, List.append_cancel_left_eq]
      exact (and_iff_right hf).symm
    · exact iff_of_false (text_append_ne hf (noNul_flatMap_text fs) _) fun h => hf h.1

end Fragment

namespace Line

variable {p : Platform} {l : Line} {fl : LoggerFlags} {fs : List Fragment}

/-- The room that a chain of arguments can take. -/
def chainWidth : List Fragment → Nat
  | [] => 0
  | f :: fs => f.width + 1 + chainWidth fs

theorem length_flatMap_text_le : (fs.flatMap Fragment.text).length ≤ chainWidth fs := by
  induction fs with
  | nil => exact Nat.le_refl 0
  | cons f fs ih =>
    rw [List.flatMap_cons, List.length_append]
    exact Nat.add_le_add (length_text_le f) ih

theorem append_chain (h : l.Valid p) (hforbid : fl.isLevelForbid l.curLevel = false)
    (hroom : l.pos + chainWidth fs < kMaxCharPerLog) :
    ∃ l', Lts.execute (fun l f => l.append fl f) l fs = .ok l' ∧
      Appended p l l' (fs.flatMap Fragment.text) := by
  induction fs generalizing l with
  | nil =>
    exact ⟨l, rfl, h, rfl, rfl, fun _ => (List.append_nil _).symm⟩
  | cons f fs ih =>
    have hlen := length_text_le f
    have hsum : chainWidth (f :: fs) = f.width + 1 + chainWidth fs := rfl
    obtain ⟨l₁, hok, happend⟩ := append_of_fits (f := f) h hforbid (by omega)
    have hpos := happend.pos
    obtain ⟨l', hok', happend'⟩ :=
      ih happend.valid (happend.curLevel ▸ hforbid) (by omega)
    have hpos' := happend'.pos
    refine ⟨l', by rw [Lts.execute, hok]; exact hok', happend'.valid, ?_,
      happend'.curLevel.trans happend.curLevel, fun hlt => ?_⟩
    · rw [List.flatMap_cons, List.length_append]
      omega
    · rw [happend'.body hlt, happend.body (by omega), List.append_assoc, List.flatMap_cons]

/-- The line holds the renderings of the arguments of a chain, in order. -/
def Renders (l : Line) (fl : LoggerFlags) (fs : List Fragment) : Prop :=
  ∃ l', Lts.execute (fun l f => l.append fl f) l fs = .ok l' ∧
    l'.body = l.body ++ fs.flatMap Fragment.rendering

/-- A chain is logged as what was passed, exactly when each of its arguments is; the rendering of
an integer reads back as that integer. -/
theorem chain_renders_iff (h : l.Valid p) (hforbid : fl.isLevelForbid l.curLevel = false)
    (hroom : l.pos + chainWidth fs < kMaxCharPerLog) :
    (l.Renders fl fs ↔ ∀ f ∈ fs, f.Faithful) ∧
      ∀ f ∈ fs, ∀ v, f.value = some v → ofSigned f.rendering = v := by
  refine ⟨?_, fun f _ v => Fragment.ofSigned_rendering⟩
  have hle : (fs.flatMap Fragment.text).length ≤ chainWidth fs := length_flatMap_text_le
  obtain ⟨l', hok, happend⟩ := append_chain h hforbid hroom
  have hbody := happend.body (by rw [happend.pos]; omega)
  rw [← Fragment.flatMap_text_eq_iff]
  constructor
  · rintro ⟨l₂, hok₂, hbody₂⟩
    obtain rfl : l' = l₂ := ok_unique hok hok₂
    exact List.append_cancel_left (hbody.symm.trans hbody₂)
  · intro htext
    exact ⟨l', hok, htext ▸ hbody⟩

theorem chain_renders_iff_plain :
    (started 1).Renders ⟨15, false⟩ [.int (-7), .string (ascii "ab")] := by
  have hvalid : (started 1).Valid (.stopped []) := (valid_init (.stopped [])).setCurLevel 1
  refine (chain_renders_iff hvalid (by decide) (by decide)).1.mpr ?_
  intro f hf
  rcases List.mem_pair.mp hf with rfl | rfl
  · exact trivial
  · exact (by decide : NoNul (ascii "ab"))

theorem not_renders (text : List UInt8) (hne : text ≠ l.body ++ fs.flatMap Fragment.rendering)
    (hrun : Sat (Lts.execute (fun l f => l.append fl f) l fs) (fun l' => l'.body = text)
      fun _ => False) : ¬ l.Renders fl fs := by
  rintro ⟨l', hok, hbody⟩
  exact hne ((hrun.of_ok hok).symm.trans hbody)

/-- An `unsigned char` is printed signed and a `char` unsigned, and a string ends at its NUL. -/
theorem chain_renders_otherwise :
    ¬ (started 1).Renders ⟨15, false⟩ [.uchar 200] ∧
      ¬ (started 1).Renders ⟨15, false⟩ [.char (-1)] ∧
      ¬ (started 1).Renders ⟨15, false⟩ [.string [chr 'a', 0, chr 'b']] := by
  refine ⟨not_renders (ascii "-56") ?_ ?_, not_renders (ascii "255") ?_ ?_,
    not_renders (ascii "a") ?_ ?_⟩
  all_goals decide +kernel

end Line

end Hplsp
