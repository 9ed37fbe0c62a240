import BozOS.Kernel.Effects
import Mathlib.Data.List.Induction

namespace BozOS

/-! The modifier keys. `key_status` has one bit for each of them, but a press
adds the bit instead of setting it, so that the press codes a held key repeats
carry over into bits that belong to no modifier. -/

variable {k : Kernel} {codes before : List UInt8} {c : UInt8}

/-- `key_status` after `get_scan_code`. -/
def statusAfter (keyStatus : UInt32) (scanCode : UInt8) : UInt32 :=
  if scanCode = 0xAA then keyStatus &&& 0x11110
  else if scanCode = 0x9D then keyStatus &&& 0x11011
  else if scanCode = 0xB8 then keyStatus &&& 0x10111
  else if scanCode = 0x2A then keyStatus + 0x1
  else if scanCode = 0x3A then keyStatus ^^^ 0x10
  else if scanCode = 0x1D then keyStatus + 0x100
  else if scanCode = 0x38 then keyStatus + 0x1000
  else keyStatus

theorem switchTerminal_keyStatus (k : Kernel) (t : Nat) : (switchTerminal k t).keyStatus = k.keyStatus := by
  unfold switchTerminal
  split
  · split
    · rfl
    · rfl
  · rfl

theorem clearScreen_keyStatus (k : Kernel) : (clearScreen k).keyStatus = k.keyStatus := by
  obtain ⟨_, _, _, _, cleared⟩ := clearScreen_screenFrame (k := k)
  rw [cleared]

theorem keyReleased_keyStatus (released : c &&& 0x80 ≠ 0) :
    (keyReleased k c).keyStatus = statusAfter k.keyStatus c := by
  unfold keyReleased statusAfter
  split
  · rfl
  split
  · rfl
  split
  · rfl
  -- None of the four press codes has the release bit.
  rw [if_neg, if_neg, if_neg, if_neg]
  all_goals
    rintro rfl
    exact absurd released (by decide)

theorem keyPressed_keyStatus (pressed : c &&& 0x80 = 0) :
    (keyPressed k c).2.keyStatus = statusAfter k.keyStatus c := by
  have notReleased : ∀ code : UInt8, code &&& 0x80 ≠ 0 → c ≠ code := by
    rintro code released rfl
    exact released pressed
  unfold statusAfter
  rw [if_neg (notReleased 0xAA (by decide)), if_neg (notReleased 0x9D (by decide)),
    if_neg (notReleased 0xB8 (by decide)), keyPressed]
  by_cases shift : c = 0x2A
  · rw [if_pos shift, if_pos shift]
  rw [if_neg shift, if_neg shift]
  by_cases caps : c = 0x3A
  · rw [if_pos caps, if_pos caps]
  rw [if_neg caps, if_neg caps]
  by_cases ctrl : c = 0x1D
  · rw [if_pos ctrl, if_pos ctrl]
  rw [if_neg ctrl, if_neg ctrl]
  by_cases alt : c = 0x38
  · subst alt
    rfl
  rw [if_neg alt, if_neg alt]
  split
  · exact clearScreen_keyStatus k
  split
  · exact switchTerminal_keyStatus k 0
  split
  · exact switchTerminal_keyStatus k 1
  split
  · exact switchTerminal_keyStatus k 2
  split
  · rfl
  · rfl

theorem getScanCode_keyStatus : (getScanCode k c).2.keyStatus = statusAfter k.keyStatus c := by
  unfold getScanCode
  split
  · rename_i released
    exact keyReleased_keyStatus released
  · rename_i pressed
    exact keyPressed_keyStatus (not_not.mp pressed)

def scanRun (k : Kernel) (codes : List UInt8) : Kernel := codes.foldl (fun k c => (getScanCode k c).2) k

theorem scanRun_snoc : (scanRun k (codes ++ [c])).keyStatus = statusAfter (scanRun k codes).keyStatus c := by
  rw [scanRun, List.foldl_append]
  exact getScanCode_keyStatus

/-- The last of a key's two codes was its press. -/
def held (press release : UInt8) (codes : List UInt8) : Bool :=
  (codes.filter fun c => c = press || c = release).getLast? = some press

theorem held_snoc (press release : UInt8) :
    held press release (codes ++ [c]) = if c = press then true else if c = release then false
      else held press release codes := by
  unfold held
  rw [List.filter_append]
  by_cases pressed : c = press
  · simp [pressed]
  · rw [if_neg pressed]
    by_cases released : c = release
    · simp [released, released ▸ pressed]
    · simp [pressed, released]

structure Modifiers where
  shift : Bool
  caps : Bool
  ctrl : Bool
  alt : Bool

/-- The modifiers a sequence of codes leaves on. -/
def modifiersOf (codes : List UInt8) : Modifiers where
  shift := held 0x2A 0xAA codes
  caps := codes.count 0x3A % 2 = 1
  ctrl := held 0x1D 0x9D codes
  alt := held 0x38 0xB8 codes

namespace Modifiers

/-- The one word in which every bit says what its modifier is. -/
def word (m : Modifiers) : UInt32 :=
  (if m.shift then 0x1 else 0) + (if m.caps then 0x10 else 0) + (if m.ctrl then 0x100 else 0) +
    (if m.alt then 0x1000 else 0)

def after (m : Modifiers) (c : UInt8) : Modifiers where
  shift := if c = 0x2A then true else if c = 0xAA then false else m.shift
  caps := if c = 0x3A then !m.caps else m.caps
  ctrl := if c = 0x1D then true else if c = 0x9D then false else m.ctrl
  alt := if c = 0x38 then true else if c = 0xB8 then false else m.alt

/-- The press code of a modifier that is already on. -/
def Repeats (m : Modifiers) (c : UInt8) : Prop :=
  (c = 0x2A ∧ m.shift = true) ∨ (c = 0x1D ∧ m.ctrl = true) ∨ (c = 0x38 ∧ m.alt = true)

instance (m : Modifiers) (c : UInt8) : Decidable (m.Repeats c) := inferInstanceAs (Decidable (_ ∨ _))

theorem word_bits (m : Modifiers) :
    (m.word &&& 0x1 ≠ 0 ↔ m.shift = true) ∧ (m.word &&& 0x10 ≠ 0 ↔ m.caps = true) ∧
      (m.word &&& 0x100 ≠ 0 ↔ m.ctrl = true) ∧ (m.word &&& 0x1000 ≠ 0 ↔ m.alt = true) ∧
      m.word &&& 0xFFFFEEEE = 0 := by
  obtain ⟨shift, caps, ctrl, alt⟩ := m
  revert shift caps ctrl alt
  decide

def keys : List UInt8 := [0x2A, 0xAA, 0x3A, 0x1D, 0x9D, 0x38, 0xB8]

theorem statusAfter_word (m : Modifiers) (fresh : ¬m.Repeats c) : statusAfter m.word c = (m.after c).word := by
  by_cases modifier : c ∈ keys
  · obtain ⟨shift, caps, ctrl, alt⟩ := m
    simp only [keys, List.mem_cons, List.not_mem_nil, or_false] at modifier
    rcases modifier with rfl | rfl | rfl | rfl | rfl | rfl | rfl
    all_goals
      revert shift caps ctrl alt
      decide
  · simp only [keys, List.mem_cons, List.not_mem_nil, or_false, not_or] at modifier
    simp only [statusAfter, after, modifier, if_false]

/-- A repeated press carries into a bit of its own. -/
theorem statusAfter_repeats (m : Modifiers) (repeated : m.Repeats c) : statusAfter m.word c &&& 0xFFFFEEEE ≠ 0 := by
  obtain ⟨shift, caps, ctrl, alt⟩ := m
  rcases repeated with ⟨rfl, on⟩ | ⟨rfl, on⟩ | ⟨rfl, on⟩
  · revert shift caps ctrl alt
    decide
  · revert shift caps ctrl alt
    decide
  · revert shift caps ctrl alt
    decide

end Modifiers

theorem modifiersOf_snoc : modifiersOf (codes ++ [c]) = (modifiersOf codes).after c := by
  unfold modifiersOf Modifiers.after
  simp only [held_snoc]
  congr 1
  by_cases caps : c = 0x3A
  · subst caps
    simp only [List.count_append, List.count_singleton_self, if_true]
    rw [← decide_not, decide_eq_decide]
    omega
  · simp [caps]

/-- No modifier's press code comes while the key is held. -/
def NoRepeats (codes : List UInt8) : Prop :=
  ∀ before c, before ++ [c] <+: codes → ¬(modifiersOf before).Repeats c

theorem noRepeats_nil : NoRepeats [] := fun before c inside => absurd (List.prefix_nil.mp inside) (by simp)

theorem noRepeats_snoc : NoRepeats (codes ++ [c]) ↔ NoRepeats codes ∧ ¬(modifiersOf codes).Repeats c := by
  unfold NoRepeats
  constructor
  · intro fresh
    exact ⟨fun before d earlier => fresh before d (earlier.trans (List.prefix_append codes [c])),
      fresh codes c (List.prefix_refl _)⟩
  · rintro ⟨earlier, last⟩ before d inside
    rcases List.prefix_concat_iff.mp inside with whole | inner
    · obtain ⟨rfl, single⟩ := List.append_inj' whole rfl
      rwa [List.singleton_inj.mp single]
    · exact earlier before d inner

theorem scanRun_word (idle : k.keyStatus = 0) (fresh : NoRepeats codes) :
    (scanRun k codes).keyStatus = (modifiersOf codes).word := by
  induction codes using List.reverseRecOn with
  | nil => exact idle
  | append_singleton codes c ih =>
      obtain ⟨earlier, last⟩ := noRepeats_snoc.mp fresh
      rw [scanRun_snoc, ih earlier, Modifiers.statusAfter_word _ last, modifiersOf_snoc]

/-- Every modifier's bit is right at the end, and no other bit was ever set. -/
structure ModifiersTracked (k : Kernel) (codes : List UInt8) : Prop where
  shift : (scanRun k codes).keyStatus &&& 0x1 ≠ 0 ↔ held 0x2A 0xAA codes = true
  ctrl : (scanRun k codes).keyStatus &&& 0x100 ≠ 0 ↔ held 0x1D 0x9D codes = true
  alt : (scanRun k codes).keyStatus &&& 0x1000 ≠ 0 ↔ held 0x38 0xB8 codes = true
  caps : (scanRun k codes).keyStatus &&& 0x10 ≠ 0 ↔ codes.count 0x3A % 2 = 1
  others : ∀ before, before <+: codes → (scanRun k before).keyStatus &&& 0xFFFFEEEE = 0

theorem modifiers_tracked_iff (k : Kernel) (codes : List UInt8) (idle : k.keyStatus = 0) :
    ModifiersTracked k codes ↔ NoRepeats codes := by
  constructor
  · intro tracked
    -- Along the prefixes, the first repeated press would set a foreign bit.
    have along : ∀ before, before <+: codes → NoRepeats before := by
      intro before inside
      induction before using List.reverseRecOn with
      | nil => exact noRepeats_nil
      | append_singleton before c ih =>
          have earlier := ih ((List.prefix_append before [c]).trans inside)
          refine noRepeats_snoc.mpr ⟨earlier, fun repeated => ?_⟩
          have clean := tracked.others _ inside
          rw [scanRun_snoc, scanRun_word idle earlier] at clean
          exact Modifiers.statusAfter_repeats _ repeated clean
    exact along codes (List.prefix_refl codes)
  · intro fresh
    obtain ⟨shift, caps, ctrl, alt, -⟩ := (modifiersOf codes).word_bits
    rw [← scanRun_word idle fresh] at shift caps ctrl alt
    refine ⟨shift, ctrl, alt, caps.trans (by simp [modifiersOf]), fun before inside => ?_⟩
    rw [scanRun_word idle fun earlier c inner => fresh earlier c (inner.trans inside)]
    exact (modifiersOf before).word_bits.2.2.2.2

/-- Shift, held long enough for the keyboard to repeat its code. -/
theorem held_shift_untracked : Kernel.loaded.keyStatus = 0 ∧ ¬ModifiersTracked .loaded [0x2A, 0x2A] := by
  refine ⟨rfl, fun tracked => ?_⟩
  exact absurd (tracked.others [0x2A, 0x2A] (List.prefix_refl _)) (by decide)

theorem pressed_shift_tracked : ModifiersTracked .loaded [0x2A, 0xAA, 0x2A] := by
  have press : NoRepeats ([] ++ [0x2A]) := noRepeats_snoc.mpr ⟨noRepeats_nil, by decide⟩
  have release : NoRepeats ([0x2A] ++ [0xAA]) := noRepeats_snoc.mpr ⟨press, by decide⟩
  have again : NoRepeats ([0x2A, 0xAA] ++ [0x2A]) := noRepeats_snoc.mpr ⟨release, by decide⟩
  exact (modifiers_tracked_iff .loaded _ rfl).mpr again

end BozOS
