import BozOS.Data.Memory

namespace BozOS.Lib

open BozOS.Data

/-! The string functions of `lib.c`. A string is a memory viewed from its first
byte on; `limit` bounds the walk to its NUL, either by the array that holds the
string or by the address space. -/

/-- Bytes a walk can visit before it has gone round the 32-bit address space. -/
def addressSpace : Nat := 4294967296

def strlenFrom (s : Memory) : Nat → Nat → Nat
  | 0, len => len
  | fuel + 1, len => if s len = 0 then len else strlenFrom s fuel (len + 1)

def strlen (s : Memory) (limit : Nat) : Nat := strlenFrom s limit 0

/-- The characters before the NUL, at most `limit` of them. -/
def text (s : Memory) (limit : Nat) : List UInt8 := s.window 0 (strlen s limit)

def strncmpFrom (s1 s2 : Memory) : Nat → Nat → Int
  | 0, _ => 0
  | fuel + 1, i =>
      if s1 i ≠ s2 i ∨ s1 i = 0 then (s1 i).toInt8.toInt - (s2 i).toInt8.toInt
      else strncmpFrom s1 s2 fuel (i + 1)

def strncmp (s1 s2 : Memory) (n : Nat) : Int := strncmpFrom s1 s2 n 0

/-- The first loop copies up to the NUL or `n` bytes, the second one pads the
rest of the `n` bytes with NULs. -/
def strncpy (memory : Memory) (dest : Nat) (src : Memory) (n : Nat) : Memory :=
  (memory.blit dest src (strlen src n)).fill (dest + strlen src n) 0 (n - strlen src n)

section Length

variable {s : Memory} {limit : Nat}

theorem strlenFrom_le (s : Memory) (fuel len : Nat) : strlenFrom s fuel len ≤ len + fuel := by
  induction fuel generalizing len with
  | zero => simp [strlenFrom]
  | succ fuel ih =>
      unfold strlenFrom
      split
      · omega
      · have := ih (len + 1)
        omega

theorem strlenFrom_eq {fuel len stop : Nat} (start : len ≤ stop) (room : stop < len + fuel)
    (nonzero : ∀ i, len ≤ i → i < stop → s i ≠ 0) (terminated : s stop = 0) :
    strlenFrom s fuel len = stop := by
  induction fuel generalizing len with
  | zero => omega
  | succ fuel ih =>
      unfold strlenFrom
      by_cases reached : len = stop
      · subst reached
        rw [if_pos terminated]
      · rw [if_neg (nonzero len (by omega) (by omega))]
        exact ih (by omega) (by omega) (fun i lower upper => nonzero i (by omega) upper)

theorem strlenFrom_nonzero {fuel len i : Nat} (lower : len ≤ i) (upper : i < strlenFrom s fuel len) :
    s i ≠ 0 := by
  induction fuel generalizing len with
  | zero => simp only [strlenFrom] at upper; omega
  | succ fuel ih =>
      unfold strlenFrom at upper
      split at upper
      · omega
      · rename_i byteNonzero
        by_cases first : i = len
        · exact first ▸ byteNonzero
        · exact ih (by omega) upper

theorem strlenFrom_terminated {fuel len : Nat} (stopped : strlenFrom s fuel len < len + fuel) :
    s (strlenFrom s fuel len) = 0 := by
  induction fuel generalizing len with
  | zero => simp [strlenFrom] at stopped
  | succ fuel ih =>
      unfold strlenFrom at stopped ⊢
      split at stopped
      · rename_i terminated
        rw [if_pos terminated]
        exact terminated
      · rename_i byteNonzero
        rw [if_neg byteNonzero]
        exact ih (by omega)

theorem strlen_le (s : Memory) (limit : Nat) : strlen s limit ≤ limit := by
  simpa [strlen] using strlenFrom_le s limit 0

theorem strlen_nonzero {i : Nat} (before : i < strlen s limit) : s i ≠ 0 :=
  strlenFrom_nonzero (Nat.zero_le i) before

theorem strlen_terminated (stopped : strlen s limit < limit) : s (strlen s limit) = 0 :=
  strlenFrom_terminated (by simpa [strlen] using stopped)

theorem strlen_le_of_zero {stop : Nat} (terminated : s stop = 0) : strlen s limit ≤ stop :=
  Nat.le_of_not_lt fun beyond => strlen_nonzero beyond terminated

theorem strlen_eq {stop : Nat} (room : stop < limit) (nonzero : ∀ i < stop, s i ≠ 0)
    (terminated : s stop = 0) : strlen s limit = stop :=
  strlenFrom_eq (Nat.zero_le stop) (by omega) (fun i _ upper => nonzero i upper) terminated

theorem strlen_eq_limit (nonzero : ∀ i < limit, s i ≠ 0) : strlen s limit = limit := by
  by_contra short
  have before : strlen s limit < limit := Nat.lt_of_le_of_ne (strlen_le s limit) short
  exact nonzero _ before (strlen_terminated before)

end Length

section Text

variable {s t : Memory} {limit : Nat}

theorem strlenFrom_ge (s : Memory) (fuel len : Nat) : len ≤ strlenFrom s fuel len := by
  induction fuel generalizing len with
  | zero => exact Nat.le_refl len
  | succ fuel ih =>
      rw [strlenFrom]
      split
      · exact Nat.le_refl len
      · exact Nat.le_of_succ_le (ih (len + 1))

theorem charDifference_eq_zero {first second : UInt8} :
    first.toInt8.toInt - second.toInt8.toInt = 0 ↔ first = second := by
  rw [Int.sub_eq_zero, Int8.toInt_inj]
  exact ⟨fun same => by simpa using congrArg Int8.toUInt8 same, fun same => by rw [same]⟩

theorem strncmpFrom_eq_zero (s t : Memory) (fuel i : Nat) :
    strncmpFrom s t fuel i = 0 ↔ ∀ j, i ≤ j → j < i + fuel → j ≤ strlenFrom s fuel i → s j = t j := by
  induction fuel generalizing i with
  | zero => exact ⟨fun _ j lower upper => by omega, fun _ => rfl⟩
  | succ fuel ih =>
      rw [strncmpFrom, strlenFrom]
      by_cases ended : s i = 0
      · rw [if_pos (.inr ended), if_pos ended, charDifference_eq_zero]
        constructor
        · intro same j lower _ upper
          rwa [show j = i by omega]
        · intro same
          exact same i (Nat.le_refl i) (by omega) (Nat.le_refl i)
      · rw [if_neg ended]
        have further := strlenFrom_ge s fuel (i + 1)
        by_cases same : s i = t i
        · rw [if_neg (by simp [same, same ▸ ended]), ih]
          constructor
          · intro rest j lower upper before
            by_cases first : j = i
            · rw [first, same]
            · exact rest j (by omega) (by omega) before
          · intro whole j lower upper before
            exact whole j (by omega) (by omega) before
        · rw [if_pos (.inl same), charDifference_eq_zero]
          exact ⟨fun equal => absurd equal same, fun whole => whole i (Nat.le_refl i) (by omega) (by omega)⟩

theorem text_eq_iff : text s limit = text t limit ↔ ∀ j < limit, j ≤ strlen s limit → s j = t j := by
  have bound := strlen_le s limit
  constructor
  · intro same j inside before
    have lengths : strlen s limit = strlen t limit := by simpa [text] using congrArg List.length same
    by_cases last : j = strlen s limit
    · subst last
      have first : s (strlen s limit) = 0 := strlen_terminated inside
      have second : t (strlen t limit) = 0 := strlen_terminated (lengths ▸ inside)
      rw [first, lengths, second]
    · have indexed := congrArg (·[j]?) same
      simpa [text, Memory.window, show j < strlen s limit by omega, show j < strlen t limit by omega] using indexed
  · intro agree
    have lengths : strlen t limit = strlen s limit := by
      have nonzero : ∀ i < strlen s limit, t i ≠ 0 := by
        intro i before
        rw [← agree i (by omega) (by omega)]
        exact strlen_nonzero before
      by_cases short : strlen s limit < limit
      · exact strlen_eq short nonzero (by rw [← agree _ short (Nat.le_refl _)]; exact strlen_terminated short)
      · have full : strlen s limit = limit := by omega
        rw [full] at nonzero ⊢
        exact strlen_eq_limit nonzero
    rw [text, text, lengths, Memory.window, Memory.window]
    refine List.map_congr_left fun j member => ?_
    have before := List.mem_range.mp member
    rw [Nat.zero_add]
    exact agree j (by omega) (by omega)

theorem strlen_congr (same : ∀ i < limit, s i = t i) : strlen s limit = strlen t limit := by
  have texts : text s limit = text t limit := text_eq_iff.mpr fun i inside _ => same i inside
  simpa only [text, Memory.window_length] using congrArg List.length texts

/-- `strncmp` compares the strings cut to `n` characters. -/
theorem strncmp_eq_zero {n : Nat} : strncmp s t n = 0 ↔ text s n = text t n := by
  rw [strncmp, strncmpFrom_eq_zero, text_eq_iff]
  constructor
  · intro agree j inside before
    exact agree j (Nat.zero_le j) (by omega) before
  · intro agree j _ inside before
    exact agree j (by omega) before

theorem strlen_min {n : Nat} (shorter : n ≤ limit) : strlen s n = min (strlen s limit) n := by
  by_cases inside : strlen s limit < n
  · rw [Nat.min_eq_left (by omega)]
    exact strlen_eq inside (fun i before => strlen_nonzero before) (strlen_terminated (by omega))
  · rw [Nat.min_eq_right (by omega)]
    exact strlen_eq_limit fun i before => strlen_nonzero (show i < strlen s limit by omega)

theorem text_take {n : Nat} (shorter : n ≤ limit) : (text s limit).take n = text s n := by
  rw [text, text, Memory.window, Memory.window, ← List.map_take, List.take_range, strlen_min shorter, Nat.min_comm]

theorem text_nil : text s limit = [] ↔ strlen s limit = 0 := by
  rw [← List.length_eq_zero_iff, text, Memory.window_length]

end Text

theorem strncpy_outside {memory src : Memory} {dest n cell : Nat}
    (outside : cell < dest ∨ dest + n ≤ cell) : strncpy memory dest src n cell = memory cell := by
  have bounded := strlen_le src n
  rw [strncpy, Memory.fill_outside (by omega), Memory.blit_outside (by omega)]

theorem strncpy_inside {memory src : Memory} {dest n i : Nat} (inside : i < strlen src n) :
    strncpy memory dest src n (dest + i) = src i := by
  rw [strncpy, Memory.fill_outside (by omega), Memory.blit_inside inside]

theorem nonzero_of_all {s : List UInt8} (all : s.all (· != 0)) : ∀ c ∈ s, c ≠ 0 := by
  simpa using all

/-- A NUL-terminated string in memory, from an address on. -/
inductive Spelt (memory : Memory) : Nat → List UInt8 → Prop where
  | nil {address : Nat} (terminated : memory address = 0) : Spelt memory address []
  | cons {address : Nat} {rest : List UInt8} (nonzero : memory address ≠ 0)
      (tail : Spelt memory (address + 1) rest) : Spelt memory address (memory address :: rest)

namespace Spelt

variable {memory : Memory} {address i : Nat} {s : List UInt8}

theorem at_index (spelt : Spelt memory address s) (inside : i < s.length) : memory (address + i) = s[i] := by
  induction spelt generalizing i with
  | nil terminated => cases inside
  | cons nonzero tail ih =>
      cases i with
      | zero => rfl
      | succ i =>
          have later := ih (Nat.lt_of_succ_lt_succ inside)
          rwa [Nat.add_assoc, Nat.add_comm 1] at later

theorem terminated (spelt : Spelt memory address s) : memory (address + s.length) = 0 := by
  induction spelt with
  | nil terminated => exact terminated
  | cons nonzero tail ih =>
      rw [List.length_cons]
      rwa [Nat.add_assoc, Nat.add_comm 1] at ih

theorem nonzero (spelt : Spelt memory address s) : ∀ c ∈ s, c ≠ 0 := by
  induction spelt with
  | nil terminated => exact nofun
  | cons nonzero tail ih =>
      intro c listed
      rcases List.mem_cons.mp listed with rfl | later
      · exact nonzero
      · exact ih c later

theorem of_bytes (bytes : ∀ (i : Nat) (inside : i < s.length), memory (address + i) = s[i]) (plain : ∀ c ∈ s, c ≠ 0)
    (last : memory (address + s.length) = 0) : Spelt memory address s := by
  induction s generalizing address with
  | nil => exact .nil last
  | cons c rest ih =>
      have first : memory address = c := bytes 0 (Nat.zero_lt_succ _)
      have shifted : ∀ i, address + 1 + i = address + (i + 1) := by omega
      subst first
      refine .cons (plain _ List.mem_cons_self) (ih (fun i inside => ?_) (fun d later => ?_) ?_)
      · rw [shifted]
        exact bytes (i + 1) (Nat.succ_lt_succ inside)
      · exact plain d (List.mem_cons_of_mem _ later)
      · rw [shifted]
        exact last

theorem of_list (plain : ∀ c ∈ s, c ≠ 0) : Spelt (fun index => s.getD index 0) 0 s := by
  refine of_bytes (fun i inside => ?_) plain ?_
  · rw [Nat.zero_add, List.getD_eq_getElem?_getD, List.getElem?_eq_getElem inside, Option.getD_some]
  · rw [Nat.zero_add, List.getD_eq_getElem?_getD, List.getElem?_eq_none (Nat.le_refl _), Option.getD_none]

theorem congr {other : Memory} (spelt : Spelt memory address s) (same : ∀ i, address ≤ i → other i = memory i) :
    Spelt other address s := by
  refine of_bytes (fun i inside => ?_) spelt.nonzero ?_
  · rw [same _ (Nat.le_add_right address i)]
    exact spelt.at_index inside
  · rw [same _ (Nat.le_add_right address s.length)]
    exact spelt.terminated

/-- A string with a row of one character in front. -/
theorem replicate {c : UInt8} {count : Nat} (nonzero : c ≠ 0) (spelt : Spelt memory (address + count) s)
    (row : ∀ i, address ≤ i → i < address + count → memory i = c) :
    Spelt memory address (List.replicate count c ++ s) := by
  induction count generalizing address with
  | zero => exact spelt
  | succ count ih =>
      have first : memory address = c := row address (Nat.le_refl address) (by omega)
      have tail : Spelt memory (address + 1) (List.replicate count c ++ s) := by
        refine ih ?_ fun i lower upper => row i (by omega) (by omega)
        rwa [Nat.add_assoc, Nat.add_comm 1]
      have whole : Spelt memory address (memory address :: (List.replicate count c ++ s)) :=
        .cons (by rwa [first]) tail
      rwa [first] at whole

theorem drop (spelt : Spelt memory address s) {count : Nat} (inside : count ≤ s.length) :
    Spelt memory (address + count) (s.drop count) := by
  refine of_bytes (fun i bound => ?_) (fun c listed => spelt.nonzero c (List.mem_of_mem_drop listed)) ?_
  · rw [List.length_drop] at bound
    rw [List.getElem_drop, Nat.add_assoc]
    exact spelt.at_index (by omega)
  · rw [List.length_drop, show address + count + (s.length - count) = address + s.length by omega]
    exact spelt.terminated

/-- The string behind a `takeWhile` is what `dropWhile` leaves. -/
theorem dropWhile (spelt : Spelt memory address s) (keep : UInt8 → Bool) :
    Spelt memory (address + (s.takeWhile keep).length) (s.dropWhile keep) := by
  have rest : s.drop (s.takeWhile keep).length = s.dropWhile keep := by
    have whole := List.takeWhile_append_dropWhile (p := keep) (l := s)
    nth_rewrite 2 [← whole]
    exact List.drop_left
  rw [← rest]
  exact spelt.drop (List.takeWhile_prefix _).length_le

/-- The string as `strlen` and its users see it. -/
theorem text_eq {limit : Nat} (spelt : Spelt memory address s) (room : s.length ≤ limit) :
    text (fun i => memory (address + i)) limit = s := by
  have length : strlen (fun i => memory (address + i)) limit = s.length := by
    have plain : ∀ i < s.length, memory (address + i) ≠ 0 := by
      intro i inside
      rw [spelt.at_index inside]
      exact spelt.nonzero _ (List.getElem_mem inside)
    by_cases full : s.length = limit
    · rw [← full]
      exact strlen_eq_limit plain
    · exact strlen_eq (by omega) plain spelt.terminated
  rw [text, length]
  refine List.ext_getElem (by simp) fun i _ inside => ?_
  simp only [Memory.window, List.getElem_map, List.getElem_range, Nat.zero_add]
  exact spelt.at_index inside

/-- A beginning of the string, copied to the front of a cleared array. -/
theorem strncpy_front {count : Nat} (spelt : Spelt memory address s) (dest : Memory) (inside : count ≤ s.length)
    (cleared : dest count = 0) :
    Spelt (strncpy dest 0 (fun i => memory (address + i)) count) 0 (s.take count) := by
  have length : strlen (fun i => memory (address + i)) count = count := by
    refine strlen_eq_limit fun i before => ?_
    rw [spelt.at_index (by omega)]
    exact spelt.nonzero _ (List.getElem_mem _)
  refine of_bytes (fun i bound => ?_) (fun c listed => spelt.nonzero c (List.mem_of_mem_take listed)) ?_
  · rw [List.length_take] at bound
    rw [List.getElem_take, strncpy_inside (by omega)]
    exact spelt.at_index (by omega)
  · rw [List.length_take, Nat.min_eq_left inside, strncpy_outside (by omega), Nat.zero_add]
    exact cleared

end Spelt

end BozOS.Lib
