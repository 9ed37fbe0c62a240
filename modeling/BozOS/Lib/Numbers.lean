import BozOS.Data.Buffer
import BozOS.Data.Word
import BozOS.Lib.Strings
import Mathlib.Data.Nat.Digits.Lemmas

namespace BozOS.Lib

open BozOS.Data

/-! Numbers as text: `itoa` of `lib.c`, which writes the digits from the lowest
to the highest and then reverses the string in place. -/

/-- The walk of `strlen` and `puts` to a NUL: the characters in front of it. -/
def scan : Nat → Nat → Buffer → Option (List UInt8 × Buffer)
  | 0, _, _ => none
  | fuel + 1, s, buffer =>
      if buffer.bytes s = 0 then some ([], buffer.touch s)
      else (scan fuel (s + 1) (buffer.touch s)).map fun rest => (buffer.bytes s :: rest.1, rest.2)

/-- The loop of `strrev`. Its upper index is signed, that of an empty string is
`-1`. -/
def strrevFrom (s : Nat) : Nat → Nat → Int → Buffer → Option Buffer
  | 0, _, _, _ => none
  | fuel + 1, beg, last, buffer =>
      if (beg : Int) < last then
        let tmp := buffer.bytes (s + last.toNat)
        let moved := ((buffer.touch (s + last.toNat)).touch (s + beg)).store (s + last.toNat) (buffer.bytes (s + beg))
        strrevFrom s fuel (beg + 1) (last - 1) (moved.store (s + beg) tmp)
      else some buffer

def strrev (buffer : Buffer) (s : Nat) : Option Buffer := do
  let (text, walked) ← scan addressSpace s buffer
  strrevFrom s (text.length + 1) 0 (i32 (text.length - 1)) walked

/-- The table in `itoa`, with the NUL that ends it. -/
def lookup : List UInt8 :=
  ("0123456789ABCDEFGHIJKLMNOPQRSTUVWXYZ".toList.map fun c => UInt8.ofNat c.toNat) ++ [0]

/-- The division loop of `itoa`. For a radix of zero it is a divide error, for one
that leads out of the table it reads foreign memory, and for a radix of one it
never ends; with any other one a 32-bit value is used up after 32 divisions. -/
def itoaFrom (radix : Nat) : Nat → Nat → Nat → Buffer → Option (Nat × Buffer)
  | 0, _, _, _ => none
  | fuel + 1, newval, newbuf, buffer =>
      if 0 < newval then
        if radix = 0 then none
        else do
          let digit ← lookup[newval % radix]?
          itoaFrom radix fuel (newval / radix) (newbuf + 1) (buffer.store newbuf digit)
      else some (newbuf, buffer)

/-- The buffer `itoa` leaves; the pointer it returns is always its own. -/
def itoa (value : Nat) (buffer : Buffer) (buf : Nat) (radix : Int) : Option Buffer :=
  if value = 0 then some ((buffer.store buf 0x30).store (buf + 1) 0)
  else do
    let (newbuf, digits) ← itoaFrom (u32 radix) 33 value buf buffer
    strrev (digits.store newbuf 0) buf

/-! What the text of a number is. -/

/-- The value of a digit, `0` to `9` and then `A` to `Z`. -/
def digitValue (c : UInt8) : Nat := if c ≤ 0x39 then c.toNat - 0x30 else c.toNat - 0x41 + 10

/-- Digits below the radix, the highest first, and the value they stand for. -/
structure Numeral (radix : Nat) (text : List UInt8) (value : Nat) : Prop where
  digits : ∀ c ∈ text, (0x30 ≤ c ∧ c ≤ 0x39 ∨ 0x41 ≤ c ∧ c ≤ 0x5A) ∧ digitValue c < radix
  value : Nat.ofDigits radix (text.map digitValue).reverse = value

/-- The numeral of a value without leading zeros. -/
structure Rendered (radix : Nat) (text : List UInt8) (value : Nat) : Prop where
  numeral : Numeral radix text value
  nonempty : text ≠ []
  leading : text.head? = some 0x30 → value = 0

section Walk

variable {buffer : Buffer} {s fuel : Nat} {text : List UInt8}

theorem scan_spelt {memory : Memory} (spelt : Spelt memory s text) (same : buffer.bytes = memory)
    (room : text.length < fuel) :
    ∃ after, scan fuel s buffer = some (text, after) ∧ after.bytes = memory ∧
      Buffer.Stays s (s + text.length) buffer after := by
  induction spelt generalizing fuel buffer with
  | @nil s terminated =>
      obtain ⟨fuel, rfl⟩ : ∃ left, fuel = left + 1 := ⟨fuel - 1, by omega⟩
      rw [scan, if_pos (by rw [same, terminated])]
      exact ⟨buffer.touch s, rfl, same, .touch (Nat.le_refl s) (by simp)⟩
  | @cons s rest nonzero tail ih =>
      obtain ⟨fuel, rfl⟩ : ∃ left, fuel = left + 1 := ⟨fuel - 1, by omega⟩
      rw [List.length_cons] at room
      obtain ⟨after, walked, kept, stays⟩ :=
        ih (show (buffer.touch s).bytes = memory from same) (show rest.length < fuel by omega)
      rw [scan, if_neg (by rwa [same]), walked, Option.map_some, same]
      refine ⟨after, rfl, kept, ?_⟩
      rw [List.length_cons]
      exact (Buffer.Stays.touch (Nat.le_refl s) (by omega)).trans (stays.mono (by omega) (by omega))

end Walk

section Reversal

variable {buffer : Buffer} {s top : Nat} {text : List UInt8}

/-- One exchange of the loop. -/
def swapped (buffer : Buffer) (s beg last : Nat) : Buffer :=
  (((buffer.touch (s + last)).touch (s + beg)).store (s + last) (buffer.bytes (s + beg))).store (s + beg)
    (buffer.bytes (s + last))

theorem swapped_bytes (beg last i : Nat) : (swapped buffer s beg last).bytes (s + i) =
    if i = beg then buffer.bytes (s + last) else if i = last then buffer.bytes (s + beg) else buffer.bytes (s + i) := by
  simp only [swapped, Buffer.store_bytes, Buffer.touch_bytes]
  by_cases front : i = beg
  · rw [if_pos front, front, Memory.store_same]
  · rw [if_neg front, Memory.store_other (by omega)]
    by_cases back : i = last
    · rw [if_pos back, back, Memory.store_same]
    · rw [if_neg back, Memory.store_other (by omega)]

theorem swapped_stays {beg last : Nat} (apart : beg < last) (inside : last ≤ top) :
    Buffer.Stays s (s + top) buffer (swapped buffer s beg last) := by
  have reads : Buffer.Stays s (s + top) buffer ((buffer.touch (s + last)).touch (s + beg)) :=
    (Buffer.Stays.touch (by omega) (by omega)).trans (.touch (by omega) (by omega))
  exact (reads.trans (.store (by omega) (by omega))).trans (.store (by omega) (by omega))

/-- The loop exchanges the cells between its two indices. -/
theorem strrevFrom_swaps (s fuel beg : Nat) (last : Int) (buffer : Buffer) (enough : last < beg + 2 * fuel)
    (inside : last ≤ top) :
    ∃ after, strrevFrom s (fuel + 1) beg last buffer = some after ∧
      (∀ i : Nat, after.bytes (s + i) =
        if (beg : Int) ≤ i ∧ i ≤ last then buffer.bytes (s + (beg + last - i).toNat) else buffer.bytes (s + i)) ∧
      Buffer.Stays s (s + top) buffer after := by
  induction fuel generalizing beg last buffer with
  | zero =>
      rw [strrevFrom, if_neg (by omega)]
      refine ⟨buffer, rfl, fun i => ?_, .refl⟩
      rw [if_neg (by omega)]
  | succ fuel ih =>
      rw [strrevFrom]
      by_cases crossed : (beg : Int) < last
      · rw [if_pos crossed]
        obtain ⟨after, ran, rest, stays⟩ :=
          ih (beg + 1) (last - 1) (swapped buffer s beg last.toNat) (by omega) (by omega)
        refine ⟨after, ran, fun i => ?_, (swapped_stays (by omega) (by omega)).trans stays⟩
        rw [rest, swapped_bytes, swapped_bytes]
        -- The two ends were exchanged by this iteration, what is between them by the others.
        by_cases front : i = beg
        · rw [if_neg (by omega), if_pos front, if_pos (by omega), show (beg + last - i).toNat = last.toNat by omega]
        · by_cases back : i = last.toNat
          · rw [if_neg (by omega), if_neg front, if_pos back, if_pos (by omega),
              show (beg + last - i).toNat = beg by omega]
          · by_cases between : (beg : Int) ≤ i ∧ i ≤ last
            · rw [if_pos (by omega), if_neg (by omega), if_neg (by omega), if_pos between]
              congr 2
              omega
            · rw [if_neg (by omega), if_neg front, if_neg back, if_neg between]
      · rw [if_neg crossed]
        refine ⟨buffer, rfl, fun i => ?_, .refl⟩
        split
        · congr 2
          omega
        · rfl

theorem strrev_reverses (spelt : Spelt buffer.bytes s text) (short : text.length < 2147483648) :
    ∃ after, strrev buffer s = some after ∧ Spelt after.bytes s text.reverse ∧
      Buffer.Stays s (s + text.length) buffer after := by
  obtain ⟨walked, scanned, same, walk⟩ : ∃ after, scan addressSpace s buffer = some (_, after) ∧ _ :=
    scan_spelt spelt rfl (show text.length < 4294967296 by omega)
  have inside : (text.length : Int) - 1 ≤ text.length := by omega
  obtain ⟨after, ran, reversed, stays⟩ := strrevFrom_swaps s text.length 0 (text.length - 1) walked (by omega) inside
  refine ⟨after, ?_, ?_, walk.trans stays⟩
  · simp only [strrev, scanned, Option.bind_eq_bind, Option.bind_some]
    rw [i32_of_range (by omega) (by omega), ran]
  · refine .of_bytes (fun i bound => ?_) (fun c listed => spelt.nonzero c (List.mem_reverse.mp listed)) ?_
    · rw [List.length_reverse] at bound
      rw [reversed, if_pos (by omega), same, List.getElem_reverse,
        show (((0 : Nat) : Int) + (text.length - 1) - i).toNat = text.length - 1 - i by omega]
      exact spelt.at_index (by omega)
    · rw [List.length_reverse, reversed, if_neg (by omega), same]
      exact spelt.terminated

end Reversal

section Digits

variable {buffer : Buffer} {radix fuel value buf digit : Nat} {text : List UInt8}

def digitChar (digit : Nat) : UInt8 := lookup.getD digit 0

/-- A digit in the table: it is found, it is a digit, and it stands for its
place. -/
theorem lookup_digit (below : digit < 36) : lookup[digit]? = some (digitChar digit) ∧
    (0x30 ≤ digitChar digit ∧ digitChar digit ≤ 0x39 ∨ 0x41 ≤ digitChar digit ∧ digitChar digit ≤ 0x5A) ∧
    digitValue (digitChar digit) = digit := by
  have table : ∀ digit < 36, lookup[digit]? = some (digitChar digit) ∧
      (0x30 ≤ digitChar digit ∧ digitChar digit ≤ 0x39 ∨ 0x41 ≤ digitChar digit ∧ digitChar digit ≤ 0x5A) ∧
      digitValue (digitChar digit) = digit := by decide
  exact table digit below

/-- The text of a value in some radix: the digits of the value from the highest
to the lowest, and one digit for zero. -/
def rendering (radix value : Nat) : List UInt8 :=
  if value = 0 then [0x30] else ((Nat.digits radix value).map digitChar).reverse

theorem itoaFrom_digits (lower : 1 < radix) (upper : radix ≤ 36) (enough : value < radix ^ fuel) :
    ∃ after, itoaFrom radix (fuel + 1) value buf buffer = some (buf + (Nat.digits radix value).length, after) ∧
      (∀ i digit, (Nat.digits radix value)[i]? = some digit → after.bytes (buf + i) = digitChar digit) ∧
      Buffer.Stays buf (buf + (Nat.digits radix value).length) buffer after := by
  induction fuel generalizing value buf buffer with
  | zero =>
      obtain rfl : value = 0 := by simpa using enough
      rw [itoaFrom, if_neg (Nat.lt_irrefl 0), Nat.digits_zero]
      exact ⟨buffer, rfl, by simp, .refl⟩
  | succ fuel ih =>
      rw [itoaFrom]
      by_cases positive : 0 < value
      · have smaller : value / radix < radix ^ fuel := by
          rw [Nat.pow_succ, Nat.mul_comm] at enough
          exact Nat.div_lt_of_lt_mul enough
        have found := (lookup_digit (Nat.lt_of_lt_of_le (Nat.mod_lt value (by omega)) upper)).1
        obtain ⟨after, ran, written, stays⟩ : ∃ after, itoaFrom radix (fuel + 1) (value / radix) (buf + 1)
            (buffer.store buf (digitChar (value % radix))) = some (_, after) ∧ _ := ih smaller
        rw [if_pos positive, if_neg (by omega), found, Nat.digits_def' lower positive, List.length_cons]
        refine ⟨after, ?_, fun i digit listed => ?_, ?_⟩
        · simp only [Option.bind_eq_bind, Option.bind_some, ran, Nat.add_assoc, Nat.add_comm 1]
        · cases i with
          | zero =>
              obtain rfl : value % radix = digit := by simpa using listed
              rw [Nat.add_zero, stays.outside buf (by omega), Buffer.store_bytes, Memory.store_same]
          | succ i =>
              rw [List.getElem?_cons_succ] at listed
              rw [← written i digit listed, Nat.add_assoc, Nat.add_comm 1]
        · exact (Buffer.Stays.store (Nat.le_refl buf) (by omega)).trans (stays.mono (by omega) (by omega))
      · obtain rfl : value = 0 := by omega
        rw [if_neg positive, Nat.digits_zero]
        exact ⟨buffer, rfl, by simp, .refl⟩

theorem digits_below (lower : 1 < radix) (upper : radix ≤ 36) (listed : digit ∈ Nat.digits radix value) : digit < 36 :=
  Nat.lt_of_lt_of_le (Nat.digits_lt_base lower listed) upper

theorem digitChar_nonzero (below : digit < 36) : digitChar digit ≠ 0 := by
  obtain ⟨-, range, -⟩ := lookup_digit below
  rintro zero
  rw [zero] at range
  exact absurd range (by decide)

/-- The digits in the order of the loop, with the NUL behind them. -/
theorem digits_spelt {filled : Buffer} (lower : 1 < radix) (upper : radix ≤ 36)
    (written : ∀ i digit, (Nat.digits radix value)[i]? = some digit → filled.bytes (buf + i) = digitChar digit) :
    Spelt (filled.store (buf + (Nat.digits radix value).length) 0).bytes buf
      ((Nat.digits radix value).map digitChar) := by
  refine .of_bytes (fun i inside => ?_) (fun c listed => ?_) ?_
  · rw [List.length_map] at inside
    rw [Buffer.store_bytes, Memory.store_other (by omega), List.getElem_map]
    exact written i _ (List.getElem?_eq_getElem inside)
  · obtain ⟨digit, member, rfl⟩ := List.mem_map.mp listed
    exact digitChar_nonzero (digits_below lower upper member)
  · rw [List.length_map, Buffer.store_bytes, Memory.store_same]

/-- `itoa` leaves the text of the value, and uses its own cells only. -/
theorem itoa_spells (buffer : Buffer) (buf : Nat) {radix : Int} (lower : 2 ≤ radix) (upper : radix ≤ 36)
    (word : value < 4294967296) :
    ∃ after, itoa value buffer buf radix = some after ∧ Spelt after.bytes buf (rendering radix.toNat value) ∧
      Buffer.Stays buf (buf + (rendering radix.toNat value).length) buffer after := by
  unfold itoa rendering
  by_cases zero : value = 0
  · rw [if_pos zero, if_pos zero]
    refine ⟨_, rfl, ?_, (Buffer.Stays.store (Nat.le_refl buf) (by simp)).trans (.store (by omega) (by simp))⟩
    refine .of_bytes (fun i inside => ?_) (nonzero_of_all (by decide)) Memory.store_same
    obtain rfl : i = 0 := by simpa using inside
    rw [Buffer.store_bytes, Memory.store_other (by omega)]
    exact Memory.store_same
  · rw [if_neg zero, if_neg zero, u32_of_range (by omega) (by omega)]
    have enough : value < radix.toNat ^ 32 :=
      Nat.lt_of_lt_of_le word (Nat.pow_le_pow_left (show 2 ≤ radix.toNat by omega) 32)
    have length : (Nat.digits radix.toNat value).length ≤ 32 := (Nat.digits_length_le_iff (by omega) value).mpr enough
    obtain ⟨filled, ran, written, stays⟩ : ∃ after, itoaFrom radix.toNat 33 value buf buffer = some (_, after) ∧ _ :=
      itoaFrom_digits (by omega) (by omega) enough
    obtain ⟨after, reversed, spelt, swaps⟩ :=
      strrev_reverses (digits_spelt (by omega) (by omega) written) (by rw [List.length_map]; omega)
    rw [List.length_map] at swaps
    rw [List.length_reverse, List.length_map]
    refine ⟨after, ?_, spelt, (stays.trans (.store (by omega) (Nat.le_refl _))).trans swaps⟩
    simp only [ran, Option.bind_eq_bind, Option.bind_some, reversed]

theorem rendering_length {width : Nat} (lower : 1 < radix) (positive : 1 ≤ width) (narrow : value < radix ^ width) :
    (rendering radix value).length ≤ width := by
  unfold rendering
  split
  · simpa using positive
  · rw [List.length_reverse, List.length_map]
    exact (Nat.digits_length_le_iff lower value).mpr narrow

theorem rendering_numeral (lower : 1 < radix) (upper : radix ≤ 36) : Numeral radix (rendering radix value) value := by
  unfold rendering
  split
  · rename_i zero
    subst zero
    refine ⟨fun c listed => ?_, by simp [digitValue]⟩
    obtain rfl : c = 0x30 := by simpa using listed
    exact ⟨by decide, Nat.lt_of_lt_of_le Nat.zero_lt_one (by omega)⟩
  · have values : ((Nat.digits radix value).map digitChar).map digitValue = Nat.digits radix value := by
      rw [List.map_map]
      refine (List.map_congr_left fun digit member => ?_).trans (List.map_id _)
      exact (lookup_digit (digits_below lower upper member)).2.2
    refine ⟨fun c listed => ?_, ?_⟩
    · obtain ⟨digit, member, rfl⟩ := List.mem_map.mp (List.mem_reverse.mp listed)
      obtain ⟨-, range, place⟩ := lookup_digit (digits_below lower upper member)
      rw [place]
      exact ⟨range, Nat.digits_lt_base lower member⟩
    · rw [List.map_reverse, List.reverse_reverse, values, Nat.ofDigits_digits]

theorem rendering_nonempty : rendering radix value ≠ [] := by
  unfold rendering
  split
  · simp
  · rename_i nonzero
    rwa [ne_eq, List.reverse_eq_nil_iff, List.map_eq_nil_iff, Nat.digits_eq_nil_iff_eq_zero]

theorem rendering_leading (lower : 1 < radix) (upper : radix ≤ 36) (nonzero : value ≠ 0) :
    (rendering radix value).head? ≠ some 0x30 := by
  have some : Nat.digits radix value ≠ [] := Nat.digits_ne_nil_iff_ne_zero.mpr nonzero
  rw [rendering, if_neg nonzero, List.head?_reverse, List.getLast?_map, List.getLast?_eq_some_getLast some]
  intro zero
  rw [Option.map_some, Option.some.injEq] at zero
  obtain ⟨-, -, place⟩ := lookup_digit (digits_below lower upper (List.getLast_mem some))
  rw [zero] at place
  exact Nat.getLast_digit_ne_zero radix nonzero place.symm

theorem rendering_rendered (lower : 1 < radix) (upper : radix ≤ 36) :
    Rendered radix (rendering radix value) value where
  numeral := rendering_numeral lower upper
  nonempty := rendering_nonempty
  leading zero := by
    by_contra nonzero
    exact rendering_leading lower upper nonzero zero

/-- Zeros in front change nothing. -/
theorem Numeral.pad (numeral : Numeral radix text value) (positive : 0 < radix) (count : Nat) :
    Numeral radix (List.replicate count 0x30 ++ text) value := by
  refine ⟨fun c listed => ?_, ?_⟩
  · rcases List.mem_append.mp listed with zero | digit
    · rw [List.eq_of_mem_replicate zero]
      exact ⟨by decide, positive⟩
    · exact numeral.digits c digit
  · have zero : digitValue 0x30 = 0 := by decide
    rw [List.map_append, List.map_replicate, zero, List.reverse_append, List.reverse_replicate,
      Nat.ofDigits_append_replicate_zero, numeral.value]

end Digits

end BozOS.Lib
