import BozOS.Kernel.Console
import BozOS.Lib.Numbers

namespace BozOS

open Data Lib

/-! `printf` of `lib.c`. The format, the arguments and the strings they point to
are in one memory; the array a number is converted in is on the stack, with
whatever the stack held before. -/

/-- `%x` without its modifier, and `%u`. -/
def convertUnsigned (convBuf : Memory) (value : Nat) (radix : Int) : Option (List UInt8 × Buffer) := do
  let rendered ← itoa value (.new convBuf) 0 radix
  scan addressSpace 0 rendered

/-- The loop of `%#x` that puts zeros in front of the digits. -/
def padFrom : Nat → Nat → Buffer → Buffer
  | 0, _, buffer => buffer
  | fuel + 1, i, buffer => if i < 8 then padFrom fuel (i + 1) (buffer.store i 0x30) else buffer

/-- `%#x`: the digits go behind the first 8 cells, and as many cells in front of
them become zeros as there are digits missing. -/
def convertAlternate (convBuf : Memory) (value : Nat) : Option (List UInt8 × Buffer) := do
  let rendered ← itoa value (.new convBuf) 8 16
  let (digits, walked) ← scan addressSpace 8 rendered
  scan addressSpace digits.length (padFrom 8 digits.length walked)

/-- `%d`. -/
def convertSigned (convBuf : Memory) (word : Nat) : Option (List UInt8 × Buffer) := do
  let value := i32 word
  let rendered ←
    if value < 0 then itoa (u32 (-value)) ((Buffer.new convBuf).store 0 0x2D) 1 10
    else itoa (u32 value) (.new convBuf) 0 10
  scan addressSpace 0 rendered

/-- The specifiers that use up an argument: `x`, `u`, `d`, `c` and `s`. -/
def takesArgument (specifier : UInt8) : Bool :=
  specifier = 0x78 ∨ specifier = 0x75 ∨ specifier = 0x64 ∨ specifier = 0x63 ∨ specifier = 0x73

/-- The text such a conversion prints for its argument. -/
def convert (memory convBuf : Memory) (alternate : Bool) (specifier : UInt8) (word : Nat) : Option (List UInt8) :=
  if specifier = 0x78 then
    if alternate then (convertAlternate convBuf word).map Prod.fst
    else (convertUnsigned convBuf word 16).map Prod.fst
  else if specifier = 0x75 then (convertUnsigned convBuf word 10).map Prod.fst
  else if specifier = 0x64 then (convertSigned convBuf word).map Prod.fst
  else if specifier = 0x63 then some [UInt8.ofNat word]
  else (scan addressSpace word (.new memory)).map Prod.fst

/-- Where `printf` is in its format: between conversions, or behind a percent
sign and the modifiers read so far. -/
inductive Formatting where
  | text
  | conversion (alternate : Bool)
deriving DecidableEq, Repr

/-- The loop of `printf`, one character of the format at a time. An unknown
specifier is skipped, also when it is the NUL of the format. -/
def printfFrom (memory : Memory) (convBuf : Nat → Memory) :
    Nat → Formatting → Nat → Nat → Kernel → Option (Nat × Kernel)
  | 0, _, _, _, _ => none
  | fuel + 1, .text, buf, esp, k =>
      if memory buf = 0 then some (buf, k)
      else if memory buf = 0x25 then printfFrom memory convBuf fuel (.conversion false) (buf + 1) esp k
      else printfFrom memory convBuf fuel .text (buf + 1) esp (putc k (memory buf))
  | fuel + 1, .conversion alternate, buf, esp, k =>
      if memory buf = 0x25 then printfFrom memory convBuf fuel .text (buf + 1) esp (putc k 0x25)
      else if memory buf = 0x23 then printfFrom memory convBuf fuel (.conversion true) (buf + 1) esp k
      else if takesArgument (memory buf) then do
        let printed ← convert memory (convBuf buf) alternate (memory buf) (le32 memory esp)
        printfFrom memory convBuf fuel .text (buf + 1) (esp + 4) (puts k printed)
      else printfFrom memory convBuf fuel .text (buf + 1) esp k

def printf (memory : Memory) (convBuf : Nat → Memory) (format esp : Nat) (k : Kernel) : Option (Int × Kernel) :=
  (printfFrom memory convBuf addressSpace .text format esp k).map fun result => (result.1 - format, result.2)

section Conversions

variable {value fuel i : Nat} {radix : Int} {buffer : Buffer}

/-- A text in the front part of the array is printed from there. -/
theorem scan_within {start : Buffer} {top s : Nat} {text : List UInt8} (spelt : Spelt buffer.bytes s text)
    (inside : s + text.length ≤ top) (narrow : top < 4294967296) (stays : Buffer.Stays 0 top start buffer) :
    ∃ after, scan addressSpace s buffer = some (text, after) ∧ after.bytes = buffer.bytes ∧
      Buffer.Stays 0 top start after := by
  obtain ⟨after, walked, same, walk⟩ : ∃ after, scan addressSpace s buffer = some (_, after) ∧ _ :=
    scan_spelt spelt rfl (show text.length < 4294967296 by omega)
  exact ⟨after, walked, same, stays.trans (walk.mono (Nat.zero_le s) inside)⟩

/-- Eight digits of a value in radix 16. -/
def paddedHex (value : Nat) : List UInt8 :=
  List.replicate (8 - (rendering 16 value).length) 0x30 ++ rendering 16 value

theorem hex_length (word : value < 4294967296) : (rendering 16 value).length ≤ 8 :=
  rendering_length (by decide) (by decide) word

theorem paddedHex_length (word : value < 4294967296) : (paddedHex value).length = 8 := by
  have short := hex_length word
  rw [paddedHex, List.length_append, List.length_replicate]
  omega

theorem paddedHex_numeral (value : Nat) : Numeral 16 (paddedHex value) value :=
  (rendering_numeral (by decide) (by decide)).pad (by decide) _

theorem padFrom_fills (enough : 8 ≤ i + fuel) :
    (padFrom fuel i buffer).bytes = buffer.bytes.fill i 0x30 (8 - i) ∧
      Buffer.Stays i 7 buffer (padFrom fuel i buffer) := by
  induction fuel generalizing i buffer with
  | zero =>
      rw [padFrom, show 8 - i = 0 by omega]
      exact ⟨Memory.blit_zero.symm, .refl⟩
  | succ fuel ih =>
      rw [padFrom]
      split
      · obtain ⟨filled, stays⟩ : (padFrom fuel (i + 1) (buffer.store i 0x30)).bytes = _ ∧ _ := ih (by omega)
        refine ⟨?_, (Buffer.Stays.store (Nat.le_refl i) (by omega)).trans (stays.mono (by omega) (Nat.le_refl 7))⟩
        rw [filled, Buffer.store_bytes, show 8 - i = 8 - (i + 1) + 1 by omega]
        exact Memory.store_fill
      · rw [show 8 - i = 0 by omega]
        exact ⟨Memory.blit_zero.symm, .refl⟩

/-- The zeros begin as far from the front as the digits are long. -/
theorem padFrom_spelt {digits : List UInt8} (spelt : Spelt buffer.bytes 8 digits) (short : digits.length ≤ 8) :
    Spelt (padFrom 8 digits.length buffer).bytes digits.length
      (List.replicate (8 - digits.length) 0x30 ++ digits) := by
  obtain ⟨filled, -⟩ : (padFrom 8 digits.length buffer).bytes = _ ∧ _ := padFrom_fills (by omega)
  refine .replicate (by decide) ?_ fun i lower upper => ?_
  · rw [show digits.length + (8 - digits.length) = 8 by omega]
    refine spelt.congr fun i lower => ?_
    rw [filled, Memory.fill_outside (by omega)]
  · rw [filled]
    exact Memory.fill_at lower upper

/-- The digits of `%#x`, and the part of the array it uses. -/
theorem convertAlternate_prints (convBuf : Memory) (word : value < 4294967296) :
    ∃ after, convertAlternate convBuf value = some (paddedHex value, after) ∧
      Buffer.Stays 0 16 (.new convBuf) after := by
  have short := hex_length word
  have eight := paddedHex_length word
  obtain ⟨rendered, converted, spelt, stays⟩ : ∃ after, itoa value (.new convBuf) 8 16 = some after ∧
      Spelt after.bytes 8 (rendering 16 value) ∧ Buffer.Stays 8 (8 + (rendering 16 value).length) _ after :=
    itoa_spells (.new convBuf) 8 (by decide : (2 : Int) ≤ 16) (by decide) word
  obtain ⟨walked, measured, same, walk⟩ :=
    scan_within spelt (show _ ≤ 16 by omega) (by decide) (stays.mono (Nat.zero_le 8) (by omega))
  obtain ⟨-, pads⟩ : (padFrom 8 (rendering 16 value).length walked).bytes = _ ∧ _ := padFrom_fills (by omega)
  have padded : Spelt (padFrom 8 (rendering 16 value).length walked).bytes (rendering 16 value).length
      (paddedHex value) := padFrom_spelt (same ▸ spelt) short
  obtain ⟨after, printed, -, last⟩ :=
    scan_within padded (show _ ≤ 16 by omega) (by decide) (walk.trans (pads.mono (Nat.zero_le _) (by decide)))
  refine ⟨after, ?_, last⟩
  simp only [convertAlternate, converted, measured, Option.bind_eq_bind, Option.bind_some, printed]

example : (convertAlternate (fun _ => 0xFF) 0xE).map Prod.fst = some (literal "0000000E") := by decide

/-- The digits of `%x` and `%u`, and the part of the array they use. -/
theorem convertUnsigned_prints (convBuf : Memory) (lower : 2 ≤ radix) (upper : radix ≤ 36)
    (word : value < 4294967296) :
    ∃ after, convertUnsigned convBuf value radix = some (rendering radix.toNat value, after) ∧
      Buffer.Stays 0 32 (.new convBuf) after := by
  have short : (rendering radix.toNat value).length ≤ 32 :=
    rendering_length (by omega) (by decide)
      (Nat.lt_of_lt_of_le word (Nat.pow_le_pow_left (show 2 ≤ radix.toNat by omega) 32))
  obtain ⟨rendered, converted, spelt, stays⟩ := itoa_spells (.new convBuf) 0 lower upper word
  obtain ⟨after, printed, -, walk⟩ :=
    scan_within spelt (show _ ≤ 32 by omega) (by decide) (stays.mono (Nat.le_refl 0) (by omega))
  refine ⟨after, ?_, walk⟩
  simp only [convertUnsigned, converted, Option.bind_eq_bind, Option.bind_some, printed]

/-- The text of a signed number in radix 10. -/
def signedText (value : Int) : List UInt8 :=
  if value < 0 then 0x2D :: rendering 10 (-value).toNat else rendering 10 value.toNat

theorem decimal_length (narrow : value < 4294967296) : (rendering 10 value).length ≤ 10 :=
  rendering_length (by decide) (by decide) (Nat.lt_trans narrow (by decide))

/-- The digits behind a sign. -/
theorem itoa_signed (convBuf : Memory) (narrow : value < 4294967296) :
    ∃ after, itoa value ((Buffer.new convBuf).store 0 0x2D) 1 10 = some after ∧
      Spelt after.bytes 0 (0x2D :: rendering 10 value) ∧ Buffer.Stays 0 11 (.new convBuf) after := by
  have short := decimal_length narrow
  obtain ⟨after, converted, spelt, stays⟩ : ∃ after, itoa value ((Buffer.new convBuf).store 0 0x2D) 1 10 = some after ∧
      Spelt after.bytes (0 + 1) (rendering 10 value) ∧ Buffer.Stays 1 (1 + (rendering 10 value).length) _ after :=
    itoa_spells _ 1 (by decide : (2 : Int) ≤ 10) (by decide) narrow
  have sign : after.bytes 0 = 0x2D := by
    rw [stays.outside 0 (by omega), Buffer.store_bytes, Memory.store_same]
  have whole : Spelt after.bytes 0 (after.bytes 0 :: rendering 10 value) := .cons (by rw [sign]; decide) spelt
  rw [sign] at whole
  exact ⟨after, converted, whole,
    (Buffer.Stays.store (Nat.le_refl 0) (by decide)).trans (stays.mono (Nat.zero_le 1) (by omega))⟩

/-- The text of `%d`. The opposite of the least number does not fit, but what
`itoa` takes for it is unsigned. -/
theorem convertSigned_prints (convBuf : Memory) (word : Nat) :
    ∃ after, convertSigned convBuf word = some (signedText (i32 word), after) ∧
      Buffer.Stays 0 11 (.new convBuf) after := by
  have lower : -2147483648 ≤ i32 word := by unfold i32; omega
  have upper : i32 word < 2147483648 := by unfold i32; omega
  by_cases negative : i32 word < 0
  · have narrow : (-i32 word).toNat < 4294967296 := by omega
    have short := decimal_length narrow
    obtain ⟨rendered, converted, spelt, stays⟩ := itoa_signed convBuf narrow
    obtain ⟨after, printed, -, walk⟩ :=
      scan_within spelt (show _ ≤ 11 by rw [List.length_cons]; omega) (by decide) stays
    refine ⟨after, ?_, walk⟩
    simp only [convertSigned, signedText, if_pos negative, u32_of_range (show 0 ≤ -i32 word by omega) (by omega),
      converted, Option.bind_eq_bind, Option.bind_some, printed]
  · have narrow : (i32 word).toNat < 4294967296 := by omega
    have short := decimal_length narrow
    obtain ⟨rendered, converted, spelt, stays⟩ : ∃ after, itoa (i32 word).toNat (.new convBuf) 0 10 = some after ∧
        Spelt after.bytes 0 (rendering 10 (i32 word).toNat) ∧ Buffer.Stays 0 (0 + (rendering 10 _).length) _ after :=
      itoa_spells (.new convBuf) 0 (by decide : (2 : Int) ≤ 10) (by decide) narrow
    obtain ⟨after, printed, -, walk⟩ :=
      scan_within spelt (show _ ≤ 11 by omega) (by decide) (stays.mono (Nat.le_refl 0) (by omega))
    refine ⟨after, ?_, walk⟩
    simp only [convertSigned, signedText, if_neg negative, u32_of_range (show 0 ≤ i32 word by omega) (by omega),
      converted, Option.bind_eq_bind, Option.bind_some, printed]

end Conversions

section Formats

variable {memory : Memory} {convBuf : Nat → Memory} {fuel buf esp next : Nat} {k : Kernel}
  {alternate : Bool} {specifier : UInt8} {text : List UInt8}

/-- What a conversion prints, and where the next argument is. An unknown one
prints nothing. -/
inductive Shows (memory : Memory) (esp : Nat) : Bool → UInt8 → List UInt8 → Nat → Prop where
  | percent {alternate : Bool} : Shows memory esp alternate 0x25 [0x25] esp
  | hex : Shows memory esp false 0x78 (rendering 16 (le32 memory esp)) (esp + 4)
  | alternateHex : Shows memory esp true 0x78 (paddedHex (le32 memory esp)) (esp + 4)
  | unsigned {alternate : Bool} : Shows memory esp alternate 0x75 (rendering 10 (le32 memory esp)) (esp + 4)
  | signed {alternate : Bool} : Shows memory esp alternate 0x64 (signedText (i32 (le32 memory esp))) (esp + 4)
  | char {alternate : Bool} : Shows memory esp alternate 0x63 [UInt8.ofNat (le32 memory esp)] (esp + 4)
  | string {alternate : Bool} {text : List UInt8} (spelt : Spelt memory (le32 memory esp) text)
      (short : text.length < addressSpace) : Shows memory esp alternate 0x73 text (esp + 4)
  | unknown {alternate : Bool} {specifier : UInt8} (percent : specifier ≠ 0x25) (hash : specifier ≠ 0x23)
      (other : takesArgument specifier = false) : Shows memory esp alternate specifier [] esp

theorem printfFrom_argument (here : memory buf = specifier) (takes : takesArgument specifier)
    (converted : convert memory (convBuf buf) alternate specifier (le32 memory esp) = some text) :
    printfFrom memory convBuf (fuel + 1) (.conversion alternate) buf esp k =
      printfFrom memory convBuf fuel .text (buf + 1) (esp + 4) (puts k text) := by
  have percent : specifier ≠ 0x25 := by
    rintro rfl
    exact absurd takes (by decide)
  have hash : specifier ≠ 0x23 := by
    rintro rfl
    exact absurd takes (by decide)
  rw [printfFrom, here, if_neg percent, if_neg hash, if_pos takes, converted]
  rfl

theorem printfFrom_specifier (here : memory buf = specifier) (shown : Shows memory esp alternate specifier text next) :
    printfFrom memory convBuf (fuel + 1) (.conversion alternate) buf esp k =
      printfFrom memory convBuf fuel .text (buf + 1) next (puts k text) := by
  have word := le32_lt memory esp
  cases shown with
  | percent =>
      rw [printfFrom, here, if_pos rfl]
      rfl
  | hex =>
      obtain ⟨after, converted, -⟩ :=
        convertUnsigned_prints (convBuf buf) (by decide : (2 : Int) ≤ 16) (by decide) word
      refine printfFrom_argument here rfl ?_
      rw [convert, if_pos rfl, if_neg Bool.false_ne_true, converted]
      rfl
  | alternateHex =>
      obtain ⟨after, converted, -⟩ := convertAlternate_prints (convBuf buf) word
      refine printfFrom_argument here rfl ?_
      rw [convert, if_pos rfl, if_pos rfl, converted, Option.map_some]
  | unsigned =>
      obtain ⟨after, converted, -⟩ :=
        convertUnsigned_prints (convBuf buf) (by decide : (2 : Int) ≤ 10) (by decide) word
      refine printfFrom_argument here rfl ?_
      rw [convert, if_neg (by decide), if_pos rfl, converted]
      rfl
  | signed =>
      obtain ⟨after, converted, -⟩ := convertSigned_prints (convBuf buf) (le32 memory esp)
      refine printfFrom_argument here rfl ?_
      rw [convert, if_neg (by decide), if_neg (by decide), if_pos rfl, converted, Option.map_some]
  | char =>
      refine printfFrom_argument here rfl ?_
      rw [convert, if_neg (by decide), if_neg (by decide), if_neg (by decide), if_pos rfl]
  | string spelt short =>
      obtain ⟨after, walked, -⟩ : ∃ after, scan addressSpace _ (.new memory) = some (_, after) ∧ _ :=
        scan_spelt spelt rfl short
      refine printfFrom_argument here rfl ?_
      rw [convert, if_neg (by decide), if_neg (by decide), if_neg (by decide), if_neg (by decide), walked,
        Option.map_some]
  | unknown percent hash other =>
      rw [printfFrom, here, if_neg percent, if_neg hash, if_neg (by simp [other])]
      rfl

/-- `%#x` anywhere in a format. -/
theorem printfFrom_alternateHex (percent : memory buf = 0x25) (hash : memory (buf + 1) = 0x23)
    (specifier : memory (buf + 2) = 0x78) :
    printfFrom memory convBuf (fuel + 3) .text buf esp k =
      printfFrom memory convBuf fuel .text (buf + 3) (esp + 4) (puts k (paddedHex (le32 memory esp))) := by
  rw [printfFrom, percent, if_neg (by decide), if_pos rfl]
  rw [printfFrom, hash, if_neg (by decide), if_pos rfl]
  exact printfFrom_specifier specifier .alternateHex

theorem printfFrom_hashes {count : Nat} (hashes : ∀ i < count, memory (buf + i) = 0x23) :
    printfFrom memory convBuf (fuel + count) (.conversion alternate) buf esp k =
      printfFrom memory convBuf fuel (.conversion (alternate || decide (0 < count))) (buf + count) esp k := by
  induction count generalizing buf alternate with
  | zero => simp
  | succ count ih =>
      have later : ∀ i < count, memory (buf + 1 + i) = 0x23 := fun i inside => by
        rw [Nat.add_assoc, Nat.add_comm 1]
        exact hashes (i + 1) (by omega)
      rw [← Nat.add_assoc, printfFrom, show memory buf = 0x23 from hashes 0 (by omega), if_neg (by decide), if_pos rfl,
        ih later, Nat.add_assoc, Nat.add_comm 1]
      simp

/-- A percent sign, its modifiers and its specifier. -/
theorem printfFrom_directive {count : Nat} (percent : memory buf = 0x25)
    (hashes : ∀ i < count, memory (buf + 1 + i) = 0x23) (here : memory (buf + 1 + count) = specifier)
    (shown : Shows memory esp (decide (0 < count)) specifier text next) :
    printfFrom memory convBuf (fuel + (count + 2)) .text buf esp k =
      printfFrom memory convBuf fuel .text (buf + (count + 2)) next (puts k text) := by
  rw [show fuel + (count + 2) = fuel + 1 + count + 1 by omega, show buf + (count + 2) = buf + 1 + count + 1 by omega]
  rw [printfFrom, percent, if_neg (by decide), if_pos rfl, printfFrom_hashes hashes, Bool.false_or]
  exact printfFrom_specifier here shown

theorem puts_append (first second : List UInt8) : puts k (first ++ second) = puts (puts k first) second :=
  List.foldl_append

theorem printfFrom_chars {chars rest : List UInt8} (spelt : Spelt memory buf (chars ++ rest))
    (plain : ∀ c ∈ chars, c ≠ 0x25) :
    printfFrom memory convBuf (fuel + chars.length) .text buf esp k =
      printfFrom memory convBuf fuel .text (buf + chars.length) esp (puts k chars) := by
  induction chars generalizing buf k with
  | nil => rfl
  | cons c chars ih =>
      have here : memory buf = c := spelt.at_index (Nat.zero_lt_succ _)
      have tail : Spelt memory (buf + 1) (chars ++ rest) := spelt.drop (Nat.succ_le_succ (Nat.zero_le _))
      have nonzero : c ≠ 0 := spelt.nonzero c List.mem_cons_self
      have other : c ≠ 0x25 := plain c List.mem_cons_self
      rw [List.length_cons, ← Nat.add_assoc, printfFrom, here, if_neg nonzero, if_neg other,
        ih tail fun d listed => plain d (List.mem_cons_of_mem c listed), Nat.add_assoc, Nat.add_comm 1]
      rfl

/-- A part of a format: characters to print, or a conversion with its modifiers. -/
inductive Piece where
  | chars (text : List UInt8)
  | directive (hashes : Nat) (specifier : UInt8)

def Piece.format : Piece → List UInt8
  | .chars text => text
  | .directive hashes specifier => 0x25 :: (List.replicate hashes 0x23 ++ [specifier])

/-- What a format prints with the arguments from the first address on, and where
they end. -/
inductive Prints (memory : Memory) : Nat → List Piece → List UInt8 → Nat → Prop where
  | done {esp : Nat} : Prints memory esp [] [] esp
  | chars {esp last : Nat} {text printed : List UInt8} {rest : List Piece} (plain : ∀ c ∈ text, c ≠ 0x25)
      (later : Prints memory esp rest printed last) : Prints memory esp (.chars text :: rest) (text ++ printed) last
  | directive {esp next last hashes : Nat} {specifier : UInt8} {text printed : List UInt8} {rest : List Piece}
      (shown : Shows memory esp (decide (0 < hashes)) specifier text next)
      (later : Prints memory next rest printed last) :
      Prints memory esp (.directive hashes specifier :: rest) (text ++ printed) last

theorem Prints.append {before behind : List Piece} {printed rest : List UInt8} {middle last : Nat}
    (front : Prints memory esp before printed middle) (back : Prints memory middle behind rest last) :
    Prints memory esp (before ++ behind) (printed ++ rest) last := by
  induction front with
  | done => exact back
  | chars plain _ ih =>
      rw [List.append_assoc]
      exact .chars plain (ih back)
  | directive shown _ ih =>
      rw [List.append_assoc]
      exact .directive shown (ih back)

theorem directive_length {hashes : Nat} : (Piece.directive hashes specifier).format.length = hashes + 2 := by
  simp [Piece.format]

/-- The characters of a conversion in memory. -/
theorem directive_spelt {hashes : Nat} {behind : List UInt8}
    (spelt : Spelt memory buf ((Piece.directive hashes specifier).format ++ behind)) :
    memory buf = 0x25 ∧ (∀ i < hashes, memory (buf + 1 + i) = 0x23) ∧ memory (buf + 1 + hashes) = specifier := by
  have tail : Spelt memory (buf + 1) (List.replicate hashes 0x23 ++ [specifier] ++ behind) :=
    spelt.drop (Nat.succ_le_succ (Nat.zero_le _))
  refine ⟨spelt.at_index (Nat.zero_lt_succ _), fun i inside => ?_, ?_⟩
  · rw [tail.at_index (by simp; omega), List.getElem_append_left (by simp; omega),
      List.getElem_append_left (by simpa using inside), List.getElem_replicate]
  · rw [tail.at_index (by simp), List.getElem_append_left (by simp), List.getElem_append_right (by simp)]
    simp

/-- The loop over the pieces of a format, whatever is behind them. -/
theorem printfFrom_pieces {pieces : List Piece} {printed behind : List UInt8} {last : Nat}
    (prints : Prints memory esp pieces printed last)
    (spelt : Spelt memory buf (pieces.flatMap Piece.format ++ behind)) :
    printfFrom memory convBuf (fuel + (pieces.flatMap Piece.format).length) .text buf esp k =
      printfFrom memory convBuf fuel .text (buf + (pieces.flatMap Piece.format).length) last (puts k printed) := by
  have split : ∀ {piece : Piece} {rest : List Piece}, (List.flatMap Piece.format (piece :: rest)).length =
      (rest.flatMap Piece.format).length + piece.format.length := fun {piece rest} => by
    rw [List.flatMap_cons, List.length_append, Nat.add_comm]
  induction prints generalizing buf k with
  | done => rfl
  | @chars esp last text printed rest plain later ih =>
      rw [List.flatMap_cons, List.append_assoc, Piece.format] at spelt
      have tail : Spelt memory (buf + text.length) (rest.flatMap Piece.format ++ behind) := by
        simpa using spelt.drop (show text.length ≤ _ by simp)
      have step : printfFrom memory convBuf (fuel + (rest.flatMap Piece.format).length + text.length) .text buf esp k =
          _ := printfFrom_chars spelt plain
      rw [split, ← Nat.add_assoc, Piece.format, step, ih tail, puts_append, Nat.add_assoc, Nat.add_comm text.length]
  | @directive esp next last hashes specifier text printed rest shown later ih =>
      rw [List.flatMap_cons, List.append_assoc] at spelt
      have tail : Spelt memory (buf + (hashes + 2)) (rest.flatMap Piece.format ++ behind) := by
        have dropped := spelt.drop (show (Piece.directive hashes specifier).format.length ≤ _ by simp)
        rwa [List.drop_left, directive_length] at dropped
      obtain ⟨percent, modifiers, here⟩ := directive_spelt spelt
      rw [split, ← Nat.add_assoc, directive_length, printfFrom_directive percent modifiers here shown, ih tail,
        puts_append, Nat.add_assoc, Nat.add_comm (hashes + 2)]

/-- A whole run of `printf` on a format that does not end within a conversion. -/
theorem printf_pieces {pieces : List Piece} {printed : List UInt8} {format last : Nat}
    (prints : Prints memory esp pieces printed last) (spelt : Spelt memory format (pieces.flatMap Piece.format))
    (short : (pieces.flatMap Piece.format).length < 4294967296) :
    printf memory convBuf format esp k = some (((pieces.flatMap Piece.format).length : Int), puts k printed) := by
  have whole : Spelt memory format (pieces.flatMap Piece.format ++ []) := by rwa [List.append_nil]
  obtain ⟨fuel, enough⟩ : ∃ fuel, addressSpace = fuel + 1 + (pieces.flatMap Piece.format).length :=
    ⟨4294967295 - (pieces.flatMap Piece.format).length, by unfold addressSpace; omega⟩
  have span : ((format + (pieces.flatMap Piece.format).length : Nat) : Int) - format =
      (pieces.flatMap Piece.format).length := by omega
  rw [printf, enough, printfFrom_pieces prints whole, printfFrom, if_pos spelt.terminated, Option.map_some]
  simp only [span]

/-- A format that ends within a conversion: its NUL is taken for a specifier, and
the loop goes on behind it. -/
theorem printfFrom_truncated {pieces : List Piece} {printed : List UInt8} {last hashes : Nat}
    (prints : Prints memory esp pieces printed last)
    (spelt : Spelt memory buf (pieces.flatMap Piece.format ++ 0x25 :: List.replicate hashes 0x23)) :
    printfFrom memory convBuf (fuel + (hashes + 2) + (pieces.flatMap Piece.format).length) .text buf esp k =
      printfFrom memory convBuf fuel .text (buf + (pieces.flatMap Piece.format).length + (hashes + 2)) last
        (puts k printed) := by
  have tail : Spelt memory (buf + (pieces.flatMap Piece.format).length) (0x25 :: List.replicate hashes 0x23) := by
    have dropped := spelt.drop (show (pieces.flatMap Piece.format).length ≤ _ by simp)
    rwa [List.drop_left] at dropped
  have inner : Spelt memory (buf + (pieces.flatMap Piece.format).length + 1) (List.replicate hashes 0x23) :=
    tail.drop (Nat.succ_le_succ (Nat.zero_le _))
  have modifiers : ∀ i < hashes, memory (buf + (pieces.flatMap Piece.format).length + 1 + i) = 0x23 :=
    fun i inside => by rw [inner.at_index (by simpa using inside), List.getElem_replicate]
  have nul : memory (buf + (pieces.flatMap Piece.format).length + 1 + hashes) = 0 := by
    simpa using inner.terminated
  have skipped : Shows memory last (decide (0 < hashes)) 0 [] last := .unknown (by decide) (by decide) rfl
  have percent : memory (buf + (pieces.flatMap Piece.format).length) = 0x25 := tail.at_index (Nat.zero_lt_succ _)
  rw [printfFrom_pieces prints spelt, printfFrom_directive percent modifiers nul skipped]
  rfl

/-- Without conversions `printf` is `puts`. -/
theorem printf_text {format : Nat} (spelt : Spelt memory format text) (plain : ∀ c ∈ text, c ≠ 0x25)
    (short : text.length < 4294967296) :
    printf memory convBuf format esp k = some ((text.length : Int), puts k text) := by
  have prints : Prints memory esp [.chars text] (text ++ []) esp := .chars plain .done
  have whole : [Piece.chars text].flatMap Piece.format = text := by simp [Piece.format]
  have ran : printf memory convBuf format esp k = _ := printf_pieces prints (by rwa [whole]) (by rwa [whole])
  rwa [whole, List.append_nil] at ran

/-- A number in its radix, and the 8 digits of `%#x`: their conversion keeps to the
array, the loop of `printf` puts them wherever it comes to the conversion, and a run
on a whole format has put them in their place when it returns. -/
theorem numbers_rendered (value : Nat) (word : value < 4294967296) :
    (∀ (buffer : Buffer) (buf : Nat) (radix : Int), 2 ≤ radix → radix ≤ 36 →
      ∃ after text, itoa value buffer buf radix = some after ∧ Spelt after.bytes buf text ∧
        Rendered radix.toNat text value ∧ Buffer.Stays buf (buf + text.length) buffer after) ∧
    ∃ text, text.length = 8 ∧ Numeral 16 text value ∧
      (∀ stack, ∃ after, convertAlternate stack value = some (text, after) ∧ ∀ index ∈ after.used, index < 64) ∧
      (∀ (memory : Memory) (convBuf : Nat → Memory) (fuel buf esp : Nat) (k : Kernel),
        memory buf = 0x25 → memory (buf + 1) = 0x23 → memory (buf + 2) = 0x78 → le32 memory esp = value →
        printfFrom memory convBuf (fuel + 3) .text buf esp k =
          printfFrom memory convBuf fuel .text (buf + 3) (esp + 4) (puts k text)) ∧
      ∀ (memory : Memory) (convBuf : Nat → Memory) (format esp middle last : Nat) (k : Kernel)
        (before behind : List Piece) (printed rest : List UInt8),
        Prints memory esp before printed middle → le32 memory middle = value →
        Prints memory (middle + 4) behind rest last →
        Spelt memory format ((before ++ .directive 1 0x78 :: behind).flatMap Piece.format) →
        ((before ++ .directive 1 0x78 :: behind).flatMap Piece.format).length < 4294967296 →
        printf memory convBuf format esp k =
          some ((((before ++ .directive 1 0x78 :: behind).flatMap Piece.format).length : Int),
            puts k (printed ++ (text ++ rest))) := by
  constructor
  · intro buffer buf radix lower upper
    obtain ⟨after, converted, spelt, stays⟩ := itoa_spells buffer buf lower upper word
    exact ⟨after, _, converted, spelt, rendering_rendered (by omega) (by omega), stays⟩
  refine ⟨paddedHex value, paddedHex_length word, paddedHex_numeral value, fun stack => ?_, ?_, ?_⟩
  · obtain ⟨after, converted, stays⟩ := convertAlternate_prints stack word
    refine ⟨after, converted, fun index listed => ?_⟩
    have bound := stays.bounded index listed
    omega
  · intro memory convBuf fuel buf esp k percent hash specifier argument
    rw [← argument]
    exact printfFrom_alternateHex percent hash specifier
  · intro memory convBuf format esp middle last k before behind printed rest front argument back spelt short
    have shown : Shows memory middle (decide (0 < 1)) 0x78 (paddedHex value) (middle + 4) := by
      rw [← argument]
      exact .alternateHex
    exact printf_pieces (front.append (.directive shown back)) spelt short

/-- The format `%#x` and the number of the comment on `printf` behind it. -/
def fourteenFormat : Memory := fun cell => [0x25, 0x23, 0x78, 0x00, 0x0E].getD cell 0

theorem fourteenFormat_spelt : Spelt fourteenFormat 0 [0x25, 0x23, 0x78] := by
  refine .of_bytes (fun i inside => ?_) (nonzero_of_all (by decide)) rfl
  obtain rfl | rfl | rfl : i = 0 ∨ i = 1 ∨ i = 2 := by
    have bound : i < 3 := inside
    omega
  all_goals rfl

theorem fourteen_rendered :
    (∃ after text, itoa 0xE (.new fun _ => 0) 0 2 = some after ∧ Spelt after.bytes 0 text ∧
      Rendered 2 text 0xE ∧ Buffer.Stays 0 (0 + text.length) (.new fun _ => 0) after) ∧
    ∃ text, text.length = 8 ∧ Numeral 16 text 0xE ∧
      (∃ after, convertAlternate (fun _ => 0xFF) 0xE = some (text, after) ∧ ∀ index ∈ after.used, index < 64) ∧
      printf fourteenFormat (fun _ _ => 0xFF) 0 4 .loaded = some (3, puts .loaded text) := by
  obtain ⟨converted, text, digits, numeral, inside, -, prints⟩ := numbers_rendered 0xE (by decide)
  have printed : printf fourteenFormat (fun _ _ => 0xFF) 0 4 .loaded = some (3, puts .loaded ([] ++ (text ++ []))) :=
    prints fourteenFormat (fun _ _ => 0xFF) 0 4 4 8 .loaded [] [] [] [] .done rfl .done fourteenFormat_spelt (by decide)
  rw [List.nil_append, List.append_nil] at printed
  exact ⟨converted (.new fun _ => 0) 0 2 (by decide) (by decide), text, digits, numeral, inside fun _ => 0xFF, printed⟩

end Formats

end BozOS
