import BozOS.Descriptors.Listing

namespace BozOS

open Data Lib FileSystem

/-! Lookups against the directory they search. `read_dentry_by_name` compares 32
bytes in 62 slots, whatever `dirEntries` is and however long the string it got;
`read_dentry_by_index` reaches slot 62 and clears the byte behind the name. -/

variable {env : Env} {image : Image} {fname : Memory} {index : Nat} {dentry : Dentry}

/-- A directory the boot block can hold, with one entry for each name. -/
structure DirectoryWellFormed (image : Image) : Prop where
  fits : image.dirEntries ≤ 63
  named : ∀ i < image.dirEntries, entryName image i ≠ []
  distinct : ∀ i j, i < image.dirEntries → j < image.dirEntries → entryName image i = entryName image j → i = j

theorem entryName_length (image : Image) (index : Nat) : (entryName image index).length ≤ 32 := by
  rw [entryName, Memory.window_length]
  exact strlen_le _ 32

theorem entryName_first (named : entryName image index ≠ []) : (image.dentries index).fileName 0 ≠ 0 := by
  rw [ne_eq, show entryName image index = text (image.dentries index).fileName 32 from rfl, text_nil] at named
  exact strlen_nonzero (Nat.pos_of_ne_zero named)

theorem text_short (short : (text fname addressSpace).length ≤ 32) : text fname 32 = text fname addressSpace := by
  rw [← text_take (show 32 ≤ addressSpace by decide), List.take_of_length_le short]

theorem lookup_exists (nonempty : text fname addressSpace ≠ [])
    (matched : ∃ i < 62, text fname 32 = entryName image i) :
    ∃ dentry, readDentryByName image fname = some dentry := by
  classical
  obtain ⟨inTable, same⟩ := Nat.find_spec matched
  refine ⟨image.dentries (Nat.find matched), readDentryByName_some.mpr ⟨nonempty, _, inTable, rfl, same, ?_⟩⟩
  intro j before equal
  exact Nat.find_min matched before ⟨by omega, equal⟩

section Agreement

/-- What the lookup of a string promises: it delivers the entry of that name
among those the directory has, and a listed name is one of them. -/
structure LookupAgrees (env : Env) (fname : Memory) : Prop where
  found : ∀ dentry, readDentryByName env.image fname = some dentry ↔ ∃ i < env.image.dirEntries,
    text fname addressSpace = entryName env.image i ∧ dentry = env.image.dentries i
  listed : ∀ k mem buf cpu, k.dreadLoc < env.image.dirEntries →
    text fname addressSpace = (delivery buf (dread env k mem buf cpu)).2 →
    ∃ dentry, readDentryByName env.image fname = some dentry

/-- The strings the search is wrong about: the name in the last slot of a full
directory, a string that continues behind 32 characters of a stored name, and a
name left in a slot behind the directory's entries. -/
inductive LookupStrays (image : Image) (fname : Memory) : Prop where
  | last (full : image.dirEntries = 63) (named : text fname addressSpace = entryName image 62)
  | longer (long : 32 < (text fname addressSpace).length)
      (cut : ∃ i < 62, (text fname addressSpace).take 32 = entryName image i)
  | unused (nonempty : text fname addressSpace ≠ [])
      (absent : ∀ i < image.dirEntries, text fname addressSpace ≠ entryName image i)
      (stale : ∃ i < 62, image.dirEntries ≤ i ∧ text fname addressSpace = entryName image i)

theorem LookupStrays.disagrees (strays : LookupStrays env.image fname) (wellFormed : DirectoryWellFormed env.image) :
    ¬LookupAgrees env fname := by
  rintro ⟨found, -⟩
  cases strays with
  | last full named =>
      have delivered := (found (env.image.dentries 62)).mpr ⟨62, by omega, named, rfl⟩
      obtain ⟨-, i, inTable, -, same, -⟩ := readDentryByName_some.mp delivered
      rw [text_short (by rw [named]; exact entryName_length _ _), named] at same
      have equal := wellFormed.distinct 62 i (by omega) (by omega) same
      omega
  | longer long cut =>
      have nonempty : text fname addressSpace ≠ [] := fun empty => by simp [empty] at long
      rw [text_take (by decide)] at cut
      obtain ⟨dentry, delivered⟩ := lookup_exists nonempty cut
      obtain ⟨i, -, named, -⟩ := (found dentry).mp delivered
      have bound := entryName_length env.image i
      rw [← named] at bound
      omega
  | unused nonempty absent stale =>
      obtain ⟨i, inTable, -, named⟩ := stale
      have short : text fname 32 = text fname addressSpace :=
        text_short (by rw [named]; exact entryName_length _ _)
      obtain ⟨dentry, delivered⟩ := lookup_exists nonempty ⟨i, inTable, short.trans named⟩
      obtain ⟨j, inside, same, -⟩ := (found dentry).mp delivered
      exact absent j inside same

theorem lookup_found (wellFormed : DirectoryWellFormed image) (within : ¬LookupStrays image fname) (dentry : Dentry) :
    readDentryByName image fname = some dentry ↔ ∃ i < image.dirEntries,
      text fname addressSpace = entryName image i ∧ dentry = image.dentries i := by
  have fits := wellFormed.fits
  rw [readDentryByName_some]
  constructor
  · rintro ⟨nonempty, i, inTable, delivered, same, first⟩
    have short : (text fname addressSpace).length ≤ 32 := by
      by_contra long
      exact within (.longer (by omega) ⟨i, inTable, by rw [text_take (by decide)]; exact same⟩)
    rw [text_short short] at same first
    by_cases inside : i < image.dirEntries
    · exact ⟨i, inside, same, delivered⟩
    · refine absurd (LookupStrays.unused nonempty (fun j earlier named => ?_) ⟨i, inTable, by omega, same⟩) within
      exact first j (by omega) named
  · rintro ⟨i, inside, named, delivered⟩
    have notLast : i ≠ 62 := by
      rintro rfl
      exact within (.last (by omega) named)
    rw [text_short (by rw [named]; exact entryName_length _ _)]
    refine ⟨by rw [named]; exact wellFormed.named i inside, i, by omega, delivered, named, fun j before same => ?_⟩
    have equal := wellFormed.distinct j i (by omega) inside (same.symm.trans named)
    omega

theorem lookup_agrees_iff (env : Env) (fname : Memory) (wellFormed : DirectoryWellFormed env.image) :
    LookupAgrees env fname ↔ ¬LookupStrays env.image fname := by
  constructor
  · exact fun agrees strays => strays.disagrees wellFormed agrees
  · intro within
    refine ⟨lookup_found wellFormed within, fun k mem buf cpu position same => ?_⟩
    have delivered := (dread_name mem buf cpu wellFormed.fits position rfl
      (entryName_first (wellFormed.named _ position))).1
    rw [delivered] at same
    exact ⟨_, (lookup_found wellFormed within _).mpr ⟨k.dreadLoc, position, same, rfl⟩⟩

/-- One regular file whose name fills all 32 bytes. -/
def longNameImage : Image := Image.ofRuns [(0, [1, 0, 0, 0, 1, 0, 0, 0, 1]), (64, List.replicate 32 0x61), (96, [2])]

/-- The `count` characters of a string of that many letters "a". -/
def letters (count : Nat) : Memory := fun i => if i < count then 0x61 else 0

theorem letters_text {count : Nat} (room : count < addressSpace) :
    text (letters count) addressSpace = List.replicate count 0x61 := by
  have length : strlen (letters count) addressSpace = count := by
    refine strlen_eq room (fun i before => ?_) ?_
    · rw [letters, if_pos before]
      decide
    · rw [letters, if_neg (Nat.lt_irrefl count)]
  rw [text, length, Memory.window, List.eq_replicate_iff]
  refine ⟨by simp, fun c member => ?_⟩
  obtain ⟨i, inside, rfl⟩ := List.mem_map.mp member
  rw [letters, if_pos (by simpa using inside)]

theorem longNameImage_wellFormed : DirectoryWellFormed longNameImage := by
  have one : longNameImage.dirEntries = 1 := by decide
  refine ⟨by omega, fun i inside => ?_, fun i j first second _ => by omega⟩
  rw [show i = 0 by omega]
  decide

/-- A full directory: 63 regular files, each named by one character from "@" on. -/
def fullImage : Image where
  bytes address :=
    if address = 0 then 63
    else if address = 4 ∨ address = 8 then 1
    else if address < 4096 ∧ address % 64 = 0 then UInt8.ofNat (63 + address / 64)
    else if 64 ≤ address ∧ address < 4096 ∧ address % 64 = 32 then 2
    else 0

theorem fullImage_name {i : Nat} (stored : i < 63) : entryName fullImage i = [UInt8.ofNat (64 + i)] := by
  have names : ∀ i < 63, entryName fullImage i = [UInt8.ofNat (64 + i)] := by decide
  exact names i stored

theorem fullImage_wellFormed : DirectoryWellFormed fullImage := by
  have full : fullImage.dirEntries = 63 := by decide
  refine ⟨by omega, fun i inside => ?_, fun i j first second same => ?_⟩
  · rw [fullImage_name (by omega)]
    simp
  · rw [fullImage_name (by omega), fullImage_name (by omega), List.cons.injEq] at same
    have codes := congrArg UInt8.toNat same.1
    rw [UInt8.toNat_ofNat', UInt8.toNat_ofNat'] at codes
    omega

/-- The name of entry 62 is not found. -/
theorem last_name_missed : DirectoryWellFormed fullImage ∧
    ¬LookupAgrees ⟨fullImage, fun _ => 0, 0⟩ (fullImage.dentries 62).fileName := by
  have length : strlen (fullImage.dentries 62).fileName addressSpace = 1 :=
    strlen_eq (by decide) (by decide) (by decide)
  have spelt : text (fullImage.dentries 62).fileName addressSpace = entryName fullImage 62 := by
    rw [text, length]
    decide
  have strays : LookupStrays fullImage (fullImage.dentries 62).fileName := .last (by decide) spelt
  exact ⟨fullImage_wellFormed, strays.disagrees fullImage_wellFormed⟩

theorem longName_lookup_agrees : DirectoryWellFormed longNameImage ∧
    LookupAgrees ⟨longNameImage, fun _ => 0, 0⟩ (letters 32) := by
  have spelt : text (letters 32) addressSpace = List.replicate 32 0x61 := letters_text (by decide)
  have stored : entryName longNameImage 0 = List.replicate 32 0x61 := by decide
  refine ⟨longNameImage_wellFormed, (lookup_agrees_iff _ _ longNameImage_wellFormed).mpr fun strays => ?_⟩
  cases strays with
  | last full _ => exact absurd full (by decide)
  | longer long _ => simp [spelt] at long
  | unused _ absent _ => exact absent 0 (by decide) (spelt.trans stored.symm)

end Agreement

section Entries

/-- The dentry has the name bytes, the file type and the inode of a stored entry. -/
structure Delivers (image : Image) (index : Nat) (dentry : Dentry) : Prop where
  name : ∀ i < 32, dentry.fileName i = (image.dentries index).fileName i
  fileType : dentry.fileType = (image.dentries index).fileType
  inode : dentry.inode = (image.dentries index).inode

def SameEntry (image : Image) (index : Nat) (fname : Memory) : Prop :=
  ∃ byIndex byName, readDentryByIndex image index = some byIndex ∧ readDentryByName image fname = some byName ∧
    Delivers image index byIndex ∧ Delivers image index byName

theorem readDentryByIndex_eq (inTable : index ≤ 62) (named : entryName image index ≠ []) :
    readDentryByIndex image index = some ⟨(image.dentries index).bytes.store 32 0⟩ := by
  rw [readDentryByIndex, if_neg (by omega), if_pos (strlen_positive (entryName_first named) (by decide))]

/-- The terminator keeps the file type exactly when its low byte is already 0. -/
theorem terminated_delivers_iff :
    Delivers image index ⟨(image.dentries index).bytes.store 32 0⟩ ↔ (image.dentries index).fileType % 256 = 0 := by
  have byte := ((image.dentries index).bytes 32).toNat_lt
  have other : ∀ i, i ≠ 32 → (image.dentries index).bytes.store 32 0 i = (image.dentries index).bytes i := fun i away =>
    Memory.store_other away
  have stored : (image.dentries index).fileType = ((image.dentries index).bytes 32).toNat +
      256 * ((image.dentries index).bytes 33).toNat + 65536 * ((image.dentries index).bytes 34).toNat +
      16777216 * ((image.dentries index).bytes 35).toNat := rfl
  have patched : Dentry.fileType ⟨(image.dentries index).bytes.store 32 0⟩ =
      256 * ((image.dentries index).bytes 33).toNat + 65536 * ((image.dentries index).bytes 34).toNat +
      16777216 * ((image.dentries index).bytes 35).toNat := by
    simp only [Dentry.fileType, le32, Memory.store_same, other 33 (by decide), other 34 (by decide),
      other 35 (by decide), UInt8.toNat_zero, Nat.zero_add]
  constructor
  · intro delivers
    have same := delivers.fileType
    omega
  · intro zero
    refine ⟨fun i inside => other i (by omega), by omega, ?_⟩
    simp only [Dentry.inode, le32, other 36 (by decide), other 37 (by decide), other 38 (by decide),
      other 39 (by decide)]

theorem lookups_deliver_iff (image : Image) (index : Nat) (fname : Memory) (small : image.dirEntries ≤ 63)
    (inside : index < image.dirEntries) (named : entryName image index ≠ [])
    (first : ∀ j < index, entryName image j ≠ entryName image index)
    (spelt : text fname addressSpace = entryName image index) :
    SameEntry image index fname ↔ index ≤ 61 ∧ (image.dentries index).fileType % 256 = 0 := by
  have short : text fname 32 = entryName image index := by
    rw [text_short (by rw [spelt]; exact entryName_length _ _), spelt]
  have indexed := readDentryByIndex_eq (show index ≤ 62 by omega) named
  constructor
  · rintro ⟨byIndex, byName, gotIndex, gotName, fromIndex, -⟩
    cases indexed.symm.trans gotIndex
    obtain ⟨-, i, inTable, -, same, -⟩ := readDentryByName_some.mp gotName
    refine ⟨?_, terminated_delivers_iff.mp fromIndex⟩
    by_contra last
    exact first i (by omega) (same.symm.trans short)
  · rintro ⟨inTable, typed⟩
    have looked : readDentryByName image fname = some (image.dentries index) :=
      readDentryByName_some.mpr ⟨by rw [spelt]; exact named, index, by omega, rfl, short,
        fun j before same => first j before (same.symm.trans short)⟩
    exact ⟨_, _, indexed, looked, terminated_delivers_iff.mpr typed, fun _ _ => rfl, rfl, rfl⟩

/-- One device, whose file type is 0. -/
def deviceImage : Image := Image.ofRuns [(0, [1, 0, 0, 0, 1, 0, 0, 0, 1]), (64, List.replicate 3 0x61)]

theorem device_lookups_deliver : entryName deviceImage 0 ≠ [] ∧ SameEntry deviceImage 0 (letters 3) := by
  have spelt : text (letters 3) addressSpace = entryName deviceImage 0 := by
    rw [letters_text (by decide)]
    decide
  exact ⟨by decide, (lookups_deliver_iff deviceImage 0 (letters 3) (by decide) (by decide) (by decide)
    (fun j before => absurd before (Nat.not_lt_zero j)) spelt).mpr (by decide)⟩

/-- The lookup by index delivers a regular file with file type 0. -/
theorem indexed_file_differs : longNameImage.dirEntries = 1 ∧ entryName longNameImage 0 ≠ [] ∧
    text (letters 32) addressSpace = entryName longNameImage 0 ∧ ¬SameEntry longNameImage 0 (letters 32) := by
  have named : entryName longNameImage 0 ≠ [] := by decide
  refine ⟨by decide, named, by rw [letters_text (by decide)]; decide, ?_⟩
  rintro ⟨byIndex, byName, gotIndex, -, fromIndex, -⟩
  cases (readDentryByIndex_eq (by decide) named).symm.trans gotIndex
  exact absurd (terminated_delivers_iff.mp fromIndex) (by decide)

end Entries

end BozOS
