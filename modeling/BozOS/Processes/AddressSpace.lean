import BozOS.Kernel.Paging

namespace BozOS

open Data

/-! The address space the tables are to hold, and the physical address they give
for every linear one when they do. -/

variable {env : Env} {layout : Layout env} {k : Kernel} {linear : Nat} {access : Paging.Access}

/-- The address space as it is meant: the page of one process at 128 MiB, and
after a `vidmap` the pages of the terminals at 136 MiB, where one of them is
the screen. -/
structure Space where
  frame : Option Slot
  screen : Option TermId

def Space.translate (space : Space) (access : Paging.Access) (linear : Nat) : Option Nat :=
  if 0xB8000 ≤ linear ∧ linear < 0xBC000 ∨ 0x400000 ≤ linear ∧ linear < 0x800000 then
    if access.user then none else some linear
  else if 0x8000000 ≤ linear ∧ linear < 0x8400000 then
    space.frame.map fun p => userPage p + (linear - 0x8000000)
  else if 0x8800000 ≤ linear ∧ linear < 0x8803000 then
    space.screen.map fun shown =>
      if (linear - 0x8800000) / 0x1000 = shown.val then 0xB8000 + linear % 0x1000
      else 0xB9000 + (linear - 0x8800000)
  else none

/-- The tables hold the address space. -/
structure Maps (layout : Layout env) (k : Kernel) (space : Space) : Prop where
  low : k.pageDirectory 0 = layout.pageTableAddr ||| 0x3
  kernel : k.pageDirectory 1 = 0x400000 ||| 0x83
  program : k.pageDirectory 32 = (space.frame.map fun p => userPage p ||| 0x87).getD 0x2
  video : k.pageDirectory 34 = (space.screen.map fun _ => env.vidmapPtableAddr ||| 0x7).getD 0x2
  others : ∀ i, i < 1024 → i ≠ 0 → i ≠ 1 → i ≠ 32 → i ≠ 34 → k.pageDirectory i = 0x2
  pages : ∀ shown, space.screen = some shown → ∀ i, i < 1024 → k.vidmapPtable i =
    if i = shown.val then 0xB8000 ||| 0x7 else if i < 3 then (0xB9000 + i * 0x1000) ||| 0x7 else 0x6

theorem initPageTable_eq (i : Nat) : initPageTable i =
    if 0xB8 ≤ i ∧ i < 0xBC then i * 0x1000 ||| 0x3 else 0x2 := by
  by_cases inside : 0xB8 ≤ i ∧ i < 0xBC
  · obtain rfl | rfl | rfl | rfl : i = 0xB8 ∨ i = 0xB9 ∨ i = 0xBA ∨ i = 0xBB := by omega
    all_goals decide
  · rw [if_neg inside]
    simp only [initPageTable]
    repeat rw [Function.update_of_ne (by simp [termVideo, Nat.shiftRight_eq_div_pow]; omega)]

theorem mapVideoPages_entry (ptable : Nat → Nat) (shown : TermId) (i : Nat) : mapVideoPages ptable shown i =
    if i = shown.val then 0xB8000 ||| 0x7 else if i < 3 then (0xB9000 + i * 0x1000) ||| 0x7 else ptable i := by
  by_cases screen : i = shown.val
  · rw [if_pos screen, screen, mapVideoPages, Function.update_self]
  · rw [if_neg screen, mapVideoPages, Function.update_of_ne screen]
    by_cases terminal : i < 3
    · rw [if_pos terminal]
      obtain rfl | rfl | rfl : i = 0 ∨ i = 1 ∨ i = 2 := by omega
      all_goals simp [Function.update, termVideo]
    · rw [if_neg terminal, Function.update_of_ne (by omega), Function.update_of_ne (by omega),
        Function.update_of_ne (by omega)]

section Translate

theorem permits_absent : Paging.permits 0x2 access = false ∧ Paging.permits 0x6 access = false := by
  obtain ⟨user, write⟩ := access
  cases user <;> cases write <;> exact ⟨rfl, rfl⟩

theorem permits_supervisor : Paging.permits 0x3 access = !access.user ∧ Paging.permits 0x83 access = !access.user := by
  obtain ⟨user, write⟩ := access
  cases user <;> cases write <;> exact ⟨rfl, rfl⟩

theorem permits_user : Paging.permits 0x7 access = true ∧ Paging.permits 0x87 access = true := by
  obtain ⟨user, write⟩ := access
  cases user <;> cases write <;> exact ⟨rfl, rfl⟩

variable {space : Space}

theorem Maps.translate_low (maps : Maps layout k space) (below : linear < 0x400000) :
    Paging.translate (k.tables layout) access linear =
      if 0xB8000 ≤ linear ∧ linear < 0xBC000 then if access.user then none else some linear else none := by
  have held : (k.tables layout).directory (linear / 0x400000) = layout.pageTableAddr ||| 0x3 := by
    rw [Nat.div_eq_of_lt below]
    exact maps.low
  have table : (k.tables layout).tableAt layout.pageTableAddr = initPageTable := if_pos rfl
  have entry := initPageTable_eq (linear / 0x1000 % 1024)
  split
  · rename_i inside
    rw [if_pos (by omega)] at entry
    rw [Paging.translate_page held layout.aligned (by decide) rfl (table ▸ entry) ⟨_, Nat.mul_comm ..⟩ (by decide),
      permits_supervisor.1]
    cases access.user with
    | true => rfl
    | false =>
        have whole : linear / 0x1000 % 1024 * 0x1000 + linear % 0x1000 = linear := by omega
        simp [whole]
  · rw [if_neg (by omega)] at entry
    rw [Paging.translate_table held layout.aligned (by decide) rfl, table, entry, permits_absent.1, if_neg (by simp)]

theorem Maps.translate_kernel (maps : Maps layout k space) (lower : 0x400000 ≤ linear) (upper : linear < 0x800000) :
    Paging.translate (k.tables layout) access linear = if access.user then none else some linear := by
  have held : (k.tables layout).directory (linear / 0x400000) = 0x400000 ||| 0x83 := by
    rw [show linear / 0x400000 = 1 by omega]
    exact maps.kernel
  rw [Paging.translate_large held (by decide) (by decide) rfl, permits_supervisor.2]
  cases access.user with
  | true => rfl
  | false =>
      have whole : 0x400000 + linear % 0x400000 = linear := by omega
      simp [whole]

theorem Maps.translate_program (maps : Maps layout k space) (lower : 0x8000000 ≤ linear)
    (upper : linear < 0x8400000) : Paging.translate (k.tables layout) access linear =
      space.frame.map fun p => userPage p + (linear - 0x8000000) := by
  have held : (k.tables layout).directory (linear / 0x400000) =
      (space.frame.map fun p => userPage p ||| 0x87).getD 0x2 := by
    rw [show linear / 0x400000 = 32 by omega]
    exact maps.program
  cases frame : space.frame with
  | none =>
      rw [frame] at held
      rw [Paging.translate_denied (by rw [held]; exact permits_absent.1)]
      rfl
  | some p =>
      rw [frame, Option.map_some, Option.getD_some] at held
      have aligned : 2 ^ 22 ∣ userPage p := Nat.dvd_add (by decide) (Nat.dvd_mul_left ..)
      have offset : linear % 0x400000 = linear - 0x8000000 := by omega
      rw [Paging.translate_large held aligned (by decide) rfl, if_pos permits_user.2, offset, Option.map_some]

theorem Maps.translate_video (maps : Maps layout k space) (lower : 0x8800000 ≤ linear)
    (upper : linear < 0x8C00000) : Paging.translate (k.tables layout) access linear =
      if linear < 0x8803000 then space.screen.map fun shown =>
        if (linear - 0x8800000) / 0x1000 = shown.val then 0xB8000 + linear % 0x1000 else 0xB9000 + (linear - 0x8800000)
      else none := by
  have held : (k.tables layout).directory (linear / 0x400000) =
      (space.screen.map fun _ => env.vidmapPtableAddr ||| 0x7).getD 0x2 := by
    rw [show linear / 0x400000 = 34 by omega]
    exact maps.video
  cases screen : space.screen with
  | none =>
      rw [screen] at held
      rw [Paging.translate_denied (by rw [held]; exact permits_absent.1)]
      simp
  | some shown =>
      rw [screen] at held
      have table : (k.tables layout).tableAt env.vidmapPtableAddr = k.vidmapPtable := by
        change (if _ then _ else _) = _
        rw [if_neg layout.apart, if_pos rfl]
      have entry := maps.pages shown screen (linear / 0x1000 % 1024) (Nat.mod_lt _ (by decide))
      have index : linear / 0x1000 % 1024 = (linear - 0x8800000) / 0x1000 := by omega
      have mapped : ∀ frame, k.vidmapPtable (linear / 0x1000 % 1024) = frame ||| 0x7 → 2 ^ 12 ∣ frame →
          Paging.translate (k.tables layout) access linear = some (frame + linear % 0x1000) := by
        intro frame entered whole
        rw [Paging.translate_page held layout.vidmapAligned (by decide) rfl (table ▸ entered) whole (by decide),
          if_pos ⟨permits_user.1, permits_user.1⟩]
      by_cases inside : linear < 0x8803000
      · rw [if_pos inside, Option.map_some]
        by_cases own : (linear - 0x8800000) / 0x1000 = shown.val
        · rw [if_pos (index.trans own)] at entry
          rw [if_pos own, mapped _ entry (by decide)]
        · rw [if_neg (mt index.symm.trans own), if_pos (by omega)] at entry
          have whole : 2 ^ 12 ∣ 0xB9000 + linear / 0x1000 % 1024 * 0x1000 := by omega
          rw [if_neg own, mapped _ entry whole]
          exact congrArg some (by omega)
      · have high : ¬linear / 0x1000 % 1024 < 3 := by omega
        have bound := shown.isLt
        rw [if_neg (by omega), if_neg high] at entry
        rw [if_neg inside, Paging.translate_table held layout.vidmapAligned (by decide) rfl, table, entry,
          permits_absent.2, if_neg (by simp)]

theorem Maps.translate_eq (maps : Maps layout k space) (inside : linear < 2 ^ 32) :
    Paging.translate (k.tables layout) access linear = space.translate access linear := by
  unfold Space.translate
  by_cases kernel : 0xB8000 ≤ linear ∧ linear < 0xBC000 ∨ 0x400000 ≤ linear ∧ linear < 0x800000
  · rw [if_pos kernel]
    rcases kernel with video | kernel
    · rw [maps.translate_low (by omega), if_pos video]
    · exact maps.translate_kernel kernel.1 kernel.2
  rw [if_neg kernel]
  by_cases program : 0x8000000 ≤ linear ∧ linear < 0x8400000
  · rw [maps.translate_program program.1 program.2, if_pos program]
  rw [if_neg program]
  by_cases video : 0x8800000 ≤ linear ∧ linear < 0x8C00000
  · rw [maps.translate_video video.1 video.2]
    by_cases page : linear < 0x8803000
    · rw [if_pos page, if_pos ⟨video.1, page⟩]
    · rw [if_neg page, if_neg (by omega)]
  rw [if_neg (by omega)]
  by_cases low : linear < 0x400000
  · rw [maps.translate_low low, if_neg (by omega)]
  · refine Paging.translate_denied ?_
    change Paging.permits (k.pageDirectory (linear / 0x400000)) access = false
    rw [maps.others _ (by omega) (by omega) (by omega) (by omega) (by omega)]
    exact permits_absent.1

end Translate

end BozOS
