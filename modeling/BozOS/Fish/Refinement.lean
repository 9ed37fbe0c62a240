import BozOS.Fish.Blink

namespace BozOS.Fish

open Data

/-! What the list routines are for, without cells and links: a sequence of
blinking characters, the newest first, on a text page. As long as no character is
placed at location zero, the routines of `blink.S` do exactly this. -/

structure Show where
  blinkers : List Blinker
  vmem : Memory

/-- Changes the first element with a property. -/
def modifyFirst (wanted : α → Bool) (f : α → α) : List α → List α
  | [] => []
  | a :: rest => if wanted a then f a :: rest else a :: modifyFirst wanted f rest

def Blinker.isAt (location : UInt16) (b : Blinker) : Bool := b.location = location

def Show.serve (shown : Show) : Request → Reply × Show
  | .add user =>
      if 2000 ≤ user.location.toNat ∨ shown.blinkers.length = 2000 then (⟨-1, none⟩, shown)
      else (⟨0, none⟩, ⟨user.fresh :: shown.blinkers, shown.vmem.store (2 * user.location.toNat) user.onChar⟩)
  | .remove arg =>
      match shown.blinkers.find? (Blinker.isAt arg.toUInt16) with
      | none => (⟨-1, none⟩, shown)
      | some _ => (⟨0, none⟩, { shown with blinkers := shown.blinkers.eraseP (Blinker.isAt arg.toUInt16) })
  | .find location =>
      match shown.blinkers.find? (Blinker.isAt location) with
      | none => (⟨-1, none⟩, shown)
      | some b => (⟨0, some b⟩, shown)
  | .sync arg =>
      match shown.blinkers.find? (Blinker.isAt (arg >>> 16).toUInt16),
        shown.blinkers.find? (Blinker.isAt arg.toUInt16) with
      | some first, some second =>
          (⟨0, none⟩, ⟨modifyFirst (Blinker.isAt arg.toUInt16) first.synced shown.blinkers,
            shown.vmem.store (2 * second.location.toNat) second.offChar⟩)
      | _, _ => (⟨-1, none⟩, shown)
  | .tasklet =>
      (⟨0, none⟩, ⟨shown.blinkers.map Blinker.tick, shown.blinkers.foldl (fun vmem b => b.drawTo vmem) shown.vmem⟩)

def Show.exchanges : Show → List Request → List (Request × Reply)
  | _, [] => []
  | shown, request :: rest => (request, (shown.serve request).1) :: (shown.serve request).2.exchanges rest

def Show.after (shown : Show) (requests : List Request) : Show :=
  requests.foldl (fun shown request => (shown.serve request).2) shown

def State.blinker (s : State) (cell : Cell) : Blinker := (s.blinkArray cell).toBlinker

/-- The list from the head visits `cells`, which hold the characters of the show,
and every other cell is free. -/
structure Represents (s : State) (cells : List Cell) (shown : Show) : Prop where
  linked : Chain s.next s.mp1ListHead cells
  nodup : cells.Nodup
  blinkers : cells.map s.blinker = shown.blinkers
  used : ∀ cell, (s.blinker cell).location ≠ 0 ↔ cell ∈ cells
  vmem : s.vmem = shown.vmem

variable {s after : State} {cells : List Cell} {shown : Show} {cell : Cell} {location : UInt16}

@[simp] theorem setCell_head {record : BlinkStruct} : (s.setCell cell record).mp1ListHead = s.mp1ListHead := rfl

@[simp] theorem setCell_vmem {record : BlinkStruct} : (s.setCell cell record).vmem = s.vmem := rfl

@[simp] theorem setCell_same {record : BlinkStruct} : (s.setCell cell record).blinkArray cell = record :=
  Function.update_self ..

theorem setCell_other {record : BlinkStruct} {other : Cell} (different : other ≠ cell) :
    (s.setCell cell record).blinkArray other = s.blinkArray other :=
  Function.update_of_ne different ..

theorem cells_length (nodup : cells.Nodup) : cells.length ≤ listFuel := by
  have bound := nodup.length_le_card
  rwa [Fintype.card_fin] at bound

theorem Represents.initial (vmem : Memory) : Represents (.initial vmem) [] ⟨[], vmem⟩ where
  linked := .nil
  nodup := List.nodup_nil
  blinkers := rfl
  used cell := by simp [State.initial, State.blinker, BlinkStruct.zero]
  vmem := rfl

section Search

/-- The search finds the first cell with the location, and there the first
character of the show with it. -/
theorem Represents.find (represents : Represents s cells shown) (location : UInt16) :
    (mp1FindHelper s location = some none ∧ shown.blinkers.find? (Blinker.isAt location) = none) ∨
      ∃ front cell back, mp1FindHelper s location = some (some cell) ∧ cells = front ++ cell :: back ∧
        shown.blinkers.find? (Blinker.isAt location) = some (s.blinker cell) ∧
        (s.blinker cell).location = location ∧ ∀ other ∈ front, (s.blinker other).location ≠ location := by
  have walked : mp1FindHelper s location = some (cells.find? fun cell => (s.blinkArray cell).location = location) :=
    findFrom_chain represents.linked (cells_length represents.nodup)
  have same : shown.blinkers.find? (Blinker.isAt location) =
      (cells.find? fun cell => (s.blinkArray cell).location = location).map s.blinker := by
    rw [← represents.blinkers, List.find?_map]
    rfl
  rw [walked, same]
  cases found : cells.find? fun cell => (s.blinkArray cell).location = location with
  | none => exact .inl ⟨rfl, rfl⟩
  | some cell =>
      obtain ⟨wanted, front, back, split, skipped⟩ := List.find?_eq_some_iff_append.mp found
      refine .inr ⟨front, cell, back, rfl, split, rfl, of_decide_eq_true wanted, fun other member => ?_⟩
      have apart : (s.blinkArray other).location ≠ location := by simpa using skipped other member
      exact apart

end Search

section Tasklet

theorem tick_fixed (b : Blinker) : b.tick.location = b.location ∧ b.tick.onChar = b.onChar ∧
    b.tick.offChar = b.offChar ∧ b.tick.onLength = b.onLength ∧ b.tick.offLength = b.offLength := by
  unfold Blinker.tick
  split
  · exact ⟨rfl, rfl, rfl, rfl, rfl⟩
  · split <;> exact ⟨rfl, rfl, rfl, rfl, rfl⟩

theorem taskletRound_next (s : State) (cell other : Cell) : (taskletRound s cell).next other = s.next other := by
  by_cases same : other = cell
  · rw [same]
    simp [State.next, taskletRound]
  · rw [State.next, taskletRound, setCell_other same]
    rfl

theorem taskletRound_blinker (s : State) (cell other : Cell) :
    (taskletRound s cell).blinker other = if other = cell then (s.blinker cell).tick else s.blinker other := by
  by_cases same : other = cell
  · rw [same, if_pos rfl]
    simp [State.blinker, taskletRound]
  · rw [if_neg same, State.blinker, taskletRound, setCell_other same]
    rfl

/-- The rounds of one call, one for each cell. -/
theorem rounds_eq (nodup : cells.Nodup) (s : State) :
    (∀ cell, (cells.foldl taskletRound s).next cell = s.next cell) ∧
    (cells.foldl taskletRound s).mp1ListHead = s.mp1ListHead ∧
    (∀ cell, (cells.foldl taskletRound s).blinker cell =
      if cell ∈ cells then (s.blinker cell).tick else s.blinker cell) ∧
    (cells.foldl taskletRound s).vmem = (cells.map s.blinker).foldl (fun vmem b => b.drawTo vmem) s.vmem := by
  induction cells generalizing s with
  | nil => simp
  | cons cell rest ih =>
      obtain ⟨fresh, later⟩ := List.nodup_cons.mp nodup
      obtain ⟨next, head, blinkers, vmem⟩ := ih later (taskletRound s cell)
      have kept : rest.map (taskletRound s cell).blinker = rest.map s.blinker := by
        refine List.map_congr_left fun other member => ?_
        rw [taskletRound_blinker, if_neg (ne_of_mem_of_not_mem member fresh)]
      refine ⟨fun other => ?_, head, fun other => ?_, ?_⟩
      · rw [List.foldl_cons, next, taskletRound_next]
      · rw [List.foldl_cons, blinkers, taskletRound_blinker]
        by_cases same : other = cell
        · rw [same, if_neg fresh, if_pos rfl, if_pos List.mem_cons_self]
        · simp only [List.mem_cons, same, false_or, if_false]
      · rw [List.foldl_cons, vmem, kept, List.map_cons, List.foldl_cons]
        rfl

theorem Represents.tasklet (represents : Represents s cells shown) :
    ∃ after, mp1RtcTasklet s = some after ∧ Represents after cells (shown.serve .tasklet).2 := by
  obtain ⟨next, head, blinkers, vmem⟩ := rounds_eq represents.nodup s
  refine ⟨cells.foldl taskletRound s, visitFrom_chain taskletRound_next represents.linked
    (cells_length represents.nodup), ?_, represents.nodup, ?_, fun cell => ?_, ?_⟩
  · rw [head]
    exact represents.linked.congr fun cell _ => next cell
  · rw [Show.serve, ← represents.blinkers, List.map_map]
    refine List.map_congr_left fun cell member => ?_
    rw [blinkers, if_pos member, Function.comp_apply]
  · refine Iff.trans ?_ (represents.used cell)
    rw [blinkers]
    split
    · rw [(tick_fixed _).1]
    · rfl
  · rw [vmem, represents.blinkers, represents.vmem]
    rfl

end Tasklet

section Add

/-- The allocator finds a cell exactly when the list does not hold them all, and
then one the list does not hold. -/
theorem Represents.malloc (represents : Represents s cells shown) :
    (mp1Malloc s = none ∧ shown.blinkers.length = 2000) ∨
      ∃ cell, mp1Malloc s = some cell ∧ cell ∉ cells ∧ shown.blinkers.length ≠ 2000 := by
  have length : shown.blinkers.length = cells.length := by rw [← represents.blinkers, List.length_map]
  have full : cells.length = 2000 ↔ ∀ cell, cell ∈ cells := by
    have card := List.toFinset_card_of_nodup represents.nodup
    have whole := Finset.card_eq_iff_eq_univ cells.toFinset
    rw [Fintype.card_fin, card] at whole
    rw [whole, Finset.eq_univ_iff_forall]
    simp only [List.mem_toFinset]
  rw [length]
  cases found : mp1Malloc s with
  | none =>
      refine .inl ⟨rfl, full.mpr fun cell => (represents.used cell).mp ?_⟩
      have used : (s.blinkArray cell).location ≠ 0 := by
        simpa using List.find?_eq_none.mp found cell (List.mem_finRange cell)
      exact used
  | some cell =>
      have free : (s.blinkArray cell).location = 0 := by simpa using List.find?_some found
      have absent : cell ∉ cells := fun member => (represents.used cell).mpr member free
      exact .inr ⟨cell, rfl, absent, fun all => absent (full.mp all cell)⟩

theorem Represents.add (represents : Represents s cells shown) {user : Blinker} (placed : user.location ≠ 0) :
    (mp1IoctlAdd s user).1 = (shown.serve (.add user)).1.ret ∧
      ∃ cells, Represents (mp1IoctlAdd s user).2 cells (shown.serve (.add user)).2 := by
  have bound : 80 * 25 ≤ user.location ↔ 2000 ≤ user.location.toNat := UInt16.le_iff_toNat_le
  rw [mp1IoctlAdd, Show.serve]
  by_cases outside : 2000 ≤ user.location.toNat
  · rw [if_pos (bound.mpr outside), if_pos (.inl outside)]
    exact ⟨rfl, cells, represents⟩
  rw [if_neg (mt bound.mp outside)]
  rcases represents.malloc with ⟨none, full⟩ | ⟨cell, found, fresh, room⟩
  · rw [none, if_pos (.inr full)]
    exact ⟨rfl, cells, represents⟩
  rw [found, if_neg (not_or.mpr ⟨outside, room⟩)]
  have kept : ∀ other ∈ cells, other ≠ cell := fun other member => ne_of_mem_of_not_mem member fresh
  refine ⟨rfl, cell :: cells, ?_, List.nodup_cons.mpr ⟨fresh, represents.nodup⟩, ?_, fun other => ?_, ?_⟩
  · refine represents.linked.push ?_ fun other member => ?_
    · simp [State.next, mp1Poke]
    · simp [State.next, mp1Poke, setCell_other (kept other member)]
  · rw [List.map_cons, ← represents.blinkers]
    refine congrArg₂ List.cons ?_ (List.map_congr_left fun other member => ?_)
    · simp [State.blinker, mp1Poke]
    · simp [State.blinker, mp1Poke, setCell_other (kept other member)]
  · rw [List.mem_cons, ← represents.used]
    by_cases same : other = cell
    · simp [same, State.blinker, mp1Poke, Blinker.fresh, placed]
    · simp [same, State.blinker, mp1Poke, setCell_other same]
  · change s.vmem.store _ _ = _
    rw [represents.vmem]

end Add

section Remove

variable {front back : List Cell}

/-- The pointer search ends at the link of the cell in front, or at the head. -/
theorem unlink_eq (linked : Chain s.next s.mp1ListHead (front ++ cell :: back))
    (nodup : (front ++ cell :: back).Nodup) :
    ∃ after, unlink s cell = some after ∧ after.vmem = s.vmem ∧ (∀ other, after.blinker other = s.blinker other) ∧
      Chain (mp1Free after cell).next after.mp1ListHead (front ++ back) := by
  obtain ⟨absent, others⟩ := List.nodup_cons.mp (List.nodup_middle.mp nodup)
  rcases List.eq_nil_or_concat front with rfl | ⟨before, last, rfl⟩
  · have head : s.mp1ListHead = some cell := linked.head_eq
    rw [unlink, if_pos head]
    refine ⟨_, rfl, rfl, fun other => rfl, linked.tail fun other member => ?_⟩
    have different : other ≠ cell := ne_of_mem_of_not_mem member absent
    simp [State.next, mp1Free, setCell_other different]
  · rw [List.concat_eq_append, List.append_assoc, List.singleton_append] at linked nodup absent others ⊢
    have different : ∀ other ∈ before ++ last :: back, other ≠ cell := fun other member =>
      ne_of_mem_of_not_mem member absent
    have once : last ∉ before ++ back := (List.nodup_cons.mp (List.nodup_middle.mp others)).1
    have notHead : s.mp1ListHead ≠ some cell := by
      rw [linked.head_eq]
      cases before with
      | nil => simpa using different last (by simp)
      | cons first rest => simpa using different first (by simp)
    have enough : before.length < listFuel := by
      have bound := cells_length nodup
      simp only [List.length_append, List.length_cons] at bound
      omega
    have found : predecessorFrom s.next cell listFuel s.mp1ListHead = some (some last) :=
      predecessorFrom_nodup linked nodup enough
    rw [unlink, if_neg notHead, found]
    refine ⟨_, rfl, rfl, fun other => ?_, linked.unlink ?_ fun other member => ?_⟩
    · by_cases same : other = last
      · simp [same, State.blinker]
      · simp [State.blinker, setCell_other same]
    · simp [State.next, mp1Free, setCell_other (different last (by simp))]
    · have apart : other ≠ last := ne_of_mem_of_not_mem member once
      have kept : other ≠ cell := different other (by simp only [List.mem_append, List.mem_cons] at member ⊢; tauto)
      simp [State.next, mp1Free, setCell_other kept, setCell_other apart]

theorem Represents.remove (represents : Represents s cells shown) (arg : UInt32) :
    ∃ after cells, mp1IoctlRemove s arg = some ((shown.serve (.remove arg)).1.ret, after) ∧
      Represents after cells (shown.serve (.remove arg)).2 := by
  rw [mp1IoctlRemove, Show.serve]
  rcases represents.find arg.toUInt16 with
    ⟨searched, missing⟩ | ⟨front, cell, back, searched, split, found, here, before⟩
  · rw [searched, missing]
    exact ⟨s, cells, rfl, represents⟩
  · rw [searched, found]
    subst split
    obtain ⟨absent, others⟩ := List.nodup_cons.mp (List.nodup_middle.mp represents.nodup)
    obtain ⟨after, unlinked, vmem, kept, chain⟩ := unlink_eq represents.linked represents.nodup
    have blinker : ∀ other, other ≠ cell → (mp1Free after cell).blinker other = s.blinker other := by
      intro other different
      rw [← kept, State.blinker, mp1Free, setCell_other different]
      rfl
    refine ⟨mp1Free after cell, front ++ back, ?_, chain, others, ?_, fun other => ?_, ?_⟩
    · simp only [Option.bind_eq_bind, Option.bind_some, unlinked]
      rfl
    · have skipped : ∀ b ∈ front.map s.blinker, ¬Blinker.isAt arg.toUInt16 b = true := by
        intro b member
        obtain ⟨other, inside, rfl⟩ := List.mem_map.mp member
        simpa [Blinker.isAt] using before other inside
      have erased : ((front ++ cell :: back).map s.blinker).eraseP (Blinker.isAt arg.toUInt16) =
          (front ++ back).map s.blinker := by
        rw [List.map_append, List.map_cons, List.eraseP_append_right _ skipped,
          List.eraseP_cons_of_pos (by simpa [Blinker.isAt] using here), ← List.map_append]
      change _ = shown.blinkers.eraseP _
      rw [← represents.blinkers, erased]
      exact List.map_congr_left fun other member => blinker other (ne_of_mem_of_not_mem member absent)
    · by_cases same : other = cell
      · rw [same]
        simp [State.blinker, mp1Free, BlinkStruct.zero, absent]
      · rw [blinker other same, represents.used]
        simp [same]
    · change after.vmem = shown.vmem
      rw [vmem, represents.vmem]

end Remove

section Sync

theorem syncChar_eq (b : Blinker) : syncChar b = b.offChar := by
  have clear : b.status.toUInt8 &&& 0x1 &&& 0x80 = 0 := by
    rw [UInt8.and_assoc]
    exact UInt8.and_zero
  rw [syncChar, if_neg (not_not.mpr clear)]

theorem map_modifyFirst {front back : List Cell} {before after : Cell → Blinker} {wanted : Blinker → Bool}
    {f : Blinker → Blinker} (skipped : ∀ other ∈ front, wanted (before other) = false) (here : wanted (before cell))
    (changed : after cell = f (before cell)) (kept : ∀ other ∈ front ++ back, after other = before other) :
    (front ++ cell :: back).map after = modifyFirst wanted f ((front ++ cell :: back).map before) := by
  induction front with
  | nil =>
      rw [List.nil_append, List.map_cons, List.map_cons, modifyFirst, if_pos here, changed]
      exact congrArg _ (List.map_congr_left kept)
  | cons first rest ih =>
      rw [List.cons_append, List.map_cons, List.map_cons, modifyFirst, kept first (by simp),
        if_neg (by simp [skipped first (by simp)])]
      exact congrArg _ (ih (fun other member => skipped other (by simp [member]))
        fun other member => kept other (by simp only [List.cons_append, List.mem_cons]; exact .inr member))

theorem Represents.sync (represents : Represents s cells shown) (arg : UInt32) :
    ∃ after, mp1IoctlSync s arg = some ((shown.serve (.sync arg)).1.ret, after) ∧
      Represents after cells (shown.serve (.sync arg)).2 := by
  rw [mp1IoctlSync, Show.serve]
  rcases represents.find (arg >>> 16).toUInt16 with ⟨searched, missing⟩ | ⟨-, first, -, searched, -, source, -⟩
  · rw [searched, missing]
    exact ⟨s, rfl, represents⟩
  rcases represents.find arg.toUInt16 with
    ⟨searched', missing⟩ | ⟨front, second, back, searched', split, found, here, before⟩
  · rw [searched, source, searched', missing]
    exact ⟨s, rfl, represents⟩
  rw [searched, source, searched', found]
  subst split
  obtain ⟨absent, -⟩ := List.nodup_cons.mp (List.nodup_middle.mp represents.nodup)
  refine ⟨_, rfl, represents.linked.congr fun other member => ?_, represents.nodup, ?_, fun other => ?_, ?_⟩
  · by_cases same : other = second
    · simp [same, State.next, mp1Poke]
    · simp [State.next, mp1Poke, setCell_other same]
  · rw [← represents.blinkers]
    refine map_modifyFirst (fun other member => ?_) ?_ ?_ fun other member => ?_
    · simpa [Blinker.isAt] using before other member
    · simpa [Blinker.isAt] using here
    · simp [State.blinker, mp1Poke]
    · have different : other ≠ second := ne_of_mem_of_not_mem member absent
      simp [State.blinker, mp1Poke, setCell_other different]
  · rw [← represents.used]
    by_cases same : other = second
    · simp [same, State.blinker, mp1Poke, Blinker.synced]
    · simp [State.blinker, mp1Poke, setCell_other same]
  · rw [syncChar_eq]
    change s.vmem.store _ _ = _
    rw [represents.vmem]
    rfl

end Sync

section Runs

/-- One request, on the cells and on the show. -/
theorem Represents.serves (represents : Represents s cells shown) (request : Request)
    (placed : ∀ user, request = .add user → user.location ≠ 0) :
    ∃ after cells, Serves s (request, (shown.serve request).1) after ∧
      Represents after cells (shown.serve request).2 := by
  cases request with
  | add user =>
      obtain ⟨returned, cells, after⟩ := represents.add (placed user rfl)
      refine ⟨_, cells, ?_, after⟩
      rw [Serves, serve, returned, Show.serve]
      split <;> rfl
  | remove arg =>
      obtain ⟨after, cells, removed, represents⟩ := represents.remove arg
      refine ⟨after, cells, ?_, represents⟩
      rw [Serves, serve, removed, Show.serve]
      split <;> rfl
  | find location =>
      refine ⟨s, cells, ?_, ?_⟩
      · rw [Serves, serve, mp1IoctlFind, Show.serve]
        rcases represents.find location with ⟨searched, missing⟩ | ⟨-, cell, -, searched, -, found, -⟩
        · rw [searched, missing]
          rfl
        · rw [searched, found]
          rfl
      · rw [Show.serve]
        split <;> exact represents
  | sync arg =>
      obtain ⟨after, synced, represents⟩ := represents.sync arg
      refine ⟨after, cells, ?_, represents⟩
      rw [Serves, serve, synced, Show.serve]
      split <;> rfl
  | tasklet =>
      obtain ⟨after, ran, represents⟩ := represents.tasklet
      refine ⟨after, cells, ?_, represents⟩
      rw [Serves, serve, ran]
      rfl

theorem Represents.run (represents : Represents s cells shown) (requests : List Request)
    (placed : ∀ user, .add user ∈ requests → user.location ≠ 0) :
    ∃ after cells, Run Serves s (shown.exchanges requests) after ∧ Represents after cells (shown.after requests) := by
  induction requests generalizing s cells shown with
  | nil => exact ⟨s, cells, .nil, represents⟩
  | cons request rest ih =>
      obtain ⟨middle, cells, served, represents⟩ :=
        represents.serves request fun user same => placed user (by simp [same])
      obtain ⟨after, cells, run, represents⟩ := ih represents fun user member => placed user (by simp [member])
      exact ⟨after, cells, .cons served run, represents⟩

/-- A request has one outcome. -/
theorem Serves.unique {exchange other : Request × Reply} {first second : State} (same : exchange.1 = other.1)
    (left : Serves s exchange first) (right : Serves s other second) : exchange = other ∧ first = second := by
  rw [Serves, same] at left
  have outcome := Option.some.inj (left.symm.trans right)
  exact ⟨Prod.ext same (congrArg Prod.fst outcome), congrArg Prod.snd outcome⟩

theorem run_unique {exchanges others : List (Request × Reply)} {first second : State}
    (same : exchanges.map Prod.fst = others.map Prod.fst) (left : Run Serves s exchanges first)
    (right : Run Serves s others second) : exchanges = others ∧ first = second := by
  induction left generalizing others with
  | nil =>
      obtain rfl : others = [] := List.map_eq_nil_iff.mp same.symm
      cases right
      exact ⟨rfl, rfl⟩
  | cons step _ ih =>
      cases others with
      | nil => simp at same
      | cons other rest =>
          rw [List.map_cons, List.map_cons, List.cons.injEq] at same
          cases right with
          | cons otherStep otherRun =>
              obtain ⟨rfl, rfl⟩ := step.unique same.1 otherStep
              obtain ⟨rfl, rfl⟩ := ih same.2 otherRun
              exact ⟨rfl, rfl⟩

theorem exchanges_requests (shown : Show) (requests : List Request) :
    (shown.exchanges requests).map Prod.fst = requests := by
  induction requests generalizing shown with
  | nil => rfl
  | cons request rest ih => rw [Show.exchanges, List.map_cons, ih]

theorem Represents.refined {exchanges : List (Request × Reply)} (represents : Represents s cells shown)
    (run : Run Serves s exchanges after) (placed : ∀ user, .add user ∈ exchanges.map Prod.fst → user.location ≠ 0) :
    exchanges = shown.exchanges (exchanges.map Prod.fst) ∧
      ∃ cells, Represents after cells (shown.after (exchanges.map Prod.fst)) := by
  obtain ⟨last, cells, served, represents⟩ := represents.run _ placed
  obtain ⟨same, rfl⟩ := run_unique (exchanges_requests _ _).symm run served
  exact ⟨same, cells, represents⟩

/-- Every request is served, with the replies of the show, and the cells always
hold its characters. -/
theorem blinkers_refine (vmem : Memory) (requests : List Request)
    (placed : ∀ user, .add user ∈ requests → user.location ≠ 0) :
    (∃ after, Run Serves (.initial vmem) (Show.exchanges ⟨[], vmem⟩ requests) after) ∧
    ∀ exchanges after, Run Serves (.initial vmem) exchanges after → exchanges.map Prod.fst = requests →
      exchanges = Show.exchanges ⟨[], vmem⟩ requests ∧
        ∃ cells, Represents after cells (Show.after ⟨[], vmem⟩ requests) := by
  refine ⟨?_, fun exchanges after run asked => ?_⟩
  · obtain ⟨last, -, served, -⟩ := (Represents.initial vmem).run _ placed
    exact ⟨last, served⟩
  · subst asked
    exact (Represents.initial vmem).refined run placed

theorem blinkers_refine_pair : ∃ after, Run Serves (.initial fun _ => 0x20)
    (Show.exchanges ⟨[], fun _ => 0x20⟩ [.add ⟨81, 0x2A, 0x2E, 1, 2, 0, 0⟩, .tasklet]) after :=
  (blinkers_refine _ _ (by simp)).1

end Runs

section Zero

end Zero

end BozOS.Fish
