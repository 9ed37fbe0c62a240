import BozOS.Fish.Refinement

namespace BozOS.Fish

open Data

/-! What the user sees: a character placed where there is none alternates between
its two forms with the lengths it was given, whatever else is placed, removed,
synchronised or looked up meanwhile. -/

/-- How many ticks a countdown takes. `decw` runs before the signed test, so that
a length outside of 1 to 0x8000 counts as one. -/
def ticksOf (length : UInt16) : Nat := if 1 ≤ length.toNat ∧ length.toNat ≤ 0x8000 then length.toNat else 1

def Blinker.isOn (b : Blinker) : Bool := b.status &&& 1 ≠ 0

def Blinker.visible (b : Blinker) : UInt8 := if b.isOn then b.onChar else b.offChar

def Blinker.period (b : Blinker) : Nat := ticksOf b.onLength + ticksOf b.offLength

variable {b : Blinker} {shown : Show} {location : UInt16}

theorem ticksOf_pos (length : UInt16) : 0 < ticksOf length := by
  unfold ticksOf
  split
  · omega
  · decide

theorem pred_toNat (word : UInt16) : (word - 1).toNat = (word.toNat + 65535) % 65536 := by
  rw [UInt16.toNat_sub, Nat.add_comm]
  rfl

theorem positive_pred (countdown : UInt16) : Positive (countdown - 1) ↔ 1 < ticksOf countdown := by
  have bound := countdown.toNat_lt
  have low : ((0 : UInt16) < countdown - 1) ↔ 0 < (countdown - 1).toNat := UInt16.lt_iff_toNat_lt
  have high : (countdown - 1 < (0x8000 : UInt16)) ↔ (countdown - 1).toNat < 0x8000 := UInt16.lt_iff_toNat_lt
  rw [Positive, low, high, pred_toNat]
  unfold ticksOf
  split <;> omega

theorem ticksOf_pred {countdown : UInt16} (more : 1 < ticksOf countdown) :
    ticksOf (countdown - 1) = ticksOf countdown - 1 := by
  unfold ticksOf at more ⊢
  split at more
  · rename_i inside
    rw [if_pos inside, pred_toNat, if_pos (by omega)]
    omega
  · omega

theorem isOn_iff (b : Blinker) : b.isOn = true ↔ b.status.toNat % 2 = 1 := by
  have parity : (b.status &&& 1).toNat = b.status.toNat % 2 := by
    rw [UInt16.toNat_and]
    exact Nat.and_one_is_mod _
  rw [Blinker.isOn, decide_eq_true_iff, ne_eq, ← UInt16.toNat_inj, parity]
  change ¬_ % 2 = 0 ↔ _
  omega

theorem isOn_flip (b : Blinker) (countdown : UInt16) :
    { b with countdown := countdown, status := b.status ^^^ 1 }.isOn = !b.isOn := by
  rw [Bool.eq_iff_iff, isOn_iff, Bool.not_eq_true', ← Bool.not_eq_true, isOn_iff, UInt16.toNat_xor]
  refine Nat.xor_mod_two_eq_one.trans ?_
  have odd : (1 : UInt16).toNat % 2 = 1 := rfl
  omega

/-- A tick counts down, or it changes to the other form. -/
theorem tick_cases (b : Blinker) :
    (1 < ticksOf b.countdown ∧ b.drawn = none ∧ b.tick = { b with countdown := b.countdown - 1 }) ∨
    (ticksOf b.countdown = 1 ∧ b.drawn = some b.tick.visible ∧ b.tick.isOn = !b.isOn ∧
      b.tick = { b with
        countdown := if b.isOn then b.offLength else b.onLength
        status := b.status ^^^ 1 }) := by
  by_cases more : 1 < ticksOf b.countdown
  · have positive := (positive_pred b.countdown).mpr more
    exact .inl ⟨more, if_pos positive, if_pos positive⟩
  · have last : ticksOf b.countdown = 1 := by
      have positive := ticksOf_pos b.countdown
      omega
    have stopped := mt (positive_pred b.countdown).mp more
    have flipped : b.tick = { b with
        countdown := if b.isOn then b.offLength else b.onLength
        status := b.status ^^^ 1 } := by
      rw [Blinker.tick, if_neg stopped]
      by_cases off : b.status &&& 1 = 0
      · simp [Blinker.isOn, off]
      · simp [Blinker.isOn, off]
    have changed : b.tick.isOn = !b.isOn := by rw [flipped, isOn_flip]
    refine .inr ⟨last, ?_, changed, flipped⟩
    rw [Blinker.visible, changed, Blinker.drawn, if_neg stopped, flipped]
    by_cases off : b.status &&& 1 = 0
    · simp [Blinker.isOn, off]
    · simp [Blinker.isOn, off]

/-- The record of `b` some ticks after it was shown. -/
structure InPhase (b current : Blinker) (ticks : Nat) : Prop where
  location : current.location = b.location
  onChar : current.onChar = b.onChar
  offChar : current.offChar = b.offChar
  onLength : current.onLength = b.onLength
  offLength : current.offLength = b.offLength
  phase : current.isOn = true ∧ ticks % b.period + ticksOf current.countdown = ticksOf b.onLength ∨
    current.isOn = false ∧ ticksOf b.onLength ≤ ticks % b.period ∧
      ticks % b.period + ticksOf current.countdown = b.period

theorem InPhase.fresh (b : Blinker) : InPhase b b.fresh 0 where
  location := rfl
  onChar := rfl
  offChar := rfl
  onLength := rfl
  offLength := rfl
  phase := .inl ⟨(isOn_iff _).mpr rfl, by rw [Nat.zero_mod, Nat.zero_add]; rfl⟩

/-- The first part of the period shows the one form, and the rest the other. -/
theorem InPhase.visible {current : Blinker} {ticks : Nat} (phase : InPhase b current ticks) :
    current.visible = if ticks % b.period < ticksOf b.onLength then b.onChar else b.offChar := by
  have positive := ticksOf_pos current.countdown
  rw [Blinker.visible, phase.onChar, phase.offChar]
  rcases phase.phase with ⟨lit, left⟩ | ⟨dark, late, -⟩
  · rw [if_pos lit, if_pos (by omega)]
  · rw [if_neg (by rw [dark]; decide), if_neg (by omega)]

/-- The phase of the next tick, the period over or not. -/
theorem succ_phase (ticks : Nat) (positive : 0 < period) :
    (ticks % period + 1 < period ∧ (ticks + 1) % period = ticks % period + 1) ∨
      (ticks % period + 1 = period ∧ (ticks + 1) % period = 0) := by
  have bound := Nat.mod_lt ticks positive
  have step : (ticks + 1) % period = (ticks % period + 1) % period := by rw [Nat.mod_add_mod]
  rcases Nat.lt_or_ge (ticks % period + 1) period with more | last
  · exact .inl ⟨more, step.trans (Nat.mod_eq_of_lt more)⟩
  · have wrapped : ticks % period + 1 = period := by omega
    exact .inr ⟨wrapped, by rw [step, wrapped, Nat.mod_self]⟩

theorem InPhase.tick {current : Blinker} {ticks : Nat} (phase : InPhase b current ticks) :
    InPhase b current.tick (ticks + 1) := by
  have on := ticksOf_pos b.onLength
  have off := ticksOf_pos b.offLength
  have total : b.period = ticksOf b.onLength + ticksOf b.offLength := rfl
  have next := succ_phase ticks (show 0 < b.period by omega)
  obtain ⟨location, onChar, offChar, onLength, offLength⟩ := tick_fixed current
  refine ⟨location.trans phase.location, onChar.trans phase.onChar, offChar.trans phase.offChar,
    onLength.trans phase.onLength, offLength.trans phase.offLength, ?_⟩
  rcases tick_cases current with ⟨more, -, ticked⟩ | ⟨last, -, changed, ticked⟩
  · have counted := ticksOf_pred more
    have kept : current.tick.isOn = current.isOn := by rw [ticked]; rfl
    have countdown : current.tick.countdown = current.countdown - 1 := by rw [ticked]
    rw [kept, countdown, counted]
    rcases phase.phase with ⟨lit, left⟩ | ⟨dark, late, left⟩
    · exact .inl ⟨lit, by omega⟩
    · exact .inr ⟨dark, by omega, by omega⟩
  · rcases phase.phase with ⟨lit, left⟩ | ⟨dark, late, left⟩
    · have countdown : current.tick.countdown = b.offLength := by rw [ticked, ← phase.offLength]; exact if_pos lit
      rw [changed, lit, countdown]
      exact .inr ⟨rfl, by omega, by omega⟩
    · have countdown : current.tick.countdown = b.onLength := by
        rw [ticked, ← phase.onLength]
        exact if_neg (by rw [dark]; decide)
      rw [changed, dark, countdown]
      exact .inl ⟨rfl, by omega⟩

/-- The requests that change what is at a location. -/
def Request.Touches (location : UInt16) : Request → Prop
  | .add user => user.location = location
  | .remove arg => arg.toUInt16 = location
  | .sync arg => arg.toUInt16 = location
  | .find _ => False
  | .tasklet => False

/-- `b` is the only character at its location, and the screen shows its phase. -/
def Shows (b : Blinker) (shown : Show) (ticks : Nat) : Prop :=
  ∃ current, shown.blinkers.filter (Blinker.isAt b.location) = [current] ∧ InPhase b current ticks ∧
    shown.vmem (2 * b.location.toNat) = current.visible

section Apart

variable {blinkers : List Blinker} {other : UInt16}

theorem isAt_apart (different : other ≠ location) (elsewhere : b.isAt other = true) : b.isAt location = false := by
  have here : b.location = other := of_decide_eq_true elsewhere
  exact decide_eq_false (here ▸ different)

theorem eraseP_apart (different : other ≠ location) :
    (blinkers.eraseP (Blinker.isAt other)).filter (Blinker.isAt location) =
      blinkers.filter (Blinker.isAt location) := by
  induction blinkers with
  | nil => rfl
  | cons b rest ih =>
      by_cases elsewhere : b.isAt other = true
      · rw [List.eraseP_cons_of_pos elsewhere, List.filter_cons_of_neg (by rw [isAt_apart different elsewhere]; decide)]
      · rw [List.eraseP_cons_of_neg elsewhere, List.filter_cons, List.filter_cons, ih]

theorem modifyFirst_apart {f : Blinker → Blinker} (different : other ≠ location)
    (still : ∀ b : Blinker, (f b).location = b.location) :
    (modifyFirst (Blinker.isAt other) f blinkers).filter (Blinker.isAt location) =
      blinkers.filter (Blinker.isAt location) := by
  induction blinkers with
  | nil => rfl
  | cons b rest ih =>
      rw [modifyFirst]
      by_cases elsewhere : b.isAt other = true
      · have absent := isAt_apart different elsewhere
        have moved : (f b).isAt location = false := by rw [← absent, Blinker.isAt, still]; rfl
        rw [if_pos elsewhere, List.filter_cons_of_neg (by rw [moved]; decide),
          List.filter_cons_of_neg (by rw [absent]; decide)]
      · rw [if_neg elsewhere, List.filter_cons, List.filter_cons, ih]

theorem map_tick_filter :
    (blinkers.map Blinker.tick).filter (Blinker.isAt location) =
      (blinkers.filter (Blinker.isAt location)).map Blinker.tick := by
  have still : Blinker.isAt location ∘ Blinker.tick = Blinker.isAt location := by
    funext b
    rw [Function.comp_apply, Blinker.isAt, (tick_fixed b).1]
    rfl
  rw [List.filter_map, still]

theorem drawTo_other {vmem : Memory} (different : b.location ≠ location) :
    b.drawTo vmem (2 * location.toNat) = vmem (2 * location.toNat) := by
  have apart : location.toNat ≠ b.location.toNat := fun same => different (UInt16.toNat_inj.mp same).symm
  rw [Blinker.drawTo]
  cases b.drawn with
  | none => rfl
  | some char => exact Memory.store_other (by omega)

/-- Only the characters of a location draw there. -/
theorem draw_filter (vmem other : Memory) (same : vmem (2 * location.toNat) = other (2 * location.toNat)) :
    blinkers.foldl (fun vmem b => b.drawTo vmem) vmem (2 * location.toNat) =
      (blinkers.filter (Blinker.isAt location)).foldl (fun vmem b => b.drawTo vmem) other (2 * location.toNat) := by
  induction blinkers generalizing vmem other with
  | nil => exact same
  | cons b rest ih =>
      by_cases here : b.isAt location = true
      · have place : b.location = location := of_decide_eq_true here
        rw [List.filter_cons_of_pos here, List.foldl_cons, List.foldl_cons]
        refine ih _ _ ?_
        subst place
        unfold Blinker.drawTo
        cases b.drawn with
        | none => exact same
        | some char => exact Memory.store_same.trans Memory.store_same.symm
      · have different : b.location ≠ location := fun place => here (decide_eq_true place)
        rw [List.filter_cons_of_neg here, List.foldl_cons]
        exact ih _ _ ((drawTo_other different).trans same)

end Apart

theorem Shows.tasklet {ticks : Nat} (shows : Shows b shown ticks) : Shows b (shown.serve .tasklet).2 (ticks + 1) := by
  obtain ⟨current, alone, phase, drawn⟩ := shows
  refine ⟨current.tick, ?_, phase.tick, ?_⟩
  · change (shown.blinkers.map Blinker.tick).filter _ = _
    rw [map_tick_filter, alone]
    rfl
  · change shown.blinkers.foldl (fun vmem b => b.drawTo vmem) shown.vmem _ = _
    rw [draw_filter _ _ rfl, alone, List.foldl_cons, List.foldl_nil, Blinker.drawTo]
    rcases tick_cases current with ⟨-, none, ticked⟩ | ⟨-, some, -, -⟩
    · rw [none]
      refine drawn.trans ?_
      rw [ticked]
      rfl
    · rw [some, phase.location]
      exact Memory.store_same

theorem Shows.untouched {ticks : Nat} {request : Request} (shows : Shows b shown ticks)
    (apart : ¬request.Touches b.location) (other : request ≠ .tasklet) : Shows b (shown.serve request).2 ticks := by
  obtain ⟨current, alone, phase, drawn⟩ := shows
  have kept : ∀ {place : UInt16} {char : UInt8}, place ≠ b.location →
      (shown.vmem.store (2 * place.toNat) char) (2 * b.location.toNat) = current.visible := by
    intro place char different
    have apart : b.location.toNat ≠ place.toNat := fun same => different (UInt16.toNat_inj.mp same).symm
    rw [Memory.store_other (by omega), drawn]
  cases request with
  | add user =>
      rw [Show.serve]
      split
      · exact ⟨current, alone, phase, drawn⟩
      · refine ⟨current, ?_, phase, kept apart⟩
        have absent : user.fresh.isAt b.location = false := decide_eq_false apart
        rw [List.filter_cons_of_neg (by rw [absent]; decide), alone]
  | remove arg =>
      rw [Show.serve]
      split
      · exact ⟨current, alone, phase, drawn⟩
      · exact ⟨current, (eraseP_apart apart).trans alone, phase, drawn⟩
  | find place =>
      rw [Show.serve]
      split <;> exact ⟨current, alone, phase, drawn⟩
  | sync arg =>
      rw [Show.serve]
      split
      · rename_i first second source found
        have place : second.location = arg.toUInt16 := by simpa [Blinker.isAt] using List.find?_some found
        exact ⟨current, (modifyFirst_apart (f := first.synced) apart fun _ => rfl).trans alone, phase,
          kept fun same => apart (place.symm.trans same)⟩
      · exact ⟨current, alone, phase, drawn⟩
  | tasklet => exact absurd rfl other

theorem Shows.after {ticks : Nat} {requests : List Request} (shows : Shows b shown ticks)
    (apart : ∀ request ∈ requests, ¬request.Touches b.location) :
    Shows b (shown.after requests) (ticks + requests.count .tasklet) := by
  induction requests generalizing shown ticks with
  | nil => exact shows
  | cons request rest ih =>
      have later : ∀ request ∈ rest, ¬request.Touches b.location := fun request member =>
        apart request (List.mem_cons_of_mem _ member)
      by_cases clock : request = .tasklet
      · subst clock
        rw [List.count_cons_self, ← Nat.add_assoc, Nat.add_right_comm]
        exact ih shows.tasklet later
      · rw [List.count_cons_of_ne clock]
        exact ih (shows.untouched (apart request List.mem_cons_self) clock) later

/-- A character is shown alone when nothing was found at its place before. -/
theorem Shows.added {user : Blinker} (missing : (shown.serve (.find user.location)).1 = ⟨-1, none⟩)
    (added : (shown.serve (.add user)).1 = ⟨0, none⟩) : Shows user (shown.serve (.add user)).2 0 := by
  have nowhere : shown.blinkers.find? (Blinker.isAt user.location) = none := by
    rw [Show.serve] at missing
    split at missing
    · assumption
    · cases missing
  rw [Show.serve] at added ⊢
  split at added
  · cases added
  · rename_i room
    rw [if_neg room]
    have absent : shown.blinkers.filter (Blinker.isAt user.location) = [] :=
      List.filter_eq_nil_iff.mpr (List.find?_eq_none.mp nowhere)
    have here : user.fresh.isAt user.location = true := decide_eq_true rfl
    refine ⟨user.fresh, ?_, .fresh user, ?_⟩
    · rw [List.filter_cons_of_pos here, absent]
    · rw [(InPhase.fresh user).visible, Nat.zero_mod, if_pos (ticksOf_pos _)]
      exact Memory.store_same

end BozOS.Fish
