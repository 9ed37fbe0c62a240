import BozOS.Data.Memory

namespace BozOS.Data

/-! Arrays that keep account of their use: beside its bytes a buffer holds the
indices at which it has been read or written, so that the bounds of a routine
are a property of the buffer it leaves. -/

structure Buffer where
  bytes : Memory
  used : List Nat

namespace Buffer

variable {before middle after : Buffer} {first last index : Nat} {byte : UInt8}

def new (bytes : Memory) : Buffer := ⟨bytes, []⟩

/-- A cell has been read. -/
def touch (buffer : Buffer) (index : Nat) : Buffer := { buffer with used := index :: buffer.used }

def store (buffer : Buffer) (index : Nat) (byte : UInt8) : Buffer :=
  ⟨buffer.bytes.store index byte, index :: buffer.used⟩

@[simp] theorem new_bytes {bytes : Memory} : (new bytes).bytes = bytes := rfl

@[simp] theorem touch_bytes : (before.touch index).bytes = before.bytes := rfl

@[simp] theorem store_bytes : (before.store index byte).bytes = before.bytes.store index byte := rfl

/-- A routine that uses the cells from `first` to `last` only. -/
structure Stays (first last : Nat) (before after : Buffer) : Prop where
  used : ∀ index ∈ after.used, index ∈ before.used ∨ first ≤ index ∧ index ≤ last
  outside : ∀ index, index < first ∨ last < index → after.bytes index = before.bytes index

theorem Stays.refl : Stays first last before before := ⟨fun _ => .inl, fun _ _ => rfl⟩

theorem Stays.trans (left : Stays first last before middle) (right : Stays first last middle after) :
    Stays first last before after where
  used index listed := (right.used index listed).elim (left.used index) .inr
  outside index beyond := (right.outside index beyond).trans (left.outside index beyond)

theorem Stays.mono {lower upper : Nat} (stays : Stays first last before after) (below : lower ≤ first)
    (above : last ≤ upper) : Stays lower upper before after where
  used index listed := (stays.used index listed).imp_right fun inside => ⟨by omega, by omega⟩
  outside index beyond := stays.outside index (by omega)

theorem Stays.touch (lower : first ≤ index) (upper : index ≤ last) : Stays first last before (before.touch index) where
  used other listed := by
    rcases List.mem_cons.mp listed with rfl | earlier
    · exact .inr ⟨lower, upper⟩
    · exact .inl earlier
  outside _ _ := rfl

theorem Stays.store (lower : first ≤ index) (upper : index ≤ last) :
    Stays first last before (before.store index byte) where
  used := (Stays.touch lower upper).used
  outside other beyond := Memory.store_other (by omega)

/-- All indices of a routine that starts with an unused buffer. -/
theorem Stays.bounded {bytes : Memory} (stays : Stays first last (new bytes) after) :
    ∀ index ∈ after.used, index ≤ last := by
  intro index listed
  rcases stays.used index listed with impossible | inside
  · cases impossible
  · exact inside.2

end Buffer

end BozOS.Data
