/-
Registers: what is left of a row of writes.

A register is anything that is read from a state and that every step either
writes or leaves alone. Whatever else the steps do, after a row of them the
register holds the last value that was written, or what it held before
(`read_foldl`).
-/
import Mathlib.Tactic

set_option autoImplicit false

namespace CmsProxy.Registers

variable {σ β γ : Type*}

/-- The last value a row writes; `write` is `none` where an element writes nothing. -/
def lastWrite (write : β → Option γ) (row : List β) : Option γ := (row.filterMap write).getLast?

variable {write : β → Option γ}

/-- What is written later counts. -/
theorem lastWrite_append (row row' : List β) :
    lastWrite write (row ++ row') = (lastWrite write row').or (lastWrite write row) := by
  rw [lastWrite, List.filterMap_append, List.getLast?_append, lastWrite, lastWrite]

theorem lastWrite_cons (b : β) (row : List β) :
    lastWrite write (b :: row) = (lastWrite write row).or (write b) := by
  have hone : lastWrite write [b] = write b := by
    unfold lastWrite
    cases hb : write b <;> simp only [List.filterMap_cons, List.filterMap_nil, hb] <;> rfl
  rw [← List.singleton_append, lastWrite_append, hone]

theorem lastWrite_eq_none_iff {row : List β} :
    lastWrite write row = none ↔ ∀ b ∈ row, write b = none := by
  rw [lastWrite, List.getLast?_eq_none_iff, List.filterMap_eq_nil_iff]

/-- A row that writes nothing leaves nothing. -/
theorem lastWrite_none (row : List β) : lastWrite (fun _ => (none : Option γ)) row = none :=
  lastWrite_eq_none_iff.mpr fun _ _ => rfl

/-- **Registers.** If every step writes the register or leaves it alone, a row of
steps leaves its last write. -/
theorem read_foldl {step : σ → β → σ} {read : σ → Option γ}
    (h : ∀ s b, read (step s b) = (write b).or (read s)) (row : List β) (s : σ) :
    read (row.foldl step s) = (lastWrite write row).or (read s) := by
  induction row generalizing s with
  | nil => rfl
  | cons b row ih => rw [List.foldl_cons, ih, h, lastWrite_cons, Option.or_assoc]

end CmsProxy.Registers
