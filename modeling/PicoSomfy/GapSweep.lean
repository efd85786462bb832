import Mathlib

/-!
# The gaps between visited cells

A sweep visits cells of a row in ascending order, some of them several times. It keeps
the first cell behind the last visited one, and at each visit it notes the gap that ends
there, with its first cell and its length. When the sweep is closed at the end of the row,
the noted gaps are exactly the cells that were not visited.
-/
namespace GapSweep

/-- The first cell that may still be free, and the gaps noted so far. -/
structure Sweep where
  start : ℕ
  gaps : List (ℕ × ℕ)

namespace Sweep

/-- Notes the gap before a cell, if there is one. -/
def close (s : Sweep) (cell : ℕ) : Sweep :=
  if s.start < cell then { s with gaps := s.gaps ++ [(s.start, cell - s.start)] } else s

def visit (s : Sweep) (cell : ℕ) : Sweep := { s.close cell with start := cell + 1 }

/-- The cell lies in one of the gaps. -/
def Covers (s : Sweep) (cell : ℕ) : Prop := ∃ gap ∈ s.gaps, gap.1 ≤ cell ∧ cell < gap.1 + gap.2

@[simp] theorem close_start (s : Sweep) (cell : ℕ) : (s.close cell).start = s.start := by
  unfold close
  split_ifs <;> rfl

@[simp] theorem visit_start (s : Sweep) (cell : ℕ) : (s.visit cell).start = cell + 1 := rfl

theorem visit_covers (s : Sweep) (cell a : ℕ) :
    (s.visit cell).Covers a ↔ (s.close cell).Covers a := Iff.rfl

theorem close_covers (s : Sweep) (cell a : ℕ) :
    (s.close cell).Covers a ↔ s.Covers a ∨ (s.start ≤ a ∧ a < cell) := by
  unfold close Covers
  split_ifs with hgap
  · simp only [List.mem_append, List.mem_singleton, or_and_right, exists_or, exists_eq_left]
    refine or_congr_right (and_congr_right fun _ => ?_)
    omega
  · exact ⟨.inl, fun h => h.resolve_right (by omega)⟩

/-- What holds after these visits. -/
structure Swept (visited : List ℕ) (s : Sweep) : Prop where
  covers : ∀ a, s.Covers a ↔ a < s.start ∧ a ∉ visited
  before : ∀ v ∈ visited, v < s.start
  last : s.start = 0 ∨ ∃ v ∈ visited, s.start = v + 1

variable {visited : List ℕ} {s : Sweep} {cell : ℕ}

theorem Swept.nil : Swept [] ⟨0, []⟩ :=
  ⟨by simp [Covers], by simp, .inl rfl⟩

/-- Closing before a cell that is not behind the last visited one. -/
theorem Swept.close (h : Swept visited s) (hle : s.start ≤ cell) (a : ℕ) :
    (s.close cell).Covers a ↔ a < cell ∧ a ∉ visited := by
  rw [close_covers, h.covers]
  constructor
  · rintro (⟨hlt, hnot⟩ | ⟨hge, hlt⟩)
    · exact ⟨by omega, hnot⟩
    · exact ⟨hlt, fun hv => absurd (h.before a hv) (by omega)⟩
  · rintro ⟨hlt, hnot⟩
    rcases Nat.lt_or_ge a s.start with ha | ha
    · exact .inl ⟨ha, hnot⟩
    · exact .inr ⟨ha, hlt⟩

/-- The cell is visited for the first time, or again. -/
theorem Swept.start_le (h : Swept visited s) (hmono : ∀ v ∈ visited, v ≤ cell) :
    s.start ≤ cell ∨ s.start = cell + 1 ∧ cell ∈ visited := by
  rcases h.last with h0 | ⟨v, hv, hstart⟩
  · exact .inl (by omega)
  · rcases Nat.lt_or_eq_of_le (hmono v hv) with hlt | rfl
    · exact .inl (by omega)
    · exact .inr ⟨hstart, hv⟩

/-- The cell of the next visit lies in no gap. -/
theorem Swept.not_covers (h : Swept visited s) (hmono : ∀ v ∈ visited, v ≤ cell) :
    ¬s.Covers cell := by
  rw [h.covers]
  rintro ⟨hlt, hnot⟩
  rcases h.start_le hmono with hle | ⟨-, hcell⟩
  · omega
  · exact hnot hcell

theorem Swept.visit (h : Swept visited s) (hmono : ∀ v ∈ visited, v ≤ cell) :
    Swept (visited ++ [cell]) (s.visit cell) where
  covers a := by
    rw [visit_covers, visit_start, List.mem_append, List.mem_singleton, not_or]
    rcases h.start_le hmono with hle | ⟨hstart, hcell⟩
    · rw [h.close hle]
      constructor
      · rintro ⟨hlt, hnot⟩
        exact ⟨by omega, hnot, by omega⟩
      · rintro ⟨hlt, hnot, hne⟩
        exact ⟨by omega, hnot⟩
    · -- a second visit: there is no gap between the two
      rw [close_covers, h.covers, hstart]
      constructor
      · rintro (⟨hlt, hnot⟩ | ⟨hge, hlt⟩)
        · exact ⟨hlt, hnot, fun ha => hnot (ha ▸ hcell)⟩
        · omega
      · rintro ⟨hlt, hnot, -⟩
        exact .inl ⟨hlt, hnot⟩
  before v hv := by
    rw [visit_start]
    rcases List.mem_append.mp hv with hv | hv
    · have hle := hmono v hv
      omega
    · rw [List.mem_singleton.mp hv]
      omega
  last := .inr ⟨cell, List.mem_append_right _ (List.mem_singleton_self cell), rfl⟩

/-- The row ends behind all visited cells. -/
theorem Swept.finish (h : Swept visited s) {stop : ℕ} (hstop : ∀ v ∈ visited, v < stop) (a : ℕ) :
    (s.close stop).Covers a ↔ a < stop ∧ a ∉ visited := by
  refine h.close ?_ a
  rcases h.last with h0 | ⟨v, hv, hstart⟩
  · omega
  · have hlt := hstop v hv
    omega

end Sweep

end GapSweep
