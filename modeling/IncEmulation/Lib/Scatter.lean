import Mathlib.Logic.Function.Basic
import Mathlib.Data.List.Induction

/-!
# Loops that scatter values over an array

An unpacking loop takes its steps in order and writes a value for each of them
that it keeps.  When no two of the kept steps write to one position, the array
holds in the end what each of them wrote, and elsewhere what it held before.
-/

namespace Scatter

variable {Step Position Value : Type*} [DecidableEq Position]

/-- Write `value step` to `position step` for every step that is kept. -/
def scatter (keep : Step → Prop) [DecidablePred keep]
    (position : Step → Position) (value : Step → Value) (steps : List Step)
    (target : Position → Value) : Position → Value :=
  steps.foldl
    (fun target step =>
      if keep step then Function.update target (position step) (value step)
      else target)
    target

variable {keep : Step → Prop} [DecidablePred keep] {position : Step → Position}
  {value : Step → Value} {steps : List Step} {target : Position → Value}
  {place : Position}

theorem scatter_concat (step : Step) :
    scatter keep position value (steps ++ [step]) target =
      if keep step then
        Function.update (scatter keep position value steps target)
          (position step) (value step)
      else scatter keep position value steps target := by
  rw [scatter, List.foldl_append]
  rfl

theorem scatter_of_absent
    (absent : ∀ step ∈ steps, keep step → position step ≠ place) :
    scatter keep position value steps target place = target place := by
  induction steps using List.reverseRecOn with
  | nil => rfl
  | append_singleton steps step induction =>
      have rest := induction fun earlier member =>
        absent earlier (List.mem_append_left [step] member)
      rw [scatter_concat]
      split_ifs with kept
      · have elsewhere := absent step List.mem_concat_self kept
        rw [Function.update_of_ne elsewhere.symm, rest]
      · exact rest

/-- A kept step leaves its value where all kept steps agree on it. -/
theorem scatter_of_mem {step : Step} (member : step ∈ steps) (kept : keep step)
    (writes : position step = place)
    (agree : ∀ other ∈ steps, keep other → position other = place →
      value other = value step) :
    scatter keep position value steps target place = value step := by
  induction steps using List.reverseRecOn with
  | nil => cases member
  | append_singleton steps last induction =>
      rw [scatter_concat]
      by_cases final : keep last ∧ position last = place
      · rw [if_pos final.1, ← final.2, Function.update_self]
        exact agree last List.mem_concat_self final.1 final.2
      · have earlier : step ∈ steps := by
          rcases List.mem_append.mp member with earlier | isLast
          · exact earlier
          · obtain rfl := List.mem_singleton.mp isLast
            exact absurd ⟨kept, writes⟩ final
        have rest := induction earlier fun other inside =>
          agree other (List.mem_append_left [last] inside)
        split_ifs with keptLast
        · have elsewhere : place ≠ position last :=
            fun same => final ⟨keptLast, same.symm⟩
          rw [Function.update_of_ne elsewhere, rest]
        · exact rest

/-- Steps that copy `source` leave its value where one of them writes. -/
theorem scatter_source {source : Position → Value}
    (values : ∀ step ∈ steps, keep step →
      value step = source (position step))
    (covered : ∃ step ∈ steps, keep step ∧ position step = place) :
    scatter keep position value steps target place = source place := by
  obtain ⟨step, member, kept, writes⟩ := covered
  rw [scatter_of_mem member kept writes, values step member kept, writes]
  intro other inside keptOther same
  rw [values other inside keptOther, values step member kept, same, writes]

/-- A loop within a loop takes the steps of its items one after the other. -/
theorem foldl_scatter {Item : Type*} (keep : Item → Step → Prop)
    [∀ item, DecidablePred (keep item)] (position : Item → Step → Position)
    (value : Item → Step → Value) (steps : Item → List Step)
    (items : List Item) (target : Position → Value) :
    items.foldl (fun target item =>
        scatter (keep item) (position item) (value item) (steps item) target)
        target =
      scatter (fun step : Item × Step => keep step.1 step.2)
        (fun step => position step.1 step.2) (fun step => value step.1 step.2)
        (items.flatMap fun item => (steps item).map (Prod.mk item)) target := by
  rw [scatter, List.foldl_flatMap]
  simp only [List.foldl_map]
  rfl

end Scatter
