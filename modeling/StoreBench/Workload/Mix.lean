import StoreBench.Error
import StoreBench.OperationKind
/-!
# Operation mixes

A mix divides the unit interval among the kinds of operation that have a positive weight, in
proportion to their weights. A draw from the interval picks the kind whose part it falls in; draws
beyond the last bound, which rounding can leave below one, pick the last kind.
-/

namespace StoreBench

/-- The kinds to pick from, each with the upper bound of its part of the unit interval. -/
structure Mix where
  parts : List (Float × OperationKind)
  nonempty : parts ≠ []

namespace Mix

/-- The parts of the positive weights, from the bound reached so far. -/
def partsFrom (total : Float) : (bound : Float) → List (Float × OperationKind) →
    List (Float × OperationKind)
  | _, [] => []
  | bound, (weight, kind) :: rest =>
    if 0.0 < weight then
      let bound := bound + weight / total
      (bound, kind) :: partsFrom total bound rest
    else partsFrom total bound rest

/-- Every kind in the parts has a positive weight. -/
theorem weight_pos_of_mem_partsFrom {total bound b : Float} {kind : OperationKind}
    {weights : List (Float × OperationKind)} (h : (b, kind) ∈ partsFrom total bound weights) :
    ∃ weight, 0.0 < weight ∧ (weight, kind) ∈ weights := by
  induction weights generalizing bound with
  | nil => simp [partsFrom] at h
  | cons w rest ih =>
    obtain ⟨weight, other⟩ := w
    simp only [partsFrom] at h
    split at h
    · next pos =>
      rcases List.mem_cons.1 h with heq | hrest
      · cases heq
        exact ⟨weight, pos, List.mem_cons_self⟩
      · obtain ⟨v, hv, hm⟩ := ih hrest
        exact ⟨v, hv, List.mem_cons_of_mem _ hm⟩
    · obtain ⟨v, hv, hm⟩ := ih h
      exact ⟨v, hv, List.mem_cons_of_mem _ hm⟩

/-- The mix of finite, non-negative weights of which at least one is positive. -/
def ofWeights? (weights : List (Float × OperationKind)) : Except Misconfiguration Mix :=
  if weights.any fun w => !w.1.isFinite || w.1 < 0.0 then .error .negativeProportion
  else
    let total := weights.foldl (fun sum w => sum + w.1) 0.0
    if total ≤ 0.0 then .error .noProportion
    else
      let parts := partsFrom total 0.0 weights
      if h : parts = [] then .error .noProportion else .ok ⟨parts, h⟩

/-- The kind that a draw from the unit interval picks. -/
def choose (m : Mix) (u : Float) : OperationKind :=
  match m.parts.find? (u < ·.1) with
  | some part => part.2
  | none => (m.parts.getLast m.nonempty).2

end Mix

end StoreBench
