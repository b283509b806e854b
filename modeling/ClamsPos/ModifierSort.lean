import ClamsPos.Modifier

/-!
# The modifier does not depend on the sort

`ComputeNextStakeModifier` collects its candidates walking back from `pindexPrev`, reverses
them and hands them to `std::sort`, which is unstable and whose order on ties is left to the
standard library. Sorting by `(block time, block hash)` orders the whole candidate pair, so
every sorted permutation of the candidates is the same list: any sort, fed the candidates in
any order, gives the same modifier and the same generated flag.
-/

namespace ClamsPos

theorem sortCandidates_perm (v : List Candidate) : (sortCandidates v).Perm v :=
  (List.perm_insertionSort _ _).trans (List.reverse_perm v)

theorem sortCandidates_sorted (v : List Candidate) : (sortCandidates v).Sorted candidateLe :=
  List.sorted_insertionSort _ _

/-- A function returning a sorted permutation of its input is `sortCandidates`. -/
theorem eq_sortCandidates {arrange : List Candidate → List Candidate}
    (harrange : ∀ v, (arrange v).Perm v ∧ (arrange v).Sorted candidateLe) :
    arrange = sortCandidates :=
  funext fun v => List.eq_of_perm_of_sorted ((harrange v).1.trans (sortCandidates_perm v).symm)
    (harrange v).2 (sortCandidates_sorted v)

/-- Replacing the `reverse` + `std::sort` step of `ComputeNextStakeModifier` by any function
that returns a permutation of its input sorted by `(block time, block hash)`, or feeding the
sort the collected candidates in any other order, changes neither the modifier nor the
generated flag, for every block and block map. -/
theorem computeNextStakeModifier_sort_independent (arrange reorder : List Candidate → List Candidate)
    (harrange : ∀ v, (arrange v).Perm v ∧ (arrange v).Sorted candidateLe)
    (hreorder : ∀ v, (reorder v).Perm v) :
    computeNextStakeModifierBy arrange = computeNextStakeModifier ∧
      computeNextStakeModifierBy (sortCandidates ∘ reorder) = computeNextStakeModifier := by
  have hsort : sortCandidates ∘ reorder = sortCandidates := eq_sortCandidates fun v =>
    ⟨(sortCandidates_perm _).trans (hreorder v), sortCandidates_sorted _⟩
  rw [eq_sortCandidates harrange, hsort]
  exact ⟨rfl, rfl⟩

/-- Sorting without the `reverse`, or after it, gives `ComputeNextStakeModifier`. -/
theorem computeNextStakeModifier_sort_independent_insertion :
    computeNextStakeModifierBy (fun v => v.insertionSort candidateLe) = computeNextStakeModifier ∧
      computeNextStakeModifierBy (sortCandidates ∘ List.reverse) = computeNextStakeModifier :=
  computeNextStakeModifier_sort_independent _ _
    (fun _ => ⟨List.perm_insertionSort _ _, List.sorted_insertionSort _ _⟩) List.reverse_perm

end ClamsPos
