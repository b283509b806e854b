import ClamsPos.Hash

/-!
# The stake modifier engine

`GetLastStakeModifier`, the selection interval, `SelectBlockFromCandidates` and
`ComputeNextStakeModifier`: the backward walks of `pos.cpp` that derive the 64-bit stake
modifier stamped on each new block.

`std::sort` is implementation-defined and unstable, so `computeNextStakeModifierBy` takes
the `reverse` + `sort` step as a parameter; `computeNextStakeModifier` fixes it to an
insertion sort. `ClamsPos.ModifierSort` shows that every sort gives the same modifier.

## Main definitions

* `getLastStakeModifier` — the modifier of the nearest generating ancestor-or-self.
* `getStakeModifierSelectionIntervalSection`, `getStakeModifierSelectionInterval`.
* `selectBlockFromCandidates` — one selection round over the sorted candidates.
* `computeNextStakeModifier` — the modifier and generated flag for the child of a block.

## Main results

* `getLastStakeModifier_eq_find` — the walk returns the first generating block `find?` picks,
  on every chain.
* `getStakeModifierSelectionInterval_pos` — the selection interval is positive.
* `getStakeModifierSelectionInterval_bounds` — the sections grow with the round, the interval
  is at most 64 modifier intervals, and no `int64_t` value overflows below `2 ^ 57`.
-/

namespace ClamsPos

/-- The block the loop of `GetLastStakeModifier` stops at: the first entry of
`pindex :: pprevs` with the generated flag, or the last one, whose `pprev` is null. -/
def lastModifierBlock : CBlockIndex → List CBlockIndex → CBlockIndex
  | pindex, [] => pindex
  | pindex, pprev :: rest =>
    if pindex.generatedStakeModifier then pindex else lastModifierBlock pprev rest

@[simp] theorem lastModifierBlock_nil (pindex : CBlockIndex) : lastModifierBlock pindex [] = pindex :=
  rfl

theorem lastModifierBlock_cons (pindex pprev : CBlockIndex) (rest : List CBlockIndex) :
    lastModifierBlock pindex (pprev :: rest) =
      if pindex.generatedStakeModifier then pindex else lastModifierBlock pprev rest := rfl

/-- `GetLastStakeModifier`: the modifier and the block time of the nearest
ancestor-or-self that generated a modifier. -/
def getLastStakeModifier : List CBlockIndex → Outcome (UInt64 × Int)
  | [] => .error "GetLastStakeModifier: null pindex"
  | pindex :: pprevs =>
    if (lastModifierBlock pindex pprevs).generatedStakeModifier then
      .ok ((lastModifierBlock pindex pprevs).nStakeModifier,
        (lastModifierBlock pindex pprevs).getBlockTime)
    else .error "GetLastStakeModifier: no generation at genesis block %s %s"

/-- `GetLastStakeModifier` succeeds exactly when its walk stops at a generating block. -/
theorem getLastStakeModifier_eq_ok {pindex : CBlockIndex} {pprevs : List CBlockIndex}
    {m : UInt64} {t : Int} :
    getLastStakeModifier (pindex :: pprevs) = .ok (m, t) ↔
      (lastModifierBlock pindex pprevs).generatedStakeModifier ∧
      (lastModifierBlock pindex pprevs).nStakeModifier = m ∧
      (lastModifierBlock pindex pprevs).getBlockTime = t := by
  simp only [getLastStakeModifier]
  split <;> simp_all

/-- The walk of `GetLastStakeModifier` stops at the block `find?` picks, and at a block that did
not generate when there is none. -/
theorem lastModifierBlock_find (pindex : CBlockIndex) (pprevs : List CBlockIndex) :
    match (pindex :: pprevs).find? (·.generatedStakeModifier) with
    | some g => lastModifierBlock pindex pprevs = g
    | none => (lastModifierBlock pindex pprevs).generatedStakeModifier = false := by
  induction pprevs generalizing pindex with
  | nil => by_cases hg : pindex.generatedStakeModifier <;> simp [lastModifierBlock, hg]
  | cons p ps ih =>
    rw [List.find?_cons, lastModifierBlock_cons]
    by_cases hg : pindex.generatedStakeModifier
    · simp [hg]
    · simpa [hg] using ih p

/-- On every chain, not only on stamped ones, `GetLastStakeModifier` returns the modifier and
time of the nearest ancestor-or-self that generated a modifier, and reaches its genesis error
exactly when no block of the chain did. -/
theorem getLastStakeModifier_eq_find (pindex : CBlockIndex) (pprevs : List CBlockIndex) :
    getLastStakeModifier (pindex :: pprevs) =
      match (pindex :: pprevs).find? (·.generatedStakeModifier) with
      | some g => .ok (g.nStakeModifier, g.getBlockTime)
      | none => .error "GetLastStakeModifier: no generation at genesis block %s %s" := by
  have hwalk := lastModifierBlock_find pindex pprevs
  cases hfind : (pindex :: pprevs).find? (·.generatedStakeModifier) with
  | some g =>
    rw [hfind] at hwalk
    have hg : g.generatedStakeModifier = true := by simpa using List.find?_some hfind
    simp only [getLastStakeModifier, hwalk, hg, if_true]
  | none => rw [hfind] at hwalk; simp only [getLastStakeModifier, hwalk]; rfl

/-- Modelled from the spec: `MODIFIER_INTERVAL_RATIO` of `pos.h`. -/
def modifierIntervalRatio : Nat := 3

/-- `GetStakeModifierSelectionIntervalSection`; its `assert (nSection >= 0 && nSection < 64)`
is the type `Fin 64`. -/
def getStakeModifierSelectionIntervalSection (params : CParams) (nSection : Fin 64) : Nat :=
  params.nModifierInterval * 63 / (63 + (63 - nSection.val) * (modifierIntervalRatio - 1))

/-- `GetStakeModifierSelectionInterval`: the sum of the 64 sections. -/
def getStakeModifierSelectionInterval (params : CParams) : Nat :=
  ((List.finRange 64).map (getStakeModifierSelectionIntervalSection params)).sum

/-- The last section is the whole modifier interval, so the selection interval is positive. -/
theorem getStakeModifierSelectionInterval_pos (params : CParams) :
    0 < getStakeModifierSelectionInterval params :=
  calc 0 < params.nModifierInterval := params.nModifierInterval_pos
    _ = params.nModifierInterval * 63 / 63 := (Nat.mul_div_cancel _ (by decide)).symm
    _ ≤ getStakeModifierSelectionInterval params :=
      List.le_sum_of_mem (List.mem_map_of_mem _ (List.mem_finRange 63))

/-- A later section divides `nModifierInterval * 63` by a smaller number. -/
theorem getStakeModifierSelectionIntervalSection_mono (params : CParams) {r r' : Fin 64}
    (h : r ≤ r') :
    getStakeModifierSelectionIntervalSection params r ≤
      getStakeModifierSelectionIntervalSection params r' :=
  Nat.div_le_div_left (by simp only [modifierIntervalRatio]; omega) (by omega)

/-- The selection interval is cut into 64 sections that grow with the round, up to the whole
modifier interval in the last one, so the interval lies between 64 first sections and 64
modifier intervals. With `nModifierInterval` below `2 ^ 57` no `int64_t` value of the two
functions overflows: neither the product `nModifierInterval * 63` of a section nor the running
sum of the sections after any number of rounds. -/
theorem getStakeModifierSelectionInterval_bounds (params : CParams) :
    (∀ r r' : Fin 64, r ≤ r' → getStakeModifierSelectionIntervalSection params r ≤
        getStakeModifierSelectionIntervalSection params r') ∧
      getStakeModifierSelectionIntervalSection params 63 = params.nModifierInterval ∧
      64 * getStakeModifierSelectionIntervalSection params 0 ≤
        getStakeModifierSelectionInterval params ∧
      getStakeModifierSelectionInterval params ≤ 64 * params.nModifierInterval ∧
      (params.nModifierInterval < 2 ^ 57 → params.nModifierInterval * 63 < 2 ^ 63 ∧
        ∀ r, (((List.finRange 64).take r).map (getStakeModifierSelectionIntervalSection params)).sum <
          2 ^ 63) := by
  have hlast : getStakeModifierSelectionIntervalSection params 63 = params.nModifierInterval :=
    Nat.mul_div_cancel _ (by decide)
  have hlen : ((List.finRange 64).map (getStakeModifierSelectionIntervalSection params)).length =
      64 := by simp
  have hupper : getStakeModifierSelectionInterval params ≤ 64 * params.nModifierInterval := by
    have h63 := List.sum_le_card_nsmul ((List.finRange 64).map
      (getStakeModifierSelectionIntervalSection params)) _ (List.forall_mem_map.2 fun r _ =>
        hlast ▸ getStakeModifierSelectionIntervalSection_mono params (Fin.le_last r))
    rwa [hlen, smul_eq_mul] at h63
  refine ⟨fun _ _ => getStakeModifierSelectionIntervalSection_mono params, hlast, ?_, hupper,
    fun hI => ⟨by omega, fun r => ?_⟩⟩
  · have h0 := List.card_nsmul_le_sum ((List.finRange 64).map
      (getStakeModifierSelectionIntervalSection params)) _ (List.forall_mem_map.2 fun r _ =>
        getStakeModifierSelectionIntervalSection_mono params (Fin.zero_le r))
    rwa [hlen, smul_eq_mul] at h0
  · calc (((List.finRange 64).take r).map (getStakeModifierSelectionIntervalSection params)).sum
        ≤ getStakeModifierSelectionInterval params :=
          ((List.take_sublist r _).map _).sum_le_sum fun _ _ => Nat.zero_le _
      _ < 2 ^ 63 := by omega

/-- The sample modifier interval of ten minutes is far below `2 ^ 57`. -/
theorem getStakeModifierSelectionInterval_bounds_sample :
    sampleParams.nModifierInterval * 63 < 2 ^ 63 ∧ ∀ r,
      (((List.finRange 64).take r).map (getStakeModifierSelectionIntervalSection sampleParams)).sum <
        2 ^ 63 :=
  (getStakeModifierSelectionInterval_bounds sampleParams).2.2.2.2 (by decide)

/-- A candidate of `vSortedByTimestamp`: block time and block hash. -/
abbrev Candidate := Int × BitVec 256

/-- `operator<` of `pair<int64_t, uint256>`, negated and flipped: `a` may stand before `b`
in a list sorted ascending. -/
def candidateLe (a b : Candidate) : Prop := a.1 < b.1 ∨ a.1 = b.1 ∧ a.2 ≤ b.2

instance : DecidableRel candidateLe := fun _ _ => inferInstanceAs (Decidable (_ ∨ _))

theorem candidateLe_iff (a b : Candidate) :
    candidateLe a b ↔ a.1 < b.1 ∨ a.1 = b.1 ∧ a.2.toNat ≤ b.2.toNat := .rfl

instance : IsTotal Candidate candidateLe := ⟨fun a b => by rw [candidateLe_iff, candidateLe_iff]; omega⟩

instance : IsTrans Candidate candidateLe := ⟨fun a b c hab hbc => by
  rw [candidateLe_iff] at hab hbc ⊢; omega⟩

/-- The pair order is total on the whole pair: two pairs each below the other are equal. -/
instance : IsAntisymm Candidate candidateLe := ⟨fun a b hab hba => by
  rw [candidateLe_iff] at hab hba
  exact Prod.ext (by omega) (BitVec.eq_of_toNat_eq (by omega))⟩

/-- The candidate walk of `ComputeNextStakeModifier`: `(time, hash)` of each block from
`pindexPrev` back along `pprev` while its time is at least the selection start. -/
def collectCandidates (nSelectionIntervalStart : Int) (chain : List CBlockIndex) :
    List Candidate :=
  (chain.takeWhile fun b => decide (nSelectionIntervalStart ≤ b.getBlockTime)).map
    fun b => (b.getBlockTime, b.hashBlock)

/-- The selection hash of a candidate, `Hash(hashProof, nStakeModifierPrev)`, divided by
`2 ^ 32` for a proof-of-stake block. -/
def selectionHash (pindex : CBlockIndex) (nStakeModifierPrev : UInt64) : BitVec 256 :=
  if pindex.proofOfStake then
    sha256d (serUInt256 pindex.hashProof ++ serUInt64 nStakeModifierPrev) >>> 32
  else sha256d (serUInt256 pindex.hashProof ++ serUInt64 nStakeModifierPrev)

/-- The return of `SelectBlockFromCandidates`: `fSelected` and `*pindexSelected`. -/
def selectionResult : Option (CBlockIndex × BitVec 256) → Outcome CBlockIndex
  | some (pindex, _) => .ok pindex
  | none => .fail

section Select

variable (mapBlockIndex : BitVec 256 → Option CBlockIndex) (mapSelectedBlocks : List (BitVec 256))
  (nSelectionIntervalStop : Int) (nStakeModifierPrev : UInt64)

/-- The loop of `SelectBlockFromCandidates` over the candidates left, with the block chosen so
far and its hash (`fSelected`, `*pindexSelected`, `hashBest`). -/
def selectLoop : List Candidate → Option (CBlockIndex × BitVec 256) → Outcome CBlockIndex
  | [], best => selectionResult best
  | item :: rest, best =>
    match mapBlockIndex item.2 with
    | none => .error "SelectBlockFromCandidates: failed to find block index for candidate block %s"
    | some pindex =>
      if best.isSome ∧ nSelectionIntervalStop < pindex.getBlockTime then selectionResult best
      else if pindex.hashBlock ∈ mapSelectedBlocks then selectLoop rest best
      else
        match best with
        | some (_, hashBest) =>
          if selectionHash pindex nStakeModifierPrev < hashBest then
            selectLoop rest (some (pindex, selectionHash pindex nStakeModifierPrev))
          else selectLoop rest best
        | none => selectLoop rest (some (pindex, selectionHash pindex nStakeModifierPrev))

/-- `SelectBlockFromCandidates`: the candidate with the least selection hash among those
not yet selected, up to the first one past the stop time after a first pick. -/
def selectBlockFromCandidates (vSortedByTimestamp : List Candidate) : Outcome CBlockIndex :=
  selectLoop mapBlockIndex mapSelectedBlocks nSelectionIntervalStop nStakeModifierPrev
    vSortedByTimestamp none

end Select

/-- The selection rounds of `ComputeNextStakeModifier`, from the stop time, the selected
hashes and the modifier bits of the rounds before. -/
def selectionRounds (params : CParams) (mapBlockIndex : BitVec 256 → Option CBlockIndex)
    (vSortedByTimestamp : List Candidate) (nStakeModifierPrev : UInt64) :
    List (Fin 64) → Int → List (BitVec 256) → UInt64 → Outcome UInt64
  | [], _, _, nStakeModifierNew => .ok nStakeModifierNew
  | nRound :: rounds, nSelectionIntervalStop, mapSelectedBlocks, nStakeModifierNew =>
    let stop := nSelectionIntervalStop + getStakeModifierSelectionIntervalSection params nRound
    match selectBlockFromCandidates mapBlockIndex mapSelectedBlocks stop nStakeModifierPrev
        vSortedByTimestamp with
    | .ok pindex =>
      selectionRounds params mapBlockIndex vSortedByTimestamp nStakeModifierPrev rounds stop
        (pindex.hashBlock :: mapSelectedBlocks)
        (nStakeModifierNew ||| pindex.stakeEntropyBit.toUInt64 <<< nRound.val.toUInt64)
    | _ => .error "ComputeNextStakeModifier: unable to select block at round %d"

/-- The rounds `ComputeNextStakeModifier` runs over `n` candidates: `0, ..., min 64 n - 1`. -/
def modifierRounds (n : Nat) : List (Fin 64) := (List.finRange 64).take (min 64 n)

/-- The first time of the selection interval before `pindexPrev`'s modifier epoch. -/
def selectionIntervalStart (params : CParams) (pindexPrev : CBlockIndex) : Int :=
  pindexPrev.getBlockTime / params.nModifierInterval * params.nModifierInterval -
    getStakeModifierSelectionInterval params

/-- Generation of a new modifier from the arranged candidates. -/
def generateStakeModifier (params : CParams) (mapBlockIndex : BitVec 256 → Option CBlockIndex)
    (vSortedByTimestamp : List Candidate) (nStakeModifier : UInt64) (start : Int) :
    Outcome (UInt64 × Bool) :=
  match selectionRounds params mapBlockIndex vSortedByTimestamp nStakeModifier
      (modifierRounds vSortedByTimestamp.length) start [] 0 with
  | .ok nStakeModifierNew => .ok (nStakeModifierNew, true)
  | .fail => .fail
  | .error msg => .error msg

/-- `ComputeNextStakeModifier` for the child of `pindexPrev`, with `arrange` standing for the
`reverse` + `sort` of the collected candidates. -/
def computeNextStakeModifierBy (arrange : List Candidate → List Candidate) (params : CParams)
    (mapBlockIndex : BitVec 256 → Option CBlockIndex) : List CBlockIndex → Outcome (UInt64 × Bool)
  | [] => .ok (0, true)
  | pindexPrev :: pprevs =>
    match getLastStakeModifier (pindexPrev :: pprevs) with
    | .ok (nStakeModifier, nModifierTime) =>
      if pindexPrev.getBlockTime / params.nModifierInterval ≤
          nModifierTime / params.nModifierInterval then .ok (nStakeModifier, false)
      else
        generateStakeModifier params mapBlockIndex
          (arrange (collectCandidates (selectionIntervalStart params pindexPrev)
            (pindexPrev :: pprevs)))
          nStakeModifier (selectionIntervalStart params pindexPrev)
    | _ => .error "ComputeNextStakeModifier: unable to get last modifier"

/-- The `reverse` then `std::sort` of `ComputeNextStakeModifier`, by insertion. -/
def sortCandidates (v : List Candidate) : List Candidate := v.reverse.insertionSort candidateLe

/-- `ComputeNextStakeModifier`. -/
def computeNextStakeModifier (params : CParams)
    (mapBlockIndex : BitVec 256 → Option CBlockIndex) : List CBlockIndex → Outcome (UInt64 × Bool) :=
  computeNextStakeModifierBy sortCandidates params mapBlockIndex

end ClamsPos
