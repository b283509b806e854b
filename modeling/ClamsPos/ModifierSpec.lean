import ClamsPos.ModifierGeneration
import ClamsPos.ModifierSelect

/-!
# Generation as a sequence of least-hash picks

The declarative reading of `ComputeNextStakeModifier` in a new epoch: sort the blocks of the
selection window by time and hash; for `min 64 n` rounds, round `r` picks the first block of
least selection hash among the blocks eligible at its stop time, the picks of the rounds before
it counting as selected; the new modifier has the entropy bit of pick `r` at bit `r`. The picks
are determined by the window, so the reading fixes one modifier, and the code computes it.

On a chain built from genesis by the engine, with a block map holding every block under its own
distinct hash, the next call never fails: the engine can always stamp one more block.

## Main definitions

* `IsModifierSelection` — the declarative sequence of picks.

## Main results

* `IsModifierSelection.unique` — the declarative reading allows one sequence of picks.
* `computeNextStakeModifier_eq_modifierSelection` — the code's modifier is the one of the
  declarative picks.
* `computeNextStakeModifier_ok_of_stamped` — on a stamped chain the engine succeeds, and
  generates exactly when the tip has left the epoch of the last generation.
-/

namespace ClamsPos

/-- The declarative generation over the candidate blocks `bs`, sorted by time and hash: one pick
per round for `min 64 n` rounds, round `r` picking the first block of least selection hash under
the previous modifier `M` among those eligible up to its stop time, with the picks of the rounds
before it selected. -/
def IsModifierSelection (params : CParams) (M : UInt64) (start : Int) (bs s : List CBlockIndex) :
    Prop :=
  s.length = min 64 bs.length ∧ ∀ r (hr : r < s.length),
    IsFirstLeastHash M (eligibleCandidates ((s.take r).map (·.hashBlock))
      (selectionStop params start (r + 1)) bs) s[r]

/-- Each pick is determined by the picks before it, so the declarative reading allows one
sequence of picks. -/
theorem IsModifierSelection.unique {params : CParams} {M : UInt64} {start : Int}
    {bs s s' : List CBlockIndex} (h : IsModifierSelection params M start bs s)
    (h' : IsModifierSelection params M start bs s') : s = s' := by
  have hlen : s.length = s'.length := h.1.trans h'.1.symm
  have htake : ∀ r ≤ s.length, s.take r = s'.take r := by
    intro r
    induction r with
    | zero => simp
    | succ r ih =>
      intro hr
      have hr' : r < s'.length := hlen ▸ hr
      have hpick : s[r] = s'[r] := by
        have hs := h.2 r hr
        rw [ih (by omega)] at hs
        exact hs.unique (h'.2 r hr')
      rw [← List.take_concat_get s r hr, ← List.take_concat_get s' r hr', ih (by omega), hpick]
  calc s = s.take s.length := s.take_length.symm
    _ = s'.take s'.length := by rw [htake _ le_rfl, hlen]
    _ = s' := s'.take_length

section NewEpoch

variable {params : CParams} {mapBlockIndex : BitVec 256 → Option CBlockIndex}
  {pindexPrev : CBlockIndex} {pprevs : List CBlockIndex} {nStakeModifier : UInt64}
  {nModifierTime : Int}

/-- In a new epoch, on a chain whose block map holds every block under its own distinct hash,
`ComputeNextStakeModifier` runs all its rounds and returns the generated flag with the modifier of
its picks. -/
theorem computeNextStakeModifier_run
    (hmap : ∀ b ∈ pindexPrev :: pprevs, mapBlockIndex b.hashBlock = some b)
    (hnodup : ((pindexPrev :: pprevs).map (·.hashBlock)).Nodup)
    (hbits : ∀ b ∈ pindexPrev :: pprevs, b.stakeEntropyBit.toNat ≤ 1)
    (hlast : getLastStakeModifier (pindexPrev :: pprevs) = .ok (nStakeModifier, nModifierTime))
    (hepoch : nModifierTime / params.nModifierInterval <
      pindexPrev.getBlockTime / params.nModifierInterval) :
    ∃ s m, SelectedPrefix params mapBlockIndex (pindexPrev :: pprevs)
        (sortCandidates (collectCandidates (selectionIntervalStart params pindexPrev)
          (pindexPrev :: pprevs))) nStakeModifier (selectionIntervalStart params pindexPrev) s ∧
      s.length = min 64 (collectCandidates (selectionIntervalStart params pindexPrev)
        (pindexPrev :: pprevs)).length ∧
      computeNextStakeModifier params mapBlockIndex (pindexPrev :: pprevs) = .ok (m, true) ∧
      m.toNat = entropyModifier s := by
  have hperm := sortCandidates_perm
    (collectCandidates (selectionIntervalStart params pindexPrev) (pindexPrev :: pprevs))
  have hv : ∀ item ∈ sortCandidates (collectCandidates (selectionIntervalStart params pindexPrev)
      (pindexPrev :: pprevs)), ∃ b ∈ pindexPrev :: pprevs, item.2 = b.hashBlock :=
    fun item hi => by
      obtain ⟨b, hb, rfl⟩ := mem_collectCandidates (hperm.subset hi)
      exact ⟨b, hb, rfl⟩
  have hvnodup := (hperm.map Prod.snd).nodup_iff.mpr (collectCandidates_hashes_nodup hnodup)
  obtain ⟨s, m, hs, hslen, -, hrun, hm⟩ := @selectionRounds_run _ _ _ _ nStakeModifier
    (selectionIntervalStart params pindexPrev) hmap hv hvnodup hbits _ [] 0 SelectedPrefix.nil
    rfl (by simp [entropyModifier]) (Nat.zero_add _)
  refine ⟨s, m, hs, by rw [hslen, hperm.length_eq], ?_, hm⟩
  have hstart : selectionStop params (selectionIntervalStart params pindexPrev) 0 =
      selectionIntervalStart params pindexPrev := by simp [selectionStop]
  rw [List.length_nil, List.drop_zero, hstart, List.map_nil, List.reverse_nil] at hrun
  simp only [computeNextStakeModifier, computeNextStakeModifierBy, hlast]
  rw [if_neg (by omega), generateStakeModifier, hrun]

/-- In a new epoch, on a chain whose block map holds every block under its own distinct hash and
whose entropy bits are 0 or 1, `ComputeNextStakeModifier` carries out the declarative generation
over the blocks of the selection window sorted by time and hash: exactly one sequence of picks
`s` exists, and the call returns the generated flag and its modifier `Σ r, bit(s[r]) * 2 ^ r`. -/
theorem computeNextStakeModifier_eq_modifierSelection
    (hmap : ∀ b ∈ pindexPrev :: pprevs, mapBlockIndex b.hashBlock = some b)
    (hnodup : ((pindexPrev :: pprevs).map (·.hashBlock)).Nodup)
    (hbits : ∀ b ∈ pindexPrev :: pprevs, b.stakeEntropyBit.toNat ≤ 1)
    (hlast : getLastStakeModifier (pindexPrev :: pprevs) = .ok (nStakeModifier, nModifierTime))
    (hepoch : nModifierTime / params.nModifierInterval <
      pindexPrev.getBlockTime / params.nModifierInterval)
    {bs : List CBlockIndex} (hperm : bs.Perm ((pindexPrev :: pprevs).takeWhile fun b =>
      selectionIntervalStart params pindexPrev ≤ b.getBlockTime))
    (hsorted : (bs.map fun b => (b.getBlockTime, b.hashBlock)).Sorted candidateLe) :
    (∃! s, IsModifierSelection params nStakeModifier (selectionIntervalStart params pindexPrev)
        bs s) ∧
      ∀ s, IsModifierSelection params nStakeModifier (selectionIntervalStart params pindexPrev)
          bs s →
        ∃ m, computeNextStakeModifier params mapBlockIndex (pindexPrev :: pprevs) = .ok (m, true) ∧
          m.toNat = entropyModifier s := by
  obtain ⟨s, m, hs, hslen, hok, hm⟩ := computeNextStakeModifier_run hmap hnodup hbits hlast hepoch
  have hv : sortCandidates (collectCandidates (selectionIntervalStart params pindexPrev)
      (pindexPrev :: pprevs)) = bs.map fun b => (b.getBlockTime, b.hashBlock) :=
    List.eq_of_perm_of_sorted ((sortCandidates_perm _).trans (hperm.map _).symm)
      (sortCandidates_sorted _) hsorted
  have hbs : ∀ b ∈ bs, mapBlockIndex b.hashBlock = some b := fun b hb =>
    hmap b ((List.takeWhile_sublist _).subset (hperm.subset hb))
  have hsel : IsModifierSelection params nStakeModifier (selectionIntervalStart params pindexPrev)
      bs s := by
    refine ⟨by rw [hslen, collectCandidates, List.length_map, hperm.length_eq], fun r hr => ?_⟩
    have hround := hs.2.2 r hr
    rw [hv] at hround
    exact isFirstLeastHash_of_selectBlockFromCandidates hbs hsorted hround
  exact ⟨⟨s, hsel, fun s' hs' => (hsel.unique hs').symm⟩,
    fun s' hs' => ⟨m, hok, by rw [hm, hsel.unique hs']⟩⟩

end NewEpoch

/-- The child of `firstBlock` over `[firstBlock, genesisBlock]`: its window, in time order
genesis then `firstBlock`, has exactly one declarative sequence of picks. -/
theorem computeNextStakeModifier_eq_modifierSelection_first :
    ∃! s, IsModifierSelection sampleParams 0 (selectionIntervalStart sampleParams firstBlock)
      [genesisBlock, firstBlock] s := by
  set_option maxRecDepth 100000 in
  exact (@computeNextStakeModifier_eq_modifierSelection sampleParams backdatedMap firstBlock
    [genesisBlock] 0 0 (by decide) (by decide) (by decide) (by decide) (by decide)
    [genesisBlock, firstBlock] (by decide) (by decide)).1

/-! ## Runs of stamped chains -/

/-- On a chain built from genesis by `ComputeNextStakeModifier`, with a block map holding every
block under its own distinct hash and entropy bits 0 or 1, the engine stamps one more block: the
call on the tip succeeds, generates exactly when the tip's time lies in a later modifier epoch
than the last generation's, and otherwise hands on the tip's own modifier. -/
theorem computeNextStakeModifier_ok_of_stamped {params : CParams}
    {mapBlockIndex : BitVec 256 → Option CBlockIndex} {chain : List CBlockIndex}
    (hc : Stamped params chain) (hmap : ∀ b ∈ chain, mapBlockIndex b.hashBlock = some b)
    (hnodup : (chain.map (·.hashBlock)).Nodup)
    (hbits : ∀ b ∈ chain, b.stakeEntropyBit.toNat ≤ 1) :
    ∃ m f, computeNextStakeModifier params mapBlockIndex chain = .ok (m, f) ∧
      ∀ b pprevs, chain = b :: pprevs →
        (f = true ↔ (lastModifierBlock b pprevs).getBlockTime / params.nModifierInterval <
          b.getBlockTime / params.nModifierInterval) ∧ (f = false → m = b.nStakeModifier) := by
  cases chain with
  | nil => exact ⟨0, true, rfl, fun _ _ h => nomatch h⟩
  | cons b pprevs =>
    obtain ⟨hfind, hmod⟩ := hc.find_generated
    have hlast : getLastStakeModifier (b :: pprevs) =
        .ok (b.nStakeModifier, (lastModifierBlock b pprevs).getBlockTime) :=
      getLastStakeModifier_eq_ok.mpr ⟨by simpa using List.find?_some hfind, hmod, rfl⟩
    by_cases hepoch : (lastModifierBlock b pprevs).getBlockTime / params.nModifierInterval <
        b.getBlockTime / params.nModifierInterval
    · obtain ⟨s, m, -, -, hok, -⟩ := computeNextStakeModifier_run hmap hnodup hbits hlast hepoch
      exact ⟨m, true, hok, fun _ _ h => by cases h; simpa using hepoch⟩
    · refine ⟨b.nStakeModifier, false, ?_, fun _ _ h => by cases h; simpa using hepoch⟩
      simp only [computeNextStakeModifier, computeNextStakeModifierBy, hlast]
      rw [if_pos (by omega)]

/-- The engine stamps a child of `[firstBlock, genesisBlock]`, itself stamped from genesis. -/
theorem computeNextStakeModifier_ok_of_stamped_first :
    ∃ m f, computeNextStakeModifier sampleParams backdatedMap [firstBlock, genesisBlock] =
      .ok (m, f) :=
  let ⟨m, f, hok, _⟩ := computeNextStakeModifier_ok_of_stamped
    (.cons (fun _ => none) (.cons (fun _ => none) .nil (by decide)) (by decide))
    (by decide) (by decide) (by decide)
  ⟨m, f, hok⟩

end ClamsPos
