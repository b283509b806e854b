import ClamsPos.Validator

/-!
# Verdicts as the active chain grows

The node connects blocks at the tip of the active chain and adds them to the block map; the
blocks already there keep their place and their entries. Version 1 finds a stake's modifier by
walking forward along `pnext` from the staked output's block, so what it reads grows with the
chain, and a stake it rejects because the walk reached the tip may pass later. A modifier it has
found stays the one it finds: more blocks after the first generation past the selection interval
are never read. So a coinstake `CheckProofOfStake` accepts, and a stake `CheckKernel` accepts,
get the same verdict, proof hash and target on every later chain. Version 2 reads no index.

## Main definitions

* `BlockIndexView.Extends` — the index after the node connected more blocks.

## Main results

* `getKernelStakeModifier_of_extends` — a found modifier is found again after growth.
* `accepted_of_extends` — accepted stakes keep their verdict and outputs after growth.
-/

namespace ClamsPos

/-- `index'` is `index` after the node connected more blocks: every entry of the block map is
kept, and the active chain grew at its tip. -/
structure BlockIndexView.Extends (index index' : BlockIndexView) : Prop where
  map_le : ∀ h b, index.mapBlockIndex h = some b → index'.mapBlockIndex h = some b
  append : ∃ ext, index'.chainActive = index.chainActive ++ ext

theorem mem_of_successors_ne_nil {pindex : CBlockIndex} {l : List CBlockIndex}
    (h : successors pindex l ≠ []) : pindex ∈ l := by
  induction l with
  | nil => exact absurd rfl h
  | cons b rest ih =>
    rw [successors] at h
    split_ifs at h with hb
    · exact hb ▸ List.mem_cons_self _ _
    · exact List.mem_cons_of_mem _ (ih h)

/-- Blocks appended to the active chain come after every block already on it. -/
theorem successors_append {pindex : CBlockIndex} {l : List CBlockIndex} (ext : List CBlockIndex)
    (h : pindex ∈ l) : successors pindex (l ++ ext) = successors pindex l ++ ext := by
  induction l with
  | nil => cases h
  | cons b rest ih =>
    rw [List.cons_append, successors, successors]
    split_ifs with hb
    · rfl
    · exact ih ((List.mem_cons.1 h).resolve_left fun e => hb e.symm)

section Growth

variable {params : CParams} {index index' : BlockIndexView}

/-- The walk of `GetKernelStakeModifier` stops at the first generation past the selection
interval, so a modifier it found is found again on a grown chain. -/
theorem getKernelStakeModifier_of_extends (hext : index.Extends index')
    {hashBlockFrom : BitVec 256} {p : Bool} {a : Int} {r : UInt64 × Nat × Int}
    (h : getKernelStakeModifier params index hashBlockFrom p a = .ok r) :
    getKernelStakeModifier params index' hashBlockFrom p a = .ok r := by
  unfold getKernelStakeModifier at h ⊢
  cases hm : index.mapBlockIndex hashBlockFrom with
  | none => rw [hm] at h; cases h
  | some pindexFrom =>
    rw [hm] at h
    rw [hext.map_le _ _ hm]
    dsimp only at h ⊢
    have hlt : pindexFrom.getBlockTime <
        pindexFrom.getBlockTime + getStakeModifierSelectionInterval params := by
      have := getStakeModifierSelectionInterval_pos params
      omega
    have hfind := kernelModifierWalk_toOption_eq_find params _ p a pindexFrom pindexFrom.nHeight _
      (successors pindexFrom index.chainActive) hlt
    rw [h, Outcome.toOption_ok] at hfind
    obtain ⟨b, hb, rfl⟩ := Option.map_eq_some'.1 hfind.symm
    have hne : successors pindexFrom index.chainActive ≠ [] := fun h0 => by
      rw [h0] at hb; cases hb
    obtain ⟨ext, hchain⟩ := hext.append
    rw [← Outcome.toOption_eq_some, kernelModifierWalk_toOption_eq_find params _ p a pindexFrom _ _ _
      hlt, hchain, successors_append ext (mem_of_successors_ne_nil hne), List.find?_append, hb]
    rfl

/-- An accepted kernel check reads the same on a grown chain. -/
theorem checkStakeKernelHash_of_extends (hext : index.Extends index') {pindexPrev : CBlockIndex}
    {nBits : UInt32} {blockFrom : CBlock} {nTxPrevOffset : UInt32} {txPrev : CTransaction}
    {prevout : COutPoint} {nTimeTx : UInt32} {h t : BitVec 256} {p : Bool} {a : Int}
    (hok : (checkStakeKernelHash params index pindexPrev nBits blockFrom nTxPrevOffset txPrev
      prevout nTimeTx h t p a).outcome = .ok ()) :
    checkStakeKernelHash params index' pindexPrev nBits blockFrom nTxPrevOffset txPrev prevout
        nTimeTx h t p a =
      checkStakeKernelHash params index pindexPrev nBits blockFrom nTxPrevOffset txPrev prevout
        nTimeTx h t p a := by
  unfold checkStakeKernelHash at hok ⊢
  split_ifs at hok ⊢
  · rfl
  · obtain ⟨hprev, hage, r, hmod, -⟩ := checkStakeKernelHashV1_eq_ok.mp hok
    rw [checkStakeKernelHashV1_of_modifier hprev hage hmod,
      checkStakeKernelHashV1_of_modifier hprev hage (getKernelStakeModifier_of_extends hext hmod)]

end Growth

/-- On a chain grown from the one a coinstake was validated on, with the node's other lookups
unchanged, a coinstake `CheckProofOfStake` accepted is accepted again with the same validation
state, proof hash and target, and a stake `CheckKernel` accepted is accepted again with the same
proof hash and target. -/
theorem accepted_of_extends {params : CParams} {chain : ChainState} {index' : BlockIndexView}
    (hext : chain.index.Extends index') (pindexPrev : CBlockIndex) (pprevs : List CBlockIndex)
    (nBits : UInt32) (state : CValidationState) (tx : CTransaction) (h t : BitVec 256)
    (fDebug : Bool) (prevout : COutPoint) (txTime : UInt32) (a : Int) :
    ((checkProofOfStake params chain pindexPrev pprevs state tx nBits h t fDebug a).outcome =
        .ok () →
      checkProofOfStake params { chain with index := index' } pindexPrev pprevs state tx nBits h
          t fDebug a =
        checkProofOfStake params chain pindexPrev pprevs state tx nBits h t fDebug a) ∧
    ((checkKernel params chain pindexPrev pprevs nBits prevout txTime a).outcome = .ok () →
      checkKernel params { chain with index := index' } pindexPrev pprevs nBits prevout txTime a =
        checkKernel params chain pindexPrev pprevs nBits prevout txTime a) := by
  refine ⟨fun hok => ?_, fun hok => ?_⟩
  · obtain ⟨txin, rest, coinPrev, blockFrom, block, txPrev, hvin, hstake, hc, hanc, hblock, htx,
      hsig⟩ := checkProofOfStake_of_ok hok
    rw [checkProofOfStake_of_lookups hvin hstake hc hanc hblock htx hsig] at hok ⊢
    rw [@checkProofOfStake_of_lookups params { chain with index := index' } _ _ _ _ _ _ _ _ _ _
      _ _ _ _ _ hvin hstake hc hanc hblock htx hsig]
    split_ifs at hok with hkernel
    rw [checkStakeKernelHash_of_extends hext (Outcome.toBool_eq_true_unit.1 hkernel)]
  · obtain ⟨coinPrev, blockFrom, block, txPrev, hc, hanc, hblock, htx, heq⟩ := checkKernel_of_ok hok
    rw [heq, ← checkStakeKernelHash_of_extends hext (heq ▸ hok)]
    simp only [checkKernel, hc, hanc, hblock, htx] at hok ⊢
    split_ifs at hok ⊢
    rfl

/-- A block connected on top of `stakeParentNext`. -/
def stakeTip : CBlockIndex := ⟨32, 40032, 302, 0, 0x1234, false, 0, true⟩

/-- The sample node with 1048577 coins in the staked output, enough to win at version 1. -/
def largeStakeChain : ChainState :=
  { stakeChain with
    getTransaction := fun h => if h = 0xabc then some (stakedTx 1000 (1048577 * coin)) else none }

/-- The sample node's index after `stakeTip` is connected to its active chain. -/
def grownStakeIndex : BlockIndexView :=
  ⟨stakeIndex.mapBlockIndex, stakeIndex.chainActive ++ [stakeTip]⟩

set_option maxRecDepth 100000 in
/-- The large sample stake, accepted on `stakeParent` at version 1, is accepted with the same
outputs once `stakeTip` is connected. -/
theorem accepted_of_extends_stakeTip :
    checkProofOfStake sampleParams { largeStakeChain with index := grownStakeIndex } stakeParent
        [stakeModifierBlock, stakeFromBlock] freshState stakeCoinstake 0x1e0fffff 0 0 false 0 =
      checkProofOfStake sampleParams largeStakeChain stakeParent
        [stakeModifierBlock, stakeFromBlock] freshState stakeCoinstake 0x1e0fffff 0 0 false 0 :=
  (@accepted_of_extends sampleParams largeStakeChain grownStakeIndex
    ⟨fun _ _ h => h, [stakeTip], rfl⟩ stakeParent [stakeModifierBlock, stakeFromBlock] 0x1e0fffff
    freshState stakeCoinstake 0 0 false stakePrevout 101800 0).1 (by decide)

end ClamsPos
