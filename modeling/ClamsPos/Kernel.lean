import ClamsPos.Modifier

/-!
# The kernel hash check

`GetWeight`, `GetKernelStakeModifier`, the two protocol versions of the kernel check and
their dispatch `CheckStakeKernelHash`, and `CheckCoinStakeTimestamp`.

Version 1 hashes the modifier found one selection interval after the staked output's block,
walking forward along `pnext`, and weighs the target by coin age in 256-bit arithmetic that
wraps. Version 2 hashes `pindexPrev`'s own modifier and weighs the target by the value alone,
in `CBigNum` arithmetic that does not wrap.

The functions take `GetAdjustedTime()` as an argument. The print flag and `fDebug` choose only
log lines, which are not modelled, except where the print flag picks `error(...)` over a
plain `false` in `GetKernelStakeModifier`.

## Main definitions

* `getKernelStakeModifier` — the forward modifier walk of version 1.
* `checkStakeKernelHashV1`, `checkStakeKernelHashV2`, `checkStakeKernelHash`.

## Main results

* `getKernelStakeModifier_first_generated` — the walk returns the first later block that
  generated a modifier a selection interval after the staked output's block, if there is one.
* `checkStakeKernelHash_print_indep` — the print flag and the clock do not change the result.
* `checkStakeKernelHashV2_mono_value`, `checkStakeKernelHashV1_mono_value` — a larger stake
  keeps a win, for version 1 as long as the larger target does not wrap.
* `checkStakeKernelHashV1_iff_exact` — where nothing wraps, version 1 accepts exactly the
  stakes of the exact kernel formula.
* `targetV1_coin_age` — the version 1 target grows with the coin's age until the maximum age.
-/

namespace ClamsPos

/-- Modelled from the spec: `COIN` of `amount.h`, satoshis per coin. -/
def coin : Int := 100000000

/-- `GetWeight`: seconds of coin age past the minimum age, capped at the maximum age. -/
def getWeight (params : CParams) (nIntervalBeginning nIntervalEnd : Int) : Int :=
  min (nIntervalEnd - nIntervalBeginning - params.nStakeMinAge.toNat) params.nStakeMaxAge.toNat

/-- A `COutPoint`: transaction hash and output number. -/
structure COutPoint where
  hash : BitVec 256
  n : UInt32
  deriving DecidableEq, Repr

/-- A `CTxOut`: value and locking script. -/
structure CTxOut where
  nValue : Int
  scriptPubKey : List UInt8
  deriving DecidableEq, Repr

/-- A `CTransaction`, with the outpoint each input spends. -/
structure CTransaction where
  nTime : UInt32
  vin : List COutPoint
  vout : List CTxOut
  deriving DecidableEq, Repr

/-- `txPrev.vout[n].nValue`. Past the last output the C++ read is undefined; the model
reads 0. -/
def CTransaction.valueOut (tx : CTransaction) (n : UInt32) : Int :=
  ((tx.vout[n.toNat]?).map CTxOut.nValue).getD 0

/-- A block read from disk, as far as the kernel reads it: header time and hash. -/
structure CBlock where
  nTime : UInt32
  hash : BitVec 256
  deriving DecidableEq, Repr

/-- What the kernel reads of the block index besides its arguments: `mapBlockIndex`, and the
active chain, genesis first, whose order gives the `pnext` links. -/
structure BlockIndexView where
  mapBlockIndex : BitVec 256 → Option CBlockIndex
  chainActive : List CBlockIndex

/-- The blocks after `pindex` along `pnext`: its successors on the active chain, none when it
is not on it. -/
def successors (pindex : CBlockIndex) : List CBlockIndex → List CBlockIndex
  | [] => []
  | b :: rest => if b = pindex then rest else successors pindex rest

/-- The loop of `GetKernelStakeModifier` at `pindex`, with the height and time of the last
generated modifier seen, over the blocks after `pindex`. -/
def kernelModifierWalk (params : CParams) (limit : Int) (fPrintProofOfStake : Bool)
    (adjustedTime : Int) :
    CBlockIndex → Nat → Int → List CBlockIndex → Outcome (UInt64 × Nat × Int)
  | pindex, nStakeModifierHeight, nStakeModifierTime, [] =>
    if nStakeModifierTime < limit then
      if fPrintProofOfStake ∨ adjustedTime < pindex.getBlockTime + params.nStakeMinAge.toNat -
          getStakeModifierSelectionInterval params then
        .error "GetKernelStakeModifier() : reached best block %s at height %d from block %s"
      else .fail
    else .ok (pindex.nStakeModifier, nStakeModifierHeight, nStakeModifierTime)
  | pindex, nStakeModifierHeight, nStakeModifierTime, pnext :: rest =>
    if nStakeModifierTime < limit then
      if pnext.generatedStakeModifier then
        kernelModifierWalk params limit fPrintProofOfStake adjustedTime pnext pnext.nHeight
          pnext.getBlockTime rest
      else
        kernelModifierWalk params limit fPrintProofOfStake adjustedTime pnext
          nStakeModifierHeight nStakeModifierTime rest
    else .ok (pindex.nStakeModifier, nStakeModifierHeight, nStakeModifierTime)

/-- `GetKernelStakeModifier`: the modifier, height and time of the first modifier generated a
selection interval after the block `hashBlockFrom`. -/
def getKernelStakeModifier (params : CParams) (index : BlockIndexView) (hashBlockFrom : BitVec 256)
    (fPrintProofOfStake : Bool) (adjustedTime : Int) : Outcome (UInt64 × Nat × Int) :=
  match index.mapBlockIndex hashBlockFrom with
  | none => .error "GetKernelStakeModifier() : block not indexed"
  | some pindexFrom =>
    kernelModifierWalk params (pindexFrom.getBlockTime + getStakeModifierSelectionInterval params)
      fPrintProofOfStake adjustedTime pindexFrom pindexFrom.nHeight pindexFrom.getBlockTime
      (successors pindexFrom index.chainActive)

/-- What `CheckStakeKernelHash` hands back: how it returned, and its two output parameters. -/
structure KernelCheck where
  outcome : Outcome Unit
  hashProofOfStake : BitVec 256
  targetProofOfStake : BitVec 256
  deriving DecidableEq, Repr

/-- `bnCoinDayWeight = arith_uint256(nValueIn) * GetWeight(...) / COIN / (24 * 60 * 60)`. The
product with the `int64_t` weight resolves to `base_uint::operator*(uint32_t)`, so the weight
enters modulo `2 ^ 32`; the value enters as the `uint64_t` of `arith_uint256(uint64_t)`. -/
def coinDayWeight (params : CParams) (nValueIn : Int) (nTimeTxPrev nTimeTx : UInt32) :
    BitVec 256 :=
  BitVec.ofNat 256 (nValueIn % 2 ^ 64).toNat *
      BitVec.ofNat 256 (getWeight params nTimeTxPrev.toNat nTimeTx.toNat % 2 ^ 32).toNat /
    BitVec.ofNat 256 coin.toNat / BitVec.ofNat 256 (24 * 60 * 60)

/-- `bnCoinDayWeight * bnTargetPerCoinDay`, the version 1 target, in 256-bit arithmetic. -/
def targetV1 (params : CParams) (nBits : UInt32) (txPrev : CTransaction) (prevout : COutPoint)
    (nTimeTx : UInt32) : BitVec 256 :=
  coinDayWeight params (txPrev.valueOut prevout.n) txPrev.nTime nTimeTx * arithSetCompact nBits

/-- The version 1 proof hash: modifier, block time, offset, tx time, output, coinstake time. -/
def kernelHashV1 (nStakeModifier : UInt64) (blockFrom : CBlock) (nTxPrevOffset : UInt32)
    (txPrev : CTransaction) (prevout : COutPoint) (nTimeTx : UInt32) : BitVec 256 :=
  sha256d (serUInt64 nStakeModifier ++ serUInt32 blockFrom.nTime ++ serUInt32 nTxPrevOffset ++
    serUInt32 txPrev.nTime ++ serUInt32 prevout.n ++ serUInt32 nTimeTx)

/-- `CheckStakeKernelHashV1`: the ppcoin kernel. The target is written to `targetProofOfStake`
before the modifier lookup, the proof hash after it and before the comparison. -/
def checkStakeKernelHashV1 (params : CParams) (index : BlockIndexView) (nBits : UInt32)
    (blockFrom : CBlock) (nTxPrevOffset : UInt32) (txPrev : CTransaction) (prevout : COutPoint)
    (nTimeTx : UInt32) (hashProofOfStake targetProofOfStake : BitVec 256)
    (fPrintProofOfStake : Bool) (adjustedTime : Int) : KernelCheck :=
  if nTimeTx < txPrev.nTime then
    ⟨.error "CheckStakeKernelHash() : nTime violation", hashProofOfStake, targetProofOfStake⟩
  else if nTimeTx < blockFrom.nTime + params.nStakeMinAge then
    ⟨.error "CheckStakeKernelHashV1() : min age violation", hashProofOfStake, targetProofOfStake⟩
  else
    match getKernelStakeModifier params index blockFrom.hash fPrintProofOfStake adjustedTime with
    | .ok (nStakeModifier, _, _) =>
      ⟨if targetV1 params nBits txPrev prevout nTimeTx <
          kernelHashV1 nStakeModifier blockFrom nTxPrevOffset txPrev prevout nTimeTx then .fail
        else .ok (),
        kernelHashV1 nStakeModifier blockFrom nTxPrevOffset txPrev prevout nTimeTx,
        targetV1 params nBits txPrev prevout nTimeTx⟩
    | _ => ⟨.fail, hashProofOfStake, targetV1 params nBits txPrev prevout nTimeTx⟩

/-- The version 2 proof hash: modifier, block time, tx time, tx hash, output, coinstake time. -/
def kernelHashV2 (nStakeModifier : UInt64) (nTimeBlockFrom : UInt32) (txPrev : CTransaction)
    (prevout : COutPoint) (nTimeTx : UInt32) : BitVec 256 :=
  sha256d (serUInt64 nStakeModifier ++ serUInt32 nTimeBlockFrom ++ serUInt32 txPrev.nTime ++
    serUInt256 prevout.hash ++ serUInt32 prevout.n ++ serUInt32 nTimeTx)

/-- `CheckStakeKernelHashV2`: the Clam kernel, over `CBigNum`. It never writes
`targetProofOfStake`. -/
def checkStakeKernelHashV2 (params : CParams) (pindexPrev : CBlockIndex) (nBits : UInt32)
    (nTimeBlockFrom : UInt32) (txPrev : CTransaction) (prevout : COutPoint) (nTimeTx : UInt32)
    (hashProofOfStake targetProofOfStake : BitVec 256) : KernelCheck :=
  if nTimeTx < txPrev.nTime then
    ⟨.error "CheckStakeKernelHash() : nTime violation ", hashProofOfStake, targetProofOfStake⟩
  else if nTimeTx < nTimeBlockFrom + params.nStakeMinAge then
    ⟨.error "CheckStakeKernelHashV2() : min age violation", hashProofOfStake, targetProofOfStake⟩
  else
    ⟨if bnSetCompact nBits * txPrev.valueOut prevout.n <
        (kernelHashV2 pindexPrev.nStakeModifier nTimeBlockFrom txPrev prevout nTimeTx).toNat then
      .fail
    else .ok (),
      kernelHashV2 pindexPrev.nStakeModifier nTimeBlockFrom txPrev prevout nTimeTx,
      targetProofOfStake⟩

/-- `CheckStakeKernelHash`: version 2 above `nProtocolV2Height`, version 1 up to it. -/
def checkStakeKernelHash (params : CParams) (index : BlockIndexView) (pindexPrev : CBlockIndex)
    (nBits : UInt32) (blockFrom : CBlock) (nTxPrevOffset : UInt32) (txPrev : CTransaction)
    (prevout : COutPoint) (nTimeTx : UInt32) (hashProofOfStake targetProofOfStake : BitVec 256)
    (fPrintProofOfStake : Bool) (adjustedTime : Int) : KernelCheck :=
  if params.nProtocolV2Height < pindexPrev.nHeight + 1 then
    checkStakeKernelHashV2 params pindexPrev nBits blockFrom.nTime txPrev prevout nTimeTx
      hashProofOfStake targetProofOfStake
  else
    checkStakeKernelHashV1 params index nBits blockFrom nTxPrevOffset txPrev prevout nTimeTx
      hashProofOfStake targetProofOfStake fPrintProofOfStake adjustedTime

/-- Modelled from the spec: `STAKE_TIMESTAMP_MASK` of `pos.h`, sixteen-second steps. -/
def stakeTimestampMask : Int := 15

/-- `CheckCoinStakeTimestamp`: the coinstake carries the block's time, on the sixteen-second
grid above `nProtocolV2Height`. -/
def checkCoinStakeTimestamp (params : CParams) (nHeight : Int) (nTimeBlock nTimeTx : Int) : Bool :=
  if params.nProtocolV2Height < nHeight then
    nTimeBlock = nTimeTx ∧ Int.land nTimeTx stakeTimestampMask = 0
  else nTimeBlock = nTimeTx

/-! ### A sample stake

The staked output sits in a block at height 10; a modifier is generated at height 20, more than
a selection interval later. The stake is checked on a parent at height 30 or 31 (version 1) or at
height 150 (version 2). -/

/-- The block holding the staked output. -/
def stakeFromBlock : CBlockIndex := ⟨10, 1000, 100, 0, 7, true, 0, false⟩

/-- The first block generating a modifier a selection interval after `stakeFromBlock`. -/
def stakeModifierBlock : CBlockIndex := ⟨20, 30000, 200, 0, 0x1234, true, 0, true⟩

/-- A version 1 parent. -/
def stakeParent : CBlockIndex := ⟨30, 40000, 300, 0, 0x1234, false, 0, true⟩

/-- The next version 1 parent, on top of `stakeParent`. -/
def stakeParentNext : CBlockIndex := ⟨31, 40016, 301, 0, 0x1234, false, 0, true⟩

/-- A version 2 parent. -/
def stakeParentV2 : CBlockIndex := ⟨150, 60000, 400, 0, 0x5678, false, 0, true⟩

/-- The active chain through the four version 1 blocks. -/
def stakeIndex : BlockIndexView :=
  ⟨fun h => [stakeFromBlock, stakeModifierBlock].find? (·.hashBlock = h),
    [stakeFromBlock, stakeModifierBlock, stakeParent, stakeParentNext]⟩

/-- `stakeFromBlock` as read from disk. -/
def stakeBlockFrom : CBlock := ⟨1000, 100⟩

/-- The staked output: output 0 of transaction `0xabc`. -/
def stakePrevout : COutPoint := ⟨0xabc, 0⟩

/-- The transaction `0xabc`, with its time and the value of its only output. -/
def stakedTx (nTime : UInt32) (nValue : Int) : CTransaction := ⟨nTime, [], [⟨nValue, []⟩]⟩

/-! ### The forward walk stops at the first modifier a selection interval later -/

theorem kernelModifierWalk_of_le {params : CParams} {limit : Int} {fPrintProofOfStake : Bool}
    {adjustedTime : Int} {pindex : CBlockIndex} {h : Nat} {t : Int} (rest : List CBlockIndex)
    (ht : limit ≤ t) :
    kernelModifierWalk params limit fPrintProofOfStake adjustedTime pindex h t rest =
      .ok (pindex.nStakeModifier, h, t) := by
  cases rest <;> simp [kernelModifierWalk, not_lt.2 ht]

/-- Below the limit, the walk returns the first block after `pindex` that generated a modifier
at or past the limit. -/
theorem kernelModifierWalk_toOption_eq_find (params : CParams) (limit : Int)
    (fPrintProofOfStake : Bool) (adjustedTime : Int) (pindex : CBlockIndex) (h : Nat) (t : Int)
    (rest : List CBlockIndex) (ht : t < limit) :
    (kernelModifierWalk params limit fPrintProofOfStake adjustedTime pindex h t rest).toOption =
      (rest.find? fun b => b.generatedStakeModifier && decide (limit ≤ b.getBlockTime)).map
        fun b => (b.nStakeModifier, b.nHeight, b.getBlockTime) := by
  induction rest generalizing pindex h t with
  | nil => simp only [kernelModifierWalk, if_pos ht]; split_ifs <;> rfl
  | cons b rest ih =>
    simp only [kernelModifierWalk, if_pos ht, List.find?_cons]
    by_cases hgen : b.generatedStakeModifier
    · by_cases hb : limit ≤ b.getBlockTime
      · simp [hgen, hb, kernelModifierWalk_of_le]
      · simp [hgen, hb, ih _ _ _ (not_le.1 hb)]
    · simp [hgen, ih _ _ _ ht]

/-- From a block in the block map, `GetKernelStakeModifier` returns `true` exactly when a later
block of the active chain generated a modifier a selection interval after it, and then returns
the modifier, height and time of the first such block. -/
theorem getKernelStakeModifier_first_generated (params : CParams) (index : BlockIndexView)
    (fPrintProofOfStake : Bool) (adjustedTime : Int) {blockFrom : CBlockIndex}
    (hmap : index.mapBlockIndex blockFrom.hashBlock = some blockFrom) :
    ((getKernelStakeModifier params index blockFrom.hashBlock fPrintProofOfStake
        adjustedTime).toBool = true ↔
      ∃ b ∈ successors blockFrom index.chainActive, b.generatedStakeModifier = true ∧
        blockFrom.getBlockTime + getStakeModifierSelectionInterval params ≤ b.getBlockTime) ∧
      ∀ b, ((successors blockFrom index.chainActive).find? fun b => b.generatedStakeModifier &&
          decide (blockFrom.getBlockTime + getStakeModifierSelectionInterval params ≤
            b.getBlockTime)) = some b →
        getKernelStakeModifier params index blockFrom.hashBlock fPrintProofOfStake adjustedTime =
          .ok (b.nStakeModifier, b.nHeight, b.getBlockTime) := by
  have hwalk := kernelModifierWalk_toOption_eq_find params
    (blockFrom.getBlockTime + getStakeModifierSelectionInterval params) fPrintProofOfStake
    adjustedTime blockFrom blockFrom.nHeight blockFrom.getBlockTime
    (successors blockFrom index.chainActive)
    (by have := getStakeModifierSelectionInterval_pos params; omega)
  rw [getKernelStakeModifier, hmap]
  refine ⟨?_, fun b hb => ?_⟩
  · rw [← Outcome.isSome_toOption, hwalk, Option.isSome_map', List.find?_isSome]
    simp
  · rw [← Outcome.toOption_eq_some, hwalk, hb]
    rfl

/-- From `stakeFromBlock` the walk returns the modifier of `stakeModifierBlock`. -/
theorem getKernelStakeModifier_first_generated_stake :
    getKernelStakeModifier sampleParams stakeIndex stakeFromBlock.hashBlock false 0 =
      .ok (0x1234, 20, 30000) :=
  (getKernelStakeModifier_first_generated sampleParams stakeIndex false 0 (by decide)).2
    stakeModifierBlock (by decide)

/-! ### The print flag and the clock only choose how a failure is reported -/

section PrintIndependence

variable (params : CParams) (index : BlockIndexView) (p₁ p₂ : Bool) (a₁ a₂ : Int)

theorem kernelModifierWalk_toOption (limit : Int) (pindex : CBlockIndex) (h : Nat) (t : Int)
    (rest : List CBlockIndex) :
    (kernelModifierWalk params limit p₁ a₁ pindex h t rest).toOption =
      (kernelModifierWalk params limit p₂ a₂ pindex h t rest).toOption := by
  by_cases ht : t < limit
  · rw [kernelModifierWalk_toOption_eq_find _ _ _ _ _ _ _ _ ht,
      kernelModifierWalk_toOption_eq_find _ _ _ _ _ _ _ _ ht]
  · rw [kernelModifierWalk_of_le _ (not_lt.1 ht), kernelModifierWalk_of_le _ (not_lt.1 ht)]

theorem getKernelStakeModifier_toOption (hashBlockFrom : BitVec 256) :
    (getKernelStakeModifier params index hashBlockFrom p₁ a₁).toOption =
      (getKernelStakeModifier params index hashBlockFrom p₂ a₂).toOption := by
  unfold getKernelStakeModifier
  split
  · rfl
  · apply kernelModifierWalk_toOption

theorem checkStakeKernelHashV1_print_indep (nBits : UInt32) (blockFrom : CBlock)
    (nTxPrevOffset : UInt32) (txPrev : CTransaction) (prevout : COutPoint) (nTimeTx : UInt32)
    (h t : BitVec 256) :
    checkStakeKernelHashV1 params index nBits blockFrom nTxPrevOffset txPrev prevout nTimeTx h t
        p₁ a₁ =
      checkStakeKernelHashV1 params index nBits blockFrom nTxPrevOffset txPrev prevout nTimeTx h t
        p₂ a₂ := by
  have key := getKernelStakeModifier_toOption params index p₁ p₂ a₁ a₂ blockFrom.hash
  unfold checkStakeKernelHashV1
  split_ifs
  · rfl
  · rfl
  · revert key
    cases getKernelStakeModifier params index blockFrom.hash p₁ a₁ <;>
      cases getKernelStakeModifier params index blockFrom.hash p₂ a₂ <;> simp
    rintro rfl
    exact ⟨rfl, rfl⟩

theorem checkStakeKernelHash_print_indep (pindexPrev : CBlockIndex) (nBits : UInt32)
    (blockFrom : CBlock) (nTxPrevOffset : UInt32) (txPrev : CTransaction) (prevout : COutPoint)
    (nTimeTx : UInt32) (h t : BitVec 256) :
    checkStakeKernelHash params index pindexPrev nBits blockFrom nTxPrevOffset txPrev prevout
        nTimeTx h t p₁ a₁ =
      checkStakeKernelHash params index pindexPrev nBits blockFrom nTxPrevOffset txPrev prevout
        nTimeTx h t p₂ a₂ := by
  unfold checkStakeKernelHash
  split_ifs
  · rfl
  · apply checkStakeKernelHashV1_print_indep

/-- Whether the check accepts, and the hash it hands back when it does, do not depend on what
the caller left in the output parameters. -/
theorem checkStakeKernelHash_init (pindexPrev : CBlockIndex) (nBits : UInt32)
    (blockFrom : CBlock) (nTxPrevOffset : UInt32) (txPrev : CTransaction) (prevout : COutPoint)
    (nTimeTx : UInt32) (h t h' t' : BitVec 256) :
    (checkStakeKernelHash params index pindexPrev nBits blockFrom nTxPrevOffset txPrev prevout
        nTimeTx h t p₁ a₁).outcome =
      (checkStakeKernelHash params index pindexPrev nBits blockFrom nTxPrevOffset txPrev prevout
        nTimeTx h' t' p₁ a₁).outcome ∧
    ((checkStakeKernelHash params index pindexPrev nBits blockFrom nTxPrevOffset txPrev prevout
        nTimeTx h t p₁ a₁).outcome = .ok () →
      (checkStakeKernelHash params index pindexPrev nBits blockFrom nTxPrevOffset txPrev prevout
        nTimeTx h t p₁ a₁).hashProofOfStake =
      (checkStakeKernelHash params index pindexPrev nBits blockFrom nTxPrevOffset txPrev prevout
        nTimeTx h' t' p₁ a₁).hashProofOfStake) := by
  unfold checkStakeKernelHash
  split_ifs
  · unfold checkStakeKernelHashV2
    split_ifs <;> exact ⟨rfl, fun hok => by first | rfl | cases hok⟩
  · unfold checkStakeKernelHashV1
    split_ifs <;> try exact ⟨rfl, fun hok => by cases hok⟩
    rcases getKernelStakeModifier params index blockFrom.hash p₁ a₁ with ⟨m, _, _⟩ | _ | _ <;>
      exact ⟨rfl, fun hok => by first | rfl | cases hok⟩

end PrintIndependence

/-! ### What an accepted kernel check returns -/

section Accepted

variable {params : CParams} {nBits : UInt32} {txPrev : CTransaction} {prevout : COutPoint}
  {nTimeTx : UInt32} {h t : BitVec 256}

set_option maxRecDepth 100000 in
/-- Version 2 accepts a stake of 1000 coins, whose target passes `2 ^ 256`, and hands back the
caller's zero as its target. -/
theorem checkStakeKernelHash_keeps_caller_target :
    (checkStakeKernelHash sampleParams stakeIndex stakeParentV2 0x1e0fffff stakeBlockFrom 0
        (stakedTx 1000 (1000 * coin)) stakePrevout 16000 0 0 false 0).outcome = .ok () ∧
      (checkStakeKernelHash sampleParams stakeIndex stakeParentV2 0x1e0fffff stakeBlockFrom 0
        (stakedTx 1000 (1000 * coin)) stakePrevout 16000 0 0 false 0).targetProofOfStake = 0 ∧
      (checkStakeKernelHash sampleParams stakeIndex stakeParentV2 0x1e0fffff stakeBlockFrom 0
        (stakedTx 1000 (1000 * coin)) stakePrevout 16000 0 0 false 0).targetProofOfStake <
      (checkStakeKernelHash sampleParams stakeIndex stakeParentV2 0x1e0fffff stakeBlockFrom 0
        (stakedTx 1000 (1000 * coin)) stakePrevout 16000 0 0 false 0).hashProofOfStake := by
  decide

theorem checkStakeKernelHashV2_eq_ok {pindexPrev : CBlockIndex} {nTimeBlockFrom : UInt32} :
    (checkStakeKernelHashV2 params pindexPrev nBits nTimeBlockFrom txPrev prevout nTimeTx h
        t).outcome = .ok () ↔
      txPrev.nTime ≤ nTimeTx ∧ nTimeBlockFrom + params.nStakeMinAge ≤ nTimeTx ∧
        ((kernelHashV2 pindexPrev.nStakeModifier nTimeBlockFrom txPrev prevout nTimeTx).toNat : Int) ≤
          bnSetCompact nBits * txPrev.valueOut prevout.n := by
  unfold checkStakeKernelHashV2
  split_ifs <;> simp_all

variable {index : BlockIndexView} {blockFrom : CBlock} {nTxPrevOffset : UInt32} {p : Bool} {a : Int}

/-- Past its two time guards and the modifier lookup, version 1 returns the hash and the target
it compares. -/
theorem checkStakeKernelHashV1_of_modifier {r : UInt64 × Nat × Int}
    (hprev : txPrev.nTime ≤ nTimeTx) (hage : blockFrom.nTime + params.nStakeMinAge ≤ nTimeTx)
    (hmod : getKernelStakeModifier params index blockFrom.hash p a = .ok r) :
    checkStakeKernelHashV1 params index nBits blockFrom nTxPrevOffset txPrev prevout nTimeTx h t
        p a =
      ⟨if targetV1 params nBits txPrev prevout nTimeTx <
          kernelHashV1 r.1 blockFrom nTxPrevOffset txPrev prevout nTimeTx then .fail
        else .ok (),
        kernelHashV1 r.1 blockFrom nTxPrevOffset txPrev prevout nTimeTx,
        targetV1 params nBits txPrev prevout nTimeTx⟩ := by
  simp [checkStakeKernelHashV1, UInt32.not_lt.mpr hprev, UInt32.not_lt.mpr hage, hmod]

theorem checkStakeKernelHashV1_eq_ok :
    (checkStakeKernelHashV1 params index nBits blockFrom nTxPrevOffset txPrev prevout nTimeTx h t
        p a).outcome = .ok () ↔
      txPrev.nTime ≤ nTimeTx ∧ blockFrom.nTime + params.nStakeMinAge ≤ nTimeTx ∧
        ∃ r, getKernelStakeModifier params index blockFrom.hash p a = .ok r ∧
          kernelHashV1 r.1 blockFrom nTxPrevOffset txPrev prevout nTimeTx ≤
            targetV1 params nBits txPrev prevout nTimeTx := by
  unfold checkStakeKernelHashV1
  rcases getKernelStakeModifier params index blockFrom.hash p a with ⟨m, hgt, tm⟩ | _ | _ <;>
    split_ifs <;> simp_all

end Accepted

/-! ### Where the kernel check meets the exact kernel formula -/

section Exact

variable {params : CParams} {nBits : UInt32} {txPrev : CTransaction} {prevout : COutPoint}
  {nTimeTx : UInt32} {h t : BitVec 256}

theorem add_le_toNat {a b c : UInt32} (h : a.toNat + b.toNat < 2 ^ 32) (hle : a + b ≤ c) :
    a.toNat + b.toNat ≤ c.toNat := by
  rw [UInt32.le_def, BitVec.le_def] at hle
  exact BitVec.toNat_add_of_lt (show a.toBitVec.toNat + b.toBitVec.toNat < 2 ^ 32 from h) ▸ hle

theorem bnSetCompact_of_sign (hsign : nBits &&& 0x00800000 = 0) :
    bnSetCompact nBits = compactMagnitude nBits := by
  simp [bnSetCompact, hsign]

variable (params) in
theorem getWeight_lt (b e : Int) : getWeight params b e < 2 ^ 32 := by
  have := params.nStakeMaxAge.toNat_lt_size
  unfold getWeight
  simp only [UInt32.size] at this
  omega

/-- Without a negative weight the coin-day weight is exact: value and weight fit their casts and
their product fits 256 bits. -/
theorem coinDayWeight_toNat {nValueIn : Int} {nTimeTxPrev : UInt32} (hv : 0 ≤ nValueIn)
    (hv64 : nValueIn < 2 ^ 64) (hw : 0 ≤ getWeight params nTimeTxPrev.toNat nTimeTx.toNat) :
    ((coinDayWeight params nValueIn nTimeTxPrev nTimeTx).toNat : Int) =
      nValueIn * getWeight params nTimeTxPrev.toNat nTimeTx.toNat / coin / 86400 := by
  have hw32 := getWeight_lt params nTimeTxPrev.toNat nTimeTx.toNat
  unfold coinDayWeight
  generalize getWeight params nTimeTxPrev.toNat nTimeTx.toNat = w at *
  lift nValueIn to Nat using hv
  lift w to Nat using hw
  have hfit : nValueIn * w < 2 ^ 256 :=
    calc nValueIn * w < 2 ^ 64 * 2 ^ 32 :=
          Nat.mul_lt_mul'' (by exact_mod_cast hv64) (by exact_mod_cast hw32)
      _ ≤ 2 ^ 256 := by decide
  have e1 : ((nValueIn : Int) % 2 ^ 64).toNat = nValueIn := by
    rw [Int.emod_eq_of_lt (by omega) hv64]; rfl
  have e2 : ((w : Int) % 2 ^ 32).toNat = w := by rw [Int.emod_eq_of_lt (by omega) hw32]; rfl
  simp only [BitVec.toNat_udiv, BitVec.toNat_mul, BitVec.toNat_ofNat, e1, e2,
    Nat.mod_eq_of_lt (show nValueIn < 2 ^ 256 by omega),
    Nat.mod_eq_of_lt (show w < 2 ^ 256 by omega), Nat.mod_eq_of_lt hfit]
  rfl

/-- The exact target of the version 1 kernel formula: the compact value times the whole
coin-days, with no coin age before the minimum age, over unbounded integers. -/
def exactTargetV1 (params : CParams) (nBits : UInt32) (nValueIn : Int)
    (nTimeTxPrev nTimeTx : UInt32) : Int :=
  compactMagnitude nBits *
    (nValueIn * max 0 (getWeight params nTimeTxPrev.toNat nTimeTx.toNat) / coin / 86400)

variable (params nBits txPrev prevout nTimeTx) in
/-- Where the exact target fits 256 bits, `targetV1` computes it. -/
theorem targetV1_toNat
    (hv : 0 ≤ txPrev.valueOut prevout.n) (hv64 : txPrev.valueOut prevout.n < 2 ^ 64)
    (hw : 0 ≤ getWeight params txPrev.nTime.toNat nTimeTx.toNat)
    (hfit : exactTargetV1 params nBits (txPrev.valueOut prevout.n) txPrev.nTime nTimeTx < 2 ^ 256) :
    ((targetV1 params nBits txPrev prevout nTimeTx).toNat : Int) =
      exactTargetV1 params nBits (txPrev.valueOut prevout.n) txPrev.nTime nTimeTx := by
  have hcd := coinDayWeight_toNat hv hv64 hw
  rw [exactTargetV1, max_eq_right hw, ← hcd] at hfit ⊢
  have hlt : (coinDayWeight params (txPrev.valueOut prevout.n) txPrev.nTime nTimeTx).toNat *
      compactMagnitude nBits < 2 ^ 256 := by
    rw [Nat.mul_comm]; exact_mod_cast hfit
  simp only [targetV1, arithSetCompact, BitVec.toNat_mul, BitVec.toNat_ofNat, Nat.mul_mod_mod,
    Nat.mod_eq_of_lt hlt]
  push_cast
  exact Int.mul_comm _ _

variable {index : BlockIndexView} {blockFrom : CBlock} {nTxPrevOffset : UInt32} {p : Bool} {a : Int}

theorem add_le_iff_toNat {a b c : UInt32} (h : a.toNat + b.toNat < 2 ^ 32) :
    a + b ≤ c ↔ a.toNat + b.toNat ≤ c.toNat :=
  ⟨add_le_toNat h, fun hle => by
    rw [UInt32.le_def, BitVec.le_def, show (a + b).toBitVec = a.toBitVec + b.toBitVec from rfl,
      BitVec.toNat_add_of_lt (show a.toBitVec.toNat + b.toBitVec.toNat < 2 ^ 32 from h)]
    exact hle⟩

/-- Where the coin age is not negative and nothing wraps, version 1 accepts exactly the stakes of
the exact kernel formula: the times in order, the minimum age reached, a modifier found, and the
proof hash at most the compact value times the whole coin-days. -/
theorem checkStakeKernelHashV1_iff_exact
    (hsum : blockFrom.nTime.toNat + params.nStakeMinAge.toNat < 2 ^ 32)
    (hv : 0 ≤ txPrev.valueOut prevout.n) (hv64 : txPrev.valueOut prevout.n < 2 ^ 64)
    (hw : 0 ≤ getWeight params txPrev.nTime.toNat nTimeTx.toNat)
    (hfit : exactTargetV1 params nBits (txPrev.valueOut prevout.n) txPrev.nTime nTimeTx < 2 ^ 256) :
    (checkStakeKernelHashV1 params index nBits blockFrom nTxPrevOffset txPrev prevout nTimeTx h t p
        a).outcome = .ok () ↔
      txPrev.nTime.toNat ≤ nTimeTx.toNat ∧
        blockFrom.nTime.toNat + params.nStakeMinAge.toNat ≤ nTimeTx.toNat ∧
        ∃ r, getKernelStakeModifier params index blockFrom.hash p a = .ok r ∧
          ((kernelHashV1 r.1 blockFrom nTxPrevOffset txPrev prevout nTimeTx).toNat : Int) ≤
            exactTargetV1 params nBits (txPrev.valueOut prevout.n) txPrev.nTime nTimeTx := by
  rw [checkStakeKernelHashV1_eq_ok,
    ← targetV1_toNat params nBits txPrev prevout nTimeTx hv hv64 hw hfit]
  exact and_congr Iff.rfl (and_congr (add_le_iff_toNat hsum)
    (exists_congr fun _ => and_congr Iff.rfl (BitVec.le_def.trans Int.ofNat_le.symm)))

set_option maxRecDepth 100000 in
/-- The stake of 1048577 coins passes version 1 on the exact formula: its modifier is found and
its hash is below the exact target `2 ^ 256 - 2 ^ 216`. -/
theorem checkStakeKernelHashV1_iff_exact_large :
    (checkStakeKernelHashV1 sampleParams stakeIndex 0x1e0fffff stakeBlockFrom 0
      (stakedTx 1000 (1048577 * coin)) stakePrevout 101800 0 0 false 0).outcome = .ok () :=
  (checkStakeKernelHashV1_iff_exact (by decide) (by decide) (by decide) (by decide)
    (by decide)).2 ⟨by decide, by decide, (0x1234, 20, 30000), by decide, by decide⟩

set_option maxRecDepth 100000 in
/-- A stake with no coin age wins at version 1. The previous transaction is as late as the
coinstake, so `GetWeight` is `-nStakeMinAge`, which the `uint32_t` product reads as
`2 ^ 32 - 14400` seconds: the exact target is 0, the code's is near `2 ^ 256`. -/
theorem checkStakeKernelHash_accepts_without_coin_age :
    (0x1e0fffff : UInt32) &&& 0x00800000 = 0 ∧
      getWeight sampleParams (16000 : UInt32).toNat (16000 : UInt32).toNat < 0 ∧
      (checkStakeKernelHash sampleParams stakeIndex stakeParent 0x1e0fffff stakeBlockFrom 0
        (stakedTx 16000 (20 * coin)) stakePrevout 16000 0 0 false 0).outcome = .ok () ∧
      exactTargetV1 sampleParams 0x1e0fffff (20 * coin) 16000 16000 <
        (checkStakeKernelHash sampleParams stakeIndex stakeParent 0x1e0fffff stakeBlockFrom 0
          (stakedTx 16000 (20 * coin)) stakePrevout 16000 0 0 false 0).hashProofOfStake.toNat := by
  decide

/-- Version 2 reads the staked output only through its value, and a larger value can only
raise the exact target. -/
theorem checkStakeKernelHashV2_mono_value {pindexPrev : CBlockIndex} {nTimeBlockFrom : UInt32}
    {txPrev' : CTransaction} (hsign : nBits &&& 0x00800000 = 0)
    (htime : txPrev'.nTime = txPrev.nTime)
    (hv : txPrev.valueOut prevout.n ≤ txPrev'.valueOut prevout.n)
    (hok : (checkStakeKernelHashV2 params pindexPrev nBits nTimeBlockFrom txPrev prevout nTimeTx h
      t).outcome = .ok ()) :
    (checkStakeKernelHashV2 params pindexPrev nBits nTimeBlockFrom txPrev' prevout nTimeTx h
      t).outcome = .ok () := by
  have hhash : kernelHashV2 pindexPrev.nStakeModifier nTimeBlockFrom txPrev' prevout nTimeTx =
      kernelHashV2 pindexPrev.nStakeModifier nTimeBlockFrom txPrev prevout nTimeTx := by
    simp only [kernelHashV2, htime]
  rw [checkStakeKernelHashV2_eq_ok, bnSetCompact_of_sign hsign] at hok ⊢
  rw [hhash, htime]
  obtain ⟨hprev, hage, hle⟩ := hok
  exact ⟨hprev, hage, hle.trans (Int.mul_le_mul_of_nonneg_left hv (Int.natCast_nonneg _))⟩

set_option maxRecDepth 100000 in
/-- The version 2 stake of 1000 coins at `stakeParentV2` wins again with 2000 coins. -/
theorem checkStakeKernelHashV2_mono_value_double :
    (checkStakeKernelHashV2 sampleParams stakeParentV2 0x1e0fffff 1000
      (stakedTx 1000 (2000 * coin)) stakePrevout 16000 0 0).outcome = .ok () :=
  @checkStakeKernelHashV2_mono_value sampleParams 0x1e0fffff (stakedTx 1000 (1000 * coin))
    stakePrevout 16000 0 0 stakeParentV2 1000 (stakedTx 1000 (2000 * coin)) (by decide) rfl
    (by decide) (by decide)

/-- Version 1 has the same monotonicity as long as the larger target does not wrap. -/
theorem checkStakeKernelHashV1_mono_value {txPrev' : CTransaction}
    (htime : txPrev'.nTime = txPrev.nTime) (hv0 : 0 ≤ txPrev.valueOut prevout.n)
    (hv : txPrev.valueOut prevout.n ≤ txPrev'.valueOut prevout.n)
    (hv64 : txPrev'.valueOut prevout.n < 2 ^ 64)
    (hw : 0 ≤ getWeight params txPrev.nTime.toNat nTimeTx.toNat)
    (hfit : exactTargetV1 params nBits (txPrev'.valueOut prevout.n) txPrev.nTime nTimeTx < 2 ^ 256)
    (hok : (checkStakeKernelHashV1 params index nBits blockFrom nTxPrevOffset txPrev prevout nTimeTx
      h t p a).outcome = .ok ()) :
    (checkStakeKernelHashV1 params index nBits blockFrom nTxPrevOffset txPrev' prevout nTimeTx
      h t p a).outcome = .ok () := by
  have hmono : exactTargetV1 params nBits (txPrev.valueOut prevout.n) txPrev.nTime nTimeTx ≤
      exactTargetV1 params nBits (txPrev'.valueOut prevout.n) txPrev.nTime nTimeTx := by
    unfold exactTargetV1
    refine Int.mul_le_mul_of_nonneg_left ?_ (Int.natCast_nonneg _)
    refine Int.ediv_le_ediv (by decide) (Int.ediv_le_ediv (by decide) ?_)
    exact Int.mul_le_mul_of_nonneg_right hv (le_max_left _ _)
  have hlo := targetV1_toNat params nBits txPrev prevout nTimeTx hv0 (by omega) hw (by omega)
  have hhi := targetV1_toNat params nBits txPrev' prevout nTimeTx (by omega) hv64 (htime ▸ hw)
    (htime ▸ hfit)
  have hhash : ∀ m, kernelHashV1 m blockFrom nTxPrevOffset txPrev' prevout nTimeTx =
      kernelHashV1 m blockFrom nTxPrevOffset txPrev prevout nTimeTx := by
    intro m; simp only [kernelHashV1, htime]
  rw [checkStakeKernelHashV1_eq_ok] at hok ⊢
  obtain ⟨hprev, hage, r, hmod, hle⟩ := hok
  refine ⟨htime ▸ hprev, hage, r, hmod, ?_⟩
  rw [hhash, BitVec.le_def]
  rw [BitVec.le_def] at hle
  rw [htime] at hhi
  omega

set_option maxRecDepth 100000 in
/-- A version 1 stake of 1000000 coins wins, so the stake of 1048577 coins, whose exact target
still fits 256 bits, wins too. -/
theorem checkStakeKernelHashV1_mono_value_large :
    (checkStakeKernelHashV1 sampleParams stakeIndex 0x1e0fffff stakeBlockFrom 0
      (stakedTx 1000 (1048577 * coin)) stakePrevout 101800 0 0 false 0).outcome = .ok () :=
  @checkStakeKernelHashV1_mono_value sampleParams 0x1e0fffff (stakedTx 1000 (1000000 * coin))
    stakePrevout 101800 0 0 stakeIndex stakeBlockFrom 0 false 0 (stakedTx 1000 (1048577 * coin))
    rfl (by decide) (by decide) (by decide) (by decide) (by decide) (by decide)

set_option maxRecDepth 100000 in
/-- At version 1 a stake of 1048578 coins loses where 1048577 coins win: the coin-day weight
times the compact value of `0x1e0fffff` is `2 ^ 256 - 2 ^ 216` for the smaller stake and wraps to
`(2 ^ 20 - 2) * 2 ^ 216` for the larger. -/
theorem checkStakeKernelHash_larger_stake_loses :
    (0x1e0fffff : UInt32) &&& 0x00800000 = 0 ∧ compactMagnitude 0x1e0fffff < 2 ^ 256 ∧
      (checkStakeKernelHash sampleParams stakeIndex stakeParent 0x1e0fffff stakeBlockFrom 0
        (stakedTx 1000 (1048577 * coin)) stakePrevout 101800 0 0 false 0).outcome = .ok () ∧
      (checkStakeKernelHash sampleParams stakeIndex stakeParent 0x1e0fffff stakeBlockFrom 0
        (stakedTx 1000 (1048578 * coin)) stakePrevout 101800 0 0 false 0).outcome = .fail := by
  decide

/-! #### Coin age -/

theorem getWeight_mono (b : Int) {e e' : Int} (h : e ≤ e') :
    getWeight params b e ≤ getWeight params b e' := by
  unfold getWeight
  omega

theorem exactTargetV1_mono_time {nValueIn : Int} {nTimeTxPrev nTimeTx' : UInt32}
    (hv : 0 ≤ nValueIn) (hle : nTimeTx.toNat ≤ nTimeTx'.toNat) :
    exactTargetV1 params nBits nValueIn nTimeTxPrev nTimeTx ≤
      exactTargetV1 params nBits nValueIn nTimeTxPrev nTimeTx' := by
  unfold exactTargetV1
  refine Int.mul_le_mul_of_nonneg_left ?_ (Int.natCast_nonneg _)
  refine Int.ediv_le_ediv (by decide) (Int.ediv_le_ediv (by decide) ?_)
  exact Int.mul_le_mul_of_nonneg_left
    (max_le_max le_rfl (getWeight_mono _ (by exact_mod_cast hle))) hv

/-- At version 1 the target follows the coin's age: a later coinstake time never lowers it while
the earlier weight is not negative and the later exact target fits 256 bits, and once the coin is
`nStakeMinAge + nStakeMaxAge` seconds old it no longer changes, wrapped or not. -/
theorem targetV1_coin_age {nTimeTx' : UInt32} (hle : nTimeTx.toNat ≤ nTimeTx'.toNat) :
    (0 ≤ txPrev.valueOut prevout.n → txPrev.valueOut prevout.n < 2 ^ 64 →
      0 ≤ getWeight params txPrev.nTime.toNat nTimeTx.toNat →
      exactTargetV1 params nBits (txPrev.valueOut prevout.n) txPrev.nTime nTimeTx' < 2 ^ 256 →
      targetV1 params nBits txPrev prevout nTimeTx ≤ targetV1 params nBits txPrev prevout nTimeTx') ∧
    (txPrev.nTime.toNat + params.nStakeMinAge.toNat + params.nStakeMaxAge.toNat ≤ nTimeTx.toNat →
      targetV1 params nBits txPrev prevout nTimeTx' = targetV1 params nBits txPrev prevout nTimeTx) := by
  refine ⟨fun hv hv64 hw hfit => ?_, fun hmax => ?_⟩
  · have hmono := @exactTargetV1_mono_time params nBits nTimeTx _ txPrev.nTime nTimeTx' hv hle
    have hw' := hw.trans (@getWeight_mono params txPrev.nTime.toNat nTimeTx.toNat nTimeTx'.toNat
      (by exact_mod_cast hle))
    have hlo := targetV1_toNat params nBits txPrev prevout nTimeTx hv hv64 hw (by omega)
    have hhi := targetV1_toNat params nBits txPrev prevout nTimeTx' hv hv64 hw' hfit
    rw [BitVec.le_def]
    omega
  · have hcap : getWeight params txPrev.nTime.toNat nTimeTx'.toNat =
        getWeight params txPrev.nTime.toNat nTimeTx.toNat := by
      unfold getWeight
      omega
    simp only [targetV1, coinDayWeight, hcap]

/-- The sample parameters with a maximum stake age of thirty days. -/
def monthParams : CParams := ⟨14400, 2592000, 600, 100, 2, by decide⟩

set_option maxRecDepth 100000 in
/-- A one-coin stake: its target grows from one to two days of weight, and is the same at
3000000 and 4000000 seconds, both past the thirty-day cap. -/
theorem targetV1_coin_age_month :
    targetV1 monthParams 0x1e0fffff (stakedTx 1000 coin) stakePrevout 101800 ≤
        targetV1 monthParams 0x1e0fffff (stakedTx 1000 coin) stakePrevout 188200 ∧
      targetV1 monthParams 0x1e0fffff (stakedTx 1000 coin) stakePrevout 4000000 =
        targetV1 monthParams 0x1e0fffff (stakedTx 1000 coin) stakePrevout 3000000 :=
  ⟨(targetV1_coin_age (by decide)).1 (by decide) (by decide) (by decide) (by decide),
    (targetV1_coin_age (by decide)).2 (by decide)⟩

end Exact

end ClamsPos
