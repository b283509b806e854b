import ClamsPos.Kernel

/-!
# Coinstake validation

`CheckProofOfStake` validates the kernel input of a coinstake on top of `pindexPrev`;
`CheckKernel` is the miner's probe of one output at one time. Both look up the staked coin, the
block holding it and its transaction, read the offset of that transaction, and hand everything to
`CheckStakeKernelHash`. The validator also checks the signature of the kernel input; the probe
checks the coinbase maturity and whether the coin is spent.

`pindexPrev` comes with its `pprev` chain, `pprevs`, which `GetAncestor` walks. The node's
lookups are the fields of `ChainState`.

## Main results

* `checkProofOfStake_print_clock_indep` — neither the kernel check nor the validator depends on
  `fDebug`, the print flag or the clock.
* `checkKernel_refines_checkProofOfStake` — a stake the probe accepts passes validation with
  the probe's proof hash.
* `checkProofOfStake_state` — a rejection leaves the validation state or raises its DoS score
  by 1 or 100, and an acceptance leaves it.
-/

namespace ClamsPos

/-- Modelled from the spec: `COutPoint::IsNull`, the outpoint of no output. -/
def COutPoint.isNull (o : COutPoint) : Bool := o.hash == 0 && o.n == 0xffffffff

/-- Modelled from the spec: `CTxOut::IsEmpty`, an output with no value and no script. -/
def CTxOut.isEmpty (o : CTxOut) : Bool := o.nValue == 0 && o.scriptPubKey.isEmpty

/-- Modelled from the spec: `CTransaction::IsCoinStake`, told by its shape: a first input that
spends an output, and two outputs or more, the first one empty. -/
def CTransaction.isCoinStake (tx : CTransaction) : Bool :=
  match tx.vin, tx.vout with
  | prevout :: _, out :: _ :: _ => !prevout.isNull && out.isEmpty
  | _, _ => false

/-- Modelled from the spec: a `Coin` of the UTXO view, `{ value, height, spent }`, its value
kept in the output it is. -/
structure Coin where
  out : CTxOut
  nHeight : Nat
  spent : Bool
  deriving DecidableEq, Repr

/-- The node as the validator reads it: the block index of the kernel, the UTXO view
(`view.GetCoin`), the block store (`ReadBlockFromDisk`), the transaction index
(`GetTransaction`), the tx-offset index (`pblocktree->ReadTxOffsetIndex`, its `int` as the
`unsigned int` it is passed on as) and the signature check of input 0
(`VerifySignature(coin, hash, tx, 0, SCRIPT_VERIFY_NONE)`). -/
structure ChainState where
  index : BlockIndexView
  getCoin : COutPoint → Option Coin
  readBlockFromDisk : CBlockIndex → Option CBlock
  getTransaction : BitVec 256 → Option CTransaction
  readTxOffsetIndex : Int → Option UInt32
  verifySignature : Coin → BitVec 256 → CTransaction → Bool

/-- Modelled from the spec: `ancestor_at_height(h)` (`CBlockIndex::GetAncestor`), the block at
height `h` on the chain `pindex :: pprevs`. -/
def getAncestor (pindex : CBlockIndex) (pprevs : List CBlockIndex) (height : Nat) :
    Option CBlockIndex :=
  (pindex :: pprevs).find? (·.nHeight = height)

/-- Modelled from the spec: what a `CValidationState` records of a rejection, the DoS score
(`nDoS`) with the reject code and reason. -/
structure CValidationState where
  invalid : Bool
  nDoS : Nat
  chRejectCode : Nat
  strRejectReason : String
  deriving DecidableEq, Repr

/-- `state.DoS(level, false, chRejectCode, strRejectReason)`. -/
def CValidationState.doS (state : CValidationState) (level chRejectCode : Nat)
    (strRejectReason : String) : CValidationState :=
  ⟨true, state.nDoS + level, chRejectCode, strRejectReason⟩

/-- Modelled from the spec: `REJECT_INVALID`, the reject code of a block that breaks a rule. -/
def rejectInvalid : Nat := 0x10

/-- What `CheckProofOfStake` hands back: how it returned, the validation state, and its two
output parameters. -/
structure ProofOfStakeCheck where
  outcome : Outcome Unit
  state : CValidationState
  hashProofOfStake : BitVec 256
  targetProofOfStake : BitVec 256
  deriving DecidableEq, Repr

/-- `CheckProofOfStake`. The kernel check gets `fDebug` as its print flag and the offset read at
`pindexPrev`'s height, 0 when the read fails. -/
def checkProofOfStake (params : CParams) (chain : ChainState) (pindexPrev : CBlockIndex)
    (pprevs : List CBlockIndex) (state : CValidationState) (tx : CTransaction) (nBits : UInt32)
    (hashProofOfStake targetProofOfStake : BitVec 256) (fDebug : Bool) (adjustedTime : Int) :
    ProofOfStakeCheck :=
  match tx.vin, tx.isCoinStake with
  | txin :: _, true =>
    match chain.getCoin txin with
    | none => ⟨.error "CheckProofOfStake() : Stake prevout does not exist %s",
        state.doS 100 0 "", hashProofOfStake, targetProofOfStake⟩
    | some coinPrev =>
      match getAncestor pindexPrev pprevs coinPrev.nHeight with
      | none => ⟨.error "CheckProofOfStake() : Block at height %i for prevout can not be loaded",
          state.doS 100 0 "", hashProofOfStake, targetProofOfStake⟩
      | some blockFrom =>
        match chain.readBlockFromDisk blockFrom with
        | none => ⟨.error "%s: CheckProofOfStake()", state.doS 100 rejectInvalid "block-not-found",
            hashProofOfStake, targetProofOfStake⟩
        | some block =>
          match chain.getTransaction txin.hash with
          | none => ⟨.error "%s: prevout-not-in-chain",
              state.doS 1 rejectInvalid "prevout-not-in-chain", hashProofOfStake,
              targetProofOfStake⟩
          | some txPrev =>
            if chain.verifySignature coinPrev txin.hash tx then
              let kernel := checkStakeKernelHash params chain.index pindexPrev nBits block
                ((chain.readTxOffsetIndex pindexPrev.nHeight).getD 0) txPrev txin tx.nTime
                hashProofOfStake targetProofOfStake fDebug adjustedTime
              if kernel.outcome.toBool then
                ⟨.ok (), state, kernel.hashProofOfStake, kernel.targetProofOfStake⟩
              else
                ⟨.error "CheckProofOfStake() : INFO: check kernel failed on coinstake %s, hashProof=%s",
                  state.doS 1 0 "", kernel.hashProofOfStake, kernel.targetProofOfStake⟩
            else
              ⟨.error "CheckProofOfStake() : VerifySignature failed on coinstake %s",
                state.doS 100 0 "", hashProofOfStake, targetProofOfStake⟩
  | _, _ => ⟨.error "CheckProofOfStake() : called on non-coinstake %s", state, hashProofOfStake,
      targetProofOfStake⟩

/-- `CheckKernel`: the probe of output `prevout` at time `txTime`, with the print flag `false`.
It hands back its local output parameters, which start at zero. The `state.DoS` of its two late
failures goes to a local state, dropped on return. -/
def checkKernel (params : CParams) (chain : ChainState) (pindexPrev : CBlockIndex)
    (pprevs : List CBlockIndex) (nBits : UInt32) (prevout : COutPoint) (txTime : UInt32)
    (adjustedTime : Int) : KernelCheck :=
  match chain.getCoin prevout with
  | none => ⟨.fail, 0, 0⟩
  | some coinPrev =>
    if (pindexPrev.nHeight : Int) + 1 - coinPrev.nHeight < params.nCoinbaseMaturity then
      ⟨.fail, 0, 0⟩
    else
      match getAncestor pindexPrev pprevs coinPrev.nHeight with
      | none => ⟨.fail, 0, 0⟩
      | some blockFrom =>
        if coinPrev.spent then ⟨.fail, 0, 0⟩
        else
          match chain.readBlockFromDisk blockFrom with
          | none => ⟨.error "%s: CheckProofOfStake()", 0, 0⟩
          | some block =>
            match chain.getTransaction prevout.hash with
            | none => ⟨.error "%s: prevout-not-in-chain", 0, 0⟩
            | some txPrev =>
              checkStakeKernelHash params chain.index pindexPrev nBits block
                ((chain.readTxOffsetIndex pindexPrev.nHeight).getD 0) txPrev prevout txTime 0 0
                false adjustedTime

/-! ### The sample stake on a node -/

/-- A node holding the sample stake as an unspent coin of one coin at height 10, with its block
and transaction. Its tx-offset index has an entry only at height 31, and signatures verify. -/
def stakeChain : ChainState where
  index := stakeIndex
  getCoin o := if o = stakePrevout then some ⟨⟨coin, []⟩, 10, false⟩ else none
  readBlockFromDisk b := if b.hashBlock = 100 then some stakeBlockFrom else none
  getTransaction h := if h = 0xabc then some (stakedTx 1000 coin) else none
  readTxOffsetIndex n := if n = 31 then some 64 else none
  verifySignature _ _ _ := true

/-- A coinstake spending the sample stake at time 101800. -/
def stakeCoinstake : CTransaction := ⟨101800, [stakePrevout], [⟨0, []⟩, ⟨coin, [0x51]⟩]⟩

/-- A validation state with no rejection recorded. -/
def freshState : CValidationState := ⟨false, 0, 0, ""⟩

/-! ### Lookups -/

section Lookups

variable {params : CParams} {chain : ChainState} {pindexPrev : CBlockIndex}
  {pprevs : List CBlockIndex} {nBits : UInt32}

/-- Past its lookups and the signature, `CheckProofOfStake` is the kernel check. -/
theorem checkProofOfStake_of_lookups {state : CValidationState} {tx : CTransaction}
    {txin : COutPoint} {rest : List COutPoint} {h t : BitVec 256} {fDebug : Bool} {a : Int}
    {coinPrev : Coin} {blockFrom : CBlockIndex} {block : CBlock} {txPrev : CTransaction}
    (hvin : tx.vin = txin :: rest) (hstake : tx.isCoinStake = true)
    (hc : chain.getCoin txin = some coinPrev)
    (hanc : getAncestor pindexPrev pprevs coinPrev.nHeight = some blockFrom)
    (hblock : chain.readBlockFromDisk blockFrom = some block)
    (htx : chain.getTransaction txin.hash = some txPrev)
    (hsig : chain.verifySignature coinPrev txin.hash tx = true) :
    checkProofOfStake params chain pindexPrev pprevs state tx nBits h t fDebug a =
      if (checkStakeKernelHash params chain.index pindexPrev nBits block
          ((chain.readTxOffsetIndex pindexPrev.nHeight).getD 0) txPrev txin tx.nTime h t fDebug
          a).outcome.toBool then
        ⟨.ok (), state, (checkStakeKernelHash params chain.index pindexPrev nBits block
          ((chain.readTxOffsetIndex pindexPrev.nHeight).getD 0) txPrev txin tx.nTime h t fDebug
          a).hashProofOfStake, (checkStakeKernelHash params chain.index pindexPrev nBits block
          ((chain.readTxOffsetIndex pindexPrev.nHeight).getD 0) txPrev txin tx.nTime h t fDebug
          a).targetProofOfStake⟩
      else
        ⟨.error "CheckProofOfStake() : INFO: check kernel failed on coinstake %s, hashProof=%s",
          state.doS 1 0 "", (checkStakeKernelHash params chain.index pindexPrev nBits block
          ((chain.readTxOffsetIndex pindexPrev.nHeight).getD 0) txPrev txin tx.nTime h t fDebug
          a).hashProofOfStake, (checkStakeKernelHash params chain.index pindexPrev nBits block
          ((chain.readTxOffsetIndex pindexPrev.nHeight).getD 0) txPrev txin tx.nTime h t fDebug
          a).targetProofOfStake⟩ := by
  simp only [checkProofOfStake, hvin, hstake, hc, hanc, hblock, htx, hsig, if_true]

/-- An accepted coinstake passed every lookup and the signature check. -/
theorem checkProofOfStake_of_ok {state : CValidationState} {tx : CTransaction} {h t : BitVec 256}
    {fDebug : Bool} {a : Int}
    (hok : (checkProofOfStake params chain pindexPrev pprevs state tx nBits h t fDebug a).outcome =
      .ok ()) :
    ∃ txin rest coinPrev blockFrom block txPrev, tx.vin = txin :: rest ∧
      tx.isCoinStake = true ∧ chain.getCoin txin = some coinPrev ∧
      getAncestor pindexPrev pprevs coinPrev.nHeight = some blockFrom ∧
      chain.readBlockFromDisk blockFrom = some block ∧
      chain.getTransaction txin.hash = some txPrev ∧
      chain.verifySignature coinPrev txin.hash tx = true := by
  unfold checkProofOfStake at hok
  obtain ⟨txin, rest, hvin⟩ := List.exists_cons_of_ne_nil fun hq : tx.vin = [] => by
    simp [hq] at hok
  have hstake : tx.isCoinStake = true :=
    Bool.eq_true_of_not_eq_false fun hq => by simp [hvin, hq] at hok
  simp only [hvin, hstake] at hok
  obtain ⟨coinPrev, hc⟩ := Option.ne_none_iff_exists'.1
    fun hq : chain.getCoin txin = none => by simp [hq] at hok
  simp only [hc] at hok
  obtain ⟨blockFrom, hanc⟩ := Option.ne_none_iff_exists'.1
    fun hq : getAncestor pindexPrev pprevs coinPrev.nHeight = none => by simp [hq] at hok
  simp only [hanc] at hok
  obtain ⟨block, hblock⟩ := Option.ne_none_iff_exists'.1
    fun hq : chain.readBlockFromDisk blockFrom = none => by simp [hq] at hok
  simp only [hblock] at hok
  obtain ⟨txPrev, htx⟩ := Option.ne_none_iff_exists'.1
    fun hq : chain.getTransaction txin.hash = none => by simp [hq] at hok
  simp only [htx] at hok
  have hsig : chain.verifySignature coinPrev txin.hash tx = true :=
    Bool.eq_true_of_not_eq_false fun hq => by simp [hq] at hok
  exact ⟨txin, rest, coinPrev, blockFrom, block, txPrev, hvin, hstake, hc, hanc, hblock, htx, hsig⟩

/-- How `CheckProofOfStake` leaves the validation state: as it was when it accepts, and when it
rejects either as it was (no coinstake) or marked invalid with its DoS score raised by 1 (a
transaction not yet found, a kernel that misses) or by 100 (the other failures). -/
theorem checkProofOfStake_state (state : CValidationState) (tx : CTransaction) (h t : BitVec 256)
    (fDebug : Bool) (a : Int) :
    ((checkProofOfStake params chain pindexPrev pprevs state tx nBits h t fDebug a).outcome =
        .ok () →
      (checkProofOfStake params chain pindexPrev pprevs state tx nBits h t fDebug a).state =
        state) ∧
    ((checkProofOfStake params chain pindexPrev pprevs state tx nBits h t fDebug a).state = state ∨
      ∃ level ∈ [1, 100], ∃ code reason,
        (checkProofOfStake params chain pindexPrev pprevs state tx nBits h t fDebug a).state =
          state.doS level code reason) := by
  unfold checkProofOfStake
  dsimp only
  repeat' split
  all_goals simp

theorem checkKernel_of_ok {prevout : COutPoint} {t : UInt32} {a : Int}
    (hok : (checkKernel params chain pindexPrev pprevs nBits prevout t a).outcome = .ok ()) :
    ∃ coinPrev blockFrom block txPrev, chain.getCoin prevout = some coinPrev ∧
      getAncestor pindexPrev pprevs coinPrev.nHeight = some blockFrom ∧
      chain.readBlockFromDisk blockFrom = some block ∧
      chain.getTransaction prevout.hash = some txPrev ∧
      checkKernel params chain pindexPrev pprevs nBits prevout t a =
        checkStakeKernelHash params chain.index pindexPrev nBits block
          ((chain.readTxOffsetIndex pindexPrev.nHeight).getD 0) txPrev prevout t 0 0 false a := by
  unfold checkKernel at hok
  obtain ⟨coinPrev, hc⟩ := Option.ne_none_iff_exists'.1
    fun hq : chain.getCoin prevout = none => by simp [hq] at hok
  simp only [hc] at hok
  have hmat : ¬(pindexPrev.nHeight : Int) + 1 - coinPrev.nHeight < params.nCoinbaseMaturity :=
    fun hlt => by simp [hlt] at hok
  simp only [hmat, if_false] at hok
  obtain ⟨blockFrom, hanc⟩ := Option.ne_none_iff_exists'.1
    fun hq : getAncestor pindexPrev pprevs coinPrev.nHeight = none => by simp [hq] at hok
  simp only [hanc] at hok
  have hspent : coinPrev.spent = false := Bool.eq_false_iff.2 fun hq => by simp [hq] at hok
  simp only [hspent, Bool.false_eq_true, if_false] at hok
  obtain ⟨block, hblock⟩ := Option.ne_none_iff_exists'.1
    fun hq : chain.readBlockFromDisk blockFrom = none => by simp [hq] at hok
  simp only [hblock] at hok
  obtain ⟨txPrev, htx⟩ := Option.ne_none_iff_exists'.1
    fun hq : chain.getTransaction prevout.hash = none => by simp [hq] at hok
  exact ⟨coinPrev, blockFrom, block, txPrev, hc, hanc, hblock, htx,
    by simp [checkKernel, hc, hmat, hanc, hspent, hblock, htx]⟩

end Lookups

/-! ### Node-local settings -/

/-- Neither the kernel check nor the validator depends on the print flag, `fDebug` or the
adjusted clock: two nodes that differ only in them reach the same verdict, DoS score and
outputs. -/
theorem checkProofOfStake_print_clock_indep (params : CParams) (chain : ChainState)
    (pindexPrev : CBlockIndex) (pprevs : List CBlockIndex) (nBits : UInt32) (blockFrom : CBlock)
    (nTxPrevOffset : UInt32) (txPrev : CTransaction) (prevout : COutPoint) (nTimeTx : UInt32)
    (state : CValidationState) (tx : CTransaction) (h t : BitVec 256)
    (p₁ p₂ fDebug₁ fDebug₂ : Bool) (a₁ a₂ : Int) :
    checkStakeKernelHash params chain.index pindexPrev nBits blockFrom nTxPrevOffset txPrev
        prevout nTimeTx h t p₁ a₁ =
      checkStakeKernelHash params chain.index pindexPrev nBits blockFrom nTxPrevOffset txPrev
        prevout nTimeTx h t p₂ a₂ ∧
    checkProofOfStake params chain pindexPrev pprevs state tx nBits h t fDebug₁ a₁ =
      checkProofOfStake params chain pindexPrev pprevs state tx nBits h t fDebug₂ a₂ :=
  ⟨checkStakeKernelHash_print_indep .., by
    simp only [checkProofOfStake,
      checkStakeKernelHash_print_indep params chain.index fDebug₁ false a₁ 0,
      checkStakeKernelHash_print_indep params chain.index fDebug₂ false a₂ 0]⟩

/-! ### The probe refines the validator -/

/-- A stake that `CheckKernel` accepts passes `CheckProofOfStake` in every coinstake that
spends it at the probed time with a valid signature, whatever the validator's print flag,
clock and initial outputs: the state records no rejection and the proof hash is the probe's. -/
theorem checkKernel_refines_checkProofOfStake {params : CParams} {chain : ChainState}
    {pindexPrev : CBlockIndex} {pprevs : List CBlockIndex} {nBits : UInt32} {prevout : COutPoint}
    {t : UInt32} {a : Int} {tx : CTransaction}
    (hkernel : (checkKernel params chain pindexPrev pprevs nBits prevout t a).outcome = .ok ())
    (hstake : tx.isCoinStake = true) (hin : tx.vin.head? = some prevout) (htime : tx.nTime = t)
    (hsig : ∀ coinPrev, chain.getCoin prevout = some coinPrev →
      chain.verifySignature coinPrev prevout.hash tx = true)
    (state : CValidationState) (h t' : BitVec 256) (fDebug : Bool) (a' : Int) :
    ∃ target, checkProofOfStake params chain pindexPrev pprevs state tx nBits h t' fDebug a' =
      ⟨.ok (), state, (checkKernel params chain pindexPrev pprevs nBits prevout t a).hashProofOfStake,
        target⟩ := by
  obtain ⟨coinPrev, blockFrom, block, txPrev, hc, hanc, hblock, htx, heq⟩ := checkKernel_of_ok hkernel
  obtain ⟨rest, hvin⟩ := List.head?_eq_some_iff.mp hin
  have hinit := checkStakeKernelHash_init params chain.index false a pindexPrev nBits block
    ((chain.readTxOffsetIndex pindexPrev.nHeight).getD 0) txPrev prevout t 0 0 h t'
  rw [heq] at hkernel ⊢
  rw [checkProofOfStake_of_lookups hvin hstake hc hanc hblock htx (hsig _ hc), htime,
    checkStakeKernelHash_print_indep params chain.index fDebug false a' a, ← hinit.1, hkernel,
    ← hinit.2 hkernel]
  exact ⟨_, rfl⟩

set_option maxRecDepth 100000 in
/-- The probe accepts the sample stake on the version 2 parent, and a validator with its
print flag on and another clock accepts the sample coinstake there. -/
theorem checkKernel_refines_checkProofOfStake_sample :
    (checkKernel sampleParams stakeChain stakeParentV2 [stakeParent, stakeModifierBlock,
      stakeFromBlock] 0x1e0fffff stakePrevout 101800 0).outcome = .ok () ∧
    ∃ target, checkProofOfStake sampleParams stakeChain stakeParentV2 [stakeParent,
        stakeModifierBlock, stakeFromBlock] freshState stakeCoinstake 0x1e0fffff 0 0 true 7 =
      ⟨.ok (), freshState, (checkKernel sampleParams stakeChain stakeParentV2 [stakeParent,
        stakeModifierBlock, stakeFromBlock] 0x1e0fffff stakePrevout 101800 0).hashProofOfStake,
        target⟩ := by
  have hkernel : (checkKernel sampleParams stakeChain stakeParentV2 [stakeParent,
      stakeModifierBlock, stakeFromBlock] 0x1e0fffff stakePrevout 101800 0).outcome = .ok () := by
    decide
  exact ⟨hkernel, checkKernel_refines_checkProofOfStake hkernel (by decide) (by rfl) (by rfl)
    (fun _ _ => by rfl) _ _ _ _ _⟩

/-! ### The parent a version 1 stake is checked on -/

set_option maxRecDepth 100000 in
/-- Two version 1 validations of the sample coinstake, on `stakeParent` and on its child, hash
different offsets: the index has no entry at height 30, so the first hashes 0, and the second
hashes the 64 stored at height 31. -/
theorem checkProofOfStake_hash_depends_on_parent :
    (stakeParent.nHeight : Int) + 1 ≤ sampleParams.nProtocolV2Height ∧
      (stakeParentNext.nHeight : Int) + 1 ≤ sampleParams.nProtocolV2Height ∧
      (checkProofOfStake sampleParams stakeChain stakeParent [stakeModifierBlock, stakeFromBlock]
        freshState stakeCoinstake 0x1e0fffff 0 0 false 0).hashProofOfStake ≠
      (checkProofOfStake sampleParams stakeChain stakeParentNext [stakeParent, stakeModifierBlock,
        stakeFromBlock] freshState stakeCoinstake 0x1e0fffff 0 0 false 0).hashProofOfStake := by
  decide

end ClamsPos
