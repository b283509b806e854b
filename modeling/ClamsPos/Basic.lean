import Mathlib

/-!
# Data of the proof-of-stake kernel

The consensus parameters, block index entries and compact targets that `pos.cpp` reads,
and `Outcome`, the shape of its `bool` functions.

A `CBlockIndex*` is a list: the entry itself followed by its `pprev` chain back to genesis,
with `[]` for the null pointer. Times are the `unsigned int` of the block header, so
`GetBlockTime()` is never negative. `uint256` and `arith_uint256` values are `BitVec 256`,
read as little-endian numbers and compared numerically: `pos.cpp` shifts a `uint256`
(`hashSelection >>= 32`), which only the arithmetic `uint256` allows.

## Main definitions

* `CParams` — the consensus parameters, with a positive modifier interval.
* `CBlockIndex` — the fields of a block index entry the kernel reads.
* `Outcome` — `true` with outputs, a plain `false`, or `false` through `error(...)`.
* `arithSetCompact`, `bnSetCompact` — `SetCompact` of `arith_uint256` and of `CBigNum`.
-/

namespace ClamsPos

/-- The consensus parameters the kernel reads (`Consensus::CParams`). The stake ages are
`unsigned int`: `GetWeight` has to cast `nStakeMaxAge` to `int64_t`. `nModifierInterval`
divides block times, so it is positive. -/
structure CParams where
  nStakeMinAge : UInt32
  nStakeMaxAge : UInt32
  nModifierInterval : Nat
  nProtocolV2Height : Int
  nCoinbaseMaturity : Int
  nModifierInterval_pos : 0 < nModifierInterval

/-- The parameters of the concrete runs in this development: a four-hour minimum stake age,
no maximum age, a ten-minute modifier interval, protocol V2 above height 100, and a coinbase
maturity of two blocks. -/
def sampleParams : CParams := ⟨14400, 4294967295, 600, 100, 2, by decide⟩

/-- A block index entry, as far as the kernel reads it. -/
structure CBlockIndex where
  nHeight : Nat
  nTime : UInt32
  hashBlock : BitVec 256
  hashProof : BitVec 256
  nStakeModifier : UInt64
  generatedStakeModifier : Bool
  stakeEntropyBit : UInt32
  proofOfStake : Bool
  deriving DecidableEq, Repr

/-- `CBlockIndex::GetBlockTime()`: the header time widened to `int64_t`. -/
def CBlockIndex.getBlockTime (b : CBlockIndex) : Int := b.nTime.toNat

@[simp] theorem CBlockIndex.getBlockTime_nonneg (b : CBlockIndex) : 0 ≤ b.getBlockTime :=
  Int.natCast_nonneg _

/-- How a `bool` function of `pos.cpp` returns: `true` with the values it wrote to its
output parameters, a plain `false`, or `false` through `error(msg)`, which also writes `msg`
to the debug log. -/
inductive Outcome (α : Type) where
  | ok (val : α)
  | fail
  | error (msg : String)
  deriving DecidableEq, Repr

/-- The `bool` the C++ function returns. -/
def Outcome.toBool {α : Type} : Outcome α → Bool
  | .ok _ => true
  | _ => false

@[simp] theorem Outcome.toBool_ok {α : Type} (a : α) : (Outcome.ok a).toBool = true := rfl
@[simp] theorem Outcome.toBool_fail {α : Type} : (Outcome.fail : Outcome α).toBool = false := rfl
@[simp] theorem Outcome.toBool_error {α : Type} (m : String) :
    (Outcome.error m : Outcome α).toBool = false := rfl

/-- The values of a `true` return, forgetting how a `false` was reported. -/
def Outcome.toOption {α : Type} : Outcome α → Option α
  | .ok a => some a
  | _ => none

@[simp] theorem Outcome.toOption_ok {α : Type} (a : α) : (Outcome.ok a).toOption = some a := rfl
@[simp] theorem Outcome.toOption_fail {α : Type} : (Outcome.fail : Outcome α).toOption = none := rfl
@[simp] theorem Outcome.toOption_error {α : Type} (m : String) :
    (Outcome.error m : Outcome α).toOption = none := rfl

theorem Outcome.isSome_toOption {α : Type} (o : Outcome α) : o.toOption.isSome = o.toBool := by
  cases o <;> rfl

theorem Outcome.toBool_eq_true_unit {o : Outcome Unit} : o.toBool = true ↔ o = .ok () := by
  cases o <;> simp

theorem Outcome.toOption_eq_some {α : Type} {o : Outcome α} {a : α} :
    o.toOption = some a ↔ o = .ok a := by
  cases o <;> simp

/-- The exponent byte of a compact target. -/
def compactSize (nCompact : UInt32) : Nat := (nCompact >>> 24).toNat

/-- The 23-bit mantissa of a compact target, without its sign bit. -/
def compactWord (nCompact : UInt32) : Nat := (nCompact &&& 0x007fffff).toNat

/-- The mantissa scaled by the exponent, over the naturals: `nWord >> 8 * (3 - nSize)`
below size 3, `nWord << 8 * (nSize - 3)` above. -/
def compactMagnitude (nCompact : UInt32) : Nat :=
  if compactSize nCompact ≤ 3 then compactWord nCompact >>> (8 * (3 - compactSize nCompact))
  else compactWord nCompact <<< (8 * (compactSize nCompact - 3))

/-- `arith_uint256::SetCompact`: the magnitude kept to its low 256 bits, sign bit ignored. -/
def arithSetCompact (nCompact : UInt32) : BitVec 256 := BitVec.ofNat 256 (compactMagnitude nCompact)

/-- `CBigNum::SetCompact`: the exact magnitude, negated when the sign bit `0x00800000` is set. -/
def bnSetCompact (nCompact : UInt32) : Int :=
  if nCompact &&& 0x00800000 = 0 then compactMagnitude nCompact else -compactMagnitude nCompact

end ClamsPos
