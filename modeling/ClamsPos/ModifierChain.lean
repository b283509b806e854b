import ClamsPos.Modifier

/-!
# Chains stamped by the modifier engine

A chain is built from genesis by `ComputeNextStakeModifier` when every block carries the
modifier and flag that a successful call on its parent returned (genesis: the call on the
null pointer). On such a chain the backward walk of `GetLastStakeModifier` never reaches its
genesis error, and returns the modifier the block itself carries.

The design comment of `ComputeNextStakeModifier` has the modifier recomputed at a fixed time
interval. The epoch check compares the parent's time with the time of the last generating
block itself, so a generating block stamped back into an earlier epoch lets a later block
generate again within the epoch of the first generation's parent. When no generating block is
stamped in an earlier epoch than its parent, generations fall in strictly increasing epochs of
their parents' times.

## Main results

* `getLastStakeModifier_of_stamped` — on a stamped chain the walk succeeds at every block.
* `generation_parent_epochs_ne` — without backdating across epochs, one generation per epoch.
* `stamped_regenerates_in_parent_epoch` — with it, two generations under one parent epoch.
-/

namespace ClamsPos

section Engine

variable {arrange : List Candidate → List Candidate} {params : CParams}
  {mapBlockIndex : BitVec 256 → Option CBlockIndex}

/-- Generation always reports a generated modifier. -/
theorem generateStakeModifier_eq_ok {v : List Candidate} {m₀ : UInt64} {start : Int}
    {m : UInt64} {f : Bool} (h : generateStakeModifier params mapBlockIndex v m₀ start = .ok (m, f)) :
    f = true := by
  unfold generateStakeModifier at h
  split at h <;> simp_all

/-- What a successful `ComputeNextStakeModifier` on a non-null block returns: the last
modifier, unchanged, while `pindexPrev` is in its epoch; a generated one after. -/
theorem computeNextStakeModifierBy_eq_ok {p : CBlockIndex} {ps : List CBlockIndex} {m : UInt64}
    {f : Bool} (h : computeNextStakeModifierBy arrange params mapBlockIndex (p :: ps) = .ok (m, f)) :
    ∃ M T, getLastStakeModifier (p :: ps) = .ok (M, T) ∧
      ((p.getBlockTime / params.nModifierInterval ≤ T / params.nModifierInterval ∧ m = M ∧
          f = false) ∨
        (T / params.nModifierInterval < p.getBlockTime / params.nModifierInterval ∧ f = true)) := by
  simp only [computeNextStakeModifierBy] at h
  split at h
  · rename_i M T hlast
    refine ⟨M, T, hlast, ?_⟩
    split at h
    · simp_all
    · exact .inr ⟨by omega, generateStakeModifier_eq_ok h⟩
  · cases h

end Engine

/-- `chain`, tip first, was built from genesis by `ComputeNextStakeModifier`: every block
carries the modifier and flag that a successful call on its `pprev` chain returned, the
genesis block those of the call on the null pointer. Each call may see its own block map. -/
inductive Stamped (params : CParams) : List CBlockIndex → Prop
  | nil : Stamped params []
  | cons {b : CBlockIndex} {pprevs : List CBlockIndex}
      (mapBlockIndex : BitVec 256 → Option CBlockIndex) :
      Stamped params pprevs →
      computeNextStakeModifier params mapBlockIndex pprevs =
        .ok (b.nStakeModifier, b.generatedStakeModifier) →
      Stamped params (b :: pprevs)

variable {params : CParams}

theorem Stamped.tail {b : CBlockIndex} {pprevs : List CBlockIndex}
    (h : Stamped params (b :: pprevs)) : Stamped params pprevs := by
  cases h with
  | cons _ hp _ => exact hp

/-- Every block of a stamped chain heads a stamped chain. -/
theorem Stamped.of_suffix {chain chain' : List CBlockIndex} (h : Stamped params chain)
    (hs : chain' <:+ chain) : Stamped params chain' := by
  induction chain with
  | nil => rwa [List.suffix_nil.mp hs]
  | cons b pprevs ih =>
    rcases List.suffix_cons_iff.mp hs with rfl | hs
    · exact h
    · exact ih h.tail hs

/-- The genesis block of a stamped chain carries modifier 0 and the generated flag. -/
theorem Stamped.genesis {b : CBlockIndex} (h : Stamped params [b]) :
    b.nStakeModifier = 0 ∧ b.generatedStakeModifier = true := by
  cases h with
  | cons _ _ hb =>
    simp only [computeNextStakeModifier, computeNextStakeModifierBy, Outcome.ok.injEq,
      Prod.mk.injEq] at hb
    exact ⟨hb.1.symm, hb.2.symm⟩

/-- A non-generating block of a stamped chain carries the modifier `GetLastStakeModifier`
finds from its parent. -/
theorem Stamped.not_generated {b p : CBlockIndex} {ps : List CBlockIndex}
    (h : Stamped params (b :: p :: ps)) (hb : b.generatedStakeModifier = false) :
    ∃ T, getLastStakeModifier (p :: ps) = .ok (b.nStakeModifier, T) := by
  cases h with
  | cons _ _ hc =>
    obtain ⟨M, T, hlast, ⟨-, rfl, -⟩ | ⟨-, hf⟩⟩ := computeNextStakeModifierBy_eq_ok hc
    · exact ⟨T, hlast⟩
    · simp_all

/-- A generating non-genesis block of a stamped chain: the last modifier before it was
generated in an earlier epoch than its parent's time. -/
theorem Stamped.generated {b p : CBlockIndex} {ps : List CBlockIndex}
    (h : Stamped params (b :: p :: ps)) (hb : b.generatedStakeModifier = true) :
    (lastModifierBlock p ps).getBlockTime / params.nModifierInterval <
      p.getBlockTime / params.nModifierInterval := by
  cases h with
  | cons _ _ hc =>
    obtain ⟨M, T, hlast, ⟨-, -, hf⟩ | ⟨hlt, -⟩⟩ := computeNextStakeModifierBy_eq_ok hc
    · simp_all
    · rwa [(getLastStakeModifier_eq_ok.mp hlast).2.2]

/-- On the chain ending at the tip of a stamped chain, the walk of `GetLastStakeModifier`
stops at the nearest generating ancestor-or-self, which carries the tip's modifier. -/
theorem Stamped.find_generated {b : CBlockIndex} {pprevs : List CBlockIndex}
    (h : Stamped params (b :: pprevs)) :
    (b :: pprevs).find? (·.generatedStakeModifier) = some (lastModifierBlock b pprevs) ∧
      (lastModifierBlock b pprevs).nStakeModifier = b.nStakeModifier := by
  induction pprevs generalizing b with
  | nil => simp [(Stamped.genesis h).2]
  | cons p ps ih =>
    cases hb : b.generatedStakeModifier
    · obtain ⟨T, hlast⟩ := h.not_generated hb
      obtain ⟨hfind, hmod⟩ := ih h.tail
      have hgen := getLastStakeModifier_eq_ok.mp hlast
      simpa [List.find?_cons, lastModifierBlock_cons, hb] using ⟨hfind, hgen.2.1⟩
    · simp [lastModifierBlock_cons, hb]

/-- On a chain built from genesis by `ComputeNextStakeModifier`, `GetLastStakeModifier`
succeeds at every block, stops at the nearest generating ancestor-or-self, and returns the
block's own modifier; a block that generates nothing carries its parent's modifier. -/
theorem getLastStakeModifier_of_stamped {chain pprevs : List CBlockIndex} {b : CBlockIndex}
    (hc : Stamped params chain) (hb : b :: pprevs <:+ chain) :
    ∃ g, (b :: pprevs).find? (·.generatedStakeModifier) = some g ∧
      lastModifierBlock b pprevs = g ∧
      getLastStakeModifier (b :: pprevs) = .ok (b.nStakeModifier, g.getBlockTime) ∧
      (b.generatedStakeModifier = false →
        ∃ p ps, pprevs = p :: ps ∧ b.nStakeModifier = p.nStakeModifier) := by
  have h := hc.of_suffix hb
  obtain ⟨hfind, hmod⟩ := h.find_generated
  refine ⟨_, hfind, rfl, getLastStakeModifier_eq_ok.mpr ⟨?_, hmod, rfl⟩, fun hgen => ?_⟩
  · simpa using List.find?_some hfind
  · cases pprevs with
    | nil => simp [(Stamped.genesis h).2] at hgen
    | cons p ps =>
      obtain ⟨T, hlast⟩ := h.not_generated hgen
      exact ⟨p, ps, rfl, ((getLastStakeModifier_eq_ok.mp hlast).2.1.symm.trans
        h.tail.find_generated.2)⟩

/-- The genesis block of the concrete chains below. -/
def genesisBlock : CBlockIndex := ⟨0, 0, 1, 11, 0, true, 0, false⟩

/-- The child of `genesisBlock`, stamped by `ComputeNextStakeModifier` on it. -/
def firstBlock : CBlockIndex := ⟨1, 1500, 2, 12, 0, false, 0, true⟩

/-- Every block of `[firstBlock, genesisBlock]` reports the modifier it carries. -/
theorem getLastStakeModifier_of_stamped_first :
    Stamped sampleParams [firstBlock, genesisBlock] ∧
      ∃ g, [firstBlock, genesisBlock].find? (·.generatedStakeModifier) = some g ∧
        lastModifierBlock firstBlock [genesisBlock] = g ∧
        getLastStakeModifier [firstBlock, genesisBlock] = .ok (firstBlock.nStakeModifier, g.getBlockTime) ∧
        (firstBlock.generatedStakeModifier = false →
          ∃ p ps, [genesisBlock] = p :: ps ∧ firstBlock.nStakeModifier = p.nStakeModifier) :=
  have h : Stamped sampleParams [firstBlock, genesisBlock] :=
    .cons (fun _ => none) (.cons (fun _ => none) .nil (by decide)) (by decide)
  ⟨h, getLastStakeModifier_of_stamped h (List.suffix_refl _)⟩

/-! ## Generation epochs -/

/-- When no generating block is stamped in an earlier modifier epoch than its parent, the epoch
of the last modifier's time never decreases up a stamped chain. -/
theorem Stamped.lastModifierEpoch_le {b : CBlockIndex} {pprevs : List CBlockIndex}
    (h : Stamped params (b :: pprevs))
    (hmono : ∀ c p ps, c :: p :: ps <:+ b :: pprevs → c.generatedStakeModifier = true →
      p.getBlockTime / params.nModifierInterval ≤ c.getBlockTime / params.nModifierInterval)
    {b' : CBlockIndex} {pprevs' : List CBlockIndex} (hs : b' :: pprevs' <:+ b :: pprevs) :
    (lastModifierBlock b' pprevs').getBlockTime / params.nModifierInterval ≤
      (lastModifierBlock b pprevs).getBlockTime / params.nModifierInterval := by
  induction pprevs generalizing b with
  | nil => cases List.suffix_cons_iff.mp hs <;> simp_all
  | cons p ps ih =>
    rcases List.suffix_cons_iff.mp hs with heq | hs
    · cases heq; exact le_rfl
    have hp := ih h.tail (fun c q qs hq => hmono c q qs (hq.trans (List.suffix_cons _ _))) hs
    rw [lastModifierBlock_cons]
    split
    · rename_i hb
      calc _ ≤ _ := hp
        _ ≤ p.getBlockTime / params.nModifierInterval := (h.generated hb).le
        _ ≤ b.getBlockTime / params.nModifierInterval := hmono b p ps (List.suffix_refl _) hb
    · exact hp

/-- Generations below one another: the parent of the lower generating block lies in an
earlier modifier epoch than the parent of the upper one. -/
theorem Stamped.parentEpoch_lt {b₁ p₁ b₂ p₂ : CBlockIndex} {ps₁ ps₂ : List CBlockIndex}
    (h : Stamped params (b₂ :: p₂ :: ps₂))
    (hmono : ∀ c p ps, c :: p :: ps <:+ b₂ :: p₂ :: ps₂ → c.generatedStakeModifier = true →
      p.getBlockTime / params.nModifierInterval ≤ c.getBlockTime / params.nModifierInterval)
    (hs : b₁ :: p₁ :: ps₁ <:+ p₂ :: ps₂) (hg₁ : b₁.generatedStakeModifier = true)
    (hg₂ : b₂.generatedStakeModifier = true) :
    p₁.getBlockTime / params.nModifierInterval < p₂.getBlockTime / params.nModifierInterval := by
  have hs₂ : b₁ :: p₁ :: ps₁ <:+ b₂ :: p₂ :: ps₂ := hs.trans (List.suffix_cons _ _)
  calc p₁.getBlockTime / params.nModifierInterval
      ≤ b₁.getBlockTime / params.nModifierInterval := hmono b₁ p₁ ps₁ hs₂ hg₁
    _ = (lastModifierBlock b₁ (p₁ :: ps₁)).getBlockTime / params.nModifierInterval := by
        rw [lastModifierBlock_cons, if_pos hg₁]
    _ ≤ (lastModifierBlock p₂ ps₂).getBlockTime / params.nModifierInterval :=
        h.tail.lastModifierEpoch_le
          (fun c p ps hq => hmono c p ps (hq.trans (List.suffix_cons _ _))) hs
    _ < p₂.getBlockTime / params.nModifierInterval := h.generated hg₂

/-- On a chain built by `ComputeNextStakeModifier` where no generating block is stamped in an
earlier modifier epoch than its parent, two distinct generating non-genesis blocks have parents
in different modifier epochs: the modifier is regenerated at most once per modifier interval. -/
theorem generation_parent_epochs_ne {chain : List CBlockIndex} (hc : Stamped params chain)
    (hmono : ∀ c p ps, c :: p :: ps <:+ chain → c.generatedStakeModifier = true →
      p.getBlockTime / params.nModifierInterval ≤ c.getBlockTime / params.nModifierInterval)
    {b₁ p₁ b₂ p₂ : CBlockIndex} {ps₁ ps₂ : List CBlockIndex}
    (h₁ : b₁ :: p₁ :: ps₁ <:+ chain) (h₂ : b₂ :: p₂ :: ps₂ <:+ chain)
    (hne : b₁ :: p₁ :: ps₁ ≠ b₂ :: p₂ :: ps₂) (hg₁ : b₁.generatedStakeModifier = true)
    (hg₂ : b₂.generatedStakeModifier = true) :
    p₁.getBlockTime / params.nModifierInterval ≠ p₂.getBlockTime / params.nModifierInterval := by
  rcases List.suffix_or_suffix_of_suffix h₁ h₂ with hs | hs
  · rcases List.suffix_cons_iff.mp hs with heq | hs
    · exact absurd heq hne
    exact (Stamped.parentEpoch_lt (hc.of_suffix h₂)
      (fun c p ps hq => hmono c p ps (hq.trans h₂)) hs hg₁ hg₂).ne
  · rcases List.suffix_cons_iff.mp hs with heq | hs
    · exact absurd heq.symm hne
    exact (Stamped.parentEpoch_lt (hc.of_suffix h₁)
      (fun c p ps hq => hmono c p ps (hq.trans h₁)) hs hg₂ hg₁).ne'

/-- A generating child of `firstBlock`, stamped after it. -/
def secondBlock : CBlockIndex := ⟨2, 1700, 3, 13, 0, true, 0, false⟩

/-- A child of `secondBlock` two epochs later, stamped without a new modifier. -/
def lateBlock : CBlockIndex := ⟨3, 2500, 4, 14, 0, false, 0, true⟩

/-- The child of `lateBlock`, which generates again. -/
def lateGeneratingBlock : CBlockIndex := ⟨4, 2600, 5, 15, 0, true, 0, false⟩

/-- A chain with two generations whose timestamps never go back. -/
def forwardChain : List CBlockIndex :=
  [lateGeneratingBlock, lateBlock, secondBlock, firstBlock, genesisBlock]

/-- The block map of `forwardChain`. -/
def forwardMap (h : BitVec 256) : Option CBlockIndex := forwardChain.find? (·.hashBlock = h)

/-- On `forwardChain` the parents of the two generations, `firstBlock` and `lateBlock`, lie in
epochs 2 and 4. -/
theorem generation_parent_epochs_ne_forward :
    Stamped sampleParams forwardChain ∧
      firstBlock.getBlockTime / sampleParams.nModifierInterval ≠
        lateBlock.getBlockTime / sampleParams.nModifierInterval := by
  set_option maxRecDepth 100000 in
  have hc : Stamped sampleParams forwardChain :=
    .cons forwardMap (.cons forwardMap (.cons forwardMap (.cons forwardMap
      (.cons forwardMap .nil (by decide)) (by decide)) (by decide)) (by decide)) (by decide)
  have hmono : ∀ c p ps, c :: p :: ps <:+ forwardChain → c.generatedStakeModifier = true →
      p.getBlockTime / sampleParams.nModifierInterval ≤
        c.getBlockTime / sampleParams.nModifierInterval := by
    intro c p ps hs hg
    simp only [forwardChain, List.suffix_cons_iff, List.cons.injEq, List.suffix_nil,
      reduceCtorEq, and_false, or_false] at hs
    rcases hs with ⟨rfl, rfl, -⟩ | ⟨rfl, rfl, -⟩ | ⟨rfl, rfl, -⟩ | ⟨rfl, rfl, -⟩ <;>
      decide
  exact ⟨hc, generation_parent_epochs_ne hc hmono
    (show [secondBlock, firstBlock, genesisBlock] <:+ forwardChain from
      ⟨[lateGeneratingBlock, lateBlock], rfl⟩)
    (show forwardChain <:+ forwardChain from List.suffix_refl _) (by decide) rfl rfl⟩

/-- A generating block stamped back into the epoch before its parent's. -/
def backdatedBlock : CBlockIndex := ⟨2, 900, 3, 13, 0, true, 0, false⟩

/-- The child of `backdatedBlock`, in the epoch of `firstBlock`. -/
def thirdBlock : CBlockIndex := ⟨3, 1600, 4, 14, 0, false, 0, true⟩

/-- The child of `thirdBlock`, which generates again. -/
def regeneratingBlock : CBlockIndex := ⟨4, 2000, 5, 15, 0, true, 0, false⟩

/-- The chain of the counterexample, tip first. -/
def backdatedChain : List CBlockIndex :=
  [regeneratingBlock, thirdBlock, backdatedBlock, firstBlock, genesisBlock]

/-- The block map of `backdatedChain`. -/
def backdatedMap (h : BitVec 256) : Option CBlockIndex := backdatedChain.find? (·.hashBlock = h)

/-- The engine stamps `backdatedChain`, on which `backdatedBlock` and `regeneratingBlock` both
generate while their parents `firstBlock` (time 1500) and `thirdBlock` (time 1600) share
modifier epoch 2: the modifier is regenerated twice within one modifier interval. -/
theorem stamped_regenerates_in_parent_epoch :
    Stamped sampleParams backdatedChain ∧
      [backdatedBlock, firstBlock, genesisBlock] <:+ backdatedChain ∧
      [regeneratingBlock, thirdBlock, backdatedBlock, firstBlock, genesisBlock] <:+ backdatedChain ∧
      [backdatedBlock, firstBlock, genesisBlock] ≠
        [regeneratingBlock, thirdBlock, backdatedBlock, firstBlock, genesisBlock] ∧
      backdatedBlock.generatedStakeModifier = true ∧
      regeneratingBlock.generatedStakeModifier = true ∧
      firstBlock.getBlockTime / sampleParams.nModifierInterval =
        thirdBlock.getBlockTime / sampleParams.nModifierInterval := by
  set_option maxRecDepth 100000 in
  refine ⟨.cons backdatedMap (.cons backdatedMap (.cons backdatedMap (.cons backdatedMap
    (.cons backdatedMap .nil (by decide)) (by decide)) (by decide)) (by decide)) (by decide),
    ⟨[regeneratingBlock, thirdBlock], rfl⟩, List.suffix_refl _, by decide, rfl, rfl, by decide⟩

end ClamsPos
