import ClamsPos.ModifierChain
import ClamsPos.ModifierSort

/-!
# Generation of a new stake modifier

When the last modifier is older than `pindexPrev`'s epoch, `ComputeNextStakeModifier`
collects the blocks of the selection interval, sorts them, and runs
`min 64 n` rounds of `SelectBlockFromCandidates`, round `r` widening the stop time by
section `r` and writing the entropy bit of its pick at bit `r` of the new modifier.

With every ancestor in the block map under its own distinct hash, each round finds a block:
fewer than `n` blocks are selected before it, so an unselected candidate is reached before
the loop may stop. The picks are distinct, and the modifier is the sum of their entropy
bits at their rounds.
-/

namespace ClamsPos

/-! ## Bits of the modifier -/

theorem or_two_pow_of_lt {x i : Nat} (h : x < 2 ^ i) : x ||| 2 ^ i = x + 2 ^ i := by
  apply Nat.eq_of_testBit_eq
  intro j
  rw [Nat.testBit_or, Nat.testBit_two_pow, Nat.add_comm x]
  rcases lt_trichotomy j i with hj | rfl | hj
  · rw [Nat.testBit_two_pow_add_gt hj]; simp [hj.ne']
  · rw [Nat.testBit_two_pow_add_eq, Nat.testBit_lt_two_pow h]; simp
  · have h1 : 2 ^ i + x < 2 ^ j := by
      have : 2 ^ (i + 1) ≤ 2 ^ j := Nat.pow_le_pow_right (by omega) hj
      rw [Nat.pow_succ] at this; omega
    rw [Nat.testBit_lt_two_pow h1, Nat.testBit_lt_two_pow (by omega)]; simp [hj.ne]

/-- `nStakeModifierNew |= ((uint64_t)bit) << nRound` adds `bit * 2 ^ nRound` when the bits
written so far lie below `nRound`. -/
theorem toNat_or_shiftLeft {acc : UInt64} {bit : UInt32} {r : Nat} (hr : r < 64)
    (hacc : acc.toNat < 2 ^ r) (hbit : bit.toNat ≤ 1) :
    (acc ||| bit.toUInt64 <<< r.toUInt64).toNat = acc.toNat + bit.toNat * 2 ^ r := by
  have hor : ∀ a b : UInt64, (a ||| b).toNat = a.toNat ||| b.toNat := fun a b => BitVec.toNat_or _ _
  have hshl : (bit.toUInt64 <<< r.toUInt64).toNat = bit.toNat * 2 ^ r := by
    have hr' : (UInt64.mod r.toUInt64 64).toNat = r := by
      show (r % 2 ^ 64) % 64 = r
      omega
    show (bit.toUInt64.toBitVec <<< (UInt64.mod r.toUInt64 64).toBitVec).toNat = _
    rw [BitVec.shiftLeft_eq', BitVec.toNat_shiftLeft]
    show (bit.toNat <<< (UInt64.mod r.toUInt64 64).toNat) % 2 ^ 64 = _
    rw [hr', Nat.shiftLeft_eq]
    apply Nat.mod_eq_of_lt
    calc bit.toNat * 2 ^ r ≤ 1 * 2 ^ r := Nat.mul_le_mul_right _ hbit
      _ < 2 ^ 64 := by rw [Nat.one_mul]; exact Nat.pow_lt_pow_right (by omega) hr
  rw [hor, hshl]
  rcases Nat.le_one_iff_eq_zero_or_eq_one.mp hbit with h | h <;> rw [h]
  · simp
  · simpa using or_two_pow_of_lt hacc

/-- The modifier whose bit `r` is the entropy bit of `s[r]`: `Σ r, bit(s[r]) * 2 ^ r`. -/
def entropyModifier (s : List CBlockIndex) : Nat :=
  (s.mapIdx fun r b => b.stakeEntropyBit.toNat * 2 ^ r).sum

theorem entropyModifier_concat (s : List CBlockIndex) (b : CBlockIndex) :
    entropyModifier (s ++ [b]) = entropyModifier s + b.stakeEntropyBit.toNat * 2 ^ s.length := by
  simp [entropyModifier, List.sum_append]

/-! ## Rounds and stop times -/

/-- The stop time of the rounds before `r`: the selection start plus sections `0, ..., r - 1`.
Round `r` selects up to `selectionStop params start (r + 1)`. -/
def selectionStop (params : CParams) (start : Int) (r : Nat) : Int :=
  start + (((List.finRange 64).take r).map (getStakeModifierSelectionIntervalSection params)).sum

theorem selectionStop_succ {params : CParams} {start : Int} {r : Nat} (hr : r < 64) :
    selectionStop params start (r + 1) =
      selectionStop params start r + getStakeModifierSelectionIntervalSection params ⟨r, hr⟩ := by
  have h : (List.finRange 64)[r]? = some ⟨r, hr⟩ := by
    rw [List.getElem?_eq_getElem (by simpa using hr)]
    simp [Fin.ext_iff]
  simp [selectionStop, List.take_succ, h, add_assoc]

theorem length_modifierRounds (n : Nat) : (modifierRounds n).length = min 64 n := by
  simp [modifierRounds]

/-- The rounds are `0, ..., min 64 n - 1`: every section index and shift is below 64. -/
theorem modifierRounds_val (n : Nat) : (modifierRounds n).map Fin.val = List.range (min 64 n) :=
  List.ext_getElem (by simp [length_modifierRounds]) fun i _ _ => by simp [modifierRounds]

theorem modifierRounds_drop {n j : Nat} (hj : j < min 64 n) :
    (modifierRounds n).drop j = ⟨j, by omega⟩ :: (modifierRounds n).drop (j + 1) := by
  rw [List.drop_eq_getElem_cons (by rwa [length_modifierRounds])]
  simp [modifierRounds]

/-! ## Candidates -/

theorem selectionIntervalStart_le (params : CParams) (pindexPrev : CBlockIndex) :
    selectionIntervalStart params pindexPrev ≤ pindexPrev.getBlockTime := by
  have hI : (params.nModifierInterval : Int) ≠ 0 := by
    have := params.nModifierInterval_pos; omega
  have := Int.ediv_mul_le pindexPrev.getBlockTime hI
  simp only [selectionIntervalStart]
  omega

theorem mem_collectCandidates {start : Int} {chain : List CBlockIndex} {item : Candidate}
    (h : item ∈ collectCandidates start chain) :
    ∃ b ∈ chain, item = (b.getBlockTime, b.hashBlock) := by
  obtain ⟨b, hb, rfl⟩ := List.mem_map.mp h
  exact ⟨b, (List.takeWhile_sublist _).subset hb, rfl⟩

theorem collectCandidates_hashes_nodup {start : Int} {chain : List CBlockIndex}
    (h : (chain.map (·.hashBlock)).Nodup) :
    ((collectCandidates start chain).map Prod.snd).Nodup := by
  simp only [collectCandidates, List.map_map]
  exact h.sublist ((List.takeWhile_sublist _).map _)

theorem collectCandidates_cons {start : Int} {b : CBlockIndex} {rest : List CBlockIndex}
    (h : start ≤ b.getBlockTime) :
    collectCandidates start (b :: rest) =
      (b.getBlockTime, b.hashBlock) :: collectCandidates start rest := by
  simp [collectCandidates, List.takeWhile_cons, h]

/-! ## One selection round -/

section Select

variable {mapBlockIndex : BitVec 256 → Option CBlockIndex} {stop : Int} {prev : UInt64}

/-- `SelectBlockFromCandidates` reads its selected map only through membership. -/
theorem selectLoop_congr {sel sel' : List (BitVec 256)} (h : ∀ x, x ∈ sel ↔ x ∈ sel')
    (l : List Candidate) (best : Option (CBlockIndex × BitVec 256)) :
    selectLoop mapBlockIndex sel stop prev l best = selectLoop mapBlockIndex sel' stop prev l best := by
  induction l generalizing best with
  | nil => rfl
  | cons item rest ih => simp only [selectLoop, h, ih]

/-- The loop of `SelectBlockFromCandidates` picks a block with property `P` outside the
selected map, when every candidate is indexed under its hash by a block with `P`, and a
block is already chosen or some candidate is unselected. -/
theorem selectLoop_ok {P : CBlockIndex → Prop} {sel : List (BitVec 256)} {l : List Candidate}
    {best : Option (CBlockIndex × BitVec 256)}
    (hl : ∀ item ∈ l, ∃ b, mapBlockIndex item.2 = some b ∧ P b ∧ b.hashBlock = item.2)
    (hbest : (∃ b h, best = some (b, h) ∧ P b ∧ b.hashBlock ∉ sel) ∨
      (best = none ∧ ∃ item ∈ l, item.2 ∉ sel)) :
    ∃ b, selectLoop mapBlockIndex sel stop prev l best = .ok b ∧ P b ∧ b.hashBlock ∉ sel := by
  induction l generalizing best with
  | nil =>
    rcases hbest with ⟨b, h, rfl, hb⟩ | ⟨-, item, hitem, -⟩
    · exact ⟨b, rfl, hb⟩
    · simp at hitem
  | cons item rest ih =>
    obtain ⟨p, hp, hP, hhash⟩ := hl item (List.mem_cons_self _ _)
    have hrest := fun i hi => hl i (List.mem_cons_of_mem _ hi)
    simp only [selectLoop, hp]
    split
    next hbreak =>
      rcases hbest with ⟨b, h, rfl, hb⟩ | ⟨rfl, -⟩
      · exact ⟨b, rfl, hb⟩
      · simp at hbreak
    split
    · refine ih hrest ?_
      rcases hbest with hb | ⟨rfl, i, hi, hfree⟩
      · exact .inl hb
      rcases List.mem_cons.mp hi with rfl | hi
      · exact absurd (hhash ▸ ‹p.hashBlock ∈ sel›) hfree
      · exact .inr ⟨rfl, i, hi, hfree⟩
    split
    · split
      · exact ih hrest (.inl ⟨p, _, rfl, hP, ‹_›⟩)
      · exact ih hrest (.inl (hbest.resolve_right fun h => nomatch h.1))
    · exact ih hrest (.inl ⟨p, _, rfl, hP, ‹_›⟩)

end Select

/-! ## The selection rounds -/

section Rounds

variable {params : CParams} {mapBlockIndex : BitVec 256 → Option CBlockIndex}
  {chain : List CBlockIndex} {v : List Candidate} {prev : UInt64} {start : Int}

variable (params mapBlockIndex chain v prev start) in
/-- `done` holds the picks of rounds `0, ..., done.length - 1`: blocks of `chain` with
distinct hashes, round `r` picking `done[r]` over the candidates not among the picks before
it, up to the stop time of round `r`. -/
def SelectedPrefix (done : List CBlockIndex) : Prop :=
  (∀ b ∈ done, b ∈ chain) ∧ (done.map (·.hashBlock)).Nodup ∧
    ∀ r (hr : r < done.length), selectBlockFromCandidates mapBlockIndex
      ((done.take r).map (·.hashBlock)) (selectionStop params start (r + 1)) prev v = .ok done[r]

theorem SelectedPrefix.nil : SelectedPrefix params mapBlockIndex chain v prev start [] :=
  ⟨by simp, by simp, by simp⟩

/-- One more round: while fewer blocks are selected than there are candidates, the round
picks a block of `chain` not selected before. -/
theorem SelectedPrefix.snoc (hmap : ∀ b ∈ chain, mapBlockIndex b.hashBlock = some b)
    (hv : ∀ item ∈ v, ∃ b ∈ chain, item.2 = b.hashBlock) (hvnodup : (v.map Prod.snd).Nodup)
    {done : List CBlockIndex} (h : SelectedPrefix params mapBlockIndex chain v prev start done)
    (hlt : done.length < v.length) :
    ∃ b, selectBlockFromCandidates mapBlockIndex (done.map (·.hashBlock))
        (selectionStop params start (done.length + 1)) prev v = .ok b ∧
      SelectedPrefix params mapBlockIndex chain v prev start (done ++ [b]) := by
  have hfree : ∃ item ∈ v, item.2 ∉ done.map (·.hashBlock) := by
    by_contra hall
    push_neg at hall
    have hsub : v.map Prod.snd ⊆ done.map (·.hashBlock) := fun x hx => by
      obtain ⟨item, hi, rfl⟩ := List.mem_map.mp hx
      exact hall item hi
    have := (List.subperm_of_subset hvnodup hsub).length_le
    simp only [List.length_map] at this
    omega
  obtain ⟨b, hsel, hbchain, hbfree⟩ := @selectLoop_ok mapBlockIndex
      (selectionStop params start (done.length + 1)) prev (· ∈ chain) _ _ none
    (fun item hi => by
      obtain ⟨b, hb, hh⟩ := hv item hi
      exact ⟨b, hh ▸ hmap b hb, hb, hh.symm⟩) (.inr ⟨rfl, hfree⟩)
  refine ⟨b, hsel, fun c hc => ?_, ?_, fun r hr => ?_⟩
  · rcases List.mem_append.mp hc with hc | hc
    · exact h.1 c hc
    · rwa [List.mem_singleton.mp hc]
  · rw [List.map_append, List.map_singleton]
    exact List.nodup_append.mpr ⟨h.2.1, List.nodup_singleton _,
      fun x hx hy => hbfree (List.mem_singleton.mp hy ▸ hx)⟩
  · rw [List.length_append, List.length_singleton] at hr
    rcases Nat.lt_or_ge r done.length with hr' | hr'
    · rw [List.take_append_of_le_length hr'.le, List.getElem_append_left hr']
      exact h.2.2 r hr'
    · obtain rfl : r = done.length := by omega
      simpa using hsel

/-- The rounds from `done.length` on run to the end: they select `min 64 v.length` distinct
blocks in all, and the modifier they return packs their entropy bits. -/
theorem selectionRounds_run (hmap : ∀ b ∈ chain, mapBlockIndex b.hashBlock = some b)
    (hv : ∀ item ∈ v, ∃ b ∈ chain, item.2 = b.hashBlock) (hvnodup : (v.map Prod.snd).Nodup)
    (hbits : ∀ b ∈ chain, b.stakeEntropyBit.toNat ≤ 1) (m : Nat) :
    ∀ (done : List CBlockIndex) (acc : UInt64),
      SelectedPrefix params mapBlockIndex chain v prev start done →
      acc.toNat = entropyModifier done → entropyModifier done < 2 ^ done.length →
      done.length + m = min 64 v.length →
      ∃ s nStakeModifierNew, SelectedPrefix params mapBlockIndex chain v prev start s ∧
        s.length = min 64 v.length ∧ entropyModifier s < 2 ^ s.length ∧
        selectionRounds params mapBlockIndex v prev ((modifierRounds v.length).drop done.length)
          (selectionStop params start done.length) ((done.map (·.hashBlock)).reverse) acc =
          .ok nStakeModifierNew ∧ nStakeModifierNew.toNat = entropyModifier s := by
  induction m with
  | zero =>
    intro done acc h hacc hbound hlen
    refine ⟨done, acc, h, by omega, hbound, ?_, hacc⟩
    rw [List.drop_eq_nil_of_le (by rw [length_modifierRounds]; omega), selectionRounds]
  | succ m ih =>
    intro done acc h hacc hbound hlen
    have hj : done.length < min 64 v.length := by omega
    obtain ⟨b, hsel, h'⟩ := h.snoc hmap hv hvnodup (by omega)
    have hb : b.stakeEntropyBit.toNat ≤ 1 := hbits b (h'.1 b (by simp))
    have hacc' : (acc ||| b.stakeEntropyBit.toUInt64 <<< done.length.toUInt64).toNat =
        entropyModifier (done ++ [b]) := by
      rw [toNat_or_shiftLeft (by omega) (hacc ▸ hbound) hb, hacc, entropyModifier_concat]
    have hbound' : entropyModifier (done ++ [b]) < 2 ^ (done ++ [b]).length := by
      have : b.stakeEntropyBit.toNat * 2 ^ done.length ≤ 1 * 2 ^ done.length :=
        Nat.mul_le_mul_right _ hb
      rw [entropyModifier_concat, List.length_append, List.length_singleton, Nat.pow_succ]
      omega
    have hlen' : (done ++ [b]).length + m = min 64 v.length := by
      rw [List.length_append, List.length_singleton]; omega
    obtain ⟨s, acc'', hs, hslen, hsbound, hrun, hacc''⟩ := ih (done ++ [b]) _ h' hacc' hbound' hlen'
    refine ⟨s, acc'', hs, hslen, hsbound, ?_, hacc''⟩
    have hrev : selectBlockFromCandidates mapBlockIndex (done.map (·.hashBlock)).reverse
        (selectionStop params start (done.length + 1)) prev v = .ok b :=
      (selectLoop_congr (fun x => List.mem_reverse) _ _).trans hsel
    rw [modifierRounds_drop hj, selectionRounds, ← selectionStop_succ, hrev]
    simpa using hrun

end Rounds

/-- Generation, once `ComputeNextStakeModifier` passes its same-epoch return, on a chain whose
block map holds every ancestor under its own distinct hash and whose entropy bits are 0 or 1.
`pindexPrev` is one of the `n` candidates. The rounds are `0, ..., min 64 n - 1`, and all of
them select: round `r` picks `s[r]` over the candidates not among `s[0], ..., s[r - 1]`, up
to the selection start plus sections `0, ..., r`. The picks are distinct, and the call
returns `true`, the generated flag and the modifier `Σ r, bit(s[r]) * 2 ^ r < 2 ^ min 64 n`. -/
theorem computeNextStakeModifier_generates {params : CParams}
    {mapBlockIndex : BitVec 256 → Option CBlockIndex} {pindexPrev : CBlockIndex}
    {pprevs : List CBlockIndex} {nStakeModifier : UInt64} {nModifierTime : Int}
    (hmap : ∀ b ∈ pindexPrev :: pprevs, mapBlockIndex b.hashBlock = some b)
    (hnodup : ((pindexPrev :: pprevs).map (·.hashBlock)).Nodup)
    (hbits : ∀ b ∈ pindexPrev :: pprevs, b.stakeEntropyBit.toNat ≤ 1)
    (hlast : getLastStakeModifier (pindexPrev :: pprevs) = .ok (nStakeModifier, nModifierTime))
    (hepoch : nModifierTime / params.nModifierInterval <
      pindexPrev.getBlockTime / params.nModifierInterval) :
    let start := selectionIntervalStart params pindexPrev
    let candidates := collectCandidates start (pindexPrev :: pprevs)
    (pindexPrev.getBlockTime, pindexPrev.hashBlock) ∈ candidates ∧
      (modifierRounds (sortCandidates candidates).length).map Fin.val =
        List.range (min 64 candidates.length) ∧
      ∃ (s : List CBlockIndex) (nStakeModifierNew : UInt64),
        s.length = min 64 candidates.length ∧ (s.map (·.hashBlock)).Nodup ∧
        (∀ r (hr : r < s.length), selectBlockFromCandidates mapBlockIndex
          ((s.take r).map (·.hashBlock)) (selectionStop params start (r + 1)) nStakeModifier
          (sortCandidates candidates) = .ok s[r]) ∧
        computeNextStakeModifier params mapBlockIndex (pindexPrev :: pprevs) =
          .ok (nStakeModifierNew, true) ∧
        nStakeModifierNew.toNat = entropyModifier s ∧ entropyModifier s < 2 ^ s.length := by
  intro start candidates
  have hperm := sortCandidates_perm candidates
  have hlen : (sortCandidates candidates).length = candidates.length := hperm.length_eq
  have hv : ∀ item ∈ sortCandidates candidates,
      ∃ b ∈ pindexPrev :: pprevs, item.2 = b.hashBlock := fun item hi => by
    obtain ⟨b, hb, rfl⟩ := mem_collectCandidates (hperm.subset hi)
    exact ⟨b, hb, rfl⟩
  have hvnodup := (hperm.map Prod.snd).nodup_iff.mpr (collectCandidates_hashes_nodup hnodup)
  obtain ⟨s, m, hs, hslen, hbound, hrun, hm⟩ := @selectionRounds_run _ _ _ _ nStakeModifier
    start hmap hv hvnodup hbits (min 64 (sortCandidates candidates).length) [] 0
    SelectedPrefix.nil rfl (by simp [entropyModifier]) (by simp)
  refine ⟨?_, by rw [modifierRounds_val, hlen], s, m, by rw [hslen, hlen], hs.2.1, hs.2.2, ?_,
    hm, hbound⟩
  · rw [show candidates = _ from collectCandidates_cons (selectionIntervalStart_le params pindexPrev)]
    exact List.mem_cons_self _ _
  · have hstart : selectionStop params start 0 = start := by simp [selectionStop]
    rw [List.length_nil, List.drop_zero, hstart, List.map_nil, List.reverse_nil] at hrun
    simp only [computeNextStakeModifier, computeNextStakeModifierBy, hlast]
    rw [if_neg (by omega), generateStakeModifier, hrun]

/-- The child of `firstBlock` generates from both blocks of `[firstBlock, genesisBlock]`. -/
theorem computeNextStakeModifier_generates_first :
    ∃ (s : List CBlockIndex) (nStakeModifierNew : UInt64), s.length = 2 ∧
      computeNextStakeModifier sampleParams backdatedMap [firstBlock, genesisBlock] =
        .ok (nStakeModifierNew, true) ∧
      nStakeModifierNew.toNat = entropyModifier s := by
  set_option maxRecDepth 100000 in
  obtain ⟨-, -, s, m, hlen, -, -, hok, hm, -⟩ := @computeNextStakeModifier_generates
    sampleParams backdatedMap firstBlock [genesisBlock] 0 0 (by decide) (by decide) (by decide)
    (by decide) (by decide)
  exact ⟨s, m, hlen.trans (by decide), hok, hm⟩

end ClamsPos
