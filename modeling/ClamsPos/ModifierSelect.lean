import ClamsPos.ModifierChain

/-!
# One selection round as a least-hash pick

`SelectBlockFromCandidates` walks the candidates sorted by time and hash, skips those already
selected, takes the first unselected one, and from then on replaces its pick by a candidate of
strictly smaller selection hash until it meets a candidate past the stop time. Because the
list is sorted by time, the walk sees exactly the unselected candidates up to the stop time, or,
when the first unselected candidate already lies past it, that candidate alone; and the strict
comparison makes the pick the first of least hash among them.

## Main definitions

* `eligibleCandidates` — the blocks a round chooses among.
* `IsFirstLeastHash` — the first entry of least selection hash.

## Main results

* `selectLoop_of_isSome` — after a first pick the loop is a fold of the strict-`<` update over
  the unselected candidates up to the first one past the stop time.
* `isFirstLeastHash_foldl` — that fold ends at the first entry of least hash.
* `selectBlockFromCandidates_first_least_hash` — a round fails exactly when every candidate is
  selected, and otherwise picks the first eligible candidate of least hash.
-/

namespace ClamsPos

/-- The blocks a selection round chooses among: the unselected candidates up to the stop time,
or, when there is none, the earliest unselected candidate. -/
def eligibleCandidates (S : List (BitVec 256)) (stop : Int) (bs : List CBlockIndex) :
    List CBlockIndex :=
  if (bs.filter fun b => b.hashBlock ∉ S ∧ b.getBlockTime ≤ stop) = [] then
    (bs.filter fun b => b.hashBlock ∉ S).take 1
  else bs.filter fun b => b.hashBlock ∉ S ∧ b.getBlockTime ≤ stop

/-- `c` is the first entry of `E` of least selection hash under the previous modifier `M`:
every entry before it hashes strictly higher, every entry after it at least as high. -/
def IsFirstLeastHash (M : UInt64) (E : List CBlockIndex) (c : CBlockIndex) : Prop :=
  ∃ pre post, E = pre ++ c :: post ∧ (∀ d ∈ pre, selectionHash c M < selectionHash d M) ∧
    ∀ d ∈ post, selectionHash c M ≤ selectionHash d M

/-- The update of the loop after its first pick: a candidate replaces the pick only with a
strictly smaller selection hash. -/
def selectBetter (M : UInt64) (best pindex : CBlockIndex) : CBlockIndex :=
  if selectionHash pindex M < selectionHash best M then pindex else best

/-! ## The fold of the strict update -/

theorem IsFirstLeastHash.le {M : UInt64} {E : List CBlockIndex} {c : CBlockIndex}
    (h : IsFirstLeastHash M E c) : ∀ d ∈ E, selectionHash c M ≤ selectionHash d M := by
  obtain ⟨pre, post, rfl, hpre, hpost⟩ := h
  intro d hd
  simp only [List.mem_append, List.mem_cons] at hd
  rcases hd with hd | rfl | hd
  · exact BitVec.le_def.2 (BitVec.lt_def.1 (hpre d hd)).le
  · exact BitVec.le_refl _
  · exact hpost d hd

/-- The first entry of least hash is unique: of two such entries, the later one would hash
strictly above the earlier, which hashes at most as high as everything. -/
theorem IsFirstLeastHash.unique {M : UInt64} {E : List CBlockIndex} {c c' : CBlockIndex}
    (h : IsFirstLeastHash M E c) (h' : IsFirstLeastHash M E c') : c = c' := by
  have hle := h.le
  have hle' := h'.le
  obtain ⟨pre, post, hE, hpre, -⟩ := h
  obtain ⟨pre', post', hE', hpre', -⟩ := h'
  rcases List.append_eq_append_iff.1 (hE.symm.trans hE') with ⟨a, rfl, ha⟩ | ⟨a, rfl, ha⟩
  · cases a with
    | nil => exact (List.cons.inj ha).1
    | cons x a =>
      obtain rfl : c = x := (List.cons.inj ha).1
      exact absurd (hpre' c (by simp)) (BitVec.not_lt.2 (hle c' (by rw [hE']; simp)))
  · cases a with
    | nil => exact (List.cons.inj ha).1.symm
    | cons x a =>
      obtain rfl : c' = x := (List.cons.inj ha).1
      exact absurd (hpre c' (by simp)) (BitVec.not_lt.2 (hle' c (by rw [hE]; simp)))

theorem isFirstLeastHash_foldl (M : UInt64) (c : CBlockIndex) (D : List CBlockIndex) :
    IsFirstLeastHash M (c :: D) (D.foldl (selectBetter M) c) := by
  induction D using List.reverseRecOn with
  | nil => exact ⟨[], [], rfl, by simp, by simp⟩
  | append_singleton D d ih =>
    rw [List.foldl_append, List.foldl_cons, List.foldl_nil, selectBetter]
    split_ifs with hlt
    · refine ⟨c :: D, [], by simp, fun x hx => ?_, by simp⟩
      have := ih.le x hx
      simp only [BitVec.lt_def, BitVec.le_def] at hlt this ⊢
      omega
    · obtain ⟨pre, post, hE, hpre, hpost⟩ := ih
      refine ⟨pre, post ++ [d], by rw [← List.cons_append, hE]; simp, hpre, fun x hx => ?_⟩
      rcases List.mem_append.1 hx with hx | hx
      · exact hpost x hx
      · rw [List.mem_singleton.1 hx]
        exact BitVec.not_lt.1 hlt

/-! ## The loop -/

section Loop

variable {mapBlockIndex : BitVec 256 → Option CBlockIndex} (S : List (BitVec 256)) (stop : Int)
  (M : UInt64)

/-- After a first pick the loop folds `selectBetter` over the unselected candidates before the
first one past the stop time. -/
theorem selectLoop_of_isSome {bs : List CBlockIndex}
    (hmap : ∀ b ∈ bs, mapBlockIndex b.hashBlock = some b) (c : CBlockIndex) :
    selectLoop mapBlockIndex S stop M (bs.map fun b => (b.getBlockTime, b.hashBlock))
        (some (c, selectionHash c M)) =
      .ok (((bs.takeWhile fun b => b.getBlockTime ≤ stop).filter fun b => b.hashBlock ∉ S).foldl
        (selectBetter M) c) := by
  induction bs generalizing c with
  | nil => rfl
  | cons b bs ih =>
    have ih := ih fun b' hb' => hmap b' (.tail _ hb')
    simp only [List.map_cons, selectLoop, hmap b (.head _), Option.isSome_some, true_and]
    by_cases hstop : stop < b.getBlockTime
    · rw [if_pos hstop, List.takeWhile_cons_of_neg (by simpa using hstop)]
      rfl
    · rw [if_neg hstop, List.takeWhile_cons_of_pos (by simpa using hstop)]
      by_cases hS : b.hashBlock ∈ S
      · rw [if_pos hS, List.filter_cons_of_neg (by simpa using hS), ih]
      · rw [if_neg hS, List.filter_cons_of_pos (by simpa using hS), List.foldl_cons, selectBetter]
        split_ifs <;> apply ih

/-- Before a first pick the loop skips the selected candidates and picks the first
unselected one, whatever its time. -/
theorem selectLoop_none {bs : List CBlockIndex}
    (hmap : ∀ b ∈ bs, mapBlockIndex b.hashBlock = some b) :
    selectLoop mapBlockIndex S stop M (bs.map fun b => (b.getBlockTime, b.hashBlock)) none =
      match bs.dropWhile fun b => b.hashBlock ∈ S with
      | [] => .fail
      | u :: rest =>
        selectLoop mapBlockIndex S stop M (rest.map fun b => (b.getBlockTime, b.hashBlock))
          (some (u, selectionHash u M)) := by
  induction bs with
  | nil => rfl
  | cons b bs ih =>
    have ih := ih fun b' hb' => hmap b' (.tail _ hb')
    simp only [List.map_cons, selectLoop, hmap b (.head _), Option.isSome_none,
      Bool.false_eq_true, false_and, if_false]
    by_cases hS : b.hashBlock ∈ S
    · rw [if_pos hS, List.dropWhile_cons_of_pos (by simpa using hS), ih]
    · rw [if_neg hS, List.dropWhile_cons_of_neg (by simpa using hS)]

end Loop

/-! ## The eligible blocks of a sorted list -/

section Eligible

variable (S : List (BitVec 256)) (stop : Int)

theorem pairwise_time_of_sorted {bs : List CBlockIndex}
    (hsorted : (bs.map fun b => (b.getBlockTime, b.hashBlock)).Sorted candidateLe) :
    bs.Pairwise fun a b => a.getBlockTime ≤ b.getBlockTime :=
  (List.pairwise_map.1 hsorted).imp fun h => h.elim le_of_lt fun h => h.1.le

/-- On a list sorted by time, the blocks up to a time are a prefix. -/
theorem takeWhile_time_eq_filter {bs : List CBlockIndex}
    (hs : bs.Pairwise fun a b => a.getBlockTime ≤ b.getBlockTime) :
    (bs.takeWhile fun b => b.getBlockTime ≤ stop) =
      bs.filter fun b => b.getBlockTime ≤ stop := by
  induction bs with
  | nil => rfl
  | cons b bs ih =>
    rw [List.pairwise_cons] at hs
    by_cases hb : b.getBlockTime ≤ stop
    · rw [List.takeWhile_cons_of_pos (by simpa using hb),
        List.filter_cons_of_pos (by simpa using hb), ih hs.2]
    · rw [List.takeWhile_cons_of_neg (by simpa using hb),
        List.filter_cons_of_neg (by simpa using hb), eq_comm, List.filter_eq_nil_iff]
      exact fun x hx => by simpa using (lt_of_not_le hb).trans_le (hs.1 x hx)

variable {S} {bs rest : List CBlockIndex} {u : CBlockIndex}

theorem not_mem_of_dropWhile_eq_cons
    (hdrop : (bs.dropWhile fun b => b.hashBlock ∈ S) = u :: rest) : u.hashBlock ∉ S := by
  simpa [hdrop] using
    List.head_dropWhile_not (fun b => decide (b.hashBlock ∈ S)) bs (by simp [hdrop])

/-- A filter that keeps only unselected blocks sees nothing before the first unselected one. -/
theorem filter_of_dropWhile_eq_cons (hdrop : (bs.dropWhile fun b => b.hashBlock ∈ S) = u :: rest)
    (q : CBlockIndex → Bool) (hq : ∀ b, q b → b.hashBlock ∉ S) :
    bs.filter q = (u :: rest).filter q := by
  conv_lhs => rw [← List.takeWhile_append_dropWhile (fun b => decide (b.hashBlock ∈ S)) bs]
  rw [List.filter_append, hdrop, List.filter_eq_nil_iff.2, List.nil_append]
  exact fun b hb hqb => hq b hqb (by simpa using List.mem_takeWhile_imp hb)

/-- The eligible blocks of a list sorted by time whose first unselected block is `u`: `u`, then
the unselected blocks after it up to the first one past the stop time. -/
theorem eligibleCandidates_of_dropWhile
    (hdrop : (bs.dropWhile fun b => b.hashBlock ∈ S) = u :: rest)
    (hs : (u :: rest).Pairwise fun a b => a.getBlockTime ≤ b.getBlockTime) :
    eligibleCandidates S stop bs =
      u :: (rest.takeWhile fun b => b.getBlockTime ≤ stop).filter fun b => b.hashBlock ∉ S := by
  have hu := not_mem_of_dropWhile_eq_cons hdrop
  rw [takeWhile_time_eq_filter stop (List.pairwise_cons.1 hs).2, List.filter_filter,
    eligibleCandidates, filter_of_dropWhile_eq_cons hdrop _ fun _ h => (of_decide_eq_true h).1,
    filter_of_dropWhile_eq_cons hdrop _ fun _ h => of_decide_eq_true h]
  by_cases ht : u.getBlockTime ≤ stop
  · simp [List.filter_cons, hu, ht]
  · have hlate : ∀ b ∈ rest, ¬b.getBlockTime ≤ stop := fun b hb =>
      not_le.2 ((lt_of_not_le ht).trans_le ((List.pairwise_cons.1 hs).1 b hb))
    simp +contextual [List.filter_cons, hu, ht, hlate]

end Eligible

/-- `SelectBlockFromCandidates` over blocks sorted by time and hash, each in the block map under
its own hash, fails exactly when every block is already selected, and otherwise picks the first
eligible block of least selection hash. -/
theorem selectBlockFromCandidates_first_least_hash
    {mapBlockIndex : BitVec 256 → Option CBlockIndex} {bs : List CBlockIndex}
    (S : List (BitVec 256)) (stop : Int) (M : UInt64)
    (hmap : ∀ b ∈ bs, mapBlockIndex b.hashBlock = some b)
    (hsorted : (bs.map fun b => (b.getBlockTime, b.hashBlock)).Sorted candidateLe) :
    (selectBlockFromCandidates mapBlockIndex S stop M
        (bs.map fun b => (b.getBlockTime, b.hashBlock)) = .fail ↔ ∀ b ∈ bs, b.hashBlock ∈ S) ∧
      ((∃ b ∈ bs, b.hashBlock ∉ S) → ∃ c,
        selectBlockFromCandidates mapBlockIndex S stop M
          (bs.map fun b => (b.getBlockTime, b.hashBlock)) = .ok c ∧
        IsFirstLeastHash M (eligibleCandidates S stop bs) c) := by
  unfold selectBlockFromCandidates
  rw [selectLoop_none S stop M hmap]
  cases hdrop : bs.dropWhile fun b => b.hashBlock ∈ S with
  | nil =>
    have hall : ∀ b ∈ bs, b.hashBlock ∈ S := by simpa using List.dropWhile_eq_nil_iff.1 hdrop
    exact ⟨iff_of_true rfl hall, fun ⟨b, hb, hbS⟩ => absurd (hall b hb) hbS⟩
  | cons u rest =>
    have hsuffix : u :: rest <:+ bs := hdrop ▸ List.dropWhile_suffix _
    have hs : (u :: rest).Pairwise fun a b => a.getBlockTime ≤ b.getBlockTime :=
      ((List.pairwise_map.1 hsorted).imp fun h => h.elim le_of_lt fun h => h.1.le).sublist
        hsuffix.sublist
    have hu := not_mem_of_dropWhile_eq_cons hdrop
    dsimp only
    rw [selectLoop_of_isSome S stop M fun b hb => hmap b (hsuffix.subset (.tail _ hb)),
      eligibleCandidates_of_dropWhile stop hdrop hs]
    exact ⟨iff_of_false Outcome.noConfusion fun hall => hu (hall u (hsuffix.subset (.head _))),
      fun _ => ⟨_, rfl, isFirstLeastHash_foldl M u _⟩⟩

/-- A round that returns a block, over blocks sorted by time and hash and each in the block map
under its own hash, returns the first eligible block of least hash. -/
theorem isFirstLeastHash_of_selectBlockFromCandidates
    {mapBlockIndex : BitVec 256 → Option CBlockIndex} {bs : List CBlockIndex}
    {S : List (BitVec 256)} {stop : Int} {M : UInt64} {c : CBlockIndex}
    (hmap : ∀ b ∈ bs, mapBlockIndex b.hashBlock = some b)
    (hsorted : (bs.map fun b => (b.getBlockTime, b.hashBlock)).Sorted candidateLe)
    (hsel : selectBlockFromCandidates mapBlockIndex S stop M
      (bs.map fun b => (b.getBlockTime, b.hashBlock)) = .ok c) :
    IsFirstLeastHash M (eligibleCandidates S stop bs) c := by
  rw [selectBlockFromCandidates, selectLoop_none S stop M hmap] at hsel
  cases hdrop : bs.dropWhile fun b => b.hashBlock ∈ S with
  | nil => rw [hdrop] at hsel; cases hsel
  | cons u rest =>
    have hsuffix : u :: rest <:+ bs := hdrop ▸ List.dropWhile_suffix _
    rw [hdrop] at hsel
    dsimp only at hsel
    rw [selectLoop_of_isSome S stop M fun b hb => hmap b (hsuffix.subset (.tail _ hb))] at hsel
    cases hsel
    rw [eligibleCandidates_of_dropWhile stop hdrop
      ((pairwise_time_of_sorted hsorted).sublist hsuffix.sublist)]
    exact isFirstLeastHash_foldl M u _

set_option maxRecDepth 100000 in
/-- The blocks of `forwardChain` in time order, with genesis selected and the stop at 2600: four
blocks are eligible, and the round picks `lateBlock`, the one of least selection hash. -/
theorem selectBlockFromCandidates_first_least_hash_forward :
    eligibleCandidates [genesisBlock.hashBlock] 2600 forwardChain.reverse =
        [firstBlock, secondBlock, lateBlock, lateGeneratingBlock] ∧
      selectBlockFromCandidates forwardMap [genesisBlock.hashBlock] 2600 0
        (forwardChain.reverse.map fun b => (b.getBlockTime, b.hashBlock)) = .ok lateBlock ∧
      IsFirstLeastHash 0 (eligibleCandidates [genesisBlock.hashBlock] 2600 forwardChain.reverse)
        lateBlock := by
  have hsel : selectBlockFromCandidates forwardMap [genesisBlock.hashBlock] 2600 0
      (forwardChain.reverse.map fun b => (b.getBlockTime, b.hashBlock)) = .ok lateBlock := by
    decide
  obtain ⟨c, hc, hleast⟩ := (@selectBlockFromCandidates_first_least_hash forwardMap
    forwardChain.reverse [genesisBlock.hashBlock] 2600 0 (by decide) (by decide)).2
      ⟨firstBlock, by decide, by decide⟩
  rw [hsel, Outcome.ok.injEq] at hc
  exact ⟨by decide, hsel, hc ▸ hleast⟩

end ClamsPos
