import BabaChain.CoinbaseChainLock
import BabaChain.Lib.Runs

/-! The ChainLocks committed along a chain whose coinbases were checked. -/
namespace BabaChain.ChainLock
open MachineInt Runs

variable {G : Type*}

/-- The height of the ChainLock that a block commits to. -/
def committedHeight (pindex : CBlockIndex G) (diff : BitVec 32) : ℤ :=
  nHeight pindex-diff.toInt-1

/-- The heights committed along a chain, newest first. -/
def clHeights (p : Params) : CBlockIndex G → List ℤ
  | [] => []
  | b :: pprev =>
    match getNonNullCoinbaseChainlock p (b :: pprev) with
    | none => clHeights p pprev
    | some entry => committedHeight (b :: pprev) entry.2 :: clHeights p pprev

/-- A chain whose committed heights never decrease, name existing blocks, and
start only after the last block without a ChainLock. -/
structure GoodChain (p : Params) (P : CBlockIndex G) : Prop where
  nonempty : P ≠ []
  bounded : ∀ entry, getNonNullCoinbaseChainlock p P = some entry →
    0 ≤ committedHeight P entry.2 ∧ committedHeight P entry.2 ≤ nHeight P
  sorted : (clHeights p P).Pairwise (· ≥ ·)
  first : getNonNullCoinbaseChainlock p P = none → clHeights p P = []

/-- The cached entry is what the disk lookup of its block finds. -/
def CacheSound (p : Params) (cache : Cache G) : Prop :=
  ∀ entry, cache.cached_chainlock = some entry →
    getNonNullCoinbaseChainlock p cache.cached_pindex = some entry

variable {p : Params} {pprev : CBlockIndex G} {b : Block G} {cbTx : CCbTx G}

theorem cacheSound_empty : CacheSound p ({} : Cache G) :=
  fun _ h => absurd h (by simp only [reduceCtorEq, not_false_iff])

theorem nHeight_cons : nHeight (b :: pprev) = pprev.length := by
  simp only [nHeight, List.length_cons, Nat.cast_add, Nat.cast_one, add_sub_cancel_right]

theorem GoodChain.cons_none (h : GoodChain p pprev)
    (hprev : getNonNullCoinbaseChainlock p pprev = none)
    (hnew : getNonNullCoinbaseChainlock p (b :: pprev) = none) : GoodChain p (b :: pprev) := by
  have hnil : clHeights p (b :: pprev) = [] := by
    rw [clHeights, hnew]
    exact h.first hprev
  refine ⟨List.cons_ne_nil b pprev, fun entry he => ?_, ?_, fun _ => hnil⟩
  · rw [hnew] at he
    contradiction
  · rw [hnil]
    exact List.Pairwise.nil

theorem GoodChain.le_last (h : GoodChain p pprev) {entry : CBLSSignature G × BitVec 32}
    (he : getNonNullCoinbaseChainlock p pprev = some entry) :
    ∀ x ∈ clHeights p pprev, x ≤ committedHeight pprev entry.2 := by
  cases pprev with
  | nil => exact absurd rfl h.nonempty
  | cons c rest =>
    have hs := h.sorted
    rw [clHeights, he] at hs ⊢
    obtain ⟨hle, _⟩ := List.pairwise_cons.mp hs
    intro x hx
    rcases List.mem_cons.mp hx with rfl | hx
    · exact le_refl _
    · exact hle x hx

theorem GoodChain.cons_some (h : GoodChain p pprev) {entry : CBLSSignature G × BitVec 32}
    (hnew : getNonNullCoinbaseChainlock p (b :: pprev) = some entry)
    (hb : 0 ≤ committedHeight (b :: pprev) entry.2 ∧
      committedHeight (b :: pprev) entry.2 ≤ nHeight (b :: pprev))
    (hmono : ∀ prev, getNonNullCoinbaseChainlock p pprev = some prev →
      committedHeight pprev prev.2 ≤ committedHeight (b :: pprev) entry.2) :
    GoodChain p (b :: pprev) := by
  refine ⟨List.cons_ne_nil b pprev, fun e he => ?_, ?_, fun hn => ?_⟩
  · rw [hnew, Option.some.injEq] at he
    exact he ▸ hb
  · rw [clHeights, hnew]
    apply List.pairwise_cons.mpr
    refine ⟨fun x hx => ?_, h.sorted⟩
    cases hp : getNonNullCoinbaseChainlock p pprev with
    | none =>
      rw [h.first hp] at hx
      exact absurd hx List.not_mem_nil
    | some prev => exact (h.le_last hp x hx).trans (hmono prev hp)
  · rw [hnew] at hn
    contradiction

/-- The bound on the difference, read as `int`s: the new ChainLock is not older
and is for a block below. The sum wraps around for the largest difference. -/
theorem diff_bounded {d dPrev : BitVec 32} {n : ℤ} (hd : ¬dPrev+1 < d) (hn : n < intMax 32)
    (h0 : 0 ≤ n-dPrev.toInt-1) (hle : n-dPrev.toInt-1 ≤ n) :
    n-dPrev.toInt-1 ≤ n+1-d.toInt-1 ∧ n+1-d.toInt-1 ≤ n := by
  rw [intMax_32] at hn
  have h1 : (1 : BitVec 32).toNat = 1 := rfl
  rw [BitVec.not_lt, BitVec.le_def, BitVec.toNat_add, h1] at hd
  have hlt := dPrev.isLt
  have hlt' := d.isLt
  rw [BitVec.toInt_eq_toNat_cond] at h0 hle ⊢
  rw [BitVec.toInt_eq_toNat_cond]
  norm_num at hd h0 hle ⊢
  split_ifs at h0 hle ⊢ <;> omega

theorem getNonNull_cons (hash : uint256) (hv20 : (p.V20Height : ℤ) ≤ pprev.length)
    (hs : cbTx.bestCLSignature.isSome = true) :
    getNonNullCoinbaseChainlock p (⟨hash, some cbTx⟩ :: pprev) =
      some (cbTx.bestCLSignature, cbTx.bestCLHeightDiff) := by
  rw [getNonNullCoinbaseChainlock, nHeight_cons, if_neg (not_lt.mpr hv20)]
  simp only [hs, if_true]

theorem getNonNull_cons_eq_none {hash : uint256}
    (h : (pprev.length : ℤ) < p.V20Height ∨ cbTx.bestCLSignature = none) :
    getNonNullCoinbaseChainlock p (⟨hash, some cbTx⟩ :: pprev) = none := by
  rw [getNonNullCoinbaseChainlock, nHeight_cons]
  rcases h with h | h
  · rw [if_pos h]
  · simp only [h, Option.isSome_none, Bool.false_eq_true, if_false, ite_self]

theorem checkAgainstPrev_some {prev : CBLSSignature G × BitVec 32}
    (h : checkAgainstPrev cbTx (some prev) = .ok ()) :
    cbTx.bestCLSignature.isSome = true ∧ ¬prev.2+1 < cbTx.bestCLHeightDiff := by
  unfold checkAgainstPrev at h
  by_cases hn : cbTx.bestCLSignature.isNone = true
  · simp only [hn, if_true, reduceCtorEq] at h
  · refine ⟨Option.isSome_iff_ne_none.mpr fun hc => hn (by rw [hc]; rfl), fun hlt => ?_⟩
    simp only [hn, hlt, if_true, Bool.false_eq_true, if_false, reduceCtorEq] at h

theorem getAncestor_exists {pindex : CBlockIndex G} {h : ℤ} (h0 : 0 ≤ h) (hle : h ≤ nHeight pindex) :
    ∃ ancestor, getAncestor pindex h = some ancestor := by
  unfold getAncestor
  rw [if_neg (by omega)]
  exact ⟨_, rfl⟩

theorem curBlockCoinbaseCLHeight_eq {pindex : CBlockIndex G} {diff : BitVec 32}
    (hmax : nHeight pindex < intMax 32) (h0 : 0 ≤ committedHeight pindex diff)
    (hle : committedHeight pindex diff ≤ nHeight pindex) :
    curBlockCoinbaseCLHeight pindex diff = some (committedHeight pindex diff) := by
  unfold committedHeight at *
  unfold curBlockCoinbaseCLHeight
  rw [checked_of_inRange (inRange_of_between (by omega) (by omega)), Option.bind_some,
    checked_of_inRange (inRange_of_between (by omega) (by omega))]

theorem checkCbTx_version (h : checkCbTx p cbTx pprev = .ok ()) (hne : pprev ≠ []) :
    cbTx.nVersion < 3 ↔ (pprev.length : ℤ) < p.V20Height := by
  unfold checkCbTx at h
  rw [if_neg hne] at h
  have hlen : nHeight pprev+1 = pprev.length := by
    unfold nHeight
    omega
  simp only [hlen] at h
  split_ifs at h with h1 h2 h3 h4
  rw [not_or, not_and, not_and] at h4
  constructor
  · intro hlt
    by_contra hv
    exact h4.1 (not_lt.mp hv) hlt
  · intro hv
    exact BitVec.not_le.mp (h4.2 (not_le.mpr hv))

variable [DecidableEq G]

theorem CacheSound.prev_eq {cache : Cache G} (h : CacheSound p cache) :
    prevBlockCoinbaseChainlock p pprev cache = getNonNullCoinbaseChainlock p pprev := by
  unfold prevBlockCoinbaseChainlock
  by_cases heq : cache.cached_pindex = pprev
  · rw [if_pos heq]
    cases hc : cache.cached_chainlock with
    | none => rfl
    | some entry => rw [← heq, h entry hc]
  · rw [if_neg heq]

/-- With the named height between 0 and the block's own, the check reaches a
verdict, and what it accepts passed the rules that the previous block sets. -/
theorem judge_defined (best : BestChainLock G) (verify : ChainLockSig G → Bool)
    (pindex : CBlockIndex G) (prev : Option (CBLSSignature G × BitVec 32))
    (hpos : 0 < nHeight pindex) (hmax : nHeight pindex < intMax 32)
    (hbound : cbTx.bestCLSignature.isSome = true → checkAgainstPrev cbTx prev = .ok () →
      0 ≤ committedHeight pindex cbTx.bestCLHeightDiff ∧
        committedHeight pindex cbTx.bestCLHeightDiff ≤ nHeight pindex) :
    ∃ r, judgeChainlock best.toChainLockSig verify cbTx pindex prev = some r ∧
      (r = .ok true → cbTx.bestCLSignature.isSome = true ∧
        (cbTx.bestCLHeightDiff = 0 ∨ checkAgainstPrev cbTx prev = .ok ())) ∧
      (r = .ok false → cbTx.bestCLSignature = none ∧ checkAgainstPrev cbTx prev = .ok ()) := by
  unfold judgeChainlock
  by_cases hbest : best.nHeight = nHeight pindex-1 ∧ cbTx.bestCLHeightDiff = 0 ∧
      cbTx.bestCLSignature = best.sig
  · rw [if_pos hbest]
    obtain ⟨hh, hd, hs⟩ := hbest
    -- the best ChainLock is not the null one, whose height is -1
    have hsome : best.sig.isSome = true := best.wellFormed.resolve_left (by omega)
    exact ⟨_, rfl, fun _ => ⟨hs ▸ hsome, Or.inl hd⟩, fun h => by simp at h⟩
  rw [if_neg hbest]
  cases hprev : checkAgainstPrev cbTx prev with
  | error reason => exact ⟨_, rfl, fun h => by simp at h, fun h => by simp at h⟩
  | ok u =>
    dsimp only
    by_cases hs : cbTx.bestCLSignature.isSome = true
    · obtain ⟨h0, hle⟩ := hbound hs hprev
      rw [if_pos hs, curBlockCoinbaseCLHeight_eq hmax h0 hle]
      dsimp only
      split
      · exact ⟨_, rfl, fun _ => ⟨hs, Or.inr rfl⟩, fun h => by simp at h⟩
      · obtain ⟨ancestor, ha⟩ := getAncestor_exists h0 hle
        rw [ha]
        dsimp only
        split
        · exact ⟨_, rfl, fun _ => ⟨hs, Or.inr rfl⟩, fun h => by simp at h⟩
        · exact ⟨_, rfl, fun h => by simp at h, fun h => by simp at h⟩
    · rw [if_neg hs]
      split
      · exact ⟨_, rfl, fun h => by simp at h, fun h => by simp at h⟩
      · refine ⟨_, rfl, fun h => by simp at h, fun _ => ⟨?_, rfl⟩⟩
        exact Option.not_isSome_iff_eq_none.mp hs

/-- The first ChainLock of a chain names the height of an ancestor, or of the
block itself. -/
def FirstChainLockExists (p : Params) (s : Node G) : Input G → Prop
  | .restart => True
  | .connect _ _ hash cbTx pprev => pprev ∈ s.tree →
    getNonNullCoinbaseChainlock p pprev = none → cbTx.bestCLSignature.isSome = true →
      0 ≤ committedHeight (⟨hash, some cbTx⟩ :: pprev) cbTx.bestCLHeightDiff ∧
        committedHeight (⟨hash, some cbTx⟩ :: pprev) cbTx.bestCLHeightDiff ≤ pprev.length

/-- What every input is to achieve: a verdict without undefined behaviour, the
same one without the cache, and chains with committed heights in order. -/
def ChecksSound (p : Params) (s : Node G) (a : Input G) : Prop :=
  (step p s a).1 ≠ none ∧ (step p s a).1 = (step p {s with cache := {}} a).1 ∧
    ∀ P ∈ (step p s a).2.tree, (clHeights p P).Pairwise (· ≥ ·)

/-- Every accepted chain is good and the cache tells the truth. -/
def Sound (p : Params) (s : Node G) : Prop :=
  (∀ P ∈ s.tree, GoodChain p P) ∧ CacheSound p s.cache

/-- One check: a verdict, a cache that still tells the truth and, if the coinbase
is accepted, a good chain. -/
theorem checkBest_spec (best : BestChainLock G) (verify : ChainLockSig G → Bool) (hash : uint256)
    {cache : Cache G} (h : GoodChain p pprev) (hcache : CacheSound p cache)
    (hmax : (pprev.length : ℤ) < intMax 32) (hcb : checkCbTx p cbTx pprev = .ok ())
    (hfirst : getNonNullCoinbaseChainlock p pprev = none → cbTx.bestCLSignature.isSome = true →
      0 ≤ committedHeight (⟨hash, some cbTx⟩ :: pprev) cbTx.bestCLHeightDiff ∧
        committedHeight (⟨hash, some cbTx⟩ :: pprev) cbTx.bestCLHeightDiff ≤ pprev.length) :
    ∃ r cache', checkCbTxBestChainlock p best.toChainLockSig verify cbTx
        (⟨hash, some cbTx⟩ :: pprev) cache = some (r, cache') ∧
      CacheSound p cache' ∧ (r = .ok () → GoodChain p (⟨hash, some cbTx⟩ :: pprev)) := by
  have hver := checkCbTx_version hcb h.nonempty
  unfold checkCbTxBestChainlock
  by_cases hv : cbTx.nVersion < 3
  · -- before v20 no block commits to a ChainLock
    rw [if_pos hv]
    have hlow := hver.mp hv
    have hprev : getNonNullCoinbaseChainlock p pprev = none := by
      cases hp : pprev with
      | nil => rfl
      | cons c rest =>
        rw [hp, List.length_cons] at hlow
        rw [getNonNullCoinbaseChainlock, nHeight_cons, if_pos (by omega)]
    exact ⟨_, _, rfl, hcache, fun _ => h.cons_none hprev (getNonNull_cons_eq_none (Or.inl hlow))⟩
  have hv20 : (p.V20Height : ℤ) ≤ pprev.length := not_lt.mp fun hlt => hv (hver.mpr hlt)
  have hpos : 0 < pprev.length := List.length_pos_iff.mpr h.nonempty
  rw [if_neg hv, List.tail_cons, hcache.prev_eq]
  -- what the previous block allows: not older than its own ChainLock
  have horder : ∀ prev, getNonNullCoinbaseChainlock p pprev = some prev →
      cbTx.bestCLHeightDiff = 0 ∨ ¬prev.2+1 < cbTx.bestCLHeightDiff →
      committedHeight pprev prev.2 ≤
          committedHeight (⟨hash, some cbTx⟩ :: pprev) cbTx.bestCLHeightDiff ∧
        committedHeight (⟨hash, some cbTx⟩ :: pprev) cbTx.bestCLHeightDiff ≤ pprev.length := by
    intro prev hp hd
    obtain ⟨h0, hle⟩ := h.bounded prev hp
    have hd' : ¬prev.2+1 < cbTx.bestCLHeightDiff := by
      rcases hd with hd | hd
      · rw [hd]
        exact BitVec.not_lt_zero
      · exact hd
    unfold committedHeight at *
    rw [nHeight_cons]
    have hn : nHeight pprev+1 = pprev.length := by
      unfold nHeight
      omega
    obtain ⟨hlow, hhigh⟩ := diff_bounded hd' (by omega) h0 hle
    omega
  obtain ⟨r, hr, htrue, hfalse⟩ := judge_defined best verify (⟨hash, some cbTx⟩ :: pprev)
    (getNonNullCoinbaseChainlock p pprev)
    (by rw [nHeight_cons]; omega) (by rw [nHeight_cons]; exact hmax)
    (by
      intro hs hprev
      rw [nHeight_cons]
      cases hp : getNonNullCoinbaseChainlock p pprev with
      | none => exact hfirst hp hs
      | some prev =>
        rw [hp] at hprev
        obtain ⟨hlow, hhigh⟩ := horder prev hp (Or.inr (checkAgainstPrev_some hprev).2)
        exact ⟨(h.bounded prev hp).1.trans hlow, hhigh⟩)
  rw [hr, Option.map_some]
  cases r with
  | error reason => exact ⟨_, _, rfl, hcache, fun hc => by simp at hc⟩
  | ok cached =>
    cases cached with
    | false =>
      obtain ⟨hnone, hprev⟩ := hfalse rfl
      refine ⟨_, _, rfl, hcache, fun _ => h.cons_none ?_ (getNonNull_cons_eq_none (Or.inr hnone))⟩
      cases hp : getNonNullCoinbaseChainlock p pprev with
      | none => rfl
      | some prev =>
        rw [hp] at hprev
        have hs := (checkAgainstPrev_some hprev).1
        rw [hnone] at hs
        exact absurd hs Bool.false_ne_true
    | true =>
      obtain ⟨hs, hd⟩ := htrue rfl
      have hnew := @getNonNull_cons _ _ pprev _ hash hv20 hs
      refine ⟨_, _, rfl, ?_, fun _ => h.cons_some hnew ?_ ?_⟩
      · intro entry he
        rw [Option.some.injEq] at he
        rw [← he]
        exact hnew
      · rw [nHeight_cons]
        cases hp : getNonNullCoinbaseChainlock p pprev with
        | none => exact hfirst hp hs
        | some prev =>
          have hd' : cbTx.bestCLHeightDiff = 0 ∨ ¬prev.2+1 < cbTx.bestCLHeightDiff :=
            hd.imp id fun hprev => (checkAgainstPrev_some (hp ▸ hprev)).2
          obtain ⟨hlow, hhigh⟩ := horder prev hp hd'
          exact ⟨(h.bounded prev hp).1.trans hlow, hhigh⟩
      · intro prev hp
        exact (horder prev hp (hd.imp id fun hprev => (checkAgainstPrev_some (hp ▸ hprev)).2)).1

/-- The verdict does not depend on a cache that tells the truth. -/
theorem checkBest_cache_independent (best : ChainLockSig G) (verify : ChainLockSig G → Bool)
    (pindex : CBlockIndex G) {cache : Cache G} (hcache : CacheSound p cache) :
    (checkCbTxBestChainlock p best verify cbTx pindex cache).map Prod.fst =
      (checkCbTxBestChainlock p best verify cbTx pindex {}).map Prod.fst := by
  unfold checkCbTxBestChainlock
  by_cases hv : cbTx.nVersion < 3
  · rw [if_pos hv, if_pos hv]
    rfl
  · rw [if_neg hv, if_neg hv, hcache.prev_eq, cacheSound_empty.prev_eq, Option.map_map,
      Option.map_map]
    congr 1
    funext r
    cases r with
    | error reason => rfl
    | ok cached => cases cached <;> rfl

theorem step_connect_output {s : Node G} (best : BestChainLock G) (verify : ChainLockSig G → Bool)
    (hash : uint256) (hin : pprev ∈ s.tree ∧ (pprev.length : ℤ) < intMax 32)
    (hcb : checkCbTx p cbTx pprev = .ok ()) :
    (step p s (.connect best verify hash cbTx pprev)).1 =
      (checkCbTxBestChainlock p best.toChainLockSig verify cbTx
        (⟨hash, some cbTx⟩ :: pprev) s.cache).map Prod.fst := by
  simp only [step, if_pos hin, hcb]
  cases checkCbTxBestChainlock p best.toChainLockSig verify cbTx (⟨hash, some cbTx⟩ :: pprev)
      s.cache with
  | none => rfl
  | some r =>
    obtain ⟨v, cache⟩ := r
    cases v <;> rfl

theorem Sound.step {s : Node G} (h : Sound p s) {a : Input G} (hc : FirstChainLockExists p s a) :
    ChecksSound p s a ∧ Sound p (step p s a).2 := by
  have hkeep : (ChainLock.step p s a).1 ≠ none ∧
      (ChainLock.step p s a).1 = (ChainLock.step p {s with cache := {}} a).1 ∧
      Sound p (ChainLock.step p s a).2 := by
    cases a with
    | restart =>
      exact ⟨Option.some_ne_none _, rfl, h.1, cacheSound_empty⟩
    | connect best verify hash cbTx pprev =>
      by_cases hin : pprev ∈ s.tree ∧ (pprev.length : ℤ) < intMax 32
      · cases hcb : checkCbTx p cbTx pprev with
        | error reason =>
          -- a payload refused by its own checks never reaches the cache
          simp only [ChainLock.step, if_pos hin, hcb]
          exact ⟨Option.some_ne_none _, trivial, h⟩
        | ok u =>
          obtain ⟨r, cache', hr, hcache', hgood⟩ := checkBest_spec best verify hash (h.1 pprev hin.1)
            h.2 hin.2 hcb (hc hin.1)
          rw [step_connect_output best verify hash hin hcb,
            step_connect_output (s := {s with cache := {}}) best verify hash hin hcb]
          refine ⟨?_, checkBest_cache_independent _ _ _ h.2, ?_⟩
          · rw [hr, Option.map_some]
            exact Option.some_ne_none _
          · simp only [ChainLock.step, if_pos hin, hcb, hr]
            cases r with
            | error reason => exact ⟨h.1, hcache'⟩
            | ok u =>
              refine ⟨fun P hP => ?_, hcache'⟩
              rcases List.mem_cons.mp hP with rfl | hP
              · exact hgood rfl
              · exact h.1 P hP
      · -- a parent that is not in the tree connects nothing
        simp only [ChainLock.step, if_neg hin]
        exact ⟨Option.some_ne_none _, trivial, h⟩
  obtain ⟨hdef, hsame, hs⟩ := hkeep
  exact ⟨⟨hdef, hsame, fun P hP => (hs.1 P hP).sorted⟩, hs⟩

/-- In every run from chains without a ChainLock in which each chain's first one
names an existing block, the checks are defined, do not depend on the cache, and
the committed heights of accepted chains never decrease. -/
theorem coinbase_chainlock_checks_sound (p : Params) (init : List (CBlockIndex G))
    (hinit : ∀ P ∈ init, P ≠ [] ∧ clHeights p P = []) (inputs : List (Input G))
    (hc : EveryStep (step p) (FirstChainLockExists p) ⟨init, {}⟩ inputs) :
    EveryStep (step p) (ChecksSound p) ⟨init, {}⟩ inputs := by
  apply everyStep_of_invariant (Sound p) (fun s a hs ha => hs.step ha) ?_ hc
  refine ⟨fun P hP => ?_, cacheSound_empty⟩
  obtain ⟨hne, hnil⟩ := hinit P hP
  have hnone : getNonNullCoinbaseChainlock p P = none := by
    cases P with
    | nil => rfl
    | cons b rest =>
      cases hp : getNonNullCoinbaseChainlock p (b :: rest) with
      | none => rfl
      | some entry =>
        rw [clHeights, hp] at hnil
        contradiction
  refine ⟨hne, fun entry he => ?_, ?_, fun _ => hnil⟩
  · rw [hnone] at he
    contradiction
  · rw [hnil]
    exact List.Pairwise.nil

theorem inRange_one : InRange 32 1 := by decide

/-- Parameters under which every block after the first may commit to a ChainLock. -/
def earlyV20Params : Params :=
  { mainParams with
    DIP0008Height := ⟨1, inRange_one⟩
    V20Height := ⟨1, inRange_one⟩ }

def sampleGenesis : Block ℕ := ⟨1, none⟩

/-- A coinbase whose ChainLock lies `diff+1` blocks below its block. -/
def sampleCbTx (height : ℤ) (diff : BitVec 32) : CCbTx ℕ := ⟨3, height, diff, some 5⟩

def noChainLock : BestChainLock ℕ := ⟨⟨-1, 0, none⟩, Or.inl rfl⟩

theorem coinbase_chainlock_checks_sound_sample :
    EveryStep (step earlyV20Params) (ChecksSound earlyV20Params) ⟨[[sampleGenesis]], {}⟩
      [.connect noChainLock (fun _ => true) 2 (sampleCbTx 1 0) [sampleGenesis], .restart] :=
  coinbase_chainlock_checks_sound earlyV20Params [[sampleGenesis]]
    (by
      intro P hP
      rw [List.mem_singleton.mp hP]
      decide)
    [.connect noChainLock (fun _ => true) 2 (sampleCbTx 1 0) [sampleGenesis], .restart]
    ⟨fun _ _ _ => by decide, trivial, trivial⟩

/-- The first ChainLock of a chain may name a height below zero: its ancestor is
missing and is dereferenced. -/
theorem first_chainlock_misses_ancestor :
    (step earlyV20Params ⟨[[sampleGenesis]], {}⟩
      (.connect noChainLock (fun _ => false) 2 (sampleCbTx 1 1) [sampleGenesis])).1 = none ∧
    ¬EveryStep (step earlyV20Params) (ChecksSound earlyV20Params) ⟨[[sampleGenesis]], {}⟩
      [.connect noChainLock (fun _ => false) 2 (sampleCbTx 1 1) [sampleGenesis]] := by
  have hnone : (step earlyV20Params ⟨[[sampleGenesis]], {}⟩
      (.connect noChainLock (fun _ => false) 2 (sampleCbTx 1 1) [sampleGenesis])).1 = none := by
    decide
  exact ⟨hnone, fun h => h.1.1 hnone⟩

end BabaChain.ChainLock
