import BabaChain.CoinJoin
import BabaChain.Lib.OrdMap
import BabaChain.Lib.Runs

/-! How many rounds of mixing the outputs of a wallet have behind them, and the cache of what has been
found out about it. -/
namespace BabaChain.CoinJoin
namespace MixingRounds
open OrdMap
open Std (ExtTreeMap)

def MAX_COINJOIN_ROUNDS : ℕ := 16

/-- A transaction of the wallet, with what it takes from the wallet and gives to it. -/
structure CWalletTx where
  vin : List COutPoint
  vout : List CTxOut
  debit : ℤ
  credit : ℤ

/-- The transactions of a wallet. One spends older ones only. -/
structure CWallet where
  getWalletTx : uint256 → Option CWalletTx
  isMine : CTxOut → Bool
  age : uint256 → ℕ
  older : ∀ hash wtx, getWalletTx hash = some wtx → ∀ prevout ∈ wtx.vin,
    age prevout.hash < age hash

namespace CWallet
variable (w : CWallet)

def inputIsMine (prevout : COutPoint) : Bool :=
  match w.getWalletTx prevout.hash with
  | none => false
  | some wtx =>
    match wtx.vout[prevout.n.toNat]? with
    | none => false
    | some txout => w.isMine txout

/-- The rounds where nothing is looked up: no such output, one that does not count as mixed, or a
transaction that is no round. -/
def endsAt (outpoint : COutPoint) : Option ℤ :=
  match w.getWalletTx outpoint.hash with
  | none => some (-1)
  | some wtx =>
    match wtx.vout[outpoint.n.toNat]? with
    | none => some (-4)
    | some txout =>
      if isCollateralAmount txout.nValue then some (-3)
      else if !isDenominatedAmount txout.nValue then some (-2)
      else if wtx.vout.any fun out => !isDenominatedAmount out.nValue then some 0
      else if wtx.debit ≠ wtx.credit then some 0
      else none

/-- The inputs that are looked up. -/
def ownInputs (outpoint : COutPoint) : List COutPoint :=
  match w.getWalletTx outpoint.hash with
  | none => []
  | some wtx => wtx.vin.filter w.inputIsMine

/-- `nShortest` after the rounds of one more input. It is -10 until one with rounds is found. -/
def shorter (nShortest n : ℤ) : ℤ :=
  if 0 ≤ n ∧ (n < nShortest ∨ nShortest = -10) then n else nShortest

def afterShortest (nRoundsMax : ℕ) (nShortest : ℤ) : ℤ :=
  if nShortest = -10 then 0
  else if (nRoundsMax-1 : ℤ) ≤ nShortest then nRoundsMax
  else nShortest+1

abbrev Cache := ExtTreeMap COutPoint ℤ

/-- One more input is looked up, on the cache that the ones before have left. -/
def lookUp (f : Cache → COutPoint → ℤ × Cache) (looked : ℤ × Cache) (prevout : COutPoint) :
    ℤ × Cache :=
  let found := f looked.2 prevout
  (shorter looked.1 found.1, found.2)

/-- `GetRealOutpointCoinJoinRounds`, where the depth is counted down from `nRoundsMax`. -/
def getRealOutpointCoinJoinRounds (nRoundsMax : ℕ) : ℕ → Cache → COutPoint → ℤ × Cache
  | 0, cache, _ => (nRoundsMax-1, cache)
  | left+1, cache, outpoint =>
    match cache[outpoint]? with
    | some n => (n, cache)
    | none =>
      let cache := cache.insert outpoint (-10)
      match w.endsAt outpoint with
      | some n => (n, cache.insert outpoint n)
      | none =>
        let looked := (w.ownInputs outpoint).foldl
          (lookUp (getRealOutpointCoinJoinRounds nRoundsMax left)) (-10, cache)
        let n := afterShortest nRoundsMax looked.1
        (n, looked.2.insert outpoint n)

/-- A query from outside, on the cache that the ones before have left. -/
def query (nRoundsMax : ℕ) (cache : Cache) (outpoint : COutPoint) : ℤ × Cache :=
  w.getRealOutpointCoinJoinRounds nRoundsMax nRoundsMax cache outpoint

/-! ### The rounds -/

variable {w}

theorem age_ownInputs {outpoint prevout : COutPoint} (h : prevout ∈ w.ownInputs outpoint) :
    w.age prevout.hash < w.age outpoint.hash := by
  unfold ownInputs at h
  cases hwtx : w.getWalletTx outpoint.hash with
  | none =>
    rw [hwtx] at h
    exact absurd h List.not_mem_nil
  | some wtx =>
    rw [hwtx] at h
    exact w.older _ _ hwtx _ (List.mem_of_mem_filter h)

variable (w) in
/-- One more than the shortest chain behind the own inputs, up to the maximum. -/
def rounds (nRoundsMax : ℕ) (outpoint : COutPoint) : ℤ :=
  match w.endsAt outpoint with
  | some n => n
  | none =>
    let found := (w.ownInputs outpoint).attach.map fun prevout => rounds nRoundsMax prevout.1
    match (found.filter fun n => 0 ≤ n).min? with
    | none => 0
    | some n => min (n+1) nRoundsMax
termination_by w.age outpoint.hash
decreasing_by exact age_ownInputs prevout.2

theorem foldl_shorter (found : List ℤ) (a : ℤ) (ha : a = -10 ∨ 0 ≤ a) :
    found.foldl shorter a =
      if a = -10 then ((found.filter fun n => 0 ≤ n).min?).getD (-10)
      else (found.filter fun n => 0 ≤ n).foldl min a := by
  induction found generalizing a with
  | nil =>
    rcases ha with rfl | ha
    · rfl
    · rw [if_neg (by omega)]
      rfl
  | cons n found ih =>
    rw [List.foldl_cons]
    by_cases hn : 0 ≤ n
    · rw [List.filter_cons_of_pos (by simpa using hn), List.min?_cons', Option.getD_some,
        List.foldl_cons]
      rcases ha with rfl | ha
      · have hshorter : shorter (-10) n = n := if_pos ⟨hn, Or.inr rfl⟩
        rw [hshorter, ih n (Or.inr hn), if_pos rfl, if_neg (by omega)]
      · have hne : a ≠ -10 := by omega
        have hshorter : shorter a n = min a n := by
          unfold shorter
          split_ifs with hlt
          · omega
          · omega
        rw [hshorter, ih _ (Or.inr (by omega)), if_neg (by omega), if_neg hne]
    · have hshorter : shorter a n = a := if_neg fun h => hn h.1
      rw [hshorter, ih a ha, List.filter_cons_of_neg (by simpa using hn)]

/-- What the loop over the inputs finds is the shortest of their rounds. -/
theorem rounds_eq {nRoundsMax : ℕ} {outpoint : COutPoint} (hends : w.endsAt outpoint = none) :
    w.rounds nRoundsMax outpoint = afterShortest nRoundsMax
      (((w.ownInputs outpoint).map (w.rounds nRoundsMax)).foldl shorter (-10)) := by
  rw [rounds, hends, foldl_shorter _ _ (Or.inl rfl), if_pos rfl]
  dsimp only
  rw [List.attach_map_val]
  cases hmin : (((w.ownInputs outpoint).map (w.rounds nRoundsMax)).filter fun n => 0 ≤ n).min? with
  | none => rfl
  | some n =>
    have hn : 0 ≤ n := of_decide_eq_true (List.mem_filter.mp (List.min?_mem hmin)).2
    rw [Option.getD_some, afterShortest, if_neg (by omega)]
    dsimp only
    split_ifs with hmax
    · omega
    · omega

/-! ### The cache -/

variable {nRoundsMax left : ℕ} {cache cache' cache'' : Cache} {outpoint prevout : COutPoint}

/-- What has been added to a cache is right, and what was in it stays. -/
structure Extends (w : CWallet) (nRoundsMax : ℕ) (cache cache' : Cache) : Prop where
  added : ∀ (outpoint : COutPoint) (n : ℤ), cache'[outpoint]? = some n →
    cache[outpoint]? = some n ∨ n = w.rounds nRoundsMax outpoint
  kept : ∀ outpoint : COutPoint, cache'[outpoint]? = none → cache[outpoint]? = none

theorem Extends.refl (cache : Cache) : Extends w nRoundsMax cache cache :=
  ⟨fun _ _ h => Or.inl h, fun _ h => h⟩

theorem Extends.trans (h : Extends w nRoundsMax cache cache')
    (h' : Extends w nRoundsMax cache' cache'') : Extends w nRoundsMax cache cache'' := by
  refine ⟨fun outpoint n hn => ?_, fun outpoint hnone => h.kept _ (h'.kept _ hnone)⟩
  rcases h'.added outpoint n hn with hold | hright
  · exact h.added outpoint n hold
  · exact Or.inr hright

/-- The result takes the place of what was put into the cache during the computation. -/
theorem Extends.insert {n : ℤ}
    (h : Extends w nRoundsMax (cache.insert outpoint n) cache') :
    Extends w nRoundsMax cache (cache'.insert outpoint (w.rounds nRoundsMax outpoint)) := by
  refine ⟨fun other k hk => ?_, fun other hnone => ?_⟩
  · rw [getElem?_insert] at hk
    split_ifs at hk with heq
    · right
      rw [← heq]
      exact (Option.some.inj hk).symm
    · rcases h.added other k hk with hold | hright
      · rw [getElem?_insert, if_neg heq] at hold
        exact Or.inl hold
      · exact Or.inr hright
  · rw [getElem?_insert] at hnone
    split_ifs at hnone with heq
    have hold := h.kept other hnone
    rwa [getElem?_insert, if_neg heq] at hold

/-- What is in the cache for the outputs up to some age is right. -/
def RightUpTo (w : CWallet) (nRoundsMax : ℕ) (cache : Cache) (age : ℕ) : Prop :=
  ∀ (outpoint : COutPoint) (n : ℤ), cache[outpoint]? = some n → w.age outpoint.hash ≤ age →
    n = w.rounds nRoundsMax outpoint

variable (w) in
/-- Outputs that are looked up one behind the other, none of which is in the cache. -/
def Chain (cache : Cache) : ℕ → COutPoint → Prop
  | 0, _ => True
  | k+1, outpoint => cache[outpoint]? = none ∧ w.endsAt outpoint = none ∧
    ∃ prevout ∈ w.ownInputs outpoint, Chain cache k prevout

instance chainDecidable (cache : Cache) : ∀ k outpoint, Decidable (w.Chain cache k outpoint)
  | 0, _ => .isTrue trivial
  | k+1, outpoint =>
    have : DecidablePred fun prevout => w.Chain cache k prevout := chainDecidable cache k
    inferInstanceAs (Decidable (_ ∧ _ ∧ ∃ prevout ∈ w.ownInputs outpoint, _))

theorem Chain.mono {k : ℕ}
    (hcache : ∀ outpoint : COutPoint, cache'[outpoint]? = none → cache[outpoint]? = none)
    (h : w.Chain cache' k outpoint) : w.Chain cache k outpoint := by
  induction k generalizing outpoint with
  | zero => trivial
  | succ k ih =>
    obtain ⟨hnone, hends, prevout, hprevout, hchain⟩ := h
    exact ⟨hcache _ hnone, hends, prevout, hprevout, ih hchain⟩

/-- Where each input gets its rounds, on whatever the ones before have added, the loop finds the
shortest of them. -/
theorem foldl_lookUp {f : Cache → COutPoint → ℤ × Cache} {prevouts : List COutPoint}
    (hf : ∀ prevout ∈ prevouts, ∀ cache', Extends w nRoundsMax cache cache' →
      (f cache' prevout).1 = w.rounds nRoundsMax prevout ∧
        Extends w nRoundsMax cache' (f cache' prevout).2)
    (a : ℤ) (hext : Extends w nRoundsMax cache cache') :
    (prevouts.foldl (lookUp f) (a, cache')).1 =
        (prevouts.map (w.rounds nRoundsMax)).foldl shorter a ∧
      Extends w nRoundsMax cache (prevouts.foldl (lookUp f) (a, cache')).2 := by
  induction prevouts generalizing a cache' with
  | nil => exact ⟨rfl, hext⟩
  | cons prevout prevouts ih =>
    rw [List.forall_mem_cons] at hf
    obtain ⟨hfound, hext'⟩ := hf.1 cache' hext
    rw [List.foldl_cons, List.map_cons, List.foldl_cons, ← hfound]
    exact ih hf.2 _ (hext.trans hext')

/-- Older outputs are neither wrong in the cache nor added wrongly while a younger one is looked
up, and chains from them are no longer than the one from there. -/
theorem spec_older (hright : RightUpTo w nRoundsMax cache (w.age outpoint.hash))
    (hnone : cache[outpoint]? = none) (hends : w.endsAt outpoint = none)
    (hchain : ¬w.Chain cache (left+1) outpoint) (hprevout : prevout ∈ w.ownInputs outpoint)
    (hext : Extends w nRoundsMax (cache.insert outpoint (-10)) cache') :
    RightUpTo w nRoundsMax cache' (w.age prevout.hash) ∧ ¬w.Chain cache' left prevout := by
  have hage := age_ownInputs hprevout
  constructor
  · intro other n hn hother
    rcases hext.added other n hn with hold | hnew
    · have hne : outpoint ≠ other := by
        intro heq
        rw [heq] at hage
        omega
      rw [getElem?_insert, if_neg hne] at hold
      exact hright other n hold (by omega)
    · exact hnew
  · intro hchain'
    apply hchain
    refine ⟨hnone, hends, prevout, hprevout, hchain'.mono fun other hother => ?_⟩
    have hold := hext.kept other hother
    rw [getElem?_insert] at hold
    split_ifs at hold
    exact hold

/-- Where no chain reaches the maximal depth, the rounds are right, and so is what is added to the
cache. -/
theorem getRealOutpointCoinJoinRounds_spec
    (hright : RightUpTo w nRoundsMax cache (w.age outpoint.hash))
    (hchain : ¬w.Chain cache left outpoint) :
    (w.getRealOutpointCoinJoinRounds nRoundsMax left cache outpoint).1 =
        w.rounds nRoundsMax outpoint ∧
      Extends w nRoundsMax cache
        (w.getRealOutpointCoinJoinRounds nRoundsMax left cache outpoint).2 := by
  induction left generalizing cache outpoint with
  | zero => exact absurd trivial hchain
  | succ left ih =>
    rw [getRealOutpointCoinJoinRounds]
    cases hcached : cache[outpoint]? with
    | some n => exact ⟨hright outpoint n hcached le_rfl, Extends.refl cache⟩
    | none =>
      dsimp only
      cases hends : w.endsAt outpoint with
      | some n =>
        have hrounds : w.rounds nRoundsMax outpoint = n := by rw [rounds, hends]
        dsimp only
        rw [← hrounds]
        exact ⟨rfl, Extends.insert (Extends.refl _)⟩
      | none =>
        dsimp only
        have hinputs : ∀ prevout ∈ w.ownInputs outpoint, ∀ cache',
            Extends w nRoundsMax (cache.insert outpoint (-10)) cache' →
            (w.getRealOutpointCoinJoinRounds nRoundsMax left cache' prevout).1 =
                w.rounds nRoundsMax prevout ∧
              Extends w nRoundsMax cache'
                (w.getRealOutpointCoinJoinRounds nRoundsMax left cache' prevout).2 := by
          intro prevout hprevout cache' hext
          obtain ⟨hright', hchain'⟩ := spec_older hright hcached hends hchain hprevout hext
          exact ih hright' hchain'
        obtain ⟨hfound, hext⟩ := foldl_lookUp hinputs (-10) (Extends.refl _)
        rw [hfound, ← rounds_eq hends]
        exact ⟨rfl, hext.insert⟩

theorem RightUpTo.of_extends (hright : ∀ age, RightUpTo w nRoundsMax cache age)
    (hext : Extends w nRoundsMax cache cache') (age : ℕ) : RightUpTo w nRoundsMax cache' age := by
  intro other n hn hother
  rcases hext.added other n hn with hold | hnew
  · exact hright age other n hold hother
  · exact hnew

theorem outputs_of_right {outpoints : List COutPoint}
    (hright : ∀ age, RightUpTo w nRoundsMax cache age)
    (hshort : Runs.EveryStep (w.query nRoundsMax)
      (fun cache outpoint => ¬w.Chain cache nRoundsMax outpoint) cache outpoints) :
    Runs.outputs (w.query nRoundsMax) cache outpoints = outpoints.map (w.rounds nRoundsMax) := by
  induction outpoints generalizing cache with
  | nil => rfl
  | cons outpoint outpoints ih =>
    obtain ⟨hfound, hext⟩ := getRealOutpointCoinJoinRounds_spec (hright _) hshort.1
    have hrest := ih (RightUpTo.of_extends hright hext) hshort.2
    rw [Runs.outputs, List.map_cons, ← hfound]
    exact congrArg _ hrest

/-- Transactions 1 to 17, each of which spends the next one. -/
def seventeen : CWallet where
  getWalletTx hash :=
    if 1 ≤ hash.toNat ∧ hash.toNat ≤ 17 then
      some ⟨[⟨hash+1, 0⟩], [⟨COIN/1000+1, []⟩], 0, 0⟩
    else none
  isMine _ := true
  age hash := 18-hash.toNat
  older := by
    intro hash wtx hwtx prevout hmem
    split_ifs at hwtx with hhash
    cases hwtx
    rw [List.mem_singleton] at hmem
    subst hmem
    dsimp only
    rw [BitVec.toNat_add]
    have hone : (1 : uint256).toNat = 1 := rfl
    rw [hone]
    omega

end CWallet
end MixingRounds
end BabaChain.CoinJoin
