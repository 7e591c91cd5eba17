import BabaChain.EhfSignals

/-! The signals of a chain as its blocks alone determine them, and which chains
can be accepted. -/
namespace BabaChain.MNHF
open OrdMap
open Std (ExtTreeMap)

variable {Sig PK : Type} (K : Encoding Sig) (p : Consensus)

/-- The bits that a block signals, whether or not it may. -/
def blockSignals (block : CBlock) : List UInt8 := block.vtx.tail.filterMap (extractEHFSignal K)

def unexpired (pindexPrev : CBlockIndex) (signals : Signals) : Signals :=
  signals.filter fun bit height =>
    match getAncestor pindexPrev height with
    | none => false
    | some signal_pindex => !expired p signal_pindex bit

/-- The signals of a chain: those of its last block, and those from before that
have not expired. -/
def signalsOf : CBlockIndex → Signals
  | [] => ∅
  | block :: pprev =>
    if deploymentActiveAt (block :: pprev) p.V20Height = false then
      ∅
    else
      insertSignals (unexpired p pprev (signalsOf pprev)) (nHeight (block :: pprev))
        (blockSignals K block)

/-- The signals that the next block must not repeat. -/
def stageOf (pindexPrev : CBlockIndex) : Signals :=
  if deploymentActiveAfter pindexPrev p.V20Height = false then ∅
  else unexpired p pindexPrev (signalsOf K p pindexPrev)

/-- Every block since v20 signals what it may: bits in range and open to
masternodes, none twice, and none that a signal still stands for. -/
def Admissible : CBlockIndex → Prop
  | [] => True
  | block :: pprev =>
    deploymentActiveAt (block :: pprev) p.V20Height = true →
      Admissible pprev ∧ (blockSignals K block).Nodup ∧ ∀ bit ∈ blockSignals K block,
        isValidMNActivation p bit (getMedianTimePast (block :: pprev)) = .ok true ∧
          bit ∉ stageOf K p pprev

/-- No block before v20 signals. -/
def QuietBeforeV20 (pindex : CBlockIndex) : Prop :=
  ∀ block pprev, block :: pprev <:+ pindex →
    deploymentActiveAt (block :: pprev) p.V20Height = false → blockSignals K block = []

/-- A block of the chain that signalled a bit, and is the last one or signalled it
for a deployment that had started. -/
structure StandsFor (pindex : CBlockIndex) (bit : UInt8) (a : CBlockIndex) : Prop where
  suffix : a <:+ pindex
  signals : ∃ block pprev, a = block :: pprev ∧ bit ∈ blockSignals K block
  unexpired : a = pindex ∨ expired p a bit = false

variable {K p} {pindex pprev a : CBlockIndex} {block : CBlock} {bit : UInt8} {height : ℤ}

theorem nHeight_cons : nHeight (block :: pprev) = nHeight pprev+1 := by
  unfold nHeight
  rw [List.length_cons]
  omega

theorem activeAt_cons (height : ℤ) :
    deploymentActiveAt (block :: pprev) height = deploymentActiveAfter pprev height := by
  rw [deploymentActiveAt, deploymentActiveAfter, nHeight_cons]

theorem activeAfter_of_activeAt {height : ℤ} (h : deploymentActiveAt pindex height = true) :
    deploymentActiveAfter pindex height = true := by
  have hle := of_decide_eq_true h
  apply decide_eq_true
  omega

/-- The height of a block on a chain leads back to the block. -/
theorem getAncestor_suffix (hs : a <:+ pindex) (ha : a ≠ []) :
    getAncestor pindex (nHeight a) = some a := by
  have hle := hs.length_le
  have hpos := List.length_pos_iff.mpr ha
  have hrange : ¬(nHeight pindex < nHeight a ∨ nHeight a < 0) := by
    unfold nHeight
    omega
  have hdrop : (nHeight pindex-nHeight a).toNat = pindex.length-a.length := by
    unfold nHeight
    omega
  rw [getAncestor, if_neg hrange, hdrop]
  exact congrArg some (List.suffix_iff_eq_drop.mp hs).symm

theorem getElem?_insertSignals (signals : Signals) (height : ℤ) (bits : List UInt8) (bit : UInt8) :
    (insertSignals signals height bits)[bit]? =
      signals[bit]?.or (if bit ∈ bits then some height else none) := by
  induction bits generalizing signals with
  | nil => exact Option.or_none.symm
  | cons b bits ih =>
    have hstep : (insertSignals signals height (b :: bits)) =
      insertSignals (signals.insertIfNew b height) height bits := rfl
    rw [hstep, ih, ExtTreeMap.getElem?_insertIfNew]
    by_cases hb : b = bit
    · subst hb
      by_cases hmem : b ∈ signals
      · -- an entry that is there already stays
        obtain ⟨v, hv⟩ := mem_iff_exists.mp hmem
        simp only [hmem, hv, not_true_eq_false, and_false, if_false, Option.some_or]
      · have hnone := notMem_iff.mp hmem
        simp only [hmem, hnone, not_false_eq_true, Std.compare_self, and_self, if_true,
          Option.some_or, Option.none_or, List.mem_cons_self]
    · have hcmp : compare b bit ≠ .eq := fun h => hb (Std.LawfulEqOrd.eq_of_compare h)
      have hiff : bit ∈ b :: bits ↔ bit ∈ bits := by
        rw [List.mem_cons, or_iff_right (Ne.symm hb)]
      simp only [hcmp, false_and, if_false, hiff]

theorem getElem?_unexpired {signals : Signals} :
    (unexpired p pindex signals)[bit]? = some height ↔
      signals[bit]? = some height ∧
        ∃ a, getAncestor pindex height = some a ∧ expired p a bit = false := by
  rw [unexpired, ExtTreeMap.getElem?_filter', Option.filter_eq_some_iff]
  apply and_congr_right
  intro _
  cases getAncestor pindex height with
  | none => simp only [Bool.false_eq_true, reduceCtorEq, false_and, exists_false]
  | some a => simp only [Bool.not_eq_true', Option.some.injEq, exists_eq_left']

/-- A standing signal of the previous block also stands for the next one, unless
it has expired. -/
theorem standsFor_cons : StandsFor K p (block :: pprev) bit a ↔
    (a = block :: pprev ∧ bit ∈ blockSignals K block) ∨
      (StandsFor K p pprev bit a ∧ expired p a bit = false) := by
  constructor
  · rintro ⟨hs, hsig, hexp⟩
    -- the block is the new one, or one of the chain before
    rcases List.suffix_cons_iff.mp hs with rfl | hs
    · obtain ⟨b, rest, heq, hmem⟩ := hsig
      obtain ⟨rfl, rfl⟩ := List.cons.inj heq
      exact .inl ⟨rfl, hmem⟩
    · have hne : a ≠ block :: pprev := by
        rintro rfl
        have hle := hs.length_le
        rw [List.length_cons] at hle
        omega
      have hlive := hexp.resolve_left hne
      exact .inr ⟨⟨hs, hsig, .inr hlive⟩, hlive⟩
  · rintro (⟨rfl, hmem⟩ | ⟨⟨hs, hsig, _⟩, hlive⟩)
    · exact ⟨List.suffix_rfl, ⟨block, pprev, rfl, hmem⟩, .inl rfl⟩
    · exact ⟨hs.trans (List.suffix_cons block pprev), hsig, .inr hlive⟩

theorem StandsFor.ne_nil (h : StandsFor K p pindex bit a) : a ≠ [] := by
  obtain ⟨block, pprev, rfl, _⟩ := h.signals
  exact List.cons_ne_nil block pprev

/-- Every signal of a chain comes from one of its blocks. -/
theorem exists_standsFor (h : (signalsOf K p pindex)[bit]? = some height) :
    ∃ a, StandsFor K p pindex bit a ∧ nHeight a = height := by
  induction pindex generalizing height with
  | nil =>
    rw [signalsOf, ExtTreeMap.getElem?_empty] at h
    contradiction
  | cons block pprev ih =>
    rw [signalsOf] at h
    split at h
    · rw [ExtTreeMap.getElem?_empty] at h
      contradiction
    · rw [getElem?_insertSignals, Option.or_eq_some_iff] at h
      -- the entry is from before and unexpired, or the block has just set it
      rcases h with hold | ⟨_, hnew⟩
      · obtain ⟨hold, a, ha, hlive⟩ := getElem?_unexpired.mp hold
        obtain ⟨a', hstands, hheight⟩ := ih hold
        -- the height in the map leads to the block it came from
        have haa' := getAncestor_suffix hstands.suffix hstands.ne_nil
        rw [hheight, ha, Option.some.injEq] at haa'
        subst haa'
        exact ⟨a, standsFor_cons.mpr (.inr ⟨hstands, hlive⟩), hheight⟩
      · split at hnew
        · next hmem =>
          exact ⟨block :: pprev, standsFor_cons.mpr (.inl ⟨rfl, hmem⟩), Option.some.inj hnew⟩
        · contradiction

theorem dropExpired_signalsOf (pindex : CBlockIndex) :
    dropExpired p pindex (signalsOf K p pindex) = .ok (unexpired p pindex (signalsOf K p pindex)) := by
  apply if_pos
  rw [List.all_eq_true]
  intro signal hsignal
  obtain ⟨a, hstands, hheight⟩ := exists_standsFor (mem_toList hsignal)
  rw [← hheight, getAncestor_suffix hstands.suffix hstands.ne_nil]
  rfl

theorem QuietBeforeV20.of_cons (h : QuietBeforeV20 K p (block :: pprev)) :
    QuietBeforeV20 K p pprev :=
  fun b rest hs => h b rest (hs.trans (List.suffix_cons block pprev))

/-- Before v20 there is nothing to signal and nothing to refuse. -/
theorem admissible_of_inactive (h : deploymentActiveAt pindex p.V20Height = false) :
    Admissible K p pindex := by
  cases pindex with
  | nil => trivial
  | cons block pprev =>
    intro hactive
    rw [h] at hactive
    contradiction

theorem signalsOf_of_inactive (h : deploymentActiveAt pindex p.V20Height = false) :
    signalsOf K p pindex = ∅ := by
  cases pindex with
  | nil => rfl
  | cons block pprev => exact if_pos h

theorem stageOf_of_active (h : deploymentActiveAt (block :: pprev) p.V20Height = true) :
    stageOf K p pprev = unexpired p pprev (signalsOf K p pprev) := by
  rw [activeAt_cons] at h
  rw [stageOf, h, if_neg Bool.noConfusion]

/-- A signal that still stands is among those the next block must not repeat. -/
theorem mem_stageOf_of_live (hactive : deploymentActiveAt (block :: pprev) p.V20Height = true)
    (ha : a ≠ []) (hs : a <:+ pprev) (h : (signalsOf K p pprev)[bit]? = some (nHeight a))
    (hlive : expired p a bit = false) : bit ∈ stageOf K p pprev := by
  rw [stageOf_of_active hactive]
  apply mem_iff_exists.mpr
  exact ⟨nHeight a, getElem?_unexpired.mpr ⟨h, a, getAncestor_suffix hs ha, hlive⟩⟩

/-- On an admissible chain every block that stands for a bit is the one that the
signals name. -/
theorem getElem?_signalsOf (hquiet : QuietBeforeV20 K p pindex) (hadm : Admissible K p pindex)
    (h : StandsFor K p pindex bit a) : (signalsOf K p pindex)[bit]? = some (nHeight a) := by
  induction pindex with
  | nil => exact absurd (List.suffix_nil.mp h.suffix) h.ne_nil
  | cons block pprev ih =>
    cases hactive : deploymentActiveAt (block :: pprev) p.V20Height with
    | false =>
      -- before v20 no block of the chain signals anything
      obtain ⟨b, rest, rfl, hmem⟩ := h.signals
      have hle := h.suffix.length_le
      have hinactive : deploymentActiveAt (b :: rest) p.V20Height = false := by
        have hlt := of_decide_eq_false hactive
        apply decide_eq_false
        unfold nHeight at hlt ⊢
        omega
      rw [hquiet b rest h.suffix hinactive] at hmem
      exact absurd hmem List.not_mem_nil
    | true =>
      obtain ⟨hprev, _, hbits⟩ := hadm hactive
      rw [signalsOf, hactive, if_neg Bool.noConfusion, getElem?_insertSignals,
        Option.or_eq_some_iff]
      -- admissible: no older entry stands in the way of a new one
      rcases standsFor_cons.mp h with ⟨rfl, hmem⟩ | ⟨hstands, hlive⟩
      · have hnew := (hbits bit hmem).2
        rw [stageOf_of_active hactive] at hnew
        exact .inr ⟨notMem_iff.mp hnew, if_pos hmem⟩
      · have hold := ih hquiet.of_cons hprev hstands
        have ha := getAncestor_suffix hstands.suffix hstands.ne_nil
        exact .inl (getElem?_unexpired.mpr ⟨hold, a, ha, hlive⟩)

/-- What the signals of an admissible chain say, and that no bit stands twice. -/
theorem getElem?_signalsOf_iff (hquiet : QuietBeforeV20 K p pindex)
    (hadm : Admissible K p pindex) : (signalsOf K p pindex)[bit]? = some height ↔
      ∃ a, StandsFor K p pindex bit a ∧ nHeight a = height := by
  constructor
  · exact exists_standsFor
  · rintro ⟨a, hstands, rfl⟩
    exact getElem?_signalsOf hquiet hadm hstands

theorem standsFor_unique (hquiet : QuietBeforeV20 K p pindex) (hadm : Admissible K p pindex)
    {a' : CBlockIndex} (h : StandsFor K p pindex bit a) (h' : StandsFor K p pindex bit a') :
    a = a' := by
  have hheight : nHeight a = nHeight a' := by
    apply Option.some.inj
    rw [← getElem?_signalsOf hquiet hadm h, getElem?_signalsOf hquiet hadm h']
  have ha := getAncestor_suffix h.suffix h.ne_nil
  rw [hheight, getAncestor_suffix h'.suffix h'.ne_nil] at ha
  exact (Option.some.inj ha).symm

end BabaChain.MNHF
