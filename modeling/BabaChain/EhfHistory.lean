import BabaChain.EhfConsistency
import BabaChain.Lib.Runs

/-! The signals that a node gathers are those of the chain, whatever its cache and
tables have lost. -/
namespace BabaChain.MNHF
open OrdMap LruCache Runs

variable {Sig PK : Type} {K : Encoding Sig} {p : Consensus} {T : BlockIndex}
  {pindex pprev : CBlockIndex} {block : CBlock} {man : CMNHFManager}

/-- What can happen to the manager. A block that is only checked need not be in the
index yet. Entries of the cache or of the tables may be lost at any time: evicted,
rolled back, or gone with a restart. -/
inductive Event (T : BlockIndex) (Sig PK : Type) where
  | processBlock (node : Node Sig PK) (block : CBlock) (pprev : CBlockIndex) (fJustCheck : Bool)
      (hprev : pprev ∈ T.entries) (hindex : fJustCheck = false → block :: pprev ∈ T.entries)
  | undoBlock (node : Node Sig PK) (block : CBlock) (pprev : CBlockIndex)
      (hindex : block :: pprev ∈ T.entries)
  | getSignalsStage (node : Node Sig PK) (pindexPrev : CBlockIndex)
      (hindex : pindexPrev ∈ T.entries)
  | forget (keepCached keepNew keepOld : uint256 → Bool)

inductive Answer where
  | processed (verdict : Except Failure (Except String Signals))
  | undone (verdict : Except Failure Bool)
  | stage (signals : Except Failure Signals)
  | forgotten

def CMNHFManager.forget (man : CMNHFManager) (keepCached keepNew keepOld : uint256 → Bool) :
    CMNHFManager where
  mnhfCache := LruCache.keepOnly man.mnhfCache keepCached
  dbSignals_v2 hash := if keepNew hash then man.dbSignals_v2 hash else none
  dbSignals hash := if keepOld hash then man.dbSignals hash else none

def step (K : Encoding Sig) (p : Consensus) (man : CMNHFManager) :
    Event T Sig PK → Answer × CMNHFManager
  | .processBlock node block pprev fJustCheck _ _ =>
    (processBlock K p node block pprev fJustCheck man).map .processed id
  | .undoBlock node block pprev _ => (undoBlock K p node block pprev man).map .undone id
  | .getSignalsStage node pindexPrev _ => (getSignalsStage K p node pindexPrev man).map .stage id
  | .forget keepCached keepNew keepOld => (.forgotten, man.forget keepCached keepNew keepOld)

theorem processBlock_spec (node : Node Sig PK) (block : CBlock) (fJustCheck : Bool)
    (h : Sound K p T man) (hprev : pprev ∈ T.entries)
    (hindex : fJustCheck = false → block :: pprev ∈ T.entries) :
    Sound K p T (processBlock K p node block pprev fJustCheck man).2 ∧
      (QuietBeforeV20 K p (block :: pprev) → Judged K p node block pprev fJustCheck
        (processBlock K p node block pprev fJustCheck man).1) :=
  processWith_spec block fJustCheck (getForBlock_spec node hprev) h hindex

theorem Sound.forget (h : Sound K p T man) (keepCached keepNew keepOld : uint256 → Bool) :
    Sound K p T (man.forget keepCached keepNew keepOld) := by
  refine ⟨h.cache.keepOnly keepCached, fun hash signals hfound => ?_, ?_⟩
  · dsimp only [CMNHFManager.forget] at hfound
    split at hfound
    · exact h.db_v2 hash signals hfound
    · contradiction
  · intro block pprev signals hT hactive hfound
    dsimp only [CMNHFManager.forget] at hfound
    split at hfound
    · exact h.db block pprev signals hT hactive hfound
    · contradiction

theorem Sound.step (h : Sound K p T man) (e : Event T Sig PK) :
    Sound K p T (step K p man e).2 := by
  cases e with
  | processBlock node block pprev fJustCheck hprev hindex =>
    exact (processBlock_spec node block fJustCheck h hprev hindex).1
  | undoBlock node block pprev hindex => exact (undoBlock_spec h hindex).1
  | getSignalsStage node pindexPrev hindex =>
    exact (signalsStage_spec (getForBlock_spec node hindex) h).1
  | forget keepCached keepNew keepOld => exact h.forget keepCached keepNew keepOld

theorem Sound.run (h : Sound K p T man) (es : List (Event T Sig PK)) :
    Sound K p T (final (MNHF.step K p) man es) :=
  final_invariant (Sound K p T) (fun _ e hs _ => hs.step e) h (everyStep_true man es)

/-- A block repeats a signal: it has one twice, or one that a block before stands
for. -/
def Repeats (K : Encoding Sig) (p : Consensus) (block : CBlock) (pindexPrev : CBlockIndex) : Prop :=
  ¬(blockSignals K block).Nodup ∨ ∃ bit ∈ blockSignals K block, ∃ a,
    StandsFor K p pindexPrev bit a ∧ expired p a bit = false

/-- No admissible chain has a block that repeats a signal. -/
theorem Repeats.not_admissible (h : Repeats K p block pprev)
    (hquiet : QuietBeforeV20 K p (block :: pprev)) : ¬Admissible K p (block :: pprev) := by
  intro hadm
  cases hactive : deploymentActiveAt (block :: pprev) p.V20Height with
  | false =>
    have hnone := hquiet block pprev List.suffix_rfl hactive
    rcases h with hdup | ⟨bit, hmem, _⟩
    · rw [hnone] at hdup
      exact hdup List.nodup_nil
    · rw [hnone] at hmem
      exact List.not_mem_nil hmem
  | true =>
    obtain ⟨hprev, hnodup, hbits⟩ := hadm hactive
    rcases h with hdup | ⟨bit, hmem, a, hstands, hlive⟩
    · exact hdup hnodup
    · have hold := getElem?_signalsOf hquiet.of_cons hprev hstands
      apply (hbits bit hmem).2
      exact mem_stageOf_of_live hactive hstands.ne_nil hstands.suffix hold hlive

theorem sound_start {dbSignals : uint256 → Option Signals} (h : LegacySound K p T dbSignals) :
    Sound K p T {dbSignals := dbSignals} :=
  ⟨holds_create _ _, fun _ _ hfound => by contradiction, h⟩

variable {dbSignals : uint256 → Option Signals}

/-- A chain is valid for a node: its blocks signal what they may, and the node has
their data and their quorums. -/
def Valid (K : Encoding Sig) (p : Consensus) (node : Node Sig PK) (pindex : CBlockIndex) : Prop :=
  Admissible K p pindex ∧ Confirms K p node pindex

theorem getForBlock_run (hlegacy : LegacySound K p T dbSignals) (es : List (Event T Sig PK))
    (hT : pindex ∈ T.entries) (hquiet : QuietBeforeV20 K p pindex) (node : Node Sig PK) :
    Right K p node pindex (signalsOf K p pindex)
      (getForBlock K p node pindex (final (step K p) {dbSignals := dbSignals} es)).1 :=
  (getForBlock_spec node hT _ ((sound_start hlegacy).run es)).2 hquiet

/-- A block that repeats a signal is not accepted, and unless one of its bits is out
of range it is refused with a reason. -/
theorem Repeats.refused (h : Repeats K p block pprev) (hsound : Sound K p T man)
    (hprev : pprev ∈ T.entries) {fJustCheck : Bool}
    (hindex : fJustCheck = false → block :: pprev ∈ T.entries)
    (hquiet : QuietBeforeV20 K p (block :: pprev)) (node : Node Sig PK) :
    (∀ signals, (processBlock K p node block pprev fJustCheck man).1 ≠ .ok (.ok signals)) ∧
      (Admissible K p pprev → (∀ bit ∈ blockSignals K block, bit.toNat < VERSIONBITS_NUM_BITS) →
        ∃ reason, (processBlock K p node block pprev fJustCheck man).1 = .ok (.error reason)) := by
  have hjudged := (processBlock_spec node block fJustCheck hsound hprev hindex).2 hquiet
  generalize (processBlock K p node block pprev fJustCheck man).1 = verdict at hjudged
  constructor
  · rintro signals rfl
    exact h.not_admissible hquiet hjudged.1
  · intro hadm hbits
    rcases verdict with failure | reason | signals
    · cases failure with
      | assertion =>
        rcases hjudged with hprev | ⟨bit, hmem, hbit⟩
        · exact absurd hadm hprev
        · exact absurd (hbits bit hmem) (not_lt.mpr hbit)
      | exception what => exact hjudged.elim
    · exact ⟨reason, rfl⟩
    · exact absurd hjudged.1 (h.not_admissible hquiet)

/-- After any history the signals of a chain that was quiet before v20 are those of
its blocks: they are a function of the chain; each bit they hold is the signal of
one block, unexpired unless it is the last; a block that repeats one is refused;
and a block once accepted can be undone. -/
theorem signals_consistent (hlegacy : LegacySound K p T dbSignals) (es : List (Event T Sig PK))
    (hT : pindex ∈ T.entries) (hquiet : QuietBeforeV20 K p pindex) :
    let man := final (step K p) {dbSignals := dbSignals} es
    (∀ node : Node Sig PK, Valid K p node pindex →
      (getForBlock K p node pindex man).1 = .ok (signalsOf K p pindex)) ∧
    (∀ (node : Node Sig PK) signals, (getForBlock K p node pindex man).1 = .ok signals →
      signals = signalsOf K p pindex ∧
        (∀ bit height, signals[bit]? = some height ↔
          ∃ a, StandsFor K p pindex bit a ∧ nHeight a = height) ∧
        ∀ bit a a', StandsFor K p pindex bit a → StandsFor K p pindex bit a' → a = a') ∧
    (∀ (node : Node Sig PK) block fJustCheck, QuietBeforeV20 K p (block :: pindex) →
      (fJustCheck = false → block :: pindex ∈ T.entries) → Repeats K p block pindex →
        (∀ signals,
          (processBlock K p node block pindex fJustCheck man).1 ≠ .ok (.ok signals)) ∧
        (Admissible K p pindex → (∀ bit ∈ blockSignals K block, bit.toNat < VERSIONBITS_NUM_BITS) →
          ∃ reason, (processBlock K p node block pindex fJustCheck man).1 = .ok (.error reason))) ∧
    (∀ (node : Node Sig PK) block fJustCheck signals, QuietBeforeV20 K p (block :: pindex) →
      block :: pindex ∈ T.entries →
      (processBlock K p node block pindex fJustCheck man).1 = .ok (.ok signals) →
        ∀ (later : List (Event T Sig PK)) (node' : Node Sig PK),
          (undoBlock K p node' block pindex (final (step K p)
            (processBlock K p node block pindex fJustCheck man).2 later)).1 ≠ .error .assertion) := by
  intro man
  have hsound : Sound K p T man := (sound_start hlegacy).run es
  have hright := getForBlock_run hlegacy es hT hquiet
  refine ⟨fun node hvalid => ?_, fun node signals hok => ?_, ?_, ?_⟩
  · -- of the answers about a valid chain only the right one is left
    have hr := hright node
    rcases hanswer : (getForBlock K p node pindex man).1 with failure | signals
    · rw [hanswer] at hr
      cases failure with
      | assertion => exact absurd hvalid.1 hr
      | exception what => exact absurd hvalid hr
    · rw [hanswer] at hr
      rw [hr.1]
  · have hr := hright node
    rw [hok] at hr
    obtain ⟨heq, hadm⟩ := hr
    refine ⟨heq, fun bit height => ?_, fun bit a a' => standsFor_unique hquiet hadm⟩
    rw [heq]
    exact getElem?_signalsOf_iff hquiet hadm
  · intro node block fJustCheck hq hindex hrepeats
    exact hrepeats.refused hsound hT hindex hq node
  · intro node block fJustCheck signals hq hindex haccepted later node'
    obtain ⟨hsound', hjudged⟩ :=
      processBlock_spec node block fJustCheck hsound hT fun _ => hindex
    have hj := hjudged hq
    rw [haccepted] at hj
    exact (undoBlock_spec (hsound'.run later) hindex).2 hq hj.1

/-- One deployment, on bit 12, which starts at the given time. -/
def oneDeployment (V20Height nStartTime : ℤ) : Consensus where
  V20Height := V20Height
  MN_RRHeight := V20Height
  vDeployments := [⟨12, nStartTime, 2^63-1, true⟩]

def bareEncoding : Encoding (List UInt8) where
  readSignature := ByteReader.readBytes 96
  getRequestId bit := BitVec.ofNat 256 bit.toNat
  getHashUnsigned tx _ := tx.hash
  signHash _ requestId msgHash := requestId ^^^ msgHash

def coinbaseTx : CTransaction where
  hash := 1
  nType := 5
  vin := []
  vout := []
  vExtraPayload := []
  nVersion := ⟨3, by decide⟩

/-- A signal of the quorum mined in the block with hash 0. -/
def signalTx (n : ℕ) (bit : UInt8) : CTransaction where
  hash := BitVec.ofNat 256 (n+2)
  nType := TRANSACTION_MNHF_SIGNAL
  vin := []
  vout := []
  vExtraPayload := 1 :: bit :: List.replicate 128 0
  nVersion := ⟨3, by decide⟩

def genesisBlock : CBlock := ⟨0, 0, [coinbaseTx]⟩

/-- The block after genesis, with the given signals, at time 100. -/
def signallingBlock (bits : List UInt8) : CBlock := ⟨7, 100, coinbaseTx :: bits.mapIdx signalTx⟩

/-- A node that knows the one quorum and finds its signatures right. -/
def oneQuorum : Node (List UInt8) Unit where
  lookupBlockIndex hash := if hash = 0 then some [genesisBlock] else none
  getQuorum hash := if hash = 0 then some ⟨0, ()⟩ else none
  verifyInsecure _ _ _ := true
  canReadBlock _ := true

/-- The index of a node that has the two blocks. -/
def twoBlockIndex (bits : List UInt8) : BlockIndex where
  entries := {[], [genesisBlock], [signallingBlock bits, genesisBlock]}
  pprev_mem := by
    intro block pprev h
    rcases h with h | h | h
    · contradiction
    · obtain ⟨_, rfl⟩ := List.cons.inj h
      exact .inl rfl
    · obtain ⟨_, rfl⟩ := List.cons.inj h
      exact .inr (.inl rfl)
  hash_unique := by
    intro block pprev block' pprev' h h' hhash
    have hne : genesisBlock.hash ≠ (signallingBlock bits).hash := by
      change (0 : uint256) ≠ 7
      decide
    rcases h with h | h | h
    · contradiction
    · obtain ⟨rfl, rfl⟩ := List.cons.inj h
      rcases h' with h' | h' | h'
      · contradiction
      · exact h'.symm
      · obtain ⟨rfl, _⟩ := List.cons.inj h'
        exact absurd hhash hne
    · obtain ⟨rfl, rfl⟩ := List.cons.inj h
      rcases h' with h' | h' | h'
      · contradiction
      · obtain ⟨rfl, _⟩ := List.cons.inj h'
        exact absurd hhash.symm hne
      · exact h'.symm

theorem quiet_oneDeployment : QuietBeforeV20 bareEncoding (oneDeployment 1 50)
    [signallingBlock [12], genesisBlock] := by
  intro block pprev hs hinactive
  rcases List.suffix_cons_iff.mp hs with heq | hs
  · rw [heq] at hinactive
    contradiction
  · rcases List.suffix_cons_iff.mp hs with heq | hs
    · obtain ⟨rfl, _⟩ := List.cons.inj heq
      decide
    · exact absurd (List.suffix_nil.mp hs) (List.cons_ne_nil block pprev)

theorem valid_oneDeployment : Valid bareEncoding (oneDeployment 1 50) oneQuorum
    [signallingBlock [12], genesisBlock] := by
  have hbits : blockSignals bareEncoding (signallingBlock [12]) = [12] := by decide +kernel
  constructor
  · intro _
    have hgenesis : deploymentActiveAt [genesisBlock] 1 = false := by decide
    refine ⟨admissible_of_inactive hgenesis, ?_⟩
    rw [hbits]
    refine ⟨List.nodup_singleton 12, fun bit hbit => ?_⟩
    rw [List.mem_singleton.mp hbit]
    decide +kernel
  · intro block pprev hs hactive
    rcases List.suffix_cons_iff.mp hs with heq | hs
    · obtain ⟨rfl, rfl⟩ := List.cons.inj heq
      rw [hbits]
      exact ⟨rfl, by decide +kernel⟩
    · rcases List.suffix_cons_iff.mp hs with heq | hs
      · rw [heq] at hactive
        exact absurd hactive (by decide)
      · exact absurd (List.suffix_nil.mp hs) (List.cons_ne_nil block pprev)

/-- The block is connected, and everything stored is lost. -/
def connectAndForget : List (Event (twoBlockIndex [12]) (List UInt8) Unit) :=
  [.processBlock oneQuorum (signallingBlock [12]) [genesisBlock] false (.inr (.inl rfl))
      fun _ => .inr (.inr rfl),
    .forget (fun _ => false) (fun _ => false) fun _ => false]

theorem signals_consistent_twoBlocks :
    (getForBlock bareEncoding (oneDeployment 1 50) oneQuorum [signallingBlock [12], genesisBlock]
      (final (step bareEncoding (oneDeployment 1 50)) {} connectAndForget)).1 =
      .ok (signalsOf bareEncoding (oneDeployment 1 50) [signallingBlock [12], genesisBlock]) ∧
    ((signalsOf bareEncoding (oneDeployment 1 50)
      [signallingBlock [12], genesisBlock])[(12 : UInt8)]?) = some 1 :=
  ⟨(signals_consistent (fun _ _ _ _ _ hfound _ => by contradiction) connectAndForget
    (.inr (.inr rfl)) quiet_oneDeployment).1 oneQuorum valid_oneDeployment, by decide +kernel⟩

def accepted (verdict : Except Failure (Except String Signals)) : Bool :=
  match verdict with
  | .ok (.ok _) => true
  | _ => false

def stopped {α : Type} (verdict : Except Failure α) : Bool :=
  match verdict with
  | .error .assertion => true
  | _ => false

/-- The height of a bit in the signals of the chain of a signalling block. -/
def heightOf (p : Consensus) (bit : UInt8) (man : CMNHFManager) : Option ℤ :=
  (getForBlock bareEncoding p oneQuorum [signallingBlock [bit], genesisBlock] man).1.toOption.bind
    fun signals => signals[bit]?

/-- The node after it has connected the block, and after it has lost its cache. -/
def connected (p : Consensus) (bits : List UInt8) :
    Except Failure (Except String Signals) × CMNHFManager :=
  processBlock bareEncoding p oneQuorum (signallingBlock bits) [genesisBlock] false {}

def restarted (p : Consensus) (bits : List UInt8) : CMNHFManager :=
  (connected p bits).2.forget (fun _ => false) (fun _ => true) fun _ => true

/-- A signal for a deployment that starts later is accepted and is expired in its
own block; one from before v20 is accepted, is forgotten by a restart, and then
stops the node that disconnects its block; so does a repeated bit that is out of
range. -/
theorem signals_diverge :
    (accepted (connected (oneDeployment 1 1000) [12]).1 = true ∧
      heightOf (oneDeployment 1 1000) 12 (connected (oneDeployment 1 1000) [12]).2 = some 1 ∧
      expired (oneDeployment 1 1000) [signallingBlock [12], genesisBlock] 12 = true) ∧
    (accepted (connected (oneDeployment 2 50) [12]).1 = true ∧
      heightOf (oneDeployment 2 50) 12 (connected (oneDeployment 2 50) [12]).2 = some 1 ∧
      heightOf (oneDeployment 2 50) 12 (restarted (oneDeployment 2 50) [12]) = none ∧
      stopped (undoBlock bareEncoding (oneDeployment 2 50) oneQuorum (signallingBlock [12])
        [genesisBlock] (restarted (oneDeployment 2 50) [12])).1 = true) ∧
    stopped (connected (oneDeployment 1 50) [40, 40]).1 = true := by
  decide +kernel

end BabaChain.MNHF
