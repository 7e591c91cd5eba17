import BabaChain.Lib.StoreWrites
import BabaChain.ListNotifications

/-! The move of the list differences in the database to the format that starts with
the version, and what is left of it when the node stops on the way. -/
namespace BabaChain.BLS.CBLSLazyPublicKey

def setLegacy {G : Type*} (specificLegacyScheme : Bool) (k : CBLSLazyPublicKey G) :
    CBLSLazyPublicKey G :=
  {k with bufLegacyScheme := specificLegacyScheme}

end BabaChain.BLS.CBLSLazyPublicKey

namespace BabaChain.Evo.ByValue
open BLS OrdMap
open Std (ExtTreeMap ExtTreeSet)

/-- `enum LegacyField`: the same members at other bits. -/
def Field.legacyMask : Field → UInt32
  | nRegisteredHeight => 0x0001
  | nLastPaidHeight => 0x0002
  | nPoSePenalty => 0x0004
  | nPoSeRevivedHeight => 0x0008
  | nPoSeBanHeight => 0x0010
  | nRevocationReason => 0x0020
  | confirmedHash => 0x0040
  | confirmedHashWithProRegTxHash => 0x0080
  | keyIDOwner => 0x0100
  | pubKeyOperator => 0x0200
  | keyIDVoting => 0x0400
  | netInfo => 0x0800
  | scriptPayout => 0x1000
  | scriptOperatorPayout => 0x2000
  | nConsecutivePayments => 0x4000
  | platformNodeID => 0x8000
  | platformP2PPort => 0x10000
  | platformHTTPPort => 0x20000
  | nVersion => 0x40000

/-- As read from the old format: keys in the legacy scheme. -/
structure CDeterministicMNStateDiffLegacy (G : Type*) where
  fields : UInt32 := 0
  state : CDeterministicMNState G

def CDeterministicMNStateDiffLegacy.toNewFormat {G : Type*}
    (d : CDeterministicMNStateDiffLegacy G) : CDeterministicMNStateDiff G :=
  ⟨(Field.members.filter fun f => d.fields &&& f.legacyMask != 0).toFinset, d.state⟩

/-- What the old format holds of a difference, in the order of its bytes. -/
structure LegacyListDiff (G : Type*) where
  addedMNs : List (CDeterministicMN G) := []
  updatedMNs : List (UInt64 × CDeterministicMNStateDiffLegacy G) := []
  removedMns : List UInt64 := []

variable {G : Type*}

def LegacyListDiff.unserializeLegacyFormat (s : LegacyListDiff G) : CDeterministicMNListDiff G where
  addedMNs := s.addedMNs
  -- `emplace` keeps the entry that is there
  updatedMNs := s.updatedMNs.foldl (fun updatedMNs p =>
    if p.1 ∈ updatedMNs.map Prod.fst then updatedMNs else updatedMNs++[(p.1, p.2.toNewFormat)]) []
  removedMns := s.removedMns.foldl (fun removedMns id => removedMns.insert id) ∅

/-- The differences under the new key and those under the legacy key, each by the
hash of its block. -/
structure EvoDb (G : Type*) where
  diffs : ExtTreeMap uint256 (CDeterministicMNListDiff G) := ∅
  legacyDiffs : ExtTreeMap uint256 (LegacyListDiff G) := ∅

/-- One entry of a `CDBBatch`. -/
inductive BatchEntry (G : Type*)
  | write (blockHash : uint256) (diff : CDeterministicMNListDiff G)
  | erase (blockHash : uint256)

def EvoDb.apply (db : EvoDb G) : BatchEntry G → EvoDb G
  | .write blockHash diff => {db with diffs := db.diffs.insert blockHash diff}
  | .erase blockHash => {db with legacyDiffs := db.legacyDiffs.erase blockHash}

structure CDBBatch (G : Type*) where
  entries : List (BatchEntry G) := []
  sizeEstimate : ℕ := 0

namespace CDBBatch

/-- The bytes of a key: the length of its name, the name and a hash. -/
def slKeySize : ℕ := 1+6+32

def write (blockHash : uint256) (diff : CDeterministicMNListDiff G) (slValueSize : ℕ)
    (batch : CDBBatch G) : CDBBatch G where
  entries := batch.entries++[.write blockHash diff]
  sizeEstimate := batch.sizeEstimate+(3+(if 127 < slKeySize then 1 else 0)+slKeySize+
    (if 127 < slValueSize then 1 else 0)+slValueSize)

def erase (blockHash : uint256) (batch : CDBBatch G) : CDBBatch G where
  entries := batch.entries++[.erase blockHash]
  sizeEstimate := batch.sizeEstimate+(2+(if 127 < slKeySize then 1 else 0)+slKeySize)

/-- The database with the entries of a batch. -/
def onto (batch : CDBBatch G) (db : EvoDb G) : EvoDb G := batch.entries.foldl EvoDb.apply db

theorem onto_write (batch : CDBBatch G) (blockHash : uint256) (diff : CDeterministicMNListDiff G)
    (slValueSize : ℕ) (db : EvoDb G) :
    (batch.write blockHash diff slValueSize).onto db =
      ⟨(batch.onto db).diffs.insert blockHash diff, (batch.onto db).legacyDiffs⟩ := by
  rw [onto, write, List.foldl_append]
  rfl

theorem onto_erase (batch : CDBBatch G) (blockHash : uint256) (db : EvoDb G) :
    (batch.erase blockHash).onto db =
      ⟨(batch.onto db).diffs, (batch.onto db).legacyDiffs.erase blockHash⟩ := by
  rw [onto, erase, List.foldl_append]
  rfl

end CDBBatch

/-- The database, and the databases that the calls of `WriteBatch` so far have left. -/
structure Disk (G : Type*) where
  db : EvoDb G
  left : List (EvoDb G) := []

/-- A part of the migration. What it has written stays when it throws. -/
abbrev Migrating (G α : Type) := EStateM String (Disk G) α

namespace Migrating
variable {G : Type}

def writeBatch (batch : CDBBatch G) : Migrating G PUnit :=
  modify fun d => ⟨batch.onto d.db, d.left++[batch.onto d.db]⟩

/-- What both loops do after each entry. -/
def writeIfLarge (batch : CDBBatch G) : Migrating G (CDBBatch G) :=
  if 2^24 ≤ batch.sizeEstimate then do
    writeBatch batch
    pure {}
  else pure batch

end Migrating

namespace CDeterministicMNManager
open Migrating
variable {G : Type}

def isMigrationRequired (db : EvoDb G) : Bool := (seek db.legacyDiffs 0).isSome

/-- A state difference with its version and with its key in the version's scheme. -/
def convertUpdate (snapshot : CDeterministicMNList G) (p : UInt64 × CDeterministicMNStateDiff G) :
    Except String (UInt64 × CDeterministicMNStateDiff G) :=
  match snapshot.getMNByInternalId p.1 with
  | none => .error "can't find an updated masternode"
  | some dmn =>
    if .nVersion ∈ p.2.fields then .ok p
    else
      let stateDiff :=
        if .pubKeyOperator ∈ p.2.fields ∨ .netInfo ∈ p.2.fields then
          {fields := insert .nVersion p.2.fields
           state := {p.2.state with nVersion := dmn.pdmnState.nVersion}}
        else p.2
      let stateDiff : CDeterministicMNStateDiff G :=
        if .pubKeyOperator ∈ stateDiff.fields then
          let legacy := decide (stateDiff.state.nVersion = 1)
          {stateDiff with state := {stateDiff.state with
            pubKeyOperator := stateDiff.state.pubKeyOperator.setLegacy legacy}}
        else stateDiff
      .ok (p.1, stateDiff)

def convertDiff (snapshot : CDeterministicMNList G) (legacyDiff : CDeterministicMNListDiff G) :
    Except String (CDeterministicMNListDiff G) := do
  let updatedMNs ← legacyDiff.updatedMNs.mapM (convertUpdate snapshot)
  .ok {addedMNs := legacyDiff.addedMNs, updatedMNs, removedMns := legacyDiff.removedMns}

variable [DecidableEq G] (codec : KeyCodec G) (sha256d : List UInt8 → uint256)
  (diffSize : CDeterministicMNListDiff G → ℕ)

/-- The loop over the chain. The iterator shows the legacy differences as they were
when it was made. -/
def convertDiffs (pcursor : ExtTreeMap uint256 (LegacyListDiff G)) :
    List CBlockIndex → CDeterministicMNList G → CDBBatch G → List uint256 →
      Migrating G (CDBBatch G × List uint256)
  | [], _, batch, keysToErase => pure (batch, keysToErase)
  | pindex :: rest, snapshot, batch, keysToErase =>
    match seek pcursor pindex.blockHash with
    | none => pure (batch, keysToErase)
    | some key =>
      if key ≠ pindex.blockHash then throw "Invalid data, we must have legacy diffs for each height"
      else do
        let d ← get
        match d.db.legacyDiffs[key]? with
        | none => pure (batch, keysToErase)
        | some s =>
          let legacyDiff := s.unserializeLegacyFormat
          let snapshot ← ofExcept
            (snapshot.applyDiff codec sha256d pindex.blockHash pindex.nHeight legacyDiff)
          let convertedDiff ← ofExcept (convertDiff snapshot legacyDiff)
          let batch ← writeIfLarge (batch.write key convertedDiff (diffSize convertedDiff))
          convertDiffs pcursor rest snapshot batch (keysToErase++[pindex.blockHash])

def eraseFound : List uint256 → CDBBatch G → Migrating G (CDBBatch G)
  | [], batch => pure batch
  | blockHash :: rest, batch => do
    let batch ← writeIfLarge (batch.erase blockHash)
    eraseFound rest batch

/-- `MigrateLegacyDiffs`, from the blocks of the activation height to the tip. -/
def migrateLegacyDiffs (blocks : List CBlockIndex) : Migrating G Bool := do
  let d ← get
  let (batch, keysToErase) ← convertDiffs codec sha256d diffSize d.db.legacyDiffs blocks {} {} []
  writeBatch batch
  let batch ← eraseFound keysToErase {}
  writeBatch batch
  let d ← get
  -- dangling entries go in one batch, whatever its size
  writeBatch (d.db.legacyDiffs.keys.foldl (fun batch key => batch.erase key) {})
  pure true

/-- The end of `LoadChainstate`. -/
def upgradeEvoDb (blocks : List CBlockIndex) : Migrating G PUnit := do
  let d ← get
  if isMigrationRequired d.db then
    let migrated ← migrateLegacyDiffs codec sha256d diffSize blocks
    if migrated then pure ⟨⟩ else throw "ERROR_UPGRADING_EVO_DB"
  else pure ⟨⟩

/-- The databases that the node can stop with, over any number of starts: as it was,
or as a call of `WriteBatch` left it. -/
inductive Stopped (blocks : List CBlockIndex) (db₀ : EvoDb G) : EvoDb G → Prop
  | start : Stopped blocks db₀ db₀
  | ran {db db' : EvoDb G} {d : Disk G} (hstop : Stopped blocks db₀ db)
    (hrun : upgradeEvoDb codec sha256d diffSize blocks ⟨db, []⟩ = .ok ⟨⟩ d) (hleft : db' ∈ d.left) :
    Stopped blocks db₀ db'
  | threw {db db' : EvoDb G} {e : String} {d : Disk G} (hstop : Stopped blocks db₀ db)
    (hrun : upgradeEvoDb codec sha256d diffSize blocks ⟨db, []⟩ = .error e d)
    (hleft : db' ∈ d.left) : Stopped blocks db₀ db'

/-- The first block still has its legacy difference, or none that is left comes after
its hash. -/
def Resumable (blocks : List CBlockIndex) (db : EvoDb G) : Prop :=
  ∀ first ∈ blocks.head?, first.blockHash ∈ db.legacyDiffs ∨
    ∀ key ∈ db.legacyDiffs, key < first.blockHash

/-- The new differences of blocks that each have a legacy one. -/
def convertAll (legacyDiffs : ExtTreeMap uint256 (LegacyListDiff G)) :
    List CBlockIndex → CDeterministicMNList G →
      Except String (List (uint256 × CDeterministicMNListDiff G))
  | [], _ => .ok []
  | pindex :: rest, snapshot =>
    match legacyDiffs[pindex.blockHash]? with
    | none => .error "no legacy difference"
    | some s => do
      let snapshot ← snapshot.applyDiff codec sha256d pindex.blockHash pindex.nHeight
        s.unserializeLegacyFormat
      let convertedDiff ← convertDiff snapshot s.unserializeLegacyFormat
      let converted ← convertAll legacyDiffs rest snapshot
      .ok ((pindex.blockHash, convertedDiff) :: converted)

variable {codec sha256d diffSize}

omit [DecidableEq G] in
theorem bind_ok {α β : Type} {x : Migrating G α} {f : α → Migrating G β} {a : α} {d d' : Disk G}
    (h : x d = .ok a d') : (x >>= f) d = f a d' := by
  change EStateM.bind x f d = _
  rw [EStateM.bind, h]

omit [DecidableEq G] in
theorem bind_error {α β : Type} {x : Migrating G α} {f : α → Migrating G β} {e : String}
    {d d' : Disk G} (h : x d = .error e d') : (x >>= f) d = .error e d' := by
  change EStateM.bind x f d = _
  rw [EStateM.bind, h]

omit [DecidableEq G] in
theorem get_bind {β : Type} (f : Disk G → Migrating G β) (d : Disk G) :
    ((get : Migrating G (Disk G)) >>= f) d = f d d := rfl

omit [DecidableEq G] in
theorem ofExcept_ok_bind {α β : Type} (a : α) (f : α → Migrating G β) (d : Disk G) :
    ((ofExcept (.ok a : Except String α) : Migrating G α) >>= f) d = f a d := rfl

omit [DecidableEq G] in
theorem ofExcept_error_bind {α β : Type} (e : String) (f : α → Migrating G β) (d : Disk G) :
    ((ofExcept (.error e : Except String α) : Migrating G α) >>= f) d = .error e d := rfl

omit [DecidableEq G] in
theorem writeBatch_run (batch : CDBBatch G) (d : Disk G) :
    writeBatch batch d = .ok ⟨⟩ ⟨batch.onto d.db, d.left++[batch.onto d.db]⟩ := rfl

omit [DecidableEq G] in
/-- Whether or not it writes, what the batch makes of the database stays. -/
theorem writeIfLarge_spec (batch : CDBBatch G) (d : Disk G) :
    ∃ batch' d', writeIfLarge batch d = .ok batch' d' ∧ batch'.onto d'.db = batch.onto d.db ∧
      (d' = d ∨ d' = ⟨batch.onto d.db, d.left++[batch.onto d.db]⟩) := by
  rw [writeIfLarge]
  split_ifs
  · exact ⟨{}, _, bind_ok (writeBatch_run batch d), rfl, Or.inr rfl⟩
  · exact ⟨batch, d, rfl, rfl, Or.inl rfl⟩

theorem convertAll_keys {legacyDiffs : ExtTreeMap uint256 (LegacyListDiff G)}
    {blocks : List CBlockIndex} {snapshot : CDeterministicMNList G}
    {converted : List (uint256 × CDeterministicMNListDiff G)}
    (h : convertAll codec sha256d legacyDiffs blocks snapshot = .ok converted) :
    converted.map Prod.fst = blocks.map (·.blockHash) := by
  induction blocks generalizing snapshot converted with
  | nil =>
    obtain rfl : [] = converted := Except.ok.inj h
    rfl
  | cons pindex rest ih =>
    rw [convertAll] at h
    cases hs : legacyDiffs[pindex.blockHash]? with
    | none =>
      rw [hs] at h
      exact absurd h nofun
    | some s =>
      rw [hs] at h
      simp only [Guards.bind_ok_iff] at h
      obtain ⟨_, -, _, -, rest', hrest, hok⟩ := h
      rw [← Except.ok.inj hok, List.map_cons, List.map_cons, ih hrest]

variable (diffSize) in
/-- The loop over blocks that each have a legacy difference: it writes the new ones,
and until the end no other entry of the database changes. -/
theorem convertDiffs_ok {pcursor : ExtTreeMap uint256 (LegacyListDiff G)}
    {blocks : List CBlockIndex} {snapshot : CDeterministicMNList G}
    {converted : List (uint256 × CDeterministicMNListDiff G)}
    (hconv : convertAll codec sha256d pcursor blocks snapshot = .ok converted)
    (batch : CDBBatch G) (keysToErase : List uint256) (d : Disk G)
    (hread : d.db.legacyDiffs = pcursor) (hkept : (batch.onto d.db).legacyDiffs = pcursor) :
    ∃ batch' d', convertDiffs codec sha256d diffSize pcursor blocks snapshot batch keysToErase d =
        .ok (batch', keysToErase++blocks.map (·.blockHash)) d' ∧
      batch'.onto d'.db =
        ⟨insertAll (batch.onto d.db).diffs converted, (batch.onto d.db).legacyDiffs⟩ ∧
      ∀ db ∈ d'.left, db ∈ d.left ∨ db.legacyDiffs = pcursor ∧
        ∀ h ∉ blocks.map (·.blockHash), db.diffs[h]? = (batch.onto d.db).diffs[h]? := by
  induction blocks generalizing snapshot converted batch keysToErase d with
  | nil =>
    obtain rfl : [] = converted := Except.ok.inj hconv
    refine ⟨batch, d, ?_, rfl, fun db hdb => Or.inl hdb⟩
    rw [List.map_nil, List.append_nil]
    rfl
  | cons pindex rest ih =>
    rw [convertAll] at hconv
    cases hs : pcursor[pindex.blockHash]? with
    | none =>
      rw [hs] at hconv
      exact absurd hconv nofun
    | some s =>
      rw [hs] at hconv
      simp only [Guards.bind_ok_iff] at hconv
      obtain ⟨snapshot', happly, diff, hdiff, converted', hrest, hok⟩ := hconv
      obtain rfl := Except.ok.inj hok
      obtain ⟨batch₁, d₁, hwrite, honto, hd₁⟩ :=
        writeIfLarge_spec (batch.write pindex.blockHash diff (diffSize diff)) d
      rw [CDBBatch.onto_write] at honto hd₁
      have hread₁ : d₁.db.legacyDiffs = pcursor := by
        rcases hd₁ with rfl | rfl
        · exact hread
        · exact hkept
      have hkept₁ : (batch₁.onto d₁.db).legacyDiffs = pcursor := by
        rw [honto]
        exact hkept
      obtain ⟨batch', d', hrun, honto', hleft⟩ :=
        ih hrest batch₁ (keysToErase++[pindex.blockHash]) d₁ hread₁ hkept₁
      have hother : ∀ h ∉ (pindex :: rest).map (·.blockHash),
          (batch₁.onto d₁.db).diffs[h]? = (batch.onto d.db).diffs[h]? := by
        intro h hh
        rw [List.map_cons, List.mem_cons, not_or] at hh
        rw [honto]
        exact (getElem?_insert _ _ _ _).trans (if_neg (Ne.symm hh.1))
      refine ⟨batch', d', ?_, ?_, fun db hdb => ?_⟩
      · rw [convertDiffs, seek_self (mem_iff_exists.mpr ⟨s, hs⟩)]
        dsimp only
        rw [if_neg (not_not_intro rfl), get_bind, hread, hs]
        dsimp only
        rw [happly, ofExcept_ok_bind, hdiff, ofExcept_ok_bind, bind_ok hwrite, hrun,
          List.append_assoc]
        rfl
      · rw [honto', honto]
        rfl
      · rcases hleft db hdb with hdb₁ | ⟨hlegacy, hsame⟩
        · rcases hd₁ with rfl | rfl
          · exact Or.inl hdb₁
          · rcases List.mem_append.mp hdb₁ with hold | hnew
            · exact Or.inl hold
            · obtain rfl := List.mem_singleton.mp hnew
              refine Or.inr ⟨hkept, fun h hh => ?_⟩
              rw [List.map_cons, List.mem_cons, not_or] at hh
              exact (getElem?_insert _ _ _ _).trans (if_neg (Ne.symm hh.1))
        · refine Or.inr ⟨hlegacy, fun h hh => (hsame h ?_).trans (hother h hh)⟩
          exact fun hmem => hh (List.mem_cons_of_mem _ hmem)

variable (diffSize) in
theorem convertDiffs_error {pcursor : ExtTreeMap uint256 (LegacyListDiff G)}
    {blocks : List CBlockIndex} (hlegacy : ∀ pindex ∈ blocks, pindex.blockHash ∈ pcursor)
    {snapshot : CDeterministicMNList G} {e : String}
    (hconv : convertAll codec sha256d pcursor blocks snapshot = .error e)
    (batch : CDBBatch G) (keysToErase : List uint256) (d : Disk G)
    (hread : d.db.legacyDiffs = pcursor) (hkept : (batch.onto d.db).legacyDiffs = pcursor) :
    ∃ e' d', convertDiffs codec sha256d diffSize pcursor blocks snapshot batch keysToErase d =
      .error e' d' := by
  induction blocks generalizing snapshot batch keysToErase d e with
  | nil => exact absurd hconv nofun
  | cons pindex rest ih =>
    obtain ⟨hfirst, hrest⟩ := List.forall_mem_cons.mp hlegacy
    obtain ⟨s, hs⟩ := mem_iff_exists.mp hfirst
    rw [convertAll, hs] at hconv
    dsimp only at hconv
    rw [convertDiffs, seek_self hfirst]
    dsimp only
    rw [if_neg (not_not_intro rfl), get_bind, hread, hs]
    dsimp only
    cases happly : snapshot.applyDiff codec sha256d pindex.blockHash pindex.nHeight
        s.unserializeLegacyFormat with
    | error e₁ => exact ⟨e₁, d, ofExcept_error_bind _ _ _⟩
    | ok snapshot' =>
      rw [happly] at hconv
      rw [ofExcept_ok_bind]
      cases hdiff : convertDiff snapshot' s.unserializeLegacyFormat with
      | error e₁ => exact ⟨e₁, d, ofExcept_error_bind _ _ _⟩
      | ok diff =>
        rw [ofExcept_ok_bind]
        obtain ⟨batch₁, d₁, hwrite, honto, hd₁⟩ :=
          writeIfLarge_spec (batch.write pindex.blockHash diff (diffSize diff)) d
        rw [CDBBatch.onto_write] at honto hd₁
        have hread₁ : d₁.db.legacyDiffs = pcursor := by
          rcases hd₁ with rfl | rfl
          · exact hread
          · exact hkept
        rw [bind_ok hwrite]
        cases hconv' : convertAll codec sha256d pcursor rest snapshot' with
        | error e' => exact ih hrest hconv' batch₁ _ d₁ hread₁ (by rw [honto]; exact hkept)
        | ok converted =>
          change (convertDiff snapshot' s.unserializeLegacyFormat >>= _) = _ at hconv
          rw [hdiff] at hconv
          change (convertAll codec sha256d pcursor rest snapshot' >>= _) = _ at hconv
          rw [hconv'] at hconv
          exact absurd hconv nofun

omit [DecidableEq G] in
theorem foldl_erase_onto (keys : List uint256) (batch : CDBBatch G) (db : EvoDb G) :
    (keys.foldl (fun batch key => batch.erase key) batch).onto db =
      ⟨(batch.onto db).diffs, eraseAll (batch.onto db).legacyDiffs keys⟩ := by
  induction keys generalizing batch with
  | nil => rfl
  | cons key keys ih =>
    rw [List.foldl_cons, ih, CDBBatch.onto_erase]
    rfl

omit [DecidableEq G] in
/-- The loop that erases: what it has written so far is gone for a first part of the
blocks. -/
theorem eraseFound_ok (keys : List uint256) (batch : CDBBatch G) (d : Disk G) :
    ∃ batch' d', eraseFound keys batch d = .ok batch' d' ∧
      batch'.onto d'.db = ⟨(batch.onto d.db).diffs, eraseAll (batch.onto d.db).legacyDiffs keys⟩ ∧
      ∀ db ∈ d'.left, db ∈ d.left ∨ ∃ gone, gone <+: keys ∧
        db = ⟨(batch.onto d.db).diffs, eraseAll (batch.onto d.db).legacyDiffs gone⟩ := by
  induction keys generalizing batch d with
  | nil => exact ⟨batch, d, rfl, rfl, fun db hdb => Or.inl hdb⟩
  | cons key keys ih =>
    obtain ⟨batch₁, d₁, hwrite, honto, hd₁⟩ := writeIfLarge_spec (batch.erase key) d
    obtain ⟨batch', d', hrun, honto', hleft⟩ := ih batch₁ d₁
    rw [honto, CDBBatch.onto_erase] at honto' hleft
    refine ⟨batch', d', ?_, honto', fun db hdb => ?_⟩
    · rw [eraseFound, bind_ok hwrite, hrun]
    · rcases hleft db hdb with hdb₁ | ⟨gone, hgone, hdb₁⟩
      · rcases hd₁ with rfl | rfl
        · exact Or.inl hdb₁
        · rcases List.mem_append.mp hdb₁ with hold | hnew
          · exact Or.inl hold
          · refine Or.inr ⟨[key], List.prefix_append [key] keys, ?_⟩
            rw [List.mem_singleton.mp hnew, CDBBatch.onto_erase]
            rfl
      · exact Or.inr ⟨key :: gone, List.prefix_cons_inj key |>.mpr hgone, hdb₁⟩

/-- Once the blocks are converted, the migration completes: it erases what it found,
a first part of it at a time, and then the rest. -/
theorem migrateLegacyDiffs_of_converted {blocks : List CBlockIndex} {db : EvoDb G}
    {batch : CDBBatch G} {keysToErase : List uint256} {d : Disk G}
    (hconv : convertDiffs codec sha256d diffSize db.legacyDiffs blocks {} {} [] ⟨db, []⟩ =
      .ok (batch, keysToErase) d) :
    ∃ d', migrateLegacyDiffs codec sha256d diffSize blocks ⟨db, []⟩ = .ok true d' ∧
      d'.db.diffs = (batch.onto d.db).diffs ∧ (∀ key, key ∉ d'.db.legacyDiffs) ∧
      ⟨(batch.onto d.db).diffs, eraseAll (batch.onto d.db).legacyDiffs keysToErase⟩ ∈ d'.left ∧
      ∀ db' ∈ d'.left, db' ∈ d.left ∨
        (∃ gone, gone <+: keysToErase ∧
          db' = ⟨(batch.onto d.db).diffs, eraseAll (batch.onto d.db).legacyDiffs gone⟩) ∨
        db'.diffs = (batch.onto d.db).diffs ∧ ∀ key, key ∉ db'.legacyDiffs := by
  let d₁ : Disk G := ⟨batch.onto d.db, d.left++[batch.onto d.db]⟩
  obtain ⟨batch', d₂, herase, honto, hleft⟩ := eraseFound_ok keysToErase {} d₁
  have hstart : ({} : CDBBatch G).onto d₁.db = batch.onto d.db := rfl
  rw [hstart] at honto hleft
  let erased : EvoDb G :=
    ⟨(batch.onto d.db).diffs, eraseAll (batch.onto d.db).legacyDiffs keysToErase⟩
  let last : EvoDb G := ⟨erased.diffs, eraseAll erased.legacyDiffs erased.legacyDiffs.keys⟩
  have hlast : ∀ key, key ∉ last.legacyDiffs := by
    intro key hkey
    obtain ⟨hmem, hnot⟩ := mem_eraseAll.mp hkey
    exact hnot (mem_keys_iff.mpr hmem)
  refine ⟨⟨last, d₂.left++[erased]++[last]⟩, ?_, rfl, hlast, ?_, fun db' hdb' => ?_⟩
  · rw [migrateLegacyDiffs, get_bind, bind_ok hconv]
    dsimp only
    rw [bind_ok (writeBatch_run batch d), bind_ok herase, bind_ok (writeBatch_run batch' d₂),
      get_bind, honto, bind_ok (writeBatch_run _ _), foldl_erase_onto]
    rfl
  · exact List.mem_append_left _ (List.mem_append_right _ List.mem_cons_self)
  · rcases List.mem_append.mp hdb' with hdb' | hdb'
    · rcases List.mem_append.mp hdb' with hdb' | hdb'
      · rcases hleft db' hdb' with hdb' | hgone
        · rcases List.mem_append.mp hdb' with hold | hnew
          · exact Or.inl hold
          · refine Or.inr (Or.inl ⟨[], List.nil_prefix, ?_⟩)
            rw [List.mem_singleton.mp hnew]
            rfl
        · exact Or.inr (Or.inl hgone)
      · exact Or.inr (Or.inl ⟨keysToErase, List.prefix_rfl, List.mem_singleton.mp hdb'⟩)
    · rw [List.mem_singleton.mp hdb']
      exact Or.inr (Or.inr ⟨rfl, hlast⟩)

omit [DecidableEq G] in
theorem isMigrationRequired_iff {db : EvoDb G} :
    isMigrationRequired db = true ↔ ∃ key, key ∈ db.legacyDiffs := by
  rw [isMigrationRequired, Option.isSome_iff_exists]
  constructor
  · rintro ⟨key, hkey⟩
    exact ⟨key, (seek_eq_some hkey).1⟩
  · rintro ⟨key, hkey⟩
    by_contra hnone
    have hseek : seek db.legacyDiffs 0 = none := Option.eq_none_iff_forall_ne_some.mpr fun a ha =>
      hnone ⟨a, ha⟩
    have hlt : key < 0 := compareOfLessAndEq_eq_lt.mp (seek_eq_none_iff.mp hseek key hkey)
    exact absurd hlt BitVec.not_lt_zero

omit [DecidableEq G] in
/-- No legacy difference is left from a hash on where all that are left are below it. -/
theorem seek_eq_none_of_lt {legacyDiffs : ExtTreeMap uint256 (LegacyListDiff G)}
    {blockHash : uint256} (h : ∀ key ∈ legacyDiffs, key < blockHash) :
    seek legacyDiffs blockHash = none :=
  seek_eq_none_iff.mpr fun key hkey => compareOfLessAndEq_eq_lt.mpr (h key hkey)

/-- Without the legacy difference of the first block and with one that comes after its
hash, every start throws, and the database stays as it is. -/
theorem upgradeEvoDb_of_not_resumable {blocks : List CBlockIndex} {db : EvoDb G}
    (h : ¬Resumable blocks db) :
    upgradeEvoDb codec sha256d diffSize blocks ⟨db, []⟩ =
      .error "Invalid data, we must have legacy diffs for each height" ⟨db, []⟩ := by
  simp only [Resumable, not_forall, not_or, BitVec.not_lt] at h
  obtain ⟨first, hfirst, hgone, key, hkey, hle⟩ := h
  obtain ⟨rest, rfl⟩ := List.head?_eq_some_iff.mp hfirst
  obtain ⟨found, hfound⟩ : ∃ found, seek db.legacyDiffs first.blockHash = some found := by
    by_contra hnone
    have hseek := Option.eq_none_iff_forall_ne_some.mpr fun a ha => hnone ⟨a, ha⟩
    have hlt := compareOfLessAndEq_eq_lt.mp (seek_eq_none_iff.mp hseek key hkey)
    exact absurd hlt (BitVec.not_lt.mpr hle)
  have hne : found ≠ first.blockHash := fun heq => hgone (heq ▸ (seek_eq_some hfound).1)
  have hconv :
      convertDiffs codec sha256d diffSize db.legacyDiffs (first :: rest) {} {} [] ⟨db, []⟩ =
        .error "Invalid data, we must have legacy diffs for each height" ⟨db, []⟩ := by
    rw [convertDiffs, hfound]
    dsimp only
    rw [if_pos hne]
    rfl
  have hrequired : isMigrationRequired db = true := isMigrationRequired_iff.mpr ⟨key, hkey⟩
  rw [upgradeEvoDb, get_bind, if_pos hrequired]
  refine bind_error ?_
  rw [migrateLegacyDiffs, get_bind]
  exact bind_error hconv

/-- How far a stopped migration has come: it has converted some blocks, or all of
them and erased the legacy differences of the first ones, or it is done. -/
inductive Phase (blocks : List CBlockIndex)
    (converted : List (uint256 × CDeterministicMNListDiff G)) (db₀ db : EvoDb G) : Prop
  | converting (hlegacy : db.legacyDiffs = db₀.legacyDiffs)
    (hdiffs : ∀ h ∉ blocks.map (·.blockHash), db.diffs[h]? = db₀.diffs[h]?)
  | erasing (hdiffs : db.diffs = insertAll db₀.diffs converted) (gone : List uint256)
    (hgone : gone <+: blocks.map (·.blockHash))
    (hlegacy : db.legacyDiffs = eraseAll db₀.legacyDiffs gone)
  | done (hdiffs : db.diffs = insertAll db₀.diffs converted) (hlegacy : ∀ key, key ∉ db.legacyDiffs)

section Restart
variable {blocks : List CBlockIndex} {converted : List (uint256 × CDeterministicMNListDiff G)}
  {db₀ db : EvoDb G}

variable (diffSize) in
/-- A start with all legacy differences there. -/
theorem upgradeEvoDb_of_converting
    (hconv : convertAll codec sha256d db₀.legacyDiffs blocks {} = .ok converted)
    (hlegacy : db.legacyDiffs = db₀.legacyDiffs)
    (hdiffs : ∀ h ∉ blocks.map (·.blockHash), db.diffs[h]? = db₀.diffs[h]?)
    (hrequired : isMigrationRequired db = true) :
    ∃ d, upgradeEvoDb codec sha256d diffSize blocks ⟨db, []⟩ = .ok ⟨⟩ d ∧
      d.db.diffs = insertAll db₀.diffs converted ∧ (∀ key, key ∉ d.db.legacyDiffs) ∧
      ⟨insertAll db₀.diffs converted, eraseAll db₀.legacyDiffs (blocks.map (·.blockHash))⟩ ∈
        d.left ∧
      ∀ db' ∈ d.left, Phase blocks converted db₀ db' := by
  have hkeys := convertAll_keys hconv
  have hinsert : insertAll db.diffs converted = insertAll db₀.diffs converted :=
    insertAll_congr fun h hh => hdiffs h (hkeys ▸ hh)
  rw [← hlegacy] at hconv
  obtain ⟨batch, d₁, hrun, honto, hleft₁⟩ := convertDiffs_ok diffSize hconv {} [] ⟨db, []⟩ rfl rfl
  rw [List.nil_append] at hrun
  have hstart : ({} : CDBBatch G).onto (⟨db, []⟩ : Disk G).db = db := rfl
  rw [hstart] at honto hleft₁
  obtain ⟨d, hmigrate, hdone, hempty, herased, hleft⟩ := migrateLegacyDiffs_of_converted hrun
  rw [honto] at hdone herased hleft
  dsimp only at hdone herased hleft
  rw [hinsert] at hdone herased hleft
  rw [hlegacy] at herased hleft
  refine ⟨d, ?_, hdone, hempty, herased, fun db' hdb' => ?_⟩
  · rw [upgradeEvoDb, get_bind, if_pos hrequired, bind_ok hmigrate]
    rfl
  · rcases hleft db' hdb' with hdb₁ | ⟨gone, hgone, rfl⟩ | ⟨hall, hnone⟩
    · rcases hleft₁ db' hdb₁ with hold | ⟨hsame, hother⟩
      · exact absurd hold List.not_mem_nil
      · exact .converting (hsame.trans hlegacy) fun h hh => (hother h hh).trans (hdiffs h hh)
    · exact .erasing rfl gone hgone rfl
    · exact .done hall hnone

variable (codec sha256d diffSize) in
/-- A start after the first blocks' legacy differences are gone, with none left that
comes after the first hash. -/
theorem upgradeEvoDb_of_passed {first : CBlockIndex} (hfirst : first ∈ blocks.head?)
    (hlow : ∀ key ∈ db.legacyDiffs, key < first.blockHash)
    (hrequired : isMigrationRequired db = true) :
    ∃ d, upgradeEvoDb codec sha256d diffSize blocks ⟨db, []⟩ = .ok ⟨⟩ d ∧ d.db.diffs = db.diffs ∧
      (∀ key, key ∉ d.db.legacyDiffs) ∧
      ∀ db' ∈ d.left, db' = db ∨ db'.diffs = db.diffs ∧ ∀ key, key ∉ db'.legacyDiffs := by
  obtain ⟨rest, rfl⟩ := List.head?_eq_some_iff.mp hfirst
  have hrun : convertDiffs codec sha256d diffSize db.legacyDiffs (first :: rest) {} {} [] ⟨db, []⟩ =
      .ok ({}, []) ⟨db, []⟩ := by
    rw [convertDiffs, seek_eq_none_of_lt hlow]
    rfl
  obtain ⟨d, hmigrate, hdone, hempty, -, hleft⟩ := migrateLegacyDiffs_of_converted hrun
  refine ⟨d, ?_, hdone, hempty, fun db' hdb' => ?_⟩
  · rw [upgradeEvoDb, get_bind, if_pos hrequired, bind_ok hmigrate]
    rfl
  · rcases hleft db' hdb' with hold | ⟨gone, hgone, rfl⟩ | hall
    · exact absurd hold List.not_mem_nil
    · rw [List.prefix_nil.mp hgone]
      exact Or.inl rfl
    · exact Or.inr hall

variable (diffSize) in
/-- A database from which the migration can go on ends up like one that was never
stopped. -/
theorem upgradeEvoDb_spec (hall : ∀ pindex ∈ blocks, pindex.blockHash ∈ db₀.legacyDiffs)
    (hconv : convertAll codec sha256d db₀.legacyDiffs blocks {} = .ok converted)
    (hphase : Phase blocks converted db₀ db) (hres : Resumable blocks db) :
    ∃ d, upgradeEvoDb codec sha256d diffSize blocks ⟨db, []⟩ = .ok ⟨⟩ d ∧
      d.db.diffs = insertAll db₀.diffs converted ∧ (∀ key, key ∉ d.db.legacyDiffs) ∧
      ∀ db' ∈ d.left, Phase blocks converted db₀ db' := by
  have hkeys := convertAll_keys hconv
  by_cases hrequired : isMigrationRequired db = true
  · by_cases hall' : ∀ first ∈ blocks.head?, first.blockHash ∈ db.legacyDiffs
    · -- nothing is erased yet
      have hwhole : db.legacyDiffs = db₀.legacyDiffs ∧
          ∀ h ∉ blocks.map (·.blockHash), db.diffs[h]? = db₀.diffs[h]? := by
        cases hphase with
        | converting hlegacy hdiffs => exact ⟨hlegacy, hdiffs⟩
        | erasing hdiffs gone hgone hlegacy =>
          have hnone : gone = [] := by
            cases gone with
            | nil => rfl
            | cons h gone =>
              cases blocks with
              | nil => exact absurd (List.prefix_nil.mp hgone) (List.cons_ne_nil h gone)
              | cons first rest =>
                have hmem := hall' first rfl
                rw [hlegacy, mem_eraseAll, (List.cons_prefix_cons.mp hgone).1] at hmem
                exact absurd List.mem_cons_self hmem.2
          rw [hnone] at hlegacy
          refine ⟨hlegacy, fun h hh => ?_⟩
          rw [hdiffs]
          exact getElem?_insertAll_of_notMem (hkeys ▸ hh) db₀.diffs
        | done _ hlegacy =>
          obtain ⟨key, hkey⟩ := isMigrationRequired_iff.mp hrequired
          exact absurd hkey (hlegacy key)
      obtain ⟨d, hrun, hdiffs, hempty, -, hleft⟩ :=
        upgradeEvoDb_of_converting diffSize hconv hwhole.1 hwhole.2 hrequired
      exact ⟨d, hrun, hdiffs, hempty, hleft⟩
    · simp only [not_forall] at hall'
      obtain ⟨first, hfirst, hgone⟩ := hall'
      have hlow := (hres first hfirst).resolve_left hgone
      have hdiffs : db.diffs = insertAll db₀.diffs converted := by
        cases hphase with
        | converting hlegacy _ =>
          exact absurd (hlegacy ▸ hall first (List.mem_of_mem_head? hfirst)) hgone
        | erasing hdiffs _ _ _ => exact hdiffs
        | done hdiffs _ => exact hdiffs
      obtain ⟨d, hrun, hdone, hempty, hleft⟩ :=
        upgradeEvoDb_of_passed codec sha256d diffSize hfirst hlow hrequired
      refine ⟨d, hrun, hdone.trans hdiffs, hempty, fun db' hdb' => ?_⟩
      rcases hleft db' hdb' with rfl | ⟨hsame, hnone⟩
      · exact hphase
      · exact .done (hsame.trans hdiffs) hnone
  · have hnone : ∀ key, key ∉ db.legacyDiffs := fun key hkey =>
      hrequired (isMigrationRequired_iff.mpr ⟨key, hkey⟩)
    refine ⟨⟨db, []⟩, ?_, ?_, hnone, fun db' hdb' => absurd hdb' List.not_mem_nil⟩
    · rw [upgradeEvoDb, get_bind, if_neg hrequired]
      rfl
    · cases hphase with
      | converting hlegacy hdiffs =>
        -- no block at all is to be converted
        have hblocks : blocks = [] := by
          cases blocks with
          | nil => rfl
          | cons first rest =>
            exact absurd (hlegacy ▸ hall first List.mem_cons_self) (hnone first.blockHash)
        subst hblocks
        obtain rfl := List.map_eq_nil_iff.mp hkeys
        exact ExtTreeMap.ext_getElem? fun {h} => hdiffs h List.not_mem_nil
      | erasing hdiffs _ _ _ => exact hdiffs
      | done hdiffs _ => exact hdiffs

theorem convertAll_of_uninterrupted {fin : Disk G}
    (hall : ∀ pindex ∈ blocks, pindex.blockHash ∈ db₀.legacyDiffs)
    (hfin : upgradeEvoDb codec sha256d diffSize blocks ⟨db₀, []⟩ = .ok ⟨⟩ fin) :
    ∃ converted, convertAll codec sha256d db₀.legacyDiffs blocks {} = .ok converted := by
  cases hconv : convertAll codec sha256d db₀.legacyDiffs blocks {} with
  | ok converted => exact ⟨converted, rfl⟩
  | error e =>
    cases blocks with
    | nil => exact absurd hconv nofun
    | cons first rest =>
      have hrequired : isMigrationRequired db₀ = true :=
        isMigrationRequired_iff.mpr ⟨first.blockHash, hall first List.mem_cons_self⟩
      obtain ⟨e', d', herror⟩ :=
        convertDiffs_error diffSize hall hconv {} [] ⟨db₀, []⟩ rfl rfl
      have hthrows :
          upgradeEvoDb codec sha256d diffSize (first :: rest) ⟨db₀, []⟩ = .error e' d' := by
        rw [upgradeEvoDb, get_bind, if_pos hrequired]
        refine bind_error ?_
        rw [migrateLegacyDiffs, get_bind]
        exact bind_error herror
      rw [hthrows] at hfin
      exact absurd hfin nofun

omit [DecidableEq G] in
theorem resumable_start (hall : ∀ pindex ∈ blocks, pindex.blockHash ∈ db₀.legacyDiffs) :
    Resumable blocks db₀ :=
  fun first hfirst => Or.inl (hall first (List.mem_of_mem_head? hfirst))

theorem Stopped.phase (hall : ∀ pindex ∈ blocks, pindex.blockHash ∈ db₀.legacyDiffs)
    (hconv : convertAll codec sha256d db₀.legacyDiffs blocks {} = .ok converted)
    (hstop : Stopped codec sha256d diffSize blocks db₀ db) : Phase blocks converted db₀ db := by
  induction hstop with
  | start => exact .converting rfl fun _ _ => rfl
  | @ran db db' d _ hrun hleft ih =>
    by_cases hres : Resumable blocks db
    · obtain ⟨d', hrun', -, -, hphases⟩ := upgradeEvoDb_spec diffSize hall hconv ih hres
      rw [hrun'] at hrun
      obtain rfl : d' = d := (EStateM.Result.ok.inj hrun).2
      exact hphases db' hleft
    · rw [upgradeEvoDb_of_not_resumable hres] at hrun
      exact absurd hrun nofun
  | @threw db db' e d _ hrun hleft ih =>
    by_cases hres : Resumable blocks db
    · obtain ⟨d', hrun', -⟩ := upgradeEvoDb_spec diffSize hall hconv ih hres
      rw [hrun'] at hrun
      exact absurd hrun nofun
    · rw [upgradeEvoDb_of_not_resumable hres] at hrun
      obtain ⟨-, rfl⟩ := EStateM.Result.error.inj hrun
      exact absurd hleft List.not_mem_nil

/-- A stop before the dangling phase leaves a database that no start gets past, when
the chain leaves out a legacy difference that comes after the first block's. -/
theorem stopped_not_resumable
    (hconv : convertAll codec sha256d db₀.legacyDiffs blocks {} = .ok converted)
    {first : CBlockIndex} (hfirst : first ∈ blocks.head?) {key : uint256}
    (hkey : key ∈ db₀.legacyDiffs) (hdangling : key ∉ blocks.map (·.blockHash))
    (hlt : first.blockHash < key) :
    Stopped codec sha256d diffSize blocks db₀
        ⟨insertAll db₀.diffs converted, eraseAll db₀.legacyDiffs (blocks.map (·.blockHash))⟩ ∧
      ¬Resumable blocks
        ⟨insertAll db₀.diffs converted, eraseAll db₀.legacyDiffs (blocks.map (·.blockHash))⟩ := by
  constructor
  · have hrequired := isMigrationRequired_iff.mpr ⟨key, hkey⟩
    obtain ⟨d, hrun, -, -, hleft, -⟩ :=
      upgradeEvoDb_of_converting diffSize hconv rfl (fun _ _ => rfl) hrequired
    exact .ran .start hrun hleft
  · intro hres
    rcases hres first hfirst with hmem | hlow
    · exact (mem_eraseAll.mp hmem).2 (List.mem_map_of_mem (List.mem_of_mem_head? hfirst))
    · have hlow' : key < first.blockHash := hlow key (mem_eraseAll.mpr ⟨hkey, hdangling⟩)
      exact absurd hlow' (BitVec.not_lt.mpr (BitVec.le_of_lt hlt))

/-- Wherever the migration was stopped, the next start completes it as if it had not
been stopped exactly when the first block still has its legacy difference or none
that is left comes after its hash. -/
theorem restart_completes_iff {fin : Disk G}
    (hall : ∀ pindex ∈ blocks, pindex.blockHash ∈ db₀.legacyDiffs)
    (hfin : upgradeEvoDb codec sha256d diffSize blocks ⟨db₀, []⟩ = .ok ⟨⟩ fin)
    (hstop : Stopped codec sha256d diffSize blocks db₀ db) :
    (∃ d, upgradeEvoDb codec sha256d diffSize blocks ⟨db, []⟩ = .ok ⟨⟩ d ∧
        d.db.diffs = fin.db.diffs ∧ ∀ key, key ∉ d.db.legacyDiffs) ↔
      Resumable blocks db := by
  obtain ⟨converted, hconv⟩ := convertAll_of_uninterrupted hall hfin
  constructor
  · rintro ⟨d, hrun, -⟩
    by_contra hres
    rw [upgradeEvoDb_of_not_resumable hres] at hrun
    exact absurd hrun nofun
  · intro hres
    obtain ⟨d, hrun, hdiffs, hempty, -⟩ :=
      upgradeEvoDb_spec diffSize hall hconv (hstop.phase hall hconv) hres
    obtain ⟨fin', hrun', hdiffs', -⟩ := upgradeEvoDb_spec diffSize hall hconv
      (.converting rfl fun _ _ => rfl) (resumable_start hall)
    rw [hrun'] at hfin
    obtain rfl : fin' = fin := (EStateM.Result.ok.inj hfin).2
    exact ⟨d, hrun, hdiffs.trans hdiffs'.symm, hempty⟩

end Restart

section Samples

/-- The block at the activation height, which is also the tip. -/
def oneBlock : List CBlockIndex := [{blockHash := 1, nHeight := 1}]

/-- A difference of the block and one of a block that is not in the chain. -/
def withDangling : EvoDb Unit where
  legacyDiffs := ((∅ : ExtTreeMap uint256 (LegacyListDiff Unit)).insert 1 {}).insert 2 {}

/-- The database between the erase phase and the dangling phase. -/
def betweenPhases : EvoDb Unit :=
  ⟨insertAll ∅ [(1, {})], eraseAll withDangling.legacyDiffs (oneBlock.map (·.blockHash))⟩

/-- An empty difference takes three bytes. -/
def emptyDiffSize (_ : CDeterministicMNListDiff Unit) : ℕ := 3

theorem mem_withDangling : ∀ pindex ∈ oneBlock, pindex.blockHash ∈ withDangling.legacyDiffs := by
  decide +kernel

theorem convertAll_withDangling :
    convertAll oneCodec digest withDangling.legacyDiffs oneBlock {} = .ok [(1, {})] := by
  rfl

theorem upgradeEvoDb_withDangling :
    ∃ fin, upgradeEvoDb oneCodec digest emptyDiffSize oneBlock ⟨withDangling, []⟩ = .ok ⟨⟩ fin ∧
      fin.db.diffs = insertAll ∅ [(1, {})] := by
  obtain ⟨fin, hfin, hdiffs, -⟩ := upgradeEvoDb_of_converting emptyDiffSize convertAll_withDangling
    rfl (fun _ _ => rfl) (isMigrationRequired_iff.mpr ⟨1, mem_withDangling _ List.mem_cons_self⟩)
  exact ⟨fin, hfin, hdiffs⟩

theorem betweenPhases_stuck :
    Stopped oneCodec digest emptyDiffSize oneBlock withDangling betweenPhases ∧
      ¬Resumable oneBlock betweenPhases :=
  stopped_not_resumable convertAll_withDangling rfl
    (by decide +kernel : (2 : uint256) ∈ withDangling.legacyDiffs) (by decide) (by decide)

theorem restart_completes_iff_betweenPhases :
    (∃ d, upgradeEvoDb oneCodec digest emptyDiffSize oneBlock ⟨betweenPhases, []⟩ = .ok ⟨⟩ d ∧
        d.db.diffs = insertAll ∅ [(1, {})] ∧ ∀ key, key ∉ d.db.legacyDiffs) ↔
      Resumable oneBlock betweenPhases := by
  obtain ⟨fin, hfin, hdiffs⟩ := upgradeEvoDb_withDangling
  rw [← hdiffs]
  exact restart_completes_iff mem_withDangling hfin betweenPhases_stuck.1

/-- The one block is converted and its legacy difference erased. The dangling one
then stands where the block's is looked for, at every start. -/
theorem restart_not_completes :
    (∀ pindex ∈ oneBlock, pindex.blockHash ∈ withDangling.legacyDiffs) ∧
      (∃ fin, upgradeEvoDb oneCodec digest emptyDiffSize oneBlock ⟨withDangling, []⟩ = .ok ⟨⟩ fin) ∧
      Stopped oneCodec digest emptyDiffSize oneBlock withDangling betweenPhases ∧
      upgradeEvoDb oneCodec digest emptyDiffSize oneBlock ⟨betweenPhases, []⟩ =
        .error "Invalid data, we must have legacy diffs for each height" ⟨betweenPhases, []⟩ := by
  obtain ⟨fin, hfin, -⟩ := upgradeEvoDb_withDangling
  exact ⟨mem_withDangling, ⟨fin, hfin⟩, betweenPhases_stuck.1,
    upgradeEvoDb_of_not_resumable betweenPhases_stuck.2⟩

end Samples
end CDeterministicMNManager
end BabaChain.Evo.ByValue
