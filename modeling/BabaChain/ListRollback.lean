import BabaChain.ListStatements
import BabaChain.ListRuns

/-! A call of a masternode list that throws leaves the list as it was. Unique properties are added
and deleted one by one, each failure puts their map back, and nothing throws once the main maps are
written. -/
namespace BabaChain.Evo.InPlace
open BLS Triples

variable {G : Type}

section Rules
variable {list : CDeterministicMNList} {α : Type} {codec : KeyCodec G}
  {sha256d : List UInt8 → uint256}

/-- Only the unique properties differ from what the list had. -/
def Within (list : CDeterministicMNList) (s : CDeterministicMNList × KeyStore G) : Prop :=
  s.1 = {list with mnUniquePropertyMap := s.1.mnUniquePropertyMap}

def Unchanged (list : CDeterministicMNList) (s : CDeterministicMNList × KeyStore G) : Prop :=
  s.1 = list

theorem within_of_unchanged {s : CDeterministicMNList × KeyStore G} (h : Unchanged list s) :
    Within list s := by
  rw [Unchanged] at h
  rw [Within, h]

/-- The statement goes on with a list that differs in its unique properties alone, or it throws with
the list as it was. -/
def Guarded (list : CDeterministicMNList) (call : Statement G α) : Prop :=
  Triple (Within list) call (fun _ => Within list) (Unchanged list)

theorem guarded_onProperties (op : Properties G → Bool × Properties G) :
    Guarded list (onProperties op) := by
  refine triple_modifyGet fun s hs => ?_
  rw [Within] at hs ⊢
  rw [hs]

theorem guarded_pure (a : α) : Guarded list (pure a : Statement G α) :=
  triple_pure fun _ hs => hs

theorem guarded_get :
    Guarded list (get : Statement G (CDeterministicMNList × KeyStore G)) :=
  triple_modifyGet fun _ hs => hs

theorem Guarded.bind {β : Type} {call : Statement G α} {f : α → Statement G β}
    (h : Guarded list call) (hf : ∀ a, Guarded list (f a)) : Guarded list (call >>= f) :=
  Triple.bind h hf

theorem guarded_onlyIf (c : Prop) [Decidable c] {call : Statement G PUnit}
    (h : Guarded list call) : Guarded list (onlyIf c call) :=
  triple_ite (fun _ => h) fun _ => guarded_pure PUnit.unit

/-- The saved map puts the list back, whatever was done to the properties. -/
theorem guarded_rollBack (reason : String) :
    Guarded list (rollBack list.mnUniquePropertyMap reason : Statement G PUnit) := by
  have hrestore : Triple (Within (G := G) list) (restore list.mnUniquePropertyMap)
      (fun _ => Unchanged list) (Unchanged list) := by
    refine triple_modify fun s hs => ?_
    rw [Within] at hs
    rw [Unchanged, hs]
  exact hrestore.bind fun _ => triple_throw fun s hs => hs

theorem guarded_orRollBack {call : Statement G Bool} (h : Guarded list call) (reason : String) :
    Guarded list (orRollBack list.mnUniquePropertyMap call reason) := by
  refine h.bind fun done => ?_
  cases done with
  | true => exact guarded_pure PUnit.unit
  | false => exact guarded_rollBack reason

theorem guarded_onEntry {property : UniqueProperty → Statement G α} {invalid : Statement G α}
    (hproperty : ∀ v, Guarded list (property v)) (hinvalid : Guarded list invalid)
    (entry : NetInfoEntry) : Guarded list (onEntry property invalid entry) := by
  rw [onEntry]
  cases entry.getAddrPort with
  | some service => exact hproperty (.service service)
  | none =>
    cases entry.getDomainPort with
    | some domain => exact hproperty (.domain domain)
    | none => exact hinvalid

theorem guarded_eachProperty {op : UniqueProperty → Statement G Bool}
    (hop : ∀ v, Guarded list (op v)) (failed : String → String) (invalid : String)
    (dmn : CDeterministicMN) :
    Guarded list (eachProperty op failed invalid dmn list.mnUniquePropertyMap) := by
  have hcheck (name : String) (v : UniqueProperty) :
      Guarded list (orRollBack list.mnUniquePropertyMap (op v) (failed name)) :=
    guarded_orRollBack (hop v) (failed name)
  rw [eachProperty]
  refine (hcheck "collateralOutpoint" _).bind fun _ => ?_
  refine Guarded.bind ?_ fun _ => ?_
  · exact triple_forM (fun _ => Within list) [] fun _ entry _ =>
      guarded_onEntry (hcheck "address") (guarded_rollBack invalid) entry
  refine (hcheck "keyIDOwner" _).bind fun _ => ?_
  refine guarded_get.bind fun s => ?_
  refine (guarded_onlyIf _ (hcheck "pubKeyOperator" _)).bind fun _ => ?_
  exact guarded_onlyIf _ (hcheck "platformNodeID" _)

theorem guarded_textUnless {call : Statement G Bool} (h : Guarded list call) (err : String) :
    Guarded list (textUnless call err) := by
  refine h.bind fun done => ?_
  cases done with
  | true => exact guarded_pure ""
  | false => exact guarded_pure err

theorem guarded_untilText {turn : NetInfoEntry → Statement G String}
    (h : ∀ entry, Guarded list (turn entry)) (entries : List NetInfoEntry) :
    Guarded list (untilText turn entries) := by
  induction entries with
  | nil => exact guarded_pure ""
  | cons entry rest ih =>
    refine (h entry).bind fun err => ?_
    exact triple_ite (fun _ => ih) fun _ => guarded_pure err

/-- The lambda never throws, and the addresses it has deleted and added are not put back by it. -/
theorem guarded_updateNetInfo (dmn : CDeterministicMN) (oldInfo newInfo : NetInfo) :
    Guarded list (updateNetInfo codec sha256d dmn oldInfo newInfo) := by
  refine triple_ite (fun _ => guarded_pure "") fun _ => ?_
  refine Guarded.bind ?_ fun err => ?_
  · exact guarded_untilText (guarded_onEntry
      (fun v => guarded_textUnless (guarded_onProperties _) _) (guarded_pure _)) _
  · refine triple_ite (fun _ => ?_) fun _ => guarded_pure err
    exact guarded_untilText (guarded_onEntry
      (fun v => guarded_textUnless (guarded_onProperties _) _) (guarded_pure _)) _

end Rules

section Calls
variable {list : CDeterministicMNList}

/-- The call throws only with the list as it was. -/
def PutsBack (list : CDeterministicMNList) (call : Statement G PUnit) : Prop :=
  Triple (Unchanged list) call (fun _ _ => True) (Unchanged list)

/-- The saved map is the one that the call finds. -/
theorem putsBack_get {f : CDeterministicMNList × KeyStore G → Statement G PUnit}
    (h : ∀ s, Unchanged list s → PutsBack list (f s)) : PutsBack list (get >>= f) :=
  fun s hs => h s hs s hs

theorem putsBack_throw (reason : String) : PutsBack list (throw reason : Statement G PUnit) :=
  triple_throw fun _ hs => hs

theorem putsBack_refuse {bad : Prop} [Decidable bad] {reason : String}
    {rest : PUnit → Statement G PUnit} (h : PutsBack list (rest ⟨⟩)) :
    PutsBack list (refuse bad reason >>= rest) :=
  triple_refuse_bind (fun _ hs => hs) fun _ => h

/-- The rest of a call, with properties changed before it. -/
def Finishes (list : CDeterministicMNList) (call : Statement G PUnit) : Prop :=
  Triple (Within list) call (fun _ _ => True) (Unchanged list)

theorem Guarded.finishes {α : Type} {call : Statement G α} {rest : α → Statement G PUnit}
    (h : Guarded list call) (hrest : ∀ a, Finishes list (rest a)) :
    Finishes list (call >>= rest) :=
  Triple.bind h hrest

theorem Finishes.putsBack {call : Statement G PUnit} (h : Finishes list call) :
    PutsBack list call :=
  Triple.pre h fun _ => within_of_unchanged

def NoThrow (call : Statement G PUnit) : Prop :=
  Triple (fun _ => True) call (fun _ _ => True) fun _ => False

theorem NoThrow.finishes {call : Statement G PUnit} (h : NoThrow call) : Finishes list call :=
  (Triple.pre h fun _ _ => trivial).post (fun _ _ _ => trivial) fun _ => False.elim

theorem noThrow_modify (f : CDeterministicMNList × KeyStore G → CDeterministicMNList × KeyStore G) :
    NoThrow (modify f) :=
  triple_modify fun _ _ => trivial

theorem NoThrow.bind {call : Statement G PUnit} {rest : PUnit → Statement G PUnit}
    (h : NoThrow call) (hrest : ∀ u, NoThrow (rest u)) : NoThrow (call >>= rest) :=
  Triple.bind h hrest

theorem noThrow_onlyIf (c : Prop) [Decidable c] {call : Statement G PUnit} (h : NoThrow call) :
    NoThrow (onlyIf c call) :=
  triple_ite (fun _ => h) fun _ => triple_pure fun _ _ => trivial

variable {codec : KeyCodec G} {sha256d : List UInt8 → uint256}

theorem putsBack_addMN (list : CDeterministicMNList) (dmn : CDeterministicMN)
    (fBumpTotalCount : Bool) : PutsBack list (addMN codec sha256d dmn fBumpTotalCount) := by
  refine putsBack_get fun s hs => ?_
  refine putsBack_refuse (putsBack_refuse (Finishes.putsBack ?_))
  rw [hs]
  refine (guarded_eachProperty (fun v => guarded_onProperties _) _ _ dmn).finishes fun _ => ?_
  -- the main maps, and from here on nothing throws
  refine NoThrow.finishes ?_
  refine (noThrow_modify _).bind fun _ => (noThrow_modify _).bind fun _ => ?_
  exact (noThrow_modify _).bind fun _ => noThrow_onlyIf _ (noThrow_modify _)

theorem putsBack_removeMN (list : CDeterministicMNList) (proTxHash : uint256) :
    PutsBack list (removeMN codec sha256d proTxHash) := by
  refine putsBack_get fun s hs => ?_
  rw [hs]
  dsimp only
  cases list.getMN proTxHash with
  | none => exact putsBack_throw _
  | some dmn =>
    refine Finishes.putsBack ?_
    refine (guarded_eachProperty (fun v => guarded_onProperties _) _ _ dmn).finishes fun _ => ?_
    refine NoThrow.finishes ?_
    exact (noThrow_modify _).bind fun _ => (noThrow_modify _).bind fun _ => noThrow_modify _

variable [DecidableEq G]

theorem putsBack_updateMN (list : CDeterministicMNList) (oldDmn : CDeterministicMN)
    (pdmnState : CDeterministicMNState) :
    PutsBack list (updateMN codec sha256d oldDmn pdmnState) := by
  have hupdate (oldValue newValue : UniqueProperty) (reason : String) :
      Guarded list (orRollBack list.mnUniquePropertyMap
        (updateUniqueProperty codec sha256d oldDmn oldValue newValue) reason) :=
    guarded_orRollBack (guarded_onProperties _) reason
  refine putsBack_get fun s hs => ?_
  rw [hs]
  refine Finishes.putsBack ?_
  refine (guarded_updateNetInfo oldDmn _ _).finishes fun err => ?_
  refine (guarded_onlyIf _ (guarded_rollBack _)).finishes fun _ => ?_
  refine (hupdate _ _ _).finishes fun _ => (hupdate _ _ _).finishes fun _ => ?_
  refine (guarded_onlyIf _ (hupdate _ _ _)).finishes fun _ => ?_
  exact NoThrow.finishes ((noThrow_modify _).bind fun _ => noThrow_modify _)

theorem putsBack_updateMNByHash (list : CDeterministicMNList) (proTxHash : uint256)
    (pdmnState : CDeterministicMNState) :
    PutsBack list (updateMNByHash codec sha256d proTxHash pdmnState) := by
  refine putsBack_get fun s hs => ?_
  rw [hs]
  dsimp only
  cases list.getMN proTxHash with
  | none => exact putsBack_throw _
  | some oldDmn => exact putsBack_updateMN list oldDmn pdmnState

end Calls

/-- Where the call throws, the maps and the counter are as they were. -/
def AtomicOnFailure (call : Statement G PUnit) : Prop :=
  ∀ (list list' : CDeterministicMNList) (store store' : KeyStore G) (reason : String),
    call.run.run (list, store) = (.error reason, list', store') →
      list'.mnMap = list.mnMap ∧ list'.mnInternalIdMap = list.mnInternalIdMap ∧
        list'.mnUniquePropertyMap = list.mnUniquePropertyMap ∧
          list'.nTotalRegisteredCount = list.nTotalRegisteredCount

theorem atomicOnFailure_of_putsBack {call : Statement G PUnit} (h : ∀ list, PutsBack list call) :
    AtomicOnFailure call := by
  intro list list' store store' reason hrun
  have hstart : Unchanged list (list, store) := rfl
  obtain rfl : list' = list := (h list).error hstart hrun
  exact ⟨rfl, rfl, rfl, rfl⟩

theorem operations_atomic_on_failure [DecidableEq G] (codec : KeyCodec G)
    (sha256d : List UInt8 → uint256) :
    (∀ (dmn : CDeterministicMN) (fBumpTotalCount : Bool),
        AtomicOnFailure (addMN codec sha256d dmn fBumpTotalCount)) ∧
      (∀ (oldDmn : CDeterministicMN) (pdmnState : CDeterministicMNState),
        AtomicOnFailure (updateMN codec sha256d oldDmn pdmnState)) ∧
      (∀ (proTxHash : uint256) (pdmnState : CDeterministicMNState),
        AtomicOnFailure (updateMNByHash codec sha256d proTxHash pdmnState)) ∧
      ∀ proTxHash : uint256, AtomicOnFailure (removeMN codec sha256d proTxHash) := by
  refine ⟨fun dmn fBumpTotalCount => ?_, fun oldDmn pdmnState => ?_,
    fun proTxHash pdmnState => ?_, fun proTxHash => ?_⟩
  · exact atomicOnFailure_of_putsBack fun list => putsBack_addMN list dmn fBumpTotalCount
  · exact atomicOnFailure_of_putsBack fun list => putsBack_updateMN list oldDmn pdmnState
  · exact atomicOnFailure_of_putsBack fun list => putsBack_updateMNByHash list proTxHash pdmnState
  · exact atomicOnFailure_of_putsBack fun list => putsBack_removeMN list proTxHash

open ByValue (oneCodec digest)

def ownerMN (i : ℕ) : CDeterministicMN where
  internalId := UInt64.ofNat i
  proTxHash := BitVec.ofNat 256 i
  collateralOutpoint := ⟨BitVec.ofNat 256 i, 0⟩
  pdmnState := {keyIDOwner := 7, pubKeyOperator := 0, netInfo := .mn {}}

/-- A list with one masternode, whose owner key a second one has as well. -/
def ownerTaken : CDeterministicMNList :=
  ((addMN oneCodec digest (ownerMN 1) true).run.run ({}, {})).2.1

def refused : CDeterministicMNList × KeyStore Unit :=
  ((addMN oneCodec digest (ownerMN 2) true).run.run (ownerTaken, {})).2

theorem operations_atomic_on_failure_ownerTaken :
    (addMN oneCodec digest (ownerMN 2) true).run.run (ownerTaken, {}) =
        (.error "Can't add a masternode with a duplicate keyIDOwner", refused.1, refused.2) ∧
      ownerTaken.mnMap.size = 1 ∧ refused.1.mnMap = ownerTaken.mnMap ∧
        refused.1.mnInternalIdMap = ownerTaken.mnInternalIdMap ∧
        refused.1.mnUniquePropertyMap = ownerTaken.mnUniquePropertyMap ∧
        refused.1.nTotalRegisteredCount = ownerTaken.nTotalRegisteredCount := by
  have hthrows : ((addMN oneCodec digest (ownerMN 2) true).run.run (ownerTaken, {})).1 =
      .error "Can't add a masternode with a duplicate keyIDOwner" := by
    decide +kernel
  have hrun : (addMN oneCodec digest (ownerMN 2) true).run.run (ownerTaken, {}) =
      (.error "Can't add a masternode with a duplicate keyIDOwner", refused.1, refused.2) := by
    rw [refused]
    generalize (addMN oneCodec digest (ownerMN 2) true).run.run (ownerTaken, {}) = r at hthrows ⊢
    rw [← hthrows]
    rfl
  have hsize : ownerTaken.mnMap.size = 1 := by decide +kernel
  exact ⟨hrun, hsize, (operations_atomic_on_failure oneCodec digest).1 (ownerMN 2) true ownerTaken
    refused.1 {} refused.2 _ hrun⟩

end BabaChain.Evo.InPlace
