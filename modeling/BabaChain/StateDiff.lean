import BabaChain.ValueList

/-! The difference of two masternode states, field by field. -/
namespace BabaChain.Evo

theorem NetInfo.isEqual_self (info : NetInfo) : info.isEqual info = true := by
  cases info with
  | mn info => exact decide_eq_true rfl
  | ext info => exact Bool.and_eq_true_iff.mpr ⟨decide_eq_true rfl, decide_eq_true rfl⟩

theorem NetInfo.isEqual_comm (a b : NetInfo) : a.isEqual b = b.isEqual a := by
  cases a with
  | mn a =>
    cases b with
    | mn b => exact decide_eq_decide.mpr eq_comm
    | ext b => rfl
  | ext a =>
    cases b with
    | mn b => rfl
    | ext b =>
      exact congrArg₂ and (decide_eq_decide.mpr eq_comm) (decide_eq_decide.mpr eq_comm)

end BabaChain.Evo

namespace BabaChain.Evo.ByValue
open BLS

section Keys
variable {G : Type*} [DecidableEq G] {codec : KeyCodec G}

theorem keyEqual_self (k : CBLSLazyPublicKey G) : keyEqual codec k k = true := by
  rw [keyEqual, CBLSLazyPublicKey.equal, bne_self_eq_false, if_neg Bool.false_ne_true]
  split_ifs
  · rfl
  · exact decide_eq_true (rfl : k.vecBytes = k.vecBytes)
  · exact decide_eq_true (rfl : k.obj = k.obj)
  · exact decide_eq_true (rfl : (k.get codec).1 = (k.get codec).1)

theorem keyEqual_comm (a b : CBLSLazyPublicKey G) : keyEqual codec a b = keyEqual codec b a := by
  have hdefault : (a.isDefault && b.isDefault) = (b.isDefault && a.isDefault) := Bool.and_comm _ _
  have hone : (a.isDefault != b.isDefault) = (b.isDefault != a.isDefault) := bne_comm
  have hbuf : (a.bufValid && b.bufValid && a.bufLegacyScheme == b.bufLegacyScheme) =
      (b.bufValid && a.bufValid && b.bufLegacyScheme == a.bufLegacyScheme) := by
    rw [Bool.and_comm a.bufValid, Bool.beq_comm]
  have hobj : (a.objInitialized && b.objInitialized) = (b.objInitialized && a.objInitialized) :=
    Bool.and_comm _ _
  rw [keyEqual, keyEqual, CBLSLazyPublicKey.equal, CBLSLazyPublicKey.equal, hdefault, hone, hbuf, hobj]
  split_ifs
  · rfl
  · rfl
  · exact decide_eq_decide.mpr eq_comm
  · exact decide_eq_decide.mpr eq_comm
  · exact decide_eq_decide.mpr eq_comm

end Keys

/-- `enum Field`, in the order of `members`. -/
inductive Field
  | nVersion | nRegisteredHeight | nLastPaidHeight | nPoSePenalty | nPoSeRevivedHeight
  | nPoSeBanHeight | nRevocationReason | confirmedHash | confirmedHashWithProRegTxHash | keyIDOwner
  | pubKeyOperator | keyIDVoting | netInfo | scriptPayout | scriptOperatorPayout
  | nConsecutivePayments | platformNodeID | platformP2PPort | platformHTTPPort
deriving DecidableEq, Repr

namespace Field

def members : List Field :=
  [nVersion, nRegisteredHeight, nLastPaidHeight, nPoSePenalty, nPoSeRevivedHeight, nPoSeBanHeight,
    nRevocationReason, confirmedHash, confirmedHashWithProRegTxHash, keyIDOwner, pubKeyOperator,
    keyIDVoting, netInfo, scriptPayout, scriptOperatorPayout, nConsecutivePayments, platformNodeID,
    platformP2PPort, platformHTTPPort]

variable {G : Type*}

/-- `member.get(target) = member.get(state)`. -/
def assign (state target : CDeterministicMNState G) : Field → CDeterministicMNState G
  | nVersion => {target with nVersion := state.nVersion}
  | nRegisteredHeight => {target with nRegisteredHeight := state.nRegisteredHeight}
  | nLastPaidHeight => {target with nLastPaidHeight := state.nLastPaidHeight}
  | nPoSePenalty => {target with nPoSePenalty := state.nPoSePenalty}
  | nPoSeRevivedHeight => {target with nPoSeRevivedHeight := state.nPoSeRevivedHeight}
  | nPoSeBanHeight => {target with nPoSeBanHeight := state.nPoSeBanHeight}
  | nRevocationReason => {target with nRevocationReason := state.nRevocationReason}
  | confirmedHash => {target with confirmedHash := state.confirmedHash}
  | confirmedHashWithProRegTxHash =>
    {target with confirmedHashWithProRegTxHash := state.confirmedHashWithProRegTxHash}
  | keyIDOwner => {target with keyIDOwner := state.keyIDOwner}
  | pubKeyOperator => {target with pubKeyOperator := state.pubKeyOperator}
  | keyIDVoting => {target with keyIDVoting := state.keyIDVoting}
  | netInfo => {target with netInfo := state.netInfo}
  | scriptPayout => {target with scriptPayout := state.scriptPayout}
  | scriptOperatorPayout => {target with scriptOperatorPayout := state.scriptOperatorPayout}
  | nConsecutivePayments => {target with nConsecutivePayments := state.nConsecutivePayments}
  | platformNodeID => {target with platformNodeID := state.platformNodeID}
  | platformP2PPort => {target with platformP2PPort := state.platformP2PPort}
  | platformHTTPPort => {target with platformHTTPPort := state.platformHTTPPort}

variable [DecidableEq G] (codec : KeyCodec G)

/-- `member.get(a) != member.get(b)`. Keys and addresses have comparisons of their
own. -/
def differs (a b : CDeterministicMNState G) : Field → Bool
  | nVersion => a.nVersion != b.nVersion
  | nRegisteredHeight => a.nRegisteredHeight != b.nRegisteredHeight
  | nLastPaidHeight => a.nLastPaidHeight != b.nLastPaidHeight
  | nPoSePenalty => a.nPoSePenalty != b.nPoSePenalty
  | nPoSeRevivedHeight => a.nPoSeRevivedHeight != b.nPoSeRevivedHeight
  | nPoSeBanHeight => a.nPoSeBanHeight != b.nPoSeBanHeight
  | nRevocationReason => a.nRevocationReason != b.nRevocationReason
  | confirmedHash => decide (a.confirmedHash ≠ b.confirmedHash)
  | confirmedHashWithProRegTxHash =>
    decide (a.confirmedHashWithProRegTxHash ≠ b.confirmedHashWithProRegTxHash)
  | keyIDOwner => decide (a.keyIDOwner ≠ b.keyIDOwner)
  | pubKeyOperator => !keyEqual codec a.pubKeyOperator b.pubKeyOperator
  | keyIDVoting => decide (a.keyIDVoting ≠ b.keyIDVoting)
  | netInfo => !a.netInfo.isEqual b.netInfo
  | scriptPayout => a.scriptPayout != b.scriptPayout
  | scriptOperatorPayout => a.scriptOperatorPayout != b.scriptOperatorPayout
  | nConsecutivePayments => a.nConsecutivePayments != b.nConsecutivePayments
  | platformNodeID => decide (a.platformNodeID ≠ b.platformNodeID)
  | platformP2PPort => a.platformP2PPort != b.platformP2PPort
  | platformHTTPPort => a.platformHTTPPort != b.platformHTTPPort

omit [DecidableEq G] in
/-- Assigning a field leaves the others as they are. -/
theorem assign_assign (base s t : CDeterministicMNState G) (f g : Field) :
    assign (assign s t f) base g = if f = g then assign s base g else assign t base g := by
  cases f <;> cases g <;> rfl

omit [DecidableEq G] in
theorem ext_assign (base : CDeterministicMNState G) {s t : CDeterministicMNState G}
    (h : ∀ f, assign s base f = assign t base f) :
    s = t := by
  have hproj : ∀ {α : Type} (p : CDeterministicMNState G → α) (f : Field),
      p (assign s base f) = p (assign t base f) := fun p f => congrArg p (h f)
  cases s
  cases t
  congr 1
  · exact hproj (·.nPoSeBanHeight) nPoSeBanHeight
  · exact hproj (·.nVersion) nVersion
  · exact hproj (·.nRegisteredHeight) nRegisteredHeight
  · exact hproj (·.nLastPaidHeight) nLastPaidHeight
  · exact hproj (·.nConsecutivePayments) nConsecutivePayments
  · exact hproj (·.nPoSePenalty) nPoSePenalty
  · exact hproj (·.nPoSeRevivedHeight) nPoSeRevivedHeight
  · exact hproj (·.nRevocationReason) nRevocationReason
  · exact hproj (·.confirmedHash) confirmedHash
  · exact hproj (·.confirmedHashWithProRegTxHash) confirmedHashWithProRegTxHash
  · exact hproj (·.keyIDOwner) keyIDOwner
  · exact congrArg (·.pubKeyOperator) (h pubKeyOperator)
  · exact hproj (·.keyIDVoting) keyIDVoting
  · exact hproj (·.netInfo) netInfo
  · exact hproj (·.scriptPayout) scriptPayout
  · exact hproj (·.scriptOperatorPayout) scriptOperatorPayout
  · exact hproj (·.platformNodeID) platformNodeID
  · exact hproj (·.platformP2PPort) platformP2PPort
  · exact hproj (·.platformHTTPPort) platformHTTPPort

theorem mem_members (f : Field) : f ∈ members := by
  cases f <;> decide

variable {codec} in
theorem differs_self (s : CDeterministicMNState G) (f : Field) : f.differs codec s s = false := by
  cases f <;>
    simp only [differs, bne_self_eq_false, ne_eq, not_true_eq_false, decide_false, keyEqual_self,
      NetInfo.isEqual_self, Bool.not_true]

variable {codec} in
theorem differs_comm (a b : CDeterministicMNState G) (f : Field) :
    f.differs codec a b = f.differs codec b a := by
  cases f with
  | pubKeyOperator => exact congrArg not (keyEqual_comm _ _)
  | netInfo => exact congrArg not (NetInfo.isEqual_comm _ _)
  | confirmedHash | confirmedHashWithProRegTxHash | keyIDOwner | keyIDVoting | platformNodeID =>
    exact decide_eq_decide.mpr ne_comm
  | _ => exact bne_comm

/-- What is not found to differ is the same, but for keys and addresses. -/
theorem assign_eq_of_not_differs {base a b : CDeterministicMNState G} {f : Field}
    (h : differs codec a b f = false) (hkey : f ≠ pubKeyOperator) (hinfo : f ≠ netInfo) :
    assign a base f = assign b base f := by
  cases f with
  | pubKeyOperator => exact absurd rfl hkey
  | netInfo => exact absurd rfl hinfo
  | confirmedHash | confirmedHashWithProRegTxHash | keyIDOwner | keyIDVoting | platformNodeID =>
    simp only [differs, ne_eq, decide_eq_false_iff_not, Decidable.not_not] at h
    simp only [assign, h]
  | _ =>
    simp only [differs, bne_eq_false_iff_eq] at h
    simp only [assign, h]

end Field

/-- The set of the fields that are valid, which the source keeps as a bit mask, and
a state that has them. -/
structure CDeterministicMNStateDiff (G : Type*) where
  fields : Finset Field := ∅
  state : CDeterministicMNState G

namespace CDeterministicMNStateDiff

variable {G : Type*} [DecidableEq G] (codec : KeyCodec G)

/-- Takes over one field where it differs. -/
def visit (a b : CDeterministicMNState G) (d : CDeterministicMNStateDiff G) (f : Field) :
    CDeterministicMNStateDiff G :=
  if f.differs codec a b then ⟨insert f d.fields, f.assign b d.state⟩ else d

/-- The constructor. Keys and addresses need the version that they are written in. -/
def ofStates (a b : CDeterministicMNState G) : CDeterministicMNStateDiff G :=
  let d := Field.members.foldl (visit codec a b) ⟨∅, {netInfo := .mn {}}⟩
  if .pubKeyOperator ∈ d.fields ∨ .netInfo ∈ d.fields then
    ⟨insert .nVersion d.fields, {d.state with nVersion := b.nVersion}⟩
  else d

def applyToState (d : CDeterministicMNStateDiff G) (target : CDeterministicMNState G) :
    CDeterministicMNState G :=
  Field.members.foldl (fun target f => if f ∈ d.fields then f.assign d.state target else target)
    target

variable {codec} {a b : CDeterministicMNState G}

omit [DecidableEq G] in
theorem assign_applyToState (base : CDeterministicMNState G) (d : CDeterministicMNStateDiff G)
    (target : CDeterministicMNState G) (f : Field) :
    f.assign (d.applyToState target) base =
      if f ∈ d.fields then f.assign d.state base else f.assign target base := by
  have hfold : ∀ (fs : List Field) (target : CDeterministicMNState G),
      f.assign (fs.foldl (fun target f => if f ∈ d.fields then f.assign d.state target else target)
        target) base =
      if f ∈ fs ∧ f ∈ d.fields then f.assign d.state base else f.assign target base := by
    intro fs
    induction fs with
    | nil =>
      intro target
      rw [if_neg fun h => absurd h.1 List.not_mem_nil]
      rfl
    | cons g fs ih =>
      intro target
      rw [List.foldl_cons, ih]
      by_cases hg : g ∈ d.fields
      · rw [if_pos hg, Field.assign_assign]
        by_cases hgf : g = f
        · subst hgf
          simp only [hg, and_true, List.mem_cons, true_or, if_true, ite_self]
        · simp only [if_neg hgf, List.mem_cons, Ne.symm hgf, false_or]
      · rw [if_neg hg]
        by_cases hgf : g = f
        · subst hgf
          simp only [hg, and_false, if_false]
        · simp only [List.mem_cons, Ne.symm hgf, false_or]
  have hall := hfold Field.members target
  simp only [Field.mem_members, true_and] at hall
  exact hall

/-- What the constructor collects is what differs, and the version next to keys
and addresses. -/
theorem mem_fields {f : Field} : f ∈ (ofStates codec a b).fields ↔
    f.differs codec a b = true ∨ f = .nVersion ∧
      (Field.differs codec a b .pubKeyOperator = true ∨ Field.differs codec a b .netInfo = true) := by
  have hfold : ∀ (fs : List Field) (d : CDeterministicMNStateDiff G) (f : Field),
      f ∈ (fs.foldl (visit codec a b) d).fields ↔
        f ∈ d.fields ∨ f ∈ fs ∧ f.differs codec a b = true := by
    intro fs
    induction fs with
    | nil =>
      intro d f
      simp only [List.foldl_nil, List.not_mem_nil, false_and, or_false]
    | cons g fs ih =>
      intro d f
      rw [List.foldl_cons, ih, visit]
      split_ifs with hg
      · simp only [Finset.mem_insert, List.mem_cons]
        constructor
        · rintro ((rfl | h) | h)
          · exact Or.inr ⟨Or.inl rfl, hg⟩
          · exact Or.inl h
          · exact Or.inr ⟨Or.inr h.1, h.2⟩
        · rintro (h | ⟨rfl | h, hd⟩)
          · exact Or.inl (Or.inr h)
          · exact Or.inl (Or.inl rfl)
          · exact Or.inr ⟨h, hd⟩
      · simp only [List.mem_cons]
        constructor
        · rintro (h | h)
          · exact Or.inl h
          · exact Or.inr ⟨Or.inr h.1, h.2⟩
        · rintro (h | ⟨rfl | h, hd⟩)
          · exact Or.inl h
          · exact absurd hd hg
          · exact Or.inr ⟨h, hd⟩
  have hmem : ∀ f, f ∈ (Field.members.foldl (visit codec a b) ⟨∅, {netInfo := .mn {}}⟩).fields ↔
      f.differs codec a b = true := by
    intro f
    rw [hfold]
    simp only [Finset.notMem_empty, false_or, Field.mem_members, true_and]
  rw [ofStates]
  simp only [hmem]
  split_ifs with hversion
  · rw [Finset.mem_insert, hmem, or_comm, and_iff_left hversion]
  · rw [hmem]
    simp only [hversion, and_false, or_false]

/-- A field that is valid is the one of the second state. -/
theorem assign_state (base : CDeterministicMNState G) {f : Field}
    (h : f ∈ (ofStates codec a b).fields) :
    f.assign (ofStates codec a b).state base = f.assign b base := by
  have hfold : ∀ (fs : List Field) (d : CDeterministicMNStateDiff G),
      (∀ f ∈ d.fields, f.assign d.state base = f.assign b base) →
      ∀ f ∈ (fs.foldl (visit codec a b) d).fields,
        f.assign (fs.foldl (visit codec a b) d).state base = f.assign b base := by
    intro fs
    induction fs with
    | nil => exact fun d hd => hd
    | cons g fs ih =>
      intro d hd
      apply ih
      rw [visit]
      split_ifs
      · intro f hf
        rw [Field.assign_assign]
        split_ifs with hgf
        · rfl
        · exact hd f ((Finset.mem_insert.mp hf).resolve_left (Ne.symm hgf))
      · exact hd
  have hmembers := hfold Field.members ⟨∅, {netInfo := .mn {}}⟩
    fun f hf => absurd hf (Finset.notMem_empty f)
  rw [ofStates] at h ⊢
  dsimp only at h ⊢
  split_ifs at h ⊢
  · have hset : ({(Field.members.foldl (visit codec a b) ⟨∅, {netInfo := .mn {}}⟩).state with
        nVersion := b.nVersion} : CDeterministicMNState G) =
        Field.assign b (Field.members.foldl (visit codec a b) ⟨∅, {netInfo := .mn {}}⟩).state
          .nVersion := rfl
    rw [hset, Field.assign_assign]
    split_ifs with hversion
    · rfl
    · exact hmembers f ((Finset.mem_insert.mp h).resolve_left (Ne.symm hversion))
  · exact hmembers f h

/-- Applying the difference to the first state gives the second, but that keys and
addresses which count as equal stay. -/
theorem applyToState_ofStates (a b : CDeterministicMNState G) :
    (ofStates codec a b).applyToState a = {b with
      pubKeyOperator := if keyEqual codec a.pubKeyOperator b.pubKeyOperator then a.pubKeyOperator
        else b.pubKeyOperator
      netInfo := if a.netInfo.isEqual b.netInfo then a.netInfo else b.netInfo} := by
  apply Field.ext_assign a
  intro f
  rw [assign_applyToState]
  by_cases hkey : f = .pubKeyOperator
  · subst hkey
    have hmem : Field.pubKeyOperator ∈ (ofStates codec a b).fields ↔
        keyEqual codec a.pubKeyOperator b.pubKeyOperator = false := by
      rw [mem_fields, Field.differs, Bool.not_eq_true']
      simp only [reduceCtorEq, false_and, or_false]
    cases heq : keyEqual codec a.pubKeyOperator b.pubKeyOperator with
    | true =>
      rw [if_neg (by rw [hmem, heq]; decide), if_pos rfl]
      rfl
    | false =>
      rw [if_pos (hmem.mpr heq), assign_state a (hmem.mpr heq), if_neg Bool.false_ne_true]
      rfl
  by_cases hinfo : f = .netInfo
  · subst hinfo
    have hmem : Field.netInfo ∈ (ofStates codec a b).fields ↔ a.netInfo.isEqual b.netInfo = false := by
      rw [mem_fields]
      simp only [Field.differs, Bool.not_eq_true', reduceCtorEq, false_and, or_false]
    cases heq : a.netInfo.isEqual b.netInfo with
    | true =>
      rw [if_neg (by rw [hmem, heq]; decide), if_pos rfl]
      rfl
    | false =>
      rw [if_pos (hmem.mpr heq), assign_state a (hmem.mpr heq), if_neg Bool.false_ne_true]
      rfl
  -- every other field is the one of the second state
  have hother : ∀ (key : CBLSLazyPublicKey G) (info : NetInfo),
      f.assign {b with pubKeyOperator := key, netInfo := info} a = f.assign b a := by
    intro key info
    cases f with
    | pubKeyOperator => exact absurd rfl hkey
    | netInfo => exact absurd rfl hinfo
    | _ => rfl
  rw [hother]
  split_ifs with hf
  · exact assign_state a hf
  · rw [mem_fields, not_or, Bool.not_eq_true] at hf
    exact Field.assign_eq_of_not_differs codec hf.1 hkey hinfo

end CDeterministicMNStateDiff

end BabaChain.Evo.ByValue
