import BabaChain.PayloadReplay
import BabaChain.ScriptInterpreter
import BabaChain.StakeCoins
import BabaChain.VarBytes

/-! The payloads of validator transactions as data of an `OP_RETURN` output, and what is read back
from it. -/
namespace BabaChain.PoS
open ByteReader ByteWriter CValidatorManager
open Script (OP_PUSHDATA1 OP_PUSHDATA2 OP_PUSHDATA4 MAX_SCRIPT_SIZE)

/-- `CScript::operator<<` of a vector. -/
def pushVector (b : List UInt8) : List UInt8 :=
  if b.length < OP_PUSHDATA1.toNat then UInt8.ofNat b.length :: b
  else if b.length ≤ 0xff then OP_PUSHDATA1 :: UInt8.ofNat b.length :: b
  else if b.length ≤ 0xffff then OP_PUSHDATA2 :: writeLE 2 b.length++b
  else OP_PUSHDATA4 :: writeLE 4 b.length++b

/-- `VALREG` and `VALDEREG`. -/
def VALREG : List UInt8 := [0x56, 0x41, 0x4c, 0x52, 0x45, 0x47]
def VALDEREG : List UInt8 := [0x56, 0x41, 0x4c, 0x44, 0x45, 0x52, 0x45, 0x47]

section Reading

-- the BLS key with the given bytes, none where they are not those of a key
variable (blsKey : List UInt8 → Option CBLSPublicKey)

def readBLSPublicKey : Reader CBLSPublicKey := do
  let vecBytes ← readBytes 48
  match blsKey vecBytes with
  | some key => return key
  | none => failure

def readRegTx : Reader CValidatorRegTx := do
  let nVersion ← readUInt 2
  let validatorPubKey ← readPubKey
  let blsPubKey ← readBLSPublicKey blsKey
  let stakeOutPoint ← readOutPoint
  let nStakeAmount ← readInt 8
  let payoutScript ← readVarBytes
  let vchSig ← readVarBytes
  return ⟨BitVec.ofNat 16 nVersion, validatorPubKey, blsPubKey, stakeOutPoint, nStakeAmount,
    payoutScript, vchSig⟩

def readDeregTx : Reader CValidatorDeregTx := do
  let nVersion ← readUInt 2
  let validatorPubKey ← readPubKey
  let vchSig ← readVarBytes
  return ⟨BitVec.ofNat 16 nVersion, validatorPubKey, vchSig⟩

/-- The payload behind its marker, if the marker is the expected one. -/
def readMarked {α : Type} (expected : List UInt8) (readPayload : Reader α) : Reader (Option α) := do
  let marker ← readVarBytes
  if marker = expected then
    let payload ← readPayload
    return some payload
  else
    return none

/-- The first payload with the marker in an `OP_RETURN` output. What throws is passed over. -/
def findMarked {α : Type} (expected : List UInt8) (readPayload : Reader α) :
    List CTxOut → Option α
  | [] => none
  | output :: vout =>
    if 1 < output.scriptPubKey.length ∧ output.scriptPubKey.head? = some OP_RETURN then
      match (readMarked expected readPayload).run (output.scriptPubKey.drop 2) with
      | some (some payload, _) => some payload
      | some (none, _) => findMarked expected readPayload vout
      | none => findMarked expected readPayload vout
    else
      findMarked expected readPayload vout

def getValidatorRegTx (tx : CTransaction) : Option CValidatorRegTx :=
  findMarked VALREG (readRegTx blsKey) tx.vout

def getValidatorDeregTx (tx : CTransaction) : Option CValidatorDeregTx :=
  findMarked VALDEREG readDeregTx tx.vout

end Reading

namespace CValidatorManager.Payload

def marker : Payload → List UInt8
  | .reg _ => VALREG
  | .dereg _ => VALDEREG

def serialize : Payload → List UInt8
  | .reg regTx => regTx.serialize
  | .dereg deregTx => deregTx.serialize

def validatorPubKey : Payload → CPubKey
  | .reg regTx => regTx.validatorPubKey
  | .dereg deregTx => deregTx.validatorPubKey

/-- The marker and the payload behind it. -/
def content (p : Payload) : List UInt8 := writeVarBytes p.marker++p.serialize

/-- `CScript() << OP_RETURN <<` the content. -/
def script (p : Payload) : List UInt8 := OP_RETURN :: pushVector p.content

end CValidatorManager.Payload

/-- Its own extractor gives back the payload, and the other one finds nothing. -/
def Extracted (blsKey : List UInt8 → Option CBLSPublicKey) (tx : CTransaction) : Payload → Prop
  | .reg regTx => getValidatorRegTx blsKey tx = some regTx ∧ getValidatorDeregTx tx = none
  | .dereg deregTx => getValidatorDeregTx tx = some deregTx ∧ getValidatorRegTx blsKey tx = none

section Readers

variable {s rest m : List UInt8} {n : ℕ}

theorem ofBytes_keyBytes {k : CPubKey} (hk : k.isValid = true) :
    CPubKey.ofBytes (keyBytes k) = k := by
  have hlength := k.tail_length
  have hpos : 0 < CPubKey.getLen k.header := of_decide_eq_true hk
  unfold keyBytes CPubKey.ofBytes
  rw [if_pos hk]
  dsimp only
  rw [dif_pos (by omega)]

theorem length_keyBytes {k : CPubKey} (hk : k.isValid = true) :
    (keyBytes k).length = 33 ∨ (keyBytes k).length = 65 := by
  have hlength := k.tail_length
  have hpos : 0 < CPubKey.getLen k.header := of_decide_eq_true hk
  unfold keyBytes
  rw [if_pos hk, List.length_cons, hlength]
  unfold CPubKey.getLen at *
  split_ifs at hpos ⊢ <;> omega

theorem readPubKey_append {k : CPubKey} (hk : k.isValid = true) (rest : List UInt8) :
    readPubKey.run (writeVarBytes (keyBytes k)++rest) = some (k, rest) := by
  have hlength := length_keyBytes hk
  have hshort : (keyBytes k).length < 253 := by omega
  have hbyte : (UInt8.ofNat (keyBytes k).length).toNat = (keyBytes k).length := by
    rw [UInt8.toNat_ofNat']
    exact Nat.mod_eq_of_lt (by omega)
  unfold readPubKey
  rw [writeVarBytes_short hshort, List.cons_append, StateT.run_bind,
    readCompactSize_cons (hbyte.trans_lt hshort), Option.bind_eq_bind, Option.bind_some, hbyte]
  dsimp only
  rw [StateT.run_bind, readBytes_append, Option.bind_eq_bind, Option.bind_some,
    if_pos (by omega : (keyBytes k).length ≤ 65), ofBytes_keyBytes hk]
  rfl

/-- A deregistration with a short signature is read back. -/
theorem readDeregTx_serialize {deregTx : CValidatorDeregTx}
    (hk : deregTx.validatorPubKey.isValid = true) (hsig : deregTx.vchSig.length < 253) :
    readDeregTx.run deregTx.serialize = some (deregTx, []) := by
  have hversion :
      BitVec.ofNat 16 (leNat (writeLE 2 deregTx.nVersion.toNat)) = deregTx.nVersion := by
    have hlt : deregTx.nVersion.toNat < 256^2 := deregTx.nVersion.isLt
    rw [leNat_writeLE, Nat.mod_eq_of_lt hlt, BitVec.ofNat_toNat, BitVec.setWidth_eq]
  have hread : (readUInt 2).run deregTx.serialize = some (leNat (writeLE 2 deregTx.nVersion.toNat),
      writeVarBytes (keyBytes deregTx.validatorPubKey)++writeVarBytes deregTx.vchSig) := by
    have happend := readBytes_append (writeLE 2 deregTx.nVersion.toNat)
      (writeVarBytes (keyBytes deregTx.validatorPubKey)++writeVarBytes deregTx.vchSig)
    rw [length_writeLE] at happend
    unfold readUInt CValidatorDeregTx.serialize
    rw [List.append_assoc, StateT.run_map, happend]
    rfl
  have hlast := readVarBytes_append hsig []
  rw [List.append_nil] at hlast
  unfold readDeregTx
  rw [StateT.run_bind, hread, Option.bind_eq_bind, Option.bind_some]
  dsimp only
  rw [StateT.run_bind, readPubKey_append hk, Option.bind_eq_bind, Option.bind_some]
  dsimp only
  rw [StateT.run_bind, hlast, Option.bind_eq_bind, Option.bind_some, hversion]
  rfl

/-- A payload is read where the stream begins with its marker only. -/
theorem eq_of_readMarked {α : Type} {expected : List UInt8} {readPayload : Reader α} {a : α}
    (hexpected : expected.length < 253)
    (h : (readMarked expected readPayload).run s = some (some a, rest)) :
    ∃ t, s = UInt8.ofNat expected.length :: (expected++t) := by
  unfold readMarked at h
  rw [StateT.run_bind, Option.bind_eq_bind, Option.bind_eq_some_iff] at h
  obtain ⟨⟨marker, t⟩, hmarker, h⟩ := h
  dsimp only at h
  split_ifs at h with heq
  · subst heq
    exact ⟨t, eq_of_readVarBytes hmarker hexpected⟩
  · cases h

theorem readMarked_self {α : Type} {expected : List UInt8} {readPayload : Reader α} {a : α}
    (hexpected : expected.length < 253) (h : readPayload.run s = some (a, rest)) :
    (readMarked expected readPayload).run (writeVarBytes expected++s) = some (some a, rest) := by
  unfold readMarked
  rw [StateT.run_bind, readVarBytes_append hexpected, Option.bind_eq_bind, Option.bind_some]
  dsimp only
  rw [if_pos rfl, StateT.run_bind, h]
  rfl

theorem readMarked_of_ne {α : Type} {expected : List UInt8} {readPayload : Reader α}
    (hm : m.length < 253) (hne : m ≠ expected) (s : List UInt8) :
    (readMarked expected readPayload).run (writeVarBytes m++s) = some (none, s) := by
  unfold readMarked
  rw [StateT.run_bind, readVarBytes_append hm, Option.bind_eq_bind, Option.bind_some]
  dsimp only
  rw [if_neg hne]
  rfl

end Readers

section Outputs

variable {α : Type} {expected : List UInt8} {readPayload : Reader α} {out : CTxOut}

theorem findMarked_cons_of_ne (h : out.scriptPubKey.head? ≠ some OP_RETURN) (vout : List CTxOut) :
    findMarked expected readPayload (out :: vout) = findMarked expected readPayload vout := by
  rw [findMarked, if_neg fun hout => h hout.2]

theorem findMarked_append {before : List CTxOut}
    (h : ∀ o ∈ before, o.scriptPubKey.head? ≠ some OP_RETURN) (vout : List CTxOut) :
    findMarked expected readPayload (before++vout) = findMarked expected readPayload vout := by
  induction before with
  | nil => rfl
  | cons o before ih =>
    rw [List.forall_mem_cons] at h
    rw [List.cons_append, findMarked_cons_of_ne h.1, ih h.2]

theorem findMarked_none {vout : List CTxOut}
    (h : ∀ o ∈ vout, o.scriptPubKey.head? ≠ some OP_RETURN) :
    findMarked expected readPayload vout = none := by
  have happend := @findMarked_append _ expected readPayload _ h []
  rw [List.append_nil] at happend
  exact happend

/-- With one `OP_RETURN` output there is what that output gives. -/
theorem findMarked_only {before after : List CTxOut}
    (hbefore : ∀ o ∈ before, o.scriptPubKey.head? ≠ some OP_RETURN)
    (hafter : ∀ o ∈ after, o.scriptPubKey.head? ≠ some OP_RETURN) {b : UInt8} {t : List UInt8}
    (hout : out.scriptPubKey = OP_RETURN :: b :: t) :
    findMarked expected readPayload (before++out :: after) =
      ((readMarked expected readPayload).run t).bind Prod.fst := by
  have hreturn : 1 < (OP_RETURN :: b :: t).length ∧ (OP_RETURN :: b :: t).head? = some OP_RETURN :=
    ⟨Nat.succ_lt_succ (Nat.succ_pos t.length), rfl⟩
  rw [findMarked_append hbefore, findMarked, hout, if_pos hreturn, findMarked_none hafter]
  change (match (readMarked expected readPayload).run t with
    | some (some payload, _) => some payload
    | some (none, _) => none
    | none => none) = _
  cases (readMarked expected readPayload).run t with
  | none => rfl
  | some r =>
    obtain ⟨found, rest⟩ := r
    cases found with
    | none => rfl
    | some payload => rfl

end Outputs

section Pushes

variable {p : Payload}

theorem length_marker (p : Payload) : p.marker.length = 6 ∨ p.marker.length = 8 := by
  cases p with
  | reg regTx => exact Or.inl rfl
  | dereg deregTx => exact Or.inr rfl

/-- The content begins with the length of the marker, and the marker with two letters. -/
theorem content_eq (p : Payload) : ∃ t, p.marker = 0x56 :: 0x41 :: t ∧
    p.content = UInt8.ofNat p.marker.length :: (p.marker++p.serialize) := by
  have hlength := length_marker p
  have hcontent : p.content = UInt8.ofNat p.marker.length :: (p.marker++p.serialize) := by
    unfold Payload.content
    rw [writeVarBytes_short (by omega)]
    rfl
  cases p with
  | reg regTx => exact ⟨_, rfl, hcontent⟩
  | dereg deregTx => exact ⟨_, rfl, hcontent⟩

/-- Behind the opcode of a longer push no marker stands first. -/
theorem not_marked_of_long {b : UInt8} {t u : List UInt8} (hlong : ¬p.content.length < 76)
    (hsize : p.script.length ≤ MAX_SCRIPT_SIZE) (hscript : p.script = OP_RETURN :: b :: t)
    (q : Payload) :
    t ≠ UInt8.ofNat q.marker.length :: (q.marker++u) := by
  obtain ⟨v, hmarker, hcontent⟩ := content_eq p
  obtain ⟨w, hmarker', -⟩ := content_eq q
  have hlength := length_marker p
  have hlength' := length_marker q
  have hfirst : (UInt8.ofNat q.marker.length).toNat = q.marker.length := by
    rw [UInt8.toNat_ofNat']
    exact Nat.mod_eq_of_lt (by omega)
  intro ht
  unfold Payload.script pushVector at hscript hsize
  rw [if_neg (show ¬p.content.length < OP_PUSHDATA1.toNat from hlong)] at hscript hsize
  split_ifs at hscript hsize with h₁ h₂
  · -- the length byte of the push is not that of a marker
    rw [ht] at hscript
    simp only [List.cons.injEq, true_and] at hscript
    have hbyte := congrArg UInt8.toNat hscript.2.1
    rw [hfirst, UInt8.toNat_ofNat', Nat.mod_eq_of_lt (by omega)] at hbyte
    omega
  · -- the letter after the length would be the length of a marker
    rw [ht, hcontent, hmarker'] at hscript
    simp only [writeLE, List.cons_append, List.nil_append, List.cons.injEq, true_and] at hscript
    obtain ⟨-, -, -, hletter, -⟩ := hscript
    have hbyte := congrArg UInt8.toNat hletter
    rw [UInt8.toNat_ofNat', Nat.mod_eq_of_lt (by omega)] at hbyte
    have hletter' : (0x41 : UInt8).toNat = 65 := rfl
    omega
  · -- a longer push does not fit
    simp only [List.length_cons, List.length_append] at hsize
    have hmax : MAX_SCRIPT_SIZE = 10000 := rfl
    omega

theorem le_length_writeVarBytes (m : List UInt8) : m.length+1 ≤ (writeVarBytes m).length := by
  unfold writeVarBytes writeCompactSize
  split_ifs <;> simp only [List.length_append, List.length_cons, length_writeLE] <;> omega

theorem length_writeVarBytes (hm : s.length < 253) : (writeVarBytes s).length = s.length+1 := by
  rw [writeVarBytes_short hm, List.length_cons]

/-- A push is direct for deregistrations with a short key and a short signature only. -/
theorem content_short_iff (hkey : p.validatorPubKey.isValid = true) :
    p.content.length < 76 ↔ ∃ deregTx, p = .dereg deregTx ∧
      (keyBytes deregTx.validatorPubKey).length+deregTx.vchSig.length ≤ 62 := by
  cases p with
  | reg regTx =>
    have hcontent : 48+32+4 ≤ (Payload.reg regTx).content.length := by
      simp only [Payload.content, Payload.serialize,
        CValidatorRegTx.serialize, List.length_append, Vector.length_toList, writeUint256,
        length_writeBE, length_writeLE]
      omega
    refine iff_of_false (by omega) ?_
    · rintro ⟨deregTx, hp, -⟩
      cases hp
  | dereg deregTx =>
    have hlength : (keyBytes deregTx.validatorPubKey).length = 33 ∨
        (keyBytes deregTx.validatorPubKey).length = 65 := length_keyBytes hkey
    have hkeyLength := length_writeVarBytes (s := keyBytes deregTx.validatorPubKey) (by omega)
    have hmarker : (writeVarBytes VALDEREG).length = 9 := rfl
    have hle := le_length_writeVarBytes deregTx.vchSig
    have hcontent : (Payload.dereg deregTx).content.length =
        9+(2+((keyBytes deregTx.validatorPubKey).length+1)+
          (writeVarBytes deregTx.vchSig).length) := by
      simp only [Payload.content, Payload.serialize,
        CValidatorDeregTx.serialize, Payload.marker, List.length_append, hmarker,
        hkeyLength, length_writeLE]
    constructor
    · intro hshort
      refine ⟨deregTx, rfl, ?_⟩
      rw [hcontent] at hshort
      omega
    · rintro ⟨d, hp, hsum⟩
      cases hp
      rw [hcontent, length_writeVarBytes (by omega)]
      omega

end Pushes

/-- In a transaction with one `OP_RETURN` output, which holds the script of a payload, exactly a
deregistration of a short key and a short signature is read back as it was. -/
theorem extracted_iff (blsKey : List UInt8 → Option CBLSPublicKey) (p : Payload)
    (tx : CTransaction) (before after : List CTxOut) (out : CTxOut)
    (hvout : tx.vout = before++out :: after)
    (hbefore : ∀ o ∈ before, o.scriptPubKey.head? ≠ some OP_RETURN)
    (hafter : ∀ o ∈ after, o.scriptPubKey.head? ≠ some OP_RETURN)
    (hout : out.scriptPubKey = p.script) (hkey : p.validatorPubKey.isValid = true)
    (hsize : p.script.length ≤ MAX_SCRIPT_SIZE) :
    Extracted blsKey tx p ↔ ∃ deregTx, p = .dereg deregTx ∧
      (keyBytes deregTx.validatorPubKey).length+deregTx.vchSig.length ≤ 62 := by
  rw [← content_short_iff hkey]
  by_cases hshort : p.content.length < 76
  · refine iff_of_true ?_ hshort
    obtain ⟨deregTx, rfl, hsum⟩ := (content_short_iff hkey).mp hshort
    have hpush : out.scriptPubKey = OP_RETURN ::
        UInt8.ofNat (Payload.dereg deregTx).content.length ::
          (Payload.dereg deregTx).content := by
      have hdirect : (Payload.dereg deregTx).content.length <
          OP_PUSHDATA1.toNat := hshort
      rw [hout]
      unfold Payload.script pushVector
      rw [if_pos hdirect]
    constructor
    · have hread := readMarked_self (by decide : VALDEREG.length < 253)
        (@readDeregTx_serialize deregTx hkey (by omega))
      unfold getValidatorDeregTx
      rw [hvout, findMarked_only hbefore hafter hpush]
      exact congrArg (fun r => Option.bind r Prod.fst) hread
    · have hread := @readMarked_of_ne VALDEREG _ VALREG (readRegTx blsKey) (by decide)
        (by decide) deregTx.serialize
      unfold getValidatorRegTx
      rw [hvout, findMarked_only hbefore hafter hpush]
      exact congrArg (fun r => Option.bind r Prod.fst) hread
  · -- behind the longer opcode the extractor finds no marker
    refine iff_of_false ?_ hshort
    obtain ⟨b, t, hscript⟩ : ∃ b t, p.script = OP_RETURN :: b :: t := by
      unfold Payload.script pushVector
      split_ifs
      · exact ⟨_, _, rfl⟩
      · exact ⟨_, _, rfl⟩
      · exact ⟨_, _, rfl⟩
      · exact ⟨_, _, rfl⟩
    have hfound {α : Type} {readPayload : Reader α} {a : α}
        (h : findMarked p.marker readPayload tx.vout = some a) : False := by
      rw [hvout, findMarked_only hbefore hafter (hout.trans hscript),
        Option.bind_eq_some_iff] at h
      obtain ⟨⟨found, rest⟩, hrun, hsome⟩ := h
      cases hsome
      obtain ⟨u, hu⟩ := eq_of_readMarked (by have := length_marker p; omega) hrun
      exact not_marked_of_long hshort hsize hscript p hu
    cases p with
    | reg regTx => exact fun h => hfound h.1
    | dereg deregTx => exact fun h => hfound h.1

theorem size_toArray_of_length {vecBytes : List UInt8} (h : vecBytes.length = 48) :
    vecBytes.toArray.size = 48 := by
  rw [List.size_toArray, h]

/-- Keys that are any 48 bytes. -/
def bytesKey (vecBytes : List UInt8) : Option CBLSPublicKey :=
  if h : vecBytes.length = 48 then some ⟨vecBytes.toArray, size_toArray_of_length h⟩ else none

/-- A transaction with the payload behind a plain output. -/
def payloadTx (p : Payload) : CTransaction := ⟨1, 0, [], [⟨5, [0x51]⟩, ⟨0, p.script⟩], []⟩

/-- A deregistration with a signature of three bytes is read back. -/
theorem extracted_iff_short :
    Extracted bytesKey (payloadTx (.dereg ⟨1, sampleKey 1, [1, 2, 3]⟩))
      (.dereg ⟨1, sampleKey 1, [1, 2, 3]⟩) :=
  (extracted_iff bytesKey (.dereg ⟨1, sampleKey 1, [1, 2, 3]⟩)
    (payloadTx (.dereg ⟨1, sampleKey 1, [1, 2, 3]⟩)) [⟨5, [0x51]⟩] []
    ⟨0, (Payload.dereg ⟨1, sampleKey 1, [1, 2, 3]⟩).script⟩ rfl (by decide) (by decide) rfl
    (by decide) (by decide +kernel)).mpr ⟨_, rfl, by decide +kernel⟩

/-- A registration is not read back, nor is a deregistration with a signature of 72 bytes. -/
theorem registration_not_extracted :
    (sampleReg (sampleKey 1) ⟨1, 0⟩).validatorPubKey.isValid = true ∧
      (Payload.reg (sampleReg (sampleKey 1) ⟨1, 0⟩)).script.length ≤ MAX_SCRIPT_SIZE ∧
      getValidatorRegTx bytesKey (payloadTx (.reg (sampleReg (sampleKey 1) ⟨1, 0⟩))) = none ∧
      getValidatorDeregTx (payloadTx (.dereg ⟨1, sampleKey 1, List.replicate 72 9⟩)) = none := by
  decide +kernel

end BabaChain.PoS
