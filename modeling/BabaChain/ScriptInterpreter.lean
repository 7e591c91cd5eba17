import BabaChain.CoinJoin

/-! The interpreter of scripts, as far as outputs to the hash of a key and what signs for them need
it. What it does at any other opcode is left open. -/
namespace BabaChain.Script
open ByteReader CoinJoin

def OP_PUSHDATA1 : UInt8 := 0x4c
def OP_PUSHDATA2 : UInt8 := 0x4d
def OP_PUSHDATA4 : UInt8 := 0x4e
def OP_1NEGATE : UInt8 := 0x4f
def OP_1 : UInt8 := 0x51
def OP_16 : UInt8 := 0x60
def OP_IF : UInt8 := 0x63
def OP_ENDIF : UInt8 := 0x68
def OP_DUP : UInt8 := 0x76
def OP_EQUALVERIFY : UInt8 := 0x88
def OP_HASH160 : UInt8 := 0xa9
def OP_CHECKSIG : UInt8 := 0xac

/-- `OP_INVERT`, `OP_2MUL`, `OP_2DIV`, `OP_MUL`, `OP_LSHIFT` and `OP_RSHIFT`. -/
def disabledOpcodes : List UInt8 := [0x83, 0x8d, 0x8e, 0x95, 0x98, 0x99]

def MAX_SCRIPT_ELEMENT_SIZE : ℕ := 520
def MAX_OPS_PER_SCRIPT : ℕ := 201
def MAX_SCRIPT_SIZE : ℕ := 10000
def MAX_STACK_SIZE : ℕ := 1000

/-! ### Instructions -/

/-- The size of an immediate operand, and what is left of the script after it. -/
def operandSize (opcode : UInt8) (pc : CScript) : Option (ℕ × CScript) :=
  if opcode < OP_PUSHDATA1 then some (opcode.toNat, pc)
  else
    let n := if opcode = OP_PUSHDATA1 then 1 else if opcode = OP_PUSHDATA2 then 2 else 4
    if pc.length < n then none else some (leNat (pc.take n), pc.drop n)

/-- `GetScriptOp`: an instruction, its operand and the rest of the script. -/
def getScriptOp : CScript → Option (UInt8 × List UInt8 × CScript)
  | [] => none
  | opcode :: pc =>
    if opcode ≤ OP_PUSHDATA4 then
      match operandSize opcode pc with
      | none => none
      | some (nSize, pc) =>
        if pc.length < nSize then none else some (opcode, pc.take nSize, pc.drop nSize)
    else
      some (opcode, [], pc)

theorem operandSize_length {opcode : UInt8} {pc pc' : CScript} {nSize : ℕ}
    (h : operandSize opcode pc = some (nSize, pc')) : pc'.length ≤ pc.length := by
  unfold operandSize at h
  split_ifs at h
  · rw [(Prod.mk.inj (Option.some.inj h)).2]
  all_goals
    dsimp only at h
    split_ifs at h
    rw [← (Prod.mk.inj (Option.some.inj h)).2, List.length_drop]
    exact Nat.sub_le _ _

theorem getScriptOp_length {script pc : CScript} {opcode : UInt8} {vch : List UInt8}
    (h : getScriptOp script = some (opcode, vch, pc)) : pc.length < script.length := by
  cases script with
  | nil => exact nomatch h
  | cons first rest =>
    rw [getScriptOp] at h
    rw [List.length_cons]
    split_ifs at h
    · cases hsize : operandSize first rest with
      | none =>
        rw [hsize] at h
        exact nomatch h
      | some size =>
        obtain ⟨nSize, pc'⟩ := size
        have hle := operandSize_length hsize
        rw [hsize] at h
        dsimp only at h
        split_ifs at h
        rw [← (Prod.mk.inj (Prod.mk.inj (Option.some.inj h)).2).2, List.length_drop]
        omega
    · rw [← (Prod.mk.inj (Prod.mk.inj (Option.some.inj h)).2).2]
      exact Nat.lt_succ_self _

/-! ### Evaluation -/

/-- The stacks, the top first, and the script from the last code separator on. -/
structure EvalState where
  stack : List (List UInt8)
  altstack : List (List UInt8) := []
  vfExec : List Bool := []
  nOpCount : ℕ := 0
  codehash : CScript

/-- The hash of keys, `EvalChecksig` for an input of a transaction, and the opcodes that are not
spelled out. -/
structure Machine where
  hash160 : List UInt8 → List UInt8
  evalChecksig : List UInt8 → List UInt8 → CScript → CMutableTransaction → ℕ → Option Bool
  evalOther : UInt8 → CScript → EvalState → CMutableTransaction → ℕ → Option EvalState

namespace Machine

variable (m : Machine) (tx : CMutableTransaction) (nIn : ℕ)

def evalOp (opcode : UInt8) (pc : CScript) (s : EvalState) : Option EvalState :=
  if opcode = OP_1NEGATE then some {s with stack := [0x81] :: s.stack}
  else if OP_1 ≤ opcode ∧ opcode ≤ OP_16 then
    some {s with stack := [opcode-(OP_1-1)] :: s.stack}
  else if opcode = OP_DUP then
    match s.stack with
    | vch :: stack => some {s with stack := vch :: vch :: stack}
    | [] => none
  else if opcode = OP_HASH160 then
    match s.stack with
    | vch :: stack => some {s with stack := m.hash160 vch :: stack}
    | [] => none
  else if opcode = OP_EQUALVERIFY then
    match s.stack with
    | vch2 :: vch1 :: stack => if vch1 = vch2 then some {s with stack := stack} else none
    | _ => none
  else if opcode = OP_CHECKSIG then
    match s.stack with
    | vchPubKey :: vchSig :: stack =>
      (m.evalChecksig vchSig vchPubKey s.codehash tx nIn).map fun fSuccess =>
        {s with stack := (if fSuccess then [1] else []) :: stack}
    | _ => none
  else m.evalOther opcode pc s tx nIn

def evalInstruction (opcode : UInt8) (vchPushValue : List UInt8) (pc : CScript) (s : EvalState) :
    Option EvalState :=
  if MAX_SCRIPT_ELEMENT_SIZE < vchPushValue.length then none
  else if OP_16 < opcode ∧ MAX_OPS_PER_SCRIPT < s.nOpCount+1 then none
  else if opcode ∈ disabledOpcodes then none
  else
    let s := {s with nOpCount := if OP_16 < opcode then s.nOpCount+1 else s.nOpCount}
    let fExec := s.vfExec.all id
    let next :=
      if fExec && opcode ≤ OP_PUSHDATA4 then some {s with stack := vchPushValue :: s.stack}
      else if fExec || (OP_IF ≤ opcode && opcode ≤ OP_ENDIF) then m.evalOp tx nIn opcode pc s
      else some s
    next.bind fun s =>
      if MAX_STACK_SIZE < s.stack.length+s.altstack.length then none else some s

/-- The loop of `EvalScript`. Every instruction shortens the script, which bounds the loop. -/
def evalLoop : ℕ → CScript → EvalState → Option EvalState
  | _, [], s => some s
  | 0, _ :: _, _ => none
  | fuel+1, script, s =>
    match getScriptOp script with
    | none => none
    | some (opcode, vchPushValue, pc) =>
      (m.evalInstruction tx nIn opcode vchPushValue pc s).bind (evalLoop fuel pc)

def evalScript (stack : List (List UInt8)) (script : CScript) : Option (List (List UInt8)) :=
  if MAX_SCRIPT_SIZE < script.length then none
  else
    (m.evalLoop tx nIn script.length script {stack := stack, codehash := script}).bind fun s =>
      if s.vfExec = [] then some s.stack else none

end Machine

def castToBool : List UInt8 → Bool
  | [] => false
  | b :: vch => if b = 0 then castToBool vch else !(decide (vch = []) && decide (b = 0x80))

def isPayToScriptHash (script : CScript) : Bool :=
  decide (script.length = 23 ∧ script.take 2 = [0xa9, 0x14] ∧ script.drop 22 = [0x87])

/-- `IsPushOnly`, again bounded by the length of the script. -/
def isPushOnlyLoop : ℕ → CScript → Bool
  | _, [] => true
  | 0, _ :: _ => false
  | fuel+1, script =>
    match getScriptOp script with
    | none => false
    | some (opcode, _, pc) => decide (opcode ≤ OP_16) && isPushOnlyLoop fuel pc

def isPushOnly (script : CScript) : Bool := isPushOnlyLoop script.length script

def topIsTrue (stack : List (List UInt8)) : Bool := (stack.head?.map castToBool).getD false

namespace Machine

variable (m : Machine) (tx : CMutableTransaction) (nIn : ℕ)

/-- `VerifyScript` with `SCRIPT_VERIFY_P2SH` and `SCRIPT_VERIFY_STRICTENC`. -/
def verifyScript (scriptSig scriptPubKey : CScript) : Bool :=
  match m.evalScript tx nIn [] scriptSig with
  | none => false
  | some stackCopy =>
    match m.evalScript tx nIn stackCopy scriptPubKey with
    | none => false
    | some stack =>
      if topIsTrue stack = false then false
      else if isPayToScriptHash scriptPubKey = false then true
      else if isPushOnly scriptSig = false then false
      else
        match stackCopy with
        | [] => false
        | pubKey2 :: stack =>
          match m.evalScript tx nIn stack pubKey2 with
          | none => false
          | some stack => topIsTrue stack

/-! ### Loops -/

variable {m tx nIn}

/-- Any fuel that covers the script gives the same. -/
theorem evalLoop_fuel {fuel fuel' : ℕ} {script : CScript} (hfuel : script.length ≤ fuel)
    (hfuel' : script.length ≤ fuel') (s : EvalState) :
    m.evalLoop tx nIn fuel script s = m.evalLoop tx nIn fuel' script s := by
  induction fuel generalizing script fuel' s with
  | zero =>
    rw [List.length_eq_zero_iff.mp (Nat.le_zero.mp hfuel), evalLoop, evalLoop]
  | succ fuel ih =>
    cases script with
    | nil => rw [evalLoop, evalLoop]
    | cons first rest =>
      cases fuel' with
      | zero => exact absurd hfuel' (Nat.not_succ_le_zero _)
      | succ fuel' =>
        rw [evalLoop, evalLoop]
        · cases hop : getScriptOp (first :: rest) with
          | none => rfl
          | some instruction =>
            obtain ⟨opcode, vch, pc⟩ := instruction
            have hpc := getScriptOp_length hop
            have hrest : m.evalLoop tx nIn fuel pc = m.evalLoop tx nIn fuel' pc := by
              funext s
              exact ih (by omega) (by omega) s
            dsimp only
            rw [hrest]
        · exact List.cons_ne_nil first rest
        · exact List.cons_ne_nil first rest

/-- One instruction of the loop. -/
theorem evalLoop_cons {script pc : CScript} {opcode : UInt8} {vch : List UInt8} {fuel : ℕ}
    (hop : getScriptOp script = some (opcode, vch, pc)) (hfuel : script.length ≤ fuel)
    (s : EvalState) :
    m.evalLoop tx nIn fuel script s =
      (m.evalInstruction tx nIn opcode vch pc s).bind (m.evalLoop tx nIn pc.length pc) := by
  have hpc := getScriptOp_length hop
  cases script with
  | nil => exact nomatch hop
  | cons first rest =>
    cases fuel with
    | zero => exact absurd hfuel (Nat.not_succ_le_zero _)
    | succ fuel =>
      rw [evalLoop]
      · rw [hop]
        dsimp only
        congr 1
        funext s
        exact evalLoop_fuel (by omega) le_rfl s
      · exact List.cons_ne_nil first rest

/-! ### Scripts that are needed -/

/-- A push of at most 75 bytes. -/
def pushData (data : List UInt8) : CScript := UInt8.ofNat data.length :: data

theorem getScriptOp_pushData {data : List UInt8} (hdata : data.length ≤ 75) (pc : CScript) :
    getScriptOp (pushData data ++ pc) = some (UInt8.ofNat data.length, data, pc) := by
  have hsize : (UInt8.ofNat data.length).toNat = data.length := by
    rw [UInt8.toNat_ofNat']
    omega
  have hle : UInt8.ofNat data.length ≤ OP_PUSHDATA4 := by
    rw [UInt8.le_iff_toNat_le, hsize]
    exact hdata.trans (by decide)
  have hlt : UInt8.ofNat data.length < OP_PUSHDATA1 := by
    rw [UInt8.lt_iff_toNat_lt, hsize]
    exact Nat.lt_of_le_of_lt hdata (by decide)
  rw [pushData, List.cons_append, getScriptOp, if_pos hle, operandSize, if_pos hlt, hsize]
  dsimp only
  rw [List.length_append, if_neg (Nat.not_lt.mpr (Nat.le_add_right _ _)), List.take_left,
    List.drop_left]

theorem evalInstruction_push {opcode : UInt8} (hopcode : opcode ≤ 75) {data : List UInt8}
    (hdata : data.length ≤ MAX_SCRIPT_ELEMENT_SIZE) (pc : CScript) {s : EvalState}
    (hexec : s.vfExec = []) (hstack : s.stack.length+s.altstack.length < MAX_STACK_SIZE) :
    m.evalInstruction tx nIn opcode data pc s = some {s with stack := data :: s.stack} := by
  have hnat : opcode.toNat ≤ 75 := UInt8.le_iff_toNat_le.mp hopcode
  have hlow : ¬OP_16 < opcode := by
    rw [UInt8.lt_iff_toNat_lt]
    exact fun h => absurd (h.trans_le hnat) (by decide)
  have hpush : opcode ≤ OP_PUSHDATA4 := UInt8.le_iff_toNat_le.mpr (hnat.trans (by decide))
  have henabled : opcode ∉ disabledOpcodes := by
    intro hmem
    have hall : (disabledOpcodes.all fun code => decide (75 < code.toNat)) = true := by decide
    have hhigh := of_decide_eq_true (List.all_eq_true.mp hall opcode hmem)
    exact absurd hhigh (Nat.not_lt.mpr hnat)
  unfold evalInstruction
  rw [if_neg (Nat.not_lt.mpr hdata), if_neg (fun h => hlow h.1), if_neg henabled]
  dsimp only
  rw [if_neg hlow, hexec, decide_eq_true hpush]
  rw [if_pos (show (([] : List Bool).all id && true) = true from rfl), Option.bind_some]
  dsimp only
  rw [List.length_cons, if_neg]
  omega

/-- An opcode that is not a push and not disabled, outside of a branch. -/
theorem evalInstruction_op {opcode : UInt8} (hopcode : OP_16 < opcode)
    (henabled : opcode ∉ disabledOpcodes) (pc : CScript) {s : EvalState} (hexec : s.vfExec = [])
    (hcount : s.nOpCount < MAX_OPS_PER_SCRIPT) :
    m.evalInstruction tx nIn opcode [] pc s =
      (m.evalOp tx nIn opcode pc {s with nOpCount := s.nOpCount+1}).bind fun s =>
        if MAX_STACK_SIZE < s.stack.length+s.altstack.length then none else some s := by
  have hnat := UInt8.lt_iff_toNat_lt.mp hopcode
  have hpush : ¬opcode ≤ OP_PUSHDATA4 := by
    rw [UInt8.le_iff_toNat_le]
    exact fun h => absurd (hnat.trans_le h) (by decide)
  unfold evalInstruction
  rw [if_neg (show ¬MAX_SCRIPT_ELEMENT_SIZE < ([] : List UInt8).length by decide),
    if_neg (fun h => absurd h.2 (by omega)), if_neg henabled]
  dsimp only
  rw [if_pos hopcode, hexec, decide_eq_false hpush]
  rfl

/-- The loop at such an opcode. -/
theorem evalLoop_op {opcode : UInt8} (hopcode : OP_16 < opcode)
    (henabled : opcode ∉ disabledOpcodes) {pc : CScript} {fuel : ℕ}
    (hfuel : (opcode :: pc).length ≤ fuel) {s : EvalState} (hexec : s.vfExec = [])
    (hcount : s.nOpCount < MAX_OPS_PER_SCRIPT) :
    m.evalLoop tx nIn fuel (opcode :: pc) s =
      ((m.evalOp tx nIn opcode pc {s with nOpCount := s.nOpCount+1}).bind fun s =>
        if MAX_STACK_SIZE < s.stack.length+s.altstack.length then none else some s).bind
          (m.evalLoop tx nIn pc.length pc) := by
  have hop : getScriptOp (opcode :: pc) = some (opcode, [], pc) := by
    have hpush : ¬opcode ≤ OP_PUSHDATA4 := by
      rw [UInt8.le_iff_toNat_le]
      exact fun h => absurd ((UInt8.lt_iff_toNat_lt.mp hopcode).trans_le h) (by decide)
    rw [getScriptOp, if_neg hpush]
  rw [evalLoop_cons hop hfuel, evalInstruction_op hopcode henabled pc hexec hcount]

theorem evalScript_nil (stack : List (List UInt8)) :
    m.evalScript tx nIn stack [] = some stack := rfl

/-- The loop at a push. -/
theorem evalLoop_pushData {data : List UInt8} (hdata : data.length ≤ 75) {pc : CScript} {fuel : ℕ}
    (hfuel : (pushData data ++ pc).length ≤ fuel) {s : EvalState} (hexec : s.vfExec = [])
    (hstack : s.stack.length+s.altstack.length < MAX_STACK_SIZE) :
    m.evalLoop tx nIn fuel (pushData data ++ pc) s =
      m.evalLoop tx nIn pc.length pc {s with stack := data :: s.stack} := by
  have hopcode : UInt8.ofNat data.length ≤ 75 := by
    rw [UInt8.le_iff_toNat_le, UInt8.toNat_ofNat', Nat.mod_eq_of_lt (by omega)]
    exact hdata
  rw [evalLoop_cons (getScriptOp_pushData hdata pc) hfuel,
    evalInstruction_push hopcode (hdata.trans (by decide)) pc hexec hstack, Option.bind_some]

theorem length_pushData (data : List UInt8) : (pushData data).length = data.length+1 := rfl

/-- A single push on an empty stack. -/
theorem evalScript_pushData {data : List UInt8} (hdata : data.length ≤ 75) :
    m.evalScript tx nIn [] (pushData data) = some [data] := by
  have hpush : m.evalLoop tx nIn (pushData data).length (pushData data ++ [])
      {stack := [], codehash := pushData data} =
        m.evalLoop tx nIn 0 [] {stack := [data], codehash := pushData data} :=
    evalLoop_pushData hdata (List.append_nil _ ▸ le_rfl) rfl (by decide : 0 < MAX_STACK_SIZE)
  rw [List.append_nil, evalLoop] at hpush
  unfold evalScript
  rw [length_pushData, if_neg (show ¬MAX_SCRIPT_SIZE < data.length+1 by
    exact Nat.not_lt.mpr ((Nat.succ_le_succ hdata).trans (by decide))), ← length_pushData, hpush]
  rfl

/-- A signature and a key, as an output to the hash of the key asks for. -/
theorem evalScript_pushData_pushData {vchSig vchPubKey : List UInt8} (hsig : vchSig.length ≤ 75)
    (hkey : vchPubKey.length ≤ 75) :
    m.evalScript tx nIn [] (pushData vchSig ++ pushData vchPubKey) =
      some [vchPubKey, vchSig] := by
  have hlength : (pushData vchSig ++ pushData vchPubKey).length ≤ MAX_SCRIPT_SIZE := by
    rw [List.length_append, length_pushData, length_pushData]
    exact (show _ ≤ 152 by omega).trans (by decide)
  generalize hscript : pushData vchSig ++ pushData vchPubKey = script at hlength
  have hfirst : m.evalLoop tx nIn script.length (pushData vchSig ++ pushData vchPubKey)
      {stack := [], codehash := script} =
        m.evalLoop tx nIn (pushData vchPubKey).length (pushData vchPubKey)
          {stack := [vchSig], codehash := script} :=
    evalLoop_pushData hsig (by rw [hscript]) rfl (by decide : 0 < MAX_STACK_SIZE)
  have hsecond : m.evalLoop tx nIn (pushData vchPubKey).length (pushData vchPubKey ++ [])
      {stack := [vchSig], codehash := script} =
        m.evalLoop tx nIn 0 [] {stack := [vchPubKey, vchSig], codehash := script} :=
    evalLoop_pushData hkey (List.append_nil _ ▸ le_rfl) rfl (by decide : 1 < MAX_STACK_SIZE)
  rw [List.append_nil, evalLoop] at hsecond
  rw [hsecond, hscript] at hfirst
  unfold evalScript
  rw [if_neg (Nat.not_lt.mpr hlength), hfirst]
  rfl

/-- A script without pay to script hash is true exactly where its evaluation leaves a true top. -/
theorem verifyScript_nil (scriptSig : CScript) :
    m.verifyScript tx nIn scriptSig [] =
      ((m.evalScript tx nIn [] scriptSig).map topIsTrue).getD false := by
  unfold verifyScript
  cases m.evalScript tx nIn [] scriptSig with
  | none => rfl
  | some stack =>
    rw [Option.map_some, Option.getD_some]
    dsimp only
    rw [evalScript_nil]
    dsimp only
    cases topIsTrue stack with
    | false => rfl
    | true => rfl

/-- One value does not satisfy an output to the hash of a key: nothing is left to be its
signature. -/
theorem evalScript_payToPublicKeyHash_singleton (data : List UInt8) {hash : List UInt8}
    (hhash : hash.length = 20) :
    m.evalScript tx nIn [data] (payToPublicKeyHash hash) = none := by
  have hscript : payToPublicKeyHash hash =
      OP_DUP :: OP_HASH160 :: (pushData hash ++ [OP_EQUALVERIFY, OP_CHECKSIG]) := by
    unfold payToPublicKeyHash pushData
    rw [hhash]
    rfl
  let tail : CScript := pushData hash ++ [OP_EQUALVERIFY, OP_CHECKSIG]
  have htail : tail.length = 23 := by
    rw [List.length_append, pushData, List.length_cons, hhash]
    rfl
  let s (stack : List (List UInt8)) (nOpCount : ℕ) : EvalState :=
    {stack := stack, nOpCount := nOpCount, codehash := payToPublicKeyHash hash}
  have hdup : m.evalLoop tx nIn 25 (OP_DUP :: OP_HASH160 :: tail) (s [data] 0) =
      m.evalLoop tx nIn (OP_HASH160 :: tail).length (OP_HASH160 :: tail) (s [data, data] 1) :=
    evalLoop_op (by decide) (by decide) (by rw [List.length_cons, List.length_cons, htail]) rfl
      (by decide : 0 < MAX_OPS_PER_SCRIPT)
  have hhash160 : m.evalLoop tx nIn (OP_HASH160 :: tail).length (OP_HASH160 :: tail)
      (s [data, data] 1) = m.evalLoop tx nIn tail.length tail (s [m.hash160 data, data] 2) :=
    evalLoop_op (by decide) (by decide) le_rfl rfl (by decide : 1 < MAX_OPS_PER_SCRIPT)
  have hpush : m.evalLoop tx nIn tail.length tail (s [m.hash160 data, data] 2) =
      m.evalLoop tx nIn 2 [OP_EQUALVERIFY, OP_CHECKSIG] (s [hash, m.hash160 data, data] 2) := by
    rw [evalLoop_cons (getScriptOp_pushData (hhash.trans_le (by decide)) _) le_rfl,
      evalInstruction_push (s := s [m.hash160 data, data] 2) _ (hhash.trans_le (by decide)) _ rfl
        (by decide : 2 < MAX_STACK_SIZE)]
    · rfl
    · rw [hhash]
      decide
  have hverify : m.evalLoop tx nIn 2 [OP_EQUALVERIFY, OP_CHECKSIG]
      (s [hash, m.hash160 data, data] 2) = none := by
    have hop : m.evalOp tx nIn OP_EQUALVERIFY [OP_CHECKSIG] (s [hash, m.hash160 data, data] 3) =
        if m.hash160 data = hash then some (s [data] 3) else none := rfl
    have hchecksig : m.evalLoop tx nIn 1 [OP_CHECKSIG] (s [data] 3) = none :=
      (evalLoop_op (by decide : OP_16 < OP_CHECKSIG) (by decide) le_rfl rfl
        (by decide : 3 < MAX_OPS_PER_SCRIPT)).trans rfl
    rw [evalLoop_op (s := s [hash, m.hash160 data, data] 2) (by decide : OP_16 < OP_EQUALVERIFY)
      (by decide) (show ([OP_EQUALVERIFY, OP_CHECKSIG] : CScript).length ≤ 2 from le_rfl) rfl
      (by decide : 2 < MAX_OPS_PER_SCRIPT), hop]
    split_ifs
    · exact hchecksig
    · rfl
  have hlength : (payToPublicKeyHash hash).length = 25 := by
    rw [hscript, List.length_cons, List.length_cons, htail]
  unfold evalScript
  rw [hlength, if_neg (by decide : ¬MAX_SCRIPT_SIZE < 25)]
  have hloop : m.evalLoop tx nIn 25 (payToPublicKeyHash hash) (s [data] 0) = none := by
    rw [hscript]
    exact hdup.trans (hhash160.trans (hpush.trans hverify))
  rw [hloop, Option.bind_none]

end Machine

end BabaChain.Script
