import BabaChain.Lib.ByteWriter
import BabaChain.Primitives

/-! Network addresses, and the addresses that a masternode registers. -/
namespace BabaChain
open ByteWriter
open Std (ExtTreeMap)

/-- `WriteCompactSize`. -/
def writeCompactSize (nSize : ℕ) : List UInt8 :=
  if nSize < 253 then writeLE 1 nSize
  else if nSize ≤ 0xffff then 253 :: writeLE 2 nSize
  else if nSize ≤ 0xffffffff then 254 :: writeLE 4 nSize
  else 255 :: writeLE 8 nSize

/-- A vector or a string: its size and its bytes. -/
def writeVarBytes (bytes : List UInt8) : List UInt8 := writeCompactSize bytes.length++bytes

/-- `enum Network`, less the two values that no address has. -/
inductive CNetAddr.Network
  | IPV4 | IPV6 | ONION | I2P | CJDNS | INTERNAL
deriving DecidableEq, Repr

def CNetAddr.Network.addrSize : CNetAddr.Network → ℕ
  | IPV4 => 4
  | IPV6 => 16
  | ONION => 32
  | I2P => 32
  | CJDNS => 16
  | INTERNAL => 10

/-- An address has the size of its network's addresses, which the source asserts
wherever it reads one. -/
structure CNetAddr where
  m_net : CNetAddr.Network
  m_addr : List UInt8
  size : m_addr.length = m_net.addrSize
deriving DecidableEq

namespace CNetAddr

def default : CNetAddr := ⟨.IPV6, List.replicate 16 0, rfl⟩

def isRFC3849 (a : CNetAddr) : Bool := a.m_net == .IPV6 && a.m_addr.take 4 == [0x20, 0x01, 0x0D, 0xB8]

def isValid (a : CNetAddr) : Bool :=
  if a.m_net = .IPV6 ∧ a.m_addr = List.replicate 16 0 then false
  else if a.m_net = .CJDNS ∧ a.m_addr.head? ≠ some 0xFC then false
  else if a.isRFC3849 then false
  else if a.m_net = .INTERNAL then false
  -- INADDR_ANY and INADDR_NONE
  else if a.m_net = .IPV4 ∧ (a.m_addr = List.replicate 4 0 ∨ a.m_addr = List.replicate 4 0xFF) then
    false
  else true

def isAddrV1Compatible (a : CNetAddr) : Bool :=
  match a.m_net with
  | .IPV4 | .IPV6 | .INTERNAL => true
  | .ONION | .I2P | .CJDNS => false

def IPV4_IN_IPV6_PREFIX : List UInt8 := List.replicate 10 0++[0xFF, 0xFF]
def INTERNAL_IN_IPV6_PREFIX : List UInt8 := [0xFD, 0x6B, 0x88, 0xC0, 0x87, 0x24]

def serializeV1 (a : CNetAddr) : List UInt8 :=
  match a.m_net with
  | .IPV6 => a.m_addr
  | .IPV4 => IPV4_IN_IPV6_PREFIX++a.m_addr
  | .INTERNAL => INTERNAL_IN_IPV6_PREFIX++a.m_addr
  | .ONION | .I2P | .CJDNS => List.replicate 16 0

/-- `SerializeV2Stream`: the BIP155 network and the address. An internal address
goes as the IPv6 address it is embedded in. -/
def serializeV2 (a : CNetAddr) : List UInt8 :=
  match a.m_net with
  | .INTERNAL => 2 :: writeVarBytes a.serializeV1
  | .IPV4 => 1 :: writeVarBytes a.m_addr
  | .IPV6 => 2 :: writeVarBytes a.m_addr
  | .ONION => 4 :: writeVarBytes a.m_addr
  | .I2P => 5 :: writeVarBytes a.m_addr
  | .CJDNS => 6 :: writeVarBytes a.m_addr

end CNetAddr

structure CService where
  addr : CNetAddr
  port : UInt16
deriving DecidableEq

namespace CService

def default : CService := ⟨.default, 0⟩

/-- The serialization under a stream version with or without `ADDRV2_FORMAT`. -/
def serialize (addrv2 : Bool) (s : CService) : List UInt8 :=
  (if addrv2 then s.addr.serializeV2 else s.addr.serializeV1)++writeBE 2 s.port.toNat

end CService

structure DomainPort where
  m_addr : List UInt8
  m_port : UInt16
deriving DecidableEq

namespace DomainPort

inductive Status
  | BadChar | BadCharPos | BadDotless | BadLabelCharPos | BadLabelLen | BadLen | BadPort
  | Malformed | Success
deriving DecidableEq, Repr

def DOMAIN_LABEL_MAX_LEN : ℕ := 63
def DOMAIN_MAX_LEN : ℕ := 253
def DOMAIN_MIN_LEN : ℕ := 3

def isUpper (c : UInt8) : Bool := 65 ≤ c && c ≤ 90

def toLower (addr : List UInt8) : List UInt8 := addr.map fun c => if isUpper c then c+32 else c

/-- Membership in `SAFE_CHARS_RFC1035`: letters, digits, `.` and `-`. -/
def isSafeChar (c : UInt8) : Bool :=
  isUpper c || (97 ≤ c && c ≤ 122) || (48 ≤ c && c ≤ 57) || c == 46 || c == 45

def validateLabel (label : List UInt8) : Status :=
  if label = [] ∨ DOMAIN_LABEL_MAX_LEN < label.length then .BadLabelLen
  else if label.head? = some 45 ∨ label.getLast? = some 45 then .BadLabelCharPos
  else .Success

def validateDomain (addr : List UInt8) : Status :=
  if DOMAIN_MAX_LEN < addr.length ∨ addr.length < DOMAIN_MIN_LEN then .BadLen
  else if ¬addr.all isSafeChar then .BadChar
  else if addr.head? = some 46 ∨ addr.getLast? = some 46 then .BadCharPos
  else
    let labels := addr.splitOn 46
    if labels.length < 2 then .BadDotless
    else ((labels.map validateLabel).find? (· ≠ .Success)).getD .Success

def validate (d : DomainPort) : Status :=
  if d.m_addr = [] ∨ d.m_addr ≠ toLower d.m_addr then .Malformed
  else if d.m_port = 0 then .BadPort
  else validateDomain d.m_addr

def isValid (d : DomainPort) : Bool := decide (d.validate = .Success)

def default : DomainPort := ⟨[], 0⟩

def serialize (d : DomainPort) : List UInt8 := writeVarBytes d.m_addr++writeBE 2 d.m_port.toNat

end DomainPort

namespace Evo

/-- An entry holds a valid service or a valid domain, or it is invalid: every
constructor of the source, and its deserialization, drops what is not valid. -/
inductive NetInfoEntry
  | Invalid
  | Service (s : {s : CService // s.addr.isValid})
  | Domain (d : {d : DomainPort // d.isValid})
deriving DecidableEq

namespace NetInfoEntry

def getAddrPort : NetInfoEntry → Option CService
  | Service s => some s.val
  | _ => none

def getDomainPort : NetInfoEntry → Option DomainPort
  | Domain d => some d.val
  | _ => none

def isEmpty (e : NetInfoEntry) : Bool := decide (e = Invalid)

/-- Entries always write their addresses in the format of BIP155. -/
def serialize : NetInfoEntry → List UInt8
  | Service s => 0x01 :: s.val.serialize true
  | Domain d => 0x02 :: d.val.serialize
  | Invalid => [0xff]

end NetInfoEntry

abbrev NetInfoList := List NetInfoEntry

structure MnNetInfo where
  m_addr : NetInfoEntry := .Invalid
deriving DecidableEq

structure ExtNetInfo where
  m_version : UInt8 := 1
  m_data : ExtTreeMap UInt8 NetInfoList := ∅
  /-- Memory only: every entry of `m_data`, in the order they were added. -/
  m_all_entries : NetInfoList := []
deriving DecidableEq

def ExtNetInfo.CURRENT_VERSION : UInt8 := 1

/-- `NetInfoInterface`, by its two implementations. -/
inductive NetInfo
  | mn (info : MnNetInfo)
  | ext (info : ExtNetInfo)
deriving DecidableEq

namespace NetInfo

def getEntries : NetInfo → NetInfoList
  | mn info => if info.m_addr.isEmpty then [] else [info.m_addr]
  | ext info => info.m_all_entries

/-- `operator==`: the types agree, and so does what `IsEqual` compares. -/
def isEqual : NetInfo → NetInfo → Bool
  | mn a, mn b => decide (a.m_addr = b.m_addr)
  | ext a, ext b => decide (a.m_version = b.m_version) && decide (a.m_data = b.m_data)
  | _, _ => false

def serializeData (m_data : ExtTreeMap UInt8 NetInfoList) : List UInt8 :=
  writeCompactSize m_data.size++m_data.toList.flatMap fun (purpose, entries) =>
    purpose :: (writeCompactSize entries.length++entries.flatMap NetInfoEntry.serialize)

/-- `NetInfoSerWrapper::Serialize`: the object at hand decides the format. -/
def serialize : NetInfo → List UInt8
  | mn info => (info.m_addr.getAddrPort.getD .default).serialize false
  | ext info =>
    -- nothing more is written for an unknown version
    if info.m_version = 0 ∨ ExtNetInfo.CURRENT_VERSION < info.m_version then [info.m_version]
    else info.m_version :: serializeData info.m_data

theorem isEqual_serialize {a b : NetInfo} (h : isEqual a b) : serialize a = serialize b := by
  cases a with
  | mn a =>
    cases b with
    | mn b =>
      have haddr : a.m_addr = b.m_addr := of_decide_eq_true h
      rw [serialize, serialize, haddr]
    | ext b => exact absurd h Bool.false_ne_true
  | ext a =>
    cases b with
    | mn b => exact absurd h Bool.false_ne_true
    | ext b =>
      obtain ⟨hversion, hdata⟩ := Bool.and_eq_true_iff.mp h
      rw [serialize, serialize, of_decide_eq_true hversion, of_decide_eq_true hdata]

end NetInfo

end Evo

end BabaChain
