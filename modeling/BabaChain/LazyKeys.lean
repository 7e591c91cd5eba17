import Mathlib.Tactic

/-! Public keys that are decoded when they are first needed, and the store of
those that several owners share. -/
namespace BabaChain.BLS

/-- The bytes of a public key. -/
abbrev KeyBytes := Vector UInt8 48

def zeroBytes : KeyBytes := Vector.replicate 48 0

/-- The two schemes that `bls::G1Element` serializes its elements in. -/
structure KeyCodec (G : Type*) where
  serializeToArray : Bool → G → KeyBytes
  fromBytes : Bool → KeyBytes → Option G
  fromBytes_serialize : ∀ legacy g, fromBytes legacy (serializeToArray legacy g) = some g
  serialize_ne_zero : ∀ legacy g, serializeToArray legacy g ≠ zeroBytes

variable {G : Type*} (codec : KeyCodec G)

/-- `CBLSWrapper::ToBytes`, where the invalid object is `none`. -/
def KeyCodec.toBytes (legacy : Bool) (obj : Option G) : KeyBytes :=
  obj.elim zeroBytes (codec.serializeToArray legacy)

def KeyCodec.setBytes (legacy : Bool) (vecBytes : KeyBytes) : Option G :=
  if vecBytes = zeroBytes then none else codec.fromBytes legacy vecBytes

/-- `CBLSLazyWrapper<CBLSPublicKey>`. -/
structure CBLSLazyPublicKey (G : Type*) where
  vecBytes : KeyBytes := zeroBytes
  obj : Option G := none
  objInitialized : Bool := false
  bufValid : Bool := false
  bufLegacyScheme : Bool := true
deriving DecidableEq

namespace CBLSLazyPublicKey

def isDefault (k : CBLSLazyPublicKey G) : Bool := !k.bufValid && !k.objInitialized

/-- `operator=`. -/
def copy (r : CBLSLazyPublicKey G) : CBLSLazyPublicKey G where
  bufValid := r.bufValid
  bufLegacyScheme := r.bufLegacyScheme
  vecBytes := if r.bufValid then r.vecBytes else zeroBytes
  objInitialized := r.objInitialized
  obj := if r.objInitialized then r.obj else none

/-- `Serialize`. A buffer in the other scheme is written anew from the object,
whether or not that has been decoded. -/
def serialize (specificLegacyScheme : Bool) (k : CBLSLazyPublicKey G) :
    KeyBytes × CBLSLazyPublicKey G :=
  let k :=
    if !k.objInitialized && !k.bufValid then
      {k with vecBytes := zeroBytes}
    else if !k.bufValid || k.bufLegacyScheme != specificLegacyScheme then
      {k with
        vecBytes := codec.toBytes specificLegacyScheme k.obj
        bufValid := true
        bufLegacyScheme := specificLegacyScheme}
    else k
  (k.vecBytes, k)

def unserialize (specificLegacyScheme : Bool) (vecBytes : KeyBytes) (k : CBLSLazyPublicKey G) :
    CBLSLazyPublicKey G :=
  {k with
    vecBytes
    bufValid := decide (vecBytes ≠ zeroBytes)
    bufLegacyScheme := specificLegacyScheme
    objInitialized := false}

def set (obj : Option G) (specificLegacyScheme : Bool) (k : CBLSLazyPublicKey G) :
    CBLSLazyPublicKey G :=
  {k with
    bufValid := false
    bufLegacyScheme := specificLegacyScheme
    objInitialized := true
    obj}

def get [DecidableEq G] (k : CBLSLazyPublicKey G) : Option G × CBLSLazyPublicKey G :=
  if !k.bufValid && !k.objInitialized then (none, k)
  else if !k.objInitialized then
    let k := {k with obj := codec.setBytes k.bufLegacyScheme k.vecBytes}
    if k.obj = none then (none, {k with bufValid := false})
    -- CheckMalleable
    else if codec.toBytes k.bufLegacyScheme k.obj ≠ k.vecBytes then (none, {k with bufValid := false})
    else (k.obj, {k with objInitialized := true})
  else (k.obj, k)

/-- `operator==` on two different objects. -/
def equal [DecidableEq G] (k r : CBLSLazyPublicKey G) :
    Bool × CBLSLazyPublicKey G × CBLSLazyPublicKey G :=
  if k.isDefault && r.isDefault then (true, k, r)
  else if k.isDefault != r.isDefault then (false, k, r)
  else if k.bufValid && r.bufValid && k.bufLegacyScheme == r.bufLegacyScheme then
    (decide (k.vecBytes = r.vecBytes), k, r)
  else if k.objInitialized && r.objInitialized then (decide (k.obj = r.obj), k, r)
  -- both sides are decoded, which fills their caches
  else
    let (obj, k) := k.get codec
    let (r_obj, r) := r.get codec
    (decide (obj = r_obj), k, r)

/-- What a key stands for: no key, or an object, which may be the invalid one. -/
def value (k : CBLSLazyPublicKey G) : Option (Option G) :=
  if k.objInitialized then some k.obj
  else if k.bufValid then some (codec.setBytes k.bufLegacyScheme k.vecBytes)
  else none

/-- A valid buffer holds the bytes of the object that the key stands for, in the
scheme it names; while the object is not decoded, that is the given scheme. -/
structure Faithful (legacy : Bool) (k : CBLSLazyPublicKey G) : Prop where
  bytes : k.bufValid → k.vecBytes = codec.toBytes k.bufLegacyScheme (k.value codec).join
  scheme : k.bufValid → k.objInitialized = false → k.bufLegacyScheme = legacy ∧ k.vecBytes ≠ zeroBytes

instance [DecidableEq G] (legacy : Bool) (k : CBLSLazyPublicKey G) :
    Decidable (Faithful codec legacy k) :=
  decidable_of_iff ((k.bufValid → k.vecBytes = codec.toBytes k.bufLegacyScheme (k.value codec).join) ∧
      (k.bufValid → k.objInitialized = false →
        k.bufLegacyScheme = legacy ∧ k.vecBytes ≠ zeroBytes))
    ⟨fun h => ⟨h.1, h.2⟩, fun h => ⟨h.bytes, h.scheme⟩⟩

/-- The bytes of a value in one scheme. -/
def valueBytes (legacy : Bool) (v : Option (Option G)) : KeyBytes := codec.toBytes legacy v.join

/-- Whatever the first key stood for faithfully, the second one does too. -/
def Keeps (k k' : CBLSLazyPublicKey G) : Prop :=
  ∀ legacy, Faithful codec legacy k → Faithful codec legacy k' ∧ k'.value codec = k.value codec

variable {codec} {legacy : Bool} {k r : CBLSLazyPublicKey G}

theorem keeps_refl (k : CBLSLazyPublicKey G) : Keeps codec k k := fun _ h => ⟨h, rfl⟩

theorem Keeps.trans {k₁ k₂ k₃ : CBLSLazyPublicKey G} (h₁ : Keeps codec k₁ k₂)
    (h₂ : Keeps codec k₂ k₃) : Keeps codec k₁ k₃ := by
  intro legacy h
  obtain ⟨hk₂, hv₂⟩ := h₁ legacy h
  obtain ⟨hk₃, hv₃⟩ := h₂ legacy hk₂
  exact ⟨hk₃, hv₃.trans hv₂⟩

theorem toBytes_injective (legacy : Bool) : Function.Injective (codec.toBytes legacy) := by
  intro a b hab
  cases a with
  | none =>
    cases b with
    | none => rfl
    | some b => exact absurd hab.symm (codec.serialize_ne_zero legacy b)
  | some a =>
    cases b with
    | none => exact absurd hab (codec.serialize_ne_zero legacy a)
    | some b =>
      have hdec := congrArg (codec.fromBytes legacy) hab
      rw [← codec.fromBytes_serialize legacy a, ← codec.fromBytes_serialize legacy b]
      exact hdec

theorem setBytes_toBytes (legacy : Bool) (g : G) :
    codec.setBytes legacy (codec.toBytes legacy (some g)) = some g := by
  have hne : codec.toBytes legacy (some g) ≠ zeroBytes := codec.serialize_ne_zero legacy g
  rw [KeyCodec.setBytes, if_neg hne]
  exact codec.fromBytes_serialize legacy g

theorem value_of_initialized (h : k.objInitialized = true) : k.value codec = some k.obj := if_pos h

theorem value_of_buffer (hobj : k.objInitialized = false) (hbuf : k.bufValid = true) :
    k.value codec = some (codec.setBytes k.bufLegacyScheme k.vecBytes) := by
  rw [value, hobj, if_neg Bool.false_ne_true, if_pos hbuf]

theorem value_of_default (h : k.isDefault = true) : k.value codec = none := by
  obtain ⟨hbuf, hobj⟩ := Bool.and_eq_true_iff.mp h
  rw [Bool.not_eq_true'] at hbuf hobj
  rw [value, hobj, hbuf, if_neg Bool.false_ne_true, if_neg Bool.false_ne_true]

/-- An object that has been decoded is faithful in both schemes. -/
theorem faithful_of_initialized (hobj : k.objInitialized = true)
    (hbytes : k.bufValid → k.vecBytes = codec.toBytes k.bufLegacyScheme k.obj) :
    Faithful codec legacy k where
  bytes hbuf := by
    rw [value_of_initialized hobj]
    exact hbytes hbuf
  scheme _ h := absurd (hobj.symm.trans h) (by decide)

/-- The buffer of a faithful key that is not decoded holds the canonical bytes
of an element. -/
theorem Faithful.decoded (h : Faithful codec legacy k) (hbuf : k.bufValid = true)
    (hobj : k.objInitialized = false) :
    ∃ g, codec.setBytes k.bufLegacyScheme k.vecBytes = some g ∧
      codec.toBytes k.bufLegacyScheme (some g) = k.vecBytes := by
  have hbytes := h.bytes hbuf
  rw [value_of_buffer hobj hbuf, Option.join_some] at hbytes
  cases hset : codec.setBytes k.bufLegacyScheme k.vecBytes with
  | none =>
    rw [hset] at hbytes
    exact absurd hbytes (h.scheme hbuf hobj).2
  | some g =>
    rw [hset] at hbytes
    exact ⟨g, rfl, hbytes.symm⟩

/-- Storing the bytes of a decoded object in the buffer changes nothing that the
key stands for. -/
theorem keeps_fill (hobj : k.objInitialized = true) (scheme : Bool) :
    Keeps codec k {k with
      vecBytes := codec.toBytes scheme k.obj
      bufValid := true
      bufLegacyScheme := scheme} := by
  intro legacy _
  refine ⟨faithful_of_initialized hobj fun _ => rfl, ?_⟩
  rw [value_of_initialized hobj]
  exact value_of_initialized hobj

theorem keeps_clear (h : k.isDefault = true) : Keeps codec k {k with vecBytes := zeroBytes} := by
  have hbuf : ¬k.bufValid = true := by
    rw [(Bool.not_eq_true' _).mp (Bool.and_eq_true_iff.mp h).1]
    exact Bool.false_ne_true
  intro legacy _
  refine ⟨⟨fun hv => absurd hv hbuf, fun hv => absurd hv hbuf⟩, ?_⟩
  rw [value_of_default h]
  exact value_of_default h

/-- What `Serialize` does: it clears a default key, it writes the object where
the buffer will not do, and otherwise it writes the buffer. -/
theorem serialize_cases (legacy : Bool) (k : CBLSLazyPublicKey G) :
    k.isDefault = true ∧ k.serialize codec legacy = (zeroBytes, {k with vecBytes := zeroBytes}) ∨
    (k.bufValid = true ∨ k.objInitialized = true) ∧
      (k.bufValid = true → k.bufLegacyScheme ≠ legacy) ∧
      k.serialize codec legacy = (codec.toBytes legacy k.obj, {k with
        vecBytes := codec.toBytes legacy k.obj
        bufValid := true
        bufLegacyScheme := legacy}) ∨
    k.bufValid = true ∧ k.bufLegacyScheme = legacy ∧ k.serialize codec legacy = (k.vecBytes, k) := by
  rw [serialize]
  split_ifs with hdefault hwrite
  · refine Or.inl ⟨?_, rfl⟩
    rw [isDefault, Bool.and_comm]
    exact hdefault
  · refine Or.inr (Or.inl ⟨?_, fun hbuf => ?_, rfl⟩)
    · by_contra hneither
      push Not at hneither
      simp only [ne_eq, Bool.not_eq_true] at hneither
      rw [hneither.1, hneither.2] at hdefault
      exact hdefault rfl
    · rw [hbuf] at hwrite
      exact bne_iff_ne.mp hwrite
  · refine Or.inr (Or.inr ?_)
    simp only [Bool.or_eq_true, Bool.not_eq_true', bne_iff_ne, not_or, Bool.not_eq_false,
      ne_eq, Decidable.not_not] at hwrite
    exact ⟨hwrite.1, hwrite.2, rfl⟩

/-- A faithful key is written as the bytes of what it stands for. -/
theorem serialize_spec (h : Faithful codec legacy k) :
    (k.serialize codec legacy).1 = valueBytes codec legacy (k.value codec) ∧
      Keeps codec k (k.serialize codec legacy).2 := by
  rcases @serialize_cases _ codec legacy k with
    ⟨hdefault, heq⟩ | ⟨hset, hscheme, heq⟩ | ⟨hbuf, hscheme, heq⟩
  · rw [heq, value_of_default hdefault]
    exact ⟨rfl, keeps_clear hdefault⟩
  · -- only an object that has been decoded can have its buffer in the other scheme
    have hobj : k.objInitialized = true := by
      rw [← Bool.not_eq_false]
      intro hobj
      have hbuf := hset.resolve_right (by rw [hobj]; exact Bool.false_ne_true)
      exact hscheme hbuf (h.scheme hbuf hobj).1
    rw [heq, value_of_initialized hobj]
    exact ⟨rfl, keeps_fill hobj legacy⟩
  · have hbytes := h.bytes hbuf
    rw [hscheme] at hbytes
    rw [heq]
    exact ⟨hbytes, keeps_refl k⟩

/-- Under its own scheme, a key only ever fills an empty buffer. -/
theorem serialize_own_keeps (k : CBLSLazyPublicKey G) :
    Keeps codec k (k.serialize codec k.bufLegacyScheme).2 := by
  rcases @serialize_cases _ codec k.bufLegacyScheme k with
    ⟨hdefault, heq⟩ | ⟨hset, hscheme, heq⟩ | ⟨_, _, heq⟩
  · rw [heq]
    exact keeps_clear hdefault
  · have hobj := hset.resolve_left fun hbuf => hscheme hbuf rfl
    rw [heq]
    exact keeps_fill hobj k.bufLegacyScheme
  · rw [heq]
    exact keeps_refl k

theorem value_copy (k : CBLSLazyPublicKey G) : k.copy.value codec = k.value codec := by
  cases hobj : k.objInitialized with
  | true =>
    have hvalue : k.copy.value codec = some k.copy.obj := value_of_initialized hobj
    rw [value_of_initialized hobj, hvalue, copy, if_pos hobj]
  | false =>
    cases hbuf : k.bufValid with
    | true =>
      have hvalue := @value_of_buffer _ codec k.copy hobj hbuf
      rw [value_of_buffer hobj hbuf, hvalue, copy, if_pos hbuf]
    | false =>
      have hdefault : k.isDefault = true := by rw [isDefault, hbuf, hobj]; rfl
      rw [value_of_default hdefault]
      exact value_of_default hdefault

theorem Faithful.copy (h : Faithful codec legacy k) : Faithful codec legacy k.copy where
  bytes hbuf := by
    have hvec : k.copy.vecBytes = k.vecBytes := if_pos hbuf
    rw [value_copy, hvec]
    exact h.bytes hbuf
  scheme hbuf hobj := by
    have hvec : k.copy.vecBytes = k.vecBytes := if_pos hbuf
    rw [hvec]
    exact h.scheme hbuf hobj

theorem value_of_not_default (h : k.isDefault = false) :
    k.value codec = some (k.value codec).join := by
  cases hobj : k.objInitialized with
  | true => rw [value_of_initialized hobj, Option.join_some]
  | false =>
    have hbuf : k.bufValid = true := by
      rw [isDefault, hobj, Bool.not_false, Bool.and_true, Bool.not_eq_false'] at h
      exact h
    rw [value_of_buffer hobj hbuf, Option.join_some]

/-- Keys come from a decoded object, or from bytes that are those of an element
in the scheme they are read in. -/
theorem faithful_set (obj : Option G) (scheme : Bool) :
    Faithful codec legacy (k.set obj scheme) :=
  faithful_of_initialized rfl fun h => absurd h Bool.false_ne_true

theorem faithful_unserialize (g : G) :
    Faithful codec legacy (k.unserialize legacy (codec.serializeToArray legacy g)) where
  bytes hbuf := by
    rw [value_of_buffer rfl hbuf, Option.join_some]
    exact congrArg (codec.toBytes legacy) (setBytes_toBytes legacy g).symm
  scheme _ _ := ⟨rfl, codec.serialize_ne_zero legacy g⟩

variable [DecidableEq G]

/-- `Get` returns the object that a faithful key stands for. -/
theorem get_spec (h : Faithful codec legacy k) :
    (k.get codec).1 = (k.value codec).join ∧ Keeps codec k (k.get codec).2 := by
  cases hobj : k.objInitialized with
  | true =>
    have hget : k.get codec = (k.obj, k) := by
      simp only [get, hobj, Bool.not_true, Bool.and_false, Bool.false_eq_true, if_false]
    rw [hget, value_of_initialized hobj]
    exact ⟨rfl, keeps_refl k⟩
  | false =>
    cases hbuf : k.bufValid with
    | false =>
      have hdefault : k.isDefault = true := by rw [isDefault, hbuf, hobj]; rfl
      have hget : k.get codec = (none, k) := if_pos hdefault
      rw [hget, value_of_default hdefault]
      exact ⟨rfl, keeps_refl k⟩
    | true =>
      obtain ⟨g, hset, hcanonical⟩ := h.decoded hbuf hobj
      have hget : k.get codec = (some g, {k with obj := some g, objInitialized := true}) := by
        simp only [get, hobj, hbuf, hset, hcanonical, Bool.not_true, Bool.not_false,
          Bool.false_and, Bool.false_eq_true, if_false, if_true, reduceCtorEq, ne_eq,
          not_true_eq_false]
      have hvalue : k.value codec = some (some g) := by rw [value_of_buffer hobj hbuf, hset]
      rw [hget, hvalue]
      refine ⟨rfl, fun legacy _ => ⟨faithful_of_initialized rfl fun _ => hcanonical.symm, ?_⟩⟩
      rw [hvalue]
      exact value_of_initialized rfl

/-- Keys that compare equal stand for the same, in whichever schemes they are
held. -/
theorem equal_spec {r_legacy : Bool} (h : Faithful codec legacy k)
    (hr : Faithful codec r_legacy r) :
    ((k.equal codec r).1 = true → k.value codec = r.value codec) ∧
      Keeps codec k (k.equal codec r).2.1 ∧ Keeps codec r (k.equal codec r).2.2 := by
  -- neither key is the default one where their bytes or objects are compared
  have hjoin : ¬(k.isDefault && r.isDefault) = true → ¬(k.isDefault != r.isDefault) = true →
      (k.value codec).join = (r.value codec).join → k.value codec = r.value codec := by
    intro hboth hone heq
    rw [Bool.not_eq_true, bne_eq_false_iff_eq] at hone
    rw [hone, Bool.and_self, Bool.not_eq_true] at hboth
    rw [value_of_not_default (hone.trans hboth), value_of_not_default hboth, heq]
  rw [equal]
  split_ifs with hboth hone hbuf hobj
  · refine ⟨fun _ => ?_, keeps_refl k, keeps_refl r⟩
    obtain ⟨hk, hr⟩ := Bool.and_eq_true_iff.mp hboth
    rw [value_of_default hk, value_of_default hr]
  · exact ⟨fun h => absurd h id, keeps_refl k, keeps_refl r⟩
  · refine ⟨fun heq => hjoin hboth hone ?_, keeps_refl k, keeps_refl r⟩
    obtain ⟨hvalid, hscheme⟩ := Bool.and_eq_true_iff.mp hbuf
    obtain ⟨hk, hr'⟩ := Bool.and_eq_true_iff.mp hvalid
    have hbytes := of_decide_eq_true heq
    rw [h.bytes hk, hr.bytes hr', beq_iff_eq.mp hscheme] at hbytes
    exact toBytes_injective r.bufLegacyScheme hbytes
  · refine ⟨fun heq => ?_, keeps_refl k, keeps_refl r⟩
    obtain ⟨hk, hr⟩ := Bool.and_eq_true_iff.mp hobj
    rw [value_of_initialized hk, value_of_initialized hr, of_decide_eq_true heq]
  · obtain ⟨hget, hkeep⟩ := get_spec h
    obtain ⟨r_get, r_keep⟩ := get_spec hr
    refine ⟨fun heq => hjoin hboth hone ?_, hkeep, r_keep⟩
    rw [← hget, ← r_get]
    exact of_decide_eq_true heq

end CBLSLazyPublicKey

/-- The address of a key. Objects that share a key hold the same address. -/
abbrev KeyRef := ℕ

/-- The keys by address; those from `next` on are not in use. -/
structure KeyStore (G : Type*) where
  next : KeyRef := 0
  keys : KeyRef → CBLSLazyPublicKey G := fun _ => {}

namespace KeyStore

def alloc (k : CBLSLazyPublicKey G) (s : KeyStore G) : KeyRef × KeyStore G :=
  (s.next, ⟨s.next+1, Function.update s.keys s.next k⟩)

def put (r : KeyRef) (k : CBLSLazyPublicKey G) (s : KeyStore G) : KeyStore G :=
  {s with keys := Function.update s.keys r k}

def copyOf (r : KeyRef) (s : KeyStore G) : KeyRef × KeyStore G := s.alloc (s.keys r).copy

def serialize (legacy : Bool) (r : KeyRef) (s : KeyStore G) : KeyBytes × KeyStore G :=
  let (bytes, k) := (s.keys r).serialize codec legacy
  (bytes, s.put r k)

def serializeOwn (r : KeyRef) (s : KeyStore G) : KeyBytes × KeyStore G :=
  s.serialize codec (s.keys r).bufLegacyScheme r

/-- `operator==`: an object equals itself. -/
def equal [DecidableEq G] (r r' : KeyRef) (s : KeyStore G) : Bool × KeyStore G :=
  if r = r' then (true, s)
  else
    let (b, k, k') := (s.keys r).equal codec (s.keys r')
    (b, (s.put r k).put r' k')

def value (s : KeyStore G) (r : KeyRef) : Option (Option G) := (s.keys r).value codec

@[simp] theorem put_self (s : KeyStore G) (r : KeyRef) (k : CBLSLazyPublicKey G) :
    (s.put r k).keys r = k := by
  simp only [put, Function.update_self]

theorem put_of_ne {a r : KeyRef} (h : a ≠ r) (s : KeyStore G) (k : CBLSLazyPublicKey G) :
    (s.put r k).keys a = s.keys a := by
  simp only [put, Function.update_of_ne h]

@[simp] theorem alloc_self (s : KeyStore G) (k : CBLSLazyPublicKey G) :
    (s.alloc k).2.keys (s.alloc k).1 = k := by
  simp only [alloc, Function.update_self]

theorem alloc_of_lt {a : KeyRef} {s : KeyStore G} (h : a < s.next) (k : CBLSLazyPublicKey G) :
    (s.alloc k).2.keys a = s.keys a := by
  simp only [alloc, Function.update_of_ne h.ne]

/-- The address is in use, and its key is faithful. -/
structure Live (legacy : Bool) (r : KeyRef) (s : KeyStore G) : Prop where
  lt_next : r < s.next
  faithful : (s.keys r).Faithful codec legacy

instance [DecidableEq G] (legacy : Bool) (r : KeyRef) (s : KeyStore G) :
    Decidable (Live codec legacy r s) :=
  decidable_of_iff (r < s.next ∧ (s.keys r).Faithful codec legacy)
    ⟨fun h => ⟨h.1, h.2⟩, fun h => ⟨h.lt_next, h.faithful⟩⟩

/-- Keys stay where they are, and stand for what they stood for. -/
structure Evolves (s s' : KeyStore G) : Prop where
  next_le : s.next ≤ s'.next
  keeps : ∀ r < s.next, (s.keys r).Keeps codec (s'.keys r)

variable {codec} {s s' s'' : KeyStore G} {legacy : Bool} {r r' : KeyRef}

theorem evolves_refl (s : KeyStore G) : Evolves codec s s :=
  ⟨le_rfl, fun _ _ => CBLSLazyPublicKey.keeps_refl _⟩

theorem Evolves.trans (h : Evolves codec s s') (h' : Evolves codec s' s'') :
    Evolves codec s s'' where
  next_le := h.next_le.trans h'.next_le
  keeps r hr := (h.keeps r hr).trans (h'.keeps r (hr.trans_le h.next_le))

theorem Live.evolves (h : Live codec legacy r s) (he : Evolves codec s s') :
    Live codec legacy r s' where
  lt_next := h.lt_next.trans_le he.next_le
  faithful := (he.keeps r h.lt_next legacy h.faithful).1

theorem Live.value_evolves (h : Live codec legacy r s) (he : Evolves codec s s') :
    s'.value codec r = s.value codec r :=
  (he.keeps r h.lt_next legacy h.faithful).2

theorem evolves_put {k : CBLSLazyPublicKey G} (hk : (s.keys r).Keeps codec k) :
    Evolves codec s (s.put r k) := by
  refine ⟨le_rfl, fun a ha => ?_⟩
  by_cases har : a = r
  · subst har
    rw [put_self]
    exact hk
  · rw [put_of_ne har]
    exact CBLSLazyPublicKey.keeps_refl _

theorem evolves_alloc (k : CBLSLazyPublicKey G) (s : KeyStore G) :
    Evolves codec s (s.alloc k).2 := by
  refine ⟨Nat.le_succ _, fun a ha => ?_⟩
  rw [alloc_of_lt ha]
  exact CBLSLazyPublicKey.keeps_refl _

theorem live_alloc {k : CBLSLazyPublicKey G} (hk : k.Faithful codec legacy) (s : KeyStore G) :
    Live codec legacy (s.alloc k).1 (s.alloc k).2 := by
  refine ⟨Nat.lt_succ_self _, ?_⟩
  rw [alloc_self]
  exact hk

/-- A copy stands for what its original stands for. -/
theorem copyOf_spec (h : Live codec legacy r s) :
    Live codec legacy (s.copyOf r).1 (s.copyOf r).2 ∧
      (s.copyOf r).2.value codec (s.copyOf r).1 = s.value codec r ∧
      Evolves codec s (s.copyOf r).2 := by
  refine ⟨live_alloc h.faithful.copy s, ?_, evolves_alloc _ s⟩
  rw [value, copyOf, alloc_self, CBLSLazyPublicKey.value_copy, value]

theorem serialize_spec (h : Live codec legacy r s) :
    (s.serialize codec legacy r).1 =
        CBLSLazyPublicKey.valueBytes codec legacy (s.value codec r) ∧
      Evolves codec s (s.serialize codec legacy r).2 := by
  obtain ⟨hbytes, hkeeps⟩ := CBLSLazyPublicKey.serialize_spec h.faithful
  exact ⟨hbytes, evolves_put hkeeps⟩

theorem serializeOwn_evolves (r : KeyRef) (s : KeyStore G) :
    Evolves codec s (s.serializeOwn codec r).2 :=
  evolves_put (CBLSLazyPublicKey.serialize_own_keeps (s.keys r))

theorem equal_spec [DecidableEq G] {legacy' : Bool} (h : Live codec legacy r s)
    (h' : Live codec legacy' r' s) :
    ((s.equal codec r r').1 = true → s.value codec r = s.value codec r') ∧
      Evolves codec s (s.equal codec r r').2 := by
  rw [equal]
  split_ifs with hrr
  · subst hrr
    exact ⟨fun _ => rfl, evolves_refl s⟩
  · obtain ⟨heq, hkeeps, hkeeps'⟩ := CBLSLazyPublicKey.equal_spec h.faithful h'.faithful
    refine ⟨heq, (evolves_put hkeeps).trans (evolves_put ?_)⟩
    rw [put_of_ne (Ne.symm hrr)]
    exact hkeeps'

end KeyStore

end BabaChain.BLS
