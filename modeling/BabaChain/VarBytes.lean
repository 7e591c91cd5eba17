import BabaChain.NetInfo

/-! Sizes and strings, as they are written and read back. -/
namespace BabaChain
open ByteReader ByteWriter

variable {s rest m : List UInt8} {n : ℕ}

theorem readUInt_one_cons (c : UInt8) (s : List UInt8) :
    (readUInt 1).run (c :: s) = some (c.toNat, s) := by
  have hvalue : leNat [c] = c.toNat := by
    change c.toNat+256*0 = c.toNat
    omega
  change some (leNat [c], s) = some (c.toNat, s)
  rw [hvalue]

/-- A size below 253 is the first byte. -/
theorem readCompactSize_cons {c : UInt8} (hc : c.toNat < 253) (s : List UInt8) :
    readCompactSize.run (c :: s) = some (c.toNat, s) := by
  have hmax : ¬MAX_SIZE < c.toNat := by
    unfold MAX_SIZE
    omega
  unfold readCompactSize
  rw [StateT.run_bind, readUInt_one_cons, Option.bind_eq_bind, Option.bind_some]
  dsimp only
  rw [if_pos hc, pure_bind, if_neg hmax]
  rfl

/-- A size in a longer form is at least the least that needs it. -/
theorem le_of_readLong {k lo : ℕ} {f : ℕ → Reader ℕ} (hf : ∀ v, v < lo → f v = failure)
    (hpure : ∀ v, ¬v < lo → f v = if MAX_SIZE < v then failure else pure v)
    (h : (readUInt k >>= f).run s = some (n, rest)) : lo ≤ n := by
  rw [StateT.run_bind, Option.bind_eq_bind, Option.bind_eq_some_iff] at h
  obtain ⟨⟨v, s'⟩, -, h⟩ := h
  dsimp only at h
  by_cases hv : v < lo
  · rw [hf v hv] at h
    cases h
  · rw [hpure v hv] at h
    split_ifs at h
    · cases h
    · cases h
      exact not_lt.mp hv

theorem eq_of_readCompactSize (h : readCompactSize.run s = some (n, rest)) (hn : n < 253) :
    s = UInt8.ofNat n :: rest := by
  cases s with
  | nil => cases h
  | cons c s =>
    by_cases hc : c.toNat < 253
    · rw [readCompactSize_cons hc] at h
      cases h
      rw [UInt8.ofNat_toNat]
    · -- a longer form of a small size is refused
      unfold readCompactSize at h
      rw [StateT.run_bind, readUInt_one_cons, Option.bind_eq_bind, Option.bind_some] at h
      dsimp only at h
      rw [if_neg hc] at h
      exfalso
      split_ifs at h
      · have hle := le_of_readLong (fun v hv => (if_pos hv).trans (failure_bind _))
          (fun v hv => (if_neg hv).trans (pure_bind _ _)) h
        omega
      · have hle := le_of_readLong (fun v hv => (if_pos hv).trans (failure_bind _))
          (fun v hv => (if_neg hv).trans (pure_bind _ _)) h
        omega
      · have hle := le_of_readLong (fun v hv => (if_pos hv).trans (failure_bind _))
          (fun v hv => (if_neg hv).trans (pure_bind _ _)) h
        omega

theorem readBytes_append (m rest : List UInt8) :
    (readBytes m.length).run (m++rest) = some (m, rest) := by
  have hle : m.length ≤ (m++rest).length := by
    rw [List.length_append]
    exact Nat.le_add_right _ _
  change (if m.length ≤ (m++rest).length then
    some ((m++rest).take m.length, (m++rest).drop m.length) else none) = some (m, rest)
  rw [if_pos hle, List.take_left, List.drop_left]

theorem writeVarBytes_short (hm : m.length < 253) :
    writeVarBytes m = UInt8.ofNat m.length :: m := by
  unfold writeVarBytes writeCompactSize
  rw [if_pos hm]
  rfl

theorem readVarBytes_append (hm : m.length < 253) (rest : List UInt8) :
    readVarBytes.run (writeVarBytes m++rest) = some (m, rest) := by
  have hbyte : (UInt8.ofNat m.length).toNat = m.length := by
    rw [UInt8.toNat_ofNat']
    exact Nat.mod_eq_of_lt (by omega)
  unfold readVarBytes
  rw [writeVarBytes_short hm, List.cons_append, StateT.run_bind,
    readCompactSize_cons (hbyte.trans_lt hm), Option.bind_eq_bind, Option.bind_some, hbyte]
  exact readBytes_append m rest

/-- What was read as a short vector stood there with its length. -/
theorem eq_of_readVarBytes (h : readVarBytes.run s = some (m, rest)) (hm : m.length < 253) :
    s = UInt8.ofNat m.length :: (m++rest) := by
  unfold readVarBytes at h
  rw [StateT.run_bind, Option.bind_eq_bind, Option.bind_eq_some_iff] at h
  obtain ⟨⟨n, s'⟩, hsize, hbytes⟩ := h
  dsimp only at hbytes
  change (if n ≤ s'.length then some (s'.take n, s'.drop n) else none) = some (m, rest) at hbytes
  split_ifs at hbytes with hn
  cases hbytes
  have hlength : (s'.take n).length = n := List.length_take_of_le hn
  rw [hlength] at hm ⊢
  rw [eq_of_readCompactSize hsize hm, List.take_append_drop]

end BabaChain
