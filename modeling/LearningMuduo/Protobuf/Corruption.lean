import LearningMuduo.Protobuf.BodyChecks
import LearningMuduo.Protobuf.StringCodec

/-! One corrupted byte of a body, in the checked part or in the checksum, never passes. -/
namespace LearningMuduo.Protobuf
open Library
variable {Message Descriptor : Type}

/-- The first sum of `zlibAdler32`: what the bytes add up to modulo 65521. -/
def byteSum (bytes : List UInt8) : Nat := (bytes.map UInt8.toNat).sum

private theorem byteSum_set {bytes : List UInt8} {i : Nat} (hi : i < bytes.length) (b : UInt8) :
    byteSum (bytes.set i b) + bytes[i].toNat = byteSum bytes + b.toNat := by
  induction bytes generalizing i with
  | nil => cases hi
  | cons byte bytes ih =>
    cases i with
    | zero =>
      simp only [byteSum,List.set_cons_zero,List.getElem_cons_zero,List.map_cons,List.sum_cons]
      omega
    | succ i =>
      have h := ih (Nat.lt_of_succ_lt_succ hi)
      simp only [byteSum,List.set_cons_succ,List.getElem_cons_succ,List.map_cons,List.sum_cons] at h ⊢
      omega

private theorem adler_sums (bytes : List UInt8) (s : Nat × Nat) (hs : s.1 < 65521) :
    (bytes.foldl (fun s byte => ((s.1 + byte.toNat) % 65521,(s.2 + (s.1 + byte.toNat) % 65521) % 65521)) s).1 =
      (s.1 + byteSum bytes) % 65521 := by
  induction bytes generalizing s with
  | nil => exact (Nat.mod_eq_of_lt hs).symm
  | cons byte bytes ih =>
    rw [List.foldl_cons,ih _ (Nat.mod_lt _ (by decide)),byteSum,byteSum,List.map_cons,List.sum_cons,
      Nat.mod_add_mod,Nat.add_assoc]

/-- The low half of zlib's checksum, started from 1. -/
theorem zlibAdler32_low (bytes : List UInt8) : zlibAdler32 1 bytes % 65536 = (1 + byteSum bytes) % 65521 := by
  have hsums := adler_sums bytes (1,0) (by decide)
  have hlt := Nat.mod_lt (1 + byteSum bytes) (show 65521 > 0 by decide)
  rw [zlibAdler32,Nat.mul_add_mod_self_right,hsums]
  exact Nat.mod_eq_of_lt (by omega)

/-- A byte that changes, changes by less than 65521, and so changes the first sum. -/
theorem zlibAdler32_set {bytes : List UInt8} {i : Nat} (hi : i < bytes.length) {b : UInt8} (hb : b ≠ bytes[i]) :
    zlibAdler32 1 (bytes.set i b) % 65536 ≠ zlibAdler32 1 bytes % 65536 := by
  have hsum := byteSum_set hi b
  have hne : b.toNat ≠ bytes[i].toNat := fun h => hb (UInt8.toNat_inj.mp h)
  have hlt := b.toNat_lt
  have hlt' := bytes[i].toNat_lt
  rw [zlibAdler32_low,zlibAdler32_low]
  omega

private theorem encodeInt32_inj {m n : Nat} (h : encodeInt32 m = encodeInt32 n) : m % 65536 = n % 65536 := by
  have hd := congrArg (fun word => decodeInt32 (word ++ []) % 2^32) h
  simp only [decodeInt32_encodeInt32,toInt32_emod] at hd
  omega

private theorem bytesAt_set_before {body : List UInt8} {i offset n : Nat} (h : i < offset) (b : UInt8) :
    bytesAt (body.set i b) offset n = bytesAt body offset n := by
  rw [bytesAt,bytesAt,List.drop_set_of_lt h]

private theorem bytesAt_set_behind {body : List UInt8} {i n : Nat} (h : n ≤ i) (b : UInt8) :
    bytesAt (body.set i b) 0 n = bytesAt body 0 n := by
  rw [bytesAt,bytesAt,List.drop_zero,List.drop_zero,List.take_set_of_le h]

/-- No corrupted byte keeps the checksum right. -/
theorem checkSum_set {pb : Runtime Message Descriptor} (hz : pb.adler32 = zlibAdler32) {body : List UInt8}
    (hmatch : CheckSumMatches pb body) {i : Nat} (hi : i < body.length) {b : UInt8} (hb : b ≠ body[i]) :
    ¬ CheckSumMatches pb (body.set i b) := by
  intro hmatch'
  rw [CheckSumMatches,hz] at hmatch hmatch'
  rw [List.length_set] at hmatch'
  by_cases hpart : i < body.length - 4
  · -- the checked part has changed and its word has not
    have hpart' : bytesAt (body.set i b) 0 (body.length-4) = (bytesAt body 0 (body.length-4)).set i b := by
      rw [bytesAt,bytesAt,List.drop_zero,List.drop_zero,List.take_set]
    have hlen : i < (bytesAt body 0 (body.length-4)).length := by
      rw [bytesAt,List.length_take,List.length_drop]
      omega
    have hbyte : (bytesAt body 0 (body.length-4))[i] = body[i] := by
      simp only [bytesAt,List.drop_zero,List.getElem_take]
    rw [bytesAt_set_before hpart,hmatch,hpart'] at hmatch'
    exact zlibAdler32_set hlen (hbyte ▸ hb) (encodeInt32_inj hmatch').symm
  · -- the word has changed and the checked part has not
    rw [bytesAt_set_behind (by omega),← hmatch] at hmatch'
    have hbyte := congrArg (fun word => word[i-(body.length-4)]?) hmatch'
    simp only [bytesAt,List.getElem?_take,List.getElem?_drop,List.getElem?_set,
      Nat.add_sub_cancel' (Nat.le_of_not_lt hpart),if_pos (show i-(body.length-4) < 4 by omega),
      List.getElem?_eq_getElem hi,hi,if_true] at hbyte
    exact hb (Option.some.inj hbyte)

/-- A body with the right checksum and one byte replaced: `parse` sets `kCheckSumError` and
returns the null pointer, whatever bytes lie behind the body, and so does `decode`. -/
theorem one_corrupted_byte_is_detected (pb : StringRuntime Message Descriptor) (hz : pb.adler32 = zlibAdler32)
    {body : List UInt8} (hmin : kMinMessageLen ≤ body.length) (hmax : body.length ≤ kMaxMessageLen)
    (hmatch : CheckSumMatches pb.toRuntime body) {i : Nat} (hi : i < body.length) {b : UInt8} (hb : b ≠ body[i]) :
    (∀ behind, parse pb.toRuntime (body.set i b ++ behind) body.length = .ok (none,.kCheckSumError)) ∧
    decode pb (body.set i b) = .ok none := by
  have hlen : (body.set i b).length = body.length := List.length_set
  rw [kMinMessageLen,kHeaderLen] at hmin
  rw [kMaxMessageLen] at hmax
  have hparse (behind : List UInt8) :
      parse pb.toRuntime (body.set i b ++ behind) body.length = .ok (none,.kCheckSumError) := by
    rw [parse_eq pb.toRuntime (by omega) (by omega) (by rw [List.length_append]; omega),← hlen,List.take_left,
      verdict_checkSum pb.toRuntime (by omega) (checkSum_set hz hmatch hi hb)]
  have hbody := hparse []
  rw [List.append_nil] at hbody
  refine ⟨hparse,?_⟩
  rw [decode_eq pb (by omega) (by omega),hlen,hbody]
  rfl

/-- The body of an empty message with the first byte of its name length replaced. -/
theorem one_corrupted_byte_is_detected_empty :
    parse emptyRuntime ((frameBody emptyRuntime none).set 0 1) 20 = .ok (none,.kCheckSumError) ∧
    decode emptyStringRuntime ((frameBody emptyRuntime none).set 0 1) = .ok none := by
  have hlen : (frameBody emptyRuntime none).length = 20 := by decide +kernel
  have hmatch : CheckSumMatches emptyRuntime (frameBody emptyRuntime none) := by
    unfold CheckSumMatches
    decide +kernel
  obtain ⟨hparse,hdecode⟩ := one_corrupted_byte_is_detected emptyStringRuntime rfl (by decide +kernel)
    (by decide +kernel) hmatch (show 0 < _ by decide +kernel) (show 1 ≠ _ by decide +kernel)
  refine ⟨?_,hdecode⟩
  have h := hparse []
  rw [List.append_nil,hlen] at h
  exact h

end LearningMuduo.Protobuf
