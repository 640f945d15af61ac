import LearningMuduo.Protobuf.WireFormat

/-! The wire format on base-128 numerals, for messages without unknown fields. -/
namespace LearningMuduo.Protobuf
open Library

/-- The tag found at the head of the input. -/
def plainTag (input : List UInt8) : Option (Nat × List UInt8) → (Nat × Bool) × List UInt8
  | some (tag,rest) => ((tag,decide (1 ≤ tag ∧ tag ≤ 127)),rest)
  | none => ((0,false),input)

private theorem plainTag_cutoff (input : List UInt8) (found : Option (Nat × List UInt8)) :
    (plainTag input found).1.2 = decide (1 ≤ (plainTag input found).1.1 ∧ (plainTag input found).1.1 ≤ 127) := by
  cases found <;> rfl

/-- It fails on a field without a case. -/
def plainWire : WireFormat (Fin 0) where
  readTagWithCutoffNoLastTag input := plainTag input (ofVarint 5 input)
  getTagFieldNumber tag := tag/8
  readInt64 input := (ofVarint 10 input).map fun out => ((UInt64.ofNat out.1).toInt64,out.2)
  readInt32 input := (ofVarint 10 input).map fun out => ((UInt64.ofNat out.1).toInt64.toInt32,out.2)
  readString old input :=
    match ofVarint 5 input with
    | some (n,rest) => if n ≤ rest.length then .ok (rest.take n,rest.drop n) else .error old
    | none => .error old
  skipField _ _ := .error []
  writeInt64ToArray field v := toVarint (8*field) ++ toVarint v.toUInt64.toNat
  writeInt32ToArray field v := toVarint (8*field) ++ toVarint v.toInt64.toUInt64.toNat
  writeStringToArray field s := toVarint (8*field+2) ++ (toVarint s.length ++ s)
  serializeUnknownFieldsToArray _ := []
  int64Size v := (toVarint v.toUInt64.toNat).length
  int32Size v := (toVarint v.toInt64.toUInt64.toNat).length
  stringSize s := (toVarint s.length).length + s.length
  computeUnknownFieldsSize _ := 0
  tag_consumes := by
    intro input h
    cases hv : ofVarint 5 input with
    | none =>
      rw [hv] at h
      exact (h rfl).elim
    | some out => exact length_ofVarint hv
  cutoff_ne_zero := by
    intro input h
    cases hv : ofVarint 5 input with
    | none =>
      rw [hv] at h
      cases h
    | some out =>
      rw [hv] at h
      exact Nat.ne_of_gt (of_decide_eq_true h).1
  int64_le := by
    intro input v rest h
    obtain ⟨out,hv,heq⟩ := Option.map_eq_some_iff.mp h
    cases heq
    exact Nat.le_of_lt (length_ofVarint hv)
  int32_le := by
    intro input v rest h
    obtain ⟨out,hv,heq⟩ := Option.map_eq_some_iff.mp h
    cases heq
    exact Nat.le_of_lt (length_ofVarint hv)
  string_le := by
    intro old input s rest h
    split at h
    · next n rest' hv =>
      have hlt := length_ofVarint hv
      split at h
      · cases h
        rw [List.length_drop]
        omega
      · cases h
    · cases h
  skip_le := by
    intro tag input us rest h
    cases h

private theorem plainWire_tagged {tag : Nat} (hpos : 1 ≤ tag) (hle : tag ≤ 127) (body : List UInt8) :
    Tagged plainWire (toVarint tag ++ body) tag body where
  length := by
    rw [toVarint_of_lt (by omega)]
    exact Nat.add_comm _ _
  tag := by
    intro rest
    change plainTag _ (ofVarint 5 (toVarint tag ++ body ++ rest)) = _
    rw [List.append_assoc,ofVarint_toVarint 5 tag (by omega) _ (by decide),plainTag,decide_eq_true ⟨hpos,hle⟩]

/-- The plain wire format is lawful. -/
theorem plainWire_lawful : plainWire.Lawful fun u => u.elim0 where
  field_number _ := rfl
  end_of_input := rfl
  cutoff input := plainTag_cutoff input (ofVarint 5 input)
  int64 := by
    intro field v hpos hle
    refine ⟨toVarint v.toUInt64.toNat,plainWire_tagged (by omega) (by omega) _,rfl,fun rest => ?_⟩
    have hlt : v.toUInt64.toNat < 128^10 := Nat.lt_trans v.toUInt64.toNat_lt (by decide)
    change (ofVarint 10 _).map _ = _
    rw [ofVarint_toVarint 10 _ hlt rest (by decide),Option.map_some,UInt64.ofNat_toNat,Int64.toInt64_toUInt64]
  int32 := by
    intro field v hpos hle
    refine ⟨toVarint v.toInt64.toUInt64.toNat,plainWire_tagged (by omega) (by omega) _,rfl,fun rest => ?_⟩
    have hlt : v.toInt64.toUInt64.toNat < 128^10 := Nat.lt_trans v.toInt64.toUInt64.toNat_lt (by decide)
    change (ofVarint 10 _).map _ = _
    rw [ofVarint_toVarint 10 _ hlt rest (by decide),Option.map_some,UInt64.ofNat_toNat,Int64.toInt64_toUInt64,
      Int32.toInt32_toInt64]
  string := by
    intro field s hpos hle hs
    refine ⟨toVarint s.length ++ s,plainWire_tagged (by omega) (by omega) _,List.length_append,fun old rest => ?_⟩
    have hlt : s.length < 128^5 := Nat.lt_trans hs (by decide)
    change (match ofVarint 5 (toVarint s.length ++ s ++ rest) with | some (n,rest) => _ | none => _) = _
    rw [List.append_assoc,ofVarint_toVarint 5 _ hlt _ (by decide)]
    dsimp only
    rw [if_pos (by rw [List.length_append]; omega),List.take_left,List.drop_left]
  string_length := by
    intro field s
    change s.length ≤ (toVarint (8*field+2) ++ (toVarint s.length ++ s)).length
    rw [List.length_append,List.length_append]
    omega
  unknown_fields := by
    intro us
    exact (List.flatMap_eq_nil_iff.mpr fun _ _ => rfl).symm
  unknown_size _ := rfl
  unknown u := u.elim0
  skip_tag := by
    intro tag input us rest h
    cases h
  skip_tag_failed := by
    intro tag input us h
    cases h
    intro u
    exact u.elim0

end LearningMuduo.Protobuf
