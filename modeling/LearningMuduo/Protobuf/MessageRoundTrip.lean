import LearningMuduo.Protobuf.PlainWire
import LearningMuduo.Protobuf.QueryMessages

/-! Parsing what was written merges it, and what a parser accepts it can write and read again. -/
namespace LearningMuduo.Protobuf
open Library
variable {U : Type} {w : WireFormat U} {fieldTag : U → Nat}

private theorem reads_repeated {M : Type} {l : FieldLoop UInt8 M} {write : List UInt8 → List UInt8} (add : M → List UInt8 → M)
    (addAll : M → List (List UInt8) → M) (hnil : ∀ m, addAll m [] = m)
    (hcons : ∀ m s ss, addAll (add m s) ss = addAll m (s :: ss)) {ss : List (List UInt8)}
    (h : ∀ m, ∀ s ∈ ss, l.Reads m (write s) (add m s)) (m : M) : l.Reads m (ss.flatMap write) (addAll m ss) := by
  have hfold (m : M) : ss.foldl add m = addAll m ss := by
    clear h
    induction ss generalizing m with
    | nil => exact (hnil m).symm
    | cons s ss ih => rw [List.foldl_cons,ih,hcons]
  rw [← hfold]
  exact FieldLoop.Reads.flatMap ss h m

namespace Query

/-- No field of the class was kept as an unknown one, and the encoding is not too long. -/
structure Writable (w : WireFormat U) (fieldTag : U → Nat) (m : Query U) : Prop where
  unknown : ∀ u ∈ m.unknownFields, Unusual (cases w) (fieldTag u)
  size : (m.serializeWithCachedSizesToArray w).length < 2^31

/-- A new message takes on what is merged into it. -/
theorem new_mergeFrom (m : Query U) : new.mergeFrom m = m := by
  obtain ⟨id,questioner,question,unknownFields⟩ := m
  simp [mergeFrom,new]

private theorem id_case : cases w 1 = some (int64Case w (8*1) id fun m v => { m with id := some v }) := rfl

private theorem questioner_case :
    cases w 2 = some (stringCase w (8*2+2) (fun m => m.questioner.getD []) fun m s => { m with questioner := some s }) := rfl

private theorem question_case :
    cases w 3 = some (stringCase w (8*3+2) (fun _ => []) fun m s => { m with question := m.question ++ [s] }) := rfl

/-- The parser reads what was written, and merges it. -/
theorem reads (hw : w.Lawful fieldTag) {m : Query U} (h : m.Writable w fieldTag) (x : Query U) :
    (loop w).Reads x (m.serializeWithCachedSizesToArray w) (x.mergeFrom m) := by
  have hsize := h.size
  unfold serializeWithCachedSizesToArray at hsize ⊢
  simp only [List.length_append] at hsize
  have hid (x : Query U) : (loop w).Reads x (optionalField (w.writeInt64ToArray 1) m.id) { x with id := m.id.or x.id } := by
    cases m.id with
    | none => exact .refl x
    | some v => exact reads_int64 hw id_case (fun _ _ _ => rfl) (by decide) (by decide) v
  have hquestioner (x : Query U) : (loop w).Reads x (optionalField (w.writeStringToArray 2) m.questioner)
      { x with questioner := m.questioner.or x.questioner } := by
    cases hm : m.questioner with
    | none => exact .refl x
    | some s =>
      rw [hm,optionalField] at hsize
      exact reads_string hw questioner_case (by decide) (by decide) (by omega)
  have hquestion (x : Query U) : (loop w).Reads x (m.question.flatMap (w.writeStringToArray 3))
      { x with question := x.question ++ m.question } := by
    refine reads_repeated (fun x s => { x with question := x.question ++ [s] })
      (fun x ss => { x with question := x.question ++ ss }) (fun x => ?_) (fun x s ss => ?_) (fun x s hs => ?_) x
    · rw [List.append_nil]
    · rw [List.append_assoc,List.singleton_append]
    · have hlen := length_le_flatMap hs (w.writeStringToArray 3)
      exact reads_string hw question_case (by decide) (by decide) (by omega)
  have hunknown (x : Query U) : (loop w).Reads x (unknownFieldsToArray w m.unknownFields) (x.addUnknown m.unknownFields) :=
    reads_unknownFields hw (fun x => by rw [addUnknown,List.append_nil])
      (fun x us vs => by simp only [addUnknown,List.append_assoc]) h.unknown (by omega)
  exact ((hid x).append (hquestioner _)).append (hquestion _) |>.append (hunknown _)

/-- `ByteSizeLong` is the number of bytes written. -/
theorem byteSize (hw : w.Lawful fieldTag) {m : Query U} (hs : (m.serializeWithCachedSizesToArray w).length < 2^31) :
    m.byteSizeLong w = (m.serializeWithCachedSizesToArray w).length := by
  unfold serializeWithCachedSizesToArray at hs ⊢
  simp only [List.length_append] at hs ⊢
  have hid := int64_size hw 1 (by decide) (by decide) m.id
  have hquestioner := optional_string_size hw 2 (by decide) (by decide) m.questioner (by omega)
  have hquestion := repeated_string_size hw 3 (by decide) (by decide) m.question (by omega)
  have hunknown := unknownFieldsSize_eq hw m.unknownFields
  rw [byteSizeLong_eq,requiredFieldsByteSizeFallback]
  omega

private theorem confined : Confined (cases w) (@unknownFields U) := by
  intro n c hc
  unfold cases at hc
  split at hc
  · cases hc
    exact int64Case_confined _ fun _ _ => rfl
  · cases hc
    exact stringCase_confined _ fun _ _ => rfl
  · cases hc
    exact stringCase_confined _ fun _ _ => rfl
  · cases hc

/-- No input puts a field of the class among the unknown ones. -/
theorem merge_unusual (hw : w.Lawful fieldTag) (input : List UInt8) :
    ∀ u ∈ (new.mergePartialFromCodedStream w input).2.unknownFields, Unusual (cases w) (fieldTag u) :=
  merge_keeps_unusual hw (fun _ _ => rfl) confined input fun _ hu => (List.not_mem_nil hu).elim

end Query

namespace Answer

structure Writable (w : WireFormat U) (fieldTag : U → Nat) (m : Answer U) : Prop where
  unknown : ∀ u ∈ m.unknownFields, Unusual (cases w) (fieldTag u)
  size : (m.serializeWithCachedSizesToArray w).length < 2^31

/-- A new message takes on what is merged into it. -/
theorem new_mergeFrom (m : Answer U) : new.mergeFrom m = m := by
  obtain ⟨id,questioner,answerer,solution,unknownFields⟩ := m
  simp [mergeFrom,new]

private theorem id_case : cases w 1 = some (int64Case w (8*1) id fun m v => { m with id := some v }) := rfl

private theorem questioner_case :
    cases w 2 = some (stringCase w (8*2+2) (fun m => m.questioner.getD []) fun m s => { m with questioner := some s }) := rfl

private theorem answerer_case :
    cases w 3 = some (stringCase w (8*3+2) (fun m => m.answerer.getD []) fun m s => { m with answerer := some s }) := rfl

private theorem solution_case :
    cases w 4 = some (stringCase w (8*4+2) (fun _ => []) fun m s => { m with solution := m.solution ++ [s] }) := rfl

/-- The parser reads what was written, and merges it. -/
theorem reads (hw : w.Lawful fieldTag) {m : Answer U} (h : m.Writable w fieldTag) (x : Answer U) :
    (loop w).Reads x (m.serializeWithCachedSizesToArray w) (x.mergeFrom m) := by
  have hsize := h.size
  unfold serializeWithCachedSizesToArray at hsize ⊢
  simp only [List.length_append] at hsize
  have hid (x : Answer U) : (loop w).Reads x (optionalField (w.writeInt64ToArray 1) m.id) { x with id := m.id.or x.id } := by
    cases m.id with
    | none => exact .refl x
    | some v => exact reads_int64 hw id_case (fun _ _ _ => rfl) (by decide) (by decide) v
  have hquestioner (x : Answer U) : (loop w).Reads x (optionalField (w.writeStringToArray 2) m.questioner)
      { x with questioner := m.questioner.or x.questioner } := by
    cases hm : m.questioner with
    | none => exact .refl x
    | some s =>
      rw [hm,optionalField] at hsize
      exact reads_string hw questioner_case (by decide) (by decide) (by omega)
  have hanswerer (x : Answer U) : (loop w).Reads x (optionalField (w.writeStringToArray 3) m.answerer)
      { x with answerer := m.answerer.or x.answerer } := by
    cases hm : m.answerer with
    | none => exact .refl x
    | some s =>
      rw [hm] at hsize
      exact reads_string hw answerer_case (by decide) (by decide) (by rw [optionalField] at hsize; omega)
  have hsolution (x : Answer U) : (loop w).Reads x (m.solution.flatMap (w.writeStringToArray 4))
      { x with solution := x.solution ++ m.solution } := by
    refine reads_repeated (fun x s => { x with solution := x.solution ++ [s] })
      (fun x ss => { x with solution := x.solution ++ ss }) (fun x => ?_) (fun x s ss => ?_) (fun x s hs => ?_) x
    · rw [List.append_nil]
    · rw [List.append_assoc,List.singleton_append]
    · have hlen := length_le_flatMap hs (w.writeStringToArray 4)
      exact reads_string hw solution_case (by decide) (by decide) (by omega)
  have hunknown (x : Answer U) : (loop w).Reads x (unknownFieldsToArray w m.unknownFields) (x.addUnknown m.unknownFields) :=
    reads_unknownFields hw (fun x => by rw [addUnknown,List.append_nil])
      (fun x us vs => by simp only [addUnknown,List.append_assoc]) h.unknown (by omega)
  exact (((hid x).append (hquestioner _)).append (hanswerer _)).append (hsolution _) |>.append (hunknown _)

/-- `ByteSizeLong` is the number of bytes written. -/
theorem byteSize (hw : w.Lawful fieldTag) {m : Answer U} (hs : (m.serializeWithCachedSizesToArray w).length < 2^31) :
    m.byteSizeLong w = (m.serializeWithCachedSizesToArray w).length := by
  unfold serializeWithCachedSizesToArray at hs ⊢
  simp only [List.length_append] at hs ⊢
  have hid := int64_size hw 1 (by decide) (by decide) m.id
  have hquestioner := optional_string_size hw 2 (by decide) (by decide) m.questioner (by omega)
  have hanswerer := optional_string_size hw 3 (by decide) (by decide) m.answerer (by omega)
  have hsolution := repeated_string_size hw 4 (by decide) (by decide) m.solution (by omega)
  have hunknown := unknownFieldsSize_eq hw m.unknownFields
  rw [byteSizeLong_eq,requiredFieldsByteSizeFallback]
  omega

private theorem confined : Confined (cases w) (@unknownFields U) := by
  intro n c hc
  unfold cases at hc
  split at hc
  · cases hc
    exact int64Case_confined _ fun _ _ => rfl
  · cases hc
    exact stringCase_confined _ fun _ _ => rfl
  · cases hc
    exact stringCase_confined _ fun _ _ => rfl
  · cases hc
    exact stringCase_confined _ fun _ _ => rfl
  · cases hc

/-- No input puts a field of the class among the unknown ones. -/
theorem merge_unusual (hw : w.Lawful fieldTag) (input : List UInt8) :
    ∀ u ∈ (new.mergePartialFromCodedStream w input).2.unknownFields, Unusual (cases w) (fieldTag u) :=
  merge_keeps_unusual hw (fun _ _ => rfl) confined input fun _ hu => (List.not_mem_nil hu).elim

end Answer

namespace Empty

structure Writable (w : WireFormat U) (fieldTag : U → Nat) (m : Empty U) : Prop where
  unknown : ∀ u ∈ m.unknownFields, Unusual (cases w) (fieldTag u)
  size : (m.serializeWithCachedSizesToArray w).length < 2^31

/-- A new message takes on what is merged into it. -/
theorem new_mergeFrom (m : Empty U) : new.mergeFrom m = m := by
  obtain ⟨id,unknownFields⟩ := m
  simp [mergeFrom,new]

private theorem id_case : cases w 1 = some (int32Case w (8*1) id fun m v => { m with id := some v }) := rfl

/-- The parser reads what was written, and merges it. -/
theorem reads (hw : w.Lawful fieldTag) {m : Empty U} (h : m.Writable w fieldTag) (x : Empty U) :
    (loop w).Reads x (m.serializeWithCachedSizesToArray w) (x.mergeFrom m) := by
  have hsize := h.size
  unfold serializeWithCachedSizesToArray at hsize ⊢
  rw [List.length_append] at hsize
  have hid (x : Empty U) : (loop w).Reads x (optionalField (w.writeInt32ToArray 1) m.id) { x with id := m.id.or x.id } := by
    cases m.id with
    | none => exact .refl x
    | some v => exact reads_int32 hw id_case (fun _ _ _ => rfl) (by decide) (by decide) v
  have hunknown (x : Empty U) : (loop w).Reads x (unknownFieldsToArray w m.unknownFields) (x.addUnknown m.unknownFields) :=
    reads_unknownFields hw (fun x => by rw [addUnknown,List.append_nil])
      (fun x us vs => by simp only [addUnknown,List.append_assoc]) h.unknown (by omega)
  exact (hid x).append (hunknown _)

/-- `ByteSizeLong` is the number of bytes written. -/
theorem byteSize (hw : w.Lawful fieldTag) {m : Empty U} :
    m.byteSizeLong w = (m.serializeWithCachedSizesToArray w).length := by
  unfold serializeWithCachedSizesToArray
  rw [List.length_append,byteSizeLong,unknownFieldsSize_eq hw,← int32_size hw 1 (by decide) (by decide)]
  exact Nat.add_comm _ _

private theorem confined : Confined (cases w) (@unknownFields U) := by
  intro n c hc
  unfold cases at hc
  split at hc
  · cases hc
    exact int32Case_confined _ fun _ _ => rfl
  · cases hc

/-- No input puts a field of the class among the unknown ones. -/
theorem merge_unusual (hw : w.Lawful fieldTag) (input : List UInt8) :
    ∀ u ∈ (new.mergePartialFromCodedStream w input).2.unknownFields, Unusual (cases w) (fieldTag u) :=
  merge_keeps_unusual hw (fun _ _ => rfl) confined input fun _ hu => (List.not_mem_nil hu).elim

end Empty

/-- For each class: the size announced is the size written, parsing what was written into any
message merges the one into the other, and two encodings one after the other merge in turn. -/
theorem parse_merges_what_was_written (hw : w.Lawful fieldTag) :
    (∀ m m' x : Query U, m.Writable w fieldTag → m'.Writable w fieldTag →
      m.byteSizeLong w = (m.serializeWithCachedSizesToArray w).length ∧
      x.mergePartialFromCodedStream w (m.serializeWithCachedSizesToArray w) = (true,x.mergeFrom m) ∧
      x.mergePartialFromCodedStream w (m.serializeWithCachedSizesToArray w ++ m'.serializeWithCachedSizesToArray w) =
        (true,x.mergeFrom (m.mergeFrom m'))) ∧
    (∀ m m' x : Answer U, m.Writable w fieldTag → m'.Writable w fieldTag →
      m.byteSizeLong w = (m.serializeWithCachedSizesToArray w).length ∧
      x.mergePartialFromCodedStream w (m.serializeWithCachedSizesToArray w) = (true,x.mergeFrom m) ∧
      x.mergePartialFromCodedStream w (m.serializeWithCachedSizesToArray w ++ m'.serializeWithCachedSizesToArray w) =
        (true,x.mergeFrom (m.mergeFrom m'))) ∧
    ∀ m m' x : Empty U, m.Writable w fieldTag → m'.Writable w fieldTag →
      m.byteSizeLong w = (m.serializeWithCachedSizesToArray w).length ∧
      x.mergePartialFromCodedStream w (m.serializeWithCachedSizesToArray w) = (true,x.mergeFrom m) ∧
      x.mergePartialFromCodedStream w (m.serializeWithCachedSizesToArray w ++ m'.serializeWithCachedSizesToArray w) =
        (true,x.mergeFrom (m.mergeFrom m')) := by
  refine ⟨fun m m' x h h' => ?_,fun m m' x h h' => ?_,fun m m' x h h' => ?_⟩
  · have hmerge : (x.mergeFrom m).mergeFrom m' = x.mergeFrom (m.mergeFrom m') := by
      simp [Query.mergeFrom,Option.or_assoc]
    refine ⟨Query.byteSize hw h.size,(Query.reads hw h x).run_eq (mergeLoop_end hw _),?_⟩
    rw [← hmerge]
    exact ((Query.reads hw h x).append (Query.reads hw h' _)).run_eq (mergeLoop_end hw _)
  · have hmerge : (x.mergeFrom m).mergeFrom m' = x.mergeFrom (m.mergeFrom m') := by
      simp [Answer.mergeFrom,Option.or_assoc]
    refine ⟨Answer.byteSize hw h.size,(Answer.reads hw h x).run_eq (mergeLoop_end hw _),?_⟩
    rw [← hmerge]
    exact ((Answer.reads hw h x).append (Answer.reads hw h' _)).run_eq (mergeLoop_end hw _)
  · have hmerge : (x.mergeFrom m).mergeFrom m' = x.mergeFrom (m.mergeFrom m') := by
      simp [Empty.mergeFrom,Option.or_assoc]
    refine ⟨Empty.byteSize hw,(Empty.reads hw h x).run_eq (mergeLoop_end hw _),?_⟩
    rw [← hmerge]
    exact ((Empty.reads hw h x).append (Empty.reads hw h' _)).run_eq (mergeLoop_end hw _)

private def chen : Query (Fin 0) := ⟨some 1,some [67,104,101,110],[[82,117,110,63],[]],[]⟩

private def yes : Answer (Fin 0) := ⟨some (-1),some [67],some [83],[[89,101,115]],[]⟩

/-- A query with two questions after a partial one, two answers, and an empty message with an id. -/
theorem parse_merges_example :
    (Query.new (U := Fin 0)).mergePartialFromCodedStream plainWire
        (Query.serializeWithCachedSizesToArray plainWire ⟨none,none,[[81]],[]⟩ ++ chen.serializeWithCachedSizesToArray plainWire) =
      (true,Query.new.mergeFrom (Query.mergeFrom ⟨none,none,[[81]],[]⟩ chen)) ∧
    (yes.mergePartialFromCodedStream plainWire (yes.serializeWithCachedSizesToArray plainWire) = (true,yes.mergeFrom yes)) ∧
    (Empty.new.mergePartialFromCodedStream plainWire (Empty.serializeWithCachedSizesToArray plainWire ⟨some (-5),[]⟩) =
      (true,Empty.new.mergeFrom ⟨some (-5),[]⟩)) := by
  have hlaws := parse_merges_what_was_written plainWire_lawful
  have hempty : (⟨some (-5),[]⟩ : Empty (Fin 0)).Writable plainWire fun u => u.elim0 := ⟨fun u => u.elim0,by decide +kernel⟩
  refine ⟨(hlaws.1 _ _ _ ⟨fun u => u.elim0,by decide +kernel⟩ ⟨fun u => u.elim0,by decide +kernel⟩).2.2,?_,
    (hlaws.2.2 _ _ _ hempty hempty).2.1⟩
  exact (hlaws.2.1 yes yes yes ⟨fun u => u.elim0,by decide +kernel⟩ ⟨fun u => u.elim0,by decide +kernel⟩).2.1

/-- Any bytes a class accepts, known fields and unknown ones in any order and any number of
times, make a message whose own encoding is accepted and makes the same message. -/
theorem accepted_bytes_reencode (hw : w.Lawful fieldTag) (input : List UInt8) :
    (∀ m, (Query.new (U := U)).mergePartialFromCodedStream w input = (true,m) →
      (m.serializeWithCachedSizesToArray w).length < 2^31 →
      Query.new.mergePartialFromCodedStream w (m.serializeWithCachedSizesToArray w) = (true,m)) ∧
    (∀ m, (Answer.new (U := U)).mergePartialFromCodedStream w input = (true,m) →
      (m.serializeWithCachedSizesToArray w).length < 2^31 →
      Answer.new.mergePartialFromCodedStream w (m.serializeWithCachedSizesToArray w) = (true,m)) ∧
    ∀ m, (Empty.new (U := U)).mergePartialFromCodedStream w input = (true,m) →
      (m.serializeWithCachedSizesToArray w).length < 2^31 →
      Empty.new.mergePartialFromCodedStream w (m.serializeWithCachedSizesToArray w) = (true,m) := by
  refine ⟨fun m hm hs => ?_,fun m hm hs => ?_,fun m hm hs => ?_⟩
  · have hu := Query.merge_unusual hw input
    rw [hm] at hu
    have hrun := (Query.reads hw ⟨hu,hs⟩ .new).run_eq (mergeLoop_end hw _)
    rwa [Query.new_mergeFrom] at hrun
  · have hu := Answer.merge_unusual hw input
    rw [hm] at hu
    have hrun := (Answer.reads hw ⟨hu,hs⟩ .new).run_eq (mergeLoop_end hw _)
    rwa [Answer.new_mergeFrom] at hrun
  · have hu := Empty.merge_unusual hw input
    rw [hm] at hu
    have hrun := (Empty.reads hw ⟨hu,hs⟩ .new).run_eq (mergeLoop_end hw _)
    rwa [Empty.new_mergeFrom] at hrun

/-- The id twice and the strings before it: the second id counts, and it is written first. -/
theorem accepted_bytes_reencode_disorder :
    Query.new.mergePartialFromCodedStream plainWire [26,1,66,8,5,18,1,65,8,7] = (true,⟨some 7,some [65],[[66]],[]⟩) ∧
    Query.new.mergePartialFromCodedStream plainWire
      (Query.serializeWithCachedSizesToArray plainWire ⟨some 7,some [65],[[66]],[]⟩) = (true,⟨some 7,some [65],[[66]],[]⟩) := by
  have hread : Query.new.mergePartialFromCodedStream plainWire [26,1,66,8,5,18,1,65,8,7] =
      (true,⟨some 7,some [65],[[66]],[]⟩) := by decide +kernel
  exact ⟨hread,(accepted_bytes_reencode plainWire_lawful _).1 _ hread (by decide +kernel)⟩

end LearningMuduo.Protobuf
