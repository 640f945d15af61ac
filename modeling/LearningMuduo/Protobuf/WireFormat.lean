import LearningMuduo.Library.FieldLoop
import LearningMuduo.Library.Outcome
import LearningMuduo.Library.Varint

/-! Protobuf's wire format as the generated classes call it, and the loop that their parsing
functions share. -/
namespace LearningMuduo.Protobuf
open Library

/-- The functions of `CodedInputStream`, `WireFormatLite` and `WireFormat` that the generated
code calls, on the bytes still to be read. `readString` is given the string it replaces, and a
failure says what was left in it. An `UnknownFieldSet` is a list of fields of type U. Reading
never adds to the input, a tag that was found takes some of it, and the end has none. -/
structure WireFormat (U : Type) where
  readTagWithCutoffNoLastTag : List UInt8 → (Nat × Bool) × List UInt8
  getTagFieldNumber : Nat → Nat
  readInt64 : List UInt8 → Option (Int64 × List UInt8)
  readInt32 : List UInt8 → Option (Int32 × List UInt8)
  readString : List UInt8 → List UInt8 → Except (List UInt8) (List UInt8 × List UInt8)
  skipField : Nat → List UInt8 → Except (List U) (List U × List UInt8)
  writeInt64ToArray : Nat → Int64 → List UInt8
  writeInt32ToArray : Nat → Int32 → List UInt8
  writeStringToArray : Nat → List UInt8 → List UInt8
  serializeUnknownFieldsToArray : List U → List UInt8
  int64Size : Int64 → Nat
  int32Size : Int32 → Nat
  stringSize : List UInt8 → Nat
  computeUnknownFieldsSize : List U → Nat
  tag_consumes : ∀ input, (readTagWithCutoffNoLastTag input).1.1 ≠ 0 →
    (readTagWithCutoffNoLastTag input).2.length < input.length
  cutoff_ne_zero : ∀ input, (readTagWithCutoffNoLastTag input).1.2 = true →
    (readTagWithCutoffNoLastTag input).1.1 ≠ 0
  int64_le : ∀ {input v rest}, readInt64 input = some (v,rest) → rest.length ≤ input.length
  int32_le : ∀ {input v rest}, readInt32 input = some (v,rest) → rest.length ≤ input.length
  string_le : ∀ {old input s rest}, readString old input = .ok (s,rest) → rest.length ≤ input.length
  skip_le : ∀ {tag input us rest}, skipField tag input = .ok (us,rest) → rest.length ≤ input.length

/-- A case of the switch: the low byte of its tag, and how it reads its field. -/
structure FieldCase (M : Type) where
  tag : Nat
  read : M → List UInt8 → Except M (M × List UInt8)
  read_le : ∀ {m input m' rest}, read m input = .ok (m',rest) → rest.length ≤ input.length

section
variable {U M : Type} (w : WireFormat U)

/-- A case for an integer: `set_has_x()`, then the value into `x_`. -/
def int64Case (tag : Nat) (get : M → Option Int64) (set : M → Int64 → M) : FieldCase M where
  tag := tag
  read m input :=
    let m := set m ((get m).getD 0)
    match w.readInt64 input with
    | none => .error m
    | some (v,rest) => .ok (set m v,rest)
  read_le := by
    intro m input m' rest h
    dsimp only at h
    split at h
    · cases h
    · next v rest' hr =>
      cases h
      exact w.int64_le hr

def int32Case (tag : Nat) (get : M → Option Int32) (set : M → Int32 → M) : FieldCase M where
  tag := tag
  read m input :=
    let m := set m ((get m).getD 0)
    match w.readInt32 input with
    | none => .error m
    | some (v,rest) => .ok (set m v,rest)
  read_le := by
    intro m input m' rest h
    dsimp only at h
    split at h
    · cases h
    · next v rest' hr =>
      cases h
      exact w.int32_le hr

/-- A case for a string, read into the one of `mutable_x()` or `add_x()`. -/
def stringCase (tag : Nat) (old : M → List UInt8) (set : M → List UInt8 → M) : FieldCase M where
  tag := tag
  read m input :=
    match w.readString (old m) input with
    | .error s => .error (set m s)
    | .ok (s,rest) => .ok (set m s,rest)
  read_le := by
    intro m input m' rest h
    split at h
    · cases h
    · next s rest' hr =>
      cases h
      exact w.string_le hr

/-- What lies behind the label `handle_unusual`. -/
def handleUnusual (addUnknown : M → List U → M) (m : M) (tag : Nat) (input : List UInt8) : Round UInt8 M :=
  if tag = 0 then .done true m
  else match w.skipField tag input with
    | .error us => .done false (addUnknown m us)
    | .ok (us,rest) => .next (addUnknown m us) rest

/-- One pass of the loop in `MergePartialFromCodedStream`. -/
def mergeRound (cases : Nat → Option (FieldCase M)) (addUnknown : M → List U → M) (m : M) (input : List UInt8) :
    Round UInt8 M :=
  let ((tag,known),input) := w.readTagWithCutoffNoLastTag input
  if known then
    match cases (w.getTagFieldNumber tag) with
    | some c =>
      if tag % 256 = c.tag then
        match c.read m input with
        | .error m => .done false m
        | .ok (m,rest) => .next m rest
      else handleUnusual w addUnknown m tag input
    | none => handleUnusual w addUnknown m tag input
  else handleUnusual w addUnknown m tag input

variable {w} {cases : Nat → Option (FieldCase M)} {addUnknown : M → List U → M}

private theorem handleUnusual_le {m t : M} {tag : Nat} {input rest : List UInt8}
    (h : handleUnusual w addUnknown m tag input = .next t rest) : tag ≠ 0 ∧ rest.length ≤ input.length := by
  unfold handleUnusual at h
  split at h
  · cases h
  · next hne =>
    split at h
    · cases h
    · next us rest' hs =>
      cases h
      exact ⟨hne,w.skip_le hs⟩

private theorem mergeRound_consumes {m t : M} {input rest : List UInt8}
    (h : mergeRound w cases addUnknown m input = .next t rest) : rest.length < input.length := by
  have hzero := w.tag_consumes input
  have hknown := w.cutoff_ne_zero input
  unfold mergeRound at h
  rcases hr : w.readTagWithCutoffNoLastTag input with ⟨⟨tag,known⟩,input'⟩
  rw [hr] at h hzero hknown
  dsimp only at h hzero hknown
  have hunusual (hu : handleUnusual w addUnknown m tag input' = .next t rest) : rest.length < input.length := by
    obtain ⟨hne,hle⟩ := handleUnusual_le hu
    exact Nat.lt_of_le_of_lt hle (hzero hne)
  split at h
  · next hk =>
    split at h
    · split at h
      · next c _ _ =>
        split at h
        · cases h
        · next m' rest' hread =>
          cases h
          exact Nat.lt_of_le_of_lt (c.read_le hread) (hzero (hknown hk))
      · exact hunusual h
    · exact hunusual h
  · exact hunusual h

variable (w cases addUnknown)

/-- A field that is written if its has-bit is set. -/
def optionalField {A : Type} (write : A → List UInt8) : Option A → List UInt8
  | some a => write a
  | none => []

/-- How much a field with a tag of one byte adds to the size if its has-bit is set. -/
def optionalSize {A : Type} (size : A → Nat) : Option A → Nat
  | some a => 1+size a
  | none => 0

def unknownFieldsToArray (us : List U) : List UInt8 :=
  if us.isEmpty then [] else w.serializeUnknownFieldsToArray us

def unknownFieldsSize (us : List U) : Nat := if us.isEmpty then 0 else w.computeUnknownFieldsSize us

/-- The loop of `MergePartialFromCodedStream`, for the cases of one class. -/
def mergeLoop : FieldLoop UInt8 M := ⟨mergeRound w cases addUnknown,mergeRound_consumes⟩

end

section
variable {U M : Type} {w : WireFormat U} {fieldTag : U → Nat}

/-- The bytes are a tag of one byte and a body. -/
structure Tagged (w : WireFormat U) (bytes : List UInt8) (tag : Nat) (body : List UInt8) : Prop where
  length : bytes.length = 1 + body.length
  tag : ∀ rest, w.readTagWithCutoffNoLastTag (bytes ++ rest) = ((tag,true),body ++ rest)

/-- Protobuf's encoding: a tag is eight times the field's number and its wire type, 0 for
integers and 2 for strings; the readers undo the writers, whatever follows; an unknown field is
kept under its tag and written as it is read. -/
structure WireFormat.Lawful (w : WireFormat U) (fieldTag : U → Nat) : Prop where
  field_number : ∀ tag, w.getTagFieldNumber tag = tag/8
  end_of_input : w.readTagWithCutoffNoLastTag [] = ((0,false),[])
  cutoff : ∀ input, (w.readTagWithCutoffNoLastTag input).1.2 =
    decide (1 ≤ (w.readTagWithCutoffNoLastTag input).1.1 ∧ (w.readTagWithCutoffNoLastTag input).1.1 ≤ 127)
  int64 : ∀ field v, 1 ≤ field → field ≤ 15 → ∃ body, Tagged w (w.writeInt64ToArray field v) (8*field) body ∧
    body.length = w.int64Size v ∧ ∀ rest, w.readInt64 (body ++ rest) = some (v,rest)
  int32 : ∀ field v, 1 ≤ field → field ≤ 15 → ∃ body, Tagged w (w.writeInt32ToArray field v) (8*field) body ∧
    body.length = w.int32Size v ∧ ∀ rest, w.readInt32 (body ++ rest) = some (v,rest)
  string : ∀ field s, 1 ≤ field → field ≤ 15 → s.length < 2^31 → ∃ body,
    Tagged w (w.writeStringToArray field s) (8*field+2) body ∧ body.length = w.stringSize s ∧
    ∀ old rest, w.readString old (body ++ rest) = .ok (s,rest)
  string_length : ∀ field s, s.length ≤ (w.writeStringToArray field s).length
  unknown_fields : ∀ us, w.serializeUnknownFieldsToArray us = us.flatMap fun u => w.serializeUnknownFieldsToArray [u]
  unknown_size : ∀ us, w.computeUnknownFieldsSize us = (w.serializeUnknownFieldsToArray us).length
  unknown : ∀ u, (w.serializeUnknownFieldsToArray [u]).length < 2^31 → fieldTag u ≠ 0 ∧ ∃ body, ∀ rest,
    w.readTagWithCutoffNoLastTag (w.serializeUnknownFieldsToArray [u] ++ rest) =
      ((fieldTag u,decide (fieldTag u ≤ 127)),body ++ rest) ∧
    w.skipField (fieldTag u) (body ++ rest) = .ok ([u],rest)
  skip_tag : ∀ {tag input us rest}, w.skipField tag input = .ok (us,rest) → ∀ u ∈ us, fieldTag u = tag
  skip_tag_failed : ∀ {tag input us}, w.skipField tag input = .error us → ∀ u ∈ us, fieldTag u = tag

/-- A tag for which the switch has no case. -/
def Unusual (cases : Nat → Option (FieldCase M)) (tag : Nat) : Prop :=
  tag ≤ 127 → ∀ c, cases (tag/8) = some c → tag ≠ c.tag

variable {cases : Nat → Option (FieldCase M)} {addUnknown : M → List U → M} {m : M}

/-- One piece is not longer than all of them. -/
theorem length_le_flatMap {A : Type} {as : List A} {a : A} (h : a ∈ as) (f : A → List UInt8) :
    (f a).length ≤ (as.flatMap f).length := by
  rw [List.flatMap_def]
  exact (List.sublist_flatten_of_mem (List.mem_map_of_mem h)).length_le

private theorem reads_field (hw : w.Lawful fieldTag) (wireType : Nat) {bytes body : List UInt8} {field : Nat}
    {c : FieldCase M} {m' : M}
    (ht : Tagged w bytes (8*field+wireType) body) (hlt : wireType < 8) (hle : field ≤ 15)
    (hc : cases field = some c) (htag : c.tag = 8*field+wireType)
    (hread : ∀ rest, c.read m (body ++ rest) = .ok (m',rest)) : (mergeLoop w cases addUnknown).Reads m bytes m' := by
  refine .round fun rest => ?_
  have hnumber : (8*field+wireType)/8 = field := by omega
  have hbyte : (8*field+wireType) % 256 = c.tag := by omega
  change mergeRound w cases addUnknown m (bytes ++ rest) = .next m' rest
  unfold mergeRound
  rw [ht.tag]
  dsimp only
  rw [if_pos rfl,hw.field_number,hnumber,hc]
  dsimp only
  rw [if_pos hbyte,hread]

/-- An `int64` field is read as it was written. -/
theorem reads_int64 (hw : w.Lawful fieldTag) {field : Nat} {get : M → Option Int64} {set : M → Int64 → M}
    (hc : cases field = some (int64Case w (8*field) get set)) (hset : ∀ m a b, set (set m a) b = set m b)
    (hpos : 1 ≤ field) (hle : field ≤ 15) (v : Int64) :
    (mergeLoop w cases addUnknown).Reads m (w.writeInt64ToArray field v) (set m v) := by
  obtain ⟨body,ht,-,hread⟩ := hw.int64 field v hpos hle
  refine reads_field hw 0 ht (by decide) hle hc rfl fun rest => ?_
  change (match w.readInt64 (body ++ rest) with | none => _ | some (v,rest) => _) = _
  rw [hread]
  exact congrArg (fun m => Except.ok (m,rest)) (hset _ _ _)

/-- An `int32` field is read as it was written. -/
theorem reads_int32 (hw : w.Lawful fieldTag) {field : Nat} {get : M → Option Int32} {set : M → Int32 → M}
    (hc : cases field = some (int32Case w (8*field) get set)) (hset : ∀ m a b, set (set m a) b = set m b)
    (hpos : 1 ≤ field) (hle : field ≤ 15) (v : Int32) :
    (mergeLoop w cases addUnknown).Reads m (w.writeInt32ToArray field v) (set m v) := by
  obtain ⟨body,ht,-,hread⟩ := hw.int32 field v hpos hle
  refine reads_field hw 0 ht (by decide) hle hc rfl fun rest => ?_
  change (match w.readInt32 (body ++ rest) with | none => _ | some (v,rest) => _) = _
  rw [hread]
  exact congrArg (fun m => Except.ok (m,rest)) (hset _ _ _)

/-- A string field is read as it was written. -/
theorem reads_string (hw : w.Lawful fieldTag) {field : Nat} {old : M → List UInt8} {set : M → List UInt8 → M}
    (hc : cases field = some (stringCase w (8*field+2) old set)) (hpos : 1 ≤ field) (hle : field ≤ 15) {s : List UInt8}
    (hs : (w.writeStringToArray field s).length < 2^31) :
    (mergeLoop w cases addUnknown).Reads m (w.writeStringToArray field s) (set m s) := by
  obtain ⟨body,ht,-,hread⟩ := hw.string field s hpos hle (Nat.lt_of_le_of_lt (hw.string_length field s) hs)
  refine reads_field hw 2 ht (by decide) hle hc rfl fun rest => ?_
  change (match w.readString (old m) (body ++ rest) with | .error s => _ | .ok (s,rest) => _) = _
  rw [hread]

/-- A field without a case joins the unknown ones. -/
theorem reads_unknown (hw : w.Lawful fieldTag) {u : U} (hu : Unusual cases (fieldTag u))
    (hs : (w.serializeUnknownFieldsToArray [u]).length < 2^31) :
    (mergeLoop w cases addUnknown).Reads m (w.serializeUnknownFieldsToArray [u]) (addUnknown m [u]) := by
  obtain ⟨hne,body,hread⟩ := hw.unknown u hs
  refine .round fun rest => ?_
  have hunusual : handleUnusual w addUnknown m (fieldTag u) (body ++ rest) = .next (addUnknown m [u]) rest := by
    rw [handleUnusual,if_neg hne,(hread rest).2]
  change mergeRound w cases addUnknown m _ = _
  unfold mergeRound
  rw [(hread rest).1]
  dsimp only
  split
  · next hk =>
    have hle : fieldTag u ≤ 127 := of_decide_eq_true hk
    rw [hw.field_number]
    split
    · next c hc =>
      have hne := hu hle c hc
      rw [if_neg (by omega),hunusual]
    · exact hunusual
  · exact hunusual

/-- Unknown fields are read as they were written. -/
theorem reads_unknownFields (hw : w.Lawful fieldTag) (hnil : ∀ m, addUnknown m [] = m)
    (happ : ∀ m us vs, addUnknown (addUnknown m us) vs = addUnknown m (us ++ vs)) {us : List U}
    (hu : ∀ u ∈ us, Unusual cases (fieldTag u)) (hs : (unknownFieldsToArray w us).length < 2^31) :
    (mergeLoop w cases addUnknown).Reads m (unknownFieldsToArray w us) (addUnknown m us) := by
  have hbytes : unknownFieldsToArray w us = us.flatMap fun u => w.serializeUnknownFieldsToArray [u] := by
    rw [unknownFieldsToArray]
    split
    · next he => rw [List.isEmpty_iff.mp he]; rfl
    · exact hw.unknown_fields us
  rw [hbytes] at hs ⊢
  have hfold (us : List U) (m : M) : us.foldl (fun m u => addUnknown m [u]) m = addUnknown m us := by
    induction us generalizing m with
    | nil => exact (hnil m).symm
    | cons u us ih => rw [List.foldl_cons,ih,happ]; rfl
  rw [← hfold us m]
  refine FieldLoop.Reads.flatMap us (fun m u hmem => reads_unknown hw (hu u hmem) ?_) m
  exact Nat.lt_of_le_of_lt (length_le_flatMap hmem fun u => w.serializeUnknownFieldsToArray [u]) hs

/-- The size of the unknown fields is the number of their bytes. -/
theorem unknownFieldsSize_eq (hw : w.Lawful fieldTag) (us : List U) :
    unknownFieldsSize w us = (unknownFieldsToArray w us).length := by
  rw [unknownFieldsSize,unknownFieldsToArray]
  split
  · rfl
  · exact hw.unknown_size us

/-- The size of an optional `int64` field. -/
theorem int64_size (hw : w.Lawful fieldTag) (field : Nat) (hpos : 1 ≤ field) (hle : field ≤ 15) (o : Option Int64) :
    optionalSize w.int64Size o = (optionalField (w.writeInt64ToArray field) o).length := by
  cases o with
  | none => rfl
  | some v =>
    obtain ⟨body,ht,hsize,-⟩ := hw.int64 field v hpos hle
    rw [optionalSize,optionalField,ht.length,hsize]

/-- The size of an optional `int32` field. -/
theorem int32_size (hw : w.Lawful fieldTag) (field : Nat) (hpos : 1 ≤ field) (hle : field ≤ 15) (o : Option Int32) :
    optionalSize w.int32Size o = (optionalField (w.writeInt32ToArray field) o).length := by
  cases o with
  | none => rfl
  | some v =>
    obtain ⟨body,ht,hsize,-⟩ := hw.int32 field v hpos hle
    rw [optionalSize,optionalField,ht.length,hsize]

private theorem string_size (hw : w.Lawful fieldTag) (field : Nat) (hpos : 1 ≤ field) (hle : field ≤ 15) {s : List UInt8}
    (hs : (w.writeStringToArray field s).length < 2^31) : 1+w.stringSize s = (w.writeStringToArray field s).length := by
  obtain ⟨body,ht,hsize,-⟩ := hw.string field s hpos hle (Nat.lt_of_le_of_lt (hw.string_length field s) hs)
  rw [ht.length,hsize]

/-- The size of an optional string field. -/
theorem optional_string_size (hw : w.Lawful fieldTag) (field : Nat) (hpos : 1 ≤ field) (hle : field ≤ 15)
    (o : Option (List UInt8)) (hs : (optionalField (w.writeStringToArray field) o).length < 2^31) :
    optionalSize w.stringSize o = (optionalField (w.writeStringToArray field) o).length := by
  cases o with
  | none => rfl
  | some s => exact string_size hw field hpos hle hs

/-- The size of a repeated string field. -/
theorem repeated_string_size (hw : w.Lawful fieldTag) (field : Nat) (hpos : 1 ≤ field) (hle : field ≤ 15)
    (ss : List (List UInt8)) (hs : (ss.flatMap (w.writeStringToArray field)).length < 2^31) :
    1*ss.length + (ss.map w.stringSize).sum = (ss.flatMap (w.writeStringToArray field)).length := by
  induction ss with
  | nil => rfl
  | cons s ss ih =>
    rw [List.flatMap_cons,List.length_append] at hs ⊢
    have htail := ih (by omega)
    have hhead := string_size hw field hpos hle (s := s) (by omega)
    rw [List.length_cons,List.map_cons,List.sum_cons]
    omega

/-- The loop ends at the end of its input. -/
theorem mergeLoop_end (hw : w.Lawful fieldTag) (m : M) : (mergeLoop w cases addUnknown).round m [] = .done true m := by
  change mergeRound w cases addUnknown m [] = _
  unfold mergeRound
  rw [hw.end_of_input]
  rfl

/-- The message a round leaves. -/
private def Round.message : Round UInt8 M → M
  | .done _ m => m
  | .next m _ => m

section
variable {unknownFields : M → List U}

/-- The cases of a class leave its unknown fields alone. -/
def Confined (cases : Nat → Option (FieldCase M)) (unknownFields : M → List U) : Prop :=
  ∀ n c, cases n = some c → ∀ m input,
    Meets (fun out => unknownFields out.1 = unknownFields m) (fun m' => unknownFields m' = unknownFields m) (c.read m input)

/-- The case of an `int64` field leaves the unknown fields alone. -/
theorem int64Case_confined (tag : Nat) {get : M → Option Int64} {set : M → Int64 → M}
    (h : ∀ m v, unknownFields (set m v) = unknownFields m) (m : M) (input : List UInt8) :
    Meets (fun out => unknownFields out.1 = unknownFields m) (fun m' => unknownFields m' = unknownFields m)
      ((int64Case w tag get set).read m input) := by
  change Meets _ _ (match w.readInt64 input with | none => _ | some (v,rest) => _)
  cases w.readInt64 input with
  | none => exact h _ _
  | some out => exact (h _ _).trans (h _ _)

/-- The case of an `int32` field leaves the unknown fields alone. -/
theorem int32Case_confined (tag : Nat) {get : M → Option Int32} {set : M → Int32 → M}
    (h : ∀ m v, unknownFields (set m v) = unknownFields m) (m : M) (input : List UInt8) :
    Meets (fun out => unknownFields out.1 = unknownFields m) (fun m' => unknownFields m' = unknownFields m)
      ((int32Case w tag get set).read m input) := by
  change Meets _ _ (match w.readInt32 input with | none => _ | some (v,rest) => _)
  cases w.readInt32 input with
  | none => exact h _ _
  | some out => exact (h _ _).trans (h _ _)

/-- The case of a string field leaves the unknown fields alone. -/
theorem stringCase_confined (tag : Nat) {old : M → List UInt8} {set : M → List UInt8 → M}
    (h : ∀ m s, unknownFields (set m s) = unknownFields m) (m : M) (input : List UInt8) :
    Meets (fun out => unknownFields out.1 = unknownFields m) (fun m' => unknownFields m' = unknownFields m)
      ((stringCase w tag old set).read m input) := by
  change Meets _ _ (match w.readString (old m) input with | .error s => _ | .ok (s,rest) => _)
  cases w.readString (old m) input with
  | error s => exact h _ _
  | ok out => exact h _ _

private theorem unusual_added (hw : w.Lawful fieldTag) (hadd : ∀ m us, unknownFields (addUnknown m us) = unknownFields m ++ us)
    {tag : Nat} (ht : tag ≠ 0 → Unusual cases tag) (input : List UInt8) (hm : ∀ u ∈ unknownFields m, Unusual cases (fieldTag u)) :
    ∀ u ∈ unknownFields (Round.message (handleUnusual w addUnknown m tag input)), Unusual cases (fieldTag u) := by
  unfold handleUnusual
  split
  · exact hm
  · next hne =>
    have hboth {us : List U} (hus : ∀ u ∈ us, fieldTag u = tag) :
        ∀ u ∈ unknownFields (addUnknown m us), Unusual cases (fieldTag u) := by
      intro u hu
      rw [hadd] at hu
      rcases List.mem_append.mp hu with hu | hu
      · exact hm u hu
      · rw [hus u hu]
        exact ht hne
    split
    · next us hs => exact hboth (hw.skip_tag_failed hs)
    · next us rest hs => exact hboth (hw.skip_tag hs)

private theorem round_unusual (hw : w.Lawful fieldTag) (hadd : ∀ m us, unknownFields (addUnknown m us) = unknownFields m ++ us)
    (hc : Confined cases unknownFields) (input : List UInt8) (hm : ∀ u ∈ unknownFields m, Unusual cases (fieldTag u)) :
    ∀ u ∈ unknownFields (Round.message (mergeRound w cases addUnknown m input)), Unusual cases (fieldTag u) := by
  have hcutoff := hw.cutoff input
  unfold mergeRound
  rcases hr : w.readTagWithCutoffNoLastTag input with ⟨⟨tag,known⟩,input'⟩
  rw [hr] at hcutoff
  dsimp only at hcutoff ⊢
  split
  · split
    · next c hcase =>
      rw [hw.field_number] at hcase
      split
      · have hread := hc _ c hcase m input'
        split
        · next m' hr =>
          rw [hr] at hread
          change unknownFields m' = _ at hread
          change ∀ u ∈ unknownFields m', _
          rwa [hread]
        · next m' rest hr =>
          rw [hr] at hread
          change unknownFields m' = _ at hread
          change ∀ u ∈ unknownFields m', _
          rwa [hread]
      · next htag =>
        refine unusual_added hw hadd (fun _ hle c' hc' heq => htag ?_) input' hm
        cases hcase.symm.trans hc'
        omega
    · next hcase =>
      rw [hw.field_number] at hcase
      refine unusual_added hw hadd (fun _ _ c hc' => ?_) input' hm
      cases hcase.symm.trans hc'
  · next hk =>
    refine unusual_added hw hadd (fun hne hle => (hk ?_).elim) input' hm
    rw [hcutoff,decide_eq_true_eq]
    omega

/-- Whatever the input, the loop keeps no unknown field that has a case. -/
theorem merge_keeps_unusual (hw : w.Lawful fieldTag) (hadd : ∀ m us, unknownFields (addUnknown m us) = unknownFields m ++ us)
    (hc : Confined cases unknownFields) (input : List UInt8) (hm : ∀ u ∈ unknownFields m, Unusual cases (fieldTag u)) :
    ∀ u ∈ unknownFields ((mergeLoop w cases addUnknown).run m input).2, Unusual cases (fieldTag u) := by
  refine FieldLoop.run_invariant (I := fun m => ∀ u ∈ unknownFields m, Unusual cases (fieldTag u)) ?_ ?_ m input hm
  · intro s xs t rest hs hnext
    have hround := round_unusual hw hadd hc xs hs
    rw [show mergeRound w cases addUnknown s xs = .next t rest from hnext] at hround
    exact hround
  · intro s xs ok t hs hdone
    have hround := round_unusual hw hadd hc xs hs
    rw [show mergeRound w cases addUnknown s xs = .done ok t from hdone] at hround
    exact hround

end
end
end LearningMuduo.Protobuf
