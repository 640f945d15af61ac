import LearningMuduo.Protobuf.WireFormat

/-! The classes generated from query.proto: how they are written, sized, read and merged. -/
namespace LearningMuduo.Protobuf
open Library
variable {U : Type}

/-- A field with a has-bit is an option: without its bit it has its default value. -/
structure Query (U : Type) where
  id : Option Int64
  questioner : Option (List UInt8)
  question : List (List UInt8)
  unknownFields : List U
  deriving DecidableEq, Repr

structure Answer (U : Type) where
  id : Option Int64
  questioner : Option (List UInt8)
  answerer : Option (List UInt8)
  solution : List (List UInt8)
  unknownFields : List U
  deriving DecidableEq, Repr

structure Empty (U : Type) where
  id : Option Int32
  unknownFields : List U
  deriving DecidableEq, Repr

namespace Query

/-- The constructor, and the state after `Clear`. -/
def new : Query U := ⟨none,none,[],[]⟩

def addUnknown (m : Query U) (us : List U) : Query U := { m with unknownFields := m.unknownFields ++ us }

def isInitialized (m : Query U) : Bool := m.questioner.isSome && m.id.isSome

def mergeFrom (m source : Query U) : Query U where
  unknownFields := m.unknownFields ++ source.unknownFields
  question := m.question ++ source.question
  questioner := source.questioner.or m.questioner
  id := source.id.or m.id

variable (w : WireFormat U)

/-- The switch in `MergePartialFromCodedStream`. -/
def cases : Nat → Option (FieldCase (Query U))
  | 1 => some (int64Case w 8 id fun m v => { m with id := some v })
  | 2 => some (stringCase w 18 (fun m => m.questioner.getD []) fun m s => { m with questioner := some s })
  | 3 => some (stringCase w 26 (fun _ => []) fun m s => { m with question := m.question ++ [s] })
  | _ => none

def loop : FieldLoop UInt8 (Query U) := mergeLoop w (cases w) addUnknown

def mergePartialFromCodedStream (m : Query U) (input : List UInt8) : Bool × Query U := (loop w).run m input

def serializeWithCachedSizesToArray (m : Query U) : List UInt8 :=
  optionalField (w.writeInt64ToArray 1) m.id ++
  optionalField (w.writeStringToArray 2) m.questioner ++
  m.question.flatMap (w.writeStringToArray 3) ++
  unknownFieldsToArray w m.unknownFields

def requiredFieldsByteSizeFallback (m : Query U) : Nat :=
  optionalSize w.stringSize m.questioner +
  optionalSize w.int64Size m.id

def byteSizeLong (m : Query U) : Nat :=
  unknownFieldsSize w m.unknownFields +
  (match m.questioner,m.id with
    | some s,some v => 1+w.stringSize s+(1+w.int64Size v)
    | _,_ => m.requiredFieldsByteSizeFallback w) +
  1*m.question.length + (m.question.map w.stringSize).sum

/-- The way of `byteSizeLong` that expects all required fields counts what the other one does. -/
theorem byteSizeLong_eq (m : Query U) : m.byteSizeLong w = unknownFieldsSize w m.unknownFields +
    m.requiredFieldsByteSizeFallback w + 1*m.question.length + (m.question.map w.stringSize).sum := by
  unfold byteSizeLong requiredFieldsByteSizeFallback
  cases m.questioner with
  | none => rfl
  | some s => cases m.id <;> rfl

end Query

namespace Answer

def new : Answer U := ⟨none,none,none,[],[]⟩

def addUnknown (m : Answer U) (us : List U) : Answer U := { m with unknownFields := m.unknownFields ++ us }

def isInitialized (m : Answer U) : Bool := m.questioner.isSome && m.answerer.isSome && m.id.isSome

def mergeFrom (m source : Answer U) : Answer U where
  unknownFields := m.unknownFields ++ source.unknownFields
  solution := m.solution ++ source.solution
  questioner := source.questioner.or m.questioner
  answerer := source.answerer.or m.answerer
  id := source.id.or m.id

variable (w : WireFormat U)

def cases : Nat → Option (FieldCase (Answer U))
  | 1 => some (int64Case w 8 id fun m v => { m with id := some v })
  | 2 => some (stringCase w 18 (fun m => m.questioner.getD []) fun m s => { m with questioner := some s })
  | 3 => some (stringCase w 26 (fun m => m.answerer.getD []) fun m s => { m with answerer := some s })
  | 4 => some (stringCase w 34 (fun _ => []) fun m s => { m with solution := m.solution ++ [s] })
  | _ => none

def loop : FieldLoop UInt8 (Answer U) := mergeLoop w (cases w) addUnknown

def mergePartialFromCodedStream (m : Answer U) (input : List UInt8) : Bool × Answer U := (loop w).run m input

def serializeWithCachedSizesToArray (m : Answer U) : List UInt8 :=
  optionalField (w.writeInt64ToArray 1) m.id ++
  optionalField (w.writeStringToArray 2) m.questioner ++
  optionalField (w.writeStringToArray 3) m.answerer ++
  m.solution.flatMap (w.writeStringToArray 4) ++
  unknownFieldsToArray w m.unknownFields

def requiredFieldsByteSizeFallback (m : Answer U) : Nat :=
  optionalSize w.stringSize m.questioner +
  optionalSize w.stringSize m.answerer +
  optionalSize w.int64Size m.id

def byteSizeLong (m : Answer U) : Nat :=
  unknownFieldsSize w m.unknownFields +
  (match m.questioner,m.answerer,m.id with
    | some s,some a,some v => 1+w.stringSize s+(1+w.stringSize a)+(1+w.int64Size v)
    | _,_,_ => m.requiredFieldsByteSizeFallback w) +
  1*m.solution.length + (m.solution.map w.stringSize).sum

/-- The two branches of the size are one sum. -/
theorem byteSizeLong_eq (m : Answer U) : m.byteSizeLong w = unknownFieldsSize w m.unknownFields +
    m.requiredFieldsByteSizeFallback w + 1*m.solution.length + (m.solution.map w.stringSize).sum := by
  unfold byteSizeLong requiredFieldsByteSizeFallback
  cases m.questioner with
  | none => rfl
  | some s =>
    cases m.answerer with
    | none => rfl
    | some a => cases m.id <;> rfl

end Answer

namespace Empty

def new : Empty U := ⟨none,[]⟩

def addUnknown (m : Empty U) (us : List U) : Empty U := { m with unknownFields := m.unknownFields ++ us }

def isInitialized (_ : Empty U) : Bool := true

def mergeFrom (m source : Empty U) : Empty U where
  unknownFields := m.unknownFields ++ source.unknownFields
  id := source.id.or m.id

variable (w : WireFormat U)

def cases : Nat → Option (FieldCase (Empty U))
  | 1 => some (int32Case w 8 id fun m v => { m with id := some v })
  | _ => none

def loop : FieldLoop UInt8 (Empty U) := mergeLoop w (cases w) addUnknown

def mergePartialFromCodedStream (m : Empty U) (input : List UInt8) : Bool × Empty U := (loop w).run m input

def serializeWithCachedSizesToArray (m : Empty U) : List UInt8 :=
  optionalField (w.writeInt32ToArray 1) m.id ++
  unknownFieldsToArray w m.unknownFields

def byteSizeLong (m : Empty U) : Nat :=
  unknownFieldsSize w m.unknownFields +
  optionalSize w.int32Size m.id

end Empty
end LearningMuduo.Protobuf
