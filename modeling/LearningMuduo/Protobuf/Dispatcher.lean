import LearningMuduo.Library.Outcome
import Mathlib.Data.List.Induction
import Mathlib.Logic.Function.Basic

/-! The two dispatchers of protobuf/codec: one casts a message down for its callback, the other
leaves that to the callback. -/
namespace LearningMuduo.Protobuf
open Library
variable {Descriptor F : Type} [DecidableEq Descriptor]

/-- A `CallbackT<T>`, with the descriptor of its T. -/
structure CallbackT (Descriptor F : Type) where
  descriptor : Descriptor
  callback : F

structure ProtobufDispatcher (Descriptor F : Type) where
  callbacks : Descriptor → Option (CallbackT Descriptor F)
  defaultCallback : F

structure ProtobufDispatcherLite (Descriptor F : Type) where
  callbacks : Descriptor → Option F
  defaultCallback : F

/-- `assert(concrete != NULL)`. -/
inductive DispatchFault where
  | castFailed
  deriving DecidableEq, Repr

namespace ProtobufDispatcher

def new (defaultCb : F) : ProtobufDispatcher Descriptor F := ⟨fun _ => none,defaultCb⟩

def registerMessageCallback (d : ProtobufDispatcher Descriptor F) (T : Descriptor) (callback : F) : ProtobufDispatcher Descriptor F :=
  { d with callbacks := Function.update d.callbacks T (some ⟨T,callback⟩) }

/-- The callback that `onProtobufMessage` calls for a message with this descriptor. -/
def onProtobufMessage (d : ProtobufDispatcher Descriptor F) (desc : Descriptor) : Except DispatchFault F :=
  match d.callbacks desc with
  | some c => do
    require (c.descriptor = desc) .castFailed
    pure c.callback
  | none => pure d.defaultCallback

end ProtobufDispatcher

namespace ProtobufDispatcherLite

def new (defaultCb : F) : ProtobufDispatcherLite Descriptor F := ⟨fun _ => none,defaultCb⟩

def registerMessageCallback (d : ProtobufDispatcherLite Descriptor F) (desc : Descriptor) (callback : F) :
    ProtobufDispatcherLite Descriptor F :=
  { d with callbacks := Function.update d.callbacks desc (some callback) }

def onProtobufMessage (d : ProtobufDispatcherLite Descriptor F) (desc : Descriptor) : F :=
  (d.callbacks desc).getD d.defaultCallback

end ProtobufDispatcherLite

/-- What the registrations leave in the two maps. -/
theorem registered (defaultCb : F) (registrations : List (Descriptor × F)) (desc : Descriptor) :
    let typed := registrations.foldl (fun d r => d.registerMessageCallback r.1 r.2) (ProtobufDispatcher.new defaultCb)
    let lite := registrations.foldl (fun d r => d.registerMessageCallback r.1 r.2) (ProtobufDispatcherLite.new defaultCb)
    typed.callbacks desc = (lite.callbacks desc).map (CallbackT.mk desc) ∧ typed.defaultCallback = defaultCb ∧
      lite.defaultCallback = defaultCb ∧
      lite.callbacks desc = (registrations.reverse.find? fun r => r.1 = desc).map Prod.snd := by
  induction registrations using List.reverseRecOn with
  | nil => exact ⟨rfl,rfl,rfl,rfl⟩
  | append_singleton registrations r ih =>
    obtain ⟨htyped,hdefault,hdefault',hlite⟩ := ih
    simp only [List.foldl_append,List.foldl_cons,List.foldl_nil,List.reverse_append,List.reverse_singleton,
      List.singleton_append]
    refine ⟨?_,hdefault,hdefault',?_⟩
    · by_cases hr : r.1 = desc
      · simp [ProtobufDispatcher.registerMessageCallback,ProtobufDispatcherLite.registerMessageCallback,hr]
      · simpa [ProtobufDispatcher.registerMessageCallback,ProtobufDispatcherLite.registerMessageCallback,
          Function.update_of_ne (Ne.symm hr)] using htyped
    · by_cases hr : r.1 = desc
      · simp [ProtobufDispatcherLite.registerMessageCallback,hr]
      · simpa [ProtobufDispatcherLite.registerMessageCallback,Function.update_of_ne (Ne.symm hr),hr] using hlite

/-- After the same registrations both call the last callback registered for the descriptor, or
the default one, and the cast is never to a wrong type. -/
theorem dispatchers_agree (defaultCb : F) (registrations : List (Descriptor × F)) (desc : Descriptor) :
    let typed := registrations.foldl (fun d r => d.registerMessageCallback r.1 r.2) (ProtobufDispatcher.new defaultCb)
    let lite := registrations.foldl (fun d r => d.registerMessageCallback r.1 r.2) (ProtobufDispatcherLite.new defaultCb)
    typed.onProtobufMessage desc = .ok (lite.onProtobufMessage desc) ∧
      lite.onProtobufMessage desc = ((registrations.reverse.find? fun r => r.1 = desc).map Prod.snd).getD defaultCb := by
  obtain ⟨htyped,hdefault,hdefault',hlite⟩ := registered defaultCb registrations desc
  intro typed lite
  refine ⟨?_,?_⟩
  · rw [ProtobufDispatcher.onProtobufMessage,htyped,ProtobufDispatcherLite.onProtobufMessage,hdefault,hdefault']
    cases lite.callbacks desc with
    | none => rfl
    | some callback =>
      dsimp only [Option.map_some]
      rw [require_pos rfl,bind_ok]
      rfl
  · rw [ProtobufDispatcherLite.onProtobufMessage,hdefault',← hlite]

end LearningMuduo.Protobuf
