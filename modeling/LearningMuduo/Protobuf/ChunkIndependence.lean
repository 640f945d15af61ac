import LearningMuduo.Protobuf.StreamDelivery
import Mathlib.Data.List.Basic

/-! How a stream is cut does not matter to the codec, also when the stream is malformed. -/
namespace LearningMuduo.Protobuf
open Library
variable {Message Descriptor : Type} (pb : Runtime Message Descriptor)

/-- The message handed over, if the call is one of `messageCallback_`. -/
def Callback.message? : Callback Message → Option Message
  | .messageCallback message _ => some message
  | .errorCallback _ _ => none

/-- The error reported, if the call is one of `errorCallback_`. -/
def Callback.error? : Callback Message → Option ErrorCode
  | .messageCallback _ _ => none
  | .errorCallback _ errorCode => some errorCode

private theorem messages_callbacks (receiveTime : Int) (items : List Message) (stop : Option ErrorCode) :
    (callbacks receiveTime items stop).filterMap Callback.message? = items := by
  cases stop <;> simp [callbacks,List.filterMap_append,List.filterMap_map,Function.comp_def,Callback.message?]

private theorem errors_callbacks (receiveTime : Int) (items : List Message) (stop : Option ErrorCode) :
    (callbacks receiveTime items stop).filterMap Callback.error? = stop.toList := by
  cases stop <;> simp [callbacks,List.filterMap_append,List.filterMap_map,Function.comp_def,Callback.error?]

/-- The callbacks of each call of `onMessage`, for what each drain yielded. -/
private def runCallbacks (chunks : List Chunk) (outs : List (List Message × Option ErrorCode)) :
    List (List (Callback Message)) :=
  List.zipWith (fun chunk out => callbacks chunk.receiveTime out.1 out.2) chunks outs

private theorem filterMap_runCallbacks {γ : Type} {g : Callback Message → Option γ}
    {h : List Message × Option ErrorCode → List γ}
    (hg : ∀ (receiveTime : Int) out, (callbacks receiveTime out.1 out.2).filterMap g = h out)
    {chunks : List Chunk} {outs : List (List Message × Option ErrorCode)}
    (hl : outs.length = chunks.length) :
    (runCallbacks chunks outs).flatten.filterMap g = (outs.map h).flatten := by
  induction outs generalizing chunks with
  | nil => rw [runCallbacks,List.zipWith_nil_right]; rfl
  | cons out outs ih =>
    cases chunks with
    | nil => cases hl
    | cons chunk chunks =>
      rw [runCallbacks,List.zipWith_cons_cons,List.flatten_cons,List.filterMap_append,hg,← runCallbacks,
        ih (Nat.succ.inj hl),List.map_cons,List.flatten_cons]

private theorem callbacks_pairwise (receiveTime : Int) (items : List Message) (stop : Option ErrorCode) :
    (callbacks receiveTime items stop).Pairwise fun call later => call.error?.isSome → later.message? = none := by
  have hm : ∀ call ∈ items.map (Callback.messageCallback · receiveTime), call.error?.isSome = false := by
    intro call hc
    obtain ⟨message,-,rfl⟩ := List.mem_map.mp hc
    rfl
  refine List.pairwise_append.mpr ⟨?_,?_,?_⟩
  · refine List.pairwise_of_forall_mem_list fun call hc _ _ he => ?_
    rw [hm call hc] at he
    cases he
  · cases stop with
    | none => exact List.Pairwise.nil
    | some e => exact List.pairwise_singleton _ _
  · intro call hc _ _ he
    rw [hm call hc] at he
    cases he

private theorem error_callbacks {receiveTime : Int} {items : List Message} {stop : Option ErrorCode}
    {call : Callback Message} (hc : call ∈ callbacks receiveTime items stop) (he : call.error?.isSome) :
    stop.isSome := by
  obtain ⟨e,he⟩ := Option.isSome_iff_exists.mp he
  have hm : e ∈ (callbacks receiveTime items stop).filterMap Callback.error? := List.mem_filterMap.mpr ⟨call,hc,he⟩
  rw [errors_callbacks,Option.mem_toList] at hm
  exact Option.isSome_iff_exists.mpr ⟨e,hm⟩

private theorem message_callbacks {receiveTime : Int} {items : List Message} {stop : Option ErrorCode}
    (hi : items = []) {call : Callback Message} (hc : call ∈ callbacks receiveTime items stop) :
    call.message? = none := by
  cases hm : call.message? with
  | none => rfl
  | some message =>
    have hmem : message ∈ (callbacks receiveTime items stop).filterMap Callback.message? :=
      List.mem_filterMap.mpr ⟨call,hc,hm⟩
    rw [messages_callbacks,hi] at hmem
    cases hmem

private theorem runCallbacks_pairwise {outs : List (List Message × Option ErrorCode)}
    (ho : outs.Pairwise fun out later => out.2.isSome → later.1 = []) (chunks : List Chunk) :
    (runCallbacks chunks outs).flatten.Pairwise
      fun call later => call.error?.isSome → later.message? = none := by
  induction outs generalizing chunks with
  | nil => rw [runCallbacks,List.zipWith_nil_right]; exact List.Pairwise.nil
  | cons out outs ih =>
    cases chunks with
    | nil => exact List.Pairwise.nil
    | cons chunk chunks =>
      obtain ⟨hout,hrest⟩ := List.pairwise_cons.mp ho
      rw [runCallbacks,List.zipWith_cons_cons,List.flatten_cons,← runCallbacks]
      refine List.pairwise_append.mpr ⟨callbacks_pairwise _ _ _,ih hrest chunks,?_⟩
      intro call hc later hl he
      obtain ⟨calls,hcalls,hl⟩ := List.mem_flatten.mp hl
      obtain ⟨i,hi,rfl⟩ := List.getElem_of_mem hcalls
      rw [runCallbacks,List.length_zipWith] at hi
      simp only [runCallbacks,List.getElem_zipWith] at hl
      exact message_callbacks (hout _ (List.getElem_mem (by omega)) (error_callbacks hc he)) hl

/-- A run over chunks with an error callback that leaves the buffer alone: it makes the
callbacks of one drain of the whole stream, and none hands over a message after an error. -/
theorem receive_drain (chunks : List Chunk) :
    ∃ calls, receive pb (fun _ buf => buf) [] chunks =
        .ok (calls,((frameDecoder pb).drain (chunks.map Chunk.data).flatten).rest) ∧
      calls.flatten.filterMap Callback.message? =
        ((frameDecoder pb).drain (chunks.map Chunk.data).flatten).items ∧
      (calls.flatten.filterMap Callback.error?).head? =
        ((frameDecoder pb).drain (chunks.map Chunk.data).flatten).stop ∧
      calls.flatten.Pairwise fun call later => call.error?.isSome → later.message? = none := by
  have hl : ((frameDecoder pb).feed (fun _ buf => buf) [] (chunks.map Chunk.data)).1.length = chunks.length := by
    rw [Decoder.length_feed,List.length_map]
  obtain ⟨hi,hs,hr⟩ := Decoder.feed_flatten (frameDecoder pb).nil_waits (chunks.map Chunk.data)
  rw [List.nil_append] at hi hs hr
  refine ⟨runCallbacks chunks _,?_,?_,?_,runCallbacks_pairwise
    (Decoder.feed_silent_after_stop (frameDecoder pb).nil_waits (chunks.map Chunk.data)) chunks⟩
  · rw [receive_eq,hr]
    rfl
  · rw [filterMap_runCallbacks (fun t out => messages_callbacks t out.1 out.2) hl]
    exact hi
  · rw [filterMap_runCallbacks (fun t out => errors_callbacks t out.1 out.2) hl,← hs,List.filterMap_eq_flatMap_toList]
    rfl

/-- A stream of bytes, valid or not, cut into chunks in two ways: both runs return, hand
over the same messages in the same order, report the same first error or none, and leave
the same bytes in the buffer; neither hands over a message after an error. `onMessage`
returns on every buffer, and no sequence of passes of its loop goes on forever. -/
theorem codec_decodes_any_cut_alike (pb : Runtime Message Descriptor) (chunks chunks' : List Chunk)
    (h : (chunks.map Chunk.data).flatten = (chunks'.map Chunk.data).flatten) :
    (∃ calls calls' rest,
      receive pb (fun _ buf => buf) [] chunks = .ok (calls,rest) ∧
      receive pb (fun _ buf => buf) [] chunks' = .ok (calls',rest) ∧
      calls.flatten.filterMap Callback.message? = calls'.flatten.filterMap Callback.message? ∧
      ((∃ call ∈ calls.flatten, call.error?.isSome) ↔ ∃ call ∈ calls'.flatten, call.error?.isSome) ∧
      (calls.flatten.filterMap Callback.error?).head? = (calls'.flatten.filterMap Callback.error?).head? ∧
      (calls.flatten.Pairwise fun call later => call.error?.isSome → later.message? = none) ∧
      calls'.flatten.Pairwise fun call later => call.error?.isSome → later.message? = none) ∧
    (∀ errorCallback receiveTime buf, ∃ out, onMessage pb errorCallback receiveTime buf = .ok out) ∧
    WellFounded fun rest buf => ∃ message, onMessagePass pb buf = .ok (.deliver message rest) := by
  obtain ⟨calls,hr,hm,he,hp⟩ := receive_drain pb chunks
  obtain ⟨calls',hr',hm',he',hp'⟩ := receive_drain pb chunks'
  rw [h] at hr hm he
  refine ⟨⟨calls,calls',_,hr,hr',hm.trans hm'.symm,?_,he.trans he'.symm,hp,hp'⟩,?_,?_⟩
  · have hany : ∀ cs : List (Callback Message),
        (∃ call ∈ cs, call.error?.isSome) ↔ (cs.filterMap Callback.error?).head?.isSome := by
      intro cs
      rw [List.isSome_head?]
      simp [Option.isSome_iff_ne_none]
    rw [hany,hany,he,he']
  · intro errorCallback receiveTime buf
    exact ⟨_,onMessage_eq pb errorCallback receiveTime buf⟩
  · refine Subrelation.wf ?_ (measure List.length).wf
    rintro rest buf ⟨message,hd⟩
    exact onMessagePass_shorter pb hd

/-- A frame, then a length below the least one. -/
private def malformedStream : List UInt8 := frame emptyRuntime none ++ List.replicate 14 0

private def malformedChunks : List Chunk :=
  [⟨malformedStream.take 3,1⟩,⟨(malformedStream.drop 3).take 22,2⟩,⟨malformedStream.drop 25,3⟩]

/-- The malformed stream in one chunk and in three, cut inside the first length and inside
the second. -/
theorem codec_decodes_malformed_stream_alike :
    ∃ calls calls' rest,
      receive emptyRuntime (fun _ buf => buf) [] [⟨malformedStream,7⟩] = .ok (calls,rest) ∧
      receive emptyRuntime (fun _ buf => buf) [] malformedChunks = .ok (calls',rest) ∧
      calls.flatten.filterMap Callback.message? = calls'.flatten.filterMap Callback.message? ∧
      (calls.flatten.filterMap Callback.error?).head? = (calls'.flatten.filterMap Callback.error?).head? := by
  obtain ⟨⟨calls,calls',rest,hr,hr',hm,-,he,-,-⟩,-,-⟩ :=
    codec_decodes_any_cut_alike emptyRuntime [⟨malformedStream,7⟩] malformedChunks (by decide +kernel)
  exact ⟨calls,calls',rest,hr,hr',hm,he⟩

end LearningMuduo.Protobuf
