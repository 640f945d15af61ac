import LearningMuduo.Reactor.Channel

/-! The interest mask after a history of interest calls, against the interest that the
calls last asked for. -/
namespace LearningMuduo.Reactor

/-- Which of the two interests the calls so far ask for. -/
structure Wanted where
  reading : Bool
  writing : Bool
  deriving DecidableEq, Repr

/-- What a call asks for. -/
def Wanted.ask (w : Wanted) : Interest → Wanted
  | .enableReading => { w with reading := true }
  | .enableWriting => { w with writing := true }
  | .disableReading => { w with reading := false }
  | .disableWriting => { w with writing := false }
  | .disableAll => ⟨false,false⟩

def wanted (ops : List Interest) : Wanted := ops.foldl Wanted.ask ⟨false,false⟩

/-- The mask of an interest. -/
def Wanted.mask (w : Wanted) : Mask :=
  (if w.reading then kReadEvent else kNoneEvent) ||| (if w.writing then kWriteEvent else kNoneEvent)

section
variable {κ : Type} (fd : Int)

/-- A new channel after the calls. -/
def afterCalls (ops : List Interest) : Channel κ := ops.foldl Channel.setInterest (Channel.new fd)

/-- The mask is what was last asked for: in the bits of each interest, in having no other
bit, in the answers to both questions, and in what the last calls have changed. -/
structure MaskAsAsked (κ : Type) (ops : List Interest) : Prop where
  reading : (afterCalls (κ := κ) fd ops).events &&& kReadEvent = kReadEvent ↔ (wanted ops).reading
  writing : (afterCalls (κ := κ) fd ops).events.Has POLLOUT ↔ (wanted ops).writing
  no_other_bit : (afterCalls (κ := κ) fd ops).events &&& ~~~(kReadEvent ||| POLLOUT) = 0
  isWriting_iff : (afterCalls (κ := κ) fd ops).isWriting ↔ (wanted ops).writing
  isNoneEvent_iff : (afterCalls (κ := κ) fd ops).isNoneEvent ↔ ¬ (wanted ops).reading ∧ ¬ (wanted ops).writing
  writing_kept : ∀ earlier op, ops = earlier ++ [op] → op = .enableReading ∨ op = .disableReading →
    (afterCalls (κ := κ) fd ops).events &&& kWriteEvent = (afterCalls (κ := κ) fd earlier).events &&& kWriteEvent
  reading_kept : ∀ earlier op, ops = earlier ++ [op] → op = .enableWriting ∨ op = .disableWriting →
    (afterCalls (κ := κ) fd ops).events &&& kReadEvent = (afterCalls (κ := κ) fd earlier).events &&& kReadEvent
  reading_undone : ∀ earlier, ops = earlier ++ [.enableReading,.disableReading] →
    (afterCalls (κ := κ) fd ops).events = (afterCalls (κ := κ) fd earlier).events &&& ~~~kReadEvent
  writing_undone : ∀ earlier, ops = earlier ++ [.enableWriting,.disableWriting] →
    (afterCalls (κ := κ) fd ops).events = (afterCalls (κ := κ) fd earlier).events &&& ~~~kWriteEvent

/-- Every `disableReading` and every `disableWriting` is followed by a `disableAll`. -/
def NoLoneDisable (ops : List Interest) : Prop :=
  ∀ earlier op later, ops = earlier ++ op :: later → op = .disableReading ∨ op = .disableWriting →
    .disableAll ∈ later

variable {fd}

/-- The last call is asked last. -/
@[simp] theorem wanted_append (ops : List Interest) (op : Interest) :
    wanted (ops ++ [op]) = (wanted ops).ask op := by
  rw [wanted,List.foldl_append]
  rfl

/-- The last call changes the mask last. -/
@[simp] theorem afterCalls_append (ops : List Interest) (op : Interest) :
    (afterCalls fd (ops ++ [op]) : Channel κ).events = Channel.interestMask (afterCalls (κ := κ) fd ops).events op := by
  rw [afterCalls,List.foldl_append]
  rfl

/-- The condition one call later. -/
theorem noLoneDisable_append {ops : List Interest} {op : Interest} : NoLoneDisable (ops ++ [op]) ↔
    op = .disableAll ∨ (op ≠ .disableReading ∧ op ≠ .disableWriting ∧ NoLoneDisable ops) := by
  constructor
  · intro h
    by_cases hall : op = .disableAll
    · exact .inl hall
    · refine .inr ⟨fun hop => ?_,fun hop => ?_,fun earlier lone later hops hlone => ?_⟩
      · cases h ops op [] rfl (.inl hop)
      · cases h ops op [] rfl (.inr hop)
      · have hmem := h earlier lone (later ++ [op]) (by rw [hops,List.append_assoc]; rfl) hlone
        rcases List.mem_append.mp hmem with hmem | hmem
        · exact hmem
        · exact (hall (List.mem_singleton.mp hmem).symm).elim
  · intro h earlier lone later hops hlone
    rcases List.eq_nil_or_concat later with rfl | ⟨front,last,rfl⟩
    · obtain ⟨-,hlast⟩ := List.append_inj' hops rfl
      cases hlast
      rcases h with rfl | ⟨hr,hw,-⟩
      · rcases hlone with hlone | hlone <;> cases hlone
      · exact (hlone.elim hr hw).elim
    · rw [List.concat_eq_append] at hops ⊢
      rw [← List.cons_append,← List.append_assoc] at hops
      obtain ⟨hfront,hlast⟩ := List.append_inj' hops rfl
      cases hlast
      rcases h with rfl | ⟨-,-,h⟩
      · exact List.mem_append_right front (List.mem_singleton_self _)
      · exact List.mem_append_left _ (h earlier lone front hfront hlone)

/-- Without a lone disable the mask is that of the interest asked for. -/
theorem events_eq_mask (ops : List Interest) (h : NoLoneDisable ops) :
    (afterCalls fd ops : Channel κ).events = (wanted ops).mask := by
  induction ops using List.reverseRecOn with
  | nil => rfl
  | append_singleton ops op ih =>
    rw [afterCalls_append,wanted_append]
    rcases noLoneDisable_append.mp h with rfl | ⟨hr,hw,h⟩
    · exact show kNoneEvent = Wanted.mask ⟨false,false⟩ by decide
    · rw [ih h]
      rcases wanted ops with ⟨reading,writing⟩
      cases op with
      | disableReading => exact (hr rfl).elim
      | disableWriting => exact (hw rfl).elim
      | _ => revert reading writing; decide

/-- A lone disable leaves the sign bit set, among others. -/
theorem events_sign (ops : List Interest) (h : ¬ NoLoneDisable ops) :
    (afterCalls fd ops : Channel κ).events.Has 0x80000000 := by
  induction ops using List.reverseRecOn with
  | nil =>
    refine (h fun earlier op later hops _ => ?_).elim
    cases List.append_ne_nil_of_right_ne_nil earlier (List.cons_ne_nil op later) hops.symm
  | append_singleton ops op ih =>
    rw [afterCalls_append]
    rw [noLoneDisable_append] at h
    cases op with
    | disableAll => exact (h (.inl rfl)).elim
    | disableReading =>
      rw [Channel.interestMask,BitVec.or_comm]
      exact Mask.Has.or (by decide) _
    | disableWriting =>
      rw [Channel.interestMask,BitVec.or_comm]
      exact Mask.Has.or (by decide) _
    | enableReading =>
      exact (ih fun hops => h (.inr ⟨by decide,by decide,hops⟩)).or kReadEvent
    | enableWriting =>
      exact (ih fun hops => h (.inr ⟨by decide,by decide,hops⟩)).or kWriteEvent

private theorem mask_reading (w : Wanted) : w.mask &&& kReadEvent = kReadEvent ↔ w.reading := by
  rcases w with ⟨reading,writing⟩
  revert reading writing
  decide

private theorem mask_writing (w : Wanted) : w.mask.Has POLLOUT ↔ w.writing := by
  rcases w with ⟨reading,writing⟩
  revert reading writing
  decide

private theorem mask_no_other_bit (w : Wanted) : w.mask &&& ~~~(kReadEvent ||| POLLOUT) = 0 := by
  rcases w with ⟨reading,writing⟩
  revert reading writing
  decide

private theorem mask_none (w : Wanted) : w.mask = kNoneEvent ↔ ¬ w.reading ∧ ¬ w.writing := by
  rcases w with ⟨reading,writing⟩
  revert reading writing
  decide

private theorem mask_enable (w : Wanted) :
    (w.ask .enableReading).mask &&& kWriteEvent = w.mask &&& kWriteEvent ∧
    (w.ask .enableWriting).mask &&& kReadEvent = w.mask &&& kReadEvent := by
  rcases w with ⟨reading,writing⟩
  revert reading writing
  decide

/-- The mask is what was last asked for exactly when a `disableAll` follows each
`disableReading` and each `disableWriting`: these two `or` the complement of their bits
to the mask, which sets every other bit and clears none. -/
theorem mask_as_asked_iff (κ : Type) (fd : Int) (ops : List Interest) :
    MaskAsAsked fd κ ops ↔ NoLoneDisable ops := by
  constructor
  · intro h
    by_contra hlone
    have hsign : (afterCalls fd ops : Channel κ).events.Has 0x80000000 := events_sign ops hlone
    have hbit : ~~~(kReadEvent ||| POLLOUT) &&& 0x80000000 = (0x80000000 : Mask) := by decide
    refine hsign ?_
    rw [← hbit,← BitVec.and_assoc,h.no_other_bit]
    rfl
  · intro h
    have hmask : (afterCalls fd ops : Channel κ).events = (wanted ops).mask := events_eq_mask ops h
    have earlier_mask (earlier : List Interest) (op : Interest) (hops : ops = earlier ++ [op])
        (hall : op ≠ .disableAll) : op ≠ .disableReading ∧ op ≠ .disableWriting ∧
          (afterCalls fd earlier : Channel κ).events = (wanted earlier).mask := by
      rcases noLoneDisable_append.mp (hops ▸ h) with hop | ⟨hr,hw,h⟩
      · exact (hall hop).elim
      · exact ⟨hr,hw,events_eq_mask earlier h⟩
    refine ⟨?_,?_,?_,?_,?_,?_,?_,?_,?_⟩
    · rw [hmask]
      exact mask_reading _
    · rw [hmask]
      exact mask_writing _
    · rw [hmask]
      exact mask_no_other_bit _
    · rw [Channel.isWriting,hmask]
      exact mask_writing _
    · rw [Channel.isNoneEvent,hmask]
      exact mask_none _
    · rintro earlier op hops (rfl | rfl)
      · obtain ⟨-,-,hearlier⟩ := earlier_mask earlier _ hops (by decide)
        rw [hmask,hearlier,hops,wanted_append]
        exact (mask_enable _).1
      · exact ((earlier_mask earlier _ hops (by decide)).1 rfl).elim
    · rintro earlier op hops (rfl | rfl)
      · obtain ⟨-,-,hearlier⟩ := earlier_mask earlier _ hops (by decide)
        rw [hmask,hearlier,hops,wanted_append]
        exact (mask_enable _).2
      · exact ((earlier_mask earlier _ hops (by decide)).2.1 rfl).elim
    · intro earlier hops
      exact ((earlier_mask (earlier ++ [.enableReading]) .disableReading (by simp [hops]) (by decide)).1 rfl).elim
    · intro earlier hops
      exact ((earlier_mask (earlier ++ [.enableWriting]) .disableWriting (by simp [hops]) (by decide)).2.1 rfl).elim

/-- After the output of a connection was sent, `POLLOUT` is still asked for, and so is
everything else. -/
theorem writing_not_disabled :
    (afterCalls 3 [.enableReading,.enableWriting,.disableWriting] : Channel Unit).isWriting ∧
    ¬ MaskAsAsked 3 Unit [.enableReading,.enableWriting,.disableWriting] := by
  have hw : (afterCalls 3 [.enableReading,.enableWriting,.disableWriting] : Channel Unit).isWriting := by decide
  exact ⟨hw,fun h => absurd (h.isWriting_iff.mp hw) (by decide)⟩

end

end LearningMuduo.Reactor
