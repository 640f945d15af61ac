import LearningMuduo.Tcp.ConnectionEffects
import LearningMuduo.Tcp.ConnectionLifetime

/-! Whether a functor that was bound with the raw `this` finds its connection. -/
namespace LearningMuduo.Tcp
open Library Reactor

namespace Session
variable {s u : Session}

/-- The owner has the connection, or is about to remove it. -/
def Owned (s : Session) : Prop := s.present = true ∨ s.removals ≠ 0

instance (s : Session) : Decidable s.Owned := inferInstanceAs (Decidable (_ ∨ _))

/-- What a function of the loop leaves: every functor it queues holds a `shared_ptr`, and it
queues one if it makes the owner give up the connection. -/
private structure Grows (s u : Session) : Prop where
  calls : u.calls = s.calls
  queue : ∃ more, u.ioQueue = s.ioQueue ++ more ∧ (∀ f ∈ more, f.holdsShared = true) ∧
    (s.Owned → u.Owned ∨ more ≠ [])

private theorem Grows.of_eq (hc : u.calls = s.calls) (hq : u.ioQueue = s.ioQueue) (hp : u.present = s.present)
    (hr : u.removals = s.removals) : s.Grows u :=
  ⟨hc,[],by rw [hq,List.append_nil],nofun,by rw [Owned,Owned,hp,hr]; exact .inl⟩

private theorem Quiet.grows (h : s.Quiet u) : s.Grows u := by
  obtain ⟨notes,hq,hn⟩ := h.queue
  refine ⟨h.calls,notes,hq,?_,by rw [Owned,Owned,h.present,h.removals]; exact .inl⟩
  intro f hf
  have hnote := hn f hf
  cases f <;> first | rfl | cases hnote

private theorem Grows.forgets (h : s.Grows u) {v : Session} (hc : v.calls = u.calls)
    (hq : v.ioQueue = u.ioQueue ++ [.connectDestroyed]) : s.Grows v := by
  obtain ⟨hcalls,more,hmore,hshared,-⟩ := h
  refine ⟨hc.trans hcalls,more ++ [.connectDestroyed],by rw [hq,hmore,List.append_assoc],?_,fun _ => .inr (by simp)⟩
  intro f hf
  rcases List.mem_append.mp hf with hf | hf
  · exact hshared f hf
  · rw [List.mem_singleton.mp hf]
    rfl

private theorem Effect.grows (h : s.Effect u) : s.Grows u := by
  cases h with
  | quiet h => exact h.grows
  | closes v h _ _ hu =>
    obtain ⟨hcalls,more,hq,hmore,-⟩ := h.grows
    rw [hu]
    exact ⟨hcalls,more,hq,hmore,fun _ => .inl (.inr (Nat.succ_ne_zero _))⟩
  | forgets v h _ _ hu =>
    rw [hu]
    exact h.grows.forgets rfl rfl

private theorem runFunctor_grows (h : s.conn.outputBuffer.WF) {f : ConnFunctor} {n : Int} {rest : List ConnFunctor}
    (he : FunctorAnswer n (f :: rest)) : Meets s.Grows (fun _ => True) (s.runFunctor n f) := by
  refine (runFunctor_effect h he).mono ?_ fun _ => id
  rintro u (heffect | ⟨-,rfl⟩)
  · exact heffect.grows
  · exact .of_eq rfl rfl rfl rfl

private theorem connectEstablished_grows (s : Session) : Meets s.Grows (fun _ => True) s.connectEstablished := by
  refine Meets.bind (meets_require fun _ => trivial) fun _ _ => ?_
  change s.Grows (if _ then _ else _)
  split <;> exact .of_eq rfl rfl rfl rfl

private theorem code_grows (h : s.conn.outputBuffer.WF) {a : ConnStep} (he : s.Enabled a) (hcall : ∀ t c, a ≠ .call t c)
    (hresume : ∀ t n, a ≠ .resume t n) (hfunctor : ∀ n, a ≠ .functor n) :
    Meets s.Grows (fun _ => True) (s.code a) := by
  by_cases hremove : a = .removeConnectionInLoop
  · rw [hremove]
    refine removeConnectionInLoop_spec.mono ?_ fun _ _ => trivial
    rintro u ⟨-,rfl⟩
    exact (Quiet.refl s).grows.forgets rfl rfl
  · by_cases hevent : ∃ revents, a = .event revents
    · obtain ⟨revents,rfl⟩ := hevent
      exact .of_eq rfl rfl rfl rfl
    · refine (code_effect h he hcall hresume hfunctor ?_ hremove).mono (fun _ => Effect.grows) fun _ => id
      exact fun revents ha => hevent ⟨revents,ha⟩

end Session

/-- The call is behind its test and is going to queue a functor with a `shared_ptr`. -/
def CallPoint.WillShare : Option CallPoint → Prop
  | some .forceClose => True
  | some (.queue f) => f.holdsShared = true
  | _ => False

/-- The next statement of the call pushes a functor bound with the raw `this`. -/
def CallPoint.PushesRaw : Option CallPoint → Prop
  | some (.queue f) => f.holdsShared = false
  | _ => False

instance : DecidablePred CallPoint.WillShare
  | some .forceClose => isTrue trivial
  | some (.queue _) => inferInstanceAs (Decidable (_ = _))
  | some (.send _) | some .shutdown | none => isFalse id

instance : DecidablePred CallPoint.PushesRaw
  | some (.queue _) => inferInstanceAs (Decidable (_ = _))
  | some .forceClose | some (.send _) | some .shutdown | none => isFalse id

namespace Lifetime
variable {l l' : Lifetime}

/-- Some `shared_ptr` outlives the running batch: the owner's, one in `pendingFunctors_`, or one
that a caller of `forceClose` is about to queue. -/
def Anchored (l : Lifetime) : Prop :=
  l.session.Owned ∨ (∃ f ∈ l.pendingFunctors, f.holdsShared = true) ∨ l.establishing = .pending ∨
    ∃ t ∈ l.holders, CallPoint.WillShare (l.session.calls t)

instance (l : Lifetime) : Decidable l.Anchored := inferInstanceAs (Decidable (_ ∨ _ ∨ _ ∨ _))

/-- A functor with the raw `this` is pushed only while some `shared_ptr` outlives the running
batch. -/
def PushesAnchored (l : Lifetime) : LifeStep → Prop
  | .conn (.resume t _) => CallPoint.PushesRaw (l.session.calls t) → l.Anchored
  | _ => True

instance (l : Lifetime) : (a : LifeStep) → Decidable (l.PushesAnchored a)
  | .conn (.resume _ _) => inferInstanceAs (Decidable (_ → _))
  | .connectEstablished | .take _ | .drop _ | .swap | .endBatch | .endRemovals | .conn (.call ..)
  | .conn (.event _) | .conn (.functor _) | .conn (.handler ..) | .conn (.handleWrite _)
  | .conn .removeConnectionInLoop | .conn (.input _) | .conn (.setWriteCompleteCallback _)
  | .conn (.setHighWaterMarkCallback ..) => isTrue trivial

private def Raw (q : List ConnFunctor) : Prop := ∃ f ∈ q, f.holdsShared = false

private def Shared (q : List ConnFunctor) : Prop := ∃ f ∈ q, f.holdsShared = true

/-- Functors with the raw `this` wait only where some `shared_ptr` outlives them. -/
private structure Guarded (l : Lifetime) : Prop where
  watched : l.session.Watched
  holders : ∀ t, l.session.calls t ≠ none → t ∈ l.holders
  rest : l.rest ≤ l.session.ioQueue.length
  stopped : l.running = false → l.rest = 0
  pending : Raw l.pendingFunctors → l.Anchored
  batch : Raw l.batch → l.Anchored ∨ l.kept = true ∨ Shared l.batch ∨ l.establishing = .taken

private theorem Anchored.mono (h : l.Anchored)
    (howned : l.session.Owned → l'.session.Owned ∨ Shared l'.pendingFunctors)
    (hshared : Shared l.pendingFunctors → Shared l'.pendingFunctors)
    (hpending : l.establishing = .pending → l'.establishing = .pending)
    (hwill : ∀ t ∈ l.holders, CallPoint.WillShare (l.session.calls t) →
      t ∈ l'.holders ∧ CallPoint.WillShare (l'.session.calls t) ∨ Shared l'.pendingFunctors) : l'.Anchored := by
  rcases h with h | h | h | ⟨t,ht,h⟩
  · rcases howned h with h | h
    · exact .inl h
    · exact .inr (.inl h)
  · exact .inr (.inl (hshared h))
  · exact .inr (.inr (.inl (hpending h)))
  · rcases hwill t ht h with h | h
    · exact .inr (.inr (.inr ⟨t,h⟩))
    · exact .inr (.inl h)

private theorem shared_append {q more : List ConnFunctor} : Shared (q ++ more) ↔ Shared q ∨ Shared more := by
  simp [Shared,or_and_right,exists_or]

private theorem raw_append {q more : List ConnFunctor} : Raw (q ++ more) ↔ Raw q ∨ Raw more := by
  simp [Raw,or_and_right,exists_or]

private theorem Guarded.alive (h : l.Guarded) {f : ConnFunctor} (hf : f ∈ l.batch) : l.Alive := by
  have hmem {g : ConnFunctor} {q : List ConnFunctor} (hsub : q ⊆ l.session.ioQueue) (hg : g ∈ q)
      (hs : g.holdsShared = true) : l.Alive := .inr (.inr (.inr (.inr (.inl ⟨g,hsub hg,hs⟩))))
  have hbatch : l.batch ⊆ l.session.ioQueue := List.take_subset _ _
  have hpend : l.pendingFunctors ⊆ l.session.ioQueue := List.drop_subset _ _
  cases hs : f.holdsShared with
  | true => exact hmem hbatch hf hs
  | false =>
    rcases h.batch ⟨f,hf,hs⟩ with ((hown | hown) | ⟨g,hg,hg'⟩ | hestab | ⟨t,ht,-⟩) | hkept | ⟨g,hg,hg'⟩ | hestab
    · exact .inl hown
    · exact .inr (.inl hown)
    · exact hmem hpend hg hg'
    · exact .inr (.inr (.inr (.inl (by simp [hestab]))))
    · exact .inr (.inr (.inr (.inr (.inr (.inr (List.ne_nil_of_mem ht))))))
    · exact .inr (.inr (.inr (.inr (.inr (.inl hkept)))))
    · exact hmem hbatch hg hg'
    · exact .inr (.inr (.inr (.inl (by simp [hestab]))))

private theorem Guarded.queues (h : l.Guarded) {s : Session} {more : List ConnFunctor} {removalsKept : Bool}
    (hw : s.Watched) (hq : s.ioQueue = l.session.ioQueue ++ more) (hcalls : ∀ t, s.calls t ≠ none → t ∈ l.holders)
    (hraw : Raw more → l.Anchored) (howned : l.session.Owned → s.Owned ∨ Shared more)
    (hwill : ∀ t ∈ l.holders, CallPoint.WillShare (l.session.calls t) →
      CallPoint.WillShare (s.calls t) ∨ Shared more) :
    ({ l with session := s, removalsKept := removalsKept } : Lifetime).Guarded := by
  let l' : Lifetime := { l with session := s, removalsKept := removalsKept }
  have hpend : l'.pendingFunctors = l.pendingFunctors ++ more := by
    change s.ioQueue.drop l.rest = _
    rw [hq,List.drop_append_of_le_length h.rest]
    rfl
  have hbatch : l'.batch = l.batch := by
    change s.ioQueue.take l.rest = _
    rw [hq,List.take_append_of_le_length h.rest]
    rfl
  have hanchor (ha : l.Anchored) : l'.Anchored := by
    refine ha.mono ?_ ?_ id ?_
    · exact fun ho => (howned ho).imp id fun hm => hpend ▸ shared_append.mpr (.inr hm)
    · exact fun hs => hpend ▸ shared_append.mpr (.inl hs)
    · exact fun t ht hwt => (hwill t ht hwt).imp (fun hs => ⟨ht,hs⟩) fun hm => hpend ▸ shared_append.mpr (.inr hm)
  refine ⟨hw,hcalls,?_,h.stopped,?_,?_⟩
  · change l.rest ≤ s.ioQueue.length
    rw [hq,List.length_append]
    exact h.rest.trans (Nat.le_add_right _ _)
  · intro hr
    rw [hpend] at hr
    exact (raw_append.mp hr).elim (fun hr => hanchor (h.pending hr)) fun hr => hanchor (hraw hr)
  · intro hr
    rw [hbatch] at hr ⊢
    exact (h.batch hr).imp hanchor id

private theorem Guarded.runs (h : l.Guarded) {s : Session} {f : ConnFunctor} {tail more : List ConnFunctor}
    (hw : s.Watched) (hhead : l.session.ioQueue = f :: tail) (hrest : l.rest ≠ 0) (hq : s.ioQueue = tail ++ more)
    (hcalls : s.calls = l.session.calls) (hmore : ∀ f ∈ more, f.holdsShared = true)
    (howned : l.session.Owned → s.Owned ∨ more ≠ []) :
    ({ l with session := s, rest := l.rest-1, kept := l.kept || l.batch.head?.any ConnFunctor.holdsShared } : Lifetime).Guarded := by
  obtain ⟨r,hr⟩ := Nat.exists_eq_succ_of_ne_zero hrest
  have hle : r ≤ tail.length := by
    have hrest := h.rest
    rw [hhead,hr] at hrest
    exact Nat.le_of_succ_le_succ hrest
  have hbatch : l.batch = f :: tail.take r := by rw [Lifetime.batch,hhead,hr]; rfl
  have hpend : l.pendingFunctors = tail.drop r := by rw [pendingFunctors,hhead,hr]; rfl
  rw [hbatch,hr]
  let l' : Lifetime := { l with session := s, rest := r, kept := l.kept || f.holdsShared }
  have hpend' : l'.pendingFunctors = l.pendingFunctors ++ more := by
    change s.ioQueue.drop r = _
    rw [hq,List.drop_append_of_le_length hle,hpend]
  have hbatch' : l'.batch = tail.take r := by
    change s.ioQueue.take r = _
    rw [hq,List.take_append_of_le_length hle]
  have hanchor (ha : l.Anchored) : l'.Anchored := by
    refine ha.mono ?_ ?_ id ?_
    · intro ho
      refine (howned ho).imp id fun hm => ?_
      obtain ⟨g,hg⟩ := List.exists_mem_of_ne_nil more hm
      exact hpend' ▸ shared_append.mpr (.inr ⟨g,hg,hmore g hg⟩)
    · exact fun hs => hpend' ▸ shared_append.mpr (.inl hs)
    · exact fun t ht hwt => .inl ⟨ht,by rw [← hcalls] at hwt; exact hwt⟩
  have hno : ¬ Raw more := by
    rintro ⟨g,hg,hraw⟩
    rw [hmore g hg] at hraw
    cases hraw
  change l'.Guarded
  refine ⟨hw,?_,?_,?_,?_,?_⟩
  · intro t ht
    exact h.holders t (hcalls ▸ ht)
  · change r ≤ s.ioQueue.length
    rw [hq,List.length_append]
    exact hle.trans (Nat.le_add_right _ _)
  · intro hstop
    exact (hrest (h.stopped hstop)).elim
  · intro hraw
    rw [hpend'] at hraw
    exact (raw_append.mp hraw).elim (fun hraw => hanchor (h.pending hraw)) fun hraw => (hno hraw).elim
  · rw [hbatch']
    rintro ⟨g,hg,hraw⟩
    have hold := h.batch ⟨g,by rw [hbatch]; exact List.mem_cons_of_mem f hg,hraw⟩
    rw [hbatch] at hold
    rcases hold with ha | hk | ⟨k,hk,hshared⟩ | he
    · exact .inl (hanchor ha)
    · exact .inr (.inl (by change (l.kept || _) = true; rw [hk]; rfl))
    · rcases List.mem_cons.mp hk with rfl | hk
      · exact .inr (.inl (by change (_ || k.holdsShared) = true; rw [hshared,Bool.or_true]))
      · exact .inr (.inr (.inl ⟨k,hk,hshared⟩))
    · exact .inr (.inr (.inr he))

private theorem Guarded.grows (h : l.Guarded) {s : Session} (removalsKept : Bool) (hw : s.Watched)
    (hg : l.session.Grows s) : ({ l with session := s, removalsKept := removalsKept } : Lifetime).Guarded := by
  obtain ⟨hcalls,more,hq,hmore,howned⟩ := hg
  refine h.queues hw hq (fun t ht => h.holders t (hcalls ▸ ht)) ?_ ?_ ?_
  · rintro ⟨f,hf,hraw⟩
    rw [hmore f hf] at hraw
    cases hraw
  · intro ho
    refine (howned ho).imp id fun hne => ?_
    obtain ⟨f,hf⟩ := List.exists_mem_of_ne_nil more hne
    exact ⟨f,hf,hmore f hf⟩
  · intro t _ hwt
    rw [← hcalls] at hwt
    exact .inl hwt

private theorem Guarded.calls (h : l.Guarded) {s : Session} {t : Nat} (p : Option CallPoint) (more : List ConnFunctor)
    (ht : t ∈ l.holders) (hw : s.Watched) (hc : s.calls = Function.update l.session.calls t p)
    (hq : s.ioQueue = l.session.ioQueue ++ more) (hraw : Raw more → l.Anchored)
    (howned : l.session.Owned → s.Owned ∨ Shared more)
    (hwill : CallPoint.WillShare (l.session.calls t) → CallPoint.WillShare p ∨ Shared more) :
    ({ l with session := s, removalsKept := l.removalsKept || false } : Lifetime).Guarded := by
  refine h.queues hw hq ?_ hraw howned ?_
  · intro v hv
    rw [hc,Function.update_apply] at hv
    split at hv
    · next heq =>
      rw [heq]
      exact ht
    · exact h.holders v hv
  · intro v _ hv
    rw [hc,Function.update_apply]
    split
    · next heq =>
      rw [heq] at hv
      exact hwill hv
    · exact .inl hv

private theorem call_guarded (h : l.Guarded) {t : Nat} {c : Call} (ht : t ∈ l.holders)
    (he : l.session.Enabled (.call t c)) : Meets Guarded (fun _ => True) (l.code (.conn (.call t c))) := by
  have hw : (l.session.call t c).Watched := Session.code_watched h.watched he
  have hnone : l.session.calls t = none := he
  have hidle : CallPoint.WillShare (l.session.calls t) → False := by rw [hnone]; exact id
  change Guarded { l with session := l.session.call t c, removalsKept := l.removalsKept || false }
  obtain hc | ⟨p,-,hc⟩ | ⟨message,p,-,hc⟩ := l.session.call_cases t c
  · rw [hc]
    exact h.grows _ h.watched (.of_eq rfl rfl rfl rfl)
  · rw [hc] at hw ⊢
    exact h.calls (some p) [] ht hw rfl (List.append_nil _).symm nofun .inl fun hwt => (hidle hwt).elim
  · rw [hc] at hw ⊢
    exact h.calls (some p) [] ht hw rfl (List.append_nil _).symm nofun .inl fun hwt => (hidle hwt).elim

private theorem Guarded.callGrows (h : l.Guarded) {s : Session} {t : Nat} {p : Option CallPoint}
    (ht : t ∈ l.holders) (hw : s.Watched) (hg : (l.session.setCall t p).Grows s)
    (hwill : CallPoint.WillShare (l.session.calls t) → CallPoint.WillShare p) :
    ({ l with session := s, removalsKept := l.removalsKept || false } : Lifetime).Guarded := by
  obtain ⟨hcalls,more,hq,hmore,howned⟩ := hg
  refine h.calls p more ht hw hcalls hq ?_ ?_ fun hwt => .inl (hwill hwt)
  · rintro ⟨f,hf,hraw⟩
    rw [hmore f hf] at hraw
    cases hraw
  · intro ho
    refine (howned ho).imp id fun hne => ?_
    obtain ⟨f,hf⟩ := List.exists_mem_of_ne_nil more hne
    exact ⟨f,hf,hmore f hf⟩

private theorem resume_guarded (h : l.Guarded) {t : Nat} {n : Int} (he : l.session.Enabled (.resume t n))
    (hg : CallPoint.PushesRaw (l.session.calls t) → l.Anchored) :
    Meets Guarded (fun _ => True) (l.code (.conn (.resume t n))) := by
  have hw : Meets Session.Watched (fun _ => True) (l.session.resume t n) := Session.code_watched h.watched he
  change Session.CallAnswer n (l.session.calls t) at he
  change Meets _ _ (l.session.resume t n >>= fun s => pure { l with session := s, removalsKept := l.removalsKept || false })
  cases hr : l.session.resume t n with
  | error e => trivial
  | ok s =>
    rw [hr] at hw
    change Guarded { l with session := s, removalsKept := l.removalsKept || false }
    rw [Session.resume] at hr
    cases hc : l.session.calls t with
    | none =>
      rw [hc] at he
      exact he.elim
    | some point =>
      have ht := h.holders t (by simp [hc])
      rw [hc] at he hr hg
      cases point with
      | send message =>
        have hgrows := Session.sendInLoop_quiet (s := l.session.setCall t none) h.watched.output t he
        rw [show (l.session.setCall t none).sendInLoop t message n = .ok s from hr] at hgrows
        exact h.callGrows ht hw hgrows.grows (by rw [hc]; exact id)
      | shutdown =>
        dsimp only at hr
        split at hr
        · cases hr
          have hgrows := (Session.shutdownInLoop_quiet ((l.session.setCall t none).setState .kDisconnecting)).grows
          exact h.callGrows ht hw ⟨hgrows.calls,hgrows.queue⟩ (by rw [hc]; exact id)
        · cases hr
          exact h.callGrows (p := some (.queue .shutdownInLoop)) ht hw (.of_eq rfl rfl rfl rfl)
            (by rw [hc]; exact False.elim)
      | forceClose =>
        cases hr
        exact h.callGrows (p := some (.queue .forceCloseInLoop)) ht hw (.of_eq rfl rfl rfl rfl) fun _ => rfl
      | queue f =>
        cases hr
        refine h.calls none [f] ht hw rfl rfl ?_ .inl ?_
        · rintro ⟨g,hm,hraw⟩
          rw [List.mem_singleton.mp hm] at hraw
          exact hg hraw
        · rw [hc]
          exact fun hshared => .inr ⟨f,List.mem_singleton_self f,hshared⟩

private theorem functor_guarded (h : l.Guarded) {n : Int} (hrest : l.rest ≠ 0) (he : l.session.Enabled (.functor n)) :
    Meets Guarded (fun _ => True) (l.code (.conn (.functor n))) := by
  have hw := Session.code_watched h.watched he
  have hanswer := he.2.2
  change Meets _ _ (l.session.code (.functor n) >>= fun s => pure { l with
    session := s, rest := l.rest-1, kept := l.kept || l.batch.head?.any ConnFunctor.holdsShared })
  cases hr : l.session.code (.functor n) with
  | error e => trivial
  | ok s =>
    rw [hr] at hw
    rw [Session.code] at hr
    cases hq : l.session.ioQueue with
    | nil =>
      rw [hq] at hanswer
      exact hanswer.elim
    | cons f tail =>
      rw [hq] at hr hanswer
      have hgrows := Session.runFunctor_grows (s := { l.session with ioQueue := tail }) h.watched.output hanswer
      rw [show Session.runFunctor _ n f = .ok s from hr] at hgrows
      obtain ⟨hcalls,more,hmore,hshared,howned⟩ := hgrows
      exact h.runs hw hq hrest hmore hcalls hshared howned

private theorem conn_guarded (h : l.Guarded) {a : ConnStep} (he : Enabled l (.conn a)) (hg : l.PushesAnchored (.conn a)) :
    Meets Guarded (fun _ => True) (l.code (.conn a)) := by
  have hother (he : l.session.Enabled a) (hcall : ∀ t c, a ≠ .call t c) (hresume : ∀ t n, a ≠ .resume t n)
      (hfunctor : ∀ n, a ≠ .functor n) : Meets Guarded (fun _ => True) (l.session.code a >>= fun s =>
        pure { l with session := s, removalsKept := l.removalsKept || removes a }) := by
    have hw := Session.code_watched h.watched he
    have hgrows := Session.code_grows h.watched.output he hcall hresume hfunctor
    cases hr : l.session.code a with
    | error e => trivial
    | ok s =>
      rw [hr] at hw hgrows
      exact h.grows _ hw hgrows
  cases a with
  | call t c => exact call_guarded h he.1 he.2
  | resume t n => exact resume_guarded h he hg
  | functor n => exact functor_guarded h he.2.1 he.2.2
  | event revents => exact hother he.2 nofun nofun nofun
  | handler r n => exact hother he nofun nofun nofun
  | handleWrite n => exact hother he nofun nofun nofun
  | removeConnectionInLoop => exact hother he nofun nofun nofun
  | input op => exact hother he nofun nofun nofun
  | setWriteCompleteCallback cb => exact hother he nofun nofun nofun
  | setHighWaterMarkCallback cb mark => exact hother he nofun nofun nofun

private theorem connectEstablished_guarded (h : l.Guarded) (he : l.establishing = .taken) :
    Meets Guarded (fun _ => True) (l.code .connectEstablished) := by
  have hw := Session.connectEstablished_watched h.watched
  have hgrows := Session.connectEstablished_grows l.session
  change Meets _ _ (l.session.connectEstablished >>= fun s => pure { l with session := s, establishing := .done, kept := true })
  cases hr : l.session.connectEstablished with
  | error e => trivial
  | ok s =>
    rw [hr] at hw hgrows
    have hl := h.grows l.removalsKept hw hgrows
    refine ⟨hl.watched,hl.holders,hl.rest,hl.stopped,?_,fun _ => .inr (.inl rfl)⟩
    intro hraw
    refine (hl.pending hraw).mono .inl id ?_ fun v hv hwt => .inl ⟨hv,hwt⟩
    intro hpending
    rw [show l.establishing = .pending from hpending] at he
    cases he

private theorem swap_guarded (h : l.Guarded) (he : l.running = false) : Meets Guarded (fun _ => True) (l.code .swap) := by
  let l' : Lifetime := { l with
    running := true
    rest := l.session.ioQueue.length
    establishing := if l.establishing = .pending then .taken else l.establishing }
  have hpend : l.pendingFunctors = l.session.ioQueue := by rw [Lifetime.pendingFunctors,h.stopped he,List.drop_zero]
  have hpend' : l'.pendingFunctors = [] := List.drop_length
  have hbatch' : l'.batch = l.session.ioQueue := List.take_length
  change l'.Guarded
  refine ⟨h.watched,h.holders,le_rfl,nofun,?_,?_⟩
  · rw [hpend']
    rintro ⟨f,hf,-⟩
    cases hf
  · rw [hbatch']
    intro hraw
    rcases h.pending (by rw [hpend]; exact hraw) with ho | hs | hp | hw
    · exact .inl (.inl ho)
    · rw [hpend] at hs
      exact .inr (.inr (.inl hs))
    · exact .inr (.inr (.inr (if_pos hp)))
    · exact .inl (.inr (.inr (.inr hw)))

private theorem step_guarded (l : Lifetime) (a : LifeStep) (h : l.Guarded)
    (he : (machine.guard PushesAnchored).Enabled l a) : Meets Guarded (fun _ => True) (machine.step l a) := by
  obtain ⟨he,hg⟩ := he
  have hsame {l' : Lifetime} (hs : l'.session = l.session) (hrest : l'.rest = l.rest) (ha : l.Anchored → l'.Anchored)
      (hholders : ∀ t, l.session.calls t ≠ none → t ∈ l'.holders) (hstopped : l'.running = false → l'.rest = 0)
      (hbatch : Raw l.batch → l'.Anchored ∨ l'.kept = true ∨ Shared l.batch ∨ l'.establishing = .taken) : l'.Guarded := by
    refine ⟨by rw [hs]; exact h.watched,by rw [hs]; exact hholders,by rw [hs,hrest]; exact h.rest,hstopped,?_,?_⟩
    · rw [Lifetime.pendingFunctors,hs,hrest]
      exact fun hr => ha (h.pending hr)
    · rw [Lifetime.batch,hs,hrest]
      exact hbatch
  cases a with
  | connectEstablished => exact connectEstablished_guarded h he.1
  | take t =>
    have ha (ha : l.Anchored) : ({ l with holders := t :: l.holders } : Lifetime).Anchored :=
      ha.mono .inl id id fun v hv hwt => .inl ⟨List.mem_cons_of_mem t hv,hwt⟩
    exact hsame rfl rfl ha (fun v hv => List.mem_cons_of_mem t (h.holders v hv)) h.stopped
      fun hr => (h.batch hr).imp ha id
  | drop t =>
    have hmem {v : Nat} (hv : l.session.calls v ≠ none) : v ∈ l.holders.erase t := by
      have hne : v ≠ t := by
        rintro rfl
        exact hv he.2
      exact (List.mem_erase_of_ne hne).mpr (h.holders v hv)
    have ha (ha : l.Anchored) : ({ l with holders := l.holders.erase t } : Lifetime).Anchored := by
      refine ha.mono .inl id id fun v _ hwt => .inl ⟨hmem ?_,hwt⟩
      intro hnone
      rw [hnone] at hwt
      exact hwt
    exact hsame rfl rfl ha (fun v hv => hmem hv) h.stopped fun hr => (h.batch hr).imp ha id
  | swap => exact swap_guarded h he.1
  | endBatch =>
    have hempty : l.batch = [] := by rw [Lifetime.batch,he.2.1,List.take_zero]
    refine hsame rfl rfl (fun ha => ha.mono .inl id id fun v hv hwt => .inl ⟨hv,hwt⟩) h.holders (fun _ => he.2.1) ?_
    rw [hempty]
    rintro ⟨f,hf,-⟩
    cases hf
  | endRemovals =>
    have ha (ha : l.Anchored) : ({ l with removalsKept := false } : Lifetime).Anchored :=
      ha.mono .inl id id fun v hv hwt => .inl ⟨hv,hwt⟩
    exact hsame rfl rfl ha h.holders h.stopped fun hr => (h.batch hr).imp ha id
  | conn a => exact conn_guarded h he hg

private theorem not_raw_nil : ¬ Raw [] := by simp [Raw]

private theorem new_guarded (owner : Owner) (loopThread : Nat) (sockfd : Int) (mark : Nat) :
    (new owner loopThread sockfd mark).Guarded := by
  rw [new]
  split
  · exact ⟨Session.new_watched owner loopThread sockfd mark,fun t ht => (ht rfl).elim,le_rfl,fun _ => rfl,
      fun hr => (not_raw_nil hr).elim,fun hr => (not_raw_nil hr).elim⟩
  · exact ⟨Session.established_watched owner loopThread sockfd mark,fun t ht => (ht rfl).elim,le_rfl,fun _ => rfl,
      fun hr => (not_raw_nil hr).elim,fun hr => (not_raw_nil hr).elim⟩

/-- In every run in which the functors with the raw `this` are pushed only while some
`shared_ptr` outlives the running batch, no functor is run on a connection that has been
destroyed. -/
theorem queued_work_finds_connection (owner : Owner) (loopThread : Nat) (sockfd : Int) (mark : Nat)
    (as : List LifeStep) (ha : (machine.guard PushesAnchored).Admissible (new owner loopThread sockfd mark) as) :
    ∀ before n after l, as = before ++ .conn (.functor n) :: after →
      machine.exec (new owner loopThread sockfd mark) before = .ok l → l.Alive := by
  rintro before n after l rfl hl
  rw [← machine.exec_guard PushesAnchored] at hl
  obtain ⟨hbefore,hrest⟩ := (machine.guard PushesAnchored).admissible_append ha hl
  have hinv := (machine.guard PushesAnchored).exec_invariant step_guarded before _
    (new_guarded owner loopThread sockfd mark) hbefore
  rw [hl] at hinv
  obtain ⟨-,hn,he⟩ := hrest.1.1
  cases hb : l.batch with
  | nil =>
    have hanswer := he.2.2
    rw [Lifetime.batch,List.take_eq_nil_iff] at hb
    rcases hb with hb | hb
    · exact (hn hb).elim
    · rw [hb] at hanswer
      exact hanswer.elim
  | cons f q => exact Guarded.alive hinv (by rw [hb]; exact List.mem_cons_self)

private def greeting : Message := ⟨[104,105],by decide⟩

private def sendAndLetGo : List LifeStep :=
  [.take 7,.conn (.call 7 (.send greeting)),.conn (.resume 7 0),.drop 7,.swap,.conn (.functor 2)]

/-- Thread 7 sends through a connection in the map and drops its pointer. -/
theorem queued_work_finds_connection_sent :
    (machine.guard PushesAnchored).Admissible (new (.server true) 0 5 64) sendAndLetGo ∧
    ∀ before n after l, sendAndLetGo = before ++ .conn (.functor n) :: after →
      machine.exec (new (.server true) 0 5 64) before = .ok l → l.Alive := by
  have ha : (machine.guard PushesAnchored).Admissible (new (.server true) 0 5 64) sendAndLetGo := by decide +kernel
  exact ⟨ha,queued_work_finds_connection (.server true) 0 5 64 sendAndLetGo ha⟩

/-- The peer closes, and `connectDestroyed` is in the running batch when thread 7, which still
finds `kConnected`, sends and drops its pointer; the batch ends. -/
private def sendWhileDestroying : List LifeStep :=
  [.take 7,.conn (.event POLLIN),.conn (.handler (.received []) 0),.swap,.conn (.call 7 (.send greeting)),
    .conn (.resume 7 0),.drop 7,.conn (.functor 0),.endBatch,.swap]

/-- `sendInLoop` runs on a connection that nothing holds any more. -/
theorem late_send_finds_no_connection :
    machine.Admissible (new (.server true) 0 5 64) (sendWhileDestroying ++ [.conn (.functor 2)]) ∧
    ∃ l, machine.exec (new (.server true) 0 5 64) sendWhileDestroying = .ok l ∧
      l.batch = [.sendInLoop 7 greeting] ∧ ¬ l.Alive := by
  refine ⟨by decide +kernel,?_⟩
  exact Meets.ok_of_no_error (Q := fun _ => False) (by decide +kernel) (fun _ => id)

end Lifetime
end LearningMuduo.Tcp
