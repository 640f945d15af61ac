import LearningMuduo.Reactor.EventLoopThread
import LearningMuduo.Reactor.PendingFunctors

/-! The owner's `quit()` against the head of `loop()`, over every interleaving of the two
threads. -/
namespace LearningMuduo.Reactor
open Library
variable {φ : Type}

/-- Only `loop()` itself sets `looping_` and clears `quit_`. -/
theorem EventLoop.flags_of_code {l m : EventLoop φ} {a : LoopStep φ} (ha : a ≠ .loop)
    (h : l.code a = .ok m) : (m.looping = true → l.looping = true) ∧ (l.quit = true → m.quit = true) := by
  cases a with
  | loop => exact (ha rfl).elim
  | queueInLoop t f | leaveQuit t | pollReturn active | endEvents | swap | endBatch =>
    cases h
    exact ⟨id,id⟩
  | runInLoop t f =>
    cases h
    split <;> exact ⟨id,id⟩
  | leaveQueueInLoop t =>
    cases h
    unfold leaveQueueInLoop
    split <;> exact ⟨id,id⟩
  | quit t =>
    cases h
    split <;> exact ⟨id,fun _ => rfl⟩
  | test =>
    cases h
    split
    · exact ⟨nofun,id⟩
    · exact ⟨id,id⟩
  | dispatch | run =>
    cases h
    split <;> exact ⟨id,id⟩

namespace EventLoopThread
variable {s t : EventLoopThread φ}

/-- How the loop and the pointer to it follow the points of the two threads. -/
structure Staged (s : EventLoopThread φ) : Prop where
  flags : s.loop.Flags
  conserved : s.loop.Conserved
  created : s.owner = .created → s.worker = .absent
  before : s.worker ∈ [.absent,.constructing,.entering] → s.loop.looping = false
  inside : s.worker = .looping → s.loop.looping = true
  published : s.published = true ↔ s.worker ∈ [.entering,.looping,.left]

private theorem new_staged (ownerThread pid : Nat) : (new ownerThread pid : EventLoopThread φ).Staged :=
  ⟨EventLoop.new_flags pid,EventLoop.new_conserved pid,fun _ => rfl,fun _ => rfl,nofun,by simp [new]⟩

private theorem onLoop_eq {a : LoopStep φ} (h : s.onLoop a = .ok t) :
    ∃ m, s.loop.code a = .ok m ∧ t = { s with loop := m } := by
  obtain ⟨m,hm,ht⟩ := bind_eq_ok h
  cases ht
  cases hc : EventLoop.machine.step s.loop a with
  | ok l =>
    rw [hc] at hm
    cases hm
    exact ⟨m,hc,rfl⟩
  | error e =>
    rw [hc] at hm
    cases hm

private theorem use_eq {a : LoopStep φ} (h : s.use a = .ok t) : ∃ m, s.loop.code a = .ok m ∧
    (s.worker = .looping ∧ m.looping = false ∧ t = { s with loop := m, worker := .left } ∨
      (s.worker = .looping → m.looping = true) ∧ t = { s with loop := m }) := by
  obtain ⟨u,hu,ht⟩ := bind_eq_ok h
  obtain ⟨m,hm,rfl⟩ := onLoop_eq hu
  cases ht
  refine ⟨m,hm,?_⟩
  split
  · rename_i hleft
    exact .inl ⟨hleft.1,hleft.2,rfl⟩
  · rename_i hstay
    exact .inr ⟨fun hw => by simpa [hw] using hstay,rfl⟩

private theorem MayUse.ne_loop (h : s.Staged) {a : LoopStep φ} (hu : s.MayUse a) (hw : s.worker ≠ .callback) :
    a ≠ .loop := by
  rintro rfl
  obtain ⟨⟨-,hpoint⟩,⟨-,hworker⟩ | ⟨hother,-⟩⟩ := hu
  · have hlooping : s.worker = .looping := by simpa [hw] using hworker
    have hout := h.flags.looping.mpr (LoopPhase.point_outside hpoint)
    rw [h.inside hlooping] at hout
    cases hout
  · simp [LoopStep.thread] at hother

private theorem use_staged (h : s.Staged) {a : LoopStep φ} (hu : s.MayUse a) (ht : s.use a = .ok t) : t.Staged := by
  obtain ⟨m,hm,hcase⟩ := use_eq ht
  obtain ⟨m',hm',hflags,hconserved⟩ := EventLoop.code_keeps h.flags h.conserved hu.1
  rw [hm] at hm'
  cases hm'
  have hout : s.worker ≠ .absent ∧ s.worker ≠ .constructing := by
    rcases hu.2 with ⟨-,hw⟩ | ⟨-,hw⟩ <;> constructor <;> rintro hw' <;> simp [hw'] at hw
  rcases hcase with ⟨hlooping,-,rfl⟩ | ⟨hinside,rfl⟩
  · refine ⟨hflags,hconserved,fun hc => (hout.1 (h.created hc)).elim,by simp,nofun,?_⟩
    simp [h.published,hlooping]
  · refine ⟨hflags,hconserved,h.created,?_,hinside,h.published⟩
    intro hw
    have hentering : s.worker = .entering := by simpa [hout] using hw
    have hno := h.before (by simp [hentering])
    have hstill := (EventLoop.flags_of_code (hu.ne_loop h (by simp [hentering])) hm).1
    rw [hno] at hstill
    exact Bool.eq_false_iff.mpr fun hl => by cases hstill hl

/-- The owner's two statements on the loop object leave its flags and its functors alone. -/
theorem owner_staged (h : s.Staged) {m : EventLoop φ} {point : OwnerPoint}
    (hm : s.loop.code (.quit s.ownerThread) = .ok m ∨ s.loop.code (.leaveQuit s.ownerThread) = .ok m)
    (hp : point ≠ .created) : ({ s with loop := m, owner := point } : EventLoopThread φ).Staged := by
  have hkeep : m.looping = s.loop.looping ∧ m.Flags ∧ m.Conserved := by
    obtain ⟨hlooping,hhandling,hcalling⟩ := h.flags
    have hc := h.conserved
    rcases hm with hm | hm
    · cases hm
      split <;> exact ⟨rfl,⟨hlooping,hhandling,hcalling⟩,hc.of_eq rfl rfl rfl rfl rfl⟩
    · cases hm
      exact ⟨rfl,⟨hlooping,hhandling,hcalling⟩,hc.of_eq rfl rfl rfl rfl rfl⟩
  obtain ⟨hlooping,hflags,hconserved⟩ := hkeep
  refine ⟨hflags,hconserved,fun hc => (hp hc).elim,?_,?_,h.published⟩
  · intro hw
    exact hlooping.trans (h.before hw)
  · intro hw
    exact hlooping.trans (h.inside hw)

private theorem step_staged (s t : EventLoopThread φ) (a : ThreadStep φ) (h : s.Staged) (he : machine.Enabled s a)
    (ht : machine.step s a = .ok t) : t.Staged := by
  obtain ⟨hflags,hconserved,hcreated,hbefore,hinside,hpublished⟩ := h
  cases a with
  | start =>
    have hw := hcreated he
    cases ht
    exact ⟨hflags,hconserved,nofun,fun _ => hbefore (by simp [hw]),nofun,by simp [hpublished,hw]⟩
  | returnLoop | exit | join =>
    cases ht
    exact ⟨hflags,hconserved,nofun,hbefore,hinside,hpublished⟩
  | testLoop =>
    cases ht
    exact ⟨hflags,hconserved,by dsimp only; split <;> nofun,hbefore,hinside,hpublished⟩
  | quit =>
    obtain ⟨-,-,ht⟩ := bind_eq_ok ht
    obtain ⟨u,hu,ht⟩ := bind_eq_ok ht
    obtain ⟨m,hm,rfl⟩ := onLoop_eq hu
    cases ht
    exact owner_staged ⟨hflags,hconserved,hcreated,hbefore,hinside,hpublished⟩ (.inl hm) nofun
  | wakeup =>
    obtain ⟨-,-,ht⟩ := bind_eq_ok ht
    obtain ⟨u,hu,ht⟩ := bind_eq_ok ht
    obtain ⟨m,hm,rfl⟩ := onLoop_eq hu
    cases ht
    exact owner_staged ⟨hflags,hconserved,hcreated,hbefore,hinside,hpublished⟩ (.inr hm) nofun
  | construct =>
    have hw : s.worker = .constructing := he
    cases ht
    exact ⟨hflags,hconserved,fun hc => by simp [hcreated hc] at hw,by simp,nofun,by simp [hpublished,hw]⟩
  | publish =>
    obtain ⟨hw,-,hpoint⟩ := he
    cases ht
    refine ⟨hflags,hconserved,fun hc => by simp [hcreated hc] at hw,fun _ => ?_,nofun,by simp⟩
    exact hflags.looping.mpr (LoopPhase.point_outside hpoint)
  | enter =>
    have hw : s.worker = .entering := he
    have hout := hflags.looping.mp (hbefore (by simp [hw]))
    obtain ⟨u,hu,ht⟩ := bind_eq_ok ht
    obtain ⟨m,hm,rfl⟩ := onLoop_eq hu
    obtain ⟨hloop,hfl,hco⟩ := EventLoop.loop_keeps hflags hconserved hout
    rw [hloop] at hm
    cases hm
    cases ht
    exact ⟨hfl,hco,fun hc => by simp [hcreated hc] at hw,by simp,fun _ => rfl,by simp [hpublished,hw]⟩
  | clear =>
    have hw : s.worker = .left := he
    cases ht
    exact ⟨hflags,hconserved,fun hc => by simp [hcreated hc] at hw,by simp,nofun,by simp⟩
  | destruct =>
    have hw : s.worker = .cleared := he
    cases ht
    exact ⟨hflags,hconserved,fun hc => by simp [hcreated hc] at hw,by simp,nofun,by simp [hpublished,hw]⟩
  | use a => exact use_staged ⟨hflags,hconserved,hcreated,hbefore,hinside,hpublished⟩ he ht

/-- `quit()` has set the flag, and the worker is past the statement that clears it. -/
private def Requested (s : EventLoopThread φ) : Prop :=
  s.owner ∈ [.quitting,.joining,.done] ∧ s.worker ∈ [.looping,.left,.cleared,.ended] ∧ s.loop.quit = true

private theorem step_requested (s t : EventLoopThread φ) (a : ThreadStep φ) (hs : s.Staged) (h : s.Requested)
    (he : machine.Enabled s a) (ht : machine.step s a = .ok t) : t.Requested := by
  obtain ⟨howner,hworker,hquit⟩ := h
  cases a with
  | start | exit | testLoop | quit | returnLoop => simp [machine,Enabled] at he; simp [he] at howner
  | construct | publish | enter => simp [machine,Enabled] at he; simp [he] at hworker
  | wakeup =>
    obtain ⟨-,-,ht⟩ := bind_eq_ok ht
    obtain ⟨u,hu,ht⟩ := bind_eq_ok ht
    obtain ⟨m,hm,rfl⟩ := onLoop_eq hu
    cases ht
    exact ⟨by simp,hworker,(EventLoop.flags_of_code (by simp) hm).2 hquit⟩
  | join =>
    cases ht
    exact ⟨by simp,hworker,hquit⟩
  | clear | destruct =>
    cases ht
    exact ⟨howner,by simp,hquit⟩
  | use a =>
    have hcallback : s.worker ≠ .callback := fun hw => by simp [hw] at hworker
    obtain ⟨m,hm,hcase⟩ := use_eq ht
    have hkept := (EventLoop.flags_of_code (MayUse.ne_loop hs he hcallback) hm).2 hquit
    rcases hcase with ⟨-,-,rfl⟩ | ⟨-,rfl⟩
    · exact ⟨howner,by simp,hkept⟩
    · exact ⟨howner,hworker,hkept⟩

private theorem quit_requested (hs : s.Staged) (hw : s.worker ≠ .entering)
    (ht : machine.step s .quit = .ok t) : t.Requested := by
  obtain ⟨_,hpub,ht⟩ := bind_eq_ok ht
  obtain ⟨u,hu,ht⟩ := bind_eq_ok ht
  obtain ⟨m,hm,rfl⟩ := onLoop_eq hu
  cases ht
  have hpublished : s.published = true := by
    by_contra hno
    rw [require_neg hno] at hpub
    cases hpub
  have hworker : s.worker = .looping ∨ s.worker = .left := by simpa [hw] using hs.published.mp hpublished
  refine ⟨by simp,by rcases hworker with h | h <;> simp [h],?_⟩
  cases hm
  split <;> rfl

/-- `quit()` on a loop whose thread has not entered `loop()` yet: the head of `loop()` comes
last and clears the flag. -/
theorem enter_after_quit (hs : s.Staged) (howner : s.owner = .tested) (hw : s.worker = .entering) :
    machine.Admissible s [.quit,.wakeup,.enter] ∧ ∃ t, machine.exec s [.quit,.wakeup,.enter] = .ok t ∧
      t.owner = .joining ∧ t.worker = .looping ∧ t.loop.quit = false := by
  have hpub : s.published = true := hs.published.mpr (by simp [hw])
  have hout : s.loop.looping = false := hs.before (by simp [hw])
  obtain ⟨s₁,h₁,howner₁,hw₁,hout₁⟩ : ∃ s₁, machine.step s .quit = .ok s₁ ∧ s₁.owner = .quitting ∧
      s₁.worker = .entering ∧ s₁.loop.looping = false := by
    change ∃ s₁, (require _ _ >>= _) = _ ∧ _
    rw [require_pos hpub]
    refine ⟨_,rfl,rfl,hw,?_⟩
    dsimp only
    split <;> exact hout
  obtain ⟨s₂,h₂,howner₂,hw₂,hout₂⟩ : ∃ s₂, machine.step s₁ .wakeup = .ok s₂ ∧ s₂.owner = .joining ∧
      s₂.worker = .entering ∧ s₂.loop.looping = false := by
    change ∃ s₂, (require _ _ >>= _) = _ ∧ _
    rw [require_pos (by simp [hw₁])]
    exact ⟨_,rfl,rfl,hw₁,hout₁⟩
  obtain ⟨s₃,h₃,howner₃,hw₃,hquit₃⟩ : ∃ s₃, machine.step s₂ .enter = .ok s₃ ∧ s₃.owner = .joining ∧
      s₃.worker = .looping ∧ s₃.loop.quit = false := by
    change ∃ s₃, ((require _ _ >>= _).mapError _ >>= _) >>= _ = _ ∧ _
    rw [require_pos hout₂]
    exact ⟨_,rfl,howner₂,rfl,rfl⟩
  refine ⟨⟨howner,?_⟩,s₃,?_,howner₃,hw₃,hquit₃⟩
  · rw [h₁]
    refine ⟨howner₁,?_⟩
    rw [h₂]
    refine ⟨hw₂,?_⟩
    rw [h₃]
    trivial
  · simp only [Machine.exec,h₁,h₂,h₃,bind_ok]

/-- After the destructor's `quit()` the flag stays set until the worker has left `loop()`, in
every continuation of the run, exactly when the worker had cleared it before. -/
theorem quit_request_kept_iff (ownerThread pid : Nat) (before : List (ThreadStep φ)) (s : EventLoopThread φ)
    (ha : machine.Admissible (new ownerThread pid) (before ++ [.quit]))
    (hs : machine.exec (new ownerThread pid) before = .ok s) :
    (∀ after t, machine.Admissible (new ownerThread pid) (before ++ .quit :: after) →
      machine.exec (new ownerThread pid) (before ++ .quit :: after) = .ok t → t.owner = .joining →
      t.worker = .entering ∨ t.worker = .looping → t.loop.quit = true) ↔ s.worker ≠ .entering := by
  obtain ⟨hbefore,howner,-⟩ := machine.admissible_append ha hs
  have hstaged := machine.exec_ok_invariant step_staged (new_staged ownerThread pid) hbefore hs
  constructor
  · intro hkept hw
    obtain ⟨hrest,t,ht,hjoin,hlooping,hlost⟩ := enter_after_quit hstaged howner hw
    have hquit := hkept [.wakeup,.enter] t (machine.admissible_of_append hbefore hs hrest)
      ((machine.exec_append_ok hs _).trans ht) hjoin (.inr hlooping)
    rw [hlost] at hquit
    cases hquit
  · intro hw after t hafter ht _ _
    rw [machine.exec_append_ok hs] at ht
    have hrest := (machine.admissible_append hafter hs).2
    obtain ⟨u,hu,ht⟩ := bind_eq_ok ht
    have hinv := machine.exec_ok_invariant (I := fun s => s.Staged ∧ s.Requested)
      (fun s t a h he ht => ⟨step_staged s t a h.1 he ht,step_requested s t a h.1 h.2 he ht⟩)
      ⟨step_staged _ _ _ hstaged howner hu,quit_requested hstaged hw hu⟩
      (machine.admissible_step hrest hu) ht
    exact hinv.2.2.2

private def quitWhileLooping : List (ThreadStep Nat) :=
  [.start,.construct,.publish,.returnLoop,.enter,.use .test,.exit,.testLoop]

/-- The worker is blocked in its first `poll` when the thread object is destroyed. -/
theorem quit_request_kept_polling : ∃ s : EventLoopThread Nat,
    machine.Admissible (new 1 2) (quitWhileLooping ++ [.quit]) ∧ machine.exec (new 1 2) quitWhileLooping = .ok s ∧
    ((∀ after t, machine.Admissible (new 1 2) (quitWhileLooping ++ .quit :: after) →
      machine.exec (new 1 2) (quitWhileLooping ++ .quit :: after) = .ok t → t.owner = .joining →
      t.worker = .entering ∨ t.worker = .looping → t.loop.quit = true) ↔ s.worker ≠ .entering) := by
  have ha : machine.Admissible (new 1 2) (quitWhileLooping ++ [.quit]) := by decide +kernel
  obtain ⟨s,hs,-⟩ : ∃ s, machine.exec (new 1 2) quitWhileLooping = .ok s ∧ s.worker = .looping :=
    Meets.ok_of_no_error (Q := fun _ => False) (by decide +kernel) (fun _ => id)
  exact ⟨s,ha,hs,quit_request_kept_iff 1 2 quitWhileLooping s ha hs⟩

private def quitAtOnce : List (ThreadStep Nat) := [.start,.construct,.publish,.returnLoop,.exit,.testLoop]

/-- `startLoop()` returns and the destructor runs before the worker has entered `loop()`: the
owner waits in `join` for a loop that polls with `quit_` false. -/
theorem quit_request_lost : machine.Admissible (new 1 2) (quitAtOnce ++ .quit :: [.wakeup,.enter,.use .test]) ∧
    ∃ t, machine.exec (new 1 2) (quitAtOnce ++ .quit :: [.wakeup,.enter,.use .test]) = .ok t ∧
      t.owner = .joining ∧ t.worker = .looping ∧ t.loop.phase = .polling ∧ ¬ t.loop.quit = true := by
  refine ⟨by decide +kernel,?_⟩
  exact Meets.ok_of_no_error (Q := fun _ => False) (by decide +kernel) (fun _ => id)

end EventLoopThread
end LearningMuduo.Reactor
