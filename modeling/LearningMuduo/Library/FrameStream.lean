import Mathlib.Algebra.Order.Ring.Int

/-! Decoders of a stream that arrives in pieces: items, what is kept for later, and how
the items fall into the pieces. -/
namespace LearningMuduo.Library
variable {α β ε : Type}

/-- What the head of the input says: nothing yet, an item and the number of elements it
takes, or that decoding cannot go on. -/
inductive Head (β ε : Type) where
  | wait
  | item (b : β) (n : Nat)
  | stop (e : ε)
  deriving DecidableEq, Repr

/-- A decoder decides on the head of its input, and what arrives later never changes a
decision already taken. -/
structure Decoder (α β ε : Type) where
  head : List α → Head β ε
  nil_waits : head [] = .wait
  item_bound : ∀ {xs b n}, head xs = .item b n → 0 < n ∧ n ≤ xs.length
  stable : ∀ {xs}, head xs ≠ .wait → ∀ ys, head (xs ++ ys) = head xs

/-- The outcome of decoding as far as the input allows. -/
structure Drained (α β ε : Type) where
  items : List β
  stop : Option ε
  rest : List α

namespace Drained

/-- What is kept for the next piece; `onStop` is the reaction to a stop. -/
def kept (r : Drained α β ε) (onStop : ε → List α → List α) : List α :=
  match r.stop with
  | none => r.rest
  | some e => onStop e r.rest

end Drained

namespace Decoder
variable (d : Decoder α β ε)

/-- A frame has at least one byte. -/
theorem drop_lt {d : Decoder α β ε} {xs : List α} {b : β} {n : Nat} (h : d.head xs = .item b n) :
    (xs.drop n).length < xs.length := by
  obtain ⟨hp,hn⟩ := d.item_bound h
  rw [List.length_drop]
  omega

/-- Decode item after item until the head waits or stops. -/
def drain (xs : List α) : Drained α β ε :=
  match h : d.head xs with
  | .wait => ⟨[],none,xs⟩
  | .stop e => ⟨[],some e,xs⟩
  | .item b n =>
    have := drop_lt h
    let r := drain (xs.drop n)
    ⟨b :: r.items,r.stop,r.rest⟩
termination_by xs.length
decreasing_by exact this

/-- Drain after each piece, on what the earlier ones left: the items and the stop of
each drain, and what is kept at the end. -/
def feed (onStop : ε → List α → List α) : List α → List (List α) → List (List β × Option ε) × List α
  | buf,[] => ([],buf)
  | buf,c :: cs =>
    let r := d.drain (buf ++ c)
    let later := feed onStop (r.kept onStop) cs
    ((r.items,r.stop) :: later.1,later.2)

variable {d}

/-- Every chunk is answered. -/
theorem length_feed (onStop : ε → List α → List α) (buf : List α) (cs : List (List α)) :
    (d.feed onStop buf cs).1.length = cs.length := by
  induction cs generalizing buf with
  | nil => rfl
  | cons c cs ih => rw [feed,List.length_cons,List.length_cons,ih]

/-- An incomplete frame stays where it is. -/
theorem drain_wait {xs : List α} (h : d.head xs = .wait) : d.drain xs = ⟨[],none,xs⟩ := by
  rw [drain]
  split
  · rfl
  · next he => rw [h] at he; cases he
  · next he => rw [h] at he; cases he

/-- An error stops the drain where it is found. -/
theorem drain_stop {xs : List α} {e : ε} (h : d.head xs = .stop e) :
    d.drain xs = ⟨[],some e,xs⟩ := by
  rw [drain]
  split
  · next he => rw [h] at he; cases he
  · next he => rw [h] at he; cases he; rfl
  · next he => rw [h] at he; cases he

/-- A frame is handed over and the drain goes on behind it. -/
theorem drain_item {xs : List α} {b : β} {n : Nat} (h : d.head xs = .item b n) :
    d.drain xs = ⟨b :: (d.drain (xs.drop n)).items,(d.drain (xs.drop n)).stop,
      (d.drain (xs.drop n)).rest⟩ := by
  rw [drain]
  split
  · next he => rw [h] at he; cases he
  · next he => rw [h] at he; cases he
  · next he => rw [h] at he; cases he; rfl

/-- What is left after a drain waits, or stops for the reason the drain gave. -/
theorem head_drain_rest (d : Decoder α β ε) (xs : List α) :
    d.head (d.drain xs).rest = (d.drain xs).stop.elim .wait .stop := by
  cases h : d.head xs with
  | wait => rw [drain_wait h]; exact h
  | stop e => rw [drain_stop h]; exact h
  | item b n =>
    have hr := head_drain_rest d (xs.drop n)
    rw [drain_item h]
    exact hr
termination_by xs.length
decreasing_by exact drop_lt h

/-- What a drain leaves is the end of its input. -/
theorem drain_rest_suffix (d : Decoder α β ε) (xs : List α) : (d.drain xs).rest <:+ xs := by
  cases h : d.head xs with
  | wait => exact ⟨[],(List.nil_append _).trans (congrArg Drained.rest (drain_wait h))⟩
  | stop e => exact ⟨[],(List.nil_append _).trans (congrArg Drained.rest (drain_stop h))⟩
  | item b n =>
    rw [drain_item h]
    exact (drain_rest_suffix d (xs.drop n)).trans (List.drop_suffix n xs)
termination_by xs.length
decreasing_by exact drop_lt h

/-- Later input continues a drain that only waited, and adds nothing to one that stopped. -/
theorem drain_append (d : Decoder α β ε) (xs ys : List α) :
    d.drain (xs ++ ys) =
      ⟨(d.drain xs).items ++ (d.drain ((d.drain xs).rest ++ ys)).items,
        (d.drain ((d.drain xs).rest ++ ys)).stop,(d.drain ((d.drain xs).rest ++ ys)).rest⟩ := by
  cases h : d.head xs with
  | wait => rw [drain_wait h]; rfl
  | stop e => rw [drain_stop h]; rfl
  | item b n =>
    have hr := drain_append d (xs.drop n) ys
    have hh : d.head (xs ++ ys) = .item b n := by rw [d.stable (by rw [h]; nofun),h]
    rw [drain_item hh,drain_item h,List.drop_append_of_le_length (d.item_bound h).2,hr]
    rfl
termination_by xs.length
decreasing_by exact drop_lt h

/-- Once decoding has stopped and the input is kept, every later drain stops at once for
the same reason. -/
theorem feed_stopped {buf : List α} {e : ε} (h : d.head buf = .stop e) (cs : List (List α)) :
    d.feed (fun _ rest => rest) buf cs = (cs.map fun _ => ([],some e),buf ++ cs.flatten) := by
  induction cs generalizing buf with
  | nil => rw [feed,List.flatten_nil,List.append_nil]; rfl
  | cons c cs ih =>
    have hc : d.head (buf ++ c) = .stop e := by rw [d.stable (by rw [h]; nofun),h]
    simp only [feed,drain_stop hc,Drained.kept,ih hc,List.map_cons,List.flatten_cons,List.append_assoc]

/-- A stream fed in pieces, its input kept at a stop, yields what one drain of the whole
stream yields. -/
theorem feed_flatten {buf : List α} (h : d.head buf = .wait) (cs : List (List α)) :
    ((d.feed (fun _ rest => rest) buf cs).1.map Prod.fst).flatten = (d.drain (buf ++ cs.flatten)).items ∧
    ((d.feed (fun _ rest => rest) buf cs).1.filterMap Prod.snd).head? = (d.drain (buf ++ cs.flatten)).stop ∧
    (d.feed (fun _ rest => rest) buf cs).2 = (d.drain (buf ++ cs.flatten)).rest := by
  induction cs generalizing buf with
  | nil =>
    rw [List.flatten_nil,List.append_nil,drain_wait h]
    exact ⟨rfl,rfl,rfl⟩
  | cons c cs ih =>
    have hr := head_drain_rest d (buf ++ c)
    rw [List.flatten_cons,← List.append_assoc,drain_append]
    cases hs : (d.drain (buf ++ c)).stop with
    | none =>
      rw [hs] at hr
      obtain ⟨hi,he,hk⟩ := ih hr
      simp only [feed,Drained.kept,hs,List.map_cons,List.flatten_cons,hi,hk,List.filterMap_cons_none,he,
        and_self]
    | some e =>
      rw [hs] at hr
      have hl : d.head ((d.drain (buf ++ c)).rest ++ cs.flatten) = .stop e := by
        rw [d.stable (by rw [hr]; nofun),hr]
        rfl
      rw [drain_stop hl]
      simp [feed,Drained.kept,hs,feed_stopped hr]

/-- After the drain that stops, no drain yields an item. -/
theorem feed_silent_after_stop {buf : List α} (h : d.head buf = .wait) (cs : List (List α)) :
    (d.feed (fun _ rest => rest) buf cs).1.Pairwise fun out later => out.2.isSome → later.1 = [] := by
  induction cs generalizing buf with
  | nil => exact List.Pairwise.nil
  | cons c cs ih =>
    have hr := head_drain_rest d (buf ++ c)
    cases hs : (d.drain (buf ++ c)).stop with
    | none =>
      rw [hs] at hr
      simp only [feed,Drained.kept,hs]
      exact List.pairwise_cons.mpr ⟨fun _ _ hn => (Bool.noConfusion hn),ih hr⟩
    | some e =>
      rw [hs] at hr
      simp only [feed,Drained.kept,hs,feed_stopped hr]
      have hall : ∀ later ∈ (cs.map fun _ => (([],some e) : List β × Option ε)), later.1 = [] := by
        intro later hm
        obtain ⟨-,-,rfl⟩ := List.mem_map.mp hm
        rfl
      refine List.pairwise_cons.mpr ⟨fun later hm _ => hall later hm,?_⟩
      exact List.pairwise_of_forall_mem_list fun _ _ later hm _ => hall later hm

end Decoder

/-- Items in a row that take up `size` elements each, with the number of elements up to
the end of each one; the first begins after n elements. -/
def ends (size : β → Nat) : Nat → List β → List (β × Nat)
  | _,[] => []
  | n,b :: bs => (b,n + size b) :: ends size (n + size b) bs

/-- The items whose last element is among the elements after lo and up to hi. -/
def endingIn (size : β → Nat) (lo hi : Nat) (bs : List β) : List β :=
  ((ends size 0 bs).filter fun e => lo < e.2 ∧ e.2 ≤ hi).map Prod.fst

/-- For each piece of a stream the items that end in it; the first piece begins after lo
elements. -/
def arrivals (size : β → Nat) (bs : List β) : Nat → List (List α) → List (List β)
  | _,[] => []
  | lo,c :: cs => endingIn size lo (lo + c.length) bs :: arrivals size bs (lo + c.length) cs

/-- There is one arrival for each chunk. -/
@[simp] theorem length_arrivals (size : β → Nat) (bs : List β) (lo : Nat) (cs : List (List α)) :
    (arrivals size bs lo cs).length = cs.length := by
  induction cs generalizing lo with
  | nil => rfl
  | cons c cs ih => rw [arrivals,List.length_cons,List.length_cons,ih]

section Ends
variable {size : β → Nat}

/-- The frames with their ends are the frames. -/
@[simp] theorem map_fst_ends (n : Nat) (bs : List β) : (ends size n bs).map Prod.fst = bs := by
  induction bs generalizing n with
  | nil => rfl
  | cons b bs ih => rw [ends,List.map_cons,ih]

private theorem ends_append (n : Nat) (bs cs : List β) :
    ends size n (bs ++ cs) = ends size n bs ++ ends size (n + (bs.map size).sum) cs := by
  induction bs generalizing n with
  | nil => simp [ends]
  | cons b bs ih =>
    simp only [List.cons_append,ends,ih,List.map_cons,List.sum_cons]
    rw [Nat.add_assoc]

private theorem ends_le {n : Nat} {bs : List β} {e : β × Nat} (he : e ∈ ends size n bs) :
    e.2 ≤ n + (bs.map size).sum := by
  induction bs generalizing n with
  | nil => cases he
  | cons b bs ih =>
    simp only [List.map_cons,List.sum_cons]
    rcases List.mem_cons.mp he with rfl | he
    · exact Nat.add_le_add_left (Nat.le_add_right _ _) n
    · have hl := ih he
      omega

private theorem le_ends {n : Nat} {bs : List β} {e : β × Nat} (he : e ∈ ends size n bs) : n ≤ e.2 := by
  induction bs generalizing n with
  | nil => cases he
  | cons b bs ih =>
    rcases List.mem_cons.mp he with rfl | he
    · exact Nat.le_add_right n (size b)
    · have hl := ih he
      omega

/-- If k elements do not complete the first item, they complete none. -/
theorem lt_ends {n k : Nat} {bs : List β} (hk : ∀ b ∈ bs.head?, k < size b) {e : β × Nat}
    (he : e ∈ ends size n bs) : n + k < e.2 := by
  cases bs with
  | nil => cases he
  | cons b bs =>
    have hb : k < size b := hk b rfl
    rcases List.mem_cons.mp he with rfl | he
    · exact Nat.add_lt_add_left hb n
    · have hl := le_ends he
      omega

/-- The window that begins inside the item after `done` and ends inside the item after
`now` holds the ends of the items `now`. -/
theorem endingIn_middle {done now later : List β} {k p lo hi : Nat}
    (hk : ∀ b ∈ (now ++ later).head?, k < size b) (hp : ∀ b ∈ later.head?, p < size b)
    (hlo : lo = (done.map size).sum + k) (hhi : hi = (done.map size).sum + (now.map size).sum + p) :
    endingIn size lo hi (done ++ (now ++ later)) = now := by
  have hdone : ((ends size 0 done).filter fun e => lo < e.2 ∧ e.2 ≤ hi) = [] := by
    rw [List.filter_eq_nil_iff]
    intro e he
    have hl := ends_le he
    simp only [decide_eq_true_eq]
    omega
  have hnow : ((ends size (done.map size).sum now).filter fun e => lo < e.2 ∧ e.2 ≤ hi) =
      ends size (done.map size).sum now := by
    rw [List.filter_eq_self]
    intro e he
    have hl := ends_le he
    have hg : (done.map size).sum + k < e.2 :=
      lt_ends hk (by rw [ends_append]; exact List.mem_append_left _ he)
    simp only [decide_eq_true_eq]
    omega
  have hlater : ((ends size ((done.map size).sum + (now.map size).sum) later).filter
      fun e => lo < e.2 ∧ e.2 ≤ hi) = [] := by
    rw [List.filter_eq_nil_iff]
    intro e he
    have hg := lt_ends hp he
    simp only [decide_eq_true_eq]
    omega
  rw [endingIn,ends_append,ends_append,Nat.zero_add,List.filter_append,List.filter_append,hdone,hnow,
    hlater,List.nil_append,List.append_nil,map_fst_ends]

end Ends

namespace Decoder
variable {d : Decoder α β ε} {f : β → List α}

/-- Every item of the list decodes from its own frame and takes up all of it. -/
def Frames (d : Decoder α β ε) (f : β → List α) (bs : List β) : Prop :=
  ∀ b ∈ bs, d.head (f b) = .item b (f b).length

/-- A frame cut short says nothing yet: a decision on it would hold for the whole frame
too, but the item takes up more than is there. -/
theorem partial_frame_waits {b : β} (hb : d.head (f b) = .item b (f b).length) {xs ys : List α}
    (hf : xs ++ ys = f b) (hl : xs.length < (f b).length) : d.head xs = .wait := by
  by_contra hw
  have hi : d.head xs = .item b (f b).length := by rw [← d.stable hw ys,hf,hb]
  have hn := (d.item_bound hi).2
  omega

/-- Whole frames are drained in order, up to an incomplete one. -/
theorem drain_frames {bs : List β} (hb : d.Frames f bs) {xs : List α} (hx : d.head xs = .wait) :
    d.drain ((bs.map f).flatten ++ xs) = ⟨bs,none,xs⟩ := by
  induction bs with
  | nil => exact drain_wait hx
  | cons b bs ih =>
    have hf : d.head (f b) = .item b (f b).length := hb b List.mem_cons_self
    have hh : d.head (f b ++ ((bs.map f).flatten ++ xs)) = .item b (f b).length := by
      rw [d.stable (by rw [hf]; nofun),hf]
    rw [List.map_cons,List.flatten_cons,List.append_assoc,drain_item hh,List.drop_left,
      ih fun c hc => hb c (List.mem_cons_of_mem b hc)]

/-- A stream of frames cut after xs: whole frames and the beginning of the next one. -/
theorem cut_frames (f : β → List α) {bs : List β} {xs ys : List α}
    (h : xs ++ ys = (bs.map f).flatten) :
    ∃ now later p, bs = now ++ later ∧ xs = (now.map f).flatten ++ p ∧
      p ++ ys = (later.map f).flatten ∧ ∀ b ∈ later.head?, p.length < (f b).length := by
  induction bs generalizing xs with
  | nil => exact ⟨[],[],xs,rfl,rfl,h,nofun⟩
  | cons b bs ih =>
    rcases Nat.lt_or_ge xs.length (f b).length with hl | hl
    · refine ⟨[],b :: bs,xs,rfl,rfl,h,?_⟩
      rintro c ⟨⟩
      exact hl
    · rw [List.map_cons,List.flatten_cons] at h
      obtain ⟨zs,rfl⟩ : ∃ zs, xs = f b ++ zs := by
        obtain ⟨zs,hz,-⟩ | ⟨zs,hz,-⟩ := List.append_eq_append_iff.mp h
        · have hn : zs = [] := List.length_eq_zero_iff.mp (by rw [hz,List.length_append] at hl; omega)
          exact ⟨[],by rw [hz,hn,List.append_nil,List.append_nil]⟩
        · exact ⟨zs,hz⟩
      rw [List.append_assoc] at h
      obtain ⟨now,later,p,rfl,rfl,hr,hp⟩ := ih (List.append_cancel_left h)
      exact ⟨b :: now,later,p,rfl,by simp,hr,hp⟩

private theorem head_incomplete {bs : List β} (hb : d.Frames f bs) {p ys : List α}
    (h : p ++ ys = (bs.map f).flatten) (hp : ∀ b ∈ bs.head?, p.length < (f b).length) :
    d.head p = .wait := by
  cases bs with
  | nil =>
    have hn : p = [] := (List.append_eq_nil_iff.mp h).1
    rw [hn,d.nil_waits]
  | cons b bs =>
    have hl : p.length < (f b).length := hp b rfl
    rw [List.map_cons,List.flatten_cons] at h
    obtain ⟨zs,hz,-⟩ | ⟨zs,hz,-⟩ := List.append_eq_append_iff.mp h
    · exact partial_frame_waits (hb b List.mem_cons_self) hz.symm hl
    · rw [hz,List.length_append] at hl
      omega

/-- A buffer inside the frames still to come: their remainder arrives piece by piece, and
the buffer does not complete the first. -/
structure Awaits (f : β → List α) (bs : List β) (buf : List α) (cs : List (List α)) : Prop where
  stream : buf ++ cs.flatten = (bs.map f).flatten
  incomplete : ∀ b ∈ bs.head?, buf.length < (f b).length

/-- One piece: it completes the frames `now`, and what is left waits for the others. -/
theorem Awaits.next {bs : List β} {buf c : List α} {cs : List (List α)}
    (h : Awaits f bs buf (c :: cs)) (hb : d.Frames f bs) :
    ∃ now later p, bs = now ++ later ∧ d.drain (buf ++ c) = ⟨now,none,p⟩ ∧
      buf.length + c.length = (now.map fun b => (f b).length).sum + p.length ∧
      Awaits f later p cs := by
  have hs : (buf ++ c) ++ cs.flatten = (bs.map f).flatten := by
    rw [List.append_assoc,← List.flatten_cons]
    exact h.stream
  obtain ⟨now,later,p,rfl,hx,hr,hp⟩ := cut_frames f hs
  have hl : d.Frames f later := fun b hm => hb b (List.mem_append_right now hm)
  have hn : d.Frames f now := fun b hm => hb b (List.mem_append_left later hm)
  refine ⟨now,later,p,rfl,?_,?_,hr,hp⟩
  · rw [hx,drain_frames hn (head_incomplete hl hr hp)]
  · have hc := congrArg List.length hx
    simpa [List.length_flatten,Function.comp_def] using hc

/-- When all has arrived nothing is waited for. -/
theorem Awaits.last {bs : List β} {buf : List α} (h : Awaits f bs buf []) : bs = [] ∧ buf = [] := by
  have hs : buf = (bs.map f).flatten := by simpa using h.stream
  cases bs with
  | nil => exact ⟨rfl,hs⟩
  | cons b bs =>
    have hl : buf.length < (f b).length := h.incomplete b rfl
    rw [hs,List.map_cons,List.flatten_cons,List.length_append] at hl
    omega

private theorem feed_awaits (onStop : ε → List α → List α) {cs : List (List α)} (done : List β)
    (lo : Nat) {bs : List β} {buf : List α} (h : Awaits f bs buf cs) (hb : d.Frames f bs)
    (hlo : lo = (done.map fun b => (f b).length).sum + buf.length) :
    d.feed onStop buf cs =
        ((arrivals (fun b => (f b).length) (done ++ bs) lo cs).map (·,none),[]) ∧
      (arrivals (fun b => (f b).length) (done ++ bs) lo cs).flatten = bs := by
  induction cs generalizing done lo bs buf with
  | nil =>
    obtain ⟨rfl,rfl⟩ := h.last
    exact ⟨rfl,rfl⟩
  | cons c cs ih =>
    obtain ⟨now,later,p,rfl,hd,hl,hn⟩ := h.next hb
    have hw : endingIn (fun b => (f b).length) lo (lo + c.length) (done ++ (now ++ later)) = now :=
      endingIn_middle h.incomplete hn.incomplete hlo (by omega)
    obtain ⟨hf,ha⟩ := ih (done ++ now) (lo + c.length) hn
      (fun b hm => hb b (List.mem_append_right now hm))
      (by rw [List.map_append,List.sum_append]; omega)
    rw [List.append_assoc] at hf ha
    constructor
    · simp only [feed,arrivals,hw,hd,Drained.kept,hf,List.map_cons]
    · simp only [arrivals,hw,List.flatten_cons,ha]

/-- A stream of frames, however it is cut: each drain yields the items whose frames end
in its piece, all items come out once and in order, nothing stops, nothing is left. -/
theorem feed_frames (onStop : ε → List α → List α) {bs : List β} (hb : d.Frames f bs)
    {cs : List (List α)} (hc : cs.flatten = (bs.map f).flatten) :
    d.feed onStop [] cs = ((arrivals (fun b => (f b).length) bs 0 cs).map (·,none),[]) ∧
      (arrivals (fun b => (f b).length) bs 0 cs).flatten = bs := by
  have ha : Awaits f bs [] cs := by
    refine ⟨hc,?_⟩
    intro b hm
    have hf := hb b (List.mem_of_mem_head? hm)
    exact (d.item_bound hf).1
  exact feed_awaits onStop [] 0 ha hb rfl

end Decoder

end LearningMuduo.Library
