import Kruspix.Common.RingArray
import Kruspix.Lib.DroppingQueue

/-!
# A ring array is a bounded queue

Over any sequence of operations the ring answers as the queue that drops its oldest item.
-/

namespace Kruspix.Common.RingArray

open Lib.Simulation Lib.DroppingQueue

variable {T : Type} {N : Nat}

/-- The output of a drain is what it returns and writes. `none` is a panic. -/
def step (r : RingArray T N) : Op T → Option (RingArray T N × Option (Nat × List T))
  | .push item => some (r.push item, none)
  | .clear => some (r.clear, none)
  | .drain dst => do
      let drained ← r.drain dst
      return (drained.2.2, some (drained.1, drained.2.1))

theorem slice_eq {l : List T} {start stop : Nat} (h : start ≤ stop) (hstop : stop ≤ l.length) :
    slice l start stop = some ((l.take stop).drop start) := if_pos ⟨h, hstop⟩

theorem isEmpty_iff (r : RingArray T N) : r.isEmpty = true ↔ r.items = [] := by
  have hlt := r.index_lt
  rw [← List.length_eq_zero_iff, length_items, isEmpty, len]
  cases r.full
  · simp
  · simp
    omega

theorem copyFromSlice_front {dst src : List T} {stop : Nat} (hstop : stop ≤ dst.length)
    (hsrc : src.length = stop) : copyFromSlice dst 0 stop src = some (src ++ dst.drop stop) := by
  rw [copyFromSlice, if_pos ⟨Nat.zero_le _, hstop, hsrc⟩, List.take_zero, List.nil_append]

theorem copyFromSlice_back {front src dst : List T} {start stop : Nat}
    (hfront : front.length = start) (hsrc : start + src.length = stop) (hdst : stop ≤ dst.length) :
    copyFromSlice (front ++ dst.drop start) start stop src =
      some (front ++ src ++ dst.drop stop) := by
  have hlen : (front ++ dst.drop start).length = dst.length := by
    rw [List.length_append, List.length_drop, hfront]
    omega
  have hdrop : (front ++ dst.drop start).drop stop = dst.drop stop := by
    rw [List.drop_append, List.drop_of_length_le (by omega), List.nil_append, List.drop_drop,
      hfront]
    congr 1
    omega
  rw [copyFromSlice, if_pos ⟨by omega, by omega, by omega⟩, List.take_left' hfront, hdrop]

theorem len_and_items_of_not_full {r : RingArray T N} (h : r.full = false) :
    r.len = r.index ∧ r.items = r.buffer.toList.take r.index := by
  rw [len, items, h, if_neg Bool.false_ne_true, if_neg Bool.false_ne_true]
  exact ⟨rfl, rfl⟩

theorem len_and_items_of_full {r : RingArray T N} (h : r.full = true) :
    r.len = N ∧ r.items = r.buffer.toList.drop r.index ++ r.buffer.toList.take r.index := by
  rw [len, items, h, if_pos rfl, if_pos rfl]
  exact ⟨rfl, rfl⟩

/-- Nothing can be written to an empty list but the items of an empty ring. -/
theorem isEmpty_of_nil {r : RingArray T N} (h : r.len ≤ ([] : List T).length) :
    r.isEmpty = true := by
  rw [isEmpty_iff, ← List.length_eq_zero_iff, length_items]
  exact Nat.le_zero.mp h

/-- Both parts of the copy together are the items of the ring. -/
theorem drain_eq (r : RingArray T N) {dst : List T} (h : r.len ≤ dst.length) :
    ∃ r', r.drain dst = some (r.len, r.items ++ dst.drop r.len, r') ∧ r'.items = [] := by
  have hlt := r.index_lt
  have hbuffer := r.buffer.length_toList
  have hguard : (guard (r.len ≤ dst.length) : Option Unit) = some () := if_pos h
  rw [drain, hguard]
  simp only [Option.bind_eq_bind, Option.bind_some]
  by_cases hempty : r.isEmpty = true
  · have hitems := r.isEmpty_iff.mp hempty
    have hlen : r.len = 0 := by rw [← length_items, hitems, List.length_nil]
    refine ⟨r, ?_, hitems⟩
    rw [hempty, Bool.or_true, if_pos rfl, hitems, hlen, List.drop_zero, List.nil_append]
    rfl
  have hdst : dst.isEmpty = false := by
    cases dst with
    | nil => exact absurd (isEmpty_of_nil h) hempty
    | cons item dst => rfl
  refine ⟨r.clear, ?_, items_clear r⟩
  rw [hdst, Bool.false_or, if_neg hempty]
  cases hfull : r.full with
  | false =>
      obtain ⟨hlen, hitems⟩ := len_and_items_of_not_full hfull
      have hsrc : (r.buffer.toList.take r.index).length = r.index := by
        rw [List.length_take, Nat.min_eq_left (by omega)]
      rw [hlen] at h ⊢
      simp only [if_neg Bool.false_ne_true, Nat.sub_zero, Nat.min_eq_left h,
        Nat.min_eq_right hlt.le, Nat.zero_add, gt_iff_lt, if_neg (Nat.lt_irrefl _)]
      rw [slice_eq (Nat.zero_le _) (by omega), Option.bind_some, List.drop_zero,
        copyFromSlice_front h hsrc, hitems]
      rfl
  | true =>
      obtain ⟨hlen, hitems⟩ := len_and_items_of_full hfull
      rw [hlen] at h ⊢
      have hsrc : (r.buffer.toList.drop r.index).length = N - r.index := by
        rw [List.length_drop, hbuffer]
      have hback : (r.buffer.toList.take N).drop r.index = r.buffer.toList.drop r.index := by
        rw [List.take_of_length_le hbuffer.le]
      simp only [if_pos, Nat.min_eq_left h, Nat.min_eq_left (Nat.sub_le N r.index),
        Nat.add_sub_cancel' hlt.le, Nat.sub_sub_self hlt.le]
      rw [slice_eq hlt.le hbuffer.ge, Option.bind_some, hback,
        @copyFromSlice_front T dst _ (N - r.index) ((Nat.sub_le _ _).trans h) hsrc,
        Option.bind_some]
      by_cases hwrap : N > N - r.index
      · have hfront : (r.buffer.toList.take r.index).length = r.index := by
          rw [List.length_take, hbuffer, Nat.min_eq_left hlt.le]
        rw [if_pos hwrap, slice_eq (Nat.zero_le _) (by omega), Option.bind_some, List.drop_zero,
          copyFromSlice_back hsrc (by omega) h, hitems]
        rfl
      · have hindex : r.index = 0 := by omega
        rw [if_neg hwrap, hitems, hindex, List.take_zero, List.append_nil]
        rfl

theorem drain_eq_none (r : RingArray T N) {dst : List T} (h : ¬ r.len ≤ dst.length) :
    r.drain dst = none := by
  have hguard : (guard (r.len ≤ dst.length) : Option Unit) = none := if_neg h
  rw [drain, hguard]
  rfl

/-- Each operation answers as the queue does. -/
theorem step_alike {r : RingArray T N} {q : Queue T N} (op : Op T) (h : r.items = q.items) :
    Alike (fun r (q : Queue T N) => r.items = q.items) (r.step op) (q.step op) := by
  cases op with
  | push item =>
      refine .some ⟨?_, rfl⟩
      change (r.push item).items = (q.items ++ [item]).rtake N
      rw [← h]
      exact items_foldl_push r [item]
  | clear => exact .some ⟨rfl, rfl⟩
  | drain dst =>
      have hlen : r.len = q.items.length := by rw [← length_items, h]
      by_cases hroom : r.len ≤ dst.length
      · obtain ⟨r', hdrain, hempty⟩ := r.drain_eq hroom
        have hstep : r.step (.drain dst) =
            some (r', some (r.len, r.items ++ dst.drop r.len)) := by
          rw [step, hdrain]
          rfl
        rw [hstep, Queue.step, ← h, length_items, if_pos hroom]
        exact .some ⟨hempty, rfl⟩
      · have hstep : r.step (.drain dst) = none := by
          rw [step, r.drain_eq_none hroom]
          rfl
        rw [hstep, Queue.step, if_neg (hlen ▸ hroom)]
        exact .none

/-- What the ring shows of the queue it stands for. -/
structure Shows (r : RingArray T N) (queue : List T) : Prop where
  len : r.len = queue.length
  isEmpty : r.isEmpty = true ↔ queue = []
  isFull : r.isFull = true ↔ queue.length = N
  iter : r.iter.collect = queue

theorem shows_items (r : RingArray T N) : Shows r r.items where
  len := r.length_items.symm
  isEmpty := r.isEmpty_iff
  isFull := r.full_iff
  iter := r.iter_collect

/-- Over any operations the ring answers as the queue that drops its oldest item. It refuses
the same drains, and else shows the last items pushed since the last clear or drain. -/
theorem run_refines (fillValue : T) (h : 0 < N) (ops : List (Op T)) :
    (run step (new fillValue h) ops = none ↔ run Queue.step (Queue.empty (N := N)) ops = none) ∧
    ∀ r outputs, run step (new fillValue h) ops = some (r, outputs) →
      ∃ q : Queue T N, run Queue.step Queue.empty ops = some (q, outputs) ∧
        q.items = (recent [] ops).rtake N ∧ q.items.length = min N (recent [] ops).length ∧
        Shows r q.items := by
  have hempty : (new fillValue h).items = (Queue.empty : Queue T N).items := rfl
  have halike := run_alike (fun _ _ op hrel => step_alike op hrel) hempty ops
  rcases halike.cases with ⟨hring, hqueue⟩ | ⟨r, q, outputs, hring, hqueue, hitems⟩
  · rw [hring, hqueue]
    exact ⟨iff_of_true rfl rfl, fun r outputs hr => by cases hr⟩
  · rw [hring, hqueue]
    refine ⟨iff_of_false (fun h => by cases h) (fun h => by cases h), ?_⟩
    intro r' outputs' hr
    cases hr
    have hqueue' := run_items (List.rtake_nil N).symm hqueue
    refine ⟨q, rfl, hqueue', ?_, hitems ▸ r.shows_items⟩
    rw [hqueue', length_rtake]

/-- Four items go through a ring of three, which is then drained. -/
theorem run_refines_three :
    0 < 3 ∧ ∃ (r : RingArray Nat 3) (q : Queue Nat 3),
      run step (new 0 (by decide)) [.push 1, .push 2, .push 3, .push 4, .drain [0, 0, 0, 9],
        .push 5] = some (r, [none, none, none, none, some (3, [2, 3, 4, 9]), none]) ∧
      q.items = [5] ∧ Shows r q.items := by
  refine ⟨by decide, ?_⟩
  obtain ⟨⟨r, outputs⟩, hr, houtputs⟩ : ∃ answer, run step (new 0 (by decide : 0 < 3))
      [.push 1, .push 2, .push 3, .push 4, .drain [0, 0, 0, 9], .push 5] = some answer ∧
      answer.2 = [none, none, none, none, some (3, [2, 3, 4, 9]), none] := by
    refine Option.map_eq_some_iff.mp ?_
    decide +kernel
  dsimp only at houtputs
  subst houtputs
  obtain ⟨q, _, hitems, _, hshows⟩ := (run_refines 0 (by decide) _).2 r _ hr
  exact ⟨r, q, hr, hitems, hshows⟩

end Kruspix.Common.RingArray
