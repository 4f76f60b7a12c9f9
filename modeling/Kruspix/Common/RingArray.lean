import Mathlib.Data.List.Rotate

/-!
# Ring arrays

An array that is filled in a circle. Once it is full, a push overwrites the oldest item.
The items, the oldest first, are a queue that drops its oldest item when it is full.
-/

namespace Kruspix.Common

/-- A ring of `N` places: `index` is written next, and when the ring is `full` it holds the
oldest item. -/
structure RingArray (T : Type) (N : Nat) where
  buffer : Vector T N
  index : Nat
  full : Bool
  index_lt : index < N

/-- An iterator with the position of its next item and the number of those left. -/
structure RingArrayIter (T : Type) (N : Nat) where
  buffer : Vector T N
  pos : Nat
  count : Nat
  pos_lt : pos < N

variable {T : Type} {N : Nat}

namespace RingArrayIter

/-- The item at `pos`; the iterator then stands at the place after it. -/
def next (it : RingArrayIter T N) : Option (T × RingArrayIter T N) :=
  if it.count = 0 then none
  else
    some (it.buffer.get ⟨it.pos, it.pos_lt⟩,
      { it with
        pos := (it.pos + 1) % N
        count := it.count - 1
        pos_lt := Nat.mod_lt _ (Nat.zero_lt_of_lt it.pos_lt) })

/-- The items up to the end. -/
def collect (it : RingArrayIter T N) : List T :=
  match _h : it.next with
  | none => []
  | some (item, rest) => item :: rest.collect
termination_by it.count
decreasing_by
  simp only [next] at _h
  split at _h
  · cases _h
  · cases _h
    dsimp only
    omega

end RingArrayIter

namespace RingArray

/-- An empty ring. -/
def new (fillValue : T) (h : 0 < N) : RingArray T N := ⟨Vector.replicate N fillValue, 0, false, h⟩

/-- Write the item at `index`. In a full ring it replaces the oldest one. -/
def push (r : RingArray T N) (item : T) : RingArray T N where
  buffer := r.buffer.set r.index item r.index_lt
  index := (r.index + 1) % N
  full := if r.full then r.full else (r.index + 1) % N == 0
  index_lt := Nat.mod_lt _ (Nat.zero_lt_of_lt r.index_lt)

/-- The items stay in the buffer. -/
def clear (r : RingArray T N) : RingArray T N where
  buffer := r.buffer
  index := 0
  full := false
  index_lt := Nat.zero_lt_of_lt r.index_lt

/-- The number of items. -/
def len (r : RingArray T N) : Nat := if r.full then N else r.index

def isEmpty (r : RingArray T N) : Bool := !r.full && r.index == 0

def isFull (r : RingArray T N) : Bool := r.full

/-- An iterator that starts at the oldest item. -/
def iter (r : RingArray T N) : RingArrayIter T N where
  buffer := r.buffer
  pos := if r.full then r.index else 0
  count := r.len
  pos_lt := by
    split
    · exact r.index_lt
    · exact Nat.zero_lt_of_lt r.index_lt

/-- The part of a slice from `start` to `stop`. `none` is a panic. -/
def slice (l : List T) (start stop : Nat) : Option (List T) :=
  if start ≤ stop ∧ stop ≤ l.length then some ((l.take stop).drop start) else none

/-- `dst[start..stop]` becomes a copy of `src`. `none` is a panic. -/
def copyFromSlice (dst : List T) (start stop : Nat) (src : List T) : Option (List T) :=
  if start ≤ stop ∧ stop ≤ dst.length ∧ src.length = stop - start then
    some (dst.take start ++ src ++ dst.drop stop)
  else none

/-- The number of items, the list they are written to and the ring. `none` is a panic. -/
def drain (r : RingArray T N) (dst : List T) : Option (Nat × List T × RingArray T N) := do
  guard (r.len ≤ dst.length)
  if dst.isEmpty || r.isEmpty then return (0, dst, r)
  let len := min r.len dst.length
  let start := if r.full then r.index else 0
  let part := min (N - start) len
  let dst ← copyFromSlice dst 0 part (← slice r.buffer.toList start (start + part))
  let dst ←
    if len > part then copyFromSlice dst part len (← slice r.buffer.toList 0 (len - part))
    else some dst
  return (len, dst, r.clear)

/-- The queue in the ring, the oldest item first. -/
def items (r : RingArray T N) : List T :=
  if r.full then r.buffer.toList.drop r.index ++ r.buffer.toList.take r.index
  else r.buffer.toList.take r.index

@[simp] theorem items_new (fillValue : T) (h : 0 < N) : (new fillValue h).items = [] := rfl

@[simp] theorem items_clear (r : RingArray T N) : r.clear.items = [] := rfl

theorem length_items (r : RingArray T N) : r.items.length = r.len := by
  have hlt := r.index_lt
  rw [items, len]
  split
  · simp only [List.length_append, List.length_drop, List.length_take, Vector.length_toList]
    omega
  · simp only [List.length_take, Vector.length_toList]
    omega

theorem rotate_eq_cons {l : List T} {i : Nat} (h : i < l.length) :
    ∃ rest, l.rotate i = l[i] :: rest ∧ l.rotate (i + 1) = rest ++ [l[i]] := by
  cases hrotate : l.rotate i with
  | nil =>
      rw [List.rotate_eq_nil_iff] at hrotate
      rw [hrotate] at h
      cases h
  | cons item rest =>
      have hhead := List.head?_rotate h
      rw [hrotate, List.head?_cons, List.getElem?_eq_getElem h] at hhead
      rw [← Option.some.inj hhead]
      refine ⟨rest, rfl, ?_⟩
      rw [← List.rotate_rotate, hrotate, List.rotate_cons_succ, List.rotate_zero]

/-- The iterator goes around the buffer. -/
theorem collect_eq {it : RingArrayIter T N} (h : it.count ≤ N) :
    it.collect = (it.buffer.toList.rotate it.pos).take it.count := by
  obtain ⟨buffer, pos, count, hpos⟩ := it
  dsimp only at h ⊢
  have hlen := buffer.length_toList
  induction count generalizing pos with
  | zero =>
      rw [RingArrayIter.collect]
      rfl
  | succ n ih =>
      obtain ⟨rest, hrotate, hnext⟩ := rotate_eq_cons (hlen.symm ▸ hpos)
      have hrest := ih ((pos + 1) % N) (Nat.mod_lt _ (Nat.zero_lt_of_lt hpos)) (by omega)
      have hmod : (pos + 1) % N = (pos + 1) % buffer.toList.length := by rw [hlen]
      have hle : n ≤ rest.length := by
        have hcount := congrArg List.length hrotate
        rw [List.length_rotate, List.length_cons] at hcount
        omega
      have hstep : RingArrayIter.collect ⟨buffer, pos, n + 1, hpos⟩ =
          buffer.get ⟨pos, hpos⟩ ::
            RingArrayIter.collect ⟨buffer, (pos + 1) % N, n, Nat.mod_lt _ (by omega)⟩ := by
        rw [RingArrayIter.collect]
        rfl
      rw [hstep, hrest, hrotate, hmod, List.rotate_mod, hnext, List.take_append_of_le_length hle,
        List.take_succ_cons]
      rfl

theorem iter_collect (r : RingArray T N) : r.iter.collect = r.items := by
  have hlt := r.index_lt
  have hlen := r.buffer.length_toList
  have hle : r.len ≤ N := by
    rw [len]
    split
    · exact Nat.le_refl N
    · exact hlt.le
  rw [collect_eq hle]
  simp only [iter, items, len]
  split
  · rw [List.rotate_eq_drop_append_take (by omega), List.take_of_length_le]
    rw [List.length_append, List.length_drop, List.length_take]
    omega
  · rw [List.rotate_zero]

/-- A full ring loses its oldest item. -/
theorem items_push (r : RingArray T N) (item : T) :
    (r.push item).items = (if r.full then r.items.tail else r.items) ++ [item] := by
  have hlt := r.index_lt
  have hlen := r.buffer.length_toList
  have hin : r.index < r.buffer.toList.length := hlen.symm ▸ hlt
  obtain ⟨front, old, back, hbuffer, hfront⟩ :
      ∃ front old back, r.buffer.toList = front ++ old :: back ∧ front.length = r.index :=
    ⟨r.buffer.toList.take r.index, r.buffer.toList[r.index], r.buffer.toList.drop (r.index + 1),
      by rw [List.getElem_cons_drop, List.take_append_drop], List.length_take_of_le hin.le⟩
  have hset : (r.push item).buffer.toList = front ++ item :: back := by
    rw [push, Vector.toList_set, hbuffer, ← hfront, List.set_append_right _ _ (Nat.le_refl _),
      Nat.sub_self, List.set_cons_zero]
  have hsize : front.length + (back.length + 1) = N := by
    rw [hbuffer, List.length_append, List.length_cons] at hlen
    exact hlen
  have hold : r.items = if r.full then old :: back ++ front else front := by
    rw [items, hbuffer, ← hfront, List.drop_left, List.take_left]
  rw [hold, items, hset]
  rcases Nat.lt_or_ge (r.index + 1) N with hmore | hlast
  · have hindex : (r.push item).index = (front ++ [item]).length := by
      rw [List.length_append, List.length_singleton, hfront]
      exact Nat.mod_eq_of_lt hmore
    have hfull : (r.push item).full = r.full := by
      simp only [push, Nat.mod_eq_of_lt hmore]
      split <;> simp_all
    rw [hindex, hfull, List.append_cons front item back, List.drop_left, List.take_left]
    split
    · simp
    · rfl
  · have hback : back = [] := List.eq_nil_of_length_eq_zero (by omega)
    have hmod : (r.index + 1) % N = 0 := by
      rw [show r.index + 1 = N by omega, Nat.mod_self]
    have hindex : (r.push item).index = 0 := hmod
    have hfull : (r.push item).full = true := by
      simp only [push, hmod]
      split <;> simp_all
    rw [hindex, hfull, if_pos rfl, List.drop_zero, List.take_zero, List.append_nil, hback]
    split <;> simp

theorem full_iff (r : RingArray T N) : r.full = true ↔ r.items.length = N := by
  have hlt := r.index_lt
  rw [length_items, len]
  split
  · simp_all
  · rename_i hfull
    exact ⟨fun h => absurd h hfull, fun h => absurd h hlt.ne⟩

/-- The last `N` items that are pushed stay. -/
theorem items_foldl_push (r : RingArray T N) (pushed : List T) :
    (pushed.foldl push r).items =
      (r.items ++ pushed).drop ((r.items ++ pushed).length - N) := by
  have hle : ∀ r : RingArray T N, r.items.length ≤ N := fun r => by
    have hlt := r.index_lt
    rw [length_items, len]
    split
    · exact Nat.le_refl N
    · exact hlt.le
  induction pushed generalizing r with
  | nil =>
      have hr := hle r
      rw [List.foldl_nil, List.append_nil, Nat.sub_eq_zero_of_le hr, List.drop_zero]
  | cons item pushed ih =>
      rw [List.foldl_cons, ih, items_push]
      split
      · rename_i hfull
        have hlen := r.full_iff.mp hfull
        have hpos : 0 < N := Nat.zero_lt_of_lt r.index_lt
        cases hitems : r.items with
        | nil =>
            rw [hitems, List.length_nil] at hlen
            omega
        | cons old rest =>
            rw [hitems, List.length_cons] at hlen
            have hdrop : (old :: rest ++ item :: pushed).length - N =
                (rest ++ [item] ++ pushed).length - N + 1 := by
              simp only [List.length_append, List.length_cons, List.length_nil]
              omega
            rw [List.tail_cons, hdrop, List.cons_append, List.drop_succ_cons]
            simp only [List.append_assoc, List.cons_append, List.nil_append]
      · simp only [List.append_assoc, List.cons_append, List.nil_append]

end RingArray

end Kruspix.Common
