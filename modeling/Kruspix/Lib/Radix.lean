import Mathlib.Data.List.Induction

/-!
# Radix trees of tables

A table maps an index to an entry, and an entry may link to another table. A
key is a list of indices, one a level. The walk of a key follows links and
stops at the first entry that is none, or at the entry of the last index.

Two updates are enough to grow such a tree: an entry is written in a table of
the last level, or an entry without link is linked to a fresh table.
-/

namespace Kruspix.Lib.Radix

variable {T I E R : Type*}

/-- The table at the end of a path of links. -/
def descend (next : E → Option T) (mem : T → I → E) : T → List I → Option T
  | t, [] => some t
  | t, i :: is => (next (mem t i)).bind fun u => descend next mem u is

/-- The entry where the walk of a key stops, and the indices that are left. -/
def resolve (next : E → Option T) (mem : T → I → E) : T → List I → Option (E × List I)
  | _, [] => none
  | t, [i] => some (mem t i, [])
  | t, i :: j :: is =>
      match next (mem t i) with
      | none => some (mem t i, j :: is)
      | some u => resolve next mem u (j :: is)

variable {next : E → Option T} {mem mem' : T → I → E} {root t u f : T} {p q key is : List I}
  {i j : I} {e : E} {d : Nat}

@[simp] theorem descend_nil : descend next mem t [] = some t := rfl

theorem descend_append : descend next mem t (p ++ q) =
    (descend next mem t p).bind fun u => descend next mem u q := by
  induction p generalizing t with
  | nil => rfl
  | cons i p ih =>
      simp only [List.cons_append, descend]
      cases next (mem t i) with
      | none => rfl
      | some u => exact ih

theorem descend_concat : descend next mem t (p ++ [i]) =
    (descend next mem t p).bind fun u => next (mem u i) := by
  rw [descend_append]
  congr 1
  funext u
  simp only [descend]
  cases next (mem u i) <;> rfl

/-- Where the walk stops, by the path that leads there. -/
theorem resolve_of_descend (hp : descend next mem t p = some u)
    (hstop : is = [] ∨ next (mem u i) = none) :
    resolve next mem t (p ++ i :: is) = some (mem u i, is) := by
  induction p generalizing t with
  | nil =>
      cases hp
      cases is with
      | nil => rfl
      | cons j is =>
          have hnone := hstop.resolve_left (List.cons_ne_nil j is)
          simp only [List.nil_append, resolve, hnone]
  | cons k p ih =>
      simp only [descend] at hp
      cases hlink : next (mem t k) with
      | none => simp [hlink] at hp
      | some v =>
          rw [hlink] at hp
          have hrest := ih hp
          cases hp' : p ++ i :: is with
          | nil => simp at hp'
          | cons k' p' =>
              rw [hp'] at hrest
              rw [List.cons_append, hp']
              simp only [resolve, hlink, hrest]

/-- Every walk stops at the end of some path. -/
theorem exists_descend_of_key (mem : T → I → E) (next : E → Option T) (t : T)
    (hkey : key ≠ []) :
    ∃ p i is u, key = p ++ i :: is ∧ descend next mem t p = some u ∧
      (is = [] ∨ next (mem u i) = none) := by
  induction key generalizing t with
  | nil => exact absurd rfl hkey
  | cons k key ih =>
      cases key with
      | nil => exact ⟨[], k, [], t, rfl, rfl, .inl rfl⟩
      | cons j key =>
          cases hlink : next (mem t k) with
          | none => exact ⟨[], k, j :: key, t, rfl, rfl, .inr hlink⟩
          | some v =>
              obtain ⟨p, i, is, u, heq, hdesc, hstop⟩ := ih v (List.cons_ne_nil j key)
              refine ⟨k :: p, i, is, u, by rw [heq, List.cons_append], ?_, hstop⟩
              simp only [descend, hlink, Option.bind_some, hdesc]

/-- No two paths of fewer than `d` links lead to one table. -/
def Tree (next : E → Option T) (mem : T → I → E) (root : T) (d : Nat) : Prop :=
  ∀ p q t, p.length < d → q.length < d → descend next mem root p = some t →
    descend next mem root q = some t → p = q

/-- `mem'` is `mem` with entry `i` of table `t` set to `e`, as far as the tables
of the tree are concerned. -/
structure Writes (next : E → Option T) (mem mem' : T → I → E) (root : T) (d : Nat)
    (t : T) (i : I) (e : E) : Prop where
  same : mem' t i = e
  other : ∀ p u j, p.length < d → descend next mem root p = some u → ¬ (u = t ∧ j = i) →
    mem' u j = mem u j

section Congr

variable (hsame : ∀ p u j, p.length < d → descend next mem root p = some u → mem' u j = mem u j)

include hsame

/-- The tables depend on the entries of tables only. -/
theorem descend_congr (hq : q.length ≤ d) :
    descend next mem' root q = descend next mem root q := by
  induction q using List.reverseRecOn with
  | nil => rfl
  | append_singleton q j ih =>
      rw [List.length_append, List.length_singleton] at hq
      rw [descend_concat, descend_concat, ih (by omega)]
      cases hu : descend next mem root q with
      | none => rfl
      | some u => rw [Option.bind_some, Option.bind_some, hsame q u j (by omega) hu]

/-- And so do the walks. -/
theorem resolve_congr (hkey : key.length ≤ d) (hnil : key ≠ []) :
    resolve next mem' root key = resolve next mem root key := by
  obtain ⟨q, j, is, u, rfl, hu, hstop⟩ := exists_descend_of_key mem next root hnil
  rw [List.length_append, List.length_cons] at hkey
  have hentry := hsame q u j (by omega) hu
  have hu' := (descend_congr hsame (q := q) (by omega)).trans hu
  rw [resolve_of_descend hu hstop, resolve_of_descend hu' (by rw [hentry]; exact hstop), hentry]

end Congr

section Leaf

variable (htree : Tree next mem root d) (hp : descend next mem root p = some t)
  (hlen : p.length + 1 = d) (hw : Writes next mem mem' root d t i e)

include htree hp hlen hw

/-- A write in a table of the last level moves no table. -/
theorem descend_write (hq : q.length < d) :
    descend next mem' root q = descend next mem root q := by
  -- the tables above the last level are not the one that is written
  refine descend_congr (d := p.length) (fun r u j hr hu => ?_) (by omega)
  refine hw.other r u j (by omega) hu ?_
  rintro ⟨rfl, -⟩
  have hpr := htree p r u (by omega) (by omega) hp hu
  rw [hpr] at hr
  exact Nat.lt_irrefl _ hr

theorem tree_write : Tree next mem' root d := by
  intro q r u hq hr hdq hdr
  rw [descend_write htree hp hlen hw hq] at hdq
  rw [descend_write htree hp hlen hw hr] at hdr
  exact htree q r u hq hr hdq hdr

/-- The written key resolves to the new entry. -/
theorem resolve_write_same : resolve next mem' root (p ++ [i]) = some (e, []) := by
  have hp' : descend next mem' root p = some t := by
    rw [descend_write htree hp hlen hw (by omega)]
    exact hp
  rw [resolve_of_descend hp' (.inl rfl), hw.same]

/-- Every other key resolves as before. -/
theorem resolve_write_other (hkey : key.length = d) (hne : key ≠ p ++ [i]) :
    resolve next mem' root key = resolve next mem root key := by
  obtain ⟨q, j, is, u, rfl, hu, hstop⟩ := exists_descend_of_key mem next root
    (List.ne_nil_of_length_eq_add_one (hkey.trans hlen.symm))
  rw [List.length_append, List.length_cons] at hkey
  have hsame : mem' u j = mem u j := by
    refine hw.other q u j (by omega) hu ?_
    rintro ⟨rfl, rfl⟩
    have hpq := htree p q u (by omega) (by omega) hp hu
    subst hpq
    have his : is = [] := List.length_eq_zero_iff.mp (by omega)
    exact hne (by rw [his])
  have hu' : descend next mem' root q = some u := by
    rw [descend_write htree hp hlen hw (by omega)]
    exact hu
  rw [resolve_of_descend hu hstop, resolve_of_descend hu' (by rw [hsame]; exact hstop), hsame]

end Leaf

/-- `f` is no table of the tree. -/
def Fresh (next : E → Option T) (mem : T → I → E) (root : T) (d : Nat) (f : T) : Prop :=
  ∀ q, q.length < d → descend next mem root q ≠ some f

section Link

variable (htree : Tree next mem root d) (hp : descend next mem root p = some t)
  (hlen : p.length + 1 < d) (hnone : next (mem t i) = none)
  (hw : Writes next mem mem' root d t i e) (hlink : next e = some f)
  (hempty : ∀ j, next (mem' f j) = none)

include htree hp hlen hnone hw hlink hempty

/-- Linking a fresh table adds its path and moves no other table. -/
theorem descend_link [DecidableEq I] (hq : q.length < d) :
    descend next mem' root q = if q = p ++ [i] then some f else descend next mem root q := by
  induction q using List.reverseRecOn with
  | nil => simp
  | append_singleton q j ih =>
      rw [List.length_append, List.length_singleton] at hq
      rw [descend_concat, descend_concat, ih (by omega)]
      by_cases hqp : q = p ++ [i]
      · have hlong : q ++ [j] ≠ p ++ [i] := by
          intro h
          have hlength := congrArg List.length h
          rw [hqp] at hlength
          simp at hlength
        rw [if_pos hqp, if_neg hlong, hqp, descend_concat, hp]
        simp only [Option.bind_some, hnone, hempty, Option.bind_none]
      · rw [if_neg hqp]
        cases hu : descend next mem root q with
        | none =>
            rw [Option.bind_none, Option.bind_none, if_neg]
            intro h
            rw [(List.append_inj' h rfl).1, hp] at hu
            exact Option.some_ne_none t hu
        | some u =>
            rw [Option.bind_some, Option.bind_some]
            by_cases hut : u = t ∧ j = i
            · obtain ⟨rfl, rfl⟩ := hut
              have hpq := htree p q u (by omega) (by omega) hp hu
              rw [hw.same, hlink, if_pos (by rw [hpq])]
            · rw [hw.other q u j (by omega) hu hut, if_neg]
              intro h
              obtain ⟨hqp', hji⟩ := List.append_inj' h rfl
              rw [hqp', hp] at hu
              exact hut ⟨(Option.some.inj hu).symm, List.singleton_inj.mp hji⟩

theorem tree_link [DecidableEq I] (hfresh : Fresh next mem root d f) :
    Tree next mem' root d := by
  intro q r u hq hr hdq hdr
  rw [descend_link htree hp hlen hnone hw hlink hempty hq] at hdq
  rw [descend_link htree hp hlen hnone hw hlink hempty hr] at hdr
  split_ifs at hdq hdr with hqp hrp hrp
  · rw [hqp, hrp]
  · cases hdq
    exact absurd hdr (hfresh r hr)
  · cases hdr
    exact absurd hdq (hfresh q hq)
  · exact htree q r u hq hr hdq hdr

/-- A link changes no walk as far as entries that mean nothing are concerned:
the old entry and the entries of the fresh table are such entries. -/
theorem resolve_link_bind [DecidableEq I] (meaning : E × List I → Option R)
    (hold : ∀ is, meaning (mem t i, is) = none) (hnew : ∀ j is, meaning (mem' f j, is) = none)
    (hkey : key.length = d) :
    (resolve next mem' root key).bind meaning = (resolve next mem root key).bind meaning := by
  have hnil : key ≠ [] := List.ne_nil_of_length_pos (by omega)
  obtain ⟨q, j, is, u, rfl, hu, hstop⟩ := exists_descend_of_key mem next root hnil
  rw [List.length_append, List.length_cons] at hkey
  rw [resolve_of_descend hu hstop]
  by_cases hut : u = t ∧ j = i
  · obtain ⟨rfl, rfl⟩ := hut
    have hpq := htree p q u (by omega) (by omega) hp hu
    subst hpq
    have hf : descend next mem' root (p ++ [j]) = some f := by
      rw [descend_link htree hp hlen hnone hw hlink hempty (by simp; omega), if_pos rfl]
    cases is with
    | nil =>
        rw [List.length_nil] at hkey
        omega
    | cons k is =>
        rw [show p ++ j :: k :: is = (p ++ [j]) ++ k :: is by simp,
          resolve_of_descend hf (.inr (hempty k)), Option.bind_some, Option.bind_some,
          hold, hnew]
  · have hsame := hw.other q u j (by omega) hu hut
    have hqp : q ≠ p ++ [i] := by
      rintro rfl
      rw [descend_concat, hp, Option.bind_some, hnone] at hu
      exact Option.some_ne_none u hu.symm
    have hu' : descend next mem' root q = some u := by
      rw [descend_link htree hp hlen hnone hw hlink hempty (by omega), if_neg hqp]
      exact hu
    rw [resolve_of_descend hu' (by rw [hsame]; exact hstop), hsame]

end Link

end Kruspix.Lib.Radix
