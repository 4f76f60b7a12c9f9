import Mathlib.Algebra.Order.Group.Nat
import Mathlib.Logic.Nontrivial.Basic
import Mathlib.Tactic.ByContra

/-!
# A write-back cache between processors and devices

The processors see the memory through a cache of lines, and devices do not. Lines are filled,
written back and evicted at any time. What is known of a byte is who can read its value: the
processors, or the devices, or both.
-/

namespace Kruspix.Lib.WriteBackCache

variable {W : Type*}

/-- The bytes of a line, by address. -/
structure Line (W : Type*) where
  dirty : Bool
  data : Nat → W

/-- Line `n` is for the addresses that are `n` when divided by the size of a line. -/
structure Memory (W : Type*) where
  ram : Nat → W
  lines : Nat → Option (Line W)

/-- What can happen to the memory. `fill`, `writeBack` and `evict` happen at any time, `store`,
`clean` and `invalidate` are instructions, and `write` comes from a device. -/
inductive Access (W : Type*)
  | fill (n : Nat)
  | writeBack (n : Nat)
  | evict (n : Nat)
  | store (a : Nat) (w : W)
  | clean (n : Nat)
  | invalidate (n : Nat)
  | write (a : Nat) (w : W)

namespace Memory

variable (size : Nat) (m : Memory W)

/-- Replace what the cache holds of a line. -/
def setLine (n : Nat) (line : Option (Line W)) : Memory W :=
  { m with lines := Function.update m.lines n line }

/-- Write a dirty line to the memory; the line stays and is clean. -/
def writeBack (n : Nat) : Memory W :=
  match m.lines n with
  | none => m
  | some line =>
      { (m.setLine n (some ⟨false, line.data⟩)) with
        ram := fun a => if line.dirty = true ∧ a / size = n then line.data a else m.ram a }

/-- Load a line that is not cached. -/
def fill (n : Nat) : Memory W :=
  match m.lines n with
  | none => m.setLine n (some ⟨false, m.ram⟩)
  | some _ => m

/-- A store of the processor: the line is loaded if necessary, and dirty afterwards. -/
def store (a : Nat) (w : W) : Memory W :=
  let data := match m.lines (a / size) with
    | none => m.ram
    | some line => line.data
  m.setLine (a / size) (some ⟨true, Function.update data a w⟩)

/-- What the processor, the cache on its own and a device do. -/
def step : Access W → Memory W
  | .fill n => m.fill n
  | .writeBack n => m.writeBack size n
  | .evict n => (m.writeBack size n).setLine n none
  | .store a w => m.store size a w
  | .clean n => m.writeBack size n
  | .invalidate n => m.setLine n none
  | .write a w => { m with ram := Function.update m.ram a w }

/-- What a processor loads. -/
def read (a : Nat) : W :=
  match m.lines (a / size) with
  | none => m.ram a
  | some line => line.data a

/-- The processors find the value, and a line that can be dropped does not have it alone. -/
structure CpuHas (a : Nat) (w : W) : Prop where
  line : ∀ line, m.lines (a / size) = some line →
    line.data a = w ∧ (line.dirty = false → m.ram a = w)
  ram : m.lines (a / size) = none → m.ram a = w

/-- The devices find the value, and no line is written back over it. -/
structure RamHas (a : Nat) (w : W) : Prop where
  ram : m.ram a = w
  clean : ∀ line, m.lines (a / size) = some line → line.dirty = false

variable {size m} {a b n : Nat} {v w : W}

theorem CpuHas.read (h : m.CpuHas size a w) : m.read size a = w := by
  rw [Memory.read]
  split
  · rename_i hnone
    exact h.ram hnone
  · rename_i line hline
    exact (h.line line hline).1

@[simp] theorem lines_setLine (n k : Nat) (line : Option (Line W)) :
    (m.setLine n line).lines k = if k = n then line else m.lines k :=
  Function.update_apply m.lines n line k

theorem lines_setLine_same (n : Nat) (line : Option (Line W)) :
    (m.setLine n line).lines n = line :=
  (lines_setLine n n line).trans (if_pos rfl)

@[simp] theorem ram_setLine (n : Nat) (line : Option (Line W)) :
    (m.setLine n line).ram = m.ram :=
  rfl

/-! ## What the processors have -/

/-- A line that changes does so without a change of what it has for the byte. -/
theorem CpuHas.setLine (h : m.CpuHas size a w) (n : Nat) {line : Option (Line W)}
    (hsome : n = a / size → ∀ l, line = some l → l.data a = w ∧ (l.dirty = false → m.ram a = w))
    (hnone : n = a / size → line = none → m.ram a = w) : (m.setLine n line).CpuHas size a w := by
  constructor
  · intro l hl
    rw [lines_setLine] at hl
    split at hl
    · rename_i hn
      exact hsome hn.symm l hl
    · exact h.line l hl
  · intro hl
    rw [lines_setLine] at hl
    split at hl
    · rename_i hn
      exact hnone hn.symm hl
    · exact h.ram hl

theorem ram_writeBack_other (h : a / size ≠ n) : (m.writeBack size n).ram a = m.ram a := by
  rw [writeBack]
  split
  · rfl
  · exact if_neg fun hno => h hno.2

theorem lines_writeBack_other {k : Nat} (h : k ≠ n) : (m.writeBack size n).lines k = m.lines k := by
  rw [writeBack]
  split
  · rfl
  · exact (lines_setLine _ _ _).trans (if_neg h)

/-- What is written back is what the processors have. -/
theorem CpuHas.ram_writeBack (h : m.CpuHas size a w) :
    (m.writeBack size (a / size)).ram a = w ∧
      ∀ l, (m.writeBack size (a / size)).lines (a / size) = some l →
        l.data a = w ∧ l.dirty = false := by
  rw [writeBack]
  split
  · rename_i hnone
    refine ⟨h.ram hnone, fun l hl => ?_⟩
    rw [hnone] at hl
    cases hl
  · rename_i line hline
    obtain ⟨hdata, hclean⟩ := h.line line hline
    refine ⟨?_, fun l hl => ?_⟩
    · by_cases hdirty : line.dirty = true
      · exact (if_pos ⟨hdirty, rfl⟩).trans hdata
      · exact (if_neg fun hno => hdirty hno.1).trans (hclean (Bool.eq_false_iff.mpr hdirty))
    · cases (lines_setLine_same _ _).symm.trans hl
      exact ⟨hdata, rfl⟩

theorem CpuHas.writeBack (h : m.CpuHas size a w) (n : Nat) :
    (m.writeBack size n).CpuHas size a w := by
  by_cases hn : a / size = n
  · subst hn
    obtain ⟨hram, hline⟩ := h.ram_writeBack
    exact ⟨fun l hl => ⟨(hline l hl).1, fun _ => hram⟩, fun _ => hram⟩
  · have hlines : (m.writeBack size n).lines (a / size) = m.lines (a / size) :=
      lines_writeBack_other hn
    have hram : (m.writeBack size n).ram a = m.ram a := ram_writeBack_other hn
    constructor
    · rw [hlines, hram]
      exact h.line
    · rw [hlines, hram]
      exact h.ram

/-- Only a new value or a lost line changes what the processors have. -/
theorem CpuHas.step (h : m.CpuHas size a w) {e : Access W} (hstore : ∀ v, e ≠ .store a v)
    (hwrite : ∀ v, e ≠ .write a v) (hlost : e ≠ .invalidate (a / size)) :
    (m.step size e).CpuHas size a w := by
  cases e with
  | fill n =>
      rw [Memory.step, fill]
      split
      · rename_i hnone
        refine h.setLine n (fun hn l hl => ?_) nofun
        cases hl
        have hram := h.ram (hn ▸ hnone)
        exact ⟨hram, fun _ => hram⟩
      · exact h
  | writeBack n => exact h.writeBack n
  | evict n =>
      refine (h.writeBack n).setLine n nofun fun hn _ => ?_
      rw [hn]
      exact h.ram_writeBack.1
  | store b v =>
      have hne : a ≠ b := fun hab => hstore v (hab ▸ rfl)
      refine h.setLine (b / size) (fun hn l hl => ?_) nofun
      cases hl
      refine ⟨(Function.update_of_ne hne _ _).trans ?_, nofun⟩
      rw [hn]
      cases hline : m.lines (a / size) with
      | none => exact h.ram hline
      | some line => exact (h.line line hline).1
  | clean n => exact h.writeBack n
  | invalidate n =>
      exact h.setLine n (fun hn => absurd (hn ▸ rfl) hlost) fun hn => absurd (hn ▸ rfl) hlost
  | write b v =>
      have hne : a ≠ b := fun hab => hwrite v (hab ▸ rfl)
      have hram : (m.step size (.write b v)).ram a = m.ram a := Function.update_of_ne hne _ _
      constructor
      · rw [hram]
        exact h.line
      · rw [hram]
        exact h.ram

theorem cpuHas_store (m : Memory W) (a : Nat) (w : W) :
    (m.step size (.store a w)).CpuHas size a w := by
  constructor
  · intro l hl
    cases (lines_setLine_same _ _).symm.trans hl
    exact ⟨Function.update_self _ _ _, nofun⟩
  · intro hl
    cases (lines_setLine_same _ _).symm.trans hl

/-! ## What the devices have -/

theorem RamHas.setLine (h : m.RamHas size a w) (n : Nat) {line : Option (Line W)}
    (hclean : ∀ l, line = some l → l.dirty = true → n ≠ a / size) :
    (m.setLine n line).RamHas size a w := by
  constructor
  · exact h.ram
  · intro l hl
    rw [lines_setLine] at hl
    split at hl
    · rename_i hn
      exact Bool.eq_false_iff.mpr fun hdirty => hclean l hl hdirty hn.symm
    · exact h.clean l hl

/-- A line that is written back is of another byte, or is clean. -/
theorem RamHas.writeBack (h : m.RamHas size a w) (n : Nat) :
    (m.writeBack size n).RamHas size a w := by
  rw [Memory.writeBack]
  split
  · exact h
  · rename_i line hline
    constructor
    · apply (if_neg _).trans h.ram
      rintro ⟨hdirty, rfl⟩
      exact Bool.false_ne_true ((h.clean line hline).symm.trans hdirty)
    · apply RamHas.clean (h.setLine n _)
      rintro l hl hdirty
      cases hl
      cases hdirty

/-- A processor that writes to the line takes it from the devices. -/
theorem RamHas.step (h : m.RamHas size a w) {e : Access W}
    (hstore : ∀ b v, e = .store b v → b / size ≠ a / size) (hwrite : ∀ v, e ≠ .write a v) :
    (m.step size e).RamHas size a w := by
  cases e with
  | fill n =>
      rw [Memory.step, fill]
      split
      · apply h.setLine n
        rintro l hl hdirty
        cases hl
        cases hdirty
      · exact h
  | writeBack n => exact h.writeBack n
  | evict n => exact (h.writeBack n).setLine n nofun
  | store b v => exact h.setLine (b / size) fun _ _ _ => hstore b v rfl
  | clean n => exact h.writeBack n
  | invalidate n => exact h.setLine n nofun
  | write b v =>
      have hne : a ≠ b := fun hab => hwrite v (hab ▸ rfl)
      exact ⟨(Function.update_of_ne hne _ _).trans h.ram, h.clean⟩

theorem RamHas.write (h : m.RamHas size a v) (w : W) :
    (m.step size (.write a w)).RamHas size a w :=
  ⟨Function.update_self _ _ _, h.clean⟩

/-! ## From one to the other -/

theorem CpuHas.clean (h : m.CpuHas size a w) :
    (m.step size (.clean (a / size))).RamHas size a w :=
  ⟨h.ram_writeBack.1, fun l hl => (h.ram_writeBack.2 l hl).2⟩

theorem RamHas.invalidate (h : m.RamHas size a w) :
    (m.step size (.invalidate (a / size))).CpuHas size a w := by
  have hnone : (m.step size (.invalidate (a / size))).lines (a / size) = none :=
    lines_setLine_same _ _
  refine ⟨fun l hl => ?_, fun _ => h.ram⟩
  cases hnone.symm.trans hl

end Memory

/-! ## Programs -/

/-- A list of accesses is made in order, with accesses by others before each and behind the last
one. -/
inductive Runs (size : Nat) (others : Access W → Prop) :
    List (Access W) → Memory W → Memory W → Prop
  | done (m : Memory W) : Runs size others [] m m
  | other {es : List (Access W)} {m t : Memory W} (e : Access W) (he : others e)
      (h : Runs size others es (m.step size e) t) : Runs size others es m t
  | next {es : List (Access W)} {m t : Memory W} (e : Access W)
      (h : Runs size others es (m.step size e) t) : Runs size others (e :: es) m t

variable {size : Nat} {others : Access W → Prop} {es : List (Access W)} {m t : Memory W}

/-- What no access changes holds in the end. -/
theorem Runs.keeps (h : Runs size others es m t) {P : Memory W → Prop}
    (hothers : ∀ m e, others e → P m → P (m.step size e))
    (hes : ∀ m, ∀ e ∈ es, P m → P (m.step size e)) (hm : P m) : P t := by
  induction h with
  | done m => exact hm
  | other e he _ ih => exact ih hes (hothers _ e he hm)
  | next e _ ih =>
      have hes' := fun m e' he' => hes m e' (List.mem_cons_of_mem e he')
      exact ih hes' (hes _ e List.mem_cons_self hm)

/-- One access makes `Q` of `P`, which no access changes. -/
theorem Runs.establishes (h : Runs size others es m t) {P Q : Memory W → Prop} {e : Access W}
    (he : e ∈ es) (hPQ : ∀ m, P m → Q (m.step size e))
    (hothersP : ∀ m e, others e → P m → P (m.step size e))
    (hesP : ∀ m, ∀ e ∈ es, P m → P (m.step size e))
    (hothersQ : ∀ m e, others e → Q m → Q (m.step size e))
    (hesQ : ∀ m, ∀ e ∈ es, Q m → Q (m.step size e)) (hm : P m) : Q t := by
  induction h with
  | done m => cases he
  | other e' he' _ ih => exact ih he hesP hesQ (hothersP _ e' he' hm)
  | next e' hrest ih =>
      have hesP' := fun m e' he' => hesP m e' (List.mem_cons_of_mem _ he')
      have hesQ' := fun m e' he' => hesQ m e' (List.mem_cons_of_mem _ he')
      rcases List.mem_cons.mp he with rfl | hmem
      · exact hrest.keeps hothersQ hesQ' (hPQ _ hm)
      · exact ih hmem hesP' hesQ' (hesP _ e' List.mem_cons_self hm)

theorem Runs.split {es₁ es₂ : List (Access W)} (h : Runs size others (es₁ ++ es₂) m t) :
    ∃ s, Runs size others es₁ m s ∧ Runs size others es₂ s t := by
  generalize hes : es₁ ++ es₂ = es at h
  induction h generalizing es₁ with
  | done m =>
      obtain ⟨rfl, rfl⟩ := List.append_eq_nil_iff.mp hes
      exact ⟨m, .done m, .done m⟩
  | other e he _ ih =>
      obtain ⟨s, hfirst, hsecond⟩ := ih hes
      exact ⟨s, .other e he hfirst, hsecond⟩
  | @next es m t e h ih =>
      cases es₁ with
      | nil =>
          cases hes
          exact ⟨m, .done m, .next e h⟩
      | cons e' es₁ =>
          cases hes
          obtain ⟨s, hfirst, hsecond⟩ := ih rfl
          exact ⟨s, .next e hfirst, hsecond⟩

/-- Nothing else happens. -/
theorem Runs.foldl (size : Nat) (others : Access W → Prop) (es : List (Access W)) (m : Memory W) :
    Runs size others es m (es.foldl (Memory.step size) m) := by
  induction es generalizing m with
  | nil => exact .done m
  | cons e es ih => exact .next e (ih _)

/-! ## A buffer -/

section Buffer

/-- What others do that leave the addresses of an owner alone. The cache may do with a line what
it does by itself. -/
def Foreign (size : Nat) (own : Nat → Prop) : Access W → Prop
  | .store a _ => ¬own a
  | .write a _ => ¬own a
  | .invalidate n => ∀ a, own a → a / size ≠ n
  | _ => True

/-- What others do while a device has the buffer. -/
def Device (size : Nat) (own buffer : Nat → Prop) (e : Access W) : Prop :=
  Foreign size own e ∨ ∃ a w, buffer a ∧ e = .write a w

/-- What leaves the value of a byte alone. -/
def Spares (size b : Nat) : Access W → Prop
  | .store a _ => a ≠ b
  | .write a _ => a ≠ b
  | .invalidate n => n ≠ b / size
  | _ => True

/-- The lines of a buffer have only bytes of its owner. -/
def Whole (size : Nat) (own buffer : Nat → Prop) : Prop :=
  ∀ a, buffer a → ∀ b, b / size = a / size → own b

variable {own buffer : Nat → Prop} {a b : Nat} {v w : W}

theorem Whole.owned (h : Whole size own buffer) (ha : buffer a) : own a := h a ha a rfl

theorem Spares.cpuHas {e : Access W} (he : Spares size b e) (h : m.CpuHas size b w) :
    (m.step size e).CpuHas size b w := by
  apply h.step
  · rintro v rfl
    exact he rfl
  · rintro v rfl
    exact he rfl
  · rintro rfl
    exact he rfl

theorem Foreign.spares {e : Access W} (he : Foreign size own e) (ha : own a) : Spares size a e := by
  cases e with
  | store b v => exact fun hba => he (hba ▸ ha)
  | write b v => exact fun hba => he (hba ▸ ha)
  | invalidate n => exact fun hn => he a ha hn.symm
  | fill n => trivial
  | writeBack n => trivial
  | evict n => trivial
  | clean n => trivial

theorem Foreign.ramHas {e : Access W} (hw : Whole size own buffer) (ha : buffer a)
    (he : Foreign size own e) (h : m.RamHas size a w) : (m.step size e).RamHas size a w := by
  apply h.step
  · rintro b v rfl hline
    exact he (hw a ha b hline)
  · rintro v rfl
    exact he (hw.owned ha)

/-- What is stored once is what the processors have. -/
theorem Runs.stored {stores : List (Access W)} (h : Runs size (Foreign size own) stores m t)
    (hstores : ∀ e ∈ stores, ∃ a v, e = .store a v) (ha : own a) (hstore : .store a w ∈ stores)
    (honly : ∀ v, .store a v ∈ stores → v = w) : t.CpuHas size a w := by
  apply h.establishes (P := fun _ => True) hstore
  · exact fun m _ => m.cpuHas_store a w
  · exact fun _ _ _ _ => trivial
  · exact fun _ _ _ _ => trivial
  · exact fun _ e he hm => (he.spares ha).cpuHas hm
  · intro m e he hm
    obtain ⟨b, v, rfl⟩ := hstores e he
    by_cases hb : b = a
    · subst hb
      rw [honly v he]
      exact m.cpuHas_store b w
    · exact Spares.cpuHas (e := .store b v) hb hm
  · trivial

/-- What the processors have and clean is what the devices have. -/
theorem Runs.cleaned {cleans : List (Access W)} (hw : Whole size own buffer)
    (h : Runs size (Foreign size own) cleans m t) (hcleans : ∀ e ∈ cleans, ∃ n, e = .clean n)
    (ha : buffer a) (hclean : .clean (a / size) ∈ cleans) (hm : m.CpuHas size a w) :
    t.RamHas size a w := by
  apply h.establishes (P := fun m => m.CpuHas size a w) hclean
  · exact fun _ hm => hm.clean
  · exact fun _ e he hm => (he.spares (hw.owned ha)).cpuHas hm
  · intro m e he hm
    obtain ⟨n, rfl⟩ := hcleans e he
    exact Spares.cpuHas (e := .clean n) trivial hm
  · exact fun _ e he hm => he.ramHas hw ha hm
  · intro m e he hm
    obtain ⟨n, rfl⟩ := hcleans e he
    exact hm.writeBack n
  · exact hm

/-- A device changes a clean buffer as it likes, and no line is written back over it. -/
theorem Runs.received (hw : Whole size own buffer) (h : Runs size (Device size own buffer) [] m t)
    (ha : buffer a) (hm : ∃ v, m.RamHas size a v) : t.RamHas size a (t.ram a) := by
  have ht : ∃ v, t.RamHas size a v := by
    apply h.keeps (P := fun m => ∃ v, m.RamHas size a v) _ _ hm
    · rintro m e (he | ⟨b, v, -, rfl⟩) ⟨w, hm⟩
      · exact ⟨w, he.ramHas hw ha hm⟩
      · by_cases hb : b = a
        · exact ⟨v, hb ▸ (hb ▸ hm : m.RamHas size b w).write v⟩
        · exact ⟨w, hm.step (fun _ _ hno => by cases hno) fun v hno => hb (by cases hno; rfl)⟩
    · exact fun _ _ he => absurd he List.not_mem_nil
  obtain ⟨v, ht⟩ := ht
  exact ht.ram ▸ ht

/-- What the devices have is what the processors have once the line is dropped. -/
theorem Runs.dropped {drops : List (Access W)} (hw : Whole size own buffer)
    (h : Runs size (Foreign size own) drops m t)
    (hdrops : ∀ e ∈ drops, ∃ n, e = .invalidate n) (ha : buffer a)
    (hdrop : .invalidate (a / size) ∈ drops) (hm : m.RamHas size a w) : t.CpuHas size a w := by
  have hramStep (n : Nat) {m : Memory W} (hm : m.RamHas size a w) :
      (m.step size (.invalidate n)).RamHas size a w :=
    hm.setLine n nofun
  have hboth : t.RamHas size a w ∧ t.CpuHas size a w := by
    apply h.establishes (P := fun m => m.RamHas size a w) hdrop
    · exact fun _ hm => ⟨hramStep _ hm, hm.invalidate⟩
    · exact fun _ e he hm => he.ramHas hw ha hm
    · intro m e he hm
      obtain ⟨n, rfl⟩ := hdrops e he
      exact hramStep n hm
    · exact fun _ e he hm => ⟨he.ramHas hw ha hm.1, (he.spares (hw.owned ha)).cpuHas hm.2⟩
    · intro m e he hm
      obtain ⟨n, rfl⟩ := hdrops e he
      refine ⟨hramStep n hm.1, ?_⟩
      by_cases hn : n = a / size
      · exact hn ▸ hm.1.invalidate
      · exact Spares.cpuHas (e := .invalidate n) hn hm.2
    · exact hm
  exact hboth.2

/-- A byte of others is kept where no line of it is dropped. -/
theorem Runs.spared (h : Runs size (fun e => others e ∧ Spares size b e) es m t)
    (hes : ∀ e ∈ es, Spares size b e) (hm : m.CpuHas size b w) : t.CpuHas size b w :=
  h.keeps (P := fun m => m.CpuHas size b w) (fun _ _ he hm => he.2.cpuHas hm)
    (fun _ e he hm => (hes e he).cpuHas hm) hm

/-- Of a line that is dropped the processors find what the devices have. -/
theorem read_of_dropped {drops : List (Access W)} (hdrops : ∀ e ∈ drops, ∃ n, e = .invalidate n)
    (hdrop : .invalidate (b / size) ∈ drops) (m : Memory W) :
    (drops.foldl (Memory.step size) m).read size b = m.ram b := by
  have hrun := Runs.foldl size (fun _ => False) drops m
  have hram : (drops.foldl (Memory.step size) m).ram = m.ram := by
    apply hrun.keeps (P := fun s => s.ram = m.ram) (fun _ _ hno => hno.elim) _ rfl
    intro s e he hs
    obtain ⟨n, rfl⟩ := hdrops e he
    exact hs
  have hline : (drops.foldl (Memory.step size) m).lines (b / size) = none := by
    apply hrun.establishes (P := fun _ => True) (Q := fun s => s.lines (b / size) = none) hdrop
    · exact fun s _ => Memory.lines_setLine_same _ _
    · exact fun _ _ hno _ => hno.elim
    · exact fun _ _ _ _ => trivial
    · exact fun _ _ hno _ => hno.elim
    · intro s e he hs
      obtain ⟨n, rfl⟩ := hdrops e he
      exact (Memory.lines_setLine _ _ _).trans (by rw [hs, ite_self])
    · trivial
  rw [Memory.read, hline, hram]

/-- The instructions are for the lines of the buffer. -/
def ForLines (size : Nat) (buffer : Nat → Prop) (op : Nat → Access W) (es : List (Access W)) :
    Prop :=
  ∀ e, e ∈ es ↔ ∃ a, buffer a ∧ e = op (a / size)

theorem ForLines.mem {op : Nat → Access W} (h : ForLines size buffer op es) (ha : buffer a) :
    op (a / size) ∈ es :=
  (h _).mpr ⟨a, ha, rfl⟩

theorem ForLines.exists_eq {op : Nat → Access W} (h : ForLines size buffer op es) :
    ∀ e ∈ es, ∃ n, e = op n := by
  intro e he
  obtain ⟨a, -, rfl⟩ := (h e).mp he
  exact ⟨_, rfl⟩

/-- Whatever others do meanwhile, the devices get what the processors have, the processors get
what the devices have left, and nothing of others is lost. -/
structure Coherent (size : Nat) (own buffer : Nat → Prop) (cleans drops : List (Access W)) :
    Prop where
  sent : ∀ {m t a w}, buffer a → m.CpuHas size a w →
    Runs size (Foreign size own) cleans m t → t.ram a = w
  received : ∀ {m s u t a w}, buffer a → m.CpuHas size a w →
    Runs size (Foreign size own) cleans m s → Runs size (Device size own buffer) [] s u →
      Runs size (Foreign size own) drops u t → t.read size a = u.ram a
  spared : ∀ {others : Access W → Prop} {m t b w es}, ¬own b → es = cleans ∨ es = drops →
    Runs size (fun e => others e ∧ Spares size b e) es m t → m.CpuHas size b w →
      t.CpuHas size b w

variable {cleans drops : List (Access W)}

theorem Whole.coherent (hw : Whole size own buffer) (hcleans : ForLines size buffer .clean cleans)
    (hdrops : ForLines size buffer .invalidate drops) : Coherent size own buffer cleans drops where
  sent ha hm hrun := (hrun.cleaned hw hcleans.exists_eq ha (hcleans.mem ha) hm).ram
  received ha hm hclean hdevice hdrop := by
    have hs := hclean.cleaned hw hcleans.exists_eq ha (hcleans.mem ha) hm
    have hu := hdevice.received hw ha ⟨_, hs⟩
    exact (hdrop.dropped hw hdrops.exists_eq ha (hdrops.mem ha) hu).read
  spared hb hes hrun hm := by
    refine hrun.spared (fun e he => ?_) hm
    rcases hes with rfl | rfl
    · obtain ⟨a, -, rfl⟩ := (hcleans e).mp he
      trivial
    · obtain ⟨a, ha, rfl⟩ := (hdrops e).mp he
      exact fun hline => hb (hw a ha _ hline.symm)

/-- What others have in a shared line is lost when it is dropped. -/
theorem whole_of_spared [Nontrivial W] (hdrops : ForLines size buffer .invalidate drops)
    (h : ∀ {m : Memory W} {b w}, ¬own b → m.CpuHas size b w →
      (drops.foldl (Memory.step size) m).CpuHas size b w) : Whole size own buffer := by
  intro a ha b hline
  by_contra hb
  obtain ⟨v, w, hvw⟩ := exists_pair_ne W
  let m : Memory W := ⟨fun _ => v, fun _ => some ⟨true, fun _ => w⟩⟩
  have hm : m.CpuHas size b w := by
    refine ⟨fun line hsome => ?_, fun hno => by cases hno⟩
    cases hsome
    exact ⟨rfl, fun hno => by cases hno⟩
  have hlost := read_of_dropped hdrops.exists_eq (hline ▸ hdrops.mem ha) m
  exact hvw (hlost.symm.trans (h hb hm).read)

theorem coherent_iff_whole [Nontrivial W] (hcleans : ForLines size buffer .clean cleans)
    (hdrops : ForLines size buffer .invalidate drops) :
    Coherent size own buffer cleans drops ↔ Whole size own buffer := by
  refine ⟨fun h => whole_of_spared hdrops fun hb hm => ?_, fun hw => hw.coherent hcleans hdrops⟩
  exact h.spared hb (.inr rfl) (Runs.foldl size (fun e => False ∧ Spares size _ e) drops _) hm

/-! ## Consecutive addresses -/

/-- The address lies in the range. -/
def Range (base len a : Nat) : Prop := base ≤ a ∧ a < base + len

variable {base len extent : Nat}

theorem range_of_lt {i : Nat} (hi : i < len) : Range base len (base + i) :=
  ⟨Nat.le_add_right base i, Nat.add_lt_add_left hi base⟩

theorem whole_range (hpos : 0 < size) (hbase : size ∣ base) (hextent : size ∣ extent)
    (hle : len ≤ extent) : Whole size (Range base extent) (Range base len) := by
  obtain ⟨p, rfl⟩ := hbase
  obtain ⟨q, rfl⟩ := hextent
  rintro a ⟨ha, hlt⟩ b hline
  have hfirst : p ≤ b / size := by
    rw [hline, Nat.le_div_iff_mul_le hpos, Nat.mul_comm]
    exact ha
  have hlast : b / size < p + q := by
    rw [hline, Nat.div_lt_iff_lt_mul hpos, Nat.mul_comm, Nat.mul_add]
    omega
  constructor
  · rw [Nat.mul_comm]
    exact (Nat.le_div_iff_mul_le hpos).mp hfirst
  · rw [← Nat.mul_add, Nat.mul_comm]
    exact (Nat.div_lt_iff_lt_mul hpos).mp hlast

/-- The byte before is on the same line unless a line starts here. -/
theorem div_pred_of_not_dvd (h : ¬size ∣ a) : (a - 1) / size = a / size := by
  cases a with
  | zero => exact absurd (Nat.dvd_zero size) h
  | succ a => exact (Nat.succ_div_of_not_dvd h).symm

theorem Whole.dvd_base (h : Whole size (Range base extent) (Range base len)) (hlen : 0 < len) :
    size ∣ base := by
  by_contra hno
  have hpred := h base ⟨Nat.le_refl base, Nat.lt_add_of_pos_right hlen⟩ _ (div_pred_of_not_dvd hno)
  have hne : base ≠ 0 := fun hzero => hno (hzero ▸ Nat.dvd_zero size)
  have hle := hpred.1
  omega

theorem whole_range_iff (hpos : 0 < size) (hlen : 0 < len) :
    Whole size (Range base len) (Range base len) ↔ size ∣ base ∧ size ∣ len := by
  refine ⟨fun h => ?_, fun h => whole_range hpos h.1 h.2 (Nat.le_refl len)⟩
  have hbase := h.dvd_base hlen
  refine ⟨hbase, ?_⟩
  by_contra hno
  have hend : ¬size ∣ base + len := fun hdvd => hno ((Nat.dvd_add_right hbase).mp hdvd)
  have hlast : Range base len (base + len - 1) := ⟨by omega, by omega⟩
  exact Nat.lt_irrefl _ (h _ hlast _ (div_pred_of_not_dvd hend).symm).2

end Buffer

end Kruspix.Lib.WriteBackCache
