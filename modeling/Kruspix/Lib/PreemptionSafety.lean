import Kruspix.Lib.Preemption
import Mathlib.Tactic.SplitIfs

/-!
# Interrupts that never wait

When the code of tasks passes and the code of interrupts serves, an interrupt waits for
a lock only if it is one that tasks take with interrupts enabled, and a task holds it
when the interrupt comes.
-/

namespace Kruspix.Lib.Preemption

open Transition

variable {L : Type*} [DecidableEq L] {masking plain : L → Prop} {rank : L → Nat}
  {calls : Bool → List (Op L) → Prop} {interrupts : List (Op L) → Prop} {s t : State L}

/-- The code that tasks call, when interrupts are masked or not, and the code of
interrupts. Interrupts take masking locks and plain ones. -/
structure Discipline (masking plain : L → Prop) (rank : L → Nat)
    (calls : Bool → List (Op L) → Prop) (interrupts : List (Op L) → Prop) : Prop where
  calls : ∀ masked code, calls masked code → ∀ c, c.Open masking → c.masked = masked →
    Passes masking c code
  interrupts : ∀ code, interrupts code →
    Serves (fun l => masking l ∨ plain l) rank ⟨[], [], true⟩ code

/-- The code is that of the system, and an interrupt does not take a plain lock that is
held. -/
def Undisturbed (plain : L → Prop) (calls : Bool → List (Op L) → Prop)
    (interrupts : List (Op L) → Prop) (s : State L) : Event L → Prop
  | .call code => ∀ t, s.tasks[s.current]? = some t → calls t.frame.masked code
  | .interrupt code => interrupts code ∧ ∀ l, plain l → .lock l ∈ code → ¬s.Held l
  | _ => True

/-- What holds of a task, and more of one that does not run. -/
structure Task.Sound (masking plain : L → Prop) (rank : L → Nat) (t : Task L)
    (running : Prop) : Prop where
  ok : t.frame.Ok masking
  passes : Passes masking t.frame.toConfig t.frame.code
  unmasked : ∀ f, t.interrupt = some f → t.frame.masked = false
  masked : ∀ f, t.interrupt = some f → f.masked = true
  serves : ∀ f, t.interrupt = some f →
    Serves (fun l => masking l ∨ plain l) rank f.toConfig f.code
  resting : ¬running → t.frame.Open masking ∧
    ∀ f, t.interrupt = some f → f.guards = [] ∧ ∀ l, .lock l ∉ f.code

/-- Every task is sound, and no handler is about to take a plain lock that a task holds. -/
structure Inv (masking plain : L → Prop) (rank : L → Nat) (s : State L) : Prop where
  sound : ∀ (i : Nat) (t : Task L), s.tasks[i]? = some t →
    t.Sound masking plain rank (i = s.current)
  free : ∀ (t : Task L) (f : Frame L) (l : L), s.tasks[s.current]? = some t →
    t.interrupt = some f → plain l → .lock l ∈ f.code → ∀ u ∈ s.tasks, l ∉ u.frame.guards

omit [DecidableEq L] in
theorem Task.mem_guards {t : Task L} {l : L} :
    l ∈ t.guards ↔ l ∈ t.frame.guards ∨ ∃ f, t.interrupt = some f ∧ l ∈ f.guards := by
  rw [Task.guards, List.mem_append]
  cases t.interrupt with
  | none => simp
  | some f => simp

/-- The interrupted task is open: it runs with interrupts enabled. -/
theorem Task.Sound.open {t : Task L} {running : Prop} {f : Frame L}
    (h : t.Sound masking plain rank running) (hf : t.interrupt = some f) :
    t.frame.Open masking := by
  rcases h.ok with hmasked | hopen
  · rw [h.unmasked f hf] at hmasked
    cases hmasked
  · exact hopen

theorem Inv.safe (h : Inv masking plain rank s) : Safe s := by
  rintro t f l rest ht hf hcode ⟨u, hu, hheld⟩
  have hsound := h.sound s.current t ht
  have hserves := hsound.serves f hf
  rw [hcode] at hserves
  obtain ⟨⟨hshared, hrank⟩, -⟩ := hserves
  have hown : l ∉ f.guards := fun hmem => Nat.lt_irrefl _ (hrank l hmem)
  obtain ⟨i, hi⟩ := List.getElem?_of_mem hu
  have husound := h.sound i u hi
  rw [Task.mem_guards] at hheld
  by_cases hrunning : i = s.current
  · obtain rfl : u = t := by
      rw [hrunning, ht] at hi
      exact (Option.some.inj hi).symm
    rcases hheld with hheld | ⟨g, hg, hheld⟩
    · rcases hshared with hmasking | hplain
      · exact hsound.open hf l hheld hmasking
      · exact h.free u f l ht hf hplain (by rw [hcode]; exact List.mem_cons_self) u hu hheld
    · obtain rfl : g = f := Option.some.inj (hg.symm.trans hf)
      exact hown hheld
  · obtain ⟨hopen, hrest⟩ := husound.resting hrunning
    rcases hheld with hheld | ⟨g, hg, hheld⟩
    · rcases hshared with hmasking | hplain
      · exact hopen l hheld hmasking
      · exact h.free t f l ht hf hplain (by rw [hcode]; exact List.mem_cons_self) u hu hheld
    · rw [(hrest g hg).1] at hheld
      cases hheld

/-- An interrupt that finds its locks free does not stay where it is. -/
theorem Safe.advances (h : Safe s) : Advances s := by
  intro t f u ht hf hst
  have hlt : s.current < s.tasks.length := by
    rw [List.getElem?_eq_some_iff] at ht
    exact ht.1
  have hactive : t.active = f := by rw [Task.active, hf, Option.getD_some]
  simp only [State.exec, ht, hactive] at hst
  split at hst
  · simp only [hf, Option.isSome_some, if_true, Option.some.injEq] at hst
    subst hst
    refine ⟨_, List.getElem?_set_self hlt, fun f' hf' => ?_⟩
    cases hf'
  · rename_i op rest hcode
    have hfree : ¬s.Blocked op := by
      cases op with
      | lock l => exact h t f l rest ht hf hcode
      | _ => exact id
    rw [if_neg hfree] at hst
    split at hst
    · cases hst
    split at hst
    swap
    · cases hst
    cases hst
    refine ⟨_, List.getElem?_set_self hlt, ?_⟩
    simp only [Task.setActive, hf]
    rintro f' ⟨rfl⟩
    rw [hcode, List.length_cons]
    exact Nat.lt_succ_self _

/-- A task that is at rest may run. -/
theorem Task.Sound.run {t : Task L} (h : t.Sound masking plain rank False) (running : Prop) :
    t.Sound masking plain rank running :=
  ⟨h.ok, h.passes, h.unmasked, h.masked, h.serves, fun _ => h.resting id⟩

theorem Task.Sound.rest {t : Task L} {running : Prop} (h : t.Sound masking plain rank running)
    (hrunning : ¬running) : t.Sound masking plain rank False :=
  ⟨h.ok, h.passes, h.unmasked, h.masked, h.serves, fun _ => h.resting hrunning⟩

/-- The running task goes on. -/
theorem Inv.update (h : Inv masking plain rank s) (t : Task L)
    (hsound : t.Sound masking plain rank True)
    (hfree : ∀ f l, t.interrupt = some f → plain l → .lock l ∈ f.code →
      (∀ u ∈ s.tasks, l ∉ u.frame.guards) ∧ l ∉ t.frame.guards) :
    Inv masking plain rank { s with tasks := s.tasks.set s.current t } := by
  constructor
  · intro i u hu
    rw [List.getElem?_set] at hu
    split_ifs at hu with hi hlt
    · cases hu
      subst hi
      exact ⟨hsound.ok, hsound.passes, hsound.unmasked, hsound.masked, hsound.serves,
        fun hrest => absurd rfl hrest⟩
    · exact h.sound i u hu
  · intro u f l hu hf hplain hmem v hv
    rw [List.getElem?_set_self'] at hu
    obtain ⟨_, -, rfl⟩ := Option.map_eq_some_iff.mp hu
    obtain ⟨hothers, hself⟩ := hfree f l hf hplain hmem
    rcases List.mem_or_eq_of_mem_set hv with hv | rfl
    · exact hothers v hv
    · exact hself

/-- The running task leaves the processor. -/
theorem Inv.leave (h : Inv masking plain rank s) (t : Task L)
    (hsound : t.Sound masking plain rank False) (task : Nat) :
    Inv masking plain rank ⟨s.tasks.set s.current t, task⟩ := by
  have hall : ∀ (i : Nat) (u : Task L), (s.tasks.set s.current t)[i]? = some u →
      u.Sound masking plain rank False := by
    intro i u hu
    rw [List.getElem?_set] at hu
    split_ifs at hu with hi hlt
    · cases hu
      exact hsound
    · exact (h.sound i u hu).rest fun hrunning => hi hrunning.symm
  constructor
  · intro i u hu
    exact (hall i u hu).run _
  · intro u f l hu hf hplain hmem
    exact absurd hmem (((hall task u hu).resting id).2 f hf |>.2 l)

/-- One operation of a task without an interrupt on top. -/
theorem Inv.execTask (h : Inv masking plain rank s) {t : Task L} {op : Op L}
    {rest : List (Op L)} {c : Config L} (ht : s.tasks[s.current]? = some t)
    (hnone : t.interrupt = none) (hcode : t.frame.code = op :: rest)
    (hnext : t.frame.toConfig.next op = some c) :
    Inv masking plain rank
      ⟨s.tasks.set s.current { t with frame := ⟨c, rest⟩ }, s.target op⟩ := by
  have hpasses := (h.sound s.current t ht).passes
  rw [hcode] at hpasses
  obtain ⟨hswitch, d, hd, hok, hrest⟩ := hpasses
  obtain rfl : d = c := Option.some.inj (hd.symm.trans hnext)
  have hno : ∀ f, ¬t.interrupt = some f := fun f hf => by simp [hnone] at hf
  have hsound : ∀ running, (¬running → d.Open masking) →
      ({ t with frame := ⟨d, rest⟩ } : Task L).Sound masking plain rank running :=
    fun _ hopen => ⟨hok, hrest, fun f hf => absurd hf (hno f), fun f hf => absurd hf (hno f),
      fun f hf => absurd hf (hno f), fun hrunning => ⟨hopen hrunning, fun f hf => absurd hf (hno f)⟩⟩
  cases op with
  | switch task =>
      cases hd
      exact h.leave _ (hsound False fun _ => hswitch rfl) task
  | _ =>
      exact h.update _ (hsound True fun hrunning => absurd trivial hrunning)
        fun f l hf => absurd hf (hno f)

/-- One operation of the interrupt on top of a task. -/
theorem Inv.execInterrupt (h : Inv masking plain rank s) {t : Task L} {f : Frame L} {op : Op L}
    {rest : List (Op L)} {c : Config L} (ht : s.tasks[s.current]? = some t)
    (hf : t.interrupt = some f) (hcode : f.code = op :: rest)
    (hnext : f.toConfig.next op = some c) :
    Inv masking plain rank
      ⟨s.tasks.set s.current { t with interrupt := some ⟨c, rest⟩ }, s.target op⟩ := by
  have hsound := h.sound s.current t ht
  have hserves := hsound.serves f hf
  rw [hcode] at hserves
  obtain ⟨hallowed, d, hd, hmasked, hrest⟩ := hserves
  obtain rfl : d = c := Option.some.inj (hd.symm.trans hnext)
  have hsound' : ∀ running, (¬running → d.guards = [] ∧ ∀ l, Op.lock l ∉ rest) →
      ({ t with interrupt := some ⟨d, rest⟩ } : Task L).Sound masking plain rank running := by
    intro running hleft
    refine ⟨hsound.ok, hsound.passes, fun _ _ => hsound.unmasked f hf, ?_, ?_, fun hrunning =>
      ⟨hsound.open hf, ?_⟩⟩
    · rintro g ⟨rfl⟩
      exact hmasked
    · rintro g ⟨rfl⟩
      exact hrest
    · rintro g ⟨rfl⟩
      exact hleft hrunning
  cases op with
  | switch task =>
      cases hd
      exact h.leave _ (hsound' False fun _ => hallowed) task
  | _ =>
      apply h.update _ (hsound' True fun hrunning => absurd trivial hrunning)
      rintro g l ⟨rfl⟩ hplain hmem
      have hothers := h.free t f l ht hf hplain (by rw [hcode]; exact List.mem_cons_of_mem _ hmem)
      exact ⟨hothers, hothers t (List.mem_of_getElem? ht)⟩

theorem Inv.exec (h : Inv masking plain rank s) (hst : s.exec = some t) :
    Inv masking plain rank t := by
  rw [State.exec] at hst
  split at hst
  · cases hst
  rename_i u hu
  have hsound := h.sound s.current u hu
  split at hst
  · split_ifs at hst
    cases hst
    apply h.update
    · exact ⟨hsound.ok, hsound.passes, fun _ hg => (by cases hg), fun _ hg => (by cases hg),
        fun _ hg => (by cases hg), fun hrunning => absurd trivial hrunning⟩
    · intro g l hg
      cases hg
  · rename_i op rest hcode
    split at hst
    · cases hst
      exact h
    split at hst
    · cases hst
    rename_i c hnext
    split at hst
    swap
    · cases hst
    cases hst
    cases hinterrupt : u.interrupt with
    | none =>
        simp only [Task.active, hinterrupt, Option.getD_none] at hcode hnext
        simp only [Task.setActive, hinterrupt]
        rw [← hinterrupt]
        exact h.execTask hu hinterrupt hcode hnext
    | some f =>
        simp only [Task.active, hinterrupt, Option.getD_some] at hcode hnext
        simp only [Task.setActive, hinterrupt]
        exact h.execInterrupt hu hinterrupt hcode hnext

theorem Inv.call (hd : Discipline masking plain rank calls interrupts)
    (h : Inv masking plain rank s) {code : List (Op L)}
    (hcode : Undisturbed plain calls interrupts s (.call code)) (hst : s.call code = some t) :
    Inv masking plain rank t := by
  rw [State.call] at hst
  split at hst
  · cases hst
  rename_i u hu
  split_ifs at hst with hidle
  cases hst
  obtain ⟨hnone, hempty⟩ := hidle
  have hsound := h.sound s.current u hu
  have hopen := hsound.passes
  rw [hempty] at hopen
  have hno : ∀ f, ¬u.interrupt = some f := fun f hf => by simp [hf] at hnone
  apply h.update
  · exact ⟨hsound.ok, hd.calls _ _ (hcode u hu) _ hopen rfl, fun f hf => absurd hf (hno f),
      fun f hf => absurd hf (hno f), fun f hf => absurd hf (hno f),
      fun hrunning => absurd trivial hrunning⟩
  · exact fun f l hf => absurd hf (hno f)

theorem Inv.interrupt (hd : Discipline masking plain rank calls interrupts)
    (h : Inv masking plain rank s) {code : List (Op L)}
    (hcode : Undisturbed plain calls interrupts s (.interrupt code))
    (hst : s.interrupt code = some t) : Inv masking plain rank t := by
  rw [State.interrupt] at hst
  split at hst
  · cases hst
  rename_i u hu
  split_ifs at hst with hidle
  cases hst
  obtain ⟨hinterrupt, hfree⟩ := hcode
  have hsound := h.sound s.current u hu
  have hnot : ∀ l, plain l → .lock l ∈ code → ∀ v ∈ s.tasks, l ∉ v.frame.guards := by
    intro l hplain hmem v hv hheld
    exact hfree l hplain hmem ⟨v, hv, Task.mem_guards.mpr (.inl hheld)⟩
  apply h.update
  · refine ⟨hsound.ok, hsound.passes, fun _ _ => hidle.2, ?_, ?_, fun hrunning =>
      absurd trivial hrunning⟩
    · rintro g ⟨rfl⟩
      rfl
    · rintro g ⟨rfl⟩
      exact hd.interrupts code hinterrupt
  · rintro g l ⟨rfl⟩ hplain hmem
    exact ⟨hnot l hplain hmem, hnot l hplain hmem u (List.mem_of_getElem? hu)⟩

theorem Task.fresh_sound (running : Prop) :
    (Task.fresh : Task L).Sound masking plain rank running := by
  have hopen : (Task.fresh : Task L).frame.Open masking := fun l hl => by cases hl
  exact ⟨.inr hopen, hopen, fun f hf => (by cases hf), fun f hf => (by cases hf),
    fun f hf => (by cases hf), fun _ => ⟨hopen, fun f hf => (by cases hf)⟩⟩

theorem Inv.spawn (h : Inv masking plain rank s) : Inv masking plain rank s.spawn := by
  have hlast : ∀ (i : Nat) (t : Task L), (s.tasks ++ [Task.fresh])[i]? = some t →
      s.tasks[i]? = some t ∨ t = Task.fresh := by
    intro i t ht
    rw [List.getElem?_append] at ht
    split_ifs at ht with hlt
    · exact .inl ht
    · exact .inr (List.mem_singleton.mp (List.mem_of_getElem? ht))
  constructor
  · intro i t ht
    rcases hlast i t ht with ht | rfl
    · exact h.sound i t ht
    · exact Task.fresh_sound _
  · intro t f l ht hf hplain hmem u hu
    rcases hlast s.current t ht with ht | rfl
    · rcases List.mem_append.mp hu with hu | hu
      · exact h.free t f l ht hf hplain hmem u hu
      · obtain rfl := List.mem_singleton.mp hu
        exact List.not_mem_nil
    · cases hf

/-- A step that keeps to the discipline. -/
theorem Inv.step (hd : Discipline masking plain rank calls interrupts)
    (h : Inv masking plain rank s) {e : Event L} (he : Undisturbed plain calls interrupts s e)
    (hst : step s e = some t) : Inv masking plain rank t := by
  cases e with
  | exec => exact h.exec hst
  | call code => exact h.call hd he hst
  | interrupt code => exact h.interrupt hd he hst
  | spawn =>
      cases hst
      exact h.spawn

/-- The processor starts with one task that has nothing to do yet. -/
def Started (s : State L) : Prop :=
  ∃ masked, s = ⟨[⟨⟨⟨[], [], masked⟩, []⟩, none⟩], 0⟩

theorem Started.inv (h : Started s) : Inv masking plain rank s := by
  obtain ⟨masked, rfl⟩ := h
  have hopen : (⟨[], [], masked⟩ : Config L).Open masking := fun l hl => by cases hl
  constructor
  · intro i t ht
    obtain rfl := List.mem_singleton.mp (List.mem_of_getElem? ht)
    exact ⟨.inr hopen, hopen, fun f hf => (by cases hf), fun f hf => (by cases hf),
      fun f hf => (by cases hf), fun _ => ⟨hopen, fun f hf => (by cases hf)⟩⟩
  · intro t f l ht hf
    obtain rfl := List.mem_singleton.mp (List.mem_of_getElem? ht)
    cases hf

/-- In every run that keeps to the discipline, an interrupt finds its locks free. -/
theorem Discipline.safe (hd : Discipline masking plain rank calls interrupts)
    (h : Reachable Started (Step step (Undisturbed plain calls interrupts)) s) : Safe s := by
  refine (h.invariant (P := Inv masking plain rank) (fun _ hs => hs.inv) ?_).safe
  rintro u v - hu ⟨e, he, hst⟩
  exact hu.step hd he hst

end Kruspix.Lib.Preemption
