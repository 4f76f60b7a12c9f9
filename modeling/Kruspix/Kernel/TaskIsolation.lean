import Kruspix.Kernel.Multitasking

/-!
# Tasks do not disturb each other

Between two steps the contexts, the live stacks and the frames of interrupts hold what was put
there. The invariant says so for all tasks, and each step writes only to what is not foreign.
-/

namespace Kruspix.Kernel.Multitasking

open Arch Arch.Context Lib.A64 Lib.Transition Lib.WordMemory
open Arch.IrqEntry (Symbols Frame Room FRAME_SIZE)
open Sched (Scheduler KERNEL_STACK_SIZE)

section Frames

variable {m m' : Words} {top : Nat} {cs : List Cpu} {c : Cpu}

theorem Frames.floor_le (h : Frames m top cs) : floor top cs ≤ top := by
  induction cs with
  | nil => exact le_rfl
  | cons c cs ih =>
      obtain ⟨-, hle, -, hcs⟩ := h
      have hfloor := ih hcs
      rw [floor]
      omega

/-- The frames lie between the latest one and the end of the stack. -/
theorem Frames.bounds (h : Frames m top cs) (hc : c ∈ cs) :
    floor top cs ≤ c.sp.toNat - FRAME_SIZE ∧ c.sp.toNat ≤ top := by
  induction cs with
  | nil => cases hc
  | cons d cs ih =>
      obtain ⟨-, hle, -, hcs⟩ := h
      have hfloor := hcs.floor_le
      rcases List.mem_cons.mp hc with rfl | hc
      · exact ⟨le_rfl, hle.trans hfloor⟩
      · obtain ⟨hlow, hhigh⟩ := ih hcs hc
        refine ⟨?_, hhigh⟩
        rw [floor]
        omega

theorem Frames.congr (h : Frames m top cs)
    (hmem : ∀ c ∈ cs, ∀ b, c.sp.toNat - FRAME_SIZE ≤ b → b < c.sp.toNat → m' b = m b) :
    Frames m' top cs := by
  induction cs with
  | nil => trivial
  | cons c cs ih =>
      obtain ⟨hroom, hle, hframe, hcs⟩ := h
      have hsize := hroom.room
      refine ⟨hroom, hle, ?_, ih hcs fun d hd => hmem d (List.mem_cons_of_mem c hd)⟩
      rw [← hframe]
      exact IrqEntry.Frame.read_congr fun b hle hlt =>
        hmem c List.mem_cons_self b hle (by omega)

end Frames

/-- A task that does not run is as it was stopped. -/
structure Stopped (p : Place) (c : ArchContext) (stop mem : Words) : Prop where
  context : ArchContext.read mem p.context.toNat = c
  proper : c.Proper
  stack : ∀ b, p.InStack c b → mem b = stop b

/-- What holds of each task, running or not. -/
structure Held (p : Place) (cs : List Cpu) (sp : Word) (mem : Words) : Prop where
  fits : p.Fits
  onStack : OnStack p cs sp
  frames : Frames mem p.stackEnd cs

namespace Machine

variable {image : Image} {m : Machine}

/-- What holds between events: the scheduler is sound, the memory of the tasks is apart, each task
holds its stack and the frames of its interrupts, and a stopped task has its registers saved. -/
structure Inv (image : Image) (m : Machine) : Prop where
  sched : m.sched.Inv
  level : m.cpu.pstate.el = 1
  vectors : m.cpu.sys .vbarEl1 = image.irq.vectors
  apart : ∀ i < m.sched.tasks.length, ∀ j < m.sched.tasks.length, i ≠ j →
    (m.place i).Apart (m.place j)
  running : Held (m.place m.current) (m.interrupted m.current) m.cpu.sp m.cpu.mem
  other : ∀ i < m.sched.tasks.length, i ≠ m.current →
    Held (m.place i) (m.interrupted i) (m.context i).stackPointer m.cpu.mem
  stopped : ∀ i < m.sched.tasks.length, i ≠ m.current →
    Stopped (m.place i) (m.context i) (m.memory i) m.cpu.mem

theorem Inv.current_lt (h : m.Inv image) : m.current < m.sched.tasks.length :=
  Scheduler.state?_lt h.sched.isRunning

theorem Inv.held (h : m.Inv image) {i : Nat} (hi : i < m.sched.tasks.length) :
    (m.place i).Fits ∧ Frames m.cpu.mem (m.place i).stackEnd (m.interrupted i) := by
  by_cases hne : i = m.current
  · rw [hne]
    exact ⟨h.running.fits, h.running.frames⟩
  · exact ⟨(h.other i hi hne).fits, (h.other i hi hne).frames⟩

/-- Nothing of the context of the running task, and nothing below its frames, is foreign. -/
theorem Inv.foreign (h : m.Inv image) {b : Nat} (hb : m.Foreign b) :
    ¬ (m.place m.current).InContext b ∧ (b < (m.place m.current).stack.toNat ∨
      floor (m.place m.current).stackEnd (m.interrupted m.current) ≤ b) := by
  obtain ⟨hfits, honStack, hframes⟩ := h.running
  rcases hb with ⟨i, hi, hne, hb⟩ | ⟨c, hc, hlow, hhigh⟩
  · have hother := (h.other i hi hne).onStack
    have hholds : (m.place i).Holds b :=
      hb.imp id fun hstack => ⟨hother.low.trans hstack.1, hstack.2⟩
    have hapart := h.apart i hi m.current h.current_lt hne b hholds
    rw [Place.Holds, not_or] at hapart
    refine ⟨hapart.1, ?_⟩
    by_contra hmem
    push Not at hmem
    exact hapart.2 ⟨hmem.1, hmem.2.trans_le hframes.floor_le⟩
  · obtain ⟨hfloor, htop⟩ := hframes.bounds hc
    refine ⟨fun hcontext => ?_, .inr (hfloor.trans hlow)⟩
    have hlt := hfits.apart b hcontext
    have hbelow := honStack.low
    have habove := honStack.high
    omega

/-- A frame of any task is foreign. -/
theorem Inv.foreign_frame (h : m.Inv image) {i b : Nat} {c : Cpu}
    (hi : i < m.sched.tasks.length) (hc : c ∈ m.interrupted i)
    (hlow : c.sp.toNat - FRAME_SIZE ≤ b) (hhigh : b < c.sp.toNat) : m.Foreign b := by
  by_cases hne : i = m.current
  · exact .inr ⟨c, hne ▸ hc, hlow, hhigh⟩
  · obtain ⟨-, honStack, hframes⟩ := h.other i hi hne
    obtain ⟨hfloor, htop⟩ := hframes.bounds hc
    refine .inl ⟨i, hi, hne, .inr ⟨honStack.high.trans (hfloor.trans hlow), ?_⟩⟩
    omega

section Mem

variable {mem : Words} {i : Nat}

/-- What a step leaves as it is that keeps foreign memory. -/
theorem Inv.stopped_of_mem (h : m.Inv image) (hmem : ∀ b, m.Foreign b → mem b = m.cpu.mem b)
    (hi : i < m.sched.tasks.length) (hne : i ≠ m.current) :
    Stopped (m.place i) (m.context i) (m.memory i) mem := by
  obtain ⟨hcontext, hproper, hstack⟩ := h.stopped i hi hne
  refine ⟨?_, hproper, fun b hb => ?_⟩
  · rw [← hcontext]
    exact read_congr fun b hle hlt => hmem b (.inl ⟨i, hi, hne, .inl ⟨hle, hlt⟩⟩)
  · rw [← hstack b hb]
    exact hmem b (.inl ⟨i, hi, hne, .inr hb⟩)

theorem Inv.frames_of_mem (h : m.Inv image) (hmem : ∀ b, m.Foreign b → mem b = m.cpu.mem b)
    (hi : i < m.sched.tasks.length) : Frames mem (m.place i).stackEnd (m.interrupted i) :=
  (h.held hi).2.congr fun _ hc b hlow hhigh =>
    hmem b (h.foreign_frame hi hc hlow hhigh)

theorem Inv.other_of_mem (h : m.Inv image) (hmem : ∀ b, m.Foreign b → mem b = m.cpu.mem b)
    (hi : i < m.sched.tasks.length) (hne : i ≠ m.current) :
    Held (m.place i) (m.interrupted i) (m.context i).stackPointer mem :=
  ⟨(h.held hi).1, (h.other i hi hne).onStack, h.frames_of_mem hmem hi⟩

end Mem

/-- The running task goes on with these frames on its stack. -/
theorem Inv.goOn (h : m.Inv image) {cpu : Cpu} {cs : List Cpu}
    (hmem : ∀ b, m.Foreign b → cpu.mem b = m.cpu.mem b) (hlevel : cpu.pstate.el = 1)
    (hvectors : cpu.sys .vbarEl1 = m.cpu.sys .vbarEl1)
    (honStack : OnStack (m.place m.current) cs cpu.sp)
    (hframes : Frames cpu.mem (m.place m.current).stackEnd cs) :
    Inv image { m with
      cpu := cpu, interrupted := Function.update m.interrupted m.current cs } := by
  refine ⟨h.sched, hlevel, hvectors.trans h.vectors, h.apart, ?_, fun i hi hne => ?_,
    fun i hi hne => h.stopped_of_mem hmem hi hne⟩
  · have hrunning : Held (m.place m.current) (Function.update m.interrupted m.current cs m.current)
        cpu.sp cpu.mem := by
      rw [Function.update_self]
      exact ⟨h.running.fits, honStack, hframes⟩
    exact hrunning
  · have hcs : Function.update m.interrupted m.current cs i = m.interrupted i :=
      Function.update_of_ne hne _ _
    have hother := h.other_of_mem hmem hi hne
    rw [← hcs] at hother
    exact hother

/-- Code that does what it may keeps the invariant. -/
theorem Inv.run (h : m.Inv image) {cpu : Cpu} (hown : m.Own cpu) :
    Inv image { m with cpu := cpu } := by
  have hgoOn := h.goOn hown.mem hown.level hown.vectors hown.onStack
    (h.frames_of_mem hown.mem h.current_lt)
  rw [Function.update_eq_self] at hgoOn
  exact hgoOn

/-- What is interrupted is on the stack, and the dispatcher runs. -/
theorem Inv.interrupt (h : m.Inv image)
    (hroom : (m.place m.current).stack.toNat + FRAME_SIZE ≤ m.cpu.sp.toNat) :
    ∃ cpu, stepN flat image.code 22 m.cpu.takeIrq = some cpu ∧
      IrqEntry.Entered image.irq m.cpu cpu ∧
      Inv image { m with
        cpu := cpu
        interrupted := Function.update m.interrupted m.current
          (m.cpu :: m.interrupted m.current) } := by
  obtain ⟨-, honStack, -⟩ := h.running
  have hroom' : Room m.cpu := ⟨h.level, honStack.aligned, by omega⟩
  obtain ⟨cpu, hruns, hentered⟩ := IrqEntry.runs_entry image.irq_loaded h.vectors hroom'
  have hframe : (m.cpu.sp - 272).toNat = m.cpu.sp.toNat - FRAME_SIZE := hroom'.toNat
  have hmem (b : Nat) (hb : m.Foreign b) : cpu.mem b = m.cpu.mem b := by
    apply hentered.others
    rw [hframe]
    have hforeign := (h.foreign hb).2
    have habove := honStack.high
    omega
  refine ⟨cpu, hruns.stepN, hentered, h.goOn hmem hentered.el hentered.vectors ?_ ?_⟩
  · have haligned := hroom'.aligned'
    rw [hentered.sp]
    refine ⟨haligned, ?_, hframe.le⟩
    rw [hframe]
    omega
  · refine ⟨hroom', honStack.high, ?_, h.frames_of_mem hmem h.current_lt⟩
    rw [← hframe]
    exact hentered.frame

/-- The processor is as an interrupt found it. -/
structure Resumed (c cpu : Cpu) : Prop where
  x : cpu.x = c.x
  sp : cpu.sp = c.sp
  pc : cpu.pc = c.pc
  pstate : cpu.pstate = c.pstate

/-- The latest interrupt is left, and what it found goes on. -/
theorem Inv.irqReturn (h : m.Inv image) {c : Cpu} {cs : List Cpu}
    (hmasked : m.cpu.pstate.Masked) (hpc : m.cpu.pc = image.irq.back)
    (hc : m.interrupted m.current = c :: cs) (hsp : m.cpu.sp.toNat = c.sp.toNat - FRAME_SIZE) :
    ∃ cpu, stepN flat image.code 21 m.cpu = some cpu ∧ Resumed c cpu ∧
      Inv image { m with
        cpu := cpu
        interrupted := Function.update m.interrupted m.current
          (m.interrupted m.current).tail } := by
  obtain ⟨-, honStack, hframes⟩ := h.running
  rw [hc] at hframes ⊢
  obtain ⟨hroom, hle, hframe, hcs⟩ := hframes
  have hsize := hroom.room
  rw [← hsp] at hframe
  have hspsr : m.cpu.mem (m.cpu.sp.toNat + 256) = c.pstate.toWord := congrArg Frame.spsr hframe
  have hfits : m.cpu.sp.toNat + FRAME_SIZE ≤ 2 ^ 64 := by
    have hlt := c.sp.isLt
    omega
  obtain ⟨cpu, hruns, hleft⟩ := IrqEntry.runs_exit image.irq_loaded hpc h.level hmasked
    honStack.aligned hfits (by rw [hspsr, PState.ofWord_toWord]; exact hroom.level.le)
  have hcpu := hleft.frame
  rw [hframe, Frame.ofCpu, Frame.mk.injEq] at hcpu
  obtain ⟨hx, hcpc, -⟩ := hcpu
  have hpstate := hleft.pstate
  rw [hspsr, PState.ofWord_toWord] at hpstate
  have hback : cpu.sp = c.sp := by
    rw [hleft.sp]
    apply BitVec.eq_of_toNat_eq
    rw [FRAME_SIZE] at hsp hsize hfits
    have hlt := c.sp.isLt
    rw [BitVec.toNat_add, hsp]
    exact (Nat.mod_eq_of_lt (by simp; omega)).trans (by simp; omega)
  refine ⟨cpu, hruns.stepN, ⟨hx.symm, hback, hcpc.symm, hpstate⟩,
    h.goOn (fun b _ => congrFun hleft.mem b) ?_ hleft.vectors ?_ ?_⟩
  · rw [hpstate]
    exact hroom.level
  · rw [hback]
    refine ⟨hroom.aligned, ?_, hle⟩
    have hlow := honStack.low
    omega
  · rw [hleft.mem]
    exact hcs

theorem contexts_apart {p q : Place} (h : p.Apart q) : Context.Apart p.context q.context := by
  rw [Context.Apart]
  by_contra hoverlap
  push Not at hoverlap
  have hfirst := h (max p.context.toNat q.context.toNat)
  refine hfirst (.inl ⟨le_max_left _ _, ?_⟩) (.inl ⟨le_max_right _ _, ?_⟩)
  · rw [ArchContext.SIZE] at hoverlap ⊢
    omega
  · rw [ArchContext.SIZE] at hoverlap ⊢
    omega

/-- The processor is that of a task that has been stopped, and `switch_context` returns to it. -/
structure Continued (image : Image) (m : Machine) (i : Nat) (cpu : Cpu) : Prop where
  context : ofCpu cpu = m.context i
  ret : image.code cpu.pc.toNat = some .ret
  stack : ∀ b, (m.place i).InStack (m.context i) b → cpu.mem b = m.memory i b

/-- The current task is stopped, and the chosen one goes on. -/
theorem Inv.switch (h : m.Inv image) {sched : Scheduler} (hsched : sched.Inv)
    (hlength : sched.tasks.length = m.sched.tasks.length) (hne : sched.currentTask ≠ m.current)
    (hcalls : m.Calls image sched) :
    ∃ cpu, stepN flat image.code 21 m.cpu = some cpu ∧
      Continued image m sched.currentTask cpu ∧
      Inv image { m with
        cpu := cpu
        sched := sched
        context := Function.update m.context m.current (ofCpu m.cpu)
        memory := Function.update m.memory m.current m.cpu.mem } := by
  obtain ⟨hmasked, hpc, hx0, hx1⟩ := hcalls hne
  have hnext : sched.currentTask < m.sched.tasks.length :=
    hlength ▸ Scheduler.state?_lt hsched.isRunning
  have hapart := h.apart m.current h.current_lt sched.currentTask hnext hne.symm
  have hother := h.other sched.currentTask hnext hne
  obtain ⟨hcontext, hproper, -⟩ := h.stopped sched.currentTask hnext hne
  have hat : At image.code m.cpu.pc.toNat Context.switchContext := hpc ▸ image.switch_at
  obtain ⟨cpu, hruns, hret, hswitched⟩ := runs_switchContext hat (hpc ▸ image.switch_fits)
    h.running.fits.region hother.fits.region (contexts_apart hapart) hx0 hx1 h.level hmasked
  have hcpu := hswitched.context (hcontext ▸ hproper)
  rw [hcontext] at hcpu
  have hsp : cpu.sp = (m.context sched.currentTask).stackPointer :=
    congrArg ArchContext.stackPointer hcpu
  obtain ⟨hsys, hpstate⟩ := hswitched.kept
  have hframe (b : Nat) (hb : ¬ (m.place m.current).InContext b) : cpu.mem b = m.cpu.mem b := by
    apply hswitched.frame
    rw [Place.InContext] at hb
    omega
  have hmem (b : Nat) (hb : m.Foreign b) : cpu.mem b = m.cpu.mem b := hframe b (h.foreign hb).1
  have hstopped := h.stopped_of_mem hmem hnext hne
  refine ⟨cpu, hruns.stepN, ⟨hcpu, hret, hstopped.stack⟩, hsched, ?_, ?_, ?_, ?_, ?_, ?_⟩
  · rw [hpstate]
    exact h.level
  · exact (congrFun hsys _).trans h.vectors
  · rw [hlength]
    exact h.apart
  · rw [hsp]
    exact h.other_of_mem hmem hnext hne
  · intro i hi hi'
    rw [hlength] at hi
    dsimp only
    by_cases hcurrent : i = m.current
    · subst hcurrent
      rw [Function.update_self]
      exact ⟨h.running.fits, h.running.onStack, h.frames_of_mem hmem hi⟩
    · rw [Function.update_of_ne hcurrent]
      exact h.other_of_mem hmem hi hcurrent
  · intro i hi hi'
    rw [hlength] at hi
    dsimp only
    by_cases hcurrent : i = m.current
    · subst hcurrent
      rw [Function.update_self, Function.update_self]
      refine ⟨hswitched.saved, ofCpu_proper m.cpu, fun b hb => hframe b fun hin => ?_⟩
      have hout := h.running.fits.apart b hin
      have hlow := h.running.onStack.low
      have hge : m.cpu.sp.toNat ≤ b := hb.1
      have hlt := hb.2
      omega
    · rw [Function.update_of_ne hcurrent, Function.update_of_ne hcurrent]
      exact h.stopped_of_mem hmem hi hcurrent

/-- The stack pointer of a new task. -/
theorem initial_onStack {p : Place} (h : p.Fits) (image : Image) :
    OnStack p [] (p.initial image).stackPointer := by
  have hstack := h.stack
  rw [Place.stackEnd, KERNEL_STACK_SIZE] at hstack
  have hend : (p.stack + BitVec.ofNat 64 KERNEL_STACK_SIZE).toNat = p.stackEnd := by
    rw [BitVec.toNat_add, BitVec.toNat_ofNat, KERNEL_STACK_SIZE, Place.stackEnd, KERNEL_STACK_SIZE]
    exact Nat.mod_eq_of_lt (by omega)
  have hsize : 32 ≤ p.stackEnd := by
    rw [Place.stackEnd, KERNEL_STACK_SIZE]
    omega
  have hsp : (p.initial image).stackPointer.toNat = (p.stackEnd - 16) / 16 * 16 := by
    rw [Place.initial, ArchContext.new_stackPointer (hend ▸ hsize), hend]
  refine ⟨?_, ?_, ?_⟩
  · omega
  · rw [hsp, Place.stackEnd, KERNEL_STACK_SIZE]
    omega
  · rw [hsp, floor]
    omega

theorem addTaskFn_eq {s t : Scheduler} (h : s.addTaskFn = some t) :
    t.tasks.length = s.tasks.length + 1 ∧ t.currentTask = s.currentTask := by
  simp only [Scheduler.addTaskFn, Scheduler.addTask] at h
  split_ifs at h
  cases h
  exact ⟨List.length_append, rfl⟩

/-- The task behind the others gets what the allocator has found for it. -/
theorem Inv.addTask (h : m.Inv image) {p : Place} {cpu : Cpu} {sched : Scheduler}
    (hsched : m.sched.addTaskFn = some sched) (hown : m.Own cpu) (hfits : p.Fits)
    (hapart : ∀ i < m.sched.tasks.length, p.Apart (m.place i))
    (hcontext : ArchContext.read cpu.mem p.context.toNat = p.initial image) :
    Inv image {
      cpu := cpu
      sched := sched
      place := Function.update m.place m.sched.tasks.length p
      context := Function.update m.context m.sched.tasks.length (p.initial image)
      memory := Function.update m.memory m.sched.tasks.length cpu.mem
      interrupted := Function.update m.interrupted m.sched.tasks.length [] } := by
  obtain ⟨hlength, hcurrent⟩ := addTaskFn_eq hsched
  have hlt := h.current_lt
  have hold {i : Nat} (hi : i < sched.tasks.length) (hne : i ≠ m.sched.tasks.length) :
      i < m.sched.tasks.length := by omega
  have hrun := h.run hown
  refine ⟨h.sched.addTaskFn hsched, hown.level, hown.vectors.trans h.vectors, ?_, ?_, ?_, ?_⟩
  · intro i hi j hj hne
    dsimp only at hi hj ⊢
    by_cases hin : i = m.sched.tasks.length
    · rw [hin, Function.update_self, Function.update_of_ne (by omega)]
      exact hapart j (hold hj (by omega))
    · rw [Function.update_of_ne hin]
      by_cases hjn : j = m.sched.tasks.length
      · rw [hjn, Function.update_self]
        exact fun b hb hb' => hapart i (hold hi hin) b hb' hb
      · rw [Function.update_of_ne hjn]
        exact h.apart i (hold hi hin) j (hold hj hjn) hne
  · have hne : m.current ≠ m.sched.tasks.length := by omega
    have hrunning := hrun.running
    dsimp only [current] at hrunning hne ⊢
    rw [hcurrent, Function.update_of_ne hne, Function.update_of_ne hne]
    exact hrunning
  · intro i hi hne
    dsimp only [current] at hi hne ⊢
    by_cases hin : i = m.sched.tasks.length
    · subst hin
      rw [Function.update_self, Function.update_self, Function.update_self]
      exact ⟨hfits, initial_onStack hfits image, trivial⟩
    · rw [Function.update_of_ne hin, Function.update_of_ne hin, Function.update_of_ne hin]
      exact hrun.other i (hold hi hin) fun hc => hne (hc.trans hcurrent.symm)
  · intro i hi hne
    dsimp only [current] at hi hne ⊢
    by_cases hin : i = m.sched.tasks.length
    · subst hin
      rw [Function.update_self, Function.update_self, Function.update_self]
      exact ⟨hcontext, ArchContext.new_proper _ _ _ _, fun _ _ => rfl⟩
    · rw [Function.update_of_ne hin, Function.update_of_ne hin, Function.update_of_ne hin]
      exact hrun.stopped i (hold hi hin) fun hc => hne (hc.trans hcurrent.symm)

theorem inv_started (h : Started image m) : m.Inv image := by
  obtain ⟨cpu, hmasked, hlevel, hvectors, hpc, hx0, hfits, hcontext, hrun, hsched, hnone⟩ := h
  have hat : At image.code cpu.pc.toNat Context.loadContext := hpc ▸ image.load_at
  obtain ⟨t, hruns, -, hrestored⟩ := runs_loadContext hat (hpc ▸ image.load_fits) hfits.region
    hx0 hlevel hmasked
  have ht : t = m.cpu := by
    rw [← Option.some.injEq, ← hrun, hruns.stepN]
  subst ht
  have hcpu := hrestored.context (hcontext ▸ ArchContext.new_proper _ _ _ _)
  rw [hcontext] at hcpu
  have hsp : m.cpu.sp = ((m.place 0).initial image).stackPointer :=
    congrArg ArchContext.stackPointer hcpu
  obtain ⟨-, hsys, hpstate⟩ := hrestored.kept
  have hcurrent : m.current = 0 := by
    rw [current, hsched]
    rfl
  have hone : ∀ i < m.sched.tasks.length, i = 0 := by
    rw [hsched]
    exact fun i hi => Nat.lt_one_iff.mp hi
  refine ⟨hsched ▸ Scheduler.inv_start, ?_, (congrFun hsys _).trans hvectors, ?_, ?_, ?_, ?_⟩
  · rw [hpstate]
    exact hlevel
  · exact fun i hi j hj hne => absurd ((hone i hi).trans (hone j hj).symm) hne
  · rw [hcurrent, hnone, hsp]
    exact ⟨hfits, initial_onStack hfits image, trivial⟩
  · exact fun i hi hne => absurd ((hone i hi).trans hcurrent.symm) hne
  · exact fun i hi hne => absurd ((hone i hi).trans hcurrent.symm) hne

theorem schedule_length (s : Scheduler) : s.schedule.tasks.length = s.tasks.length := by
  simp only [Scheduler.schedule]
  split
  · simp
  · split <;> simp

theorem exitCurrent_length (s : Scheduler) : s.exitCurrent.tasks.length = s.tasks.length := by
  rw [Scheduler.exitCurrent, schedule_length]
  exact Scheduler.setState_length s s.currentTask .terminated

end Machine

variable {image : Image} {m : Machine}

/-- The end of `schedule`, with a switch or without. -/
theorem switchTo_eq {sched : Scheduler} (h : m.Inv image) (hsched : sched.Inv)
    (hlength : sched.tasks.length = m.sched.tasks.length) (hcalls : m.Calls image sched) :
    ∃ t, m.switchTo image sched = some t ∧ t.Inv image ∧
      (t.current ≠ m.current → Machine.Continued image m t.current t.cpu) := by
  rw [Machine.switchTo]
  split
  · rename_i hcurrent
    refine ⟨_, rfl, ⟨hsched, h.level, h.vectors, ?_, ?_, ?_, ?_⟩, fun hne => absurd hcurrent hne⟩
    · rw [hlength]
      exact h.apart
    · dsimp only [Machine.current] at hcurrent ⊢
      rw [hcurrent]
      exact h.running
    · dsimp only [Machine.current] at hcurrent ⊢
      rw [hcurrent, hlength]
      exact h.other
    · dsimp only [Machine.current] at hcurrent ⊢
      rw [hcurrent, hlength]
      exact h.stopped
  · rename_i hne
    obtain ⟨cpu, hrun, hcontinued, hinv⟩ := h.switch hsched hlength hne hcalls
    rw [hrun]
    exact ⟨_, rfl, hinv, fun _ => hcontinued⟩

/-- Each allowed event has a step. A task that is chosen goes on, and so does what an interrupt
has found when it is left. -/
theorem step_eq (h : m.Inv image) {e : Event} (ha : Allowed image m e) :
    ∃ t, step image m e = some t ∧ t.Inv image ∧
      (t.current ≠ m.current → Machine.Continued image m t.current t.cpu) ∧
      (e = .irqReturn → ∀ c ∈ (m.interrupted m.current).head?, Machine.Resumed c t.cpu) := by
  cases e with
  | run cpu => exact ⟨_, rfl, h.run ha, fun hne => absurd rfl hne, nofun⟩
  | interrupt =>
      obtain ⟨cpu, hrun, -, hinv⟩ := h.interrupt ha.2
      rw [step, hrun]
      exact ⟨_, rfl, hinv, fun hne => absurd rfl hne, nofun⟩
  | irqReturn =>
      obtain ⟨hmasked, hpc, c, hc, hsp⟩ := ha
      obtain ⟨cs, hcs⟩ := List.head?_eq_some_iff.mp hc
      obtain ⟨cpu, hrun, hresumed, hinv⟩ := h.irqReturn hmasked hpc hcs hsp
      rw [step, hrun]
      refine ⟨_, rfl, hinv, fun hne => absurd rfl hne, fun _ d hd => ?_⟩
      cases hc.symm.trans hd
      exact hresumed
  | schedule =>
      obtain ⟨t, hst, hinv, hcontinued⟩ :=
        switchTo_eq h h.sched.schedule (Machine.schedule_length m.sched) ha
      exact ⟨t, hst, hinv, hcontinued, nofun⟩
  | exitCurrent =>
      obtain ⟨t, hst, hinv, hcontinued⟩ :=
        switchTo_eq h (h.sched.exitCurrent ha.1) (Machine.exitCurrent_length m.sched) ha.2
      exact ⟨t, hst, hinv, hcontinued, nofun⟩
  | addTask p cpu =>
      obtain ⟨hsome, hown, hfits, hapart, hcontext⟩ := ha
      obtain ⟨sched, hsched⟩ := Option.isSome_iff_exists.mp hsome
      rw [step, hsched]
      refine ⟨_, rfl, h.addTask hsched hown hfits hapart hcontext, fun hne => ?_, nofun⟩
      exact absurd (Machine.addTaskFn_eq hsched).2 hne

theorem running_inv (h : Running image m) : m.Inv image := by
  refine h.invariant (fun _ hstarted => Machine.inv_started hstarted) ?_
  rintro s t - hs ⟨e, ha, hst⟩
  obtain ⟨u, hu, hinv, -⟩ := step_eq hs ha
  cases hst.symm.trans hu
  exact hinv

/-- A run goes on with any allowed event. -/
theorem Running.next (h : Running image m) (e : Event) (ha : Allowed image m e) :
    ∃ t, step image m e = some t ∧ Running image t := by
  obtain ⟨t, hst, -⟩ := step_eq (running_inv h) ha
  exact ⟨t, hst, Reachable.next h ⟨e, ha, hst⟩⟩

/-- The first two instructions of a task that has not run yet. -/
def Begins (image : Image) (p : Place) (cpu : Cpu) : Prop :=
  stepN flat image.code 2 cpu = some { cpu with
    x := Function.update cpu.x 30 (image.entryTrampoline + 4), pc := p.entry }

/-- What the tasks can rely on. -/
structure Isolated (image : Image) (m : Machine) : Prop where
  stopped : ∀ i < m.sched.tasks.length, i ≠ m.current →
    Stopped (m.place i) (m.context i) (m.memory i) m.cpu.mem
  frames : ∀ i < m.sched.tasks.length, Frames m.cpu.mem (m.place i).stackEnd (m.interrupted i)
  progress : ∀ e, Allowed image m e → ∃ t, step image m e = some t
  continued : ∀ e t, Allowed image m e → step image m e = some t → t.current ≠ m.current →
    Machine.Continued image m t.current t.cpu ∧
      (m.context t.current = (m.place t.current).initial image →
        Begins image (m.place t.current) t.cpu)
  resumed : ∀ t, Allowed image m .irqReturn → step image m .irqReturn = some t →
    ∀ c ∈ (m.interrupted m.current).head?, Machine.Resumed c t.cpu

/-- However the tasks, their interrupts and the scheduler take turns, no instruction of the kernel
for them faults, and each task finds its registers and its stack as it left them. -/
theorem running_isolated (image : Image) (m : Machine) (h : Running image m) :
    Isolated image m := by
  have hinv := running_inv h
  refine ⟨hinv.stopped, fun i hi => (hinv.held hi).2, fun e ha => ?_, fun e t ha hst hne => ?_,
    fun t ha hst => ?_⟩
  · obtain ⟨t, hst, -⟩ := step_eq hinv ha
    exact ⟨t, hst⟩
  · obtain ⟨u, hu, -, hcontinued, -⟩ := step_eq hinv ha
    cases hst.symm.trans hu
    have ht := hcontinued hne
    refine ⟨ht, fun hinitial => ?_⟩
    exact stepN_entry (ht.context.trans hinitial) ht.ret image.trampoline_at
  · obtain ⟨u, hu, -, -, hresumed⟩ := step_eq hinv ha
    cases hst.symm.trans hu
    exact hresumed rfl

/-- The routines at 0x1000, 0x2000 and so on. -/
def smallCode : Code := fun a =>
  [segment 0x1280 (IrqEntry.irqVector 0xd80), segment 0x2000 (IrqEntry.el1hIrqHandler 0xfb0),
    segment 0x4000 Context.switchContext, segment 0x5000 Context.loadContext,
    segment 0x6000 Context.entryTrampoline].findSome? fun code => code a

/-- The routines of the small image and what they need of its code. -/
def smallImage : Image where
  code := smallCode
  irq := ⟨0x1000, 0x2000, 0x3000⟩
  switchContext := 0x4000
  loadContext := 0x5000
  entryTrampoline := 0x6000
  terminateTask := 0x7000
  irq_loaded := ⟨by decide, by decide, by decide⟩
  switch_at := by decide
  switch_fits := by decide
  load_at := by decide
  load_fits := by decide
  trampoline_at := by decide

/-- The core when `Scheduler::start` calls `load_context`. -/
def startCpu : Cpu where
  x := fun r => if r = 0 then 0x10000 else 0
  sp := 0x80000
  pc := 0x5000
  pstate := ⟨0, 0b1111#4, 0b0101#4⟩
  sys := fun r => if r = .vbarEl1 then 0x1000 else 0
  mem := fun a =>
    if a = 0x10000 then 0x8000 else if a = 0x10008 then 0x7000 else if a = 0x10058 then 0x6000
    else if a = 0x10060 then 0x23ff0 else 0

/-- The place of the first task. -/
def idlePlace : Place := ⟨0x10000, 0x20000, 0x8000⟩

/-- The place of a further task. -/
def newPlace : Place := ⟨0x30000, 0x40000, 0x9000⟩

theorem idlePlace_fits : idlePlace.Fits := by
  refine ⟨⟨by decide, by decide⟩, by decide, fun b hb => .inl ?_⟩
  exact hb.2.trans (by decide)

theorem newPlace_fits : newPlace.Fits := by
  refine ⟨⟨by decide, by decide⟩, by decide, fun b hb => .inl ?_⟩
  exact hb.2.trans (by decide)

theorem newPlace_apart : newPlace.Apart idlePlace := by
  intro b hnew hidle
  have hlow : 0x30000 ≤ b := by
    rcases hnew with ⟨h, -⟩ | ⟨h, -⟩
    · exact h
    · exact Nat.le_trans (by decide) h
  have hhigh : b < 0x30000 := by
    rcases hidle with ⟨-, h⟩ | ⟨-, h⟩
    · exact h.trans (by decide)
    · exact h.trans_le (by decide)
  omega

/-- A machine whose idle task has just been loaded. -/
theorem started_small : ∃ m, Started smallImage m ∧ m.sched = Scheduler.new.start ∧
    m.place = (fun _ => idlePlace) ∧ m.interrupted = fun _ => [] := by
  have hinitial : ArchContext.read startCpu.mem 0x10000 = idlePlace.initial smallImage := by
    simp only [ArchContext.read, Place.initial, ArchContext.new, ArchContext.mk.injEq]
    exact ⟨funext (by decide), by decide, by decide⟩
  obtain ⟨cpu, hruns, -, -⟩ := @runs_loadContext smallCode startCpu _
    smallImage.load_at smallImage.load_fits idlePlace_fits.region rfl rfl rfl
  exact ⟨⟨cpu, Scheduler.new.start, fun _ => idlePlace, fun _ => idlePlace.initial smallImage,
    fun _ => cpu.mem, fun _ => []⟩,
    ⟨startCpu, rfl, rfl, rfl, rfl, rfl, idlePlace_fits, hinitial, hruns.stepN, rfl, rfl⟩,
    rfl, rfl, rfl⟩

/-- What a new task finds in its context. -/
def newMem : Words := fun a =>
  if a = 0x30000 then 0x9000 else if a = 0x30008 then 0x7000 else if a = 0x30058 then 0x6000
  else if a = 0x30060 then 0x43ff0 else 0

theorem newMem_context : ArchContext.read newMem 0x30000 = newPlace.initial smallImage := by
  simp only [ArchContext.read, Place.initial, ArchContext.new, ArchContext.mk.injEq]
  exact ⟨funext (by decide), by decide, by decide⟩

/-- Interrupts are masked or not, at the level of the kernel. -/
def kernelState (daif : BitVec 4) : PState := ⟨0, daif, 0b0101#4⟩

/-- The core in the idle task, behind `add_task`. -/
def idleCpu (cpu : Cpu) : Cpu :=
  { cpu with sp := 0x23f00, pstate := kernelState 0, mem := newMem }

/-- The core in `schedule`, behind the frame of an interrupt. -/
def schedulingCpu (cpu : Cpu) : Cpu :=
  { cpu with
    x := fun r => if r = 0 then 0x10000 else if r = 1 then 0x30000 else 0
    sp := 0x23df0
    pc := 0x4000
    pstate := kernelState 0b1111#4 }

theorem onStack_idle : OnStack idlePlace [] 0x23f00 :=
  ⟨by decide, by decide, by decide⟩

theorem onStack_interrupted {c : Cpu} (h : c.sp = 0x23f00) : OnStack idlePlace [c] 0x23df0 := by
  refine ⟨by decide, by decide, ?_⟩
  rw [floor, h]
  decide

theorem addTaskFn_start : Scheduler.new.start.addTaskFn =
    some ⟨[⟨0, .running⟩, ⟨2, .new⟩], 3, [1], [], [], 0, 0⟩ := by
  decide

/-- The idle task makes a task and is interrupted, and the new task runs in its place. -/
theorem running_isolated_switched : ∃ m, Running smallImage m ∧ m.current = 1 ∧
    (m.interrupted 0).length = 1 ∧ Isolated smallImage m := by
  obtain ⟨⟨cpu, _, _, _, _, _⟩, hstarted, rfl, rfl, rfl⟩ := started_small
  have hlevel : ∀ daif ∈ [0, 0b1111#4], (kernelState daif).el = 1 := by decide
  obtain ⟨m, hadd, hm⟩ := Running.next (.start hstarted) (.addTask newPlace (idleCpu cpu)) (by
    refine ⟨by rw [addTaskFn_start]; rfl, ⟨?_, hlevel 0 (by decide), rfl, onStack_idle⟩,
      newPlace_fits, fun i hi => newPlace_apart, newMem_context⟩
    -- nothing is foreign to the only task
    rintro b (⟨i, hi, hne, -⟩ | ⟨c, hc, -⟩)
    · exact absurd (Nat.lt_one_iff.mp hi) hne
    · cases hc)
  rw [step, addTaskFn_start] at hadd
  cases hadd
  obtain ⟨m, hinterrupt, hm⟩ := hm.next .interrupt
    ⟨(by decide : ¬(kernelState 0).Masked),
      (by decide : idlePlace.stack.toNat + FRAME_SIZE ≤ BitVec.toNat 0x23f00#64)⟩
  simp only [step, Option.bind_eq_bind, Option.bind_eq_some_iff] at hinterrupt
  obtain ⟨cpu', -, hst⟩ := hinterrupt
  cases hst
  obtain ⟨m, hrun, hm⟩ := hm.next (.run (schedulingCpu cpu'))
    ⟨fun b _ => rfl, hlevel 0b1111#4 (by decide), rfl, onStack_interrupted rfl⟩
  cases hrun
  obtain ⟨m, hschedule, hm⟩ := hm.next .schedule fun _ =>
    ⟨(by decide : (kernelState 0b1111#4).Masked), rfl, rfl, rfl⟩
  rw [step, Machine.switchTo] at hschedule
  split at hschedule
  · rename_i hsame
    cases hsame
  · simp only [Option.bind_eq_bind, Option.bind_eq_some_iff] at hschedule
    obtain ⟨cpu'', -, hst⟩ := hschedule
    cases hst
    exact ⟨_, hm, rfl, rfl, running_isolated smallImage _ hm⟩

end Kruspix.Kernel.Multitasking
