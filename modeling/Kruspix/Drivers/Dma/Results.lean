import Kruspix.Drivers.Dma.Bcm2835Dma
import Mathlib.Tactic.SplitIfs

/-!
# What a call returns

A call reads its result in `wait_for_transfer` and then only carries it through
the clearing and the abort. A property of results that holds of every result
read, and of the refusals and timeouts, holds of what is returned.
-/

namespace Kruspix.Drivers.Dma.Bcm2835Dma

open Lib.Masks

/-- What a call is about to return. -/
def Pc.verdict : Pc → Option Verdict
  | .reset (.abort v) => some v
  | .resetPoll (.abort v) _ => some v
  | .clearCs (.reset (.abort v)) => some v
  | .clearCs (.poll v) => some v
  | .clearDebug (.reset (.abort v)) => some v
  | .clearDebug (.poll v) => some v
  | .abort v => some v
  | _ => none

/-- The result that a step of `wait_for_transfer` reads. -/
def resultRead (s : State) (read : Word) : Option Verdict :=
  match s.pc with
  | .swapError (_ + 1) => if s.irqError then some ⟨.error .fault, s.errorBy⟩ else none
  | .swapComplete _ => if s.irqComplete then some ⟨.ok (), s.completeBy⟩ else none
  | .readDebug _ cs seen => pollResult cs read seen s.status
  | _ => none

/-- Every result that is returned or about to be returned has the property. -/
structure Results (P : Option Nat → Verdict → Prop) (s : State) : Prop where
  returned : ∀ r, r ∈ s.returned → P r.transfer r.toVerdict
  verdict : ∀ v, s.pc.verdict = some v → P s.current v

/-- What a step of `copy_2d` does, one case for each way it can go on. -/
inductive TaskStepped (s : State) (read : Word) : State → Prop
  | reset (r : ResetFor) (hpc : s.pc = .reset r) :
      TaskStepped s read { s with pc := .resetPoll r DMA_RESET_POLL_LIMIT }
  | startTimedOut (hpc : s.pc = .resetPoll .start 0) :
      TaskStepped s read (s.return ⟨.error .timeout, none⟩)
  | abortTimedOut (v : Verdict) (hpc : s.pc = .resetPoll (.abort v) 0) :
      TaskStepped s read (s.return v)
  | inReset (r : ResetFor) (left : Nat) (hpc : s.pc = .resetPoll r (left + 1)) :
      TaskStepped s read { s with pc := .resetPoll r left }
  | stopped (r : ResetFor) (left : Nat) (hpc : s.pc = .resetPoll r (left + 1)) :
      TaskStepped s read { s with active := none, pc := .clearCs (.reset r) }
  | clearCs (c : ClearFor) (hpc : s.pc = .clearCs c) :
      TaskStepped s read { s with status := s.status.writeCs, pc := .clearDebug c }
  | cleared (hpc : s.pc = .clearDebug (.reset .start)) :
      TaskStepped s read { s with status := s.status.writeDebug, pc := .storeComplete }
  | aborted (v : Verdict) (hpc : s.pc = .clearDebug (.reset (.abort v))) :
      TaskStepped s read ({ s with status := s.status.writeDebug }.return v)
  | polled (v : Verdict) (hpc : s.pc = .clearDebug (.poll v)) :
      TaskStepped s read ({ s with status := s.status.writeDebug }.return v)
  | faulted (v : Verdict) (hpc : s.pc = .clearDebug (.poll v)) :
      TaskStepped s read { s with status := s.status.writeDebug, pc := .abort v }
  | storeComplete (hpc : s.pc = .storeComplete) :
      TaskStepped s read { s with irqComplete := false, completeBy := none, pc := .storeError }
  | storeError (hpc : s.pc = .storeError) :
      TaskStepped s read { s with irqError := false, errorBy := none, pc := .writeAddr }
  | writeAddr (hpc : s.pc = .writeAddr) : TaskStepped s read { s with pc := .writeActive }
  | writeActive (hpc : s.pc = .writeActive) :
      TaskStepped s read { s with
        active := some s.started
        current := some s.started
        started := s.started + 1
        pc := .swapError DMA_WAIT_POLL_LIMIT }
  | waitTimedOut (hpc : s.pc = .swapError 0) :
      TaskStepped s read { s with pc := .abort ⟨.error .timeout, none⟩ }
  | sawError (left : Nat) (hpc : s.pc = .swapError (left + 1)) (herror : s.irqError = true) :
      TaskStepped s read { s with
        irqError := false
        errorBy := none
        pc := .abort ⟨.error .fault, s.errorBy⟩ }
  | noError (left : Nat) (hpc : s.pc = .swapError (left + 1)) (herror : ¬s.irqError = true) :
      TaskStepped s read { s with pc := .swapComplete left }
  | sawComplete (left : Nat) (hpc : s.pc = .swapComplete left)
      (hcomplete : s.irqComplete = true) :
      TaskStepped s read
        ({ s with irqComplete := false, completeBy := none }.return ⟨.ok (), s.completeBy⟩)
  | noComplete (left : Nat) (hpc : s.pc = .swapComplete left) :
      TaskStepped s read { s with pc := .readCs left }
  | readCs (left : Nat) (hpc : s.pc = .readCs left) :
      TaskStepped s read { s with pc := .readDebug left read s.status }
  | readResult (left : Nat) (cs : Word) (seen : Status) (v : Verdict)
      (hpc : s.pc = .readDebug left cs seen)
      (hresult : pollResult cs read seen s.status = some v) :
      TaskStepped s read { s with pc := .clearCs (.poll v) }
  | noResult (left : Nat) (cs : Word) (seen : Status) (hpc : s.pc = .readDebug left cs seen) :
      TaskStepped s read { s with pc := .swapError left }
  | abort (v : Verdict) (hpc : s.pc = .abort v) :
      TaskStepped s read { s with pc := .reset (.abort v) }

/-- What a step of `handle_irq` does. -/
inductive IrqStepped (s : State) (read : Word) : State → Prop
  | readCs (hirq : s.irq = some .readCs) :
      IrqStepped s read { s with irq := some (.readDebug read s.status) }
  | spurious (cs : Word) (seen : Status) (hirq : s.irq = some (.readDebug cs seen)) :
      IrqStepped s read { s with irq := none }
  | sawError (cs : Word) (seen : Status) (hirq : s.irq = some (.readDebug cs seen))
      (hbits : ¬(!has cs (BCM2835_DMA_CS_END ||| BCM2835_DMA_CS_INT ||| BCM2835_DMA_CS_ERR) &&
        !has read BCM2835_DMA_DEBUG_CLEAR_MASK) = true)
      (herr : (has cs BCM2835_DMA_CS_ERR || has read BCM2835_DMA_DEBUG_CLEAR_MASK) = true) :
      IrqStepped s read { s with irq := some (.storeError (faultCause cs seen s.status)) }
  | sawComplete (cs : Word) (seen : Status) (hirq : s.irq = some (.readDebug cs seen))
      (hbits : ¬(!has cs (BCM2835_DMA_CS_END ||| BCM2835_DMA_CS_INT ||| BCM2835_DMA_CS_ERR) &&
        !has read BCM2835_DMA_DEBUG_CLEAR_MASK) = true)
      (herr : ¬(has cs BCM2835_DMA_CS_ERR || has read BCM2835_DMA_DEBUG_CLEAR_MASK) = true) :
      IrqStepped s read { s with irq := some (.storeComplete seen.completion) }
  | storeError (cause : Option Nat) (hirq : s.irq = some (.storeError cause)) :
      IrqStepped s read { s with irqError := true, errorBy := cause, irq := some .clearCs }
  | storeComplete (cause : Option Nat) (hirq : s.irq = some (.storeComplete cause)) :
      IrqStepped s read { s with irqComplete := true, completeBy := cause, irq := some .clearCs }
  | clearCs (hirq : s.irq = some .clearCs) :
      IrqStepped s read { s with status := s.status.writeCs, irq := some .clearDebug }
  | clearDebug (hirq : s.irq = some .clearDebug) :
      IrqStepped s read { s with status := s.status.writeDebug, irq := none }

/-- What the handler leaves alone. -/
structure SameCall (s t : State) : Prop where
  active : t.active = s.active
  started : t.started = s.started
  ended : t.ended = s.ended
  failed : t.failed = s.failed
  current : t.current = s.current
  pc : t.pc = s.pc
  returned : t.returned = s.returned
  endBit : s.status.endBit = none → t.status.endBit = none
  intBit : s.status.intBit = none → t.status.intBit = none

variable {P : Option Nat → Verdict → Prop} {s t : State} {v : Verdict} {read : Word}

theorem irqStepped_of_irqStep (ht : irqStep s read = some t) : IrqStepped s read t := by
  unfold irqStep at ht
  split at ht
  · cases ht
  · rename_i hirq
    cases ht
    exact .readCs hirq
  · rename_i cs seen hirq
    split_ifs at ht with hbits herr
    · cases ht
      exact .spurious cs seen hirq
    · cases ht
      exact .sawError cs seen hirq hbits herr
    · cases ht
      exact .sawComplete cs seen hirq hbits herr
  · rename_i cause hirq
    cases ht
    exact .storeError cause hirq
  · rename_i cause hirq
    cases ht
    exact .storeComplete cause hirq
  · rename_i hirq
    cases ht
    exact .clearCs hirq
  · rename_i hirq
    cases ht
    exact .clearDebug hirq

theorem sameCall_irqStep (ht : irqStep s read = some t) : SameCall s t := by
  cases irqStepped_of_irqStep ht with
  | clearCs => exact ⟨rfl, rfl, rfl, rfl, rfl, rfl, rfl, fun _ => rfl, fun _ => rfl⟩
  | _ => exact ⟨rfl, rfl, rfl, rfl, rfl, rfl, rfl, id, id⟩

theorem Results.irqStep (h : Results P s) (ht : irqStep s read = some t) : Results P t := by
  have hsame := sameCall_irqStep ht
  constructor
  · rw [hsame.returned]
    exact h.returned
  · rw [hsame.pc, hsame.current]
    exact h.verdict

theorem mem_returned {transfer : Option Nat}
    (hreturned : ∀ r, r ∈ s.returned → P r.transfer r.toVerdict) (hv : P transfer v)
    {r : Return} (hr : r ∈ s.returned ++ [{ v with transfer := transfer }]) :
    P r.transfer r.toVerdict := by
  rcases List.mem_append.mp hr with hr | hr
  · exact hreturned r hr
  · obtain rfl := List.mem_singleton.mp hr
    exact hv

/-- The call returns what it was about to return. -/
theorem Results.return (hreturned : ∀ r, r ∈ s.returned → P r.transfer r.toVerdict)
    (hv : P s.current v) : Results P (s.return v) where
  returned _ hr := mem_returned hreturned hv hr
  verdict := nofun

theorem fillControlBlock_error {channel : Nat} {transfer : Dma2DTransfer} {err : DmaError}
    (h : fillControlBlock channel transfer = .error err) : err = .invalidTransfer := by
  unfold fillControlBlock at h
  split_ifs at h
  cases h
  rfl

theorem Results.copy2d (h : Results P s)
    (hP : ∀ transfer err, err ≠ .fault → P transfer ⟨.error err, none⟩)
    (transfer : Dma2DTransfer) : Results P (copy2d s transfer) := by
  unfold Bcm2835Dma.copy2d
  split
  · split
    · rename_i err herr
      refine Results.return ?_ (hP none err ?_)
      · exact h.returned
      · rw [fillControlBlock_error herr]
        exact nofun
    · exact ⟨h.returned, nofun⟩
  · exact ⟨fun _ hr => mem_returned h.returned (hP none .busy nofun) hr, h.verdict⟩

theorem taskStepped_of_taskStep (ht : taskStep s read = some t) : TaskStepped s read t := by
  unfold taskStep at ht
  split at ht
  · cases ht
  · rename_i r hpc
    cases ht
    exact .reset r hpc
  · rename_i hpc
    cases ht
    exact .startTimedOut hpc
  · rename_i v hpc
    cases ht
    exact .abortTimedOut v hpc
  · rename_i r left hpc
    split_ifs at ht
    · cases ht
      exact .inReset r left hpc
    · cases ht
      exact .stopped r left hpc
  · rename_i c hpc
    cases ht
    exact .clearCs c hpc
  · rename_i c hpc
    rcases c with (_ | v) | v
    · cases ht
      exact .cleared hpc
    · cases ht
      exact .aborted v hpc
    · dsimp only at ht
      split at ht
      · cases ht
        exact .polled v hpc
      · cases ht
        exact .faulted v hpc
  · rename_i hpc
    cases ht
    exact .storeComplete hpc
  · rename_i hpc
    cases ht
    exact .storeError hpc
  · rename_i hpc
    cases ht
    exact .writeAddr hpc
  · rename_i hpc
    cases ht
    exact .writeActive hpc
  · rename_i hpc
    cases ht
    exact .waitTimedOut hpc
  · rename_i left hpc
    split_ifs at ht with herror
    · cases ht
      exact .sawError left hpc herror
    · cases ht
      exact .noError left hpc herror
  · rename_i left hpc
    split_ifs at ht with hcomplete
    · cases ht
      exact .sawComplete left hpc hcomplete
    · cases ht
      exact .noComplete left hpc
  · rename_i left hpc
    cases ht
    exact .readCs left hpc
  · rename_i left cs seen hpc
    split at ht
    · rename_i v hresult
      cases ht
      exact .readResult left cs seen v hpc hresult
    · cases ht
      exact .noResult left cs seen hpc
  · rename_i v hpc
    cases ht
    exact .abort v hpc

/-- A step of `copy_2d` carries the result on, or reads one. -/
theorem Results.taskStep (h : Results P s)
    (hP : ∀ transfer err, err ≠ .fault → P transfer ⟨.error err, none⟩)
    (hread : ∀ v, resultRead s read = some v → P s.current v)
    (ht : taskStep s read = some t) : Results P t := by
  obtain ⟨hreturned, hverdict⟩ := h
  unfold resultRead at hread
  cases taskStepped_of_taskStep ht with
  | startTimedOut => exact Results.return hreturned (hP _ _ nofun)
  | abortTimedOut v hpc =>
      rw [hpc] at hverdict
      exact Results.return hreturned (hverdict v rfl)
  | aborted v hpc =>
      rw [hpc] at hverdict
      exact Results.return hreturned (hverdict v rfl)
  | polled v hpc =>
      rw [hpc] at hverdict
      exact Results.return hreturned (hverdict v rfl)
  | sawComplete left hpc hcomplete =>
      rw [hpc] at hread
      exact Results.return hreturned (hread _ (if_pos hcomplete))
  | reset r hpc =>
      rw [hpc] at hverdict
      exact ⟨hreturned, by cases r <;> exact hverdict⟩
  | inReset r left hpc =>
      rw [hpc] at hverdict
      exact ⟨hreturned, by cases r <;> exact hverdict⟩
  | stopped r left hpc =>
      rw [hpc] at hverdict
      exact ⟨hreturned, by cases r <;> exact hverdict⟩
  | clearCs c hpc =>
      rw [hpc] at hverdict
      exact ⟨hreturned, by rcases c with (_ | _) | _ <;> exact hverdict⟩
  | faulted v hpc =>
      rw [hpc] at hverdict
      exact ⟨hreturned, hverdict⟩
  | abort v hpc =>
      rw [hpc] at hverdict
      exact ⟨hreturned, hverdict⟩
  | waitTimedOut =>
      refine ⟨hreturned, fun v hv => ?_⟩
      cases hv
      exact hP _ _ nofun
  | sawError left hpc herror =>
      rw [hpc] at hread
      refine ⟨hreturned, fun v hv => ?_⟩
      cases hv
      exact hread _ (if_pos herror)
  | readResult left cs seen v hpc hresult =>
      rw [hpc] at hread
      refine ⟨hreturned, fun w hw => ?_⟩
      cases hw
      exact hread v hresult
  | cleared | storeComplete | storeError | writeAddr | writeActive | noError | noComplete
  | readCs | noResult => exact ⟨hreturned, nofun⟩

end Kruspix.Drivers.Dma.Bcm2835Dma
