import Kruspix.Drivers.Dma.Results
import Kruspix.Lib.Transition

/-!
# A call returns the result of its own transfer

Whatever the channel does and wherever the handler comes in, a completion or a
fault that `copy_2d` returns was raised by the transfer that the call started
itself. Before a transfer starts no other transfer is active, no bit is set, and
both flags are off.
-/

namespace Kruspix.Drivers.Dma.Bcm2835Dma

open Lib.Masks Lib.Transition

/-- A completion or a fault comes from this transfer, which has ended or failed. -/
def OwnResult (ended failed : List Nat) (transfer : Option Nat) (v : Verdict) : Prop :=
  (v.result = .ok () → ∃ id, transfer = some id ∧ v.cause = some id ∧ id ∈ ended) ∧
    (v.result = .error .fault → ∃ id, transfer = some id ∧ v.cause = some id ∧ id ∈ failed)

/-- The call is in `wait_for_transfer` and has no result yet. -/
def Pc.waiting : Pc → Bool
  | .swapError _ => true
  | .swapComplete _ => true
  | .readCs _ => true
  | .readDebug _ _ _ => true
  | _ => false

/-- Bits that only transfer `id` has set. -/
structure OwnBits (id : Nat) (ended failed : List Nat) (bits : Status) : Prop where
  endBit : ∀ x, bits.endBit = some x → x = id ∧ id ∈ ended
  intBit : ∀ x, bits.intBit = some x → x = id ∧ id ∈ ended
  errBits : ∀ x, bits.errBits = some x → x = id ∧ id ∈ failed

/-- What the handler has read, or is about to store, comes from transfer `id`. -/
def OwnHandler (id : Nat) (ended failed : List Nat) : Option IrqPc → Prop
  | some (.readDebug cs seen) => seen.ShowsCs cs ∧ OwnBits id ended failed seen
  | some (.storeError cause) => cause = some id ∧ id ∈ failed
  | some (.storeComplete cause) => cause = some id ∧ id ∈ ended
  | _ => True

/-- What the call has read comes from transfer `id`. -/
def OwnPoll (id : Nat) (ended failed : List Nat) : Pc → Prop
  | .readDebug _ cs seen => seen.ShowsCs cs ∧ OwnBits id ended failed seen
  | _ => True

/-- The call waits for transfer `id`, and sees that transfer only. -/
structure Waiting (id : Nat) (s : State) : Prop where
  active : s.active = some id
  status : OwnBits id s.ended s.failed s.status
  complete : s.irqComplete = true → s.completeBy = some id ∧ id ∈ s.ended
  error : s.irqError = true → s.errorBy = some id ∧ id ∈ s.failed
  handler : OwnHandler id s.ended s.failed s.irq
  poll : OwnPoll id s.ended s.failed s.pc

/-- The handler has seen no bit. -/
def Quiet : Option IrqPc → Prop
  | none => True
  | some .readCs => True
  | some (.readDebug cs seen) => seen = .clear ∧ seen.ShowsCs cs
  | _ => False

/-- No transfer is active and no bit is set. -/
def Stopped (s : State) : Prop :=
  s.active = none ∧ s.status = .clear ∧ Quiet s.irq

/-- What `start_transfer` has put in order so far. -/
def Prepared (s : State) : Prop :=
  match s.pc with
  | .clearCs (.reset .start) => s.active = none
  | .clearDebug (.reset .start) =>
      s.active = none ∧ s.status.endBit = none ∧ s.status.intBit = none
  | .storeComplete => Stopped s
  | .storeError => Stopped s ∧ s.irqComplete = false
  | .writeAddr => Stopped s ∧ s.irqComplete = false ∧ s.irqError = false
  | .writeActive => Stopped s ∧ s.irqComplete = false ∧ s.irqError = false
  | _ => True

/-- Every transfer that the state names has been started. -/
structure Numbered (s : State) : Prop where
  active : ∀ id, s.active = some id → id < s.started
  ended : ∀ id, id ∈ s.ended → id < s.started
  failed : ∀ id, id ∈ s.failed → id < s.started

/-- Results belong to transfers that have ended or failed, and a task waits for the current one. -/
structure Inv (s : State) : Prop where
  numbered : Numbered s
  results : Results (OwnResult s.ended s.failed) s
  prepared : Prepared s
  waiting : s.pc.waiting = true → ∃ id, s.current = some id ∧ Waiting id s

section Grows

variable {id : Nat} {ended failed ended' failed' : List Nat}

theorem OwnResult.mono {transfer : Option Nat} {v : Verdict}
    (h : OwnResult ended failed transfer v) (hended : ended ⊆ ended') (hfailed : failed ⊆ failed') :
    OwnResult ended' failed' transfer v := by
  constructor
  · intro hok
    obtain ⟨id, htransfer, hcause, hid⟩ := h.1 hok
    exact ⟨id, htransfer, hcause, hended hid⟩
  · intro hfault
    obtain ⟨id, htransfer, hcause, hid⟩ := h.2 hfault
    exact ⟨id, htransfer, hcause, hfailed hid⟩

theorem OwnBits.mono {bits : Status} (h : OwnBits id ended failed bits)
    (hended : ended ⊆ ended') (hfailed : failed ⊆ failed') : OwnBits id ended' failed' bits where
  endBit x hx := (h.endBit x hx).imp_right fun hid => hended hid
  intBit x hx := (h.intBit x hx).imp_right fun hid => hended hid
  errBits x hx := (h.errBits x hx).imp_right fun hid => hfailed hid

theorem OwnHandler.mono {irq : Option IrqPc} (h : OwnHandler id ended failed irq)
    (hended : ended ⊆ ended') (hfailed : failed ⊆ failed') : OwnHandler id ended' failed' irq := by
  rcases irq with _ | _ | ⟨cs, seen⟩ | cause | cause | _ | _
  · trivial
  · trivial
  · exact ⟨h.1, h.2.mono hended hfailed⟩
  · exact ⟨h.1, hfailed h.2⟩
  · exact ⟨h.1, hended h.2⟩
  · trivial
  · trivial

theorem OwnPoll.mono {pc : Pc} (h : OwnPoll id ended failed pc)
    (hended : ended ⊆ ended') (hfailed : failed ⊆ failed') : OwnPoll id ended' failed' pc := by
  cases pc with
  | readDebug left cs seen => exact ⟨h.1, h.2.mono hended hfailed⟩
  | _ => trivial

end Grows

section Bits

variable {id : Nat} {ended failed : List Nat} {bits seen now : Status} {cs debug : Word}

theorem OwnBits.clear : OwnBits id ended failed .clear := by
  constructor <;> exact fun x hx => nomatch hx

theorem OwnBits.writeCs (h : OwnBits id ended failed bits) :
    OwnBits id ended failed bits.writeCs where
  endBit _ hx := nomatch hx
  intBit _ hx := nomatch hx
  errBits := h.errBits

theorem OwnBits.writeDebug (h : OwnBits id ended failed bits) :
    OwnBits id ended failed bits.writeDebug where
  endBit := h.endBit
  intBit := h.intBit
  errBits _ hx := nomatch hx

/-- A completion that was read comes from the transfer that owns the bits. -/
theorem OwnBits.completion (h : OwnBits id ended failed seen) (hshows : seen.ShowsCs cs)
    (hcs : has cs (BCM2835_DMA_CS_END ||| BCM2835_DMA_CS_INT) = true) :
    seen.completion = some id ∧ id ∈ ended := by
  obtain ⟨hend, hint, -⟩ := hshows
  rw [has_mask_or, hend, hint, Bool.or_eq_true] at hcs
  cases he : seen.endBit with
  | some x =>
      obtain ⟨rfl, hended⟩ := h.endBit x he
      exact ⟨by rw [Status.completion, he]; rfl, hended⟩
  | none =>
      rw [he] at hcs
      obtain ⟨x, hx⟩ := Option.isSome_iff_exists.mp (hcs.resolve_left Bool.false_ne_true)
      obtain ⟨rfl, hended⟩ := h.intBit x hx
      exact ⟨by rw [Status.completion, he, hx]; rfl, hended⟩

/-- An error that was read comes from the transfer that owns the bits. -/
theorem OwnBits.fault (hseen : OwnBits id ended failed seen) (hnow : OwnBits id ended failed now)
    (hshows : seen.ShowsCs cs) (hdebug : now.ShowsDebug debug)
    (herr : (has cs BCM2835_DMA_CS_ERR || has debug BCM2835_DMA_DEBUG_CLEAR_MASK) = true) :
    faultCause cs seen now = some id ∧ id ∈ failed := by
  obtain ⟨-, -, hcs⟩ := hshows
  rw [faultCause]
  split
  · rename_i hhas
    rw [hcs] at hhas
    obtain ⟨x, hx⟩ := Option.isSome_iff_exists.mp hhas
    obtain ⟨rfl, hfailed⟩ := hseen.errBits x hx
    exact ⟨hx, hfailed⟩
  · rename_i hhas
    rw [Bool.or_eq_true, hdebug] at herr
    obtain ⟨x, hx⟩ := Option.isSome_iff_exists.mp (herr.resolve_left hhas)
    obtain ⟨rfl, hfailed⟩ := hnow.errBits x hx
    exact ⟨hx, hfailed⟩

/-- A handler that reads `END` or `INT` and no error. -/
theorem has_completion (hbits : ¬(!has cs (BCM2835_DMA_CS_END ||| BCM2835_DMA_CS_INT |||
    BCM2835_DMA_CS_ERR) && !has debug BCM2835_DMA_DEBUG_CLEAR_MASK) = true)
    (herr : ¬(has cs BCM2835_DMA_CS_ERR || has debug BCM2835_DMA_DEBUG_CLEAR_MASK) = true) :
    has cs (BCM2835_DMA_CS_END ||| BCM2835_DMA_CS_INT) = true := by
  rw [has_mask_or] at hbits
  grind

/-- A channel without a bit reads none. -/
theorem not_has_of_clear (hshows : Status.clear.ShowsCs cs) :
    has cs (BCM2835_DMA_CS_END ||| BCM2835_DMA_CS_INT ||| BCM2835_DMA_CS_ERR) = false := by
  obtain ⟨hend, hint, herr⟩ := hshows
  rw [has_mask_or, has_mask_or, hend, hint, herr]
  rfl

end Bits

section Raise

variable {s : State} {id : Nat} {endBit intBit err : Bool}

theorem ended_raise : s.ended ⊆ (s.raise id endBit intBit err).ended := by
  intro x hx
  simp only [State.raise]
  split
  · exact List.mem_cons_of_mem id hx
  · exact hx

theorem failed_raise : s.failed ⊆ (s.raise id endBit intBit err).failed := by
  intro x hx
  simp only [State.raise]
  split
  · exact List.mem_cons_of_mem id hx
  · exact hx

/-- What a transfer adds to its bits is its own. -/
theorem OwnBits.raise (h : OwnBits id s.ended s.failed s.status) :
    OwnBits id (s.raise id endBit intBit err).ended (s.raise id endBit intBit err).failed
      (s.status.raise id endBit intBit err) := by
  constructor
  · intro x hx
    cases endBit with
    | false => exact (h.endBit x hx).imp_right fun hid => ended_raise hid
    | true =>
        cases hx
        exact ⟨rfl, List.mem_cons_self⟩
  · intro x hx
    cases intBit with
    | false => exact (h.intBit x hx).imp_right fun hid => ended_raise hid
    | true =>
        cases hx
        refine ⟨rfl, ?_⟩
        rw [State.raise, Bool.or_true]
        exact List.mem_cons_self
  · intro x hx
    cases err with
    | false => exact (h.errBits x hx).imp_right fun hid => failed_raise hid
    | true =>
        cases hx
        exact ⟨rfl, List.mem_cons_self⟩

theorem Waiting.raise (h : Waiting id s) : Waiting id (s.raise id endBit intBit err) where
  active := h.active
  status := h.status.raise
  complete hc := (h.complete hc).imp_right fun hid => ended_raise hid
  error he := (h.error he).imp_right fun hid => failed_raise hid
  handler := h.handler.mono ended_raise failed_raise
  poll := h.poll.mono ended_raise failed_raise

/-- While a transfer is being prepared no transfer sets bits. -/
theorem Prepared.raise (h : Prepared s) (hactive : s.active = some id) :
    Prepared (s.raise id endBit intBit err) := by
  have hne : s.active ≠ none := by
    rw [hactive]
    exact Option.some_ne_none id
  have hpc : (s.raise id endBit intBit err).pc = s.pc := rfl
  unfold Prepared at h ⊢
  rw [hpc]
  split at h
  · exact absurd h hne
  · exact absurd h.1 hne
  · exact absurd h.1 hne
  · exact absurd h.1.1 hne
  · exact absurd h.1.1 hne
  · exact absurd h.1.1 hne
  · trivial

theorem Numbered.raise (h : Numbered s) (hactive : s.active = some id) :
    Numbered (s.raise id endBit intBit err) where
  active := h.active
  ended x hx := by
    simp only [State.raise] at hx
    split at hx
    · rcases List.mem_cons.mp hx with rfl | hx
      · exact h.active x hactive
      · exact h.ended x hx
    · exact h.ended x hx
  failed x hx := by
    simp only [State.raise] at hx
    split at hx
    · rcases List.mem_cons.mp hx with rfl | hx
      · exact h.active x hactive
      · exact h.failed x hx
    · exact h.failed x hx

theorem Inv.raise (h : Inv s) (hactive : s.active = some id) :
    Inv (s.raise id endBit intBit err) where
  numbered := h.numbered.raise hactive
  results :=
    ⟨fun r hr => (h.results.returned r hr).mono ended_raise failed_raise,
      fun v hv => (h.results.verdict v hv).mono ended_raise failed_raise⟩
  prepared := h.prepared.raise hactive
  waiting hpc := by
    obtain ⟨x, hcurrent, hwait⟩ := h.waiting hpc
    obtain rfl : x = id := Option.some.inj (hwait.active.symm.trans hactive)
    exact ⟨x, hcurrent, hwait.raise⟩

end Raise

section Handler

variable {s t : State} {id : Nat} {read : Word}

/-- The handler finds and clears the bits of the transfer that the call waits for. -/
theorem Waiting.irqStep (h : Waiting id s) (hreads : Reads s (.handleIrq read))
    (ht : irqStep s read = some t) : Waiting id t := by
  have hhandler := h.handler
  unfold Reads at hreads
  cases irqStepped_of_irqStep ht with
  | readCs hirq =>
      rw [hirq] at hreads
      exact ⟨h.active, h.status, h.complete, h.error, ⟨hreads, h.status⟩, h.poll⟩
  | spurious => exact ⟨h.active, h.status, h.complete, h.error, trivial, h.poll⟩
  | sawError cs seen hirq hbits herr =>
      rw [hirq] at hreads hhandler
      exact ⟨h.active, h.status, h.complete, h.error,
        hhandler.2.fault h.status hhandler.1 hreads herr, h.poll⟩
  | sawComplete cs seen hirq hbits herr =>
      rw [hirq] at hhandler
      exact ⟨h.active, h.status, h.complete, h.error,
        hhandler.2.completion hhandler.1 (has_completion hbits herr), h.poll⟩
  | storeError cause hirq =>
      rw [hirq] at hhandler
      exact ⟨h.active, h.status, h.complete, fun _ => hhandler, trivial, h.poll⟩
  | storeComplete cause hirq =>
      rw [hirq] at hhandler
      exact ⟨h.active, h.status, fun _ => hhandler, h.error, trivial, h.poll⟩
  | clearCs => exact ⟨h.active, h.status.writeCs, h.complete, h.error, trivial, h.poll⟩
  | clearDebug => exact ⟨h.active, h.status.writeDebug, h.complete, h.error, trivial, h.poll⟩

/-- On a stopped channel the handler returns at once and stores nothing. -/
theorem Stopped.irqStep (h : Stopped s) (hreads : Reads s (.handleIrq read))
    (ht : irqStep s read = some t) :
    Stopped t ∧ t.irqComplete = s.irqComplete ∧ t.irqError = s.irqError := by
  obtain ⟨hactive, hstatus, hquiet⟩ := h
  unfold Reads at hreads
  have hdebug (hshows : s.status.ShowsDebug read) :
      has read BCM2835_DMA_DEBUG_CLEAR_MASK = false := by
    rw [show _ = _ from hshows, hstatus]
    rfl
  cases irqStepped_of_irqStep ht with
  | readCs hirq =>
      rw [hirq] at hreads
      exact ⟨⟨hactive, hstatus, hstatus, hreads⟩, rfl, rfl⟩
  | spurious => exact ⟨⟨hactive, hstatus, trivial⟩, rfl, rfl⟩
  | sawError cs seen hirq hbits | sawComplete cs seen hirq hbits =>
      rw [hirq] at hreads hquiet
      obtain ⟨rfl, hshows⟩ := hquiet
      rw [not_has_of_clear hshows, hdebug hreads] at hbits
      exact absurd rfl hbits
  | storeError cause hirq | storeComplete cause hirq | clearCs hirq | clearDebug hirq =>
      rw [hirq] at hquiet
      exact hquiet.elim

theorem Prepared.irqStep (h : Prepared s) (hreads : Reads s (.handleIrq read))
    (ht : irqStep s read = some t) : Prepared t := by
  have hsame := sameCall_irqStep ht
  unfold Prepared at h ⊢
  rw [hsame.pc]
  split at h
  · rw [hsame.active]
    exact h
  · rw [hsame.active]
    exact ⟨h.1, hsame.endBit h.2.1, hsame.intBit h.2.2⟩
  · exact (h.irqStep hreads ht).1
  · obtain ⟨hstopped, hcomplete, -⟩ := h.1.irqStep hreads ht
    exact ⟨hstopped, hcomplete.trans h.2⟩
  · obtain ⟨hstopped, hcomplete, herror⟩ := h.1.irqStep hreads ht
    exact ⟨hstopped, hcomplete.trans h.2.1, herror.trans h.2.2⟩
  · obtain ⟨hstopped, hcomplete, herror⟩ := h.1.irqStep hreads ht
    exact ⟨hstopped, hcomplete.trans h.2.1, herror.trans h.2.2⟩
  · trivial

theorem Inv.preempt (h : Inv s) : Inv { s with irq := some .readCs } where
  numbered := ⟨h.numbered.active, h.numbered.ended, h.numbered.failed⟩
  results := ⟨h.results.returned, h.results.verdict⟩
  prepared := by
    have hprepared := h.prepared
    unfold Prepared at hprepared ⊢
    dsimp only
    split at hprepared
    · exact hprepared
    · exact hprepared
    · exact ⟨hprepared.1, hprepared.2.1, trivial⟩
    · exact ⟨⟨hprepared.1.1, hprepared.1.2.1, trivial⟩, hprepared.2⟩
    · exact ⟨⟨hprepared.1.1, hprepared.1.2.1, trivial⟩, hprepared.2⟩
    · exact ⟨⟨hprepared.1.1, hprepared.1.2.1, trivial⟩, hprepared.2⟩
    · trivial
  waiting hpc := by
    obtain ⟨id, hcurrent, hwait⟩ := h.waiting hpc
    exact ⟨id, hcurrent, hwait.active, hwait.status, hwait.complete, hwait.error, trivial,
      hwait.poll⟩

theorem Inv.irqStep (h : Inv s) (hreads : Reads s (.handleIrq read))
    (ht : irqStep s read = some t) : Inv t := by
  have hsame := sameCall_irqStep ht
  constructor
  · constructor
    · rw [hsame.active, hsame.started]
      exact h.numbered.active
    · rw [hsame.ended, hsame.started]
      exact h.numbered.ended
    · rw [hsame.failed, hsame.started]
      exact h.numbered.failed
  · rw [hsame.ended, hsame.failed]
    exact h.results.irqStep ht
  · exact h.prepared.irqStep hreads ht
  · rw [hsame.pc, hsame.current]
    intro hpc
    obtain ⟨x, hcurrent, hwait⟩ := h.waiting hpc
    exact ⟨x, hcurrent, hwait.irqStep hreads ht⟩

end Handler

section Task

variable {s t : State} {id : Nat} {v : Verdict} {read : Word}

/-- A call that has read neither a completion nor a fault. -/
theorem ownResult_error {ended failed : List Nat} (transfer : Option Nat) (err : DmaError)
    (herr : err ≠ .fault) : OwnResult ended failed transfer ⟨.error err, none⟩ := by
  constructor
  · exact nofun
  · intro hfault
    cases hfault
    exact absurd rfl herr

/-- What a step of `copy_2d` does to the numbers of the transfers. -/
structure SameOutcomes (s t : State) : Prop where
  ended : t.ended = s.ended
  failed : t.failed = s.failed
  started : s.started ≤ t.started
  active : ∀ id, t.active = some id → s.active = some id ∨ id < t.started

theorem sameOutcomes_taskStep (ht : taskStep s read = some t) : SameOutcomes s t := by
  cases taskStepped_of_taskStep ht with
  | stopped => exact ⟨rfl, rfl, Nat.le_refl _, nofun⟩
  | writeActive =>
      refine ⟨rfl, rfl, Nat.le_succ _, fun x hx => Or.inr ?_⟩
      cases hx
      exact Nat.lt_succ_self s.started
  | _ => exact ⟨rfl, rfl, Nat.le_refl _, fun _ => Or.inl⟩

theorem Numbered.taskStep (h : Numbered s) (ht : taskStep s read = some t) : Numbered t := by
  have hsame := sameOutcomes_taskStep ht
  constructor
  · intro x hx
    rcases hsame.active x hx with hactive | hlt
    · exact Nat.lt_of_lt_of_le (h.active x hactive) hsame.started
    · exact hlt
  · rw [hsame.ended]
    exact fun x hx => Nat.lt_of_lt_of_le (h.ended x hx) hsame.started
  · rw [hsame.failed]
    exact fun x hx => Nat.lt_of_lt_of_le (h.failed x hx) hsame.started

/-- The channel is stopped by the reset and cleared before a transfer starts. -/
theorem Prepared.taskStep (h : Prepared s) (hirq : s.irq = none)
    (ht : taskStep s read = some t) : Prepared t := by
  unfold Prepared at h
  cases taskStepped_of_taskStep ht with
  | stopped r =>
      cases r with
      | start => rfl
      | abort v => trivial
  | clearCs c hpc =>
      rw [hpc] at h
      rcases c with (_ | v) | v
      · exact ⟨h, rfl, rfl⟩
      · trivial
      · trivial
  | cleared hpc =>
      rw [hpc] at h
      obtain ⟨hactive, hend, hint⟩ := h
      refine ⟨hactive, ?_, ?_⟩
      · simp only [Status.writeDebug, Status.clear, hend, hint]
      · simp only [hirq, Quiet]
  | storeComplete hpc =>
      rw [hpc] at h
      exact ⟨h, rfl⟩
  | storeError hpc =>
      rw [hpc] at h
      exact ⟨h.1, h.2, rfl⟩
  | writeAddr hpc =>
      rw [hpc] at h
      exact h
  | _ => trivial

/-- A turn of `wait_for_transfer` that reads no result goes on waiting. -/
theorem Waiting.taskStep (h : Waiting id s) (hpc : s.pc.waiting = true)
    (hreads : Reads s (.task read)) (ht : taskStep s read = some t) (hwait : t.pc.waiting = true) :
    Waiting id t ∧ t.current = s.current := by
  unfold Reads at hreads
  cases taskStepped_of_taskStep ht with
  | noError | noComplete | noResult =>
      exact ⟨⟨h.active, h.status, h.complete, h.error, h.handler, trivial⟩, rfl⟩
  | readCs left hs =>
      rw [hs] at hreads
      exact ⟨⟨h.active, h.status, h.complete, h.error, h.handler, hreads, h.status⟩, rfl⟩
  | writeActive hs =>
      rw [hs] at hpc
      cases hpc
  | _ => cases hwait

/-- A result that is read comes from the transfer that the call waits for. -/
theorem Waiting.resultRead (h : Waiting id s) (hcurrent : s.current = some id)
    (hreads : Reads s (.task read)) (hv : resultRead s read = some v) :
    OwnResult s.ended s.failed s.current v := by
  have hpoll := h.poll
  unfold Reads at hreads
  unfold Bcm2835Dma.resultRead at hv
  split at hv
  · split_ifs at hv with herror
    cases hv
    exact ⟨nofun, fun _ => ⟨id, hcurrent, h.error herror⟩⟩
  · split_ifs at hv with hcomplete
    cases hv
    exact ⟨fun _ => ⟨id, hcurrent, h.complete hcomplete⟩, nofun⟩
  · rename_i hs
    rw [hs] at hreads hpoll
    unfold pollResult at hv
    split_ifs at hv with herr hend
    · cases hv
      exact ⟨nofun, fun _ => ⟨id, hcurrent, hpoll.2.fault h.status hpoll.1 hreads herr⟩⟩
    · cases hv
      exact ⟨fun _ => ⟨id, hcurrent, hpoll.2.completion hpoll.1 hend⟩, nofun⟩
  · cases hv

theorem waiting_of_resultRead (hv : resultRead s read = some v) : s.pc.waiting = true := by
  unfold resultRead at hv
  split at hv
  · rename_i hs
    rw [hs]
    rfl
  · rename_i hs
    rw [hs]
    rfl
  · rename_i hs
    rw [hs]
    rfl
  · cases hv

/-- A call starts waiting when it starts its transfer. -/
theorem waiting_of_taskStep (ht : taskStep s read = some t) (hwait : t.pc.waiting = true)
    (hpc : ¬s.pc.waiting = true) : s.pc = .writeActive := by
  cases taskStepped_of_taskStep ht with
  | writeActive hs => exact hs
  | noError left hs | noComplete left hs | readCs left hs | noResult left cs seen hs =>
      rw [hs] at hpc
      exact absurd rfl hpc
  | _ => cases hwait

/-- The transfer that starts on a stopped channel is the only one the call can see. -/
theorem waiting_of_writeActive (hprepared : Prepared s) (hirq : s.irq = none)
    (hpc : s.pc = .writeActive) (ht : taskStep s read = some t) :
    t.current = some s.started ∧ Waiting s.started t := by
  unfold Prepared at hprepared
  rw [hpc] at hprepared
  obtain ⟨⟨hactive, hstatus, hquiet⟩, hcomplete, herror⟩ := hprepared
  unfold taskStep at ht
  rw [hpc] at ht
  cases ht
  refine ⟨rfl, rfl, ?_, ?_, ?_, ?_, trivial⟩
  · simp only [hstatus, OwnBits.clear]
  · simp only [hcomplete, Bool.false_eq_true, false_implies]
  · simp only [herror, Bool.false_eq_true, false_implies]
  · simp only [hirq, OwnHandler]

theorem Inv.taskStep (h : Inv s) (hirq : s.irq = none) (hreads : Reads s (.task read))
    (ht : taskStep s read = some t) : Inv t where
  numbered := h.numbered.taskStep ht
  results := by
    have hsame := sameOutcomes_taskStep ht
    rw [hsame.ended, hsame.failed]
    refine h.results.taskStep ownResult_error (fun v hv => ?_) ht
    obtain ⟨id, hcurrent, hwait⟩ := h.waiting (waiting_of_resultRead hv)
    exact hwait.resultRead hcurrent hreads hv
  prepared := h.prepared.taskStep hirq ht
  waiting hwait := by
    by_cases hpc : s.pc.waiting = true
    · obtain ⟨id, hcurrent, hown⟩ := h.waiting hpc
      obtain ⟨hown', hsame⟩ := hown.taskStep hpc hreads ht hwait
      exact ⟨id, hsame.trans hcurrent, hown'⟩
    · have hactive := waiting_of_taskStep ht hwait hpc
      exact ⟨s.started, waiting_of_writeActive h.prepared hirq hactive ht⟩

theorem Inv.copy2d (h : Inv s) (transfer : Dma2DTransfer) : Inv (copy2d s transfer) := by
  have hnumbered := h.numbered
  have hresults := h.results.copy2d ownResult_error transfer
  revert hresults
  unfold Bcm2835Dma.copy2d
  split
  · split
    · intro hresults
      exact ⟨⟨hnumbered.active, hnumbered.ended, hnumbered.failed⟩, hresults, trivial, nofun⟩
    · intro hresults
      exact ⟨⟨hnumbered.active, hnumbered.ended, hnumbered.failed⟩, hresults, trivial, nofun⟩
  · intro hresults
    refine ⟨⟨hnumbered.active, hnumbered.ended, hnumbered.failed⟩, hresults, h.prepared, ?_⟩
    intro hpc
    obtain ⟨id, hcurrent, hwait⟩ := h.waiting hpc
    exact ⟨id, hcurrent, hwait.active, hwait.status, hwait.complete, hwait.error, hwait.handler,
      hwait.poll⟩

end Task

/-- The events that the registers allow. -/
theorem Inv.step {s t : State} {e : Event} (h : Inv s) (hreads : Reads s e)
    (ht : step s e = some t) : Inv t := by
  cases e with
  | copy2d transfer =>
      simp only [Bcm2835Dma.step] at ht
      split_ifs at ht
      cases ht
      exact h.copy2d transfer
  | task read =>
      simp only [Bcm2835Dma.step] at ht
      split_ifs at ht with hirq
      exact h.taskStep (Option.isNone_iff_eq_none.mp hirq) hreads ht
  | preempt =>
      simp only [Bcm2835Dma.step] at ht
      split_ifs at ht
      cases ht
      exact h.preempt
  | handleIrq read => exact h.irqStep hreads ht
  | raise endBit intBit err =>
      simp only [Bcm2835Dma.step] at ht
      split at ht
      · cases ht
      · rename_i id hactive
        cases ht
        exact h.raise hactive
  | resetClears =>
      simp only [Bcm2835Dma.step] at ht
      split at ht
      · rename_i r left hpc
        cases ht
        refine ⟨⟨h.numbered.active, h.numbered.ended, h.numbered.failed⟩,
          ⟨h.results.returned, h.results.verdict⟩, ?_, ?_⟩
        · simp only [Prepared, hpc]
        · simp only [hpc, Pc.waiting, Bool.false_eq_true, false_implies]
      · cases ht

theorem inv_start (channel : Nat) : Inv (start channel) where
  numbered := ⟨nofun, nofun, nofun⟩
  results := ⟨nofun, nofun⟩
  prepared := trivial
  waiting := nofun

/-- In every run each completion and each fault that a call returns comes from the transfer
that the call has started. -/
theorem inv_of_reachable {allowed : State → Event → Prop} (hreads : ∀ s e, allowed s e → Reads s e)
    {s : State} (h : Reachable (fun s => ∃ channel, s = start channel) (Step step allowed) s) :
    Inv s := by
  apply h.invariant
  · rintro s ⟨channel, rfl⟩
    exact inv_start channel
  · rintro s t - hinv ⟨e, hallowed, ht⟩
    exact hinv.step (hreads s e hallowed) ht

end Kruspix.Drivers.Dma.Bcm2835Dma
