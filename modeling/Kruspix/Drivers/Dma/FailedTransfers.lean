import Kruspix.Drivers.Dma.StaleResults

/-!
# A failed transfer is not reported as done

`wait_for_transfer` looks at `irq_error` once in a turn, before it looks at
`irq_complete` and polls. When the handler takes an error after that look and
the channel then sets `END`, the rest of the turn sees the end alone. Apart from
this window an error is either still shown by the channel or noted in
`irq_error`, and the call sees it first.
-/

namespace Kruspix.Drivers.Dma.Bcm2835Dma

open Lib.Masks Lib.Transition

/-- The call is in a turn of `wait_for_transfer` and has looked at `irq_error`. -/
def Pc.turn : Pc → Bool
  | .swapComplete _ => true
  | .readCs _ => true
  | .readDebug _ _ _ => true
  | _ => false

/-- A transfer that has set `END` or `INT` sets no error bit. One that has set an error bit sets
`END` and `INT` together with it, or not in a turn that has looked at `irq_error`. -/
def Settles (s : State) : Event → Prop
  | .raise endBit intBit err =>
      match s.active with
      | none => True
      | some id =>
          (err = true → id ∉ s.ended) ∧
            ((endBit || intBit) = true → id ∈ s.failed → s.pc.turn = false)
  | _ => True

instance (s : State) (e : Event) : Decidable (Settles s e) :=
  match e with
  | .raise endBit intBit err =>
      decidable_of_iff (∀ id ∈ s.active, (err = true → id ∉ s.ended) ∧
          ((endBit || intBit) = true → id ∈ s.failed → s.pc.turn = false)) (by
        unfold Settles
        cases s.active <;> simp)
  | .copy2d _ | .task _ | .preempt | .handleIrq _ | .resetClears => inferInstanceAs (Decidable True)

/-- A call that reports success started a transfer that has ended and not failed, and read this
from that transfer. A call that reports a fault read it from its own transfer too. -/
def Sound (s : State) : Prop :=
  ∀ r, r ∈ s.returned →
    (r.result = .ok () →
      ∃ id, r.transfer = some id ∧ r.cause = some id ∧ id ∈ s.ended ∧ id ∉ s.failed) ∧
    (r.result = .error .fault → ∃ id, r.transfer = some id ∧ r.cause = some id ∧ id ∈ s.failed)

/-- The transfer of a success has not failed. -/
def CleanResult (failed : List Nat) (transfer : Option Nat) (v : Verdict) : Prop :=
  v.result = .ok () → ∀ id, transfer = some id → id ∉ failed

/-- The next access of the call is the look at `irq_error`, and it finds an error. -/
def Caught (s : State) : Prop := s.irqError = true ∧ s.pc.turn = false

/-- The handler does not hide an error of transfer `id`. -/
def CoveredHandler (id : Nat) (s : State) : Option IrqPc → Prop
  | some (.readDebug _ seen) =>
      seen.completion.isSome = true → seen.errBits = none → id ∈ s.failed → Caught s
  | some (.storeComplete _) => id ∈ s.failed → Caught s
  | some .clearCs => (id ∈ s.ended ∨ id ∈ s.failed) ∧ (id ∈ s.failed → s.irqError = true)
  | some .clearDebug =>
      (id ∈ s.ended ∨ id ∈ s.failed) ∧ (id ∈ s.failed → s.irqError = true) ∧
        (id ∈ s.failed → s.status.completion.isSome = true → Caught s)
  | _ => True

/-- What the poll has read does not hide an error of transfer `id`. -/
def CoveredPoll (id : Nat) (failed : List Nat) : Pc → Prop
  | .readDebug _ _ seen => seen.completion.isSome = true → seen.errBits = none → id ∉ failed
  | _ => True

/-- An error of transfer `id` is not lost, and comes before its end. -/
structure Covered (id : Nat) (s : State) : Prop where
  known : id ∈ s.failed → s.status.errBits.isSome = true ∨ s.irqError = true
  shown : id ∈ s.failed → s.status.completion.isSome = true →
    s.status.errBits.isSome = true ∨ Caught s
  complete : id ∈ s.failed → s.irqComplete = true → Caught s
  handler : CoveredHandler id s s.irq
  poll : CoveredPoll id s.failed s.pc

/-- No failed transfer has returned a success, and the error of the one that is waited for is not
lost. -/
structure Settled (s : State) : Prop where
  results : Results (CleanResult s.failed) s
  waiting : s.pc.waiting = true → ∀ id, s.current = some id → Covered id s

section Bits

variable {id : Nat} {ended failed : List Nat} {bits seen : Status} {cs debug : Word}

theorem OwnBits.mem_ended (h : OwnBits id ended failed bits) (hbits : bits.completion.isSome = true) :
    id ∈ ended := by
  rw [Status.completion] at hbits
  cases hend : bits.endBit with
  | some x => exact (h.endBit x hend).2
  | none =>
      rw [hend] at hbits
      obtain ⟨x, hx⟩ := Option.isSome_iff_exists.mp hbits
      exact (h.intBit x hx).2

theorem completion_of_has (hshows : seen.ShowsCs cs)
    (hcs : has cs (BCM2835_DMA_CS_END ||| BCM2835_DMA_CS_INT) = true) :
    seen.completion.isSome = true := by
  obtain ⟨hend, hint, -⟩ := hshows
  rw [has_mask_or, hend, hint] at hcs
  rw [Status.completion]
  cases hs : seen.endBit with
  | some x => rfl
  | none =>
      rw [hs] at hcs
      exact hcs

theorem errBits_of_not_has (hshows : seen.ShowsCs cs)
    (herr : ¬(has cs BCM2835_DMA_CS_ERR || has debug BCM2835_DMA_DEBUG_CLEAR_MASK) = true) :
    seen.errBits = none := by
  obtain ⟨-, -, hcs⟩ := hshows
  rw [Bool.or_eq_true, not_or, hcs] at herr
  exact Option.not_isSome_iff_eq_none.mp herr.1

end Bits

section Raise

variable {s : State} {id : Nat} {endBit intBit err : Bool}

/-- A transfer that has ended does not fail. -/
theorem failed_raise_of_ended (herr : err = true → id ∉ s.ended) (hended : id ∈ s.ended) :
    (s.raise id endBit intBit err).failed = s.failed := by
  cases err with
  | false => rfl
  | true => exact absurd hended (herr rfl)

theorem completion_raise (hbits : ¬(endBit || intBit) = true) :
    (s.status.raise id endBit intBit err).completion = s.status.completion := by
  rw [Bool.or_eq_true, not_or, Bool.not_eq_true, Bool.not_eq_true] at hbits
  rw [hbits.1, hbits.2]
  rfl

theorem CleanResult.raise {transfer : Option Nat} {v : Verdict}
    (h : CleanResult s.failed transfer v) (hown : OwnResult s.ended s.failed transfer v)
    (herr : err = true → id ∉ s.ended) :
    CleanResult (s.raise id endBit intBit err).failed transfer v := by
  intro hok x hx
  obtain ⟨y, hy, -, hended⟩ := hown.1 hok
  obtain rfl : y = x := Option.some.inj (hy.symm.trans hx)
  have hclean := h hok y hx
  cases err with
  | false => exact hclean
  | true =>
      intro hfailed
      rcases List.mem_cons.mp hfailed with rfl | hfailed
      · exact herr rfl hended
      · exact hclean hfailed

/-- An error that is not new was known. -/
theorem mem_failed_of_raise (herr : err = true → id ∉ s.ended)
    (hor : id ∈ s.ended ∨ id ∈ s.failed) (h : id ∈ (s.raise id endBit intBit err).failed) :
    id ∈ s.failed := by
  rcases hor with hended | hfailed
  · rw [failed_raise_of_ended herr hended] at h
    exact h
  · exact hfailed

/-- The bits that a transfer sets do not make the handler hide an error. -/
theorem CoveredHandler.raise (h : CoveredHandler id s s.irq) (hown : OwnHandler id s.ended s.failed s.irq)
    (herr : err = true → id ∉ s.ended)
    (hturn : (endBit || intBit) = true → id ∈ s.failed → s.pc.turn = false) :
    CoveredHandler id (s.raise id endBit intBit err) s.irq := by
  rcases hirq : s.irq with _ | _ | ⟨cs, seen⟩ | cause | cause | _ | _
  all_goals rw [hirq] at h hown
  · trivial
  · trivial
  · intro hcompletion hnone hfailed
    rw [failed_raise_of_ended herr (hown.2.mem_ended hcompletion)] at hfailed
    exact h hcompletion hnone hfailed
  · trivial
  · intro hfailed
    rw [failed_raise_of_ended herr hown.2] at hfailed
    exact h hfailed
  · refine ⟨h.1.imp (fun hid => ended_raise hid) (fun hid => failed_raise hid), fun hfailed => ?_⟩
    exact h.2 (mem_failed_of_raise herr h.1 hfailed)
  · obtain ⟨hor, hknown, hshown⟩ := h
    refine ⟨hor.imp (fun hid => ended_raise hid) (fun hid => failed_raise hid), fun hfailed => ?_,
      fun hfailed hcompletion => ?_⟩
    · exact hknown (mem_failed_of_raise herr hor hfailed)
    · have hid := mem_failed_of_raise herr hor hfailed
      by_cases hbits : (endBit || intBit) = true
      · exact ⟨hknown hid, hturn hbits hid⟩
      · apply hshown hid
        exact (congrArg Option.isSome (completion_raise hbits)).symm.trans hcompletion

/-- The bits that a transfer sets hide no error that it had before. -/
theorem Covered.raise (h : Covered id s) (hwait : Waiting id s)
    (herr : err = true → id ∉ s.ended)
    (hturn : (endBit || intBit) = true → id ∈ s.failed → s.pc.turn = false) :
    Covered id (s.raise id endBit intBit err) where
  known hfailed := by
    cases err with
    | true => exact Or.inl rfl
    | false => exact h.known hfailed
  shown hfailed hcompletion := by
    cases err with
    | true => exact Or.inl rfl
    | false =>
        by_cases hbits : (endBit || intBit) = true
        · exact (h.known hfailed).imp_right fun herror => ⟨herror, hturn hbits hfailed⟩
        · apply h.shown hfailed
          exact (congrArg Option.isSome (completion_raise hbits)).symm.trans hcompletion
  complete hfailed hcomplete := by
    rw [failed_raise_of_ended herr (hwait.complete hcomplete).2] at hfailed
    exact h.complete hfailed hcomplete
  handler := h.handler.raise hwait.handler herr hturn
  poll := by
    have hpoll := h.poll
    have hown := hwait.poll
    change CoveredPoll id (s.raise id endBit intBit err).failed s.pc
    cases hpc : s.pc with
    | readDebug left cs seen =>
        rw [hpc] at hpoll hown
        intro hcompletion hnone
        rw [failed_raise_of_ended herr (hown.2.mem_ended hcompletion)]
        exact hpoll hcompletion hnone
    | _ => trivial

end Raise

section Handler

variable {s t : State} {id : Nat} {read : Word}

/-- The handler notes an error before it clears it. -/
theorem Covered.irqStep (h : Covered id s) (hwait : Waiting id s)
    (ht : irqStep s read = some t) : Covered id t := by
  have hhandler := h.handler
  have hown := hwait.handler
  cases irqStepped_of_irqStep ht with
  | readCs =>
      refine ⟨h.known, h.shown, h.complete, ?_, h.poll⟩
      intro hcompletion hnone hfailed
      refine (h.shown hfailed hcompletion).resolve_left ?_
      rw [hnone]
      exact Bool.false_ne_true
  | spurious | sawError => exact ⟨h.known, h.shown, h.complete, trivial, h.poll⟩
  | sawComplete cs seen hirq hbits herr =>
      rw [hirq] at hhandler hown
      exact ⟨h.known, h.shown, h.complete, hhandler
        (completion_of_has hown.1 (has_completion hbits herr)) (errBits_of_not_has hown.1 herr),
        h.poll⟩
  | storeError cause hirq =>
      rw [hirq] at hown
      exact ⟨fun _ => Or.inr rfl,
        fun hfailed hcompletion => (h.shown hfailed hcompletion).imp_right fun hc => ⟨rfl, hc.2⟩,
        fun hfailed hcomplete => ⟨rfl, (h.complete hfailed hcomplete).2⟩,
        ⟨Or.inr hown.2, fun _ => rfl⟩, h.poll⟩
  | storeComplete cause hirq =>
      rw [hirq] at hown hhandler
      exact ⟨h.known, h.shown, fun hfailed _ => hhandler hfailed,
        ⟨Or.inl hown.2, fun hfailed => (hhandler hfailed).1⟩, h.poll⟩
  | clearCs hirq =>
      rw [hirq] at hhandler
      exact ⟨h.known, fun _ => nofun, h.complete, ⟨hhandler.1, hhandler.2, fun _ => nofun⟩,
        h.poll⟩
  | clearDebug hirq =>
      rw [hirq] at hhandler
      obtain ⟨-, hknown, hshown⟩ := hhandler
      exact ⟨fun hfailed => Or.inr (hknown hfailed),
        fun hfailed hcompletion => Or.inr (hshown hfailed hcompletion), h.complete, trivial,
        h.poll⟩

end Handler

section Task

variable {s t : State} {id : Nat} {v : Verdict} {read : Word}

/-- In a turn that has looked at `irq_error` no error is caught. -/
theorem not_caught (hturn : s.pc.turn = true) : ¬Caught s := by
  intro hcaught
  rw [hcaught.2] at hturn
  cases hturn

/-- The look at `irq_error` ends the wait, or finds nothing and starts a turn. -/
theorem Covered.taskStep (h : Covered id s) (hpc : s.pc.waiting = true) (hirq : s.irq = none)
    (ht : taskStep s read = some t) (hwait : t.pc.waiting = true) : Covered id t := by
  have hidle : ∀ u : State, CoveredHandler id u s.irq := by
    rw [hirq]
    exact fun _ => trivial
  have hlost (hcaught : ¬Caught s) (hfailed : id ∈ s.failed)
      (hcompletion : s.status.completion.isSome = true) : s.status.errBits.isSome = true :=
    (h.shown hfailed hcompletion).resolve_right hcaught
  cases taskStepped_of_taskStep ht with
  | noError left hs herror =>
      have hcaught : ¬Caught s := fun hc => herror hc.1
      exact ⟨h.known, fun hfailed hcompletion => Or.inl (hlost hcaught hfailed hcompletion),
        fun hfailed hcomplete => absurd (h.complete hfailed hcomplete) hcaught, hidle _, trivial⟩
  | noComplete left hs | noResult left cs seen hs =>
      have hcaught : ¬Caught s := not_caught (by rw [hs]; rfl)
      exact ⟨h.known, fun hfailed hcompletion => Or.inl (hlost hcaught hfailed hcompletion),
        fun hfailed hcomplete => absurd (h.complete hfailed hcomplete) hcaught, hidle _, trivial⟩
  | readCs left hs =>
      have hcaught : ¬Caught s := not_caught (by rw [hs]; rfl)
      refine ⟨h.known, fun hfailed hcompletion => Or.inl (hlost hcaught hfailed hcompletion),
        fun hfailed hcomplete => absurd (h.complete hfailed hcomplete) hcaught, hidle _, ?_⟩
      intro hcompletion hnone hfailed
      have herr := hlost hcaught hfailed hcompletion
      rw [hnone] at herr
      cases herr
  | writeActive hs =>
      rw [hs] at hpc
      cases hpc
  | _ => cases hwait

/-- A completion is read in a turn that has found no error, and hides none. -/
theorem Covered.resultRead (h : Covered id s) (hown : OwnPoll id s.ended s.failed s.pc)
    (hcurrent : s.current = some id) (hv : resultRead s read = some v) :
    CleanResult s.failed s.current v := by
  have hpoll := h.poll
  unfold Bcm2835Dma.resultRead at hv
  intro hok x hx
  obtain rfl : id = x := Option.some.inj (hcurrent.symm.trans hx)
  split at hv
  · split_ifs at hv
    cases hv
    cases hok
  · rename_i left hs
    split_ifs at hv with hcomplete
    exact fun hfailed => not_caught (by rw [hs]; rfl) (h.complete hfailed hcomplete)
  · rename_i left cs seen hs
    rw [hs] at hpoll hown
    unfold pollResult at hv
    split_ifs at hv with herr hend
    · cases hv
      cases hok
    · exact hpoll (completion_of_has hown.1 hend) (errBits_of_not_has hown.1 herr)
  · cases hv

/-- A transfer that has just been started has not failed. -/
theorem covered_of_writeActive (hnumbered : Numbered s) (hirq : s.irq = none)
    (hpc : s.pc = .writeActive) (ht : taskStep s read = some t) : Covered s.started t := by
  have hnew : s.started ∉ s.failed := fun hfailed =>
    Nat.lt_irrefl s.started (hnumbered.failed s.started hfailed)
  unfold taskStep at ht
  rw [hpc] at ht
  cases ht
  refine ⟨fun hfailed => absurd hfailed hnew, fun hfailed => absurd hfailed hnew,
    fun hfailed => absurd hfailed hnew, ?_, trivial⟩
  rw [hirq]
  trivial

theorem cleanResult_error {failed : List Nat} (transfer : Option Nat) (err : DmaError)
    (_ : err ≠ .fault) : CleanResult failed transfer ⟨.error err, none⟩ := nofun

theorem Settled.taskStep (h : Settled s) (hinv : Inv s) (hirq : s.irq = none)
    (hreads : Reads s (.task read)) (ht : taskStep s read = some t) : Settled t where
  results := by
    rw [(sameOutcomes_taskStep ht).failed]
    refine h.results.taskStep cleanResult_error (fun v hv => ?_) ht
    have hpc := waiting_of_resultRead hv
    obtain ⟨id, hcurrent, hown⟩ := hinv.waiting hpc
    exact (h.waiting hpc id hcurrent).resultRead hown.poll hcurrent hv
  waiting hwait x hx := by
    by_cases hpc : s.pc.waiting = true
    · obtain ⟨id, hcurrent, hown⟩ := hinv.waiting hpc
      obtain ⟨-, hsame⟩ := hown.taskStep hpc hreads ht hwait
      rw [hsame] at hx
      exact (h.waiting hpc x hx).taskStep hpc hirq ht hwait
    · have hactive := waiting_of_taskStep ht hwait hpc
      obtain ⟨hcurrent, -⟩ := waiting_of_writeActive hinv.prepared hirq hactive ht
      obtain rfl : s.started = x := Option.some.inj (hcurrent.symm.trans hx)
      exact covered_of_writeActive hinv.numbered hirq hactive ht

theorem Settled.copy2d (h : Settled s) (transfer : Dma2DTransfer) :
    Settled (copy2d s transfer) := by
  have hresults := h.results.copy2d cleanResult_error transfer
  revert hresults
  unfold Bcm2835Dma.copy2d
  split
  · split
    · exact fun hresults => ⟨hresults, nofun⟩
    · exact fun hresults => ⟨hresults, nofun⟩
  · refine fun hresults => ⟨hresults, fun hpc id hcurrent => ?_⟩
    have hcovered := h.waiting hpc id hcurrent
    refine ⟨hcovered.known, hcovered.shown, hcovered.complete, ?_, hcovered.poll⟩
    have hhandler := hcovered.handler
    revert hhandler
    dsimp only
    rcases s.irq with _ | _ | ⟨cs, seen⟩ | cause | cause | _ | _ <;> exact fun hhandler => hhandler

end Task

/-- A step of a channel whose transfers settle. -/
theorem Settled.step {s t : State} {e : Event} (h : Settled s) (hinv : Inv s) (hreads : Reads s e)
    (hsettles : Settles s e) (ht : step s e = some t) : Settled t := by
  cases e with
  | copy2d transfer =>
      simp only [Bcm2835Dma.step] at ht
      split_ifs at ht
      cases ht
      exact h.copy2d transfer
  | task read =>
      simp only [Bcm2835Dma.step] at ht
      split_ifs at ht with hirq
      exact h.taskStep hinv (Option.isNone_iff_eq_none.mp hirq) hreads ht
  | preempt =>
      simp only [Bcm2835Dma.step] at ht
      split_ifs at ht
      cases ht
      refine ⟨⟨h.results.returned, h.results.verdict⟩, fun hpc id hcurrent => ?_⟩
      have hcovered := h.waiting hpc id hcurrent
      exact ⟨hcovered.known, hcovered.shown, hcovered.complete, trivial, hcovered.poll⟩
  | handleIrq read =>
      have hsame := sameCall_irqStep ht
      refine ⟨?_, fun hpc id hcurrent => ?_⟩
      · rw [hsame.failed]
        exact h.results.irqStep ht
      · rw [hsame.pc] at hpc
        rw [hsame.current] at hcurrent
        obtain ⟨x, hx, hown⟩ := hinv.waiting hpc
        obtain rfl : x = id := Option.some.inj (hx.symm.trans hcurrent)
        exact (h.waiting hpc x hcurrent).irqStep hown ht
  | raise endBit intBit err =>
      simp only [Bcm2835Dma.step] at ht
      simp only [Settles] at hsettles
      split at ht
      · cases ht
      · rename_i id hactive
        rw [hactive] at hsettles
        cases ht
        refine ⟨⟨fun r hr => ?_, fun v hv => ?_⟩, fun hpc x hcurrent => ?_⟩
        · exact (h.results.returned r hr).raise (hinv.results.returned r hr) hsettles.1
        · exact (h.results.verdict v hv).raise (hinv.results.verdict v hv) hsettles.1
        · obtain ⟨y, hy, hown⟩ := hinv.waiting hpc
          obtain rfl : y = x := Option.some.inj (hy.symm.trans hcurrent)
          obtain rfl : y = id := Option.some.inj (hown.active.symm.trans hactive)
          exact (h.waiting hpc y hcurrent).raise hown hsettles.1 hsettles.2
  | resetClears =>
      simp only [Bcm2835Dma.step] at ht
      split at ht
      · rename_i r left hpc
        cases ht
        refine ⟨⟨h.results.returned, h.results.verdict⟩, ?_⟩
        simp only [hpc, Pc.waiting, Bool.false_eq_true, false_implies]
      · cases ht

theorem settled_start (channel : Nat) : Settled (start channel) where
  results := ⟨nofun, nofun⟩
  waiting := nofun

/-- The runs of the channel whose registers read what it has set and whose transfers settle. -/
def Runs (s : State) : Prop :=
  Reachable (fun s => ∃ channel, s = start channel)
    (Step step fun s e => Reads s e ∧ Settles s e) s

theorem settled_of_runs {s : State} (h : Runs s) : Settled s := by
  apply h.invariant
  · rintro s ⟨channel, rfl⟩
    exact settled_start channel
  · rintro s t hreach hsettled ⟨e, ⟨hreads, hsettles⟩, ht⟩
    have hinv : Inv s := inv_of_reachable (fun _ _ hallowed => hallowed.1) hreach
    exact hsettled.step hinv hreads hsettles ht

/-- A call returns success only if its own transfer has ended without an error, and never the
end or the fault of another transfer. -/
theorem runs_sound {s : State} (h : Runs s) : Sound s := by
  have hinv : Inv s := inv_of_reachable (fun _ _ hallowed => hallowed.1) h
  have hsettled := settled_of_runs h
  intro r hr
  obtain ⟨hok, hfault⟩ := hinv.results.returned r hr
  refine ⟨fun hresult => ?_, hfault⟩
  obtain ⟨id, htransfer, hcause, hended⟩ := hok hresult
  exact ⟨id, htransfer, hcause, hended, hsettled.results.returned r hr hresult id htransfer⟩

/-- One row of four bytes. -/
def row : Dma2DTransfer := ⟨0, 64, 4, 1, 0, 0⟩

/-- A call of `copy_2d` up to the first look at `irq_error`. -/
def submit : List Event :=
  [.copy2d row, .task 0, .task 0, .task 0, .task 0, .task 0, .task 0, .task 0, .task 0]

/-- A transfer that ends while the call waits. The handler stores this and the call returns it. -/
theorem runs_sound_ended :
    ∃ s, Sound s ∧ s.returned.map (fun r => (r.result.toBool, r.transfer, r.cause)) =
      [(true, some 0, some 0)] := by
  have hrun : (run step (fun s e => Reads s e ∧ Settles s e) (start 0) (submit ++
      [.raise true true false, .preempt, .handleIrq 6, .handleIrq 0, .handleIrq 0, .handleIrq 0,
        .handleIrq 0, .task 0, .task 0])).map
        (fun s => s.returned.map fun r => (r.result.toBool, r.transfer, r.cause)) =
      some [(true, some 0, some 0)] := by
    decide +kernel
  obtain ⟨s, hs, hreturned⟩ := Option.map_eq_some_iff.mp hrun
  exact ⟨s, runs_sound ⟨start 0, ⟨0, rfl⟩, reflTransGen_of_run _ hs⟩, hreturned⟩

/-- The channel sets an error bit when the call has looked at `irq_error`, the handler takes the
error, and then the channel sets `END`. The call returns success. -/
theorem not_sound_lost_error :
    ¬ ∀ s, Reachable (fun s => ∃ channel, s = start channel) (Step step Reads) s → Sound s := by
  have hrun : (run step Reads (start 0) (submit ++
      [.task 0, .raise false false true, .preempt, .handleIrq 0x100, .handleIrq 1, .handleIrq 0,
        .handleIrq 0, .handleIrq 0, .raise true false false, .task 0, .task 2, .task 0, .task 0,
        .task 0])).map
        (fun s => (s.returned.map fun r => (r.result.toBool, r.transfer), s.failed)) =
      some ([(true, some 0)], [0]) := by
    decide +kernel
  obtain ⟨s, hs, hreturned⟩ := Option.map_eq_some_iff.mp hrun
  obtain ⟨hmap, hfailed⟩ := Prod.mk.inj hreturned
  intro hall
  have hsound := hall s ⟨start 0, ⟨0, rfl⟩, reflTransGen_of_run _ hs⟩
  obtain ⟨r, hr, hmapped⟩ := List.mem_map.mp (hmap ▸ List.mem_singleton_self (true, some 0))
  obtain ⟨hok, htransfer⟩ := Prod.mk.inj hmapped
  have hresult : r.result = .ok () := by
    cases hr : r.result with
    | ok _ => rfl
    | error err =>
        rw [hr] at hok
        cases hok
  obtain ⟨id, hid, -, -, hclean⟩ := (hsound r hr).1 hresult
  obtain rfl : id = 0 := Option.some.inj (hid.symm.trans htransfer)
  apply hclean
  rw [hfailed]
  exact List.mem_singleton_self 0

end Kruspix.Drivers.Dma.Bcm2835Dma
