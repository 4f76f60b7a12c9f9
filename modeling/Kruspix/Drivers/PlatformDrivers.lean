import Kruspix.Drivers.InterruptController
import Kruspix.Lib.LeastClosed
import Mathlib.Data.List.Perm.Basic

/-!
# Bringing up the platform drivers

The nodes that wait for their driver are filtered in place, pass after pass, until a pass
initializes none of them. A driver is code of its own: its answer may depend on all that
was tried before, with what came of it.
-/

namespace Kruspix.Drivers.PlatformDrivers

open Kernel.Devicetree InterruptController Lib.LeastClosed

/-- The errors of the platform drivers. -/
inductive DriverInitError
  | deviceReserved
  | deviceDisabled
  | deviceFailed
  | retry
  | deviceTreeError
  | toDo
  deriving DecidableEq, Repr

/-- A call of `try_init` and its result. -/
structure Attempt where
  node : NodePtr
  result : Except DriverInitError Unit

/-- The nodes whose driver returned `Ok`, in this order. -/
def initialized (history : List Attempt) : List NodePtr :=
  history.filterMap fun attempt =>
    match attempt.result with
    | .ok _ => some attempt.node
    | .error _ => none

/-- `try_init` of a driver, after these calls, on a node. -/
abbrev TryInit := String → List Attempt → NodePtr → Except DriverInitError Unit

/-- The flag of the loop, the calls of `try_init` and the bindings of the device manager,
each a driver and a path. -/
structure State where
  progress : Bool
  history : List Attempt
  bindings : List (String × String)

/-- Nothing is initialized. -/
def State.new : State := ⟨true, [], []⟩

/-- Bind a device to its driver. -/
def State.registerDevice (s : State) (driver path : String) : State :=
  { s with bindings := s.bindings ++ [(driver, path)] }

variable (tryInit : TryInit)

/-- The closure that `retain` calls: whether the node is kept. -/
def tryNode (s : State) (node : NodePtr) : State × Bool :=
  match matchDriver node.node with
  | none => (s, false)
  | some driver =>
      let result := tryInit driver s.history node
      let s := { s with history := s.history ++ [⟨node, result⟩] }
      match result with
      | .ok _ => ({ s.registerDevice driver node.path with progress := true }, false)
      | .error .retry => (s, true)
      | .error _ => (s, false)

/-- `retain`, with the nodes it keeps. -/
def retain : State → List NodePtr → State × List NodePtr
  | s, [] => (s, [])
  | s, node :: nodes =>
      let (s, keep) := tryNode tryInit s node
      let (s, kept) := retain s nodes
      (s, if keep then node :: kept else kept)

theorem retain_cons (s : State) (node : NodePtr) (nodes : List NodePtr) :
    retain tryInit s (node :: nodes) =
      let tried := tryNode tryInit s node
      let passed := retain tryInit tried.1 nodes
      (passed.1, if tried.2 then node :: passed.2 else passed.2) := rfl

theorem tryNode_progress {s : State} {node : NodePtr} (h : s.progress = true) :
    (tryNode tryInit s node).1.progress = true := by
  unfold tryNode
  split
  · exact h
  · dsimp only
    split
    · rfl
    · exact h
    · exact h

theorem retain_progress {s : State} {nodes : List NodePtr} (h : s.progress = true) :
    (retain tryInit s nodes).1.progress = true := by
  induction nodes generalizing s with
  | nil => exact h
  | cons node nodes ih => exact ih (tryNode_progress tryInit h)

theorem retain_sublist (s : State) (nodes : List NodePtr) :
    (retain tryInit s nodes).2.Sublist nodes := by
  induction nodes generalizing s with
  | nil => exact .refl _
  | cons node nodes ih =>
      rw [retain_cons]
      dsimp only
      split
      · exact (ih _).cons_cons node
      · exact (ih _).cons node

/-- The flag is set by a node that is not kept. -/
theorem tryNode_keep {s : State} {node : NodePtr} (h : s.progress = false)
    (hp : (tryNode tryInit s node).1.progress = true) : (tryNode tryInit s node).2 = false := by
  revert hp
  unfold tryNode
  split
  · simp
  · dsimp only
    split
    · simp
    · simp [h]
    · simp

/-- A pass with progress leaves fewer nodes. -/
theorem retain_length_lt {s : State} {nodes : List NodePtr} (h : s.progress = false)
    (hp : (retain tryInit s nodes).1.progress = true) :
    (retain tryInit s nodes).2.length < nodes.length := by
  induction nodes generalizing s with
  | nil =>
      rw [retain, h] at hp
      cases hp
  | cons node nodes ih =>
      have hle := (retain_sublist tryInit (tryNode tryInit s node).1 nodes).length_le
      rw [retain_cons] at hp ⊢
      dsimp only at hp ⊢
      cases hmid : (tryNode tryInit s node).1.progress with
      | true =>
          rw [tryNode_keep tryInit h hmid]
          simp only [Bool.false_eq_true, if_false, List.length_cons]
          omega
      | false =>
          have hlt := ih hmid hp
          split
          · simp only [List.length_cons]
            omega
          · simp only [List.length_cons]
            omega

/-- The loop over the passes. -/
def initNodes (s : State) (uninitializedDeviceNodes : List NodePtr) : State :=
  if s.progress && !uninitializedDeviceNodes.isEmpty then
    initNodes (retain tryInit { s with progress := false } uninitializedDeviceNodes).1
      (retain tryInit { s with progress := false } uninitializedDeviceNodes).2
  else s
termination_by uninitializedDeviceNodes.length + s.progress.toNat
decreasing_by
  rename_i h
  have hle := (retain_sublist tryInit { s with progress := false }
    uninitializedDeviceNodes).length_le
  rw [(Bool.and_eq_true_iff.mp h).1]
  cases hp : (retain tryInit { s with progress := false } uninitializedDeviceNodes).1.progress with
  | true =>
      have hlt := retain_length_lt tryInit rfl hp
      simp only [Bool.toNat_true]
      omega
  | false =>
      simp only [Bool.toNat_true, Bool.toNat_false]
      omega

/-- What each try keeps holds after the passes. -/
theorem initNodes_keeps {P : State → Prop} (hpass : ∀ s, P s → P { s with progress := false })
    (htry : ∀ s node, P s → P (tryNode tryInit s node).1) {s : State} (nodes : List NodePtr)
    (h : P s) : P (initNodes tryInit s nodes) := by
  have hretain : ∀ (nodes : List NodePtr) (s : State), P s → P (retain tryInit s nodes).1 := by
    intro nodes
    induction nodes with
    | nil => exact fun s hs => hs
    | cons node nodes ih => exact fun s hs => ih _ (htry s node hs)
  induction s, nodes using initNodes.induct tryInit with
  | case1 s nodes hloop ih =>
      rw [initNodes, if_pos hloop]
      exact ih (hretain nodes _ (hpass s h))
  | case2 s nodes hloop =>
      rw [initNodes, if_neg hloop]
      exact h

/-- Bring up the nodes of the tree. -/
def initPlatformDrivers (dt : DeviceTree) : State :=
  initNodes tryInit State.new (deviceNodes dt)

/-! ## The order of the dependencies -/

variable {tryInit}

/-- All that the node depends on has been initialized. -/
def Ready (dep : NodePtr → NodePtr → Prop) (history : List Attempt) (node : NodePtr) : Prop :=
  ∀ other, dep node other → other ∈ initialized history

/-- The drivers ask for another try until the dependencies are there. Some nodes fail then. -/
structure Follows (tryInit : TryInit) (nodes : List NodePtr) (dep : NodePtr → NodePtr → Prop)
    (fails : NodePtr → Prop) : Prop where
  ok {node : NodePtr} {driver : String} {history : List Attempt} (hnode : node ∈ nodes)
    (hdriver : matchDriver node.node = some driver)
    (hhistory : ∀ attempt ∈ history, attempt.node ∈ nodes) :
    tryInit driver history node = .ok () ↔ Ready dep history node ∧ ¬fails node
  retry {node : NodePtr} {driver : String} {history : List Attempt} (hnode : node ∈ nodes)
    (hdriver : matchDriver node.node = some driver)
    (hhistory : ∀ attempt ∈ history, attempt.node ∈ nodes) :
    tryInit driver history node = .error .retry ↔ ¬Ready dep history node

/-- A node that can be initialized: it has a driver, which does not fail on it. -/
def Live (nodes : List NodePtr) (fails : NodePtr → Prop) (node : NodePtr) : Prop :=
  node ∈ nodes ∧ (matchDriver node.node).isSome ∧ ¬fails node

/-- A node with a result other than `Retry` is not tried again. -/
def Final (history : List Attempt) : Prop :=
  history.Pairwise fun earlier later => earlier.result ≠ .error .retry → later.node ≠ earlier.node

/-- The outcome of bringing up the nodes. Nothing in it depends on their order. -/
structure BroughtUp (nodes : List NodePtr) (dep : NodePtr → NodePtr → Prop)
    (fails : NodePtr → Prop) (s : State) : Prop where
  /-- The nodes initialized are those of the least closed set. -/
  least : IsLeast {set | Closed dep (Live nodes fails) set} {node | node ∈ initialized s.history}
  once : (initialized s.history).Nodup
  /-- Each of them has its one binding. -/
  registered : s.bindings.map (fun binding => (some binding.1, binding.2)) =
    (initialized s.history).map fun node => (matchDriver node.node, node.path)
  final : Final s.history

@[simp] theorem initialized_append_ok (history : List Attempt) (node : NodePtr) :
    initialized (history ++ [⟨node, .ok ()⟩]) = initialized history ++ [node] := by
  simp [initialized]

@[simp] theorem initialized_append_error (history : List Attempt) (node : NodePtr)
    (e : DriverInitError) :
    initialized (history ++ [⟨node, .error e⟩]) = initialized history := by
  simp [initialized]

theorem mem_initialized {history : List Attempt} {node : NodePtr} :
    node ∈ initialized history ↔ ∃ attempt ∈ history, attempt.node = node ∧
      attempt.result = .ok () := by
  simp only [initialized, List.mem_filterMap]
  constructor
  · rintro ⟨attempt, hmem, hsome⟩
    split at hsome
    · rename_i hok
      exact ⟨attempt, hmem, Option.some.inj hsome, hok⟩
    · cases hsome
  · rintro ⟨attempt, hmem, rfl, hok⟩
    exact ⟨attempt, hmem, by rw [hok]⟩

/-- The drivers that returned `Ok`, with the paths of their nodes. -/
def registrations (history : List Attempt) : List (String × String) :=
  (initialized history).filterMap fun node =>
    (matchDriver node.node).map fun driver => (driver, node.path)

theorem tryNode_registered {s : State} (node : NodePtr) (h : s.bindings = registrations s.history) :
    (tryNode tryInit s node).1.bindings = registrations (tryNode tryInit s node).1.history := by
  unfold tryNode
  split
  · exact h
  · rename_i driver hdriver
    dsimp only
    split
    · rename_i hresult
      rw [hresult]
      change s.bindings ++ [(driver, node.path)] = registrations (s.history ++ [⟨node, .ok ()⟩])
      rw [registrations, initialized_append_ok, List.filterMap_append, h, registrations,
        List.filterMap_cons, hdriver]
      rfl
    · rename_i hresult
      rw [hresult, registrations, initialized_append_error]
      exact h
    · rename_i hresult
      rw [hresult, registrations, initialized_append_error]
      exact h

/-- The bindings are the registrations, in their order. -/
theorem initNodes_registered (tryInit : TryInit) (order : List NodePtr) :
    (initNodes tryInit State.new order).bindings =
      registrations (initNodes tryInit State.new order).history :=
  @initNodes_keeps tryInit (fun s => s.bindings = registrations s.history) (fun _ hs => hs)
    (fun _ node hs => tryNode_registered node hs) State.new order rfl

variable {nodes : List NodePtr} {dep : NodePtr → NodePtr → Prop} {fails : NodePtr → Prop}

/-- The invariant of the passes, with the nodes that still wait. -/
structure Inv (nodes : List NodePtr) (dep : NodePtr → NodePtr → Prop) (fails : NodePtr → Prop)
    (s : State) (waiting : List NodePtr) : Prop where
  nodup : waiting.Nodup
  sub : ∀ node ∈ waiting, node ∈ nodes
  known : ∀ attempt ∈ s.history, attempt.node ∈ nodes
  grounded : Grounded dep (Live nodes fails) (initialized s.history)
  settled : ∀ node, Live nodes fails node → node ∈ waiting ∨ node ∈ initialized s.history
  fresh : ∀ attempt ∈ s.history, attempt.node ∈ waiting → attempt.result = .error .retry
  final : Final s.history
  registered : s.bindings.map (fun binding => (some binding.1, binding.2)) =
    (initialized s.history).map fun node => (matchDriver node.node, node.path)

/-- A node is tried for the first time, or its driver asked for another try. -/
theorem Inv.final_append {s : State} {waiting : List NodePtr} {node : NodePtr}
    {result : Except DriverInitError Unit} (h : Inv nodes dep fails s waiting)
    (hnode : node ∈ waiting) : Final (s.history ++ [⟨node, result⟩]) := by
  rw [Final, List.pairwise_append]
  refine ⟨h.final, List.pairwise_singleton _ _, fun earlier hearlier later hlater hne => ?_⟩
  rw [List.mem_singleton.mp hlater]
  rintro rfl
  exact hne (h.fresh earlier hearlier hnode)

theorem Inv.known_append {s : State} {waiting : List NodePtr} {node : NodePtr}
    {result : Except DriverInitError Unit} (h : Inv nodes dep fails s waiting)
    (hnode : node ∈ waiting) : ∀ attempt ∈ s.history ++ [⟨node, result⟩], attempt.node ∈ nodes := by
  intro attempt hmem
  rcases List.mem_append.mp hmem with hmem | hmem
  · exact h.known attempt hmem
  · rw [List.mem_singleton.mp hmem]
    exact h.sub node hnode

theorem Inv.fresh_append {s : State} {waiting left : List NodePtr} {node : NodePtr}
    {result : Except DriverInitError Unit} (h : Inv nodes dep fails s waiting)
    (hsub : ∀ other ∈ left, other ∈ waiting) (hleft : node ∈ left → result = .error .retry) :
    ∀ attempt ∈ s.history ++ [⟨node, result⟩], attempt.node ∈ left →
      attempt.result = .error .retry := by
  intro attempt hmem hother
  rcases List.mem_append.mp hmem with hmem | hmem
  · exact h.fresh attempt hmem (hsub _ hother)
  · rw [List.mem_singleton.mp hmem] at hother ⊢
    exact hleft hother

/-- A node that is not live leaves the list without harm. -/
theorem Inv.settled_left {s : State} {waiting left : List NodePtr} {node : NodePtr}
    (h : Inv nodes dep fails s waiting) (hsub : ∀ other ∈ waiting, other = node ∨ other ∈ left)
    (hnode : ¬Live nodes fails node) :
    ∀ other, Live nodes fails other → other ∈ left ∨ other ∈ initialized s.history := by
  intro other hlive
  rcases h.settled other hlive with hother | hother
  · rcases hsub other hother with rfl | hother
    · exact absurd hlive hnode
    · exact .inl hother
  · exact .inr hother

/-- What a try does: the node waits for a dependency, or it leaves the list. -/
inductive Tried (dep : NodePtr → NodePtr → Prop) (fails : NodePtr → Prop) (s : State)
    (node : NodePtr) : State × Bool → Prop
  | unmatched (h : matchDriver node.node = none) : Tried dep fails s node (s, false)
  | ok {driver : String} (h : matchDriver node.node = some driver)
      (hready : Ready dep s.history node) (hfails : ¬fails node) :
      Tried dep fails s node
        (⟨true, s.history ++ [⟨node, .ok ()⟩], s.bindings ++ [(driver, node.path)]⟩, false)
  | retry (h : ¬Ready dep s.history node) :
      Tried dep fails s node
        ({ s with history := s.history ++ [⟨node, .error .retry⟩] }, true)
  | failed {e : DriverInitError} (h : fails node) :
      Tried dep fails s node ({ s with history := s.history ++ [⟨node, .error e⟩] }, false)

theorem tryNode_tried (h : Follows tryInit nodes dep fails) {s : State} {node : NodePtr}
    (hnode : node ∈ nodes) (hknown : ∀ attempt ∈ s.history, attempt.node ∈ nodes) : Tried dep fails s node (tryNode tryInit s node) := by
  unfold tryNode
  split
  · rename_i hdriver
    exact .unmatched hdriver
  · rename_i driver hdriver
    have hok := h.ok hnode hdriver hknown
    have hretry := h.retry hnode hdriver hknown
    dsimp only
    split
    · rename_i hresult
      rw [hresult]
      have hready := hok.mp hresult
      exact .ok hdriver hready.1 hready.2
    · rename_i hresult
      rw [hresult]
      exact .retry (hretry.mp hresult)
    · rename_i e hne hresult
      rw [hresult]
      refine .failed (by_contra fun hfails => ?_)
      have hready : Ready dep s.history node := by
        by_contra hnot
        exact hne (Except.error.inj (hresult.symm.trans (hretry.mpr hnot)))
      cases hresult.symm.trans (hok.mpr ⟨hready, hfails⟩)

/-- One try keeps the invariant. The nodes of `done` stand before the node and are kept. -/
theorem Inv.tried {s : State} {result : State × Bool} {done rest : List NodePtr} {node : NodePtr}
    (h : Inv nodes dep fails s (done ++ node :: rest)) (htried : Tried dep fails s node result) :
    Inv nodes dep fails result.1 (done ++ if result.2 then node :: rest else rest) := by
  have hnode : node ∈ done ++ node :: rest := List.mem_append_right _ List.mem_cons_self
  have hsub : (done ++ rest).Sublist (done ++ node :: rest) :=
    (List.sublist_cons_self node rest).append_left done
  have hnodup := h.nodup.sublist hsub
  have hmem : ∀ other ∈ done ++ rest, other ∈ nodes := fun other hother =>
    h.sub other (hsub.subset hother)
  have hleft : ∀ other ∈ done ++ node :: rest, other = node ∨ other ∈ done ++ rest := by
    intro other hother
    exact List.mem_cons.mp (List.perm_middle.mem_iff.mp hother)
  have hgone : node ∉ done ++ rest := (List.nodup_cons.mp (List.nodup_middle.mp h.nodup)).1
  cases htried with
  | unmatched hdriver =>
      refine ⟨hnodup, hmem, h.known, h.grounded, h.settled_left hleft fun hlive => ?_,
        fun attempt hattempt hother => h.fresh attempt hattempt (hsub.subset hother), h.final,
        h.registered⟩
      have hsome := hlive.2.1
      rw [hdriver] at hsome
      cases hsome
  | ok hdriver hready hfails =>
      have hlive : Live nodes fails node :=
        ⟨h.sub node hnode, Option.isSome_iff_exists.mpr ⟨_, hdriver⟩, hfails⟩
      refine ⟨hnodup, hmem, h.known_append hnode, ?_, fun other hother => ?_,
        h.fresh_append (fun other => (hsub.subset ·)) (absurd · hgone), h.final_append hnode, ?_⟩
      · rw [initialized_append_ok]
        exact .snoc h.grounded hlive hready
      · rw [initialized_append_ok]
        rcases h.settled other hother with hwaiting | hdone
        · rcases hleft other hwaiting with rfl | hwaiting
          · exact .inr (List.mem_append_right _ (List.mem_singleton_self _))
          · exact .inl hwaiting
        · exact .inr (List.mem_append_left _ hdone)
      · rw [initialized_append_ok, List.map_append, List.map_append, h.registered]
        simp only [List.map_cons, List.map_nil, hdriver]
  | retry hready =>
      refine ⟨h.nodup, h.sub, h.known_append hnode, ?_, ?_, h.fresh_append (fun _ => id) fun _ => rfl,
        h.final_append hnode, ?_⟩
      · rw [initialized_append_error]
        exact h.grounded
      · rw [initialized_append_error]
        exact h.settled
      · rw [initialized_append_error]
        exact h.registered
  | failed hfails =>
      refine ⟨hnodup, hmem, h.known_append hnode, ?_, ?_,
        h.fresh_append (fun other => (hsub.subset ·)) (absurd · hgone), h.final_append hnode, ?_⟩
      · rw [initialized_append_error]
        exact h.grounded
      · rw [initialized_append_error]
        exact h.settled_left hleft fun hlive => hlive.2.2 hfails
      · rw [initialized_append_error]
        exact h.registered

theorem Inv.tryNode {s : State} {done rest : List NodePtr} {node : NodePtr}
    (h : Follows tryInit nodes dep fails) (hinv : Inv nodes dep fails s (done ++ node :: rest)) :
    Inv nodes dep fails (tryNode tryInit s node).1
      ((done ++ if (PlatformDrivers.tryNode tryInit s node).2 then [node] else []) ++ rest) := by
  have hnode := hinv.sub node (List.mem_append_right _ List.mem_cons_self)
  have hmid := hinv.tried (tryNode_tried h hnode hinv.known)
  split at hmid
  · rename_i hkeep
    rw [if_pos hkeep, ← List.append_cons]
    exact hmid
  · rename_i hkeep
    rw [if_neg hkeep, List.append_nil]
    exact hmid

/-- A pass keeps the invariant. -/
theorem Inv.retain {s : State} {done rest : List NodePtr} (h : Follows tryInit nodes dep fails)
    (hinv : Inv nodes dep fails s (done ++ rest)) :
    Inv nodes dep fails (retain tryInit s rest).1 (done ++ (retain tryInit s rest).2) := by
  induction rest generalizing s done with
  | nil => exact hinv
  | cons node rest ih =>
      have hpass := ih (hinv.tryNode h)
      rw [retain_cons]
      dsimp only
      split at hpass
      · rename_i hkeep
        rw [if_pos hkeep, List.append_cons]
        exact hpass
      · rename_i hkeep
        rw [if_neg hkeep]
        rw [List.append_nil] at hpass
        exact hpass

/-- A try without progress initializes nothing, and a node that it keeps waits for a
dependency. -/
theorem tryNode_idle (h : Follows tryInit nodes dep fails) {s : State} {node : NodePtr}
    (hnode : node ∈ nodes) (hknown : ∀ attempt ∈ s.history, attempt.node ∈ nodes)
    (hidle : (tryNode tryInit s node).1.progress = false) :
    initialized (tryNode tryInit s node).1.history = initialized s.history ∧
      ((tryNode tryInit s node).2 = true → ¬Ready dep s.history node) := by
  have htried := tryNode_tried h hnode hknown
  generalize tryNode tryInit s node = result at htried hidle ⊢
  cases htried with
  | unmatched _ => simp
  | ok _ _ _ => cases hidle
  | retry hready => simp [hready]
  | failed _ => simp

/-- A pass without progress initializes nothing, so all nodes it keeps still wait for a
dependency when it ends. -/
theorem Inv.retain_idle (h : Follows tryInit nodes dep fails) {s : State}
    {done rest : List NodePtr} (hinv : Inv nodes dep fails s (done ++ rest))
    (hidle : (PlatformDrivers.retain tryInit s rest).1.progress = false) :
    initialized (PlatformDrivers.retain tryInit s rest).1.history = initialized s.history ∧
      ∀ node ∈ (PlatformDrivers.retain tryInit s rest).2, ¬Ready dep s.history node := by
  induction rest generalizing s done with
  | nil => simp [PlatformDrivers.retain]
  | cons node rest ih =>
      rw [retain_cons] at hidle ⊢
      dsimp only at hidle ⊢
      have hmid : (PlatformDrivers.tryNode tryInit s node).1.progress = false := by
        rw [← Bool.not_eq_true]
        intro hprogress
        rw [retain_progress tryInit hprogress] at hidle
        cases hidle
      have hnode := hinv.sub node (List.mem_append_right _ List.mem_cons_self)
      obtain ⟨hsame, hwaits⟩ := tryNode_idle h hnode hinv.known hmid
      obtain ⟨hsame', hwaits'⟩ := ih (hinv.tryNode h) hidle
      refine ⟨hsame'.trans hsame, fun other hother => ?_⟩
      have hready : Ready dep (PlatformDrivers.tryNode tryInit s node).1.history other ↔
          Ready dep s.history other := by
        rw [Ready, hsame, Ready]
      split at hother
      · rename_i hkeep
        rcases List.mem_cons.mp hother with rfl | hother
        · exact hwaits hkeep
        · exact hready.not.mp (hwaits' other hother)
      · exact hready.not.mp (hwaits' other hother)

/-- When no node that waits has its dependencies, what is initialized is closed. -/
theorem Inv.broughtUp {s : State} {waiting : List NodePtr} (h : Inv nodes dep fails s waiting)
    (hend : ∀ node ∈ waiting, ¬Ready dep s.history node) : BroughtUp nodes dep fails s := by
  have hclosed : Closed dep (Live nodes fails) {node | node ∈ initialized s.history} := by
    intro node hlive hdeps
    rcases h.settled node hlive with hwaiting | hdone
    · exact absurd hdeps (hend node hwaiting)
    · exact hdone
  refine ⟨h.grounded.isLeast hclosed, ?_, h.registered, h.final⟩
  refine h.final.filterMap _ fun earlier later hdiffer node hnode node' hnode' => ?_
  split at hnode
  · rename_i hok
    split at hnode'
    · cases hnode
      cases hnode'
      exact (hdiffer (by rw [hok]; nofun)).symm
    · cases hnode'
  · cases hnode

/-- The loop ends when a pass made no progress or no node is left. -/
theorem Inv.initNodes {s : State} {waiting : List NodePtr} (h : Follows tryInit nodes dep fails)
    (hinv : Inv nodes dep fails s waiting)
    (hidle : s.progress = false → ∀ node ∈ waiting, ¬Ready dep s.history node) :
    BroughtUp nodes dep fails (initNodes tryInit s waiting) := by
  induction s, waiting using initNodes.induct tryInit with
  | case1 s waiting hloop ih =>
      rw [PlatformDrivers.initNodes, if_pos hloop]
      have hstart : Inv nodes dep fails { s with progress := false } ([] ++ waiting) :=
        ⟨hinv.nodup, hinv.sub, hinv.known, hinv.grounded, hinv.settled, hinv.fresh, hinv.final,
          hinv.registered⟩
      refine ih (hstart.retain h) fun hstop node hnode => ?_
      obtain ⟨hsame, hwaits⟩ := hstart.retain_idle h hstop
      rw [Ready, hsame]
      exact hwaits node hnode
  | case2 s waiting hloop =>
      rw [PlatformDrivers.initNodes, if_neg hloop]
      refine hinv.broughtUp fun node hnode => hidle ?_ node hnode
      by_contra hprogress
      refine hloop ?_
      rw [Bool.not_eq_false] at hprogress
      rw [hprogress, Bool.true_and]
      cases waiting with
      | nil => cases hnode
      | cons => rfl

/-- The nodes may stand in any order and their dependencies may have cycles. -/
theorem initNodes_broughtUp {order : List NodePtr} (h : Follows tryInit nodes dep fails)
    (hnodup : nodes.Nodup) (horder : order.Perm nodes) :
    BroughtUp nodes dep fails (initNodes tryInit State.new order) := by
  refine Inv.initNodes h ⟨horder.nodup_iff.mpr hnodup, fun node => horder.mem_iff.mp, ?_, .nil,
    fun node hlive => .inl (horder.mem_iff.mpr hlive.1), ?_, .nil, rfl⟩ nofun
  · intro attempt hattempt
    cases hattempt
  · intro attempt hattempt
    cases hattempt

theorem deviceNodes_nodup (dt : DeviceTree) : ((deviceNodes dt).map NodePtr.addr).Nodup :=
  (Node.iter_nodup [] [] dt.root).sublist (List.filter_sublist.map NodePtr.addr)

/-- The platform drivers initialize the least closed set of the nodes, in the order of the
tree as in any other. -/
theorem initPlatformDrivers_broughtUp (dt : DeviceTree)
    (h : Follows tryInit (deviceNodes dt) dep fails) :
    BroughtUp (deviceNodes dt) dep fails (initPlatformDrivers tryInit dt) ∧
      ∀ order : List NodePtr, order.Perm (deviceNodes dt) →
        BroughtUp (deviceNodes dt) dep fails (initNodes tryInit State.new order) := by
  have hnodup := (deviceNodes_nodup dt).of_map
  exact ⟨initNodes_broughtUp h hnodup (.refl _), fun order => initNodes_broughtUp h hnodup⟩

/-! ## Drivers for a relation -/

/-- The drivers that follow a relation on the nodes. -/
def follow (nodes : List NodePtr) (dep : NodePtr → NodePtr → Bool) (fails : NodePtr → Bool) :
    TryInit := fun _ history node =>
  if nodes.all fun other =>
      !dep node other || (initialized history).any fun done => done.addr == other.addr then
    if fails node then .error .deviceFailed else .ok ()
  else .error .retry

/-- Each relation on the nodes has such drivers. -/
theorem follow_follows {dep : NodePtr → NodePtr → Bool} {fails : NodePtr → Bool}
    (hnodup : (nodes.map NodePtr.addr).Nodup) :
    Follows (follow nodes dep fails) nodes
      (fun node other => other ∈ nodes ∧ dep node other = true) (fun node => fails node = true) := by
  have hready : ∀ history : List Attempt, (∀ attempt ∈ history, attempt.node ∈ nodes) → ∀ node,
      (nodes.all fun other =>
        !dep node other || (initialized history).any fun done => done.addr == other.addr) = true ↔
      Ready (fun node other => other ∈ nodes ∧ dep node other = true) history node := by
    intro history hhistory node
    simp only [List.all_eq_true, Bool.or_eq_true, Bool.not_eq_true', List.any_eq_true, beq_iff_eq,
      Ready]
    constructor
    · intro hall other hother
      rcases hall other hother.1 with hdep | ⟨done, hdone, haddr⟩
      · rw [hother.2] at hdep
        cases hdep
      · obtain ⟨attempt, hattempt, rfl, -⟩ := mem_initialized.mp hdone
        exact List.inj_on_of_nodup_map hnodup (hhistory attempt hattempt) hother.1 haddr ▸ hdone
    · intro hall other hother
      cases hdep : dep node other with
      | false => exact .inl rfl
      | true => exact .inr ⟨other, hall other ⟨hother, hdep⟩, rfl⟩
  constructor
  · intro node driver history hnode hdriver hhistory
    rw [← hready history hhistory node, follow]
    split
    · rename_i hall
      split <;> simp_all
    · rename_i hall
      simp [hall]
  · intro node driver history hnode hdriver hhistory
    rw [← hready history hhistory node, follow]
    split
    · rename_i hall
      split <;> simp_all
    · rename_i hall
      simp [hall]

/-- A node with one entry in `compatible`. -/
def device (name compatible : String) : Node :=
  ⟨name, [⟨"compatible", .standard (.compatible [compatible]), rfl⟩], []⟩

/-- The framebuffer asks the firmware, which asks the mailbox. The generator fails, and
the two last devices wait for each other. -/
def soc : DeviceTree where
  address := 0x100
  size := 0x1000
  version := 17
  lastCompVersion := 16
  bootCpuidPhys := 0
  memoryReservations := []
  root := ⟨"", [], [device "fb" "brcm,bcm2708-fb",
    device "firmware" "raspberrypi,bcm2835-firmware", device "mailbox" "brcm,bcm2835-mbox",
    device "rng" "brcm,bcm2835-rng", device "usb" "brcm,bcm2708-usb",
    device "dma" "brcm,bcm2835-dma"]⟩
  phandleMap := []

/-- A chain of three nodes, and two nodes that wait for each other. -/
def socDep (node other : NodePtr) : Bool :=
  [([0], [1]), ([1], [2]), ([4], [5]), ([5], [4])].contains (node.addr, other.addr)

def socFails (node : NodePtr) : Bool := node.addr == [3]

theorem initPlatformDrivers_broughtUp_soc :
    let s := initPlatformDrivers (follow (deviceNodes soc) socDep socFails) soc
    s.bindings = [("brcm,bcm2835-mbox", "/mailbox"),
        ("raspberrypi,bcm2835-firmware", "/firmware"), ("brcm,bcm2708-fb", "/fb")] ∧
      BroughtUp (deviceNodes soc) (fun node other => other ∈ deviceNodes soc ∧ socDep node other)
        (fun node => socFails node) s :=
  ⟨by decide +kernel,
    (initPlatformDrivers_broughtUp soc (follow_follows (deviceNodes_nodup soc))).1⟩

end Kruspix.Drivers.PlatformDrivers
