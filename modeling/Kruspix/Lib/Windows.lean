import Mathlib.Data.List.Basic

/-!
# Address windows

A window maps an interval of addresses to another one of the same size. A bus with windows
maps an address by the first of them that has it, and leaves any other address as it is.
-/

namespace Kruspix.Lib.Windows

/-- `size` addresses from `child` on, which are seen from `parent` on. -/
structure Window where
  child : Nat
  parent : Nat
  size : Nat
  deriving DecidableEq, Repr

namespace Window

/-- The window has the address. -/
def Holds (w : Window) (address : Nat) : Prop :=
  w.child ≤ address ∧ address < w.child + w.size

/-- The window has the interval of this length. -/
def Contains (w : Window) (address length : Nat) : Prop :=
  w.child ≤ address ∧ address + length ≤ w.child + w.size

/-- Where the window shows an address. -/
def apply (w : Window) (address : Nat) : Nat := w.parent + (address - w.child)

instance (w : Window) (address : Nat) : Decidable (w.Holds address) :=
  inferInstanceAs (Decidable (_ ∧ _))

instance (w : Window) (address length : Nat) : Decidable (w.Contains address length) :=
  inferInstanceAs (Decidable (_ ∧ _))

theorem Contains.holds {w : Window} {address length : Nat} (h : w.Contains address length)
    (hlength : 0 < length) : w.Holds address :=
  ⟨h.1, by have hend := h.2; omega⟩

end Window

/-- The address above a bus with these windows. -/
def raise (windows : List Window) (address : Nat) : Nat :=
  match windows.find? fun w => decide (w.Holds address) with
  | none => address
  | some w => w.apply address

/-- The address above a row of buses, the lowest one first. -/
def raiseAll (buses : List (List Window)) (address : Nat) : Nat :=
  buses.foldl (fun address windows => raise windows address) address

@[simp] theorem raiseAll_nil (address : Nat) : raiseAll [] address = address := rfl

@[simp] theorem raiseAll_cons (windows : List Window) (buses : List (List Window))
    (address : Nat) : raiseAll (windows :: buses) address =
      raiseAll buses (raise windows address) := rfl

/-- The address as the bus with this number in the row sees it. -/
def addressOn (buses : List (List Window)) (address number : Nat) : Nat :=
  raiseAll (buses.take number) address

@[simp] theorem addressOn_zero (buses : List (List Window)) (address : Nat) :
    addressOn buses address 0 = address := rfl

@[simp] theorem addressOn_succ (windows : List Window) (buses : List (List Window))
    (address number : Nat) : addressOn (windows :: buses) address (number + 1) =
      addressOn buses (raise windows address) number := rfl

/-- The buses from one on go on where those below it end. -/
theorem raiseAll_drop (buses : List (List Window)) (address number : Nat) :
    raiseAll (buses.drop number) (addressOn buses address number) = raiseAll buses address := by
  rw [addressOn, raiseAll, raiseAll, ← List.foldl_append, List.take_append_drop, raiseAll]

end Kruspix.Lib.Windows
