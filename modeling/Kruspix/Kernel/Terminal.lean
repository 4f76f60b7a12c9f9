import Kruspix.Drivers.Display.TerminalRefinement

/-!
# The outputs of the system terminal

What is written goes to a serial line or to a console on a framebuffer.
-/

namespace Kruspix.Kernel.Terminal

open Drivers.Display

/-- A console on a framebuffer that has room for a character at least. -/
structure ConsoleDevice where
  id : String
  fb : FrameBuffer
  font : Font
  dma : Nat → Option Engine
  con : FbConsole
  honest : ∀ n, ∀ copy2d ∈ dma n, Honest fb copy2d
  shows : ∃ (cols rows : Nat) (t : Drivers.Display.Terminal cols rows), Shows fb font con t

namespace ConsoleDevice

variable (dev : ConsoleDevice) (bytes : List UInt8)

theorem write_ok : ∃ con, FbConsole.write dev.fb dev.dma dev.font dev.con bytes = .ok con ∧
    ∃ (cols rows : Nat) (t : Drivers.Display.Terminal cols rows), Shows dev.fb dev.font con t := by
  obtain ⟨cols, rows, t, hshows⟩ := dev.shows
  obtain ⟨con, hwrite, hshows'⟩ := hshows.write dev.honest bytes
  exact ⟨con, hwrite, cols, rows, _, hshows'⟩

/-- Write bytes to the console. The invariant says that this cannot fail. -/
def write : ConsoleDevice :=
  match h : FbConsole.write dev.fb dev.dma dev.font dev.con bytes with
  | .ok con =>
      { dev with
        con := con
        shows := by
          obtain ⟨con', hwrite, hshows⟩ := dev.write_ok bytes
          cases h.symm.trans hwrite
          exact hshows }
  | .error _ => False.elim <| by
      obtain ⟨con', hwrite, -⟩ := dev.write_ok bytes
      cases h.symm.trans hwrite

end ConsoleDevice

/-- A serial line has the bytes that were sent on it. -/
inductive OutputDevice
  | miniUart (id : String) (sent : List UInt8)
  | fbConsole (dev : ConsoleDevice)

namespace OutputDevice

/-- The id of an output. -/
def id : OutputDevice → String
  | .miniUart id _ => id
  | .fbConsole dev => dev.id

/-- Write bytes to an output; the uart sends a CR in front of each LF. -/
def write (bytes : List UInt8) : OutputDevice → OutputDevice
  | .miniUart id sent =>
      .miniUart id (sent ++ bytes.flatMap fun byte => if byte = 0x0A then [0x0D, byte] else [byte])
  | .fbConsole dev => .fbConsole (dev.write bytes)

end OutputDevice

end Kruspix.Kernel.Terminal
