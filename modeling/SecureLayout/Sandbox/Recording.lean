import SecureLayout.Sandbox.Window

/-!
A frame that does nothing but record what is done to it, and that refuses what it is told to refuse.
-/

namespace SecureLayout.Sandbox

structure RecordingFrame where
  window : WindowRef
  attributes : String
  refusesAttach : Bool := false
  refusesPosts : Bool := false
  posted : List String := []
  isAttached : Bool := false
  /-- How often it was taken out of the page. -/
  removals : Nat := 0
  deriving Repr

instance : IsolatedFrame RecordingFrame where
  window := RecordingFrame.window
  attributes := RecordingFrame.attributes
  attach := fun _ f =>
    if f.refusesAttach then (.error (.transport "attach refused"), f)
    else (.ok (), { f with isAttached := true })
  post := fun raw f =>
    if f.refusesPosts then (.error (.transport "post refused"), f)
    else (.ok (), { f with posted := f.posted ++ [raw] })
  remove := fun f => { f with isAttached := false, removals := f.removals + 1 }
  isAttached := RecordingFrame.isAttached

end SecureLayout.Sandbox
