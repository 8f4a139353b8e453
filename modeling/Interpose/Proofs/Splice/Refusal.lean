import Interpose.Proofs.Pattern.Minimal
import Interpose.Proofs.Pattern.Scan
import Interpose.Proofs.Splice.Locate
import Interpose.Proofs.Splice.Renaming

/-!
Why a point does not go into a stream. Only what it looks for can be missing, and it looks before it
changes the stream. What it finds stands in the stream; then the lowered template goes in, and the
labels that are led through the splice go to it.
-/

set_option autoImplicit false
set_option relaxedAutoImplicit false

namespace Interpose

namespace Stream

variable {s : Stream} {q : Position} {i : Nat}

end Stream

namespace Point

variable {p : Point} {s t : Stream} {site : Site} {anchor : Stream.Anchor} {q : Position}
  {e : SpliceError}

theorem locate_ends (ok : s.WellFormed) (located : p.locate s = .ok anchor) :
    ∃ i j, s.index? anchor.span.first = some i ∧ s.index? anchor.span.last = some j ∧ i ≤ j := by
  obtain ⟨pattern, -, -, there, -⟩ := locate_ok_iff.mp located
  have reported : s.Reports pattern anchor.span := .inr (List.mem_of_getElem? there)
  obtain ⟨places, shape⟩ := reported.matches ok
  exact shape.ends

end Point

end Interpose
