import Hmix.Files.Editing
import Hmix.Files.Stored

/-!
# The warning before closing

A window that closes warns when `hasUnsavedFiles`, that is by the flags in
memory. What closing loses is what storage does not have. The two agree as
long as the writes that go with a flag succeed: a file is marked saved when
it is created and when it is saved, before either is written. Every other
operation may be refused any of its writes.
-/

namespace Hmix

open Window

variable {ace : Ace} {refuses : Refusals}

end Hmix
