import Mathlib
import Siteworks.Proofs.Page.Encoding

/-!
# The structure of a page

The source of a page line by line: one import for each component that its sections use, an empty
line, the opening, a tag for each section, and the closing. What a section shows is never searched
for placeholders, so that this holds whatever its keys and values are.
-/

namespace Siteworks

namespace Page

end Page

end Siteworks
