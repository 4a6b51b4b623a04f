import MessageExtraction.Text.Quoted

/-!
# Notices

What extraction passes over without failing is noticed: a filter applied to
something that is no literal is worth a warning, and an expression or a source
that cannot be read is worth a line in a detailed log.

## Main definitions

* `Notice` -- what was passed over.
* `Notice.level`, `Notice.message` -- how a notice is logged.
-/

namespace MessageExtraction

/-- How much a notice matters. -/
inductive NoticeLevel
  | debug | warning
deriving DecidableEq

/-- Something that extraction passes over. -/
inductive Notice
  | notLiteral (kindName : String)
  | unreadableExpression (source : Text)
  | unencodableSource (file : Text)
deriving DecidableEq

namespace Notice

/-- How much a notice matters. -/
def level : Notice → NoticeLevel
  | notLiteral _ => .warning
  | unreadableExpression _ => .debug
  | unencodableSource _ => .debug

/-- The words of a notice. -/
def message : Notice → Text
  | notLiteral kindName => "Can only extract literals, skipping " ++ Text.ofString kindName
  | unreadableExpression source => "Could not parse expression " ++ source.quoted
  | unencodableSource file => "Skipping " ++ file ++ ": source is not valid UTF-8"

end Notice

end MessageExtraction
