import MessageExtraction.Expression.Parser
import MessageExtraction.Notice

/-!
# Translated literals

A string literal to which the filter `translate` is applied is a message. The
filter applied to anything else cannot be extracted and is reported. Messages
are looked for in statements, in what filters and calls are applied to, in the
values of properties and in both outcomes of a conditional.

## Main definitions

* `Finding` -- a message, or something translated that is no literal.
* `Expr.findings` -- the findings in an expression, in reading order.
* `messagesIn`, `noticesIn` -- the messages in a text, and what reading it passes over.
-/

namespace MessageExtraction.Expression

/-- What the filter `translate` is applied to. -/
inductive Finding
  | message (msgid : Text)
  | notLiteral (kindName : String)
deriving DecidableEq

/-- What applying the filter `translate` to an expression gives. -/
def Expr.asFinding : Expr → Finding
  | .string value => .message value
  | e => .notLiteral e.kindName

/-- The name of the filter that marks messages. -/
def translateFilter : Text :=
  ['t', 'r', 'a', 'n', 's', 'l', 'a', 't', 'e'].map CodePoint.ofChar

mutual

/-- The findings in an expression. -/
def Expr.findings : Expr → List Finding
  | .filter name input others =>
    (if name = translateFilter then [input.asFinding] else []) ++
      input.findings ++ listFindings others
  | .call _ others => listFindings others
  | .object properties => propertyFindings properties
  | .conditional _ consequent alternate => consequent.findings ++ alternate.findings
  | _ => []

/-- The findings in expressions one after the other. -/
def listFindings : List Expr → List Finding
  | [] => []
  | e :: es => e.findings ++ listFindings es

/-- The findings in the values of properties. -/
def propertyFindings : List (Property Expr) → List Finding
  | [] => []
  | ⟨_, value⟩ :: properties => value.findings ++ propertyFindings properties

end

/-- The two entities that templates write for quotation marks. -/
def quoteEntities : List Text :=
  [['&', 'q', 'u', 'o', 't', ';'].map CodePoint.ofChar, ['&', '#', '3', '9', ';'].map CodePoint.ofChar]

/-- Writes a double quote for every entity of a quotation mark. -/
def restoreQuotes (t : Text) : Text :=
  quoteEntities.foldl (fun t entity => t.replaceAll entity ['\x22']) t

/-- The findings in a text; a text that is no program has none. -/
def findingsIn (source : Text) : List Finding :=
  match parse (restoreQuotes source) with
  | .ok program => listFindings program
  | .error _ => []

/-- The message of a finding, if it is one. -/
def Finding.message? : Finding → Option Text
  | message msgid => some msgid
  | notLiteral _ => none

/-- The notice of a finding that is no message. -/
def Finding.notice? : Finding → Option Notice
  | message _ => none
  | notLiteral kindName => some (.notLiteral kindName)

/-- The messages in a text, in reading order. -/
def messagesIn (source : Text) : List Text :=
  (findingsIn source).filterMap Finding.message?

/-- The notices that reading a text gives rise to. -/
def noticesIn (source : Text) : List Notice :=
  match parse (restoreQuotes source) with
  | .ok program => (listFindings program).filterMap Finding.notice?
  | .error _ => [.unreadableExpression (restoreQuotes source)]

end MessageExtraction.Expression
