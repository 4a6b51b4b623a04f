import MessageExtraction.Script.Reader

/-!
# Reading scripts

The syntax tree of a script is read by descent through statements, the levels
of expressions and the suffixes of their operands. Every function takes the
number of nested steps that it may still make; `parse` allows more of them than
a source of its length can need.

A list in parentheses is read in one way whether it turns out to be an
expression or the parameters of an arrow function, and so are the literals of
arrays and objects and the patterns that look like them. A missing semicolon is
supplied where a line ends, before a closing brace and at the end. A token that
no statement can begin with is set aside, and reading goes on after it.

## Main definitions

* `Script.parse` -- the syntax tree of a source.
-/

namespace MessageExtraction.Script

mutual

/-- Expressions separated by commas. -/
def expressions : Nat → (allowIn : Bool) → Reader (List Part)
  | 0, _ => failure
  | n + 1, allowIn => do
    let first ← assignment n allowIn
    return sequenceOf (first :: (← expressionTail n allowIn))

/-- The expressions after the first, with the commas before them. -/
def expressionTail : Nat → (allowIn : Bool) → Reader (List Part)
  | 0, _ => failure
  | n + 1, allowIn => do
    if (← get).isPunctuation "," then
      let comma ← take .punctuation
      let item ← assignment n allowIn
      return comma :: item :: (← expressionTail n allowIn)
    else return []

/-- An expression without commas. -/
def assignment : Nat → (allowIn : Bool) → Reader Part
  | 0, _ => failure
  | n + 1, allowIn => do
    let c ← operandStart
    if c.isWord "yield" && !assignmentOperators.contains c.next.word then yieldExpression n allowIn
    else
      let left ← conditional n allowIn
      let c ← get
      if c.kind = .punctuation && assignmentOperators.contains c.word then
        let operator ← take .punctuation
        let right ← assignment n allowIn
        return made .assignment [left, operator, right]
      else return left

/-- A yield and its argument. -/
def yieldExpression : Nat → (allowIn : Bool) → Reader Part
  | 0, _ => failure
  | n + 1, allowIn => do
    let word ← take .keyword
    let c ← get
    if c.isPunctuation "*" then
      let star ← take .punctuation
      return made .yield [word, star, ← assignment n allowIn]
    else if !c.lineEnds && c.startsOperand then
      return made .yield [word, ← assignment n allowIn]
    else return made .yield [word]

/-- A conditional, or its test alone. -/
def conditional : Nat → (allowIn : Bool) → Reader Part
  | 0, _ => failure
  | n + 1, allowIn => do
    let test ← binary n 1 allowIn
    if (← get).isPunctuation "?" then
      let question ← take .punctuation
      let consequence ← assignment n true
      let colon ← punctuation ":"
      let alternative ← assignment n allowIn
      return made .conditional [test, question, consequence, colon, alternative]
    else return test

/-- An operand and what operators of a level or a tighter one join to it. -/
def binary : Nat → (level : Nat) → (allowIn : Bool) → Reader Part
  | 0, _, _ => failure
  | n + 1, level, allowIn => do
    let left ← unary n
    operators n level allowIn left

/-- The operators of a level or a tighter one after their first operand. -/
def operators : Nat → (level : Nat) → (allowIn : Bool) → Part → Reader Part
  | 0, _, _, _ => failure
  | n + 1, level, allowIn, left => do
    let c ← get
    match c.binaryLevel? allowIn with
    | some found =>
      if level ≤ found then
        let operator ← take (if c.kind = .name then .keyword else .punctuation)
        let right ← binary n (if c.word = "**" then found else found + 1) allowIn
        operators n level allowIn (made .binary [left, operator, right])
      else return left
    | none => return left

/-- Operators before an operand, and those after it. -/
def unary : Nat → Reader Part
  | 0 => failure
  | n + 1 => do
    let c ← operandStart
    if c.kind = .punctuation && ["+", "-", "~", "!"].contains c.word then
      let operator ← take .punctuation
      return made .unary [operator, ← unary n]
    else if c.isOneOf ["delete", "void", "typeof"] then
      let operator ← take .keyword
      return made .unary [operator, ← unary n]
    else if c.isPunctuation "++" || c.isPunctuation "--" then
      let operator ← take .punctuation
      return made .update [operator, ← unary n]
    else if c.isWord "await" && c.next.startsOperand then
      let word ← take .keyword
      return made .await [word, ← unary n]
    else
      let operand ← suffixed n
      let c ← get
      if !c.lineEnds && (c.isPunctuation "++" || c.isPunctuation "--") then
        return made .update [operand, ← take .punctuation]
      else return operand

/-- An operand and its suffixes. -/
def suffixed : Nat → Reader Part
  | 0 => failure
  | n + 1 => do
    let first ← primary n
    if first.tree.isNode .arrow then return first else suffixes n true first

/-- The member accesses and, if `calls` holds, the calls after what they are applied to. -/
def suffixes : Nat → (calls : Bool) → Part → Reader Part
  | 0, _, _ => failure
  | n + 1, calls, left => do
    let c ← get
    if c.isPunctuation "." then
      let dot ← take .punctuation
      let property ← propertyName
      suffixes n calls (made .member [left, dot, property])
    else if c.isPunctuation "?." && calls then
      let dot ← take .punctuation
      let c ← get
      if c.isPunctuation "(" then
        let items ← argumentList n .arguments
        suffixes n calls (made .call [left, dot, items])
      else if c.isPunctuation "[" then
        suffixes n calls (made .subscript ([left, dot] ++ (← subscript n)))
      else
        let property ← propertyName
        suffixes n calls (made .member [left, dot, property])
    else if c.isPunctuation "[" then
      suffixes n calls (made .subscript (left :: (← subscript n)))
    else if c.isPunctuation "(" && calls then
      let items ← argumentList n .arguments
      suffixes n calls (made .call [left, items])
    else if c.isPunctuation "\x60" then
      suffixes n calls (made .taggedTemplate [left, ← template n])
    else return left

/-- The name after a point. -/
def propertyName : Reader Part := do
  match (← get).kind with
  | .name => take .property
  | .privateName => take .privateProperty
  | _ => failure

/-- An index in brackets. -/
def subscript : Nat → Reader (List Part)
  | 0 => failure
  | n + 1 => do
    let opening ← punctuation "["
    let index ← expressions n true
    return opening :: index ++ (← closing "]")

/-- A list in parentheses: arguments, parameters, or what an arrow may make parameters. -/
def argumentList : Nat → NodeKind → Reader Part
  | 0, _ => failure
  | n + 1, kind => do
    let opening ← punctuation "("
    let items ← listItems n ")"
    return made kind (opening :: items ++ (← closing ")"))

/-- The items of a list and the commas between them, up to a closing bracket. -/
def listItems : Nat → (close : String) → Reader (List Part)
  | 0, _ => failure
  | n + 1, close => do
    let c ← get
    if c.isPunctuation close || c.atEnd then return []
    else if c.isPunctuation "," then
      let comma ← take .punctuation
      return comma :: (← listItems n close)
    else
      let item ← listItem n
      let c ← get
      if c.isPunctuation "," then
        let comma ← take .punctuation
        return item :: comma :: (← listItems n close)
      else return [item]

/-- An expression or a spread one, perhaps decorated. -/
def listItem : Nat → Reader Part
  | 0 => failure
  | n + 1 => do
    if (← get).isPunctuation "..." then
      let dots ← take .punctuation
      return made .spread [dots, ← assignment n true]
    else assignment n true

/-- What an operand begins with. -/
def primary : Nat → Reader Part
  | 0 => failure
  | n + 1 => do
    let c ← operandStart
    match c.kind with
    | .number => take .number
    | .string => take .string
    | .privateName => take .privateProperty
    | .name =>
      if c.word = "function" then functionLike n []
      else if c.word = "class" then classLike n []
      else if c.word = "new" then newExpression n
      else if c.word = "async" then asyncPrimary n
      else if c.word = "import" then take .keyword
      else if valueWords.contains c.word then take .value
      else if reservedWords.contains c.word then failure
      else namePrimary n
    | .punctuation =>
      if c.word = "(" then parenthesized n []
      else if c.word = "[" then arrayLiteral n
      else if c.word = "\x7b" then objectLiteral n
      else if c.word = "\x60" then template n
      else if c.word = "/" || c.word = "/=" then regex
      else if c.word = "<" then markupOperand n
      else if c.word = "@" then
        let decorators ← decorators n
        classLike n decorators
      else failure
    | .stray | .endOfSource => failure

/-- A name, or an arrow function of one parameter. -/
def namePrimary : Nat → Reader Part
  | 0 => failure
  | n + 1 => do
    let name ← take .identifier
    if (← get).isPunctuation "=>" then arrow n [name] else return name

/-- The arrow and the body of a function whose head is given. -/
def arrow : Nat → List Part → Reader Part
  | 0, _ => failure
  | n + 1, head => do
    let arrow ← punctuation "=>"
    let body ← if (← get).isPunctuation "\x7b" then block n else assignment n true
    return made .arrow (head ++ [arrow, body])

/-- An expression that begins with the word `async`. -/
def asyncPrimary : Nat → Reader Part
  | 0 => failure
  | n + 1 => do
    let next := (← get).next
    if !next.lineEnds && next.isWord "function" then
      let word ← take .keyword
      functionLike n [word]
    else if !next.lineEnds && next.kind = .name && next.next.isPunctuation "=>" then
      let word ← take .keyword
      let name ← take .identifier
      arrow n [word, name]
    else if !next.lineEnds && next.isPunctuation "(" then
      let word ← take .identifier
      let items ← argumentList n .arguments
      let c ← get
      if c.isPunctuation "=>" && !c.lineEnds then
        arrow n [word, { items with tree := .node .parameters items.tree.children }]
      else return made .call [word, items]
    else namePrimary n

/-- An expression in parentheses, or an arrow function with parameters in parentheses. -/
def parenthesized : Nat → List Part → Reader Part
  | 0, _ => failure
  | n + 1, head => do
    let opening ← punctuation "("
    let items ← listItems n ")"
    let close ← closing ")"
    let c ← get
    if c.isPunctuation "=>" && !c.lineEnds then
      arrow n (head ++ [made .parameters (opening :: items ++ close)])
    else if items.isEmpty then failure
    else return made .parenthesized (opening :: sequenceOf items ++ close)

/-- The creation of an object. -/
def newExpression : Nat → Reader Part
  | 0 => failure
  | n + 1 => do
    let word ← keyword "new"
    let c ← operandStart
    if c.isPunctuation "." then
      let dot ← take .punctuation
      return made .member [word, dot, ← take .property]
    else
      let first ← if c.isWord "new" then newExpression n else primary n
      let constructor ← suffixes n false first
      if (← get).isPunctuation "(" then
        return made .new [word, constructor, ← argumentList n .arguments]
      else return made .new [word, constructor]

/-- An array or a pattern of one. -/
def arrayLiteral : Nat → Reader Part
  | 0 => failure
  | n + 1 => do
    let opening ← punctuation "["
    let items ← listItems n "]"
    return made .array (opening :: items ++ (← closing "]"))

/-- An object or a pattern of one. -/
def objectLiteral : Nat → Reader Part
  | 0 => failure
  | n + 1 => do
    let opening ← punctuation "\x7b"
    let items ← objectItems n
    return made .object (opening :: items ++ (← closing "\x7d"))

/-- The items of an object and the commas between them. -/
def objectItems : Nat → Reader (List Part)
  | 0 => failure
  | n + 1 => do
    let c ← get
    if c.isPunctuation "\x7d" || c.atEnd then return []
    else if c.isPunctuation "," then
      let comma ← take .punctuation
      return comma :: (← objectItems n)
    else
      let item ← objectItem n
      if (← get).isPunctuation "," then
        let comma ← take .punctuation
        return item :: comma :: (← objectItems n)
      else return [item]

/-- An item of an object. -/
def objectItem : Nat → Reader Part
  | 0 => failure
  | n + 1 => do
    let c ← get
    if c.isPunctuation "..." then
      let dots ← take .punctuation
      return made .spread [dots, ← assignment n true]
    else
      let marks ← modifiers n [",", "\x7d", ":", "=", "("]
      let shorthand := (← get).kind = .name
      let key ← memberKey n
      let c ← get
      if c.isPunctuation "(" then
        return made .method (marks ++ [key] ++ (← methodTail n))
      else if c.isPunctuation ":" then
        let colon ← take .punctuation
        return made .pair [key, colon, ← assignment n true]
      else if c.isPunctuation "=" && shorthand then
        let equals ← take .punctuation
        return made .assignment [key, equals, ← assignment n true]
      else if shorthand then return key
      else failure

/-- The words and the star before the key of a member; before one of `ends` a word is the key. -/
def modifiers : Nat → (ends : List String) → Reader (List Part)
  | 0, _ => failure
  | n + 1, ends => do
    let c ← get
    if c.isPunctuation "*" then
      let star ← take .punctuation
      return [star]
    else if c.isOneOf ["static", "async", "get", "set", "accessor"] then
      let next := c.next
      if next.atEnd || (next.kind = .punctuation && ends.contains next.word) then return []
      else if c.word ≠ "static" && next.lineEnds && c.word ≠ "get" && c.word ≠ "set" then return []
      else
        let word ← take .keyword
        return word :: (← modifiers n ends)
    else return []

/-- The key of a member. -/
def memberKey : Nat → Reader Part
  | 0 => failure
  | n + 1 => do
    let c ← get
    match c.kind with
    | .name => take .property
    | .privateName => take .privateProperty
    | .string => take .string
    | .number => take .number
    | .punctuation =>
      if c.word = "[" then
        let opening ← take .punctuation
        let key ← assignment n true
        return made .computedName (opening :: key :: (← closing "]"))
      else failure
    | .stray | .endOfSource => failure

/-- The parameters and the body of a method. -/
def methodTail : Nat → Reader (List Part)
  | 0 => failure
  | n + 1 => do
    let parameters ← argumentList n .parameters
    return [parameters, ← block n]

/-- A function whose first words are given. -/
def functionLike : Nat → List Part → Reader Part
  | 0, _ => failure
  | n + 1, head => do
    let word ← keyword "function"
    let star ← optional "*"
    let name ← if (← get).kind = .name then pure [← take .identifier] else pure []
    let parameters ← argumentList n .parameters
    let body ← block n
    return made .function (head ++ [word] ++ star ++ name ++ [parameters, body])

/-- A class whose decorators are given. -/
def classLike : Nat → List Part → Reader Part
  | 0, _ => failure
  | n + 1, head => do
    let word ← keyword "class"
    let c ← get
    let name ← if c.kind = .name && c.word ≠ "extends" then pure [← take .identifier] else pure []
    let heritage ← if (← get).isWord "extends" then do
        let word ← take .keyword
        pure [made .heritage [word, ← suffixed n]]
      else pure []
    let opening ← punctuation "\x7b"
    let members ← classMembers n
    let close ← closing "\x7d"
    return made .classForm (head ++ [word] ++ name ++ heritage ++
      [made .classBody (opening :: members ++ close)])

/-- The members of a class and the semicolons between them. -/
def classMembers : Nat → Reader (List Part)
  | 0 => failure
  | n + 1 => do
    let c ← get
    if c.isPunctuation "\x7d" || c.atEnd then return []
    else if c.isPunctuation ";" then
      let mark ← take .punctuation
      return mark :: (← classMembers n)
    else
      let member ← classMember n
      return member ++ (← classMembers n)

/-- A member of a class, with the semicolon after a field. -/
def classMember : Nat → Reader (List Part)
  | 0 => failure
  | n + 1 => do
    let head ← decorators n
    let c ← get
    if c.isWord "static" && c.next.isPunctuation "\x7b" then
      let word ← take .keyword
      return [made .staticBlock (head ++ [word, ← block n])]
    else
      let marks ← modifiers n ["(", ";", "\x7d", "=", ","]
      let key ← memberKey n
      let c ← get
      if c.isPunctuation "(" then
        return [made .method (head ++ marks ++ [key] ++ (← methodTail n))]
      else
        let value ← if c.isPunctuation "=" then do
            let equals ← take .punctuation
            pure [equals, ← assignment n true]
          else pure []
        let field := made .field (head ++ marks ++ [key] ++ value)
        return field :: (← semicolon)

/-- The decorators before a class or a member. -/
def decorators : Nat → Reader (List Part)
  | 0 => failure
  | n + 1 => do
    if (← get).isPunctuation "@" then
      let mark ← take .punctuation
      let target ← suffixed n
      return made .decorator [mark, target] :: (← decorators n)
    else return []

/-- A template and its substitutions. -/
def template : Nat → Reader Part
  | 0 => failure
  | n + 1 => do
    let c ← get
    if c.isPunctuation "\x60" then
      let opening := c.part .punctuation
      let items ← templateItems n c.after
      return made .template (opening :: items)
    else failure

/-- The texts and the substitutions of a template from a place on, and its end. -/
def templateItems : Nat → Place → Reader (List Part)
  | 0, _ => failure
  | n + 1, place => do
    let length := templateTextLength place.rest
    let text : List Part := if length = 0 then [] else [⟨[], place.leaf .templateText length⟩]
    let place := place.advance length
    match place.rest with
    | [] => failure
    | c :: _ =>
      if c.is '\x60' then
        set (Cursor.ofPlace (place.advance 1))
        return text ++ [⟨[], place.leaf .punctuation 1⟩]
      else
        let opening : Part := ⟨[], place.leaf .punctuation 2⟩
        set (Cursor.ofPlace (place.advance 2))
        let inner ← expressions n true
        let c ← get
        if c.isPunctuation "\x7d" then
          let items ← templateItems n c.after
          return text ++ made .substitution (opening :: inner ++ [c.part .punctuation]) :: items
        else failure

/-- An element of markup, and the place after it. -/
def markupElement : Nat → Reader (Part × Place)
  | 0 => failure
  | n + 1 => do
    let opening ← punctuation "<"
    let name ← if (← get).isPunctuation ">" then pure [] else pure [← markupName]
    let attributes ← markupAttributes n
    if (← get).isPunctuation "/" then
      let slash ← take .punctuation
      let (close, place) ← markupTagEnd
      return (made .markupElement (opening :: name ++ attributes ++ [slash, close]), place)
    else
      let (close, place) ← markupTagEnd
      let head := made .markupOpening (opening :: name ++ attributes ++ [close])
      let (content, place) ← markupContent n place
      return (made .markupElement (head :: content), place)

/-- An element of markup as an expression. -/
def markupOperand : Nat → Reader Part
  | 0 => failure
  | n + 1 => do
    let (element, place) ← markupElement n
    set (Cursor.ofPlace place)
    return element

/-- The attributes of an element of markup. -/
def markupAttributes : Nat → Reader (List Part)
  | 0 => failure
  | n + 1 => do
    let c ← get
    if c.isPunctuation "\x7b" then
      let spread ← markupExpression n
      return spread :: (← markupAttributes n)
    else if c.kind = .name then
      let name ← markupName
      let c ← get
      if c.isPunctuation "=" then
        let equals ← take .punctuation
        let c ← get
        let value ←
          if c.kind = .string || c.kind = .stray then markupString
          else if c.isPunctuation "\x7b" then markupExpression n
          else markupOperand n
        return made .markupAttribute [name, equals, value] :: (← markupAttributes n)
      else return made .markupAttribute [name] :: (← markupAttributes n)
    else return []

/-- A quoted value in markup, in which a backslash stands for itself. -/
def markupString : Reader Part := do
  match (← get).before.rest with
  | [] => failure
  | mark :: t =>
    let body := t.takeWhile fun c => c ≠ mark
    if mark.isAny ['\x22', '\x27'] && body.length < t.length then
      takeLength .string (body.length + 2)
    else failure

/-- An expression in markup. -/
def markupExpression : Nat → Reader Part
  | 0 => failure
  | n + 1 => do
    let (parts, place) ← markupExpressionParts n
    set (Cursor.ofPlace place)
    return made .markupExpression parts

/-- The parts of an expression in markup, and the place after its closing brace. -/
def markupExpressionParts : Nat → Reader (List Part × Place)
  | 0 => failure
  | n + 1 => do
    let opening ← punctuation "\x7b"
    let c ← get
    let inner ←
      if c.isPunctuation "\x7d" then pure []
      else if c.isPunctuation "..." then pure [← listItem n]
      else expressions n true
    let c ← get
    if c.isPunctuation "\x7d" then return (opening :: inner ++ [c.part .punctuation], c.after)
    else failure

/-- The content of an element of markup from a place on, its end tag, and the place after it. -/
def markupContent : Nat → Place → Reader (List Part × Place)
  | 0, _ => failure
  | n + 1, place => do
    let length := (place.rest.takeWhile fun c => !c.isAny ['<', '\x7b']).length
    let text : List Part := if length = 0 then [] else [⟨[], place.leaf .markupText length⟩]
    let place := place.advance length
    let c := Cursor.ofPlace place
    set c
    if c.isPunctuation "\x7b" then
      let (parts, place) ← markupExpressionParts n
      let (others, place) ← markupContent n place
      return (text ++ made .markupExpression parts :: others, place)
    else if c.isPunctuation "<" && c.next.isPunctuation "/" then
      let opening ← take .punctuation
      let slash ← take .punctuation
      let name ← if (← get).isPunctuation ">" then pure [] else pure [← markupName]
      let (close, place) ← markupTagEnd
      return (text ++ [made .markupClosing ([opening, slash] ++ name ++ [close])], place)
    else
      let (element, place) ← markupElement n
      let (others, place) ← markupContent n place
      return (text ++ element :: others, place)

/-- A block of statements. -/
def block : Nat → Reader Part
  | 0 => failure
  | n + 1 => do
    let opening ← punctuation "\x7b"
    let body ← statements n
    return made .block (opening :: body ++ (← closing "\x7d"))

/-- Statements up to a closing brace or the end. What begins no statement is set aside. -/
def statements : Nat → Reader (List Part)
  | 0 => failure
  | n + 1 => do
    let c ← operandStart
    if c.atEnd || c.isPunctuation "\x7d" then return []
    else
      match (statement n).run c with
      | some (s, after) => do
        set after
        return s :: (← statements n)
      | none =>
        let stray ← take .stray
        return stray :: (← statements n)

/-- A statement. -/
def statement : Nat → Reader Part
  | 0 => failure
  | n + 1 => do
    let c ← operandStart
    match c.kind with
    | .punctuation =>
      if c.word = "\x7b" then block n
      else if c.word = ";" then return made .statement [← take .punctuation]
      else if c.word = "@" then
        let head ← decorators n
        if (← get).isWord "export" then exportStatement n head else classLike n head
      else expressionStatement n
    | .name => wordStatement n
    | _ => expressionStatement n

/-- An expression as a statement. -/
def expressionStatement : Nat → Reader Part
  | 0 => failure
  | n + 1 => do
    let body ← expressions n true
    return made .statement (body ++ (← semicolon))

/-- A statement that begins with a word. -/
def wordStatement : Nat → Reader Part
  | 0 => failure
  | n + 1 => do
    let c ← get
    let next := c.next
    match c.word with
    | "var" | "const" => declaration n
    | "let" =>
      if next.isPunctuation "[" || next.isPunctuation "\x7b" ||
          (next.kind = .name && !next.isOneOf ["in", "of", "instanceof"]) then declaration n
      else expressionStatement n
    | "function" => functionLike n []
    | "async" =>
      if !next.lineEnds && next.isWord "function" then
        let word ← take .keyword
        functionLike n [word]
      else expressionStatement n
    | "class" => classLike n []
    | "if" => ifStatement n
    | "for" => forStatement n
    | "while" | "with" =>
      let word ← take .keyword
      let test ← parenthesized n []
      return made .statement [word, test, ← statement n]
    | "do" => doStatement n
    | "try" => tryStatement n
    | "switch" => switchStatement n
    | "return" | "throw" =>
      let word ← take .keyword
      if (← get).endsStatement then return made .statement (word :: (← semicolon))
      else
        let value ← expressions n true
        return made .statement (word :: value ++ (← semicolon))
    | "break" | "continue" =>
      let word ← take .keyword
      let c ← get
      let label ← if c.kind = .name && !c.lineEnds then pure [← take .identifier] else pure []
      return made .statement (word :: label ++ (← semicolon))
    | "debugger" =>
      let word ← take .keyword
      return made .statement (word :: (← semicolon))
    | "import" =>
      if next.isPunctuation "(" || next.isPunctuation "." then expressionStatement n
      else
        let word ← take .keyword
        let parts ← moduleParts n
        return made .importStatement (word :: parts ++ (← semicolon))
    | "export" => exportStatement n []
    | _ =>
      if next.isPunctuation ":" && !reservedWords.contains c.word && !valueWords.contains c.word then
        let label ← take .identifier
        let colon ← take .punctuation
        return made .statement [label, colon, ← statement n]
      else expressionStatement n

/-- The tokens of an import or of a renewed export up to the name of a module and what may be said
of it. -/
def moduleParts : Nat → Reader (List Part)
  | 0 => failure
  | n + 1 => do
    let c ← get
    match c.kind with
    | .string =>
      let name ← take .string
      let c ← get
      if c.isWord "with" || (c.isWord "assert" && !c.lineEnds) then
        let word ← take .keyword
        return [name, word, ← objectLiteral n]
      else return [name]
    | .name =>
      let word ← take .keyword
      return word :: (← moduleParts n)
    | .punctuation =>
      if c.word = "\x7b" then
        let opening ← take .punctuation
        let items ← bracedTokens n
        let close ← closing "\x7d"
        return made .object (opening :: items ++ close) :: (← moduleParts n)
      else if c.word = "*" || c.word = "," then
        let mark ← take .punctuation
        return mark :: (← moduleParts n)
      else failure
    | _ => failure

/-- The tokens up to a closing brace. -/
def bracedTokens : Nat → Reader (List Part)
  | 0 => failure
  | n + 1 => do
    let c ← get
    match c.kind with
    | .string | .name | .privateName | .number =>
      let word ← take .keyword
      return word :: (← bracedTokens n)
    | .punctuation =>
      if c.word = "," || c.word = "*" then
        let mark ← take .punctuation
        return mark :: (← bracedTokens n)
      else return []
    | .stray | .endOfSource => return []

/-- An export, whose decorators are given. -/
def exportStatement : Nat → List Part → Reader Part
  | 0, _ => failure
  | n + 1, head => do
    let word ← keyword "export"
    let c ← get
    if c.isWord "default" then
      let default ← take .keyword
      let c ← get
      if c.isOneOf ["function", "class"] || c.isPunctuation "@" ||
          (c.isWord "async" && !c.next.lineEnds && c.next.isWord "function") then
        let value ← primary n
        return made .exportStatement (head ++ [word, default, value])
      else
        let value ← assignment n true
        return made .exportStatement (head ++ [word, default, value] ++ (← semicolon))
    else if c.isPunctuation "*" then
      let parts ← moduleParts n
      return made .exportStatement (head ++ [word] ++ parts ++ (← semicolon))
    else if c.isPunctuation "\x7b" then
      let opening ← take .punctuation
      let items ← bracedTokens n
      let close ← closing "\x7d"
      let list := made .object (opening :: items ++ close)
      let source ← if (← get).isWord "from" then moduleParts n else pure []
      return made .exportStatement (head ++ [word, list] ++ source ++ (← semicolon))
    else return made .exportStatement (head ++ [word, ← statement n])

/-- A declaration of variables. -/
def declaration : Nat → Reader Part
  | 0 => failure
  | n + 1 => do
    let word ← take .keyword
    let items ← declarators n true
    return made .declaration (word :: items ++ (← semicolon))

/-- The variables of a declaration and the commas between them. -/
def declarators : Nat → (allowIn : Bool) → Reader (List Part)
  | 0, _ => failure
  | n + 1, allowIn => do
    let target ← bindingTarget n
    declaratorTail n allowIn target

/-- The value of a variable and the variables after it. -/
def declaratorTail : Nat → (allowIn : Bool) → Part → Reader (List Part)
  | 0, _, _ => failure
  | n + 1, allowIn, target => do
    let value ← if (← get).isPunctuation "=" then do
        let equals ← take .punctuation
        pure [equals, ← assignment n allowIn]
      else pure []
    let item := made .declarator (target :: value)
    if (← get).isPunctuation "," then
      let comma ← take .punctuation
      return item :: comma :: (← declarators n allowIn)
    else return [item]

/-- A name or a pattern that is given a value. -/
def bindingTarget : Nat → Reader Part
  | 0 => failure
  | n + 1 => do
    let c ← get
    if c.isPunctuation "[" then arrayLiteral n
    else if c.isPunctuation "\x7b" then objectLiteral n
    else if c.kind = .name then take .identifier
    else failure

/-- A choice between two statements. -/
def ifStatement : Nat → Reader Part
  | 0 => failure
  | n + 1 => do
    let word ← keyword "if"
    let test ← parenthesized n []
    let consequence ← statement n
    if (← get).isWord "else" then
      let other ← take .keyword
      let alternative := made .clause [other, ← statement n]
      return made .statement [word, test, consequence, alternative]
    else return made .statement [word, test, consequence]

/-- A loop with a head in parentheses. -/
def forStatement : Nat → Reader Part
  | 0 => failure
  | n + 1 => do
    let word ← keyword "for"
    let await ← if (← get).isWord "await" then pure [← take .keyword] else pure []
    let opening ← punctuation "("
    let head ← forHead n
    let close ← punctuation ")"
    let body ← statement n
    return made .statement ([word] ++ await ++ [opening] ++ head ++ [close, body])

/-- The head of a loop: what it runs over, or its start, its test and its step. -/
def forHead : Nat → Reader (List Part)
  | 0 => failure
  | n + 1 => do
    let c ← operandStart
    if c.isPunctuation ";" then
      let mark ← take .punctuation
      return made .statement [mark] :: (← forTail n)
    else if c.isOneOf ["var", "const"] || (c.isWord "let" &&
        (c.next.kind = .name && !c.next.isOneOf ["in", "of"] || c.next.isPunctuation "[" ||
          c.next.isPunctuation "\x7b")) then
      let word ← take .keyword
      let target ← bindingTarget n
      if (← get).isOneOf ["in", "of"] then
        return [word, target] ++ (← forRange n)
      else
        let items ← declaratorTail n false target
        if (← get).isOneOf ["in", "of"] then
          return word :: items ++ (← forRange n)
        else
          let mark ← punctuation ";"
          return made .declaration (word :: items ++ [mark]) :: (← forTail n)
    else
      let start ← expressions n false
      if (← get).isOneOf ["in", "of"] then return start ++ (← forRange n)
      else
        let mark ← punctuation ";"
        return start ++ [mark] ++ (← forTail n)

/-- What a loop runs over. -/
def forRange : Nat → Reader (List Part)
  | 0 => failure
  | n + 1 => do
    let word ← take .keyword
    return word :: (← expressions n true)

/-- The test and the step of a loop. -/
def forTail : Nat → Reader (List Part)
  | 0 => failure
  | n + 1 => do
    let test ← if (← get).isPunctuation ";" then do
        let mark ← take .punctuation
        pure [made .statement [mark]]
      else do
        let test ← expressions n true
        let mark ← punctuation ";"
        pure (test ++ [mark])
    let step ← if (← get).isPunctuation ")" then pure [] else expressions n true
    return test ++ step

/-- A loop with its test after its body. -/
def doStatement : Nat → Reader Part
  | 0 => failure
  | n + 1 => do
    let word ← keyword "do"
    let body ← statement n
    let loop ← keyword "while"
    let test ← parenthesized n []
    return made .statement ([word, body, loop, test] ++ (← optional ";"))

/-- A block with its handlers. -/
def tryStatement : Nat → Reader Part
  | 0 => failure
  | n + 1 => do
    let word ← keyword "try"
    let body ← block n
    let handler ← if (← get).isWord "catch" then do
        let word ← take .keyword
        let parameter ← if (← get).isPunctuation "(" then do
            let opening ← take .punctuation
            let target ← bindingTarget n
            pure (opening :: target :: (← closing ")"))
          else pure []
        pure [made .clause (word :: parameter ++ [← block n])]
      else pure []
    let finalizer ← if (← get).isWord "finally" then do
        let word ← take .keyword
        pure [made .clause [word, ← block n]]
      else pure []
    return made .statement ([word, body] ++ handler ++ finalizer)

/-- A choice between cases. -/
def switchStatement : Nat → Reader Part
  | 0 => failure
  | n + 1 => do
    let word ← keyword "switch"
    let value ← parenthesized n []
    let opening ← punctuation "\x7b"
    let cases ← switchCases n
    let close ← closing "\x7d"
    return made .statement [word, value, made .switchBody (opening :: cases ++ close)]

/-- The cases of a choice. -/
def switchCases : Nat → Reader (List Part)
  | 0 => failure
  | n + 1 => do
    let c ← get
    if c.isWord "case" then
      let word ← take .keyword
      let value ← expressions n true
      let colon ← punctuation ":"
      let body ← caseStatements n
      return made .switchCase (word :: value ++ [colon] ++ body) :: (← switchCases n)
    else if c.isWord "default" then
      let word ← take .keyword
      let colon ← punctuation ":"
      let body ← caseStatements n
      return made .switchCase ([word, colon] ++ body) :: (← switchCases n)
    else return []

/-- The statements of a case. -/
def caseStatements : Nat → Reader (List Part)
  | 0 => failure
  | n + 1 => do
    let c ← operandStart
    if c.atEnd || c.isPunctuation "\x7d" || c.isOneOf ["case", "default"] then return []
    else
      match (statement n).run c with
      | some (s, after) => do
        set after
        return s :: (← caseStatements n)
      | none =>
        let stray ← take .stray
        return stray :: (← caseStatements n)

end

/-- The trees of parts, each after the comments before it. -/
def settled (parts : List Part) : List Tree :=
  parts.flatMap fun p => p.leading ++ [p.tree]

/-- The statements of a whole source and the comments between and after them. A closing brace that
closes nothing is set aside. -/
def sourceStatements : Nat → (steps : Nat) → Cursor → List Tree
  | 0, _, _ => []
  | n + 1, steps, c =>
    match (statements steps).run c with
    | none => []
    | some (parts, after) =>
      if after.atEnd then settled parts ++ after.comments.reverse
      else settled (parts ++ [after.part .stray]) ++ sourceStatements n steps after.next

/-- The steps that suffice for a source of a length. -/
def stepsFor (length : Nat) : Nat :=
  64 * (length + 2)

/-- The syntax tree of a source. -/
def parse (source : Text) : Tree :=
  .node .program
    (sourceStatements (source.length + 1) (stepsFor source.length) (Cursor.start source))

end MessageExtraction.Script
