/-
# Tokens

The words and marks of a block. Besides the tokens that stand for a piece of the text there are
four that stand for layout: the end of a logical line, the opening and the closing of an indented
block, and the end of the text.
-/
import NoteCheck.Code.Position

namespace NoteCheck.Code

/-- What a token is. -/
inductive TokenKind where
  -- layout
  | endOfFile | newline | indent | dedent
  -- pieces with a text of their own
  | number | string | formattedString | identifier
  -- brackets
  | openBracket | closeBracket | openBrace | closeBrace | openParen | closeParen
  -- comparison and binding
  | assign | colonAssign | equal | notEqual | less | lessEqual | greater | greaterEqual
  -- punctuation
  | dot | ellipsis | semicolon | colon | comma | arrow | atSign
  -- augmented assignment
  | plusAssign | minusAssign | starAssign | slashAssign | doubleSlashAssign | percentAssign
  | doubleStarAssign | atAssign | ampersandAssign | pipeAssign | caretAssign | shiftLeftAssign
  | shiftRightAssign
  -- operators
  | plus | minus | star | doubleStar | slash | doubleSlash | percent | tilde | ampersand | pipe
  | caret | shiftLeft | shiftRight
  -- reserved words
  | kwDef | kwReturn | kwIf | kwElif | kwElse | kwFor | kwWhile | kwIn | kwIs | kwNot | kwAnd
  | kwOr | kwLambda | kwTrue | kwFalse | kwNone | kwAsync | kwAwait | kwYield | kwClass
  | kwImport | kwFrom | kwAs | kwGlobal | kwNonlocal | kwTry | kwExcept | kwFinally | kwWith
  | kwRaise | kwPass | kwBreak | kwContinue | kwDel | kwAssert
  deriving DecidableEq, Repr

namespace TokenKind

/-- The name of a kind, as messages write it. -/
def name : TokenKind → String
  | .endOfFile => "EOF"
  | .newline => "Newline"
  | .indent => "Indent"
  | .dedent => "Dedent"
  | .number => "Number"
  | .string => "String"
  | .formattedString => "FormattedString"
  | .identifier => "Identifier"
  | .openBracket => "OpenBracket"
  | .closeBracket => "CloseBracket"
  | .openBrace => "OpenCurly"
  | .closeBrace => "CloseCurly"
  | .openParen => "OpenParen"
  | .closeParen => "CloseParen"
  | .assign => "Assignment"
  | .colonAssign => "ColonEquals"
  | .equal => "Equals"
  | .notEqual => "NotEquals"
  | .less => "Less"
  | .lessEqual => "LessEquals"
  | .greater => "Greater"
  | .greaterEqual => "GreaterEquals"
  | .dot => "Dot"
  | .ellipsis => "Ellipsis"
  | .semicolon => "Semicolon"
  | .colon => "Colon"
  | .comma => "Comma"
  | .arrow => "Arrow"
  | .atSign => "At"
  | .plusAssign => "PlusEquals"
  | .minusAssign => "MinusEquals"
  | .starAssign => "StarEquals"
  | .slashAssign => "SlashEquals"
  | .doubleSlashAssign => "DoubleSlashEquals"
  | .percentAssign => "PercentEquals"
  | .doubleStarAssign => "DoubleStarEquals"
  | .atAssign => "AtEquals"
  | .ampersandAssign => "AmpersandEquals"
  | .pipeAssign => "PipeEquals"
  | .caretAssign => "CaretEquals"
  | .shiftLeftAssign => "ShiftLeftEquals"
  | .shiftRightAssign => "ShiftRightEquals"
  | .plus => "Plus"
  | .minus => "Dash"
  | .star => "Star"
  | .doubleStar => "DoubleStar"
  | .slash => "Slash"
  | .doubleSlash => "DoubleSlash"
  | .percent => "Percent"
  | .tilde => "Tilde"
  | .ampersand => "Ampersand"
  | .pipe => "Pipe"
  | .caret => "Caret"
  | .shiftLeft => "ShiftLeft"
  | .shiftRight => "ShiftRight"
  | .kwDef => "Def"
  | .kwReturn => "Return"
  | .kwIf => "If"
  | .kwElif => "Elif"
  | .kwElse => "Else"
  | .kwFor => "For"
  | .kwWhile => "While"
  | .kwIn => "In"
  | .kwIs => "Is"
  | .kwNot => "Not"
  | .kwAnd => "And"
  | .kwOr => "Or"
  | .kwLambda => "Lambda"
  | .kwTrue => "True"
  | .kwFalse => "False"
  | .kwNone => "None"
  | .kwAsync => "Async"
  | .kwAwait => "Await"
  | .kwYield => "Yield"
  | .kwClass => "Class"
  | .kwImport => "Import"
  | .kwFrom => "From"
  | .kwAs => "As"
  | .kwGlobal => "Global"
  | .kwNonlocal => "Nonlocal"
  | .kwTry => "Try"
  | .kwExcept => "Except"
  | .kwFinally => "Finally"
  | .kwWith => "With"
  | .kwRaise => "Raise"
  | .kwPass => "Pass"
  | .kwBreak => "Break"
  | .kwContinue => "Continue"
  | .kwDel => "Del"
  | .kwAssert => "Assert"

/-- Every kind. -/
def all : List TokenKind := [
  .endOfFile, .newline, .indent, .dedent, .number, .string, .formattedString, .identifier,
  .openBracket, .closeBracket, .openBrace, .closeBrace, .openParen, .closeParen, .assign,
  .colonAssign, .equal, .notEqual, .less, .lessEqual, .greater, .greaterEqual, .dot, .ellipsis,
  .semicolon, .colon, .comma, .arrow, .atSign, .plusAssign, .minusAssign, .starAssign,
  .slashAssign, .doubleSlashAssign, .percentAssign, .doubleStarAssign, .atAssign,
  .ampersandAssign, .pipeAssign, .caretAssign, .shiftLeftAssign, .shiftRightAssign, .plus,
  .minus, .star, .doubleStar, .slash, .doubleSlash, .percent, .tilde, .ampersand, .pipe, .caret,
  .shiftLeft, .shiftRight, .kwDef, .kwReturn, .kwIf, .kwElif, .kwElse, .kwFor, .kwWhile, .kwIn,
  .kwIs, .kwNot, .kwAnd, .kwOr, .kwLambda, .kwTrue, .kwFalse, .kwNone, .kwAsync, .kwAwait,
  .kwYield, .kwClass, .kwImport, .kwFrom, .kwAs, .kwGlobal, .kwNonlocal, .kwTry, .kwExcept,
  .kwFinally, .kwWith, .kwRaise, .kwPass, .kwBreak, .kwContinue, .kwDel, .kwAssert]

/-- The marks in the order in which they are tried: a mark stands before every mark that begins
it, so the longest one is found. -/
def marks : List (String × TokenKind) := [
  ("**=", .doubleStarAssign), ("//=", .doubleSlashAssign), ("<<=", .shiftLeftAssign),
  (">>=", .shiftRightAssign), ("...", .ellipsis), ("**", .doubleStar), ("//", .doubleSlash),
  ("->", .arrow), (":=", .colonAssign), ("==", .equal), ("!=", .notEqual), ("<<", .shiftLeft),
  (">>", .shiftRight), ("<=", .lessEqual), (">=", .greaterEqual), ("+=", .plusAssign),
  ("-=", .minusAssign), ("*=", .starAssign), ("/=", .slashAssign), ("%=", .percentAssign),
  ("@=", .atAssign), ("&=", .ampersandAssign), ("|=", .pipeAssign), ("^=", .caretAssign),
  ("[", .openBracket), ("]", .closeBracket), ("\x7b", .openBrace), ("\x7d", .closeBrace),
  ("(", .openParen), (")", .closeParen), ("=", .assign), ("<", .less), (">", .greater),
  (".", .dot), (";", .semicolon), (":", .colon), (",", .comma), ("@", .atSign), ("+", .plus),
  ("-", .minus), ("*", .star), ("/", .slash), ("%", .percent), ("~", .tilde), ("&", .ampersand),
  ("|", .pipe), ("^", .caret)]

/-- The reserved words. -/
def reservedWords : List (String × TokenKind) := [
  ("def", .kwDef), ("return", .kwReturn), ("if", .kwIf), ("elif", .kwElif), ("else", .kwElse),
  ("for", .kwFor), ("while", .kwWhile), ("in", .kwIn), ("is", .kwIs), ("not", .kwNot),
  ("and", .kwAnd), ("or", .kwOr), ("lambda", .kwLambda), ("True", .kwTrue), ("False", .kwFalse),
  ("None", .kwNone), ("async", .kwAsync), ("await", .kwAwait), ("yield", .kwYield),
  ("class", .kwClass), ("import", .kwImport), ("from", .kwFrom), ("as", .kwAs),
  ("global", .kwGlobal), ("nonlocal", .kwNonlocal), ("try", .kwTry), ("except", .kwExcept),
  ("finally", .kwFinally), ("with", .kwWith), ("raise", .kwRaise), ("pass", .kwPass),
  ("break", .kwBreak), ("continue", .kwContinue), ("del", .kwDel), ("assert", .kwAssert)]

/-- The kind of a word: its own if it is reserved, and otherwise that of names. -/
def ofWord (word : String) : TokenKind :=
  (reservedWords.lookup word).getD .identifier

/-- A mark such as `+=` that assigns the result of an operation. -/
def isAugmentedAssign : TokenKind → Bool
  | .plusAssign | .minusAssign | .starAssign | .slashAssign | .doubleSlashAssign | .percentAssign
  | .doubleStarAssign | .atAssign | .ampersandAssign | .pipeAssign | .caretAssign
  | .shiftLeftAssign | .shiftRightAssign => true
  | _ => false

/-- An opening bracket. -/
def opensGroup : TokenKind → Bool
  | .openParen | .openBracket | .openBrace => true
  | _ => false

/-- A closing bracket. -/
def closesGroup : TokenKind → Bool
  | .closeParen | .closeBracket | .closeBrace => true
  | _ => false

/-- The number of open brackets after a token; a closing bracket too many changes nothing. -/
def depthAfter (kind : TokenKind) (depth : Nat) : Nat :=
  if kind.opensGroup then depth + 1 else if kind.closesGroup then depth - 1 else depth

end TokenKind

/-- A piece of a block, or a mark of its layout. -/
structure Token where
  kind : TokenKind
  text : String
  span : Span
  deriving DecidableEq, Repr

namespace Token

/-- The token in full. -/
def describe (t : Token) : String :=
  "Token \x7b\nkind: " ++ t.kind.name ++ ",\nvalue: " ++ t.text ++ "\x7d"

/-- The token as an error message shows it: by its text, or by its kind if it has none. -/
def shown (t : Token) : String :=
  if t.text.isEmpty then t.kind.name else t.text

end Token

end NoteCheck.Code
