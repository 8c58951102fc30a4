import StackLisp.Kind
import StackLisp.Text.Numeral

/-!
What can go wrong, from reading to running, as causes; the wording of each cause stands in one
place per family. A host may report a failure of its own in any family with a text of its own.
-/

namespace StackLisp

inductive LexProblem where
  | unknownEscape (letter : Char)
  | malformedKeyword (atom : String)
  | malformedAtom (atom : String)
  | reported (text : String)
  deriving DecidableEq, Repr

def LexProblem.message : LexProblem → String
  | .unknownEscape letter => "unknown escape sequence \\" ++ String.ofList [letter]
  | .malformedKeyword atom => s!"malformed keyword '{atom}'"
  | .malformedAtom atom => s!"malformed atom '{atom}'"
  | .reported text => text

inductive ParseProblem where
  | unexpected (token : String)
  | pairWithoutHead
  | pairNotClosed (token : String)
  | numberOutOfRange (numeral : String)
  | badChar (literal : String)
  | reported (text : String)
  deriving DecidableEq, Repr

def ParseProblem.message : ParseProblem → String
  | .unexpected token => s!"unexpected '{token}'"
  | .pairWithoutHead => "dotted pair has no head"
  | .pairNotClosed token => s!"expected ')' after dotted pair, found '{token}'"
  | .numberOutOfRange numeral => s!"number out of range: {numeral}"
  | .badChar literal => s!"bad character literal '{literal}'"
  | .reported text => text

/-- Signals between a reader and its caller that are no failures. -/
inductive Signal where
  | haltRequested
  | resetRequested
  | moreInputNeeded
  | shuttingDown
  deriving DecidableEq, Repr

def Signal.message : Signal → String
  | .haltRequested => "parser halt requested"
  | .resetRequested => "parser reset requested"
  | .moreInputNeeded => "more input needed"
  | .shuttingDown => "parser is shutting down"

inductive CompileProblem where
  | dottedList (form : String)
  | expandsTooDeeply (name : String)
  | quoteWithoutArgument
  | condWithoutDefault
  | expectedBinding (form : String)
  | ifShape
  | notParameterList (value : String)
  | badParameter (value : String)
  | restNotLast
  | unknownKind (name : String)
  | parameterWithoutKind (name : String)
  | expectedFunction (form : String)
  | letWithoutBindings
  | letUnpaired
  | letTarget (value : String)
  | whileWithoutTest
  | forHeader
  | exitWithArguments (exit : String)
  | exitOutsideLoop (exit : String)
  | templateCount
  | infixShape
  | infixUnexpected (value : String)
  | infixMissingOperand
  | reported (text : String)
  deriving DecidableEq, Repr

def CompileProblem.message : CompileProblem → String
  | .dottedList form => s!"cannot compile dotted list {form}"
  | .expandsTooDeeply name => s!"macro `{name}` expands too deeply"
  | .quoteWithoutArgument => "quote needs an argument"
  | .condWithoutDefault => "cond: missing default case"
  | .expectedBinding form => s!"{form}: expected a symbol and a value"
  | .ifShape => "if: expected a test, a consequent, and an optional alternative"
  | .notParameterList value => s!"expected a parameter list, got {value}"
  | .badParameter value => s!"bad parameter {value}"
  | .restNotLast => "`&` must be followed by exactly one name"
  | .unknownKind name => s!"unknown type `{name}`"
  | .parameterWithoutKind name => s!"parameter `{name}:` needs a type"
  | .expectedFunction form => s!"{form}: expected a name and a parameter list"
  | .letWithoutBindings => "let: expected a binding array"
  | .letUnpaired => "let: bindings must come in pairs"
  | .letTarget value => s!"let: cannot bind {value}"
  | .whileWithoutTest => "while: expected a test"
  | .forHeader => "for: expected [init test step]"
  | .exitWithArguments exit => s!"{exit} takes no arguments"
  | .exitOutsideLoop exit => s!"{exit} outside of a loop"
  | .templateCount => "syntax-quote takes one template"
  | .infixShape => "infix expects a single array"
  | .infixUnexpected value => s!"infix: unexpected {value}"
  | .infixMissingOperand => "infix: missing operand"
  | .reported text => text

inductive TypeProblem where
  | improperList (tail : Kind)
  | notSequence (kind : Kind)
  | notKey (kind : Kind)
  | notAssignable (source : Kind) (name : String) (target : Kind)
  | fieldSet (path field : String) (kind : Kind)
  | fieldGet (path field : String) (kind : Kind)
  | namedNotFunction (name : String) (kind : Kind)
  | notCallable (kind : Kind) (value : String)
  | notApplicable (kind : Kind)
  | parameterKind (function parameter : String) (expected got : Kind)
  | wrongArgument (native what : String) (got : Kind)
  | notComparable (native : String) (left right : Kind)
  | reported (text : String)
  deriving DecidableEq, Repr

def TypeProblem.message : TypeProblem → String
  | .improperList tail => s!"improper list ending in {tail.name}"
  | .notSequence kind => s!"expected list or array, got {kind.name}"
  | .notKey kind => s!"cannot use {kind.name} as a hash key"
  | .notAssignable source name target =>
    s!"cannot assign {source.name} to `{name}` of type {target.name}"
  | .fieldSet path field kind => s!"{path}: cannot set field `{field}` of {kind.name}"
  | .fieldGet path field kind => s!"{path}: cannot take field `{field}` of {kind.name}"
  | .namedNotFunction name kind => s!"`{name}` is {kind.name}, not a function"
  | .notCallable kind value => s!"cannot call {kind.name} {value}"
  | .notApplicable kind => s!"cannot apply {kind.name}"
  | .parameterKind function parameter expected got =>
    s!"`{function}`: parameter `{parameter}` expects {expected.name}, got {got.name}"
  | .wrongArgument native what got => s!"`{native}` expects {what}, got {got.name}"
  | .notComparable native left right => s!"`{native}` cannot compare {left.name} with {right.name}"
  | .reported text => text

inductive IndexProblem where
  | outOfBounds (native : String) (index : Int) (length : Nat)
  | firstOfEmptyArray
  | firstOfEmptyList
  | noKey (native key : String)
  | reported (text : String)
  deriving DecidableEq, Repr

def IndexProblem.message : IndexProblem → String
  | .outOfBounds native index length =>
    s!"`{native}`: index {signedText index} out of bounds for length {decimalText length}"
  | .firstOfEmptyArray => "`first` of an empty array"
  | .firstOfEmptyList => "`first` of an empty list"
  | .noKey native key => s!"`{native}`: no key {key}"
  | .reported text => text

inductive RuntimeProblem where
  | arithmetic (native : String)
  | unordered (native : String)
  | unpairedKeys (native : String)
  | scopesExhausted
  | callDepth (limit : Nat) (function : String)
  | nestingDepth (limit : Nat)
  | noParameter (function keyword : String)
  | keywordWithoutValue (function keyword : String)
  | parameterTwice (function parameter : String)
  | missingArgument (function parameter : String)
  /-- a program's own complaint -/
  | raised (text : String)
  | reported (text : String)
  deriving DecidableEq, Repr

def RuntimeProblem.message : RuntimeProblem → String
  | .arithmetic native => s!"`{native}`: integer overflow or division by zero"
  | .unordered native => s!"`{native}`: unordered operands"
  | .unpairedKeys native => s!"`{native}` needs key/value pairs"
  | .scopesExhausted => "scope stack exhausted"
  | .callDepth limit function => s!"call depth exceeded {decimalText limit} calling `{function}`"
  | .nestingDepth limit =>
    s!"call depth exceeded {decimalText limit} nested runs from native code"
  | .noParameter function keyword => s!"`{function}` has no parameter named `{keyword}`"
  | .keywordWithoutValue function keyword => s!"`{function}`: keyword `{keyword}` has no value"
  | .parameterTwice function parameter => s!"`{function}`: parameter `{parameter}` given twice"
  | .missingArgument function parameter =>
    s!"`{function}`: missing argument for parameter `{parameter}`"
  | .raised text => text
  | .reported text => text

inductive FileProblem where
  | notFound
  | unreadable
  | noPermission
  /-- something on the way to the file is no directory -/
  | notDirectory
  | isDirectory
  | nameTooLong
  | notText
  deriving DecidableEq, Repr

def FileProblem.message : FileProblem → String
  | .notFound => "No such file or directory (os error 2)"
  | .unreadable => "Input/output error (os error 5)"
  | .noPermission => "Permission denied (os error 13)"
  | .notDirectory => "Not a directory (os error 20)"
  | .isDirectory => "Is a directory (os error 21)"
  | .nameTooLong => "File name too long (os error 36)"
  | .notText => "stream did not contain valid UTF-8"

inductive Error where
  | lex (line : Nat) (problem : LexProblem)
  | parse (line : Nat) (problem : ParseProblem)
  | signal (sent : Signal)
  | compile (problem : CompileProblem)
  | undefined (name : String)
  | noField (path field : String)
  | argCount (function expected : String) (got : Nat)
  | type (problem : TypeProblem)
  | index (problem : IndexProblem)
  | runtime (problem : RuntimeProblem)
  | stackUnderflow
  | panic (native message trace : String)
  | file (problem : FileProblem)
  deriving DecidableEq, Repr

def Error.message : Error → String
  | .lex line problem => s!"line {decimalText line}: {problem.message}"
  | .parse line problem => s!"line {decimalText line}: parse error: {problem.message}"
  | .signal sent => sent.message
  | .compile problem => s!"compile error: {problem.message}"
  | .undefined name => s!"symbol `{name}` not found"
  | .noField path field => s!"symbol `{path} (no field `{field}`)` not found"
  | .argCount function expected got =>
    s!"`{function}` expects {expected} arguments, got {decimalText got}"
  | .type problem => s!"type error: {problem.message}"
  | .index problem => s!"index error: {problem.message}"
  | .runtime problem => problem.message
  | .stackUnderflow => "stack underflow"
  | .panic native message _ => s!"panic in native `{native}`: {message}"
  | .file problem => problem.message

end StackLisp
