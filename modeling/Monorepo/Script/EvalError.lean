import Monorepo.Script.Value

/-!
# Faults of a running script

Why the execution of a script stopped, and on which line. Faults are causes; their wording is one
function. What a script may do and is only warned of is kept apart.
-/

namespace Monorepo.Script

/-- Why execution stopped. -/
inductive EvalFault
  -- Control
  | returnOutsideFunction
  | exitOutsideLoop
  | recursion
  /-- Not a fault of the script: the program ends on the spot. -/
  | aborted
  -- Sizes
  | tooDeep
  | tooLong (type : ValueType) (length : Nat)
  | tooLarge
  | comprehensionSize
  | repetitionSize
  | rangeSize (length : Nat)
  | resultSize (function : String)
  -- Numbers
  | nanToInt
  | overflow
  | divisionByZero
  | floatDivisionByZero
  | invalidInteger (literal : String)
  | notANumber (type : ValueType)
  -- Operators
  | unsupportedOperands (symbol : String) (left right : ValueType)
  | badOperand (symbol : String) (operand : ValueType)
  | incomparable (symbol : String) (left right : ValueType)
  | containerType (type : ValueType)
  | textContainer (item : ValueType)
  -- Items and attributes
  | notSubscriptable (type : ValueType)
  | indexType (sequence index : ValueType)
  | indexOutOfRange
  | textIndexOutOfRange
  | listAssignmentOutOfRange
  | keyNotFound (key : String)
  | noItemAssignment (type : ValueType)
  | temporaryItem (type : ValueType)
  | readOnlyAttribute (type : ValueType) (name : String)
  | unassignable
  | unpackCount (names items : Nat)
  | notIterable (type : ValueType)
  -- Calls
  | notCallable (type : ValueType)
  | tooManyArguments (function : String) (parameters arguments : Nat)
  | unexpectedKeyword (function name : String)
  | repeatedArgument (function name : String)
  | missingArgument (function name : String)
  | keywordNotText
  | notAMapping (type : ValueType)
  | atMostOne (function : String)
  | atMostOnePositional (function : String)
  | exactlyOne (function : String)
  | exactlyOnePositional (function : String)
  | noLength (type : ValueType)
  | notAPair
  | rangeType (type : ValueType)
  | rangeCount
  | rangeStep
  | getCount
  | insertArguments
  | updateSource (type : ValueType)
  -- Texts
  | replaceArguments
  | affixType (method : String) (type : ValueType)
  | stripType (method : String) (type : ValueType)
  | joinItem (type : ValueType)
  | emptySeparator
  | separatorType (type : ValueType)
  | splitLimitType (type : ValueType)
  | openBrace
  | closingBrace
  | unmatchedField (field : String)
  | incompleteConversion
  | missingConversionValue
  | conversionNumber (conversion : Char) (type : ValueType)
  | unknownConversion (conversion : Char)
  | unusedConversionValue
deriving DecidableEq, Repr

/-- A word in single quotes. -/
def quoted (word : String) : String := "'" ++ word ++ "'"

/-- A type's name in single quotes. -/
def ValueType.quoted (type : ValueType) : String := Script.quoted type.label

/-- The words for a fault. -/
def EvalFault.message : EvalFault → String
  | .returnOutsideFunction => "'return' outside function"
  | .exitOutsideLoop => "'break' or 'continue' outside loop"
  | .recursion => "maximum recursion depth exceeded"
  | .aborted => "user-provided comparison function does not correctly implement a total order"
  | .tooDeep => "value is nested too deeply"
  | .tooLong type length =>
    type.label ++ " of length " ++ toString length ++ " exceeds the size limit"
  | .tooLarge => "value exceeds the size limit"
  | .comprehensionSize => "list comprehension exceeds the size limit"
  | .repetitionSize => "repetition exceeds the size limit"
  | .rangeSize length => "range() of " ++ toString length ++ " elements exceeds the size limit"
  | .resultSize function => function ++ "() result exceeds the size limit"
  | .nanToInt => "cannot convert float NaN to integer"
  | .overflow => "integer overflow"
  | .divisionByZero => "integer division or modulo by zero"
  | .floatDivisionByZero => "float division by zero"
  | .invalidInteger literal => "invalid literal for int() with base 10: " ++ literal
  | .notANumber type => "int() argument must be a string or a number, not " ++ type.quoted
  | .unsupportedOperands symbol left right =>
    "unsupported operand type(s) for " ++ symbol ++ ": " ++ left.quoted ++ " and " ++ right.quoted
  | .badOperand symbol operand => "bad operand type for unary " ++ symbol ++ ": " ++ operand.quoted
  | .incomparable symbol left right =>
    quoted symbol ++ " not supported between instances of " ++ left.quoted ++ " and "
      ++ right.quoted
  | .containerType type => "argument of type " ++ type.quoted ++ " is not iterable"
  | .textContainer item => "'in <string>' requires string as left operand, not " ++ item.quoted
  | .notSubscriptable type => type.quoted ++ " object is not subscriptable"
  | .indexType sequence index =>
    sequence.label ++ " indices must be integers, not " ++ index.quoted
  | .indexOutOfRange => "index out of range"
  | .textIndexOutOfRange => "string index out of range"
  | .listAssignmentOutOfRange => "list assignment index out of range"
  | .keyNotFound key => "key " ++ key ++ " not found"
  | .noItemAssignment type => type.quoted ++ " object does not support item assignment"
  | .temporaryItem type => "item assignment on a temporary " ++ type.quoted ++ " is not supported"
  | .readOnlyAttribute type name =>
    type.quoted ++ " object has no writable attribute " ++ quoted name
  | .unassignable => "cannot assign to expression"
  | .unpackCount names items =>
    "expected " ++ toString names ++ " values to unpack, got " ++ toString items
  | .notIterable type => type.quoted ++ " object is not iterable"
  | .notCallable type => type.quoted ++ " object is not callable"
  | .tooManyArguments function parameters arguments =>
    function ++ "() takes " ++ toString parameters ++ " positional arguments but "
      ++ toString arguments ++ " were given"
  | .unexpectedKeyword function name =>
    function ++ "() got an unexpected keyword argument " ++ quoted name
  | .repeatedArgument function name =>
    function ++ "() got multiple values for argument " ++ quoted name
  | .missingArgument function name => function ++ "() missing required argument " ++ quoted name
  | .keywordNotText => "keywords must be strings"
  | .notAMapping type => "argument after ** must be a mapping, not " ++ type.quoted
  | .atMostOne function => function ++ "() takes at most 1 argument"
  | .atMostOnePositional function => function ++ "() takes at most 1 positional argument"
  | .exactlyOne function => function ++ "() takes exactly one argument"
  | .exactlyOnePositional function => function ++ "() takes exactly one positional argument"
  | .noLength type => "object of type " ++ type.quoted ++ " has no len()"
  | .notAPair => "dictionary update sequence element must be a pair"
  | .rangeType type => "range() expects integers, got " ++ type.quoted
  | .rangeCount => "range() takes 1 to 3 arguments"
  | .rangeStep => "range() arg 3 must not be zero"
  | .getCount => "get() takes one or two arguments"
  | .insertArguments => "insert() expects an integer index and a value"
  | .updateSource type => "cannot update dict from " ++ type.quoted
  | .replaceArguments => "replace() expects two strings and an optional count"
  | .affixType method type =>
    method ++ "() argument must be str or a tuple of str, not " ++ type.quoted
  | .stripType method type => method ++ " arg must be None or str, not " ++ type.quoted
  | .joinItem type => "sequence item: expected str instance, " ++ type.quoted ++ " found"
  | .emptySeparator => "empty separator"
  | .separatorType type => "must be str or None, not " ++ type.quoted
  | .splitLimitType type => "maxsplit must be an integer, not " ++ type.quoted
  | .openBrace => "single '\x7b' encountered in format string"
  | .closingBrace => "single '\x7d' encountered in format string"
  | .unmatchedField field =>
    "format field '\x7b" ++ field ++ "\x7d' has no matching argument"
  | .incompleteConversion => "incomplete format"
  | .missingConversionValue => "not enough arguments for format string"
  | .conversionNumber conversion type =>
    "%" ++ String.singleton conversion ++ " format: a number is required, not " ++ type.quoted
  | .unknownConversion conversion =>
    "unsupported format character " ++ quoted (String.singleton conversion)
  | .unusedConversionValue => "not all arguments converted during string formatting"

/-- A fault and the line of the statement that was being executed. -/
structure EvalError where
  /-- The line. -/
  line : Nat
  /-- The fault. -/
  fault : EvalFault
deriving DecidableEq, Repr

/-- What a script may do at the price of a warning. -/
inductive Notice
  /-- A name that nothing bound was used as a stub. -/
  | undefinedName (name : String)
  /-- An item of a name that nothing bound was assigned. -/
  | undefinedItem (name : String)
  /-- Keyword arguments were taken from a stub. -/
  | stubKeywords (trace : String)
  /-- A target was declared with positional arguments. -/
  | positionalIgnored (kind : String) (count : Nat)
  /-- An attribute that its object does not have was used as a stub. -/
  | unknownAttribute (name : String) (type : ValueType)
  /-- A target depends on the empty reference. -/
  | emptyDependency (id : String)
  /-- Two targets have one id. -/
  | duplicateTarget (id : String)
  /-- An entry of a list of references or sources is no text. -/
  | droppedEntry (entry kind keyword : String)
deriving DecidableEq, Repr

/-- The words for a notice. -/
def Notice.message : Notice → String
  | .undefinedName name => "undefined name " ++ quoted name ++ " treated as a stub"
  | .undefinedItem name => "item assignment to undefined name " ++ quoted name ++ " ignored"
  | .stubKeywords trace => "keyword arguments from " ++ quoted trace ++ " ignored"
  | .positionalIgnored kind count =>
    kind ++ "() ignores " ++ toString count ++ " positional argument(s)"
  | .unknownAttribute name type =>
    "unknown attribute " ++ quoted name ++ " on " ++ type.quoted ++ " treated as a stub"
  | .emptyDependency id => "empty dependency in " ++ quoted id
  | .duplicateTarget id =>
    "duplicate target id " ++ quoted id ++ " overwrites an earlier declaration"
  | .droppedEntry entry kind keyword =>
    "non-string entry " ++ entry ++ " in " ++ kind ++ "() " ++ quoted keyword ++ " dropped"

/-- A notice and its line. -/
structure Warning where
  /-- The line. -/
  line : Nat
  /-- What is warned of. -/
  notice : Notice
deriving DecidableEq, Repr

/-- The words for a warning. -/
def Warning.message (w : Warning) : String := "line " ++ toString w.line ++ ": " ++ w.notice.message

end Monorepo.Script
