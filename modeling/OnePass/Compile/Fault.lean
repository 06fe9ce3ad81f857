import OnePass.CType.Conversion
import OnePass.CType.Layout
import OnePass.Diagnostics
import OnePass.Token.Literal
import OnePass.Token.Punct

/-! # What a compilation can complain about

Faults stop the compilation of a unit; doubts are reported as warnings. -/
namespace OnePass

inductive CompileFault where
  -- what the grammar does not allow
  | expected (p : Punct) (got : String)
  | expectedWhile (got : String)
  | identifierExpected (got : String)
  | memberNameExpected
  | stringExpected (got : String)
  | wideString
  | expressionExpected (got : String)
  | typeExpected (got : String)
  | declarationExpected (got : String)
  | parameterExpected (got : String)
  | attributeExpected (got : String)
  | endOfFile
  | nestedTooDeeply
  | noValue (name : String)
  | signedAndUnsigned
  | storageClasses
  | basicTypes
  | storageInTypeName
  | nameInTypeName
  | storageInMember
  | storageInParameter
  | misplacedFunction
  -- literals
  | literal (fault : LiteralFault)
  | emptyCharacter
  -- what is not supported
  | floating
  | compoundLiteral
  | bitField
  | inlineAssembly
  | structResult
  | structArgument
  | structParameter
  -- expressions
  | frameTooLarge
  | pointerExpected
  | unknownSize
  | structConversion
  | voidValue
  | castTarget
  | binaryOperands
  | notOperand
  | unaryOperand
  | plusOperand
  | lvalueExpected
  | readOnly
  | assignTypes
  | conversion (doubt : ConversionDoubt)
  | derefVoid
  | scalarExpected
  | conditionalTypes
  | incompleteOperand (operator : String)
  | structExpected
  | noField (name : String)
  | functionExpected
  | tooFewArguments
  | tooManyArguments
  | undeclared (name : String)
  | functionNameOutside
  | constantExpected
  -- types and declarations
  | alignment
  | wrongTag (name : String)
  | tagDefined
  | functionMember
  | duplicateMember (name : String)
  | layout (fault : LayoutFault)
  | arraySize
  | arrayOfFunctions
  | arrayOfVoids
  | arrayTooLarge
  | functionResult
  | voidParameter
  | incompleteParameter
  | redefinition (name : String)
  | redefinedType (name : String)
  | redeclaration (name : String)
  | voidVariable (name : String)
  | externalInitializer (name : String)
  | nobitsInitializer (section_ : String)
  | unknownStorage (name : String)
  | definedTwice (name : String)
  | sectionTooLarge (section_ : String)
  -- initializers
  | initializer
  | negativeIndex
  | excessElements
  | excessMembers
  | incompleteInitializer
  | noMember (name : String)
  | notConstant
  -- statements
  | undefinedLabel (name : String)
  | duplicateLabel (name : String)
  | switchQuantity
  | strayCase
  | duplicateCase
  | strayDefault
  | tooManyDefaults
  | strayBreak
  | strayContinue
  -- what cannot happen
  | functionTypeExpected
  deriving DecidableEq, Repr

namespace CompileFault

def kind : CompileFault → ErrorKind
  | .expected .. | .expectedWhile _ | .identifierExpected _ | .memberNameExpected | .stringExpected _
  | .wideString | .expressionExpected _ | .typeExpected _ | .declarationExpected _
  | .parameterExpected _ | .attributeExpected _ | .endOfFile | .nestedTooDeeply | .noValue _
  | .signedAndUnsigned | .storageClasses | .basicTypes | .storageInTypeName | .nameInTypeName
  | .storageInMember | .storageInParameter | .misplacedFunction => .grammar
  | .literal _ | .emptyCharacter => .lexical
  | .functionTypeExpected => .internal
  | _ => .semantic

def text : CompileFault → String
  | .expected p got => "'" ++ p.spelling ++ "' expected (got \"" ++ got ++ "\")"
  | .expectedWhile got => "'while' expected (got \"" ++ got ++ "\")"
  | .identifierExpected got => "identifier expected (got \"" ++ got ++ "\")"
  | .memberNameExpected => "identifier expected"
  | .stringExpected got => "string expected (got \"" ++ got ++ "\")"
  | .wideString => "wide string not allowed here"
  | .expressionExpected got => "expression expected before \"" ++ got ++ "\""
  | .typeExpected got => "type expected (got \"" ++ got ++ "\")"
  | .declarationExpected got => "declaration expected (got \"" ++ got ++ "\")"
  | .parameterExpected got => "parameter declaration expected (got \"" ++ got ++ "\")"
  | .attributeExpected got => "attribute name expected (got \"" ++ got ++ "\")"
  | .endOfFile => "unexpected end of file"
  | .nestedTooDeeply => "expression nested too deeply"
  | .noValue name => "unexpected '" ++ name ++ "' in expression"
  | .signedAndUnsigned => "signed and unsigned modifier"
  | .storageClasses => "multiple storage classes specified"
  | .basicTypes => "too many basic types"
  | .storageInTypeName => "storage class in type name"
  | .nameInTypeName => "identifier not allowed in type name"
  | .storageInMember => "storage class in struct member"
  | .storageInParameter => "storage class specified for parameter"
  | .misplacedFunction => "function definition not allowed here"
  | .literal fault => fault.text
  | .emptyCharacter => "empty character constant"
  | .floating => "floating point types are not supported"
  | .compoundLiteral => "compound literals are not supported"
  | .bitField => "bit-fields are not supported"
  | .inlineAssembly => "inline assembly is not supported"
  | .structResult => "returning structs is not supported"
  | .structArgument => "passing structs by value is not supported"
  | .structParameter => "struct parameters are not supported"
  | .frameTooLarge => "stack frame too large"
  | .pointerExpected => "pointer expected"
  | .unknownSize => "unknown type size"
  | .structConversion => "cannot convert struct value"
  | .voidValue => "void value not ignored as it ought to be"
  | .castTarget => "cast to non-scalar type"
  | .binaryOperands => "invalid operand types for binary operation"
  | .notOperand => "invalid operand type for '!'"
  | .unaryOperand => "invalid operand type for unary operator"
  | .plusOperand => "invalid operand type for unary '+'"
  | .lvalueExpected => "lvalue expected"
  | .readOnly => "assignment of read-only location"
  | .assignTypes => "incompatible types in assignment"
  | .conversion doubt => doubt.text
  | .derefVoid => "dereferencing void pointer"
  | .scalarExpected => "scalar type expected"
  | .conditionalTypes => "type mismatch in conditional expression"
  | .incompleteOperand operator => operator ++ " applied to an incomplete type"
  | .structExpected => "struct or union expected"
  | .noField name => "field not found: " ++ name
  | .functionExpected => "function pointer expected"
  | .tooFewArguments => "too few arguments to function"
  | .tooManyArguments => "too many arguments to function"
  | .undeclared name => "'" ++ name ++ "' undeclared"
  | .functionNameOutside => "'__func__' is not defined outside of function scope"
  | .constantExpected => "constant expression expected"
  | .alignment => "alignment must be a positive power of two"
  | .wrongTag name => "'" ++ name ++ "' defined as wrong kind of tag"
  | .tagDefined => "struct/union/enum already defined"
  | .functionMember => "field declared as a function"
  | .duplicateMember name => "duplicate member '" ++ name ++ "'"
  | .layout fault => fault.text
  | .arraySize => "invalid array size"
  | .arrayOfFunctions => "declaration of an array of functions"
  | .arrayOfVoids => "declaration of an array of voids"
  | .arrayTooLarge => "size of array is too large"
  | .functionResult => "function cannot return an array or a function"
  | .voidParameter => "parameter declared as void"
  | .incompleteParameter => "parameter has incomplete type"
  | .redefinition name => "redefinition of '" ++ name ++ "'"
  | .redefinedType name => "incompatible types for redefinition of '" ++ name ++ "'"
  | .redeclaration name => "redeclaration of '" ++ name ++ "'"
  | .voidVariable name => "variable '" ++ name ++ "' declared void"
  | .externalInitializer name => "'" ++ name ++ "' has both 'extern' and initializer"
  | .nobitsInitializer section_ => "initialized object in NOBITS section '" ++ section_ ++ "'"
  | .unknownStorage name => "storage size of '" ++ name ++ "' isn't known"
  | .definedTwice name => "'" ++ name ++ "' defined twice"
  | .sectionTooLarge section_ => "section '" ++ section_ ++ "' is too large"
  | .initializer => "invalid initializer"
  | .negativeIndex => "negative array index in initializer"
  | .excessElements => "excess elements in array initializer"
  | .excessMembers => "excess elements in struct initializer"
  | .incompleteInitializer => "initialization of incomplete type"
  | .noMember name => "field '" ++ name ++ "' not found"
  | .notConstant => "initializer element is not constant"
  | .undefinedLabel name => "label '" ++ name ++ "' used but not defined"
  | .duplicateLabel name => "duplicate label '" ++ name ++ "'"
  | .switchQuantity => "switch quantity not an integer"
  | .strayCase => "case label not in switch"
  | .duplicateCase => "duplicate case value"
  | .strayDefault => "'default' label not in switch"
  | .tooManyDefaults => "too many 'default'"
  | .strayBreak => "cannot break"
  | .strayContinue => "cannot continue"
  | .functionTypeExpected => "function type expected"

def complaint (fault : CompileFault) : Complaint := ⟨fault.kind, fault.text⟩

end CompileFault

inductive CompileDoubt where
  | conversion (doubt : ConversionDoubt)
  | divisionByZero
  | implicitFunction (name : String)
  | attributeIgnored (name : String)
  | externalInitialized (name : String)
  | oneElement (name : String)
  | longString
  | emptyRange
  | valueReturned
  | noValueReturned
  | valuesLeft (count : Nat)
  deriving DecidableEq, Repr

def CompileDoubt.text : CompileDoubt → String
  | .conversion doubt => doubt.text
  | .divisionByZero => "division by zero"
  | .implicitFunction name => "implicit declaration of function '" ++ name ++ "'"
  | .attributeIgnored name => "'" ++ name ++ "' attribute ignored"
  | .externalInitialized name => "'" ++ name ++ "' initialized and declared 'extern'"
  | .oneElement name => "array '" ++ name ++ "' assumed to have one element"
  | .longString => "initializer-string for array is too long"
  | .emptyRange => "empty range specified"
  | .valueReturned => "'return' with a value, in function returning void"
  | .noValueReturned => "'return' with no value, in function returning non-void"
  | .valuesLeft count => "internal compiler error: vstack leak (" ++ toString count ++ ")"

end OnePass
