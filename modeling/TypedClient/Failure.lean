import TypedClient.Document.Access
import TypedClient.Json.Shape
import TypedClient.Schema.Node

/-! The ways in which generating from one document can fail, by cause, and what a run reports besides
its result; and the wording of both. -/

namespace TypedClient

/-- A combination of schemas that has no type. -/
inductive CombinationFault where
  /-- A member of several that is neither a reference nor a plain object. -/
  | memberKind (label : String)
  | severalBases (count : Nat)
  | alternatives (how : Combination) (count : Nat)
  deriving DecidableEq, Repr

def CombinationFault.message : CombinationFault → String
  | .memberKind label => "allOf member of kind " ++ label
  | .severalBases n => "allOf with " ++ toString n ++ " referenced members"
  | .alternatives how n => how.name ++ " with " ++ toString n ++ " members"

inductive SchemaFault where
  | severalTypes
  | enumValues (why : Json.Mismatch)
  deriving DecidableEq, Repr

def SchemaFault.message : SchemaFault → String
  | .severalTypes => "multiple non-null types in one schema"
  | .enumValues why => "invalid enumValues: " ++ why.message

inductive OperationFault where
  | notAnObject
  | namelessParameter
  | parameterPlace (name place : String)
  | parameterSchema (name : String)
  | limit (why : Json.Mismatch)
  deriving DecidableEq, Repr

def OperationFault.message : OperationFault → String
  | .notAnObject => "operation is not an object"
  | .namelessParameter => "parameter without a name"
  | .parameterPlace name place =>
    "parameter '" ++ name ++ "' has unsupported location '" ++ place ++ "'"
  | .parameterSchema name => "parameter '" ++ name ++ "' has neither schema nor content"
  | .limit why => "invalid x-limit: " ++ why.message

inductive DocumentFault where
  | notJson (error : Json.ReadError)
  | noVersion
  | longReferenceChain (hops : Nat)
  deriving DecidableEq, Repr

def DocumentFault.message : DocumentFault → String
  | .notJson error => "not valid JSON: " ++ error.message
  | .noVersion => "missing top-level 'swagger' or 'openapi' key"
  | .longReferenceChain n => "reference chain longer than " ++ toString n ++ " hops"

inductive TemplateFault where
  | blockEnd
  | unclosedOutput
  | namelessProperty
  | noLength (of : String)
  deriving DecidableEq, Repr

def TemplateFault.message : TemplateFault → String
  | .blockEnd => "syntax error: unexpected end of block (in <string>:1)"
  | .unclosedOutput =>
    "syntax error: unexpected end of input, expected end of variable block (in <string>:1)"
  | .namelessProperty => "invalid operation: property without a name (in <string>:1)"
  | .noLength kind =>
    "invalid operation: cannot calculate length of value of type " ++ kind ++ " (in <string>:1)"

/-- Why a document was not turned into code. -/
inductive Failure where
  | unsupportedCombination (location : String) (fault : CombinationFault)
  | unsupportedSchema (location : String) (fault : SchemaFault)
  | unresolvedReference (name : String)
  | genericDefinitionMissing (location : String)
  /-- The brackets of a name do not match. -/
  | unbalancedName (name : String)
  | malformedOperation (method : HttpMethod) (path : String) (fault : OperationFault)
  | fetch (origin reason : String)
  | invalidDocument (fault : DocumentFault)
  | invalidConfig (origin path reason : String)
  | template (fault : TemplateFault)
  deriving DecidableEq, Repr

namespace Failure

def message : Failure → String
  | .unsupportedCombination location fault =>
    "composition not supported in '" ++ location ++ "': " ++ fault.message
  | .unsupportedSchema location fault =>
    "unsupported schema shape in '" ++ location ++ "': " ++ fault.message
  | .unresolvedReference name => "type ref not found: " ++ name
  | .genericDefinitionMissing location =>
    "generic type definition missing for '" ++ location ++ "'"
  | .unbalancedName name => "invalid type name '" ++ name ++ "': unbalanced brackets"
  | .malformedOperation method path fault =>
    "malformed operation " ++ method.name ++ " " ++ path ++ ": " ++ fault.message
  | .fetch origin reason => "failed to load API document from " ++ origin ++ ": " ++ reason
  | .invalidDocument fault => "invalid API document: " ++ fault.message
  | .invalidConfig origin path reason =>
    "invalid configuration in " ++ origin ++ " at '" ++ path ++ "': " ++ reason
  | .template fault => "template rendering failed: " ++ fault.message

/-- Shapes that have no counterpart in the generated code and references that lead nowhere, as
against everything else that can go wrong. -/
def isUnsupportedShape : Failure → Bool
  | .unsupportedCombination .. | .unsupportedSchema .. | .unresolvedReference _
  | .genericDefinitionMissing _ => true
  | _ => false

/-- The message and the messages of what caused it. -/
def chain (f : Failure) : List String :=
  match f with
  | .template fault => [f.message, fault.message]
  | _ => [f.message]

end Failure

/-! ### Warnings -/

/-- What a run reports besides its result. -/
inductive Warning where
  | cyclicReference (path : String)
  | renamedAction (path name renamed : String)
  | formatterFailed (file error : String)
  | formatterUnavailable (error : String)
  | cleanFailed (path error : String)
  deriving DecidableEq, Repr

namespace Warning

def text : Warning → String
  | .cyclicReference path => "Cyclic reference " ++ path ++ " was replaced with 'any'"
  | .renamedAction path name renamed =>
    "Action '" ++ name ++ "' already exists under '" ++ path ++ "', renamed to '" ++ renamed ++ "'"
  | .formatterFailed file error => "Formatter failed for '" ++ file ++ "': " ++ error
  | .formatterUnavailable error =>
    "Formatter unavailable, writing unformatted output: " ++ error
  | .cleanFailed path error =>
    "Could not clean output directory '" ++ path ++ "': " ++ error

/-- Whether a warning is shown unless it is asked for. -/
def isProminent : Warning → Bool
  | .renamedAction .. | .formatterUnavailable _ | .cleanFailed .. => true
  | _ => false

end Warning

end TypedClient
