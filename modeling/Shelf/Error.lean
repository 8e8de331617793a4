import Shelf.Json.Printer
import Shelf.Located
import Shelf.Uuid

/-!
Why an operation fails.

A failure is the caller's (`Rejection`, an unknown identifier) or the storage's (`StorageFault`, of
which stored data that breaks an assumption is one). Each cause is a constructor that carries what
its message names; the wording, the code for programs and the details stand together below.
-/

namespace Shelf

/-- What is wrong with a value that cannot be used. -/
inductive Reason
  | notAnInteger (raw : String)
  | notANumber (raw : String)
  | notAnObject
  | nestedNotScalar
  | notScalarOrObject
  | nestedProjection (field : String)
  | identifierExcluded
  | notAKeyField (list : String)
  | keyFieldInPayload
  | belowOne
  | starOutOfRange (star : Nat)
  | stated (text : String)
  deriving DecidableEq

/-- Client input that is turned down before it reaches the storage. -/
inductive Rejection
  | missingField (field : String)
  | invalidValue (field : String) (reason : Reason)
  | unknownField (field : String)
  | unknownSortField (field : String)
  | controlSyntax (token : String)
  | mixedProjection
  deriving DecidableEq

/-- What is wrong with stored data, or with a write that would break it. -/
inductive Corruption
  | recordNotObject
  | recordIdInvalid (text : String)
  | recordIdNotText (value : Json)
  | notAList (field : String) (value : Json)
  | inBothLists (actor a b : String) (record : Uuid)
  | unpatchable (field : String)
  | noElementCriteria (list : String)
  | noElementMatched (list : String)
  | notNumeric (list field : String) (value : Option Json)
  | duplicate (record : Uuid)
  | stated (text : String)

/-- A failure of the storage. -/
inductive StorageFault
  | query (backend message : String)
  | unrepresentable
  | lockPoisoned (message : String)
  | integrity (cause : Corruption)
  | serialization (cause : Located)

/-- Any failure. -/
inductive Error
  | rejected (cause : Rejection)
  | notFound (collection : String) (record : Uuid)
  | storage (fault : StorageFault)

/-! ### Wording -/

/-- A text in single quotes. -/
def inQuotes (s : String) : String := "'" ++ s ++ "'"

/-- What is said about a value. -/
def Reason.message : Reason → String
  | .notAnInteger raw       => inQuotes raw ++ " is not an integer"
  | .notANumber raw         => inQuotes raw ++ " is not a number"
  | .notAnObject            => "expected an object"
  | .nestedNotScalar        => "nested values must be scalars"
  | .notScalarOrObject      => "expected a scalar or an object"
  | .nestedProjection field => "nested projection " ++ inQuotes field ++ " is not supported"
  | .identifierExcluded     => "the identifier cannot be excluded"
  | .notAKeyField list      => "not a key field of " ++ inQuotes list
  | .keyFieldInPayload      => "key fields cannot be part of the payload"
  | .belowOne               => "must be at least 1"
  | .starOutOfRange star    => "must be between 1 and 5, got " ++ intText star
  | .stated text            => text

/-- What is said about client input. -/
def Rejection.message : Rejection → String
  | .missingField field        => "Missing required field: " ++ field
  | .invalidValue field reason => "Invalid value for " ++ inQuotes field ++ ": " ++ reason.message
  | .unknownField field        => "Field " ++ inQuotes field ++ " cannot be filtered"
  | .unknownSortField field    => "Field " ++ inQuotes field ++ " cannot be sorted"
  | .controlSyntax token =>
    "Rejected token " ++ inQuotes token ++ ": not a plain field or operator name"
  | .mixedProjection           => "Projection cannot mix included and excluded fields"

/-- What is said about stored data. -/
def Corruption.message : Corruption → String
  | .recordNotObject       => "record must be a JSON object"
  | .recordIdInvalid text  => "invalid record id " ++ inQuotes text
  | .recordIdNotText value => "record id must be a string, got " ++ value.text
  | .notAList field value  => "field " ++ inQuotes field ++ " is not a list: " ++ value.text
  | .inBothLists actor a b record =>
    "actor " ++ inQuotes actor ++ " is in both " ++ inQuotes a ++ " and " ++ inQuotes b ++
      " of record " ++ record.text
  | .unpatchable field     => "field " ++ inQuotes field ++ " cannot be patched"
  | .noElementCriteria list =>
    "positional update on " ++ inQuotes list ++ " without an element match"
  | .noElementMatched list => "no element of " ++ inQuotes list ++ " matched"
  | .notNumeric list field value =>
    inQuotes list ++ " entry has non-numeric " ++ inQuotes field ++ ": " ++
      (value.map Json.text).getD "missing"
  | .duplicate record      => "record " ++ inQuotes record.text ++ " already exists"
  | .stated text           => text

/-- The backend whose documents hold no integer above `2^63 - 1`. -/
def documentBackend : String := "mongodb"

/-- What is said about the storage. -/
def StorageFault.message : StorageFault → String
  | .query backend message => backend ++ " query error: " ++ message
  | .unrepresentable       => documentBackend ++ " query error"
  | .lockPoisoned message  => "Storage lock poisoned: " ++ message
  | .integrity cause       => "Data integrity error: " ++ cause.message
  | .serialization cause   => "Serialization error: " ++ cause.message

/-- The message of a failure. -/
def Error.message : Error → String
  | .rejected cause             => cause.message
  | .notFound collection record =>
    collection ++ " record with id " ++ inQuotes record.text ++ " not found"
  | .storage fault              => fault.message

/-! ### What programs read -/

/-- The code of a storage failure. -/
def StorageFault.code : StorageFault → String
  | .query ..         => "STORAGE_QUERY_ERROR"
  | .unrepresentable  => "STORAGE_QUERY_ERROR"
  | .lockPoisoned _   => "STORAGE_ERROR"
  | .integrity _      => "STORAGE_INTEGRITY_ERROR"
  | .serialization _  => "STORAGE_SERIALIZATION_ERROR"

/-- The code of a failure. -/
def Error.code : Error → String
  | .rejected _    => "VALIDATION_ERROR"
  | .notFound ..   => "RECORD_NOT_FOUND"
  | .storage fault => fault.code

/-- Whether the caller's input is to blame. -/
def Error.isClient : Error → Bool
  | .rejected _  => true
  | .notFound .. => true
  | .storage _   => false

/-- The details of a failure, for those that have some. -/
def Error.details? : Error → Option Json
  | .notFound collection record =>
    some (.object [("collection", .string collection), ("id", .string record.text)])
  | .rejected (.unknownField field)     => some (.object [("field", .string field)])
  | .rejected (.unknownSortField field) => some (.object [("field", .string field)])
  | _ => none

/-- The body of an answer that reports a failure. -/
def Error.response (e : Error) : Json :=
  let details := match e.details? with
    | some d => [("details", d)]
    | none   => []
  .object (Fields.ofList ([("code", .string e.code), ("message", .string e.message)] ++ details))

end Shelf
