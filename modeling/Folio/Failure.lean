import Folio.Document.Validation
import Folio.Expression.Evaluation
import Folio.Key
import Folio.Term.Text
/-!
# Failures

Every way in which a request or one of its documents can fail, as a cause with its data. A
failure has a kind, which decides who handles it, and a wording. The kinds form families: a
failure of one document ends in that document's outcome, a malformed request fails as a whole,
and a database exception is reported as a transport failure.
-/

namespace Folio

/-- The kinds of failures. -/
inductive ErrorKind where
  /-- Any failure of this library that has no kind of its own. -/
  | general
  | structural
  | tableNotFound
  | targetNotFound
  | documentWrite
  | duplicateKey
  | conflictRejected
  | hookAborted
  | keyChanged
  | expression
  | fieldMissing
  | transport
  | lockTimeout
  /-- A value that is out of range or a name that is unknown. -/
  | value
  | type
  | key
  | overflow
  | runtime
  | database
  /-- A row that breaks a uniqueness rule of the database. -/
  | integrity
  | other (name : String)
  deriving DecidableEq

namespace ErrorKind

/-- Failures of a single document within a batch. -/
def isDocumentWrite : ErrorKind → Bool
  | .documentWrite | .duplicateKey | .conflictRejected | .hookAborted | .keyChanged
  | .expression | .fieldMissing | .transport | .lockTimeout => true
  | _ => false

/-- Expressions that cannot be evaluated. -/
def isExpression : ErrorKind → Bool
  | .expression | .fieldMissing => true
  | _ => false

/-- Exceptions of the database. -/
def isDatabase : ErrorKind → Bool
  | .database | .integrity => true
  | _ => false

end ErrorKind

/-- Why a request is malformed as a whole. -/
inductive RequestFault where
  | selector (selector : Term)
  | mutation (mutation : Term)
  | payload (type : String)
  | durability (option : Term)
  | returnChanges (option : Term)
  | conflictName (name : String)
  | conflict (option : Term)
  | conflictOnTargets
  | hook (type : String)
  | tableName (name : Term)
  | tableExists (name : String)
  | insertTarget (type : String)
  | insertKey (field : String) (key : Term)
  | key (key : Term)
  | patch (type : String)

namespace RequestFault

/-- The wording of the fault. -/
def message : RequestFault → String
  | .selector term => "Unsupported selector: " ++ term.render
  | .mutation term => "Unsupported mutation: " ++ term.render
  | .payload type =>
    "Insert payload must be a document or a sequence of documents, got " ++ type
  | .durability option =>
    "Durability option `" ++ option.plain ++
      "` unrecognized (options are \"hard\" and \"soft\")"
  | .returnChanges option =>
    "return_changes must be True, False or \"always\", got " ++ option.render
  | .conflictName name =>
    "Conflict option `" ++ name ++
      "` unrecognized (options are \"error\", \"replace\" and \"update\")"
  | .conflict option => "Unsupported conflict option: " ++ option.render
  | .conflictOnTargets => "The `conflict` option only applies to inserts"
  | .hook type => "Write hook must be callable, got " ++ type
  | .tableName name => "Invalid table name: " ++ name.render
  | .tableExists name => "Table `" ++ name ++ "` already exists"
  | .insertTarget type => "Insert requires a table target, got " ++ type
  | .insertKey field term =>
    "Primary key `" ++ field ++ "` must be a string or a number, got " ++ term.render
  | .key term => "Invalid primary key: " ++ term.render
  | .patch type => "Update patch must be a document or a function, got " ++ type

end RequestFault

/-- Why a configuration is refused. -/
inductive ConfigFault where
  | keyField
  | lockTimeout
  | maxWorkers
  deriving DecidableEq

namespace ConfigFault

/-- The wording of the fault. -/
def message : ConfigFault → String
  | .keyField => "default_primary_key cannot be empty"
  | .lockTimeout => "lock_timeout must be > 0; key locks never wait indefinitely"
  | .maxWorkers => "max_workers must be >= 1"

end ConfigFault

/-- Why an expression cannot be built. -/
inductive BuildingFault where
  | operator (name : String)
  | arms
  deriving DecidableEq

namespace BuildingFault

/-- The wording of the fault. -/
def message : BuildingFault → String
  | .operator name => "Unknown operator: " ++ name
  | .arms => "branch() takes an odd number of arguments, at least 3"

end BuildingFault

/-- Why a time to wait is refused. -/
inductive TimeoutFault where
  | notNumber (type : String)
  | nan
  | negative
  | integerTooLarge
  | tooLarge
  deriving DecidableEq

namespace TimeoutFault

/-- The wording of the fault. -/
def message : TimeoutFault → String
  | .notNumber type => "'" ++ type ++ "' object cannot be interpreted as an integer"
  | .nan => "Invalid value NaN (not a number)"
  | .negative => "timeout value must be positive"
  | .integerTooLarge => "timestamp too large to convert to C _PyTime_t"
  | .tooLarge => "timestamp out of range for platform time_t"

/-- The kind of the fault. -/
def kind : TimeoutFault → ErrorKind
  | .notNumber _ => .type
  | .nan => .value
  | .negative => .value
  | .integerTooLarge => .overflow
  | .tooLarge => .overflow

end TimeoutFault

/-- A failure, by its cause. -/
inductive Failure where
  | malformed (fault : Malformed)
  | config (fault : ConfigFault)
  | building (fault : BuildingFault)
  | waiting (fault : TimeoutFault)
  /-- Two values of these types have no order. -/
  | incomparable (relation : OrderRelation) (left right : String)
  | notCallable (type : String)
  | request (fault : RequestFault)
  | tableNotFound (table : String)
  | duplicateKey (field : String) (key : Term)
  /-- A conflict function refused the insert. -/
  | conflictRefused (key : Term)
  | conflictFailed (key : Term) (cause : Failure)
  | conflictInvalid (fault : Malformed)
  | hookVetoed (table : String) (key : Term)
  | hookFailed (table : String) (cause : Failure)
  | hookInvalid (table : String) (fault : Malformed)
  /-- A hook answered the deletion of a document with a document. -/
  | hookRevived (table : String) (key : Term)
  | keyChanged (field : String) (before after : Term)
  /-- A hook changed the key. -/
  | keyChangedByHook (field : String) (before after : Term)
  | evaluation (fault : EvaluationFault)
  | patchFailed (cause : Failure)
  | patchNotObject (type : String)
  /-- A patch made a document of something that is none. -/
  | patchedInvalid (fault : Malformed)
  | predicateFailed (cause : Failure)
  | predicateUnsupported (predicate : Term)
  | encoding (fault : EncodingFault)
  | missingKey (label : Term)
  | lockTimeout (table : String) (key timeout : Term)
  | transport (message : String)
  /-- The database cannot be opened. -/
  | unprepared (message : String)
  | sessionActive
  | sessionInactive
  /-- A failure raised by a function of the caller or by the database. -/
  | raised (kind : ErrorKind) (message : String)

instance : Inhabited Failure := ⟨.sessionInactive⟩

namespace Failure

/-- The kind of an evaluation fault; numbers out of range are no fault of the expression. -/
def evaluationKind : EvaluationFault → ErrorKind
  | .missing .. => .fieldMissing
  | .operandTooLarge => .overflow
  | .quotientTooLarge => .overflow
  | _ => .expression

/-- The kind of a failure. -/
def kind : Failure → ErrorKind
  | .malformed _ => .structural
  | .config _ => .value
  | .building _ => .value
  | .waiting fault => fault.kind
  | .incomparable .. => .type
  | .notCallable _ => .type
  | .request _ => .structural
  | .tableNotFound _ => .tableNotFound
  | .duplicateKey .. => .duplicateKey
  | .conflictRefused _ => .conflictRejected
  | .conflictFailed .. => .conflictRejected
  | .conflictInvalid _ => .conflictRejected
  | .hookVetoed .. => .hookAborted
  | .hookFailed .. => .hookAborted
  | .hookInvalid .. => .hookAborted
  | .hookRevived .. => .hookAborted
  | .keyChanged .. => .keyChanged
  | .keyChangedByHook .. => .keyChanged
  | .evaluation fault => evaluationKind fault
  | .patchFailed _ => .expression
  | .patchNotObject _ => .expression
  | .patchedInvalid _ => .expression
  | .predicateFailed _ => .structural
  | .predicateUnsupported _ => .type
  | .encoding _ => .type
  | .missingKey _ => .key
  | .lockTimeout .. => .lockTimeout
  | .transport _ => .transport
  | .unprepared _ => .transport
  | .sessionActive => .runtime
  | .sessionInactive => .runtime
  | .raised kind _ => kind

/-- The wording of a changed key. -/
def changeText (before after : Term) : String :=
  "(" ++ before.render ++ " -> " ++ after.render ++ ")"

/-- The wording of a failure. -/
def message : Failure → String
  | .malformed fault => fault.message
  | .config fault => fault.message
  | .building fault => fault.message
  | .waiting fault => fault.message
  | .incomparable relation left right =>
    (EvaluationFault.incomparable relation left right).message
  | .notCallable type => "'" ++ type ++ "' object is not callable"
  | .request fault => fault.message
  | .tableNotFound table => "Table `" ++ table ++ "` does not exist"
  | .duplicateKey field key => "Duplicate primary key `" ++ field ++ "`: " ++ key.render
  | .conflictRefused key => "Conflict resolution rejected insert of " ++ key.render
  | .conflictFailed key cause =>
    "Conflict resolution for " ++ key.render ++ " failed: " ++ cause.message
  | .conflictInvalid fault => fault.message
  | .hookVetoed table key =>
    "Write hook on table " ++ table ++ " aborted write of " ++ key.render
  | .hookFailed table cause => "Write hook on table " ++ table ++ " failed: " ++ cause.message
  | .hookInvalid table fault =>
    "Write hook on table " ++ table ++ " returned " ++ fault.message
  | .hookRevived table key =>
    "Write hook on table " ++ table ++ " returned a value for a deletion of " ++ key.render
  | .keyChanged field before after =>
    "Primary key `" ++ field ++ "` cannot be changed " ++ changeText before after
  | .keyChangedByHook field before after =>
    "Primary key `" ++ field ++ "` cannot be changed by a write hook " ++ changeText before after
  | .evaluation fault => fault.message
  | .patchFailed cause => "Update function failed: " ++ cause.message
  | .patchNotObject type => "Update patch must evaluate to an object, got " ++ type
  | .patchedInvalid fault => fault.message
  | .predicateFailed cause => "Filter predicate failed: " ++ cause.message
  | .predicateUnsupported predicate => "Unsupported predicate: " ++ predicate.render
  | .encoding fault => fault.message
  | .missingKey label => label.render
  | .lockTimeout table key timeout =>
    "Failed to acquire lock for " ++ table ++ ":" ++ key.render ++ " within " ++
      timeout.plain ++ " seconds"
  | .transport message => message
  | .unprepared message => "Failed to prepare document store: " ++ message
  | .sessionActive => "StoreSession is already active; nested sessions are not allowed"
  | .sessionInactive => "StoreSession is not active; use within a context manager"
  | .raised .key message => quoted message
  | .raised _ message => message

/-- A database exception as the store reports it; every other failure stays. -/
def reported (f : Failure) : Failure :=
  if f.kind.isDatabase then .transport f.message else f

end Failure

end Folio
