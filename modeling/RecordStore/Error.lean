import RecordStore.Model.Kind

/-!
# Errors

Why an operation fails, as causes grouped by what is at fault: the query, the data of a record or of
a model, the connection, the database, or the settings. `StoreError.message` words each cause.
-/

namespace RecordStore

/-- What is wrong with a filter, a sort order, a page or the name of a model. -/
inductive QueryError
  | invalidFilterKey (key : String)
  | invalidFilterValue (value : Json)
  | listExpected (key : String)
  | operatorWithoutColumn (key : String)
  | filterText (cause : Json.ReadError)
  | invalidSortField (field : String)
  | invalidSortKey (key : Json)
  | invalidSortItem (item : Json)
  | invalidSortDirection (direction : Json)
  | invalidSortType (value : Json)
  | sortText (cause : Json.ReadError)
  | pageZero
  | pageSizeZero
  | unknownField (field model : String)
  | noSubkeys (field model : String)
  | comparedWithNull (column : String)
  | invalidModelName (name : String)
  | noSuchModel (name app : String)
deriving DecidableEq

/-- What is wrong with the data of a record or with the definition of a model. -/
inductive ValidationError
  | nullNotAccepted (field : String)
  | kindMismatch (field : String) (kind : FieldKind) (value : Json)
  | idNotInteger (value : Json)
  | idNotUpdatable
  | unknownField (field model : String)
  | noChanges
  | invalidModelName (name : String)
  | invalidTableName (table : String)
  | invalidFieldName (field model : String)
  | reservedField (model : String)
  | duplicateField (field model : String)
  | modelRegistered (model app : String)
  | tableUsed (table app : String)
  | notAnObject (value : Json)
  | recordText (cause : Json.ReadError)
  | recordsText (cause : Json.ReadError)
  | unreadableFile (file reason : String)
deriving DecidableEq

/-- Why the database refuses a statement. -/
inductive DatabaseFault
  | uniqueViolated (table column : String)
  | notNullViolated (table column : String)
  | full
  | noSuchTable (table : String)
  | noSuchColumn (column : String)
  | noColumnInTable (table column : String)
  | duplicateColumn (column : String)
  | tooManyColumns (table : String)
  /-- A part of a statement has too many terms. -/
  | tooManyTerms (what : String)
  /-- The first parameter too many starts at the given byte. -/
  | tooManyParameters (statement : String) (offset : Nat)
  | tooManyLevels (limit : Nat)
  | stackOverflow
  | reservedTable (table : String)
  /-- The text of a statement ends inside the constant that starts at the given byte. -/
  | unrecognizedToken (token statement : String) (offset : Nat)
  | malformedJson
  | datatypeMismatch
deriving DecidableEq

/-- Why a database cannot be reached. -/
inductive ConnectionError
  | unsupportedUri (uri : String)
  | missingPath (uri : String)
  | directoryNotCreated (reason : String)
  | notOpened (path : String)
  | invalidAuthority (authority : String)
  | noSuchMode (option value : String)
  /-- A zero character stands in the path after the given number of bytes. -/
  | zeroInPath (position : Nat)
  | notADatabase
  | tableNotCreated (table : String) (cause : DatabaseFault)
  | notInitialized (connection : String)
  | initializing (cause : ConnectionError)
deriving DecidableEq

/-- What the database was asked to do when it refused. -/
inductive Activity
  | fetchingRecord
  | fetchingRecords
  | creatingRecord
  | creatingRecords
  | updatingRecord
  | updatingRecords
  | deletingRecord
  | deletingRecords
  | countingRecords
  | checkingRecord
deriving DecidableEq

inductive OperationError
  | integrity
  | failed (activity : Activity) (cause : DatabaseFault)
deriving DecidableEq

inductive SettingsError
  | fileNotFound (path : String)
  | unknownFormat
  | malformedJson (cause : Json.ReadError) (path : String)
  | malformedText (path : String)
  | notATable (path : String)
  | wrongShape
deriving DecidableEq

/-- Why an operation fails. -/
inductive StoreError
  | connection (cause : ConnectionError)
  | recordNotFound
  | multipleRecordsFound
  | query (cause : QueryError)
  | operation (cause : OperationError)
  | validation (cause : ValidationError)
  | settings (cause : SettingsError)
deriving DecidableEq

/-- A value in a message: a string as it is, anything else as its text. -/
def Json.shown : Json → String
  | .string s => s
  | value => value.text

def Json.typeName : Json → String
  | .null => "NoneType"
  | .bool _ => "bool"
  | .number (.integer ..) => "int"
  | .number (.float _) => "float"
  | .string _ => "str"
  | .array _ => "list"
  | .object _ => "dict"

def QueryError.message : QueryError → String
  | .invalidFilterKey key => "Invalid key " ++ key ++ " in filter"
  | .invalidFilterValue value => "Invalid value " ++ value.shown ++ " in filter"
  | .listExpected key => "Value for " ++ key ++ " should be of type list"
  | .operatorWithoutColumn key => "Operator " ++ key ++ " must be applied to a column"
  | .filterText cause => "Invalid JSON for filter: " ++ cause.message
  | .invalidSortField field => "Invalid sort field: " ++ field
  | .invalidSortKey key => "Invalid sort key: " ++ key.shown
  | .invalidSortItem item =>
    "Invalid sort item: " ++ item.shown ++ ", it should be a tuple of size 2"
  | .invalidSortDirection direction =>
    "Invalid sort value: " ++ direction.shown ++ ", allowed values are -1 and 1"
  | .invalidSortType value =>
    "Invalid sort type: " ++ value.typeName ++ ", allowed types are str, dict, and list of tuples"
  | .sortText cause => "Invalid JSON for sort: " ++ cause.message
  | .pageZero => "Page numbers start at 1"
  | .pageSizeZero => "Page size must be greater than 0"
  | .unknownField field model => "Unknown field " ++ field ++ " for model " ++ model
  | .noSubkeys field model => "Field " ++ field ++ " of model " ++ model ++ " has no subkeys"
  | .comparedWithNull column => "Cannot compare " ++ column ++ " with null"
  | .invalidModelName name => "Invalid model name: " ++ name
  | .noSuchModel name app => "Error getting model " ++ name ++ ": no such model in app " ++ app

def ValidationError.message : ValidationError → String
  | .nullNotAccepted field => "Field " ++ field ++ " does not accept null"
  | .kindMismatch field kind value =>
    "Field " ++ field ++ " expects a value of kind " ++ kind.title ++ ", got " ++ value.text
  | .idNotInteger value => "Field _id expects an integer, got " ++ value.text
  | .idNotUpdatable => "Field _id cannot be updated"
  | .unknownField field model => "Unknown field " ++ field ++ " for model " ++ model
  | .noChanges => "No fields to update"
  | .invalidModelName name => "Invalid model name: " ++ name
  | .invalidTableName table => "Invalid table name: " ++ table
  | .invalidFieldName field model => "Invalid field name " ++ field ++ " in model " ++ model
  | .reservedField model => "Field _id is reserved in model " ++ model
  | .duplicateField field model => "Duplicate field " ++ field ++ " in model " ++ model
  | .modelRegistered model app => "Model " ++ model ++ " is already registered in app " ++ app
  | .tableUsed table app => "Table " ++ table ++ " is already used in app " ++ app
  | .notAnObject value => "Expected a JSON object, got " ++ value.text
  | .recordText cause => "Invalid JSON for record: " ++ cause.message
  | .recordsText cause => "Invalid JSON for records: " ++ cause.message
  | .unreadableFile file reason => "Cannot read " ++ file ++ ": " ++ reason

def DatabaseFault.message : DatabaseFault → String
  | .uniqueViolated table column => "UNIQUE constraint failed: " ++ table ++ "." ++ column
  | .notNullViolated table column => "NOT NULL constraint failed: " ++ table ++ "." ++ column
  | .full => "database or disk is full"
  | .noSuchTable table => "no such table: " ++ table
  | .noSuchColumn column => "no such column: " ++ column
  | .noColumnInTable table column => "table " ++ table ++ " has no column named " ++ column
  | .duplicateColumn column => "duplicate column name: " ++ column
  | .tooManyColumns table => "too many columns on " ++ table
  | .tooManyTerms what => "too many " ++ what
  | .tooManyParameters statement offset =>
    "too many SQL variables in " ++ statement ++ " at offset " ++ toString offset
  | .tooManyLevels limit =>
    "Expression tree is too large (maximum depth " ++ toString limit ++ ")"
  | .stackOverflow => "parser stack overflow"
  | .reservedTable table => "object name reserved for internal use: " ++ table
  | .unrecognizedToken token statement offset =>
    "unrecognized token: \"" ++ token ++ "\" in " ++ statement ++ " at offset "
      ++ toString offset
  | .malformedJson => "malformed JSON"
  | .datatypeMismatch => "datatype mismatch"

/-- Whether a refusal is due to a constraint of the table. -/
def DatabaseFault.isConstraint : DatabaseFault → Bool
  | .uniqueViolated .. | .notNullViolated .. => true
  | _ => false

def ConnectionError.message : ConnectionError → String
  | .unsupportedUri uri => "Unsupported database URI: " ++ uri
  | .missingPath uri => "Missing database path in URI: " ++ uri
  | .directoryNotCreated reason => "Error creating database directory: " ++ reason
  | .notOpened path =>
    "SQLite fail open connection: unable to open database file: " ++ path
  | .invalidAuthority authority =>
    "SQLite fail open connection: invalid uri authority: " ++ authority
  | .noSuchMode option value =>
    "SQLite fail open connection: no such " ++ option ++ " mode: " ++ value
  | .zeroInPath position =>
    "SQLite fail open connection: nul byte found in provided data at position: "
      ++ toString position
  | .notADatabase => "SQLite fail execute batch: file is not a database"
  | .tableNotCreated table cause => "Cannot create table " ++ table ++ ": " ++ cause.message
  | .notInitialized connection => "Connection " ++ connection ++ " is not initialized"
  | .initializing cause => "Failed to initialize connection: " ++ cause.message

def Activity.message : Activity → String
  | .fetchingRecord => "Failed to fetch record"
  | .fetchingRecords => "Failed to fetch records"
  | .creatingRecord => "Failed to create record"
  | .creatingRecords => "Failed to create records"
  | .updatingRecord => "Failed to update record"
  | .updatingRecords => "Failed to update records"
  | .deletingRecord => "Failed to delete record"
  | .deletingRecords => "Failed to delete records"
  | .countingRecords => "Failed to count records"
  | .checkingRecord => "Failed to check if record exists"

def OperationError.message : OperationError → String
  | .integrity => "Failed to create record due to IntegrityError"
  | .failed activity cause => activity.message ++ ": " ++ cause.message

def SettingsError.message : SettingsError → String
  | .fileNotFound path =>
    "Error building config: configuration file \"" ++ path ++ "\" not found"
  | .unknownFormat => "Error building config: not of a registered file format"
  | .malformedJson cause path => "Error building config: " ++ cause.message ++ " in " ++ path
  | .malformedText path => "Error building config: malformed text in " ++ path
  | .notATable path => "Error building config: invalid type, expected a map in " ++ path
  | .wrongShape => "Error try deserialize config: wrong shape"

def StoreError.message : StoreError → String
  | .connection cause => cause.message
  | .recordNotFound => "Record not found"
  | .multipleRecordsFound => "Multiple records found"
  | .query cause => cause.message
  | .operation cause => cause.message
  | .validation cause => cause.message
  | .settings cause => cause.message

end RecordStore
