import SqlRoutine.Text.Basic

/-! # Names of types

The keywords that name a type, each with the PostgreSQL spelling of the type and its **family**,
which decides how its parameters are read and written. Several keywords may name one type. -/

namespace SqlRoutine.DataType

/-- How the parameters of a type are read and written. -/
inductive Family where
  | plain
  /-- A binary floating point number; with parameters it is written `float`. -/
  | floating
  /-- Named fields; parameters without a name are dropped. -/
  | json
  /-- A time of day, which may be given a zone. -/
  | clock
  /-- A point in time, which may be given a zone. -/
  | instant
  | interval
  /-- The values of an enumeration; their list is always written, behind a blank. -/
  | enumeration
  | container
  | array
  /-- Fields with a name and a type, in angle brackets. -/
  | record
  | nullable
  deriving DecidableEq, Repr

/-- A type that a keyword names. -/
structure Base where
  spelling : Text
  family : Family
  /-- The spelling of the type without a sign, if there is such a type. -/
  unsigned : Option Text
  deriving DecidableEq, Repr

/-- The types of numbers: keywords, spelling, family and unsigned spelling. -/
def numbers : List (List String × String × Family × Option String) :=
  [(["INT", "INTEGER", "INT4", "INT32"], "int", .plain, some "uint"),
    (["BIGINT", "INT64", "LONG"], "bigint", .plain, some "ubigint"),
    (["MEDIUMINT"], "mediumint", .plain, some "umediumint"),
    (["SMALLINT", "INT2", "INT16", "SHORT"], "smallint", .plain, some "usmallint"),
    (["BYTE", "INT1", "INT8"], "smallint", .plain, some "utinyint"),
    (["TINYINT"], "utinyint", .plain, none),
    (["INT128", "HUGEINT"], "int128", .plain, none),
    (["INT256"], "int256", .plain, none),
    (["UINT"], "uint", .plain, none),
    (["UINT128", "UHUGEINT"], "uint128", .plain, none),
    (["UINT256"], "uint256", .plain, none),
    (["BIT"], "bit", .plain, none),
    (["BOOL", "BOOLEAN"], "boolean", .plain, none),
    (["DEC", "DECIMAL", "NUMERIC", "NUMBER", "FIXED"], "decimal", .plain, some "udecimal"),
    (["BIGDECIMAL", "BIGNUMERIC"], "bigdecimal", .plain, none),
    (["DECIMAL32"], "decimal32", .plain, none),
    (["DECIMAL64"], "decimal64", .plain, none),
    (["DECIMAL128"], "decimal128", .plain, none),
    (["DECIMAL256"], "decimal256", .plain, none),
    (["DECFLOAT"], "decfloat", .plain, none),
    (["BIGNUM"], "bignum", .plain, none),
    (["REAL", "FLOAT", "FLOAT4"], "real", .floating, none),
    (["DOUBLE", "DOUBLE PRECISION", "FLOAT8"], "double precision", .floating, some "udouble"),
    (["MONEY"], "money", .plain, none),
    (["SMALLMONEY"], "smallmoney", .plain, none)]

/-- The types of texts and documents. -/
def strings : List (List String × String × Family × Option String) :=
  [(["CHAR", "CHARACTER", "NCHAR"], "char", .plain, none),
    (["VARCHAR", "VARCHAR2", "NVARCHAR", "NVARCHAR2", "CHAR VARYING", "CHARACTER VARYING"],
      "varchar", .plain, none),
    (["BPCHAR"], "bpchar", .plain, none),
    (["TEXT", "NTEXT", "STR", "STRING", "CLOB", "LONGVARCHAR", "LONGTEXT", "MEDIUMTEXT",
      "TINYTEXT"], "text", .plain, none),
    (["BINARY", "VARBINARY", "BYTEA", "BLOB", "TIMESTAMP", "ROWVERSION"], "bytea", .plain, none),
    (["LONGBLOB", "MEDIUMBLOB", "TINYBLOB"], "blob", .plain, none),
    (["IMAGE"], "image", .plain, none),
    (["XML"], "xml", .plain, none),
    (["JSON"], "json", .json, none),
    (["JSONB"], "jsonb", .plain, none)]

/-- The types of dates and times. -/
def times : List (List String × String × Family × Option String) :=
  [(["DATE"], "date", .plain, none),
    (["TIME"], "time", .clock, none),
    (["TIMETZ"], "timetz", .clock, none),
    (["TIME_NS"], "time_ns", .plain, none),
    (["DATETIME", "DATETIME2", "SMALLDATETIME"], "timestamp", .plain, none),
    (["TIMESTAMPNTZ", "TIMESTAMP_NTZ"], "timestamp", .instant, none),
    (["DATETIMEOFFSET", "TIMESTAMPTZ"], "timestamptz", .instant, none),
    (["TIMESTAMPLTZ", "TIMESTAMP_LTZ"], "timestampltz", .instant, none),
    (["INTERVAL"], "interval", .interval, none)]

/-- The remaining types. -/
def others : List (List String × String × Family × Option String) :=
  [(["UUID", "UNIQUEIDENTIFIER"], "uuid", .plain, none),
    (["SQL_VARIANT", "VARIANT"], "variant", .plain, none),
    (["GEOGRAPHY"], "geography", .plain, none),
    (["GEOMETRY"], "geometry", .plain, none),
    (["INET"], "inet", .plain, none),
    (["VECTOR"], "vector", .plain, none),
    (["ENUM"], "enum", .enumeration, none),
    (["INT4RANGE"], "int4range", .plain, none),
    (["INT4MULTIRANGE"], "int4multirange", .plain, none),
    (["INT8RANGE"], "int8range", .plain, none),
    (["INT8MULTIRANGE"], "int8multirange", .plain, none),
    (["NUMRANGE"], "numrange", .plain, none),
    (["NUMMULTIRANGE"], "nummultirange", .plain, none),
    (["TSRANGE"], "tsrange", .plain, none),
    (["TSMULTIRANGE"], "tsmultirange", .plain, none),
    (["TSTZRANGE"], "tstzrange", .plain, none),
    (["TSTZMULTIRANGE"], "tstzmultirange", .plain, none),
    (["DATERANGE"], "daterange", .plain, none),
    (["DATEMULTIRANGE"], "datemultirange", .plain, none),
    (["NULL"], "null", .plain, none),
    (["UNKNOWN"], "unknown", .plain, none),
    (["ARRAY"], "array", .array, none),
    (["LIST"], "list", .container, none),
    (["MAP"], "map", .container, none),
    (["RANGE"], "range", .container, none),
    (["STRUCT"], "struct", .record, none),
    (["OBJECT"], "object", .record, none),
    (["UNION"], "union", .record, none),
    (["FILE"], "file", .record, none),
    (["NULLABLE"], "nullable", .nullable, none)]

/-- All keywords, each with its type. -/
def bases : List (Text × Base) :=
  (numbers ++ strings ++ times ++ others).flatMap fun (keywords, spelling, family, unsigned) =>
    keywords.map fun keyword =>
      (keyword.toList, ⟨spelling.toList, family, unsigned.map String.toList⟩)

/-- **The type that a word names**, in any case. -/
def base? (word : Text) : Option Base := bases.lookup word.upper

/-- The words that cannot be a name. -/
def reserved : List Text :=
  ["ALTER", "AND", "AS", "BEGIN", "BETWEEN", "CREATE", "CROSS", "DISTINCT", "DROP", "ELSE",
    "EXCEPT", "FETCH", "FOR", "FROM", "GLOB", "GRANT", "HAVING", "ILIKE", "IN", "INNER", "INSERT",
    "INTERSECT", "INTO", "JOIN", "LATERAL", "LIKE", "NOT", "NOTNULL", "ON", "OR", "OUTER",
    "OUTPUT", "QUALIFY", "REGEXP", "RETURNING", "REVOKE", "RLIKE", "SELECT", "STRAIGHT_JOIN",
    "TABLESAMPLE", "THEN", "UNION", "USING", "VALUES", "WHEN", "WHERE", "WITH",
    "XOR"].map String.toList

/-- The word can be a name. -/
def isName (word : Text) : Bool := !reserved.contains word.upper

end SqlRoutine.DataType
