import SqlRoutine.Setting.Value

/-! # Causes of failure

Everything that can go wrong is a constructor of `Fault`; its wording is `Fault.message`. -/

namespace SqlRoutine

/-- The text encodings that are read. -/
inductive Encoding where
  | utf8
  | utf16le
  | utf16be
  deriving DecidableEq, Repr

namespace Encoding

/-- The name of the encoding in messages. -/
def name : Encoding → Text
  | .utf8 => "utf-8".toList
  | .utf16le => "utf-16-le".toList
  | .utf16be => "utf-16-be".toList

end Encoding

/-- A refusal of the file system. -/
inductive FileError where
  | noSuchFile
  | exists_
  | notDirectory
  | isDirectory
  deriving DecidableEq, Repr

namespace FileError

/-- The number and the text of the error. -/
def wording : FileError → Text
  | .noSuchFile => "[Errno 2] No such file or directory".toList
  | .exists_ => "[Errno 17] File exists".toList
  | .notDirectory => "[Errno 20] Not a directory".toList
  | .isDirectory => "[Errno 21] Is a directory".toList

end FileError

/-- A cause of failure. -/
inductive Fault where
  | inputRequired
  /-- The configuration file holds something other than a mapping. -/
  | notSettings (file : Text)
  /-- The configuration file is not of the supported form. -/
  | unreadableSettings (file : Text)
  /-- A level has an unknown name; `setting` says which level. -/
  | badLevel (setting shown : Text)
  | badInteger (setting shown : Text)
  | badRename
  | noItems (kind : Text)
  /-- A value of this kind does not support a text operation. -/
  | noOperation (kind operation : Text)
  | noPath (kind : Text)
  /-- A value of this kind is no path whose status can be asked for. -/
  | noStatus (kind : Text)
  /-- A value of this kind cannot stand for a source text. -/
  | noSource (kind : Text)
  /-- A value of this kind cannot be put in front of a text. -/
  | noIndent (kind : Text)
  /-- A table was recognised in a line but is not in the name map. -/
  | unresolvedTable
  | noArgumentComments
  /-- A position before the first upcoming line. -/
  | outOfRange
  | mapNotFound (file : Text)
  | missingColumns (file : Text) (columns : List Text)
  | noColumns
  /-- A row of the name map file has too many fields. -/
  | tooManyFields (expected line seen : Nat)
  | unclosedField (row : Nat)
  | refused (error : FileError) (path : Text)
  /-- Bytes that the encoding does not allow: `count` of them, the first being `first`. -/
  | undecodable (encoding : Encoding) (first : UInt8) (position count : Nat) (reason : Text)
  /-- The command line was refused, or only asked for help. -/
  | exit (code : Nat)

namespace Fault

/-- The names of the levels as a message lists them. -/
def levelNames : Text := "['ERROR', 'WARNING', 'INFO', 'DEBUG']".toList

/-- **The wording of a failure.** -/
def message : Fault → Text
  | inputRequired =>
    "Input file is required - use the positional argument or input_file in the config file".toList
  | notSettings file =>
    "Configuration file ".toList ++ file ++ " must contain a mapping of settings".toList
  | unreadableSettings file => "Configuration file ".toList ++ file ++ " cannot be read".toList
  | badLevel setting shown =>
    "Invalid ".toList ++ setting ++ ": ".toList ++ shown ++ ". Must be one of ".toList ++ levelNames
  | badInteger setting shown =>
    "Invalid ".toList ++ setting ++ " in the config file: ".toList ++ shown ++
      ". Must be an integer.".toList
  | badRename =>
    "Each entry in function_name_rewrites must have 2 elements - [source_text, target_text].".toList
  | noItems kind => '\x27' :: kind ++ "' object is not iterable".toList
  | noOperation kind operation =>
    '\x27' :: kind ++ "' object has no attribute '".toList ++ operation ++ ['\x27']
  | noPath kind => "expected str, bytes or os.PathLike object, not ".toList ++ kind
  | noStatus kind =>
    "stat: path should be string, bytes, os.PathLike or integer, not ".toList ++ kind
  | noSource kind => "decoding to str: need a bytes-like object, ".toList ++ kind ++ " found".toList
  | noIndent kind =>
    if kind = "list".toList then "can only concatenate list (not \"str\") to list".toList
    else "unsupported operand type(s) for +: '".toList ++ kind ++ "' and 'str'".toList
  | unresolvedTable => "cannot unpack non-iterable NoneType object".toList
  | noArgumentComments => "max() arg is an empty sequence".toList
  | outOfRange => "list index out of range".toList
  | mapNotFound file => "Name map file not found: ".toList ++ file
  | missingColumns file columns =>
    "Name map file ".toList ++ file ++ " is missing columns: ".toList ++
      Text.join ", ".toList columns
  | noColumns => "No columns to parse from file".toList
  | tooManyFields expected line seen =>
    "Error tokenizing data. C error: Expected ".toList ++ Text.ofNat expected ++
      " fields in line ".toList ++ Text.ofNat line ++ ", saw ".toList ++ Text.ofNat seen ++ ['\n']
  | unclosedField row =>
    "Error tokenizing data. C error: EOF inside string starting at row ".toList ++ Text.ofNat row
  | refused error path => error.wording ++ ": ".toList ++ Value.quoted path
  | undecodable encoding first position count reason =>
    '\x27' :: encoding.name ++ "' codec can't decode ".toList ++
      (if count = 1 then
        "byte 0x".toList ++ Value.hexDigits 2 first.toNat ++ " in position ".toList ++
          Text.ofNat position
      else
        "bytes in position ".toList ++ Text.ofNat position ++ ['-'] ++
          Text.ofNat (position + count - 1)) ++
      ": ".toList ++ reason
  | exit code => Text.ofNat code

end Fault

end SqlRoutine
