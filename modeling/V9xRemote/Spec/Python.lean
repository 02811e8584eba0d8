import V9xRemote.Lib.Bytes
import Mathlib.Algebra.Order.Ring.Rat
import Mathlib.Data.Rat.Floor

/-!
# The Python the host tools use

Exceptions with their classes, the values of a decoded JSON text, and the conversions
and `struct` calls of `mcp/`, each with the exceptions it raises.
-/

namespace V9xRemote

/-! ## Exceptions -/

inductive ExcClass
  | v9xError
  /-- a subclass of V9xError -/
  | v9xGuestError
  | relayError
  | osError
  /-- the subclasses of OSError that a caller tells apart -/
  | connectionReset
  | connectionAborted
  | keyError
  | valueError
  | structError
  | typeError
  | attributeError
  | indexError
  | overflowError
  | unboundLocalError
  | recursionError
  | httpException
  | timeoutExpired
deriving DecidableEq, Repr

/-- An exception: its class and its text. -/
structure PyExc where
  cls : ExcClass
  text : String
deriving DecidableEq, Repr

namespace ExcClass

def isV9xError : ExcClass → Bool
  | v9xError | v9xGuestError => true
  | _ => false

def isOSError : ExcClass → Bool
  | osError | connectionReset | connectionAborted => true
  | _ => false

end ExcClass

def v9xFail (text : String) : PyExc := ⟨.v9xError, text⟩
def keyError (key : String) : PyExc := ⟨.keyError, key⟩
def valueError (text : String) : PyExc := ⟨.valueError, text⟩
def structError (text : String) : PyExc := ⟨.structError, text⟩
def typeError (text : String) : PyExc := ⟨.typeError, text⟩
def attributeError (text : String) : PyExc := ⟨.attributeError, text⟩
def overflowError (text : String) : PyExc := ⟨.overflowError, text⟩

/-! ## Values -/

/-- The code points of a `str`. -/
abbrev PyStr := List ℕ

def pyStr (s : String) : PyStr := s.toList.map Char.toNat

inductive PyFloat
  | finite (q : ℚ)
  /-- either infinity -/
  | infinite (positive : Bool)
  | nan
deriving DecidableEq

/-- What `json.loads` gives. -/
inductive PyVal
  | none
  | bool (b : Bool)
  | int (n : ℤ)
  | float (x : PyFloat)
  | str (s : PyStr)
  | list (vs : List PyVal)
  | dict (fields : List (PyStr × PyVal))

namespace PyVal

/-- Truth of a value. -/
def truthy : PyVal → Bool
  | .none => false
  | .bool b => b
  | .int n => n != 0
  | .float (.finite q) => q != 0
  | .float _ => true
  | .str s => !s.isEmpty
  | .list vs => !vs.isEmpty
  | .dict fields => !fields.isEmpty

end PyVal

/-- How `int` and `float` read a text; `none` is their ValueError. -/
structure NumberTexts where
  int : PyStr → Option ℤ
  float : PyStr → Option PyFloat

/-- Beyond this an `int` is too large for a `float`. -/
def floatLimit : ℤ := 2 ^ 1024

/-- `int(v)`. -/
def pyInt (texts : NumberTexts) : PyVal → Except PyExc ℤ
  | .int n => .ok n
  | .bool b => .ok (if b then 1 else 0)
  | .float (.finite q) => .ok (if 0 ≤ q then ⌊q⌋ else ⌈q⌉)
  | .float (.infinite _) => .error (overflowError "cannot convert float infinity to integer")
  | .float .nan => .error (valueError "cannot convert float NaN to integer")
  | .str s =>
    match texts.int s with
    | some n => .ok n
    | .none => .error (valueError "invalid literal for int()")
  | _ => .error (typeError "int() argument must be a string or a number")

/-- An `int` as a `float`. -/
def intToFloat (n : ℤ) : Except PyExc ℚ :=
  if |n| < floatLimit then .ok n else .error (overflowError "int too large to convert to float")

/-- `float(v)`. -/
def pyFloat (texts : NumberTexts) : PyVal → Except PyExc PyFloat
  | .float x => .ok x
  | .int n => (intToFloat n).map .finite
  | .bool b => .ok (.finite (if b then 1 else 0))
  | .str s =>
    match texts.float s with
    | some x => .ok x
    | .none => .error (valueError "could not convert string to float")
  | _ => .error (typeError "float() argument must be a string or a real number")

/-- The text of a value whose `str` method is called, as `v.upper()`. -/
def strMethod : PyVal → Except PyExc PyStr
  | .str s => .ok s
  | _ => .error (attributeError "object has no such method")

/-- The text of a value used as a path. -/
def fsPath : PyVal → Except PyExc PyStr
  | .str s => .ok s
  | _ => .error (typeError "expected str, bytes or os.PathLike object")

/-! ## Arguments -/

/-- A `dict` of arguments. -/
abbrev PyArgs := List (PyStr × PyVal)

/-- `args.get(key)`; `None` where it is missing. -/
def PyArgs.get? (args : PyArgs) (key : String) : PyVal :=
  ((args.find? fun field => field.1 = pyStr key).map (·.2)).getD .none

/-- `args.get(key, default)`. -/
def PyArgs.getD (args : PyArgs) (key : String) (default : PyVal) : PyVal :=
  ((args.find? fun field => field.1 = pyStr key).map (·.2)).getD default

/-- `args[key]`. -/
def PyArgs.item (args : PyArgs) (key : String) : Except PyExc PyVal :=
  match args.find? fun field => field.1 = pyStr key with
  | some field => .ok field.2
  | none => .error (keyError key)

/-! ## struct -/

/-- `struct.unpack_from` of `size` bytes. -/
def unpackFrom (payload : Bytes) (offset size : ℕ) : Except PyExc Bytes :=
  if offset + size ≤ payload.length then .ok ((payload.drop offset).take size)
  else .error (structError "unpack_from requires a larger buffer")

/-- A signed 32-bit field. -/
def readS32 (s : Bytes) (i : ℕ) : ℤ := (s.readU32 i).toInt32.toInt

/-- `struct.pack` of an unsigned field of so many bytes. -/
def packUnsigned (bytes : ℕ) (n : ℤ) : Except PyExc Bytes :=
  if 0 ≤ n ∧ n < 256 ^ bytes then
    .ok ((List.range bytes).map fun i => UInt8.ofNat (n.toNat / 256 ^ i % 256))
  else .error (structError "argument out of range")

/-- `struct.pack` of a signed field. -/
def packSigned (bytes : ℕ) (n : ℤ) : Except PyExc Bytes :=
  if -(256 ^ bytes / 2) ≤ n ∧ n < 256 ^ bytes / 2 then packUnsigned bytes (n % 256 ^ bytes)
  else .error (structError "argument out of range")

/-! ## Limits (`mcp/v9x_mcp.py`) -/

def maxPayload : ℕ := 65536
def chunkSize : ℕ := 32768
def maxFile : ℕ := 2147483647

end V9xRemote
