import V9xRemote.Spec.Http
import V9xRemote.Spec.UpdateProto

/-!
# Update URLs (`src/common/update_proto.c`)

`v9x_update_url_split`, the second reader of `http://` URLs beside `httpParseUrl`. `none` is
FALSE.
-/

namespace V9xRemote

open Bytes

/-- `V9X_UPDATE_HOST_MAX`. -/
def updateHostMax : ℕ := 64

/-- `V9X_UPDATE_PATH_MAX`. -/
def updatePathMax : ℕ := 256

/-- `V9X_UPDATE_PORT`. -/
def updatePort : ℕ := 80

structure UpdateUrl where
  host : Bytes
  port : ℕ
  path : Bytes
deriving DecidableEq, Repr

/-- Letters, digits, dot and hyphen. -/
def updateHostByte (value : UInt8) : Bool :=
  (65 ≤ value && value ≤ 90) || (97 ≤ value && value ≤ 122) || updateIsDigit value || value == 46 || value == 45

/-- Printable, non-space ASCII. -/
def updatePathByte (value : UInt8) : Bool := !(value ≤ 0x20 || value ≥ 0x7F)

/-- The loop over the host, and what stands behind it. -/
def updateUrlHost (host : Bytes) : Bytes → Option (Bytes × Bytes)
  | [] => some (host, [])
  | c :: rest =>
    if c = 58 ∨ c = 47 then some (host, c :: rest)
    else if !updateHostByte c then none
    else if host.length + 1 ≥ updateHostMax then none
    else updateUrlHost (host ++ [c]) rest

/-- The digits behind the colon, in the loop of a version's number, and what stands behind them. -/
def updateUrlPort (text : Bytes) : Option (ℕ × Bytes) := do
  let (port, rest) ← updateVersionPart text 0 0
  if port = 0 then none else some (port, rest)

/-- The loop over the path. -/
def updateUrlPath (path : Bytes) : Bytes → Option Bytes
  | [] => some path
  | c :: rest =>
    if !updatePathByte c then none
    else if path.length + 1 ≥ updatePathMax then none
    else updateUrlPath (path ++ [c]) rest

/-- What stands behind the host and the port. -/
def updateUrlEnd (host : Bytes) (port : ℕ) (rest : Bytes) : Option UpdateUrl :=
  if rest = [] then some ⟨host, port, [47]⟩
  else if rest.head? ≠ some 47 then none
  else (updateUrlPath [] rest).map fun path => ⟨host, port, path⟩

/-- `v9x_update_url_split`. -/
def updateUrlSplit (url : Bytes) : Option UpdateUrl :=
  if !(ascii "http://").isPrefixOf (url.map lower) then none
  else do
    let (host, rest) ← updateUrlHost [] (url.drop 7)
    if host = [] then none
    else if rest.head? = some 58 then do
      let (port, rest) ← updateUrlPort rest.tail
      updateUrlEnd host port rest
    else updateUrlEnd host updatePort rest

end V9xRemote
