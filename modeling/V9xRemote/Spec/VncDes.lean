import V9xRemote.Lib.Bytes
import Mathlib.Logic.Function.Iterate

/-!
# VNC authentication (`src/guest/vncdes.c`)

DES with one byte for each bit, and the response to a challenge. The loops that write a whole
array are the lists they write; those that move bytes inside one are made move by move.
-/

namespace V9xRemote

open Bytes

/-! ## The tables -/

def vncDesIp : List ℕ :=
  [58, 50, 42, 34, 26, 18, 10, 2, 60, 52, 44, 36, 28, 20, 12, 4, 62, 54, 46, 38, 30, 22, 14, 6, 64, 56, 48, 40, 32,
    24, 16, 8, 57, 49, 41, 33, 25, 17, 9, 1, 59, 51, 43, 35, 27, 19, 11, 3, 61, 53, 45, 37, 29, 21, 13, 5, 63, 55, 47,
    39, 31, 23, 15, 7]

def vncDesFp : List ℕ :=
  [40, 8, 48, 16, 56, 24, 64, 32, 39, 7, 47, 15, 55, 23, 63, 31, 38, 6, 46, 14, 54, 22, 62, 30, 37, 5, 45, 13, 53, 21,
    61, 29, 36, 4, 44, 12, 52, 20, 60, 28, 35, 3, 43, 11, 51, 19, 59, 27, 34, 2, 42, 10, 50, 18, 58, 26, 33, 1, 41, 9,
    49, 17, 57, 25]

def vncDesE : List ℕ :=
  [32, 1, 2, 3, 4, 5, 4, 5, 6, 7, 8, 9, 8, 9, 10, 11, 12, 13, 12, 13, 14, 15, 16, 17, 16, 17, 18, 19, 20, 21, 20, 21,
    22, 23, 24, 25, 24, 25, 26, 27, 28, 29, 28, 29, 30, 31, 32, 1]

def vncDesP : List ℕ :=
  [16, 7, 20, 21, 29, 12, 28, 17, 1, 15, 23, 26, 5, 18, 31, 10, 2, 8, 24, 14, 32, 27, 3, 9, 19, 13, 30, 6, 22, 11, 4,
    25]

def vncDesPc1 : List ℕ :=
  [57, 49, 41, 33, 25, 17, 9, 1, 58, 50, 42, 34, 26, 18, 10, 2, 59, 51, 43, 35, 27, 19, 11, 3, 60, 52, 44, 36, 63, 55,
    47, 39, 31, 23, 15, 7, 62, 54, 46, 38, 30, 22, 14, 6, 61, 53, 45, 37, 29, 21, 13, 5, 28, 20, 12, 4]

def vncDesPc2 : List ℕ :=
  [14, 17, 11, 24, 1, 5, 3, 28, 15, 6, 21, 10, 23, 19, 12, 4, 26, 8, 16, 7, 27, 20, 13, 2, 41, 52, 31, 37, 47, 55, 30,
    40, 51, 45, 33, 48, 44, 49, 39, 56, 34, 53, 46, 42, 50, 36, 29, 32]

def vncDesShifts : List ℕ :=
  [1, 1, 2, 2, 2, 2, 2, 2, 1, 2, 2, 2, 2, 2, 2, 1]

def vncDesS : List (List ℕ) :=
  [[14, 4, 13, 1, 2, 15, 11, 8, 3, 10, 6, 12, 5, 9, 0, 7, 0, 15, 7, 4, 14, 2, 13, 1, 10, 6, 12, 11, 9, 5, 3, 8, 4, 1,
     14, 8, 13, 6, 2, 11, 15, 12, 9, 7, 3, 10, 5, 0, 15, 12, 8, 2, 4, 9, 1, 7, 5, 11, 3, 14, 10, 0, 6, 13],
   [15, 1, 8, 14, 6, 11, 3, 4, 9, 7, 2, 13, 12, 0, 5, 10, 3, 13, 4, 7, 15, 2, 8, 14, 12, 0, 1, 10, 6, 9, 11, 5, 0, 14,
     7, 11, 10, 4, 13, 1, 5, 8, 12, 6, 9, 3, 2, 15, 13, 8, 10, 1, 3, 15, 4, 2, 11, 6, 7, 12, 0, 5, 14, 9],
   [10, 0, 9, 14, 6, 3, 15, 5, 1, 13, 12, 7, 11, 4, 2, 8, 13, 7, 0, 9, 3, 4, 6, 10, 2, 8, 5, 14, 12, 11, 15, 1, 13, 6,
     4, 9, 8, 15, 3, 0, 11, 1, 2, 12, 5, 10, 14, 7, 1, 10, 13, 0, 6, 9, 8, 7, 4, 15, 14, 3, 11, 5, 2, 12],
   [7, 13, 14, 3, 0, 6, 9, 10, 1, 2, 8, 5, 11, 12, 4, 15, 13, 8, 11, 5, 6, 15, 0, 3, 4, 7, 2, 12, 1, 10, 14, 9, 10, 6,
     9, 0, 12, 11, 7, 13, 15, 1, 3, 14, 5, 2, 8, 4, 3, 15, 0, 6, 10, 1, 13, 8, 9, 4, 5, 11, 12, 7, 2, 14],
   [2, 12, 4, 1, 7, 10, 11, 6, 8, 5, 3, 15, 13, 0, 14, 9, 14, 11, 2, 12, 4, 7, 13, 1, 5, 0, 15, 10, 3, 9, 8, 6, 4, 2,
     1, 11, 10, 13, 7, 8, 15, 9, 12, 5, 6, 3, 0, 14, 11, 8, 12, 7, 1, 14, 2, 13, 6, 15, 0, 9, 10, 4, 5, 3],
   [12, 1, 10, 15, 9, 2, 6, 8, 0, 13, 3, 4, 14, 7, 5, 11, 10, 15, 4, 2, 7, 12, 9, 5, 6, 1, 13, 14, 0, 11, 3, 8, 9, 14,
     15, 5, 2, 8, 12, 3, 7, 0, 4, 10, 1, 13, 11, 6, 4, 3, 2, 12, 9, 5, 15, 10, 11, 14, 1, 7, 6, 0, 8, 13],
   [4, 11, 2, 14, 15, 0, 8, 13, 3, 12, 9, 7, 5, 10, 6, 1, 13, 0, 11, 7, 4, 9, 1, 10, 14, 3, 5, 12, 2, 15, 8, 6, 1, 4,
     11, 13, 12, 3, 7, 14, 10, 15, 6, 8, 0, 5, 9, 2, 6, 11, 13, 8, 1, 4, 10, 7, 9, 5, 0, 15, 14, 2, 3, 12],
   [13, 2, 8, 4, 6, 15, 11, 1, 10, 9, 3, 14, 5, 0, 12, 7, 1, 15, 13, 8, 10, 3, 7, 4, 12, 5, 6, 11, 0, 14, 9, 2, 7, 11,
     4, 1, 9, 12, 14, 2, 0, 6, 10, 13, 15, 3, 5, 8, 2, 1, 14, 7, 4, 10, 8, 13, 15, 12, 9, 0, 3, 5, 6, 11]]

/-! ## The cipher -/

/-- `vnc_des_unpack`. -/
def vncDesUnpack (bytes : Bytes) (count : ℕ) : Bytes :=
  (List.range count).map fun index => (bytes.at' (index / 8) >>> UInt8.ofNat (7 - index % 8)) &&& 1

/-- `vnc_des_permute`. -/
def vncDesPermute (source : Bytes) (table : List ℕ) (count : ℕ) : Bytes :=
  (List.range count).map fun index => source.at' (table.getD index 0 - 1)

/-- One of the two rotations in the loop over `shift`: the 28 bytes from `first` on, by one. -/
def vncDesRotate (cd : Bytes) (first : ℕ) : Bytes :=
  let temp := cd.at' first
  let cd := (List.range 27).foldl (fun cd index => cd.set (first + index) (at' cd (first + index + 1))) cd
  cd.set (first + 27) temp

/-- The loop over `shift`. -/
def vncDesShift (cd : Bytes) (shifts : ℕ) : Bytes := (fun cd => vncDesRotate (vncDesRotate cd 0) 28)^[shifts] cd

/-- The loop over the S-boxes. -/
def vncDesSbox (expanded : Bytes) : Bytes :=
  (List.range 8).flatMap fun index =>
    let six : Bytes := expanded.drop (index * 6)
    let row := ((six.at' 0).toNat <<< 1) ||| (six.at' 5).toNat
    let column := ((six.at' 1).toNat <<< 3) ||| ((six.at' 2).toNat <<< 2) ||| ((six.at' 3).toNat <<< 1) ||| (six.at' 4).toNat
    let value := (vncDesS.getD index []).getD (row * 16 + column) 0
    [UInt8.ofNat ((value >>> 3) &&& 1), UInt8.ofNat ((value >>> 2) &&& 1), UInt8.ofNat ((value >>> 1) &&& 1),
      UInt8.ofNat (value &&& 1)]

/-- The loop that exchanges the halves of `lr`. -/
def vncDesSwap (lr mixed : Bytes) : Bytes :=
  (List.range 32).foldl (fun lr index =>
    let temp := at' lr (32 + index)
    (lr.set (32 + index) (at' lr index ^^^ mixed.at' index)).set index temp) lr

/-- One turn of the loop over `round`. -/
def vncDesRound (state : Bytes × Bytes) (round : ℕ) : Bytes × Bytes :=
  let (cd, lr) := state
  let cd := vncDesShift cd (vncDesShifts.getD round 0)
  let subkey := vncDesPermute cd vncDesPc2 48
  let expanded := vncDesPermute (lr.drop 32) vncDesE 48
  let expanded := (List.range 48).map fun index => expanded.at' index ^^^ subkey.at' index
  let mixed := vncDesPermute (vncDesSbox expanded) vncDesP 32
  (cd, vncDesSwap lr mixed)

/-- Eight bits of `block`, the first as the highest. -/
def vncDesPack (block : Bytes) (index : ℕ) : UInt8 :=
  (List.range 8).foldl (fun out bit => (out <<< 1) ||| block.at' (index * 8 + bit)) 0

/-- `vnc_des_encrypt`. -/
def vncDesEncrypt (key input : Bytes) : Bytes :=
  let cd := vncDesPermute (vncDesUnpack key 64) vncDesPc1 56
  let lr := vncDesPermute (vncDesUnpack input 64) vncDesIp 64
  let (_, lr) := (List.range 16).foldl vncDesRound (cd, lr)
  let preoutput := (List.range 32).map (fun index => lr.at' (32 + index)) ++ (List.range 32).map fun index => lr.at' index
  let block := vncDesPermute preoutput vncDesFp 64
  (List.range 8).map fun index => vncDesPack block index

/-! ## The response -/

/-- A byte with its bits reversed. -/
def vncReversed (c : UInt8) : UInt8 :=
  (List.range 8).foldl (fun reversed bit => (reversed <<< 1) ||| ((c >>> UInt8.ofNat bit) &&& 1)) 0

/-- The loop that makes the key: `password` is the rest of the text, or a null pointer. -/
def vncAuthKey : ℕ → Option Bytes → Bytes
  | 0, _ => []
  | count + 1, password =>
    match password with
    | some (c :: rest) =>
      if c ≠ 0 then vncReversed c :: vncAuthKey count (some rest) else vncReversed 0 :: vncAuthKey count password
    | _ => vncReversed 0 :: vncAuthKey count password

/-- `vnc_auth_response`. -/
def vncAuthResponse (password : Option Bytes) (challenge : Bytes) : Bytes :=
  let key := vncAuthKey 8 password
  vncDesEncrypt key (challenge.take 8) ++ vncDesEncrypt key (challenge.drop 8)

end V9xRemote
