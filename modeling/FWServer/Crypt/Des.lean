import FWServer.Kernel.Feistel
import FWServer.Kernel.Words
import Mathlib.Algebra.Group.Int.Defs
import Mathlib.Algebra.Group.Nat.Defs
import Mathlib.Data.Int.Notation
import Mathlib.Data.List.GetD

/-!
# Encryption

`lualib-src/lua-crypt.c`: DES with its key schedule, the encryption and decryption of messages of any length,
and the hash that makes a key of a string; and `common/msgpack/crypt.lua`, which puts them together.

A message is encrypted block by block, its last block filled up by `0x80` and zeros.  Where the code counts in
an `int` it goes wrong for messages of 2 GB: it leaves bytes of the result unwritten, or its counter
overflows.
-/

namespace Crypt

/-! ### The tables -/

/-- `SB1` -/
def SB1 : List (BitVec 32) := [
  0x01010400, 0x00000000, 0x00010000, 0x01010404, 0x01010004, 0x00010404,
  0x00000004, 0x00010000, 0x00000400, 0x01010400, 0x01010404, 0x00000400,
  0x01000404, 0x01010004, 0x01000000, 0x00000004, 0x00000404, 0x01000400,
  0x01000400, 0x00010400, 0x00010400, 0x01010000, 0x01010000, 0x01000404,
  0x00010004, 0x01000004, 0x01000004, 0x00010004, 0x00000000, 0x00000404,
  0x00010404, 0x01000000, 0x00010000, 0x01010404, 0x00000004, 0x01010000,
  0x01010400, 0x01000000, 0x01000000, 0x00000400, 0x01010004, 0x00010000,
  0x00010400, 0x01000004, 0x00000400, 0x00000004, 0x01000404, 0x00010404,
  0x01010404, 0x00010004, 0x01010000, 0x01000404, 0x01000004, 0x00000404,
  0x00010404, 0x01010400, 0x00000404, 0x01000400, 0x01000400, 0x00000000,
  0x00010004, 0x00010400, 0x00000000, 0x01010004]

/-- `SB2` -/
def SB2 : List (BitVec 32) := [
  0x80108020, 0x80008000, 0x00008000, 0x00108020, 0x00100000, 0x00000020,
  0x80100020, 0x80008020, 0x80000020, 0x80108020, 0x80108000, 0x80000000,
  0x80008000, 0x00100000, 0x00000020, 0x80100020, 0x00108000, 0x00100020,
  0x80008020, 0x00000000, 0x80000000, 0x00008000, 0x00108020, 0x80100000,
  0x00100020, 0x80000020, 0x00000000, 0x00108000, 0x00008020, 0x80108000,
  0x80100000, 0x00008020, 0x00000000, 0x00108020, 0x80100020, 0x00100000,
  0x80008020, 0x80100000, 0x80108000, 0x00008000, 0x80100000, 0x80008000,
  0x00000020, 0x80108020, 0x00108020, 0x00000020, 0x00008000, 0x80000000,
  0x00008020, 0x80108000, 0x00100000, 0x80000020, 0x00100020, 0x80008020,
  0x80000020, 0x00100020, 0x00108000, 0x00000000, 0x80008000, 0x00008020,
  0x80000000, 0x80100020, 0x80108020, 0x00108000]

/-- `SB3` -/
def SB3 : List (BitVec 32) := [
  0x00000208, 0x08020200, 0x00000000, 0x08020008, 0x08000200, 0x00000000,
  0x00020208, 0x08000200, 0x00020008, 0x08000008, 0x08000008, 0x00020000,
  0x08020208, 0x00020008, 0x08020000, 0x00000208, 0x08000000, 0x00000008,
  0x08020200, 0x00000200, 0x00020200, 0x08020000, 0x08020008, 0x00020208,
  0x08000208, 0x00020200, 0x00020000, 0x08000208, 0x00000008, 0x08020208,
  0x00000200, 0x08000000, 0x08020200, 0x08000000, 0x00020008, 0x00000208,
  0x00020000, 0x08020200, 0x08000200, 0x00000000, 0x00000200, 0x00020008,
  0x08020208, 0x08000200, 0x08000008, 0x00000200, 0x00000000, 0x08020008,
  0x08000208, 0x00020000, 0x08000000, 0x08020208, 0x00000008, 0x00020208,
  0x00020200, 0x08000008, 0x08020000, 0x08000208, 0x00000208, 0x08020000,
  0x00020208, 0x00000008, 0x08020008, 0x00020200]

/-- `SB4` -/
def SB4 : List (BitVec 32) := [
  0x00802001, 0x00002081, 0x00002081, 0x00000080, 0x00802080, 0x00800081,
  0x00800001, 0x00002001, 0x00000000, 0x00802000, 0x00802000, 0x00802081,
  0x00000081, 0x00000000, 0x00800080, 0x00800001, 0x00000001, 0x00002000,
  0x00800000, 0x00802001, 0x00000080, 0x00800000, 0x00002001, 0x00002080,
  0x00800081, 0x00000001, 0x00002080, 0x00800080, 0x00002000, 0x00802080,
  0x00802081, 0x00000081, 0x00800080, 0x00800001, 0x00802000, 0x00802081,
  0x00000081, 0x00000000, 0x00000000, 0x00802000, 0x00002080, 0x00800080,
  0x00800081, 0x00000001, 0x00802001, 0x00002081, 0x00002081, 0x00000080,
  0x00802081, 0x00000081, 0x00000001, 0x00002000, 0x00800001, 0x00002001,
  0x00802080, 0x00800081, 0x00002001, 0x00002080, 0x00800000, 0x00802001,
  0x00000080, 0x00800000, 0x00002000, 0x00802080]

/-- `SB5` -/
def SB5 : List (BitVec 32) := [
  0x00000100, 0x02080100, 0x02080000, 0x42000100, 0x00080000, 0x00000100,
  0x40000000, 0x02080000, 0x40080100, 0x00080000, 0x02000100, 0x40080100,
  0x42000100, 0x42080000, 0x00080100, 0x40000000, 0x02000000, 0x40080000,
  0x40080000, 0x00000000, 0x40000100, 0x42080100, 0x42080100, 0x02000100,
  0x42080000, 0x40000100, 0x00000000, 0x42000000, 0x02080100, 0x02000000,
  0x42000000, 0x00080100, 0x00080000, 0x42000100, 0x00000100, 0x02000000,
  0x40000000, 0x02080000, 0x42000100, 0x40080100, 0x02000100, 0x40000000,
  0x42080000, 0x02080100, 0x40080100, 0x00000100, 0x02000000, 0x42080000,
  0x42080100, 0x00080100, 0x42000000, 0x42080100, 0x02080000, 0x00000000,
  0x40080000, 0x42000000, 0x00080100, 0x02000100, 0x40000100, 0x00080000,
  0x00000000, 0x40080000, 0x02080100, 0x40000100]

/-- `SB6` -/
def SB6 : List (BitVec 32) := [
  0x20000010, 0x20400000, 0x00004000, 0x20404010, 0x20400000, 0x00000010,
  0x20404010, 0x00400000, 0x20004000, 0x00404010, 0x00400000, 0x20000010,
  0x00400010, 0x20004000, 0x20000000, 0x00004010, 0x00000000, 0x00400010,
  0x20004010, 0x00004000, 0x00404000, 0x20004010, 0x00000010, 0x20400010,
  0x20400010, 0x00000000, 0x00404010, 0x20404000, 0x00004010, 0x00404000,
  0x20404000, 0x20000000, 0x20004000, 0x00000010, 0x20400010, 0x00404000,
  0x20404010, 0x00400000, 0x00004010, 0x20000010, 0x00400000, 0x20004000,
  0x20000000, 0x00004010, 0x20000010, 0x20404010, 0x00404000, 0x20400000,
  0x00404010, 0x20404000, 0x00000000, 0x20400010, 0x00000010, 0x00004000,
  0x20400000, 0x00404010, 0x00004000, 0x00400010, 0x20004010, 0x00000000,
  0x20404000, 0x20000000, 0x00400010, 0x20004010]

/-- `SB7` -/
def SB7 : List (BitVec 32) := [
  0x00200000, 0x04200002, 0x04000802, 0x00000000, 0x00000800, 0x04000802,
  0x00200802, 0x04200800, 0x04200802, 0x00200000, 0x00000000, 0x04000002,
  0x00000002, 0x04000000, 0x04200002, 0x00000802, 0x04000800, 0x00200802,
  0x00200002, 0x04000800, 0x04000002, 0x04200000, 0x04200800, 0x00200002,
  0x04200000, 0x00000800, 0x00000802, 0x04200802, 0x00200800, 0x00000002,
  0x04000000, 0x00200800, 0x04000000, 0x00200800, 0x00200000, 0x04000802,
  0x04000802, 0x04200002, 0x04200002, 0x00000002, 0x00200002, 0x04000000,
  0x04000800, 0x00200000, 0x04200800, 0x00000802, 0x00200802, 0x04200800,
  0x00000802, 0x04000002, 0x04200802, 0x04200000, 0x00200800, 0x00000000,
  0x00000002, 0x04200802, 0x00000000, 0x00200802, 0x04200000, 0x00000800,
  0x04000002, 0x04000800, 0x00000800, 0x00200002]

/-- `SB8` -/
def SB8 : List (BitVec 32) := [
  0x10001040, 0x00001000, 0x00040000, 0x10041040, 0x10000000, 0x10001040,
  0x00000040, 0x10000000, 0x00040040, 0x10040000, 0x10041040, 0x00041000,
  0x10041000, 0x00041040, 0x00001000, 0x00000040, 0x10040000, 0x10000040,
  0x10001000, 0x00001040, 0x00041000, 0x00040040, 0x10040040, 0x10041000,
  0x00001040, 0x00000000, 0x00000000, 0x10040040, 0x10000040, 0x10001000,
  0x00041040, 0x00040000, 0x00041040, 0x00040000, 0x10041000, 0x00001000,
  0x00000040, 0x10040040, 0x00001000, 0x00041040, 0x10001000, 0x00000040,
  0x10000040, 0x10040000, 0x10040040, 0x10000000, 0x00040000, 0x10001040,
  0x00000000, 0x10041040, 0x00040040, 0x10000040, 0x10040000, 0x10001000,
  0x10001040, 0x00000000, 0x10041040, 0x00041000, 0x00041000, 0x00001040,
  0x00001040, 0x00040040, 0x10000000, 0x10041000]

/-- `LHs` -/
def LHs : List (BitVec 32) := [
  0x00000000, 0x00000001, 0x00000100, 0x00000101, 0x00010000, 0x00010001,
  0x00010100, 0x00010101, 0x01000000, 0x01000001, 0x01000100, 0x01000101,
  0x01010000, 0x01010001, 0x01010100, 0x01010101]

/-- `RHs` -/
def RHs : List (BitVec 32) := [
  0x00000000, 0x01000000, 0x00010000, 0x01010000, 0x00000100, 0x01000100,
  0x00010100, 0x01010100, 0x00000001, 0x01000001, 0x00010001, 0x01010001,
  0x00000101, 0x01000101, 0x00010101, 0x01010101]

/-! ### Blocks -/

/-- `GET_UINT32(n,b,i)` -/
def GET_UINT32 (b : List UInt8) (i : ℕ) : BitVec 32 :=
  Words.ofBytes (b.getD i 0) (b.getD (i + 1) 0) (b.getD (i + 2) 0) (b.getD (i + 3) 0)

/-- `PUT_UINT32(n,b,i)`: the bytes that are put. -/
def PUT_UINT32 (n : BitVec 32) : List UInt8 :=
  [Words.byte n 24, Words.byte n 16, Words.byte n 8, Words.byte n 0]

/-- `DES_IP(X,Y)` -/
def DES_IP (p : BitVec 32 × BitVec 32) : BitVec 32 × BitVec 32 :=
  let (X, Y) := p
  let T := ((X >>> 4) ^^^ Y) &&& 0x0F0F0F0F
  let Y := Y ^^^ T
  let X := X ^^^ (T <<< 4)
  let T := ((X >>> 16) ^^^ Y) &&& 0x0000FFFF
  let Y := Y ^^^ T
  let X := X ^^^ (T <<< 16)
  let T := ((Y >>> 2) ^^^ X) &&& 0x33333333
  let X := X ^^^ T
  let Y := Y ^^^ (T <<< 2)
  let T := ((Y >>> 8) ^^^ X) &&& 0x00FF00FF
  let X := X ^^^ T
  let Y := Y ^^^ (T <<< 8)
  let Y := ((Y <<< 1) ||| (Y >>> 31)) &&& 0xFFFFFFFF
  let T := (X ^^^ Y) &&& 0xAAAAAAAA
  let Y := Y ^^^ T
  let X := X ^^^ T
  let X := ((X <<< 1) ||| (X >>> 31)) &&& 0xFFFFFFFF
  (X, Y)

/-- `DES_FP(X,Y)` -/
def DES_FP (p : BitVec 32 × BitVec 32) : BitVec 32 × BitVec 32 :=
  let (X, Y) := p
  let X := ((X <<< 31) ||| (X >>> 1)) &&& 0xFFFFFFFF
  let T := (X ^^^ Y) &&& 0xAAAAAAAA
  let X := X ^^^ T
  let Y := Y ^^^ T
  let Y := ((Y <<< 31) ||| (Y >>> 1)) &&& 0xFFFFFFFF
  let T := ((Y >>> 8) ^^^ X) &&& 0x00FF00FF
  let X := X ^^^ T
  let Y := Y ^^^ (T <<< 8)
  let T := ((Y >>> 2) ^^^ X) &&& 0x33333333
  let X := X ^^^ T
  let Y := Y ^^^ (T <<< 2)
  let T := ((X >>> 16) ^^^ Y) &&& 0x0000FFFF
  let Y := Y ^^^ T
  let X := X ^^^ (T <<< 16)
  let T := ((X >>> 4) ^^^ Y) &&& 0x0F0F0F0F
  let Y := Y ^^^ T
  let X := X ^^^ (T <<< 4)
  (X, Y)

/-- An entry of a table of 64 words, by six bits of a word. -/
def entry (SB : List (BitVec 32)) (T : BitVec 32) : BitVec 32 :=
  SB.getD (T &&& 0x3F).toNat 0

/-- The words of a key schedule, `SK[32]`. -/
abbrev Schedule : Type :=
  ℕ → BitVec 32

/-- `DES_ROUND(X,Y)`: the new `Y`, with the words of the schedule from the place `i` on. -/
def DES_ROUND (SK : Schedule) (i : ℕ) (X Y : BitVec 32) : BitVec 32 :=
  let T := SK i ^^^ X
  let Y := Y ^^^ (entry SB8 T ^^^ entry SB6 (T >>> 8) ^^^ entry SB4 (T >>> 16) ^^^ entry SB2 (T >>> 24))
  let T := SK (i + 1) ^^^ ((X <<< 28) ||| (X >>> 4))
  Y ^^^ (entry SB7 T ^^^ entry SB5 (T >>> 8) ^^^ entry SB3 (T >>> 16) ^^^ entry SB1 (T >>> 24))

/-- The rounds of `des_crypt`, eight times `DES_ROUND( Y, X );  DES_ROUND( X, Y );`. -/
def DES_ROUNDS (SK : Schedule) (p : BitVec 32 × BitVec 32) : BitVec 32 × BitVec 32 :=
  (List.range 8).foldl
    (fun (X, Y) i =>
      let X := DES_ROUND SK (4 * i) Y X
      let Y := DES_ROUND SK (4 * i + 2) X Y
      (X, Y))
    p

/-- `des_crypt` -/
def des_crypt (SK : Schedule) (input : List UInt8) : List UInt8 :=
  let X := GET_UINT32 input 0
  let Y := GET_UINT32 input 4
  let (X, Y) := DES_IP (X, Y)
  let (X, Y) := DES_ROUNDS SK (X, Y)
  let (Y, X) := DES_FP (Y, X)
  PUT_UINT32 Y ++ PUT_UINT32 X

/-! ### The key schedule -/

/-- An entry of a table of 16 words, by four bits of a word. -/
def half (Hs : List (BitVec 32)) (T : BitVec 32) : BitVec 32 :=
  Hs.getD (T &&& 0xF).toNat 0

/-- Permuted Choice 1 of `des_main_ks` -/
def permutedChoice1 (key : List UInt8) : BitVec 32 × BitVec 32 :=
  let X := GET_UINT32 key 0
  let Y := GET_UINT32 key 4
  let T := ((Y >>> 4) ^^^ X) &&& 0x0F0F0F0F
  let X := X ^^^ T
  let Y := Y ^^^ (T <<< 4)
  let T := (Y ^^^ X) &&& 0x10101010
  let X := X ^^^ T
  let Y := Y ^^^ T
  let X :=
    (half LHs X <<< 3) ||| (half LHs (X >>> 8) <<< 2) |||
    (half LHs (X >>> 16) <<< 1) ||| half LHs (X >>> 24) |||
    (half LHs (X >>> 5) <<< 7) ||| (half LHs (X >>> 13) <<< 6) |||
    (half LHs (X >>> 21) <<< 5) ||| (half LHs (X >>> 29) <<< 4)
  let Y :=
    (half RHs (Y >>> 1) <<< 3) ||| (half RHs (Y >>> 9) <<< 2) |||
    (half RHs (Y >>> 17) <<< 1) ||| half RHs (Y >>> 25) |||
    (half RHs (Y >>> 4) <<< 7) ||| (half RHs (Y >>> 12) <<< 6) |||
    (half RHs (Y >>> 20) <<< 5) ||| (half RHs (Y >>> 28) <<< 4)
  (X &&& 0x0FFFFFFF, Y &&& 0x0FFFFFFF)

/-- The rotation of a half of the key by `n` of its 28 bits. -/
def rotate (n : ℕ) (X : BitVec 32) : BitVec 32 :=
  ((X <<< n) ||| (X >>> (28 - n))) &&& 0x0FFFFFFF

/-- The first of the two words of a round. -/
def subkey₀ (X Y : BitVec 32) : BitVec 32 :=
  ((X <<< 4) &&& 0x24000000) ||| ((X <<< 28) &&& 0x10000000) |||
  ((X <<< 14) &&& 0x08000000) ||| ((X <<< 18) &&& 0x02080000) |||
  ((X <<< 6) &&& 0x01000000) ||| ((X <<< 9) &&& 0x00200000) |||
  ((X >>> 1) &&& 0x00100000) ||| ((X <<< 10) &&& 0x00040000) |||
  ((X <<< 2) &&& 0x00020000) ||| ((X >>> 10) &&& 0x00010000) |||
  ((Y >>> 13) &&& 0x00002000) ||| ((Y >>> 4) &&& 0x00001000) |||
  ((Y <<< 6) &&& 0x00000800) ||| ((Y >>> 1) &&& 0x00000400) |||
  ((Y >>> 14) &&& 0x00000200) ||| (Y &&& 0x00000100) |||
  ((Y >>> 5) &&& 0x00000020) ||| ((Y >>> 10) &&& 0x00000010) |||
  ((Y >>> 3) &&& 0x00000008) ||| ((Y >>> 18) &&& 0x00000004) |||
  ((Y >>> 26) &&& 0x00000002) ||| ((Y >>> 24) &&& 0x00000001)

/-- The second of the two words of a round. -/
def subkey₁ (X Y : BitVec 32) : BitVec 32 :=
  ((X <<< 15) &&& 0x20000000) ||| ((X <<< 17) &&& 0x10000000) |||
  ((X <<< 10) &&& 0x08000000) ||| ((X <<< 22) &&& 0x04000000) |||
  ((X >>> 2) &&& 0x02000000) ||| ((X <<< 1) &&& 0x01000000) |||
  ((X <<< 16) &&& 0x00200000) ||| ((X <<< 11) &&& 0x00100000) |||
  ((X <<< 3) &&& 0x00080000) ||| ((X >>> 6) &&& 0x00040000) |||
  ((X <<< 15) &&& 0x00020000) ||| ((X >>> 4) &&& 0x00010000) |||
  ((Y >>> 2) &&& 0x00002000) ||| ((Y <<< 8) &&& 0x00001000) |||
  ((Y >>> 14) &&& 0x00000808) ||| ((Y >>> 9) &&& 0x00000400) |||
  (Y &&& 0x00000200) ||| ((Y <<< 7) &&& 0x00000100) |||
  ((Y >>> 7) &&& 0x00000020) ||| ((Y >>> 3) &&& 0x00000011) |||
  ((Y <<< 2) &&& 0x00000004) ||| ((Y >>> 21) &&& 0x00000002)

/-- The loop of `des_main_ks` over the rounds `is`: the words it writes. -/
def subkeys : List ℕ → BitVec 32 → BitVec 32 → List (BitVec 32)
  | [], _, _ => []
  | i :: is, X, Y =>
      let n := if i < 2 ∨ i = 8 ∨ i = 15 then 1 else 2
      let X := rotate n X
      let Y := rotate n Y
      subkey₀ X Y :: subkey₁ X Y :: subkeys is X Y

/-- `des_main_ks` -/
def des_main_ks (key : List UInt8) : Schedule :=
  let (X, Y) := permutedChoice1 key
  fun i => (subkeys (List.range 16) X Y).getD i 0

/-! ### Messages -/

/-- What a call does that does not return: it raises an error, or the C code has no defined behaviour. -/
inductive Fault where
  | error (message : String)
  | undefined

/-- `des_key` -/
def des_key (key : List UInt8) : Except Fault Schedule :=
  if key.length ≠ 8 then .error (.error s!"Invalid key size {key.length}, need 8 bytes")
  else .ok (des_main_ks key)

/-- `(int)n` -/
def toInt (n : ℕ) : ℤ :=
  if n % 2 ^ 32 < 2 ^ 31 then (n % 2 ^ 32 : ℕ) else (n % 2 ^ 32 : ℕ) - 2 ^ 32

/-- The calls `des_crypt(SK, text+i, buffer+i)` for `n` blocks from `i = 0` on: what they write. -/
def crypt_blocks (SK : Schedule) (n : ℕ) (text : List UInt8) : List UInt8 :=
  Feistel.blocks 8 (des_crypt SK) n text

/-- `tail`: the bytes of the text from `i` on, of which there are `bytes`. -/
def fillTail (text : List UInt8) (i : ℕ) (bytes : ℤ) : List UInt8 :=
  (List.range 8).map fun (j : ℕ) =>
    if (j : ℤ) < bytes then text.getD (i + j) 0
    else if (j : ℤ) = bytes then 0x80
    else 0

/-- `ldesencode` -/
def ldesencode (key text : List UInt8) : Except Fault (List UInt8) := do
  let SK ← des_key key
  let textsz := text.length
  let chunksz := (textsz + 8) / 8 * 8
  -- the number of times the loop `for (i=0;i<(int)textsz-7;i+=8)` is passed
  let n := ((toInt textsz - 7).toNat + 7) / 8
  let i := 8 * n
  let bytes := toInt (textsz - i)
  let buffer := crypt_blocks SK n text ++ des_crypt SK (fillTail text i bytes)
  if buffer.length = chunksz then .ok buffer else .error .undefined

/-- The schedule of `ldesdecode`: `SK[i] = ESK[30 - i]` and `SK[i + 1] = ESK[31 - i]` for even `i`. -/
def reversed (ESK : Schedule) : Schedule := fun i =>
  if i % 2 = 0 then ESK (30 - i) else ESK (31 - (i - 1))

/-- The loop of `ldesdecode` over the padding from `i = n - 1` down, where `i>=textsz-8` compares numbers
without sign and so holds of `-1` too. -/
def scan (buffer : List UInt8) : ℕ → ℕ → Except Fault ℕ
  | 0, _ => .error .undefined
  | i + 1, padding =>
      if buffer.length - 8 ≤ i then
        if buffer.getD i 0 = 0 then scan buffer i (padding + 1)
        else if buffer.getD i 0 = 0x80 then .ok padding
        else .error (.error "Invalid des crypt text")
      else .ok padding

/-- `ldesdecode`.  The counter of its loop overflows for texts of 2 GB. -/
def ldesdecode (key text : List UInt8) : Except Fault (List UInt8) := do
  let ESK ← des_key key
  let SK := reversed ESK
  let textsz := text.length
  if textsz % 8 ≠ 0 ∨ textsz = 0 then
    .error (.error s!"Invalid des crypt text length {toInt textsz}")
  else if 2 ^ 31 ≤ textsz then
    .error .undefined
  else
    let buffer := crypt_blocks SK (textsz / 8) text
    let padding ← scan buffer textsz 1
    if padding > 8 then .error (.error "Invalid des crypt text")
    else .ok (buffer.take (textsz - padding))

/-! ### Keys -/

/-- The loop of `Hash`. -/
def hashes (str : List UInt8) : BitVec 32 × BitVec 32 :=
  str.foldl
    (fun (djb_hash, js_hash) c =>
      let c := c.toBitVec.setWidth 32
      (djb_hash + ((djb_hash <<< 5) + c), js_hash ^^^ ((js_hash <<< 5) + c + (js_hash >>> 2))))
    (5381, 1315423911)

/-- `Hash`, which is handed the length of the string as an `int`. -/
def Hash (str : List UInt8) : List UInt8 :=
  let (djb_hash, js_hash) := hashes (str.take (toInt str.length).toNat)
  [Words.byte djb_hash 0, Words.byte djb_hash 8, Words.byte djb_hash 16, Words.byte djb_hash 24,
    Words.byte js_hash 0, Words.byte js_hash 8, Words.byte js_hash 16, Words.byte js_hash 24]

/-- `lhashkey` -/
def lhashkey (key : List UInt8) : List UInt8 :=
  Hash key

/-- `lgethandshakekey`, with the zero that ends the string. -/
def lgethandshakekey : List UInt8 :=
  ("hello myworld!".toList.map fun c => UInt8.ofNat c.toNat) ++ [0]

/-- `cryptpack.encode` -/
def encode (key : Option (List UInt8)) (msg : List UInt8) : Except Fault (List UInt8) :=
  let deskey := lhashkey (key.getD lgethandshakekey)
  ldesencode deskey msg

/-- `cryptpack.decode` -/
def decode (key : Option (List UInt8)) (msg : List UInt8) : Except Fault (List UInt8) :=
  let deskey := lhashkey (key.getD lgethandshakekey)
  ldesdecode deskey msg

end Crypt
