/-!
# Writing MessagePack

The MessagePack encodings the library writes, each in its most compact form:

* a non-negative integer as a positive fixint (below 128) or as `cc`/`cd`/`ce`/`cf` with
  1, 2, 4 or 8 bytes; a negative one as a negative fixint (from -32) or `d0`…`d3`;
* every float as `cb` and the eight bytes of its binary64 form;
* a string as fixstr (below 32 bytes), `d9`, `da` or `db`, then its UTF-8 bytes;
* an array header as fixarray (below 16), `dc` or `dd`; a map header as fixmap, `de`, `df`;
* nil as `c0`, false and true as `c2` and `c3`.

Multi-byte lengths and numbers are big-endian.
-/

namespace OrderedState

namespace Msgpack

/-- The `width` low bytes of `n`, most significant first. -/
def bigEndian (n : Nat) : Nat → List UInt8
  | 0 => []
  | w + 1 => UInt8.ofNat (n / 256 ^ w % 256) :: bigEndian n w

/-- A non-negative integer below 2^64. -/
def uint (n : Nat) : List UInt8 :=
  if n < 128 then [UInt8.ofNat n]
  else if n < 256 then [0xcc, UInt8.ofNat n]
  else if n < 65536 then 0xcd :: bigEndian n 2
  else if n < 4294967296 then 0xce :: bigEndian n 4
  else 0xcf :: bigEndian n 8

/-- An integer in the signed 64-bit range. -/
def int (n : Int) : List UInt8 :=
  if 0 ≤ n then uint n.toNat
  else if -32 ≤ n then [UInt8.ofNat (256 - n.natAbs)]
  else if -128 ≤ n then [0xd0, UInt8.ofNat (256 - n.natAbs)]
  else if -32768 ≤ n then 0xd1 :: bigEndian (65536 - n.natAbs) 2
  else if -2147483648 ≤ n then 0xd2 :: bigEndian (4294967296 - n.natAbs) 4
  else 0xd3 :: bigEndian (18446744073709551616 - n.natAbs) 8

/-- A float, always in eight bytes. -/
def float (x : Float) : List UInt8 := 0xcb :: bigEndian x.toBits.toNat 8

/-- A string. -/
def str (s : String) : List UInt8 :=
  let bs := s.toUTF8.toList
  let n := bs.length
  let header :=
    if n < 32 then [UInt8.ofNat (0xa0 + n)]
    else if n < 256 then [0xd9, UInt8.ofNat n]
    else if n < 65536 then 0xda :: bigEndian n 2
    else 0xdb :: bigEndian n 4
  header ++ bs

/-- The header of an array of `n` items. -/
def arrayHeader (n : Nat) : List UInt8 :=
  if n < 16 then [UInt8.ofNat (0x90 + n)]
  else if n < 65536 then 0xdc :: bigEndian n 2
  else 0xdd :: bigEndian n 4

/-- The header of a map of `n` entries. -/
def mapHeader (n : Nat) : List UInt8 :=
  if n < 16 then [UInt8.ofNat (0x80 + n)]
  else if n < 65536 then 0xde :: bigEndian n 2
  else 0xdf :: bigEndian n 4

/-- Nil. -/
def nil : List UInt8 := [0xc0]

/-- A boolean. -/
def bool (b : Bool) : List UInt8 := if b then [0xc3] else [0xc2]

end Msgpack

end OrderedState
