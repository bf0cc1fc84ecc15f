import Mathlib.Tactic.NormNum

namespace FreakV

abbrev Bytes := List UInt8

def crc16Tab : List Nat :=
  [
    0x0000, 0x1021, 0x2042, 0x3063, 0x4084, 0x50a5, 0x60c6, 0x70e7, 0x8108, 0x9129, 0xa14a, 0xb16b,
    0xc18c, 0xd1ad, 0xe1ce, 0xf1ef, 0x1231, 0x0210, 0x3273, 0x2252, 0x52b5, 0x4294, 0x72f7, 0x62d6,
    0x9339, 0x8318, 0xb37b, 0xa35a, 0xd3bd, 0xc39c, 0xf3ff, 0xe3de, 0x2462, 0x3443, 0x0420, 0x1401,
    0x64e6, 0x74c7, 0x44a4, 0x5485, 0xa56a, 0xb54b, 0x8528, 0x9509, 0xe5ee, 0xf5cf, 0xc5ac, 0xd58d,
    0x3653, 0x2672, 0x1611, 0x0630, 0x76d7, 0x66f6, 0x5695, 0x46b4, 0xb75b, 0xa77a, 0x9719, 0x8738,
    0xf7df, 0xe7fe, 0xd79d, 0xc7bc, 0x4864, 0x5845, 0x6826, 0x7807, 0x08e0, 0x18c1, 0x28a2, 0x3883,
    0xc96c, 0xd94d, 0xe92e, 0xf90f, 0x89e8, 0x99c9, 0xa9aa, 0xb98b, 0x5a55, 0x4a74, 0x7a17, 0x6a36,
    0x1ad1, 0x0af0, 0x3a93, 0x2ab2, 0xdb5d, 0xcb7c, 0xfb1f, 0xeb3e, 0x9bd9, 0x8bf8, 0xbf9b, 0xafba,
    0x6ca6, 0x7c87, 0x4ce4, 0x5cc5, 0x2c22, 0x3c03, 0x0c60, 0x1c41, 0xedae, 0xfd8f, 0xcdec, 0xddcd,
    0xad2a, 0xbd0b, 0x8d68, 0x9d49, 0x7e97, 0x6eb6, 0x5ed5, 0x4ef4, 0x3e13, 0x2e32, 0x1e51, 0x0e70,
    0xff9f, 0xefbe, 0xdfdd, 0xcffc, 0xbf1b, 0xaf3a, 0x9f59, 0x8f78, 0x9188, 0x81a9, 0xb1ca, 0xa1eb,
    0xd10c, 0xc12d, 0xf14e, 0xe16f, 0x1080, 0x00a1, 0x30c2, 0x20e3, 0x5004, 0x4025, 0x7046, 0x6067,
    0x83b9, 0x9398, 0xa3fb, 0xb3da, 0xc33d, 0xd31c, 0xe37f, 0xf35e, 0x02b1, 0x1290, 0x22f3, 0x32d2,
    0x4235, 0x5214, 0x6277, 0x7256, 0xb5ea, 0xa5cb, 0x95a8, 0x8589, 0xf56e, 0xe54f, 0xd52c, 0xc50d,
    0x34e2, 0x24c3, 0x14a0, 0x0481, 0x7466, 0x6447, 0x5424, 0x4405, 0xa7db, 0xb7fa, 0x8799, 0x97b8,
    0xe75f, 0xf77e, 0xc71d, 0xd73c, 0x26d3, 0x36f2, 0x0691, 0x16b0, 0x6657, 0x7676, 0x4615, 0x5634,
    0xd94c, 0xc96d, 0xf90e, 0xe92f, 0x99c8, 0x89e9, 0xb98a, 0xa9ab, 0x5844, 0x4865, 0x7806, 0x6827,
    0x18c0, 0x08e1, 0x3882, 0x28a3, 0xcb7d, 0xdb5c, 0xeb3f, 0xfb1e, 0x8bf9, 0x9bd8, 0xabbb, 0xbb9a,
    0x4a75, 0x5a54, 0x6a37, 0x7a16, 0x0af1, 0x1ad0, 0x2ab3, 0x3a92, 0xfd2e, 0xed0f, 0xdd6c, 0xcd4d,
    0xbdaa, 0xad8b, 0x9de8, 0x8dc9, 0x7c26, 0x6c07, 0x5c64, 0x4c45, 0x3ca2, 0x2c83, 0x1ce0, 0x0cc1,
    0xef1f, 0xff3e, 0xcf5d, 0xdf7c, 0xaf9b, 0xbfba, 0x8fd9, 0x9ff8, 0x6e17, 0x7e36, 0x4e55, 0x5e74,
    0x2e93, 0x3eb2, 0x0ed1, 0x1ef0]

def routingCrc16 (buf : Bytes) : Nat :=
  buf.foldl (fun crc byte =>
    ((crc <<< 8) % 2 ^ 16) ^^^ crc16Tab.getD (((crc >>> 8) ^^^ byte.toNat) &&& 0xff) 0) 0

def hashTag (key : Bytes) : Option Bytes :=
  match key.dropWhile (· ≠ 0x7b) with
  | [] => none
  | _ :: rest =>
    let tag := rest.takeWhile (· ≠ 0x7d)
    if tag.length < rest.length ∧ tag ≠ [] then some tag else none

def slotForKey (key : Bytes) : Nat :=
  routingCrc16 ((hashTag key).getD key) % 16384

def shardForSlot (slot numShards : Nat) : Nat := slot * numShards / 16384

def shardForKey (key : Bytes) (numShards : Nat) : Nat := shardForSlot (slotForKey key) numShards

def wyrot (x : Nat) : Nat := (x >>> 32) ||| ((x <<< 32) % 2 ^ 64)

def wymix (a b : Nat) : Nat := ((a * b) % 2 ^ 64) ^^^ ((a * b) >>> 64)

def readLe (n : Nat) (p : Bytes) : Nat :=
  (p.take n).foldr (fun byte acc => byte.toNat + 256 * acc) 0

def wyS0 : Nat := 0xa0761d6478bd642f
def wyS1 : Nat := 0xe7037ed1a0b428db
def wyS2 : Nat := 0x8ebc6af09c88c6e3
def wyS3 : Nat := 0x589965cc75374cc3

-- The two loops of ht_key_hash over keys longer than 16 bytes; `fuel` bounds the blocks of a key
-- and is its length. They return the seed and the bytes that are left.
def wyLong (fuel : Nat) (seed : Nat) (p : Bytes) : Nat × Bytes :=
  match fuel with
  | 0 => (seed, p)
  | fuel + 1 =>
    if 48 < p.length then
      let see0 := wymix (readLe 8 p ^^^ wyS1) (readLe 8 (p.drop 8) ^^^ seed)
      let see1 := wymix (readLe 8 (p.drop 16) ^^^ wyS2) (readLe 8 (p.drop 24) ^^^ seed)
      let see2 := wymix (readLe 8 (p.drop 32) ^^^ wyS3) (readLe 8 (p.drop 40) ^^^ seed)
      wyLong fuel (see0 ^^^ (see1 ^^^ see2)) (p.drop 48)
    else if 16 < p.length then
      wyLong fuel (wymix (readLe 8 p ^^^ wyS1) (readLe 8 (p.drop 8) ^^^ seed)) (p.drop 16)
    else (seed, p)

def htKeyHash (key : Bytes) : Nat :=
  let len := key.length
  let (a, b, seed) :=
    if len ≤ 16 then
      if 4 ≤ len then
        let a := (readLe 4 key <<< 32) ||| readLe 4 (key.drop (len - 4))
        let b := if 8 < len then (readLe 4 (key.drop 4) <<< 32) ||| readLe 4 (key.drop (len - 8))
          else wyrot a
        (a, b, wyS0)
      else if 0 < len then
        (((key.getD 0 0).toNat <<< 16) ||| ((key.getD (len / 2) 0).toNat <<< 8) |||
          (key.getD (len - 1) 0).toNat, 0, wyS0)
      else (0, 0, wyS0)
    else
      let (seed, _) := wyLong len wyS0 key
      -- p + j - 16 and p + j - 8 are the last 16 bytes of the key
      (readLe 8 (key.drop (len - 16)), readLe 8 (key.drop (len - 8)), seed)
  wymix (wyS1 ^^^ len) (wymix (a ^^^ wyS1) (b ^^^ seed))

def htMetaPack (hash : BitVec 64) (type : BitVec 8) : BitVec 64 :=
  let m := (hash &&& ~~~0xFF) ||| type.setWidth 64
  if m ≠ 0 then m else 1

def valTypeString : BitVec 8 := 0

def hash56 (key : Bytes) : Nat := (htMetaPack (BitVec.ofNat 64 (htKeyHash key)) valTypeString).toNat >>> 8

end FreakV
