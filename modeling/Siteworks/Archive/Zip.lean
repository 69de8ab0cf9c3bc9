import Siteworks.Archive.Basic

/-!
# The bytes of an archive

The ZIP format: for every entry a local record with its bytes, then a directory that repeats the
records with their offsets, then an end record. The bytes of an entry are a sequence of stored
blocks, each of which holds fewer than `2 ^ 16` bytes as they are.
-/

namespace Siteworks

/-- A number in little-endian order. -/
def littleEndian : Nat → Nat → List UInt8
  | 0, _ => []
  | width + 1, n => UInt8.ofNat n :: littleEndian width (n / 256)

/-- One bit of the cyclic redundancy check. -/
def crcStep (crc : UInt32) : UInt32 :=
  if crc &&& 1 = 1 then (crc >>> 1) ^^^ 0xEDB88320 else crc >>> 1

/-- One byte of the cyclic redundancy check. -/
def crcByte (crc : UInt32) (byte : UInt8) : UInt32 :=
  (List.range 8).foldl (fun crc _ => crcStep crc) (crc ^^^ byte.toUInt32)

/-- The cyclic redundancy check of a list of bytes. -/
def crc32 (bytes : List UInt8) : UInt32 := bytes.foldl crcByte 0xFFFFFFFF ^^^ 0xFFFFFFFF

/-- Bytes as stored blocks of the compressed format, in at most the given number of blocks that are
not the last. -/
def storedBlocks : Nat → List UInt8 → List UInt8
  | 0, bytes => block 1 bytes
  | blocks + 1, bytes =>
    if bytes.length < 65536 then block 1 bytes
    else block 0 (bytes.take 65535) ++ storedBlocks blocks (bytes.drop 65535)
where
  /-- One block behind its header. -/
  block (final : Nat) (bytes : List UInt8) : List UInt8 :=
    littleEndian 1 final ++ littleEndian 2 bytes.length ++ littleEndian 2 (65535 - bytes.length)
      ++ bytes

namespace ArchiveEntry

/-- The stored bytes of an entry. -/
def payload (entry : ArchiveEntry) : List UInt8 :=
  storedBlocks (entry.data.bytes.length / 65535) entry.data.bytes

/-- The part of an entry's description that its record and the directory share. -/
def description (entry : ArchiveEntry) : List UInt8 :=
  let name := entry.name.toUTF8.toList
  let flags := if name.all (· < 128) then 0 else 0x800
  littleEndian 2 20 ++ littleEndian 2 flags ++ littleEndian 2 8 ++ littleEndian 2 0
    ++ littleEndian 2 0x21 ++ littleEndian 4 (crc32 entry.data.bytes).toNat
    ++ littleEndian 4 entry.payload.length ++ littleEndian 4 entry.data.bytes.length
    ++ littleEndian 2 name.length ++ littleEndian 2 0

/-- The local record of an entry. -/
def record (entry : ArchiveEntry) : List UInt8 :=
  littleEndian 4 0x04034b50 ++ entry.description ++ entry.name.toUTF8.toList ++ entry.payload

/-- The directory record of an entry whose local record is at an offset. -/
def directoryRecord (entry : ArchiveEntry) (offset : Nat) : List UInt8 :=
  littleEndian 4 0x02014b50 ++ littleEndian 2 0x31e ++ entry.description ++ littleEndian 6 0
    ++ littleEndian 4 (mode * 65536) ++ littleEndian 4 offset ++ entry.name.toUTF8.toList

end ArchiveEntry

namespace Archive

/-- The directory of a list of entries whose first local record is at an offset. -/
def directory (offset : Nat) : List ArchiveEntry → List UInt8
  | [] => []
  | entry :: rest => entry.directoryRecord offset ++ directory (offset + entry.record.length) rest

/-- The bytes of an archive. -/
def bytes (archive : Archive) : List UInt8 :=
  let records := archive.entries.flatMap ArchiveEntry.record
  let directory := directory 0 archive.entries
  let count := archive.entries.length
  records ++ directory ++ littleEndian 4 0x06054b50 ++ littleEndian 4 0 ++ littleEndian 2 count
    ++ littleEndian 2 count ++ littleEndian 4 directory.length ++ littleEndian 4 records.length
    ++ littleEndian 2 0

end Archive

end Siteworks
