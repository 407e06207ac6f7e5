import Coprocess.Bytes

/-!
# CRC-32

* `crc32`: the check sum of some bytes, for the reflected polynomial `0xEDB88320`.
-/

namespace Coprocess.Gzip

/-- The register after one bit has been shifted out. -/
def crcShift (r : UInt32) : UInt32 :=
  if r &&& 1 = 1 then (r >>> 1) ^^^ 0xEDB88320 else r >>> 1

/-- The register after one more byte. -/
def crcByte (r : UInt32) (b : UInt8) : UInt32 :=
  8 |>.fold (fun _ _ r => crcShift r) (r ^^^ b.toUInt32)

/-- The check sum of some bytes. -/
def crc32 (s : Bytes) : UInt32 := s.foldl crcByte 0xFFFFFFFF ^^^ 0xFFFFFFFF

end Coprocess.Gzip
