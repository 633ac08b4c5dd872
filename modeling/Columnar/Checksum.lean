import Columnar.Bytes

/-! CRC-32 with the reflected polynomial 0xEDB88320, started and finished with all ones. One byte
is eight steps of the shift register, and each step is linear over exclusive or. -/

namespace Columnar.Checksum

def step (crc : UInt32) : UInt32 :=
  if crc &&& 1 = 1 then (crc >>> 1) ^^^ 0xEDB88320 else crc >>> 1

def feed (crc : UInt32) (b : UInt8) : UInt32 :=
  step (step (step (step (step (step (step (step (crc ^^^ b.toUInt32))))))))

def run (crc : UInt32) (bs : Bytes) : UInt32 := bs.foldl feed crc

def crc32 (bs : Bytes) : UInt32 := run 0xFFFFFFFF bs ^^^ 0xFFFFFFFF

theorem run_append (crc : UInt32) (as bs : Bytes) : run crc (as ++ bs) = run (run crc as) bs :=
  List.foldl_append

example : crc32 (Bytes.ofAscii "123456789") = 0xCBF43926 := by decide +kernel

end Columnar.Checksum
