import StatRollup.Bytes.Digits
/-!
# The 32-bit cyclic redundancy check

`crc32` is the check of IEEE 802.3: reflected polynomial `0xEDB88320`, all ones before the first
octet, all bits inverted after the last.  It guards the records of the identifier journal and
spreads routing keys over partitions.
-/
namespace StatRollup.Bytes

/-- One bit of the reflected division. -/
def crcBit (r : UInt32) : UInt32 :=
  if r &&& 1 = 0 then r >>> 1 else (r >>> 1) ^^^ 0xEDB88320

/-- Takes one octet into the remainder. -/
def crcByte (r : UInt32) (b : UInt8) : UInt32 :=
  let r := r ^^^ b.toUInt32
  crcBit (crcBit (crcBit (crcBit (crcBit (crcBit (crcBit (crcBit r)))))))

/-- The remainder after all octets, from a given one. -/
def crcFrom (r : UInt32) (bs : Bytes) : UInt32 := bs.foldl crcByte r

/-- The check of a run of octets. -/
def crc32 (bs : Bytes) : UInt32 := crcFrom 0xFFFFFFFF bs ^^^ 0xFFFFFFFF

theorem crcFrom_append (r : UInt32) (as bs : Bytes) :
    crcFrom r (as ++ bs) = crcFrom (crcFrom r as) bs := List.foldl_append

/-- The octets of a text in its usual encoding. -/
def ofText (s : String) : Bytes := s.toUTF8.toList

/-! ## Examples -/

example : crc32 [] = 0 := by decide
/-- The check value that the standard lists for the nine digits. -/
example : crc32 [49, 50, 51, 52, 53, 54, 55, 56, 57] = 0xCBF43926 := by decide +kernel

end StatRollup.Bytes
