namespace LogicChip.NameHash

/-- The reflected generator polynomial. -/
def polynomial : UInt32 := 0xEDB88320

/-- Advances the remainder by one bit. -/
def stepBit (crc : UInt32) : UInt32 :=
  if crc &&& 1 = 1 then polynomial ^^^ (crc >>> 1) else crc >>> 1

/-- Advances the remainder by eight bits. -/
def stepBits (crc : UInt32) : UInt32 := Nat.repeat stepBit 8 crc

/-- The remainders of the single bytes. -/
def table : Vector UInt32 256 := Vector.ofFn fun byte => stepBits (UInt32.ofNat byte)

/-- Advances the remainder by one byte. -/
def stepByte (crc : UInt32) (byte : UInt8) : UInt32 :=
  table.get ⟨(crc.toUInt8 ^^^ byte).toNat, UInt8.toNat_lt _⟩ ^^^ (crc >>> 8)

/-- The hash of a sequence of bytes: their reflected CRC-32, advanced one byte at a time through the
table and read as a signed number. -/
def ofBytes (bytes : List UInt8) : Int32 := (~~~(bytes.foldl stepByte 0xFFFFFFFF)).toInt32

/-- The hash of a name is that of its UTF-8 bytes. -/
def ofName (name : String) : Int32 := ofBytes name.toUTF8.data.toList

end LogicChip.NameHash
