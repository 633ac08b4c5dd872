import Columnar.Block.Values

/-! Reading and writing one uncompressed block. A block is read if its header is complete, its tag
names a value type, and its payload length is that of its rows and lies inside the bytes. -/

namespace Columnar

inductive BlockFault
  | headerTooSmall
  | unknownTag (tag : UInt8)
  | payloadLength (length rows : UInt32) (type : ValueType)
  | payloadOutOfBounds
  | wrongDecoder (decoder found : ValueType)
  deriving Repr, DecidableEq

def BlockFault.message : BlockFault → String
  | .headerTooSmall => "decompressed block too small for header"
  | .unknownTag tag => s!"unknown physical type tag {tag.toNat}"
  | .payloadLength length rows type =>
    s!"payload length {length.toNat} does not match {rows.toNat} rows of {type.name}"
  | .payloadOutOfBounds => "payload out of bounds"
  | .wrongDecoder decoder found => s!"{decoder.name} decoder handed a {found.name} block"

structure BlockView where
  header : BlockHeader
  type : ValueType
  payload : Bytes

namespace BlockView

def rowCount (v : BlockView) : Nat := v.header.rowCount.toNat

def payloadStart (type : ValueType) : Nat := alignUp BlockHeader.size type.width

@[simp] theorem payloadStart_eq (type : ValueType) : payloadStart type = 16 := by
  cases type <;> rfl

def parse (bs : Bytes) : Except BlockFault BlockView :=
  match BlockHeader.decode? bs with
  | none => .error .headerTooSmall
  | some header =>
    match ValueType.ofTag? header.tag with
    | none => .error (.unknownTag header.tag)
    | some type =>
      let length := header.rowCount.toNat * type.width
      if header.payloadLength.toNat ≠ length then
        .error (.payloadLength header.payloadLength header.rowCount type)
      else
        match Bytes.split? (payloadStart type + length) bs with
        | none => .error .payloadOutOfBounds
        | some (block, _) => .ok ⟨header, type, block.drop (payloadStart type)⟩

def values (v : BlockView) : Values := .ofWords v.type (readWords #[] v.rowCount v.payload)

def valuesAs (decoder : ValueType) (v : BlockView) : Except BlockFault Values :=
  if v.type = decoder then .ok v.values else .error (.wrongDecoder decoder v.type)

@[simp] theorem size_values (v : BlockView) : v.values.size = v.rowCount := by
  simp [values]

@[simp] theorem type_values (v : BlockView) : v.values.type = v.type := by
  simp [values]

end BlockView

def encodeBlock (type : ValueType) (rows : UInt32) (payload : Bytes) : Bytes :=
  (BlockHeader.ofRows type rows).encode ++
    List.replicate (BlockView.payloadStart type - BlockHeader.size) 0 ++ payload

def Values.block (v : Values) : Bytes := encodeBlock v.type (.ofNat v.size) v.payload

theorem length_encodeBlock (type : ValueType) (rows : UInt32) (payload : Bytes) :
    (encodeBlock type rows payload).length = 16 + payload.length := by
  simp [encodeBlock, BlockHeader.size]
  omega

end Columnar
