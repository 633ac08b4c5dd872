import Columnar.Block.Format
import Columnar.Decimal.Shortest

/-! The decoded values of one column, or of one block of it: doubles or signed integers, eight
little-endian bytes each. -/

namespace Columnar

inductive Values
  | floats (xs : Array Binary64)
  | ints (xs : Array Int64)
  deriving DecidableEq

namespace Values

def type : Values → ValueType | .floats _ => .float64 | .ints _ => .int64

def size : Values → Nat | .floats xs => xs.size | .ints xs => xs.size

def isEmpty (v : Values) : Bool := v.size = 0

def floatAt? : Values → Nat → Option Binary64
  | .floats xs, i => xs[i]?
  | .ints _, _ => none

def intAt? : Values → Nat → Option Int64
  | .ints xs, i => xs[i]?
  | .floats _, _ => none

def textAt? : Values → Nat → Option String
  | .floats xs, i => xs[i]?.map Decimal.text
  | .ints xs, i => xs[i]?.map fun n => toString n.toInt

def words : Values → List UInt64
  | .floats xs => xs.toList.map Binary64.bits
  | .ints xs => xs.toList.map Int64.toUInt64

def ofWords (type : ValueType) (ws : Array UInt64) : Values :=
  match type with
  | .float64 => .floats (ws.map Binary64.mk)
  | .int64 => .ints (ws.map UInt64.toInt64)

def slice (v : Values) (start stop : Nat) : Values :=
  match v with
  | .floats xs => .floats (xs.extract start stop)
  | .ints xs => .ints (xs.extract start stop)

def payload (v : Values) : Bytes := v.words.flatMap Bytes.ofUInt64

@[simp] theorem length_words (v : Values) : v.words.length = v.size := by
  cases v <;> simp [words, size]

@[simp] theorem type_ofWords (type : ValueType) (ws : Array UInt64) :
    (ofWords type ws).type = type := by
  cases type <;> rfl

@[simp] theorem size_ofWords (type : ValueType) (ws : Array UInt64) :
    (ofWords type ws).size = ws.size := by
  cases type <;> simp [ofWords, size]

theorem words_ofWords (type : ValueType) (ws : Array UInt64) :
    (ofWords type ws).words = ws.toList := by
  cases type <;> simp [ofWords, words, Function.comp_def]

theorem ofWords_words (v : Values) : ofWords v.type v.words.toArray = v := by
  cases v <;> simp [ofWords, words, type, Function.comp_def]

@[simp] theorem type_slice (v : Values) (start stop : Nat) : (v.slice start stop).type = v.type := by
  cases v <;> rfl

theorem size_slice (v : Values) (start stop : Nat) :
    (v.slice start stop).size = min stop v.size - start := by
  cases v <;> simp [slice, size]

end Values

def readWords (acc : Array UInt64) : Nat → Bytes → Array UInt64
  | 0, _ => acc
  | count + 1, bs => readWords (acc.push (Bytes.toUInt64 (bs.take 8))) count (bs.drop 8)

theorem readWords_flatMap (acc : Array UInt64) (ws : List UInt64) (rest : Bytes) :
    readWords acc ws.length (ws.flatMap Bytes.ofUInt64 ++ rest) = acc ++ ws.toArray := by
  induction ws generalizing acc with
  | nil => simp [readWords]
  | cons w ws ih =>
    have h8 := Bytes.length_ofUInt64 w
    have ht : (Bytes.ofUInt64 w ++ (ws.flatMap Bytes.ofUInt64 ++ rest)).take 8 =
        Bytes.ofUInt64 w := List.take_left' h8
    have hd : (Bytes.ofUInt64 w ++ (ws.flatMap Bytes.ofUInt64 ++ rest)).drop 8 =
        ws.flatMap Bytes.ofUInt64 ++ rest := List.drop_left' h8
    rw [List.length_cons, List.flatMap_cons, List.append_assoc, readWords, ht, hd, ih]
    simp

@[simp] theorem size_readWords (acc : Array UInt64) (count : Nat) (bs : Bytes) :
    (readWords acc count bs).size = acc.size + count := by
  induction count generalizing acc bs with
  | zero => rfl
  | succ n ih => rw [readWords, ih, Array.size_push]; omega

end Columnar
