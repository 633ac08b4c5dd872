/-! What a command needs of the system it runs on. Reading and writing a file may fail with a text
of the system. -/

namespace Columnar.Command

structure Host (m : Type → Type) where
  environment : m (List (String × String))
  location : m (List String)
  read : String → m (Except String (Array UInt8))
  create : String → m (Except String Unit)
  write : String → Array UInt8 → m (Except String Unit)
  print : String → m Unit
  printError : String → m Unit
  clock : m Nat
  /-- Computes a value between the effects before and after it. -/
  compute : {α : Type} → (Unit → α) → m α

end Columnar.Command
