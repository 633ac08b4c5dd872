import Columnar.Scan.Source
import Columnar.Scan.Timing
import Columnar.Decimal.Fixed

/-! What a pass read from storage, column by column in the order of their first reads. Every block
load adds to its column's counters; the totals are their sums. -/

namespace Columnar

inductive Event
  | scanStart (rows : Nat)
  | blockRead (load : BlockLoad) (elapsed : Duration)
  | scanEnd (elapsed : Duration)
  deriving DecidableEq

structure ReadCounts where
  blocks : UInt64
  rows : UInt64
  compressed : UInt64
  uncompressed : UInt64
  time : Duration
  deriving Repr, DecidableEq

namespace ReadCounts

def zero : ReadCounts := ⟨0, 0, 0, 0, .zero⟩

def ofLoad (load : BlockLoad) (elapsed : Duration) : ReadCounts :=
  ⟨1, load.rows.toUInt64, load.compressed, load.uncompressed, elapsed⟩

instance : Add ReadCounts :=
  ⟨fun a b => ⟨a.blocks + b.blocks, a.rows + b.rows, a.compressed + b.compressed,
    a.uncompressed + b.uncompressed, a.time + b.time⟩⟩

end ReadCounts

structure Profile where
  rowCount : Nat
  scanTime : Duration
  columns : List (String × ReadCounts)
  deriving DecidableEq

namespace Profile

def empty : Profile := ⟨0, .zero, []⟩

def addTo (name : String) (counts : ReadCounts) :
    List (String × ReadCounts) → List (String × ReadCounts)
  | [] => [(name, .zero + counts)]
  | (n, c) :: rest =>
    if n = name then (n, c + counts) :: rest else (n, c) :: addTo name counts rest

def observe (p : Profile) : Event → Profile
  | .scanStart rows => { p with rowCount := rows }
  | .blockRead load elapsed =>
    { p with columns := addTo load.column (.ofLoad load elapsed) p.columns }
  | .scanEnd elapsed => { p with scanTime := elapsed }

def ofEvents (events : List Event) : Profile := events.foldl observe empty

def column? (p : Profile) (name : String) : Option ReadCounts := p.columns.lookup name

def totals (p : Profile) : ReadCounts := (p.columns.map Prod.snd).foldl (· + ·) .zero

def ioShare (p : Profile) : Float :=
  if p.scanTime.isZero then 0.0 else 100.0 * p.totals.time.toSeconds / p.scanTime.toSeconds

def throughput (c : ReadCounts) : Float :=
  if c.time.isZero then 0.0 else c.uncompressed.toFloat / c.time.toSeconds / 1048576.0

def oneDecimal (x : Float) : String := Decimal.fixed 1 (.ofFloat x)

def countsText (c : ReadCounts) : String :=
  s!"blocks={c.blocks.toNat} read={c.compressed.toNat}B unpacked={c.uncompressed.toNat}B" ++
    s!" io-time={c.time.microseconds}us"

def totalLine (p : Profile) : String :=
  s!"IO-Profile: rows={p.rowCount} {countsText p.totals}" ++
    s!" scan-time={p.scanTime.microseconds}us io-share={oneDecimal p.ioShare}%\n"

def columnLine (e : String × ReadCounts) : String :=
  s!"IO-Profile:   {e.1} {countsText e.2} throughput={oneDecimal (throughput e.2)}MiB/s\n"

def lines (p : Profile) : List String := p.totalLine :: p.columns.map columnLine

def text (p : Profile) : String := String.join p.lines

end Profile
end Columnar
