import Columnar.Scan.Histogram
import Columnar.Scan.Timing

/-! The report of one pass: on request one line for each bucket, in key order, then the number of
buckets with the count under key 0, then the two times. -/

namespace Columnar.Report

def bucketLine (e : Int × Nat) : String := s!"{e.1},{e.2}\n"

def foundLine (h : Histogram) : String := s!"found {h.size} buckets with cnt[0] {h.count 0}\n"

def timeLines (t : Timing) : List String :=
  [s!"Runtime-Initialization: {t.initialization.microseconds}us\n",
    s!"Runtime-Analysis: {t.analysis.microseconds}us\n"]

def lines (showBuckets : Bool) (h : Histogram) (t : Timing) : List String :=
  (if showBuckets then h.counts.map bucketLine else []) ++ foundLine h :: timeLines t

def text (showBuckets : Bool) (h : Histogram) (t : Timing) : String :=
  String.join (lines showBuckets h t)

end Columnar.Report
