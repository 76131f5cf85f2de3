import CssSelector.CommandLine.Report

/-!
The command line program.
-/

open CssSelector

def main (arguments : List String) : IO UInt32 := do
  let outcome := CommandLine.execute arguments
  (← IO.getStdout).putStr outcome.out
  (← IO.getStderr).putStr outcome.err
  return UInt32.ofNat outcome.exit
