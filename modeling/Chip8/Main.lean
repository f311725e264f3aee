import Chip8.CommandLine.Report

namespace Chip8

def hostSource : IO Random.Source := do
  let bytes ← IO.getRandomBytes 8
  return .ofSeed (bytes.data.foldl (fun n b => 0x100 * n + b.toUInt64) 0)

def runFile (o : CommandLine.Options) : IO UInt32 := do
  let program ← IO.FS.readBinFile o.input
  let report := CommandLine.run o program.data (← hostSource)
  for r in report.log do IO.eprintln r.text
  IO.print report.output
  if let some failure := report.failure then IO.eprintln s!"Error: {failure.report}"
  return report.exitCode

end Chip8

def main (words : List String) : IO UInt32 :=
  match Chip8.CommandLine.Options.parse words with
  | .error e => do
      IO.eprintln s!"error: {e.message}"
      return 1
  | .ok o => Chip8.runFile o
