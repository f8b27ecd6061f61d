import Chip8.CommandLine.Headless
/-!
The command line program: reads the program to run, runs it at the pace of its frames and prints the screen.
-/

namespace Chip8.CommandLine

def usageText : String :=
  "usage: chip-station [--ipf N] [--frames N] [--seed N] [--shift-in-place] [--start-paused] ROM\n"

/-- Runs a frame at a time until a final one, and sleeps through what is left of each. -/
partial def runPaced (budget : Nat) (e : Headless) : IO Report := do
  let begun ← IO.monoNanosNow
  match e.advance with
  | .inl report => return report
  | .inr e =>
    let spent := (← IO.monoNanosNow) - begun
    IO.sleep (UInt32.ofNat ((budget - spent) / 1000000))
    runPaced budget e

def systemKey : IO ChaCha.Key := do
  let bytes ← IO.getRandomBytes 32
  let byte (i : Nat) : UInt32 := (bytes[i]?.getD 0).toUInt32
  return Vector.ofFn fun i =>
    byte (4 * i) + byte (4 * i + 1) * 256 + byte (4 * i + 2) * 65536 + byte (4 * i + 3) * 16777216

def fail (reason : String) : IO UInt32 := do
  IO.eprintln s!"Error: {reason}"
  return 1

def runProgram (options : Options) : IO UInt32 := do
  let rom ← try
    pure (Except.ok (← IO.FS.readBinFile options.rom))
  catch error => pure (Except.error (toString error))
  match rom with
  | .error reason => fail reason
  | .ok rom =>
    match options.start rom.toList (← systemKey) with
    | .error error => fail error.diagnostic
    | .ok e =>
      let report ← match options.frames with
        | some n => pure (e.reportAfter n)
        | none => runPaced options.config.frameBudget e
      match report with
      | .ok text =>
        IO.print text
        return 0
      | .error error => fail error.diagnostic

def serve (words : List String) : IO UInt32 := do
  match parse words with
  | .run options => runProgram options
  | .showVersion =>
    IO.print versionText
    return 0
  | .showHelp =>
    IO.print usageText
    return 0
  | .misuse =>
    IO.eprint usageText
    return 1

end Chip8.CommandLine

def main (words : List String) : IO UInt32 := Chip8.CommandLine.serve words
