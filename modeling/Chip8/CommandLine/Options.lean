/-!
The command line. Words are read from left to right. An unknown flag or a second program is refused on the
spot, while values and repetitions are looked at only at the end, so that a later request for help or for the
version is answered. An option that has a standard value stands for it if its value is left out; the others
need theirs.
-/

namespace Chip8.CommandLine

structure Options where
  ipf : Nat
  frames : Option Nat := none
  seed : Option UInt64 := none
  shiftInPlace : Bool := false
  startPaused : Bool := false
  rom : String
  deriving DecidableEq, Repr

inductive Request where
  | run (options : Options)
  | showVersion
  | showHelp
  | misuse
  deriving DecidableEq, Repr

inductive Setting where
  | ipf
  | frames
  | seed
  deriving DecidableEq, Repr

/-- The value that an option has if the command line gives none. -/
def Setting.standard : Setting → Option Nat
  | .ipf => some 11
  | .frames | .seed => none

/-- What stands on the command line, as far as it has been read. Each use of an option has its value, or none
if the command line does not give one. -/
structure Reading where
  settings : List (Setting × Option String) := []
  shiftInPlace : Nat := 0
  startPaused : Nat := 0
  rom : Option String := none

/-- A number below `bound`: digits, and maybe a plus sign in front of them. -/
def number? (bound : Nat) (text : String) : Option Nat :=
  let digits := match text.toList with
    | '+' :: rest => rest
    | all => all
  if digits.isEmpty || !digits.all Char.isDigit then none
  else
    let n := digits.foldl (fun n c => 10 * n + (c.toNat - '0'.toNat)) 0
    if n < bound then some n else none

/-- Whether a word is a flag and not a value. A single dash is a value. -/
def isFlag (word : List Char) : Bool :=
  match word with
  | '-' :: _ :: _ => true
  | _ => false

/-- The name and the value in a flag such as `--frames=3`. -/
def splitFlag (word : List Char) : String × Option String :=
  let body := word.dropWhile (· == '-')
  let name := String.ofList (body.takeWhile (· != '='))
  match body.dropWhile (· != '=') with
  | [] => (name, none)
  | value => (name, some (String.ofList (value.dropWhile (· == '='))))

def setting? : String → Option Setting
  | "ipf" => some .ipf
  | "frames" => some .frames
  | "seed" => some .seed
  | _ => none

namespace Reading

def note (r : Reading) (s : Setting) (value : Option String) : Reading :=
  { r with settings := r.settings ++ [(s, value)] }

/-- The number that an option stands for, if it stands for any. There is no reading it at all if it is used
twice, without a value that it needs, or with anything but a number below `bound`. -/
def value (r : Reading) (s : Setting) (bound : Nat) : Option (Option Nat) :=
  match r.settings.filter (·.1 == s) with
  | [] => some s.standard
  | [(_, none)] => s.standard.map some
  | [(_, some text)] => (number? bound text).map some
  | _ => none

def options? (r : Reading) : Option Options := do
  let ipf ← (r.value .ipf UInt32.size).join
  let frames ← r.value .frames UInt64.size
  let seed ← r.value .seed UInt64.size
  let rom ← r.rom
  guard (r.shiftInPlace ≤ 1 ∧ r.startPaused ≤ 1)
  return {
    ipf := ipf
    frames := frames
    seed := seed.map UInt64.ofNat
    shiftInPlace := r.shiftInPlace == 1
    startPaused := r.startPaused == 1
    rom := rom }

def finish (r : Reading) : Request := (r.options?.map .run).getD .misuse

/-- Reads the words behind `--`: only the program. -/
def readRest (r : Reading) : List String → Request
  | [] => r.finish
  | word :: words =>
    match r.rom with
    | none => { r with rom := some word }.readRest words
    | some _ => .misuse

/-- Reads words, the first of which may be the value of the option `waiting`. -/
def read (r : Reading) (waiting : Option Setting) : List String → Request
  | [] => (waiting.elim r (r.note · none)).finish
  | word :: words =>
    if isFlag word.toList then
      let r := waiting.elim r (r.note · none)
      if word = "--" then r.readRest words
      else if word.startsWith "--" then
        match splitFlag word.toList with
        | ("version", _) => .showVersion
        | ("help", _) => .showHelp
        | ("shift-in-place", _) =>
          { r with shiftInPlace := r.shiftInPlace + 1 }.read none words
        | ("start-paused", _) => { r with startPaused := r.startPaused + 1 }.read none words
        | (name, value) =>
          match setting? name, value with
          | some s, some value => (r.note s (some value)).read none words
          | some s, none => r.read (some s) words
          | none, _ => .misuse
      else
        match word.toList[1]? with
        | some 'V' => .showVersion
        | some 'h' => .showHelp
        | _ => .misuse
    else
      match waiting with
      | some s => (r.note s (some word)).read none words
      | none =>
        match r.rom with
        | none => { r with rom := some word }.read none words
        | some _ => .misuse

end Reading

def parse (words : List String) : Request := ({} : Reading).read none words

end Chip8.CommandLine
