/-
The self-learned IP → DC map (`dc_learn.rs`): the line format of its two
files, `load`, `lookup`, `learn` and `persist`, and the system their
concurrent calls make up.

`learn` looks at the map twice, under a read lock and then under a
write lock, and hands its line to a blocking thread that appends it
some time later; `load` holds the write lock throughout. So the atomic
steps are the two halves of `learn`, the append, and `load`. A file is
missing, text, or something `read_to_string` refuses.

The append is best-effort: where the file does not open, or a write to
it fails, `persist` logs a warning and the entry stays in the map only.
-/
import Wrtg.Lib.Replay
import Wrtg.Mtproto

namespace Wrtg.DcLearn

open Lib Mtproto

abbrev LearnMap := AList fun _ : Text => Int × Bool

-- ============================================================== files

/-- Parse one `IP DC [media]` line; `none` for blanks, comments and
garbage. -/
def parseLine (line : Text) : Option (Text × Int × Bool) :=
  let line := Text.trim (Text.before '#' line)
  if line.isEmpty then none
  else match Text.splitWhitespace line with
    | ip :: dc :: it =>
        if (Text.parseIpv4Addr ip).isNone then none
        else (Text.parseI32 dc).bind fun dc =>
          if validDc dc then
            let media := match it.head?.map Text.toAsciiLowercase with
              | some t => t == "media".toList || t == "1".toList
                  || t == "true".toList || t == "m".toList
              | none => false
            some (ip, dc, media)
          else none
    | _ => none

/-- The line `persist` writes, without its line feed. -/
def persistLine (ip : Text) (dc : Int) (isMedia : Bool) : Text :=
  let tag := if isMedia then " media".toList else []
  ip ++ (' ' :: (Text.showInt dc ++ tag))

/-- How the append of `persist` goes: whole, not opened, or cut short
by a write error behind `n` characters of the line. -/
inductive Appended where
  | written
  | openFailed
  | writeFailed (n : Nat)
  deriving DecidableEq, Repr

/-- Text written to a file opened for appending, which creates it. -/
def appendText : FileContent → Text → FileContent
  | .missing, written => .text written
  | .text t, written => .text (t ++ written)
  | .binary, _ => .binary

/-- The append of `persist`, opened with `create`: `writeln!`, as far as
it gets. -/
def appendLine (f : FileContent) (line : Text) : Appended → FileContent
  | .written => appendText f (line ++ ['\n'])
  | .openFailed => f
  | .writeFailed n => appendText f (line.take n)

-- ============================================================ the map

/-- What `load` does with one line. -/
def loadLine (map : LearnMap) (line : Text) : LearnMap :=
  match parseLine line with
  | some (ip, dc, media) => map.insert ip (dc, media)
  | none => map

/-- `load`: the learned file, then the admin file on top. -/
def load (learned manual : FileContent) : LearnMap :=
  [learned, manual].foldl (fun map f => f.lines.foldl loadLine map) ∅

def lookup (map : LearnMap) (ip : Text) : Option (Int × Bool) :=
  AList.lookup ip map

/-- The arguments of a `learn` call. -/
structure Learning where
  ip : Text
  dc : Int
  isMedia : Bool
  deriving DecidableEq, Repr

/-- `learn` up to its write lock: does it go on? -/
def learnCheck (map : LearnMap) (l : Learning) : Bool :=
  if l.ip.isEmpty || !validDc l.dc || (dcFromHardcoded l.ip).isSome then false
  else (lookup map l.ip).isNone

/-- `learn` under its write lock: the map, and whether the entry is
new. -/
def learnInsert (map : LearnMap) (l : Learning) : LearnMap × Bool :=
  if (lookup map l.ip).isSome then (map, false)
  else (map.insert l.ip (l.dc, l.isMedia), true)

-- ========================================================= the system

/-- The map, the `learn` calls between their two locks, the appends not
yet run, and the two files. `history` lists the calls that took effect,
in order. -/
structure State where
  map : LearnMap
  checked : List Learning
  pending : List Learning
  file : FileContent
  admin : FileContent
  history : List Learning
  deriving DecidableEq

/-- The state after the load at startup. -/
def start (file admin : FileContent) : State where
  map := load file admin
  checked := []
  pending := []
  file := file
  admin := admin
  history := []

inductive Action where
  | learn (l : Learning)
  | insert (i : Nat)
  | append (i : Nat) (how : Appended)
  | load
  deriving DecidableEq, Repr

/-- One atomic step. The callers of `learn` pass the text of an IPv4
address. -/
def apply : Action → State → Option State
  | .learn l, s =>
      if (Text.parseIpv4Addr l.ip).isNone then none
      else if learnCheck s.map l then
        some { s with checked := s.checked ++ [l] }
      else some s
  | .insert i, s =>
      match s.checked[i]? with
      | none => none
      | some l =>
          let (map, isNew) := learnInsert s.map l
          let s := { s with map, checked := s.checked.eraseIdx i }
          if isNew then
            some { s with pending := s.pending ++ [l]
                          history := s.history ++ [l] }
          else some s
  | .append i how, s =>
      match s.pending[i]? with
      | none => none
      | some l =>
          some { s with
            file := appendLine s.file (persistLine l.ip l.dc l.isMedia) how
            pending := s.pending.eraseIdx i }
  | .load, s => some { s with map := DcLearn.load s.file s.admin }

end Wrtg.DcLearn
