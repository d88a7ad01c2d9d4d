/-
The settings page's writer of the config file, `set_key` of the LuCI
template `config.ut`, and the file's reader at service start,
`load_config` of `lib.sh`. The other reader, `import_config_file`, is in
`Wrtg.Config`.

The page is written in ucode. Its strings are texts here; to a regular
expression they are C strings, so `split` and `replace` see what stands
before the first NUL.
-/
import Mathlib.Data.List.DropRight
import Wrtg.Config
import Wrtg.Lib.Shell

namespace Wrtg.Settings

open Lib

-- ============================================================== ucode

/-- A ucode string as its regular expressions see it. -/
def cString (t : Text) : Text := t.takeWhile (· ≠ '\x00')

/-- `split(t, /sep/)`. -/
def split (sep : Char) (t : Text) : List Text :=
  Text.splitOn (· == sep) (cString t)

/-- `replace(t, /[p]/g, new)`. -/
def replace (p : Char → Bool) (new t : Text) : Text :=
  (cString t).flatMap fun c => if p c then new else [c]

/-- The characters that `trim` takes off. -/
def isTrimmed (c : Char) : Bool := " \t\r\n".toList.contains c

def trim (t : Text) : Text := (t.dropWhile isTrimmed).rdropWhile isTrimmed

-- ========================================================= the writer

def cfgEscape (val : Text) : Text :=
  let val := replace (fun c => c == '\r' || c == '\n') [] val
  let val := replace (· == '\\') "\\\\".toList val
  replace (· == '"') "\\\"".toList val

/-- The line that gives a key a quoted value. -/
def quotedLine (key raw : Text) : Text :=
  key ++ '=' :: '"' :: (raw ++ ['"'])

def setKey (text key val : Text) : Text :=
  let pfx := key ++ ['=']
  let has := fun line => (trim line).take pfx.length == pfx
  let lines := split '\n' text
  let out := lines.map fun line =>
    if has line then quotedLine key (cfgEscape val) else line
  let joined := ['\n'].intercalate out
  if lines.any has then joined
  else trim joined ++ '\n' :: (quotedLine key (cfgEscape val) ++ ['\n'])

-- ========================================================= the reader

/-- `tr -d '\r'`. -/
def deleteCr (t : Text) : Text := t.filter (· ≠ '\r')

/-- The sourcing in `load_config`, from the defaults it has set. -/
def loadConfig (sh : Shell) (defaults : Shell.Env) (text : Text) :
    Option Shell.Env :=
  sh.source defaults (deleteCr text)

end Wrtg.Settings
