/-
The CIDR list of the shell side (`lib.sh`): the awk filter, the list that
is loaded, and the elements `setup-nft.sh` puts into its batch.

A text has no NUL, as awk and the shell want it. A field that the
filter's pattern lets through is a string of digits, which awk compares
by its value; a number too long for a double is above both bounds there
too.
-/
import Wrtg.Rust.Text

namespace Wrtg.Cidr

open Text

-- =============================================================== lines

/-- The lines of a text, the last one also without its newline. -/
def records (t : Text) : List Text :=
  let pieces := splitOn (· == '\n') t
  if pieces.getLast? = some [] then pieces.dropLast else pieces

/-- Lines as they are printed. -/
def unlines (ls : List Text) : Text := ls.flatMap (· ++ ['\n'])

-- ========================================================== the filter

/-- The field separator `[./]`. -/
def isSep (c : Char) : Bool := c == '.' || c == '/'

/-- The fields of a record; an empty one has none. -/
def fields (line : Text) : List Text :=
  if line.isEmpty then [] else splitOn isSep line

/-- The field matches `^[0-9]+$` and is not above the bound. -/
def inRange (bound : Nat) (field : Text) : Bool :=
  match parseDigits field with
  | some n => decide (n ≤ bound)
  | none => false

def validRecord (line : Text) : Bool :=
  match fields line with
  | [a, b, c, d, p] => [a, b, c, d].all (inRange 255) && inRange 32 p
  | _ => false

def validIpv4Cidrs (input : Text) : Text :=
  unlines ((records input).filter validRecord)

-- ============================================================ the list

/-- The lines of the here-document. -/
def defaultNetworks : List Text :=
  ["91.108.4.0/22".toList, "91.108.8.0/22".toList, "91.108.12.0/22".toList,
    "91.108.16.0/22".toList, "91.108.20.0/22".toList,
    "91.108.56.0/22".toList, "91.105.192.0/23".toList,
    "149.154.160.0/20".toList, "149.154.176.0/20".toList,
    "185.76.151.0/24".toList]

def defaultCidrs : Text := unlines defaultNetworks

/-- `$(...)`: an output without the newlines at its end. -/
def captured (output : Text) : Text := output.rdropWhile (· == '\n')

/-- `load_cidrs`; the file is `none` if there is none. -/
def loadCidrs (cidrFile : Option Text) : Text :=
  match cidrFile with
  | none => defaultCidrs
  | some content =>
      if content.isEmpty then defaultCidrs
      else
        let validCidrs := captured (validIpv4Cidrs content)
        if validCidrs.isEmpty then defaultCidrs else validCidrs ++ ['\n']

def isBlank (c : Char) : Bool := c == ' ' || c == '\t'

/-- What `while read -r cidr` reads of an output: its lines, without the
blanks around them. What stands behind the last newline is not read. -/
def readLines (output : Text) : List Text :=
  (splitOn (· == '\n') output).dropLast.map fun line =>
    (line.dropWhile isBlank).rdropWhile isBlank

/-- `sed 's/, $//'` on a line. -/
def dropLastComma (line : Text) : Text :=
  if ", ".toList.isSuffixOf line then line.take (line.length - 2) else line

/-- The elements of the nft set, as the batch has them. -/
def nftCidrInline (cidrFile : Option Text) : Text :=
  dropLastComma (((readLines (loadCidrs cidrFile)).filter fun cidr =>
    !cidr.isEmpty).flatMap (· ++ ", ".toList))

end Wrtg.Cidr
