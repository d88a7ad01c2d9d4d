/-
DNS-JSON responses as they are written, and the addresses they answer
with.

What stands in front of the `Answer` key and behind its array is any
text: whatever other members a response has, in whatever order, are
there. A record is written without white space in it.
-/
import Wrtg.Lib.Json
import Wrtg.Rust.Text

namespace Wrtg.DnsJson

open Lib.Json

-- ============================================================= records

def number (n : Nat) : Text := Nat.toDigits 10 n

/-- A member of a record other than its type and its data. -/
inductive Other where
  | name (s : List Piece)
  | ttl (n : Nat)

def Other.member : Other → Member
  | .name s => { key := "name".toList, value := literal s }
  | .ttl n => { key := "TTL".toList, value := number n }

/-- A record: its type and its data, in either order, and the other
members in front of them, between them and behind them. -/
structure Record where
  type : Nat
  data : List Piece
  dataFirst : Bool
  front : List Other
  mid : List Other
  back : List Other

def Record.typeMember (r : Record) : Member :=
  { key := "type".toList, value := number r.type }

def Record.dataMember (r : Record) : Member :=
  { key := "data".toList, value := literal r.data }

def Record.members (r : Record) : List Member :=
  let (first, second) :=
    if r.dataFirst then (r.dataMember, r.typeMember)
    else (r.typeMember, r.dataMember)
  r.front.map Other.member
    ++ first :: (r.mid.map Other.member
      ++ second :: r.back.map Other.member)

def Record.text (r : Record) : Text := '{' :: (object r.members ++ ['}'])

-- =========================================================== responses

/-- Between records: a comma, and white space. -/
def isGap (c : Char) : Bool :=
  c == ',' || c == ' ' || c == '\n' || c == '\r' || c == '\t'

abbrev Gap := { t : Text // t.all isGap = true }

/-- The `Answer` member: the white space around its colon and behind the
bracket, and each record with what stands behind it. -/
structure Answer where
  space : Gap
  space' : Gap
  opened : Gap
  records : List (Record × Gap)

inductive Response where
  | without (text : Text)
  | withAnswer (front : Text) (answer : Answer) (back : Text)

/-- Up to the bracket of the array, or all of a response that has none. -/
def Response.head : Response → Text
  | .without text => text
  | .withAnswer front a _ =>
      front ++ ("\"Answer\"".toList ++ (a.space.1 ++ ':' :: a.space'.1))

def recordsText (rs : List (Record × Gap)) : Text :=
  rs.flatMap fun r => r.1.text ++ r.2.1

def Response.text (r : Response) : Text :=
  match r with
  | .without text => text
  | .withAnswer _ a back =>
      r.head ++ '[' :: (a.opened.1 ++ (recordsText a.records ++ ']' :: back))

def Response.records : Response → List Record
  | .without _ => []
  | .withAnswer _ a _ => a.records.map Prod.fst

/-- The data of the records of type A. -/
def addresses (rs : List Record) : List Text :=
  (rs.filter fun r => r.type = 1).map fun r => value r.data

end Wrtg.DnsJson
