/-
The answer of a DNS-over-HTTPS server (`cf_proxy_doh.rs`): the addresses
that are picked out of the body, and the one that is dialled.

The body is searched as text: nothing here reads JSON.
-/
import Wrtg.Lib.Utf8
import Wrtg.Rust.Basic
import Wrtg.Rust.IpAddr

namespace Wrtg.Doh

open Text

/-- The loop of `pick_preferred_ip` over the candidates left. -/
def pickGo (fallbackV6 : Option Text) : List Text → Option Text
  | [] => fallbackV6
  | c :: candidates =>
      match IpAddr.parseIpAddr (trim c) with
      | some (.v4 addr) => some (IpAddr.showIpAddr (.v4 addr))
      | some (.v6 addr) =>
          if fallbackV6.isNone then
            pickGo (some (IpAddr.showIpAddr (.v6 addr))) candidates
          else pickGo fallbackV6 candidates
      | none => pickGo fallbackV6 candidates

def pickPreferredIp (candidates : List Text) : Option Text :=
  pickGo none candidates

def typeMark : Text := "\"type\":1".toList

/-- Does this answer record carry DNS type A (value exactly 1)? -/
def recordIsTypeA (rec : Text) : Bool :=
  match _h : splitOnceStr typeMark rec with
  | none => false
  | some (_, after) =>
      -- "type":15 goes on with a digit: keep scanning
      if after.head?.any isDigit then recordIsTypeA after else true
termination_by rec.length
decreasing_by
  have heq := congrArg List.length (eq_of_splitOnceStr _h)
  rw [List.length_append, List.length_append] at heq
  have hpos : 0 < typeMark.length := by decide
  omega

def dataMark : Text := "\"data\":\"".toList

/-- `split(pat).nth(1)`: from behind the first `pat` to the next one, or
to the end. -/
def secondPiece (pat : Text) (t : Text) : Option Text :=
  (splitOnceStr pat t).map fun (_, after) =>
    match splitOnceStr pat after with
    | some (piece, _) => piece
    | none => after

/-- What a round of the loop pushes for a record. -/
def recordAddress (rec : Text) : Option Text :=
  if recordIsTypeA rec then
    match secondPiece dataMark rec with
    | some data =>
        let ip := trim (before '"' data)
        if ip.isEmpty then none else some ip
    | none => none
  else none

def answerMark : Text := "\"Answer\"".toList

/-- What stands behind the bracket that opens the array. -/
def answerArray (text : Text) : Option Text :=
  (splitOnceStr answerMark text).bind fun (_, after) =>
    (splitOnce '[' after).map Prod.snd

/-- The records of the array, up to its first closing bracket. -/
def readArray (array : Text) : List Text :=
  let answer := before ']' array
  ((splitOn (· == '{') answer).drop 1).filterMap recordAddress

def parseDohARecords (body : Bytes) : List Text :=
  let text := Lib.Utf8.lossy body
  match answerArray text with
  | none => []
  | some array => readArray array

end Wrtg.Doh
