/-
The `Host` header of HTTP to the front (`media.rs`).

Media CDN addresses are reached at the local front under the name of
their datacenter, so the header the client sent is replaced. The name is
only written, and is the list of its bytes; offsets are below the length
of the buffer. `dc_from_orig_dst` is `mtproto.rs`.
-/
import Wrtg.DcLearn
import Wrtg.Lib.Search
import Wrtg.Lib.Utf8
import Wrtg.Mtproto
import Wrtg.Rust.Basic

namespace Wrtg.Media

open DcLearn Lib Mtproto

-- ========================================================== the host

def dcFromOrigDst (learned : LearnMap) (ip : Text) : Option (Int × Bool) :=
  (dcFromHardcoded ip).or (lookup learned ip)

def isBlockedMediaCdn (ip : Text) : Bool :=
  ((dcAltIps.lookup ip).map (·.isMedia)).getD false

def mediaHttpHost (dc : Int) : Text :=
  let dc := if dc = 203 then 2 else dc
  "kws".toList ++ Text.showInt dc ++ "-1.web.telegram.org".toList

def regularHttpHost (dc : Int) : Text :=
  let dc := if dc = 203 then 2 else dc
  "kws".toList ++ Text.showInt dc ++ ".web.telegram.org".toList

def httpFrontHost (learned : LearnMap) (origIp : Text) (origPort : Nat) :
    Text :=
  if origPort ≠ 80 then []
  else match dcFromOrigDst learned origIp with
    | some (dc, isMedia) =>
        if isMedia then mediaHttpHost dc else regularHttpHost dc
    | none => []

def needsHttpHostRewrite (learned : LearnMap) (origIp : Text) : Bool :=
  if isBlockedMediaCdn origIp then true
  else match dcFromOrigDst learned origIp with
    | some (_, isMedia) => isMedia
    | none => false

-- ======================================================== the header

/-- `u8::to_ascii_lowercase`. -/
def toAsciiLowercase (b : UInt8) : UInt8 :=
  if 0x41 ≤ b ∧ b ≤ 0x5A then b + 0x20 else b

/-- `host:`, behind nothing, a line feed, and a line break. -/
def HOST : Bytes := [0x68, 0x6F, 0x73, 0x74, 0x3A]

def LF_HOST : Bytes := 0x0A :: HOST

def CRLF_HOST : Bytes := 0x0D :: LF_HOST

/-- Where the scan has the line start. -/
def lineStart (lower : Bytes) : Option Nat :=
  match position CRLF_HOST lower with
  | some i => some (i + 2)
  | none => (position LF_HOST lower).map (· + 1)

def replaceHttpHost (data newHost : Bytes) : Res (Option Bytes) := do
  let lower := data.map toAsciiLowercase
  match lineStart lower with
  | none => .ok none
  | some start =>
      let rest ← sliceFrom data start
      match rest.findIdx? (· == 0x3A) with
      | none => .ok none
      | some colon =>
          let valStart := colon + 1
            + ((rest.drop (colon + 1)).takeWhile isBlank).length
          let lineEnd := valStart
            + ((rest.drop valStart).takeWhile (!isLineEnd ·)).length
          let head ← slice data 0 start
          let name ← slice rest 0 (colon + 1)
          let tail ← sliceFrom rest lineEnd
          .ok (some (head ++ name ++ 0x20 :: newHost ++ tail))

def rewriteHttpFrontHost (learned : LearnMap) (data : Bytes) (origIp : Text)
    (origPort : Nat) : Res Bytes := do
  let host := httpFrontHost learned origIp origPort
  if host.isEmpty then .ok data
  else .ok ((← replaceHttpHost data (Utf8.encode host)).getD data)

def httpFrontPassthroughPayload (learned : LearnMap) (data : Bytes)
    (origIp : Text) (origPort : Nat) : Res Bytes :=
  if origPort ≠ 80 ∨ ¬ needsHttpHostRewrite learned origIp then .ok data
  else rewriteHttpFrontHost learned data origIp origPort

-- ======================================================== the answer

/-- The status code of an HTTP response head, if the bytes are one. -/
def httpStatusCode (chunk : Bytes) : Option Nat := do
  let head ← Utf8.decode? chunk
  let line ← (Text.lines head).head?
  let rest ← if "HTTP/".toList.isPrefixOf line then some (line.drop 5)
    else none
  let word ← (Text.splitWhitespace rest)[1]?
  Text.parseU16 word

def mediaHttpRejected : Option Nat → Bool
  | some s => !decide (200 ≤ s ∧ s < 300)
  | none => false

/-- Whether `blind_relay` tries a CF Worker first. -/
def shouldTryWorkerPassthrough (origPort : Nat) : Bool := origPort != 80

end Wrtg.Media
