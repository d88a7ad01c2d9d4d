/-
The host a client asks for: the SNI of a ClientHello, or the `Host`
header of an HTTP request (`tls_sni.rs`).

Every sum of an offset and a length off the wire is below the length of
the buffer and 2^25, so that `usize` holds it and offsets are plain
`Nat`s. `String::from_utf8` and `from_utf8_lossy` are those of
`Lib.Utf8`. What `to_lowercase` makes of characters past ASCII is left
to the Unicode tables of the toolchain: `Lowercase` has what is known of
them.
-/
import Wrtg.Lib.Utf8
import Wrtg.Rust.Basic
import Wrtg.Rust.IpAddr

namespace Wrtg.TlsSni

open Lib

-- ================================================================= SNI

/-- `u16::from_be_bytes([data[i], data[i + 1]])`. -/
def be16 (data : Bytes) (i : Nat) : Res Nat := do
  let hi ← idx data i
  let lo ← idx data (i + 1)
  .ok (beNat [hi, lo])

/-- The loop of `parse_sni_extension`. -/
def sniNames (data : Bytes) (listLen pos : Nat) : Res (Option Text) :=
  if _h : pos + 3 ≤ 2 + listLen then do
    let nameType ← idx data pos
    let nameLen ← be16 data (pos + 1)
    let pos := pos + 3
    if pos + nameLen > data.length then .ok none
    else if nameType = 0 then do
      let name ← slice data pos (pos + nameLen)
      .ok (Utf8.decode? name)
    else sniNames data listLen (pos + nameLen)
  else .ok none
termination_by 2 + listLen - pos

def parseSniExtension (data : Bytes) : Res (Option Text) :=
  if data.length < 5 then .ok none
  else do
    let listLen ← be16 data 0
    if listLen + 2 > data.length then .ok none
    else sniNames data listLen 2

/-- The loop of `sni_from_client_hello` over the extensions. -/
def sniExtensions (body : Bytes) (extEnd pos : Nat) : Res (Option Text) :=
  if _h : pos + 4 ≤ extEnd then do
    let extType ← be16 body pos
    let extDataLen ← be16 body (pos + 2)
    let pos := pos + 4
    if pos + extDataLen > extEnd then .ok none
    else do
      let host ← if extType = 0 then do
          let data ← slice body pos (pos + extDataLen)
          parseSniExtension data
        else .ok none
      match host with
      | some host => .ok (some host)
      | none => sniExtensions body extEnd (pos + extDataLen)
  else .ok none
termination_by extEnd - pos

/-- `sni_from_client_hello` on the body of the message. -/
def sniFromBody (body : Bytes) : Res (Option Text) :=
  if body.length < 34 then .ok none
  else do
    let pos := 34 -- version(2) + random(32)
    -- the check above lets a body of 34 bytes through
    let sidLen ← idx body pos
    let pos := pos + 1
    if pos + sidLen.toNat > body.length then .ok none
    else
      let pos := pos + sidLen.toNat
      if pos + 2 > body.length then .ok none
      else
        let csLen ← be16 body pos
        let pos := pos + 2
        if pos + csLen > body.length then .ok none
        else
          let pos := pos + csLen
          if pos ≥ body.length then .ok none
          else
            let compLen ← idx body pos
            let pos := pos + 1
            if pos + compLen.toNat > body.length then .ok none
            else
              let pos := pos + compLen.toNat
              if pos + 2 > body.length then .ok none
              else
                let extLen ← be16 body pos
                let pos := pos + 2
                if pos + extLen > body.length then .ok none
                else sniExtensions body (pos + extLen) pos

def sniFromClientHello (payload : Bytes) : Res (Option Text) := do
  if payload.length < 4 then .ok none
  else if (← idx payload 0) ≠ 0x01 then .ok none
  else
    let b1 ← idx payload 1
    let b2 ← idx payload 2
    let b3 ← idx payload 3
    let hsLen := beNat [b1, b2, b3]
    if hsLen + 4 > payload.length then .ok none
    else
      let body ← slice payload 4 (4 + hsLen)
      sniFromBody body

/-- The loop of `parse_tls_client_hello_sni`. -/
def sniRecords (data : Bytes) (off : Nat) : Res (Option Text) :=
  if _h : off + 5 ≤ data.length then do
    if (← idx data off) ≠ 0x16 then sniRecords data (off + 1)
    else if (← idx data (off + 1)) ≠ 0x03 then sniRecords data (off + 1)
    else
      let recLen ← be16 data (off + 3)
      if recLen < 4 ∨ off + 5 + recLen > data.length then .ok none
      else
        let payload ← slice data (off + 5) (off + 5 + recLen)
        match ← sniFromClientHello payload with
        | some host => .ok (some host)
        | none => sniRecords data (off + (5 + recLen))
  else .ok none
termination_by data.length - off

def parseTlsClientHelloSni (data : Bytes) : Res (Option Text) :=
  sniRecords data 0

-- ================================================================ Host

/-- What is searched for in the lower-cased copy. -/
def HOST_LINE : Text := "\r\nhost:".toList

/-- `to_lowercase` of a character, with the text before it and behind
it, as Unicode has it for a final sigma. ASCII goes to ASCII, nothing
vanishes, and nothing else becomes a character of `HOST_LINE`. -/
structure Lowercase where
  lower : Text → Char → Text → Text
  ascii : ∀ before c after, c.toNat < 0x80 →
    lower before c after = Text.toAsciiLowercase [c]
  ne_nil : ∀ before c after, lower before c after ≠ []
  other : ∀ before c after, 0x80 ≤ c.toNat →
    ∀ d ∈ lower before c after, d ∉ HOST_LINE

/-- The lower case of a text between two others. -/
def Lowercase.between (low : Lowercase) (before : Text) : Text → Text → Text
  | [], _ => []
  | c :: t, after =>
      low.lower before c (t ++ after) ++ low.between (before ++ [c]) t after

/-- `str::to_lowercase`. -/
def Lowercase.toLowercase (low : Lowercase) (t : Text) : Text :=
  low.between [] t []

/-- `find`: the byte offset of the first occurrence. -/
def find (pat : Text) : Text → Option Nat
  | [] => if pat.isEmpty then some 0 else none
  | c :: t =>
      if pat.isPrefixOf (c :: t) then some 0
      else (find pat t).map (c.utf8Size + ·)

def MAX : Nat := 4096

def httpHostRaw (low : Lowercase) (data : Bytes) : Res (Option Text) := do
  let data ← if data.length > MAX then slice data 0 MAX else .ok data
  let lower := low.toLowercase (Utf8.lossy data)
  match find HOST_LINE lower with
  | none => .ok none
  | some i =>
      let rest ← sliceFrom data (i + 7)
      let start := (rest.takeWhile isBlank).length
      let j := start + ((rest.drop start).takeWhile (!isLineEnd ·)).length
      if j = start then .ok none
      else
        let value ← slice rest start j
        let host := Text.trim (Utf8.lossy value)
        .ok (if host.isEmpty then none else some host)

/-- `rsplit_once(sep)`. -/
def rsplitOnce (sep : Char) (t : Text) : Option (Text × Text) :=
  (Text.splitOnce sep t.reverse).map fun (a, b) => (b.reverse, a.reverse)

def parseHttpHost (low : Lowercase) (data : Bytes) : Res (Option Text) := do
  match ← httpHostRaw low data with
  | none => .ok none
  | some host =>
      let host := match rsplitOnce ':' host with
        | some (h, port) =>
            if !port.isEmpty && port.all Text.isDigit then h else host
        | none => host
      .ok (if IpAddr.isIpAddr host then none else some host)

def passthroughHost (low : Lowercase) (initial : Bytes) : Res Text := do
  match ← parseTlsClientHelloSni initial with
  | some h => .ok h
  | none => .ok ((← parseHttpHost low initial).getD [])

end Wrtg.TlsSni
