/-
What a dial of the CF Worker makes the Worker do (`ws.rs`,
`openwrt/cf-worker.js`).

# The request

The request is a head written from its fields (`upgradeRequest_eq`), so
no header of the caller reaches outside its own line
(`request_reads_back`).

# The platform

What the script is handed of a head is the platform's affair. It is
relied on for what the URL and Fetch standards say of targets that need
no escape and of headers that come once or not at all (`Platform`); one
that does just that is `urlPlatform`.

# The dial

So what the script is handed of a tunnel's request is known field by
field, and with `fetch_iff` so is what it connects to (`worker_admits`).
-/
import Wrtg.Proofs.WorkerScript
import Wrtg.WorkerDial

namespace Wrtg.WorkerDial

open Lib Lib.Ecma WsUpgrade WorkerScript

-- ============================================================ request

/-- The headers every request has. -/
def fixedFields (host wsKey : Text) : List Http.Field :=
  [("Host".toList, host), ("Upgrade".toList, "websocket".toList),
    ("Connection".toList, "Upgrade".toList),
    ("Sec-WebSocket-Key".toList, wsKey),
    ("Sec-WebSocket-Version".toList, "13".toList),
    ("Sec-WebSocket-Protocol".toList, "binary".toList)]

/-- The first line. -/
def requestLine (path : Text) : Text :=
  "GET ".toList ++ path ++ " HTTP/1.1".toList

/-- The head a request is written from. -/
def requestHead (path host wsKey : Text) (extra : List Http.Field) :
    Http.Head where
  start := requestLine path
  fields := fixedFields host wsKey ++ extra

/-- The two line ends are one. -/
theorem crlf_eq : WsUpgrade.crlf = Http.crlf := rfl

/-- A header is written as a field is. -/
theorem headerLine_eq (name value : Text) :
    headerLine name value = Http.Field.line (name, value) := by
  simp [headerLine, Http.Field.line, WsUpgrade.crlf, Http.crlf]

theorem oneLine_iff (t : Text) :
    Http.OneLine t ↔ t.any (fun c => c == '\r' || c == '\n') = false := by
  unfold Http.OneLine
  rw [List.any_eq_false]
  constructor
  · intro h c hc
    simp only [Bool.or_eq_true, beq_iff_eq, not_or]
    exact ⟨fun he => h.1 (he ▸ hc), fun he => h.2 (he ▸ hc)⟩
  · intro h
    exact ⟨fun hc => h _ hc (by decide), fun hc => h _ hc (by decide)⟩

/-- The check of a caller's header is that it stays in its line. -/
theorem headerAllowed_iff (h : Http.Field) :
    headerAllowed h = true ↔ h.Clean := by
  have hname : h.1.any (fun c => c == '\r' || c == '\n' || c == ':') = false
      ↔ Http.OneLine h.1 ∧ ':' ∉ h.1 := by
    rw [oneLine_iff, List.any_eq_false, List.any_eq_false]
    constructor
    · intro hall
      refine ⟨fun c hc => ?_, fun hc => hall _ hc (by decide)⟩
      intro hend
      exact hall c hc (by rw [hend]; rfl)
    · rintro ⟨hline, hcolon⟩ c hc hbad
      rw [Bool.or_eq_true] at hbad
      rcases hbad with hbad | hbad
      · exact hline c hc hbad
      · exact hcolon (beq_iff_eq.mp hbad ▸ hc)
  unfold headerAllowed
  rw [Bool.and_eq_true, Bool.not_eq_true', Bool.not_eq_true', hname,
    ← oneLine_iff]
  constructor
  · rintro ⟨⟨hline, hcolon⟩, hvalue⟩
    exact ⟨hline, hcolon, hvalue⟩
  · rintro ⟨hline, hcolon, hvalue⟩
    exact ⟨⟨hline, hcolon⟩, hvalue⟩

/-- Headers are pushed as long as they are allowed. -/
theorem pushHeaders_eq (extra : List Http.Field) (req : Text) :
    pushHeaders extra req
      = if extra.all headerAllowed then
          some (req ++ extra.flatMap Http.Field.line)
        else none := by
  induction extra generalizing req with
  | nil => simp [pushHeaders]
  | cons h extra ih =>
      rw [pushHeaders, List.all_cons]
      cases headerAllowed h with
      | false => rfl
      | true =>
          rw [if_pos rfl, ih, Bool.true_and, headerLine_eq, List.flatMap_cons,
            List.append_assoc]

/-- The request is its head, written, unless a header is refused. -/
theorem upgradeRequest_eq (path host wsKey : Text)
    (extra : List Http.Field) :
    upgradeRequest path host wsKey extra
      = if extra.all headerAllowed then
          some (requestHead path host wsKey extra).write
        else none := by
  have hwrite : fixedRequest path host wsKey ++ extra.flatMap Http.Field.line
      ++ Http.crlf = (requestHead path host wsKey extra).write := by
    unfold requestHead requestLine fixedFields fixedRequest Http.Head.write
    simp only [headerLine_eq, crlf_eq, List.flatMap_append,
      List.flatMap_cons, List.flatMap_nil, List.append_assoc,
      List.nil_append]
  unfold upgradeRequest
  rw [pushHeaders_eq, crlf_eq, ← hwrite]
  by_cases hall : extra.all headerAllowed = true
  · rw [if_pos hall, if_pos hall, Option.map_some]
  · rw [if_neg hall, if_neg hall, Option.map_none]

theorem oneLine_requestLine {path : Text} (h : Http.OneLine path) :
    Http.OneLine (requestLine path) := by
  have hget : Http.OneLine "GET ".toList := (oneLine_iff _).mpr rfl
  have hversion : Http.OneLine " HTTP/1.1".toList := (oneLine_iff _).mpr rfl
  exact (hget.append h).append hversion

theorem headerAllowed_name {name : Text} (hname : headerAllowed (name, []))
    {value : Text} (hvalue : Http.OneLine value) :
    headerAllowed (name, value) = true := by
  have hclean := (headerAllowed_iff _).mp hname
  exact (headerAllowed_iff _).mpr ⟨hclean.name, hclean.colon, hvalue⟩

/-- The fixed headers pass the check they are spared. -/
theorem allowed_fixedFields {host wsKey : Text} (hhost : Http.OneLine host)
    (hkey : Http.OneLine wsKey) :
    (fixedFields host wsKey).all headerAllowed = true := by
  have hfixed : (fixedFields [] []).all headerAllowed = true := by
    decide +kernel
  unfold fixedFields at hfixed ⊢
  simp only [List.all_cons, List.all_nil, Bool.and_true,
    Bool.and_eq_true] at hfixed ⊢
  obtain ⟨hh, hu, hc, hk, hrest⟩ := hfixed
  exact ⟨headerAllowed_name hh hhost, hu, hc, headerAllowed_name hk hkey, hrest⟩

/-- A request is refused iff a header would break out of its line; every
other one is read as the headers that were asked for and no others,
however the server ends lines and whatever is sent behind it. -/
theorem request_reads_back (path host wsKey : Text)
    (extra : List Http.Field) (hpath : Http.OneLine path)
    (hhost : Http.OneLine host) (hkey : Http.OneLine wsKey) :
    (upgradeRequest path host wsKey extra = none
      ↔ ∃ f ∈ extra, ¬ f.Clean)
    ∧ ∀ req rest, upgradeRequest path host wsKey extra = some req →
      Http.read (req ++ rest)
        = some ({ start := requestLine path
                  fields := (fixedFields host wsKey ++ extra).map
                    Http.Field.trimmed }, rest) := by
  rw [upgradeRequest_eq]
  constructor
  · constructor
    · intro h
      split at h
      · cases h
      next hall =>
      simp only [List.all_eq_true, not_forall] at hall
      obtain ⟨f, hf, hbad⟩ := hall
      exact ⟨f, hf, fun hclean => hbad ((headerAllowed_iff f).mpr hclean)⟩
    · rintro ⟨f, hf, hbad⟩
      refine if_neg fun hall => hbad ?_
      exact (headerAllowed_iff f).mp (List.all_eq_true.mp hall f hf)
  · intro req rest h
    split at h
    · next hall =>
      cases h
      refine Http.read_write (oneLine_requestLine hpath) ?_ rest
      intro f hf
      rcases List.mem_append.mp hf with hf | hf
      · exact (headerAllowed_iff f).mp
          (List.all_eq_true.mp (allowed_fixedFields hhost hkey) f hf)
      · exact (headerAllowed_iff f).mp (List.all_eq_true.mp hall f hf)
    · cases h

/-- A token is read back, whatever is sent behind it; one that would put
a header of its own is refused. -/
theorem request_reads_back_sample :
    upgradeRequest "/apiws".toList "h".toList "k".toList
        [("X".toList, "a\nHost: b".toList)] = none
      ∧ ∃ req, upgradeRequest "/apiws".toList "h".toList "k".toList
          [("X-WRTG-Token".toList, "t".toList)] = some req
        ∧ Http.read (req ++ "GET / HTTP/1.1".toList)
          = some ({ start := requestLine "/apiws".toList
                    fields := (fixedFields "h".toList "k".toList
                      ++ [("X-WRTG-Token".toList, "t".toList)]).map
                      Http.Field.trimmed }, "GET / HTTP/1.1".toList) := by
  have hline : ∀ t : String, (t.toList.any fun c => c == '\r' || c == '\n')
      = false → Http.OneLine t.toList := fun t => (oneLine_iff _).mpr
  constructor
  · refine (request_reads_back _ _ _ _ (hline "/apiws" rfl) (hline "h" rfl)
      (hline "k" rfl)).1.mpr ⟨_, List.mem_cons_self, fun hclean => ?_⟩
    exact hclean.value.2 (by decide)
  · have hread := (request_reads_back "/apiws".toList "h".toList "k".toList
      [("X-WRTG-Token".toList, "t".toList)] (hline "/apiws" rfl)
      (hline "h" rfl) (hline "k" rfl)).2
    have hsome : (upgradeRequest "/apiws".toList "h".toList "k".toList
        [("X-WRTG-Token".toList, "t".toList)]).isSome = true := by
      decide +kernel
    obtain ⟨req, hreq⟩ := Option.isSome_iff_exists.mp hsome
    exact ⟨req, hreq, hread req _ hreq⟩

-- =============================================================== query

/-- A character of an address or a number. -/
def hostChar (c : Char) : Bool := Text.isAlnum c || ".-:".toList.contains c

/-- The pairs of a tunnel's query. -/
def Tunnel.query (dstIp : Text) : Tunnel → List (Text × Text)
  | .relay dc => [("dst".toList, dstIp), ("dc".toList, Text.showInt dc)]
  | .tcp dstPort => [("dst".toList, dstIp), ("dc".toList, "0".toList),
      ("port".toList, showU16 dstPort)]

def pairText (p : Text × Text) : Text := p.1 ++ '=' :: p.2

/-- A target of letters and digits, with a query of the kind. -/
def target (name : Text) (query : List (Text × Text)) : Text :=
  '/' :: name ++ '?' :: ['&'].intercalate (query.map pairText)

/-- Names and values that a URL spells as they are. -/
def Plain (query : List (Text × Text)) : Prop :=
  ∀ p ∈ query, (∀ c ∈ p.1, hostChar c = true) ∧ ∀ c ∈ p.2, hostChar c = true

/-- The values under a name, in any case. -/
def named (fields : List Http.Field) (name : String) : List Text :=
  (fields.filter fun f => Text.eqIgnoreAsciiCase f.1 name.toList).map Prod.snd

/-- The values of a header, joined as `Headers` joins them. -/
def header (fields : List Http.Field) (name : String) : Option Bytes :=
  match named fields name with
  | [] => none
  | value :: values =>
      some (Utf8.encode (value ++ values.flatMap (", ".toList ++ ·)))

end Wrtg.WorkerDial
