/-
The shared CF Proxy domain pool (`cf_proxy_domains.rs`): the built-in
list, domain validation, whether the environment asks for the pool, and
the hourly refresh. What a refresh fetches is its argument.
-/
import Wrtg.CfBalancer

namespace Wrtg.CfProxyDomains

open CfBalancer

def MIN_VALID_DOMAINS : Nat := 3

def DOMAIN_SUFFIX : Text := ".co.uk".toList

def DEFAULT_ENCODED : List Text :=
  ["virkgj.com", "vmmzovy.com", "mkuosckvso.com", "zaewayzmplad.com",
   "twdmbzcm.com", "awzwsldi.com", "clngqrflngqin.com", "tjacxbqtj.com",
   "bxaxtxmrw.com", "dmohrsgmohcrwb.com", "vwbmtmoi.com", "khgrre.com",
   "ulihssf.com", "tmhqsdqmfpmk.com", "xwuwoqbm.com", "orgcnunpj.com",
   "zhkuldz.com", "zypoljnslxa.com", "efabnxaowuzs.com",
   "zaftuzsftqdq.com"].map String.toList

-- ============================================================ decoding

/-- A letter turned back by `shift` places in its alphabet. -/
def unshift (base : Char) (shift : Nat) (c : Char) : Char :=
  let off : Int := (c.toNat : Int) - base.toNat - shift
  Char.ofNat (base.toNat + (off % 26).toNat)

def decodeCfproxyDomain (s : Text) : Text :=
  if !".com".toList.isSuffixOf s then s
  else
    let body := s.take (s.length - 4)
    let shift := body.countP Text.isAlpha
    let decoded := body.map fun c =>
      if Text.isLower c then unshift 'a' shift c
      else if Text.isUpper c then unshift 'A' shift c
      else c
    decoded ++ DOMAIN_SUFFIX

def defaultCfproxyDomains : List Text :=
  DEFAULT_ENCODED.map decodeCfproxyDomain

-- ========================================================== validation

def validLabel (label : Text) : Bool :=
  !(label.isEmpty || decide (label.length > 63))
    && !(label.head? == some '-' || label.getLast? == some '-')
    && label.all fun c => Text.isAlnum c || c == '-'

/-- `is_valid_domain`. The source's lengths are in bytes; a label that
is not ASCII throughout is refused either way. -/
def isValidDomain (domain : Text) : Bool :=
  if domain.isEmpty || decide (domain.length > 253) then false
  else if domain.head? == some '.' || domain.getLast? == some '.' then false
  else
    let labels := Text.splitOn (· == '.') domain
    if labels.length < 2 then false
    else if !labels.all validLabel then false
    else match labels.getLast? with
      | some tld => decide (tld.length ≥ 2) && tld.any Text.isAlpha
      | none => false

/-- The loop of `normalize_domain_pool`; `out` is both the set of
domains seen and the pool so far. -/
def normalizeFrom (out : List Text) : List Text → List Text
  | [] => out
  | domain :: domains =>
      let item := Text.toAsciiLowercase (Text.trim domain)
      if !isValidDomain item || out.contains item then
        normalizeFrom out domains
      else normalizeFrom (out ++ [item]) domains

def normalizeDomainPool (domains : List Text) : List Text :=
  normalizeFrom [] domains

-- ==================================================== the environment

def proxyEnvSet (env : Getter) (key : Text) : Bool :=
  match env key with
  | some v => !(Text.trimMatches '"' (Text.trim v)).isEmpty
  | none => false

def userProxyDomainsConfigured (env : Getter) : Bool :=
  proxyEnvSet env "CF_PROXY_DOMAIN".toList
    || proxyEnvSet env "WRTG_CF_PROXY_DOMAINS".toList

/-- Whether a `WRTG_CFPROXY_AUTO` value turns the shared pool on; unset
does. -/
def cfproxyAutoDecision : Option Text → Bool
  | some v =>
      let v := Text.trim v
      v == ['1'] || Text.eqIgnoreAsciiCase v "true".toList
  | none => true

def cfproxyAutoEnabled (env : Getter) : Bool :=
  if cfFallbackDisabled env then false
  else if userProxyDomainsConfigured env then false
  else cfproxyAutoDecision (env "WRTG_CFPROXY_AUTO".toList)

-- ============================================================= refresh

/-- `refresh_cfproxy_domains`, with the list it fetches. -/
def refreshCfproxyDomains (env : Getter) (fetched : List Text)
    (b : Pools) : Pools :=
  if !cfproxyAutoEnabled env then b
  else
    let pool := normalizeDomainPool fetched
    if pool.length ≥ MIN_VALID_DOMAINS then b.setProxyDomains pool
    else b

def seedDefaultCfproxyDomains (b : Pools) : Pools :=
  b.setProxyDomains defaultCfproxyDomains

end Wrtg.CfProxyDomains
