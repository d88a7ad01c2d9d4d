/-
The fetch of the shared domain list (`cf_proxy_domains.rs`): what the file
that is served says.

The URL, the cache-busting query, the interval and the dial of the host
are left out: what the server sends is the argument.
-/
import Wrtg.CfProxyDomains
import Wrtg.Https

namespace Wrtg.CfProxyFetch

open CfProxyDomains Lib

def MAX_HTTP_RESPONSE : Nat := 1024 * 1024

/-- The domain a line of the list is for. -/
def readDomainLine (line : Text) : Option Text :=
  let line := Text.trim line
  if line.isEmpty || line.head? == some '#' then none
  else some (decodeCfproxyDomain line)

/-- `fetch_cfproxy_domains`, with what the server sends. -/
def fetchCfproxyDomains (served : Https.Served) : List Text :=
  match Https.getOver MAX_HTTP_RESPONSE served with
  | some body => (Text.lines (Utf8.lossy body)).filterMap readDomainLine
  | none => []

end Wrtg.CfProxyFetch
