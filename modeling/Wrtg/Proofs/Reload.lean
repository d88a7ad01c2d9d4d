/-
A reload against the startup it follows, and against a file it cannot
read (`config.rs`).

# Two readings of one file

The startup sees the file through `_add_env`, which drops empty values;
the reload sees it as it is. The builders cannot tell the two apart
(`loadFrontDcsWith_addEnv` and its siblings): an empty value names no
domain, no front and no DC. What can tell them apart is the pair of
tests that decide on the built-in CF Proxy pool. The startup asks
whether the raw values name a domain and what the environment says of
`WRTG_CFPROXY_AUTO`; the reload asks whether the list is empty and what
the file says. `ReloadAgrees` is where the two tests meet.

# A file that cannot be read

It is an empty file to the reload, so the reload installs the stock
configuration (`reloadFromFile_unreadable`), and that changes nothing
only where the stock configuration is what was running.
-/
import Wrtg.Proofs.CfBalancer
import Wrtg.Proofs.Config

namespace Wrtg.Config

open CfBalancer CfProxyDomains

-- ======================================================= empty values

/-- `_add_env` drops a value or leaves it. -/
theorem addEnv_cases (get : Getter) (k : Text) :
    (get k = some [] ∧ addEnv get k = none) ∨ addEnv get k = get k := by
  unfold addEnv
  cases hv : get k with
  | none => exact .inr rfl
  | some v =>
      cases v with
      | nil => exact .inl ⟨rfl, rfl⟩
      | cons c v => exact .inr rfl

/-- An empty `WRTG_FRONT_DCS` is the default scope. -/
theorem loadFrontDcsWith_addEnv (get : Getter) :
    loadFrontDcsWith (addEnv get) = loadFrontDcsWith get := by
  unfold loadFrontDcsWith
  rcases addEnv_cases get "WRTG_FRONT_DCS".toList with ⟨hv, hn⟩ | he
  · rw [hv, hn]
    rfl
  · rw [he]

/-- An empty value names no domain. -/
theorem loadDomainsWith_addEnv (get : Getter) (key list : Text) :
    loadDomainsWith (addEnv get) key list = loadDomainsWith get key list := by
  unfold loadDomainsWith
  rcases addEnv_cases get key with ⟨hv, hn⟩ | he
  · rcases addEnv_cases get list with ⟨hv', hn'⟩ | he'
    · simp only [hv, hn, hv', hn']
      rfl
    · simp only [hv, hn, he']
      rfl
  · rcases addEnv_cases get list with ⟨hv', hn'⟩ | he'
    · simp only [he, hv', hn']
      rfl
    · simp only [he, he']

/-- An empty value names no front. -/
theorem parseDcFrontIpsWith_addEnv (get : Getter) :
    parseDcFrontIpsWith (addEnv get) = parseDcFrontIpsWith get := by
  have hkey : insertDcKey (addEnv get) = insertDcKey get := by
    funext map dc
    unfold insertDcKey
    rcases addEnv_cases get ("DC".toList ++ Text.showInt dc
      ++ "_FRONT_IP".toList) with ⟨hv, hn⟩ | he
    · rw [hv, hn]
      rfl
    · rw [he]
  unfold parseDcFrontIpsWith
  rw [hkey]
  rcases addEnv_cases get "WRTG_DC_IPS".toList with ⟨hv, hn⟩ | he
  · rw [hv, hn]
    rfl
  · rw [he]

-- ====================================================== blank values

/-- A value that passes for unset is white space and quotes. -/
theorem chars_of_proxyEnvSet {env : Getter} {key v : Text}
    (hset : proxyEnvSet env key = false) (hv : env key = some v) :
    ∀ c ∈ v, Text.isWhitespace c = true ∨ c = '"' := by
  intro c hc
  have hnil : Text.trimMatches '"' (Text.trim v) = [] := by
    simpa [proxyEnvSet, hv] using hset
  rcases Text.mem_trim_or hc with hw | hc
  · exact .inl hw
  · rcases Text.mem_trimMatches_or (q := '"') hc with hq | hc
    · exact .inr hq
    · rw [hnil] at hc
      cases hc

/-- The hosts of a value are spelt with its characters. -/
theorem mem_of_mem_parseDomainList {raw host : Text} {c : Char}
    (hh : host ∈ parseDomainList raw) (hc : c ∈ host) : c ∈ raw := by
  unfold parseDomainList at hh
  obtain ⟨item, hitem, rfl⟩ := List.mem_map.mp (List.mem_filter.mp hh).1
  obtain ⟨piece, hpiece, rfl⟩ := List.mem_map.mp (List.mem_filter.mp hitem).1
  have hitem : c ∈ Text.trimMatches '\r'
      (Text.trimMatches '"' (Text.trim piece)) := by
    unfold sanitizeDomain at hc
    have hhost := (List.takeWhile_sublist _).subset
      (Text.mem_of_mem_trim (Text.mem_of_mem_trimEndMatches hc))
    split at hhost
    · next hsp =>
        exact Text.mem_of_mem_trim (Text.mem_of_splitOnceStr hsp hhost)
    · exact Text.mem_of_mem_trim hhost
  exact Text.mem_of_mem_splitOn hpiece (Text.mem_of_mem_trim
    (Text.mem_of_mem_trimMatches (Text.mem_of_mem_trimMatches hitem)))

/-- White space and quotes spell no domain. -/
theorem isValidDomain_blank {host : Text}
    (h : ∀ c ∈ host, Text.isWhitespace c = true ∨ c = '"') :
    isValidDomain (Text.toAsciiLowercase (Text.trim host)) = false := by
  rw [Bool.eq_false_iff]
  intro hvalid
  obtain ⟨c, cs, hcons⟩ := List.exists_cons_of_ne_nil
    (isValidDomain_ne_nil hvalid)
  have hmem : c ∈ Text.toAsciiLowercase (Text.trim host) := by
    rw [hcons]
    exact List.mem_cons_self ..
  have hchar := isValidDomain_chars hvalid c hmem
  unfold Text.toAsciiLowercase at hmem
  obtain ⟨d, hd, hlow⟩ := List.mem_map.mp hmem
  -- the letter as the host has it is a domain character too
  have hdchar : Text.isAlnum d = true ∨ d = '-' ∨ d = '.' := by
    split at hlow
    · next hup => exact .inl (by simp [Text.isAlnum, Text.isAlpha, hup])
    · exact hlow ▸ hchar
  rcases h d (Text.mem_of_mem_trim hd) with hw | rfl
  · rw [Text.isWhitespace_of_isAlnum hdchar] at hw
    cases hw
  · exact absurd hdchar (by decide)

/-- A pool of hosts none of which is a domain is empty. -/
theorem normalizeFrom_invalid {out domains : List Text}
    (h : ∀ d ∈ domains,
      isValidDomain (Text.toAsciiLowercase (Text.trim d)) = false) :
    normalizeFrom out domains = out := by
  induction domains with
  | nil => rfl
  | cons d ds ih =>
      rw [normalizeFrom, if_pos (by simp [h d (List.mem_cons_self ..)])]
      exact ih fun x hx => h x (List.mem_cons_of_mem d hx)

/-- Where the startup sees no proxy domain configured, the list is
empty. -/
theorem loadProxyDomainsWith_unset {env : Getter}
    (h : userProxyDomainsConfigured env = false) :
    loadProxyDomainsWith env = [] := by
  obtain ⟨hone, hlist⟩ : proxyEnvSet env "CF_PROXY_DOMAIN".toList = false
      ∧ proxyEnvSet env "WRTG_CF_PROXY_DOMAINS".toList = false := by
    simpa [userProxyDomainsConfigured] using h
  have hblank : ∀ {key v : Text}, proxyEnvSet env key = false →
      env key = some v → ∀ d ∈ parseDomainList v,
      isValidDomain (Text.toAsciiLowercase (Text.trim d)) = false := by
    intro key v hset hv d hd
    exact isValidDomain_blank fun c hc =>
      chars_of_proxyEnvSet hset hv c (mem_of_mem_parseDomainList hd hc)
  unfold loadProxyDomainsWith loadDomainsWith normalizeDomainPool
  refine normalizeFrom_invalid ?_
  intro d hd
  rcases List.mem_append.mp hd with hd | hd
  · cases hv : env "CF_PROXY_DOMAIN".toList with
    | none => simp only [hv, List.not_mem_nil] at hd
    | some v =>
        simp only [hv] at hd
        exact hblank hone hv d hd
  · cases hv : env "WRTG_CF_PROXY_DOMAINS".toList with
    | none => simp only [hv, List.not_mem_nil] at hd
    | some v =>
        simp only [hv] at hd
        exact hblank hlist hv d hd

-- ============================================= an unchanged file

/-- The routing a session sees: DC scope, per-DC fronts, Workers and the
CF Proxy pool. -/
def SameRouting (a b : Live) : Prop :=
  a.frontDcs = b.frontDcs ∧ a.dcFrontIps = b.dcFrontIps
    ∧ a.balancer.workerDomains = b.balancer.workerDomains
    ∧ a.balancer.proxyDomains = b.balancer.proxyDomains

/-- Where startup and reload decide alike on the built-in pool: the file
names a valid proxy domain; or it names none at all and
`WRTG_CFPROXY_AUTO` is not there with an empty value; or it names only
invalid ones and `WRTG_CFPROXY_AUTO` is there with an off value. -/
def ReloadAgrees (map : KvMap) : Prop :=
  loadProxyDomainsWith map.get ≠ []
    ∨ (userProxyDomainsConfigured map.get = false
        ∧ map.get "WRTG_CFPROXY_AUTO".toList ≠ some [])
    ∨ (userProxyDomainsConfigured map.get = true
        ∧ ∃ v, map.get "WRTG_CFPROXY_AUTO".toList = some v
          ∧ cfproxyAutoDecision (some v) = false)

/-- An empty value configures no proxy domain. -/
theorem userProxyDomainsConfigured_addEnv (get : Getter) :
    userProxyDomainsConfigured (addEnv get)
      = userProxyDomainsConfigured get := by
  have hset : ∀ k, proxyEnvSet (addEnv get) k = proxyEnvSet get k := by
    intro k
    unfold proxyEnvSet
    rcases addEnv_cases get k with ⟨hv, hn⟩ | he
    · rw [hv, hn]
      rfl
    · rw [he]
  unfold userProxyDomainsConfigured
  rw [hset, hset]

/-- The fallback is not disabled by a key that is not there. -/
theorem cfFallbackDisabled_addEnv {get : Getter}
    (h : get "WRTG_NO_CFPROXY".toList = none) :
    cfFallbackDisabled (addEnv get) = false := by
  unfold cfFallbackDisabled addEnv
  rw [h]
  rfl

/-- The CF Proxy pool behind the startup. -/
theorem startup_pool (env : Getter) :
    (startup env).balancer.proxyDomains
      = if cfproxyAutoEnabled env then defaultCfproxyDomains
        else loadProxyDomainsWith env := by
  unfold startup
  cases cfproxyAutoEnabled env <;> rfl

theorem defaultCfproxyDomains_ne_nil : defaultCfproxyDomains ≠ [] := by
  simp [defaultCfproxyDomains, DEFAULT_ENCODED]

/-- The two decisions on one pool. `auto` is what the reload reads,
`enabled` what the startup did. -/
theorem proxyPoolAfterReload_startup {fileDomains : List Text}
    {auto enabled : Bool} (h : enabled = true → fileDomains = []) :
    proxyPoolAfterReload fileDomains
        (if enabled then defaultCfproxyDomains else fileDomains) auto
      = (if enabled then defaultCfproxyDomains else fileDomains)
      ↔ fileDomains ≠ [] ∨ enabled = auto := by
  have hdef := defaultCfproxyDomains_ne_nil
  unfold proxyPoolAfterReload
  by_cases hnil : fileDomains = []
  · subst hnil
    cases enabled <;> cases auto <;> simp [hdef, hdef.symm]
  · cases enabled with
    | true => exact absurd (h rfl) hnil
    | false => simp [hnil]

/-- Dropping an empty value changes the decision, and nothing else
does. -/
theorem cfproxyAutoDecision_addEnv (get : Getter) (key : Text) :
    cfproxyAutoDecision (addEnv get key) = cfproxyAutoDecision (get key)
      ↔ get key ≠ some [] := by
  rcases addEnv_cases get key with ⟨hv, hn⟩ | he
  · rw [hv, hn]
    exact iff_of_false (by decide) (not_not_intro rfl)
  · rw [he]
    refine iff_of_true rfl ?_
    intro hv
    rw [addEnv, hv] at he
    cases he

/-- The built-in pool is for a startup without domains of its own. -/
theorem userProxyDomainsConfigured_of_auto {env : Getter}
    (h : cfproxyAutoEnabled env = true) :
    userProxyDomainsConfigured env = false := by
  unfold cfproxyAutoEnabled at h
  split at h
  · cases h
  · split at h
    · cases h
    · next hc => exact Bool.eq_false_iff.mpr hc

/-- The startup's decision against the reload's. -/
theorem cfproxyAutoEnabled_addEnv_iff {get : Getter}
    (hno : get "WRTG_NO_CFPROXY".toList = none) :
    cfproxyAutoEnabled (addEnv get)
        = cfproxyAutoDecision (get "WRTG_CFPROXY_AUTO".toList)
      ↔ (userProxyDomainsConfigured get = false
            ∧ get "WRTG_CFPROXY_AUTO".toList ≠ some [])
          ∨ (userProxyDomainsConfigured get = true
            ∧ ∃ v, get "WRTG_CFPROXY_AUTO".toList = some v
              ∧ cfproxyAutoDecision (some v) = false) := by
  unfold cfproxyAutoEnabled
  rw [cfFallbackDisabled_addEnv hno, userProxyDomainsConfigured_addEnv]
  generalize "WRTG_CFPROXY_AUTO".toList = key
  cases userProxyDomainsConfigured get with
  | false =>
      simp only [Bool.false_eq_true, if_false, cfproxyAutoDecision_addEnv,
        true_and, false_and, or_false]
  | true =>
      simp only [Bool.false_eq_true, if_false, if_true, Bool.true_eq_false,
        false_and, true_and, false_or]
      cases hauto : get key with
      | none => simp [cfproxyAutoDecision]
      | some v =>
          constructor
          · exact fun h => ⟨v, rfl, h.symm⟩
          · intro h
            obtain ⟨w, hw, h⟩ := h
            cases hw
            exact h.symm

/-- A reload of the file the daemon was started with leaves the routing
as the startup left it exactly where the two decide alike on the
built-in pool. -/
theorem reload_unchanged_iff (map : KvMap) (file : FileContent)
    (hfile : importConfigFile file = map)
    (hno : map.get "WRTG_NO_CFPROXY".toList = none) :
    SameRouting
        (reloadFromFile (addEnv map.get) file (startup (addEnv map.get)))
        (startup (addEnv map.get))
      ↔ ReloadAgrees map := by
  subst hfile
  generalize hM : importConfigFile file = map at hno ⊢
  -- everything but the pool is built from the same values
  have hdcs := loadFrontDcsWith_addEnv map.get
  have hips := parseDcFrontIpsWith_addEnv map.get
  have hworkers : loadWorkerDomainsWith (addEnv map.get)
      = loadWorkerDomainsWith map.get := loadDomainsWith_addEnv ..
  have hproxies : loadProxyDomainsWith (addEnv map.get)
      = loadProxyDomainsWith map.get := loadDomainsWith_addEnv ..
  have hstart : ∀ env : Getter, (startup env).frontDcs = loadFrontDcsWith env
      ∧ (startup env).dcFrontIps = parseDcFrontIpsWith env
      ∧ (startup env).balancer.workerDomains = loadWorkerDomainsWith env := by
    intro env
    unfold startup
    cases cfproxyAutoEnabled env <;> exact ⟨rfl, rfl, rfl⟩
  obtain ⟨hs₁, hs₂, hs₃⟩ := hstart (addEnv map.get)
  have hrest : SameRouting
        (reloadFromFile (addEnv map.get) file (startup (addEnv map.get)))
        (startup (addEnv map.get))
      ↔ (reloadFromFile (addEnv map.get) file
            (startup (addEnv map.get))).balancer.proxyDomains
          = (startup (addEnv map.get)).balancer.proxyDomains := by
    unfold SameRouting
    rw [hs₁, hs₂, hs₃, hdcs, hips, hworkers, ← hM]
    exact ⟨fun h => h.2.2.2, fun h => ⟨rfl, rfl, rfl, h⟩⟩
  -- and the pool is a matter of the two decisions
  have hunset : cfproxyAutoEnabled (addEnv map.get) = true →
      loadProxyDomainsWith map.get = [] := by
    intro hen
    have hno := userProxyDomainsConfigured_of_auto hen
    rw [userProxyDomainsConfigured_addEnv] at hno
    exact loadProxyDomainsWith_unset hno
  rw [hrest, reloadFromFile_pool, startup_pool, hM, hproxies,
    cfFallbackDisabled_addEnv hno, Bool.not_false, Bool.true_and,
    proxyPoolAfterReload_startup hunset]
  exact or_congr_right (cfproxyAutoEnabled_addEnv_iff hno)

/-- The state a file is started and reloaded in. -/
def reloadOf (file : FileContent) : Live × Live :=
  let env := addEnv (importConfigFile file).get
  (reloadFromFile env file (startup env), startup env)

/-- The stock file: no domains, the shared pool on. -/
def stockFile : FileContent := .text "WRTG_CFPROXY_AUTO=\"1\"\n".toList

theorem reload_unchanged_stock :
    SameRouting (reloadOf stockFile).1 (reloadOf stockFile).2 :=
  (reload_unchanged_iff (importConfigFile stockFile) stockFile rfl
    (by decide +kernel)).mpr
      (.inr (.inl ⟨by decide +kernel, by decide +kernel⟩))

/-- An empty `WRTG_CFPROXY_AUTO` seeds the built-in pool at the start
and empties it on the reload; an invalid `CF_PROXY_DOMAIN` leaves it
empty at the start and installs the built-in list on the reload. -/
theorem reload_unchanged_fails :
    let autoEmpty := FileContent.text "WRTG_CFPROXY_AUTO=\"\"\n".toList
    let invalid := FileContent.text "CF_PROXY_DOMAIN=\"foo\"\n".toList
    ¬ SameRouting (reloadOf autoEmpty).1 (reloadOf autoEmpty).2
      ∧ ¬ SameRouting (reloadOf invalid).1 (reloadOf invalid).2 := by
  intro autoEmpty invalid
  constructor
  · intro h
    exact absurd h.2.2.2 (by decide +kernel)
  · intro h
    exact absurd h.2.2.2 (by decide +kernel)

-- ========================================== a file that cannot be read

/-- `read_to_string` fails on it: an I/O error, or bytes that are not
UTF-8. -/
def Unreadable (file : FileContent) : Prop :=
  file = .missing ∨ file = .binary

/-- The configuration a reload replaces. -/
def SameConfig (a b : Live) : Prop :=
  a.frontIp = b.frontIp ∧ SameRouting a b

/-- The configuration of an empty file is already in place: the stock
front, no other, the stock scope, no Worker, and a CF Proxy pool just
where the fallback is not disabled. -/
def StockConfig (env : Getter) (live : Live) : Prop :=
  live.frontIp = "149.154.167.220".toList
    ∧ live.frontDcs = [2, 4]
    ∧ live.dcFrontIps = ∅
    ∧ live.balancer.workerDomains = []
    ∧ (live.balancer.proxyDomains = [] ↔ cfFallbackDisabled env = true)

/-- A failed read is an empty map. -/
theorem importConfigFile_unreadable {file : FileContent}
    (h : Unreadable file) : importConfigFile file = ∅ := by
  rcases h with rfl | rfl <;> rfl

/-- Nothing is named by an empty map. -/
theorem loadFromMap_empty :
    (loadFromMap ∅).frontIp = "149.154.167.220".toList
      ∧ (loadFromMap ∅).frontDcs = [2, 4]
      ∧ (loadFromMap ∅).dcFrontIps = ∅
      ∧ (loadFromMap ∅).cfWorkerDomains = []
      ∧ (loadFromMap ∅).cfProxyDomains = [] := by
  refine ⟨?_, ?_, AList.ext ?_, ?_, ?_⟩ <;> decide +kernel

/-- What a reload of a file it cannot read leaves in place. -/
theorem reloadFromFile_unreadable (env : Getter) {file : FileContent}
    (h : Unreadable file) (live : Live) :
    let after := reloadFromFile env file live
    after.frontIp = "149.154.167.220".toList
      ∧ after.frontDcs = [2, 4]
      ∧ after.dcFrontIps = ∅
      ∧ after.balancer.workerDomains = []
      ∧ after.balancer.proxyDomains
          = proxyPoolAfterReload [] live.balancer.proxyDomains
              (!cfFallbackDisabled env) := by
  have hmap := importConfigFile_unreadable h
  obtain ⟨h₁, h₂, h₃, h₄, h₅⟩ := loadFromMap_empty
  refine ⟨?_, ?_, ?_, ?_, ?_⟩
  · rw [← h₁, ← hmap]; rfl
  · rw [← h₂, ← hmap]; rfl
  · rw [← h₃, ← hmap]; rfl
  · rw [← h₄, ← hmap]; rfl
  · rw [reloadFromFile_pool, hmap]
    have hdec : cfproxyAutoDecision
        (KvMap.get ∅ "WRTG_CFPROXY_AUTO".toList) = true := by decide +kernel
    rw [hdec, Bool.and_true]
    exact congrArg (proxyPoolAfterReload · _ _) h₅

/-- The pool an unreadable file leaves is the one in place exactly where
that pool is empty just when the fallback is disabled. -/
theorem proxyPoolAfterReload_self {pool : List Text} {disabled : Bool} :
    proxyPoolAfterReload [] pool (!disabled) = pool
      ↔ (pool = [] ↔ disabled = true) := by
  have hdef := defaultCfproxyDomains_ne_nil
  unfold proxyPoolAfterReload
  by_cases hnil : pool = []
  · subst hnil
    cases disabled <;> simp [hdef]
  · cases disabled <;> simp [hnil, Ne.symm hnil]

/-- A reload that cannot read its file leaves the running configuration
as it was exactly where that was the stock configuration. -/
theorem failed_read_iff (env : Getter) (live : Live) (file : FileContent)
    (h : Unreadable file) :
    SameConfig (reloadFromFile env file live) live
      ↔ StockConfig env live := by
  obtain ⟨h₁, h₂, h₃, h₄, h₅⟩ := reloadFromFile_unreadable env h live
  unfold SameConfig SameRouting StockConfig
  rw [h₁, h₂, h₃, h₄, h₅, proxyPoolAfterReload_self]
  constructor
  · intro h
    obtain ⟨g₁, g₂, g₃, g₄, g₅⟩ := h
    exact ⟨g₁.symm, g₂.symm, g₃.symm, g₄.symm, g₅⟩
  · intro h
    obtain ⟨g₁, g₂, g₃, g₄, g₅⟩ := h
    exact ⟨g₁.symm, g₂.symm, g₃.symm, g₄.symm, g₅⟩

/-- The stock router, and a file that is gone. -/
theorem failed_read_stock :
    SameConfig (reloadFromFile stockEnv .missing (startup stockEnv))
      (startup stockEnv) :=
  (failed_read_iff stockEnv (startup stockEnv) .missing (.inl rfl)).mpr
    ⟨by decide +kernel, by decide +kernel,
      AList.ext (by decide +kernel), by decide +kernel, by decide +kernel⟩

/-- A Worker domain does not survive a reload whose read fails. -/
theorem failed_read_drops :
    let env : Getter := addEnv (importConfigFile
      (.text "CF_WORKER_DOMAIN=\"w.example\"\n".toList)).get
    ¬ SameConfig (reloadFromFile env .missing (startup env)) (startup env)
      ∧ ¬ SameConfig (reloadFromFile env .binary (startup env))
          (startup env) := by
  intro env
  constructor
  · intro h
    exact absurd h.2.2.2.1 (by decide +kernel)
  · intro h
    exact absurd h.2.2.2.1 (by decide +kernel)

end Wrtg.Config
