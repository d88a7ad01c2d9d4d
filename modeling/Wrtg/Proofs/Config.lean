/-
What a reload's choice of CF Proxy domains is worth (`config.rs`,
`cf_proxy_domains.rs`).

`wanted` is the choice a config file makes: the domains it names, or no
domains at all where it names none and switches the shared pool off. A
reload puts that choice in place (`reload_honours`). A refresh asks the
environment of the startup and not the file, so it overwrites the
choice exactly when it is not `RefreshOk` (`refresh_honours`), and
`reload_choice_iff` lifts both to runs.
-/
import Wrtg.Config
import Wrtg.Lib.Run

namespace Wrtg.Config

open Lib CfBalancer CfProxyDomains

-- ========================================================== the choice

/-- The pool a config file asks for, if it asks for one: the valid
domains it names, or none where it names none and sets
`WRTG_CFPROXY_AUTO` to an off value. -/
def wanted (map : KvMap) : Option (List Text) :=
  if loadProxyDomainsWith map.get ≠ [] then
    some (loadProxyDomainsWith map.get)
  else match map.get "WRTG_CFPROXY_AUTO".toList with
    | some v => if cfproxyAutoDecision (some v) then none else some []
    | none => none

/-- The pool in place is the one the last reloaded file asks for. -/
def Honours (d : Daemon) : Prop :=
  ∀ map want, d.lastFile = some map → wanted map = some want →
    d.live.balancer.proxyDomains = want

/-- A refresh that leaves the file's choice alone: the startup
environment has the shared pool off, or the fetched list is too short
to be installed, or it is the list the file names. -/
def RefreshOk (d : Daemon) : Action → Prop
  | .reload _ => True
  | .refresh fetched => ∀ map want, d.lastFile = some map →
      wanted map = some want →
      cfproxyAutoEnabled d.env = false
        ∨ (normalizeDomainPool fetched).length < MIN_VALID_DOMAINS
        ∨ normalizeDomainPool fetched = want

-- =========================================================== the steps

/-- The pool behind a reload. -/
theorem reloadFromFile_pool (env : Getter) (file : FileContent)
    (live : Live) :
    (reloadFromFile env file live).balancer.proxyDomains
      = proxyPoolAfterReload
          (loadProxyDomainsWith (importConfigFile file).get)
          live.balancer.proxyDomains
          (!cfFallbackDisabled env && cfproxyAutoDecision
            ((importConfigFile file).get "WRTG_CFPROXY_AUTO".toList)) := rfl

/-- A reload puts the file's choice in place. -/
theorem reload_honours {d d' : Daemon} {file : FileContent}
    (h : apply (.reload file) d = some d') : Honours d' := by
  cases h
  intro map want hmap hwant
  cases hmap
  show (reloadFromFile d.env file d.live).balancer.proxyDomains = want
  rw [reloadFromFile_pool]
  unfold wanted at hwant
  unfold proxyPoolAfterReload
  by_cases hne : loadProxyDomainsWith (importConfigFile file).get = []
  · rw [if_neg (not_not_intro hne)] at hwant
    cases hv : (importConfigFile file).get "WRTG_CFPROXY_AUTO".toList with
    | none => rw [hv] at hwant; cases hwant
    | some v =>
        rw [hv] at hwant
        cases hdec : cfproxyAutoDecision (some v) with
        | true => simp [hdec] at hwant
        | false =>
            simp only [hdec, Bool.false_eq_true, if_false] at hwant
            cases hwant
            simp [hne]
  · rw [if_pos hne] at hwant
    cases hwant
    simp [hne]

/-- The pool behind a refresh. -/
theorem refresh_pool (env : Getter) (fetched : List Text) (b : Pools) :
    (refreshCfproxyDomains env fetched b).proxyDomains
      = if cfproxyAutoEnabled env
          ∧ MIN_VALID_DOMAINS ≤ (normalizeDomainPool fetched).length then
          normalizeDomainPool fetched
        else b.proxyDomains := by
  unfold refreshCfproxyDomains
  cases cfproxyAutoEnabled env with
  | false => rfl
  | true =>
      by_cases hlen : MIN_VALID_DOMAINS ≤ (normalizeDomainPool fetched).length
      · simp [hlen, Pools.setProxyDomains]
      · simp [hlen]

/-- A refresh of a pool that honours the file honours it too exactly
when it is `RefreshOk`. -/
theorem refresh_honours {d d' : Daemon} {fetched : List Text}
    (h : apply (.refresh fetched) d = some d') (hd : Honours d) :
    Honours d' ↔ RefreshOk d (.refresh fetched) := by
  cases h
  have hpool := refresh_pool d.env fetched d.live.balancer
  constructor
  · intro hd' map want hmap hwant
    have hw : (refreshCfproxyDomains d.env fetched
        d.live.balancer).proxyDomains = want := hd' map want hmap hwant
    rw [hpool] at hw
    split at hw
    · exact .inr (.inr hw)
    · next hc =>
        cases hauto : cfproxyAutoEnabled d.env with
        | false => exact .inl rfl
        | true =>
            rw [hauto] at hc
            exact .inr (.inl (by simpa using hc))
  · intro hok map want hmap hwant
    show (refreshCfproxyDomains d.env fetched
      d.live.balancer).proxyDomains = want
    rw [hpool]
    split
    · next hc =>
        rcases hok map want hmap hwant with hoff | hshort | hsame
        · rw [hoff] at hc
          exact absurd hc.1 Bool.false_ne_true
        · omega
        · exact hsame
    · exact hd map want hmap hwant

-- ============================================================== runs

/-- The file's choice of CF Proxy domains is in place in every state of
a run from the startup exactly when every refresh of the run leaves it
alone. -/
theorem reload_choice_iff (env : Getter) (xs : List Action) :
    (∀ ys zs d, xs = ys ++ zs → run apply ys (start env) = some d →
      Honours d)
      ↔ StepsMeet apply RefreshOk xs (start env) := by
  constructor
  · intro hall pre x post d hxs hrun
    have hd : Honours d := hall pre (x :: post) d hxs hrun
    cases x with
    | reload file => exact trivial
    | refresh fetched =>
        obtain ⟨d', hx⟩ : ∃ d', apply (.refresh fetched) d = some d' :=
          ⟨_, rfl⟩
        refine (refresh_honours hx hd).mp
          (hall (pre ++ [.refresh fetched]) post d' ?_ ?_)
        · rw [hxs, List.append_assoc]
          rfl
        · rw [run_append, hrun]
          exact congrArg (Option.bind · (run apply [])) hx
  · intro hok ys zs d hxs hrun
    subst hxs
    refine run_invariant apply hrun (StepsMeet.prefix_of apply hok) ?_ ?_
    · intro map want hmap
      cases hmap
    · intro t x t' ht hx hstep
      cases x with
      | reload file => exact reload_honours hstep
      | refresh fetched => exact (refresh_honours hstep ht).mpr hx

/-- A stock environment: no proxy domain, the shared pool on. -/
def stockEnv : Getter := fun _ => none

/-- Three domains a refresh could fetch. -/
def sampleFetched : List Text :=
  ["a.example", "b.example", "c.example"].map String.toList

/-- The operator's own domain, and the switched-off pool, both reloaded
and then overwritten by the next refresh. -/
theorem reload_choice_lost :
    (¬ ∀ ys zs d,
      [Action.reload (.text "CF_PROXY_DOMAIN=mine.example\n".toList),
        .refresh sampleFetched] = ys ++ zs →
      run apply ys (start stockEnv) = some d → Honours d)
    ∧ ¬ ∀ ys zs d,
      [Action.reload (.text "WRTG_CFPROXY_AUTO=0\n".toList),
        .refresh sampleFetched] = ys ++ zs →
      run apply ys (start stockEnv) = some d → Honours d := by
  constructor
  · intro h
    have hpool := h _ [] _ (List.append_nil _).symm rfl _
      ["mine.example".toList] rfl (by decide +kernel)
    exact absurd hpool (by decide +kernel)
  · intro h
    have hpool := h _ [] _ (List.append_nil _).symm rfl _ [] rfl
      (by decide +kernel)
    exact absurd hpool (by decide +kernel)

end Wrtg.Config
