/-
The CF Proxy dials in every interleaving of the calls: the permits they
share (`slots_conserved`), what one call dials (`session_dials`), and
what the 429 cooldown of a domain says of its past
(`cooldown_evidence`).

The permits are an equation, free and held ones against the limit
(`Inv.permits`), which each step keeps by the law of `tally` for what it
does to the list. A call's dials so far are tied to its phase (`Task.Ok`),
and a session that is over to what it returned (`Over`).

# Sections

* sessions: the hosts behind and the hosts left
* invariant: permits, tasks, sessions
* steps, and runs
-/
import Mathlib.Data.List.Count
import Wrtg.CfProxy
import Wrtg.Lib.Run
import Wrtg.Lib.Tally
import Wrtg.Proofs.Cooldown429

namespace Wrtg.CfProxy

open Lib Ws

variable {s s' : State} {limit : Nat}

abbrev Dials := List (Dial × Except WsConnectError Unit)

def Session.hosts (c : Session) : List Text :=
  cfProxyHosts c.cfDomain c.dc c.isMedia

theorem hosts_ne_nil (c : Session) : c.hosts ≠ [] := by
  unfold Session.hosts cfProxyHosts
  split <;> exact List.cons_ne_nil _ _

/-- The media host is longer by the two characters it has more. -/
theorem hosts_nodup (c : Session) : c.hosts.Nodup := by
  unfold Session.hosts cfProxyHosts
  split
  · exact List.nodup_singleton _
  · next hmedia =>
    have hmedia : c.isMedia = true := by simpa using hmedia
    rw [hmedia]
    refine List.nodup_cons.mpr ⟨fun hmem => ?_, List.nodup_singleton _⟩
    have hlength := congrArg List.length (List.mem_singleton.mp hmem)
    unfold cfProxyWsDomain at hlength
    simp at hlength
    omega

-- ============================================================ sessions

/-- A host dialled by its name. -/
def byName (host : Text) : Dial := { dialHost := host, sniHost := host }

/-- The dials of a host, by its name or by an address. -/
def dialsFor (host : Text) (dials : Dials) : Nat :=
  dials.countP (·.1.sniHost == host)

/-- An address is dialled only behind its host, where that failed in a
way another address may mend, and only one that the lookup has found. -/
def Retried (lookups : List (Text × Option Text)) (dials : Dials) : Prop :=
  ∀ pre dial res post, dials = pre ++ (dial, res) :: post →
    dial = byName dial.sniHost
    ∨ dial.dialHost ≠ []
      ∧ (dial.sniHost, some dial.dialHost) ∈ lookups
      ∧ ∃ pre' e, pre = pre' ++ [(byName dial.sniHost, .error e)]
        ∧ isTransport e = true

/-- Every dial has failed, none with a 429. -/
def Failed (dials : Dials) : Prop :=
  ∀ x ∈ dials, ∃ e, x.2 = .error e ∧ isWsHttpStatus e 429 = false

/-- The hosts in `before` were dialled, at most twice each, and those in
`left` were not. -/
structure Through (hosts before left : List Text) (dials : Dials) :
    Prop where
  split : hosts = before ++ left
  named : ∀ host ∈ before, ∃ res, (byName host, res) ∈ dials
  twice : ∀ host, dialsFor host dials ≤ 2
  fresh : ∀ host ∈ left, dialsFor host dials = 0

/-- What holds of the dials of any session. -/
structure Session.Sound (c : Session) : Prop where
  hosts : ∀ x ∈ c.dials, x.1.sniHost ∈ c.hosts
  retried : Retried c.lookups c.dials
  twice : ∀ host, dialsFor host c.dials ≤ 2

/-- The last of the dials was one of the host's name, and failed in a way
another address may mend. -/
structure Resolvable (host : Text) (hostErr : WsConnectError)
    (dials pre : Dials) : Prop where
  last : dials = pre ++ [(byName host, .error hostErr)]
  transport : isTransport hostErr = true

/-- The dials of a running session fit its phase. -/
def Task.Ok (t : Task) : Prop :=
  t.session.Sound ∧ Failed t.session.dials
    ∧ match t.phase with
      | .waiting => t.session.dials = []
      | .dialling host rest =>
          ∃ before, Through t.session.hosts before (host :: rest)
            t.session.dials
      | .resolving host hostErr rest =>
          ∃ before pre, Through t.session.hosts before (host :: rest) pre
            ∧ Resolvable host hostErr t.session.dials pre
      | .redialling host resolvedIp rest =>
          resolvedIp ≠ [] ∧ (host, some resolvedIp) ∈ t.session.lookups
            ∧ ∃ before pre hostErr,
            Through t.session.hosts before (host :: rest) pre
              ∧ Resolvable host hostErr t.session.dials pre

/-- A session that is over. It went on behind failures only, that are no
429. If it returned, it did so with what its last dial came to, and with
an error other than a 429 it has dialled every host. -/
structure Over (c : Session) (res : Option (Except WsConnectError Unit)) :
    Prop where
  sound : c.Sound
  failed : Failed c.dials.dropLast
  last : ∀ r, res = some r → ∃ pre dial, c.dials = pre ++ [(dial, r)]
  all : ∀ e, res = some (.error e) → isWsHttpStatus e 429 = false →
    ∀ host ∈ c.hosts, ∃ res, (byName host, res) ∈ c.dials

/-- A call that panics in its mark returns nothing. -/
theorem Over.panicked {c : Session}
    {res : Option (Except WsConnectError Unit)} (h : Over c res) :
    Over c none where
  sound := h.sound
  failed := h.failed
  last := by
    intro r hr
    cases hr
  all := by
    intro e he
    cases he

/-- The session with a dial more. -/
def Session.dialled (c : Session) (dial : Dial)
    (res : Except WsConnectError Unit) : Session :=
  { c with dials := c.dials ++ [(dial, res)] }

theorem dialsFor_append (host : Text) (dials more : Dials) :
    dialsFor host (dials ++ more)
      = dialsFor host dials + dialsFor host more :=
  List.countP_append

theorem dialsFor_le_length (host : Text) (dials : Dials) :
    dialsFor host dials ≤ dials.length :=
  List.countP_le_length

/-- Dials of one host are none of another's. -/
theorem dialsFor_ne {host name : Text} {dials : Dials}
    (hdials : ∀ x ∈ dials, x.1.sniHost = host) (hne : name ≠ host) :
    dialsFor name dials = 0 := by
  refine List.countP_eq_zero.mpr fun x hx => ?_
  rw [hdials x hx, beq_iff_eq]
  exact hne.symm

theorem Retried.name {lookups : List (Text × Option Text)} {dials : Dials}
    (h : Retried lookups dials) (host : Text)
    (res : Except WsConnectError Unit) :
    Retried lookups (dials ++ [(byName host, res)]) := by
  intro pre dial r post heq
  rcases List.eq_nil_or_concat post with rfl | ⟨post, last, rfl⟩
  · have hlast := (List.append_inj_right' heq rfl)
    cases hlast
    exact .inl rfl
  · rw [List.concat_eq_append, ← List.cons_append, ← List.append_assoc]
      at heq
    exact h pre dial r post (List.append_inj_left' heq rfl)

/-- What is found later takes nothing back. -/
theorem Retried.looked {lookups : List (Text × Option Text)} {dials : Dials}
    (h : Retried lookups dials) (found : Text × Option Text) :
    Retried (lookups ++ [found]) dials := by
  intro pre dial res post heq
  exact (h pre dial res post heq).imp id
    fun h => ⟨h.1, List.mem_append_left _ h.2.1, h.2.2⟩

theorem Retried.address {lookups : List (Text × Option Text)} {pre : Dials}
    {host ip : Text} {e : WsConnectError}
    (h : Retried lookups (pre ++ [(byName host, .error e)]))
    (he : isTransport e = true) (hip : ip ≠ [])
    (hfound : (host, some ip) ∈ lookups)
    (res : Except WsConnectError Unit) :
    Retried lookups (pre ++ [(byName host, .error e)]
      ++ [({ dialHost := ip, sniHost := host }, res)]) := by
  intro pre' dial r post heq
  rcases List.eq_nil_or_concat post with rfl | ⟨post, last, rfl⟩
  · have hinit := List.append_inj_left' heq rfl
    have hlast := List.append_inj_right' heq rfl
    cases hlast
    exact .inr ⟨hip, hfound, pre, e, hinit.symm, he⟩
  · rw [List.concat_eq_append, ← List.cons_append, ← List.append_assoc]
      at heq
    exact h pre' dial r post (List.append_inj_left' heq rfl)

theorem Failed.nil : Failed [] := by
  intro x hx
  cases hx

theorem Failed.snoc {dials : Dials} (h : Failed dials) (dial : Dial)
    {e : WsConnectError} (he : isWsHttpStatus e 429 = false) :
    Failed (dials ++ [(dial, .error e)]) := by
  intro x hx
  rcases List.mem_append.mp hx with hx | hx
  · exact h x hx
  · cases List.mem_singleton.mp hx
    exact ⟨e, rfl, he⟩

theorem Failed.dropLast {dials : Dials} (h : Failed dials) :
    Failed dials.dropLast :=
  fun x hx => h x (List.dropLast_subset dials hx)

theorem Through.none (hosts : List Text) : Through hosts [] hosts [] where
  split := rfl
  named := by
    intro host hhost
    cases hhost
  twice := fun _ => Nat.zero_le 2
  fresh := fun _ _ => rfl

theorem Through.member {hosts before rest : List Text} {host : Text}
    {dials : Dials} (h : Through hosts before (host :: rest) dials) :
    host ∈ hosts :=
  h.split ▸ List.mem_append_right before List.mem_cons_self

/-- The host that is dialled now may be dialled twice. -/
theorem Through.dialled {hosts before rest : List Text} {host : Text}
    {dials more : Dials} (h : Through hosts before (host :: rest) dials)
    (hmore : ∀ x ∈ more, x.1.sniHost = host) (hshort : more.length ≤ 2)
    (name : Text) : dialsFor name (dials ++ more) ≤ 2 := by
  rw [dialsFor_append]
  by_cases hname : name = host
  · have hfresh := h.fresh host List.mem_cons_self
    have hle := dialsFor_le_length host more
    rw [hname]
    omega
  · rw [dialsFor_ne hmore hname]
    exact h.twice name

/-- A host is behind once it was dialled, by name and perhaps by an
address. -/
theorem Through.next {hosts before rest : List Text} {host : Text}
    {dials more : Dials} (h : Through hosts before (host :: rest) dials)
    (hnodup : hosts.Nodup) (res : Except WsConnectError Unit)
    (hnamed : (byName host, res) ∈ more)
    (hmore : ∀ x ∈ more, x.1.sniHost = host) (hshort : more.length ≤ 2) :
    Through hosts (before ++ [host]) rest (dials ++ more) where
  split := by rw [h.split, List.append_assoc, List.singleton_append]
  named := by
    intro name hname
    rcases List.mem_append.mp hname with hname | hname
    · obtain ⟨r, hr⟩ := h.named name hname
      exact ⟨r, List.mem_append_left _ hr⟩
    · cases List.mem_singleton.mp hname
      exact ⟨res, List.mem_append_right _ hnamed⟩
  twice := h.dialled hmore hshort
  fresh := by
    intro name hname
    have hne : name ≠ host := by
      intro heq
      rw [h.split, List.nodup_append] at hnodup
      have hhead := (List.nodup_cons.mp hnodup.2.1).1
      exact hhead (heq ▸ hname)
    rw [dialsFor_append, dialsFor_ne hmore hne,
      h.fresh name (List.mem_cons_of_mem host hname)]

/-- With none left, all hosts were dialled. -/
theorem Through.all {hosts before : List Text} {dials : Dials}
    (h : Through hosts before [] dials) (host : Text) (hhost : host ∈ hosts) :
    ∃ res, (byName host, res) ∈ dials := by
  rw [h.split, List.append_nil] at hhost
  exact h.named host hhost

-- =========================================================== invariant

/-- The permits a call holds. -/
def Task.held (t : Task) : Nat := if t.phase.holds then 1 else 0

structure Inv (limit : Nat) (s : State) : Prop where
  permits : s.permits + tally Task.held s.tasks = limit
  tasks : ∀ t ∈ s.tasks, t.Ok
  sessions : ∀ p ∈ s.sessions, Over p.1 p.2

theorem inv_start (base max now : Nat) :
    Inv limit (start base max limit now) where
  permits := Nat.add_zero limit
  tasks := by
    intro t ht
    cases ht
  sessions := by
    intro p hp
    cases hp

/-- What is not in the invariant may change. -/
theorem Inv.of_eq (h : Inv limit s) (hpermits : s'.permits = s.permits)
    (htasks : s'.tasks = s.tasks) (hsessions : s'.sessions = s.sessions) :
    Inv limit s' where
  permits := by rw [hpermits, htasks]; exact h.permits
  tasks := htasks ▸ h.tasks
  sessions := hsessions ▸ h.sessions

/-- A call goes on, with its permit. -/
theorem Inv.goOn (h : Inv limit s) {i : Nat} {t t' : Task}
    (ht : s.tasks[i]? = some t) (hheld : t'.held = t.held) (hok : t'.Ok) :
    Inv limit { s with tasks := s.tasks.set i t' } where
  permits := by
    have hset := tally_set (f := Task.held) ht t'
    have := h.permits
    show s.permits + tally Task.held (s.tasks.set i t') = limit
    omega
  tasks := by
    intro u hu
    rcases List.mem_or_eq_of_mem_set hu with hu | rfl
    · exact h.tasks u hu
    · exact hok
  sessions := h.sessions

/-- A call takes a permit. -/
theorem Inv.acquire (h : Inv limit s) {i : Nat} {t t' : Task}
    (ht : s.tasks[i]? = some t) (hfree : 0 < s.permits) (hheld : t.held = 0)
    (hheld' : t'.held = 1) (hok : t'.Ok) :
    Inv limit { s with
      permits := s.permits - 1
      tasks := s.tasks.set i t' } where
  permits := by
    have hset := tally_set (f := Task.held) ht t'
    have := h.permits
    show s.permits - 1 + tally Task.held (s.tasks.set i t') = limit
    omega
  tasks := by
    intro u hu
    rcases List.mem_or_eq_of_mem_set hu with hu | rfl
    · exact h.tasks u hu
    · exact hok
  sessions := h.sessions

/-- A call is over, and its permit free. -/
theorem Inv.leave (h : Inv limit s) {i : Nat} {t : Task}
    (ht : s.tasks[i]? = some t) (hheld : t.held = 1) {session : Session}
    {res : Option (Except WsConnectError Unit)} (hover : Over session res) :
    Inv limit (s.leave i session res) where
  permits := by
    have herase := tally_eraseIdx (f := Task.held) ht
    have := h.permits
    show s.permits + 1 + tally Task.held (s.tasks.eraseIdx i) = limit
    omega
  tasks := fun u hu => h.tasks u (List.mem_of_mem_eraseIdx hu)
  sessions := by
    intro p hp
    rcases List.mem_cons.mp hp with rfl | hp
    · exact hover
    · exact h.sessions p hp

/-- Marks and clears leave the permits and the calls alone. -/
theorem Inv.finish (h : Inv limit s) {i : Nat} {t : Task}
    (ht : s.tasks[i]? = some t) (hheld : t.held = 1) {session : Session}
    {res : Except WsConnectError Unit} (hover : Over session (some res)) :
    Inv limit (s.finish i session res) := by
  have hleft := h.leave ht hheld hover
  unfold State.finish
  split
  · exact hleft.of_eq rfl rfl rfl
  · split
    · simp only
      split
      · exact hleft.of_eq rfl rfl rfl
      · exact (h.leave ht hheld hover.panicked).of_eq rfl rfl rfl
    · exact hleft

/-- The host behind which the loop goes on failed with `e`. -/
theorem Inv.hostFailed (h : Inv limit s) {i : Nat} {t : Task}
    (ht : s.tasks[i]? = some t) (hheld : t.held = 1) {session : Session}
    {e : WsConnectError} {rest : List Text} {pre : Dials} {dial : Dial}
    (hsound : session.Sound) (hlast : session.dials = pre ++ [(dial, .error e)])
    (hfailed : Failed pre)
    (hthrough : ∃ before, Through session.hosts before rest session.dials) :
    Inv limit (s.hostFailed i session e rest) := by
  have hover (hnone : isWsHttpStatus e 429 = false → rest = []) :
      Over session (some (.error e)) := by
    obtain ⟨before, hthrough⟩ := hthrough
    refine ⟨hsound, ?_, ?_, ?_⟩
    · rw [hlast, List.dropLast_concat]
      exact hfailed
    · intro r hr
      cases hr
      exact ⟨pre, dial, hlast⟩
    · intro e' he' hstatus host hhost
      cases he'
      rw [hnone hstatus] at hthrough
      exact hthrough.all host hhost
  unfold State.hostFailed
  split
  · next hlimited =>
    refine h.finish ht hheld (hover fun hstatus => ?_)
    rw [hstatus] at hlimited
    cases hlimited
  · next hstatus =>
    have hstatus := Bool.eq_false_iff.mpr hstatus
    split
    · exact h.finish ht hheld (hover fun _ => rfl)
    · refine h.goOn ht ?_ ⟨hsound, ?_, hthrough⟩
      · rw [hheld]
        rfl
      · rw [show ({ session, phase := _ } : Task).session.dials
          = pre ++ [(dial, .error e)] from hlast]
        exact hfailed.snoc dial hstatus

-- =============================================================== steps

/-- A dial of the host's name keeps a session sound. -/
theorem Session.Sound.name {c : Session} {before rest : List Text}
    {host : Text} (h : c.Sound)
    (hthrough : Through c.hosts before (host :: rest) c.dials)
    (res : Except WsConnectError Unit) :
    (c.dialled (byName host) res).Sound where
  hosts := by
    intro x hx
    rcases List.mem_append.mp hx with hx | hx
    · exact h.hosts x hx
    · cases List.mem_singleton.mp hx
      exact hthrough.member
  retried := h.retried.name host res
  twice := hthrough.dialled (by simp [byName]) (Nat.le_succ 1)

/-- And so does one of its address. -/
theorem Session.Sound.address {c : Session} {before rest : List Text}
    {host ip : Text} {hostErr : WsConnectError} {pre : Dials} (h : c.Sound)
    (hthrough : Through c.hosts before (host :: rest) pre)
    (hresolvable : Resolvable host hostErr c.dials pre) (hip : ip ≠ [])
    (hfound : (host, some ip) ∈ c.lookups)
    (res : Except WsConnectError Unit) :
    (c.dialled { dialHost := ip, sniHost := host } res).Sound where
  hosts := by
    intro x hx
    rcases List.mem_append.mp hx with hx | hx
    · exact h.hosts x hx
    · cases List.mem_singleton.mp hx
      exact hthrough.member
  retried := by
    have hretried := h.retried
    rw [hresolvable.last] at hretried
    show Retried c.lookups (c.dials ++ [_])
    rw [hresolvable.last]
    exact hretried.address hresolvable.transport hip hfound res
  twice := by
    intro name
    show dialsFor name (c.dials ++ [_]) ≤ 2
    rw [hresolvable.last, List.append_assoc]
    have hmore : ∀ x ∈ [(byName host, .error hostErr),
        ({ dialHost := ip, sniHost := host }, res)], x.1.sniHost = host := by
      simp [byName]
    exact hthrough.dialled hmore (Nat.le_refl 2) name

/-- A lookup keeps it sound. -/
theorem Session.Sound.looked {c : Session} (h : c.Sound)
    (found : Text × Option Text) :
    Session.Sound { c with lookups := c.lookups ++ [found] } where
  hosts := h.hosts
  retried := h.retried.looked found
  twice := h.twice

theorem over_connected {c : Session} {dial : Dial}
    (hsound : (c.dialled dial (.ok ())).Sound) (hfailed : Failed c.dials) :
    Over (c.dialled dial (.ok ())) (some (.ok ())) := by
  refine ⟨hsound, ?_, ?_, ?_⟩
  · show Failed (c.dials ++ [_]).dropLast
    rw [List.dropLast_concat]
    exact hfailed
  · intro r hr
    cases hr
    exact ⟨c.dials, dial, rfl⟩
  · intro e he
    cases he

theorem over_dropped {c : Session} (hsound : c.Sound)
    (hfailed : Failed c.dials) : Over c none where
  sound := hsound
  failed := hfailed.dropLast
  last := by
    intro r hr
    cases hr
  all := by
    intro e he
    cases he

theorem sound_admitted (cfDomain : Text) (dc : Int) (isMedia : Bool)
    (admitted : Nat) :
    Session.Sound { cfDomain, dc, isMedia, admitted
                    dials := [], lookups := [] } where
  hosts := by
    intro x hx
    cases hx
  retried := by
    intro pre dial res post heq
    exact absurd heq.symm (List.append_ne_nil_of_right_ne_nil pre
      (List.cons_ne_nil _ _))
  twice := fun _ => Nat.zero_le 2

theorem inv_step {a : Action} (h : Inv limit s)
    (hstep : apply a s = some s') : Inv limit s' := by
  cases a with
  | pass duration =>
      cases hstep
      exact h.of_eq rfl rfl rfl
  | call cfDomain dc isMedia =>
      simp only [apply] at hstep
      split at hstep
      · cases hstep
        exact h.of_eq rfl rfl rfl
      · cases hstep
        refine ⟨?_, ?_, h.sessions⟩
        · show s.permits + (0 + tally Task.held s.tasks) = limit
          rw [Nat.zero_add]
          exact h.permits
        · intro t ht
          rcases List.mem_cons.mp ht with rfl | ht
          · exact ⟨sound_admitted cfDomain dc isMedia s.now, Failed.nil, rfl⟩
          · exact h.tasks t ht
  | acquired i =>
      simp only [apply] at hstep
      split at hstep
      · next session ht =>
        obtain ⟨hsound, hfailed, hdials⟩ :=
          h.tasks _ (List.mem_of_getElem? ht)
        split at hstep
        · next hfree =>
          split at hstep
          · next hnone => exact absurd hnone (hosts_ne_nil session)
          · next host rest hhosts =>
            cases hstep
            refine h.acquire ht hfree rfl rfl ⟨hsound, hfailed, [], ?_⟩
            show Through session.hosts [] (host :: rest) session.dials
            rw [show session.dials = [] from hdials, ← hhosts]
            exact .none session.hosts
        · cases hstep
      · cases hstep
  | dialled i res =>
      simp only [apply] at hstep
      split at hstep
      · next session host rest ht =>
        obtain ⟨hsound, hfailed, before, hthrough⟩ :=
          h.tasks _ (List.mem_of_getElem? ht)
        have hsound' := hsound.name hthrough res
        have hbehind := hthrough.next (hosts_nodup session) res
          (List.mem_singleton_self _) (by simp [byName]) (Nat.le_succ 1)
        split at hstep
        · cases hstep
          exact h.finish ht rfl (over_connected hsound' hfailed)
        · next e =>
          split at hstep
          · cases hstep
            exact h.hostFailed ht rfl hsound' rfl hfailed ⟨_, hbehind⟩
          · next hstatus =>
            have hstatus := Bool.eq_false_iff.mpr hstatus
            split at hstep
            · cases hstep
              exact h.hostFailed ht rfl hsound' rfl hfailed ⟨_, hbehind⟩
            · next htransport =>
              cases hstep
              rw [Bool.not_eq_true, Bool.not_eq_false'] at htransport
              exact h.goOn ht rfl ⟨hsound', hfailed.snoc _ hstatus, before,
                session.dials, hthrough, rfl, htransport⟩
      · next session host ip rest ht =>
        obtain ⟨hsound, hfailed, hip, hfound, before, pre, hostErr, hthrough,
          hresolvable⟩ := h.tasks _ (List.mem_of_getElem? ht)
        have hsound' := hsound.address hthrough hresolvable hip hfound res
        split at hstep
        · cases hstep
          exact h.finish ht rfl (over_connected hsound' hfailed)
        · next e =>
          cases hstep
          refine h.hostFailed ht rfl hsound' rfl hfailed ⟨before ++ [host], ?_⟩
          show Through _ _ _ (session.dials ++ [_])
          rw [hresolvable.last, List.append_assoc]
          exact hthrough.next (hosts_nodup session) (.error hostErr)
            List.mem_cons_self (by simp [byName]) (Nat.le_refl 2)
      · cases hstep
  | resolved i ip =>
      simp only [apply] at hstep
      split at hstep
      · next session host hostErr rest ht =>
        obtain ⟨hsound, hfailed, before, pre, hthrough, hresolvable⟩ :=
          h.tasks _ (List.mem_of_getElem? ht)
        have hpre : Failed pre := by
          intro x hx
          refine hfailed x ?_
          rw [show session.dials = _ from hresolvable.last]
          exact List.mem_append_left _ hx
        split at hstep
        · cases hstep
          refine h.hostFailed ht rfl (hsound.looked (host, ip))
            hresolvable.last hpre ⟨before ++ [host], ?_⟩
          show Through session.hosts _ _ session.dials
          rw [hresolvable.last]
          exact hthrough.next (hosts_nodup session) (.error hostErr)
            (List.mem_singleton_self _) (by simp [byName]) (Nat.le_succ 1)
        · next hip =>
          cases hstep
          rw [List.isEmpty_iff] at hip
          refine h.goOn ht rfl ⟨hsound.looked (host, ip), hfailed, hip, ?_,
            before, pre, hostErr, hthrough, hresolvable⟩
          cases ip with
          | none => exact absurd rfl hip
          | some found => exact List.mem_append_right _ List.mem_cons_self
      · cases hstep
  | dropped i =>
      simp only [apply] at hstep
      split at hstep
      · next session phase ht =>
        have hok := h.tasks _ (List.mem_of_getElem? ht)
        split at hstep
        · next hholds =>
          cases hstep
          exact h.leave ht (if_pos hholds) (over_dropped hok.1 hok.2.1)
        · next hholds =>
          cases hstep
          refine ⟨?_, fun u hu => h.tasks u (List.mem_of_mem_eraseIdx hu),
            h.sessions⟩
          have herase := tally_eraseIdx (f := Task.held) ht
          have hheld : Task.held { session, phase } = 0 := if_neg hholds
          have := h.permits
          show s.permits + tally Task.held (s.tasks.eraseIdx i) = limit
          omega
      · cases hstep

theorem inv_run {base max now : Nat} {as : List Action}
    (hrun : run apply as (start base max limit now) = some s) :
    Inv limit s :=
  run_history apply (P := fun _ s => Inv limit s) hrun
    (inv_start base max now) fun _ _ _ _ _ h hstep => inv_step h hstep

/-- No permit of the semaphore is lost or made, however calls connect,
fail, time out or are aborted: the free ones and the sessions behind one
are always as many as the limit. So no more than the limit dial at once,
all are free where no call runs, and a call waits only while the limit is
reached. -/
theorem slots_conserved {base max now : Nat} {as : List Action}
    (hrun : run apply as (start base max limit now) = some s) :
    s.permits + tally Task.held s.tasks = limit
      ∧ tally Task.held s.tasks ≤ limit
      ∧ (s.tasks = [] → s.permits = limit)
      ∧ ∀ (i : Nat) (c : Session), s.tasks[i]? = some ⟨c, .waiting⟩ →
        tally Task.held s.tasks < limit →
        (apply (.acquired i) s).isSome = true := by
  have hpermits := (inv_run hrun).permits
  refine ⟨hpermits, Nat.le.intro ((Nat.add_comm ..).trans hpermits), ?_, ?_⟩
  · intro hnone
    rw [hnone] at hpermits
    exact hpermits
  · intro i c ht hroom
    have hfree : 0 < s.permits := by omega
    simp only [apply, ht]
    rw [if_pos hfree]
    split <;> rfl

/-- What a call dials, amid any other calls. Every dial is for a host of
the domain and data center, and none is dialled more than twice: the name
first, and an address, one that the lookup of the host has found, only
right behind a transport failure of the name. A call goes on only behind
failures that are no 429. It returns what its last dial came to, and an
error that is no 429 only once it has dialled all its hosts. -/
theorem session_dials {base max now : Nat} {as : List Action}
    (hrun : run apply as (start base max limit now) = some s)
    {c : Session} {res : Option (Except WsConnectError Unit)}
    (hc : (c, res) ∈ s.sessions) :
    (∀ x ∈ c.dials, x.1.sniHost ∈ c.hosts)
      ∧ (∀ host, dialsFor host c.dials ≤ 2)
      ∧ Retried c.lookups c.dials
      ∧ Failed c.dials.dropLast
      ∧ (∀ r, res = some r → ∃ pre dial, c.dials = pre ++ [(dial, r)])
      ∧ ∀ e, res = some (.error e) → isWsHttpStatus e 429 = false →
          ∀ host ∈ c.hosts, ∃ res, (byName host, res) ∈ c.dials := by
  have hover := (inv_run hrun).sessions _ hc
  exact ⟨hover.sound.hosts, hover.sound.twice, hover.sound.retried,
    hover.failed, hover.last, hover.all⟩

-- ============================================================== sample

/-- A media call for the one slot, another that waits behind it, and a
third that is dropped in line. The media host is not found, its address
is, and refuses, and the other host connects; then the second call's turn
comes. -/
def mediaRun : List Action :=
  [ .call "a.example".toList 2 true, .acquired 0,
    .call "b.example".toList 4 false, .call "c.example".toList 4 false,
    .dropped 0, .dialled 1 (.error .timeout),
    .resolved 1 (some "192.0.2.1".toList), .dialled 1 (.error .timeout),
    .dialled 1 (.ok ()), .acquired 0 ]

/-- Its first session. -/
def mediaSession : Session where
  cfDomain := "a.example".toList
  dc := 2
  isMedia := true
  admitted := 0
  dials := [ (byName "kws2-1.a.example".toList, .error .timeout),
             ({ dialHost := "192.0.2.1".toList
                sniHost := "kws2-1.a.example".toList }, .error .timeout),
             (byName "kws2.a.example".toList, .ok ()) ]
  lookups := [("kws2-1.a.example".toList, some "192.0.2.1".toList)]

theorem media_run :
    (run apply mediaRun (start 45 300 1 0)).map (fun s =>
        (s.sessions, s.permits, s.tasks.length))
      = some ([(mediaSession, some (.ok ()))], 0, 1) := by
  decide +kernel

theorem media_contended :
    (run apply (mediaRun.take 4) (start 45 300 1 0)).map (fun s =>
        (s.permits, s.tasks.length)) = some (0, 3) := by
  decide +kernel

/-- Three calls at once, and the one permit is with one of them. -/
theorem slots_conserved_sample :
    ∃ s, run apply (mediaRun.take 4) (start 45 300 1 0) = some s
      ∧ s.tasks.length = 3 ∧ tally Task.held s.tasks = 1 := by
  obtain ⟨s, hrun, hs⟩ := Option.map_eq_some_iff.mp media_contended
  simp only [Prod.mk.injEq] at hs
  have hconserved := (slots_conserved hrun).1
  rw [hs.1, Nat.zero_add] at hconserved
  exact ⟨s, hrun, hs.2, hconserved⟩

theorem session_dials_sample :
    (∀ host, dialsFor host mediaSession.dials ≤ 2)
      ∧ Retried mediaSession.lookups mediaSession.dials := by
  obtain ⟨s, hrun, hs⟩ := Option.map_eq_some_iff.mp media_run
  have hsessions : s.sessions = [(mediaSession, some (.ok ()))] :=
    congrArg (·.1) hs
  have hc : (mediaSession, some (.ok ())) ∈ s.sessions := by
    rw [hsessions]
    exact List.mem_singleton_self _
  obtain ⟨_, htwice, hretried, _⟩ := session_dials hrun hc
  exact ⟨htwice, hretried⟩

end Wrtg.CfProxy
