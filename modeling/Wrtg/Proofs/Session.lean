/-
What a session counts (`main.rs`, `bridge.rs`).

Outside the race of the CF Proxy rung a step takes a session from one
stage to the next and counts that, and there are few such moves
(`apply_moves`). So an inequality between sums of counts is a balance:
what the lower sum may still come to is owed by the stage, and whether
every move keeps it is decided on the list of moves (`Balance`). A race
counts by its own ledger. What a session has counted by the place it
stands at is in its books, which every step keeps (`books_step`).
-/
import Wrtg.Proofs.CfRace
import Wrtg.Session

namespace Wrtg.Session

open Lib Media Stats

-- ============================================================== stages

/-- No rung has taken the session; a bridge has; it is in the blind relay
before an answer, in a Worker's tunnel, behind the answer of the front, or
over. -/
inductive Stage where
  | undecided
  | bridging
  | waiting
  | tunnelling
  | copying
  | over
  deriving DecidableEq, Repr

def stages : List Stage :=
  [.undecided, .bridging, .waiting, .tunnelling, .copying, .over]

theorem mem_stages (s : Stage) : s ∈ stages := by cases s <;> decide

def Pc.stage : Pc → Stage
  | .bridging => .bridging
  | .passthrough => .waiting
  | .passing _ => .waiting
  | .front => .waiting
  | .relaying => .waiting
  | .tunnelling => .tunnelling
  | .copying => .copying
  | .ended => .over
  | _ => .undecided

/-- Outside the race. -/
def Pc.atRest : Pc → Bool
  | .race _ => false
  | _ => true

/-- At that stage, and outside the race. -/
def Pc.At (pc : Pc) (stage : Stage) : Prop :=
  pc.stage = stage ∧ pc.atRest = true

-- =========================================================== the steps

/-- What a step does to the stage, and what it counts. -/
structure Move where
  source : Stage
  counts : List Stat
  target : Stage
  deriving DecidableEq, Repr

/-- A session stays in its stage, or ends without a count, or makes one of
these. -/
def moves : List Move :=
  stages.map (fun s => ⟨s, [], s⟩) ++ stages.map (fun s => ⟨s, [], .over⟩) ++
  [⟨.undecided, [.selfConnectDropped], .over⟩,
    ⟨.undecided, [.wsPoolHit], .bridging⟩,
    ⟨.undecided, [.wsDirect], .bridging⟩,
    ⟨.undecided, [.fronting], .bridging⟩,
    ⟨.undecided, [.cfWorker], .bridging⟩,
    ⟨.undecided, [.tcpFallback], .bridging⟩,
    ⟨.undecided, [.blindRelay], .waiting⟩,
    ⟨.undecided, [.allPathsFailed, .blindRelay], .waiting⟩,
    ⟨.bridging, [.idleReaped], .over⟩,
    ⟨.waiting, [.workerPassthrough], .tunnelling⟩,
    ⟨.waiting, [], .copying⟩,
    ⟨.waiting, [.mediaHttpRejected], .copying⟩,
    ⟨.tunnelling, [.idleReaped], .over⟩,
    ⟨.tunnelling, [.passthroughNoData], .over⟩,
    ⟨.tunnelling, [.idleReaped, .passthroughNoData], .over⟩]

/-- A step outside the race is a move. -/
def IsMove (pc : Pc) (counts : List Stat) (pc' : Pc) : Prop :=
  ∃ m ∈ moves, pc.At m.source ∧ pc'.At m.target ∧ counts = m.counts

/-- A race begins. -/
def Opens (pc : Pc) (counts : List Stat) (pc' : Pc) : Prop :=
  pc.At .undecided ∧ counts = [] ∧ ∃ cfDomains isMedia,
    pc' = afterRace (CfRace.start cfDomains isMedia ⟨0, 0, 0⟩)

/-- A race takes a step. -/
def Races (pc : Pc) (counts : List Stat) (pc' : Pc) : Prop :=
  ∃ r r' a, pc = .race r ∧ raceStep a r = some (counts, r')
    ∧ pc' = afterRace r'

variable {counts : List Stat} {sess sess' : State}

theorem Pc.At.of_eq {pc pc' : Pc} {stage : Stage} (hat : pc'.At stage)
    (h : pc = pc') : pc.At stage := h ▸ hat

theorem stays {pc pc' : Pc} {stage : Stage} (hpc : pc.At stage)
    (hpc' : pc'.At stage) : IsMove pc [] pc' :=
  ⟨⟨stage, [], stage⟩, List.mem_append_left _ (List.mem_append_left _
    (List.mem_map_of_mem (mem_stages _))), hpc, hpc', rfl⟩

theorem leaves {pc : Pc} (hpc : pc.atRest = true) : IsMove pc [] .ended :=
  ⟨⟨pc.stage, [], .over⟩, List.mem_append_left _ (List.mem_append_right _
    (List.mem_map_of_mem (mem_stages _))), ⟨rfl, hpc⟩, ⟨rfl, rfl⟩, rfl⟩

theorem moved {pc pc' : Pc} (m : Move) (hm : m ∈ moves)
    (hpc : pc.At m.source) (hpc' : pc'.At m.target) :
    IsMove pc m.counts pc' :=
  ⟨m, hm, hpc, hpc', rfl⟩

/-- Behind the blind relay's own count the session waits. -/
theorem blindRelay_waits (counts : List Stat) (sess : State) :
    (blindRelay counts sess).1 = counts ++ [.blindRelay]
      ∧ (blindRelay counts sess).2.pc.At .waiting := by
  refine ⟨rfl, ?_⟩
  show Pc.At (if _ then Pc.passthrough else Pc.front) .waiting
  split <;> exact ⟨rfl, rfl⟩

theorem blindRelay_moves (hpc : sess.pc.At .undecided)
    (h : blindRelay [] sess = (counts, sess')) :
    IsMove sess.pc counts sess'.pc := by
  have hwaits := blindRelay_waits [] sess
  rw [h] at hwaits
  obtain ⟨hcounts, hpc'⟩ := hwaits
  simp only at hcounts hpc'
  rw [hcounts]
  exact moved ⟨.undecided, [.blindRelay], .waiting⟩ (by decide) hpc hpc'

theorem tcpLoop_moves {left : List Text} (hpc : sess.pc.At .undecided)
    (h : tcpLoop left sess = (counts, sess')) :
    IsMove sess.pc counts sess'.pc := by
  unfold tcpLoop at h
  split at h
  · have hwaits := blindRelay_waits [.allPathsFailed] sess
    rw [h] at hwaits
    obtain ⟨hcounts, hpc'⟩ := hwaits
    simp only at hcounts hpc'
    rw [hcounts]
    exact moved ⟨.undecided, [.allPathsFailed, .blindRelay], .waiting⟩
      (by decide) hpc hpc'
  · cases h
    exact stays hpc ⟨rfl, rfl⟩

/-- A dial that goes through takes the session to a bridge, and counts
that; behind one that does not it is with no rung yet. -/
theorem dial_moves {took : Bool} {stat : Stat} {pc : Pc}
    (hm : ⟨.undecided, [stat], .bridging⟩ ∈ moves)
    (hpc : sess.pc.At .undecided) (hnext : pc.At .undecided)
    (h : (if took then some (sess.to [stat] .bridging)
      else some (sess.to [] pc)) = some (counts, sess')) :
    IsMove sess.pc counts sess'.pc := by
  split at h <;> cases h
  · exact moved ⟨.undecided, [stat], .bridging⟩ hm hpc ⟨rfl, rfl⟩
  · exact stays hpc hnext

/-- Every step is a move or one of a race. -/
theorem apply_moves {a : Action}
    (h : apply a sess = some (counts, sess')) :
    IsMove sess.pc counts sess'.pc ∨ Opens sess.pc counts sess'.pc
      ∨ Races sess.pc counts sess'.pc := by
  cases a with
  | race a =>
      simp only [apply] at h
      split at h
      · next r hpc =>
          obtain ⟨⟨counts, r'⟩, hstep, hr'⟩ := Option.map_eq_some_iff.mp h
          cases hr'
          exact .inr (.inr ⟨r, r', a, hpc, hstep, rfl⟩)
      · cases h
  | conn selfTarget =>
      left
      simp only [apply] at h
      split at h
      · next hpc =>
          split at h <;> cases h
          · exact moved ⟨.undecided, [.selfConnectDropped], .over⟩
              (by decide) (.of_eq ⟨rfl, rfl⟩ hpc) ⟨rfl, rfl⟩
          · exact stays (.of_eq ⟨rfl, rfl⟩ hpc) ⟨rfl, rfl⟩
      · cases h
  | init init =>
      left
      simp only [apply] at h
      split at h
      · next hpc =>
          cases h
          exact leaves (hpc ▸ rfl)
      · next hpc =>
          exact blindRelay_moves (.of_eq ⟨rfl, rfl⟩ hpc)
            (Option.some.inj h)
      · next p hpc =>
          have hreading : sess.pc.At .undecided := .of_eq ⟨rfl, rfl⟩ hpc
          split at h
          · exact blindRelay_moves hreading (Option.some.inj h)
          · cases h
            refine stays hreading ?_
            show (firstRung p).At .undecided
            unfold firstRung
            (repeat' split) <;> exact ⟨rfl, rfl⟩
      · cases h
  | pooled took =>
      left
      simp only [apply] at h
      split at h
      · next hpc =>
          exact dial_moves (by decide) (.of_eq ⟨rfl, rfl⟩ hpc) ⟨rfl, rfl⟩ h
      · cases h
  | direct connected skipFronting =>
      left
      simp only [apply] at h
      split at h
      · next hpc =>
          refine dial_moves (by decide) (.of_eq ⟨rfl, rfl⟩ hpc) ?_ h
          cases skipFronting <;> exact ⟨rfl, rfl⟩
      · cases h
  | fronting connected =>
      left
      simp only [apply] at h
      split at h
      · next hpc =>
          exact dial_moves (by decide) (.of_eq ⟨rfl, rfl⟩ hpc) ⟨rfl, rfl⟩ h
      · cases h
  | cfFallback disabled =>
      left
      simp only [apply] at h
      split at h <;> cases h
      next hpc =>
      cases disabled <;> exact stays (.of_eq ⟨rfl, rfl⟩ hpc) ⟨rfl, rfl⟩
  | workerPool took workers =>
      left
      simp only [apply] at h
      split at h
      · next hpc =>
          exact dial_moves (by decide) (.of_eq ⟨rfl, rfl⟩ hpc) ⟨rfl, rfl⟩ h
      · cases h
  | worker carried =>
      left
      simp only [apply] at h
      split at h
      · next worker left hpc =>
          exact dial_moves (by decide) (.of_eq ⟨rfl, rfl⟩ hpc) ⟨rfl, rfl⟩ h
      · next worker left hpc =>
          split at h <;> cases h
          · exact moved ⟨.waiting, [.workerPassthrough], .tunnelling⟩
              (by decide) (.of_eq ⟨rfl, rfl⟩ hpc) ⟨rfl, rfl⟩
          · cases left <;> exact stays (.of_eq ⟨rfl, rfl⟩ hpc) ⟨rfl, rfl⟩
      · cases h
  | proxies cfDomains =>
      simp only [apply] at h
      split at h <;> cases h
      next hpc =>
      exact .inr (.inl ⟨.of_eq ⟨rfl, rfl⟩ hpc, rfl, cfDomains,
        sess.isMedia, rfl⟩)
  | targets targets =>
      left
      simp only [apply] at h
      split at h
      · next hpc =>
          exact tcpLoop_moves (.of_eq ⟨rfl, rfl⟩ hpc)
            (Option.some.inj h)
      · cases h
  | dialled connected =>
      left
      simp only [apply] at h
      split at h
      · next dst left hpc =>
          split at h
          · cases h
            exact moved ⟨.undecided, [.tcpFallback], .bridging⟩ (by decide)
              (.of_eq ⟨rfl, rfl⟩ hpc) ⟨rfl, rfl⟩
          · exact tcpLoop_moves (.of_eq ⟨rfl, rfl⟩ hpc)
              (Option.some.inj h)
      · cases h
  | closed idleReaped =>
      left
      simp only [apply] at h
      split at h <;> cases h
      next hpc =>
      cases idleReaped
      · exact leaves (hpc ▸ rfl)
      · exact moved ⟨.bridging, [.idleReaped], .over⟩ (by decide)
          (.of_eq ⟨rfl, rfl⟩ hpc) ⟨rfl, rfl⟩
  | passthrough workers =>
      left
      simp only [apply] at h
      split at h <;> cases h
      next hpc =>
      cases workers <;> exact stays (.of_eq ⟨rfl, rfl⟩ hpc) ⟨rfl, rfl⟩
  | tunnelClosed idleReaped noData =>
      left
      simp only [apply] at h
      split at h <;> cases h
      next hpc =>
      have hstage : sess.pc.At .tunnelling := .of_eq ⟨rfl, rfl⟩ hpc
      cases idleReaped <;> cases noData
      · exact leaves (hpc ▸ rfl)
      · exact moved ⟨.tunnelling, [.passthroughNoData], .over⟩ (by decide)
          hstage ⟨rfl, rfl⟩
      · exact moved ⟨.tunnelling, [.idleReaped], .over⟩ (by decide) hstage
          ⟨rfl, rfl⟩
      · exact moved ⟨.tunnelling, [.idleReaped, .passthroughNoData], .over⟩
          (by decide) hstage ⟨rfl, rfl⟩
  | frontDialled connected =>
      left
      simp only [apply] at h
      split at h <;> cases h
      next hpc =>
      cases connected
      · exact leaves (hpc ▸ rfl)
      · exact stays (.of_eq ⟨rfl, rfl⟩ hpc) ⟨rfl, rfl⟩
  | answered learned head =>
      left
      simp only [apply] at h
      split at h <;> cases h
      next hpc =>
      have hstage : sess.pc.At .waiting := .of_eq ⟨rfl, rfl⟩ hpc
      cases hrefused : refused learned sess head
      · exact moved ⟨.waiting, [], .copying⟩ (by decide) hstage ⟨rfl, rfl⟩
      · exact moved ⟨.waiting, [.mediaHttpRejected], .copying⟩ (by decide)
          hstage ⟨rfl, rfl⟩
  | noAnswer =>
      left
      simp only [apply] at h
      split at h <;> cases h
      next hpc =>
      exact leaves (hpc ▸ rfl)
  | copied =>
      left
      simp only [apply] at h
      split at h <;> cases h
      next hpc =>
      exact leaves (hpc ▸ rfl)

-- ============================================================ balances

/-- A sum of counts. -/
def total (L counts : List Stat) : Nat := tally counts.count L

theorem total_append (L counts counts' : List Stat) :
    total L (counts ++ counts') = total L counts + total L counts' := by
  unfold total
  rw [← tally_add]
  congr 1
  funext s
  exact List.count_append

theorem count_le_total (L counts : List Stat) {s t : Stat} (hst : s ≠ t) :
    L.count s * counts.count s + L.count t * counts.count t
      ≤ total L counts := by
  induction L with
  | nil => simp [total]
  | cons u L ih =>
      unfold total at ih ⊢
      rw [tally_cons, List.count_cons, List.count_cons]
      by_cases hs : u = s
      · subst hs
        simp [hst, Nat.add_mul]
        omega
      · by_cases ht : u = t
        · subst ht
          simp [hs, Nat.add_mul]
          omega
        · simp [hs, ht]
          omega

theorem total_eq_zero {L counts : List Stat} (h : ∀ s ∈ L, s ∉ counts) :
    total L counts = 0 := by
  induction L with
  | nil => rfl
  | cons s L ih =>
      have ih := ih fun t ht => h t (List.mem_cons_of_mem _ ht)
      unfold total at ih ⊢
      rw [tally_cons, ih, List.count_eq_zero.mpr (h s List.mem_cons_self)]

/-- What may have been counted while no rung has the session. -/
def opening : List Stat :=
  [.accepted, .cfProxy, .cfProxyMedia, .cfProxyDialFailed]

/-- Two sums of counts, of which the one spends what the other has earned;
what a session may still spend it owes by its stage. A session whose race
is won has earned a connection. -/
structure Balance where
  spent : List Stat
  earned : List Stat
  owed : Stage → Nat
  apart : ∀ s ∈ spent, s ∉ opening
  opens : owed .undecided ≤ earned.count .accepted
  won : owed .bridging ≤ earned.count .accepted + earned.count .cfProxy
  keeps : ∀ m ∈ moves, total spent m.counts + owed m.target
    ≤ owed m.source + total earned m.counts

/-- A session is on one rung at most. -/
def taken : Balance where
  spent := [.selfConnectDropped, .wsPoolHit, .wsDirect, .fronting, .cfWorker,
    .tcpFallback, .blindRelay]
  earned := [.accepted]
  owed stage := if stage = .undecided then 1 else 0
  apart := by decide
  opens := by decide
  won := by decide
  keeps := by decide

/-- Behind all paths there is a blind relay. -/
def fallen : Balance where
  spent := [.allPathsFailed]
  earned := [.blindRelay]
  owed _ := 0
  apart := by decide
  opens := by decide
  won := by decide
  keeps := by decide

/-- A blind relay goes through a Worker, or the front refuses it, or
neither. -/
def blinds : Balance where
  spent := [.workerPassthrough, .mediaHttpRejected]
  earned := [.blindRelay]
  owed stage := if stage = .waiting then 1 else 0
  apart := by decide
  opens := by decide
  won := by decide
  keeps := by decide

/-- Only a Worker's tunnel is without data. -/
def tunnels : Balance where
  spent := [.passthroughNoData]
  earned := [.workerPassthrough]
  owed stage := if stage = .tunnelling then 1 else 0
  apart := by decide
  opens := by decide
  won := by decide
  keeps := by decide

/-- Only what was bridged or tunnelled is reaped. -/
def reaped : Balance where
  spent := [.idleReaped]
  earned := [.wsPoolHit, .wsDirect, .fronting, .cfWorker, .cfProxy,
    .tcpFallback, .workerPassthrough]
  owed stage := if stage = .bridging ∨ stage = .tunnelling then 1 else 0
  apart := by decide
  opens := by decide
  won := by decide
  keeps := by decide

-- =============================================================== books

/-- Where a connection may land. -/
def rungs : List Stat :=
  [.selfConnectDropped, .wsPoolHit, .wsDirect, .fronting, .cfWorker,
    .cfProxy, .tcpFallback, .blindRelay]

/-- No two of them are among the counts. -/
def OneRung (counts : List Stat) : Prop :=
  ∀ s ∈ counts, ∀ t ∈ counts, s ∈ rungs → t ∈ rungs → s = t

instance (counts : List Stat) : Decidable (OneRung counts) :=
  inferInstanceAs (Decidable (∀ s ∈ counts, _))

/-- The race has counted what its ledger says. -/
structure Raced (r : CfRace.State) (counted : List Stat) : Prop where
  ledger : CfRace.Ledger ⟨0, 0, 0⟩ r.isMedia r.stats.cfProxy r
  cfProxy : counted.count .cfProxy = r.stats.cfProxy
  media : counted.count .cfProxyMedia = r.stats.cfProxyMedia

/-- What a connection has counted that stands at `pc`. -/
structure Books (pc : Pc) (counted : List Stat) : Prop where
  once : counted.count .accepted = 1
  media : counted.count .cfProxyMedia ≤ counted.count .cfProxy
  oneRung : OneRung counted
  undecided : pc.stage = .undecided → ∀ s ∈ counted, s ∈ opening
  rest : pc.At .undecided → .cfProxy ∉ counted
  raced : ∀ r, pc = .race r → Raced r counted
  solvent : ∀ b : Balance,
    total b.spent counted + b.owed pc.stage ≤ total b.earned counted

variable {pc pc' : Pc} {counted : List Stat} {r r' : CfRace.State}

/-- Nothing is spent while no rung has the session. -/
theorem total_spent_opening (b : Balance)
    (h : ∀ s ∈ counted, s ∈ opening) : total b.spent counted = 0 :=
  total_eq_zero fun s hs hmem => b.apart s hs (h s hmem)

theorem oneRung_opening (h : ∀ s ∈ counted, s ∈ opening) :
    OneRung counted := by
  have honly : ∀ s ∈ opening, s ∈ rungs → s = .cfProxy := by decide
  intro s hs t ht hsr htr
  exact (honly s (h s hs) hsr).trans (honly t (h t ht) htr).symm

theorem books_undecided (hstage : pc.stage = .undecided)
    (honce : counted.count .accepted = 1)
    (hmedia : counted.count .cfProxyMedia ≤ counted.count .cfProxy)
    (hopening : ∀ s ∈ counted, s ∈ opening)
    (hrest : pc.At .undecided → .cfProxy ∉ counted)
    (hraced : ∀ r, pc = .race r → Raced r counted) : Books pc counted := by
  refine ⟨honce, hmedia, oneRung_opening hopening, fun _ => hopening, hrest,
    hraced, fun b => ?_⟩
  have hearned := count_le_total b.earned counted
    (s := .accepted) (t := .cfProxy) (by decide)
  have hopens := b.opens
  rw [honce] at hearned
  rw [hstage, total_spent_opening b hopening]
  omega

theorem books_start (origIp : Text) (origPort : Nat) :
    Books (start origIp origPort).pc [.accepted] :=
  books_undecided rfl (by decide) (by decide) (by decide)
    (fun _ => by decide) fun _ h => nomatch h

theorem books_move (h : Books pc counted) (hmove : IsMove pc counts pc') :
    Books pc' (counted ++ counts) := by
  obtain ⟨m, hm, ⟨hsource, hpc⟩, ⟨htarget, hpc'⟩, rfl⟩ := hmove
  have hnone : ∀ m ∈ moves, m.counts.count .accepted = 0
      ∧ m.counts.count .cfProxy = 0 ∧ m.counts.count .cfProxyMedia = 0 := by
    decide
  have hopen : ∀ m ∈ moves, m.target = .undecided →
      m.source = .undecided ∧ m.counts = [] := by decide
  have hone : ∀ m ∈ moves, OneRung m.counts := by decide
  have hlate : ∀ m ∈ moves, m.source ≠ .undecided →
      ∀ s ∈ m.counts, s ∉ rungs := by decide
  obtain ⟨haccepted, hproxy, hmedia⟩ := hnone m hm
  refine ⟨?_, ?_, ?_, fun hstage => ?_, fun hat => ?_, fun r hr => ?_,
    fun b => ?_⟩
  · rw [List.count_append, h.once, haccepted]
  · rw [List.count_append, List.count_append, hproxy, hmedia]
    exact h.media
  · by_cases hsrc : m.source = .undecided
    · -- no rung is counted before
      have hfree : ∀ s ∈ counted, s ∉ rungs := by
        have honly : ∀ s ∈ opening, s ∈ rungs → s = .cfProxy := by decide
        intro s hs hrung
        have hs' := honly s (h.undecided (hsource.trans hsrc) s hs) hrung
        exact h.rest ⟨hsource.trans hsrc, hpc⟩ (hs' ▸ hs)
      intro s hs t ht hsr htr
      have hs := (List.mem_append.mp hs).resolve_left fun hmem =>
        hfree s hmem hsr
      have ht := (List.mem_append.mp ht).resolve_left fun hmem =>
        hfree t hmem htr
      exact hone m hm s hs t ht hsr htr
    · intro s hs t ht hsr htr
      have hs := (List.mem_append.mp hs).resolve_right fun hmem =>
        hlate m hm hsrc s hmem hsr
      have ht := (List.mem_append.mp ht).resolve_right fun hmem =>
        hlate m hm hsrc t hmem htr
      exact h.oneRung s hs t ht hsr htr
  · obtain ⟨hsrc, hcounts⟩ := hopen m hm (htarget.symm.trans hstage)
    rw [hcounts, List.append_nil]
    exact h.undecided (hsource.trans hsrc)
  · obtain ⟨hsrc, hcounts⟩ := hopen m hm (htarget.symm.trans hat.1)
    rw [hcounts, List.append_nil]
    exact h.rest ⟨hsource.trans hsrc, hpc⟩
  · rw [hr] at hpc'
    cases hpc'
  · have hsolvent := h.solvent b
    have hkeeps := b.keeps m hm
    rw [total_append, total_append, htarget]
    rw [hsource] at hsolvent
    omega

theorem books_opens (h : Books pc counted) (hpc : pc.At .undecided)
    (cfDomains : List Text) (isMedia : Bool) :
    Books (.race (CfRace.start cfDomains isMedia ⟨0, 0, 0⟩)) counted := by
  have hproxy : counted.count .cfProxy = 0 :=
    List.count_eq_zero.mpr (h.rest hpc)
  refine books_undecided rfl h.once h.media (h.undecided hpc.1)
    (fun hat => nomatch hat.2) fun r hr => ?_
  cases hr
  refine ⟨CfRace.start_ledger _ _ _, hproxy, ?_⟩
  have hmedia := h.media
  show counted.count .cfProxyMedia = 0
  omega

theorem count_raceCounts (before after : CfRace.Stats) :
    (raceCounts before after).count .cfProxy
        = after.cfProxy - before.cfProxy
      ∧ (raceCounts before after).count .cfProxyMedia
        = after.cfProxyMedia - before.cfProxyMedia
      ∧ ∀ s ∈ raceCounts before after, s ≠ .accepted ∧ s ∈ opening := by
  refine ⟨?_, ?_, ?_⟩
  · simp [raceCounts, List.count_replicate]
  · simp [raceCounts, List.count_replicate]
  · intro s hs
    simp only [raceCounts, List.mem_append, List.mem_replicate] at hs
    rcases hs with (⟨-, rfl⟩ | ⟨-, rfl⟩) | ⟨-, rfl⟩ <;> decide

theorem books_race {a : CfRace.Action} (h : Books (.race r) counted)
    (hstep : raceStep a r = some (counts, r')) :
    Books (.race r') (counted ++ counts) := by
  obtain ⟨r', hr, heq⟩ := Option.map_eq_some_iff.mp hstep
  cases heq
  obtain ⟨hledger, hproxy, hmedia⟩ := h.raced r rfl
  have hledger' := CfRace.apply_ledger hledger hr
  obtain ⟨hkind, hmade, hmediaMade, haccounts⟩ := hledger'
  obtain ⟨hcount, hcountMedia, hothers⟩ := count_raceCounts r.stats r'.stats
  have hbefore := hledger.media
  have hgrown : (counted ++ raceCounts r.stats r'.stats).count .cfProxy
      = r'.stats.cfProxy := by
    rw [List.count_append, hcount, hproxy]
    omega
  have hgrownMedia :
      (counted ++ raceCounts r.stats r'.stats).count .cfProxyMedia
        = r'.stats.cfProxyMedia := by
    rw [List.count_append, hcountMedia, hmedia]
    split at hbefore <;> split at hmediaMade <;> simp_all
  refine books_undecided rfl ?_ ?_ (fun s hs => ?_) (fun hat => nomatch hat.2)
    fun r hr => ?_
  · rw [List.count_append, h.once, List.count_eq_zero.mpr fun hmem =>
      (hothers _ hmem).1 rfl]
  · rw [hgrown, hgrownMedia]
    split at hmediaMade <;> simp_all
  · rcases List.mem_append.mp hs with hs | hs
    · exact h.undecided rfl s hs
    · exact (hothers s hs).2
  · cases hr
    refine ⟨?_, hgrown, hgrownMedia⟩
    have hnow : r.stats.cfProxy + a.connects = r'.stats.cfProxy := by
      rw [hmade]
      exact (Nat.zero_add _).symm
    rw [hkind, ← hnow]
    exact ⟨hkind, hmade, hmediaMade, haccounts⟩

/-- A race that is over leaves the session bridged, and counted, or on its
way to the next rung, and not counted. -/
theorem books_afterRace (h : Books (.race r) counted) :
    Books (afterRace r) counted := by
  obtain ⟨hledger, hproxy, hmedia⟩ := h.raced r rfl
  have haccounts := hledger.accounts
  unfold CfRace.State.accounts at haccounts
  unfold afterRace
  split
  · next chosen hphase =>
      simp only [hphase] at haccounts
      refine ⟨h.once, h.media, h.oneRung, (fun hstage => nomatch hstage),
        (fun hat => nomatch hat.1), (fun r hr => nomatch hr), fun b => ?_⟩
      have hearned := count_le_total b.earned counted
        (s := .accepted) (t := .cfProxy) (by decide)
      have hwon := b.won
      rw [h.once, hproxy] at hearned
      have hpaid : b.earned.count .cfProxy * 1
          ≤ b.earned.count .cfProxy * r.stats.cfProxy :=
        Nat.mul_le_mul_left _ haccounts
      show total b.spent counted + b.owed .bridging ≤ _
      rw [total_spent_opening b (h.undecided rfl)]
      omega
  · next window hphase =>
      simp only [hphase] at haccounts
      refine books_undecided rfl h.once h.media (h.undecided rfl) (fun _ => ?_)
        fun r hr => nomatch hr
      exact List.count_eq_zero.mp (hproxy.trans haccounts.1)
  · exact h

/-- Every step of a session keeps its books. -/
theorem books_step {a : Action} (h : Books sess.pc counted)
    (hstep : apply a sess = some (counts, sess')) :
    Books sess'.pc (counted ++ counts) := by
  rcases apply_moves hstep with hmove | ⟨hpc, rfl, cfDomains, isMedia, hpc'⟩
    | ⟨r, r', a, hpc, hrace, hpc'⟩
  · exact books_move h hmove
  · rw [hpc', List.append_nil]
    exact books_afterRace (books_opens h hpc cfDomains isMedia)
  · rw [hpc] at h
    rw [hpc']
    exact books_afterRace (books_race h hrace)

/-- A session may stop anywhere. -/
theorem books_ended (h : Books pc counted) : Books .ended counted := by
  refine ⟨h.once, h.media, h.oneRung, (fun hstage => nomatch hstage),
    (fun hat => nomatch hat.1), (fun r hr => nomatch hr), fun b => ?_⟩
  have hover := b.keeps ⟨pc.stage, [], .over⟩
    (List.mem_append_left _ (List.mem_append_right _
      (List.mem_map_of_mem (mem_stages _))))
  have hsolvent := h.solvent b
  have hnil : ∀ L, total L [] = 0 := fun L =>
    total_eq_zero fun _ _ => List.not_mem_nil
  simp only [hnil] at hover
  show total b.spent counted + b.owed .over ≤ _
  omega

-- ================================================================ sums

/-- Counts that fit together. -/
structure Fits (n : Stat → Nat) : Prop where
  taken : n .selfConnectDropped + n .wsPoolHit + n .wsDirect + n .fronting
    + n .cfWorker + n .tcpFallback + n .blindRelay ≤ n .accepted
  fallen : n .allPathsFailed ≤ n .blindRelay
  blinds : n .workerPassthrough + n .mediaHttpRejected ≤ n .blindRelay
  tunnels : n .passthroughNoData ≤ n .workerPassthrough
  reaped : n .idleReaped ≤ n .wsPoolHit + n .wsDirect + n .fronting
    + n .cfWorker + n .cfProxy + n .tcpFallback + n .workerPassthrough
  media : n .cfProxyMedia ≤ n .cfProxy

theorem Books.fits (h : Books pc counted) : Fits counted.count := by
  have htaken := h.solvent Session.taken
  have hfallen := h.solvent Session.fallen
  have hblinds := h.solvent Session.blinds
  have htunnels := h.solvent Session.tunnels
  have hreaped := h.solvent Session.reaped
  have hmedia := h.media
  simp only [total, Session.taken, Session.fallen, Session.blinds,
    Session.tunnels, Session.reaped, tally_cons, tally_nil] at *
  constructor <;> omega

/-- Counts that fit, fit in sum. -/
theorem Fits.tally {α : Type} {n : α → Stat → Nat} {l : List α}
    (h : ∀ a ∈ l, Fits (n a)) :
    Fits fun s => Lib.tally (fun a => n a s) l := by
  induction l with
  | nil => constructor <;> exact Nat.le_refl _
  | cons a l ih =>
      have hhead := h a List.mem_cons_self
      have htail := ih fun b hb => h b (List.mem_cons_of_mem _ hb)
      obtain ⟨htaken, hfallen, hblinds, htunnels, hreaped, hmedia⟩ := hhead
      obtain ⟨htaken', hfallen', hblinds', htunnels', hreaped', hmedia'⟩ :=
        htail
      constructor <;> simp only [tally_cons] <;> omega

end Wrtg.Session
