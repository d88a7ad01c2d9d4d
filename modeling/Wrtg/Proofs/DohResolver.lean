/-
Where the addresses of `resolve_doh` come from, in every interleaving of
its calls.

# The addresses

An address is traced back from a result over a win to the answer of a
source (`Inv`), and a source answers with an address as it is displayed
(`answer_shown`).

# The race

The sources of a race are asking, in its channel, or heard as having none
(`Call.Ok`), which is why the channel has room for each of them and why a
race that closes without an address has heard them all.
-/
import Wrtg.DohResolver
import Wrtg.Lib.Run

namespace Wrtg.DohResolver

open Doh Lib

variable {s s' : State}

-- =========================================================== addresses

/-- What is picked is an address as it is displayed. -/
theorem pickGo_shown {fallbackV6 : Option Text} {candidates : List Text}
    {ip : Text} (h : pickGo fallbackV6 candidates = some ip) :
    fallbackV6 = some ip ∨ ∃ addr, ip = IpAddr.showIpAddr addr := by
  induction candidates generalizing fallbackV6 with
  | nil => exact .inl h
  | cons c candidates ih =>
      rw [pickGo] at h
      split at h
      · next addr _ =>
        cases h
        exact .inr ⟨.v4 addr, rfl⟩
      · next addr _ =>
        split at h
        · rcases ih h with hsix | hshown
          · cases hsix
            exact .inr ⟨.v6 addr, rfl⟩
          · exact .inr hshown
        · exact ih h
      · exact ih h

theorem pickPreferredIp_shown {candidates : List Text} {ip : Text}
    (h : pickPreferredIp candidates = some ip) :
    ∃ addr, ip = IpAddr.showIpAddr addr :=
  (pickGo_shown h).resolve_left nofun

theorem dohQuery_shown {served : Text → Option Https.Served}
    {ips : List Text} {ip : Text} (h : dohQuery served ips = some ip) :
    ∃ addr, ip = IpAddr.showIpAddr addr := by
  induction ips with
  | nil => cases h
  | cons pinned ips ih =>
      rw [dohQuery] at h
      split at h
      · split at h
        · next hpick =>
          cases h
          exact pickPreferredIp_shown hpick
        · exact ih h
      · exact ih h

theorem answer_shown {source : Source} {seen : Seen} {ip : Text}
    (h : source.answer seen = some ip) : ∃ addr, ip = IpAddr.showIpAddr addr := by
  cases source with
  | endpoint ep => exact dohQuery_shown h
  | system =>
      obtain ⟨addrs, _, hpick⟩ := Option.bind_eq_some_iff.mp h
      exact pickPreferredIp_shown hpick

-- =========================================================== invariant

/-- A source has answered with this address. -/
def Answered (answers : List Answer) (now : Nat) (domain ip : Text) : Prop :=
  ∃ a ∈ answers, a.domain = domain ∧ a.ip = ip ∧ a.time ≤ now

/-- The sources of a race are all somewhere, and an address on its way is
an answer to its domain. -/
def Call.Ok (answers : List Answer) (now : Nat) (c : Call) : Prop :=
  match c.phase with
  | .racing asking rx silent =>
      (asking ++ (rx.queue.map Prod.fst ++ silent)).Perm sources
        ∧ ∀ m ∈ rx.queue, ∀ ip, m.2 = some ip →
          Answered answers now c.domain ip
  | .storing _ ip => Answered answers now c.domain ip

/-- The address was stored before, at most the lifetime ago. -/
def Stored (wins : List Win) (ttl time : Nat) (domain ip : Text) : Prop :=
  ∃ w ∈ wins, w.domain = domain ∧ w.ip = ip ∧ w.time ≤ time
    ∧ time < w.time + ttl

/-- A result is right: a stored address, or nothing for a reason. -/
def Result.Ok (wins : List Win) (ttl : Nat) (r : Result) : Prop :=
  match r.ip with
  | .ok ip => Stored wins ttl r.time r.domain ip
  | .error .noDomain => r.domain = []
  | .error (.deadline started) => started + DOH_CONNECT_TIMEOUT ≤ r.time
  | .error (.exhausted silent) => silent.Perm sources

/-- What holds in every state: an address in the cache goes back to a
win, a win to an answer of a source, and each result is right. -/
structure Inv (s : State) : Prop where
  answers : ∀ a ∈ s.answers, a.source ∈ sources
    ∧ ∃ seen, a.source.answer seen = some a.ip
  calls : ∀ c ∈ s.calls, c.Ok s.answers s.now
  wins : ∀ w ∈ s.wins, Answered s.answers w.time w.domain w.ip
  cache : ∀ domain ip exp, s.cache.lookup domain = some (ip, exp) →
    ∃ w ∈ s.wins, w.domain = domain ∧ w.ip = ip ∧ w.time ≤ s.now
      ∧ exp = w.time + s.ttl
  results : ∀ r ∈ s.results, r.Ok s.wins s.ttl

theorem Answered.later {answers : List Answer} {now now' : Nat}
    {domain ip : Text} (h : Answered answers now domain ip)
    (hnow : now ≤ now') : Answered answers now' domain ip := by
  obtain ⟨a, ha, hdomain, hip, htime⟩ := h
  exact ⟨a, ha, hdomain, hip, Nat.le_trans htime hnow⟩

theorem Answered.more {answers : List Answer} {now : Nat}
    {domain ip : Text} (h : Answered answers now domain ip)
    (new : List Answer) : Answered (new ++ answers) now domain ip := by
  obtain ⟨a, ha, hrest⟩ := h
  exact ⟨a, List.mem_append_right new ha, hrest⟩

theorem Call.Ok.later {answers : List Answer} {now now' : Nat} {c : Call}
    (h : c.Ok answers now) (hnow : now ≤ now') : c.Ok answers now' := by
  unfold Call.Ok at h ⊢
  split
  · next hphase =>
    rw [hphase] at h
    exact ⟨h.1, fun m hm ip hip => (h.2 m hm ip hip).later hnow⟩
  · next hphase =>
    rw [hphase] at h
    exact h.later hnow

theorem Call.Ok.more {answers : List Answer} {now : Nat} {c : Call}
    (h : c.Ok answers now) (new : List Answer) :
    c.Ok (new ++ answers) now := by
  unfold Call.Ok at h ⊢
  split
  · next hphase =>
    rw [hphase] at h
    exact ⟨h.1, fun m hm ip hip => (h.2 m hm ip hip).more new⟩
  · next hphase =>
    rw [hphase] at h
    exact h.more new

theorem Result.Ok.more {wins : List Win} {ttl : Nat} {r : Result}
    (h : r.Ok wins ttl) (w : Win) : r.Ok (w :: wins) ttl := by
  unfold Result.Ok at h ⊢
  split
  · next hip =>
    rw [hip] at h
    obtain ⟨v, hv, hrest⟩ := h
    exact ⟨v, List.mem_cons_of_mem w hv, hrest⟩
  · next hip =>
    rw [hip] at h
    exact h
  · next hip =>
    rw [hip] at h
    exact h
  · next hip =>
    rw [hip] at h
    exact h

theorem inv_start (ttl now : Nat) : Inv (start ttl now) where
  answers := by
    intro a ha
    cases ha
  calls := by
    intro c hc
    cases hc
  wins := by
    intro w hw
    cases hw
  cache := by
    intro domain ip exp h
    cases h
  results := by
    intro r hr
    cases hr

-- ============================================= calls that come and go

/-- A call of the list that is not replaced is one it had. -/
theorem mem_set {calls : List Call} {i : Nat} {c c' : Call}
    (h : c' ∈ calls.set i c) : c' = c ∨ c' ∈ calls := by
  rcases List.mem_or_eq_of_mem_set h with h | h
  · exact .inr h
  · exact .inl h

/-- A step that replaces one call keeps what the others owe. -/
theorem Inv.setCall (h : Inv s) (i : Nat) {c : Call}
    (hc : c.Ok s.answers s.now) : Inv { s with calls := s.calls.set i c } where
  answers := h.answers
  calls := by
    intro c' hc'
    rcases mem_set hc' with rfl | hc'
    · exact hc
    · exact h.calls c' hc'
  wins := h.wins
  cache := h.cache
  results := h.results

/-- A call returns with a result that is right. -/
theorem Inv.finish (h : Inv s) (i : Nat) {domain : Text}
    {ip : Except Empty Text}
    (hip : ({ domain, ip, time := s.now } : Result).Ok s.wins s.ttl) :
    Inv (s.finish i domain ip) where
  answers := h.answers
  calls := fun c hc => h.calls c (List.mem_of_mem_eraseIdx hc)
  wins := h.wins
  cache := h.cache
  results := by
    intro r hr
    rcases List.mem_cons.mp hr with rfl | hr
    · exact hip
    · exact h.results r hr

/-- A call that panics leaves the rest as it was. -/
theorem Inv.panicked (h : Inv s) (i : Nat) (poisoned : Bool) :
    Inv { s with calls := s.calls.eraseIdx i, poisoned } where
  answers := h.answers
  calls := fun c hc => h.calls c (List.mem_of_mem_eraseIdx hc)
  wins := h.wins
  cache := h.cache
  results := h.results

/-- A new call is owed an answer by every source. -/
theorem newCall_ok (answers : List Answer) (domain : Text) (now : Nat) :
    (newCall domain now).Ok answers now := by
  refine ⟨?_, ?_⟩
  · show (sources ++ ([].map Prod.fst ++ [])).Perm sources
    rw [List.map_nil, List.nil_append, List.append_nil]
  · intro m hm
    cases hm

/-- A call enters its race. -/
theorem Inv.race (h : Inv s) (domain : Text) :
    Inv { s with calls := newCall domain s.now :: s.calls } where
  answers := h.answers
  calls := by
    intro c hc
    rcases List.mem_cons.mp hc with rfl | hc
    · exact newCall_ok s.answers domain s.now
    · exact h.calls c hc
  wins := h.wins
  cache := h.cache
  results := h.results

/-- A call returns from in front of the race. -/
theorem Inv.returned (h : Inv s) {domain : Text} {ip : Except Empty Text}
    (hip : ({ domain, ip, time := s.now } : Result).Ok s.wins s.ttl) :
    Inv { s with results := { domain, ip, time := s.now } :: s.results } where
  answers := h.answers
  calls := h.calls
  wins := h.wins
  cache := h.cache
  results := by
    intro r hr
    rcases List.mem_cons.mp hr with rfl | hr
    · exact hip
    · exact h.results r hr

-- ==================================================== answers and wins

/-- The answer of a source, logged. -/
theorem Inv.answered (h : Inv s) {source : Source} (hsource : source ∈ sources)
    (domain : Text) (seen : Seen) :
    Inv { s with
      answers := answersOf source domain s.now (source.answer seen)
        ++ s.answers } where
  answers := by
    intro a ha
    rcases List.mem_append.mp ha with ha | ha
    · unfold answersOf at ha
      split at ha
      · next ip hip =>
        cases List.mem_singleton.mp ha
        exact ⟨hsource, seen, hip⟩
      · cases ha
    · exact h.answers a ha
  calls := fun c hc => (h.calls c hc).more _
  wins := fun w hw => (h.wins w hw).more _
  cache := h.cache
  results := h.results

/-- A win is stored for its lifetime. -/
theorem Inv.won (h : Inv s) {domain ip : Text} {exp : Nat}
    (hip : Answered s.answers s.now domain ip)
    (hexp : Instant.add s.now s.ttl = some exp) :
    Inv { s with
      cache := s.cache.insert domain (ip, exp)
      wins := { domain, ip, time := s.now } :: s.wins } where
  answers := h.answers
  calls := h.calls
  wins := by
    intro w hw
    rcases List.mem_cons.mp hw with rfl | hw
    · exact hip
    · exact h.wins w hw
  cache := by
    intro d v e hlookup
    by_cases hd : d = domain
    · subst hd
      rw [AList.lookup_insert] at hlookup
      cases hlookup
      exact ⟨_, List.mem_cons_self, rfl, rfl, Nat.le_refl _,
        Instant.eq_of_add hexp⟩
    · rw [AList.lookup_insert_ne hd] at hlookup
      obtain ⟨w, hw, hrest⟩ := h.cache d v e hlookup
      exact ⟨w, List.mem_cons_of_mem _ hw, hrest⟩
  results := fun r hr => (h.results r hr).more _

-- =================================================== sources of a race

theorem mem_sources_of_asking {asking : List Source} {rx : Answers}
    {silent : List Source} {source : Source}
    (h : (asking ++ (rx.queue.map Prod.fst ++ silent)).Perm sources)
    (hs : source ∈ asking) : source ∈ sources :=
  h.mem_iff.mp (List.mem_append_left _ hs)

/-- A source moves from those that ask into the channel. -/
theorem sent_perm {asking : List Source} {rx rx' : Answers}
    {silent : List Source} {source : Source} {ip : Option Text}
    (h : (asking ++ (rx.queue.map Prod.fst ++ silent)).Perm sources)
    (hs : source ∈ asking) (hsend : rx.send (source, ip) = some rx') :
    (asking.erase source ++ (rx'.queue.map Prod.fst ++ silent)).Perm
      sources := by
  refine List.Perm.trans ?_ h
  rw [Chan.send_queue hsend, List.map_append, List.map_singleton,
    List.append_assoc]
  have hmove : (asking.erase source ++ (rx.queue.map Prod.fst
      ++ ([source] ++ silent))).Perm
      (source :: asking.erase source ++ (rx.queue.map Prod.fst ++ silent)) := by
    rw [List.singleton_append, List.cons_append, ← List.append_assoc,
      ← List.append_assoc]
    exact List.perm_middle
  exact hmove.trans ((List.perm_cons_erase hs).symm.append_right _)

/-- A source moves from the channel to those heard. -/
theorem heard_perm {asking : List Source} {rx rx' : Answers}
    {silent : List Source} {source : Source} {ip : Option Text}
    (h : (asking ++ (rx.queue.map Prod.fst ++ silent)).Perm sources)
    (hrecv : rx.recv = some ((source, ip), rx')) :
    (asking ++ (rx'.queue.map Prod.fst ++ source :: silent)).Perm
      sources := by
  refine List.Perm.trans ?_ h
  rw [Chan.recv_queue hrecv, List.map_cons, List.cons_append]
  exact List.perm_middle.append_left asking

-- =============================================================== steps

/-- Every step keeps the invariant, one case for each action. -/
theorem inv_step {a : Action} (httl : 0 < s.ttl) (h : Inv s)
    (hstep : apply a s = some s') : Inv s' := by
  cases a with
  | pass duration =>
      cases hstep
      exact
        { answers := h.answers
          calls := fun c hc => (h.calls c hc).later (Nat.le_add_right ..)
          wins := h.wins
          cache := by
            intro domain ip exp hlookup
            obtain ⟨w, hw, hdomain, hip, htime, hexp⟩ :=
              h.cache domain ip exp hlookup
            exact ⟨w, hw, hdomain, hip,
              Nat.le_trans htime (Nat.le_add_right ..), hexp⟩
          results := h.results }
  | call domain =>
      simp only [apply] at hstep
      split at hstep
      · next hempty =>
        cases hstep
        exact h.returned (List.isEmpty_iff.mp hempty)
      · split at hstep
        · cases hstep
          exact h
        · split at hstep
          · next ip exp hlookup =>
            split at hstep
            · next hfresh =>
              cases hstep
              obtain ⟨w, hw, hdomain, hip, htime, rfl⟩ :=
                h.cache _ ip exp hlookup
              exact h.returned ⟨w, hw, hdomain, hip, htime, hfresh⟩
            · cases hstep
              exact h.race _
          · cases hstep
            exact h.race _
  | send i source seen =>
      simp only [apply] at hstep
      split at hstep
      · next domain started asking rx silent hcall =>
        split at hstep
        · next hs =>
          obtain ⟨rx', hsend, rfl⟩ := Option.map_eq_some_iff.mp hstep
          have hok := h.calls _ (List.mem_of_getElem? hcall)
          have hinv := h.answered (mem_sources_of_asking hok.1 hs) domain seen
          refine hinv.setCall i ⟨sent_perm hok.1 hs hsend, ?_⟩
          intro m hm ip hip
          rw [Chan.send_queue hsend] at hm
          rcases List.mem_append.mp hm with hm | hm
          · exact (hok.2 m hm ip hip).more _
          · cases List.mem_singleton.mp hm
            refine ⟨{ source, domain, ip, time := s.now }, ?_, rfl, rfl,
              Nat.le_refl _⟩
            refine List.mem_append_left _ ?_
            rw [show source.answer seen = some ip from hip]
            exact List.mem_singleton_self _
        · cases hstep
      · cases hstep
  | recv i =>
      simp only [apply] at hstep
      split at hstep
      · next domain started asking rx silent hcall =>
        have hok := h.calls _ (List.mem_of_getElem? hcall)
        split at hstep
        · next source ip rx' hrecv =>
          cases hstep
          refine h.setCall i ?_
          refine hok.2 (source, some ip) ?_ ip rfl
          rw [Chan.recv_queue hrecv]
          exact List.mem_cons_self
        · next source rx' hrecv =>
          cases hstep
          refine h.setCall i ⟨heard_perm hok.1 hrecv, ?_⟩
          intro m hm ip hip
          refine hok.2 m ?_ ip hip
          rw [Chan.recv_queue hrecv]
          exact List.mem_cons_of_mem _ hm
        · next hrecv =>
          split at hstep
          · next hasking =>
            cases hstep
            refine h.finish i ?_
            have hperm := hok.1
            rw [List.isEmpty_iff.mp hasking, Chan.recv_eq_none.mp hrecv]
              at hperm
            exact hperm
          · cases hstep
      · cases hstep
  | deadline i =>
      simp only [apply] at hstep
      split at hstep
      · split at hstep
        · next hlate =>
          cases hstep
          exact h.finish i hlate
        · cases hstep
      · cases hstep
  | store i =>
      simp only [apply] at hstep
      split at hstep
      · next domain started source ip hcall =>
        have hok := h.calls _ (List.mem_of_getElem? hcall)
        split at hstep
        · cases hstep
          exact h.panicked i s.poisoned
        · split at hstep
          · next exp hexp =>
            cases hstep
            refine (h.won hok hexp).finish i ?_
            exact ⟨_, List.mem_cons_self, rfl, rfl, Nat.le_refl _,
              Nat.lt_add_of_pos_right httl⟩
          · cases hstep
            exact h.panicked i true
      · cases hstep

theorem ttl_step {a : Action} (h : apply a s = some s') : s'.ttl = s.ttl := by
  cases a with
  | pass duration => cases h; rfl
  | call domain =>
      simp only [apply] at h
      split at h
      · cases h; rfl
      · split at h
        · cases h; rfl
        · split at h
          · split at h
            · cases h; rfl
            · cases h; rfl
          · cases h; rfl
  | send i source seen =>
      simp only [apply] at h
      split at h
      · split at h
        · obtain ⟨rx', _, rfl⟩ := Option.map_eq_some_iff.mp h
          rfl
        · cases h
      · cases h
  | recv i =>
      simp only [apply] at h
      split at h
      · split at h
        · cases h; rfl
        · cases h; rfl
        · split at h
          · cases h; rfl
          · cases h
      · cases h
  | deadline i =>
      simp only [apply] at h
      split at h
      · split at h
        · cases h; rfl
        · cases h
      · cases h
  | store i =>
      simp only [apply] at h
      split at h
      · split at h
        · cases h; rfl
        · split at h
          · cases h; rfl
          · cases h; rfl
      · cases h

-- ================================================================ runs

/-- The lifetime is the one of the start, and the invariant holds. -/
theorem inv_run {ttl now : Nat} (httl : 0 < ttl) {as : List Action}
    (hrun : run apply as (start ttl now) = some s) : s.ttl = ttl ∧ Inv s :=
  run_history apply (P := fun _ s => s.ttl = ttl ∧ Inv s) hrun
    ⟨rfl, inv_start ttl now⟩
    fun _ _ _ _ _ h hstep => ⟨(ttl_step hstep).trans h.1,
      inv_step (h.1.symm ▸ httl) h.2 hstep⟩

/-- A source that asks finds room in the channel. -/
theorem room {c : Call} {answers : List Answer} {now : Nat}
    {asking : List Source} {rx : Answers} {silent : List Source}
    (h : c.Ok answers now) (hphase : c.phase = .racing asking rx silent)
    {source : Source} (hs : source ∈ asking) (ip : Option Text) :
    ∃ rx', rx.send (source, ip) = some rx' := by
  unfold Call.Ok at h
  rw [hphase] at h
  have hlen := h.1.length_eq
  have hpos := List.length_pos_of_mem hs
  have hfive : sources.length = 5 := rfl
  rw [List.length_append, List.length_append, List.length_map, hfive] at hlen
  unfold Chan.send
  rw [dif_pos (by omega)]
  exact ⟨_, rfl⟩

/-- A resolved address can be trusted as far as its sources. In every
interleaving of calls, sources and the clock, an address that a call
returns was stored for that very domain less than the lifetime before,
and it was stored after one of the five sources had answered it for that
domain; it is an IP address as it is displayed. A call returns none for
a blank domain, at its deadline, or once all five sources have said that
they have none; and no source ever waits to be heard. -/
theorem resolved_sound {ttl now : Nat} (httl : 0 < ttl) {as : List Action}
    (hrun : run apply as (start ttl now) = some s) :
    (∀ r ∈ s.results, match r.ip with
      | .ok ip => ∃ w ∈ s.wins, w.domain = r.domain ∧ w.ip = ip
          ∧ w.time ≤ r.time ∧ r.time < w.time + ttl
          ∧ ∃ a ∈ s.answers, a.domain = r.domain ∧ a.ip = ip
            ∧ a.time ≤ w.time ∧ a.source ∈ sources
            ∧ (∃ seen, a.source.answer seen = some ip)
            ∧ ∃ addr, ip = IpAddr.showIpAddr addr
      | .error .noDomain => r.domain = []
      | .error (.deadline started) => started + DOH_CONNECT_TIMEOUT ≤ r.time
      | .error (.exhausted silent) => silent.Perm sources)
    ∧ ∀ (i : Nat) (c : Call) (asking : List Source) (rx : Answers)
        (silent : List Source), s.calls[i]? = some c →
      c.phase = .racing asking rx silent →
      ∀ source ∈ asking, ∀ seen,
        (apply (.send i source seen) s).isSome = true := by
  obtain ⟨hkept, h⟩ := inv_run httl hrun
  constructor
  · intro r hr
    have hok := h.results r hr
    unfold Result.Ok at hok
    split
    · next ip hip =>
      rw [hip] at hok
      obtain ⟨w, hw, hdomain, hwip, hle, hlt⟩ := hok
      obtain ⟨a, ha, had, haip, hatime⟩ := h.wins w hw
      obtain ⟨hsource, seen, hseen⟩ := h.answers a ha
      rw [haip, hwip] at hseen
      exact ⟨w, hw, hdomain, hwip, hle, hkept ▸ hlt, a, ha,
        had.trans hdomain, haip.trans hwip, hatime, hsource, ⟨seen, hseen⟩,
        answer_shown hseen⟩
    · next hip =>
      rw [hip] at hok
      exact hok
    · next hip =>
      rw [hip] at hok
      exact hok
    · next hip =>
      rw [hip] at hok
      exact hok
  · intro i c asking rx silent hcall hphase source hs seen
    obtain ⟨domain, started, phase⟩ := c
    cases hphase
    obtain ⟨rx', hsend⟩ := room (h.calls _ (List.mem_of_getElem? hcall)) rfl
      hs (source.answer seen)
    simp only [apply, hcall]
    rw [if_pos hs, hsend]
    rfl

/-- Whatever the setting is, an address lives for some time. -/
theorem dohCacheTtl_pos (raw : Option Text) : 0 < dohCacheTtl raw := by
  unfold dohCacheTtl
  split
  · next secs h =>
      have hpos := (Option.filter_eq_some_iff.mp h).2
      exact Nat.mul_pos (of_decide_eq_true hpos) (by decide)
  · decide

/-- The system's resolver wins, and the next call is served from the
cache. -/
def sampleRun : List Action :=
  [ .call "dc.example".toList,
    .send 0 .system { served := fun _ => none
                      found := some [.v4 { octets := [149, 154, 167, 51]
                                           len := by decide
                                           small := by decide }] },
    .recv 0, .pass 20, .store 0, .call "dc.example".toList ]

theorem sample_results :
    (run apply sampleRun (start (dohCacheTtl none) 0)).map
      (fun s => s.results.map fun r => r.ip.toOption)
      = some [some "149.154.167.51".toList, some "149.154.167.51".toList] := by
  decide +kernel

theorem resolved_sound_sample :
    ∃ s, run apply sampleRun (start (dohCacheTtl none) 0) = some s
      ∧ s.results.length = 2
      ∧ ∀ r ∈ s.results, ∀ ip, r.ip = .ok ip →
        ∃ a ∈ s.answers, a.domain = r.domain ∧ a.ip = ip
          ∧ a.time ≤ r.time := by
  obtain ⟨s, hrun, hresults⟩ := Option.map_eq_some_iff.mp sample_results
  refine ⟨s, hrun, ?_, ?_⟩
  · have hlen := congrArg List.length hresults
    rw [List.length_map] at hlen
    exact hlen
  · intro r hr ip hip
    have hsound := (resolved_sound (dohCacheTtl_pos none) hrun).1 r hr
    rw [hip] at hsound
    obtain ⟨w, _, _, _, hwtime, _, a, ha, had, haip, hatime, _⟩ := hsound
    exact ⟨a, ha, had, haip, Nat.le_trans hatime hwtime⟩

end Wrtg.DohResolver
