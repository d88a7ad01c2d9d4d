/-
What stands behind a session that skips the direct rung, in every
interleaving of sessions, pool dials, reloads and the clock.

# The evidence

An entry of the blacklist is traced to a session whose every domain was
redirected (`Blocked`): the flags of a loop that has failed say what its
dials came to, and those of fronting are kept with the loop that went on
to it (`Fronted`). An entry of the failed addresses is traced to a
failure on record that no success for the address is behind
(`FailedSince`).

# The steps

Both are kept by what a step can do to the two maps: lose entries
(`Loses`), or put one in for the session that ends.
-/
import Wrtg.DirectDial
import Wrtg.Proofs.WsSkip

namespace Wrtg.DirectDial

open Lib WsSkip WsUpgrade

variable {s s' : State}

-- =============================================================== loops

/-- The domain answers with a redirect. -/
def Attempt.redirected : Attempt → Bool
  | .failed e => isWsRedirectErr e
  | _ => false

/-- The dial of the domain times out. -/
def Attempt.late : Attempt → Bool
  | .timeout => true
  | .failed e => decide (e.intoIoKind = .timedOut)
  | _ => false

/-- A loop that fails says what its domains came to. -/
theorem dialLoop_error {dial : Text → Attempt} {domains : List Text}
    {allBlocked timedOut allBlocked' timedOut' : Bool}
    (h : dialLoop dial domains allBlocked timedOut
      = .error (allBlocked', timedOut')) :
    allBlocked' = (allBlocked && (domains.map dial).all (·.redirected))
      ∧ timedOut' = (timedOut || (domains.map dial).any (·.late)) := by
  induction domains generalizing allBlocked timedOut with
  | nil =>
      cases h
      exact ⟨(Bool.and_true _).symm, (Bool.or_false _).symm⟩
  | cons domain domains ih =>
      rw [dialLoop] at h
      rw [List.map_cons, List.all_cons, List.any_cons]
      split at h
      · next hdial =>
        rw [hdial]
        obtain ⟨hblocked, hlate⟩ := ih h
        refine ⟨hblocked.trans ?_, hlate.trans ?_⟩
        · exact (Bool.and_false _).symm
        · exact (Bool.or_true _).symm
      · next e hdial =>
        rw [hdial]
        obtain ⟨hblocked, hlate⟩ := ih h
        refine ⟨hblocked.trans ?_, hlate.trans ?_⟩
        · show _ = (allBlocked && (isWsRedirectErr e && _))
          cases isWsRedirectErr e with
          | true => rfl
          | false => exact (Bool.and_false _).symm
        · show _ = (timedOut || (decide (e.intoIoKind = .timedOut) || _))
          by_cases hkind : e.intoIoKind = .timedOut
          · rw [if_pos hkind, decide_eq_true hkind]
            exact (Bool.or_true _).symm
          · rw [if_neg hkind, decide_eq_false hkind]
            rfl
      · next hdial =>
        rw [hdial]
        obtain ⟨hblocked, hlate⟩ := ih h
        exact ⟨hblocked.trans (Bool.and_false _).symm, hlate⟩
      · cases h

-- ============================================================ evidence

/-- A session for the DC that ended at `time` with a redirect from every
domain, over fronting too where that was tried. -/
def Blocked (history : List Event) (dc : Int) (isMedia : Bool)
    (time : Nat) : Prop :=
  ∃ d : Dial, d.dc = dc ∧ d.isMedia = isMedia
    ∧ ∃ direct told, Event.directFailed d direct told ∈ history
      ∧ told ≤ time ∧ direct.all (·.redirected) = true
      ∧ (told = time ∨ ∃ fronted, Event.frontingFailed d fronted time ∈ history
          ∧ fronted.all (·.redirected) = true)

/-- An event that puts an address on record as failed for a DC: the
failed connect of the TCP rung, or the end of a session that went to it,
directly or over fronting behind that, with a dial that had timed out.
The dial may lie behind the event. -/
def Fails (past : List Event) (ip : Text) (dc : Int) (time : Nat) :
    Event → Prop
  | .tcpFailed dst dc' t => dst = ip ∧ dc' = dc ∧ t = time
  | .directFailed d direct t => d.target = ip ∧ d.dc = dc ∧ t = time
      ∧ direct.any (·.late) = true
  | .frontingFailed d fronted t => d.target = ip ∧ d.dc = dc ∧ t = time
      ∧ (fronted.any (·.late) = true
        ∨ ∃ direct told, Event.directFailed d direct told ∈ past
          ∧ direct.any (·.late) = true)
  | .connected .. => False

/-- A success for an address of a DC. -/
def Event.Connects (ip : Text) (dc : Int) : Event → Prop
  | .connected d _ => d.target = ip ∧ d.dc = dc
  | _ => False

/-- The address went on record at `time`, and no dial for it has
succeeded since. -/
def FailedSince (history : List Event) (ip : Text) (dc : Int)
    (time : Nat) : Prop :=
  ∃ post e past, history = post ++ e :: past ∧ Fails past ip dc time e
    ∧ ∀ x ∈ post, ¬ x.Connects ip dc

-- =========================================================== invariant

/-- The entries of the two maps have something behind them. -/
structure Told (set : Settings) (now : Nat) (m : Maps)
    (history : List Event) : Prop where
  blacklist : ∀ dc isMedia exp,
    m.blacklist.lookup (dc, isMedia) = some exp →
    ∃ time, time ≤ now ∧ exp = time + set.blacklist
      ∧ Blocked history dc isMedia time
  ipFail : ∀ ip dc exp, m.ipFail.lookup (ip, dc) = some exp →
    ip ≠ [] ∧ ∃ time, time ≤ now ∧ exp = time + set.ipFail
      ∧ FailedSince history ip dc time

/-- The sessions in the fronting part go on with what their loop gave. -/
def Fronted (now : Nat) (fronting : List (Dial × Bool × Bool))
    (history : List Event) : Prop :=
  ∀ f ∈ fronting, ∃ direct told,
    Event.directFailed f.1 direct told ∈ history ∧ told ≤ now
      ∧ f.2.1 = direct.all (·.redirected) ∧ f.2.2 = direct.any (·.late)

/-- What holds in every state: the entries of the maps go back to the
history, and so do the loops that have gone on to fronting. -/
structure Inv (s : State) : Prop where
  told : Told s.skip.settings s.skip.now s.skip.maps s.history
  fronted : Fronted s.skip.now s.skip.fronting s.history

/-- Entries of the two maps may have gone, none has come. -/
structure Loses (m m' : Maps) : Prop where
  blacklist : ∀ k exp, m'.blacklist.lookup k = some exp →
    m.blacklist.lookup k = some exp
  ipFail : ∀ k exp, m'.ipFail.lookup k = some exp →
    m.ipFail.lookup k = some exp

/-- What has happened stays so, whatever comes after it. -/
theorem Blocked.more {history : List Event} {dc : Int} {isMedia : Bool}
    {time : Nat} (h : Blocked history dc isMedia time) (e : List Event) :
    Blocked (e ++ history) dc isMedia time := by
  obtain ⟨d, hdc, hmedia, direct, told, hmem, hle, hall, hend⟩ := h
  refine ⟨d, hdc, hmedia, direct, told, List.mem_append_right e hmem, hle,
    hall, ?_⟩
  rcases hend with hend | ⟨fronted, hmem, hall⟩
  · exact .inl hend
  · exact .inr ⟨fronted, List.mem_append_right e hmem, hall⟩

/-- A failure stands until a success of the address. -/
theorem FailedSince.more {history : List Event} {ip : Text} {dc : Int}
    {time : Nat} (h : FailedSince history ip dc time) {e : List Event}
    (he : ∀ x ∈ e, ¬ x.Connects ip dc) :
    FailedSince (e ++ history) ip dc time := by
  obtain ⟨post, x, past, heq, hlate, hpost⟩ := h
  refine ⟨e ++ post, x, past, ?_, hlate, ?_⟩
  · rw [heq, List.append_assoc]
  · intro y hy
    rcases List.mem_append.mp hy with hy | hy
    · exact he y hy
    · exact hpost y hy

/-- Time passes, entries go, and events come that are no success for an
address that is still in. -/
theorem Told.after {set : Settings} {now now' : Nat} {m m' : Maps}
    {history : List Event} (h : Told set now m history) (hle : now ≤ now')
    (hloses : Loses m m') (e : List Event)
    (he : ∀ ip dc exp, m'.ipFail.lookup (ip, dc) = some exp →
      ∀ x ∈ e, ¬ x.Connects ip dc) :
    Told set now' m' (e ++ history) where
  blacklist := by
    intro dc isMedia exp hlookup
    obtain ⟨time, htime, hexp, hblocked⟩ :=
      h.blacklist dc isMedia exp (hloses.blacklist _ _ hlookup)
    exact ⟨time, Nat.le_trans htime hle, hexp, hblocked.more e⟩
  ipFail := by
    intro ip dc exp hlookup
    obtain ⟨hip, time, htime, hexp, hfailed⟩ :=
      h.ipFail ip dc exp (hloses.ipFail _ _ hlookup)
    exact ⟨hip, time, Nat.le_trans htime hle, hexp,
      hfailed.more (he ip dc exp hlookup)⟩

/-- So do the loops that are in fronting still. -/
theorem Fronted.after {now now' : Nat}
    {fronting fronting' : List (Dial × Bool × Bool)} {history : List Event}
    (h : Fronted now fronting history) (hle : now ≤ now')
    (hsub : ∀ f ∈ fronting', f ∈ fronting) (e : List Event) :
    Fronted now' fronting' (e ++ history) := by
  intro f hf
  obtain ⟨direct, told, hmem, htold, hflags⟩ := h f (hsub f hf)
  exact ⟨direct, told, List.mem_append_right e hmem,
    Nat.le_trans htold hle, hflags⟩

-- ================================================================ maps

/-- A call that changes no entry loses none. -/
theorem Loses.refl (m : Maps) : Loses m m :=
  ⟨fun _ _ h => h, fun _ _ h => h⟩

/-- Two calls that lose entries lose entries. -/
theorem Loses.trans {m m' m'' : Maps} (h : Loses m m') (h' : Loses m' m'') :
    Loses m m'' :=
  ⟨fun k exp hl => h.blacklist k exp (h'.blacklist k exp hl),
    fun k exp hl => h.ipFail k exp (h'.ipFail k exp hl)⟩

/-- Erasing puts nothing in. -/
theorem lookup_of_erase {κ : Type} [DecidableEq κ] {m : TtlMap κ} {k k' : κ}
    {exp : Nat} (h : (m.erase k).lookup k' = some exp) :
    m.lookup k' = some exp := by
  by_cases hk : k' = k
  · subst hk
    rw [AList.lookup_erase] at h
    cases h
  · rwa [AList.lookup_erase_ne hk] at h

/-- A look at a key puts no entry in. -/
theorem lookup_of_isActive {κ : Type} [DecidableEq κ] {m : TtlMap κ}
    {k k' : κ} {now exp : Nat}
    (h : (m.isActive k now).2.lookup k' = some exp) :
    m.lookup k' = some exp := by
  unfold TtlMap.isActive at h
  split at h
  · split at h
    · exact h
    · exact lookup_of_erase h
  · exact h

/-- A mark puts in one entry, for its key, if it puts in any. -/
theorem lookup_of_markIfAbsent {κ : Type} [DecidableEq κ] {m : TtlMap κ}
    {k k' : κ} {ttl now exp : Nat}
    (h : (m.markIfAbsent k ttl now).2.lookup k' = some exp) :
    m.lookup k' = some exp ∨ k' = k ∧ exp = now + ttl := by
  -- the new entry goes into the map, less an entry of the key at most
  have hput : ∀ m₁ : TtlMap κ, (∀ e, m₁.lookup k' = some e →
      m.lookup k' = some e) →
      (m₁.insert k (now + ttl)).lookup k' = some exp →
      m.lookup k' = some exp ∨ k' = k ∧ exp = now + ttl := by
    intro m₁ hsub h
    by_cases hk : k' = k
    · subst hk
      rw [AList.lookup_insert] at h
      cases h
      exact .inr ⟨rfl, rfl⟩
    · rw [AList.lookup_insert_ne hk] at h
      exact .inl (hsub exp h)
  unfold TtlMap.markIfAbsent at h
  cases hadd : Instant.add now ttl with
  | none =>
      rw [hadd] at h
      simp only at h
      split at h
      · split at h
        · exact .inl h
        · exact .inl (lookup_of_erase h)
      · exact .inl h
  | some deadline =>
      rw [hadd, Instant.eq_of_add hadd] at h
      simp only at h
      split at h
      · split at h
        · exact .inl h
        · exact hput _ (fun _ => lookup_of_erase) h
      · exact hput _ (fun _ h => h) h

/-- The look at the direct rung loses only what has run out. -/
theorem loses_shouldSkipWs (live : Config.Live) (dc : Int) (isMedia : Bool)
    (origIp : Text) (now : Nat) (m : Maps) :
    Loses m (shouldSkipWs live dc isMedia origIp now m).2 := by
  have hblacklisted : Loses m (wsBlacklisted dc isMedia now m).2 :=
    ⟨fun _ _ h => lookup_of_isActive h, fun _ _ h => h⟩
  unfold shouldSkipWs
  simp only
  split
  · exact hblacklisted
  · refine hblacklisted.trans ?_
    unfold shouldSkipDirectWs
    split
    · exact .refl _
    · exact ⟨fun _ _ h => h, fun _ _ h => lookup_of_isActive h⟩

/-- So does the one at fronting, -/
theorem loses_shouldSkipFronting (set : Settings) (ip : Text) (dc : Int)
    (now : Nat) (m : Maps) :
    Loses m (shouldSkipFronting set ip dc now m).2 := by
  unfold shouldSkipFronting
  split
  · exact .refl m
  · exact ⟨fun _ _ h => h, fun _ _ h => h⟩

/-- and a mark of fronting is in another map than these two. -/
theorem loses_markFrontingFailed (set : Settings) (ip : Text) (dc : Int)
    (now : Nat) (m : Maps) :
    Loses m (markFrontingFailed set ip dc now m).2 := by
  unfold markFrontingFailed
  split
  · exact .refl m
  · exact ⟨fun _ _ h => h, fun _ _ h => h⟩

/-- A success takes its own entries out. -/
theorem loses_noteConnectSuccess (target : Text) (dc : Int) (isMedia : Bool)
    (m : Maps) : Loses m (noteConnectSuccess target dc isMedia m) := by
  unfold noteConnectSuccess clearFrontingFail clearDcFail clearIpFail
  split
  · exact ⟨fun _ _ h => h, fun _ _ h => h⟩
  · exact ⟨fun _ _ h => h, fun _ _ h => lookup_of_erase h⟩

/-- After a success, its address is not in. -/
theorem lookup_noteConnectSuccess {target : Text} (dc : Int)
    (isMedia : Bool) (m : Maps) (h : target ≠ []) :
    (noteConnectSuccess target dc isMedia m).ipFail.lookup (target, dc)
      = none := by
  unfold noteConnectSuccess clearFrontingFail clearDcFail clearIpFail
  rw [if_neg (by rw [List.isEmpty_iff]; exact h),
    if_neg (by rw [List.isEmpty_iff]; exact h)]
  exact AList.lookup_erase ..

-- =============================================================== marks

/-- An entry for a failure that stands is one that goes back to it. -/
theorem Told.markIpFailed {set : Settings} {now : Nat} {m : Maps}
    {history : List Event} (h : Told set now m history) {ip : Text} {dc : Int}
    (hfailed : FailedSince history ip dc now) :
    Told set now (WsSkip.markIpFailed set ip dc now m).2 history := by
  unfold WsSkip.markIpFailed
  split
  · exact h
  · next hip =>
    rw [List.isEmpty_iff] at hip
    refine ⟨h.blacklist, ?_⟩
    intro ip' dc' exp hlookup
    rcases lookup_of_markIfAbsent hlookup with hlookup | ⟨hkey, hexp⟩
    · exact h.ipFail ip' dc' exp hlookup
    · cases hkey
      exact ⟨hip, now, Nat.le_refl now, hexp, hfailed⟩

/-- So is one of the blacklist for a session that was redirected throughout.
-/
theorem Told.markWsBlacklisted {set : Settings} {now : Nat} {m : Maps}
    {history : List Event} (h : Told set now m history) {dc : Int}
    {isMedia : Bool} (hblocked : Blocked history dc isMedia now) :
    Told set now (WsSkip.markWsBlacklisted set dc isMedia now m).2
      history := by
  refine ⟨?_, h.ipFail⟩
  intro dc' isMedia' exp hlookup
  rcases lookup_of_markIfAbsent hlookup with hlookup | ⟨hkey, hexp⟩
  · exact h.blacklist dc' isMedia' exp hlookup
  · cases hkey
    exact ⟨now, Nat.le_refl now, hexp, hblocked⟩

/-- What a call and the next keep, both keep. -/
theorem andThen_snd {P : Maps → Prop} {res : Marking}
    {next : Maps → Marking} (h : P res.2) (hnext : ∀ m, P m → P (next m).2) :
    P (res.andThen next).2 := by
  obtain ⟨res, m⟩ := res
  cases res with
  | none => exact h
  | some u => exact hnext m h

/-- A session ends, with its last event in the history. -/
theorem Inv.sessionFailed (h : Inv s) {d : Dial} {allBlocked timedOut : Bool}
    (hblocked : allBlocked = true →
      Blocked s.history d.dc d.isMedia s.skip.now)
    (hlate : timedOut = true →
      FailedSince s.history d.target d.dc s.skip.now) :
    Inv { s with skip := WsSkip.sessionFailed s.skip d allBlocked timedOut } := by
  refine ⟨?_, h.fronted⟩
  show Told s.skip.settings s.skip.now (Marking.andThen _ _).2 s.history
  refine andThen_snd (P := fun m => Told _ _ m _)
    (andThen_snd (P := fun m => Told _ _ m _) ?_ ?_) ?_
  · split
    · next ht => exact h.told.markIpFailed (hlate ht)
    · exact h.told
  · exact fun m hm => ⟨hm.blacklist, hm.ipFail⟩
  · intro m hm
    split
    · next hb =>
      rw [Bool.and_eq_true] at hb
      exact hm.markWsBlacklisted (hblocked hb.1)
    · exact hm

/-- A success is noted. -/
theorem Inv.noted (h : Inv s) (d : Dial) {skip : WsSkip.State}
    (hsettings : skip.settings = s.skip.settings)
    (hnow : skip.now = s.skip.now) (hmaps : skip.maps = s.skip.maps)
    (hfronting : ∀ f ∈ skip.fronting, f ∈ s.skip.fronting) :
    Inv { skip := WsSkip.noted skip d
          history := .connected d s.skip.now :: s.history } where
  told := by
    show Told skip.settings skip.now
      (noteConnectSuccess d.target d.dc d.isMedia skip.maps)
      ([.connected d s.skip.now] ++ s.history)
    rw [hsettings, hnow, hmaps]
    have hloses := loses_noteConnectSuccess d.target d.dc d.isMedia s.skip.maps
    refine h.told.after (Nat.le_refl _) hloses _ ?_
    intro ip dc exp hlookup x hx hconnects
    cases List.mem_singleton.mp hx
    obtain ⟨rfl, rfl⟩ := hconnects
    have hip := (h.told.ipFail _ _ exp (hloses.ipFail _ _ hlookup)).1
    rw [lookup_noteConnectSuccess _ _ _ hip] at hlookup
    cases hlookup
  fronted := by
    show Fronted skip.now skip.fronting ([.connected d s.skip.now] ++ s.history)
    rw [hnow]
    exact h.fronted.after (Nat.le_refl _) hfronting _

/-- A step that is no success and ends no session. -/
theorem Inv.quiet (h : Inv s) {skip : WsSkip.State} (e : List Event)
    (hsettings : skip.settings = s.skip.settings)
    (hnow : s.skip.now ≤ skip.now) (hloses : Loses s.skip.maps skip.maps)
    (hfronting : ∀ f ∈ skip.fronting, f ∈ s.skip.fronting)
    (he : ∀ x ∈ e, ∀ ip dc, ¬ x.Connects ip dc) :
    Inv { skip, history := e ++ s.history } where
  told := by
    show Told skip.settings skip.now skip.maps (e ++ s.history)
    rw [hsettings]
    exact h.told.after hnow hloses e fun ip dc _ _ x hx => he x hx ip dc
  fronted := h.fronted.after hnow hfronting e

-- =============================================================== steps

theorem failedSince_head {past : List Event} {e : Event} {ip : Text}
    {dc : Int} {time : Nat} (h : Fails past ip dc time e) :
    FailedSince (e :: past) ip dc time :=
  ⟨[], e, past, rfl, h, fun _ hx => absurd hx List.not_mem_nil⟩

/-- The direct loop of a session. -/
theorem inv_direct {d : Dial} {dial : Text → Attempt} (h : Inv s)
    (hstep : apply (.direct d dial) s = some s') : Inv s' := by
  simp only [apply] at hstep
  split at hstep
  · obtain ⟨skip, hskip, rfl⟩ := Option.map_eq_some_iff.mp hstep
    simp only [WsSkip.apply] at hskip
    split at hskip
    · cases hskip
      exact h.noted d rfl rfl rfl fun _ hf => hf
    · cases hskip
  · next allBlocked timedOut hloop =>
    obtain ⟨hb, ht⟩ := dialLoop_error hloop
    rw [Bool.true_and] at hb
    rw [Bool.false_or] at ht
    obtain ⟨skip, hskip, rfl⟩ := Option.map_eq_some_iff.mp hstep
    simp only [WsSkip.apply] at hskip
    split at hskip
    · have hloses := loses_shouldSkipFronting s.skip.settings d.target d.dc
        s.skip.now s.skip.maps
      have hquiet :
          Inv { skip := { s.skip with
                  maps := (shouldSkipFronting s.skip.settings d.target d.dc
                    s.skip.now s.skip.maps).2
                  direct := s.skip.direct.erase d }
                history := .directFailed d (attempts dial d) s.skip.now
                           :: s.history } :=
        h.quiet [_] rfl (Nat.le_refl _) hloses (fun _ hf => hf)
          fun x hx ip dc => by
            cases List.mem_singleton.mp hx
            exact id
      split at hskip
      · cases hskip
        refine hquiet.sessionFailed ?_ ?_
        · intro hblocked
          exact ⟨d, rfl, rfl, attempts dial d, s.skip.now,
            List.mem_cons_self, Nat.le_refl _, hb.symm.trans hblocked,
            .inl rfl⟩
        · intro hlate
          exact failedSince_head ⟨rfl, rfl, rfl, ht.symm.trans hlate⟩
      · cases hskip
        refine ⟨hquiet.told, ?_⟩
        intro f hf
        rcases List.mem_cons.mp hf with rfl | hf
        · exact ⟨attempts dial d, s.skip.now, List.mem_cons_self,
            Nat.le_refl _, hb, ht⟩
        · exact hquiet.fronted f hf
    · cases hskip

/-- Its fronting loop, which is the end of the rung. -/
theorem inv_fronting {d : Dial} {allBlocked timedOut : Bool}
    {dial : Text → Attempt} (h : Inv s)
    (hstep : apply (.fronting d allBlocked timedOut dial) s = some s') :
    Inv s' := by
  simp only [apply] at hstep
  split at hstep
  · obtain ⟨skip, hskip, rfl⟩ := Option.map_eq_some_iff.mp hstep
    simp only [WsSkip.apply] at hskip
    split at hskip
    · cases hskip
      exact h.noted d rfl rfl rfl fun _ hf => List.mem_of_mem_erase hf
    · cases hskip
  · next fBlocked fTimedOut hloop =>
    obtain ⟨skip, hskip, rfl⟩ := Option.map_eq_some_iff.mp hstep
    simp only [WsSkip.apply] at hskip
    split at hskip
    · next hopen =>
      obtain ⟨direct, told, hdirect, htold, hb, ht⟩ := h.fronted _ hopen
      have hquiet : Inv
          { skip := { s.skip with
              maps := (markFrontingFailed s.skip.settings d.target d.dc
                s.skip.now s.skip.maps).2
              fronting := s.skip.fronting.erase (d, allBlocked, timedOut) }
            history := .frontingFailed d (attempts dial d) s.skip.now
                       :: s.history } :=
        h.quiet [_] rfl (Nat.le_refl _) (loses_markFrontingFailed ..)
          (fun _ hf => List.mem_of_mem_erase hf)
          fun x hx ip dc => by
            cases List.mem_singleton.mp hx
            exact id
      split at hskip <;> cases hskip
      case h_2 => exact hquiet
      refine hquiet.sessionFailed ?_ ?_
      · intro hboth
        rw [Bool.and_eq_true] at hboth
        obtain ⟨hblocked, hfblocked⟩ := hboth
        refine ⟨d, rfl, rfl, direct, told, List.mem_cons_of_mem _ hdirect,
          htold, hb.symm.trans hblocked, .inr ⟨attempts dial d,
            List.mem_cons_self, ?_⟩⟩
        unfold tryWsFronting at hloop
        split at hloop
        · have hloop := (dialLoop_error hloop).1
          rw [Bool.true_and] at hloop
          exact hloop.symm.trans hfblocked
        · cases hloop
          cases hfblocked
      · intro heither
        rw [Bool.or_eq_true] at heither
        refine failedSince_head ⟨rfl, rfl, rfl, ?_⟩
        rcases heither with hlate | hflate
        · exact .inr ⟨direct, told, hdirect, ht.symm.trans hlate⟩
        · unfold tryWsFronting at hloop
          split at hloop
          · have hloop := (dialLoop_error hloop).2
            rw [Bool.false_or] at hloop
            exact .inl (hloop.symm.trans hflate)
          · cases hloop
            cases hflate
    · cases hskip

/-- The steps that are no loop of a session. -/
theorem inv_other {a : WsSkip.Action} (h : Inv s)
    (hstep : apply (.other a) s = some s') : Inv s' := by
  simp only [apply] at hstep
  obtain ⟨e, he, hstep⟩ := Option.bind_eq_some_iff.mp hstep
  obtain ⟨skip, hskip, rfl⟩ := Option.map_eq_some_iff.mp hstep
  have hnone : ∀ x ∈ ([] : List Event), ∀ ip dc, ¬ x.Connects ip dc :=
    fun _ hx => absurd hx List.not_mem_nil
  cases a with
  | pass duration =>
      cases he
      cases hskip
      exact h.quiet [] rfl (Nat.le_add_right ..) (.refl _) (fun _ hf => hf)
        hnone
  | reload live =>
      cases he
      cases hskip
      exact h.quiet [] rfl (Nat.le_refl _) (.refl _) (fun _ hf => hf) hnone
  | enter dc isMedia origIp =>
      cases he
      have hloses := loses_shouldSkipWs s.skip.live dc isMedia origIp
        s.skip.now s.skip.maps
      simp only [WsSkip.apply] at hskip
      split at hskip
      · cases hskip
        exact h.quiet [] rfl (Nat.le_refl _) hloses (fun _ hf => hf) hnone
      · cases hskip
        exact h.quiet [] rfl (Nat.le_refl _) hloses (fun _ hf => hf) hnone
  | connected d =>
      cases he
      simp only [WsSkip.apply] at hskip
      split at hskip
      · cases hskip
        exact h.noted d rfl rfl rfl fun _ hf => hf
      · cases hskip
  | tcpFailed dst dc =>
      cases he
      cases hskip
      have hquiet : Inv { s with
          history := .tcpFailed dst dc s.skip.now :: s.history } :=
        h.quiet [_] rfl (Nat.le_refl _) (.refl _) (fun _ hf => hf)
          fun x hx ip dc => by
            cases List.mem_singleton.mp hx
            exact id
      exact ⟨hquiet.told.markIpFailed (failedSince_head ⟨rfl, rfl, rfl⟩),
        hquiet.fronted⟩
  | poolDial dc isMedia hint =>
      cases he
      simp only [WsSkip.apply] at hskip
      generalize (if hint.isEmpty = true then wsTargetIp s.skip.live dc []
        else hint) = target at hskip
      split at hskip
      · cases hskip
        exact h
      · cases hskip
        exact h.quiet [] rfl (Nat.le_refl _) (.refl _) (fun _ hf => hf) hnone
  | poolConnected d =>
      cases he
      simp only [WsSkip.apply] at hskip
      split at hskip
      · cases hskip
        exact h.noted d rfl rfl rfl fun _ hf => hf
      · cases hskip
  | poolFailed d =>
      cases he
      simp only [WsSkip.apply] at hskip
      split at hskip
      · cases hskip
        exact h.quiet [] rfl (Nat.le_refl _) (.refl _) (fun _ hf => hf) hnone
      · cases hskip
  | directFailed d allBlocked timedOut => cases he
  | frontingConnected d allBlocked timedOut => cases he
  | frontingFailed d allBlocked timedOut fBlocked fTimedOut => cases he

/-- Every step keeps the invariant, one case for each action. -/
theorem inv_step {a : Action} (h : Inv s) (hstep : apply a s = some s') :
    Inv s' := by
  cases a with
  | direct d dial => exact inv_direct h hstep
  | fronting d allBlocked timedOut dial => exact inv_fronting h hstep
  | other a => exact inv_other h hstep

theorem inv_start (settings : Settings) (live : Config.Live) (now : Nat) :
    Inv (start settings live now) where
  told :=
    { blacklist := by
        intro dc isMedia exp h
        cases h
      ipFail := by
        intro ip dc exp h
        cases h }
  fronted := by
    intro f hf
    cases hf

-- ================================================================ runs

theorem settings_step {t t' : WsSkip.State} {a : WsSkip.Action}
    (h : WsSkip.apply a t = some t') : t'.settings = t.settings := by
  cases a with
  | pass duration => cases h; rfl
  | reload live => cases h; rfl
  | tcpFailed dst dc => cases h; rfl
  | enter dc isMedia origIp =>
      simp only [WsSkip.apply] at h
      split at h
      · cases h; rfl
      · cases h; rfl
  | connected d =>
      simp only [WsSkip.apply] at h
      split at h
      · cases h; rfl
      · cases h
  | directFailed d allBlocked timedOut =>
      simp only [WsSkip.apply] at h
      split at h
      · split at h
        · cases h; rfl
        · cases h; rfl
      · cases h
  | frontingConnected d allBlocked timedOut =>
      simp only [WsSkip.apply] at h
      split at h
      · cases h; rfl
      · cases h
  | frontingFailed d allBlocked timedOut fBlocked fTimedOut =>
      simp only [WsSkip.apply] at h
      split at h
      · split at h
        · cases h; rfl
        · cases h; rfl
      · cases h
  | poolDial dc isMedia hint =>
      simp only [WsSkip.apply] at h
      generalize (if hint.isEmpty = true then wsTargetIp t.live dc []
        else hint) = target at h
      split at h
      · cases h; rfl
      · cases h; rfl
  | poolConnected d =>
      simp only [WsSkip.apply] at h
      split at h
      · cases h; rfl
      · cases h
  | poolFailed d =>
      simp only [WsSkip.apply] at h
      split at h
      · cases h; rfl
      · cases h

/-- A step with its dials made is a step of `WsSkip`. -/
theorem apply_skip {a : Action} (h : apply a s = some s') :
    ∃ b, WsSkip.apply b s.skip = some s'.skip := by
  cases a with
  | direct d dial =>
      simp only [apply] at h
      split at h
      · obtain ⟨skip, hskip, rfl⟩ := Option.map_eq_some_iff.mp h
        exact ⟨_, hskip⟩
      · obtain ⟨skip, hskip, rfl⟩ := Option.map_eq_some_iff.mp h
        exact ⟨_, hskip⟩
  | fronting d allBlocked timedOut dial =>
      simp only [apply] at h
      split at h
      · obtain ⟨skip, hskip, rfl⟩ := Option.map_eq_some_iff.mp h
        exact ⟨_, hskip⟩
      · obtain ⟨skip, hskip, rfl⟩ := Option.map_eq_some_iff.mp h
        exact ⟨_, hskip⟩
  | other a =>
      obtain ⟨_, _, h⟩ := Option.bind_eq_some_iff.mp h
      obtain ⟨skip, hskip, rfl⟩ := Option.map_eq_some_iff.mp h
      exact ⟨a, hskip⟩

/-- Settings stay, and the invariant holds along a run. -/
theorem inv_run {settings : Settings} {live : Config.Live} {now : Nat}
    {as : List Action}
    (hrun : run apply as (start settings live now) = some s) :
    s.skip.settings = settings ∧ Inv s :=
  run_history apply (P := fun _ s => s.skip.settings = settings ∧ Inv s) hrun
    ⟨rfl, inv_start settings live now⟩
    fun _ _ _ _ _ h hstep =>
      have hskip := (apply_skip hstep).choose_spec
      ⟨(settings_step hskip).trans h.1, inv_step h.2 hstep⟩

/-- A session whose domains all time out, and one that finds its address
skipped. -/
def sampleRun : List Action :=
  [ .other (.enter 2 false sampleDial.origIp),
    .direct sampleDial fun _ => .timeout,
    .other (.pass 30) ]

end Wrtg.DirectDial
