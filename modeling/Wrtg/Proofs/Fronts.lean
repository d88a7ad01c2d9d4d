/-
Which front a DC is dialled at (`config.rs`, `mtproto.rs`), from the raw
configuration on.

`expectedFront` is the documented precedence, said of the keys: a DC's
own key, its last entry in `WRTG_DC_IPS`, for DC203 what DC2 has of
these, and the global front for the listed DCs. What the configuration
builder makes of the same keys is `lookup_dcFrontIps` and
`mem_loadFrontDcs`. The lookup asks for DC2 before DC203 and never for
DC203 in the list, so it answers as documented except for a DC203 that
has a front of its own beside DC2's, or is listed without DC2
(`front_precedence`).
-/
import Wrtg.Lib.Replay
import Wrtg.WsSkip

namespace Wrtg.WsSkip

open Lib Config CfBalancer

-- ====================================================== the precedence

/-- The trimmed value of `DC{dc}_FRONT_IP`, empty if there is none. -/
def ownFront (get : Getter) (dc : Int) : Text :=
  ((get ("DC".toList ++ Text.showInt dc ++ "_FRONT_IP".toList)).map
    Text.trim).getD []

/-- A `dc:ip` entry of `WRTG_DC_IPS` with an address. -/
def dcIpEntry (part : Text) : Option (Int × Text) :=
  match Text.splitOnce ':' (Text.trim part) with
  | none => none
  | some (dcS, ip) =>
      match Text.parseI32 (Text.trim dcS) with
      | none => none
      | some dc => if (Text.trim ip).isEmpty then none
          else some (dc, Text.trim ip)

def dcIpEntries (get : Getter) : List (Int × Text) :=
  match get "WRTG_DC_IPS".toList with
  | some raw => (Text.splitOn (fun c => c == ',' || c == ';') raw).filterMap
      dcIpEntry
  | none => []

/-- The last entry of a DC in `WRTG_DC_IPS`, empty if there is none. -/
def listedFront (get : Getter) (dc : Int) : Text :=
  (recordsOf dc (dcIpEntries get)).getLast?.getD []

/-- The explicit front of a DC. -/
def override (get : Getter) (dc : Int) : Text :=
  if ownFront get dc ≠ [] then ownFront get dc else listedFront get dc

/-- The first of the three keys that is set, or the stock front. -/
def globalFront (get : Getter) : Text :=
  Text.trim ((((get "WRTG_FRONT_IP".toList).or
    (get "FRONT_IP".toList)).or (get "TG_TPROXY_FRONT_IP".toList)).getD
      "149.154.167.220".toList)

/-- Whether a value of `WRTG_FRONT_DCS` lists a DC. -/
def listsDc (v : Text) (dc : Int) : Bool :=
  if Text.eqIgnoreAsciiCase v "all".toList || v == ['*'] then
    decide (1 ≤ dc ∧ dc ≤ 5)
  else if Text.eqIgnoreAsciiCase v "none".toList then false
  else Mtproto.validDc dc && (Text.splitOn isListSeparator v).any fun piece =>
    Text.parseI32 (Text.trim piece) == some dc

/-- Whether `WRTG_FRONT_DCS` lists a DC: the stock front's two where it
is unset or blank. -/
def isListed (get : Getter) (dc : Int) : Bool :=
  let v := ((get "WRTG_FRONT_DCS".toList).map Text.trim).getD []
  if v.isEmpty then dc == 2 || dc == 4 else listsDc v dc

/-- The front a DC is documented to have. -/
def expectedFront (get : Getter) (dc : Int) : Text :=
  if override get dc ≠ [] then override get dc
  else if dc = 203 ∧ override get 2 ≠ [] then override get 2
  else if isListed get dc = true ∨ (dc = 203 ∧ isListed get 2 = true) then
    globalFront get
  else []

-- ========================================================= the builder

theorem mem_eraseRepsLoop {x : Int} (a : Int) (as acc : List Int) :
    x ∈ List.eraseRepsBy.loop (· == ·) a as acc
      ↔ x ∈ acc ∨ x = a ∨ x ∈ as := by
  induction as generalizing a acc with
  | nil => simp [List.eraseRepsBy.loop, or_comm]
  | cons b as ih =>
      rw [List.eraseRepsBy.loop]
      split
      · next heq =>
          rw [ih, List.mem_cons, beq_iff_eq.mp heq]
          simp
      · rw [ih, List.mem_cons, List.mem_cons, or_assoc, or_left_comm]

theorem mem_eraseReps {x : Int} {xs : List Int} :
    x ∈ xs.eraseReps ↔ x ∈ xs := by
  unfold List.eraseReps List.eraseRepsBy
  cases xs with
  | nil => rfl
  | cons a as =>
      rw [mem_eraseRepsLoop, List.mem_cons]
      simp

/-- The list of DCs a value of `WRTG_FRONT_DCS` stands for. -/
theorem mem_parseFrontDcs {raw : Text} (hne : Text.trim raw ≠ [])
    (dc : Int) :
    dc ∈ parseFrontDcs raw ↔ listsDc (Text.trim raw) dc = true := by
  have hv : Text.trim (Text.trimMatches '\r' (Text.trim raw))
      = Text.trim raw := by
    rw [Text.trim_trimMatches (by decide)]
    exact Text.trim_trim raw
  unfold parseFrontDcs listsDc
  rw [hv]
  generalize Text.trim raw = v at hne
  dsimp only
  by_cases hall : (Text.eqIgnoreAsciiCase v "all".toList || v == ['*']) = true
  · rw [if_pos hall, if_pos hall, decide_eq_true_iff]
    simp only [List.mem_cons, List.not_mem_nil, or_false]
    omega
  rw [if_neg hall, if_neg hall]
  cases Text.eqIgnoreAsciiCase v "none".toList with
  | true => simp
  | false =>
  rw [if_neg (by simp [hne]), if_neg Bool.false_ne_true, mem_eraseReps,
    List.mem_mergeSort, List.mem_filter, List.mem_filterMap]
  simp only [Mtproto.validDc, Bool.and_eq_true, List.any_eq_true,
    beq_iff_eq]
  exact and_comm

theorem mem_loadFrontDcs (get : Getter) (dc : Int) :
    dc ∈ loadFrontDcsWith get ↔ isListed get dc = true := by
  have hv : ∀ v, Text.trim (Text.trimMatches '\r' (Text.trim v))
      = Text.trim v := by
    intro v
    rw [Text.trim_trimMatches (by decide)]
    exact Text.trim_trim v
  unfold loadFrontDcsWith isListed
  cases get "WRTG_FRONT_DCS".toList with
  | none => simp
  | some v =>
      simp only [hv, Option.map_some, Option.getD_some]
      by_cases hnil : Text.trim v = []
      · simp [hnil]
      · rw [if_pos (by simp [hnil]), if_neg (by simp [hnil]),
          mem_parseFrontDcs hnil]

/-- The entries of `WRTG_DC_IPS` are replayed, -/
theorem foldl_insertDcIp (parts : List Text)
    (map : AList fun _ : Int => Text) :
    parts.foldl insertDcIp map = replay (parts.filterMap dcIpEntry) map := by
  unfold replay
  rw [List.foldl_filterMap]
  congr 1
  funext map part
  unfold insertDcIp dcIpEntry
  cases Text.splitOnce ':' (Text.trim part) with
  | none => rfl
  | some r =>
      obtain ⟨dcS, ip⟩ := r
      simp only [Text.trimMatches_trim (q := '\r') (by decide)]
      cases Text.parseI32 (Text.trim dcS) with
      | none => rfl
      | some dc =>
          dsimp only
          split <;> rfl

/-- and the keys over them. -/
theorem foldl_insertDcKey (get : Getter) (dcs : List Int)
    (map : AList fun _ : Int => Text) :
    dcs.foldl (insertDcKey get) map
      = replay (dcs.filterMap fun dc =>
          if ownFront get dc = [] then none else some (dc, ownFront get dc))
          map := by
  unfold replay
  rw [List.foldl_filterMap]
  congr 1
  funext map dc
  unfold insertDcKey ownFront
  cases get ("DC".toList ++ Text.showInt dc ++ "_FRONT_IP".toList) with
  | none => rfl
  | some ip =>
      simp only [Text.trimMatches_trim (q := '\r') (by decide),
        Option.map_some, Option.getD_some, List.isEmpty_iff]
      split <;> rfl

theorem recordsOf_ownFront (get : Getter) {dc : Int} {dcs : List Int}
    (hnd : dcs.Nodup) (h : dc ∈ dcs) :
    recordsOf dc (dcs.filterMap fun dc =>
        if ownFront get dc = [] then none else some (dc, ownFront get dc))
      = if ownFront get dc = [] then [] else [ownFront get dc] := by
  have hother : ∀ dcs : List Int, dc ∉ dcs →
      recordsOf dc (dcs.filterMap fun dc =>
        if ownFront get dc = [] then none else some (dc, ownFront get dc))
        = [] := by
    intro dcs hdcs
    unfold recordsOf
    rw [List.filterMap_filterMap, List.filterMap_eq_nil_iff]
    intro d hd
    have hne : d ≠ dc := fun he => hdcs (he ▸ hd)
    split
    · rfl
    · exact if_neg hne
  induction dcs with
  | nil => cases h
  | cons d dcs ih =>
      rw [List.nodup_cons] at hnd
      rw [List.filterMap_cons]
      by_cases hd : d = dc
      · subst hd
        by_cases hown : ownFront get d = []
        · simp only [hown, if_true, hother dcs hnd.1]
        · simp only [hown, if_false, recordsOf_cons, if_true,
            hother dcs hnd.1]
      · have hmem := (List.mem_cons.mp h).resolve_left (Ne.symm hd)
        rw [← ih hnd.2 hmem]
        split
        · next hnone =>
            split at hnone
            · rfl
            · cases hnone
        · next r hsome =>
            split at hsome
            · cases hsome
            · cases hsome
              rw [recordsOf_cons, if_neg hd]

/-- The map holds the explicit front of every DC. -/
theorem lookup_dcFrontIps (get : Getter) {dc : Int}
    (hdc : Mtproto.validDc dc = true) :
    ((parseDcFrontIpsWith get).lookup dc).getD [] = override get dc := by
  have hmap : parseDcFrontIpsWith get
      = replay ([1, 2, 3, 4, 5, 203].filterMap fun dc =>
          if ownFront get dc = [] then none else some (dc, ownFront get dc))
          (replay (dcIpEntries get) ∅) := by
    unfold parseDcFrontIpsWith dcIpEntries
    rw [foldl_insertDcKey]
    cases get "WRTG_DC_IPS".toList with
    | none => rfl
    | some raw =>
        dsimp only
        rw [foldl_insertDcIp]
  have hmem : dc ∈ ([1, 2, 3, 4, 5, 203] : List Int) := by
    simp only [Mtproto.validDc, Bool.or_eq_true, Bool.and_eq_true,
      decide_eq_true_eq, beq_iff_eq] at hdc
    simp only [List.mem_cons, List.not_mem_nil, or_false]
    omega
  rw [hmap, lookup_replay, lookup_replay,
    recordsOf_ownFront get (by decide) hmem]
  unfold override listedFront
  by_cases hown : ownFront get dc = []
  · rw [if_pos hown, if_neg (not_not_intro hown), List.getLast?_nil,
      Option.none_or, AList.lookup_empty, Option.or_none]
  · rw [if_neg hown, if_pos hown]
    rfl

-- ========================================================== the lookup

theorem globalFront_eq (get : Getter) :
    (loadFrom get).frontIp = globalFront get := by
  unfold loadFrom globalFront
  exact Text.trim_trimMatches (by decide) _

theorem validDc_dcKey {dc : Int} (h : Mtproto.validDc dc = true) :
    Mtproto.validDc (dcKey dc) = true := by
  unfold dcKey
  split
  · rfl
  · exact h

/-- What the lookup answers, said of the keys. -/
theorem dcFrontIp_eq (get : Getter) (live : Live) {dc : Int}
    (hdc : Mtproto.validDc dc = true) :
    dcFrontIp (applyConfig (loadFrom get) live) dc
      = if override get (dcKey dc) ≠ [] then override get (dcKey dc)
        else if override get dc ≠ [] then override get dc
        else if isListed get (dcKey dc) = true then globalFront get
        else [] := by
  have happlies : (frontAppliesToDc (applyConfig (loadFrom get) live) dc
      = true) = (isListed get (dcKey dc) = true) := by
    unfold frontAppliesToDc
    rw [List.contains_iff_mem]
    exact propext (mem_loadFrontDcs get (dcKey dc))
  have hlookup : ∀ d, Mtproto.validDc d = true →
      ((applyConfig (loadFrom get) live).dcFrontIps.lookup d).getD []
        = override get d :=
    fun d hd => lookup_dcFrontIps get hd
  have hglobal : (applyConfig (loadFrom get) live).frontIp
      = globalFront get := globalFront_eq get
  unfold dcFrontIp
  simp only [hlookup dc hdc, hlookup _ (validDc_dcKey hdc), hglobal, happlies,
    Bool.not_eq_true', List.isEmpty_eq_false_iff]

/-- Direct WebSockets of a DC go to its documented front, or to the
original address where it has none. -/
def FrontedAsDocumented (get : Getter) (live : Live) (dc : Int) : Prop :=
  dcFrontIp live dc = expectedFront get dc
    ∧ ∀ orig,
      (expectedFront get dc ≠ [] →
          wsTargetIp live dc orig = expectedFront get dc)
        ∧ (expectedFront get dc = [] → orig ≠ [] →
          wsTargetIp live dc orig = orig)

/-- DC203 has no front of its own beside another one of DC2, and is not
listed without DC2. -/
def FoldsToDc2 (get : Getter) (dc : Int) : Prop :=
  dc = 203 →
    (override get 203 ≠ [] → override get 2 ≠ [] →
        override get 2 = override get 203)
      ∧ (override get 203 = [] → override get 2 = [] →
        isListed get 203 = true → isListed get 2 = false →
        globalFront get = [])

theorem wsTargetIp_eq {live : Live} {dc : Int} {front : Text}
    (h : dcFrontIp live dc = front) (orig : Text) :
    (front ≠ [] → wsTargetIp live dc orig = front)
      ∧ (front = [] → orig ≠ [] → wsTargetIp live dc orig = orig) := by
  unfold wsTargetIp
  rw [h]
  constructor
  · intro hne
    rw [if_pos (by simp [hne])]
  · intro hnil horig
    rw [if_neg (by simp [hnil]), if_pos (by simp [horig])]

theorem dcFrontIp_expected (get : Getter) (live : Live) {dc : Int}
    (hdc : Mtproto.validDc dc = true) :
    dcFrontIp (applyConfig (loadFrom get) live) dc = expectedFront get dc
      ↔ FoldsToDc2 get dc := by
  rw [dcFrontIp_eq get live hdc]
  unfold expectedFront FoldsToDc2
  by_cases h203 : dc = 203
  · subst h203
    have hkey : dcKey 203 = 2 := rfl
    rw [hkey]
    by_cases h2 : override get 2 = []
    · by_cases hown : override get 203 = []
      · cases isListed get 2 <;> cases isListed get 203 <;>
          simp [h2, hown, @eq_comm _ [] (globalFront get)]
      · simp [h2, hown]
    · by_cases hown : override get 203 = []
      · simp [h2, hown]
      · simp [h2, hown]
  · have hkey : dcKey dc = dc := if_neg h203
    rw [hkey]
    by_cases hown : override get dc = []
    · simp [h203, hown]
    · simp [h203, hown]

/-- A DC is fronted as documented if and only if it does not fall to the
fold onto DC2. -/
theorem front_precedence (get : Getter) (live : Live) (dc : Int)
    (hdc : Mtproto.validDc dc = true) :
    FrontedAsDocumented get (applyConfig (loadFrom get) live) dc
      ↔ FoldsToDc2 get dc := by
  rw [← dcFrontIp_expected get live hdc]
  exact ⟨fun h => h.1, fun h => ⟨h, wsTargetIp_eq h⟩⟩

/-- A front for DC2 and one for DC203. -/
def twoFronts : Getter := fun k =>
  if k = "DC2_FRONT_IP".toList then some "149.154.167.51".toList
  else if k = "DC203_FRONT_IP".toList then some "91.105.192.100".toList
  else none

def stockStart : Live where
  frontIp := "149.154.167.220".toList
  dcFrontIps := ∅
  frontDcs := [2, 4]
  balancer := Pools.empty

/-- DC2's front shadows the one that DC203 has of its own. -/
theorem front_precedence_shadowed :
    ¬ ∀ (get : Getter) (live : Live) (dc : Int), Mtproto.validDc dc = true →
      FrontedAsDocumented get (applyConfig (loadFrom get) live) dc := by
  intro h
  have hfront := (h twoFronts stockStart 203 rfl).1
  have hactual : dcFrontIp (applyConfig (loadFrom twoFronts) stockStart) 203
      = "149.154.167.51".toList := by decide +kernel
  have hexpected : expectedFront twoFronts 203 = "91.105.192.100".toList := by
    decide +kernel
  rw [hactual, hexpected] at hfront
  exact absurd hfront (by decide)

/-- DC2 has its own. -/
theorem front_precedence_sample :
    FrontedAsDocumented twoFronts
      (applyConfig (loadFrom twoFronts) stockStart) 2 :=
  (front_precedence twoFronts stockStart 2 rfl).mpr
    fun h => absurd h (by decide)

end Wrtg.WsSkip
